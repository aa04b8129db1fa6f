import NpuMatmul.Dispatch.Compilations
import NpuMatmul.Dispatch.Oblivious
import NpuMatmul.Dispatch.PatchedCells

set_option autoImplicit false

namespace NpuMatmul

open NdArray

section Requests

variable {R : Type} {choice : Int} {call call' : ExtensionCall R} {request request' : Request}

-- A request is what a call asks of the engine, with any outcome.
def ExtensionCall.Asks (call : ExtensionCall R) (request : Request) : Prop :=
  ∃ useStaticWeights outcome tiledOutcome,
    call.request useStaticWeights outcome tiledOutcome = some request

def Serves (calls : List (ExtensionCall R)) (requests : List Request) : Prop :=
  List.Forall₂ ExtensionCall.Asks calls requests

theorem serves_of_map {calls : List (ExtensionCall R)} {requests : List Request}
    (useStaticWeights : Bool) (outcome : MatmulOutcome) (tiledOutcome : TiledOutcome)
    (asked : calls.map (·.request useStaticWeights outcome tiledOutcome) = requests.map some) :
    Serves calls requests := by
  induction calls generalizing requests with
  | nil =>
      cases requests with
      | nil => exact .nil
      | cons request rest => cases asked
  | cons call rest ih =>
      cases requests with
      | nil => cases asked
      | cons request others =>
          obtain ⟨first, later⟩ := List.cons_eq_cons.mp asked
          exact .cons ⟨useStaticWeights, outcome, tiledOutcome, first⟩ (ih later)

theorem asks_cases (asks : call.Asks request) :
    ∃ m k l n, call.a.shape = [m, k] ∧ call.b.shape = [l, n] ∧
      ((∃ useStaticWeights outcome, call.kernel = .matmul ∧
          request = .matmul m k n call.backendChoice useStaticWeights outcome) ∨
        ∃ splits outcome, call.kernel = .matmulTiled splits ∧
          request = .matmulTiled m k n splits.toSplits call.backendChoice outcome) := by
  obtain ⟨useStaticWeights, outcome, tiledOutcome, asked⟩ := asks
  unfold ExtensionCall.request at asked
  split at asked
  case h_1 m k l n left right kernel =>
    exact ⟨m, k, l, n, left, right, .inl ⟨useStaticWeights, outcome, kernel,
      (Option.some.inj asked).symm⟩⟩
  case h_2 m k l n splits left right kernel =>
    exact ⟨m, k, l, n, left, right, .inr ⟨splits, tiledOutcome, kernel,
      (Option.some.inj asked).symm⟩⟩
  case h_3 => cases asked

theorem asks_keys (same : SameCall choice call call') (asks : call.Asks request)
    (asks' : call'.Asks request') :
    request.keys = request'.keys ∧ request.dynamicKeys = request'.dynamicKeys ∧
      request'.Stays choice := by
  obtain ⟨kernel, shapeA, shapeB, _, served⟩ := same
  obtain ⟨m, k, l, n, left, right, made⟩ := asks_cases asks
  obtain ⟨m', k', l', n', left', right', made'⟩ := asks_cases asks'
  have sizesA : [m, k] = [m', k'] := left.symm.trans (shapeA.trans left')
  have sizesB : [l, n] = [l', n'] := right.symm.trans (shapeB.trans right')
  cases sizesA
  cases sizesB
  obtain ⟨_, _, plain, rfl⟩ | ⟨splits, _, tiled, rfl⟩ := made
  · obtain ⟨_, _, _, rfl⟩ | ⟨_, _, tiled', _⟩ := made'
    · exact ⟨rfl, rfl, served⟩
    · rw [plain, tiled'] at kernel
      cases kernel
  · obtain ⟨_, _, plain', _⟩ | ⟨splits', _, tiled', rfl⟩ := made'
    · rw [tiled, plain'] at kernel
      cases kernel
    · rw [tiled, tiled'] at kernel
      cases kernel
      exact ⟨rfl, rfl, served⟩

theorem mem_askedKeys {key : String} {requests : List Request} :
    key ∈ askedKeys requests ↔ ∃ request ∈ requests, key ∈ request.keys := by
  induction requests with
  | nil => simp [askedKeys]
  | cons request rest ih =>
      have unfolded : askedKeys (request :: rest) = request.keys ∪ askedKeys rest := rfl
      simp [unfolded, ih]

theorem mem_tiledKeys {key : String} {requests : List Request} :
    key ∈ tiledKeys requests ↔ ∃ request ∈ requests, key ∈ request.dynamicKeys := by
  induction requests with
  | nil => simp [tiledKeys]
  | cons request rest ih =>
      have unfolded : tiledKeys (request :: rest) = request.dynamicKeys ∪ tiledKeys rest := rfl
      simp [unfolded, ih]

def Repeats (choice : Int) (requests later : List Request) : Prop :=
  ∀ request' ∈ later, request'.Stays choice ∧ ∃ request ∈ requests,
    request.keys = request'.keys ∧ request.dynamicKeys = request'.dynamicKeys

theorem serves_repeats {calls others : List (ExtensionCall R)} {requests later : List Request}
    (same : ∀ call' ∈ others, ∃ call ∈ calls, SameCall choice call call')
    (served : Serves calls requests) (servedLater : Serves others later) :
    Repeats choice requests later := by
  intro request' member
  obtain ⟨call', among, asks'⟩ := Traced.exists_related servedLater.flip member
  obtain ⟨call, first, alike⟩ := same call' among
  obtain ⟨request, present, asks⟩ := Traced.exists_related served first
  obtain ⟨keys, dynamicKeys, stays⟩ := asks_keys alike asks asks'
  exact ⟨stays, request, present, keys, dynamicKeys⟩

variable {s mid last : State} {requests later : List Request}

theorem serves_after {backendChoice : Int} (serving : s.serves backendChoice = true)
    (stays : ∀ request ∈ requests, request.Stays backendChoice)
    (ran : Runs.after step s requests = some last) : last.serves backendChoice = true := by
  apply Runs.after_invariant (I := fun s => s.serves backendChoice = true) _ serving
    (Runs.along_all stays) ran
  intro s request next serving stays moved
  exact step_serves serving stays moved

theorem repeats_compile (serving : s.serves choice = true)
    (stays : ∀ request ∈ requests, request.Stays choice) (repeats : Repeats choice requests later)
    (warm : Runs.after step s requests = some mid)
    (ran : Runs.after step mid later = some last) :
    last.compileCount = mid.compileCount + Runs.total step State.temporaries mid later := by
  have first := run_compiles serving stays warm
  have again := run_compiles (serves_after serving stays warm)
    (fun request member => (repeats request member).1) ran
  have asked : askedKeys later \ Memo.keys mid.graphCache = ∅ := by
    rw [first.graphCache, Finset.sdiff_eq_empty_iff_subset]
    intro key member
    obtain ⟨request', among, wanted⟩ := mem_askedKeys.mp member
    obtain ⟨_, request, present, keys, _⟩ := repeats request' among
    exact Finset.mem_union_right _ (mem_askedKeys.mpr ⟨request, present, keys ▸ wanted⟩)
  have tiled : tiledKeys later \ Memo.keys mid.globalDynamicFcGraphs = ∅ := by
    rw [first.dynamic, Finset.sdiff_eq_empty_iff_subset]
    intro key member
    obtain ⟨request', among, wanted⟩ := mem_tiledKeys.mp member
    obtain ⟨_, request, present, _, keys⟩ := repeats request' among
    exact Finset.mem_union_right _ (mem_tiledKeys.mpr ⟨request, present, keys ▸ wanted⟩)
  rw [again.count, asked, tiled]
  simp

def State.loadedFor (s : State) : Request → State
  | .matmul _ _ _ backendChoice _ outcome => s.loadBackend backendChoice outcome.load
  | .matmulTiled _ _ _ _ backendChoice outcome => s.loadBackend backendChoice outcome.load
  | _ => s

-- The first request finds its backend, or loads it, or switches to it.
def StartsOn (backendChoice : Int) (s : State) (requests : List Request) : Prop :=
  ∀ request ∈ requests.head?, (s.loadedFor request).serves backendChoice = true

theorem step_loadedFor (stays : request.Stays choice)
    (serving : (s.loadedFor request).serves choice = true) :
    step (s.loadedFor request) request = step s request := by
  cases request with
  | matmul M K N backendChoice useStaticWeights outcome =>
      cases stays
      simp only [State.loadedFor] at serving ⊢
      simp only [step, State.matmulNpu, State.matmulInt8, State.loadBackend_serves _ _ serving]
  | matmulTiled M K N splits backendChoice outcome =>
      cases stays
      simp only [State.loadedFor] at serving ⊢
      simp only [step, State.matmulTiledNpu, State.matmulTiled,
        State.loadBackend_serves _ _ serving]
  | loadBackend | initializeNpublas | getOrCreateGraph | execute | unloadActiveBackend => rfl

theorem started_repeats_compile (starts : StartsOn choice s requests)
    (stays : ∀ request ∈ requests, request.Stays choice) (repeats : Repeats choice requests later)
    (warm : Runs.after step s requests = some mid)
    (ran : Runs.after step mid later = some last) :
    last.compileCount = mid.compileCount + Runs.total step State.temporaries mid later := by
  cases requests with
  | nil =>
      have nothing : later = [] := by
        apply List.eq_nil_iff_forall_not_mem.mpr
        intro request' member
        obtain ⟨_, _, absent, _⟩ := repeats request' member
        cases absent
      subst nothing
      cases ran
      rfl
  | cons request rest =>
      have serving := starts request rfl
      have here := stays request List.mem_cons_self
      have loaded : Runs.after step (s.loadedFor request) (request :: rest) = some mid := by
        rw [← warm]
        exact congrArg (Option.bind · _) (step_loadedFor here serving)
      exact repeats_compile serving stays repeats loaded ran

theorem repeated_calls_compile {ι : Type} (calls : ι → List (ExtensionCall R)) {first : ι}
    {others : List ι}
    (same : ∀ other ∈ first :: others, List.Forall₂ (SameCall choice) (calls first) (calls other))
    (served : Serves (calls first) requests) (starts : StartsOn choice s requests)
    (servedLater : Serves (others.flatMap calls) later)
    (warm : Runs.after step s requests = some mid)
    (ran : Runs.after step mid later = some last) :
    last.compileCount = mid.compileCount + Runs.total step State.temporaries mid later := by
  have own : Repeats choice requests requests := by
    apply serves_repeats _ served served
    intro call made
    exact Traced.exists_related (same first List.mem_cons_self).flip made
  have repeats : Repeats choice requests later := by
    apply serves_repeats _ served servedLater
    intro call made
    obtain ⟨other, member, among⟩ := List.mem_flatMap.mp made
    exact Traced.exists_related (same other (List.mem_cons_of_mem first member)).flip among
  exact started_repeats_compile starts (fun request member => (own request member).1) repeats warm
    ran

end Requests

section Kernels

variable {F : Type}

theorem sameShape_fromDataPtr (m n : Nat) (C C' : Nat → F) :
    SameShape (fromDataPtr m n C) (fromDataPtr m n C') := rfl

theorem npuBackends_same [Zero F] (fp : FloatArith F) (backend backend' : Int → Backend)
    (memory memory' : NpuMemory F)
    {original original' : TorchTensor F → TorchTensor F → Option (NdArray F) → Option (NdArray F)}
    (originals : ∀ {a a' b b' : TorchTensor F} {out out' : Option (NdArray F)}, SameTensor a a' →
      SameTensor b b' → Option.Rel SameShape out out' →
        Option.Rel SameShape (original a b out) (original' a' b' out')) :
    SameBackends (npuBackends fp backend memory original)
      (npuBackends fp backend' memory' original') := by
  refine ⟨?_, originals⟩
  rintro choice call call' ⟨kernel, sameA, sameB, _⟩
  have shapeA : call.a.shape = call'.a.shape := sameA
  have shapeB : call.b.shape = call'.b.shape := sameB
  change Option.Rel SameShape (npuKernel fp backend memory call)
    (npuKernel fp backend' memory' call')
  unfold npuKernel
  rw [shapeA, shapeB, kernel]
  split
  · dsimp only
    split
    · exact .some (sameShape_fromDataPtr _ _ _ _)
    · cases PySplits.cut _ with
      | none => exact .none
      | some splits =>
          rw [Option.map_some, Option.map_some]
          exact .some (sameShape_fromDataPtr _ _ _ _)
  · exact .none

theorem multiply_same [NonUnitalNonAssocSemiring F] {a a' b b' : NdArray F} (sameA : SameShape a a')
    (sameB : SameShape b b') : Option.Rel SameShape (multiply a b) (multiply a' b') := by
  have shapeA : a.shape = a'.shape := sameA
  have shapeB : b.shape = b'.shape := sameB
  unfold multiply
  rw [shapeA, shapeB]
  cases innerLeft a'.shape with
  | none => exact .none
  | some inner =>
      cases innerRight b'.shape with
      | none => exact .none
      | some innerB =>
          cases broadcastShapes (leading a'.shape) (leading b'.shape) with
          | none => exact .none
          | some batch =>
              simp only [Option.bind_eq_bind, Option.bind_some]
              split
              · refine .some ?_
                simp only [SameShape, product, shapeA, shapeB]
              · exact .none

end Kernels

section Products

variable {R : Type} [Zero R]

structure PatchedProduct (R : Type) where
  backends : Backends R
  a : TorchTensor R
  b : TorchTensor R
  out : Option (NdArray R)

structure SameProduct (product other : PatchedProduct R) : Prop where
  backends : SameBackends product.backends other.backends
  a : SameTensor product.a other.a
  b : SameTensor product.b other.b
  out : Option.Rel SameShape product.out other.out

def PatchedProduct.calls (settings : Settings) (frames : Nat) (backendChoice : Option Int)
    (product : PatchedProduct R) : List (ExtensionCall R) :=
  (matmulPatch settings product.backends frames product.a product.b product.out backendChoice).calls

-- Once a product is computed on a backend, no number of products of these shapes compiles another
-- graph: not for other numbers, not after a compilation that failed, and for no rank or exception.
theorem repeated_products_compile_nothing {settings : Settings} {frames : Nat}
    {backendChoice : Option Int} {product : PatchedProduct R} {later : List (PatchedProduct R)}
    (same : ∀ other ∈ product :: later, SameProduct product other) {s mid last : State}
    {requests repeated : List Request}
    (served : Serves (product.calls settings frames backendChoice) requests)
    (starts : StartsOn (chosen settings backendChoice) s requests)
    (servedLater : Serves (later.flatMap (·.calls settings frames backendChoice)) repeated)
    (warm : Runs.after step s requests = some mid)
    (ran : Runs.after step mid repeated = some last) :
    last.compileCount = mid.compileCount + Runs.total step State.temporaries mid repeated := by
  apply repeated_calls_compile _ _ served starts servedLater warm ran
  intro other member
  obtain ⟨backends, a, b, out⟩ := same other member
  exact (matmulPatch_alike backends frames a b out backendChoice).calls

def filledProduct (value : ℚ) : PatchedProduct ℚ where
  backends := npuBackends (exact default) (fun _ => saturatingBackend)
    ⟨fun _ => default, fun _ => default⟩ fun a b _ => multiply a.toNdArray b.toNdArray
  a := { shape := [2, 3, 3], entry := fun _ => value, isCuda := false, isFloat32 := true }
  b := { shape := [2, 3, 2], entry := fun _ => value, isCuda := false, isFloat32 := true }
  out := none

theorem filledProduct_same (value other : ℚ) :
    SameProduct (filledProduct value) (filledProduct other) where
  backends := npuBackends_same _ _ _ _ _ fun a b _ => multiply_same a.shape b.shape
  a := ⟨rfl, rfl, rfl⟩
  b := ⟨rfl, rfl, rfl⟩
  out := .none

def servedProduct (build : BuildOutcome) : List Request :=
  [.matmul 4 4 4 2 false (matmulWith build true), .matmul 4 4 4 2 false (matmulWith build true)]

-- The first product switches the backend and its graph fails, and the second product does not
-- compile it either.
theorem repeated_products_filled :
    loadedEngine.serves 2 = false ∧
    ∃ mid last, Runs.after step loadedEngine (servedProduct .notFinalized) = some mid ∧
      Runs.after step mid (servedProduct .finalized) = some last ∧
        last.compileCount = mid.compileCount := by
  have same : ∀ other ∈ [filledProduct 1, filledProduct 2],
      SameProduct (filledProduct 1) other := by
    simp [filledProduct_same]
  have starts : StartsOn (chosen plainSettings (some 2)) loadedEngine
      (servedProduct .notFinalized) := by
    rintro request ⟨⟩
    rfl
  have served : Serves ((filledProduct 1).calls plainSettings 3 (some 2))
      (servedProduct .notFinalized) :=
    serves_of_map false (matmulWith .notFinalized true) (tiledWith .finalized true) rfl
  have servedLater : Serves ([filledProduct 2].flatMap (·.calls plainSettings 3 (some 2)))
      (servedProduct .finalized) :=
    serves_of_map false (matmulWith .finalized true) (tiledWith .finalized true) rfl
  have warm : Runs.after step loadedEngine (servedProduct .notFinalized) = some _ := rfl
  refine ⟨rfl, _, _, warm, rfl, ?_⟩
  exact repeated_products_compile_nothing same served starts servedLater warm rfl

end Products

end NpuMatmul
