import NpuMatmul.Dispatch.PatchSpec
import NpuMatmul.Shared.Alike
import NpuMatmul.Shared.Axes
import NpuMatmul.Shared.Elementwise

set_option autoImplicit false

-- The package looks at shapes, never at numbers.
namespace NpuMatmul

open NdArray Traced

variable {R : Type}

def SameShape (a b : NdArray R) : Prop := a.shape = b.shape

structure SameTensor (a b : TorchTensor R) : Prop where
  shape : a.shape = b.shape
  isCuda : a.isCuda = b.isCuda
  isFloat32 : a.isFloat32 = b.isFloat32

structure SameCall (backendChoice : Int) (call call' : ExtensionCall R) : Prop where
  kernel : call.kernel = call'.kernel
  a : SameShape call.a call'.a
  b : SameShape call.b call'.b
  backendChoice : call.backendChoice = backendChoice ∧ call'.backendChoice = backendChoice

-- Two runs of the kernels and of torch._matmul_original: whether they raise, and what shape they
-- return, does not depend on the numbers.
structure SameBackends (backends other : Backends R) : Prop where
  kernel : ∀ {backendChoice : Int} {call call' : ExtensionCall R},
    SameCall backendChoice call call' →
      Option.Rel SameShape (backends.kernel call) (other.kernel call')
  matmulOriginal : ∀ {a a' b b' : TorchTensor R} {out out' : Option (NdArray R)}, SameTensor a a' →
    SameTensor b b' → Option.Rel SameShape out out' →
      Option.Rel SameShape (backends.matmulOriginal a b out) (other.matmulOriginal a' b' out')

abbrev SameDispatch (backendChoice : Int) (t u : Dispatch R (NdArray R)) : Prop :=
  Alike (SameCall backendChoice) SameShape t u

theorem SameTensor.holding {a a' : TorchTensor R} {c c' : NdArray R} (same : SameTensor a a')
    (shape : SameShape c c') : SameTensor (a.holding c) (a'.holding c') :=
  ⟨shape, same.isCuda, same.isFloat32⟩

section Views

variable {a a' b b' : NdArray R}

theorem SameShape.unsqueeze (same : SameShape a a') (axis : Nat) :
    SameShape (a.unsqueeze axis) (a'.unsqueeze axis) :=
  congrArg (List.insertIdx · axis 1) same

theorem SameShape.squeeze (same : SameShape a a') (axis : Nat) :
    SameShape (a.squeeze axis) (a'.squeeze axis) := by
  have shape : a.shape = a'.shape := same
  unfold SameShape NdArray.squeeze
  rw [shape]
  split
  · rfl
  · exact shape

theorem SameShape.crop (same : SameShape a a') (sizes : List Nat) :
    SameShape (a.crop sizes) (a'.crop sizes) :=
  congrArg (List.zipWith min sizes) same

theorem SameShape.select (same : SameShape a a') (i : Nat) :
    Option.Rel SameShape (a.select i) (a'.select i) := by
  have shape : a.shape = a'.shape := same
  unfold NdArray.select
  rw [shape]
  split
  · exact .none
  · split
    · exact .some rfl
    · exact .none

theorem SameShape.reshape (same : SameShape a a') (shape : List Nat) :
    Option.Rel SameShape (a.reshape shape) (a'.reshape shape) := by
  have old : a.shape = a'.shape := same
  unfold NdArray.reshape
  rw [old]
  split
  · exact .some rfl
  · exact .none

theorem SameShape.reshapeRows (same : SameShape a a') (trailing : List Nat) :
    Option.Rel SameShape (a.reshapeRows trailing) (a'.reshapeRows trailing) := by
  have old : a.shape = a'.shape := same
  unfold NdArray.reshapeRows
  rw [old]
  split
  · exact .none
  · exact same.reshape _

theorem rel_map {α α' β β' : Type} {P : α → α' → Prop} {Q : β → β' → Prop} {f : α → β}
    {f' : α' → β'} {x : Option α} {x' : Option α'} (related : Option.Rel P x x')
    (mapped : ∀ value value', P value value' → Q (f value) (f' value')) :
    Option.Rel Q (x.map f) (x'.map f') := by
  cases related with
  | none => exact .none
  | some holds => exact .some (mapped _ _ holds)

theorem SameShape.expand (same : SameShape a a') (sizes : List Nat) :
    Option.Rel SameShape (a.expand sizes) (a'.expand sizes) := by
  have old : a.shape = a'.shape := same
  unfold NdArray.expand
  rw [old]
  split
  · exact .some rfl
  · exact .none

theorem SameShape.assign (same : SameShape a a') (other : SameShape b b') (sizes : List Nat) :
    Option.Rel SameShape (a.assign sizes b) (a'.assign sizes b') := by
  have old : a.shape = a'.shape := same
  unfold NdArray.assign
  rw [old]
  exact rel_map (other.expand _) fun _ _ _ => rfl

theorem SameShape.copy (same : SameShape a a') (other : SameShape b b') :
    Option.Rel SameShape (a.copy b) (a'.copy b') := by
  have old : a.shape = a'.shape := same
  unfold NdArray.copy
  rw [old]
  exact other.expand _

theorem sameShape_stack {parts parts' : List (NdArray R)}
    (same : List.Forall₂ SameShape parts parts') :
    Option.Rel SameShape (stack parts) (stack parts') := by
  cases same with
  | nil => exact .none
  | @cons first first' rest rest' head tail =>
      have shape : first.shape = first'.shape := head
      have length : rest.length = rest'.length := tail.length_eq
      have whole : (∀ part ∈ rest, part.shape = first.shape) ↔
          ∀ part ∈ rest', part.shape = first'.shape := by
        rw [shape]
        clear length
        induction tail with
        | nil => simp
        | cons one _ ih =>
            have own : _ = _ := one
            simp [own, ih]
      simp only [stack, whole, length]
      split
      · exact .some (congrArg (List.cons _) shape)
      · exact .none

variable {S Q : Type} {c c' : NdArray S}

theorem SameShape.map (f f' : R → Q) (same : SameShape a a') : SameShape (a.map f) (a'.map f') :=
  same

theorem SameShape.transpose (same : SameShape a a') (axis : Nat) :
    SameShape (a.transpose axis) (a'.transpose axis) :=
  congrArg (swapAxes axis) same

theorem SameShape.transposeLast (same : SameShape a a') :
    SameShape a.transposeLast a'.transposeLast := by
  have shape : a.shape = a'.shape := same
  unfold NdArray.transposeLast
  rw [shape]
  exact same.transpose _

theorem SameShape.update (op op' : R → S → Q) (same : SameShape a a') (other : SameShape c c') :
    Option.Rel SameShape (a.update op c) (a'.update op' c') := by
  have shape : a.shape = a'.shape := same
  unfold NdArray.update
  rw [shape]
  exact rel_map (other.expand _) fun _ _ _ => rfl

theorem SameShape.combine (op op' : R → S → Q) (same : SameShape a a') (other : SameShape c c') :
    Option.Rel SameShape (a.combine op c) (a'.combine op' c') := by
  have left : a.shape = a'.shape := same
  have right : c.shape = c'.shape := other
  unfold NdArray.combine NdArray.expand
  rw [left, right]
  cases broadcastShapes a'.shape c'.shape with
  | none => exact .none
  | some shape =>
      simp only [Option.bind_eq_bind, Option.bind_some]
      split
      · simp only [Option.bind_some]
        split
        · exact .some rfl
        · exact .none
      · exact .none

end Views

section Patch

variable {a a' b b' : TorchTensor R} {out out' : Option (NdArray R)} {res res' : NdArray R}
  {choice : Int}

theorem handBack_alike (outs : Option.Rel SameShape out out') (same : SameShape res res') :
    SameDispatch choice (handBack out res) (handBack out' res') := by
  cases outs with
  | none => exact .pure same
  | some target => exact .lift (target.copy same)

variable {recurse recurse' : TorchTensor R → TorchTensor R → Dispatch R (NdArray R)}
  (nested : ∀ {a a' b b' : TorchTensor R}, SameTensor a a' → SameTensor b b' →
    SameDispatch choice (recurse a b) (recurse' a' b'))
  (sameA : SameTensor a a') (sameB : SameTensor b b')

include nested sameA sameB

theorem matmulMatrices_alike [Zero R]
    {apply apply' : NdArray R → NdArray R → Dispatch R (NdArray R)}
    (applied : SameDispatch choice (apply a.toNdArray b.toNdArray)
      (apply' a'.toNdArray b'.toNdArray)) :
    SameDispatch choice (matmulMatrices recurse a b apply)
      (matmulMatrices recurse' a' b' apply') := by
  have shapeA : SameShape a.toNdArray a'.toNdArray := sameA.shape
  have shapeB : SameShape b.toNdArray b'.toNdArray := sameB.shape
  unfold matmulMatrices
  rw [sameA.shape, sameB.shape]
  split
  · split
    · apply (Alike.lift (SameShape.assign rfl shapeA _)).bind
      intro aPadded aPadded' padA
      apply (Alike.lift (SameShape.assign rfl shapeB _)).bind
      intro bPadded bPadded' padB
      apply (nested (sameA.holding padA) (sameB.holding padB)).bind
      intro resPadded resPadded' same
      exact .pure (same.crop _)
    · exact applied
  · exact .raised

theorem matmulRows_alike :
    SameDispatch choice (matmulRows recurse a b) (matmulRows recurse' a' b') := by
  have shapeA : SameShape a.toNdArray a'.toNdArray := sameA.shape
  unfold matmulRows
  rw [sameA.shape, sameB.shape]
  cases fromEnd a'.shape 1 with
  | none => exact .raised
  | some columnsA =>
      cases fromEnd b'.shape 1 with
      | none => exact .raised
      | some columnsB =>
          apply (Alike.lift (shapeA.reshapeRows [columnsA])).bind
          intro flat flat' same
          apply (nested (sameA.holding same) sameB).bind
          intro res res' shape
          exact .lift (shape.reshape _)

theorem matmulSlices_alike :
    SameDispatch choice (matmulSlices recurse a b)
      (matmulSlices recurse' a' b') := by
  have shapeA : SameShape a.toNdArray a'.toNdArray := sameA.shape
  have shapeB : SameShape b.toNdArray b'.toNdArray := sameB.shape
  have equal {α : Type} (found : Option α) :
      Alike (SameCall choice) Eq (.lift found : Dispatch R α) (.lift found) := by
    cases found with
    | none => exact .raised
    | some value => exact .pure rfl
  unfold matmulSlices
  rw [sameA.shape, sameB.shape]
  apply (equal _).bind
  rintro batch _ rfl
  apply (Alike.lift (shapeA.expand _)).bind
  intro aExpanded aExpanded' wideA
  apply (Alike.lift (shapeB.expand _)).bind
  intro bExpanded bExpanded' wideB
  apply (equal _).bind
  rintro rowsA _ rfl
  apply (equal _).bind
  rintro columnsA _ rfl
  apply (Alike.lift (wideA.reshapeRows _)).bind
  intro aFlat aFlat' flatA
  apply (equal _).bind
  rintro rowsB _ rfl
  apply (equal _).bind
  rintro columnsB _ rfl
  apply (Alike.lift (wideB.reshapeRows _)).bind
  intro bFlat bFlat' flatB
  have count : aFlat.shape = aFlat'.shape := flatA
  rw [count]
  have turn (i : Nat) : SameDispatch choice
      (do
        let aSlice ← .lift (aFlat.select i)
        let bSlice ← .lift (bFlat.select i)
        recurse (a.holding aSlice) (b.holding bSlice))
      (do
        let aSlice ← .lift (aFlat'.select i)
        let bSlice ← .lift (bFlat'.select i)
        recurse' (a'.holding aSlice) (b'.holding bSlice)) := by
    apply (Alike.lift (flatA.select i)).bind
    intro aSlice aSlice' sliceA
    apply (Alike.lift (flatB.select i)).bind
    intro bSlice bSlice' sliceB
    exact nested (sameA.holding sliceA) (sameB.holding sliceB)
  apply (Alike.each fun i _ => turn i).bind
  intro results results' same
  apply (Alike.lift (sameShape_stack same)).bind
  intro stacked stacked' shape
  exact .lift (shape.reshape _)

end Patch

section Calls

variable {settings : Settings} {backends other : Backends R} (runs : SameBackends backends other)

include runs

theorem forward_alike {a a' b b' : NdArray R} (sameA : SameShape a a') (sameB : SameShape b b')
    (backendChoice : Int) :
    SameDispatch backendChoice (forward settings backends backendChoice a b)
      (forward settings other backendChoice a' b') := by
  have shapeA : a.shape = a'.shape := sameA
  have shapeB : b.shape = b'.shape := sameB
  have same (kernel : Kernel) : SameCall backendChoice ⟨kernel, a, b, backendChoice⟩
      ⟨kernel, a', b', backendChoice⟩ := ⟨rfl, sameA, sameB, rfl, rfl⟩
  unfold forward
  rw [shapeA, shapeB]
  split
  · split
    · exact .called (same _) (runs.kernel (same _))
    · exact .raised
  · exact .raised

theorem matmulPatch_alike [Zero R] (frames : Nat) {a a' b b' : TorchTensor R}
    {out out' : Option (NdArray R)} (sameA : SameTensor a a') (sameB : SameTensor b b')
    (outs : Option.Rel SameShape out out') (backendChoice : Option Int) :
    SameDispatch (chosen settings backendChoice)
      (matmulPatch settings backends frames a b out backendChoice)
      (matmulPatch settings other frames a' b' out' backendChoice) := by
  induction frames generalizing a a' b b' out out' backendChoice with
  | zero => exact .raised
  | succ frames ih =>
      have shapeA : SameShape a.toNdArray a'.toNdArray := sameA.shape
      have shapeB : SameShape b.toNdArray b'.toNdArray := sameB.shape
      have nested {a a' b b' : TorchTensor R} (left : SameTensor a a') (right : SameTensor b b') :=
        ih left right Option.Rel.none (some (backendChoice.getD settings.defaultBackendChoice))
      have original {out out' : Option (NdArray R)} (outs : Option.Rel SameShape out out') :
          SameDispatch (chosen settings backendChoice) (.lift (backends.matmulOriginal a b out))
            (.lift (other.matmulOriginal a' b' out')) :=
        .lift (runs.matmulOriginal sameA sameB outs)
      have slices {out out' : Option (NdArray R)} (outs : Option.Rel SameShape out out') :=
        ((matmulSlices_alike nested sameA sameB).bind
          fun _ _ same => handBack_alike outs same).attempt (original outs)
      unfold matmulPatch
      simp only [sameA.shape, sameB.shape, sameA.isCuda, sameB.isCuda, sameA.isFloat32,
        sameB.isFloat32]
      split
      · exact original outs
      · split
        · apply (nested (sameA.holding (shapeA.unsqueeze 0)) sameB).bind
          intro res res' same
          exact handBack_alike outs (same.squeeze 0)
        · apply (nested sameA (sameB.holding (shapeB.unsqueeze 1))).bind
          intro res res' same
          cases outs with
          | none => exact slices .none
          | some target =>
              apply (Alike.lift (target.copy (same.squeeze 1))).bind
              intro copied copied' shape
              exact slices (.some shape)
        · apply (matmulMatrices_alike nested sameA sameB
            (forward_alike runs shapeA shapeB _)).bind
          intro res res' same
          exact handBack_alike outs same
        · split
          · apply (matmulRows_alike nested sameA sameB).bind
            intro res res' same
            exact handBack_alike outs same
          · exact slices outs

end Calls

end NpuMatmul
