import NpuMatmul.Engine.RequestSpec

set_option autoImplicit false

namespace NpuMatmul

-- The functions the module binds. matmul_out and matmul_tiled_out differ from matmul and
-- matmul_tiled in who allocates the result.
inductive EntryPoint where
  | matmul (M K N : Nat) (backendChoice : Int) (useStaticWeights : Bool) (outcome : MatmulOutcome)
  | matmulTiled (M K N : Nat) (splits : Splits) (backendChoice : Int) (outcome : TiledOutcome)
  | setPowerMode (powerMode : Int)
  | setBackend (backendChoice : Int) (outcome : LoadOutcome)
  | prepareMatmul (M K N : Nat) (useStaticWeights : Bool) (outcome : BuildOutcome)
  | initializeNpublas (backendChoice : Int) (quiet : Bool) (outcome : LoadOutcome)
  | hasGraph (M K N : Nat)

def EntryPoint.request : EntryPoint → Option Request
  | .matmul M K N backendChoice useStaticWeights outcome =>
      some (.matmul M K N backendChoice useStaticWeights outcome)
  | .matmulTiled M K N splits backendChoice outcome =>
      some (.matmulTiled M K N splits backendChoice outcome)
  | .setBackend backendChoice outcome => some (.loadBackend backendChoice outcome)
  | .prepareMatmul M K N useStaticWeights outcome =>
      some (.getOrCreateGraph M K N useStaticWeights none outcome)
  | .initializeNpublas backendChoice quiet outcome =>
      some (.initializeNpublas backendChoice quiet outcome)
  | .setPowerMode _ | .hasGraph .. => none

def enter (s : State) (entry : EntryPoint) : Option State :=
  match entry.request with
  | some request => step s request
  | none => some s

namespace State

section Dereferences

variable (s : State)

-- The states in which each function of the engine dereferences interfaceProviderTable.
def unloadDereferences : List State := if s.interface.isSome then [s] else []

def createDereferences : List State := if s.interface.isSome then [s] else []

def loadDereferences (backendChoice : Int) (outcome : LoadOutcome) : List State :=
  if s.serves backendChoice then []
  else s.unloadDereferences ++ (s.reopened backendChoice outcome).createDereferences

def powerModeDereferences : List State :=
  if s.isLoaded && (s.currentBackendChoice = 1 || s.currentBackendChoice = 7) then [s] else []

def diagnosticsDereferences (quiet : Bool) : List State :=
  if s.diagnosticsPerformed || !s.isLoaded || quiet then [] else [s]

def getOrCreateDereferences (M K N : Nat) (useStaticWeights : Bool) : List State :=
  if (s.graphCache.lookup (weightsKey M K N useStaticWeights none)).isSome then [] else [s]

def matmulDereferences (M K N : Nat) (backendChoice : Int) (useStaticWeights : Bool)
    (outcome : MatmulOutcome) : List State :=
  let loaded := s.loadBackend backendChoice outcome.load
  s.loadDereferences backendChoice outcome.load ++
    if loaded.isLoaded then
      loaded.getOrCreateDereferences M K N useStaticWeights ++
        match loaded.getOrCreateGraph M K N useStaticWeights none outcome.graph with
        | some (t, graph) => if graph.isValid ∧ K ≠ 0 then [t] else []
        | none => []
    else []

-- matmul_tiled takes the table from getInterface, to create a graph and to execute it.
def tiledDereferences (M K N : Nat) (splits : Splits) (backendChoice : Int)
    (outcome : TiledOutcome) : List State :=
  let loaded := s.loadBackend backendChoice outcome.load
  let key := graphKey (M / splits.m) (K / splits.k) (N / splits.n)
  let (t, graph) :=
    loaded.dynamicGraph (M / splits.m) (K / splits.k) (N / splits.n) outcome.graph
  s.loadDereferences backendChoice outcome.load ++
    if loaded.isLoaded then
      if splits.m = 0 ∨ splits.k = 0 ∨ splits.n = 0 ∨ K = 0 then []
      else
        (if (loaded.globalDynamicFcGraphs.lookup key).isSome then [] else [loaded]) ++
          if graph.isValid then [t] else []
    else []

end Dereferences

end State

def dereferences (s : State) : EntryPoint → List State
  | .matmul M K N backendChoice useStaticWeights outcome =>
      s.matmulDereferences M K N backendChoice useStaticWeights outcome
  | .matmulTiled M K N splits backendChoice outcome =>
      s.tiledDereferences M K N splits backendChoice outcome
  | .setPowerMode _ => s.powerModeDereferences
  | .setBackend backendChoice outcome => s.loadDereferences backendChoice outcome
  | .prepareMatmul M K N useStaticWeights _ => s.getOrCreateDereferences M K N useStaticWeights
  | .initializeNpublas backendChoice quiet outcome =>
      s.loadDereferences backendChoice outcome ++
        (s.loadBackend backendChoice outcome).diagnosticsDereferences quiet
  | .hasGraph .. => []

def TablePresent (s : State) (entry : EntryPoint) : Prop :=
  (s.isLoaded = true → s.interface.isSome = true) ∧
    ∀ t ∈ dereferences s entry, t.interface.isSome = true

def PreparesLoaded (s : State) : EntryPoint → Prop
  | .prepareMatmul .. => s.interface.isSome = true
  | _ => True

section Present

variable {s : State}

theorem loadDereferences_present (s : State) (backendChoice : Int) (outcome : LoadOutcome) :
    ∀ t ∈ s.loadDereferences backendChoice outcome, t.interface.isSome = true := by
  intro t member
  simp only [State.loadDereferences, State.unloadDereferences, State.createDereferences] at member
  split at member
  · cases member
  · obtain old | new := List.mem_append.mp member
    · split at old
      · rw [List.mem_singleton.mp old]
        assumption
      · cases old
    · split at new
      · rw [List.mem_singleton.mp new]
        assumption
      · cases new

theorem matmulDereferences_present (formed : s.WellFormed) (M K N : Nat) (backendChoice : Int)
    (useStaticWeights : Bool) (outcome : MatmulOutcome) :
    ∀ t ∈ s.matmulDereferences M K N backendChoice useStaticWeights outcome,
      t.interface.isSome = true := by
  obtain ⟨_, _, loaded, _⟩ := State.loadBackend_correct formed backendChoice outcome.load
  intro t member
  rw [State.matmulDereferences] at member
  obtain load | later := List.mem_append.mp member
  · exact loadDereferences_present s backendChoice outcome.load t load
  · split at later
    case isTrue ready =>
      have present := loaded.loaded ready
      obtain creation | execution := List.mem_append.mp later
      · rw [State.getOrCreateDereferences] at creation
        split at creation
        · cases creation
        · rw [List.mem_singleton.mp creation]
          exact present
      · split at execution
        · rename_i u graph returned
          have same := State.getOrCreateGraph_sameBackend returned
          split at execution
          · rw [List.mem_singleton.mp execution, State.interface, same.backendContainer]
            exact present
          · cases execution
        · cases execution
    case isFalse => cases later

theorem tiledDereferences_present (formed : s.WellFormed) (M K N : Nat) (splits : Splits)
    (backendChoice : Int) (outcome : TiledOutcome) :
    ∀ t ∈ s.tiledDereferences M K N splits backendChoice outcome, t.interface.isSome = true := by
  obtain ⟨_, _, loaded, _⟩ := State.loadBackend_correct formed backendChoice outcome.load
  have same := State.dynamicGraph_same (s.loadBackend backendChoice outcome.load) (M / splits.m)
    (K / splits.k) (N / splits.n) outcome.graph
  rcases found : (s.loadBackend backendChoice outcome.load).dynamicGraph (M / splits.m)
    (K / splits.k) (N / splits.n) outcome.graph with ⟨u, graph⟩
  intro t member
  rw [found] at same
  simp only [State.tiledDereferences, found] at member
  obtain load | later := List.mem_append.mp member
  · exact loadDereferences_present s backendChoice outcome.load t load
  · split at later
    case isTrue ready =>
      have present := loaded.loaded ready
      split at later
      · cases later
      · obtain creation | execution := List.mem_append.mp later
        · split at creation
          · cases creation
          · rw [List.mem_singleton.mp creation]
            exact present
        · split at execution
          · rw [List.mem_singleton.mp execution, State.interface, same.1.backendContainer]
            exact present
          · cases execution
    case isFalse => cases later

theorem tablePresent_iff (formed : s.WellFormed) (entry : EntryPoint) :
    TablePresent s entry ↔ PreparesLoaded s entry := by
  rw [TablePresent, and_iff_right formed.loaded]
  cases entry with
  | matmul M K N backendChoice useStaticWeights outcome =>
      exact iff_of_true
        (matmulDereferences_present formed M K N backendChoice useStaticWeights outcome) trivial
  | matmulTiled M K N splits backendChoice outcome =>
      exact iff_of_true
        (tiledDereferences_present formed M K N splits backendChoice outcome) trivial
  | setPowerMode powerMode =>
      refine iff_of_true ?_ trivial
      intro t member
      simp only [dereferences, State.powerModeDereferences] at member
      split at member
      case isTrue ready =>
        rw [List.mem_singleton.mp member]
        simp only [Bool.and_eq_true] at ready
        exact formed.loaded ready.1
      case isFalse => cases member
  | setBackend backendChoice outcome =>
      exact iff_of_true (loadDereferences_present s backendChoice outcome) trivial
  | prepareMatmul M K N useStaticWeights outcome =>
      simp only [dereferences, State.getOrCreateDereferences, PreparesLoaded]
      cases table : s.interface with
      | none => simp [formed.cached table, table]
      | some qnn =>
          refine iff_of_true ?_ rfl
          intro t member
          split at member
          · cases member
          · simp [List.mem_singleton.mp member, table]
  | initializeNpublas backendChoice quiet outcome =>
      obtain ⟨_, _, loaded, _⟩ := State.loadBackend_correct formed backendChoice outcome
      refine iff_of_true ?_ trivial
      intro t member
      obtain load | later := List.mem_append.mp member
      · exact loadDereferences_present s backendChoice outcome t load
      · rw [State.diagnosticsDereferences] at later
        split at later
        · cases later
        case isFalse due =>
          rw [List.mem_singleton.mp later]
          simp only [Bool.or_eq_true, Bool.not_eq_true', not_or, Bool.not_eq_false] at due
          exact loaded.loaded due.1.2
  | hasGraph M K N => exact iff_of_true (fun _ => nofun) trivial

def DividesByZero (s : State) : EntryPoint → Prop
  | .matmul M K N backendChoice _ outcome => Quantises s M K N backendChoice outcome ∧ K = 0
  | .matmulTiled _ K _ splits backendChoice outcome =>
      s.loadSucceeds backendChoice outcome.load = true ∧
        (splits.m = 0 ∨ splits.k = 0 ∨ splits.n = 0 ∨ K = 0)
  | _ => False

theorem enter_none_iff (formed : s.WellFormed) (entry : EntryPoint) :
    enter s entry = none ↔ ¬ TablePresent s entry ∨ DividesByZero s entry := by
  rw [tablePresent_iff formed]
  cases entry with
  | setBackend | initializeNpublas | setPowerMode | hasGraph =>
      simp [enter, EntryPoint.request, step, PreparesLoaded, DividesByZero]
  | prepareMatmul M K N useStaticWeights outcome =>
      cases table : s.interface with
      | none =>
          simp [enter, EntryPoint.request, step, PreparesLoaded, table, State.getOrCreateGraph,
            formed.cached table]
      | some qnn =>
          simp only [enter, EntryPoint.request, step, PreparesLoaded, DividesByZero, table,
            Option.isSome_some, not_true, or_false, iff_false, Option.map_eq_none_iff]
          cases found : s.graphCache.lookup (weightsKey M K N useStaticWeights none) with
          | none => simp [State.getOrCreateGraph_miss outcome found (by simp [table])]
          | some graph => simp [State.getOrCreateGraph_hit found]
  | matmul M K N backendChoice useStaticWeights outcome =>
      simp only [enter, EntryPoint.request, step, PreparesLoaded, DividesByZero, not_true,
        false_or, Option.map_eq_none_iff, State.matmulNpu]
      exact matmulInt8_none_iff formed M K N backendChoice useStaticWeights outcome _
  | matmulTiled M K N splits backendChoice outcome =>
      obtain ⟨loads, _⟩ := State.loadBackend_correct formed backendChoice outcome.load
      simp only [enter, EntryPoint.request, step, PreparesLoaded, DividesByZero, not_true,
        false_or, Option.map_eq_none_iff, State.matmulTiledNpu, State.matmulTiled, ← loads]
      by_cases ready : (s.loadBackend backendChoice outcome.load).isLoaded = true
      · by_cases zero : splits.m = 0 ∨ splits.k = 0 ∨ splits.n = 0 ∨ K = 0
        · simp [ready, zero]
        · simp only [ready, zero, if_true, if_false, and_false, iff_false]
          split <;> simp
      · simp [ready]

end Present

theorem wellFormed_enter {s next : State} {entry : EntryPoint} (formed : s.WellFormed)
    (moved : enter s entry = some next) : next.WellFormed := by
  unfold enter at moved
  split at moved
  · exact wellFormed_step formed moved
  · cases moved
    exact formed

-- Along any run of entry points every dereference finds the table, exactly if prepare_matmul is
-- called only while there is one: it is the one entry point that does not ask isLoaded.
theorem table_present_iff_prepares_loaded (outcome : LoadOutcome) (entries : List EntryPoint) :
    ((∀ t ∈ State.blank.loadDereferences 1 outcome, t.interface.isSome = true) ∧
      Runs.Along enter TablePresent (start outcome) entries) ↔
        Runs.Along enter PreparesLoaded (start outcome) entries := by
  rw [and_iff_right (loadDereferences_present State.blank 1 outcome)]
  apply Runs.along_iff (I := State.WellFormed)
  · intro s entry next formed _ moved
    exact wellFormed_enter formed moved
  · exact fun s entry formed => tablePresent_iff formed entry
  · exact wellFormed_start outcome

-- No library loads, and prepare_matmul creates a graph all the same.
theorem prepare_dereferences_missing_table :
    ¬ Runs.Along enter TablePresent
      (start { loadsWith fullTable with library := fun _ => .empty })
      [.prepareMatmul 4 4 4 false .finalized] := by
  rintro ⟨⟨_, present⟩, _⟩
  have missing := present _ List.mem_cons_self
  exact Bool.false_ne_true missing

end NpuMatmul
