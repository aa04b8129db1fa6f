import NpuMatmul.Engine.Backend

set_option autoImplicit false

namespace NpuMatmul

namespace State

-- The handles unloading leaves behind, for lack of an entry to free them with.
def leftoverDevice (s : State) : Option Handle :=
  if s.interface.any InterfaceTable.deviceFree then none else s.deviceHandle

def leftoverLog (s : State) : Option Handle :=
  if s.interface.any InterfaceTable.logFree then none else s.logHandle

structure Untouched (s t : State) : Prop where
  globalDynamicFcGraphs : t.globalDynamicFcGraphs = s.globalDynamicFcGraphs
  models : t.models = s.models
  fallbacks : t.fallbacks = s.fallbacks

structure Unloaded (s t : State) : Prop extends Untouched s t where
  interface : t.interface = none
  backendHandle : t.backendHandle = if s.interface.isSome then none else s.backendHandle
  deviceHandle : t.deviceHandle = s.leftoverDevice
  logHandle : t.logHandle = s.leftoverLog
  graphCache : t.graphCache = if s.interface.isSome then [] else s.graphCache
  loadCount : t.loadCount = s.loadCount
  serial : t.serial = s.serial

theorem unloadActiveBackend_unloaded (s : State) : Unloaded s s.unloadActiveBackend := by
  unfold unloadActiveBackend freeHandles
  cases table : s.interface with
  | none =>
      constructor
      · constructor <;> rfl
      · rfl
      all_goals simp [leftoverDevice, leftoverLog, table, unloadQnnBackendSharedLibrary]
  | some qnn =>
      constructor
      · constructor <;> rfl
      · rfl
      all_goals simp [leftoverDevice, leftoverLog, table, unloadQnnBackendSharedLibrary, freeLog,
        freeBackend, freeDevice, clearGraphs]

end State

def LoadOutcome.table (outcome : LoadOutcome) (backendChoice : Int) : Option InterfaceTable :=
  (outcome.library (outcome.projectLibsDir ++ "/" ++ State.libraryName backendChoice)
    ).interfaceProviderTable.or
      (outcome.library ("/data/local/tmp/" ++ State.libraryName backendChoice)
        ).interfaceProviderTable

namespace State

-- What loadBackend has when it does not return early, before it creates the handles.
def reopened (s : State) (backendChoice : Int) (outcome : LoadOutcome) : State :=
  loadLibrary { s.unloadActiveBackend with currentBackendChoice := backendChoice } backendChoice
    outcome

theorem loadBackend_reopened (s : State) {backendChoice : Int} (outcome : LoadOutcome)
    (other : s.serves backendChoice = false) :
    s.loadBackend backendChoice outcome =
      { (s.reopened backendChoice outcome).createHandles outcome with
        diagnosticsPerformed := false } := by
  simp [loadBackend, other, reopened]

theorem loadBackend_serves (s : State) {backendChoice : Int} (outcome : LoadOutcome)
    (same : s.serves backendChoice = true) : s.loadBackend backendChoice outcome = s := by
  simp [loadBackend, same]

theorem loadLibrary_fields (s : State) (backendChoice : Int) (outcome : LoadOutcome) :
    (s.loadLibrary backendChoice outcome).interface = outcome.table backendChoice ∧
      s.loadCount < (s.loadLibrary backendChoice outcome).loadCount ∧
      s.loadLibrary backendChoice outcome =
        { s with
          backendContainer := (s.loadLibrary backendChoice outcome).backendContainer
          loadCount := (s.loadLibrary backendChoice outcome).loadCount
          calls := (s.loadLibrary backendChoice outcome).calls } := by
  let primary := outcome.projectLibsDir ++ "/" ++ libraryName backendChoice
  let alternative := "/data/local/tmp/" ++ libraryName backendChoice
  cases found : (outcome.library primary).interfaceProviderTable with
  | some qnn =>
      have opened : s.loadLibrary backendChoice outcome =
          s.loadQnnBackendSharedLibrary outcome primary := by
        simp [loadLibrary, loadQnnBackendSharedLibrary, interface, primary, found]
      rw [opened]
      exact ⟨by simp [LoadOutcome.table, primary, found, loadQnnBackendSharedLibrary, interface],
        Nat.lt_succ_self _, rfl⟩
  | none =>
      have opened : s.loadLibrary backendChoice outcome =
          (s.loadQnnBackendSharedLibrary outcome primary).loadQnnBackendSharedLibrary outcome
            alternative := by
        simp [loadLibrary, loadQnnBackendSharedLibrary, interface, primary, alternative, found]
      rw [opened]
      refine ⟨?_, ?_, rfl⟩
      · simp [LoadOutcome.table, primary, found, loadQnnBackendSharedLibrary, interface,
          alternative]
      · exact Nat.lt_succ_of_lt (Nat.lt_succ_self _)

theorem createHandles_fields (s : State) (outcome : LoadOutcome) :
    (s.createHandles outcome).interface = s.interface ∧
      (s.createHandles outcome).loadCount = s.loadCount ∧
      (s.createHandles outcome).graphCache = s.graphCache ∧
      (s.createHandles outcome).isLoaded =
        ((s.interface.isSome && outcome.backendCreated) || s.isLoaded) ∧
      Untouched s (s.createHandles outcome) := by
  unfold createHandles
  cases table : s.interface with
  | none => exact ⟨table, rfl, rfl, by simp, ⟨rfl, rfl, rfl⟩⟩
  | some qnn =>
      refine ⟨table, rfl, rfl, ?_, ⟨rfl, rfl, rfl⟩⟩
      cases succeeded : outcome.backendCreated <;>
        simp [createDevice, createBackend, createLog, isLoaded, created]

theorem reopened_fields (s : State) (backendChoice : Int) (outcome : LoadOutcome) :
    (s.reopened backendChoice outcome).interface = outcome.table backendChoice ∧
      s.loadCount < (s.reopened backendChoice outcome).loadCount ∧
      (s.reopened backendChoice outcome).graphCache = s.unloadActiveBackend.graphCache ∧
      (s.reopened backendChoice outcome).isLoaded = s.unloadActiveBackend.isLoaded ∧
      Untouched s (s.reopened backendChoice outcome) := by
  have unloaded := unloadActiveBackend_unloaded s
  obtain ⟨table, later, fields⟩ := loadLibrary_fields
    { s.unloadActiveBackend with currentBackendChoice := backendChoice } backendChoice outcome
  refine ⟨table, ?_, ?_, ?_, ?_, ?_, ?_⟩
  · rw [← unloaded.loadCount]
    exact later
  all_goals rw [reopened, fields]
  · rfl
  · exact unloaded.globalDynamicFcGraphs
  · exact unloaded.models
  · exact unloaded.fallbacks

theorem reopened_handles (s : State) (backendChoice : Int) (outcome : LoadOutcome) :
    (s.reopened backendChoice outcome).logHandle = s.leftoverLog ∧
      (s.reopened backendChoice outcome).deviceHandle = s.leftoverDevice := by
  have unloaded := unloadActiveBackend_unloaded s
  obtain ⟨_, _, fields⟩ := loadLibrary_fields
    { s.unloadActiveBackend with currentBackendChoice := backendChoice } backendChoice outcome
  rw [reopened, fields]
  exact ⟨unloaded.logHandle, unloaded.deviceHandle⟩

structure WellFormed (s : State) : Prop where
  loaded : s.isLoaded → s.interface.isSome
  cached : s.interface = none → s.graphCache = []

theorem WellFormed.unloaded {s : State} (formed : s.WellFormed) :
    s.unloadActiveBackend.isLoaded = false ∧ s.unloadActiveBackend.graphCache = [] := by
  have unloaded := unloadActiveBackend_unloaded s
  cases table : s.interface with
  | none =>
      have absent : s.isLoaded = false := by
        cases loaded : s.isLoaded with
        | false => rfl
        | true => simpa [table] using formed.loaded loaded
      constructor
      · simpa [isLoaded, unloaded.backendHandle, table] using absent
      · simpa [unloaded.graphCache, table] using formed.cached table
  | some qnn => simp [isLoaded, unloaded.backendHandle, unloaded.graphCache, table]

def loadSucceeds (s : State) (backendChoice : Int) (outcome : LoadOutcome) : Bool :=
  s.serves backendChoice ||
    ((outcome.table backendChoice).isSome && outcome.backendCreated)

def retained (s : State) (backendChoice : Int) : List (String × CachedGraph) :=
  if s.serves backendChoice then s.graphCache else []

theorem serves_isLoaded {s : State} {backendChoice : Int} (same : s.serves backendChoice = true) :
    s.isLoaded = true := by
  simp only [serves, Bool.and_eq_true] at same
  exact same.2

theorem loadBackend_correct {s : State} (formed : s.WellFormed) (backendChoice : Int)
    (outcome : LoadOutcome) :
    (s.loadBackend backendChoice outcome).isLoaded = s.loadSucceeds backendChoice outcome ∧
      (s.loadBackend backendChoice outcome).graphCache = s.retained backendChoice ∧
      (s.loadBackend backendChoice outcome).WellFormed ∧
      Untouched s (s.loadBackend backendChoice outcome) := by
  cases same : s.serves backendChoice with
  | true =>
      rw [loadBackend_serves s outcome same]
      exact ⟨by simp [loadSucceeds, same, serves_isLoaded same], by simp [retained, same], formed,
        ⟨rfl, rfl, rfl⟩⟩
  | false =>
      obtain ⟨empty, clear⟩ := formed.unloaded
      obtain ⟨table, _, cache, idle, kept⟩ := reopened_fields s backendChoice outcome
      obtain ⟨interface, _, created, loaded, untouched⟩ :=
        createHandles_fields (s.reopened backendChoice outcome) outcome
      rw [idle, empty, table, Bool.or_false] at loaded
      rw [loadBackend_reopened s outcome same]
      refine ⟨?_, ?_, ⟨?_, ?_⟩, ?_⟩
      · simpa [loadSucceeds, same, isLoaded] using loaded
      · simpa [retained, same, cache, clear] using created
      · intro ready
        change ((s.reopened backendChoice outcome).createHandles outcome).isLoaded = true at ready
        change (((s.reopened backendChoice outcome).createHandles outcome).interface).isSome = true
        rw [loaded, Bool.and_eq_true] at ready
        rw [interface, table]
        exact ready.1
      · intro _
        exact (created.trans cache).trans clear
      · exact ⟨untouched.1.trans kept.1, untouched.2.trans kept.2, untouched.3.trans kept.3⟩

end State

end NpuMatmul
