import NpuMatmul.Engine.RequestSpec

set_option autoImplicit false

namespace NpuMatmul

open Ownership

inductive InstanceHandle where
  | log (handle : Handle)
  | backend (handle : Handle)
  | device (handle : Handle)
deriving DecidableEq, Repr

def InstanceHandle.serial : InstanceHandle → Nat
  | .log handle | .backend handle | .device handle => handle.serial

def Call.gives : Call → InstanceHandle → Prop
  | .logCreate log, .log handle => log = some handle
  | .backendCreate _ backend, .backend handle => backend = some handle
  | .deviceCreate device, .device handle => device = some handle
  | _, _ => False

def Call.takes : Call → InstanceHandle → Prop
  | .logFree log, .log handle => log = handle
  | .backendFree backend, .backend handle => backend = handle
  | .deviceFree device, .device handle => device = handle
  | _, _ => False

def instanceHandles : Ledger Call InstanceHandle where
  makes := Call.gives
  ends := Call.takes
  apart call handle made := by
    cases call <;> cases handle <;> simp_all [Call.gives, Call.takes]

def State.holds (s : State) : InstanceHandle → Prop
  | .log handle => s.logHandle = some handle
  | .backend handle => s.backendHandle = some handle
  | .device handle => s.deviceHandle = some handle

-- A library that can create a log or a device can also free it.
structure InterfaceTable.Paired (table : InterfaceTable) : Prop where
  log : table.logCreate → table.logFree
  device : table.deviceCreate → table.deviceFree

def LoadOutcome.Paired (outcome : LoadOutcome) : Prop :=
  ∀ backendChoice table, outcome.table backendChoice = some table → table.Paired

def Request.Paired : Request → Prop
  | .loadBackend _ outcome | .initializeNpublas _ _ outcome => outcome.Paired
  | .matmul _ _ _ _ _ outcome => outcome.load.Paired
  | .matmulTiled _ _ _ _ _ outcome => outcome.load.Paired
  | .getOrCreateGraph .. | .execute .. | .unloadActiveBackend => True

-- No handle is freed twice, the engine holds just those that are not freed yet, a library is closed
-- only when it has them all back, and so has every library once the backend is unloaded.
structure HandlesReleased (s : State) : Prop where
  once : ∀ later call past, s.calls = later ++ call :: past → ∀ handle, call.takes handle →
    ¬ Ended instanceHandles past handle
  held : ∀ handle, Held instanceHandles s.calls handle ↔ s.holds handle
  closed : ∀ later past, s.calls = later ++ .dlclose :: past → ∀ handle,
    ¬ Held instanceHandles past handle
  unloaded : ∀ handle, ¬ Held instanceHandles s.unloadActiveBackend.calls handle

def Books (calls : List Call) (serial : Nat) (owner : InstanceHandle → Prop) : Prop :=
  Account instanceHandles (· = .dlclose) calls (fun handle => serial ≤ handle.serial) owner

structure HandlesKept (s : State) : Prop where
  books : Books s.calls s.serial s.holds
  log : s.logHandle.isSome → s.interface.any InterfaceTable.logFree = true
  device : s.deviceHandle.isSome → s.interface.any InterfaceTable.deviceFree = true

def Call.Foreign : Call → Prop
  | .dlclose | .logCreate _ | .backendCreate _ _ | .deviceCreate _ | .deviceFree _ | .backendFree _
  | .logFree _ => False
  | _ => True

theorem Call.Foreign.apart {call : Call} (foreign : call.Foreign) :
    call ≠ .dlclose ∧ ∀ handle, ¬ call.gives handle ∧ ¬ call.takes handle := by
  cases call with
  | dlclose | logCreate | backendCreate | deviceCreate | deviceFree | backendFree | logFree =>
      exact foreign.elim
  | _ => exact ⟨by simp, fun handle => by cases handle <;> exact ⟨id, id⟩⟩

structure Frees (free : Handle → Call) (kind : Handle → InstanceHandle) : Prop where
  gives : ∀ held other, ¬ (free held).gives other
  takes : ∀ held other, (free held).takes other ↔ other = kind held
  stays : ∀ held, free held ≠ .dlclose

theorem logFree_frees : Frees .logFree .log := by
  constructor
  · rintro held (_ | _ | _) <;> exact id
  · rintro held (_ | _ | _) <;> simp [Call.takes, eq_comm]
  · simp

theorem backendFree_frees : Frees .backendFree .backend := by
  constructor
  · rintro held (_ | _ | _) <;> exact id
  · rintro held (_ | _ | _) <;> simp [Call.takes, eq_comm]
  · simp

theorem deviceFree_frees : Frees .deviceFree .device := by
  constructor
  · rintro held (_ | _ | _) <;> exact id
  · rintro held (_ | _ | _) <;> simp [Call.takes, eq_comm]
  · simp

structure Creates (create : Option Handle → Call) (kind : Handle → InstanceHandle) : Prop where
  gives : ∀ handle other, (create handle).gives other ↔ ∃ held, handle = some held ∧ other = kind held
  takes : ∀ handle other, ¬ (create handle).takes other
  stays : ∀ handle, create handle ≠ .dlclose
  serial : ∀ held, (kind held).serial = held.serial

theorem logCreate_creates : Creates .logCreate .log := by
  constructor
  · rintro handle (_ | _ | _) <;> simp [Call.gives]
  · rintro handle (_ | _ | _) <;> exact id
  · simp
  · exact fun _ => rfl

theorem backendCreate_creates (log : Option Handle) : Creates (.backendCreate log) .backend := by
  constructor
  · rintro handle (_ | _ | _) <;> simp [Call.gives]
  · rintro handle (_ | _ | _) <;> exact id
  · simp
  · exact fun _ => rfl

theorem deviceCreate_creates : Creates .deviceCreate .device := by
  constructor
  · rintro handle (_ | _ | _) <;> simp [Call.gives]
  · rintro handle (_ | _ | _) <;> exact id
  · simp
  · exact fun _ => rfl

section Books

variable {calls : List Call} {serial next : Nat} {owner : InstanceHandle → Prop}

theorem Books.foreign (books : Books calls serial owner) {call : Call} (foreign : call.Foreign) :
    Books (call :: calls) serial owner := by
  obtain ⟨stays, apart⟩ := foreign.apart
  exact Account.quiet books (fun handle => (apart handle).1) (fun handle => (apart handle).2)
    fun same => absurd same stays

theorem Books.grow (books : Books calls serial owner) (grows : serial ≤ next) :
    Books calls next owner :=
  Account.congr books (fun _ later => grows.trans later) fun _ => Iff.rfl

theorem Books.foreigns (books : Books calls serial owner) {later : List Call}
    (foreign : ∀ call ∈ later, call.Foreign) : Books (later ++ calls) serial owner := by
  induction later with
  | nil => exact books
  | cons call rest ih =>
      have others := ih fun other member => foreign other (List.mem_cons_of_mem call member)
      exact others.foreign (foreign call List.mem_cons_self)

theorem Books.create {s : State} (books : Books calls s.serial owner) {create : Option Handle → Call}
    {kind : Handle → InstanceHandle} (creates : Creates create kind) (entry succeeded : Bool) :
    Books (if entry then create (s.created succeeded) :: calls else calls) (s.serial + 1)
      fun other => ((entry && succeeded) = true ∧ other = kind s.fresh) ∨ owner other := by
  cases entry with
  | false => exact Account.congr (books.grow (Nat.le_succ _)) (fun _ => id) fun other => by simp
  | true =>
    cases succeeded with
    | false =>
        have failed : Books (create none :: calls) s.serial owner := by
          apply Account.quiet books _ (creates.takes none) fun same => absurd same (creates.stays none)
          intro other gives
          obtain ⟨held, absent, _⟩ := (creates.gives none other).mp gives
          cases absent
        exact Account.congr (failed.grow (Nat.le_succ _)) (fun _ => id) fun other => by simp
    | true =>
        have made : Books (create (some s.fresh) :: calls) (s.serial + 1)
            fun other => other = kind s.fresh ∨ owner other := by
          apply Account.make books (fun other => (creates.gives _ other).trans (by simp))
            (creates.takes _) (creates.stays _) (creates.serial s.fresh).ge
          intro other later
          refine ⟨(Nat.le_succ _).trans later, ?_⟩
          rintro rfl
          rw [creates.serial] at later
          exact Nat.lt_irrefl _ later
        exact Account.congr made (fun _ => id) fun other => by simp

theorem Books.free (books : Books calls serial owner) {entry : Bool} {handle : Option Handle}
    {free : Handle → Call} {kind : Handle → InstanceHandle} (frees : Frees free kind)
    (owned : ∀ held, handle = some held → owner (kind held))
    (able : handle.isSome → entry = true) :
    Books (State.released handle entry free calls) serial fun other =>
      (∀ held, handle = some held → other ≠ kind held) ∧ owner other := by
  cases handle with
  | none => exact Account.congr books (fun _ => id) fun other => by simp
  | some held =>
      rw [able rfl]
      have freed := Account.finish books (frees.gives held) (frees.takes held) (frees.stays held)
        (owned held rfl)
      exact Account.congr freed (fun _ => id) fun other => by simp

end Books

section Unload

variable {s : State}

theorem freeContexts_books {cache : List (String × CachedGraph)} {calls : List Call} {serial : Nat}
    {owner : InstanceHandle → Prop} (books : Books calls serial owner) :
    Books (State.freeContexts cache calls) serial owner := by
  induction cache generalizing calls with
  | nil => exact books
  | cons entry rest ih => exact ih (books.foreign trivial)

theorem Books.close {calls : List Call} {serial : Nat} {owner : InstanceHandle → Prop}
    (books : Books calls serial owner) (nothing : ∀ handle, ¬ owner handle) (opened : Bool) :
    Books (if opened then .dlclose :: calls else calls) serial fun _ => False := by
  have empty := Account.congr books (fun _ => id) fun handle => iff_of_false (nothing handle) id
  cases opened with
  | false => exact empty
  | true =>
      apply Account.quiet empty
      · intro handle
        cases handle <;> exact id
      · intro handle
        cases handle <;> exact id
      · exact fun _ _ => id

theorem HandlesKept.idle (kept : HandlesKept s) (formed : s.WellFormed) (idle : s.interface = none)
    (handle : InstanceHandle) : ¬ s.holds handle := by
  intro holds
  cases handle with
  | log handle =>
      have able := kept.log (Option.isSome_of_eq_some holds)
      simp [idle] at able
  | backend handle =>
      have loaded := formed.loaded (Option.isSome_of_eq_some holds)
      simp [idle] at loaded
  | device handle =>
      have able := kept.device (Option.isSome_of_eq_some holds)
      simp [idle] at able

theorem HandlesKept.unload (kept : HandlesKept s) (formed : s.WellFormed) :
    Books s.unloadActiveBackend.calls s.serial (fun _ => False) := by
  cases table : s.interface with
  | none =>
      have same : s.unloadActiveBackend = s.unloadQnnBackendSharedLibrary := by
        simp [State.unloadActiveBackend, State.freeHandles, table]
      rw [same]
      exact kept.books.close (kept.idle formed table) _
  | some qnn =>
      have logs : s.logHandle.isSome → qnn.logFree = true := by simpa [table] using kept.log
      have devices : s.deviceHandle.isSome → qnn.deviceFree = true := by
        simpa [table] using kept.device
      have cleared : Books s.clearGraphs.calls s.serial s.holds := freeContexts_books kept.books
      have device := cleared.free deviceFree_frees (fun _ => id) devices
      have backend : Books (State.released s.backendHandle true .backendFree _) s.serial _ :=
        device.free backendFree_frees (fun _ held => ⟨by simp, held⟩) (fun _ => rfl)
      have log := backend.free logFree_frees (fun _ held => ⟨by simp, by simp, held⟩) logs
      have nothing : ∀ handle, ¬ ((∀ held, s.logHandle = some held → handle ≠ .log held) ∧
          (∀ held, s.backendHandle = some held → handle ≠ .backend held) ∧
            (∀ held, s.deviceHandle = some held → handle ≠ .device held) ∧ s.holds handle) := by
        rintro handle ⟨notLog, notBackend, notDevice, holds⟩
        cases handle with
        | log handle => exact notLog handle holds rfl
        | backend handle => exact notBackend handle holds rfl
        | device handle => exact notDevice handle holds rfl
      have closed := log.close nothing s.backendContainer.librarySharedObjectHandle
      have same : s.unloadActiveBackend =
          (((s.clearGraphs.freeDevice qnn).freeBackend).freeLog qnn).unloadQnnBackendSharedLibrary := by
        simp [State.unloadActiveBackend, State.freeHandles, table]
      rw [same]
      exact closed

theorem HandlesKept.unloaded_holds (kept : HandlesKept s) (formed : s.WellFormed)
    (handle : InstanceHandle) : ¬ s.unloadActiveBackend.holds handle := by
  have unloaded := State.unloadActiveBackend_unloaded s
  intro holds
  cases handle with
  | log handle =>
      rw [State.holds, unloaded.logHandle, State.leftoverLog] at holds
      split at holds
      case isTrue => cases holds
      case isFalse unable => exact unable (kept.log (Option.isSome_of_eq_some holds))
  | backend handle =>
      have loaded : s.unloadActiveBackend.isLoaded = true := Option.isSome_of_eq_some holds
      rw [formed.unloaded.1] at loaded
      cases loaded
  | device handle =>
      rw [State.holds, unloaded.deviceHandle, State.leftoverDevice] at holds
      split at holds
      case isTrue => cases holds
      case isFalse unable => exact unable (kept.device (Option.isSome_of_eq_some holds))

theorem HandlesKept.of_nothing (books : Books s.calls s.serial fun _ => False)
    (nothing : ∀ handle, ¬ s.holds handle) : HandlesKept s := by
  refine ⟨Account.congr books (fun _ => id) fun handle => iff_of_false id (nothing handle),
    fun held => ?_, fun held => ?_⟩
  · obtain ⟨handle, holds⟩ := Option.isSome_iff_exists.mp held
    exact absurd holds (nothing (.log handle))
  · obtain ⟨handle, holds⟩ := Option.isSome_iff_exists.mp held
    exact absurd holds (nothing (.device handle))

theorem HandlesKept.unloaded (kept : HandlesKept s) (formed : s.WellFormed) :
    HandlesKept s.unloadActiveBackend := by
  apply HandlesKept.of_nothing _ (kept.unloaded_holds formed)
  rw [(State.unloadActiveBackend_unloaded s).serial]
  exact kept.unload formed

end Unload

section Load

variable {s : State} {qnn : InterfaceTable}

theorem created_iff {succeeded : Bool} {handle : Handle} :
    s.created succeeded = some handle ↔ succeeded = true ∧ handle = s.fresh := by
  cases succeeded <;> simp [State.created, eq_comm]

section Creation

variable (table : s.interface = some qnn) (nothing : ∀ handle, ¬ s.holds handle)
  (outcome : LoadOutcome)

include table nothing

theorem createHandles_held :
    (s.createHandles outcome).logHandle = s.created (qnn.logCreate && outcome.logCreated) ∧
      (s.createHandles outcome).backendHandle =
        (s.createLog qnn outcome.logCreated).created outcome.backendCreated ∧
      (s.createHandles outcome).deviceHandle =
        ((s.createLog qnn outcome.logCreated).createBackend outcome.backendCreated).created
          (qnn.deviceCreate && outcome.deviceCreated) := by
  have noLog : s.logHandle = none :=
    Option.eq_none_iff_forall_ne_some.mpr fun handle => nothing (.log handle)
  have noBackend : s.backendHandle = none :=
    Option.eq_none_iff_forall_ne_some.mpr fun handle => nothing (.backend handle)
  have noDevice : s.deviceHandle = none :=
    Option.eq_none_iff_forall_ne_some.mpr fun handle => nothing (.device handle)
  simp [State.createHandles, table, State.createDevice, State.createBackend, State.createLog, noLog,
    noBackend, noDevice]

theorem createHandles_books (books : Books s.calls s.serial s.holds) :
    Books (s.createHandles outcome).calls (s.createHandles outcome).serial
      (s.createHandles outcome).holds := by
  obtain ⟨logs, backends, devices⟩ := createHandles_held table nothing outcome
  have log := books.create logCreate_creates qnn.logCreate outcome.logCreated
  let logged := s.createLog qnn outcome.logCreated
  have backend := Books.create (s := logged) log (backendCreate_creates logged.logHandle) true
    outcome.backendCreated
  let backed := logged.createBackend outcome.backendCreated
  have device := Books.create (s := backed) backend deviceCreate_creates qnn.deviceCreate
    outcome.deviceCreated
  have same : s.createHandles outcome = backed.createDevice qnn outcome.deviceCreated := by
    simp [State.createHandles, table, backed, logged]
  rw [congrArg State.calls same, congrArg State.serial same]
  refine Account.congr device (fun _ => id) fun other => ?_
  cases other with
  | log handle =>
      have absent : ¬ s.logHandle = some handle := nothing (.log handle)
      simp [State.holds, logs, created_iff, absent]
  | backend handle =>
      have absent : ¬ s.backendHandle = some handle := nothing (.backend handle)
      simp [State.holds, backends, created_iff, absent, logged]
  | device handle =>
      have absent : ¬ s.deviceHandle = some handle := nothing (.device handle)
      simp [State.holds, devices, created_iff, absent, backed, logged]

end Creation

theorem loadLibrary_calls (s : State) (backendChoice : Int) (outcome : LoadOutcome) :
    ∃ later, (s.loadLibrary backendChoice outcome).calls = later ++ s.calls ∧
      ∀ call ∈ later, call = .dlopen := by
  unfold State.loadLibrary
  dsimp only
  split
  · exact ⟨[.dlopen], rfl, by simp⟩
  · exact ⟨[.dlopen, .dlopen], rfl, by simp⟩

theorem HandlesKept.reopened (kept : HandlesKept s) (formed : s.WellFormed) (backendChoice : Int)
    (outcome : LoadOutcome) :
    Books (s.reopened backendChoice outcome).calls (s.reopened backendChoice outcome).serial
        (fun _ => False) ∧
      ∀ handle, ¬ (s.reopened backendChoice outcome).holds handle := by
  have unloaded := State.unloadActiveBackend_unloaded s
  obtain ⟨later, calls, opens⟩ := loadLibrary_calls
    { s.unloadActiveBackend with currentBackendChoice := backendChoice } backendChoice outcome
  obtain ⟨_, _, fields⟩ := State.loadLibrary_fields
    { s.unloadActiveBackend with currentBackendChoice := backendChoice } backendChoice outcome
  constructor
  · have serial : (s.reopened backendChoice outcome).serial = s.serial := by
      rw [State.reopened, fields]
      exact unloaded.serial
    have foreign : ∀ call ∈ later, call.Foreign := by
      intro call member
      rw [opens call member]
      trivial
    rw [serial, State.reopened, calls]
    exact (kept.unload formed).foreigns foreign
  · intro handle
    rw [State.reopened, fields]
    have nothing := kept.unloaded_holds formed handle
    cases handle <;> exact nothing

theorem HandlesKept.loadBackend (kept : HandlesKept s) (formed : s.WellFormed) (backendChoice : Int)
    {outcome : LoadOutcome} (paired : outcome.Paired) :
    HandlesKept (s.loadBackend backendChoice outcome) := by
  cases same : s.serves backendChoice with
  | true =>
      rw [State.loadBackend_serves s outcome same]
      exact kept
  | false =>
      obtain ⟨books, nothing⟩ := kept.reopened formed backendChoice outcome
      obtain ⟨interface, _⟩ := State.createHandles_fields (s.reopened backendChoice outcome) outcome
      have loaded := (State.reopened_fields s backendChoice outcome).1
      rw [State.loadBackend_reopened s outcome same]
      cases table : outcome.table backendChoice with
      | none =>
          rw [table] at loaded
          have bare : (s.reopened backendChoice outcome).createHandles outcome =
              s.reopened backendChoice outcome := by
            simp [State.createHandles, loaded]
          rw [bare]
          have idle := HandlesKept.of_nothing books nothing
          exact ⟨idle.books, idle.log, idle.device⟩
      | some qnn =>
          rw [table] at loaded
          obtain ⟨logs, _, devices⟩ := createHandles_held loaded nothing outcome
          have able := paired backendChoice qnn table
          have created := createHandles_books loaded nothing outcome
            (HandlesKept.of_nothing books nothing).books
          refine ⟨created, fun held => ?_, fun held => ?_⟩
          · obtain ⟨handle, holds⟩ := Option.isSome_iff_exists.mp held
            rw [logs, created_iff, Bool.and_eq_true] at holds
            change ((s.reopened backendChoice outcome).createHandles outcome).interface.any _ = true
            simpa [interface, loaded] using able.log holds.1.1
          · obtain ⟨handle, holds⟩ := Option.isSome_iff_exists.mp held
            rw [devices, created_iff, Bool.and_eq_true] at holds
            change ((s.reopened backendChoice outcome).createHandles outcome).interface.any _ = true
            simpa [interface, loaded] using able.device holds.1.1

end Load

structure Spares (s t : State) : Prop where
  calls : ∃ later, t.calls = later ++ s.calls ∧ ∀ call ∈ later, call.Foreign
  backend : State.SameBackend s t
  grows : s.serial ≤ t.serial

section Spares

variable {s t u : State}

theorem HandlesKept.spared (kept : HandlesKept s) (spares : Spares s t) : HandlesKept t := by
  obtain ⟨⟨later, calls, foreign⟩, backend, grows⟩ := spares
  have books := (kept.books.foreigns foreign).grow grows
  refine ⟨?_, ?_, ?_⟩
  · rw [calls]
    refine Account.congr books (fun _ => id) fun handle => ?_
    cases handle <;> simp [State.holds, backend.logHandle, backend.backendHandle,
      backend.deviceHandle]
  · rw [backend.logHandle, State.interface, backend.backendContainer]
    exact kept.log
  · rw [backend.deviceHandle, State.interface, backend.backendContainer]
    exact kept.device

variable {M K N : Nat} {useStaticWeights : Bool} {staticWeightsPtr : Option Nat}
  {graph : CachedGraph}

theorem buildGraph_foreign (s : State) (outcome : BuildOutcome) :
    ∃ later, (s.buildGraph outcome).calls = later ++ s.calls ∧ ∀ call ∈ later, call.Foreign :=
  ⟨[.graphFinalize (s.builtGraph outcome),
    .graphCreate (s.builtContext outcome) (s.builtGraph outcome),
    .contextCreate s.backendHandle s.deviceHandle (s.builtContext outcome)], rfl,
    by simp [Call.Foreign]⟩

theorem foreign_cons {calls past : List Call} {call : Call} (foreign : call.Foreign)
    (added : ∃ later, calls = later ++ past ∧ ∀ call ∈ later, call.Foreign) :
    ∃ later, call :: calls = later ++ past ∧ ∀ call ∈ later, call.Foreign := by
  obtain ⟨later, rfl, others⟩ := added
  exact ⟨call :: later, rfl, List.forall_mem_cons.mpr ⟨foreign, others⟩⟩

theorem getOrCreateGraph_spares {outcome : BuildOutcome}
    (returned : s.getOrCreateGraph M K N useStaticWeights staticWeightsPtr outcome =
      some (t, graph)) : Spares s t := by
  refine ⟨?_, State.getOrCreateGraph_sameBackend returned, ?_⟩
  · obtain ⟨_, rfl⟩ | ⟨_, _, ⟨_, _, rfl⟩ | ⟨_, _, rfl⟩⟩ := State.getOrCreateGraph_cases returned
    · exact ⟨[_], rfl, by simp [Call.Foreign]⟩
    · exact buildGraph_foreign s outcome
    · exact foreign_cons trivial (buildGraph_foreign s outcome)
  · obtain ⟨_, rfl⟩ | ⟨_, _, ⟨_, _, rfl⟩ | ⟨_, _, rfl⟩⟩ := State.getOrCreateGraph_cases returned
    · exact le_refl _
    · exact Nat.le_add_right _ 2
    · exact Nat.le_add_right _ 2

theorem execute_spares (s : State) (graph : CachedGraph) (useStaticWeights : Bool)
    (outcome : ExecuteOutcome) : Spares s (s.execute graph useStaticWeights outcome) := by
  refine ⟨?_, (State.execute_same s graph useStaticWeights outcome).1, ?_⟩
  · cases useStaticWeights with
    | false => exact ⟨[_], rfl, by simp [Call.Foreign]⟩
    | true =>
        exact foreign_cons trivial (foreign_cons trivial (buildGraph_foreign s outcome.temporary))
  · cases useStaticWeights with
    | false => exact le_refl _
    | true => exact Nat.le_add_right _ 2

theorem executeRounds_spares (s : State) (graph : CachedGraph) (executed : Nat → Bool)
    (rounds : Nat) : Spares s (s.executeRounds graph executed rounds) := by
  refine ⟨?_, (State.executeRounds_same s graph executed rounds).1, ?_⟩
  · induction rounds with
    | zero => exact ⟨[], rfl, by simp⟩
    | succ rounds ih => exact foreign_cons trivial ih
  · induction rounds with
    | zero => exact le_refl _
    | succ rounds ih => exact ih

theorem dynamicGraph_spares {outcome : BuildOutcome}
    (returned : s.dynamicGraph M K N outcome = (t, graph)) : Spares s t := by
  have same := (State.dynamicGraph_same s M K N outcome).1
  rw [returned] at same
  obtain ⟨_, rfl⟩ | ⟨_, rfl, rfl⟩ := State.dynamicGraph_cases returned
  · exact ⟨⟨[_], rfl, by simp [Call.Foreign]⟩, same, le_refl _⟩
  · exact ⟨buildGraph_foreign s outcome, same, Nat.le_add_right _ 2⟩

theorem diagnostics_spares (s : State) (quiet : Bool) :
    Spares s (s.performDiagnosticsIfNeeded quiet) := by
  have same := (State.performDiagnostics_same s quiet).1
  revert same
  unfold State.performDiagnosticsIfNeeded
  split
  · exact fun same => ⟨⟨[], rfl, by simp⟩, same, le_refl _⟩
  · dsimp only
    split
    · split
      · exact fun same => ⟨⟨[_], rfl, by simp [Call.Foreign]⟩, same, le_refl _⟩
      · exact fun same => ⟨⟨[], rfl, by simp⟩, same, le_refl _⟩
    · exact fun same => ⟨⟨[], rfl, by simp⟩, same, le_refl _⟩

end Spares

section Run

theorem HandlesKept.step {s next : State} {request : Request} (kept : HandlesKept s)
    (formed : s.WellFormed) (paired : request.Paired) (moved : step s request = some next) :
    HandlesKept next := by
  cases request with
  | loadBackend backendChoice outcome =>
      cases moved
      exact kept.loadBackend formed backendChoice paired
  | initializeNpublas backendChoice quiet outcome =>
      cases moved
      exact (kept.loadBackend formed backendChoice paired).spared (diagnostics_spares _ quiet)
  | getOrCreateGraph M K N useStaticWeights staticWeightsPtr outcome =>
      obtain ⟨⟨t, graph⟩, returned, rfl⟩ := Option.map_eq_some_iff.mp moved
      exact kept.spared (getOrCreateGraph_spares returned)
  | execute key useStaticWeights outcome =>
      obtain rfl | ⟨graph, _, _, rfl⟩ := step_execute_cases moved
      · exact kept
      · exact kept.spared (execute_spares s graph useStaticWeights outcome)
  | matmul M K N backendChoice useStaticWeights outcome =>
      have ready : outcome.load.Paired := paired
      have loaded := kept.loadBackend formed backendChoice ready
      obtain ⟨⟨t, C⟩, returned, rfl⟩ := Option.map_eq_some_iff.mp moved
      obtain ⟨_, u, graph, created, ran⟩ | ⟨_, rfl⟩ := State.matmulInt8_cases returned
      · have built := loaded.spared (getOrCreateGraph_spares created)
        obtain ⟨_, rfl⟩ | ⟨_, rfl⟩ := ran
        · exact built.spared (execute_spares u graph useStaticWeights outcome.execute)
        · exact built
      · obtain ⟨models, fetched⟩ := State.fetchModel_fields
          (s.loadBackend backendChoice outcome.load) M K N backendChoice outcome.model
        rw [fetched]
        exact ⟨loaded.books, loaded.log, loaded.device⟩
  | matmulTiled M K N splits backendChoice outcome =>
      have ready : outcome.load.Paired := paired
      have loaded := kept.loadBackend formed backendChoice ready
      obtain ⟨⟨t, C⟩, returned, rfl⟩ := Option.map_eq_some_iff.mp moved
      obtain ⟨_, _, u, graph, found, ran⟩ | ⟨_, rfl⟩ := State.matmulTiled_cases returned
      · have built := loaded.spared (dynamicGraph_spares found)
        obtain ⟨_, rfl⟩ | ⟨_, rfl⟩ := ran
        · exact built.spared (executeRounds_spares u graph outcome.executed splits.k)
        · exact built
      · exact loaded
  | unloadActiveBackend =>
      cases moved
      exact kept.unloaded formed

theorem handlesKept_blank : HandlesKept State.blank :=
  ⟨Account.empty fun handle => by cases handle <;> simp [State.holds, State.blank], by
    simp [State.blank], by simp [State.blank]⟩

theorem HandlesKept.released {s : State} (kept : HandlesKept s) (formed : s.WellFormed) :
    HandlesReleased s where
  once _ _ _ split _ takes := Account.once kept.books split takes
  held := kept.books.held
  closed _ _ split _ := Account.closed kept.books split rfl
  unloaded handle := (((kept.unload formed).held handle).not).mpr id

-- If every library can free what it creates, then whatever fails the engine gives back the logs,
-- backends and devices of each library, each of them once, before it closes the library.
theorem instance_handles_released {outcome : LoadOutcome} {requests : List Request} {last : State}
    (paired : outcome.Paired) (all : ∀ request ∈ requests, request.Paired)
    (reached : Runs.after step (start outcome) requests = some last) : HandlesReleased last := by
  have begun : HandlesKept (start outcome) :=
    handlesKept_blank.loadBackend wellFormed_blank 1 paired
  have kept : last.WellFormed ∧ HandlesKept last := by
    apply Runs.after_invariant (I := fun s => s.WellFormed ∧ HandlesKept s) _
      ⟨wellFormed_start outcome, begun⟩ (Runs.along_all all) reached
    rintro s request next ⟨formed, kept⟩ paired moved
    exact ⟨wellFormed_step formed moved, kept.step formed paired moved⟩
  exact kept.2.released kept.1

theorem loadsWith_paired : (loadsWith fullTable).Paired := by
  intro backendChoice table found
  obtain rfl : fullTable = table := Option.some.inj found
  constructor <;> exact fun _ => rfl

-- A graph that fails is left, and the second library is open at the end.
theorem instance_handles_released_switch :
    ∃ last, Runs.after step (start (loadsWith fullTable))
        [.matmul 4 4 4 1 false (matmulWith .notFinalized true), .loadBackend 2 (loadsWith fullTable)] =
        some last ∧ HandlesReleased last := by
  have reached : Runs.after step (start (loadsWith fullTable))
      [.matmul 4 4 4 1 false (matmulWith .notFinalized true), .loadBackend 2 (loadsWith fullTable)] =
      some _ := rfl
  have all : ∀ request ∈ [Request.matmul 4 4 4 1 false (matmulWith .notFinalized true),
      .loadBackend 2 (loadsWith fullTable)], request.Paired := by
    simp only [List.mem_cons, List.not_mem_nil, or_false, forall_eq_or_imp, forall_eq]
    exact ⟨loadsWith_paired, loadsWith_paired⟩
  exact ⟨_, reached, instance_handles_released loadsWith_paired all reached⟩

end Run

end NpuMatmul
