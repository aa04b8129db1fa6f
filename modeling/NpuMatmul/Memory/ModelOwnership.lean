import NpuMatmul.Memory.ModelObjects
import NpuMatmul.Shared.Ownership
import NpuMatmul.Shared.Runs

set_option autoImplicit false

namespace NpuMatmul

namespace ModelManager

def Event.created : Event → Option Resource
  | .creates resource => some resource
  | _ => none

def Event.released : Event → Option Resource
  | .releases resource => some resource
  | _ => none

def created (trace : List Event) : Multiset Resource := trace.filterMap Event.created

def released (trace : List Event) : Multiset Resource := trace.filterMap Event.released

def Resource.id : Resource → Nat
  | .flatBufferModel id => id
  | .interpreter id => id
  | .delegate id => id
  | .buffer id => id

-- Nothing is released before the interpreter that uses it.
def Allowed (past : List Event) (event : Event) : Prop :=
  ∀ resource, event = .releases resource → ∀ i, .uses i resource ∈ past →
    .releases (.interpreter i) ∈ past

def InOrder (trace : List Event) : Prop := Ownership.Always Allowed trace

section Traces

variable {past later : List Event} {resource : Resource} {resources : List Resource}

theorem created_append : created (later ++ past) = created later + created past := by
  simp [created, List.filterMap_append]

theorem released_append : released (later ++ past) = released later + released past := by
  simp [released, List.filterMap_append]

theorem mem_created : resource ∈ created past ↔ .creates resource ∈ past := by
  simp only [created, Multiset.mem_coe, List.mem_filterMap]
  constructor
  · rintro ⟨event, member, same⟩
    cases event <;> cases same
    exact member
  · intro member
    exact ⟨_, member, rfl⟩

theorem mem_released : resource ∈ released past ↔ .releases resource ∈ past := by
  simp only [released, Multiset.mem_coe, List.mem_filterMap]
  constructor
  · rintro ⟨event, member, same⟩
    cases event <;> cases same
    exact member
  · intro member
    exact ⟨_, member, rfl⟩

theorem count_released : (released past).count resource = past.count (.releases resource) := by
  induction past with
  | nil => rfl
  | cons event past ih =>
      rw [List.count_cons, ← ih]
      cases event with
      | creates other => simp [released, List.filterMap_cons, Event.released]
      | uses i other => simp [released, List.filterMap_cons, Event.released]
      | releases other =>
          simp [released, Event.released, List.count_cons]

theorem created_releases : created (resources.map .releases).reverse = 0 := by
  simp [created, Event.created]

theorem released_releases : released (resources.map .releases).reverse = resources := by
  simp [released, List.filterMap_reverse, List.filterMap_map, Function.comp_def, Event.released]

theorem inOrder_releases (inOrder : InOrder past)
    (each : ∀ resource ∈ resources, ∀ i, .uses i resource ∈ past →
      .releases (.interpreter i) ∈ past) :
    InOrder ((resources.map .releases).reverse ++ past) := by
  induction resources generalizing past with
  | nil => exact inOrder
  | cons first rest ih =>
      have start : InOrder (.releases first :: past) := by
        refine ⟨?_, inOrder⟩
        rintro _ ⟨⟩ i uses
        exact each first List.mem_cons_self i uses
      have next := ih start fun resource member i uses => by
        have earlier : .uses i resource ∈ past := by simpa using uses
        exact List.mem_cons_of_mem _ (each resource (List.mem_cons_of_mem _ member) i earlier)
      simpa using next

theorem created_reverse : created past.reverse = created past := by
  simp [created, List.filterMap_reverse]

theorem released_reverse : released past.reverse = released past := by
  simp [released, List.filterMap_reverse]

theorem inOrder_append (inOrder : InOrder past)
    (unused : ∀ resource, .releases resource ∈ later → ∀ i, .uses i resource ∉ later ++ past) :
    InOrder (later ++ past) := by
  induction later with
  | nil => exact inOrder
  | cons event rest ih =>
      refine ⟨?_, ih fun resource member i uses => ?_⟩
      · rintro resource rfl i uses
        exact absurd (List.mem_cons_of_mem _ uses) (unused resource List.mem_cons_self i)
      · exact unused resource (List.mem_cons_of_mem _ member) i (List.mem_cons_of_mem _ uses)

end Traces

-- What create_model has made is what its object holds, but for what it has released again.
structure Creation (model : Model) (events : List Event) (id : Nat) : Prop where
  balance : created events = model.members + released events
  once : (created events).Nodup
  numbered : ∀ resource ∈ created events, id ≤ resource.id ∧ resource.id < id + 3
  used : ∀ i resource, .uses i resource ∈ events →
    resource ∈ model.members ∧ (∀ j, resource ≠ .interpreter j) ∧ model.interpreter = some i

theorem Creation.member {model : Model} {events : List Event} {id : Nat}
    (creation : Creation model events id) {resource : Resource}
    (held : resource ∈ model.members) : resource ∈ created events := by
  rw [creation.balance]
  exact Multiset.mem_add.mpr (Or.inl (Multiset.mem_coe.mpr held))

structure DelegateCreation (delegates : List Resource) (events : List Event) (id : Nat) : Prop where
  balance : created events = delegates + released events
  once : (created events).Nodup
  numbered : ∀ resource ∈ created events, resource = .delegate id
  used : ∀ i resource, .uses i resource ∈ events →
    resource ∈ delegates ∧ resource = .delegate id ∧ i = id

theorem createDelegate_creation (backendChoice : Int) (outcome : CreateOutcome) (id : Nat) :
    DelegateCreation ((createDelegate backendChoice outcome id).1.map .delegate).toList
      (createDelegate backendChoice outcome id).2 id := by
  unfold createDelegate
  split
  next =>
    split
    next =>
      refine ⟨rfl, Multiset.nodup_singleton _, ?_, ?_⟩ <;> simp [created, Event.created]
    next =>
      refine ⟨rfl, Multiset.nodup_singleton _, ?_, ?_⟩ <;> simp [created, Event.created]
  next => exact ⟨rfl, Multiset.nodup_zero, by simp [created], by simp⟩

theorem created_buffers (buffers : List Nat) (id : Nat) :
    created (persistEvents buffers id) = buffers.map Resource.buffer := by
  simp [created, persistEvents, List.filterMap_append, List.filterMap_map, Function.comp_def,
    Event.created]

theorem released_buffers (buffers : List Nat) (id : Nat) :
    released (persistEvents buffers id) = 0 := by
  simp [released, persistEvents, List.filterMap_append, List.filterMap_map, Function.comp_def,
    Event.released]

def loadEvents (id : Nat) : List Event :=
  [.creates (.flatBufferModel id), .creates (.interpreter id), .uses id (.flatBufferModel id)]

section Parts

variable {delegates : List Resource} {events : List Event} {buffers : List Nat} {id : Nat}

theorem created_parts : created (loadEvents id ++ events ++ persistEvents buffers id) =
    {.flatBufferModel id, .interpreter id} + created events + buffers.map Resource.buffer := by
  rw [created_append, created_append, created_buffers]
  rfl

theorem parts_balance (own : DelegateCreation delegates events id) :
    created (loadEvents id ++ events ++ persistEvents buffers id) =
      (.interpreter id :: delegates ++ buffers.map .buffer ++ [.flatBufferModel id] :
        List Resource) + released (loadEvents id ++ events ++ persistEvents buffers id) := by
  have silent : released (loadEvents id) = 0 := rfl
  rw [created_parts, released_append, released_append, released_buffers, own.balance, silent]
  simp only [List.cons_append, ← Multiset.cons_coe, ← Multiset.coe_add, Multiset.insert_eq_cons,
    ← Multiset.singleton_add, zero_add, add_zero]
  ac_rfl

theorem parts_once (own : DelegateCreation delegates events id) (distinct : buffers.Nodup) :
    (created (loadEvents id ++ events ++ persistEvents buffers id)).Nodup := by
  have apart : (buffers.map Resource.buffer).Nodup :=
    distinct.map fun _ _ same => by injection same
  rw [created_parts, Multiset.nodup_add, Multiset.nodup_add]
  refine ⟨⟨by simp, own.once, ?_⟩, by simpa using apart, ?_⟩
  · refine Multiset.disjoint_left.mpr fun {resource} _ member => ?_
    have delegate := own.numbered resource member
    simp_all
  · refine Multiset.disjoint_left.mpr fun {resource} member buffer => ?_
    obtain ⟨number, -, rfl⟩ := List.mem_map.mp (Multiset.mem_coe.mp buffer)
    obtain here | delegate := Multiset.mem_add.mp member
    · simp at here
    · cases own.numbered _ delegate

theorem parts_numbered (own : DelegateCreation delegates events id)
    (near : ∀ buffer ∈ buffers, id ≤ buffer ∧ buffer < id + 3) :
    ∀ resource ∈ created (loadEvents id ++ events ++ persistEvents buffers id),
      id ≤ resource.id ∧ resource.id < id + 3 := by
  rw [created_parts]
  intro resource member
  obtain earlier | buffer := Multiset.mem_add.mp member
  · obtain here | delegate := Multiset.mem_add.mp earlier
    · obtain rfl | rfl : resource = .flatBufferModel id ∨ resource = .interpreter id := by
        simpa using here
      · exact ⟨le_rfl, by simp [Resource.id]⟩
      · exact ⟨le_rfl, by simp [Resource.id]⟩
    · rw [own.numbered resource delegate]
      exact ⟨le_rfl, by simp [Resource.id]⟩
  · obtain ⟨number, inside, rfl⟩ := List.mem_map.mp (Multiset.mem_coe.mp buffer)
    exact near number inside

theorem creation_of_parts {model : Model} (own : DelegateCreation delegates events id)
    (distinct : buffers.Nodup) (near : ∀ buffer ∈ buffers, id ≤ buffer ∧ buffer < id + 3)
    (interpreter : model.interpreter = some id)
    (members : model.members =
      .interpreter id :: delegates ++ buffers.map .buffer ++ [.flatBufferModel id]) :
    Creation model (loadEvents id ++ events ++ persistEvents buffers id) id := by
  refine ⟨by rw [members, parts_balance own], parts_once own distinct, parts_numbered own near, ?_⟩
  intro i resource uses
  rw [members]
  obtain earlier | buffer := List.mem_append.mp uses
  · obtain here | delegate := List.mem_append.mp earlier
    · obtain ⟨rfl, rfl⟩ : i = id ∧ resource = .flatBufferModel id := by
        simpa [loadEvents] using here
      exact ⟨by simp, by simp, interpreter⟩
    · obtain ⟨member, rfl, rfl⟩ := own.used i resource delegate
      exact ⟨by simp [member], by simp, interpreter⟩
  · obtain ⟨number, member, same⟩ : ∃ number ∈ buffers, id = i ∧ .buffer number = resource := by
      simpa [persistEvents] using buffer
    obtain ⟨rfl, rfl⟩ := same
    exact ⟨by simp [member], by simp, interpreter⟩

end Parts

theorem createModel_creation (M K N backendChoice : Int) (outcome : CreateOutcome) (id : Nat) :
    Creation (createModel M K N backendChoice outcome id).1
      (createModel M K N backendChoice outcome id).2 id := by
  unfold createModel
  cases outcome.loaded with
  | false => exact ⟨rfl, Multiset.nodup_zero, by simp [created], by simp⟩
  | true =>
      cases outcome.interpreter with
      | false =>
          refine ⟨rfl, Multiset.nodup_singleton _, ?_, by simp⟩
          simp [created, Event.created, Resource.id]
      | true =>
          have own := createDelegate_creation backendChoice outcome id
          simp only [Bool.not_true, Bool.false_eq_true, ↓reduceIte]
          refine creation_of_parts own ?_ ?_ rfl ?_
          · cases outcome.allocatedA <;> cases outcome.allocatedB <;>
              cases outcome.allocatedOut <;> simp
          · cases outcome.allocatedA <;> cases outcome.allocatedB <;>
              cases outcome.allocatedOut <;> simp
          · cases outcome.allocatedA <;> cases outcome.allocatedB <;>
              cases outcome.allocatedOut <;> simp [Model.members]

theorem Model.inOrder_members {model : Model} {past : List Event} (inOrder : InOrder past)
    (plain : ∀ i resource, .uses i resource ∈ past → ∀ j, resource ≠ .interpreter j)
    (together : ∀ resource ∈ model.members, ∀ i, .uses i resource ∈ past →
      model.interpreter = some i) :
    InOrder ((model.members.map .releases).reverse ++ past) := by
  cases present : model.interpreter with
  | none =>
      apply inOrder_releases inOrder
      intro resource member i uses
      cases present.symm.trans (together resource member i uses)
  | some interpreter =>
      obtain ⟨others, members⟩ : ∃ others, model.members = .interpreter interpreter :: others := by
        simp [Model.members, present]
      -- The interpreter goes first, which nothing uses.
      have first : InOrder (.releases (.interpreter interpreter) :: past) := by
        refine ⟨?_, inOrder⟩
        rintro _ ⟨⟩ i uses
        exact absurd rfl (plain i _ uses interpreter)
      have rest : InOrder
          ((others.map .releases).reverse ++ .releases (.interpreter interpreter) :: past) := by
        apply inOrder_releases first
        intro resource member i uses
        have earlier : .uses i resource ∈ past := by simpa using uses
        have inside : resource ∈ model.members := by simp [members, member]
        obtain rfl : interpreter = i :=
          Option.some.inj (present.symm.trans (together resource inside i earlier))
        exact List.mem_cons_self
      simpa [members] using rest

namespace Objects

def contents (s : Objects) (i : Nat) : Multiset Resource := (s.object i).members

-- What has been created is held by one object or has been released, and not twice. An object holds
-- an interpreter together with all that this uses.
structure Owned (s : Objects) : Prop where
  balance : created s.trace = Holdings.total s.live s.contents + released s.trace
  once : (created s.trace).Nodup
  numbered : ∀ resource ∈ created s.trace, resource.id < s.next
  known : ∀ i resource, .uses i resource ∈ s.trace →
    resource ∈ created s.trace ∧ ∀ j, resource ≠ .interpreter j
  together : ∀ a ∈ s.live, ∀ resource ∈ s.contents a, ∀ i, .uses i resource ∈ s.trace →
    (s.object a).interpreter = some i
  inOrder : InOrder s.trace
  older : ∀ a ∈ s.live, a < s.next

variable {s : Objects} {this other : Nat}

theorem Owned.start : Objects.start.Owned where
  balance := rfl
  once := Multiset.nodup_zero
  numbered := by simp [Objects.start, created]
  known := by simp [Objects.start]
  together := by simp [Objects.start]
  inOrder := trivial
  older := by simp [Objects.start]

theorem Owned.fresh (owned : s.Owned) : s.next ∉ s.live :=
  fun member => absurd (owned.older _ member) (lt_irrefl _)

theorem Owned.held_created (owned : s.Owned) (live : this ∈ s.live) {resource : Resource}
    (held : resource ∈ s.contents this) : resource ∈ created s.trace := by
  rw [owned.balance]
  exact Multiset.mem_add.mpr (Or.inl (Holdings.mem_total.mpr ⟨this, live, held⟩))

theorem Owned.held_together (owned : s.Owned) (live : this ∈ s.live) {resource : Resource}
    (held : resource ∈ (s.object this).members) {i : Nat} (uses : .uses i resource ∈ s.trace) :
    (s.object this).interpreter = some i :=
  owned.together this live resource (Multiset.mem_coe.mpr held) i uses

def take (object : Nat → Model) (target other : Nat) : Nat → Model :=
  Function.update (Function.update object other (object other).moved.2) target
    (object other).moved.1

theorem take_contents (object : Nat → Model) (target : Nat) :
    (fun a => ((take object target other a).members : Multiset Resource)) =
      Function.update (Function.update (fun a => ((object a).members : Multiset Resource)) other 0)
        target (object other).members := by
  funext a
  simp only [take, Model.moved, Function.update_apply]
  split
  next => rfl
  next =>
    split
    next => rfl
    next => rfl

theorem take_held {object : Nat → Model} {target a : Nat} {resource : Resource}
    (held : resource ∈ (take object target other a).members) :
    ∃ b, (b = other ∨ b = a ∧ a ≠ target) ∧ resource ∈ (object b).members ∧
      (take object target other a).interpreter = (object b).interpreter := by
  by_cases taker : a = target
  · subst taker
    simp only [take, Function.update_self] at held ⊢
    exact ⟨other, Or.inl rfl, held, rfl⟩
  · by_cases source : a = other
    · subst source
      simp [take, taker, Model.moved, Model.members] at held
    · simp only [take, Function.update_of_ne taker, Function.update_of_ne source] at held ⊢
      exact ⟨a, Or.inr ⟨rfl, taker⟩, held, rfl⟩

def add (s : Objects) (model : Model) (events : List Event) : Objects :=
  { s with
    live := insert s.next s.live, object := Function.update s.object s.next model
    next := s.next + 3, trace := events.reverse ++ s.trace }

section Creating

variable {model : Model} {events : List Event}

theorem add_created : created (s.add model events).trace = created events + created s.trace := by
  rw [add, created_append, created_reverse]

theorem add_contents : (s.add model events).contents =
    Function.update s.contents s.next (model.members : Multiset Resource) := by
  funext a
  simp only [add, contents, Function.update_apply]
  split <;> rfl

variable (owned : s.Owned) (creation : Creation model events s.next)

include owned creation

theorem created_apart : ∀ resource ∈ created events, resource ∉ created s.trace := by
  intro resource member earlier
  have above := (creation.numbered resource member).1
  have below := owned.numbered resource earlier
  omega

theorem add_balance : created (s.add model events).trace =
    Holdings.total (s.add model events).live (s.add model events).contents +
      released (s.add model events).trace := by
  have total := Holdings.total_insert s.contents owned.fresh model.members
  calc created (s.add model events).trace
      = (model.members + released events) +
          (Holdings.total s.live s.contents + released s.trace) := by
        rw [add_created, creation.balance, owned.balance]
    _ = (model.members + Holdings.total s.live s.contents) +
          (released events + released s.trace) := by ac_rfl
    _ = Holdings.total (s.add model events).live (s.add model events).contents +
          released (s.add model events).trace := by
        rw [add_contents, add, total, released_append, released_reverse]

theorem add_known {i : Nat} {resource : Resource}
    (uses : .uses i resource ∈ (s.add model events).trace) :
    resource ∈ created (s.add model events).trace ∧ ∀ j, resource ≠ .interpreter j := by
  rw [add_created]
  obtain new | old := List.mem_append.mp uses
  · obtain ⟨held, plain, -⟩ := creation.used i resource (List.mem_reverse.mp new)
    exact ⟨Multiset.mem_add.mpr (Or.inl (creation.member held)), plain⟩
  · obtain ⟨member, plain⟩ := owned.known i resource old
    exact ⟨Multiset.mem_add.mpr (Or.inr member), plain⟩

theorem add_together {a : Nat} (member : a ∈ (s.add model events).live) {resource : Resource}
    (held : resource ∈ (s.add model events).contents a) {i : Nat}
    (uses : .uses i resource ∈ (s.add model events).trace) :
    ((s.add model events).object a).interpreter = some i := by
  have apart := created_apart owned creation
  rw [add_contents] at held
  obtain rfl | old := Finset.mem_insert.mp member
  · have held : resource ∈ model.members := by simpa using held
    obtain new | earlier := List.mem_append.mp uses
    · simpa [add] using (creation.used i resource (List.mem_reverse.mp new)).2.2
    · exact absurd (owned.known i resource earlier).1 (apart resource (creation.member held))
  · have other : a ≠ s.next := fun same => owned.fresh (same ▸ old)
    rw [Function.update_of_ne other] at held
    obtain new | earlier := List.mem_append.mp uses
    · have own := (creation.used i resource (List.mem_reverse.mp new)).1
      exact absurd (owned.held_created old held) (apart resource (creation.member own))
    · simpa [add, other] using owned.together a old resource held i earlier

theorem add_inOrder : InOrder (s.add model events).trace := by
  apply inOrder_append owned.inOrder
  intro resource released i uses
  have gone := mem_released.mpr (List.mem_reverse.mp released)
  have new : resource ∈ created events := by
    rw [creation.balance]
    exact Multiset.mem_add.mpr (Or.inr gone)
  obtain own | earlier := List.mem_append.mp uses
  · have held := (creation.used i resource (List.mem_reverse.mp own)).1
    have once := creation.once
    rw [creation.balance] at once
    exact Multiset.disjoint_left.mp (Multiset.nodup_add.mp once).2.2
      (Multiset.mem_coe.mpr held) gone
  · exact created_apart owned creation resource new (owned.known i resource earlier).1

theorem add_owned : (s.add model events).Owned where
  balance := add_balance owned creation
  once := by
    rw [add_created]
    exact Multiset.nodup_add.mpr ⟨creation.once, owned.once,
      Multiset.disjoint_left.mpr fun {resource} member =>
        created_apart owned creation resource member⟩
  numbered := by
    intro resource member
    rw [add_created] at member
    obtain new | old := Multiset.mem_add.mp member
    · exact (creation.numbered resource new).2
    · exact (owned.numbered resource old).trans (Nat.lt_add_of_pos_right (by decide))
  known _ _ uses := add_known owned creation uses
  together _ live _ held _ uses := add_together owned creation live held uses
  inOrder := add_inOrder owned creation
  older := by
    intro a member
    obtain rfl | member := Finset.mem_insert.mp member
    · exact Nat.lt_add_of_pos_right (by decide)
    · exact (owned.older a member).trans (Nat.lt_add_of_pos_right (by decide))

end Creating

theorem create_owned (M K N backendChoice : Int) (outcome : CreateOutcome) (owned : s.Owned) :
    (s.create M K N backendChoice outcome).1.Owned :=
  add_owned owned (createModel_creation M K N backendChoice outcome s.next)

theorem moveConstruct_owned (owned : s.Owned) (live : other ∈ s.live) :
    (s.moveConstruct other).1.Owned where
  balance := by
    have same : (s.moveConstruct other).1.contents = Function.update
        (Function.update s.contents other 0) s.next (s.contents other) :=
      take_contents s.object s.next
    have taken := Holdings.total_insert (Function.update s.contents other 0)
      owned.fresh (s.contents other)
    have left := Holdings.total_update s.contents live 0
    have total : Holdings.total (insert s.next s.live) (s.moveConstruct other).1.contents =
        Holdings.total s.live s.contents := by
      rw [same, taken, add_comm, left, zero_add]
    exact owned.balance.trans (congrArg (· + released s.trace) total.symm)
  once := owned.once
  numbered resource member := (owned.numbered resource member).trans (Nat.lt_succ_self _)
  known := owned.known
  together := by
    intro a member resource held i uses
    obtain ⟨b, place, held, same⟩ := take_held (Multiset.mem_coe.mp held)
    refine same.trans (owned.held_together ?_ held uses)
    obtain rfl | ⟨rfl, apart⟩ := place
    · exact live
    · exact Finset.mem_of_mem_insert_of_ne member apart
  inOrder := owned.inOrder
  older := by
    intro a member
    obtain rfl | member := Finset.mem_insert.mp member
    · exact Nat.lt_succ_self _
    · exact (owned.older a member).trans (Nat.lt_succ_self _)

theorem uses_released {resources : List Resource} {past : List Event} {i : Nat}
    {resource : Resource} :
    .uses i resource ∈ (resources.map .releases).reverse ++ past ↔ .uses i resource ∈ past := by
  simp

theorem release_inOrder (owned : s.Owned) (live : this ∈ s.live) :
    InOrder (s.release (s.object this).members).trace :=
  Model.inOrder_members owned.inOrder (fun i resource uses => (owned.known i resource uses).2)
    fun _ held _ uses => owned.held_together live held uses

theorem release_created (resources : List Resource) :
    created (s.release resources).trace = created s.trace := by
  rw [release, created_append, created_releases, zero_add]

theorem release_released (resources : List Resource) :
    released (s.release resources).trace = resources + released s.trace := by
  rw [release, released_append, released_releases]

theorem moveAssign_owned (owned : s.Owned) (live : this ∈ s.live) (source : other ∈ s.live) :
    (s.moveAssign this other).Owned := by
  unfold moveAssign
  split
  next => exact owned
  next apart =>
    have created_same := release_created (s := s) (s.object this).members
    refine ⟨?_, ?_, ?_, ?_, ?_, release_inOrder owned live, owned.older⟩
    · have taken := Holdings.total_take s.contents live source (Ne.symm apart)
      have same : (fun a => ((take s.object this other a).members : Multiset Resource)) = _ :=
        take_contents s.object this
      have total : Holdings.total s.live
          (fun a => ((take s.object this other a).members : Multiset Resource)) +
            s.contents this = Holdings.total s.live s.contents := by
        rw [same]
        exact taken
      have freed := release_released (s := s) (s.object this).members
      calc created (s.release (s.object this).members).trace
          = Holdings.total s.live s.contents + released s.trace := created_same.trans owned.balance
        _ = Holdings.total s.live
              (fun a => ((take s.object this other a).members : Multiset Resource)) +
              (s.contents this + released s.trace) := by rw [← total, add_assoc]
        _ = _ := by rw [contents, ← freed]; rfl
    · exact created_same ▸ owned.once
    · exact created_same ▸ owned.numbered
    · intro i resource uses
      exact created_same ▸ owned.known i resource (uses_released.mp uses)
    · intro a member resource held i uses
      obtain ⟨b, place, held, same⟩ := take_held (Multiset.mem_coe.mp held)
      refine same.trans (owned.held_together ?_ held (uses_released.mp uses))
      obtain rfl | ⟨rfl, -⟩ := place
      · exact source
      · exact member

theorem destruct_owned (owned : s.Owned) (live : this ∈ s.live) : (s.destruct this).Owned := by
  have created_same := release_created (s := s) (s.object this).members
  refine ⟨?_, ?_, ?_, ?_, ?_, release_inOrder owned live, ?_⟩
  · have rest := Holdings.total_erase s.contents live
    have freed := release_released (s := s) (s.object this).members
    calc created (s.release (s.object this).members).trace
        = Holdings.total s.live s.contents + released s.trace := created_same.trans owned.balance
      _ = Holdings.total (s.live.erase this) s.contents +
            (s.contents this + released s.trace) := by
          rw [rest, add_comm (s.contents this), add_assoc]
      _ = _ := by rw [contents, ← freed]; rfl
  · exact created_same ▸ owned.once
  · exact created_same ▸ owned.numbered
  · intro i resource uses
    exact created_same ▸ owned.known i resource (uses_released.mp uses)
  · intro a member resource held i uses
    exact owned.together a (Finset.mem_of_mem_erase member) resource held i (uses_released.mp uses)
  · exact fun a member => owned.older a (Finset.mem_of_mem_erase member)

structure Placed (s : Objects) : Prop where
  owned : s.Owned
  distinct : s.models.Nodup
  alive : ∀ a ∈ s.models, a ∈ s.live

theorem destructAll_owned {objects : List Nat} (owned : s.Owned) (distinct : objects.Nodup)
    (alive : ∀ a ∈ objects, a ∈ s.live) :
    (destructAll objects s).Owned ∧
      ∀ a ∈ s.live, a ∉ objects → a ∈ (destructAll objects s).live := by
  induction objects generalizing s with
  | nil => exact ⟨owned, fun a live _ => live⟩
  | cons first rest ih =>
      obtain ⟨apart, distinct⟩ := List.nodup_cons.mp distinct
      have next := destruct_owned owned (alive first List.mem_cons_self)
      obtain ⟨final, kept⟩ := ih next distinct fun a member =>
        Finset.mem_erase.mpr
          ⟨fun same => apart (same ▸ member), alive a (List.mem_cons_of_mem _ member)⟩
      refine ⟨final, fun a live outside => kept a ?_ fun member => ?_⟩
      · exact Finset.mem_erase.mpr ⟨fun same => outside (same ▸ List.mem_cons_self), live⟩
      · exact outside (List.mem_cons_of_mem _ member)

structure Moves (s t : Objects) (elements : List Nat) : Prop where
  owned : t.Owned
  distinct : elements.Nodup
  alive : ∀ a ∈ elements, a ∈ t.live
  newer : ∀ a ∈ elements, s.next ≤ a
  grown : s.next ≤ t.next

theorem moveAll_moves {objects : List Nat} (owned : s.Owned) (alive : ∀ a ∈ objects, a ∈ s.live) :
    Moves s (moveAll objects s).1 (moveAll objects s).2 ∧ s.live ⊆ (moveAll objects s).1.live := by
  induction objects generalizing s with
  | nil => exact ⟨⟨owned, List.nodup_nil, by simp [moveAll], by simp [moveAll], le_rfl⟩, subset_rfl⟩
  | cons first rest ih =>
      have next := moveConstruct_owned owned (alive first List.mem_cons_self)
      have more : s.live ⊆ (s.moveConstruct first).1.live := Finset.subset_insert _ _
      obtain ⟨moves, kept⟩ := ih next fun a member => more (alive a (List.mem_cons_of_mem _ member))
      have element : (s.moveConstruct first).2 ∈ (s.moveConstruct first).1.live :=
        Finset.mem_insert_self _ _
      refine ⟨⟨moves.owned, ?_, ?_, ?_, ?_⟩, more.trans kept⟩
      · refine List.nodup_cons.mpr ⟨fun member => ?_, moves.distinct⟩
        exact absurd (moves.newer _ member) (Nat.not_succ_le_self _)
      · exact List.forall_mem_cons.mpr ⟨kept element, moves.alive⟩
      · exact List.forall_mem_cons.mpr
          ⟨le_rfl, fun a member => (Nat.le_succ _).trans (moves.newer a member)⟩
      · exact (Nat.le_succ _).trans moves.grown

theorem relocateEach_moves {objects : List Nat} (owned : s.Owned) (distinct : objects.Nodup)
    (alive : ∀ a ∈ objects, a ∈ s.live) :
    Moves s (relocateEach objects s).1 (relocateEach objects s).2 ∧
      ∀ a ∈ s.live, a ∉ objects → a ∈ (relocateEach objects s).1.live := by
  induction objects generalizing s with
  | nil =>
      exact ⟨⟨owned, List.nodup_nil, by simp [relocateEach], by simp [relocateEach], le_rfl⟩,
        fun a live _ => live⟩
  | cons first rest ih =>
      obtain ⟨apart, distinct⟩ := List.nodup_cons.mp distinct
      have live := alive first List.mem_cons_self
      have moved := moveConstruct_owned owned live
      have next := destruct_owned moved (Finset.mem_insert_of_mem live)
      have still : ∀ a ∈ (s.moveConstruct first).1.live, a ≠ first →
          a ∈ ((s.moveConstruct first).1.destruct first).live := fun a live other =>
        Finset.mem_erase.mpr ⟨other, live⟩
      have older : ∀ a ∈ s.live, a ∈ (s.moveConstruct first).1.live := fun a live =>
        Finset.mem_insert_of_mem live
      obtain ⟨moves, kept⟩ := ih next distinct fun a member =>
        still a (older a (alive a (List.mem_cons_of_mem _ member)))
          fun same => apart (same ▸ member)
      have fresh : (s.moveConstruct first).2 ≠ first := fun same =>
        owned.fresh ((show s.next = first from same).symm ▸ live)
      have outside : (s.moveConstruct first).2 ∉ rest := fun member =>
        owned.fresh (alive _ (List.mem_cons_of_mem _ member))
      have element := kept _ (still _ (Finset.mem_insert_self _ _) fresh) outside
      refine ⟨⟨moves.owned, ?_, ?_, ?_, ?_⟩, fun a live others => ?_⟩
      · refine List.nodup_cons.mpr ⟨fun member => ?_, moves.distinct⟩
        exact absurd (moves.newer _ member) (Nat.not_succ_le_self _)
      · exact List.forall_mem_cons.mpr ⟨element, moves.alive⟩
      · exact List.forall_mem_cons.mpr
          ⟨le_rfl, fun a member => (Nat.le_succ _).trans (moves.newer a member)⟩
      · exact (Nat.le_succ _).trans moves.grown
      · exact kept a (still a (older a live) fun same => others (same ▸ List.mem_cons_self))
          fun member => others (List.mem_cons_of_mem _ member)

theorem Owned.with_models (owned : s.Owned) (models : List Nat) :
    { s with models := models }.Owned :=
  ⟨owned.balance, owned.once, owned.numbered, owned.known, owned.together, owned.inOrder,
    owned.older⟩

theorem relocate_placed (growth : Growth) (placed : s.Placed) :
    (s.relocate growth).Placed ∧ (∀ a ∈ (s.relocate growth).models, a ∈ s.models ∨ s.next ≤ a) ∧
      ∀ a ∈ s.live, a ∉ s.models → a ∈ (s.relocate growth).live := by
  cases growth with
  | spare => exact ⟨placed, fun a member => Or.inl member, fun a live _ => live⟩
  | eachInTurn =>
      obtain ⟨moves, kept⟩ := relocateEach_moves placed.owned placed.distinct placed.alive
      exact ⟨⟨moves.owned.with_models _, moves.distinct, moves.alive⟩,
        fun a member => Or.inr (moves.newer a member), kept⟩
  | allThenOld =>
      obtain ⟨moves, kept⟩ := moveAll_moves placed.owned placed.alive
      obtain ⟨gone, others⟩ := destructAll_owned moves.owned placed.distinct fun a member =>
        kept (placed.alive a member)
      refine ⟨⟨gone.with_models _, moves.distinct, fun a member => ?_⟩,
        fun a member => Or.inr (moves.newer a member), fun a live => others a (kept live)⟩
      refine others a (moves.alive a member) fun old => ?_
      have below := placed.owned.older a (placed.alive a old)
      have above := moves.newer a member
      omega

theorem fetchModel_placed {M K N backendChoice : Int} {outcome : CreateOutcome} {growth : Growth}
    (placed : s.Placed) : (s.fetchModel M K N backendChoice outcome growth).1.Placed := by
  unfold fetchModel
  split
  next => exact placed
  next =>
    have made := create_owned M K N backendChoice outcome placed.owned
    have temporary : s.next ∈ (s.create M K N backendChoice outcome).1.live :=
      Finset.mem_insert_self _ _
    -- The temporary object is s.next, and the new element the next one.
    have moved := moveConstruct_owned made temporary
    have old : ∀ a ∈ s.models, a < s.next := fun a member =>
      placed.owned.older a (placed.alive a member)
    have before : ((s.create M K N backendChoice outcome).1.moveConstruct s.next).1.Placed := by
      refine ⟨moved, placed.distinct, fun a member => ?_⟩
      exact Finset.mem_insert_of_mem (Finset.mem_insert_of_mem (placed.alive a member))
    obtain ⟨grown, sources, kept⟩ := relocate_placed growth before
    have temporary_kept := kept s.next (Finset.mem_insert_of_mem temporary) fun member =>
      absurd (old _ member) (lt_irrefl _)
    have element_kept := kept (s.next + 3) (Finset.mem_insert_self _ _) fun member =>
      absurd (old _ member) (by omega)
    have apart : ∀ a ∈ (((s.create M K N backendChoice outcome).1.moveConstruct s.next).1.relocate
        growth).models, a ≠ s.next ∧ a ≠ s.next + 3 := by
      intro a member
      obtain before | (after : s.next + 4 ≤ a) := sources a member
      · have below := old a before
        omega
      · omega
    refine ⟨destruct_owned (grown.owned.with_models _) temporary_kept, ?_, fun a member => ?_⟩
    · refine List.nodup_append.mpr ⟨grown.distinct, List.nodup_singleton _, ?_⟩
      intro a member b single
      rw [List.mem_singleton.mp single]
      exact (apart a member).2
    · obtain earlier | last := List.mem_append.mp member
      · exact Finset.mem_erase.mpr ⟨(apart a earlier).1, grown.alive a earlier⟩
      · rw [List.mem_singleton.mp last]
        exact Finset.mem_erase.mpr ⟨by show s.next + 3 ≠ s.next; omega, element_kept⟩

theorem step_placed {action : Action} {t : Objects} (placed : s.Placed)
    (moved : s.step action = some t) : t.Placed := by
  cases action with
  | fetchModel M K N backendChoice outcome growth =>
      cases moved
      exact fetchModel_placed placed
  | createModel M K N backendChoice outcome =>
      cases moved
      exact ⟨create_owned M K N backendChoice outcome placed.owned, placed.distinct,
        fun a member => Finset.mem_insert_of_mem (placed.alive a member)⟩
  | moveConstruct other =>
      obtain ⟨live, moved⟩ := Option.ite_none_right_eq_some.mp moved
      cases moved
      exact ⟨moveConstruct_owned placed.owned live, placed.distinct,
        fun a member => Finset.mem_insert_of_mem (placed.alive a member)⟩
  | moveAssign this other =>
      obtain ⟨⟨live, source⟩, moved⟩ := Option.ite_none_right_eq_some.mp moved
      cases moved
      have kept : (s.moveAssign this other).models = s.models ∧
          (s.moveAssign this other).live = s.live := by
        unfold moveAssign
        split <;> exact ⟨rfl, rfl⟩
      refine ⟨moveAssign_owned placed.owned live source, kept.1 ▸ placed.distinct, ?_⟩
      rw [kept.1, kept.2]
      exact placed.alive
  | destruct this =>
      obtain ⟨live, moved⟩ := Option.ite_none_right_eq_some.mp moved
      cases moved
      refine ⟨(destruct_owned placed.owned live).with_models _, placed.distinct.erase this, ?_⟩
      intro a member
      obtain ⟨apart, member⟩ := (placed.distinct.mem_erase_iff).mp member
      exact Finset.mem_erase.mpr ⟨apart, placed.alive a member⟩

theorem Placed.start : Objects.start.Placed :=
  ⟨Owned.start, List.nodup_nil, by simp [Objects.start]⟩

def Holds (s : Objects) (resource : Resource) : Prop :=
  ∃ a ∈ s.live, resource ∈ (s.object a).members

-- One object at most owns a resource, and a resource that none owns has been released once.
structure Sound (s : Objects) : Prop where
  one_owner : ∀ a ∈ s.live, ∀ b ∈ s.live, ∀ resource, resource ∈ (s.object a).members →
    resource ∈ (s.object b).members → a = b
  owned_or_released : ∀ resource, .creates resource ∈ s.trace →
    (s.Holds resource ∧ s.trace.count (.releases resource) = 0) ∨
      (¬ s.Holds resource ∧ s.trace.count (.releases resource) = 1)
  made : ∀ resource, s.Holds resource ∨ .releases resource ∈ s.trace → .creates resource ∈ s.trace
  inOrder : InOrder s.trace

theorem Owned.sound (owned : s.Owned) : s.Sound := by
  have holds : ∀ resource, resource ∈ Holdings.total s.live s.contents ↔ s.Holds resource :=
    fun resource => Holdings.mem_total
  have once := owned.once
  rw [owned.balance] at once
  obtain ⟨held_once, released_once, apart⟩ := Multiset.nodup_add.mp once
  refine ⟨?_, ?_, ?_, owned.inOrder⟩
  · intro a first b second resource holds also
    exact Holdings.one_holder held_once first second (Multiset.mem_coe.mpr holds)
      (Multiset.mem_coe.mpr also)
  · intro resource member
    have known := mem_created.mpr member
    rw [owned.balance] at known
    rw [← count_released, ← holds]
    obtain held | gone := Multiset.mem_add.mp known
    · have kept := Multiset.disjoint_left.mp apart held
      exact Or.inl ⟨held, Multiset.count_eq_zero_of_notMem kept⟩
    · have left := Multiset.disjoint_right.mp apart gone
      exact Or.inr ⟨left, Multiset.count_eq_one_of_mem released_once gone⟩
  · intro resource known
    rw [← mem_created, owned.balance, Multiset.mem_add, holds, mem_released]
    exact known

end Objects

def sampleRun : List Action :=
  let works : CreateOutcome :=
    { loaded := true, interpreter := true, delegateCreated := true, graphModified := true
      bytesA := 2048, bytesB := 2048, bytesOut := 4096
      allocatedA := true, allocatedB := true, allocatedOut := true }
  [.fetchModel 32 32 32 1 works .spare,
    .fetchModel 32 64 32 1 { works with graphModified := false } .allThenOld,
    .moveAssign 7 8, .moveAssign 8 8, .destruct 8, .destruct 7]

end ModelManager

end NpuMatmul
