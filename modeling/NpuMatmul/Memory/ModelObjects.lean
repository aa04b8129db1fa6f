import NpuMatmul.Memory.Kernels
import NpuMatmul.Shared.Holdings

set_option autoImplicit false

namespace NpuMatmul

namespace ModelManager

-- Each thing that create_model makes has a number of its own among those of its kind.
inductive Resource where
  | flatBufferModel (id : Nat)
  | interpreter (id : Nat)
  | delegate (id : Nat)
  | buffer (id : Nat)
deriving DecidableEq, Repr

inductive Event where
  | creates (resource : Resource)
  | uses (interpreter : Nat) (resource : Resource)
  | releases (resource : Resource)
deriving DecidableEq, Repr

structure Model where
  model : Option Nat
  interpreter : Option Nat
  M : Int
  K : Int
  N : Int
  backendChoice : Int
  delegate : Option Nat
  persistA : Option Nat
  persistB : Option Nat
  persistOut : Option Nat
  sizeA : Nat
  sizeB : Nat
  sizeOut : Nat
deriving DecidableEq, Repr

namespace Model

def empty (M K N backendChoice : Int) : Model :=
  { model := none, interpreter := none, M := M, K := K, N := N, backendChoice := backendChoice
    delegate := none, persistA := none, persistB := none, persistOut := none
    sizeA := 0, sizeB := 0, sizeOut := 0 }

-- What the destructor releases, in its order. The body comes first, and of the members that are
-- destroyed after it only model is left.
def members (this : Model) : List Resource :=
  (this.interpreter.map .interpreter).toList ++ (this.delegate.map .delegate).toList ++
    (this.persistA.map .buffer).toList ++ (this.persistB.map .buffer).toList ++
    (this.persistOut.map .buffer).toList ++ (this.model.map .flatBufferModel).toList

-- What the move constructor makes of the other object: the new one, and what the other one is then.
def moved (other : Model) : Model × Model :=
  (other,
    { other with
      model := none, interpreter := none, delegate := none, persistA := none, persistB := none
      persistOut := none })

def serves (this : Model) (M K N backendChoice : Int) : Bool :=
  this.M = M && this.K = K && this.N = N && this.backendChoice = backendChoice

end Model

structure CreateOutcome where
  loaded : Bool
  interpreter : Bool
  delegateCreated : Bool
  graphModified : Bool
  bytesA : Nat
  bytesB : Nat
  bytesOut : Nat
  allocatedA : Bool
  allocatedB : Bool
  allocatedOut : Bool

-- An interpreter uses the delegate that has modified its graph, and no other.
def createDelegate (backendChoice : Int) (outcome : CreateOutcome) (id : Nat) :
    Option Nat × List Event :=
  if 0 < backendChoice ∧ outcome.delegateCreated then
    if outcome.graphModified then (some id, [.creates (.delegate id), .uses id (.delegate id)])
    else (none, [.creates (.delegate id), .releases (.delegate id)])
  else (none, [])

-- Each buffer is allocated before the first one is set as a tensor's allocation.
def persistEvents (buffers : List Nat) (id : Nat) : List Event :=
  buffers.map (fun buffer => .creates (.buffer buffer)) ++
    buffers.map fun buffer => .uses id (.buffer buffer)

-- The object that is returned, and what happens on the way. What is made has the number id, and
-- the buffers have the numbers from id on. A return that is not elided is a move of the object.
def createModel (M K N backendChoice : Int) (outcome : CreateOutcome) (id : Nat) :
    Model × List Event :=
  let empty := Model.empty M K N backendChoice
  if !outcome.loaded then (empty, [])
  else if !outcome.interpreter then
    ({ empty with model := some id }, [.creates (.flatBufferModel id)])
  else
    let (delegate, delegateEvents) := createDelegate backendChoice outcome id
    let typeSize := if backendChoice = 3 then 4 else 2
    let persistA := if outcome.allocatedA then some id else none
    let persistB := if outcome.allocatedB then some (id + 1) else none
    let persistOut := if outcome.allocatedOut then some (id + 2) else none
    let buffers := persistA.toList ++ persistB.toList ++ persistOut.toList
    ({ empty with
        model := some id, interpreter := some id, delegate := delegate
        persistA := persistA, persistB := persistB, persistOut := persistOut
        sizeA := max outcome.bytesA (sizeT (M * K * typeSize))
        sizeB := max outcome.bytesB (sizeT (K * N * typeSize))
        sizeOut := outcome.bytesOut },
      [.creates (.flatBufferModel id), .creates (.interpreter id),
        .uses id (.flatBufferModel id)] ++ delegateEvents ++ persistEvents buffers id)

structure Objects where
  live : Finset Nat
  object : Nat → Model
  models : List Nat
  next : Nat
  trace : List Event

-- How a vector makes room for one more element: it has some, or it moves its elements to a new
-- storage and destroys each old one at once, or all of them at the end.
inductive Growth where
  | spare
  | eachInTurn
  | allThenOld

namespace Objects

def release (s : Objects) (resources : List Resource) : Objects :=
  { s with trace := (resources.map .releases).reverse ++ s.trace }

def create (s : Objects) (M K N backendChoice : Int) (outcome : CreateOutcome) : Objects × Nat :=
  let (model, events) := createModel M K N backendChoice outcome s.next
  ({ s with
      live := insert s.next s.live, object := Function.update s.object s.next model
      next := s.next + 3, trace := events.reverse ++ s.trace }, s.next)

def moveConstruct (s : Objects) (other : Nat) : Objects × Nat :=
  let (moved, left) := (s.object other).moved
  ({ s with
      live := insert s.next s.live
      object := Function.update (Function.update s.object other left) s.next moved
      next := s.next + 1 }, s.next)

-- The old model goes when it is assigned to, after the rest.
def moveAssign (s : Objects) (this other : Nat) : Objects :=
  if this = other then s
  else
    let s := s.release (s.object this).members
    let (moved, left) := (s.object other).moved
    { s with object := Function.update (Function.update s.object other left) this moved }

def destruct (s : Objects) (this : Nat) : Objects :=
  { s.release (s.object this).members with live := s.live.erase this }

def moveAll : List Nat → Objects → Objects × List Nat
  | [], s => (s, [])
  | old :: rest, s =>
      let (s, element) := s.moveConstruct old
      let (s, elements) := moveAll rest s
      (s, element :: elements)

def destructAll : List Nat → Objects → Objects
  | [], s => s
  | old :: rest, s => destructAll rest (s.destruct old)

def relocateEach : List Nat → Objects → Objects × List Nat
  | [], s => (s, [])
  | old :: rest, s =>
      let (s, element) := s.moveConstruct old
      let (s, elements) := relocateEach rest (s.destruct old)
      (s, element :: elements)

def relocate (s : Objects) : Growth → Objects
  | .spare => s
  | .eachInTurn =>
      let (t, elements) := relocateEach s.models s
      { t with models := elements }
  | .allThenOld =>
      let (t, elements) := moveAll s.models s
      { destructAll s.models t with models := elements }

-- The new element is constructed before those of the old storage move. fetch_model returns it.
def fetchModel (s : Objects) (M K N backendChoice : Int) (outcome : CreateOutcome)
    (growth : Growth) : Objects × Nat :=
  match s.models.find? fun i => (s.object i).serves M K N backendChoice with
  | some i => (s, i)
  | none =>
      let (s, temporary) := s.create M K N backendChoice outcome
      let (s, element) := s.moveConstruct temporary
      let s := s.relocate growth
      let s := { s with models := s.models ++ [element] }
      (s.destruct temporary, element)

def start : Objects :=
  { live := ∅, object := fun _ => .empty 0 0 0 0, models := [], next := 0, trace := [] }

end Objects

inductive Action where
  | fetchModel (M K N backendChoice : Int) (outcome : CreateOutcome) (growth : Growth)
  | createModel (M K N backendChoice : Int) (outcome : CreateOutcome)
  | moveConstruct (other : Nat)
  | moveAssign (this other : Nat)
  | destruct (this : Nat)

namespace Objects

def step (s : Objects) : Action → Option Objects
  | .fetchModel M K N backendChoice outcome growth =>
      some (s.fetchModel M K N backendChoice outcome growth).1
  | .createModel M K N backendChoice outcome => some (s.create M K N backendChoice outcome).1
  | .moveConstruct other => if other ∈ s.live then some (s.moveConstruct other).1 else none
  | .moveAssign this other =>
      if this ∈ s.live ∧ other ∈ s.live then some (s.moveAssign this other) else none
  | .destruct this =>
      if this ∈ s.live then some { s.destruct this with models := s.models.erase this } else none

end Objects

end ModelManager

end NpuMatmul
