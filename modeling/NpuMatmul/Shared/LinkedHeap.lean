import Mathlib.Logic.Function.Basic
import Mathlib.Data.List.Chain

set_option autoImplicit false

namespace LinkedHeap

structure View (η α : Type) where
  value : η → α
  next : η → Option Nat
  prev : η → Option Nat

def firstAddress {α : Type} (nodes : List (Nat × α)) (next : Option Nat) : Option Nat :=
  match nodes with
  | [] => next
  | node :: _ => some node.1

def lastAddress {α : Type} (prev : Option Nat) : List (Nat × α) → Option Nat
  | [] => prev
  | node :: rest => lastAddress (some node.1) rest

@[simp] theorem firstAddress_append {α : Type} (left right : List (Nat × α)) (next : Option Nat) :
    firstAddress (left ++ right) next = firstAddress left (firstAddress right next) := by
  cases left <;> rfl

@[simp] theorem lastAddress_append {α : Type} (left right : List (Nat × α)) (prev : Option Nat) :
    lastAddress prev (left ++ right) = lastAddress (lastAddress prev left) right := by
  induction left generalizing prev with
  | nil => rfl
  | cons node rest ih => exact ih (some node.1)

-- The heap stores exactly this segment, entered from prev and left towards next.
def Linked {η α : Type} (view : View η α) (heap : Nat → η) :
    Option Nat → List (Nat × α) → Option Nat → Prop
  | _, [], _ => True
  | prev, node :: rest, next =>
      view.value (heap node.1) = node.2 ∧ view.prev (heap node.1) = prev ∧
        view.next (heap node.1) = firstAddress rest next ∧
        Linked view heap (some node.1) rest next

theorem linked_append {η α : Type} {view : View η α} {heap : Nat → η} {prev next : Option Nat}
    {left right : List (Nat × α)} :
    Linked view heap prev (left ++ right) next ↔
      Linked view heap prev left (firstAddress right next) ∧
        Linked view heap (lastAddress prev left) right next := by
  induction left generalizing prev with
  | nil => simp [Linked, lastAddress]
  | cons node rest ih =>
    simp only [List.cons_append, Linked, ih, lastAddress, firstAddress_append, and_assoc]

-- Frame rule: a segment only depends on the records at its own addresses.
theorem Linked.congr {η α : Type} {view : View η α} {heap heap' : Nat → η}
    {prev next : Option Nat} {nodes : List (Nat × α)} (linked : Linked view heap prev nodes next)
    (agree : ∀ node ∈ nodes, heap' node.1 = heap node.1) :
    Linked view heap' prev nodes next := by
  induction nodes generalizing prev with
  | nil => trivial
  | cons node rest ih =>
    obtain ⟨value, back, forward, tail⟩ := linked
    have same := agree node (by simp)
    have rest_agree : ∀ other ∈ rest, heap' other.1 = heap other.1 :=
      fun other member => agree other (List.mem_cons_of_mem _ member)
    exact ⟨by rw [same, value], by rw [same, back], by rw [same, forward], ih tail rest_agree⟩

theorem Linked.rebase {η α : Type} {view : View η α} {heap heap' : Nat → η}
    {prev prev' next : Option Nat} {nodes : List (Nat × α)}
    (linked : Linked view heap prev nodes next)
    (first : ∀ node ∈ nodes.head?, view.value (heap' node.1) = view.value (heap node.1) ∧
      view.next (heap' node.1) = view.next (heap node.1) ∧ view.prev (heap' node.1) = prev')
    (agree : ∀ node ∈ nodes.tail, heap' node.1 = heap node.1) :
    Linked view heap' prev' nodes next := by
  cases nodes with
  | nil => trivial
  | cons node rest =>
    obtain ⟨value, -, forward, tail⟩ := linked
    obtain ⟨sameValue, sameNext, back⟩ := first node (by simp)
    exact ⟨sameValue.trans value, back, sameNext.trans forward, tail.congr agree⟩

-- Pointer chasing: what a loop over the forward links can visit.
inductive Reaches (next : Nat → Option Nat) : Option Nat → Nat → Prop
  | here (address : Nat) : Reaches next (some address) address
  | step (address target : Nat) : Reaches next (next address) target →
      Reaches next (some address) target

theorem Linked.reaches_iff {η α : Type} {view : View η α} {heap : Nat → η} {prev : Option Nat}
    {nodes : List (Nat × α)} (linked : Linked view heap prev nodes none) (address : Nat) :
    Reaches (fun a => view.next (heap a)) (firstAddress nodes none) address ↔
      address ∈ nodes.map Prod.fst := by
  induction nodes generalizing prev with
  | nil =>
    constructor
    · intro reach; cases reach
    · intro member; simp at member
  | cons node rest ih =>
    obtain ⟨-, -, forward, tail⟩ := linked
    have tail_iff := ih tail
    constructor
    · intro reach
      change Reaches _ (some node.1) address at reach
      cases reach with
      | here => simp
      | step _ _ later =>
        rw [forward] at later
        exact List.mem_cons_of_mem _ (tail_iff.mp later)
    · intro member
      rcases List.mem_cons.mp member with rfl | later
      · exact .here _
      · exact .step _ _ (by rw [forward]; exact tail_iff.mpr later)

inductive Path (next : Nat → Option Nat) : Nat → Nat → List Nat → Prop
  | single (address : Nat) : Path next address address [address]
  | cons (address following last : Nat) (rest : List Nat) : next address = some following →
      Path next following last rest → Path next address last (address :: rest)

end LinkedHeap
