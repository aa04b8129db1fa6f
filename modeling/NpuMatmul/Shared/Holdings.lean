import Mathlib.Algebra.BigOperators.Group.Finset.Piecewise
import Mathlib.Algebra.Order.Group.Multiset

set_option autoImplicit false

namespace Holdings

variable {ι R : Type} [DecidableEq ι]

def total (live : Finset ι) (contents : ι → Multiset R) : Multiset R := ∑ i ∈ live, contents i

variable {live : Finset ι} (contents : ι → Multiset R) {i j : ι} {resource : R}

omit [DecidableEq ι] in
theorem mem_total {contents : ι → Multiset R} :
    resource ∈ total live contents ↔ ∃ i ∈ live, resource ∈ contents i :=
  Multiset.mem_sum

theorem total_update (member : i ∈ live) (held : Multiset R) :
    total live (Function.update contents i held) + contents i = held + total live contents := by
  unfold total
  rw [Finset.sum_update_of_mem member, ← Finset.add_sum_erase live contents member,
    Finset.sdiff_singleton_eq_erase]
  ac_rfl

theorem total_insert (fresh : i ∉ live) (held : Multiset R) :
    total (insert i live) (Function.update contents i held) = held + total live contents := by
  have others : ∀ j ∈ live, Function.update contents i held j = contents j := by
    intro j member
    have apart : j ≠ i := fun same => fresh (same ▸ member)
    rw [Function.update_of_ne apart]
  unfold total
  rw [Finset.sum_insert fresh, Function.update_self, Finset.sum_congr rfl others]

theorem total_erase (member : i ∈ live) :
    total live contents = contents i + total (live.erase i) contents :=
  (Finset.add_sum_erase live contents member).symm

theorem total_take (target : i ∈ live) (source : j ∈ live) (apart : j ≠ i) :
    total live (Function.update (Function.update contents j 0) i (contents j)) + contents i =
      total live contents := by
  have left := total_update contents source 0
  have taken := total_update (Function.update contents j 0) target (contents j)
  rw [Function.update_of_ne apart.symm] at taken
  rw [taken, add_comm, left, zero_add]

theorem one_holder {contents : ι → Multiset R} (once : (total live contents).Nodup)
    (first : i ∈ live) (second : j ∈ live) (holds : resource ∈ contents i)
    (also : resource ∈ contents j) : i = j := by
  by_contra apart
  have split := total_erase contents first
  have rest : resource ∈ total (live.erase i) contents :=
    mem_total.mpr ⟨j, Finset.mem_erase.mpr ⟨Ne.symm apart, second⟩, also⟩
  rw [split] at once
  exact Multiset.disjoint_left.mp (Multiset.nodup_add.mp once).2.2 holds rest

end Holdings
