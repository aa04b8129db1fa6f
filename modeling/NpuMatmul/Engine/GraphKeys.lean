import NpuMatmul.Engine.Graphs
import NpuMatmul.Shared.Keys

set_option autoImplicit false

namespace NpuMatmul

def keyNumbers (M K N : Nat) (useStaticWeights : Bool) (staticWeightsPtr : Option Nat) :
    List Nat :=
  match useStaticWeights, staticWeightsPtr with
  | true, some address => [M, K, N, address]
  | _, _ => [M, K, N]

theorem graphKey_joined (M K N : Nat) :
    (graphKey M K N).toList = Keys.joined '_' [M, K, N] := by
  simp [graphKey, Keys.joined, Keys.digits, toString]

theorem weightsKey_joined (M K N : Nat) (useStaticWeights : Bool) (staticWeightsPtr : Option Nat) :
    (weightsKey M K N useStaticWeights staticWeightsPtr).toList =
      Keys.joined '_' (keyNumbers M K N useStaticWeights staticWeightsPtr) := by
  unfold weightsKey keyNumbers
  split <;> simp [graphKey, Keys.joined, Keys.digits, toString]

theorem weightsKey_shape {M K N m k n : Nat} {useStaticWeights : Bool}
    {staticWeightsPtr : Option Nat}
    (same : weightsKey m k n useStaticWeights staticWeightsPtr = graphKey M K N) :
    m = M ∧ k = K ∧ n = N := by
  have lists := congrArg String.toList same
  rw [weightsKey_joined, graphKey_joined] at lists
  have numbers := Keys.joined_injective (by decide) (by unfold keyNumbers; split <;> simp)
    (by simp) lists
  unfold keyNumbers at numbers
  split at numbers <;> simp_all

theorem graphKey_shape {M K N m k n : Nat} (same : graphKey m k n = graphKey M K N) :
    m = M ∧ k = K ∧ n = N :=
  @weightsKey_shape M K N m k n false none same

-- The address of the weights, where the key names it.
def namedAddress (useStaticWeights : Bool) (staticWeightsPtr : Option Nat) : Option Nat :=
  if useStaticWeights then staticWeightsPtr else none

theorem keyNumbers_address (M K N : Nat) (useStaticWeights : Bool)
    (staticWeightsPtr : Option Nat) :
    keyNumbers M K N useStaticWeights staticWeightsPtr =
      M :: K :: N :: (namedAddress useStaticWeights staticWeightsPtr).toList := by
  cases useStaticWeights <;> cases staticWeightsPtr <;> rfl

theorem weightsKey_eq_iff {M K N m k n : Nat} {useStaticWeights otherStatic : Bool}
    {staticWeightsPtr otherPtr : Option Nat} :
    weightsKey m k n otherStatic otherPtr = weightsKey M K N useStaticWeights staticWeightsPtr ↔
      m = M ∧ k = K ∧ n = N ∧
        namedAddress otherStatic otherPtr = namedAddress useStaticWeights staticWeightsPtr := by
  rw [← String.toList_inj, weightsKey_joined, weightsKey_joined, keyNumbers_address,
    keyNumbers_address]
  constructor
  · intro same
    have numbers := Keys.joined_injective (by decide) (List.cons_ne_nil _ _)
      (List.cons_ne_nil _ _) same
    simp only [List.cons.injEq] at numbers
    obtain ⟨rows, inner, columns, address⟩ := numbers
    exact ⟨rows, inner, columns, by simpa using congrArg List.head? address⟩
  · rintro ⟨rfl, rfl, rfl, address⟩
    rw [address]

theorem weightsKey_eq_graphKey {M K N : Nat} {useStaticWeights : Bool}
    {staticWeightsPtr : Option Nat} :
    weightsKey M K N useStaticWeights staticWeightsPtr = graphKey M K N ↔
      namedAddress useStaticWeights staticWeightsPtr = none := by
  have plain : weightsKey M K N false none = graphKey M K N := rfl
  rw [← plain, weightsKey_eq_iff]
  simp [namedAddress]

end NpuMatmul
