import Mathlib.Algebra.BigOperators.Group.Finset.Basic
import Mathlib.Algebra.Order.BigOperators.Group.Finset
import Mathlib.Tactic.Abel

/-!
# Sums over a table

The sum of a quantity over the entries of a table, when one entry is replaced.
-/

namespace ChipletSniper.Library

variable {Index Entry Total : Type*} [DecidableEq Index] [AddCommMonoid Total]

/-- What the sum loses with the old entry it gains with the new one. -/
theorem sum_exchange (quantity : Entry → Total) (table : Index → Entry)
    {indices : Finset Index} {index : Index} (member : index ∈ indices)
    (entry : Entry) :
    ∑ i ∈ indices, quantity (Function.update table index entry i) +
        quantity (table index) =
      ∑ i ∈ indices, quantity (table i) + quantity entry := by
  have others : ∑ i ∈ indices.erase index,
        quantity (Function.update table index entry i) =
      ∑ i ∈ indices.erase index, quantity (table i) := by
    refine Finset.sum_congr rfl ?_
    intro i remaining
    rw [Function.update_of_ne (Finset.ne_of_mem_erase remaining)]
  rw [← Finset.add_sum_erase indices _ member, others,
    ← Finset.add_sum_erase indices (fun i => quantity (table i)) member,
    Function.update_self]
  abel

/-- Two sums that differ in one summand. -/
theorem sum_le_of_others [Fintype Index] {first second : Index → Nat}
    (index : Index) {gained lost : Nat}
    (others : ∀ other, other ≠ index → second other = first other)
    (own : second index + lost ≤ first index + gained) :
    ∑ i, second i + lost ≤ ∑ i, first i + gained := by
  have same : ∑ i ∈ Finset.univ.erase index, second i =
      ∑ i ∈ Finset.univ.erase index, first i :=
    Finset.sum_congr rfl fun i remaining =>
      others i (Finset.ne_of_mem_erase remaining)
  rw [← Finset.add_sum_erase Finset.univ second (Finset.mem_univ index),
    ← Finset.add_sum_erase Finset.univ first (Finset.mem_univ index), same]
  omega

/-- Two totals that agree up to `absorbed` and `rest` agree up to `released`
and `rest` after a part of each was replaced, if the parts account for the
difference. -/
theorem balance_of_exchange [IsCancelAdd Total]
    {held heldNext issued issuedNext part partNext share shareNext absorbed
      released rest : Total}
    (heldExchange : heldNext + part = held + partNext)
    (issuedExchange : issuedNext + share = issued + shareNext)
    (parts : partNext + released + share = part + shareNext + absorbed)
    (balance : held + (absorbed + rest) = issued) :
    heldNext + (released + rest) = issuedNext := by
  refine add_right_cancel (b := part + share + absorbed) ?_
  calc heldNext + (released + rest) + (part + share + absorbed)
      = (heldNext + part) + released + rest + share + absorbed := by abel
    _ = (held + (absorbed + rest)) + (partNext + released + share) := by
        rw [heldExchange]
        abel
    _ = (issued + shareNext) + (part + absorbed) := by
        rw [balance, parts]
        abel
    _ = issuedNext + (part + share + absorbed) := by
        rw [← issuedExchange]
        abel

/-- A sum of bags without repetition has none if a key tells to which summand
an item belongs. -/
theorem nodup_sum_of_key {Item : Type*} [DecidableEq Item]
    {indices : Finset Index} {bags : Index → Multiset Item}
    (key : Item → Index) (keyed : ∀ i, ∀ item ∈ bags i, key item = i)
    (nodup : ∀ i, (bags i).Nodup) : (∑ i ∈ indices, bags i).Nodup := by
  rw [Multiset.nodup_iff_count_le_one]
  intro item
  rw [Multiset.count_sum']
  have others : ∀ i ∈ indices, i ≠ key item → (bags i).count item = 0 := by
    intro i _ different
    rw [Multiset.count_eq_zero]
    intro member
    exact different (keyed i item member).symm
  by_cases present : key item ∈ indices
  · rw [Finset.sum_eq_single_of_mem _ present others]
    exact Multiset.nodup_iff_count_le_one.mp (nodup _) item
  · rw [Finset.sum_eq_zero]
    · exact Nat.zero_le 1
    · intro i member
      refine others i member ?_
      rintro rfl
      exact present member

end ChipletSniper.Library
