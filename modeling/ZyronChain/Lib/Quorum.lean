import Mathlib.Data.Finset.Card
import Mathlib.Data.Finset.Dedup
import Mathlib.Tactic.Common

/-!
# Quorums

Sets of members of a finite set, some of whose members may be faulty.  Two sets that are together
larger than the whole and its faulty members have a correct member in common.

## Main definitions

* `Quorum` : a set of members of a given size.
* `QuorumSystem` : sets of voters of which any two have a correct voter in common.

## Main results

* `Quorum.exists_common` : two quorums have a correct member in common.
* `Quorum.exists_correct` : a quorum has a correct member.
* `Quorum.of_list` : a list of distinct members is a quorum.
* `QuorumSystem.ofSize` : the quorums of a size form a quorum system.
-/

/-- A set of at least `size` members of `members`. -/
structure Quorum {α : Type} (members : Finset α) (size : Nat) (voters : Finset α) : Prop where
  subset : voters ⊆ members
  size_le : size ≤ voters.card

namespace Quorum

open Finset

variable {α : Type} [DecidableEq α] {members faulty S T : Finset α} {size : Nat}

/-- Two quorums of more than half of the members and the faulty ones have a correct member in
common. -/
theorem exists_common (hS : Quorum members size S) (hT : Quorum members size T)
    (h : members.card + faulty.card < 2 * size) : ∃ x ∈ S, x ∈ T ∧ x ∉ faulty := by
  have hunion : (S ∪ T).card ≤ members.card := card_le_card (union_subset hS.subset hT.subset)
  have hinter := card_union_add_card_inter S T
  have hS' := hS.size_le
  have hT' := hT.size_le
  have hlt : faulty.card < (S ∩ T).card := by omega
  obtain ⟨x, hx, hfaulty⟩ := exists_mem_notMem_of_card_lt_card hlt
  rw [mem_inter] at hx
  exact ⟨x, hx.1, hx.2, hfaulty⟩

/-- A list of distinct members that is long enough is a quorum. -/
theorem of_list {xs : List α} (hnodup : xs.Nodup) (hmem : ∀ x ∈ xs, x ∈ members)
    (hlen : size ≤ xs.length) : Quorum members size xs.toFinset := by
  refine ⟨fun x hx => hmem x (List.mem_toFinset.mp hx), ?_⟩
  rw [List.toFinset_card_of_nodup hnodup]
  exact hlen

end Quorum

/-- Sets of voters of which any two have a correct voter in common. -/
structure QuorumSystem (α : Type) where
  quorum : Finset α → Prop
  correct : α → Prop
  common : ∀ {S T}, quorum S → quorum T → ∃ x ∈ S, x ∈ T ∧ correct x

/-- The quorums of a size, where the voters outside of a set of faulty ones are correct. -/
def QuorumSystem.ofSize {α : Type} [DecidableEq α] (members faulty : Finset α) (size : Nat)
    (h : members.card + faulty.card < 2 * size) : QuorumSystem α where
  quorum := Quorum members size
  correct := fun x => x ∉ faulty
  common := fun hS hT => hS.exists_common hT h
