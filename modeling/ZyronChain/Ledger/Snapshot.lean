import ZyronChain.Ledger.Invariant

/-!
# Snapshots of a ledger
-/

namespace ZyronChain

open Checks List

namespace LedgerState

theorem isAddress_ne_empty {a : Address} (h : IsAddress a) : canonicalLt "" a := by
  have hne : a ≠ "" := by
    rintro rfl
    exact absurd h (by decide)
  rcases trichotomous_of canonicalLt "" a with hlt | heq | hgt
  · exact hlt
  · exact absurd heq.symm hne
  · exact absurd hgt (not_lt_nil _)

private theorem readAccounts_eq_ok {es : List (Address × AccountState)} {supply : Int}
    {previous : String} {accounts : SortedMap canonicalLt AccountState}
    (hsorted : es.Pairwise fun a b => canonicalLt a.1 b.1)
    (hprevious : ∀ e ∈ es, canonicalLt previous e.1)
    (hes : ∀ e ∈ es, IsAddress e.1 ∧ 0 ≤ e.2.balanceAtoms ∧ IsSafeInteger e.2.nonce ∧ 0 ≤ e.2.nonce)
    (hsupply : 0 ≤ supply)
    (hmax : supply + (es.map fun e => e.2.balanceAtoms).sum ≤ maxSupplyAtoms) :
    readAccounts es supply previous accounts =
      .ok (es.foldl (fun m e => m.set e.1 e.2) accounts) := by
  induction es generalizing supply previous accounts with
  | nil => rfl
  | cons e es ih =>
    rw [pairwise_cons] at hsorted
    rw [forall_mem_cons] at hprevious hes
    rw [map_cons, sum_cons] at hmax
    obtain ⟨⟨haddress, hbalance, hnonce⟩, hrest⟩ := hes
    have hsum : 0 ≤ (es.map fun e => e.2.balanceAtoms).sum := by
      refine sum_nonneg fun x hx => ?_
      obtain ⟨f, hf, rfl⟩ := mem_map.mp hx
      exact (hrest f hf).2.1
    have hsafe := isSafeInteger_of_le hbalance (by omega)
    have hsafe' := isSafeInteger_of_le (x := supply + e.2.balanceAtoms) (by omega) (by omega)
    rw [readAccounts, assertAddress_eq_ok.mpr haddress, ok_bind,
      throwIf_of_not (not_not.mpr hprevious.1), ok_bind, throwIf_of_not ?_, ok_bind,
      throwIf_of_not ?_, ok_bind, foldl_cons]
    · exact ih hsorted.2 hsorted.1 hrest (by omega) (by omega)
    · rw [not_or, not_not]
      exact ⟨hsafe', by omega⟩
    · simp only [not_or, not_not, not_lt]
      exact ⟨hsafe, hbalance, hnonce⟩

private theorem readEpochs_eq_ok {es : List Int} {previous : Int}
    {epochs : SortedSet (fun a b : Int => a < b)} (hsorted : es.Pairwise fun a b => a < b)
    (hprevious : ∀ e ∈ es, previous < e) (hes : ∀ e ∈ es, IsSafeInteger e ∧ 0 ≤ e) :
    readEpochs es previous epochs = .ok (es.foldl (fun m e => m.set e ()) epochs) := by
  induction es generalizing previous epochs with
  | nil => rfl
  | cons e es ih =>
    rw [pairwise_cons] at hsorted
    rw [forall_mem_cons] at hprevious hes
    rw [readEpochs, throwIf_of_not ?_, ok_bind, foldl_cons]
    · exact ih hsorted.2 hsorted.1 hes.2
    · simp only [not_or, not_not, not_lt, not_le]
      exact ⟨hes.1.1, hes.1.2, hprevious.1⟩

/-- A valid ledger is read back from its snapshot. -/
theorem fromSnapshot_snapshot {L : LedgerState} (h : L.Valid) :
    fromSnapshot L.snapshot = .ok L := by
  have hentries : ∀ e ∈ L.accounts.entries, IsAddress e.1 ∧ 0 ≤ e.2.balanceAtoms ∧
      IsSafeInteger e.2.nonce ∧ 0 ≤ e.2.nonce := by
    intro e he
    rw [← account_of_mem he]
    exact ⟨h.address e.1 (mem_map_of_mem he), h.balance e.1, h.nonce e.1⟩
  have haccounts : readAccounts L.accounts.entries 0 "" .empty = .ok L.accounts := by
    rw [readAccounts_eq_ok L.accounts.sorted (fun e he => isAddress_ne_empty (hentries e he).1)
      hentries (le_refl 0) (by rw [Int.zero_add]; exact h.supply)]
    exact congrArg Except.ok (SortedMap.ofEntries_entries L.accounts)
  have hepochs : readEpochs L.settledActivityEpochs.keys (-1) .empty =
      .ok L.settledActivityEpochs := by
    rw [readEpochs_eq_ok L.settledActivityEpochs.keys_sorted
      (fun e he => by have := (h.epochs e he).2; omega) h.epochs]
    refine congrArg Except.ok ?_
    rw [SortedMap.keys, foldl_map]
    exact SortedMap.ofEntries_entries L.settledActivityEpochs
  rw [fromSnapshot, snapshot, haccounts, ok_bind, hepochs, ok_bind]

private theorem sumSupply_eq_ok {es : List (Address × AccountState)} {supply : Int}
    (hes : ∀ e ∈ es, 0 ≤ e.2.balanceAtoms) (hsupply : 0 ≤ supply)
    (hmax : supply + (es.map fun e => e.2.balanceAtoms).sum ≤ maxSupplyAtoms) :
    sumSupply es supply = .ok (supply + (es.map fun e => e.2.balanceAtoms).sum) := by
  induction es generalizing supply with
  | nil => exact congrArg Except.ok (Int.add_zero supply).symm
  | cons e es ih =>
    rw [forall_mem_cons] at hes
    rw [map_cons, sum_cons] at hmax ⊢
    have hsum : 0 ≤ (es.map fun e => e.2.balanceAtoms).sum := by
      refine sum_nonneg fun x hx => ?_
      obtain ⟨f, hf, rfl⟩ := mem_map.mp hx
      exact hes.2 f hf
    rw [sumSupply, throwIf_of_not ?_, ok_bind, ih hes.2 (by omega) (by omega), Int.add_assoc]
    rw [not_or, not_not]
    exact ⟨isSafeInteger_of_le (by omega) (by omega), by omega⟩

theorem totalSupplyAtoms_eq {L : LedgerState} (h : L.Valid) : L.totalSupplyAtoms = .ok L.total := by
  have hentries : ∀ e ∈ L.accounts.entries, 0 ≤ e.2.balanceAtoms := by
    intro e he
    rw [← account_of_mem he]
    exact h.balance e.1
  rw [totalSupplyAtoms, sumSupply_eq_ok hentries (le_refl 0) (by rw [Int.zero_add]; exact h.supply),
    Int.zero_add]
  rfl

end LedgerState

end ZyronChain
