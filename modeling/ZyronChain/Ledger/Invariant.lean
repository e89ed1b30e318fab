import ZyronChain.Ledger.Effect

/-!
# Ledgers that a chain can reach
-/

namespace ZyronChain

open Checks List SortedMap

namespace LedgerState

structure Valid (L : LedgerState) : Prop where
  address : ∀ a ∈ L.accounts.keys, IsAddress a
  balance : ∀ a, 0 ≤ L.balance a
  nonce : ∀ a, IsSafeInteger (L.nonce a) ∧ 0 ≤ L.nonce a
  epochs : ∀ e ∈ L.settledActivityEpochs.keys, IsSafeInteger e ∧ 0 ≤ e
  supply : L.total ≤ maxSupplyAtoms

/-! ### Balances and their sum -/

variable {L L' : LedgerState} {entries : List ActivityEntry} {allocations : List Allocation}
  {fee : Option FixedFeeApplication} {tx : Transaction} {locks : Option AllocationLockContext}
  {pool : Address}

theorem account_of_mem {e : Address × AccountState} (he : e ∈ L.accounts.entries) :
    L.account e.1 = e.2 := by
  rw [LedgerState.account, get_eq_some_iff.mpr he]
  rfl

theorem balance_le_total (h : ∀ a, 0 ≤ L.balance a) (a : Address) : L.balance a ≤ L.total := by
  have hentries : ∀ e ∈ L.accounts.entries, 0 ≤ e.2.balanceAtoms := fun e he => by
    rw [← account_of_mem he]
    exact h e.1
  rw [balance, LedgerState.account]
  cases hget : L.accounts.get a with
  | none => exact sum_nonneg hentries
  | some account => exact le_sum hentries (get_eq_some_iff.mp hget)

theorem Valid.balance_le (h : L.Valid) (a : Address) : L.balance a ≤ maxSupplyAtoms :=
  le_trans (balance_le_total h.balance a) h.supply

/-- A credit succeeds as long as the sum stays within the maximum supply. -/
theorem exists_credit (h : ∀ a, 0 ≤ L.balance a) {x : Int} (hx : 0 ≤ x)
    (hle : L.total + x ≤ maxSupplyAtoms) (a : Address) : ∃ L', L.credit a x = .ok L' := by
  have hbalance := balance_le_total h a
  have hnonneg := h a
  exact ⟨_, credit_eq_ok.mpr ⟨isSafeInteger_of_le (by omega) (by omega), by omega, rfl⟩⟩

theorem amountAt_nonneg {a b : Address} {x : Int} (h : 0 ≤ x) : 0 ≤ amountAt a x b := by
  rw [amountAt]
  split
  · exact h
  · exact le_refl 0

theorem paidTo_nonneg (h : ∀ e ∈ entries, 0 ≤ e.amountAtoms) (a : Address) :
    0 ≤ paidTo entries a := by
  refine sum_nonneg fun x hx => ?_
  obtain ⟨entry, hentry, rfl⟩ := mem_map.mp hx
  exact h entry (mem_filter.mp hentry).1

theorem payout_nonneg (h : ∀ e ∈ entries, 0 ≤ e.amountAtoms) : 0 ≤ payout entries := by
  refine sum_nonneg fun x hx => ?_
  obtain ⟨entry, hentry, rfl⟩ := mem_map.mp hx
  exact h entry hentry

theorem paidTo_eq_zero {a : Address} (h : ∀ e ∈ entries, e.receiver ≠ a) :
    paidTo entries a = 0 := by
  rw [paidTo, filter_eq_nil_iff.mpr fun e he => by simpa using h e he]
  rfl

/-! ### Genesis -/

/-- What a genesis gives to an address. -/
def allocatedTo (allocations : List Allocation) (a : Address) : Int :=
  ((allocations.filter fun allocation => allocation.address = a).map Allocation.amountAtoms).sum

/-- What a genesis gives to all addresses. -/
def allocatedAtoms (allocations : List Allocation) : Int :=
  (allocations.map Allocation.amountAtoms).sum

theorem moves_creditAllocations {supply : Int} (h : creditAllocations allocations supply L = .ok L') :
    Moves L L' (allocations.map Allocation.address) (allocatedTo allocations)
      (allocatedAtoms allocations) := by
  induction allocations generalizing supply L with
  | nil =>
    cases h
    exact Moves.refl _
  | cons a allocations ih =>
    rw [creditAllocations, throwIf_bind_eq_ok, throwIf_bind_eq_ok] at h
    obtain ⟨L₁, hcredit, h⟩ := bind_eq_ok.mp h.2.2
    have hall := (moves_credit hcredit).trans (ih h)
    have hdelta : (fun b => amountAt a.address a.amountAtoms b + allocatedTo allocations b) =
        allocatedTo (a :: allocations) := by
      funext b
      rw [amountAt, allocatedTo, allocatedTo, filter_cons]
      by_cases hb : a.address = b
      · rw [if_pos hb, if_pos (decide_eq_true hb), map_cons, sum_cons]
      · rw [if_neg hb, if_neg (by simpa using hb), Int.zero_add]
    rw [hdelta] at hall
    rw [allocatedAtoms, map_cons, map_cons, sum_cons]
    exact hall

theorem exists_creditAllocations {supply : Int} (hL : ∀ a, 0 ≤ L.balance a)
    (htotal : L.total = supply) (hamounts : ∀ a ∈ allocations, 0 ≤ a.amountAtoms)
    (hmax : supply + allocatedAtoms allocations ≤ maxSupplyAtoms) :
    ∃ L', creditAllocations allocations supply L = .ok L' := by
  induction allocations generalizing supply L with
  | nil => exact ⟨L, rfl⟩
  | cons a allocations ih =>
    rw [forall_mem_cons] at hamounts
    rw [allocatedAtoms, map_cons, sum_cons, ← allocatedAtoms] at hmax
    have hsum : 0 ≤ allocatedAtoms allocations := by
      refine sum_nonneg fun x hx => ?_
      obtain ⟨b, hb, rfl⟩ := mem_map.mp hx
      exact hamounts.2 b hb
    have hzero : 0 ≤ supply := by
      rw [← htotal]
      exact le_trans (hL a.address) (balance_le_total hL a.address)
    obtain ⟨L₁, hcredit⟩ := exists_credit hL hamounts.1 (by omega) a.address
    have hmoves := moves_credit hcredit
    have hbalance : ∀ b, 0 ≤ L₁.balance b := fun b => by
      rw [hmoves.balance]
      exact Int.add_nonneg (hL b) (amountAt_nonneg hamounts.1)
    have hsupply : L₁.total = supply + a.amountAtoms := by rw [hmoves.total, htotal]
    obtain ⟨L', hL'⟩ := ih hbalance hsupply hamounts.2 (by omega)
    refine ⟨L', ?_⟩
    rw [creditAllocations, throwIf_bind_eq_ok, throwIf_bind_eq_ok, hcredit]
    refine ⟨?_, ?_, hL'⟩
    · rw [not_or, not_not, not_lt]
      exact ⟨isSafeInteger_of_le hamounts.1 (by omega), hamounts.1⟩
    · rw [not_or, not_not, gt_iff_lt, not_lt]
      exact ⟨isSafeInteger_of_le (by omega) (by omega), by omega⟩

/-- What the ledger of a genesis holds. -/
structure FromGenesis (g : GenesisConfig) (L : LedgerState) : Prop where
  balance : ∀ a, L.balance a = allocatedTo g.allocations a
  nonce : ∀ a, L.nonce a = 0
  epochs : L.settledActivityEpochs = .empty
  total : L.total = allocatedAtoms g.allocations
  keys : ∀ a, a ∈ L.accounts.keys ↔ a ∈ g.allocations.map Allocation.address

theorem fromGenesis_eq_ok {g : GenesisConfig} (h : fromGenesis g = .ok L) : FromGenesis g L := by
  have hmoves := moves_creditAllocations h
  exact
    { balance := fun a => by rw [hmoves.balance]; exact Int.zero_add _
      nonce := fun a => by rw [hmoves.nonce]; rfl
      epochs := hmoves.epochs
      total := by rw [hmoves.total]; exact Int.zero_add _
      keys := fun a => by
        rw [hmoves.keys]
        exact or_iff_left not_mem_nil }

theorem allocatedTo_nonneg (h : ∀ a ∈ allocations, 0 ≤ a.amountAtoms) (a : Address) :
    0 ≤ allocatedTo allocations a := by
  refine sum_nonneg fun x hx => ?_
  obtain ⟨b, hb, rfl⟩ := mem_map.mp hx
  exact h b (mem_filter.mp hb).1

variable [Crypto]

/-- A valid genesis has a ledger, and that ledger is valid. -/
theorem exists_fromGenesis {g : GenesisConfig} (hg : g.Valid) :
    ∃ L, fromGenesis g = .ok L ∧ L.Valid := by
  obtain ⟨-, hmax, hall⟩ := validateAllocations_eq_ok (by decide) hg.allocations
  have hamounts : ∀ a ∈ g.allocations, 0 ≤ a.amountAtoms := fun a ha => (hall a ha).2.2.2.2
  have hempty : LedgerState.empty.total = 0 := rfl
  obtain ⟨L, hL⟩ := exists_creditAllocations (fun _ => le_refl 0) hempty hamounts hmax
  have hgenesis := fromGenesis_eq_ok hL
  refine ⟨L, hL, ⟨fun a ha => ?_, fun a => ?_, fun a => ?_, fun e he => ?_, ?_⟩⟩
  · obtain ⟨b, hb, rfl⟩ := mem_map.mp ((hgenesis.keys a).mp ha)
    exact (hall b hb).2.1
  · rw [hgenesis.balance]
    exact allocatedTo_nonneg hamounts a
  · rw [hgenesis.nonce]
    decide
  · rw [hgenesis.epochs] at he
    cases he
  · rw [hgenesis.total]
    rw [Int.zero_add] at hmax
    exact hmax

/-! ### Transactions -/

omit [Crypto] in
theorem producerAtoms_le {feeAtoms : Int} (h : 0 ≤ feeAtoms) :
    producerAtoms feeAtoms fee ≤ feeAtoms := by
  cases fee with
  | none => exact h
  | some fee =>
    rw [producerAtoms, producerShare]
    omega

theorem burnedAtoms_nonneg (htx : tx.WellFormed) (fee : Option FixedFeeApplication) :
    0 ≤ burnedAtoms tx fee := by
  have hbody := htx.body
  rw [Transaction.BodyWellFormed] at hbody
  rw [burnedAtoms]
  split
  · next heq =>
    rw [heq] at hbody
    have hle : producerAtoms tx.feeAtoms fee ≤ tx.feeAtoms := producerAtoms_le hbody.2.2.1.1
    omega
  · exact le_refl 0

private theorem valid_transferred (h : L.Valid) (htx : tx.WellFormed) {receiver : Address}
    {amountAtoms : Int} (hbody : tx.body = .transfer receiver amountAtoms)
    (hproducer : ∀ f, fee = some f → IsAddress f.producer)
    (heffect : Transferred L L' tx receiver amountAtoms locks pool fee)
    (hsupply : L'.total ≤ L.total) : L'.Valid := by
  have hfields := htx.body
  rw [Transaction.BodyWellFormed, hbody] at hfields
  obtain ⟨hreceiver, hamount, -, -⟩ := hfields
  refine ⟨fun a ha => ?_, fun a => ?_, fun a => ?_, ?_, le_trans hsupply h.supply⟩
  · rcases (heffect.keys a).mp ha with hmem | hmem
    · rcases mem_cons.mp hmem with rfl | hmem
      · exact htx.sender
      rcases mem_cons.mp hmem with rfl | hmem
      · exact hreceiver
      rw [feeAccounts] at hmem
      split at hmem
      · rw [mem_singleton.mp hmem]
        cases fee with
        | none => exact absurd ‹0 < producerAtoms tx.feeAtoms none› (lt_irrefl 0)
        | some f => exact hproducer f rfl
      · cases hmem
    · exact h.address a hmem
  · have hshare : 0 ≤ amountAt (producerOf fee) (producerAtoms tx.feeAtoms fee) a :=
      amountAt_nonneg heffect.share
    have hreceived : 0 ≤ amountAt receiver amountAtoms a := amountAt_nonneg (le_of_lt hamount.1)
    have hbalance := h.balance a
    rw [heffect.balance, transferDelta, amountAt]
    split
    · next heq =>
      have hcovered := heffect.covered
      rw [heq] at hcovered
      omega
    · omega
  · rw [heffect.nonce]
    split
    · exact ⟨htx.nonce.1, by have := htx.nonce.2; omega⟩
    · exact h.nonce a
  · rw [heffect.epochs]
    exact h.epochs

omit [Crypto] in
/-- What the rolling window records is within the safe range. -/
theorem windowRecord_bounds {rollingWindow : Bool} {total capAtoms : Int}
    (h : L.assertRollingWindow entries locks rollingWindow total capAtoms = .ok ())
    {time amount : Int} (hrecord : windowRecord locks rollingWindow total = some (time, amount)) :
    (IsSafeInteger time ∧ 0 ≤ time) ∧ (IsSafeInteger amount ∧ 0 ≤ amount) := by
  unfold windowRecord at hrecord
  split at hrecord
  · next locks =>
    rw [assertRollingWindow, if_pos rfl, throwIf_bind_eq_ok, Option.map_some] at h
    unfold assertActivityRollingWindow at h
    simp only [throwIf_bind_eq_ok, throwIf_eq_ok, not_or, not_not, not_lt] at h
    obtain ⟨-, -, htime, -, hamount, -⟩ := h
    cases hrecord
    exact ⟨htime, hamount⟩
  · cases hrecord

private theorem valid_settled (h : L.Valid) (htx : tx.WellFormed) {s : ActivitySettlement}
    (hs : settlementOf tx = some s) (hpool : IsAddress pool) {rollingWindow : Bool} {capAtoms : Int}
    (heffect : Settled L L' tx s pool locks rollingWindow capAtoms) : L'.Valid := by
  have hfields : (IsSafeInteger s.epoch ∧ 0 ≤ s.epoch) ∧ tx.feeAtoms = 0 ∧
      ∀ entry ∈ s.entries, IsAddress entry.receiver ∧ 0 < entry.amountAtoms := by
    have hbody := htx.body
    rw [Transaction.BodyWellFormed] at hbody
    rw [settlementOf] at hs
    split at hs
    · next heq =>
      rw [heq] at hbody
      cases hs
      exact hbody
    · cases hs
  refine ⟨fun a ha => ?_, fun a => ?_, fun a => ?_, fun e he => ?_, ?_⟩
  · rcases (heffect.keys a).mp ha with hmem | hmem
    · rcases mem_append.mp hmem with hmem | hmem
      · rcases mem_cons.mp hmem with rfl | hmem
        · exact hpool
        · obtain ⟨entry, hentry, rfl⟩ := mem_map.mp hmem
          exact (hfields.2.2 entry hentry).1
      · rw [windowAccounts] at hmem
        split at hmem
        · simp only [mem_cons, not_mem_nil, or_false] at hmem
          rcases hmem with rfl | rfl <;> decide
        · cases hmem
    · exact h.address a hmem
  · have hpaid := paidTo_nonneg (fun entry he => (heffect.receivers entry he).2) a
    have hbalance := h.balance a
    rw [heffect.balance, settlementDelta, amountAt]
    split
    · next heq =>
      have hcovered := heffect.covered
      rw [heq] at hcovered
      omega
    · omega
  · have hbase : ∀ b, IsSafeInteger (if pool = b then tx.nonce else L.nonce b) ∧
        0 ≤ if pool = b then tx.nonce else L.nonce b := fun b => by
      split
      · exact ⟨htx.nonce.1, by have := htx.nonce.2; omega⟩
      · exact h.nonce b
    rw [heffect.nonce]
    unfold recordedNonce
    split
    · exact hbase a
    · next time amount hrecord =>
      have hbounds := windowRecord_bounds heffect.window hrecord
      split
      · exact hbounds.2
      · split
        · exact hbounds.1
        · exact hbase a
  · rw [heffect.epochs, mem_keys_set] at he
    rcases he with rfl | he
    · exact hfields.1
    · exact h.epochs e he
  · rw [heffect.total]
    exact h.supply

/-- Transactions keep a ledger valid. -/
theorem Valid.apply (h : L.Valid) (htx : tx.WellFormed) (hpool : IsAddress pool)
    {oracles : ActivityOracleSet} (hproducer : ∀ f, fee = some f → IsAddress f.producer)
    (happly : L.apply tx pool locks oracles fee = .ok L') : L'.Valid := by
  have htotal := total_apply happly
  have hburned := burnedAtoms_nonneg htx fee
  rcases apply_eq_ok happly with ⟨receiver, amountAtoms, hbody, -, heffect⟩ | ⟨s, hs, heffect⟩ |
    ⟨-, heffect⟩
  · exact valid_transferred h htx hbody hproducer heffect (by omega)
  · exact valid_settled h htx hs hpool heffect
  · refine ⟨fun a ha => ?_, fun a => ?_, fun a => ?_, ?_, ?_⟩
    · rcases (heffect.keys a).mp ha with rfl | hmem
      · exact htx.sender
      · exact h.address a hmem
    · rw [heffect.balance]
      exact h.balance a
    · rw [heffect.nonce]
      split
      · exact ⟨htx.nonce.1, by have := htx.nonce.2; omega⟩
      · exact h.nonce a
    · rw [heffect.epochs]
      exact h.epochs
    · rw [heffect.total]
      exact h.supply

end LedgerState

end ZyronChain
