import ZyronChain.Ledger.Invariant

/-!
# The balance overflow is unreachable

The credits of a transaction on a valid ledger never exceed what was debited before, so that the
check of `credit` never fails.  All other checks fail with other messages.
-/

namespace ZyronChain

open Checks

/-! ### The checks of the appliers -/

theorem append_ne_of_head {s t m : String} (h : s.toList.head? ≠ m.toList.head?)
    (hs : s.toList ≠ []) : s ++ t ≠ m := by
  intro heq
  apply h
  rw [← heq, String.toList_append]
  cases hlist : s.toList with
  | nil => exact absurd hlist hs
  | cons c cs => rfl

@[simp]
private theorem avoids_assertTimestamp (value : Int) (name : String) :
    Avoids balanceOverflow (assertTimestamp value name) :=
  avoids_throwIf.mpr fun _ => append_ne_of_head (by decide) (by decide)

@[simp]
private theorem avoids_linearCliffVestedAtoms (elapsed cliff linear total : Int) :
    Avoids balanceOverflow (linearCliffVestedAtoms elapsed cliff linear total) := by
  simp +decide [linearCliffVestedAtoms]

@[simp]
private theorem avoids_releaseLocked (context : AllocationLockContext) (address : Address) :
    Avoids balanceOverflow (releaseLockedAtoms context address) := by
  unfold releaseLockedAtoms
  split
  · exact avoids_ok _
  · simp +decide [publicLockedAtoms]

@[simp]
private theorem avoids_lockedAtoms (context : AllocationLockContext) (address : Address)
    (balanceAtoms : Int) : Avoids balanceOverflow (lockedAtoms (some context) address balanceAtoms) := by
  simp +decide [lockedAtoms, assertAtoms, founderLockedAtomsAtTimestamp,
    founderVestedAtomsAtTimestamp]

@[simp]
private theorem avoids_lockOutflow (locks : Option AllocationLockContext) (sender : Address)
    (balanceAtoms outflowAtoms : Int) :
    Avoids balanceOverflow (assertAllocationLockOutflow locks sender balanceAtoms outflowAtoms) := by
  unfold assertAllocationLockOutflow
  split
  · exact avoids_ok _
  · simp +decide [assertAtoms, assertLockedRemains]

private theorem avoids_sumWithinCap (capAtoms : Int) (entries : List ActivityEntry) (total : Int) :
    Avoids balanceOverflow (sumWithinCap capAtoms entries total) := by
  induction entries generalizing total with
  | nil => exact avoids_ok _
  | cons entry entries ih => simp +decide [sumWithinCap, ih]

private theorem avoids_withinCap (entries : List ActivityEntry) (capAtoms : Int) :
    Avoids balanceOverflow (assertActivitySettlementWithinCap entries capAtoms) := by
  simp +decide [assertActivitySettlementWithinCap, avoids_sumWithinCap]

@[simp]
private theorem avoids_rollingWindow (time amount : Int) (now : Option Int) (total capAtoms : Int) :
    Avoids balanceOverflow (assertActivityRollingWindow time amount now total capAtoms) := by
  cases now <;> simp +decide [assertActivityRollingWindow]

section

variable [Crypto] (tx : Transaction) (s : ActivitySettlement)

private theorem avoids_countApprovers (registered revoked : List String)
    (approvals : List ActivityOracleApproval) (approvers : List String) :
    Avoids balanceOverflow (countApprovers tx s registered revoked approvals approvers) := by
  induction approvals generalizing approvers with
  | nil => exact avoids_ok _
  | cons approval approvals ih => simp +decide [countApprovers, ih]

private theorem avoids_strictApprovers (registered revoked : List String)
    (approvals : List ActivityOracleApproval) (approvers signatures : List String) :
    Avoids balanceOverflow
      (strictApprovers tx s registered revoked approvals approvers signatures) := by
  induction approvals generalizing approvers signatures with
  | nil => exact avoids_ok _
  | cons approval approvals ih => simp +decide [strictApprovers, ih]

omit [Crypto] in
private theorem approvalsRequired_ne (threshold : Int) :
    approvalsRequired threshold ≠ balanceOverflow := by
  unfold approvalsRequired
  rw [String.append_assoc]
  exact append_ne_of_head (by decide) (by decide)

private theorem avoids_authorized (oracles : ActivityOracleSet)
    (context : ActivityOracleAuthContext) :
    Avoids balanceOverflow (assertActivitySettlementAuthorized tx s oracles context) := by
  have hexpiry : Avoids balanceOverflow (assertAttestationExpiry s context oracles) := by
    unfold assertAttestationExpiry
    split <;> simp +decide
  have hlenient : Avoids balanceOverflow (assertLenientlyAuthorized tx s oracles) := by
    unfold assertLenientlyAuthorized
    split <;> simp +decide [approvalsRequired_ne, avoids_countApprovers]
  simp +decide [assertActivitySettlementAuthorized, assertThresholdV1Authorized, hexpiry, hlenient,
    approvalsRequired_ne, avoids_strictApprovers]

end

@[simp]
private theorem avoids_noInflow (receiver pool : Address) :
    Avoids balanceOverflow (assertNoActivityPoolInflow receiver pool) := by
  simp +decide [assertNoActivityPoolInflow]

namespace LedgerState

/-! ### Credits -/

variable {L : LedgerState} {x : Int}

theorem balance_nonneg_of_debit {L' : LedgerState} (h : ∀ a, 0 ≤ L.balance a) {sender : Address}
    (hdebit : L.debit sender x = .ok L') (a : Address) : 0 ≤ L'.balance a := by
  have hcovered := (debit_eq_ok.mp hdebit).1
  have hbalance := h a
  rw [(moves_debit hdebit).balance, amountAt]
  split
  · next heq =>
    rw [heq] at hcovered
    omega
  · omega

theorem balance_nonneg_of_credit {L' : LedgerState} (h : ∀ a, 0 ≤ L.balance a) {receiver : Address}
    (hx : 0 ≤ x) (hcredit : L.credit receiver x = .ok L') (a : Address) : 0 ≤ L'.balance a := by
  rw [(moves_credit hcredit).balance]
  exact Int.add_nonneg (h a) (amountAt_nonneg hx)

private theorem avoids_credit (h : ∀ a, 0 ≤ L.balance a) (hx : 0 ≤ x)
    (hle : L.total + x ≤ maxSupplyAtoms) (a : Address) : Avoids balanceOverflow (L.credit a x) := by
  obtain ⟨L', hL'⟩ := exists_credit h hx hle a
  rw [hL']
  exact avoids_ok _

@[simp]
private theorem avoids_debit (L : LedgerState) (a : Address) (x : Int) :
    Avoids balanceOverflow (L.debit a x) := by
  simp +decide [debit]

private theorem avoids_creditFee (h : ∀ a, 0 ≤ L.balance a) {feeAtoms : Int}
    (hle : L.total + feeAtoms ≤ maxSupplyAtoms) (fee : Option FixedFeeApplication) (pool : Address) :
    Avoids balanceOverflow (L.creditFee feeAtoms fee pool) := by
  cases fee with
  | none => exact avoids_ok _
  | some fee =>
    have hshare := producerShare.eq_1 feeAtoms
    unfold creditFee creditProducerFee splitFixedFee
    simp +decide
    exact fun _ _ hfee _ _ _ _ => avoids_credit h (by omega) (by omega) _

private theorem avoids_creditEntries {entries : List ActivityEntry} (h : ∀ a, 0 ≤ L.balance a)
    (hamounts : ∀ e ∈ entries, 0 ≤ e.amountAtoms) (hle : L.total + payout entries ≤ maxSupplyAtoms) :
    Avoids balanceOverflow (creditEntries entries L) := by
  induction entries generalizing L with
  | nil => exact avoids_ok _
  | cons entry entries ih =>
    rw [List.forall_mem_cons] at hamounts
    rw [payout_cons] at hle
    have hpayout := payout_nonneg hamounts.2
    refine avoids_bind.mpr ⟨avoids_credit h hamounts.1 (by omega) _, fun L₁ hcredit => ?_⟩
    refine ih (balance_nonneg_of_credit h hamounts.1 hcredit) hamounts.2 ?_
    rw [(moves_credit hcredit).total]
    omega

/-! ### Transactions -/

private theorem avoids_transfer (h : L.Valid) {tx : Transaction} {receiver : Address}
    {amountAtoms : Int} (hamount : 0 ≤ amountAtoms) (hfee : 0 ≤ tx.feeAtoms)
    (locks : Option AllocationLockContext) (pool : Address) (fee : Option FixedFeeApplication) :
    Avoids balanceOverflow (L.applyTransfer tx receiver amountAtoms locks pool fee) := by
  have hcredits (L₁ : LedgerState) (hdebit : L.debit tx.sender (amountAtoms + tx.feeAtoms) = .ok L₁) :
      Avoids balanceOverflow (L₁.credit receiver amountAtoms) ∧ ∀ L₂,
        L₁.credit receiver amountAtoms = .ok L₂ →
          Avoids balanceOverflow (L₂.creditFee tx.feeAtoms fee pool) := by
    have hL₁ := balance_nonneg_of_debit h.balance hdebit
    have htotal₁ := (moves_debit hdebit).total
    have hsupply := h.supply
    refine ⟨avoids_credit hL₁ hamount (by omega) _, fun L₂ hcredit => ?_⟩
    have htotal₂ := (moves_credit hcredit).total
    exact avoids_creditFee (balance_nonneg_of_credit hL₁ hamount hcredit) (by omega) _ _
  simp +decide +contextual [applyTransfer, requireNonce, hcredits]

private theorem avoids_activity (h : L.Valid) (tx : Transaction) {s : ActivitySettlement}
    (hamounts : ∀ e ∈ s.entries, 0 ≤ e.amountAtoms) (pool : Address)
    (locks : Option AllocationLockContext) (rollingWindow : Bool) (capAtoms : Int) :
    Avoids balanceOverflow (L.applyActivity tx s pool locks rollingWindow capAtoms) := by
  have hcredits (total : Int) (L₁ : LedgerState)
      (htotal : assertActivitySettlementWithinCap s.entries capAtoms = .ok total)
      (hdebit : L.debit pool total = .ok L₁) : Avoids balanceOverflow (creditEntries s.entries L₁) := by
    obtain ⟨rfl, -, -⟩ := assertActivitySettlementWithinCap_eq_ok htotal
    have hsupply := h.supply
    have htotal₁ := (moves_debit hdebit).total
    exact avoids_creditEntries (balance_nonneg_of_debit h.balance hdebit) hamounts (by omega)
  simp +decide +contextual [applyActivity, requireNonce, assertRollingWindow, avoids_forEach,
    avoids_withinCap, hcredits]

/-- No transaction fails on a valid ledger because a balance overflows. -/
theorem apply_avoids_overflow [Crypto] (h : L.Valid) {tx : Transaction} (htx : tx.WellFormed)
    (pool : Address) (locks : Option AllocationLockContext) (oracles : ActivityOracleSet)
    (fee : Option FixedFeeApplication) :
    Avoids balanceOverflow (L.apply tx pool locks oracles fee) := by
  have hbody := htx.body
  rw [Transaction.BodyWellFormed] at hbody
  rw [apply]
  split
  · next heq =>
    rw [heq] at hbody
    simp +decide [assertTransferAllowed, assertNoActivityPoolDirectDebit,
      avoids_transfer h (le_of_lt hbody.2.1.1) hbody.2.2.1.1]
  · next heq =>
    rw [heq] at hbody
    exact avoids_bind.mpr ⟨avoids_authorized _ _ _ _, fun _ _ =>
      avoids_activity h _ (fun e he => le_of_lt (hbody.2.2 e he).2) _ _ _ _⟩
  all_goals simp +decide [applyGovernance, requireNonce]

end LedgerState

end ZyronChain
