import ZyronChain.Ledger.State

/-!
# What a transaction does to the ledger

Every applier is a sequence of debits, credits and nonce updates.  `Moves` says what such a sequence
does to all balances at once and to their sum.
-/

namespace ZyronChain

open Checks List

namespace LedgerState

/-! ### Accounts -/

theorem account_setAccount (L : LedgerState) (a b : Address) (account : AccountState) :
    (L.setAccount a account).account b = if a = b then account else L.account b := by
  rw [LedgerState.account, setAccount, SortedMap.get_set]
  split
  · rfl
  · rfl

theorem balance_setNonce (L : LedgerState) (a b : Address) (n : Int) :
    (L.setNonce a n).balance b = L.balance b := by
  rw [balance, setNonce, account_setAccount]
  split
  · next heq => rw [← heq]; rfl
  · rfl

theorem nonce_setNonce (L : LedgerState) (a b : Address) (n : Int) :
    (L.setNonce a n).nonce b = if a = b then n else L.nonce b := by
  rw [nonce, setNonce, account_setAccount]
  split
  · rfl
  · rfl

theorem total_setAccount (L : LedgerState) (a : Address) (account : AccountState) :
    (L.setAccount a account).total = L.total + account.balanceAtoms - L.balance a := by
  rw [total, setAccount, SortedMap.sum_set]
  change _ = L.accounts.sum _ + _ - _
  congr 1
  rw [balance, LedgerState.account]
  cases L.accounts.get a with
  | none | some => rfl

theorem total_setNonce (L : LedgerState) (a : Address) (n : Int) :
    (L.setNonce a n).total = L.total := by
  rw [setNonce, total_setAccount]
  change L.total + L.balance a - L.balance a = L.total
  omega

/-! ### Moves -/

def amountAt (a : Address) (x : Int) : Address → Int := fun b => if a = b then x else 0

/-- Balances change as given, at the touched accounts, and everything else is as before. -/
structure Moves (L L' : LedgerState) (touched : List Address) (delta : Address → Int) (sum : Int) :
    Prop where
  balance : ∀ a, L'.balance a = L.balance a + delta a
  nonce : ∀ a, L'.nonce a = L.nonce a
  epochs : L'.settledActivityEpochs = L.settledActivityEpochs
  total : L'.total = L.total + sum
  keys : ∀ a, a ∈ L'.accounts.keys ↔ a ∈ touched ∨ a ∈ L.accounts.keys

theorem Moves.refl (L : LedgerState) : Moves L L [] (fun _ => 0) 0 where
  balance _ := (Int.add_zero _).symm
  nonce _ := rfl
  epochs := rfl
  total := (Int.add_zero _).symm
  keys _ := by rw [mem_nil_iff, false_or]

theorem Moves.trans {L L' L'' : LedgerState} {t t' : List Address} {d d' : Address → Int}
    {x x' : Int} (h : Moves L L' t d x) (h' : Moves L' L'' t' d' x') :
    Moves L L'' (t ++ t') (fun a => d a + d' a) (x + x') where
  balance a := by rw [h'.balance, h.balance, Int.add_assoc]
  nonce a := by rw [h'.nonce, h.nonce]
  epochs := by rw [h'.epochs, h.epochs]
  total := by rw [h'.total, h.total, Int.add_assoc]
  keys a := by
    rw [h'.keys, h.keys, mem_append]
    tauto

theorem moves_setAccount (L : LedgerState) (a : Address) (x : Int) :
    Moves L (L.setAccount a { L.account a with balanceAtoms := L.balance a + x }) [a] (amountAt a x)
      x where
  balance b := by
    rw [balance, account_setAccount, amountAt]
    split
    · next heq => rw [← heq]
    · exact (Int.add_zero _).symm
  nonce b := by
    rw [nonce, account_setAccount]
    split
    · next heq => rw [← heq]; rfl
    · rfl
  epochs := rfl
  total := by
    rw [total_setAccount]
    change L.total + (L.balance a + x) - L.balance a = L.total + x
    omega
  keys b := by rw [setAccount, SortedMap.mem_keys_set, mem_singleton]

theorem credit_eq_ok {L L' : LedgerState} {a : Address} {x : Int} :
    L.credit a x = .ok L' ↔
      IsSafeInteger (L.balance a + x) ∧ L.balance a + x ≤ maxSupplyAtoms ∧
        L' = L.setAccount a { L.account a with balanceAtoms := L.balance a + x } := by
  rw [credit, throwIf_bind_eq_ok, Except.ok.injEq, not_or, not_not, gt_iff_lt, not_lt, and_assoc,
    eq_comm (a := L')]

variable {L L' : LedgerState} {a pool : Address} {fee : Option FixedFeeApplication}
  {tx : Transaction} {locks : Option AllocationLockContext}

theorem moves_credit {x : Int} (h : L.credit a x = .ok L') : Moves L L' [a] (amountAt a x) x := by
  obtain ⟨-, -, rfl⟩ := credit_eq_ok.mp h
  exact moves_setAccount L a x

theorem debit_eq_ok {L L' : LedgerState} {a : Address} {x : Int} :
    L.debit a x = .ok L' ↔ x ≤ L.balance a ∧
      L' = L.setAccount a { L.account a with balanceAtoms := L.balance a - x } := by
  rw [debit, throwIf_bind_eq_ok, Except.ok.injEq, not_lt, eq_comm (a := L')]

theorem moves_debit {x : Int} (h : L.debit a x = .ok L') :
    Moves L L' [a] (amountAt a (-x)) (-x) := by
  obtain ⟨-, rfl⟩ := debit_eq_ok.mp h
  exact moves_setAccount L a (-x)

/-! ### The effect of a transfer -/

/-- What is credited to the producer of the block. -/
def producerAtoms (feeAtoms : Int) : Option FixedFeeApplication → Int
  | none => 0
  | some _ => producerShare feeAtoms

/-- The address that the producer's share goes to; none is credited without a share. -/
def producerOf : Option FixedFeeApplication → Address
  | none => ""
  | some fee => fee.producer

/-- The account that the producer's share goes to, if there is a share. -/
def feeAccounts (feeAtoms : Int) (fee : Option FixedFeeApplication) : List Address :=
  if 0 < producerAtoms feeAtoms fee then [producerOf fee] else []

private theorem moves_zero (L : LedgerState) (a : Address) : Moves L L [] (amountAt a 0) 0 := by
  have hzero : amountAt a 0 = fun _ => 0 := by
    funext b
    exact ite_self 0
  rw [hzero]
  exact Moves.refl L

theorem moves_creditFee {feeAtoms : Int} (h : L.creditFee feeAtoms fee pool = .ok L') :
    Moves L L' (feeAccounts feeAtoms fee) (amountAt (producerOf fee) (producerAtoms feeAtoms fee))
        (producerAtoms feeAtoms fee) ∧
      0 ≤ producerAtoms feeAtoms fee ∧
      (0 < producerAtoms feeAtoms fee → producerOf fee ≠ pool) := by
  cases fee with
  | none =>
    cases h
    exact ⟨moves_zero L _, le_refl _, fun hpos => absurd hpos (lt_irrefl 0)⟩
  | some fee =>
    rw [creditFee, creditProducerFee, throwIf_bind_eq_ok, splitFixedFee, bind_eq_ok] at h
    obtain ⟨-, share, hshare, h⟩ := h
    rw [throwIf_bind_eq_ok, Except.ok.injEq, not_or, not_not, not_lt] at hshare
    obtain ⟨⟨-, hfee⟩, rfl⟩ := hshare
    have hnonneg : 0 ≤ producerShare feeAtoms := Int.ediv_nonneg hfee (by decide)
    have hatoms : producerAtoms feeAtoms (some fee) = producerShare feeAtoms := rfl
    split at h
    · next hle =>
      cases h
      rw [feeAccounts, hatoms, le_antisymm hle hnonneg]
      exact ⟨moves_zero L _, le_refl _, fun hpos => absurd hpos (lt_irrefl 0)⟩
    · next hpos =>
      rw [throwIf_bind_eq_ok, unit_bind_eq_ok, assertNoActivityPoolInflow, throwIf_eq_ok] at h
      rw [feeAccounts, hatoms, if_pos (not_le.mp hpos)]
      exact ⟨moves_credit h.2.2, hnonneg, fun _ => h.2.1⟩

/-- What a transfer does to the balances. -/
def transferDelta (tx : Transaction) (receiver : Address) (amountAtoms : Int)
    (fee : Option FixedFeeApplication) : Address → Int := fun a =>
  amountAt tx.sender (-(amountAtoms + tx.feeAtoms)) a + amountAt receiver amountAtoms a +
    amountAt (producerOf fee) (producerAtoms tx.feeAtoms fee) a

/-- What a transfer leaves. -/
structure Transferred (L L' : LedgerState) (tx : Transaction) (receiver : Address)
    (amountAtoms : Int) (locks : Option AllocationLockContext) (pool : Address)
    (fee : Option FixedFeeApplication) : Prop where
  balance : ∀ a, L'.balance a = L.balance a + transferDelta tx receiver amountAtoms fee a
  nonce_eq : tx.nonce = L.nonce tx.sender + 1
  nonce : ∀ a, L'.nonce a = if tx.sender = a then tx.nonce else L.nonce a
  total : L'.total = L.total + (producerAtoms tx.feeAtoms fee - tx.feeAtoms)
  epochs : L'.settledActivityEpochs = L.settledActivityEpochs
  keys : ∀ a, a ∈ L'.accounts.keys ↔
    a ∈ tx.sender :: receiver :: feeAccounts tx.feeAtoms fee ∨ a ∈ L.accounts.keys
  covered : amountAtoms + tx.feeAtoms ≤ L.balance tx.sender
  unlocked : assertAllocationLockOutflow locks tx.sender (L.balance tx.sender)
    (amountAtoms + tx.feeAtoms) = .ok ()
  share : 0 ≤ producerAtoms tx.feeAtoms fee
  pool : 0 < producerAtoms tx.feeAtoms fee → producerOf fee ≠ pool

theorem keys_setNonce {b : Address} {n : Int} :
    b ∈ (L.setNonce a n).accounts.keys ↔ b = a ∨ b ∈ L.accounts.keys := by
  rw [setNonce, setAccount, SortedMap.mem_keys_set]

theorem applyTransfer_eq_ok {receiver : Address} {amountAtoms : Int}
    (h : L.applyTransfer tx receiver amountAtoms locks pool fee = .ok L') :
    Transferred L L' tx receiver amountAtoms locks pool fee := by
  rw [applyTransfer, throwIf_bind_eq_ok, unit_bind_eq_ok, throwIf_bind_eq_ok, unit_bind_eq_ok] at h
  obtain ⟨-, hnonce, hbalance, hlock, h⟩ := h
  obtain ⟨L₁, hdebit, h⟩ := bind_eq_ok.mp h
  obtain ⟨L₂, hcredit, h⟩ := bind_eq_ok.mp h
  obtain ⟨L₃, hfee, h⟩ := bind_eq_ok.mp h
  cases h
  rw [requireNonce, throwIf_eq_ok, ne_eq, not_not] at hnonce
  rw [not_or, not_lt] at hbalance
  obtain ⟨hmoves, hshare, hpool⟩ := moves_creditFee hfee
  have hall := ((moves_debit hdebit).trans (moves_credit hcredit)).trans hmoves
  exact
    { balance := fun a => by rw [balance_setNonce, hall.balance, transferDelta]
      nonce_eq := hnonce
      nonce := fun a => by rw [nonce_setNonce, hall.nonce]
      total := by
        rw [total_setNonce, hall.total]
        omega
      epochs := hall.epochs
      keys := fun a => by
        rw [keys_setNonce, hall.keys]
        simp only [mem_append, mem_cons, not_mem_nil, or_false]
        tauto
      covered := hbalance.2
      unlocked := hlock
      share := hshare
      pool := hpool }

/-! ### The effect of a governance transaction -/

/-- What a governance transaction leaves. -/
structure Governed (L L' : LedgerState) (tx : Transaction) : Prop where
  balance : ∀ a, L'.balance a = L.balance a
  nonce_eq : tx.nonce = L.nonce tx.sender + 1
  nonce : ∀ a, L'.nonce a = if tx.sender = a then tx.nonce else L.nonce a
  total : L'.total = L.total
  epochs : L'.settledActivityEpochs = L.settledActivityEpochs
  keys : ∀ a, a ∈ L'.accounts.keys ↔ a = tx.sender ∨ a ∈ L.accounts.keys

theorem applyGovernance_eq_ok (h : L.applyGovernance tx = .ok L') : Governed L L' tx := by
  rw [applyGovernance, throwIf_bind_eq_ok, unit_bind_eq_ok, Except.ok.injEq, requireNonce,
    throwIf_eq_ok, ne_eq, not_not] at h
  obtain ⟨-, hnonce, rfl⟩ := h
  exact
    { balance := fun a => balance_setNonce L tx.sender a tx.nonce
      nonce_eq := hnonce
      nonce := fun a => nonce_setNonce L tx.sender a tx.nonce
      total := total_setNonce L tx.sender tx.nonce
      epochs := rfl
      keys := fun _ => keys_setNonce }

/-! ### The effect of a settlement -/

/-- What the entries of a settlement pay to an address. -/
def paidTo (entries : List ActivityEntry) (a : Address) : Int :=
  payout (entries.filter fun entry => entry.receiver = a)

variable {entries : List ActivityEntry} {oracles : ActivityOracleSet}

theorem moves_creditEntries (h : creditEntries entries L = .ok L') :
    Moves L L' (entries.map ActivityEntry.receiver) (paidTo entries) (payout entries) := by
  induction entries generalizing L with
  | nil =>
    cases h
    exact Moves.refl _
  | cons entry entries ih =>
    rw [creditEntries, bind_eq_ok] at h
    obtain ⟨L₁, hcredit, h⟩ := h
    have hall := (moves_credit hcredit).trans (ih h)
    have hdelta : (fun a => amountAt entry.receiver entry.amountAtoms a + paidTo entries a) =
        paidTo (entry :: entries) := by
      funext a
      rw [amountAt, paidTo, paidTo, filter_cons]
      by_cases ha : entry.receiver = a
      · rw [if_pos ha, if_pos (decide_eq_true ha), payout_cons]
      · rw [if_neg ha, if_neg (by simpa using ha), Int.zero_add]
    rw [hdelta, ← payout_cons, singleton_append, ← map_cons] at hall
    exact hall

/-- What a settlement does to the balances. -/
def settlementDelta (pool : Address) (entries : List ActivityEntry) : Address → Int := fun a =>
  amountAt pool (-payout entries) a + paidTo entries a

/-- What a settlement records in the window. -/
def windowRecord (locks : Option AllocationLockContext) (rollingWindow : Bool) (total : Int) :
    Option (Int × Int) :=
  match rollingWindow, locks with
  | true, some locks => some (locks.blockTimestampMs, total)
  | _, _ => none

/-- The nonces after a record of the window: its two accounts hold the time and the amount. -/
def recordedNonce (nonce : Address → Int) (window : Option (Int × Int)) (a : Address) : Int :=
  match window with
  | none => nonce a
  | some (time, amount) =>
    if activityWindowAmountAddress = a then amount
    else if activityWindowTimeAddress = a then time else nonce a

theorem nonce_recordWindow (L : LedgerState) (locks : Option AllocationLockContext)
    (rollingWindow : Bool) (total : Int) (a : Address) :
    (L.recordWindow locks rollingWindow total).nonce a =
      recordedNonce L.nonce (windowRecord locks rollingWindow total) a := by
  cases rollingWindow with
  | false => rfl
  | true =>
    cases locks with
    | none => rfl
    | some locks => rw [recordWindow, windowRecord, nonce_setNonce, nonce_setNonce, recordedNonce]

theorem balance_recordWindow (L : LedgerState) (locks : Option AllocationLockContext)
    (rollingWindow : Bool) (total : Int) (a : Address) :
    (L.recordWindow locks rollingWindow total).balance a = L.balance a := by
  unfold recordWindow
  split
  · rw [balance_setNonce, balance_setNonce]
  · rfl

theorem total_recordWindow (L : LedgerState) (locks : Option AllocationLockContext)
    (rollingWindow : Bool) (total : Int) :
    (L.recordWindow locks rollingWindow total).total = L.total := by
  unfold recordWindow
  split
  · rw [total_setNonce, total_setNonce]
  · rfl

theorem epochs_recordWindow (L : LedgerState) (locks : Option AllocationLockContext)
    (rollingWindow : Bool) (total : Int) :
    (L.recordWindow locks rollingWindow total).settledActivityEpochs = L.settledActivityEpochs := by
  unfold recordWindow
  split <;> rfl

/-- The accounts of the window, where it is recorded. -/
def windowAccounts (rollingWindow : Bool) : List Address :=
  if rollingWindow then [activityWindowTimeAddress, activityWindowAmountAddress] else []

theorem mem_keys_recordWindow (L : LedgerState) {rollingWindow : Bool}
    (hlocks : rollingWindow = true → locks ≠ none) (total : Int) (a : Address) :
    a ∈ (L.recordWindow locks rollingWindow total).accounts.keys ↔
      a ∈ windowAccounts rollingWindow ∨ a ∈ L.accounts.keys := by
  cases rollingWindow with
  | false =>
    change a ∈ L.accounts.keys ↔ a ∈ [] ∨ _
    rw [mem_nil_iff, false_or]
  | true =>
    cases locks with
    | none => exact absurd rfl (hlocks rfl)
    | some locks =>
      rw [recordWindow, keys_setNonce, keys_setNonce, windowAccounts, if_pos rfl, mem_cons,
        mem_singleton]
      tauto

/-- What a settlement leaves. -/
structure Settled (L L' : LedgerState) (tx : Transaction) (s : ActivitySettlement) (pool : Address)
    (locks : Option AllocationLockContext) (rollingWindow : Bool) (capAtoms : Int) : Prop where
  sender : tx.sender = pool
  balance : ∀ a, L'.balance a = L.balance a + settlementDelta pool s.entries a
  nonce_eq : tx.nonce = L.nonce pool + 1
  nonce : ∀ a, L'.nonce a = recordedNonce (fun b => if pool = b then tx.nonce else L.nonce b)
    (windowRecord locks rollingWindow (payout s.entries)) a
  total : L'.total = L.total
  fresh : L.settledActivityEpochs.has s.epoch = false
  epochs : L'.settledActivityEpochs = L.settledActivityEpochs.set s.epoch ()
  keys : ∀ a, a ∈ L'.accounts.keys ↔
    a ∈ pool :: s.entries.map ActivityEntry.receiver ++ windowAccounts rollingWindow ∨
      a ∈ L.accounts.keys
  receivers : ∀ entry ∈ s.entries, entry.receiver ≠ pool ∧ 0 ≤ entry.amountAtoms
  capped : payout s.entries ≤ capAtoms
  covered : payout s.entries ≤ L.balance pool
  window : L.assertRollingWindow s.entries locks rollingWindow (payout s.entries) capAtoms = .ok ()
  unlocked : assertAllocationLockOutflow locks pool (L.balance pool) (payout s.entries) = .ok ()

theorem locks_ne_none_of_window {total capAtoms : Int}
    (h : L.assertRollingWindow entries locks true total capAtoms = .ok ()) : locks ≠ none := by
  rintro rfl
  rw [assertRollingWindow, if_pos rfl, throwIf_bind_eq_ok, Option.map_none] at h
  unfold assertActivityRollingWindow at h
  rw [throwIf_bind_eq_ok] at h
  cases h.2.2

theorem applyActivity_eq_ok {s : ActivitySettlement} {rollingWindow : Bool} {capAtoms : Int}
    (h : L.applyActivity tx s pool locks rollingWindow capAtoms = .ok L') :
    Settled L L' tx s pool locks rollingWindow capAtoms := by
  rw [applyActivity, throwIf_bind_eq_ok, unit_bind_eq_ok, throwIf_bind_eq_ok, throwIf_bind_eq_ok,
    throwIf_bind_eq_ok, unit_bind_eq_ok, bind_eq_ok] at h
  obtain ⟨hsender, hinflow, -, hfresh, -, hnonce, total, htotal, h⟩ := h
  obtain ⟨rfl, hcap, hamounts⟩ := assertActivitySettlementWithinCap_eq_ok htotal
  rw [unit_bind_eq_ok, throwIf_bind_eq_ok, unit_bind_eq_ok] at h
  obtain ⟨hwindow, hbalance, hlock, h⟩ := h
  obtain ⟨L₁, hdebit, h⟩ := bind_eq_ok.mp h
  obtain ⟨L₂, hentries, h⟩ := bind_eq_ok.mp h
  cases h
  rw [ne_eq, not_not] at hsender
  rw [requireNonce, throwIf_eq_ok, ne_eq, not_not] at hnonce
  have hmoves := (moves_debit hdebit).trans (moves_creditEntries hentries)
  have hlocks : rollingWindow = true → locks ≠ none := by
    rintro rfl
    exact locks_ne_none_of_window hwindow
  have hbase : ∀ b, ((L₂.setNonce pool tx.nonce).addEpoch s.epoch).nonce b =
      if pool = b then tx.nonce else L.nonce b := fun b => by
    change ((L₂.setNonce pool tx.nonce).nonce b) = _
    rw [nonce_setNonce, hmoves.nonce]
  exact
    { sender := hsender
      balance := fun a => by
        rw [balance_recordWindow]
        change (L₂.setNonce pool tx.nonce).balance a = _
        rw [balance_setNonce, hmoves.balance, settlementDelta]
      nonce_eq := hnonce
      nonce := fun a => by rw [nonce_recordWindow, funext hbase]
      total := by
        rw [total_recordWindow]
        change (L₂.setNonce pool tx.nonce).total = _
        rw [total_setNonce, hmoves.total]
        omega
      fresh := by
        rw [Bool.not_eq_true] at hfresh
        exact hfresh
      epochs := by
        rw [epochs_recordWindow]
        change L₂.settledActivityEpochs.set s.epoch () = _
        rw [hmoves.epochs]
      keys := fun a => by
        rw [mem_keys_recordWindow _ hlocks]
        change _ ∨ a ∈ (L₂.setNonce pool tx.nonce).accounts.keys ↔ _
        rw [keys_setNonce, hmoves.keys]
        simp only [mem_append, mem_cons, not_mem_nil, or_false]
        tauto
      receivers := fun entry he => by
        have hreceiver := (forEach_eq_ok.mp hinflow) entry he
        rw [assertNoActivityPoolInflow, throwIf_eq_ok] at hreceiver
        exact ⟨hreceiver, hamounts entry he⟩
      capped := hcap
      covered := not_lt.mp hbalance
      window := hwindow
      unlocked := hlock }

/-! ### All kinds -/

/-- The transactions that change a schedule of the chain. -/
def IsGovernance (tx : Transaction) : Prop := match tx.body with
  | .validatorUpdate .. | .activityOracleGovernance .. | .protocolUpgrade .. => True
  | _ => False

/-- The settlement that a transaction carries. -/
def settlementOf (tx : Transaction) : Option ActivitySettlement := match tx.body with
  | .activitySettlement epoch entries receiptRoot oracleApprovals attestationExpiresAtMs =>
    some ⟨epoch, entries, receiptRoot, oracleApprovals, attestationExpiresAtMs⟩
  | _ => none

/-- The effect of an applied transaction is that of its kind. -/
theorem apply_eq_ok [Crypto] (h : L.apply tx pool locks oracles fee = .ok L') :
    (∃ receiver amountAtoms, tx.body = .transfer receiver amountAtoms ∧
      assertTransferAllowed tx receiver pool oracles.activityRollingWindowEnforced = .ok () ∧
      Transferred L L' tx receiver amountAtoms locks pool fee) ∨
    (∃ s, settlementOf tx = some s ∧
      Settled L L' tx s pool locks oracles.activityRollingWindowEnforced
        oracles.activitySettlementCapAtoms) ∨
    (IsGovernance tx ∧ Governed L L' tx) := by
  rw [apply] at h
  rw [settlementOf, IsGovernance]
  split at h
  · next receiver amountAtoms hbody =>
    rw [unit_bind_eq_ok] at h
    exact .inl ⟨receiver, amountAtoms, hbody, h.1, applyTransfer_eq_ok h.2⟩
  · next hbody =>
    rw [unit_bind_eq_ok] at h
    rw [hbody]
    exact .inr (.inl ⟨_, rfl, applyActivity_eq_ok h.2⟩)
  · cases h
  all_goals
    next hbody =>
      rw [hbody]
      exact .inr (.inr ⟨trivial, applyGovernance_eq_ok h⟩)

/-! ### The sum of all balances -/

def burnedAtoms (tx : Transaction) (fee : Option FixedFeeApplication) : Int := match tx.body with
  | .transfer .. => tx.feeAtoms - producerAtoms tx.feeAtoms fee
  | _ => 0

/-- The sum of all balances changes by what is burned. -/
theorem total_apply [Crypto] (h : L.apply tx pool locks oracles fee = .ok L') :
    L'.total = L.total - burnedAtoms tx fee := by
  rcases apply_eq_ok h with ⟨receiver, amountAtoms, hbody, -, heffect⟩ | ⟨s, hs, heffect⟩ | ⟨hkind, heffect⟩
  · rw [heffect.total, burnedAtoms, hbody]
    change _ = L.total - (tx.feeAtoms - producerAtoms tx.feeAtoms fee)
    omega
  · have hburned : burnedAtoms tx fee = 0 := by
      rw [settlementOf] at hs
      rw [burnedAtoms]
      split at hs
      · next hbody => rw [hbody]
      · cases hs
    rw [heffect.total, hburned, Int.sub_zero]
  · have hburned : burnedAtoms tx fee = 0 := by
      rw [IsGovernance] at hkind
      rw [burnedAtoms]
      split
      · next hbody => rw [hbody] at hkind; exact hkind.elim
      · rfl
    rw [heffect.total, hburned, Int.sub_zero]

end LedgerState

end ZyronChain
