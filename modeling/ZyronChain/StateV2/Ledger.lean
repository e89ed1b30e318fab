import ZyronChain.Ledger.Overflow
import ZyronChain.StateV2.Keys

/-!
# Transactions on the authenticated state

The appliers of the protocol versions with an authenticated state, and that they do what the appliers
of the ledger do.

Source: `l1/src/state-v2.ts` (`applyStateV2Transaction` and the account helpers after it).
-/

namespace ZyronChain

open Checks Function List LedgerState SortedMap Option

/-! ### Accounts -/

def corruptAccount : String := "Corrupt protocol v2 account state"

def readAccount (value : Json) : Except String AccountState :=
  match safeInteger? (value.field "balanceAtoms"), safeInteger? (value.field "nonce") with
  | some balanceAtoms, some nonce => do
    throwIf (balanceAtoms < 0 ∨ balanceAtoms > maxSupplyAtoms ∨ nonce < 0) corruptAccount
    .ok ⟨balanceAtoms, nonce⟩
  | _, _ => .error corruptAccount

section

variable [Crypto]

def stateV2Account (s : SparseMerkleState) (address : Address) : Except String AccountState := do
  match ← s.get (accountKey address) with
  | none => .ok ⟨0, 0⟩
  | some value => readAccount value

def stateV2Balance (s : SparseMerkleState) (address : Address) : Except String Int := do
  let account ← stateV2Account s address
  .ok account.balanceAtoms

def stateV2Nonce (s : SparseMerkleState) (address : Address) : Except String Int := do
  let account ← stateV2Account s address
  .ok account.nonce

def requireStateV2Nonce (s : SparseMerkleState) (address : Address) (nonce : Int) :
    Except String Unit := do
  let account ← stateV2Account s address
  throwIf (nonce ≠ account.nonce + 1) invalidNonce

def debitStateV2 (s : SparseMerkleState) (address : Address) (amount : Int) :
    Except String SparseMerkleState := do
  let account ← stateV2Account s address
  throwIf (account.balanceAtoms < amount) insufficientBalance
  s.set (accountKey address)
    (accountValue { account with balanceAtoms := account.balanceAtoms - amount })

def creditStateV2 (s : SparseMerkleState) (address : Address) (amount : Int) :
    Except String SparseMerkleState := do
  let account ← stateV2Account s address
  let balanceAtoms := account.balanceAtoms + amount
  throwIf (¬ IsSafeInteger balanceAtoms ∨ balanceAtoms > maxSupplyAtoms) balanceOverflow
  s.set (accountKey address) (accountValue { account with balanceAtoms := balanceAtoms })

def setStateV2Nonce (s : SparseMerkleState) (address : Address) (nonce : Int) :
    Except String SparseMerkleState := do
  let account ← stateV2Account s address
  s.set (accountKey address) (accountValue { account with nonce := nonce })

def creditStateV2ProducerFee (s : SparseMerkleState) (feeAtoms : Int) (fee : FixedFeeApplication)
    (activityPool : Address) : Except String SparseMerkleState := do
  throwIf (feeAtoms ≠ fee.fixedTransferFeeAtoms) fixedFeeMismatch
  let producerAtoms ← splitFixedFee feeAtoms
  if producerAtoms ≤ 0 then .ok s
  else do
    throwIf (fee.producer = miningTrackerAddress) trackerReserved
    assertNoActivityPoolInflow fee.producer activityPool
    creditStateV2 s fee.producer producerAtoms

/-! ### Transactions -/

/-- The producer's share, where the genesis has a fee policy. -/
def creditStateV2Fee (s : SparseMerkleState) (feeAtoms : Int) (fee : Option FixedFeeApplication)
    (activityPool : Address) : Except String SparseMerkleState :=
  match fee with
  | none => .ok s
  | some fee => creditStateV2ProducerFee s feeAtoms fee activityPool

/-- `applyStateV2Transaction` of a transfer. -/
def applyTransferStateV2 (s : SparseMerkleState) (tx : Transaction) (receiver : Address)
    (amountAtoms : Int) (locks : Option AllocationLockContext) (activityPool : Address)
    (fee : Option FixedFeeApplication) : Except String SparseMerkleState := do
  throwIf (tx.sender = miningTrackerAddress ∨ receiver = miningTrackerAddress) trackerReserved
  requireStateV2Nonce s tx.sender tx.nonce
  let total := amountAtoms + tx.feeAtoms
  throwIf (¬ IsSafeInteger total) insufficientBalance
  let senderBalance ← stateV2Balance s tx.sender
  throwIf (senderBalance < total) insufficientBalance
  assertAllocationLockOutflow locks tx.sender senderBalance total
  let next ← debitStateV2 s tx.sender total
  let next ← creditStateV2 next receiver amountAtoms
  let next ← creditStateV2Fee next tx.feeAtoms fee activityPool
  setStateV2Nonce next tx.sender tx.nonce

def creditEntriesStateV2 : List ActivityEntry → SparseMerkleState → Except String SparseMerkleState
  | [], s => .ok s
  | entry :: entries, s => do
    let s ← creditStateV2 s entry.receiver entry.amountAtoms
    creditEntriesStateV2 entries s

/-- The rolling cap, where it is enforced. -/
def assertRollingWindowStateV2 (s : SparseMerkleState) (entries : List ActivityEntry)
    (locks : Option AllocationLockContext) (rollingWindow : Bool) (total capAtoms : Int) :
    Except String Unit :=
  if rollingWindow then do
    throwIf (entries.any fun entry => isActivityWindowAddress entry.receiver) windowReserved
    let time ← stateV2Nonce s activityWindowTimeAddress
    let amount ← stateV2Nonce s activityWindowAmountAddress
    assertActivityRollingWindow time amount (locks.map AllocationLockContext.blockTimestampMs) total
      capAtoms
  else .ok ()

def recordWindowStateV2 (s : SparseMerkleState) (locks : Option AllocationLockContext)
    (rollingWindow : Bool) (total : Int) : Except String SparseMerkleState :=
  match rollingWindow, locks with
  | true, some locks => do
    let s ← setStateV2Nonce s activityWindowTimeAddress locks.blockTimestampMs
    setStateV2Nonce s activityWindowAmountAddress total
  | _, _ => .ok s

/-- An epoch that has a value is refused. -/
def assertEpochOpen (s : SparseMerkleState) (epoch : Int) (message : String) :
    Except String Unit := do
  let value ← s.get (activityEpochKey epoch)
  throwIf (value.isSome = true) message

/-- `applyStateV2Transaction` of a settlement. -/
def applyActivityStateV2 (s : SparseMerkleState) (tx : Transaction)
    (settlement : ActivitySettlement) (activityPool : Address)
    (locks : Option AllocationLockContext) (rollingWindow : Bool) (capAtoms : Int) :
    Except String SparseMerkleState := do
  throwIf (tx.sender ≠ activityPool) "Invalid activity pool sender"
  forEach (fun entry => assertNoActivityPoolInflow entry.receiver activityPool) settlement.entries
  throwIf (settlement.entries.any fun entry => entry.receiver == miningTrackerAddress)
    trackerReserved
  assertEpochOpen s settlement.epoch LedgerState.epochSettled
  assertEpochOpen s (settlement.epoch + 1) LedgerState.epochOrder
  requireStateV2Nonce s activityPool tx.nonce
  let total ← assertActivitySettlementWithinCap settlement.entries capAtoms
  assertRollingWindowStateV2 s settlement.entries locks rollingWindow total capAtoms
  let poolBalance ← stateV2Balance s activityPool
  throwIf (poolBalance < total) insufficientBalance
  assertAllocationLockOutflow locks activityPool poolBalance total
  let next ← debitStateV2 s activityPool total
  let next ← creditEntriesStateV2 settlement.entries next
  let next ← setStateV2Nonce next activityPool tx.nonce
  let next ← recordWindowStateV2 next locks rollingWindow total
  next.set (activityEpochKey settlement.epoch) settledValue

/-- `applyStateV2Transaction` of a governance transaction, with the entry of its schedule. -/
def applyGovernanceStateV2 (s : SparseMerkleState) (tx : Transaction) (key : String)
    (value : JsonValue) : Except String SparseMerkleState := do
  throwIf (tx.sender = miningTrackerAddress) trackerReserved
  requireStateV2Nonce s tx.sender tx.nonce
  let next ← setStateV2Nonce s tx.sender tx.nonce
  next.set key value

def applyStateV2Transaction (s : SparseMerkleState) (tx : Transaction) (activityPool : Address)
    (locks : Option AllocationLockContext) (oracles : ActivityOracleSet)
    (fee : Option FixedFeeApplication) : Except String SparseMerkleState :=
  match tx.body with
  | .transfer receiver amountAtoms => do
    LedgerState.assertTransferAllowed tx receiver activityPool
      oracles.activityRollingWindowEnforced
    applyTransferStateV2 s tx receiver amountAtoms locks activityPool fee
  | .activitySettlement epoch entries receiptRoot oracleApprovals attestationExpiresAtMs => do
    let settlement := ⟨epoch, entries, receiptRoot, oracleApprovals, attestationExpiresAtMs⟩
    assertActivitySettlementAuthorized tx settlement oracles
      (LedgerState.applierContext tx locks oracles)
    applyActivityStateV2 s tx settlement activityPool locks oracles.activityRollingWindowEnforced
      oracles.activitySettlementCapAtoms
  | .miningClaim .. => .error miningRetired
  | .validatorUpdate activationHeight validators _ _ =>
    applyGovernanceStateV2 s tx (validatorScheduleKey activationHeight)
      (validatorsValue validators)
  | .activityOracleGovernance activationHeight action publicKeys _ =>
    applyGovernanceStateV2 s tx (activityOracleGovernanceKey activationHeight)
      (oracleValue ⟨action, publicKeys⟩)
  | .protocolUpgrade activationHeight protocolVersion _ =>
    applyGovernanceStateV2 s tx (protocolScheduleKey activationHeight)
      (protocolValue protocolVersion)

end

/-- `recordGovernanceUpdates` for one transaction. -/
def Governance.record (G : Governance) (tx : Transaction) : Governance := match tx.body with
  | .validatorUpdate activationHeight validators _ _ =>
    { G with validatorSchedule := G.validatorSchedule.set activationHeight validators }
  | .activityOracleGovernance activationHeight action publicKeys _ =>
    { G with activityOracleGovernance :=
        G.activityOracleGovernance.set activationHeight ⟨action, publicKeys⟩ }
  | .protocolUpgrade activationHeight protocolVersion _ =>
    { G with protocolSchedule := G.protocolSchedule.set activationHeight protocolVersion }
  | _ => G

/-- The keys that a transaction reads or writes. -/
def accessedKeys (tx : Transaction) (activityPool : Address) (fee : Option FixedFeeApplication) :
    List SemanticKey :=
  match tx.body with
  | .transfer receiver _ => [.account tx.sender, .account receiver,
      .account (LedgerState.producerOf fee)]
  | .activitySettlement epoch entries _ _ _ =>
    [.account activityPool, .activityEpoch epoch, .activityEpoch (epoch + 1),
      .account activityWindowTimeAddress, .account activityWindowAmountAddress] ++
      entries.map fun entry => .account entry.receiver
  | .miningClaim .. => []
  | .validatorUpdate activationHeight _ _ _ =>
    [.account tx.sender, .validatorSchedule activationHeight]
  | .activityOracleGovernance activationHeight _ _ _ =>
    [.account tx.sender, .activityOracleGovernance activationHeight]
  | .protocolUpgrade activationHeight _ _ =>
    [.account tx.sender, .protocolSchedule activationHeight]

/-! ### States of a ledger -/

/-- Balances and nonces within the range that the authenticated state accepts. -/
def LedgerState.Bounded (L : LedgerState) : Prop :=
  ∀ a, (0 ≤ L.balance a ∧ L.balance a ≤ maxSupplyAtoms) ∧ IsSafeInteger (L.nonce a) ∧ 0 ≤ L.nonce a

theorem LedgerState.Valid.bounded {L : LedgerState} (h : L.Valid) : L.Bounded := fun a =>
  ⟨⟨h.balance a, h.balance_le a⟩, h.nonce a⟩

theorem LedgerState.Bounded.setAccount {L : LedgerState} (h : L.Bounded) (a : Address)
    {account : AccountState} (hbalance : 0 ≤ account.balanceAtoms ∧ account.balanceAtoms ≤ maxSupplyAtoms)
    (hnonce : IsSafeInteger account.nonce ∧ 0 ≤ account.nonce) : (L.setAccount a account).Bounded := by
  intro b
  rw [LedgerState.balance, LedgerState.nonce, account_setAccount]
  split
  · exact ⟨hbalance, hnonce⟩
  · exact h b

theorem readAccount_accountValue {account : AccountState}
    (hbalance : 0 ≤ account.balanceAtoms ∧ account.balanceAtoms ≤ maxSupplyAtoms)
    (hnonce : IsSafeInteger account.nonce ∧ 0 ≤ account.nonce) :
    readAccount (normalize (accountValue account).val) = .ok account := by
  have horder : InOrder (accountValue account).val :=
    ⟨(by decide : KeysInOrder ["balanceAtoms", "nonce"]), trivial, trivial, trivial⟩
  have hread : ∀ b n : Int, readAccount (.obj [("balanceAtoms", .num b), ("nonce", .num n)]) =
      match safeInteger? (some (.num b)), safeInteger? (some (.num n)) with
      | some balanceAtoms, some nonce => do
        throwIf (balanceAtoms < 0 ∨ balanceAtoms > maxSupplyAtoms ∨ nonce < 0) corruptAccount
        .ok ⟨balanceAtoms, nonce⟩
      | _, _ => .error corruptAccount := fun _ _ => rfl
  rw [normalize_eq_self _ horder, accountValue, hread,
    safeInteger?_num (isSafeInteger_of_le hbalance.1 hbalance.2),
    safeInteger?_num hnonce.1]
  change (throwIf _ _ >>= fun _ => _) = _
  rw [throwIf_of_not (by omega)]
  rfl

section

variable [Crypto]

/-- The state stores the ledger and the schedules. -/
structure Represents (K : List SemanticKey) (G : Governance) (L : LedgerState)
    (s : SparseMerkleState) : Prop where
  commits : Commits K (stateView L G) s
  bounded : L.Bounded

variable {K : List SemanticKey} {G : Governance} {L : LedgerState} {s : SparseMerkleState}

variable {a : Address} {fee : Option FixedFeeApplication} {tx : Transaction}

theorem Represents.account (h : Represents K G L s) (ha : .account a ∈ K) :
    stateV2Account s a = .ok (L.account a) := by
  have hget := h.commits.get ha
  have hbounds := h.bounded a
  change s.get (accountKey a) = .ok ((stateView L G (.account a)).map _) at hget
  rw [stateV2Account, hget, ok_bind, stateView]
  rw [LedgerState.balance, LedgerState.nonce, LedgerState.account] at hbounds
  rw [LedgerState.account]
  cases hentry : L.accounts.get a with
  | none => rfl
  | some account =>
    rw [hentry, getD_some] at hbounds
    exact readAccount_accountValue hbounds.1 hbounds.2

theorem Represents.balance (h : Represents K G L s) (ha : .account a ∈ K) :
    stateV2Balance s a = .ok (L.balance a) := by
  rw [stateV2Balance, h.account ha]
  rfl

theorem Represents.nonce (h : Represents K G L s) (ha : .account a ∈ K) :
    stateV2Nonce s a = .ok (L.nonce a) := by
  rw [stateV2Nonce, h.account ha]
  rfl

omit [Crypto] in
theorem update_stateView_account (L : LedgerState) (G : Governance) (a : Address)
    (account : AccountState) :
    Function.update (stateView L G) (.account a) (some (accountValue account)) =
      stateView (L.setAccount a account) G := by
  funext k
  cases k with
  | account b =>
    rw [stateView, LedgerState.setAccount, get_set]
    by_cases hb : a = b
    · rw [if_pos hb, hb, update_self]
      rfl
    · rw [if_neg hb, update_of_ne fun heq => hb (SemanticKey.account.inj heq).symm]
      rfl
  | _ => exact update_of_ne SemanticKey.noConfusion _ _

theorem Represents.setAccount (hK : KeysDistinct K) (h : Represents K G L s) (ha : .account a ∈ K)
    {account : AccountState}
    (hbalance : 0 ≤ account.balanceAtoms ∧ account.balanceAtoms ≤ maxSupplyAtoms)
    (hnonce : IsSafeInteger account.nonce ∧ 0 ≤ account.nonce) :
    ∃ s', s.set (accountKey a) (accountValue account) = .ok s' ∧
      Represents K G (L.setAccount a account) s' := by
  obtain ⟨s', hset, hcommits⟩ := h.commits.set hK ha (canonical_accountValue
    (isSafeInteger_of_le hbalance.1 hbalance.2) hnonce.1)
  rw [update_stateView_account] at hcommits
  exact ⟨s', hset, hcommits, h.bounded.setAccount a hbalance hnonce⟩

private theorem corresponds_set {L' : LedgerState} {x : Except String SparseMerkleState}
    (h : ∃ s', x = .ok s' ∧ Represents K G L' s') : Corresponds balanceOverflow (Represents K G) (.ok L') x := by
  obtain ⟨s', rfl, hs'⟩ := h
  exact hs'

theorem debit_corresponds (hK : KeysDistinct K) (h : Represents K G L s) (ha : .account a ∈ K)
    {x : Int} (hx : 0 ≤ x) :
    Corresponds balanceOverflow (Represents K G) (L.debit a x) (debitStateV2 s a x) := by
  rw [LedgerState.debit, debitStateV2, h.account ha, ok_bind]
  refine (corresponds_throwIf Iff.rfl id).unit_bind fun hcheck => corresponds_set ?_
  have hbounds := h.bounded a
  have hcovered : x ≤ L.balance a := not_lt.mp (throwIf_eq_ok.mp hcheck)
  refine h.setAccount hK ha ?_ hbounds.2
  change 0 ≤ L.balance a - x ∧ L.balance a - x ≤ maxSupplyAtoms
  omega

theorem credit_corresponds (hK : KeysDistinct K) (h : Represents K G L s) (ha : .account a ∈ K)
    {x : Int} (hx : 0 ≤ x) :
    Corresponds balanceOverflow (Represents K G) (L.credit a x) (creditStateV2 s a x) := by
  rw [LedgerState.credit, creditStateV2, h.account ha, ok_bind]
  refine (corresponds_throwIf Iff.rfl id).unit_bind fun hcheck => corresponds_set ?_
  have hbounds := h.bounded a
  rw [throwIf_eq_ok, not_or, not_not, gt_iff_lt, not_lt] at hcheck
  refine h.setAccount hK ha ?_ hbounds.2
  change 0 ≤ L.balance a + x ∧ L.balance a + x ≤ maxSupplyAtoms
  exact ⟨by omega, hcheck.2⟩

theorem Represents.setNonce (hK : KeysDistinct K) (h : Represents K G L s) (ha : .account a ∈ K)
    {n : Int} (hn : IsSafeInteger n ∧ 0 ≤ n) :
    ∃ s', setStateV2Nonce s a n = .ok s' ∧ Represents K G (L.setNonce a n) s' := by
  rw [setStateV2Nonce, h.account ha, ok_bind]
  exact h.setAccount hK ha (h.bounded a).1 hn

theorem requireNonce_corresponds (h : Represents K G L s) (ha : .account a ∈ K) (n : Int) :
    Corresponds balanceOverflow Eq (L.requireNonce a n) (requireStateV2Nonce s a n) := by
  rw [LedgerState.requireNonce, requireStateV2Nonce, h.account ha, ok_bind]
  exact corresponds_self _

/-! ### Transfers -/

private theorem creditFee_corresponds (hK : KeysDistinct K) (h : Represents K G L s)
    (hproducer : .account (LedgerState.producerOf fee) ∈ K) (feeAtoms : Int) (pool : Address) :
    Corresponds balanceOverflow (Represents K G) (L.creditFee feeAtoms fee pool)
      (creditStateV2Fee s feeAtoms fee pool) := by
  cases fee with
  | none => exact h
  | some fee =>
    refine (corresponds_self _).unit_bind fun _ => (corresponds_self _).bind fun share share' heq _ => ?_
    subst heq
    by_cases hshare : share ≤ 0
    · rw [if_pos hshare, if_pos hshare]
      exact h
    · rw [if_neg hshare, if_neg hshare]
      exact (corresponds_self _).unit_bind fun _ => (corresponds_self _).unit_bind fun _ =>
        credit_corresponds hK h hproducer (by omega)

private theorem transfer_corresponds (hK : KeysDistinct K) (h : Represents K G L s)
    (htx : tx.WellFormed) {receiver : Address} {amountAtoms : Int} (hamount : 0 ≤ amountAtoms)
    (hfee : 0 ≤ tx.feeAtoms) (hsender : .account tx.sender ∈ K) (hreceiver : .account receiver ∈ K)
    (hproducer : .account (LedgerState.producerOf fee) ∈ K) (locks : Option AllocationLockContext)
    (pool : Address) :
    Corresponds balanceOverflow (Represents K G) (L.applyTransfer tx receiver amountAtoms locks pool fee)
      (applyTransferStateV2 s tx receiver amountAtoms locks pool fee) := by
  rw [LedgerState.applyTransfer, applyTransferStateV2, h.balance hsender]
  refine (corresponds_self _).unit_bind fun _ =>
    (requireNonce_corresponds h hsender tx.nonce).unit_bind fun _ => ?_
  rw [throwIf_or]
  refine (corresponds_self _).unit_bind fun _ => ?_
  rw [ok_bind]
  refine (corresponds_self _).unit_bind fun _ => (corresponds_self _).unit_bind fun _ =>
    (debit_corresponds hK h hsender (by omega)).bind fun L₁ s₁ h₁ _ =>
    (credit_corresponds hK h₁ hreceiver hamount).bind fun L₂ s₂ h₂ _ =>
    (creditFee_corresponds hK h₂ hproducer _ _).bind fun L₃ s₃ h₃ _ => ?_
  exact corresponds_set (h₃.setNonce hK hsender ⟨htx.nonce.1, by have := htx.nonce.2; omega⟩)

/-! ### Settlements -/

private theorem epochOpen_corresponds (h : Represents K G L s) {epoch : Int}
    (he : .activityEpoch epoch ∈ K) (message : String) :
    Corresponds balanceOverflow Eq (throwIf (L.isActivityEpochSettled epoch) message)
      (assertEpochOpen s epoch message) := by
  have hget := h.commits.get he
  change s.get (activityEpochKey epoch) = .ok ((stateView L G (.activityEpoch epoch)).map _) at hget
  rw [assertEpochOpen, hget, ok_bind]
  refine corresponds_throwIf ?_ id
  rw [isSome_map, stateView, isSome_map]
  rfl

private theorem creditEntries_corresponds (hK : KeysDistinct K) {entries : List ActivityEntry}
    (h : Represents K G L s)
    (hentries : ∀ entry ∈ entries, .account entry.receiver ∈ K ∧ 0 ≤ entry.amountAtoms) :
    Corresponds balanceOverflow (Represents K G) (LedgerState.creditEntries entries L)
      (creditEntriesStateV2 entries s) := by
  induction entries generalizing L s with
  | nil => exact h
  | cons entry entries ih =>
    rw [forall_mem_cons] at hentries
    exact (credit_corresponds hK h hentries.1.1 hentries.1.2).bind fun L₁ s₁ h₁ _ =>
      ih h₁ hentries.2

private theorem rollingWindow_corresponds (h : Represents K G L s)
    (htime : .account activityWindowTimeAddress ∈ K)
    (hamount : .account activityWindowAmountAddress ∈ K) (entries : List ActivityEntry)
    (locks : Option AllocationLockContext) (rollingWindow : Bool) (total capAtoms : Int) :
    Corresponds balanceOverflow Eq (L.assertRollingWindow entries locks rollingWindow total capAtoms)
      (assertRollingWindowStateV2 s entries locks rollingWindow total capAtoms) := by
  rw [LedgerState.assertRollingWindow, assertRollingWindowStateV2, h.nonce htime, h.nonce hamount]
  exact corresponds_self _

private theorem recordWindow_represents (hK : KeysDistinct K) (h : Represents K G L s)
    (htime : .account activityWindowTimeAddress ∈ K)
    (hamount : .account activityWindowAmountAddress ∈ K) {locks : Option AllocationLockContext}
    {rollingWindow : Bool} {total : Int}
    (hbounds : ∀ time amount, LedgerState.windowRecord locks rollingWindow total = some (time, amount) →
      (IsSafeInteger time ∧ 0 ≤ time) ∧ (IsSafeInteger amount ∧ 0 ≤ amount)) :
    ∃ s', recordWindowStateV2 s locks rollingWindow total = .ok s' ∧
      Represents K G (L.recordWindow locks rollingWindow total) s' := by
  cases rollingWindow with
  | false => exact ⟨s, rfl, h⟩
  | true =>
    cases locks with
    | none => exact ⟨s, rfl, h⟩
    | some locks =>
      obtain ⟨hsafe, hsafe'⟩ := hbounds _ _ rfl
      obtain ⟨s₁, hs₁, h₁⟩ := h.setNonce hK htime hsafe
      obtain ⟨s₂, hs₂, h₂⟩ := h₁.setNonce hK hamount hsafe'
      exact ⟨s₂, bind_eq_ok.mpr ⟨s₁, hs₁, hs₂⟩, h₂⟩

omit [Crypto] in
private theorem update_stateView_epoch (L : LedgerState) (G : Governance) (epoch : Int) :
    Function.update (stateView L G) (.activityEpoch epoch) (some settledValue) =
      stateView (L.addEpoch epoch) G := by
  funext k
  cases k with
  | activityEpoch e =>
    rw [stateView, LedgerState.addEpoch, get_set]
    by_cases he : epoch = e
    · rw [if_pos he, he, update_self]
      rfl
    · rw [if_neg he, update_of_ne fun heq => he (SemanticKey.activityEpoch.inj heq).symm]
      rfl
  | _ => exact update_of_ne SemanticKey.noConfusion _ _

private theorem Represents.addEpoch (hK : KeysDistinct K) (h : Represents K G L s) {epoch : Int}
    (he : .activityEpoch epoch ∈ K) :
    ∃ s', s.set (activityEpochKey epoch) settledValue = .ok s' ∧
      Represents K G (L.addEpoch epoch) s' := by
  obtain ⟨s', hset, hcommits⟩ := h.commits.set hK he canonical_settledValue
  rw [update_stateView_epoch] at hcommits
  exact ⟨s', hset, hcommits, h.bounded⟩

omit [Crypto] in
private theorem recordWindow_addEpoch (L : LedgerState) (epoch : Int)
    (locks : Option AllocationLockContext) (rollingWindow : Bool) (total : Int) :
    (L.addEpoch epoch).recordWindow locks rollingWindow total =
      (L.recordWindow locks rollingWindow total).addEpoch epoch := by
  unfold LedgerState.recordWindow
  split <;> rfl

private theorem activity_corresponds (hK : KeysDistinct K) (h : Represents K G L s)
    (htx : tx.WellFormed) {settlement : ActivitySettlement} {pool : Address}
    (hpool : .account pool ∈ K) (htime : .account activityWindowTimeAddress ∈ K)
    (hamount : .account activityWindowAmountAddress ∈ K)
    (hepoch : .activityEpoch settlement.epoch ∈ K)
    (hnext : .activityEpoch (settlement.epoch + 1) ∈ K)
    (hentries : ∀ entry ∈ settlement.entries, .account entry.receiver ∈ K ∧ 0 ≤ entry.amountAtoms)
    (locks : Option AllocationLockContext) (rollingWindow : Bool) (capAtoms : Int) :
    Corresponds balanceOverflow (Represents K G) (L.applyActivity tx settlement pool locks rollingWindow capAtoms)
      (applyActivityStateV2 s tx settlement pool locks rollingWindow capAtoms) := by
  rw [LedgerState.applyActivity, applyActivityStateV2, h.balance hpool]
  refine (corresponds_self _).unit_bind fun _ => (corresponds_self _).unit_bind fun _ =>
    (corresponds_self _).unit_bind fun _ => (epochOpen_corresponds h hepoch _).unit_bind fun _ =>
    (epochOpen_corresponds h hnext _).unit_bind fun _ =>
    (requireNonce_corresponds h hpool tx.nonce).unit_bind fun _ =>
    (corresponds_self _).bind fun total total' heq htotal => ?_
  subst heq
  refine (rollingWindow_corresponds h htime hamount _ _ _ _ _).unit_bind fun hwindow => ?_
  rw [ok_bind]
  refine (corresponds_throwIf Iff.rfl (by decide)).unit_bind fun _ => (corresponds_self _).unit_bind fun _ => ?_
  have htotal : 0 ≤ total := by
    obtain ⟨rfl, -, -⟩ := assertActivitySettlementWithinCap_eq_ok htotal
    exact payout_nonneg fun entry he => (hentries entry he).2
  refine (debit_corresponds hK h hpool htotal).bind fun L₁ s₁ h₁ _ =>
    (creditEntries_corresponds hK h₁ hentries).bind fun L₂ s₂ h₂ _ => ?_
  obtain ⟨s₃, hs₃, h₃⟩ := h₂.setNonce hK hpool ⟨htx.nonce.1, by have := htx.nonce.2; omega⟩
  obtain ⟨s₄, hs₄, h₄⟩ := recordWindow_represents hK h₃ htime hamount fun time amount hrecord =>
    windowRecord_bounds hwindow hrecord
  rw [hs₃, ok_bind, hs₄, ok_bind, recordWindow_addEpoch]
  exact corresponds_set (h₄.addEpoch hK hepoch)

/-! ### Governance -/

private theorem governance_corresponds (hK : KeysDistinct K) (h : Represents K G L s)
    (htx : tx.WellFormed) (hsender : .account tx.sender ∈ K) {k : SemanticKey} (hk : k ∈ K)
    {v : JsonValue} (hv : Canonical 0 v.val) {G' : Governance}
    (hview : ∀ L, Function.update (stateView L G) k (some v) = stateView L G') :
    Corresponds balanceOverflow (Represents K G') (L.applyGovernance tx) (applyGovernanceStateV2 s tx k.text v) := by
  refine (corresponds_self _).unit_bind fun _ =>
    (requireNonce_corresponds h hsender tx.nonce).unit_bind fun _ => ?_
  obtain ⟨s₁, hs₁, h₁⟩ := h.setNonce hK hsender ⟨htx.nonce.1, by have := htx.nonce.2; omega⟩
  obtain ⟨s₂, hs₂, h₂⟩ := h₁.commits.set hK hk hv
  rw [hview] at h₂
  rw [hs₁, ok_bind, hs₂]
  exact ⟨h₂, h₁.bounded⟩

omit [Crypto] in
private theorem update_stateView_record (L : LedgerState) (G : Governance) :
    (∀ height validators, Function.update (stateView L G) (.validatorSchedule height)
        (some (validatorsValue validators)) =
      stateView L { G with validatorSchedule := G.validatorSchedule.set height validators }) ∧
    (∀ height version, Function.update (stateView L G) (.protocolSchedule height)
        (some (protocolValue version)) =
      stateView L { G with protocolSchedule := G.protocolSchedule.set height version }) ∧
    (∀ height control, Function.update (stateView L G) (.activityOracleGovernance height)
        (some (oracleValue control)) =
      stateView L { G with
        activityOracleGovernance := G.activityOracleGovernance.set height control }) := by
  refine ⟨fun height v => funext fun k => ?_, fun height v => funext fun k => ?_,
    fun height v => funext fun k => ?_⟩
  all_goals
    rw [update_apply]
    cases k <;> simp only [stateView, get_set, reduceCtorEq, if_false,
      SemanticKey.validatorSchedule.injEq, SemanticKey.protocolSchedule.injEq,
      SemanticKey.activityOracleGovernance.injEq]
    split
    · next heq => rw [if_pos heq.symm]; rfl
    · next hne => rw [if_neg (Ne.symm hne)]

/-! ### All kinds -/

/-- On the state of a ledger a transaction succeeds if and only if it succeeds on the ledger, and it
leaves the state of the new ledger and the new schedules. -/
theorem apply_corresponds (hK : KeysDistinct K) (h : Represents K G L s) (htx : tx.WellFormed)
    {pool : Address} (hkeys : ∀ k ∈ accessedKeys tx pool fee, k ∈ K)
    (locks : Option AllocationLockContext) (oracles : ActivityOracleSet) :
    Corresponds balanceOverflow (Represents K (G.record tx)) (L.apply tx pool locks oracles fee)
      (applyStateV2Transaction s tx pool locks oracles fee) := by
  have hbody := htx.body
  rw [Transaction.BodyWellFormed] at hbody
  rw [LedgerState.apply, applyStateV2Transaction, Governance.record]
  rw [accessedKeys] at hkeys
  cases heq : tx.body with
  | transfer receiver amountAtoms =>
    rw [heq] at hbody
    simp only [heq, forall_mem_cons] at hkeys
    exact (corresponds_self _).unit_bind fun _ => transfer_corresponds hK h htx
      (le_of_lt hbody.2.1.1) hbody.2.2.1.1 hkeys.1 hkeys.2.1 hkeys.2.2.1 _ _
  | activitySettlement epoch entries receiptRoot oracleApprovals attestationExpiresAtMs =>
    rw [heq] at hbody
    simp only [heq, cons_append, nil_append, forall_mem_cons] at hkeys
    obtain ⟨hpool, hepoch, hnext, htime, hamount, hentries⟩ := hkeys
    exact (corresponds_self _).unit_bind fun _ => activity_corresponds hK h htx hpool htime hamount
      hepoch hnext (fun entry he => ⟨hentries _ (mem_map_of_mem he),
        le_of_lt (hbody.2.2 entry he).2⟩) _ _ _
  | miningClaim => exact id
  | validatorUpdate =>
    simp only [heq, forall_mem_cons] at hkeys
    exact governance_corresponds hK h htx hkeys.1 hkeys.2.1 (canonical_validatorsValue _)
      fun L => (update_stateView_record L G).1 _ _
  | activityOracleGovernance =>
    simp only [heq, forall_mem_cons] at hkeys
    exact governance_corresponds hK h htx hkeys.1 hkeys.2.1 (canonical_oracleValue _)
      fun L => (update_stateView_record L G).2.2 _ _
  | protocolUpgrade =>
    rw [heq] at hbody
    simp only [heq, forall_mem_cons] at hkeys
    exact governance_corresponds hK h htx hkeys.1 hkeys.2.1 (canonical_protocolValue hbody.2.2.1)
      fun L => (update_stateView_record L G).2.1 _ _

end

end ZyronChain
