import ZyronChain.Activity
import ZyronChain.Crypto

/-!
# Validation of a transaction on its own

Everything a transaction must satisfy whatever the state of the chain: the format of its fields,
its transaction ID and its signature.  The JSON key sets that the source checks are those of the
record types.

Source: `l1/src/transaction.ts`.
-/

namespace ZyronChain

open Checks List

/-! ### Field checks -/

/-- `/^ZYN[0-9a-f]{40}$/`. -/
def IsAddress (address : String) : Prop :=
  address.toList.take 3 = ['Z', 'Y', 'N'] ∧ (address.toList.drop 3).length = 40 ∧
    ∀ c ∈ address.toList.drop 3, isLowerHex c = true

instance (address : String) : Decidable (IsAddress address) :=
  @instDecidableAnd _ _ inferInstance
    (@instDecidableAnd _ _ inferInstance (List.decidableBAll _ _))

variable {address : String}

theorem length_toList_of_isAddress (h : IsAddress address) : address.toList.length = 43 := by
  have hlength := congrArg List.length (take_append_drop 3 address.toList)
  rw [length_append, h.1, h.2.1] at hlength
  exact hlength.symm

theorem size_str_of_isAddress (h : IsAddress address) : (Json.str address).size = 45 := by
  rw [size_str, length_toList_of_isAddress h]
  intro c hc
  rw [← take_append_drop 3 address.toList, h.1] at hc
  rcases mem_append.mp hc with hc | hc
  · rw [mem_cons, mem_cons, mem_singleton] at hc
    rcases hc with rfl | rfl | rfl <;> exact ⟨by decide, by decide⟩
  · exact isPlainChar_of_isLowerHex (h.2.2 c hc)

def assertAddress (address : String) : Except String Unit :=
  throwIf (¬ IsAddress address) "Invalid address"

@[simp] theorem assertAddress_eq_ok : assertAddress address = .ok () ↔ IsAddress address := by
  rw [assertAddress, throwIf_eq_ok, not_not]

def assertAmount (value : Int) (name : String) (allowZero : Bool) : Except String Unit := do
  throwIf (¬ IsSafeInteger value ∨ value < 0 ∨ value > maxSupplyAtoms) s!"Invalid {name}"
  throwIf (allowZero = false ∧ value = 0) s!"{name} must be positive"

theorem assertAmount_eq_ok {value : Int} {name : String} {allowZero : Bool}
    (h : assertAmount value name allowZero = .ok ()) :
    0 ≤ value ∧ value ≤ maxSupplyAtoms ∧ (allowZero = false → 0 < value) := by
  rw [assertAmount, throwIf_bind_eq_ok, throwIf_eq_ok] at h
  obtain ⟨hrange, hzero⟩ := h
  rw [not_or, not_or, not_lt, gt_iff_lt, not_lt] at hrange
  refine ⟨hrange.2.1, hrange.2.2, fun hallow => ?_⟩
  have hne : value ≠ 0 := fun heq => hzero ⟨hallow, heq⟩
  omega

/-- The size limit of the lists of validators and approvals. -/
def maxApprovals : Nat := 100

/-- `MAX_ACTIVITY_ORACLE_APPROVALS`. -/
def maxActivityOracleApprovals : Nat := 100

/-- `FIXED_FEE_MISMATCH_MESSAGE`. -/
def fixedFeeMismatch : String := "Transfer fee must equal the fixed protocol fee"

/-- `MINING_RETIRED_MESSAGE`. -/
def miningRetired : String :=
  "Mining is retired: mining_claim transactions are rejected by consensus"

section

variable [Crypto]

/-! ### Signatures -/

def TransactionBody.transactionSigningDomain : TransactionBody → String
  | .transfer .. => "zyronchain/transaction/transfer/v2"
  | .activitySettlement .. => "zyronchain/transaction/activity-settlement/v2"
  | .miningClaim .. => "zyronchain/transaction/mining-claim/v2"
  | .validatorUpdate .. => "zyronchain/transaction/validator-update/v2"
  | .activityOracleGovernance .. => "zyronchain/transaction/activity-oracle-governance/v1"
  | .protocolUpgrade .. => "zyronchain/transaction/protocol-upgrade/v2"

def verifyForTransactionVersion (version : Int) (domain : String) (payload : Json)
    (signature publicKey : String) : Bool :=
  if version = 2 then verifyCanonicalDomain domain payload signature publicKey
  else verifyCanonical payload signature publicKey

def verifyTransactionSignature (tx : Transaction) : Bool :=
  verifyForTransactionVersion tx.version tx.body.transactionSigningDomain tx.txSigningPayload
    tx.signature tx.publicKey

/-- The payload of the approvals of a governance transaction, and the domain they are signed
under. -/
def Transaction.approvalPayload (tx : Transaction) : Option (String × Json) :=
  let fields (activationHeight : Int) : List (String × Json) :=
    [("activationHeight", .num activationHeight), ("chainId", .str tx.chainId),
      ("nonce", .num tx.nonce)]
  match tx.body with
  | .validatorUpdate activationHeight validators _ _ =>
    some ("zyronchain/validator-set-approval/v1", .obj (fields activationHeight ++
      [("sender", .str tx.sender), ("validators", .arr (validators.map Validator.toJson))]))
  | .activityOracleGovernance activationHeight action publicKeys _ =>
    some ("zyronchain/activity-oracle-governance-approval/v1",
      .obj (("action", .str action.name) :: fields activationHeight ++
        [("publicKeys", .arr (publicKeys.map .str)), ("sender", .str tx.sender)]))
  | .protocolUpgrade activationHeight protocolVersion _ =>
    some ("zyronchain/protocol-upgrade-approval/v1", .obj (fields activationHeight ++
      [("protocolVersion", .num protocolVersion), ("sender", .str tx.sender)]))
  | _ => none

def governanceApprovalPayload (payload : Json) (version : Int) : Json :=
  if version = 2 then .obj [("payload", payload), ("transactionVersion", .num 2)] else payload

/-- `verifyValidatorUpdateApprovalSignature` and its two siblings. -/
def verifyApprovalSignature (tx : Transaction) (approval : Vote) : Bool :=
  match tx.approvalPayload with
  | none => false
  | some (domain, payload) =>
    verifyForTransactionVersion tx.version domain (governanceApprovalPayload payload tx.version)
      approval.signature approval.publicKey

/-! ### Shapes -/

/-- `validateValidator`, without the sets of seen keys and addresses. -/
def validateValidator (v : Validator) : Except String Unit := do
  assertAddress v.address
  assertHex v.publicKey 64 "validator publicKey"
  throwIf (addressFromPublicKey v.publicKey ≠ v.address) "Validator address/public key mismatch"
  assertValidPublicKey v.publicKey "Validator public key"

/-- The loop of `validateValidator` with its two sets. -/
def validateValidators : List Validator → List String → List Address → Except String Unit
  | [], _, _ => .ok ()
  | v :: vs, seenKeys, seenAddresses => do
    validateValidator v
    throwIf (v.publicKey ∈ seenKeys) "Duplicate validator public key"
    throwIf (v.address ∈ seenAddresses) "Duplicate validator address"
    validateValidators vs (v.publicKey :: seenKeys) (v.address :: seenAddresses)

def validateValidatorApproval (approval : Vote) : Except String Unit := do
  assertAddress approval.validator
  assertHex approval.publicKey 64 "validator approval publicKey"
  assertHex approval.signature 64 "validator approval signature"
  throwIf (addressFromPublicKey approval.publicKey ≠ approval.validator)
    "Validator approval address mismatch"

def validateValidatorPossessionProofShape (proof : ValidatorPossessionProof) :
    Except String Unit := do
  assertAddress proof.address
  assertHex proof.signature 64 "validator possession proof signature"

def validateActivityOracleApproval (approval : ActivityOracleApproval) : Except String Unit := do
  assertHex approval.publicKey 64 "activity oracle approval publicKey"
  assertHex approval.signature 64 "activity oracle approval signature"

def validateActivityEntry (entry : ActivityEntry) : Except String Unit := do
  assertAddress entry.receiver
  throwIf (entry.receiver = miningTrackerAddress) trackerReserved
  assertAmount entry.amountAtoms "activity amount" false

def validateOptional {α : Type} (check : List α → Except String Unit) :
    Option (List α) → Except String Unit
  | none => .ok ()
  | some xs => check xs

/-- The checks that governance transactions share: no fee, a positive activation height and a key
that belongs to the sender. -/
def validateGovernance (tx : Transaction) (activationHeight : Int) (fee height : String) :
    Except String Unit := do
  throwIf (tx.sender = miningTrackerAddress) trackerReserved
  throwIf (tx.feeAtoms ≠ 0) fee
  throwIf (¬ IsSafeInteger activationHeight ∨ activationHeight < 1) height

def senderMismatch : String := "Public key does not match sender"

/-- The approvals of a governance transaction. -/
def validateApprovals (approvals : List Vote) (message : String) : Except String Unit := do
  throwIf (approvals.length = 0 ∨ approvals.length > maxApprovals) message
  forEach validateValidatorApproval approvals

/-- The checks of `validateTransactionShape` that depend on the kind. -/
def validateTransactionBody (tx : Transaction) (fixedTransferFeeAtoms : Option Int) :
    Except String Unit :=
  match tx.body with
  | .transfer receiver amountAtoms => do
    assertAddress receiver
    throwIf (tx.sender = miningTrackerAddress ∨ receiver = miningTrackerAddress) trackerReserved
    assertAmount amountAtoms "amountAtoms" false
    assertAmount tx.feeAtoms "feeAtoms" true
    throwIf (∃ fee, fixedTransferFeeAtoms = some fee ∧ tx.feeAtoms ≠ fee) fixedFeeMismatch
    throwIf (addressFromPublicKey tx.publicKey ≠ tx.sender) senderMismatch
  | .activitySettlement epoch entries receiptRoot oracleApprovals attestationExpiresAtMs => do
    throwIf (tx.sender = miningTrackerAddress) trackerReserved
    throwIf (¬ IsSafeInteger epoch ∨ epoch < 0) "Invalid activity epoch"
    throwIf (tx.feeAtoms ≠ 0) "Activity settlement fee must be zero"
    assertHex receiptRoot 32 "receiptRoot"
    throwIf (entries.length = 0 ∨ entries.length > 10000) "Invalid activity settlement size"
    forEach validateActivityEntry entries
    let _ ← assertActivitySettlementWithinCap entries maxActivitySettlementAtoms
    validateOptional (fun approvals => do
      throwIf (approvals.length = 0 ∨ approvals.length > maxActivityOracleApprovals)
        "Invalid activity oracle approvals"
      forEach validateActivityOracleApproval approvals) oracleApprovals
    throwIf (∃ e, attestationExpiresAtMs = some e ∧ ¬ IsSafeInteger e)
      "Invalid activity oracle attestation expiry"
  | .miningClaim .. => .error miningRetired
  | .validatorUpdate activationHeight validators approvals possessionProofs => do
    validateGovernance tx activationHeight "Validator update fee must be zero"
      "Invalid validator activation height"
    throwIf (addressFromPublicKey tx.publicKey ≠ tx.sender) senderMismatch
    throwIf (validators.length = 0 ∨ validators.length > maxApprovals)
      "Invalid validator set size"
    validateValidators validators [] []
    validateApprovals approvals "Invalid validator approvals"
    validateOptional (fun proofs => do
      throwIf (proofs.length > maxApprovals) "Invalid validator possession proofs"
      forEach validateValidatorPossessionProofShape proofs) possessionProofs
  | .activityOracleGovernance activationHeight _ publicKeys approvals => do
    validateGovernance tx activationHeight "Activity oracle governance fee must be zero"
      "Invalid activity oracle governance activation height"
    throwIf (addressFromPublicKey tx.publicKey ≠ tx.sender) senderMismatch
    throwIf (publicKeys.length > maxActivityOracleApprovals)
      "Invalid activity oracle governance keys"
    forEach (fun key => assertHex key 64 "activity oracle governance publicKey") publicKeys
    validateApprovals approvals "Invalid activity oracle governance approvals"
  | .protocolUpgrade activationHeight protocolVersion approvals => do
    validateGovernance tx activationHeight "Protocol upgrade fee must be zero"
      "Invalid protocol activation height"
    throwIf (¬ IsSafeInteger protocolVersion ∨ protocolVersion < 1 ∨ protocolVersion > 65535)
      "Invalid protocol version"
    throwIf (addressFromPublicKey tx.publicKey ≠ tx.sender) senderMismatch
    validateApprovals approvals "Invalid protocol upgrade approvals"

/-- A mining claim is refused as soon as its keys have been checked. -/
def rejectMiningClaim (tx : Transaction) : Except String Unit := match tx.body with
  | .miningClaim .. => .error miningRetired
  | _ => .ok ()

def validateTransactionShape (tx : Transaction) (fixedTransferFeeAtoms : Option Int) :
    Except String Unit := do
  rejectMiningClaim tx
  throwIf (tx.version ≠ 1 ∧ tx.version ≠ 2) "Unsupported transaction version"
  assertAddress tx.sender
  throwIf (¬ IsSafeInteger tx.nonce ∨ tx.nonce < 1) "Invalid nonce"
  throwIf (¬ IsSafeInteger tx.timestampMs ∨ tx.timestampMs < 0) "Invalid timestamp"
  assertHex tx.publicKey 64 "publicKey"
  assertHex tx.signature 64 "signature"
  assertHex tx.txid 32 "txid"
  validateTransactionBody tx fixedTransferFeeAtoms
  throwIf (tx.txid ≠ sha256Hex (canonicalText tx.signedPayload)) "Transaction ID mismatch"
  throwIf (¬ verifyTransactionSignature tx = true) "Invalid transaction signature"

/-! ### What acceptance means -/

/-- What the kind of an accepted transaction guarantees. -/
def Transaction.BodyWellFormed (tx : Transaction) : Prop := match tx.body with
  | .transfer receiver amountAtoms =>
    IsAddress receiver ∧ (0 < amountAtoms ∧ amountAtoms ≤ maxSupplyAtoms) ∧
      (0 ≤ tx.feeAtoms ∧ tx.feeAtoms ≤ maxSupplyAtoms) ∧
      addressFromPublicKey tx.publicKey = tx.sender
  | .activitySettlement epoch entries .. =>
    (IsSafeInteger epoch ∧ 0 ≤ epoch) ∧ tx.feeAtoms = 0 ∧
      ∀ entry ∈ entries, IsAddress entry.receiver ∧ 0 < entry.amountAtoms
  | .miningClaim .. => False
  | .validatorUpdate activationHeight validators .. =>
    (IsSafeInteger activationHeight ∧ 1 ≤ activationHeight) ∧
      addressFromPublicKey tx.publicKey = tx.sender ∧ validateValidators validators [] [] = .ok ()
  | .activityOracleGovernance activationHeight _ publicKeys _ =>
    (IsSafeInteger activationHeight ∧ 1 ≤ activationHeight) ∧
      addressFromPublicKey tx.publicKey = tx.sender ∧
      publicKeys.length ≤ maxActivityOracleApprovals ∧ ∀ key ∈ publicKeys, IsHex 64 key
  | .protocolUpgrade activationHeight protocolVersion _ =>
    (IsSafeInteger activationHeight ∧ 1 ≤ activationHeight) ∧
      addressFromPublicKey tx.publicKey = tx.sender ∧
      IsSafeInteger protocolVersion ∧ 1 ≤ protocolVersion ∧ protocolVersion ≤ 65535

/-- What every accepted transaction guarantees. -/
structure Transaction.WellFormed (tx : Transaction) : Prop where
  sender : IsAddress tx.sender
  nonce : IsSafeInteger tx.nonce ∧ 1 ≤ tx.nonce
  txid : tx.txid = sha256Hex (canonicalText tx.signedPayload)
  signature : verifyTransactionSignature tx = true
  body : tx.BodyWellFormed

variable {tx : Transaction} {fixedTransferFeeAtoms : Option Int}

omit [Crypto] in
theorem validateGovernance_eq_ok {activationHeight : Int} {fee height : String}
    (h : validateGovernance tx activationHeight fee height = .ok ()) :
    IsSafeInteger activationHeight ∧ 1 ≤ activationHeight := by
  rw [validateGovernance] at h
  simp only [throwIf_bind_eq_ok, throwIf_eq_ok, not_or, not_not, not_lt] at h
  exact h.2.2

theorem validateTransactionBody_eq_ok
    (h : validateTransactionBody tx fixedTransferFeeAtoms = .ok ()) : tx.BodyWellFormed := by
  rw [validateTransactionBody] at h
  rw [Transaction.BodyWellFormed]
  split at h
  · simp only [unit_bind_eq_ok, assertAddress_eq_ok, throwIf_eq_ok, ne_eq, not_not] at h
    obtain ⟨hreceiver, -, hamount, hfee, -, hkey⟩ := h
    have hamount := assertAmount_eq_ok hamount
    have hfee := assertAmount_eq_ok hfee
    exact ⟨hreceiver, ⟨hamount.2.2 rfl, hamount.2.1⟩, ⟨hfee.1, hfee.2.1⟩, hkey⟩
  · simp only [unit_bind_eq_ok, throwIf_eq_ok, not_or, not_not, not_lt, ne_eq] at h
    obtain ⟨-, hepoch, hfee, -, -, hentries, -⟩ := h
    refine ⟨hepoch, hfee, fun entry he => ?_⟩
    have hentry := forEach_eq_ok.mp hentries entry he
    rw [validateActivityEntry, unit_bind_eq_ok, assertAddress_eq_ok, throwIf_bind_eq_ok] at hentry
    exact ⟨hentry.1, (assertAmount_eq_ok hentry.2.2).2.2 rfl⟩
  · cases h
  · simp only [unit_bind_eq_ok, throwIf_eq_ok, ne_eq, not_not] at h
    exact ⟨validateGovernance_eq_ok h.1, h.2.1, h.2.2.2.1⟩
  · simp only [unit_bind_eq_ok, throwIf_eq_ok, ne_eq, not_not, gt_iff_lt, not_lt] at h
    obtain ⟨hgovernance, hkey, hcount, hkeys, -⟩ := h
    exact ⟨validateGovernance_eq_ok hgovernance, hkey, hcount,
      fun key hk => assertHex_eq_ok.mp (forEach_eq_ok.mp hkeys key hk)⟩
  · simp only [unit_bind_eq_ok, throwIf_eq_ok, ne_eq, not_or, not_not, gt_iff_lt, not_lt] at h
    exact ⟨validateGovernance_eq_ok h.1, h.2.2.1, h.2.1⟩

/-- An accepted transaction is well formed. -/
theorem validateTransactionShape_eq_ok
    (h : validateTransactionShape tx fixedTransferFeeAtoms = .ok ()) : tx.WellFormed := by
  rw [validateTransactionShape] at h
  simp only [unit_bind_eq_ok, assertAddress_eq_ok, throwIf_eq_ok, ne_eq, not_or, not_not,
    not_lt] at h
  obtain ⟨-, -, hsender, hnonce, -, -, -, -, hbody, htxid, hsignature⟩ := h
  exact ⟨hsender, hnonce, htxid, hsignature, validateTransactionBody_eq_ok hbody⟩

end

end ZyronChain
