import ZyronChain.Transaction

/-!
# Authorization of activity settlements

Source: `l1/src/activity-oracle.ts`, and the approval payloads of `l1/src/transaction.ts`.
-/

namespace ZyronChain

open Checks

/-- The fields of an activity settlement. -/
structure ActivitySettlement where
  epoch : Int
  entries : List ActivityEntry
  receiptRoot : String
  oracleApprovals : Option (List ActivityOracleApproval)
  attestationExpiresAtMs : Option Int
deriving DecidableEq, Repr

structure ActivityOracleAuthContext where
  chainId : Option String
  blockTimestampMs : Option Int
  genesisTimestampMs : Option Int
deriving DecidableEq, Repr

def activityOraclePaused : String := "Activity oracle settlements are paused"

def revokedActivityOracle : String := "Revoked activity oracle"

def unknownActivityOracle : String := "Unknown activity oracle"

def invalidActivityApproval : String := "Invalid activity oracle approval signature"

def invalidActivityApprovals : String := "Invalid activity oracle approvals"

def activityExpiryRequired : String := "Activity oracle attestation expiry is required"

/-- The message of a settlement with too few approvals. -/
def approvalsRequired (threshold : Int) : String :=
  s!"Activity settlement requires approvals from {threshold} distinct registered activity oracles"

/-- `activitySettlementApprovalPayload` and `activitySettlementApprovalPayloadV2`. -/
def activitySettlementApprovalPayload (tx : Transaction) (s : ActivitySettlement)
    (expiresAtMs : Option Int) : Json :=
  .obj ([("chainId", .str tx.chainId), ("entries", .arr (s.entries.map ActivityEntry.toJson)),
    ("epoch", .num s.epoch)] ++ optionalMember "expiresAtMs" (expiresAtMs.map .num) ++
    [("receiptRoot", .str s.receiptRoot), ("sender", .str tx.sender)])

section

variable [Crypto]

/-- `verifyActivityOracleApprovalSignature` under policy `v1`. -/
def verifyActivityOracleApprovalV1 (tx : Transaction) (s : ActivitySettlement)
    (approval : ActivityOracleApproval) : Bool :=
  verifyCanonicalDomain "zyronchain/activity-settlement-approval/v1"
    (activitySettlementApprovalPayload tx s none) approval.signature approval.publicKey

/-- `verifyActivityOracleApprovalSignature` under policy `v2`. -/
def verifyActivityOracleApprovalV2 (tx : Transaction) (s : ActivitySettlement)
    (approval : ActivityOracleApproval) : Bool :=
  match s.attestationExpiresAtMs with
  | none => false
  | some expiresAtMs =>
    decide (IsSafeInteger expiresAtMs) &&
      verifyCanonicalDomain "zyronchain/activity-settlement-approval/v2"
        (activitySettlementApprovalPayload tx s (some expiresAtMs)) approval.signature
        approval.publicKey

def activityOracleGovernancePublicKeysValid (action : ActivityOracleGovernanceAction)
    (publicKeys registered alreadyRevoked : List String) : Except String Unit :=
  if action = .revoke then do
    throwIf (publicKeys.length = 0 ∨ publicKeys.length > maxActivityOracleApprovals)
      "Invalid activity oracle revoke set"
    forDistinct id "Duplicate revoked activity oracle" (fun _ => .ok ()) (fun publicKey => do
      throwIf (publicKey ∉ registered) unknownActivityOracle
      throwIf (publicKey ∈ alreadyRevoked) revokedActivityOracle
      assertValidPublicKey publicKey "Revoked activity oracle public key") [] publicKeys
  else throwIf (publicKeys.length ≠ 0) "Activity oracle pause and resume name no keys"

/-! ### Approvals without the threshold policy -/

/-- The distinct registered approvers, the submitter included; others are ignored. -/
def countApprovers (tx : Transaction) (s : ActivitySettlement) (registered revoked : List String) :
    List ActivityOracleApproval → List String → Except String (List String)
  | [], approvers => .ok approvers
  | approval :: approvals, approvers =>
    if approval.publicKey ∉ registered ∨ approval.publicKey ∈ revoked then
      countApprovers tx s registered revoked approvals approvers
    else do
      throwIf (¬ verifyActivityOracleApprovalV1 tx s approval = true) invalidActivityApproval
      countApprovers tx s registered revoked approvals (approvers.insert approval.publicKey)

/-- The rules without policy `threshold-v1`. -/
def assertLenientlyAuthorized (tx : Transaction) (s : ActivitySettlement)
    (oracles : ActivityOracleSet) : Except String Unit := do
  throwIf (s.attestationExpiresAtMs ≠ none)
    "Activity oracle attestation expiry requires activity oracle policy threshold-v1"
  match oracles.activityOracleThreshold with
  | none =>
    throwIf (s.oracleApprovals ≠ none)
      "Activity oracle approvals require a genesis activityOracleThreshold"
  | some threshold => do
    throwIf ((s.oracleApprovals.getD []).length > maxActivityOracleApprovals)
      invalidActivityApprovals
    let approvers ← countApprovers tx s oracles.activityOracles oracles.revokedPublicKeys
      (s.oracleApprovals.getD []) [tx.publicKey]
    throwIf ((approvers.length : Int) < threshold) (approvalsRequired threshold)

/-! ### Policy `threshold-v1` -/

/-- The loop of `assertThresholdV1Authorized`; returns the approvers. -/
def strictApprovers (tx : Transaction) (s : ActivitySettlement) (registered revoked : List String) :
    List ActivityOracleApproval → List String → List String → Except String (List String)
  | [], approvers, _ => .ok approvers
  | approval :: approvals, approvers, signatures => do
    throwIf (approval.publicKey ∈ approvers ∨ approval.publicKey = tx.publicKey)
      "Duplicate activity oracle signer"
    throwIf (approval.signature ∈ signatures) "Activity oracle approval replay"
    throwIf (approval.publicKey ∈ revoked) revokedActivityOracle
    throwIf (approval.publicKey ∉ registered) unknownActivityOracle
    throwIf (¬ verifyActivityOracleApprovalV2 tx s approval = true) invalidActivityApproval
    strictApprovers tx s registered revoked approvals (approval.publicKey :: approvers)
      (approval.signature :: signatures)

/-- The expiry of an attestation lies in the epoch in which the settlement is due. -/
def assertAttestationExpiry (s : ActivitySettlement) (context : ActivityOracleAuthContext)
    (oracles : ActivityOracleSet) : Except String Unit :=
  match s.attestationExpiresAtMs, context.genesisTimestampMs.or oracles.timestampMs with
  | some expiresAtMs, some genesisTimestampMs => do
    throwIf (¬ IsSafeInteger expiresAtMs) activityExpiryRequired
    throwIf (¬ IsSafeInteger genesisTimestampMs) activityExpiryRequired
    let windowOpen := genesisTimestampMs + (s.epoch + 1) * activityEpochMs
    let windowClose := windowOpen + activityEpochMs
    throwIf (¬ IsSafeInteger windowOpen ∨ ¬ IsSafeInteger windowClose ∨
      expiresAtMs < windowOpen ∨ expiresAtMs ≥ windowClose) "Stale activity oracle attestation"
    throwIf (∃ blockTimestampMs, context.blockTimestampMs = some blockTimestampMs ∧
      blockTimestampMs > expiresAtMs) "Expired activity oracle attestation"
  | _, _ => .error activityExpiryRequired

/-- `assertThresholdV1Authorized`.  A validated genesis of this policy declares a threshold. -/
def assertThresholdV1Authorized (tx : Transaction) (s : ActivitySettlement)
    (context : ActivityOracleAuthContext) (oracles : ActivityOracleSet) : Except String Unit := do
  assertAttestationExpiry s context oracles
  throwIf ((s.oracleApprovals.getD []).length > maxActivityOracleApprovals) invalidActivityApprovals
  let approvers ← strictApprovers tx s oracles.activityOracles oracles.revokedPublicKeys
    (s.oracleApprovals.getD []) [] []
  throwIf (∃ threshold, oracles.activityOracleThreshold = some threshold ∧
    ((approvers.insert tx.publicKey).length : Int) < threshold)
    (approvalsRequired (oracles.activityOracleThreshold.getD 0))

def assertActivitySettlementAuthorized (tx : Transaction) (s : ActivitySettlement)
    (oracles : ActivityOracleSet) (context : ActivityOracleAuthContext) : Except String Unit := do
  throwIf (oracles.paused = true) activityOraclePaused
  throwIf (∃ chainId, context.chainId = some chainId ∧ tx.chainId ≠ chainId)
    "Wrong activity oracle chain ID"
  throwIf (tx.publicKey ∈ oracles.revokedPublicKeys) revokedActivityOracle
  throwIf (tx.publicKey ∉ oracles.activityOracles) "Unauthorized activity oracle"
  if oracles.activityOraclePolicy = some .thresholdV1 then
    assertThresholdV1Authorized tx s context oracles
  else assertLenientlyAuthorized tx s oracles

end

end ZyronChain
