import ZyronChain.Chain.Schedule

/-!
# Authorization of governance transactions

A validator update, an oracle action and a protocol upgrade each need an activation height far enough
ahead, later than the last one scheduled, and the approvals of a quorum of the current validators.

Source: `l1/src/chain.ts` (`validateValidatorUpdateAuthorization` and its siblings),
`l1/src/validator-admission.ts` (`assertValidatorUpdatePossessionProofs`).
-/

namespace ZyronChain

open Checks

/-- `MIN_VALIDATOR_UPDATE_DELAY` and `MIN_PROTOCOL_UPDATE_DELAY`. -/
def minUpdateDelay : Int := 100

structure ValidatorUpdateAdmissionContext where
  optedIn : Bool
  chainId : String
  genesisHash : String
  replacedValidators : List Validator
deriving DecidableEq, Repr

/-- The address and the key of a validator in one string. -/
def Validator.admissionKey (v : Validator) : String := v.address ++ ":" ++ v.publicKey

/-- The validators of an update that the replaced set does not have. -/
def incomingValidators (validators replaced : List Validator) : List Validator :=
  validators.filter fun v => v.admissionKey ∉ replaced.map Validator.admissionKey

def assertNoProtocolDowngradeFromV6 (scheduledVersion nextVersion : Int) (error : String) :
    Except String Unit :=
  throwIf (scheduledVersion ≥ consensusV6ProtocolVersion ∧ nextVersion < scheduledVersion) error

def setSizeMessage (minimumValidators : Nat) (loose : String) : String :=
  validatorCountMessage minimumValidators
    ("fixed-supply-v1, public-launch, value-bearing, and mainnet chains require at least 4 and at " ++
      "most 100 distinct validators") loose

section

variable [Crypto]

/-- The approvals of a governance transaction.  The three kinds differ in their messages only, which
name the kind with a capital letter (`Subject`) or without (`subject`). -/
def validateApprovalQuorum (tx : Transaction) (approvals : List Vote)
    (currentValidators : List Validator) (Subject subject : String) : Except String Unit := do
  let allowed := memberMap currentValidators
  throwIf (allowed.get tx.sender = none) s!"{Subject} initiator is not active"
  forDistinct Vote.validator s!"Duplicate {subject} approval" (fun _ => .ok ()) (fun approval => do
    throwIf (allowed.get approval.validator ≠ some approval.publicKey) s!"Unknown {subject} approver"
    throwIf (¬ verifyApprovalSignature tx approval = true) s!"Invalid {subject} approval") []
    approvals
  let quorum := quorumSize currentValidators.length
  throwIf (approvals.length < quorum)
    s!"{Subject} quorum not reached: {approvals.length}/{quorum}"

def validateValidatorUpdateQuorum (tx : Transaction) (activationHeight : Int)
    (validators : List Validator) (approvals : List Vote) (currentValidators : List Validator)
    (blockHeight lastActivationHeight : Int) (minimumValidators : Nat) : Except String Unit := do
  throwIf (validators.length < minimumValidators ∨ validators.length > maxValidatorCount)
    (setSizeMessage minimumValidators "Invalid validator set size")
  throwIf (activationHeight < blockHeight + minUpdateDelay) "Validator update activation is too soon"
  throwIf (activationHeight ≤ lastActivationHeight) "Validator activation height must increase"
  validateApprovalQuorum tx approvals currentValidators "Validator update" "validator update"

def possessionProofsRequired : String :=
  "Validator update requires possessionProofs (one possession proof per incoming validator) under " ++
    "validatorAdmission"

def assertValidatorUpdatePossessionProofs (activationHeight : Int) (validators : List Validator)
    (possessionProofs : Option (List ValidatorPossessionProof))
    (context : ValidatorUpdateAdmissionContext) : Except String Unit :=
  if context.optedIn = false then
    throwIf (possessionProofs ≠ none)
      "Validator update possessionProofs require validatorAdmission in the genesis"
  else
    match possessionProofs with
    | none => .error possessionProofsRequired
    | some proofs => do
      let incoming := incomingValidators validators context.replacedValidators
      throwIf (proofs.length ≠ incoming.length)
        "Validator update requires exactly one possession proof per incoming validator"
      validatePossessionProofs context.chainId context.genesisHash activationHeight
        "Validator possession proof does not match the incoming validator order"
        "Invalid validator possession proof for" (proofs.zip incoming)

def validateValidatorUpdateAuthorization (tx : Transaction) (activationHeight : Int)
    (validators : List Validator) (approvals : List Vote)
    (possessionProofs : Option (List ValidatorPossessionProof)) (currentValidators : List Validator)
    (blockHeight lastActivationHeight : Int) (minimumValidators : Nat)
    (admission : ValidatorUpdateAdmissionContext) : Except String Unit := do
  validateValidatorUpdateQuorum tx activationHeight validators approvals currentValidators
    blockHeight lastActivationHeight minimumValidators
  assertValidatorUpdatePossessionProofs activationHeight validators possessionProofs admission

/-- A pause needs settlements that are not paused, a resume needs paused ones. -/
def assertPauseAlternates (action : ActivityOracleGovernanceAction) (pauseScheduled : Bool) :
    Except String Unit :=
  match action with
  | .pause => throwIf (pauseScheduled = true) activityOraclePaused
  | .resume => throwIf (¬ pauseScheduled = true) "Activity oracle settlements are not paused"
  | .revoke => .ok ()

def validateActivityOracleGovernanceAuthorization (tx : Transaction) (activationHeight : Int)
    (action : ActivityOracleGovernanceAction) (publicKeys : List String) (approvals : List Vote)
    (currentValidators : List Validator) (blockHeight lastActivationHeight : Int)
    (activityOracles alreadyRevoked : List String) (pauseScheduled : Bool) :
    Except String Unit := do
  throwIf (activationHeight < blockHeight + minUpdateDelay)
    "Activity oracle governance activation is too soon"
  throwIf (activationHeight ≤ lastActivationHeight)
    "Activity oracle governance activation height must increase"
  assertPauseAlternates action pauseScheduled
  activityOracleGovernancePublicKeysValid action publicKeys activityOracles alreadyRevoked
  validateApprovalQuorum tx approvals currentValidators "Activity oracle governance"
    "activity oracle governance"

def validateProtocolUpgradeAuthorization (tx : Transaction) (activationHeight protocolVersion : Int)
    (approvals : List Vote) (currentValidators : List Validator)
    (blockHeight lastActivationHeight lastScheduledVersion : Int) : Except String Unit := do
  throwIf (activationHeight < blockHeight + minUpdateDelay) "Protocol upgrade activation is too soon"
  throwIf (activationHeight ≤ lastActivationHeight) "Protocol activation height must increase"
  assertNoProtocolDowngradeFromV6 lastScheduledVersion protocolVersion
    (s!"Protocol downgrade refused: version {protocolVersion} after protocol " ++
      s!"v{lastScheduledVersion} is scheduled")
  validateApprovalQuorum tx approvals currentValidators "Protocol upgrade" "protocol upgrade"

end

/-! ### Cursors -/

/-- The latest entries of the schedules, with those of the block so far. -/
structure ScheduleCursors where
  lastActivation : Int
  lastScheduledValidators : List Validator
  lastProtocolActivation : Int
  lastProtocolVersion : Int
  lastOracleGovernance : Int
  /-- `scheduledRevoked` and `pauseScheduled`. -/
  oracleControl : ActivityOracleControl
deriving DecidableEq, Repr

def Governance.scheduleCursors (G : Governance) : ScheduleCursors where
  lastActivation := G.lastValidatorActivationHeight
  lastScheduledValidators := G.lastScheduledValidators
  lastProtocolActivation := G.lastProtocolActivationHeight
  lastProtocolVersion := G.lastScheduledProtocolVersion
  lastOracleGovernance := G.lastActivityOracleGovernanceHeight
  oracleControl := G.scheduledOracleControl

/-- A transaction of a block moves the cursors of its kind. -/
def ScheduleCursors.advance (cursors : ScheduleCursors) (tx : Transaction) : ScheduleCursors :=
  match tx.body with
  | .validatorUpdate activationHeight validators _ _ =>
    { cursors with lastActivation := activationHeight, lastScheduledValidators := validators }
  | .activityOracleGovernance activationHeight action publicKeys _ =>
    { cursors with
      lastOracleGovernance := activationHeight
      oracleControl := cursors.oracleControl.advance ⟨action, publicKeys⟩ }
  | .protocolUpgrade activationHeight protocolVersion _ =>
    { cursors with
      lastProtocolActivation := activationHeight
      lastProtocolVersion := protocolVersion }
  | _ => cursors

/-- The authorization of a transaction in a block, where its kind needs one. -/
def authorizeGovernance [Crypto] (g : GenesisConfig) (genesisHash : String)
    (currentValidators : List Validator) (blockHeight : Int) (cursors : ScheduleCursors)
    (tx : Transaction) : Except String Unit :=
  match tx.body with
  | .validatorUpdate activationHeight validators approvals possessionProofs =>
    validateValidatorUpdateAuthorization tx activationHeight validators approvals possessionProofs
      currentValidators blockHeight cursors.lastActivation g.minimumValidatorCount
      { optedIn := g.validatorAdmission.isSome
        chainId := g.chainId
        genesisHash := genesisHash
        replacedValidators := cursors.lastScheduledValidators }
  | .activityOracleGovernance activationHeight action publicKeys approvals =>
    validateActivityOracleGovernanceAuthorization tx activationHeight action publicKeys approvals
      currentValidators blockHeight cursors.lastOracleGovernance g.activityOracles
      cursors.oracleControl.revoked cursors.oracleControl.paused
  | .protocolUpgrade activationHeight protocolVersion approvals =>
    validateProtocolUpgradeAuthorization tx activationHeight protocolVersion approvals
      currentValidators blockHeight cursors.lastProtocolActivation cursors.lastProtocolVersion
  | _ => .ok ()

end ZyronChain
