import ZyronChain.Codec

/-!
# Transactions and blocks

The records of the ledger and their JSON values.  The members of every JSON object are listed in
the order of the canonical encoding; an optional member is absent, not null, when its field is
`none`.

Source: `l1/src/types.ts`.
-/

namespace ZyronChain

/-- `MAX_SUPPLY_ATOMS`: 50,000,000 ZYN of 100,000,000 atoms each. -/
def maxSupplyAtoms : Int := 5000000000000000

abbrev Address : Type := String

structure Validator where
  address : Address
  publicKey : String
deriving DecidableEq, Repr

structure ActivityEntry where
  receiver : Address
  amountAtoms : Int
deriving DecidableEq, Repr

/-- The signature of a registered activity oracle over a settlement. -/
structure ActivityOracleApproval where
  publicKey : String
  signature : String
deriving DecidableEq, Repr

/-- A vote of a validator: a governance approval, an attestation, a prepare or a commit vote. -/
structure Vote where
  validator : Address
  publicKey : String
  signature : String
deriving DecidableEq, Repr

structure ValidatorPossessionProof where
  address : Address
  signature : String
deriving DecidableEq, Repr

inductive ActivityOracleGovernanceAction where
  | pause
  | resume
  | revoke
deriving DecidableEq, Repr

/-- The fields that depend on the kind of a transaction. -/
inductive TransactionBody where
  | transfer (receiver : Address) (amountAtoms : Int)
  | activitySettlement (epoch : Int) (entries : List ActivityEntry) (receiptRoot : String)
      (oracleApprovals : Option (List ActivityOracleApproval))
      (attestationExpiresAtMs : Option Int)
  | miningClaim (height : Int) (previousHash : String) (rewardAtoms : Int) (workNonce : String)
  | validatorUpdate (activationHeight : Int) (validators : List Validator) (approvals : List Vote)
      (possessionProofs : Option (List ValidatorPossessionProof))
  | activityOracleGovernance (activationHeight : Int) (action : ActivityOracleGovernanceAction)
      (publicKeys : List String) (approvals : List Vote)
  | protocolUpgrade (activationHeight : Int) (protocolVersion : Int) (approvals : List Vote)
deriving DecidableEq, Repr

structure Transaction where
  body : TransactionBody
  version : Int
  chainId : String
  nonce : Int
  sender : Address
  feeAtoms : Int
  timestampMs : Int
  publicKey : String
  signature : String
  txid : String
deriving DecidableEq, Repr

def Transaction.isTransfer (tx : Transaction) : Bool := match tx.body with
  | .transfer .. => true
  | _ => false

def Transaction.isMiningClaim (tx : Transaction) : Bool := match tx.body with
  | .miningClaim .. => true
  | _ => false

def Transaction.isValidatorUpdate (tx : Transaction) : Bool := match tx.body with
  | .validatorUpdate .. => true
  | _ => false

structure BlockHeader where
  version : Int
  chainId : String
  height : Int
  round : Int
  previousHash : String
  timestampMs : Int
  transactionRoot : String
  stateRoot : String
  /-- An address, or `GENESIS`. -/
  proposer : String
deriving DecidableEq, Repr

structure RoundSkipVote where
  validator : Address
  publicKey : String
  chainId : String
  height : Int
  round : Int
  previousHash : String
  signature : String
deriving DecidableEq, Repr

structure Block where
  header : BlockHeader
  transactions : List Transaction
  hash : String
  proposerPublicKey : Option String
  signature : Option String
  roundCertificate : List RoundSkipVote
  attestations : List Vote
  /-- Absent before protocol v6, null on a v6 proposal, the commit round on a final v6 block. -/
  commitRound : Option (Option Int)
deriving DecidableEq, Repr

/-! ### JSON values -/

def optionalMember (name : String) : Option Json → List (String × Json)
  | none => []
  | some v => [(name, v)]

def nullable : Option String → Json
  | none => .null
  | some s => .str s

def Validator.toJson (v : Validator) : Json :=
  .obj [("address", .str v.address), ("publicKey", .str v.publicKey)]

def ActivityEntry.toJson (e : ActivityEntry) : Json :=
  .obj [("amountAtoms", .num e.amountAtoms), ("receiver", .str e.receiver)]

def ActivityOracleApproval.toJson (a : ActivityOracleApproval) : Json :=
  .obj [("publicKey", .str a.publicKey), ("signature", .str a.signature)]

def Vote.toJson (v : Vote) : Json :=
  .obj [("publicKey", .str v.publicKey), ("signature", .str v.signature),
    ("validator", .str v.validator)]

def ValidatorPossessionProof.toJson (p : ValidatorPossessionProof) : Json :=
  .obj [("address", .str p.address), ("signature", .str p.signature)]

def ActivityOracleGovernanceAction.name : ActivityOracleGovernanceAction → String
  | .pause => "pause"
  | .resume => "resume"
  | .revoke => "revoke"

/-- The `kind` of a transaction. -/
def TransactionBody.kind : TransactionBody → String
  | .transfer .. => "transfer"
  | .activitySettlement .. => "activity_settlement"
  | .miningClaim .. => "mining_claim"
  | .validatorUpdate .. => "validator_update"
  | .activityOracleGovernance .. => "activity_oracle_governance"
  | .protocolUpgrade .. => "protocol_upgrade"

def Transaction.members (tx : Transaction) : List (String × Json) :=
  let kind := ("kind", Json.str tx.body.kind)
  let chainId := ("chainId", Json.str tx.chainId)
  let feeAtoms := ("feeAtoms", Json.num tx.feeAtoms)
  let nonce := ("nonce", Json.num tx.nonce)
  let publicKey := ("publicKey", Json.str tx.publicKey)
  let sender := ("sender", Json.str tx.sender)
  let signature := ("signature", Json.str tx.signature)
  let timestampMs := ("timestampMs", Json.num tx.timestampMs)
  let txid := ("txid", Json.str tx.txid)
  let version := ("version", Json.num tx.version)
  match tx.body with
  | .transfer receiver amountAtoms =>
    [("amountAtoms", .num amountAtoms), chainId, feeAtoms, kind, nonce, publicKey,
      ("receiver", .str receiver), sender, signature, timestampMs, txid, version]
  | .activitySettlement epoch entries receiptRoot oracleApprovals attestationExpiresAtMs =>
    optionalMember "attestationExpiresAtMs" (attestationExpiresAtMs.map .num) ++
      [chainId, ("entries", .arr (entries.map ActivityEntry.toJson)), ("epoch", .num epoch),
        feeAtoms, kind, nonce] ++
      optionalMember "oracleApprovals"
        (oracleApprovals.map fun as => .arr (as.map ActivityOracleApproval.toJson)) ++
      [publicKey, ("receiptRoot", .str receiptRoot), sender, signature, timestampMs, txid, version]
  | .miningClaim height previousHash rewardAtoms workNonce =>
    [chainId, feeAtoms, ("height", .num height), kind, nonce, ("previousHash", .str previousHash),
      publicKey, ("rewardAtoms", .num rewardAtoms), sender, signature, timestampMs, txid, version,
      ("workNonce", .str workNonce)]
  | .validatorUpdate activationHeight validators approvals possessionProofs =>
    [("activationHeight", .num activationHeight), ("approvals", .arr (approvals.map Vote.toJson)),
      chainId, feeAtoms, kind, nonce] ++
      optionalMember "possessionProofs"
        (possessionProofs.map fun ps => .arr (ps.map ValidatorPossessionProof.toJson)) ++
      [publicKey, sender, signature, timestampMs, txid,
        ("validators", .arr (validators.map Validator.toJson)), version]
  | .activityOracleGovernance activationHeight action publicKeys approvals =>
    [("action", .str action.name), ("activationHeight", .num activationHeight),
      ("approvals", .arr (approvals.map Vote.toJson)), chainId, feeAtoms, kind, nonce, publicKey,
      ("publicKeys", .arr (publicKeys.map .str)), sender, signature, timestampMs, txid, version]
  | .protocolUpgrade activationHeight protocolVersion approvals =>
    [("activationHeight", .num activationHeight), ("approvals", .arr (approvals.map Vote.toJson)),
      chainId, feeAtoms, kind, nonce, ("protocolVersion", .num protocolVersion), publicKey, sender,
      signature, timestampMs, txid, version]

def Transaction.toJson (tx : Transaction) : Json := .obj tx.members

/-- `signedPayload`: everything but the transaction ID. -/
def Transaction.signedPayload (tx : Transaction) : Json :=
  .obj (tx.members.filter fun m => m.1 ≠ "txid")

/-- `txSigningPayload`: everything but the signature and the transaction ID. -/
def Transaction.txSigningPayload (tx : Transaction) : Json :=
  .obj (tx.members.filter fun m => m.1 ≠ "signature" ∧ m.1 ≠ "txid")

def BlockHeader.toJson (h : BlockHeader) : Json :=
  .obj [("chainId", .str h.chainId), ("height", .num h.height),
    ("previousHash", .str h.previousHash), ("proposer", .str h.proposer), ("round", .num h.round),
    ("stateRoot", .str h.stateRoot), ("timestampMs", .num h.timestampMs),
    ("transactionRoot", .str h.transactionRoot), ("version", .num h.version)]

def RoundSkipVote.toJson (v : RoundSkipVote) : Json :=
  .obj [("chainId", .str v.chainId), ("height", .num v.height),
    ("previousHash", .str v.previousHash), ("publicKey", .str v.publicKey), ("round", .num v.round),
    ("signature", .str v.signature), ("validator", .str v.validator)]

/-- The commit round of a block: absent, null or a number. -/
def Block.commitRoundJson (b : Block) : Option Json :=
  b.commitRound.map fun round =>
    match round with
    | none => .null
    | some r => .num r

def Block.toJson (b : Block) : Json :=
  .obj ([("attestations", .arr (b.attestations.map Vote.toJson))] ++
    optionalMember "commitRound" b.commitRoundJson ++
    [("hash", .str b.hash), ("header", b.header.toJson),
      ("proposerPublicKey", nullable b.proposerPublicKey),
      ("roundCertificate", .arr (b.roundCertificate.map RoundSkipVote.toJson)),
      ("signature", nullable b.signature),
      ("transactions", .arr (b.transactions.map Transaction.toJson))])

end ZyronChain
