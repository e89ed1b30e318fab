import ZyronChain.Lib.JsMap
import ZyronChain.Transaction

/-!
# Blocks: structure, proposers and legacy certificates

Source: `l1/src/block.ts`, except the envelope of a block in the chain, and the protocol versions of
`l1/src/chain.ts` and `l1/src/consensus-v6.ts`.
-/

namespace ZyronChain

open Checks

/-- `MAX_VALIDATOR_COUNT`. -/
def maxValidatorCount : Nat := 100

/-- `MAX_BLOCK_TRANSACTIONS`. -/
def maxBlockTransactions : Nat := 10000

/-- `MAX_BLOCK_BYTES`. -/
def maxBlockBytes : Nat := 2000000

/-! ### Protocol versions -/

/-- `CONSENSUS_V6_PROTOCOL_VERSION`. -/
def consensusV6ProtocolVersion : Int := 6

def isConsensusV6 (protocolVersion : Int) : Bool := protocolVersion == consensusV6ProtocolVersion

/-- `SUPPORTED_PROTOCOL_VERSIONS`. -/
def supportedProtocolVersions : List Int := [1, 2, 3, 5, 6]

def assertSupportedProtocolVersion (version : Int) : Except String Unit :=
  throwIf (version ∉ supportedProtocolVersions)
    s!"Protocol version {version} is not supported by this binary"

/-! ### Validator sets -/

/-- `Math.floor((validatorCount * 2) / 3) + 1`. -/
def quorumSize (validatorCount : Nat) : Nat := validatorCount * 2 / 3 + 1

def validatorQuorumSize (validatorCount : Nat) : Except String Nat := do
  throwIf (validatorCount < 1) "Invalid validator count"
  .ok (quorumSize validatorCount)

/-- The count of a certificate against the quorum of its validator set. -/
def assertQuorum (votes validators : Nat) (label : String) : Except String Unit := do
  let quorum ← validatorQuorumSize validators
  throwIf (votes < quorum) s!"{label} quorum not reached: {votes}/{quorum}"

theorem assertQuorum_eq_ok {votes validators : Nat} {label : String} :
    assertQuorum votes validators label = .ok () ↔ 1 ≤ validators ∧ quorumSize validators ≤ votes := by
  rw [assertQuorum, validatorQuorumSize, bind_eq_ok]
  constructor
  · rintro ⟨quorum, hq, hvotes⟩
    rw [throwIf_bind_eq_ok, Except.ok.injEq] at hq
    rw [throwIf_eq_ok, not_lt] at hvotes
    rw [hq.2]
    exact ⟨not_lt.mp hq.1, hvotes⟩
  · rintro ⟨hn, hvotes⟩
    exact ⟨_, throwIf_bind_eq_ok.mpr ⟨not_lt.mpr hn, rfl⟩, throwIf_of_not (not_lt.mpr hvotes)⟩

def expectedValidator (validators : List Validator) (height round : Int) :
    Except String Validator := do
  throwIf (validators.length = 0) "Validator set is empty"
  throwIf (¬ IsSafeInteger height ∨ height < 1 ∨ ¬ IsSafeInteger round ∨ round < 0)
    "Invalid proposer height or round"
  let n : Int := validators.length
  let index := ((height - 1) % n + round % n) % n
  match validators[index.toNat]? with
  | some v => .ok v
  | none => .error "Validator set is empty"

variable {validators : List Validator} {block : Block}

theorem mem_of_expectedValidator {height round : Int} {v : Validator}
    (h : expectedValidator validators height round = .ok v) : v ∈ validators := by
  rw [expectedValidator, throwIf_bind_eq_ok, throwIf_bind_eq_ok] at h
  obtain ⟨-, -, h⟩ := h
  dsimp only at h
  split at h
  · next w hw =>
    rw [Except.ok.injEq] at h
    exact h ▸ List.mem_of_getElem? hw
  · cases h

/-- `new Map(validators.map((validator) => [validator.address, validator.publicKey]))`. -/
def memberMap (validators : List Validator) : JsMap Address String :=
  validators.foldl (fun m v => m.set v.address v.publicKey) .empty

theorem mem_of_memberMap_get {address : Address} {key : String}
    (h : (memberMap validators).get address = some key) : ⟨address, key⟩ ∈ validators := by
  have hfold : ∀ (vs : List Validator) (m : JsMap Address String),
      (vs.foldl (fun m v => m.set v.address v.publicKey) m).get address = some key →
        m.get address = some key ∨ ⟨address, key⟩ ∈ vs := by
    intro vs
    induction vs with
    | nil => exact fun m hm => .inl hm
    | cons v vs ih =>
      intro m hm
      rcases ih _ hm with hget | hmem
      · rw [JsMap.get_set] at hget
        split at hget
        · next heq =>
          rw [Option.some.injEq] at hget
          refine .inr (List.mem_cons.mpr (.inl ?_))
          rw [← heq, ← hget]
        · exact .inl hget
      · exact .inr (List.mem_cons_of_mem v hmem)
  rcases hfold validators .empty h with hempty | hmem
  · cases hempty
  · exact hmem

/-! ### Hashes and payloads -/

def roundSkipPayload (vote : RoundSkipVote) : Json :=
  .obj [("chainId", .str vote.chainId), ("height", .num vote.height),
    ("previousHash", .str vote.previousHash), ("publicKey", .str vote.publicKey),
    ("round", .num vote.round), ("validator", .str vote.validator)]

def attestationPayload (block : Block) : Json :=
  .obj [("blockHash", .str block.hash), ("chainId", .str block.header.chainId),
    ("height", .num block.header.height)]

def blockProposalDomain : String := "zyronchain/block-proposal/v1"

def roundSkipDomain : String := "zyronchain/round-skip/v1"

def finalityAttestationDomain : String := "zyronchain/finality-attestation/v1"

def assertExplicitProtocolVersion (protocolVersion : Int) : Except String Unit :=
  throwIf (¬ IsSafeInteger protocolVersion ∨ protocolVersion < 1)
    "Round skip verification requires an explicit protocol version"

/-! ### Structure -/

/-- The commit round that the structure of a block allows. -/
def CommitRoundFits (block : Block) : Prop :=
  ∀ round, block.commitRound = some (some round) →
    IsSafeInteger round ∧ 0 ≤ round ∧ round ≤ v6MaxRound

instance (block : Block) : Decidable (CommitRoundFits block) := match h : block.commitRound with
  | some (some round) =>
    decidable_of_iff (IsSafeInteger round ∧ 0 ≤ round ∧ round ≤ v6MaxRound)
      ⟨fun hfit r hr => by
        rw [h, Option.some.injEq, Option.some.injEq] at hr
        exact hr ▸ hfit, fun hfit => hfit round h⟩
  | some none => .isTrue fun r hr => by rw [h] at hr; cases hr
  | none => .isTrue fun r hr => by rw [h] at hr; cases hr

/-- The key set of a block: only protocol v6 blocks have a commit round. -/
def assertCommitRoundKey (block : Block) : Except String Unit :=
  if block.header.version = consensusV6ProtocolVersion then do
    throwIf (block.commitRound = none) "Invalid block fields"
    throwIf (¬ CommitRoundFits block) "Invalid block commitRound"
  else throwIf (block.commitRound ≠ none) "Invalid block fields"

/-- The checks of the header in `validateBlockStructure`. -/
def validateHeaderStructure (block : Block) : Except String Unit := do
  let header := block.header
  throwIf (¬ IsSafeInteger header.version ∨ header.version < 1 ∨ header.version > 65535)
    "Invalid block header"
  throwIf (¬ IsSafeInteger header.height ∨ header.height < 0) "Invalid block height"
  throwIf (¬ IsSafeInteger header.round ∨ header.round < 0) "Invalid block round"
  throwIf (¬ IsSafeInteger header.timestampMs) "Invalid block timestampMs"
  assertHex header.previousHash 32 "previousHash"
  assertHex header.transactionRoot 32 "transactionRoot"
  assertHex header.stateRoot 32 "stateRoot"
  assertHex block.hash 32 "hash"
  throwIf (header.proposer ≠ "GENESIS" ∧ ¬ IsAddress header.proposer) "Invalid address"

def validateAttestationFormat (a : Vote) : Except String Unit := do
  assertAddress a.validator
  assertHex a.publicKey 64 "attestation publicKey"
  assertHex a.signature 64 "attestation signature"

/-- The format of an entry of a round certificate. -/
def validateSkipVoteFormat (v : RoundSkipVote) : Except String Unit := do
  assertAddress v.validator
  throwIf (¬ IsSafeInteger v.height ∨ ¬ IsSafeInteger v.round ∨ v.height < 1 ∨ v.round < 0)
    "Invalid round skip vote"
  assertHex v.publicKey 64 "round skip publicKey"
  assertHex v.previousHash 32 "round skip previousHash"
  assertHex v.signature 64 "round skip signature"

/-- The canonical byte limit of a block. -/
def assertBlockBytes (block : Block) : Except String Unit := do
  let text ← canonicalJson block.toJson
  throwIf (byteLength text > maxBlockBytes) "Block exceeds byte limit"

theorem assertBlockBytes_eq_ok :
    assertBlockBytes block = .ok () ↔
      Canonical 0 block.toJson ∧ block.toJson.size ≤ maxBlockBytes := by
  rw [assertBlockBytes, bind_eq_ok]
  constructor
  · rintro ⟨text, htext, hsize⟩
    obtain ⟨hcanonical, rfl⟩ := canonicalJson_eq_ok_iff.mp htext
    rw [throwIf_eq_ok, not_lt, byteLength_canonicalText] at hsize
    exact ⟨hcanonical, hsize⟩
  · rintro ⟨hcanonical, hsize⟩
    refine ⟨_, canonicalJson_eq_ok_iff.mpr ⟨hcanonical, rfl⟩, throwIf_of_not ?_⟩
    rw [not_lt, byteLength_canonicalText]
    exact hsize

theorem assertBlockBytes_of_sizeBound (hcanonical : assertCanonical 0 block.toJson = .ok ())
    (hsize : block.toJson.sizeBound ≤ maxBlockBytes) : assertBlockBytes block = .ok () :=
  assertBlockBytes_eq_ok.mpr ⟨(assertCanonical_eq_ok 0 _).mp hcanonical,
    (Json.size_le_sizeBound _).trans hsize⟩

def validateBlockStructure (block : Block) : Except String Unit := do
  assertCommitRoundKey block
  validateHeaderStructure block
  throwIf (block.transactions.length > maxBlockTransactions) "Too many transactions"
  throwIf (block.attestations.length > maxValidatorCount) "Too many block attestations"
  throwIf (block.roundCertificate.length > maxValidatorCount) "Too many round certificate entries"
  assertBlockBytes block
  forEach validateAttestationFormat block.attestations
  forEach validateSkipVoteFormat block.roundCertificate

theorem height_of_validateBlockStructure (h : validateBlockStructure block = .ok ()) :
    IsSafeInteger block.header.height ∧ 0 ≤ block.header.height := by
  rw [validateBlockStructure] at h
  obtain ⟨_, -, h⟩ := bind_eq_ok.mp h
  obtain ⟨_, hheader, -⟩ := bind_eq_ok.mp h
  rw [validateHeaderStructure, throwIf_bind_eq_ok, throwIf_bind_eq_ok] at hheader
  obtain ⟨-, hheight, -⟩ := hheader
  rw [not_or, not_not, not_lt] at hheight
  exact hheight

section

variable [Crypto]

def blockHash (header : BlockHeader) : String := sha256Hex (canonicalText header.toJson)

def validateBlockTransactions (block : Block) : Except String Unit :=
  forEach (fun tx => validateTransactionShape tx none) block.transactions

/-! ### Certificates before protocol v6 -/

def validateRoundSkipVote (vote : RoundSkipVote) (members : JsMap Address String) (chainId : String)
    (height round : Int) (previousHash : String) (protocolVersion : Int) : Except String Unit := do
  assertExplicitProtocolVersion protocolVersion
  throwIf (¬ IsSafeInteger vote.height ∨ ¬ IsSafeInteger vote.round) "Invalid round skip vote"
  assertAddress vote.validator
  assertHex vote.publicKey 64 "round skip publicKey"
  assertHex vote.previousHash 32 "round skip previousHash"
  assertHex vote.signature 64 "round skip signature"
  throwIf (members.get vote.validator ≠ some vote.publicKey) "Unknown round skip voter"
  throwIf (vote.chainId ≠ chainId ∨ vote.height ≠ height ∨ vote.round ≠ round ∨
    vote.previousHash ≠ previousHash) "Round skip vote does not match proposal"
  throwIf (¬ verifyForProtocol protocolVersion roundSkipDomain (roundSkipPayload vote)
    vote.signature vote.publicKey = true) "Invalid round skip signature"

def validateRoundSkipQuorum (votes : List RoundSkipVote) (validators : List Validator)
    (chainId : String) (height round : Int) (previousHash : String) (protocolVersion : Int) :
    Except String Unit := do
  assertExplicitProtocolVersion protocolVersion
  throwIf (votes.length > validators.length) "Round skip certificate exceeds active validator set"
  forDistinct RoundSkipVote.validator "Duplicate round skip vote" (fun _ => .ok ())
    (fun vote => validateRoundSkipVote vote (memberMap validators) chainId height round previousHash
      protocolVersion) [] votes
  assertQuorum votes.length validators.length "Round skip"

def validateRoundCertificate (block : Block) (validators : List Validator) : Except String Unit :=
  if block.header.round = 0 then
    throwIf (block.roundCertificate.length ≠ 0) "Round 0 must not contain a skip certificate"
  else
    validateRoundSkipQuorum block.roundCertificate validators block.header.chainId
      block.header.height (block.header.round - 1) block.header.previousHash block.header.version

def validateBlockAttestation (block : Block) (attestation : Vote) (members : JsMap Address String) :
    Except String Unit := do
  validateAttestationFormat attestation
  throwIf (members.get attestation.validator ≠ some attestation.publicKey)
    "Unknown validator attestation"
  throwIf (¬ verifyForProtocol block.header.version finalityAttestationDomain
    (attestationPayload block) attestation.signature attestation.publicKey = true)
    "Invalid validator attestation"

def validateAttestationQuorum (block : Block) (validators : List Validator) :
    Except String Unit := do
  throwIf (block.attestations.length > validators.length)
    "Finality certificate exceeds active validator set"
  forDistinct Vote.validator "Duplicate validator attestation" (fun _ => .ok ())
    (fun attestation => validateBlockAttestation block attestation (memberMap validators)) []
    block.attestations
  assertQuorum block.attestations.length validators.length "Finality"

/-! ### What acceptance means -/

/-- Skip votes of a quorum of distinct members of a validator set for one round. -/
structure SkipQuorum (votes : List RoundSkipVote) (validators : List Validator) (chainId : String)
    (height round : Int) (previousHash : String) (protocolVersion : Int) : Prop where
  distinct : (votes.map RoundSkipVote.validator).Nodup
  quorum : quorumSize validators.length ≤ votes.length
  member : ∀ v ∈ votes, ⟨v.validator, v.publicKey⟩ ∈ validators
  target : ∀ v ∈ votes, v.chainId = chainId ∧ v.height = height ∧ v.round = round ∧
    v.previousHash = previousHash
  signed : ∀ v ∈ votes, verifyForProtocol protocolVersion roundSkipDomain (roundSkipPayload v)
    v.signature v.publicKey = true

theorem validateRoundSkipQuorum_eq_ok {votes : List RoundSkipVote} {validators : List Validator}
    {chainId : String} {height round : Int} {previousHash : String} {protocolVersion : Int}
    (h : validateRoundSkipQuorum votes validators chainId height round previousHash
      protocolVersion = .ok ()) :
    SkipQuorum votes validators chainId height round previousHash protocolVersion := by
  rw [validateRoundSkipQuorum] at h
  obtain ⟨_, -, h⟩ := bind_eq_ok.mp h
  rw [throwIf_bind_eq_ok] at h
  obtain ⟨_, hvotes, hquorum⟩ := bind_eq_ok.mp h.2
  obtain ⟨hdistinct, -, hvotes⟩ := forDistinct_eq_ok.mp hvotes
  have hvote : ∀ v ∈ votes, (memberMap validators).get v.validator = some v.publicKey ∧
      (v.chainId = chainId ∧ v.height = height ∧ v.round = round ∧ v.previousHash = previousHash) ∧
      verifyForProtocol protocolVersion roundSkipDomain (roundSkipPayload v) v.signature
        v.publicKey = true := by
    intro v hv
    have hcheck := (hvotes v hv).2
    rw [validateRoundSkipVote] at hcheck
    obtain ⟨_, -, hcheck⟩ := bind_eq_ok.mp hcheck
    rw [throwIf_bind_eq_ok] at hcheck
    obtain ⟨_, -, hcheck⟩ := bind_eq_ok.mp hcheck.2
    obtain ⟨_, -, hcheck⟩ := bind_eq_ok.mp hcheck
    obtain ⟨_, -, hcheck⟩ := bind_eq_ok.mp hcheck
    obtain ⟨_, -, hcheck⟩ := bind_eq_ok.mp hcheck
    simp only [throwIf_bind_eq_ok, throwIf_eq_ok, not_or, ne_eq, not_not] at hcheck
    exact hcheck
  exact ⟨hdistinct, (assertQuorum_eq_ok.mp hquorum).2,
    fun v hv => mem_of_memberMap_get (hvote v hv).1, fun v hv => (hvote v hv).2.1,
    fun v hv => (hvote v hv).2.2⟩

/-- Attestations of a block by a quorum of distinct members of a validator set. -/
structure AttestationQuorum (block : Block) (validators : List Validator) : Prop where
  distinct : (block.attestations.map Vote.validator).Nodup
  quorum : quorumSize validators.length ≤ block.attestations.length
  member : ∀ v ∈ block.attestations, ⟨v.validator, v.publicKey⟩ ∈ validators
  signed : ∀ v ∈ block.attestations, verifyForProtocol block.header.version
    finalityAttestationDomain (attestationPayload block) v.signature v.publicKey = true

theorem validateAttestationQuorum_eq_ok {block : Block} {validators : List Validator}
    (h : validateAttestationQuorum block validators = .ok ()) :
    AttestationQuorum block validators := by
  rw [validateAttestationQuorum, throwIf_bind_eq_ok] at h
  obtain ⟨_, hvotes, hquorum⟩ := bind_eq_ok.mp h.2
  obtain ⟨hdistinct, -, hvotes⟩ := forDistinct_eq_ok.mp hvotes
  have hvote : ∀ v ∈ block.attestations, (memberMap validators).get v.validator = some v.publicKey ∧
      verifyForProtocol block.header.version finalityAttestationDomain (attestationPayload block)
        v.signature v.publicKey = true := by
    intro v hv
    have hcheck := (hvotes v hv).2
    rw [validateBlockAttestation] at hcheck
    obtain ⟨_, -, hcheck⟩ := bind_eq_ok.mp hcheck
    simp only [throwIf_bind_eq_ok, throwIf_eq_ok, ne_eq, not_not] at hcheck
    exact hcheck
  exact ⟨hdistinct, (assertQuorum_eq_ok.mp hquorum).2,
    fun v hv => mem_of_memberMap_get (hvote v hv).1, fun v hv => (hvote v hv).2⟩

end

end ZyronChain
