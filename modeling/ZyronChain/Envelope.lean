import ZyronChain.ConsensusV6.Certificates

/-!
# The envelope of a block

Everything about a block in its place in the chain that does not need the state of the ledger:
its structure, its header against the block before, its proposer and its certificates.

Source: `l1/src/block.ts` (`validateBlockEnvelope`, `validateBlockEnvelopeGates`),
`l1/src/consensus-v6.ts` (`assertV6ProposalBlockIntegrity`).
-/

namespace ZyronChain

open Checks

variable [Crypto]

/-- How far the time of a block may lie ahead of the clock. -/
def maxFutureMs : Int := 120000

/-- The signature of the proposer, where one is required. -/
def validateProposerSignature (block : Block) (proposerPublicKey : String) : Except String Unit :=
  match block.signature with
  | none => .error "Invalid proposer signature"
  | some signature =>
    throwIf (¬ verifyForProtocol block.header.version blockProposalDomain block.header.toJson
      signature proposerPublicKey = true) "Invalid proposer signature"

/-- The checks of the proposer of a block. -/
def validateProposer (block : Block) (validators : List Validator)
    (requireProposerSignature : Bool) : Except String Unit :=
  match block.proposerPublicKey with
  | none => .error "Missing proposer signature"
  | some publicKey => do
    throwIf (publicKey = "" ∨
      (requireProposerSignature = true ∧ (block.signature = none ∨ block.signature = some "")))
      "Missing proposer signature"
    assertHex publicKey 64 "proposerPublicKey"
    throwIf (requireProposerSignature = false ∧ block.signature ≠ none)
      "Prepared block must be unsigned"
    throwIf (∃ signature, block.signature = some signature ∧ signature ≠ "" ∧ ¬ IsHex 64 signature)
      "block signature must be 64 bytes of lowercase hex"
    let expected ← expectedValidator validators block.header.height block.header.round
    throwIf (block.header.proposer ≠ expected.address) "Unexpected proposer"
    throwIf (publicKey ≠ expected.publicKey) "Unexpected proposer public key"
    if requireProposerSignature then validateProposerSignature block publicKey else .ok ()

variable {block : Block} {validators : List Validator} {requireSignature : Bool}

/-- A proposer that is the expected validator and has signed passes. -/
theorem validateProposer_of_signed {publicKey signature : String} {expected : Validator}
    (hkey : block.proposerPublicKey = some publicKey)
    (hsignature : block.signature = some signature) (hkeyHex : IsHex 64 publicKey)
    (hsignatureHex : IsHex 64 signature)
    (hexpected : expectedValidator validators block.header.height block.header.round = .ok expected)
    (haddress : block.header.proposer = expected.address) (hpublic : publicKey = expected.publicKey)
    (hverify : verifyForProtocol block.header.version blockProposalDomain block.header.toJson
      signature publicKey = true) : validateProposer block validators true = .ok () := by
  have hnonempty : ∀ {s : String}, IsHex 64 s → s ≠ "" := by
    rintro s h rfl
    exact absurd h (by decide)
  rw [validateProposer, hkey]
  simp only [validateProposerSignature, hsignature, unit_bind_eq_ok, throwIf_eq_ok, assertHex_eq_ok,
    hexpected, ok_bind, if_true]
  refine ⟨?_, hkeyHex, by simp, ?_, not_not.mpr haddress, not_not.mpr hpublic, not_not.mpr hverify⟩
  · rintro (hempty | ⟨-, hnone | hempty⟩)
    · exact hnonempty hkeyHex hempty
    · cases hnone
    · exact hnonempty hsignatureHex (Option.some.inj hempty)
  · rintro ⟨s, hs, -, hhex⟩
    exact hhex (Option.some.inj hs ▸ hsignatureHex)

/-- The checks of the header against the block before. -/
def validateHeaderChain (block previous : Block) (nowMs expectedProtocolVersion : Int) :
    Except String Unit := do
  let header := block.header
  throwIf (header.version ≠ expectedProtocolVersion) "Unexpected protocol version"
  throwIf (header.chainId ≠ previous.header.chainId) "Wrong chain ID"
  throwIf (header.height ≠ previous.header.height + 1) "Wrong block height"
  throwIf (header.previousHash ≠ previous.hash) "Wrong previous hash"
  throwIf (¬ IsSafeInteger header.round ∨ header.round < 0) "Invalid round"
  throwIf (¬ IsSafeInteger header.timestampMs) "Invalid block timestamp"
  throwIf (header.timestampMs ≤ previous.header.timestampMs) "Block time must increase"
  throwIf (header.timestampMs > nowMs + maxFutureMs) "Block time too far in future"
  throwIf (block.transactions.length > maxBlockTransactions) "Too many transactions"
  throwIf (header.transactionRoot ≠ merkleRoot (block.transactions.map Transaction.toJson))
    "Transaction Merkle root mismatch"
  throwIf (block.hash ≠ blockHash header) "Block hash mismatch"
  assertHex block.hash 32 "block hash"

/-- The certificates of a block, with or without finality. -/
def validateCertificates (block : Block) (validators : List Validator) (requireFinality : Bool) :
    Except String Unit :=
  if block.header.version = consensusV6ProtocolVersion then do
    throwIf (block.roundCertificate.length ≠ 0)
      "Protocol v6 blocks must not carry a round skip certificate"
    if requireFinality then validateCommitCertificate block validators
    else
      throwIf (block.commitRound ≠ some none ∨ block.attestations.length ≠ 0)
        "Protocol v6 proposals must not carry a commit certificate"
  else do
    validateRoundCertificate block validators
    if requireFinality then validateAttestationQuorum block validators else .ok ()

def validateBlockEnvelopeGates (block previous : Block) (validators : List Validator) (nowMs : Int)
    (requireFinality : Bool) (expectedProtocolVersion : Int) (requireProposerSignature : Bool) :
    Except String Unit := do
  throwIf (¬ IsSafeInteger expectedProtocolVersion ∨ expectedProtocolVersion < 1)
    "Block envelope validation requires an explicit protocol version"
  validateBlockStructure block
  assertBlockBytes block
  validateHeaderChain block previous nowMs expectedProtocolVersion
  validateProposer block validators requireProposerSignature
  validateCertificates block validators requireFinality

def validateBlockEnvelope (block previous : Block) (validators : List Validator) (nowMs : Int)
    (requireFinality : Bool) (expectedProtocolVersion : Int) (requireProposerSignature : Bool) :
    Except String Unit := do
  validateBlockEnvelopeGates block previous validators nowMs requireFinality expectedProtocolVersion
    requireProposerSignature
  validateBlockTransactions block

/-- `assertV6ProposalBlockIntegrity`, with the validator set. -/
def assertV6ProposalBlockIntegrity (block : Block) (height : Int) (hash : String)
    (validators : List Validator) : Except String Unit := do
  throwIf (block.hash ≠ hash ∨ blockHash block.header ≠ hash ∨ block.header.height ≠ height ∨
    block.header.version ≠ consensusV6ProtocolVersion) "v6 block does not match the requested hash"
  throwIf (block.header.transactionRoot ≠ merkleRoot (block.transactions.map Transaction.toJson))
    "v6 block body does not match its header"
  throwIf (block.roundCertificate.length ≠ 0 ∨ block.attestations.length ≠ 0 ∨
    block.commitRound ≠ some none) "v6 block is not in proposal form"
  match block.signature, block.proposerPublicKey with
  | some signature, some publicKey => do
    assertHex signature 64 "v6 block signature"
    assertHex publicKey 64 "v6 block proposerPublicKey"
    throwIf (addressFromPublicKey publicKey ≠ block.header.proposer)
      "v6 block proposer key mismatch"
    let expected ← expectedValidator validators height block.header.round
    throwIf (expected.publicKey ≠ publicKey) "v6 block proposer is not the origin-round leader"
    throwIf (¬ verifyCanonicalDomain blockProposalDomain block.header.toJson signature
      publicKey = true) "Invalid v6 block proposer signature"
  | _, _ => .error "v6 block is unsigned"

/-- What the gates of a proposal establish about its header. -/
structure EnvelopeGates (block previous : Block) (validators : List Validator)
    (protocolVersion : Int) : Prop where
  version_eq : block.header.version = protocolVersion
  chainId_eq : block.header.chainId = previous.header.chainId
  height_eq : block.header.height = previous.header.height + 1
  height_safe : IsSafeInteger block.header.height ∧ 0 ≤ block.header.height
  previousHash_eq : block.header.previousHash = previous.hash
  round_nonneg : 0 ≤ block.header.round
  hash_eq : block.hash = blockHash block.header
  certificate : protocolVersion ≠ consensusV6ProtocolVersion →
    validateRoundCertificate block validators = .ok ()

theorem envelopeGates_of_validate {previous : Block} {nowMs : Int} {requireFinality : Bool}
    {protocolVersion : Int}
    (h : validateBlockEnvelopeGates block previous validators nowMs requireFinality protocolVersion
      requireSignature = .ok ()) : EnvelopeGates block previous validators protocolVersion := by
  rw [validateBlockEnvelopeGates, throwIf_bind_eq_ok] at h
  obtain ⟨-, h⟩ := h
  obtain ⟨_, hstructure, h⟩ := bind_eq_ok.mp h
  obtain ⟨_, -, h⟩ := bind_eq_ok.mp h
  obtain ⟨_, hheader, h⟩ := bind_eq_ok.mp h
  obtain ⟨_, -, hcert⟩ := bind_eq_ok.mp h
  rw [validateHeaderChain] at hheader
  simp only [throwIf_bind_eq_ok, ne_eq, not_not] at hheader
  obtain ⟨hversion, hchain, hheight, hprevious, hround, -, -, -, -, -, hhash, -⟩ := hheader
  refine ⟨hversion, hchain, hheight, height_of_validateBlockStructure hstructure, hprevious, ?_,
    hhash, fun hv6 => ?_⟩
  · rw [not_or, not_lt] at hround
    exact hround.2
  · rw [validateCertificates, hversion, if_neg hv6] at hcert
    obtain ⟨_, hcert, -⟩ := bind_eq_ok.mp hcert
    exact hcert

/-- What the gates establish about the time and the proposer of a block. -/
structure EnvelopeProposal (block previous : Block) (validators : List Validator) : Prop where
  timestamp_safe : IsSafeInteger block.header.timestampMs
  timestamp_lt : previous.header.timestampMs < block.header.timestampMs
  proposer : ∃ v, expectedValidator validators block.header.height block.header.round = .ok v ∧
    block.header.proposer = v.address ∧ block.proposerPublicKey = some v.publicKey

theorem proposer_of_validate (h : validateProposer block validators requireSignature = .ok ()) :
    ∃ v, expectedValidator validators block.header.height block.header.round = .ok v ∧
      block.header.proposer = v.address ∧ block.proposerPublicKey = some v.publicKey := by
  unfold validateProposer at h
  split at h
  · cases h
  · next publicKey hkey =>
    simp only [unit_bind_eq_ok, throwIf_eq_ok] at h
    obtain ⟨v, hv, h⟩ := bind_eq_ok.mp h.2.2.2.2
    rw [throwIf_bind_eq_ok, throwIf_bind_eq_ok, not_not, not_not] at h
    exact ⟨v, hv, h.1, by rw [hkey, h.2.1]⟩

theorem envelopeProposal_of_validate {previous : Block} {nowMs : Int} {requireFinality : Bool}
    {protocolVersion : Int}
    (h : validateBlockEnvelopeGates block previous validators nowMs requireFinality protocolVersion
      requireSignature = .ok ()) : EnvelopeProposal block previous validators := by
  rw [validateBlockEnvelopeGates] at h
  simp only [unit_bind_eq_ok] at h
  obtain ⟨-, -, -, hheader, hproposer, -⟩ := h
  rw [validateHeaderChain] at hheader
  simp only [throwIf_bind_eq_ok, ne_eq, not_not, not_le] at hheader
  exact ⟨hheader.2.2.2.2.2.1, hheader.2.2.2.2.2.2.1, proposer_of_validate hproposer⟩

end ZyronChain
