import ZyronChain.Agreement.V6
import ZyronChain.Chain.Bodies
import ZyronChain.Chain.Nonces
import ZyronChain.StateV2.Proof

/-!
# The light client

A light client holds a trusted anchor: the hash, the state root and the time of a finalized block,
and the validators and the protocol version in force.  It moves on by headers with a finality
certificate, and it changes the validators or the version only with a proof against the state root
of the anchor.

The client follows a chain: from the anchor of a tip, with the header of every block that the chain
accepts and a proof for every schedule entry that takes effect, it arrives at the anchor of the new
tip.  Whatever proofs it is given, it learns nothing about the state that is not in the ledger and
the schedules of the chain.

Source: `l1/src/light-client.ts`.

## Main definitions

* `LightClientAnchor`, `LightFinalityProof`.
* `verifyNextFinalizedHeader`, `verifyLightClientStateProof`, `activateNextValidatorSet`,
  `activateNextProtocolVersion`.
* `Chain.tipAnchor`, `Chain.lightSteps` : the anchor of a tip, and what a full node hands out.

## Main results

* `Chain.light_client_follows` : the client follows every run.
* `Chain.light_client_state_sound` : what a proof shows about the state.
* `Chain.activation_scheduled` : the client switches to what the chain has scheduled only.
-/

namespace ZyronChain

open Checks List

/-- `LIGHT_CLIENT_SUPPORTED_PROTOCOL_VERSIONS`. -/
def lightClientSupportedProtocolVersions : List Int := [1, 2, 3, 5, 6]

structure LightClientAnchor where
  version : Int
  chainId : String
  genesisHash : String
  height : Int
  blockHash : String
  stateRoot : String
  timestampMs : Int
  protocolVersion : Int
  validators : List Validator
deriving DecidableEq, Repr

/-- `LightFinalityProof` and `LightFinalityProofV6`; only the latter has a commit round. -/
structure LightFinalityProof where
  version : Int
  header : BlockHeader
  hash : String
  proposerPublicKey : String
  signature : String
  roundCertificate : List RoundSkipVote
  attestations : List Vote
  commitRound : Option (Option Int)
deriving DecidableEq, Repr

/-- The block that a finality proof stands for, without its transactions. -/
def LightFinalityProof.block (proof : LightFinalityProof) : Block where
  header := proof.header
  transactions := []
  hash := proof.hash
  proposerPublicKey := some proof.proposerPublicKey
  signature := some proof.signature
  roundCertificate := proof.roundCertificate
  attestations := proof.attestations
  commitRound := proof.commitRound

def lightClientUsesStateV2 (protocolVersion : Int) : Bool :=
  protocolVersion == 2 || protocolVersion == 3 || protocolVersion == 5 || protocolVersion == 6

def nextLightClientHeight (anchor : LightClientAnchor) (label : String) : Except String Int := do
  throwIf (¬ IsSafeInteger (anchor.height + 1)) s!"Invalid light-client {label} height"
  .ok (anchor.height + 1)

section

variable [Crypto]

def invalidLightClientValidator : String := "Invalid or duplicate light-client validator"

/-- The loop over the validators of an anchor. -/
def validateLightClientValidators (validators : List Validator) : Except String Unit :=
  forDistinct Validator.address invalidLightClientValidator
    (fun v => do
      assertHex v.publicKey 64 "light-client validator public key"
      throwIf (addressFromPublicKey v.publicKey ≠ v.address) invalidLightClientValidator)
    (fun v => assertValidPublicKey v.publicKey "Light-client validator public key") [] validators

/-- `validateLightClientAnchor`; the copy it returns is the anchor. -/
def validateLightClientAnchor (a : LightClientAnchor) : Except String Unit := do
  throwIf (a.version ≠ 1 ∨ ¬ IsChainId a.chainId ∨ ¬ IsSafeInteger a.height ∨ a.height < 0 ∨
    ¬ IsSafeInteger a.timestampMs ∨ a.timestampMs < 0 ∨ ¬ IsSafeInteger a.protocolVersion ∨
    a.protocolVersion ∉ lightClientSupportedProtocolVersions ∨ a.validators.length < 1 ∨
    a.validators.length > 100) "Invalid light-client anchor"
  assertHex a.genesisHash 32 "light-client genesis hash"
  assertHex a.blockHash 32 "light-client block hash"
  assertHex a.stateRoot 32 "light-client state root"
  validateLightClientValidators a.validators

/-- The checks of a header against the anchor. -/
def validateLightHeaderChain (anchor : LightClientAnchor) (block : Block) : Except String Unit := do
  throwIf (block.header.chainId ≠ anchor.chainId) "Light-client chain ID mismatch"
  throwIf (block.header.height ≠ anchor.height + 1) "Light-client height discontinuity"
  throwIf (block.header.previousHash ≠ anchor.blockHash) "Light-client previous hash mismatch"
  throwIf (block.header.timestampMs ≤ anchor.timestampMs) "Light-client timestamp did not advance"
  throwIf (block.header.version ≠ anchor.protocolVersion) "Light-client protocol version mismatch"
  throwIf (block.hash ≠ blockHash block.header) "Light-client block hash mismatch"

/-- The certificates of a header. -/
def validateLightCertificates (anchor : LightClientAnchor) (block : Block) : Except String Unit :=
  if isConsensusV6 anchor.protocolVersion then do
    throwIf (block.roundCertificate.length ≠ 0)
      "Light-client v6 proof must not carry a round certificate"
    validateCommitCertificate block anchor.validators
  else do
    validateRoundCertificate block anchor.validators
    validateAttestationQuorum block anchor.validators

def verifyNextFinalizedHeader (anchor : LightClientAnchor) (proof : LightFinalityProof) :
    Except String LightClientAnchor := do
  validateLightClientAnchor anchor
  throwIf (isConsensusV6 anchor.protocolVersion = true ↔ proof.commitRound = none)
    "Invalid light finality proof fields"
  throwIf (proof.version ≠ (if isConsensusV6 anchor.protocolVersion then 2 else 1) ∨
    proof.roundCertificate.length > anchor.validators.length ∨
    proof.attestations.length > anchor.validators.length) "Invalid light finality proof"
  validateBlockShape proof.block
  validateLightHeaderChain anchor proof.block
  let proposer ← expectedValidator anchor.validators proof.header.height proof.header.round
  throwIf (proof.header.proposer ≠ proposer.address ∨ proof.proposerPublicKey ≠ proposer.publicKey)
    "Unexpected light-client proposer"
  throwIf (¬ verifyForProtocol proof.header.version blockProposalDomain proof.header.toJson
    proof.signature proof.proposerPublicKey = true) "Invalid light-client proposer signature"
  validateLightCertificates anchor proof.block
  .ok { anchor with
    height := proof.header.height
    blockHash := proof.hash
    stateRoot := proof.header.stateRoot
    timestampMs := proof.header.timestampMs }

def verifyLightClientStateProof (anchor : LightClientAnchor) (key : String) (value : Json)
    (proof : SparseMerkleProof) : Bool :=
  match validateLightClientAnchor anchor with
  | .error _ => false
  | .ok _ =>
    lightClientUsesStateV2 anchor.protocolVersion &&
      verifySparseMerkleProof anchor.stateRoot key value proof

def activateNextValidatorSet (anchor : LightClientAnchor) (validators : List Validator)
    (proof : SparseMerkleProof) : Except String LightClientAnchor := do
  validateLightClientAnchor anchor
  throwIf (¬ lightClientUsesStateV2 anchor.protocolVersion = true)
    "Validator transition proof requires authenticated State v2"
  validateLightClientAnchor { anchor with validators := validators }
  let activationHeight ← nextLightClientHeight anchor "validator activation"
  throwIf (¬ verifySparseMerkleProof anchor.stateRoot (validatorScheduleKey activationHeight)
    (validatorsValue validators).val proof = true) "Invalid light-client validator transition proof"
  .ok { anchor with validators := validators }

def activateNextProtocolVersion (anchor : LightClientAnchor) (protocolVersion : Int)
    (proof : SparseMerkleProof) : Except String LightClientAnchor := do
  validateLightClientAnchor anchor
  throwIf (¬ lightClientUsesStateV2 anchor.protocolVersion = true)
    "Protocol transition proof requires authenticated State v2"
  throwIf (¬ IsSafeInteger protocolVersion ∨
    protocolVersion ∉ lightClientSupportedProtocolVersions)
    "Unsupported light-client protocol transition"
  let activationHeight ← nextLightClientHeight anchor "protocol activation"
  throwIf (¬ verifySparseMerkleProof anchor.stateRoot (protocolScheduleKey activationHeight)
    (protocolValue protocolVersion).val proof = true) "Invalid light-client protocol transition proof"
  .ok { anchor with protocolVersion := protocolVersion }

/-! ### Runs of the client -/

/-- What a client is handed. -/
inductive LightClientStep where
  | validators (validators : List Validator) (proof : SparseMerkleProof)
  | protocolVersion (protocolVersion : Int) (proof : SparseMerkleProof)
  | header (proof : LightFinalityProof)

def LightClientAnchor.step (anchor : LightClientAnchor) :
    LightClientStep → Except String LightClientAnchor
  | .validators validators proof => activateNextValidatorSet anchor validators proof
  | .protocolVersion protocolVersion proof => activateNextProtocolVersion anchor protocolVersion proof
  | .header proof => verifyNextFinalizedHeader anchor proof

def LightClientAnchor.run : List LightClientStep → LightClientAnchor → Except String LightClientAnchor
  | [], anchor => .ok anchor
  | step :: steps, anchor => do
    let anchor ← anchor.step step
    LightClientAnchor.run steps anchor

/-! ### What a full node hands out -/

/-- The anchor of a tip with the validators and the version that a client uses. -/
def Chain.anchorWith (c : Chain) (validators : List Validator) (protocolVersion : Int) :
    LightClientAnchor where
  version := 1
  chainId := c.genesis.chainId
  genesisHash := c.genesisHash
  height := c.height
  blockHash := c.tip.hash
  stateRoot := c.tip.header.stateRoot
  timestampMs := c.tip.header.timestampMs
  protocolVersion := protocolVersion
  validators := validators

/-- The anchor of a tip. -/
def Chain.tipAnchor (c : Chain) : Except String LightClientAnchor := do
  let validators ← c.validatorsAt c.height
  let protocolVersion ← c.protocolVersionAt c.height
  .ok (c.anchorWith validators protocolVersion)

/-- The finality proof of a block. -/
def finalityProof (block : Block) : LightFinalityProof where
  version := if isConsensusV6 block.header.version then 2 else 1
  header := block.header
  hash := block.hash
  proposerPublicKey := block.proposerPublicKey.getD ""
  signature := block.signature.getD ""
  roundCertificate := block.roundCertificate
  attestations := block.attestations
  commitRound := block.commitRound

/-- The proof for an entry that takes effect, from the state of the tip. -/
def activationSteps {V : Type} (stateV2 : Option SparseMerkleState) (key : String)
    (step : V → SparseMerkleProof → LightClientStep) :
    Option V → Except String (List LightClientStep)
  | none => .ok []
  | some v => match stateV2 with
    | none => .error "Validator transition proof requires authenticated State v2"
    | some s => do
      let proof ← s.prove key
      .ok [step v proof]

/-- What takes a client from the tip to the next block. -/
def Chain.lightSteps (c : Chain) (block : Block) : Except String (List LightClientStep) := do
  let validators ← activationSteps c.stateV2 (validatorScheduleKey (c.height + 1)) .validators
    (c.governance.validatorSchedule.get (c.height + 1))
  let versions ← activationSteps c.stateV2 (protocolScheduleKey (c.height + 1)) .protocolVersion
    (c.governance.protocolSchedule.get (c.height + 1))
  .ok (validators ++ versions ++ [.header (finalityProof block)])

/-- What takes a client from the tip through the blocks of a run. -/
def Chain.serve (c : Chain) : List (Block × Int) → Except String (List LightClientStep)
  | [] => .ok []
  | (block, nowMs) :: blocks => do
    let steps ← c.lightSteps block
    let c ← c.acceptBlock block nowMs
    let more ← c.serve blocks
    .ok (steps ++ more)

theorem LightClientAnchor.run_append (steps more : List LightClientStep) (a : LightClientAnchor) :
    run (steps ++ more) a = (do
      let a ← run steps a
      run more a) := by
  induction steps generalizing a with
  | nil => rfl
  | cons step steps ih =>
    rw [cons_append, run, run, bind_assoc]
    exact congrArg _ (funext ih)

theorem run_activationSteps {V : Type} {stateV2 : Option SparseMerkleState} {key : String}
    (step : V → SparseMerkleProof → LightClientStep) (entry : Option V) (a a' : LightClientAnchor)
    (hnone : entry = none → a = a')
    (hsome : ∀ v s, entry = some v → stateV2 = some s → ∃ proof, s.prove key = .ok proof ∧
      a.step (step v proof) = .ok a') :
    (∀ steps, activationSteps stateV2 key step entry = .ok steps →
      LightClientAnchor.run steps a = .ok a') ∧
    (stateV2 ≠ none → ∃ steps, activationSteps stateV2 key step entry = .ok steps) := by
  cases entry with
  | none =>
    refine ⟨fun steps hsteps => ?_, fun _ => ⟨_, rfl⟩⟩
    obtain rfl := Except.ok.inj hsteps
    rw [LightClientAnchor.run, hnone rfl]
  | some v =>
    cases stateV2 with
    | none =>
      refine ⟨fun steps hsteps => ?_, fun hne => absurd rfl hne⟩
      cases hsteps
    | some s =>
      obtain ⟨proof, hproof, hstep⟩ := hsome v s rfl rfl
      have hproved : activationSteps (some s) key step (some v) = .ok [step v proof] :=
        bind_eq_ok.mpr ⟨proof, hproof, rfl⟩
      refine ⟨fun steps hsteps => ?_, fun _ => ⟨_, hproved⟩⟩
      obtain rfl := Except.ok.inj (hproved.symm.trans hsteps)
      rw [LightClientAnchor.run, hstep, ok_bind, LightClientAnchor.run]

/-! ### Anchors -/

/-- What is checked of an anchor. -/
structure LightClientAnchor.Valid (a : LightClientAnchor) : Prop where
  version : a.version = 1
  chainId : IsChainId a.chainId
  height : IsSafeInteger a.height ∧ 0 ≤ a.height
  timestamp : IsSafeInteger a.timestampMs ∧ 0 ≤ a.timestampMs
  supported : assertSupportedProtocolVersion a.protocolVersion = .ok ()
  count : 1 ≤ a.validators.length ∧ a.validators.length ≤ maxValidatorCount
  hashes : IsHex 32 a.genesisHash ∧ IsHex 32 a.blockHash ∧ IsHex 32 a.stateRoot
  validators : ValidatorsWellFormed a.validators

omit [Crypto] in
theorem mem_lightClientVersions {version : Int}
    (h : assertSupportedProtocolVersion version = .ok ()) :
    IsSafeInteger version ∧ version ∈ lightClientSupportedProtocolVersions := by
  rw [assertSupportedProtocolVersion, throwIf_eq_ok, not_not] at h
  simp only [supportedProtocolVersions, mem_cons, not_mem_nil, or_false] at h
  rcases h with rfl | rfl | rfl | rfl | rfl <;> decide

theorem LightClientAnchor.Valid.validate {a : LightClientAnchor} (h : a.Valid) :
    validateLightClientAnchor a = .ok () := by
  obtain ⟨hsafe, hmem⟩ := mem_lightClientVersions h.supported
  rw [validateLightClientAnchor, validateLightClientValidators]
  simp only [unit_bind_eq_ok, throwIf_eq_ok, assertHex_eq_ok, forDistinct_eq_ok,
    assertValidPublicKey_eq_ok]
  refine ⟨?_, h.hashes.1, h.hashes.2.1, h.hashes.2.2, h.validators.addresses_nodup,
    fun _ _ => not_mem_nil, fun v hv => ⟨⟨h.validators.publicKey v hv,
      not_not.mpr (h.validators.address_eq v hv)⟩, h.validators.point v hv⟩⟩
  simp only [not_or, not_not, not_lt]
  exact ⟨h.version, h.chainId, h.height.1, h.height.2, h.timestamp.1, h.timestamp.2, hsafe, hmem,
    h.count.1, h.count.2⟩

/-! ### Headers -/

omit [Crypto] in
private theorem toJson_eq (block : Block) : ∃ front, ∀ transactions,
    { block with transactions := transactions }.toJson =
      .obj (front ++ [("transactions", .arr (transactions.map Transaction.toJson))]) :=
  ⟨[("attestations", .arr (block.attestations.map Vote.toJson))] ++
      optionalMember "commitRound" block.commitRoundJson ++
      [("hash", .str block.hash), ("header", block.header.toJson),
        ("proposerPublicKey", nullable block.proposerPublicKey),
        ("roundCertificate", .arr (block.roundCertificate.map RoundSkipVote.toJson)),
        ("signature", nullable block.signature)],
    fun transactions => by
      simp only [Block.toJson, append_assoc, cons_append, nil_append]
      rfl⟩

/-- A block without its transactions keeps its shape. -/
theorem validateBlockShape_bare {block : Block} (h : validateBlockShape block = .ok ()) :
    validateBlockShape { block with transactions := [] } = .ok () := by
  obtain ⟨hstructure, -⟩ := unit_bind_eq_ok.mp h
  refine unit_bind_eq_ok.mpr ⟨?_, rfl⟩
  rw [validateBlockStructure] at hstructure ⊢
  simp only [unit_bind_eq_ok, throwIf_eq_ok, assertBlockBytes_eq_ok] at hstructure ⊢
  obtain ⟨hkey, hheader, -, hattestations, hcertificate, ⟨hcanonical, hsize⟩, hentries⟩ := hstructure
  obtain ⟨front, hjson⟩ := toJson_eq block
  have hblock : block.toJson = _ := hjson block.transactions
  rw [hblock] at hcanonical hsize
  refine ⟨hkey, hheader, by decide, hattestations, hcertificate, ⟨?_, ?_⟩, hentries⟩
  · have hmembers := (canonicalMembers_iff _ _).mp hcanonical.2
    rw [hjson]
    refine ⟨hcanonical.1, (canonicalMembers_iff _ _).mpr ?_⟩
    rw [forall_mem_append] at hmembers ⊢
    exact ⟨hmembers.1, forall_mem_singleton.mpr ⟨by decide, trivial⟩⟩
  · rw [hjson]
    rw [Json.size_obj, Json.sizeMembers_perm perm_append_comm, singleton_append, Json.sizeMembers,
      Json.size_arr] at hsize ⊢
    rw [map_nil, Json.sizeItems]
    omega

omit [Crypto] in
theorem isConsensusV6_iff {version : Int} :
    isConsensusV6 version = true ↔ version = consensusV6ProtocolVersion := by
  rw [isConsensusV6, beq_iff_eq]

/-- The certificates of a final block are no longer than the validator set, and they are those that
the client checks. -/
private theorem certificates_of_validate {block : Block} {a : LightClientAnchor}
    (h : validateCertificates block a.validators true = .ok ())
    (hversion : block.header.version = a.protocolVersion) :
    validateLightCertificates a { block with transactions := [] } = .ok () ∧
      block.roundCertificate.length ≤ a.validators.length ∧
      block.attestations.length ≤ a.validators.length := by
  rw [validateCertificates] at h
  rw [validateLightCertificates]
  split at h
  · next hv6 =>
    rw [if_pos (isConsensusV6_iff.mpr (hversion ▸ hv6))]
    obtain ⟨hempty, hcommit⟩ := throwIf_bind_eq_ok.mp h
    rw [if_pos rfl] at hcommit
    refine ⟨throwIf_bind_eq_ok.mpr ⟨hempty, hcommit⟩, ?_⟩
    rw [validateCommitCertificate] at hcommit
    obtain ⟨_, -, hcommit⟩ := bind_eq_ok.mp hcommit
    obtain ⟨hlength, -⟩ := validateVoteSet_eq_ok.mp (throwIf_bind_eq_ok.mp hcommit).2
    exact ⟨by omega, hlength⟩
  · next hlegacy =>
    rw [if_neg fun hv6 => hlegacy (hversion.trans (isConsensusV6_iff.mp hv6))]
    refine ⟨h, ?_⟩
    obtain ⟨hround, hfinality⟩ := unit_bind_eq_ok.mp h
    rw [if_pos rfl, validateAttestationQuorum, throwIf_bind_eq_ok] at hfinality
    refine ⟨?_, not_lt.mp hfinality.1⟩
    rw [validateRoundCertificate] at hround
    split at hround
    · rw [throwIf_eq_ok] at hround
      omega
    · rw [validateRoundSkipQuorum] at hround
      obtain ⟨-, hround⟩ := unit_bind_eq_ok.mp hround
      exact not_lt.mp (throwIf_bind_eq_ok.mp hround).1

/-- The header of an accepted block takes the client to the new tip. -/
theorem verifyNextFinalizedHeader_tip {c c' : Chain} {g : GenesisConfig} {block : Block} {nowMs : Int}
    {validators : List Validator} {version : Int} (h : c.Anchored g) (h' : c'.Anchored g)
    (hgenesis : c.genesis = g) (haccept : c.acceptBlock block nowMs = .ok c')
    (hvalidators : c'.validatorsAt c'.height = .ok validators)
    (hversion : c'.protocolVersionAt c'.height = .ok version)
    (hvalid : (c.anchorWith validators version).Valid) :
    verifyNextFinalizedHeader (c.anchorWith validators version) (finalityProof block) =
      .ok (c'.anchorWith validators version) := by
  obtain ⟨⟨_, _, _, hreplays⟩, hgenesis', hblock', rfl, hheight', -⟩ :=
    Chain.replays_of_acceptBlock haccept
  have hgates := hreplays.gates
  have hheight := hgates.height_eq
  rw [h.height] at hheight
  have hpos : 0 ≤ c.height := hvalid.height.2
  rcases h'.authority with ⟨hzero, -⟩ | ⟨-, _, hauthority, hproposer, hcertificates⟩
  · omega
  obtain rfl := Except.ok.inj (hauthority.symm.trans hvalidators)
  obtain ⟨_, htip, -, hheader, -⟩ := h'.state
  obtain rfl := hheader.trans (Except.ok.inj (htip.symm.trans hversion))
  obtain ⟨v, signature, hv, haddress, hkey, hsig, -, hsigned⟩ :=
    Chain.signed_of_validateProposer hproposer
  obtain ⟨hcerts, hround, hattestations⟩ := certificates_of_validate
    (a := c.anchorWith _ c'.tip.header.version) hcertificates rfl
  have hbare : (finalityProof c'.tip).block = { c'.tip with transactions := [] } := by
    simp only [LightFinalityProof.block, finalityProof, hkey, hsig, Option.getD_some]
  have hfields : ¬ (isConsensusV6 c'.tip.header.version = true ↔ c'.tip.commitRound = none) := by
    have hstructure := (unit_bind_eq_ok.mp h'.shape).1
    rw [validateBlockStructure] at hstructure
    obtain ⟨hround, -⟩ := unit_bind_eq_ok.mp hstructure
    rw [assertCommitRoundKey] at hround
    rw [isConsensusV6_iff]
    split at hround
    · next hv6 => exact fun h => (throwIf_bind_eq_ok.mp hround).1 (h.mp hv6)
    · next hv6 =>
      rw [throwIf_eq_ok, not_not] at hround
      exact fun h => hv6 (h.mpr hround)
  rw [verifyNextFinalizedHeader, hvalid.validate, ok_bind]
  refine throwIf_bind_eq_ok.mpr ⟨hfields, throwIf_bind_eq_ok.mpr ⟨?_, bind_eq_ok.mpr ⟨(), ?_,
    bind_eq_ok.mpr ⟨(), ?_, bind_eq_ok.mpr ⟨v, hv, throwIf_bind_eq_ok.mpr ⟨?_,
      throwIf_bind_eq_ok.mpr ⟨?_, bind_eq_ok.mpr ⟨(), ?_, ?_⟩⟩⟩⟩⟩⟩⟩⟩
  · simp only [not_or, not_not, not_lt]
    exact ⟨rfl, hround, hattestations⟩
  · rw [hbare]
    exact validateBlockShape_bare h'.shape
  · rw [hbare, validateLightHeaderChain]
    simp only [throwIf_bind_eq_ok, throwIf_eq_ok, ne_eq, not_not, not_le]
    exact ⟨by rw [h'.chainId, ← hgenesis]; rfl, hheight, hgates.previousHash_eq,
      hreplays.proposal.timestamp_lt, rfl, h'.hash⟩
  · simp only [not_or, not_not]
    exact ⟨haddress, by rw [finalityProof, hkey]; rfl⟩
  · rw [not_not, finalityProof, hkey, hsig]
    exact hsigned
  · rw [hbare]
    exact hcerts
  · simp only [Chain.anchorWith, Chain.genesisHash, hgenesis', hblock', hheight', finalityProof]

/-! ### Proofs against the state of the tip -/

omit [Crypto] in
/-- At the next height the entry for it is in force, or what was before. -/
theorem activeAt_succ {V : Type} (m : SortedMap (fun a b : Int => a < b) V) {height : Int}
    (hheight : 0 ≤ height) (start : V) :
    activeAt (height + 1) m.entries start =
      (m.get (height + 1)).getD (activeAt height m.entries start) := by
  cases hget : m.get (height + 1) with
  | none =>
    rw [SortedMap.get_eq_none_iff] at hget
    rw [Option.getD_none, activeAt, activeAt]
    congr 1
    refine foldl_ext _ _ _ fun selected e he => ?_
    have hne : e.1 ≠ height + 1 := fun heq => hget (heq ▸ mem_map_of_mem he)
    have hle : e.1 ≤ height + 1 ↔ e.1 ≤ height := by omega
    simp only [hle]
  | some v =>
    obtain ⟨before, after, heq⟩ := append_of_mem (SortedMap.get_eq_some_iff.mp hget)
    have hsorted := m.sorted
    rw [heq, pairwise_append, pairwise_cons] at hsorted
    -- what was selected before has a height up to this one
    have hselected := foldlRecOn (motive := fun x : Int × V => x.1 ≤ height + 1) before
      (fun selected entry => if entry.1 ≤ height + 1 ∧ selected.1 ≤ entry.1 then entry else selected)
      (by omega : ((0 : Int), start).1 ≤ height + 1) fun x hx e _ => by
        split
        · next h => exact h.1
        · exact hx
    rw [heq, ← singleton_append, ← append_assoc, activeAt_append fun e he => hsorted.2.1.1 e he, activeAt,
      foldl_append, foldl_cons, foldl_nil, if_pos ⟨le_refl _, hselected⟩, Option.getD_some]

variable {K : List SemanticKey} {L : LedgerState} {G : Governance} {k : SemanticKey}

omit [Crypto] in
theorem normalize_ne_null {v : JsonValue} (h : stateView L G k = some v) :
    normalize v.val ≠ .null := by
  cases k with
  | account | activityEpoch | validatorSchedule | protocolSchedule | activityOracleGovernance =>
    obtain ⟨x, -, rfl⟩ := Option.map_eq_some_iff.mp h
    exact Json.noConfusion

/-- Values of a schedule that are in normal form and determine their entry. -/
structure EntryValues {V : Type} (value : V → JsonValue) : Prop where
  order : ∀ v, InOrder (value v).val
  ne_null : ∀ v, (value v).val ≠ .null
  injective : ∀ v w, (value v).val = (value w).val → v = w

omit [Crypto] in
theorem entryValues_validatorsValue : EntryValues validatorsValue where
  order vs := ⟨(by decide : KeysInOrder ["validators"]), inOrder_validators vs, trivial⟩
  ne_null _ := Json.noConfusion
  injective vs ws h := by
    have hread := read_validatorsValue ws
    rw [← h, read_validatorsValue] at hread
    exact Except.ok.inj hread

omit [Crypto] in
theorem entryValues_protocolValue : EntryValues protocolValue where
  order _ := ⟨(by decide : KeysInOrder ["protocolVersion"]), trivial, trivial⟩
  ne_null _ := Json.noConfusion
  injective v w h := by simpa [protocolValue] using h

/-- What a proof shows of a state that stands for a ledger, and that there is one. -/
theorem Commits.proofs {s : SparseMerkleState} (h : Commits K (stateView L G) s) (hk : k ∈ K) :
    (∃ proof, s.prove k.text = .ok proof ∧ verifySparseMerkleProof s.root.val k.text
      (((stateView L G k).map fun v => normalize v.val).getD .null) proof = true) ∧
      ∀ (value : JsonValue) (proof : SparseMerkleProof),
        verifySparseMerkleProof s.root.val k.text value.val proof = true →
          (stateView L G k).map (fun v => normalize v.val) = SparseMerkleState.heldAs value.val ∨
            ByteCollision (s.proofEncodings k.text value.val proof) := by
  have hget := h.get hk
  refine ⟨s.verify_prove k.text_ne_empty hget fun hnull => ?_, fun value proof hverify => ?_⟩
  · obtain ⟨v, hv, hnull⟩ := Option.map_eq_some_iff.mp hnull
    exact normalize_ne_null hv hnull
  · refine (s.get_of_verify k.text_ne_empty hverify).imp_left fun hheld => ?_
    rw [hget, Except.ok.injEq] at hheld
    exact hheld

namespace Chain

variable {g : GenesisConfig} {blocks : List (Block × Int)} {c₀ c c' : Chain}

/-- What a client relies on at the tip of a chain. -/
structure Serves (K : List SemanticKey) (g : GenesisConfig) (blocks : List (Block × Int)) (c : Chain)
    (L : LedgerState) : Prop where
  follows : c.Follows K g blocks L
  anchored : c.Anchored g
  timestamp : 0 ≤ c.tip.header.timestampMs

theorem serves (hK : KeysDistinct K) (hkeys : ∀ k ∈ runKeys g blocks, k ∈ K)
    (hcreate : create g = .ok c₀) (hrun : c₀.acceptBlocks blocks = .ok c) :
    ∃ L, c.Serves K g blocks L := by
  obtain ⟨L, hfollows⟩ := Chain.follows hK hkeys hcreate hrun
  refine ⟨L, hfollows, Chain.anchored hcreate hrun, ?_⟩
  refine @acceptBlocks_induction _ (fun _ c => 0 ≤ c.tip.header.timestampMs) ?_ [] _ _ _ ?_ hrun
  · intro _ c block nowMs c' htime haccept
    obtain ⟨⟨_, _, _, hreplays⟩, -, -, htip, -⟩ := replays_of_acceptBlock haccept
    rw [htip]
    exact htime.trans hreplays.proposal.timestamp_lt.le
  · obtain ⟨-, L, -, rfl⟩ := create_eq_ok hcreate
    exact hfollows.governed.valid.timestamp.2

namespace Serves

variable {validators : List Validator} {version height : Int} {block : Block} {nowMs : Int}

theorem height_bounds (h : c.Serves K g blocks L) : IsSafeInteger c.height ∧ 0 ≤ c.height := by
  have hbounds := height_of_validateBlockStructure (unit_bind_eq_ok.mp h.anchored.shape).1
  rwa [h.anchored.height] at hbounds

/-- The anchor of the tip is valid with every scheduled validator set and supported version. -/
theorem valid_anchorWith (h : c.Serves K g blocks L)
    (hvalidators : c.validatorsAt height = .ok validators)
    (hsupported : assertSupportedProtocolVersion version = .ok ()) :
    (c.anchorWith validators version).Valid := by
  have hG := h.follows.governed.wellFormed
  rw [Chain.validatorsAt, h.follows.governed.genesis] at hvalidators
  obtain ⟨e, he, rfl⟩ := hG.validatorsAt hvalidators
  obtain ⟨-, hcount, hmax, hset⟩ := hG.validators e he
  have hminimum : 1 ≤ g.minimumValidatorCount := by
    rw [GenesisConfig.minimumValidatorCount, strictMinValidators]
    split <;> omega
  have hstructure := (unit_bind_eq_ok.mp h.anchored.shape).1
  rw [validateBlockStructure] at hstructure
  simp only [unit_bind_eq_ok] at hstructure
  have hheader := hstructure.2.1
  rw [validateHeaderStructure] at hheader
  simp only [throwIf_eq_ok, unit_bind_eq_ok, assertHex_eq_ok] at hheader
  obtain ⟨-, -, -, htime, -, -, hroot, hhash, -⟩ := hheader
  obtain ⟨L₀, -, hgenesisBlock⟩ := h.anchored.genesisBlock
  refine ⟨rfl, ?_, h.height_bounds, ⟨not_not.mp htime, h.timestamp⟩, hsupported,
    ⟨hminimum.trans hcount, hmax⟩, ⟨?_, hhash, hroot⟩, hset⟩
  · exact (congrArg (fun g => IsChainId g.chainId) h.follows.governed.genesis).mpr
      h.follows.governed.valid.chainId
  · change IsHex 32 c.genesisBlock.hash
    rw [hgenesisBlock]
    exact isHex_iff_isHash64.mpr (Crypto.sha256_hex _)

/-- The anchor of the tip. -/
theorem tipAnchor_eq_ok (h : c.Serves K g blocks L) : ∃ validators version,
    c.validatorsAt c.height = .ok validators ∧ c.protocolVersionAt c.height = .ok version ∧
      assertSupportedProtocolVersion version = .ok () ∧
      c.tipAnchor = .ok (c.anchorWith validators version) := by
  obtain ⟨version, hversion, hsupported, -⟩ := h.anchored.state
  obtain ⟨hsafe, hpos⟩ := h.height_bounds
  have hvalidators : ∃ validators, c.validatorsAt c.height = .ok validators :=
    ⟨_, throwIf_bind_eq_ok.mpr ⟨by simpa [hsafe] using hpos, rfl⟩⟩
  obtain ⟨validators, hvalidators⟩ := hvalidators
  refine ⟨validators, version, hvalidators, hversion, hsupported, ?_⟩
  rw [tipAnchor, hvalidators, ok_bind, hversion, ok_bind]

/-- The tip commits to its authenticated state. -/
theorem stateRoot_eq (h : c.Serves K g blocks L) {s : SparseMerkleState} (hs : c.stateV2 = some s) :
    ∃ keys, c.KeepsStateV2 K L s keys ∧ c.tip.header.stateRoot = s.root.val := by
  rcases h.follows.tracks.form with hform | ⟨s', keys, hform⟩
  · rw [hform.stateV2] at hs
    cases hs
  · obtain rfl : s' = s := Option.some.inj (hform.stateV2.symm.trans hs)
    refine ⟨keys, hform, ?_⟩
    obtain ⟨version, hversion, -, -, hroot⟩ := h.anchored.state
    obtain ⟨version', hversion', huses⟩ := hform.version
    obtain rfl : version' = version := Except.ok.inj (hversion'.symm.trans hversion)
    rw [stateRootForProtocol, hform.state, hform.stateV2, if_pos huses, ite_self] at hroot
    exact (Except.ok.inj hroot).symm

theorem version_of_none (h : c.Serves K g blocks L) (hs : c.stateV2 = none)
    (hversion : c.protocolVersionAt c.height = .ok version) : version = 1 := by
  rcases h.follows.tracks.form with hform | ⟨s, keys, hform⟩
  · exact Except.ok.inj (hversion.symm.trans hform.version)
  · rw [hform.stateV2] at hs
    cases hs

theorem usesStateV2 (h : c.Serves K g blocks L) {s : SparseMerkleState} (hs : c.stateV2 = some s)
    (hversion : c.protocolVersionAt c.height = .ok version) :
    lightClientUsesStateV2 version = true := by
  obtain ⟨keys, hform, -⟩ := h.stateRoot_eq hs
  obtain ⟨version', hversion', huses⟩ := hform.version
  obtain rfl : version' = version := Except.ok.inj (hversion'.symm.trans hversion)
  exact huses

/-- The proofs of the entries of a schedule. -/
theorem schedule_proofs {V : Type} {schedule : SortedMap (fun a b : Int => a < b) V}
    {f : Int → SemanticKey} {value : V → JsonValue} (h : c.Serves K g blocks L)
    {s : SparseMerkleState} (hs : c.stateV2 = some s)
    (hview : ∀ height, stateView L c.governance (f height) = (schedule.get height).map value)
    (hvalue : EntryValues value) (v : V) :
    (schedule.get height = some v → ∃ proof, s.prove (f height).text = .ok proof ∧
      verifySparseMerkleProof c.tip.header.stateRoot (f height).text (value v).val proof = true) ∧
    (f height ∈ K → ∀ proof, verifySparseMerkleProof c.tip.header.stateRoot (f height).text
        (value v).val proof = true → schedule.get height = some v ∨
          ByteCollision (s.proofEncodings (f height).text (value v).val proof)) := by
  obtain ⟨keys, hform, hroot⟩ := h.stateRoot_eq hs
  rw [hroot]
  refine ⟨fun hget => ?_, fun hk proof hverify => ?_⟩
  · have hkey := hview height
    rw [hget, Option.map_some] at hkey
    have hk : f height ∈ K := h.follows.tracks.mem _ (by rw [hkey]; exact Option.some_ne_none _)
    obtain ⟨hproof, -⟩ := hform.commits.proofs hk
    rwa [hkey, Option.map_some, Option.getD_some, normalize_eq_self _ (hvalue.order v)] at hproof
  · refine ((hform.commits.proofs hk).2 _ proof hverify).imp_left fun hheld => ?_
    rw [hview, SparseMerkleState.heldAs, if_neg (hvalue.ne_null v)] at hheld
    obtain ⟨w, hw, hnormal⟩ := Option.map_eq_some_iff.mp hheld
    obtain ⟨x, hx, rfl⟩ := Option.map_eq_some_iff.mp hw
    rw [normalize_eq_self _ (hvalue.order x), normalize_eq_self _ (hvalue.order v)] at hnormal
    rw [hx, hvalue.injective x v hnormal]

theorem validatorsAt_succ (h : c.Serves K g blocks L) (hsafe : IsSafeInteger (c.height + 1))
    (hvalidators : c.validatorsAt c.height = .ok validators) : c.validatorsAt (c.height + 1) =
      .ok ((c.governance.validatorSchedule.get (c.height + 1)).getD validators) := by
  have hpos := h.height_bounds.2
  rw [Chain.validatorsAt, Governance.validatorsAt, throwIf_bind_eq_ok] at hvalidators ⊢
  refine ⟨by simpa [hsafe] using by omega, ?_⟩
  rw [activeAt_succ _ hpos, ← Except.ok.inj hvalidators.2]

theorem protocolVersionAt_succ (h : c.Serves K g blocks L) (hsafe : IsSafeInteger (c.height + 1))
    (hversion : c.protocolVersionAt c.height = .ok version) : c.protocolVersionAt (c.height + 1) =
      .ok ((c.governance.protocolSchedule.get (c.height + 1)).getD version) := by
  have hpos := h.height_bounds.2
  rw [Chain.protocolVersionAt, Governance.protocolVersionAt, throwIf_bind_eq_ok] at hversion ⊢
  refine ⟨by simpa [hsafe] using by omega, ?_⟩
  rw [activeAt_succ _ hpos, ← Except.ok.inj hversion.2]

/-- The proof for a scheduled validator set takes the client to it. -/
theorem activateNextValidatorSet_scheduled (h : c.Serves K g blocks L) {s : SparseMerkleState}
    (hs : c.stateV2 = some s) {old : List Validator} (hold : c.validatorsAt c.height = .ok old)
    (hversion : c.protocolVersionAt c.height = .ok version)
    (hsupported : assertSupportedProtocolVersion version = .ok ())
    (hget : c.governance.validatorSchedule.get (c.height + 1) = some validators) :
    ∃ proof, s.prove (validatorScheduleKey (c.height + 1)) = .ok proof ∧
      activateNextValidatorSet (c.anchorWith old version) validators proof =
        .ok (c.anchorWith validators version) := by
  have hG := h.follows.governed.wellFormed
  have hsafe := (hG.validators _ (SortedMap.get_eq_some_iff.mp hget)).1.1
  have hnext := h.validatorsAt_succ hsafe hold
  rw [hget, Option.getD_some] at hnext
  obtain ⟨proof, hproof, hverify⟩ := (h.schedule_proofs (f := .validatorSchedule) hs (fun _ => rfl)
    entryValues_validatorsValue validators).1 hget
  refine ⟨proof, hproof, ?_⟩
  rw [activateNextValidatorSet, (h.valid_anchorWith hold hsupported).validate, ok_bind]
  refine throwIf_bind_eq_ok.mpr ⟨not_not.mpr (h.usesStateV2 hs hversion), bind_eq_ok.mpr ⟨(),
    (h.valid_anchorWith hnext hsupported).validate, bind_eq_ok.mpr ⟨c.height + 1,
      throwIf_bind_eq_ok.mpr ⟨not_not.mpr hsafe, rfl⟩, throwIf_bind_eq_ok.mpr
        ⟨not_not.mpr hverify, rfl⟩⟩⟩⟩

/-- The proof for a scheduled version takes the client to it. -/
theorem activateNextProtocolVersion_scheduled (h : c.Serves K g blocks L) {s : SparseMerkleState}
    (hs : c.stateV2 = some s) (hvalidators : c.validatorsAt height = .ok validators) {old : Int}
    (hold : c.protocolVersionAt c.height = .ok old)
    (hsupported : assertSupportedProtocolVersion old = .ok ())
    (hnew : assertSupportedProtocolVersion version = .ok ())
    (hget : c.governance.protocolSchedule.get (c.height + 1) = some version) :
    ∃ proof, s.prove (protocolScheduleKey (c.height + 1)) = .ok proof ∧
      activateNextProtocolVersion (c.anchorWith validators old) version proof =
        .ok (c.anchorWith validators version) := by
  have hG := h.follows.governed.wellFormed
  have hsafe := (hG.protocol _ (SortedMap.get_eq_some_iff.mp hget)).1.1
  obtain ⟨proof, hproof, hverify⟩ := (h.schedule_proofs (f := .protocolSchedule) hs (fun _ => rfl)
    entryValues_protocolValue version).1 hget
  refine ⟨proof, hproof, ?_⟩
  rw [activateNextProtocolVersion, (h.valid_anchorWith hvalidators hsupported).validate, ok_bind]
  refine throwIf_bind_eq_ok.mpr ⟨not_not.mpr (h.usesStateV2 hs hold), throwIf_bind_eq_ok.mpr
    ⟨?_, bind_eq_ok.mpr ⟨c.height + 1, throwIf_bind_eq_ok.mpr ⟨not_not.mpr hsafe, rfl⟩,
      throwIf_bind_eq_ok.mpr ⟨not_not.mpr hverify, rfl⟩⟩⟩⟩
  rw [not_or, not_not, not_not]
  exact mem_lightClientVersions hnew

/-- What takes effect at the next height was scheduled before the block. -/
theorem inForce_next (h : c.Serves K g blocks L) (haccept : c.acceptBlock block nowMs = .ok c') :
    c'.height = c.height + 1 ∧ c'.validatorsAt c'.height = c.validatorsAt (c.height + 1) ∧
      c'.protocolVersionAt c'.height = c.protocolVersionAt (c.height + 1) := by
  obtain ⟨⟨_, _, _, hreplays⟩, hgenesis, -, -, hheight, -⟩ := replays_of_acceptBlock haccept
  have hnext := hreplays.gates.height_eq
  rw [h.anchored.height] at hnext
  obtain ⟨hvalidators, hversion, -⟩ := (appends_of_acceptBlock haccept).stable
    (by rw [minUpdateDelay]; omega : block.header.height < block.header.height + minUpdateDelay)
    c.genesis.validators
  rw [hheight, Chain.validatorsAt, hgenesis, hvalidators, Chain.protocolVersionAt, hversion, ← hnext]
  exact ⟨rfl, rfl, rfl⟩

/-- The steps for a block take the client from one tip to the next, and a chain with an authenticated
state can hand them out. -/
theorem lightSteps_spec (h : c.Serves K g blocks L) {more : List (Block × Int)} {L' : LedgerState}
    (h' : c'.Serves K g more L') (haccept : c.acceptBlock block nowMs = .ok c')
    {a a' : LightClientAnchor} (ha : c.tipAnchor = .ok a) (ha' : c'.tipAnchor = .ok a') :
    (∀ steps, c.lightSteps block = .ok steps → LightClientAnchor.run steps a = .ok a') ∧
      (c.stateV2 ≠ none → ∃ steps, c.lightSteps block = .ok steps) := by
  obtain ⟨old, oldVersion, hold, holdVersion, hsupported, htip⟩ := h.tipAnchor_eq_ok
  obtain ⟨validators, version, hvalidators, hversion, hnew, htip'⟩ := h'.tipAnchor_eq_ok
  obtain rfl := Except.ok.inj (htip.symm.trans ha)
  obtain rfl := Except.ok.inj (htip'.symm.trans ha')
  obtain ⟨hheight, hnext, hnextVersion⟩ := h.inForce_next haccept
  have hsafe : IsSafeInteger (c.height + 1) := hheight ▸ h'.height_bounds.1
  have hheader := verifyNextFinalizedHeader_tip h.anchored h'.anchored h.follows.governed.genesis
    haccept hvalidators hversion (h.valid_anchorWith (hnext.symm.trans hvalidators) hnew)
  rw [hnext, h.validatorsAt_succ hsafe hold] at hvalidators
  rw [hnextVersion, h.protocolVersionAt_succ hsafe holdVersion] at hversion
  have hfirst := run_activationSteps .validators
    (c.governance.validatorSchedule.get (c.height + 1)) (c.anchorWith old oldVersion)
    (c.anchorWith validators oldVersion)
    (fun hget => by rw [hget, Option.getD_none] at hvalidators; rw [Except.ok.inj hvalidators])
    fun vs s hget hs => by
      rw [hget] at hvalidators
      obtain rfl := Except.ok.inj hvalidators
      exact h.activateNextValidatorSet_scheduled hs hold holdVersion hsupported hget
  have hsecond := run_activationSteps .protocolVersion
    (c.governance.protocolSchedule.get (c.height + 1)) (c.anchorWith validators oldVersion)
    (c.anchorWith validators version)
    (fun hget => by rw [hget, Option.getD_none] at hversion; rw [Except.ok.inj hversion])
    fun v s hget hs => by
      rw [hget] at hversion
      obtain rfl := Except.ok.inj hversion
      exact h.activateNextProtocolVersion_scheduled hs
        (hvalidators ▸ h.validatorsAt_succ hsafe hold) holdVersion hsupported hnew hget
  refine ⟨fun steps hsteps => ?_, fun hs => ?_⟩
  · obtain ⟨first, hfirst', hsteps⟩ := bind_eq_ok.mp hsteps
    obtain ⟨second, hsecond', hsteps⟩ := bind_eq_ok.mp hsteps
    obtain rfl := Except.ok.inj hsteps
    rw [LightClientAnchor.run_append, LightClientAnchor.run_append, hfirst.1 first hfirst', ok_bind,
      hsecond.1 second hsecond', ok_bind, LightClientAnchor.run, LightClientAnchor.step, hheader,
      ok_bind]
    rfl
  · obtain ⟨first, hfirst'⟩ := hfirst.2 hs
    obtain ⟨second, hsecond'⟩ := hsecond.2 hs
    exact ⟨_, bind_eq_ok.mpr ⟨first, hfirst', bind_eq_ok.mpr ⟨second, hsecond', rfl⟩⟩⟩

end Serves

/-- From the anchor of a tip, what the chain hands out for the blocks that follow takes the client to
the anchor of the new tip. -/
theorem light_client_follows (hcreate : create g = .ok c₀) (hrun : c₀.acceptBlocks blocks = .ok c)
    {more : List (Block × Int)} (hmore : c.acceptBlocks more = .ok c') :
    (∃ a a', c.tipAnchor = .ok a ∧ c'.tipAnchor = .ok a' ∧
      (∀ steps, c.serve more = .ok steps → LightClientAnchor.run steps a = .ok a') ∧
      (c.stateV2 ≠ none → (∀ e ∈ more, e.1.header.version ≠ 1) →
        ∃ steps, c.serve more = .ok steps)) ∨
      ByteCollision (SparseMerkleState.keyEncodings
        ((runKeys g (blocks ++ more)).map SemanticKey.text)) := by
  refine (keysDistinct_or_collision (runKeys g (blocks ++ more))).imp_left fun hK => ?_
  generalize hkeys : runKeys g (blocks ++ more) = K at hK
  induction more generalizing blocks c with
  | nil =>
    obtain rfl : c = c' := Except.ok.inj hmore
    rw [append_nil] at hkeys
    obtain ⟨L, h⟩ := serves hK (fun _ hk => hkeys ▸ hk) hcreate hrun
    obtain ⟨_, _, _, _, _, ha⟩ := h.tipAnchor_eq_ok
    exact ⟨_, _, ha, ha, fun steps hsteps => by cases hsteps; rfl, fun _ _ => ⟨_, rfl⟩⟩
  | cons entry more ih =>
    obtain ⟨block, nowMs⟩ := entry
    obtain ⟨c₁, haccept, hmore⟩ := bind_eq_ok.mp hmore
    have hrun' : c₀.acceptBlocks (blocks ++ [(block, nowMs)]) = .ok c₁ :=
      acceptBlocks_append hrun (bind_eq_ok.mpr ⟨c₁, haccept, rfl⟩)
    rw [← singleton_append, ← append_assoc] at hkeys
    obtain ⟨a₁, a', ha₁, ha', hserve, hexists⟩ := ih hrun' hmore hkeys
    have hprefix : ∀ k ∈ runKeys g (blocks ++ [(block, nowMs)]), k ∈ K := fun k hk => by
      rw [← hkeys, runKeys, flatMap_append, ← append_assoc]
      exact mem_append_left _ hk
    obtain ⟨L₁, h₁⟩ := serves hK hprefix hcreate hrun'
    obtain ⟨L, h⟩ := serves hK (fun k hk => hprefix k (by
      rw [runKeys, flatMap_append, ← append_assoc]
      exact mem_append_left _ hk)) hcreate hrun
    obtain ⟨_, _, _, _, _, ha⟩ := h.tipAnchor_eq_ok
    have hspec := h.lightSteps_spec h₁ haccept ha ha₁
    refine ⟨_, a', ha, ha', fun steps hsteps => ?_, fun hs hversions => ?_⟩
    · rw [serve] at hsteps
      obtain ⟨first, hfirst, hsteps⟩ := bind_eq_ok.mp hsteps
      rw [haccept, ok_bind] at hsteps
      obtain ⟨rest, hrest, hsteps⟩ := bind_eq_ok.mp hsteps
      obtain rfl := Except.ok.inj hsteps
      rw [LightClientAnchor.run_append, hspec.1 first hfirst, ok_bind]
      exact hserve rest hrest
    · -- a chain whose tip is past the first version has an authenticated state
      rw [forall_mem_cons] at hversions
      have hs₁ : c₁.stateV2 ≠ none := by
        intro hnone
        obtain ⟨version, hversion, -, htip, -⟩ := h₁.anchored.state
        obtain ⟨-, -, -, hblock, -⟩ := replays_of_acceptBlock haccept
        exact hversions.1 (by rw [← hblock, htip, h₁.version_of_none hnone hversion])
      obtain ⟨first, hfirst⟩ := hspec.2 hs
      obtain ⟨rest, hrest⟩ := hexists hs₁ hversions.2
      exact ⟨_, bind_eq_ok.mpr ⟨first, hfirst, bind_eq_ok.mpr ⟨c₁, haccept, bind_eq_ok.mpr
        ⟨rest, hrest, rfl⟩⟩⟩⟩

end Chain

/-! ### Clients in a network -/

/-- What an accepted header establishes under protocol v6. -/
theorem verifyNextFinalizedHeader_eq_ok {a a' : LightClientAnchor} {p : LightFinalityProof}
    (hv6 : isConsensusV6 a.protocolVersion = true) (h : verifyNextFinalizedHeader a p = .ok a') :
    p.header.height = a.height + 1 ∧ p.hash = blockHash p.header ∧
      validateCommitCertificate p.block a.validators = .ok () ∧
      a' = { a with
        height := p.header.height
        blockHash := p.hash
        stateRoot := p.header.stateRoot
        timestampMs := p.header.timestampMs } := by
  rw [verifyNextFinalizedHeader, validateLightHeaderChain] at h
  simp only [unit_bind_eq_ok, throwIf_eq_ok, ne_eq, not_not] at h
  obtain ⟨-, -, -, -, ⟨-, hheight, -, -, -, hhash⟩, h⟩ := h
  obtain ⟨_, -, h⟩ := bind_eq_ok.mp h
  simp only [unit_bind_eq_ok] at h
  obtain ⟨-, -, hcertificates, h⟩ := h
  rw [validateLightCertificates, if_pos hv6, unit_bind_eq_ok] at hcertificates
  exact ⟨hheight, hhash, hcertificates.2, (Except.ok.inj h).symm⟩

end

section

attribute [local instance] OneValidator.oneCrypto

/-- The header of its block takes a client of `OneValidator` from the genesis block to the tip. -/
theorem light_client_follows_oneValidator :
    (∃ a a', OneValidator.start.tipAnchor = .ok a ∧ OneValidator.next.tipAnchor = .ok a' ∧
      LightClientAnchor.run [.header (finalityProof OneValidator.block)] a = .ok a') ∨
      ByteCollision (SparseMerkleState.keyEncodings
        ((runKeys OneValidator.genesis [(OneValidator.block, 1)]).map SemanticKey.text)) := by
  have hserve : OneValidator.start.serve [(OneValidator.block, 1)] =
      .ok [.header (finalityProof OneValidator.block)] :=
    bind_eq_ok.mpr ⟨_, rfl, bind_eq_ok.mpr ⟨_, OneValidator.acceptBlock_block, rfl⟩⟩
  have hstart : OneValidator.start.acceptBlocks [] = .ok OneValidator.start := rfl
  refine (Chain.light_client_follows OneValidator.create_genesis hstart
    OneValidator.acceptBlocks_block).imp_left ?_
  rintro ⟨a, a', ha, ha', hrun, -⟩
  exact ⟨a, a', ha, ha', hrun _ hserve⟩

end

namespace CommitteeOfOne

attribute [local instance] v6Crypto

/-- The anchor of a client before the height of the committee. -/
def anchor : LightClientAnchor where
  version := 1
  chainId := "zyron"
  genesisHash := hash
  height := 1
  blockHash := hash
  stateRoot := hash
  timestampMs := 1000
  protocolVersion := 6
  validators := [validator]

end CommitteeOfOne

end ZyronChain
