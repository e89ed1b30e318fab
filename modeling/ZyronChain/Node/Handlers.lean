import ZyronChain.Node.State

/-!
# The request handlers of a validator node

Every signature of a validator comes from one of these handlers.  A handler checks its request,
then does what its `Plan` says: it writes files, reserves the action in the signing journal, writes
more files, and signs.  The handlers of a node run one at a time.

The bookkeeping of repeated proposals is an input: a budget of validations answers that a proposal
is refused, or whether its hash was validated before.

Source: `l1/src/node-base.ts` (`attestProposal`, `signPreparedProposal`, `requestSkipVote`,
`v6Prepare`, `v6Commit`, `v6Timeout`, `v6SignFreshBlock`, `v6SignProposal`, `v6StoredProposal`).

## Main definitions

* `NodeCall` : the calls of the handlers.
* `Node.plan` : what a handler does.

## Main results

* `Node.Planned`, `Node.planned_of_plan` : what a handler checked, and its plan.
-/

namespace ZyronChain

open Checks

/-- The height that a node decides on, with its validators. -/
structure V6Context where
  height : Int
  chainId : String
  validators : List Validator

/-- `BLOCK_INTERVAL_MS`. -/
def blockIntervalMs : Int := 30000

/-- `ROUND_WINDOW_MS`. -/
def roundWindowMs : Int := 30000

/-- The error of a proposal that conflicts with a journaled vote. -/
def conflictingProposal : String :=
  "Conflicting validator action prevented for consensus round " ++
    "(Proposal validation budget exhausted for this proposer slot)"

namespace Node

/-- What the next height of the chain of a node is decided with. -/
def context (n : Node) : V6Context where
  height := n.chain.height + 1
  chainId := n.chain.chainId
  validators := n.chain.validatorsAt (n.chain.height + 1)

def v6Context (n : Node) : Except String V6Context := do
  throwIf (¬ isConsensusV6 (n.chain.protocolVersionAt (n.chain.height + 1)) = true)
    "Protocol v6 consensus is not active at the next height"
  .ok n.context

def v6Member (n : Node) (validators : List Validator) : Except String Unit :=
  throwIf (¬ ∃ v ∈ validators, v.publicKey = n.publicKey)
    "Configured validator key is not in genesis"

def assertLegacyConsensusHeight (n : Node) (height : Int) : Except String Unit :=
  throwIf (IsSafeInteger height ∧ height ≥ 0 ∧
    isConsensusV6 (n.chain.protocolVersionAt height) = true)
    "Legacy consensus messages are not accepted at protocol v6 heights"

theorem v6Context_eq_ok {n : Node} {ctx : V6Context} :
    n.v6Context = .ok ctx ↔
      isConsensusV6 (n.chain.protocolVersionAt (n.chain.height + 1)) = true ∧ n.context = ctx := by
  rw [v6Context, throwIf_bind_eq_ok, not_not, Except.ok.injEq]

/-- The height of a block that passed the gates is not one of protocol v6 for a legacy handler. -/
private theorem legacy_of_assert {n : Node} {height : Int}
    (h : n.assertLegacyConsensusHeight height = .ok ())
    (hsafe : IsSafeInteger height ∧ 0 ≤ height) :
    n.chain.protocolVersionAt height ≠ consensusV6ProtocolVersion := by
  rw [assertLegacyConsensusHeight, throwIf_eq_ok] at h
  intro hv6
  exact h ⟨hsafe.1, hsafe.2, by rw [hv6]; decide⟩

section

variable [Crypto]

/-! ### Consensus-state files -/

/-- `v6HighQC`: the recorded certificate of the next height, if it is valid. -/
def v6HighQC (n : Node) : Option PrepareQC :=
  (n.files.highQC n.context.height).filter fun qc =>
    (validatePrepareQC qc n.context.validators n.context.chainId n.context.height).isOk

def v6RecordQC (n : Node) (qc : PrepareQC) : List FileWrite :=
  if ∃ current, n.v6HighQC = some current ∧ current.round ≥ qc.round then []
  else [.highQC n.context.height qc]

/-- `v6ReadBlock`, at the next height. -/
def v6ReadBlock (n : Node) (hash : String) : Option Block :=
  if IsHash64 hash then
    (n.files.block n.context.height hash).filter fun block =>
      (do validateBlockStructure block
          validateBlockTransactions block
          assertV6ProposalBlockIntegrity block n.context.height hash n.context.validators).isOk
  else none

def v6StoreBlock (n : Node) (block : Block) : List FileWrite :=
  if (n.v6ReadBlock block.hash).isSome then [] else [.block n.context.height block]

/-! ### Protocol v6 -/

/-- `validateProposalWithinBudget`, up to the reservation.  The hash that the journal holds for the
round is always allowed, any other is refused. -/
def validateProposalWithinBudget {α : Type} [DecidableEq α] (n : Node) (block : Block) (nowMs : Int)
    (reservation : Option α) (expectedReservation : α) (budget : Except String Bool) :
    Except String Unit := do
  throwIf (∃ r, reservation = some r ∧ r ≠ expectedReservation) conflictingProposal
  let alreadyValidated ← budget
  n.chain.validateProposal block nowMs alreadyValidated

def v6RecordJustify (n : Node) : Option PrepareQC → List FileWrite
  | none => []
  | some justify => n.v6RecordQC justify

def v6Prepare (n : Node) (request : V6PrepareRequest) (nowMs : Int) (budget : Except String Bool) :
    Except String Plan := do
  validateBlockStructure request.block
  let ctx ← n.v6Context
  n.v6Member ctx.validators
  let justify ← validatePrepareRequestCertificates request ctx.validators ctx.chainId ctx.height true
  let round := request.proposal.payload.round
  n.validateProposalWithinBudget request.block nowMs
    ((n.journal.journal.v6HeightState ctx.height).rows.get (round, .prepare)) request.block.hash
    budget
  .ok {
    before := n.v6RecordJustify justify
    request := some (.v6Prepare ctx.height round request.block.hash
      request.proposal.payload.justifyRound)
    after := n.v6StoreBlock request.block
    message := .prepareVote ctx.chainId ctx.height round request.block.hash }

def v6Commit (n : Node) (request : V6CommitRequest) : Except String Plan := do
  let qc := request.qc
  let block := request.block
  validateBlockStructure block
  let ctx ← n.v6Context
  n.v6Member ctx.validators
  validatePrepareQC qc ctx.validators ctx.chainId ctx.height
  throwIf (block.hash ≠ qc.blockHash ∨ blockHash block.header ≠ block.hash ∨
    block.header.height ≠ ctx.height ∨ block.header.chainId ≠ ctx.chainId ∨
    block.header.version ≠ consensusV6ProtocolVersion)
    "v6 commit block does not match its prepare QC"
  assertV6ProposalBlockIntegrity block ctx.height qc.blockHash ctx.validators
  validateBlockTransactions block
  .ok {
    before := n.v6StoreBlock block ++ n.v6RecordQC qc
    request := some (.v6Commit ctx.height qc.round qc.blockHash)
    after := []
    message := .commitVote ctx.chainId ctx.height qc.round qc.blockHash }

def timeoutDigest (payload : V6TimeoutPayload) : String := sha256Hex (canonicalText payload.toJson)

def proposalDigest (payload : V6ProposalPayload) : String :=
  sha256Hex (canonicalText payload.toJson)

/-- The certificate that goes with a stored timeout. -/
def checkStoredQC (ctx : V6Context) (payload : V6TimeoutPayload) (highQC : Option PrepareQC) :
    Except String Unit :=
  if payload.highQCRound ≥ 0 then
    match highQC with
    | none => .error "stored timeout QC mismatch"
    | some qc => do
      validatePrepareQC qc ctx.validators ctx.chainId ctx.height
      throwIf (qc.round ≠ payload.highQCRound ∨ qc.blockHash ≠ payload.highQCHash)
        "stored timeout QC mismatch"
  else .ok ()

/-- The timeout vote of a round that the journal already holds: the stored payload must be the one
that was journaled. -/
def storedTimeout (n : Node) (ctx : V6Context) (round : Int) (existing : String) :
    Except String Plan :=
  match n.files.timeout ctx.height round with
  | none => .error "Stored timeout vote is unavailable"
  | some (payload, highQC) => do
    throwIf (timeoutDigest payload ≠ existing ∨
      ¬ (checkStoredQC ctx payload highQC).isOk = true) "Stored timeout vote is unavailable"
    .ok { before := [], request := none, after := [], message := .roundTimeout payload }

def timeoutPayload (ctx : V6Context) (round : Int) (highQC : Option PrepareQC) :
    V6TimeoutPayload where
  chainId := ctx.chainId
  height := ctx.height
  round := round
  highQCRound := (highQC.map PrepareQC.round).getD (-1)
  highQCHash := (highQC.map PrepareQC.blockHash).getD zeroHash

def freshTimeout (n : Node) (ctx : V6Context) (round : Int) : Except String Plan := do
  let state := n.journal.journal.v6HeightState ctx.height
  throwIf (state.maxVoteRound > round ∨ state.maxTimeoutRound > round)
    "Validator has already moved past this round"
  throwIf (∃ qc, n.v6HighQC = some qc ∧ qc.round > round)
    "Validator holds a QC above the requested round"
  let payload := timeoutPayload ctx round n.v6HighQC
  .ok {
    before := [.timeout ctx.height round payload n.v6HighQC]
    request := some (.v6 ctx.height round .timeout (timeoutDigest payload))
    after := []
    message := .roundTimeout payload }

def v6Timeout (n : Node) (height round nowMs : Int) : Except String Plan := do
  throwIf (¬ IsSafeInteger round ∨ round < 0 ∨ round > v6MaxRound) "Invalid v6 timeout request"
  let ctx ← n.v6Context
  throwIf (height ≠ ctx.height) "Invalid v6 timeout request"
  n.v6Member ctx.validators
  throwIf (nowMs < timeoutAllowedAt n.chain.tip.header.timestampMs round)
    "Round timeout deadline has not elapsed"
  match (n.journal.journal.v6HeightState height).rows.get (round, .timeout) with
  | some existing => n.storedTimeout ctx round existing
  | none => n.freshTimeout ctx round

/-- The own block of a leader: the check of the proposer. -/
def assertOwnProposal (n : Node) (block : Block) : Except String Unit :=
  throwIf (block.proposerPublicKey ≠ some n.publicKey)
    "Configured validator is not the block proposer"

/-- `v6SignFreshBlock`, with the signature that the signer returns. -/
def v6SignFreshBlock (n : Node) (block : Block) (signature : String) (nowMs : Int) :
    Except String Plan := do
  let ctx ← n.v6Context
  throwIf (block.header.height ≠ ctx.height) "v6 block is not for the next height"
  n.chain.validatePreparedUnsignedBlock block nowMs
  n.assertOwnProposal block
  .ok {
    before := []
    request := some (.v6 ctx.height block.header.round .blockProposal block.hash)
    after := n.v6StoreBlock { block with signature := some signature }
    message := .blockProposal block.header }

/-- The round of the justification of a proposal. -/
def proposalJustifyRound (ctx : V6Context) (round : Int) :
    Option TimeoutCertificate → Except String Int
  | none => .ok (-1)
  | some tc =>
    if round = 0 then .ok (-1)
    else validateTimeoutCertificate tc ctx.validators ctx.chainId ctx.height (round - 1)

/-- The signature of a proposal that is checked before it is signed. -/
def unsignedProposal : String := String.ofList (List.replicate 128 '0')

/-- `v6SignProposalLocked`. -/
def v6SignProposal (n : Node) (round : Int) (block : Block) (tc : Option TimeoutCertificate) :
    Except String Plan := do
  let ctx ← n.v6Context
  let leader ← expectedValidator ctx.validators ctx.height round
  throwIf (leader.publicKey ≠ n.publicKey) "Configured validator is not the round leader"
  let justifyRound ← proposalJustifyRound ctx round tc
  let payload : V6ProposalPayload := ⟨ctx.chainId, ctx.height, round, block.hash, justifyRound⟩
  let _ ← validatePrepareRequestCertificates ⟨⟨payload, unsignedProposal⟩, block, tc⟩
    ctx.validators ctx.chainId ctx.height false
  let rows := (n.journal.journal.v6HeightState ctx.height).rows
  throwIf (justifyRound = -1 ∧ rows.get (round, .blockProposal) ≠ some block.hash)
    "Unjustified v6 proposal must carry this leader's own fresh block"
  .ok {
    before := n.v6StoreBlock block ++
      if rows.get (round, .proposal) = none then [.proposal ctx.height round payload tc] else []
    request := some (.v6 ctx.height round .proposal (proposalDigest payload))
    after := []
    message := .consensusProposal payload }

/-- The timeout certificate of a stored proposal. -/
def validateStoredTc (ctx : V6Context) (round : Int) :
    Option TimeoutCertificate → Except String Unit
  | none => .ok ()
  | some tc => do
    let _ ← validateTimeoutCertificate tc ctx.validators ctx.chainId ctx.height (round - 1)
    .ok ()

/-- `v6StoredProposal`: the stored proposal of a round is signed again. -/
def v6StoredProposal (n : Node) (round : Int) : Except String Plan := do
  let ctx ← n.v6Context
  match (n.journal.journal.v6HeightState ctx.height).rows.get (round, .proposal),
    n.files.proposal ctx.height round with
  | some digest, some (payload, tc) => do
    throwIf (proposalDigest payload ≠ digest ∨ payload.height ≠ ctx.height ∨
      payload.round ≠ round ∨ payload.chainId ≠ ctx.chainId) "unavailable"
    match n.v6ReadBlock payload.blockHash with
    | none => .error "unavailable"
    | some block => do
      validateStoredTc ctx round tc
      n.v6SignProposal round block tc
  | _, _ => .error "unavailable"

/-! ### Before protocol v6 -/

def attestProposal (n : Node) (block : Block) (nowMs : Int) (budget : Except String Bool) :
    Except String Plan := do
  validateBlockStructure block
  n.assertLegacyConsensusHeight block.header.height
  n.validateProposalWithinBudget block nowMs
    (n.journal.journal.reservations.get (block.header.height, block.header.round))
    (.attest, block.hash) budget
  n.v6Member (n.chain.validatorsAt block.header.height)
  .ok {
    before := []
    request := some (.attestation block.header.height block.header.round block.hash)
    after := []
    message := .blockAttestation block }

def signPreparedProposal (n : Node) (block : Block) (nowMs : Int) : Except String Plan := do
  n.assertLegacyConsensusHeight block.header.height
  n.chain.validatePreparedUnsignedBlock block nowMs
  n.assertOwnProposal block
  .ok {
    before := []
    request := some (.attestation block.header.height block.header.round block.hash)
    after := []
    message := .blockProposal block.header }

/-- The certificate of the round before, in a request for a skip vote. -/
def validatePreviousRound (n : Node) (height round : Int) (previousCertificate : List RoundSkipVote) :
    Except String Unit :=
  if round = 0 then
    throwIf (previousCertificate.length ≠ 0)
      "Round 0 skip must not contain a predecessor certificate"
  else
    validateRoundSkipQuorum previousCertificate (n.chain.validatorsAt height) n.chain.chainId height
      (round - 1) n.chain.tip.hash (n.chain.protocolVersionAt height)

def skipVote (n : Node) (height round : Int) : RoundSkipVote where
  validator := addressFromPublicKey n.publicKey
  publicKey := n.publicKey
  chainId := n.chain.chainId
  height := height
  round := round
  previousHash := n.chain.tip.hash
  signature := ""

def requestSkipVote (n : Node) (height round : Int) (previousCertificate : List RoundSkipVote)
    (nowMs : Int) : Except String Plan := do
  throwIf (¬ IsSafeInteger height ∨ height ≠ n.chain.height + 1 ∨ ¬ IsSafeInteger round ∨ round < 0)
    "Invalid round skip request"
  n.assertLegacyConsensusHeight height
  throwIf (nowMs < n.chain.tip.header.timestampMs + blockIntervalMs + (round + 1) * roundWindowMs)
    "Round skip deadline has not elapsed"
  n.validatePreviousRound height round previousCertificate
  n.v6Member (n.chain.validatorsAt height)
  .ok {
    before := []
    request := some (.skip height round n.chain.tip.hash)
    after := []
    message := .roundSkip (n.chain.protocolVersionAt height) (n.skipVote height round) }

end

end Node

/-! ### Calls -/

/-- A call of a handler, with the answers it depends on: of the budget of validations, and of the
signer where the signature is stored. -/
inductive NodeCall where
  | v6Prepare (request : V6PrepareRequest) (budget : Except String Bool)
  | v6Commit (request : V6CommitRequest)
  | v6Timeout (height round : Int)
  | v6SignFreshBlock (block : Block) (signature : String)
  | v6SignProposal (round : Int) (block : Block) (tc : Option TimeoutCertificate)
  | v6StoredProposal (round : Int)
  | attestProposal (block : Block) (budget : Except String Bool)
  | signPreparedProposal (block : Block)
  | requestSkipVote (height round : Int) (previousCertificate : List RoundSkipVote)

def PrepareQC.signatures (qc : PrepareQC) : List String := qc.votes.map Vote.signature

def TimeoutCertificate.signatures (tc : TimeoutCertificate) : List String :=
  tc.votes.map V6TimeoutVote.signature ++ (tc.highQC.map PrepareQC.signatures).getD []

/-- The signatures of the votes that a call brings from outside. -/
def NodeCall.signatures : NodeCall → List String
  | v6Prepare request _ => (request.tc.map TimeoutCertificate.signatures).getD []
  | v6Commit request => request.qc.signatures
  | v6SignProposal _ _ tc => (tc.map TimeoutCertificate.signatures).getD []
  | attestProposal block _ | signPreparedProposal block =>
    block.roundCertificate.map RoundSkipVote.signature
  | requestSkipVote _ _ previousCertificate => previousCertificate.map RoundSkipVote.signature
  | v6Timeout .. | v6SignFreshBlock .. | v6StoredProposal .. => []

namespace Node

variable [Crypto]

def handle (n : Node) (nowMs : Int) : NodeCall → Except String Plan
  | .v6Prepare request budget => n.v6Prepare request nowMs budget
  | .v6Commit request => n.v6Commit request
  | .v6Timeout height round => n.v6Timeout height round nowMs
  | .v6SignFreshBlock block signature => n.v6SignFreshBlock block signature nowMs
  | .v6SignProposal round block tc => n.v6SignProposal round block tc
  | .v6StoredProposal round => n.v6StoredProposal round
  | .attestProposal block budget => n.attestProposal block nowMs budget
  | .signPreparedProposal block => n.signPreparedProposal block nowMs
  | .requestSkipVote height round previousCertificate =>
    n.requestSkipVote height round previousCertificate nowMs

/-- What a call does: every handler checks the clock first. -/
def plan (n : Node) (call : NodeCall) (nowMs : Int) : Except String Plan := do
  n.clock.assertValidatorClock nowMs
  n.handle nowMs call

/-! ### What a handler checked -/


/-- The plans of the handlers, with what they checked.  Every action is for the next height. -/
inductive Planned (n : Node) : NodeCall → Plan → Prop
  | v6Prepare {request : V6PrepareRequest} {budget : Except String Bool} {justify : Option PrepareQC}
      (valid : PrepareRequestValid request n.context.validators n.context.chainId n.context.height
        justify) :
      Planned n (.v6Prepare request budget)
        { before := n.v6RecordJustify justify
          request := some (.v6Prepare n.context.height request.proposal.payload.round
            request.block.hash request.proposal.payload.justifyRound)
          after := n.v6StoreBlock request.block
          message := .prepareVote n.context.chainId n.context.height
            request.proposal.payload.round request.block.hash }
  | v6Commit {request : V6CommitRequest}
      (valid : validatePrepareQC request.qc n.context.validators n.context.chainId
        n.context.height = .ok ()) :
      Planned n (.v6Commit request)
        { before := n.v6StoreBlock request.block ++ n.v6RecordQC request.qc
          request := some (.v6Commit n.context.height request.qc.round request.qc.blockHash)
          after := []
          message := .commitVote n.context.chainId n.context.height request.qc.round
            request.qc.blockHash }
  | storedTimeout {round : Int} {payload : V6TimeoutPayload} {highQC : Option PrepareQC}
      (row : (n.journal.journal.v6HeightState n.context.height).rows.get (round, .timeout) =
        some (timeoutDigest payload))
      (file : n.files.timeout n.context.height round = some (payload, highQC)) :
      Planned n (.v6Timeout n.context.height round)
        { before := [], request := none, after := [], message := .roundTimeout payload }
  | freshTimeout {round : Int}
      (free : (n.journal.journal.v6HeightState n.context.height).rows.get (round, .timeout) = none)
      (notPast : (n.journal.journal.v6HeightState n.context.height).maxVoteRound ≤ round ∧
        (n.journal.journal.v6HeightState n.context.height).maxTimeoutRound ≤ round)
      (highQC_le : ∀ qc, n.v6HighQC = some qc → qc.round ≤ round) :
      Planned n (.v6Timeout n.context.height round)
        { before := [.timeout n.context.height round (timeoutPayload n.context round n.v6HighQC)
            n.v6HighQC]
          request := some (.v6 n.context.height round .timeout
            (timeoutDigest (timeoutPayload n.context round n.v6HighQC)))
          after := []
          message := .roundTimeout (timeoutPayload n.context round n.v6HighQC) }
  | v6SignFreshBlock {block : Block} {signature : String} :
      Planned n (.v6SignFreshBlock block signature)
        { before := []
          request := some (.v6 n.context.height block.header.round .blockProposal block.hash)
          after := n.v6StoreBlock { block with signature := some signature }
          message := .blockProposal block.header }
  | v6SignProposal {call : NodeCall} {round : Int} {block : Block} {tc : Option TimeoutCertificate}
      {justifyRound : Int} {before : List FileWrite}
      (call_eq : (∃ r b t, call = .v6SignProposal r b t) ∨ ∃ r, call = .v6StoredProposal r)
      (before_eq : before = n.v6StoreBlock block ∨ before = n.v6StoreBlock block ++
        [.proposal n.context.height round
          ⟨n.context.chainId, n.context.height, round, block.hash, justifyRound⟩ tc]) :
      Planned n call
        { before := before
          request := some (.v6 n.context.height round .proposal (proposalDigest
            ⟨n.context.chainId, n.context.height, round, block.hash, justifyRound⟩))
          after := []
          message := .consensusProposal
            ⟨n.context.chainId, n.context.height, round, block.hash, justifyRound⟩ }
  | attestProposal {block : Block} {budget : Except String Bool}
      (gates : EnvelopeGates block n.chain.tip n.context.validators
        (n.chain.protocolVersionAt n.context.height))
      (legacy : n.chain.protocolVersionAt n.context.height ≠ consensusV6ProtocolVersion) :
      Planned n (.attestProposal block budget)
        { before := []
          request := some (.attestation n.context.height block.header.round block.hash)
          after := []
          message := .blockAttestation block }
  | signPreparedProposal {block : Block}
      (gates : EnvelopeGates block n.chain.tip n.context.validators
        (n.chain.protocolVersionAt n.context.height))
      (legacy : n.chain.protocolVersionAt n.context.height ≠ consensusV6ProtocolVersion) :
      Planned n (.signPreparedProposal block)
        { before := []
          request := some (.attestation n.context.height block.header.round block.hash)
          after := []
          message := .blockProposal block.header }
  | requestSkipVote {round : Int} {previousCertificate : List RoundSkipVote}
      (round_nonneg : 0 ≤ round)
      (previous : round ≠ 0 → validateRoundSkipQuorum previousCertificate n.context.validators
        n.context.chainId n.context.height (round - 1) n.chain.tip.hash
        (n.chain.protocolVersionAt n.context.height) = .ok ()) :
      Planned n (.requestSkipVote n.context.height round previousCertificate)
        { before := []
          request := some (.skip n.context.height round n.chain.tip.hash)
          after := []
          message := .roundSkip (n.chain.protocolVersionAt n.context.height)
            (n.skipVote n.context.height round) }

variable {n : Node} {block : Block} {nowMs round : Int} {budget : Except String Bool} {p : Plan}

theorem validateProposalWithinBudget_eq_ok {α : Type} [DecidableEq α] {reservation : Option α}
    {expected : α}
    (h : n.validateProposalWithinBudget block nowMs reservation expected budget = .ok ()) :
    EnvelopeGates block n.chain.tip (n.chain.validatorsAt block.header.height)
      (n.chain.protocolVersionAt block.header.height) := by
  rw [validateProposalWithinBudget, throwIf_bind_eq_ok] at h
  obtain ⟨_, -, h⟩ := bind_eq_ok.mp h.2
  rw [ChainView.validateProposal] at h
  obtain ⟨_, -, h⟩ := bind_eq_ok.mp h
  obtain ⟨_, hgates, -⟩ := bind_eq_ok.mp h
  exact envelopeGates_of_validate hgates

theorem validatePreparedUnsignedBlock_eq_ok {chain : ChainView}
    (h : chain.validatePreparedUnsignedBlock block nowMs = .ok ()) :
    EnvelopeGates block chain.tip (chain.validatorsAt block.header.height)
      (chain.protocolVersionAt block.header.height) := by
  rw [ChainView.validatePreparedUnsignedBlock] at h
  obtain ⟨_, -, h⟩ := bind_eq_ok.mp h
  obtain ⟨_, henvelope, -⟩ := bind_eq_ok.mp h
  rw [validateBlockEnvelope] at henvelope
  obtain ⟨_, hgates, -⟩ := bind_eq_ok.mp henvelope
  exact envelopeGates_of_validate hgates

private theorem planned_v6Prepare {request : V6PrepareRequest}
    (h : n.v6Prepare request nowMs budget = .ok p) : n.Planned (.v6Prepare request budget) p := by
  rw [v6Prepare] at h
  obtain ⟨_, -, h⟩ := bind_eq_ok.mp h
  obtain ⟨ctx, hctx, h⟩ := bind_eq_ok.mp h
  obtain ⟨-, rfl⟩ := v6Context_eq_ok.mp hctx
  obtain ⟨_, -, h⟩ := bind_eq_ok.mp h
  obtain ⟨justify, hvalid, h⟩ := bind_eq_ok.mp h
  obtain ⟨_, -, h⟩ := bind_eq_ok.mp h
  cases h
  exact .v6Prepare (validatePrepareRequestCertificates_eq_ok hvalid)

private theorem planned_v6Commit {request : V6CommitRequest} (h : n.v6Commit request = .ok p) :
    n.Planned (.v6Commit request) p := by
  rw [v6Commit] at h
  obtain ⟨_, -, h⟩ := bind_eq_ok.mp h
  obtain ⟨ctx, hctx, h⟩ := bind_eq_ok.mp h
  obtain ⟨-, rfl⟩ := v6Context_eq_ok.mp hctx
  obtain ⟨_, -, h⟩ := bind_eq_ok.mp h
  obtain ⟨_, hvalid, h⟩ := bind_eq_ok.mp h
  rw [throwIf_bind_eq_ok] at h
  obtain ⟨-, h⟩ := h
  obtain ⟨_, -, h⟩ := bind_eq_ok.mp h
  obtain ⟨_, -, h⟩ := bind_eq_ok.mp h
  cases h
  exact .v6Commit hvalid

private theorem planned_v6Timeout {height : Int} (h : n.v6Timeout height round nowMs = .ok p) :
    n.Planned (.v6Timeout height round) p := by
  rw [v6Timeout, throwIf_bind_eq_ok] at h
  obtain ⟨ctx, hctx, h⟩ := bind_eq_ok.mp h.2
  obtain ⟨-, rfl⟩ := v6Context_eq_ok.mp hctx
  rw [throwIf_bind_eq_ok, ne_eq, not_not] at h
  obtain ⟨rfl, h⟩ := h
  obtain ⟨_, -, h⟩ := bind_eq_ok.mp h
  rw [throwIf_bind_eq_ok] at h
  obtain ⟨-, h⟩ := h
  split at h
  · next existing hrow =>
    rw [storedTimeout] at h
    split at h
    · cases h
    · next payload highQC hfile =>
      rw [throwIf_bind_eq_ok, not_or, ne_eq, not_not, Except.ok.injEq] at h
      obtain ⟨⟨hdigest, -⟩, rfl⟩ := h
      exact .storedTimeout (hdigest ▸ hrow) hfile
  · next hrow =>
    rw [freshTimeout, throwIf_bind_eq_ok, throwIf_bind_eq_ok, Except.ok.injEq] at h
    obtain ⟨hpast, hqc, rfl⟩ := h
    rw [not_or, gt_iff_lt, not_lt, gt_iff_lt, not_lt] at hpast
    refine .freshTimeout hrow hpast fun qc hhigh => ?_
    by_contra hlt
    exact hqc ⟨qc, hhigh, not_le.mp hlt⟩

private theorem planned_v6SignFreshBlock {signature : String}
    (h : n.v6SignFreshBlock block signature nowMs = .ok p) :
    n.Planned (.v6SignFreshBlock block signature) p := by
  rw [v6SignFreshBlock] at h
  obtain ⟨ctx, hctx, h⟩ := bind_eq_ok.mp h
  obtain ⟨-, rfl⟩ := v6Context_eq_ok.mp hctx
  rw [throwIf_bind_eq_ok] at h
  obtain ⟨_, -, h⟩ := bind_eq_ok.mp h.2
  obtain ⟨_, -, h⟩ := bind_eq_ok.mp h
  cases h
  exact .v6SignFreshBlock

private theorem planned_v6SignProposal {call : NodeCall} {tc : Option TimeoutCertificate}
    (h : n.v6SignProposal round block tc = .ok p)
    (hcall : (∃ r b t, call = .v6SignProposal r b t) ∨ ∃ r, call = .v6StoredProposal r) :
    n.Planned call p := by
  rw [v6SignProposal] at h
  obtain ⟨ctx, hctx, h⟩ := bind_eq_ok.mp h
  obtain ⟨-, rfl⟩ := v6Context_eq_ok.mp hctx
  obtain ⟨_, -, h⟩ := bind_eq_ok.mp h
  rw [throwIf_bind_eq_ok] at h
  obtain ⟨justifyRound, -, h⟩ := bind_eq_ok.mp h.2
  obtain ⟨_, -, h⟩ := bind_eq_ok.mp h
  rw [throwIf_bind_eq_ok, Except.ok.injEq] at h
  obtain ⟨-, rfl⟩ := h
  refine @Planned.v6SignProposal _ n call round block tc justifyRound _ hcall ?_
  split
  · exact .inr rfl
  · exact .inl (List.append_nil _)

private theorem planned_v6StoredProposal (h : n.v6StoredProposal round = .ok p) :
    n.Planned (.v6StoredProposal round) p := by
  rw [v6StoredProposal] at h
  obtain ⟨ctx, -, h⟩ := bind_eq_ok.mp h
  split at h
  · rw [throwIf_bind_eq_ok] at h
    obtain ⟨-, h⟩ := h
    split at h
    · cases h
    · obtain ⟨_, -, h⟩ := bind_eq_ok.mp h
      exact planned_v6SignProposal h (.inr ⟨_, rfl⟩)
  · cases h

private theorem planned_attestProposal (h : n.attestProposal block nowMs budget = .ok p) :
    n.Planned (.attestProposal block budget) p := by
  rw [attestProposal] at h
  obtain ⟨_, -, h⟩ := bind_eq_ok.mp h
  obtain ⟨_, hlegacy, h⟩ := bind_eq_ok.mp h
  obtain ⟨_, hbudget, h⟩ := bind_eq_ok.mp h
  obtain ⟨_, -, h⟩ := bind_eq_ok.mp h
  have hgates := validateProposalWithinBudget_eq_ok hbudget
  have hlegacy := legacy_of_assert hlegacy hgates.height_safe
  have hheight : block.header.height = n.context.height := hgates.height_eq
  cases h
  rw [hheight] at hgates hlegacy ⊢
  exact .attestProposal hgates hlegacy

private theorem planned_signPreparedProposal (h : n.signPreparedProposal block nowMs = .ok p) :
    n.Planned (.signPreparedProposal block) p := by
  rw [signPreparedProposal] at h
  obtain ⟨_, hlegacy, h⟩ := bind_eq_ok.mp h
  obtain ⟨_, hprepared, h⟩ := bind_eq_ok.mp h
  obtain ⟨_, -, h⟩ := bind_eq_ok.mp h
  have hgates := validatePreparedUnsignedBlock_eq_ok hprepared
  have hlegacy := legacy_of_assert hlegacy hgates.height_safe
  have hheight : block.header.height = n.context.height := hgates.height_eq
  cases h
  rw [hheight] at hgates hlegacy ⊢
  exact .signPreparedProposal hgates hlegacy

private theorem planned_requestSkipVote {height : Int} {previousCertificate : List RoundSkipVote}
    (h : n.requestSkipVote height round previousCertificate nowMs = .ok p) :
    n.Planned (.requestSkipVote height round previousCertificate) p := by
  rw [requestSkipVote, throwIf_bind_eq_ok] at h
  obtain ⟨hslot, h⟩ := h
  simp only [ne_eq, not_or, not_not, not_lt] at hslot
  obtain ⟨_, rfl, _, hround⟩ := hslot
  obtain ⟨_, -, h⟩ := bind_eq_ok.mp h
  rw [throwIf_bind_eq_ok] at h
  obtain ⟨_, hprevious, h⟩ := bind_eq_ok.mp h.2
  obtain ⟨_, -, h⟩ := bind_eq_ok.mp h
  cases h
  refine .requestSkipVote hround fun hne => ?_
  rw [validatePreviousRound, if_neg hne] at hprevious
  exact hprevious

/-- What the handler of a call checked, and its plan. -/
theorem planned_of_plan {call : NodeCall} (h : n.plan call nowMs = .ok p) : n.Planned call p := by
  rw [plan] at h
  obtain ⟨_, -, h⟩ := bind_eq_ok.mp h
  cases call with
  | v6Prepare request budget => exact planned_v6Prepare h
  | v6Commit request => exact planned_v6Commit h
  | v6Timeout height round => exact planned_v6Timeout h
  | v6SignFreshBlock block signature => exact planned_v6SignFreshBlock h
  | v6SignProposal round block tc => exact planned_v6SignProposal h (.inl ⟨_, _, _, rfl⟩)
  | v6StoredProposal round => exact planned_v6StoredProposal h
  | attestProposal block budget => exact planned_attestProposal h
  | signPreparedProposal block => exact planned_signPreparedProposal h
  | requestSkipVote height round previousCertificate => exact planned_requestSkipVote h

end Node

end ZyronChain
