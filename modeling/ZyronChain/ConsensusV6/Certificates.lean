import ZyronChain.Block

/-!
# Protocol v6: messages and certificates

A locked two-phase protocol.  A prepare certificate is a quorum of prepare votes for one block in
one round; a commit certificate, a quorum of commit votes; a timeout certificate, a quorum of
timeout votes of one round, each reporting the highest prepare certificate of its signer, with
the highest one reported.

Source: `l1/src/consensus-v6.ts`.

## Main definitions

* `PrepareQC`, `TimeoutCertificate`, `V6PrepareRequest` : the messages.
* `validateVoteSet`, `validatePrepareQC`, `validateTimeoutCertificate`,
  `validateCommitCertificate` : the validation of certificates.
* `validatePrepareRequestCertificates` : the certificates of a prepare request.

## Main results

* `validateVoteSet_eq_ok` : when a set of votes is accepted.
* `validateTimeoutCertificate_eq_ok`, `validatePrepareRequestCertificates_eq_ok` : what acceptance
  of the other certificates means.
-/

namespace ZyronChain

open Checks

/-- `ZERO_HASH`. -/
def zeroHash : String := "0000000000000000000000000000000000000000000000000000000000000000"

def proposalDomain : String := "zyronchain/consensus-proposal/v1"

def prepareVoteDomain : String := "zyronchain/prepare-vote/v1"

def commitVoteDomain : String := "zyronchain/commit-vote/v1"

def timeoutDomain : String := "zyronchain/round-timeout/v1"

/-! ### Messages -/

structure PrepareQC where
  chainId : String
  height : Int
  round : Int
  blockHash : String
  votes : List Vote
deriving DecidableEq, Repr

structure V6TimeoutPayload where
  chainId : String
  height : Int
  round : Int
  highQCRound : Int
  highQCHash : String
deriving DecidableEq, Repr

structure V6TimeoutVote where
  payload : V6TimeoutPayload
  validator : Address
  publicKey : String
  signature : String
deriving DecidableEq, Repr

structure TimeoutCertificate where
  chainId : String
  height : Int
  round : Int
  votes : List V6TimeoutVote
  highQC : Option PrepareQC
deriving DecidableEq, Repr

structure V6ProposalPayload where
  chainId : String
  height : Int
  round : Int
  blockHash : String
  justifyRound : Int
deriving DecidableEq, Repr

structure V6Proposal where
  payload : V6ProposalPayload
  signature : String
deriving DecidableEq, Repr

structure V6PrepareRequest where
  proposal : V6Proposal
  block : Block
  tc : Option TimeoutCertificate
deriving DecidableEq, Repr

structure V6CommitRequest where
  qc : PrepareQC
  block : Block
deriving DecidableEq, Repr

def votePayload (chainId : String) (height round : Int) (blockHash : String) : Json :=
  .obj [("blockHash", .str blockHash), ("chainId", .str chainId), ("height", .num height),
    ("round", .num round)]

/-- `proposalPayload`. -/
def V6ProposalPayload.toJson (p : V6ProposalPayload) : Json :=
  .obj [("blockHash", .str p.blockHash), ("chainId", .str p.chainId), ("height", .num p.height),
    ("justifyRound", .num p.justifyRound), ("round", .num p.round)]

/-- `timeoutPayload`. -/
def V6TimeoutPayload.toJson (p : V6TimeoutPayload) : Json :=
  .obj [("chainId", .str p.chainId), ("height", .num p.height), ("highQCHash", .str p.highQCHash),
    ("highQCRound", .num p.highQCRound), ("round", .num p.round)]

theorem votePayload_injective {c c' : String} {h h' r r' : Int} {b b' : String}
    (heq : votePayload c h r b = votePayload c' h' r' b') : c = c' ∧ h = h' ∧ r = r' ∧ b = b' := by
  simp only [votePayload, Json.obj.injEq, List.cons.injEq, Prod.mk.injEq, Json.str.injEq,
    Json.num.injEq, true_and, and_true] at heq
  exact ⟨heq.2.1, heq.2.2.1, heq.2.2.2, heq.1⟩

theorem inOrder_votePayload (c : String) (h r : Int) (b : String) : InOrder (votePayload c h r b) :=
  ⟨(by decide : KeysInOrder ["blockHash", "chainId", "height", "round"]), trivial, trivial,
    trivial, trivial, trivial⟩

theorem plain_votePayload (c : String) (h r : Int) (b : String) : (votePayload c h r b).Plain :=
  ⟨(by decide : ["blockHash", "chainId", "height", "round"].Nodup), trivial, trivial, trivial,
    trivial, trivial⟩

theorem V6TimeoutPayload.toJson_injective {p p' : V6TimeoutPayload} (heq : p.toJson = p'.toJson) :
    p = p' := by
  simp only [toJson, Json.obj.injEq, List.cons.injEq, Prod.mk.injEq, Json.str.injEq,
    Json.num.injEq, true_and, and_true] at heq
  obtain ⟨c, h, r, qr, qh⟩ := p
  obtain ⟨c', h', r', qr', qh'⟩ := p'
  obtain ⟨rfl, rfl, rfl, rfl, rfl⟩ := heq
  rfl

theorem V6TimeoutPayload.inOrder_toJson (p : V6TimeoutPayload) : InOrder p.toJson :=
  ⟨(by decide :
      KeysInOrder ["chainId", "height", "highQCHash", "highQCRound", "round"]), trivial, trivial,
    trivial, trivial, trivial, trivial⟩

theorem V6TimeoutPayload.plain_toJson (p : V6TimeoutPayload) : p.toJson.Plain :=
  ⟨(by decide : ["chainId", "height", "highQCHash", "highQCRound", "round"].Nodup), trivial,
    trivial, trivial, trivial, trivial, trivial⟩

/-! ### Shapes -/

/-- `assertHeight`. -/
def assertV6Height (height : Int) (name : String) : Except String Unit :=
  throwIf (¬ IsSafeInteger height ∨ height < 1) s!"Invalid v6 {name} height"

/-- `assertRoundValue`. -/
def assertV6Round (round : Int) (name : String) : Except String Unit :=
  throwIf (¬ IsSafeInteger round ∨ round < 0 ∨ round > v6MaxRound) s!"Invalid v6 {name} round"

/-- `assertChainId`. -/
def assertV6ChainId (chainId name : String) : Except String Unit :=
  throwIf ((utf16 chainId).length < 1 ∨ (utf16 chainId).length > 128)
    s!"Invalid v6 {name} chain ID"

def validateV6VoteShape (vote : Vote) : Except String Unit := do
  assertAddress vote.validator
  assertHex vote.publicKey 64 "v6 vote publicKey"
  assertHex vote.signature 64 "v6 vote signature"

def validateProposalShape (proposal : V6Proposal) : Except String Unit := do
  assertV6ChainId proposal.payload.chainId "proposal"
  assertV6Height proposal.payload.height "proposal"
  assertV6Round proposal.payload.round "proposal"
  assertHex proposal.payload.blockHash 32 "proposal blockHash"
  throwIf (¬ IsSafeInteger proposal.payload.justifyRound ∨ proposal.payload.justifyRound < -1 ∨
    proposal.payload.justifyRound ≥ proposal.payload.round) "Invalid v6 proposal justifyRound"
  assertHex proposal.signature 64 "v6 proposal signature"

def validatePrepareQCShape (qc : PrepareQC) : Except String Unit := do
  assertV6ChainId qc.chainId "prepare QC"
  assertV6Height qc.height "prepare QC"
  assertV6Round qc.round "prepare QC"
  assertHex qc.blockHash 32 "prepare QC blockHash"
  throwIf (qc.votes.length > 100) "Invalid prepare QC votes"
  forEach validateV6VoteShape qc.votes

def validateTimeoutVoteShape (vote : V6TimeoutVote) : Except String Unit := do
  assertAddress vote.validator
  assertHex vote.publicKey 64 "timeout vote publicKey"
  assertHex vote.signature 64 "timeout vote signature"
  assertV6ChainId vote.payload.chainId "timeout vote"
  assertV6Height vote.payload.height "timeout vote"
  assertV6Round vote.payload.round "timeout vote"
  throwIf (¬ IsSafeInteger vote.payload.highQCRound ∨ vote.payload.highQCRound < -1 ∨
    vote.payload.highQCRound > vote.payload.round) "Invalid timeout vote highQCRound"
  assertHex vote.payload.highQCHash 32 "timeout vote highQCHash"
  throwIf (¬ (vote.payload.highQCRound = -1 ↔ vote.payload.highQCHash = zeroHash))
    "Invalid timeout vote highQC report"

def validateTimeoutCertificateShape (tc : TimeoutCertificate) : Except String Unit := do
  assertV6ChainId tc.chainId "timeout certificate"
  assertV6Height tc.height "timeout certificate"
  assertV6Round tc.round "timeout certificate"
  throwIf (tc.votes.length > 100) "Invalid timeout certificate votes"
  forEach validateTimeoutVoteShape tc.votes
  match tc.highQC with
  | none => .ok ()
  | some qc => validatePrepareQCShape qc

/-- The highest round that timeout votes report. -/
def maxReported (votes : List V6TimeoutVote) : Int :=
  votes.foldl (fun m vote => max m vote.payload.highQCRound) (-1)

private theorem le_foldl_max (votes : List V6TimeoutVote) (m : Int) :
    m ≤ votes.foldl (fun m vote => max m vote.payload.highQCRound) m ∧
      ∀ v ∈ votes, v.payload.highQCRound ≤
        votes.foldl (fun m vote => max m vote.payload.highQCRound) m := by
  induction votes generalizing m with
  | nil => simp
  | cons v votes ih =>
    obtain ⟨hm, hall⟩ := ih (max m v.payload.highQCRound)
    refine ⟨(le_max_left _ _).trans hm, fun w hw => ?_⟩
    rcases List.mem_cons.mp hw with rfl | hw
    · exact (le_max_right _ _).trans hm
    · exact hall w hw

theorem le_maxReported {votes : List V6TimeoutVote} {v : V6TimeoutVote} (h : v ∈ votes) :
    v.payload.highQCRound ≤ maxReported votes :=
  (le_foldl_max votes (-1)).2 v h

theorem neg_one_le_maxReported (votes : List V6TimeoutVote) : -1 ≤ maxReported votes :=
  (le_foldl_max votes (-1)).1

section

variable [Crypto]

/-! ### Sets of votes -/

/-- The checks of one vote of a set, after its shape. -/
def validateMemberVote (validators : List Validator) (domain : String) (payload : Json)
    (label : String) (vote : Vote) : Except String Unit := do
  throwIf ((memberMap validators).get vote.validator ≠ some vote.publicKey)
    s!"Unknown {label} validator"
  throwIf (¬ verifyCanonicalDomain domain payload vote.signature vote.publicKey = true)
    s!"Invalid {label} signature"

def validateVoteSet (votes : List Vote) (validators : List Validator) (domain : String)
    (payload : Json) (label : String) : Except String Unit := do
  throwIf (votes.length > validators.length) s!"{label} exceeds active validator set"
  forDistinct Vote.validator s!"Duplicate {label} vote" validateV6VoteShape
    (validateMemberVote validators domain payload label) [] votes
  assertQuorum votes.length validators.length label

def validatePrepareQC (qc : PrepareQC) (validators : List Validator) (chainId : String)
    (height : Int) : Except String Unit := do
  validatePrepareQCShape qc
  throwIf (qc.chainId ≠ chainId) "Prepare QC chain ID mismatch"
  throwIf (qc.height ≠ height) "Prepare QC height mismatch"
  validateVoteSet qc.votes validators prepareVoteDomain
    (votePayload chainId height qc.round qc.blockHash) "Prepare QC"

def validateTimeoutVote (vote : V6TimeoutVote) (members : JsMap Address String) (chainId : String)
    (height round : Int) : Except String Unit := do
  validateTimeoutVoteShape vote
  throwIf (vote.payload.chainId ≠ chainId ∨ vote.payload.height ≠ height ∨
    vote.payload.round ≠ round) "Timeout vote target mismatch"
  throwIf (members.get vote.validator ≠ some vote.publicKey) "Unknown timeout vote validator"
  throwIf (¬ verifyCanonicalDomain timeoutDomain vote.payload.toJson vote.signature
    vote.publicKey = true) "Invalid timeout vote signature"

/-- The checks of the certificate that a timeout certificate carries. -/
def validateHighQC (tc : TimeoutCertificate) (validators : List Validator) (chainId : String)
    (height : Int) : Except String Int :=
  if maxReported tc.votes < 0 then do
    throwIf (tc.highQC ≠ none) "Timeout certificate carries an unreported QC"
    .ok (-1)
  else
    match tc.highQC with
    | none => .error "Timeout certificate is missing the highest reported QC"
    | some qc => do
      validatePrepareQC qc validators chainId height
      throwIf (qc.round ≠ maxReported tc.votes)
        "Timeout certificate QC is not the highest reported QC"
      throwIf (∃ vote ∈ tc.votes, vote.payload.highQCRound = maxReported tc.votes ∧
        vote.payload.highQCHash ≠ qc.blockHash)
        "Timeout certificate QC does not match a highest-round report"
      .ok (maxReported tc.votes)

def validateTimeoutCertificate (tc : TimeoutCertificate) (validators : List Validator)
    (chainId : String) (height round : Int) : Except String Int := do
  validateTimeoutCertificateShape tc
  throwIf (tc.chainId ≠ chainId ∨ tc.height ≠ height ∨ tc.round ≠ round)
    "Timeout certificate target mismatch"
  throwIf (tc.votes.length > validators.length) "Timeout certificate exceeds active validator set"
  forDistinct V6TimeoutVote.validator "Duplicate timeout vote" (fun _ => .ok ())
    (fun vote => validateTimeoutVote vote (memberMap validators) chainId height round) [] tc.votes
  assertQuorum tc.votes.length validators.length "Timeout certificate"
  validateHighQC tc validators chainId height

/-! ### Prepare requests -/

def verifyProposalSignature (proposal : V6Proposal) (validators : List Validator) :
    Except String Unit := do
  let leader ← expectedValidator validators proposal.payload.height proposal.payload.round
  throwIf (¬ verifyCanonicalDomain proposalDomain proposal.payload.toJson proposal.signature
    leader.publicKey = true) "Invalid v6 proposal signature"

/-- A leader checks its own request before it has signed it. -/
def checkProposalSignature (check : Bool) (proposal : V6Proposal) (validators : List Validator) :
    Except String Unit :=
  if check then verifyProposalSignature proposal validators else .ok ()

/-- The checks of a justified proposal: the leader proposes the block of the highest reported
certificate again, or a fresh one when none was reported. -/
def validateJustification (request : V6PrepareRequest) (tc : TimeoutCertificate)
    (reported : Int) : Except String (Option PrepareQC) := do
  throwIf (request.proposal.payload.justifyRound ≠ reported)
    "v6 proposal does not extend the highest reported QC"
  if reported = -1 then do
    throwIf (request.block.header.round ≠ request.proposal.payload.round)
      "Unjustified v6 proposal must carry a fresh block"
    .ok none
  else
    match tc.highQC with
    | none => .error "Timeout certificate is missing the highest reported QC"
    | some justify => do
      throwIf (justify.blockHash ≠ request.block.hash)
        "v6 proposal block does not match its justification"
      throwIf (request.block.header.round > justify.round)
        "v6 justified block is newer than its QC"
      .ok (some justify)

def validatePrepareRequestCertificates (request : V6PrepareRequest) (validators : List Validator)
    (chainId : String) (height : Int) (checkSignature : Bool) :
    Except String (Option PrepareQC) := do
  let proposal := request.proposal
  validateProposalShape proposal
  throwIf (proposal.payload.chainId ≠ chainId) "v6 proposal chain ID mismatch"
  throwIf (proposal.payload.height ≠ height) "v6 proposal height mismatch"
  checkProposalSignature checkSignature proposal validators
  throwIf (request.block.hash ≠ proposal.payload.blockHash) "v6 proposal block hash mismatch"
  throwIf (request.block.header.height ≠ height ∨ request.block.header.chainId ≠ chainId)
    "v6 proposal block target mismatch"
  throwIf (request.block.header.round > proposal.payload.round)
    "v6 proposal block is from a later round"
  if proposal.payload.round = 0 then do
    throwIf (request.tc ≠ none) "Round 0 v6 proposal must not carry a timeout certificate"
    throwIf (proposal.payload.justifyRound ≠ -1)
      "Round 0 v6 proposal must not carry a justification"
    throwIf (request.block.header.round ≠ 0) "Round 0 v6 proposal must carry a fresh block"
    .ok none
  else
    match request.tc with
    | none => .error "v6 proposal is missing the timeout certificate for the previous round"
    | some tc => do
      let reported ← validateTimeoutCertificate tc validators chainId height
        (proposal.payload.round - 1)
      validateJustification request tc reported

/-! ### Commit certificates -/

def commitRoundOf (block : Block) : Except String Int := match block.commitRound with
  | some (some round) => do
    throwIf (¬ IsSafeInteger round ∨ round < 0 ∨ round > v6MaxRound)
      "v6 block requires a commit round"
    .ok round
  | _ => .error "v6 block requires a commit round"

def validateCommitCertificate (block : Block) (validators : List Validator) :
    Except String Unit := do
  let commitRound ← commitRoundOf block
  throwIf (commitRound < block.header.round) "v6 commit round precedes the block's origin round"
  validateVoteSet block.attestations validators commitVoteDomain
    (votePayload block.header.chainId block.header.height commitRound block.hash) "Finality"

/-! ### What acceptance means -/

/-- Votes of a quorum of distinct members of a validator set for one payload. -/
structure QuorumVotes (votes : List Vote) (validators : List Validator) (domain : String)
    (payload : Json) : Prop where
  distinct : (votes.map Vote.validator).Nodup
  quorum : quorumSize validators.length ≤ votes.length
  member : ∀ v ∈ votes, ⟨v.validator, v.publicKey⟩ ∈ validators
  signed : ∀ v ∈ votes, verifyCanonicalDomain domain payload v.signature v.publicKey = true

variable {validators : List Validator} {chainId : String} {height : Int}

/-- When a set of votes is accepted. -/
theorem validateVoteSet_eq_ok {votes : List Vote} {domain : String} {payload : Json}
    {label : String} :
    validateVoteSet votes validators domain payload label = .ok () ↔
      votes.length ≤ validators.length ∧ 1 ≤ validators.length ∧
        quorumSize validators.length ≤ votes.length ∧ (votes.map Vote.validator).Nodup ∧
        ∀ v ∈ votes, validateV6VoteShape v = .ok () ∧
          (memberMap validators).get v.validator = some v.publicKey ∧
          verifyCanonicalDomain domain payload v.signature v.publicKey = true := by
  have hmember : ∀ v, validateMemberVote validators domain payload label v = .ok () ↔
      (memberMap validators).get v.validator = some v.publicKey ∧
        verifyCanonicalDomain domain payload v.signature v.publicKey = true := by
    intro v
    rw [validateMemberVote, throwIf_bind_eq_ok, throwIf_eq_ok, ne_eq, not_not, not_not]
  rw [validateVoteSet, throwIf_bind_eq_ok, bind_eq_ok, not_lt]
  constructor
  · rintro ⟨hlen, _, hloop, hquorum⟩
    obtain ⟨hnodup, -, hall⟩ := forDistinct_eq_ok.mp hloop
    obtain ⟨hpos, hquorum⟩ := assertQuorum_eq_ok.mp hquorum
    exact ⟨hlen, hpos, hquorum, hnodup, fun v hv =>
      ⟨(hall v hv).1, (hmember v).mp (hall v hv).2⟩⟩
  · rintro ⟨hlen, hpos, hquorum, hnodup, hall⟩
    exact ⟨hlen, (), forDistinct_eq_ok.mpr ⟨hnodup, by simp, fun v hv =>
      ⟨(hall v hv).1, (hmember v).mpr (hall v hv).2⟩⟩, assertQuorum_eq_ok.mpr ⟨hpos, hquorum⟩⟩

theorem quorumVotes_of_validateVoteSet {votes : List Vote} {domain : String} {payload : Json}
    {label : String} (h : validateVoteSet votes validators domain payload label = .ok ()) :
    QuorumVotes votes validators domain payload := by
  obtain ⟨-, -, hquorum, hnodup, hall⟩ := validateVoteSet_eq_ok.mp h
  exact ⟨hnodup, hquorum, fun v hv => mem_of_memberMap_get (hall v hv).2.1,
    fun v hv => (hall v hv).2.2⟩

/-- An accepted prepare certificate of a chain and height. -/
structure PrepareQC.Valid (qc : PrepareQC) (validators : List Validator) (chainId : String)
    (height : Int) : Prop where
  chainId_eq : qc.chainId = chainId
  height_eq : qc.height = height
  round_mem : 0 ≤ qc.round ∧ qc.round ≤ v6MaxRound
  blockHash_hex : IsHash64 qc.blockHash
  quorum : QuorumVotes qc.votes validators prepareVoteDomain
    (votePayload chainId height qc.round qc.blockHash)

theorem PrepareQC.valid_of_validate {qc : PrepareQC}
    (h : validatePrepareQC qc validators chainId height = .ok ()) :
    qc.Valid validators chainId height := by
  rw [validatePrepareQC] at h
  obtain ⟨_, hshape, h⟩ := bind_eq_ok.mp h
  rw [throwIf_bind_eq_ok, throwIf_bind_eq_ok, ne_eq, not_not, ne_eq, not_not] at h
  obtain ⟨hchain, hheight, hvotes⟩ := h
  rw [validatePrepareQCShape] at hshape
  obtain ⟨_, -, hshape⟩ := bind_eq_ok.mp hshape
  obtain ⟨_, -, hshape⟩ := bind_eq_ok.mp hshape
  obtain ⟨_, hround, hshape⟩ := bind_eq_ok.mp hshape
  obtain ⟨_, hhash, -⟩ := bind_eq_ok.mp hshape
  rw [assertV6Round, throwIf_eq_ok, not_or, not_or, not_lt, gt_iff_lt, not_lt] at hround
  exact ⟨hchain, hheight, hround.2, assertHex_eq_ok.mp hhash, quorumVotes_of_validateVoteSet hvotes⟩

/-- An accepted timeout certificate of a chain, height and round, with the highest round it
reports. -/
structure TimeoutCertificate.Valid (tc : TimeoutCertificate) (validators : List Validator)
    (chainId : String) (height round reported : Int) : Prop where
  distinct : (tc.votes.map V6TimeoutVote.validator).Nodup
  quorum : quorumSize validators.length ≤ tc.votes.length
  member : ∀ v ∈ tc.votes, ⟨v.validator, v.publicKey⟩ ∈ validators
  signed : ∀ v ∈ tc.votes,
    verifyCanonicalDomain timeoutDomain v.payload.toJson v.signature v.publicKey = true
  target : ∀ v ∈ tc.votes, v.payload.chainId = chainId ∧ v.payload.height = height ∧
    v.payload.round = round
  le_reported : ∀ v ∈ tc.votes, v.payload.highQCRound ≤ reported
  highQC : (reported = -1 ∧ tc.highQC = none) ∨
    ∃ qc, tc.highQC = some qc ∧ validatePrepareQC qc validators chainId height = .ok () ∧
      qc.round = reported ∧
      ∀ v ∈ tc.votes, v.payload.highQCRound = reported → v.payload.highQCHash = qc.blockHash

private theorem validateHighQC_eq_ok {tc : TimeoutCertificate} {reported : Int}
    (h : validateHighQC tc validators chainId height = .ok reported) :
    reported = maxReported tc.votes ∧ ((reported = -1 ∧ tc.highQC = none) ∨
      ∃ qc, tc.highQC = some qc ∧ validatePrepareQC qc validators chainId height = .ok () ∧
        qc.round = reported ∧
        ∀ v ∈ tc.votes, v.payload.highQCRound = reported → v.payload.highQCHash = qc.blockHash) := by
  rw [validateHighQC] at h
  split at h
  · next hneg =>
    rw [throwIf_bind_eq_ok, Except.ok.injEq, ne_eq, not_not] at h
    have hge := neg_one_le_maxReported tc.votes
    refine ⟨?_, .inl ⟨h.2.symm, h.1⟩⟩
    omega
  · cases hqc : tc.highQC with
    | none => rw [hqc] at h; cases h
    | some qc =>
      rw [hqc] at h
      obtain ⟨_, hvalid, h⟩ := bind_eq_ok.mp h
      rw [throwIf_bind_eq_ok, throwIf_bind_eq_ok, Except.ok.injEq, ne_eq, not_not] at h
      obtain ⟨hround, hmatch, hreported⟩ := h
      refine ⟨hreported.symm, .inr ⟨qc, rfl, hvalid, hround.trans hreported, fun v hv heq => ?_⟩⟩
      by_contra hne
      exact hmatch ⟨v, hv, heq.trans hreported.symm, hne⟩

/-- What acceptance of a timeout certificate means. -/
theorem validateTimeoutCertificate_eq_ok {tc : TimeoutCertificate} {round reported : Int}
    (h : validateTimeoutCertificate tc validators chainId height round = .ok reported) :
    tc.Valid validators chainId height round reported := by
  rw [validateTimeoutCertificate] at h
  obtain ⟨_, -, h⟩ := bind_eq_ok.mp h
  rw [throwIf_bind_eq_ok, throwIf_bind_eq_ok] at h
  obtain ⟨-, -, h⟩ := h
  obtain ⟨_, hloop, h⟩ := bind_eq_ok.mp h
  obtain ⟨_, hquorum, h⟩ := bind_eq_ok.mp h
  obtain ⟨hnodup, -, hall⟩ := forDistinct_eq_ok.mp hloop
  obtain ⟨hreported, hqc⟩ := validateHighQC_eq_ok h
  have hvote : ∀ v ∈ tc.votes, (v.payload.chainId = chainId ∧ v.payload.height = height ∧
      v.payload.round = round) ∧ (memberMap validators).get v.validator = some v.publicKey ∧
      verifyCanonicalDomain timeoutDomain v.payload.toJson v.signature v.publicKey = true := by
    intro v hv
    have hv := (hall v hv).2
    rw [validateTimeoutVote] at hv
    obtain ⟨_, -, hv⟩ := bind_eq_ok.mp hv
    rw [throwIf_bind_eq_ok, throwIf_bind_eq_ok, throwIf_eq_ok, not_or, not_or, ne_eq, not_not,
      ne_eq, not_not, ne_eq, not_not, ne_eq, not_not, not_not] at hv
    exact hv
  exact ⟨hnodup, (assertQuorum_eq_ok.mp hquorum).2, fun v hv => mem_of_memberMap_get (hvote v hv).2.1,
    fun v hv => (hvote v hv).2.2, fun v hv => (hvote v hv).1,
    fun v hv => hreported ▸ le_maxReported hv, hqc⟩

/-- What acceptance of the certificates of a prepare request means: the justification it returns
is the certificate of its timeout certificate, for the proposed block and of the round the proposal
names. -/
structure PrepareRequestValid (request : V6PrepareRequest) (validators : List Validator)
    (chainId : String) (height : Int) (justify : Option PrepareQC) : Prop where
  height_eq : request.block.header.height = height
  round_nonneg : 0 ≤ request.proposal.payload.round
  justifyRound_lt : request.proposal.payload.justifyRound < request.proposal.payload.round
  unjustified : justify = none → request.proposal.payload.justifyRound = -1
  justified : ∀ qc, justify = some qc → validatePrepareQC qc validators chainId height = .ok () ∧
    qc.round = request.proposal.payload.justifyRound ∧ qc.blockHash = request.block.hash
  carried : ∀ qc, justify = some qc → ∃ tc, request.tc = some tc ∧ tc.highQC = some qc

theorem validatePrepareRequestCertificates_eq_ok {request : V6PrepareRequest} {check : Bool}
    {justify : Option PrepareQC}
    (h : validatePrepareRequestCertificates request validators chainId height check = .ok justify) :
    PrepareRequestValid request validators chainId height justify := by
  rw [validatePrepareRequestCertificates] at h
  obtain ⟨_, hshape, h⟩ := bind_eq_ok.mp h
  rw [throwIf_bind_eq_ok, throwIf_bind_eq_ok] at h
  obtain ⟨-, -, h⟩ := h
  obtain ⟨_, -, h⟩ := bind_eq_ok.mp h
  rw [throwIf_bind_eq_ok, throwIf_bind_eq_ok, throwIf_bind_eq_ok, not_or, ne_eq, not_not, ne_eq,
    not_not] at h
  obtain ⟨-, ⟨hheight, -⟩, -, h⟩ := h
  have hround : 0 ≤ request.proposal.payload.round ∧
      request.proposal.payload.justifyRound < request.proposal.payload.round := by
    rw [validateProposalShape] at hshape
    obtain ⟨_, -, hshape⟩ := bind_eq_ok.mp hshape
    obtain ⟨_, -, hshape⟩ := bind_eq_ok.mp hshape
    obtain ⟨_, hr, hshape⟩ := bind_eq_ok.mp hshape
    obtain ⟨_, -, hshape⟩ := bind_eq_ok.mp hshape
    rw [throwIf_bind_eq_ok] at hshape
    rw [assertV6Round, throwIf_eq_ok] at hr
    omega
  split at h
  · rw [throwIf_bind_eq_ok, throwIf_bind_eq_ok, throwIf_bind_eq_ok, Except.ok.injEq, ne_eq,
      not_not, ne_eq, not_not] at h
    obtain ⟨-, hjustify, -, rfl⟩ := h
    exact ⟨hheight, hround.1, hround.2, fun _ => hjustify, by simp, by simp⟩
  · cases htc : request.tc with
    | none => rw [htc] at h; cases h
    | some tc =>
      rw [htc] at h
      obtain ⟨reported, hvalid, h⟩ := bind_eq_ok.mp h
      have hvalid := validateTimeoutCertificate_eq_ok hvalid
      rw [validateJustification, throwIf_bind_eq_ok, ne_eq, not_not] at h
      obtain ⟨hreported, h⟩ := h
      split at h
      · next hnone =>
        rw [throwIf_bind_eq_ok, Except.ok.injEq] at h
        obtain ⟨-, rfl⟩ := h
        exact ⟨hheight, hround.1, hround.2, fun _ => hreported.trans hnone, by simp, by simp⟩
      · next hsome =>
        rcases hvalid.highQC with ⟨hneg, -⟩ | ⟨qc, hqc, hqcValid, hqcRound, -⟩
        · exact absurd hneg hsome
        · rw [hqc] at h
          simp only [throwIf_bind_eq_ok, Except.ok.injEq, ne_eq, not_not] at h
          obtain ⟨hhash, -, rfl⟩ := h
          refine ⟨hheight, hround.1, hround.2, by simp, fun qc' hqc' => ?_, fun qc' hqc' => ?_⟩
          · rw [Option.some.injEq] at hqc'
            subst hqc'
            exact ⟨hqcValid, hqcRound.trans hreported.symm, hhash⟩
          · exact ⟨tc, htc, hqc.trans hqc'⟩

theorem validateCommitCertificate_eq_ok {block : Block}
    (h : validateCommitCertificate block validators = .ok ()) :
    ∃ round, block.commitRound = some (some round) ∧
      QuorumVotes block.attestations validators commitVoteDomain
        (votePayload block.header.chainId block.header.height round block.hash) := by
  rw [validateCommitCertificate] at h
  obtain ⟨round, hround, h⟩ := bind_eq_ok.mp h
  rw [throwIf_bind_eq_ok] at h
  refine ⟨round, ?_, quorumVotes_of_validateVoteSet h.2⟩
  rw [commitRoundOf] at hround
  split at hround
  · next r heq =>
    rw [throwIf_bind_eq_ok, Except.ok.injEq] at hround
    rw [heq, hround.2]
  · cases hround

end

end ZyronChain
