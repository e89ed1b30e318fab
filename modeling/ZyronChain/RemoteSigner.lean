import ZyronChain.Journal.Crash
import ZyronChain.Messages

/-!
# The reference remote signer

A signer that holds the key of a validator and a signing journal of its own, so that what it releases
obeys the rules whatever it is asked.  A request names an intent, a payload and a certificate; the
signer checks it, reserves the action in its journal and signs.

Source: `l1/src/remote-signer-service.ts`.  A request is taken after its shape was checked: the
certificate of its context is a typed one, the payload is the JSON value it is.

## Main definitions

* `RemoteSigner.signLocked` : the checks of a request, the reservation and what is signed.
* `RemoteSigner.Step`, `RemoteSigner.Reachable` : requests in any order, with crashes and restarts.

## Main results

* `RemoteSigner.Checked` : what the signer checked of a request that it reserves.
* `RemoteSigner.signer_rules` : the rules that the released signatures obey.
-/

namespace ZyronChain

open Checks SigningJournal V6HeightJournal List LiveJournal

/-- A request to sign a payload. -/
structure SigningRequest where
  version : Int
  intent : ValidatorSigningIntent
  domain : Option String
  payload : Json
  /-- The name and the certificate of the context; the certificate may be null. -/
  context : Option (String × Option PrepareQC)

/-- A signature that was released: of a slot of protocol v6, or of a height before it. -/
structure Release where
  height : Int
  slot : Option (Int × V6JournalStep)
  /-- The domain under which the payload is signed. -/
  domain : Option String
  payload : Json

def Release.value (r : Release) : Json := match r.domain with
  | some domain => domainPayload domain r.payload
  | none => r.payload

namespace RemoteSigner

/-- The configuration of a signer that is enabled for protocol v6. -/
structure Config where
  publicKey : String
  chainId : String
  validators : List Validator

def strField (payload : Json) (name : String) : Option String := match payload.field name with
  | some (.str s) => some s
  | _ => none

def numField (payload : Json) (name : String) : Option Int := match payload.field name with
  | some (.num n) => some n
  | _ => none

def isRecord : Json → Bool
  | .obj _ => true
  | _ => false

def assertExactKeys (payload : Json) (expected : List String) (name : String) :
    Except String Unit :=
  throwIf (¬ payload.keys.Perm expected) s!"Invalid {name} fields"

/-- The certificate in the context of a request: `contextField`. -/
def contextField (context : Option (String × Option PrepareQC)) (name : String) :
    Except String (Option PrepareQC) :=
  match context with
  | none => .error s!"v6 signing request requires context.{name}"
  | some (key, qc) => do
    throwIf (key ≠ name) "Invalid v6 signing context fields"
    .ok qc

/-- The height and the round of a payload of protocol v6: `slot`. -/
def slot (cfg : Config) (payload : Json) : Except String (Int × Int) := do
  throwIf (strField payload "chainId" ≠ some cfg.chainId) "Signing payload is for another chain"
  match numField payload "height", numField payload "round" with
  | some height, some round => do
    throwIf (¬ IsSafeInteger height ∨ height < 1 ∨ ¬ IsSafeInteger round ∨ round < 0 ∨
      round > v6MaxRound) "Invalid v6 signing slot"
    .ok (height, round)
  | _, _ => .error "Invalid v6 signing slot"

def hashField (payload : Json) (name message : String) : Except String String :=
  match strField payload name with
  | some hash => do
    throwIf (¬ IsHash64 hash) message
    .ok hash
  | none => .error message

/-- A member that is an integer between two bounds. -/
def roundField (payload : Json) (name message : String) (low high : Int) : Except String Int :=
  match numField payload name with
  | some n => do
    throwIf (¬ IsSafeInteger n ∨ n < low ∨ n > high) message
    .ok n
  | none => .error message

section

variable [Crypto]

/-- `legacyGuard`: the height and the reservation of a legacy payload. -/
def legacyGuard (cfg : Config) (journal : SigningJournal) (intent : ValidatorSigningIntent)
    (payload : Json) : Except String (Int × JournalRequest) := do
  throwIf (¬ isRecord payload = true) "Invalid legacy signing payload"
  throwIf (strField payload "chainId" ≠ some cfg.chainId) "Signing payload is for another chain"
  match numField payload "height" with
  | none => .error "Invalid signing height"
  | some height => do
    throwIf (¬ IsSafeInteger height ∨ height < 1) "Invalid signing height"
    throwIf (journal.v6Heights.has height = true)
      "Legacy validator action refused: protocol v6 journal rows exist at this height"
    if intent = .roundSkip then do
      throwIf (strField payload "publicKey" ≠ some cfg.publicKey ∨
        strField payload "validator" ≠ some (addressFromPublicKey cfg.publicKey))
        "Round skip is not for this validator"
      match numField payload "round" with
      | none => .error "Invalid round skip payload"
      | some round => do
        throwIf (¬ IsSafeInteger round ∨ round < 0) "Invalid round skip payload"
        let previousHash ← hashField payload "previousHash" "Invalid round skip payload"
        .ok (height, .skip height round previousHash)
    else .ok (height, .legacyHeight height)

def assertLeader (cfg : Config) (height round : Int) : Except String Unit := do
  let leader ← expectedValidator cfg.validators height round
  throwIf (leader.publicKey ≠ cfg.publicKey)
    "Protocol v6 proposal refused: this validator is not the round leader"

def verifyQC (cfg : Config) (qc : PrepareQC) (height round : Int) (hash label : String) :
    Except String Unit := do
  validatePrepareQC qc cfg.validators cfg.chainId height
  throwIf (qc.round ≠ round ∨ qc.blockHash ≠ hash)
    s!"{label}: Prepare QC does not match the signed round and block"

def reserveBlockProposal (cfg : Config) (request : SigningRequest) :
    Except String (JournalRequest × Release) := do
  throwIf (request.context.isSome = true) "Block proposal requests carry no context"
  assertExactKeys request.payload ["version", "chainId", "height", "round", "previousHash",
    "timestampMs", "transactionRoot", "stateRoot", "proposer"] "v6 block header"
  let (height, round) ← slot cfg request.payload
  throwIf (strField request.payload "proposer" ≠ some (addressFromPublicKey cfg.publicKey))
    "Protocol v6 block proposal refused: proposer is not this validator"
  assertLeader cfg height round
  match canonicalJson request.payload with
  | .error _ => .error "Invalid v6 block header"
  | .ok text => .ok (.v6 height round .blockProposal (sha256Hex text),
      ⟨height, some (round, .blockProposal), some blockProposalDomain, request.payload⟩)

/-- The evidence of a proposal: its own fresh block, or the certificate it names. -/
def checkJustification (cfg : Config) (journal : SigningJournal) (payload : V6ProposalPayload)
    (justify : Option PrepareQC) : Except String Unit :=
  if payload.justifyRound = -1 then do
    throwIf (justify.isSome = true) "Unjustified proposal must not carry a justify QC"
    throwIf ((journal.v6HeightState payload.height).rows.get (payload.round, .blockProposal) ≠
      some payload.blockHash) "Unjustified v6 proposal must carry this leader's own fresh block"
  else
    match justify with
    | none => .error "Justified v6 proposal requires its justify QC"
    | some qc =>
      verifyQC cfg qc payload.height payload.justifyRound payload.blockHash "Proposal justify"

def reserveProposal (cfg : Config) (journal : SigningJournal) (request : SigningRequest) :
    Except String (JournalRequest × Release) := do
  assertExactKeys request.payload ["chainId", "height", "round", "blockHash", "justifyRound"]
    "v6 proposal"
  let (height, round) ← slot cfg request.payload
  let hash ← hashField request.payload "blockHash" "Invalid v6 proposal payload"
  let justifyRound ← roundField request.payload "justifyRound" "Invalid v6 proposal payload" (-1)
    (round - 1)
  let payload : V6ProposalPayload := ⟨cfg.chainId, height, round, hash, justifyRound⟩
  let justify ← contextField request.context "justify"
  assertLeader cfg height round
  checkJustification cfg journal payload justify
  .ok (.v6 height round .proposal (sha256Hex (canonicalText payload.toJson)),
    ⟨height, some (round, .proposal), some proposalDomain, payload.toJson⟩)

/-- The round of the certificate that a prepare request carries; only a certificate that the signer
verifies itself unlocks. -/
def justifiedRound (cfg : Config) (height round : Int) (hash : String) :
    Option PrepareQC → Except String Int
  | none => .ok (-1)
  | some qc => do
    validatePrepareQC qc cfg.validators cfg.chainId height
    throwIf (qc.blockHash ≠ hash ∨ qc.round ≥ round)
      "Protocol v6 prepare refused: justify QC is not for this block at a lower round"
    .ok qc.round

def reservePrepare (cfg : Config) (request : SigningRequest) :
    Except String (JournalRequest × Release) := do
  assertExactKeys request.payload ["chainId", "height", "round", "blockHash"] "v6 prepare vote"
  let (height, round) ← slot cfg request.payload
  let hash ← hashField request.payload "blockHash" "Invalid v6 vote block hash"
  let justify ← contextField request.context "justify"
  let justifyRound ← justifiedRound cfg height round hash justify
  .ok (.v6Prepare height round hash justifyRound,
    ⟨height, some (round, .prepare), some prepareVoteDomain,
      votePayload cfg.chainId height round hash⟩)

def reserveCommit (cfg : Config) (request : SigningRequest) :
    Except String (JournalRequest × Release) := do
  assertExactKeys request.payload ["chainId", "height", "round", "blockHash"] "v6 commit vote"
  let (height, round) ← slot cfg request.payload
  let hash ← hashField request.payload "blockHash" "Invalid v6 vote block hash"
  match ← contextField request.context "qc" with
  | none => .error "Protocol v6 commit refused: a lock requires the Prepare QC evidence"
  | some qc => do
    verifyQC cfg qc height round hash "Commit"
    .ok (.v6Commit height round hash,
      ⟨height, some (round, .commit), some commitVoteDomain,
        votePayload cfg.chainId height round hash⟩)

/-- The evidence of a timeout: the certificate that it reports. -/
def checkReport (cfg : Config) (payload : V6TimeoutPayload) (highQC : Option PrepareQC) :
    Except String Unit :=
  if payload.highQCRound = -1 then
    throwIf (payload.highQCHash ≠ zeroHash ∨ highQC.isSome = true)
      "Invalid v6 timeout highQC report"
  else
    match highQC with
    | none => .error "v6 timeout reports a highQC without the QC evidence"
    | some qc =>
      verifyQC cfg qc payload.height payload.highQCRound payload.highQCHash "Timeout highQC"

def reserveTimeout (cfg : Config) (journal : SigningJournal) (request : SigningRequest) :
    Except String (JournalRequest × Release) := do
  let malformed := "Invalid v6 timeout highQC report (needs -1 <= highQCRound <= round)"
  assertExactKeys request.payload ["chainId", "height", "round", "highQCRound", "highQCHash"]
    "v6 timeout"
  let (height, round) ← slot cfg request.payload
  let highQCRound ← roundField request.payload "highQCRound" malformed (-1) round
  let highQCHash ← hashField request.payload "highQCHash" malformed
  let payload : V6TimeoutPayload := ⟨cfg.chainId, height, round, highQCRound, highQCHash⟩
  let highQC ← contextField request.context "highQC"
  checkReport cfg payload highQC
  let state := journal.v6HeightState height
  throwIf (state.rows.get (round, .timeout) = none ∧
    (state.maxVoteRound > round ∨ state.maxTimeoutRound > round))
    "Protocol v6 timeout refused: a later round was already voted or timed out"
  .ok (.v6 height round .timeout (sha256Hex (canonicalText payload.toJson)),
    ⟨height, some (round, .timeout), some timeoutDomain, payload.toJson⟩)

def v6Reserve (cfg : Config) (journal : SigningJournal) (request : SigningRequest) :
    Except String (JournalRequest × Release) :=
  match request.intent with
  | .blockProposal => reserveBlockProposal cfg request
  | .consensusProposal => reserveProposal cfg journal request
  | .prepareVote => reservePrepare cfg request
  | .commitVote => reserveCommit cfg request
  | .roundTimeout => reserveTimeout cfg journal request
  | .blockAttestation | .roundSkip => .error "Intent is not a protocol v6 signing intent"

/-- `CONSENSUS_V6_SIGNING_INTENTS`. -/
def isV6Intent : ValidatorSigningIntent → Bool
  | .consensusProposal | .prepareVote | .commitVote | .roundTimeout => true
  | .blockProposal | .blockAttestation | .roundSkip => false

/-- The signature of a legacy payload, after its reservation. -/
def legacyRelease (cfg : Config) (journal : SigningJournal) (request : SigningRequest)
    (domain : Option String) : Except String (JournalRequest × Release) := do
  throwIf (request.context.isSome = true) "Legacy signing requests carry no context"
  let (height, reservation) ← legacyGuard cfg journal request.intent request.payload
  .ok (reservation, ⟨height, none, domain, request.payload⟩)

/-- `signLocked`: the reservation in the journal, and what is signed once it is made. -/
def signLocked (cfg : Config) (journal : SigningJournal) (request : SigningRequest) :
    Except String (JournalRequest × Release) := do
  throwIf (request.version ≠ 1 ∧ request.version ≠ 2) "Unsupported remote signing request version"
  throwIf (request.version = 1 ∧ (request.domain.isSome = true ∨ request.context.isSome = true) ∨
    request.version = 2 ∧ request.domain.isNone = true) "Invalid remote signing request fields"
  if request.version = 1 then do
    throwIf (isV6Intent request.intent = true) "Protocol v6 intents require request version 2"
    legacyRelease cfg journal request none
  else do
    let domain := validatorSigningDomain request.intent
    throwIf (request.domain ≠ some domain) "Signing domain does not match the intent"
    if isV6Intent request.intent = true ∨ request.intent = .blockProposal ∧
        numField request.payload "version" = some consensusV6ProtocolVersion then
      v6Reserve cfg journal request
    else legacyRelease cfg journal request (some domain)

/-! ### What the signer checked -/

/-- The request carries a certificate that is valid for the configured validators. -/
def Carries (cfg : Config) (request : SigningRequest) (height : Int) (qc : PrepareQC) : Prop :=
  (∃ name, request.context = some (name, some qc)) ∧
    validatePrepareQC qc cfg.validators cfg.chainId height = .ok ()

/-- The fields of a round skip that the signer read. -/
structure SkipChecked (payload : Json) (height round : Int) (previousHash : String) : Prop where
  height : numField payload "height" = some height
  round : numField payload "round" = some round
  previousHash : strField payload "previousHash" = some previousHash

/-- The reservations and releases of accepted requests, with what was checked. -/
inductive Checked (cfg : Config) (journal : SigningJournal) (request : SigningRequest) :
    JournalRequest → Release → Prop
  | legacy {height : Int} {reservation : JournalRequest} {domain : Option String}
      (reservation_eq : reservation = .legacyHeight height ∨
        ∃ round previousHash, reservation = .skip height round previousHash) :
      Checked cfg journal request reservation ⟨height, none, domain, request.payload⟩
  | proposal {height round : Int} {step : SigningJournal.V6FreeStep} {domain : String}
      {payload : Json} (step_ne : step ≠ .timeout) :
      Checked cfg journal request (.v6 height round step (sha256Hex (canonicalText payload)))
        ⟨height, some (round, step.step), some domain, payload⟩
  | prepare {height round justifyRound : Int} {hash : String}
      (intent_eq : request.intent = .prepareVote)
      (justified : justifyRound = -1 ∨ ∃ qc, Carries cfg request height qc ∧ qc.blockHash = hash ∧
        qc.round = justifyRound ∧ justifyRound < round) :
      Checked cfg journal request (.v6Prepare height round hash justifyRound)
        ⟨height, some (round, .prepare), some prepareVoteDomain,
          votePayload cfg.chainId height round hash⟩
  | commit {height round : Int} {hash : String} {qc : PrepareQC}
      (intent_eq : request.intent = .commitVote) (carried : Carries cfg request height qc)
      (round_eq : qc.round = round) (hash_eq : qc.blockHash = hash) :
      Checked cfg journal request (.v6Commit height round hash)
        ⟨height, some (round, .commit), some commitVoteDomain,
          votePayload cfg.chainId height round hash⟩
  | timeout {height round : Int} {payload : Json}
      (notPast : (journal.v6HeightState height).rows.get (round, .timeout) = none →
        (journal.v6HeightState height).maxVoteRound ≤ round ∧
          (journal.v6HeightState height).maxTimeoutRound ≤ round) :
      Checked cfg journal request (.v6 height round .timeout (sha256Hex (canonicalText payload)))
        ⟨height, some (round, .timeout), some timeoutDomain, payload⟩

variable {cfg : Config} {journal : SigningJournal} {request : SigningRequest}
  {reservation : JournalRequest} {release : Release}

omit [Crypto] in
private theorem contextField_eq_ok {context : Option (String × Option PrepareQC)} {name : String}
    {qc : Option PrepareQC} (h : contextField context name = .ok qc) : context = some (name, qc) := by
  cases context with
  | none => cases h
  | some entry =>
    change (throwIf (entry.1 ≠ name) _ >>= fun _ => .ok entry.2) = .ok qc at h
    rw [throwIf_bind_eq_ok, not_not, Except.ok.injEq] at h
    rw [← h.1, ← h.2]

variable {height round : Int} {hash : String} {requests : List SigningRequest}
  {state : V6HeightJournal}

private theorem verifyQC_eq_ok {qc : PrepareQC} {label : String}
    (h : verifyQC cfg qc height round hash label = .ok ()) :
    validatePrepareQC qc cfg.validators cfg.chainId height = .ok () ∧ qc.round = round ∧
      qc.blockHash = hash := by
  rw [verifyQC] at h
  obtain ⟨_, hvalid, h⟩ := bind_eq_ok.mp h
  rw [throwIf_eq_ok, not_or, not_not, not_not] at h
  exact ⟨hvalid, h⟩

omit [Crypto] in
private theorem hashField_eq_ok {payload : Json} {name message : String}
    (h : hashField payload name message = .ok hash) : strField payload name = some hash := by
  rw [hashField] at h
  split at h
  · next s hs =>
    rw [throwIf_bind_eq_ok, Except.ok.injEq] at h
    rw [hs, h.2]
  · cases h

theorem legacyGuard_eq_ok {payload : Json} {intent : ValidatorSigningIntent}
    (h : legacyGuard cfg journal intent payload = .ok (height, reservation)) :
    strField payload "chainId" = some cfg.chainId ∧
      ((intent = .roundSkip ∧ ∃ round previousHash, SkipChecked payload height round previousHash ∧
          reservation = .skip height round previousHash) ∨
        (intent ≠ .roundSkip ∧ reservation = .legacyHeight height)) := by
  rw [legacyGuard, throwIf_bind_eq_ok, throwIf_bind_eq_ok, not_not, not_not] at h
  obtain ⟨-, hchain, h⟩ := h
  refine ⟨hchain, ?_⟩
  split at h
  · cases h
  · next n hheight =>
    rw [throwIf_bind_eq_ok, throwIf_bind_eq_ok] at h
    obtain ⟨-, -, h⟩ := h
    split at h
    · next hintent =>
      rw [throwIf_bind_eq_ok] at h
      obtain ⟨-, h⟩ := h
      split at h
      · cases h
      · next round hround =>
        rw [throwIf_bind_eq_ok] at h
        obtain ⟨previousHash, hhash, h⟩ := bind_eq_ok.mp h.2
        cases h
        exact .inl ⟨hintent, round, previousHash, ⟨hheight, hround, hashField_eq_ok hhash⟩, rfl⟩
    · next hintent =>
      cases h
      exact .inr ⟨hintent, rfl⟩

private theorem checked_legacy {domain : Option String}
    (h : legacyRelease cfg journal request domain = .ok (reservation, release)) :
    Checked cfg journal request reservation release := by
  rw [legacyRelease, throwIf_bind_eq_ok] at h
  obtain ⟨⟨height, reservation'⟩, hguard, h⟩ := bind_eq_ok.mp h.2
  cases h
  obtain ⟨-, ⟨-, round, previousHash, -, hskip⟩ | ⟨-, hlegacy⟩⟩ := legacyGuard_eq_ok hguard
  · exact .legacy (.inr ⟨round, previousHash, hskip⟩)
  · exact .legacy (.inl hlegacy)

/-- A release under a domain other than that of skip votes, of the payload of the request or of one
that the signer made. -/
def Domained (request : SigningRequest) (release : Release) : Prop :=
  ∃ domain, release.domain = some domain ∧ domain ≠ roundSkipDomain ∧
    (release.payload = request.payload ∨ release.payload.Plain)

private theorem checked_blockProposal
    (h : reserveBlockProposal cfg request = .ok (reservation, release)) :
    Checked cfg journal request reservation release ∧ Domained request release := by
  rw [reserveBlockProposal, throwIf_bind_eq_ok] at h
  obtain ⟨_, -, h⟩ := bind_eq_ok.mp h.2
  obtain ⟨⟨height, round⟩, -, h⟩ := bind_eq_ok.mp h
  rw [throwIf_bind_eq_ok] at h
  obtain ⟨_, -, h⟩ := bind_eq_ok.mp h.2
  split at h
  · cases h
  · next text htext =>
    cases h
    rw [(canonicalJson_eq_ok.mp htext).2]
    exact ⟨.proposal (by decide), _, rfl, by decide, .inl rfl⟩

private theorem checked_proposal
    (h : reserveProposal cfg journal request = .ok (reservation, release)) :
    Checked cfg journal request reservation release ∧ Domained request release := by
  rw [reserveProposal] at h
  obtain ⟨_, -, h⟩ := bind_eq_ok.mp h
  obtain ⟨⟨height, round⟩, -, h⟩ := bind_eq_ok.mp h
  obtain ⟨hash, -, h⟩ := bind_eq_ok.mp h
  obtain ⟨justifyRound, -, h⟩ := bind_eq_ok.mp h
  obtain ⟨justify, -, h⟩ := bind_eq_ok.mp h
  obtain ⟨_, -, h⟩ := bind_eq_ok.mp h
  obtain ⟨_, -, h⟩ := bind_eq_ok.mp h
  cases h
  exact ⟨.proposal (by decide), _, rfl, by decide,
    .inr (ValidatorMessage.plain_payload (.consensusProposal ⟨_, _, _, _, _⟩))⟩

private theorem checked_prepare (hintent : request.intent = .prepareVote)
    (h : reservePrepare cfg request = .ok (reservation, release)) :
    Checked cfg journal request reservation release ∧ Domained request release := by
  rw [reservePrepare] at h
  obtain ⟨_, -, h⟩ := bind_eq_ok.mp h
  obtain ⟨⟨height, round⟩, -, h⟩ := bind_eq_ok.mp h
  obtain ⟨hash, -, h⟩ := bind_eq_ok.mp h
  obtain ⟨justify, hjustify, h⟩ := bind_eq_ok.mp h
  obtain ⟨justifyRound, hround, h⟩ := bind_eq_ok.mp h
  cases h
  refine ⟨.prepare hintent ?_, _, rfl, by decide, .inr (plain_votePayload ..)⟩
  cases justify with
  | none =>
    rw [justifiedRound, Except.ok.injEq] at hround
    exact .inl hround.symm
  | some qc =>
    rw [justifiedRound] at hround
    obtain ⟨_, hvalid, hround⟩ := bind_eq_ok.mp hround
    rw [throwIf_bind_eq_ok, not_or, not_not, not_le, Except.ok.injEq] at hround
    obtain ⟨⟨hhash, hlt⟩, rfl⟩ := hround
    exact .inr ⟨qc, ⟨⟨_, contextField_eq_ok hjustify⟩, hvalid⟩, hhash, rfl, hlt⟩

private theorem checked_commit (hintent : request.intent = .commitVote)
    (h : reserveCommit cfg request = .ok (reservation, release)) :
    Checked cfg journal request reservation release ∧ Domained request release := by
  rw [reserveCommit] at h
  obtain ⟨_, -, h⟩ := bind_eq_ok.mp h
  obtain ⟨⟨height, round⟩, -, h⟩ := bind_eq_ok.mp h
  obtain ⟨hash, -, h⟩ := bind_eq_ok.mp h
  obtain ⟨qc, hqc, h⟩ := bind_eq_ok.mp h
  cases qc with
  | none => cases h
  | some qc =>
    obtain ⟨_, hverify, h⟩ := bind_eq_ok.mp h
    obtain ⟨hvalid, hround, hhash⟩ := verifyQC_eq_ok hverify
    cases h
    exact ⟨.commit hintent ⟨⟨_, contextField_eq_ok hqc⟩, hvalid⟩ hround hhash, _, rfl, by decide,
      .inr (plain_votePayload ..)⟩

private theorem checked_timeout
    (h : reserveTimeout cfg journal request = .ok (reservation, release)) :
    Checked cfg journal request reservation release ∧ Domained request release := by
  rw [reserveTimeout] at h
  obtain ⟨_, -, h⟩ := bind_eq_ok.mp h
  obtain ⟨⟨height, round⟩, -, h⟩ := bind_eq_ok.mp h
  obtain ⟨highQCRound, -, h⟩ := bind_eq_ok.mp h
  obtain ⟨highQCHash, -, h⟩ := bind_eq_ok.mp h
  obtain ⟨highQC, -, h⟩ := bind_eq_ok.mp h
  obtain ⟨_, -, h⟩ := bind_eq_ok.mp h
  rw [throwIf_bind_eq_ok, Except.ok.injEq, Prod.mk.injEq] at h
  obtain ⟨hlate, rfl, rfl⟩ := h
  rw [not_and, not_or, not_lt, not_lt] at hlate
  exact ⟨.timeout hlate, _, rfl, by decide, .inr (V6TimeoutPayload.plain_toJson ⟨_, _, _, _, _⟩)⟩

theorem checked_v6 (h : v6Reserve cfg journal request = .ok (reservation, release)) :
    Checked cfg journal request reservation release ∧ Domained request release := by
  rw [v6Reserve] at h
  split at h
  · exact checked_blockProposal h
  · exact checked_proposal h
  · next hintent => exact checked_prepare hintent h
  · next hintent => exact checked_commit hintent h
  · exact checked_timeout h
  · cases h
  · cases h

/-- What the signer checked of a request that it reserves. -/
theorem checked_of_signLocked (h : signLocked cfg journal request = .ok (reservation, release)) :
    Checked cfg journal request reservation release := by
  rw [signLocked, throwIf_bind_eq_ok, throwIf_bind_eq_ok] at h
  obtain ⟨-, -, h⟩ := h
  split at h
  · rw [throwIf_bind_eq_ok] at h
    exact checked_legacy h.2
  · rw [throwIf_bind_eq_ok] at h
    obtain ⟨-, h⟩ := h
    split at h
    · exact (checked_v6 h).1
    · exact checked_legacy h

/-! ### Runs -/

/-- A signer, with the requests it was sent and the signatures it released. -/
structure State where
  journal : LiveJournal
  requests : List SigningRequest
  released : List (SigningRequest × Release)

def State.fresh : State := ⟨.fresh, [], []⟩

/-- The steps of a signer, with the signature that is released. -/
inductive Step (cfg : Config) (s : State) : State → Option (SigningRequest × Release) → Prop
  /-- A request that is refused. -/
  | refused {request : SigningRequest} :
      Step cfg s { s with requests := s.requests ++ [request] } none
  /-- A crash in the append to the journal, and the restart after it. -/
  | crashed {request : SigningRequest} {reservation : JournalRequest} {release : Release}
      {es : List Entry} {bytes : List Char} {o : Opened}
      (checked : signLocked cfg s.journal.journal request = .ok (reservation, release))
      (reserve : s.journal.journal.reserve reservation = .ok es)
      (crashed : CrashedFile s.journal.file (journalText es) bytes)
      (opened : openFile bytes = .ok o) :
      Step cfg s { s with
        journal := ⟨o.journal, o.file bytes⟩
        requests := s.requests ++ [request] } none
  /-- A request whose signature does not reach the client. -/
  | stopped {request : SigningRequest} {reservation : JournalRequest} {release : Release}
      {es : List Entry}
      (checked : signLocked cfg s.journal.journal request = .ok (reservation, release))
      (reserve : s.journal.journal.reserve reservation = .ok es) :
      Step cfg s { s with
        journal := ⟨s.journal.journal.append es, s.journal.file ++ journalText es⟩
        requests := s.requests ++ [request] } none
  | signed {request : SigningRequest} {reservation : JournalRequest} {release : Release}
      {es : List Entry}
      (checked : signLocked cfg s.journal.journal request = .ok (reservation, release))
      (reserve : s.journal.journal.reserve reservation = .ok es) :
      Step cfg s
        { journal := ⟨s.journal.journal.append es, s.journal.file ++ journalText es⟩
          requests := s.requests ++ [request]
          released := s.released ++ [(request, release)] } (some (request, release))
  | restarted {o : Opened} (opened : openFile s.journal.file = .ok o) :
      Step cfg s { s with journal := ⟨o.journal, o.file s.journal.file⟩ } none

/-- What a signer can reach. -/
inductive Reachable (cfg : Config) : State → Prop
  | fresh : Reachable cfg .fresh
  | step {s s' : State} {out : Option (SigningRequest × Release)} (prior : Reachable cfg s)
      (next : Step cfg s s' out) : Reachable cfg s'

/-- A request of which the records are in the journal. -/
structure Wrote (cfg : Config) (s s' : State) (request : SigningRequest)
    (reservation : JournalRequest) (release : Release) (es : List Entry) : Prop where
  checked : Checked cfg s.journal.journal request reservation release
  reserve : s.journal.journal.reserve reservation = .ok es
  journal : s'.journal.journal.Same (s.journal.journal.append es)
  requests : s'.requests = s.requests ++ [request]

theorem Step.cases {s s' : State} {out : Option (SigningRequest × Release)}
    (h : Step cfg s s' out) (hf : s.journal.Faithful) :
    s'.journal.Faithful ∧
      ((out = none ∧ s'.journal.journal.Same s.journal.journal ∧ s.requests <+: s'.requests ∧
        s'.released = s.released) ∨
      ∃ request reservation release es, Wrote cfg s s' request reservation release es ∧
        (out = none ∧ s'.released = s.released ∨
          out = some (request, release) ∧ s'.released = s.released ++ [(request, release)])) := by
  have hjournaled : ∀ {reservation : JournalRequest} {es : List Entry},
      s.journal.journal.reserve reservation = .ok es →
      (mk (s.journal.journal.append es) (s.journal.file ++ journalText es)).Faithful := by
    intro reservation es hreserve
    have := hf.after (.reserve reservation)
    rw [after_reserve_ok hreserve] at this
    exact this
  cases h with
  | refused => exact ⟨hf, .inl ⟨rfl, .refl _, prefix_append .., rfl⟩⟩
  | crashed hchecked hreserve hcrashed hopened =>
    obtain ⟨o, ho, hfaithful, hcases⟩ := hf.openFile_crashed hreserve hcrashed
    rw [ho] at hopened
    cases hopened
    refine ⟨hfaithful, ?_⟩
    rcases hcases with ⟨hsame, -⟩ | ⟨hsame, -⟩
    · exact .inl ⟨rfl, hsame, prefix_append .., rfl⟩
    · exact .inr ⟨_, _, _, _, ⟨checked_of_signLocked hchecked, hreserve, hsame, rfl⟩,
        .inl ⟨rfl, rfl⟩⟩
  | stopped hchecked hreserve =>
    exact ⟨hjournaled hreserve, .inr ⟨_, _, _, _,
      ⟨checked_of_signLocked hchecked, hreserve, .refl _, rfl⟩, .inl ⟨rfl, rfl⟩⟩⟩
  | signed hchecked hreserve =>
    exact ⟨hjournaled hreserve, .inr ⟨_, _, _, _,
      ⟨checked_of_signLocked hchecked, hreserve, .refl _, rfl⟩, .inr ⟨rfl, rfl⟩⟩⟩
  | restarted hopened =>
    obtain ⟨hfaithful, hsame⟩ := hf.openFile hopened
    exact ⟨hfaithful, .inl ⟨rfl, hsame, prefix_rfl, rfl⟩⟩

/-! ### Rows -/

/-- What an accepted request writes in the state of a height. -/
inductive RowEffect (cfg : Config) (request : SigningRequest) (height : Int)
    (state : V6HeightJournal) : V6HeightJournal → Prop
  | nothing : RowEffect cfg request height state state
  | other {row : V6JournalRow} (step_ne : row.step ≠ .lock ∧ row.step ≠ .prepare ∧
      row.step ≠ .commit) : RowEffect cfg request height state (state.applyRow row)
  | prepare {round justifyRound : Int} {hash : String} (intent_eq : request.intent = .prepareVote)
      (justified : justifyRound = -1 ∨ ∃ qc, Carries cfg request height qc ∧ qc.blockHash = hash ∧
        qc.round = justifyRound ∧ justifyRound < round)
      (roundOpen : state.RoundOpen round)
      (safe : safeVote state.lock hash justifyRound = true) :
      RowEffect cfg request height state
        (state.applyRow { height, round, step := .prepare, value := hash })
  | commit {qc : PrepareQC} (intent_eq : request.intent = .commitVote)
      (carried : Carries cfg request height qc) (roundOpen : state.RoundOpen qc.round) :
      RowEffect cfg request height state (state.applyPair height qc.round qc.blockHash)

private theorem effect_free {step : SigningJournal.V6FreeStep} {value : String} {es : List Entry}
    (h : journal.reserveV6 height round step value = .ok es) (height' : Int) :
    RowEffect cfg request height' (journal.v6HeightState height')
      ((journal.append es).v6HeightState height') := by
  rcases reserveV6_cases h with ⟨rfl, -⟩ | ⟨rfl, -, -⟩
  · exact .nothing
  · rw [v6HeightState_append_row]
    split
    · exact .other ⟨step.step_ne_lock, step.step_ne_prepare, step.step_ne_commit⟩
    · exact .nothing

theorem Checked.effect {es : List Entry} (h : Checked cfg journal request reservation release)
    (hr : journal.reserve reservation = .ok es) (height : Int) :
    RowEffect cfg request height (journal.v6HeightState height)
      ((journal.append es).v6HeightState height) := by
  cases h with
  | legacy hreservation =>
    rcases hreservation with rfl | ⟨round, previousHash, rfl⟩
    · obtain ⟨-, ⟨rfl, -⟩ | ⟨rfl, -⟩⟩ := reserveLegacyHeight_cases hr
      · exact .nothing
      · exact .nothing
    · rcases reserveChoice_cases hr with ⟨rfl, -⟩ | ⟨rfl, -⟩
      · exact .nothing
      · exact .nothing
  | proposal | timeout => exact effect_free hr height
  | prepare hintent hjustified =>
    obtain ⟨-, ⟨rfl, -⟩ | ⟨rfl, -, hopen, hsafe⟩⟩ := reserveV6Prepare_cases hr
    · exact .nothing
    · rw [v6HeightState_append_row]
      split
      · next heq =>
        subst heq
        exact .prepare hintent hjustified hopen hsafe
      · exact .nothing
  | @commit _ round hash qc hintent hcarried hround hhash =>
    subst hround hhash
    rcases reserveV6Commit_cases hr with ⟨rfl, -⟩ | ⟨rfl, -, hopen, -⟩
    · exact .nothing
    · rw [v6HeightState_append_pair]
      split
      · next heq =>
        subst heq
        exact .commit hintent hcarried hopen
      · exact .nothing

/-! ### What was released -/

/-- The journal holds the action of a released signature: the voted hash, or the digest of the
payload. -/
def Reserved (cfg : Config) (journal : SigningJournal) (release : Release) : Prop :=
  match release.slot with
  | none => release.height ∈ journal.legacyHeights
  | some (round, step) => ∃ value,
      (journal.v6HeightState release.height).rows.get (round, step) = some value ∧
      (step = .prepare ∨ step = .commit →
        release.payload = votePayload cfg.chainId release.height round value) ∧
      (¬ (step = .prepare ∨ step = .commit) → value = sha256Hex (canonicalText release.payload))

private theorem reserved_free {step : SigningJournal.V6FreeStep} {payload : Json}
    {domain : Option String} {es : List Entry}
    (h : journal.reserveV6 height round step (sha256Hex (canonicalText payload)) = .ok es) :
    Reserved cfg (journal.append es) ⟨height, some (round, step.step), domain, payload⟩ := by
  have hstep : ¬ (step.step = .prepare ∨ step.step = .commit) := by
    rw [not_or]
    exact ⟨step.step_ne_prepare, step.step_ne_commit⟩
  refine ⟨sha256Hex (canonicalText payload), ?_, fun hvote => absurd hvote hstep, fun _ => rfl⟩
  rcases reserveV6_cases h with ⟨rfl, hrow⟩ | ⟨rfl, -, -⟩
  · exact hrow
  · rw [v6HeightState_append_row, if_pos rfl, get_rows_applyRow step.step_ne_lock]
    exact if_pos rfl

theorem Checked.reserved {l : LiveJournal} (hf : l.Faithful) {es : List Entry}
    (h : Checked cfg l.journal request reservation release)
    (hr : l.journal.reserve reservation = .ok es) :
    Reserved cfg (l.journal.append es) release := by
  cases h with
  | @legacy height _ _ hreservation =>
    change height ∈ (l.journal.append es).legacyHeights
    rcases hreservation with rfl | ⟨round, previousHash, rfl⟩
    · obtain ⟨-, ⟨rfl, hmem⟩ | ⟨rfl, -⟩⟩ := reserveLegacyHeight_cases hr
      · exact hmem
      · exact Finset.mem_insert_self _ _
    · rcases reserveChoice_cases hr with ⟨rfl, hget⟩ | ⟨rfl, -⟩
      · exact hf.legacy_of_reservation hget
      · exact Finset.mem_insert_self _ _
  | proposal | timeout => exact reserved_free hr
  | @prepare height round _ hash =>
    refine ⟨hash, ?_, fun _ => rfl, fun hne => absurd (.inl rfl) hne⟩
    obtain ⟨-, ⟨rfl, hrow⟩ | ⟨rfl, -, -, -⟩⟩ := reserveV6Prepare_cases hr
    · exact hrow
    · rw [v6HeightState_append_row, if_pos rfl, get_rows_applyRow (by simp), if_pos rfl]
  | @commit height round hash =>
    refine ⟨hash, ?_, fun _ => rfl, fun hne => absurd (.inr rfl) hne⟩
    rcases reserveV6Commit_cases hr with ⟨rfl, hrow⟩ | ⟨rfl, -, -, -⟩
    · exact hrow
    · rw [v6HeightState_append_pair, if_pos rfl, get_rows_applyPair]
      exact if_pos rfl

omit [Crypto] in
theorem legacyHeights_subset_append (journal : SigningJournal) (es : List Entry) :
    journal.legacyHeights ⊆ (journal.append es).legacyHeights := by
  induction es generalizing journal with
  | nil => exact subset_rfl
  | cons e es ih =>
    refine subset_trans ?_ (ih (journal.applyEntry e))
    cases e with
    | choice | mark => exact Finset.subset_insert ..
    | v6 => exact subset_rfl

variable {s s' : State} {es : List Entry}

/-- The records of a request change nothing that the journal held. -/
theorem Wrote.keeps (hw : Wrote cfg s s' request reservation release es)
    (hf : s.journal.Faithful) (height : Int) :
    SigningJournal.Keeps height s.journal.journal s'.journal.journal := by
  refine SigningJournal.Keeps.trans ?_ hw.journal.symm.keeps
  have hkeeps : SigningJournal.Keeps height s.journal.journal
      (s.journal.after (.reserve reservation)).journal := hf.keeps_after nofun
  rw [after_reserve_ok hw.reserve] at hkeeps
  exact hkeeps

theorem Wrote.reserved (hw : Wrote cfg s s' request reservation release es)
    (hf : s.journal.Faithful) {x : Release} (hx : Reserved cfg s.journal.journal x) :
    Reserved cfg s'.journal.journal x := by
  rw [Reserved] at hx ⊢
  split at hx
  · rw [hw.journal.legacyHeights]
    exact legacyHeights_subset_append _ _ hx
  · next round step hslot =>
    obtain ⟨value, hrow, hpayload⟩ := hx
    exact ⟨value, (hw.keeps hf x.height).rows _ _ _ hrow, hpayload⟩

/-- A later certificate for the block of a prepare vote. -/
def Unlocks (cfg : Config) (requests : List SigningRequest) (height r₀ r : Int) (hash : String) :
    Prop :=
  ∃ q ∈ requests, ∃ qc, Carries cfg q height qc ∧ qc.blockHash = hash ∧ r₀ < qc.round ∧
    (q.intent = .prepareVote ∧ qc.round < r ∨ q.intent = .commitVote ∧ qc.round ≤ r)

/-- The rows of a height and the certificates they rest on. -/
structure Certified (cfg : Config) (requests : List SigningRequest) (height : Int)
    (state : V6HeightJournal) : Prop where
  commit : ∀ r b, state.rows.get (r, .commit) = some b → ∃ q ∈ requests,
    q.intent = .commitVote ∧ ∃ qc, Carries cfg q height qc ∧ qc.round = r ∧ qc.blockHash = b
  prepare : ∀ r b r₀ b₀, state.rows.get (r, .prepare) = some b →
    state.rows.get (r₀, .commit) = some b₀ → r₀ < r → b ≠ b₀ → Unlocks cfg requests height r₀ r b

theorem Certified.mono {requests' : List SigningRequest} (h : Certified cfg requests height state)
    (hsub : requests ⊆ requests') : Certified cfg requests' height state := by
  refine ⟨fun r b hb => ?_, fun r b r₀ b₀ hb hb₀ hlt hne => ?_⟩
  · obtain ⟨q, hq, hrest⟩ := h.commit r b hb
    exact ⟨q, hsub hq, hrest⟩
  · obtain ⟨q, hq, hrest⟩ := h.prepare r b r₀ b₀ hb hb₀ hlt hne
    exact ⟨q, hsub hq, hrest⟩

/-- A prepare vote that the lock allows: its block is the locked one, which has a certificate of the
round of the lock, or the request carries a certificate above the lock. -/
private theorem unlocks_of_safe (hs : state.Sound) (h : Certified cfg requests height state)
    (hmem : request ∈ requests) (hintent : request.intent = .prepareVote) {justifyRound : Int}
    (hjustified : justifyRound = -1 ∨ ∃ qc, Carries cfg request height qc ∧ qc.blockHash = hash ∧
      qc.round = justifyRound ∧ justifyRound < round) (hopen : state.RoundOpen round)
    (hsafe : safeVote state.lock hash justifyRound = true) {r₀ : Int} {b₀ : String}
    (hb₀ : state.rows.get (r₀, .commit) = some b₀) (hne : hash ≠ b₀) :
    Unlocks cfg requests height r₀ round hash := by
  obtain ⟨l, hl, hle⟩ := hs.commit_le r₀ b₀ hb₀
  have hcommit := hs.lock_commit l hl
  rw [hl, safeVote, Bool.or_eq_true, beq_iff_eq, decide_eq_true_eq] at hsafe
  rcases hsafe with hlocked | hlater
  · obtain ⟨q, hq, hqIntent, qc, hcarried, hround, hhash⟩ := h.commit _ _ hcommit
    have hlt : r₀ < l.round := by
      rcases hle.eq_or_lt with rfl | hlt
      · rw [hb₀, Option.some.injEq] at hcommit
        exact absurd (hlocked.trans hcommit.symm) hne
      · exact hlt
    have hmax := (hs.vote_le _ _ _ (.inr rfl) hcommit).trans hopen.2
    exact ⟨q, hq, qc, hcarried, hhash.trans hlocked.symm, hround ▸ hlt,
      .inr ⟨hqIntent, hround ▸ hmax⟩⟩
  · rcases hjustified with rfl | ⟨qc, hcarried, hhash, hround, hlt⟩
    · have := hs.nonneg _ _ _ hcommit
      omega
    · exact ⟨request, hmem, qc, hcarried, hhash, by omega, .inl ⟨hintent, by omega⟩⟩

/-- What an accepted request writes rests on certificates. -/
theorem Certified.effect {state' : V6HeightJournal} (hs : state.Sound)
    (h : Certified cfg requests height state) (hmem : request ∈ requests)
    (heffect : RowEffect cfg request height state state') :
    Certified cfg requests height state' := by
  cases heffect with
  | nothing => exact h
  | @other row hne =>
    obtain ⟨hlock, hprepare, hcommit⟩ := hne
    have hget : ∀ r step, step = .prepare ∨ step = .commit →
        (state.applyRow row).rows.get (r, step) = state.rows.get (r, step) := by
      intro r step hstep
      rw [get_rows_applyRow hlock, if_neg]
      intro heq
      have hrow : row.step = step := congrArg Prod.snd heq
      rcases hstep with rfl | rfl
      · exact hprepare hrow
      · exact hcommit hrow
    refine ⟨fun r b hb => ?_, fun r b r₀ b₀ hb hb₀ => ?_⟩
    · rw [hget r _ (.inr rfl)] at hb
      exact h.commit r b hb
    · rw [hget r _ (.inl rfl)] at hb
      rw [hget r₀ _ (.inr rfl)] at hb₀
      exact h.prepare r b r₀ b₀ hb hb₀
  | @prepare round justifyRound hash hintent hjustified hopen hsafe =>
    have hcommit : ∀ r, (state.applyRow
        { height, round, step := .prepare, value := hash }).rows.get (r, .commit) =
          state.rows.get (r, .commit) := by
      intro r
      rw [get_rows_applyRow (by simp), if_neg (by simp)]
    refine ⟨fun r b hb => ?_, fun r b r₀ b₀ hb hb₀ hlt hne => ?_⟩
    · rw [hcommit] at hb
      exact h.commit r b hb
    · rw [hcommit] at hb₀
      rw [get_rows_applyRow (by simp)] at hb
      split at hb
      · next heq =>
        have hround : round = r := congrArg Prod.fst heq
        rw [Option.some.injEq] at hb
        subst hround hb
        exact unlocks_of_safe hs h hmem hintent hjustified hopen hsafe hb₀ hne
      · exact h.prepare r b r₀ b₀ hb hb₀ hlt hne
  | @commit qc hintent hcarried hopen =>
    refine ⟨fun r b hb => ?_, fun r b r₀ b₀ hb hb₀ hlt hne => ?_⟩
    · rw [get_rows_applyPair] at hb
      split at hb
      · next heq =>
        exact ⟨request, hmem, hintent, qc, hcarried, congrArg Prod.fst heq, Option.some.inj hb⟩
      · exact h.commit r b hb
    · rw [get_rows_applyPair, if_neg (by simp)] at hb
      rw [get_rows_applyPair] at hb₀
      split at hb₀
      · -- a later prepare vote closes the round to commits
        next heq =>
          have hround : qc.round = r₀ := congrArg Prod.fst heq
          have := (hs.vote_le _ _ _ (.inl rfl) hb).trans hopen.2
          omega
      · exact h.prepare r b r₀ b₀ hb hb₀ hlt hne

/-- A commit vote is signed only with the certificate of its round and block. -/
theorem Checked.commit_carried (h : Checked cfg journal request reservation release) {r : Int}
    (hslot : release.slot = some (r, .commit)) :
    ∃ qc, Carries cfg request release.height qc ∧ qc.round = r ∧
      release.payload = votePayload cfg.chainId release.height r qc.blockHash := by
  cases h with
  | @proposal _ _ step =>
    exact absurd (congrArg Prod.snd (Option.some.inj hslot)) step.step_ne_commit
  | @commit height round hash qc _ hcarried hround hhash =>
    have hr : round = r := congrArg Prod.fst (Option.some.inj hslot)
    subst hr
    exact ⟨qc, hcarried, hround, by rw [hhash]⟩
  | legacy | prepare | timeout => cases hslot

/-- When an action is reserved for the first time, its round is open; that of a timeout is not
past. -/
theorem Checked.round_of_new {es : List Entry}
    (h : Checked cfg journal request reservation release)
    (hr : journal.reserve reservation = .ok es) {r : Int} {step : V6JournalStep}
    (hslot : release.slot = some (r, step))
    (hnew : (journal.v6HeightState release.height).rows.get (r, step) = none) :
    (journal.v6HeightState release.height).maxVoteRound ≤ r ∧
      (journal.v6HeightState release.height).maxTimeoutRound ≤ r ∧
      (step ≠ .timeout → (journal.v6HeightState release.height).maxTimeoutRound < r) := by
  have hopen : (journal.v6HeightState release.height).RoundOpen r →
      (journal.v6HeightState release.height).maxVoteRound ≤ r ∧
      (journal.v6HeightState release.height).maxTimeoutRound ≤ r ∧
      (step ≠ .timeout → (journal.v6HeightState release.height).maxTimeoutRound < r) := by
    rintro ⟨htimeout, hvote⟩
    exact ⟨hvote, htimeout.le, fun _ => htimeout⟩
  cases h with
  | legacy => cases hslot
  | @proposal _ _ freeStep _ _ hne =>
    rw [Option.some.injEq, Prod.mk.injEq] at hslot
    obtain ⟨rfl, rfl⟩ := hslot
    rcases reserveV6_cases hr with ⟨-, hrow⟩ | ⟨-, -, hround⟩
    · exact nomatch hnew.symm.trans hrow
    · exact hopen (hround.resolve_left hne)
  | prepare =>
    rw [Option.some.injEq, Prod.mk.injEq] at hslot
    obtain ⟨rfl, rfl⟩ := hslot
    obtain ⟨-, ⟨-, hrow⟩ | ⟨-, -, hround, -⟩⟩ := reserveV6Prepare_cases hr
    · exact nomatch hnew.symm.trans hrow
    · exact hopen hround
  | commit =>
    rw [Option.some.injEq, Prod.mk.injEq] at hslot
    obtain ⟨rfl, rfl⟩ := hslot
    rcases reserveV6Commit_cases hr with ⟨-, hrow⟩ | ⟨-, -, hround, -⟩
    · exact nomatch hnew.symm.trans hrow
    · exact hopen hround
  | timeout hnotPast =>
    rw [Option.some.injEq, Prod.mk.injEq] at hslot
    obtain ⟨rfl, rfl⟩ := hslot
    obtain ⟨hvote, htimeout⟩ := hnotPast hnew
    exact ⟨hvote, htimeout, fun hne => absurd rfl hne⟩

/-- What holds of every state that a signer reaches. -/
structure Invariant (cfg : Config) (s : State) : Prop where
  faithful : s.journal.Faithful
  certified : ∀ height, Certified cfg s.requests height (s.journal.journal.v6HeightState height)
  reserved : ∀ q x, (q, x) ∈ s.released → Reserved cfg s.journal.journal x
  commits : ∀ q x r, (q, x) ∈ s.released → x.slot = some (r, .commit) →
    ∃ qc, Carries cfg q x.height qc ∧ qc.round = r ∧
      x.payload = votePayload cfg.chainId x.height r qc.blockHash

theorem Reachable.invariant (h : Reachable cfg s) : Invariant cfg s := by
  induction h with
  | fresh =>
    refine ⟨faithful_fresh, fun height => ⟨nofun, nofun⟩, ?_, ?_⟩
    · exact fun _ _ hm => nomatch hm
    · exact fun _ _ _ hm => nomatch hm
  | @step s s' out _ hstep ih =>
    have hf := ih.faithful
    obtain ⟨hfaithful, ⟨-, hsame, hrequests, hreleased⟩ | ⟨request, reservation, release, es, hw,
      hout⟩⟩ := hstep.cases hf
    · refine ⟨hfaithful, fun height => ?_, ?_, hreleased ▸ ih.commits⟩
      · rw [hsame.v6HeightState]
        exact (ih.certified height).mono hrequests.subset
      · rw [hreleased]
        intro q x hx
        have hreserved := ih.reserved q x hx
        simp only [Reserved, hsame.v6HeightState, hsame.legacyHeights] at hreserved ⊢
        exact hreserved
    · refine ⟨hfaithful, fun height => ?_, fun q x hx => ?_, fun q x r hx hslot => ?_⟩
      · have heffect := hw.checked.effect hw.reserve height
        rw [← hw.journal.v6HeightState] at heffect
        refine ((ih.certified height).mono ?_).effect (hf.v6Sound height) ?_ heffect
        · rw [hw.requests]
          exact subset_append_left ..
        · rw [hw.requests]
          exact mem_append_right _ (mem_singleton_self _)
      · rcases hout with ⟨-, hreleased⟩ | ⟨-, hreleased⟩
        · rw [hreleased] at hx
          exact hw.reserved hf (ih.reserved q x hx)
        · rw [hreleased, mem_append, mem_singleton, Prod.mk.injEq] at hx
          rcases hx with hx | ⟨-, rfl⟩
          · exact hw.reserved hf (ih.reserved q x hx)
          · have hreserved := hw.checked.reserved hf hw.reserve
            simp only [Reserved, hw.journal.v6HeightState, hw.journal.legacyHeights]
              at hreserved ⊢
            exact hreserved
      · rcases hout with ⟨-, hreleased⟩ | ⟨-, hreleased⟩
        · rw [hreleased] at hx
          exact ih.commits q x r hx hslot
        · rw [hreleased, mem_append, mem_singleton, Prod.mk.injEq] at hx
          rcases hx with hx | ⟨rfl, rfl⟩
          · exact ih.commits q x r hx hslot
          · exact hw.checked.commit_carried hslot

/-! ### The rules -/

def Voted (cfg : Config) (s : State) (height round : Int) (step : V6JournalStep) (hash : String) :
    Prop :=
  ∃ q x, (q, x) ∈ s.released ∧ x.height = height ∧ x.slot = some (round, step) ∧
    x.payload = votePayload cfg.chainId height round hash

/-- No two payloads that were signed have one digest. -/
def DigestsDistinct (s : State) : Prop :=
  ∀ x ∈ s.released, ∀ y ∈ s.released,
    sha256Hex (canonicalText x.2.payload) = sha256Hex (canonicalText y.2.payload) →
      canonicalText x.2.payload = canonicalText y.2.payload

private theorem Invariant.row_of_voted (hI : Invariant cfg s) {step : V6JournalStep}
    (hstep : step = .prepare ∨ step = .commit) (h : Voted cfg s height round step hash) :
    (s.journal.journal.v6HeightState height).rows.get (round, step) = some hash := by
  obtain ⟨q, x, hx, rfl, hslot, hpayload⟩ := h
  have hreserved := hI.reserved q x hx
  rw [Reserved, hslot] at hreserved
  obtain ⟨value, hrow, hvote, -⟩ := hreserved
  have heq := hpayload.symm.trans (hvote hstep)
  rw [(votePayload_injective heq).2.2.2]
  exact hrow

private theorem Invariant.payload_unique (hI : Invariant cfg s) (hdistinct : DigestsDistinct s)
    {x y : SigningRequest × Release} (hx : x ∈ s.released) (hy : y ∈ s.released)
    (hheight : x.2.height = y.2.height) (hslot : x.2.slot = y.2.slot) (hv6 : x.2.slot ≠ none) :
    canonicalText x.2.payload = canonicalText y.2.payload := by
  obtain ⟨⟨round, step⟩, hround⟩ := Option.ne_none_iff_exists'.mp hv6
  have hreserved := hI.reserved x.1 x.2 hx
  have hreserved' := hI.reserved y.1 y.2 hy
  rw [Reserved, hround] at hreserved
  rw [Reserved, ← hslot, hround, ← hheight] at hreserved'
  obtain ⟨value, hrow, hvote, hdigest⟩ := hreserved
  obtain ⟨value', hrow', hvote', hdigest'⟩ := hreserved'
  rw [hrow, Option.some.injEq] at hrow'
  subst hrow'
  by_cases hstep : step = .prepare ∨ step = .commit
  · rw [hvote hstep, hvote' hstep]
  · exact hdistinct x hx y hy ((hdigest hstep).symm.trans (hdigest' hstep))

/-- The rules that released signatures obey, whatever a signer is asked.

There is one payload for a slot.  A prepare vote for another block than that of a commit in an
earlier round rests on a certificate for its block of a later round than the commit, which came with
the prepare request or with that of a later commit.  A commit vote comes with the certificate of its
round and block.  No height has signatures of both protocols.  An action that is not in the journal
yet is signed only when no later round was voted, no later round was timed out, and, unless it is
a timeout, its own round was not either. -/
theorem signer_rules (h : Reachable cfg s) (hdistinct : DigestsDistinct s) :
    (∀ x ∈ s.released, ∀ y ∈ s.released, x.2.height = y.2.height → x.2.slot = y.2.slot →
      x.2.slot ≠ none → canonicalText x.2.payload = canonicalText y.2.payload) ∧
    (∀ height r r₀ b b₀, Voted cfg s height r .prepare b → Voted cfg s height r₀ .commit b₀ →
      r₀ < r → b ≠ b₀ → Unlocks cfg s.requests height r₀ r b) ∧
    (∀ q x r, (q, x) ∈ s.released → x.slot = some (r, .commit) →
      ∃ qc, Carries cfg q x.height qc ∧ qc.round = r ∧
        x.payload = votePayload cfg.chainId x.height r qc.blockHash) ∧
    (∀ x ∈ s.released, ∀ y ∈ s.released, x.2.slot = none → y.2.slot ≠ none →
      x.2.height ≠ y.2.height) ∧
    ∀ s' q x r step, Step cfg s s' (some (q, x)) → x.slot = some (r, step) →
      (s.journal.journal.v6HeightState x.height).rows.get (r, step) = none →
      ∀ y ∈ s.released, y.2.height = x.height → ∀ r' step', y.2.slot = some (r', step') →
        (step' = .prepare ∨ step' = .commit → r' ≤ r) ∧
        (step' = .timeout → r' ≤ r ∧ (step ≠ .timeout → r' < r)) := by
  have hI := h.invariant
  refine ⟨fun x hx y hy => hI.payload_unique hdistinct hx hy, ?_, hI.commits, ?_, ?_⟩
  · intro height r r₀ b b₀ hb hb₀ hlt hne
    exact (hI.certified height).prepare r b r₀ b₀ (hI.row_of_voted (.inl rfl) hb)
      (hI.row_of_voted (.inr rfl) hb₀) hlt hne
  · intro x hx y hy hlegacy hv6 hheight
    obtain ⟨⟨round, step⟩, hslot⟩ := Option.ne_none_iff_exists'.mp hv6
    have hreserved := hI.reserved x.1 x.2 hx
    have hreserved' := hI.reserved y.1 y.2 hy
    rw [Reserved, hlegacy] at hreserved
    rw [Reserved, hslot] at hreserved'
    obtain ⟨value, hrow, -⟩ := hreserved'
    rw [← hheight, hI.faithful.noMix hreserved] at hrow
    cases hrow
  · intro s' q x r step hstep hslot hnew y hy hheight r' step' hslot'
    obtain ⟨-, ⟨hnone, -⟩ | ⟨request, reservation, release, es, hw, hout⟩⟩ :=
      hstep.cases hI.faithful
    · cases hnone
    · rcases hout with ⟨hnone, -⟩ | ⟨hsome, -⟩
      · cases hnone
      · rw [Option.some.injEq, Prod.mk.injEq] at hsome
        obtain ⟨rfl, rfl⟩ := hsome
        obtain ⟨hvote, htimeout, hopen⟩ := hw.checked.round_of_new hw.reserve hslot hnew
        have hs := hI.faithful.v6Sound x.height
        have hreserved := hI.reserved y.1 y.2 hy
        rw [Reserved, hslot', hheight] at hreserved
        obtain ⟨value, hrow, -⟩ := hreserved
        refine ⟨fun hkind => (hs.vote_le _ _ _ hkind hrow).trans hvote, fun hkind => ?_⟩
        subst hkind
        have hle := hs.timeout_le _ _ hrow
        exact ⟨hle.trans htimeout, fun hne => hle.trans_lt (hopen hne)⟩

end

/-! ### A validator on its own -/

namespace Alone

/-- A digest of one digit: the last of a payload, which ends in its round. -/
def lastDigit (bytes : List UInt8) : Char := match bytes.reverse with
  | _ :: d :: _ => if d = 49 then '1' else if d = 50 then '2' else '0'
  | _ => '0'

theorem isLowerHex_lastDigit (bytes : List UInt8) : isLowerHex (lastDigit bytes) = true := by
  rw [lastDigit]
  split
  · split
    · decide
    · split
      · decide
      · decide
  · decide

/-- Every signature is accepted. -/
local instance aloneCrypto : Crypto where
  sha256 := fun bytes => digits 64 (lastDigit bytes)
  sha256_hex := fun bytes => isHash64_digits (isLowerHex_lastDigit bytes)
  verify := fun _ _ _ => true
  isPoint := fun _ => true

def key : String := digits 128 '1'

def cfg : Config := ⟨key, "zyron", [⟨addressFromPublicKey key, key⟩]⟩

def first : String := digits 64 'a'

def second : String := digits 64 'b'

def qc (round : Int) (hash : String) : PrepareQC :=
  ⟨"zyron", 2, round, hash, [⟨addressFromPublicKey key, key, digits 128 'c'⟩]⟩

def commitRequest (round : Int) (hash : String) : SigningRequest :=
  ⟨2, .commitVote, some commitVoteDomain, votePayload "zyron" 2 round hash,
    some ("qc", some (qc round hash))⟩

def prepareRequest : SigningRequest :=
  ⟨2, .prepareVote, some prepareVoteDomain, votePayload "zyron" 2 2 second, some ("justify", none)⟩

def commitRelease (round : Int) (hash : String) : Release :=
  ⟨2, some (round, .commit), some commitVoteDomain, votePayload "zyron" 2 round hash⟩

def prepareRelease : Release :=
  ⟨2, some (2, .prepare), some prepareVoteDomain, votePayload "zyron" 2 2 second⟩

theorem sign_commit {round : Int} {hash : String} (journal : SigningJournal)
    (hslot : slot cfg (votePayload "zyron" 2 round hash) = .ok (2, round))
    (hhash : hashField (votePayload "zyron" 2 round hash) "blockHash"
      "Invalid v6 vote block hash" = .ok hash)
    (hqc : verifyQC cfg (qc round hash) 2 round hash "Commit" = .ok ()) :
    signLocked cfg journal (commitRequest round hash) =
      .ok (.v6Commit 2 round hash, commitRelease round hash) := by
  change (slot cfg (votePayload "zyron" 2 round hash) >>= fun p => _) = _
  rw [hslot]
  change (hashField (votePayload "zyron" 2 round hash) "blockHash" _ >>= fun p => _) = _
  rw [hhash]
  change (verifyQC cfg (qc round hash) 2 round hash "Commit" >>= fun p => _) = _
  rw [hqc]
  rfl

theorem sign_prepare (journal : SigningJournal) :
    signLocked cfg journal prepareRequest = .ok (.v6Prepare 2 2 second (-1), prepareRelease) := by rfl

/-- The signer after two commits, in rounds 0 and 1. -/
def committed : State where
  journal := ⟨(empty.append [.v6 (lockRow 2 0 first), .v6 (commitRow 2 0 first)]).append
      [.v6 (lockRow 2 1 second), .v6 (commitRow 2 1 second)],
    [] ++ journalText [.v6 (lockRow 2 0 first), .v6 (commitRow 2 0 first)] ++
      journalText [.v6 (lockRow 2 1 second), .v6 (commitRow 2 1 second)]⟩
  requests := [] ++ [commitRequest 0 first] ++ [commitRequest 1 second]
  released := [] ++ [(commitRequest 0 first, commitRelease 0 first)] ++
    [(commitRequest 1 second, commitRelease 1 second)]

/-- The signer after a prepare vote for the second block. -/
def prepared : State where
  journal := ⟨committed.journal.journal.append
      [.v6 { height := 2, round := 2, step := .prepare, value := second }],
    committed.journal.file ++
      journalText [.v6 { height := 2, round := 2, step := .prepare, value := second }]⟩
  requests := committed.requests ++ [prepareRequest]
  released := committed.released ++ [(prepareRequest, prepareRelease)]

theorem reachable_prepared : Reachable cfg prepared := by
  have hreserve : empty.reserve (.v6Commit 2 0 first) =
      .ok [.v6 (lockRow 2 0 first), .v6 (commitRow 2 0 first)] := by decide +kernel
  have hreserve' : (empty.append
      [.v6 (lockRow 2 0 first), .v6 (commitRow 2 0 first)]).reserve (.v6Commit 2 1 second) =
      .ok [.v6 (lockRow 2 1 second), .v6 (commitRow 2 1 second)] := by decide +kernel
  have hreserve'' : committed.journal.journal.reserve (.v6Prepare 2 2 second (-1)) =
      .ok [.v6 { height := 2, round := 2, step := .prepare, value := second }] := by decide +kernel
  have hcommitted : Reachable cfg committed :=
    (Reachable.fresh.step (.signed (sign_commit _ (by decide +kernel) (by decide +kernel)
      (by decide +kernel)) hreserve)).step (.signed (sign_commit _ (by decide +kernel)
        (by decide +kernel) (by decide +kernel)) hreserve')
  exact hcommitted.step (.signed (sign_prepare _) hreserve'')

/-- A signer that has committed the first block in round 0 and the second one in round 1 prepares the
second one in round 2 for a request without a certificate. -/
theorem prepare_without_certificate :
    Reachable cfg prepared ∧ Voted cfg prepared 2 0 .commit first ∧
      Voted cfg prepared 2 2 .prepare second ∧ second ≠ first ∧
      ∀ q x, (q, x) ∈ prepared.released → x.slot = some (2, .prepare) →
        ¬ ∃ qc, Carries cfg q 2 qc := by
  refine ⟨reachable_prepared, ?_, ?_, by decide +kernel, ?_⟩
  · exact ⟨commitRequest 0 first, commitRelease 0 first, by simp [prepared, committed], rfl, rfl, rfl⟩
  · exact ⟨prepareRequest, prepareRelease, by simp [prepared], rfl, rfl, rfl⟩
  · intro q x hx hslot
    simp only [prepared, committed, nil_append, cons_append, mem_cons, Prod.mk.injEq,
      not_mem_nil, or_false] at hx
    rcases hx with ⟨rfl, rfl⟩ | ⟨rfl, rfl⟩ | ⟨rfl, rfl⟩
    · cases hslot
    · cases hslot
    · rintro ⟨qc, ⟨name, hname⟩, -⟩
      cases hname

/-- The certificate that the vote rests on came with the commit of round 1. -/
theorem signer_rules_prepared : Unlocks cfg prepared.requests 2 0 2 second := by
  have hdistinct : DigestsDistinct prepared := by
    have hdigests : (prepared.released.map fun x =>
        sha256Hex (canonicalText x.2.payload)).Nodup := by decide +kernel
    intro x hx y hy hdigest
    rw [inj_on_of_nodup_map hdigests hx hy hdigest]
  refine (signer_rules reachable_prepared hdistinct).2.1 2 2 0 second first ?_ ?_ (by decide)
    (by decide +kernel)
  · exact ⟨prepareRequest, prepareRelease, by simp [prepared], rfl, rfl, rfl⟩
  · exact ⟨commitRequest 0 first, commitRelease 0 first, by simp [prepared, committed], rfl, rfl, rfl⟩

end Alone

end RemoteSigner

end ZyronChain
