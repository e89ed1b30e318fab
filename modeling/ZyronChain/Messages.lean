import ZyronChain.ConsensusV6.Certificates

/-!
# What validators sign

Seven kinds of messages, each signed under its own domain; before protocol version 3 the three
kinds that existed were signed without a domain.  A signature for one message is never one for
another: the signed texts differ.

Source: `l1/src/validator-signer.ts` (`ValidatorSigningIntent`, `validatorSigningDomain`,
`signWithValidator`).
-/

namespace ZyronChain

inductive ValidatorSigningIntent where
  | blockProposal
  | blockAttestation
  | roundSkip
  | consensusProposal
  | prepareVote
  | commitVote
  | roundTimeout
deriving DecidableEq, Repr

def validatorSigningDomain : ValidatorSigningIntent → String
  | .blockProposal => blockProposalDomain
  | .blockAttestation => finalityAttestationDomain
  | .roundSkip => roundSkipDomain
  | .consensusProposal => proposalDomain
  | .prepareVote => prepareVoteDomain
  | .commitVote => commitVoteDomain
  | .roundTimeout => timeoutDomain

theorem validatorSigningDomain_injective {i j : ValidatorSigningIntent}
    (h : validatorSigningDomain i = validatorSigningDomain j) : i = j := by
  revert h
  cases i <;> cases j <;> decide

/-- A message that a validator signs. -/
inductive ValidatorMessage where
  | blockProposal (header : BlockHeader)
  | blockAttestation (block : Block)
  /-- The signature of the vote is not part of the message. -/
  | roundSkip (protocolVersion : Int) (vote : RoundSkipVote)
  | consensusProposal (payload : V6ProposalPayload)
  | prepareVote (chainId : String) (height round : Int) (blockHash : String)
  | commitVote (chainId : String) (height round : Int) (blockHash : String)
  | roundTimeout (payload : V6TimeoutPayload)
deriving DecidableEq

namespace ValidatorMessage

def intent : ValidatorMessage → ValidatorSigningIntent
  | blockProposal _ => .blockProposal
  | blockAttestation _ => .blockAttestation
  | roundSkip _ _ => .roundSkip
  | consensusProposal _ => .consensusProposal
  | prepareVote .. => .prepareVote
  | commitVote .. => .commitVote
  | roundTimeout _ => .roundTimeout

def payload : ValidatorMessage → Json
  | blockProposal header => header.toJson
  | blockAttestation block => attestationPayload block
  | roundSkip _ vote => roundSkipPayload vote
  | consensusProposal payload => payload.toJson
  | prepareVote chainId height round blockHash => votePayload chainId height round blockHash
  | commitVote chainId height round blockHash => votePayload chainId height round blockHash
  | roundTimeout payload => payload.toJson

/-- The protocol version that decides on the domain. -/
def protocolVersion : ValidatorMessage → Int
  | blockProposal header => header.version
  | blockAttestation block => block.header.version
  | roundSkip protocolVersion _ => protocolVersion
  | _ => consensusV6ProtocolVersion

def value (m : ValidatorMessage) : Json :=
  protocolMessage m.protocolVersion (validatorSigningDomain m.intent) m.payload

def text (m : ValidatorMessage) : List Char := canonicalText m.value

theorem inOrder_payload (m : ValidatorMessage) : InOrder m.payload := by
  cases m with
  | blockProposal header =>
    exact ⟨(by decide : KeysInOrder ["chainId", "height", "previousHash", "proposer",
      "round", "stateRoot", "timestampMs", "transactionRoot", "version"]), trivial, trivial,
      trivial, trivial, trivial, trivial, trivial, trivial, trivial, trivial⟩
  | blockAttestation block =>
    exact ⟨(by decide : KeysInOrder ["blockHash", "chainId", "height"]), trivial,
      trivial, trivial, trivial⟩
  | roundSkip _ vote =>
    exact ⟨(by decide : KeysInOrder ["chainId", "height", "previousHash", "publicKey",
      "round", "validator"]), trivial, trivial, trivial, trivial, trivial, trivial, trivial⟩
  | consensusProposal payload =>
    exact ⟨(by decide : KeysInOrder ["blockHash", "chainId", "height", "justifyRound",
      "round"]), trivial, trivial, trivial, trivial, trivial, trivial⟩
  | prepareVote c h r b => exact inOrder_votePayload c h r b
  | commitVote c h r b => exact inOrder_votePayload c h r b
  | roundTimeout payload => exact payload.inOrder_toJson

theorem plain_payload (m : ValidatorMessage) : m.payload.Plain := by
  cases m with
  | blockProposal header =>
    exact ⟨(by decide : ["chainId", "height", "previousHash", "proposer", "round", "stateRoot",
      "timestampMs", "transactionRoot", "version"].Nodup), trivial, trivial, trivial, trivial,
      trivial, trivial, trivial, trivial, trivial, trivial⟩
  | blockAttestation block =>
    exact ⟨(by decide : ["blockHash", "chainId", "height"].Nodup), trivial, trivial, trivial,
      trivial⟩
  | roundSkip _ vote =>
    exact ⟨(by decide : ["chainId", "height", "previousHash", "publicKey", "round",
      "validator"].Nodup), trivial, trivial, trivial, trivial, trivial, trivial, trivial⟩
  | consensusProposal payload =>
    exact ⟨(by decide : ["blockHash", "chainId", "height", "justifyRound", "round"].Nodup),
      trivial, trivial, trivial, trivial, trivial, trivial⟩
  | prepareVote c h r b => exact plain_votePayload c h r b
  | commitVote c h r b => exact plain_votePayload c h r b
  | roundTimeout payload => exact payload.plain_toJson

/-- How many members the payload of an intent has. -/
private def memberCount : ValidatorSigningIntent → Nat
  | .blockProposal => 9
  | .blockAttestation => 3
  | .roundSkip => 6
  | .consensusProposal => 5
  | .prepareVote => 4
  | .commitVote => 4
  | .roundTimeout => 5

private theorem length_keys_payload (m : ValidatorMessage) :
    m.payload.keys.length = memberCount m.intent := by
  cases m <;> rfl

private theorem legacy_of_not_domained {m : ValidatorMessage} (h : ¬ m.protocolVersion ≥ 3) :
    m.intent = .blockProposal ∨ m.intent = .blockAttestation ∨ m.intent = .roundSkip := by
  cases m with
  | blockProposal | blockAttestation | roundSkip => simp [intent]
  | consensusProposal | prepareVote | commitVote | roundTimeout =>
    exact absurd (by decide : consensusV6ProtocolVersion ≥ 3) h

/-- The text determines the intent and the payload. -/
theorem text_injective {m m' : ValidatorMessage} (h : m.text = m'.text) :
    m.intent = m'.intent ∧ m.payload = m'.payload := by
  have hvalue : m.value = m'.value := by
    have hin : ∀ m : ValidatorMessage, InOrder m.value ∧ m.value.Plain := by
      intro m
      rw [value, protocolMessage]
      split
      · exact ⟨inOrder_domainPayload m.inOrder_payload, plain_domainPayload m.plain_payload⟩
      · exact ⟨m.inOrder_payload, m.plain_payload⟩
    exact canonicalText_injective (hin m).1 (hin m').1 (hin m).2 (hin m').2 h
  -- a payload on its own never looks like one under a domain, nor like one of another intent
  have hraw : ∀ m : ValidatorMessage, m.payload.keys.length ≠ 2 := by
    intro m
    rw [length_keys_payload]
    cases m.intent <;> decide
  have hdomain : ∀ d p, (domainPayload d p).keys.length = 2 := fun _ _ => rfl
  rw [value, value, protocolMessage, protocolMessage] at hvalue
  split at hvalue <;> split at hvalue
  · simp only [domainPayload, Json.obj.injEq, List.cons.injEq, Prod.mk.injEq, Json.str.injEq,
      true_and, and_true] at hvalue
    exact ⟨validatorSigningDomain_injective hvalue.1, hvalue.2⟩
  · exact absurd (hvalue ▸ hdomain _ _) (hraw m')
  · exact absurd (hvalue ▸ hdomain _ _) (hraw m)
  · next h3 h3' =>
    refine ⟨?_, hvalue⟩
    have hcount := congrArg (fun p => p.keys.length) hvalue
    simp only [length_keys_payload] at hcount
    rcases legacy_of_not_domained h3 with hi | hi | hi <;>
      rcases legacy_of_not_domained h3' with hi' | hi' | hi' <;>
      rw [hi, hi'] at hcount ⊢ <;>
      first | rfl | exact absurd hcount (by decide)

theorem eq_prepareVote_of_text {m : ValidatorMessage} {chainId blockHash : String}
    {height round : Int} (h : m.text =
      canonicalText (domainPayload prepareVoteDomain (votePayload chainId height round blockHash))) :
    m = .prepareVote chainId height round blockHash := by
  have htext : m.text = (prepareVote chainId height round blockHash).text := h
  obtain ⟨hintent, hpayload⟩ := text_injective htext
  cases m with
  | prepareVote =>
    obtain ⟨rfl, rfl, rfl, rfl⟩ := votePayload_injective hpayload
    rfl
  | _ => cases hintent

theorem eq_commitVote_of_text {m : ValidatorMessage} {chainId blockHash : String}
    {height round : Int} (h : m.text =
      canonicalText (domainPayload commitVoteDomain (votePayload chainId height round blockHash))) :
    m = .commitVote chainId height round blockHash := by
  have htext : m.text = (commitVote chainId height round blockHash).text := h
  obtain ⟨hintent, hpayload⟩ := text_injective htext
  cases m with
  | commitVote =>
    obtain ⟨rfl, rfl, rfl, rfl⟩ := votePayload_injective hpayload
    rfl
  | _ => cases hintent

theorem eq_roundTimeout_of_text {m : ValidatorMessage} {payload : V6TimeoutPayload}
    (h : m.text = canonicalText (domainPayload timeoutDomain payload.toJson)) :
    m = .roundTimeout payload := by
  have htext : m.text = (roundTimeout payload).text := h
  obtain ⟨hintent, hpayload⟩ := text_injective htext
  cases m with
  | roundTimeout => exact congrArg roundTimeout (V6TimeoutPayload.toJson_injective hpayload)
  | _ => cases hintent

theorem eq_blockAttestation_of_text {m : ValidatorMessage} {block : Block}
    (h : m.text = canonicalText (protocolMessage block.header.version finalityAttestationDomain
      (attestationPayload block))) :
    ∃ attested, m = .blockAttestation attested ∧ attested.hash = block.hash ∧
      attested.header.height = block.header.height := by
  have htext : m.text = (blockAttestation block).text := h
  obtain ⟨hintent, hpayload⟩ := text_injective htext
  cases m with
  | blockAttestation attested =>
    simp only [payload, attestationPayload, Json.obj.injEq, List.cons.injEq, Prod.mk.injEq,
      Json.str.injEq, Json.num.injEq, true_and, and_true] at hpayload
    exact ⟨attested, rfl, hpayload.1, hpayload.2.2⟩
  | _ => cases hintent

theorem eq_roundSkip_of_text {m : ValidatorMessage} {version : Int} {vote : RoundSkipVote}
    (h : m.text = canonicalText (protocolMessage version roundSkipDomain (roundSkipPayload vote))) :
    ∃ version' skipped, m = .roundSkip version' skipped ∧ skipped.height = vote.height ∧
      skipped.round = vote.round := by
  have htext : m.text = (roundSkip version vote).text := h
  obtain ⟨hintent, hpayload⟩ := text_injective htext
  cases m with
  | roundSkip version' skipped =>
    simp only [payload, roundSkipPayload, Json.obj.injEq, List.cons.injEq, Prod.mk.injEq,
      Json.str.injEq, Json.num.injEq, true_and, and_true] at hpayload
    exact ⟨version', skipped, rfl, hpayload.2.1, hpayload.2.2.2.2.1⟩
  | _ => cases hintent

end ValidatorMessage

end ZyronChain
