import ZyronChain.Chain.Proposal

/-!
# The budget of proposal validations

A validator records, for every slot of a proposer, the block hashes whose bodies it has validated and
those that failed.  A hash that failed is refused, and a slot that has spent its budget refuses other
hashes.  A slot is spent by what passed the gates of a proposal, and the gates see the body of a block
only through its Merkle root.

Source: `l1/src/proposal-validation-budget.ts`, `l1/src/node-base.ts`
(`validateProposalWithinBudget`).

## Main definitions

* `ProposalValidationBudget` : the slots, their failed and their validated hashes.
* `Intake.validateProposalWithinBudget`, `Intake.deliver` : a proposal under the budget, and the vote
  for it.
* `Intake.run` : proposals that arrive and blocks that become final.

## Main results

* `Intake.genuine_allowed` : whatever else arrives, the block of an honest proposer is allowed and
  accepted, as long as no copy of it repeats a transaction.
-/

namespace ZyronChain

open Checks List JsMap

/-! ### The budget -/

/-- `PROPOSAL_VALIDATION_BUDGET_MESSAGE`. -/
def budgetExhausted : String := "Proposal validation budget exhausted for this proposer slot"

/-- `slotKey`. -/
structure SlotKey where
  height : Int
  round : Int
  proposerPublicKey : Option String
deriving DecidableEq

/-- `SlotFailures`.  The height of a slot is that of its key. -/
structure SlotFailures where
  /-- Hashes that failed after the gates. -/
  hashes : List String
  /-- Hashes that passed. -/
  validated : List String

/-- `Set.add`. -/
def addHash (hashes : List String) (hash : String) : List String :=
  if hash ∈ hashes then hashes else hashes ++ [hash]

/-- `ProposalValidationBudget`, with what its constructor checks. -/
structure ProposalValidationBudget where
  perSlot : Nat
  maxSlots : Nat
  slots : JsMap SlotKey SlotFailures
  perSlot_pos : 1 ≤ perSlot
  maxSlots_pos : 1 ≤ maxSlots

namespace ProposalValidationBudget

/-- `new ProposalValidationBudget()`. -/
def initial : ProposalValidationBudget := ⟨1, 1024, .empty, by decide, by decide⟩

def pruneThrough (b : ProposalValidationBudget) (finalizedHeight : Int) :
    ProposalValidationBudget :=
  { b with slots := b.slots.keep fun key => !decide (key.height ≤ finalizedHeight) }

def assertAllowed (b : ProposalValidationBudget) (key : SlotKey) (blockHash : String)
    (journaled : Bool) : Except String Bool :=
  match b.slots.get key with
  | none => .ok false
  | some slot =>
    if blockHash ∈ slot.validated then .ok true
    else if journaled then .ok false
    else if blockHash ∈ slot.hashes ∨ slot.hashes.length + slot.validated.length ≥ b.perSlot then
      .error budgetExhausted
    else .ok false

/-- The slot of `slot`, and the budget without the oldest slots where there is no room for it. -/
def slot (b : ProposalValidationBudget) (key : SlotKey) : SlotFailures × JsMap SlotKey SlotFailures :=
  match b.slots.get key with
  | some slot => (slot, b.slots)
  | none => (⟨[], []⟩, b.slots.keep fun other =>
    decide (other ∈ b.slots.keys.drop (b.slots.keys.length + 1 - b.maxSlots)))

def recordFailure (b : ProposalValidationBudget) (key : SlotKey) (blockHash : String) :
    ProposalValidationBudget :=
  let (slot, slots) := b.slot key
  { b with slots := slots.set key { slot with hashes := addHash slot.hashes blockHash } }

def recordSuccess (b : ProposalValidationBudget) (key : SlotKey) (blockHash : String) :
    ProposalValidationBudget :=
  let (slot, slots) := b.slot key
  { b with slots := slots.set key { slot with validated := addHash slot.validated blockHash } }

/-- Nothing failed in a slot, and only one hash was validated. -/
def Clean (b : ProposalValidationBudget) (key : SlotKey) (hash : String) : Prop :=
  ∀ slot, b.slots.get key = some slot → slot.hashes = [] ∧ ∀ h ∈ slot.validated, h = hash

theorem clean_initial (key : SlotKey) (hash : String) : initial.Clean key hash := by
  intro slot h
  cases h

variable {b : ProposalValidationBudget} {key key' : SlotKey} {hash hash' : String}

theorem Clean.pruneThrough (h : b.Clean key hash) (finalizedHeight : Int) :
    (b.pruneThrough finalizedHeight).Clean key hash := by
  intro slot hslot
  rw [ProposalValidationBudget.pruneThrough, get_keep] at hslot
  split at hslot
  · exact h slot hslot
  · cases hslot

theorem Clean.assertAllowed (h : b.Clean key hash) (journaled : Bool) :
    ∃ alreadyValidated, b.assertAllowed key hash journaled = .ok alreadyValidated := by
  rw [ProposalValidationBudget.assertAllowed]
  split
  · exact ⟨false, rfl⟩
  · next slot hslot =>
    obtain ⟨hfailed, hvalidated⟩ := h slot hslot
    by_cases hmem : hash ∈ slot.validated
    · exact ⟨true, if_pos hmem⟩
    · have hempty : slot.validated = [] := by
        rw [eq_nil_iff_forall_not_mem]
        exact fun h hh => hmem (hvalidated h hh ▸ hh)
      have hroom : ¬ (hash ∈ slot.hashes ∨
          slot.hashes.length + slot.validated.length ≥ b.perSlot) := by
        have := b.perSlot_pos
        rw [hfailed, hempty, not_or]
        exact ⟨not_mem_nil, by simp; omega⟩
      rw [if_neg hmem, if_neg hroom]
      exact ⟨false, ite_self _⟩

/-- Making room for a slot drops others, and changes none. -/
theorem get_slot {slot : SlotFailures} (h : (b.slot key').2.get key = some slot) :
    b.slots.get key = some slot := by
  rw [ProposalValidationBudget.slot] at h
  split at h
  · exact h
  · rw [get_keep] at h
    split at h
    · exact h
    · cases h

theorem Clean.recordFailure_of_ne (h : b.Clean key hash) (hne : key' ≠ key) :
    (b.recordFailure key' hash').Clean key hash := by
  intro slot hslot
  rw [recordFailure, get_set, if_neg hne] at hslot
  exact h slot (get_slot hslot)

theorem Clean.recordSuccess_of_ne (h : b.Clean key hash) (hne : key' ≠ key) :
    (b.recordSuccess key' hash').Clean key hash := by
  intro slot hslot
  rw [recordSuccess, get_set, if_neg hne] at hslot
  exact h slot (get_slot hslot)

theorem Clean.recordSuccess (h : b.Clean key hash) : (b.recordSuccess key hash).Clean key hash := by
  have hslot : (b.slot key).1.hashes = [] ∧ ∀ h ∈ (b.slot key).1.validated, h = hash := by
    rw [ProposalValidationBudget.slot]
    split
    · next slot hget => exact h slot hget
    · exact ⟨rfl, fun h hh => absurd hh not_mem_nil⟩
  intro slot hget
  rw [ProposalValidationBudget.recordSuccess, get_set_self] at hget
  cases hget
  refine ⟨hslot.1, fun h hh => ?_⟩
  dsimp only [addHash] at hh
  split at hh
  · exact hslot.2 h hh
  · rcases mem_append.mp hh with hh | hh
    · exact hslot.2 h hh
    · exact mem_singleton.mp hh

end ProposalValidationBudget

/-! ### Proposals that arrive -/

/-- What became of the vote for a validated proposal: the journal took it, the journal refused it, or
the handler ended before it reached the journal. -/
inductive VoteOutcome
  | journaled
  | refused
  | aborted
deriving DecidableEq

/-- A proposal that arrives, with the vote that the journal holds for its round, the vote it asks for
and what becomes of that vote. -/
structure Delivery where
  block : Block
  round : Int
  nowMs : Int
  reservation : Option String
  expectedReservation : String
  outcome : VoteOutcome

def slotOf (block : Block) (round : Int) : SlotKey :=
  ⟨block.header.height, round, block.proposerPublicKey⟩

/-- What a validator needs of itself to answer proposals. -/
structure Intake where
  chain : Chain
  budget : ProposalValidationBudget

section

variable [Crypto]

/-- The header carries a signature of the key of the block. -/
def Block.Signed (block : Block) : Prop :=
  ∃ signature publicKey, block.signature = some signature ∧
    block.proposerPublicKey = some publicKey ∧
    verifyForProtocol block.header.version blockProposalDomain block.header.toJson signature
      publicKey = true

/-- What passed the gates is signed, one above the tip, and of a size that fits. -/
theorem Chain.passed_gates {c : Chain} {block : Block} {nowMs : Int}
    (h : c.proposalGates block nowMs = .ok ()) :
    block.Signed ∧ block.header.height = c.tip.header.height + 1 ∧
      assertBlockBytes block = .ok () := by
  rw [Chain.proposalGates] at h
  simp only [bind_eq_ok] at h
  obtain ⟨_, -, _, -, validators, -, hgates⟩ := h
  have hheight := (envelopeGates_of_validate hgates).height_eq
  rw [validateBlockEnvelopeGates] at hgates
  simp only [unit_bind_eq_ok] at hgates
  obtain ⟨-, -, hbytes, -, hproposer, -⟩ := hgates
  refine ⟨?_, hheight, hbytes⟩
  unfold validateProposer at hproposer
  split at hproposer
  · cases hproposer
  · next publicKey hkey =>
    simp only [unit_bind_eq_ok] at hproposer
    obtain ⟨v, -, hproposer⟩ := bind_eq_ok.mp hproposer.2.2.2.2
    rw [throwIf_bind_eq_ok, throwIf_bind_eq_ok, if_pos trivial] at hproposer
    obtain ⟨-, -, hverify⟩ := hproposer
    unfold validateProposerSignature at hverify
    split at hverify
    · cases hverify
    · next signature hsignature =>
      exact ⟨signature, publicKey, hsignature, hkey, not_not.mp (throwIf_eq_ok.mp hverify)⟩

/-- The body of a block is judged by its header and its transactions. -/
theorem Chain.proposalBody_congr {c : Chain} {block block' : Block}
    (hheader : block'.header = block.header) (hbody : block'.transactions = block.transactions)
    (hbytes : assertBlockBytes block' = .ok ()) (h : c.proposalBody block = .ok ()) :
    c.proposalBody block' = .ok () := by
  rw [Chain.proposalBody, unit_bind_eq_ok, unit_bind_eq_ok] at h ⊢
  refine ⟨?_, hbytes, ?_⟩
  · rw [validateBlockTransactions, hbody]
    exact h.1
  · have hproducer : feeProducerOf block' = feeProducerOf block := by
      rw [feeProducerOf, feeProducerOf, hheader]
    have hreplay : c.replayBlock block' = c.replayBlock block := by
      funext protocolVersion
      rw [Chain.replayBlock, Chain.replayBlock, hheader, hbody, hproducer]
    rw [hheader, hreplay]
    exact h.2.2

end

namespace Intake

section

variable [Crypto]

/-- The end of `validateProposalWithinBudget`: the gates, and what fails after them is recorded. -/
def validateAllowed (s : Intake) (d : Delivery) (alreadyValidated : Bool) :
    Except String Bool × ProposalValidationBudget :=
  match s.chain.proposalGates d.block d.nowMs with
  | .error e => (.error e, s.budget)
  | .ok () =>
    match (if alreadyValidated then assertBlockBytes d.block
      else s.chain.proposalBody d.block : Except String Unit) with
    | .error e => (.error e, if alreadyValidated then s.budget
        else s.budget.recordFailure (slotOf d.block d.round) d.block.hash)
    | .ok () => (.ok alreadyValidated, s.budget)

/-- `validateProposalWithinBudget`.  The result says whether the hash was validated before. -/
def validateProposalWithinBudget (s : Intake) (d : Delivery) :
    Except String Bool × ProposalValidationBudget :=
  let s : Intake := { s with budget := s.budget.pruneThrough s.chain.height }
  if ∃ r, d.reservation = some r ∧ r ≠ d.expectedReservation then
    (.error s!"Conflicting validator action prevented for consensus round ({budgetExhausted})",
      s.budget)
  else
    match s.budget.assertAllowed (slotOf d.block d.round) d.block.hash
      (decide (d.reservation = some d.expectedReservation)) with
    | .error e => (.error e, s.budget)
    | .ok alreadyValidated => s.validateAllowed d alreadyValidated

/-- A proposal is validated, and its vote reserved: the records of `reserve`. -/
def deliver (s : Intake) (d : Delivery) : ProposalValidationBudget :=
  match s.validateProposalWithinBudget d with
  | (.error _, budget) => budget
  | (.ok true, budget) => budget
  | (.ok false, budget) =>
    match d.outcome with
    | .journaled => budget.recordSuccess (slotOf d.block d.round) d.block.hash
    | .refused => budget.recordFailure (slotOf d.block d.round) d.block.hash
    | .aborted => budget

end

end Intake

/-- What happens to a validator: a proposal arrives, or a block is final. -/
inductive IntakeEvent
  | deliver (d : Delivery)
  | accept (block : Block) (nowMs : Int)

namespace Intake

section

variable [Crypto]

def step (s : Intake) : IntakeEvent → Intake
  | .deliver d => { s with budget := s.deliver d }
  | .accept block nowMs =>
    match s.chain.acceptBlock block nowMs with
    | .ok c => { s with chain := c }
    | .error _ => s

def run (s : Intake) (events : List IntakeEvent) : Intake := events.foldl step s

/-! ### What a proposal leaves -/

/-- What an allowed proposal leaves: the budget as it was, or a failure after the gates. -/
theorem validateAllowed_cases (s : Intake) (d : Delivery) (alreadyValidated : Bool) :
    ((s.validateAllowed d alreadyValidated).2 = s.budget ∧
      ∀ a, (s.validateAllowed d alreadyValidated).1 = .ok a →
        s.chain.proposalGates d.block d.nowMs = .ok ()) ∨
    (s.chain.proposalGates d.block d.nowMs = .ok () ∧ s.chain.proposalBody d.block ≠ .ok () ∧
      ∃ e, s.validateAllowed d alreadyValidated =
        (.error e, s.budget.recordFailure (slotOf d.block d.round) d.block.hash)) := by
  rw [validateAllowed]
  cases hgates : s.chain.proposalGates d.block d.nowMs with
  | error e => exact .inl ⟨rfl, fun a ha => by cases ha⟩
  | ok _ =>
    cases alreadyValidated with
    | true =>
      refine .inl ⟨?_, fun _ _ => rfl⟩
      dsimp only
      split <;> rfl
    | false =>
      cases hbody : s.chain.proposalBody d.block with
      | error e => exact .inr ⟨rfl, (fun h => by cases h), e, rfl⟩
      | ok _ => exact .inl ⟨rfl, fun _ _ => rfl⟩

variable {s : Intake} {d : Delivery} {events : List IntakeEvent}

theorem validateAllowed_of_valid (alreadyValidated : Bool)
    (hgates : s.chain.proposalGates d.block d.nowMs = .ok ())
    (hbytes : assertBlockBytes d.block = .ok ()) (hbody : s.chain.proposalBody d.block = .ok ()) :
    (s.validateAllowed d alreadyValidated).1 = .ok alreadyValidated := by
  rw [validateAllowed, hgates]
  cases alreadyValidated with
  | true => simp only [if_true, hbytes]
  | false => simp only [Bool.false_eq_true, if_false, hbody]

theorem validateProposalWithinBudget_cases (s : Intake) (d : Delivery) :
    ((s.validateProposalWithinBudget d).2 = s.budget.pruneThrough s.chain.height ∧
      ∀ a, (s.validateProposalWithinBudget d).1 = .ok a →
        s.chain.proposalGates d.block d.nowMs = .ok ()) ∨
    (s.chain.proposalGates d.block d.nowMs = .ok () ∧ s.chain.proposalBody d.block ≠ .ok () ∧
      ∃ e, s.validateProposalWithinBudget d = (.error e, (s.budget.pruneThrough
        s.chain.height).recordFailure (slotOf d.block d.round) d.block.hash)) := by
  rw [validateProposalWithinBudget]
  dsimp only
  split
  · exact .inl ⟨rfl, fun a ha => by cases ha⟩
  · split
    · exact .inl ⟨rfl, fun a ha => by cases ha⟩
    · exact validateAllowed_cases { s with budget := s.budget.pruneThrough s.chain.height } d _

/-- A proposal leaves a slot clean unless it is of this slot and fails after the gates, or its vote is
refused. -/
theorem deliver_clean {key : SlotKey} {hash : String} (hclean : s.budget.Clean key hash)
    (hbody : slotOf d.block d.round = key → s.chain.proposalGates d.block d.nowMs = .ok () →
      d.block.hash = hash ∧ s.chain.proposalBody d.block = .ok () ∧ d.outcome ≠ .refused) :
    (s.deliver d).Clean key hash := by
  have hpruned := hclean.pruneThrough s.chain.height
  rw [deliver]
  rcases s.validateProposalWithinBudget_cases d with ⟨hbudget, hgates⟩ | ⟨hgates, hfail, e, heq⟩
  · rw [← hbudget] at hpruned
    split
    · next heq => rwa [heq] at hpruned
    · next heq => rwa [heq] at hpruned
    · next budget heq =>
      rw [heq] at hpruned hgates
      have hgates := hgates false rfl
      by_cases hkey : slotOf d.block d.round = key
      · obtain ⟨hhash, -, houtcome⟩ := hbody hkey hgates
        rw [hkey, hhash]
        split
        · exact hpruned.recordSuccess
        · next h => exact absurd h houtcome
        · exact hpruned
      · split
        · exact hpruned.recordSuccess_of_ne hkey
        · exact hpruned.recordFailure_of_ne hkey
        · exact hpruned
  · rw [heq]
    refine hpruned.recordFailure_of_ne fun hkey => hfail ?_
    exact (hbody hkey hgates).2.1

/-- After a failure in a fresh slot every block with the same hash is refused there. -/
theorem refused_after_failure {d' : Delivery} (hreservation : d.reservation = none)
    (hslot : s.budget.slots.get (slotOf d.block d.round) = none)
    (hheight : s.chain.height < d.block.header.height)
    (hgates : s.chain.proposalGates d.block d.nowMs = .ok ())
    (hfail : s.chain.proposalBody d.block ≠ .ok ())
    (hkey : slotOf d'.block d'.round = slotOf d.block d.round)
    (hhash : d'.block.hash = d.block.hash) (hreservation' : d'.reservation = none) :
    ((s.step (.deliver d)).validateProposalWithinBudget d').1 = .error budgetExhausted := by
  have hpruned : (s.budget.pruneThrough s.chain.height).slots.get (slotOf d.block d.round) =
      none := by
    rw [ProposalValidationBudget.pruneThrough, get_keep, hslot, ite_self]
  have hfree : ∀ (e : Delivery), e.reservation = none →
      ¬ ∃ r, e.reservation = some r ∧ r ≠ e.expectedReservation := by
    rintro e he ⟨r, hr, -⟩
    rw [he] at hr
    cases hr
  obtain ⟨e, hbody⟩ : ∃ e, s.chain.proposalBody d.block = .error e := by
    cases hbody : s.chain.proposalBody d.block with
    | error e => exact ⟨e, rfl⟩
    | ok _ => exact absurd hbody hfail
  have hallowed : (s.budget.pruneThrough s.chain.height).assertAllowed (slotOf d.block d.round)
      d.block.hash (decide (d.reservation = some d.expectedReservation)) = .ok false := by
    rw [ProposalValidationBudget.assertAllowed, hpruned]
  have hdeliver : s.deliver d = (s.budget.pruneThrough s.chain.height).recordFailure
      (slotOf d.block d.round) d.block.hash := by
    rw [deliver, validateProposalWithinBudget]
    dsimp only
    rw [if_neg (hfree d hreservation), hallowed]
    dsimp only [validateAllowed]
    rw [hgates, hbody]
    simp only [Bool.false_eq_true, if_false]
  have hget : ((s.deliver d).pruneThrough s.chain.height).slots.get (slotOf d'.block d'.round) =
      some ⟨[d.block.hash], []⟩ := by
    have hkept : (!decide ((slotOf d.block d.round).height ≤ s.chain.height)) = true := by
      rw [slotOf, decide_eq_false (not_le.mpr hheight)]
      rfl
    rw [hkey, ProposalValidationBudget.pruneThrough, get_keep, hkept, if_pos rfl, hdeliver,
      ProposalValidationBudget.recordFailure, ProposalValidationBudget.slot, hpruned]
    exact get_set_self _ _ _
  have hrefused : ((s.deliver d).pruneThrough s.chain.height).assertAllowed
      (slotOf d'.block d'.round) d'.block.hash
      (decide (d'.reservation = some d'.expectedReservation)) = .error budgetExhausted := by
    have hjournaled : decide (d'.reservation = some d'.expectedReservation) = false := by
      rw [hreservation']
      rfl
    rw [ProposalValidationBudget.assertAllowed, hget, hjournaled, hhash]
    simp
  rw [validateProposalWithinBudget]
  dsimp only [step]
  rw [if_neg (hfree d' hreservation'), hrefused]

/-! ### Runs -/

theorem tip_height_of_acceptBlock {c c' : Chain} {block : Block} {nowMs : Int}
    (h : c.acceptBlock block nowMs = .ok c') :
    c'.tip.header.height = c.tip.header.height + 1 := by
  obtain ⟨⟨_, _, _, hreplays⟩, -, -, htip, -⟩ := Chain.replays_of_acceptBlock h
  have henvelope := hreplays.envelope
  rw [validateBlockEnvelope, unit_bind_eq_ok] at henvelope
  rw [htip]
  exact (envelopeGates_of_validate henvelope.1).height_eq

theorem chain_run :
    s.chain.tip.header.height ≤ (s.run events).chain.tip.header.height ∧
      (s.chain.tip.header.height = (s.run events).chain.tip.header.height →
        s.chain = (s.run events).chain) := by
  induction events generalizing s with
  | nil => exact ⟨le_refl _, fun _ => rfl⟩
  | cons event events ih =>
    have hrest := @ih (s.step event)
    change s.chain.tip.header.height ≤ ((s.step event).run events).chain.tip.header.height ∧
      (s.chain.tip.header.height = ((s.step event).run events).chain.tip.header.height →
        s.chain = ((s.step event).run events).chain)
    cases event with
    | deliver d => exact hrest
    | accept block nowMs =>
      cases haccept : s.chain.acceptBlock block nowMs with
      | error e =>
        have hstep : s.step (.accept block nowMs) = s := by rw [step, haccept]
        rw [hstep] at hrest ⊢
        exact hrest
      | ok c =>
        have hstep : s.step (.accept block nowMs) = { s with chain := c } := by
          rw [step, haccept]
        have hheight : c.tip.header.height = s.chain.tip.header.height + 1 :=
          tip_height_of_acceptBlock haccept
        rw [hstep] at hrest ⊢
        refine ⟨?_, fun heq => ?_⟩
        · have := hrest.1
          change c.tip.header.height ≤ _ at this
          omega
        · have := hrest.1
          change c.tip.header.height ≤ _ at this
          omega

def delivered (events : List IntakeEvent) : List Delivery :=
  events.filterMap fun event =>
    match event with
    | .deliver d => some d
    | .accept .. => none

omit [Crypto] in
theorem mem_delivered_cons {event : IntakeEvent} :
    d ∈ delivered (event :: events) ↔ event = .deliver d ∨ d ∈ delivered events := by
  cases event with
  | deliver d' =>
    rw [delivered, filterMap_cons, mem_cons, IntakeEvent.deliver.injEq, eq_comm]
    rfl
  | accept block nowMs => simp [delivered]

/-- The byte strings hashed for some blocks. -/
def hashedBytesOf (blocks : List Block) : Set (List UInt8) :=
  {bytes | ∃ block ∈ blocks, bytes ∈ block.hashedBytes}

/-- Nothing that arrives spends the slot of a block that is valid in the end, as long as what carries
the signature of its proposer has its header, repeats no transaction and is not refused a vote. -/
theorem run_clean {block : Block} {round nowMs : Int}
    (hvalid : (s.run events).chain.validateProposal block nowMs false = .ok ())
    (hsigned : ∀ d ∈ delivered events, slotOf d.block d.round = slotOf block round → d.block.Signed
      → d.block.header = block.header)
    (hcopies : ∀ d ∈ delivered events, slotOf d.block d.round = slotOf block round → d.block.hash =
      block.hash → d.block.transactions.Nodup ∧ d.outcome ≠ .refused)
    (hfree : ¬ ByteCollision (hashedBytesOf (block :: (delivered events).map Delivery.block)))
    (hclean : s.budget.Clean (slotOf block round) block.hash) :
    (s.run events).budget.Clean (slotOf block round) block.hash := by
  induction events generalizing s with
  | nil => exact hclean
  | cons event events ih =>
    have hrest : ∀ d ∈ delivered events, d ∈ delivered (event :: events) := fun d hd =>
      mem_delivered_cons.mpr (.inr hd)
    refine ih (s := s.step event) hvalid (fun d hd => hsigned d (hrest d hd))
      (fun d hd => hcopies d (hrest d hd)) (fun h => hfree (h.mono ?_)) ?_
    · rintro bytes ⟨b, hb, hbytes⟩
      refine ⟨b, ?_, hbytes⟩
      rcases mem_cons.mp hb with rfl | hb
      · exact mem_cons_self
      · obtain ⟨d, hd, rfl⟩ := mem_map.mp hb
        exact mem_cons_of_mem _ (mem_map_of_mem (hrest d hd))
    cases event with
    | accept accepted acceptedMs =>
      rw [step]
      split <;> exact hclean
    | deliver d =>
      have hd : d ∈ delivered (.deliver d :: events) := mem_delivered_cons.mpr (.inl rfl)
      refine deliver_clean hclean fun hkey hgates => ?_
      obtain ⟨hsignature, hheight, hbytes⟩ := Chain.passed_gates hgates
      have hheader := hsigned d hd hkey hsignature
      obtain ⟨hgenuine, hnodup⟩ := Chain.accepted_proposal hvalid
      have hconsistent := Chain.consistent_of_proposalGates hgates
      have hhash : d.block.hash = block.hash := by
        rw [hconsistent.hash, hgenuine.hash, hheader]
      obtain ⟨hcopy, houtcome⟩ := hcopies d hd hkey hhash
      -- the block is one above the tip now and in the end, so the chain has not grown since
      rw [Chain.validateProposal, unit_bind_eq_ok, if_neg Bool.false_ne_true] at hvalid
      obtain ⟨-, hend, -⟩ := Chain.passed_gates hvalid.1
      have hchain := (@chain_run _ s (.deliver d :: events)).2 (by
        rw [hheader] at hheight
        omega)
      rw [← hchain] at hvalid
      have htransactions : d.block.transactions = block.transactions := by
        refine (transactions_eq_of_hash (by rw [hheader]) hconsistent.root hgenuine.root hcopy
          hnodup).resolve_right fun h => hfree (h.mono ?_)
        rintro bytes (hb | hb)
        · exact ⟨d.block, mem_cons_of_mem _ (mem_map_of_mem hd), hb⟩
        · exact ⟨block, mem_cons_self, hb⟩
      exact ⟨hhash, Chain.proposalBody_congr hheader htransactions hbytes hvalid.2, houtcome⟩

/-- The block of an honest proposer is allowed and accepted when it arrives, whatever arrived before:
as long as what carries the signature of the proposer in its slot has the header that the proposer
signed, repeats no transaction, and the journal refused no vote for it. -/
theorem genuine_allowed {c : Chain} {events : List IntakeEvent} {s : Intake}
    (hrun : (⟨c, .initial⟩ : Intake).run events = s) {block : Block} {round nowMs : Int}
    (hvalid : s.chain.validateProposal block nowMs false = .ok ())
    (hsigned : ∀ d ∈ delivered events, slotOf d.block d.round = slotOf block round →
      d.block.Signed → d.block.header = block.header)
    (hcopies : ∀ d ∈ delivered events, slotOf d.block d.round = slotOf block round →
      d.block.hash = block.hash → d.block.transactions.Nodup ∧ d.outcome ≠ .refused) :
    ((∀ journaled, ∃ alreadyValidated,
        (s.budget.pruneThrough s.chain.height).assertAllowed (slotOf block round) block.hash
          journaled = .ok alreadyValidated) ∧
      ∀ reservation expected outcome, (∀ r, reservation = some r → r = expected) →
        ∃ alreadyValidated, (s.validateProposalWithinBudget
          ⟨block, round, nowMs, reservation, expected, outcome⟩).1 = .ok alreadyValidated) ∨
      ByteCollision (hashedBytesOf (block :: (delivered events).map Delivery.block)) := by
  by_cases hfree : ByteCollision (hashedBytesOf (block :: (delivered events).map Delivery.block))
  · exact .inr hfree
  subst hrun
  have hclean := (run_clean hvalid hsigned hcopies hfree
    (ProposalValidationBudget.clean_initial _ _)).pruneThrough
      ((⟨c, .initial⟩ : Intake).run events).chain.height
  refine .inl ⟨fun journaled => hclean.assertAllowed journaled,
    fun reservation expected outcome hreservation => ?_⟩
  rw [Chain.validateProposal, unit_bind_eq_ok, if_neg Bool.false_ne_true] at hvalid
  obtain ⟨-, -, hbytes⟩ := Chain.passed_gates hvalid.1
  obtain ⟨alreadyValidated, hallowed⟩ := hclean.assertAllowed
    (decide (reservation = some expected))
  have hconflict : ¬ ∃ r, reservation = some r ∧ r ≠ expected := by
    rintro ⟨r, hr, hne⟩
    exact hne (hreservation r hr)
  refine ⟨alreadyValidated, ?_⟩
  rw [validateProposalWithinBudget]
  dsimp only
  rw [if_neg hconflict, hallowed]
  exact validateAllowed_of_valid alreadyValidated hvalid.1 hbytes hvalid.2

end

end Intake

namespace Transfers

attribute [local instance] tableCrypto

/-- A proposal of the validator that arrives in its slot. -/
def delivery (block : Block) : Delivery := ⟨block, 0, 1, none, s!"attest:{block.hash}", .journaled⟩

theorem fits_repeated : Fits repeated := ⟨by decide, by decide⟩

theorem proposalBody_repeated {stateRoot : String} (hroot : IsHex 32 stateRoot) :
    start.proposalBody (block repeated stateRoot) ≠ .ok () := by
  intro hbody
  have hproposal : start.validateProposal (block repeated stateRoot) 1 false = .ok () := by
    rw [Chain.validateProposal, fits_repeated.gates hroot, ok_bind, if_neg Bool.false_ne_true, hbody]
  exact not_nodup_repeated (Chain.accepted_proposal hproposal).2

/-- A copy of the valid proposal that repeats the last transfer, sent by anyone, makes the validator
refuse the proposal. -/
theorem genuine_refused : ∃ genuine copy : Block,
    start.validateProposal genuine 1 false = .ok () ∧ copy.header = genuine.header ∧
      copy.signature = genuine.signature ∧ copy.proposerPublicKey = genuine.proposerPublicKey ∧
      (((⟨start, .initial⟩ : Intake).run [.deliver (delivery copy)]).validateProposalWithinBudget
        (delivery genuine)).1 = .error budgetExhausted := by
  obtain ⟨stateRoot, hroot, hproposal⟩ := exists_validateProposal
  have hcopy := block_repeated stateRoot
  have hheader : (block repeated stateRoot).header = (block (List.range 3) stateRoot).header := by
    rw [hcopy]
    rfl
  have hhash : (block (List.range 3) stateRoot).hash = (block repeated stateRoot).hash := by
    rw [hcopy]
    rfl
  exact ⟨block (List.range 3) stateRoot, block repeated stateRoot, hproposal, hheader, rfl, rfl,
    Intake.refused_after_failure rfl rfl (by decide : (0 : Int) < 1) (fits_repeated.gates hroot)
      (proposalBody_repeated hroot) rfl hhash rfl⟩

/-- Without a copy that repeats a transaction the proposal of three transfers is accepted, also after
it was sent before. -/
theorem genuine_allowed_transfers : ∃ genuine : Block,
    start.validateProposal genuine 1 false = .ok () ∧
      ((∃ alreadyValidated,
        (((⟨start, .initial⟩ : Intake).run [.deliver (delivery genuine)]).validateProposalWithinBudget
          (delivery genuine)).1 = .ok alreadyValidated) ∨
        ByteCollision (Intake.hashedBytesOf [genuine, genuine])) := by
  obtain ⟨stateRoot, hroot, hproposal⟩ := exists_validateProposal
  refine ⟨block (List.range 3) stateRoot, hproposal, ?_⟩
  have hdelivered : ∀ d ∈ Intake.delivered
      [.deliver (delivery (block (List.range 3) stateRoot))],
      d = delivery (block (List.range 3) stateRoot) := fun d hd => mem_singleton.mp hd
  have hchain : ((⟨start, .initial⟩ : Intake).run
      [.deliver (delivery (block (List.range 3) stateRoot))]).chain = start := rfl
  rw [← hchain] at hproposal
  refine (@Intake.genuine_allowed _ _ _ _ rfl _ 0 _ hproposal ?_ ?_).imp_left fun h =>
    h.2 none _ .journaled fun r hr => by cases hr
  · intro d hd _ _
    rw [hdelivered d hd]
    rfl
  · intro d hd _ _
    rw [hdelivered d hd]
    exact ⟨(Chain.accepted_proposal hproposal).2,
      (by decide : VoteOutcome.journaled ≠ VoteOutcome.refused)⟩

end Transfers

end ZyronChain
