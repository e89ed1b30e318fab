import ZyronChain.Node.Handlers

/-!
# The steps of a validator node

A node reads its clock, handles calls, crashes at any point of a call, restarts, accepts finalized
blocks and compacts its journal.  A step brings the signatures that the call carries and releases
at most one signature of the node.

A crash of the process is a step that stops a call early, followed by a restart; a crash in the
middle of an append to the journal is a step of its own.

Source: `l1/src/node-base.ts` (the handlers and `acceptFinalizedBlock`).

## Main definitions

* `Node.Step` : the steps of a node.
* `Node.V6Effect` : what a call may write at a height.

## Main results

* `Node.Step.faithful` : steps keep the journal and its file consistent.
* `Node.Step.outcome`, `Node.Step.cases` : what a step does.
* `Node.Planned.effect` : what a call writes at a height.
* `Node.Planned.voteRow` : a vote is in the journal when it is signed.
-/

namespace ZyronChain

open SigningJournal List V6HeightJournal

/-- Two journals agree at a height. -/
structure SigningJournal.SameAt (height : Int) (j k : SigningJournal) : Prop where
  reservations : ∀ r, j.reservations.get (height, r) = k.reservations.get (height, r)
  v6HeightState : j.v6HeightState height = k.v6HeightState height

theorem SigningJournal.Same.at {j k : SigningJournal} (h : j.Same k) (height : Int) :
    SameAt height j k :=
  ⟨fun r => h.reservations (height, r), h.v6HeightState height⟩

theorem SigningJournal.sameAt_restrict (j : SigningJournal) {finalizedHeight height : Int}
    (h : finalizedHeight < height) : SameAt height (j.restrict finalizedHeight) j := by
  refine ⟨fun r => ?_, ?_⟩
  · rw [restrict, JsMap.get_keep, if_pos (by simpa using h)]
  · rw [v6HeightState, restrict, JsMap.get_keep, if_pos (by simpa using h), v6HeightState]

/-- A compaction of a faithful journal leaves the heights above it as they were. -/
theorem LiveJournal.Faithful.sameAt_compactThrough {l : LiveJournal} (h : l.Faithful)
    {finalizedHeight height : Int} (hlt : finalizedHeight < height) :
    SigningJournal.SameAt height (l.after (.compactThrough finalizedHeight)).journal l.journal := by
  obtain ⟨⟨es, j, -, hist, hsame⟩, -⟩ := h
  rcases compactThrough_cases hist.sound hsame finalizedHeight with
    ⟨message, heq, -⟩ | ⟨heq, -⟩ | heq
  · rw [after_compactThrough_unchanged (.inl ⟨message, heq⟩)]
    exact ⟨fun _ => rfl, rfl⟩
  · rw [after_compactThrough_unchanged (.inr heq)]
    exact ⟨fun _ => rfl, rfl⟩
  · rw [after_compactThrough_replaced heq]
    exact l.journal.sameAt_restrict hlt

theorem V6JournalStep.notVote {s : V6JournalStep}
    (h : (s = .blockProposal ∨ s = .proposal) ∨ s = .timeout) :
    s ≠ .lock ∧ s ≠ .commit ∧ s ≠ .prepare := by
  rcases h with (rfl | rfl) | rfl <;> decide

/-- The row of a prepare or commit vote. -/
def ValidatorMessage.voteRow? : ValidatorMessage → Option V6JournalRow
  | prepareVote _ height round blockHash =>
    some { height, round, step := .prepare, value := blockHash }
  | commitVote _ height round blockHash => some (commitRow height round blockHash)
  | _ => none

namespace Node

/-- The compaction of the journal goes through. -/
def Compacts (n : Node) : Prop :=
  n.journal.journal.compactThrough n.chain.height = .unchanged ∨
    ∃ es, n.journal.journal.compactThrough n.chain.height = .replaced es

private theorem write_files (n : Node) (ws vs : List FileWrite) :
    ((n.write ws).write vs).files = (n.write (ws ++ vs)).files :=
  (foldl_append ..).symm

variable {es : List Entry} {call : NodeCall} {p : Plan}

private theorem faithful_journaled {n : Node} (hf : n.journal.Faithful)
    {request : Option JournalRequest} (h : n.reserve request = .ok es) :
    (n.journaled es).journal.Faithful := by
  cases request with
  | none =>
    rw [reserve] at h
    cases h
    have hjournal : (n.journaled []).journal = n.journal :=
      congrArg (LiveJournal.mk n.journal.journal) (append_nil n.journal.file)
    rw [hjournal]
    exact hf
  | some request =>
    have := hf.after (.reserve request)
    rw [LiveJournal.after_reserve_ok h] at this
    exact this

variable [Crypto]

/-- The steps of a node, with the signatures it is brought and the messages it releases signatures
of. -/
inductive Step (n : Node) : List String → Node → List ValidatorMessage → Prop
  /-- All that a refused call leaves behind. -/
  | clock {nowMs : Int} : Step n [] (n.readClock nowMs) []
  /-- A call that stops before its reservation, or whose reservation is refused. -/
  | stopped {call : NodeCall} {nowMs : Int} {p : Plan} {ws : List FileWrite}
      (plan : n.plan call nowMs = .ok p) (writes : ws <+: p.before) :
      Step n call.signatures ((n.readClock nowMs).write ws) []
  /-- A crash in the append to the journal, and the restart after it. -/
  | crashed {call : NodeCall} {nowMs : Int} {p : Plan} {request : JournalRequest} {es : List Entry}
      {bytes : List Char} {o : Opened} (plan : n.plan call nowMs = .ok p)
      (request_eq : p.request = some request)
      (reserve : n.journal.journal.reserve request = .ok es)
      (crashed : CrashedFile n.journal.file (journalText es) bytes)
      (opened : openFile bytes = .ok o) :
      Step n call.signatures (((n.readClock nowMs).write p.before).restarted bytes o) []
  /-- A call that stops after its reservation, before the signature is returned. -/
  | unsigned {call : NodeCall} {nowMs : Int} {p : Plan} {es : List Entry} {ws : List FileWrite}
      (plan : n.plan call nowMs = .ok p) (reserve : n.reserve p.request = .ok es)
      (writes : ws <+: p.after) :
      Step n call.signatures ((((n.readClock nowMs).write p.before).journaled es).write ws) []
  /-- A call that returns a signature. -/
  | signed {call : NodeCall} {nowMs : Int} {p : Plan} {es : List Entry}
      (plan : n.plan call nowMs = .ok p) (reserve : n.reserve p.request = .ok es) :
      Step n call.signatures ((((n.readClock nowMs).write p.before).journaled es).write p.after)
        [p.message]
  | restarted {o : Opened} (opened : openFile n.journal.file = .ok o) :
      Step n [] (n.restarted n.journal.file o) []
  /-- The chain goes on to a higher tip. -/
  | finalized {chain : ChainView} (higher : n.chain.height < chain.height) :
      Step n [] { n with chain := chain } []
  /-- The compaction after a finalized block.  Once it went through, files of heights up to the
  finalized one are deleted, or some of them. -/
  | compacted {files : ConsensusFiles}
      (pruned : files = n.files ∨ n.Compacts ∧ n.files.SameAbove n.chain.height files) :
      Step n [] { n with
        journal := n.journal.after (.compactThrough n.chain.height)
        files := files } []

/-! ### The journal -/

variable {n n' : Node} {received : List String} {released : List ValidatorMessage}

/-- Steps keep the journal and its file consistent. -/
theorem Step.faithful (h : n.Step received n' released) (hf : n.journal.Faithful) :
    n'.journal.Faithful := by
  cases h with
  | clock | stopped => exact hf
  | crashed _ _ hreserve hcrashed hopened =>
    obtain ⟨o, ho, hfaithful, -⟩ := hf.openFile_crashed hreserve hcrashed
    rw [ho, Except.ok.injEq] at hopened
    rw [← hopened]
    exact hfaithful
  | unsigned _ hreserve => exact faithful_journaled hf hreserve
  | signed _ hreserve => exact faithful_journaled hf hreserve
  | restarted hopened => exact (hf.openFile hopened).1
  | finalized => exact hf
  | compacted => exact hf.after (.compactThrough n.chain.height)

/-- The records of a call are in the journal, and its first files are written. -/
structure Wrote (n : Node) (received : List String) (n' : Node) (call : NodeCall) (p : Plan)
    (es : List Entry) : Prop where
  planned : n.Planned call p
  received_eq : received = call.signatures
  reserve : n.reserve p.request = .ok es
  chain : n'.chain = n.chain
  journal : n'.journal.journal.Same (n.journal.journal.append es)
  files : ∃ ws, ws <+: p.after ∧ n'.files = (n.write (p.before ++ ws)).files

/-- What a step does. -/
inductive Outcome (n : Node) (received : List String) (n' : Node) : List ValidatorMessage → Prop
  /-- The journal stays; a call may have written some first files. -/
  | kept (chain : n'.chain = n.chain) (journal : n'.journal.journal.Same n.journal.journal)
      (files : n'.files = n.files ∨ ∃ call p ws, n.Planned call p ∧ ws <+: p.before ∧
        n'.files = (n.write ws).files) : Outcome n received n' []
  | wrote {call : NodeCall} {p : Plan} {es : List Entry} {released : List ValidatorMessage}
      (wrote : n.Wrote received n' call p es) (released_eq : released = [] ∨ released = [p.message]) :
      Outcome n received n' released
  | finalized (higher : n.chain.height < n'.chain.height) (journal : n'.journal = n.journal)
      (files : n'.files = n.files) : Outcome n received n' []
  | compacted (chain : n'.chain = n.chain)
      (journal : n'.journal = n.journal.after (.compactThrough n.chain.height))
      (files : n'.files = n.files ∨ n.Compacts ∧ n.files.SameAbove n.chain.height n'.files) :
      Outcome n received n' []

/-- What a step does. -/
theorem Step.outcome (h : n.Step received n' released) (hf : n.journal.Faithful) :
    n.Outcome received n' released := by
  cases h with
  | clock => exact .kept rfl (.refl _) (.inl rfl)
  | stopped hplan hws =>
    exact .kept rfl (.refl _) (.inr ⟨_, _, _, planned_of_plan hplan, hws, rfl⟩)
  | @crashed call nowMs p _ _ _ _ hplan hrequest hreserve hcrashed hopened =>
    have hplanned := planned_of_plan hplan
    obtain ⟨o, ho, -, hcases⟩ := hf.openFile_crashed hreserve hcrashed
    rw [ho] at hopened
    cases hopened
    rcases hcases with ⟨hsame, -⟩ | ⟨hsame, -⟩
    · exact .kept rfl hsame (.inr ⟨_, _, _, hplanned, prefix_rfl, rfl⟩)
    · refine .wrote ⟨hplanned, rfl, ?_, rfl, hsame, [], nil_prefix, ?_⟩
        (.inl rfl)
      · rw [hrequest]
        exact hreserve
      · rw [append_nil]
        rfl
  | unsigned hplan hreserve hws =>
    exact .wrote ⟨planned_of_plan hplan, rfl, hreserve, rfl, .refl _, _, hws,
      write_files n _ _⟩ (.inl rfl)
  | signed hplan hreserve =>
    exact .wrote ⟨planned_of_plan hplan, rfl, hreserve, rfl, .refl _, _, prefix_rfl,
      write_files n _ _⟩ (.inr rfl)
  | restarted hopened => exact .kept rfl (hf.openFile hopened).2 (.inl rfl)
  | finalized hhigher => exact .finalized hhigher rfl rfl
  | compacted hpruned => exact .compacted rfl rfl hpruned

/-- The records of a call change nothing that the journal held. -/
theorem Wrote.keeps (hf : n.journal.Faithful) (h : n.Wrote received n' call p es) (height : Int) :
    SigningJournal.Keeps height n.journal.journal n'.journal.journal := by
  refine SigningJournal.Keeps.trans ?_ h.journal.symm.keeps
  have hreserve := h.reserve
  cases hrequest : p.request with
  | none =>
    rw [hrequest, Node.reserve, Except.ok.injEq] at hreserve
    rw [← hreserve]
    exact .refl height _
  | some request =>
    rw [hrequest] at hreserve
    have hkeeps : SigningJournal.Keeps height n.journal.journal
        (n.journal.after (.reserve request)).journal := hf.keeps_after nofun
    rw [LiveJournal.after_reserve_ok hreserve] at hkeeps
    exact hkeeps

/-- What a step does to the journal: it writes the records of a call, or it leaves the heights
above the tip as they were and releases nothing. -/
theorem Step.cases (h : n.Step received n' released) (hf : n.journal.Faithful) :
    (released = [] ∧ n.chain.height ≤ n'.chain.height ∧ ∀ height, n'.chain.height < height →
      SigningJournal.SameAt height n'.journal.journal n.journal.journal) ∨
    ∃ call p es, n.Wrote received n' call p es ∧ (released = [] ∨ released = [p.message]) := by
  cases h.outcome hf with
  | kept hchain hjournal => exact .inl ⟨rfl, by rw [hchain], fun height _ => hjournal.at height⟩
  | wrote hw hout => exact .inr ⟨_, _, _, hw, hout⟩
  | finalized hhigher hjournal =>
    exact .inl ⟨rfl, hhigher.le, fun height _ => hjournal ▸ (SigningJournal.Same.refl _).at height⟩
  | compacted hchain hjournal =>
    refine .inl ⟨rfl, by rw [hchain], fun height hlt => ?_⟩
    rw [hjournal]
    exact hf.sameAt_compactThrough (hchain ▸ hlt)

/-! ### What a call writes -/

/-- What a call with a plan may write in the state of a height. -/
inductive V6Effect (n : Node) (call : NodeCall) (p : Plan) (height : Int)
    (state : V6HeightJournal) : V6HeightJournal → Prop
  | nothing : V6Effect n call p height state state
  | proposal {row : V6JournalRow} (height_eq : n.context.height = height)
      (step : row.step = .blockProposal ∨ row.step = .proposal) (round_nonneg : 0 ≤ row.round)
      (roundOpen : state.RoundOpen row.round) :
      V6Effect n call p height state (state.applyRow row)
  | timeout {row : V6JournalRow} (height_eq : n.context.height = height)
      (step : row.step = .timeout) (round_nonneg : 0 ≤ row.round)
      (before_eq : p.before = [.timeout height row.round
        (timeoutPayload n.context row.round n.v6HighQC) n.v6HighQC])
      (after_eq : p.after = []) : V6Effect n call p height state (state.applyRow row)
  | prepare {request : V6PrepareRequest} {budget : Except String Bool} {justify : Option PrepareQC}
      (call_eq : call = .v6Prepare request budget) (height_eq : n.context.height = height)
      (valid : PrepareRequestValid request n.context.validators n.context.chainId height justify)
      (free : state.rows.get (request.proposal.payload.round, .prepare) = none)
      (roundOpen : state.RoundOpen request.proposal.payload.round)
      (safe : safeVote state.lock request.block.hash request.proposal.payload.justifyRound = true) :
      V6Effect n call p height state (state.applyRow
        { height, round := request.proposal.payload.round, step := .prepare,
          value := request.block.hash })
  | commit {request : V6CommitRequest} (call_eq : call = .v6Commit request)
      (height_eq : n.context.height = height)
      (valid : validatePrepareQC request.qc n.context.validators n.context.chainId height = .ok ())
      (free : state.rows.get (request.qc.round, .commit) = none)
      (roundOpen : state.RoundOpen request.qc.round)
      (mayLock : state.MayLock request.qc.round request.qc.blockHash)
      (before_eq : p.before = n.v6StoreBlock request.block ++ n.v6RecordQC request.qc)
      (after_eq : p.after = []) :
      V6Effect n call p height state
        (state.applyPair height request.qc.round request.qc.blockHash)

private theorem effect_proposal {round : Int} {step : SigningJournal.V6FreeStep} {value : String}
    (hstep : step ≠ .timeout)
    (h : n.journal.journal.reserveV6 n.context.height round step value = .ok es) (height : Int) :
    V6Effect n call p height (n.journal.journal.v6HeightState height)
      ((n.journal.journal.append es).v6HeightState height) := by
  rcases reserveV6_cases h with ⟨rfl, -⟩ | ⟨rfl, hwrites, hopen⟩
  · exact .nothing
  · rw [v6HeightState_append_row]
    split
    · next heq =>
      subst heq
      have hwf := hwrites.wellFormed _ (mem_singleton_self _)
      refine .proposal rfl ?_ hwf.2.2.2.1 (hopen.resolve_left hstep)
      cases step with
      | blockProposal => exact .inl rfl
      | proposal => exact .inr rfl
      | timeout => exact absurd rfl hstep
    · exact .nothing

/-- What a call writes at a height. -/
theorem Planned.effect (h : n.Planned call p) (hr : n.reserve p.request = .ok es) (height : Int) :
    V6Effect n call p height (n.journal.journal.v6HeightState height)
      ((n.journal.journal.append es).v6HeightState height) := by
  cases h with
  | @v6Prepare request budget justify hvalid =>
    obtain ⟨-, ⟨rfl, -⟩ | ⟨rfl, hwrites, hopen, hsafe⟩⟩ := reserveV6Prepare_cases hr
    · exact .nothing
    · rw [v6HeightState_append_row]
      split
      · next heq =>
        subst heq
        cases hwrites with
        | row _ _ _ _ hfree _ _ => exact .prepare rfl rfl hvalid hfree hopen hsafe
      · exact .nothing
  | @v6Commit request hvalid =>
    rcases reserveV6Commit_cases hr with ⟨rfl, -⟩ | ⟨rfl, hwrites, hopen, hmay⟩
    · exact .nothing
    · rw [v6HeightState_append_pair]
      split
      · next heq =>
        subst heq
        cases hwrites with
        | pair _ _ hfree _ _ => exact .commit rfl rfl hvalid hfree hopen hmay rfl rfl
      · exact .nothing
  | storedTimeout =>
    rw [reserve] at hr
    cases hr
    exact .nothing
  | freshTimeout =>
    rcases reserveV6_cases hr with ⟨rfl, -⟩ | ⟨rfl, hwrites, -⟩
    · exact .nothing
    · rw [v6HeightState_append_row]
      split
      · next heq =>
        subst heq
        have hwf := hwrites.wellFormed _ (mem_singleton_self _)
        exact .timeout rfl rfl hwf.2.2.2.1 rfl rfl
      · exact .nothing
  | v6SignFreshBlock | v6SignProposal => exact effect_proposal (by decide) hr height
  | attestProposal | signPreparedProposal | requestSkipVote =>
    rcases reserveChoice_cases hr with ⟨rfl, -⟩ | ⟨rfl, -⟩
    · exact .nothing
    · exact .nothing

/-- A vote is in the journal when it is signed. -/
theorem Planned.voteRow (h : n.Planned call p) (hr : n.reserve p.request = .ok es)
    {row : V6JournalRow} (hm : p.message.voteRow? = some row) :
    n.context.height = row.height ∧
      ((n.journal.journal.append es).v6HeightState row.height).rows.get (row.round, row.step) =
        some row.value := by
  cases h with
  | v6Prepare =>
    rw [ValidatorMessage.voteRow?] at hm
    cases hm
    refine ⟨rfl, ?_⟩
    obtain ⟨-, ⟨rfl, hrow⟩ | ⟨rfl, -, -, -⟩⟩ := reserveV6Prepare_cases hr
    · exact hrow
    · rw [v6HeightState_append_row, if_pos rfl, get_rows_applyRow (by simp), if_pos rfl]
  | v6Commit =>
    rw [ValidatorMessage.voteRow?] at hm
    cases hm
    refine ⟨rfl, ?_⟩
    rcases reserveV6Commit_cases hr with ⟨rfl, hrow⟩ | ⟨rfl, -, -, -⟩
    · exact hrow
    · rw [commitRow_height, v6HeightState_append_pair, if_pos rfl, get_rows_applyPair]
      exact if_pos rfl
  | _ => cases hm

end Node

end ZyronChain
