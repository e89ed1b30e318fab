import Mathlib.Data.Finset.Sort
import ZyronChain.Journal.State

/-!
# Reservations and compaction

Every signature of a validator is reserved in the journal first.  A reservation checks the
state, appends its records to the file with one write, waits until they are durable and only
then changes the state.  It is modelled in these two parts: `reserve…` returns the records to
append (none when the same reservation exists already), and `SigningJournal.append` changes the
state once the file has them.

Source: `l1/src/storage.ts`, class `SigningJournal` (`assertV6Writable`, `assertV6RoundOpen`,
`appendV6`, `reserveV6`, `reserveV6Prepare`, `reserveV6Commit`, `reserveLegacyHeight`,
`reserveChoice`, `compactThrough`).
-/

namespace ZyronChain

open Checks

namespace SigningJournal

/-- `Signing journal is closed` and `persistenceFaulted`, checked by every method. -/
def assertUsable (j : SigningJournal) : Except String Unit := do
  throwIf j.closed "Signing journal is closed"
  throwIf j.persistenceFaulted "Signing journal persistence fault requires validator restart"

def assertV6Writable (j : SigningJournal) (height round : Int) (value : String) :
    Except String Unit := do
  j.assertUsable
  throwIf (¬ IsSafeInteger height ∨ height < 1 ∨ ¬ IsSafeInteger round ∨ round < 0 ∨
    round > v6MaxRound) "Invalid signing slot"
  throwIf (¬ IsHash64 value) "Invalid signing hash"
  throwIf (height ∈ j.legacyHeights)
    "Protocol v6 validator action refused: legacy journal rows exist at this height"

variable {u : Unit}

theorem assertUsable_eq_ok {j : SigningJournal} :
    j.assertUsable = .ok u ↔ j.closed = false ∧ j.persistenceFaulted = false := by
  simp [assertUsable]

theorem assertV6Writable_eq_ok {j : SigningJournal} {height round : Int} {value : String} :
    j.assertV6Writable height round value = .ok u ↔
      (j.closed = false ∧ j.persistenceFaulted = false) ∧
      (IsSafeInteger height ∧ 1 ≤ height ∧ IsSafeInteger round ∧ 0 ≤ round ∧ round ≤ v6MaxRound) ∧
      IsHash64 value ∧ height ∉ j.legacyHeights := by
  rw [assertV6Writable, bind_eq_ok]
  simp only [assertUsable_eq_ok, throwIf_bind_eq_ok, throwIf_eq_ok, not_or, not_not, not_lt,
    gt_iff_lt, exists_and_left, exists_const]

def assertV6RoundOpen (state : V6HeightJournal) (round : Int) : Except String Unit := do
  throwIf (state.maxTimeoutRound ≥ round)
    "Protocol v6 validator action refused: round already timed out"
  throwIf (state.maxVoteRound > round)
    "Protocol v6 validator action refused: a later round was already voted"

theorem assertV6RoundOpen_eq_ok {state : V6HeightJournal} {round : Int} :
    assertV6RoundOpen state round = .ok u ↔ state.RoundOpen round := by
  simp [assertV6RoundOpen, V6HeightJournal.RoundOpen]

/-- The error of a second value for a slot. -/
def conflictingAction : String := "Conflicting validator action prevented for consensus round"

/-- `appendV6`: every row must fit a line. -/
def appendV6 (rows : List V6JournalRow) : Except String (List Entry) := do
  throwIf (∃ row ∈ rows, (v6RowLine row).length > maxSigningLineBytes)
    "Signing journal entry exceeds line limit"
  .ok (rows.map .v6)

/-- The check against the value already reserved for a slot, shared by the reservations:
the same value returns at once, another one is refused, and a free slot goes on. -/
def ifFree {α : Type} [DecidableEq α] (existing : Option α) (value : α)
    (write : Except String (List Entry)) : Except String (List Entry) :=
  if existing = some value then .ok []
  else do
    throwIf existing.isSome conflictingAction
    write

theorem appendV6_eq_ok {rows : List V6JournalRow} (h : ∀ row ∈ rows, row.WellFormed) :
    appendV6 rows = .ok (rows.map .v6) := by
  have hfit : ¬ ∃ row ∈ rows, (v6RowLine row).length > maxSigningLineBytes := by
    rintro ⟨row, hrow, hlong⟩
    have hlen := Entry.text_length (e := .v6 row) (h row hrow)
    rw [v6RowLine, Entry.line, List.length_append, List.length_singleton,
      maxSigningLineBytes] at hlong
    omega
  rw [appendV6, throwIf_of_not hfit]
  rfl

theorem ifFree_eq_ok {α : Type} [DecidableEq α] {existing : Option α} {value : α}
    {write : Except String (List Entry)} {es : List Entry} :
    ifFree existing value write = .ok es ↔
      (existing = some value ∧ es = []) ∨ (existing = none ∧ write = .ok es) := by
  unfold ifFree
  split
  · next h => simp [h, eq_comm]
  · next h =>
    rw [throwIf_bind_eq_ok]
    cases existing with
    | none => simp
    | some v => simp_all

/-- The steps `reserveV6` takes. -/
inductive V6FreeStep where
  | blockProposal
  | proposal
  | timeout
deriving DecidableEq, Repr

def V6FreeStep.step : V6FreeStep → V6JournalStep
  | blockProposal => .blockProposal
  | proposal => .proposal
  | timeout => .timeout

theorem V6FreeStep.step_ne_lock (s : V6FreeStep) : s.step ≠ .lock := by cases s <;> decide

theorem V6FreeStep.step_ne_commit (s : V6FreeStep) : s.step ≠ .commit := by cases s <;> decide

theorem V6FreeStep.step_ne_prepare (s : V6FreeStep) : s.step ≠ .prepare := by cases s <;> decide

/-- `if (step !== "timeout")` in front of a check. -/
def unlessTimeout (step : V6FreeStep) (check : Except String Unit) : Except String Unit :=
  if step = .timeout then .ok () else check

def reserveV6 (j : SigningJournal) (height round : Int) (step : V6FreeStep) (value : String) :
    Except String (List Entry) := do
  j.assertV6Writable height round value
  let state := j.v6HeightState height
  ifFree (state.rows.get (round, step.step)) value do
    unlessTimeout step (assertV6RoundOpen state round)
    appendV6 [{ height, round, step := step.step, value }]

def reserveV6Prepare (j : SigningJournal) (height round : Int) (blockHash : String)
    (justifyRound : Int) : Except String (List Entry) := do
  j.assertV6Writable height round blockHash
  throwIf (¬ IsSafeInteger justifyRound ∨ justifyRound < -1 ∨ justifyRound ≥ round)
    "Invalid v6 justify round"
  let state := j.v6HeightState height
  ifFree (state.rows.get (round, .prepare)) blockHash do
    assertV6RoundOpen state round
    throwIf (¬ safeVote state.lock blockHash justifyRound)
      "Protocol v6 prepare refused: conflicts with the validator's lock"
    appendV6 [{ height, round, step := .prepare, value := blockHash }]

/-- The lock row and the commit row of one append. -/
def commitRows (height round : Int) (blockHash : String) : List V6JournalRow :=
  [lockRow height round blockHash, commitRow height round blockHash]

def reserveV6Commit (j : SigningJournal) (height round : Int) (blockHash : String) :
    Except String (List Entry) := do
  j.assertV6Writable height round blockHash
  let state := j.v6HeightState height
  ifFree (state.rows.get (round, .commit)) blockHash do
    assertV6RoundOpen state round
    throwIf (∃ p, state.rows.get (round, .prepare) = some p ∧ p ≠ blockHash)
      "Protocol v6 commit refused: differs from own prepare vote"
    throwIf (∃ l, state.lock = some l ∧
      (l.round > round ∨ (l.round = round ∧ l.blockHash ≠ blockHash)))
      "Protocol v6 commit refused: lock may not move backwards"
    appendV6 (commitRows height round blockHash)

/-- The error of a legacy action at a protocol v6 height. -/
def legacyRefused : String :=
  "Legacy validator action refused: protocol v6 journal rows exist at this height"

def reserveLegacyHeight (j : SigningJournal) (height : Int) : Except String (List Entry) := do
  j.assertUsable
  throwIf (¬ IsSafeInteger height ∨ height < 1) "Invalid signing slot"
  throwIf (j.v6Heights.has height) legacyRefused
  if height ∈ j.legacyHeights then .ok [] else .ok [.mark height]

def reserveChoice (j : SigningJournal) (height round : Int) (kind : LegacyKind)
    (value : String) : Except String (List Entry) := do
  j.assertUsable
  throwIf (¬ IsSafeInteger height ∨ height < 1 ∨ ¬ IsSafeInteger round ∨ round < 0)
    "Invalid signing slot"
  throwIf (¬ IsHash64 value) "Invalid signing hash"
  ifFree (j.reservations.get (height, round)) (kind, value) do
    throwIf (j.v6Heights.has height) legacyRefused
    .ok [.choice height round kind value]

def reserveAttestation (j : SigningJournal) (height round : Int) (blockHash : String) :
    Except String (List Entry) :=
  j.reserveChoice height round .attest blockHash

def reserveSkip (j : SigningJournal) (height round : Int) (previousHash : String) :
    Except String (List Entry) :=
  j.reserveChoice height round .skip previousHash

/-- The state after the records are in the file. -/
def append (j : SigningJournal) (es : List Entry) : SigningJournal := es.foldl applyEntry j

end SigningJournal

/-- A call of a reservation method. -/
inductive JournalRequest where
  | attestation (height round : Int) (blockHash : String)
  | skip (height round : Int) (previousHash : String)
  | legacyHeight (height : Int)
  | v6 (height round : Int) (step : SigningJournal.V6FreeStep) (value : String)
  | v6Prepare (height round : Int) (blockHash : String) (justifyRound : Int)
  | v6Commit (height round : Int) (blockHash : String)
deriving DecidableEq, Repr

namespace SigningJournal

/-- The records a call appends, if it is not refused. -/
def reserve (j : SigningJournal) : JournalRequest → Except String (List Entry)
  | .attestation height round blockHash => j.reserveAttestation height round blockHash
  | .skip height round previousHash => j.reserveSkip height round previousHash
  | .legacyHeight height => j.reserveLegacyHeight height
  | .v6 height round step value => j.reserveV6 height round step value
  | .v6Prepare height round blockHash justifyRound =>
    j.reserveV6Prepare height round blockHash justifyRound
  | .v6Commit height round blockHash => j.reserveV6Commit height round blockHash

/-! ### What a reservation writes -/

/-- The records a reservation may append in a state, with the conditions it checked. -/
inductive Writes (j : SigningJournal) : List Entry → Prop
  | nothing : Writes j []
  | choice {height round : Int} {kind : LegacyKind} {value : String}
      (wellFormed : (Entry.choice height round kind value).WellFormed)
      (free : j.reservations.get (height, round) = none)
      (noV6 : j.v6Heights.get height = none) : Writes j [.choice height round kind value]
  | mark {height : Int} (wellFormed : (Entry.mark height).WellFormed)
      (noV6 : j.v6Heights.get height = none) : Writes j [.mark height]
  | row {row : V6JournalRow} (wellFormed : row.WellFormed) (notLock : row.step ≠ .lock)
      (notCommit : row.step ≠ .commit) (noLegacy : row.height ∉ j.legacyHeights)
      (free : (j.v6HeightState row.height).rows.get (row.round, row.step) = none)
      (roundOpen : row.step = .timeout ∨ (j.v6HeightState row.height).RoundOpen row.round)
      (safe : row.step = .prepare → ∃ justifyRound < row.round,
        safeVote (j.v6HeightState row.height).lock row.value justifyRound = true) :
      Writes j [.v6 row]
  | pair {height round : Int} {blockHash : String}
      (wellFormed : (lockRow height round blockHash).WellFormed)
      (noLegacy : height ∉ j.legacyHeights)
      (free : (j.v6HeightState height).rows.get (round, .commit) = none)
      (roundOpen : (j.v6HeightState height).RoundOpen round)
      (mayLock : (j.v6HeightState height).MayLock round blockHash) :
      Writes j [.v6 (lockRow height round blockHash), .v6 (commitRow height round blockHash)]

private theorem get_eq_none_of_has {K V : Type} [DecidableEq K] {m : JsMap K V} {k : K}
    (h : ¬ m.has k = true) : m.get k = none := by
  simpa [JsMap.has] using h

variable {height round : Int} {j : SigningJournal} {es : List Entry}

private theorem wellFormed_of_writable {value : String}
    (hslot : IsSafeInteger height ∧ 1 ≤ height ∧ IsSafeInteger round ∧ 0 ≤ round ∧ round ≤
      v6MaxRound) (hhash : IsHash64 value) {step : V6JournalStep} (hstep : step ≠ .lock) :
    ({ height, round, step, value } : V6JournalRow).WellFormed := by
  obtain ⟨h1, h2, h3, h4, h5⟩ := hslot
  exact ⟨h1, h2, h3, h4, h5, hhash, by simp [hstep]⟩

theorem reserveV6_cases {j : SigningJournal} {height round : Int} {step : V6FreeStep}
    {value : String} {es : List Entry} (h : j.reserveV6 height round step value = .ok es) :
    (es = [] ∧ (j.v6HeightState height).rows.get (round, step.step) = some value) ∨
      es = [.v6 { height, round, step := step.step, value }] ∧ j.Writes es ∧
        (step = .timeout ∨ (j.v6HeightState height).RoundOpen round) := by
  obtain ⟨u, hw, h⟩ := bind_eq_ok.mp h
  obtain ⟨-, hslot, hhash, hlegacy⟩ := assertV6Writable_eq_ok.mp hw
  rcases ifFree_eq_ok.mp h with ⟨hsame, rfl⟩ | ⟨hfree, h⟩
  · exact .inl ⟨rfl, hsame⟩
  · right
    have hwf := wellFormed_of_writable hslot hhash step.step_ne_lock
    obtain ⟨u, hopen, h⟩ := bind_eq_ok.mp h
    have hopen : step = .timeout ∨ (j.v6HeightState height).RoundOpen round := by
      unfold unlessTimeout at hopen
      split at hopen
      · next hs => exact .inl hs
      · exact .inr (assertV6RoundOpen_eq_ok.mp hopen)
    rw [appendV6_eq_ok (by simpa using hwf)] at h
    cases h
    refine ⟨rfl, .row hwf step.step_ne_lock step.step_ne_commit hlegacy hfree ?_ ?_, hopen⟩
    · exact hopen.imp_left fun hs => by rw [hs]; rfl
    · exact fun hs => absurd hs step.step_ne_prepare

theorem reserveV6Prepare_cases {j : SigningJournal} {height round : Int} {blockHash : String}
    {justifyRound : Int} {es : List Entry}
    (h : j.reserveV6Prepare height round blockHash justifyRound = .ok es) :
    justifyRound < round ∧
      ((es = [] ∧ (j.v6HeightState height).rows.get (round, .prepare) = some blockHash) ∨
        es = [.v6 { height, round, step := .prepare, value := blockHash }] ∧ j.Writes es ∧
          (j.v6HeightState height).RoundOpen round ∧
          safeVote (j.v6HeightState height).lock blockHash justifyRound = true) := by
  obtain ⟨u, hw, h⟩ := bind_eq_ok.mp h
  obtain ⟨-, hslot, hhash, hlegacy⟩ := assertV6Writable_eq_ok.mp hw
  obtain ⟨hjustify, h⟩ := throwIf_bind_eq_ok.mp h
  have hbefore : justifyRound < round := by omega
  refine ⟨hbefore, ?_⟩
  rcases ifFree_eq_ok.mp h with ⟨hsame, rfl⟩ | ⟨hfree, h⟩
  · exact .inl ⟨rfl, hsame⟩
  · right
    have hprepare : V6JournalStep.prepare ≠ .lock := by decide
    have hwf := wellFormed_of_writable hslot hhash hprepare
    obtain ⟨u, hopen, h⟩ := bind_eq_ok.mp h
    have hopen := assertV6RoundOpen_eq_ok.mp hopen
    obtain ⟨hsafe, h⟩ := throwIf_bind_eq_ok.mp h
    rw [appendV6_eq_ok (by simpa using hwf)] at h
    cases h
    have hsafe := not_not.mp hsafe
    exact ⟨rfl, .row hwf (by simp) (by simp) hlegacy hfree (.inr hopen)
      fun _ => ⟨justifyRound, hbefore, hsafe⟩, hopen, hsafe⟩

theorem reserveV6Commit_cases {blockHash : String}
    (h : j.reserveV6Commit height round blockHash = .ok es) :
    (es = [] ∧ (j.v6HeightState height).rows.get (round, .commit) = some blockHash) ∨
      es = [.v6 (lockRow height round blockHash), .v6 (commitRow height round blockHash)] ∧
        j.Writes es ∧ (j.v6HeightState height).RoundOpen round ∧
        (j.v6HeightState height).MayLock round blockHash := by
  obtain ⟨u, hw, h⟩ := bind_eq_ok.mp h
  obtain ⟨-, hslot, hhash, hlegacy⟩ := assertV6Writable_eq_ok.mp hw
  rcases ifFree_eq_ok.mp h with ⟨hsame, rfl⟩ | ⟨hfree, h⟩
  · exact .inl ⟨rfl, hsame⟩
  · right
    obtain ⟨h1, h2, h3, h4, h5⟩ := hslot
    have hwf : (lockRow height round blockHash).WellFormed := ⟨h1, h2, h3, h4, h5, hhash, rfl⟩
    obtain ⟨u, hopen, h⟩ := bind_eq_ok.mp h
    have hopen := assertV6RoundOpen_eq_ok.mp hopen
    obtain ⟨hprepare, h⟩ := throwIf_bind_eq_ok.mp h
    obtain ⟨hback, h⟩ := throwIf_bind_eq_ok.mp h
    have hmay : (j.v6HeightState height).MayLock round blockHash := by
      refine ⟨fun p hp => by_contra fun hne => hprepare ⟨p, hp, hne⟩, fun l hl => ?_⟩
      by_contra hne
      refine hback ⟨l, hl, ?_⟩
      rcases lt_trichotomy l.round round with hlt | heq | hgt
      · exact absurd (.inl hlt) hne
      · exact .inr ⟨heq, fun hb => hne (.inr ⟨heq, hb⟩)⟩
      · exact .inl hgt
    rw [appendV6_eq_ok (by simpa [commitRows] using ⟨hwf, commitRow_wellFormed hwf⟩)] at h
    cases h
    exact ⟨rfl, .pair hwf hlegacy hfree hopen hmay, hopen, hmay⟩

theorem reserveLegacyHeight_cases (h : j.reserveLegacyHeight height = .ok es) :
    j.v6Heights.get height = none ∧
      ((es = [] ∧ height ∈ j.legacyHeights) ∨ es = [.mark height] ∧ j.Writes es) := by
  obtain ⟨u, -, h⟩ := bind_eq_ok.mp h
  obtain ⟨hslot, h⟩ := throwIf_bind_eq_ok.mp h
  obtain ⟨hnoV6, h⟩ := throwIf_bind_eq_ok.mp h
  have hnoV6 := get_eq_none_of_has hnoV6
  refine ⟨hnoV6, ?_⟩
  split at h
  · next hmem =>
    rw [Except.ok.injEq] at h
    exact .inl ⟨h.symm, hmem⟩
  · cases h
    have hwf : (Entry.mark height).WellFormed := by
      rw [not_or, not_not, not_lt] at hslot
      exact hslot
    exact .inr ⟨rfl, .mark hwf hnoV6⟩

theorem reserveChoice_cases {kind : LegacyKind} {value : String}
    (h : j.reserveChoice height round kind value = .ok es) :
    (es = [] ∧ j.reservations.get (height, round) = some (kind, value)) ∨
      es = [.choice height round kind value] ∧ j.Writes es := by
  obtain ⟨u, -, h⟩ := bind_eq_ok.mp h
  obtain ⟨hslot, h⟩ := throwIf_bind_eq_ok.mp h
  obtain ⟨hhash, h⟩ := throwIf_bind_eq_ok.mp h
  rcases ifFree_eq_ok.mp h with ⟨hsame, rfl⟩ | ⟨hfree, h⟩
  · exact .inl ⟨rfl, hsame⟩
  · right
    obtain ⟨hnoV6, h⟩ := throwIf_bind_eq_ok.mp h
    cases h
    simp only [not_or, not_not, not_lt] at hslot hhash
    obtain ⟨h1, h2, h3, h4⟩ := hslot
    exact ⟨rfl, .choice ⟨h1, h2, h3, h4, hhash⟩ hfree (get_eq_none_of_has hnoV6)⟩

/-- Whatever a reservation appends, it checked the conditions for it. -/
theorem writes_of_reserve {r : JournalRequest} (h : j.reserve r = .ok es) : j.Writes es := by
  cases r with
  | attestation height round blockHash =>
    rcases reserveChoice_cases h with ⟨rfl, -⟩ | ⟨-, hw⟩
    · exact .nothing
    · exact hw
  | skip height round previousHash =>
    rcases reserveChoice_cases h with ⟨rfl, -⟩ | ⟨-, hw⟩
    · exact .nothing
    · exact hw
  | legacyHeight height =>
    rcases (reserveLegacyHeight_cases h).2 with ⟨rfl, -⟩ | ⟨-, hw⟩
    · exact .nothing
    · exact hw
  | v6 height round step value =>
    rcases reserveV6_cases h with ⟨rfl, -⟩ | ⟨-, hw, -⟩
    · exact .nothing
    · exact hw
  | v6Prepare height round blockHash justifyRound =>
    rcases (reserveV6Prepare_cases h).2 with ⟨rfl, -⟩ | ⟨-, hw, -⟩
    · exact .nothing
    · exact hw
  | v6Commit height round blockHash =>
    rcases reserveV6Commit_cases h with ⟨rfl, -⟩ | ⟨-, hw, -⟩
    · exact .nothing
    · exact hw

/-! ### Compaction -/

/-- The order of the retained reservations in a compacted file. -/
def slotLe (a b : (Int × Int) × (LegacyKind × String)) : Bool :=
  a.1.1 < b.1.1 || (a.1.1 == b.1.1 && a.1.2 ≤ b.1.2)

def choiceEntry (e : (Int × Int) × (LegacyKind × String)) : Entry := .choice e.1.1 e.1.2 e.2.1 e.2.2

/-- The retained reservations, sorted by height and round. -/
def retainedChoices (j : SigningJournal) (finalizedHeight : Int) : List Entry :=
  ((j.reservations.entries.filter fun e => e.1.1 > finalizedHeight).mergeSort slotLe).map
    choiceEntry

/-- The retained marks, sorted by height. -/
def retainedMarks (j : SigningJournal) (finalizedHeight : Int) : List Entry :=
  ((j.legacyMarks.filter (· > finalizedHeight)).sort (· ≤ ·)).map .mark

/-- The retained protocol v6 rows, in append order. -/
def retainedV6 (j : SigningJournal) (finalizedHeight : Int) : List V6JournalRow :=
  j.v6Rows.filter fun row => row.height > finalizedHeight

def compactedEntries (j : SigningJournal) (finalizedHeight : Int) : List Entry :=
  j.retainedChoices finalizedHeight ++ j.retainedMarks finalizedHeight ++
    (j.retainedV6 finalizedHeight).map .v6

/-- The state restricted to heights above a finalized height. -/
def restrict (j : SigningJournal) (finalizedHeight : Int) : SigningJournal :=
  { j with
    reservations := j.reservations.keep fun k => k.1 > finalizedHeight
    legacyHeights := j.legacyHeights.filter (· > finalizedHeight)
    legacyMarks := j.legacyMarks.filter (· > finalizedHeight)
    v6Heights := j.v6Heights.keep fun h => h > finalizedHeight
    v6Rows := j.retainedV6 finalizedHeight }

/-- How many reservations, rows and marks a compaction removes. -/
def removedCount (j : SigningJournal) (finalizedHeight : Int) : Nat :=
  (j.reservations.entries.filter fun e => e.1.1 ≤ finalizedHeight).length +
    (j.v6Rows.length - (j.retainedV6 finalizedHeight).length) +
    (j.legacyMarks.card - (j.legacyMarks.filter (· > finalizedHeight)).card)

/-- The check `compactThrough` makes on every reservation it parses back from its key. -/
def corruptReservation (e : (Int × Int) × (LegacyKind × String)) : Prop :=
  ¬ IsSafeInteger e.1.1 ∨ e.1.1 < 1 ∨ ¬ IsSafeInteger e.1.2 ∨ e.1.2 < 0 ∨ ¬ IsHash64 e.2.2

instance (e : (Int × Int) × (LegacyKind × String)) : Decidable (corruptReservation e) :=
  inferInstanceAs (Decidable (_ ∨ _ ∨ _ ∨ _ ∨ _))

/-- What a compaction did. -/
inductive CompactOutcome where
  /-- Refused with an error, nothing changed. -/
  | refused (message : String)
  /-- Failed with an error that stops every later call. -/
  | faulted (message : String)
  /-- Nothing to remove: the file stays. -/
  | unchanged
  /-- The file was replaced by the given records. -/
  | replaced (file : List Entry)
deriving DecidableEq

def compactThrough (j : SigningJournal) (finalizedHeight : Int) : CompactOutcome :=
  match j.assertUsable with
  | .error message => .refused message
  | .ok () =>
    if ¬ IsSafeInteger finalizedHeight ∨ finalizedHeight < 0 then
      .refused "Invalid signing journal compaction height"
    else if ∃ e ∈ j.reservations.entries, corruptReservation e then
      .faulted "Signing journal in-memory state is corrupt; validator restart required"
    else if j.removedCount finalizedHeight = 0 then .unchanged
    else if ∃ e ∈ j.retainedChoices finalizedHeight ++
        (j.retainedV6 finalizedHeight).map .v6, e.line.length > maxSigningLineBytes then
      .faulted "Signing journal compaction failed; validator restart required"
    else .replaced (j.compactedEntries finalizedHeight)

def afterCompaction (j : SigningJournal) (finalizedHeight : Int) : SigningJournal :=
  match j.compactThrough finalizedHeight with
  | .refused _ | .unchanged => j
  | .faulted _ => { j with persistenceFaulted := true }
  | .replaced _ => j.restrict finalizedHeight

end SigningJournal

end ZyronChain
