import Mathlib.Data.Finset.Basic
import ZyronChain.Journal.Row
import ZyronChain.Lib.JsMap

/-!
# The state of a signing journal and its replay

The in-memory state of the signing journal, and how `SigningJournal.open` rebuilds it from the
lines of the file.  Replay refuses rows that the reservations could not have written.

Source: `l1/src/storage.ts`, class `SigningJournal` (`replayRows`, `replayV6Row`, `applyV6Row`,
`assertTornAppendLock`).

## Main definitions

* `SigningJournal` : the state.
* `SigningJournal.applyV6Row` : the effect of a protocol v6 row.
* `SigningJournal.replayRows` : the replay of a file.
-/

namespace ZyronChain

open Checks

/-- What the journal knows of a height with protocol v6 rows. -/
structure V6HeightJournal where
  rows : JsMap (Int × V6JournalStep) String
  lock : Option V6Lock
  /-- Highest round with an own prepare or commit row (-1 if none). -/
  maxVoteRound : Int
  /-- Highest round with an own timeout row (-1 if none). -/
  maxTimeoutRound : Int
deriving DecidableEq

def V6HeightJournal.empty : V6HeightJournal := ⟨.empty, none, -1, -1⟩

/-- The state of the journal. -/
structure SigningJournal where
  /-- Attestations and skips by height and round. -/
  reservations : JsMap (Int × Int) (LegacyKind × String)
  legacyHeights : Finset Int
  /-- Heights at which a legacy signature was released without a round-keyed reservation. -/
  legacyMarks : Finset Int
  v6Heights : JsMap Int V6HeightJournal
  v6Rows : List V6JournalRow
  persistenceFaulted : Bool
  closed : Bool
deriving DecidableEq

namespace SigningJournal

def empty : SigningJournal := ⟨.empty, ∅, ∅, .empty, [], false, false⟩

/-- `v6HeightState(height, true)`. -/
def v6HeightState (j : SigningJournal) (height : Int) : V6HeightJournal :=
  (j.v6Heights.get height).getD .empty

end SigningJournal

/-- The effect of a row on the state of its height. -/
def V6HeightJournal.applyRow (state : V6HeightJournal) (row : V6JournalRow) : V6HeightJournal :=
  if row.step = .lock then { state with lock := some ⟨row.round, row.value⟩ }
  else
    { state with
      rows := state.rows.set (row.round, row.step) row.value
      maxVoteRound :=
        if row.step = .prepare ∨ row.step = .commit then max state.maxVoteRound row.round
        else state.maxVoteRound
      maxTimeoutRound := if row.step = .timeout then max state.maxTimeoutRound row.round
        else state.maxTimeoutRound }

/-- No timeout at the round or later, no vote at a later round. -/
def V6HeightJournal.RoundOpen (state : V6HeightJournal) (round : Int) : Prop :=
  state.maxTimeoutRound < round ∧ state.maxVoteRound ≤ round

/-- What `reserveV6Commit` requires of the own prepare vote and of the lock. -/
def V6HeightJournal.MayLock (state : V6HeightJournal) (round : Int) (blockHash : String) : Prop :=
  (∀ p, state.rows.get (round, .prepare) = some p → p = blockHash) ∧
    ∀ l, state.lock = some l → l.round < round ∨ (l.round = round ∧ l.blockHash = blockHash)

namespace SigningJournal

def applyV6Row (j : SigningJournal) (row : V6JournalRow) : SigningJournal :=
  { j with
    v6Heights := j.v6Heights.set row.height ((j.v6HeightState row.height).applyRow row)
    v6Rows := j.v6Rows ++ [row] }

theorem v6HeightState_applyV6Row (j : SigningJournal) (row : V6JournalRow) (height : Int) :
    (j.applyV6Row row).v6HeightState height =
      if row.height = height then (j.v6HeightState height).applyRow row
      else j.v6HeightState height := by
  unfold v6HeightState applyV6Row
  rw [JsMap.get_set]
  split
  · next h => subst h; rfl
  · rfl

/-- The effect of a legacy reservation. -/
def applyChoice (j : SigningJournal) (height round : Int) (kind : LegacyKind) (value : String) :
    SigningJournal :=
  { j with
    reservations := j.reservations.set (height, round) (kind, value)
    legacyHeights := insert height j.legacyHeights }

def applyMark (j : SigningJournal) (height : Int) : SigningJournal :=
  { j with
    legacyMarks := insert height j.legacyMarks
    legacyHeights := insert height j.legacyHeights }

def applyEntry (j : SigningJournal) : Entry → SigningJournal
  | .choice height round kind value => j.applyChoice height round kind value
  | .mark height => j.applyMark height
  | .v6 row => j.applyV6Row row

/-! ### Replay -/

/-- The error of a row that no reservation writes. -/
def corruptEntry : String := "Corrupt signing journal entry"

/-- The error of a lock row without its commit row. -/
def tornPair : String := "Torn protocol v6 lock/commit pair in signing journal"

/-- The error of a height with rows of both protocols. -/
def mixedRows : String := "Mixed legacy and protocol v6 signing journal rows"

/-- The error of two values for one slot. -/
def conflictingHistory : String := "Conflicting signing journal history"

/-- The shape checks of `replayV6Row`. -/
def decodeV6Row (parsed : Json) : Except String V6JournalRow :=
  let step := (text? (parsed.field "step")).bind V6JournalStep.ofName?
  let expectedKeys :=
    if step = some .lock then ["v", "height", "round", "step", "value", "lockRound"]
    else ["v", "height", "round", "step", "value"]
  match step, safeInteger? (parsed.field "height"), safeInteger? (parsed.field "round"),
    hash64? (parsed.field "value") with
  | some step, some height, some round, some value =>
    if parsed.keys.length ≠ expectedKeys.length ∨ ¬ (∀ k ∈ expectedKeys, k ∈ parsed.keys) ∨
        height < 1 ∨ round < 0 ∨ round > v6MaxRound ∨
        (step = .lock ∧ safeInteger? (parsed.field "lockRound") ≠ some round) then
      .error corruptEntry
    else .ok ⟨height, round, step, value, if step = .lock then some round else none⟩
  | _, _, _, _ => .error corruptEntry

/-- The checks of a lock against the round it would close: the round was still open and the own
prepare there is for the same block. -/
def lockRefused (state : V6HeightJournal) (row : V6JournalRow) : Prop :=
  state.maxTimeoutRound ≥ row.round ∨ state.maxVoteRound > row.round ∨
    ∃ prepared, state.rows.get (row.round, .prepare) = some prepared ∧ prepared ≠ row.value

instance (state : V6HeightJournal) (row : V6JournalRow) : Decidable (lockRefused state row) := by
  unfold lockRefused
  exact inferInstanceAs (Decidable (_ ∨ _ ∨ ∃ p, _ = some p ∧ _))

/-- `replayV6Row` after its shape checks. -/
def replayV6 (j : SigningJournal) (row : V6JournalRow) (pendingLock : Option V6JournalRow) :
    Except String (SigningJournal × Option V6JournalRow) := do
  throwIf (∃ p, pendingLock = some p ∧
    (row.step ≠ .commit ∨ row.height ≠ p.height ∨ row.round ≠ p.round ∨ row.value ≠ p.value))
    tornPair
  throwIf (row.height ∈ j.legacyHeights) mixedRows
  let state := j.v6HeightState row.height
  if row.step = .lock then
    throwIf (∃ l, state.lock = some l ∧
      (l.round > row.round ∨ (l.round = row.round ∧ l.blockHash ≠ row.value))) conflictingHistory
    throwIf (lockRefused state row) tornPair
  else
    throwIf (∃ v, state.rows.get (row.round, row.step) = some v ∧ v ≠ row.value)
      conflictingHistory
  .ok (j.applyV6Row row, if row.step = .lock then some row else none)

def replayV6Row (j : SigningJournal) (parsed : Json) (pendingLock : Option V6JournalRow) :
    Except String (SigningJournal × Option V6JournalRow) := do
  let row ← decodeV6Row parsed
  j.replayV6 row pendingLock

def replayMark (j : SigningJournal) (parsed : Json) : Except String SigningJournal :=
  match safeInteger? (parsed.field "height") with
  | some height => do
    throwIf (¬ (parsed.keys.length = 2 ∧ "height" ∈ parsed.keys ∧ "kind" ∈ parsed.keys) ∨
      height < 1) corruptEntry
    throwIf (j.v6Heights.has height) mixedRows
    .ok (j.applyMark height)
  | none => .error corruptEntry

/-- The replay of a legacy reservation. -/
def replayChoice (j : SigningJournal) (parsed : Json) : Except String SigningJournal :=
  match safeInteger? (parsed.field "height"), safeInteger? (parsed.field "round"),
    (text? (parsed.field "kind")).bind LegacyKind.ofName?, hash64? (parsed.field "value") with
  | some height, some round, some kind, some value => do
    throwIf (∃ p, j.reservations.get (height, round) = some p ∧ p ≠ (kind, value))
      conflictingHistory
    throwIf (j.v6Heights.has height) mixedRows
    .ok (j.applyChoice height round kind value)
  | _, _, _, _ => .error corruptEntry

def replayLine (j : SigningJournal) (pendingLock : Option V6JournalRow) (line : List Char) :
    Except String (SigningJournal × Option V6JournalRow) := do
  assertSigningJournalJsonComplexity line
  match Json.parse line with
  | none => .error "Unexpected token in JSON"
  | some parsed =>
    if safeInteger? (parsed.field "v") = some 2 then j.replayV6Row parsed pendingLock
    else do
      throwIf pendingLock.isSome tornPair
      if text? (parsed.field "kind") = some "legacy" then
        let j' ← j.replayMark parsed
        .ok (j', none)
      else
        let j' ← j.replayChoice parsed
        .ok (j', none)

/-- The loop of `replayRows` from the given byte offset. -/
def replayRecords (stopAt : Option Nat) :
    List (Except String BoundedLine) → Nat → SigningJournal → Option V6JournalRow →
      Except String (SigningJournal × Option V6JournalRow)
  | [], _, j, pendingLock => .ok (j, pendingLock)
  | .error e :: _, _, _, _ => .error e
  | .ok record :: records, offset, j, pendingLock =>
    if ∃ stop, stopAt = some stop ∧ offset ≥ stop then .ok (j, pendingLock)
    else if isBlank record.text then
      replayRecords stopAt records (offset + record.serializedBytes) j pendingLock
    else do
      let r ← j.replayLine pendingLock record.text
      replayRecords stopAt records (offset + record.serializedBytes) r.1 r.2

def journalRecords (bytes : List Char) : List (Except String BoundedLine) :=
  BoundedLine.readLines maxSigningLineBytes "Corrupt signing journal" bytes

/-- `replayRows`: replays the rows that start before `stopAt`, and returns a trailing lock row
without its commit row. -/
def replayRows (j : SigningJournal) (bytes : List Char) (stopAt : Option Nat) :
    Except String (SigningJournal × Option V6JournalRow) :=
  replayRecords stopAt (journalRecords bytes) 0 j none

def assertTornAppendLock (j : SigningJournal) (pendingLock : V6JournalRow) : Except String Unit :=
  throwIf (lockRefused (j.v6HeightState pendingLock.height) pendingLock) tornPair

end SigningJournal

end ZyronChain
