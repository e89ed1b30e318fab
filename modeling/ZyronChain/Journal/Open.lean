import ZyronChain.Journal.Reserve

/-!
# Opening a signing journal

`SigningJournal.open` first looks at the last record of the file.  A record that a crash cut
short is dropped; if it was the commit row of a lock and commit pair, the lock row goes with
it.  A complete last record that lost only its newline is kept and terminated again, and a lone
lock row is completed with its commit row.  Nothing is dropped before the history in front of
it has been replayed.

Source: `l1/src/storage.ts` (`isTornTrailingRecord`, `repairSigningJournalTail`,
`assertTornV6CommitOfLock`, `SigningJournal.open`).
-/

namespace ZyronChain

open Checks SigningJournal

def isTornTrailingRecord (record : BoundedLine) : Bool :=
  !record.terminated && (Json.parse record.text).isNone

/-- The planned repair of the tail of the file. -/
inductive TailRepair where
  /-- The file ends in a complete line, or is empty. -/
  | none
  /-- A complete final record lost only its newline. -/
  | reterminate
  /-- A torn commit row is dropped together with its lock row. -/
  | lockDrop (cut tornStart : Nat)
  /-- Any other torn record is dropped. -/
  | tailDrop (cut : Nat)
deriving DecidableEq, Repr

/-- The last nonblank record with its offset, and the text of the one before with its offset. -/
structure Tail where
  previous : Option (Nat × List Char)
  last : Option (Nat × BoundedLine)

def Tail.push (tail : Tail) (offset : Nat) (record : BoundedLine) : Tail where
  previous := (tail.last.map fun l => (l.1, l.2.text)).or tail.previous
  last := some (offset, record)

/-- The loop of `repairSigningJournalTail`. -/
def scanTail : List (Except String BoundedLine) → Nat → Tail → Except String Tail
  | [], _, tail => .ok tail
  | .error e :: _, _, _ => .error e
  | .ok record :: records, offset, tail =>
    scanTail records (offset + record.serializedBytes)
      (if isBlank record.text then tail else tail.push offset record)

def isV6LockRowCandidate (row : Option Json) : Bool := match row with
  | some row => safeInteger? (row.field "v") = some 2 && text? (row.field "step") = some "lock"
  | none => false

/-- `tornText.replace(/\0+$/, "")`. -/
def stripTrailingNul (text : List Char) : List Char :=
  (text.reverse.dropWhile (· = Json.nul)).reverse

def assertTornV6CommitOfLock (lockText tornText : List Char) : Except String Unit :=
  match Json.parse lockText with
  | none => .error "Unexpected token in JSON"
  | some row =>
    match safeInteger? (row.field "height"), safeInteger? (row.field "round"),
      hash64? (row.field "value") with
    | some height, some round, some value => do
      throwIf (height < 1 ∨ round < 0 ∨ round > v6MaxRound) corruptEntry
      let lock := v6RowLine
        { height, round, step := .lock, value, lockRound := some round }
      throwIf (lockText ++ ['\n'] ≠ lock) corruptEntry
      let commit := v6RowLine { height, round, step := .commit, value }
      throwIf (¬ stripTrailingNul tornText <+: commit) tornPair
    | _, _, _ => .error corruptEntry

def repairSigningJournalTail (bytes : List Char) : Except String TailRepair := do
  let tail ← scanTail (journalRecords bytes) 0 ⟨none, none⟩
  match tail.last with
  | none => .ok .none
  | some (start, record) =>
    if record.terminated then .ok .none
    else if ¬ isTornTrailingRecord record then .ok .reterminate
    else
      match tail.previous with
      | none => .ok (.tailDrop start)
      | some (previousStart, previousText) =>
        if isV6LockRowCandidate (Json.parse previousText) then do
          assertTornV6CommitOfLock previousText record.text
          .ok (.lockDrop previousStart start)
        else .ok (.tailDrop start)

/-- The result of opening a journal: its state, the length the file was truncated to, and the
text then appended to it. -/
structure Opened where
  journal : SigningJournal
  truncatedTo : Option Nat
  appended : List Char
deriving DecidableEq

/-- A file cut to a length, if one is given. -/
def truncated (bytes : List Char) : Option Nat → List Char
  | none => bytes
  | some length => bytes.take length

def Opened.file (o : Opened) (bytes : List Char) : List Char :=
  truncated bytes o.truncatedTo ++ o.appended

namespace SigningJournal

/-- The truncation a repair makes, after a probe replay of the history it keeps. -/
def probeRepair (bytes : List Char) : TailRepair → Except String (Option Nat)
  | .none | .reterminate => .ok none
  | .lockDrop cut tornStart => do
    let probe ← empty.replayRows bytes (some tornStart)
    match probe.2 with
    | none => .error tornPair
    | some probeLock =>
      probe.1.assertTornAppendLock probeLock
      .ok (some cut)
  | .tailDrop cut => do
    let _ ← empty.replayRows bytes (some cut)
    .ok (some cut)

/-- The completion of a lone trailing lock row: the state with the commit row, and its line. -/
def completeLock (j : SigningJournal) : Option V6JournalRow →
    Except String (SigningJournal × List Char)
  | none => .ok (j, [])
  | some lock => do
    j.assertTornAppendLock lock
    let commit : V6JournalRow :=
      { height := lock.height, round := lock.round, step := .commit, value := lock.value }
    let r ← j.replayV6 commit (some lock)
    throwIf r.2.isSome tornPair
    .ok (r.1, v6RowLine commit)

/-- `SigningJournal.open` on an existing file. -/
def openFile (bytes : List Char) : Except String Opened := do
  let repair ← repairSigningJournalTail bytes
  let cut ← probeRepair bytes repair
  let replayed ← empty.replayRows (truncated bytes cut) none
  let completed ← replayed.1.completeLock replayed.2
  let newline := if repair = .reterminate then ['\n'] else []
  .ok ⟨completed.1, cut, newline ++ completed.2⟩

/-- `SigningJournal.open`: a missing file is created empty. -/
def «open» (file : Option (List Char)) : Except String Opened := match file with
  | none => .ok ⟨empty, none, []⟩
  | some bytes => openFile bytes

end SigningJournal

end ZyronChain
