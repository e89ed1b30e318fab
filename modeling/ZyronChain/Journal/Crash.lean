import ZyronChain.Journal.Run

/-!
# Crashes of a signing journal

A crash in the middle of an append leaves the acknowledged bytes followed by a prefix of what
was being written, possibly filled up with NUL characters.  Whatever the cut, opening the
journal succeeds, and its state is the one before the append or the one after it.  A crash
during the repair that opening makes leaves a file of the same kind again.

## Main definitions

* `CrashedFile` : the files crashes can leave, of an append and of any number of repairs of it.

## Main results

* `SigningJournal.openFile_torn` : opening a file with a cut append.
* `SigningJournal.openFile_crashed` : opening after any sequence of crashes.
-/

namespace ZyronChain

open Checks List Entry

/-! ### Cut records -/

/-- What is left of a record that was cut short: not the whole text, or the whole text with NUL
characters in place of what follows. -/
structure TornRecord (y : List Char) : Prop where
  short : BoundedLine.Short maxSigningLineBytes y
  nonempty : y ≠ []
  notBlank : isBlank y = false
  noParse : Json.parse y = none

variable {e : Entry} {k : Nat} {q : List Char}

private theorem notMem_text (he : e.WellFormed) :
    '\n' ∉ e.text ∧ '\r' ∉ e.text ∧ Json.nul ∉ e.text := by
  have hprint : ∀ x ∈ e.text, 0x20 ≤ x.toNat := fun x hx => Json.render_printable _ e.plain hx
  have hs := short_text he
  exact ⟨hs.newline, hs.cr, fun hmem => absurd (hprint _ hmem) (by decide)⟩

/-- A prefix of a record followed by NUL characters, unless it is empty or the whole text. -/
theorem tornRecord_of_cut (he : e.WellFormed) {p t : List Char} (htext : e.text = p ++ t)
    (hcut : t ≠ [] ∨ 0 < k) (hne : p ≠ [] ∨ 0 < k) (hk : p.length + k ≤ maxSigningLineBytes) :
    TornRecord (p ++ List.replicate k Json.nul) := by
  obtain ⟨hnl, hcr, -⟩ := notMem_text he
  rw [htext, mem_append, not_or] at hnl hcr
  refine ⟨⟨?_, ?_, ?_⟩, ?_, ?_, ?_⟩
  · rw [mem_append, not_or]
    exact ⟨hnl.1, fun h => absurd (eq_of_mem_replicate h) (by decide)⟩
  · rw [mem_append, not_or]
    exact ⟨hcr.1, fun h => absurd (eq_of_mem_replicate h) (by decide)⟩
  · rwa [length_append, length_replicate]
  · intro hnil
    rw [append_eq_nil_iff, replicate_eq_nil_iff] at hnil
    rcases hne with hne | hne
    · exact hne hnil.1
    · omega
  · cases p with
    | nil =>
      obtain ⟨k, rfl⟩ : ∃ k', k = k' + 1 := ⟨k - 1, by
        rcases hne with hne | hne
        · exact absurd rfl hne
        · omega⟩
      rfl
    | cons c p =>
      obtain ⟨s, hs⟩ := e.text_eq
      rw [htext, cons_append, List.cons.injEq] at hs
      rw [hs.1]
      rfl
  · by_cases ht : t = []
    · rw [ht, append_nil] at htext
      rw [← htext]
      exact e.parse_text_nul (hcut.resolve_left fun h => h ht)
    · exact e.parse_text_cut htext ht k

theorem torn_line_cases (he : e.WellFormed) {y : List Char} (h : Torn Json.nul e.line y) :
    y = [] ∨ y = e.line ∨ y = e.text ∨
      (TornRecord y ∧ ∃ q k, q <+: e.text ∧ y = q ++ List.replicate k Json.nul) := by
  have hlen := text_length he
  rcases Torn.split h with ⟨p, t, k, htext, ht, hk, rfl⟩ | ⟨y', hy', rfl⟩
  · have hk' : p.length + k ≤ maxSigningLineBytes := by
      rw [htext, length_append] at hlen
      rw [length_append, length_singleton] at hk
      rw [maxSigningLineBytes]
      omega
    by_cases hne : p ≠ [] ∨ 0 < k
    · exact .inr (.inr (.inr ⟨tornRecord_of_cut he htext (.inl ht) hne hk', p, k,
        ⟨t, htext.symm⟩, rfl⟩))
    · rw [not_or, not_not, not_lt, Nat.le_zero] at hne
      rw [hne.1, hne.2]
      exact .inl rfl
  · obtain ⟨p, t, k, hpt, hk, rfl⟩ := hy'
    cases p with
    | nil =>
      rw [nil_append] at hpt
      rw [← hpt, length_singleton] at hk
      cases k with
      | zero => exact .inr (.inr (.inl (by simp)))
      | succ k =>
        refine .inr (.inr (.inr ⟨?_, e.text, k + 1, prefix_rfl, rfl⟩))
        have hnil : e.text = e.text ++ [] := (append_nil _).symm
        refine tornRecord_of_cut he hnil (.inr (Nat.succ_pos k)) (.inr (Nat.succ_pos k)) ?_
        rw [maxSigningLineBytes]
        omega
    | cons c p =>
      rw [cons_append, List.cons.injEq, nil_eq, append_eq_nil_iff] at hpt
      obtain ⟨rfl, rfl, rfl⟩ := hpt
      rw [length_nil, Nat.le_zero] at hk
      subst hk
      exact .inr (.inl rfl)

/-! ### The tail of a file with an unterminated record -/

theorem journalRecords_tail {es : List Entry} (hes : ∀ e ∈ es, e.WellFormed) {y : List Char}
    (hy : BoundedLine.Short maxSigningLineBytes y) (hne : y ≠ []) :
    SigningJournal.journalRecords (journalText es ++ y) =
      es.map (fun e => .ok e.record) ++ [.ok (BoundedLine.record y false)] := by
  rw [journalRecords_journalText hes, SigningJournal.journalRecords,
    BoundedLine.readLines_tail hy hne]

/-- The last two records of a file with an unterminated record. -/
theorem scanTail_tail (es : List Entry) {y : List Char} (hblank : isBlank y = false) :
    ∃ tail, scanTail (es.map (fun e => .ok e.record) ++ [.ok (BoundedLine.record y false)]) 0
        ⟨none, none⟩ = .ok tail ∧
      tail.last = some ((journalText es).length, BoundedLine.record y false) ∧
      (es = [] → tail.previous = none) ∧
      ∀ fs e, es = fs ++ [e] → tail.previous = some ((journalText fs).length, e.text) := by
  obtain ⟨tail, hscan, hnil, hlast⟩ := scanTail_journalText es 0 ⟨none, none⟩
    [.ok (BoundedLine.record y false)]
  refine ⟨tail.push (journalText es).length (BoundedLine.record y false), ?_, rfl, ?_, ?_⟩
  · rw [hscan, scanTail, scanTail]
    have : isBlank (BoundedLine.record y false).text = false := hblank
    rw [this, if_neg (by decide), Nat.zero_add]
  · intro hes
    rw [hnil hes]
    rfl
  · intro fs e hes
    rw [Tail.push, hlast fs e hes, Nat.zero_add]
    rfl

variable {es : List Entry} {y : List Char}

theorem repair_complete (hes : ∀ e ∈ es, e.WellFormed) (he : e.WellFormed) :
    repairSigningJournalTail (journalText es ++ e.text) = .ok .reterminate := by
  have hne : e.text ≠ [] := cons_ne_nil _ _
  obtain ⟨tail, hscan, hlast, -, -⟩ := scanTail_tail es e.isBlank_text
  have hparse : isTornTrailingRecord (BoundedLine.record e.text false) = false := by
    simp [isTornTrailingRecord, BoundedLine.record, e.parse_text]
  rw [repairSigningJournalTail, journalRecords_tail hes (short_text he) hne, hscan, ok_bind, hlast]
  simp [hparse]

theorem TornRecord.isTorn (hy : TornRecord y) :
    isTornTrailingRecord (BoundedLine.record y false) = true := by
  simp [isTornTrailingRecord, BoundedLine.record, hy.noParse]

/-- The records that are not lock rows. -/
def Entry.NotLock : Entry → Prop
  | .v6 row => row.step ≠ .lock
  | _ => True

theorem Entry.NotLock.notCandidate (h : e.NotLock) :
    isV6LockRowCandidate (Json.parse e.text) = false := by
  rw [e.parse_text]
  cases e with
  | choice height round kind value =>
    simp [isV6LockRowCandidate, Entry.members, Json.field, safeInteger?]
  | mark height => simp [isV6LockRowCandidate, Entry.members, Json.field, safeInteger?]
  | v6 row =>
    have hname : row.step.name ≠ "lock" := by
      have hstep : row.step ≠ .lock := h
      cases hs : row.step with
      | lock => exact absurd hs hstep
      | _ => decide
    simp [isV6LockRowCandidate, Entry.members, V6JournalRow.members, Json.field, text?, hname]

theorem repair_torn (hes : ∀ e ∈ es, e.WellFormed) (hlast : ∀ fs e, es = fs ++ [e] → e.NotLock)
    (hy : TornRecord y) :
    repairSigningJournalTail (journalText es ++ y) = .ok (.tailDrop (journalText es).length) := by
  obtain ⟨tail, hscan, htail, hnil, hprev⟩ := scanTail_tail es hy.notBlank
  rw [repairSigningJournalTail, journalRecords_tail hes hy.short hy.nonempty, hscan, ok_bind, htail]
  rcases eq_nil_or_concat es with hnone | ⟨fs, e, hconcat⟩
  · rw [hnil hnone]
    simp [hy.isTorn]
  · rw [concat_eq_append] at hconcat
    rw [hprev fs e hconcat]
    have hcand := (hlast fs e hconcat).notCandidate
    simp [hy.isTorn, hcand]

/-! ### A cut commit row -/

theorem stripTrailingNul_append (hq : Json.nul ∉ q) (k : Nat) :
    stripTrailingNul (q ++ List.replicate k Json.nul) = q := by
  rw [stripTrailingNul, reverse_append, reverse_replicate]
  have hall : ∀ x ∈ List.replicate k Json.nul, decide (x = Json.nul) = true := by
    intro x hx
    simpa using eq_of_mem_replicate hx
  rw [dropWhile_append_of_pos hall]
  have hdrop : q.reverse.dropWhile (fun x => decide (x = Json.nul)) = q.reverse := by
    cases hr : q.reverse with
    | nil => rfl
    | cons x r =>
      have hx : x ≠ Json.nul := by
        rintro rfl
        have : Json.nul ∈ q.reverse := by rw [hr]; simp
        exact hq (mem_reverse.mp this)
      rw [dropWhile_cons_of_neg (by simpa using hx)]
  rw [hdrop, reverse_reverse]

theorem assertTornV6CommitOfLock_ok {height round : Int} {blockHash : String}
    (hwf : (lockRow height round blockHash).WellFormed)
    (hq : q <+: (Entry.v6 (commitRow height round blockHash)).text) :
    assertTornV6CommitOfLock (Entry.v6 (lockRow height round blockHash)).text
      (q ++ List.replicate k Json.nul) = .ok () := by
  obtain ⟨h1, h2, h3, h4, h5, h6, -⟩ := hwf
  simp only [lockRow_height, lockRow_round, lockRow_value] at h1 h2 h3 h4 h5 h6
  have hnul : Json.nul ∉ q := fun hmem =>
    (notMem_text (e := .v6 (commitRow height round blockHash))
      ⟨h1, h2, h3, h4, h5, h6, rfl⟩).2.2 (hq.subset hmem)
  have hfields : (Json.obj (Entry.v6 (lockRow height round blockHash)).members).field "height" =
        some (.num height) ∧
      (Json.obj (Entry.v6 (lockRow height round blockHash)).members).field "round" =
        some (.num round) ∧
      (Json.obj (Entry.v6 (lockRow height round blockHash)).members).field "value" =
        some (.str blockHash) := by
    simp [Entry.members, V6JournalRow.members, lockRow, Json.field]
  have hslot : ¬ (height < 1 ∨ round < 0 ∨ round > v6MaxRound) := by omega
  have hlock : (Entry.v6 (lockRow height round blockHash)).text ++ ['\n'] =
      v6RowLine { height, round, step := .lock, value := blockHash, lockRound := some round } := rfl
  have hcommit : q <+: v6RowLine { height, round, step := .commit, value := blockHash } :=
    hq.trans (prefix_append _ _)
  rw [assertTornV6CommitOfLock, parse_text]
  simp only [hfields.1, hfields.2.1, hfields.2.2, safeInteger?_num h1, safeInteger?_num h3,
    hash64?_str h6, stripTrailingNul_append hnul]
  rw [throwIf_of_not hslot, ok_bind, throwIf_of_not (not_not.mpr hlock), ok_bind,
    throwIf_of_not (not_not.mpr hcommit)]

theorem repair_lockDrop (hes : ∀ e ∈ es, e.WellFormed) {height round : Int} {blockHash : String}
    (hwf : (lockRow height round blockHash).WellFormed)
    (hq : q <+: (Entry.v6 (commitRow height round blockHash)).text)
    (hy : TornRecord (q ++ List.replicate k Json.nul)) :
    repairSigningJournalTail (journalText (es ++ [.v6 (lockRow height round blockHash)]) ++
        (q ++ List.replicate k Json.nul)) =
      .ok (.lockDrop (journalText es).length
        (journalText (es ++ [.v6 (lockRow height round blockHash)])).length) := by
  have hes' : ∀ e ∈ es ++ [.v6 (lockRow height round blockHash)], e.WellFormed := by
    intro e he
    rcases mem_append.mp he with he | he
    · exact hes e he
    · rw [mem_singleton.mp he]
      exact hwf
  obtain ⟨tail, hscan, htail, -, hprev⟩ :=
    scanTail_tail (es ++ [.v6 (lockRow height round blockHash)]) hy.notBlank
  have hcand : isV6LockRowCandidate
      (Json.parse (Entry.v6 (lockRow height round blockHash)).text) = true := by
    rw [parse_text]
    have hv : safeInteger? (some (.num 2)) = some 2 := by decide
    simp [isV6LockRowCandidate, Entry.members, V6JournalRow.members, Json.field, text?, lockRow,
      hv, V6JournalStep.name]
  rw [repairSigningJournalTail, journalRecords_tail hes' hy.short hy.nonempty, hscan, ok_bind,
    htail, hprev es _ rfl]
  simp [hy.isTorn, hcand, assertTornV6CommitOfLock_ok hwf hq]

/-! ### Opening a file with an unterminated record -/

theorem take_length_append (a b : List Char) : (a ++ b).take a.length = a := by
  rw [take_append_of_le_length (Nat.le_refl _), take_length]

namespace SigningJournal

/-- A complete record without its newline is replayed and terminated again. -/
theorem openFile_complete (hes : ∀ e ∈ es, e.WellFormed) {e : Entry} (he : e.WellFormed)
    {st : SigningJournal × Option V6JournalRow}
    (hst : replayEntries (.empty, none) (es ++ [e]) = .ok st) :
    openFile (journalText es ++ e.text) =
      st.1.completeLock st.2 >>= fun c => .ok ⟨c.1, none, '\n' :: c.2⟩ := by
  have hne : e.text ≠ [] := cons_ne_nil _ _
  have hreplay : empty.replayRows (journalText es ++ e.text) none = .ok st := by
    rw [replayRows, journalRecords_tail hes (short_text he) hne,
      replayRecords_journalText es 0 (.empty, none)]
    rw [replayEntries_append] at hst
    obtain ⟨st', hst', hlast⟩ := bind_eq_ok.mp hst
    rw [replayEntries_cons] at hlast
    obtain ⟨st'', hst'', hnil⟩ := bind_eq_ok.mp hlast
    rw [replayEntries_nil, Except.ok.injEq] at hnil
    have hline : st'.1.replayLine st'.2 (BoundedLine.record e.text false).text = .ok st := by
      rw [BoundedLine.record_text, hst'', hnil]
    have hblank : isBlank (BoundedLine.record e.text false).text = false := e.isBlank_text
    rw [hst', ok_bind, replayRecords, if_neg (by simp), hblank, if_neg (by decide), hline, ok_bind,
      replayRecords]
  rw [openFile, repair_complete hes he, ok_bind, probeRepair, ok_bind, truncated, hreplay, ok_bind]
  rfl

private theorem replayRows_until {es : List Entry} (hes : ∀ e ∈ es, e.WellFormed)
    {y : List Char} (hy : TornRecord y) :
    empty.replayRows (journalText es ++ y) (some (journalText es).length) =
      replayEntries (.empty, none) es := by
  have h := replayRecords_until es 0 (.empty, none) (BoundedLine.record y false) []
  rw [Nat.zero_add] at h
  rw [replayRows, journalRecords_tail hes hy.short hy.nonempty]
  exact h

theorem openFile_tailDrop {j : SigningJournal} (hes : ∀ e ∈ es, e.WellFormed)
    (hlast : ∀ fs e, es = fs ++ [e] → e.NotLock) (hy : TornRecord y)
    (hst : replayEntries (.empty, none) es = .ok (j, none)) :
    openFile (journalText es ++ y) = .ok ⟨j, some (journalText es).length, []⟩ := by
  rw [openFile, repair_torn hes hlast hy, ok_bind, probeRepair, replayRows_until hes hy, hst,
    ok_bind, ok_bind, truncated, take_length_append, replayRows_journalText hes, hst, ok_bind]
  rfl

variable {height round : Int} {blockHash : String}

/-- A lock row that was just replayed passes the check of a torn pair. -/
theorem assertTornAppendLock_ok {j : SigningJournal}
    (hopen : (j.v6HeightState height).RoundOpen round)
    (hmay : (j.v6HeightState height).MayLock round blockHash) :
    (j.applyV6Row (lockRow height round blockHash)).assertTornAppendLock
      (lockRow height round blockHash) = .ok () := by
  refine throwIf_of_not ?_
  rw [v6HeightState_applyV6Row, if_pos rfl, lockRow_height]
  rintro (htimeout | hvote | ⟨prepared, hget, hne⟩)
  · exact absurd hopen.1 (not_lt.mpr htimeout)
  · exact absurd hopen.2 (not_le.mpr hvote)
  · exact hne (hmay.1 prepared hget)

/-- A commit row that was cut short is dropped together with its lock row. -/
theorem openFile_lockDrop {j : SigningJournal} (hes : ∀ e ∈ es, e.WellFormed)
    (hwf : (lockRow height round blockHash).WellFormed)
    (hst : replayEntries (.empty, none) es = .ok (j, none))
    (hlock : replayEntries (j, none) [.v6 (lockRow height round blockHash)] = .ok (j.applyV6Row
      (lockRow height round blockHash), some (lockRow height round blockHash)))
    (hopen : (j.v6HeightState height).RoundOpen round)
    (hmay : (j.v6HeightState height).MayLock round blockHash) {q : List Char} {k : Nat}
    (hq : q <+: (Entry.v6 (commitRow height round blockHash)).text)
    (hy : TornRecord (q ++ List.replicate k Json.nul)) :
    openFile (journalText (es ++ [.v6 (lockRow height round blockHash)]) ++
        (q ++ List.replicate k Json.nul)) = .ok ⟨j, some (journalText es).length, []⟩ := by
  have hes' : ∀ e ∈ es ++ [.v6 (lockRow height round blockHash)], e.WellFormed := by
    intro e he
    rcases mem_append.mp he with he | he
    · exact hes e he
    · rw [mem_singleton.mp he]
      exact hwf
  have hprobe : replayEntries (.empty, none) (es ++ [.v6 (lockRow height round blockHash)]) =
      .ok (j.applyV6Row (lockRow height round blockHash),
        some (lockRow height round blockHash)) := by
    rw [replayEntries_append, hst, ok_bind, hlock]
  have htake : truncated (journalText (es ++ [.v6 (lockRow height round blockHash)]) ++
      (q ++ List.replicate k Json.nul)) (some (journalText es).length) = journalText es := by
    rw [truncated, journalText_append, append_assoc, take_length_append]
  rw [openFile, repair_lockDrop hes hwf hq hy, ok_bind, probeRepair, replayRows_until hes' hy,
    hprobe, ok_bind]
  simp only [assertTornAppendLock_ok hopen hmay, ok_bind]
  rw [htake, replayRows_journalText hes, hst, ok_bind]
  rfl

theorem completeLock_ok {j : SigningJournal}
    (hcommit : (j.applyV6Row (lockRow height round blockHash)).replayV6 (commitRow height round
      blockHash) (some (lockRow height round blockHash)) = .ok ((j.applyV6Row (lockRow height round
      blockHash)).applyV6Row (commitRow height round blockHash), none))
    (hopen : (j.v6HeightState height).RoundOpen round)
    (hmay : (j.v6HeightState height).MayLock round blockHash) :
    (j.applyV6Row (lockRow height round blockHash)).completeLock
        (some (lockRow height round blockHash)) =
      .ok ((j.applyV6Row (lockRow height round blockHash)).applyV6Row
        (commitRow height round blockHash), (Entry.v6 (commitRow height round blockHash)).line) := by
  rw [completeLock, assertTornAppendLock_ok hopen hmay, ok_bind]
  change ((j.applyV6Row (lockRow height round blockHash)).replayV6
    (commitRow height round blockHash) (some (lockRow height round blockHash)) >>= _) = _
  rw [hcommit, ok_bind, throwIf_of_not (by simp)]
  rfl

end SigningJournal

/-! ### The two outcomes of a cut append -/

theorem SigningJournal.Writes.last_notLock {j : SigningJournal} {fs : List Entry}
    (h : j.Writes fs) : ∀ gs e, fs = gs ++ [e] → e.NotLock := by
  intro gs e heq
  have hlast : fs.getLast? = some e := by rw [heq, List.getLast?_concat]
  cases h with
  | nothing => cases hlast
  | choice _ _ _ | mark _ _ =>
    rw [List.getLast?_singleton] at hlast
    cases hlast
    trivial
  | row _ hlock =>
    rw [List.getLast?_singleton] at hlast
    cases hlast
    exact hlock
  | pair =>
    rw [List.getLast?_cons_cons, List.getLast?_singleton] at hlast
    cases hlast
    intro hstep
    cases hstep

theorem History.last_notLock {es : List Entry} {j : SigningJournal} (h : History es j) :
    ∀ gs e, es = gs ++ [e] → e.NotLock := by
  induction h with
  | nil =>
    intro gs e heq
    simp at heq
  | @append es fs j hprior hwrites ih =>
    intro gs e heq
    rcases eq_nil_or_concat fs with rfl | ⟨fs', e', rfl⟩
    · rw [append_nil] at heq
      exact ih gs e heq
    · rw [concat_eq_append, ← append_assoc] at heq
      obtain ⟨-, he⟩ := append_inj' heq rfl
      rw [singleton_inj] at he
      subst he
      exact hwrites.last_notLock fs' e' (concat_eq_append ..)

/-- Opening a file dropped an append that was cut. -/
structure Opened.Dropped (o : Opened) (es : List Entry) (j : SigningJournal) : Prop where
  journal : o.journal = j
  truncatedTo : o.truncatedTo = some (journalText es).length
  appended : o.appended = []

/-- Opening a file kept or completed an append of which `x` was found. -/
structure Opened.Completed (o : Opened) (fs : List Entry) (j : SigningJournal) (x : List Char) :
    Prop where
  journal : o.journal = j.append fs
  truncatedTo : o.truncatedTo = none
  appended : journalText fs = x ++ o.appended

namespace SigningJournal

variable {j : SigningJournal} {fs : List Entry} {x : List Char}

theorem journalText_singleton (e : Entry) : journalText [e] = e.line := append_nil _

private theorem openFile_torn_single (h : History es j) {e : Entry} (hwrites : j.Writes [e])
    (hx : Torn Json.nul (journalText [e]) x) (hne : x ≠ []) :
    ∃ o, openFile (journalText es ++ x) = .ok o ∧ (o.Dropped es j ∨ o.Completed [e] j x) := by
  have he : e.WellFormed := hwrites.wellFormed e (mem_singleton_self e)
  have hall := h.append hwrites
  rw [journalText_singleton] at hx
  rcases torn_line_cases he hx with rfl | rfl | rfl | ⟨htorn, -⟩
  · exact absurd rfl hne
  · refine ⟨⟨j.append [e], none, []⟩, ?_, .inr ⟨rfl, rfl, ?_⟩⟩
    · rw [← journalText_singleton, ← journalText_append]
      exact hall.openFile
    · rw [journalText_singleton, append_nil]
  · refine ⟨⟨j.append [e], none, ['\n']⟩, ?_, .inr ⟨rfl, rfl, journalText_singleton e⟩⟩
    rw [openFile_complete h.wellFormed he hall.replayEntries]
    rfl
  · exact ⟨_, openFile_tailDrop h.wellFormed h.last_notLock htorn h.replayEntries,
      .inl ⟨rfl, rfl, rfl⟩⟩

/-- What is left of two lines: a part of the first, the first without its newline, or the first
and a cut second. -/
private theorem torn_pair_cases {l c : Entry} (hl : l.WellFormed) (hc : c.WellFormed)
    (hx : Torn Json.nul (l.line ++ c.line) x) :
    x = [] ∨ TornRecord x ∨ x = l.text ∨ ∃ y, Torn Json.nul c.line y ∧ x = l.line ++ y := by
  have hlenL := text_length hl
  have hlenC : c.line.length ≤ 401 := by
    have := text_length hc
    rw [Entry.line, length_append, length_singleton]
    omega
  rw [Entry.line, append_assoc] at hx
  rcases hx.split with ⟨p, t, k, htext, ht, hk, rfl⟩ | ⟨y, ⟨p, t, k, hpt, hk, rfl⟩, rfl⟩
  · by_cases hne : p ≠ [] ∨ 0 < k
    · refine .inr (.inl (tornRecord_of_cut hl htext (.inl ht) hne ?_))
      rw [htext, length_append] at hlenL
      rw [length_append, length_append, length_singleton] at hk
      rw [maxSigningLineBytes]
      omega
    · rw [not_or, not_not, not_lt, Nat.le_zero] at hne
      rw [hne.1, hne.2]
      exact .inl rfl
  · cases p with
    | nil =>
      rcases Nat.eq_zero_or_pos k with rfl | hpos
      · exact .inr (.inr (.inl (by simp)))
      · refine .inr (.inl ?_)
        have hnil : l.text = l.text ++ [] := (append_nil _).symm
        refine tornRecord_of_cut hl hnil (.inr hpos) (.inr hpos) ?_
        rw [nil_append] at hpt
        rw [← hpt, length_append, length_singleton] at hk
        rw [maxSigningLineBytes]
        omega
    | cons c' p =>
      rw [singleton_append, cons_append, List.cons.injEq] at hpt
      obtain ⟨rfl, hpt⟩ := hpt
      exact .inr (.inr (.inr ⟨p ++ List.replicate k Json.nul, ⟨p, t, k, hpt, hk, rfl⟩,
        by simp [Entry.line]⟩))

private theorem openFile_torn_pair (h : History es j) {height round : Int} {blockHash : String}
    (hwf : (lockRow height round blockHash).WellFormed) (noLegacy : height ∉ j.legacyHeights)
    (free : (j.v6HeightState height).rows.get (round, .commit) = none)
    (hopen : (j.v6HeightState height).RoundOpen round)
    (hmay : (j.v6HeightState height).MayLock round blockHash)
    (hx : Torn Json.nul (journalText [.v6 (lockRow height round blockHash),
      .v6 (commitRow height round blockHash)]) x) (hne : x ≠ []) :
    ∃ o, openFile (journalText es ++ x) = .ok o ∧ (o.Dropped es j ∨
      o.Completed [.v6 (lockRow height round blockHash), .v6 (commitRow height round blockHash)]
        j x) := by
  have hwfL : (Entry.v6 (lockRow height round blockHash)).WellFormed := hwf
  have hwfC : (Entry.v6 (commitRow height round blockHash)).WellFormed := commitRow_wellFormed hwf
  have hall := h.append (.pair hwf noLegacy free hopen hmay)
  have htext : journalText [.v6 (lockRow height round blockHash),
      .v6 (commitRow height round blockHash)] =
      (Entry.v6 (lockRow height round blockHash)).line ++
        (Entry.v6 (commitRow height round blockHash)).line :=
    congrArg ((Entry.v6 (lockRow height round blockHash)).line ++ ·) (append_nil _)
  obtain ⟨hlock, hcommit⟩ := replayEntries_pair noLegacy
    (fun v hv => by rw [free] at hv; cases hv) hopen hmay
  have hlockEntries : replayEntries (j, none) [.v6 (lockRow height round blockHash)] =
      .ok (j.applyV6Row (lockRow height round blockHash),
        some (lockRow height round blockHash)) := by
    rw [replayEntries_cons, replayLine_v6 _ _ hwf, hlock]
    rfl
  have hpending : replayEntries (.empty, none) (es ++ [.v6 (lockRow height round blockHash)]) =
      .ok (j.applyV6Row (lockRow height round blockHash),
        some (lockRow height round blockHash)) := by
    rw [replayEntries_append, h.replayEntries, ok_bind, hlockEntries]
  have hes' : ∀ e ∈ es ++ [.v6 (lockRow height round blockHash)], e.WellFormed := by
    intro e he
    rcases mem_append.mp he with he | he
    · exact h.wellFormed e he
    · rw [mem_singleton.mp he]
      exact hwf
  have hfile : ∀ y, journalText es ++ ((Entry.v6 (lockRow height round blockHash)).line ++ y) =
      journalText (es ++ [.v6 (lockRow height round blockHash)]) ++ y := by
    intro y
    rw [journalText_append, journalText_singleton, append_assoc]
  have hcompleted := completeLock_ok hcommit hopen hmay
  rw [htext] at hx
  rcases torn_pair_cases hwfL hwfC hx with rfl | htorn | rfl | ⟨y, hy, rfl⟩
  · exact absurd rfl hne
  · exact ⟨_, openFile_tailDrop h.wellFormed h.last_notLock htorn h.replayEntries,
      .inl ⟨rfl, rfl, rfl⟩⟩
  · -- the lock row lost its newline: it is terminated and completed
    have hreopened := openFile_complete h.wellFormed hwfL hpending
    rw [hcompleted] at hreopened
    refine ⟨_, hreopened, .inr ⟨rfl, rfl, ?_⟩⟩
    rw [htext, Entry.line, append_assoc]
    rfl
  · rcases torn_line_cases hwfC hy with rfl | rfl | rfl | ⟨htorn, q, k, hq, rfl⟩
    · -- a lone lock row is completed
      have hreopened := openFile_journalText hes' hpending
      rw [hcompleted] at hreopened
      rw [hfile, append_nil]
      refine ⟨_, hreopened, .inr ⟨rfl, rfl, ?_⟩⟩
      rw [htext, append_nil]
    · refine ⟨⟨_, none, []⟩, ?_, .inr ⟨rfl, rfl, ?_⟩⟩
      · rw [← htext, ← journalText_append]
        exact hall.openFile
      · rw [htext, append_nil]
    · -- the commit row lost its newline
      have hboth := hall.replayEntries
      rw [append_cons] at hboth
      refine ⟨⟨_, none, ['\n']⟩, ?_, .inr ⟨rfl, rfl, ?_⟩⟩
      · rw [hfile, openFile_complete hes' hwfC hboth]
        rfl
      · rw [htext, append_assoc]
        rfl
    · rw [hfile]
      exact ⟨_, openFile_lockDrop h.wellFormed hwf h.replayEntries hlockEntries hopen hmay hq htorn,
        .inl ⟨rfl, rfl, rfl⟩⟩

/-- Opening a file with a cut append: the append is dropped, or kept and completed. -/
theorem openFile_torn (h : History es j) (hwrites : j.Writes fs)
    (hx : Torn Json.nul (journalText fs) x) (hne : x ≠ []) :
    ∃ o, openFile (journalText es ++ x) = .ok o ∧ (o.Dropped es j ∨ o.Completed fs j x) := by
  cases hwrites with
  | nothing => exact absurd hx.of_nil hne
  | choice hwf hfree hnoV6 => exact openFile_torn_single h (.choice hwf hfree hnoV6) hx hne
  | mark hwf hnoV6 => exact openFile_torn_single h (.mark hwf hnoV6) hx hne
  | row hwf hlock hcommit hlegacy hfree hopen hsafe =>
    exact openFile_torn_single h (.row hwf hlock hcommit hlegacy hfree hopen hsafe) hx hne
  | pair hwf hlegacy hfree hopen hmay =>
    exact openFile_torn_pair h hwf hlegacy hfree hopen hmay hx hne

end SigningJournal

/-! ### Any sequence of crashes -/

/-- The files that a crash leaves during the repair that opening a file makes: in the middle of
the truncation, or with a cut of the text appended after it. -/
inductive Opened.Interrupted (o : Opened) (bytes : List Char) : List Char → Prop
  | truncating {cut length : Nat} (truncatedTo : o.truncatedTo = some cut) (le : cut ≤ length) :
      Interrupted o bytes (bytes.take length)
  | appending {cut : List Char} (torn : Torn Json.nul o.appended cut) :
      Interrupted o bytes (truncated bytes o.truncatedTo ++ cut)

/-- The files that crashes leave of an append to acknowledged bytes: a crash in the append itself,
then any number of crashes in the repairs of the openings that follow. -/
inductive CrashedFile (acknowledged append : List Char) : List Char → Prop
  | append {cut : List Char} (torn : Torn Json.nul append cut) :
      CrashedFile acknowledged append (acknowledged ++ cut)
  | repair {bytes bytes' : List Char} {o : Opened}
      (crashed : CrashedFile acknowledged append bytes)
      (opened : SigningJournal.openFile bytes = .ok o) (interrupted : o.Interrupted bytes bytes') :
      CrashedFile acknowledged append bytes'

namespace SigningJournal

variable {j : SigningJournal} {fs : List Entry} {x : List Char}

variable {bytes : List Char}

private theorem interrupted_torn {o : Opened} (ho : o.Dropped es j ∨ o.Completed fs j x)
    (hx : Torn Json.nul (journalText fs) x) (h : o.Interrupted (journalText es ++ x) bytes) :
    ∃ x', bytes = journalText es ++ x' ∧ Torn Json.nul (journalText fs) x' := by
  cases h with
  | @truncating cut length htrunc hle =>
    rcases ho with ho | ho
    · rw [ho.truncatedTo, Option.some.injEq] at htrunc
      refine ⟨x.take (length - (journalText es).length), ?_, hx.take _⟩
      rw [take_append, take_of_length_le (by omega)]
    · rw [ho.truncatedTo] at htrunc
      cases htrunc
  | @appending cut htorn =>
    rcases ho with ho | ho
    · rw [ho.appended] at htorn
      refine ⟨[], ?_, torn_nil _ _⟩
      rw [ho.truncatedTo, truncated, take_length_append, htorn.of_nil]
    · refine ⟨x ++ cut, ?_, ?_⟩
      · rw [ho.truncatedTo, truncated, append_assoc]
      · rw [ho.appended]
        exact htorn.append_left

/-- What crashes leave is the acknowledged bytes and a cut of the append, however often the repair
was interrupted. -/
theorem crashedFile_torn (h : History es j) (hwrites : j.Writes fs)
    (hc : CrashedFile (journalText es) (journalText fs) bytes) :
    ∃ x, bytes = journalText es ++ x ∧ Torn Json.nul (journalText fs) x := by
  induction hc with
  | append htorn => exact ⟨_, rfl, htorn⟩
  | @repair bytes bytes' o _ hopened hint ih =>
    obtain ⟨x, rfl, hx⟩ := ih
    by_cases hne : x = []
    · subst hne
      rw [append_nil] at hopened hint
      rw [h.openFile] at hopened
      cases hopened
      cases hint with
      | truncating htrunc => cases htrunc
      | appending htorn =>
        refine ⟨[], ?_, hx⟩
        rw [truncated, htorn.of_nil]
    · obtain ⟨o', ho', hcases⟩ := openFile_torn h hwrites hx hne
      rw [ho'] at hopened
      cases hopened
      exact interrupted_torn hcases hx hint

/-- Opening after any sequence of crashes: the state is the one before the append or the one after
it, and the file is that history's. -/
theorem openFile_crashed (h : History es j) (hwrites : j.Writes fs)
    (hc : CrashedFile (journalText es) (journalText fs) bytes) :
    ∃ o, openFile bytes = .ok o ∧
      (o.journal = j ∧ o.file bytes = journalText es ∨
        o.journal = j.append fs ∧ o.file bytes = journalText (es ++ fs)) := by
  obtain ⟨x, rfl, hx⟩ := crashedFile_torn h hwrites hc
  by_cases hne : x = []
  · refine ⟨⟨j, none, []⟩, ?_, .inl ⟨rfl, ?_⟩⟩
    · rw [hne, append_nil]
      exact h.openFile
    · rw [hne, append_nil]
      exact append_nil _
  · obtain ⟨o, ho, hcases⟩ := openFile_torn h hwrites hx hne
    refine ⟨o, ho, ?_⟩
    rcases hcases with hcase | hcase
    · refine .inl ⟨hcase.journal, ?_⟩
      rw [Opened.file, hcase.truncatedTo, hcase.appended, truncated, take_length_append, append_nil]
    · refine .inr ⟨hcase.journal, ?_⟩
      rw [Opened.file, hcase.truncatedTo, truncated, append_assoc, ← hcase.appended,
        journalText_append]

end SigningJournal

namespace LiveJournal

open SigningJournal

/-- The journals that a process has after calls, crashes in the middle of appends and of the
repairs of those, and restarts. -/
inductive Reachable : LiveJournal → Prop
  | fresh : Reachable .fresh
  | call {l : LiveJournal} (prior : Reachable l) (c : JournalCall) : Reachable (l.after c)
  | crash {l : LiveJournal} {request : JournalRequest} {fs : List Entry} {bytes : List Char}
      {o : Opened} (prior : Reachable l) (reserve : l.journal.reserve request = .ok fs)
      (crashed : CrashedFile l.file (journalText fs) bytes) (opened : openFile bytes = .ok o) :
      Reachable ⟨o.journal, o.file bytes⟩

variable {l : LiveJournal}

theorem Reachable.run (h : Reachable l) (calls : List JournalCall) : Reachable (l.run calls) := by
  induction calls generalizing l with
  | nil => exact h
  | cons c calls ih => exact ih (h.call c)

/-- Opening the file that crashes left of an append to a faithful journal. -/
theorem Faithful.openFile_crashed (h : l.Faithful) {request : JournalRequest} {fs : List Entry}
    (hres : l.journal.reserve request = .ok fs) {bytes : List Char}
    (hc : CrashedFile l.file (journalText fs) bytes) :
    ∃ o, openFile bytes = .ok o ∧ (LiveJournal.mk o.journal (o.file bytes)).Faithful ∧
      (o.journal.Same l.journal ∧ o.file bytes = l.file ∨
        o.journal.Same (l.journal.append fs) ∧ o.file bytes = l.file ++ journalText fs) := by
  obtain ⟨⟨es, j, hfile, hist, hsame⟩, -⟩ := h
  have hres' := hres
  rw [← reserve_same hsame hist.sound.usable (usable_of_reserve hres)] at hres'
  have hwrites := writes_of_reserve hres'
  have hist' := hist.append hwrites
  rw [hfile] at hc ⊢
  obtain ⟨o, ho, ⟨hj, hf⟩ | ⟨hj, hf⟩⟩ := SigningJournal.openFile_crashed hist hwrites hc
  · refine ⟨o, ho, ⟨⟨es, j, hf, hist, hj ▸ .refl j⟩, hj ▸ hist.sound.usable.2⟩, .inl ⟨?_, hf⟩⟩
    rw [hj]
    exact hsame
  · refine ⟨o, ho, ⟨⟨es ++ fs, _, hf, hist', hj ▸ .refl _⟩, hj ▸ hist'.sound.usable.2⟩,
      .inr ⟨?_, ?_⟩⟩
    · rw [hj]
      exact hsame.append fs
    · rw [hf, journalText_append]

/-- Opening the file of a faithful journal changes nothing. -/
theorem Faithful.openFile (h : l.Faithful) {o : Opened}
    (ho : SigningJournal.openFile l.file = .ok o) :
    (LiveJournal.mk o.journal (o.file l.file)).Faithful ∧ o.journal.Same l.journal := by
  obtain ⟨⟨es, j, hfile, hist, hsame⟩, -⟩ := h
  rw [hfile, hist.openFile] at ho
  cases ho
  refine ⟨⟨⟨es, j, ?_, hist, .refl j⟩, hist.sound.usable.2⟩, hsame⟩
  exact (append_nil l.file).trans hfile

theorem Reachable.faithful (h : Reachable l) : l.Faithful := by
  induction h with
  | fresh => exact faithful_fresh
  | call _ c ih => exact ih.after c
  | crash _ hres hc hopened ih =>
    obtain ⟨o, ho, hfaithful, -⟩ := ih.openFile_crashed hres hc
    rw [ho, Except.ok.injEq] at hopened
    rw [← hopened]
    exact hfaithful

/-- Crash atomicity: whatever crashes leave of an append, however often they interrupt the repair,
opening the journal succeeds; the state is the one before the append with the acknowledged file,
or the one after it with the whole append. -/
theorem crash_atomicity {l : LiveJournal} (h : Reachable l) {request : JournalRequest}
    {fs : List Entry} (hres : l.journal.reserve request = .ok fs) {bytes : List Char}
    (hc : CrashedFile l.file (journalText fs) bytes) :
    ∃ o, SigningJournal.open (some bytes) = .ok o ∧
      (o.journal.Same l.journal ∧ o.file bytes = l.file ∨
        o.journal.Same (l.journal.append fs) ∧ o.file bytes = l.file ++ journalText fs) := by
  obtain ⟨o, ho, -, hcases⟩ := h.faithful.openFile_crashed hres hc
  exact ⟨o, ho, hcases⟩

/-- A commit after a prepare of the same round: the append of its two rows is cut in the middle of
the commit row, with NUL characters behind the cut, and opening drops both rows. -/
theorem crash_atomicity_pair : let l := fresh.run [.reserve (.v6Prepare 5 0 sampleHash (-1))]
    let fs : List Entry := [.v6 (lockRow 5 0 sampleHash), .v6 (commitRow 5 0 sampleHash)]
    l.journal.reserve (.v6Commit 5 0 sampleHash) = .ok fs ∧
      ∃ o, SigningJournal.open (some (l.file ++ ((journalText fs).take 180 ++
          List.replicate 3 Json.nul))) = .ok o ∧
        (o.journal.Same l.journal ∧
            o.file (l.file ++ ((journalText fs).take 180 ++ List.replicate 3 Json.nul)) = l.file ∨
          o.journal.Same (l.journal.append fs) ∧
            o.file (l.file ++ ((journalText fs).take 180 ++ List.replicate 3 Json.nul)) =
              l.file ++ journalText fs) := by
  intro l fs
  have hres : l.journal.reserve (.v6Commit 5 0 sampleHash) = .ok fs := by decide +kernel
  have hl : Reachable l := Reachable.fresh.run _
  have htorn : Torn Json.nul (journalText fs)
      ((journalText fs).take 180 ++ List.replicate 3 Json.nul) :=
    ⟨_, _, 3, (take_append_drop 180 _).symm, by decide +kernel, rfl⟩
  exact ⟨hres, crash_atomicity hl hres (.append htorn)⟩

end LiveJournal

end ZyronChain
