import ZyronChain.Journal.Open

/-!
# Replaying what was written

A history is a list of records together with the state the reservations built while writing
them.  This file shows that replaying the text of a history rebuilds exactly that state, and
that a file made of whole records needs no repair.
-/

namespace ZyronChain

open Checks SigningJournal List Entry

namespace SigningJournal

/-! ### Replaying one record -/

private theorem decodeV6Row_members {row : V6JournalRow} (h : row.WellFormed) :
    decodeV6Row (.obj row.members) = .ok row := by
  obtain ⟨hheight, hpos, hround, hnonneg, hmax, hvalue, hlr⟩ := h
  obtain ⟨height, round, step, value, lockRound⟩ := row
  simp only at hheight hpos hround hnonneg hmax hvalue hlr
  have hnot : ¬ (height < 1 ∨ round < 0 ∨ round > v6MaxRound) := by omega
  subst hlr
  by_cases hlock : step = .lock
  · subst hlock
    simp [decodeV6Row, V6JournalRow.members, Json.field, Json.keys, text?,
      safeInteger?_num hheight, safeInteger?_num hround, hash64?_str hvalue]
    omega
  · simp [decodeV6Row, V6JournalRow.members, Json.field, Json.keys, text?, hlock,
      safeInteger?_num hheight, safeInteger?_num hround, hash64?_str hvalue]
    omega

theorem replayLine_v6 (j : SigningJournal) (p : Option V6JournalRow) {row : V6JournalRow}
    (h : row.WellFormed) : j.replayLine p (Entry.v6 row).text = j.replayV6 row p := by
  have hv : safeInteger? ((Json.obj row.members).field "v") = some 2 := by
    have : (Json.obj row.members).field "v" = some (.num 2) := by
      simp [V6JournalRow.members, Json.field]
    rw [this]
    decide
  rw [replayLine, complexity_text, parse_text, ok_bind]
  simp only [Entry.members, hv, if_true, replayV6Row, decodeV6Row_members h, ok_bind]

theorem replayLine_mark (j : SigningJournal) {height : Int} (h : (Entry.mark height).WellFormed) :
    j.replayLine none (Entry.mark height).text =
      throwIf (j.v6Heights.has height) mixedRows >>= fun _ => .ok (j.applyMark height, none) := by
  have hpos : ¬ height < 1 := not_lt.mpr h.2
  have hheight : safeInteger? ((Json.obj (Entry.mark height).members).field "height") =
      some height := by
    simp [Entry.members, Json.field, safeInteger?_num h.1]
  rw [replayLine, complexity_text, parse_text, ok_bind]
  simp only [replayMark, hheight]
  by_cases hmix : j.v6Heights.has height = true <;>
    simp [Entry.members, Json.field, Json.keys, safeInteger?, text?, hpos, throwIf, hmix]

theorem replayLine_choice (j : SigningJournal) {height round : Int} {kind : LegacyKind}
    {value : String} (h : (Entry.choice height round kind value).WellFormed) :
    j.replayLine none (Entry.choice height round kind value).text =
      throwIf (∃ p, j.reservations.get (height, round) = some p ∧ p ≠ (kind, value))
        conflictingHistory >>= fun _ =>
      throwIf (j.v6Heights.has height) mixedRows >>= fun _ =>
      .ok (j.applyChoice height round kind value, none) := by
  obtain ⟨hheight, -, hround, -, hvalue⟩ := h
  have hkind : kind.name ≠ "legacy" := by cases kind <;> decide
  have hfields : ∀ v : Json, v = .obj (Entry.choice height round kind value).members →
      v.field "v" = none ∧ v.field "height" = some (.num height) ∧
        v.field "round" = some (.num round) ∧ v.field "kind" = some (.str kind.name) ∧
        v.field "value" = some (.str value) := by
    rintro v rfl
    simp [Entry.members, Json.field]
  obtain ⟨hv, hh, hr, hk, hval⟩ := hfields _ rfl
  have hnone : safeInteger? none ≠ some 2 := by decide
  rw [replayLine, complexity_text, parse_text, ok_bind]
  simp only [replayChoice, hv, hh, hr, hk, hval, safeInteger?_num hheight,
    safeInteger?_num hround, hash64?_str hvalue, text?, Option.bind_some,
    LegacyKind.ofName?_name, Option.some.injEq, hkind, hnone, if_false]
  by_cases hconf : ∃ p, j.reservations.get (height, round) = some p ∧ p ≠ (kind, value)
  · simp [throwIf, hconf]
  · by_cases hmix : j.v6Heights.has height = true <;> simp [throwIf, hconf, hmix]

/-! ### Replaying a file -/

def replayEntries (st : SigningJournal × Option V6JournalRow) (es : List Entry) :
    Except String (SigningJournal × Option V6JournalRow) :=
  es.foldlM (fun st e => st.1.replayLine st.2 e.text) st

theorem replayEntries_append (st : SigningJournal × Option V6JournalRow) (es fs : List Entry) :
    replayEntries st (es ++ fs) = replayEntries st es >>= fun st' => replayEntries st' fs :=
  foldlM_append

@[simp] theorem replayEntries_nil (st : SigningJournal × Option V6JournalRow) :
    replayEntries st [] = .ok st := rfl

theorem replayEntries_cons (st : SigningJournal × Option V6JournalRow) (e : Entry)
    (es : List Entry) :
    replayEntries st (e :: es) =
      st.1.replayLine st.2 e.text >>= fun st' => replayEntries st' es := rfl

end SigningJournal

theorem Entry.text_eq (e : Entry) : ∃ s, e.text = '{' :: s := ⟨_, rfl⟩

theorem Entry.isBlank_text (e : Entry) : isBlank e.text = false := rfl

def Entry.record (e : Entry) : BoundedLine := BoundedLine.record e.text true

theorem Entry.length_line (e : Entry) : e.line.length = e.record.serializedBytes := by
  rw [line, length_append]
  rfl

theorem journalText_append (es fs : List Entry) :
    journalText (es ++ fs) = journalText es ++ journalText fs :=
  flatMap_append

variable {es : List Entry} {j : SigningJournal}

theorem journalRecords_journalText (hes : ∀ e ∈ es, e.WellFormed) (s : List Char) :
    journalRecords (journalText es ++ s) = es.map (fun e => .ok e.record) ++ journalRecords s := by
  have hshort : ∀ l ∈ es.map Entry.text, BoundedLine.Short maxSigningLineBytes l := by
    intro l hl
    obtain ⟨e, he, rfl⟩ := mem_map.mp hl
    exact short_text (hes e he)
  have h := BoundedLine.readLines_lines (o := "Corrupt signing journal") hshort s
  rw [flatMap_map, map_map] at h
  exact h

namespace SigningJournal

theorem length_journalText_cons (e : Entry) (es : List Entry) :
    (journalText (e :: es)).length = e.record.serializedBytes + (journalText es).length := by
  rw [journalText, flatMap_cons, length_append, e.length_line, journalText]

/-- Replaying a file of whole records, to its end. -/
theorem replayRecords_journalText (es : List Entry) (offset : Nat)
    (st : SigningJournal × Option V6JournalRow) (rest : List (Except String BoundedLine)) :
    replayRecords none (es.map (fun e => .ok e.record) ++ rest) offset st.1 st.2 =
      replayEntries st es >>= fun st' =>
        replayRecords none rest (offset + (journalText es).length) st'.1 st'.2 := by
  induction es generalizing offset st with
  | nil => rfl
  | cons e es ih =>
    rw [map_cons, cons_append, replayRecords, if_neg (by simp)]
    change (if isBlank e.text = true then _ else _) = _
    rw [isBlank_text, if_neg (by decide), replayEntries_cons]
    change (st.1.replayLine st.2 e.text >>= _) = _
    cases st.1.replayLine st.2 e.text with
    | error m => rfl
    | ok st' =>
      rw [ok_bind, ok_bind, ih]
      rw [length_journalText_cons, Nat.add_assoc]

/-- Replaying the records before an offset. -/
theorem replayRecords_until (es : List Entry) (offset : Nat)
    (st : SigningJournal × Option V6JournalRow) (r : BoundedLine)
    (rest : List (Except String BoundedLine)) :
    replayRecords (some (offset + (journalText es).length))
      (es.map (fun e => .ok e.record) ++ .ok r :: rest) offset st.1 st.2 =
      replayEntries st es := by
  induction es generalizing offset st with
  | nil => simp [replayRecords, journalText]
  | cons e es ih =>
    have hlen := length_journalText_cons e es
    have hpos : 0 < e.record.serializedBytes := Nat.succ_pos _
    have hbefore : ¬ ∃ stop, some (offset + (journalText (e :: es)).length) = some stop ∧
        offset ≥ stop := by
      rintro ⟨stop, hstop, hge⟩
      rw [Option.some.injEq] at hstop
      omega
    rw [map_cons, cons_append, replayRecords, if_neg hbefore]
    change (if isBlank e.text = true then _ else _) = _
    rw [isBlank_text, if_neg (by decide), replayEntries_cons]
    change (st.1.replayLine st.2 e.text >>= _) = _
    cases st.1.replayLine st.2 e.text with
    | error m => rfl
    | ok st' =>
      rw [ok_bind, ok_bind, hlen, ← Nat.add_assoc, ih]

end SigningJournal

/-! ### Histories -/

/-- The lists of records that reservations write, each with the state built on the way. -/
inductive History : List Entry → SigningJournal → Prop
  | nil : History [] .empty
  | append {es fs : List Entry} {j : SigningJournal} (prior : History es j) (writes : j.Writes fs) :
      History (es ++ fs) (j.append fs)

theorem SigningJournal.Writes.wellFormed {fs : List Entry} (h : j.Writes fs) :
    ∀ e ∈ fs, e.WellFormed := by
  cases h with
  | nothing => simp
  | choice hwf => simpa using hwf
  | mark hwf => simpa using hwf
  | row hwf =>
    intro e he
    rw [mem_singleton.mp he]
    exact hwf
  | pair hwf =>
    intro e he
    rcases mem_cons.mp he with rfl | he
    · exact hwf
    · rw [mem_singleton.mp he]
      exact commitRow_wellFormed hwf

theorem History.wellFormed (h : History es j) : ∀ e ∈ es, e.WellFormed := by
  induction h with
  | nil => simp
  | append _ hwrites ih =>
    intro e he
    rcases mem_append.mp he with he | he
    · exact ih e he
    · exact hwrites.wellFormed e he

namespace SigningJournal

/-- The row is the commit row a pending lock row waits for. -/
def Completes (row : V6JournalRow) (pendingLock : Option V6JournalRow) : Prop :=
  ∀ l, pendingLock = some l →
    row.step = .commit ∧ row.height = l.height ∧ row.round = l.round ∧ row.value = l.value

theorem completes_none (row : V6JournalRow) : Completes row none := by
  intro l hl
  cases hl

theorem replayV6_eq_ok {j : SigningJournal} {row : V6JournalRow} {p : Option V6JournalRow}
    {r : SigningJournal × Option V6JournalRow} :
    j.replayV6 row p = .ok r ↔ Completes row p ∧ row.height ∉ j.legacyHeights ∧
      (if row.step = .lock then
        (j.v6HeightState row.height).RoundOpen row.round ∧
          (j.v6HeightState row.height).MayLock row.round row.value
      else ∀ v, (j.v6HeightState row.height).rows.get (row.round, row.step) = some v →
        v = row.value) ∧
      r = (j.applyV6Row row, if row.step = .lock then some row else none) := by
  have hcompletes : (¬ ∃ l, p = some l ∧ (row.step ≠ .commit ∨ row.height ≠ l.height ∨
      row.round ≠ l.round ∨ row.value ≠ l.value)) ↔ Completes row p := by
    simp only [Completes, not_exists, not_and, not_or, not_not]
  by_cases hlock : row.step = .lock
  · have hmove : (¬ ∃ l, (j.v6HeightState row.height).lock = some l ∧
        (l.round > row.round ∨ l.round = row.round ∧ l.blockHash ≠ row.value)) ↔
        ∀ l, (j.v6HeightState row.height).lock = some l →
          l.round < row.round ∨ (l.round = row.round ∧ l.blockHash = row.value) := by
      simp only [not_exists, not_and, not_or, not_not]
      refine forall_congr' fun l => imp_congr_right fun _ => ?_
      constructor
      · rintro ⟨h1, h2⟩
        rcases lt_trichotomy l.round row.round with h | h | h
        · exact .inl h
        · exact .inr ⟨h, h2 h⟩
        · exact absurd h h1
      · rintro (h | ⟨h, h'⟩)
        · exact ⟨by omega, fun h'' => by omega⟩
        · exact ⟨by omega, fun _ => h'⟩
    have hrefused : (¬ lockRefused (j.v6HeightState row.height) row) ↔
        (j.v6HeightState row.height).RoundOpen row.round ∧
          ∀ p, (j.v6HeightState row.height).rows.get (row.round, .prepare) = some p →
            p = row.value := by
      simp only [lockRefused, V6HeightJournal.RoundOpen, not_or, not_exists, not_and, not_not,
        ge_iff_le, gt_iff_lt, not_le, not_lt, and_assoc]
    simp only [replayV6, if_pos hlock, throwIf_bind_eq_ok, hcompletes, hmove, hrefused,
      V6HeightJournal.MayLock, Except.ok.injEq, eq_comm (a := r)]
    tauto
  · have hfree : (¬ ∃ v, (j.v6HeightState row.height).rows.get (row.round, row.step) = some v ∧
        v ≠ row.value) ↔ ∀ v, (j.v6HeightState row.height).rows.get (row.round, row.step) = some v →
          v = row.value := by
      simp only [not_exists, not_and, not_not]
    simp only [replayV6, if_neg hlock, throwIf_bind_eq_ok, hcompletes, hfree, Except.ok.injEq,
      eq_comm (a := r)]

end SigningJournal

/-! ### Replaying a history -/

theorem JsMap_has_eq_false {K V : Type} [DecidableEq K] {m : JsMap K V} {k : K}
    (h : m.get k = none) : ¬ m.has k = true := by
  simp [JsMap.has, h]

theorem SigningJournal.replayEntries_pair {height round : Int} {blockHash : String}
    (noLegacy : height ∉ j.legacyHeights)
    (free : ∀ v, (j.v6HeightState height).rows.get (round, .commit) = some v → v = blockHash)
    (roundOpen : (j.v6HeightState height).RoundOpen round)
    (mayLock : (j.v6HeightState height).MayLock round blockHash) :
    j.replayV6 (lockRow height round blockHash) none =
        .ok (j.applyV6Row (lockRow height round blockHash), some (lockRow height round blockHash)) ∧
      (j.applyV6Row (lockRow height round blockHash)).replayV6 (commitRow height round blockHash)
          (some (lockRow height round blockHash)) =
        .ok ((j.applyV6Row (lockRow height round blockHash)).applyV6Row
          (commitRow height round blockHash), none) := by
  refine ⟨replayV6_eq_ok.mpr ⟨completes_none _, noLegacy, ?_, rfl⟩,
    replayV6_eq_ok.mpr ⟨?_, noLegacy, ?_, rfl⟩⟩
  · rw [lockRow_step, if_pos rfl]
    exact ⟨roundOpen, mayLock⟩
  · intro l hl
    cases hl
    exact ⟨rfl, rfl, rfl, rfl⟩
  · rw [commitRow_step, if_neg (by decide), v6HeightState_applyV6Row, lockRow_height,
      commitRow_height, if_pos rfl]
    exact free

/-- The replay of the records of one reservation. -/
theorem SigningJournal.Writes.replayEntries {fs : List Entry} (h : j.Writes fs) :
    replayEntries (j, none) fs = .ok (j.append fs, none) := by
  cases h with
  | nothing => rfl
  | choice hwf hfree hnoV6 =>
    rw [replayEntries_cons, replayLine_choice _ hwf, throwIf_of_not (by simp [hfree]), ok_bind,
      throwIf_of_not (JsMap_has_eq_false hnoV6)]
    rfl
  | mark hwf hnoV6 =>
    rw [replayEntries_cons, replayLine_mark _ hwf, throwIf_of_not (JsMap_has_eq_false hnoV6)]
    rfl
  | @row row hwf hlock _ hnoLegacy hfree =>
    have hstep : j.replayV6 row none = .ok (j.applyV6Row row, none) := by
      refine replayV6_eq_ok.mpr ⟨completes_none _, hnoLegacy, ?_, by rw [if_neg hlock]⟩
      rw [if_neg hlock, hfree]
      intro v hv
      cases hv
    rw [replayEntries_cons, replayLine_v6 _ _ hwf, hstep]
    rfl
  | pair hwf hnoLegacy hfree hopen hmay =>
    obtain ⟨hlock, hcommit⟩ := replayEntries_pair hnoLegacy
      (fun v hv => by rw [hfree] at hv; cases hv) hopen hmay
    rw [replayEntries_cons, replayLine_v6 _ _ hwf, hlock, ok_bind, replayEntries_cons,
      replayLine_v6 _ _ (commitRow_wellFormed hwf), hcommit]
    rfl

/-- The replay of a history rebuilds its state. -/
theorem History.replayEntries (h : History es j) :
    replayEntries (.empty, none) es = .ok (j, none) := by
  induction h with
  | nil => rfl
  | append _ hwrites ih =>
    rw [replayEntries_append, ih, ok_bind, hwrites.replayEntries]

/-! ### Opening the file of a history -/

/-- The loop over a file of whole records ends at the last two of them. -/
theorem scanTail_journalText (es : List Entry) (offset : Nat) (tail : Tail)
    (rest : List (Except String BoundedLine)) :
    ∃ tail', scanTail (es.map (fun e => .ok e.record) ++ rest) offset tail =
        scanTail rest (offset + (journalText es).length) tail' ∧
      (es = [] → tail' = tail) ∧
      ∀ fs e, es = fs ++ [e] → tail'.last = some (offset + (journalText fs).length, e.record) := by
  induction es generalizing offset tail with
  | nil => exact ⟨tail, rfl, fun _ => rfl, fun fs e h => by simp at h⟩
  | cons e es ih =>
    obtain ⟨tail', hscan, hnil, hlast⟩ :=
      ih (offset + e.record.serializedBytes) (tail.push offset e.record)
    refine ⟨tail', ?_, by simp, ?_⟩
    · rw [map_cons, cons_append, scanTail]
      change scanTail _ _ (if isBlank e.text = true then _ else _) = _
      rw [isBlank_text, if_neg (by decide), hscan, length_journalText_cons, Nat.add_assoc]
    · intro fs e' hfs
      cases fs with
      | nil =>
        simp only [nil_append, List.cons.injEq] at hfs
        obtain ⟨rfl, rfl⟩ := hfs
        rw [hnil rfl]
        rfl
      | cons f fs =>
        simp only [cons_append, List.cons.injEq] at hfs
        obtain ⟨rfl, rfl⟩ := hfs
        rw [hlast fs e' rfl, length_journalText_cons, Nat.add_assoc]

theorem repairSigningJournalTail_journalText (hes : ∀ e ∈ es, e.WellFormed) :
    repairSigningJournalTail (journalText es) = .ok .none := by
  have hrec := journalRecords_journalText hes []
  rw [append_nil] at hrec
  obtain ⟨tail, hscan, hnil, hlast⟩ := scanTail_journalText es 0 ⟨none, none⟩ []
  rw [repairSigningJournalTail, hrec]
  change (scanTail (es.map (fun e => .ok e.record) ++ []) 0 ⟨none, none⟩ >>= _) = _
  rw [hscan, scanTail, ok_bind]
  rcases eq_nil_or_concat es with rfl | ⟨fs, e, rfl⟩
  · rw [hnil rfl]
  · rw [concat_eq_append] at hlast
    rw [hlast fs e rfl]
    rfl

theorem SigningJournal.replayRows_journalText (hes : ∀ e ∈ es, e.WellFormed) :
    empty.replayRows (journalText es) none = replayEntries (.empty, none) es := by
  have hrec := journalRecords_journalText hes []
  rw [append_nil] at hrec
  have hreplay := replayRecords_journalText es 0 (.empty, none) []
  rw [replayRows, hrec]
  change replayRecords none (es.map (fun e => .ok e.record) ++ []) 0 _ _ = _
  rw [hreplay]
  exact bind_pure _

/-- Opening a file of whole records changes nothing of them; a lone lock row is completed. -/
theorem SigningJournal.openFile_journalText (hes : ∀ e ∈ es, e.WellFormed)
    {st : SigningJournal × Option V6JournalRow}
    (hst : replayEntries (.empty, none) es = .ok st) :
    openFile (journalText es) = st.1.completeLock st.2 >>= fun c => .ok ⟨c.1, none, c.2⟩ := by
  rw [openFile, repairSigningJournalTail_journalText hes, ok_bind,
    probeRepair, ok_bind, truncated, replayRows_journalText hes, hst]
  rfl

/-- Opening the file of a history rebuilds its state and changes nothing. -/
theorem History.openFile (h : History es j) :
    openFile (journalText es) = .ok ⟨j, none, []⟩ :=
  openFile_journalText h.wellFormed h.replayEntries

end ZyronChain
