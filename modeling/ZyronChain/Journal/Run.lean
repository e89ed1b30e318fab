import ZyronChain.Journal.Compact

/-!
# Runs of a signing journal

A process calls the reservation methods, compacts, closes and reopens its journal in any order.
Every such run keeps the file the text of a history whose state is the one in memory, so that
reopening changes nothing, a slot keeps its value as long as its height is retained, and the
lock of a height only moves up.

## Main definitions

* `LiveJournal` : a journal in memory and its file.
* `JournalCall`, `LiveJournal.after`, `LiveJournal.run` : the calls and their effect.
* `LiveJournal.Faithful` : the file is the text of a history with the state in memory.

## Main results

* `LiveJournal.Faithful.after`, `LiveJournal.Faithful.run` : one call and every run keep it.
* `LiveJournal.run_invariants` : what holds after every run.
-/

namespace ZyronChain

open List JsMap V6HeightJournal

/-- A journal in memory and its file. -/
structure LiveJournal where
  journal : SigningJournal
  file : List Char

/-- The calls of a process that owns a journal. -/
inductive JournalCall where
  | reserve (request : JournalRequest)
  | compactThrough (finalizedHeight : Int)
  | close
  | «open»

namespace LiveJournal

/-- A journal opened where no file existed. -/
def fresh : LiveJournal := ⟨.empty, []⟩

/-- The state after a call.  A call that throws leaves the file as it was; the lease keeps a
journal from being opened twice. -/
def after (l : LiveJournal) : JournalCall → LiveJournal
  | .reserve request =>
    match l.journal.reserve request with
    | .ok es => ⟨l.journal.append es, l.file ++ journalText es⟩
    | .error _ => l
  | .compactThrough finalizedHeight =>
    { journal := l.journal.afterCompaction finalizedHeight
      file := match l.journal.compactThrough finalizedHeight with
        | .replaced es => journalText es
        | _ => l.file }
  | .close => { l with journal := { l.journal with closed := true } }
  | .open =>
    if l.journal.closed then
      match SigningJournal.open (some l.file) with
      | .ok o => ⟨o.journal, o.file l.file⟩
      | .error _ => l
    else l

/-- The state after a sequence of calls. -/
def run (l : LiveJournal) (calls : List JournalCall) : LiveJournal := calls.foldl after l

/-- The file is the text of a history, and the state in memory is that history's. -/
structure Faithful (l : LiveJournal) : Prop where
  history : ∃ es j, l.file = journalText es ∧ History es j ∧ j.Same l.journal
  healthy : l.journal.persistenceFaulted = false

theorem faithful_fresh : fresh.Faithful := ⟨⟨[], .empty, rfl, .nil, .refl _⟩, rfl⟩

variable {l : LiveJournal}

theorem Faithful.v6Sound (h : l.Faithful) (height : Int) :
    (l.journal.v6HeightState height).Sound := by
  obtain ⟨⟨es, j, -, hist, hsame⟩, -⟩ := h
  rw [← hsame.v6HeightState]
  exact hist.sound.heights height

/-- A height of a faithful journal has rows of one protocol. -/
theorem Faithful.noMix (h : l.Faithful) {height : Int} (hlegacy : height ∈ l.journal.legacyHeights) :
    l.journal.v6HeightState height = .empty := by
  obtain ⟨⟨es, j, -, hist, hsame⟩, -⟩ := h
  rw [← hsame.legacyHeights] at hlegacy
  rw [← hsame.v6HeightState, SigningJournal.v6HeightState, hist.sound.noMix height hlegacy]
  rfl

/-- A height of a faithful journal with a reservation is marked. -/
theorem Faithful.legacy_of_reservation (h : l.Faithful) {height round : Int}
    {ballot : LegacyKind × String} (hget : l.journal.reservations.get (height, round) = some ballot) :
    height ∈ l.journal.legacyHeights := by
  obtain ⟨⟨es, j, -, hist, hsame⟩, -⟩ := h
  rw [← hsame.legacyHeights, hist.sound.legacy_iff]
  exact .inr ⟨round, ballot, (hsame.reservations _).trans hget⟩

end LiveJournal

namespace SigningJournal

/-! ### One call -/

theorem flags_append (j : SigningJournal) (es : List Entry) :
    (j.append es).closed = j.closed ∧ (j.append es).persistenceFaulted = j.persistenceFaulted := by
  induction es generalizing j with
  | nil => exact ⟨rfl, rfl⟩
  | cons e es ih =>
    have he : (j.applyEntry e).closed = j.closed ∧
        (j.applyEntry e).persistenceFaulted = j.persistenceFaulted := by
      cases e <;> exact ⟨rfl, rfl⟩
    exact ⟨(ih _).1.trans he.1, (ih _).2.trans he.2⟩

/-- A call is only answered by a journal that is open and healthy. -/
theorem usable_of_reserve {j : SigningJournal} {r : JournalRequest} {es : List Entry}
    (h : j.reserve r = .ok es) : j.Usable := by
  have hv6 : ∀ {height round : Int} {value : String} {f : Unit → Except String (List Entry)},
      (j.assertV6Writable height round value >>= f) = .ok es → j.Usable := by
    intro height round value f hf
    obtain ⟨u, hw, -⟩ := Checks.bind_eq_ok.mp hf
    exact (assertV6Writable_eq_ok.mp hw).1
  have hlegacy : ∀ {f : Unit → Except String (List Entry)},
      (j.assertUsable >>= f) = .ok es → j.Usable := by
    intro f hf
    obtain ⟨u, hu, -⟩ := Checks.bind_eq_ok.mp hf
    exact assertUsable_eq_ok.mp hu
  cases r with
  | attestation | skip | legacyHeight => exact hlegacy h
  | v6 | v6Prepare | v6Commit => exact hv6 h

/-- A compaction with nothing to remove finds every height retained. -/
theorem same_restrict_of_removedCount {j : SigningJournal} (hs : j.Sound) {m : SigningJournal}
    (hm : j.Same m) {finalizedHeight : Int} (h : m.removedCount finalizedHeight = 0) :
    m.Same (m.restrict finalizedHeight) := by
  have hparts : (m.reservations.entries.filter fun e => e.1.1 ≤ finalizedHeight).length = 0 ∧
      m.v6Rows.length - (m.retainedV6 finalizedHeight).length = 0 ∧
      m.legacyMarks.card - (m.legacyMarks.filter (· > finalizedHeight)).card = 0 := by
    unfold removedCount at h
    omega
  obtain ⟨hres, hrows, hmarks⟩ := hparts
  have hres' : ∀ k v, m.reservations.get k = some v → k.1 > finalizedHeight := by
    intro k v hv
    by_contra hle
    have hmem : (k, v) ∈ m.reservations.entries.filter fun e => e.1.1 ≤ finalizedHeight :=
      mem_filter.mpr ⟨get_eq_some_iff.mp hv, by simpa using hle⟩
    rw [length_eq_zero_iff.mp hres] at hmem
    cases hmem
  have hrows' : ∀ row ∈ m.v6Rows, row.height > finalizedHeight := by
    have hsub : (m.retainedV6 finalizedHeight).Sublist m.v6Rows := filter_sublist
    have heq := hsub.eq_of_length_le (by omega)
    intro row hrow
    rw [← heq] at hrow
    simpa using (mem_filter.mp hrow).2
  have hmarks' : ∀ x ∈ m.legacyMarks, x > finalizedHeight := by
    have heq := Finset.eq_of_subset_of_card_le
      (Finset.filter_subset (· > finalizedHeight) m.legacyMarks) (by omega)
    intro x hx
    rw [← heq] at hx
    exact (Finset.mem_filter.mp hx).2
  have hlegacy' : ∀ x ∈ m.legacyHeights, x > finalizedHeight := by
    intro x hx
    rw [← hm.legacyHeights] at hx
    rcases (hs.legacy_iff x).mp hx with hx | ⟨r, v, hv⟩
    · exact hmarks' x (hm.legacyMarks ▸ hx)
    · rw [hm.reservations] at hv
      exact hres' (x, r) v hv
  refine ⟨fun k => ?_, ?_, ?_, ?_, ?_⟩
  · change _ = (m.reservations.keep _).get k
    rw [keep_eq_self]
    intro k hk
    obtain ⟨v, hv⟩ := Option.ne_none_iff_exists'.mp hk
    simpa using hres' k v hv
  · exact (Finset.filter_true_of_mem hlegacy').symm
  · exact (Finset.filter_true_of_mem hmarks').symm
  · have hkeep : (m.v6Heights.keep fun h => h > finalizedHeight) = m.v6Heights := by
      refine keep_eq_self fun h hh => ?_
      rw [← hm.v6Heights] at hh
      obtain ⟨row, hrow, rfl⟩ := hs.height_row h hh
      simpa using hrows' row (hm.v6Rows ▸ hrow)
    exact hkeep.symm
  · refine (filter_eq_self.mpr fun row hrow => ?_).symm
    simpa using hrows' row hrow

theorem compactThrough_cases {j m : SigningJournal} (hs : j.Sound) (hm : j.Same m)
    (finalizedHeight : Int) :
    (∃ message, m.compactThrough finalizedHeight = .refused message ∧
        ¬ (m.Usable ∧ IsSafeInteger finalizedHeight ∧ 0 ≤ finalizedHeight)) ∨
      (m.compactThrough finalizedHeight = .unchanged ∧ m.Same (m.restrict finalizedHeight)) ∨
      m.compactThrough finalizedHeight = .replaced (m.compactedEntries finalizedHeight) := by
  have hentry : ∀ e ∈ m.reservations.entries, (choiceEntry e).WellFormed := by
    intro e he
    have hget := get_eq_some_iff.mpr he
    rw [← hm.reservations] at hget
    exact hs.reservation_wellFormed e.1.1 e.1.2 e.2.1 e.2.2 hget
  have hcorrupt : ¬ ∃ e ∈ m.reservations.entries, corruptReservation e := by
    rintro ⟨e, he, hbad⟩
    obtain ⟨h1, h2, h3, h4, h5⟩ := hentry e he
    rcases hbad with hbad | hbad | hbad | hbad | hbad
    · exact hbad h1
    · omega
    · exact hbad h3
    · omega
    · exact hbad h5
  have hlong : ¬ ∃ e ∈ m.retainedChoices finalizedHeight ++
      (m.retainedV6 finalizedHeight).map .v6, e.line.length > maxSigningLineBytes := by
    rintro ⟨e, he, hlen⟩
    have hwf : e.WellFormed := by
      rcases mem_append.mp he with he | he
      · obtain ⟨e', he', rfl⟩ := mem_map.mp he
        rw [mem_mergeSort] at he'
        exact hentry e' (mem_of_mem_filter he')
      · obtain ⟨row, hrow, rfl⟩ := mem_map.mp he
        have := mem_of_mem_filter hrow
        exact hs.row_wellFormed row (hm.v6Rows ▸ this)
    have := Entry.text_length hwf
    rw [Entry.line, length_append, length_singleton, maxSigningLineBytes] at hlen
    omega
  by_cases husable : m.Usable
  · have hok : m.assertUsable = .ok () := assertUsable_eq_ok.mpr husable
    by_cases hbad : ¬ IsSafeInteger finalizedHeight ∨ finalizedHeight < 0
    · refine .inl ⟨_, by rw [compactThrough, hok]; exact if_pos hbad, ?_⟩
      rintro ⟨-, hsafe, hnonneg⟩
      rcases hbad with hbad | hbad
      · exact hbad hsafe
      · omega
    · by_cases hzero : m.removedCount finalizedHeight = 0
      · refine .inr (.inl ⟨?_, same_restrict_of_removedCount hs hm hzero⟩)
        simp only [compactThrough, hok, if_neg hbad, if_neg hcorrupt, if_pos hzero]
      · refine .inr (.inr ?_)
        simp only [compactThrough, hok, if_neg hbad, if_neg hcorrupt, if_neg hzero, if_neg hlong]
  · cases hres : m.assertUsable with
    | ok u => exact absurd (assertUsable_eq_ok.mp hres) husable
    | error message =>
      exact .inl ⟨message, by rw [compactThrough, hres], fun h => husable h.1⟩

end SigningJournal

namespace LiveJournal

variable {l : LiveJournal} {es : List Entry}

theorem after_reserve_ok {r : JournalRequest} (h : l.journal.reserve r = .ok es) :
    l.after (.reserve r) = ⟨l.journal.append es, l.file ++ journalText es⟩ := by
  simp only [after, h]

theorem after_reserve_error {r : JournalRequest} {e : String} (h : l.journal.reserve r = .error e) :
    l.after (.reserve r) = l := by
  simp only [after, h]

theorem after_compactThrough_unchanged {finalizedHeight : Int}
    (h : (∃ e, l.journal.compactThrough finalizedHeight = .refused e) ∨ l.journal.compactThrough
      finalizedHeight = .unchanged) : l.after (.compactThrough finalizedHeight) = l := by
  rcases h with ⟨e, h⟩ | h <;> simp only [after, SigningJournal.afterCompaction, h]

theorem after_compactThrough_replaced {finalizedHeight : Int}
    (h : l.journal.compactThrough finalizedHeight = .replaced es) :
    l.after (.compactThrough finalizedHeight) =
      ⟨l.journal.restrict finalizedHeight, journalText es⟩ := by
  simp only [after, SigningJournal.afterCompaction, h]

theorem after_open {j : SigningJournal} (hfile : l.file = journalText es) (h : History es j)
    (hclosed : l.journal.closed = true) : l.after .open = ⟨j, l.file⟩ := by
  simp [after, hclosed, hfile, SigningJournal.open, h.openFile, Opened.file, truncated]

/-- One call keeps the file faithful. -/
theorem Faithful.after (h : l.Faithful) (c : JournalCall) : (l.after c).Faithful := by
  obtain ⟨⟨es, j, hfile, hist, hsame⟩, hhealthy⟩ := h
  have hs := hist.sound
  cases c with
  | reserve request =>
    cases hres : l.journal.reserve request with
    | error e =>
      rw [after_reserve_error hres]
      exact ⟨⟨es, j, hfile, hist, hsame⟩, hhealthy⟩
    | ok fs =>
      rw [after_reserve_ok hres]
      have hu := SigningJournal.usable_of_reserve hres
      rw [← SigningJournal.reserve_same hsame hs.usable hu] at hres
      refine ⟨⟨es ++ fs, j.append fs, ?_, hist.append (SigningJournal.writes_of_reserve hres),
        hsame.append fs⟩, ?_⟩
      · rw [journalText_append, hfile]
      · exact (SigningJournal.flags_append _ _).2.trans hhealthy
  | compactThrough finalizedHeight =>
    rcases SigningJournal.compactThrough_cases hs hsame finalizedHeight with
      ⟨message, heq, -⟩ | ⟨heq, -⟩ | heq
    · rw [after_compactThrough_unchanged (.inl ⟨message, heq⟩)]
      exact ⟨⟨es, j, hfile, hist, hsame⟩, hhealthy⟩
    · rw [after_compactThrough_unchanged (.inr heq)]
      exact ⟨⟨es, j, hfile, hist, hsame⟩, hhealthy⟩
    · rw [after_compactThrough_replaced heq]
      obtain ⟨k, hk, hsame'⟩ := hist.compact hsame finalizedHeight
      exact ⟨⟨_, k, rfl, hk, hsame'⟩, hhealthy⟩
  | close => exact ⟨⟨es, j, hfile, hist, ⟨hsame.1, hsame.2, hsame.3, hsame.4, hsame.5⟩⟩, hhealthy⟩
  | «open» =>
    by_cases hclosed : l.journal.closed = true
    · rw [after_open hfile hist hclosed]
      exact ⟨⟨es, j, hfile, hist, .refl j⟩, hs.usable.2⟩
    · have heq : l.after .open = l := by simp [LiveJournal.after, hclosed]
      rw [heq]
      exact ⟨⟨es, j, hfile, hist, hsame⟩, hhealthy⟩

/-- Every run keeps the file faithful. -/
theorem Faithful.run (h : l.Faithful) (cs : List JournalCall) : (l.run cs).Faithful := by
  induction cs generalizing l with
  | nil => exact h
  | cons c cs ih => exact ih (h.after c)

end LiveJournal

/-! ### What a retained height keeps -/

namespace SigningJournal

/-- Every slot of the height that has a value keeps it, and the lock does not move down. -/
structure Keeps (height : Int) (j k : SigningJournal) : Prop where
  reservations : ∀ r v, j.reservations.get (height, r) = some v →
    k.reservations.get (height, r) = some v
  rows : ∀ r s v, (j.v6HeightState height).rows.get (r, s) = some v →
    (k.v6HeightState height).rows.get (r, s) = some v
  lock : ∀ l, (j.v6HeightState height).lock = some l →
    ∃ l', (k.v6HeightState height).lock = some l' ∧ l.round ≤ l'.round

variable {height : Int} {j k : SigningJournal}

theorem Same.keeps (h : j.Same k) : Keeps height j k := by
  refine ⟨fun r v hv => by rw [← h.reservations]; exact hv, ?_, ?_⟩
  · intro r s v hv
    rw [← h.v6HeightState]
    exact hv
  · intro l hl
    exact ⟨l, by rw [← h.v6HeightState]; exact hl, le_rfl⟩

theorem Keeps.refl (height : Int) (j : SigningJournal) : Keeps height j j := (Same.refl j).keeps

theorem Keeps.trans {l : SigningJournal} (h : Keeps height j k) (h' : Keeps height k l) :
    Keeps height j l := by
  refine ⟨fun r v hv => h'.1 r v (h.1 r v hv), fun r s v hv => h'.2 r s v (h.2 r s v hv), ?_⟩
  intro a ha
  obtain ⟨b, hb, hab⟩ := h.lock a ha
  obtain ⟨c, hc, hbc⟩ := h'.lock b hb
  exact ⟨c, hc, hab.trans hbc⟩

/-- The state of a height after the records of a reservation. -/
theorem Writes.v6HeightState_append {fs : List Entry} (h : j.Writes fs) (height : Int) :
    (j.append fs).v6HeightState height = j.v6HeightState height ∨
      (∃ row, fs = [.v6 row] ∧ row.height = height ∧ row.step ≠ .lock ∧
        (j.append fs).v6HeightState height = (j.v6HeightState height).applyRow row) ∨
      ∃ round blockHash, fs = [.v6 (lockRow height round blockHash),
          .v6 (commitRow height round blockHash)] ∧
        (j.append fs).v6HeightState height =
          (j.v6HeightState height).applyPair height round blockHash := by
  cases h with
  | nothing | choice | mark => exact .inl rfl
  | @row row _ hlock =>
    have hstate := v6HeightState_append_row j row height
    split at hstate
    · next heq => exact .inr (.inl ⟨row, rfl, heq, hlock, hstate⟩)
    · exact .inl hstate
  | @pair h round blockHash =>
    have hstate := v6HeightState_append_pair j h round blockHash height
    split at hstate
    · next heq =>
      subst heq
      exact .inr (.inr ⟨round, blockHash, rfl, hstate⟩)
    · exact .inl hstate

/-- A reservation only fills free slots and only moves the lock up. -/
theorem Writes.keeps {fs : List Entry} (h : j.Writes fs) (hs : j.Sound) (height : Int) :
    Keeps height j (j.append fs) := by
  refine ⟨?_, ?_, ?_⟩
  · intro r v hv
    cases h with
    | @choice h' r' kind value _ hfree _ =>
      change (j.reservations.set (h', r') (kind, value)).get (height, r) = some v
      rw [get_set_of_ne]
      · exact hv
      · intro heq
        rw [heq, hv] at hfree
        cases hfree
    | _ => exact hv
  · intro r s v hv
    rcases h.v6HeightState_append height with heq | ⟨row, hfs, rfl, hlock, heq⟩ |
      ⟨round, blockHash, hfs, heq⟩
    · rw [heq]
      exact hv
    · rw [heq, get_rows_applyRow hlock, if_neg]
      · exact hv
      · intro hslot
        subst hfs
        cases h with
        | row _ _ _ _ hfree =>
          rw [hslot, hv] at hfree
          cases hfree
    · rw [heq, get_rows_applyPair, if_neg]
      · exact hv
      · intro hslot
        subst hfs
        cases h with
        | pair _ _ hfree =>
          rw [hslot, hv] at hfree
          cases hfree
  · intro l hl
    rcases h.v6HeightState_append height with heq | ⟨row, -, -, hlock, heq⟩ |
      ⟨round, blockHash, hfs, heq⟩
    · exact ⟨l, by rw [heq]; exact hl, le_rfl⟩
    · exact ⟨l, by rw [heq, lock_applyRow hlock]; exact hl, le_rfl⟩
    · refine ⟨⟨round, blockHash⟩, by rw [heq]; rfl, ?_⟩
      subst hfs
      cases h with
      | pair _ _ _ hopen _ =>
        have hcommit := (hs.heights height).lock_commit l hl
        have := (hs.heights height).vote_le l.round .commit l.blockHash (.inr rfl) hcommit
        exact this.trans hopen.2

theorem keeps_restrict {finalizedHeight : Int} (h : finalizedHeight < height) :
    Keeps height j (j.restrict finalizedHeight) := by
  have hstate : (j.restrict finalizedHeight).v6HeightState height = j.v6HeightState height := by
    rw [v6HeightState, restrict, get_keep, if_pos (by simpa using h), v6HeightState]
  refine ⟨fun r v hv => ?_, fun r s v hv => by rw [hstate]; exact hv,
    fun l hl => ⟨l, by rw [hstate]; exact hl, le_rfl⟩⟩
  rw [restrict, get_keep, if_pos (by simpa using h)]
  exact hv

end SigningJournal

namespace LiveJournal

open SigningJournal

/-- A call that does not compact the height away keeps what it holds. -/
theorem Faithful.keeps_after {l : LiveJournal} (h : l.Faithful) {height : Int} {c : JournalCall}
    (hc : ∀ x, c = .compactThrough x → x < height) :
    Keeps height l.journal (l.after c).journal := by
  obtain ⟨⟨es, j, hfile, hist, hsame⟩, hhealthy⟩ := h
  cases c with
  | reserve request =>
    cases hres : l.journal.reserve request with
    | error e => rw [after_reserve_error hres]; exact .refl _ _
    | ok fs =>
      rw [after_reserve_ok hres]
      rw [← reserve_same hsame hist.sound.usable (usable_of_reserve hres)] at hres
      exact (hsame.symm.keeps.trans ((writes_of_reserve hres).keeps hist.sound height)).trans
        (hsame.append fs).keeps
  | compactThrough finalizedHeight =>
    rcases compactThrough_cases hist.sound hsame finalizedHeight with
      ⟨message, heq, -⟩ | ⟨heq, -⟩ | heq
    · rw [after_compactThrough_unchanged (.inl ⟨message, heq⟩)]; exact .refl _ _
    · rw [after_compactThrough_unchanged (.inr heq)]; exact .refl _ _
    · rw [after_compactThrough_replaced heq]
      exact keeps_restrict (hc _ rfl)
  | close => exact ⟨fun _ _ h => h, fun _ _ _ h => h, fun l hl => ⟨l, hl, le_rfl⟩⟩
  | «open» =>
    by_cases hclosed : l.journal.closed = true
    · rw [after_open hfile hist hclosed]
      exact hsame.symm.keeps
    · have heq : l.after .open = l := by simp [LiveJournal.after, hclosed]
      rw [heq]
      exact .refl _ _

/-- A run that does not compact the height away keeps what it holds. -/
theorem Faithful.keeps_run {l : LiveJournal} (h : l.Faithful) {height : Int}
    {cs : List JournalCall} (hcs : ∀ x, .compactThrough x ∈ cs → x < height) :
    Keeps height l.journal (l.run cs).journal := by
  induction cs generalizing l with
  | nil => exact .refl _ _
  | cons c cs ih =>
    refine (h.keeps_after fun x hx => hcs x (by simp [hx])).trans (ih (h.after c) ?_)
    exact fun x hx => hcs x (mem_cons_of_mem _ hx)

end LiveJournal

/-! ### Runs from an empty directory -/

/-- The state holds what a record says. -/
def SigningJournal.Records (j : SigningJournal) : Entry → Prop
  | .choice height round kind value => j.reservations.get (height, round) = some (kind, value)
  | .mark height => height ∈ j.legacyMarks
  | .v6 row => row ∈ j.v6Rows ∧ (row.step ≠ .lock →
      (j.v6HeightState row.height).rows.get (row.round, row.step) = some row.value)

/-- A reservation keeps what earlier records say, and adds what its own say. -/
theorem SigningJournal.Writes.records {j : SigningJournal} {fs : List Entry} (h : j.Writes fs)
    (hs : j.Sound) {e : Entry} (he : j.Records e ∨ e ∈ fs) : (j.append fs).Records e := by
  have hs' := h.sound hs
  have hrow : ∀ row ∈ (j.append fs).v6Rows, (j.append fs).Records (.v6 row) :=
    fun row hrow => ⟨hrow, (hs'.row_get row hrow).2⟩
  rcases he with he | he
  · cases e with
    | choice height round kind value => exact (h.keeps hs height).reservations round _ he
    | mark height =>
      cases h with
      | mark => exact Finset.mem_insert_of_mem he
      | _ => exact he
    | v6 row =>
      refine hrow row ?_
      cases h with
      | nothing | choice | mark => exact he.1
      | row => exact mem_append_left _ he.1
      | pair => exact mem_append_left _ (mem_append_left _ he.1)
  · cases h with
    | nothing => cases he
    | choice =>
      rw [mem_singleton.mp he]
      exact get_set_self _ _ _
    | mark =>
      rw [mem_singleton.mp he]
      exact Finset.mem_insert_self _ _
    | row =>
      rw [mem_singleton.mp he] at *
      exact hrow _ (mem_append_right _ (by simp))
    | pair =>
      rcases mem_cons.mp he with rfl | he
      · exact hrow _ (mem_append_left _ (mem_append_right _ (by simp)))
      · rw [mem_singleton.mp he]
        exact hrow _ (mem_append_right _ (by simp))

theorem History.records {es : List Entry} {j : SigningJournal} (h : History es j) :
    ∀ e ∈ es, j.Records e := by
  induction h with
  | nil => simp
  | append prior hwrites ih =>
    intro e he
    exact hwrites.records prior.sound ((mem_append.mp he).imp_left (ih e))

theorem SigningJournal.Same.records {j k : SigningJournal} (h : j.Same k) {e : Entry}
    (he : j.Records e) : k.Records e := by
  cases e with
  | choice height round kind value => exact (h.reservations _).symm.trans he
  | mark height =>
    change height ∈ k.legacyMarks
    rw [← h.legacyMarks]
    exact he
  | v6 row =>
    refine ⟨h.v6Rows ▸ he.1, fun hstep => ?_⟩
    rw [← h.v6HeightState]
    exact he.2 hstep

def V6HeightJournal.IsHighestCommit (state : V6HeightJournal) (l : V6Lock) : Prop :=
  state.rows.get (l.round, .commit) = some l.blockHash ∧
    ∀ r v, state.rows.get (r, .commit) = some v → r ≤ l.round

theorem V6HeightJournal.Sound.lock_iff {state : V6HeightJournal} (hs : state.Sound) (l : V6Lock) :
    state.lock = some l ↔ state.IsHighestCommit l := by
  constructor
  · intro hl
    refine ⟨hs.lock_commit l hl, fun r v hv => ?_⟩
    obtain ⟨l', hl', hle⟩ := hs.commit_le r v hv
    rw [hl, Option.some.injEq] at hl'
    rw [hl']
    exact hle
  · rintro ⟨hcommit, hmax⟩
    obtain ⟨l', hl', hle⟩ := hs.commit_le _ _ hcommit
    have hcommit' := hs.lock_commit l' hl'
    have hround : l'.round = l.round := le_antisymm (hmax _ _ hcommit') hle
    rw [hround, hcommit, Option.some.injEq] at hcommit'
    obtain ⟨r, b⟩ := l
    obtain ⟨r', b'⟩ := l'
    simp only at hround hcommit'
    rw [hl', hround, hcommit']

namespace LiveJournal

open SigningJournal

/-- Every sequence of calls on a journal.  A slot that has a value keeps it, and the lock of a
height does not move down, as long as no compaction reaches the height; every record of the file
is in the state; the lock of a height is its commit of the highest round; no height has rows of
both protocols; closing and reopening gives the same state and leaves the file alone; and a
compaction followed by a reopening gives the state restricted to the heights above it. -/
theorem run_invariants (calls : List JournalCall) : let l := fresh.run calls
    (∀ (height : Int) (more : List JournalCall), (∀ x, .compactThrough x ∈ more → x < height) →
      Keeps height l.journal (l.run more).journal) ∧
    (∃ es, l.file = journalText es ∧ ∀ e ∈ es, l.journal.Records e) ∧
    (∀ height lock, (l.journal.v6HeightState height).lock = some lock ↔
      (l.journal.v6HeightState height).IsHighestCommit lock) ∧
    (∀ height, ¬ (height ∈ l.journal.legacyHeights ∧ l.journal.v6Heights.has height = true)) ∧
    ((l.run [.close, .open]).journal.Same l.journal ∧ (l.run [.close, .open]).journal.Usable ∧
      (l.run [.close, .open]).file = l.file) ∧
    ∀ finalizedHeight, l.journal.Usable → IsSafeInteger finalizedHeight → 0 ≤ finalizedHeight →
      (l.run [.compactThrough finalizedHeight, .close, .open]).journal.Same
          (l.journal.restrict finalizedHeight) ∧
        (l.run [.compactThrough finalizedHeight, .close, .open]).journal.Usable := by
  intro l
  have hl : l.Faithful := faithful_fresh.run calls
  -- closing and reopening any faithful journal
  have hreopen : ∀ l' : LiveJournal, l'.Faithful →
      (l'.run [.close, .open]).journal.Same l'.journal ∧
        (l'.run [.close, .open]).journal.Usable ∧ (l'.run [.close, .open]).file = l'.file := by
    rintro l' ⟨⟨es, j, hfile, hist, hsame⟩, -⟩
    have hopen : l'.run [.close, .open] = ⟨j, l'.file⟩ :=
      after_open (l := l'.after .close) hfile hist rfl
    rw [hopen]
    exact ⟨hsame, hist.sound.usable, rfl⟩
  obtain ⟨⟨es, j, hfile, hist, hsame⟩, hhealthy⟩ := hl
  refine ⟨fun height more hmore => Faithful.keeps_run ⟨⟨es, j, hfile, hist, hsame⟩, hhealthy⟩ hmore,
    ⟨es, hfile, fun e he => hsame.records (hist.records e he)⟩, ?_, ?_,
    hreopen l ⟨⟨es, j, hfile, hist, hsame⟩, hhealthy⟩, ?_⟩
  · intro height lock
    rw [← hsame.v6HeightState]
    exact (hist.sound.heights height).lock_iff lock
  · rintro height ⟨hlegacy, hv6⟩
    rw [← hsame.legacyHeights] at hlegacy
    rw [← hsame.v6Heights] at hv6
    exact JsMap_has_eq_false (hist.sound.noMix height hlegacy) hv6
  · intro finalizedHeight husable hsafe hnonneg
    have hl' : (l.after (.compactThrough finalizedHeight)).Faithful :=
      Faithful.after ⟨⟨es, j, hfile, hist, hsame⟩, hhealthy⟩ _
    obtain ⟨hsame', husable', -⟩ := hreopen _ hl'
    refine ⟨hsame'.trans ?_, husable'⟩
    rcases compactThrough_cases hist.sound hsame finalizedHeight with
      ⟨message, -, hnot⟩ | ⟨heq, hrestrict⟩ | heq
    · exact absurd ⟨husable, hsafe, hnonneg⟩ hnot
    · rw [after_compactThrough_unchanged (.inr heq)]
      exact hrestrict
    · rw [after_compactThrough_replaced heq]
      exact .refl _

def sampleHash : String := "00112233445566778899aabbccddeeff00112233445566778899aabbccddeeff"

/-- A prepare and a commit at height 5, a timeout at height 6 and a legacy attestation at height 4:
the commit is the lock of height 5 before and after compacting through height 4. -/
theorem run_invariants_commit :
    let l := fresh.run [.reserve (.attestation 4 0 sampleHash),
      .reserve (.v6Prepare 5 0 sampleHash (-1)), .reserve (.v6Commit 5 0 sampleHash),
      .reserve (.v6 6 0 .timeout sampleHash)]
    (l.journal.v6HeightState 5).lock = some ⟨0, sampleHash⟩ ∧
      (l.journal.v6HeightState 5).IsHighestCommit ⟨0, sampleHash⟩ ∧
      Keeps 5 l.journal (l.run [.compactThrough 4]).journal ∧
      (l.run [.compactThrough 4, .close, .open]).journal.Same (l.journal.restrict 4) := by
  have h := run_invariants [.reserve (.attestation 4 0 sampleHash),
    .reserve (.v6Prepare 5 0 sampleHash (-1)), .reserve (.v6Commit 5 0 sampleHash),
    .reserve (.v6 6 0 .timeout sampleHash)]
  have hlock : ((fresh.run [.reserve (.attestation 4 0 sampleHash),
      .reserve (.v6Prepare 5 0 sampleHash (-1)), .reserve (.v6Commit 5 0 sampleHash),
      .reserve (.v6 6 0 .timeout sampleHash)]).journal.v6HeightState 5).lock =
      some ⟨0, sampleHash⟩ := by decide +kernel
  refine ⟨hlock, (h.2.2.1 5 _).mp hlock, h.1 5 [.compactThrough 4] ?_, ?_⟩
  · intro x hx
    simp only [mem_singleton, JournalCall.compactThrough.injEq] at hx
    omega
  · exact (h.2.2.2.2.2 4 ⟨by decide +kernel, by decide +kernel⟩ (by decide) (by decide)).1

end LiveJournal

end ZyronChain
