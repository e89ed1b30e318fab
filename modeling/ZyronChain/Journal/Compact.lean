import ZyronChain.Journal.Invariant

/-!
# Compaction keeps the history replayable

Compaction rewrites the file: the retained legacy reservations sorted by slot, then the
retained marks, then the retained protocol v6 rows in their append order.  The new file is the
text of a history again, and that history's state is the old one restricted to the heights
above the finalized one.
-/

namespace ZyronChain

open List JsMap

namespace SigningJournal

/-! ### States up to the order of reservations -/

/-- Equal recorded states, up to the order in which the legacy reservations are listed. -/
structure Same (j k : SigningJournal) : Prop where
  reservations : j.reservations.Same k.reservations
  legacyHeights : j.legacyHeights = k.legacyHeights
  legacyMarks : j.legacyMarks = k.legacyMarks
  v6Heights : j.v6Heights = k.v6Heights
  v6Rows : j.v6Rows = k.v6Rows

theorem Same.refl (j : SigningJournal) : j.Same j := ⟨.refl _, rfl, rfl, rfl, rfl⟩

theorem Same.symm {j k : SigningJournal} (h : j.Same k) : k.Same j :=
  ⟨h.1.symm, h.2.symm, h.3.symm, h.4.symm, h.5.symm⟩

theorem Same.trans {j k l : SigningJournal} (h : j.Same k) (h' : k.Same l) : j.Same l :=
  ⟨h.1.trans h'.1, h.2.trans h'.2, h.3.trans h'.3, h.4.trans h'.4, h.5.trans h'.5⟩

theorem Same.v6HeightState {j k : SigningJournal} (h : j.Same k) (height : Int) :
    j.v6HeightState height = k.v6HeightState height := by
  rw [SigningJournal.v6HeightState, h.v6Heights, SigningJournal.v6HeightState]

theorem Same.applyEntry {j k : SigningJournal} (h : j.Same k) (e : Entry) :
    (j.applyEntry e).Same (k.applyEntry e) := by
  cases e with
  | choice height round kind value =>
    refine ⟨h.reservations.set _ _, ?_, h.legacyMarks, h.v6Heights, h.v6Rows⟩
    change insert height j.legacyHeights = insert height k.legacyHeights
    rw [h.legacyHeights]
  | mark height =>
    refine ⟨h.reservations, ?_, ?_, h.v6Heights, h.v6Rows⟩
    · change insert height j.legacyHeights = insert height k.legacyHeights
      rw [h.legacyHeights]
    · change insert height j.legacyMarks = insert height k.legacyMarks
      rw [h.legacyMarks]
  | v6 row =>
    refine ⟨h.reservations, h.legacyHeights, h.legacyMarks, ?_, ?_⟩
    · change j.v6Heights.set _ _ = k.v6Heights.set _ _
      rw [h.v6HeightState, h.v6Heights]
    · change j.v6Rows ++ [row] = k.v6Rows ++ [row]
      rw [h.v6Rows]

theorem Same.append {j k : SigningJournal} (h : j.Same k) (es : List Entry) :
    (j.append es).Same (k.append es) := by
  induction es generalizing j k with
  | nil => exact h
  | cons e es ih => exact ih (h.applyEntry e)

def Usable (j : SigningJournal) : Prop := j.closed = false ∧ j.persistenceFaulted = false

/-- Reservations do not see the order of the legacy reservations. -/
theorem reserve_same {j k : SigningJournal} (h : j.Same k) (hj : j.Usable) (hk : k.Usable)
    (r : JournalRequest) : j.reserve r = k.reserve r := by
  have husable : j.assertUsable = k.assertUsable := by
    rw [assertUsable, assertUsable, hj.1, hj.2, hk.1, hk.2]
  have hwritable : ∀ height round value,
      j.assertV6Writable height round value = k.assertV6Writable height round value := by
    intro height round value
    simp only [assertV6Writable, husable, h.legacyHeights]
  have hchoice : ∀ height round kind value,
      j.reserveChoice height round kind value = k.reserveChoice height round kind value := by
    intro height round kind value
    simp only [reserveChoice, husable, h.reservations _, h.v6Heights]
  cases r with
  | attestation height round blockHash => exact hchoice height round .attest blockHash
  | skip height round previousHash => exact hchoice height round .skip previousHash
  | legacyHeight height =>
    simp only [reserve, reserveLegacyHeight, husable, h.v6Heights, h.legacyHeights]
  | v6 height round step value =>
    simp only [reserve, reserveV6, hwritable, h.v6HeightState]
  | v6Prepare height round blockHash justifyRound =>
    simp only [reserve, reserveV6Prepare, hwritable, h.v6HeightState]
  | v6Commit height round blockHash =>
    simp only [reserve, reserveV6Commit, hwritable, h.v6HeightState]

/-! ### The retained reservations -/

/-- A journal with legacy records only. -/
structure Legacy (j : SigningJournal) : Prop where
  v6Heights : j.v6Heights = .empty
  v6Rows : j.v6Rows = []

end SigningJournal

open SigningJournal

theorem history_choices {es : List ((Int × Int) × (LegacyKind × String))}
    (hnodup : (es.map Prod.fst).Nodup) (hwf : ∀ e ∈ es, (choiceEntry e).WellFormed) :
    ∃ k, History (es.map choiceEntry) k ∧ k.Legacy ∧ k.legacyMarks = ∅ ∧
      (∀ key v, k.reservations.get key = some v ↔ (key, v) ∈ es) ∧
      ∀ h, h ∈ k.legacyHeights ↔ ∃ e ∈ es, e.1.1 = h := by
  induction es using List.reverseRecOn with
  | nil =>
    refine ⟨.empty, .nil, ⟨rfl, rfl⟩, rfl, ?_, ?_⟩ <;> simp [SigningJournal.empty]
  | append_singleton es e ih =>
    rw [map_append, nodup_append] at hnodup
    obtain ⟨k, hk, hlegacy, hmarks, hget, hheights⟩ := ih hnodup.1
      fun e' he' => hwf e' (mem_append_left _ he')
    have hfresh : e.1 ∉ es.map Prod.fst := by
      intro hmem
      exact hnodup.2.2 _ hmem _ (by simp) rfl
    have hfree : k.reservations.get e.1 = none := by
      rw [Option.eq_none_iff_forall_ne_some]
      intro v hv
      exact hfresh (mem_map.mpr ⟨(e.1, v), (hget e.1 v).mp hv, rfl⟩)
    have hnoV6 : k.v6Heights.get e.1.1 = none := by rw [hlegacy.v6Heights]; rfl
    refine ⟨k.append [choiceEntry e], ?_, ⟨hlegacy.v6Heights, hlegacy.v6Rows⟩, hmarks, ?_, ?_⟩
    · rw [map_append]
      exact hk.append (.choice (hwf e (by simp)) hfree hnoV6)
    · intro key v
      change (k.reservations.set e.1 e.2).get key = some v ↔ _
      rw [get_set, mem_append, mem_singleton]
      split
      · next heq =>
        subst heq
        constructor
        · intro h
          rw [Option.some.injEq] at h
          exact .inr (by rw [← h])
        · rintro (h | h)
          · exact absurd (mem_map_of_mem h) hfresh
          · rw [← h]
      · next hne =>
        rw [hget]
        constructor
        · exact .inl
        · rintro (h | h)
          · exact h
          · exact absurd (by rw [← h]) hne
    · intro h
      change h ∈ insert e.1.1 k.legacyHeights ↔ _
      rw [Finset.mem_insert, hheights h]
      constructor
      · rintro (rfl | ⟨e', he', rfl⟩)
        · exact ⟨e, by simp, rfl⟩
        · exact ⟨e', by simp [he'], rfl⟩
      · rintro ⟨e', he', rfl⟩
        rcases mem_append.mp he' with he' | he'
        · exact .inr ⟨e', he', rfl⟩
        · rw [mem_singleton.mp he']
          exact .inl rfl

variable {es : List Entry} {j k : SigningJournal} {finalizedHeight : Int}

theorem history_marks (h : History es j) (hlegacy : j.Legacy) {ms : List Int}
    (hwf : ∀ m ∈ ms, (Entry.mark m).WellFormed) :
    ∃ k, History (es ++ ms.map .mark) k ∧ k.Legacy ∧ k.reservations = j.reservations ∧
      (∀ x, x ∈ k.legacyMarks ↔ x ∈ j.legacyMarks ∨ x ∈ ms) ∧
      ∀ x, x ∈ k.legacyHeights ↔ x ∈ j.legacyHeights ∨ x ∈ ms := by
  induction ms generalizing es j with
  | nil => exact ⟨j, by simpa using h, hlegacy, rfl, by simp, by simp⟩
  | cons m ms ih =>
    have hnoV6 : j.v6Heights.get m = none := by rw [hlegacy.v6Heights]; rfl
    obtain ⟨k, hk, hlegacy', hres, hmarks, hheights⟩ :=
      ih (h.append (.mark (hwf m (by simp)) hnoV6)) ⟨hlegacy.v6Heights, hlegacy.v6Rows⟩
        fun m' hm' => hwf m' (by simp [hm'])
    refine ⟨k, by simpa using hk, hlegacy', hres, fun x => ?_, fun x => ?_⟩
    · rw [hmarks x]
      change x ∈ insert m j.legacyMarks ∨ x ∈ ms ↔ _
      rw [Finset.mem_insert, mem_cons]
      tauto
    · rw [hheights x]
      change x ∈ insert m j.legacyHeights ∨ x ∈ ms ↔ _
      rw [Finset.mem_insert, mem_cons]
      tauto

/-! ### The retained rows -/

/-- The protocol v6 part of a state, restricted to the heights above a finalized one. -/
structure SigningJournal.RetainsV6 (k j : SigningJournal) (finalizedHeight : Int) : Prop where
  v6Heights : k.v6Heights = j.v6Heights.keep fun h => h > finalizedHeight
  v6Rows : k.v6Rows = j.retainedV6 finalizedHeight

theorem SigningJournal.RetainsV6.v6HeightState (h : k.RetainsV6 j finalizedHeight) {height : Int}
    (hh : height > finalizedHeight) : k.v6HeightState height = j.v6HeightState height := by
  rw [SigningJournal.v6HeightState, h.v6Heights, get_keep, if_pos (by simpa using hh),
    SigningJournal.v6HeightState]

theorem SigningJournal.RetainsV6.applyV6Row (h : k.RetainsV6 j finalizedHeight) {row : V6JournalRow}
    (hrow : row.height > finalizedHeight) :
    (k.applyV6Row row).RetainsV6 (j.applyV6Row row) finalizedHeight := by
  refine ⟨?_, ?_⟩
  · change k.v6Heights.set _ _ = (j.v6Heights.set _ _).keep _
    rw [keep_set, if_pos (by simpa using hrow), h.v6HeightState hrow, h.v6Heights]
  · change k.v6Rows ++ [row] = (j.v6Rows ++ [row]).filter _
    rw [filter_append, h.v6Rows]
    simp [retainedV6, hrow]

/-- A row that is not retained changes nothing in the restricted state. -/
theorem SigningJournal.RetainsV6.skipRow (h : k.RetainsV6 j finalizedHeight) {row : V6JournalRow}
    (hrow : ¬ row.height > finalizedHeight) : k.RetainsV6 (j.applyV6Row row) finalizedHeight := by
  refine ⟨?_, ?_⟩
  · change _ = (j.v6Heights.set _ _).keep _
    rw [keep_set, if_neg (by simpa using hrow), h.v6Heights]
  · change _ = (j.v6Rows ++ [row]).filter _
    rw [filter_append, h.v6Rows]
    simp [retainedV6, hrow]

/-- The retained rows can follow legacy records at other heights. -/
theorem History.retainedRows (h : History es j) (finalizedHeight : Int) {fs : List Entry}
    {k₀ : SigningJournal} (hk₀ : History fs k₀) (hlegacy : k₀.Legacy)
    (hdisjoint : ∀ row ∈ j.retainedV6 finalizedHeight, row.height ∉ k₀.legacyHeights) :
    ∃ k, History (fs ++ (j.retainedV6 finalizedHeight).map .v6) k ∧
      k.reservations = k₀.reservations ∧ k.legacyHeights = k₀.legacyHeights ∧
      k.legacyMarks = k₀.legacyMarks ∧ k.RetainsV6 j finalizedHeight := by
  induction h with
  | nil => exact ⟨k₀, by simpa [retainedV6, SigningJournal.empty] using hk₀, rfl, rfl, rfl,
      ⟨hlegacy.v6Heights, hlegacy.v6Rows⟩⟩
  | @append es gs j _ hwrites ih =>
    cases hwrites with
    | nothing => exact ih hdisjoint
    | choice | mark =>
      obtain ⟨k, hk, hres, hheights, hmarks, hv6⟩ := ih hdisjoint
      exact ⟨k, hk, hres, hheights, hmarks, ⟨hv6.v6Heights, hv6.v6Rows⟩⟩
    | @row row hwf hlock hcommit _ hfree hopen hsafe =>
      by_cases hrow : row.height > finalizedHeight
      · have hretained : (j.append [.v6 row]).retainedV6 finalizedHeight =
            j.retainedV6 finalizedHeight ++ [row] := by
          change (j.v6Rows ++ [row]).filter _ = _
          rw [filter_append]
          simp [retainedV6, hrow]
        rw [hretained] at hdisjoint ⊢
        obtain ⟨k, hk, hres, hheights, hmarks, hv6⟩ :=
          ih fun row' hrow' => hdisjoint row' (by simp [hrow'])
        have hstate := hv6.v6HeightState hrow
        refine ⟨k.append [.v6 row], ?_, hres, hheights, hmarks, hv6.applyV6Row hrow⟩
        rw [map_append, ← append_assoc]
        refine hk.append (.row hwf hlock hcommit ?_ ?_ ?_ ?_)
        · rw [hheights]
          exact hdisjoint row (by simp)
        · rw [hstate]; exact hfree
        · rw [hstate]; exact hopen
        · rw [hstate]; exact hsafe
      · have hretained : (j.append [.v6 row]).retainedV6 finalizedHeight =
            j.retainedV6 finalizedHeight := by
          change (j.v6Rows ++ [row]).filter _ = _
          rw [filter_append]
          simp [retainedV6, hrow]
        rw [hretained] at hdisjoint ⊢
        obtain ⟨k, hk, hres, hheights, hmarks, hv6⟩ := ih hdisjoint
        exact ⟨k, hk, hres, hheights, hmarks, hv6.skipRow hrow⟩
    | @pair height round blockHash hwf _ hfree hopen hmay =>
      by_cases hrow : height > finalizedHeight
      · have hretained : (j.append [.v6 (lockRow height round blockHash),
            .v6 (commitRow height round blockHash)]).retainedV6 finalizedHeight =
            j.retainedV6 finalizedHeight ++
              [lockRow height round blockHash, commitRow height round blockHash] := by
          change ((j.v6Rows ++ [_]) ++ [_]).filter _ = _
          rw [filter_append, filter_append]
          simp [retainedV6, hrow]
        rw [hretained] at hdisjoint ⊢
        obtain ⟨k, hk, hres, hheights, hmarks, hv6⟩ :=
          ih fun row' hrow' => hdisjoint row' (by simp [hrow'])
        have hstate := hv6.v6HeightState hrow
        refine ⟨k.append [.v6 (lockRow height round blockHash),
          .v6 (commitRow height round blockHash)], ?_, hres, hheights, hmarks,
          (hv6.applyV6Row hrow).applyV6Row hrow⟩
        rw [map_append, ← append_assoc]
        refine hk.append (.pair hwf ?_ ?_ ?_ ?_)
        · rw [hheights]
          exact hdisjoint (lockRow height round blockHash) (by simp)
        · rw [hstate]; exact hfree
        · rw [hstate]; exact hopen
        · rw [hstate]; exact hmay
      · have hretained : (j.append [.v6 (lockRow height round blockHash),
            .v6 (commitRow height round blockHash)]).retainedV6 finalizedHeight =
            j.retainedV6 finalizedHeight := by
          change ((j.v6Rows ++ [_]) ++ [_]).filter _ = _
          rw [filter_append, filter_append]
          simp [retainedV6, hrow]
        rw [hretained] at hdisjoint ⊢
        obtain ⟨k, hk, hres, hheights, hmarks, hv6⟩ := ih hdisjoint
        exact ⟨k, hk, hres, hheights, hmarks, (hv6.skipRow hrow).skipRow hrow⟩

/-! ### The compacted file -/

/-- The compacted file is the text of a history with the restricted state. -/
theorem History.compact {m : SigningJournal} (h : History es j) (hm : j.Same m)
    (finalizedHeight : Int) :
    ∃ k, History (m.compactedEntries finalizedHeight) k ∧ k.Same (m.restrict finalizedHeight) := by
  have hs := h.sound
  -- the reservations, in whatever order the state lists them
  let sorted := (m.reservations.entries.filter fun e => e.1.1 > finalizedHeight).mergeSort slotLe
  have hmem : ∀ e, e ∈ sorted ↔ e ∈ m.reservations.entries ∧ e.1.1 > finalizedHeight := by
    intro e
    simp [sorted, mem_mergeSort]
  have hnodup : (sorted.map Prod.fst).Nodup := by
    have hperm := (mergeSort_perm (m.reservations.entries.filter
      fun e => e.1.1 > finalizedHeight) slotLe).map Prod.fst
    exact hperm.nodup_iff.mpr (m.reservations.nodup.sublist (filter_sublist.map _))
  have hget : ∀ e, e ∈ m.reservations.entries → j.reservations.get e.1 = some e.2 := by
    intro e he
    rw [hm.reservations]
    exact get_eq_some_iff.mpr he
  obtain ⟨k₁, hk₁, hlegacy₁, hmarks₁, hres₁, hheights₁⟩ := history_choices hnodup fun e he =>
    hs.reservation_wellFormed e.1.1 e.1.2 e.2.1 e.2.2 (hget e ((hmem e).mp he).1)
  have hmarksWf : ∀ x ∈ (m.legacyMarks.filter (· > finalizedHeight)).sort (· ≤ ·),
      (Entry.mark x).WellFormed := by
    intro x hx
    rw [Finset.mem_sort, Finset.mem_filter, ← hm.legacyMarks] at hx
    exact hs.mark_wellFormed x hx.1
  obtain ⟨k₂, hk₂, hlegacy₂, hres₂, hmarks₂, hheights₂⟩ := history_marks hk₁ hlegacy₁ hmarksWf
  -- the heights the new file knows as legacy heights are the retained ones
  have hlegacyHeights : ∀ x, x ∈ k₂.legacyHeights ↔ x ∈ j.legacyHeights ∧ x > finalizedHeight := by
    intro x
    rw [hheights₂, hheights₁, Finset.mem_sort, Finset.mem_filter, hs.legacy_iff, hm.legacyMarks]
    constructor
    · rintro (⟨e, he, rfl⟩ | ⟨hx, hgt⟩)
      · exact ⟨.inr ⟨e.1.2, e.2, hget e ((hmem e).mp he).1⟩, ((hmem e).mp he).2⟩
      · exact ⟨.inl hx, hgt⟩
    · rintro ⟨hx | ⟨r, v, hv⟩, hgt⟩
      · exact .inr ⟨hx, hgt⟩
      · rw [hm.reservations] at hv
        exact .inl ⟨((x, r), v), (hmem _).mpr ⟨get_eq_some_iff.mp hv, hgt⟩, rfl⟩
  obtain ⟨k, hk, hres, hheights, hmarks, hv6⟩ := h.retainedRows finalizedHeight hk₂ hlegacy₂
    fun row hrow hmem' => by
      have hnone := hs.noMix row.height ((hlegacyHeights row.height).mp hmem').1
      exact (hs.row_get row (mem_of_mem_filter hrow)).1 hnone
  refine ⟨k, ?_, ⟨fun key => ?_, ?_, ?_, ?_, ?_⟩⟩
  · have hrows : m.retainedV6 finalizedHeight = j.retainedV6 finalizedHeight := by
      rw [retainedV6, retainedV6, hm.v6Rows]
    rw [compactedEntries, hrows]
    exact hk
  · rw [hres, hres₂]
    change _ = (m.reservations.keep _).get key
    rw [get_keep]
    refine Option.ext fun v => ?_
    rw [hres₁, hmem]
    split
    · next hgt =>
      rw [get_eq_some_iff]
      exact and_iff_left (by simpa using hgt)
    · next hle =>
      constructor
      · rintro ⟨-, hgt⟩
        exact absurd (by simpa using hgt) hle
      · intro hv
        cases hv
  · rw [hheights]
    ext x
    rw [hlegacyHeights, hm.legacyHeights]
    exact Finset.mem_filter.symm
  · rw [hmarks]
    ext x
    rw [hmarks₂, hmarks₁, Finset.mem_sort]
    simp [restrict]
  · rw [hv6.v6Heights, hm.v6Heights]
    rfl
  · rw [hv6.v6Rows, retainedV6, hm.v6Rows]
    rfl

end ZyronChain
