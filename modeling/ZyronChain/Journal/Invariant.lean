import ZyronChain.Journal.Replay

/-!
# Invariants of the signing journal

What holds of every state that reservations build.  The lock of a height is its commit of the
highest round; a prepare and a commit of one round are for one block; the highest vote and
timeout rounds bound all votes and timeouts; no height has rows of both protocols.
-/

namespace ZyronChain

open Finset

/-! ### One height -/

/-- The invariant of the state of a height. -/
structure V6HeightJournal.Sound (state : V6HeightJournal) : Prop where
  /-- Rounds are not negative. -/
  nonneg : ∀ r s v, state.rows.get (r, s) = some v → 0 ≤ r
  vote_le : ∀ r s v, s = .prepare ∨ s = .commit → state.rows.get (r, s) = some v →
    r ≤ state.maxVoteRound
  timeout_le : ∀ r v, state.rows.get (r, .timeout) = some v → r ≤ state.maxTimeoutRound
  /-- The lock is a commit. -/
  lock_commit : ∀ l, state.lock = some l → state.rows.get (l.round, .commit) = some l.blockHash
  /-- The lock is not below any commit. -/
  commit_le : ∀ r v, state.rows.get (r, .commit) = some v → ∃ l, state.lock = some l ∧ r ≤ l.round
  /-- Prepare and commit of one round agree. -/
  prepare_commit : ∀ r p c, state.rows.get (r, .prepare) = some p →
    state.rows.get (r, .commit) = some c → p = c

namespace V6HeightJournal

theorem sound_empty : empty.Sound := by
  refine ⟨?_, ?_, ?_, ?_, ?_, ?_⟩ <;> simp [empty]

variable {state : V6HeightJournal}

variable {row : V6JournalRow}

theorem get_rows_applyRow (h : row.step ≠ .lock) (k : Int × V6JournalStep) :
    (state.applyRow row).rows.get k =
      if (row.round, row.step) = k then some row.value else state.rows.get k := by
  rw [applyRow, if_neg h]
  exact JsMap.get_set _ _ _ _

theorem lock_applyRow (h : row.step ≠ .lock) : (state.applyRow row).lock = state.lock := by
  rw [applyRow, if_neg h]

theorem maxVoteRound_applyRow (h : row.step ≠ .lock) :
    (state.applyRow row).maxVoteRound =
      if row.step = .prepare ∨ row.step = .commit then max state.maxVoteRound row.round
      else state.maxVoteRound := by
  rw [applyRow, if_neg h]

theorem maxTimeoutRound_applyRow (h : row.step ≠ .lock) :
    (state.applyRow row).maxTimeoutRound =
      if row.step = .timeout then max state.maxTimeoutRound row.round
      else state.maxTimeoutRound := by
  rw [applyRow, if_neg h]

theorem maxVoteRound_le_applyRow (h : row.step ≠ .lock) :
    state.maxVoteRound ≤ (state.applyRow row).maxVoteRound := by
  rw [maxVoteRound_applyRow h]
  split <;> omega

theorem maxTimeoutRound_le_applyRow (h : row.step ≠ .lock) :
    state.maxTimeoutRound ≤ (state.applyRow row).maxTimeoutRound := by
  rw [maxTimeoutRound_applyRow h]
  split <;> omega

/-- A row that is neither lock nor commit keeps the invariant. -/
theorem Sound.applyRow (hs : state.Sound) (hround : 0 ≤ row.round) (hlock : row.step ≠ .lock)
    (hcommit : row.step ≠ .commit) (hopen : row.step = .timeout ∨ state.RoundOpen row.round)
    (hsafe : row.step = .prepare → ∃ justifyRound < row.round, safeVote state.lock row.value
      justifyRound = true) : (state.applyRow row).Sound := by
  have hget : ∀ k, (state.applyRow row).rows.get k = _ := get_rows_applyRow hlock
  have hgetCommit : ∀ r, (state.applyRow row).rows.get (r, .commit) =
      state.rows.get (r, .commit) := by
    intro r
    rw [hget, if_neg]
    intro h
    exact hcommit (congrArg Prod.snd h)
  refine ⟨?_, ?_, ?_, ?_, ?_, ?_⟩
  · intro r s v hv
    rw [hget] at hv
    split at hv
    · next heq =>
      have hr : row.round = r := congrArg Prod.fst heq
      omega
    · exact hs.nonneg r s v hv
  · intro r s v hstep hv
    rw [hget] at hv
    split at hv
    · next heq =>
      have hr : row.round = r := congrArg Prod.fst heq
      have hst : row.step = s := congrArg Prod.snd heq
      rw [maxVoteRound_applyRow hlock, if_pos (hst ▸ hstep)]
      omega
    · exact (hs.vote_le r s v hstep hv).trans (maxVoteRound_le_applyRow hlock)
  · intro r v hv
    rw [hget] at hv
    split at hv
    · next heq =>
      have hr : row.round = r := congrArg Prod.fst heq
      have hst : row.step = .timeout := congrArg Prod.snd heq
      rw [maxTimeoutRound_applyRow hlock, if_pos hst]
      omega
    · exact (hs.timeout_le r v hv).trans (maxTimeoutRound_le_applyRow hlock)
  · intro l hl
    rw [lock_applyRow hlock] at hl
    rw [hgetCommit]
    exact hs.lock_commit l hl
  · intro r v hv
    rw [hgetCommit] at hv
    rw [lock_applyRow hlock]
    exact hs.commit_le r v hv
  · intro r p c hp hc
    rw [hgetCommit] at hc
    rw [hget] at hp
    split at hp
    · -- a new prepare at a round with a commit: that commit is the lock
      next heq =>
        have hr : row.round = r := congrArg Prod.fst heq
        have hst : row.step = .prepare := congrArg Prod.snd heq
        rw [Option.some.injEq] at hp
        obtain ⟨l, hl, hle⟩ := hs.commit_le r c hc
        have hlc := hs.lock_commit l hl
        have hopen : state.RoundOpen row.round := hopen.resolve_left (by rw [hst]; decide)
        have hlr : l.round = r := by
          have hvote := hs.vote_le l.round .commit l.blockHash (.inr rfl) hlc
          have := hopen.2
          omega
        rw [hlr, hc, Option.some.injEq] at hlc
        obtain ⟨justifyRound, hj, hsafe⟩ := hsafe hst
        rw [hl] at hsafe
        simp only [safeVote, Bool.or_eq_true, beq_iff_eq, decide_eq_true_eq] at hsafe
        rcases hsafe with hsafe | hsafe
        · rw [← hp, hsafe, hlc]
        · omega
    · exact hs.prepare_commit r p c hp hc

/-- The state after a lock row and its commit row. -/
def applyPair (state : V6HeightJournal) (height round : Int) (blockHash : String) :
    V6HeightJournal :=
  (state.applyRow (lockRow height round blockHash)).applyRow (commitRow height round blockHash)

section

variable (state) (height round : Int) (blockHash : String)

theorem get_rows_applyPair (k : Int × V6JournalStep) :
    (state.applyPair height round blockHash).rows.get k =
      if (round, .commit) = k then some blockHash else state.rows.get k :=
  get_rows_applyRow (by simp) k

@[simp] theorem lock_applyPair :
    (state.applyPair height round blockHash).lock = some ⟨round, blockHash⟩ := rfl

@[simp] theorem maxVoteRound_applyPair :
    (state.applyPair height round blockHash).maxVoteRound = max state.maxVoteRound round := rfl

end

/-- A lock and commit pair keeps the invariant. -/
theorem Sound.applyPair (hs : state.Sound) {height round : Int} {blockHash : String}
    (hround : 0 ≤ round) (hopen : state.RoundOpen round) (hmay : state.MayLock round blockHash) :
    (state.applyPair height round blockHash).Sound := by
  have hget := get_rows_applyPair state height round blockHash
  have hother : ∀ r s, s ≠ .commit →
      (state.applyPair height round blockHash).rows.get (r, s) = state.rows.get (r, s) := by
    intro r s hstep
    rw [hget, if_neg]
    intro h
    exact hstep (congrArg Prod.snd h).symm
  refine ⟨?_, ?_, ?_, ?_, ?_, ?_⟩
  · intro r s v hv
    rw [hget] at hv
    split at hv
    · next heq =>
      have hr : round = r := congrArg Prod.fst heq
      omega
    · exact hs.nonneg r s v hv
  · intro r s v hstep hv
    rw [maxVoteRound_applyPair]
    rw [hget] at hv
    split at hv
    · next heq =>
      have hr : round = r := congrArg Prod.fst heq
      omega
    · have := hs.vote_le r s v hstep hv
      omega
  · intro r v hv
    rw [hother r _ (by decide)] at hv
    exact hs.timeout_le r v hv
  · intro l hl
    rw [lock_applyPair] at hl
    cases hl
    rw [hget, if_pos rfl]
  · intro r v hv
    refine ⟨_, rfl, ?_⟩
    rw [hget] at hv
    split at hv
    · next heq => exact (congrArg Prod.fst heq).symm.le
    · have := hs.vote_le r .commit v (.inr rfl) hv
      exact this.trans hopen.2
  · intro r p c hp hc
    rw [hother r _ (by decide)] at hp
    rw [hget] at hc
    split at hc
    · next heq =>
      have hr : round = r := congrArg Prod.fst heq
      rw [Option.some.injEq] at hc
      rw [← hc]
      exact hmay.1 p (hr ▸ hp)
    · exact hs.prepare_commit r p c hp hc

end V6HeightJournal

/-! ### The whole state -/

/-- The part of the invariant that every single row keeps. -/
structure SigningJournal.Consistent (j : SigningJournal) : Prop where
  /-- One protocol per height. -/
  noMix : ∀ h ∈ j.legacyHeights, j.v6Heights.get h = none
  legacy_iff : ∀ h, h ∈ j.legacyHeights ↔
    h ∈ j.legacyMarks ∨ ∃ r v, j.reservations.get (h, r) = some v
  reservation_wellFormed : ∀ h r k v, j.reservations.get (h, r) = some (k, v) →
    (Entry.choice h r k v).WellFormed
  mark_wellFormed : ∀ h ∈ j.legacyMarks, (Entry.mark h).WellFormed
  row_wellFormed : ∀ row ∈ j.v6Rows, row.WellFormed
  /-- Every row is in the state of its height. -/
  row_get : ∀ row ∈ j.v6Rows, j.v6Heights.get row.height ≠ none ∧
    (row.step ≠ .lock →
      (j.v6HeightState row.height).rows.get (row.round, row.step) = some row.value)
  /-- Every height with a state has a row. -/
  height_row : ∀ h, j.v6Heights.get h ≠ none → ∃ row ∈ j.v6Rows, row.height = h
  usable : j.closed = false ∧ j.persistenceFaulted = false

/-- The invariant of the state: every height is sound as well. -/
structure SigningJournal.Sound (j : SigningJournal) : Prop extends j.Consistent where
  heights : ∀ h, (j.v6HeightState h).Sound

namespace SigningJournal

theorem sound_empty : empty.Sound := by
  refine ⟨⟨?_, ?_, ?_, ?_, ?_, ?_, ?_, ⟨rfl, rfl⟩⟩, fun h => V6HeightJournal.sound_empty⟩
  all_goals simp [empty]

variable {j : SigningJournal}

theorem v6Heights_applyV6Row_get (row : V6JournalRow) (h : Int) :
    (j.applyV6Row row).v6Heights.get h =
      if row.height = h then some ((j.v6HeightState row.height).applyRow row)
      else j.v6Heights.get h :=
  JsMap.get_set _ _ _ _

theorem Consistent.applyChoice (hs : j.Consistent) {height round : Int} {kind : LegacyKind} {value : String}
    (hwf : (Entry.choice height round kind value).WellFormed)
    (hnoV6 : j.v6Heights.get height = none) :
    (j.applyChoice height round kind value).Consistent := by
  have hget : ∀ k, (j.applyChoice height round kind value).reservations.get k =
      if (height, round) = k then some (kind, value) else j.reservations.get k :=
    fun k => JsMap.get_set _ _ _ _
  refine ⟨?_, ?_, ?_, hs.mark_wellFormed, hs.row_wellFormed, hs.row_get, hs.height_row, hs.usable⟩
  · intro h hh
    rcases mem_insert.mp hh with rfl | hh
    · exact hnoV6
    · exact hs.noMix h hh
  · intro h
    constructor
    · intro hh
      rcases mem_insert.mp hh with rfl | hh
      · exact .inr ⟨round, _, by rw [hget, if_pos rfl]⟩
      · rcases (hs.legacy_iff h).mp hh with hm | ⟨r, v, hv⟩
        · exact .inl hm
        · by_cases heq : (height, round) = (h, r)
          · exact .inr ⟨r, _, by rw [hget, if_pos heq]⟩
          · exact .inr ⟨r, v, by rw [hget, if_neg heq]; exact hv⟩
    · rintro (hm | ⟨r, v, hv⟩)
      · exact mem_insert_of_mem ((hs.legacy_iff h).mpr (.inl hm))
      · rw [hget] at hv
        split at hv
        · next heq =>
          have hh : height = h := congrArg Prod.fst heq
          exact hh ▸ mem_insert_self _ _
        · exact mem_insert_of_mem ((hs.legacy_iff h).mpr (.inr ⟨r, v, hv⟩))
  · intro h r k v hv
    rw [hget] at hv
    split at hv
    · next heq =>
      simp only [Prod.mk.injEq, Option.some.injEq] at heq hv
      obtain ⟨rfl, rfl⟩ := heq
      obtain ⟨rfl, rfl⟩ := hv
      exact hwf
    · exact hs.reservation_wellFormed h r k v hv

theorem Consistent.applyMark (hs : j.Consistent) {height : Int} (hwf : (Entry.mark height).WellFormed)
    (hnoV6 : j.v6Heights.get height = none) : (j.applyMark height).Consistent := by
  refine ⟨?_, ?_, hs.reservation_wellFormed, ?_, hs.row_wellFormed, hs.row_get, hs.height_row,
    hs.usable⟩
  · intro h hh
    rcases mem_insert.mp hh with rfl | hh
    · exact hnoV6
    · exact hs.noMix h hh
  · intro h
    change h ∈ insert height j.legacyHeights ↔ h ∈ insert height j.legacyMarks ∨ _
    rw [mem_insert, mem_insert, hs.legacy_iff h, or_assoc]
    rfl
  · intro h hh
    rcases mem_insert.mp hh with rfl | hh
    · exact hwf
    · exact hs.mark_wellFormed h hh

theorem Consistent.applyV6Row (hs : j.Consistent) {row : V6JournalRow} (hwf : row.WellFormed)
    (hnoLegacy : row.height ∉ j.legacyHeights)
    (hfree : row.step ≠ .lock → ∀ v,
      (j.v6HeightState row.height).rows.get (row.round, row.step) = some v → v = row.value) :
    (j.applyV6Row row).Consistent := by
  refine ⟨?_, hs.legacy_iff, hs.reservation_wellFormed, hs.mark_wellFormed, ?_, ?_, ?_, hs.usable⟩
  · intro h hh
    rw [v6Heights_applyV6Row_get, if_neg]
    · exact hs.noMix h hh
    · rintro rfl
      exact hnoLegacy hh
  · intro row' hrow'
    rcases List.mem_append.mp hrow' with hrow' | hrow'
    · exact hs.row_wellFormed row' hrow'
    · rw [List.mem_singleton.mp hrow']
      exact hwf
  · intro row' hrow'
    rw [v6HeightState_applyV6Row, v6Heights_applyV6Row_get]
    rcases List.mem_append.mp hrow' with hrow' | hrow'
    · obtain ⟨hsome, hget⟩ := hs.row_get row' hrow'
      split
      · next heq =>
        refine ⟨by simp, fun hstep' => ?_⟩
        have hget := hget hstep'
        by_cases hlock : row.step = .lock
        · rw [V6HeightJournal.applyRow, if_pos hlock]
          exact hget
        · rw [V6HeightJournal.get_rows_applyRow hlock]
          split
          · next hslot =>
            rw [heq, hslot] at hfree
            rw [hfree hlock _ hget]
          · exact hget
      · exact ⟨hsome, hget⟩
    · rw [List.mem_singleton.mp hrow', if_pos rfl, if_pos rfl]
      refine ⟨by simp, fun hstep => ?_⟩
      rw [V6HeightJournal.get_rows_applyRow hstep, if_pos rfl]
  · intro h hh
    rw [v6Heights_applyV6Row_get] at hh
    split at hh
    · next heq => exact ⟨row, List.mem_append_right _ (by simp), heq⟩
    · obtain ⟨row', hrow', hheight⟩ := hs.height_row h hh
      exact ⟨row', List.mem_append_left _ hrow', hheight⟩

theorem v6HeightState_append_row (j : SigningJournal) (row : V6JournalRow) (height : Int) :
    (j.append [.v6 row]).v6HeightState height =
      if row.height = height then (j.v6HeightState height).applyRow row
      else j.v6HeightState height :=
  v6HeightState_applyV6Row j row height

theorem v6HeightState_append_pair (j : SigningJournal) (h round : Int) (blockHash : String)
    (height : Int) :
    (j.append [.v6 (lockRow h round blockHash), .v6 (commitRow h round blockHash)]).v6HeightState
        height =
      if h = height then (j.v6HeightState height).applyPair h round blockHash
      else j.v6HeightState height := by
  change ((j.applyV6Row _).applyV6Row _).v6HeightState height = _
  rw [v6HeightState_applyV6Row, v6HeightState_applyV6Row, commitRow_height, lockRow_height]
  split <;> rfl

/-- One reservation keeps the invariant. -/
theorem Writes.sound {fs : List Entry} (h : j.Writes fs) (hs : j.Sound) : (j.append fs).Sound := by
  cases h with
  | nothing => exact hs
  | choice hwf _ hnoV6 => exact ⟨hs.toConsistent.applyChoice hwf hnoV6, hs.heights⟩
  | mark hwf hnoV6 => exact ⟨hs.toConsistent.applyMark hwf hnoV6, hs.heights⟩
  | @row row hwf hlock hcommit hnoLegacy hfree hopen hsafe =>
    refine ⟨hs.toConsistent.applyV6Row hwf hnoLegacy fun _ v hv => ?_, fun h => ?_⟩
    · rw [hfree] at hv
      cases hv
    · rw [v6HeightState_append_row]
      split
      · next heq =>
        subst heq
        exact (hs.heights _).applyRow hwf.2.2.2.1 hlock hcommit hopen hsafe
      · exact hs.heights h
  | @pair height round blockHash hwf hnoLegacy hfree hopen hmay =>
    refine ⟨?_, fun h => ?_⟩
    · refine (hs.toConsistent.applyV6Row hwf hnoLegacy fun h => absurd rfl h).applyV6Row
        (commitRow_wellFormed hwf) hnoLegacy fun _ v hv => ?_
      rw [v6HeightState_applyV6Row, lockRow_height, commitRow_height, if_pos rfl] at hv
      change (j.v6HeightState height).rows.get (round, .commit) = some v at hv
      rw [hfree] at hv
      cases hv
    · rw [v6HeightState_append_pair]
      split
      · next heq =>
        subst heq
        exact (hs.heights _).applyPair hwf.2.2.2.1 hopen hmay
      · exact hs.heights h

end SigningJournal

/-- Every history keeps the invariant. -/
theorem History.sound {es : List Entry} {j : SigningJournal} (h : History es j) : j.Sound := by
  induction h with
  | nil => exact SigningJournal.sound_empty
  | append _ hwrites ih => exact hwrites.sound ih

end ZyronChain
