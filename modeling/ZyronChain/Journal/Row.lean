import ZyronChain.Codec
import ZyronChain.Lib.JsonScan
import ZyronChain.Lib.Lines

/-!
# Records of the signing journal

The signing journal of a validator is a file of JSON lines.  A legacy record reserves an
attestation or a skip vote for a height and round, or marks a height at which a legacy
signature was released; a protocol v6 record (`v: 2`) reserves one step of one round.

Source: `l1/src/storage.ts` (`V6JournalRow`, `v6RowLine`, the records written by
`reserveChoice`, `reserveLegacyHeight` and `compactThrough`) and
`l1/src/signing-journal-json-complexity.ts`.
-/

namespace ZyronChain

open List Json

/-- `MAX_SIGNING_LINE_BYTES`. -/
def maxSigningLineBytes : Nat := 1024

/-! ### Records -/

/-- The steps of protocol v6 the journal records. -/
inductive V6JournalStep where
  | blockProposal
  | proposal
  | prepare
  | lock
  | commit
  | timeout
deriving DecidableEq, Repr

def V6JournalStep.name : V6JournalStep → String
  | blockProposal => "block-proposal"
  | proposal => "proposal"
  | prepare => "prepare"
  | lock => "lock"
  | commit => "commit"
  | timeout => "timeout"

/-- `V6_JOURNAL_STEPS`: the step of a name. -/
def V6JournalStep.ofName? (name : String) : Option V6JournalStep :=
  [blockProposal, proposal, prepare, lock, commit, timeout].find? fun s => s.name = name

@[simp] theorem V6JournalStep.ofName?_name (s : V6JournalStep) : ofName? s.name = some s := by
  cases s <;> decide

/-- A protocol v6 record. -/
structure V6JournalRow where
  height : Int
  round : Int
  step : V6JournalStep
  value : String
  lockRound : Option Int := none
deriving DecidableEq, Repr

/-- What a legacy reservation reserves. -/
inductive LegacyKind where
  | attest
  | skip
deriving DecidableEq, Repr

/-- The name of a legacy kind in a record. -/
def LegacyKind.name : LegacyKind → String
  | attest => "attest"
  | skip => "skip"

def LegacyKind.ofName? (name : String) : Option LegacyKind :=
  [attest, skip].find? fun k => k.name = name

@[simp] theorem LegacyKind.ofName?_name (k : LegacyKind) : ofName? k.name = some k := by
  cases k <;> decide

/-- A record of the signing journal. -/
inductive Entry where
  | choice (height round : Int) (kind : LegacyKind) (value : String)
  | mark (height : Int)
  | v6 (row : V6JournalRow)
deriving DecidableEq, Repr

/-- The members of a protocol v6 record, in the order in which `v6RowLine` writes them. -/
def V6JournalRow.members (row : V6JournalRow) : List (String × Json) :=
  [("v", .num 2), ("height", .num row.height), ("round", .num row.round),
    ("step", .str row.step.name), ("value", .str row.value)] ++
    if row.step = .lock then row.lockRound.toList.map fun r => ("lockRound", .num r) else []

def Entry.members : Entry → List (String × Json)
  | choice height round kind value =>
    [("height", .num height), ("round", .num round), ("kind", .str kind.name),
      ("value", .str value)]
  | mark height => [("height", .num height), ("kind", .str "legacy")]
  | v6 row => row.members

def Entry.text (e : Entry) : List Char := Json.render (.obj e.members)

def Entry.line (e : Entry) : List Char := e.text ++ ['\n']

def v6RowLine (row : V6JournalRow) : List Char := (Entry.v6 row).line

/-- The text of a file with the given records. -/
def journalText (es : List Entry) : List Char := es.flatMap Entry.line

/-! ### Well-formed records -/

/-- A slot and value the reservations accept, and `lockRound` as they set it. -/
def V6JournalRow.WellFormed (row : V6JournalRow) : Prop :=
  IsSafeInteger row.height ∧ 1 ≤ row.height ∧
    IsSafeInteger row.round ∧ 0 ≤ row.round ∧ row.round ≤ v6MaxRound ∧
    IsHash64 row.value ∧ row.lockRound = if row.step = .lock then some row.round else none

/-- What every record in a journal written by this code satisfies. -/
def Entry.WellFormed : Entry → Prop
  | choice height round _ value =>
    IsSafeInteger height ∧ 1 ≤ height ∧ IsSafeInteger round ∧ 0 ≤ round ∧ IsHash64 value
  | mark height => IsSafeInteger height ∧ 1 ≤ height
  | v6 row => row.WellFormed

def lockRow (height round : Int) (blockHash : String) : V6JournalRow :=
  { height, round, step := .lock, value := blockHash, lockRound := some round }

def commitRow (height round : Int) (blockHash : String) : V6JournalRow :=
  { height, round, step := .commit, value := blockHash }

section

variable (height round : Int) (blockHash : String)

@[simp] theorem lockRow_height : (lockRow height round blockHash).height = height := rfl
@[simp] theorem lockRow_round : (lockRow height round blockHash).round = round := rfl
@[simp] theorem lockRow_step : (lockRow height round blockHash).step = .lock := rfl
@[simp] theorem lockRow_value : (lockRow height round blockHash).value = blockHash := rfl
@[simp] theorem commitRow_height : (commitRow height round blockHash).height = height := rfl
@[simp] theorem commitRow_round : (commitRow height round blockHash).round = round := rfl
@[simp] theorem commitRow_step : (commitRow height round blockHash).step = .commit := rfl
@[simp] theorem commitRow_value : (commitRow height round blockHash).value = blockHash := rfl

end

theorem commitRow_wellFormed {height round : Int} {blockHash : String}
    (h : (lockRow height round blockHash).WellFormed) :
    (commitRow height round blockHash).WellFormed :=
  ⟨h.1, h.2.1, h.2.2.1, h.2.2.2.1, h.2.2.2.2.1, h.2.2.2.2.2.1, rfl⟩

theorem Entry.plain (e : Entry) : Json.Plain (.obj e.members) := by
  cases e with
  | choice height round kind value =>
    exact ⟨by simp [members], by simp [members, Json.PlainMembers, Json.Plain]⟩
  | mark height => exact ⟨by simp [members], by simp [members, Json.PlainMembers, Json.Plain]⟩
  | v6 row =>
    rw [members, V6JournalRow.members]
    by_cases hlock : row.step = .lock
    · cases hround : row.lockRound <;>
        exact ⟨by simp [hlock], by simp [hlock, Json.PlainMembers, Json.Plain]⟩
    · exact ⟨by simp [hlock], by simp [hlock, Json.PlainMembers, Json.Plain]⟩

/-- A record's text is read back as its value. -/
theorem Entry.parse_text (e : Entry) : Json.parse e.text = some (.obj e.members) :=
  parse_render e.plain

/-- A cut record does not parse, whether or not NUL characters fill the rest. -/
theorem Entry.parse_text_cut (e : Entry) {p t : List Char} (h : e.text = p ++ t) (ht : t ≠ [])
    (k : Nat) : Json.parse (p ++ List.replicate k Json.nul) = none :=
  parse_render_cut e.plain h ht k

/-- A record followed by NUL characters in place of its newline does not parse. -/
theorem Entry.parse_text_nul (e : Entry) {k : Nat} (hk : 0 < k) :
    Json.parse (e.text ++ List.replicate k Json.nul) = none :=
  parse_render_nul e.plain hk

/-! ### Length -/

theorem flatMap_escape_lowerHex {s : List Char} (h : ∀ c ∈ s, isLowerHex c = true) :
    s.flatMap Json.escape = s := by
  induction s with
  | nil => rfl
  | cons c s ih =>
    rw [flatMap_cons, (isPlainChar_of_isLowerHex (h c mem_cons_self)).1,
      ih fun d hd => h d (mem_cons_of_mem c hd), singleton_append]

theorem quote_hash_length {s : String} (h : IsHash64 s) : (Json.quote s.toList).length = 66 := by
  rw [Json.quote, flatMap_escape_lowerHex h.2, length_cons, length_append, h.1]
  rfl

private theorem quote_step_length (s : V6JournalStep) : (Json.quote s.name.toList).length ≤ 16 := by
  cases s <;> decide

private theorem quote_kind_length (k : LegacyKind) : (Json.quote k.name.toList).length ≤ 8 := by
  cases k <;> decide

private theorem quote_names_length :
    (Json.quote "v".toList).length = 3 ∧ (Json.quote "height".toList).length = 8 ∧
      (Json.quote "round".toList).length = 7 ∧ (Json.quote "step".toList).length = 6 ∧
      (Json.quote "value".toList).length = 7 ∧ (Json.quote "lockRound".toList).length = 11 ∧
      (Json.quote "kind".toList).length = 6 ∧ (Json.quote "legacy".toList).length = 8 := by
  decide

/-- Two records together are well within the line limit. -/
theorem Entry.text_length {e : Entry} (h : e.WellFormed) : e.text.length ≤ 400 := by
  obtain ⟨hv, hheight, hround, hstep, hvalue, hlockRound, hkind, hlegacy⟩ := quote_names_length
  cases e with
  | choice height round kind value =>
    obtain ⟨h1, -, h2, -, h3⟩ := h
    have := intText_length h1
    have := intText_length h2
    have := quote_hash_length h3
    have := quote_kind_length kind
    simp only [text, members, Json.render, Json.renderMembers, length_cons,
      length_append, length_nil]
    omega
  | mark height =>
    have := intText_length h.1
    simp only [text, members, Json.render, Json.renderMembers, length_cons,
      length_append, length_nil]
    omega
  | v6 row =>
    obtain ⟨h1, -, h2, -, -, h3, hlr⟩ := h
    have := intText_length h1
    have := intText_length h2
    have := quote_hash_length h3
    have := quote_step_length row.step
    have htwo : (Json.intText 2).length = 1 := by decide
    by_cases hlock : row.step = .lock
    · rw [if_pos hlock] at hlr
      simp only [text, members, V6JournalRow.members, if_pos hlock, hlr, Option.toList_some,
        map_cons, map_nil, cons_append, nil_append, Json.render,
        Json.renderMembers, length_cons, length_append, length_nil]
      omega
    · simp only [text, members, V6JournalRow.members, if_neg hlock, append_nil,
        Json.render, Json.renderMembers, length_cons, length_append, length_nil]
      omega

theorem Entry.short_text {e : Entry} (h : e.WellFormed) :
    BoundedLine.Short maxSigningLineBytes e.text := by
  have hprint : ∀ x ∈ e.text, 0x20 ≤ x.toNat := fun x hx => render_printable _ e.plain hx
  refine ⟨fun hmem => ?_, fun hmem => ?_, (e.text_length h).trans (by decide)⟩
  · exact absurd (hprint _ hmem) (by decide)
  · exact absurd (hprint _ hmem) (by decide)

/-! ### Structural limit -/

/-- `SIGNING_JOURNAL_MAX_JSON_NESTING_DEPTH` and `SIGNING_JOURNAL_MAX_JSON_STRUCTURAL_TOKENS`. -/
def signingJournalLimits : Json.ScanLimits where
  maxDepth := 16
  maxTokens := 128
  message := "Signing journal JSON complexity exceeded"

def assertSigningJournalJsonComplexity (contents : List Char) : Except String Unit :=
  (Json.scan signingJournalLimits {} contents).map fun _ => ()

private theorem tokensMembers_flat {ms : List (String × Json)}
    (h : ∀ m ∈ ms, m.2.tokens = 0 ∧ m.2.nesting = 0) :
    Json.tokensMembers ms ≤ 2 * ms.length ∧ Json.nestingMembers ms = 0 := by
  match ms with
  | [] => exact ⟨Nat.le_refl 0, rfl⟩
  | [(k, v)] =>
    have hv := h _ mem_cons_self
    simp only at hv
    simp [Json.tokensMembers, Json.nestingMembers, hv]
  | (k, v) :: m :: ms =>
    have hv := h _ mem_cons_self
    have hrest : ∀ m' ∈ m :: ms, m'.2.tokens = 0 ∧ m'.2.nesting = 0 :=
      fun m' hm' => h m' (mem_cons_of_mem _ hm')
    obtain ⟨ht, hn⟩ := tokensMembers_flat hrest
    simp only at hv
    rw [Json.tokensMembers, Json.nestingMembers, hn, hv.1, hv.2, length_cons]
    exact ⟨by omega, rfl⟩

/-- A record's line passes the structural limit. -/
theorem Entry.complexity_text (e : Entry) : assertSigningJournalJsonComplexity e.text = .ok () := by
  have hflat : ∀ m ∈ e.members, m.2.tokens = 0 ∧ m.2.nesting = 0 := by
    cases e with
    | choice | mark => simp [members, Json.tokens, Json.nesting]
    | v6 row =>
      rw [members, V6JournalRow.members]
      by_cases hlock : row.step = .lock
      · cases hround : row.lockRound <;> simp [hlock, Json.tokens, Json.nesting]
      · simp [hlock, Json.tokens, Json.nesting]
  have hlen : e.members.length ≤ 6 := by
    cases e with
    | choice | mark => simp [members]
    | v6 row =>
      rw [members, V6JournalRow.members]
      by_cases hlock : row.step = .lock
      · cases hround : row.lockRound <;> simp [hlock]
      · simp [hlock]
  obtain ⟨htokens, hnesting⟩ := tokensMembers_flat hflat
  have hscan : Json.scan signingJournalLimits (Json.outside 0 0) e.text = _ :=
    scan_render (.obj e.members) e.plain (by rw [Json.nesting, hnesting]; decide)
      (by rw [Json.tokens]; change _ ≤ 128; omega)
  rw [assertSigningJournalJsonComplexity]
  change (Json.scan signingJournalLimits (Json.outside 0 0) _).map _ = _
  rw [hscan]
  rfl

end ZyronChain
