import ZyronChain.Lib.Json

/-!
# The JSON reader looks only at what it consumes

A reader that succeeds has consumed a piece of the text that determines the result on its own.
For objects, arrays and strings nothing after that piece matters; for numbers the next
character does, since a literal could continue.  No piece ever contains a NUL character.

It follows that no proper prefix of the text of an object is the text of a value, not even when
it is filled up with NUL characters: this is what tells an append that was cut short from a
complete record.
-/

namespace Json

open List Option

def nul : Char := '\x00'

variable {α : Type}

def Visible (c : List Char) : Prop := ∃ x ∈ c, isSpace x = false

/-- The consumed piece determines the result, whatever follows it. -/
def Closed (p : Reader α) : Prop :=
  ∀ s a r, p s = some (a, r) → ∃ c, s = c ++ r ∧ nul ∉ c ∧ ∀ r', p (c ++ r') = some (a, r')

/-- The consumed piece is visible and determines the result, whatever follows it. -/
def SelfDelimiting (p : Reader α) : Prop :=
  ∀ s a r, p s = some (a, r) →
    ∃ c, s = c ++ r ∧ nul ∉ c ∧ Visible c ∧ ∀ r', p (c ++ r') = some (a, r')

/-- The consumed piece determines the result as long as the same character follows it. -/
def Local (p : Reader α) : Prop :=
  ∀ s a r, p s = some (a, r) →
    ∃ c, s = c ++ r ∧ nul ∉ c ∧ ∀ r', r'.head? = r.head? → p (c ++ r') = some (a, r')

/-! ### White space, words and numbers -/

variable {c : List Char} {x : Char} {β : Type} {n : Nat}

private theorem nul_notMem_of_all {p : Char → Bool} (hp : p nul = false) (hc : ∀ x ∈ c, p x = true) :
    nul ∉ c := by
  intro hmem
  have h := hc nul hmem
  rw [hp] at h
  exact absurd h (by decide)

theorem skipSpace_cons {s : List Char} {r : List Char} (h : skipSpace s = x :: r) :
    ∃ w, s = w ++ x :: r ∧ nul ∉ w ∧ (∀ r', skipSpace (w ++ x :: r') = x :: r') ∧
      isSpace x = false := by
  have hx : isSpace x = false := by
    have hne : s.dropWhile isSpace ≠ [] := by
      intro hnil
      rw [skipSpace, hnil] at h
      exact absurd h (by simp)
    have hhead := head_dropWhile_not isSpace hne
    have : (s.dropWhile isSpace).head hne = x := by
      simp only [show s.dropWhile isSpace = x :: r from h, head_cons]
    rwa [this] at hhead
  refine ⟨s.takeWhile isSpace, ?_, ?_, ?_, hx⟩
  · rw [← h, skipSpace, takeWhile_append_dropWhile]
  · exact nul_notMem_of_all (p := isSpace) (by decide) fun y hy => mem_takeWhile_imp hy
  · intro r'
    rw [skipSpace, dropWhile_append_of_pos fun y hy => mem_takeWhile_imp hy]
    simp [hx]

theorem Visible.append_left {d : List Char} (h : Visible d) : Visible (c ++ d) := by
  obtain ⟨x, hx, hs⟩ := h
  exact ⟨x, mem_append_right c hx, hs⟩

theorem Visible.cons (h : Visible c) : Visible (x :: c) := h.append_left (c := [x])

theorem Visible.skipSpace_append (h : Visible c) :
    ∃ x d, isSpace x = false ∧ ∀ r, skipSpace (c ++ r) = x :: (d ++ r) := by
  induction c with
  | nil => obtain ⟨x, hx, -⟩ := h; cases hx
  | cons y c ih =>
    by_cases hy : isSpace y = true
    · have hc : Visible c := by
        obtain ⟨x, hx, hs⟩ := h
        rcases mem_cons.mp hx with rfl | hx
        · rw [hy] at hs
          cases hs
        · exact ⟨x, hx, hs⟩
      obtain ⟨x, d, hx, hd⟩ := ih hc
      refine ⟨x, d, hx, fun r => ?_⟩
      rw [← hd r]
      simp [skipSpace, hy]
    · rw [Bool.not_eq_true] at hy
      exact ⟨y, c, hy, fun r => by simp [skipSpace, hy]⟩

theorem word_selfDelimiting (w : List Char) (hw : nul ∉ w) (hv : Visible w) (v : Json) :
    SelfDelimiting (word w v) := by
  intro s a r h
  unfold word at h
  split at h
  · next hpre =>
    simp only [Option.some.injEq, Prod.mk.injEq] at h
    obtain ⟨rfl, rfl⟩ := h
    obtain ⟨t, rfl⟩ := hpre
    refine ⟨w, by simp, hw, hv, fun r' => ?_⟩
    simp [word]
  · exact absurd h (by simp)

private theorem takeWhile_append_same_head {p : Char → Bool} {r' r : List Char}
    (hc : ∀ x ∈ c, p x = true) (hr : ∀ x, r.head? = some x → p x = false) (h : r'.head? = r.head?) :
    (c ++ r').takeWhile p = c ∧ (c ++ r').dropWhile p = r' := by
  have hstop : r'.takeWhile p = [] ∧ r'.dropWhile p = r' := by
    cases r' with
    | nil => exact ⟨rfl, rfl⟩
    | cons y t =>
      have hy : p y = false := hr y (by rw [← h]; rfl)
      simp [hy]
  rw [takeWhile_append_of_pos hc, dropWhile_append_of_pos hc, hstop.1, hstop.2]
  exact ⟨append_nil c, rfl⟩

theorem number_local : ∀ s a r, number s = some (a, r) →
    ∃ c, s = c ++ r ∧ c ≠ [] ∧ nul ∉ c ∧
      ∀ r', r'.head? = r.head? → number (c ++ r') = some (a, r') := by
  intro s a r h
  unfold number at h
  rw [map_eq_some_iff] at h
  obtain ⟨v, hv, hvr⟩ := h
  simp only [Prod.mk.injEq] at hvr
  obtain ⟨rfl, rfl⟩ := hvr
  have hall : ∀ x ∈ s.takeWhile isNumberChar, isNumberChar x = true :=
    fun x hx => mem_takeWhile_imp hx
  refine ⟨s.takeWhile isNumberChar, (takeWhile_append_dropWhile).symm, ?_, ?_, ?_⟩
  · intro hnil
    rw [hnil] at hv
    cases hv
  · exact nul_notMem_of_all (p := isNumberChar) (by decide) hall
  · intro r' hr'
    have hstop : ∀ x, (s.dropWhile isNumberChar).head? = some x → isNumberChar x = false := by
      intro x hx
      have hne : s.dropWhile isNumberChar ≠ [] := by
        intro hnil
        rw [hnil] at hx
        exact absurd hx (by simp)
      have hhead := head_dropWhile_not isNumberChar hne
      rw [List.head?_eq_some_head hne, Option.some.injEq] at hx
      rwa [hx] at hhead
    obtain ⟨htake, hdrop⟩ := takeWhile_append_same_head hall hstop hr'
    rw [number, htake, hdrop, hv]
    rfl

/-! ### Strings -/

private theorem unitChar_ne_nul {a b c d ch : Char} (h : unitChar a b c d = some ch) :
    nul ∉ [a, b, c, d] := by
  have hnone : hexValue nul = none := by decide
  intro hmem
  simp only [mem_cons, not_mem_nil, or_false] at hmem
  rcases hmem with rfl | rfl | rfl | rfl <;>
    simp [unitChar, hnone] at h

private theorem unescape_ne_nul {e ch : Char} (h : unescape e = some ch) : e ≠ nul := by
  rintro rfl
  exact absurd h (by simp [unescape, nul])

theorem stringBody_selfDelimiting : SelfDelimiting stringBody := by
  intro s
  fun_induction stringBody s with
  | case1 => intro a r h; cases h
  | case2 s =>
    intro a r h
    simp only [Option.some.injEq, Prod.mk.injEq] at h
    obtain ⟨rfl, rfl⟩ := h
    exact ⟨['"'], rfl, by decide, ⟨'"', by simp, by decide⟩, fun r' => stringBody_quote r'⟩
  | case3 => intro a r h; cases h
  | case4 a b c d rest _ ih =>
    intro x r h
    rw [bind_eq_some_iff] at h
    obtain ⟨ch, hch, h⟩ := h
    rw [map_eq_some_iff] at h
    obtain ⟨⟨t, r₁⟩, hbody, hx⟩ := h
    simp only [Prod.mk.injEq] at hx
    obtain ⟨rfl, rfl⟩ := hx
    obtain ⟨c₀, hc₀, hnul, hvis, hall⟩ := ih _ _ hbody
    refine ⟨'\\' :: 'u' :: a :: b :: c :: d :: c₀, by rw [hc₀]; rfl, ?_,
      hvis.append_left (c := ['\\', 'u', a, b, c, d]), fun r' => ?_⟩
    · have := unitChar_ne_nul hch
      simp only [mem_cons, not_mem_nil, or_false, not_or] at this ⊢
      exact ⟨by decide, by decide, this.1, this.2.1, this.2.2.1, this.2.2.2, hnul⟩
    · simp [stringBody_unit, hch, hall r']
  | case5 => intro a r h; cases h
  | case6 e s he _ ih =>
    intro x r h
    rw [bind_eq_some_iff] at h
    obtain ⟨ch, hch, h⟩ := h
    rw [map_eq_some_iff] at h
    obtain ⟨⟨t, r₁⟩, hbody, hx⟩ := h
    simp only [Prod.mk.injEq] at hx
    obtain ⟨rfl, rfl⟩ := hx
    obtain ⟨c₀, hc₀, hnul, hvis, hall⟩ := ih _ _ hbody
    refine ⟨'\\' :: e :: c₀, by rw [hc₀]; rfl, ?_, hvis.cons.cons, fun r' => ?_⟩
    · simp only [mem_cons, not_or]
      exact ⟨by decide, (unescape_ne_nul hch).symm, hnul⟩
    · simp [stringBody_escape he, hch, hall r']
  | case7 => intro a r h; cases h
  | case8 c s hq hb hctl ih =>
    intro x r h
    rw [map_eq_some_iff] at h
    obtain ⟨⟨t, r₁⟩, hbody, hx⟩ := h
    simp only [Prod.mk.injEq] at hx
    obtain ⟨rfl, rfl⟩ := hx
    obtain ⟨c₀, hc₀, hnul, hvis, hall⟩ := ih _ _ hbody
    refine ⟨c :: c₀, by rw [hc₀]; rfl, ?_, hvis.cons, fun r' => ?_⟩
    · simp only [mem_cons, not_or]
      refine ⟨?_, hnul⟩
      rintro rfl
      exact hctl (by decide)
    · simp [stringBody_plain hq hb hctl, hall r']

/-! ### Combinators -/

variable {p q : Reader α} {ms : Reader (List (String × Json))}

theorem SelfDelimiting.closed (h : SelfDelimiting p) : Closed p := by
  intro s a r hs
  obtain ⟨c, hc, hnul, -, hall⟩ := h s a r hs
  exact ⟨c, hc, hnul, hall⟩

theorem Closed.local (h : Closed p) : Local p := by
  intro s a r hs
  obtain ⟨c, hc, hnul, hall⟩ := h s a r hs
  exact ⟨c, hc, hnul, fun r' _ => hall r'⟩

theorem closed_done (a : α) : Closed (Reader.done a) := by
  intro s b r h
  rw [Reader.done] at h
  cases h
  exact ⟨[], rfl, not_mem_nil, fun r' => rfl⟩

theorem closed_fail : Closed (Reader.fail : Reader α) := by
  intro s b r h
  cases h

theorem SelfDelimiting.map (h : SelfDelimiting p) (f : α → β) : SelfDelimiting (p.map f) := by
  intro s b r hs
  rw [Reader.map, map_eq_some_iff] at hs
  obtain ⟨⟨a, r₁⟩, ha, hab⟩ := hs
  simp only [Prod.mk.injEq] at hab
  obtain ⟨rfl, rfl⟩ := hab
  obtain ⟨c, hc, hnul, hvis, hall⟩ := h s a r₁ ha
  exact ⟨c, hc, hnul, hvis, fun r' => by simp [Reader.map, hall r']⟩

/-- A visible first character in front of closed readers. -/
theorem selfDelimiting_after {f : Char → Reader α} (hnul : f nul = .fail)
    (h : ∀ x, Closed (f x)) : SelfDelimiting (.after f) := by
  intro s a r hs
  unfold Reader.after at hs
  cases hskip : skipSpace s with
  | nil => rw [hskip] at hs; cases hs
  | cons x t =>
    rw [hskip] at hs
    obtain ⟨w, hw, hwnul, hwall, hspace⟩ := skipSpace_cons hskip
    obtain ⟨c, hc, hcnul, hall⟩ := h x t a r hs
    refine ⟨w ++ x :: c, by rw [hw, hc]; simp, ?_, ⟨x, by simp, hspace⟩, fun r' => ?_⟩
    · simp only [mem_append, mem_cons, not_or]
      refine ⟨hwnul, ?_, hcnul⟩
      rintro rfl
      change f nul t = some (a, r) at hs
      rw [hnul] at hs
      cases hs
    · have := hwall (c ++ r')
      simp only [Reader.after, append_assoc, cons_append, this, hall r']

/-- After a local reader, a self-delimiting one fixes the character that follows the first. -/
theorem Local.andThen (h : Local p) {f : α → Reader β} (hf : ∀ a, SelfDelimiting (f a)) :
    SelfDelimiting (p.andThen f) := by
  intro s b r hs
  rw [Reader.andThen, bind_eq_some_iff] at hs
  obtain ⟨⟨a, r₁⟩, ha, hb⟩ := hs
  obtain ⟨c, hc, hnul, hall⟩ := h s a r₁ ha
  obtain ⟨d, hd, hdnul, hvis, hdall⟩ := hf a r₁ b r hb
  refine ⟨c ++ d, by rw [hc, hd, append_assoc], ?_, hvis.append_left, fun r' => ?_⟩
  · simp only [mem_append, not_or]
    exact ⟨hnul, hdnul⟩
  · have hhead : (d ++ r').head? = r₁.head? := by
      obtain ⟨x, hx, -⟩ := hvis
      rw [hd]
      cases d with
      | nil => cases hx
      | cons y d => rfl
    simp [Reader.andThen, hall _ hhead, hdall r']

theorem bracketed_selfDelimiting {close : Char} (hspace : isSpace close = false)
    (hclose : nul ≠ close) (e : Json) (f : α → Json) (hq : SelfDelimiting q) :
    SelfDelimiting (bracketed close e f q) := by
  intro s a rest h
  unfold bracketed at h
  split_ifs at h with hempty
  · obtain ⟨t, ht⟩ : ∃ t, skipSpace s = close :: t := by
      cases hs : skipSpace s with
      | nil => rw [hs] at hempty; cases hempty
      | cons y t =>
        rw [hs, List.head?_cons, Option.some.injEq] at hempty
        exact ⟨t, by rw [hempty]⟩
    rw [ht, tail_cons] at h
    cases h
    obtain ⟨w, hw, hnul, hall, -⟩ := skipSpace_cons ht
    refine ⟨w ++ [close], by rw [hw]; simp, ?_, ⟨close, by simp, hspace⟩, fun r' => ?_⟩
    · simp only [mem_append, mem_singleton, not_or]
      exact ⟨hnul, hclose⟩
    · rw [append_assoc, singleton_append]
      simp [bracketed, hall r']
  · obtain ⟨c, hc, hnul, hvis, hall⟩ := hq.map f s a rest h
    refine ⟨c, hc, hnul, hvis, fun r' => ?_⟩
    -- the first visible character of the text lies in the consumed piece
    obtain ⟨x, d, -, hd⟩ := hvis.skipSpace_append
    rw [hc, hd rest, List.head?_cons] at hempty
    have hne : (skipSpace (c ++ r')).head? ≠ some close := by
      rw [hd r', List.head?_cons]
      exact hempty
    rw [bracketed, if_neg hne, hall r']

/-! ### Values -/

theorem dispatch_closed {is : Reader (List Json)} (hms : SelfDelimiting ms)
    (his : SelfDelimiting is) (hx : isNumberChar x = false) : Closed (dispatch ms is x) := by
  unfold dispatch
  split_ifs
  · exact (bracketed_selfDelimiting (by decide) (by decide) _ _ hms).closed
  · exact (bracketed_selfDelimiting (by decide) (by decide) _ _ his).closed
  · exact (stringBody_selfDelimiting.map _).closed
  · exact (word_selfDelimiting _ (by decide) ⟨'u', by decide, by decide⟩ _).closed
  · exact (word_selfDelimiting _ (by decide) ⟨'r', by decide, by decide⟩ _).closed
  · exact (word_selfDelimiting _ (by decide) ⟨'a', by decide, by decide⟩ _).closed
  · intro s a r h
    simp [number, hx, numberOf] at h

theorem dispatch_number {is : Reader (List Json)} (hx : isNumberChar x = true) (s : List Char) :
    dispatch ms is x s = number (x :: s) := by
  have hne : ∀ y, isNumberChar y = false → x ≠ y := by
    rintro y hy rfl
    rw [hx] at hy
    cases hy
  unfold dispatch
  rw [if_neg (hne _ (by decide)), if_neg (hne _ (by decide)), if_neg (hne _ (by decide)),
    if_neg (hne _ (by decide)), if_neg (hne _ (by decide)), if_neg (hne _ (by decide))]

/-- The readers of one fuel value. -/
structure LocalAt (n : Nat) : Prop where
  value : Local (value n)
  members : SelfDelimiting (members n)
  items : SelfDelimiting (items n)

private theorem local_value_succ (h : LocalAt n) : Local (value (n + 1)) := by
  intro s a r hs
  rw [value, Reader.after] at hs
  cases hskip : skipSpace s with
  | nil => rw [hskip] at hs; cases hs
  | cons x t =>
    rw [hskip] at hs
    obtain ⟨w, hw, hwnul, hwall, -⟩ := skipSpace_cons hskip
    by_cases hx : isNumberChar x = true
    · change dispatch _ _ x t = _ at hs
      rw [dispatch_number hx] at hs
      obtain ⟨c, hc, hne, hcnul, hall⟩ := number_local _ _ _ hs
      obtain ⟨p, rfl⟩ : ∃ p, c = x :: p := by
        cases c with
        | nil => exact absurd rfl hne
        | cons y p =>
          rw [cons_append, List.cons.injEq] at hc
          exact ⟨p, by rw [hc.1]⟩
      refine ⟨w ++ x :: p, by rw [hw, hc]; simp, ?_, fun r' hr' => ?_⟩
      · rw [mem_append, not_or]
        exact ⟨hwnul, hcnul⟩
      · have := hwall (p ++ r')
        simp only [value, Reader.after, append_assoc, cons_append, this]
        rw [dispatch_number hx]
        exact hall r' hr'
    · rw [Bool.not_eq_true] at hx
      obtain ⟨c, hc, hcnul, hall⟩ := dispatch_closed h.members h.items hx t a r hs
      refine ⟨w ++ x :: c, by rw [hw, hc]; simp, ?_, fun r' _ => ?_⟩
      · simp only [mem_append, mem_cons, not_or]
        refine ⟨hwnul, ?_, hcnul⟩
        rintro rfl
        cases hs
      · have := hwall (c ++ r')
        simp only [value, Reader.after, append_assoc, cons_append, this, hall r']

private theorem members_succ (h : LocalAt n) : SelfDelimiting (members (n + 1)) := by
  rw [members]
  refine selfDelimiting_after rfl fun c => ?_
  split_ifs
  · refine (stringBody_selfDelimiting.closed.local.andThen fun k => ?_).closed
    refine selfDelimiting_after rfl fun c' => ?_
    split_ifs
    · refine (h.value.andThen fun v => ?_).closed
      refine selfDelimiting_after rfl fun d => ?_
      split_ifs
      · exact (h.members.map _).closed
      · exact closed_done _
      · exact closed_fail
    · exact closed_fail
  · exact closed_fail

private theorem items_succ (h : LocalAt n) : SelfDelimiting (items (n + 1)) := by
  rw [items]
  refine h.value.andThen fun v => ?_
  refine selfDelimiting_after rfl fun d => ?_
  split_ifs
  · exact (h.items.map _).closed
  · exact closed_done _
  · exact closed_fail

/-- The readers are local at every fuel. -/
theorem local_of_fuel (n : Nat) : LocalAt n := by
  induction n with
  | zero =>
    have hnone {β : Type} : ∀ s (a : β) r, (Reader.fail : Reader β) s ≠ some (a, r) :=
      fun _ _ _ h => by cases h
    exact ⟨fun s a r h => absurd h (hnone s a r), fun s a r h => absurd h (hnone s a r),
      fun s a r h => absurd h (hnone s a r)⟩
  | succ n ih => exact ⟨local_value_succ ih, members_succ ih, items_succ ih⟩

/-- An object is closed: whatever follows its text is left unread. -/
theorem value_object {n : Nat} {s : List Char} {v : Json} {r : List Char}
    (h : value n ('{' :: s) = some (v, r)) :
    ∃ c, s = c ++ r ∧ nul ∉ c ∧ ∀ r', value n ('{' :: (c ++ r')) = some (v, r') := by
  cases n with
  | zero => cases h
  | succ n =>
    have hn := local_of_fuel n
    have hstep : ∀ t, value (n + 1) ('{' :: t) = dispatch (members n) (items n) '{' t := by
      intro t
      rw [value, Reader.after, skipSpace, dropWhile_cons_of_neg (by decide)]
    rw [hstep] at h
    obtain ⟨c, hc, hnul, hall⟩ := dispatch_closed hn.members hn.items (x := '{') (by decide) s v r h
    exact ⟨c, hc, hnul, fun r' => by rw [hstep, hall r']⟩

/-! ### Fuel -/

/-- The second reader succeeds with the same result wherever the first one does. -/
def Reader.Le (p q : Reader α) : Prop := ∀ s x, p s = some x → q s = some x

theorem Reader.Le.refl (p : Reader α) : p.Le p := fun _ _ h => h

theorem Reader.Le.map (h : p.Le q) (f : α → β) : (p.map f).Le (q.map f) := by
  intro s x hs
  rw [Reader.map, map_eq_some_iff] at hs ⊢
  obtain ⟨y, hy, hxy⟩ := hs
  exact ⟨y, h s y hy, hxy⟩

theorem Reader.Le.andThen (h : p.Le q) {f g : α → Reader β} (hfg : ∀ a, (f a).Le (g a)) :
    (p.andThen f).Le (q.andThen g) := by
  intro s x hs
  rw [Reader.andThen, bind_eq_some_iff] at hs ⊢
  obtain ⟨y, hy, hxy⟩ := hs
  exact ⟨y, h s y hy, hfg y.1 y.2 x hxy⟩

theorem Reader.Le.after {f g : Char → Reader α} (h : ∀ c, (f c).Le (g c)) :
    (Reader.after f).Le (.after g) := by
  intro s x hs
  unfold Reader.after at hs ⊢
  cases hskip : skipSpace s with
  | nil => rw [hskip] at hs; cases hs
  | cons c r =>
    rw [hskip] at hs
    exact h c r x hs

theorem Reader.Le.bracketed {close : Char} {e : Json} {f : α → Json} (h : p.Le q) :
    (bracketed close e f p).Le (bracketed close e f q) := by
  intro s x hs
  unfold Json.bracketed at hs ⊢
  split_ifs at hs ⊢ with hempty
  · exact hs
  · exact h.map f s x hs

/-- More fuel never changes a result. -/
structure FuelStep (n : Nat) : Prop where
  value : (value n).Le (Json.value (n + 1))
  members : (members n).Le (Json.members (n + 1))
  items : (items n).Le (Json.items (n + 1))

private theorem fuelStep_succ (h : FuelStep n) : FuelStep (n + 1) := by
  refine ⟨?_, ?_, ?_⟩
  · rw [value.eq_def (n + 1), value.eq_def (n + 1 + 1)]
    refine Reader.Le.after fun c => ?_
    unfold dispatch
    split_ifs
    · exact h.members.bracketed
    · exact h.items.bracketed
    all_goals exact .refl _
  · rw [members.eq_def (n + 1), members.eq_def (n + 1 + 1)]
    refine Reader.Le.after fun c => ?_
    split_ifs
    · refine (Reader.Le.refl _).andThen fun k => .after fun c' => ?_
      split_ifs
      · refine h.value.andThen fun v => .after fun d => ?_
        split_ifs
        · exact h.members.map _
        all_goals exact .refl _
      · exact .refl _
    · exact .refl _
  · rw [items.eq_def (n + 1), items.eq_def (n + 1 + 1)]
    refine h.value.andThen fun v => .after fun d => ?_
    split_ifs
    · exact h.items.map _
    all_goals exact .refl _

theorem fuelStep (n : Nat) : FuelStep n := by
  induction n with
  | zero =>
    refine ⟨?_, ?_, ?_⟩ <;>
    · intro s x h
      cases h
  | succ n ih => exact fuelStep_succ ih

theorem value_mono {m : Nat} (h : n ≤ m) : (value n).Le (value m) := by
  induction h with
  | refl => exact .refl _
  | step _ ih => exact fun s x hs => (fuelStep _).value s x (ih s x hs)

theorem value_unique {m : Nat} {s : List Char} {x y : Json × List Char} (hx : value n s = some x)
    (hy : value m s = some y) : x = y := by
  have hx' := value_mono (Nat.le_max_left n m) s x hx
  have hy' := value_mono (Nat.le_max_right n m) s y hy
  rw [hx', Option.some.injEq] at hy'
  exact hy'

/-! ### Cut records -/

theorem parse_eq_some_iff {text : List Char} {v : Json} :
    parse text = some v ↔ ∃ r, value (text.length + 1) text = some (v, r) ∧ skipSpace r = [] := by
  unfold parse
  rw [bind_eq_some_iff]
  constructor
  · rintro ⟨⟨a, r⟩, ha, h⟩
    split_ifs at h with hr
    rw [Option.some.injEq] at h
    exact ⟨r, h ▸ ha, hr⟩
  · rintro ⟨r, hr, hskip⟩
    exact ⟨(v, r), hr, by rw [if_pos hskip]⟩

/-- A text that stops inside an object, filled up with NUL characters or not, does not parse. -/
theorem parse_cut_eq_none {s t : List Char} {v : Json} (h : parse ('{' :: (s ++ t)) = some v)
    (ht : Visible t) (k : Nat) :
    parse ('{' :: (s ++ List.replicate k nul)) = none := by
  rw [eq_none_iff_forall_ne_some]
  intro v' hv'
  obtain ⟨r, hr, hrskip⟩ := parse_eq_some_iff.mp h
  obtain ⟨r', hr', hrskip'⟩ := parse_eq_some_iff.mp hv'
  obtain ⟨c, hc, hnul, hall⟩ := value_object hr'
  -- the consumed piece of the cut text has no NUL, so it is part of `s`
  obtain ⟨u, rfl⟩ : ∃ u, s = c ++ u := by
    rcases append_eq_append_iff.mp hc with ⟨u, rfl, hu⟩ | ⟨u, rfl, -⟩
    · cases u with
      | nil => exact ⟨[], (append_nil _).symm.trans (by simp)⟩
      | cons x u =>
        have hx : x ∈ List.replicate k nul := by rw [hu]; simp
        rw [eq_of_mem_replicate hx] at hnul
        exact absurd (by simp) hnul
    · exact ⟨u, rfl⟩
  -- both readings of the full text agree, so it would end inside the cut part
  have hcut := hall (u ++ t)
  rw [← append_assoc] at hcut
  have hrest : r = u ++ t := congrArg Prod.snd (value_unique hr hcut)
  obtain ⟨x, d, -, hd⟩ := (ht.append_left (c := u)).skipSpace_append
  have hnil := hd []
  rw [append_nil, ← hrest, hrskip] at hnil
  cases hnil

end Json
