import Mathlib.Tactic.Common

/-!
# Sequences of checks that stop at the first failure

Code of the shape `if (bad) throw new Error(message)` is written as a `do` block over
`Except String`, one `throwIf` a line.  The lemmas of this file turn the equation
"the block returned `r`" into the conjunction of the negated conditions, so that no proof
about such a block has to split it by hand.
-/

namespace Checks

open List

variable {α β : Type}

/-- `if (bad) throw new Error(message)`. -/
def throwIf (bad : Prop) [Decidable bad] (message : String) : Except String Unit :=
  if bad then .error message else .ok ()

variable {x : Except String α} {bad : Prop} {check : α → Except String Unit}

theorem bind_eq_ok {f : α → Except String β} {r : β} :
    (x >>= f) = .ok r ↔ ∃ a, x = .ok a ∧ f a = .ok r := by
  cases x with
  | error | ok => simp [bind, Except.bind]

theorem unit_bind_eq_ok {x : Except String Unit} {f : Unit → Except String β} {r : β} :
    (x >>= f) = .ok r ↔ x = .ok () ∧ f () = .ok r := by
  rw [bind_eq_ok]
  constructor
  · rintro ⟨_, hx, hf⟩
    exact ⟨hx, hf⟩
  · rintro ⟨hx, hf⟩
    exact ⟨(), hx, hf⟩

@[simp] theorem throwIf_eq_ok [Decidable bad] {message : String} {u : Unit} :
    throwIf bad message = .ok u ↔ ¬ bad := by
  unfold throwIf
  split <;> simp_all

@[simp] theorem throwIf_bind_eq_ok [Decidable bad] {message : String} {f : Unit → Except String β}
    {r : β} : (throwIf bad message >>= f) = .ok r ↔ ¬ bad ∧ f () = .ok r := by
  rw [bind_eq_ok]
  constructor
  · rintro ⟨u, hu, hf⟩
    exact ⟨throwIf_eq_ok.mp hu, hf⟩
  · rintro ⟨hbad, hf⟩
    exact ⟨(), throwIf_eq_ok.mpr hbad, hf⟩

theorem throwIf_of_not [Decidable bad] {message : String} (h : ¬ bad) :
    throwIf bad message = .ok () :=
  if_neg h

theorem throwIf_of [Decidable bad] {message : String} (h : bad) :
    throwIf bad message = .error message :=
  if_pos h

@[simp] theorem ok_bind (a : α) (f : α → Except String β) :
    ((Except.ok a : Except String α) >>= f) = f a := rfl

/-! ### Loops -/

/-- `for (const x of xs) check(x)`. -/
def forEach (check : α → Except String Unit) : List α → Except String Unit
  | [] => .ok ()
  | x :: xs => check x >>= fun _ => forEach check xs

theorem forEach_eq_ok {xs : List α} {u : Unit} :
    forEach check xs = .ok u ↔ ∀ x ∈ xs, check x = .ok () := by
  induction xs with
  | nil => simp [forEach]
  | cons x xs ih =>
    rw [forEach, bind_eq_ok, forall_mem_cons, ih]
    constructor
    · rintro ⟨_, hx, hxs⟩
      exact ⟨hx, hxs⟩
    · rintro ⟨hx, hxs⟩
      exact ⟨(), hx, hxs⟩

/-- A loop that keeps the set of the keys it has seen: each item is checked, its key is looked up
and added, and the item is checked further. -/
def forDistinct {κ : Type} [DecidableEq κ] (key : α → κ) (duplicate : String)
    (before after : α → Except String Unit) : List κ → List α → Except String Unit
  | _, [] => .ok ()
  | seen, x :: xs => do
    before x
    throwIf (key x ∈ seen) duplicate
    after x
    forDistinct key duplicate before after (key x :: seen) xs

theorem forDistinct_eq_ok {κ : Type} [DecidableEq κ] {key : α → κ} {duplicate : String}
    {before after : α → Except String Unit} {seen : List κ} {xs : List α} {u : Unit} :
    forDistinct key duplicate before after seen xs = .ok u ↔
      (xs.map key).Nodup ∧ (∀ x ∈ xs, key x ∉ seen) ∧
        ∀ x ∈ xs, before x = .ok () ∧ after x = .ok () := by
  induction xs generalizing seen with
  | nil => simp [forDistinct]
  | cons x xs ih =>
    have hstep : forDistinct key duplicate before after seen (x :: xs) = .ok u ↔
        before x = .ok () ∧ key x ∉ seen ∧ after x = .ok () ∧
          forDistinct key duplicate before after (key x :: seen) xs = .ok u := by
      rw [forDistinct, bind_eq_ok]
      constructor
      · rintro ⟨_, hb, h⟩
        rw [throwIf_bind_eq_ok, bind_eq_ok] at h
        obtain ⟨hseen, _, ha, h⟩ := h
        exact ⟨hb, hseen, ha, h⟩
      · rintro ⟨hb, hseen, ha, h⟩
        exact ⟨(), hb, throwIf_bind_eq_ok.mpr ⟨hseen, bind_eq_ok.mpr ⟨(), ha, h⟩⟩⟩
    rw [hstep, ih, map_cons, nodup_cons, forall_mem_cons, forall_mem_cons]
    simp only [mem_cons, not_or, mem_map, not_exists, not_and]
    constructor
    · rintro ⟨hb, hseen, ha, hnodup, hfresh, hall⟩
      exact ⟨⟨fun y hy heq => (hfresh y hy).1 heq, hnodup⟩, ⟨hseen, fun y hy => (hfresh y hy).2⟩,
        ⟨hb, ha⟩, hall⟩
    · rintro ⟨⟨hx, hnodup⟩, ⟨hseen, hfresh⟩, ⟨hb, ha⟩, hall⟩
      exact ⟨hb, hseen, ha, hnodup, fun y hy => ⟨fun heq => hx y hy heq, hfresh y hy⟩, hall⟩

/-! ### Messages that are not reached -/

/-- A computation does not fail with the message. -/
def Avoids (message : String) (x : Except String α) : Prop := x ≠ .error message

section

variable {message other : String}

@[simp]
theorem avoids_ok (a : α) : Avoids message (.ok a : Except String α) := nofun

@[simp]
theorem avoids_error : Avoids message (.error other : Except String α) ↔ other ≠ message :=
  not_congr ⟨Except.error.inj, congrArg _⟩

@[simp]
theorem avoids_ite [Decidable bad] {y : Except String α} :
    Avoids message (if bad then x else y) ↔ (bad → Avoids message x) ∧ (¬ bad → Avoids message y) := by
  split <;> simp [*]

@[simp]
theorem avoids_throwIf [Decidable bad] :
    Avoids message (throwIf bad other) ↔ (bad → other ≠ message) := by
  simp [throwIf]

@[simp]
theorem avoids_bind {f : α → Except String β} :
    Avoids message (x >>= f) ↔ Avoids message x ∧ ∀ a, x = .ok a → Avoids message (f a) := by
  cases x <;> simp [bind, Except.bind]

theorem avoids_forEach {xs : List α} (h : ∀ x ∈ xs, Avoids message (check x)) :
    Avoids message (forEach check xs) := by
  induction xs with
  | nil => exact avoids_ok ()
  | cons x xs ih =>
    rw [forall_mem_cons] at h
    exact avoids_bind.mpr ⟨h.1, fun _ _ => ih h.2⟩

end

/-! ### Computations that succeed together -/

/-- Both computations return, and related values, or both fail, the second with the given message
only if the first does. -/
def Corresponds {γ δ : Type} (message : String) (R : γ → δ → Prop) :
    Except String γ → Except String δ → Prop
  | .ok a, .ok b => R a b
  | .error e, .error e' => e' = message → e = message
  | _, _ => False

section

variable {γ δ ε ζ : Type} {message : String} {R : γ → δ → Prop} {S : ε → ζ → Prop}

variable {y : Except String δ}

theorem Corresponds.bind {x : Except String γ} {f : γ → Except String ε} {g : δ → Except String ζ}
    (h : Corresponds message R x y)
    (hf : ∀ a b, R a b → x = .ok a → Corresponds message S (f a) (g b)) :
    Corresponds message S (x >>= f) (y >>= g) := by
  cases x with
  | error e =>
    cases y with
    | error e' => exact h
    | ok b => exact h.elim
  | ok a =>
    cases y with
    | error e' => exact h.elim
    | ok b => exact hf a b h rfl

theorem corresponds_self (x : Except String γ) : Corresponds message Eq x x := by
  cases x with
  | error e => exact id
  | ok a => exact rfl

theorem corresponds_throwIf {p q : Prop} [Decidable p] [Decidable q] {m m' : String} (h : p ↔ q)
    (hm : m' = message → m = message) : Corresponds message Eq (throwIf p m) (throwIf q m') := by
  by_cases hp : p
  · rw [throwIf_of hp, throwIf_of (h.mp hp)]
    exact hm
  · rw [throwIf_of_not hp, throwIf_of_not (hp ∘ h.mpr)]
    exact rfl

/-- Checks of both computations that succeed together. -/
theorem Corresponds.unit_bind {x y : Except String Unit} {f : Unit → Except String ε}
    {g : Unit → Except String ζ} (h : Corresponds message Eq x y)
    (hf : x = .ok () → Corresponds message S (f ()) (g ())) :
    Corresponds message S (x >>= f) (y >>= g) :=
  h.bind fun _ _ _ hx => hf hx

theorem Corresponds.exists_ok_iff {x : Except String γ} (h : Corresponds message R x y) :
    (∃ a, x = .ok a) ↔ ∃ b, y = .ok b := by
  cases x with
  | error e =>
    cases y with
    | error e' => simp
    | ok b => exact h.elim
  | ok a =>
    cases y with
    | error e' => exact h.elim
    | ok b => simp

theorem Corresponds.avoids {x : Except String γ} (h : Corresponds message R x y)
    (hx : Avoids message x) : Avoids message y := by
  rintro rfl
  cases x with
  | error e => exact hx (congrArg Except.error (h rfl))
  | ok a => exact h

theorem Corresponds.of_ok {x : Except String γ} (h : Corresponds message R x y) {a : γ}
    (hx : x = .ok a) : ∃ b, y = .ok b ∧ R a b := by
  subst hx
  cases y with
  | error e' => exact h.elim
  | ok b => exact ⟨b, rfl, h⟩

theorem Corresponds.of_ok_right {x : Except String γ} (h : Corresponds message R x y) {b : δ}
    (hy : y = .ok b) : ∃ a, x = .ok a ∧ R a b := by
  subst hy
  cases x with
  | error e => exact h.elim
  | ok a => exact ⟨a, rfl, h⟩

end

theorem throwIf_or {p q : Prop} [Decidable p] [Decidable q] (m : String)
    (f : Unit → Except String β) :
    (throwIf (p ∨ q) m >>= f) = throwIf p m >>= fun _ => throwIf q m >>= f := by
  by_cases hp : p
  · rw [throwIf_of hp, throwIf_of (.inl hp)]
    rfl
  · rw [throwIf_of_not hp]
    by_cases hq : q
    · rw [throwIf_of hq, throwIf_of (.inr hq)]
      rfl
    · rw [throwIf_of_not hq, throwIf_of_not (not_or.mpr ⟨hp, hq⟩)]
      rfl

end Checks
