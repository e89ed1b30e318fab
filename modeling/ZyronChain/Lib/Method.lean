import Mathlib.Tactic.Common

/-!
# Method bodies that throw

The body of a method changes fields of its object and may throw half way; what it changed before
the throw stays changed, unless a handler puts it back.  `Method σ α` is such a body over the
fields `σ`.  The lemmas of this file run one statement at a time.

## Main definitions

* `Method` : a body that returns or throws, with the fields it leaves in either case.
* `Method.throwWhen` : one check.
* `Method.call` : a call of a function without fields.
* `Method.state` : the fields a run leaves.
* `Method.Ensures` : what holds after a run that returns, and after one that throws.

## Main results

* `Method.bind_of_ok`, `Method.bind_of_error` : a sequence, after its first part has run.
* `Method.tryCatch_of_ok`, `Method.tryCatch_of_error` : a handler, after the guarded part has run.
* `Method.ensures_bind` and the other rules for `Ensures` : one for each kind of statement.
-/

/-- A method body over the fields `σ`. -/
abbrev Method (σ α : Type) : Type := EStateM String σ α

namespace Method

variable {σ α β : Type}

/-- `if (bad) throw new Error(message)`. -/
def throwWhen (bad : Prop) [Decidable bad] (message : String) : Method σ Unit :=
  if bad then throw message else pure ()

/-- A call of a function that returns or throws and reads no field. -/
def call : Except String α → Method σ α
  | .ok a => pure a
  | .error e => throw e

/-- The fields after a run, whether it returned or threw. -/
def state : EStateM.Result String σ α → σ
  | .ok _ s => s
  | .error _ s => s

def returned : EStateM.Result String σ α → Bool
  | .ok _ _ => true
  | .error _ _ => false

theorem eq_ok_of_returned {r : EStateM.Result String σ Unit} (h : returned r = true) :
    r = .ok () (state r) := by
  cases r with
  | ok _ _ => rfl
  | error _ _ => cases h

theorem exists_of_returned {r : EStateM.Result String σ α} (h : returned r = true) :
    ∃ a s, r = .ok a s := by
  cases r with
  | ok a s => exact ⟨a, s, rfl⟩
  | error _ _ => cases h

@[simp] theorem state_ok (a : α) (s : σ) : state (.ok a s : EStateM.Result String σ α) = s := rfl

@[simp] theorem state_error (e : String) (s : σ) :
    state (.error e s : EStateM.Result String σ α) = s := rfl

variable {x : Method σ α} {message : String} {handler : String → Method σ α}

theorem bind_of_ok {f : α → Method σ β} {s s' : σ} {a : α} (h : x s = .ok a s') :
    (x >>= f) s = f a s' := by
  change EStateM.bind x f s = f a s'
  rw [EStateM.bind, h]

theorem bind_of_error {f : α → Method σ β} {s s' : σ} {e : String} (h : x s = .error e s') :
    (x >>= f) s = .error e s' := by
  change EStateM.bind x f s = .error e s'
  rw [EStateM.bind, h]

@[simp] theorem pure_run (a : α) (s : σ) : (pure a : Method σ α) s = .ok a s := rfl

@[simp] theorem throw_run (e : String) (s : σ) : (throw e : Method σ α) s = .error e s := rfl

@[simp] theorem modify_run (g : σ → σ) (s : σ) : (modify g : Method σ Unit) s = .ok () (g s) := rfl

@[simp] theorem get_run (s : σ) : (get : Method σ σ) s = .ok s s := rfl

theorem throwWhen_of {bad : Prop} [Decidable bad] (h : bad) (s : σ) :
    throwWhen bad message s = .error message s := by
  rw [throwWhen, if_pos h, throw_run]

theorem throwWhen_of_not {bad : Prop} [Decidable bad] (h : ¬ bad) (s : σ) :
    throwWhen bad message s = .ok () s := by
  rw [throwWhen, if_neg h, pure_run]

theorem tryCatch_of_ok {s s' : σ} {a : α} (h : x s = .ok a s') :
    (tryCatch x handler) s = .ok a s' := by
  change EStateM.tryCatch x handler s = .ok a s'
  rw [EStateM.tryCatch, h]

theorem tryCatch_of_error {s s' : σ} {e : String} (h : x s = .error e s') :
    (tryCatch x handler) s = handler e s' := by
  change EStateM.tryCatch x handler s = handler e s'
  rw [EStateM.tryCatch, h]
  rfl

/-! ### What a run ensures -/

/-- After a run from the fields `s`, `post` holds of the result and the fields if it returned, and
`fail` of the message and the fields if it threw. -/
def Ensures (x : Method σ α) (s : σ) (post : α → σ → Prop) (fail : String → σ → Prop) : Prop :=
  match x s with
  | .ok a s' => post a s'
  | .error e s' => fail e s'

variable {s s' : σ} {post : α → σ → Prop} {fail : String → σ → Prop}

theorem Ensures.of_ok {a : α} (h : Ensures x s post fail) (hx : x s = .ok a s') : post a s' := by
  rwa [Ensures, hx] at h

theorem Ensures.of_error {e : String} (h : Ensures x s post fail) (hx : x s = .error e s') :
    fail e s' := by
  rwa [Ensures, hx] at h

theorem Ensures.imp {post' : α → σ → Prop} {fail' : String → σ → Prop} (h : Ensures x s post fail)
    (hpost : ∀ a s', post a s' → post' a s') (hfail : ∀ e s', fail e s' → fail' e s') :
    Ensures x s post' fail' := by
  rw [Ensures] at h ⊢
  cases hx : x s with
  | ok a s' =>
    rw [hx] at h
    exact hpost a s' h
  | error e s' =>
    rw [hx] at h
    exact hfail e s' h

/-- A property that holds of the fields in both cases holds of what the run leaves. -/
theorem Ensures.state {p : σ → Prop} (h : Ensures x s (fun _ => p) fun _ => p) :
    p (state (x s)) := by
  rw [Ensures] at h
  cases hx : x s with
  | ok a s' =>
    rw [hx] at h
    exact h
  | error e s' =>
    rw [hx] at h
    exact h

@[simp] theorem ensures_pure (a : α) : Ensures (pure a) s post fail ↔ post a s := Iff.rfl

@[simp] theorem ensures_modify {post : Unit → σ → Prop} (g : σ → σ) :
    Ensures (modify g) s post fail ↔ post () (g s) := Iff.rfl

@[simp] theorem ensures_get {post : σ → σ → Prop} :
    Ensures (get : Method σ σ) s post fail ↔ post s s := Iff.rfl

@[simp] theorem ensures_bind {x : Method σ β} {f : β → Method σ α} :
    Ensures (x >>= f) s post fail ↔ Ensures x s (fun b s' => Ensures (f b) s' post fail) fail := by
  rw [Ensures, Ensures]
  cases hx : x s with
  | ok b s' =>
    rw [bind_of_ok hx]
    exact Iff.rfl
  | error e s' => rw [bind_of_error hx]

@[simp] theorem ensures_throwWhen {post : Unit → σ → Prop} {bad : Prop} [Decidable bad] :
    Ensures (throwWhen bad message) s post fail ↔ (bad → fail message s) ∧ (¬ bad → post () s) := by
  rw [Ensures]
  by_cases h : bad
  · rw [throwWhen_of h]
    exact ⟨fun hfail => ⟨fun _ => hfail, fun hnot => absurd h hnot⟩, fun hboth => hboth.1 h⟩
  · rw [throwWhen_of_not h]
    exact ⟨fun hpost => ⟨fun hbad => absurd hbad h, fun _ => hpost⟩, fun hboth => hboth.2 h⟩

@[simp] theorem ensures_call {x : Except String α} :
    Ensures (call x) s post fail ↔ (∀ a, x = .ok a → post a s) ∧ ∀ e, x = .error e → fail e s := by
  cases x with
  | ok a =>
    change post a s ↔ _
    simp
  | error e =>
    change fail e s ↔ _
    simp

end Method
