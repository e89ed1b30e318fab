import Mathlib.Data.List.TakeWhile
import Mathlib.Tactic.Common

/-!
# Bounded lines of an append-only file

A reader of newline-separated records that stops at a record longer than a limit.  A file is a
list of characters of one byte each.  The result is the stream of records in file order; a
record that is too long is an error in its place, after which nothing follows.
-/

/-- One record of a line-oriented file. -/
structure BoundedLine where
  text : List Char
  contentBytes : Nat
  serializedBytes : Nat
  terminated : Bool
deriving DecidableEq

namespace BoundedLine

/-- The pieces between newlines, each with whether a newline ended it.  A file that ends in a
newline has no empty last piece. -/
def splitLines : List Char → List (List Char × Bool)
  | [] => []
  | c :: s =>
    if c = '\n' then ([], true) :: splitLines s
    else
      match splitLines s with
      | [] => [([c], false)]
      | l :: ls => (c :: l.1, l.2) :: ls

/-- One record: a carriage return before the newline is not part of its text, and may exceed
the limit. -/
def materialize (maxLineBytes : Nat) (overflowMessage : String) (raw : List Char)
    (terminated : Bool) : Except String BoundedLine :=
  let allowsTrailingCr := raw.length = maxLineBytes + 1 ∧ raw.getLast? = some '\r'
  if raw.length > maxLineBytes ∧ ¬ allowsTrailingCr then .error overflowMessage
  else
    let line := if raw.getLast? = some '\r' then raw.dropLast else raw
    .ok
      { text := line
        contentBytes := line.length
        serializedBytes := raw.length + if terminated then 1 else 0
        terminated := terminated }

/-- Stops a stream after its first error. -/
def untilError : List (Except String BoundedLine) → List (Except String BoundedLine)
  | [] => []
  | .error e :: _ => [.error e]
  | .ok l :: ls => .ok l :: untilError ls

def readLines (maxLineBytes : Nat) (overflowMessage : String) (bytes : List Char) :
    List (Except String BoundedLine) :=
  untilError ((splitLines bytes).map fun l => materialize maxLineBytes overflowMessage l.1 l.2)

/-! ### Splitting -/

variable {l : List Char}

theorem splitLines_line (hl : '\n' ∉ l) (s : List Char) :
    splitLines (l ++ '\n' :: s) = (l, true) :: splitLines s := by
  induction l with
  | nil => simp [splitLines]
  | cons c l ih =>
    simp only [List.mem_cons, not_or] at hl
    rw [List.cons_append, splitLines, if_neg (Ne.symm hl.1), ih hl.2]

theorem splitLines_tail (hl : '\n' ∉ l) (hne : l ≠ []) : splitLines l = [(l, false)] := by
  induction l with
  | nil => exact absurd rfl hne
  | cons c l ih =>
    simp only [List.mem_cons, not_or] at hl
    rw [splitLines, if_neg (Ne.symm hl.1)]
    cases l with
    | nil => rfl
    | cons d l => rw [ih hl.2 (List.cons_ne_nil d l)]

/-! ### Records that fit -/

/-- A line a writer may produce: short, without newline or carriage return. -/
structure Short (maxLineBytes : Nat) (l : List Char) : Prop where
  newline : '\n' ∉ l
  cr : '\r' ∉ l
  length : l.length ≤ maxLineBytes

def record (l : List Char) (terminated : Bool) : BoundedLine :=
  { text := l
    contentBytes := l.length
    serializedBytes := l.length + if terminated then 1 else 0
    terminated := terminated }

@[simp] theorem record_text (l : List Char) (b : Bool) : (record l b).text = l := rfl

@[simp] theorem record_terminated (l : List Char) (b : Bool) : (record l b).terminated = b := rfl

variable {maxLineBytes : Nat} {o : String}

theorem materialize_short (hl : Short maxLineBytes l) (terminated : Bool) :
    materialize maxLineBytes o l terminated = .ok (record l terminated) := by
  have hlen : ¬ l.length > maxLineBytes := Nat.not_lt.mpr hl.length
  have hcr : l.getLast? ≠ some '\r' := fun h => hl.cr (List.mem_of_getLast? h)
  simp [materialize, hlen, hcr, record]

theorem readLines_line (hl : Short maxLineBytes l) (s : List Char) :
    readLines maxLineBytes o (l ++ '\n' :: s) =
      .ok (record l true) :: readLines maxLineBytes o s := by
  rw [readLines, splitLines_line hl.newline, List.map_cons, materialize_short hl, untilError]
  rfl

theorem readLines_tail (hl : Short maxLineBytes l) (hne : l ≠ []) :
    readLines maxLineBytes o l = [.ok (record l false)] := by
  rw [readLines, splitLines_tail hl.newline hne, List.map_cons, materialize_short hl]
  rfl

@[simp] theorem readLines_nil : readLines maxLineBytes o [] = [] := rfl

/-- The records of complete short lines and of what follows them. -/
theorem readLines_lines {ls : List (List Char)} (hls : ∀ l ∈ ls, Short maxLineBytes l)
    (s : List Char) :
    readLines maxLineBytes o (ls.flatMap (· ++ ['\n']) ++ s) =
      ls.map (fun l => .ok (record l true)) ++ readLines maxLineBytes o s := by
  induction ls with
  | nil => rfl
  | cons l ls ih =>
    have hl := hls l List.mem_cons_self
    have ih' := ih fun l' hl' => hls l' (List.mem_cons_of_mem l hl')
    rw [List.flatMap_cons, List.append_assoc, List.append_assoc, List.singleton_append,
      readLines_line hl, ih', List.map_cons, List.cons_append]

end BoundedLine

/-! ### Appends cut short -/

/-- What a crash leaves of an append: a prefix of it, followed by fill characters that reach at
most to the end of the append. -/
def Torn (fill : Char) (append cut : List Char) : Prop :=
  ∃ p t k, append = p ++ t ∧ k ≤ t.length ∧ cut = p ++ List.replicate k fill

theorem torn_nil (fill : Char) (append : List Char) : Torn fill append [] :=
  ⟨[], append, 0, rfl, Nat.zero_le _, rfl⟩

theorem Torn.length_le {fill : Char} {append cut : List Char} (h : Torn fill append cut) :
    cut.length ≤ append.length := by
  obtain ⟨p, t, k, rfl, hk, rfl⟩ := h
  simp only [List.length_append, List.length_replicate]
  omega

/-- A whole first part and a cut second part are a cut of the whole. -/
theorem Torn.append_left {fill : Char} {a b cut : List Char} (h : Torn fill b cut) :
    Torn fill (a ++ b) (a ++ cut) := by
  obtain ⟨p, t, k, rfl, hk, rfl⟩ := h
  exact ⟨a ++ p, t, k, by simp, hk, by simp⟩

theorem Torn.take {fill : Char} {append cut : List Char} (h : Torn fill append cut) (n : Nat) :
    Torn fill append (cut.take n) := by
  obtain ⟨p, t, k, rfl, hk, rfl⟩ := h
  refine ⟨p.take n, p.drop n ++ t, min (n - p.length) k, ?_, ?_, ?_⟩
  · rw [← List.append_assoc, List.take_append_drop]
  · rw [List.length_append]
    omega
  · rw [List.take_append, List.take_replicate]

theorem Torn.of_nil {fill : Char} {cut : List Char} (h : Torn fill [] cut) : cut = [] :=
  List.length_eq_zero_iff.mp (Nat.le_zero.mp h.length_le)

/-- A cut falls into the first part or behind it. -/
theorem Torn.split {fill : Char} {a b cut : List Char} (h : Torn fill (a ++ b) cut) :
    (∃ p t k, a = p ++ t ∧ t ≠ [] ∧ k ≤ (t ++ b).length ∧ cut = p ++ List.replicate k fill) ∨
      ∃ cut', Torn fill b cut' ∧ cut = a ++ cut' := by
  obtain ⟨p, t, k, hab, hk, rfl⟩ := h
  rcases List.append_eq_append_iff.mp hab with ⟨u, rfl, rfl⟩ | ⟨u, rfl, rfl⟩
  · exact .inr ⟨u ++ List.replicate k fill, ⟨u, t, k, rfl, hk, rfl⟩, by simp⟩
  · cases u with
    | nil => exact .inr ⟨List.replicate k fill, ⟨[], b, k, rfl, by simpa using hk, rfl⟩, by simp⟩
    | cons x u => exact .inl ⟨p, x :: u, k, rfl, List.cons_ne_nil x u, hk, rfl⟩
