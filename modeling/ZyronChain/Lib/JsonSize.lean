import Mathlib.Algebra.GroupWithZero.Nat
import ZyronChain.Lib.AsciiBytes
import ZyronChain.Lib.Json

/-!
# The size of a JSON text

The number of UTF-8 bytes of the compact text of a value, by recursion on the value instead of
through its text.  Items and members count with the separator or the bracket that follows them, so
that sizes are sums and do not depend on an order.
-/

namespace Json

open List

/-- The number of UTF-8 bytes of a text. -/
def textSize (s : List Char) : Nat := (s.map Char.utf8Size).sum

@[simp] theorem textSize_nil : textSize [] = 0 := rfl

@[simp] theorem textSize_cons (c : Char) (s : List Char) :
    textSize (c :: s) = c.utf8Size + textSize s := by
  rw [textSize, map_cons, sum_cons, textSize]

@[simp] theorem textSize_append (s t : List Char) : textSize (s ++ t) = textSize s + textSize t := by
  rw [textSize, map_append, sum_append, textSize, textSize]

mutual

/-- The number of bytes of the text of a value. -/
def size : Json → Nat
  | null => 4
  | bool true => 4
  | bool false => 5
  | num n => textSize (intText n)
  | decimal literal => textSize literal
  | str s => textSize (quote s.toList)
  | arr items => 1 + max 1 (sizeItems items)
  | obj members => 1 + max 1 (sizeMembers members)

/-- The bytes of items, each with what follows it. -/
def sizeItems : List Json → Nat
  | [] => 0
  | v :: vs => size v + 1 + sizeItems vs

/-- The bytes of members, each with what follows it. -/
def sizeMembers : List (String × Json) → Nat
  | [] => 0
  | (k, v) :: ms => textSize (quote k.toList) + 1 + size v + 1 + sizeMembers ms

end

def namesSize : List String → Nat
  | [] => 0
  | name :: names => textSize (quote name.toList) + namesSize names

mutual

/-- The text of a value has the size of the value. -/
theorem textSize_render (v : Json) : textSize (render v) = size v := by
  cases v with
  | null => decide
  | bool b => cases b <;> decide
  | num | decimal | str => rfl
  | arr items =>
    have h := textSize_renderItems items
    have hopen : ('[' : Char).utf8Size = 1 := by decide
    have hclose : (']' : Char).utf8Size = 1 := by decide
    rw [render, size, textSize_cons, textSize_append, textSize_cons, textSize_nil]
    omega
  | obj members =>
    have h := textSize_renderMembers members
    have hopen : ('{' : Char).utf8Size = 1 := by decide
    have hclose : ('}' : Char).utf8Size = 1 := by decide
    rw [render, size, textSize_cons, textSize_append, textSize_cons, textSize_nil]
    omega

theorem textSize_renderItems (vs : List Json) :
    textSize (renderItems vs) + 1 = max 1 (sizeItems vs) := by
  match vs with
  | [] => decide
  | [v] =>
    have hv := textSize_render v
    rw [renderItems, sizeItems, sizeItems]
    omega
  | v :: w :: vs =>
    have hv := textSize_render v
    have h := textSize_renderItems (w :: vs)
    have hcomma : (',' : Char).utf8Size = 1 := by decide
    rw [sizeItems] at h
    rw [renderItems, sizeItems, sizeItems, textSize_append, textSize_cons]
    omega

theorem textSize_renderMembers (ms : List (String × Json)) :
    textSize (renderMembers ms) + 1 = max 1 (sizeMembers ms) := by
  have hcolon : (':' : Char).utf8Size = 1 := by decide
  match ms with
  | [] => decide
  | [(k, v)] =>
    have hv := textSize_render v
    rw [renderMembers, sizeMembers, sizeMembers, textSize_append, textSize_cons]
    omega
  | (k, v) :: (l, w) :: ms =>
    have hv := textSize_render v
    have h := textSize_renderMembers ((l, w) :: ms)
    have hcomma : (',' : Char).utf8Size = 1 := by decide
    rw [sizeMembers] at h
    rw [renderMembers, sizeMembers, sizeMembers, textSize_append, textSize_cons, textSize_append,
      textSize_cons]
    omega

end

/-! ### Orders of members and parts of arrays -/

theorem size_obj (ms : List (String × Json)) : (obj ms).size = 1 + max 1 (sizeMembers ms) := by
  rw [size]

theorem size_arr (vs : List Json) : (arr vs).size = 1 + max 1 (sizeItems vs) := by
  rw [size]

theorem sizeItems_append (vs ws : List Json) :
    sizeItems (vs ++ ws) = sizeItems vs + sizeItems ws := by
  induction vs with
  | nil => rw [nil_append, sizeItems, Nat.zero_add]
  | cons v vs ih =>
    rw [cons_append, sizeItems, sizeItems, ih]
    omega

theorem sizeMembers_perm {ms ns : List (String × Json)} (h : ms.Perm ns) :
    sizeMembers ms = sizeMembers ns := by
  induction h with
  | nil => rfl
  | cons m _ ih => rw [sizeMembers, sizeMembers, ih]
  | swap m n ms =>
    simp only [sizeMembers]
    omega
  | trans _ _ ih ih' => exact ih.trans ih'

theorem textSize_quote {s : List Char} (h : ∀ c ∈ s, escape c = [c]) :
    textSize (quote s) = textSize s + 2 := by
  have hflat : s.flatMap escape = s := by
    induction s with
    | nil => rfl
    | cons c s ih =>
      rw [flatMap_cons, h c (by simp), ih fun d hd => h d (by simp [hd])]
      rfl
  have hquote : ('"' : Char).utf8Size = 1 := by decide
  rw [quote, hflat, textSize_cons, textSize_append, textSize_cons, textSize_nil]
  omega

/-! ### A bound on the size -/

mutual

/-- A bound on the size of a value: no character of a string takes more than six times its bytes. -/
def sizeBound : Json → Nat
  | null => 4
  | bool _ => 5
  | num n => textSize (intText n)
  | decimal literal => textSize literal
  | str s => 6 * (AsciiBytes.bytes s).length + 2
  | arr items => 2 + sizeBoundItems items
  | obj members => 2 + sizeBoundMembers members

def sizeBoundItems : List Json → Nat
  | [] => 0
  | v :: vs => sizeBound v + 1 + sizeBoundItems vs

def sizeBoundMembers : List (String × Json) → Nat
  | [] => 0
  | (k, v) :: ms => 6 * (AsciiBytes.bytes k).length + 2 + 1 + sizeBound v + 1 + sizeBoundMembers ms

end

private theorem textSize_escape_le (c : Char) : textSize (escape c) ≤ 6 * c.utf8Size := by
  have hpos := c.utf8Size_pos
  have hone : ∀ d : Char, d.utf8Size = 1 → textSize ['\\', d] ≤ 6 * c.utf8Size := by
    intro d hd
    have hslash : ('\\' : Char).utf8Size = 1 := by decide
    rw [textSize_cons, textSize_cons, textSize_nil, hslash, hd]
    omega
  have hdigit : ∀ n, n < 16 → (hexDigit n).utf8Size = 1 := by decide
  unfold escape
  split_ifs with h₁ h₂ h₃ h₄ h₅ h₆ h₇ h₈
  · exact hone _ (by decide)
  · exact hone _ (by decide)
  · exact hone _ (by decide)
  · exact hone _ (by decide)
  · exact hone _ (by decide)
  · exact hone _ (by decide)
  · exact hone _ (by decide)
  · have hslash : textSize ['\\', 'u', '0', '0'] = 4 := by decide
    have hsplit : ['\\', 'u', '0', '0', hexDigit (c.toNat / 16), hexDigit (c.toNat % 16)] =
        ['\\', 'u', '0', '0'] ++ [hexDigit (c.toNat / 16), hexDigit (c.toNat % 16)] := rfl
    rw [hsplit, textSize_append, hslash, textSize_cons, textSize_cons, textSize_nil,
      hdigit _ (by omega), hdigit _ (by omega)]
    omega
  · rw [textSize_cons, textSize_nil]
    omega

private theorem length_bytes (s : String) : (AsciiBytes.bytes s).length = textSize s.toList := by
  rw [AsciiBytes.bytes_eq, List.length_flatMap, textSize]
  exact congrArg List.sum (List.map_congr_left fun c _ => String.length_utf8EncodeChar c)

private theorem textSize_quote_le (s : String) :
    textSize (quote s.toList) ≤ 6 * (AsciiBytes.bytes s).length + 2 := by
  have hbody : ∀ cs : List Char, textSize (cs.flatMap escape) ≤ 6 * textSize cs := by
    intro cs
    induction cs with
    | nil => exact Nat.zero_le _
    | cons c cs ih =>
      have hc := textSize_escape_le c
      rw [List.flatMap_cons, textSize_append, textSize_cons]
      omega
  have hquote : ('"' : Char).utf8Size = 1 := by decide
  have hs := hbody s.toList
  rw [quote, textSize_cons, textSize_append, textSize_cons, textSize_nil, length_bytes, hquote]
  omega

mutual

theorem size_le_sizeBound (v : Json) : size v ≤ sizeBound v := by
  cases v with
  | null => exact Nat.le_refl _
  | bool b => cases b <;> decide
  | num | decimal => exact Nat.le_refl _
  | str s => exact textSize_quote_le s
  | arr items =>
    have h := sizeItems_le_sizeBoundItems items
    rw [size, sizeBound]
    omega
  | obj members =>
    have h := sizeMembers_le_sizeBoundMembers members
    rw [size, sizeBound]
    omega

theorem sizeItems_le_sizeBoundItems (vs : List Json) : sizeItems vs ≤ sizeBoundItems vs := by
  match vs with
  | [] => exact Nat.le_refl _
  | v :: vs =>
    have hv := size_le_sizeBound v
    have hvs := sizeItems_le_sizeBoundItems vs
    rw [sizeItems, sizeBoundItems]
    omega

theorem sizeMembers_le_sizeBoundMembers (ms : List (String × Json)) :
    sizeMembers ms ≤ sizeBoundMembers ms := by
  match ms with
  | [] => exact Nat.le_refl _
  | (k, v) :: ms =>
    have hk := textSize_quote_le k
    have hv := size_le_sizeBound v
    have hms := sizeMembers_le_sizeBoundMembers ms
    rw [sizeMembers, sizeBoundMembers]
    omega

end

end Json
