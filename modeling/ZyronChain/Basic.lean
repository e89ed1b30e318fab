import Mathlib.Tactic.Common
import Mathlib.Data.List.Basic
import ZyronChain.Lib.AsciiBytes
import ZyronChain.Lib.Json

/-!
# Numbers and hashes

The checks every layer of the node makes on untrusted numbers and hash strings.

Source: `Number.isSafeInteger` and `/^[0-9a-f]{64}$/` as used throughout `l1/src`, and the
round bound of `consensus-v6.ts`.
-/

namespace ZyronChain

/-- `Number.MAX_SAFE_INTEGER`. -/
def maxSafeInteger : Int := 9007199254740991

/-- `Number.isSafeInteger`, on an integer. -/
def IsSafeInteger (n : Int) : Prop := -maxSafeInteger ≤ n ∧ n ≤ maxSafeInteger

instance (n : Int) : Decidable (IsSafeInteger n) := inferInstanceAs (Decidable (_ ∧ _))

/-- A character of `[0-9a-f]`. -/
def isLowerHex (c : Char) : Bool := c.isDigit || ('a' ≤ c && c ≤ 'f')

/-- `/^[0-9a-f]{64}$/`. -/
def IsHash64 (s : String) : Prop := s.toList.length = 64 ∧ ∀ c ∈ s.toList, isLowerHex c = true

theorem isAscii_of_isLowerHex (c : Char) (h : isLowerHex c = true) : c.toNat ≤ 127 := by
  rw [isLowerHex, Bool.or_eq_true, Char.isDigit, Bool.and_eq_true, Bool.and_eq_true,
    decide_eq_true_eq, decide_eq_true_eq, decide_eq_true_eq, decide_eq_true_eq] at h
  rcases h with ⟨-, hle⟩ | ⟨-, hle⟩
  · exact (show c.toNat ≤ 57 from hle).trans (by decide)
  · exact (show c.toNat ≤ 102 from hle).trans (by decide)

/-- A string of lower-case hexadecimal digits is one on its bytes. -/
theorem hexDigits_iff (s : String) (n : Nat) :
    ((AsciiBytes.bytes s).length = n ∧
      (AsciiBytes.bytes s).all (AsciiBytes.onByte isLowerHex) = true) ↔
    s.toList.length = n ∧ ∀ c ∈ s.toList, isLowerHex c = true := by
  rw [← AsciiBytes.forall_iff isAscii_of_isLowerHex]
  refine and_congr_left fun h => ?_
  rw [AsciiBytes.length_eq isAscii_of_isLowerHex h]

instance (s : String) : Decidable (IsHash64 s) := decidable_of_iff _ (hexDigits_iff s 64)

/-- `Number.isSafeInteger` of a JSON value, with the number. -/
def safeInteger? : Option Json → Option Int
  | some (.num n) => if IsSafeInteger n then some n else none
  | _ => none

/-- A JSON string that is a lower-case SHA-256 hash. -/
def hash64? : Option Json → Option String
  | some (.str s) => if IsHash64 s then some s else none
  | _ => none

theorem safeInteger?_num {n : Int} (h : IsSafeInteger n) : safeInteger? (some (.num n)) = some n :=
  if_pos h

theorem hash64?_str {s : String} (h : IsHash64 s) : hash64? (some (.str s)) = some s := if_pos h

def text? : Option Json → Option String
  | some (.str s) => some s
  | _ => none

/-- White space in the sense of `String.prototype.trim`. -/
def isTrimSpace (c : Char) : Bool :=
  c ∈ ['\t', '\n', '\x0b', '\x0c', '\r', ' ', '\u00a0', '\u1680', '\u2028', '\u2029', '\u202f',
    '\u205f', '\u3000', '\ufeff'] || ('\u2000' ≤ c && c ≤ '\u200a')

/-- `!text.trim()`. -/
def isBlank (text : List Char) : Bool := text.all isTrimSpace

/-! ### Protocol v6 locks -/

/-- `V6_MAX_ROUND`. -/
def v6MaxRound : Int := 1000000

/-- The block a validator is locked on at a height, and the round of the lock. -/
structure V6Lock where
  round : Int
  blockHash : String
deriving DecidableEq, Repr

/-- `safeVote`: a prepare vote is safe without a lock, for the locked block, or with a
justification from a round after the lock's. -/
def safeVote (lock : Option V6Lock) (blockHash : String) (justifyRound : Int) : Bool :=
  match lock with
  | none => true
  | some l => blockHash == l.blockHash || decide (justifyRound > l.round)

end ZyronChain
