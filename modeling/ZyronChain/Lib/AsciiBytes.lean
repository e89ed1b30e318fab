import Mathlib.Data.List.Basic
import Mathlib.Tactic.Common

/-!
# Properties of strings decided on their bytes

A property of the characters of a string that only ASCII characters can have is a property of the
bytes of the string.  A string is stored as its bytes, so the second form is decided without
decoding it.
-/

namespace AsciiBytes

open List

def bytes (s : String) : List UInt8 := s.toByteArray.data.toList

/-- A property of characters, on a byte. -/
def onByte (p : Char → Bool) (b : UInt8) : Bool := decide (b.toNat ≤ 127) && p (Char.ofNat b.toNat)

theorem bytes_eq (s : String) : bytes s = s.toList.flatMap String.utf8EncodeChar := by
  rw [bytes, ← String.utf8Encode_toList, List.utf8Encode, data_toByteArray]

private theorem encode_of_ascii {c : Char} (h : c.toNat ≤ 127) :
    String.utf8EncodeChar c = [UInt8.ofNat c.toNat] := by
  unfold String.utf8EncodeChar
  exact if_pos h

private theorem onByte_ofNat (p : Char → Bool) {c : Char} (h : c.toNat ≤ 127) :
    onByte p (UInt8.ofNat c.toNat) = p c := by
  have hbyte : (UInt8.ofNat c.toNat).toNat = c.toNat := by
    rw [UInt8.toNat_ofNat']
    omega
  rw [onByte, hbyte, Char.ofNat_toNat, decide_eq_true h, Bool.true_and]

private theorem onByte_of_not_ascii (p : Char → Bool) {c : Char} (h : 127 < c.toNat) :
    ∃ b ∈ String.utf8EncodeChar c, onByte p b = false := by
  have hlarge : ∀ n, n < 64 → onByte p (UInt8.ofNat (n + 128)) = false := by
    intro n hn
    have hbyte : (UInt8.ofNat (n + 128)).toNat = n + 128 := by
      rw [UInt8.toNat_ofNat']
      omega
    rw [onByte, hbyte, decide_eq_false (by omega), Bool.false_and]
  have hmod := hlarge (c.val.toNat % 64) (Nat.mod_lt _ (by decide))
  have hascii : ¬ c.val.toNat ≤ 127 := Nat.not_le.mpr h
  unfold String.utf8EncodeChar
  simp only [if_neg hascii]
  split
  · exact ⟨_, mem_cons_of_mem _ mem_cons_self, hmod⟩
  · split
    · exact ⟨_, mem_cons_of_mem _ (mem_cons_of_mem _ mem_cons_self), hmod⟩
    · exact ⟨_, mem_cons_of_mem _ (mem_cons_of_mem _ (mem_cons_of_mem _
        mem_cons_self)), hmod⟩

variable {p : Char → Bool} (hp : ∀ c, p c = true → c.toNat ≤ 127)

include hp

/-- A property of ASCII characters holds of all characters of a string when it holds of all its
bytes. -/
theorem forall_iff (s : String) :
    (∀ c ∈ s.toList, p c = true) ↔ (bytes s).all (onByte p) = true := by
  rw [bytes_eq, all_eq_true]
  constructor
  · intro h b hb
    obtain ⟨c, hc, hbc⟩ := mem_flatMap.mp hb
    rw [encode_of_ascii (hp c (h c hc)), mem_singleton] at hbc
    rw [hbc, onByte_ofNat p (hp c (h c hc)), h c hc]
  · intro h c hc
    have hbytes : ∀ b ∈ String.utf8EncodeChar c, onByte p b = true := fun b hb =>
      h b (mem_flatMap.mpr ⟨c, hc, hb⟩)
    rcases Nat.lt_or_ge 127 c.toNat with hlarge | hascii
    · obtain ⟨b, hb, hfalse⟩ := onByte_of_not_ascii p hlarge
      rw [hbytes b hb] at hfalse
      cases hfalse
    · have hb := hbytes (UInt8.ofNat c.toNat) (by rw [encode_of_ascii hascii]; simp)
      rwa [onByte_ofNat p hascii] at hb

/-- A string of ASCII characters has as many characters as bytes. -/
theorem length_eq {s : String} (h : ∀ c ∈ s.toList, p c = true) :
    s.toList.length = (bytes s).length := by
  rw [bytes_eq, length_flatMap]
  have hone : s.toList.map (fun c => (String.utf8EncodeChar c).length) = s.toList.map fun _ => 1 :=
    map_congr_left fun c hc => by rw [encode_of_ascii (hp c (h c hc)), length_singleton]
  rw [hone]
  simp

end AsciiBytes
