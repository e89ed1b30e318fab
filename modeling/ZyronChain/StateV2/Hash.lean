import Mathlib.Data.Nat.Bitwise
import ZyronChain.CanonicalForm
import ZyronChain.Crypto
import ZyronChain.Lib.SparseDigest

/-!
# Hashes of the State-v2 tree

The digests of the authenticated state: domain-separated SHA-256 over the bytes of a key, of a
value, of a leaf, of an empty leaf and of a branch.

Source: `l1/src/state-v2.ts` (`hashWithDomain`, `leafHash`, `branchHash`, `bitAt`,
`buildEmptyHashes`).
-/

namespace ZyronChain

open Checks SparseTree Merkle List

/-- A SHA-256 hash, in lower-case hexadecimal. -/
abbrev Digest : Type := {s : String // IsHash64 s}

/-- `Buffer.from(hash, "hex")`. -/
def Digest.bytes (d : Digest) : List UInt8 := hexBytes d.val.toList

/-- The bits of a byte, as `bitAt` counts them. -/
def byteBits (b : UInt8) : List Bool := [7, 6, 5, 4, 3, 2, 1, 0].map b.toNat.testBit

/-- The bits of a hash: `bitAt(Buffer.from(hash, "hex"), depth)` is the bit at `depth`. -/
def Digest.bits (d : Digest) : List Bool := d.bytes.flatMap byteBits

/-! ### Hexadecimal strings and their bytes -/

theorem isLowerHex_iff {c : Char} : isLowerHex c = true ↔
    (48 ≤ c.toNat ∧ c.toNat ≤ 57) ∨ (97 ≤ c.toNat ∧ c.toNat ≤ 102) := by
  rw [isLowerHex, Bool.or_eq_true, Bool.and_eq_true, decide_eq_true_iff, decide_eq_true_iff,
    Char.isDigit_iff_toNat]
  rfl

private theorem hexValue_eq {c : Char} (h : isLowerHex c = true) :
    Json.hexValue c = some (if c.toNat ≤ 57 then c.toNat - 48 else c.toNat - 87) := by
  rw [isLowerHex_iff] at h
  rw [Json.hexValue]
  rcases h with h | h
  · rw [if_pos (Char.isDigit_iff_toNat.mpr h), if_pos h.2]
    rfl
  · have hdigit : ¬ c.isDigit = true := by
      rw [Char.isDigit_iff_toNat]
      change ¬ (48 ≤ c.toNat ∧ c.toNat ≤ 57)
      omega
    have hletter : 'a' ≤ c ∧ c ≤ 'f' := h
    rw [if_neg hdigit, if_pos hletter, if_neg (by omega)]
    change some (c.toNat - 97 + 10) = _
    congr 1
    omega

private theorem hexBytes_cons {a b : Char} (ha : isLowerHex a = true) (hb : isLowerHex b = true)
    (s : List Char) : ∃ x y, x < 16 ∧ y < 16 ∧ (a.toNat = if x < 10 then x + 48 else x + 87) ∧
      (b.toNat = if y < 10 then y + 48 else y + 87) ∧
      hexBytes (a :: b :: s) = UInt8.ofNat (16 * x + y) :: hexBytes s := by
  have hx := isLowerHex_iff.mp ha
  have hy := isLowerHex_iff.mp hb
  refine ⟨if a.toNat ≤ 57 then a.toNat - 48 else a.toNat - 87,
    if b.toNat ≤ 57 then b.toNat - 48 else b.toNat - 87, ?_, ?_, ?_, ?_, ?_⟩
  · split <;> omega
  · split <;> omega
  · split <;> split <;> omega
  · split <;> split <;> omega
  · rw [hexBytes, hexValue_eq ha, hexValue_eq hb]

theorem length_hexBytes {n : Nat} {s : List Char} (hlen : s.length = 2 * n)
    (hs : ∀ c ∈ s, isLowerHex c = true) : (hexBytes s).length = n := by
  induction n generalizing s with
  | zero =>
    rw [length_eq_zero_iff.mp hlen]
    rfl
  | succ n ih =>
    match s with
    | a :: b :: s =>
      obtain ⟨x, y, -, -, -, -, hbytes⟩ := hexBytes_cons (hs a (by simp)) (hs b (by simp)) s
      rw [hbytes, length_cons, ih (by simp at hlen; omega) fun c hc => hs c (by simp [hc])]
    | [_] => simp at hlen; omega
    | [] => simp at hlen

theorem hexBytes_injective {n : Nat} {s t : List Char} (hslen : s.length = 2 * n)
    (htlen : t.length = 2 * n) (hs : ∀ c ∈ s, isLowerHex c = true)
    (ht : ∀ c ∈ t, isLowerHex c = true) (h : hexBytes s = hexBytes t) : s = t := by
  induction n generalizing s t with
  | zero => rw [length_eq_zero_iff.mp hslen, length_eq_zero_iff.mp htlen]
  | succ n ih =>
    match s, t with
    | a :: b :: s, c :: d :: t =>
      obtain ⟨x, y, hx, hy, ha, hb, hbytes⟩ := hexBytes_cons (hs a (by simp)) (hs b (by simp)) s
      obtain ⟨z, w, hz, hw, hc, hd, hbytes'⟩ := hexBytes_cons (ht c (by simp)) (ht d (by simp)) t
      rw [hbytes, hbytes', List.cons.injEq] at h
      have hnat : 16 * x + y = 16 * z + w := by
        have := congrArg UInt8.toNat h.1
        rw [UInt8.toNat_ofNat', UInt8.toNat_ofNat', Nat.mod_eq_of_lt (by omega),
          Nat.mod_eq_of_lt (by omega)] at this
        exact this
      have hxz : x = z := by omega
      have hyw : y = w := by omega
      have hac : a = c := Char.toNat_inj.mp (by rw [ha, hc, hxz])
      have hbd : b = d := Char.toNat_inj.mp (by rw [hb, hd, hyw])
      rw [hac, hbd, ih (by simp at hslen; omega) (by simp at htlen; omega)
        (fun e he => hs e (by simp [he])) (fun e he => ht e (by simp [he])) h.2]
    | [_], _ => simp at hslen; omega
    | [], _ => simp at hslen
    | _, [_] => simp at htlen; omega
    | _, [] => simp at htlen

theorem Digest.length_bytes (d : Digest) : d.bytes.length = 32 :=
  length_hexBytes d.property.1 d.property.2

theorem Digest.bytes_injective : Function.Injective Digest.bytes := by
  intro d e h
  exact Subtype.ext (String.toList_inj.mp
    (hexBytes_injective (n := 32) d.property.1 e.property.1 d.property.2 e.property.2 h))

private theorem byteBits_injective : Function.Injective byteBits := by
  intro b c h
  simp only [byteBits, map_cons, map_nil, List.cons.injEq] at h
  refine UInt8.toNat_inj.mp (Nat.eq_of_testBit_eq fun i => ?_)
  by_cases hi : i < 8
  · interval_cases i <;> tauto
  · have hlt : ∀ x : UInt8, x.toNat < 2 ^ i := fun x =>
      lt_of_lt_of_le x.toNat_lt (Nat.pow_le_pow_right (by decide) (not_lt.mp hi))
    rw [Nat.testBit_eq_false_of_lt (hlt b), Nat.testBit_eq_false_of_lt (hlt c)]

private theorem flatMap_byteBits_injective {bs cs : List UInt8}
    (h : bs.flatMap byteBits = cs.flatMap byteBits) : bs = cs := by
  induction bs generalizing cs with
  | nil =>
    cases cs with
    | nil => rfl
    | cons c cs => simp [byteBits] at h
  | cons b bs ih =>
    cases cs with
    | nil => simp [byteBits] at h
    | cons c cs =>
      rw [flatMap_cons, flatMap_cons] at h
      obtain ⟨hbc, hrest⟩ := append_inj h rfl
      rw [byteBits_injective hbc, ih hrest]

theorem Digest.length_bits (d : Digest) : d.bits.length = 256 := by
  have hbyte : ∀ b : UInt8, (byteBits b).length = 8 := fun _ => rfl
  rw [Digest.bits, length_flatMap, map_congr_left fun b _ => hbyte b, map_const', d.length_bytes]
  rfl

theorem Digest.bits_injective : Function.Injective Digest.bits := fun _ _ h =>
  Digest.bytes_injective (flatMap_byteBits_injective h)

/-- `TREE_DEPTH`, and the path of every key hash. -/
def keyLayout : Layout Digest where
  height := 256
  path := Digest.bits
  length_path := Digest.length_bits
  path_injective := Digest.bits_injective

/-! ### Domain-separated hashes -/

def keyDomain : String := "ZyronChain/state-v2/key\x00"

def valueDomain : String := "ZyronChain/state-v2/value\x00"

def leafDomain : String := "ZyronChain/state-v2/leaf\x00"

def emptyLeafDomain : String := "ZyronChain/state-v2/empty-leaf\x00"

def branchDomain : String := "ZyronChain/state-v2/branch\x00"

/-- The bytes that `hashWithDomain` hashes. -/
def hashInput (domain : String) (parts : List (List UInt8)) : List UInt8 :=
  utf8 domain.toList ++ parts.flatten

variable [Crypto]

def hashWithDomain (domain : String) (parts : List (List UInt8)) : Digest :=
  ⟨Crypto.sha256 (hashInput domain parts), Crypto.sha256_hex _⟩

def stateKeyHash (key : String) : Digest := hashWithDomain keyDomain [utf8 key.toList]

/-- The hash of the canonical text of a value. -/
def stateValueHash (valueJson : List Char) : Digest := hashWithDomain valueDomain [utf8 valueJson]

def leafHash (keyHash valueHash : Digest) : Digest :=
  hashWithDomain leafDomain [keyHash.bytes, valueHash.bytes]

def branchHash (left right : Digest) : Digest :=
  hashWithDomain branchDomain [left.bytes, right.bytes]

/-- The digest of a node of the tree: an empty leaf, a leaf with its key hash and the text of its
value, or a branch. -/
def nodeDigest : Preimage (Option (Digest × List Char)) Digest → Digest
  | .leaf none => hashWithDomain emptyLeafDomain []
  | .leaf (some (keyHash, valueJson)) => leafHash keyHash (stateValueHash valueJson)
  | .branch left right => branchHash left right

/-! ### Collisions -/

/-- The byte strings that are hashed for a node. -/
def nodeEncodings : Preimage (Option (Digest × List Char)) Digest → Set (List UInt8)
  | .leaf none => {hashInput emptyLeafDomain []}
  | .leaf (some (keyHash, valueJson)) =>
    {hashInput leafDomain [keyHash.bytes, (stateValueHash valueJson).bytes],
      hashInput valueDomain [utf8 valueJson]}
  | .branch left right => {hashInput branchDomain [left.bytes, right.bytes]}

/-- Two different byte strings of a set have one SHA-256 hash. -/
def ByteCollision (inputs : Set (List UInt8)) : Prop :=
  ∃ x ∈ inputs, ∃ y ∈ inputs, x ≠ y ∧ Crypto.sha256 x = Crypto.sha256 y

theorem ByteCollision.mono {s t : Set (List UInt8)} (h : ByteCollision s) (hst : s ⊆ t) :
    ByteCollision t := by
  obtain ⟨x, hx, y, hy, hne, heq⟩ := h
  exact ⟨x, hst hx, y, hst hy, hne, heq⟩

/-- Hashes under one value come from one input, or collide. -/
theorem hashInput_eq_or_collision {inputs : Set (List UInt8)} {d e : String}
    {xs ys : List (List UInt8)} (hx : hashInput d xs ∈ inputs) (hy : hashInput e ys ∈ inputs)
    (h : hashWithDomain d xs = hashWithDomain e ys) :
    hashInput d xs = hashInput e ys ∨ ByteCollision inputs := by
  by_cases hxy : hashInput d xs = hashInput e ys
  · exact .inl hxy
  · exact .inr ⟨_, hx, _, hy, hxy, congrArg Subtype.val h⟩

omit [Crypto] in
private theorem length_hashInput (domain : String) (parts : List (List UInt8)) :
    (hashInput domain parts).length = byteLength domain.toList + (parts.map List.length).sum := by
  rw [hashInput, length_append, length_utf8, length_flatten]

omit [Crypto] in
private theorem hashInput_pair_injective {domain : String} {a b c d : Digest}
    (h : hashInput domain [a.bytes, b.bytes] = hashInput domain [c.bytes, d.bytes]) :
    a = c ∧ b = d := by
  have hparts := append_cancel_left h
  simp only [flatten_cons, flatten_nil, append_nil] at hparts
  obtain ⟨hac, hbd⟩ := append_inj hparts (by rw [a.length_bytes, c.length_bytes])
  exact ⟨Digest.bytes_injective hac, Digest.bytes_injective hbd⟩

omit [Crypto] in
theorem hashInput_text_injective {domain : String} {a b : List Char}
    (h : hashInput domain [utf8 a] = hashInput domain [utf8 b]) : a = b := by
  have hparts := append_cancel_left h
  simp only [flatten_cons, flatten_nil, append_nil] at hparts
  exact utf8_injective hparts

omit [Crypto] in
private theorem length_nodeInputs (a b c d : Digest) :
    (hashInput emptyLeafDomain []).length = 31 ∧
      (hashInput leafDomain [a.bytes, b.bytes]).length = 89 ∧
      (hashInput branchDomain [c.bytes, d.bytes]).length = 91 := by
  have hempty : byteLength emptyLeafDomain.toList = 31 := by decide
  have hleaf : byteLength leafDomain.toList = 25 := by decide
  have hbranch : byteLength branchDomain.toList = 27 := by decide
  simp [length_hashInput, hempty, hleaf, hbranch, Digest.length_bytes]

private theorem collision_of_lengths {inputs : Set (List UInt8)} {d e : String}
    {xs ys : List (List UInt8)} (hx : hashInput d xs ∈ inputs) (hy : hashInput e ys ∈ inputs)
    (hlen : (hashInput d xs).length ≠ (hashInput e ys).length)
    (h : hashWithDomain d xs = hashWithDomain e ys) : ByteCollision inputs :=
  (hashInput_eq_or_collision hx hy h).resolve_left fun heq => hlen (congrArg List.length heq)

/-- The byte strings hashed for the nodes of a set. -/
def encodings (nodes : Set (Preimage (Option (Digest × List Char)) Digest)) : Set (List UInt8) :=
  {bytes | ∃ node ∈ nodes, bytes ∈ nodeEncodings node}

/-- A collision of the digest of the tree is a collision of SHA-256. -/
theorem byteCollision_of_collides {nodes : Set (Preimage (Option (Digest × List Char)) Digest)}
    (h : Collides nodeDigest nodes) : ByteCollision (encodings nodes) := by
  obtain ⟨x, hx, y, hy, hne, heq⟩ := h
  have hmem : ∀ node ∈ nodes, ∀ bytes ∈ nodeEncodings node, bytes ∈ encodings nodes :=
    fun node hnode bytes hbytes => ⟨node, hnode, hbytes⟩
  match x, y with
  | .leaf none, .leaf none => exact absurd rfl hne
  | .leaf none, .leaf (some (k, v)) =>
    have hlen := length_nodeInputs k (stateValueHash v) k k
    exact collision_of_lengths (hmem _ hx _ rfl) (hmem _ hy _ (.inl rfl))
      (by rw [hlen.1, hlen.2.1]; decide) heq
  | .leaf none, .branch l r =>
    have hlen := length_nodeInputs l l l r
    exact collision_of_lengths (hmem _ hx _ rfl) (hmem _ hy _ rfl)
      (by rw [hlen.1, hlen.2.2]; decide) heq
  | .leaf (some (k, v)), .leaf none =>
    have hlen := length_nodeInputs k (stateValueHash v) k k
    exact collision_of_lengths (hmem _ hx _ (.inl rfl)) (hmem _ hy _ rfl)
      (by rw [hlen.1, hlen.2.1]; decide) heq
  | .leaf (some (k, v)), .leaf (some (k', v')) =>
    rcases hashInput_eq_or_collision (hmem _ hx _ (.inl rfl)) (hmem _ hy _ (.inl rfl)) heq with
      hinput | hcollision
    · -- The leaves agree, so the texts of their values collide.
      obtain ⟨hkey, hvalue⟩ := hashInput_pair_injective hinput
      rcases hashInput_eq_or_collision (hmem _ hx _ (.inr rfl)) (hmem _ hy _ (.inr rfl)) hvalue
        with htext | hcollision
      · exact absurd (by rw [hkey, hashInput_text_injective htext]) hne
      · exact hcollision
    · exact hcollision
  | .leaf (some (k, v)), .branch l r =>
    have hlen := length_nodeInputs k (stateValueHash v) l r
    exact collision_of_lengths (hmem _ hx _ (.inl rfl)) (hmem _ hy _ rfl)
      (by rw [hlen.2.1, hlen.2.2]; decide) heq
  | .branch l r, .leaf none =>
    have hlen := length_nodeInputs l l l r
    exact collision_of_lengths (hmem _ hx _ rfl) (hmem _ hy _ rfl)
      (by rw [hlen.1, hlen.2.2]; decide) heq
  | .branch l r, .leaf (some (k, v)) =>
    have hlen := length_nodeInputs k (stateValueHash v) l r
    exact collision_of_lengths (hmem _ hx _ rfl) (hmem _ hy _ (.inl rfl))
      (by rw [hlen.2.1, hlen.2.2]; decide) heq
  | .branch l r, .branch l' r' =>
    rcases hashInput_eq_or_collision (hmem _ hx _ rfl) (hmem _ hy _ rfl) heq with
      hinput | hcollision
    · obtain ⟨hl, hr⟩ := hashInput_pair_injective hinput
      exact absurd (by rw [hl, hr]) hne
    · exact hcollision

end ZyronChain
