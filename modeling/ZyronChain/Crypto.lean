import ZyronChain.Codec

/-!
# Hashes and signatures

SHA-256 and secp256k1 are parameters of the development; what the node builds on them is not.

Source: `l1/src/codec.ts` (`sha256Hex`), `l1/src/crypto.ts`, `l1/src/merkle.ts`.

## Main definitions

* `Crypto` : the hash, the verification of signatures and the points of the curve.
* `verifyCanonical`, `verifyCanonicalDomain` : signatures over canonical JSON.
* `merkleRoot` : the root over a list of values.

## Main results

* `verify_of_verifyForProtocol` : the text of which an accepted signature is a signature.
* `domainPayload_injective` : domain-separated texts determine the domain and the payload.
-/

namespace ZyronChain

open Checks

/-! ### Signed values -/

def domainPayload (domain : String) (payload : Json) : Json :=
  .obj [("domain", .str domain), ("payload", payload)]

/-- The value whose canonical text `verifyForProtocol` verifies a signature of. -/
def protocolMessage (protocolVersion : Int) (domain : String) (payload : Json) : Json :=
  if protocolVersion ≥ 3 then domainPayload domain payload else payload

theorem inOrder_domainPayload {domain : String} {payload : Json} (h : InOrder payload) :
    InOrder (domainPayload domain payload) :=
  ⟨(by decide : KeysInOrder ["domain", "payload"]), trivial, h, trivial⟩

theorem plain_domainPayload {domain : String} {payload : Json} (h : payload.Plain) :
    (domainPayload domain payload).Plain :=
  ⟨(by decide : ["domain", "payload"].Nodup), trivial, h, trivial⟩

/-! ### Primitives -/

/-- The cryptographic primitives. -/
class Crypto where
  /-- The SHA-256 digest of bytes, in lower-case hexadecimal. -/
  sha256 : List UInt8 → String
  sha256_hex : ∀ bytes, IsHash64 (sha256 bytes)
  /-- `secp256k1.verify` in the compact format, of the UTF-8 bytes of a text. -/
  verify : (signature : String) → (message : List Char) → (publicKey : String) → Bool
  /-- `secp256k1.Point.fromHex("04" + publicKey).assertValidity()` does not throw. -/
  isPoint : String → Bool

section

variable [Crypto]

/-- `sha256Hex` of a string. -/
def sha256Hex (text : List Char) : String := Crypto.sha256 (utf8 text)

def addressFromPublicKey (publicKey : String) : String :=
  String.ofList ("ZYN".toList ++ (Crypto.sha256 (hexBytes publicKey.toList)).toList.take 40)

def isValidPublicKey (publicKey : String) : Bool :=
  decide (IsHex 64 publicKey) && Crypto.isPoint publicKey

def assertValidPublicKey (publicKey label : String) : Except String Unit :=
  throwIf (¬ isValidPublicKey publicKey = true) s!"{label} is not a valid secp256k1 point"

variable {publicKey signature : String} {payload : Json}

theorem isHex_of_isValidPublicKey (h : isValidPublicKey publicKey = true) : IsHex 64 publicKey := by
  rw [isValidPublicKey, Bool.and_eq_true, decide_eq_true_eq] at h
  exact h.1

def verifyCanonical (payload : Json) (signature publicKey : String) : Bool :=
  match canonicalJson payload with
  | .ok message => Crypto.verify signature message publicKey
  | .error _ => false

/-- A digit, a lower-case letter, or one of `.`, `_`, `/` and `-`. -/
def isDomainChar (c : Char) : Bool :=
  c.isDigit || ('a' ≤ c && c ≤ 'z') || c = '.' || c = '_' || c = '/' || c = '-'

/-- `assertSigningDomain` passes: `zyronchain/`, a digit or lower-case letter, and at most 95 more
characters of a domain. -/
def isSigningDomain (domain : String) : Bool :=
  "zyronchain/".toList.isPrefixOf domain.toList &&
    match domain.toList.drop 11 with
    | [] => false
    | c :: rest =>
      (c.isDigit || ('a' ≤ c && c ≤ 'z')) && decide (rest.length ≤ 95) && rest.all isDomainChar

def verifyCanonicalDomain (domain : String) (payload : Json) (signature publicKey : String) : Bool :=
  isSigningDomain domain && verifyCanonical (domainPayload domain payload) signature publicKey

/-- `verifyForProtocol`: signatures are separated by domains from protocol version 3 on. -/
def verifyForProtocol (protocolVersion : Int) (domain : String) (payload : Json)
    (signature publicKey : String) : Bool :=
  if protocolVersion ≥ 3 then verifyCanonicalDomain domain payload signature publicKey
  else verifyCanonical payload signature publicKey

theorem verify_of_verifyCanonical (h : verifyCanonical payload signature publicKey = true) :
    Crypto.verify signature (canonicalText payload) publicKey = true := by
  rw [verifyCanonical] at h
  cases hc : canonicalJson payload with
  | error e => rw [hc] at h; cases h
  | ok text =>
    rw [hc] at h
    rw [← (canonicalJson_eq_ok.mp hc).2]
    exact h

theorem verify_of_verifyCanonicalDomain {domain : String}
    (h : verifyCanonicalDomain domain payload signature publicKey = true) :
    Crypto.verify signature (canonicalText (domainPayload domain payload)) publicKey = true := by
  rw [verifyCanonicalDomain, Bool.and_eq_true] at h
  exact verify_of_verifyCanonical h.2

theorem verify_of_verifyForProtocol {protocolVersion : Int} {domain : String}
    (h : verifyForProtocol protocolVersion domain payload signature publicKey = true) :
    Crypto.verify signature (canonicalText (protocolMessage protocolVersion domain payload))
      publicKey = true := by
  rw [verifyForProtocol] at h
  rw [protocolMessage]
  split at h
  · next hv => rw [if_pos hv]; exact verify_of_verifyCanonicalDomain h
  · next hv => rw [if_neg hv]; exact verify_of_verifyCanonical h

/-! ### Merkle roots -/

/-- The next level of a tree: neighbours are hashed together, the last of an odd level with
itself. -/
def merkleLevel : List String → List String
  | [] => []
  | [a] => [Crypto.sha256 (hexBytes (a.toList ++ a.toList))]
  | a :: b :: rest => Crypto.sha256 (hexBytes (a.toList ++ b.toList)) :: merkleLevel rest

/-- The loop of `merkleRoot`.  Each level is shorter than the one before, so as many rounds as
there are leaves suffice. -/
def merkleFold : Nat → List String → String
  | rounds + 1, a :: b :: rest => merkleFold rounds (merkleLevel (a :: b :: rest))
  | _, level => level.headD ""

def merkleRoot (values : List Json) : String := match values with
  | [] => sha256Hex []
  | v :: vs => merkleFold (v :: vs).length ((v :: vs).map fun v => sha256Hex (canonicalText v))

end

/-! ### A stand-in for concrete runs -/

/-- A hash, and a signature, of one digit. -/
def digits (n : Nat) (c : Char) : String := String.ofList (List.replicate n c)

@[simp] theorem toList_digits (n : Nat) (c : Char) : (digits n c).toList = List.replicate n c :=
  String.toList_ofList

theorem isHex_digits {n bytes : Nat} {c : Char} (hn : n = 2 * bytes) (hc : isLowerHex c = true) :
    IsHex bytes (digits n c) := by
  rw [IsHex, toList_digits, List.length_replicate]
  exact ⟨hn, fun d hd => List.eq_of_mem_replicate hd ▸ hc⟩

theorem isHash64_digits {c : Char} (hc : isLowerHex c = true) : IsHash64 (digits 64 c) :=
  isHex_iff_isHash64.mp (isHex_digits (by decide) hc)

/-- Primitives with one digest and a table of accepted signatures. -/
@[reducible] def Crypto.ofTable (accepts : String → List Char → String → Bool) : Crypto where
  sha256 := fun _ => digits 64 '7'
  sha256_hex := fun _ => isHash64_digits (by decide)
  verify := accepts
  isPoint := fun _ => true

end ZyronChain
