import ZyronChain.StateV2.Tree

/-!
# Membership proofs of the authenticated state

A proof lists the hashes beside the path of its key.  `null` stands for absence in the
verification, so a stored `null` is the one value whose proof does not verify.

Source: `l1/src/state-v2.ts` (`SparseMerkleState.prove`, `verifySparseMerkleProof`).

## Main results

* `verifySparseMerkleProof_eq_true` : what verification checks.
* `SparseMerkleState.proofs_complete_and_sound`.
-/

namespace ZyronChain

open Checks SparseTree Merkle List Option

/-- `SparseMerkleProof`, with its strings as they come. -/
structure SparseMerkleProof where
  version : Int
  keyHash : String
  valueHash : Option String
  siblings : List String
deriving DecidableEq, Repr

instance decidableEqNull : (v : Json) → Decidable (v = .null)
  | .null => isTrue rfl
  | .bool _ | .num _ | .decimal _ | .str _ | .arr _ | .obj _ => isFalse nofun

def digest? (s : String) : Option Digest := if h : IsHash64 s then some ⟨s, h⟩ else none

def digests? : List String → Option (List Digest)
  | [] => some []
  | s :: ss =>
    match digest? s, digests? ss with
    | some d, some ds => some (d :: ds)
    | _, _ => none

theorem digests?_map_val (ds : List Digest) : digests? (ds.map Subtype.val) = some ds := by
  induction ds with
  | nil => rfl
  | cons d ds ih =>
    have hd : digest? d.val = some d := dif_pos d.property
    rw [map_cons, digests?, hd, ih]

theorem length_of_digests? {ss : List String} {ds : List Digest} (h : digests? ss = some ds) :
    ds.length = ss.length := by
  induction ss generalizing ds with
  | nil =>
    cases h
    rfl
  | cons s ss ih =>
    rw [digests?] at h
    split at h
    · next d ds' hd hds =>
      cases h
      rw [length_cons, length_cons, ih hds]
    · cases h

section

variable [Crypto]

/-- The content of the leaf that a proof of a value starts from, if its value hash fits. -/
def provedContent (keyHash : Digest) (value : Json) (valueHash : Option String) :
    Option (Option (Digest × List Char)) :=
  if value = .null then
    if valueHash = none then some none else none
  else
    match canonicalJson value with
    | .error _ => none
    | .ok valueJson =>
      if valueHash = some (stateValueHash valueJson).val then some (some (keyHash, valueJson))
      else none

/-- `verifySparseMerkleProof`.  The value is not `undefined`, which has no canonical text and never
verifies. -/
def verifySparseMerkleProof (root key : String) (value : Json) (proof : SparseMerkleProof) : Bool :=
  if ¬ IsHash64 root ∨ proof.version ≠ 1 ∨ proof.siblings.length ≠ keyLayout.height ∨
      proof.keyHash ≠ (stateKeyHash key).val then false
  else
    match digests? proof.siblings, provedContent (stateKeyHash key) value proof.valueHash with
    | some siblings, some content =>
      (climb nodeDigest (stateKeyHash key).bits siblings content).val == root
    | _, _ => false

def SparseMerkleState.prove (s : SparseMerkleState) (key : String) :
    Except String SparseMerkleProof :=
  if key = "" then .error emptyStateKey
  else .ok
    { version := 1
      keyHash := (stateKeyHash key).val
      valueHash := (s.stored (stateKeyHash key)).map fun valueJson => (stateValueHash valueJson).val
      siblings := (proveAt nodeDigest keyLayout (stateKeyHash key) 0 s.tree).map Subtype.val }

/-! ### Verification -/

variable {value : Json}

/-- What verification checks. -/
theorem verifySparseMerkleProof_eq_true {root : Digest} {key : String} {proof : SparseMerkleProof} :
    verifySparseMerkleProof root.val key value proof = true ↔
      proof.version = 1 ∧ proof.siblings.length = 256 ∧ proof.keyHash = (stateKeyHash key).val ∧
        ∃ siblings content, digests? proof.siblings = some siblings ∧
          provedContent (stateKeyHash key) value proof.valueHash = some content ∧
          climb nodeDigest (stateKeyHash key).bits siblings content = root := by
  rw [verifySparseMerkleProof]
  split
  · next hbad =>
    constructor
    · exact fun h => by cases h
    · rintro ⟨hversion, hlen, hkey, -⟩
      rcases hbad with hroot | hbad | hbad | hbad
      · exact absurd root.property hroot
      · exact absurd hversion hbad
      · exact absurd hlen hbad
      · exact absurd hkey hbad
  · next hgood =>
    simp only [not_or, not_not] at hgood
    obtain ⟨-, hversion, hlen, hkey⟩ := hgood
    split
    · next siblings content hsiblings hcontent =>
      rw [beq_iff_eq, ← Subtype.ext_iff]
      constructor
      · exact fun h => ⟨hversion, hlen, hkey, siblings, content, hsiblings, hcontent, h⟩
      · rintro ⟨-, -, -, siblings', content', hsiblings', hcontent', h⟩
        rw [hsiblings, Option.some.injEq] at hsiblings'
        rw [hcontent, Option.some.injEq] at hcontent'
        rw [hsiblings', hcontent']
        exact h
    · next hnone =>
      constructor
      · exact fun h => by cases h
      · rintro ⟨-, -, -, siblings, content, hsiblings, hcontent, -⟩
        exact absurd hcontent (hnone siblings content hsiblings)

theorem provedContent_of_canonical {keyHash : Digest} (hne : value ≠ .null)
    (hcanonical : Canonical 0 value) :
    provedContent keyHash value (some (stateValueHash (canonicalText value)).val) =
      some (some (keyHash, canonicalText value)) := by
  have hjson : canonicalJson value = .ok (canonicalText value) :=
    canonicalJson_eq_ok_iff.mpr ⟨hcanonical, rfl⟩
  rw [provedContent, if_neg hne, hjson]
  exact if_pos rfl

/-- The leaf that a proof starts from is empty for `null` and holds the value otherwise. -/
theorem provedContent_eq_some {keyHash : Digest} {valueHash : Option String}
    {content : Option (Digest × List Char)}
    (h : provedContent keyHash value valueHash = some content) :
    content = if value = .null then none else some (keyHash, canonicalText value) := by
  rw [provedContent] at h
  split at h
  · next hnull =>
    rw [if_pos hnull]
    split at h
    · exact (Option.some.inj h).symm
    · cases h
  · next hnull =>
    rw [if_neg hnull]
    split at h
    · cases h
    · next valueJson hjson =>
      split at h
      · rw [← (canonicalJson_eq_ok_iff.mp hjson).2]
        exact (Option.some.inj h).symm
      · cases h

namespace SparseMerkleState

/-- What a state holds at a key for which a value verifies: nothing for `null`, and the value
otherwise. -/
def heldAs (value : Json) : Option Json := if value = .null then none else some (normalize value)

/-- The byte strings hashed for a root and for the verification of a proof. -/
def proofEncodings (s : SparseMerkleState) (key : String) (value : Json)
    (proof : SparseMerkleProof) : Set (List UInt8) :=
  encodings (climbInputs nodeDigest (stateKeyHash key).bits ((digests? proof.siblings).getD [])
    (if value = .null then none else some (stateKeyHash key, canonicalText value))) ∪ s.rootEncodings

omit [Crypto] in
theorem occupant_bits (s : SparseMerkleState) (keyHash : Digest) :
    occupant keyLayout 0 s.tree keyHash.bits = (s.stored keyHash).map (keyHash, ·) := by
  have hpath := occupant_path s.routed (agrees_zero keyHash s.tree)
  rw [drop_zero] at hpath
  exact hpath

theorem root_eq (s : SparseMerkleState) :
    s.root = Merkle.root nodeDigest 256 (occupant keyLayout 0 s.tree) :=
  hashAt_eq_root s.routed

/-- The siblings of a proof open the tree at the path of the key. -/
theorem proveAt_eq (s : SparseMerkleState) (keyHash : Digest) :
    proveAt nodeDigest keyLayout keyHash 0 s.tree =
      opening nodeDigest keyHash.bits (occupant keyLayout 0 s.tree) := by
  have hopening : proveAt nodeDigest keyLayout keyHash 0 s.tree =
      opening nodeDigest ((keyLayout.path keyHash).drop 0) (occupant keyLayout 0 s.tree) :=
    proveAt_eq_opening keyHash s.routed
  rw [drop_zero] at hopening
  exact hopening

variable {key : String} {proof : SparseMerkleProof}

/-- The proof of a key verifies, unless `null` is stored under it. -/
theorem verify_prove (s : SparseMerkleState) (hkey : key ≠ "") {held : Option Json}
    (hget : s.get key = .ok held) (hnull : held ≠ some .null) :
    ∃ proof, s.prove key = .ok proof ∧
      verifySparseMerkleProof s.root.val key (held.getD .null) proof = true := by
  obtain ⟨held', hget', hcanonical, hstored⟩ := s.get_eq hkey
  rw [hget, Except.ok.injEq] at hget'
  subst hget'
  refine ⟨_, if_neg hkey, verifySparseMerkleProof_eq_true.mpr
    ⟨rfl, ?_, rfl, _, (s.stored (stateKeyHash key)).map (stateKeyHash key, ·),
      digests?_map_val _, ?_, ?_⟩⟩
  · rw [length_map, s.proveAt_eq, length_opening, Digest.length_bits]
  · rw [hstored]
    cases held with
    | none => rfl
    | some v =>
      have hne : v ≠ .null := fun heq => hnull (congrArg some heq)
      exact provedContent_of_canonical hne (hcanonical v rfl)
  · rw [s.proveAt_eq, ← s.occupant_bits, s.root_eq, climb_opening, Digest.length_bits]

/-- A value that verifies is what the state holds, or SHA-256 collides on what was hashed. -/
theorem get_of_verify (s : SparseMerkleState) (hkey : key ≠ "") {value : JsonValue}
    (h : verifySparseMerkleProof s.root.val key value.val proof = true) :
    s.get key = .ok (heldAs value.val) ∨ ByteCollision (s.proofEncodings key value.val proof) := by
  obtain ⟨-, hlen, -, siblings, content, hsiblings, hcontent, hclimb⟩ :=
    verifySparseMerkleProof_eq_true.mp h
  rw [s.root_eq, ← (stateKeyHash key).length_bits] at hclimb
  have hlen' : siblings.length = (stateKeyHash key).bits.length := by
    rw [length_of_digests? hsiblings, hlen, Digest.length_bits]
  have hcontent' := provedContent_eq_some hcontent
  rcases climb_eq_root hlen' hclimb with heq | hcollides
  · left
    rw [s.occupant_bits, hcontent'] at heq
    unfold heldAs
    split at heq
    · next hnull =>
      rw [if_pos hnull]
      exact get_of_stored_none hkey (map_eq_none_iff.mp heq.symm)
    · next hnull =>
      rw [if_neg hnull]
      obtain ⟨text, htext, hpair⟩ := map_eq_some_iff.mp heq.symm
      rw [(Prod.mk.inj hpair).2] at htext
      exact get_of_stored_some hkey value.property htext
  · right
    refine (byteCollision_of_collides hcollides).mono ?_
    rw [hcontent', Digest.length_bits]
    rintro bytes ⟨node, hnode | hnode, hbytes⟩
    · refine .inl ⟨node, ?_, hbytes⟩
      rw [hsiblings]
      exact hnode
    · exact .inr ⟨node, hnode, hbytes⟩

/-- Under every key a proof of what is held verifies unless that is `null`, and only what is held
verifies, unless SHA-256 collides on what was hashed. -/
theorem proofs_complete_and_sound (s : SparseMerkleState) {key : String} (hkey : key ≠ "") :
    ∃ held, s.get key = .ok held ∧
      (held ≠ some .null → ∃ proof, s.prove key = .ok proof ∧
        verifySparseMerkleProof s.root.val key (held.getD .null) proof = true) ∧
      ∀ (value : JsonValue) (proof : SparseMerkleProof),
        verifySparseMerkleProof s.root.val key value.val proof = true →
          held = heldAs value.val ∨ ByteCollision (s.proofEncodings key value.val proof) := by
  obtain ⟨held, hget, -, -⟩ := s.get_eq hkey
  refine ⟨held, hget, s.verify_prove hkey hget, fun value proof h => ?_⟩
  rcases s.get_of_verify hkey h with hheld | hcollision
  · rw [hget, Except.ok.injEq] at hheld
    exact .inl hheld
  · exact .inr hcollision

/-- `null` stands for absence: it never verifies against a value hash. -/
theorem verify_null {root : Digest} (h : proof.valueHash ≠ none) :
    verifySparseMerkleProof root.val key .null proof = false := by
  rw [← Bool.not_eq_true, verifySparseMerkleProof_eq_true]
  rintro ⟨-, -, -, siblings, content, -, hcontent, -⟩
  rw [provedContent, if_pos rfl, if_neg h] at hcontent
  cases hcontent

end SparseMerkleState

end

/-! ### A stored `null` -/

namespace SparseMerkleState.StoredNull

local instance storedNullCrypto : Crypto := Crypto.ofTable fun _ _ _ => false

theorem proofs_complete_and_sound_empty : ("k" : String) ≠ "" ∧
    ∃ held, SparseMerkleState.empty.get "k" = .ok held ∧
      (held ≠ some .null → ∃ proof, SparseMerkleState.empty.prove "k" = .ok proof ∧
        verifySparseMerkleProof SparseMerkleState.empty.root.val "k" (held.getD .null) proof = true) ∧
      ∀ (value : JsonValue) (proof : SparseMerkleProof),
        verifySparseMerkleProof SparseMerkleState.empty.root.val "k" value.val proof = true →
          held = heldAs value.val ∨
            ByteCollision (SparseMerkleState.empty.proofEncodings "k" value.val proof) :=
  ⟨by decide, proofs_complete_and_sound .empty (by decide)⟩

/-- The state after `set("k", null)` holds `null` under `k`, and its own proof does not verify. -/
theorem stored_null_not_verified :
    ∃ s, SparseMerkleState.empty.set "k" ⟨.null, trivial⟩ = .ok s ∧ s.get "k" = .ok (some .null) ∧
      ∃ proof, s.prove "k" = .ok proof ∧
        verifySparseMerkleProof s.root.val "k" .null proof = false := by
  have hkey : ("k" : String) ≠ "" := by decide
  obtain ⟨s, hset⟩ : ∃ s, SparseMerkleState.empty.set "k" ⟨.null, trivial⟩ = .ok s :=
    SparseMerkleState.empty.exists_set_eq_ok hkey trivial
  have hstored : s.stored (stateKeyHash "k") = some (canonicalText .null) := by
    rw [(set_eq_ok hset).2.2, if_pos rfl]
  have hget : s.get "k" = .ok (some (normalize .null)) := get_of_stored_some hkey trivial hstored
  refine ⟨s, hset, hget, _, if_neg hkey, verify_null ?_⟩
  rw [hstored, map_some]
  exact some_ne_none _

end SparseMerkleState.StoredNull

end ZyronChain
