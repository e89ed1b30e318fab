import ZyronChain.StateV2.Hash

/-!
# The authenticated state

`SparseMerkleState` is an immutable map from text keys to JSON values with a root hash.  The hash
that a node of the source carries is a function of the node and its depth, and a node that the
source resolves from a store by its hash is the node itself here.

Source: `l1/src/state-v2.ts` (`SparseMerkleState`, `updateNode`, `mergeLeaves`, `findLeaf`).
-/

namespace ZyronChain

open Checks SparseTree Merkle

/-- A text that is the canonical text of the value it parses to. -/
def IsCanonicalText (text : List Char) : Prop :=
  ∃ v, Json.parse text = some v ∧ canonicalJson v = .ok text

/-- A JSON value as JavaScript holds it: no object has two members of one name. -/
abbrev JsonValue : Type := {v : Json // v.Plain}

theorem isCanonicalText_of_canonicalJson {v : Json} (hv : v.Plain) {text : List Char}
    (h : canonicalJson v = .ok text) : IsCanonicalText text := by
  obtain ⟨hcanonical, rfl⟩ := canonicalJson_eq_ok_iff.mp h
  refine ⟨normalize v, parse_canonicalText hv, canonicalJson_eq_ok_iff.mpr ⟨?_, ?_⟩⟩
  · exact (canonical_normalize 0 v).mpr hcanonical
  · exact (canonicalText_normalize hv).symm

/-- A tree whose keys lie on their paths and whose leaves hold canonical texts. -/
structure SparseMerkleState where
  tree : Tree Digest (List Char)
  routed : Routed keyLayout 0 tree
  canonical : ∀ keyHash text, findLeaf keyLayout keyHash 0 tree = some text → IsCanonicalText text

def emptyStateKey : String := "State v2 key must not be empty"

def faultMessage : Fault → String
  | .collision => "State v2 key hash collision"
  | .depth => "Corrupt State v2 branch depth"

namespace SparseMerkleState

/-- `SparseMerkleState.empty`. -/
def empty : SparseMerkleState where
  tree := .empty
  routed := trivial
  canonical := fun _ _ h => by cases h

def stored (s : SparseMerkleState) (keyHash : Digest) : Option (List Char) :=
  findLeaf keyLayout keyHash 0 s.tree

variable [Crypto]

def root (s : SparseMerkleState) : Digest := hashAt nodeDigest keyLayout 0 s.tree

def set (s : SparseMerkleState) (key : String) (value : JsonValue) :
    Except String SparseMerkleState :=
  if key = "" then .error emptyStateKey
  else
    match hjson : canonicalJson value.val with
    | .error message => .error message
    | .ok valueJson =>
      match htree : updateNode keyLayout (stateKeyHash key) valueJson 0 s.tree with
      | .error fault => .error (faultMessage fault)
      | .ok tree => .ok
          { tree := tree
            routed := s.routed.updateNode htree
            canonical := fun keyHash text h => by
              rw [findLeaf_updateNode htree] at h
              split at h
              · cases h
                exact isCanonicalText_of_canonicalJson value.property hjson
              · exact s.canonical keyHash text h }

def get (s : SparseMerkleState) (key : String) : Except String (Option Json) :=
  if key = "" then .error emptyStateKey
  else
    match s.stored (stateKeyHash key) with
    | none => .ok none
    | some valueJson =>
      match Json.parse valueJson with
      | none => .error "Unexpected token"
      | some value => .ok (some value)

/-! ### Writes and reads -/

variable {s s' : SparseMerkleState} {key : String} {value : JsonValue}

theorem set_eq_ok (h : s.set key value = .ok s') :
    key ≠ "" ∧ Canonical 0 value.val ∧ ∀ keyHash, s'.stored keyHash =
      if keyHash = stateKeyHash key then some (canonicalText value.val) else s.stored keyHash := by
  rw [set] at h
  split at h
  · cases h
  · next hkey =>
    split at h
    · cases h
    · next valueJson hjson =>
      split at h
      · cases h
      · next tree htree =>
        cases h
        obtain ⟨hcanonical, rfl⟩ := canonicalJson_eq_ok_iff.mp hjson
        exact ⟨hkey, hcanonical, fun keyHash => findLeaf_updateNode htree keyHash⟩

theorem exists_set_eq_ok (s : SparseMerkleState) (hkey : key ≠ "") (hvalue : Canonical 0 value.val) :
    ∃ s', s.set key value = .ok s' := by
  have hjson : canonicalJson value.val = .ok (canonicalText value.val) :=
    canonicalJson_eq_ok_iff.mpr ⟨hvalue, rfl⟩
  obtain ⟨tree, htree⟩ := updateNode_eq_ok (canonicalText value.val) s.routed
    (agrees_zero (stateKeyHash key) s.tree)
  rw [set, if_neg hkey]
  split
  · next message herror =>
    rw [hjson] at herror
    cases herror
  · next valueJson hok =>
    rw [hjson] at hok
    cases hok
    split
    · next fault herror =>
      rw [htree] at herror
      cases herror
    · exact ⟨_, rfl⟩

theorem compact_set (h : s.set key value = .ok s') (hs : Compact s.tree) : Compact s'.tree := by
  rw [set] at h
  split at h
  · cases h
  · split at h
    · cases h
    · split at h
      · cases h
      · next tree htree =>
        cases h
        exact hs.updateNode htree

omit [Crypto] in
/-- States built by writes that store the same texts are equal. -/
theorem ext_stored (hs : Compact s.tree) (hs' : Compact s'.tree)
    (h : ∀ keyHash, s.stored keyHash = s'.stored keyHash) : s = s' := by
  have htree : s.tree = s'.tree := hs.ext hs' s.routed s'.routed h
  cases s
  cases s'
  cases htree
  rfl

theorem get_of_stored_none (hkey : key ≠ "") (h : s.stored (stateKeyHash key) = none) :
    s.get key = .ok none := by
  rw [get, if_neg hkey, h]

/-- A stored text is read as the value it is the canonical text of. -/
theorem get_of_stored_some (hkey : key ≠ "") {v : Json} (hv : v.Plain)
    (h : s.stored (stateKeyHash key) = some (canonicalText v)) :
    s.get key = .ok (some (normalize v)) := by
  simp only [get, if_neg hkey, h, parse_canonicalText hv]

/-- A read under a key succeeds; what it returns has the stored text. -/
theorem get_eq (s : SparseMerkleState) (hkey : key ≠ "") :
    ∃ held, s.get key = .ok held ∧ (∀ v, held = some v → Canonical 0 v) ∧
      s.stored (stateKeyHash key) = held.map canonicalText := by
  cases hs : s.stored (stateKeyHash key) with
  | none => exact ⟨none, get_of_stored_none hkey hs, by simp, rfl⟩
  | some text =>
    obtain ⟨v, hparse, hjson⟩ := s.canonical _ _ hs
    obtain ⟨hcanonical, htext⟩ := canonicalJson_eq_ok_iff.mp hjson
    refine ⟨some v, ?_, fun w hw => ?_, ?_⟩
    · simp only [get, if_neg hkey, hs, hparse]
    · cases hw
      exact hcanonical
    · rw [Option.map_some, ← htext]

/-- The root depends on the stored texts only. -/
theorem root_congr (h : ∀ keyHash, s.stored keyHash = s'.stored keyHash) : s.root = s'.root :=
  hashAt_congr s.routed s'.routed h

/-- The byte strings hashed for the root. -/
def rootEncodings (s : SparseMerkleState) : Set (List UInt8) :=
  encodings (rootInputs nodeDigest keyLayout.height (occupant keyLayout 0 s.tree))

/-- States of one root hold the same texts, or SHA-256 collides on what was hashed for them. -/
theorem stored_eq_of_root_eq (h : s.root = s'.root) :
    (∀ keyHash, s.stored keyHash = s'.stored keyHash) ∨
      ByteCollision (s.rootEncodings ∪ s'.rootEncodings) := by
  rcases hashAt_injective s.routed s'.routed h with hstored | hcollides
  · exact .inl hstored
  · refine .inr ((byteCollision_of_collides hcollides).mono ?_)
    rintro bytes ⟨node, hnode | hnode, hbytes⟩
    · exact .inl ⟨node, hnode, hbytes⟩
    · exact .inr ⟨node, hnode, hbytes⟩

end SparseMerkleState

end ZyronChain
