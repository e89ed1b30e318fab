import ZyronChain.StateV2.Tree

/-!
# The authenticated state is a canonical map

A state is reached by writes.  Its reads give the last write to each key, and two states have one
root exactly if their last writes agree, unless SHA-256 collides on the byte strings hashed on the
way.

Source: `l1/src/state-v2.ts` (`SparseMerkleState.set`, `SparseMerkleState.get`).

## Main results

* `SparseMerkleState.canonical_map`.
-/

namespace ZyronChain

open Checks List Option

abbrev StateWrite : Type := String × JsonValue

def lastValue (key : String) : List StateWrite → Option JsonValue
  | [] => none
  | w :: ws => (lastValue key ws).or (if w.1 = key then some w.2 else none)

/-- Sequences of writes that leave the same value under every key, up to the order of members. -/
def SameMap (ws ws' : List StateWrite) : Prop :=
  ∀ key, (lastValue key ws).map (fun v => canonicalText v.val) =
    (lastValue key ws').map fun v => canonicalText v.val

theorem lastValue_eq_none {key : String} {ws : List StateWrite} (h : ∀ w ∈ ws, w.1 ≠ key) :
    lastValue key ws = none := by
  induction ws with
  | nil => rfl
  | cons w ws ih =>
    rw [forall_mem_cons] at h
    rw [lastValue, ih h.2, if_neg h.1]
    rfl

section

variable [Crypto]

namespace SparseMerkleState

/-- Writes to a state, one after the other. -/
def writes : List StateWrite → SparseMerkleState → Except String SparseMerkleState
  | [], s => .ok s
  | w :: ws, s => s.set w.1 w.2 >>= writes ws

def run (ws : List StateWrite) : Except String SparseMerkleState := writes ws .empty

def keyEncodings (keys : List String) : Set (List UInt8) :=
  {bytes | ∃ key ∈ keys, bytes = hashInput keyDomain [utf8 key.toList]}

variable {ws : List StateWrite}

private theorem stored_writes {s s' : SparseMerkleState} (h : writes ws s = .ok s') {key : String}
    (hinj : ∀ w ∈ ws, stateKeyHash w.1 = stateKeyHash key → w.1 = key) :
    s'.stored (stateKeyHash key) =
      ((lastValue key ws).map fun v => canonicalText v.val).or (s.stored (stateKeyHash key)) := by
  induction ws generalizing s with
  | nil =>
    cases h
    rfl
  | cons w ws ih =>
    rw [forall_mem_cons] at hinj
    obtain ⟨s₁, hset, hrest⟩ := bind_eq_ok.mp h
    rw [ih hrest hinj.2, (set_eq_ok hset).2.2, lastValue]
    cases lastValue key ws with
    | some v => rfl
    | none =>
      by_cases hw : w.1 = key
      · rw [if_pos (by rw [hw]), if_pos hw]
        rfl
      · rw [if_neg fun heq => hw (hinj.1 heq.symm), if_neg hw]
        rfl

private theorem stored_writes_of_ne {s s' : SparseMerkleState} (h : writes ws s = .ok s')
    {keyHash : Digest} (hne : ∀ w ∈ ws, stateKeyHash w.1 ≠ keyHash) :
    s'.stored keyHash = s.stored keyHash := by
  induction ws generalizing s with
  | nil =>
    cases h
    rfl
  | cons w ws ih =>
    rw [forall_mem_cons] at hne
    obtain ⟨s₁, hset, hrest⟩ := bind_eq_ok.mp h
    rw [ih hrest hne.2, (set_eq_ok hset).2.2, if_neg hne.1.symm]

omit [Crypto] in
private theorem mem_keyEncodings {keys : List String} {key : String} (h : key ∈ keys) :
    hashInput keyDomain [utf8 key.toList] ∈ keyEncodings keys := ⟨key, h, rfl⟩

/-- Keys of one hash are equal, or SHA-256 collides on them. -/
theorem keyHash_eq_or_collision {keys : List String} {k k' : String} (hk : k ∈ keys)
    (hk' : k' ∈ keys) (h : stateKeyHash k = stateKeyHash k') :
    k = k' ∨ ByteCollision (keyEncodings keys) := by
  rcases hashInput_eq_or_collision (mem_keyEncodings hk) (mem_keyEncodings hk') h with
    hinput | hcollision
  · exact .inl (String.toList_inj.mp (hashInput_text_injective hinput))
  · exact .inr hcollision

/-- Reads return the last write to their key, and two states have the same root exactly if the last
writes to every key agree; unless SHA-256 collides on what was hashed. -/
theorem canonical_map {ws ws' : List StateWrite} {s s' : SparseMerkleState}
    (h : run ws = .ok s) (h' : run ws' = .ok s') {key : String} (hkey : key ≠ "") :
    (s.get key = .ok ((lastValue key ws).map fun v => normalize v.val) ∧
        (SameMap ws ws' ↔ s.root = s'.root)) ∨
      ByteCollision (keyEncodings (key :: (ws ++ ws').map Prod.fst) ∪
        (s.rootEncodings ∪ s'.rootEncodings)) := by
  rw [or_iff_not_imp_right]
  intro hfree
  have hkeys : ¬ ByteCollision (keyEncodings (key :: (ws ++ ws').map Prod.fst)) := fun hcollision =>
    hfree (hcollision.mono Set.subset_union_left)
  have hstored : ∀ k ∈ key :: (ws ++ ws').map Prod.fst,
      s.stored (stateKeyHash k) = ((lastValue k ws).map fun v => canonicalText v.val) ∧
        s'.stored (stateKeyHash k) = ((lastValue k ws').map fun v => canonicalText v.val) := by
    intro k hk
    have hinj : ∀ w ∈ ws ++ ws', stateKeyHash w.1 = stateKeyHash k → w.1 = k := fun w hw heq =>
      (keyHash_eq_or_collision (mem_cons_of_mem _ (mem_map_of_mem hw)) hk
        heq).resolve_right hkeys
    have hs := stored_writes h fun w hw => hinj w (mem_append_left _ hw)
    have hs' := stored_writes h' fun w hw => hinj w (mem_append_right _ hw)
    exact ⟨hs.trans or_none, hs'.trans or_none⟩
  refine ⟨?_, fun hsame => root_congr fun keyHash => ?_, fun hroot k => ?_⟩
  · have hread := (hstored key mem_cons_self).1
    cases hlast : lastValue key ws with
    | none =>
      rw [hlast, map_none] at hread
      exact get_of_stored_none hkey hread
    | some v =>
      rw [hlast, map_some] at hread
      exact get_of_stored_some hkey v.property hread
  · by_cases hw : ∃ w ∈ ws ++ ws', stateKeyHash w.1 = keyHash
    · obtain ⟨w, hw, rfl⟩ := hw
      have hk := hstored w.1 (mem_cons_of_mem _ (mem_map_of_mem hw))
      rw [hk.1, hk.2]
      exact hsame w.1
    · have hne : ∀ w ∈ ws ++ ws', stateKeyHash w.1 ≠ keyHash := fun w hmem heq => hw ⟨w, hmem, heq⟩
      rw [stored_writes_of_ne h fun w hmem => hne w (mem_append_left _ hmem),
        stored_writes_of_ne h' fun w hmem => hne w (mem_append_right _ hmem)]
  · have htexts := (stored_eq_of_root_eq hroot).resolve_right fun hcollision =>
      hfree (hcollision.mono Set.subset_union_right)
    by_cases hk : k ∈ (ws ++ ws').map Prod.fst
    · obtain ⟨hs, hs'⟩ := hstored k (mem_cons_of_mem _ hk)
      rw [← hs, ← hs', htexts]
    · have hne : ∀ w ∈ ws ++ ws', w.1 ≠ k := fun w hw heq => hk (heq ▸ mem_map_of_mem hw)
      rw [lastValue_eq_none fun w hw => hne w (mem_append_left _ hw),
        lastValue_eq_none fun w hw => hne w (mem_append_right _ hw)]

theorem exists_writes_eq_ok (s : SparseMerkleState) (h : ∀ w ∈ ws, w.1 ≠ "" ∧ Canonical 0 w.2.val) :
    ∃ s', writes ws s = .ok s' := by
  induction ws generalizing s with
  | nil => exact ⟨s, rfl⟩
  | cons w ws ih =>
    rw [forall_mem_cons] at h
    obtain ⟨s₁, hset⟩ := s.exists_set_eq_ok h.1.1 h.1.2
    obtain ⟨s', hrest⟩ := ih s₁ h.2
    exact ⟨s', bind_eq_ok.mpr ⟨s₁, hset, hrest⟩⟩

end SparseMerkleState

end

/-! ### A value written twice -/

namespace SparseMerkleState.Overwritten

local instance overwrittenCrypto : Crypto := Crypto.ofTable fun _ _ _ => false

def write (key : String) (n : Int) : StateWrite := (key, ⟨.num n, trivial⟩)

theorem canonical_map_overwritten : ∃ s s', run [write "a" 1] = .ok s ∧
    run [write "a" 2, write "a" 1] = .ok s' ∧
    ((s.get "a" = .ok (some (.num 1)) ∧
        (SameMap [write "a" 1] [write "a" 2, write "a" 1] ↔ s.root = s'.root)) ∨
      ByteCollision (keyEncodings ["a", "a", "a", "a"] ∪ (s.rootEncodings ∪ s'.rootEncodings))) := by
  have hone : ("a" : String) ≠ "" ∧ Canonical 0 (write "a" 1).2.val :=
    ⟨by decide, by decide, by decide⟩
  have htwo : ("a" : String) ≠ "" ∧ Canonical 0 (write "a" 2).2.val :=
    ⟨by decide, by decide, by decide⟩
  obtain ⟨s, hs⟩ : ∃ s, run [write "a" 1] = .ok s :=
    exists_writes_eq_ok .empty (by rw [forall_mem_singleton]; exact hone)
  obtain ⟨s', hs'⟩ : ∃ s', run [write "a" 2, write "a" 1] = .ok s' :=
    exists_writes_eq_ok .empty
      (by rw [forall_mem_cons, forall_mem_singleton]; exact ⟨htwo, hone⟩)
  exact ⟨s, s', hs, hs', canonical_map hs hs' (by decide)⟩

end SparseMerkleState.Overwritten

end ZyronChain
