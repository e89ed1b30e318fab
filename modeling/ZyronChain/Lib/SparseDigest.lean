import ZyronChain.Lib.MerkleTree
import ZyronChain.Lib.SparseTree

/-!
# Digests and proofs of compressed tries

The digest of a compressed trie is that of the perfect tree it stands for: an empty leaf for every
path that is not the path of a key.  What the trie computes without expanding itself (the digest of
a leaf that floats above its path, the digests beside a path that leaves the trie) is shown to be
what the perfect tree gives.
-/

namespace SparseTree

open List Option

open Merkle

variable {K V D : Type}

/-! ### The perfect tree -/

def single {L : Type} (bits : List Bool) (content : L) : List Bool → Option L :=
  fun p => if bits = p then some content else none

/-- The content of the perfect tree below a node at the given depth. -/
def occupant (layout : Layout K) : Nat → Tree K V → List Bool → Option (K × V)
  | _, .empty, _ => none
  | depth, .leaf k v, p => single ((layout.path k).drop depth) (k, v) p
  | _, .branch _ _, [] => none
  | depth, .branch l _, false :: p => occupant layout (depth + 1) l p
  | depth, .branch _ r, true :: p => occupant layout (depth + 1) r p

theorem below_single {L : Type} (a b : Bool) (bits : List Bool) (content : L) :
    below b (single (a :: bits) content) = if a = b then single bits content else fun _ => none := by
  funext p
  by_cases hab : a = b
  · simp [below, single, hab]
  · simp [below, single, hab]

theorem below_occupant (layout : Layout K) (b : Bool) (depth : Nat) (l r : Tree K V) :
    below b (occupant layout depth (.branch l r)) =
      occupant layout (depth + 1) (Tree.pick b l r) := by
  cases b <;> rfl

section

variable {layout : Layout K}

variable {depth : Nat} {t : Tree K V}

/-- Only keys of the trie occupy leaves, each the leaf of its path. -/
theorem occupant_eq_some (hr : Routed layout depth t) {p : List Bool} {k : K} {v : V}
    (h : occupant layout depth t p = some (k, v)) :
    k ∈ t.keys ∧ (layout.path k).drop depth = p := by
  induction t generalizing depth p with
  | empty => cases h
  | leaf k' v' =>
    rw [occupant, single] at h
    split at h
    · next hp =>
      cases h
      exact ⟨by simp [Tree.keys], hp⟩
    · cases h
  | branch l r ihl ihr =>
    cases p with
    | nil => cases h
    | cons b p =>
      have hpick : k ∈ (Tree.pick b l r).keys ∧ (layout.path k).drop (depth + 1) = p := by
        cases b
        · exact ihl hr.2.2.1 h
        · exact ihr hr.2.2.2 h
      exact ⟨mem_keys_pick hpick.1, by rw [drop_of_bit (hr.1 b k hpick.1), hpick.2]⟩

theorem exists_occupant (hr : Routed layout depth t) {k : K} (hk : k ∈ t.keys) :
    ∃ v, occupant layout depth t ((layout.path k).drop depth) = some (k, v) := by
  induction t generalizing depth with
  | empty => cases hk
  | leaf k' v =>
    rw [Tree.keys, mem_singleton] at hk
    exact ⟨v, by rw [occupant, single, hk, if_pos rfl]⟩
  | branch l r ihl ihr =>
    rcases mem_append.mp hk with hk | hk
    · rw [drop_of_bit (hr.1 false k hk)]
      exact ihl hr.2.2.1 hk
    · rw [drop_of_bit (hr.1 true k hk)]
      exact ihr hr.2.2.2 hk

variable [DecidableEq K]

/-- The content at the path of a key is its value. -/
theorem occupant_path {key : K} (hr : Routed layout depth t) (ha : Agrees layout key depth t) :
    occupant layout depth t ((layout.path key).drop depth) =
      (findLeaf layout key depth t).map (key, ·) := by
  induction t generalizing depth with
  | empty => rfl
  | leaf k v =>
    rw [occupant, single, findLeaf]
    by_cases hk : k = key
    · rw [hk, if_pos rfl, if_pos rfl, map_some]
    · rw [if_neg hk, if_neg fun hdrop => hk ?_, map_none]
      exact eq_of_agrees (ha k (by simp [Tree.keys])) hdrop
  | branch l r ihl ihr =>
    rw [findLeaf]
    cases hkey : (layout.path key).drop depth with
    | nil => rfl
    | cons b bits =>
      obtain ⟨hbit, hrest⟩ := bit_of_drop hkey
      have hpick := ha.pick hr hbit
      cases b with
      | false =>
        rw [← hrest]
        exact ihl hr.2.2.1 hpick
      | true =>
        rw [← hrest]
        exact ihr hr.2.2.2 hpick

omit [DecidableEq K] in
theorem agrees_zero (key : K) (t : Tree K V) : Agrees layout key 0 t := fun _ _ => rfl

/-- Tries that hold the same values stand for one perfect tree. -/
theorem occupant_ext {t' : Tree K V} (hr : Routed layout 0 t) (hr' : Routed layout 0 t')
    (h : ∀ key, findLeaf layout key 0 t = findLeaf layout key 0 t') (p : List Bool) :
    occupant layout 0 t p = occupant layout 0 t' p := by
  by_cases hp : ∃ key, layout.path key = p
  · obtain ⟨key, rfl⟩ := hp
    have hocc := occupant_path hr (agrees_zero key t)
    have hocc' := occupant_path hr' (agrees_zero key t')
    rw [drop_zero] at hocc hocc'
    rw [hocc, hocc', h]
  · have hnone : ∀ s : Tree K V, Routed layout 0 s → occupant layout 0 s p = none := by
      intro s hs
      cases ho : occupant layout 0 s p with
      | none => rfl
      | some c => exact absurd ⟨c.1, (occupant_eq_some hs ho).2⟩ hp
    rw [hnone t hr, hnone t' hr']

end

/-! ### Digests -/

section

variable (digest : Preimage (Option (K × V)) D → D)

/-- The digest of an empty subtree of the given height. -/
def emptyHash : Nat → D
  | 0 => digest (.leaf none)
  | n + 1 => digest (.branch (emptyHash n) (emptyHash n))

/-- The digest of a leaf with the given bits of its path still below it. -/
def leafHashAt (content : K × V) : List Bool → D
  | [] => digest (.leaf (some content))
  | b :: bits => join digest b (leafHashAt content bits) (emptyHash digest bits.length)

/-- The digest of a node at the given depth. -/
def hashAt (layout : Layout K) : Nat → Tree K V → D
  | depth, .empty => emptyHash digest (layout.height - depth)
  | depth, .leaf k v => leafHashAt digest (k, v) ((layout.path k).drop depth)
  | depth, .branch l r =>
    digest (.branch (hashAt layout (depth + 1) l) (hashAt layout (depth + 1) r))

/-- The digests beside a path through an empty subtree. -/
def emptySiblings : Nat → List D
  | 0 => []
  | n + 1 => emptyHash digest n :: emptySiblings n

/-- The digests beside a path that meets a leaf: empty subtrees, but for the leaf itself where the
path leaves its path. -/
def leafSiblings (content : K × V) : List Bool → List Bool → List D
  | a :: as, b :: bs =>
    if a = b then emptyHash digest bs.length :: leafSiblings content as bs
    else leafHashAt digest content as :: emptySiblings digest bs.length
  | _, _ => []

/-- The digests beside the path of a key, below a node at the given depth. -/
def proveAt (layout : Layout K) (key : K) : Nat → Tree K V → List D
  | depth, .empty => emptySiblings digest (layout.height - depth)
  | depth, .leaf k v =>
    leafSiblings digest (k, v) ((layout.path k).drop depth) ((layout.path key).drop depth)
  | depth, .branch l r =>
    match (layout.path key).drop depth with
    | [] => []
    | false :: _ => hashAt digest layout (depth + 1) r :: proveAt layout key (depth + 1) l
    | true :: _ => hashAt digest layout (depth + 1) l :: proveAt layout key (depth + 1) r

variable {digest}

theorem root_none (n : Nat) : root digest n (fun _ => none) = emptyHash digest n := by
  induction n with
  | zero => rfl
  | succ n ih =>
    change digest (.branch (root digest n fun _ => none) (root digest n fun _ => none)) = _
    rw [ih, emptyHash]

theorem root_single (content : K × V) (bits : List Bool) :
    root digest bits.length (single bits content) = leafHashAt digest content bits := by
  induction bits with
  | nil => rfl
  | cons b bits ih =>
    rw [length_cons, root_succ_eq_join b, below_single, below_single, if_pos rfl,
      if_neg (by cases b <;> simp), ih, root_none, leafHashAt]

variable {layout : Layout K}

variable {t : Tree K V}

/-- The digest of a trie is the digest of the perfect tree it stands for. -/
theorem hashAt_eq_root {depth : Nat} (hr : Routed layout depth t) :
    hashAt digest layout depth t =
      root digest (layout.height - depth) (occupant layout depth t) := by
  induction t generalizing depth with
  | empty => exact (root_none _).symm
  | leaf k v =>
    rw [hashAt, ← root_single, length_drop, layout.length_path]
    exact root_congr fun _ _ => rfl
  | branch l r ihl ihr =>
    have hheight : layout.height - depth = layout.height - (depth + 1) + 1 := by
      have := hr.lt_height
      omega
    rw [hashAt, ihl hr.2.2.1, ihr hr.2.2.2, hheight, root, below_occupant, below_occupant]
    rfl

theorem opening_none (bits : List Bool) :
    opening digest bits (fun _ => none) = emptySiblings digest bits.length := by
  induction bits with
  | nil => rfl
  | cons b bits ih =>
    rw [length_cons, emptySiblings, ← root_none, ← ih]
    rfl

theorem opening_single (content : K × V) {as bs : List Bool} (h : as.length = bs.length) :
    opening digest bs (single as content) = leafSiblings digest content as bs := by
  induction as generalizing bs with
  | nil =>
    rw [length_eq_zero_iff.mp h.symm]
    rfl
  | cons a as ih =>
    cases bs with
    | nil => cases h
    | cons b bs =>
      have hlen : as.length = bs.length := Nat.succ.inj h
      rw [opening, leafSiblings, below_single, below_single]
      by_cases hab : a = b
      · rw [if_pos hab, if_pos hab, if_neg (by rw [hab]; cases b <;> simp), ih hlen, root_none]
      · have hnot : a = !b := by
          cases a <;> cases b <;> simp_all
        rw [if_neg hab, if_neg hab, if_pos hnot, opening_none, ← hlen, root_single]

/-- The digests beside a path are those of the perfect tree. -/
theorem proveAt_eq_opening (key : K) {depth : Nat} (hr : Routed layout depth t) :
    proveAt digest layout key depth t =
      opening digest ((layout.path key).drop depth) (occupant layout depth t) := by
  induction t generalizing depth with
  | empty =>
    have hlen : ((layout.path key).drop depth).length = layout.height - depth := by
      rw [length_drop, layout.length_path]
    rw [proveAt, ← hlen, ← opening_none]
    rfl
  | leaf k v =>
    rw [proveAt, ← opening_single]
    · rfl
    · rw [length_drop, length_drop, layout.length_path, layout.length_path]
  | branch l r ihl ihr =>
    rw [proveAt]
    cases hkey : (layout.path key).drop depth with
    | nil => rfl
    | cons b bits =>
      have hrest := (bit_of_drop hkey).2
      have hlen : bits.length = layout.height - (depth + 1) := by
        rw [← hrest, length_drop, layout.length_path]
      rw [opening, below_occupant, below_occupant, hlen]
      cases b with
      | false =>
        rw [ihl hr.2.2.1, hashAt_eq_root hr.2.2.2, hrest]
        rfl
      | true =>
        rw [ihr hr.2.2.2, hashAt_eq_root hr.2.2.1, hrest]
        rfl

/-- Tries of one digest hold the same values, or two of the inputs of their digests collide. -/
theorem hashAt_injective [DecidableEq K] {t' : Tree K V} (hr : Routed layout 0 t)
    (hr' : Routed layout 0 t') (h : hashAt digest layout 0 t = hashAt digest layout 0 t') :
    (∀ key, findLeaf layout key 0 t = findLeaf layout key 0 t') ∨
      Collides digest (rootInputs digest layout.height (occupant layout 0 t) ∪
        rootInputs digest layout.height (occupant layout 0 t')) := by
  rw [hashAt_eq_root hr, hashAt_eq_root hr', Nat.sub_zero] at h
  rcases root_eq_root h with ⟨-, hocc⟩ | hcollides
  · refine .inl fun key => ?_
    have hpath := hocc (layout.path key) (layout.length_path key)
    have hfind := occupant_path hr (agrees_zero key t)
    have hfind' := occupant_path hr' (agrees_zero key t')
    rw [drop_zero] at hfind hfind'
    rw [hfind, hfind'] at hpath
    exact map_injective (fun _ _ hv => (Prod.mk.inj hv).2) hpath
  · exact .inr hcollides

theorem hashAt_congr [DecidableEq K] {t' : Tree K V} (hr : Routed layout 0 t)
    (hr' : Routed layout 0 t') (h : ∀ key, findLeaf layout key 0 t = findLeaf layout key 0 t') :
    hashAt digest layout 0 t = hashAt digest layout 0 t' := by
  rw [hashAt_eq_root hr, hashAt_eq_root hr']
  exact root_congr fun p _ => occupant_ext hr hr' h p

end

/-! ### A walk that skips known digests -/

section

variable (digest : Preimage (Option (K × V)) D → D) (layout : Layout K)

/-- The digests of the nodes of a trie. -/
def digests : Nat → Tree K V → List D
  | _, .empty => []
  | depth, .leaf k v => [hashAt digest layout depth (.leaf k v)]
  | depth, .branch l r =>
    hashAt digest layout depth (.branch l r) :: (digests (depth + 1) l ++ digests (depth + 1) r)

/-- Walks a trie and adds the keys of its leaves to a set; a node whose digest has been seen is not
entered. -/
def leafKeys [DecidableEq K] [DecidableEq D] : Nat → Tree K V → List D × List K → List D × List K
  | _, .empty, s => s
  | depth, .leaf k v, s =>
    if hashAt digest layout depth (.leaf k v) ∈ s.1 then s
    else (hashAt digest layout depth (.leaf k v) :: s.1, if k ∈ s.2 then s.2 else s.2 ++ [k])
  | depth, .branch l r, s =>
    if hashAt digest layout depth (.branch l r) ∈ s.1 then s
    else leafKeys (depth + 1) r
      (leafKeys (depth + 1) l (hashAt digest layout depth (.branch l r) :: s.1, s.2))

variable {digest layout}

variable {depth : Nat} {t : Tree K V}

private theorem leafKeys_of_fresh [DecidableEq K] [DecidableEq D] {s : List D × List K}
    (hnodup : (digests digest layout depth t).Nodup)
    (hseen : ∀ h ∈ digests digest layout depth t, h ∉ s.1) (hkeys : t.keys.Nodup)
    (hks : ∀ k ∈ t.keys, k ∉ s.2) :
    (leafKeys digest layout depth t s).2 = s.2 ++ t.keys ∧
      ∀ h, h ∈ (leafKeys digest layout depth t s).1 ↔
        h ∈ digests digest layout depth t ∨ h ∈ s.1 := by
  induction t generalizing depth s with
  | empty => simp [leafKeys, Tree.keys, digests]
  | leaf k v =>
    have hh := hseen _ mem_cons_self
    have hk := hks k (by simp [Tree.keys])
    rw [leafKeys, if_neg hh, if_neg hk]
    simp [Tree.keys, digests]
  | branch l r ihl ihr =>
    rw [digests, nodup_cons, nodup_append] at hnodup
    obtain ⟨hself, hl, hr, hlr⟩ := hnodup
    rw [Tree.keys, nodup_append] at hkeys
    obtain ⟨hkl, hkr, hklr⟩ := hkeys
    rw [digests] at hseen
    rw [leafKeys, if_neg (hseen _ mem_cons_self)]
    have hseenl : ∀ h ∈ digests digest layout (depth + 1) l,
        h ∉ hashAt digest layout depth (.branch l r) :: s.1 := by
      intro h hh hmem
      rcases mem_cons.mp hmem with rfl | hmem
      · exact hself (mem_append_left _ hh)
      · exact hseen h (mem_cons_of_mem _ (mem_append_left _ hh)) hmem
    have hksl : ∀ k ∈ l.keys, k ∉ s.2 := fun k hk => hks k (mem_append_left _ hk)
    have hleft := ihl (s := (hashAt digest layout depth (.branch l r) :: s.1, s.2)) hl hseenl hkl
      hksl
    have hseenr : ∀ h ∈ digests digest layout (depth + 1) r, h ∉ (leafKeys digest layout
        (depth + 1) l (hashAt digest layout depth (.branch l r) :: s.1, s.2)).1 := by
      intro h hh hmem
      rcases (hleft.2 h).mp hmem with hmem | hmem
      · exact hlr h hmem h hh rfl
      · rcases mem_cons.mp hmem with rfl | hmem
        · exact hself (mem_append_right _ hh)
        · exact hseen h (mem_cons_of_mem _ (mem_append_right _ hh)) hmem
    have hksr : ∀ k ∈ r.keys, k ∉ (leafKeys digest layout (depth + 1) l
        (hashAt digest layout depth (.branch l r) :: s.1, s.2)).2 := by
      intro k hk hmem
      rw [hleft.1] at hmem
      rcases mem_append.mp hmem with hmem | hmem
      · exact hks k (mem_append_right _ hk) hmem
      · exact hklr k hmem k hk rfl
    have hright := ihr hr hseenr hkr hksr
    refine ⟨?_, fun h => ?_⟩
    · rw [hright.1, hleft.1, Tree.keys, append_assoc]
    · rw [hright.2, hleft.2, digests, mem_cons, mem_cons, mem_append]
      tauto

private theorem inputs_pick_subset {l r : Tree K V} (hr : Routed layout depth (.branch l r))
    (b : Bool) :
    rootInputs digest (layout.height - (depth + 1))
        (occupant layout (depth + 1) (Tree.pick b l r)) ⊆
      rootInputs digest (layout.height - depth) (occupant layout depth (.branch l r)) := by
  have hlt := hr.lt_height
  have hheight : layout.height - depth = layout.height - (depth + 1) + 1 := by omega
  rw [hheight, ← below_occupant]
  exact below_inputs_subset _ b _

private theorem exists_node_of_mem_digests (hr : Routed layout depth t) {h : D}
    (hh : h ∈ digests digest layout depth t) :
    ∃ depth' s, depth ≤ depth' ∧ Routed layout depth' s ∧ s.keys ≠ [] ∧
      (∀ k ∈ s.keys, k ∈ t.keys) ∧ h = hashAt digest layout depth' s ∧
      rootInputs digest (layout.height - depth') (occupant layout depth' s) ⊆
        rootInputs digest (layout.height - depth) (occupant layout depth t) := by
  induction t generalizing depth with
  | empty => cases hh
  | leaf k v =>
    rw [digests, mem_singleton] at hh
    exact ⟨depth, .leaf k v, le_refl _, hr, by simp [Tree.keys], fun _ hk => hk, hh, subset_rfl⟩
  | branch l r ihl ihr =>
    rw [digests, mem_cons, mem_append] at hh
    rcases hh with hh | hh | hh
    · exact ⟨depth, .branch l r, le_refl _, hr, hr.2.1, fun _ hk => hk, hh, subset_rfl⟩
    · obtain ⟨depth', s, hle, hs, hne, hkeys, hhash, hinputs⟩ := ihl hr.2.2.1 hh
      exact ⟨depth', s, by omega, hs, hne,
        fun k hk => mem_append_left _ (hkeys k hk), hhash, hinputs.trans (inputs_pick_subset hr false)⟩
    · obtain ⟨depth', s, hle, hs, hne, hkeys, hhash, hinputs⟩ := ihr hr.2.2.2 hh
      exact ⟨depth', s, by omega, hs, hne,
        fun k hk => mem_append_right _ (hkeys k hk), hhash, hinputs.trans (inputs_pick_subset hr true)⟩

private theorem common_key {depth' : Nat} {s s' : Tree K V} (hs : Routed layout depth s)
    (hs' : Routed layout depth' s') (hne : s.keys ≠ [])
    (h : hashAt digest layout depth s = hashAt digest layout depth' s') :
    (layout.height - depth = layout.height - depth' ∧ ∃ k ∈ s.keys, k ∈ s'.keys) ∨
      Collides digest (rootInputs digest (layout.height - depth) (occupant layout depth s) ∪
        rootInputs digest (layout.height - depth') (occupant layout depth' s')) := by
  rw [hashAt_eq_root hs, hashAt_eq_root hs'] at h
  rcases root_eq_root h with ⟨hheight, hocc⟩ | hcollides
  · obtain ⟨k, hk⟩ := exists_mem_of_ne_nil _ hne
    obtain ⟨v, hv⟩ := exists_occupant hs hk
    rw [hocc _ (by rw [length_drop, layout.length_path])] at hv
    exact .inl ⟨hheight, k, hk, (occupant_eq_some hs' hv).1⟩
  · exact .inr hcollides

private theorem nodup_digests (hr : Routed layout depth t) :
    (digests digest layout depth t).Nodup ∨
      Collides digest (rootInputs digest (layout.height - depth) (occupant layout depth t)) := by
  induction t generalizing depth with
  | empty => exact .inl nodup_nil
  | leaf k v => exact .inl (nodup_singleton _)
  | branch l r ihl ihr =>
    by_cases hcollides : Collides digest
      (rootInputs digest (layout.height - depth) (occupant layout depth (.branch l r)))
    · exact .inr hcollides
    · have hlt := hr.lt_height
      have hsub : ∀ b, rootInputs digest (layout.height - (depth + 1))
          (occupant layout (depth + 1) (Tree.pick b l r)) ⊆
          rootInputs digest (layout.height - depth) (occupant layout depth (.branch l r)) :=
        inputs_pick_subset hr
      have hl := (ihl hr.2.2.1).resolve_right fun h => hcollides (h.mono (hsub false))
      have hr' := (ihr hr.2.2.2).resolve_right fun h => hcollides (h.mono (hsub true))
      -- The digest of the branch itself belongs to a tree of another height.
      have hself : ∀ b, hashAt digest layout depth (.branch l r) ∉
          digests digest layout (depth + 1) (Tree.pick b l r) := by
        intro b hmem
        obtain ⟨depth', s, hle, hs, -, -, hhash, hinputs⟩ :=
          exists_node_of_mem_digests (hr.pick b) hmem
        rcases common_key hr hs hr.2.1 hhash with ⟨heq, -⟩ | hcollides'
        · omega
        · exact hcollides (hcollides'.mono
            (Set.union_subset subset_rfl (hinputs.trans (hsub b))))
      rw [digests, nodup_cons, nodup_append]
      refine .inl ⟨?_, hl, hr', ?_⟩
      · rw [mem_append]
        rintro (hmem | hmem)
        · exact hself false hmem
        · exact hself true hmem
      · rintro h hmem h' hmem' rfl
        obtain ⟨dl, s, -, hs, hne, hkeys, hhash, hinputs⟩ :=
          exists_node_of_mem_digests hr.2.2.1 hmem
        obtain ⟨dr, s', -, hs', -, hkeys', hhash', hinputs'⟩ :=
          exists_node_of_mem_digests hr.2.2.2 hmem'
        rcases common_key hs hs' hne (hhash ▸ hhash') with ⟨-, k, hk, hk'⟩ | hcollides'
        · have hfalse := hr.1 false k (hkeys k hk)
          rw [hr.1 true k (hkeys' k hk')] at hfalse
          cases hfalse
        · exact hcollides (hcollides'.mono (Set.union_subset (hinputs.trans (hsub false))
            (hinputs'.trans (hsub true))))

/-- The walk finds every key of the trie, or two inputs of its digest collide. -/
theorem leafKeys_eq_keys [DecidableEq K] [DecidableEq D] (hr : Routed layout 0 t) :
    (leafKeys digest layout 0 t ([], [])).2 = t.keys ∨
      Collides digest (rootInputs digest layout.height (occupant layout 0 t)) := by
  have hdigests : (digests digest layout 0 t).Nodup ∨
      Collides digest (rootInputs digest (layout.height - 0) (occupant layout 0 t)) :=
    nodup_digests hr
  rcases hdigests with hnodup | hcollides
  · exact .inl (leafKeys_of_fresh hnodup (by simp) hr.nodup_keys (by simp)).1
  · exact .inr hcollides

end

end SparseTree
