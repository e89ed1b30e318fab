import Mathlib.Data.List.Nodup
import Mathlib.Data.List.Perm.Subperm
import Mathlib.Data.List.TakeDrop
import Mathlib.Tactic.Common

/-!
# Compressed binary tries

The keys of the trie have paths of one length.  A subtrie with a single key is the leaf of that
key, whatever its depth; writing a second key below splits the leaf where the two paths part.

## Main definitions

* `SparseTree.Layout` : the paths of the keys.
* `SparseTree.Tree`, `SparseTree.Tree.keys` : the tries and their keys.
* `SparseTree.mergeLeaves`, `SparseTree.updateNode`, `SparseTree.findLeaf` : the operations.
* `SparseTree.Routed` : every key lies on its path, and no branch is bare.
* `SparseTree.Compact` : no branch has a single key below it.

## Main results

* `SparseTree.updateNode_eq_ok` : a write to a routed trie succeeds.
* `SparseTree.Routed.updateNode`, `SparseTree.mem_keys_updateNode`,
  `SparseTree.findLeaf_updateNode` : what it leaves.
* `SparseTree.Routed.nodup_keys` : no key occurs twice.
* `SparseTree.Compact.updateNode`, `SparseTree.Compact.ext` : the values of a trie built by writes
  determine it.
-/

namespace SparseTree

/-- The paths of the keys, all of one length. -/
structure Layout (K : Type) where
  height : Nat
  path : K → List Bool
  length_path : ∀ k, (path k).length = height
  path_injective : Function.Injective path

/-- A trie. -/
inductive Tree (K V : Type) where
  | empty
  | leaf (key : K) (value : V)
  | branch (left right : Tree K V)
deriving DecidableEq, Repr

/-- Why a write fails: two keys with one path, or a branch below the last bit. -/
inductive Fault where
  | collision
  | depth
deriving DecidableEq, Repr

variable {K V : Type}

/-- The keys of a trie, from left to right. -/
def Tree.keys : Tree K V → List K
  | .empty => []
  | .leaf k _ => [k]
  | .branch l r => l.keys ++ r.keys

/-- The left or the right child of a branch. -/
def Tree.pick (b : Bool) (l r : Tree K V) : Tree K V := if b then r else l

/-- The branch with one child given and the other as it was. -/
def Tree.fork (b : Bool) (child beside : Tree K V) : Tree K V :=
  if b then .branch beside child else .branch child beside

@[simp] theorem Tree.mem_keys_fork {b : Bool} {child beside : Tree K V} {k : K} :
    k ∈ (Tree.fork b child beside).keys ↔ k ∈ child.keys ∨ k ∈ beside.keys := by
  cases b
  · simp [Tree.fork, Tree.keys]
  · simp [Tree.fork, Tree.keys, or_comm]

theorem Tree.fork_pick (b : Bool) (l r : Tree K V) :
    Tree.fork b (Tree.pick b l r) (Tree.pick (!b) l r) = .branch l r := by
  cases b <;> rfl

/-! ### Operations -/

/-- Splits a leaf from an incoming one: a chain of branches down to where their paths part. -/
def mergeLeaves (existing incoming : K × V) : List Bool → List Bool → Except Fault (Tree K V)
  | a :: as, b :: bs =>
    if a = b then (mergeLeaves existing incoming as bs).map fun child => .fork a child .empty
    else .ok (.fork a (.leaf existing.1 existing.2) (.leaf incoming.1 incoming.2))
  | _, _ => .error .collision

section

variable [DecidableEq K] (layout : Layout K)

/-- Writes a key below a node at the given depth. -/
def updateNode (key : K) (value : V) : Nat → Tree K V → Except Fault (Tree K V)
  | _, .empty => .ok (.leaf key value)
  | depth, .leaf k v =>
    if k = key then .ok (.leaf key value)
    else mergeLeaves (k, v) (key, value) ((layout.path k).drop depth)
      ((layout.path key).drop depth)
  | depth, .branch l r =>
    match (layout.path key).drop depth with
    | [] => .error .depth
    | false :: _ => (updateNode key value (depth + 1) l).map fun l => .branch l r
    | true :: _ => (updateNode key value (depth + 1) r).map fun r => .branch l r

/-- The value of a key below a node at the given depth. -/
def findLeaf (key : K) : Nat → Tree K V → Option V
  | _, .empty => none
  | _, .leaf k v => if k = key then some v else none
  | depth, .branch l r =>
    match (layout.path key).drop depth with
    | [] => none
    | false :: _ => findLeaf key (depth + 1) l
    | true :: _ => findLeaf key (depth + 1) r

/-! ### Routed tries -/

/-- Every key lies on its path, and no branch is bare. -/
def Routed : Nat → Tree K V → Prop
  | _, .empty => True
  | _, .leaf _ _ => True
  | depth, .branch l r =>
    (∀ b, ∀ k ∈ (Tree.pick b l r).keys, (layout.path k)[depth]? = some b) ∧
      (Tree.branch l r).keys ≠ [] ∧ Routed (depth + 1) l ∧ Routed (depth + 1) r

/-- A key agrees with all keys of a trie before the given depth. -/
def Agrees (key : K) (depth : Nat) (t : Tree K V) : Prop :=
  ∀ k ∈ t.keys, (layout.path k).take depth = (layout.path key).take depth

variable {layout}

variable {key k : K} {depth : Nat} {b : Bool} {l r t' : Tree K V} {as bs : List Bool} {value : V}

omit [DecidableEq K] in
theorem drop_eq_nil_iff : (layout.path key).drop depth = [] ↔ layout.height ≤ depth := by
  rw [List.drop_eq_nil_iff, layout.length_path]

omit [DecidableEq K] in
theorem exists_bit (key : K) (h : depth < layout.height) :
    ∃ b bits, (layout.path key).drop depth = b :: bits :=
  List.exists_cons_of_ne_nil fun hnil => absurd (drop_eq_nil_iff.mp hnil) (Nat.not_le.mpr h)

omit [DecidableEq K] in
theorem lt_height_of_bit (h : (layout.path key)[depth]? = some b) : depth < layout.height := by
  rw [← layout.length_path key]
  exact (List.getElem?_eq_some_iff.mp h).1

omit [DecidableEq K] in
theorem bit_of_drop {bits : List Bool} (h : (layout.path key).drop depth = b :: bits) :
    (layout.path key)[depth]? = some b ∧ (layout.path key).drop (depth + 1) = bits := by
  constructor
  · rw [← Nat.add_zero depth, ← List.getElem?_drop, h, List.getElem?_cons_zero]
  · rw [← List.drop_drop, h, List.drop_one, List.tail_cons]

omit [DecidableEq K] in
theorem drop_of_bit (h : (layout.path key)[depth]? = some b) :
    (layout.path key).drop depth = b :: (layout.path key).drop (depth + 1) := by
  rw [List.getElem?_eq_some_iff] at h
  obtain ⟨hlt, hget⟩ := h
  rw [List.drop_eq_getElem_cons hlt, hget]

omit [DecidableEq K] in
/-- Some key lies below a branch, so a branch is above the last bit. -/
theorem Routed.lt_height (h : Routed layout depth (.branch l r)) : depth < layout.height := by
  obtain ⟨k, hk⟩ := List.exists_mem_of_ne_nil _ h.2.1
  rcases List.mem_append.mp hk with hk | hk
  · exact lt_height_of_bit (h.1 false k hk)
  · exact lt_height_of_bit (h.1 true k hk)

omit [DecidableEq K] in
theorem Routed.pick (h : Routed layout depth (.branch l r)) (b : Bool) :
    Routed layout (depth + 1) (Tree.pick b l r) := by
  cases b
  · exact h.2.2.1
  · exact h.2.2.2

omit [DecidableEq K] in
theorem mem_keys_pick (h : k ∈ (Tree.pick b l r).keys) : k ∈ (Tree.branch l r).keys := by
  cases b
  · exact List.mem_append_left _ h
  · exact List.mem_append_right _ h

omit [DecidableEq K] in
/-- The branch of a fork is routed when its children are. -/
theorem routed_fork {child beside : Tree K V}
    (hchild : ∀ k ∈ child.keys, (layout.path k)[depth]? = some b)
    (hbeside : ∀ k ∈ beside.keys, (layout.path k)[depth]? = some (!b)) (hne : child.keys ≠ [])
    (hc : Routed layout (depth + 1) child) (hb : Routed layout (depth + 1) beside) :
    Routed layout depth (Tree.fork b child beside) := by
  have hkeys : (Tree.fork b child beside).keys ≠ [] := by
    obtain ⟨k, hk⟩ := List.exists_mem_of_ne_nil _ hne
    exact List.ne_nil_of_mem (Tree.mem_keys_fork.mpr (.inl hk))
  cases b with
  | false =>
    refine ⟨fun b k hk => ?_, hkeys, hc, hb⟩
    cases b
    · exact hchild k hk
    · exact hbeside k hk
  | true =>
    refine ⟨fun b k hk => ?_, hkeys, hb, hc⟩
    cases b
    · exact hbeside k hk
    · exact hchild k hk

omit [DecidableEq K] in
/-- A key that agrees with a branch and has the bit of a child agrees with the child. -/
theorem Agrees.pick (h : Agrees layout key depth (.branch l r))
    (hr : Routed layout depth (.branch l r)) (hb : (layout.path key)[depth]? = some b) :
    Agrees layout key (depth + 1) (Tree.pick b l r) := by
  intro k hk
  rw [List.take_add_one, List.take_add_one, h k (mem_keys_pick hk), hr.1 b k hk, hb]

omit [DecidableEq K] in
/-- Keys that agree before a depth and from there on are equal. -/
theorem eq_of_agrees (htake : (layout.path k).take depth = (layout.path key).take depth)
    (hdrop : (layout.path k).drop depth = (layout.path key).drop depth) : k = key := by
  refine layout.path_injective ?_
  rw [← List.take_append_drop depth (layout.path k), htake, hdrop, List.take_append_drop]

/-! ### Splitting a leaf -/

variable {existing incoming : K × V}

omit [DecidableEq K] in
private theorem mergeLeaves_spec (has : (layout.path existing.1).drop depth = as)
    (hbs : (layout.path incoming.1).drop depth = bs) {t : Tree K V}
    (h : mergeLeaves existing incoming as bs = .ok t) :
    Routed layout depth t ∧ (∀ k, k ∈ t.keys ↔ k = existing.1 ∨ k = incoming.1) := by
  induction as generalizing bs depth t with
  | nil => cases h
  | cons a as ih =>
    cases bs with
    | nil => cases h
    | cons b bs =>
      obtain ⟨hbita, hresta⟩ := bit_of_drop has
      obtain ⟨hbitb, hrestb⟩ := bit_of_drop hbs
      rw [mergeLeaves] at h
      split at h
      · next hab =>
        cases hm : mergeLeaves existing incoming as bs with
        | error e => rw [hm] at h; cases h
        | ok child =>
          rw [hm] at h
          cases h
          obtain ⟨hrouted, hkeys⟩ := ih hresta hrestb hm
          refine ⟨routed_fork ?_ (by simp [Tree.keys]) ?_ hrouted trivial, ?_⟩
          · intro k hk
            rcases (hkeys k).mp hk with rfl | rfl
            · exact hbita
            · exact hab ▸ hbitb
          · exact List.ne_nil_of_mem ((hkeys existing.1).mpr (.inl rfl))
          · intro k
            rw [Tree.mem_keys_fork, hkeys]
            simp [Tree.keys]
      · next hab =>
        cases h
        have hnot : b = !a := by
          cases a <;> cases b <;> simp_all
        refine ⟨routed_fork ?_ ?_ (by simp [Tree.keys]) trivial trivial, fun k => ?_⟩
        · intro k hk
          rw [Tree.keys, List.mem_singleton] at hk
          rw [hk]
          exact hbita
        · intro k hk
          rw [Tree.keys, List.mem_singleton] at hk
          rw [hk, ← hnot]
          exact hbitb
        · simp [Tree.keys]

omit [DecidableEq K] in
private theorem mergeLeaves_eq_ok (hlen : as.length = bs.length) (hne : as ≠ bs) :
    ∃ t, mergeLeaves existing incoming as bs = .ok t := by
  induction as generalizing bs with
  | nil => exact absurd (List.length_eq_zero_iff.mp hlen.symm).symm hne
  | cons a as ih =>
    cases bs with
    | nil => cases hlen
    | cons b bs =>
      rw [mergeLeaves]
      split
      · next hab =>
        obtain ⟨child, hchild⟩ := ih (Nat.succ.inj hlen) fun h => hne (by rw [hab, h])
        rw [hchild]
        exact ⟨_, rfl⟩
      · exact ⟨_, rfl⟩

private theorem findLeaf_fork {bits : List Bool} (h : (layout.path key).drop depth = b :: bits)
    (a : Bool) (child beside : Tree K V) :
    findLeaf layout key depth (Tree.fork a child beside) =
      findLeaf layout key (depth + 1) (if a = b then child else beside) := by
  cases a <;> cases b <;> simp [Tree.fork, findLeaf, h]

private theorem findLeaf_mergeLeaves (has : (layout.path existing.1).drop depth = as)
    (hbs : (layout.path incoming.1).drop depth = bs) {t : Tree K V}
    (h : mergeLeaves existing incoming as bs = .ok t) (key : K) :
    findLeaf layout key depth t = if key = incoming.1 then some incoming.2
      else if key = existing.1 then some existing.2 else none := by
  induction as generalizing bs depth t with
  | nil => cases h
  | cons a as ih =>
    cases bs with
    | nil => cases h
    | cons b bs =>
      obtain ⟨c, cs, hkey⟩ := exists_bit key (lt_height_of_bit (bit_of_drop has).1)
      rw [mergeLeaves] at h
      split at h
      · next hab =>
        cases hm : mergeLeaves existing incoming as bs with
        | error e => rw [hm] at h; cases h
        | ok child =>
          rw [hm] at h
          cases h
          rw [findLeaf_fork hkey]
          split
          · exact ih (bit_of_drop has).2 (bit_of_drop hbs).2 hm
          · next hac =>
            -- The key leaves the common path here, so it is neither of the two.
            have hni : key ≠ incoming.1 := by
              rintro rfl
              rw [hkey, List.cons.injEq] at hbs
              exact hac (hab.trans hbs.1.symm)
            have hne : key ≠ existing.1 := by
              rintro rfl
              rw [hkey, List.cons.injEq] at has
              exact hac has.1.symm
            rw [if_neg hni, if_neg hne, findLeaf]
      · next hab =>
        cases h
        rw [findLeaf_fork hkey]
        split
        · next hac =>
          have hni : key ≠ incoming.1 := by
            rintro rfl
            rw [hkey, List.cons.injEq] at hbs
            exact hab (hac.trans hbs.1)
          rw [findLeaf, if_neg hni]
          simp only [eq_comm]
        · next hac =>
          have hne : key ≠ existing.1 := by
            rintro rfl
            rw [hkey, List.cons.injEq] at has
            exact hac has.1.symm
          rw [findLeaf, if_neg hne]
          simp only [eq_comm]

/-! ### Writes -/

theorem updateNode_branch {t : Tree K V}
    (h : updateNode layout key value depth (.branch l r) = .ok t) :
    ∃ b child, (layout.path key)[depth]? = some b ∧
      updateNode layout key value (depth + 1) (Tree.pick b l r) = .ok child ∧
      t = Tree.fork b child (Tree.pick (!b) l r) := by
  rw [updateNode] at h
  split at h
  · cases h
  · next hdrop =>
    cases hu : updateNode layout key value (depth + 1) l with
    | error e => rw [hu] at h; cases h
    | ok child =>
      rw [hu] at h
      cases h
      exact ⟨false, child, (bit_of_drop hdrop).1, hu, rfl⟩
  · next hdrop =>
    cases hu : updateNode layout key value (depth + 1) r with
    | error e => rw [hu] at h; cases h
    | ok child =>
      rw [hu] at h
      cases h
      exact ⟨true, child, (bit_of_drop hdrop).1, hu, rfl⟩

theorem mem_keys_updateNode {t : Tree K V} (h : updateNode layout key value depth t = .ok t') :
    k ∈ t'.keys ↔ k = key ∨ k ∈ t.keys := by
  induction t generalizing depth t' with
  | empty =>
    cases h
    simp [Tree.keys]
  | leaf k' v =>
    rw [updateNode] at h
    split at h
    · next heq =>
      cases h
      simp [Tree.keys, heq]
    · rw [(mergeLeaves_spec rfl rfl h).2, or_comm]
      simp [Tree.keys]
  | branch l r ihl ihr =>
    obtain ⟨b, child, -, hu, rfl⟩ := updateNode_branch h
    have hchild : k ∈ child.keys ↔ k = key ∨ k ∈ (Tree.pick b l r).keys := by
      cases b
      · exact ihl hu
      · exact ihr hu
    rw [Tree.mem_keys_fork, hchild, or_assoc, ← Tree.mem_keys_fork, Tree.fork_pick]

/-- A write keeps every key on its path. -/
theorem Routed.updateNode {t : Tree K V} (hr : Routed layout depth t)
    (h : updateNode layout key value depth t = .ok t') : Routed layout depth t' := by
  induction t generalizing depth t' with
  | empty =>
    cases h
    trivial
  | leaf k' v =>
    rw [SparseTree.updateNode] at h
    split at h
    · cases h
      trivial
    · exact (mergeLeaves_spec rfl rfl h).1
  | branch l r ihl ihr =>
    obtain ⟨b, child, hbit, hu, rfl⟩ := updateNode_branch h
    have hchild : Routed layout (depth + 1) child := by
      cases b
      · exact ihl hr.2.2.1 hu
      · exact ihr hr.2.2.2 hu
    refine routed_fork ?_ (hr.1 (!b)) ?_ hchild (hr.pick (!b))
    · intro k hk
      rcases (mem_keys_updateNode hu).mp hk with rfl | hk
      · exact hbit
      · exact hr.1 b k hk
    · exact List.ne_nil_of_mem ((mem_keys_updateNode hu).mpr (.inl rfl))

/-- A write changes the value of its key only. -/
theorem findLeaf_updateNode {t : Tree K V} (h : updateNode layout key value depth t = .ok t')
    (k : K) :
    findLeaf layout k depth t' = if k = key then some value else findLeaf layout k depth t := by
  induction t generalizing depth t' with
  | empty =>
    cases h
    simp only [findLeaf, eq_comm]
  | leaf k' v =>
    rw [updateNode] at h
    split at h
    · next heq =>
      cases h
      subst heq
      simp only [findLeaf, eq_comm]
      split <;> rfl
    · rw [findLeaf_mergeLeaves rfl rfl h, findLeaf]
      simp only [eq_comm]
  | branch l r ihl ihr =>
    obtain ⟨b, child, hbit, hu, rfl⟩ := updateNode_branch h
    obtain ⟨c, cs, hk⟩ := exists_bit k (lt_height_of_bit hbit)
    rw [← Tree.fork_pick b l r, findLeaf_fork hk, findLeaf_fork hk]
    split
    · cases b
      · exact ihl hu
      · exact ihr hu
    · next hbc =>
      have hne : k ≠ key := by
        rintro rfl
        rw [(bit_of_drop hk).1, Option.some.injEq] at hbit
        exact hbc hbit.symm
      rw [if_neg hne]

/-- A write to a routed trie whose keys it agrees with succeeds. -/
theorem updateNode_eq_ok (value : V) {t : Tree K V} (hr : Routed layout depth t)
    (ha : Agrees layout key depth t) : ∃ t', updateNode layout key value depth t = .ok t' := by
  induction t generalizing depth with
  | empty => exact ⟨_, rfl⟩
  | leaf k v =>
    rw [updateNode]
    split
    · exact ⟨_, rfl⟩
    · next hne =>
      refine mergeLeaves_eq_ok ?_ fun hdrop => hne ?_
      · rw [List.length_drop, List.length_drop, layout.length_path, layout.length_path]
      · exact eq_of_agrees (ha k (by simp [Tree.keys])) hdrop
  | branch l r ihl ihr =>
    obtain ⟨b, bs, hkey⟩ := exists_bit key hr.lt_height
    have hagrees := ha.pick hr (bit_of_drop hkey).1
    rw [updateNode, hkey]
    cases b with
    | false =>
      obtain ⟨child, hchild⟩ := ihl hr.2.2.1 hagrees
      exact ⟨.branch child r, by simp only [hchild, Except.map]⟩
    | true =>
      obtain ⟨child, hchild⟩ := ihr hr.2.2.2 hagrees
      exact ⟨.branch l child, by simp only [hchild, Except.map]⟩

end

variable {t : Tree K V}

/-- No key occurs twice. -/
theorem Routed.nodup_keys {layout : Layout K} {depth : Nat} (h : Routed layout depth t) :
    t.keys.Nodup := by
  induction t generalizing depth with
  | empty => exact List.nodup_nil
  | leaf k v => exact List.nodup_singleton k
  | branch l r ihl ihr =>
    rw [Tree.keys, List.nodup_append]
    refine ⟨ihl h.2.2.1, ihr h.2.2.2, ?_⟩
    rintro k hl k' hr rfl
    have hfalse := h.1 false k hl
    rw [h.1 true k hr] at hfalse
    cases hfalse

/-- The keys of a routed trie are those it finds a value for. -/
theorem Routed.mem_keys_iff [DecidableEq K] {layout : Layout K} {depth : Nat}
    (h : Routed layout depth t) {k : K} : k ∈ t.keys ↔ findLeaf layout k depth t ≠ none := by
  induction t generalizing depth with
  | empty => simp [Tree.keys, findLeaf]
  | leaf k' v => simp [Tree.keys, findLeaf, eq_comm]
  | branch l r ihl ihr =>
    obtain ⟨b, bits, hk⟩ := exists_bit k h.lt_height
    have hside : k ∈ (Tree.branch l r).keys ↔ k ∈ (Tree.pick b l r).keys := by
      refine ⟨fun hmem => ?_, mem_keys_pick⟩
      rcases List.mem_append.mp hmem with hmem | hmem
      · exact (Option.some.inj ((bit_of_drop hk).1.symm.trans (h.1 false k hmem))) ▸ hmem
      · exact (Option.some.inj ((bit_of_drop hk).1.symm.trans (h.1 true k hmem))) ▸ hmem
    rw [hside, ← Tree.fork_pick b l r, findLeaf_fork hk, if_pos rfl]
    cases b
    · exact ihl h.2.2.1
    · exact ihr h.2.2.2

/-! ### Compact tries -/

/-- Every branch has at least two keys below it. -/
def Compact : Tree K V → Prop
  | .empty => True
  | .leaf _ _ => True
  | .branch l r => 2 ≤ (Tree.branch l r).keys.length ∧ Compact l ∧ Compact r

@[simp] theorem length_keys_fork (b : Bool) (child beside : Tree K V) :
    (Tree.fork b child beside).keys.length = child.keys.length + beside.keys.length := by
  cases b
  · simp [Tree.fork, Tree.keys]
  · simp [Tree.fork, Tree.keys, Nat.add_comm]

theorem compact_fork {b : Bool} {child beside : Tree K V}
    (hlen : 2 ≤ child.keys.length + beside.keys.length) (hc : Compact child) (hb : Compact beside) :
    Compact (Tree.fork b child beside) := by
  have hkeys := length_keys_fork b child beside
  cases b
  · exact ⟨hkeys ▸ hlen, hc, hb⟩
  · exact ⟨hkeys ▸ hlen, hb, hc⟩

private theorem compact_mergeLeaves {existing incoming : K × V} {as bs : List Bool}
    (h : mergeLeaves existing incoming as bs = .ok t) : t.keys.length = 2 ∧ Compact t := by
  induction as generalizing bs t with
  | nil => cases h
  | cons a as ih =>
    cases bs with
    | nil => cases h
    | cons b bs =>
      rw [mergeLeaves] at h
      split at h
      · cases hm : mergeLeaves existing incoming as bs with
        | error e => rw [hm] at h; cases h
        | ok child =>
          rw [hm] at h
          cases h
          obtain ⟨hlen, hcompact⟩ := ih hm
          have hsum : child.keys.length + (Tree.empty : Tree K V).keys.length = 2 := hlen
          exact ⟨by rw [length_keys_fork, hsum], compact_fork (Nat.le_of_eq hsum.symm) hcompact trivial⟩
      · cases h
        exact ⟨by simp [Tree.keys], compact_fork (by simp [Tree.keys]) trivial trivial⟩

section

variable [DecidableEq K] {layout : Layout K}

variable {depth : Nat} {t' : Tree K V}

private theorem length_keys_updateNode {key : K} {value : V} {t : Tree K V}
    (h : updateNode layout key value depth t = .ok t') : t.keys.length ≤ t'.keys.length := by
  induction t generalizing depth t' with
  | empty => exact Nat.zero_le _
  | leaf k v =>
    rw [updateNode] at h
    split at h
    · cases h
      exact Nat.le_refl _
    · rw [(compact_mergeLeaves h).1]
      exact Nat.le_succ 1
  | branch l r ihl ihr =>
    obtain ⟨b, child, -, hu, rfl⟩ := updateNode_branch h
    rw [← Tree.fork_pick b l r, length_keys_fork, length_keys_fork]
    refine Nat.add_le_add_right ?_ _
    cases b
    · exact ihl hu
    · exact ihr hu

/-- A write keeps a trie compact. -/
theorem Compact.updateNode {key : K} {value : V} {t : Tree K V} (hc : Compact t)
    (h : updateNode layout key value depth t = .ok t') : Compact t' := by
  induction t generalizing depth t' with
  | empty =>
    cases h
    trivial
  | leaf k v =>
    rw [SparseTree.updateNode] at h
    split at h
    · cases h
      trivial
    · exact (compact_mergeLeaves h).2
  | branch l r ihl ihr =>
    have hlen := length_keys_updateNode h
    obtain ⟨b, child, -, hu, rfl⟩ := updateNode_branch h
    rw [length_keys_fork] at hlen
    refine compact_fork (Nat.le_trans hc.1 hlen) ?_ ?_
    · cases b
      · exact ihl hc.2.1 hu
      · exact ihr hc.2.2 hu
    · cases b
      · exact hc.2.2
      · exact hc.2.1

omit [DecidableEq K] in
private theorem eq_empty_of_keys {t : Tree K V} (hr : Routed layout depth t) (h : t.keys = []) :
    t = .empty := by
  cases t with
  | empty => rfl
  | leaf k v => cases h
  | branch l r => exact absurd h hr.2.1

omit [DecidableEq K] in
private theorem keys_branch_ne {l r : Tree K V} (hr : Routed layout depth (.branch l r))
    (hc : Compact (.branch l r)) (k : K) : ∃ k' ∈ (Tree.branch l r).keys, k' ≠ k := by
  by_contra hall
  push Not at hall
  have hle : (Tree.branch l r).keys.length ≤ [k].length :=
    (List.subperm_of_subset hr.nodup_keys fun k' hk' =>
      List.mem_singleton.mpr (hall k' hk')).length_le
  have hlen := hc.1
  rw [List.length_singleton] at hle
  omega

private theorem eq_of_findLeaf {t : Tree K V} (hr : Routed layout depth t)
    (hr' : Routed layout depth t') (hc : Compact t) (hc' : Compact t')
    (hkeys : ∀ k, k ∈ t.keys ↔ k ∈ t'.keys)
    (hfind : ∀ k ∈ t.keys, findLeaf layout k depth t = findLeaf layout k depth t') : t = t' := by
  induction t generalizing depth t' with
  | empty =>
    refine (eq_empty_of_keys hr' (List.eq_nil_iff_forall_not_mem.mpr fun k hk => ?_)).symm
    exact absurd ((hkeys k).mpr hk) List.not_mem_nil
  | leaf k v =>
    cases t' with
    | empty => exact absurd ((hkeys k).mp List.mem_cons_self) List.not_mem_nil
    | leaf k' v' =>
      have hk : k = k' := List.mem_singleton.mp ((hkeys k).mp List.mem_cons_self)
      have hv := hfind k List.mem_cons_self
      rw [findLeaf, findLeaf, if_pos rfl, if_pos hk.symm, Option.some.injEq] at hv
      rw [hk, hv]
    | branch l' r' =>
      obtain ⟨k', hk', hne⟩ := keys_branch_ne hr' hc' k
      exact absurd (List.mem_singleton.mp ((hkeys k').mpr hk')) hne
  | branch l r ihl ihr =>
    cases t' with
    | empty =>
      obtain ⟨k, hk⟩ := List.exists_mem_of_ne_nil _ hr.2.1
      exact absurd ((hkeys k).mp hk) List.not_mem_nil
    | leaf k' v' =>
      obtain ⟨k, hk, hne⟩ := keys_branch_ne hr hc k'
      exact absurd (List.mem_singleton.mp ((hkeys k).mp hk)) hne
    | branch l' r' =>
      -- A key lies below the child of its bit, in both tries.
      have hside : ∀ b k, k ∈ (Tree.pick b l r).keys ↔ k ∈ (Tree.pick b l' r').keys := by
        intro b k
        constructor
        · intro hk
          rcases List.mem_append.mp ((hkeys k).mp (mem_keys_pick hk)) with hk' | hk'
          · exact (Option.some.inj ((hr.1 b k hk).symm.trans (hr'.1 false k hk'))) ▸ hk'
          · exact (Option.some.inj ((hr.1 b k hk).symm.trans (hr'.1 true k hk'))) ▸ hk'
        · intro hk
          rcases List.mem_append.mp ((hkeys k).mpr (mem_keys_pick hk)) with hk' | hk'
          · exact (Option.some.inj ((hr'.1 b k hk).symm.trans (hr.1 false k hk'))) ▸ hk'
          · exact (Option.some.inj ((hr'.1 b k hk).symm.trans (hr.1 true k hk'))) ▸ hk'
      have hchild : ∀ b, ∀ k ∈ (Tree.pick b l r).keys,
          findLeaf layout k (depth + 1) (Tree.pick b l r) =
            findLeaf layout k (depth + 1) (Tree.pick b l' r') := by
        intro b k hk
        have hk' := hfind k (mem_keys_pick hk)
        have hdrop := drop_of_bit (hr.1 b k hk)
        rw [← Tree.fork_pick b l r, ← Tree.fork_pick b l' r', findLeaf_fork hdrop,
          findLeaf_fork hdrop, if_pos rfl, if_pos rfl] at hk'
        exact hk'
      rw [ihl hr.2.2.1 hr'.2.2.1 hc.2.1 hc'.2.1 (hside false) (hchild false),
        ihr hr.2.2.2 hr'.2.2.2 hc.2.2 hc'.2.2 (hside true) (hchild true)]

/-- Compact tries that find the same values are equal. -/
theorem Compact.ext {t : Tree K V} (hc : Compact t) (hc' : Compact t') (hr : Routed layout depth t)
    (hr' : Routed layout depth t') (h : ∀ k, findLeaf layout k depth t = findLeaf layout k depth t') :
    t = t' :=
  eq_of_findLeaf hr hr' hc hc' (fun k => by rw [hr.mem_keys_iff, hr'.mem_keys_iff, h]) fun k _ => h k

end

end SparseTree
