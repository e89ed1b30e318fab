import Mathlib.Data.List.Nodup
import Mathlib.Data.Set.Function
import ZyronChain.Lib.MerkleTree

/-!
# Merkle trees over lists

The tree that pairs the digests of a list level by level and pairs the last digest of a level of
odd length with itself.  The root does not determine the list: repeating the tail of an odd level
changes nothing.  Among lists without repetition it does, unless the digest collides.
-/

namespace Merkle

open List

variable {L D : Type}

/-! ### Rounds -/

/-- The pairs of a level.  The last entry of an odd level is paired with itself. -/
def pairs : List D → List (D × D)
  | [] => []
  | [a] => [(a, a)]
  | a :: b :: rest => (a, b) :: pairs rest

theorem length_pairs (X : List D) : (pairs X).length = (X.length + 1) / 2 := by
  induction X using pairs.induct with
  | case1 | case2 => simp [pairs]
  | case3 a b rest ih =>
    rw [pairs, length_cons, ih, length_cons, length_cons]
    omega

/-- The first entries of the pairs are entries of the level, in their order. -/
theorem map_fst_pairs_sublist (X : List D) : ((pairs X).map Prod.fst).Sublist X := by
  induction X using pairs.induct with
  | case1 | case2 => exact List.Sublist.refl _
  | case3 a b rest ih => exact (ih.cons b).cons_cons a

variable {X Y : List D} {n : Nat}

theorem nodup_pairs (h : X.Nodup) : (pairs X).Nodup :=
  List.Nodup.of_map Prod.fst (h.sublist (map_fst_pairs_sublist X))

/-- Without repetition an entry paired with itself is the tail of an odd level. -/
theorem pairs_injective (hX : X.Nodup) (hY : Y.Nodup) (h : pairs X = pairs Y) : X = Y := by
  induction X using pairs.induct generalizing Y with
  | case1 =>
    match Y with
    | [] => rfl
    | [_] => cases h
    | _ :: _ :: _ => cases h
  | case2 a =>
    match Y with
    | [] => cases h
    | [_] => cases h; rfl
    | c :: d :: rest =>
      rw [pairs, pairs, List.cons.injEq, Prod.mk.injEq] at h
      have hcd : c = d := h.1.1.symm.trans h.1.2
      exact absurd hY (by simp [hcd])
  | case3 a b rest ih =>
    match Y with
    | [] => cases h
    | [c] =>
      rw [pairs, pairs, List.cons.injEq, Prod.mk.injEq] at h
      have hab : a = b := h.1.1.trans h.1.2.symm
      exact absurd hX (by simp [hab])
    | c :: d :: rest' =>
      rw [pairs, pairs, List.cons.injEq, Prod.mk.injEq] at h
      obtain ⟨⟨rfl, rfl⟩, hrest⟩ := h
      rw [ih hX.of_cons.of_cons hY.of_cons.of_cons hrest]

private theorem eq_of_map_eq {α β : Type} {f : α → β} {xs ys : List α}
    (hf : ∀ x ∈ xs, ∀ y ∈ ys, f x = f y → x = y) (h : xs.map f = ys.map f) : xs = ys := by
  induction xs generalizing ys with
  | nil => exact (map_eq_nil_iff.mp h.symm).symm
  | cons x xs ih =>
    cases ys with
    | nil => cases h
    | cons y ys =>
      rw [map_cons, map_cons, List.cons.injEq] at h
      rw [hf x mem_cons_self y mem_cons_self h.1,
        ih (fun x hx y hy => hf x (mem_cons_of_mem _ hx) y (mem_cons_of_mem _ hy)) h.2]

variable (digest : Preimage L D → D)

def node (p : D × D) : Preimage L D := .branch p.1 p.2

omit digest in
theorem node_injective : Function.Injective (node : D × D → Preimage L D) := by
  rintro ⟨a, b⟩ ⟨c, d⟩ h
  cases h
  rfl

def level (X : List D) : List D := (pairs X).map fun p => digest (node p)

def fold : Nat → List D → List D
  | n + 1, a :: b :: rest => fold n (level digest (a :: b :: rest))
  | _, X => X

def foldInputs : Nat → List D → Set (Preimage L D)
  | n + 1, a :: b :: rest =>
    {x | ∃ p ∈ pairs (a :: b :: rest), x = node p} ∪
      foldInputs n (level digest (a :: b :: rest))
  | _, _ => ∅

variable {digest}

theorem length_level (X : List D) : (level digest X).length = (X.length + 1) / 2 := by
  rw [level, length_map, length_pairs]

theorem fold_of_two_le (h : 2 ≤ X.length) :
    fold digest (n + 1) X = fold digest n (level digest X) := by
  match X with
  | a :: b :: rest => rfl

theorem fold_singleton (n : Nat) (a : D) : fold digest n [a] = [a] := by
  cases n <;> rfl

theorem foldInputs_of_two_le (h : 2 ≤ X.length) :
    foldInputs digest (n + 1) X =
      {x | ∃ p ∈ pairs X, x = node p} ∪ foldInputs digest n (level digest X) := by
  match X with
  | a :: b :: rest => rfl

theorem length_fold (hX : X ≠ []) (hn : X.length ≤ n) : (fold digest n X).length = 1 := by
  induction n generalizing X with
  | zero => exact absurd (length_eq_zero_iff.mp (Nat.le_zero.mp hn)) hX
  | succ n ih =>
    match X with
    | [a] => rfl
    | a :: b :: rest =>
      have hlen : 2 ≤ (a :: b :: rest).length := by simp
      rw [fold_of_two_le hlen]
      refine ih (length_pos_iff.mp ?_) ?_
      · rw [length_level]; omega
      · rw [length_level]; omega

theorem fold_succ (hn : X.length ≤ n) : fold digest (n + 1) X = fold digest n X := by
  induction n generalizing X with
  | zero =>
    rw [length_eq_zero_iff.mp (Nat.le_zero.mp hn)]
    rfl
  | succ n ih =>
    by_cases hlen : 2 ≤ X.length
    · rw [fold_of_two_le hlen, fold_of_two_le hlen]
      exact ih (by rw [length_level]; omega)
    · match X with
      | [] => rfl
      | [a] => rfl
      | a :: b :: rest => exact absurd (by simp) hlen

theorem pairs_append_pair (a : D) (h : X.length % 2 = 0) :
    pairs (X ++ [a, a]) = pairs (X ++ [a]) := by
  induction X using pairs.induct with
  | case1 => rfl
  | case2 b => simp at h
  | case3 b c rest ih =>
    have hrest : rest.length % 2 = 0 := by simp at h; omega
    rw [cons_append, cons_append, cons_append, cons_append, pairs, pairs, ih hrest]

/-- The root does not see the tail of an odd level repeated. -/
theorem fold_append_pair (a : D) (h : X.length % 2 = 0) (hX : X ≠ []) :
    fold digest (X.length + 2) (X ++ [a, a]) = fold digest (X.length + 1) (X ++ [a]) := by
  have hlen : 0 < X.length := length_pos_iff.mpr hX
  have hlevel : level digest (X ++ [a, a]) = level digest (X ++ [a]) := by
    rw [level, level, pairs_append_pair a h]
  have hpair : 2 ≤ (X ++ [a, a]).length := by simp
  have hsingle : 2 ≤ (X ++ [a]).length := by simp; omega
  rw [fold_of_two_le hpair, fold_of_two_le hsingle, hlevel]
  refine fold_succ ?_
  rw [length_level, length_append, length_singleton]
  omega

/-! ### Climbs -/

/-- Rounds of pairing lead from one level to another. -/
inductive Climbs (digest : Preimage L D → D) : List D → List D → Prop
  | refl (X : List D) : Climbs digest X X
  | round {X Y : List D} (h : 2 ≤ X.length) (hclimb : Climbs digest (level digest X) Y) :
      Climbs digest X Y

section

variable {s : Set (Preimage L D)} (hs : Set.InjOn digest s)

include hs

theorem nodup_level {X : List D} (hX : X.Nodup) (hin : ∀ p ∈ pairs X, node p ∈ s) :
    (level digest X).Nodup :=
  (nodup_pairs hX).map_on fun p hp q hq h => node_injective (hs (hin p hp) (hin q hq) h)

theorem level_injective {X Y : List D} (hX : X.Nodup) (hY : Y.Nodup)
    (hinX : ∀ p ∈ pairs X, node p ∈ s) (hinY : ∀ p ∈ pairs Y, node p ∈ s)
    (h : level digest X = level digest Y) : X = Y :=
  pairs_injective hX hY (eq_of_map_eq
    (fun p hp q hq hpq => node_injective (hs (hinX p hp) (hinY q hq) hpq)) h)

/-- Climbs to a level that is itself the result of a round stop one round earlier. -/
theorem Climbs.of_levels {n : Nat} {X Y : List D} (hlen : 2 ≤ X.length) (hn : X.length ≤ n + 1)
    (hX : X.Nodup) (hY : Y.Nodup) (hinX : foldInputs digest (n + 1) X ⊆ s)
    (hinY : ∀ p ∈ pairs Y, node p ∈ s) (h : Climbs digest (level digest X) (level digest Y)) :
    Climbs digest X Y := by
  induction n generalizing X with
  | zero => omega
  | succ n ih =>
    rw [foldInputs_of_two_le hlen, Set.union_subset_iff] at hinX
    have hpairs : ∀ p ∈ pairs X, node p ∈ s := fun p hp => hinX.1 ⟨p, hp, rfl⟩
    generalize hZ : level digest Y = Z at h
    cases h with
    | refl =>
      rw [level_injective hs hX hY hpairs hinY hZ.symm]
      exact .refl Y
    | round hlen' h =>
      subst hZ
      have hshort : (level digest X).length ≤ n + 1 := by rw [length_level]; omega
      exact .round hlen (ih hlen' hshort (nodup_level hs hX hpairs) hinX.2 h)

end

theorem climbs_fold (n : Nat) (X : List D) : Climbs digest X (fold digest n X) := by
  induction n generalizing X with
  | zero => exact .refl X
  | succ n ih =>
    match X with
    | [] => exact .refl _
    | [a] => exact .refl _
    | a :: b :: rest => exact .round (by simp) (ih _)

/-- A climb is no round at all, or its end consists of digests of pairs. -/
theorem Climbs.eq_or_digests (hn : X.length ≤ n) (h : Climbs digest X Y) :
    X = Y ∨ ∀ y ∈ Y, ∃ p, node p ∈ foldInputs digest n X ∧ y = digest (node p) := by
  induction h generalizing n with
  | refl => exact .inl rfl
  | @round X Y hlen h ih =>
    obtain ⟨m, rfl⟩ : ∃ m, n = m + 1 := ⟨n - 1, by omega⟩
    rw [foldInputs_of_two_le hlen]
    refine .inr fun y hy => ?_
    rcases ih (n := m) (by rw [length_level]; omega) with rfl | hdigests
    · obtain ⟨p, hp, rfl⟩ := mem_map.mp hy
      exact ⟨p, .inl ⟨p, hp, rfl⟩, rfl⟩
    · obtain ⟨p, hp, hy⟩ := hdigests y hy
      exact ⟨p, .inr hp, hy⟩

/-- Of two levels with one root, one climbs to the other. -/
theorem climbs_or_climbs {s : Set (Preimage L D)} (hs : Set.InjOn digest s) {m : Nat} (hX : X.Nodup)
    (hY : Y.Nodup) (hX₀ : X ≠ []) (hY₀ : Y ≠ []) (hn : X.length ≤ n) (hm : Y.length ≤ m)
    (hinX : foldInputs digest n X ⊆ s) (hinY : foldInputs digest m Y ⊆ s)
    (h : fold digest n X = fold digest m Y) : Climbs digest X Y ∨ Climbs digest Y X := by
  induction n generalizing X Y m with
  | zero => exact absurd (length_eq_zero_iff.mp (Nat.le_zero.mp hn)) hX₀
  | succ n ih =>
    by_cases hlenX : 2 ≤ X.length
    · by_cases hlenY : 2 ≤ Y.length
      · obtain ⟨m, rfl⟩ : ∃ k, m = k + 1 := ⟨m - 1, by omega⟩
        rw [fold_of_two_le hlenX, fold_of_two_le hlenY] at h
        have hinX' := hinX
        have hinY' := hinY
        rw [foldInputs_of_two_le hlenX, Set.union_subset_iff] at hinX'
        rw [foldInputs_of_two_le hlenY, Set.union_subset_iff] at hinY'
        have hpX : ∀ p ∈ pairs X, node p ∈ s := fun p hp => hinX'.1 ⟨p, hp, rfl⟩
        have hpY : ∀ p ∈ pairs Y, node p ∈ s := fun p hp => hinY'.1 ⟨p, hp, rfl⟩
        have hlX : (level digest X).length ≤ n := by rw [length_level]; omega
        have hlY : (level digest Y).length ≤ m := by rw [length_level]; omega
        have hneX : level digest X ≠ [] := length_pos_iff.mp (by rw [length_level]; omega)
        have hneY : level digest Y ≠ [] := length_pos_iff.mp (by rw [length_level]; omega)
        rcases ih (nodup_level hs hX hpX) (nodup_level hs hY hpY) hneX hneY hlX hlY hinX'.2
          hinY'.2 h with hclimb | hclimb
        · exact .inl (hclimb.of_levels hs hlenX hn hX hY hinX hpY)
        · exact .inr (hclimb.of_levels hs hlenY hm hY hX hinY hpX)
      · obtain ⟨b, rfl⟩ := length_eq_one_iff.mp
          (show Y.length = 1 by have := length_pos_iff.mpr hY₀; omega)
        rw [fold_singleton] at h
        exact .inl (h ▸ climbs_fold (n + 1) X)
    · obtain ⟨a, rfl⟩ := length_eq_one_iff.mp
        (show X.length = 1 by have := length_pos_iff.mpr hX₀; omega)
      rw [fold_singleton] at h
      exact .inr (h ▸ climbs_fold m Y)

/-! ### Contents -/

/-- What is hashed for the root of a list of contents. -/
def listInputs (digest : Preimage L D → D) (contents : List L) : Set (Preimage L D) :=
  {x | ∃ c ∈ contents, x = .leaf c} ∪
    foldInputs digest contents.length (contents.map fun c => digest (.leaf c))

/-- The root of a list of contents is the digest of a leaf or of a pair. -/
theorem fold_leaves_eq {contents : List L} (h : contents ≠ []) :
    ∃ x ∈ listInputs digest contents,
      fold digest contents.length (contents.map fun c => digest (.leaf c)) = [digest x] := by
  have hlen : (contents.map fun c => digest (.leaf c)).length ≤ contents.length := by
    rw [length_map]
  obtain ⟨y, hy⟩ := length_eq_one_iff.mp
    (length_fold (map_eq_nil_iff.not.mpr h) hlen : (fold digest _ _).length = 1)
  rw [hy]
  have hclimb := @climbs_fold _ _ digest contents.length
    (contents.map fun c => digest (.leaf c))
  rw [hy] at hclimb
  rcases hclimb.eq_or_digests hlen with heq | hdigests
  · obtain ⟨c, hc, rfl⟩ := mem_map.mp (heq ▸ mem_singleton_self y)
    exact ⟨.leaf c, .inl ⟨c, hc, rfl⟩, rfl⟩
  · obtain ⟨p, hp, rfl⟩ := hdigests y (mem_singleton_self y)
    exact ⟨node p, .inr hp, rfl⟩

/-- Contents without repetition are determined by their root. -/
theorem eq_of_fold_leaves_eq {s : Set (Preimage L D)} (hs : Set.InjOn digest s) {xs ys : List L}
    (hx : xs.Nodup) (hy : ys.Nodup) (hx₀ : xs ≠ []) (hy₀ : ys ≠ [])
    (hinX : listInputs digest xs ⊆ s) (hinY : listInputs digest ys ⊆ s)
    (h : fold digest xs.length (xs.map fun c => digest (.leaf c)) =
      fold digest ys.length (ys.map fun c => digest (.leaf c))) : xs = ys := by
  have hleaf : ∀ {cs : List L}, listInputs digest cs ⊆ s → ∀ c ∈ cs, Preimage.leaf c ∈ s :=
    fun hin c hc => hin (.inl ⟨c, hc, rfl⟩)
  have hnodup : ∀ {cs : List L}, listInputs digest cs ⊆ s → cs.Nodup →
      (cs.map fun c => digest (.leaf c)).Nodup := fun hin hcs =>
    hcs.map_on fun c hc d hd hcd =>
      Preimage.leaf.inj (hs (hleaf hin c hc) (hleaf hin d hd) hcd)
  -- the digest of a leaf is not the digest of a pair, so no round separates the two lists
  have hstop : ∀ {cs ds : List L}, listInputs digest cs ⊆ s → listInputs digest ds ⊆ s → ds ≠ [] →
      Climbs digest (cs.map fun c => digest (.leaf c)) (ds.map fun c => digest (.leaf c)) →
      cs = ds := by
    intro cs ds hcs hds hds₀ hclimb
    rcases hclimb.eq_or_digests (n := cs.length) (by rw [length_map]) with heq | hdigests
    · exact eq_of_map_eq (fun c hc d hd hcd =>
        Preimage.leaf.inj (hs (hleaf hcs c hc) (hleaf hds d hd) hcd)) heq
    · obtain ⟨d, hd⟩ := exists_mem_of_ne_nil ds hds₀
      obtain ⟨p, hp, hpd⟩ := hdigests _ (mem_map_of_mem hd)
      cases hs (hleaf hds d hd) (hcs (.inr hp)) hpd
  rcases climbs_or_climbs hs (hnodup hinX hx) (hnodup hinY hy) (map_eq_nil_iff.not.mpr hx₀)
    (map_eq_nil_iff.not.mpr hy₀) (by rw [length_map]) (by rw [length_map])
    (fun x hx => hinX (.inr hx)) (fun x hx => hinY (.inr hx)) h with hclimb | hclimb
  · exact hstop hinX hinY hy₀ hclimb
  · exact (hstop hinY hinX hx₀ hclimb).symm

end Merkle
