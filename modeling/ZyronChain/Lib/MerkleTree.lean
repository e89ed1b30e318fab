import Mathlib.Data.Set.Insert
import Mathlib.Tactic.Common

/-!
# Digests of perfect binary trees

A tree of height `n` has one leaf for every path of `n` bits.  Its digest is computed from the
contents of the leaves upwards; an opening of a path is the list of the digests beside it.
Injectivity is stated for one digest function and the finitely many inputs that the computations
in question feed to it: either the conclusion holds or two of those inputs collide.

## Main definitions

* `Merkle.root` : the digest of a tree.
* `Merkle.opening`, `Merkle.climb` : the digests beside a path, and the digest they lead to.
* `Merkle.Collides` : two different inputs of a set have one digest.

## Main results

* `Merkle.climb_opening` : an opening leads to the digest of the tree.
* `Merkle.root_eq_root` : equal digests come from equal trees, or a collision.
* `Merkle.climb_eq_root` : whatever leads to the digest of a tree carries the content of its leaf,
  or a collision.
-/

namespace Merkle

open List

/-- What the digest of a node is computed from. -/
inductive Preimage (L D : Type) where
  | leaf (content : L)
  | branch (left right : D)
deriving DecidableEq, Repr

variable {L D : Type}

/-- The contents of the leaves below the left or the right child. -/
def below (b : Bool) (f : List Bool → L) : List Bool → L := fun p => f (b :: p)

section

variable (digest : Preimage L D → D)

/-- The digest of the tree of height `n` with the given contents of its leaves. -/
def root : Nat → (List Bool → L) → D
  | 0, f => digest (.leaf (f []))
  | n + 1, f => digest (.branch (root n (below false f)) (root n (below true f)))

/-- The digest of a branch on a path: the child on the path, and the one beside it. -/
def join (b : Bool) (child beside : D) : D :=
  if b then digest (.branch beside child) else digest (.branch child beside)

/-- The digest that a content and the digests beside its path lead to, top bit first. -/
def climb : List Bool → List D → L → D
  | b :: bits, d :: beside, content => join digest b (climb bits beside content) d
  | _, _, content => digest (.leaf content)

/-- The digests beside a path, from the root downwards. -/
def opening : List Bool → (List Bool → L) → List D
  | [], _ => []
  | b :: bits, f => root digest bits.length (below (!b) f) :: opening bits (below b f)

/-! ### Inputs of the digest -/

/-- The inputs of the digest of a tree. -/
def rootInputs : Nat → (List Bool → L) → Set (Preimage L D)
  | 0, f => {.leaf (f [])}
  | n + 1, f => insert (.branch (root digest n (below false f)) (root digest n (below true f)))
      (rootInputs n (below false f) ∪ rootInputs n (below true f))

def climbInputs : List Bool → List D → L → Set (Preimage L D)
  | b :: bits, d :: beside, content =>
    insert (if b then .branch d (climb digest bits beside content)
      else .branch (climb digest bits beside content) d) (climbInputs bits beside content)
  | _, _, content => {.leaf content}

/-- Two different inputs of a set have one digest. -/
def Collides (inputs : Set (Preimage L D)) : Prop :=
  ∃ x ∈ inputs, ∃ y ∈ inputs, x ≠ y ∧ digest x = digest y

variable {digest}

theorem Collides.mono {s t : Set (Preimage L D)} (h : Collides digest s) (hst : s ⊆ t) :
    Collides digest t := by
  obtain ⟨x, hx, y, hy, hne, heq⟩ := h
  exact ⟨x, hst hx, y, hst hy, hne, heq⟩

theorem eq_or_collides {s t : Set (Preimage L D)} {x y : Preimage L D} (hx : x ∈ s) (hy : y ∈ t)
    (h : digest x = digest y) : x = y ∨ Collides digest (s ∪ t) := by
  by_cases hxy : x = y
  · exact .inl hxy
  · exact .inr ⟨x, Set.mem_union_left t hx, y, Set.mem_union_right s hy, hxy, h⟩

theorem below_inputs_subset (n : Nat) (b : Bool) (f : List Bool → L) :
    rootInputs digest n (below b f) ⊆ rootInputs digest (n + 1) f := by
  intro x hx
  refine Set.mem_insert_of_mem _ ?_
  cases b with
  | false => exact .inl hx
  | true => exact .inr hx

/-! ### Contents -/

theorem root_congr {n : Nat} {f g : List Bool → L} (h : ∀ p, p.length = n → f p = g p) :
    root digest n f = root digest n g := by
  induction n generalizing f g with
  | zero => rw [root, root, h [] rfl]
  | succ n ih =>
    have hbelow : ∀ b, root digest n (below b f) = root digest n (below b g) := fun b =>
      ih fun p hp => h (b :: p) (by rw [length_cons, hp])
    rw [root, root, hbelow, hbelow]

theorem root_succ_eq_join (b : Bool) (n : Nat) (f : List Bool → L) :
    root digest (n + 1) f =
      join digest b (root digest n (below b f)) (root digest n (below (!b) f)) := by
  cases b <;> rfl

/-- An opening leads to the digest of the tree. -/
theorem climb_opening (bits : List Bool) (f : List Bool → L) :
    climb digest bits (opening digest bits f) (f bits) = root digest bits.length f := by
  induction bits generalizing f with
  | nil => rfl
  | cons b bits ih =>
    rw [opening, climb, length_cons, root_succ_eq_join b]
    congr 1
    exact ih (below b f)

theorem length_opening (bits : List Bool) (f : List Bool → L) :
    (opening digest bits f).length = bits.length := by
  induction bits generalizing f with
  | nil => rfl
  | cons b bits ih => rw [opening, length_cons, length_cons, ih]

/-! ### Injectivity -/

/-- Equal digests come from equal trees, or two of the inputs collide. -/
theorem root_eq_root {n m : Nat} {f g : List Bool → L} (h : root digest n f = root digest m g) :
    (n = m ∧ ∀ p, p.length = n → f p = g p) ∨
      Collides digest (rootInputs digest n f ∪ rootInputs digest m g) := by
  induction n generalizing m f g with
  | zero =>
    cases m with
    | zero =>
      rcases eq_or_collides (Set.mem_singleton _) (Set.mem_singleton _) h with heq | hcollides
      · refine .inl ⟨rfl, fun p hp => ?_⟩
        rw [length_eq_zero_iff.mp hp]
        exact Preimage.leaf.inj heq
      · exact .inr hcollides
    | succ m =>
      rcases eq_or_collides (Set.mem_singleton _) (Set.mem_insert _ _) h with heq | hcollides
      · cases heq
      · exact .inr hcollides
  | succ n ih =>
    cases m with
    | zero =>
      rcases eq_or_collides (Set.mem_insert _ _) (Set.mem_singleton _) h with heq | hcollides
      · cases heq
      · exact .inr hcollides
    | succ m =>
      rcases eq_or_collides (Set.mem_insert _ _) (Set.mem_insert _ _) h with
        heq | hcollides
      · have hchild : ∀ b, root digest n (below b f) = root digest m (below b g) := by
          intro b
          cases b with
          | false => exact (Preimage.branch.inj heq).1
          | true => exact (Preimage.branch.inj heq).2
        have hsubset : ∀ b, rootInputs digest n (below b f) ∪ rootInputs digest m (below b g) ⊆
            rootInputs digest (n + 1) f ∪ rootInputs digest (m + 1) g := fun b =>
          Set.union_subset_union (below_inputs_subset n b f) (below_inputs_subset m b g)
        -- Either both children agree, or one of the two pairs of children collides.
        rcases ih (hchild false) with ⟨hn, hfalse⟩ | hcollides
        · rcases ih (hchild true) with ⟨-, htrue⟩ | hcollides
          · refine .inl ⟨congrArg (· + 1) hn, fun p hp => ?_⟩
            cases p with
            | nil => cases hp
            | cons b p =>
              cases b with
              | false => exact hfalse p (Nat.succ.inj hp)
              | true => exact htrue p (Nat.succ.inj hp)
          · exact .inr (hcollides.mono (hsubset true))
        · exact .inr (hcollides.mono (hsubset false))
      · exact .inr hcollides

private theorem climbInputs_nil (beside : List D) (content : L) :
    .leaf content ∈ climbInputs digest [] beside content := by
  rw [climbInputs]
  · exact Set.mem_singleton _
  · simp

/-- Whatever leads to the digest of a tree carries the content of its leaf, or two of the inputs
collide. -/
theorem climb_eq_root {bits : List Bool} {beside : List D} {content : L} {f : List Bool → L}
    (hlen : beside.length = bits.length)
    (h : climb digest bits beside content = root digest bits.length f) :
    content = f bits ∨
      Collides digest (climbInputs digest bits beside content ∪ rootInputs digest bits.length f) := by
  induction bits generalizing beside f with
  | nil =>
    rcases eq_or_collides (climbInputs_nil beside content) (Set.mem_singleton _) h with heq | hcollides
    · exact .inl (Preimage.leaf.inj heq)
    · exact .inr hcollides
  | cons b bits ih =>
    cases beside with
    | nil => cases hlen
    | cons d beside =>
      have hinputs : climbInputs digest bits beside content ⊆
          climbInputs digest (b :: bits) (d :: beside) content := Set.subset_insert _ _
      have hbelow : rootInputs digest bits.length (below b f) ⊆
          rootInputs digest (b :: bits).length f := below_inputs_subset bits.length b f
      have hmem : (if b then .branch d (climb digest bits beside content)
          else .branch (climb digest bits beside content) d) ∈
          climbInputs digest (b :: bits) (d :: beside) content := Set.mem_insert _ _
      have hchild : climb digest bits beside content = root digest bits.length (below b f) ∨
          Collides digest (climbInputs digest (b :: bits) (d :: beside) content ∪
            rootInputs digest (b :: bits).length f) := by
        cases b with
        | false =>
          rcases eq_or_collides hmem (Set.mem_insert _ _) h with heq | hcollides
          · exact .inl (Preimage.branch.inj heq).1
          · exact .inr hcollides
        | true =>
          rcases eq_or_collides hmem (Set.mem_insert _ _) h with heq | hcollides
          · exact .inl (Preimage.branch.inj heq).2
          · exact .inr hcollides
      rcases hchild with hchild | hcollides
      · rcases ih (Nat.succ.inj hlen) hchild with hcontent | hcollides
        · exact .inl hcontent
        · exact .inr (hcollides.mono (Set.union_subset_union hinputs hbelow))
      · exact .inr hcollides

end

end Merkle
