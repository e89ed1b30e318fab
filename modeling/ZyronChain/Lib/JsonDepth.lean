import ZyronChain.Lib.Json

/-!
# The depth of a JSON value

How many arrays and objects are nested in a value.
-/

namespace Json

mutual

/-- The number of containers that are nested in each other. -/
def depth : Json → Nat
  | null | bool _ | num _ | decimal _ | str _ => 0
  | arr items => depthItems items + 1
  | obj members => depthMembers members + 1

def depthItems : List Json → Nat
  | [] => 0
  | v :: vs => max (depth v) (depthItems vs)

def depthMembers : List (String × Json) → Nat
  | [] => 0
  | (_, v) :: ms => max (depth v) (depthMembers ms)

end

@[simp] theorem depth_null : null.depth = 0 := by rw [depth]

@[simp] theorem depth_num (n : Int) : (num n).depth = 0 := by rw [depth]

@[simp] theorem depth_str (s : String) : (str s).depth = 0 := by rw [depth]

theorem depthItems_le {vs : List Json} {n : Nat} : depthItems vs ≤ n ↔ ∀ v ∈ vs, v.depth ≤ n := by
  induction vs with
  | nil => simp [depthItems]
  | cons v vs ih => rw [depthItems, Nat.max_le, ih, List.forall_mem_cons]

theorem depthMembers_le {ms : List (String × Json)} {n : Nat} :
    depthMembers ms ≤ n ↔ ∀ m ∈ ms, m.2.depth ≤ n := by
  induction ms with
  | nil => simp [depthMembers]
  | cons m ms ih => rw [depthMembers, Nat.max_le, ih, List.forall_mem_cons]

theorem depth_obj_le {ms : List (String × Json)} {n : Nat} :
    (obj ms).depth ≤ n + 1 ↔ ∀ m ∈ ms, m.2.depth ≤ n := by
  rw [depth, Nat.add_le_add_iff_right, depthMembers_le]

theorem depth_arr_map_le {α : Type} {f : α → Json} {xs : List α} {n : Nat}
    (h : ∀ x, (f x).depth ≤ n) : (arr (xs.map f)).depth ≤ n + 1 := by
  rw [depth, Nat.add_le_add_iff_right, depthItems_le]
  intro v hv
  obtain ⟨x, -, rfl⟩ := List.mem_map.mp hv
  exact h x

end Json
