import Mathlib.Data.List.Nodup
import ZyronChain.Codec

/-!
# Canonical JSON is a normal form

The names of members are compared by their UTF-16 code units, which is a linear order, so that the
order of the members of a normalized object depends on the set of its members only.

Source: `l1/src/codec.ts`.
-/

namespace ZyronChain

open Checks

/-! ### Code units and bytes -/

/-- The UTF-16 code units of a character. -/
private def charUnits (c : Char) : List Nat := if c.toNat < 0x10000 then [c.toNat]
  else [0xd800 + (c.toNat - 0x10000) / 0x400, 0xdc00 + (c.toNat - 0x10000) % 0x400]

private theorem char_range (c : Char) :
    c.toNat < 0xd800 ∨ (0xdfff < c.toNat ∧ c.toNat < 0x110000) := c.valid

private theorem charUnits_ne_nil (c : Char) : charUnits c ≠ [] := by
  rw [charUnits]
  split <;> simp

private theorem charUnits_append {c d : Char} {us vs : List Nat}
    (h : charUnits c ++ us = charUnits d ++ vs) : c = d ∧ us = vs := by
  have hc := char_range c
  have hd := char_range d
  have hchar : c.toNat = d.toNat → c = d := fun h => Char.toNat_inj.mp h
  rw [charUnits, charUnits] at h
  split at h <;> split at h
  · rw [List.singleton_append, List.singleton_append, List.cons.injEq] at h
    exact ⟨hchar h.1, h.2⟩
  · rw [List.singleton_append, List.cons_append, List.cons.injEq] at h
    omega
  · rw [List.singleton_append, List.cons_append, List.cons.injEq] at h
    omega
  · simp only [List.cons_append, List.nil_append, List.cons.injEq] at h
    exact ⟨hchar (by omega), h.2.2⟩

theorem utf16_injective : Function.Injective utf16 := by
  intro s t h
  have hlist : ∀ cs ds : List Char, cs.flatMap charUnits = ds.flatMap charUnits → cs = ds := by
    intro cs
    induction cs with
    | nil =>
      intro ds hds
      cases ds with
      | nil => rfl
      | cons d ds =>
        rw [List.flatMap_nil, List.flatMap_cons] at hds
        exact absurd (List.append_eq_nil_iff.mp hds.symm).1 (charUnits_ne_nil d)
    | cons c cs ih =>
      intro ds hds
      cases ds with
      | nil =>
        rw [List.flatMap_nil, List.flatMap_cons] at hds
        exact absurd (List.append_eq_nil_iff.mp hds).1 (charUnits_ne_nil c)
      | cons d ds =>
        rw [List.flatMap_cons, List.flatMap_cons] at hds
        obtain ⟨hcd, hrest⟩ := charUnits_append hds
        rw [hcd, ih ds hrest]
  exact String.toList_inj.mp (hlist s.toList t.toList h)

theorem utf8_injective : Function.Injective utf8 := by
  intro a b h
  have hbytes : a.utf8Encode = b.utf8Encode := congrArg List.toByteArray h
  have hdecode := List.utf8Decode?_utf8Encode (l := a)
  rw [hbytes, List.utf8Decode?_utf8Encode, Option.some.injEq] at hdecode
  exact (List.toArray_inj hdecode).symm

/-! ### The order of names -/

theorem canonicalLe_total (a b : String) : canonicalLe a b = true ∨ canonicalLe b a = true := by
  rw [canonicalLe, canonicalLe, decide_eq_true_iff, decide_eq_true_iff]
  exact List.le_total (utf16 a) (utf16 b)

theorem canonicalLe_trans {a b c : String} (hab : canonicalLe a b = true)
    (hbc : canonicalLe b c = true) : canonicalLe a c = true := by
  rw [canonicalLe, decide_eq_true_iff] at hab hbc ⊢
  exact List.le_trans hab hbc

theorem canonicalLe_antisymm {a b : String} (hab : canonicalLe a b = true)
    (hba : canonicalLe b a = true) : a = b := by
  rw [canonicalLe, decide_eq_true_iff] at hab hba
  exact utf16_injective (List.le_antisymm hab hba)

variable {α : Type}

private theorem mem_insertEntry {e f : String × α} {es : List (String × α)} :
    f ∈ insertEntry e es ↔ f = e ∨ f ∈ es := by
  rw [(perm_insertEntry e es).mem_iff, List.mem_cons]

theorem pairwise_sortEntries (es : List (String × α)) :
    (sortEntries es).Pairwise fun a b => canonicalLe a.1 b.1 = true := by
  induction es with
  | nil => exact .nil
  | cons e es ih =>
    rw [sortEntries]
    generalize sortEntries es = fs at ih ⊢
    induction fs with
    | nil => exact List.pairwise_singleton _ _
    | cons f fs ihf =>
      rw [List.pairwise_cons] at ih
      rw [insertEntry]
      split
      · next hef =>
        refine List.pairwise_cons.mpr ⟨fun g hg => ?_, List.pairwise_cons.mpr ih⟩
        rcases List.mem_cons.mp hg with rfl | hg
        · exact hef
        · exact canonicalLe_trans hef (ih.1 g hg)
      · next hef =>
        refine List.pairwise_cons.mpr ⟨fun g hg => ?_, ihf ih.2⟩
        rcases mem_insertEntry.mp hg with rfl | hg
        · exact (canonicalLe_total _ _).resolve_left hef
        · exact ih.1 g hg

/-- The sorted members depend on the set of members only. -/
theorem sortEntries_eq_of_perm {es fs : List (String × α)} (h : es.Perm fs)
    (hnodup : (es.map Prod.fst).Nodup) : sortEntries es = sortEntries fs := by
  refine List.Perm.eq_of_pairwise ?_ (pairwise_sortEntries es) (pairwise_sortEntries fs)
    ((perm_sortEntries es).trans (h.trans (perm_sortEntries fs).symm))
  intro a b ha hb hab hba
  have ha' : a ∈ es := (perm_sortEntries es).mem_iff.mp ha
  have hb' : b ∈ es := h.mem_iff.mpr ((perm_sortEntries fs).mem_iff.mp hb)
  exact List.inj_on_of_nodup_map hnodup ha' hb' (canonicalLe_antisymm hab hba)

theorem orderEntries_eq_of_perm {es fs : List (String × α)} (h : es.Perm fs)
    (hnodup : (es.map Prod.fst).Nodup) : orderEntries es = orderEntries fs := by
  rw [orderEntries, orderEntries, sortEntries_eq_of_perm h hnodup]

/-! ### Normal forms -/

theorem normalizeMembers_eq_map (ms : List (String × Json)) :
    normalizeMembers ms = ms.map fun m => (m.1, normalize m.2) := by
  induction ms with
  | nil => rfl
  | cons m ms ih => rw [normalizeMembers, ih, List.map_cons]

theorem fst_normalizeMembers (ms : List (String × Json)) :
    (normalizeMembers ms).map Prod.fst = ms.map Prod.fst := by
  rw [normalizeMembers_eq_map, List.map_map]
  rfl

theorem plainMembers_iff (ms : List (String × Json)) :
    Json.PlainMembers ms ↔ ∀ m ∈ ms, m.2.Plain := by
  induction ms with
  | nil => simp [Json.PlainMembers]
  | cons m ms ih => simp [Json.PlainMembers, ih]

theorem canonicalMembers_iff (depth : Nat) (ms : List (String × Json)) :
    CanonicalMembers depth ms ↔ ∀ m ∈ ms, Canonical depth m.2 := by
  induction ms with
  | nil => simp [CanonicalMembers]
  | cons m ms ih => simp [CanonicalMembers, ih]

mutual

theorem plain_normalize (v : Json) (hv : v.Plain) : (normalize v).Plain := by
  cases v with
  | arr items => exact plainItems_normalize items hv
  | obj members =>
    have hperm := perm_orderEntries (normalizeMembers members)
    refine ⟨?_, ?_⟩
    · rw [(hperm.map Prod.fst).nodup_iff, fst_normalizeMembers]
      exact hv.1
    · rw [plainMembers_iff]
      intro m hm
      exact (plainMembers_iff _).mp (plainMembers_normalize members hv.2) m (hperm.mem_iff.mp hm)
  | null | bool | num => exact trivial
  | decimal literal => exact hv.elim
  | str s => exact trivial

theorem plainItems_normalize (vs : List Json) (hvs : Json.PlainItems vs) :
    Json.PlainItems (normalizeItems vs) := by
  cases vs with
  | nil => exact trivial
  | cons v vs => exact ⟨plain_normalize v hvs.1, plainItems_normalize vs hvs.2⟩

theorem plainMembers_normalize (ms : List (String × Json)) (hms : Json.PlainMembers ms) :
    Json.PlainMembers (normalizeMembers ms) := by
  match ms with
  | [] => exact trivial
  | (k, v) :: ms => exact ⟨plain_normalize v hms.1, plainMembers_normalize ms hms.2⟩

end

mutual

theorem canonical_normalize (depth : Nat) (v : Json) :
    Canonical depth (normalize v) ↔ Canonical depth v := by
  cases v with
  | arr items => rw [normalize, Canonical, Canonical, canonicalItems_normalize (depth + 1) items]
  | obj members =>
    rw [normalize, Canonical, Canonical, ← canonicalMembers_normalize (depth + 1) members]
    simp only [canonicalMembers_iff, (perm_orderEntries _).mem_iff]
  | null | bool | num | decimal | str => exact Iff.rfl

theorem canonicalItems_normalize (depth : Nat) (vs : List Json) :
    CanonicalItems depth (normalizeItems vs) ↔ CanonicalItems depth vs := by
  cases vs with
  | nil => exact Iff.rfl
  | cons v vs =>
    rw [normalizeItems, CanonicalItems, CanonicalItems, canonical_normalize depth v,
      canonicalItems_normalize depth vs]

theorem canonicalMembers_normalize (depth : Nat) (ms : List (String × Json)) :
    CanonicalMembers depth (normalizeMembers ms) ↔ CanonicalMembers depth ms := by
  match ms with
  | [] => exact Iff.rfl
  | (k, v) :: ms =>
    rw [normalizeMembers, CanonicalMembers, CanonicalMembers, canonical_normalize depth v,
      canonicalMembers_normalize depth ms]

end

mutual

/-- A normal form is its own normal form. -/
theorem normalize_normalize (v : Json) (hv : v.Plain) : normalize (normalize v) = normalize v := by
  cases v with
  | arr items => rw [normalize, normalize, normalizeItems_normalizeItems items hv]
  | obj members =>
    -- The members of the normal form are those of the object in another order.
    have hperm := (perm_orderEntries (normalizeMembers members)).map
      fun m => (m.1, normalize m.2)
    rw [← normalizeMembers_eq_map, ← normalizeMembers_eq_map,
      normalizeMembers_normalizeMembers members hv.2] at hperm
    rw [normalize, normalize, orderEntries_eq_of_perm hperm]
    rw [(hperm.map Prod.fst).nodup_iff, fst_normalizeMembers]
    exact hv.1
  | null | bool | num | decimal | str => rfl

theorem normalizeItems_normalizeItems (vs : List Json) (hvs : Json.PlainItems vs) :
    normalizeItems (normalizeItems vs) = normalizeItems vs := by
  cases vs with
  | nil => rfl
  | cons v vs =>
    rw [normalizeItems, normalizeItems, normalize_normalize v hvs.1,
      normalizeItems_normalizeItems vs hvs.2]

theorem normalizeMembers_normalizeMembers (ms : List (String × Json))
    (hms : Json.PlainMembers ms) :
    normalizeMembers (normalizeMembers ms) = normalizeMembers ms := by
  match ms with
  | [] => rfl
  | (k, v) :: ms =>
    rw [normalizeMembers, normalizeMembers, normalize_normalize v hms.1,
      normalizeMembers_normalizeMembers ms hms.2]

end

/-- The canonical text parses to the normal form. -/
theorem parse_canonicalText {v : Json} (hv : v.Plain) :
    Json.parse (canonicalText v) = some (normalize v) :=
  Json.parse_render (plain_normalize v hv)

theorem canonicalText_normalize {v : Json} (hv : v.Plain) :
    canonicalText (normalize v) = canonicalText v := by
  rw [canonicalText, canonicalText, normalize_normalize v hv]

theorem normalize_eq_of_canonicalText {v w : Json} (hv : v.Plain) (hw : w.Plain)
    (h : canonicalText v = canonicalText w) : normalize v = normalize w := by
  have hparse := parse_canonicalText hv
  rw [h, parse_canonicalText hw, Option.some.injEq] at hparse
  exact hparse.symm

/-! ### Messages of a refusal -/

private theorem avoids_firstError {message : String} {checks : List (String × Except String Unit)}
    (h : ∀ check ∈ checks, Avoids message check.2) : Avoids message (firstError checks) := by
  induction checks with
  | nil => exact avoids_ok ()
  | cons check checks ih =>
    rw [List.forall_mem_cons] at h
    exact avoids_bind.mpr ⟨h.1, fun _ _ => ih h.2⟩

section

variable {message : String}

mutual

private theorem avoids_assertCanonical (hdepth : depthExceeded ≠ message)
    (hnumber : unsafeNumber ≠ message) (depth : Nat) (v : Json) :
    Avoids message (assertCanonical depth v) := by
  cases v with
  | arr items =>
    simp [assertCanonical, hdepth, avoids_assertCanonicalItems hdepth hnumber (depth + 1) items]
  | obj members =>
    simp only [assertCanonical, avoids_bind, avoids_throwIf]
    refine ⟨fun _ => hdepth, fun _ _ => avoids_firstError fun check hcheck => ?_⟩
    rw [(perm_sortEntries _).mem_iff] at hcheck
    exact avoids_memberChecks hdepth hnumber (depth + 1) members check hcheck
  | num | decimal | null | bool | str => simp [assertCanonical, hnumber]

private theorem avoids_assertCanonicalItems (hdepth : depthExceeded ≠ message)
    (hnumber : unsafeNumber ≠ message) (depth : Nat) (vs : List Json) :
    Avoids message (assertCanonicalItems depth vs) := by
  cases vs with
  | nil => exact avoids_ok ()
  | cons v vs =>
    simp [assertCanonicalItems, avoids_assertCanonical hdepth hnumber depth v,
      avoids_assertCanonicalItems hdepth hnumber depth vs]

private theorem avoids_memberChecks (hdepth : depthExceeded ≠ message)
    (hnumber : unsafeNumber ≠ message) (depth : Nat) (ms : List (String × Json)) :
    ∀ check ∈ memberChecks depth ms, Avoids message check.2 := by
  match ms with
  | [] => simp [memberChecks]
  | (k, v) :: ms =>
    rw [memberChecks, List.forall_mem_cons]
    exact ⟨avoids_assertCanonical hdepth hnumber depth v,
      avoids_memberChecks hdepth hnumber depth ms⟩

end

theorem avoids_canonicalJson (hdepth : depthExceeded ≠ message) (hnumber : unsafeNumber ≠ message)
    (v : Json) : Avoids message (canonicalJson v) :=
  avoids_bind.mpr ⟨avoids_assertCanonical hdepth hnumber 0 v, fun _ _ => avoids_ok _⟩

end

end ZyronChain
