import ZyronChain.JsCodec
import ZyronChain.Crypto
import ZyronChain.Lib.JsUnicode

/-!
# The canonical encoders

Canonical JSON is written in three ways: `canonicalJson` builds a new object from the sorted
entries and leaves its text to `JSON.stringify`; `canonicalJsonDigest` writes the sorted entries
piece by piece, long strings in chunks, and hashes what it writes; the independent verifier sorts
by the bytes of UTF-16 and writes with `json.dumps`.  The last two agree.  The first differs from
them on objects whose names include array indices, since `JSON.stringify` lists those first and in
the order of their numbers.

Source: `l1/src/codec.ts`, `l1/independent-light-client/verify_vector.py`.

## Main results

* `JsCodec.emitCanonicalJson_of_accepted` : what the incremental encoder writes.
* `VerifyVector.canonicalJson_of_reads` : what the independent verifier writes.
* `JsCodec.encoders_agree_iff` : when all encoders agree.
-/

namespace ZyronChain

open Checks PropertyOrder MemberOrder List JsValue

namespace JsCodec

/-! ### The incremental encoder -/

/-- `CANONICAL_STRING_CHUNK_CODE_UNITS`. -/
def canonicalStringChunkCodeUnits : Nat := 16 * 1024

/-- Whether a cut after so many code units parts a surrogate pair. -/
def cutsPair (rest : JsString) (length : Nat) : Bool :=
  match (rest.take length).getLast?, (rest.drop length).head? with
  | some last, some next => JsValue.isHighSurrogate last && JsValue.isLowSurrogate next
  | _, _ => false

/-- How much of the rest of a string the next chunk takes: a chunk that would part a surrogate
pair takes one more code unit. -/
def chunkLength (rest : JsString) : Nat :=
  let length := min rest.length canonicalStringChunkCodeUnits
  if cutsPair rest length then length + 1 else length

theorem chunkLength_pos {rest : JsString} (h : rest ≠ []) : 0 < chunkLength rest := by
  have hlength : 0 < min rest.length canonicalStringChunkCodeUnits :=
    lt_min (length_pos_iff.mpr h) (by decide)
  rw [chunkLength]
  split
  · exact Nat.succ_pos _
  · exact hlength

/-- The slices of the loop of `writeCanonicalString`. -/
def chunks (rest : JsString) : List JsString := if _h : rest = [] then []
  else rest.take (chunkLength rest) :: chunks (rest.drop (chunkLength rest))
termination_by rest.length
decreasing_by
  have hpos := chunkLength_pos _h
  have hlength := length_pos_iff.mpr _h
  rw [length_drop]
  omega

/-- `writeCanonicalString`: what it writes, in order. -/
def writeCanonicalString (value : JsString) : List (List Char) :=
  ['"'] :: ((chunks value).map JsValue.quoteUnits ++ [['"']])

/-- What is written for the elements of a list, with commas between them. -/
def separated : List (List (List Char)) → List (List Char)
  | [] => []
  | [x] => x
  | x :: y :: xs => x ++ [','] :: separated (y :: xs)

/-- What is written for an entry of an object. -/
def writeEntry (entry : JsString × List (List Char)) : List (List Char) :=
  writeCanonicalString entry.1 ++ [':'] :: entry.2

mutual

/-- `emitCanonicalJson`: the fragments it writes, in order. -/
def emitCanonicalJson (depth : Nat) : JsValue → Except String (List (List Char))
  | .arr items => do
    throwIf (depth > maxCanonicalJsonDepth) depthExceeded
    let items ← emitItems (depth + 1) items
    .ok (['['] :: (separated items ++ [[']']]))
  | .obj members => do
    throwIf (depth > maxCanonicalJsonDepth) depthExceeded
    let entries ← sequence (sortNames (emitMembers (depth + 1) members))
    .ok (['{'] :: (separated (entries.map writeEntry) ++ [['}']]))
  | .num n => do
    throwIf (¬ IsSafeInteger n) unsafeNumber
    .ok [Json.intText n]
  | .negZero => .ok [['0']]
  | .decimal _ => .error unsafeNumber
  | .str s => .ok (writeCanonicalString s)
  | .bool true => .ok ["true".toList]
  | .bool false => .ok ["false".toList]
  | .null => .ok ["null".toList]

def emitItems (depth : Nat) : List JsValue → Except String (List (List (List Char)))
  | [] => .ok []
  | v :: vs => do
    let v ← emitCanonicalJson depth v
    let vs ← emitItems depth vs
    .ok (v :: vs)

def emitMembers (depth : Nat) :
    List (JsString × JsValue) → List (JsString × Except String (List (List Char)))
  | [] => []
  | (k, v) :: ms => (k, emitCanonicalJson depth v) :: emitMembers depth ms

end

structure CanonicalJsonDigest where
  byteLength : Nat
  sha256 : String

/-- What `canonicalJsonDigest` has counted and hashed so far. -/
structure Sink where
  byteLength : Nat := 0
  hashed : List UInt8 := []

def Sink.write (sink : Sink) (fragment : List Char) : Sink where
  byteLength := sink.byteLength + ZyronChain.byteLength fragment
  hashed := sink.hashed ++ utf8 fragment

/-- All that `canonicalJsonDigest` counts and hashes. -/
def canonicalJsonSink (v : JsValue) : Except String Sink := do
  let fragments ← emitCanonicalJson 0 v
  .ok (fragments.foldl Sink.write {})

def canonicalJsonDigest [Crypto] (v : JsValue) : Except String CanonicalJsonDigest := do
  let sink ← canonicalJsonSink v
  .ok { byteLength := sink.byteLength, sha256 := Crypto.sha256 sink.hashed }

/-! ### What it writes -/

theorem cutsNoPair_of_cutsPair {rest : JsString} {length : Nat} (h : cutsPair rest length = false) :
    JsValue.CutsNoPair (rest.take length) (rest.drop length) := by
  intro u hu v hv
  rwa [cutsPair, Option.mem_def.mp hu, Option.mem_def.mp hv] at h

/-- A cut one code unit later parts no pair: it comes after a low surrogate. -/
theorem cutsPair_add_one {rest : JsString} {length : Nat} (h : cutsPair rest length = true) :
    cutsPair rest (length + 1) = false := by
  unfold cutsPair at h
  split at h
  · rename_i last next hlast hnext
    have hend : (rest.take (length + 1)).getLast? = some next := by
      rw [List.head?_drop] at hnext
      rw [take_add_one, hnext, Option.toList_some, List.getLast?_append,
        List.getLast?_singleton, Option.some_or]
    have hlow := (Bool.and_eq_true _ _ ▸ h).2
    have hhigh : JsValue.isHighSurrogate next = false := by
      rw [JsValue.isLowSurrogate, decide_eq_true_eq] at hlow
      rw [JsValue.isHighSurrogate, decide_eq_false_iff_not]
      omega
    rw [cutsPair, hend]
    cases (rest.drop (length + 1)).head? with
    | none => rfl
    | some unit =>
      change (JsValue.isHighSurrogate next && JsValue.isLowSurrogate unit) = false
      rw [hhigh, Bool.false_and]
  · cases h

theorem cutsNoPair_chunk (rest : JsString) :
    JsValue.CutsNoPair (rest.take (chunkLength rest)) (rest.drop (chunkLength rest)) := by
  apply cutsNoPair_of_cutsPair
  rw [chunkLength]
  split
  · rename_i h
    exact cutsPair_add_one h
  · rename_i h
    exact Bool.eq_false_iff.mpr h

theorem flatten_chunks (rest : JsString) :
    ((chunks rest).map JsValue.quoteUnits).flatten = JsValue.quoteUnits rest := by
  induction rest using chunks.induct with
  | case1 =>
    rw [chunks, dif_pos rfl]
    rfl
  | case2 rest hne ih =>
    rw [chunks, dif_neg hne, map_cons, flatten_cons, ih,
      ← quoteUnits_append (cutsNoPair_chunk rest), take_append_drop]

theorem flatten_writeCanonicalString (value : JsString) :
    (writeCanonicalString value).flatten = JsValue.quoteString value := by
  rw [writeCanonicalString, flatten_cons, flatten_append, flatten_chunks,
    flatten_singleton, JsValue.quoteString]
  rfl

theorem flatten_separated (fragments : List (List (List Char))) :
    (separated fragments).flatten = [','].intercalate (fragments.map List.flatten) := by
  induction fragments using separated.induct with
  | case1 => rfl
  | case2 x => exact (append_nil _).symm
  | case3 x y xs ih =>
    rw [separated, flatten_append, flatten_cons, ih]
    simp only [map_cons, intercalate_cons_cons, append_assoc]

theorem stringifyItems_eq (vs : List JsValue) :
    JsValue.stringifyItems vs = [','].intercalate (vs.map JsValue.stringify) := by
  induction vs with
  | nil => rfl
  | cons v vs ih =>
    cases vs with
    | nil => exact (append_nil _).symm
    | cons w vs =>
      rw [JsValue.stringifyItems, ih]
      simp only [map_cons, intercalate_cons_cons, append_assoc, cons_append, nil_append]

/-- The text of an entry, given the text of its value. -/
def entryText (entry : JsString × List Char) : List Char :=
  JsValue.quoteString entry.1 ++ ':' :: entry.2

theorem stringifyMembers_eq (ms : List (JsString × JsValue)) :
    JsValue.stringifyMembers ms =
      [','].intercalate ((ms.map fun m => (m.1, m.2.stringify)).map entryText) := by
  match ms with
  | [] => rfl
  | [m] => exact (append_nil _).symm
  | m :: m' :: ms =>
    rw [JsValue.stringifyMembers, stringifyMembers_eq (m' :: ms)]
    simp only [map_cons, intercalate_cons_cons, entryText, append_assoc, cons_append, nil_append]

theorem flatten_writeEntry (entry : JsString × List (List Char)) :
    (writeEntry entry).flatten = entryText (entry.1, entry.2.flatten) := by
  rw [writeEntry, flatten_append, flatten_writeCanonicalString, flatten_cons]
  rfl

theorem flatten_separated_entries (entries : List (JsString × List (List Char))) :
    (separated (entries.map writeEntry)).flatten =
      [','].intercalate ((entries.map fun e => (e.1, e.2.flatten)).map entryText) := by
  rw [flatten_separated, map_map, map_map]
  exact congrArg _ (map_congr_left fun e _ => flatten_writeEntry e)

mutual

/-- What the incremental encoder writes for an accepted value: its members by name. -/
theorem emitCanonicalJson_of_accepted (depth : Nat) (v : JsValue) (h : Accepted depth v) :
    ∃ fragments, emitCanonicalJson depth v = .ok fragments ∧
      fragments.flatten = (byName.reorder v).stringify := by
  cases v with
  | arr items =>
    obtain ⟨fragments, hfragments, htext⟩ := emitItems_of_accepted (depth + 1) items h.2
    refine ⟨_, by rw [emitCanonicalJson, throwIf_of_not (not_lt.mpr h.1), ok_bind, hfragments,
      ok_bind], ?_⟩
    rw [flatten_cons, flatten_append, flatten_separated, htext,
      ← stringifyItems_eq, flatten_singleton, reorder, JsValue.stringify]
    rfl
  | obj members =>
    obtain ⟨entries, hentries, htext⟩ := emitMembers_of_accepted (depth + 1) members h.2
    refine ⟨_, by rw [emitCanonicalJson, throwIf_of_not (not_lt.mpr h.1), ok_bind, hentries,
      sequence_sortNames, ok_bind], ?_⟩
    have hsorted : ((sortNames entries).map fun e => (e.1, e.2.flatten)) =
        (sortNames (byName.reorderMembers members)).map
          fun m => (m.1, m.2.stringify) := by
      rw [map_sortNames, map_sortNames, htext]
    rw [flatten_cons, flatten_append, flatten_separated_entries, hsorted,
      ← stringifyMembers_eq, flatten_singleton, reorder, JsValue.stringify]
    rfl
  | num n =>
    have hsafe : IsSafeInteger n := h
    refine ⟨_, by rw [emitCanonicalJson, throwIf_of_not (not_not.mpr hsafe), ok_bind], ?_⟩
    exact flatten_singleton
  | negZero => exact ⟨_, rfl, rfl⟩
  | decimal literal => exact h.elim
  | str s => exact ⟨_, rfl, flatten_writeCanonicalString s⟩
  | bool b => cases b <;> exact ⟨_, rfl, rfl⟩
  | null => exact ⟨_, rfl, rfl⟩

theorem emitItems_of_accepted (depth : Nat) (vs : List JsValue) (h : AcceptedItems depth vs) :
    ∃ fragments, emitItems depth vs = .ok fragments ∧
      fragments.map List.flatten = (byName.reorderItems vs).map JsValue.stringify := by
  match vs with
  | [] => exact ⟨[], rfl, rfl⟩
  | v :: vs =>
    obtain ⟨x, hx, hxtext⟩ := emitCanonicalJson_of_accepted depth v h.1
    obtain ⟨xs, hxs, hxstext⟩ := emitItems_of_accepted depth vs h.2
    refine ⟨x :: xs, by rw [emitItems, hx, ok_bind, hxs, ok_bind], ?_⟩
    rw [map_cons, hxtext, hxstext]
    rfl

theorem emitMembers_of_accepted (depth : Nat) (ms : List (JsString × JsValue))
    (h : AcceptedMembers depth ms) :
    ∃ entries : List (JsString × List (List Char)),
      emitMembers depth ms = entries.map (fun e => (e.1, .ok e.2)) ∧
      (entries.map fun e => (e.1, e.2.flatten)) =
        (byName.reorderMembers ms).map fun m => (m.1, m.2.stringify) := by
  match ms with
  | [] => exact ⟨[], rfl, rfl⟩
  | (k, v) :: ms =>
    obtain ⟨x, hx, hxtext⟩ := emitCanonicalJson_of_accepted depth v h.1
    obtain ⟨xs, hxs, hxstext⟩ := emitMembers_of_accepted depth ms h.2
    refine ⟨(k, x) :: xs, by rw [emitMembers, hx, hxs]; rfl, ?_⟩
    rw [map_cons, hxtext, hxstext]
    rfl

end

theorem foldl_write (fragments : List (List Char)) (sink : Sink) :
    fragments.foldl Sink.write sink =
      { byteLength := sink.byteLength + byteLength fragments.flatten,
        hashed := sink.hashed ++ utf8 fragments.flatten } := by
  induction fragments generalizing sink with
  | nil => simp [utf8]
  | cons fragment fragments ih =>
    rw [foldl_cons, ih, Sink.write, flatten_cons, byteLength_append, Nat.add_assoc,
      append_assoc, utf8, utf8, utf8, flatMap_append]

/-- What `canonicalJsonDigest` counts and hashes for an accepted value. -/
theorem canonicalJsonSink_of_accepted {v : JsValue} (h : Accepted 0 v) :
    canonicalJsonSink v =
      .ok { byteLength := (utf8 (byName.reorder v).stringify).length,
            hashed := utf8 (byName.reorder v).stringify } := by
  obtain ⟨fragments, hfragments, htext⟩ := emitCanonicalJson_of_accepted 0 v h
  rw [canonicalJsonSink, hfragments, ok_bind, foldl_write, htext, length_utf8, Nat.zero_add,
    nil_append]

end JsCodec

/-! ### The independent verifier -/

namespace VerifyVector

/-- `MAX_SAFE_INTEGER`. -/
def maxSafeInteger : Nat := 9007199254740991

mutual

/-- `_validate_json_value`. -/
def validateJsonValue : Json → Except String Unit
  | .null => .ok ()
  | .str _ => .ok ()
  | .bool _ => .ok ()
  | .num n => throwIf (n.natAbs > maxSafeInteger) "JSON integer is outside the safe integer range"
  | .arr items => validateItems items
  | .obj members => validateMembers members
  | .decimal _ => .error "unsupported canonical JSON value"

def validateItems : List Json → Except String Unit
  | [] => .ok ()
  | v :: vs => do
    validateJsonValue v
    validateItems vs

def validateMembers : List (String × Json) → Except String Unit
  | [] => .ok ()
  | (_, v) :: ms => do
    validateJsonValue v
    validateMembers ms

end

/-- `_utf16_key`: the bytes of the big-endian UTF-16 encoding. -/
def utf16Key (value : String) : List Nat :=
  (JsValue.ofChars value.toList).flatMap fun unit => [unit.val / 256, unit.val % 256]

mutual

/-- `_normalize_key_order`. -/
def normalizeKeyOrder : Json → Json
  | .arr items => .arr (normalizeItems items)
  | .obj members =>
    .obj ((normalizeMembers members).insertionSort fun a b => utf16Key a.1 ≤ utf16Key b.1)
  | .null => .null
  | .bool b => .bool b
  | .num n => .num n
  | .decimal literal => .decimal literal
  | .str s => .str s

def normalizeItems : List Json → List Json
  | [] => []
  | v :: vs => normalizeKeyOrder v :: normalizeItems vs

def normalizeMembers : List (String × Json) → List (String × Json)
  | [] => []
  | (k, v) :: ms => (k, normalizeKeyOrder v) :: normalizeMembers ms

end

/-- `canonical_json`. -/
def canonicalJson (value : Json) : Except String (List UInt8) := do
  validateJsonValue value
  .ok (utf8 (normalizeKeyOrder value).render)

/-- The verifier, which is written in Python, reads a value as `j`: a string is a sequence of
characters, and a negative zero is read as the integer zero. -/
def Reads (v : JsValue) (j : Json) : Prop := v.zeroed = JsValue.ofJson j

/-! ### What it writes -/

private theorem bytes_strictMono :
    StrictMono fun units : JsString => units.flatMap fun u => [u.val / 256, u.val % 256] := by
  intro a b h
  induction h with
  | nil => exact List.Lex.nil
  | @cons u us vs h ih => exact List.Lex.cons (List.Lex.cons ih)
  | @rel u us v vs h =>
    have hval : u.val < v.val := h
    rcases Nat.lt_or_ge (u.val / 256) (v.val / 256) with hlt | hge
    · exact List.Lex.rel hlt
    · have heq : u.val / 256 = v.val / 256 := by omega
      have hlow : u.val % 256 < v.val % 256 := by omega
      simp only [flatMap_cons, heq]
      exact List.Lex.cons (List.Lex.rel hlow)

theorem utf16Key_le_iff (a b : String) :
    utf16Key a ≤ utf16Key b ↔ JsValue.ofChars a.toList ≤ JsValue.ofChars b.toList :=
  bytes_strictMono.le_iff_le

mutual

theorem ofJson_normalizeKeyOrder (j : Json) :
    JsValue.ofJson (normalizeKeyOrder j) = byName.reorder (JsValue.ofJson j) := by
  cases j with
  | arr items =>
    rw [normalizeKeyOrder, JsValue.ofJson, ofJson_normalizeItems items]
    rfl
  | obj members =>
    rw [normalizeKeyOrder, JsValue.ofJson, ofJsonMembers_eq_map,
      map_insertionSort _ (fun a b : JsString × JsValue => a.1 ≤ b.1) _ _
        fun a _ b _ => utf16Key_le_iff a.1 b.1,
      ← ofJsonMembers_eq_map, ofJson_normalizeMembers members]
    rfl
  | null | bool | num | decimal | str => rfl

theorem ofJson_normalizeItems (js : List Json) :
    JsValue.ofJsonItems (normalizeItems js) = byName.reorderItems (JsValue.ofJsonItems js) := by
  match js with
  | [] => rfl
  | j :: js =>
    rw [normalizeItems, JsValue.ofJsonItems, ofJson_normalizeKeyOrder j, ofJson_normalizeItems js]
    rfl

theorem ofJson_normalizeMembers (ms : List (String × Json)) :
    JsValue.ofJsonMembers (normalizeMembers ms) =
      byName.reorderMembers (JsValue.ofJsonMembers ms) := by
  match ms with
  | [] => rfl
  | (k, j) :: ms =>
    rw [normalizeMembers, JsValue.ofJsonMembers, ofJson_normalizeKeyOrder j,
      ofJson_normalizeMembers ms]
    rfl

end

mutual

theorem validateJsonValue_of_accepted (depth : Nat) (j : Json)
    (h : JsCodec.Accepted depth (JsValue.ofJson j)) : validateJsonValue j = .ok () := by
  cases j with
  | arr items => exact validateItems_of_accepted (depth + 1) items h.2
  | obj members => exact validateMembers_of_accepted (depth + 1) members h.2
  | num n =>
    have hsafe : IsSafeInteger n := h
    rw [validateJsonValue]
    refine throwIf_of_not ?_
    unfold IsSafeInteger ZyronChain.maxSafeInteger at hsafe
    rw [maxSafeInteger]
    omega
  | decimal literal => exact h.elim
  | null | bool | str => rfl

theorem validateItems_of_accepted (depth : Nat) (js : List Json)
    (h : JsCodec.AcceptedItems depth (JsValue.ofJsonItems js)) : validateItems js = .ok () := by
  match js with
  | [] => rfl
  | j :: js =>
    rw [validateItems, validateJsonValue_of_accepted depth j h.1, ok_bind,
      validateItems_of_accepted depth js h.2]

theorem validateMembers_of_accepted (depth : Nat) (ms : List (String × Json))
    (h : JsCodec.AcceptedMembers depth (JsValue.ofJsonMembers ms)) :
    validateMembers ms = .ok () := by
  match ms with
  | [] => rfl
  | (k, j) :: ms =>
    rw [validateMembers, validateJsonValue_of_accepted depth j h.1, ok_bind,
      validateMembers_of_accepted depth ms h.2]

end

/-- What the independent verifier writes for an accepted value: its members by name. -/
theorem canonicalJson_of_reads {v : JsValue} {j : Json} (h : JsCodec.Accepted 0 v)
    (hreads : Reads v j) :
    canonicalJson j = .ok (utf8 (byName.reorder v).stringify) := by
  have haccepted : JsCodec.Accepted 0 (JsValue.ofJson j) := hreads ▸ JsCodec.accepted_zeroed 0 v h
  have htext : (normalizeKeyOrder j).render = (byName.reorder v).stringify := by
    calc (normalizeKeyOrder j).render
        = (byName.reorder (JsValue.ofJson j)).stringify := by
          rw [← stringify_ofJson, ofJson_normalizeKeyOrder]
      _ = (byName.normal v.zeroed).stringify := by
          rw [← hreads, normal, stringify_zeroed]
      _ = (byName.reorder v).stringify := by
          rw [normal_zeroed, normal, stringify_zeroed]
  rw [canonicalJson, validateJsonValue_of_accepted 0 j haccepted, ok_bind, htext]

end VerifyVector

/-! ### When all encoders agree -/

namespace JsCodec

mutual

/-- In every object the names sorted by code units are in the order of properties: the array
indices come first, in the order of their numbers. -/
def Aligned : JsValue → Prop
  | .arr items => AlignedItems items
  | .obj members =>
    (propertyOrder (sortNames members)).map Prod.fst = (sortNames members).map Prod.fst ∧
      AlignedMembers members
  | _ => True

def AlignedItems : List JsValue → Prop
  | [] => True
  | v :: vs => Aligned v ∧ AlignedItems vs

def AlignedMembers : List (JsString × JsValue) → Prop
  | [] => True
  | (_, v) :: ms => Aligned v ∧ AlignedMembers ms

end

private theorem eq_of_names {ms ns : List (JsString × JsValue)}
    (hinj : ∀ m ∈ ms, ∀ n ∈ ns, m.1 = n.1 → m = n) (h : ms.map Prod.fst = ns.map Prod.fst) :
    ms = ns := by
  induction ms generalizing ns with
  | nil => exact (map_eq_nil_iff.mp h.symm).symm
  | cons m ms ih =>
    obtain ⟨n, ns, rfl⟩ : ∃ n ns', ns = n :: ns' := by
      cases ns with
      | nil => exact absurd h (cons_ne_nil _ _)
      | cons n ns => exact ⟨n, ns, rfl⟩
    rw [map_cons, map_cons, List.cons.injEq] at h
    have hhead := hinj m mem_cons_self n mem_cons_self h.1
    have htail := ih (fun a ha b hb => hinj a (mem_cons_of_mem _ ha) b
      (mem_cons_of_mem _ hb)) h.2
    rw [hhead, htail]

/-- Two arrangements of the members of an object with new values are equal when the names are in
the same order and each member has the same new value. -/
private theorem arranged_eq_iff {ms l l' : List (JsString × JsValue)}
    (hnodup : (ms.map Prod.fst).Nodup) (hl : l.Perm ms) (hl' : l'.Perm ms)
    (f g : JsValue → JsValue) :
    (l.map fun m => (m.1, f m.2)) = (l'.map fun m => (m.1, g m.2)) ↔
      l.map Prod.fst = l'.map Prod.fst ∧ ∀ m ∈ ms, f m.2 = g m.2 := by
  have hinj : ∀ m ∈ l, ∀ n ∈ l', m.1 = n.1 → m = n := fun m hm n hn hmn =>
    inj_on_of_nodup_map hnodup (hl.mem_iff.mp hm) (hl'.mem_iff.mp hn) hmn
  constructor
  · intro h
    refine ⟨?_, fun m hm => ?_⟩
    · have hnames := congrArg (List.map Prod.fst) h
      rwa [map_map, map_map] at hnames
    · have hmem : (m.1, f m.2) ∈ l'.map fun m => (m.1, g m.2) :=
        h ▸ mem_map_of_mem (hl.mem_iff.mpr hm)
      obtain ⟨n, hn, heq⟩ := mem_map.mp hmem
      obtain ⟨hname, hvalue⟩ := Prod.mk.inj heq
      rw [← hvalue, hinj m (hl.mem_iff.mpr hm) n hn hname.symm]
  · rintro ⟨hnames, hvalues⟩
    rw [eq_of_names hinj hnames]
    refine map_congr_left fun m hm => ?_
    rw [hvalues m (hl'.mem_iff.mp hm)]

mutual

theorem normal_eq_iff_aligned (v : JsValue) (hv : v.Plain) :
    byName.normal v = byProperty.normal v ↔ Aligned v := by
  cases v with
  | arr items =>
    rw [normal_arr, normal_arr, JsValue.arr.injEq, map_inj_left,
      normal_eq_iff_alignedItems items hv]
    rfl
  | obj members =>
    have harranged := arranged_eq_iff hv.1 (perm_sortNames members)
      (byProperty.perm members) byName.normal
      byProperty.normal
    have hname := byName.map byName.normal members
    have hproperty := byProperty.map byProperty.normal members
    rw [normal_obj, normal_obj, JsValue.obj.injEq, ← hname, ← hproperty]
    refine harranged.trans ?_
    rw [normal_eq_iff_alignedMembers members hv.2, Aligned]
    exact and_congr_left' eq_comm
  | decimal literal => exact hv.elim
  | num | negZero | null | bool | str => exact iff_of_true rfl trivial

theorem normal_eq_iff_alignedItems (vs : List JsValue) (hvs : JsValue.PlainItems vs) :
    (∀ v ∈ vs, byName.normal v = byProperty.normal v) ↔ AlignedItems vs := by
  match vs with
  | [] => exact iff_of_true (fun v hv => nomatch hv) trivial
  | v :: vs =>
    rw [forall_mem_cons, normal_eq_iff_aligned v hvs.1, normal_eq_iff_alignedItems vs hvs.2,
      AlignedItems]

theorem normal_eq_iff_alignedMembers (ms : List (JsString × JsValue))
    (hms : JsValue.PlainMembers ms) :
    (∀ m ∈ ms, byName.normal m.2 = byProperty.normal m.2) ↔ AlignedMembers ms := by
  match ms with
  | [] => exact iff_of_true (fun m hm => nomatch hm) trivial
  | (k, v) :: ms =>
    rw [forall_mem_cons, normal_eq_iff_aligned v hms.1,
      normal_eq_iff_alignedMembers ms hms.2, AlignedMembers]

end

/-- All encoders agree on a value: the bytes that the digest counts and hashes are the UTF-8 bytes
of the canonical text, and the independent verifier returns them too. -/
def EncodersAgree [Crypto] (v : JsValue) : Prop :=
  ∃ text sink, canonicalJson v = .ok text ∧ canonicalJsonSink v = .ok sink ∧
    canonicalJsonDigest v =
      .ok { byteLength := sink.byteLength, sha256 := Crypto.sha256 sink.hashed } ∧
    sink.byteLength = (utf8 text).length ∧ sink.hashed = utf8 text ∧
    ∀ j, VerifyVector.Reads v j → VerifyVector.canonicalJson j = .ok (utf8 text)

/-- On an accepted value all encoders agree when and only when in every object the names sorted by
code units are in the order of properties; a value without lone surrogates can be read by the
independent verifier. -/
theorem encoders_agree_iff [Crypto] (v : ParsedValue) (h : Accepted 0 v.value) :
    (EncodersAgree v.value ↔ Aligned v.value) ∧
      (v.value.Unicode → ∃ j, VerifyVector.Reads v.value j) := by
  refine ⟨?_, exists_ofJson v.value⟩
  have hplain := plain_of_accepted 0 _ v.distinct h
  have htext := canonicalJson_eq_ok_iff.mpr ⟨h, rfl⟩
  have hsink := canonicalJsonSink_of_accepted h
  have hiff : (byName.reorder v.value).stringify =
      (byProperty.reorder v.value).stringify ↔ Aligned v.value := by
    rw [stringify_eq_iff (plain_reorder _ _ hplain)
      (plain_reorder _ _ hplain)]
    exact normal_eq_iff_aligned v.value hplain
  rw [← hiff]
  constructor
  · rintro ⟨text, sink, htext', hsink', -, -, hhashed, -⟩
    obtain rfl := Except.ok.inj (htext.symm.trans htext')
    obtain rfl := Except.ok.inj (hsink.symm.trans hsink')
    exact utf8_injective hhashed
  · intro heq
    refine ⟨_, _, htext, hsink, by rw [canonicalJsonDigest, hsink, ok_bind], ?_, ?_, fun j hj => ?_⟩
    · rw [heq]
    · rw [heq]
    · rw [VerifyVector.canonicalJson_of_reads h hj, heq]

section

local instance encodersCrypto : Crypto := .ofTable fun _ _ _ => true

/-- An object whose names are array indices with a different number of digits. -/
def indices : ParsedValue where
  value := .obj [(ofText "9", .num 0), (ofText "10", .num 0)]
  distinct := ⟨by decide, trivial, trivial, trivial⟩

/-- `canonicalJson` lists 9 before 10; the digest and the independent verifier list 10 before 9. -/
theorem indices_encoded_differently :
    canonicalJson indices.value = .ok "\x7b\"9\":0,\"10\":0\x7d".toList ∧
      canonicalJsonSink indices.value =
        .ok { byteLength := 14, hashed := utf8 "\x7b\"10\":0,\"9\":0\x7d".toList } ∧
      VerifyVector.Reads indices.value (.obj [("9", .num 0), ("10", .num 0)]) ∧
      VerifyVector.canonicalJson (.obj [("9", .num 0), ("10", .num 0)]) =
        .ok (utf8 "\x7b\"10\":0,\"9\":0\x7d".toList) ∧
      ¬ EncodersAgree indices.value := by
  have haccepted : Accepted 0 indices.value :=
    ⟨by decide, (by decide : IsSafeInteger 0), (by decide : IsSafeInteger 0), trivial⟩
  have hreads : VerifyVector.Reads indices.value (.obj [("9", .num 0), ("10", .num 0)]) := rfl
  have hname : (byName.reorder indices.value).stringify =
      "\x7b\"10\":0,\"9\":0\x7d".toList := by decide +kernel
  have htext : canonicalJson indices.value = .ok "\x7b\"9\":0,\"10\":0\x7d".toList := by
    decide +kernel
  have hsink := canonicalJsonSink_of_accepted haccepted
  have hverifier := VerifyVector.canonicalJson_of_reads haccepted hreads
  rw [hname] at hsink hverifier
  refine ⟨htext, hsink, hreads, hverifier, ?_⟩
  rintro ⟨text, sink, htext', hsink', -, -, hhashed, -⟩
  obtain rfl := Except.ok.inj (htext.symm.trans htext')
  obtain rfl := Except.ok.inj (hsink.symm.trans hsink')
  exact absurd (utf8_injective hhashed) (by decide)

/-- An object with a name that is no array index, and one that is. -/
def mixedNames : ParsedValue where
  value := .obj [(ofText "a", .negZero), (ofText "7", .str (ofText "x"))]
  distinct := ⟨by decide, trivial, trivial, trivial⟩

theorem encoders_agree_iff_mixedNames :
    Accepted 0 mixedNames.value ∧ EncodersAgree mixedNames.value := by
  have haccepted : Accepted 0 mixedNames.value := ⟨by decide, trivial, trivial, trivial⟩
  have haligned : Aligned mixedNames.value := by
    refine ⟨?_, trivial, trivial, trivial⟩
    decide +kernel
  exact ⟨haccepted, (encoders_agree_iff mixedNames haccepted).1.mpr haligned⟩

end

end JsCodec

end ZyronChain
