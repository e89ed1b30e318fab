import ZyronChain.Lib.Json

/-!
# JSON values of ECMAScript

A string of ECMAScript is a sequence of UTF-16 code units, in which a surrogate may stand alone,
and a number may be a negative zero.  `JSON.stringify` writes a surrogate that stands alone as an
escape and a negative zero as `0`, so a text holds neither; a text is a list of characters here.
-/

abbrev CodeUnit : Type := Fin 65536

abbrev JsString : Type := List CodeUnit

/-- A value of JSON, with the members of an object in some order. -/
inductive JsValue where
  | null
  | bool (b : Bool)
  | num (n : Int)
  | negZero
  /-- A number that is not an integer, as its literal. -/
  | decimal (literal : List Char)
  | str (s : JsString)
  | arr (items : List JsValue)
  | obj (members : List (JsString × JsValue))

namespace JsValue

open Json (Reader)

/-! ### Code units -/

def isHighSurrogate (u : CodeUnit) : Bool := decide (0xd800 ≤ u.val ∧ u.val ≤ 0xdbff)

def isLowSurrogate (u : CodeUnit) : Bool := decide (0xdc00 ≤ u.val ∧ u.val ≤ 0xdfff)

def pairChar (high low : CodeUnit) : Char :=
  Char.ofNat (0x10000 + (high.val - 0xd800) * 0x400 + (low.val - 0xdc00))

def charUnits (c : Char) : JsString := if c.toNat < 0x10000 then [Fin.ofNat 65536 c.toNat]
  else [Fin.ofNat 65536 (0xd800 + (c.toNat - 0x10000) / 0x400),
    Fin.ofNat 65536 (0xdc00 + (c.toNat - 0x10000) % 0x400)]

/-- The code units of a sequence of characters. -/
def ofChars (s : List Char) : JsString := s.flatMap charUnits

/-! ### Writing -/

/-- The escape of a code unit by its number. -/
def unitEscape (u : CodeUnit) : List Char :=
  ['\\', 'u', Json.hexDigit (u.val / 4096), Json.hexDigit (u.val / 256 % 16),
    Json.hexDigit (u.val / 16 % 16), Json.hexDigit (u.val % 16)]

/-- A code unit that is not part of a surrogate pair. -/
def quoteUnit (u : CodeUnit) : List Char :=
  if isHighSurrogate u || isLowSurrogate u then unitEscape u else Json.escape (Char.ofNat u.val)

def quoteUnits : JsString → List Char
  | [] => []
  | [u] => quoteUnit u
  | u :: v :: us =>
    if isHighSurrogate u && isLowSurrogate v then pairChar u v :: quoteUnits us
    else quoteUnit u ++ quoteUnits (v :: us)

def quoteString (s : JsString) : List Char := '"' :: (quoteUnits s ++ ['"'])

mutual

/-- `JSON.stringify`. -/
def stringify : JsValue → List Char
  | null => "null".toList
  | bool true => "true".toList
  | bool false => "false".toList
  | num n => Json.intText n
  | negZero => ['0']
  | decimal literal => literal
  | str s => quoteString s
  | arr items => '[' :: (stringifyItems items ++ [']'])
  | obj members => '{' :: (stringifyMembers members ++ ['}'])

def stringifyItems : List JsValue → List Char
  | [] => []
  | [v] => stringify v
  | v :: w :: vs => stringify v ++ ',' :: stringifyItems (w :: vs)

def stringifyMembers : List (JsString × JsValue) → List Char
  | [] => []
  | [(k, v)] => quoteString k ++ ':' :: stringify v
  | (k, v) :: m :: ms =>
    quoteString k ++ ':' :: (stringify v ++ ',' :: stringifyMembers (m :: ms))

end

/-! ### Reading -/

/-- The code unit of four hexadecimal digits. -/
def unitOf (a b c d : Char) : Option CodeUnit := do
  let n := ((← Json.hexValue a) * 16 + (← Json.hexValue b)) * 256 + (← Json.hexValue c) * 16 +
    (← Json.hexValue d)
  some (Fin.ofNat 65536 n)

/-- Reads the rest of a string literal after its opening quote. -/
def unitsBody : Reader JsString
  | [] => none
  | c :: s =>
    if c = '"' then some ([], s)
    else if c = '\\' then
      match s with
      | [] => none
      | e :: s' =>
        if e = 'u' then
          match s' with
          | a :: b :: c' :: d :: r =>
            (unitOf a b c' d).bind fun u => (unitsBody r).map fun p => (u :: p.1, p.2)
          | _ => none
        else
          (Json.unescape e).bind fun ch =>
            (unitsBody s').map fun p => (charUnits ch ++ p.1, p.2)
    else if c.toNat < 0x20 then none
    else (unitsBody s).map fun p => (charUnits c ++ p.1, p.2)

/-- The number of a literal, given whether it starts with a minus sign. -/
def ofNumber (negative : Bool) : Json → JsValue
  | .num n => if negative = true ∧ n = 0 then negZero else num n
  | .decimal literal => decimal literal
  | _ => null

def number : Reader JsValue := fun s =>
  (Json.number s).map fun p => (ofNumber (decide (s.head? = some '-')) p.1, p.2)

def word (w : List Char) (v : JsValue) : Reader JsValue := fun s =>
  if w <+: s then some (v, s.drop w.length) else none

/-- A member set again keeps its place and takes the new value. -/
def setMember (ms : List (JsString × JsValue)) (m : JsString × JsValue) :
    List (JsString × JsValue) :=
  if m.1 ∈ ms.map Prod.fst then ms.map fun m' => if m'.1 = m.1 then m else m' else ms ++ [m]

/-- The members of an object in the order in which their names first occur. -/
def collect (ms : List (JsString × JsValue)) : List (JsString × JsValue) := ms.foldl setMember []

/-- Reads a bracketed list after its opening bracket: empty, or by the reader `p` of a
nonempty list with its closing bracket. -/
def bracketed {α : Type} (close : Char) (none : JsValue) (some : α → JsValue) (p : Reader α) :
    Reader JsValue := fun s =>
  if (Json.skipSpace s).head? = .some close then .some (none, (Json.skipSpace s).tail)
  else p.map some s

/-- Reads a value whose first character is `c`, given readers for members and items. -/
def dispatch (members : Reader (List (JsString × JsValue))) (items : Reader (List JsValue))
    (c : Char) : Reader JsValue :=
  if c = '{' then bracketed '}' (.obj []) (fun ms => .obj (collect ms)) members
  else if c = '[' then bracketed ']' (.arr []) .arr items
  else if c = '"' then Reader.map .str unitsBody
  else if c = 'n' then word "ull".toList .null
  else if c = 't' then word "rue".toList (.bool true)
  else if c = 'f' then word "alse".toList (.bool false)
  else fun r => number (c :: r)

mutual

def value : Nat → Reader JsValue
  | 0 => .fail
  | n + 1 => .after (dispatch (members n) (items n))

/-- Reads the members of a nonempty object, closing brace included. -/
def members : Nat → Reader (List (JsString × JsValue))
  | 0 => .fail
  | n + 1 => .after fun c =>
    if c = '"' then
      Reader.andThen unitsBody fun k => .after fun c' =>
        if c' = ':' then
          (value n).andThen fun v => .after fun d =>
            if d = ',' then Reader.map ((k, v) :: ·) (members n)
            else if d = '}' then .done [(k, v)]
            else .fail
        else .fail
    else .fail

/-- Reads the items of a nonempty array, closing bracket included. -/
def items : Nat → Reader (List JsValue)
  | 0 => .fail
  | n + 1 => (value n).andThen fun v => .after fun d =>
    if d = ',' then Reader.map (v :: ·) (items n)
    else if d = ']' then .done [v]
    else .fail

end

/-- `JSON.parse`: a value with nothing but white space around it. -/
def parse (text : List Char) : Option JsValue :=
  (value (text.length + 1) text).bind fun p =>
    if Json.skipSpace p.2 = [] then some p.1 else none

/-! ### Values that are read back -/

mutual

/-- The value with every negative zero replaced by zero. -/
def zeroed : JsValue → JsValue
  | negZero => num 0
  | arr items => arr (zeroedItems items)
  | obj members => obj (zeroedMembers members)
  | null => null
  | bool b => bool b
  | num n => num n
  | decimal literal => decimal literal
  | str s => str s

def zeroedItems : List JsValue → List JsValue
  | [] => []
  | v :: vs => zeroed v :: zeroedItems vs

def zeroedMembers : List (JsString × JsValue) → List (JsString × JsValue)
  | [] => []
  | (k, v) :: ms => (k, zeroed v) :: zeroedMembers ms

end

mutual

/-- Only integer numbers, and no repeated member name in any object. -/
def Plain : JsValue → Prop
  | null | bool _ | num _ | negZero | str _ => True
  | decimal _ => False
  | arr items => PlainItems items
  | obj members => (members.map Prod.fst).Nodup ∧ PlainMembers members

def PlainItems : List JsValue → Prop
  | [] => True
  | v :: vs => Plain v ∧ PlainItems vs

def PlainMembers : List (JsString × JsValue) → Prop
  | [] => True
  | (_, v) :: ms => Plain v ∧ PlainMembers ms

end

end JsValue
