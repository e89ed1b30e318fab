import Mathlib.Algebra.Group.Nat.Defs
import Mathlib.Data.List.Nodup
import Mathlib.Data.List.TakeWhile
import Mathlib.Tactic.Common

/-!
# JSON values, their text and its reader

The `JSON.stringify` and `JSON.parse` of ECMAScript, on lists of characters.

A number literal that denotes an integer is read as that integer; any other number literal is
kept as its text.  An escape of a surrogate, which no writer here produces, is read as the
replacement character.  The reader is structurally recursive in a fuel argument, for which the
length of the text always suffices.
-/

/-- A JSON value. -/
inductive Json where
  | null
  | bool (b : Bool)
  | num (n : Int)
  /-- A number that is not an integer, as its literal. -/
  | decimal (literal : List Char)
  | str (s : String)
  | arr (items : List Json)
  | obj (members : List (String × Json))

namespace Json

/-- The member of the given name, if the value is an object that has one. -/
def field (v : Json) (name : String) : Option Json := match v with
  | obj members => (members.find? fun m => m.1 = name).map Prod.snd
  | _ => none

/-- `Object.keys` of an object. -/
def keys : Json → List String
  | obj members => members.map Prod.fst
  | _ => []

/-! ### Writing -/

/-- The decimal digits of a natural number. -/
def natText (n : Nat) : List Char := Nat.toDigits 10 n

def intText : Int → List Char
  | .ofNat n => natText n
  | .negSucc n => '-' :: natText (n + 1)

/-- The lower-case hexadecimal digit of a number below 16. -/
def hexDigit (n : Nat) : Char := Nat.digitChar n

/-- A character inside a string literal. -/
def escape (c : Char) : List Char := if c = '"' then ['\\', '"']
  else if c = '\\' then ['\\', '\\']
  else if c = '\x08' then ['\\', 'b']
  else if c = '\t' then ['\\', 't']
  else if c = '\n' then ['\\', 'n']
  else if c = '\x0c' then ['\\', 'f']
  else if c = '\r' then ['\\', 'r']
  else if c.toNat < 0x20 then ['\\', 'u', '0', '0', hexDigit (c.toNat / 16), hexDigit (c.toNat % 16)]
  else [c]

/-- The string literal of a list of characters. -/
def quote (s : List Char) : List Char := '"' :: (s.flatMap escape ++ ['"'])

mutual

def render : Json → List Char
  | null => "null".toList
  | bool true => "true".toList
  | bool false => "false".toList
  | num n => intText n
  | decimal literal => literal
  | str s => quote s.toList
  | arr items => '[' :: (renderItems items ++ [']'])
  | obj members => '{' :: (renderMembers members ++ ['}'])

/-- The items of an array, separated by commas. -/
def renderItems : List Json → List Char
  | [] => []
  | [v] => render v
  | v :: w :: vs => render v ++ ',' :: renderItems (w :: vs)

/-- The members of an object, separated by commas. -/
def renderMembers : List (String × Json) → List Char
  | [] => []
  | [(k, v)] => quote k.toList ++ ':' :: render v
  | (k, v) :: m :: ms => quote k.toList ++ ':' :: (render v ++ ',' :: renderMembers (m :: ms))

end

/-! ### Reading -/

def isSpace (c : Char) : Bool := c = ' ' || c = '\t' || c = '\n' || c = '\r'

/-- A reader returns what it read and the text after it. -/
abbrev Reader (α : Type) : Type := List Char → Option (α × List Char)

def skipSpace (s : List Char) : List Char := s.dropWhile isSpace

def hexValue (c : Char) : Option Nat := if c.isDigit then some (c.toNat - '0'.toNat)
  else if 'a' ≤ c ∧ c ≤ 'f' then some (c.toNat - 'a'.toNat + 10)
  else if 'A' ≤ c ∧ c ≤ 'F' then some (c.toNat - 'A'.toNat + 10)
  else none

/-- The character of a `\uXXXX` escape. -/
def unitChar (a b c d : Char) : Option Char := do
  let n := ((← hexValue a) * 16 + (← hexValue b)) * 256 + (← hexValue c) * 16 + (← hexValue d)
  if 0xd800 ≤ n ∧ n ≤ 0xdfff then some '�' else some (Char.ofNat n)

/-- The character of a two-character escape. -/
def unescape (c : Char) : Option Char := if c = '"' then some '"'
  else if c = '\\' then some '\\'
  else if c = '/' then some '/'
  else if c = 'b' then some '\x08'
  else if c = 't' then some '\t'
  else if c = 'n' then some '\n'
  else if c = 'f' then some '\x0c'
  else if c = 'r' then some '\r'
  else none

/-- Reads the rest of a string literal after its opening quote. -/
def stringBody : Reader (List Char)
  | [] => none
  | c :: s =>
    if c = '"' then some ([], s)
    else if c = '\\' then
      match s with
      | [] => none
      | e :: s' =>
        if e = 'u' then
          match s' with
          | a :: b :: c' :: d :: r =>
            (unitChar a b c' d).bind fun ch =>
              (stringBody r).map fun p => (ch :: p.1, p.2)
          | _ => none
        else
          (unescape e).bind fun ch => (stringBody s').map fun p => (ch :: p.1, p.2)
    else if c.toNat < 0x20 then none
    else (stringBody s).map fun p => (c :: p.1, p.2)

theorem stringBody_quote (s : List Char) : stringBody ('"' :: s) = some ([], s) := by
  rw [stringBody.eq_def]
  simp

theorem stringBody_unit (a b c d : Char) (s : List Char) :
    stringBody ('\\' :: 'u' :: a :: b :: c :: d :: s) =
      (unitChar a b c d).bind fun ch => (stringBody s).map fun p => (ch :: p.1, p.2) := by
  rw [stringBody.eq_def]
  simp

theorem stringBody_escape {e : Char} (he : e ≠ 'u') (s : List Char) :
    stringBody ('\\' :: e :: s) =
      (unescape e).bind fun ch => (stringBody s).map fun p => (ch :: p.1, p.2) := by
  rw [stringBody.eq_def]
  simp [he]

theorem stringBody_plain {c : Char} (hq : c ≠ '"') (hb : c ≠ '\\') (hc : ¬ c.toNat < 0x20)
    (s : List Char) : stringBody (c :: s) = (stringBody s).map fun p => (c :: p.1, p.2) := by
  rw [stringBody.eq_def]
  simp [hq, hb, hc]

/-- The characters a number literal is made of. -/
def isNumberChar (c : Char) : Bool :=
  c.isDigit || c = '-' || c = '+' || c = '.' || c = 'e' || c = 'E'

/-- An optional exponent, up to the end of the literal. -/
def exponent : List Char → Option Int
  | [] => some 0
  | e :: s =>
    if e = 'e' ∨ e = 'E' then
      let negative := s.head? = some '-'
      let digits := if s.head? = some '-' ∨ s.head? = some '+' then s.tail else s
      if digits = [] ∨ ¬ digits.all Char.isDigit then none
      else if negative then some (-(Nat.ofDigitChars 10 digits 0)) else
        some (Nat.ofDigitChars 10 digits 0)
    else none

/-- An optional fraction (its digits) and exponent, up to the end of the literal. -/
def fraction : List Char → Option (List Char × Int)
  | [] => some ([], 0)
  | c :: s =>
    if c = '.' then
      let digits := s.takeWhile Char.isDigit
      if digits = [] then none
      else (exponent (s.dropWhile Char.isDigit)).map fun e => (digits, e)
    else (exponent (c :: s)).map fun e => ([], e)

/-- The value `± digits * 10 ^ scale` of a literal, if it is an integer. -/
def scaled (literal : List Char) (sign : Int) (mantissa : Nat) (scale : Int) : Json :=
  match scale with
  | .ofNat k => if k ≤ 400 then .num (sign * (mantissa * 10 ^ k : Nat)) else .decimal literal
  | .negSucc k =>
    if k ≤ 400 ∧ mantissa % 10 ^ (k + 1) = 0 then .num (sign * (mantissa / 10 ^ (k + 1) : Nat))
    else .decimal literal

/-- The number of a literal without its sign. -/
def unsigned (literal : List Char) (sign : Int) (s : List Char) : Option Json :=
  let digits := s.takeWhile Char.isDigit
  if digits = [] ∨ (digits.head? = some '0' ∧ digits.length ≠ 1) then none
  else (fraction (s.dropWhile Char.isDigit)).map fun f =>
    scaled literal sign (Nat.ofDigitChars 10 (digits ++ f.1) 0) (f.2 - f.1.length)

def numberOf (literal : List Char) : Option Json := match literal with
  | [] => none
  | c :: s => if c = '-' then unsigned literal (-1) s else unsigned literal 1 (c :: s)

/-- Reads a number: no valid text continues with another character of a number literal. -/
def number : Reader Json := fun s =>
  (numberOf (s.takeWhile isNumberChar)).map fun v => (v, s.dropWhile isNumberChar)

def word (w : List Char) (v : Json) : Reader Json := fun s =>
  if w <+: s then some (v, s.drop w.length) else none

/-- A member set again keeps its place and takes the new value. -/
def setMember (ms : List (String × Json)) (m : String × Json) : List (String × Json) :=
  if m.1 ∈ ms.map Prod.fst then ms.map fun m' => if m'.1 = m.1 then m else m' else ms ++ [m]

/-- The members of an object in the order in which their names first occur. -/
def collect (ms : List (String × Json)) : List (String × Json) := ms.foldl setMember []

/-- Applies a function to what was read. -/
def Reader.map {α β : Type} (f : α → β) (p : Reader α) : Reader β :=
  fun s => (p s).map fun q => (f q.1, q.2)

/-- Reads with `p` and goes on with the reader its result selects. -/
def Reader.andThen {α β : Type} (p : Reader α) (f : α → Reader β) : Reader β :=
  fun s => (p s).bind fun q => f q.1 q.2

/-- Skips white space, takes one character and goes on with the reader it selects. -/
def Reader.after {α : Type} (f : Char → Reader α) : Reader α := fun s =>
  match skipSpace s with
  | [] => none
  | c :: r => f c r

def Reader.done {α : Type} (a : α) : Reader α := fun s => some (a, s)

def Reader.fail {α : Type} : Reader α := fun _ => none

/-- Reads a bracketed list after its opening bracket: empty, or by the reader `p` of a
nonempty list with its closing bracket. -/
def bracketed {α : Type} (close : Char) (none : Json) (some : α → Json) (p : Reader α) :
    Reader Json := fun s =>
  if (skipSpace s).head? = .some close then .some (none, (skipSpace s).tail) else p.map some s

/-- Reads a value whose first character is `c`, given readers for members and items. -/
def dispatch (members : Reader (List (String × Json))) (items : Reader (List Json)) (c : Char) :
    Reader Json :=
  if c = '{' then bracketed '}' (.obj []) (fun ms => .obj (collect ms)) members
  else if c = '[' then bracketed ']' (.arr []) .arr items
  else if c = '"' then Reader.map (fun t => .str (String.ofList t)) stringBody
  else if c = 'n' then word "ull".toList .null
  else if c = 't' then word "rue".toList (.bool true)
  else if c = 'f' then word "alse".toList (.bool false)
  else fun r => number (c :: r)

mutual

def value : Nat → Reader Json
  | 0 => .fail
  | n + 1 => .after (dispatch (members n) (items n))

/-- Reads the members of a nonempty object, closing brace included. -/
def members : Nat → Reader (List (String × Json))
  | 0 => .fail
  | n + 1 => .after fun c =>
    if c = '"' then
      Reader.andThen stringBody fun k => .after fun c' =>
        if c' = ':' then
          (value n).andThen fun v => .after fun d =>
            if d = ',' then Reader.map ((String.ofList k, v) :: ·) (members n)
            else if d = '}' then .done [(String.ofList k, v)]
            else .fail
        else .fail
    else .fail

/-- Reads the items of a nonempty array, closing bracket included. -/
def items : Nat → Reader (List Json)
  | 0 => .fail
  | n + 1 => (value n).andThen fun v => .after fun d =>
    if d = ',' then Reader.map (v :: ·) (items n)
    else if d = ']' then .done [v]
    else .fail

end

/-- `JSON.parse`: a value with nothing but white space around it. -/
def parse (text : List Char) : Option Json :=
  (value (text.length + 1) text).bind fun p => if skipSpace p.2 = [] then some p.1 else none

end Json
