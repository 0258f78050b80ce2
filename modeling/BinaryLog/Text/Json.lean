/-
# BinaryLog.Text.Json -- the parts of JSON text that settings need

Functions that take a token or a value off the head of a text and give what is left, or nothing
if the text does not start with one.  `skipValue` passes over any value, however deep; `string`
reads a string, whose escaped surrogates have to come in pairs.
-/

namespace BinaryLog.Text.Json

set_option autoImplicit false

abbrev Chars := List Char

def isSpace (c : Char) : Bool := c == ' ' || c == '\n' || c == '\t' || c == '\r'

def skipSpace (cs : Chars) : Chars := cs.dropWhile isSpace

/-! ## Strings -/

def hexValue (c : Char) : Option Nat :=
  if c.isDigit then some (c.toNat - '0'.toNat)
  else if 'a' ≤ c ∧ c ≤ 'f' then some (c.toNat - 'a'.toNat + 10)
  else if 'A' ≤ c ∧ c ≤ 'F' then some (c.toNat - 'A'.toNat + 10)
  else none

/-- The number in four hexadecimal digits. -/
def hexFour : Chars → Option (Nat × Chars)
  | a :: b :: c :: d :: cs => do
    let a ← hexValue a
    let b ← hexValue b
    let c ← hexValue c
    let d ← hexValue d
    return (((a * 16 + b) * 16 + c) * 16 + d, cs)
  | _ => none

/-- What a string is written with: characters, and numbers of 16 bits. -/
inductive Unit16
  | char (c : Char)
  | escaped (n : Nat)
deriving DecidableEq

/-- The character behind a backslash, other than `u`. -/
def shortEscape : Char → Option Char
  | '"' => some '"'
  | '\\' => some '\\'
  | '/' => some '/'
  | 'b' => some '\x08'
  | 'f' => some '\x0c'
  | 'n' => some '\n'
  | 'r' => some '\r'
  | 't' => some '\t'
  | _ => none

/-- The units up to the closing quote; `units` are those in front, latest first. -/
def unitsFrom : Nat → List Unit16 → Chars → Option (List Unit16 × Chars)
  | 0, _, _ => none
  | _ + 1, _, [] => none
  | fuel + 1, units, c :: cs =>
    if c = '"' then some (units.reverse, cs)
    else if c = '\\' then
      match cs with
      | 'u' :: cs => do
        let (n, cs) ← hexFour cs
        unitsFrom fuel (.escaped n :: units) cs
      | e :: cs => do
        let c ← shortEscape e
        unitsFrom fuel (.char c :: units) cs
      | [] => none
    else if c < ' ' then none
    else unitsFrom fuel (.char c :: units) cs

/-- The units of a string behind its opening quote. -/
def units (cs : Chars) : Option (List Unit16 × Chars) := unitsFrom (cs.length + 1) [] cs

/-- The text of units, in which a high surrogate is followed by a low one and no low one stands
alone. -/
def join : List Unit16 → Option Chars
  | [] => some []
  | .char c :: us => (join us).map (c :: ·)
  | .escaped hi :: .escaped lo :: us =>
    if 0xd800 ≤ hi ∧ hi < 0xdc00 then
      if 0xdc00 ≤ lo ∧ lo < 0xe000 then
        (join us).map (Char.ofNat (0x10000 + (hi - 0xd800) * 0x400 + (lo - 0xdc00)) :: ·)
      else none
    else if 0xdc00 ≤ hi ∧ hi < 0xe000 then none
    else (join (.escaped lo :: us)).map (Char.ofNat hi :: ·)
  | .escaped n :: us =>
    if 0xd800 ≤ n ∧ n < 0xe000 then none else (join us).map (Char.ofNat n :: ·)

/-- The text of a string behind its opening quote. -/
def string (cs : Chars) : Option (String × Chars) := do
  let (us, cs) ← units cs
  let text ← join us
  return (.ofList text, cs)

/-! ## Values -/

def bool : Chars → Option (Bool × Chars)
  | 't' :: 'r' :: 'u' :: 'e' :: cs => some (true, cs)
  | 'f' :: 'a' :: 'l' :: 's' :: 'e' :: cs => some (false, cs)
  | _ => none

/-- At least one digit. -/
def digits : Chars → Option Chars
  | c :: cs => if c.isDigit then some (cs.dropWhile Char.isDigit) else none
  | [] => none

/-- An exponent, if there is one. -/
def skipExponent : Chars → Option Chars
  | c :: cs =>
    if c = 'e' ∨ c = 'E' then
      match cs with
      | '+' :: cs => digits cs
      | '-' :: cs => digits cs
      | cs => digits cs
    else some (c :: cs)
  | [] => some []

/-- Decimals, if there are any, and an exponent. -/
def skipFraction : Chars → Option Chars
  | '.' :: cs => digits cs >>= skipExponent
  | cs => skipExponent cs

/-- A number without its sign.  Nothing follows a leading zero in its integer part. -/
def skipNumber : Chars → Option Chars
  | '0' :: c :: cs => if c.isDigit then none else skipFraction (c :: cs)
  | cs => digits cs >>= skipFraction

mutual

/-- Any value, with space in front. -/
def skipValue : Nat → Chars → Option Chars
  | 0, _ => none
  | fuel + 1, cs =>
    match skipSpace cs with
    | 'n' :: 'u' :: 'l' :: 'l' :: cs => some cs
    | 't' :: 'r' :: 'u' :: 'e' :: cs => some cs
    | 'f' :: 'a' :: 'l' :: 's' :: 'e' :: cs => some cs
    | '-' :: cs => skipNumber cs
    | '"' :: cs => (units cs).map (·.2)
    | '[' :: cs =>
      match skipSpace cs with
      | ']' :: cs => some cs
      | cs => skipItems fuel cs
    | '\x7b' :: cs =>
      match skipSpace cs with
      | '\x7d' :: cs => some cs
      | cs => skipMembers fuel cs
    | cs => skipNumber cs

/-- The items of an array, at least one, and its closing bracket. -/
def skipItems : Nat → Chars → Option Chars
  | 0, _ => none
  | fuel + 1, cs =>
    match skipValue fuel cs with
    | none => none
    | some cs =>
      match skipSpace cs with
      | ',' :: cs => skipItems fuel cs
      | ']' :: cs => some cs
      | _ => none

/-- The members of an object, at least one, and its closing brace. -/
def skipMembers : Nat → Chars → Option Chars
  | 0, _ => none
  | fuel + 1, cs =>
    match skipSpace cs with
    | '"' :: cs =>
      match units cs with
      | none => none
      | some (_, cs) =>
        match skipSpace cs with
        | ':' :: cs =>
          match skipValue fuel cs with
          | none => none
          | some cs =>
            match skipSpace cs with
            | ',' :: cs => skipMembers fuel cs
            | '\x7d' :: cs => some cs
            | _ => none
        | _ => none
    | _ => none

end

end BinaryLog.Text.Json
