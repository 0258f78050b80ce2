/-
# BinaryLog.Options.Text -- options as JSON text

Options are written as an object of two members.  They are read from an object, in which either
member may be missing and any other is passed over, or from an array of at most two values in the
order in which they are written.  A member given twice, a value that is no truth value, and
anything behind the text are refused.
-/
import BinaryLog.Options
import BinaryLog.Text.Json

namespace BinaryLog.Options

set_option autoImplicit false

open BinaryLog.Text

/-- The text of the options. -/
def toText (o : Options) : String :=
  "\x7b\"checksum\":" ++ toString o.checksum ++ ",\"validate_checksum\":" ++
    toString o.validate ++ "\x7d"

/-- The members that were given. -/
structure Given where
  checksum : Option Bool := none
  validate : Option Bool := none
deriving DecidableEq, Repr

def ofGiven (g : Given) : Options :=
  let o : Options := {}
  { checksum := g.checksum.getD o.checksum, validate := g.validate.getD o.validate }

/-- The value of a member that has not been given before. -/
def once (before : Option Bool) (cs : Json.Chars) : Option (Bool × Json.Chars) :=
  if before.isSome then none else Json.bool (Json.skipSpace cs)

/-- The value of the member of this name. -/
def readMember (g : Given) (name : String) (cs : Json.Chars) : Option (Given × Json.Chars) :=
  if name = "checksum" then do
    let (b, cs) ← once g.checksum cs
    return ({ g with checksum := some b }, cs)
  else if name = "validate_checksum" then do
    let (b, cs) ← once g.validate cs
    return ({ g with validate := some b }, cs)
  else do
    let cs ← Json.skipValue (2 * cs.length + 2) cs
    return (g, cs)

/-- The members of an object, at least one, and its closing brace. -/
def readMembers : Nat → Given → Json.Chars → Option (Given × Json.Chars)
  | 0, _, _ => none
  | fuel + 1, g, cs =>
    match Json.skipSpace cs with
    | '"' :: cs => do
      let (name, cs) ← Json.string cs
      match Json.skipSpace cs with
      | ':' :: cs =>
        let (g, cs) ← readMember g name cs
        match Json.skipSpace cs with
        | ',' :: cs => readMembers fuel g cs
        | '\x7d' :: cs => return (g, cs)
        | _ => none
      | _ => none
    | _ => none

/-- The items of an array behind its opening bracket. -/
def readItems (cs : Json.Chars) : Option (Given × Json.Chars) :=
  match Json.skipSpace cs with
  | ']' :: cs => some ({}, cs)
  | cs => do
    let (first, cs) ← Json.bool cs
    match Json.skipSpace cs with
    | ']' :: cs => return ({ checksum := some first }, cs)
    | ',' :: cs =>
      let (second, cs) ← Json.bool (Json.skipSpace cs)
      match Json.skipSpace cs with
      | ']' :: cs => return ({ checksum := some first, validate := some second }, cs)
      | _ => none
    | _ => none

/-- The options that a text gives. -/
def ofText? (text : String) : Option Options := do
  let (g, cs) ← match Json.skipSpace text.toList with
    | '\x7b' :: cs =>
      match Json.skipSpace cs with
      | '\x7d' :: cs => some ({}, cs)
      | cs => readMembers (cs.length + 1) {} cs
    | '[' :: cs => readItems cs
    | _ => none
  if (Json.skipSpace cs).isEmpty then return ofGiven g else none

end BinaryLog.Options
