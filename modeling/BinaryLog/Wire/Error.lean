/-
# BinaryLog.Wire.Error -- why a byte string is not what it should be

A read fails because bytes are missing (`incomplete`), because the bytes that are there
break a rule of the format (`violation`), or because a name is no text (`notUtf8`).
A missing-bytes fault keeps what was unread and, where it is known, how many more bytes
would have been enough.  `Violation` lists the rules, those of writing included.
-/
import BinaryLog.Text.Utf8

namespace BinaryLog.Wire

set_option autoImplicit false

/-- A rule of the format that is broken. -/
inductive Violation
  | nullInteger
  | errorInteger
  | integerTooWide (n : UInt64)
  | columnMetaLength
  | inconsistentQuery (schemaLength : UInt8) (statusVarsLength : UInt16)
  | statusVarKey (key : UInt8)
  | intvarKey (key : UInt8)
  | userVarFlags (bits : UInt8)
  | postHeaderTableTooShort (left : Nat)
  | postHeaderTableLength (entry : UInt8)
  | serverVersionTooLong (version : String)
  | nameTooLong (length : Nat)
  | extraDataLength (length : UInt16)
  | duplicateSid (sid : BitVec 128)
  | gtidInterval (start stop last : UInt64)
  | eventTooLarge (length : Nat)
  | readOnly
deriving DecidableEq, Repr

/-- The hexadecimal text of `n`, filled up with zeros to `width` digits. -/
def hexPadded (width n : Nat) : String :=
  String.ofList ((Nat.toDigits 16 n).leftpad width '0')

def Violation.message : Violation → String
  | nullInteger => "invalid packed integer Null"
  | errorInteger => "invalid packed integer Err"
  | integerTooWide n => s!"packed integer {n} exceeds u32"
  | columnMetaLength => "error column meta def length"
  | inconsistentQuery s v =>
    s!"inconsistent query lengths: schema_len={s}, status_vars_len={v}"
  | statusVarKey k => s!"invalid key of query status var: {k}"
  | intvarKey k => s!"invalid intvar key {k}"
  | userVarFlags b => "invalid user var flags " ++ hexPadded 2 b.toNat
  | postHeaderTableTooShort n => s!"post header lengths too short: {n}"
  | postHeaderTableLength n => s!"invalid post header length of format description event: {n}"
  | serverVersionTooLong v => s!"server version too long: {v}"
  | nameTooLong n => s!"name too long: {n}"
  | extraDataLength n => s!"invalid extra data length: {n}"
  | duplicateSid sid => "duplicate sid in gtid set: " ++ hexPadded 32 sid.toNat
  | gtidInterval a b l => s!"invalid gtid range: start={a}, end={b}, last={l}"
  | eventTooLarge n => s!"event too large: {n}"
  | readOnly => "events of this type are only read"

inductive ReadError
  | incomplete (unread : Bytes) (needed : Option Nat)
  | violation (rule : Violation)
  | notUtf8 (fault : Text.Utf8.Fault)
deriving DecidableEq, Repr

/-- How many more bytes a read needs, as the error texts have it. -/
def neededText : Option Nat → String
  | none => "Unknown"
  | some n => s!"Size({n})"

def ReadError.message : ReadError → String
  | incomplete _ n => "incomplete input: needed=" ++ neededText n
  | violation v => "constraint error: " ++ v.message
  | notUtf8 f => "utf8 error: " ++ f.message

end BinaryLog.Wire
