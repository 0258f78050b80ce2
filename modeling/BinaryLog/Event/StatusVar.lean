/-
# BinaryLog.Event.StatusVar -- the status block of a query event

The block is a row of entries, each a key byte and a value whose layout the key fixes.
Four keys are decoded; the value of every other known key is kept as it is written.  An
unknown key ends the reading, since nothing tells how long its value is.
-/
import BinaryLog.Flags
import BinaryLog.Wire.Read

namespace BinaryLog

set_option autoImplicit false

open Wire

/-- Automatic `IS NULL`, no autocommit, no foreign key checks, relaxed unique checks. -/
abbrev SessionFlags := Flags (0x0c084000 : UInt32)

inductive StatusVar
  | flags (flags : SessionFlags)
  | sqlMode (mode : UInt64)
  | charset (client connection server : UInt16)
  | updatedDatabases (names : List Bytes)
  | other (key : UInt8) (value : Bytes)
deriving DecidableEq

namespace StatusVar

/-- How the value of a key that is not decoded is written: so many bytes, or so many strings
with a length byte each and perhaps a terminator. -/
inductive Layout
  | fixed (length : Nat)
  | strings (count : Nat) (terminated : Bool)
deriving DecidableEq, Repr

def layout? : UInt8 → Option Layout
  | 0x02 => some (.strings 1 true)
  | 0x03 => some (.fixed 4)
  | 0x05 => some (.strings 1 false)
  | 0x06 => some (.strings 1 false)
  | 0x07 => some (.fixed 2)
  | 0x08 => some (.fixed 2)
  | 0x09 => some (.fixed 8)
  | 0x0a => some (.fixed 4)
  | 0x0b => some (.strings 2 false)
  | 0x0d => some (.fixed 3)
  | 0x0e => some (.fixed 1)
  | 0x0f => some (.fixed 8)
  | 0x10 => some (.fixed 2)
  | 0x11 => some (.fixed 1)
  | 0x12 => some (.fixed 1)
  | _ => none

/-- A string with its length byte. -/
def readShort : Read Bytes := do
  let n ← Read.word UInt8
  let content ← Read.take n.toNat
  return n :: content

def Layout.read : Layout → Read Bytes
  | fixed n => Read.take n
  | strings count terminated => Read.atomically do
    let parts ← Read.times readShort count
    let last ← Read.take (if terminated then 1 else 0)
    return parts.flatten ++ last

/-- The value that belongs to a key. -/
def readValue (key : UInt8) : Read StatusVar :=
  if key = 0x00 then do
    let bits ← Read.word UInt32
    return flags (.truncate bits)
  else if key = 0x01 then sqlMode <$> Read.word UInt64
  else if key = 0x04 then do
    let client ← Read.word UInt16
    let connection ← Read.word UInt16
    let server ← Read.word UInt16
    return charset client connection server
  else if key = 0x0c then do
    let count ← Read.word UInt8
    let names ← Read.times (Read.untilByte 0 false) count.toNat
    return updatedDatabases names
  else match layout? key with
    | some layout => other key <$> layout.read
    | none => .fail (.statusVarKey key)

def read : Read StatusVar := do readValue (← Read.word UInt8)

/-- The entries of a whole block. -/
def readAll : Read (List StatusVar) := Read.all read

def encode : StatusVar → Bytes
  | flags f => 0x00 :: Word.bytes f.bits
  | sqlMode mode => 0x01 :: Word.bytes mode
  | charset client connection server =>
    0x04 :: (Word.bytes client ++ (Word.bytes connection ++ Word.bytes server))
  | updatedDatabases names =>
    0x0c :: UInt8.ofNat names.length :: names.flatMap (· ++ [0])
  | other key value => key :: value

end StatusVar

end BinaryLog
