/-
# BinaryLog.Event.Context -- what the next statement needs to run again

Three events precede a statement whose effect depends on them: the value of an
automatically numbered column, the seeds of the random generator, and a user variable.
The value of a user variable is kept as it is written and decoded on demand.
-/
import BinaryLog.Flags
import BinaryLog.Wire.Read

namespace BinaryLog

set_option autoImplicit false

open Wire

/-! ## Numbered columns -/

structure Intvar where
  /-- The last inserted id, the next id to insert, or both. -/
  key : Flags (0x03 : UInt8)
  value : UInt64
deriving DecidableEq

namespace Intvar

def read : Read Intvar := do
  let bits ← Read.word UInt8
  match Flags.ofBits? bits with
  | none => .fail (.intvarKey bits)
  | some key =>
    let value ← Read.word UInt64
    return { key, value }

def encode (v : Intvar) : Bytes := Word.bytes v.key.bits ++ Word.bytes v.value

end Intvar

/-! ## Random seeds -/

structure Rand where
  seed1 : UInt64
  seed2 : UInt64
deriving DecidableEq, Repr

namespace Rand

def read : Read Rand := do
  let seed1 ← Read.word UInt64
  let seed2 ← Read.word UInt64
  return { seed1, seed2 }

def encode (r : Rand) : Bytes := Word.bytes r.seed1 ++ Word.bytes r.seed2

end Rand

/-! ## User variables -/

structure UserVarValue where
  type : UInt8
  charset : UInt32
  content : Bytes
  /-- Whether an integer is unsigned. -/
  flags : Flags (0x01 : UInt8)
deriving DecidableEq

namespace UserVarValue

/-- The flags may be missing at the end, and are then empty. -/
def read : Read UserVarValue := do
  let type ← Read.word UInt8
  let charset ← Read.word UInt32
  let length ← Read.word UInt32
  let content ← Read.take length.toNat
  let bits ← Read.wordOr UInt8 0
  match Flags.ofBits? bits with
  | none => .fail (.userVarFlags bits)
  | some flags => return { type, charset, content, flags }

end UserVarValue

structure UserVar where
  name : Bytes
  isNull : UInt8
  raw : Bytes
deriving DecidableEq, Repr

namespace UserVar

def read : Read UserVar := do
  let length ← Read.word UInt32
  let name ← Read.take length.toNat
  let isNull ← Read.word UInt8
  let raw ← Read.rest
  return { name, isNull, raw }

/-- The decoded value; a null variable has none. -/
def value (v : UserVar) : Except ReadError (Option UserVarValue) :=
  if v.isNull = 0 then some <$> UserVarValue.read.value v.raw else .ok none

end UserVar

end BinaryLog
