/-
# BinaryLog.Event.Rows -- rows written, updated or deleted

The payload holds extra data, the number of columns, a bitmap of the columns that are
present in the images before the change, for an update a second one for those after it, and
then the images themselves.  Only the table map says how to take the images apart, so they
are kept as they are.
-/
import BinaryLog.Bitmap
import BinaryLog.Wire.Packed

namespace BinaryLog

set_option autoImplicit false

open Wire

/-- What happened to the rows. -/
inductive RowChange
  | write
  | update
  | delete
deriving DecidableEq, Repr

structure Rows where
  extraData : Bytes
  columnCount : UInt32
  before : Bytes
  after : Bytes
  images : Bytes
deriving DecidableEq, Repr

namespace Rows

def beforePresent (r : Rows) (i : Nat) : Bool := Bitmap.get r.before i

def afterPresent (r : Rows) (i : Nat) : Bool := Bitmap.get r.after i

/-- Reads a payload with `extraLength` bytes of extra data.  Only an update has a bitmap
of its own for the images after the change. -/
def read (extraLength : Nat) (change : RowChange) : Read Rows := do
  let extraData ← Read.take extraLength
  let columnCount ← Read.packed32
  let before ← Read.take (Bitmap.size columnCount.toNat)
  let after ← if change = .update then Read.take (Bitmap.size columnCount.toNat) else pure before
  let images ← Read.rest
  return { extraData, columnCount, before, after, images }

end Rows

structure RowsEvent where
  tableId : BitVec 48
  flags : UInt16
  /-- The length of the extra data and of this field together. -/
  extraDataLength : UInt16
  payload : Bytes
deriving DecidableEq, Repr

namespace RowsEvent

def read : Read RowsEvent := do
  let tableId ← Read.word (BitVec 48)
  let flags ← Read.word UInt16
  let extraDataLength ← Read.word UInt16
  let payload ← Read.rest
  return { tableId, flags, extraDataLength, payload }

def encode (e : RowsEvent) : Bytes :=
  Word.bytes e.tableId ++ (Word.bytes e.flags ++ (Word.bytes e.extraDataLength ++ e.payload))

/-- The parts of the payload, taken as those of the given change. -/
def rows (e : RowsEvent) (change : RowChange) : Except ReadError Rows :=
  if e.extraDataLength.toNat < 2 then .error (.violation (.extraDataLength e.extraDataLength))
  else (Rows.read (e.extraDataLength.toNat - 2) change).value e.payload

end RowsEvent

end BinaryLog
