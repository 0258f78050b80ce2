/-
# BinaryLog.Event.Control -- events about the log itself

The next log file (`Rotate`), the one being written (`Heartbeat`), the commit of a
transaction (`Xid`), an incident on the server (`Incident`) and the text of the statement
that row events stem from (`RowsQuery`).
-/
import BinaryLog.Wire.Read

namespace BinaryLog

set_option autoImplicit false

open Wire

structure Rotate where
  position : UInt64
  nextFile : Bytes
deriving DecidableEq, Repr

namespace Rotate

def read : Read Rotate := do
  let position ← Read.word UInt64
  let nextFile ← Read.rest
  return { position, nextFile }

def encode (e : Rotate) : Bytes := Word.bytes e.position ++ e.nextFile

end Rotate

structure Heartbeat where
  logName : Bytes
deriving DecidableEq, Repr

def Heartbeat.read : Read Heartbeat := Heartbeat.mk <$> Read.rest

structure Xid where
  xid : UInt64
deriving DecidableEq, Repr

namespace Xid

def read : Read Xid := Xid.mk <$> Read.word UInt64

def encode (e : Xid) : Bytes := Word.bytes e.xid

end Xid

structure Incident where
  type : UInt16
  text : Bytes
deriving DecidableEq, Repr

def Incident.read : Read Incident := do
  let type ← Read.word UInt16
  let length ← Read.word UInt8
  let text ← Read.take length.toNat
  return { type, text }

structure RowsQuery where
  statement : Bytes
deriving DecidableEq, Repr

namespace RowsQuery

/-- The statement extends to the end of the event: the length byte in front of it cannot
tell the length of a long one and is passed over. -/
def read : Read RowsQuery := do
  let _ ← Read.word UInt8
  RowsQuery.mk <$> Read.rest

def encode (e : RowsQuery) : Bytes :=
  Word.bytes (UInt8.ofNat (min e.statement.length 255)) ++ e.statement

end RowsQuery

end BinaryLog
