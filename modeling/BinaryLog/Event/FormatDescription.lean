/-
# BinaryLog.Event.FormatDescription -- how the events that follow are written

The body carries a table with the length of the post header of every event type, itself
included.  The length of the table is written nowhere: it follows from the table's own
entry for this event type, which is the length of the fixed part and of the table together.
The byte behind the table says whether events end with a checksum; servers that know no
checksum leave it out.
-/
import BinaryLog.Event.Type
import BinaryLog.Wire.Read

namespace BinaryLog

set_option autoImplicit false

open Wire

structure FormatDescription where
  binlogVersion : UInt16
  serverVersion : String
  created : UInt32
  headerLength : UInt8
  postHeaderLengths : Bytes
  checksumFlag : UInt8
deriving DecidableEq, Repr

namespace FormatDescription

/-- The bytes in front of the table. -/
def fixedLength : Nat := 57

/-- The bytes kept for the server version, which ends at the first zero byte. -/
def versionLength : Nat := 50

/-- The table of a current server. -/
def currentLengths : Bytes :=
  [56, 13, 0, 8, 0, 18, 0, 4, 4, 4, 4, 18, 0, 0, 98, 0, 4, 26, 8, 0, 0, 0, 8, 8, 8, 2, 0, 0, 0,
   10, 10, 10, 42, 42, 0, 18, 52, 0, 10, 0, 0]

def new (serverVersion : String) (checksumFlag : UInt8) : FormatDescription where
  binlogVersion := 4
  serverVersion := serverVersion
  created := 0
  headerLength := 19
  postHeaderLengths := currentLengths
  checksumFlag := checksumFlag

def checksumEnabled (d : FormatDescription) : Bool := d.checksumFlag == 1

/-- The length of the post header of a type; the table starts with code 1. -/
def postHeaderLength (d : FormatDescription) (t : EventType) : Option UInt8 :=
  if t.code = 0 then none else d.postHeaderLengths[t.code.toNat - 1]?

/-- The table, as long as its own entry for this event type says. -/
def readTable : Read Bytes := fun bs =>
  match bs[EventType.formatDescription.code.toNat - 1]? with
  | none => Read.fail (.postHeaderTableTooShort bs.length) bs
  | some entry =>
    if entry.toNat < fixedLength then Read.fail (.postHeaderTableLength entry) bs
    else Read.take (entry.toNat - fixedLength) bs

/-- The checksum behind the flag stays unread. -/
def read : Read FormatDescription := do
  let binlogVersion ← Read.word UInt16
  let version ← Read.take versionLength
  let serverVersion ← Read.text (version.takeWhile (· != 0))
  let created ← Read.word UInt32
  let headerLength ← Read.word UInt8
  let postHeaderLengths ← readTable
  let checksumFlag ← Read.wordOr UInt8 0
  return { binlogVersion, serverVersion, created, headerLength, postHeaderLengths, checksumFlag }

def encode (d : FormatDescription) : Except Violation Bytes :=
  let version := Text.Utf8.encode d.serverVersion
  if version.length < versionLength then
    .ok (Word.bytes d.binlogVersion ++ (version ++
      (List.replicate (versionLength - version.length) 0 ++ (Word.bytes d.created ++
        (Word.bytes d.headerLength ++ (d.postHeaderLengths ++ Word.bytes d.checksumFlag))))))
  else .error (.serverVersionTooLong d.serverVersion)

end FormatDescription

end BinaryLog
