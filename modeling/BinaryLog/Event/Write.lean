/-
# BinaryLog.Event.Write -- writing events to a buffer, one behind the other

Header and body are written part by part.  An event is written behind what the buffer holds, but
its body is written aside first: the length of it goes into the header, and a body that cannot be
written must not leave a part of itself behind.  The checksum is taken of what the event itself has
added to the buffer.  `writeEach` writes event after event and goes on behind one that failed.
-/
import BinaryLog.Event
import BinaryLog.Wire.Write

namespace BinaryLog

set_option autoImplicit false

open Wire

/-! ## Headers and bodies -/

def EventHeader.write (h : EventHeader) : Write :=
  .row [.word h.timestamp, .word h.typeCode, .word h.serverId, .word h.eventLength,
    .word h.nextPosition, .word h.flags.bits]

def Query.write (q : Query) : Write :=
  if q.schema.length = q.schemaLength.toNat ∧ q.statusVars.length = q.statusVarsLength.toNat then
    .row [.word q.proxyId, .word q.executionTime, .word q.schemaLength, .word q.errorCode,
      .word q.statusVarsLength, .octets q.statusVars, .octets q.schema, .word (0 : UInt8),
      .octets q.statement]
  else throw (.inconsistentQuery q.schemaLength q.statusVarsLength)

def Rotate.write (e : Rotate) : Write := .row [.word e.position, .octets e.nextFile]

def Intvar.write (v : Intvar) : Write := .row [.word v.key.bits, .word v.value]

def Rand.write (e : Rand) : Write := .row [.word e.seed1, .word e.seed2]

def FormatDescription.write (d : FormatDescription) : Write :=
  let version := Text.Utf8.encode d.serverVersion
  if version.length < versionLength then
    .row [.word d.binlogVersion, .octets version,
      .octets (List.replicate (versionLength - version.length) 0), .word d.created,
      .word d.headerLength, .octets d.postHeaderLengths, .word d.checksumFlag]
  else throw (.serverVersionTooLong d.serverVersion)

def Xid.write (e : Xid) : Write := .word e.xid

def TableMapEvent.write (e : TableMapEvent) : Write :=
  .row [.word e.tableId, .word e.flags, .octets e.payload]

def RowsQuery.write (e : RowsQuery) : Write :=
  .row [.word (UInt8.ofNat (min e.statement.length 255)), .octets e.statement]

def RowsEvent.write (e : RowsEvent) : Write :=
  .row [.word e.tableId, .word e.flags, .word e.extraDataLength, .octets e.payload]

def GtidEvent.write (e : GtidEvent) : Write :=
  .row [.word e.flags, .word e.sid, .word e.number, .word e.timestampType, .word e.lastCommitted,
    .word e.sequenceNumber]

def PayloadField.write (type : UInt32) (value : PackedInt) : Write :=
  .row [(PackedInt.ofNat type.toNat).write, (PackedInt.ofNat value.width).write, value.write]

def PayloadHeader.write (h : PayloadHeader) : Write :=
  .row [PayloadField.write 1 (.ofNat h.payloadSize.toNat),
    PayloadField.write 2 (.ofNat h.compressionType.toNat),
    PayloadField.write 3 (.ofUInt64 h.uncompressedSize), (PackedInt.ofNat 0).write]

def TransactionPayload.write {ε : Type} (p : TransactionPayload ε) : Write :=
  .row [p.header.write, .octets p.payload]

def Body.write : Body → Write
  | .query q => q.write
  | .rotate e => e.write
  | .intvar e => e.write
  | .rand e => e.write
  | .formatDescription d => d.write
  | .xid e => e.write
  | .tableMap e => e.write
  | .rowsQuery e => e.write
  | .writeRows e => e.write
  | .updateRows e => e.write
  | .deleteRows e => e.write
  | .gtid e => e.write
  | .anonymousGtid e => e.write
  | .transactionPayload p => p.write
  | _ => throw .readOnly

/-! ## Events -/

namespace Event

/-- Writes an event with its length, and with a checksum if it is to have one. -/
def write (e : Event) (checksum : Bool) : Write := do
  let data ← e.body.write.aside
  let length := EventHeader.size + data.length + (if checksum then Crc32.size else 0)
  if length < 2 ^ 32 then
    let start := (← get).length
    let front ← Write.row [{ e.header with eventLength := .ofNat length }.write, .octets data]
    if checksum then
      let out ← get
      let trailer ← Write.word (Crc32.checksum (out.drop start))
      return front + trailer
    else return front
  else throw (.eventTooLarge length)

/-- Writes events one behind the other, each with a checksum or without, whatever became of those
in front of it.  What each of them came to, and the buffer afterwards. -/
def writeEach : List (Event × Bool) → Bytes → List (Except Violation Nat) × Bytes
  | [], out => ([], out)
  | (e, checksum) :: later, out =>
    match e.write checksum out with
    | .ok n out =>
      let (results, out) := writeEach later out
      (.ok n :: results, out)
    | .error v out =>
      let (results, out) := writeEach later out
      (.error v :: results, out)

end Event

end BinaryLog
