/-
# BinaryLog.Event -- events

An event is a header, a body and a checksum, zero where there is none.  The body's variant
belongs to the header's type; events of types without a variant keep their bytes.  A
transaction payload holds the events embedded in it, so events are trees.

`encode` writes an event, its length and checksum computed.  `as` gives the body as data of one
type, and fails for an event whose body is another one.
-/
import BinaryLog.Crc32
import BinaryLog.Event.Context
import BinaryLog.Event.Control
import BinaryLog.Event.FormatDescription
import BinaryLog.Event.Gtid
import BinaryLog.Event.Header
import BinaryLog.Event.Query
import BinaryLog.Event.Rows
import BinaryLog.Event.TableMap
import BinaryLog.Payload.Header

namespace BinaryLog

set_option autoImplicit false

open Wire

/-- A body between header and checksum. -/
structure Framed (β : Type) where
  header : EventHeader
  body : β
  crc32 : UInt32
deriving DecidableEq

/-- A transaction: its header, its bytes as they are stored, and the events that these hold. -/
structure TransactionPayload (ε : Type) where
  header : PayloadHeader
  payload : Bytes
  events : List ε
deriving DecidableEq

def TransactionPayload.encode {ε : Type} (p : TransactionPayload ε) : Bytes :=
  p.header.encode ++ p.payload

inductive Body
  | query (q : Query)
  | stop
  | rotate (e : Rotate)
  | intvar (e : Intvar)
  | rand (e : Rand)
  | userVar (e : UserVar)
  | formatDescription (d : FormatDescription)
  | xid (e : Xid)
  | tableMap (e : TableMapEvent)
  | incident (e : Incident)
  | heartbeat (e : Heartbeat)
  | rowsQuery (e : RowsQuery)
  | writeRows (e : RowsEvent)
  | updateRows (e : RowsEvent)
  | deleteRows (e : RowsEvent)
  | gtid (e : GtidEvent)
  | anonymousGtid (e : GtidEvent)
  | previousGtids (e : PreviousGtids)
  | transactionPayload (p : TransactionPayload (Framed Body))
  | unknown (content : Bytes)

abbrev Event := Framed Body

abbrev Transaction := TransactionPayload Event

/-! ## Equality -/

mutual

/-- Whether two bodies are the same, embedded events included. -/
def Body.same : Body → Body → Bool
  | .query a, .query b => a == b
  | .stop, .stop => true
  | .rotate a, .rotate b => a == b
  | .intvar a, .intvar b => a == b
  | .rand a, .rand b => a == b
  | .userVar a, .userVar b => a == b
  | .formatDescription a, .formatDescription b => a == b
  | .xid a, .xid b => a == b
  | .tableMap a, .tableMap b => a == b
  | .incident a, .incident b => a == b
  | .heartbeat a, .heartbeat b => a == b
  | .rowsQuery a, .rowsQuery b => a == b
  | .writeRows a, .writeRows b => a == b
  | .updateRows a, .updateRows b => a == b
  | .deleteRows a, .deleteRows b => a == b
  | .gtid a, .gtid b => a == b
  | .anonymousGtid a, .anonymousGtid b => a == b
  | .previousGtids a, .previousGtids b => a == b
  | .transactionPayload ⟨h, p, es⟩, .transactionPayload ⟨h', p', es'⟩ =>
    h == h' && p == p' && Body.sameAll es es'
  | .unknown a, .unknown b => a == b
  | _, _ => false

/-- Whether two rows of events are the same. -/
def Body.sameAll : List (Framed Body) → List (Framed Body) → Bool
  | [], [] => true
  | ⟨h, b, c⟩ :: es, ⟨h', b', c'⟩ :: es' =>
    h == h' && Body.same b b' && c == c' && Body.sameAll es es'
  | _, _ => false

end

/-! ## Writing -/

/-- The written form of a body.  Events of some types are never written. -/
def Body.encode : Body → Except Violation Bytes
  | .query q => q.encode
  | .rotate e => .ok e.encode
  | .intvar e => .ok e.encode
  | .rand e => .ok e.encode
  | .formatDescription d => d.encode
  | .xid e => .ok e.encode
  | .tableMap e => .ok e.encode
  | .rowsQuery e => .ok e.encode
  | .writeRows e => .ok e.encode
  | .updateRows e => .ok e.encode
  | .deleteRows e => .ok e.encode
  | .gtid e => .ok e.encode
  | .anonymousGtid e => .ok e.encode
  | .transactionPayload p => .ok p.encode
  | _ => .error .readOnly

/-- An event with the given body, its header's length set to what is written.  The checksum is
that of header and body. -/
def EventHeader.frame (h : EventHeader) (body : Bytes) (checksum : Bool) :
    Except Violation Bytes :=
  let length := size + body.length + (if checksum then Crc32.size else 0)
  if length < 2 ^ 32 then
    let front := { h with eventLength := .ofNat length }.encode ++ body
    .ok (if checksum then front ++ Word.bytes (Crc32.checksum front) else front)
  else .error (.eventTooLarge length)

namespace Event

def type (e : Event) : EventType := e.header.type

def encode (e : Event) (checksum : Bool) : Except Violation Bytes := do
  let body ← e.body.encode
  e.header.frame body checksum

/-- Writes an event behind `out`: the number of bytes written or why none were, and the buffer
afterwards. -/
def appendTo (out : Bytes) (e : Event) (checksum : Bool) : Except Violation Nat × Bytes :=
  match e.encode checksum with
  | .ok bs => (.ok bs.length, out ++ bs)
  | .error v => (.error v, out)

end Event

/-! ## Data types -/

/-- The types of data that bodies carry; some serve several event types. -/
inductive DataType
  | query
  | stop
  | rotate
  | intvar
  | rand
  | userVar
  | formatDescription
  | xid
  | tableMap
  | incident
  | heartbeat
  | rowsQuery
  | rows
  | gtid
  | previousGtids
  | transactionPayload
  | unknown
deriving DecidableEq, Repr

/-- The data of a type. -/
def DataType.Data : DataType → Type
  | query => Query
  | stop => Unit
  | rotate => Rotate
  | intvar => Intvar
  | rand => Rand
  | userVar => UserVar
  | formatDescription => FormatDescription
  | xid => Xid
  | tableMap => TableMapEvent
  | incident => Incident
  | heartbeat => Heartbeat
  | rowsQuery => RowsQuery
  | rows => RowsEvent
  | gtid => GtidEvent
  | previousGtids => PreviousGtids
  | transactionPayload => Transaction
  | unknown => Bytes

/-- The type and the data of a body. -/
def Body.data : Body → (t : DataType) × t.Data
  | .query q => ⟨.query, q⟩
  | .stop => ⟨.stop, ()⟩
  | .rotate e => ⟨.rotate, e⟩
  | .intvar e => ⟨.intvar, e⟩
  | .rand e => ⟨.rand, e⟩
  | .userVar e => ⟨.userVar, e⟩
  | .formatDescription d => ⟨.formatDescription, d⟩
  | .xid e => ⟨.xid, e⟩
  | .tableMap e => ⟨.tableMap, e⟩
  | .incident e => ⟨.incident, e⟩
  | .heartbeat e => ⟨.heartbeat, e⟩
  | .rowsQuery e => ⟨.rowsQuery, e⟩
  | .writeRows e => ⟨.rows, e⟩
  | .updateRows e => ⟨.rows, e⟩
  | .deleteRows e => ⟨.rows, e⟩
  | .gtid e => ⟨.gtid, e⟩
  | .anonymousGtid e => ⟨.gtid, e⟩
  | .previousGtids e => ⟨.previousGtids, e⟩
  | .transactionPayload p => ⟨.transactionPayload, p⟩
  | .unknown content => ⟨.unknown, content⟩

/-- The event with its body as data of type `t`. -/
def Event.as (t : DataType) (e : Event) : Except Error (Framed t.Data) :=
  match e.body.data with
  | ⟨t', d⟩ =>
    if h : t' = t then .ok { header := e.header, body := h ▸ d, crc32 := e.crc32 }
    else .error (.wrongType e.type)

end BinaryLog
