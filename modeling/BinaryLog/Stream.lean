/-
# BinaryLog.Stream -- events cut from a stream and decoded

`Cut` is what the next bytes of a source are: an event, complete but not decoded yet, the end
between two events, something that is no event, or a fault of the source.  `cut` takes a
header and then as many bytes as the header says, and never looks past them.

`Event.decodeWith` decodes one event from its bytes; how a transaction payload is decoded is
its parameter.  Whoever decodes events has options, which decoding may change: a format description
that is accepted sets the checksum of the events that follow it.  So every way out of decoding comes
with the options behind it.

`EventStream.nextWith` cuts the next event of a source and decodes it, and `Event.parseWith` decodes
the event that a byte string is.
-/
import BinaryLog.Event
import BinaryLog.Options
import BinaryLog.Source

namespace BinaryLog

set_option autoImplicit false

open Wire

/-! ## Cutting -/

inductive Cut
  | event (header : EventHeader) (raw : Bytes)
  | finished
  | refused (error : Error)
  | fault (text : String)

/-- Refuses a header whose length is below the least one. -/
def EventHeader.checkLength (h : EventHeader) (least : Nat) : Except Error Unit :=
  if h.eventLength.toNat < least then .error (.invalidFormat (.eventTooShort h.eventLength least))
  else .ok ()

/-- The buffer for an event of which the header is there: large events make it grow. -/
def EventHeader.buffer (h : EventHeader) : Buffer :=
  .new EventHeader.size (min h.eventLength.toNat 65536)

/-- The rest of the event whose header is `head`. -/
def cutBody (least : Nat) (head : Bytes) (s : Source) : Cut × Source :=
  match EventHeader.read head with
  | .error e _ => (.refused (.parse e), s)
  | .ok header _ =>
    match header.checkLength least with
    | .error e => (.refused e, s)
    | .ok () =>
      match s.take (.growing header.buffer) header.dataLength with
      | (.error text, s) => (.fault text, s)
      | (.ok body, s) =>
        let got := body.length
        let raw := head ++ body
        if got < header.dataLength then
          (.refused (.parse (.incomplete raw (some (header.dataLength - got)))), s)
        else (.event header raw, s)

/-- What comes next from a source whose events have at least the given length. -/
def cut (least : Nat) (s : Source) : Cut × Source :=
  match s.fill EventHeader.size with
  | (.error text, s) => (.fault text, s)
  | (.ok head, s) =>
    let got := head.length
    if got = 0 then (.finished, s)
    else if got < EventHeader.size then
      (.refused (.parse (.incomplete head (some (EventHeader.size - got)))), s)
    else cutBody least head s

/-! ## Decoding -/

/-- A read of a part of an event. -/
def Decode.ofRead {α : Type} (r : Read α) : Decode α := r.adaptExcept .parse

/-- The body of an event of the given type, apart from format descriptions. -/
def Body.readWith (payload : Decode Transaction) : EventType → Decode Body
  | .query => .ofRead (.query <$> Query.read)
  | .stop => return .stop
  | .rotate => .ofRead (.rotate <$> Rotate.read)
  | .intvar => .ofRead (.intvar <$> Intvar.read)
  | .rand => .ofRead (.rand <$> Rand.read)
  | .userVar => .ofRead (.userVar <$> UserVar.read)
  | .xid => .ofRead (.xid <$> Xid.read)
  | .tableMap => .ofRead (.tableMap <$> TableMapEvent.read)
  | .incident => .ofRead (.incident <$> Incident.read)
  | .heartbeat => .ofRead (.heartbeat <$> Heartbeat.read)
  | .rowsQuery => .ofRead (.rowsQuery <$> RowsQuery.read)
  | .writeRows => .ofRead (.writeRows <$> RowsEvent.read)
  | .updateRows => .ofRead (.updateRows <$> RowsEvent.read)
  | .deleteRows => .ofRead (.deleteRows <$> RowsEvent.read)
  | .gtid => .ofRead (.gtid <$> GtidEvent.read)
  | .anonymousGtid => .ofRead (.anonymousGtid <$> GtidEvent.read)
  | .previousGtids => .ofRead (.previousGtids <$> PreviousGtids.read)
  | .transactionPayload => .transactionPayload <$> payload
  | _ => .unknown <$> .ofRead Read.rest

/-- The value of a read of `bs`, whatever it leaves unread. -/
def Decode.value {α : Type} (r : Decode α) (bs : Bytes) : Except Error α :=
  match r bs with
  | .ok a _ => .ok a
  | .error e _ => .error e

/-- The checksum in the last four bytes, compared with that of the bytes in front of them if
checksums are validated. -/
def verifyChecksum (o : Options) (raw : Bytes) : Except Error UInt32 :=
  let front := raw.length - Crc32.size
  let expected : UInt32 := Word.ofBytes (raw.drop front)
  let actual := Crc32.checksum (raw.take front)
  if o.validate ∧ expected ≠ actual then .error (.checksumMismatch expected actual)
  else .ok expected

/-- The checksum behind a format description, which says itself whether there is one. -/
def FormatDescription.trailer (d : FormatDescription) (rest : Bytes) (o : Options) (raw : Bytes) :
    Except Error UInt32 :=
  if d.checksumEnabled then
    if rest.length < Crc32.size then .error (.invalidFormat .missingChecksum)
    else verifyChecksum o raw
  else .ok 0

/-- A format description that is accepted says whether the events behind it have checksums. -/
def decodeFormatDescription (o : Options) (header : EventHeader) (raw : Bytes) :
    Except Error Event × Options :=
  match FormatDescription.read (raw.drop EventHeader.size) with
  | .error e _ => (.error (.parse e), o)
  | .ok d rest =>
    match d.trailer rest o raw with
    | .error e => (.error e, o)
    | .ok crc32 =>
      (.ok { header, body := .formatDescription d, crc32 },
        { o with checksum := d.checksumEnabled })

/-- An event of any other type ends with a checksum if the options say so. -/
def decodeOrdinary (payload : Decode Transaction) (o : Options) (header : EventHeader)
    (raw : Bytes) : Except Error Event :=
  if o.checksum then do
    let crc32 ← verifyChecksum o raw
    let data := (raw.take (raw.length - Crc32.size)).drop EventHeader.size
    let body ← (Body.readWith payload header.type).value data
    return { header, body, crc32 }
  else do
    let body ← (Body.readWith payload header.type).value (raw.drop EventHeader.size)
    return { header, body, crc32 := 0 }

/-- The event with these bytes, of which `header` was read, and the options behind it. -/
def Event.decodeWith (payload : Decode Transaction) (o : Options) (header : EventHeader)
    (raw : Bytes) : Except Error Event × Options :=
  if header.type = .formatDescription then decodeFormatDescription o header raw
  else (decodeOrdinary payload o header raw, o)

/-- The event that a byte string is, and the options behind it. -/
def Event.parseWith (payload : Decode Transaction) (o : Options) (raw : Bytes) :
    Except Error Event × Options :=
  match EventHeader.read raw with
  | .error e _ => (.error (.parse e), o)
  | .ok header _ =>
    match header.checkLength o.leastLength with
    | .error e => (.error e, o)
    | .ok () =>
      let length := raw.length
      if length ≠ header.eventLength.toNat then
        (.error (.invalidFormat (.lengthMismatch header.eventLength length)), o)
      else decodeWith payload o header raw

/-! ## Streams -/

structure EventStream where
  options : Options
  source : Source

/-- The next event, or none at the end, and the stream behind it. -/
def EventStream.nextWith (payload : Decode Transaction) (s : EventStream) :
    Except Error (Option Event) × EventStream :=
  match cut s.options.leastLength s.source with
  | (.finished, source) => (.ok none, { s with source })
  | (.refused e, source) => (.error e, { s with source })
  | (.fault text, source) => (.error (.io text), { s with source })
  | (.event header raw, source) =>
    let (result, options) := Event.decodeWith payload s.options header raw
    (some <$> result, { options, source })

end BinaryLog
