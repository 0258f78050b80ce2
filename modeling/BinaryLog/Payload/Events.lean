/-
# BinaryLog.Payload.Events -- the events inside a transaction payload

The decompressed bytes of a payload are a stream of events without checksums.  `EmbeddedEvents`
runs through it and stops behind the first failure.  The stream does not tell why it failed, so the
source is asked: a read that failed is a fault of the compressed data, and any other failure carries
the index of the event that failed.

Payloads can hold payloads, so decoding one calls itself.  `Transaction.decodeTower bits` follows
all but `2 ^ bits` levels of nesting, for which it takes the bits one by one and only as far as
the nesting goes; it refuses what is nested deeper.  `Transaction.decode` follows as many levels
as there can be payloads, so that it refuses only what would never end, a payload that lies within
itself.
-/
import BinaryLog.Stream

namespace BinaryLog

set_option autoImplicit false

open Wire

/-! ## Running through a payload -/

structure EmbeddedEvents where
  /-- The events to come; none once the end or a failure was reached. -/
  stream : Option EventStream
  index : Nat

namespace EmbeddedEvents

def new (compression : Compression) (payload : Bytes) : Except Error EmbeddedEvents := do
  let source ← compression.source payload
  let stream := if payload.isEmpty then none else some { options := {}, source }
  return { stream, index := 0 }

/-- The next event, or none at the end. -/
def nextWith (inner : Decode Transaction) (e : EmbeddedEvents) :
    Option (Except Error Event) × EmbeddedEvents :=
  match e.stream with
  | none => (none, e)
  | some s =>
    match s.nextWith inner with
    | (.ok (some event), s) => (some (.ok event), { stream := some s, index := e.index + 1 })
    | (.ok none, _) => (none, { e with stream := none })
    | (.error error, s) =>
      let error := match s.source.takeRaised with
        | (some text, _) => .corruptCompressedData text
        | (none, _) => .subEvent e.index error
      (some (.error error), { e with stream := none })

/-- The events to come, at most `fuel` of them, or the first failure. -/
def collectWithin (inner : Decode Transaction) : Nat → EmbeddedEvents → Except Error (List Event)
  | 0, _ => .ok []
  | fuel + 1, e =>
    match e.nextWith inner with
    | (none, _) => .ok []
    | (some (.error error), _) => .error error
    | (some (.ok event), e) => do
      let events ← collectWithin inner fuel e
      return event :: events

/-- All events to come, or the first failure. -/
def collect (inner : Decode Transaction) (e : EmbeddedEvents) : Except Error (List Event) :=
  match e.stream with
  | none => .ok []
  | some s => collectWithin inner (s.source.bound + 1) e

end EmbeddedEvents

/-! ## Payloads -/

namespace Transaction

/-- The largest payload that is taken. -/
def maxPayload : UInt32 := 0x7fffffff

/-- The bytes of a payload of the given size. -/
def readPayload (size : UInt32) : Decode Bytes := fun bs =>
  if maxPayload < size then .error (.payloadTooLarge size) bs
  else
    let payload := bs.take size.toNat
    let got := payload.length
    if got = size.toNat then .ok payload (bs.drop size.toNat)
    else .error (.truncatedPayload size got) bs

/-- The events that a payload holds. -/
def eventsWith (inner : Decode Transaction) (compression : Compression) (payload : Bytes) :
    Except Error (List Event) := do
  let events ← EmbeddedEvents.new compression payload
  events.collect inner

/-- Header, payload and embedded events; a failure in any of them fails the whole. -/
def decodeWith (inner : Decode Transaction) : Decode Transaction := do
  let header ← PayloadHeader.read
  let payload ← readPayload header.payloadSize
  match eventsWith inner header.compression payload with
  | .ok events => return { header, payload, events }
  | .error e => throw e

/-- Decodes a transaction payload by `levels`, which follows some levels of nesting, and what is
nested deeper by twice as many levels at a time, `bits` times in all. -/
def decodeTower : Nat → (Decode Transaction → Decode Transaction) → Decode Transaction
  | 0, _ => throw .nestedTooDeep
  | bits + 1, levels => levels (decodeTower bits (levels ∘ levels))

end Transaction

/-- Payloads may be nested two to this power deep.  A payload has less than `2 ^ 31` bytes, so that
there are not as many of them. -/
def nestingBits : Nat := 2 ^ 40

/-- Decodes a transaction payload that is embedded in another one. -/
def Transaction.decodeEmbedded : Decode Transaction :=
  Transaction.decodeTower nestingBits Transaction.decodeWith

/-- Decodes a transaction payload. -/
def Transaction.decode : Decode Transaction := Transaction.decodeWith Transaction.decodeEmbedded

/-- The events of a transaction, decoded again from its payload. -/
def TransactionPayload.decodeEvents (t : Transaction) : Except Error (List Event) :=
  Transaction.eventsWith Transaction.decodeEmbedded t.header.compression t.payload

/-- The next embedded event. -/
def EmbeddedEvents.next (e : EmbeddedEvents) : Option (Except Error Event) × EmbeddedEvents :=
  e.nextWith Transaction.decodeEmbedded

/-- The event that a byte string is, and the options behind it. -/
def Event.parse (o : Options) (raw : Bytes) : Except Error Event × Options :=
  Event.parseWith Transaction.decode o raw

/-- The next event of a stream, or none at its end. -/
def EventStream.next (s : EventStream) : Except Error (Option Event) × EventStream :=
  s.nextWith Transaction.decode

end BinaryLog
