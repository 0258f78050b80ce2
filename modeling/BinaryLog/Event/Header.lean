/-
# BinaryLog.Event.Header -- the nineteen bytes in front of every event

Time, type, server, length of the whole event, position of the next one and flags, in this
order.  `read_encode`: a header followed by anything is read back.
-/
import BinaryLog.Event.Type
import BinaryLog.Flags
import BinaryLog.Wire.Read

namespace BinaryLog

set_option autoImplicit false

open Wire

structure EventHeader where
  timestamp : UInt32
  typeCode : UInt8
  serverId : UInt32
  /-- The length of the event, header, body and checksum. -/
  eventLength : UInt32
  nextPosition : UInt32
  flags : Flags (0x03ff : UInt16)
deriving DecidableEq

namespace EventHeader

/-- The number of bytes of a header. -/
def size : Nat := 19

/-- The header of an event whose length is not known yet. -/
def new (type : EventType) (timestamp serverId : UInt32) : EventHeader where
  timestamp := timestamp
  typeCode := type.code
  serverId := serverId
  eventLength := 19
  nextPosition := 0
  flags := .truncate 0

def type (h : EventHeader) : EventType := .ofCode h.typeCode

/-- The number of bytes behind the header, with the checksum if there is one. -/
def dataLength (h : EventHeader) : Nat := h.eventLength.toNat - size

def read : Read EventHeader := do
  let timestamp ← Read.word UInt32
  let typeCode ← Read.word UInt8
  let serverId ← Read.word UInt32
  let eventLength ← Read.word UInt32
  let nextPosition ← Read.word UInt32
  let flags ← Read.word UInt16
  return { timestamp, typeCode, serverId, eventLength, nextPosition, flags := .truncate flags }

def encode (h : EventHeader) : Bytes :=
  Word.bytes h.timestamp ++ (Word.bytes h.typeCode ++ (Word.bytes h.serverId ++
    (Word.bytes h.eventLength ++ (Word.bytes h.nextPosition ++ Word.bytes h.flags.bits))))

theorem length_encode (h : EventHeader) : h.encode.length = size := by
  simp [encode, Word.width, size]

theorem read_encode (h : EventHeader) (r : Bytes) : read (h.encode ++ r) = .ok h r := by
  simp [read, encode, bind, EStateM.bind, pure, EStateM.pure, Read.word_append]

end EventHeader

end BinaryLog
