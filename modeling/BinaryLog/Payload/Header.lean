/-
# BinaryLog.Payload.Header -- the header of a transaction payload

A header is a row of fields, each a type, a length and a value, all packed integers, up to the
end mark.  The values of the known types say themselves how long they are; a field of any
other type is passed over by its length.  Of several fields of one type the last counts
(`ofFields`).  A header may also end where the input does, as long as that is in front of a
value.
-/
import BinaryLog.Error
import BinaryLog.Payload.Compression
import BinaryLog.Wire.Packed

namespace BinaryLog

set_option autoImplicit false

open Wire

/-- Reads that fail for any reason a payload can be refused for. -/
abbrev Decode := EStateM Error Bytes

structure PayloadHeader where
  payloadSize : UInt32
  compressionType : UInt32
  uncompressedSize : UInt64
deriving DecidableEq, Repr

/-! ## Fields -/

inductive PayloadField
  | payloadSize (n : UInt32)
  | compressionType (code : UInt32)
  | uncompressedSize (n : UInt64)
  | unknown (type : UInt32) (content : Bytes)
deriving DecidableEq, Repr

namespace PayloadField

def payloadSize? : PayloadField → Option UInt32
  | payloadSize n => some n
  | _ => none

def compressionType? : PayloadField → Option UInt32
  | compressionType c => some c
  | _ => none

def uncompressedSize? : PayloadField → Option UInt64
  | uncompressedSize n => some n
  | _ => none

/-- What comes next in a header. -/
inductive Next
  | field (f : PayloadField)
  | endMark
  | inputEnd
deriving DecidableEq, Repr

/-- A type or a length; none, and nothing taken, if the input ends in front of its end. -/
def readTag : Decode (Option UInt32) := fun bs =>
  match Read.packed32 bs with
  | .ok n rest => .ok (some n) rest
  | .error (.incomplete _ _) rest => .ok none rest
  | .error e rest => .error (.parse e) rest

/-- The value of a field of a known type. -/
def readValue {α : Type} (type : UInt32) (value : Read α) : Decode α :=
  value.adaptExcept fun
    | .incomplete _ needed => .truncatedHeader (.valueIncomplete type needed)
    | e => .parse e

/-- The value of a field of any other type. -/
def readUnknown (type length : UInt32) : Decode Bytes := fun bs =>
  let content := bs.take length.toNat
  if content.length = length.toNat then .ok content (bs.drop length.toNat)
  else .error (.truncatedHeader (.unknownFieldTooLong type length bs.length)) bs

def read : Decode Next := do
  match ← readTag with
  | none => return .inputEnd
  | some type =>
    if type = 0 then return .endMark
    else match ← readTag with
      | none => return .inputEnd
      | some length =>
        if type = 1 then
          let n ← readValue type Read.packed32
          return .field (.payloadSize n)
        else if type = 2 then
          let code ← readValue type Read.packed32
          return .field (.compressionType code)
        else if type = 3 then
          let n ← readValue type Read.packed64
          return .field (.uncompressedSize n)
        else
          let content ← readUnknown type length
          return .field (.unknown type content)

/-- The fields of a header, at most `fuel` of them, and whether an end mark closes it. -/
def readWithin : Nat → Decode (List PayloadField × Bool)
  | 0 => return ([], false)
  | fuel + 1 => do
    match ← read with
    | .inputEnd => return ([], false)
    | .endMark => return ([], true)
    | .field f =>
      let (fs, closed) ← readWithin fuel
      return (f :: fs, closed)

/-- The fields of a header and whether an end mark closes it. -/
def readAll : Decode (List PayloadField × Bool) := fun bs => readWithin (bs.length + 1) bs

/-- A field as its type, its length and its value. -/
def encode (type : UInt32) (value : PackedInt) : Bytes :=
  (PackedInt.ofNat type.toNat).encode ++ ((PackedInt.ofNat value.width).encode ++ value.encode)

end PayloadField

/-! ## Headers -/

namespace PayloadHeader

/-- The last field of each type counts.  Without a compression type the payload is zstd, without
an uncompressed size that is the size of the payload. -/
def ofFields (fs : List PayloadField) : PayloadHeader :=
  let payloadSize := (fs.filterMap PayloadField.payloadSize?).getLast?.getD 0
  { payloadSize
    compressionType := (fs.filterMap PayloadField.compressionType?).getLast?.getD 0
    uncompressedSize :=
      (fs.filterMap PayloadField.uncompressedSize?).getLast?.getD payloadSize.toUInt64 }

def read : Decode PayloadHeader := (fun (fs, _) => ofFields fs) <$> PayloadField.readAll

def compression (h : PayloadHeader) : Compression := .ofCode h.compressionType

def encode (h : PayloadHeader) : Bytes :=
  PayloadField.encode 1 (.ofNat h.payloadSize.toNat) ++
    (PayloadField.encode 2 (.ofNat h.compressionType.toNat) ++
      (PayloadField.encode 3 (.ofUInt64 h.uncompressedSize) ++ (PackedInt.ofNat 0).encode))

end PayloadHeader

end BinaryLog
