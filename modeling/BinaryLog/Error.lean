/-
# BinaryLog.Error -- why an event, a stream or a payload cannot be decoded

`FormatFault` lists what is wrong with the frame of an event or with the start of a file,
`HeaderFault` what is missing in the header of a transaction payload.  A failure inside an
embedded event carries the index of that event and its cause.  `message` is the text of
an error.
-/
import BinaryLog.Wire.Error
import BinaryLog.Event.Type

namespace BinaryLog

set_option autoImplicit false

open Wire

inductive FormatFault
  | eventTooShort (length : UInt32) (least : Nat)
  | lengthMismatch (declared : UInt32) (actual : Nat)
  | missingChecksum
  | badMagic (found : Bytes)
deriving DecidableEq, Repr

def FormatFault.message : FormatFault → String
  | eventTooShort n least => s!"event length {n} less than {least}"
  | lengthMismatch n actual => s!"event length mismatch: header={n}, actual={actual}"
  | missingChecksum => "missing checksum of format description event"
  | badMagic found => "not a valid binary log: magic=" ++ found.hex

inductive HeaderFault
  | valueIncomplete (field : UInt32) (needed : Option Nat)
  | unknownFieldTooLong (field length : UInt32) (left : Nat)
deriving DecidableEq, Repr

def HeaderFault.message : HeaderFault → String
  | valueIncomplete f n => s!"value of field {f} incomplete: needed=" ++ neededText n
  | unknownFieldTooLong f n left =>
    s!"unknown field {f} declares {n} bytes but {left} remain"

inductive Error
  | invalidFormat (fault : FormatFault)
  | wrongType (type : EventType)
  | checksumMismatch (expected actual : UInt32)
  | truncatedHeader (fault : HeaderFault)
  | truncatedPayload (expected : UInt32) (actual : Nat)
  | payloadTooLarge (size : UInt32)
  | unsupportedCompression (code : UInt32)
  | corruptCompressedData (fault : String)
  | subEvent (index : Nat) (cause : Error)
  | notUtf8 (fault : Text.Utf8.Fault)
  | parse (cause : ReadError)
  | io (fault : String)
  | nestedTooDeep
deriving DecidableEq, Repr

def Error.message : Error → String
  | invalidFormat f => "invalid binlog format: " ++ f.message
  | wrongType t => "binlog event error: invalid conversion from " ++ t.name
  | checksumMismatch e a => s!"binlog checksum mismatch: expected={e}, actual={a}"
  | truncatedHeader f => "truncated payload header: " ++ f.message
  | truncatedPayload e a => s!"truncated payload: expected={e}, actual={a}"
  | payloadTooLarge n => s!"payload too large: {n}"
  | unsupportedCompression c => s!"unsupported compression type: {c}"
  | corruptCompressedData f => "corrupt compressed data: " ++ f
  | subEvent i c => s!"sub event {i} decode error: " ++ c.message
  | notUtf8 f => "utf8 string error: " ++ f.message
  | parse c => "parse error: " ++ c.message
  | io f => "io: " ++ f
  | nestedTooDeep => "payloads are nested too deep"

end BinaryLog
