/-
# BinaryLog.Zstd.Fault -- why compressed data cannot be decompressed
-/

namespace BinaryLog.Zstd

set_option autoImplicit false

inductive Fault
  | unknownFrame
  | incompleteFrame
  | unsupportedParameter
  | dictionaryMismatch
  | windowTooLarge
  | checksumMismatch
  /-- Content does not fit into the room that there is for it. -/
  | noRoom
  /-- A section is shorter, or a block longer, than it may be. -/
  | wrongSize
  /-- Literals in the code of an earlier block of a frame that has had none. -/
  | missingCode
  /-- Too few literals for four streams. -/
  | literalsHeader
  | corrupted
deriving DecidableEq, Repr

def Fault.message : Fault → String
  | unknownFrame => "Unknown frame descriptor"
  | incompleteFrame => "incomplete frame"
  | unsupportedParameter => "Unsupported frame parameter"
  | dictionaryMismatch => "Dictionary mismatch"
  | windowTooLarge => "Frame requires too much memory for decoding"
  | checksumMismatch => "Restored data doesn't match checksum"
  | noRoom => "Destination buffer is too small"
  | wrongSize => "Src size is incorrect"
  | missingCode => "Dictionary is corrupted"
  | literalsHeader => "Header of Literals' block doesn't respect format specification"
  | corrupted => "Data corruption detected"

end BinaryLog.Zstd
