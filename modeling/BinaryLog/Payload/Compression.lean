/-
# BinaryLog.Payload.Compression -- how a payload is stored

Code 0 is zstd, and so is 1; code 255 stands for bytes as they are.  `source` opens a payload
for reading; a compressed one is decompressed as it is read.
-/
import BinaryLog.Error
import BinaryLog.Source

namespace BinaryLog

set_option autoImplicit false

inductive Compression
  | zstd
  | stored
  | unknown (code : UInt32)
deriving DecidableEq, Repr

namespace Compression

def ofCode (code : UInt32) : Compression :=
  if code = 0 ∨ code = 1 then zstd
  else if code = 255 then stored
  else unknown code

def code : Compression → UInt32
  | zstd => 0
  | stored => 255
  | unknown c => c

/-- The decompressed bytes of a payload. -/
def source (payload : Bytes) : Compression → Except Error Source
  | zstd => .ok (.ofCompressed payload)
  | stored => .ok (.ofBytes payload)
  | unknown c => .error (.unsupportedCompression c)

end Compression

end BinaryLog
