/-
# BinaryLog.Options -- how events are framed and checked

`checksum` says whether events end with a checksum; it follows the format descriptions that
are read, so it only has to be set for a stream that starts without one.  `validate` says
whether a checksum that is there is compared.
-/
import BinaryLog.Crc32
import BinaryLog.Event.Header

namespace BinaryLog

set_option autoImplicit false

structure Options where
  checksum : Bool := false
  validate : Bool := true
deriving DecidableEq, Repr

namespace Options

/-- The least length of an event. -/
def leastLength (o : Options) : Nat :=
  if o.checksum then EventHeader.size + Crc32.size else EventHeader.size

end Options

end BinaryLog
