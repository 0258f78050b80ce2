/-
# BinaryLog.File -- log files

A log file is a magic number and then a stream of events.  A `LogFile` can be read event by
event, failures included, or run through up to the first failure (`iterate`).
-/
import BinaryLog.Payload.Events

namespace BinaryLog

set_option autoImplicit false

structure LogFile where
  stream : EventStream
  /-- Whether a run through the file has reached its end or a failure. -/
  done : Bool

namespace LogFile

/-- What every log file starts with. -/
def magic : Bytes := [0xfe, 0x62, 0x69, 0x6e]

/-- Takes the magic number off a source. -/
def openAt (options : Options) (source : Source) : Except Error LogFile :=
  match source.fill magic.length with
  | (.error text, _) => .error (.io text)
  | (.ok found, source) =>
    if found = magic then .ok { stream := { options, source }, done := false }
    else .error (.invalidFormat (.badMagic found))

/-- The next event, or none at the end, with payloads decoded by `payload`. -/
def readEventWith (payload : Decode Transaction) (f : LogFile) :
    Except Error (Option Event) × LogFile :=
  match f.stream.nextWith payload with
  | (result, stream) => (result, { f with stream })

/-- The next event of a run that stops behind the first failure. -/
def iterateWith (payload : Decode Transaction) (f : LogFile) :
    Option (Except Error Event) × LogFile :=
  if f.done then (none, f)
  else match f.readEventWith payload with
    | (.ok (some e), f) => (some (.ok e), f)
    | (.ok none, f) => (none, { f with done := true })
    | (.error e, f) => (some (.error e), { f with done := true })

def readEvent (f : LogFile) : Except Error (Option Event) × LogFile :=
  f.readEventWith Transaction.decode

def iterate (f : LogFile) : Option (Except Error Event) × LogFile :=
  f.iterateWith Transaction.decode

end LogFile

end BinaryLog
