/-
# BinaryLog.Event.Gtid -- global transaction ids

`GtidEvent` gives the id of the transaction that follows and its place in the commit order,
which old servers leave out.  `GtidSet` is the set of ids that the preceding files hold:
for each server id a row of intervals.  On the wire an interval has an exclusive end; a
`GtidInterval` includes both its ends.
-/
import BinaryLog.Wire.Read

namespace BinaryLog

set_option autoImplicit false

open Wire

/-- The id of a server. -/
abbrev Sid := BitVec 128

/-! ## One transaction -/

structure GtidEvent where
  flags : UInt8
  sid : Sid
  number : UInt64
  timestampType : UInt8
  lastCommitted : UInt64
  sequenceNumber : UInt64
deriving DecidableEq, Repr

namespace GtidEvent

/-- The place in the commit order: type, last committed and sequence number.  It counts as
absent, hence zero, unless it is there as a whole. -/
def readOrder : Read (UInt8 × UInt64 × UInt64) := do
  if ← Read.holds 17 then
    let type ← Read.word UInt8
    let lastCommitted ← Read.word UInt64
    let sequenceNumber ← Read.word UInt64
    return (type, lastCommitted, sequenceNumber)
  else return (0, 0, 0)

/-- What servers append is passed over. -/
def read : Read GtidEvent := do
  let flags ← Read.word UInt8
  let sid ← Read.word Sid
  let number ← Read.word UInt64
  let (timestampType, lastCommitted, sequenceNumber) ← readOrder
  let _ ← Read.rest
  return { flags, sid, number, timestampType, lastCommitted, sequenceNumber }

def encode (e : GtidEvent) : Bytes :=
  Word.bytes e.flags ++ (Word.bytes e.sid ++ (Word.bytes e.number ++
    (Word.bytes e.timestampType ++ (Word.bytes e.lastCommitted ++ Word.bytes e.sequenceNumber))))

end GtidEvent

/-! ## Sets of transactions -/

structure GtidInterval where
  first : UInt64
  last : UInt64
deriving DecidableEq, Repr

structure GtidRange where
  sid : Sid
  intervals : List GtidInterval
deriving DecidableEq, Repr

namespace GtidRange

/-- Intervals in a row, each of which starts behind the end `last` of the one before. -/
def readIntervals (last : UInt64) : Nat → Read (List GtidInterval)
  | 0 => return []
  | n + 1 => do
    let start ← Read.word UInt64
    let stop ← Read.word UInt64
    if last < start ∧ start < stop then
      let more ← readIntervals stop n
      return { first := start, last := stop - 1 } :: more
    else .fail (.gtidInterval start stop last)

def read : Read GtidRange := do
  let sid ← Read.word Sid
  let count ← Read.word UInt64
  let intervals ← readIntervals 0 count.toNat
  return { sid, intervals }

end GtidRange

/-- Ranges in the order of appearance. -/
structure GtidSet where
  ranges : List GtidRange
deriving DecidableEq, Repr

namespace GtidSet

def size (s : GtidSet) : Nat := s.ranges.length

def isEmpty (s : GtidSet) : Bool := s.ranges.isEmpty

/-- The range of a server, if the set has any. -/
def get? (s : GtidSet) (sid : Sid) : Option GtidRange := s.ranges.find? (·.sid == sid)

/-- Ranges in a row, none of a server in `seen` and no two of one server. -/
def readRanges (seen : List Sid) : Nat → Read (List GtidRange)
  | 0 => return []
  | n + 1 => do
    let range ← GtidRange.read
    if range.sid ∈ seen then .fail (.duplicateSid range.sid)
    else
      let more ← readRanges (range.sid :: seen) n
      return range :: more

def read : Read GtidSet := do
  let count ← Read.word UInt64
  GtidSet.mk <$> readRanges [] count.toNat

end GtidSet

structure PreviousGtids where
  payload : Bytes
deriving DecidableEq, Repr

namespace PreviousGtids

def read : Read PreviousGtids := PreviousGtids.mk <$> Read.rest

/-- The set that the payload holds. -/
def set (e : PreviousGtids) : Except ReadError GtidSet := GtidSet.read.value e.payload

end PreviousGtids

end BinaryLog
