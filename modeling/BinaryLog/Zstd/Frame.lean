/-
# BinaryLog.Zstd.Frame -- frames, and frames that are decoded as a whole

An input is a row of frames; skippable frames count for nothing.  A frame is a header, blocks,
and the hash of its content if the header says so.

`FrameHeader.end?` finds the end of a frame without decoding it.  `FrameHeader.decodeWhole`
decodes all blocks of a frame in one go, into room of a given size.
-/
import BinaryLog.Zstd.Block
import BinaryLog.Zstd.XxHash

namespace BinaryLog.Zstd

set_option autoImplicit false

/-! ## Headers -/

/-- The number in front of a frame. -/
def magic : Nat := 0xFD2FB528

/-- The number in front of a skippable frame, whose last four bits are free. -/
def skippableMagic : Nat := 0x184D2A50

/-- The largest window for which a frame is decompressed. -/
def maxWindow : Nat := 1 <<< 27 + 1

/-- The least window that is kept. -/
def minWindow : Nat := 1 <<< 10

/-- The most bytes that a block may have, whatever the window. -/
def maxBlock : Nat := 1 <<< 17

/-- What starts at a place where a frame may start. -/
inductive Start
  | frame
  | skippable
  | cutOff
  | unknown

/-- Tells a frame by its first four bytes.  Fewer bytes are enough to see that none starts. -/
def startAt (data : ByteArray) (i : Nat) : Start :=
  let there := min 4 (data.size - i)
  let number := numberAt data i there
  let mask := 1 <<< (8 * there)
  let isFrame := number = magic % mask
  let isSkippable := number / 16 = skippableMagic % mask / 16
  if isFrame then if there = 4 then .frame else .cutOff
  else if isSkippable then if there = 4 then .skippable else .cutOff
  else .unknown

/-- Whether the low half of the hash of the content is in the four bytes from `i` on. -/
def hashMatches (data : ByteArray) (i : Nat) (content : ByteArray) : Bool :=
  (XxHash.hash content 0 content.size).toUInt32.toNat == numberAt data i 4

structure FrameHeader where
  dictionary : Nat
  window : Nat
  contentSize : Option Nat
  hasChecksum : Bool
  /-- The byte behind the header. -/
  next : Nat

/-- The widths that two bits select for the dictionary id. -/
def dictionaryWidth : Nat → Nat
  | 0 => 0
  | 1 => 1
  | 2 => 2
  | _ => 4

/-- The widths that two bits select for the content size; a frame of one segment always has it. -/
def contentWidth (oneSegment : Bool) : Nat → Nat
  | 0 => if oneSegment then 1 else 0
  | 1 => 2
  | 2 => 4
  | _ => 8

/-- The window of a descriptor byte: a power of two and so many eighths of it. -/
def windowOf (descriptor : Nat) : Nat :=
  let base := 1 <<< (10 + descriptor / 8)
  base + base / 8 * (descriptor % 8)

/-- The content size that stands for none. -/
def unknownSize : Nat := UInt64.size - 1

namespace FrameHeader

/-- The header of the frame that starts at byte `i`. -/
def read (data : ByteArray) (i : Nat) : Except Fault FrameHeader :=
  let descriptor := byteAt data (i + 4)
  let oneSegment := descriptor / 32 % 2 = 1
  let windowAt := i + 5
  let dictionaryAt := windowAt + (if oneSegment then 0 else 1)
  let contentAt := dictionaryAt + dictionaryWidth (descriptor % 4)
  let width := contentWidth oneSegment (descriptor / 64)
  let next := contentAt + width
  let content := numberAt data contentAt width + (if width = 2 then 256 else 0)
  if data.size ≤ i + 4 ∨ data.size < next then .error .incompleteFrame
  else if descriptor / 8 % 2 = 1 then .error .unsupportedParameter
  else if ¬ oneSegment ∧ 31 < 10 + byteAt data windowAt / 8 then .error .windowTooLarge
  else .ok {
    dictionary := numberAt data dictionaryAt (dictionaryWidth (descriptor % 4))
    window := if oneSegment then content else windowOf (byteAt data windowAt)
    contentSize := if width = 0 ∨ content = unknownSize then none else some content
    hasChecksum := descriptor / 4 % 2 = 1
    next }

/-- The most bytes that a block of the frame may have. -/
def blockLimit (h : FrameHeader) : Nat := min h.window maxBlock

/-- Whether the content may have this size. -/
def allows (h : FrameHeader) (size : Nat) : Bool := h.contentSize.all (· == size)

/-! ## The end of a frame -/

/-- The byte behind the last of the blocks from byte `i` on, if they are all there. -/
def blocksEnd? (data : ByteArray) : Nat → Nat → Option Nat
  | 0, _ => none
  | fuel + 1, i =>
    let b := BlockHeader.read data i
    let next := i + BlockHeader.width + b.written
    if data.size < next ∨ b.type = .reserved then none
    else if b.isLast then some next
    else blocksEnd? data fuel next

/-- The byte behind the frame, if all of it is there. -/
def end? (h : FrameHeader) (data : ByteArray) : Option Nat := do
  let next ← blocksEnd? data data.size h.next
  let next := next + (if h.hasChecksum then 4 else 0)
  if data.size < next then none else return next

/-! ## Frames in one go -/

/-- Appends the content of one block to `out`, which may grow to `capacity` bytes. -/
def decodeWholeBlock (h : FrameHeader) (data : ByteArray) (capacity : Nat) (b : BlockHeader)
    (first : Nat) (m : Memory) (out : ByteArray) : Except Fault (ByteArray × Memory) :=
  let free := capacity - out.size
  match b.type with
  | .stored => if free < b.size then .error .noRoom
    else .ok (out ++ data.extract first (first + b.size), m)
  | .repeated => if free < b.size then .error .noRoom
    else .ok (out ++ ⟨Array.replicate b.size (octetAt data first)⟩, m)
  | .compressed =>
    decodeBlock data first (first + b.size) { free, limit := h.blockLimit, roomy := true }
      { earlier := 0, current := 0 } m out
  | .reserved => .error .corrupted

/-- The content of the blocks from byte `i` on, behind `out`, and the byte behind them. -/
def decodeWholeBlocks (h : FrameHeader) (data : ByteArray) (capacity : Nat) :
    Nat → Nat → Memory → ByteArray → Except Fault (ByteArray × Nat)
  | 0, _, _, _ => .error .corrupted
  | fuel + 1, i, m, out =>
    let b := BlockHeader.read data i
    let first := i + BlockHeader.width
    match h.decodeWholeBlock data capacity b first m out with
    | .error f => .error f
    | .ok (out, m) =>
      let next := first + b.written
      if b.isLast then .ok (out, next) else decodeWholeBlocks h data capacity fuel next m out

/-- The content of a frame that is there as a whole, of at most `capacity` bytes. -/
def decodeWhole (h : FrameHeader) (data : ByteArray) (capacity : Nat) : Except Fault ByteArray :=
  if h.dictionary ≠ 0 then .error .dictionaryMismatch
  else do
    let (content, next) ← h.decodeWholeBlocks data capacity data.size h.next .new .empty
    if ¬ h.allows content.size then throw .corrupted
    else if h.hasChecksum ∧ ¬ hashMatches data next content then throw .checksumMismatch
    else return content

end FrameHeader

end BinaryLog.Zstd
