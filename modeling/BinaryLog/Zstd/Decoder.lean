/-
# BinaryLog.Zstd.Decoder -- reading decompressed bytes piece by piece

A `Decoder` answers reads of so many bytes at most; a reply of none is the end of the input,
which may come between frames only.

A frame that is there as a whole and whose declared content fits into the read is decoded in one
go.  Any other frame is decoded block by block through a buffer.  A read first takes what is
left in the buffer, and then that is all.  Otherwise it runs on until a block does not fit, the
frame ends, or the input does; so it also meets a fault right behind the bytes that fill it, and a
read that meets a fault delivers nothing.
-/
import BinaryLog.Bytes
import BinaryLog.Zstd.Frame

namespace BinaryLog.Zstd

set_option autoImplicit false

/-! ## Buffers -/

/-- The sizes of the two buffers: for a block, and for content not yet delivered and content that
copies may reach back to. -/
structure Buffers where
  block : Nat
  content : Nat

def Buffers.new : Buffers where
  block := 0
  content := 0

/-- What the frames of a window need, if their content is no larger than `contentSize`. -/
def Buffers.needed (window limit : Nat) (contentSize : Option Nat) : Buffers :=
  let window := max window minWindow
  let most := window + 2 * min (min window maxBlock) limit + 2 * Room.margin
  { block := max limit 4
    content := match contentSize with
      | some size => min size most
      | none => most }

/-- Buffers stay as they are if they are large enough. -/
def Buffers.fit (b needed : Buffers) : Buffers :=
  if b.block < needed.block ∨ b.content < needed.content then needed else b

/-! ## A frame on its way -/

/-- What comes next in a frame. -/
inductive Part
  | block
  | checksum
  /-- Nothing: the frame has ended. -/
  | over
  /-- Nothing: the input has ended within a stored block. -/
  | cutOff
deriving DecidableEq

structure OpenFrame where
  header : FrameHeader
  part : Part
  /-- The byte where that part starts. -/
  next : Nat
  memory : Memory
  segments : Segments
  /-- The content up to now. -/
  content : ByteArray
  /-- How much of it was delivered. -/
  delivered : Nat

namespace OpenFrame

/-- The frame with the given header, before its first block. -/
def new (header : FrameHeader) : OpenFrame where
  header
  part := .block
  next := header.next
  memory := .new
  segments := { earlier := 0, current := 0 }
  content := .empty
  delivered := 0

/-- Delivers content up to position `stop`.  When all of it is delivered and the buffer has no room
for one more block behind it, the content goes on at the start of the buffer. -/
def deliver (f : OpenFrame) (buffer stop : Nat) : OpenFrame :=
  let size := f.content.size
  let delivered := min stop size
  let full := buffer < size - f.segments.current + f.header.blockLimit
  if delivered = size ∧ f.header.contentSize.all (buffer < ·) ∧ full then
    { f with delivered, segments := { earlier := f.segments.current, current := size } }
  else { f with delivered }

/-- What comes behind a block. -/
def partAfter (f : OpenFrame) (b : BlockHeader) : Part :=
  if ¬ b.isLast then .block else if f.header.hasChecksum then .checksum else .over

/-- The frame behind a block with which its content has become `content`. -/
def endBlock (f : OpenFrame) (b : BlockHeader) (content : ByteArray) (memory : Memory) :
    Except Fault OpenFrame :=
  let part := f.partAfter b
  if b.isLast ∧ ¬ f.header.allows content.size then .error .corrupted
  else .ok { f with part, next := f.next + BlockHeader.width + b.written, memory, content }

/-- The frame behind a block whose content `room` has to hold.  Of a stored block that the input
cuts off there is what is left, and then the input has ended. -/
def decodeContent (f : OpenFrame) (data : ByteArray) (room : Room) (b : BlockHeader) :
    Except Fault OpenFrame :=
  let first := f.next + BlockHeader.width
  let left := data.size - first
  match b.type with
  | .stored =>
    let there := min b.size left
    if room.free < there then .error .noRoom
    else
      let content := f.content ++ data.extract first (first + there)
      if there < b.size then .ok { f with part := .cutOff, next := data.size, content }
      else f.endBlock b content f.memory
  | .repeated =>
    if room.free < b.size then .error .noRoom
    else if room.limit < b.size then .error .corrupted
    else f.endBlock b (f.content ++ ⟨Array.replicate b.size (octetAt data first)⟩) f.memory
  | .compressed =>
    let before := f.content.size
    match decodeBlock data first (first + b.size) room f.segments f.memory f.content with
    | .error e => .error e
    | .ok (content, memory) =>
      if room.limit < content.size - before then .error .corrupted
      else f.endBlock b content memory
  | .reserved => .error .corrupted

/-- The frame behind its next block, unless the input ends in front of it. -/
def block (f : OpenFrame) (data : ByteArray) (buffer : Nat) : Except Fault (Option OpenFrame) :=
  let b := BlockHeader.read data f.next
  let first := f.next + BlockHeader.width
  let limit := f.header.blockLimit
  let room : Room := { free := buffer - (f.content.size - f.segments.current), limit, roomy := false }
  if data.size < first then .ok none
  else if b.type = .reserved ∨ limit < b.written then .error .corrupted
  else if b.written = 0 then .ok (some { f with part := f.partAfter b, next := first })
  else if data.size < first + (if b.type = .stored then 1 else b.written) then .ok none
  else some <$> f.decodeContent data room b

/-- Where a run through a frame stops. -/
inductive Stop
  /-- In front of content that does not fit any more. -/
  | full
  /-- At the end of the frame. -/
  | ended
  /-- At the end of the input. -/
  | cutOff
deriving DecidableEq

/-- Runs on through a frame of which all content is delivered, and delivers what follows up to
position `stop`. -/
def run (data : ByteArray) (buffer stop : Nat) : Nat → OpenFrame → Except Fault (Stop × OpenFrame)
  | 0, f => .ok (.cutOff, f)
  | fuel + 1, f =>
    match f.part with
    | .over => .ok (.ended, f)
    | .cutOff => .ok (.cutOff, f)
    | .checksum =>
      if data.size < f.next + 4 then .ok (.cutOff, f)
      else if hashMatches data f.next f.content then
        .ok (.ended, { f with part := .over, next := f.next + 4 })
      else .error .checksumMismatch
    | .block =>
      match f.block data buffer with
      | .error e => .error e
      | .ok none => .ok (.cutOff, f)
      | .ok (some f) =>
        let f := f.deliver buffer stop
        if f.delivered < f.content.size then .ok (.full, f) else run data buffer stop fuel f

end OpenFrame

/-! ## Inputs -/

/-- An input on its way. -/
structure Decoder where
  input : ByteArray
  buffers : Buffers
  /-- The byte where the next frame starts, when none is open. -/
  next : Nat
  frame : Option OpenFrame

namespace Decoder

def ofBytes (input : Bytes) : Decoder where
  input := ⟨input.toArray⟩
  buffers := .new
  next := 0
  frame := none

/-- Bytes from position `i` up to `stop`. -/
def slice (content : ByteArray) (i stop : Nat) : Bytes := (content.extract i stop).toList

/-- Opens the frame with the given header for decoding block by block. -/
def openFrame (buffers : Buffers) (h : FrameHeader) : Except Fault (Buffers × OpenFrame) :=
  if h.dictionary ≠ 0 then .error .dictionaryMismatch
  else if maxWindow < max h.window minWindow then .error .windowTooLarge
  else .ok (buffers.fit (.needed h.window h.blockLimit h.contentSize), .new h)

/-- How a frame is taken. -/
inductive Opening
  /-- Skipped, or decoded in one go: its content, and the byte behind it. -/
  | whole (content : ByteArray) (next : Nat)
  | inParts (frame : OpenFrame)

/-- Opens what starts at byte `i` for a read of `n` bytes. -/
def startFrame (input : ByteArray) (buffers : Buffers) (i n : Nat) :
    Except Fault (Buffers × Opening) :=
  match startAt input i with
  | .unknown => .error .unknownFrame
  | .cutOff => .error .incompleteFrame
  | .skippable =>
    let size := numberAt input (i + 4) 4
    let next := i + 8 + size
    if input.size < next then .error .incompleteFrame
    else .ok (buffers.fit (.needed 0 0 (some size)), .whole .empty next)
  | .frame =>
    match FrameHeader.read input i with
    | .error e => .error e
    | .ok h =>
      let fits := h.contentSize.any (· ≤ n)
      match if fits then h.end? input else none with
      | some next => (fun content => (buffers, .whole content next)) <$> h.decodeWhole input n
      | none => (fun (buffers, f) => (buffers, .inParts f)) <$> openFrame buffers h

/-- What a read comes to in a frame. -/
inductive Progress
  | reply (bytes : Bytes) (decoder : Decoder)
  /-- Nothing more is in the frame; the byte behind it. -/
  | behind (next : Nat)

/-- Runs on through a frame for a read of `n` bytes. -/
def runFrame (input : ByteArray) (buffers : Buffers) (n : Nat) (f : OpenFrame) :
    Except Fault Progress :=
  let start := f.delivered
  match f.run input buffers.content (start + n) (input.size + 1) with
  | .error e => .error e
  | .ok (stop, f) =>
    let bytes := slice f.content start f.delivered
    let next := f.next
    if start < f.delivered then
      let frame := if stop = .ended then none else some f
      .ok (.reply bytes { input, buffers, next, frame })
    else if stop = .ended then .ok (.behind next)
    else .error .incompleteFrame

/-- A read of `n` bytes from the frames that start at byte `i`. -/
def readFrames (input : ByteArray) (n : Nat) :
    Nat → Buffers → Nat → Except Fault (Bytes × Decoder)
  | 0, buffers, i => .ok ([], { input, buffers, next := i, frame := none })
  | fuel + 1, buffers, i =>
    if input.size ≤ i then .ok ([], { input, buffers, next := i, frame := none })
    else match startFrame input buffers i n with
      | .error e => .error e
      | .ok (buffers, .whole content next) =>
        if content.isEmpty then readFrames input n fuel buffers next
        else .ok (content.toList, { input, buffers, next, frame := none })
      | .ok (buffers, .inParts f) =>
        match runFrame input buffers n f with
        | .error e => .error e
        | .ok (.reply bytes d) => .ok (bytes, d)
        | .ok (.behind next) => readFrames input n fuel buffers next

/-- A read of `n` bytes, `n > 0`. -/
def read (d : Decoder) (n : Nat) : Except Fault (Bytes × Decoder) :=
  let { input, buffers, next, frame } := d
  let fuel := input.size + 1
  match frame with
  | none => readFrames input n fuel buffers next
  | some f =>
    let start := f.delivered
    if start < f.content.size then
      let f := f.deliver buffers.content (start + n)
      .ok (slice f.content start f.delivered, { input, buffers, next, frame := some f })
    else match runFrame input buffers n f with
      | .error e => .error e
      | .ok (.reply bytes d) => .ok (bytes, d)
      | .ok (.behind next) => readFrames input n fuel buffers next

/-- More than four times the number of bytes to come: a block that has content takes at least four
bytes of the input, and its content is smaller than `2 ^ 21` bytes. -/
def bound (d : Decoder) : Nat := 2 ^ 21 * (d.input.size + 1)

end Decoder

end BinaryLog.Zstd
