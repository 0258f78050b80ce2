/-
# BinaryLog.Proofs.StoredFrame -- compressed data without compression

The least that a compressor can do is to put content as it is into a frame of one stored block
(`Zstd.storedFrame`).  Such a frame delivers its content, however it is read
(`Zstd.StoredFrame.delivers`): a read that wants less than all of it leaves the rest in the open
frame, and one that wants more gets all of it and closes the frame.

What comes behind the frame decides how the content ends (`Zstd.StoredFrame.delivers_before`).  With
no frame there, but other bytes, it ends with a fault, which shows only when all of it was delivered
(`Zstd.StoredFrame.delivers_before_foreign`).
-/
import BinaryLog.Proofs.Expansion

namespace BinaryLog.Zstd

set_option autoImplicit false

/-! ## Bytes in arrays -/

theorem Decoder.slice_eq (bs : Bytes) (i stop : Nat) :
    slice ⟨bs.toArray⟩ i stop = (bs.drop i).take (stop - i) := by
  rw [slice, toList_eq]
  simp

theorem size_mk (bs : Bytes) : (ByteArray.mk bs.toArray).size = bs.length := List.size_toArray

theorem octetAt_eq (bs : Bytes) (i : Nat) : octetAt ⟨bs.toArray⟩ i = bs[i]?.getD 0 := by
  simp only [octetAt, size_mk]
  split
  · rename_i inside
    simp [ByteArray.getElem_eq_getElem_data, inside]
  · rename_i outside
    simp [Nat.le_of_not_lt outside]

theorem numberAt_eq (bs : Bytes) (i : Nat) : ∀ {width : Nat}, i + width ≤ bs.length →
    numberAt ⟨bs.toArray⟩ i width = Bytes.ofLE ((bs.drop i).take width) := by
  intro width
  induction width generalizing i with
  | zero => intro _; rfl
  | succ width ih =>
      intro there
      have inside : i < bs.length := by omega
      rw [numberAt, ih (i + 1) (by omega), List.drop_eq_getElem_cons inside, List.take_succ_cons,
        Bytes.ofLE, byteAt, octetAt_eq]
      simp [inside]

/-! ## What is no frame -/

/-- No frame starts with this byte, and no frame that is skipped. -/
def Foreign (b : UInt8) : Prop := b.toNat ≠ 0x28 ∧ b.toNat / 16 ≠ 5

/-- However few bytes of them are compared, the numbers in front of frames have their lowest one. -/
theorem magic_low : ∀ k < 4, magic % 1 <<< (8 * (k + 1)) % 256 = 0x28 ∧
    skippableMagic % 1 <<< (8 * (k + 1)) / 16 % 16 = 5 := by
  decide

/-- The first byte is enough to see that no frame starts. -/
theorem startAt_of_foreign {data : ByteArray} {i : Nat} (inside : i < data.size)
    (foreign : Foreign (octetAt data i)) : startAt data i = .unknown := by
  obtain ⟨plain, skipped⟩ := foreign
  have there : min 4 (data.size - i) = min 3 (data.size - i - 1) + 1 := by omega
  have small := (octetAt data i).toNat_lt
  simp only [startAt, there, numberAt, byteAt]
  generalize numberAt data (i + 1) (min 3 (data.size - i - 1)) = behind
  obtain ⟨magical, free⟩ := magic_low (min 3 (data.size - i - 1)) (by omega)
  have unlike : (octetAt data i).toNat + 256 * behind ≠
      magic % 1 <<< (8 * (min 3 (data.size - i - 1) + 1)) := by omega
  have unlike' : ((octetAt data i).toNat + 256 * behind) / 16 ≠
      skippableMagic % 1 <<< (8 * (min 3 (data.size - i - 1) + 1)) / 16 := by omega
  rw [if_neg unlike, if_neg unlike']

/-- Where a frame should start, and another byte is, every read fails. -/
theorem Decoder.delivers_of_foreign {d : Decoder} (closed : d.frame = none)
    (inside : d.next < d.input.size) (foreign : Foreign (octetAt d.input d.next)) :
    d.Delivers (.fault Fault.unknownFrame.message) [] := by
  obtain ⟨input, buffers, next, frame⟩ := d
  obtain rfl : frame = none := closed
  refine .intro fun n _ => ?_
  have reads : Decoder.read { input, buffers, next, frame := none } n = .error .unknownFrame := by
    simp only [Decoder.read, readFrames, if_neg (Nat.not_le_of_lt inside), startFrame,
      startAt_of_foreign inside foreign]
  rw [reads]
  exact .fault rfl

/-! ## One block as it is -/

/-- A frame with a window of 1024 bytes and one stored block. -/
def storedFrame (content : Bytes) : Bytes :=
  [0x28, 0xB5, 0x2F, 0xFD, 0, 0] ++ (Bytes.le 3 (8 * content.length + 1) ++ content)

namespace StoredFrame

/-- The frame, and bytes behind it. -/
def input (content tail : Bytes) : ByteArray := ⟨(storedFrame content ++ tail).toArray⟩

def header : FrameHeader where
  dictionary := 0
  window := 1024
  contentSize := none
  hasChecksum := false
  next := 6

def buffers : Buffers where
  block := 1024
  content := 3136

/-- The frame behind its block. -/
def filled (content : Bytes) (delivered : Nat) : OpenFrame where
  header := header
  part := .over
  next := 9 + content.length
  memory := .new
  segments := { earlier := 0, current := 0 }
  content := ⟨content.toArray⟩
  delivered := delivered

variable {content tail : Bytes} {n : Nat}

theorem size_input (content tail : Bytes) :
    (input content tail).size = 9 + content.length + tail.length := by
  rw [input, size_mk]
  simp only [storedFrame, List.length_append, Bytes.length_le, List.length_cons, List.length_nil]
  omega

theorem startFrame_eq (content tail : Bytes) (n : Nat) :
    Decoder.startFrame (input content tail) .new 0 n =
      .ok (buffers, .inParts (.new header)) := by
  have size := size_input content tail
  have four : min 4 (input content tail).size = 4 := by omega
  have number : numberAt (input content tail) 0 4 = magic := by
    have front : ((storedFrame content ++ tail).drop 0).take 4 = [0x28, 0xB5, 0x2F, 0xFD] := rfl
    refine (numberAt_eq (storedFrame content ++ tail) 0 (by simp [storedFrame])).trans ?_
    rw [front]
    decide
  have starts : startAt (input content tail) 0 = .frame := by
    simp only [startAt, Nat.sub_zero, four, number]
    simp [magic]
  have descriptor : byteAt (input content tail) 4 = 0 :=
    congrArg UInt8.toNat (octetAt_eq (storedFrame content ++ tail) 4)
  have window : byteAt (input content tail) 5 = 0 :=
    congrArg UInt8.toNat (octetAt_eq (storedFrame content ++ tail) 5)
  have reads : FrameHeader.read (input content tail) 0 = .ok header := by
    simp [FrameHeader.read, descriptor, window, contentWidth, dictionaryWidth, numberAt, size,
      windowOf, header]
    omega
  simp [Decoder.startFrame, starts, reads, Decoder.openFrame, header, maxWindow, minWindow,
    Functor.map, Except.map, Buffers.fit, Buffers.needed, FrameHeader.blockLimit, maxBlock,
    Buffers.new, buffers, Room.margin]

theorem block_eq (short : content.length ≤ 1024) (some : content ≠ []) :
    (OpenFrame.new header).block (input content tail) buffers.content =
      .ok (.some (filled content 0)) := by
  have size := size_input content tail
  have pos : 0 < content.length := List.length_pos_iff.2 some
  have lead : numberAt (input content tail) 6 3 = 8 * content.length + 1 := by
    refine (numberAt_eq (storedFrame content ++ tail) 6 (by simp [storedFrame])).trans ?_
    have front : ((storedFrame content ++ tail).drop 6).take 3 =
        Bytes.le 3 (8 * content.length + 1) := by
      show (Bytes.le 3 (8 * content.length + 1) ++ content ++ tail).take 3 = _
      rw [List.append_assoc, List.take_left' (Bytes.length_le _ _)]
    rw [front, Bytes.ofLE_le (by omega)]
  have reads : BlockHeader.read (input content tail) 6 =
      { isLast := true, type := .stored, size := content.length } := by
    have type : (8 * content.length + 1) / 2 % 4 = 0 := by omega
    have count : (8 * content.length + 1) / 8 = content.length := by omega
    have last : (8 * content.length + 1) % 2 = 1 := by omega
    simp [BlockHeader.read, BlockHeader.width, lead, type, count, last, BlockType.ofCode]
  have extract : (input content tail).extract 9 (9 + content.length) = ⟨content.toArray⟩ := by
    apply ByteArray.ext
    have back : (storedFrame content).drop 9 = content :=
      List.drop_left' (by simp : ([0x28, 0xB5, 0x2F, 0xFD, 0, 0] ++
        Bytes.le 3 (8 * content.length + 1)).length = 9)
    have long : 9 ≤ (storedFrame content).length := by simp [storedFrame]
    simp [input, List.drop_append_of_le_length long, back]
  have limit : header.blockLimit = 1024 := by decide
  have next : header.next = 6 := rfl
  have noChecksum : header.hasChecksum = false := rfl
  have noSize : header.contentSize = none := rfl
  have fits : ¬ 1024 < content.length := Nat.not_lt_of_le short
  have roomy : ¬ 3136 < content.length := by omega
  have there : ¬ 9 + content.length + tail.length < 9 := by omega
  have more : ¬ 9 + content.length + tail.length < 10 := by omega
  have held : min content.length (9 + content.length + tail.length - 9) = content.length := by omega
  simp [OpenFrame.block, OpenFrame.new, OpenFrame.decodeContent, OpenFrame.endBlock,
    OpenFrame.partAfter, FrameHeader.allows, BlockHeader.written, BlockHeader.width, filled,
    buffers, Functor.map, Except.map, reads, next, noChecksum, noSize, limit, size, extract, fits,
    some, roomy, there, more, held]

theorem deliver_eq (short : content.length ≤ 1024) (delivered stop : Nat) :
    (filled content delivered).deliver buffers.content stop =
      filled content (min stop content.length) := by
  have limit : (filled content delivered).header.blockLimit = 1024 := rfl
  have size : (filled content delivered).content.size = content.length := size_mk content
  have room : ¬ 3136 < content.length + 1024 := by omega
  simp only [OpenFrame.deliver, limit, size]
  simp [filled, buffers, room]

/-- Behind the block comes the end of the frame. -/
theorem run_filled (data : ByteArray) (buffer stop fuel delivered : Nat) :
    (filled content delivered).run data buffer stop (fuel + 1) =
      .ok (.ended, filled content delivered) := rfl

/-! ## Reads -/

/-- Behind the frame. -/
def behind (content tail : Bytes) : Decoder where
  input := input content tail
  buffers := buffers
  next := 9 + content.length
  frame := none

/-- Within the frame. -/
def within (content tail : Bytes) (delivered : Nat) : Decoder where
  input := input content tail
  buffers := buffers
  next := 9 + content.length
  frame := some (filled content delivered)

theorem read_within (n : Nat) {delivered : Nat} (more : delivered < content.length)
    (short : content.length ≤ 1024) :
    (within content tail delivered).read n =
      .ok ((content.drop delivered).take n,
        within content tail (min (delivered + n) content.length)) := by
  have size : (filled content delivered).content.size = content.length := size_mk content
  have part : (content.drop delivered).take (min (delivered + n) content.length - delivered) =
      (content.drop delivered).take n := by
    rw [List.take_eq_take_iff, List.length_drop]
    omega
  have start : (filled content delivered).delivered = delivered := rfl
  simp only [Decoder.read, within, size, start, if_pos more, deliver_eq short]
  exact congrArg
    (fun bs => Except.ok (bs, within content tail (min (delivered + n) content.length)))
    ((Decoder.slice_eq content delivered _).trans part)

/-- When all is delivered, the frame is closed, and the same read goes on behind it. -/
theorem read_filled (content tail : Bytes) (n : Nat) :
    (within content tail content.length).read n = (behind content tail).read n := by
  have size : (filled content content.length).content.size = content.length := size_mk content
  have start : (filled content content.length).delivered = content.length := rfl
  have ran : Decoder.runFrame (input content tail) buffers n (filled content content.length) =
      .ok (.behind (9 + content.length)) := by
    simp only [Decoder.runFrame, run_filled, start, if_neg (Nat.lt_irrefl content.length), if_true]
    rfl
  simp only [Decoder.read, within, behind, size, start, if_neg (Nat.lt_irrefl content.length), ran]

/-- The first read takes what it wants, and closes the frame if that is all. -/
def after (content tail : Bytes) (n : Nat) : Decoder :=
  if n < content.length then within content tail n else behind content tail

theorem runFrame_new (short : content.length ≤ 1024) (some : content ≠ []) (pos : 0 < n) :
    Decoder.runFrame (input content tail) buffers n (.new header) =
      .ok (.reply (content.take n) (after content tail n)) := by
  have full : 0 < content.length := List.length_pos_iff.2 some
  obtain ⟨fuel, enough⟩ : ∃ fuel, (input content tail).size = fuel + 1 :=
    ⟨content.length + tail.length + 8, by rw [size_input]; omega⟩
  have start : (OpenFrame.new header).delivered = 0 := rfl
  have part : (OpenFrame.new header).part = .block := rfl
  have given : ∀ k, (filled content k).delivered = k := fun _ => rfl
  have there : ∀ k, (filled content k).content.size = content.length := fun _ => size_mk content
  have one : 0 < min n content.length := by omega
  have front : Decoder.slice (filled content (min n content.length)).content 0
      (min n content.length) = content.take n := by
    refine (Decoder.slice_eq content 0 _).trans ?_
    rw [List.drop_zero, List.take_eq_take_iff]
    omega
  simp only [Decoder.runFrame, OpenFrame.run, part, block_eq short some, deliver_eq short, start,
    Nat.zero_add, given, there, after]
  rcases Nat.lt_or_ge n content.length with fewer | all
  · have least : min n content.length = n := Nat.min_eq_left (Nat.le_of_lt fewer)
    rw [least] at front one ⊢
    simp only [if_pos fewer, given, one, if_true, front, reduceCtorEq, if_false]
    rfl
  · have least : min n content.length = content.length := Nat.min_eq_right all
    rw [least] at front one ⊢
    simp only [if_neg (Nat.lt_irrefl content.length), enough, run_filled, given, one, if_true,
      front, if_neg (Nat.not_lt_of_le all)]
    rfl

section

variable {ending : Ending} (short : content.length ≤ 1024)
  (ends : (behind content tail).Delivers ending [])

include short ends

theorem delivers_within {k : Nat} :
    ∀ {delivered : Nat}, delivered ≤ content.length → content.length < delivered + k →
      (within content tail delivered).Delivers ending (content.drop delivered) := by
  -- by what is still to be delivered, of which each read takes some
  induction k with
  | zero => intro delivered there left; omega
  | succ k ih =>
      intro delivered there left
      refine .intro fun n pos => ?_
      rcases Nat.lt_or_ge delivered content.length with more | whole
      · have split := List.take_append_drop n (content.drop delivered)
        have rest : (content.drop delivered).drop n =
            content.drop (min (delivered + n) content.length) := by
          rw [List.drop_drop]
          rcases Nat.le_total (delivered + n) content.length with fits | beyond
          · rw [Nat.min_eq_left fits]
          · rw [Nat.min_eq_right beyond, List.drop_length, List.drop_of_length_le beyond]
        have later := ih (Nat.min_le_right (delivered + n) content.length) (by omega)
        have front : (content.drop delivered).take n ≠ [] := by
          simp only [Ne, List.take_eq_nil_iff, List.drop_eq_nil_iff]
          omega
        have answer := Decoder.Answers.piece front (List.length_take_le n _) later
        rw [← rest, split] at answer
        rwa [read_within n more short]
      · obtain rfl : delivered = content.length := Nat.le_antisymm there whole
        rw [read_filled, List.drop_length]
        exact ends.answers pos

theorem delivers_after (n : Nat) :
    (after content tail n).Delivers ending (content.drop n) := by
  unfold after
  split
  · rename_i part
    exact delivers_within short ends (Nat.le_of_lt part) (Nat.lt_add_left n (Nat.lt_succ_self _))
  · rename_i whole
    rw [List.drop_of_length_le (Nat.le_of_not_lt whole)]
    exact ends

/-- A stored block is delivered, however it is read, and then comes what is behind the frame. -/
theorem delivers_before (some : content ≠ []) :
    (Decoder.ofBytes (storedFrame content ++ tail)).Delivers ending content := by
  refine .intro fun n pos => ?_
  have inside : ¬ (input content tail).size ≤ 0 := by
    rw [size_input]
    omega
  have reads : (Decoder.ofBytes (storedFrame content ++ tail)).read n =
      .ok (content.take n, after content tail n) := by
    show Decoder.readFrames (input content tail) n ((input content tail).size + 1) .new 0 = _
    simp only [Decoder.readFrames, if_neg inside, startFrame_eq, runFrame_new short some pos]
  have front : content.take n ≠ [] := by
    simp only [Ne, List.take_eq_nil_iff]
    exact fun none => none.elim (Nat.ne_of_gt pos) some
  have answer :=
    Decoder.Answers.piece front (List.length_take_le n content) (delivers_after short ends n)
  rw [List.take_append_drop] at answer
  rwa [reads]

end

/-- A frame on its own ends cleanly. -/
theorem delivers (short : content.length ≤ 1024) (some : content ≠ []) :
    (Decoder.ofBytes (storedFrame content)).Delivers .clean content := by
  have ends : (behind content []).Delivers .clean [] := by
    refine .intro fun n _ => ?_
    have reads : (behind content []).read n = .ok ([], behind content []) := by
      simp [Decoder.read, behind, Decoder.readFrames, size_input]
    rw [reads]
    exact .finished rfl
  have whole := delivers_before short ends some
  rwa [List.append_nil] at whole

/-- A frame in front of something else ends with a fault. -/
theorem delivers_before_foreign {b : UInt8} (short : content.length ≤ 1024) (some : content ≠ [])
    (foreign : Foreign b) (bs : Bytes) :
    (Decoder.ofBytes (storedFrame content ++ b :: bs)).Delivers
      (.fault Fault.unknownFrame.message) content := by
  have length : (storedFrame content).length = 9 + content.length := by
    have size := size_input content []
    rwa [input, List.append_nil, size_mk] at size
  have first : octetAt (input content (b :: bs)) (9 + content.length) = b := by
    rw [input, octetAt_eq, ← length, List.getElem?_append_right (Nat.le_refl _), Nat.sub_self,
      List.getElem?_cons_zero, Option.getD_some]
  apply delivers_before short _ some
  apply Decoder.delivers_of_foreign
  · rfl
  · show 9 + content.length < (input content (b :: bs)).size
    rw [size_input, List.length_cons]
    omega
  · show Foreign (octetAt (input content (b :: bs)) (9 + content.length))
    rwa [first]

end StoredFrame

end BinaryLog.Zstd
