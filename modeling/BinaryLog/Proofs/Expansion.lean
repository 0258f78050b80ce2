/-
# BinaryLog.Proofs.Expansion -- how much can come out of compressed data

Every byte of the input brings at most one block, and a block at most `maxBlock` bytes.
`Decoder.left` counts what may come by this: blocks for the bytes that were not read, and the
content that was not delivered.  No read brings more than it takes off this count
(`Decoder.left_of_read`), so that what is delivered in the end is within `Decoder.bound`
(`Decoder.Delivers.length_le_bound`).

Of a single read no more than `maxBlock` bytes are counted: a longer one may take a frame in one go,
whose content is as large as it says itself.  That is enough, since short reads bring the same.
-/
import BinaryLog.Proofs.Delivery

namespace BinaryLog.Zstd

set_option autoImplicit false

/-! ## Byte arrays as byte strings -/

theorem toList_loop (content : ByteArray) (i : Nat) (got : Bytes) :
    ByteArray.toList.loop content i got = got.reverse ++ content.data.toList.drop i := by
  fun_induction ByteArray.toList.loop content i got with
  | case1 i got inside ih =>
      have there : i < content.data.toList.length := by simpa using inside
      rw [ih, List.reverse_cons, List.append_assoc, List.drop_eq_getElem_cons there]
      simp [ByteArray.get!, getElem!_pos content.data i inside]
  | case2 i got outside =>
      have beyond : content.data.toList.length ≤ i := by simpa using outside
      rw [List.drop_of_length_le beyond, List.append_nil]

theorem toList_eq (content : ByteArray) : content.toList = content.data.toList := by
  rw [ByteArray.toList, toList_loop, List.reverse_nil, List.nil_append, List.drop_zero]

theorem length_toList (content : ByteArray) : content.toList.length = content.size := by
  rw [toList_eq, Array.length_toList]
  rfl

theorem Decoder.length_slice (content : ByteArray) (i stop : Nat) :
    (slice content i stop).length = min stop content.size - i := by
  rw [slice, length_toList, ByteArray.size_extract]

theorem exists_of_map_eq_ok {ε α β : Type} {f : α → β} {x : Except ε α} {b : β}
    (mapped : f <$> x = .ok b) : ∃ a, x = .ok a ∧ f a = b := by
  cases x with
  | error e => cases mapped
  | ok a => exact ⟨a, rfl, Except.ok.inj mapped⟩

/-! ## Headers of frames -/

theorem FrameHeader.next_of_read {data : ByteArray} {i : Nat} {h : FrameHeader}
    (reads : read data i = .ok h) : i < h.next ∧ h.next ≤ data.size := by
  unfold read at reads
  extract_lets descriptor oneSegment windowAt dictionaryAt contentAt width next content at reads
  split at reads
  · cases reads
  · rename_i there
    split at reads
    · cases reads
    · split at reads
      · cases reads
      · cases reads
        simp only [not_or, Nat.not_le, Nat.not_lt] at there
        exact ⟨by simp only [next, contentAt, dictionaryAt, windowAt]; omega, there.2⟩

theorem FrameHeader.blocksEnd?_le {data : ByteArray} {fuel : Nat} :
    ∀ {i next : Nat}, blocksEnd? data fuel i = some next → i ≤ next := by
  induction fuel with
  | zero => intro i next ends; cases ends
  | succ fuel ih =>
      intro i next ends
      simp only [blocksEnd?] at ends
      split at ends
      · cases ends
      · split at ends
        · cases ends
          omega
        · have later := ih ends
          omega

theorem FrameHeader.end?_le {h : FrameHeader} {data : ByteArray} {next : Nat}
    (ends : h.end? data = some next) : h.next ≤ next ∧ next ≤ data.size := by
  simp only [end?, bind, Option.bind] at ends
  split at ends
  · cases ends
  · rename_i behind blocks
    simp only [Option.ite_none_left_eq_some, Option.pure_def, Option.some.injEq] at ends
    obtain ⟨there, rfl⟩ := ends
    have blocks := blocksEnd?_le blocks
    exact ⟨by omega, by omega⟩

/-- The content of a frame that is decoded in one go is as large as its header says. -/
theorem FrameHeader.size_of_decodeWhole {h : FrameHeader} {data content : ByteArray}
    {capacity : Nat} (decodes : h.decodeWhole data capacity = .ok content) :
    h.allows content.size := by
  simp only [decodeWhole] at decodes
  split at decodes
  · cases decodes
  · simp only [bind, Except.bind] at decodes
    split at decodes
    · cases decodes
    · rename_i result blocks
      obtain ⟨out, next⟩ := result
      split at decodes
      · cases decodes
      · rename_i allowed
        split at decodes
        · cases decodes
        · cases decodes
          simpa using allowed

/-! ## Within a frame -/

theorem FrameHeader.blockLimit_le (h : FrameHeader) : h.blockLimit ≤ maxBlock :=
  Nat.min_le_right h.window maxBlock

namespace OpenFrame

variable {data content : ByteArray} {f f' : OpenFrame} {b : BlockHeader}

/-- How large the content may get: by one block for each byte to come. -/
def reach (data : ByteArray) (f : OpenFrame) : Nat :=
  (data.size - f.next) * maxBlock + f.content.size

/-- From `f` to `f'` the frame went on in its input, and not beyond its reach. -/
structure Onward (data : ByteArray) (f f' : OpenFrame) : Prop where
  next : f.next ≤ f'.next
  inside : f'.next ≤ data.size
  reach : f'.reach data ≤ f.reach data

theorem Onward.refl (inside : f.next ≤ data.size) : Onward data f f :=
  ⟨Nat.le_refl f.next, inside, Nat.le_refl (f.reach data)⟩

theorem Onward.trans {f'' : OpenFrame} (first : Onward data f f') (second : Onward data f' f'') :
    Onward data f f'' :=
  ⟨Nat.le_trans first.next second.next, second.inside, Nat.le_trans second.reach first.reach⟩

theorem endBlock_cases {memory : Memory} (ended : f.endBlock b content memory = .ok f') :
    f'.next = f.next + BlockHeader.width + b.written ∧ f'.content = content := by
  simp only [endBlock] at ended
  split at ended
  · cases ended
  · cases ended
    exact ⟨rfl, rfl⟩

/-- A block lies within the input and brings at most as much as one may. -/
theorem decodeContent_le {room : Room}
    (there : f.next + BlockHeader.width + (if b.type = .stored then 1 else b.written) ≤ data.size)
    (small : b.written ≤ room.limit) (decodes : f.decodeContent data room b = .ok f') :
    f.next + BlockHeader.width ≤ f'.next ∧ f'.next ≤ data.size ∧
      f'.content.size ≤ f.content.size + room.limit := by
  simp only [decodeContent] at decodes
  split at decodes
  · rename_i stored
    have written : b.written = b.size := by simp [BlockHeader.written, stored]
    simp only [stored, if_true] at there
    split at decodes
    · cases decodes
    · split at decodes
      · cases decodes
        simp only [ByteArray.size_append, ByteArray.size_extract]
        omega
      · rename_i whole
        obtain ⟨next, content⟩ := endBlock_cases decodes
        rw [next, content, ByteArray.size_append, ByteArray.size_extract]
        omega
  · rename_i repeated
    simp only [repeated, reduceCtorEq, if_false] at there
    split at decodes
    · cases decodes
    · split at decodes
      · cases decodes
      · obtain ⟨next, content⟩ := endBlock_cases decodes
        have size : ∀ (n : Nat) (x : UInt8), (ByteArray.mk (Array.replicate n x)).size = n :=
          fun n x => Array.size_replicate
        rw [next, content, ByteArray.size_append, size]
        omega
  · rename_i compressed
    simp only [compressed, reduceCtorEq, if_false] at there
    split at decodes
    · cases decodes
    · split at decodes
      · cases decodes
      · obtain ⟨next, content⟩ := endBlock_cases decodes
        rw [next, content]
        omega
  · cases decodes

theorem onward_of_block {buffer : Nat} (went : f.block data buffer = .ok (some f')) :
    Onward data f f' := by
  unfold block at went
  extract_lets b first limit room at went
  split at went
  · cases went
  · rename_i header
    split at went
    · cases went
    · rename_i fits
      split at went
      · cases went
        simp only [first, BlockHeader.width] at header
        constructor <;> simp only [first, reach, BlockHeader.width, maxBlock] <;> omega
      · by_cases there : data.size < first + (if b.type = .stored then 1 else b.written)
        · simp only [if_pos there, Except.ok.injEq, reduceCtorEq] at went
        · rw [if_neg there] at went
          obtain ⟨g, decodes, same⟩ := exists_of_map_eq_ok went
          obtain rfl := Option.some.inj same
          have most : limit ≤ maxBlock := f.header.blockLimit_le
          obtain ⟨next, inside, size⟩ := decodeContent_le (Nat.le_of_not_lt there)
            (Nat.le_of_not_lt fun large => fits (.inr large)) decodes
          simp only [room, BlockHeader.width, maxBlock] at next size most
          refine ⟨by omega, inside, ?_⟩
          simp only [reach, maxBlock]
          omega

/-! Delivering moves neither the place in the input nor the content. -/

@[simp] theorem deliver_next (f : OpenFrame) (buffer stop : Nat) :
    (f.deliver buffer stop).next = f.next := by
  simp only [deliver]
  split <;> rfl

@[simp] theorem deliver_content (f : OpenFrame) (buffer stop : Nat) :
    (f.deliver buffer stop).content = f.content := by
  simp only [deliver]
  split <;> rfl

@[simp] theorem deliver_delivered (f : OpenFrame) (buffer stop : Nat) :
    (f.deliver buffer stop).delivered = min stop f.content.size := by
  simp only [deliver]
  split <;> rfl

theorem onward_deliver (inside : f.next ≤ data.size) (buffer stop : Nat) :
    Onward data f (f.deliver buffer stop) := by
  constructor
  · exact Nat.le_of_eq (deliver_next f buffer stop).symm
  · rwa [deliver_next]
  · simp only [reach, deliver_next, deliver_content, Nat.le_refl]

/-- Where a frame stands: within the input, and with no more delivered than there is. -/
structure Sound (data : ByteArray) (f : OpenFrame) : Prop where
  inside : f.next ≤ data.size
  there : f.delivered ≤ f.content.size

theorem sound_new {h : FrameHeader} (inside : h.next ≤ data.size) : (new h).Sound data :=
  ⟨inside, Nat.le_refl 0⟩

theorem sound_deliver (inside : f.next ≤ data.size) (buffer stop : Nat) :
    (f.deliver buffer stop).Sound data := by
  constructor
  · rwa [deliver_next]
  · rw [deliver_delivered, deliver_content]
    exact Nat.min_le_right _ _

theorem run_onward {buffer stop fuel : Nat} :
    ∀ {f f' : OpenFrame} {s : Stop}, f.Sound data → run data buffer stop fuel f = .ok (s, f') →
      Onward data f f' ∧ f'.Sound data := by
  induction fuel with
  | zero =>
      intro f f' s sound ran
      cases ran
      exact ⟨.refl sound.inside, sound⟩
  | succ fuel ih =>
      intro f f' s sound ran
      simp only [run] at ran
      split at ran
      · cases ran
        exact ⟨.refl sound.inside, sound⟩
      · cases ran
        exact ⟨.refl sound.inside, sound⟩
      · split at ran
        · cases ran
          exact ⟨.refl sound.inside, sound⟩
        · split at ran
          · cases ran
            refine ⟨⟨Nat.le_add_right _ _, by dsimp only; omega, ?_⟩, by dsimp only; omega,
              sound.there⟩
            simp only [reach, maxBlock]
            omega
          · cases ran
      · split at ran
        · cases ran
        · cases ran
          exact ⟨.refl sound.inside, sound⟩
        · rename_i g went
          have first := onward_of_block went
          have there := sound_deliver first.inside buffer stop
          have delivered := first.trans (onward_deliver first.inside buffer stop)
          split at ran
          · cases ran
            exact ⟨delivered, there⟩
          · obtain ⟨later, sound⟩ := ih there ran
            exact ⟨delivered.trans later, sound⟩

end OpenFrame

/-! ## Across frames -/

namespace Decoder

def Sound (d : Decoder) : Prop := ∀ f ∈ d.frame, f.Sound d.input

/-- How much may come: a block for each byte that was not read, and what was not delivered. -/
def left (d : Decoder) : Nat :=
  match d.frame with
  | none => (d.input.size - d.next) * maxBlock
  | some f => f.reach d.input - f.delivered

variable {input : ByteArray} {buffers buffers' : Buffers} {n i : Nat}

/-- What is opened at byte `i` lies within the input.  Taken as a whole it brings no more than was
asked for, and in parts nothing yet. -/
def Opening.Bounded (input : ByteArray) (i n : Nat) : Opening → Prop
  | whole content next => i < next ∧ next ≤ input.size ∧ content.size ≤ n
  | inParts f => f.Sound input ∧ i ≤ f.next ∧ f.content.size = 0 ∧ f.delivered = 0

theorem whole_bounded {h : FrameHeader} {content : ByteArray} {next : Nat}
    (header : i < h.next ∧ h.next ≤ input.size)
    (ends : (if h.contentSize.any (· ≤ n) then h.end? input else none) = some next)
    (decodes : h.decodeWhole input n = .ok content) :
    (Opening.whole content next).Bounded input i n := by
  have size := FrameHeader.size_of_decodeWhole decodes
  split at ends
  · rename_i fits
    have place := FrameHeader.end?_le ends
    refine ⟨by omega, place.2, ?_⟩
    simp only [FrameHeader.allows] at size
    cases declared : h.contentSize with
    | none => simp [declared] at fits
    | some m =>
        simp only [declared, Option.any_some, decide_eq_true_eq] at fits
        simp only [declared, Option.all_some, beq_iff_eq] at size
        omega
  · cases ends

theorem openFrame_eq {h : FrameHeader} {f : OpenFrame}
    (opens : openFrame buffers h = .ok (buffers', f)) : f = .new h := by
  simp only [openFrame] at opens
  split at opens
  · cases opens
  · split at opens
    · cases opens
    · cases opens
      rfl

theorem startFrame_bounded {opening : Opening}
    (starts : startFrame input buffers i n = .ok (buffers', opening)) :
    opening.Bounded input i n := by
  simp only [startFrame] at starts
  split at starts
  · cases starts
  · cases starts
  · split at starts
    · cases starts
    · cases starts
      exact ⟨by omega, by omega, Nat.zero_le n⟩
  · split at starts
    · cases starts
    · rename_i h reads
      have header := FrameHeader.next_of_read reads
      split at starts
      · rename_i behind ends
        obtain ⟨content, decodes, same⟩ := exists_of_map_eq_ok starts
        cases same
        exact whole_bounded header ends decodes
      · obtain ⟨⟨buffers'', f⟩, opens, same⟩ := exists_of_map_eq_ok starts
        cases same
        obtain rfl := openFrame_eq opens
        exact ⟨OpenFrame.sound_new header.2, Nat.le_of_lt header.1, rfl, rfl⟩

/-- What a run through a frame brings is off the frame's reach. -/
def Progress.Bounded (input : ByteArray) (f : OpenFrame) : Progress → Prop
  | reply bytes d => d.Sound ∧ bytes.length + d.left ≤ f.reach input - f.delivered
  | behind next => f.next ≤ next

theorem runFrame_bounded {f : OpenFrame} {progress : Progress} (sound : f.Sound input)
    (ran : runFrame input buffers n f = .ok progress) : progress.Bounded input f := by
  simp only [runFrame] at ran
  split at ran
  · cases ran
  · rename_i stop g went
    obtain ⟨onward, later⟩ := OpenFrame.run_onward sound went
    have reach := onward.reach
    have there := later.there
    split at ran
    · cases ran
      have parts : g.reach input = (input.size - g.next) * maxBlock + g.content.size := rfl
      simp only [Progress.Bounded, length_slice]
      by_cases ended : stop = .ended
      · refine ⟨by intro f' member; simp [ended] at member, ?_⟩
        simp only [left, ended, if_true]
        omega
      · refine ⟨?_, ?_⟩
        · intro f' member
          simp only [ended, if_false, Option.mem_def, Option.some.injEq] at member
          exact member ▸ later
        · simp only [left, ended, if_false]
          omega
    · split at ran
      · cases ran
        exact onward.next
      · cases ran

theorem readFrames_left {fuel : Nat} :
    ∀ {buffers : Buffers} {i : Nat} {bytes : Bytes} {d : Decoder},
      readFrames input n fuel buffers i = .ok (bytes, d) →
      d.Sound ∧ min bytes.length maxBlock + d.left ≤ (input.size - i) * maxBlock := by
  induction fuel with
  | zero =>
      intro buffers i bytes d reads
      cases reads
      exact ⟨fun f member => (by cases member), by simp [left]⟩
  | succ fuel ih =>
      intro buffers i bytes d reads
      simp only [readFrames] at reads
      split at reads
      · cases reads
        exact ⟨fun f member => (by cases member), by simp [left]⟩
      · split at reads
        · cases reads
        · rename_i buffers' content next starts
          obtain ⟨later, inside, size⟩ := startFrame_bounded starts
          have less : (input.size - next) * maxBlock + maxBlock ≤ (input.size - i) * maxBlock := by
            simp only [maxBlock]
            omega
          split at reads
          · obtain ⟨sound, spent⟩ := ih reads
            exact ⟨sound, by omega⟩
          · cases reads
            refine ⟨fun f member => (by cases member), ?_⟩
            simp only [left, length_toList]
            omega
        · rename_i buffers' f starts
          obtain ⟨sound, later, empty, none⟩ := startFrame_bounded starts
          have less : (input.size - f.next) * maxBlock ≤ (input.size - i) * maxBlock :=
            Nat.mul_le_mul_right maxBlock (by omega)
          split at reads
          · cases reads
          · rename_i bytes' d' ran
            cases reads
            obtain ⟨sound, spent⟩ := runFrame_bounded sound ran
            rw [OpenFrame.reach, empty] at spent
            exact ⟨sound, by omega⟩
          · rename_i next ran
            have behind : f.next ≤ next := runFrame_bounded sound ran
            have less' : (input.size - next) * maxBlock ≤ (input.size - f.next) * maxBlock :=
              Nat.mul_le_mul_right maxBlock (by omega)
            obtain ⟨sound, spent⟩ := ih reads
            exact ⟨sound, by omega⟩

/-- No read brings more than it takes off what is left, as far as that is counted. -/
theorem left_of_read {d d' : Decoder} {bytes : Bytes} (sound : d.Sound)
    (reads : d.read n = .ok (bytes, d')) :
    d'.Sound ∧ min bytes.length maxBlock + d'.left ≤ d.left := by
  obtain ⟨input, buffers, next, frame⟩ := d
  cases frame with
  | none => exact readFrames_left reads
  | some f =>
      have there : f.Sound input := sound f rfl
      simp only [read] at reads
      split at reads
      · -- content that is ready is given as it is
        rename_i more
        cases reads
        refine ⟨?_, ?_⟩
        · rintro f' ⟨⟩
          exact OpenFrame.sound_deliver there.inside _ _
        · have reach :=
            (OpenFrame.onward_deliver there.inside buffers.content (f.delivered + n)).reach
          simp only [left, length_slice, OpenFrame.deliver_delivered,
            OpenFrame.deliver_content] at *
          simp only [OpenFrame.reach] at *
          omega
      · split at reads
        · cases reads
        · rename_i bytes' d' ran
          cases reads
          obtain ⟨sound, spent⟩ := runFrame_bounded there ran
          exact ⟨sound, Nat.le_trans (Nat.add_le_add_right (Nat.min_le_left _ _) _) spent⟩
        · rename_i behind ran
          have later : f.next ≤ behind := runFrame_bounded there ran
          have less : (input.size - behind) * maxBlock ≤ (input.size - f.next) * maxBlock :=
            Nat.mul_le_mul_right maxBlock (by omega)
          obtain ⟨sound, spent⟩ := readFrames_left reads
          have whole := there.there
          refine ⟨sound, ?_⟩
          show min bytes.length maxBlock + d'.left ≤ f.reach input - f.delivered
          rw [OpenFrame.reach]
          omega

/-! ## What is delivered in the end -/

theorem Delivers.length_le_left {k : Nat} :
    ∀ {d : Decoder} {bs : Bytes} {ending : Ending}, bs.length < k → d.Sound →
      Delivers ending d bs → bs.length ≤ d.left := by
  induction k with
  | zero => intro d bs ending len; omega
  | succ k ih =>
      intro d bs ending len sound delivers
      have answers := delivers.answers Nat.one_pos
      generalize reads : d.read 1 = reply at answers
      cases answers with
      | @piece _ front rest d' some fits more =>
          obtain ⟨sound, spent⟩ := left_of_read sound reads
          rw [Nat.min_eq_left (Nat.le_trans fits (by decide))] at spent
          have pos : 0 < front.length := List.length_pos_iff.2 some
          rw [List.length_append] at len ⊢
          have later := ih (by omega) sound more
          omega
      | finished => exact Nat.zero_le _
      | fault => exact Nat.zero_le _

theorem sound_ofBytes (payload : Bytes) : (ofBytes payload).Sound := fun f member => by cases member

theorem left_ofBytes_le (payload : Bytes) : (ofBytes payload).left ≤ (ofBytes payload).bound := by
  simp only [left, bound, maxBlock]
  show (_ - 0) * 2 ^ 17 ≤ _
  omega

/-- All that compressed data bring is within the bound. -/
theorem Delivers.length_le_bound {payload bs : Bytes} {ending : Ending}
    (delivers : Delivers ending (ofBytes payload) bs) : bs.length ≤ (ofBytes payload).bound :=
  Nat.le_trans (delivers.length_le_left (Nat.lt_succ_self bs.length) (sound_ofBytes payload))
    (left_ofBytes_le payload)

end Decoder

end BinaryLog.Zstd
