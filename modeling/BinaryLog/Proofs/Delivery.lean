/-
# BinaryLog.Proofs.Delivery -- what a source brings, however it is read

`Delivers ending bs` says that the bytes to come are `bs` and that behind them the source ends, or
fails, as told (`Ending`): every read gets a part of the bytes to come, and the ending shows only
when none are left.  In how many pieces they come, with how many interruptions, and how much a
read asks for (`Intake`) is left open, and does not matter:

* `Source.take_of_delivers`: as many bytes as are to come, or fewer, are taken, and the source
  delivers what is left of them;
* `Source.take_past_end`: whoever wants more gets all of them if the end is clean, and else the
  fault;
* `Source.take_raised`: a failure stays with the source, and nothing else does.

Of compressed data this is a condition on the decoder (`Zstd.Decoder.Delivers`); there are no two
ways to meet it (`Zstd.Decoder.delivers_unique`).  All other sources deliver what their replies
bring up to the first fault.
-/
import BinaryLog.Source

namespace BinaryLog

set_option autoImplicit false

/-- What lies behind the last byte of a source. -/
inductive Ending
  | clean
  | fault (text : String)
deriving DecidableEq, Repr

/-- What a reader comes to that has `got` when it meets the ending. -/
def Ending.met (got : Bytes) : Ending → Except String Bytes
  | clean => .ok got
  | fault text => .error text

/-! ## Deliveries -/

namespace Zstd.Decoder

mutual

/-- Whatever each read asks for, the decoder brings `bs` and then ends as told. -/
inductive Delivers (ending : Ending) : Decoder → Bytes → Prop
  | intro {d : Decoder} {bs : Bytes}
      (reads : ∀ n, 0 < n → Answers ending n (d.read n) bs) : Delivers ending d bs

/-- A right reply to a read of `n` bytes when `bs` are to come: some of them, or the ending if
there are none. -/
inductive Answers (ending : Ending) : Nat → Except Fault (Bytes × Decoder) → Bytes → Prop
  | piece {n : Nat} {front rest : Bytes} {d : Decoder} (some : front ≠ [])
      (fits : front.length ≤ n) (more : Delivers ending d rest) :
      Answers ending n (.ok (front, d)) (front ++ rest)
  | finished {n : Nat} {d : Decoder} (clean : ending = .clean) : Answers ending n (.ok ([], d)) []
  | fault {n : Nat} {f : Fault} (broken : ending = .fault f.message) :
      Answers ending n (.error f) []

end

theorem Delivers.answers {ending : Ending} {d : Decoder} {bs : Bytes}
    (delivers : Delivers ending d bs) {n : Nat} (pos : 0 < n) : Answers ending n (d.read n) bs := by
  cases delivers with
  | intro reads => exact reads n pos

end Zstd.Decoder

def Rest.Delivers (ending : Ending) (bs : Bytes) : Rest → Prop
  | ended => bs = [] ∧ ending = .clean
  | failing text => bs = [] ∧ ending = .fault text
  | compressed d => d.Delivers ending bs

namespace Source

/-- Replies bring their bytes up to the first fault, and then comes what lies behind them. -/
def RepliesDeliver (ending : Ending) (rest : Rest) : List Reply → Bytes → Prop
  | [], bs => rest.Delivers ending bs
  | .bytes first more :: replies, bs =>
      ∃ left, bs = first :: more ++ left ∧ RepliesDeliver ending rest replies left
  | .interrupted :: replies, bs => RepliesDeliver ending rest replies bs
  | .fault text :: _, bs => bs = [] ∧ ending = .fault text

/-- The bytes to come are `bs`, and then the source ends as told. -/
def Delivers (ending : Ending) (s : Source) (bs : Bytes) : Prop :=
  RepliesDeliver ending s.rest s.replies bs

theorem RepliesDeliver.whole_append {ending : Ending} {rest : Rest} {replies : List Reply}
    {left : Bytes} (delivers : RepliesDeliver ending rest replies left) (bs : Bytes) :
    RepliesDeliver ending rest (Reply.whole bs ++ replies) (bs ++ left) := by
  cases bs with
  | nil => exact delivers
  | cons first more => exact ⟨left, rfl, delivers⟩

theorem delivers_ofBytes (bs : Bytes) : (ofBytes bs).Delivers .clean bs := by
  have ends : RepliesDeliver .clean .ended [] [] := ⟨rfl, rfl⟩
  have whole := ends.whole_append bs
  rwa [List.append_nil, List.append_nil] at whole

theorem size_ofBytes (bs : Bytes) : (ofBytes bs).size = bs.length := by
  cases bs with
  | nil => rfl
  | cons first more => exact Nat.zero_add _

theorem delivers_ofCompressed {ending : Ending} {payload bs : Bytes}
    (delivers : (Zstd.Decoder.ofBytes payload).Delivers ending bs) :
    (ofCompressed payload).Delivers ending bs := delivers

end Source

/-! ## Reads of compressed data -/

theorem Buffer.ask_pos (b : Buffer) : 0 < b.ask := by
  simp only [ask, nextCapacity, grow, probe]
  by_cases room : b.length < b.capacity
  · simp only [room, true_or, ite_true]
    omega
  · cases b.probes
    · simp only [room, Bool.false_eq_true, not_false_eq_true, or_true, or_false, ite_true,
        ite_false]
      omega
    · simp [room]

/-- A read that wants something asks for something. -/
theorem Intake.ask_pos {want : Nat} (pos : 0 < want) (intake : Intake) : 0 < intake.ask want := by
  cases intake with
  | exact => exact pos
  | growing b => exact Nat.lt_min.2 ⟨pos, b.ask_pos⟩

theorem Intake.ask_le (want : Nat) (intake : Intake) : intake.ask want ≤ want := by
  cases intake with
  | exact => exact Nat.le_refl want
  | growing b => exact Nat.min_le_left want b.ask

theorem Rest.decompress_of_delivers {ending : Ending} {fuel : Nat} :
    ∀ (want : Nat) {d : Zstd.Decoder} {bs : Bytes} (intake : Intake) (got : Bytes),
      want ≤ fuel → d.Delivers ending bs → want ≤ bs.length →
      ∃ d', decompress fuel intake want got d =
          (.ok (got.reverse ++ bs.take want), .compressed d') ∧
        d'.Delivers ending (bs.drop want) := by
  induction fuel with
  | zero =>
      intro want d bs intake got enough delivers _
      obtain rfl : want = 0 := by omega
      exact ⟨d, by simp [decompress], delivers⟩
  | succ fuel ih =>
      intro want d bs intake got enough delivers there
      rcases Nat.eq_zero_or_pos want with rfl | pos
      · exact ⟨d, by simp [decompress], delivers⟩
      · have answers := delivers.answers (intake.ask_pos pos)
        have asked := intake.ask_le want
        generalize hr : d.read (intake.ask want) = reply at answers
        cases answers with
        | @piece n front rest d' some fits more =>
            have len : 0 < front.length := List.length_pos_iff.2 some
            rw [List.length_append] at there
            obtain ⟨d'', run, left⟩ := ih (want - front.length)
              (intake.took front.length) (front.reverseAux got) (by omega) more (by omega)
            refine ⟨d'', ?_, ?_⟩
            · simp only [decompress, hr, if_neg (Nat.ne_of_gt pos), if_neg (Nat.ne_of_gt len), run]
              rw [List.take_append, List.take_of_length_le (l := front) (by omega)]
              simp [List.reverseAux_eq]
            · rwa [List.drop_append, List.drop_of_length_le (l := front) (by omega)]
        | finished => simp at there; omega
        | fault => simp at there; omega

theorem Rest.decompress_past_end {ending : Ending} {fuel : Nat} :
    ∀ (want : Nat) {d : Zstd.Decoder} {bs : Bytes} (intake : Intake) (got : Bytes),
      want ≤ fuel → d.Delivers ending bs → bs.length < want →
      (decompress fuel intake want got d).1 = ending.met (got.reverse ++ bs) := by
  induction fuel with
  | zero => intro want d bs intake got enough _ short; omega
  | succ fuel ih =>
      intro want d bs intake got enough delivers short
      have pos : 0 < want := by omega
      have answers := delivers.answers (intake.ask_pos pos)
      have asked := intake.ask_le want
      generalize hr : d.read (intake.ask want) = reply at answers
      cases answers with
      | @piece n front rest d' some fits more =>
          have len : 0 < front.length := List.length_pos_iff.2 some
          rw [List.length_append] at short
          have run := ih (want - front.length) (intake.took front.length) (front.reverseAux got)
            (by omega) more (by omega)
          simp only [decompress, hr, if_neg (Nat.ne_of_gt pos), if_neg (Nat.ne_of_gt len), run]
          simp [List.reverseAux_eq]
      | finished clean => simp [decompress, hr, Nat.ne_of_gt pos, clean, Ending.met]
      | fault broken => simp [decompress, hr, Nat.ne_of_gt pos, broken, Ending.met]

/-! ## Reads of any source -/

theorem Rest.take_of_delivers {ending : Ending} {rest : Rest} {bs : Bytes} {want : Nat}
    (delivers : rest.Delivers ending bs) (there : want ≤ bs.length) (intake : Intake)
    (got : Bytes) :
    ∃ rest', rest.take intake want got = (.ok (got.reverse ++ bs.take want), rest') ∧
      rest'.Delivers ending (bs.drop want) := by
  cases rest with
  | ended =>
      obtain ⟨rfl, clean⟩ := delivers
      exact ⟨.ended, by simp [take], List.drop_nil, clean⟩
  | failing text =>
      obtain ⟨rfl, broken⟩ := delivers
      obtain rfl : want = 0 := Nat.le_zero.1 there
      exact ⟨.failing text, by simp [take], List.drop_nil, broken⟩
  | compressed d =>
      obtain ⟨d', run, left⟩ :=
        decompress_of_delivers want intake got (Nat.le_refl want) delivers there
      exact ⟨.compressed d', run, left⟩

theorem Rest.take_past_end {ending : Ending} {rest : Rest} {bs : Bytes} {want : Nat}
    (delivers : rest.Delivers ending bs) (short : bs.length < want) (intake : Intake)
    (got : Bytes) : (rest.take intake want got).1 = ending.met (got.reverse ++ bs) := by
  cases rest with
  | ended =>
      obtain ⟨rfl, rfl⟩ := delivers
      simp [take, Ending.met]
  | failing text =>
      obtain ⟨rfl, rfl⟩ := delivers
      simp [take, Ending.met, Nat.ne_of_gt (show 0 < want from short)]
  | compressed d => exact decompress_past_end want intake got (Nat.le_refl want) delivers short

namespace Source

/-- The text that a source keeps behind reads that came to this. -/
def keptOf (raised : Option String) : Except String Bytes → Option String
  | .ok _ => raised
  | .error text => some text

section Gather

variable {rest : Rest} {raised : Option String}

theorem gather_nil (intake : Intake) (want : Nat) (got : Bytes) :
    gather rest raised intake want got [] =
      let taken := rest.take intake want got
      (taken.1, { replies := [], rest := taken.2, raised := keptOf raised taken.1 }) := by
  simp only [gather]
  generalize rest.take intake want got = taken
  obtain ⟨result, rest'⟩ := taken
  cases result <;> rfl

theorem gather_whole_piece {intake : Intake} {want : Nat} {got more : Bytes} {first : UInt8}
    {replies : List Reply} (fits : (first :: more).length ≤ want) :
    gather rest raised intake want got (.bytes first more :: replies) =
      gather rest raised (intake.took (first :: more).length) (want - (first :: more).length)
        ((first :: more).reverseAux got) replies := by
  have pos : want ≠ 0 := by
    rw [List.length_cons] at fits
    omega
  simp only [gather, if_neg pos, List.take_of_length_le fits, List.drop_of_length_le fits]

variable (rest raised) in
theorem gather_part_of_piece {want : Nat} {more : Bytes} {first : UInt8} (intake : Intake)
    (got : Bytes) (replies : List Reply) (pos : 0 < want) (large : want < (first :: more).length) :
    ∃ first' more', (first :: more).drop want = first' :: more' ∧
      gather rest raised intake want got (.bytes first more :: replies) =
        (.ok (got.reverse ++ (first :: more).take want),
          { replies := .bytes first' more' :: replies, rest, raised }) := by
  cases left : (first :: more).drop want with
  | nil =>
      rw [List.drop_eq_nil_iff] at left
      omega
  | cons first' more' =>
      refine ⟨first', more', rfl, ?_⟩
      simp only [gather, if_neg (Nat.ne_of_gt pos), left]
      simp [List.reverseAux_eq]

theorem gather_of_delivers {ending : Ending} {replies : List Reply} :
    ∀ {bs : Bytes} (want : Nat) (intake : Intake) (got : Bytes),
      RepliesDeliver ending rest replies bs → want ≤ bs.length →
      ∃ s, gather rest raised intake want got replies = (.ok (got.reverse ++ bs.take want), s) ∧
        s.Delivers ending (bs.drop want) := by
  induction replies with
  | nil =>
      intro bs want intake got delivers there
      obtain ⟨rest', run, left⟩ := Rest.take_of_delivers delivers there intake got
      exact ⟨{ replies := [], rest := rest', raised }, by simp only [gather_nil, run, keptOf], left⟩
  | cons r replies ih =>
      intro bs want intake got delivers there
      rcases Nat.eq_zero_or_pos want with rfl | pos
      · exact ⟨{ replies := r :: replies, rest, raised }, by simp [gather], delivers⟩
      cases r with
      | interrupted =>
          obtain ⟨s, run, left⟩ := ih want intake got delivers there
          exact ⟨s, by simp only [gather, if_neg (Nat.ne_of_gt pos), run], left⟩
      | fault text =>
          obtain ⟨rfl, -⟩ := delivers
          exact absurd there (Nat.not_le_of_gt pos)
      | bytes first more =>
          obtain ⟨behind, rfl, delivers⟩ := delivers
          rw [List.length_append] at there
          rcases Nat.lt_or_ge want (first :: more).length with large | fits
          · have part := Nat.le_of_lt large
            obtain ⟨first', more', left, run⟩ :=
              gather_part_of_piece rest raised intake got replies pos large
            refine ⟨{ replies := .bytes first' more' :: replies, rest, raised }, ?_,
              behind, ?_, delivers⟩
            · rw [List.take_append_of_le_length part]
              exact run
            · rw [List.drop_append_of_le_length part, left]
          · obtain ⟨s, run, left⟩ := ih (want - (first :: more).length)
              (intake.took (first :: more).length) ((first :: more).reverseAux got) delivers
              (by omega)
            refine ⟨s, ?_, ?_⟩
            · rw [gather_whole_piece fits, run, List.take_append, List.take_of_length_le fits]
              simp [List.reverseAux_eq]
            · rwa [List.drop_append, List.drop_of_length_le fits]

theorem gather_past_end {ending : Ending} {replies : List Reply} :
    ∀ {bs : Bytes} (want : Nat) (intake : Intake) (got : Bytes),
      RepliesDeliver ending rest replies bs → bs.length < want →
      (gather rest raised intake want got replies).1 = ending.met (got.reverse ++ bs) := by
  induction replies with
  | nil =>
      intro bs want intake got delivers short
      rw [gather_nil]
      exact Rest.take_past_end delivers short intake got
  | cons r replies ih =>
      intro bs want intake got delivers short
      have pos : 0 < want := Nat.zero_lt_of_lt short
      cases r with
      | interrupted =>
          simp only [gather, if_neg (Nat.ne_of_gt pos)]
          exact ih want intake got delivers short
      | fault text =>
          obtain ⟨rfl, rfl⟩ := delivers
          simp [gather, Nat.ne_of_gt pos, Ending.met]
      | bytes first more =>
          obtain ⟨behind, rfl, delivers⟩ := delivers
          rw [List.length_append] at short
          rw [gather_whole_piece (by omega),
            ih (want - (first :: more).length) (intake.took (first :: more).length)
              ((first :: more).reverseAux got) delivers (by omega)]
          simp [List.reverseAux_eq]

end Gather

/-- As many bytes as are to come, or fewer, are there for every reader. -/
theorem take_of_delivers {ending : Ending} {s : Source} {bs : Bytes} {want : Nat}
    (delivers : s.Delivers ending bs) (there : want ≤ bs.length) (intake : Intake) :
    ∃ s', s.take intake want = (.ok (bs.take want), s') ∧ s'.Delivers ending (bs.drop want) :=
  gather_of_delivers want intake [] delivers there

/-- Whoever wants more meets the ending. -/
theorem take_past_end {ending : Ending} {s : Source} {bs : Bytes} {want : Nat}
    (delivers : s.Delivers ending bs) (short : bs.length < want) (intake : Intake) :
    (s.take intake want).1 = ending.met bs :=
  gather_past_end want intake [] delivers short

end Source

/-! ## What a source keeps of a read -/

namespace Source

theorem gather_raised {rest : Rest} {raised : Option String} {replies : List Reply} :
    ∀ (intake : Intake) (want : Nat) (got : Bytes),
      (gather rest raised intake want got replies).2.raised =
        keptOf raised (gather rest raised intake want got replies).1 := by
  induction replies with
  | nil =>
      intro intake want got
      rw [gather_nil]
  | cons r replies ih =>
      intro intake want got
      by_cases none : want = 0
      · simp only [gather, if_pos none, keptOf]
      cases r with
      | interrupted =>
          simp only [gather, if_neg none]
          exact ih intake want got
      | fault text => simp only [gather, if_neg none, keptOf]
      | bytes first more =>
          rcases Nat.lt_or_ge want (first :: more).length with large | fits
          · obtain ⟨first', more', -, run⟩ :=
              gather_part_of_piece rest raised intake got replies (Nat.pos_of_ne_zero none) large
            rw [run, keptOf]
          · rw [gather_whole_piece fits]
            apply ih

/-- Reads that fail leave the text of the failure, and all others what was there before. -/
theorem take_raised (s : Source) (intake : Intake) (want : Nat) :
    (s.take intake want).2.raised = keptOf s.raised (s.take intake want).1 :=
  gather_raised intake want []

end Source

/-! ## What is delivered is determined -/

theorem Zstd.Decoder.delivers_unique_of_lt {n : Nat} :
    ∀ {d : Decoder} {bs bs' : Bytes} {ending ending' : Ending}, bs.length < n →
      Delivers ending d bs → Delivers ending' d bs' → bs = bs' ∧ ending = ending' := by
  induction n with
  | zero => intro d bs bs' ending ending' len _ _; omega
  | succ n ih =>
      intro d bs bs' ending ending' len delivers delivers'
      have answers := delivers.answers Nat.one_pos
      have answers' := delivers'.answers Nat.one_pos
      generalize hr : d.read 1 = reply at answers answers'
      cases answers with
      | @piece _ front rest d some fits more =>
          have pos : 0 < front.length := List.length_pos_iff.2 some
          rw [List.length_append] at len
          cases answers' with
          | piece _ _ more' =>
              obtain ⟨rfl, same⟩ := ih (by omega) more more'
              exact ⟨rfl, same⟩
          | finished => exact absurd rfl some
      | finished clean =>
          generalize none' : ([] : Bytes) = front at answers'
          cases answers' with
          | piece some => exact absurd none'.symm some
          | finished clean' => exact ⟨rfl, clean.trans clean'.symm⟩
      | fault broken =>
          cases answers' with
          | fault broken' => exact ⟨rfl, broken.trans broken'.symm⟩

/-- No decoder delivers two different things, or one with two different endings. -/
theorem Zstd.Decoder.delivers_unique {d : Decoder} {bs bs' : Bytes} {ending ending' : Ending}
    (delivers : Delivers ending d bs) (delivers' : Delivers ending' d bs') :
    bs = bs' ∧ ending = ending' :=
  delivers_unique_of_lt (Nat.lt_succ_self bs.length) delivers delivers'

end BinaryLog
