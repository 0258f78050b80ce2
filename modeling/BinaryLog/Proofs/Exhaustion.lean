/-
# BinaryLog.Proofs.Exhaustion -- behind the last byte

A source that ends cleanly may be asked for more than it has: it gives all of it, and from then on
it delivers nothing, however often it is asked (`Source.take_of_clean`).  So its bytes can be
counted off, whatever the reads ask for, and there is only one way to count them
(`Source.delivers_unique`).

For replies this is seen one by one.  A decoder of compressed data has to be looked into: it brings
nothing only where no frame is open and no input is left (`Zstd.Decoder.spent_of_read`), and stays
there.
-/
import BinaryLog.Proofs.Expansion

namespace BinaryLog

set_option autoImplicit false

/-! ## Compressed data -/

namespace Zstd

theorem OpenFrame.run_delivered {data : ByteArray} {buffer stop fuel : Nat} :
    ∀ {f f' : OpenFrame} {s : Stop}, run data buffer stop fuel f = .ok (s, f') →
      f'.delivered ≤ f'.content.size ∨
        f'.delivered = f.delivered ∧ f'.content = f.content := by
  induction fuel with
  | zero =>
      intro f f' s ran
      cases ran
      exact .inr ⟨rfl, rfl⟩
  | succ fuel ih =>
      intro f f' s ran
      simp only [run] at ran
      split at ran
      · cases ran
        exact .inr ⟨rfl, rfl⟩
      · cases ran
        exact .inr ⟨rfl, rfl⟩
      · split at ran
        · cases ran
          exact .inr ⟨rfl, rfl⟩
        · split at ran
          · cases ran
            exact .inr ⟨rfl, rfl⟩
          · cases ran
      · split at ran
        · cases ran
        · cases ran
          exact .inr ⟨rfl, rfl⟩
        · rename_i g went
          have there :
              (g.deliver buffer stop).delivered ≤ (g.deliver buffer stop).content.size := by
            rw [deliver_delivered, deliver_content]
            exact Nat.min_le_right _ _
          split at ran
          · cases ran
            exact .inl there
          · obtain later | ⟨delivered, content⟩ := ih ran
            · exact .inl later
            · exact .inl (delivered ▸ content ▸ there)

namespace Decoder

variable {input : ByteArray} {buffers buffers' : Buffers} {n i : Nat}

/-- No frame is open, and no input is left. -/
structure Spent (d : Decoder) : Prop where
  closed : d.frame = none
  read : d.input.size ≤ d.next

theorem Spent.read_eq {d : Decoder} (spent : d.Spent) (n : Nat) : d.read n = .ok ([], d) := by
  obtain ⟨input, buffers, next, frame⟩ := d
  obtain ⟨rfl, all⟩ := spent
  simp only [Decoder.read, readFrames, if_pos all]

theorem Spent.delivers {d : Decoder} (spent : d.Spent) : d.Delivers .clean [] := by
  refine .intro fun n _ => ?_
  rw [spent.read_eq n]
  exact .finished rfl

/-- A frame that is opened goes on behind where it starts. -/
theorem lt_next_of_startFrame {f : OpenFrame}
    (starts : startFrame input buffers i n = .ok (buffers', .inParts f)) : i < f.next := by
  simp only [startFrame] at starts
  split at starts
  · cases starts
  · cases starts
  · split at starts <;> cases starts
  · split at starts
    · cases starts
    · rename_i h reads
      split at starts
      · obtain ⟨content, -, same⟩ := exists_of_map_eq_ok starts
        cases same
      · obtain ⟨⟨buffers'', g⟩, opens, same⟩ := exists_of_map_eq_ok starts
        cases same
        obtain rfl := openFrame_eq opens
        exact (FrameHeader.next_of_read reads).1

theorem ne_nil_of_runFrame {f : OpenFrame} {bytes : Bytes} {d : Decoder}
    (ran : runFrame input buffers n f = .ok (.reply bytes d)) : bytes ≠ [] := by
  simp only [runFrame] at ran
  split at ran
  · cases ran
  · rename_i stop g went
    split at ran
    · rename_i more
      cases ran
      obtain there | ⟨same, -⟩ := OpenFrame.run_delivered went
      · apply List.ne_nil_of_length_pos
        rw [length_slice]
        omega
      · omega
    · split at ran <;> cases ran

theorem spent_of_readFrames {fuel : Nat} :
    ∀ {buffers : Buffers} {i : Nat} {d : Decoder}, input.size < i + fuel →
      readFrames input n fuel buffers i = .ok ([], d) → d.Spent := by
  -- every frame that brings nothing ends further on, so that the fuel lasts to the end
  induction fuel with
  | zero =>
      intro buffers i d enough reads
      cases reads
      exact ⟨rfl, Nat.le_of_lt enough⟩
  | succ fuel ih =>
      intro buffers i d enough reads
      simp only [readFrames] at reads
      split at reads
      · rename_i all
        cases reads
        exact ⟨rfl, all⟩
      · split at reads
        · cases reads
        · rename_i buffers' content next starts
          obtain ⟨later, -, -⟩ := startFrame_bounded starts
          split at reads
          · exact ih (by omega) reads
          · rename_i some
            simp only [Except.ok.injEq, Prod.mk.injEq] at reads
            have size := length_toList content
            rw [reads.1] at size
            simp [ByteArray.isEmpty, ← size] at some
        · rename_i buffers' f starts
          have later := lt_next_of_startFrame starts
          obtain ⟨sound, -⟩ := startFrame_bounded starts
          split at reads
          · cases reads
          · rename_i bytes' d' ran
            cases reads
            exact absurd rfl (ne_nil_of_runFrame ran)
          · rename_i next ran
            have behind : f.next ≤ next := runFrame_bounded sound ran
            exact ih (by omega) reads

/-- A read that brings nothing is at the end. -/
theorem spent_of_read {d d' : Decoder} (pos : 0 < n) (reads : d.read n = .ok ([], d')) :
    d'.Spent := by
  obtain ⟨input, buffers, next, frame⟩ := d
  cases frame with
  | none => exact spent_of_readFrames (by omega) reads
  | some f =>
      simp only [Decoder.read] at reads
      split at reads
      · -- some content is ready, and some is wanted
        rename_i ready
        simp only [Except.ok.injEq, Prod.mk.injEq] at reads
        have size := congrArg List.length reads.1
        rw [length_slice, OpenFrame.deliver_delivered, OpenFrame.deliver_content] at size
        simp only [List.length_nil] at size
        omega
      · split at reads
        · cases reads
        · rename_i bytes' d' ran
          cases reads
          exact absurd rfl (ne_nil_of_runFrame ran)
        · exact spent_of_readFrames (by omega) reads

end Decoder

end Zstd

theorem Rest.decompress_of_clean {fuel : Nat} :
    ∀ (want : Nat) {d : Zstd.Decoder} {bs : Bytes} (intake : Intake) (got : Bytes),
      want ≤ fuel → d.Delivers .clean bs → bs.length < want →
      (decompress fuel intake want got d).2.Delivers .clean [] := by
  induction fuel with
  | zero => intro want d bs intake got enough _ short; omega
  | succ fuel ih =>
      intro want d bs intake got enough delivers short
      have pos : 0 < want := by omega
      have answers := delivers.answers (intake.ask_pos pos)
      generalize hr : d.read (intake.ask want) = reply at answers
      cases answers with
      | @piece n front rest d' some fits more =>
          have len : 0 < front.length := List.length_pos_iff.2 some
          rw [List.length_append] at short
          simp only [decompress, hr, if_neg (Nat.ne_of_gt pos), if_neg (Nat.ne_of_gt len)]
          exact ih (want - front.length) (intake.took front.length) (front.reverseAux got)
            (by omega) more (by omega)
      | finished =>
          simp only [decompress, hr, if_neg (Nat.ne_of_gt pos), List.length_nil, if_true]
          exact (Zstd.Decoder.spent_of_read (intake.ask_pos pos) hr).delivers
      | fault broken => cases broken

theorem Rest.take_of_clean {rest : Rest} {bs : Bytes} {want : Nat}
    (delivers : rest.Delivers .clean bs) (short : bs.length < want) (intake : Intake)
    (got : Bytes) : (rest.take intake want got).2.Delivers .clean [] := by
  cases rest with
  | ended => exact ⟨rfl, rfl⟩
  | failing text => cases delivers.2
  | compressed d => exact decompress_of_clean want intake got (Nat.le_refl want) delivers short

/-! ## Any source -/

namespace Source

theorem gather_of_clean {rest : Rest} {raised : Option String} {replies : List Reply} :
    ∀ {bs : Bytes} (want : Nat) (intake : Intake) (got : Bytes),
      RepliesDeliver .clean rest replies bs → bs.length < want →
      (gather rest raised intake want got replies).2.Delivers .clean [] := by
  induction replies with
  | nil =>
      intro bs want intake got delivers short
      rw [gather_nil]
      exact Rest.take_of_clean delivers short intake got
  | cons r replies ih =>
      intro bs want intake got delivers short
      have pos : 0 < want := Nat.zero_lt_of_lt short
      cases r with
      | interrupted =>
          simp only [gather, if_neg (Nat.ne_of_gt pos)]
          exact ih want intake got delivers short
      | fault text => cases delivers.2
      | bytes first more =>
          obtain ⟨left, rfl, delivers⟩ := delivers
          rw [List.length_append] at short
          rw [gather_whole_piece (by omega)]
          exact ih _ _ _ delivers (by omega)

/-- Reading takes from the front what is wanted, or all if that is less. -/
theorem take_of_clean {s : Source} {bs : Bytes} (delivers : s.Delivers .clean bs) (want : Nat)
    (intake : Intake) :
    ∃ s', s.take intake want = (.ok (bs.take want), s') ∧
      s'.Delivers .clean (bs.drop want) := by
  rcases Nat.lt_or_ge bs.length want with short | there
  · refine ⟨(s.take intake want).2, Prod.ext ?_ rfl, ?_⟩
    · rw [take_past_end delivers short intake, List.take_of_length_le (Nat.le_of_lt short),
        Ending.met]
    · rw [List.drop_of_length_le (Nat.le_of_lt short)]
      exact gather_of_clean want intake [] delivers short
  · exact take_of_delivers delivers there intake

theorem repliesDeliver_unique {ending ending' : Ending} {rest : Rest} {replies : List Reply} :
    ∀ {bs bs' : Bytes}, RepliesDeliver ending rest replies bs →
      RepliesDeliver ending' rest replies bs' → bs = bs' ∧ ending = ending' := by
  induction replies with
  | nil =>
      intro bs bs' delivers delivers'
      cases rest with
      | ended => exact ⟨delivers.1.trans delivers'.1.symm, delivers.2.trans delivers'.2.symm⟩
      | failing text => exact ⟨delivers.1.trans delivers'.1.symm, delivers.2.trans delivers'.2.symm⟩
      | compressed d => exact Zstd.Decoder.delivers_unique delivers delivers'
  | cons r replies ih =>
      intro bs bs' delivers delivers'
      cases r with
      | interrupted => exact ih delivers delivers'
      | fault text => exact ⟨delivers.1.trans delivers'.1.symm, delivers.2.trans delivers'.2.symm⟩
      | bytes first more =>
          obtain ⟨left, rfl, delivers⟩ := delivers
          obtain ⟨left', rfl, delivers'⟩ := delivers'
          obtain ⟨rfl, same⟩ := ih delivers delivers'
          exact ⟨rfl, same⟩

/-- No source delivers two different things, or one with two different endings. -/
theorem delivers_unique {s : Source} {bs bs' : Bytes} {ending ending' : Ending}
    (delivers : s.Delivers ending bs) (delivers' : s.Delivers ending' bs') :
    bs = bs' ∧ ending = ending' :=
  repliesDeliver_unique delivers delivers'

end Source

end BinaryLog
