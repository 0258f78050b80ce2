/-
# BinaryLog.Proofs.Cutting -- what is cut from any source

A source may fail, end in the middle, or hold data that are no compressed data at all.  It still
never gives more than is asked for (`Source.length_of_take`): every reply that is too long is cut,
and so is what a decoder has ready.  Hence what is cut off as an event has the length that its
header declares, whatever the source is (`Source.framed_of_cut`).
-/
import BinaryLog.Proofs.Exhaustion
import BinaryLog.Proofs.Framing
import BinaryLog.Proofs.Reads

namespace BinaryLog

set_option autoImplicit false

namespace Zstd

theorem OpenFrame.delivered_le_of_run {data : ByteArray} {buffer stop fuel : Nat} :
    ∀ {f f' : OpenFrame} {s : Stop}, f.delivered ≤ stop →
      run data buffer stop fuel f = .ok (s, f') → f'.delivered ≤ stop := by
  induction fuel with
  | zero =>
      intro f f' s below ran
      cases ran
      exact below
  | succ fuel ih =>
      intro f f' s below ran
      simp only [run] at ran
      split at ran
      · cases ran
        exact below
      · cases ran
        exact below
      · split at ran
        · cases ran
          exact below
        · split at ran
          · cases ran
            exact below
          · cases ran
      · split at ran
        · cases ran
        · cases ran
          exact below
        · rename_i g went
          have within : (g.deliver buffer stop).delivered ≤ stop := by
            rw [deliver_delivered]
            exact Nat.min_le_left _ _
          split at ran
          · cases ran
            exact within
          · exact ih within ran

namespace Decoder

variable {input : ByteArray} {buffers : Buffers} {n : Nat}

theorem length_of_runFrame {f : OpenFrame} {bytes : Bytes} {d : Decoder}
    (ran : runFrame input buffers n f = .ok (.reply bytes d)) : bytes.length ≤ n := by
  simp only [runFrame] at ran
  split at ran
  · cases ran
  · rename_i stop g went
    have most := OpenFrame.delivered_le_of_run (Nat.le_add_right f.delivered n) went
    split at ran
    · cases ran
      rw [length_slice]
      omega
    · split at ran <;> cases ran

theorem length_of_readFrames {fuel : Nat} :
    ∀ {buffers : Buffers} {i : Nat} {bytes : Bytes} {d : Decoder},
      readFrames input n fuel buffers i = .ok (bytes, d) → bytes.length ≤ n := by
  induction fuel with
  | zero =>
      intro buffers i bytes d reads
      cases reads
      exact Nat.zero_le n
  | succ fuel ih =>
      intro buffers i bytes d reads
      simp only [readFrames] at reads
      split at reads
      · cases reads
        exact Nat.zero_le n
      · split at reads
        · cases reads
        · rename_i buffers' content next starts
          obtain ⟨-, -, size⟩ := startFrame_bounded starts
          split at reads
          · exact ih reads
          · cases reads
            rwa [length_toList]
        · split at reads
          · cases reads
          · rename_i bytes' d' ran
            cases reads
            exact length_of_runFrame ran
          · exact ih reads

/-- No read brings more than was asked for. -/
theorem length_of_read {d d' : Decoder} {bytes : Bytes} (reads : d.read n = .ok (bytes, d')) :
    bytes.length ≤ n := by
  obtain ⟨input, buffers, next, frame⟩ := d
  cases frame with
  | none => exact length_of_readFrames reads
  | some f =>
      simp only [Decoder.read] at reads
      split at reads
      · cases reads
        rw [length_slice, OpenFrame.deliver_delivered]
        omega
      · split at reads
        · cases reads
        · rename_i bytes' d' ran
          cases reads
          exact length_of_runFrame ran
        · exact length_of_readFrames reads

end Decoder

end Zstd

theorem Rest.length_of_decompress {fuel : Nat} :
    ∀ {want : Nat} {d : Zstd.Decoder} {intake : Intake} {got bs : Bytes},
      (decompress fuel intake want got d).1 = .ok bs → bs.length ≤ got.length + want := by
  induction fuel with
  | zero =>
      intro want d intake got bs reads
      cases reads
      simp
  | succ fuel ih =>
      intro want d intake got bs reads
      simp only [decompress] at reads
      split at reads
      · cases reads
        simp
      · split at reads
        · cases reads
        · rename_i piece d' gives
          have asked := Nat.le_trans (Zstd.Decoder.length_of_read gives) (intake.ask_le want)
          split at reads
          · cases reads
            simp
          · have later := ih reads
            rw [List.reverseAux_eq, List.length_append, List.length_reverse] at later
            omega

theorem Rest.length_of_take {rest : Rest} {want : Nat} {intake : Intake} {got bs : Bytes}
    (reads : (rest.take intake want got).1 = .ok bs) : bs.length ≤ got.length + want := by
  cases rest with
  | ended =>
      cases reads
      simp
  | failing text =>
      simp only [take] at reads
      split at reads
      · cases reads
        simp
      · cases reads
  | compressed d => exact length_of_decompress reads

namespace Source

theorem length_of_gather {rest : Rest} {raised : Option String} {replies : List Reply} :
    ∀ {want : Nat} {intake : Intake} {got bs : Bytes},
      (gather rest raised intake want got replies).1 = .ok bs → bs.length ≤ got.length + want := by
  induction replies with
  | nil =>
      intro want intake got bs reads
      rw [gather_nil] at reads
      exact Rest.length_of_take reads
  | cons r replies ih =>
      intro want intake got bs reads
      simp only [gather] at reads
      split at reads
      · cases reads
        simp
      · cases r with
        | interrupted => exact ih reads
        | fault text => cases reads
        | bytes first more =>
            simp only [List.reverseAux_eq] at reads
            split at reads
            · have later := ih reads
              simp only [List.length_append, List.length_reverse, List.length_take] at later
              omega
            · cases reads
              simp only [List.length_append, List.length_reverse, List.length_take]
              omega

/-- No reader gets more than it wants. -/
theorem length_of_take {s s' : Source} {intake : Intake} {want : Nat} {bs : Bytes}
    (reads : s.take intake want = (.ok bs, s')) : bs.length ≤ want := by
  have most : bs.length ≤ ([] : Bytes).length + want := length_of_gather (congrArg Prod.fst reads)
  simpa using most

theorem framed_of_cutBody {least : Nat} {head raw : Bytes} {s s' : Source} {header : EventHeader}
    (there : head.length = EventHeader.size) (large : EventHeader.size ≤ least)
    (cuts : cutBody least head s = (.event header raw, s')) :
    header = .ofBytes raw ∧ least ≤ raw.length ∧ declaredLength raw = raw.length := by
  have whole : EventHeader.size ≤ head.length := Nat.le_of_eq there.symm
  simp only [cutBody, EventHeader.read_eq whole] at cuts
  rcases Nat.lt_or_ge (declaredLength head) least with short | long
  · rw [EventHeader.checkLength_of_lt short] at cuts
    cases cuts
  · simp only [EventHeader.checkLength_of_le long] at cuts
    split at cuts
    · cases cuts
    · rename_i body s₁ reads
      have most := length_of_take reads
      have data : (EventHeader.ofBytes head).dataLength = declaredLength head - EventHeader.size :=
        rfl
      split at cuts
      · cases cuts
      · rename_i enough
        cases cuts
        have length : (head ++ body).length = declaredLength head := by
          rw [List.length_append]
          omega
        rw [EventHeader.ofBytes_append whole, declaredLength_append whole, length]
        exact ⟨rfl, long, rfl⟩

/-- What is cut off as an event is as long as its header declares. -/
theorem framed_of_cut {least : Nat} {s s' : Source} {header : EventHeader} {raw : Bytes}
    (large : EventHeader.size ≤ least) (cuts : cut least s = (.event header raw, s')) :
    header = .ofBytes raw ∧ least ≤ raw.length ∧ declaredLength raw = raw.length := by
  simp only [cut, fill] at cuts
  split at cuts
  · cases cuts
  · rename_i head s₁ first
    have most := length_of_take first
    split at cuts
    · cases cuts
    · split at cuts
      · cases cuts
      · rename_i enough
        exact framed_of_cutBody (by omega) large cuts

end Source

end BinaryLog
