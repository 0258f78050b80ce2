/-
# BinaryLog.Proofs.GtidSets -- how a set of transaction ids is written, and what is read of it

A set is written as the number of its ranges and the ranges, a range as a server, the number of its
intervals and the intervals, an interval as its start and the number behind its end.  Within a range
these numbers ascend from above zero, and no server has two ranges (`GtidRange.Written`,
`GtidSet.Written`).  The reader takes just that, in front of anything (`GtidSet.takes_read`).

So what is read is in its normal form: intervals do not overlap, do not touch and are not empty
(`GtidRange.Canonical`), a server is found if it has a range, and what is found is this range
(`GtidSet.Canonical`).  Nothing of what is written is lost (`GtidSet.Written.unique`).  A number of
ranges or intervals that the input has no room for is refused, however large it is
(`GtidSet.error_of_ranges`, `GtidSet.error_of_intervals`).
-/
import BinaryLog.Event.Gtid
import BinaryLog.Proofs.Grammars
import Mathlib.Data.List.Chain

namespace BinaryLog

set_option autoImplicit false

open Wire Read

/-! ## Intervals -/

/-- An interval as it is written: where it starts, and the number behind its end. -/
structure GtidBounds where
  start : UInt64
  stop : UInt64
deriving DecidableEq, Repr

namespace GtidBounds

def interval (b : GtidBounds) : GtidInterval := { first := b.start, last := b.stop - 1 }

def numbers (b : GtidBounds) : List UInt64 := [b.start, b.stop]

def encode (b : GtidBounds) : Bytes := Word.bytes b.start ++ Word.bytes b.stop

/-- From one number on, all starts and stops ascend. -/
def AscendFrom (last : UInt64) (bounds : List GtidBounds) : Prop :=
  (last :: bounds.flatMap numbers).IsChain (· < ·)

instance (last : UInt64) (bounds : List GtidBounds) : Decidable (AscendFrom last bounds) :=
  inferInstanceAs (Decidable (List.IsChain _ _))

variable {last : UInt64} {b : GtidBounds} {bounds : List GtidBounds}

theorem ascendFrom_cons :
    AscendFrom last (b :: bounds) ↔
      last < b.start ∧ b.start < b.stop ∧ AscendFrom b.stop bounds := by
  simp only [AscendFrom, List.flatMap_cons, numbers, List.cons_append, List.nil_append,
    List.isChain_cons_cons]

theorem interval_injective : Function.Injective interval := by
  intro b b' same
  rw [interval, interval, GtidInterval.mk.injEq, UInt64.sub_left_inj] at same
  cases b
  cases b'
  rw [mk.injEq]
  exact same

theorem length_encode (b : GtidBounds) : b.encode.length = 16 := by
  rw [encode, List.length_append, Word.length_bytes, Word.length_bytes]
  rfl

theorem length_flatMap_encode (bounds : List GtidBounds) :
    (bounds.flatMap encode).length = 16 * bounds.length := by
  induction bounds with
  | nil => rfl
  | cons b bounds ih =>
      rw [List.flatMap_cons, List.length_append, length_encode, ih, List.length_cons]
      omega

end GtidBounds

open GtidBounds

/-! ## Ranges -/

namespace GtidRange

/-- What a range is written as. -/
inductive Written : GtidRange → Bytes → Prop
  | intro (sid : Sid) (count : UInt64) (bounds : List GtidBounds)
      (counted : bounds.length = count.toNat) (ascend : AscendFrom 0 bounds) :
      Written ⟨sid, bounds.map interval⟩
        (Word.bytes sid ++ (Word.bytes count ++ bounds.flatMap encode))

/-- The intervals of a range are not empty, and each starts at least two behind the end of the one
before, so that none could be joined with another. -/
structure Canonical (r : GtidRange) : Prop where
  forward : ∀ i ∈ r.intervals, 1 ≤ i.first.toNat ∧ i.first.toNat ≤ i.last.toNat
  apart : r.intervals.IsChain fun i j => i.last.toNat + 2 ≤ j.first.toNat

variable {r : GtidRange} {lead lead' : Bytes}

theorem takes_readIntervals (last : UInt64) (n : Nat) :
    (readIntervals last n).Takes fun intervals lead => ∃ bounds, bounds.length = n ∧
      AscendFrom last bounds ∧ intervals = bounds.map interval ∧ lead = bounds.flatMap encode where
  reads := by
    rintro _ _ ⟨bounds, rfl, ascend, rfl, rfl⟩ rest
    induction bounds generalizing last with
    | nil => rfl
    | cons b bounds ih =>
        obtain ⟨above, forward, later⟩ := ascendFrom_cons.1 ascend
        rw [List.flatMap_cons, encode, List.append_assoc, List.append_assoc, List.length_cons,
          readIntervals, bind_of_ok (word_append b.start _), bind_of_ok (word_append b.stop _),
          if_pos ⟨above, forward⟩, bind_of_ok (ih b.stop later)]
        rfl
  allows := by
    induction n generalizing last with
    | zero =>
        intro bs rest intervals reads
        cases reads
        exact ⟨[], ⟨[], rfl, .singleton last, rfl, rfl⟩, rfl⟩
    | succ n ih =>
        intro bs rest intervals reads
        obtain ⟨start, mid, first, reads⟩ := exists_of_bind_apply reads
        obtain ⟨stop, mid', second, reads⟩ := exists_of_bind_apply reads
        split at reads
        · rename_i between
          obtain ⟨more, mid'', later, done⟩ := exists_of_bind_apply reads
          cases done
          obtain ⟨_, ⟨bounds, rfl, ascend, rfl, rfl⟩, rfl⟩ := ih stop later
          refine ⟨_, ⟨⟨start, stop⟩ :: bounds, rfl, ?_, rfl, rfl⟩, ?_⟩
          · exact ascendFrom_cons.2 ⟨between.1, between.2, ascend⟩
          · rw [← append_of_word first, ← append_of_word second, List.flatMap_cons, encode,
              List.append_assoc, List.append_assoc]
        · cases reads

theorem takes_read : read.Takes Written where
  reads := by
    rintro _ _ ⟨sid, count, bounds, counted, ascend⟩ rest
    have intervals := (takes_readIntervals 0 count.toNat).reads ⟨bounds, counted, ascend, rfl, rfl⟩
    rw [List.append_assoc, List.append_assoc, read, bind_of_ok (word_append sid _),
      bind_of_ok (word_append count _), bind_of_ok (intervals rest)]
    rfl
  allows := by
    intro bs rest r reads
    obtain ⟨sid, mid, first, reads⟩ := exists_of_bind_apply reads
    obtain ⟨count, mid', second, reads⟩ := exists_of_bind_apply reads
    obtain ⟨intervals, mid'', later, done⟩ := exists_of_bind_apply reads
    cases done
    obtain ⟨_, ⟨bounds, counted, ascend, rfl, rfl⟩, rfl⟩ := (takes_readIntervals 0 _).allows later
    refine ⟨_, .intro sid count bounds counted ascend, ?_⟩
    rw [← append_of_word first, ← append_of_word second, List.append_assoc, List.append_assoc]

theorem canonical_of_ascend {sid : Sid} {last : UInt64} {bounds : List GtidBounds}
    (ascend : AscendFrom last bounds) : Canonical ⟨sid, bounds.map interval⟩ := by
  induction bounds generalizing last with
  | nil => exact ⟨fun i member => (List.not_mem_nil member).elim, .nil⟩
  | cons b bounds ih =>
      obtain ⟨above, forward, later⟩ := ascendFrom_cons.1 ascend
      have one : (1 : UInt64) ≤ b.stop := by
        rw [UInt64.lt_iff_toNat_lt] at forward
        exact UInt64.le_iff_toNat_le.2 (Nat.succ_le_of_lt (Nat.zero_lt_of_lt forward))
      have before : (b.stop - 1).toNat = b.stop.toNat - 1 := UInt64.toNat_sub_of_le _ _ one
      rw [UInt64.lt_iff_toNat_lt] at above forward
      obtain ⟨ahead, apart⟩ := ih later
      refine ⟨?_, ?_⟩
      · intro i member
        rcases List.mem_cons.1 member with rfl | member
        · simp only [interval, before]
          omega
        · exact ahead i member
      · refine List.isChain_cons.2 ⟨?_, apart⟩
        intro j next
        cases bounds with
        | nil => cases next
        | cons b' bounds =>
            obtain rfl := Option.some.inj next
            have behind := UInt64.lt_iff_toNat_lt.1 (ascendFrom_cons.1 later).1
            simp only [interval, before]
            omega

theorem Written.canonical (written : r.Written lead) : r.Canonical := by
  cases written with
  | intro sid count bounds counted ascend => exact canonical_of_ascend ascend

theorem Written.length_eq (written : r.Written lead) :
    lead.length = 24 + 16 * r.intervals.length := by
  cases written with
  | intro sid count bounds counted ascend =>
      rw [List.length_append, List.length_append, Word.length_bytes, Word.length_bytes,
        length_flatMap_encode, List.length_map, ← Nat.add_assoc]
      rfl

theorem Written.unique (one : r.Written lead) (other : r.Written lead') : lead = lead' := by
  obtain ⟨sid, intervals⟩ := r
  cases one with
  | intro _ count bounds counted ascend =>
      generalize same : bounds.map interval = intervals at other
      cases other with
      | intro _ count' bounds' counted' ascend' =>
          obtain rfl := List.map_injective_iff.2 interval_injective same
          obtain rfl : count = count' := UInt64.toNat_inj.1 (counted.symm.trans counted')
          rfl

end GtidRange

/-! ## Sets -/

namespace GtidSet

/-- What a set is written as. -/
inductive Written : GtidSet → Bytes → Prop
  | intro (count : UInt64) {ranges : List GtidRange} {pieces : List Bytes}
      (counted : ranges.length = count.toNat) (distinct : (ranges.map (·.sid)).Nodup)
      (each : List.Forall₂ GtidRange.Written ranges pieces) :
      Written ⟨ranges⟩ (Word.bytes count ++ pieces.flatten)

/-- A set in which each server has one range, which is found by the server, and each range is in
normal form. -/
structure Canonical (s : GtidSet) : Prop where
  distinct : (s.ranges.map (·.sid)).Nodup
  found : ∀ sid r, s.get? sid = some r ↔ r ∈ s.ranges ∧ r.sid = sid
  ranges : ∀ r ∈ s.ranges, r.Canonical

variable {s : GtidSet} {lead lead' bs rest : Bytes}

theorem takes_readRanges (seen : List Sid) (n : Nat) :
    (readRanges seen n).Takes fun ranges lead => ranges.length = n ∧
      (∀ r ∈ ranges, r.sid ∉ seen) ∧ (ranges.map (·.sid)).Nodup ∧
      InRow GtidRange.Written ranges lead where
  reads := by
    rintro _ _ ⟨rfl, fresh, distinct, pieces, each, rfl⟩ rest
    induction each generalizing seen with
    | nil => rfl
    | @cons r piece ranges pieces first later ih =>
        rw [List.map_cons, List.nodup_cons] at distinct
        obtain ⟨new, distinct⟩ := distinct
        have unseen : r.sid ∉ seen := fresh r (List.mem_cons_self ..)
        have fresh' : ∀ r' ∈ ranges, r'.sid ∉ r.sid :: seen := by
          intro r' member seen'
          rcases List.mem_cons.1 seen' with same | old
          · exact new (same ▸ List.mem_map_of_mem member)
          · exact fresh r' (List.mem_cons_of_mem _ member) old
        rw [List.flatten_cons, List.append_assoc, List.length_cons, readRanges,
          bind_of_ok (GtidRange.takes_read.reads first _), if_neg unseen,
          bind_of_ok (ih (r.sid :: seen) fresh' distinct)]
        rfl
  allows := by
    induction n generalizing seen with
    | zero =>
        intro bs rest ranges reads
        cases reads
        exact ⟨[], ⟨rfl, fun r member => (List.not_mem_nil member).elim, .nil, inRow_nil⟩, rfl⟩
    | succ n ih =>
        intro bs rest ranges reads
        obtain ⟨r, mid, first, reads⟩ := exists_of_bind_apply reads
        split at reads
        · cases reads
        · rename_i unseen
          obtain ⟨more, mid', later, done⟩ := exists_of_bind_apply reads
          cases done
          obtain ⟨piece, written, rfl⟩ := GtidRange.takes_read.allows first
          obtain ⟨behind, ⟨count, fresh, distinct, row⟩, rfl⟩ := ih (r.sid :: seen) later
          refine ⟨piece ++ behind, ⟨congrArg (· + 1) count, ?_, ?_, row.cons written⟩,
            (List.append_assoc ..).symm⟩
          · intro r' member
            rcases List.mem_cons.1 member with rfl | member
            · exact unseen
            · exact fun old => fresh r' member (List.mem_cons_of_mem _ old)
          · rw [List.map_cons, List.nodup_cons]
            refine ⟨fun member => ?_, distinct⟩
            obtain ⟨r', inside, same⟩ := List.mem_map.1 member
            exact fresh r' inside (same ▸ List.mem_cons_self ..)

theorem takes_read : read.Takes Written where
  reads := by
    rintro _ _ ⟨count, counted, distinct, each⟩ rest
    have ranges := (takes_readRanges [] count.toNat).reads
      ⟨counted, fun r _ => List.not_mem_nil, distinct, _, each, rfl⟩ rest
    rw [List.append_assoc, read, bind_of_ok (word_append count _), map_eq_bind, bind_of_ok ranges]
    rfl
  allows := by
    intro bs rest s reads
    obtain ⟨count, mid, first, later⟩ := exists_of_bind_apply reads
    obtain ⟨ranges, inner, rfl⟩ := of_map later
    obtain ⟨_, ⟨counted, -, distinct, pieces, each, rfl⟩, rfl⟩ :=
      (takes_readRanges [] _).allows inner
    refine ⟨_, .intro count counted distinct each, ?_⟩
    rw [← append_of_word first, List.append_assoc]

theorem find?_eq_some_iff {ranges : List GtidRange} (distinct : (ranges.map (·.sid)).Nodup)
    (sid : Sid) (r : GtidRange) :
    ranges.find? (·.sid == sid) = some r ↔ r ∈ ranges ∧ r.sid = sid := by
  constructor
  · intro found
    have same := List.find?_some (p := fun r' : GtidRange => r'.sid == sid) found
    exact ⟨List.mem_of_find?_eq_some found, beq_iff_eq.1 same⟩
  · rintro ⟨member, rfl⟩
    induction ranges with
    | nil => cases member
    | cons r' ranges ih =>
        rw [List.map_cons, List.nodup_cons] at distinct
        obtain ⟨new, distinct⟩ := distinct
        rw [List.find?_cons]
        rcases List.mem_cons.1 member with rfl | member
        · rw [beq_self_eq_true]
        · have other : (r'.sid == r.sid) = false := by
            refine beq_eq_false_iff_ne.2 fun same => new ?_
            exact same ▸ List.mem_map_of_mem member
          rw [other]
          exact ih distinct member

theorem Written.canonical (written : s.Written lead) : s.Canonical := by
  cases written with
  | intro count counted distinct each =>
      refine ⟨distinct, fun sid r => find?_eq_some_iff distinct sid r, fun r member => ?_⟩
      have row : InRow GtidRange.Written _ _ := ⟨_, each, rfl⟩
      obtain ⟨piece, written⟩ := row.exists_form member
      exact written.canonical

theorem Written.unique (one : s.Written lead) (other : s.Written lead') : lead = lead' := by
  obtain ⟨ranges⟩ := s
  cases one with
  | intro count counted distinct each =>
      cases other with
      | intro count' counted' distinct' each' =>
          obtain rfl : count = count' := UInt64.toNat_inj.1 (counted.symm.trans counted')
          have functional : Relator.RightUnique GtidRange.Written :=
            fun _ _ _ => GtidRange.Written.unique
          rw [functional.forall₂ each each']

theorem Written.exists_count (written : s.Written lead) :
    ∃ (count : UInt64) (tail : Bytes), lead = Word.bytes count ++ tail ∧ s.size = count.toNat := by
  cases written with
  | intro count counted distinct each => exact ⟨count, _, rfl, counted⟩

/-! ## Numbers that the input has no room for -/

/-- What stands behind the number of ranges, if a set was read, starts with so many of them. -/
theorem exists_of_read {count : UInt64} {tail : Bytes}
    (reads : read (Word.bytes count ++ tail) = .ok s rest) :
    ∃ front, s.ranges.length = count.toNat ∧ InRow GtidRange.Written s.ranges front ∧
      tail = front ++ rest := by
  obtain ⟨_, ⟨count', counted, -, each⟩, whole⟩ := takes_read.allows reads
  rw [List.append_assoc] at whole
  obtain ⟨rfl, -, rfl⟩ := (takes_word UInt64).unique rfl rfl whole
  exact ⟨_, counted, ⟨_, each, rfl⟩, rfl⟩

theorem error_of_ranges {count : UInt64} {tail : Bytes} (few : tail.length < 24 * count.toNat) :
    ∃ e rest, read (Word.bytes count ++ tail) = .error e rest := by
  cases reads : read (Word.bytes count ++ tail) with
  | error e rest => exact ⟨e, rest, rfl⟩
  | ok s rest =>
      obtain ⟨front, counted, row, rfl⟩ := exists_of_read reads
      have least := row.mul_length_le fun written => written.length_eq ▸ Nat.le_add_right 24 _
      rw [List.length_append] at few
      omega

theorem error_of_intervals {count number : UInt64} {sid : Sid} {ranges : List GtidRange}
    {front tail : Bytes} (row : InRow GtidRange.Written ranges front)
    (more : ranges.length < count.toNat) (few : tail.length < 16 * number.toNat) :
    ∃ e rest, read (Word.bytes count ++
      (front ++ (Word.bytes sid ++ (Word.bytes number ++ tail)))) = .error e rest := by
  cases reads : read (Word.bytes count ++
      (front ++ (Word.bytes sid ++ (Word.bytes number ++ tail)))) with
  | error e rest => exact ⟨e, rest, rfl⟩
  | ok s rest =>
      obtain ⟨front', counted, row', whole⟩ := exists_of_read reads
      obtain ⟨_, _, behind, ⟨sid', number', bounds, counted', -⟩, next⟩ :=
        GtidRange.takes_read.exists_next row row' whole (counted ▸ more)
      rw [List.append_assoc, List.append_assoc] at next
      obtain ⟨-, -, next⟩ := (takes_word Sid).unique rfl rfl next
      obtain ⟨rfl, -, rfl⟩ := (takes_word UInt64).unique rfl rfl next
      rw [List.length_append, length_flatMap_encode, counted'] at few
      omega

/-! ## All of it -/

/-- **The grammar of sets, and the normal form of what is read.**  A set is read where one is
written, which is where as many ranges stand as are announced, each of another server, with as many
intervals as are announced, whose starts and exclusive ends ascend from above zero; and nowhere
else.  The ranges are given in the order in which they stand.  There are as many as were announced,
a server is found if it has one, and intervals are sorted, disjoint and not adjacent.  A set tells
which bytes it was read from.  Where there are not even 24 bytes for each range that is announced,
or 16 for each interval of the next range, the set is refused. -/
theorem set_grammar :
    (∀ {bs rest : Bytes} {s : GtidSet},
      read bs = .ok s rest ↔ ∃ lead, s.Written lead ∧ bs = lead ++ rest) ∧
    (∀ {bs rest : Bytes} {s : GtidSet}, read bs = .ok s rest → s.Canonical ∧
      ∃ (count : UInt64) (tail : Bytes), bs = Word.bytes count ++ tail ∧ s.size = count.toNat) ∧
    (∀ {lead lead' rest rest' : Bytes} {s : GtidSet}, read (lead ++ rest) = .ok s rest →
      read (lead' ++ rest') = .ok s rest' → lead = lead') ∧
    (∀ {count : UInt64} {tail : Bytes}, tail.length < 24 * count.toNat →
      ∃ e rest, read (Word.bytes count ++ tail) = .error e rest) ∧
    (∀ {count number : UInt64} {sid : Sid} {ranges : List GtidRange} {front tail : Bytes},
      InRow GtidRange.Written ranges front → ranges.length < count.toNat →
      tail.length < 16 * number.toNat →
      ∃ e rest, read (Word.bytes count ++
        (front ++ (Word.bytes sid ++ (Word.bytes number ++ tail)))) = .error e rest) := by
  refine ⟨takes_read.eq_ok_iff, ?_, ?_, error_of_ranges, error_of_intervals⟩
  · intro bs rest s reads
    obtain ⟨lead, written, rfl⟩ := takes_read.allows reads
    obtain ⟨count, tail, rfl, size⟩ := written.exists_count
    exact ⟨written.canonical, count, tail ++ rest, List.append_assoc .., size⟩
  · intro lead lead' rest rest' s one other
    obtain ⟨_, written, whole⟩ := takes_read.allows one
    obtain ⟨_, written', whole'⟩ := takes_read.allows other
    rw [List.append_cancel_right whole, List.append_cancel_right whole', written.unique written']

namespace Example

def first : GtidRange := { sid := 1, intervals := [⟨1, 4⟩, ⟨7, 8⟩] }

def second : GtidRange := { sid := 2, intervals := [⟨1, 0xfffffffffffffffe⟩] }

theorem first_written : first.Written (Word.bytes (1 : Sid) ++ (Word.bytes (2 : UInt64) ++
    [GtidBounds.mk 1 5, ⟨7, 9⟩].flatMap encode)) :=
  .intro 1 2 [⟨1, 5⟩, ⟨7, 9⟩] rfl (by decide)

theorem second_written : second.Written (Word.bytes (2 : Sid) ++ (Word.bytes (1 : UInt64) ++
    [GtidBounds.mk 1 0xffffffffffffffff].flatMap encode)) :=
  .intro 2 1 [⟨1, 0xffffffffffffffff⟩] rfl (by decide)

end Example

/-- Two servers, of which the second has an interval that ends as high as one can.  With more ranges
or more intervals announced than there are, however many, the same bytes are refused. -/
theorem set_grammar_of_two_servers :
    ∃ one two : Bytes, Example.first.Written one ∧ Example.second.Written two ∧
      (∀ rest, read (Word.bytes (2 : UInt64) ++ (one ++ two) ++ rest) =
        .ok ⟨[Example.first, Example.second]⟩ rest) ∧
      Canonical ⟨[Example.first, Example.second]⟩ ∧
      (∃ e rest, read (Word.bytes (0xffffffffffffffff : UInt64) ++ (one ++ two)) = .error e rest) ∧
      ∃ e rest, read (Word.bytes (2 : UInt64) ++ (one ++ (Word.bytes (2 : Sid) ++
        (Word.bytes (0xffffffffffffffff : UInt64) ++ [])))) = .error e rest := by
  obtain ⟨accepts, normal, -, noRanges, noIntervals⟩ := set_grammar
  have both : Written ⟨[Example.first, Example.second]⟩ _ :=
    .intro 2 rfl (by decide) (.cons Example.first_written (.cons Example.second_written .nil))
  rw [List.flatten_cons, List.flatten_cons, List.flatten_nil, List.append_nil] at both
  have reads (rest : Bytes) := accepts.2 ⟨_, both, (rfl : _ ++ rest = _)⟩
  refine ⟨_, _, Example.first_written, Example.second_written, reads, (normal (reads [])).1, ?_, ?_⟩
  · exact noRanges (by decide)
  · exact noIntervals (.single Example.first_written) (by decide) (by decide)

end GtidSet

end BinaryLog
