/-
# BinaryLog.Proofs.Consumption -- how far a call goes

A call takes a header, and then as many bytes as that declares; nothing if nothing is there, only
the header if it declares too few, and all that is there if it declares too many (`taken`).  It
takes the same whether the event can be decoded or not, and however the source brings its bytes
(`EventStream.nextWith_of_clean`).

So a run passes over no byte, and over none twice.  Every call that finds bytes takes a header's
worth of them or all, so that the end is reached in a number of calls that the number of bytes
bounds, whatever the bytes are (`EventStream.consumption`).
-/
import BinaryLog.Payload.Events
import BinaryLog.Proofs.Exhaustion
import BinaryLog.Proofs.Mode

namespace BinaryLog

set_option autoImplicit false

/-! ## What a call takes -/

/-- How many bytes a call takes when `bs` are to come and events have at least the given length: as
many as the header declares, or all if there are not so many, but only the header if it declares
too few, and all if not even the header is there. -/
def taken (least : Nat) (bs : Bytes) : Nat :=
  if bs.length < EventHeader.size then bs.length
  else if declaredLength bs < least then EventHeader.size
  else min (declaredLength bs) bs.length

theorem taken_le (least : Nat) (bs : Bytes) : taken least bs ≤ bs.length := by
  simp only [taken]
  split
  · exact Nat.le_refl _
  · split <;> omega

/-- A header's worth of bytes at least, or all. -/
theorem min_size_le_taken {least : Nat} (large : EventHeader.size ≤ least) (bs : Bytes) :
    min EventHeader.size bs.length ≤ taken least bs := by
  simp only [taken]
  split
  · exact Nat.min_le_right _ _
  · split <;> omega

/-- Nothing is taken only if nothing is there. -/
theorem taken_eq_zero_iff {least : Nat} (large : EventHeader.size ≤ least) {bs : Bytes} :
    taken least bs = 0 ↔ bs = [] := by
  have most := taken_le least bs
  have fewest := min_size_le_taken large bs
  rw [← List.length_eq_zero_iff]
  simp only [EventHeader.size] at fewest
  omega

/-- What is cut off is taken, and nothing else. -/
theorem Source.cut_of_clean {least : Nat} {s : Source} {bs : Bytes}
    (large : EventHeader.size ≤ least) (delivers : s.Delivers .clean bs) :
    (cut least s).2.Delivers .clean (bs.drop (taken least bs)) := by
  obtain ⟨s', head, behind⟩ := take_of_clean delivers EventHeader.size .exact
  rcases Nat.lt_or_ge bs.length EventHeader.size with short | there
  · -- a part of a header, or nothing
    have all : bs.take EventHeader.size = bs := List.take_of_length_le (Nat.le_of_lt short)
    rw [taken, if_pos short, List.drop_length]
    rw [List.drop_of_length_le (Nat.le_of_lt short)] at behind
    simp only [cut, fill, head, all]
    split <;> exact behind
  · rw [cut_of_take least there head, taken, if_neg (Nat.not_lt_of_le there)]
    simp only [cutBody, read_header there]
    rcases Nat.lt_or_ge (declaredLength bs) least with few | long
    · -- the header alone, which is refused
      simp only [EventHeader.checkLength_of_lt few, if_pos few]
      exact behind
    · have data : (EventHeader.ofBytes bs).dataLength = declaredLength bs - EventHeader.size := rfl
      obtain ⟨s'', rest, left⟩ := take_of_clean behind (declaredLength bs - EventHeader.size)
        (.growing (EventHeader.ofBytes bs).buffer)
      have sum : EventHeader.size + (declaredLength bs - EventHeader.size) = declaredLength bs := by
        omega
      have cap : bs.drop (min (declaredLength bs) bs.length) = bs.drop (declaredLength bs) :=
        List.drop_eq_drop_iff.2 (by omega)
      rw [List.drop_drop, sum] at left
      simp only [EventHeader.checkLength_of_le long, if_neg (Nat.not_lt_of_le long), data, rest,
        cap]
      split <;> exact left

/-! ## What a call comes to -/

/-- What the bytes say that decide a call. -/
def decidedOutcome (payload : Decode Transaction) (o : Options) (bs : Bytes) :
    Except Error (Option Event) :=
  if declaredLength bs < o.leastLength then
    .error (.invalidFormat (.eventTooShort (EventHeader.ofBytes bs).eventLength o.leastLength))
  else some <$> (Event.decodeWith payload o (.ofBytes bs) (bs.take (declaredLength bs))).1

/-- What a call comes to that finds `bs` and behind them the ending. -/
def Ending.call (payload : Decode Transaction) (o : Options) (bs : Bytes) (ending : Ending) :
    Except Error (Option Event) :=
  if Decided o.leastLength bs then decidedOutcome payload o bs else ending.outcome bs

variable {payload : Decode Transaction} {ending : Ending} {bs : Bytes}

theorem decidedOutcome_ne_none {o : Options} : decidedOutcome payload o bs ≠ .ok none := by
  simp only [decidedOutcome]
  split
  · nofun
  · cases (Event.decodeWith payload o (.ofBytes bs) (bs.take (declaredLength bs))).1 <;> nofun

theorem Ending.call_eq_none_iff {o : Options} :
    clean.call payload o bs = .ok none ↔ bs = [] := by
  simp only [call]
  split
  · rename_i decided
    constructor
    · intro none
      exact absurd none decidedOutcome_ne_none
    · rintro rfl
      exact absurd decided.1 (by decide)
  · by_cases none : bs = [] <;> simp [outcome, none]

namespace EventStream

variable {s : EventStream}

variable (payload) in
theorem nextWith_of_decided (delivers : s.source.Delivers ending bs)
    (decided : Decided s.options.leastLength bs) :
    (s.nextWith payload).1 = decidedOutcome payload s.options bs ∧
      (s.nextWith payload).2.source.Delivers ending
        (bs.drop (taken s.options.leastLength bs)) := by
  obtain ⟨there, short | ⟨long, whole⟩⟩ := decided.cases
  · obtain ⟨source, next, left⟩ := nextWith_of_short_length payload delivers there short
    rw [next, decidedOutcome, if_pos short, taken, if_neg (Nat.not_lt_of_le there), if_pos short]
    exact ⟨rfl, left⟩
  · obtain ⟨source, next, left⟩ := nextWith_of_whole payload delivers there long whole
    rw [next, decidedOutcome, if_neg (Nat.not_lt_of_le long), taken,
      if_neg (Nat.not_lt_of_le there), if_neg (Nat.not_lt_of_le long), Nat.min_eq_left whole]
    exact ⟨rfl, left⟩

theorem nextWith_outcome (delivers : s.source.Delivers ending bs) :
    (s.nextWith payload).1 = ending.call payload s.options bs := by
  by_cases decided : Decided s.options.leastLength bs
  · rw [Ending.call, if_pos decided]
    exact (nextWith_of_decided payload delivers decided).1
  · obtain ⟨source, next⟩ := nextWith_of_undecided payload delivers decided
    rw [Ending.call, if_neg decided, next]

variable (payload) in
/-- A call takes its bytes, and leaves what is left. -/
theorem nextWith_of_clean (delivers : s.source.Delivers .clean bs) :
    (s.nextWith payload).2.source.Delivers .clean
      (bs.drop (taken s.options.leastLength bs)) := by
  have cuts := Source.cut_of_clean s.options.size_le_leastLength delivers
  unfold nextWith
  generalize cut s.options.leastLength s.source = found at cuts ⊢
  obtain ⟨found, source⟩ := found
  cases found <;> exact cuts

/-! ## Runs -/

/-- The stream behind `n` calls. -/
def behind (payload : Decode Transaction) : Nat → EventStream → EventStream
  | 0, s => s
  | n + 1, s => behind payload n (s.nextWith payload).2

theorem behind_succ (n : Nat) : ∀ s : EventStream,
    behind payload (n + 1) s = ((behind payload n s).nextWith payload).2 := by
  induction n with
  | zero => intro s; rfl
  | succ n ih => intro s; exact ih (s.nextWith payload).2

/-- What is left of `bs` behind `n` calls if every call takes its own. -/
def left (payload : Decode Transaction) (s : EventStream) (bs : Bytes) : Nat → Bytes
  | 0 => bs
  | n + 1 =>
    let bs := left payload s bs n
    bs.drop (taken (behind payload n s).options.leastLength bs)

/-- How many of the bytes that are left behind `n` calls the next one takes. -/
def takes (payload : Decode Transaction) (s : EventStream) (bs : Bytes) (n : Nat) : Nat :=
  taken (behind payload n s).options.leastLength (left payload s bs n)

variable (payload) in
theorem delivers_behind (delivers : s.source.Delivers .clean bs) (n : Nat) :
    (behind payload n s).source.Delivers .clean (left payload s bs n) := by
  induction n with
  | zero => exact delivers
  | succ n ih =>
      rw [behind_succ]
      exact nextWith_of_clean payload ih

/-- The parts that the calls take, one behind the other, and what is left are all bytes. -/
theorem parts_append_left (n : Nat) :
    (List.range n).flatMap (fun i => (left payload s bs i).take (takes payload s bs i)) ++
      left payload s bs n = bs := by
  induction n with
  | zero => rfl
  | succ n ih =>
      have next : left payload s bs (n + 1) =
          (left payload s bs n).drop (takes payload s bs n) := rfl
      rw [List.range_succ, List.flatMap_append, List.append_assoc, List.flatMap_singleton, next,
        List.take_append_drop, ih]

/-- Calls at the end find the end. -/
theorem calls_at_end (n : Nat) : ∀ {s : EventStream}, s.source.Delivers .clean [] →
    (callsWith payload n s).map (·.1) = List.replicate n (.ok none) := by
  induction n with
  | zero => intro s _; rfl
  | succ n ih =>
      intro s delivers
      have next : (s.nextWith payload).1 = .ok none := by
        rw [nextWith_outcome delivers]
        exact Ending.call_eq_none_iff.2 rfl
      have left := nextWith_of_clean payload delivers
      rw [List.drop_nil] at left
      simp only [callsWith, List.map_cons, next, ih left, List.replicate_succ]

/-- The end is found in time, and then for good. -/
theorem calls_up_to_end (k : Nat) : ∀ {s : EventStream} {bs : Bytes},
    s.source.Delivers .clean bs → bs.length ≤ EventHeader.size * k →
      ∃ others : List (Except Error (Option Event)), others.length ≤ k ∧
        (∀ result ∈ others, result ≠ .ok none) ∧
        ∀ m, (callsWith payload (others.length + m) s).map (·.1) =
          others ++ List.replicate m (.ok none) := by
  -- each call that finds bytes takes one header's worth off the bound, or all bytes
  induction k with
  | zero =>
      intro s bs delivers few
      obtain rfl : bs = [] := List.length_eq_zero_iff.1 (by omega)
      exact ⟨[], Nat.le_refl 0, nofun, fun m => by simpa using calls_at_end m delivers⟩
  | succ k ih =>
      intro s bs delivers few
      by_cases empty : bs = []
      · subst empty
        exact ⟨[], Nat.zero_le _, nofun, fun m => by simpa using calls_at_end m delivers⟩
      · have least := min_size_le_taken s.options.size_le_leastLength bs
        have fewer : (bs.drop (taken s.options.leastLength bs)).length ≤ EventHeader.size * k := by
          rw [List.length_drop]
          simp only [EventHeader.size] at *
          omega
        obtain ⟨others, count, differ, calls⟩ :=
          ih (nextWith_of_clean payload delivers) fewer
        refine ⟨(s.nextWith payload).1 :: others, Nat.succ_le_succ count, ?_, fun m => ?_⟩
        · rw [List.forall_mem_cons]
          refine ⟨fun none => empty ?_, differ⟩
          rw [nextWith_outcome delivers] at none
          exact Ending.call_eq_none_iff.1 none
        · have more : ((s.nextWith payload).1 :: others).length + m = (others.length + m) + 1 := by
            rw [List.length_cons]
            omega
          simp only [more, callsWith, List.map_cons, calls m, List.cons_append]

/-- **A call takes its own bytes and no others.**  Behind every call there is what was in front of
it without the bytes that are taken.  The end is found where nothing is left, and only there is
nothing taken.  So the parts that are taken and what is left are all bytes in their order.  Every
part but the last has at least a header's worth of bytes, so that the end is not far, whatever the
bytes are, and it is the end for good. -/
theorem consumption (payload : Decode Transaction) {s : EventStream} {bs : Bytes}
    (delivers : s.source.Delivers .clean bs) :
    (∀ n, (behind payload n s).source.Delivers .clean (left payload s bs n) ∧
      (((behind payload n s).nextWith payload).1 = .ok none ↔ left payload s bs n = []) ∧
      (takes payload s bs n = 0 ↔ left payload s bs n = [])) ∧
    (∀ n, (List.range n).flatMap (fun i => (left payload s bs i).take (takes payload s bs i)) ++
      left payload s bs n = bs) ∧
    ∃ others : List (Except Error (Option Event)),
      others.length ≤ (bs.length + 18) / 19 ∧ (∀ result ∈ others, result ≠ .ok none) ∧
        ∀ m, (callsWith payload (others.length + m) s).map (·.1) =
          others ++ List.replicate m (.ok none) := by
  refine ⟨fun n => ?_, parts_append_left, calls_up_to_end _ delivers ?_⟩
  · have here := delivers_behind payload delivers n
    refine ⟨here, ?_, ?_⟩
    · rw [nextWith_outcome here]
      exact Ending.call_eq_none_iff
    · exact taken_eq_zero_iff (behind payload n s).options.size_le_leastLength
  · simp only [EventHeader.size]
    omega

end EventStream

namespace Example

/-- A header that declares one byte less than a header has, a stop event, and the start of an event
that declares as many bytes as its length field can. -/
def scraps : Bytes :=
  [0, 0, 0, 0, 3, 1, 0, 0, 0, 18, 0, 0, 0, 0, 0, 0, 0, 0, 0] ++
    ([0, 0, 0, 0, 3, 1, 0, 0, 0, 19, 0, 0, 0, 0, 0, 0, 0, 0, 0] ++
      [0, 0, 0, 0, 3, 1, 0, 0, 0, 255, 255, 255, 255, 0, 0, 0, 0, 0, 0, 7, 7])

/-- The scraps in three pieces, none of which ends where a call does. -/
def dripping : Source where
  replies := Reply.whole (scraps.take 10) ++ .interrupted ::
    (Reply.whole ((scraps.drop 10).take 30) ++ .interrupted :: .interrupted ::
      Reply.whole (scraps.drop 40))
  rest := .ended

theorem dripping_delivers : dripping.Delivers .clean scraps := by
  have third : Source.RepliesDeliver .clean .ended
      (.interrupted :: .interrupted :: Reply.whole (scraps.drop 40)) (scraps.drop 40) :=
    Source.delivers_ofBytes (scraps.drop 40)
  have second : Source.RepliesDeliver .clean .ended
      (.interrupted :: (Reply.whole ((scraps.drop 10).take 30) ++ .interrupted :: .interrupted ::
        Reply.whole (scraps.drop 40))) ((scraps.drop 10).take 30 ++ scraps.drop 40) :=
    third.whole_append ((scraps.drop 10).take 30)
  exact second.whole_append (scraps.take 10)

end Example

/-- Three calls take 19, 19 and 21 bytes, and then comes the end: the bound for 59 bytes is four. -/
theorem consumption_of_scraps :
    let stream : EventStream := { options := {}, source := Example.dripping }
    let behind := fun n => EventStream.behind Transaction.decode n stream
    let left := EventStream.left Transaction.decode stream Example.scraps
    let takes := EventStream.takes Transaction.decode stream Example.scraps
    Example.dripping.Delivers .clean Example.scraps ∧
      (List.range 5).map (fun n => ((left n).length, takes n)) =
        [(59, 19), (40, 19), (21, 21), (0, 0), (0, 0)] ∧
      (∀ n, (behind n).source.Delivers .clean (left n) ∧
        (((behind n).nextWith Transaction.decode).1 = .ok none ↔ left n = []) ∧
        (takes n = 0 ↔ left n = [])) ∧
      (∀ n, (List.range n).flatMap (fun i => (left i).take (takes i)) ++ left n =
        Example.scraps) ∧
      ∃ others : List (Except Error (Option Event)),
        others.length ≤ 4 ∧ (∀ result ∈ others, result ≠ .ok none) ∧
          ∀ m, (EventStream.callsWith Transaction.decode (others.length + m) stream).map (·.1) =
            others ++ List.replicate m (.ok none) := by
  intro stream behind left takes
  refine ⟨Example.dripping_delivers, by decide +kernel, ?_⟩
  exact EventStream.consumption Transaction.decode (s := stream) Example.dripping_delivers

end BinaryLog
