/-
# BinaryLog.Proofs.Chunking -- the same bytes in other pieces

How a source brings its bytes, in which pieces and with how many interruptions, does not show:
every call gives the same result, leaves the same options, and leaves the same bytes to come
(`EventStream.calls_of_clean`).

A source that fails behind some of the bytes shows them first.  Calls that these bytes decide
(`EventStream.Settled`) come to what they come to when nothing fails, since what decides a call
goes on to do so with more bytes behind it (`Decided.append`).  The call after them fails, and
leaves the options as they are (`EventStream.calls_of_broken`).
-/
import BinaryLog.Proofs.Consumption

namespace BinaryLog

set_option autoImplicit false

/-! ## More bytes behind those that decide -/

theorem Decided.append {least : Nat} {bs : Bytes} (decided : Decided least bs) (more : Bytes) :
    Decided least (bs ++ more) := by
  obtain ⟨there, decides⟩ := decided
  refine ⟨by rw [List.length_append]; omega, ?_⟩
  rw [declaredLength_append there, List.length_append]
  omega

theorem Decided.taken_append {least : Nat} {bs : Bytes} (decided : Decided least bs)
    (more : Bytes) : taken least (bs ++ more) = taken least bs := by
  obtain ⟨there, decides⟩ := decided
  have here : ¬ bs.length < EventHeader.size := Nat.not_lt_of_le there
  have here' : ¬ bs.length + more.length < EventHeader.size := by omega
  simp only [taken, declaredLength_append there, List.length_append, if_neg here, if_neg here']
  split
  · rfl
  · omega

theorem Decided.outcome_append {o : Options} {bs : Bytes} (decided : Decided o.leastLength bs)
    (payload : Decode Transaction) (more : Bytes) :
    decidedOutcome payload o (bs ++ more) = decidedOutcome payload o bs := by
  obtain ⟨there, decides⟩ := decided
  simp only [decidedOutcome, declaredLength_append there, EventHeader.ofBytes_append there]
  split
  · rfl
  · rw [List.take_append_of_le_length (by omega)]

namespace EventStream

variable {payload : Decode Transaction}

/-! ## The same bytes -/

/-- What shows of a call: its result, and the options behind it. -/
def shown (call : Except Error (Option Event) × EventStream) :
    Except Error (Option Event) × Options :=
  (call.1, call.2.options)

theorem calls_of_clean (n : Nat) : ∀ {s s' : EventStream} {bs : Bytes},
    s.options = s'.options → s.source.Delivers .clean bs → s'.source.Delivers .clean bs →
      (callsWith payload n s).map shown = (callsWith payload n s').map shown ∧
        ∃ left, (behind payload n s).source.Delivers .clean left ∧
          (behind payload n s').source.Delivers .clean left := by
  induction n with
  | zero => intro s s' bs _ delivers delivers'; exact ⟨rfl, bs, delivers, delivers'⟩
  | succ n ih =>
      intro s s' bs same delivers delivers'
      have result : (s.nextWith payload).1 = (s'.nextWith payload).1 := by
        rw [nextWith_outcome delivers, nextWith_outcome delivers', same]
      have options : (s.nextWith payload).2.options = (s'.nextWith payload).2.options := by
        rw [options_nextWith, options_nextWith, result, same]
      have rest := nextWith_of_clean payload delivers
      have rest' := nextWith_of_clean payload delivers'
      rw [← same] at rest'
      obtain ⟨calls, left⟩ := ih options rest rest'
      refine ⟨?_, left⟩
      simp only [callsWith, List.map_cons, calls, shown, result, options]

/-! ## A source that fails -/

/-- The bytes to come decide the next call. -/
def Settled (s : EventStream) : Prop :=
  ∃ bs, s.source.Delivers .clean bs ∧ Decided s.options.leastLength bs

theorem settled_iff {s : EventStream} {bs : Bytes} (delivers : s.source.Delivers .clean bs) :
    s.Settled ↔ Decided s.options.leastLength bs := by
  constructor
  · rintro ⟨bs', delivers', decided⟩
    obtain ⟨rfl, -⟩ := Source.delivers_unique delivers delivers'
    exact decided
  · intro decided
    exact ⟨bs, delivers, decided⟩

variable (payload) in
/-- A call that its bytes decide comes to the same with more bytes behind them. -/
theorem nextWith_append {ending : Ending} {s t : EventStream} {bs more : Bytes}
    (decided : Decided s.options.leastLength bs) (delivers : s.source.Delivers ending bs)
    (same : t.options = s.options) (longer : t.source.Delivers .clean (bs ++ more)) :
    (t.nextWith payload).1 = (s.nextWith payload).1 ∧
      (t.nextWith payload).2.options = (s.nextWith payload).2.options ∧
      (t.nextWith payload).2.source.Delivers .clean
        (bs.drop (taken s.options.leastLength bs) ++ more) := by
  have result : (t.nextWith payload).1 = (s.nextWith payload).1 := by
    rw [nextWith_outcome longer, same, Ending.call, if_pos (decided.append more),
      decided.outcome_append payload more, (nextWith_of_decided payload delivers decided).1]
  refine ⟨result, ?_, ?_⟩
  · rw [options_nextWith, options_nextWith, result, same]
  · have left := nextWith_of_clean payload longer
    rwa [same, decided.taken_append more,
      List.drop_append_of_le_length (taken_le s.options.leastLength bs)] at left

theorem calls_of_broken {text : String} {k : Nat} :
    ∀ {s whole part : EventStream} {bs more : Bytes}, bs.length < k →
      whole.options = s.options → part.options = s.options →
      s.source.Delivers (.fault text) bs → whole.source.Delivers .clean (bs ++ more) →
      part.source.Delivers .clean (bs ++ []) →
      ∃ n, (∀ i < n, (behind payload i part).Settled) ∧ ¬ (behind payload n part).Settled ∧
        (callsWith payload (n + 1) s).map shown =
          (callsWith payload n whole).map shown ++
            [(.error (.io text), (behind payload n whole).options)] := by
  -- by the bytes in front of the fault, of which a call that they decide takes some
  induction k with
  | zero => intro s whole part bs more few; omega
  | succ k ih =>
      intro s whole part bs more few same same' delivers longer alone
      have settled : part.Settled ↔ Decided s.options.leastLength bs := by
        rw [settled_iff alone, same', List.append_nil]
      by_cases decided : Decided s.options.leastLength bs
      · obtain ⟨-, rest⟩ := nextWith_of_decided payload delivers decided
        obtain ⟨result, options, left⟩ :=
          nextWith_append payload decided delivers same longer
        obtain ⟨-, options', left'⟩ :=
          nextWith_append payload decided delivers same' alone
        have fewer : (bs.drop (taken s.options.leastLength bs)).length < k := by
          have least := min_size_le_taken s.options.size_le_leastLength bs
          have there := decided.1
          simp only [EventHeader.size] at there least
          rw [List.length_drop]
          omega
        obtain ⟨n, first, last, calls⟩ := ih fewer options options' rest left left'
        refine ⟨n + 1, ?_, last, ?_⟩
        · intro i below
          cases i with
          | zero => exact settled.2 decided
          | succ i => exact first i (Nat.lt_of_succ_lt_succ below)
        · rw [callsWith, List.map_cons, calls]
          simp only [callsWith, List.map_cons, List.cons_append, shown, result, options, behind]
      · obtain ⟨source, next⟩ := nextWith_of_undecided payload delivers decided
        refine ⟨0, fun i none => absurd none (Nat.not_lt_zero i),
          fun decides => decided (settled.1 decides), ?_⟩
        simp only [callsWith, next, List.map_cons, List.map_nil, List.nil_append, behind, shown,
          same, Ending.outcome]

/-- **The pieces do not matter.**  A source that delivers some bytes gives what they give when all
are ready at once, and leaves the same options and the same bytes behind every call.  A source that
fails behind some of these bytes gives the same results and options for all calls that the bytes in
front of the failure decide; then the failure is told, and the options stay. -/
theorem calls_of_delivery (payload : Decode Transaction) (o : Options) (bs : Bytes) :
    (∀ source : Source, source.Delivers .clean bs → ∀ n,
      (callsWith payload n { options := o, source }).map shown =
          (callsWith payload n { options := o, source := .ofBytes bs }).map shown ∧
        ∃ left, (behind payload n { options := o, source }).source.Delivers .clean left ∧
          (behind payload n { options := o, source := .ofBytes bs }).source.Delivers .clean left) ∧
    ∀ (front : Bytes) (text : String) (source : Source),
      front <+: bs → source.Delivers (.fault text) front →
        ∃ n, (∀ i < n, (behind payload i { options := o, source := .ofBytes front }).Settled) ∧
          ¬ (behind payload n { options := o, source := .ofBytes front }).Settled ∧
          (callsWith payload (n + 1) { options := o, source }).map shown =
            (callsWith payload n { options := o, source := .ofBytes bs }).map shown ++
              [(.error (.io text),
                (behind payload n { options := o, source := .ofBytes bs }).options)] := by
  refine ⟨fun source delivers n => calls_of_clean n rfl delivers (Source.delivers_ofBytes bs), ?_⟩
  rintro front text source ⟨more, rfl⟩ delivers
  have alone : (Source.ofBytes front).Delivers .clean (front ++ []) := by
    rw [List.append_nil]
    exact Source.delivers_ofBytes front
  exact calls_of_broken (Nat.lt_succ_self front.length) rfl rfl delivers
    (Source.delivers_ofBytes (front ++ more)) alone

end EventStream

namespace Example

/-- The scraps up to the third header, and then a fault. -/
def faulting : Source where
  replies := .interrupted :: (Reply.whole (scraps.take 25) ++
    (Reply.whole ((scraps.take 50).drop 25) ++ .fault "broken" :: Reply.whole (scraps.drop 50)))
  rest := .ended

theorem faulting_delivers : faulting.Delivers (.fault "broken") (scraps.take 50) := by
  have third : Source.RepliesDeliver (.fault "broken") .ended
      (.fault "broken" :: Reply.whole (scraps.drop 50)) [] := ⟨rfl, rfl⟩
  have second := third.whole_append ((scraps.take 50).drop 25)
  exact second.whole_append (scraps.take 25)

end Example

/-- Two calls are decided in front of the fault. -/
theorem calls_of_scraps :
    let stream : Source → EventStream := fun source => { options := {}, source }
    let calls := fun n source => EventStream.callsWith Transaction.decode n (stream source)
    let behind := fun n source => EventStream.behind Transaction.decode n (stream source)
    Example.dripping.Delivers .clean Example.scraps ∧
      (∀ n, (calls n Example.dripping).map EventStream.shown =
          (calls n (.ofBytes Example.scraps)).map EventStream.shown ∧
        ∃ left, (behind n Example.dripping).source.Delivers .clean left ∧
          (behind n (.ofBytes Example.scraps)).source.Delivers .clean left) ∧
      Example.scraps.take 50 <+: Example.scraps ∧
      Example.faulting.Delivers (.fault "broken") (Example.scraps.take 50) ∧
      ∃ n, (∀ i < n, (behind i (.ofBytes (Example.scraps.take 50))).Settled) ∧
        ¬ (behind n (.ofBytes (Example.scraps.take 50))).Settled ∧
        (calls (n + 1) Example.faulting).map EventStream.shown =
          (calls n (.ofBytes Example.scraps)).map EventStream.shown ++
            [(.error (.io "broken"), (behind n (.ofBytes Example.scraps)).options)] := by
  intro stream calls behind
  obtain ⟨pieces, broken⟩ :=
    EventStream.calls_of_delivery Transaction.decode {} Example.scraps
  have front : Example.scraps.take 50 <+: Example.scraps := List.take_prefix 50 Example.scraps
  exact ⟨Example.dripping_delivers, pieces Example.dripping Example.dripping_delivers, front,
    Example.faulting_delivers,
    broken (Example.scraps.take 50) "broken" Example.faulting front Example.faulting_delivers⟩

end BinaryLog
