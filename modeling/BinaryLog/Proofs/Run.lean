/-
# BinaryLog.Proofs.Run -- one call for the next event, and many

`EventStream.callsWith` lists the results of calls one after the other, each with the stream
behind it.  What a single call comes to follows from the bytes that the source delivers:

* a whole event is decoded with the options in force, and the stream goes on behind it whether
  that succeeds or not (`nextWith_of_whole`, `nextWith_of_frame`);
* a header with too small a length is an error (`nextWith_of_short_length`);
* else the source ends, or fails, too early (`nextWith_of_undecided`).

Whether a failure is one of the source shows in what the source keeps: the text of a read that
failed, and nothing of all other failures (`raised_of_decided`, `raised_of_undecided`).
-/
import BinaryLog.Proofs.Framing

namespace BinaryLog

set_option autoImplicit false

namespace EventStream

/-- The results of the next `n` calls, each with the stream behind it. -/
def callsWith (payload : Decode Transaction) :
    Nat → EventStream → List (Except Error (Option Event) × EventStream)
  | 0, _ => []
  | n + 1, s =>
    let call := s.nextWith payload
    call :: callsWith payload n call.2

end EventStream

/-- What a call comes to when the source ends in front of or within an event of which `bs` is
there. -/
def Ending.outcome (bs : Bytes) : Ending → Except Error (Option Event)
  | clean => if bs = [] then .ok none else .error (.parse (.incomplete bs (some (missing bs))))
  | fault text => .error (.io text)

theorem Ending.outcome_ne_event (ending : Ending) (bs : Bytes) (event : Event) :
    ending.outcome bs ≠ .ok (some event) := by
  cases ending with
  | clean => by_cases none : bs = [] <;> simp [outcome, none]
  | fault text => nofun

namespace EventStream

variable (payload : Decode Transaction) {ending : Ending} {s : EventStream} {bs : Bytes}

theorem nextWith_of_whole (delivers : s.source.Delivers ending bs)
    (there : EventHeader.size ≤ bs.length) (long : s.options.leastLength ≤ declaredLength bs)
    (whole : declaredLength bs ≤ bs.length) :
    let decoded :=
      Event.decodeWith payload s.options (.ofBytes bs) (bs.take (declaredLength bs))
    ∃ source, s.nextWith payload = (some <$> decoded.1, { options := decoded.2, source }) ∧
      source.Delivers ending (bs.drop (declaredLength bs)) := by
  obtain ⟨source, event, left⟩ :=
    Source.cut_of_whole delivers there s.options.size_le_leastLength long whole
  exact ⟨source, by simp only [nextWith, event], left⟩

/-- An event in front of any other bytes. -/
theorem nextWith_of_frame {raw : Bytes} (delivers : s.source.Delivers ending (raw ++ bs))
    (long : s.options.leastLength ≤ raw.length) (exact : declaredLength raw = raw.length) :
    let decoded := Event.decodeWith payload s.options (.ofBytes raw) raw
    ∃ source, s.nextWith payload = (some <$> decoded.1, { options := decoded.2, source }) ∧
      source.Delivers ending bs := by
  obtain ⟨source, event, left⟩ :=
    Source.cut_of_frame delivers s.options.size_le_leastLength long exact
  exact ⟨source, by simp only [nextWith, event], left⟩

theorem nextWith_of_short_length (delivers : s.source.Delivers ending bs)
    (there : EventHeader.size ≤ bs.length) (short : declaredLength bs < s.options.leastLength) :
    ∃ source, s.nextWith payload =
        (.error (.invalidFormat (.eventTooShort (EventHeader.ofBytes bs).eventLength
          s.options.leastLength)), { s with source }) ∧
      source.Delivers ending (bs.drop EventHeader.size) := by
  obtain ⟨source, refused, left⟩ := Source.cut_of_short_length delivers there short
  exact ⟨source, by simp only [nextWith, refused], left⟩

theorem nextWith_of_undecided (delivers : s.source.Delivers ending bs)
    (undecided : ¬ Decided s.options.leastLength bs) :
    ∃ source, s.nextWith payload = (ending.outcome bs, { s with source }) := by
  have next := Source.cut_of_undecided delivers undecided
  generalize hc : cut s.options.leastLength s.source = c at next
  obtain ⟨c, source⟩ := c
  obtain rfl : c = ending.cutShort bs := next
  refine ⟨source, ?_⟩
  cases ending with
  | clean =>
      by_cases none : bs = []
      · simp [nextWith, hc, Ending.cutShort, Ending.outcome, none]
      · simp [nextWith, hc, Ending.cutShort, Ending.outcome, none]
  | fault text => simp only [nextWith, hc, Ending.cutShort, Ending.outcome]

theorem nextWith_at_end (delivers : s.source.Delivers .clean []) :
    ∃ source, s.nextWith payload = (.ok none, { s with source }) :=
  nextWith_of_undecided payload delivers fun decided => absurd decided.1 (by decide)

/-! ## What the source keeps -/

theorem raised_nextWith (s : EventStream) :
    (s.nextWith payload).2.source.raised = (cut s.options.leastLength s.source).2.raised := by
  unfold nextWith
  generalize cut s.options.leastLength s.source = found
  obtain ⟨found, source⟩ := found
  cases found <;> rfl

/-- A call that the bytes decide is no failed read, whatever it comes to. -/
theorem raised_of_decided (delivers : s.source.Delivers ending bs)
    (decided : Decided s.options.leastLength bs) :
    (s.nextWith payload).2.source.raised = s.source.raised := by
  rw [raised_nextWith]
  exact Source.cut_raised_of_decided delivers s.options.size_le_leastLength decided

variable {payload} in
/-- Whatever the source is, no read has failed where an event is given. -/
theorem raised_of_event {s' : EventStream} {event : Event}
    (next : s.nextWith payload = (.ok (some event), s')) :
    s'.source.raised = s.source.raised := by
  unfold nextWith at next
  split at next
  · cases next
  · cases next
  · cases next
  · rename_i header raw source cuts
    have kept := Source.cut_raised s.options.leastLength s.source
    rw [cuts] at kept
    obtain ⟨-, rfl⟩ := Prod.mk.inj next
    exact kept

/-- Where the ending decides, the text of a fault is kept. -/
theorem raised_of_undecided (delivers : s.source.Delivers ending bs)
    (undecided : ¬ Decided s.options.leastLength bs) :
    (s.nextWith payload).2.source.raised =
      match ending with
      | .clean => s.source.raised
      | .fault text => some text := by
  rw [raised_nextWith, Source.cut_raised, Source.cut_of_undecided delivers undecided]
  cases ending with
  | clean => by_cases none : bs = [] <;> simp [Ending.cutShort, Cut.keptOf, none]
  | fault text => rfl

end EventStream

end BinaryLog
