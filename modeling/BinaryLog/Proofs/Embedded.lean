/-
# BinaryLog.Proofs.Embedded -- a run through a payload, and a plain run through its content

Running through a payload gives what running through its content gives: the same events up to the
same place (`EventStream.Runs`).  What comes behind them is told by who is to blame
(`Ending.stop`):

* if the bytes decide the next event, it is an event that fails, and its cause is told with its
  index;
* else the content has ended.  In front of an event that is the end, and within one it is a
  failure of that event, but if the content ended with a fault then only that is told.

Nothing comes behind this (`EmbeddedEvents.calls_of_content`).

The stream tells a fault as a failed read, like any other failure.  What tells them apart is what
the source keeps: nothing as long as the bytes decide, however an event fails and whatever is nested
in it, and the text of the fault as soon as one is met.  So it does not matter either in what pieces
the bytes come.  No text is left over from an earlier call, since a run starts without one and goes
on only while there is none (`EmbeddedEvents.quiet_of_new`, `EmbeddedEvents.quiet_nextWith`).
-/
import BinaryLog.Payload.Events
import BinaryLog.Proofs.Run
import BinaryLog.Proofs.StoredFrame

namespace BinaryLog

set_option autoImplicit false

/-! ## Plain runs -/

namespace EventStream

/-- A stream with `bs` to come gives `events`, and then is another one with `rest` to come. -/
inductive Runs (inner : Decode Transaction) :
    EventStream → Bytes → List Event → EventStream → Bytes → Prop
  | done {s : EventStream} {bs : Bytes} (delivers : s.source.Delivers .clean bs) :
      Runs inner s bs [] s bs
  | event {s s' s'' : EventStream} {bs rest : Bytes} {event : Event} {events : List Event}
      (delivers : s.source.Delivers .clean bs)
      (next : s.nextWith inner = (.ok (some event), s'))
      (later : Runs inner s' (bs.drop (declaredLength bs)) events s'' rest) :
      Runs inner s bs (event :: events) s'' rest

/-- A stream of the given bytes, without checksums. -/
def plain (bs : Bytes) : EventStream where
  options := {}
  source := .ofBytes bs

variable {inner : Decode Transaction}

theorem Runs.delivers {s s' : EventStream} {bs rest : Bytes} {events : List Event}
    (runs : Runs inner s bs events s' rest) : s'.source.Delivers .clean rest := by
  induction runs with
  | done delivers => exact delivers
  | event _ _ _ ih => exact ih

/-- Only a whole event is given. -/
theorem whole_of_event {ending : Ending} {s s' : EventStream} {bs : Bytes} {event : Event}
    (delivers : s.source.Delivers ending bs) (next : s.nextWith inner = (.ok (some event), s')) :
    EventHeader.size ≤ bs.length ∧ s.options.leastLength ≤ declaredLength bs ∧
      declaredLength bs ≤ bs.length ∧
      Event.decodeWith inner s.options (.ofBytes bs) (bs.take (declaredLength bs)) =
        (.ok event, s'.options) ∧
      s'.source.Delivers ending (bs.drop (declaredLength bs)) := by
  by_cases decided : Decided s.options.leastLength bs
  · obtain ⟨there, short | ⟨long, whole⟩⟩ := decided.cases
    · obtain ⟨source, refused, -⟩ := nextWith_of_short_length inner delivers there short
      rw [refused] at next
      cases next
    · obtain ⟨source, given, left⟩ := nextWith_of_whole inner delivers there long whole
      rw [given] at next
      generalize decoded : Event.decodeWith inner s.options (.ofBytes bs)
        (bs.take (declaredLength bs)) = call at next
      obtain ⟨result, options⟩ := call
      cases result with
      | error e => cases next
      | ok event' =>
          cases next
          exact ⟨there, long, whole, rfl, left⟩
  · obtain ⟨source, ends⟩ := nextWith_of_undecided inner delivers decided
    rw [ends, Prod.mk.injEq] at next
    exact absurd next.1 (ending.outcome_ne_event bs event)

/-- A run goes on up to a call that gives no event. -/
theorem exists_run (inner : Decode Transaction) {n : Nat} :
    ∀ {s : EventStream} {bs : Bytes}, bs.length < n → s.source.Delivers .clean bs →
      ∃ events s' rest, Runs inner s bs events s' rest ∧
        ∀ event, (s'.nextWith inner).1 ≠ .ok (some event) := by
  -- by the bytes to come, of which an event takes its header at least
  induction n with
  | zero => intro s bs len; omega
  | succ n ih =>
      intro s bs len delivers
      generalize next : s.nextWith inner = call
      obtain ⟨result, s'⟩ := call
      by_cases given : ∃ event, result = .ok (some event)
      · obtain ⟨event, rfl⟩ := given
        obtain ⟨there, long, whole, -, left⟩ := whole_of_event delivers next
        have least := s.options.size_le_leastLength
        have fewer : (bs.drop (declaredLength bs)).length < n := by
          have pos : 0 < EventHeader.size := by decide
          rw [List.length_drop]
          omega
        obtain ⟨events, s'', rest, runs, last⟩ := ih fewer left
        exact ⟨event :: events, s'', rest, .event delivers next runs, last⟩
      · refine ⟨[], s, bs, .done delivers, ?_⟩
        intro event gives
        rw [next] at gives
        exact given ⟨event, gives⟩

variable (inner) in
/-- What the bytes decide is the same for whoever finds them, whatever comes behind them. -/
theorem nextWith_agree {ending ending' : Ending} {s t : EventStream} {bs : Bytes}
    (same : t.options = s.options) (delivers : s.source.Delivers ending bs)
    (delivers' : t.source.Delivers ending' bs) (decided : Decided s.options.leastLength bs) :
    (t.nextWith inner).1 = (s.nextWith inner).1 ∧
      (t.nextWith inner).2.options = (s.nextWith inner).2.options := by
  obtain ⟨there, short | ⟨long, whole⟩⟩ := decided.cases
  · obtain ⟨source, refused, -⟩ := nextWith_of_short_length inner delivers there short
    obtain ⟨source', refused', -⟩ :=
      nextWith_of_short_length inner delivers' there (same.symm ▸ short)
    rw [refused, refused', same]
    exact ⟨rfl, rfl⟩
  · obtain ⟨source, given, -⟩ := nextWith_of_whole inner delivers there long whole
    obtain ⟨source', given', -⟩ := nextWith_of_whole inner delivers' there (same.symm ▸ long) whole
    rw [given, given', same]
    exact ⟨rfl, rfl⟩

end EventStream

/-! ## Runs through a payload -/

/-- What a run through a payload tells of event `i` when the plain run ends there with `last`. -/
def EmbeddedEvents.tell (i : Nat) : Except Error (Option Event) → Option (Except Error Event)
  | .ok _ => none
  | .error e => some (.error (.subEvent i e))

/-- What comes behind the events of a payload, of which the bytes decide the next one or do not. -/
def Ending.stop (i : Nat) (decided : Bool) (last : Except Error (Option Event)) :
    Ending → Option (Except Error Event)
  | clean => EmbeddedEvents.tell i last
  | fault text =>
    if decided then EmbeddedEvents.tell i last else some (.error (.corruptCompressedData text))

/-- What a payload stands for, and how it ends: itself if it is stored, and what the decoder makes
of it if it is compressed. -/
def Compression.Yields (payload : Bytes) (ending : Ending) (content : Bytes) : Compression → Prop
  | stored => payload = content ∧ ending = .clean
  | zstd => (Zstd.Decoder.ofBytes payload).Delivers ending content
  | unknown _ => False

theorem Compression.source_of_yields {compression : Compression} {payload content : Bytes}
    {ending : Ending} (yields : compression.Yields payload ending content) :
    ∃ source, compression.source payload = .ok source ∧ source.raised = none ∧
      source.Delivers ending content := by
  cases compression with
  | stored =>
      obtain ⟨rfl, rfl⟩ := yields
      exact ⟨.ofBytes payload, rfl, rfl, Source.delivers_ofBytes payload⟩
  | zstd => exact ⟨.ofCompressed payload, rfl, rfl, Source.delivers_ofCompressed yields⟩
  | unknown code => exact absurd yields id

namespace EmbeddedEvents

/-- The results of the next `n` calls. -/
def callsWith (inner : Decode Transaction) :
    Nat → EmbeddedEvents → List (Option (Except Error Event))
  | 0, _ => []
  | n + 1, e =>
    let call := e.nextWith inner
    call.1 :: callsWith inner n call.2

/-- The events in a source, from its start. -/
def ofSource (source : Source) : EmbeddedEvents where
  stream := some { options := {}, source }
  index := 0

theorem new_of_source {compression : Compression} {payload : Bytes} {source : Source}
    (opens : compression.source payload = .ok source) :
    new compression payload =
      .ok { stream := if payload.isEmpty then none else some { options := {}, source }
            index := 0 } := by
  simp only [new, opens, bind, Except.bind, pure, Except.pure]

theorem new_eq {compression : Compression} {payload : Bytes} {source : Source}
    (some : payload ≠ []) (opens : compression.source payload = .ok source) :
    new compression payload = .ok (ofSource source) := by
  have full : payload.isEmpty = false := by
    cases payload with
    | nil => exact absurd rfl some
    | cons b bs => rfl
  simp only [new_of_source opens, full, ofSource, Bool.false_eq_true, if_false]

/-- As far as the events were read, no read of the payload has failed. -/
def Quiet (e : EmbeddedEvents) : Prop := ∀ s, e.stream = some s → s.source.raised = none

theorem quiet_of_new {compression : Compression} {payload : Bytes} {e : EmbeddedEvents}
    (opens : new compression payload = .ok e) : e.Quiet := by
  obtain ⟨source, opened, quiet⟩ :
      ∃ source, compression.source payload = .ok source ∧ source.raised = none := by
    cases compression with
    | stored => exact ⟨.ofBytes payload, rfl, rfl⟩
    | zstd => exact ⟨.ofCompressed payload, rfl, rfl⟩
    | unknown code => cases opens
  rw [new_of_source opened] at opens
  cases opens
  intro s here
  dsimp only at here
  split at here
  · cases here
  · cases here
    exact quiet

variable (inner : Decode Transaction) {ending : Ending} {s s' t : EventStream} {bs : Bytes}
  {i : Nat}

/-- Whatever a payload is made of, a run through it goes on only while no read has failed. -/
theorem quiet_nextWith {e : EmbeddedEvents} (quiet : e.Quiet) : (e.nextWith inner).2.Quiet := by
  unfold nextWith
  split
  · exact quiet
  · rename_i s here
    split
    · rename_i event s' next
      intro s₁ same
      cases same
      exact (EventStream.raised_of_event next).trans (quiet s here)
    · intro s₁ same
      cases same
    · intro s₁ same
      cases same

/-- Behind the end, or a failure, comes nothing. -/
theorem calls_of_stopped {e : EmbeddedEvents} (stopped : e.stream = none) (n : Nat) :
    callsWith inner n e = List.replicate n none := by
  induction n with
  | zero => rfl
  | succ n ih =>
      have next : e.nextWith inner = (none, e) := by simp only [nextWith, stopped]
      simp only [callsWith, next, ih, List.replicate_succ]

theorem calls_of_stop {e : EmbeddedEvents} {last : Option (Except Error Event)}
    (next : e.nextWith inner = (last, { e with stream := none })) (n : Nat) :
    callsWith inner (n + 1) e = last :: List.replicate n none := by
  simp only [callsWith, next]
  rw [calls_of_stopped inner rfl]

theorem nextWith_of_event {event : Event} (next : s.nextWith inner = (.ok (some event), s')) :
    nextWith inner { stream := some s, index := i } =
      (some (.ok event), { stream := some s', index := i + 1 }) := by
  simp only [nextWith, next]

variable {inner} in
/-- An embedded event is what the stream of its payload gives. -/
theorem stream_of_nextWith {e' : EmbeddedEvents} {event : Event}
    (next : nextWith inner { stream := some s, index := i } = (some (.ok event), e')) :
    s.nextWith inner = (.ok (some event), (s.nextWith inner).2) ∧
      e' = { stream := some (s.nextWith inner).2, index := i + 1 } := by
  simp only [nextWith] at next
  split at next
  · rename_i given
    cases next
    rw [given]
    exact ⟨rfl, rfl⟩
  · cases next
  · cases next

/-- A call that gives no event stops the run.  If no read has failed, what it comes to is told. -/
theorem nextWith_of_quiet (last : ∀ event, (s.nextWith inner).1 ≠ .ok (some event))
    (quiet : (s.nextWith inner).2.source.raised = none) :
    nextWith inner { stream := some s, index := i } =
      (tell i (s.nextWith inner).1, { stream := none, index := i }) := by
  generalize next : s.nextWith inner = call at last quiet
  obtain ⟨result, s'⟩ := call
  rcases result with e | none | event
  · simp only [nextWith, next, Source.takeRaised, show s'.source.raised = none from quiet, tell]
  · simp only [nextWith, next, tell]
  · exact absurd rfl (last event)

/-- A read that has failed is what is told, whatever the call comes to for it. -/
theorem nextWith_of_raised {error : Error} {text : String}
    (next : s.nextWith inner = (.error error, s')) (raised : s'.source.raised = some text) :
    nextWith inner { stream := some s, index := i } =
      (some (.error (.corruptCompressedData text)), { stream := none, index := i }) := by
  simp only [nextWith, next, Source.takeRaised, raised]

/-- Where the bytes do not decide, the ending does. -/
theorem nextWith_of_undecided (quiet : s.source.raised = none)
    (delivers : s.source.Delivers ending bs) (undecided : ¬ Decided s.options.leastLength bs) :
    nextWith inner { stream := some s, index := i } =
      (ending.stop i false (Ending.clean.outcome bs), { stream := none, index := i }) := by
  obtain ⟨source, ends⟩ := EventStream.nextWith_of_undecided inner delivers undecided
  have kept := EventStream.raised_of_undecided inner delivers undecided
  cases ending with
  | clean =>
      have last : ∀ event, (s.nextWith inner).1 ≠ .ok (some event) := by
        intro event
        rw [ends]
        exact Ending.outcome_ne_event .clean bs event
      rw [nextWith_of_quiet inner last (kept.trans quiet), ends]
      rfl
  | fault text =>
      rw [ends] at kept
      rw [nextWith_of_raised inner ends kept]
      rfl

/-- What stops a plain run stops a run through a payload. -/
theorem nextWith_of_last (clean : s.source.Delivers .clean bs)
    (last : ∀ event, (s.nextWith inner).1 ≠ .ok (some event)) (same : t.options = s.options)
    (quiet : t.source.raised = none) (delivers : t.source.Delivers ending bs) :
    nextWith inner { stream := some t, index := i } =
      (ending.stop i (decide (Decided s.options.leastLength bs)) (s.nextWith inner).1,
        { stream := none, index := i }) := by
  by_cases decided : Decided s.options.leastLength bs
  · -- the bytes decide, and both see the same ones
    obtain ⟨result, -⟩ := EventStream.nextWith_agree inner same clean delivers decided
    have kept := EventStream.raised_of_decided inner delivers (same.symm ▸ decided)
    have last' : ∀ event, (t.nextWith inner).1 ≠ .ok (some event) := by
      intro event
      rw [result]
      exact last event
    rw [nextWith_of_quiet inner last' (kept.trans quiet), result]
    simp only [decided, decide_true]
    cases ending <;> rfl
  · obtain ⟨source, ends⟩ := EventStream.nextWith_of_undecided inner clean decided
    rw [nextWith_of_undecided inner quiet delivers (same.symm ▸ decided), ends]
    simp only [decided, decide_false]

/-- The events of a plain run are those of a run through a payload. -/
theorem calls_of_runs {rest : Bytes} {events : List Event}
    (runs : s.Runs inner bs events s' rest) :
    ∀ {t : EventStream} {i : Nat}, t.options = s.options → t.source.raised = none →
      t.source.Delivers ending bs →
      ∃ t' : EventStream, t'.options = s'.options ∧ t'.source.raised = none ∧
        t'.source.Delivers ending rest ∧ ∀ m,
          callsWith inner (events.length + m) { stream := some t, index := i } =
            events.map (fun event => some (.ok event)) ++
              callsWith inner m { stream := some t', index := i + events.length } := by
  induction runs with
  | done _ =>
      intro t i same quiet delivers
      exact ⟨t, same, quiet, delivers, fun m => by simp⟩
  | @event s s₁ s' bs rest event events clean next later ih =>
      intro t i same quiet delivers
      obtain ⟨there, long, whole, -, -⟩ := EventStream.whole_of_event clean next
      have decided : Decided s.options.leastLength bs := ⟨there, .inr whole⟩
      obtain ⟨result, options⟩ :=
        EventStream.nextWith_agree inner same clean delivers decided
      rw [next] at result options
      have next' : t.nextWith inner = (.ok (some event), (t.nextWith inner).2) :=
        Prod.ext result rfl
      have kept := EventStream.raised_of_event next'
      obtain ⟨-, -, -, -, left⟩ := EventStream.whole_of_event delivers next'
      obtain ⟨t', same', quiet', behind, calls⟩ :=
        ih (i := i + 1) options (kept.trans quiet) left
      refine ⟨t', same', quiet', behind, fun m => ?_⟩
      have count : (event :: events).length + m = (events.length + m) + 1 := by
        rw [List.length_cons]
        omega
      have index : i + (event :: events).length = i + 1 + events.length := by
        rw [List.length_cons]
        omega
      simp only [count, callsWith, nextWith_of_event inner next', calls m, List.map_cons,
        List.cons_append, index]

/-- **A run through a payload is a plain run through its content.**  What it comes to depends on
the content and on how that ends, and not on how it is read.  A payload that is stored is its own
content and ends cleanly, and of one that is compressed the decoder tells both. -/
theorem calls_of_content (bs : Bytes) :
    ∃ events s rest,
      (EventStream.plain bs).Runs inner bs events s rest ∧
      (∀ event, (s.nextWith inner).1 ≠ .ok (some event)) ∧
      (¬ Decided s.options.leastLength rest → (s.nextWith inner).1 = Ending.clean.outcome rest) ∧
      ∀ (ending : Ending) (m : Nat),
        let told := events.map (fun event => some (.ok event)) ++
          ending.stop events.length (decide (Decided s.options.leastLength rest))
            (s.nextWith inner).1 :: List.replicate m none
        (∀ source : Source, source.raised = none → source.Delivers ending bs →
          callsWith inner (events.length + 1 + m) (ofSource source) = told) ∧
        ∀ (compression : Compression) (payload : Bytes), payload ≠ [] →
          compression.Yields payload ending bs →
          ∃ e, new compression payload = .ok e ∧
            callsWith inner (events.length + 1 + m) e = told := by
  obtain ⟨events, s, rest, runs, last⟩ :=
    EventStream.exists_run inner (s := .plain bs) (Nat.lt_succ_self bs.length)
      (Source.delivers_ofBytes bs)
  refine ⟨events, s, rest, runs, last, ?_, ?_⟩
  · intro undecided
    obtain ⟨source, ends⟩ := EventStream.nextWith_of_undecided inner runs.delivers undecided
    rw [ends]
  · intro ending m told
    have brought : ∀ source : Source, source.raised = none → source.Delivers ending bs →
        callsWith inner (events.length + 1 + m) (ofSource source) = told := by
      intro source quiet delivers
      obtain ⟨t, same, quiet', left, calls⟩ := calls_of_runs inner runs
        (t := { options := {}, source }) (i := 0) rfl quiet delivers
      have stop := nextWith_of_last inner (i := 0 + events.length) runs.delivers last same quiet'
        left
      have whole := calls (m + 1)
      rw [calls_of_stop inner stop, Nat.zero_add] at whole
      rw [Nat.add_assoc, Nat.add_comm 1 m]
      exact whole
    refine ⟨brought, ?_⟩
    intro compression payload nonempty yields
    obtain ⟨source, opens, quiet, delivers⟩ := Compression.source_of_yields yields
    exact ⟨ofSource source, new_eq nonempty opens, brought source quiet delivers⟩

end EmbeddedEvents

namespace Example

/-- A stop event, and the first bytes of a header. -/
def content : Bytes := [0, 0, 0, 0, 3, 1, 0, 0, 0, 19, 0, 0, 0, 0, 0, 0, 0, 0, 0, 5, 0, 0]

/-- They are compressed, and then comes something that is not. -/
def broken : Bytes := Zstd.storedFrame content ++ [0xff]

theorem broken_yields :
    Compression.zstd.Yields broken (.fault Zstd.Fault.unknownFrame.message) content :=
  Zstd.StoredFrame.delivers_before_foreign (by decide) (by decide) ⟨by decide, by decide⟩ []

end Example

/-- The same content is told in two ways: cut off within its second event where it is stored, and
broken where the compressed data are. -/
theorem calls_of_broken_content :
    let fault := Ending.fault Zstd.Fault.unknownFrame.message
    Example.broken ≠ [] ∧ Compression.zstd.Yields Example.broken fault Example.content ∧
      Example.content ≠ [] ∧ Compression.stored.Yields Example.content .clean Example.content ∧
      ∃ events s rest,
        (EventStream.plain Example.content).Runs Transaction.decodeEmbedded Example.content events s
          rest ∧
        ∀ m,
          let told := fun ending : Ending => events.map (fun event => some (.ok event)) ++
            ending.stop events.length (decide (Decided s.options.leastLength rest))
              (s.nextWith Transaction.decodeEmbedded).1 :: List.replicate m none
          (∃ e, EmbeddedEvents.new .zstd Example.broken = .ok e ∧
            EmbeddedEvents.callsWith Transaction.decodeEmbedded (events.length + 1 + m) e =
              told fault) ∧
          ∃ e, EmbeddedEvents.new .stored Example.content = .ok e ∧
            EmbeddedEvents.callsWith Transaction.decodeEmbedded (events.length + 1 + m) e =
              told .clean := by
  intro fault
  have broken : Example.broken ≠ [] := by decide
  have content : Example.content ≠ [] := by decide
  obtain ⟨events, s, rest, runs, -, -, calls⟩ :=
    EmbeddedEvents.calls_of_content Transaction.decodeEmbedded Example.content
  refine ⟨broken, Example.broken_yields, content, ⟨rfl, rfl⟩, events, s, rest, runs, fun m => ?_⟩
  intro told
  constructor
  · exact (calls fault m).2 .zstd Example.broken broken Example.broken_yields
  · exact (calls .clean m).2 .stored Example.content content ⟨rfl, rfl⟩

example : EmbeddedEvents.callsWith Transaction.decodeEmbedded 3 <$>
      EmbeddedEvents.new .stored Example.content =
    .ok [some (.ok { header := .new .stop 0 1, body := .stop, crc32 := 0 }),
      some (.error (.subEvent 1 (.parse (.incomplete [5, 0, 0] (some 16))))), none] := by rfl

end BinaryLog
