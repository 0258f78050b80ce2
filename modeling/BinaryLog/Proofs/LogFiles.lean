/-
# BinaryLog.Proofs.LogFiles -- opening a file, and the two ways to read it

A file is opened if it starts with the magic number, and then the stream stands right behind that
(`LogFile.openAt_of_magic`); else the bytes that were found instead are told.

An open file can be asked for its next event, or be run through.  Both go on with the same stream,
so that calls of either kind may follow each other in any order, and each finds what the ones in
front of it have left.  Only the run knows whether it has stopped.  That is so if one of its calls
has answered with something else than an event (`LogFile.done_behind_iff`), and then it does not
touch the stream any more.

A run on its own gives what the stream gives up to the first failure (`LogFile.collectWithin_eq`).
Each event takes the bytes of a header at least, so that it comes to an end (`LogFile.stopped`).
-/
import BinaryLog.File
import BinaryLog.Proofs.Consumption
import BinaryLog.Proofs.Embedded

namespace BinaryLog

set_option autoImplicit false

/-- A source without compressed data delivers the bytes of its replies, up to the first fault. -/
theorem Source.exists_delivers {s : Source} (plain : ∀ d, s.rest ≠ .compressed d) :
    ∃ ending bs, s.Delivers ending bs := by
  obtain ⟨replies, rest, raised⟩ := s
  induction replies with
  | nil =>
      cases rest with
      | ended => exact ⟨.clean, [], rfl, rfl⟩
      | failing text => exact ⟨.fault text, [], rfl, rfl⟩
      | compressed d => exact absurd rfl (plain d)
  | cons reply replies ih =>
      obtain ⟨ending, bs, delivers⟩ := ih plain
      cases reply with
      | bytes first more => exact ⟨ending, first :: more ++ bs, bs, rfl, delivers⟩
      | interrupted => exact ⟨ending, bs, delivers⟩
      | fault text => exact ⟨.fault text, [], rfl, rfl⟩

/-! ## Opening -/

namespace LogFile

variable {o : Options} {source : Source} {ending : Ending} {bs : Bytes}

theorem openAt_of_magic (delivers : source.Delivers ending bs)
    (found : bs.take magic.length = magic) :
    ∃ source', openAt o source =
        .ok { stream := { options := o, source := source' }, done := false } ∧
      source'.Delivers ending (bs.drop magic.length) := by
  have there : magic.length ≤ bs.length := by
    have length := congrArg List.length found
    rw [List.length_take] at length
    omega
  obtain ⟨source', taken, left⟩ := Source.take_of_delivers delivers there .exact
  refine ⟨source', ?_, left⟩
  simp only [openAt, Source.fill, taken, found, if_true]

theorem openAt_of_found {found : Bytes} (filled : (source.fill magic.length).1 = .ok found)
    (other : found ≠ magic) : openAt o source = .error (.invalidFormat (.badMagic found)) := by
  unfold openAt
  generalize source.fill magic.length = reply at filled ⊢
  obtain ⟨result, source'⟩ := reply
  obtain rfl : result = .ok found := filled
  exact if_neg other

/-- What was found instead of the magic number is told, also if it is shorter. -/
theorem openAt_of_other (delivers : source.Delivers ending bs)
    (other : bs.take magic.length ≠ magic) (ends : magic.length ≤ bs.length ∨ ending = .clean) :
    openAt o source = .error (.invalidFormat (.badMagic (bs.take magic.length))) := by
  refine openAt_of_found ?_ other
  rcases Nat.lt_or_ge bs.length magic.length with short | there
  · obtain rfl : ending = .clean := ends.resolve_left (Nat.not_le_of_gt short)
    rw [List.take_of_length_le (Nat.le_of_lt short)]
    exact Source.take_past_end delivers short .exact
  · obtain ⟨source', taken, -⟩ := Source.take_of_delivers delivers there .exact
    rw [Source.fill, taken]

theorem openAt_of_fault {text : String} (delivers : source.Delivers (.fault text) bs)
    (short : bs.length < magic.length) : openAt o source = .error (.io text) := by
  have filled : (source.fill magic.length).1 = .error text :=
    Source.take_past_end delivers short .exact
  unfold openAt
  generalize source.fill magic.length = reply at filled ⊢
  obtain ⟨result, source'⟩ := reply
  obtain rfl : result = .error text := filled
  rfl

theorem exists_of_other (delivers : source.Delivers ending bs)
    (other : bs.take magic.length ≠ magic) : ∃ e, openAt o source = .error e := by
  by_cases ends : magic.length ≤ bs.length ∨ ending = .clean
  · exact ⟨_, openAt_of_other delivers other ends⟩
  · rw [not_or] at ends
    cases ending with
    | clean => exact absurd rfl ends.2
    | fault text => exact ⟨_, openAt_of_fault delivers (Nat.lt_of_not_le ends.1)⟩

/-- An open file is at the first event. -/
theorem of_openAt {f : LogFile} (delivers : source.Delivers ending bs)
    (opens : openAt o source = .ok f) :
    f.stream.options = o ∧ f.done = false ∧
      f.stream.source.Delivers ending (bs.drop magic.length) := by
  by_cases found : bs.take magic.length = magic
  · obtain ⟨source', opened, left⟩ := openAt_of_magic (o := o) delivers found
    rw [opened] at opens
    cases opens
    exact ⟨rfl, rfl, left⟩
  · obtain ⟨e, refused⟩ := exists_of_other (o := o) delivers found
    rw [refused] at opens
    cases opens

/-! ## Calls of both kinds -/

/-- A way to ask for the next event: as such, or in a run through the file. -/
inductive Call
  | read
  | iterate
deriving DecidableEq

/-- The file behind a call. -/
def behindCall (f : LogFile) : Call → LogFile
  | .read => f.readEvent.2
  | .iterate => f.iterate.2

/-- The file behind calls that follow each other. -/
def behind (f : LogFile) (calls : List Call) : LogFile := calls.foldl behindCall f

/-- How many of the calls ask the stream: all but those of a run that has stopped. -/
def asked : LogFile → List Call → Nat
  | _, [] => 0
  | f, call :: calls =>
    asked (f.behindCall call) calls + (if call = .iterate ∧ f.done = true then 0 else 1)

/-- What a run tells of what the stream comes to. -/
def item : Except Error (Option Event) → Option (Except Error Event)
  | .ok (some e) => some (.ok e)
  | .ok none => none
  | .error e => some (.error e)

/-- An answer that ends a run. -/
def Last (answer : Option (Except Error Event)) : Prop := ∀ e, answer ≠ some (.ok e)

/-- One of the calls was of a run and has ended it. -/
def Stopped (f : LogFile) (calls : List Call) : Prop :=
  ∃ before after, calls = before ++ .iterate :: after ∧ Last (f.behind before).iterate.1

variable {f : LogFile} {calls : List Call}

/-- A call for the next event goes to the stream, whatever a run has come to. -/
theorem readEvent_eq (f : LogFile) :
    f.readEvent = (f.stream.next.1, { f with stream := f.stream.next.2 }) := rfl

theorem iterate_of_done (done : f.done = true) : f.iterate = (none, f) := if_pos done

theorem last_item_iff {result : Except Error (Option Event)} :
    Last (item result) ↔ ∀ e, result ≠ .ok (some e) := by
  refine forall_congr' fun e => not_congr ?_
  rcases result with error | _ | event <;> simp [item]

/-- As long as a run has not stopped, it gives what the stream gives. -/
theorem iterate_of_open (running : f.done = false) :
    f.iterate.1 = item f.stream.next.1 ∧ f.iterate.2.stream = f.stream.next.2 ∧
      (f.iterate.2.done = true ↔ Last f.iterate.1) := by
  rw [iterate, iterateWith, if_neg (running ▸ Bool.false_ne_true), ← readEvent, readEvent_eq]
  obtain ⟨result, stream⟩ := f.stream.next
  rcases result with error | _ | event
  · exact ⟨rfl, rfl, by simp [Last]⟩
  · exact ⟨rfl, rfl, by simp [Last]⟩
  · exact ⟨rfl, rfl, by simp [Last, running]⟩

/-! ## What calls leave behind -/

theorem stream_behind (calls : List Call) :
    ∀ f : LogFile, (f.behind calls).stream =
      EventStream.behind Transaction.decode (f.asked calls) f.stream := by
  induction calls with
  | nil => intro f; rfl
  | cons call calls ih =>
      intro f
      have later : (f.behind (call :: calls)).stream =
          EventStream.behind Transaction.decode ((f.behindCall call).asked calls)
            (f.behindCall call).stream := ih (f.behindCall call)
      rw [later, asked]
      cases call with
      | read => rfl
      | iterate =>
          cases done : f.done with
          | true => simp only [behindCall, iterate_of_done done, and_self, if_true, Nat.add_zero]
          | false =>
              obtain ⟨-, stream, -⟩ := iterate_of_open done
              simp only [behindCall, stream, Bool.false_eq_true, and_false, if_false]
              rfl

theorem stopped_cons {call : Call} :
    f.Stopped (call :: calls) ↔
      (call = .iterate ∧ Last f.iterate.1) ∨ (f.behindCall call).Stopped calls := by
  constructor
  · rintro ⟨before, after, split, last⟩
    cases before with
    | nil =>
        obtain ⟨rfl, -⟩ := List.cons.inj split
        exact .inl ⟨rfl, last⟩
    | cons first before =>
        obtain ⟨rfl, rest⟩ := List.cons.inj split
        exact .inr ⟨before, after, rest, last⟩
  · rintro (⟨rfl, last⟩ | ⟨before, after, rfl, last⟩)
    · exact ⟨[], calls, rfl, last⟩
    · exact ⟨call :: before, after, rfl, last⟩

theorem done_behindCall_iff {call : Call} :
    (f.behindCall call).done = true ↔ f.done = true ∨ (call = .iterate ∧ Last f.iterate.1) := by
  cases call with
  | read => simp [behindCall, readEvent_eq]
  | iterate =>
      cases done : f.done with
      | true => simp [behindCall, iterate_of_done done, done]
      | false =>
          obtain ⟨-, -, ends⟩ := iterate_of_open done
          simp [behindCall, ends]

/-- A run has stopped if one of its calls has ended it. -/
theorem done_behind_iff (calls : List Call) :
    ∀ f : LogFile, (f.behind calls).done = true ↔ f.done = true ∨ f.Stopped calls := by
  induction calls with
  | nil =>
      intro f
      have never : ¬ f.Stopped [] := fun ⟨before, after, split, _⟩ => by simp at split
      simp only [behind, List.foldl_nil, never, or_false]
  | cons call calls ih =>
      intro f
      have later : (f.behind (call :: calls)).done = true ↔
          (f.behindCall call).done = true ∨ (f.behindCall call).Stopped calls := ih _
      rw [later, done_behindCall_iff, stopped_cons, or_assoc]

/-- Calls of both kinds share a stream, but only those of a run stop. -/
theorem session (running : f.done = false) (calls : List Call) :
    let g := f.behind calls
    g.stream = EventStream.behind Transaction.decode (f.asked calls) f.stream ∧
      g.readEvent = (g.stream.next.1, { g with stream := g.stream.next.2 }) ∧
      (¬ f.Stopped calls →
        g.iterate.1 = item g.stream.next.1 ∧ g.iterate.2.stream = g.stream.next.2) ∧
      (f.Stopped calls → g.iterate = (none, g)) := by
  intro g
  have done : g.done = true ↔ f.Stopped calls := by
    rw [done_behind_iff calls f, running]
    simp only [Bool.false_eq_true, false_or]
  refine ⟨stream_behind calls f, readEvent_eq g, fun goes => ?_, fun stopped => ?_⟩
  · have running : g.done = false := Bool.eq_false_iff.2 fun ends => goes (done.1 ends)
    obtain ⟨answer, stream, -⟩ := iterate_of_open running
    exact ⟨answer, stream⟩
  · exact iterate_of_done (done.2 stopped)

/-! ## Runs on their own -/

/-- What a run gives in at most so many calls. -/
def collectWithin : Nat → LogFile → List (Except Error Event)
  | 0, _ => []
  | n + 1, f =>
    match f.iterate with
    | (none, _) => []
    | (some result, f) => result :: collectWithin n f

/-- Events up to the first failure, which is the last one. -/
def upToFailure : List (Except Error (Option Event)) → List (Except Error Event)
  | .ok (some e) :: results => .ok e :: upToFailure results
  | .error e :: _ => [.error e]
  | _ => []

theorem collectWithin_of_done (n : Nat) (done : f.done = true) : f.collectWithin n = [] := by
  cases n with
  | zero => rfl
  | succ n => rw [collectWithin, iterate_of_done done]

theorem collectWithin_eq (n : Nat) :
    ∀ f : LogFile, f.done = false →
      f.collectWithin n =
        upToFailure ((EventStream.callsWith Transaction.decode n f.stream).map (·.1)) := by
  induction n with
  | zero => intro f _; rfl
  | succ n ih =>
      intro f running
      obtain ⟨answer, stream, ends⟩ := iterate_of_open running
      have calls : EventStream.callsWith Transaction.decode (n + 1) f.stream =
          f.stream.next :: EventStream.callsWith Transaction.decode n f.stream.next.2 := rfl
      rw [calls, List.map_cons, collectWithin, ← stream]
      generalize f.iterate = call at answer ends ⊢
      obtain ⟨result, f'⟩ := call
      generalize f.stream.next.1 = given at answer ⊢
      obtain rfl : result = item given := answer
      rw [last_item_iff] at ends
      rcases given with error | _ | event
      · have done : f'.done = true := ends.2 nofun
        simp only [item, upToFailure, collectWithin_of_done n done]
      · rfl
      · have running : f'.done = false :=
          Bool.eq_false_iff.2 fun done => ends.1 done event rfl
        simp only [item, upToFailure, ih f' running]

/-- Each event takes the bytes of a header at least, so that a run comes to its end. -/
theorem stopped_of_length (n : Nat) :
    ∀ {f : LogFile} {bs : Bytes}, f.done = false → f.stream.source.Delivers ending bs →
      bs.length < EventHeader.size * n → f.Stopped (List.replicate n .iterate) := by
  induction n with
  | zero => intro f bs _ _ short; omega
  | succ n ih =>
      intro f bs running delivers short
      rw [List.replicate_succ, stopped_cons]
      obtain ⟨answer, stream, ends⟩ := iterate_of_open running
      by_cases last : Last f.iterate.1
      · exact .inl ⟨rfl, last⟩
      right
      obtain ⟨event, given⟩ : ∃ event, f.stream.next.1 = .ok (some event) := by
        have goes := last
        rw [answer, last_item_iff] at goes
        exact Classical.not_forall_not.1 goes
      -- the event that was given has taken a header at least, so that fewer calls do for the rest
      obtain ⟨there, long, whole, -, left⟩ :=
        EventStream.whole_of_event delivers (Prod.ext given rfl)
      have least := f.stream.options.size_le_leastLength
      have behind : f.iterate.2.stream.source.Delivers ending (bs.drop (declaredLength bs)) := by
        rw [stream]
        exact left
      refine ih (Bool.eq_false_iff.2 fun done => last (ends.1 done)) behind ?_
      rw [List.length_drop]
      rw [Nat.mul_succ] at short
      omega

/-- **The protocol of a log file.**  Every source that is a file delivers some bytes.  It is opened
if the first of them are the magic number, and then the stream stands right behind that; else the
bytes that are there instead are told, unless the source has failed before that.

Whatever calls were made, the stream is behind as many events as have been asked for, and a call for
the next event gives what comes next there.  A run gives the same as long as none of its calls has
answered with something else than an event.  From then on it gives nothing, and leaves the file as
it is.

So a run on its own gives the events of the stream up to the first failure, which it gives too, and
it comes to an end in a number of calls that the number of bytes bounds. -/
theorem protocol (o : Options) (source : Source) :
    ((∀ d, source.rest ≠ .compressed d) → ∃ ending bs, source.Delivers ending bs) ∧
    ∀ ending bs, source.Delivers ending bs →
      ((∃ f, openAt o source = .ok f) ↔ bs.take magic.length = magic) ∧
      (bs.take magic.length ≠ magic →
        (magic.length ≤ bs.length ∨ ending = .clean →
          openAt o source = .error (.invalidFormat (.badMagic (bs.take magic.length)))) ∧
        ∀ text, bs.length < magic.length → ending = .fault text →
          openAt o source = .error (.io text)) ∧
      ∀ f, openAt o source = .ok f →
        (f.stream.options = o ∧ f.stream.source.Delivers ending (bs.drop magic.length)) ∧
        (∀ calls,
          let g := f.behind calls
          g.stream = EventStream.behind Transaction.decode (f.asked calls) f.stream ∧
            g.readEvent = (g.stream.next.1, { g with stream := g.stream.next.2 }) ∧
            (¬ f.Stopped calls →
              g.iterate.1 = item g.stream.next.1 ∧ g.iterate.2.stream = g.stream.next.2) ∧
            (f.Stopped calls → g.iterate = (none, g))) ∧
        ∀ n,
          f.collectWithin n =
            upToFailure ((EventStream.callsWith Transaction.decode n f.stream).map (·.1)) ∧
          ((bs.drop magic.length).length < EventHeader.size * n →
            f.Stopped (List.replicate n .iterate)) := by
  refine ⟨Source.exists_delivers, fun ending bs delivers => ⟨⟨?_, ?_⟩, ?_, ?_⟩⟩
  · rintro ⟨f, opens⟩
    refine Classical.byContradiction fun other => ?_
    obtain ⟨e, refused⟩ := exists_of_other delivers other
    rw [refused] at opens
    cases opens
  · intro found
    obtain ⟨source', opens, -⟩ := openAt_of_magic delivers found
    exact ⟨_, opens⟩
  · intro other
    refine ⟨openAt_of_other delivers other, ?_⟩
    rintro text short rfl
    exact openAt_of_fault delivers short
  · intro f opens
    obtain ⟨rfl, running, left⟩ := of_openAt delivers opens
    exact ⟨⟨rfl, left⟩, session running,
      fun n => ⟨collectWithin_eq n f running, stopped_of_length n running left⟩⟩

end LogFile

namespace Example

/-- A file with a stop event and the first three bytes of another event, in two pieces. -/
def tornFile : Source where
  replies := [.bytes 0xfe [0x62], .interrupted,
    .bytes 0x69 [0x6e, 0, 0, 0, 0, 3, 1, 0, 0, 0, 19, 0, 0, 0, 0, 0, 0, 0, 0, 0, 5, 0, 0]]
  rest := .ended

def tornBytes : Bytes :=
  [0xfe, 0x62, 0x69, 0x6e, 0, 0, 0, 0, 3, 1, 0, 0, 0, 19, 0, 0, 0, 0, 0, 0, 0, 0, 0, 5, 0, 0]

theorem tornFile_delivers : tornFile.Delivers .clean tornBytes := ⟨_, rfl, _, rfl, rfl, rfl⟩

end Example

/-- The run gives the event, then the failure, and then nothing. -/
theorem protocol_of_tornFile :
    Example.tornFile.Delivers .clean Example.tornBytes ∧
      ∃ f, LogFile.openAt {} Example.tornFile = .ok f ∧ f.Stopped [.iterate, .iterate, .iterate] ∧
        f.collectWithin 3 =
          [.ok { header := { EventHeader.new .stop 0 1 with eventLength := 19 }
                 body := .stop
                 crc32 := 0 },
            .error (.parse (.incomplete [5, 0, 0] (some 16)))] := by
  obtain ⟨-, protocol⟩ := LogFile.protocol {} Example.tornFile
  obtain ⟨opens, -, sessions⟩ := protocol _ _ Example.tornFile_delivers
  obtain ⟨f, opened⟩ := opens.2 rfl
  obtain ⟨⟨options, -⟩, -, run⟩ := sessions f opened
  obtain ⟨collected, ends⟩ := run 3
  refine ⟨Example.tornFile_delivers, f, opened, ends (by decide), ?_⟩
  rw [collected]
  cases opened
  rfl

end BinaryLog
