/-
# BinaryLog.Proofs.Mode -- which events end with a checksum

A reader's options say whether the next event ends with a checksum.  Decoding may change them, and
has many ways out: a header that cannot be read or declares too few bytes, a source that ends or
fails, a body that cannot be decoded, a format description that is read but lacks its checksum or
has another one.  All of these leave the options as they were, and so do events of other types,
among them transactions, since the descriptions embedded in them count for the payload only.  What
changes the options is a format description that is given, and it sets the mode to what it says
(`Event.options_decodeWith`, `Event.options_parseWith`, `EventStream.options_nextWith`).  Whether
checksums are validated never changes at all.

So the mode behind any calls, of whatever sources and byte strings, is told by the last format
description among their results (`Options.mode_of_answers`).
-/
import BinaryLog.Payload.Events
import BinaryLog.Proofs.Decoded
import BinaryLog.Proofs.Run

namespace BinaryLog

set_option autoImplicit false

/-! ## One call -/

/-- The format description that a call gives.  One that is embedded in another event is none. -/
def description? : Except Error (Option Event) → Option FormatDescription
  | .ok (some { body := .formatDescription d, .. }) => some d
  | _ => none

namespace Options

/-- The options behind a call that comes to this. -/
def afterCall (o : Options) (result : Except Error (Option Event)) : Options :=
  match description? result with
  | some d => { o with checksum := d.checksumFlag == 1 }
  | none => o

theorem afterCall_event (o : Options) (event : Event) :
    o.afterCall (.ok (some event)) = { o with checksum := event.body.checksumIn o.checksum } := by
  obtain ⟨header, body, crc32⟩ := event
  cases body <;> rfl

end Options

section

variable (payload : Decode Transaction)

/-- Whatever way decoding takes, its result tells the options that it leaves. -/
theorem Event.options_decodeWith (o : Options) (header : EventHeader) (raw : Bytes) :
    let decoded := decodeWith payload o header raw
    decoded.2 = o.afterCall (some <$> decoded.1) := by
  intro decoded
  obtain ⟨error, failed⟩ | ⟨event, -, given⟩ := decodeWith_cases payload o header raw
  · rw [show decoded = _ from failed]
    rfl
  · rw [show decoded = _ from given]
    exact (Options.afterCall_event o event).symm

/-- What is refused in front of its body leaves the options, too. -/
theorem Event.options_parseWith (o : Options) (raw : Bytes) :
    (parseWith payload o raw).2 = o.afterCall (some <$> (parseWith payload o raw).1) := by
  simp only [parseWith]
  split
  · rfl
  · split
    · rfl
    · split
      · rfl
      · exact options_decodeWith payload o _ raw

/-- Wherever a call fails, and whatever it gives, its result tells the options behind it. -/
theorem EventStream.options_nextWith (s : EventStream) :
    (s.nextWith payload).2.options = s.options.afterCall (s.nextWith payload).1 := by
  unfold nextWith
  generalize cut s.options.leastLength s.source = found
  obtain ⟨found, source⟩ := found
  cases found with
  | finished => rfl
  | refused e => rfl
  | fault text => rfl
  | event header raw => exact Event.options_decodeWith payload s.options header raw

end

/-! ## Any calls -/

/-- What a reader can be asked for: the next event of a source, or the event that a byte string
is. -/
inductive Request
  | next (source : Source)
  | parse (raw : Bytes)

namespace Options

variable (payload : Decode Transaction)

/-- The result of a call, and the options behind it. -/
def answer (o : Options) : Request → Except Error (Option Event) × Options
  | .next source =>
    let call := EventStream.nextWith payload { options := o, source }
    (call.1, call.2.options)
  | .parse raw =>
    let parsed := Event.parseWith payload o raw
    (some <$> parsed.1, parsed.2)

/-- The results of calls one after the other, and the options behind all of them. -/
def answers : Options → List Request → List (Except Error (Option Event)) × Options
  | o, [] => ([], o)
  | o, request :: requests =>
    let first := o.answer payload request
    let later := answers first.2 requests
    (first.1 :: later.1, later.2)

theorem options_answer (o : Options) (request : Request) :
    (o.answer payload request).2 = o.afterCall (o.answer payload request).1 := by
  cases request with
  | next source => exact EventStream.options_nextWith payload { options := o, source }
  | parse raw => exact Event.options_parseWith payload o raw

/-- The mode that format descriptions leave: that of the last one, or the mode before them. -/
def modeBehind (mode : Bool) (descriptions : List FormatDescription) : Bool :=
  (descriptions.getLast?.map (·.checksumFlag == 1)).getD mode

theorem modeBehind_cons (mode : Bool) (d : FormatDescription)
    (descriptions : List FormatDescription) :
    modeBehind mode (d :: descriptions) = modeBehind (d.checksumFlag == 1) descriptions := by
  rw [modeBehind, modeBehind, List.getLast?_cons]
  cases descriptions.getLast? <;> rfl

theorem options_answers (requests : List Request) :
    ∀ o : Options, (o.answers payload requests).2 =
      { o with
        checksum := modeBehind o.checksum
          ((o.answers payload requests).1.filterMap description?) } := by
  induction requests with
  | nil => intro o; rfl
  | cons request requests ih =>
      intro o
      have step := options_answer payload o request
      rw [afterCall] at step
      simp only [answers]
      rw [ih, List.filterMap_cons]
      -- the first call sets the mode in which the later ones start, or leaves it
      cases given : description? (o.answer payload request).1 with
      | none => simp only [given, step]
      | some d => simp only [given, step, modeBehind_cons]

/-- **The mode is that of the last format description.**  A call changes no option unless it gives
a format description, and then it only sets the mode to what that says.  So any calls, with any
failures among them, leave the mode of the last description that they gave, or the mode in which
they started. -/
theorem mode_of_answers (o : Options) :
    (∀ request, (o.answer payload request).2 =
      match description? (o.answer payload request).1 with
      | some d => { o with checksum := d.checksumFlag == 1 }
      | none => o) ∧
    ∀ requests, (o.answers payload requests).2 =
      { o with
        checksum := modeBehind o.checksum
          ((o.answers payload requests).1.filterMap description?) } :=
  ⟨options_answer payload o, fun requests => options_answers payload requests o⟩

end Options

namespace Example

/-- A format description with the given flag, and what comes behind it. -/
def describing (flag length : UInt8) (trailer : Bytes) : Bytes :=
  [0, 0, 0, 0, 15, 1, 0, 0, 0, length, 0, 0, 0, 0, 0, 0, 0, 0, 0] ++
    ([4, 0] ++
      (List.replicate 50 0 ++ ([0, 0, 0, 0, 19] ++ (List.replicate 14 0 ++ [72, flag])))) ++
    trailer

/-- A transaction with a checksum that embeds a description of events without one. -/
def embedding : Bytes :=
  [0, 0, 0, 0, 40, 1, 0, 0, 0, 124, 0, 0, 0, 0, 0, 0, 0, 0, 0] ++
    ([1, 1, 92, 2, 3, 252, 255, 0, 0] ++ describing 0 92 []) ++ [0, 0, 0, 0]

/-- A description whose checksum is missing is refused, the next one is given, and the one in the
transaction does not count. -/
example :
    let answers := Options.answers Transaction.decode { validate := false }
      [.parse (describing 1 92 []), .next (.ofBytes (describing 1 96 [0, 0, 0, 0])),
        .next (.ofBytes embedding), .next (.ofBytes [])]
    answers.1.map (fun result => (result.toOption.isSome, (description? result).isSome)) =
        [(false, false), (true, true), (true, false), (true, false)] ∧
      answers.2 = { checksum := true, validate := false } := by
  decide +kernel

end Example

end BinaryLog
