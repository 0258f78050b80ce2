/-
# BinaryLog.Proofs.Pieces -- a stream of events, and the same events one by one

Byte strings that are framed as events (`WellFramed`: long enough for the options in force, and as
long as their header declares; whatever their bodies hold) can be parsed one by one, or written
one behind the other and read as a stream.  Both ways give the same events, the same errors and
the same options after each of them (`EventStream.calls_eq_parseEach`).  So a body that cannot be
decoded costs its own event only: the stream goes on with the next one.
-/
import BinaryLog.Payload.Events
import BinaryLog.Proofs.Run

namespace BinaryLog

set_option autoImplicit false

namespace Event

/-- The results of parsing byte strings one after the other, each with the options behind it. -/
def parseEachWith (payload : Decode Transaction) :
    Options → List Bytes → List (Except Error Event × Options)
  | _, [] => []
  | o, raw :: raws =>
    let parsed := parseWith payload o raw
    parsed :: parseEachWith payload parsed.2 raws

/-- The options behind all of them. -/
def optionsBehind (payload : Decode Transaction) (o : Options) (raws : List Bytes) : Options :=
  raws.foldl (fun o raw => (parseWith payload o raw).2) o

/-- Each byte string has the length that its header declares, and the least length that the
options in front of it want.  Bodies are arbitrary. -/
def WellFramed (payload : Decode Transaction) : Options → List Bytes → Prop
  | _, [] => True
  | o, raw :: raws =>
    o.leastLength ≤ raw.length ∧ declaredLength raw = raw.length ∧
      WellFramed payload (parseWith payload o raw).2 raws

theorem parseWith_of_frame {payload : Decode Transaction} {o : Options} {raw : Bytes}
    (long : o.leastLength ≤ raw.length) (exact : declaredLength raw = raw.length) :
    parseWith payload o raw = decodeWith payload o (.ofBytes raw) raw := by
  have there : EventHeader.size ≤ raw.length := Nat.le_trans o.size_le_leastLength long
  have least : o.leastLength ≤ (EventHeader.ofBytes raw).eventLength.toNat := by
    rwa [show (EventHeader.ofBytes raw).eventLength.toNat = raw.length from exact]
  have equal : ¬ raw.length ≠ (EventHeader.ofBytes raw).eventLength.toNat :=
    fun differ => differ exact.symm
  simp only [parseWith, EventHeader.read_eq there, EventHeader.checkLength_of_le least,
    if_neg equal]

end Event

namespace EventStream

variable (payload : Decode Transaction) {o : Options}

/-- One piece: the stream gives what parsing it gives, and stands behind it. -/
theorem nextWith_of_piece {source : Source} {raw bs : Bytes} {ending : Ending}
    (delivers : source.Delivers ending (raw ++ bs)) (long : o.leastLength ≤ raw.length)
    (exact : declaredLength raw = raw.length) :
    let parsed := Event.parseWith payload o raw
    ∃ source', nextWith payload { options := o, source } =
        (some <$> parsed.1, { options := parsed.2, source := source' }) ∧
      source'.Delivers ending bs := by
  rw [Event.parseWith_of_frame long exact]
  exact nextWith_of_frame payload (s := { options := o, source }) delivers long exact

/-- **A stream and its pieces agree.**  However the source brings the pieces, as many calls as
there are pieces give the results of parsing these, errors included, with the same options behind
each, and one more call finds the end. -/
theorem calls_eq_parseEach {raws : List Bytes} (framed : Event.WellFramed payload o raws)
    {source : Source} (delivers : source.Delivers .clean raws.flatten) :
    (callsWith payload (raws.length + 1) { options := o, source }).map
        (fun call => (call.1, call.2.options)) =
      (Event.parseEachWith payload o raws).map (fun parsed => (some <$> parsed.1, parsed.2)) ++
        [(.ok none, Event.optionsBehind payload o raws)] := by
  induction raws generalizing o source with
  | nil =>
      obtain ⟨source', next⟩ :=
        nextWith_at_end payload (s := { options := o, source }) delivers
      simp [callsWith, next, Event.parseEachWith, Event.optionsBehind]
  | cons raw raws ih =>
      obtain ⟨long, exact, framed⟩ := framed
      obtain ⟨source', next, left⟩ := nextWith_of_piece payload delivers long exact
      have later := ih framed left
      simp only [List.length_cons, callsWith, next, List.map_cons, Event.parseEachWith,
        List.cons_append, Event.optionsBehind, List.foldl_cons] at later ⊢
      rw [later]

end EventStream

namespace Example

/-- A format description that brings checksums, a variable of no known kind, and a stop: the
second body cannot be decoded. -/
def pieces : List Bytes :=
  [[0, 0, 0, 0, 15, 1, 0, 0, 0, 96, 0, 0, 0, 0, 0, 0, 0, 0, 0] ++
      ([4, 0] ++ (List.replicate 50 0 ++ ([0, 0, 0, 0, 19] ++ (List.replicate 14 0 ++ [72, 1])))) ++
      [0, 0, 0, 0],
    [0, 0, 0, 0, 5, 1, 0, 0, 0, 32, 0, 0, 0, 0, 0, 0, 0, 0, 0] ++ [9, 1, 0, 0, 0, 0, 0, 0, 0] ++
      [0, 0, 0, 0],
    [0, 0, 0, 0, 3, 1, 0, 0, 0, 23, 0, 0, 0, 0, 0, 0, 0, 0, 0] ++ [0, 0, 0, 0]]

theorem pieces_framed : Event.WellFramed Transaction.decode { validate := false } pieces :=
  ⟨by decide, by decide, by decide +kernel, by decide, by decide +kernel, by decide, trivial⟩

end Example

/-- The stream goes on behind a body that cannot be decoded. -/
theorem calls_past_broken_body :
    Event.WellFramed Transaction.decode { validate := false } Example.pieces ∧
      (Event.parseEachWith Transaction.decode { validate := false } Example.pieces).map
          (fun parsed => (parsed.1.toOption.isSome, parsed.2.checksum)) =
        [(true, true), (false, true), (true, true)] ∧
      (EventStream.callsWith Transaction.decode 4
          { options := { validate := false }, source := .ofBytes Example.pieces.flatten }).map
            (fun call => (call.1, call.2.options)) =
        (Event.parseEachWith Transaction.decode { validate := false } Example.pieces).map
            (fun parsed => (some <$> parsed.1, parsed.2)) ++
          [(.ok none,
            Event.optionsBehind Transaction.decode { validate := false } Example.pieces)] :=
  ⟨Example.pieces_framed, by decide +kernel,
    EventStream.calls_eq_parseEach Transaction.decode Example.pieces_framed
      (Source.delivers_ofBytes _)⟩

end BinaryLog
