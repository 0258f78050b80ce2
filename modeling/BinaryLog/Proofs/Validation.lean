/-
# BinaryLog.Proofs.Validation -- validation only rejects

Two readers of one source, in the same mode, of which one validates checksums and the other does
not, go along together: call by call they give the same, and are left with the same source and mode
(`EventStream.validation`).  They part only where the first one refuses an event for the checksum of
its own (`mismatched`); a checksum that is wrong within a transaction is told as the failure of an
embedded event, by both of them.

Whether the checksum is compared in front of the body or behind it does not matter for this: if it
is wrong then that is what is told (`EventStream.nextWith_lenient`).  And what the first reader lets
pass has the right checksum (`EventStream.checksum_of_given`).
-/
import BinaryLog.Proofs.Consumption
import BinaryLog.Proofs.Corruption
import BinaryLog.Proofs.Cutting
import BinaryLog.Proofs.Decoded
import BinaryLog.Proofs.Mode

namespace BinaryLog

set_option autoImplicit false

/-! ## One event -/

/-- Whether something is refused for a checksum of its own. -/
def mismatched {α : Type} : Except Error α → Bool
  | .error (.checksumMismatch _ _) => true
  | _ => false

theorem mismatched_bind {α β : Type} {x : Except Error α} (wrong : mismatched x = true)
    (f : α → Except Error β) : mismatched (x >>= f) = true := by
  cases x with
  | error e => cases e <;> exact wrong
  | ok a => cases wrong

theorem mismatched_some {α : Type} (x : Except Error α) :
    mismatched (some <$> x) = mismatched x := by
  cases x with
  | error e => cases e <;> rfl
  | ok a => rfl

namespace Options

/-- The options without validation. -/
def lenient (o : Options) : Options := { o with validate := false }

end Options

theorem verifyChecksum_lenient (o : Options) (raw : Bytes) :
    mismatched (verifyChecksum o raw) = true ∨
      verifyChecksum o.lenient raw = verifyChecksum o raw := by
  simp only [verifyChecksum, Options.lenient, Bool.false_eq_true, false_and, if_false]
  split
  · exact .inl rfl
  · exact .inr rfl

namespace Event

variable (payload : Decode Transaction) (o : Options) (header : EventHeader) (raw : Bytes)

/-- The checksum is compared in front of the body. -/
theorem decodeOrdinary_lenient :
    mismatched (decodeOrdinary payload o header raw) = true ∨
      decodeOrdinary payload o.lenient header raw = decodeOrdinary payload o header raw := by
  have mode : o.lenient.checksum = o.checksum := rfl
  simp only [decodeOrdinary, mode]
  split
  · rcases verifyChecksum_lenient o raw with wrong | same
    · exact .inl (mismatched_bind wrong _)
    · exact .inr (by rw [same])
  · exact .inr rfl

theorem trailer_lenient (d : FormatDescription) (rest : Bytes) :
    mismatched (d.trailer rest o raw) = true ∨
      d.trailer rest o.lenient raw = d.trailer rest o raw := by
  simp only [FormatDescription.trailer]
  split
  · split
    · exact .inr rfl
    · exact verifyChecksum_lenient o raw
  · exact .inr rfl

/-- The checksum is compared behind the body. -/
theorem decodeFormatDescription_lenient :
    let decoded := decodeFormatDescription o header raw
    mismatched decoded.1 = true ∨
      decodeFormatDescription o.lenient header raw = (decoded.1, decoded.2.lenient) := by
  simp only [decodeFormatDescription]
  cases FormatDescription.read (raw.drop EventHeader.size) with
  | error e rest => exact .inr rfl
  | ok d rest =>
      rcases trailer_lenient o raw d rest with wrong | same
      · cases checks : d.trailer rest o raw with
        | error e =>
            rw [checks] at wrong
            simp only [checks]
            exact .inl (by cases e <;> exact wrong)
        | ok crc32 =>
            rw [checks] at wrong
            cases wrong
      · simp only [same]
        cases d.trailer rest o raw with
        | error e => exact .inr rfl
        | ok crc32 => exact .inr rfl

/-- What decoding comes to, and what it leaves, is the same unless a checksum is wrong. -/
theorem decodeWith_lenient :
    let decoded := decodeWith payload o header raw
    mismatched decoded.1 = true ∨
      decodeWith payload o.lenient header raw = (decoded.1, decoded.2.lenient) := by
  simp only [decodeWith]
  split
  · exact decodeFormatDescription_lenient o header raw
  · rcases decodeOrdinary_lenient payload o header raw with wrong | same
    · exact .inl wrong
    · exact .inr (by rw [same])

end Event

/-! ## One call -/

namespace EventStream

variable {payload : Decode Transaction}

/-- The stream without validation. -/
def lenient (s : EventStream) : EventStream := { s with options := s.options.lenient }

variable (payload) in
/-- A call comes to the same, and leaves the same, unless a checksum is wrong. -/
theorem nextWith_lenient (s : EventStream) :
    mismatched (s.nextWith payload).1 = true ∨
      s.lenient.nextWith payload =
        ((s.nextWith payload).1, (s.nextWith payload).2.lenient) := by
  have same : cut s.lenient.options.leastLength s.lenient.source =
      cut s.options.leastLength s.source := rfl
  unfold nextWith
  rw [same]
  generalize cut s.options.leastLength s.source = found
  obtain ⟨found, source⟩ := found
  cases found with
  | finished => exact .inr rfl
  | refused e => exact .inr rfl
  | fault text => exact .inr rfl
  | event header raw =>
      rcases Event.decodeWith_lenient payload s.options header raw with wrong | same
      · exact .inl ((mismatched_some _).trans wrong)
      · exact .inr (by simp only [lenient, same])

/-- An event that is given was cut off as long as its header says, and has passed what the options
demand. -/
theorem passed_of_given {s s' : EventStream} {event : Event}
    (next : s.nextWith payload = (.ok (some event), s')) :
    ∃ raw, cut s.options.leastLength s.source = (.event event.header raw, s'.source) ∧
      raw.length = event.header.eventLength.toNat ∧
      event.Passed payload s.options event.header raw := by
  unfold nextWith at next
  generalize cuts : cut s.options.leastLength s.source = found at next
  obtain ⟨found, source⟩ := found
  cases found with
  | finished => cases next
  | refused e => cases next
  | fault text => cases next
  | event header raw =>
      obtain ⟨rfl, -, exact⟩ := Source.framed_of_cut s.options.size_le_leastLength cuts
      dsimp only at next
      generalize decodes : Event.decodeWith payload s.options (.ofBytes raw) raw = decoded at next
      obtain ⟨result, options⟩ := decoded
      cases result with
      | error e => cases next
      | ok event' =>
          cases next
          have passed := Event.passed_of_decodeWith (congrArg Prod.fst decodes)
          rw [passed.same]
          exact ⟨raw, rfl, exact.symm, passed⟩

/-- A checksum that was validated is that of all bytes in front of it. -/
theorem checksum_of_given {s s' : EventStream} {event : Event}
    (validated : s.options.validate = true)
    (next : s.nextWith payload = (.ok (some event), s')) :
    ∃ raw, cut s.options.leastLength s.source = (.event event.header raw, s'.source) ∧
      raw.length = event.header.eventLength.toNat ∧
      (event.body.checksumIn s.options.checksum = true →
        event.crc32 = Crc32.checksum (raw.take (raw.length - Crc32.size))) := by
  obtain ⟨raw, cuts, length, passed⟩ := passed_of_given next
  refine ⟨raw, cuts, length, fun checked => ?_⟩
  have verified := passed.checked
  rw [if_pos checked] at verified
  exact checksum_of_verified validated verified

/-! ## Many calls -/

variable (payload) in
theorem validate_nextWith (s : EventStream) :
    (s.nextWith payload).2.options.validate = s.options.validate := by
  rw [options_nextWith, Options.afterCall]
  split <;> rfl

variable (payload) in
theorem validate_behind (n : Nat) : ∀ s : EventStream,
    (behind payload n s).options.validate = s.options.validate := by
  induction n with
  | zero => intro s; rfl
  | succ n ih =>
      intro s
      rw [behind_succ, validate_nextWith, ih]

theorem calls_lenient {n : Nat} : ∀ {s : EventStream},
    (∀ call ∈ callsWith payload n s, mismatched call.1 = false) →
      callsWith payload n s.lenient =
        (callsWith payload n s).map fun call => (call.1, call.2.lenient) := by
  induction n with
  | zero => intro s _; rfl
  | succ n ih =>
      intro s right
      obtain ⟨first, later⟩ := List.forall_mem_cons.1 right
      rcases nextWith_lenient payload s with wrong | same
      · rw [first] at wrong
        cases wrong
      · simp only [callsWith, List.map_cons, same, ih later]

/-- **Validation only rejects.**  As long as no event is refused for its own checksum, a reader that
validates gives what one gives that does not: the same events and the same errors, and is left with
the same source in the same mode.  Every event that it gives, and that was read with a checksum, has
the checksum of its header and its body. -/
theorem validation (payload : Decode Transaction) (source : Source) (mode : Bool) :
    let strict : EventStream := { options := { checksum := mode, validate := true }, source }
    let loose : EventStream := { options := { checksum := mode, validate := false }, source }
    (∀ n, (∀ call ∈ callsWith payload n strict, mismatched call.1 = false) →
      callsWith payload n loose =
        (callsWith payload n strict).map fun call => (call.1, call.2.lenient)) ∧
    ∀ n event, ((behind payload n strict).nextWith payload).1 = .ok (some event) →
      let here := behind payload n strict
      ∃ raw, cut here.options.leastLength here.source =
          (.event event.header raw, (behind payload (n + 1) strict).source) ∧
        raw.length = event.header.eventLength.toNat ∧
        (event.body.checksumIn here.options.checksum = true →
          event.crc32 = Crc32.checksum (raw.take (raw.length - Crc32.size))) := by
  intro strict loose
  refine ⟨fun n right => calls_lenient right, ?_⟩
  intro n event given here
  have validated : here.options.validate = true := validate_behind payload n strict
  rw [behind_succ]
  exact checksum_of_given validated (Prod.ext given rfl)

end EventStream

namespace Example

/-- A commit with its checksum, and then the same with another last byte. -/
def damaged : Bytes := checked ++ checked.set 30 0

end Example

/-- The first commit is given, and the second one is refused. -/
theorem calls_of_damaged_commits :
    let strict : EventStream :=
      { options := { checksum := true, validate := true }, source := .ofBytes Example.damaged }
    let loose : EventStream :=
      { options := { checksum := true, validate := false }, source := .ofBytes Example.damaged }
    (EventStream.callsWith Transaction.decode 2 strict).map (fun call => mismatched call.1) =
        [false, true] ∧
      EventStream.callsWith Transaction.decode 1 loose =
        (EventStream.callsWith Transaction.decode 1 strict).map
          (fun call => (call.1, call.2.lenient)) ∧
      ∃ (event : Event) (raw : Bytes),
        (strict.nextWith Transaction.decode).1 = .ok (some event) ∧ event.crc32 = 0xde394156 ∧
        raw.length = event.header.eventLength.toNat ∧
        event.crc32 = Crc32.checksum (raw.take (raw.length - Crc32.size)) := by
  intro strict loose
  have refused : (EventStream.callsWith Transaction.decode 2 strict).map
      (fun call => mismatched call.1) = [false, true] := by decide +kernel
  have right : ∀ call ∈ EventStream.callsWith Transaction.decode 1 strict,
      mismatched call.1 = false := by decide +kernel
  have found : (strict.nextWith Transaction.decode).1.toOption.map
      (·.map fun e => (e.crc32, e.body.checksumIn true)) =
        some (some (0xde394156, true)) := by decide +kernel
  obtain ⟨same, given⟩ := EventStream.validation Transaction.decode (.ofBytes Example.damaged) true
  refine ⟨refused, same 1 right, ?_⟩
  cases result : (strict.nextWith Transaction.decode).1 with
  | error e => simp [result, Except.toOption] at found
  | ok first =>
      cases first with
      | none => simp [result, Except.toOption] at found
      | some event =>
          simp only [result, Except.toOption, Option.map_some, Option.some.injEq,
            Prod.mk.injEq] at found
          obtain ⟨raw, -, length, checked⟩ := given 0 event result
          exact ⟨event, raw, rfl, found.1, length, checked found.2⟩

end BinaryLog
