/-
# BinaryLog.Proofs.Appending -- an event is written as a whole or not at all

What becomes of an event that is to be written does not depend on the buffer, only on the event and
on whether it is to have a checksum (`Event.Outcome`).  If it is written, its header tells the
number of its bytes, and the checksum is that of its own header and body, though the bytes it is
taken of are found behind those of other events (`Event.performs_write`).  If it is refused, this
happens before anything of it is in the buffer: the body was written aside, and its length is looked
at before the header is written.

So events that are written one behind the other stand there one behind the other, without those
that were refused (`Event.writeEach_eq`).
-/
import BinaryLog.Proofs.Writers
import BinaryLog.Proofs.Written

namespace BinaryLog

set_option autoImplicit false

open Wire Write

/-- Data of these types are read and never written. -/
def Body.ReadOnly : Body → Prop
  | .stop | .userVar _ | .incident _ | .heartbeat _ | .previousGtids _ | .unknown _ => True
  | _ => False

theorem Body.encode_of_readOnly {b : Body} (only : b.ReadOnly) : b.encode = .error .readOnly := by
  cases b <;> first | rfl | cases only

/-- A frame of the right shape is the one that is made. -/
theorem EventHeader.frame_of_shape {h : EventHeader} {body trailer raw : Bytes} {checksum : Bool}
    (shape : raw = (h.withLength raw.length).encode ++ (body ++ trailer))
    (trailed : trailer = if checksum then
      Word.bytes (Crc32.checksum ((h.withLength raw.length).encode ++ body)) else [])
    (small : raw.length < 2 ^ 32) : h.frame body checksum = .ok raw := by
  have length : size + body.length + (if checksum then Crc32.size else 0) =
      raw.length := by
    rw [shape, trailed]
    cases checksum <;> simp [length_encode, Word.width, Crc32.size, Nat.add_assoc]
  simp only [frame, length, if_pos small, Except.ok.injEq]
  subst trailed
  cases checksum with
  | true => exact (List.append_assoc ..).trans shape.symm
  | false => exact (congrArg _ (List.append_nil body)).symm.trans shape.symm

namespace Event

variable {e : Event} {checksum : Bool}

/-! ## What becomes of an event -/

/-- What an event is written as, or the reason why it is refused. -/
inductive Outcome (e : Event) (checksum : Bool) : Except Violation Bytes → Prop
  /-- The header that was given, but with the number of all bytes as its length, the body, and the
  checksum of these two. -/
  | written {body trailer raw : Bytes} (data : e.body.encode = .ok body)
      (shape : raw = (e.header.withLength raw.length).encode ++ (body ++ trailer))
      (trailed : trailer = if checksum then
        Word.bytes (Crc32.checksum ((e.header.withLength raw.length).encode ++ body)) else [])
      (small : raw.length < 2 ^ 32) (told : declaredLength raw = raw.length) :
      Outcome e checksum (.ok raw)
  | inconsistent {q : Query} (body : e.body = .query q)
      (lengths : ¬ (q.schema.length = q.schemaLength.toNat ∧
        q.statusVars.length = q.statusVarsLength.toNat)) :
      Outcome e checksum (.error (.inconsistentQuery q.schemaLength q.statusVarsLength))
  | longVersion {d : FormatDescription} (body : e.body = .formatDescription d)
      (long : 50 ≤ (Text.Utf8.encode d.serverVersion).length) :
      Outcome e checksum (.error (.serverVersionTooLong d.serverVersion))
  | readOnly (body : e.body.ReadOnly) : Outcome e checksum (.error .readOnly)
  | tooLarge {body : Bytes} {length : Nat} (data : e.body.encode = .ok body)
      (sum : length = EventHeader.size + body.length + if checksum then Crc32.size else 0)
      (large : 2 ^ 32 ≤ length) : Outcome e checksum (.error (.eventTooLarge length))

/-- A body is refused for what it is, whatever the header. -/
theorem outcome_of_body_error {v : Violation} (refused : e.body.encode = .error v) :
    e.Outcome checksum (.error v) := by
  obtain ⟨header, body, crc32⟩ := e
  cases body with
  | query q =>
      simp only [Body.encode, Query.encode] at refused
      split at refused
      · cases refused
      · rename_i lengths
        cases refused
        exact .inconsistent rfl lengths
  | formatDescription d =>
      simp only [Body.encode, FormatDescription.encode] at refused
      split at refused
      · cases refused
      · rename_i long
        cases refused
        exact .longVersion rfl (Nat.le_of_not_lt long)
  | _ =>
      cases refused
      all_goals exact .readOnly trivial

theorem outcome_frame {body : Bytes} (data : e.body.encode = .ok body) (checksum : Bool) :
    e.Outcome checksum (e.header.frame body checksum) := by
  by_cases small : EventHeader.size + body.length + (if checksum then Crc32.size else 0) < 2 ^ 32
  · obtain ⟨raw, framed⟩ : ∃ raw, e.header.frame body checksum = .ok raw := ⟨_, if_pos small⟩
    obtain ⟨bounded, trailer, shape, trailed⟩ := EventHeader.frame_cases framed
    rw [framed]
    exact .written data shape trailed bounded (declaredLength_frame framed)
  · rw [EventHeader.frame, if_neg small]
    exact .tooLarge data rfl (Nat.le_of_not_lt small)

theorem outcome_encode (e : Event) (checksum : Bool) : e.Outcome checksum (e.encode checksum) := by
  cases data : e.body.encode with
  | error v =>
      simp only [encode, data, bind, Except.bind]
      exact outcome_of_body_error data
  | ok body =>
      simp only [encode, data, bind, Except.bind]
      exact outcome_frame data checksum

theorem encode_of_outcome {result : Except Violation Bytes} (outcome : e.Outcome checksum result) :
    e.encode checksum = result := by
  cases outcome with
  | written data shape trailed small told =>
      simp only [encode, data, bind, Except.bind]
      exact EventHeader.frame_of_shape shape trailed small
  | inconsistent body lengths =>
      simp only [encode, body, Body.encode, Query.encode, if_neg lengths, bind, Except.bind]
  | longVersion body long =>
      have short : ¬ _ < FormatDescription.versionLength := Nat.not_lt_of_le long
      simp only [encode, body, Body.encode, FormatDescription.encode, if_neg short, bind,
        Except.bind]
  | readOnly body => simp only [encode, Body.encode_of_readOnly body, bind, Except.bind]
  | tooLarge data sum large =>
      simp only [encode, data, bind, Except.bind, EventHeader.frame, ← sum,
        if_neg (Nat.not_lt_of_le large)]

/-! ## One event -/

/-- Header and body are written behind the buffer, and what is behind its old end is what the
checksum is taken of. -/
theorem performs_frame {body : Bytes} (data : e.body.write.Performs (.ok body)) :
    (e.write checksum).Performs (e.header.frame body checksum) := by
  intro out
  simp only [write, EventHeader.frame, bind, EStateM.bind, data.aside_ok]
  generalize EventHeader.size + body.length + (if checksum then Crc32.size else 0) = length
  by_cases small : length < 2 ^ 32
  · rw [if_pos small, if_pos small]
    generalize { e.header with eventLength := UInt32.ofNat length } = h
    have front : row [h.write, octets body] out =
        .ok (h.encode ++ body).length (out ++ (h.encode ++ body)) :=
      h.appends_write.cons (appends_octets body).last out
    generalize h.encode ++ body = event at front ⊢
    have buffer : (get : EStateM Violation Bytes Bytes) = fun out => .ok out out := rfl
    cases checksum with
    | true =>
        have trailer : word (Crc32.checksum event) (out ++ event) = _ :=
          appends_word (Crc32.checksum event) (out ++ event)
        simp only [buffer, EStateM.bind, front, if_true, List.drop_left, trailer, onto, pure,
          EStateM.pure, List.length_append, List.append_assoc]
    | false =>
        simp only [buffer, EStateM.bind, front, onto]
        rfl
  · rw [if_neg small, if_neg small]
    rfl

theorem performs_write (e : Event) (checksum : Bool) :
    (e.write checksum).Performs (e.encode checksum) := by
  cases data : e.body.encode with
  | error v =>
      intro out
      have refused : e.body.write.Performs (.error v) := data ▸ e.body.performs_write
      simp only [write, encode, bind, EStateM.bind, Except.bind, refused.aside_error, data, onto]
  | ok body =>
      have written : e.body.write.Performs (.ok body) := data ▸ e.body.performs_write
      simp only [encode, data, bind, Except.bind]
      exact performs_frame written

/-- The buffer that an event is written behind makes no difference to it. -/
theorem appendTo_eq (out : Bytes) (e : Event) (checksum : Bool) :
    e.appendTo out checksum = match e.write checksum out with
      | .ok n out => (.ok n, out)
      | .error v out => (.error v, out) := by
  rw [performs_write, appendTo]
  cases e.encode checksum <;> rfl

/-! ## Events in a row -/

/-- Each event comes to the same as if it were the only one, and those that come to anything stand
in a row. -/
theorem writeEach_eq (requests : List (Event × Bool)) (out : Bytes) :
    writeEach requests out =
      let results := requests.map fun r => r.1.encode r.2
      (results.map fun result => List.length <$> result,
        out ++ (results.filterMap Except.toOption).flatten) := by
  induction requests generalizing out with
  | nil =>
      simp only [writeEach, List.map_nil, List.filterMap_nil, List.flatten_nil, List.append_nil]
  | cons r later ih =>
      obtain ⟨e, checksum⟩ := r
      simp only [writeEach, performs_write e checksum out, List.map_cons, List.filterMap_cons]
      cases e.encode checksum with
      | ok raw =>
          simp only [onto, ih, Except.toOption, List.flatten_cons, List.append_assoc]
          rfl
      | error v =>
          simp only [onto, ih, Except.toOption]
          rfl

/-- **Writing appends an event as a whole, wherever it is written, or leaves the buffer alone.**
What an event is written as, or why it is refused, follows from the event and the wish for a
checksum (`Outcome`), and this is what is behind the buffer and what is counted, whatever the buffer
holds.  Of events that are written one behind the other, each comes to the same as if it were the
only one, and one that is refused leaves no trace. -/
theorem write_atomic :
    (∀ (e : Event) (checksum : Bool),
      (∀ result, e.Outcome checksum result ↔ e.encode checksum = result) ∧
      (e.write checksum).Performs (e.encode checksum)) ∧
    ∀ (requests : List (Event × Bool)) (out : Bytes),
      let results := requests.map fun r => r.1.encode r.2
      writeEach requests out =
        (results.map fun result => List.length <$> result,
          out ++ (results.filterMap Except.toOption).flatten) := by
  refine ⟨fun e checksum => ⟨fun result => ⟨encode_of_outcome, ?_⟩, performs_write e checksum⟩,
    writeEach_eq⟩
  rintro rfl
  exact outcome_encode e checksum

end Event

end BinaryLog
