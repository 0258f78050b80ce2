/-
# BinaryLog.Proofs.Corruption -- an event with one byte changed

An event that ends with a checksum is accepted only if its header declares its length and if the
checksum is that of all bytes in front of it (`Event.framed_of_parseWith`, `Event.Passed`).  So no
single byte of it can be another one (`Event.parseWith_set`):

* if it is one of the four bytes of the length, then the length is wrong;
* else the length is right, and the checksum is looked at before the body is, so that it is the
  checksum that is wrong, whatever the body has become.

The type is one of the bytes.  A change that makes a format description of the event is left out
here, and so is one that makes it something else: a format description says itself whether it has
a checksum.
-/
import BinaryLog.Payload.Events
import BinaryLog.Proofs.Checksum
import BinaryLog.Proofs.Decoded
import BinaryLog.Proofs.Pieces

namespace BinaryLog

set_option autoImplicit false

/-! ## Headers with one byte changed -/

theorem EventType.ofCode_eq_formatDescription {code : UInt8} :
    ofCode code = formatDescription ↔ code = 15 := by
  constructor
  · intro same
    unfold ofCode at same
    split at same <;> first | rfl | cases same
  · rintro rfl
    rfl

/-- A change behind the header leaves it as it is. -/
theorem EventHeader.ofBytes_set {raw : Bytes} {i : Nat} {b : UInt8} (behind : size ≤ i) :
    ofBytes (raw.set i b) = ofBytes raw := by
  have slice : ∀ n k, n + k ≤ size → ((raw.set i b).drop n).take k = (raw.drop n).take k :=
    fun n k within => Bytes.slice_set_outside (.inr (Nat.le_trans within behind))
  have first := slice 0 4 (by decide)
  rw [List.drop_zero, List.drop_zero] at first
  simp only [ofBytes, first, slice 4 1 (by decide), slice 5 4 (by decide), slice 9 4 (by decide),
    slice 13 4 (by decide), slice 17 2 (by decide)]

section Changed

variable {raw : Bytes} {i : Nat} {b : UInt8}

/-- The length stays as declared if none of its bytes is changed. -/
theorem declaredLength_set (outside : ¬ (9 ≤ i ∧ i < 13)) :
    declaredLength (raw.set i b) = declaredLength raw := by
  have slice : ((raw.set i b).drop 9).take 4 = (raw.drop 9).take 4 :=
    Bytes.slice_set_outside (by omega)
  simp only [declaredLength, EventHeader.ofBytes, slice]

theorem declaredLength_set_ne (there : EventHeader.size ≤ raw.length) (first : 9 ≤ i)
    (last : i < 13) (inside : i < raw.length) (other : raw[i] ≠ b) :
    declaredLength (raw.set i b) ≠ declaredLength raw := by
  intro same
  simp only [EventHeader.size] at there
  have width : ((raw.drop 9).take 4).length = Word.width UInt32 := by
    rw [List.length_take, List.length_drop]
    exact Nat.min_eq_left (by omega)
  have words := UInt32.toNat_inj.1 same
  simp only [EventHeader.ofBytes, Bytes.slice_set_inside first] at words
  have slices := Word.ofBytes_inj (by rwa [List.length_set]) width words
  refine Bytes.set_ne ?_ ?_ slices
  · simp only [width, Word.width]
    omega
  · simpa only [List.getElem_take, List.getElem_drop, Nat.add_sub_cancel' first] using other

end Changed

/-! ## Events that are accepted -/

namespace Event

variable {payload : Decode Transaction} {o : Options} {raw : Bytes} {event : Event}

variable (payload o) in
/-- A length other than the declared one is refused. -/
theorem parseWith_of_other_length (there : EventHeader.size ≤ raw.length)
    (other : declaredLength raw ≠ raw.length) :
    ∃ fault, parseWith payload o raw = (.error (.invalidFormat fault), o) := by
  simp only [parseWith, EventHeader.read_eq there]
  rcases Nat.lt_or_ge (declaredLength raw) o.leastLength with short | long
  · rw [EventHeader.checkLength_of_lt short]
    exact ⟨_, rfl⟩
  · rw [EventHeader.checkLength_of_le long]
    exact ⟨_, if_pos other.symm⟩

theorem framed_of_parseWith (accepted : (parseWith payload o raw).1 = .ok event) :
    o.leastLength ≤ raw.length ∧ declaredLength raw = raw.length ∧
      (decodeWith payload o (.ofBytes raw) raw).1 = .ok event := by
  have there : EventHeader.size ≤ raw.length := by
    simp only [parseWith] at accepted
    split at accepted
    · cases accepted
    · rename_i header rest reads
      exact (EventHeader.eq_of_read reads).1
  by_cases exact : declaredLength raw = raw.length
  · rcases Nat.lt_or_ge (declaredLength raw) o.leastLength with short | long
    · simp only [parseWith, EventHeader.read_eq there,
        EventHeader.checkLength_of_lt short] at accepted
      cases accepted
    · rw [exact] at long
      rw [parseWith_of_frame long exact] at accepted
      exact ⟨long, exact, accepted⟩
  · obtain ⟨fault, refused⟩ := parseWith_of_other_length payload o there exact
    rw [refused] at accepted
    cases accepted

theorem decodeOrdinary_of_mismatch {header : EventHeader} {expected actual : UInt32}
    (checked : o.checksum = true)
    (wrong : verifyChecksum o raw = .error (.checksumMismatch expected actual)) :
    decodeOrdinary payload o header raw = .error (.checksumMismatch expected actual) := by
  simp only [decodeOrdinary, checked, if_true, wrong]
  rfl

/-- **One changed byte is found.**  Of an event that is accepted with its checksum validated, and
that is no format description and does not become one, no byte can be changed: in the length it
makes that wrong, and anywhere else, in the checksum too, it makes the checksum wrong. -/
theorem parseWith_set (payload : Decode Transaction) {raw : Bytes} {event : Event}
    (accepted : (parseWith payload { checksum := true, validate := true } raw).1 = .ok event)
    (ordinary : (EventHeader.ofBytes raw).typeCode ≠ 15)
    {i : Nat} {b : UInt8} (inside : i < raw.length) (other : raw[i] ≠ b)
    (ordinary' : (EventHeader.ofBytes (raw.set i b)).typeCode ≠ 15) :
    let result := (parseWith payload { checksum := true, validate := true } (raw.set i b)).1
    if 9 ≤ i ∧ i < 13 then ∃ fault, result = .error (.invalidFormat fault)
    else ∃ expected actual, result = .error (.checksumMismatch expected actual) := by
  intro result
  obtain ⟨long, exact, decodes⟩ := framed_of_parseWith accepted
  have there := Nat.le_trans (Options.size_le_leastLength _) long
  have trailed : Crc32.size ≤ raw.length := Nat.le_trans (by decide) there
  have length : (raw.set i b).length = raw.length := List.length_set
  split
  · rename_i range
    have other' : declaredLength (raw.set i b) ≠ (raw.set i b).length := by
      rw [length, ← exact]
      exact declaredLength_set_ne there range.1 range.2 inside other
    obtain ⟨fault, refused⟩ :=
      parseWith_of_other_length payload { checksum := true, validate := true }
        (show EventHeader.size ≤ (raw.set i b).length by rwa [length]) other'
    exact ⟨fault, congrArg Prod.fst refused⟩
  · rename_i outside
    have exact' : declaredLength (raw.set i b) = (raw.set i b).length := by
      rw [declaredLength_set outside, length, exact]
    -- both are decoded as ordinary events, whose checksum comes first
    have plain : (EventHeader.ofBytes raw).type ≠ .formatDescription :=
      fun same => ordinary (EventType.ofCode_eq_formatDescription.1 same)
    have plain' : (EventHeader.ofBytes (raw.set i b)).type ≠ .formatDescription :=
      fun same => ordinary' (EventType.ofCode_eq_formatDescription.1 same)
    have passed := passed_of_decodeWith decodes
    have verified := passed.checked
    rw [passed.checksumIn_of_plain plain, if_pos rfl] at verified
    obtain ⟨expected, actual, wrong⟩ := verifyChecksum_set rfl verified trailed inside other
    refine ⟨expected, actual, ?_⟩
    show (parseWith payload _ (raw.set i b)).1 = _
    rw [parseWith_of_frame (by rwa [length]) exact', decodeWith, if_neg plain',
      decodeOrdinary_of_mismatch rfl wrong]

end Event

namespace Example

/-- A commit with its checksum. -/
def checked : Bytes :=
  [0, 0, 0, 0, 16, 1, 0, 0, 0, 31, 0, 0, 0, 0, 0, 0, 0, 0, 0] ++
    [7, 0, 0, 0, 0, 0, 0, 0] ++ [86, 65, 57, 222]

theorem checked_accepted : ∃ event,
    (Event.parse { checksum := true, validate := true } checked).1 = .ok event ∧
      event.crc32 = 0xde394156 :=
  exists_of_map_toOption (by decide +kernel)

end Example

/-- The commit when its length is one byte less, and when its type is that of a stop. -/
theorem parse_checked_set :
    ∃ event, (Event.parse { checksum := true, validate := true } Example.checked).1 = .ok event ∧
      event.crc32 = 0xde394156 ∧
      (∃ fault, (Event.parse { checksum := true, validate := true } (Example.checked.set 9 30)).1 =
        .error (.invalidFormat fault)) ∧
      ∃ expected actual, (Event.parse { checksum := true, validate := true }
        (Example.checked.set 4 3)).1 = .error (.checksumMismatch expected actual) := by
  obtain ⟨event, accepted, stored⟩ := Example.checked_accepted
  refine ⟨event, accepted, stored, ?_, ?_⟩
  · exact Event.parseWith_set Transaction.decode accepted (by decide) (i := 9) (b := 30)
      (by decide) (by decide) (by decide)
  · exact Event.parseWith_set Transaction.decode accepted (by decide) (i := 4) (b := 3)
      (by decide) (by decide) (by decide)

end BinaryLog
