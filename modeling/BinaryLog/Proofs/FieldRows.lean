/-
# BinaryLog.Proofs.FieldRows -- rows of fields, and what comes behind them

A field has a type, a length and a value, each integer of them in any of its forms
(`PayloadField.Stands`).  Fields stand one behind the other (`PayloadField.Row`), and behind the
last of them comes one of four things:

* an end mark (`Marked`);
* the end of the bytes, within a type or a length (`Exhausted`);
* a type and a length, but not all of the value (`Truncated`);
* a type, a length or a value that is no number, or is too large (`Broken`).

No byte string is anything else (`PayloadField.exists_row`), and which it is decides what reading it
comes to, so that all of this holds in both directions (`PayloadHeader.read_outcomes`).
-/
import BinaryLog.Proofs.Forms

namespace BinaryLog

set_option autoImplicit false

open Wire PackedInt

namespace PayloadField

/-! ## Fields as they stand in a header -/

def type : PayloadField → UInt32
  | payloadSize _ => 1
  | compressionType _ => 2
  | uncompressedSize _ => 3
  | unknown type _ => type

/-- The type and the length of a field. -/
inductive Tags (type : UInt32) (length : Nat) : Bytes → Prop
  | intro {t l : Bytes} (typed : Packs type.toNat t) (sized : Packs length l)
      (short : length < 2 ^ 32) : Tags type length (t ++ l)

/-- The value of a field that has declared a length.  Of the known types it is an integer, however
long; any other value is as long as declared. -/
def Value (length : Nat) : PayloadField → Bytes → Prop
  | payloadSize n, value => Packs n.toNat value
  | compressionType code, value => Packs code.toNat value
  | uncompressedSize n, value => Packs n.toNat value
  | unknown type content, value => 3 < type ∧ content.length = length ∧ value = content

inductive Stands (f : PayloadField) : Bytes → Prop
  | intro {length : Nat} {tags value : Bytes} (tagged : Tags f.type length tags)
      (valued : f.Value length value) : Stands f (tags ++ value)

/-- Fields one behind the other. -/
inductive Row : List PayloadField → Bytes → Prop
  | nil : Row [] []
  | cons {f : PayloadField} {fs : List PayloadField} {lead behind : Bytes} (first : f.Stands lead)
      (later : Row fs behind) : Row (f :: fs) (lead ++ behind)

/-- The bytes are these fields, and behind them `tail`. -/
def Before (fs : List PayloadField) (tail bs : Bytes) : Prop :=
  ∃ lead, Row fs lead ∧ bs = lead ++ tail

/-! ## What comes behind them -/

/-- The known types, and what their values are below. -/
inductive Known : UInt32 → Nat → Prop
  | payloadSize : Known 1 (2 ^ 32)
  | compressionType : Known 2 (2 ^ 32)
  | uncompressedSize : Known 3 (2 ^ 64)

/-- An end mark, and what is behind it. -/
inductive Marked : Bytes → Bytes → Prop
  | intro {mark : Bytes} (packs : Packs 0 mark) (rest : Bytes) : Marked (mark ++ rest) rest

/-- The bytes end within a type, or within the length behind a type; what is there of it. -/
inductive Exhausted : Bytes → Bytes → Prop
  | type {rest : Bytes} (cut : CutOff rest) : Exhausted rest rest
  | length {type : UInt32} {lead rest : Bytes} (typed : Packs type.toNat lead) (some : type ≠ 0)
      (cut : CutOff rest) : Exhausted (lead ++ rest) rest

/-- A type and a length, and behind them a part of a value. -/
inductive Truncated : Bytes → HeaderFault → Bytes → Prop
  | value {type : UInt32} {limit length : Nat} {tags rest : Bytes} (known : Known type limit)
      (tagged : Tags type length tags) (cut : CutOff rest) :
      Truncated (tags ++ rest) (.valueIncomplete type (some (wanted rest - rest.length))) rest
  | content {type : UInt32} {length : Nat} {tags rest : Bytes} (other : 3 < type)
      (tagged : Tags type length tags) (short : rest.length < length) :
      Truncated (tags ++ rest) (.unknownFieldTooLong type (.ofNat length) rest.length) rest

/-- What should be a type, a length or a value is no number that can be one. -/
inductive Broken : Bytes → Violation → Bytes → Prop
  | type {bs rest : Bytes} {rule : Violation} (refused : Refused (2 ^ 32) bs rule rest) :
      Broken bs rule rest
  | length {type : UInt32} {lead bs rest : Bytes} {rule : Violation}
      (typed : Packs type.toNat lead) (some : type ≠ 0) (refused : Refused (2 ^ 32) bs rule rest) :
      Broken (lead ++ bs) rule rest
  | value {type : UInt32} {limit length : Nat} {tags bs rest : Bytes} {rule : Violation}
      (known : Known type limit) (tagged : Tags type length tags)
      (refused : Refused limit bs rule rest) : Broken (tags ++ bs) rule rest

/-- No further field comes. -/
def Stops (tail : Bytes) : Prop :=
  (∃ rest, Marked tail rest) ∨ (∃ rest, Exhausted tail rest) ∨
    (∃ fault rest, Truncated tail fault rest) ∨ ∃ rule rest, Broken tail rule rest

/-! ## There is nothing else -/

variable {f : PayloadField} {fs : List PayloadField} {type : UInt32} {limit length : Nat}
  {lead tags tail bs rest : Bytes} {fault : HeaderFault} {rule : Violation}

theorem Known.cases (type : UInt32) (some : type ≠ 0) : (∃ limit, Known type limit) ∨ 3 < type := by
  by_cases size : type = 1
  · subst size
    exact .inl ⟨_, .payloadSize⟩
  by_cases compression : type = 2
  · subst compression
    exact .inl ⟨_, .compressionType⟩
  by_cases uncompressed : type = 3
  · subst uncompressed
    exact .inl ⟨_, .uncompressedSize⟩
  · have differs {k : UInt32} (other : type ≠ k) : type.toNat ≠ k.toNat :=
      fun same => other (UInt32.toNat_inj.1 same)
    have ne₀ : type.toNat ≠ 0 := differs some
    have ne₁ : type.toNat ≠ 1 := differs size
    have ne₂ : type.toNat ≠ 2 := differs compression
    have ne₃ : type.toNat ≠ 3 := differs uncompressed
    have large : 3 < type.toNat := by omega
    exact .inr (UInt32.lt_iff_toNat_lt.2 large)

theorem Known.ne_zero (known : Known type limit) : type ≠ 0 := by
  cases known <;> decide

/-- A number below its limit is the value of a known field. -/
theorem Known.exists_value (known : Known type limit) {n : Nat} {value : Bytes}
    (packs : Packs n value) (small : n < limit) (length : Nat) :
    ∃ f : PayloadField, f.type = type ∧ f.Value length value := by
  cases known with
  | payloadSize =>
      refine ⟨.payloadSize (.ofNat n), rfl, ?_⟩
      rwa [Value, UInt32.toNat_ofNat_of_lt' small]
  | compressionType =>
      refine ⟨.compressionType (.ofNat n), rfl, ?_⟩
      rwa [Value, UInt32.toNat_ofNat_of_lt' small]
  | uncompressedSize =>
      refine ⟨.uncompressedSize (.ofNat n), rfl, ?_⟩
      rwa [Value, UInt64.toNat_ofNat_of_lt' small]

/-- What stands behind a type and a length. -/
theorem value_cases (some : type ≠ 0) (tagged : Tags type length tags) (bs : Bytes) :
    (∃ f value rest, Stands f (tags ++ value) ∧ bs = value ++ rest) ∨ Stops (tags ++ bs) := by
  rcases Known.cases type some with ⟨limit, known⟩ | other
  · rcases packed_cases limit bs with cut | ⟨rule, rest, refused⟩ |
      ⟨n, value, rest, packs, small, rfl⟩
    · exact .inr (.inr (.inr (.inl ⟨_, _, .value known tagged cut⟩)))
    · exact .inr (.inr (.inr (.inr ⟨_, _, .value known tagged refused⟩)))
    · obtain ⟨f, rfl, valued⟩ := known.exists_value packs small length
      exact .inl ⟨f, value, rest, .intro tagged valued, rfl⟩
  · rcases Nat.lt_or_ge bs.length length with short | there
    · exact .inr (.inr (.inr (.inl ⟨_, _, .content other tagged short⟩)))
    · refine .inl ⟨.unknown type (bs.take length), bs.take length, bs.drop length, ?_, ?_⟩
      · exact .intro tagged ⟨other, List.length_take_of_le there, rfl⟩
      · exact (List.take_append_drop length bs).symm

theorem tag_cases (bs : Bytes) :
    CutOff bs ∨ (∃ rule rest, Refused (2 ^ 32) bs rule rest) ∨
      ∃ (type : UInt32) (lead rest : Bytes), Packs type.toNat lead ∧ bs = lead ++ rest := by
  refine (packed_cases (2 ^ 32) bs).imp_right (.imp_right ?_)
  rintro ⟨n, lead, rest, packs, small, same⟩
  have back : (UInt32.ofNat n).toNat = n := UInt32.toNat_ofNat_of_lt' small
  exact ⟨.ofNat n, lead, rest, back.symm ▸ packs, same⟩

theorem field_cases (bs : Bytes) :
    (∃ f lead rest, Stands f lead ∧ bs = lead ++ rest) ∨ Stops bs := by
  rcases tag_cases bs with cut | ⟨rule, rest, refused⟩ | ⟨type, t, bs, typed, rfl⟩
  · exact .inr (.inr (.inl ⟨_, .type cut⟩))
  · exact .inr (.inr (.inr (.inr ⟨_, _, .type refused⟩)))
  by_cases mark : type = 0
  · subst mark
    exact .inr (.inl ⟨_, .intro typed bs⟩)
  rcases tag_cases bs with cut | ⟨rule, rest, refused⟩ | ⟨length, l, bs, sized, rfl⟩
  · exact .inr (.inr (.inl ⟨_, .length typed mark cut⟩))
  · exact .inr (.inr (.inr (.inr ⟨_, _, .length typed mark refused⟩)))
  have tagged : Tags type length.toNat (t ++ l) := .intro typed sized length.toNat_lt
  rw [← List.append_assoc]
  rcases value_cases mark tagged bs with ⟨f, value, rest, stands, rfl⟩ | stops
  · exact .inl ⟨f, t ++ l ++ value, rest, stands, (List.append_assoc ..).symm⟩
  · exact .inr stops

theorem Tags.two_le (tagged : Tags type length tags) : 2 ≤ tags.length := by
  cases tagged with
  | intro typed sized _ =>
      have first := typed.length_pos
      have second := sized.length_pos
      rw [List.length_append]
      omega

theorem Stands.length_pos (stands : f.Stands lead) : 0 < lead.length := by
  cases stands with
  | intro tagged _ =>
      have tags := tagged.two_le
      rw [List.length_append]
      omega

theorem Before.cons (first : f.Stands lead) (later : Before fs tail bs) :
    Before (f :: fs) tail (lead ++ bs) := by
  obtain ⟨behind, row, rfl⟩ := later
  exact ⟨lead ++ behind, .cons first row, (List.append_assoc ..).symm⟩

/-- Every byte string is a row of fields up to where no further one comes. -/
theorem exists_row (bs : Bytes) : ∃ fs tail, Before fs tail bs ∧ Stops tail := by
  induction len : bs.length using Nat.strongRecOn generalizing bs with
  | ind n ih =>
      rcases field_cases bs with ⟨f, lead, rest, stands, rfl⟩ | stops
      · have pos := stands.length_pos
        rw [List.length_append] at len
        obtain ⟨fs, tail, before, stops⟩ := ih rest.length (by omega) rest rfl
        exact ⟨f :: fs, tail, before.cons stands, stops⟩
      · exact ⟨[], bs, ⟨[], .nil, rfl⟩, stops⟩

/-! ## Reading them -/

theorem readTag_of_packs (typed : Packs type.toNat lead) (rest : Bytes) :
    readTag (lead ++ rest) = .ok (some type) rest := by
  simp only [readTag, Read.unpacks_packed32.number typed type.toNat_lt rest, UInt32.ofNat_toNat]

theorem readTag_of_cutOff (cut : CutOff bs) : readTag bs = .ok none bs := by
  simp only [readTag, Read.unpacks_packed32.cutOff cut]

theorem readTag_of_refused (refused : Refused (2 ^ 32) bs rule rest) :
    readTag bs = .error (.parse (.violation rule)) rest := by
  simp only [readTag, Read.unpacks_packed32.refused refused]

theorem readValue_of_cutOff {α : Type} {ofNat : Nat → α} {r : Read α}
    (unpacks : r.Unpacks limit ofNat) (type : UInt32) (cut : CutOff bs) :
    readValue type r bs =
      .error (.truncatedHeader (.valueIncomplete type (some (wanted bs - bs.length)))) bs := by
  simp only [readValue, EStateM.adaptExcept, unpacks.cutOff cut]

theorem readValue_of_refused {α : Type} {ofNat : Nat → α} {r : Read α}
    (unpacks : r.Unpacks limit ofNat) (type : UInt32) (refused : Refused limit bs rule rest) :
    readValue type r bs = .error (.parse (.violation rule)) rest := by
  simp only [readValue, EStateM.adaptExcept, unpacks.refused refused]

/-- What is read behind a type and a length. -/
def readBehind (type length : UInt32) : Decode Next :=
  if type = 1 then (fun n => .field (.payloadSize n)) <$> readValue type Read.packed32
  else if type = 2 then
    (fun code => .field (.compressionType code)) <$> readValue type Read.packed32
  else if type = 3 then (fun n => .field (.uncompressedSize n)) <$> readValue type Read.packed64
  else (fun content => .field (.unknown type content)) <$> readUnknown type length

theorem read_of_tags (some : type ≠ 0) (tagged : Tags type length tags) (bs : Bytes) :
    read (tags ++ bs) = readBehind type (.ofNat length) bs := by
  cases tagged with
  | @intro t l typed sized short =>
      have same : (UInt32.ofNat length).toNat = length := UInt32.toNat_ofNat_of_lt' short
      have second := readTag_of_packs (same.symm ▸ sized) bs
      have first := readTag_of_packs typed (l ++ bs)
      rw [List.append_assoc]
      simp only [read, bind, EStateM.bind, first, second, if_neg some, readBehind]
      split
      · rfl
      split
      · rfl
      split <;> rfl

theorem readBehind_unknown (other : 3 < type) (length : UInt32) :
    readBehind type length =
      (fun content => .field (.unknown type content)) <$> readUnknown type length := by
  have ne {k : UInt32} (small : k ≤ 3) : type ≠ k := by
    rintro rfl
    exact UInt32.not_le.2 other small
  rw [readBehind, if_neg (ne (by decide)), if_neg (ne (by decide)), if_neg (ne (by decide))]

/-- A value of a known type is read as a packed integer. -/
theorem Known.exists_reader (known : Known type limit) :
    ∃ (α : Type) (ofNat : Nat → α) (r : Read α) (next : α → Next), r.Unpacks limit ofNat ∧
      ∀ length, readBehind type length = next <$> readValue type r := by
  cases known with
  | payloadSize => exact ⟨_, _, _, _, Read.unpacks_packed32, fun length => rfl⟩
  | compressionType => exact ⟨_, _, _, _, Read.unpacks_packed32, fun length => rfl⟩
  | uncompressedSize => exact ⟨_, _, _, _, Read.unpacks_packed64, fun length => rfl⟩

theorem type_ne_zero {value : Bytes} (valued : f.Value length value) : f.type ≠ 0 := by
  cases f with
  | payloadSize n => exact Known.payloadSize.ne_zero
  | compressionType code => exact Known.compressionType.ne_zero
  | uncompressedSize n => exact Known.uncompressedSize.ne_zero
  | unknown type content =>
      rintro (rfl : type = 0)
      exact absurd valued.1 (by decide)

/-- A field in front of anything. -/
theorem read_of_stands (stands : f.Stands lead) (rest : Bytes) :
    read (lead ++ rest) = .ok (.field f) rest := by
  cases stands with
  | @intro length tags value tagged valued =>
      have behind {α : Type} {r : Read α} {a : α} (type : UInt32) (next : α → Next)
          (reads : r (value ++ rest) = .ok a rest) :
          (next <$> readValue type r) (value ++ rest) = .ok (next a) rest := by
        simp only [Functor.map, EStateM.map, readValue_of_ok type reads]
      rw [List.append_assoc, read_of_tags (type_ne_zero valued) tagged]
      cases f with
      | payloadSize n =>
          have reads := Read.unpacks_packed32.number valued n.toNat_lt rest
          rw [UInt32.ofNat_toNat] at reads
          exact behind 1 (fun n => .field (.payloadSize n)) reads
      | compressionType code =>
          have reads := Read.unpacks_packed32.number valued code.toNat_lt rest
          rw [UInt32.ofNat_toNat] at reads
          exact behind 2 (fun code => .field (.compressionType code)) reads
      | uncompressedSize n =>
          have reads := Read.unpacks_packed64.number valued n.toNat_lt rest
          rw [UInt64.ofNat_toNat] at reads
          exact behind 3 (fun n => .field (.uncompressedSize n)) reads
      | unknown type content =>
          obtain ⟨other, same, rfl⟩ := valued
          have short : length < 2 ^ 32 := by cases tagged; assumption
          have size : (UInt32.ofNat length).toNat = value.length := by
            rw [UInt32.toNat_ofNat_of_lt' short, same]
          have reads : readUnknown type (.ofNat length) (value ++ rest) = .ok value rest := by
            simp only [readUnknown, size, List.take_left, List.drop_left, if_true]
          simp only [PayloadField.type, readBehind_unknown other, Functor.map, EStateM.map, reads]

theorem read_of_marked (marked : Marked bs rest) : read bs = .ok .endMark rest := by
  cases marked with
  | @intro mark packs =>
      have typed : Packs (0 : UInt32).toNat mark := packs
      have reads := readTag_of_packs typed rest
      simp only [read, bind, EStateM.bind, reads, if_true, pure, EStateM.pure]

theorem read_of_exhausted (exhausted : Exhausted bs rest) : read bs = .ok .inputEnd rest := by
  cases exhausted with
  | type cut => simp only [read, bind, EStateM.bind, readTag_of_cutOff cut, pure, EStateM.pure]
  | length typed some cut =>
      simp only [read, bind, EStateM.bind, readTag_of_packs typed, if_neg some,
        readTag_of_cutOff cut, pure, EStateM.pure]

theorem read_of_truncated (truncated : Truncated bs fault rest) :
    read bs = .error (.truncatedHeader fault) rest := by
  cases truncated with
  | value known tagged cut =>
      obtain ⟨α, ofNat, r, next, unpacks, reader⟩ := known.exists_reader
      rw [read_of_tags known.ne_zero tagged, reader]
      simp only [Functor.map, EStateM.map, readValue_of_cutOff unpacks _ cut]
  | @content type length tags rest other tagged short =>
      have some : type ≠ 0 := by
        rintro rfl
        exact absurd other (by decide)
      have size : (UInt32.ofNat length).toNat = length := by
        cases tagged
        exact UInt32.toNat_ofNat_of_lt' (by assumption)
      have fewer : ¬ (rest.take length).length = length := by
        rw [List.length_take]
        omega
      rw [read_of_tags some tagged, readBehind_unknown other]
      simp only [Functor.map, EStateM.map, readUnknown, size, if_neg fewer]

theorem read_of_broken (broken : Broken bs rule rest) :
    read bs = .error (.parse (.violation rule)) rest := by
  cases broken with
  | type refused => simp only [read, bind, EStateM.bind, readTag_of_refused refused]
  | length typed some refused =>
      simp only [read, bind, EStateM.bind, readTag_of_packs typed, if_neg some,
        readTag_of_refused refused]
  | value known tagged refused =>
      obtain ⟨α, ofNat, r, next, unpacks, reader⟩ := known.exists_reader
      rw [read_of_tags known.ne_zero tagged, reader]
      simp only [Functor.map, EStateM.map, readValue_of_refused unpacks _ refused]

/-! ## Reading a row of them -/

theorem Row.length_le (row : Row fs lead) : fs.length ≤ lead.length := by
  induction row with
  | nil => exact Nat.le_refl 0
  | cons first later ih =>
      have pos := first.length_pos
      rw [List.length_cons, List.length_append]
      omega

theorem readWithin_of_row (row : Row fs lead) (fuel : Nat) (tail : Bytes) :
    readWithin (fs.length + fuel) (lead ++ tail) =
      ((fun (gs, closed) => (fs ++ gs, closed)) <$> readWithin fuel) tail := by
  induction row with
  | nil =>
      simp only [List.length_nil, Nat.zero_add, List.nil_append, Functor.map, EStateM.map]
      cases readWithin fuel tail <;> rfl
  | @cons f fs lead behind first later ih =>
      rw [List.length_cons, Nat.add_right_comm, List.append_assoc]
      simp only [readWithin, bind, EStateM.bind, read_of_stands first, ih, Functor.map, EStateM.map]
      cases readWithin fuel tail <;> rfl

/-- The fields are read, and the fuel lasts for what comes behind them. -/
theorem exists_readAll_eq (before : Before fs tail bs) :
    ∃ fuel, readAll bs =
      ((fun (gs, closed) => (fs ++ gs, closed)) <$> readWithin (fuel + 1)) tail := by
  obtain ⟨lead, row, rfl⟩ := before
  have few := row.length_le
  refine ⟨lead.length - fs.length + tail.length, ?_⟩
  rw [← readWithin_of_row row, readAll, List.length_append]
  congr 1
  omega

variable (before : Before fs tail bs)

include before

theorem readAll_of_marked (marked : Marked tail rest) : readAll bs = .ok (fs, true) rest := by
  obtain ⟨fuel, reads⟩ := exists_readAll_eq before
  simp only [reads, readWithin, bind, EStateM.bind, Functor.map, EStateM.map,
    read_of_marked marked, pure, EStateM.pure, List.append_nil]

theorem readAll_of_exhausted (exhausted : Exhausted tail rest) :
    readAll bs = .ok (fs, false) rest := by
  obtain ⟨fuel, reads⟩ := exists_readAll_eq before
  simp only [reads, readWithin, bind, EStateM.bind, Functor.map, EStateM.map,
    read_of_exhausted exhausted, pure, EStateM.pure, List.append_nil]

theorem readAll_of_error {e : Error} (fails : read tail = .error e rest) :
    readAll bs = .error e rest := by
  obtain ⟨fuel, reads⟩ := exists_readAll_eq before
  simp only [reads, readWithin, bind, EStateM.bind, Functor.map, EStateM.map, fails]

end PayloadField

end BinaryLog
