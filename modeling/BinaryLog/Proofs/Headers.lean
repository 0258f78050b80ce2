/-
# BinaryLog.Proofs.Headers -- what the header of a payload says, and what is wrong with one

Of several fields of one type the last one counts, and a field that is not there has a default
(`PayloadHeader.Tells`).  So fields of different types may change places, and fields of unknown
types may come and go, whatever they hold (`PayloadField.Alike`): the header says the same
(`PayloadHeader.read_of_row`).

A byte string is read as a header if its fields end with a mark, or where the input ends within a
type or a length, which then stays unread.  It is refused for the first part of a field that is no
number, or for the first value that is not there as a whole, and for nothing else
(`PayloadHeader.read_outcomes`).
-/
import BinaryLog.Proofs.FieldRows
import Mathlib.Data.List.Induction

namespace BinaryLog

set_option autoImplicit false

open Wire PackedInt

/-! ## What fields say -/

namespace PayloadField

/-- What the last of the fields of one type says, or the default if there is none. -/
inductive LastOr {α : Type} (field : α → PayloadField) (default : α) : List PayloadField → α → Prop
  | last {before behind : List PayloadField} {a : α} (only : ∀ b, field b ∉ behind) :
      LastOr field default (before ++ field a :: behind) a
  | absent {fs : List PayloadField} (none : ∀ b, field b ∉ fs) : LastOr field default fs default

/-- Rows that differ in the order of fields of different types, and in fields of unknown types. -/
inductive Alike : List PayloadField → List PayloadField → Prop
  | swap {f g : PayloadField} (before behind : List PayloadField) (differ : f.type ≠ g.type) :
      Alike (before ++ f :: g :: behind) (before ++ g :: f :: behind)
  | skip {type : UInt32} (before behind : List PayloadField) (content : Bytes) :
      Alike (before ++ .unknown type content :: behind) (before ++ behind)
  | refl (fs : List PayloadField) : Alike fs fs
  | symm {fs gs : List PayloadField} (alike : Alike fs gs) : Alike gs fs
  | trans {fs gs hs : List PayloadField} (first : Alike fs gs) (second : Alike gs hs) : Alike fs hs

theorem payloadSize?_eq_some {f : PayloadField} {n : UInt32} :
    f.payloadSize? = some n ↔ f = .payloadSize n := by
  cases f <;> simp [payloadSize?]

theorem compressionType?_eq_some {f : PayloadField} {code : UInt32} :
    f.compressionType? = some code ↔ f = .compressionType code := by
  cases f <;> simp [compressionType?]

theorem uncompressedSize?_eq_some {f : PayloadField} {n : UInt64} :
    f.uncompressedSize? = some n ↔ f = .uncompressedSize n := by
  cases f <;> simp [uncompressedSize?]

section

variable {α : Type} {value? : PayloadField → Option α} {field : α → PayloadField}
  (finds : ∀ {f : PayloadField} {a : α}, value? f = some a ↔ f = field a)

include finds

theorem filterMap_eq_nil {fs : List PayloadField} (none : ∀ b, field b ∉ fs) :
    fs.filterMap value? = [] := by
  rw [List.filterMap_eq_nil_iff]
  intro f member
  cases value : value? f with
  | none => rfl
  | some b => exact absurd (finds.1 value ▸ member) (none b)

theorem lastOr_iff {fs : List PayloadField} {default a : α} :
    LastOr field default fs a ↔ a = (fs.filterMap value?).getLast?.getD default := by
  constructor
  · rintro (only | none)
    · rw [List.filterMap_append, List.filterMap_cons_some (finds.2 rfl),
        filterMap_eq_nil finds only]
      simp
    · rw [filterMap_eq_nil finds none]
      rfl
  · rintro rfl
    induction fs using List.reverseRecOn with
    | nil => exact .absent fun b member => by cases member
    | append_singleton fs f ih =>
        rw [List.filterMap_append]
        cases value : value? f with
        | some a =>
            obtain rfl := finds.1 value
            have last : LastOr field default (fs ++ [field a]) a := .last (by simp)
            simpa [value] using last
        | none =>
            have other : ∀ b, field b ≠ f := by
              rintro b rfl
              rw [finds.2 rfl] at value
              cases value
            have same : List.filterMap value? [f] = [] := by simp [value]
            rw [same, List.append_nil]
            generalize (fs.filterMap value?).getLast?.getD default = a at ih
            cases ih with
            | last only =>
                rw [List.append_assoc]
                exact .last fun b => by simp [only b, other b]
            | absent none => exact .absent fun b => by simp [none b, other b]

/-- A row says of a type what any row says that is alike. -/
theorem filterMap_of_alike {t : UInt32} (typed : ∀ a, (field a).type = t)
    (known : ∀ type content, value? (.unknown type content) = none) {fs gs : List PayloadField}
    (alike : Alike fs gs) : fs.filterMap value? = gs.filterMap value? := by
  induction alike with
  | @swap f g before behind differ =>
      simp only [List.filterMap_append, List.append_cancel_left_eq, List.filterMap_cons]
      cases first : value? f with
      | none => rfl
      | some a =>
          cases second : value? g with
          | none => rfl
          | some b =>
              rw [finds.1 first, finds.1 second, typed, typed] at differ
              exact absurd rfl differ
  | skip before behind content =>
      rw [List.filterMap_append, List.filterMap_append, List.filterMap_cons_none (known _ content)]
  | refl fs => rfl
  | symm _ ih => exact ih.symm
  | trans _ _ first second => exact first.trans second

end

end PayloadField

namespace PayloadHeader

open PayloadField

/-- The header that says what these fields say. -/
structure Tells (h : PayloadHeader) (fs : List PayloadField) : Prop where
  payloadSize : LastOr .payloadSize 0 fs h.payloadSize
  compressionType : LastOr .compressionType 0 fs h.compressionType
  uncompressedSize : LastOr .uncompressedSize h.payloadSize.toUInt64 fs h.uncompressedSize

variable {h : PayloadHeader} {fs gs : List PayloadField} {lead mark tail bs rest : Bytes}

theorem tells_iff : h.Tells fs ↔ h = ofFields fs := by
  constructor
  · intro ⟨size, compression, uncompressed⟩
    rw [lastOr_iff payloadSize?_eq_some] at size
    rw [lastOr_iff compressionType?_eq_some] at compression
    rw [lastOr_iff uncompressedSize?_eq_some, size] at uncompressed
    obtain ⟨payloadSize, compressionType, uncompressedSize⟩ := h
    simp only at size compression uncompressed
    rw [ofFields, size, compression, uncompressed]
  · rintro rfl
    exact ⟨(lastOr_iff payloadSize?_eq_some).2 rfl, (lastOr_iff compressionType?_eq_some).2 rfl,
      (lastOr_iff uncompressedSize?_eq_some).2 rfl⟩

theorem ofFields_of_alike (alike : Alike fs gs) : ofFields fs = ofFields gs := by
  have size := filterMap_of_alike payloadSize?_eq_some (fun _ => rfl) (fun _ _ => rfl) alike
  have compression :=
    filterMap_of_alike compressionType?_eq_some (fun _ => rfl) (fun _ _ => rfl) alike
  have uncompressed :=
    filterMap_of_alike uncompressedSize?_eq_some (fun _ => rfl) (fun _ _ => rfl) alike
  rw [ofFields, ofFields, size, compression, uncompressed]

/-! ## Reading headers -/

theorem read_of_marked (before : Before fs tail bs) (marked : Marked tail rest) :
    read bs = .ok (ofFields fs) rest := by
  simp only [read, Functor.map, EStateM.map, readAll_of_marked before marked]

theorem read_of_exhausted (before : Before fs tail bs) (exhausted : Exhausted tail rest) :
    read bs = .ok (ofFields fs) rest := by
  simp only [read, Functor.map, EStateM.map, readAll_of_exhausted before exhausted]

theorem read_of_truncated {fault : HeaderFault} (before : Before fs tail bs)
    (truncated : Truncated tail fault rest) : read bs = .error (.truncatedHeader fault) rest := by
  simp only [read, Functor.map, EStateM.map,
    readAll_of_error before (PayloadField.read_of_truncated truncated)]

theorem read_of_broken {rule : Violation} (before : Before fs tail bs)
    (broken : Broken tail rule rest) : read bs = .error (.parse (.violation rule)) rest := by
  simp only [read, Functor.map, EStateM.map,
    readAll_of_error before (PayloadField.read_of_broken broken)]

/-- What is behind its end mark does not change a header. -/
theorem read_append_of_marked {mid : Bytes} (row : Row fs lead) (ends : Packs 0 mark)
    (reads : read (lead ++ (mark ++ mid)) = .ok h mid) (rest : Bytes) :
    read (lead ++ (mark ++ rest)) = .ok h rest := by
  cases reads.symm.trans (read_of_marked ⟨lead, row, rfl⟩ (.intro ends mid))
  exact read_of_marked ⟨lead, row, rfl⟩ (.intro ends rest)

/-- **The last field of each type counts.**  Whatever integers the fields are made of, and whatever
the unknown ones among them hold, they are read up to their end mark, and the header says what they
say.  It says the same if fields of different types change places, and without any unknown field. -/
theorem read_of_row (row : Row fs lead) (ends : Packs 0 mark) :
    ∃ h : PayloadHeader, h.Tells fs ∧ (∀ rest, read (lead ++ (mark ++ rest)) = .ok h rest) ∧
      ∀ {fs' : List PayloadField} {lead' mark' : Bytes}, Alike fs fs' → Row fs' lead' →
        Packs 0 mark' → ∀ rest, read (lead' ++ (mark' ++ rest)) = .ok h rest := by
  refine ⟨ofFields fs, tells_iff.2 rfl, fun rest => ?_, ?_⟩
  · exact read_of_marked ⟨lead, row, rfl⟩ (.intro ends rest)
  · intro fs' lead' mark' alike row' ends' rest
    rw [ofFields_of_alike alike]
    exact read_of_marked ⟨lead', row', rfl⟩ (.intro ends' rest)

namespace Example

/-- A field of an unknown type that holds what would be a field by itself, and two sizes around a
compression type. -/
def oddFields : List PayloadField :=
  [.unknown 9 [1, 1, 99], .payloadSize 7, .compressionType 255, .payloadSize 300]

/-- These fields, in integers longer than they need be and with wrong lengths of known types. -/
def oddRow : Bytes :=
  [0xfc, 9, 0, 3, 1, 1, 99, 1, 0xfd, 5, 0, 0, 0xfe, 7, 0, 0, 0, 0, 0, 0, 0, 2, 0, 0xfc, 255, 0,
    1, 3, 0xfc, 44, 1]

/-- What it says in another order, and without the unknown field. -/
def evenFields : List PayloadField := [.compressionType 255, .payloadSize 7, .payloadSize 300]

def evenRow : Bytes := [2, 3, 0xfc, 255, 0, 1, 1, 7, 1, 3, 0xfc, 44, 1]

theorem size_stands {n : UInt32} (small : n.toNat < 0xfb) :
    Stands (.payloadSize n) [1, 1, .ofNat n.toNat] :=
  have tagged : Tags 1 1 [1, 1] := .intro (.one (by decide)) (.one (by decide)) (by decide)
  .intro (f := .payloadSize n) tagged (.one small)

theorem largeSize_stands : Stands (.payloadSize 300) [1, 3, 0xfc, 44, 1] :=
  have tagged : Tags 1 3 [1, 3] := .intro (.one (by decide)) (.one (by decide)) (by decide)
  .intro (f := .payloadSize 300) tagged (.two (by decide))

theorem stored_stands : Stands (.compressionType 255) [2, 3, 0xfc, 255, 0] :=
  have tagged : Tags 2 3 [2, 3] := .intro (.one (by decide)) (.one (by decide)) (by decide)
  .intro (f := .compressionType 255) tagged (.two (by decide))

theorem oddRow_row : Row oddFields oddRow := by
  have unknown : Stands (.unknown 9 [1, 1, 99]) [0xfc, 9, 0, 3, 1, 1, 99] := by
    have tagged : Tags 9 3 [0xfc, 9, 0, 3] :=
      .intro (.two (by decide)) (.one (by decide)) (by decide)
    exact .intro (f := .unknown 9 [1, 1, 99]) tagged ⟨by decide, rfl, rfl⟩
  have size : Stands (.payloadSize 7) [1, 0xfd, 5, 0, 0, 0xfe, 7, 0, 0, 0, 0, 0, 0, 0] := by
    have tagged : Tags 1 5 [1, 0xfd, 5, 0, 0] :=
      .intro (.one (by decide)) (.three (by decide)) (by decide)
    exact .intro (f := .payloadSize 7) tagged (.eight (by decide))
  have stored : Stands (.compressionType 255) [2, 0, 0xfc, 255, 0] := by
    have tagged : Tags 2 0 [2, 0] := .intro (.one (by decide)) (.one (by decide)) (by decide)
    exact .intro (f := .compressionType 255) tagged (.two (by decide))
  exact .cons unknown (.cons size (.cons stored (.cons largeSize_stands .nil)))

theorem evenRow_row : Row evenFields evenRow :=
  .cons stored_stands (.cons (size_stands (by decide)) (.cons largeSize_stands .nil))

theorem alike : Alike oddFields evenFields :=
  .trans (.skip [] [.payloadSize 7, .compressionType 255, .payloadSize 300] [1, 1, 99])
    (.swap [] [.payloadSize 300] (by decide))

end Example

theorem read_of_odd_row :
    Row Example.oddFields Example.oddRow ∧ Packs 0 [0xfe, 0, 0, 0, 0, 0, 0, 0, 0] ∧
      Alike Example.oddFields Example.evenFields ∧ Row Example.evenFields Example.evenRow ∧
      Packs 0 [0] ∧
      ∀ rest,
        read (Example.oddRow ++ ([0xfe, 0, 0, 0, 0, 0, 0, 0, 0] ++ rest)) =
          .ok ⟨300, 255, 300⟩ rest ∧
        read (Example.evenRow ++ ([0] ++ rest)) = .ok ⟨300, 255, 300⟩ rest := by
  have long : Packs 0 [0xfe, 0, 0, 0, 0, 0, 0, 0, 0] := .eight (by decide)
  have short : Packs 0 [0] := .one (by decide)
  obtain ⟨h, tells, odd, same⟩ := read_of_row Example.oddRow_row long
  have even := same Example.alike Example.evenRow_row short
  obtain rfl : h = ⟨300, 255, 300⟩ := tells_iff.1 tells
  exact ⟨Example.oddRow_row, long, Example.alike, Example.evenRow_row, short,
    fun rest => ⟨odd rest, even rest⟩⟩

/-- What comes behind the fields decides. -/
theorem exists_outcome (bs : Bytes) :
    ∃ fs tail, Before fs tail bs ∧
      ((∃ rest, (Marked tail rest ∨ Exhausted tail rest) ∧ read bs = .ok (ofFields fs) rest) ∨
        (∃ fault rest, Truncated tail fault rest ∧ read bs = .error (.truncatedHeader fault) rest) ∨
        ∃ rule rest, Broken tail rule rest ∧ read bs = .error (.parse (.violation rule)) rest) := by
  obtain ⟨fs, tail, before, stops⟩ := exists_row bs
  refine ⟨fs, tail, before, ?_⟩
  rcases stops with ⟨rest, marked⟩ | ⟨rest, exhausted⟩ | ⟨fault, rest, truncated⟩ |
    ⟨rule, rest, broken⟩
  · exact .inl ⟨rest, .inl marked, read_of_marked before marked⟩
  · exact .inl ⟨rest, .inr exhausted, read_of_exhausted before exhausted⟩
  · exact .inr (.inl ⟨fault, rest, truncated, read_of_truncated before truncated⟩)
  · exact .inr (.inr ⟨rule, rest, broken, read_of_broken before broken⟩)

theorem read_eq_truncated_iff {fault : HeaderFault} :
    read bs = .error (.truncatedHeader fault) rest ↔
      ∃ fs tail, Before fs tail bs ∧ Truncated tail fault rest := by
  constructor
  · intro reads
    obtain ⟨fs, tail, before, ⟨_, _, outcome⟩ | ⟨_, _, truncated, outcome⟩ | ⟨_, _, _, outcome⟩⟩ :=
      exists_outcome bs <;> cases reads.symm.trans outcome
    exact ⟨fs, tail, before, truncated⟩
  · rintro ⟨fs, tail, before, truncated⟩
    exact read_of_truncated before truncated

theorem read_eq_broken_iff {rule : Violation} :
    read bs = .error (.parse (.violation rule)) rest ↔
      ∃ fs tail, Before fs tail bs ∧ Broken tail rule rest := by
  constructor
  · intro reads
    obtain ⟨fs, tail, before, ⟨_, _, outcome⟩ | ⟨_, _, _, outcome⟩ | ⟨_, _, broken, outcome⟩⟩ :=
      exists_outcome bs <;> cases reads.symm.trans outcome
    exact ⟨fs, tail, before, broken⟩
  · rintro ⟨fs, tail, before, broken⟩
    exact read_of_broken before broken

theorem read_eq_ok_iff :
    read bs = .ok h rest ↔
      ∃ fs tail, h.Tells fs ∧ Before fs tail bs ∧ (Marked tail rest ∨ Exhausted tail rest) := by
  constructor
  · intro reads
    obtain ⟨fs, tail, before, ⟨_, ends, outcome⟩ | ⟨_, _, _, outcome⟩ | ⟨_, _, _, outcome⟩⟩ :=
      exists_outcome bs <;> cases reads.symm.trans outcome
    exact ⟨fs, tail, tells_iff.2 rfl, before, ends⟩
  · rintro ⟨fs, tail, tells, before, ends⟩
    rw [tells_iff.1 tells]
    exact ends.elim (read_of_marked before) (read_of_exhausted before)

/-- **What reading a header comes to.**  It is refused because a value is not there as a whole, or
because what should be an integer is none or is too large, exactly where this comes first behind a
row of fields.  Else it is read, up to an end mark or to the end of the input, and there is nothing
else that it can come to. -/
theorem read_outcomes (bs : Bytes) :
    (∀ fault rest, read bs = .error (.truncatedHeader fault) rest ↔
      ∃ fs tail, Before fs tail bs ∧ Truncated tail fault rest) ∧
    (∀ rule rest, read bs = .error (.parse (.violation rule)) rest ↔
      ∃ fs tail, Before fs tail bs ∧ Broken tail rule rest) ∧
    (∀ h rest, read bs = .ok h rest ↔
      ∃ fs tail, h.Tells fs ∧ Before fs tail bs ∧ (Marked tail rest ∨ Exhausted tail rest)) ∧
    ((∃ fault rest, read bs = .error (.truncatedHeader fault) rest) ∨
      (∃ rule rest, read bs = .error (.parse (.violation rule)) rest) ∨
      ∃ h rest, read bs = .ok h rest) := by
  refine ⟨fun _ _ => read_eq_truncated_iff, fun _ _ => read_eq_broken_iff,
    fun _ _ => read_eq_ok_iff, ?_⟩
  obtain ⟨fs, tail, -, ⟨_, _, outcome⟩ | ⟨_, _, _, outcome⟩ | ⟨_, _, _, outcome⟩⟩ :=
    exists_outcome bs
  · exact .inr (.inr ⟨_, _, outcome⟩)
  · exact .inl ⟨_, _, outcome⟩
  · exact .inr (.inl ⟨_, _, outcome⟩)

end PayloadHeader

end BinaryLog
