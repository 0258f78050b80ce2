/-
# BinaryLog.Proofs.Items -- any row of items is read back

Items of any kinds may stand in a buffer one behind the other, without anything between them that
would say where one ends.  Each reader stops where its writer stopped: an item in front of anything
is read back and all that is behind it is left (`Item.readLike_encode`), if it is `Proper`, which
only a single byte that is a marker and a string too long for its length are not.  So the readers
of a row take it apart again, in order, to the last byte (`Item.readAll_writeAll`).
-/
import BinaryLog.Proofs.Writers

namespace BinaryLog.Wire

set_option autoImplicit false

/-! ## One item -/

/-- The length of a string has to be a number that a packed integer can hold. -/
def PackedString.Proper : PackedString → Prop
  | bytes content => content.length < 2 ^ 64
  | _ => True

theorem PackedString.read_encode {s : PackedString} (proper : s.Proper) (r : Bytes) :
    read (s.encode ++ r) = .ok s r := by
  cases s with
  | null => rfl
  | error => rfl
  | bytes content =>
      have small : content.length < 2 ^ 64 := proper
      have length : (UInt64.ofNat content.length).toNat = content.length :=
        UInt64.toNat_ofNat_of_lt' small
      generalize packed : PackedInt.ofNat content.length = v
      have value : v.toUInt64? = some (.ofNat content.length) :=
        packed ▸ PackedInt.toUInt64?_ofUInt64 _
      have lead : PackedInt.read (v.encode ++ (content ++ r)) = .ok v (content ++ r) :=
        PackedInt.read_encode (packed ▸ PackedInt.proper_ofUInt64 _) _
      have rest : (bytes <$> Read.take (v.toUInt64?.getD 0).toNat) (content ++ r) =
          .ok (bytes content) r := by
        have taken := Read.take_append length.symm r
        simp only [value, Option.getD_some, Functor.map, EStateM.map, taken]
      simp only [encode, packed, List.append_assoc, read, Read.atomically, bind, EStateM.bind, lead]
      -- a marker has no value, so that the length is none
      cases v with
      | null => cases value
      | error => cases value
      | _ => simp only [rest]

namespace Item

/-- What is told apart from all else: a single byte is no marker, a length is not too large. -/
def Proper : Item → Prop
  | integer n => n.Proper
  | string s => s.Proper
  | _ => True

/-- The shortest form of any number is. -/
theorem proper_ofUInt64 (n : UInt64) : (integer (.ofUInt64 n)).Proper :=
  PackedInt.proper_ofUInt64 n

theorem readLike_encode {i : Item} (proper : i.Proper) (r : Bytes) :
    i.readLike (i.encode ++ r) = .ok i r := by
  have word {α : Type} [Word α] (f : α → Item) (x : α) :
      (f <$> Read.word α) (Word.bytes x ++ r) = .ok (f x) r := by
    simp only [Functor.map, EStateM.map, Read.word_append]
  cases i with
  | bytes content => simp only [readLike, encode, Functor.map, EStateM.map, Read.take_append rfl]
  | integer n =>
      simp only [readLike, encode, Functor.map, EStateM.map, PackedInt.read_encode proper]
  | string s =>
      simp only [readLike, encode, Functor.map, EStateM.map, PackedString.read_encode proper]
  | u8 n => exact word u8 n
  | u16 n => exact word u16 n
  | u24 n => exact word u24 n
  | u32 n => exact word u32 n
  | u48 n => exact word u48 n
  | u64 n => exact word u64 n

/-! ## Rows of items -/

theorem appends_writeAll (items : List Item) :
    (writeAll items).Appends (items.flatMap encode) := by
  induction items with
  | nil => exact Write.appends_nil
  | cons i items ih => exact i.appends_write.cons ih

theorem mapM_readLike {items : List Item} (proper : ∀ i ∈ items, i.Proper) (r : Bytes) :
    items.mapM readLike (items.flatMap encode ++ r) = .ok items r := by
  induction items with
  | nil => rfl
  | cons i items ih =>
      have first := readLike_encode (proper i List.mem_cons_self) (items.flatMap encode ++ r)
      have later := ih fun j member => proper j (List.mem_cons_of_mem i member)
      simp only [List.flatMap_cons, List.append_assoc, List.mapM_cons, bind, EStateM.bind, first,
        later, pure, EStateM.pure]

/-- **A row of items is read back.**  Items of any kinds are written one behind the other, each
write counts its bytes, and the counts add up to the length of the buffer.  The readers of the same
kinds give back just these items and leave nothing.  All items are proper but a single byte that is
a marker, and a string that is longer than any that a memory holds. -/
theorem readAll_writeAll {items : List Item} (proper : ∀ i ∈ items, i.Proper) :
    ∃ n buffer, writeAll items [] = .ok n buffer ∧ n = buffer.length ∧
      items.mapM readLike buffer = .ok items [] := by
  refine ⟨_, items.flatMap encode, appends_writeAll items [], rfl, ?_⟩
  have whole := mapM_readLike proper []
  rwa [List.append_nil] at whole

/-- Items of every kind, full of bytes that mean something else at the head of another one. -/
theorem readAll_lookalikes :
    let row : List Item :=
      [u8 0xfe, u16 0xfdfc, u24 0xfffbfc, u32 0, u48 0xfc, u64 0xfb, bytes [0xfc, 0xff], bytes [],
        integer .null, integer .error, integer (.one 0xfa), integer (.ofUInt64 0xfb),
        integer (.two 7), integer (.three 0xfd), integer (.eight 0), string .null, string .error,
        string (.bytes []), string (.bytes (List.replicate 251 0xfb))]
    (∀ i ∈ row, i.Proper) ∧ ∃ n buffer, writeAll row [] = .ok n buffer ∧ n = buffer.length ∧
      row.mapM readLike buffer = .ok row [] := by
  intro row
  have proper : ∀ i ∈ row, i.Proper := by
    simp only [row, List.forall_mem_cons, List.not_mem_nil, false_implies, implies_true, Proper,
      PackedInt.Proper, PackedString.Proper, List.length_replicate, List.length_nil, true_and,
      and_true]
    exact ⟨by decide, proper_ofUInt64 0xfb, by decide, by decide⟩
  exact ⟨proper, readAll_writeAll proper⟩

end Item

end BinaryLog.Wire
