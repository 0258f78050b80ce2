/-
# BinaryLog.Proofs.Writers -- every write adds what `encode` says

A writer goes through the parts of a value, each of which adds its own bytes to a buffer that it
shares with all others and counts them.  Together they add the written form of the value, no more
and no less, and the count is the length of it (`PackedInt.appends_write`, `Item.appends_write`,
`EventHeader.appends_write`, `PayloadHeader.appends_write`).  A body that has no written form is
refused for the same reason, and nothing of it is added (`Body.performs_write`).
-/
import BinaryLog.Event.Write
import BinaryLog.Proofs.Bodies

namespace BinaryLog

set_option autoImplicit false

open Wire Write

/-! ## Packed integers and strings, and items -/

theorem Wire.Write.appends_octet (b : UInt8) : (word b).Appends [b] :=
  Word.bytes_octet b ▸ appends_word b

theorem Wire.PackedInt.appends_write (v : PackedInt) : v.write.Appends v.encode := by
  cases v with
  | null => exact appends_octet _
  | error => exact appends_octet _
  | one n => exact appends_octet n
  | two n => exact (appends_octet _).cons (appends_word n).last
  | three n => exact (appends_octet _).cons (appends_word n).last
  | eight n => exact (appends_octet _).cons (appends_word n).last

theorem Wire.PackedString.appends_write (s : PackedString) : s.write.Appends s.encode := by
  cases s with
  | null => exact PackedInt.null.appends_write
  | error => exact PackedInt.error.appends_write
  | bytes content => exact (PackedInt.appends_write _).cons (appends_octets content).last

theorem Wire.Item.appends_write (i : Item) : i.write.Appends i.encode := by
  cases i with
  | bytes content => exact appends_octets content
  | integer n => exact n.appends_write
  | string s => exact s.appends_write
  | _ n => exact appends_word n

/-! ## Headers -/

theorem EventHeader.appends_write (h : EventHeader) : h.write.Appends h.encode :=
  (appends_word _).cons ((appends_word _).cons ((appends_word _).cons ((appends_word _).cons
    ((appends_word _).cons (appends_word _).last))))

theorem PayloadField.appends_write (type : UInt32) (value : PackedInt) :
    (write type value).Appends (encode type value) :=
  (PackedInt.appends_write _).cons ((PackedInt.appends_write _).cons value.appends_write.last)

theorem PayloadHeader.appends_write (h : PayloadHeader) : h.write.Appends h.encode :=
  (PayloadField.appends_write _ _).cons ((PayloadField.appends_write _ _).cons
    ((PayloadField.appends_write _ _).cons (PackedInt.appends_write _).last))

/-! ## Bodies -/

theorem Query.performs_write (q : Query) : q.write.Performs q.encode := by
  by_cases lengths :
      q.schema.length = q.schemaLength.toNat ∧ q.statusVars.length = q.statusVarsLength.toNat
  · rw [write, encode, if_pos lengths, if_pos lengths]
    exact (appends_word _).cons ((appends_word _).cons ((appends_word _).cons ((appends_word _).cons
      ((appends_word _).cons ((appends_octets _).cons ((appends_octets _).cons
        ((appends_octet 0).cons (appends_octets _).last)))))))
  · rw [write, encode, if_neg lengths, if_neg lengths]
    exact fun _ => rfl

theorem FormatDescription.performs_write (d : FormatDescription) : d.write.Performs d.encode := by
  by_cases short : (Text.Utf8.encode d.serverVersion).length < versionLength
  · simp only [write, encode, if_pos short]
    exact (appends_word _).cons ((appends_octets _).cons ((appends_octets _).cons
      ((appends_word _).cons ((appends_word _).cons ((appends_octets _).cons
        (appends_word _).last)))))
  · simp only [write, encode, if_neg short]
    exact fun _ => rfl

theorem Rotate.appends_write (e : Rotate) : e.write.Appends e.encode :=
  (appends_word _).cons (appends_octets _).last

theorem Intvar.appends_write (v : Intvar) : v.write.Appends v.encode :=
  (appends_word _).cons (appends_word _).last

theorem Rand.appends_write (e : Rand) : e.write.Appends e.encode :=
  (appends_word _).cons (appends_word _).last

theorem Xid.appends_write (e : Xid) : e.write.Appends e.encode := appends_word _

theorem TableMapEvent.appends_write (e : TableMapEvent) : e.write.Appends e.encode :=
  (appends_word _).cons ((appends_word _).cons (appends_octets _).last)

theorem RowsQuery.appends_write (e : RowsQuery) : e.write.Appends e.encode :=
  (appends_word _).cons (appends_octets _).last

theorem RowsEvent.appends_write (e : RowsEvent) : e.write.Appends e.encode :=
  (appends_word _).cons ((appends_word _).cons ((appends_word _).cons (appends_octets _).last))

theorem GtidEvent.appends_write (e : GtidEvent) : e.write.Appends e.encode :=
  (appends_word _).cons ((appends_word _).cons ((appends_word _).cons ((appends_word _).cons
    ((appends_word _).cons (appends_word _).last))))

theorem TransactionPayload.appends_write {ε : Type} (p : TransactionPayload ε) :
    p.write.Appends p.encode :=
  p.header.appends_write.cons (appends_octets _).last

/-- A body adds its written form, or nothing if it has none. -/
theorem Body.performs_write (b : Body) : b.write.Performs b.encode := by
  cases b with
  | query q => exact q.performs_write
  | rotate e => exact e.appends_write
  | intvar e => exact e.appends_write
  | rand e => exact e.appends_write
  | formatDescription d => exact d.performs_write
  | xid e => exact e.appends_write
  | tableMap e => exact e.appends_write
  | rowsQuery e => exact e.appends_write
  | writeRows e => exact e.appends_write
  | updateRows e => exact e.appends_write
  | deleteRows e => exact e.appends_write
  | gtid e => exact e.appends_write
  | anonymousGtid e => exact e.appends_write
  | transactionPayload p => exact p.appends_write
  | _ => exact fun _ => rfl

end BinaryLog
