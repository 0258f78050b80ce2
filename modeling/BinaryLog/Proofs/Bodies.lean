/-
# BinaryLog.Proofs.Bodies -- what is written is read back: bodies of events

`Body.type?` is the type whose events carry a body.  A written body is read back by the reader of
its type and nothing of it is left (`Body.value_encode`), apart from the two types that need more
than their bytes:

* a format description has to give the right length for itself (`FormatDescription.read_encode`);
* the events of a transaction are decoded from its payload (`Transaction.decodeWith_encode`).
-/
import BinaryLog.Payload.Events
import BinaryLog.Proofs.Packed

namespace BinaryLog

set_option autoImplicit false

open Wire

/-! ## One reader after the other -/

theorem Wire.Read.word_bytes {α : Type} [Word α] (x : α) :
    Read.word α (Word.bytes x) = .ok x [] := by
  have read := word_append x []
  rwa [List.append_nil] at read

theorem Word.bytes_octet (b : UInt8) : Word.bytes b = [b] := by
  simp [Word.bytes, Word.width, Word.toNat, Bytes.le]

theorem Wire.Read.octet_cons (b : UInt8) (r : Bytes) : Read.word UInt8 (b :: r) = .ok b r := by
  have read := word_append b r
  rwa [Word.bytes_octet, List.singleton_append] at read

theorem Query.read_encode {q : Query} {bs : Bytes} (written : q.encode = .ok bs) :
    read bs = .ok q [] := by
  simp only [encode] at written
  split at written
  · rename_i lengths
    cases written
    have mark : Read.take 1 (0 :: q.statement) = .ok [0] q.statement :=
      Read.take_append (a := [0]) rfl q.statement
    simp [read, bind, EStateM.bind, pure, EStateM.pure, Read.word_append,
      Read.take_append lengths.1, Read.take_append lengths.2, mark, Read.rest]
  · cases written

theorem Rotate.read_encode (e : Rotate) : read e.encode = .ok e [] := by
  simp [read, encode, bind, EStateM.bind, pure, EStateM.pure, Read.word_append, Read.rest]

theorem Intvar.read_encode (v : Intvar) : read v.encode = .ok v [] := by
  simp [read, encode, bind, EStateM.bind, pure, EStateM.pure, Read.word_append, Read.word_bytes]

theorem Rand.read_encode (e : Rand) : read e.encode = .ok e [] := by
  simp [read, encode, bind, EStateM.bind, pure, EStateM.pure, Read.word_append, Read.word_bytes]

theorem Xid.read_encode (e : Xid) : read e.encode = .ok e [] := by
  simp [read, encode, Functor.map, EStateM.map, Read.word_bytes]

theorem RowsQuery.read_encode (e : RowsQuery) : read e.encode = .ok e [] := by
  simp [read, encode, bind, EStateM.bind, Functor.map, EStateM.map, Read.word_append, Read.rest]

theorem TableMapEvent.read_encode (e : TableMapEvent) : read e.encode = .ok e [] := by
  simp [read, encode, bind, EStateM.bind, pure, EStateM.pure, Read.word_append, Read.rest]

theorem RowsEvent.read_encode (e : RowsEvent) : read e.encode = .ok e [] := by
  simp [read, encode, bind, EStateM.bind, pure, EStateM.pure, Read.word_append, Read.rest]

theorem GtidEvent.read_encode (e : GtidEvent) : read e.encode = .ok e [] := by
  have order : readOrder (Word.bytes e.timestampType ++ (Word.bytes e.lastCommitted ++
      Word.bytes e.sequenceNumber)) =
      .ok (e.timestampType, e.lastCommitted, e.sequenceNumber) [] := by
    simp [readOrder, Read.holds, bind, EStateM.bind, pure, EStateM.pure, Read.word_append,
      Read.word_bytes, Word.width]
  simp [read, encode, bind, EStateM.bind, pure, EStateM.pure, Read.word_append, order, Read.rest]

/-! ## Format descriptions -/

namespace FormatDescription

/-- The table goes as far as its entry for this type says, wherever that entry stands. -/
theorem readTable_append {table r : Bytes} {entry : UInt8}
    (own : (table ++ r)[14]? = some entry) (tells : entry.toNat = fixedLength + table.length) :
    readTable (table ++ r) = .ok table r := by
  have large : ¬ entry.toNat < fixedLength := by omega
  have rest : entry.toNat - fixedLength = table.length := by omega
  simp only [readTable, show EventType.formatDescription.code.toNat - 1 = 14 from rfl, own,
    if_neg large, rest]
  exact Read.take_append rfl r

theorem takeWhile_version {version : Bytes} (noNul : 0 ∉ version) (zeros : Bytes) :
    (version ++ 0 :: zeros).takeWhile (· != 0) = version := by
  rw [List.takeWhile_append_of_pos]
  · simp
  · intro b member
    simp only [bne_iff_ne]
    rintro rfl
    exact noNul member

/-- What is written in front of the table is read back, if the version holds no zero byte. -/
theorem read_of_encode {d : FormatDescription} {bs : Bytes} (written : d.encode = .ok bs)
    (noNul : 0 ∉ Text.Utf8.encode d.serverVersion) (r : Bytes) :
    read (bs ++ r) = (do
      let postHeaderLengths ← readTable
      let checksumFlag ← Read.wordOr UInt8 0
      return { d with postHeaderLengths, checksumFlag })
      (d.postHeaderLengths ++ d.checksumFlag :: r) := by
  simp only [encode] at written
  split at written
  · rename_i short
    cases written
    have padded : (Text.Utf8.encode d.serverVersion ++
        List.replicate (versionLength - (Text.Utf8.encode d.serverVersion).length) 0).length =
        versionLength := by
      rw [List.length_append, List.length_replicate]
      omega
    obtain ⟨zeros, replicated⟩ : ∃ zeros : Bytes,
        List.replicate (versionLength - (Text.Utf8.encode d.serverVersion).length) 0 =
          0 :: zeros := by
      obtain ⟨k, hk⟩ := Nat.exists_eq_succ_of_ne_zero (Nat.sub_ne_zero_of_lt short)
      exact ⟨List.replicate k 0, by rw [hk, List.replicate_succ]⟩
    rw [replicated] at padded ⊢
    have version := fun rest => Read.take_append padded rest
    have text : Read.text (Text.Utf8.encode d.serverVersion) = pure d.serverVersion := by
      simp only [Read.text, Text.Utf8.decode_encode]
    simp only [List.append_assoc, List.cons_append] at version
    simp [read, bind, EStateM.bind, pure, EStateM.pure, Read.word_append, version,
      takeWhile_version noNul, text, Word.bytes_octet, Read.octet_cons]
  · cases written

/-- A format description in front of anything is read back if its version holds no zero byte and the
entry for its own type is the length of its fixed part and of its table. -/
theorem read_encode {d : FormatDescription} {bs r : Bytes} {entry : UInt8}
    (written : d.encode = .ok bs) (noNul : 0 ∉ Text.Utf8.encode d.serverVersion)
    (own : (d.postHeaderLengths ++ d.checksumFlag :: r)[14]? = some entry)
    (tells : entry.toNat = fixedLength + d.postHeaderLengths.length) :
    read (bs ++ r) = .ok d r := by
  have flag : Read.wordOr UInt8 0 (d.checksumFlag :: r) = .ok d.checksumFlag r := by
    simp [Read.wordOr, Read.more, bind, EStateM.bind, Read.octet_cons]
  rw [read_of_encode written noNul]
  simp only [bind, EStateM.bind, readTable_append own tells, flag, pure, EStateM.pure]

theorem length_encode {d : FormatDescription} {bs : Bytes} (written : d.encode = .ok bs) :
    bs.length = fixedLength + d.postHeaderLengths.length + 1 := by
  simp only [encode] at written
  split at written
  · rename_i short
    cases written
    simp only [versionLength] at short
    simp [Word.width, fixedLength, versionLength]
    omega
  · cases written

end FormatDescription

/-! ## Transactions -/

namespace TransactionPayload

/-- The header tells the size of the payload, and that is not more than is taken. -/
def Sized {ε : Type} (p : TransactionPayload ε) : Prop :=
  p.header.payloadSize.toNat = p.payload.length ∧ p.header.payloadSize ≤ Transaction.maxPayload

end TransactionPayload

namespace Transaction

variable {inner : Decode Transaction} {header : PayloadHeader} {payload : Bytes}
  {events : List Event}

theorem readPayload_of_large {n : UInt32} (large : maxPayload < n) (bs : Bytes) :
    readPayload n bs = .error (.payloadTooLarge n) bs := by
  rw [readPayload, if_pos large]

theorem readPayload_of_short {n : UInt32} {bs : Bytes} (fits : n ≤ maxPayload)
    (short : bs.length < n.toNat) :
    readPayload n bs = .error (.truncatedPayload n bs.length) bs := by
  have all : bs.take n.toNat = bs := List.take_of_length_le (Nat.le_of_lt short)
  simp only [readPayload, if_neg (UInt32.not_lt.2 fits), all, if_neg (Nat.ne_of_lt short)]

theorem readPayload_of_whole {n : UInt32} {bs : Bytes} (fits : n ≤ maxPayload)
    (whole : n.toNat ≤ bs.length) :
    readPayload n bs = .ok (bs.take n.toNat) (bs.drop n.toNat) := by
  simp only [readPayload, if_neg (UInt32.not_lt.2 fits), List.length_take_of_le whole, if_true]

theorem readPayload_of_sized {n : UInt32} (size : n.toNat = payload.length)
    (fits : n ≤ maxPayload) : readPayload n payload = .ok payload [] := by
  rw [readPayload_of_whole fits (Nat.le_of_eq size), size, List.take_length, List.drop_length]

/-- A written transaction is decoded to the events that its payload holds. -/
theorem decodeWith_encode
    (sized : TransactionPayload.Sized (⟨header, payload, events⟩ : Transaction))
    (held : eventsWith inner header.compression payload = .ok events) :
    decodeWith inner (header.encode ++ payload) = .ok ⟨header, payload, events⟩ [] := by
  obtain ⟨size, fits⟩ := sized
  simp only [decodeWith, bind, EStateM.bind, PayloadHeader.read_encode,
    readPayload_of_sized size fits, held, pure, EStateM.pure]

end Transaction

/-! ## Bodies -/

namespace Body

/-- The type of the events that carry a body of this kind. -/
def type? : Body → Option EventType
  | query _ => some .query
  | stop => some .stop
  | rotate _ => some .rotate
  | intvar _ => some .intvar
  | rand _ => some .rand
  | userVar _ => some .userVar
  | formatDescription _ => some .formatDescription
  | xid _ => some .xid
  | tableMap _ => some .tableMap
  | incident _ => some .incident
  | heartbeat _ => some .heartbeat
  | rowsQuery _ => some .rowsQuery
  | writeRows _ => some .writeRows
  | updateRows _ => some .updateRows
  | deleteRows _ => some .deleteRows
  | gtid _ => some .gtid
  | anonymousGtid _ => some .anonymousGtid
  | previousGtids _ => some .previousGtids
  | transactionPayload _ => some .transactionPayload
  | unknown _ => none

end Body

theorem Decode.value_ofRead {α : Type} (f : α → Body) {r : Read α} {bs rest : Bytes} {a : α}
    (reads : r bs = .ok a rest) : (Decode.ofRead (f <$> r)).value bs = .ok (f a) := by
  simp only [Decode.value, Decode.ofRead, EStateM.adaptExcept, Functor.map, EStateM.map, reads]

/-- A written body is read back by the reader of its type. -/
theorem Body.value_encode (payload : Decode Transaction) {b : Body} {t : EventType} {bs : Bytes}
    (typed : b.type? = some t) (written : b.encode = .ok bs) (plain : t ≠ .formatDescription)
    (leaf : t ≠ .transactionPayload) : (readWith payload t).value bs = .ok b := by
  cases b <;> cases typed <;> try cases written
  case query q => exact Decode.value_ofRead .query (Query.read_encode written)
  case rotate e => exact Decode.value_ofRead .rotate e.read_encode
  case intvar v => exact Decode.value_ofRead .intvar v.read_encode
  case rand e => exact Decode.value_ofRead .rand e.read_encode
  case formatDescription d => exact absurd rfl plain
  case xid e => exact Decode.value_ofRead .xid e.read_encode
  case tableMap e => exact Decode.value_ofRead .tableMap e.read_encode
  case rowsQuery e => exact Decode.value_ofRead .rowsQuery e.read_encode
  case writeRows e => exact Decode.value_ofRead .writeRows e.read_encode
  case updateRows e => exact Decode.value_ofRead .updateRows e.read_encode
  case deleteRows e => exact Decode.value_ofRead .deleteRows e.read_encode
  case gtid e => exact Decode.value_ofRead .gtid e.read_encode
  case anonymousGtid e => exact Decode.value_ofRead .anonymousGtid e.read_encode
  case transactionPayload p => exact absurd rfl leaf

end BinaryLog
