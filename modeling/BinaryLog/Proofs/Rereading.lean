/-
# BinaryLog.Proofs.Rereading -- what was read is written and read again

Readers take more than writers give: bits of flags that mean nothing, any byte where a name ends, a
length byte that tells nothing, integers longer than they need to be, fields that are passed over,
parts that old servers leave out.  A value that was read is `Restored` if it can nevertheless be
written, behind any buffer, and what was written is read as the same value to the last byte.

For most types this holds of every value, since the value keeps nothing of what is not written
(`restores_of_writer`).  Two types tell how long their parts are, and come back only if the parts
are that long.  In a value that was read they are: the reader has taken as many bytes as a query
says (`Query.lengths_of_read`), and as many as the header of a transaction says, which are not too
many (`Transaction.sized_of_decodeWith`).

A format description is read where no current server would write one: its version may fill all of
its room, and its table may end in front of the entry for itself, which is then looked for behind
it.  Whatever the reader finds there is not written again, apart from the flag
(`FormatDescription.reread_of_read`).
-/
import BinaryLog.Proofs.Description
import BinaryLog.Proofs.Levels
import BinaryLog.Proofs.Writers
import Mathlib.Data.List.TakeWhile

namespace BinaryLog

set_option autoImplicit false

open Wire Write

/-! ## Values that come back -/

section

variable {ε α : Type} (read : EStateM ε Bytes α) (write : α → Write)

/-- The value is written, and read again from what was written. -/
def Restored (v : α) : Prop := ∃ out, (write v).Appends out ∧ read out = .ok v []

/-- Whatever the reader takes comes back. -/
def Restores : Prop := ∀ ⦃bs rest : Bytes⦄ ⦃v : α⦄, read bs = .ok v rest → Restored read write v

variable {read write}

theorem restores_of_writer {encode : α → Bytes} (appends : ∀ v, (write v).Appends (encode v))
    (reads : ∀ v, read (encode v) = .ok v []) : Restores read write :=
  fun _ _ v _ => ⟨encode v, appends v, reads v⟩

theorem restores_of_codec {encode : α → Bytes} (appends : ∀ v, (write v).Appends (encode v))
    (reads : ∀ v r, read (encode v ++ r) = .ok v r) : Restores read write := by
  refine restores_of_writer appends fun v => ?_
  have whole := reads v []
  rwa [List.append_nil] at whole

end

/-! ## Queries -/

/-- The reader takes as much of a query as its lengths say. -/
theorem Query.lengths_of_read {bs rest : Bytes} {q : Query} (reads : read bs = .ok q rest) :
    q.schema.length = q.schemaLength.toNat ∧ q.statusVars.length = q.statusVarsLength.toNat := by
  obtain ⟨proxyId, bs₁, -, later⟩ := exists_of_bind_apply reads
  obtain ⟨executionTime, bs₂, -, later⟩ := exists_of_bind_apply later
  obtain ⟨schemaLength, bs₃, -, later⟩ := exists_of_bind_apply later
  obtain ⟨errorCode, bs₄, -, later⟩ := exists_of_bind_apply later
  obtain ⟨statusVarsLength, bs₅, -, later⟩ := exists_of_bind_apply later
  obtain ⟨statusVars, bs₆, vars, later⟩ := exists_of_bind_apply later
  obtain ⟨schema, bs₇, name, later⟩ := exists_of_bind_apply later
  obtain ⟨mark, bs₈, -, later⟩ := exists_of_bind_apply later
  cases later
  exact ⟨(Read.append_of_take name).2, (Read.append_of_take vars).2⟩

theorem Query.restores : Restores read write := by
  intro bs rest q reads
  obtain ⟨out, written⟩ : ∃ out, q.encode = .ok out := ⟨_, if_pos (lengths_of_read reads)⟩
  have writes : q.write.Performs (.ok out) := written ▸ q.performs_write
  exact ⟨out, writes, read_encode written⟩

/-! ## Transactions -/

namespace Transaction

variable {inner : Decode Transaction}

theorem size_of_readPayload {size : UInt32} {bs rest payload : Bytes}
    (taken : readPayload size bs = .ok payload rest) :
    size.toNat = payload.length ∧ size ≤ maxPayload := by
  simp only [readPayload] at taken
  split at taken
  · cases taken
  · rename_i fits
    split at taken
    · rename_i whole
      obtain ⟨same, -⟩ := EStateM.Result.ok.inj taken
      exact ⟨same ▸ whole.symm, UInt32.not_lt.1 fits⟩
    · cases taken

theorem sized_of_decodeWith {bs rest : Bytes} {t : Transaction}
    (decodes : decodeWith inner bs = .ok t rest) : t.Sized := by
  obtain ⟨mid, -, taken, -⟩ := exists_of_decodeWith decodes
  exact size_of_readPayload taken

theorem restores : Restores (decodeWith inner) TransactionPayload.write := by
  intro bs rest t decodes
  exact ⟨t.encode, t.appends_write,
    decodeWith_encode (sized_of_decodeWith decodes) (eventsWith_of_decodeWith decodes)⟩

end Transaction

/-! ## Format descriptions -/

namespace FormatDescription

variable {bs rest : Bytes} {d : FormatDescription}

/-- The version that was read ends in front of the first zero byte. -/
theorem noNul_of_read (reads : read bs = .ok d rest) : 0 ∉ Text.Utf8.encode d.serverVersion := by
  obtain ⟨version, tail, behind, -, -, decodes, -, -⟩ := exists_of_read reads
  rw [Text.Utf8.encode_of_decode decodes]
  intro member
  have other := List.mem_takeWhile_imp member
  exact absurd rfl (bne_iff_ne.1 other)

/-- A table that ends right in front of its entry for itself has the flag behind it as that entry,
and the flag is written where it was. -/
theorem own_of_read (reads : read bs = .ok d rest) (long : 14 ≤ d.postHeaderLengths.length) :
    ∃ own, (d.postHeaderLengths ++ [d.checksumFlag])[14]? = some own ∧
      own.toNat = fixedLength + d.postHeaderLengths.length := by
  obtain ⟨version, tail, behind, -, -, -, table, flag⟩ := exists_of_read reads
  obtain ⟨own, entry, tells, rfl⟩ := exists_of_readTable table
  refine ⟨own, ?_, tells⟩
  rcases Nat.eq_or_lt_of_le long with last | inside
  · rw [List.getElem?_append_right (Nat.le_of_eq last.symm), ← last] at entry ⊢
    rw [Nat.sub_self] at entry ⊢
    rw [flag, entry]
    rfl
  · rw [List.getElem?_append_left inside] at entry ⊢
    exact entry

theorem appends_of_short (short : (Text.Utf8.encode d.serverVersion).length < versionLength) :
    ∃ out, d.encode = .ok out ∧ d.write.Appends out := by
  obtain ⟨out, written⟩ : ∃ out, d.encode = .ok out := ⟨_, if_pos short⟩
  have writes : d.write.Performs (.ok out) := written ▸ d.performs_write
  exact ⟨out, written, writes⟩

theorem refused_of_long (long : versionLength ≤ (Text.Utf8.encode d.serverVersion).length) :
    d.write.Performs (.error (.serverVersionTooLong d.serverVersion)) := by
  have refused : d.encode = .error (.serverVersionTooLong d.serverVersion) :=
    if_neg (Nat.not_lt_of_le long)
  exact refused ▸ d.performs_write

theorem restored_of_read (reads : read bs = .ok d rest)
    (short : (Text.Utf8.encode d.serverVersion).length < versionLength)
    (long : 14 ≤ d.postHeaderLengths.length) : Restored read write d := by
  obtain ⟨out, written, writes⟩ := appends_of_short short
  obtain ⟨own, entry, tells⟩ := own_of_read reads long
  have gives := read_encode written (noNul_of_read reads) entry tells
  rw [List.append_nil] at gives
  exact ⟨out, writes, gives⟩

/-- Where the table is so short that not even the flag is where the entry for itself is looked for,
what was written is no description. -/
theorem rejected_of_read (reads : read bs = .ok d rest)
    (short : (Text.Utf8.encode d.serverVersion).length < versionLength)
    (few : d.postHeaderLengths.length < 14) :
    ∃ out unread, d.write.Appends out ∧ read out =
      .error (.violation (.postHeaderTableTooShort (d.postHeaderLengths.length + 1))) unread := by
  obtain ⟨out, written, writes⟩ := appends_of_short short
  have table := read_of_encode written (noNul_of_read reads) []
  have missing : (d.postHeaderLengths ++ [d.checksumFlag])[14]? = none := by
    rw [List.getElem?_eq_none_iff, List.length_append, List.length_singleton]
    omega
  have refused : readTable (d.postHeaderLengths ++ [d.checksumFlag]) =
      .error (.violation (.postHeaderTableTooShort (d.postHeaderLengths.length + 1)))
        (d.postHeaderLengths ++ [d.checksumFlag]) := by
    simp only [readTable, show EventType.formatDescription.code.toNat - 1 = 14 from rfl, missing,
      List.length_append, List.length_singleton]
    rfl
  rw [List.append_nil] at table
  simp only [bind, EStateM.bind, refused] at table
  exact ⟨out, _, writes, table⟩

/-- What becomes of a description that is written and read again. -/
structure Reread (d : FormatDescription) : Prop where
  restored : Restored read write d ↔
    (Text.Utf8.encode d.serverVersion).length < versionLength ∧ 14 ≤ d.postHeaderLengths.length
  refused : versionLength ≤ (Text.Utf8.encode d.serverVersion).length →
    d.write.Performs (.error (.serverVersionTooLong d.serverVersion))
  rejected : (Text.Utf8.encode d.serverVersion).length < versionLength →
    d.postHeaderLengths.length < 14 → ∃ out unread, d.write.Appends out ∧ read out =
      .error (.violation (.postHeaderTableTooShort (d.postHeaderLengths.length + 1))) unread

theorem reread_of_read (reads : read bs = .ok d rest) : d.Reread where
  restored := by
    constructor
    · rintro ⟨out, writes, gives⟩
      have short : (Text.Utf8.encode d.serverVersion).length < versionLength := by
        refine Nat.lt_of_not_le fun long => ?_
        cases (refused_of_long long).unique writes
      refine ⟨short, Nat.le_of_not_lt fun few => ?_⟩
      obtain ⟨out', unread, writes', fails⟩ := rejected_of_read reads short few
      cases writes.unique writes'
      rw [gives] at fails
      cases fails
    · rintro ⟨short, long⟩
      exact restored_of_read reads short long
  refused := refused_of_long
  rejected := rejected_of_read reads

end FormatDescription

/-! ## All types -/

/-- **Whatever is read can be written and is read again as the same.**  Of headers, of bodies that
are ever written and of the headers of payloads, all that a reader takes comes back, and nothing is
left over.  Only for a format description this depends on what was read: on a version that leaves
room for a zero byte, without which it is not written, and on a table of at least fourteen entries,
without which it is not read again. -/
theorem restores_reads :
    Restores EventHeader.read EventHeader.write ∧ Restores Query.read Query.write ∧
      Restores Rotate.read Rotate.write ∧ Restores Intvar.read Intvar.write ∧
      Restores Rand.read Rand.write ∧ Restores Xid.read Xid.write ∧
      Restores TableMapEvent.read TableMapEvent.write ∧ Restores RowsQuery.read RowsQuery.write ∧
      Restores RowsEvent.read RowsEvent.write ∧ Restores GtidEvent.read GtidEvent.write ∧
      Restores PayloadHeader.read PayloadHeader.write ∧
      Restores Transaction.decode TransactionPayload.write ∧
      ∀ {bs rest : Bytes} {d : FormatDescription}, FormatDescription.read bs = .ok d rest →
        d.Reread :=
  ⟨restores_of_codec EventHeader.appends_write EventHeader.read_encode, Query.restores,
    restores_of_writer Rotate.appends_write Rotate.read_encode,
    restores_of_writer Intvar.appends_write Intvar.read_encode,
    restores_of_writer Rand.appends_write Rand.read_encode,
    restores_of_writer Xid.appends_write Xid.read_encode,
    restores_of_writer TableMapEvent.appends_write TableMapEvent.read_encode,
    restores_of_writer RowsQuery.appends_write RowsQuery.read_encode,
    restores_of_writer RowsEvent.appends_write RowsEvent.read_encode,
    restores_of_writer GtidEvent.appends_write GtidEvent.read_encode,
    restores_of_codec PayloadHeader.appends_write PayloadHeader.read_encode, Transaction.restores,
    FormatDescription.reread_of_read⟩

/-- A table that ends in front of its entry for itself, so that the flag behind it is that entry. -/
theorem restored_bare_table :
    ∃ bs d, FormatDescription.read bs = .ok d [] ∧ d.postHeaderLengths.length = 14 ∧
      Restored FormatDescription.read FormatDescription.write d := by
  let d : FormatDescription :=
    { FormatDescription.new "8.0.33" 71 with postHeaderLengths := List.replicate 14 0 }
  have short : (Text.Utf8.encode d.serverVersion).length < FormatDescription.versionLength := by
    decide
  obtain ⟨bs, written, -⟩ := FormatDescription.appends_of_short short
  have own : (d.postHeaderLengths ++ [d.checksumFlag])[14]? = some 71 := rfl
  have reads : FormatDescription.read (bs ++ []) = .ok d [] :=
    FormatDescription.read_encode written (by decide) own rfl
  obtain ⟨-, -, -, -, -, -, -, -, -, -, -, -, reread⟩ := restores_reads
  exact ⟨bs ++ [], d, reads, rfl, (reread reads).restored.2 ⟨short, by decide⟩⟩

end BinaryLog
