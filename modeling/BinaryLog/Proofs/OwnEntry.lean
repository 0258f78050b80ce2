/-
# BinaryLog.Proofs.OwnEntry -- the byte that tells a format description how long its table is

The length of the table is written only in the table itself, as the entry for format descriptions.
That entry is looked up where it has to be, fourteen bytes behind the start of the table, when
nothing is known yet of where the table ends.  So the table that is read is one whose length that
byte tells, whatever the byte is (`readTable_eq_ok_iff`), and a description that was written comes
back if it does (`description_of_write`).  With fourteen entries the byte is the flag for checksums,
with fewer it is one of the bytes behind the description.

Readers do not ask whether the byte turned out to be part of the table.  It is if it announces at
least fifteen entries, and then it is the entry for format descriptions.  If it announces fewer, the
description is accepted without such an entry (`ownEntry_of_read`, `unlisted_accepted`).
-/
import BinaryLog.Proofs.Rereading

namespace BinaryLog.FormatDescription

set_option autoImplicit false

open Wire Write

variable {d : FormatDescription} {bs rest table body : Bytes}

/-! ## Descriptions that are written -/

theorem readTable_eq_ok_iff :
    readTable bs = .ok table rest ↔
      bs = table ++ rest ∧ ∃ own, bs[14]? = some own ∧ own.toNat = fixedLength + table.length := by
  constructor
  · intro reads
    obtain ⟨own, entry, tells, whole⟩ := exists_of_readTable reads
    exact ⟨whole.symm, own, entry, tells⟩
  · rintro ⟨rfl, own, entry, tells⟩
    exact readTable_append entry tells

theorem read_append_iff (written : d.encode = .ok body) (rest : Bytes) :
    read (body ++ rest) = .ok d rest ↔
      0 ∉ Text.Utf8.encode d.serverVersion ∧
        ∃ own, (d.postHeaderLengths ++ d.checksumFlag :: rest)[14]? = some own ∧
          own.toNat = fixedLength + d.postHeaderLengths.length := by
  constructor
  · intro reads
    have noNul := noNul_of_read reads
    rw [read_of_encode written noNul] at reads
    obtain ⟨table, mid, first, later⟩ := exists_of_bind_apply reads
    obtain ⟨flag, mid', -, done⟩ := exists_of_bind_apply later
    obtain rfl : table = d.postHeaderLengths :=
      congrArg postHeaderLengths (EStateM.Result.ok.inj done).1
    obtain ⟨-, own, entry, tells⟩ := readTable_eq_ok_iff.1 first
    exact ⟨noNul, own, entry, tells⟩
  · rintro ⟨noNul, own, entry, tells⟩
    exact read_encode written noNul entry tells

/-- **A description comes back if the byte at the place of its own entry tells the length of its
table.**  That byte may be in the table, or the flag, or in what stands behind.  A version that
leaves no room for a zero byte is not written, and one that has a zero byte of its own is cut off
there. -/
theorem description_of_write (d : FormatDescription) :
    ((∃ rule, d.write.Performs (.error rule)) ↔
      50 ≤ (Text.Utf8.encode d.serverVersion).length) ∧
    ((Text.Utf8.encode d.serverVersion).length < 50 →
      ∃ body, d.write.Appends body ∧ ∀ rest, read (body ++ rest) = .ok d rest ↔
        0 ∉ Text.Utf8.encode d.serverVersion ∧
          ∃ own, (d.postHeaderLengths ++ [d.checksumFlag] ++ rest)[14]? = some own ∧
            own.toNat = 57 + d.postHeaderLengths.length) := by
  refine ⟨⟨?_, fun long => ⟨_, refused_of_long long⟩⟩, fun short => ?_⟩
  · rintro ⟨rule, refused⟩
    refine Nat.le_of_not_lt fun short => ?_
    obtain ⟨body, -, writes⟩ := appends_of_short short
    cases refused.unique writes
  · obtain ⟨body, written, writes⟩ := appends_of_short short
    refine ⟨body, writes, fun rest => ?_⟩
    rw [List.append_assoc, List.singleton_append]
    exact read_append_iff written rest

namespace Example

def current : FormatDescription := .new "8.0.18" 1

/-- A table of three entries, of which none is for format descriptions. -/
def brief : FormatDescription := { current with postHeaderLengths := [56, 13, 0] }

/-- Bytes behind it, with the length of the fixed part and of three entries where the entry for
format descriptions would be. -/
def behind : Bytes := List.replicate 10 0 ++ [60]

/-- A description and what stands behind it. -/
def followed (d : FormatDescription) (rest : Bytes) : Bytes := d.encode.toOption.getD [] ++ rest

theorem current_read : read (followed current []) = .ok current [] :=
  (read_append_iff (eq_ok_getD (by decide) []) []).2 ⟨by decide, 98, by decide, by decide⟩

theorem brief_read : read (followed brief behind) = .ok brief behind :=
  (read_append_iff (eq_ok_getD (by decide) []) behind).2 ⟨by decide, 60, by decide, by decide⟩

end Example

/-- Three entries come back in front of bytes that have their length at the right place, and do not
if nothing stands behind them. -/
theorem description_of_write_brief :
    ∃ body, Example.brief.write.Appends body ∧
      (∀ more, read (body ++ (Example.behind ++ more)) =
        .ok Example.brief (Example.behind ++ more)) ∧
      read (body ++ []) ≠ .ok Example.brief [] := by
  obtain ⟨-, written⟩ := description_of_write Example.brief
  obtain ⟨body, writes, comesBack⟩ := written (by decide)
  refine ⟨body, writes, fun more => ?_, fun reads => ?_⟩
  · exact (comesBack _).2 ⟨by decide, 60, rfl, rfl⟩
  · obtain ⟨-, own, entry, -⟩ := (comesBack []).1 reads
    cases entry

/-! ## Descriptions that are read -/

theorem exists_behind_of_read (reads : read bs = .ok d rest) :
    ∃ behind, readTable (bs.drop fixedLength) = .ok d.postHeaderLengths behind ∧
      d.checksumFlag = behind[0]?.getD 0 := by
  obtain ⟨version, tail, behind, parts, length, -, table, flag⟩ := exists_of_read reads
  have dropped : bs.drop fixedLength = tail := by
    simp only [parts, ← List.append_assoc]
    exact List.drop_left' (by simp [Word.width, length, versionLength, fixedLength])
  exact ⟨behind, dropped ▸ table, flag⟩

/-- **The byte that tells the length of the table is an entry of the table only if it announces at
least fifteen entries.**  The flag for checksums is the byte behind the table in any case. -/
theorem ownEntry_of_read (reads : read bs = .ok d rest) :
    ∃ own behind, bs.drop 57 = d.postHeaderLengths ++ behind ∧
      d.checksumFlag = behind[0]?.getD 0 ∧
      (d.postHeaderLengths ++ behind)[14]? = some own ∧
      own.toNat = 57 + d.postHeaderLengths.length ∧
      d.postHeaderLength .formatDescription = if own.toNat < 57 + 15 then none else some own := by
  obtain ⟨behind, table, flag⟩ := exists_behind_of_read reads
  obtain ⟨whole, own, entry, tells⟩ := readTable_eq_ok_iff.1 table
  rw [whole] at entry
  refine ⟨own, behind, whole, flag, entry, tells, ?_⟩
  show d.postHeaderLengths[14]? = _
  rw [fixedLength] at tells
  -- the byte tells where the table ends, and so also on which side of its end the byte itself is
  split
  · rename_i few
    exact List.getElem?_eq_none (by omega)
  · rename_i many
    rwa [List.getElem?_append_left (by omega)] at entry

/-- The length of forty-one entries is one of them, that of three entries is found behind them. -/
theorem ownEntry_of_current_and_brief :
    (read (Example.followed Example.current []) = .ok Example.current [] ∧
      Example.current.postHeaderLength .formatDescription = some (57 + 41)) ∧
    read (Example.followed Example.brief Example.behind) = .ok Example.brief Example.behind ∧
      Example.brief.postHeaderLength .formatDescription = none ∧
      ∃ own : UInt8, (Example.followed Example.brief Example.behind)[57 + 14]? = some own ∧
        own.toNat = 57 + 3 := by
  refine ⟨⟨Example.current_read, ?_⟩, Example.brief_read, ?_⟩
  · obtain ⟨own, behind, -, -, -, tells, listed⟩ := ownEntry_of_read Example.current_read
    obtain rfl : own = 57 + 41 := UInt8.toNat_inj.1 tells
    exact listed
  · obtain ⟨own, behind, whole, -, entry, tells, unlisted⟩ := ownEntry_of_read Example.brief_read
    obtain rfl : own = 57 + 3 := UInt8.toNat_inj.1 tells
    rw [← whole, List.getElem?_drop] at entry
    exact ⟨unlisted, 57 + 3, entry, rfl⟩

/-- A description is accepted although its table has no entry for format descriptions. -/
theorem unlisted_accepted :
    read (Example.followed Example.brief Example.behind) = .ok Example.brief Example.behind ∧
      (Example.brief.postHeaderLength .formatDescription).map UInt8.toNat ≠
        some (57 + Example.brief.postHeaderLengths.length) :=
  ⟨Example.brief_read, by decide⟩

end BinaryLog.FormatDescription
