/-
# BinaryLog.Proofs.Description -- a format description with one byte changed

A format description says two things about itself: by its own entry in the table how long that is,
and by the flag behind the table whether a checksum follows.  Apart from them only the version has
to be text for the bytes to be a description (`FormatDescription.Describes`), and what was written
always is, since a text stays one when it is cut off in front of a zero byte
(`Text.Utf8.takeWhile_encode`).

So a description whose checksum is wrong is accepted if what it says is that it has none, and only
then (`Event.decodeFormatDescription_iff`).  One changed byte makes the checksum wrong.  It makes
the description say this if it is the flag, or if it is the entry for itself and the byte that now
stands where the flag is looked for is no flag for a checksum (`Event.parseWith_set_description`).
-/
import BinaryLog.Proofs.Corruption
import Mathlib.Tactic.SplitIfs

namespace BinaryLog

set_option autoImplicit false

open Wire

/-! ## Texts up to a zero byte -/

namespace Text.Utf8

theorem encode_eq_flatMap (s : String) : encode s = s.toList.flatMap String.utf8EncodeChar := by
  rw [encode, ← String.ofList_toList (s := s), String.toByteArray_ofList, String.ofList_toList,
    List.utf8Encode]
  simp

/-- Only the character zero has a zero byte. -/
theorem ne_zero_of_mem_utf8EncodeChar {c : Char} (other : c ≠ Char.ofNat 0) {b : UInt8}
    (member : b ∈ String.utf8EncodeChar c) : b ≠ 0 := by
  have code : c.val.toNat ≠ 0 := fun zero => other (Char.toNat_inj.1 zero)
  have octet : ∀ n : Nat, 0 < n → n < 256 → UInt8.ofNat n ≠ 0 := by
    intro n pos small zero
    have none : (UInt8.ofNat n).toNat = 0 := congrArg UInt8.toNat zero
    rw [UInt8.toNat_ofNat'] at none
    omega
  simp only [String.utf8EncodeChar] at member
  split_ifs at member <;> simp only [List.mem_cons, List.not_mem_nil, or_false] at member
  · subst member
    exact octet _ (by omega) (by omega)
  · rcases member with rfl | rfl <;> exact octet _ (by omega) (by omega)
  · rcases member with rfl | rfl | rfl <;> exact octet _ (by omega) (by omega)
  · rcases member with rfl | rfl | rfl | rfl <;> exact octet _ (by omega) (by omega)

theorem takeWhile_encode (s : String) :
    (encode s).takeWhile (· != 0) =
      encode (String.ofList (s.toList.takeWhile (· != Char.ofNat 0))) := by
  rw [encode_eq_flatMap, encode_eq_flatMap, String.toList_ofList]
  induction s.toList with
  | nil => rfl
  | cons c cs ih =>
      by_cases zero : c = Char.ofNat 0
      · subst zero
        rfl
      · have kept : (c != Char.ofNat 0) = true := bne_iff_ne.2 zero
        rw [List.flatMap_cons, List.takeWhile_cons, if_pos kept, List.flatMap_cons, ← ih]
        apply List.takeWhile_append_of_pos
        intro b member
        exact bne_iff_ne.2 (ne_zero_of_mem_utf8EncodeChar zero member)

end Text.Utf8

/-! ## What is read of a description -/

theorem Wire.Read.take_of_le {bs : Bytes} {n : Nat} (there : n ≤ bs.length) :
    take n bs = .ok (bs.take n) (bs.drop n) :=
  if_pos (List.length_take_of_le there)

theorem Wire.Read.of_text {bs rest rest' : Bytes} {s : String}
    (reads : text bs rest = .ok s rest') : Text.Utf8.decode bs = .ok s ∧ rest' = rest := by
  unfold text at reads
  cases decodes : Text.Utf8.decode bs with
  | error fault =>
      rw [decodes] at reads
      cases reads
  | ok found =>
      rw [decodes] at reads
      cases reads
      exact ⟨rfl, rfl⟩

theorem Wire.Read.wordOr_eq (b : UInt8) (bs : Bytes) :
    wordOr UInt8 b bs = .ok (bs[0]?.getD b) (bs.drop 1) := by
  cases bs with
  | nil => rfl
  | cons first bs => simp [wordOr, more, bind, EStateM.bind, octet_cons]

namespace FormatDescription

/-- Where a description has the entry of the table for itself. -/
def ownEntry : Nat := fixedLength + 14

/-- The bytes are a description whose entry for itself is `own`, whatever comes behind it. -/
structure Describes (bs : Bytes) (own : UInt8) : Prop where
  version : ∃ s, Text.Utf8.decode (((bs.drop 2).take versionLength).takeWhile (· != 0)) = .ok s
  entry : bs[ownEntry]? = some own
  least : fixedLength ≤ own.toNat
  whole : own.toNat ≤ bs.length

/-- The byte behind the table. -/
def flagBehind (bs : Bytes) (own : UInt8) : UInt8 := bs[own.toNat]?.getD 0

theorem readTable_of_le {bs : Bytes} {own : UInt8} (entry : bs[14]? = some own)
    (least : fixedLength ≤ own.toNat) (whole : own.toNat - fixedLength ≤ bs.length) :
    readTable bs = .ok (bs.take (own.toNat - fixedLength)) (bs.drop (own.toNat - fixedLength)) := by
  simp only [readTable, show EventType.formatDescription.code.toNat - 1 = 14 from rfl, entry,
    if_neg (Nat.not_lt_of_le least)]
  exact Read.take_of_le whole

/-- The table that was read is as long as its own entry says, wherever that entry stood. -/
theorem exists_of_readTable {bs table rest : Bytes} (reads : readTable bs = .ok table rest) :
    ∃ own, bs[14]? = some own ∧ own.toNat = fixedLength + table.length ∧ table ++ rest = bs := by
  simp only [readTable, show EventType.formatDescription.code.toNat - 1 = 14 from rfl] at reads
  split at reads
  · cases reads
  · rename_i own entry
    split at reads
    · cases reads
    · rename_i least
      obtain ⟨whole, length⟩ := Read.append_of_take reads
      exact ⟨own, entry, by omega, whole⟩

/-- The parts of a description that was read, and where they stood. -/
theorem exists_of_read {bs rest : Bytes} {d : FormatDescription} (reads : read bs = .ok d rest) :
    ∃ version tail behind, bs = Word.bytes d.binlogVersion ++ (version ++
        (Word.bytes d.created ++ (Word.bytes d.headerLength ++ tail))) ∧
      version.length = versionLength ∧
      Text.Utf8.decode (version.takeWhile (· != 0)) = .ok d.serverVersion ∧
      readTable tail = .ok d.postHeaderLengths behind ∧ d.checksumFlag = behind[0]?.getD 0 := by
  obtain ⟨binlogVersion, bs₁, first, later⟩ := exists_of_bind_apply reads
  obtain ⟨version, bs₂, second, later⟩ := exists_of_bind_apply later
  obtain ⟨serverVersion, bs₃, third, later⟩ := exists_of_bind_apply later
  obtain ⟨created, bs₄, fourth, later⟩ := exists_of_bind_apply later
  obtain ⟨headerLength, bs₅, fifth, later⟩ := exists_of_bind_apply later
  obtain ⟨table, bs₆, sixth, last⟩ := exists_of_bind_apply later
  obtain ⟨whole, length⟩ := Read.append_of_take second
  obtain ⟨decodes, rfl⟩ := Read.of_text third
  simp only [bind, EStateM.bind, Read.wordOr_eq, pure, EStateM.pure] at last
  cases last
  refine ⟨version, bs₅, bs₆, ?_, length, decodes, sixth, rfl⟩
  rw [Read.append_of_word fifth, Read.append_of_word fourth, whole, Read.append_of_word first]

theorem read_of_describes {bs : Bytes} {own : UInt8} (describes : Describes bs own) :
    ∃ d, read bs = .ok d (bs.drop (own.toNat + 1)) ∧ d.checksumFlag = flagBehind bs own := by
  obtain ⟨⟨s, version⟩, entry, least, whole⟩ := describes
  have text : Read.text (((bs.drop 2).take versionLength).takeWhile (· != 0)) = pure s := by
    simp only [Read.text, version]
  have tail : (bs.drop fixedLength)[14]? = some own := by rwa [List.getElem?_drop]
  have sum : fixedLength + (own.toNat - fixedLength) = own.toNat := by omega
  have table := readTable_of_le tail least (by rw [List.length_drop]; omega)
  have flag := Read.wordOr_eq 0 (bs.drop own.toNat)
  rw [List.drop_drop, sum] at table
  rw [List.drop_drop, List.getElem?_drop, Nat.add_zero] at flag
  simp only [fixedLength, versionLength] at *
  refine ⟨{
    binlogVersion := Word.ofBytes (bs.take 2)
    serverVersion := s
    created := Word.ofBytes ((bs.drop 52).take 4)
    headerLength := Word.ofBytes ((bs.drop 56).take 1)
    postHeaderLengths := (bs.drop 57).take (own.toNat - 57)
    checksumFlag := flagBehind bs own }, ?_, rfl⟩
  simp (disch := simp [Word.width]; omega) only [read, bind, EStateM.bind, pure, EStateM.pure,
    Read.word_of_le, Read.take_of_le, text, versionLength, Word.width, List.drop_drop, table, flag,
    flagBehind]

/-- Nothing but a description is read. -/
theorem describes_of_read {bs rest : Bytes} {d : FormatDescription} (reads : read bs = .ok d rest) :
    ∃ own, Describes bs own := by
  obtain ⟨version, tail, behind, parts, length, decodes, table, -⟩ := exists_of_read reads
  obtain ⟨own, entry, tells, whole⟩ := exists_of_readTable table
  have slice : (bs.drop 2).take versionLength = version := by
    rw [parts, List.drop_left' (by simp [Word.width]), List.take_left' length]
  have dropped : bs.drop fixedLength = tail := by
    simp only [parts, ← List.append_assoc]
    exact List.drop_left' (by simp [Word.width, length, versionLength, fixedLength])
  have fits : d.postHeaderLengths.length ≤ tail.length := by
    rw [← whole, List.length_append]
    exact Nat.le_add_right ..
  refine ⟨own, ⟨⟨d.serverVersion, ?_⟩, ?_, by omega, ?_⟩⟩
  · rw [slice, decodes]
  · rwa [← dropped, List.getElem?_drop] at entry
  · have some := (List.getElem?_eq_some_iff.1 entry).1
    rw [← dropped, List.length_drop] at fits some
    omega

/-! ## Descriptions that are written -/

theorem takeWhile_append_zero (version zeros : Bytes) :
    (version ++ 0 :: zeros).takeWhile (· != 0) = version.takeWhile (· != 0) := by
  induction version with
  | nil => rfl
  | cons b bs ih => rw [List.cons_append, List.takeWhile_cons, List.takeWhile_cons, ih]

/-- Zero bytes end the version that is written, and the table comes behind the fixed part. -/
theorem encode_parts {d : FormatDescription} {body : Bytes} (written : d.encode = .ok body)
    (r : Bytes) :
    (∃ zeros, ((body ++ r).drop 2).take versionLength =
      Text.Utf8.encode d.serverVersion ++ 0 :: zeros) ∧
    (body ++ r).drop fixedLength = d.postHeaderLengths ++ d.checksumFlag :: r := by
  simp only [encode] at written
  split at written
  · rename_i short
    cases written
    obtain ⟨k, padding⟩ := Nat.exists_eq_succ_of_ne_zero (Nat.sub_ne_zero_of_lt short)
    have padded : (Text.Utf8.encode d.serverVersion ++ 0 :: List.replicate k 0).length =
        versionLength := by
      rw [List.length_append, List.length_cons, List.length_replicate]
      omega
    rw [padding, List.replicate_succ, ← List.append_assoc (Text.Utf8.encode d.serverVersion)]
    constructor
    · refine ⟨List.replicate k 0, ?_⟩
      rw [List.append_assoc, List.drop_left' (by simp [Word.width]), List.append_assoc,
        List.take_left' padded]
    · simp only [← List.append_assoc _ _ (d.postHeaderLengths ++ Word.bytes d.checksumFlag)]
      rw [List.append_assoc, List.drop_left' ?_]
      · rw [Word.bytes_octet, List.append_assoc, List.singleton_append]
      · simp only [List.length_append, padded, Word.length_bytes, Word.width, versionLength,
          fixedLength]
  · cases written

/-- A written description is one, in front of anything, if its table tells its own length. -/
theorem describes_encode {d : FormatDescription} {body : Bytes} {own : UInt8}
    (written : d.encode = .ok body) (entry : d.postHeaderLength .formatDescription = some own)
    (tells : own.toNat = fixedLength + d.postHeaderLengths.length) (r : Bytes) :
    Describes (body ++ r) own ∧ (body ++ r)[own.toNat]? = some d.checksumFlag := by
  have length := length_encode written
  obtain ⟨⟨zeros, version⟩, tail⟩ := encode_parts written r
  have there : d.postHeaderLengths[14]? = some own := entry
  have inside := (List.getElem?_eq_some_iff.1 there).1
  refine ⟨⟨?_, ?_, ?_, ?_⟩, ?_⟩
  · rw [version, takeWhile_append_zero, Text.Utf8.takeWhile_encode]
    exact ⟨_, Text.Utf8.decode_encode _⟩
  · rw [ownEntry, ← List.getElem?_drop, tail, List.getElem?_append_left inside, there]
  · omega
  · rw [List.length_append]
    omega
  · rw [tells, ← List.getElem?_drop, tail, List.getElem?_append_right (Nat.le_refl _),
      Nat.sub_self, List.getElem?_cons_zero]

/-- A change behind the version leaves that as it is. -/
theorem describes_set_iff {bs : Bytes} {own b : UInt8} {j : Nat} (behind : fixedLength ≤ j) :
    Describes (bs.set j b) own ↔
      (∃ s, Text.Utf8.decode (((bs.drop 2).take versionLength).takeWhile (· != 0)) = .ok s) ∧
      (bs.set j b)[ownEntry]? = some own ∧ fixedLength ≤ own.toNat ∧ own.toNat ≤ bs.length := by
  have slice : ((bs.set j b).drop 2).take versionLength = (bs.drop 2).take versionLength :=
    Bytes.slice_set_outside (.inr (Nat.le_trans (by decide) behind))
  constructor
  · rintro ⟨version, entry, least, whole⟩
    rw [slice] at version
    rw [List.length_set] at whole
    exact ⟨version, entry, least, whole⟩
  · rintro ⟨version, entry, least, whole⟩
    refine ⟨?_, entry, least, ?_⟩
    · rwa [slice]
    · rwa [List.length_set]

theorem flagBehind_ne_one_iff {bs : Bytes} {own : UInt8} :
    flagBehind bs own ≠ 1 ↔ bs[own.toNat]? ≠ some 1 := by
  rw [flagBehind]
  cases bs[own.toNat]? <;> simp

/-- Where a change of one byte leads to a description without a checksum: in the flag itself, or in
the entry that tells where the flag is. -/
theorem exists_describes_set_iff {bs : Bytes} {own b : UInt8} {j : Nat}
    (describes : Describes bs own) (flag : bs[own.toNat]? = some 1) (other : bs[j]? ≠ some b)
    (apart : own.toNat ≠ ownEntry) :
    (∃ own', Describes (bs.set j b) own' ∧ flagBehind (bs.set j b) own' ≠ 1) ↔
      j = own.toNat ∨
        j = ownEntry ∧ fixedLength ≤ b.toNat ∧ b.toNat ≤ bs.length ∧
          (bs.set j b)[b.toNat]? ≠ some 1 := by
  obtain ⟨version, entry, least, whole⟩ := describes
  have inside : ownEntry < bs.length := (List.getElem?_eq_some_iff.1 entry).1
  constructor
  · rintro ⟨own', ⟨-, entry', least', whole'⟩, off⟩
    rw [List.length_set] at whole'
    rw [flagBehind_ne_one_iff] at off
    by_cases self : j = ownEntry
    · subst self
      rw [List.getElem?_set_self inside, Option.some.injEq] at entry'
      subst entry'
      exact .inr ⟨rfl, least', whole', off⟩
    · -- the flag is where it was, so that it must have been changed
      rw [List.getElem?_set_ne self, entry, Option.some.injEq] at entry'
      subst entry'
      refine .inl (Decidable.byContradiction fun elsewhere => off ?_)
      rw [List.getElem?_set_ne elsewhere, flag]
  · rintro (rfl | ⟨rfl, least', whole', off⟩)
    · have there : own.toNat < bs.length := (List.getElem?_eq_some_iff.1 flag).1
      refine ⟨own, (describes_set_iff least).2 ⟨version, ?_, least, whole⟩, ?_⟩
      · rw [List.getElem?_set_ne apart, entry]
      · rw [flagBehind_ne_one_iff, List.getElem?_set_self there]
        rw [flag] at other
        exact other.symm
    · refine ⟨b, (describes_set_iff (by decide)).2 ⟨version, ?_, least', whole'⟩, ?_⟩
      · rw [List.getElem?_set_self inside]
      · rwa [flagBehind_ne_one_iff]

end FormatDescription

/-! ## Events that are descriptions -/

namespace Event

variable {o : Options} {header : EventHeader} {raw : Bytes} {event : Event}

/-- A description whose checksum is wrong is accepted only if it says that it has none, and then
ends the checksums. -/
theorem unchecked_of_mismatch
    (wrong : ∃ expected actual, verifyChecksum o raw = .error (.checksumMismatch expected actual))
    (decodes : (decodeFormatDescription o header raw).1 = .ok event) :
    ∃ d rest, FormatDescription.read (raw.drop EventHeader.size) = .ok d rest ∧
      d.checksumFlag ≠ 1 ∧
      decodeFormatDescription o header raw =
        (.ok { header, body := .formatDescription d, crc32 := 0 },
          { o with checksum := false }) := by
  obtain ⟨error, failed⟩ | ⟨d, rest, crc32, reads, checks, given⟩ :=
    decodeFormatDescription_cases o header raw
  · rw [failed] at decodes
    cases decodes
  have checked := verified_of_trailer checks
  by_cases enabled : d.checksumEnabled = true
  · -- the checksum would have been verified
    obtain ⟨expected, actual, wrong⟩ := wrong
    rw [if_pos enabled, wrong] at checked
    cases checked
  · rw [if_neg enabled] at checked
    subst checked
    rw [Bool.not_eq_true] at enabled
    refine ⟨d, rest, reads, ?_, enabled ▸ given⟩
    exact beq_eq_false_iff_ne.1 enabled

theorem decodeFormatDescription_iff
    (wrong : ∃ expected actual, verifyChecksum o raw = .error (.checksumMismatch expected actual)) :
    (∃ event, (decodeFormatDescription o header raw).1 = .ok event) ↔
      ∃ own, FormatDescription.Describes (raw.drop EventHeader.size) own ∧
        FormatDescription.flagBehind (raw.drop EventHeader.size) own ≠ 1 := by
  constructor
  · rintro ⟨event, decodes⟩
    obtain ⟨d, rest, reads, off, -⟩ := unchecked_of_mismatch wrong decodes
    obtain ⟨own, describes⟩ := FormatDescription.describes_of_read reads
    obtain ⟨d', reads', flag⟩ := FormatDescription.read_of_describes describes
    rw [reads] at reads'
    cases reads'
    exact ⟨own, describes, flag ▸ off⟩
  · rintro ⟨own, describes, off⟩
    obtain ⟨d, reads, flag⟩ := FormatDescription.read_of_describes describes
    have disabled : ¬ d.checksumEnabled = true := by
      rw [FormatDescription.checksumEnabled, flag]
      simpa using off
    refine ⟨{ header, body := .formatDescription d, crc32 := 0 }, ?_⟩
    simp only [decodeFormatDescription, reads, FormatDescription.trailer, if_neg disabled]

/-- **One changed byte of a description is found, or ends the checksums.**  Of a description that is
written with its checksum, no byte of the body can be changed without failure, unless it then says
itself that no checksum follows: since the flag is another one, or since its entry for itself puts
the flag on another byte or behind the end.  If so it is accepted without a checksum, and the events
behind it are read without one. -/
theorem parseWith_set_description (payload : Decode Transaction) {header : EventHeader}
    {d : FormatDescription} {crc32 : UInt32} {raw : Bytes}
    (typed : header.type = .formatDescription) (enabled : d.checksumFlag = 1)
    (own : (d.postHeaderLength .formatDescription).map UInt8.toNat =
      some (FormatDescription.fixedLength + d.postHeaderLengths.length))
    (written : encode ⟨header, .formatDescription d, crc32⟩ true = .ok raw)
    {i : Nat} {b : UInt8} (first : EventHeader.size ≤ i) (last : i < raw.length - Crc32.size)
    (other : raw[i]? ≠ some b) :
    let o : Options := { checksum := true, validate := true }
    let raw' := raw.set i b
    let parsed := parseWith payload o raw'
    ((∃ event, parsed.1 = .ok event) ↔
      i = EventHeader.size + FormatDescription.fixedLength + d.postHeaderLengths.length ∨
        i = EventHeader.size + FormatDescription.ownEntry ∧
          FormatDescription.fixedLength ≤ b.toNat ∧ EventHeader.size + b.toNat ≤ raw.length ∧
          raw'[EventHeader.size + b.toNat]? ≠ some 1) ∧
      ∀ event, parsed.1 = .ok event → event.crc32 = 0 ∧ parsed.2.checksum = false := by
  intro o raw' parsed
  obtain ⟨body, encoded, framed⟩ := encode_cases written
  obtain ⟨entry, there, tells⟩ := Option.map_eq_some_iff.1 own
  have bodyLength := FormatDescription.length_encode encoded
  have tableLength : 14 < d.postHeaderLengths.length := (List.getElem?_eq_some_iff.1 there).1
  have length := EventHeader.length_frame framed
  simp only [if_true] at length
  have inside : i < raw.length := by omega
  -- the change is seen by the checksum, and leaves the header as it is
  have wrong : ∃ expected actual,
      verifyChecksum o raw' = .error (.checksumMismatch expected actual) := by
    refine verifyChecksum_set rfl (verifyChecksum_frame o framed) ?_ inside ?_
    · omega
    · intro same
      exact other (by rw [List.getElem?_eq_getElem inside, same])
  have head : EventHeader.ofBytes raw' = header.withLength raw.length := by
    rw [EventHeader.ofBytes_set first, EventHeader.ofBytes_frame framed]
  have decides : parsed = decodeFormatDescription o (header.withLength raw.length) raw' := by
    have long : o.leastLength ≤ raw'.length := by
      rw [List.length_set, length]
      exact Nat.add_le_add_right (Nat.le_add_right ..) _
    have exact : declaredLength raw' = raw'.length := by
      rw [declaredLength, EventHeader.ofBytes_set first, List.length_set]
      exact declaredLength_frame framed
    show parseWith payload o raw' = _
    rw [parseWith_of_frame long exact, head, decodeWith, EventHeader.type_withLength, if_pos typed]
  obtain ⟨-, trailer, shape, -⟩ := EventHeader.frame_cases framed
  have content : raw.drop EventHeader.size = body ++ trailer := by
    rw [shape, List.drop_left' (EventHeader.length_encode _)]
  have content' : raw'.drop EventHeader.size = (body ++ trailer).set (i - EventHeader.size) b := by
    rw [List.drop_set, if_neg (Nat.not_lt_of_le first), content]
  have described := FormatDescription.describes_encode encoded there tells trailer
  rw [enabled, ← content] at described
  have exceptions := FormatDescription.exists_describes_set_iff (b := b) described.1 described.2
    (j := i - EventHeader.size) (by rwa [List.getElem?_drop, Nat.add_sub_cancel' first])
    (by rw [FormatDescription.ownEntry]; omega)
  rw [content, ← content', List.getElem?_drop, ← content, List.length_drop] at exceptions
  constructor
  · rw [decides, decodeFormatDescription_iff wrong, exceptions]
    refine or_congr ?_ (and_congr ?_ (and_congr_right fun _ => and_congr_left fun _ => ?_))
    · omega
    · omega
    · omega
  · intro event accepted
    rw [decides] at accepted ⊢
    obtain ⟨d', rest, -, -, given⟩ := unchecked_of_mismatch wrong accepted
    rw [given] at accepted ⊢
    cases accepted
    exact ⟨rfl, rfl⟩

end Event

namespace Example

/-- The first description of the session, with its checksum. -/
def described : Bytes := (Event.encode (description 1) true).toOption.getD []

theorem described_written : Event.encode (description 1) true = .ok described :=
  eq_ok_getD (by decide +kernel) []

end Example

/-- The flag of the description is at 117 and its entry for itself at 90.  With another version it
is refused. -/
theorem parse_described_set :
    let parse := fun raw => (Event.parse { checksum := true, validate := true } raw).1
    Event.encode (Example.description 1) true = .ok Example.described ∧
      Example.described.length = 122 ∧
      (∃ event, parse (Example.described.set 117 0) = .ok event ∧ event.crc32 = 0) ∧
      (∃ event, parse (Example.described.set 90 72) = .ok event ∧ event.crc32 = 0) ∧
      ¬ ∃ event, parse (Example.described.set 21 57) = .ok event := by
  intro parse
  have set := @Event.parseWith_set_description Transaction.decode (Example.description 1).header
    (.new "8.0.18" 1) 0 Example.described rfl rfl (by decide) Example.described_written
  refine ⟨Example.described_written, by decide +kernel, ?_, ?_, ?_⟩
  · obtain ⟨accepted, unchecked⟩ :=
      @set 117 0 (by decide) (by decide +kernel) (by decide +kernel)
    obtain ⟨event, given⟩ := accepted.2 (.inl (by decide))
    exact ⟨event, given, (unchecked event given).1⟩
  · obtain ⟨accepted, unchecked⟩ :=
      @set 90 72 (by decide) (by decide +kernel) (by decide +kernel)
    obtain ⟨event, given⟩ := accepted.2 (.inr ⟨by decide, by decide, by decide +kernel,
      by decide +kernel⟩)
    exact ⟨event, given, (unchecked event given).1⟩
  · obtain ⟨accepted, -⟩ :=
      @set 21 57 (by decide) (by decide +kernel) (by decide +kernel)
    intro given
    exact absurd (accepted.1 given) (by decide +kernel)

/-- The description whose flag is changed is accepted, and ends the checksums. -/
theorem described_without_flag_accepted :
    let o : Options := { checksum := true, validate := true }
    Event.encode (Example.description 1) true = .ok Example.described ∧
      (FormatDescription.new "8.0.18" 1).checksumFlag = 1 ∧
      ((FormatDescription.new "8.0.18" 1).postHeaderLength .formatDescription).map UInt8.toNat =
        some (FormatDescription.fixedLength +
          (FormatDescription.new "8.0.18" 1).postHeaderLengths.length) ∧
      EventHeader.size ≤ 117 ∧ 117 < Example.described.length - Crc32.size ∧
      Example.described[117]? ≠ some 0 ∧
      let parsed := Event.parse o (Example.described.set 117 0)
      (∃ event, parsed.1 = .ok event ∧ event.crc32 = 0) ∧ parsed.2.checksum = false := by
  intro o
  exact ⟨Example.described_written, by decide, by decide, by decide, by decide +kernel,
    by decide +kernel, exists_of_map_toOption (by decide +kernel), by decide +kernel⟩

end BinaryLog
