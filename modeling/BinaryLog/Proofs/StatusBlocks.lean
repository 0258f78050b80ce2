/-
# BinaryLog.Proofs.StatusBlocks -- the status block of a query as it is written and read

The block is a row of entries.  An entry is a key and a value, and how far the value goes is told by
the key alone: it has so many bytes, or it is one or two strings behind their lengths, or it is a
number of strings that end with a zero byte each (`StatusVar.Stands`, `StatusVar.Kept`).  The reader
of one entry takes just that (`StatusVar.takes_read`), and so the reader of the block takes rows of
entries that fill it, and nothing else.

Nothing is lost: what is written for the entries is what was read, up to the bits of the flags that
mean nothing (`StatusVar.Stands.encode_eq`).  And nothing can be read in two ways: a value may look
like any other entry, since it is never looked at for one (`StatusVar.block_grammar`).
-/
import BinaryLog.Event.StatusVar
import BinaryLog.Proofs.Grammars

namespace BinaryLog.StatusVar

set_option autoImplicit false

open Wire Read

/-! ## Entries as they are written -/

/-- The keys of values that have a width, and that width. -/
def widths : List (UInt8 × Nat) :=
  [(0x03, 4), (0x07, 2), (0x08, 2), (0x09, 8), (0x0a, 4), (0x0d, 3), (0x0e, 1), (0x0f, 8),
    (0x10, 2), (0x11, 1), (0x12, 1)]

/-- A value that belongs to a key and is kept as it is. -/
inductive Kept : UInt8 → Bytes → Prop
  | fixed {key : UInt8} {value : Bytes} (listed : (key, value.length) ∈ widths) : Kept key value
  | string {key : UInt8} {s : Bytes} (keyed : key = 0x05 ∨ key = 0x06) (short : s.length ≤ 255) :
      Kept key (counted s)
  | terminated {s : Bytes} (short : s.length ≤ 255) (last : UInt8) : Kept 0x02 (counted s ++ [last])
  | pair {s t : Bytes} (short : s.length ≤ 255) (short' : t.length ≤ 255) :
      Kept 0x0b (counted s ++ counted t)

inductive Stands : StatusVar → Bytes → Prop
  | flags (bits : UInt32) : Stands (.flags (.truncate bits)) (0x00 :: Word.bytes bits)
  | sqlMode (mode : UInt64) : Stands (.sqlMode mode) (0x01 :: Word.bytes mode)
  | charset (client connection server : UInt16) : Stands (.charset client connection server)
      (0x04 :: (Word.bytes client ++ (Word.bytes connection ++ Word.bytes server)))
  | updatedDatabases {names : List Bytes} (few : names.length ≤ 255)
      (free : ∀ name ∈ names, 0 ∉ name) : Stands (.updatedDatabases names)
      (0x0c :: UInt8.ofNat names.length :: names.flatMap (· ++ [0]))
  | other {key : UInt8} {value : Bytes} (kept : Kept key value) :
      Stands (.other key value) (key :: value)

/-- An entry as it is written when flags without a meaning are left out. -/
def cleared : Bytes → Bytes
  | [] => []
  | key :: value =>
    key :: if key = 0x00 then Word.bytes ((Word.ofBytes value : UInt32) &&& 0x0c084000) else value

variable {v : StatusVar} {vars : List StatusVar} {key : UInt8} {value piece bs rest : Bytes}

theorem Stands.length_pos (stands : Stands v piece) : 0 < piece.length := by
  cases stands <;> exact Nat.succ_pos _

/-! ## Layouts -/

def Counted (part : Bytes) : Prop := ∃ s : Bytes, s.length ≤ 255 ∧ part = counted s

/-- The values of a layout. -/
def Layout.Holds : Layout → Bytes → Prop
  | .fixed n, value => value.length = n
  | .strings count terminated, value => ∃ (parts : List Bytes) (last : Bytes),
    parts.length = count ∧ (∀ part ∈ parts, Counted part) ∧
      last.length = (if terminated then 1 else 0) ∧ value = parts.flatten ++ last

theorem takes_readShort : readShort.Takes fun part lead => lead = part ∧ Counted part where
  reads := by
    rintro _ _ ⟨rfl, s, short, rfl⟩ rest
    exact bind_counted short _ rest
  allows := by
    intro bs rest part reads
    obtain ⟨n, mid, first, later⟩ := exists_of_bind_apply reads
    obtain ⟨s, mid', second, done⟩ := exists_of_bind_apply later
    cases done
    obtain ⟨whole, length⟩ := append_of_take second
    have short : s.length ≤ 255 := length ▸ Nat.le_of_lt_succ n.toNat_lt
    refine ⟨n :: s, ⟨rfl, s, short, ?_⟩, ?_⟩
    · rw [counted, length, UInt8.ofNat_toNat]
    · rw [← append_of_word first, ← whole, Word.bytes_octet]
      rfl

theorem takes_shorts (n : Nat) : (readShort.times n).Takes fun parts lead =>
    parts.length = n ∧ lead = parts.flatten ∧ ∀ part ∈ parts, Counted part := by
  refine (takes_readShort.times n).congr fun parts lead => ?_
  have row : InRow (fun part lead => lead = part ∧ Counted part) parts lead ↔
      lead = parts.flatMap (fun part => part) ∧ ∀ part ∈ parts, Counted part := inRow_iff
  rw [row, List.flatMap_id']

theorem takes_layout (l : Layout) :
    l.read.Takes fun value lead => lead = value ∧ l.Holds value := by
  cases l with
  | fixed n => exact takes_take n
  | strings count terminated =>
      refine Takes.atomically ⟨?_, ?_⟩
      · rintro _ _ ⟨rfl, parts, last, count, each, length, rfl⟩ rest
        have first := (takes_shorts _).reads ⟨count, rfl, each⟩ (last ++ rest)
        rw [List.append_assoc, bind_of_ok first, bind_of_ok (take_append length rest)]
        rfl
      · intro bs rest value reads
        obtain ⟨parts, mid, first, later⟩ := exists_of_bind_apply reads
        obtain ⟨last, mid', second, done⟩ := exists_of_bind_apply later
        cases done
        obtain ⟨_, ⟨count, rfl, each⟩, rfl⟩ := (takes_shorts count).allows first
        obtain ⟨whole, length⟩ := append_of_take second
        refine ⟨_, ⟨rfl, parts, last, count, each, length, rfl⟩, ?_⟩
        rw [← whole, List.append_assoc]

theorem Layout.Holds.exists_one {terminated : Bool}
    (holds : Layout.Holds (.strings 1 terminated) value) :
    ∃ s last : Bytes, s.length ≤ 255 ∧ last.length = (if terminated then 1 else 0) ∧
      value = counted s ++ last := by
  obtain ⟨parts, last, count, each, length, rfl⟩ := holds
  obtain ⟨part, rfl⟩ := List.length_eq_one_iff.1 count
  obtain ⟨s, short, rfl⟩ := each part (List.mem_singleton_self part)
  exact ⟨s, last, short, length, by rw [List.flatten_singleton]⟩

theorem kept_of_string (keyed : key = 0x05 ∨ key = 0x06)
    (holds : Layout.Holds (.strings 1 false) value) : Kept key value := by
  obtain ⟨s, last, short, length, rfl⟩ := holds.exists_one
  obtain rfl := List.length_eq_zero_iff.1 length
  rw [List.append_nil]
  exact .string keyed short

/-- The table of layouts says of each key how its values are written. -/
theorem kept_iff : Kept key value ↔ ∃ l, layout? key = some l ∧ l.Holds value := by
  constructor
  · intro kept
    cases kept with
    | fixed listed =>
        generalize length : value.length = n at listed
        simp only [widths, List.mem_cons, Prod.mk.injEq, List.not_mem_nil, or_false] at listed
        rcases listed with ⟨rfl, rfl⟩ | ⟨rfl, rfl⟩ | ⟨rfl, rfl⟩ | ⟨rfl, rfl⟩ | ⟨rfl, rfl⟩ |
          ⟨rfl, rfl⟩ | ⟨rfl, rfl⟩ | ⟨rfl, rfl⟩ | ⟨rfl, rfl⟩ | ⟨rfl, rfl⟩ | ⟨rfl, rfl⟩ <;>
          exact ⟨_, rfl, length⟩
    | @string key s keyed short =>
        have each : ∀ part ∈ [counted s], Counted part := by simpa using ⟨s, short, rfl⟩
        rcases keyed with rfl | rfl <;> exact ⟨_, rfl, _, [], rfl, each, rfl, by simp⟩
    | @terminated s short last =>
        have each : ∀ part ∈ [counted s], Counted part := by simpa using ⟨s, short, rfl⟩
        exact ⟨_, rfl, _, [last], rfl, each, rfl, by simp⟩
    | @pair s t short short' =>
        have each : ∀ part ∈ [counted s, counted t], Counted part := by
          simpa using ⟨⟨s, short, rfl⟩, t, short', rfl⟩
        exact ⟨_, rfl, _, [], rfl, each, rfl, by simp⟩
  · rintro ⟨l, known, holds⟩
    have fixed {key : UInt8} {n : Nat} (listed : (key, n) ∈ widths)
        (holds : Layout.Holds (.fixed n) value) : Kept key value := .fixed (holds ▸ listed)
    unfold layout? at known
    -- a case for each key of the table, in its order
    split at known <;> cases known
    · obtain ⟨s, last, short, length, rfl⟩ := holds.exists_one
      obtain ⟨last, rfl⟩ := List.length_eq_one_iff.1 length
      exact .terminated short last
    · exact fixed (by decide) holds
    · exact kept_of_string (.inl rfl) holds
    · exact kept_of_string (.inr rfl) holds
    · exact fixed (by decide) holds
    · exact fixed (by decide) holds
    · exact fixed (by decide) holds
    · exact fixed (by decide) holds
    · obtain ⟨parts, last, count, each, length, rfl⟩ := holds
      obtain ⟨part, part', rfl⟩ := List.length_eq_two.1 count
      obtain rfl := List.length_eq_zero_iff.1 length
      obtain ⟨s, short, rfl⟩ := each part (by simp)
      obtain ⟨t, short', rfl⟩ := each part' (by simp)
      have whole : [counted s, counted t].flatten ++ [] = counted s ++ counted t := by simp
      rw [whole]
      exact .pair short short'
    all_goals exact fixed (by decide) holds

/-! ## Entries -/

theorem takes_other {l : Layout} (known : layout? key = some l) :
    (other key <$> l.read).Takes fun v value => v = .other key value ∧ Kept key value where
  reads := by
    rintro _ value ⟨rfl, kept⟩ rest
    obtain ⟨l', known', holds⟩ := kept_iff.1 kept
    obtain rfl : l = l' := Option.some.inj (known.symm.trans known')
    rw [map_eq_bind, bind_of_ok ((takes_layout l).reads ⟨rfl, holds⟩ rest)]
    rfl
  allows := by
    intro bs rest v reads
    obtain ⟨value, inner, rfl⟩ := of_map reads
    obtain ⟨_, ⟨rfl, holds⟩, rfl⟩ := (takes_layout l).allows inner
    exact ⟨_, ⟨rfl, kept_iff.2 ⟨l, known, holds⟩⟩, rfl⟩

/-- The names, each of which ends with a zero byte. -/
theorem takes_names (n : Nat) :
    ((untilByte 0 false).times n).Takes fun names lead => names.length = n ∧
      lead = names.flatMap (· ++ [0]) ∧ ∀ name ∈ names, 0 ∉ name := by
  refine ((takes_untilByte 0).times n).congr fun names lead => ?_
  rw [inRow_iff]

/-- An entry is read where one stands. -/
theorem read_of_stands (stands : Stands v piece) (rest : Bytes) :
    read (piece ++ rest) = .ok v rest := by
  cases stands with
  | flags bits =>
      rw [List.cons_append, read, bind_of_ok (octet_cons _ _), readValue, if_pos rfl,
        bind_of_ok (word_append bits rest)]
      rfl
  | sqlMode mode =>
      rw [List.cons_append, read, bind_of_ok (octet_cons _ _), readValue, if_neg (by decide),
        if_pos rfl, map_eq_bind, bind_of_ok (word_append mode rest)]
      rfl
  | charset client connection server =>
      rw [List.cons_append, List.append_assoc, List.append_assoc, read,
        bind_of_ok (octet_cons _ _), readValue, if_neg (by decide), if_neg (by decide), if_pos rfl,
        bind_of_ok (word_append client _), bind_of_ok (word_append connection _),
        bind_of_ok (word_append server rest)]
      rfl
  | @updatedDatabases names few free =>
      have size : names.length = (UInt8.ofNat names.length).toNat :=
        (UInt8.toNat_ofNat_of_lt' (Nat.lt_succ_of_le few)).symm
      rw [List.cons_append, List.cons_append, read, bind_of_ok (octet_cons _ _), readValue,
        if_neg (by decide), if_neg (by decide), if_neg (by decide), if_pos rfl,
        bind_of_ok (octet_cons _ _), bind_of_ok ((takes_names _).reads ⟨size, rfl, free⟩ rest)]
      rfl
  | @other key value kept =>
      obtain ⟨l, known, holds⟩ := kept_iff.1 kept
      have undecoded {k : UInt8} (decoded : layout? k = none) : key ≠ k := by
        rintro rfl
        cases known.symm.trans decoded
      rw [List.cons_append, read, bind_of_ok (octet_cons _ _), readValue,
        if_neg (undecoded rfl), if_neg (undecoded rfl), if_neg (undecoded rfl),
        if_neg (undecoded rfl), known]
      exact (takes_other known).reads ⟨rfl, kept⟩ rest

/-- And nowhere else. -/
theorem exists_of_read (reads : read bs = .ok v rest) :
    ∃ piece, Stands v piece ∧ bs = piece ++ rest := by
  obtain ⟨key, mid, first, later⟩ := exists_of_bind_apply reads
  have front := append_of_word first
  rw [Word.bytes_octet, List.singleton_append] at front
  -- the keys that are decoded come first, in the order in which they are asked for
  unfold readValue at later
  split at later
  · rename_i keyed
    obtain ⟨bits, mid', second, done⟩ := exists_of_bind_apply later
    cases done
    exact ⟨_, .flags bits, by rw [← front, ← append_of_word second, keyed]; rfl⟩
  split at later
  · rename_i keyed
    obtain ⟨mode, second, rfl⟩ := of_map later
    exact ⟨_, .sqlMode mode, by rw [← front, ← append_of_word second, keyed]; rfl⟩
  split at later
  · rename_i keyed
    obtain ⟨client, mid₁, first, later⟩ := exists_of_bind_apply later
    obtain ⟨connection, mid₂, second, later⟩ := exists_of_bind_apply later
    obtain ⟨server, mid₃, third, done⟩ := exists_of_bind_apply later
    cases done
    refine ⟨_, .charset client connection server, ?_⟩
    rw [← front, ← append_of_word first, ← append_of_word second, ← append_of_word third, keyed,
      List.cons_append, List.append_assoc, List.append_assoc]
  split at later
  · rename_i keyed
    obtain ⟨count, mid', second, later⟩ := exists_of_bind_apply later
    obtain ⟨names, mid'', third, done⟩ := exists_of_bind_apply later
    cases done
    obtain ⟨_, ⟨length, rfl, free⟩, rfl⟩ := (takes_names _).allows third
    have few : names.length ≤ 255 := length ▸ Nat.le_of_lt_succ count.toNat_lt
    refine ⟨_, .updatedDatabases few free, ?_⟩
    rw [← front, ← append_of_word second, Word.bytes_octet, length, UInt8.ofNat_toNat, keyed]
    rfl
  cases known : layout? key with
  | none =>
      rw [known] at later
      cases later
  | some l =>
      rw [known] at later
      obtain ⟨value, ⟨rfl, kept⟩, rfl⟩ := (takes_other known).allows later
      exact ⟨_, .other kept, front.symm⟩

theorem takes_read : read.Takes Stands := ⟨read_of_stands, exists_of_read⟩

/-- What is written for an entry is what stood there, without the bits that mean nothing. -/
theorem Stands.encode_eq (stands : Stands v piece) : v.encode = cleared piece := by
  cases stands with
  | flags bits =>
      rw [encode, cleared, if_pos rfl, Word.ofBytes_bytes]
      rfl
  | sqlMode mode => rfl
  | charset client connection server => rfl
  | updatedDatabases few free => rfl
  | @other key value kept =>
      have decoded : key ≠ 0x00 := by
        rintro rfl
        obtain ⟨l, known, -⟩ := kept_iff.1 kept
        cases known
      rw [encode, cleared, if_neg decoded]

/-! ## Blocks -/

theorem flatMap_encode_eq {pieces : List Bytes} (row : List.Forall₂ Stands vars pieces) :
    vars.flatMap encode = (pieces.map cleared).flatten := by
  induction row with
  | nil => rfl
  | cons first later ih =>
      rw [List.flatMap_cons, first.encode_eq, ih, List.map_cons, List.flatten_cons]

/-- A block is read if it is a row of entries, and then to its end.  The row is cut in one way, it
comes back up to the flags without a meaning, and what stands behind it is read as by itself. -/
theorem block_grammar :
    (∀ {bs rest : Bytes} {vars : List StatusVar},
      readAll bs = .ok vars rest ↔ rest = [] ∧ InRow Stands vars bs) ∧
    (∀ {vars : List StatusVar} {pieces : List Bytes}, List.Forall₂ Stands vars pieces →
      vars.flatMap encode = (pieces.map cleared).flatten ∧
      ∀ {vars' : List StatusVar} {pieces' : List Bytes}, List.Forall₂ Stands vars' pieces' →
        pieces.flatten = pieces'.flatten → vars = vars' ∧ pieces = pieces') ∧
    (∀ {front rest : Bytes} {vars : List StatusVar}, readAll front = .ok vars rest →
      ∀ behind, readAll (front ++ behind) = ((vars ++ ·) <$> readAll) behind) := by
  have accepts {bs rest : Bytes} {vars : List StatusVar} :
      readAll bs = .ok vars rest ↔ rest = [] ∧ InRow Stands vars bs :=
    takes_read.all_eq_ok_iff Stands.length_pos
  refine ⟨accepts, ?_, ?_⟩
  · intro vars pieces row
    exact ⟨flatMap_encode_eq row, takes_read.row_unique Stands.length_pos row⟩
  · intro front rest vars reads behind
    obtain ⟨-, row⟩ := accepts.1 reads
    exact takes_read.all_append Stands.length_pos row behind

namespace Example

def entries : List StatusVar :=
  [.flags (.truncate 0xffffffff), .other 0x02 [0x02, 0x0c, 0x01, 0x04],
    .updatedDatabases [[0x61], []], .other 0x10 [0x00, 0x0c]]

def pieces : List Bytes :=
  [[0x00, 0xff, 0xff, 0xff, 0xff], [0x02, 0x02, 0x0c, 0x01, 0x04], [0x0c, 0x02, 0x61, 0x00, 0x00],
    [0x10, 0x00, 0x0c]]

theorem entries_stand : List.Forall₂ Stands entries pieces :=
  .cons (.flags 0xffffffff) <|
  .cons (.other (.terminated (s := [0x0c, 0x01]) (by decide) 0x04)) <|
  .cons (.updatedDatabases (by decide) (by decide)) <|
  .cons (.other (.fixed (by decide))) .nil

end Example

/-- Values that look like keys, and flags of which most mean nothing. -/
theorem block_grammar_of_lookalikes :
    readAll Example.pieces.flatten = .ok Example.entries [] ∧
      Example.entries.flatMap encode =
        [0x00, 0x00, 0x40, 0x08, 0x0c] ++ Example.pieces.tail.flatten ∧
      (∀ vars pieces, List.Forall₂ Stands vars pieces →
        Example.pieces.flatten = pieces.flatten →
          Example.entries = vars ∧ Example.pieces = pieces) ∧
      readAll (Example.pieces.flatten ++ [0x11, 0x0c]) =
        .ok (Example.entries ++ [.other 0x11 [0x0c]]) [] ∧
      readAll (Example.pieces.flatten ++ [0x13]) = .error (.violation (.statusVarKey 0x13)) [] := by
  obtain ⟨accepts, comesBack, inFront⟩ := block_grammar
  obtain ⟨written, oneWay⟩ := comesBack Example.entries_stand
  have reads := accepts.2 ⟨rfl, Example.pieces, Example.entries_stand, rfl⟩
  refine ⟨reads, written, fun vars pieces => oneWay, ?_, ?_⟩
  · rw [inFront reads]
    rfl
  · rw [inFront reads]
    rfl

end BinaryLog.StatusVar
