/-
# BinaryLog.Wire.Packed -- integers and strings that say how long they are

A packed integer is one byte below 251, or a marker byte and then two, three or eight bytes.
Two more markers stand for "no value" and "error".  The form read is kept, so that writing
it gives the very bytes that were read (`encode_of_read`), and `ofUInt64` picks the
shortest form of a number.

A packed string is a packed length and as many bytes, or one of the two markers.
-/
import BinaryLog.Wire.Read

namespace BinaryLog.Wire

set_option autoImplicit false

inductive PackedInt
  | null
  | error
  | one (n : UInt8)
  | two (n : UInt16)
  | three (n : BitVec 24)
  | eight (n : UInt64)
deriving DecidableEq, Repr

namespace PackedInt

def toUInt64? : PackedInt → Option UInt64
  | null => none
  | error => none
  | one n => some n.toUInt64
  | two n => some n.toUInt64
  | three n => some (.ofNat n.toNat)
  | eight n => some n

/-- The number of bytes of the written form. -/
def width : PackedInt → Nat
  | null => 1
  | error => 1
  | one _ => 1
  | two _ => 3
  | three _ => 4
  | eight _ => 9

/-- The shortest form of a number. -/
def ofUInt64 (n : UInt64) : PackedInt :=
  if n < 0xfb then one n.toUInt8
  else if n ≤ 0xffff then two n.toUInt16
  else if n ≤ 0xffffff then three (.ofNat 24 n.toNat)
  else eight n

def ofNat (n : Nat) : PackedInt := ofUInt64 (.ofNat n)

/-- The shortest form of a number of at most eight bytes. -/
def ofWord {α : Type} [Word α] (n : α) : PackedInt := ofNat (Word.toNat n)

def encode : PackedInt → Bytes
  | null => [0xfb]
  | error => [0xff]
  | one n => [n]
  | two n => 0xfc :: Word.bytes n
  | three n => 0xfd :: Word.bytes n
  | eight n => 0xfe :: Word.bytes n

/-- A marker byte, which is not looked at, and the word behind it.  Nothing is taken unless
all of it is there. -/
def marked (α : Type) [Word α] : Read α :=
  (fun bs => Word.ofBytes bs.tail) <$> Read.take (1 + Word.width α)

def read : Read PackedInt := do
  let lead ← Read.peek
  if lead = 0xfc then two <$> marked UInt16
  else if lead = 0xfd then three <$> marked (BitVec 24)
  else if lead = 0xfe then eight <$> marked UInt64
  else
    let _ ← Read.take 1
    return if lead = 0xfb then null else if lead = 0xff then error else one lead

@[simp] theorem length_encode (v : PackedInt) : v.encode.length = v.width := by
  cases v <;> simp [encode, width, Word.width]

theorem append_of_marked {α : Type} [Word α] {b : UInt8} {bs r : Bytes} {x : α}
    (h : marked α (b :: bs) = .ok x r) : Word.bytes x ++ r = bs := by
  obtain ⟨front, ht, rfl⟩ := Read.of_map h
  obtain ⟨happ, hlen⟩ := Read.append_of_take ht
  cases front with
  | nil => rw [List.length_nil] at hlen; omega
  | cons lead w =>
    have hw : w.length = Word.width α := by rw [List.length_cons] at hlen; omega
    rw [List.cons_append, List.cons.injEq] at happ
    rw [List.tail_cons, Word.bytes_ofBytes hw, happ.2]

theorem encode_of_read {bs r : Bytes} {v : PackedInt} (h : read bs = .ok v r) :
    v.encode ++ r = bs := by
  cases bs with
  | nil => cases h
  | cons b bs =>
    simp only [read, Read.peek, bind, EStateM.bind] at h
    by_cases h16 : b = 0xfc
    · rw [if_pos h16] at h
      obtain ⟨x, hx, rfl⟩ := Read.of_map h
      rw [← append_of_marked hx, h16]; rfl
    rw [if_neg h16] at h
    by_cases h24 : b = 0xfd
    · rw [if_pos h24] at h
      obtain ⟨x, hx, rfl⟩ := Read.of_map h
      rw [← append_of_marked hx, h24]; rfl
    rw [if_neg h24] at h
    by_cases h64 : b = 0xfe
    · rw [if_pos h64] at h
      obtain ⟨x, hx, rfl⟩ := Read.of_map h
      rw [← append_of_marked hx, h64]; rfl
    rw [if_neg h64] at h
    cases h
    by_cases hn : b = 0xfb
    · rw [if_pos hn, hn]; rfl
    rw [if_neg hn]
    by_cases he : b = 0xff
    · rw [if_pos he, he]; rfl
    rw [if_neg he]; rfl

end PackedInt

/-- A packed integer that has a value. -/
def Read.packed64 : Read UInt64 := do
  match ← PackedInt.read with
  | .null => .fail .nullInteger
  | .error => .fail .errorInteger
  | .one n => return n.toUInt64
  | .two n => return n.toUInt64
  | .three n => return .ofNat n.toNat
  | .eight n => return n

/-- A packed integer that has a value below `2 ^ 32`. -/
def Read.packed32 : Read UInt32 := do
  let n ← packed64
  if n < 0x100000000 then return n.toUInt32 else .fail (.integerTooWide n)

inductive PackedString
  | null
  | error
  | bytes (content : Bytes)
deriving DecidableEq, Repr

namespace PackedString

def encode : PackedString → Bytes
  | null => PackedInt.encode .null
  | error => PackedInt.encode .error
  | bytes content => (PackedInt.ofNat content.length).encode ++ content

def read : Read PackedString := Read.atomically do
  match ← PackedInt.read with
  | .null => return null
  | .error => return error
  | n => bytes <$> Read.take (n.toUInt64?.getD 0).toNat

/-- Reads a string and gives its text; a marker has none. -/
def readText : Read (Option String) := do
  match ← read with
  | bytes content => some <$> Read.text content
  | _ => return none

end PackedString

end BinaryLog.Wire
