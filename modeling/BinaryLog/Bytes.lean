/-
# BinaryLog.Bytes -- byte strings and the little-endian words in them

A byte string is a list of octets.  Every number of the log format is written with its
least significant byte first, in a number of bytes that its type fixes.  `le w n` writes
the low `w` bytes of `n` and `ofLE` reads a byte string back as a number:

* `ofLE_le`: a number below `256 ^ w` comes back from its `w` bytes;
* `le_ofLE`: a byte string comes back from its number and its length;
* `ofLE_lt`: `w` bytes hold no number above `256 ^ w - 1`.

`Word` lists the unsigned types that fill a whole number of bytes, so that one codec
serves all of them: `Word.ofBytes_bytes` and `Word.bytes_ofBytes`.
-/

namespace BinaryLog

set_option autoImplicit false

-- A power of a number is the core library's, also where a monoid's power is at hand.
attribute [instance (20000), default_instance (20000)] instPowNat

abbrev Bytes := List UInt8

namespace Bytes

/-! ## Little-endian numbers -/

/-- The low `w` bytes of `n`, least significant first. -/
def le : Nat → Nat → Bytes
  | 0, _ => []
  | w + 1, n => UInt8.ofNat n :: le w (n / 256)

/-- The number whose bytes, least significant first, these are. -/
def ofLE : Bytes → Nat
  | [] => 0
  | b :: bs => b.toNat + 256 * ofLE bs

@[simp] theorem length_le (w n : Nat) : (le w n).length = w := by
  induction w generalizing n with
  | zero => rfl
  | succ w ih => simp [le, ih]

theorem ofLE_lt (bs : Bytes) : ofLE bs < 256 ^ bs.length := by
  induction bs with
  | nil => simp [ofLE]
  | cons b bs ih =>
    have hb := b.toNat_lt
    simp only [ofLE, List.length_cons, Nat.pow_succ]
    omega

theorem ofLE_le_mod (w n : Nat) : ofLE (le w n) = n % 256 ^ w := by
  induction w generalizing n with
  | zero => simp [le, ofLE, Nat.mod_one]
  | succ w ih =>
    have h : (UInt8.ofNat n).toNat = n % 256 := UInt8.toNat_ofNat'
    simp only [le, ofLE, ih, h]
    rw [Nat.pow_succ, Nat.mul_comm (256 ^ w) 256, Nat.mod_mul]

theorem ofLE_le {w n : Nat} (h : n < 256 ^ w) : ofLE (le w n) = n := by
  rw [ofLE_le_mod, Nat.mod_eq_of_lt h]

theorem le_ofLE (bs : Bytes) : le bs.length (ofLE bs) = bs := by
  induction bs with
  | nil => rfl
  | cons b bs ih =>
    have hb := b.toNat_lt
    have hd : (b.toNat + 256 * ofLE bs) / 256 = ofLE bs := by omega
    have hm : UInt8.ofNat (b.toNat + 256 * ofLE bs) = b := by
      apply UInt8.toNat_inj.1
      rw [UInt8.toNat_ofNat']
      omega
    simp only [List.length_cons, le, ofLE, hd, hm, ih]

/-! ## Hexadecimal text -/

/-- The digit of a value below sixteen, in lower case. -/
def hexDigit (n : Nat) : Char := Nat.digitChar n

/-- Two lower case digits for each byte. -/
def hex (bs : Bytes) : String :=
  bs.foldl (fun s b => (s.push (hexDigit (b.toNat / 16))).push (hexDigit (b.toNat % 16))) ""

end Bytes

/-! ## Words -/

/-- An unsigned integer type that fills exactly `width` bytes. -/
class Word (α : Type) where
  width : Nat
  toNat : α → Nat
  ofNat : Nat → α
  toNat_lt : ∀ x, toNat x < 256 ^ width
  ofNat_toNat : ∀ x, ofNat (toNat x) = x
  toNat_ofNat : ∀ n, n < 256 ^ width → toNat (ofNat n) = n

namespace Word

instance : Word UInt8 where
  width := 1
  toNat := UInt8.toNat
  ofNat := UInt8.ofNat
  toNat_lt x := x.toNat_lt
  ofNat_toNat _ := UInt8.ofNat_toNat
  toNat_ofNat _ h := UInt8.toNat_ofNat_of_lt' h

instance : Word UInt16 where
  width := 2
  toNat := UInt16.toNat
  ofNat := UInt16.ofNat
  toNat_lt x := x.toNat_lt
  ofNat_toNat _ := UInt16.ofNat_toNat
  toNat_ofNat _ h := UInt16.toNat_ofNat_of_lt' h

instance : Word UInt32 where
  width := 4
  toNat := UInt32.toNat
  ofNat := UInt32.ofNat
  toNat_lt x := x.toNat_lt
  ofNat_toNat _ := UInt32.ofNat_toNat
  toNat_ofNat _ h := UInt32.toNat_ofNat_of_lt' h

instance : Word UInt64 where
  width := 8
  toNat := UInt64.toNat
  ofNat := UInt64.ofNat
  toNat_lt x := x.toNat_lt
  ofNat_toNat _ := UInt64.ofNat_toNat
  toNat_ofNat _ h := UInt64.toNat_ofNat_of_lt' h

instance : Word (BitVec 24) where
  width := 3
  toNat := BitVec.toNat
  ofNat := BitVec.ofNat 24
  toNat_lt x := x.isLt
  ofNat_toNat x := BitVec.ofNat_toNat 24 x |>.trans (BitVec.setWidth_eq x)
  toNat_ofNat _ h := by simpa using h

instance : Word (BitVec 48) where
  width := 6
  toNat := BitVec.toNat
  ofNat := BitVec.ofNat 48
  toNat_lt x := x.isLt
  ofNat_toNat x := BitVec.ofNat_toNat 48 x |>.trans (BitVec.setWidth_eq x)
  toNat_ofNat _ h := by simpa using h

instance : Word (BitVec 128) where
  width := 16
  toNat := BitVec.toNat
  ofNat := BitVec.ofNat 128
  toNat_lt x := x.isLt
  ofNat_toNat x := BitVec.ofNat_toNat 128 x |>.trans (BitVec.setWidth_eq x)
  toNat_ofNat _ h := by simpa using h

variable {α : Type} [Word α]

/-- The bytes of a word, as many as its type has. -/
def bytes (x : α) : Bytes := Bytes.le (width α) (toNat x)

/-- The word with these bytes. -/
def ofBytes (bs : Bytes) : α := ofNat (Bytes.ofLE bs)

@[simp] theorem length_bytes (x : α) : (bytes x).length = width α :=
  Bytes.length_le ..

@[simp] theorem ofBytes_bytes (x : α) : ofBytes (bytes x) = x := by
  simp only [ofBytes, bytes, Bytes.ofLE_le (toNat_lt x), ofNat_toNat]

theorem bytes_ofBytes {bs : Bytes} (h : bs.length = width α) : bytes (ofBytes bs : α) = bs := by
  have hlt : Bytes.ofLE bs < 256 ^ width α := h ▸ Bytes.ofLE_lt bs
  simp only [ofBytes, bytes, toNat_ofNat _ hlt]
  rw [← h, Bytes.le_ofLE]

end Word

end BinaryLog
