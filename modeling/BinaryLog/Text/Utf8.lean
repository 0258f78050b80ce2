/-
# BinaryLog.Text.Utf8 -- text and its bytes, and where bytes stop being text

`encode` writes a text, `decode` reads one or says what is wrong.  Reading accepts exactly
what writing produces (`decode_eq_ok_iff`).  The fault names the index of the first sequence
that is no character:

* `invalid index length`: the `length` bytes at `index` start a character and the byte after
  them cannot continue it; a byte that starts no character at all counts as one;
* `incomplete index`: the bytes end inside a character that is well formed so far.
-/
import BinaryLog.Bytes

namespace BinaryLog.Text.Utf8

set_option autoImplicit false

/-! ## Faults -/

inductive Fault
  | invalid (index length : Nat)
  | incomplete (index : Nat)
deriving DecidableEq, Repr

def Fault.message : Fault → String
  | .invalid i k => s!"invalid utf-8 sequence of {k} bytes from index {i}"
  | .incomplete i => s!"incomplete utf-8 byte sequence from index {i}"

/-! ## The shape of one character -/

/-- The range of second bytes that a first byte admits, and how many bytes follow in all. -/
def continuation (lead : UInt8) : Option (UInt8 × UInt8 × Nat) :=
  if 0xc2 ≤ lead ∧ lead ≤ 0xdf then some (0x80, 0xbf, 1)
  else if lead = 0xe0 then some (0xa0, 0xbf, 2)
  else if lead = 0xed then some (0x80, 0x9f, 2)
  else if 0xe1 ≤ lead ∧ lead ≤ 0xef then some (0x80, 0xbf, 2)
  else if lead = 0xf0 then some (0x90, 0xbf, 3)
  else if 0xf1 ≤ lead ∧ lead ≤ 0xf3 then some (0x80, 0xbf, 3)
  else if lead = 0xf4 then some (0x80, 0x8f, 3)
  else none

/-- The first fault at or after `index`, where the bytes up to `start` are whole characters.
`owed` bytes of the character at `start` are still to come, the next of them in `low..high`. -/
def scan (start index : Nat) (low high : UInt8) : Nat → Bytes → Option Fault
  | 0, [] => none
  | _ + 1, [] => some (.incomplete start)
  | 0, b :: bs =>
    if b < 0x80 then scan (index + 1) (index + 1) 0x80 0xbf 0 bs
    else match continuation b with
      | some (lo, hi, owed) => scan index (index + 1) lo hi owed bs
      | none => some (.invalid index 1)
  | owed + 1, b :: bs =>
    if low ≤ b ∧ b ≤ high then
      scan (if owed = 0 then index + 1 else start) (index + 1) 0x80 0xbf owed bs
    else some (.invalid start (index - start))

/-- The first fault of these bytes, if they are no text. -/
def fault? (bs : Bytes) : Option Fault := scan 0 0 0x80 0xbf 0 bs

/-! ## Reading and writing -/

def encode (s : String) : Bytes := s.toByteArray.data.toList

def decode (bs : Bytes) : Except Fault String :=
  match String.fromUTF8? (ByteArray.mk bs.toArray) with
  | some s => .ok s
  | none => .error ((fault? bs).getD (.incomplete bs.length))

theorem decode_encode (s : String) : decode (encode s) = .ok s := by
  have h : String.fromUTF8? (ByteArray.mk (encode s).toArray) = some s := by
    rw [encode, Array.toArray_toList, String.fromUTF8?]
    exact dif_pos s.isValidUTF8
  simp only [decode, h]

theorem encode_of_decode {bs : Bytes} {s : String} (h : decode bs = .ok s) : encode s = bs := by
  unfold decode String.fromUTF8? at h
  split at h
  · next t ht =>
    split at ht
    · cases h
      cases ht
      simp [encode, String.fromUTF8]
    · simp at ht
  · simp at h

/-- Reading accepts exactly the written form of a text. -/
theorem decode_eq_ok_iff {bs : Bytes} {s : String} : decode bs = .ok s ↔ encode s = bs :=
  ⟨encode_of_decode, fun h => h ▸ decode_encode s⟩

end BinaryLog.Text.Utf8
