/-
# BinaryLog.Buffer -- how much a read asks for

A reader that does not know how much will come keeps it in a buffer that grows.  Every read asks
for what the buffer has room for.  When the buffer is full for the first time, a small read finds
out whether it has to grow at all.
-/

namespace BinaryLog

set_option autoImplicit false

structure Buffer where
  length : Nat
  capacity : Nat
  /-- Whether a small read comes before the buffer grows. -/
  probes : Bool
deriving DecidableEq, Repr

namespace Buffer

/-- A buffer that holds `length` bytes; one that is full at once grows without more ado. -/
def new (length capacity : Nat) : Buffer where
  length
  capacity
  probes := length < capacity

/-- The size of a small read, and the least room that a buffer grows by. -/
def probe : Nat := 32

/-- The capacity for at least `length` bytes when the present one is too small. -/
def grow (capacity length : Nat) : Nat := max (2 * capacity) (max length 8)

/-- The capacity for the next read. -/
def nextCapacity (b : Buffer) : Nat :=
  if b.length < b.capacity ∨ b.probes then b.capacity else grow b.capacity (b.length + probe)

/-- How many bytes the next read asks for. -/
def ask (b : Buffer) : Nat :=
  if b.length < b.capacity ∨ ¬ b.probes then b.nextCapacity - b.length else probe

/-- The buffer after a read that brought `got` bytes. -/
def took (b : Buffer) (got : Nat) : Buffer :=
  let length := b.length + got
  let capacity := b.nextCapacity
  { length
    capacity := if capacity < length then grow capacity length else capacity
    probes := b.probes && b.length < b.capacity }

end Buffer

/-- How a reader takes what comes. -/
inductive Intake
  /-- Every read asks for all that is still wanted. -/
  | exact
  /-- Every read asks for what a growing buffer has room for. -/
  | growing (buffer : Buffer)
deriving DecidableEq, Repr

namespace Intake

/-- How many bytes the next read asks for when `want` more are wanted. -/
def ask (want : Nat) : Intake → Nat
  | exact => want
  | growing buffer => min want buffer.ask

/-- The intake after a read that brought `got` bytes. -/
def took (got : Nat) : Intake → Intake
  | exact => exact
  | growing buffer => growing (buffer.took got)

end Intake

end BinaryLog
