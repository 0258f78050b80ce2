/-
# BinaryLog.Event.TableMap -- which table the row events that follow belong to

The event binds a number to a table.  Its payload names the table and lists, column by
column, the type, the type's parameters and whether the column may be null; it is decoded
on demand and written by `TableMap.encode`.  What servers append behind the null bitmap
is passed over.
-/
import BinaryLog.Bitmap
import BinaryLog.Error
import BinaryLog.Wire.Packed

namespace BinaryLog

set_option autoImplicit false

open Wire

structure TableMap where
  schemaName : String
  tableName : String
  columnTypes : Bytes
  columnMeta : Bytes
  nullBitmap : Bytes
deriving DecidableEq, Repr

namespace TableMap

def columnCount (t : TableMap) : Nat := t.columnTypes.length

def nullable (t : TableMap) (i : Nat) : Bool := Bitmap.get t.nullBitmap i

/-- A name as long as its length byte says, and the byte that ends it. -/
def readName : Read Bytes := do
  let length ← Read.word UInt8
  let name ← Read.take length.toNat
  let _ ← Read.take 1
  return name

/-- The parts of a payload, names still as bytes. -/
structure Parts where
  schemaName : Bytes
  tableName : Bytes
  columnTypes : Bytes
  columnMeta : Bytes
  nullBitmap : Bytes
deriving DecidableEq, Repr

def readParts : Read Parts := do
  let schemaName ← readName
  let tableName ← readName
  let count ← Read.packed64
  let columnTypes ← Read.take count.toNat
  let metaLength ← PackedInt.read
  match metaLength.toUInt64? with
  | none => .fail .columnMetaLength
  | some length =>
    let columnMeta ← Read.take length.toNat
    let nullBitmap ← Read.take (Bitmap.size count.toNat)
    return { schemaName, tableName, columnTypes, columnMeta, nullBitmap }

def ofParts (p : Parts) : Except Error TableMap := do
  let schemaName ← (Text.Utf8.decode p.schemaName).mapError .notUtf8
  let tableName ← (Text.Utf8.decode p.tableName).mapError .notUtf8
  return { schemaName, tableName, columnTypes := p.columnTypes, columnMeta := p.columnMeta,
           nullBitmap := p.nullBitmap }

def encodeName (name : String) : Except Violation Bytes :=
  let bs := Text.Utf8.encode name
  if bs.length ≤ 255 then .ok (UInt8.ofNat bs.length :: (bs ++ [0]))
  else .error (.nameTooLong bs.length)

/-- The payload that carries the table. -/
def encode (t : TableMap) : Except Violation Bytes := do
  let schemaName ← encodeName t.schemaName
  let tableName ← encodeName t.tableName
  return schemaName ++ (tableName ++ ((PackedInt.ofNat t.columnTypes.length).encode ++
    (t.columnTypes ++ ((PackedInt.ofNat t.columnMeta.length).encode ++
      (t.columnMeta ++ t.nullBitmap)))))

end TableMap

structure TableMapEvent where
  tableId : BitVec 48
  flags : UInt16
  payload : Bytes
deriving DecidableEq, Repr

namespace TableMapEvent

def read : Read TableMapEvent := do
  let tableId ← Read.word (BitVec 48)
  let flags ← Read.word UInt16
  let payload ← Read.rest
  return { tableId, flags, payload }

def encode (e : TableMapEvent) : Bytes :=
  Word.bytes e.tableId ++ (Word.bytes e.flags ++ e.payload)

/-- The table that the payload describes. -/
def table (e : TableMapEvent) : Except Error TableMap := do
  let parts ← (TableMap.readParts.value e.payload).mapError .parse
  TableMap.ofParts parts

end TableMapEvent

end BinaryLog
