/-
# BinaryLog.Event.Query -- a statement and the state it ran in

The post header holds the lengths of the status block and of the schema name, so a query
can only be written if these agree with the parts (`encode`).  The status block is decoded
on demand.
-/
import BinaryLog.Event.StatusVar

namespace BinaryLog

set_option autoImplicit false

open Wire

structure Query where
  proxyId : UInt32
  executionTime : UInt32
  schemaLength : UInt8
  errorCode : UInt16
  statusVarsLength : UInt16
  statusVars : Bytes
  schema : Bytes
  statement : Bytes
deriving DecidableEq, Repr

namespace Query

/-- A query without status variables. -/
def new (schema statement : Bytes) : Query where
  proxyId := 0
  executionTime := 0
  schemaLength := .ofNat schema.length
  errorCode := 0
  statusVarsLength := 0
  statusVars := []
  schema := schema
  statement := statement

/-- The entries of the status block. -/
def vars (q : Query) : Except ReadError (List StatusVar) := StatusVar.readAll.value q.statusVars

def read : Read Query := do
  let proxyId ← Read.word UInt32
  let executionTime ← Read.word UInt32
  let schemaLength ← Read.word UInt8
  let errorCode ← Read.word UInt16
  let statusVarsLength ← Read.word UInt16
  let statusVars ← Read.take statusVarsLength.toNat
  let schema ← Read.take schemaLength.toNat
  let _ ← Read.take 1
  let statement ← Read.rest
  return { proxyId, executionTime, schemaLength, errorCode, statusVarsLength,
           statusVars, schema, statement }

def encode (q : Query) : Except Violation Bytes :=
  if q.schema.length = q.schemaLength.toNat ∧ q.statusVars.length = q.statusVarsLength.toNat then
    .ok (Word.bytes q.proxyId ++ (Word.bytes q.executionTime ++ (Word.bytes q.schemaLength ++
      (Word.bytes q.errorCode ++ (Word.bytes q.statusVarsLength ++ (q.statusVars ++
        (q.schema ++ ([0] ++ q.statement))))))))
  else .error (.inconsistentQuery q.schemaLength q.statusVarsLength)

end Query

end BinaryLog
