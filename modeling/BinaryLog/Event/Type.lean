/-
# BinaryLog.Event.Type -- the types of events and their codes

Every event names its type by one byte.  The codes 0 to 41 are assigned; any other code is
`invalid`, whose own code is 99.  `ofCode_code`: a type comes back from its code, so no two
types share one.
-/

namespace BinaryLog

set_option autoImplicit false

inductive EventType
  | unknown
  | startV3
  | query
  | stop
  | rotate
  | intvar
  | load
  | slave
  | createFile
  | appendBlock
  | execLoad
  | deleteFile
  | newLoad
  | rand
  | userVar
  | formatDescription
  | xid
  | beginLoadQuery
  | executeLoadQuery
  | tableMap
  | writeRowsV0
  | updateRowsV0
  | deleteRowsV0
  | writeRowsV1
  | updateRowsV1
  | deleteRowsV1
  | incident
  | heartbeat
  | ignorable
  | rowsQuery
  | writeRows
  | updateRows
  | deleteRows
  | gtid
  | anonymousGtid
  | previousGtids
  | transactionContext
  | viewChange
  | xaPrepare
  | partialUpdateRows
  | transactionPayload
  | heartbeatV2
  | invalid
deriving DecidableEq, Repr

namespace EventType

def ofCode : UInt8 → EventType
  | 0 => unknown
  | 1 => startV3
  | 2 => query
  | 3 => stop
  | 4 => rotate
  | 5 => intvar
  | 6 => load
  | 7 => slave
  | 8 => createFile
  | 9 => appendBlock
  | 10 => execLoad
  | 11 => deleteFile
  | 12 => newLoad
  | 13 => rand
  | 14 => userVar
  | 15 => formatDescription
  | 16 => xid
  | 17 => beginLoadQuery
  | 18 => executeLoadQuery
  | 19 => tableMap
  | 20 => writeRowsV0
  | 21 => updateRowsV0
  | 22 => deleteRowsV0
  | 23 => writeRowsV1
  | 24 => updateRowsV1
  | 25 => deleteRowsV1
  | 26 => incident
  | 27 => heartbeat
  | 28 => ignorable
  | 29 => rowsQuery
  | 30 => writeRows
  | 31 => updateRows
  | 32 => deleteRows
  | 33 => gtid
  | 34 => anonymousGtid
  | 35 => previousGtids
  | 36 => transactionContext
  | 37 => viewChange
  | 38 => xaPrepare
  | 39 => partialUpdateRows
  | 40 => transactionPayload
  | 41 => heartbeatV2
  | _ => invalid

def code : EventType → UInt8
  | unknown => 0
  | startV3 => 1
  | query => 2
  | stop => 3
  | rotate => 4
  | intvar => 5
  | load => 6
  | slave => 7
  | createFile => 8
  | appendBlock => 9
  | execLoad => 10
  | deleteFile => 11
  | newLoad => 12
  | rand => 13
  | userVar => 14
  | formatDescription => 15
  | xid => 16
  | beginLoadQuery => 17
  | executeLoadQuery => 18
  | tableMap => 19
  | writeRowsV0 => 20
  | updateRowsV0 => 21
  | deleteRowsV0 => 22
  | writeRowsV1 => 23
  | updateRowsV1 => 24
  | deleteRowsV1 => 25
  | incident => 26
  | heartbeat => 27
  | ignorable => 28
  | rowsQuery => 29
  | writeRows => 30
  | updateRows => 31
  | deleteRows => 32
  | gtid => 33
  | anonymousGtid => 34
  | previousGtids => 35
  | transactionContext => 36
  | viewChange => 37
  | xaPrepare => 38
  | partialUpdateRows => 39
  | transactionPayload => 40
  | heartbeatV2 => 41
  | invalid => 99

/-- The name of the type in messages. -/
def name : EventType → String
  | unknown => "Unknown"
  | startV3 => "StartEventV3"
  | query => "QueryEvent"
  | stop => "StopEvent"
  | rotate => "RotateEvent"
  | intvar => "IntvarEvent"
  | load => "LoadEvent"
  | slave => "SlaveEvent"
  | createFile => "CreateFileEvent"
  | appendBlock => "AppendBlockEvent"
  | execLoad => "ExecLoadEvent"
  | deleteFile => "DeleteFileEvent"
  | newLoad => "NewLoadEvent"
  | rand => "RandEvent"
  | userVar => "UserVarEvent"
  | formatDescription => "FormatDescriptionEvent"
  | xid => "XidEvent"
  | beginLoadQuery => "BeginLoadQueryEvent"
  | executeLoadQuery => "ExecuteLoadQueryEvent"
  | tableMap => "TableMapEvent"
  | writeRowsV0 => "WriteRowsEventV0"
  | updateRowsV0 => "UpdateRowsEventV0"
  | deleteRowsV0 => "DeleteRowsEventV0"
  | writeRowsV1 => "WriteRowsEventV1"
  | updateRowsV1 => "UpdateRowsEventV1"
  | deleteRowsV1 => "DeleteRowsEventV1"
  | incident => "IncidentEvent"
  | heartbeat => "HeartbeatLogEvent"
  | ignorable => "IgnorableLogEvent"
  | rowsQuery => "RowsQueryLogEvent"
  | writeRows => "WriteRowsEventV2"
  | updateRows => "UpdateRowsEventV2"
  | deleteRows => "DeleteRowsEventV2"
  | gtid => "GtidLogEvent"
  | anonymousGtid => "AnonymousGtidLogEvent"
  | previousGtids => "PreviousGtidsLogEvent"
  | transactionContext => "TransactionContextEvent"
  | viewChange => "ViewChangeEvent"
  | xaPrepare => "XaPrepareLogEvent"
  | partialUpdateRows => "PartialUpdateRowsEvent"
  | transactionPayload => "TransactionPayloadEvent"
  | heartbeatV2 => "HeartbeatLogEventV2"
  | invalid => "Invalid"

theorem ofCode_code (t : EventType) : ofCode t.code = t := by
  cases t <;> rfl

end EventType

end BinaryLog
