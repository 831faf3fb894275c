import JamJet.AuditEntry
import JamJet.SqlText
import JamJet.Table

/-! The audit log in its table: how entries are written and read back, and what a query with
filters sees of them. -/

namespace JamJet

/-- `serde_json::from_str`. -/
class JsonText where
  fromStr : String → Except String { v : Json // v.Held }

inductive AuditError
  | database (message : String)
  | serialization (message : String)
  deriving DecidableEq, Repr

/-- A row of `audit_log`. -/
structure AuditRow where
  id : Uuid
  eventId : Uuid
  executionId : String
  sequence : Int64
  eventType : String
  actorId : String
  actorType : String
  toolCallHash : Option String
  policyDecision : Option String
  httpRequestId : Option String
  httpMethod : Option String
  httpPath : Option String
  ipAddress : Option String
  createdAt : String
  rawEvent : String
  tenantId : String
  expiresAt : Option String
  redacted : Int32
  prevHash : Option String
  entryHash : Option String
  signature : Option String

abbrev AuditTable := Table Uuid AuditRow AuditRow.id

def parseActorType : String → ActorType
  | "human" => .human
  | "agent" => .agent
  | _ => .system

def AuditLogEntry.toRow [FloatText] [Rfc3339] (e : AuditLogEntry) : AuditRow where
  id := e.id
  eventId := e.eventId
  executionId := e.executionId
  sequence := e.sequence
  eventType := e.eventType
  actorId := e.actorId
  actorType := e.actorType.asStr
  toolCallHash := e.toolCallHash
  policyDecision := e.policyDecision
  httpRequestId := e.httpRequestId
  httpMethod := e.httpMethod
  httpPath := e.httpPath
  ipAddress := e.ipAddress
  createdAt := Rfc3339.text e.createdAt
  rawEvent := Hashing.canonicalJson e.rawEvent
  tenantId := e.tenantId
  expiresAt := e.expiresAt.map Rfc3339.text
  redacted := if e.redacted then 1 else 0
  prevHash := e.prevHash
  entryHash := e.entryHash
  signature := e.signature

/-- `row_to_entry`: an expiry that does not read is dropped. -/
def AuditRow.toEntry [Rfc3339] [JsonText] (row : AuditRow) : Except AuditError AuditLogEntry := do
  let raw ← (JsonText.fromStr row.rawEvent).mapError .serialization
  let createdAt ← (Rfc3339.parse row.createdAt).mapError .serialization
  return {
    id := row.id
    eventId := row.eventId
    executionId := row.executionId
    sequence := row.sequence
    eventType := row.eventType
    actorId := row.actorId
    actorType := parseActorType row.actorType
    toolCallHash := row.toolCallHash
    policyDecision := row.policyDecision
    httpRequestId := row.httpRequestId
    httpMethod := row.httpMethod
    httpPath := row.httpPath
    ipAddress := row.ipAddress
    createdAt := createdAt
    rawEvent := raw.val
    rawEvent_held := raw.property
    tenantId := row.tenantId
    expiresAt := row.expiresAt.bind fun s => (Rfc3339.parse s).toOption
    redacted := row.redacted != 0
    prevHash := row.prevHash
    entryHash := row.entryHash
    signature := row.signature }

/-- The columns a filter names. -/
def AuditRow.column : String → Option (AuditRow → String)
  | "created_at" => some AuditRow.createdAt
  | "actor_id" => some AuditRow.actorId
  | "event_type" => some AuditRow.eventType
  | "execution_id" => some AuditRow.executionId
  | "tenant_id" => some AuditRow.tenantId
  | _ => none

structure AuditQuery where
  from_ : Option Instant := none
  to_ : Option Instant := none
  actorId : Option String := none
  eventType : Option String := none
  executionId : Option String := none
  tenantId : Option String := none
  limit : UInt32 := 0
  offset : UInt32 := 0

/-- `AuditQuery::new`. -/
def AuditQuery.new : AuditQuery := { limit := 50 }

namespace AuditQuery

/-- The columns and values of the filters on texts, in the order they are appended. -/
def texts (q : AuditQuery) : List (String × Option String) :=
  [("actor_id", q.actorId), ("event_type", q.eventType), ("execution_id", q.executionId),
    ("tenant_id", q.tenantId)]

def filters [Rfc3339] (q : AuditQuery) : List SqlText.Filter :=
  (q.from_.map fun t => ⟨"created_at", .ge, Rfc3339.text t⟩).toList ++
    ((q.to_.map fun t => ⟨"created_at", .le, Rfc3339.text t⟩).toList ++
      q.texts.flatMap fun kv => (kv.2.map fun v => ⟨kv.1, .eq, v⟩).toList)

/-- What an entry has to be for the query. -/
def Matches (q : AuditQuery) (e : AuditLogEntry) : Bool :=
  q.from_.all (· ≤ e.createdAt) && q.to_.all (e.createdAt ≤ ·) && q.actorId.all (· = e.actorId) &&
    q.eventType.all (· = e.eventType) && q.executionId.all (· = e.executionId) &&
    q.tenantId.all (· = e.tenantId)

end AuditQuery

/-- `SqliteAuditBackend`: a connection to the database. -/
structure SqliteAuditBackend where
  sqlite : SqlText.Driver AuditRow

namespace SqliteAuditBackend

variable [Rfc3339] (backend : SqliteAuditBackend)

def query [JsonText] (q : AuditQuery) (table : AuditTable) :
    Except AuditError (List AuditLogEntry) := do
  let sql := SqlText.rowsText "audit_log" q.filters "created_at" q.limit.toNat q.offset.toNat
  let rows ← (backend.sqlite.rows sql table.rows).mapError .database
  rows.mapM AuditRow.toEntry

def count (q : AuditQuery) (table : AuditTable) : Except AuditError ℕ :=
  (backend.sqlite.count (SqlText.countText "audit_log" q.filters) table.rows).mapError .database

/-- `INSERT OR IGNORE`: an entry with the same id is kept. -/
def append [FloatText] (entry : AuditLogEntry) (table : AuditTable) : AuditTable :=
  (table.insert? entry.toRow).getD table

end SqliteAuditBackend

end JamJet
