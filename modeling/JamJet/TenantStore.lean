import JamJet.Projector
import JamJet.Statement
import JamJet.ToolEffects

/-! The database as several tenants share it: every row carries its tenant, and the keys and
constraints of each table are those of the schema, with or without the tenant in them. -/

namespace JamJet

abbrev TenantId := String

/-- A row with its `tenant_id` column. -/
structure Owned (α : Type) where
  tenantId : TenantId
  row : α

def Owned.map {α : Type} (f : α → α) (x : Owned α) : Owned α := { x with row := f x.row }

structure WorkflowDefinition where
  workflowId : String
  version : String
  ir : Json
  createdAt : Instant

structure WorkflowExecution where
  executionId : ExecutionId
  workflowId : String
  workflowVersion : String
  status : WorkflowStatus
  initialInput : Json
  currentState : Json
  startedAt : Instant
  updatedAt : Instant
  completedAt : Option Instant
  parentExecutionId : Option ExecutionId
  segmentNumber : ℕ

namespace WorkflowExecution

/-- The end of a run; a completion time already there is kept. -/
def finish (status : WorkflowStatus) (now : Instant) (x : WorkflowExecution) : WorkflowExecution :=
  { x with
    status := status
    updatedAt := now
    completedAt := x.completedAt.or (some now) }

/-- A bare change of status. -/
def setStatus (status : WorkflowStatus) (now : Instant) (x : WorkflowExecution) :
    WorkflowExecution :=
  { x with
    status := status
    updatedAt := now
    completedAt := (if status.isTerminal then some now else none).or x.completedAt }

def setCurrentState (state : Json) (now : Instant) (x : WorkflowExecution) : WorkflowExecution :=
  { x with currentState := state, updatedAt := now }

end WorkflowExecution

structure EventRow where
  id : ℕ
  executionId : ExecutionId
  sequence : EventSequence
  kind : EventKind
  createdAt : Instant

structure SnapshotRecord extends SnapshotRow where
  id : ℕ
  createdAt : Instant

structure StoredArtifact where
  hash : String
  bytes : String
  mediaType : Option String
  createdAt : Instant

structure ApiTokenRow where
  id : ℕ
  tokenHash : String
  name : String
  role : String
  createdAt : Instant
  expiresAt : Option Instant := none
  lastUsedAt : Option Instant := none
  revokedAt : Option Instant := none

structure CheckpointRow where
  projectionName : String
  executionId : ExecutionId
  lastSequence : EventSequence
  updatedAt : Instant

inductive TableName
  | workflows
  | executions
  | events
  | snapshots
  | toolEffects
  | toolReservations
  | artifacts
  | workItems
  | deadLetters
  | tokens
  | approvals
  | checkpoints
  deriving DecidableEq, Repr

namespace TableName

abbrev Row : TableName → Type
  | .workflows => WorkflowDefinition
  | .executions => WorkflowExecution
  | .events => EventRow
  | .snapshots => SnapshotRecord
  | .toolEffects => ToolEffectRow
  | .toolReservations => ToolReservationRow
  | .artifacts => StoredArtifact
  | .workItems => WorkItemRow
  | .deadLetters => DeadLetterRow
  | .tokens => ApiTokenRow
  | .approvals => ApprovalProjectionRow
  | .checkpoints => CheckpointRow

abbrev Key : TableName → Type
  | .workflows => TenantId × String × String
  | .executions => ExecutionId
  | .events | .snapshots | .tokens => ℕ
  | .toolEffects => String
  | .toolReservations | .artifacts => TenantId × String
  | .workItems | .deadLetters => WorkItemId
  | .approvals => ExecutionId × NodeId
  | .checkpoints => String × ExecutionId

instance (n : TableName) : DecidableEq n.Key :=
  match n with
  | .workflows => inferInstanceAs (DecidableEq (TenantId × String × String))
  | .executions => inferInstanceAs (DecidableEq ExecutionId)
  | .events | .snapshots | .tokens => inferInstanceAs (DecidableEq ℕ)
  | .toolEffects => inferInstanceAs (DecidableEq String)
  | .toolReservations | .artifacts => inferInstanceAs (DecidableEq (TenantId × String))
  | .workItems | .deadLetters => inferInstanceAs (DecidableEq WorkItemId)
  | .approvals => inferInstanceAs (DecidableEq (ExecutionId × NodeId))
  | .checkpoints => inferInstanceAs (DecidableEq (String × ExecutionId))

/-- `PRIMARY KEY`. -/
def key : (n : TableName) → Owned n.Row → n.Key
  | .workflows, x => (x.tenantId, x.row.workflowId, x.row.version)
  | .executions, x => x.row.executionId
  | .events, x => x.row.id
  | .snapshots, x => x.row.id
  | .toolEffects, x => x.row.idempotencyKey
  | .toolReservations, x => (x.tenantId, x.row.idempotencyKey)
  | .artifacts, x => (x.tenantId, x.row.hash)
  | .workItems, x => x.row.id
  | .deadLetters, x => x.row.id
  | .tokens, x => x.row.id
  | .approvals, x => (x.row.executionId, x.row.nodeId)
  | .checkpoints, x => (x.row.projectionName, x.row.executionId)

/-- Whether two rows agree on the columns of a `UNIQUE` constraint. -/
def unique : (n : TableName) → Owned n.Row → Owned n.Row → Bool
  | .events, x, y => x.row.executionId = y.row.executionId ∧ x.row.sequence = y.row.sequence
  | .snapshots, x, y => x.row.executionId = y.row.executionId ∧ x.row.atSequence = y.row.atSequence
  | .tokens, x, y => x.row.tokenHash = y.row.tokenHash
  | _, _, _ => false

/-- Whether `tenant_id` references the tenants. -/
def referencesTenant : TableName → Bool
  | .workflows | .executions | .events | .snapshots | .workItems | .deadLetters | .tokens => true
  | _ => false

/-- The execution a row references. -/
def execution? : (n : TableName) → n.Row → Option ExecutionId
  | .events, r => some r.executionId
  | .snapshots, r => some r.executionId
  | .workItems, r => some r.executionId
  | .deadLetters, r => some r.executionId
  | _, _ => none

end TableName

structure TenantDb where
  table : (n : TableName) → Table n.Key (Owned n.Row) n.key := fun _ => .empty
  tenants : List TenantId
  term : ℤ := 0

/-- The database, and an observer's note of whose rows a conflict clause replaced or updated. -/
structure TenantSys where
  db : TenantDb
  overwritten : List TenantId := []

namespace TenantDb

variable (db : TenantDb)

def setTable (n : TableName) (t : Table n.Key (Owned n.Row) n.key) : TenantDb :=
  { db with table := Function.update db.table n t }

/-- `.. WHERE tenant_id = ?`. -/
def owned (tenant : TenantId) (n : TableName) : List n.Row :=
  ((db.table n).rows.filter fun x => x.tenantId = tenant).map (·.row)

def foreignKeysHold (n : TableName) (x : Owned n.Row) : Bool :=
  (!n.referencesTenant || x.tenantId ∈ db.tenants) &&
    (n.execution? x.row).all fun e => ((db.table .executions).find? e).isSome

/-- The rows an `INSERT` of the row conflicts with. -/
def conflicts (n : TableName) (x : Owned n.Row) : List (Owned n.Row) :=
  (db.table n).rows.filter fun y => n.key y = n.key x ∨ n.unique y x

/-- `MAX(sequence)` over the rows of an execution, whosever they are. -/
def maxSequence (e : ExecutionId) : EventSequence :=
  ((db.table .events).rows.filter fun x => x.row.executionId = e).foldr
    (fun x n => max x.row.sequence n) 0

end TenantDb

abbrev Sql (α : Type) : Type := Statement BackendError TenantSys α

namespace Sql

variable (n : TableName)

/-- A `SELECT`, with whatever is computed from it. -/
def select {α : Type} (f : TenantDb → α) : Sql α := .read fun s => f s.db

@[simp]
theorem select_bind {α β : Type} (f : TenantDb → α) (g : α → Sql β) (s : TenantSys) :
    (select f >>= g) s = g (f s.db) s := rfl

/-- `INSERT`. -/
def insert (x : Owned n.Row) : Sql Unit := fun s =>
  match (s.db.table n).insert? x with
  | none => (.error Db.uniqueError, s)
  | some t =>
      if (s.db.table n).rows.any (n.unique · x) then (.error Db.uniqueError, s)
      else if s.db.foreignKeysHold n x then (.ok (), { s with db := s.db.setTable n t })
      else (.error Db.foreignKeyError, s)

theorem insert_reply {n : TableName} {x : Owned n.Row} {s : TenantSys} :
    (insert n x s).1 = .ok () ↔ (s.db.table n).find? (n.key x) = none ∧
      (s.db.table n).rows.any (n.unique · x) = false ∧ s.db.foreignKeysHold n x = true := by
  unfold insert Table.insert?
  by_cases hfree : (s.db.table n).find? (n.key x) = none
  · rw [dif_pos hfree]
    dsimp only
    cases hunique : (s.db.table n).rows.any (n.unique · x) with
    | true => simp
    | false => by_cases hkeys : s.db.foreignKeysHold n x = true <;> simp [hfree, hkeys]
  · simp [hfree]

/-- `INSERT OR IGNORE`, or `ON CONFLICT DO NOTHING`: whether a row was inserted. -/
def insertOrIgnore (x : Owned n.Row) : Sql Bool := fun s =>
  if (s.db.conflicts n x).isEmpty then
    match insert n x s with
    | (.ok (), s') => (.ok true, s')
    | (.error err, s') => (.error err, s')
  else (.ok false, s)

/-- `INSERT OR REPLACE`: every row in conflict makes way. -/
def insertOrReplace (x : Owned n.Row) : Sql Unit := fun s =>
  if s.db.foreignKeysHold n x then
    (.ok (),
      { db := s.db.setTable n (((s.db.table n).restrict fun y => !n.unique y x).put x)
        overwritten := s.overwritten ++ (s.db.conflicts n x).map (·.tenantId) })
  else (.error Db.foreignKeyError, s)

/-- `INSERT .. ON CONFLICT (key) DO UPDATE SET .. WHERE ..`: whether a row was affected. -/
def upsert (x : Owned n.Row) (guard : n.Row → Bool) (set : n.Row → n.Row)
    (hset : ∀ y : Owned n.Row, n.key (y.map set) = n.key y) : Sql Bool := fun s =>
  match (s.db.table n).find? (n.key x) with
  | some y =>
      if guard y.row then
        (.ok true,
          { db := s.db.setTable n ((s.db.table n).update (n.key x) (fun _ => true) (Owned.map set) hset)
            overwritten := s.overwritten ++ [y.tenantId] })
      else (.ok false, s)
  | none =>
      match insert n x s with
      | (.ok (), s') => (.ok true, s')
      | (.error err, s') => (.error err, s')

/-- `UPDATE .. WHERE key = k AND guard`, whosever the row is: whether a row was affected. -/
def updateAny (k : n.Key) (guard : Owned n.Row → Bool) (set : n.Row → n.Row)
    (hset : ∀ y : Owned n.Row, n.key (y.map set) = n.key y) : Sql Bool := fun s =>
  (.ok ((s.db.table n).hits k guard),
    { s with db := s.db.setTable n ((s.db.table n).update k guard (Owned.map set) hset) })

/-- `UPDATE .. WHERE key = k AND tenant_id = ? AND guard`. -/
def update (tenant : TenantId) (k : n.Key) (guard : n.Row → Bool) (set : n.Row → n.Row)
    (hset : ∀ y : Owned n.Row, n.key (y.map set) = n.key y) : Sql Bool :=
  updateAny n k (fun y => y.tenantId = tenant && guard y.row) set hset

/-- `DELETE .. WHERE key = k AND tenant_id = ? AND guard`. -/
def delete (tenant : TenantId) (k : n.Key) (guard : n.Row → Bool) : Sql Unit := fun s =>
  (.ok (),
    { s with db := s.db.setTable n ((s.db.table n).delete k fun y => y.tenantId = tenant && guard y.row) })

end Sql

end JamJet
