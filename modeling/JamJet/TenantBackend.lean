import JamJet.ConditionNode
import JamJet.TenantStore

/-! The tenant-scoped backend: the operations of the SQLite backend with the tenant in their
statements, each as the statements it executes. -/

namespace JamJet

/-- An event as it is handed to the backend, its sequence still to be assigned. -/
structure NewEvent where
  id : ℕ
  executionId : ExecutionId
  kind : EventKind
  createdAt : Instant

/-- What a token says about its bearer. -/
structure ApiToken where
  id : ℕ
  name : String
  role : String
  createdAt : Instant
  expiresAt : Option Instant
  tenantId : TenantId
  deriving DecidableEq, Repr

def ApiToken.ofRow (x : Owned ApiTokenRow) : ApiToken where
  id := x.row.id
  name := x.row.name
  role := x.row.role
  createdAt := x.row.createdAt
  expiresAt := x.row.expiresAt
  tenantId := x.tenantId

/-- The same debug text as the source's `{status:?}`. -/
def WorkflowStatus.debugText : WorkflowStatus → String
  | .pending => "Pending"
  | .running => "Running"
  | .paused => "Paused"
  | .completed => "Completed"
  | .failed => "Failed"
  | .cancelled => "Cancelled"
  | .limitExceeded => "LimitExceeded"

namespace EventRow

def toEvent (r : EventRow) : Event := ⟨r.sequence, r.kind⟩

def completes (nodeId : NodeId) (r : EventRow) : Bool :=
  match r.kind with
  | .nodeCompleted node _ => node = nodeId
  | _ => false

/-- `ORDER BY sequence ASC`. -/
def inOrder (rows : List EventRow) : List EventRow :=
  rows.insertionSort fun a b => a.sequence ≤ b.sequence

end EventRow

namespace TenantDb

variable (db : TenantDb) (tenant : TenantId)

def getWorkflow (workflowId version : String) : Option WorkflowDefinition :=
  (db.owned tenant .workflows).find? fun d => d.workflowId = workflowId ∧ d.version = version

def getExecution (e : ExecutionId) : Option WorkflowExecution :=
  (db.owned tenant .executions).find? fun x => x.executionId = e

def executionTenant (e : ExecutionId) : Option TenantId :=
  (db.getExecution tenant e).map fun _ => tenant

/-- The status of the tenant's execution when it is terminal. -/
def terminalStatus (e : ExecutionId) : Option WorkflowStatus :=
  ((db.getExecution tenant e).map (·.status)).filter WorkflowStatus.isTerminal

/-- `ORDER BY updated_at DESC LIMIT .. OFFSET ..` -/
def listExecutions (status : Option WorkflowStatus) (limit offset : ℕ) : List WorkflowExecution :=
  ((((db.owned tenant .executions).filter fun x => status.all (x.status = ·)).insertionSort
    fun a b => b.updatedAt ≤ a.updatedAt).drop offset).take limit

def getEvents (e : ExecutionId) : List EventRow :=
  EventRow.inOrder ((db.owned tenant .events).filter fun r => r.executionId = e)

def getEventsSince (e : ExecutionId) (sinceSequence : EventSequence) : List EventRow :=
  EventRow.inOrder ((db.owned tenant .events).filter fun r =>
    r.executionId = e ∧ sinceSequence < r.sequence)

def latestSequence (e : ExecutionId) : EventSequence :=
  ((db.owned tenant .events).filter fun r => r.executionId = e).foldr
    (fun r n => max r.sequence n) 0

/-- `ORDER BY at_sequence DESC LIMIT 1`. -/
def latestSnapshot (e : ExecutionId) : Option SnapshotRecord :=
  (((db.owned tenant .snapshots).filter fun s => s.executionId = e).insertionSort
    fun a b => b.atSequence ≤ a.atSequence).head?

def getToolEffect (key : String) : Option Json :=
  ((db.owned tenant .toolEffects).find? fun r => r.idempotencyKey = key).map (·.resultJson)

def getArtifact (hash : String) : Option String :=
  ((db.owned tenant .artifacts).find? fun r => r.hash = hash).map (·.bytes)

def countNodeCompletions (e : ExecutionId) (nodeId : NodeId) : ℕ :=
  ((db.owned tenant .events).filter fun r => r.executionId = e ∧ r.completes nodeId).length

def getWorkItem (id : WorkItemId) : Option WorkItemRow :=
  (db.owned tenant .workItems).find? fun r => r.id = id

def getApprovalProjection (e : ExecutionId) : List ApprovalProjectionRow :=
  ((db.owned tenant .approvals).filter fun r => r.executionId = e).insertionSort
    fun a b => a.nodeId ≤ b.nodeId

def getProjectorCheckpoint (projectionName : String) (e : ExecutionId) : EventSequence :=
  (((db.owned tenant .checkpoints).find? fun r =>
    r.projectionName = projectionName ∧ r.executionId = e).map (·.lastSequence)).getD 0

/-- Whosever the token is. -/
def tokenRow (tokenHash : String) (now : Instant) : Option (Owned ApiTokenRow) :=
  (db.table .tokens).rows.find? fun x =>
    x.row.tokenHash = tokenHash ∧ x.row.revokedAt = none ∧ x.row.expiresAt.all (now < ·)

end TenantDb

/-- The operations that only read, by the type of their reply. -/
inductive ScopedRead : Type → Type
  | getWorkflow (workflowId version : String) : ScopedRead (Option WorkflowDefinition)
  | getExecution (e : ExecutionId) : ScopedRead (Option WorkflowExecution)
  | executionTenant (e : ExecutionId) : ScopedRead (Option TenantId)
  | listExecutions (status : Option WorkflowStatus) (limit offset : ℕ) :
      ScopedRead (List WorkflowExecution)
  | getEvents (e : ExecutionId) : ScopedRead (List EventRow)
  | getEventsSince (e : ExecutionId) (sinceSequence : EventSequence) : ScopedRead (List EventRow)
  | latestSequence (e : ExecutionId) : ScopedRead EventSequence
  | latestSnapshot (e : ExecutionId) : ScopedRead (Option SnapshotRecord)
  | getToolEffect (key : String) : ScopedRead (Option Json)
  | getArtifact (hash : String) : ScopedRead (Option String)
  | countNodeCompletions (e : ExecutionId) (nodeId : NodeId) : ScopedRead ℕ
  | getWorkItem (id : WorkItemId) : ScopedRead (Option WorkItemRow)
  | getApprovalProjection (e : ExecutionId) : ScopedRead (List ApprovalProjectionRow)
  | getProjectorCheckpoint (projectionName : String) (e : ExecutionId) : ScopedRead EventSequence

def ScopedRead.exec {β : Type} (r : ScopedRead β) (tenant : TenantId) (db : TenantDb) : β :=
  match r with
  | .getWorkflow workflowId version => db.getWorkflow tenant workflowId version
  | .getExecution e => db.getExecution tenant e
  | .executionTenant e => db.executionTenant tenant e
  | .listExecutions status limit offset => db.listExecutions tenant status limit offset
  | .getEvents e => db.getEvents tenant e
  | .getEventsSince e sinceSequence => db.getEventsSince tenant e sinceSequence
  | .latestSequence e => db.latestSequence tenant e
  | .latestSnapshot e => db.latestSnapshot tenant e
  | .getToolEffect key => db.getToolEffect tenant key
  | .getArtifact hash => db.getArtifact tenant hash
  | .countNodeCompletions e nodeId => db.countNodeCompletions tenant e nodeId
  | .getWorkItem id => db.getWorkItem tenant id
  | .getApprovalProjection e => db.getApprovalProjection tenant e
  | .getProjectorCheckpoint projectionName e => db.getProjectorCheckpoint tenant projectionName e

namespace Scoped

open Statement

variable (tenant : TenantId)

/-! Events -/

/-- Inside the caller's transaction: the next sequence of the execution over all tenants. -/
def insertEvent (event : NewEvent) : Sql EventSequence := do
  let sequence ← Sql.select fun db => db.maxSequence event.executionId + 1
  Sql.insert .events ⟨tenant,
    { id := event.id
      executionId := event.executionId
      sequence := sequence
      kind := event.kind
      createdAt := event.createdAt }⟩
  return sequence

def appendEvent (event : NewEvent) : Sql EventSequence := atomically (insertEvent tenant event)

/-- The log is read whole, across tenants; its last entry has the largest sequence. -/
def appendEventIf (event : NewEvent) (condition : List Event → Bool) : Sql ConditionalAppend :=
  atomically do
    match ← Sql.select fun db => db.getExecution tenant event.executionId with
    | none => fail (.notFound event.executionId)
    | some x =>
        if x.status.isTerminal then return .executionTerminal x.status
        else
          let log ← Sql.select fun db => EventRow.inOrder
            (((db.table .events).rows.map (·.row)).filter fun r => r.executionId = event.executionId)
          if condition (log.map EventRow.toEvent) then
            let sequence ← insertEvent tenant event
            return .appended sequence
          else return .refused

def finishExecution (event : NewEvent) (status : WorkflowStatus) (now : Instant) :
    Sql ExecutionFinish :=
  if !status.isTerminal then
    fail (.database ("finish_execution requires a terminal status, got " ++ status.debugText))
  else atomically do
    match ← Sql.select fun db => db.terminalStatus tenant event.executionId with
    | some prior => return .alreadyTerminal prior
    | none =>
        let found ← Sql.update .executions tenant event.executionId (fun _ => true)
          (WorkflowExecution.finish status now) (fun _ => rfl)
        if found then
          let sequence ← insertEvent tenant event
          return .finished sequence
        else fail (.notFound event.executionId)

/-! Workflow definitions and executions -/

/-- A version is immutable: a conflicting row is compared, not overwritten. -/
def storeWorkflow [FloatText] (sha256Hex : String → String) (definition : WorkflowDefinition) :
    Sql Unit := do
  let conflict := BackendError.versionConflict (definition.workflowId ++ " v" ++
    definition.version ++ "; register a new version instead")
  let inserted ← Sql.insertOrIgnore .workflows ⟨tenant, definition⟩
  if inserted then return ()
  else
    match ← Sql.select fun db => db.getWorkflow tenant definition.workflowId definition.version with
    | none => fail conflict
    | some stored =>
        if Hashing.contentHash sha256Hex stored.ir = Hashing.contentHash sha256Hex definition.ir then
          return ()
        else fail conflict

def createExecution (execution : WorkflowExecution) : Sql Unit :=
  Sql.insert .executions ⟨tenant, execution⟩

def updateExecutionStatus (e : ExecutionId) (status : WorkflowStatus) (now : Instant) : Sql Unit := do
  let found ← Sql.update .executions tenant e (fun _ => true)
    (WorkflowExecution.setStatus status now) (fun _ => rfl)
  if found then return () else fail (.notFound e)

def updateExecutionCurrentState (e : ExecutionId) (state : Json) (now : Instant) : Sql Unit := do
  let _ ← Sql.update .executions tenant e (fun _ => true)
    (WorkflowExecution.setCurrentState state now) (fun _ => rfl)
  return ()

def patchAppendArray (e : ExecutionId) (key : String) (value : Json) (now : Instant) : Sql Unit := do
  match ← Sql.select fun db => db.getExecution tenant e with
  | none => fail (.notFound e)
  | some x =>
      match x.currentState with
      | .object fields =>
          match (BTree.get fields key).getD (.array []) with
          | .array items =>
              updateExecutionCurrentState tenant e
                (.object (BTree.insert fields key (.array (items ++ [value])))) now
          | _ => fail (.database (key ++ " is not an array"))
      | _ => fail (.database "state is not a JSON object")

/-! Snapshots and the start of a run -/

def writeSnapshot (snapshot : SnapshotRecord) : Sql Unit :=
  Sql.insertOrReplace .snapshots ⟨tenant, snapshot⟩

/-- The seed of a continuation segment, under the new execution's id. -/
def writeSeed (e : ExecutionId) : Option SnapshotRecord → Sql Unit
  | some snapshot => writeSnapshot tenant { snapshot with executionId := e }
  | none => pure ()

/-- `create_run_in`, for a segment with a seed and for a fresh run. -/
def createRun (execution : WorkflowExecution) (seedSnapshot : Option SnapshotRecord)
    (startedEvent scheduledEvent : EventKind) (eventIds : ℕ × ℕ) (itemId : WorkItemId)
    (workItem : NewWorkItem) (now : Instant) : Sql Unit :=
  atomically do
    Sql.insert .executions ⟨tenant, execution⟩
    writeSeed tenant execution.executionId seedSnapshot
    let _ ← insertEvent tenant ⟨eventIds.1, execution.executionId, startedEvent, now⟩
    let _ ← insertEvent tenant ⟨eventIds.2, execution.executionId, scheduledEvent, now⟩
    Sql.insert .workItems ⟨tenant, workItem.toRow itemId now⟩

/-! Tool effects and artifacts -/

def releaseToolReservation (key : String) (owner : WorkerId) (fence : ℤ) : Sql Unit :=
  Sql.delete .toolReservations tenant (tenant, key) fun r => r.owner = owner ∧ r.leaseFence = fence

def reserveToolEffect (key : String) (e : ExecutionId) (node : NodeId) (owner : WorkerId)
    (fence : ℤ) (ttl : ℕ) (now : Instant) : Sql ReserveOutcome := do
  let expiresAt := after now ttl
  let acquired ← Sql.upsert .toolReservations ⟨tenant, ⟨key, e, node, owner, fence, expiresAt, now⟩⟩
    (fun r => r.expiresAt ≤ now ∨ r.owner = owner)
    (fun r => { r with owner := owner, leaseFence := fence, expiresAt := expiresAt, reservedAt := now })
    (fun _ => rfl)
  if acquired then return .acquired
  else
    match ← Sql.select fun db =>
        (db.owned tenant .toolReservations).find? fun r => r.idempotencyKey = key with
    | some r => return .held r.owner r.expiresAt
    | none => return .held "unknown" now

def putArtifact (sha256Hex : String → String) (bytes : String) (mediaType : Option String)
    (now : Instant) : Sql ArtifactRef := do
  let hash := sha256Hex bytes
  let _ ← Sql.insertOrIgnore .artifacts ⟨tenant, ⟨hash, bytes, mediaType, now⟩⟩
  match ← Sql.select fun db => (db.owned tenant .artifacts).find? fun r => r.hash = hash with
  | some r => return ⟨hash, bytes.utf8ByteSize, r.mediaType⟩
  | none =>
      fail (.database "no rows returned by a query that expected to return at least one row")

/-! Work items -/

def enqueueWorkItem (id : WorkItemId) (item : NewWorkItem) (createdAt : Instant) :
    Sql WorkItemId := do
  Sql.insert .workItems ⟨tenant, item.toRow id createdAt⟩
  return id

/-- The item's status after its lease ran out, or nothing when its attempts are spent. -/
def expireOne (eventIds : WorkItemId → ℕ × ℕ) (now : Instant) (item : WorkItemRow) : Sql Unit := do
  -- the join reads the execution whosever it is, and the updates go by the id alone
  let execution ← Sql.select fun db => (db.table .executions).find? item.executionId
  if execution.any fun x => x.row.status.isTerminal then
    let _ ← Sql.updateAny .workItems item.id (fun x => x.row.isClaimed) WorkItemRow.fail (fun _ => rfl)
    return ()
  else if item.attempt + 1 ≥ item.maxAttempts then return ()
  else
    let requeued ← Sql.updateAny .workItems item.id (fun x => x.row.isClaimed) WorkItemRow.expire
      (fun _ => rfl)
    if requeued then
      let _ ← insertEvent tenant
        ⟨(eventIds item.id).1, item.executionId, (Db.leaseExpiryEvents item).1, now⟩
      let _ ← insertEvent tenant
        ⟨(eventIds item.id).2, item.executionId, (Db.leaseExpiryEvents item).2, now⟩
      return ()
    else return ()

def expireStaleLeases (eventIds : WorkItemId → ℕ × ℕ) (now : Instant) : Sql Unit :=
  atomically do
    let rows ← Sql.select fun db =>
      (db.owned tenant .workItems).filter (WorkItemRow.leaseExpired now)
    forEach (expireOne tenant eventIds now) rows

def claimWorkItemWithLease (worker : WorkerId) (queueTypes : List String) (leaseSecs : Option ℕ)
    (eventIds : WorkItemId → ℕ × ℕ) (now : Instant) : Sql (Option WorkItemRow) := do
  if queueTypes.isEmpty then return none
  else
    expireStaleLeases tenant eventIds now
    atomically do
      let leaseLen := grantedLeaseSecs leaseSecs
      let term ← Sql.select (·.term)
      match ← Sql.select fun db =>
          Db.oldest ((db.owned tenant .workItems).filter (Db.claimable queueTypes now)) with
      | none => return none
      | some item =>
          let _ ← Sql.updateAny .workItems item.id (fun _ => true)
            (WorkItemRow.claim term worker leaseLen now) (fun _ => rfl)
          return some (item.claim term worker leaseLen now)

/-- The lease length is read whosever the item is. -/
def renewHeldLease (id : WorkItemId) (worker : WorkerId) (fence : ℤ) (now : Instant) : Sql Bool := do
  let leaseLen ← Sql.select fun db =>
    (((db.table .workItems).find? id).bind (·.row.leaseSecs)).getD defaultLeaseSecs
  Sql.update .workItems tenant id (Db.renewable worker fence) (WorkItemRow.renew leaseLen now)
    (fun _ => rfl)

def renewLease (id : WorkItemId) (worker : WorkerId) (fence : ℤ) (now : Instant) : Sql Unit := do
  let held ← renewHeldLease tenant id worker fence now
  if held then return () else fail (.fenceLost id)

def reattachLease (id : WorkItemId) (worker : WorkerId) (lostFence : ℤ) (now : Instant) :
    Sql LeaseRenewal :=
  atomically do
    let term ← Sql.select (·.term)
    match ← Sql.select fun db =>
        (db.owned tenant .workItems).find? fun r => r.id = id ∧ r.reattachable worker lostFence with
    | none => fail (.fenceLost id)
    | some r =>
        let reattached ← Sql.update .workItems tenant id
          (fun r => r.status = .pending ∧ r.workerId = none) (WorkItemRow.reattach term worker now)
          (fun _ => rfl)
        if reattached then return ⟨mintFence term (r.leaseEpoch + 1), true⟩
        else fail (.fenceLost id)

def heartbeatLease (id : WorkItemId) (worker : WorkerId) (fence : ℤ) (now : Instant) :
    Sql LeaseRenewal := do
  let held ← renewHeldLease tenant id worker fence now
  if held then return ⟨fence, false⟩ else reattachLease tenant id worker fence now

def completeWorkItem (id : WorkItemId) (now : Instant) : Sql Unit := do
  let found ← Sql.update .workItems tenant id (fun _ => true) (WorkItemRow.complete now) (fun _ => rfl)
  if found then return () else fail (.notFound id)

def completeWorkItemFenced (id : WorkItemId) (fence : ℤ) (now : Instant) : Sql Bool :=
  Sql.update .workItems tenant id (WorkItemRow.claimedUnder fence) (WorkItemRow.complete now)
    (fun _ => rfl)

def failWorkItem (id : WorkItemId) : Sql Unit := do
  let found ← Sql.update .workItems tenant id (fun _ => true) WorkItemRow.fail (fun _ => rfl)
  if found then return () else fail (.notFound id)

def failWorkItemFenced (id : WorkItemId) (fence : ℤ) (error : String) (now : Instant) :
    Sql (Option FailOutcome) :=
  atomically do
    match ← Sql.select fun db =>
        (db.owned tenant .workItems).find? fun r => r.id = id ∧ r.claimedUnder fence with
    | none => return none
    | some item =>
        let newAttempt := item.attempt + 1
        if newAttempt ≥ item.maxAttempts then
          let settled ← Sql.update .workItems tenant id (WorkItemRow.claimedUnder fence)
            (WorkItemRow.deadLetter newAttempt) (fun _ => rfl)
          if settled then
            let _ ← Sql.insertOrIgnore .deadLetters ⟨tenant, item.toDeadLetter newAttempt error now⟩
            return some (.exhausted { item with attempt := newAttempt })
          else return none
        else
          let released ← Sql.update .workItems tenant id (WorkItemRow.claimedUnder fence)
            (WorkItemRow.release newAttempt (after now (backoffSecs newAttempt))) (fun _ => rfl)
          if released then
            return some (.retryable { item with attempt := newAttempt } (backoffSecs newAttempt * 1000))
          else return none

def parkWorkItem (id : WorkItemId) (fence : ℤ) (retryAfter : Instant) (nextAttempt : ℕ) : Sql Bool :=
  Sql.update .workItems tenant id (WorkItemRow.claimedUnder fence)
    (WorkItemRow.release nextAttempt retryAfter) (fun _ => rfl)

def withdrawWorkItemFenced (id : WorkItemId) (fence : ℤ) : Sql Bool :=
  Sql.update .workItems tenant id (WorkItemRow.claimedUnder fence) WorkItemRow.fail (fun _ => rfl)

def finalizeRolloverFenced (e : ExecutionId) (id : WorkItemId) (fence : ℤ) (now : Instant) :
    Sql Bool :=
  atomically do
    let settled ← Sql.update .workItems tenant id (fun r => r.leaseFence = fence)
      (WorkItemRow.complete now) (fun _ => rfl)
    if settled then
      let _ ← Sql.update .executions tenant e (fun x => !x.status.isTerminal)
        (WorkflowExecution.finish .limitExceeded now) (fun _ => rfl)
      return true
    else return false

/-- The sweep of one row it selected, by statements of its own. -/
def reclaimRow (now : Instant) (item : WorkItemRow) : Sql (Option (Bool × WorkItemRow)) := do
  let newAttempt := item.attempt + 1
  let item' := { item with attempt := newAttempt }
  if newAttempt ≥ item.maxAttempts then
    let settled ← Sql.update .workItems tenant item.id WorkItemRow.isClaimed
      (WorkItemRow.deadLetter newAttempt) (fun _ => rfl)
    if settled then
      let _ ← Sql.insertOrIgnore .deadLetters
        ⟨tenant, item.toDeadLetter newAttempt "lease expired: worker dead" now⟩
      return some (true, item')
    else return none
  else
    let requeued ← Sql.update .workItems tenant item.id WorkItemRow.isClaimed
      (WorkItemRow.sweepRequeue newAttempt (after now (backoffSecs newAttempt))) (fun _ => rfl)
    if requeued then return some (false, item') else return none

def reclaimExpiredLeases (now : Instant) : Sql Scheduler.ReclaimResult := do
  let rows ← Sql.select fun db =>
    ((db.owned tenant .workItems).filter (WorkItemRow.leaseExpired now)).insertionSort
      fun a b => a.createdAt ≤ b.createdAt
  let reclaimed ← collect (reclaimRow tenant now) rows
  return ⟨(reclaimed.filter fun r => !r.1).map (·.2), (reclaimed.filter (·.1)).map (·.2)⟩

def moveToDeadLetter (id : WorkItemId) (lastError : String) (now : Instant) : Sql Unit := do
  match ← Sql.select fun db => db.getWorkItem tenant id with
  | none => fail (.notFound id)
  | some item =>
      Sql.insertOrReplace .deadLetters ⟨tenant, item.toDeadLetter item.attempt lastError now⟩
      let _ ← Sql.update .workItems tenant id (fun _ => true)
        (fun r => r.deadLetter r.attempt) (fun _ => rfl)
      return ()

/-! Committed turns -/

/-- What a turn's snapshot starts from: the latest one, or else the execution's input. -/
def turnBase (latest : Option SnapshotRecord) (execution : Option WorkflowExecution) :
    Option (Materializer.MaterializedState × EventSequence) :=
  match latest with
  | some snap => some
      ({ currentState := snap.state
         status := snap.status
         completedNodes := snap.completedNodes
         activeNodes := snap.activeNodes
         lastSequence := snap.lastSequence }, snap.atSequence)
  | none => execution.map fun x => (Materializer.ofInitialInput x.initialInput, 0)

def insertTurnSnapshot (e : ExecutionId) (snapshotId : ℕ) (now : Instant)
    (base : Materializer.MaterializedState × EventSequence) : Sql Unit := do
  let tail ← Sql.select fun db => (db.getEventsSince tenant e base.2).map EventRow.toEvent
  let mat := Materializer.applyEventsSeeded base.1 tail
  Sql.insertOrReplace .snapshots ⟨tenant,
    { id := snapshotId
      executionId := e
      atSequence := mat.lastSequence
      state := mat.currentState
      status := mat.status
      completedNodes := mat.completedNodes
      activeNodes := mat.activeNodes
      lastSequence := mat.lastSequence
      createdAt := now }⟩

/-- The snapshot of the tenant's events as they stand, when one is asked for, under a drawn id. -/
def writeTurnSnapshot (e : ExecutionId) (now : Instant) : Option ℕ → Sql Unit
  | some snapshotId => do
      match ← Sql.select fun db =>
          turnBase (db.latestSnapshot tenant e) (db.getExecution tenant e) with
      | some base => insertTurnSnapshot tenant e snapshotId now base
      | none =>
          fail (.database "no rows returned by a query that expected to return at least one row")
  | none => pure ()

/-- The row of `tool_effects` that a completion with a key leaves. -/
def recordToolEffect (event : NewEvent) (now : Instant) : Sql Unit :=
  match Db.toolEffectOf event.executionId event.kind now with
  | some effect => do
      let _ ← Sql.insertOrIgnore .toolEffects ⟨tenant, effect⟩
      return ()
  | none => pure ()

/-- The one commit both `commit_turn` and `commit_turn_unless_terminal` run. -/
def commitTurnInner (id : WorkItemId) (fence : ℤ) (event : NewEvent) (snapshot : Option ℕ)
    (refuseTerminal : Bool) (now : Instant) : Sql TurnCommit :=
  match Db.settleOf event.kind now with
  | none =>
      fail (.database "commit_turn requires a terminal event (NodeCompleted/NodeFailed)")
  | some ⟨settle, hsettle⟩ =>
      atomically do
        match ← Sql.select fun db =>
            if refuseTerminal then db.terminalStatus tenant event.executionId else none with
        | some status =>
            let withdrawn ← withdrawWorkItemFenced tenant id fence
            if withdrawn then return .executionTerminal status else fail (.fenceLost id)
        | none =>
            let settled ← Sql.update .workItems tenant id (WorkItemRow.claimedUnder fence) settle
              (fun x => hsettle x.row)
            if settled then
              let sequence ← insertEvent tenant event
              recordToolEffect tenant event now
              writeTurnSnapshot tenant event.executionId now snapshot
              return .committed sequence
            else fail (.fenceLost id)

def commitTurnUnlessTerminal (id : WorkItemId) (fence : ℤ) (event : NewEvent)
    (snapshot : Option ℕ) (now : Instant) : Sql TurnCommit :=
  commitTurnInner tenant id fence event snapshot true now

def commitTurn (id : WorkItemId) (fence : ℤ) (event : NewEvent) (snapshot : Option ℕ)
    (now : Instant) : Sql EventSequence := do
  match ← commitTurnInner tenant id fence event snapshot false now with
  | .committed sequence => return sequence
  | .executionTerminal status =>
      fail (.database ("commit_turn refused for a " ++ status.debugText ++ " execution"))

/-! Tokens -/

/-- `token` and `id` are the random ones drawn. -/
def createToken (sha256Hex : String → String) (token : String) (id : ℕ) (name role : String)
    (now : Instant) : Sql (String × ApiToken) := do
  let row : Owned ApiTokenRow := ⟨tenant,
    { id := id
      tokenHash := sha256Hex token
      name := name
      role := role
      createdAt := now }⟩
  Sql.insert .tokens row
  return (token, .ofRow row)

/-- A token names its tenant: the lookup and the note of its use are not filtered. -/
def validateToken (sha256Hex : String → String) (token : String) (now : Instant) :
    Sql (Option ApiToken) := do
  match ← Sql.select fun db => db.tokenRow (sha256Hex token) now with
  | none => return none
  | some x =>
      let _ ← Sql.updateAny .tokens x.row.id (fun _ => true)
        (fun r => { r with lastUsedAt := some now }) (fun _ => rfl)
      return some (.ofRow x)

/-! The projector's read model -/

def upsertApproval (row : ApprovalProjectionRow) : Sql Unit := do
  let _ ← Sql.upsert .approvals ⟨tenant, row⟩ (fun _ => true)
    (fun r =>
      { r with
        status := row.status
        userId := row.userId
        comment := row.comment
        lastSequence := row.lastSequence
        toolName := row.toolName
        approver := row.approver
        context := row.context })
    (fun _ => rfl)
  return ()

def setProjectorCheckpoint (projectionName : String) (e : ExecutionId)
    (newCheckpoint : EventSequence) (now : Instant) : Sql Unit := do
  let _ ← Sql.upsert .checkpoints ⟨tenant, ⟨projectionName, e, newCheckpoint, now⟩⟩ (fun _ => true)
    (fun r => { r with lastSequence := newCheckpoint, updatedAt := now }) (fun _ => rfl)
  return ()

/-- The rows are written under the execution the batch is for. -/
def applyApprovalProjectionBatch (rows : List ApprovalProjectionRow) (projectionName : String)
    (e : ExecutionId) (newCheckpoint : EventSequence) (now : Instant) : Sql Unit :=
  atomically do
    forEach (fun row => upsertApproval tenant { row with executionId := e }) rows
    setProjectorCheckpoint tenant projectionName e newCheckpoint now

def applyApprovalProjection (row : ApprovalProjectionRow) (projectionName : String)
    (newCheckpoint : EventSequence) (now : Instant) : Sql Unit :=
  atomically do
    upsertApproval tenant row
    setProjectorCheckpoint tenant projectionName row.executionId newCheckpoint now

end Scoped

/-- The operations of the backend, those that administer tenants apart. -/
inductive ScopedOp : Type → Type 1
  | read {β : Type} (r : ScopedRead β) : ScopedOp β
  | storeWorkflow (definition : WorkflowDefinition) : ScopedOp Unit
  | createExecution (execution : WorkflowExecution) : ScopedOp Unit
  | finishExecution (event : NewEvent) (status : WorkflowStatus) (now : Instant) :
      ScopedOp ExecutionFinish
  | updateExecutionStatus (e : ExecutionId) (status : WorkflowStatus) (now : Instant) : ScopedOp Unit
  | updateExecutionCurrentState (e : ExecutionId) (state : Json) (now : Instant) : ScopedOp Unit
  | patchAppendArray (e : ExecutionId) (key : String) (value : Json) (now : Instant) : ScopedOp Unit
  | appendEvent (event : NewEvent) : ScopedOp EventSequence
  | appendEventIf (event : NewEvent) (condition : List Event → Bool) : ScopedOp ConditionalAppend
  | writeSnapshot (snapshot : SnapshotRecord) : ScopedOp Unit
  | createRun (execution : WorkflowExecution) (seedSnapshot : Option SnapshotRecord)
      (startedEvent scheduledEvent : EventKind) (eventIds : ℕ × ℕ) (itemId : WorkItemId)
      (workItem : NewWorkItem) (now : Instant) : ScopedOp Unit
  | releaseToolReservation (key : String) (owner : WorkerId) (fence : ℤ) : ScopedOp Unit
  | reserveToolEffect (key : String) (e : ExecutionId) (node : NodeId) (owner : WorkerId)
      (fence : ℤ) (ttl : ℕ) (now : Instant) : ScopedOp ReserveOutcome
  | putArtifact (bytes : String) (mediaType : Option String) (now : Instant) : ScopedOp ArtifactRef
  | enqueueWorkItem (id : WorkItemId) (item : NewWorkItem) (createdAt : Instant) :
      ScopedOp WorkItemId
  | claimWorkItemWithLease (worker : WorkerId) (queueTypes : List String) (leaseSecs : Option ℕ)
      (eventIds : WorkItemId → ℕ × ℕ) (now : Instant) : ScopedOp (Option WorkItemRow)
  | renewLease (id : WorkItemId) (worker : WorkerId) (fence : ℤ) (now : Instant) : ScopedOp Unit
  | heartbeatLease (id : WorkItemId) (worker : WorkerId) (fence : ℤ) (now : Instant) :
      ScopedOp LeaseRenewal
  | completeWorkItem (id : WorkItemId) (now : Instant) : ScopedOp Unit
  | completeWorkItemFenced (id : WorkItemId) (fence : ℤ) (now : Instant) : ScopedOp Bool
  | failWorkItem (id : WorkItemId) : ScopedOp Unit
  | failWorkItemFenced (id : WorkItemId) (fence : ℤ) (error : String) (now : Instant) :
      ScopedOp (Option FailOutcome)
  | parkWorkItem (id : WorkItemId) (fence : ℤ) (retryAfter : Instant) (nextAttempt : ℕ) :
      ScopedOp Bool
  | withdrawWorkItemFenced (id : WorkItemId) (fence : ℤ) : ScopedOp Bool
  | finalizeRolloverFenced (e : ExecutionId) (id : WorkItemId) (fence : ℤ) (now : Instant) :
      ScopedOp Bool
  | reclaimExpiredLeases (now : Instant) : ScopedOp Scheduler.ReclaimResult
  | moveToDeadLetter (id : WorkItemId) (lastError : String) (now : Instant) : ScopedOp Unit
  | commitTurn (id : WorkItemId) (fence : ℤ) (event : NewEvent) (snapshot : Option ℕ)
      (now : Instant) : ScopedOp EventSequence
  | commitTurnUnlessTerminal (id : WorkItemId) (fence : ℤ) (event : NewEvent)
      (snapshot : Option ℕ) (now : Instant) : ScopedOp TurnCommit
  | createToken (token : String) (id : ℕ) (name role : String) (now : Instant) :
      ScopedOp (String × ApiToken)
  | validateToken (token : String) (now : Instant) : ScopedOp (Option ApiToken)
  | applyApprovalProjection (row : ApprovalProjectionRow) (projectionName : String)
      (newCheckpoint : EventSequence) (now : Instant) : ScopedOp Unit
  | applyApprovalProjectionBatch (rows : List ApprovalProjectionRow) (projectionName : String)
      (e : ExecutionId) (newCheckpoint : EventSequence) (now : Instant) : ScopedOp Unit
  | setProjectorCheckpoint (projectionName : String) (e : ExecutionId)
      (newCheckpoint : EventSequence) (now : Instant) : ScopedOp Unit

/-- An operation of the backend of a tenant. -/
def ScopedOp.exec [FloatText] (sha256Hex : String → String) (tenant : TenantId) {β : Type}
    (op : ScopedOp β) : Sql β :=
  match op with
  | .read r => Sql.select (r.exec tenant)
  | .storeWorkflow definition => Scoped.storeWorkflow tenant sha256Hex definition
  | .createExecution execution => Scoped.createExecution tenant execution
  | .finishExecution event status now => Scoped.finishExecution tenant event status now
  | .updateExecutionStatus e status now => Scoped.updateExecutionStatus tenant e status now
  | .updateExecutionCurrentState e state now => Scoped.updateExecutionCurrentState tenant e state now
  | .patchAppendArray e key value now => Scoped.patchAppendArray tenant e key value now
  | .appendEvent event => Scoped.appendEvent tenant event
  | .appendEventIf event condition => Scoped.appendEventIf tenant event condition
  | .writeSnapshot snapshot => Scoped.writeSnapshot tenant snapshot
  | .createRun execution seedSnapshot startedEvent scheduledEvent eventIds itemId workItem now =>
      Scoped.createRun tenant execution seedSnapshot startedEvent scheduledEvent eventIds itemId workItem now
  | .releaseToolReservation key owner fence => Scoped.releaseToolReservation tenant key owner fence
  | .reserveToolEffect key e node owner fence ttl now =>
      Scoped.reserveToolEffect tenant key e node owner fence ttl now
  | .putArtifact bytes mediaType now => Scoped.putArtifact tenant sha256Hex bytes mediaType now
  | .enqueueWorkItem id item createdAt => Scoped.enqueueWorkItem tenant id item createdAt
  | .claimWorkItemWithLease worker queueTypes leaseSecs eventIds now =>
      Scoped.claimWorkItemWithLease tenant worker queueTypes leaseSecs eventIds now
  | .renewLease id worker fence now => Scoped.renewLease tenant id worker fence now
  | .heartbeatLease id worker fence now => Scoped.heartbeatLease tenant id worker fence now
  | .completeWorkItem id now => Scoped.completeWorkItem tenant id now
  | .completeWorkItemFenced id fence now => Scoped.completeWorkItemFenced tenant id fence now
  | .failWorkItem id => Scoped.failWorkItem tenant id
  | .failWorkItemFenced id fence error now => Scoped.failWorkItemFenced tenant id fence error now
  | .parkWorkItem id fence retryAfter nextAttempt =>
      Scoped.parkWorkItem tenant id fence retryAfter nextAttempt
  | .withdrawWorkItemFenced id fence => Scoped.withdrawWorkItemFenced tenant id fence
  | .finalizeRolloverFenced e id fence now => Scoped.finalizeRolloverFenced tenant e id fence now
  | .reclaimExpiredLeases now => Scoped.reclaimExpiredLeases tenant now
  | .moveToDeadLetter id lastError now => Scoped.moveToDeadLetter tenant id lastError now
  | .commitTurn id fence event snapshot now => Scoped.commitTurn tenant id fence event snapshot now
  | .commitTurnUnlessTerminal id fence event snapshot now =>
      Scoped.commitTurnUnlessTerminal tenant id fence event snapshot now
  | .createToken token id name role now => Scoped.createToken tenant sha256Hex token id name role now
  | .validateToken token now => Scoped.validateToken sha256Hex token now
  | .applyApprovalProjection row projectionName newCheckpoint now =>
      Scoped.applyApprovalProjection tenant row projectionName newCheckpoint now
  | .applyApprovalProjectionBatch rows projectionName e newCheckpoint now =>
      Scoped.applyApprovalProjectionBatch tenant rows projectionName e newCheckpoint now
  | .setProjectorCheckpoint projectionName e newCheckpoint now =>
      Scoped.setProjectorCheckpoint tenant projectionName e newCheckpoint now

end JamJet
