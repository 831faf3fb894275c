import JamJet.Store

/-! The operations of the SQLite backend.  Each is one transaction or one statement; an
operation that fails rolls back, so it leaves the database as it was. -/

namespace JamJet

/-- The reply of an operation and the database it leaves. -/
abbrev Outcome (α : Type) := Except BackendError α × Db

namespace Db

variable (db : Db)

def setEvents (e : ExecutionId) (log : EventLog) : Db :=
  { db with events := Function.update db.events e log }

/-- Append inside the caller's transaction; `none` when the foreign key to the execution's row
is violated. -/
def insertEvent (e : ExecutionId) (kind : EventKind) : Option (EventSequence × Db) :=
  match db.executions.find? e with
  | none => none
  | some _ => some ((db.events e).latest + 1, db.setEvents e ((db.events e).append kind))

def foreignKeyError : BackendError := .database "FOREIGN KEY constraint failed"

def uniqueError : BackendError := .database "UNIQUE constraint failed"

/-- The execution's status when it is terminal. -/
def terminalStatusOf (e : ExecutionId) : Option WorkflowStatus :=
  match db.executions.find? e with
  | some row => if row.status.isTerminal then some row.status else none
  | none => none

def updateItem (id : WorkItemId) (guard : WorkItemRow → Bool) (f : WorkItemRow → WorkItemRow)
    (hf : ∀ r, (f r).id = r.id) : Db :=
  { db with workItems := db.workItems.update id guard f hf }

def updateExecution (e : ExecutionId) (guard : ExecutionRow → Bool)
    (f : ExecutionRow → ExecutionRow) (hf : ∀ x, (f x).executionId = x.executionId) : Db :=
  { db with executions := db.executions.update e guard f hf }

/-- An id no work item has: what a new UUID is. -/
def freshItemId : WorkItemId := (db.workItems.rows.map (·.id)).foldr max 0 + 1

/-! Executions and events -/

/-- `ORDER BY updated_at DESC LIMIT .. OFFSET ..` -/
def listExecutions (status : WorkflowStatus) (limit offset : ℕ) : List ExecutionRow :=
  (((db.executions.rows.filter fun x => x.status = status).insertionSort
    fun a b => b.updatedAt ≤ a.updatedAt).drop offset).take limit

def appendEvent (e : ExecutionId) (kind : EventKind) : Outcome EventSequence :=
  match db.insertEvent e kind with
  | none => (.error foreignKeyError, db)
  | some (sequence, db') => (.ok sequence, db')

def appendEventIf (e : ExecutionId) (kind : EventKind) (condition : List Event → Bool) :
    Outcome ConditionalAppend :=
  match db.executions.find? e with
  | none => (.error (.notFound e), db)
  | some row =>
      if row.status.isTerminal then (.ok (.executionTerminal row.status), db)
      else if condition (db.events e).entries then
        let log := db.events e
        (.ok (.appended (log.latest + 1)), db.setEvents e (log.append kind))
      else (.ok .refused, db)

def finishExecution (e : ExecutionId) (kind : EventKind) (status : WorkflowStatus)
    (now : Instant) : Outcome ExecutionFinish :=
  if !status.isTerminal then
    (.error (.database "finish_execution requires a terminal status"), db)
  else
    match db.executions.find? e with
    | none => (.error (.notFound e), db)
    | some row =>
        if row.status.isTerminal then (.ok (.alreadyTerminal row.status), db)
        else
          let log := db.events e
          let finished := db.updateExecution e (fun _ => true) (ExecutionRow.finish status now)
            (ExecutionRow.finish_executionId status now)
          (.ok (.finished (log.latest + 1)), finished.setEvents e (log.append kind))

def updateExecutionStatus (e : ExecutionId) (status : WorkflowStatus) (now : Instant) :
    Outcome Unit :=
  match db.executions.find? e with
  | none => (.error (.notFound e), db)
  | some _ =>
      (.ok (), db.updateExecution e (fun _ => true) (ExecutionRow.setStatus status now)
        (ExecutionRow.setStatus_executionId status now))

/-- Insert a work item for an execution that exists. -/
def insertWorkItem (item : NewWorkItem) (now : Instant) : Option (WorkItemId × Db) :=
  match db.executions.find? item.executionId, db.workItems.insert? (item.toRow db.freshItemId now) with
  | some _, some workItems => some (db.freshItemId, { db with workItems := workItems })
  | _, _ => none

def enqueueWorkItem (item : NewWorkItem) (now : Instant) : Outcome WorkItemId :=
  match db.insertWorkItem item now with
  | none => (.error foreignKeyError, db)
  | some (id, db') => (.ok id, db')

/-- `INSERT OR REPLACE INTO snapshots`. -/
def putSnapshot (snap : SnapshotRow) : Db :=
  { db with snapshots := db.snapshots.put snap }

/-- The seed snapshot of a continuation segment, written under the new execution's id. -/
def putSeed (e : ExecutionId) (seedSnapshot : Option SnapshotRow) : Db :=
  match seedSnapshot with
  | some snap => db.putSnapshot { snap with executionId := e }
  | none => db

/-- Execution row, seed snapshot, `WorkflowStarted`, `NodeScheduled` and the start node's work
item, all of them or none. -/
def createRun (execution : ExecutionRow) (seedSnapshot : Option SnapshotRow)
    (startedEvent scheduledEvent : EventKind) (workItem : NewWorkItem) (now : Instant) :
    Outcome Unit :=
  match db.executions.insert? execution with
  | none => (.error uniqueError, db)
  | some executions =>
      let db₂ := Db.putSeed { db with executions := executions } execution.executionId seedSnapshot
      match db₂.insertEvent execution.executionId startedEvent with
      | none => (.error foreignKeyError, db)
      | some (_, db₃) =>
          match db₃.insertEvent execution.executionId scheduledEvent with
          | none => (.error foreignKeyError, db)
          | some (_, db₄) =>
              match db₄.insertWorkItem workItem now with
              | none => (.error foreignKeyError, db)
              | some (_, db₅) => (.ok (), db₅)

/-! Leases -/

/-- The two events a lost lease leaves in the history: the failure of the attempt that held it,
and the retry that the immediate requeue is. -/
def leaseExpiryEvents (item : WorkItemRow) : EventKind × EventKind :=
  (.nodeFailed item.nodeId "lease expired: worker presumed dead" item.attempt true,
    .retryScheduled item.nodeId (item.attempt + 1) 0)

/-- The claim path's reclaim of one row it selected: requeue it and record the retry, unless its
execution is terminal or its attempts are spent. -/
def expireOne (item : WorkItemRow) : Option Db :=
  if (db.terminalStatusOf item.executionId).isSome then
    some (db.updateItem item.id WorkItemRow.isClaimed WorkItemRow.fail WorkItemRow.fail_id)
  else if item.attempt + 1 ≥ item.maxAttempts then some db
  else if !db.workItems.hits item.id WorkItemRow.isClaimed then some db
  else do
    let db₁ := db.updateItem item.id WorkItemRow.isClaimed WorkItemRow.expire
      WorkItemRow.expire_id
    let (_, db₂) ← db₁.insertEvent item.executionId (leaseExpiryEvents item).1
    let (_, db₃) ← db₂.insertEvent item.executionId (leaseExpiryEvents item).2
    return db₃

def expireStaleLeases (now : Instant) : Outcome Unit :=
  match (db.workItems.rows.filter (WorkItemRow.leaseExpired now)).foldlM expireOne db with
  | some db' => (.ok (), db')
  | none => (.error foreignKeyError, db)

def claimable (queueTypes : List String) (now : Instant) (r : WorkItemRow) : Bool :=
  r.status = .pending ∧ r.queueType ∈ queueTypes ∧ r.retryAfter.all fun t => t ≤ now

/-- `ORDER BY created_at ASC LIMIT 1`. -/
def oldest (rows : List WorkItemRow) : Option WorkItemRow :=
  (rows.insertionSort fun a b => a.createdAt ≤ b.createdAt).head?

/-- The second transaction of `claim_work_item_with_lease`; `expireStaleLeases` is the first. -/
def claimWorkItem (worker : WorkerId) (queueTypes : List String) (leaseSecs : Option ℕ)
    (now : Instant) : Outcome (Option WorkItemRow) :=
  match oldest (db.workItems.rows.filter (claimable queueTypes now)) with
  | none => (.ok none, db)
  | some item =>
      let leaseLen := grantedLeaseSecs leaseSecs
      (.ok (some (item.claim db.term worker leaseLen now)),
        db.updateItem item.id (fun _ => true) (WorkItemRow.claim db.term worker leaseLen now)
          (WorkItemRow.claim_id db.term worker leaseLen now))

def leaseSecsFor (id : WorkItemId) : ℕ :=
  ((db.workItems.find? id).bind (·.leaseSecs)).getD defaultLeaseSecs

/-- The guard of a renewal: the holder, under its fence. -/
def renewable (worker : WorkerId) (fence : ℤ) (r : WorkItemRow) : Bool :=
  r.workerId = some worker ∧ r.claimedUnder fence

/-- The `UPDATE` of `renew_lease`, with the lease length read just before. -/
def renewLease (id : WorkItemId) (worker : WorkerId) (fence : ℤ) (leaseLen : ℕ) (now : Instant) :
    Outcome Unit :=
  if db.workItems.hits id (renewable worker fence) then
    (.ok (), db.updateItem id (renewable worker fence) (WorkItemRow.renew leaseLen now)
      (WorkItemRow.renew_id leaseLen now))
  else (.error (.fenceLost id), db)

def reattachLease (id : WorkItemId) (worker : WorkerId) (lostFence : ℤ) (now : Instant) :
    Outcome LeaseRenewal :=
  match db.workItems.find? id with
  | none => (.error (.fenceLost id), db)
  | some row =>
      if row.reattachable worker lostFence then
        (.ok ⟨mintFence db.term (row.leaseEpoch + 1), true⟩,
          db.updateItem id (fun r => r.status = .pending ∧ r.workerId = none)
            (WorkItemRow.reattach db.term worker now) (WorkItemRow.reattach_id db.term worker now))
      else (.error (.fenceLost id), db)

def setStoreTermAtLeast (term : ℤ) : Outcome ℤ :=
  (.ok (max db.term term), { db with term := max db.term term })

/-! Settles -/

def completeWorkItem (id : WorkItemId) (now : Instant) : Outcome Unit :=
  if db.workItems.hits id fun _ => true then
    (.ok (), db.updateItem id (fun _ => true) (WorkItemRow.complete now)
      (WorkItemRow.complete_id now))
  else (.error (.notFound id), db)

def failWorkItem (id : WorkItemId) : Outcome Unit :=
  if db.workItems.hits id fun _ => true then
    (.ok (), db.updateItem id (fun _ => true) WorkItemRow.fail WorkItemRow.fail_id)
  else (.error (.notFound id), db)

/-- A single guarded `UPDATE`, replying whether it affected a row. -/
def settleIf (id : WorkItemId) (guard : WorkItemRow → Bool) (f : WorkItemRow → WorkItemRow)
    (hf : ∀ r, (f r).id = r.id) : Outcome Bool :=
  if db.workItems.hits id guard then (.ok true, db.updateItem id guard f hf) else (.ok false, db)

def completeWorkItemFenced (id : WorkItemId) (fence : ℤ) (now : Instant) : Outcome Bool :=
  db.settleIf id (WorkItemRow.claimedUnder fence) (WorkItemRow.complete now)
    (WorkItemRow.complete_id now)

def parkWorkItem (id : WorkItemId) (fence : ℤ) (retryAfter : Instant) (nextAttempt : ℕ) :
    Outcome Bool :=
  db.settleIf id (WorkItemRow.claimedUnder fence) (WorkItemRow.release nextAttempt retryAfter)
    (WorkItemRow.release_id nextAttempt retryAfter)

/-- `withdraw_claimed_item`: settle as failed with nothing recorded. -/
def withdrawWorkItemFenced (id : WorkItemId) (fence : ℤ) : Outcome Bool :=
  db.settleIf id (WorkItemRow.claimedUnder fence) WorkItemRow.fail WorkItemRow.fail_id

/-- `INSERT OR IGNORE INTO dead_letter_items`. -/
def insertDeadLetter (row : DeadLetterRow) : Db :=
  { db with deadLetters := (db.deadLetters.insert? row).getD db.deadLetters }

def failWorkItemFenced (id : WorkItemId) (fence : ℤ) (error : String) (now : Instant) :
    Outcome (Option FailOutcome) :=
  match (db.workItems.find? id).filter (WorkItemRow.claimedUnder fence) with
  | none => (.ok none, db)
  | some item =>
      let newAttempt := item.attempt + 1
      if newAttempt ≥ item.maxAttempts then
        (.ok (some (.exhausted { item with attempt := newAttempt })),
          (db.updateItem id (WorkItemRow.claimedUnder fence) (WorkItemRow.deadLetter newAttempt)
            (WorkItemRow.deadLetter_id newAttempt)).insertDeadLetter
              (item.toDeadLetter newAttempt error now))
      else
        let retryAfter := after now (backoffSecs newAttempt)
        (.ok (some (.retryable { item with attempt := newAttempt }
            (backoffSecs newAttempt * 1000))),
          db.updateItem id (WorkItemRow.claimedUnder fence)
            (WorkItemRow.release newAttempt retryAfter)
            (WorkItemRow.release_id newAttempt retryAfter))

/-- The guard tests the fence alone. -/
def finalizeRolloverFenced (e : ExecutionId) (id : WorkItemId) (fence : ℤ) (now : Instant) :
    Outcome Bool :=
  if db.workItems.hits id fun r => r.leaseFence = fence then
    let settled := db.updateItem id (fun r => r.leaseFence = fence) (WorkItemRow.complete now)
      (WorkItemRow.complete_id now)
    (.ok true, settled.updateExecution e (fun x => !x.status.isTerminal)
      (ExecutionRow.finish .limitExceeded now)
      (ExecutionRow.finish_executionId .limitExceeded now))
  else (.ok false, db)

/-! Committed turns -/

/-- The row a `NodeCompleted` with an idempotency key leaves in `tool_effects`. -/
def toolEffectOf (e : ExecutionId) (kind : EventKind) (now : Instant) : Option ToolEffectRow :=
  match kind with
  | .nodeCompleted node result =>
      result.idempotencyKey.map fun key =>
        { idempotencyKey := key
          executionId := e
          nodeId := node
          resultJson := Json.ofFields [
            ("output", result.output),
            ("state_patch", result.statePatch),
            ("duration_ms", Json.ofNat result.durationMs),
            ("gen_ai_system", Json.ofOption .string result.genAiSystem),
            ("gen_ai_model", Json.ofOption .string result.genAiModel),
            ("input_tokens", Json.ofOption Json.ofNat result.inputTokens),
            ("output_tokens", Json.ofOption Json.ofNat result.outputTokens),
            ("finish_reason", Json.ofOption .string result.finishReason)]
          recordedAt := now }
  | _ => none

def recordToolEffect (e : ExecutionId) (kind : EventKind) (now : Instant) : Db :=
  match toolEffectOf e kind now with
  | none => db
  | some row => { db with toolEffects := (db.toolEffects.insert? row).getD db.toolEffects }

/-- `ORDER BY at_sequence DESC LIMIT 1`. -/
def latestSnapshot (e : ExecutionId) : Option SnapshotRow :=
  ((db.snapshots.rows.filter fun s => s.executionId = e).insertionSort
    fun a b => b.atSequence ≤ a.atSequence).head?

/-- The snapshot of an execution's log as it stands, taken from the latest one. -/
def writeSnapshot (e : ExecutionId) (initialInput : Json) : Db :=
  let (base, baseSequence) := match db.latestSnapshot e with
    | some snap =>
        ({ currentState := snap.state
           status := snap.status
           completedNodes := snap.completedNodes
           activeNodes := snap.activeNodes
           lastSequence := snap.lastSequence : Materializer.MaterializedState }, snap.atSequence)
    | none => (Materializer.ofInitialInput initialInput, 0)
  let mat := Materializer.applyEventsSeeded base ((db.events e).since baseSequence)
  db.putSnapshot
    { executionId := e
      atSequence := mat.lastSequence
      state := mat.currentState
      status := mat.status
      completedNodes := mat.completedNodes
      activeNodes := mat.activeNodes
      lastSequence := mat.lastSequence }

/-- What a committed turn records besides its event. -/
def recordTurn (e : ExecutionId) (kind : EventKind) (initialInput : Json) (snapshot : Bool)
    (now : Instant) : Db :=
  let recorded := db.recordToolEffect e kind now
  if snapshot then recorded.writeSnapshot e initialInput else recorded

/-- How a terminal event settles the work item; `none` for an event that is not one. -/
def settleOf (kind : EventKind) (now : Instant) :
    Option { f : WorkItemRow → WorkItemRow // ∀ r, (f r).id = r.id } :=
  match kind with
  | .nodeCompleted .. => some ⟨WorkItemRow.complete now, WorkItemRow.complete_id now⟩
  | .nodeFailed .. => some ⟨WorkItemRow.failTurn, WorkItemRow.failTurn_id⟩
  | _ => none

/-- The one commit both `commit_turn` and `commit_turn_unless_terminal` run. -/
def commitTurnInner (id : WorkItemId) (fence : ℤ) (e : ExecutionId) (kind : EventKind)
    (snapshot refuseTerminal : Bool) (now : Instant) : Outcome TurnCommit :=
  match settleOf kind now with
  | none =>
      (.error (.database "commit_turn requires a terminal event (NodeCompleted/NodeFailed)"), db)
  | some ⟨settle, hsettle⟩ =>
      match if refuseTerminal then db.terminalStatusOf e else none with
      | some status =>
          match db.withdrawWorkItemFenced id fence with
          | (.ok true, db') => (.ok (.executionTerminal status), db')
          | _ => (.error (.fenceLost id), db)
      | none =>
          if db.workItems.hits id (WorkItemRow.claimedUnder fence) then
            let settled := db.updateItem id (WorkItemRow.claimedUnder fence) settle hsettle
            match settled.executions.find? e, settled.insertEvent e kind with
            | some row, some (sequence, appended) =>
                (.ok (.committed sequence), appended.recordTurn e kind row.initialInput snapshot now)
            | _, _ => (.error foreignKeyError, db)
          else (.error (.fenceLost id), db)

def commitTurnUnlessTerminal (id : WorkItemId) (fence : ℤ) (e : ExecutionId) (kind : EventKind)
    (snapshot : Bool) (now : Instant) : Outcome TurnCommit :=
  db.commitTurnInner id fence e kind snapshot true now

def commitTurn (id : WorkItemId) (fence : ℤ) (e : ExecutionId) (kind : EventKind)
    (snapshot : Bool) (now : Instant) : Outcome EventSequence :=
  match db.commitTurnInner id fence e kind snapshot false now with
  | (.ok (.committed sequence), db') => (.ok sequence, db')
  | (.ok (.executionTerminal _), db') =>
      (.error (.database "commit_turn refused for a terminal execution"), db')
  | (.error err, db') => (.error err, db')

/-! Tool effects -/

def getToolEffect (key : String) : Option Json :=
  (db.toolEffects.find? key).map (·.resultJson)

/-- The upsert of `reserve_tool_effect`, replying whether it affected a row: a reservation that
another owner holds and that has not lapsed stays. -/
def reserveToolEffect (key : String) (e : ExecutionId) (node : NodeId) (owner : WorkerId)
    (fence : ℤ) (ttl : ℕ) (now : Instant) : Outcome Bool :=
  let expiresAt := after now ttl
  match db.toolReservations.insert? ⟨key, e, node, owner, fence, expiresAt, now⟩ with
  | some toolReservations => (.ok true, { db with toolReservations := toolReservations })
  | none =>
      let lapsed (row : ToolReservationRow) : Bool := row.expiresAt ≤ now ∨ row.owner = owner
      let take (row : ToolReservationRow) : ToolReservationRow :=
        { row with
          owner := owner
          leaseFence := fence
          expiresAt := expiresAt
          reservedAt := now }
      (.ok (db.toolReservations.hits key lapsed),
        { db with toolReservations := db.toolReservations.update key lapsed take fun _ => rfl })

/-- Who holds the key and until when, read after a refused upsert. -/
def reservationHolder (key : String) : Option (WorkerId × Instant) :=
  (db.toolReservations.find? key).map fun row => (row.owner, row.expiresAt)

def releaseToolReservation (key : String) (owner : WorkerId) (fence : ℤ) : Outcome Unit :=
  (.ok (), { db with
    toolReservations := db.toolReservations.delete key fun row =>
      row.owner = owner ∧ row.leaseFence = fence })

/-! The statements of the sweep (`reclaim_expired_leases`) -/

/-- Its `SELECT`, `ORDER BY created_at ASC`. -/
def selectExpired (now : Instant) : List WorkItemRow :=
  (db.workItems.rows.filter (WorkItemRow.leaseExpired now)).insertionSort
    fun a b => a.createdAt ≤ b.createdAt

/-- Its `UPDATE` of an item whose attempts are spent. -/
def sweepDeadLetter (item : WorkItemRow) : Outcome Bool :=
  db.settleIf item.id WorkItemRow.isClaimed (WorkItemRow.deadLetter (item.attempt + 1))
    (WorkItemRow.deadLetter_id (item.attempt + 1))

/-- Its `UPDATE` of an item that is retried. -/
def sweepRequeue (item : WorkItemRow) (now : Instant) : Outcome Bool :=
  let newAttempt := item.attempt + 1
  let retryAfter := after now (backoffSecs newAttempt)
  db.settleIf item.id WorkItemRow.isClaimed (WorkItemRow.sweepRequeue newAttempt retryAfter)
    (WorkItemRow.sweepRequeue_id newAttempt retryAfter)

end Db

/-- The atomic operations of the backend, by the type of their reply. -/
inductive BackendOp : Type → Type
  | listExecutions (status : WorkflowStatus) (limit offset : ℕ) : BackendOp (List ExecutionRow)
  | executionTenant (e : ExecutionId) : BackendOp (Option String)
  | getExecution (e : ExecutionId) : BackendOp (Option ExecutionRow)
  | latestSnapshot (e : ExecutionId) : BackendOp (Option SnapshotRow)
  | latestSequence (e : ExecutionId) : BackendOp EventSequence
  | getEvents (e : ExecutionId) : BackendOp (List Event)
  | getEventsSince (e : ExecutionId) (sequence : EventSequence) : BackendOp (List Event)
  | appendEvent (e : ExecutionId) (kind : EventKind) : BackendOp EventSequence
  | appendEventIf (e : ExecutionId) (kind : EventKind) (condition : List Event → Bool) :
      BackendOp ConditionalAppend
  | finishExecution (e : ExecutionId) (kind : EventKind) (status : WorkflowStatus)
      (now : Instant) : BackendOp ExecutionFinish
  | updateExecutionStatus (e : ExecutionId) (status : WorkflowStatus) (now : Instant) :
      BackendOp Unit
  | createRun (execution : ExecutionRow) (seedSnapshot : Option SnapshotRow)
      (startedEvent scheduledEvent : EventKind) (workItem : NewWorkItem) (now : Instant) :
      BackendOp Unit
  | enqueueWorkItem (item : NewWorkItem) (now : Instant) : BackendOp WorkItemId
  | expireStaleLeases (now : Instant) : BackendOp Unit
  | claimWorkItem (worker : WorkerId) (queueTypes : List String) (leaseSecs : Option ℕ)
      (now : Instant) : BackendOp (Option WorkItemRow)
  | leaseSecsFor (id : WorkItemId) : BackendOp ℕ
  | renewLease (id : WorkItemId) (worker : WorkerId) (fence : ℤ) (leaseLen : ℕ)
      (now : Instant) : BackendOp Unit
  | reattachLease (id : WorkItemId) (worker : WorkerId) (lostFence : ℤ) (now : Instant) :
      BackendOp LeaseRenewal
  | setStoreTermAtLeast (term : ℤ) : BackendOp ℤ
  | completeWorkItem (id : WorkItemId) (now : Instant) : BackendOp Unit
  | failWorkItem (id : WorkItemId) : BackendOp Unit
  | completeWorkItemFenced (id : WorkItemId) (fence : ℤ) (now : Instant) : BackendOp Bool
  | failWorkItemFenced (id : WorkItemId) (fence : ℤ) (error : String) (now : Instant) :
      BackendOp (Option FailOutcome)
  | parkWorkItem (id : WorkItemId) (fence : ℤ) (retryAfter : Instant) (nextAttempt : ℕ) :
      BackendOp Bool
  | withdrawWorkItemFenced (id : WorkItemId) (fence : ℤ) : BackendOp Bool
  | finalizeRolloverFenced (e : ExecutionId) (id : WorkItemId) (fence : ℤ) (now : Instant) :
      BackendOp Bool
  | commitTurn (id : WorkItemId) (fence : ℤ) (e : ExecutionId) (kind : EventKind)
      (snapshot : Bool) (now : Instant) : BackendOp EventSequence
  | commitTurnUnlessTerminal (id : WorkItemId) (fence : ℤ) (e : ExecutionId)
      (kind : EventKind) (snapshot : Bool) (now : Instant) : BackendOp TurnCommit
  | getToolEffect (key : String) : BackendOp (Option Json)
  | reserveToolEffect (key : String) (e : ExecutionId) (node : NodeId) (owner : WorkerId)
      (fence : ℤ) (ttl : ℕ) (now : Instant) : BackendOp Bool
  | reservationHolder (key : String) : BackendOp (Option (WorkerId × Instant))
  | releaseToolReservation (key : String) (owner : WorkerId) (fence : ℤ) : BackendOp Unit
  | selectExpired (now : Instant) : BackendOp (List WorkItemRow)
  | sweepDeadLetter (item : WorkItemRow) : BackendOp Bool
  | insertDeadLetter (row : DeadLetterRow) : BackendOp Unit
  | sweepRequeue (item : WorkItemRow) (now : Instant) : BackendOp Bool

def BackendOp.exec {β : Type} (op : BackendOp β) (db : Db) : Outcome β :=
  match op with
  | .listExecutions status limit offset => (.ok (db.listExecutions status limit offset), db)
  | .executionTenant e => (.ok ((db.executions.find? e).map (·.tenantId)), db)
  | .getExecution e => (.ok (db.executions.find? e), db)
  | .latestSnapshot e => (.ok (db.latestSnapshot e), db)
  | .latestSequence e => (.ok (db.events e).latest, db)
  | .getEvents e => (.ok (db.events e).entries, db)
  | .getEventsSince e sequence => (.ok ((db.events e).since sequence), db)
  | .appendEvent e kind => db.appendEvent e kind
  | .appendEventIf e kind condition => db.appendEventIf e kind condition
  | .finishExecution e kind status now => db.finishExecution e kind status now
  | .updateExecutionStatus e status now => db.updateExecutionStatus e status now
  | .createRun execution seed started scheduled item now =>
      db.createRun execution seed started scheduled item now
  | .enqueueWorkItem item now => db.enqueueWorkItem item now
  | .expireStaleLeases now => db.expireStaleLeases now
  | .claimWorkItem worker queueTypes leaseSecs now =>
      db.claimWorkItem worker queueTypes leaseSecs now
  | .leaseSecsFor id => (.ok (db.leaseSecsFor id), db)
  | .renewLease id worker fence leaseLen now => db.renewLease id worker fence leaseLen now
  | .reattachLease id worker lostFence now => db.reattachLease id worker lostFence now
  | .setStoreTermAtLeast term => db.setStoreTermAtLeast term
  | .completeWorkItem id now => db.completeWorkItem id now
  | .failWorkItem id => db.failWorkItem id
  | .completeWorkItemFenced id fence now => db.completeWorkItemFenced id fence now
  | .failWorkItemFenced id fence error now => db.failWorkItemFenced id fence error now
  | .parkWorkItem id fence retryAfter nextAttempt =>
      db.parkWorkItem id fence retryAfter nextAttempt
  | .withdrawWorkItemFenced id fence => db.withdrawWorkItemFenced id fence
  | .finalizeRolloverFenced e id fence now => db.finalizeRolloverFenced e id fence now
  | .commitTurn id fence e kind snapshot now => db.commitTurn id fence e kind snapshot now
  | .commitTurnUnlessTerminal id fence e kind snapshot now =>
      db.commitTurnUnlessTerminal id fence e kind snapshot now
  | .getToolEffect key => (.ok (db.getToolEffect key), db)
  | .reserveToolEffect key e node owner fence ttl now =>
      db.reserveToolEffect key e node owner fence ttl now
  | .reservationHolder key => (.ok (db.reservationHolder key), db)
  | .releaseToolReservation key owner fence => db.releaseToolReservation key owner fence
  | .selectExpired now => (.ok (db.selectExpired now), db)
  | .sweepDeadLetter item => db.sweepDeadLetter item
  | .insertDeadLetter row => (.ok (), db.insertDeadLetter row)
  | .sweepRequeue item now => db.sweepRequeue item now

/-- Some operation, whatever it replies. -/
abbrev SomeOp := (β : Type) × BackendOp β

/-- The database after a sequence of operations, whoever makes them. -/
def Db.runOps (db : Db) (ops : List SomeOp) : Db :=
  ops.foldl (fun db op => (op.2.exec db).2) db

end JamJet
