import JamJet.AtomicCalls
import JamJet.Backend
import JamJet.ExecProgress

/-! The scheduler's tick, one call after the other as it makes them. -/

namespace JamJet

open AtomicCalls

structure SchedulerConfig where
  maxConcurrentNodesPerExecution : ℕ := 16
  maxDispatchPerTick : ℕ := 8
  /-- Whether a sealer for the audit chain is installed. -/
  sealing : Bool := false

/-- What a tick does besides calling the backend: its clock, its caches, the audit sealer.
`loadWorkflow` reads through the IR cache, a registered version being immutable. -/
inductive LocalOp : Type → Type
  | utcNow : LocalOp Instant
  | loadWorkflow (workflowId workflowVersion : String) : LocalOp (Option WorkflowIr)
  | getProgress (e : ExecutionId) : LocalOp (Option ExecProgress)
  | setProgress (e : ExecutionId) (p : ExecProgress) : LocalOp Unit
  | dropProgress (e : ExecutionId) : LocalOp Unit
  | sealApprovalRecord (e : ExecutionId) (event : Event) (tenantId : String) : LocalOp Unit

abbrev SchedOp (β : Type) : Type := BackendOp β ⊕ LocalOp β

abbrev Sched := Prog SchedOp BackendError

namespace Scheduler

def backend {α : Type} (op : BackendOp α) : Sched α := Prog.perform (.inl op)

def here {α : Type} (op : LocalOp α) : Sched α := Prog.perform (.inr op)

variable [Chrono]

/-! The sweep of expired leases -/

structure ReclaimResult where
  retryable : List WorkItemRow := []
  exhausted : List WorkItemRow := []

/-- The backend's `reclaim_expired_leases` for one row it selected. -/
def reclaimRow (result : ReclaimResult) (row : WorkItemRow) : Sched ReclaimResult :=
  let item := { row with attempt := row.attempt + 1 }
  if row.attempt + 1 ≥ row.maxAttempts then do
    let settled ← backend (.sweepDeadLetter row)
    if settled then
      let now ← here .utcNow
      backend (.insertDeadLetter
        (row.toDeadLetter (row.attempt + 1) "lease expired: worker dead" now))
      return { result with exhausted := result.exhausted ++ [item] }
    else return result
  else do
    let now ← here .utcNow
    let requeued ← backend (.sweepRequeue row now)
    if requeued then return { result with retryable := result.retryable ++ [item] }
    else return result

/-- `SqliteBackend::reclaim_expired_leases`: a `SELECT`, then each row by its own statements. -/
def reclaimRows : Sched ReclaimResult := do
  let now ← here .utcNow
  let rows ← backend (.selectExpired now)
  rows.foldlM reclaimRow {}

/-- Append an event under the advisory sequence the tick reads first. -/
def appendNext (e : ExecutionId) (kind : EventKind) : Sched Unit := do
  let _ ← backend (.latestSequence e)
  let _ ← backend (.appendEvent e kind)

def recordRetry (item : WorkItemRow) : Sched Unit := do
  appendNext item.executionId
    (.nodeFailed item.nodeId "lease expired: worker presumed dead" (item.attempt - 1) true)
  appendNext item.executionId
    (.retryScheduled item.nodeId item.attempt (2 ^ min item.attempt 6 * 1000))

def recordExhausted (item : WorkItemRow) : Sched Unit :=
  appendNext item.executionId
    (.nodeFailed item.nodeId
      ("exhausted " ++ toString item.maxAttempts ++ " attempts: lease expired") item.attempt false)

/-- Reclaim expired work item leases and emit the events. -/
def reclaimExpiredLeases : Sched Unit := do
  let reclaimed ← reclaimRows
  Prog.forEach reclaimed.retryable recordRetry
  Prog.forEach reclaimed.exhausted recordExhausted

/-! Approval deadlines -/

/-- Record in the run's own log that an event has no audit entry; best effort. -/
def recordSealGap (e : ExecutionId) (event : Event) (error : String) : Sched Unit := do
  let _ ← (backend (.appendEvent e
    (.auditSealFailed event.sequence event.kind.typeTag error))).attempt

/-- Seal an expiry or escalation under the run's own tenant. -/
def sealEvent (cfg : SchedulerConfig) (e : ExecutionId) (event : Event) : Sched Unit :=
  if cfg.sealing then do
    match ← (backend (.executionTenant e)).attempt with
    | .ok (some tenant) =>
        match ← (here (.sealApprovalRecord e event tenant)).attempt with
        | .ok () => return ()
        | .error err => recordSealGap e event (reprStr err)
    | .ok none => recordSealGap e event "the run's tenant could not be read (Ok(None))"
    | .error err =>
        recordSealGap e event ("the run's tenant could not be read (Err(" ++ reprStr err ++ "))")
  else return ()

structure DeadlineSweep where
  expired : List NodeId := []
  escalated : List NodeId := []

def applyDeadline (cfg : SchedulerConfig) (e : ExecutionId) (sweep : DeadlineSweep) :
    Approvals.DeadlineAction → Sched DeadlineSweep
  | .expire node requestSequence expiresAt => do
      let kind := EventKind.approvalExpired node requestSequence expiresAt
        Approvals.deadlinePrincipal
      match ← backend (.appendEventIf e kind fun log =>
          Approvals.stillPending log node requestSequence) with
      | .appended sequence =>
          sealEvent cfg e ⟨sequence, kind⟩
          return { sweep with expired := sweep.expired ++ [node] }
      | _ => return sweep
  | .escalate node requestSequence escalateAt expiresAt => do
      let kind := EventKind.approvalEscalated node requestSequence escalateAt expiresAt
      match ← backend (.appendEventIf e kind fun log =>
          Approvals.stillPending log node requestSequence &&
            Approvals.notEscalated log node requestSequence) with
      | .appended sequence =>
          sealEvent cfg e ⟨sequence, kind⟩
          return { sweep with escalated := sweep.escalated ++ [node] }
      | _ => return sweep

def sweepApprovalDeadlines (cfg : SchedulerConfig) (e : ExecutionId) (now : Instant) :
    Sched DeadlineSweep := do
  let events ← backend (.getEvents e)
  (Approvals.dueDeadlineActions events now).foldlM (applyDeadline cfg e) {}

/-! One execution -/

/-- The cached progress advanced by the events since, written back. -/
def readProgress (e : ExecutionId) : Sched ExecProgress := do
  let cached ← here (.getProgress e)
  let progress := cached.getD {}
  let newEvents ← backend (.getEventsSince e progress.lastSequence)
  let progress := progress.applyAll newEvents
  here (.setProgress e progress)
  return progress

/-- A log this build cannot read: record the stall, once. -/
def recordStall (e : ExecutionId) (progress : ExecProgress) : Sched Unit :=
  if progress.stallRecorded then return ()
  else do
    let _ ← backend (.appendEventIf e (.runStalled Approvals.unreadableLogReason) fun log =>
      !log.any fun ev => ev.kind.isRunStalled)

/-- Only an execution holding a node on a request with a deadline is swept; a failed sweep is
left to a later tick. -/
def sweepDeadlines (cfg : SchedulerConfig) (e : ExecutionId) (progress : ExecProgress) :
    Sched Unit :=
  if (progress.held ∩ progress.deadlineRequests).Nonempty then do
    let now ← here .utcNow
    let _ ← (sweepApprovalDeadlines cfg e now).attempt
  else return ()

/-- Fail the nodes whose approval was rejected. -/
def failRejected (order : HashOrder NodeId) (e : ExecutionId) (progress : ExecProgress) :
    Sched Unit :=
  Prog.forEach ((order.walk progress.rejected.keys).filter (· ∉ progress.terminalFailed))
    fun node => appendNext e
      (.nodeFailed node ((progress.rejected.lookup node).getD "") 0 false)

/-- Skip one node, and fold the skip in locally under the sequence read before the append. -/
def skipNode (e : ExecutionId) (progress : ExecProgress) (node : NodeId) :
    Sched ExecProgress := do
  let latest ← backend (.latestSequence e)
  let kind := EventKind.nodeSkipped node "branch not taken"
  let _ ← backend (.appendEvent e kind)
  return progress.apply ⟨latest + 1, kind⟩

/-- The dead-edge fixpoint, at most so many passes. -/
def skipCascade (order : HashOrder NodeId) (ir : WorkflowIr) (e : ExecutionId) :
    ℕ → ExecProgress → Sched ExecProgress
  | 0, progress => return progress
  | passes + 1, progress =>
      match progress.newlySkippable order ir with
      | [] => return progress
      | node :: nodes => do
          let progress ← (node :: nodes).foldlM (skipNode e) progress
          skipCascade order ir e passes progress

/-- `NodeScheduled`, then the work item. -/
def dispatchNode (ir : WorkflowIr) (e : ExecutionId) (workflowId workflowVersion : String)
    (progress : ExecProgress) (nodeId : NodeId) (node : NodeDef) : Sched Unit := do
  let queueType := node.kind.queueType.asStr
  appendNext e (.nodeScheduled nodeId queueType)
  let now ← here .utcNow
  let _ ← backend (.enqueueWorkItem
    { executionId := e
      nodeId := nodeId
      queueType := queueType
      payload := buildWorkItemPayload ir nodeId node progress.finalState workflowId workflowVersion
      attempt := 0
      maxAttempts := maxAttemptsFor node.retryPolicy } now)

/-- The dispatch loop over the nodes still to look at; returns how many it enqueued. -/
def dispatch (cfg : SchedulerConfig) (ir : WorkflowIr) (e : ExecutionId)
    (workflowId workflowVersion : String) (progress : ExecProgress) :
    List NodeId → ℕ → Sched ℕ
  | [], enqueued => return enqueued
  | nodeId :: rest, enqueued =>
      if enqueued ≥ cfg.maxDispatchPerTick then return enqueued
      else if progress.scheduled.card + enqueued ≥ cfg.maxConcurrentNodesPerExecution then
        return enqueued
      else if nodeId ∈ progress.terminalFailed then
        dispatch cfg ir e workflowId workflowVersion progress rest enqueued
      else if progress.isRunnable ir nodeId then
        match ir.nodes.lookup nodeId with
        | some node => do
            dispatchNode ir e workflowId workflowVersion progress nodeId node
            dispatch cfg ir e workflowId workflowVersion progress rest (enqueued + 1)
        | none => dispatch cfg ir e workflowId workflowVersion progress rest enqueued
      else dispatch cfg ir e workflowId workflowVersion progress rest enqueued

/-- The terminal status of a run with nothing in flight, and its event. -/
def outcome (order : HashOrder NodeId) (progress : ExecProgress) :
    WorkflowStatus × EventKind :=
  if progress.terminalFailed = ∅ then
    (.completed, .workflowCompleted (.object progress.finalState))
  else
    let failed := (order.walk progress.terminalFailed).insertionSort (· ≤ ·)
    (.failed, .workflowFailed ("node(s) failed terminally: " ++ ", ".intercalate failed))

/-- Completion: nothing in flight and nothing dispatched. -/
def finishIfDone (order : HashOrder NodeId) (e : ExecutionId) (progress : ExecProgress)
    (enqueued : ℕ) : Sched Unit :=
  if enqueued = 0 ∧ progress.scheduled = ∅ then do
    let (status, kind) := outcome order progress
    let now ← here .utcNow
    let _ ← backend (.finishExecution e kind status now)
    here (.dropProgress e)
  else return ()

/-- Dispatch and completion, unless the execution is at its concurrency cap. -/
def dispatchAndFinish (cfg : SchedulerConfig) (order : HashOrder NodeId) (ir : WorkflowIr)
    (e : ExecutionId) (workflowId workflowVersion : String) (progress : ExecProgress) :
    Sched Unit :=
  if progress.scheduled.card ≥ cfg.maxConcurrentNodesPerExecution then return ()
  else do
    let enqueued ← dispatch cfg ir e workflowId workflowVersion progress
      (order.walk ir.nodes.keys) 0
    finishIfDone order e progress enqueued

/-- What a tick does with a readable log. -/
def advance (cfg : SchedulerConfig) (order : HashOrder NodeId) (ir : WorkflowIr)
    (e : ExecutionId) (workflowId workflowVersion : String) (progress : ExecProgress) :
    Sched Unit := do
  sweepDeadlines cfg e progress
  failRejected order e progress
  let progress ← skipCascade order ir e (ir.nodes.keys.card + 1) progress
  here (.setProgress e progress)
  dispatchAndFinish cfg order ir e workflowId workflowVersion progress

/-- For a given execution, find all nodes that can now run and enqueue them. -/
def scheduleRunnableNodes (cfg : SchedulerConfig) (order : HashOrder NodeId)
    (e : ExecutionId) (workflowId workflowVersion : String) : Sched Unit := do
  match ← here (.loadWorkflow workflowId workflowVersion) with
  | none => return ()
  | some ir =>
      let progress ← readProgress e
      if progress.unreadable then recordStall e progress
      else advance cfg order ir e workflowId workflowVersion progress

/-- A single tick: reclaim expired leases, then advance every running execution. -/
def tick (cfg : SchedulerConfig) (order : HashOrder NodeId) : Sched Unit := do
  let _ ← reclaimExpiredLeases.attempt
  let running ← backend (.listExecutions .running 100 0)
  Prog.forEach running fun x => do
    let _ ← (scheduleRunnableNodes cfg order x.executionId x.workflowId x.workflowVersion).attempt

end Scheduler

end JamJet
