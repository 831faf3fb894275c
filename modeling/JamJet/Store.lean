import JamJet.Approvals
import JamJet.Materializer
import JamJet.Table
import Mathlib.Data.Finset.Sort

/-! The SQLite store: its tables, and each of its transactions and free-standing statements as
one atomic step. -/

namespace JamJet

abbrev WorkItemId := ℕ

abbrev WorkerId := String

inductive WorkItemStatus
  | pending
  | claimed
  | completed
  | failed
  | deadLettered
  deriving DecidableEq, Repr

structure ExecutionRow where
  executionId : ExecutionId
  workflowId : String
  workflowVersion : String
  status : WorkflowStatus
  initialInput : Json
  updatedAt : Instant
  completedAt : Option Instant
  tenantId : String
  /-- The segment this one continues. -/
  parentExecutionId : Option ExecutionId := none
  segmentNumber : ℕ := 0

namespace ExecutionRow

/-- The end of a run; a completion time already there is kept. -/
def finish (status : WorkflowStatus) (now : Instant) (x : ExecutionRow) : ExecutionRow :=
  { x with
    status := status
    updatedAt := now
    completedAt := x.completedAt.or (some now) }

/-- A bare change of status. -/
def setStatus (status : WorkflowStatus) (now : Instant) (x : ExecutionRow) : ExecutionRow :=
  { x with
    status := status
    updatedAt := now
    completedAt := (if status.isTerminal then some now else none).or x.completedAt }

@[simp]
theorem finish_executionId (status : WorkflowStatus) (now : Instant) (x : ExecutionRow) :
    (x.finish status now).executionId = x.executionId :=
  rfl

@[simp]
theorem setStatus_executionId (status : WorkflowStatus) (now : Instant) (x : ExecutionRow) :
    (x.setStatus status now).executionId = x.executionId :=
  rfl

end ExecutionRow

structure WorkItemRow where
  id : WorkItemId
  executionId : ExecutionId
  nodeId : NodeId
  queueType : String
  payload : Json
  attempt : ℕ
  maxAttempts : ℕ
  status : WorkItemStatus
  createdAt : Instant
  workerId : Option WorkerId := none
  leaseExpiresAt : Option Instant := none
  claimedAt : Option Instant := none
  completedAt : Option Instant := none
  retryAfter : Option Instant := none
  leaseEpoch : ℤ := 0
  leaseFence : ℤ := 0
  leaseSecs : Option ℕ := none
  lastWorkerId : Option WorkerId := none
  lastLeaseFence : Option ℤ := none

structure DeadLetterRow where
  id : WorkItemId
  executionId : ExecutionId
  nodeId : NodeId
  queueType : String
  payload : Json
  attempt : ℕ
  lastError : String
  createdAt : Instant
  deadLetteredAt : Instant

structure ToolEffectRow where
  idempotencyKey : String
  executionId : ExecutionId
  nodeId : NodeId
  resultJson : Json
  recordedAt : Instant

/-- Who runs a tool effect, and until when nobody else may. -/
structure ToolReservationRow where
  idempotencyKey : String
  executionId : ExecutionId
  nodeId : NodeId
  owner : WorkerId
  leaseFence : ℤ
  expiresAt : Instant
  reservedAt : Instant

structure SnapshotRow where
  executionId : ExecutionId
  atSequence : EventSequence
  state : Json
  status : WorkflowStatus
  completedNodes : Finmap fun _ : NodeId => Json
  activeNodes : Finset NodeId
  lastSequence : EventSequence

/-- The database file. The events of an execution are its rows of the `events` table, in
sequence order. -/
structure Db where
  executions : Table ExecutionId ExecutionRow (·.executionId) := .empty
  events : ExecutionId → EventLog := fun _ => .empty
  workItems : Table WorkItemId WorkItemRow (·.id) := .empty
  deadLetters : Table WorkItemId DeadLetterRow (·.id) := .empty
  toolEffects : Table String ToolEffectRow (·.idempotencyKey) := .empty
  toolReservations : Table String ToolReservationRow (·.idempotencyKey) := .empty
  snapshots : Table (ExecutionId × EventSequence) SnapshotRow
    (fun s => (s.executionId, s.atSequence)) := .empty
  term : ℤ := 0

inductive BackendError
  | notFound (id : ℕ)
  | fenceLost (item : WorkItemId)
  | database (message : String)
  | versionConflict (message : String)
  deriving DecidableEq, Repr

inductive ConditionalAppend
  | appended (sequence : EventSequence)
  | refused
  | executionTerminal (status : WorkflowStatus)
  deriving DecidableEq, Repr

inductive ExecutionFinish
  | finished (sequence : EventSequence)
  | alreadyTerminal (status : WorkflowStatus)
  deriving DecidableEq, Repr

inductive TurnCommit
  | committed (sequence : EventSequence)
  | executionTerminal (status : WorkflowStatus)
  deriving DecidableEq, Repr

/-- The item with its new attempt number, and the backoff when it was requeued. -/
inductive FailOutcome
  | retryable (item : WorkItemRow) (delayMs : ℕ)
  | exhausted (item : WorkItemRow)

structure LeaseRenewal where
  leaseFence : ℤ
  reattached : Bool
  deriving DecidableEq, Repr

def defaultLeaseSecs : ℕ := 30

def minLeaseSecs : ℕ := 5

def maxLeaseSecs : ℕ := 3600

def grantedLeaseSecs (requested : Option ℕ) : ℕ :=
  match requested with
  | none => defaultLeaseSecs
  | some s => min (max s minLeaseSecs) maxLeaseSecs

/-- `seconds` from `now`. -/
def after (now : Instant) (seconds : ℕ) : Instant := now + seconds * 1000000000

/-- The exponential backoff of a retry, capped at 64 s. -/
def backoffSecs (newAttempt : ℕ) : ℕ := 2 ^ min newAttempt 6

/-- The fence packs the store's term and the item's epoch. -/
def mintFence (term epoch : ℤ) : ℤ := term * 4294967296 + epoch

/-- The low 32 bits. -/
def fenceEpoch (leaseFence : ℤ) : ℤ := leaseFence % 4294967296

def epochAfterExpiryOf (lostFence : ℤ) : ℤ := fenceEpoch lostFence + 1

namespace WorkItemRow

/-- Status `claimed` under exactly this fence: the guard of the fenced statements. -/
def claimedUnder (fence : ℤ) (r : WorkItemRow) : Bool :=
  r.leaseFence = fence ∧ r.status = .claimed

def isClaimed (r : WorkItemRow) : Bool := r.status = .claimed

/-- Pending or claimed. -/
def isLive (r : WorkItemRow) : Bool := r.status = .pending ∨ r.status = .claimed

/-- Claimed, with a lease that ran out before `now`. -/
def leaseExpired (now : Instant) (r : WorkItemRow) : Bool :=
  r.status = .claimed && r.leaseExpiresAt.any fun t => t < now

def complete (now : Instant) (r : WorkItemRow) : WorkItemRow :=
  { r with status := .completed, completedAt := some now, leaseExpiresAt := none }

def fail (r : WorkItemRow) : WorkItemRow :=
  { r with status := .failed, leaseExpiresAt := none, workerId := none }

/-- `fail` as a committed turn writes it. -/
def failTurn (r : WorkItemRow) : WorkItemRow := { fail r with completedAt := none }

def deadLetter (newAttempt : ℕ) (r : WorkItemRow) : WorkItemRow :=
  { r with
    status := .deadLettered
    attempt := newAttempt
    leaseExpiresAt := none
    workerId := none }

/-- Back to the queue from the holder's own hand (a reported failure, a park). -/
def release (newAttempt : ℕ) (retryAfter : Instant) (r : WorkItemRow) : WorkItemRow :=
  { r with
    status := .pending
    attempt := newAttempt
    workerId := none
    leaseExpiresAt := none
    retryAfter := some retryAfter
    leaseEpoch := r.leaseEpoch + 1
    leaseFence := 0 }

/-- Back to the queue from a lost lease, remembering who held it. -/
def expire (r : WorkItemRow) : WorkItemRow :=
  { r with
    status := .pending
    lastWorkerId := r.workerId
    lastLeaseFence := some r.leaseFence
    workerId := none
    leaseExpiresAt := none
    leaseEpoch := r.leaseEpoch + 1
    leaseFence := 0
    attempt := r.attempt + 1 }

/-- `expire` as the sweep writes it, the attempt taken from the row it selected earlier. -/
def sweepRequeue (newAttempt : ℕ) (retryAfter : Instant) (r : WorkItemRow) : WorkItemRow :=
  { r with
    status := .pending
    attempt := newAttempt
    lastWorkerId := r.workerId
    lastLeaseFence := some r.leaseFence
    workerId := none
    leaseExpiresAt := none
    retryAfter := some retryAfter
    leaseEpoch := r.leaseEpoch + 1
    leaseFence := 0 }

def claim (term : ℤ) (worker : WorkerId) (leaseLen : ℕ) (now : Instant) (r : WorkItemRow) :
    WorkItemRow :=
  { r with
    status := .claimed
    workerId := some worker
    leaseExpiresAt := some (after now leaseLen)
    claimedAt := some now
    leaseEpoch := r.leaseEpoch + 1
    leaseFence := mintFence term (r.leaseEpoch + 1)
    leaseSecs := some leaseLen }

def renew (leaseLen : ℕ) (now : Instant) (r : WorkItemRow) : WorkItemRow :=
  { r with leaseExpiresAt := some (after now leaseLen) }

/-- The lost lease handed back under a new fence, with the attempt the expiry charged. -/
def reattach (term : ℤ) (worker : WorkerId) (now : Instant) (r : WorkItemRow) : WorkItemRow :=
  { r with
    status := .claimed
    workerId := some worker
    leaseExpiresAt := some (after now (r.leaseSecs.getD defaultLeaseSecs))
    claimedAt := some now
    leaseEpoch := r.leaseEpoch + 1
    leaseFence := mintFence term (r.leaseEpoch + 1)
    attempt := r.attempt - 1
    lastWorkerId := none
    lastLeaseFence := none }

/-- The guard of a re-attach: pending from the expiry of exactly this lease. -/
def reattachable (worker : WorkerId) (lostFence : ℤ) (r : WorkItemRow) : Bool :=
  r.status = .pending ∧ r.workerId = none ∧ r.lastWorkerId = some worker ∧
    r.lastLeaseFence = some lostFence ∧ r.leaseEpoch = epochAfterExpiryOf lostFence

@[simp]
theorem complete_id (now : Instant) (r : WorkItemRow) : (r.complete now).id = r.id := rfl

@[simp]
theorem fail_id (r : WorkItemRow) : (r.fail).id = r.id := rfl

@[simp]
theorem failTurn_id (r : WorkItemRow) : (r.failTurn).id = r.id := rfl

@[simp]
theorem deadLetter_id (n : ℕ) (r : WorkItemRow) : (r.deadLetter n).id = r.id := rfl

@[simp]
theorem release_id (n : ℕ) (t : Instant) (r : WorkItemRow) : (r.release n t).id = r.id := rfl

@[simp]
theorem expire_id (r : WorkItemRow) : (r.expire).id = r.id := rfl

@[simp]
theorem sweepRequeue_id (n : ℕ) (t : Instant) (r : WorkItemRow) :
    (r.sweepRequeue n t).id = r.id :=
  rfl

@[simp]
theorem claim_id (term : ℤ) (w : WorkerId) (n : ℕ) (now : Instant) (r : WorkItemRow) :
    (r.claim term w n now).id = r.id :=
  rfl

@[simp]
theorem renew_id (n : ℕ) (now : Instant) (r : WorkItemRow) : (r.renew n now).id = r.id := rfl

@[simp]
theorem reattach_id (term : ℤ) (w : WorkerId) (now : Instant) (r : WorkItemRow) :
    (r.reattach term w now).id = r.id :=
  rfl

def toDeadLetter (r : WorkItemRow) (newAttempt : ℕ) (lastError : String) (now : Instant) :
    DeadLetterRow where
  id := r.id
  executionId := r.executionId
  nodeId := r.nodeId
  queueType := r.queueType
  payload := r.payload
  attempt := newAttempt
  lastError := lastError
  createdAt := r.createdAt
  deadLetteredAt := now

end WorkItemRow

/-- The columns an `INSERT INTO work_items` binds; the id is a fresh UUID. -/
structure NewWorkItem where
  executionId : ExecutionId
  nodeId : NodeId
  queueType : String
  payload : Json
  attempt : ℕ
  maxAttempts : ℕ

def NewWorkItem.toRow (item : NewWorkItem) (id : WorkItemId) (now : Instant) : WorkItemRow where
  id := id
  executionId := item.executionId
  nodeId := item.nodeId
  queueType := item.queueType
  payload := item.payload
  attempt := item.attempt
  maxAttempts := item.maxAttempts
  status := .pending
  createdAt := now

end JamJet
