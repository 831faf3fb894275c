import JamJet.Backend

/-! The in-memory backend of tests and simulators: maps beside each other, changed one entry at a
time.  An item is claimed while it has a worker, and settled by its removal. -/

namespace JamJet

structure WorkItem where
  id : WorkItemId
  executionId : ExecutionId
  nodeId : NodeId
  queueType : String
  payload : Json
  attempt : ℕ
  maxAttempts : ℕ
  createdAt : Instant
  leaseExpiresAt : Option Instant := none
  workerId : Option WorkerId := none
  leaseFence : ℤ := 0

namespace WorkItem

/-- Claimed under exactly this fence. -/
def heldUnder (fence : ℤ) (item : WorkItem) : Bool :=
  item.workerId.isSome ∧ item.leaseFence = fence

/-- Claimed, with a lease that ran out before `now`. -/
def lapsed (now : Instant) (item : WorkItem) : Bool :=
  item.leaseExpiresAt.any (fun t => t < now) && item.workerId.isSome

/-- Back to the queue from a lost lease, on the claim path. -/
def expire (item : WorkItem) : WorkItem :=
  { item with
    workerId := none
    leaseExpiresAt := none
    leaseFence := 0
    attempt := item.attempt + 1 }

/-- Back to the queue from a lost lease, in the sweep.  The fence stays. -/
def sweepRequeue (item : WorkItem) : WorkItem :=
  { item with
    attempt := item.attempt + 1
    workerId := none
    leaseExpiresAt := none }

def claim (worker : WorkerId) (fence : ℤ) (leaseLen : ℕ) (now : Instant) (item : WorkItem) :
    WorkItem :=
  { item with
    workerId := some worker
    leaseExpiresAt := some (after now leaseLen)
    leaseFence := fence }

def renew (leaseLen : ℕ) (now : Instant) (item : WorkItem) : WorkItem :=
  { item with leaseExpiresAt := some (after now leaseLen) }

def reattach (worker : WorkerId) (fence : ℤ) (leaseLen : ℕ) (now : Instant) (item : WorkItem) :
    WorkItem :=
  { item with
    workerId := some worker
    leaseExpiresAt := some (after now leaseLen)
    leaseFence := fence
    attempt := item.attempt - 1 }

/-- Back to the queue from a reported failure.  The fence stays. -/
def fail (error : String) (item : WorkItem) : WorkItem :=
  { item with
    attempt := item.attempt + 1
    workerId := none
    leaseExpiresAt := none
    payload := match item.payload with
      | .object fields => .object (BTree.insert fields "last_error" (.string error))
      | other => other }

def park (nextAttempt : ℕ) (item : WorkItem) : WorkItem :=
  { item with
    attempt := nextAttempt
    workerId := none
    leaseExpiresAt := none
    leaseFence := 0 }

@[simp]
theorem expire_id (item : WorkItem) : item.expire.id = item.id := rfl

@[simp]
theorem sweepRequeue_id (item : WorkItem) : item.sweepRequeue.id = item.id := rfl

@[simp]
theorem claim_id (worker : WorkerId) (fence : ℤ) (leaseLen : ℕ) (now : Instant) (item : WorkItem) :
    (item.claim worker fence leaseLen now).id = item.id :=
  rfl

@[simp]
theorem renew_id (leaseLen : ℕ) (now : Instant) (item : WorkItem) :
    (item.renew leaseLen now).id = item.id :=
  rfl

@[simp]
theorem reattach_id (worker : WorkerId) (fence : ℤ) (leaseLen : ℕ) (now : Instant)
    (item : WorkItem) : (item.reattach worker fence leaseLen now).id = item.id :=
  rfl

@[simp]
theorem fail_id (error : String) (item : WorkItem) : (item.fail error).id = item.id := rfl

@[simp]
theorem park_id (nextAttempt : ℕ) (item : WorkItem) : (item.park nextAttempt).id = item.id := rfl

end WorkItem

structure InMemoryBackend where
  executions : Table ExecutionId ExecutionRow (·.executionId) := .empty
  events : ExecutionId → List Event := fun _ => []
  snapshots : ExecutionId → List SnapshotRow := fun _ => []
  workItems : Table WorkItemId WorkItem (·.id) := .empty
  deadLetter : Table WorkItemId WorkItem (·.id) := .empty
  toolEffects : String → Option Json := fun _ => none
  /-- The next sequence number, of all executions together. -/
  nextSequence : EventSequence := 1
  leaseEpochs : WorkItemId → Option ℤ := fun _ => none
  storeTerm : ℤ := 0
  leaseSecs : WorkItemId → Option ℕ := fun _ => none
  /-- Who held an expired lease, and under which fence. -/
  lastLease : WorkItemId → Option (WorkerId × ℤ) := fun _ => none

namespace InMemoryBackend

variable (m : InMemoryBackend)

def pushEvent (e : ExecutionId) (kind : EventKind) : EventSequence × InMemoryBackend :=
  (m.nextSequence, { m with
    events := Function.update m.events e (m.events e ++ [⟨m.nextSequence, kind⟩])
    nextSequence := m.nextSequence + 1 })

def epoch (id : WorkItemId) : ℤ := (m.leaseEpochs id).getD 0

/-- One more than the epoch of an item, so that the next claim of it mints a greater fence. -/
def bumpEpoch (id : WorkItemId) : InMemoryBackend :=
  { m with leaseEpochs := Function.update m.leaseEpochs id (some (m.epoch id + 1)) }

def setItem (id : WorkItemId) (f : WorkItem → WorkItem) (hf : ∀ item, (f item).id = item.id) :
    InMemoryBackend :=
  { m with workItems := m.workItems.update id (fun _ => true) f hf }

def removeItem (id : WorkItemId) : InMemoryBackend :=
  { m with workItems := m.workItems.delete id fun _ => true }

/-- An execution that is not there is not terminal. -/
def isTerminal (e : ExecutionId) : Bool := (m.executions.find? e).any fun x => x.status.isTerminal

/-- Who holds an item, remembered for a late heartbeat. -/
def rememberLease (item : WorkItem) : InMemoryBackend :=
  { m with
    lastLease := Function.update m.lastLease item.id (some (item.workerId.getD "", item.leaseFence)) }

/-! Claims -/

/-- The claim path's reclaim of one entry. -/
def expireOne (now : Instant) (item : WorkItem) : InMemoryBackend :=
  if !item.lapsed now then m
  else if m.isTerminal item.executionId then m.removeItem item.id
  else if item.attempt + 1 < item.maxAttempts then
    let requeued := ((m.rememberLease item).bumpEpoch item.id).setItem item.id WorkItem.expire
      WorkItem.expire_id
    let failed := (requeued.pushEvent item.executionId
      (.nodeFailed item.nodeId "lease expired: worker presumed dead" item.attempt true)).2
    (failed.pushEvent item.executionId (.retryScheduled item.nodeId (item.attempt + 1) 0)).2
  else m

def expireLapsed (now : Instant) : InMemoryBackend :=
  m.workItems.rows.foldl (fun m item => m.expireOne now item) m

/-- Take the first unclaimed entry on one of the queues, in the order of the map. -/
def claimFirst (worker : WorkerId) (queueTypes : List String) (leaseSecs : Option ℕ)
    (now : Instant) : Option WorkItemId × InMemoryBackend :=
  match m.workItems.rows.find? fun item => item.workerId = none ∧ item.queueType ∈ queueTypes with
  | none => (none, m)
  | some item =>
      let leaseLen := grantedLeaseSecs leaseSecs
      let fence := mintFence m.storeTerm (m.epoch item.id + 1)
      let claimed := (m.bumpEpoch item.id).setItem item.id (WorkItem.claim worker fence leaseLen now)
        (WorkItem.claim_id worker fence leaseLen now)
      (some item.id, { claimed with
        leaseSecs := Function.update m.leaseSecs item.id (some leaseLen)
        lastLease := Function.update m.lastLease item.id none })

def claimWorkItemWithLease (worker : WorkerId) (queueTypes : List String) (leaseSecs : Option ℕ)
    (expiryNow now : Instant) : Option WorkItemId × InMemoryBackend :=
  (m.expireLapsed expiryNow).claimFirst worker queueTypes leaseSecs now

/-! Leases -/

def leaseLenOf (id : WorkItemId) : ℕ := (m.leaseSecs id).getD defaultLeaseSecs

def renewLease (id : WorkItemId) (worker : WorkerId) (fence : ℤ) (now : Instant) :
    Except BackendError Unit × InMemoryBackend :=
  match m.workItems.find? id with
  | none => (.error (.notFound id), m)
  | some item =>
      if item.workerId ≠ some worker then (.error (.fenceLost id), m)
      else if item.leaseFence ≠ fence then (.error (.fenceLost id), m)
      else (.ok (), m.setItem id (WorkItem.renew (m.leaseLenOf id) now)
        (WorkItem.renew_id (m.leaseLenOf id) now))

/-- The re-attach of an item pending from the expiry of exactly this lease. -/
def reattachLease (id : WorkItemId) (worker : WorkerId) (fence : ℤ) (now : Instant) :
    Except BackendError LeaseRenewal × InMemoryBackend :=
  match m.lastLease id with
  | none => (.error (.fenceLost id), m)
  | some (lastWorker, lastFence) =>
      if lastWorker ≠ worker ∨ lastFence ≠ fence then (.error (.fenceLost id), m)
      else
        match m.workItems.find? id with
        | none => (.error (.notFound id), m)
        | some item =>
            if item.workerId.isSome ∨ m.epoch id ≠ epochAfterExpiryOf fence then
              (.error (.fenceLost id), m)
            else
              let newFence := mintFence m.storeTerm (m.epoch id + 1)
              let held := (m.bumpEpoch id).setItem id
                (WorkItem.reattach worker newFence (m.leaseLenOf id) now)
                (WorkItem.reattach_id worker newFence (m.leaseLenOf id) now)
              (.ok ⟨newFence, true⟩, { held with
                lastLease := Function.update m.lastLease id none })

def heartbeatLease (id : WorkItemId) (worker : WorkerId) (fence : ℤ) (now : Instant) :
    Except BackendError LeaseRenewal × InMemoryBackend :=
  match m.renewLease id worker fence now with
  | (.ok (), renewed) => (.ok ⟨fence, false⟩, renewed)
  | (.error (.fenceLost _), _) => m.reattachLease id worker fence now
  | (.error err, _) => (.error err, m)

/-! Settles -/

/-- `remove_if`: the entry leaves when it is claimed under this fence. -/
def removeHeld (id : WorkItemId) (fence : ℤ) : Bool × InMemoryBackend :=
  if m.workItems.hits id (WorkItem.heldUnder fence) then (true, m.removeItem id) else (false, m)

def completeWorkItemFenced (id : WorkItemId) (fence : ℤ) : Bool × InMemoryBackend :=
  m.removeHeld id fence

def withdrawWorkItemFenced (id : WorkItemId) (fence : ℤ) : Bool × InMemoryBackend :=
  m.removeHeld id fence

/-- Whether the failure was accepted; a spent item leaves the queue. -/
def failWorkItemFenced (id : WorkItemId) (fence : ℤ) (error : String) : Bool × InMemoryBackend :=
  match (m.workItems.find? id).filter (WorkItem.heldUnder fence) with
  | none => (false, m)
  | some item =>
      let failed := (m.setItem id (WorkItem.fail error) (WorkItem.fail_id error)).bumpEpoch id
      if item.attempt + 1 ≥ item.maxAttempts then (true, failed.removeItem id) else (true, failed)

/-- The guard tests the fence alone. -/
def parkWorkItem (id : WorkItemId) (fence : ℤ) (nextAttempt : ℕ) : Bool × InMemoryBackend :=
  if m.workItems.hits id fun item => item.leaseFence = fence then
    (true, (m.setItem id (WorkItem.park nextAttempt) (WorkItem.park_id nextAttempt)).bumpEpoch id)
  else (false, m)

/-- The guard tests the fence alone. -/
def finalizeRolloverFenced (e : ExecutionId) (id : WorkItemId) (fence : ℤ) (now : Instant) :
    Bool × InMemoryBackend :=
  if m.workItems.hits id fun item => item.leaseFence = fence then
    (true, { m.removeItem id with
      executions := m.executions.update e (fun x => !x.status.isTerminal)
        (fun x => { x with status := .limitExceeded, updatedAt := now }) fun _ => rfl })
  else (false, m)

/-- The snapshot of an execution's log as it stands, taken from the latest one. -/
def writeSnapshot (e : ExecutionId) : InMemoryBackend :=
  let (base, baseSequence) :=
    match ((m.snapshots e).insertionSort fun a b => b.atSequence ≤ a.atSequence).head? with
    | some snap =>
        ({ currentState := snap.state
           status := snap.status
           completedNodes := snap.completedNodes
           activeNodes := snap.activeNodes
           lastSequence := snap.lastSequence : Materializer.MaterializedState }, snap.atSequence)
    | none => (Materializer.ofInitialInput
        (((m.executions.find? e).map (·.initialInput)).getD (.object [])), 0)
  let mat := Materializer.applyEventsSeeded base
    ((m.events e).filter fun x => baseSequence < x.sequence)
  let snap : SnapshotRow :=
    { executionId := e
      atSequence := mat.lastSequence
      state := mat.currentState
      status := mat.status
      completedNodes := mat.completedNodes
      activeNodes := mat.activeNodes
      lastSequence := mat.lastSequence }
  { m with snapshots := Function.update m.snapshots e (m.snapshots e ++ [snap]) }

/-- The first effect recorded under a key stays. -/
def recordToolEffect (e : ExecutionId) (kind : EventKind) : InMemoryBackend :=
  match Db.toolEffectOf e kind 0 with
  | none => m
  | some row =>
      { m with
        toolEffects := Function.update m.toolEffects row.idempotencyKey
          ((m.toolEffects row.idempotencyKey).or (some row.resultJson)) }

/-- The guard tests the fence alone. -/
def commitTurn (id : WorkItemId) (fence : ℤ) (e : ExecutionId) (kind : EventKind)
    (snapshot : Bool) : Except BackendError EventSequence × InMemoryBackend :=
  match kind with
  | .nodeCompleted .. | .nodeFailed .. =>
      if m.workItems.hits id fun item => item.leaseFence = fence then
        let (sequence, appended) := (m.removeItem id).pushEvent e kind
        let recorded := appended.recordToolEffect e kind
        (.ok sequence, if snapshot then recorded.writeSnapshot e else recorded)
      else (.error (.fenceLost id), m)
  | _ => (.error (.database "commit_turn requires a terminal event (NodeCompleted/NodeFailed)"), m)

/-! The sweep -/

/-- The sweep of one entry: its attempt is charged, and it is requeued or moved to the dead
letters. -/
def reclaimOne (now : Instant) (item : WorkItem) : InMemoryBackend :=
  if !item.lapsed now then m
  else if item.attempt + 1 < item.maxAttempts then
    ((m.rememberLease item).bumpEpoch item.id).setItem item.id WorkItem.sweepRequeue
      WorkItem.sweepRequeue_id
  else
    let removed := m.removeItem item.id
    { removed with deadLetter := m.deadLetter.put { item with attempt := item.attempt + 1 } }

def reclaimExpiredLeases (now : Instant) : InMemoryBackend :=
  m.workItems.rows.foldl (fun m item => m.reclaimOne now item) m

end InMemoryBackend

end JamJet
