import JamJet.Engine
import JamJet.ProcessPool

/-! The API server beside the scheduler: approval decisions, cancellations and scheduler ticks as
processes over one database. -/

namespace JamJet

open AtomicCalls Approvals

/-- What a request handler does besides calling the backend.  The condition of its append reads
the clock inside the append. -/
inductive ApiOp : Type → Type
  | appendEventIf (e : ExecutionId) (kind : EventKind) (condition : Instant → List Event → Bool) :
      ApiOp ConditionalAppend

abbrev ServerOp (β : Type) : Type := SchedOp β ⊕ ApiOp β

abbrev Server := Prog ServerOp BackendError

structure ApprovalSubmission where
  nodeId : Option NodeId
  userId : String
  principal : Option String
  decision : ApprovalDecision
  comment : Option String
  statePatch : Option Json
  actionDigest : Option String
  devMode : Bool

structure ApprovalPolicy where
  allowSelfApproval : Bool := false

inductive SubmitError
  | noPending
  | multiplePending (nodes : List NodeId)
  | nodeNotPending (node : NodeId)
  | executionTerminal (status : WorkflowStatus)
  | selfApproval
  | initiatorUnknown
  | staleDigest
  | digestRequired
  | principalMissing
  | editsUnsupported
  | expired (node : NodeId)
  | unreadableLog
  | superseded (node : NodeId)
  deriving DecidableEq, Repr

namespace Api

def backend {α : Type} (op : BackendOp α) : Server α := Prog.perform (.inl (.inl op))

def utcNow : Server Instant := Prog.perform (.inl (.inr .utcNow))

def appendEventIf (e : ExecutionId) (kind : EventKind)
    (condition : Instant → List Event → Bool) : Server ConditionalAppend :=
  Prog.perform (.inr (.appendEventIf e kind condition))

/-- The node of the run's latest approval request, if any. -/
def latestRequestedNode (events : List Event) : Option NodeId :=
  events.reverse.findSome? fun e => match e.kind with
    | .toolApprovalRequired node _ _ _ => some node
    | _ => none

variable [Chrono]

/-- The node a decision is for: the one it names, or the only one pending. -/
def resolveNode (events : List Event) (nodeId : Option NodeId) : Except SubmitError NodeId :=
  let pending := pendingApprovals events
  match nodeId.filter fun n => !n.isEmpty with
  | some n =>
      if pending.any fun p => p.node = n then .ok n
      else if expiredByDeadline events n then .error (.expired n)
      else .error (.nodeNotPending n)
  | none =>
      match pending with
      | [] =>
          match latestRequestedNode events with
          | some n => if expiredByDeadline events n then .error (.expired n) else .error .noPending
          | none => .error .noPending
      | [only] => .ok only.node
      | many => .error (.multiplePending (many.map (·.node)))

/-- Separation of duties: who started a run does not approve its actions. -/
def separationOfDuties (events : List Event) (submission : ApprovalSubmission)
    (policy : ApprovalPolicy) : Except SubmitError Unit :=
  if submission.decision = .approved ∧ policy.allowSelfApproval = false then
    match runInitiator events, submission.principal with
    | some initiator, some principal =>
        if initiator = principal then .error .selfApproval else .ok ()
    | none, _ => if submission.devMode then .ok () else .error .initiatorUnknown
    | some _, none => .ok ()
  else .ok ()

/-- An approval outside dev mode echoes what it was shown, and an echo must match. -/
def checkBinding (request : PendingApproval) (submission : ApprovalSubmission) :
    Except SubmitError Unit :=
  if submission.devMode = false ∧ submission.decision = .approved ∧ request.binding.isSome ∧
      submission.actionDigest = none then
    .error .digestRequired
  else
    match submission.actionDigest with
    | some echoed => if request.binding = some echoed then .ok () else .error .staleDigest
    | none => .ok ()

/-- What is checked against the log as it was read, before the clock is. -/
def openRequest (events : List Event) (submission : ApprovalSubmission) (policy : ApprovalPolicy) :
    Except SubmitError PendingApproval := do
  if hasUnreadableEvents events then throw .unreadableLog
  let node ← resolveNode events submission.nodeId
  if submission.devMode = false ∧ submission.principal = none then throw .principalMissing
  separationOfDuties events submission policy
  match (pendingApprovals events).find? fun p => p.node = node with
  | none => throw (.nodeNotPending node)
  | some request => return request

/-- The decision recorded for a request. -/
def answerOf (request : PendingApproval) (submission : ApprovalSubmission) : ApprovalAnswer where
  userId := submission.userId
  decision := submission.decision
  comment := submission.comment
  statePatch := none
  principal := submission.principal
  approvedDigest := match submission.decision with
    | .approved => request.actionDigest
    | .rejected => none
  requestSequence := some request.sequence

/-- Append the decision while the request is open, and then the legacy flip from paused to
running, decided by the status read at the start. -/
def recordDecision (e : ExecutionId) (request : PendingApproval) (submission : ApprovalSubmission)
    (wasPaused : Bool) : Server (Except SubmitError (NodeId × Event)) := do
  let kind := EventKind.approvalReceived request.node (answerOf request submission)
  match ← appendEventIf e kind fun now log =>
      stillOpen log request.node request.sequence now with
  | .executionTerminal status => return .error (.executionTerminal status)
  | .refused =>
      let latest ← backend (.getEvents e)
      let now ← utcNow
      if expiredByDeadline latest request.node || pendingButExpired latest request.node now then
        return .error (.expired request.node)
      else return .error (.superseded request.node)
  | .appended sequence =>
      if wasPaused then
        let now ← utcNow
        backend (.updateExecutionStatus e .running now)
      return .ok (request.node, ⟨sequence, kind⟩)

/-- Validate against derived pending state, then append `ApprovalReceived`. -/
def submitApproval (e : ExecutionId) (submission : ApprovalSubmission) (policy : ApprovalPolicy) :
    Server (Except SubmitError (NodeId × Event)) :=
  match submission.statePatch.getD .null with
  | .null => do
      let execution ← backend (.getExecution e)
      let status := execution.map ExecutionRow.status
      match status.filter WorkflowStatus.isTerminal with
      | some terminal => return .error (.executionTerminal terminal)
      | none =>
          let events ← backend (.getEvents e)
          match openRequest events submission policy with
          | .error err => return .error err
          | .ok request =>
              let now ← utcNow
              if request.expired now then return .error (.expired request.node)
              else
                match checkBinding request submission with
                | .error err => return .error err
                | .ok () => recordDecision e request submission (status = some .paused)
  | _ => return .error .editsUnsupported

/-- `cancel_execution`; `false` when the execution is terminal already. -/
def cancelExecution (e : ExecutionId) : Server Bool := do
  match ← backend (.getExecution e) with
  | none => Prog.done (.error (.notFound e))
  | some execution =>
      if execution.status.isTerminal then return false
      else
        let now ← utcNow
        match ← backend (.finishExecution e (.workflowCancelled (some "user request")) .cancelled
            now) with
        | .finished _ => return true
        | .alreadyTerminal _ => return false

end Api

/-- What a process of the server is started on: a decision, a cancellation, a scheduler tick, or a
sweep of the deadlines by a clock of its own. -/
inductive ServerJob
  | submitApproval (e : ExecutionId) (submission : ApprovalSubmission) (policy : ApprovalPolicy)
  | cancelExecution (e : ExecutionId)
  | tick (order : HashOrder NodeId)
  | sweepApprovalDeadlines (e : ExecutionId) (now : Instant)

/-- What happens beside the processes.  The clock is whatever the next reader of it has. -/
inductive ServerAct : Type 1
  | call {β : Type} (op : BackendOp β)
  | setClock (now : Instant)

namespace Sys

def serverAct (s : Sys) : ServerAct → Sys
  | .call op => s.act (.call op)
  | .setClock now => { s with clock := now }

def handleServer (irOf : String → String → Option WorkflowIr) {β : Type} (op : ServerOp β)
    (s : Sys) : Except BackendError β × Sys :=
  match op with
  | .inl op => s.handle irOf op
  | .inr (.appendEventIf e kind condition) =>
      s.callBackend (.appendEventIf e kind (condition s.clock))

end Sys

def serverFallible {β : Type} : ServerOp β → Bool
  | .inl op => fallible op
  | .inr _ => true

/-- Scheduler code as a process of the server. -/
def Sched.toServer {α : Type} (p : Sched α) : Server α := Prog.mapOps (fun op => .inl op) p

/-- Any number of request handlers and schedulers beside workers and other parties. -/
def server [Chrono] (cfg : SchedulerConfig) (irOf : String → String → Option WorkflowIr) :
    Service ServerOp BackendError Unit Sys ServerAct ServerJob where
  handle op s := s.handleServer irOf op
  fallible op := serverFallible op
  act a s := s.serverAct a
  program
    | .submitApproval e submission policy => do
        let _ ← Api.submitApproval e submission policy
        return ()
    | .cancelExecution e => do
        let _ ← Api.cancelExecution e
        return ()
    | .tick order => Sched.toServer (Scheduler.tick cfg order)
    | .sweepApprovalDeadlines e now => do
        let _ ← Sched.toServer (Scheduler.sweepApprovalDeadlines cfg e now)
        return ()

abbrev ServerPool := Pool ServerOp BackendError Unit Sys

abbrev ServerMove := PoolMove BackendError ServerAct ServerJob

abbrev ServerRules := Rules ServerOp Sys ServerAct ServerJob

end JamJet
