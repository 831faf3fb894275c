import JamJet.Event

/-! Approval state derived from the event log, and what a deadline sweep finds due. -/

namespace JamJet.Approvals

def expiresAtKey : String := "expires_at"

def escalateAtKey : String := "escalate_at"

def deadlinePrincipal : String := "system:deadline"

def unreadableLogReason : String :=
  "the run's event log contains event kinds this build " ++
    "cannot read (written by a newer release); approval state cannot be determined, so " ++
    "nothing is released or decided; upgrade the engine"

def actionDigestKey : String := "action_digest"

def callsHashKey : String := "calls_hash"

/-- A `ToolApprovalRequired` that has not been decided yet. -/
structure PendingApproval where
  node : NodeId
  toolName : String
  approver : String
  context : Json
  sequence : EventSequence
  deriving Repr

/-- The digest of the action the request was made for, if it carries one. -/
def PendingApproval.actionDigest (p : PendingApproval) : Option String :=
  (p.context.get actionDigestKey).bind Json.asStr

/-- What a decider echoes: the action digest, or the hash of the calls of an older dispatch
request. -/
def PendingApproval.binding (p : PendingApproval) : Option String :=
  p.actionDigest.or ((p.context.get callsHashKey).bind Json.asStr)

inductive NodeApprovalStatus
  | notRequested
  | pending (request : PendingApproval)
  | approved (userId : String) (sequence : EventSequence) (approvedDigest : Option String)
  | rejected (userId : String) (comment : Option String) (sequence : EventSequence)
  | indeterminate
  deriving Repr

variable [Chrono]

/-- The comment an expiry is recorded with in the approval state. -/
def expiryComment (expiresAt : Instant) : String :=
  "approval request expired undecided at its deadline " ++ Chrono.toRfc3339Millis expiresAt

/-- One event's effect on the approval status of a node. -/
def applyStatus (nodeId : NodeId) (status : NodeApprovalStatus) (event : Event) :
    NodeApprovalStatus :=
  match event.kind with
  | .toolApprovalRequired n toolName approver context =>
      if n = nodeId then .pending ⟨n, toolName, approver, context, event.sequence⟩ else status
  | .approvalReceived n answer =>
      if n = nodeId then
        match status with
        | .pending _ =>
            match answer.decision with
            | .approved => .approved answer.userId event.sequence answer.approvedDigest
            | .rejected => .rejected answer.userId answer.comment event.sequence
        | _ => status
      else status
  | .approvalExpired n requestSequence expiresAt _ =>
      if n = nodeId then
        match status with
        | .pending p =>
            if p.sequence = requestSequence then
              .rejected deadlinePrincipal (some (expiryComment expiresAt)) event.sequence
            else status
        | _ => status
      else status
  | _ => status

def hasUnreadableEvents (events : List Event) : Bool :=
  events.any fun e => match e.kind with
    | .unknown => true
    | _ => false

/-- Fold events, in sequence order, into the status of a node. -/
def nodeApprovalStatus (events : List Event) (nodeId : NodeId) : NodeApprovalStatus :=
  if hasUnreadableEvents events then .indeterminate
  else events.foldl (applyStatus nodeId) .notRequested

/-- One event's effect on the undecided requests, by node. -/
def applyPending (byNode : BTree (Option PendingApproval)) (event : Event) :
    BTree (Option PendingApproval) :=
  match event.kind with
  | .toolApprovalRequired n toolName approver context =>
      byNode.insert n (some ⟨n, toolName, approver, context, event.sequence⟩)
  | .approvalExpired n requestSequence _ _ =>
      match BTree.get byNode n with
      | some slot =>
          if slot.map (·.sequence) = some requestSequence then byNode.insert n none else byNode
      | none => byNode
  | .approvalReceived n _ =>
      match BTree.get byNode n with
      | some _ => byNode.insert n none
      | none => byNode
  | _ => byNode

/-- All nodes whose latest `ToolApprovalRequired` is undecided. -/
def pendingApprovals (events : List Event) : List PendingApproval :=
  (events.foldl applyPending []).filterMap (·.2)

inductive DeadlineTime
  | unset
  | at (time : Instant)
  | unreadable
  deriving DecidableEq, Repr

def DeadlineTime.read (context : Json) (key : String) : DeadlineTime :=
  match context.get key with
  | none => .unset
  | some v =>
      match v.asStr.bind Chrono.parseFromRfc3339 with
      | some t => .at t
      | none => .unreadable

def DeadlineTime.passed (t : DeadlineTime) (now : Instant) : Bool :=
  match t with
  | .unset => false
  | .at time => time ≤ now
  | .unreadable => true

/-- The recorded time, or the reader's own time when there is none to read. -/
def DeadlineTime.orNow (t : DeadlineTime) (now : Instant) : Instant :=
  match t with
  | .at time => time
  | _ => now

inductive DeadlineAction
  | expire (node : NodeId) (requestSequence : EventSequence) (expiresAt : Instant)
  | escalate (node : NodeId) (requestSequence : EventSequence) (escalateAt expiresAt : Instant)
  deriving DecidableEq, Repr

/-- The request at this sequence has not been escalated yet. -/
def notEscalated (events : List Event) (nodeId : NodeId) (requestSequence : EventSequence) :
    Bool :=
  !events.any fun e => match e.kind with
    | .approvalEscalated n r _ _ => n = nodeId ∧ r = requestSequence
    | _ => false

/-- What a sweep at `now` records for one pending request. -/
def dueAction (events : List Event) (now : Instant) (p : PendingApproval) :
    Option DeadlineAction :=
  let expiresAt := DeadlineTime.read p.context expiresAtKey
  let escalateAt := DeadlineTime.read p.context escalateAtKey
  if expiresAt.passed now then some (.expire p.node p.sequence (expiresAt.orNow now))
  else
    match expiresAt with
    | .at time =>
        if escalateAt.passed now && notEscalated events p.node p.sequence then
          some (.escalate p.node p.sequence (escalateAt.orNow now) time)
        else none
    | _ => none

def dueDeadlineActions (events : List Event) (now : Instant) : List DeadlineAction :=
  (pendingApprovals events).filterMap (dueAction events now)

/-- The node's approval is pending on exactly the request recorded at this sequence. -/
def stillPending (events : List Event) (nodeId : NodeId) (requestSequence : EventSequence) :
    Bool :=
  match nodeApprovalStatus events nodeId with
  | .pending p => p.sequence = requestSequence
  | _ => false

/-- The request has reached its deadline at `now`. -/
def PendingApproval.expired (p : PendingApproval) (now : Instant) : Bool :=
  (DeadlineTime.read p.context expiresAtKey).passed now

/-- `stillPending`, and the deadline has not passed: the condition a decision is appended
under. -/
def stillOpen (events : List Event) (nodeId : NodeId) (requestSequence : EventSequence)
    (now : Instant) : Bool :=
  match nodeApprovalStatus events nodeId with
  | .pending p => p.sequence = requestSequence ∧ p.expired now = false
  | _ => false

/-- Pending, but no longer decidable. -/
def pendingButExpired (events : List Event) (nodeId : NodeId) (now : Instant) : Bool :=
  match nodeApprovalStatus events nodeId with
  | .pending p => p.expired now
  | _ => false

/-- The request of a node that this event is. -/
def requestOf (nodeId : NodeId) (event : Event) : Option PendingApproval :=
  match event.kind with
  | .toolApprovalRequired n toolName approver context =>
      if n = nodeId then some ⟨n, toolName, approver, context, event.sequence⟩ else none
  | _ => none

/-- The request the node's current decision answered: its latest one, if it has a decision. -/
def answeredRequest (events : List Event) (nodeId : NodeId) : Option PendingApproval :=
  match nodeApprovalStatus events nodeId with
  | .approved .. | .rejected .. => events.reverse.findSome? (requestOf nodeId)
  | _ => none

/-- The node's latest request was resolved by its deadline. -/
def expiredByDeadline (events : List Event) (nodeId : NodeId) : Bool :=
  match answeredRequest events nodeId with
  | none => false
  | some request => events.any fun e => match e.kind with
      | .approvalExpired n requestSequence _ _ => n = nodeId ∧ requestSequence = request.sequence
      | _ => false

/-- The principal of the first `WorkflowStarted`. -/
def runInitiator (events : List Event) : Option String :=
  (events.findSome? fun e => match e.kind with
    | .workflowStarted _ initiatedBy => some initiatedBy
    | _ => none).join

end JamJet.Approvals
