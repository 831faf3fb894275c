import JamJet.SeqLog
import JamJet.Workflow

/-! The events of an execution's log. -/

namespace JamJet

/-- Nanoseconds since the epoch. -/
abbrev Instant := ℕ

abbrev EventSequence := ℕ

/-- How timestamps are written and read (`chrono`): RFC 3339 with milliseconds, and back. -/
class Chrono where
  toRfc3339Millis : Instant → String
  parseFromRfc3339 : String → Option Instant

inductive ApprovalDecision
  | approved
  | rejected
  deriving DecidableEq, Repr

/-- What a completed node reports. -/
structure NodeResult where
  output : Json
  statePatch : Json
  durationMs : ℕ
  genAiSystem : Option String
  genAiModel : Option String
  inputTokens : Option ℕ
  outputTokens : Option ℕ
  finishReason : Option String
  idempotencyKey : Option String
  costUsd : Option Float := none
  deriving Repr

/-- A decision on an approval request. -/
structure ApprovalAnswer where
  userId : String
  decision : ApprovalDecision
  comment : Option String
  statePatch : Option Json
  principal : Option String
  approvedDigest : Option String
  requestSequence : Option EventSequence
  deriving Repr

/-- The event kinds the engine's folds tell apart; `other` stands for the kinds none of them
reads, by their type tag, and `unknown` for a kind this build cannot read. -/
inductive EventKind
  | workflowStarted (initialInput : Json) (initiatedBy : Option String := none)
  | workflowCompleted (finalState : Json)
  | workflowFailed (error : String)
  | workflowCancelled (reason : Option String)
  | nodeScheduled (node : NodeId) (queueType : String)
  | nodeStarted (node : NodeId) (workerId : String) (attempt : ℕ)
  | nodeCompleted (node : NodeId) (result : NodeResult)
  | nodeFailed (node : NodeId) (error : String) (attempt : ℕ) (retryable : Bool)
  | nodeParked (node : NodeId) (attempt : ℕ) (retryAfter : Instant)
  | nodeSkipped (node : NodeId) (reason : String)
  | nodeCancelled (node : NodeId)
  | retryScheduled (node : NodeId) (attempt delayMs : ℕ)
  | interruptRaised (node : NodeId)
  | approvalReceived (node : NodeId) (answer : ApprovalAnswer)
  | toolApprovalRequired (node : NodeId) (toolName approver : String) (context : Json)
  | approvalExpired (node : NodeId) (requestSequence : EventSequence) (expiresAt : Instant)
      (principal : String)
  | approvalEscalated (node : NodeId) (requestSequence : EventSequence)
      (escalateAt expiresAt : Instant)
  /-- A step the guard let an agent take; `createdAt` is the event's own time stamp. -/
  | agentStepAdmitted (node : NodeId) (workItemId : Option ℕ) (agents : List String)
      (toolCalls : ℕ) (approvalSequence : Option EventSequence) (createdAt : Instant)
  | auditSealFailed (sequence : EventSequence) (eventType error : String)
  | runStalled (reason : String)
  | strategyLimitHit
  /-- The old segment's record of the one that continues it. -/
  | segmentBoundary (segmentNumber : ℕ) (nextExecutionId : ExecutionId)
  | other (tag : String)
  | unknown
  deriving Repr

abbrev Event := Stamped EventKind

abbrev EventLog := SeqLog EventKind

namespace EventKind

/-- The `type` tag a kind is serialized under. -/
def typeTag : EventKind → String
  | .workflowStarted .. => "workflow_started"
  | .workflowCompleted .. => "workflow_completed"
  | .workflowFailed .. => "workflow_failed"
  | .workflowCancelled .. => "workflow_cancelled"
  | .nodeScheduled .. => "node_scheduled"
  | .nodeStarted .. => "node_started"
  | .nodeCompleted .. => "node_completed"
  | .nodeFailed .. => "node_failed"
  | .nodeParked .. => "node_parked"
  | .nodeSkipped .. => "node_skipped"
  | .nodeCancelled .. => "node_cancelled"
  | .retryScheduled .. => "retry_scheduled"
  | .interruptRaised .. => "interrupt_raised"
  | .approvalReceived .. => "approval_received"
  | .toolApprovalRequired .. => "tool_approval_required"
  | .approvalExpired .. => "approval_expired"
  | .approvalEscalated .. => "approval_escalated"
  | .agentStepAdmitted .. => "agent_step_admitted"
  | .auditSealFailed .. => "audit_seal_failed"
  | .runStalled .. => "run_stalled"
  | .strategyLimitHit => "strategy_limit_hit"
  | .segmentBoundary .. => "segment_boundary"
  | .other tag => tag
  | .unknown => "unknown"

def isRunStalled : EventKind → Bool
  | .runStalled _ => true
  | _ => false

def isSegmentBoundary : EventKind → Bool
  | .segmentBoundary .. => true
  | _ => false

/-- A `NodeSkipped` of some node. -/
def isNodeSkipped : EventKind → Bool
  | .nodeSkipped .. => true
  | _ => false

/-- The three events that end a run. -/
def endsRun : EventKind → Bool
  | .workflowCompleted _ | .workflowFailed _ | .workflowCancelled _ => true
  | _ => false

/-- A node failed for good on a policy block. -/
def isPolicyBlock : EventKind → Bool
  | .nodeFailed _ error _ false => error.startsWith "policy blocked: "
  | _ => false

/-- An attempt of a node ended or is to be repeated. -/
def isNodeOutcome : EventKind → Bool
  | .nodeCompleted .. | .nodeFailed .. | .retryScheduled .. => true
  | _ => false

end EventKind

end JamJet
