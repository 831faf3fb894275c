import JamJet.DispatchPolicy
import JamJet.NodeGuard

/-! The guard of an agent's dispatch node: the policy of its pending calls, the approval that is
bound to exactly these calls, and the layer a refusal is recorded under. -/

namespace JamJet

open AtomicCalls Approvals Policy Dispatch

/-- A refusal, as it is recorded. -/
structure PolicyViolation where
  nodeId : NodeId
  rule : String
  decision : String
  policyScope : String
  deriving DecidableEq, Repr

/-- The record of a refusal in the event log. -/
inductive ViolationOp : Type → Type
  | append (e : ExecutionId) (v : PolicyViolation) : ViolationOp EventSequence

/-- What the guard does: what the node guard does, and the record of a refusal. -/
abbrev DispatchCall (β : Type) : Type := GuardCall β ⊕ ViolationOp β

abbrev DispatchProg := Prog DispatchCall BackendError

/-- One call of the guard: what the node guard is given, whether the node itself is approved, and
the calls an agent's card gates. -/
structure DispatchRequest where
  guard : GuardRequest
  nodeApproved : Bool := false
  cardGated : List String := []

/-- The layers of the chain by name, most specific first. -/
def scopes (tenant workflow node : Option PolicySetIr) : List (String × PolicySetIr) :=
  (node.map fun p => ("node", p)).toList ++ (workflow.map fun p => ("workflow", p)).toList ++
    (tenant.map fun p => ("tenant", p)).toList

/-- The most specific layer that does not allow by itself. -/
def identifyPolicyScope (ctx : EvaluationContext) (tenant workflow node : Option PolicySetIr) :
    String :=
  match (scopes tenant workflow node).find? fun (_, p) => evaluate ctx [p] ≠ .allow with
  | some (scope, _) => scope
  | none => "unknown"

def unreadableRule (cause : UnreadableCalls) : String :=
  "agent dispatch tool calls unreadable: " ++ match cause with
    | .notAnObject => "input is not an object"
    | .notAList => "the call list is not an array"
    | .unnamedCall => "a call has no readable name"
    | .nameTooLong => "a call name exceeds the length bound"
    | .tooManyCalls => "the call list exceeds the batch bound"
    | .toolsMapNotAnObject => "the tools map is not an object"
    | .unresolvableHandler => "a called tool's tools entry is not a module:function reference"

def approvalMismatch : String := "approved tool calls do not match pending calls"

/-- The input the dispatch will consume. -/
def payloadInput (payload : Json) : Json := (payload.get "input").getD .null

/-- The hash that the latest request of the node binds. -/
def latestRequestCallsHash (events : List Event) (nodeId : NodeId) : Option String := do
  let context ← events.reverse.findSome? fun e => match e.kind with
    | .toolApprovalRequired n _ _ context => if n = nodeId then some context else none
    | _ => none
  (← context.get "calls_hash").asStr

/-- What an approval binds of the calls. -/
def callsJson (calls : List PendingToolCall) : Json :=
  .array (calls.map fun c => Json.ofFields (
    [("name", .string c.name), ("arguments", c.arguments)] ++
      (c.handler.map fun h => ("handler", Json.string h)).toList))

/-- The decision on the calls, with those that the card gates. -/
def withCardGate (cardGated : List String) : DispatchDecision → DispatchDecision
  | .allow => if cardGated = [] then .allow else .requireApproval "human" cardGated
  | .requireApproval approver gated =>
      .requireApproval approver (cardGated.foldl (fun gated name =>
        if name ∈ gated then gated else gated ++ [name]) gated)
  | d => d

namespace DispatchGuard

def guard {α : Type} (op : GuardCall α) : DispatchProg α := Prog.perform (.inl op)

def violation {α : Type} (op : ViolationOp α) : DispatchProg α := Prog.perform (.inr op)

/-- Best effort: the refusal stands whether or not this lands. -/
def recordPolicyViolation (e : ExecutionId) (nodeId : NodeId) (rule policyScope : String) :
    DispatchProg Unit := do
  match ← (guard (.inl (.latestSequence e))).attempt with
  | .ok _ =>
      let _ ← (violation (.append e ⟨nodeId, rule, "blocked", policyScope⟩)).attempt
      return ()
  | .error _ => return ()

/-- A refusal that is recorded if the node was about to fire. -/
def refuse (r : DispatchRequest) (rule policyScope : String) : DispatchProg GuardOutcome := do
  if r.guard.mode = .fire then
    recordPolicyViolation r.guard.executionId r.guard.nodeId rule policyScope
  return .blocked rule

/-- The layer that does not allow a tool of this name. -/
def toolScope (r : DispatchRequest) (tenantPolicy : Option PolicySetIr) (toolName : String) :
    String :=
  identifyPolicyScope (toolCtx r.guard.nodeId toolName) tenantPolicy r.guard.workflowPolicy
    r.guard.node.policy

variable [FloatText] [Chrono] (env : GuardEnv)

/-- The context a request is raised with, before its deadline. -/
def requestContext (r : DispatchRequest) (calls : List PendingToolCall) (gated : List String)
    (step : ℕ) : JsonMap :=
  let bound := Json.ofFields [("calls", callsJson calls)]
  BTree.insertAll [] [
    ("node_id", .string r.guard.nodeId),
    ("gated_tools", .array (gated.map .string)),
    ("calls", callsJson calls),
    ("calls_hash", .string (Hashing.contentHash env.sha256Hex (callsJson calls))),
    (actionDigestKey, .string
      (digestOf env r.guard.executionId step r.guard.nodeId r.guard.node.definition bound)),
    (actionDefinitionKey, .string (definitionHash env r.guard.node.definition)),
    (actionStepKey, Json.ofNat step),
    (actionBasisKey, Guard.basisPreview (actionPayload bound) step r.guard.node)]

def raiseRequest (r : DispatchRequest) (sets : List PolicySetIr) (calls : List PendingToolCall)
    (approver : String) (gated : List String) (step : ℕ) : DispatchProg GuardOutcome :=
  let record := fun context => Prog.mapOps (fun op => .inl op)
    (Guard.recordRequest r.guard
      (.toolApprovalRequired r.guard.nodeId (", ".intercalate gated) approver (.object context)) gated)
  match ApprovalDeadline.resolve sets with
  | .error cause => do
      let reason := "approval deadline policy is invalid (" ++ cause ++
        "); the node is refused until the policy is fixed"
      recordPolicyViolation r.guard.executionId r.guard.nodeId reason "unknown"
      return .blocked reason
  | .ok none => record (requestContext env r calls gated step)
  | .ok (some deadline) => do
      let now ← guard (.inr .utcNow)
      match Guard.stampDeadline env (requestContext env r calls gated step) deadline now with
      | .error e =>
          return .unavailable ("approval required but its deadline could not be set: " ++ e)
      | .ok context => record context

/-- Approved for exactly these calls, or not requested: whether the approval covers this
occurrence. -/
def decideApproval (r : DispatchRequest) (sets : List PolicySetIr) (calls : List PendingToolCall)
    (approver : String) (gated : List String) (status : NodeApprovalStatus) :
    DispatchProg GuardOutcome := do
  match ← (guard (.inr (.countNodeCompletions r.guard.executionId r.guard.nodeId))).attempt with
  | .error err =>
      return .unavailable
        ("approval binding unavailable; refusing to run unapproved: " ++ err.display)
  | .ok step =>
      let current := digestOf env r.guard.executionId step r.guard.nodeId r.guard.node.definition
        (Json.ofFields [("calls", callsJson calls)])
      if approvalCovers status current then return .allow
      else if r.guard.mode = .complete then return .held gated
      else raiseRequest env r sets calls approver gated step

/-- The events are read once, so that the whole decision is from one snapshot. -/
def requireApproval (r : DispatchRequest) (tenantPolicy : Option PolicySetIr)
    (calls : List PendingToolCall) (approver : String) (gated : List String) :
    DispatchProg GuardOutcome := do
  match ← (guard (.inl (.getEvents r.guard.executionId))).attempt with
  | .error err =>
      return .unavailable ("approval state unavailable; refusing to run unapproved: " ++ err.display)
  | .ok events =>
      let sets := r.guard.sets tenantPolicy
      match nodeApprovalStatus events r.guard.nodeId with
      | .indeterminate => return .unavailable unreadableLogReason
      | .pending _ => return .held gated
      | .rejected .. => return .held gated
      | .approved user sequence digest =>
          if latestRequestCallsHash events r.guard.nodeId =
              some (Hashing.contentHash env.sha256Hex (callsJson calls)) then
            decideApproval env r sets calls approver gated (.approved user sequence digest)
          else
            refuse r approvalMismatch ((gated.head?.map (toolScope r tenantPolicy)).getD "unknown")
      | .notRequested => decideApproval env r sets calls approver gated .notRequested

/-- The decision on the pending calls, and what comes of it. -/
def guardCalls (r : DispatchRequest) (tenantPolicy : Option PolicySetIr)
    (calls : List PendingToolCall) : DispatchProg GuardOutcome :=
  match withCardGate r.cardGated
      (evaluateDispatch r.guard.nodeId calls (r.guard.sets tenantPolicy)) with
  | .allow => return .allow
  | .block toolName reason => refuse r reason (toolScope r tenantPolicy toolName)
  | .requireApproval approver gated =>
      if r.nodeApproved then return .allow
      else requireApproval env r tenantPolicy calls approver gated

def guardDispatch (r : DispatchRequest) : DispatchProg GuardOutcome :=
  match r.guard.tenant with
  | .unreadable err =>
      return .unavailable
        ("tenant policy unavailable; refusing to run unpoliced: " ++ err.display)
  | .unparseable cause =>
      refuse r ("tenant policy for tenant " ++ r.guard.tenantId ++ " cannot be read (" ++ cause ++
        "); every node is refused until it is fixed with PUT /tenants/" ++ r.guard.tenantId ++
        " (send a corrected policy, or \x7b\"policy\": \x7b\x7d\x7d to clear it; " ++
        "a null policy keeps the stored one)") "tenant"
  | .policy tenantPolicy =>
      if r.guard.sets tenantPolicy = [] ∧ r.cardGated = [] then return .allow
      else
        match readPendingToolCalls (payloadInput r.guard.payload) with
        | .error cause => refuse r (unreadableRule cause) "unknown"
        | .ok calls => guardCalls env r tenantPolicy calls

end DispatchGuard
end JamJet
