import JamJet.NodeGuard

/-! An agent card's autonomy limits, decided from the run's event log.  A node that acts for an
agent is one step of it; the guard records the step with a compare-and-append that repeats the
check on the log as it stands. -/

namespace JamJet

open AtomicCalls Approvals Policy

inductive OnLimitExceeded
  | fail
  | escalateToHuman
  deriving DecidableEq, Repr

/-- The limits an agent's card sets. -/
structure AutonomyConstraints where
  maxIterations : Option UInt32 := none
  maxToolCalls : Option UInt32 := none
  tokenBudget : Option UInt64 := none
  costBudgetUsd : Option Float := none
  timeBudgetSecs : Option UInt64 := none
  maxConsecutiveErrors : Option UInt32 := none
  onLimitExceeded : Option OnLimitExceeded := none

def defaultMaxConsecutiveErrors : UInt32 := 3

/-- What a card says to do when a limit is reached. -/
def onLimitOf (constraints : Option AutonomyConstraints) : OnLimitExceeded :=
  (constraints.bind (·.onLimitExceeded)).getD .fail

/-- The agents a node acts for, each with its card's constraints. -/
abbrev Agents := List (String × Option AutonomyConstraints)

/-- What one agent has used so far in a run, across its segments. -/
structure AgentUsage where
  iterations : ℕ
  toolCalls : ℕ
  tokens : ℕ
  costUsd : Float
  consecutiveErrors : ℕ
  elapsedMs : Option ℕ

/-- The step about to fire, by the tool calls it makes. -/
structure Step where
  toolCalls : UInt32

inductive AutonomyDecision
  | proceed
  | limitReached (limitType : String) (limitValue actualValue : Json)
  | circuitBreakerTripped (consecutiveErrors threshold : ℕ)

def AutonomyDecision.isProceed : AutonomyDecision → Bool
  | .proceed => true
  | _ => false

/-- `serde_json::json!` of a double: what is not finite has no JSON form. -/
def Json.ofFloat (x : Float) : Json :=
  if x.isFinite then .number (.float x.toBits.toBitVec) else .null

namespace Autonomy

/-- The limits in the order they are checked, each with what it stops the step by. -/
def limits (c : AutonomyConstraints) (usage : AgentUsage) (step : Step) :
    List (Option (String × Json × Json)) :=
  let wouldBe := (usage.toolCalls + step.toolCalls.toNat) % 2 ^ 64
  [ c.maxIterations.bind fun max =>
      if max.toNat ≤ usage.iterations then
        some ("max_iterations", Json.ofNat max.toNat, Json.ofNat usage.iterations)
      else none,
    c.maxToolCalls.bind fun max =>
      if 0 < step.toolCalls.toNat ∧ max.toNat < wouldBe then
        some ("max_tool_calls", Json.ofNat max.toNat, Json.ofNat wouldBe)
      else none,
    c.tokenBudget.bind fun max =>
      if max.toNat ≤ usage.tokens then
        some ("token_budget", Json.ofNat max.toNat, Json.ofNat usage.tokens)
      else none,
    -- only a cost known to be under the budget may proceed
    c.costBudgetUsd.bind fun max =>
      if usage.costUsd < max then none
      else some ("cost_budget", Json.ofFloat max, Json.ofFloat usage.costUsd),
    c.timeBudgetSecs.bind fun secs => usage.elapsedMs.bind fun elapsed =>
      if min (secs.toNat * 1000) (2 ^ 64 - 1) ≤ elapsed then
        some ("time_budget", Json.ofNat secs.toNat, Json.ofNat elapsed)
      else none ]

def check (constraints : Option AutonomyConstraints) (usage : AgentUsage) (step : Step) :
    AutonomyDecision :=
  let threshold :=
    (constraints.bind (·.maxConsecutiveErrors)).getD defaultMaxConsecutiveErrors
  if threshold.toNat ≤ usage.consecutiveErrors then
    .circuitBreakerTripped usage.consecutiveErrors threshold.toNat
  else
    match constraints with
    | none => .proceed
    | some c =>
        match (limits c usage step).findSome? id with
        | some (limitType, limitValue, actualValue) =>
            .limitReached limitType limitValue actualValue
        | none => .proceed

end Autonomy

/-- What one agent has used, as folded from the log. -/
structure Spent where
  iterations : ℕ := 0
  toolCalls : ℕ := 0
  tokens : ℕ := 0
  costUsd : Float := 0
  consecutiveErrors : ℕ := 0
  firstStepAt : Option Instant := none

def saturatingAdd (width a b : ℕ) : ℕ := min (a + b) (2 ^ width - 1)

namespace Spent

def admitStep (s : Spent) (toolCalls : ℕ) (createdAt : Instant) : Spent :=
  { s with
    iterations := saturatingAdd 64 s.iterations 1
    toolCalls := saturatingAdd 64 s.toolCalls toolCalls
    firstStepAt := s.firstStepAt.or (some createdAt) }

/-- The cost a completion counts for: one that is no finite number spends all of the budget, and a
negative one nothing. -/
def chargedCost : Option Float → Float
  | some c => if !c.isFinite then 1 / 0 else if 0 < c then c else 0
  | none => 0

def completeStep (s : Spent) (result : NodeResult) : Spent :=
  { s with
    tokens := saturatingAdd 64 s.tokens
      (saturatingAdd 64 (result.inputTokens.getD 0) (result.outputTokens.getD 0))
    costUsd := s.costUsd + chargedCost result.costUsd
    consecutiveErrors := 0 }

def failStep (s : Spent) : Spent :=
  { s with consecutiveErrors := saturatingAdd 32 s.consecutiveErrors 1 }

end Spent

/-- The fold of a run's log into each agent's usage, and the admitted steps that have not ended
yet: by node, the agents each was admitted for, oldest first. -/
structure Ledger where
  agents : String → Spent := fun _ => {}
  opened : NodeId → List (List String) := fun _ => []

namespace Ledger

def charge (l : Ledger) (names : List String) (f : Spent → Spent) : Ledger :=
  { l with agents := names.foldl (fun m a => Function.update m a (f (m a))) l.agents }

/-- A completion or a failure of the node ends its oldest open step. -/
def endStep (l : Ledger) (node : NodeId) (f : Spent → Spent) : Ledger :=
  match l.opened node with
  | [] => l
  | names :: rest =>
      Ledger.charge { l with opened := Function.update l.opened node rest } names f

/-- One event; an event this build cannot read may be a step, so nothing is known after it. -/
def apply (l : Ledger) (e : Event) : Option Ledger :=
  match e.kind with
  | .agentStepAdmitted node _ names toolCalls _ createdAt =>
      some { l.charge names (·.admitStep toolCalls createdAt) with
        opened := Function.update l.opened node (l.opened node ++ [names]) }
  | .nodeCompleted node result => some (l.endStep node (·.completeStep result))
  | .nodeFailed node .. => some (l.endStep node (·.failStep))
  | .unknown => none
  | _ => some l

/-- Fold one segment's events; steps are matched to their ends within a segment. -/
def applySegment (l : Ledger) (events : List Event) : Option Ledger :=
  events.foldlM apply { l with opened := fun _ => [] }

def usage (l : Ledger) (agent : String) (now : Instant) : AgentUsage :=
  let s := l.agents agent
  { iterations := s.iterations
    toolCalls := s.toolCalls
    tokens := s.tokens
    costUsd := s.costUsd
    consecutiveErrors := s.consecutiveErrors
    elapsedMs := s.firstStepAt.map fun t => (now - t) / 1000000 }

end Ledger

/-- An agent whose limits stop a step, and what its card says to do about it. -/
structure Stop where
  agent : String
  decision : AutonomyDecision
  onLimit : OnLimitExceeded

/-- The first agent whose limits stop the step.  A card that fails wins over one that escalates. -/
def firstStop (ledger : Ledger) (step : Step) (now : Instant) (escalation : Option Stop) :
    Agents → Option Stop
  | [] => escalation
  | (agent, constraints) :: rest =>
      let decision := Autonomy.check constraints (ledger.usage agent now) step
      if decision.isProceed then firstStop ledger step now escalation rest
      else
        match onLimitOf constraints with
        | .fail => some ⟨agent, decision, .fail⟩
        | .escalateToHuman =>
            firstStop ledger step now (escalation.or (some ⟨agent, decision, .escalateToHuman⟩)) rest

/-- Whether any agent whose card fails stops the step. -/
def failStop (ledger : Ledger) (agents : Agents) (step : Step) (now : Instant) : Bool :=
  agents.any fun (agent, constraints) =>
    onLimitOf constraints = .fail &&
      !(Autonomy.check constraints (ledger.usage agent now) step).isProceed

structure Escalation where
  agent : String
  decision : AutonomyDecision

/-- What the reviewer is asked about. -/
def Escalation.context (e : Escalation) : Json :=
  match e.decision with
  | .limitReached limitType limitValue actualValue => Json.ofFields [("agent_ref", .string e.agent),
      ("limit_type", .string limitType), ("limit_value", limitValue), ("actual_value", actualValue)]
  | .circuitBreakerTripped consecutiveErrors threshold => Json.ofFields [
      ("agent_ref", .string e.agent), ("limit_type", .string "circuit_breaker"),
      ("limit_value", Json.ofNat threshold), ("actual_value", Json.ofNat consecutiveErrors)]
  | .proceed => Json.ofFields [("agent_ref", .string e.agent)]

/-- A step the limits allow (or escalate), ready to be recorded once the rest of the guard allows
it too.  The fold of the earlier segments is not repeated at the append. -/
structure Plan where
  agents : Agents
  step : Step
  earlier : Ledger
  now : Instant
  escalation : Option Escalation

/-- The condition of the append: whether the limits still allow the step on this log, or the
approval that releases it is still unused and no card that fails is past its limit. -/
def Plan.stillAllowed [Chrono] (plan : Plan) (node : NodeId)
    (approvalSequence : Option EventSequence) (log : List Event) : Bool :=
  match plan.earlier.applySegment log with
  | none => false
  | some ledger =>
      match approvalSequence with
      | none => (firstStop ledger plan.step plan.now none plan.agents).isNone
      | some sequence => unusedEscalation log node = some sequence &&
          !failStop ledger plan.agents plan.step plan.now

def autonomyRule : String := "agent autonomy"

def describe [FloatText] (agent : String) : AutonomyDecision → String
  | .limitReached limitType limitValue actualValue =>
      autonomyRule ++ ": agent '" ++ agent ++ "' reached " ++ limitType ++ " (limit " ++
        Hashing.canonicalJson limitValue ++ ", at " ++ Hashing.canonicalJson actualValue ++ ")"
  | .circuitBreakerTripped consecutiveErrors threshold =>
      autonomyRule ++ ": agent '" ++ agent ++ "' circuit breaker tripped (" ++
        toString consecutiveErrors ++ " consecutive errors, threshold " ++ toString threshold ++ ")"
  | .proceed => autonomyRule ++ ": agent '" ++ agent ++ "'"

/-- The name of a status in a text. -/
def WorkflowStatus.debugName : WorkflowStatus → String
  | .pending => "Pending"
  | .running => "Running"
  | .paused => "Paused"
  | .completed => "Completed"
  | .failed => "Failed"
  | .cancelled => "Cancelled"
  | .limitExceeded => "LimitExceeded"

def segmentChainMaxDepth : ℕ := 10000

/-- What the registry of agents says about one. -/
inductive RegistryRead
  | unreadable (err : String)
  | unregistered
  | card (constraints : Option AutonomyConstraints)

/-- The agents a node acts for, and where their cards are read.  `refusal` is the rule by which a
card's own lists of tools and delegations refuse the node. -/
structure AgentScope where
  workflowAgent : Option String := none
  nodeAgent : Option String := none
  /-- The agent an `agent` node calls. -/
  callee : Option String := none
  registry : Option (String → RegistryRead) := none
  refusal : String → Option String := fun _ => none

def pushNew (refs : List String) (ref : String) : List String :=
  if ref ∈ refs then refs else refs ++ [ref]

/-- The workflow's agent and the node's own, each once. -/
def AgentScope.refs (scope : AgentScope) : List String :=
  (scope.workflowAgent.toList ++ scope.nodeAgent.toList).foldl pushNew []

/-- One call of `guard_item`, with what it is given. -/
structure AgentRequest where
  guard : GuardRequest
  scope : AgentScope
  workItemId : Option ℕ
  /-- The tool calls the node makes if it fires, or why they cannot be read. -/
  toolCalls : Except String UInt32

/-- The list from the last element with the property on. -/
def fromLast {α : Type} (p : α → Bool) : List α → Option (List α)
  | [] => none
  | x :: xs => (fromLast p xs).or (if p x then some (x :: xs) else none)

/-- The step the item was admitted as is still open: each admission of the node from the item's
latest one on is ended by one result. -/
def admittedOpen (events : List Event) (item : ℕ) : Bool :=
  match fromLast (fun e => match e.kind with
      | .agentStepAdmitted _ (some id) _ _ _ _ => id = item
      | _ => false) events with
  | some (⟨_, .agentStepAdmitted node _ _ _ _ _⟩ :: rest) =>
      let opened := 1 + (rest.filter fun e => match e.kind with
        | .agentStepAdmitted n _ _ _ _ _ => n = node
        | _ => false).length
      let ended := (rest.filter fun e => match e.kind with
        | .nodeCompleted n _ | .nodeFailed n .. => n = node
        | _ => false).length
      ended < opened
  | _ => false

namespace Guard

section Reads

variable (env : GuardEnv)

/-- Walk the segments of the run backward from this one; the first comes first. -/
def segmentChain : ℕ → ExecutionId → GuardProg (Except String (List ExecutionId))
  | 0, current => return .error ("database error: segment_chain exceeded max depth (" ++
      toString segmentChainMaxDepth ++ "): possible cycle starting near " ++ runText env current)
  | remaining + 1, current => do
      match ← (backend (.getExecution current)).attempt with
      | .error err => return .error err.display
      | .ok none => return .error ("execution not found: segment_chain: execution " ++
          runText env current ++ " not found")
      | .ok (some x) =>
          match x.parentExecutionId with
          | none => return .ok [current]
          | some parent =>
              match ← segmentChain remaining parent with
              | .error reason => return .error reason
              | .ok chain => return .ok (chain ++ [current])

def foldEarlier (ledger : Ledger) : List ExecutionId → GuardProg (Except String Ledger)
  | [] => return .ok ledger
  | id :: rest => do
      match ← (backend (.getEvents id)).attempt with
      | .error err => return .error err.display
      | .ok events =>
          match ledger.applySegment events with
          | none => return .error ("segment " ++ runText env id ++ " holds an unreadable event")
          | some ledger => foldEarlier ledger rest

end Reads

/-- Best effort: the refusal or the hold stands whether or not these land. -/
def recordStop (e : ExecutionId) (decision : AutonomyDecision) (escalated : Bool) :
    GuardProg Unit := do
  let record := fun tag : String => do
    let _ ← (backend (.appendEvent e (.other tag))).attempt
    return ()
  let stop := match decision with
    | .proceed => none
    | .limitReached .. => some "autonomy_limit_reached"
    | .circuitBreakerTripped .. => some "circuit_breaker_tripped"
  match stop with
  | none => return ()
  | some tag => do
      record tag
      if escalated then
        record "escalation_required"

def countersUnavailable (what : String) : GuardOutcome :=
  .unavailable ("agent autonomy counters unavailable; refusing to run without checking them: " ++
    what)

/-- A result for a node acting for an agent is recorded only for an item the guard admitted. -/
def completionAdmitted (e : ExecutionId) (workItemId : Option ℕ) :
    GuardProg (Except GuardOutcome Unit) :=
  match workItemId with
  | none => return .error (.blocked (autonomyRule ++ ": a result for a node acting for an agent " ++
      "needs the work item it was admitted as"))
  | some item => do
      match ← (backend (.getEvents e)).attempt with
      | .error err => return .error (.unavailable
          ("agent steps unreadable; refusing to record the result: " ++ err.display))
      | .ok events =>
          if admittedOpen events item then return .ok ()
          else return .error (.blocked (autonomyRule ++ ": work item " ++ toString item ++
            " acts for an agent and was never admitted by the claim gate, so its result cannot " ++
            "be recorded"))

def allowedToolsRule : String := "agent allowed_tools"

def refuseCard (r : AgentRequest) (rule : String) : GuardProg (Except GuardOutcome Agents) := do
  if r.guard.mode = .fire then
    recordPolicyViolation r.guard.executionId
  return .error (.blocked rule)

def readCards (r : AgentRequest) (registry : String → RegistryRead) :
    List String → GuardProg (Except GuardOutcome Agents)
  | [] => return .ok []
  | agent :: rest =>
      match registry agent with
      | .unregistered => refuseCard r (allowedToolsRule ++ ": agent '" ++ agent ++
          "' is not registered, so its card cannot be checked")
      | .unreadable err => return .error (.unavailable ("agent registry unavailable; refusing to " ++
          "run without checking the card of agent '" ++ agent ++ "': " ++ err))
      | .card constraints =>
          match constraints.bind fun _ => r.scope.refusal agent with
          | some rule => refuseCard r rule
          | none => do
              match ← readCards r registry rest with
              | .error refused => return .error refused
              | .ok agents => return .ok ((agent, constraints) :: agents)

/-- The cards of the agents the node acts for, unless one refuses it. -/
def agentCard (r : AgentRequest) : GuardProg (Except GuardOutcome Agents) :=
  match r.scope.refs, r.scope.registry with
  | [], _ => return .ok []
  | first :: _, none => refuseCard r (allowedToolsRule ++ ": node acts for agent '" ++ first ++
      "', but this runtime has no agent registry to read its card")
  | refs, some registry => readCards r registry refs

/-- The agent an `agent` node calls is charged too. -/
def callee (scope : AgentScope) :
    Except GuardOutcome (Option (String × Option AutonomyConstraints)) :=
  match scope.callee, scope.registry with
  | some agent, some registry =>
      match registry agent with
      | .card constraints => .ok (some (agent, constraints))
      | .unregistered => .ok none
      | .unreadable err => .error (.unavailable ("agent registry unavailable; refusing to run " ++
          "without checking the autonomy limits of agent '" ++ agent ++ "': " ++ err))
  | _, _ => .ok none

def withCallee (agents : Agents) : Option (String × Option AutonomyConstraints) → Agents
  | some c => if agents.any fun a => a.1 = c.1 then agents else agents ++ [c]
  | none => agents

section Admission

variable [Chrono]

/-- Record the step, if the limits still allow it on the log as it stands. -/
def recordStep (e : ExecutionId) (node : NodeId) (workItemId : Option ℕ) (plan : Plan)
    (approvalSequence : Option EventSequence) : GuardProg GuardOutcome := do
  let createdAt ← here .utcNow
  match ← (backend (.appendEventIf e
      (.agentStepAdmitted node workItemId (plan.agents.map (·.1)) plan.step.toolCalls.toNat
        approvalSequence createdAt)
      (plan.stillAllowed node approvalSequence))).attempt with
  | .ok (.appended _) => return .allow
  | .ok .refused => return .unavailable ("another step of the agent was recorded while this one " ++
      "was decided; deciding again on the next attempt")
  | .ok (.executionTerminal status) => return .unavailable ("execution is " ++ status.debugName)
  | .error err => return .unavailable ("agent step could not be recorded; refusing to run it " ++
      "unrecorded: " ++ err.display)

/-- An escalated step fires only on the approval that released it, read now and re-checked in the
append. -/
def admitStep (e : ExecutionId) (node : NodeId) (workItemId : Option ℕ) (plan : Plan) :
    GuardProg GuardOutcome :=
  match plan.escalation with
  | none => recordStep e node workItemId plan none
  | some _ => do
      match ← (backend (.getEvents e)).attempt with
      | .error err => return .unavailable ("agent steps unreadable: " ++ err.display)
      | .ok events =>
          match unusedEscalation events node with
          | none => return .unavailable ("the approval releasing this step past the agent's limit " ++
              "was used or withdrawn; deciding again on the next attempt")
          | some sequence => recordStep e node workItemId plan (some sequence)

end Admission

variable [FloatText]

/-- Decide on what the log holds; a limit of a card that fails refuses the step here. -/
def decidePlan (e : ExecutionId) (agents : Agents) (step : Step) (earlier ledger : Ledger)
    (now : Instant) : GuardProg (Except GuardOutcome Plan) :=
  match firstStop ledger step now none agents with
  | none => return .ok ⟨agents, step, earlier, now, none⟩
  | some ⟨agent, decision, .fail⟩ => do
      recordStop e decision false
      return .error (.blocked (describe agent decision))
  | some ⟨agent, decision, .escalateToHuman⟩ =>
      return .ok ⟨agents, step, earlier, now, some ⟨agent, decision⟩⟩

variable (env : GuardEnv)

/-- Decide whether a step of the agents may fire, possibly only under an approval. -/
def plan (e : ExecutionId) (agents : Agents) (toolCalls : UInt32) :
    GuardProg (Except GuardOutcome Plan) := do
  match ← segmentChain env segmentChainMaxDepth e with
  | .error what => return .error (countersUnavailable what)
  | .ok chain =>
      match ← foldEarlier env {} (chain.filter (· ≠ e)) with
      | .error what => return .error (countersUnavailable what)
      | .ok earlier =>
          match ← (backend (.getEvents e)).attempt with
          | .error err => return .error (countersUnavailable err.display)
          | .ok events =>
              match earlier.applySegment events with
              | none =>
                  return .error (countersUnavailable "the run's log holds an unreadable event")
              | some ledger =>
                  let now ← here .utcNow
                  decidePlan e agents ⟨toolCalls⟩ earlier ledger now

variable [Chrono]

/-- The policy chain for a planned step, and the record of the step if it allows the node. -/
def firePlanned (perCall : GuardRequest → Bool → GuardProg GuardOutcome) (r : AgentRequest)
    (plan : Plan) : GuardProg GuardOutcome :=
  let e := r.guard.executionId
  match plan.escalation with
  | none => do
      match ← guardPolicy env (perCall r.guard) r.guard with
      | .allow => admitStep e r.guard.nodeId r.workItemId plan
      | other => return other
  | some escalation => do
      match ← (backend (.latestSequence e)).attempt with
      | .error err => return .unavailable ("run log unreadable: " ++ err.display)
      | .ok before =>
          let request := { r.guard with escalation := some escalation.context }
          match ← guardPolicy env (perCall request) request with
          | .allow => admitStep e r.guard.nodeId r.workItemId plan
          | .held gated =>
              -- the stop is recorded only when this decision raised a new request for it
              let raised ← (backend (.getEventsSince e before)).attempt
              if (match raised with
                | .ok events => events.any fun x => match x.kind with
                    | .toolApprovalRequired n .. => n = r.guard.nodeId
                    | _ => false
                | .error _ => true) then
                recordStop e escalation.decision true
              return .held gated
          | other => return other

/-- Decide whether a node may fire, or whether its result may be recorded. -/
def guardItem (perCall : GuardRequest → Bool → GuardProg GuardOutcome) (r : AgentRequest) :
    GuardProg GuardOutcome := do
  match ← agentCard r with
  | .error refused => return refused
  | .ok cards =>
      match callee r.scope with
      | .error refused => return refused
      | .ok called =>
          let agents := withCallee cards called
          if agents.isEmpty then guardPolicy env (perCall r.guard) r.guard
          else
            match r.guard.mode, r.toolCalls with
            | .complete, _ => do
                match ← completionAdmitted r.guard.executionId r.workItemId with
                | .error refused => return refused
                | .ok () => guardPolicy env (perCall r.guard) r.guard
            | .fire, .error rule => return .blocked rule
            | .fire, .ok toolCalls => do
                match ← plan env r.guard.executionId agents toolCalls with
                | .error refused => return refused
                | .ok plan => firePlanned env perCall r plan

end Guard

end JamJet
