import JamJet.Hashing
import JamJet.Policy
import JamJet.SubmitApproval

/-! The guard every node passes before it fires: the policy chain, and the approval that answers a
gate.  An approval is bound to the digest of the action that was shown. -/

namespace JamJet

open AtomicCalls Approvals Policy

def BackendError.display : BackendError → String
  | .notFound id => "execution not found: " ++ toString id
  | .fenceLost item => "lease fence superseded for work item " ++ toString item ++
      ": lease was stolen or store failed over"
  | .database message => "database error: " ++ message
  | .versionConflict message =>
      "workflow version already registered with a different definition: " ++ message

/-- What the guard uses of other libraries: SHA-256 of a text in hex, the text of a run's id, and a
time some seconds later if there is such a time. -/
structure GuardEnv where
  sha256Hex : String → String
  simple : ExecutionId → String
  checkedAddSecs : Instant → ℕ → Option Instant

/-- A node definition as the guard reads it: its serialized form, whether it runs an agent's tool
calls, and its own policy. -/
structure GuardedNode where
  definition : Json
  held : definition.Held
  agentToolDispatch : Bool := false
  policy : Option PolicySetIr := none

def GuardedNode.kind (node : GuardedNode) : Json := (node.definition.get "kind").getD .null

/-! What an approval binds -/

def actionDefinitionKey : String := "action_definition"

def actionBasisKey : String := "action_basis"

def actionBasisStateCap : ℕ := 16 * 1024

def actionStepKey : String := "action_step"

/-- The state keys the engine itself writes. -/
def engineStateKeys : List String := ["__budget"]

def actionState : Json → Json
  | .object fields => .object (engineStateKeys.foldl BTree.remove fields)
  | state => state

/-- The payload without the engine's own keys in the state it carries. -/
def actionPayload : Json → Json
  | .object fields => .object (["input", "state"].foldl (fun fields key =>
      match BTree.get fields key with
      | some v => BTree.insert fields key (actionState v)
      | none => fields) fields)
  | payload => payload

section Digest

variable [FloatText] (env : GuardEnv)

def definitionHash (nodeDef : Json) : String :=
  Hashing.contentHash env.sha256Hex
    (Json.ofFields [("domain", .string "jamjet.approval.node.v1"), ("node", nodeDef)])

def actionDigest (run : String) (step : ℕ) (node definition : String) (payload : Json) : String :=
  Hashing.contentHash env.sha256Hex (Json.ofFields [
    ("domain", .string "jamjet.approval.action.v3"),
    ("run", .string run),
    ("step", Json.ofNat step),
    ("node", .string node),
    ("definition", .string definition),
    ("payload", .string (Hashing.contentHash env.sha256Hex payload))])

/-- The text of a run's id. -/
def runText (e : ExecutionId) : String := "exec_" ++ env.simple e

/-- The digest of firing a node for the given occurrence on the given payload. -/
def digestOf (e : ExecutionId) (step : ℕ) (node : NodeId) (nodeDef payload : Json) : String :=
  actionDigest env (runText env e) step node (definitionHash env nodeDef) (actionPayload payload)

end Digest

def approvalCovers (status : NodeApprovalStatus) (current : String) : Bool :=
  match status with
  | .approved _ _ (some digest) => digest = current
  | _ => false

def escalationKey : String := "autonomy_limit"

/-- The answered request of the node that can release one step past an agent's limit: approved,
raised for the limit, and not used yet. -/
def unusedEscalation [Chrono] (events : List Event) (nodeId : NodeId) : Option EventSequence :=
  match nodeApprovalStatus events nodeId with
  | .approved .. => do
      let request ← answeredRequest events nodeId
      let _ ← request.context.get escalationKey
      if events.any fun e => match e.kind with
          | .agentStepAdmitted _ _ _ _ (some s) _ => s = request.sequence
          | _ => false then
        none
      else some request.sequence
  | _ => none

inductive GuardOutcome
  | allow
  | blocked (reason : String)
  | held (gated : List String)
  | unavailable (reason : String)
  deriving DecidableEq, Repr

inductive GuardMode
  | fire
  | complete
  deriving DecidableEq, Repr

/-- What the guard does besides plain backend calls. -/
inductive GuardOp : Type → Type
  | countNodeCompletions (e : ExecutionId) (node : NodeId) : GuardOp ℕ
  | utcNow : GuardOp Instant
  | sealApprovalRecord (e : ExecutionId) (event : Event) (tenantId : String) : GuardOp Unit

abbrev GuardCall (β : Type) : Type := BackendOp β ⊕ GuardOp β

abbrev GuardProg := Prog GuardCall BackendError

/-- What reading the tenant's policy comes to. -/
inductive TenantRead
  | unreadable (err : BackendError)
  | unparseable (cause : String)
  | policy (set : Option PolicySetIr)

/-- One call of the guard, with what it is given. -/
structure GuardRequest where
  mode : GuardMode := .fire
  executionId : ExecutionId
  nodeId : NodeId
  tenantId : String
  tenant : TenantRead
  workflowPolicy : Option PolicySetIr
  node : GuardedNode
  payload : Json
  held : payload.Held
  sealing : Bool := false
  /-- The tool an agent's card gates, and the limit an agent has reached. -/
  cardGate : Option String := none
  escalation : Option Json := none

namespace GuardRequest

def context (r : GuardRequest) : EvaluationContext := .fromNodeKind r.nodeId r.node.kind

/-- Tenant, workflow and node, least specific first. -/
def sets (r : GuardRequest) (tenantPolicy : Option PolicySetIr) : List PolicySetIr :=
  tenantPolicy.toList ++ r.workflowPolicy.toList ++ r.node.policy.toList

/-- A card gate or an escalation turns an allow into an approval. -/
def decisionFor (r : GuardRequest) (sets : List PolicySetIr) : PolicyDecision :=
  let decision := if sets = [] then .allow else evaluate r.context sets
  match decision with
  | .allow =>
      if r.cardGate.isSome || r.escalation.isSome then .requireApproval "human" else .allow
  | d => d

/-- The decision, where the tenant's policy can be read. -/
def decision (r : GuardRequest) : Option PolicyDecision :=
  match r.tenant with
  | .policy set => some (r.decisionFor (r.sets set))
  | _ => none

/-- The deadline of a request raised now, where the chain's settings are valid. -/
def deadline (r : GuardRequest) : Except String (Option ApprovalDeadline) :=
  match r.tenant with
  | .policy set => ApprovalDeadline.resolve (r.sets set)
  | _ => .ok none

end GuardRequest

namespace Guard

def backend {α : Type} (op : BackendOp α) : GuardProg α := Prog.perform (.inl op)

def here {α : Type} (op : GuardOp α) : GuardProg α := Prog.perform (.inr op)

/-- Best effort: the refusal stands whether or not this lands. -/
def recordPolicyViolation (e : ExecutionId) : GuardProg Unit := do
  match ← (backend (.latestSequence e)).attempt with
  | .ok _ =>
      let _ ← (backend (.appendEvent e (.other "policy_violation"))).attempt
      return ()
  | .error _ => return ()

def sealAppended (r : GuardRequest) (event : Event) : GuardProg Unit :=
  if r.sealing then do
    match ← (here (.sealApprovalRecord r.executionId event r.tenantId)).attempt with
    | .ok () => return ()
    | .error err =>
        let _ ← (backend (.appendEvent r.executionId
          (.auditSealFailed event.sequence event.kind.typeTag err.display))).attempt
        return ()
  else return ()

def recordRequest (r : GuardRequest) (kind : EventKind) (gated : List String) :
    GuardProg GuardOutcome := do
  match ← (backend (.appendEvent r.executionId kind)).attempt with
  | .error err =>
      return .unavailable ("approval required but could not be recorded: " ++ err.display)
  | .ok sequence =>
      sealAppended r ⟨sequence, kind⟩
      return .held gated

variable [FloatText] [Chrono] (env : GuardEnv)

def stampDeadline (context : JsonMap) (deadline : ApprovalDeadline) (now : Instant) :
    Except String JsonMap := do
  let after := fun secs => match env.checkedAddSecs now secs with
    | some t => .ok t
    | none => .error ("approval deadline of " ++ toString secs ++ "s cannot be represented")
  let expiresAt ← after deadline.timeoutSecs
  let context := BTree.insert context expiresAtKey (.string (Chrono.toRfc3339Millis expiresAt))
  match deadline.escalateAfterSecs with
  | some secs =>
      let escalateAt ← after secs
      return BTree.insert context escalateAtKey (.string (Chrono.toRfc3339Millis escalateAt))
  | none => return context

/-- What a reviewer sees of the action. -/
def basisPreview (payload : Json) (step : ℕ) (node : GuardedNode) : Json :=
  let bytes := (Hashing.canonicalJson payload).utf8ByteSize
  let member := fun key => (node.definition.get key).getD .null
  Json.ofFields [
    ("payload", if actionBasisStateCap < bytes then .null else payload),
    ("payload_truncated", .bool (actionBasisStateCap < bytes)),
    ("payload_bytes", Json.ofNat bytes),
    ("step", Json.ofNat step),
    ("node", Json.ofFields [("id", member "id"), ("kind", member "kind"),
      ("description", member "description"), ("policy", member "policy")])]

/-- The context a request is raised with, before its deadline. -/
def requestContext (r : GuardRequest) (step : ℕ) : JsonMap :=
  let base := BTree.insert [] "node_id" (.string r.nodeId)
  let base := match r.escalation with
    | some shown => BTree.insert base escalationKey shown
    | none => base
  BTree.insertAll base [
    (actionDigestKey, .string (digestOf env r.executionId step r.nodeId r.node.definition r.payload)),
    (actionDefinitionKey, .string (definitionHash env r.node.definition)),
    (actionStepKey, Json.ofNat step),
    (actionBasisKey, basisPreview (actionPayload r.payload) step r.node)]

/-- Raise a request for the action as it stands. -/
def raiseRequest (r : GuardRequest) (toolName approver : String)
    (deadline : Option ApprovalDeadline) (step : ℕ) : GuardProg GuardOutcome :=
  let request := fun context =>
    EventKind.toolApprovalRequired r.nodeId toolName approver (.object context)
  let context := requestContext env r step
  match deadline with
  | none => recordRequest r (request context) [toolName]
  | some deadline => do
      match stampDeadline env context deadline (← here .utcNow) with
      | .error e =>
          return .unavailable ("approval required but its deadline could not be set: " ++ e)
      | .ok context => recordRequest r (request context) [toolName]

/-- Approved or not requested: whether an approval covers what the item would do right now. -/
def decideApproval (r : GuardRequest) (toolName approver : String)
    (deadline : Option ApprovalDeadline) (events : List Event) : GuardProg GuardOutcome := do
  match ← (here (.countNodeCompletions r.executionId r.nodeId)).attempt with
  | .error err =>
      return .unavailable
        ("approval binding unavailable; refusing to run unapproved: " ++ err.display)
  | .ok step =>
      let current := digestOf env r.executionId step r.nodeId r.node.definition r.payload
      if approvalCovers (nodeApprovalStatus events r.nodeId) current &&
          (r.escalation.isNone || (unusedEscalation events r.nodeId).isSome) then
        return .allow
      else raiseRequest env r toolName approver deadline step

def requireApproval (r : GuardRequest) (toolName approver : String)
    (deadline : Option ApprovalDeadline) : GuardProg GuardOutcome := do
  match ← (backend (.getEvents r.executionId)).attempt with
  | .error err =>
      return .unavailable ("approval state unavailable; refusing to run unapproved: " ++ err.display)
  | .ok events =>
      match nodeApprovalStatus events r.nodeId with
      | .indeterminate => return .unavailable unreadableLogReason
      | .pending _ => return .held [toolName]
      | .rejected .. => return .held [toolName]
      | _ => decideApproval env r toolName approver deadline events

/-- A result is recorded only for an approval of the node's current occurrence. -/
def completionCovered (r : GuardRequest) (toolName : String) : GuardProg GuardOutcome := do
  let unavailable := fun err : BackendError => GuardOutcome.unavailable
    ("approval state unavailable; refusing to record an unapproved result: " ++ err.display)
  match ← (backend (.getEvents r.executionId)).attempt with
  | .error err => return unavailable err
  | .ok events =>
      match nodeApprovalStatus events r.nodeId, answeredRequest events r.nodeId with
      | .approved user sequence digest, some request =>
          match ← (here (.countNodeCompletions r.executionId r.nodeId)).attempt with
          | .error err => return unavailable err
          | .ok step =>
              match (request.context.get actionStepKey).bind fun v => match v with
                  | .number (.int n) => if 0 ≤ n then some n.toNat else none
                  | _ => none with
              | some requested => return if requested = step then .allow else .held [toolName]
              | none =>
                  -- a request from before the step was recorded: only the digest tells
                  match ← (here (.countNodeCompletions r.executionId r.nodeId)).attempt with
                  | .error err => return unavailable err
                  | .ok step =>
                      let current :=
                        digestOf env r.executionId step r.nodeId r.node.definition r.payload
                      return if approvalCovers (.approved user sequence digest) current then .allow
                        else .held [toolName]
      | _, _ => return .held [toolName]

/-- The policy chain, the card's gate, an escalation, and the approvals that answer them.
`perCall` is the guard of the calls of a dispatch node. -/
def guardPolicy (perCall : Bool → GuardProg GuardOutcome) (r : GuardRequest) :
    GuardProg GuardOutcome :=
  match r.tenant with
  | .unreadable err =>
      return .unavailable
        ("tenant policy unavailable; refusing to run unpoliced: " ++ err.display)
  | .unparseable cause => do
      let reason := "tenant policy for tenant " ++ r.tenantId ++ " cannot be read (" ++ cause ++
        "); every node is refused until it is fixed with PUT /tenants/" ++ r.tenantId ++
        " (send a corrected policy, or \x7b\"policy\": \x7b\x7d\x7d to clear it; " ++
        "a null policy keeps the stored one)"
      if r.mode = .fire then
        recordPolicyViolation r.executionId
      return .blocked reason
  | .policy tenantPolicy =>
      let sets := r.sets tenantPolicy
      match r.decisionFor sets with
      | .allow => if r.node.agentToolDispatch then perCall false else return .allow
      | .block reason => do
          if r.mode = .fire then
            recordPolicyViolation r.executionId
          return .blocked reason
      | .requireApproval approver => do
          let toolName := (r.cardGate.or r.context.toolName).getD r.nodeId
          let outcome ← match r.mode with
            | .fire =>
                match ApprovalDeadline.resolve sets with
                | .error cause => do
                    recordPolicyViolation r.executionId
                    return GuardOutcome.blocked ("approval deadline policy is invalid (" ++ cause ++
                      "); the node is refused until the policy is fixed")
                | .ok deadline => requireApproval env r toolName approver deadline
            | .complete => completionCovered env r toolName
          match outcome with
          | .allow => if r.node.agentToolDispatch then perCall true else return .allow
          | other => return other

end Guard

/-- The database and the time. -/
structure GuardSys where
  db : Db := {}
  clock : Instant := 0

/-- The event ends an occurrence of the node. -/
def completes (node : NodeId) (event : Event) : Bool :=
  match event.kind with
  | .nodeCompleted n _ => n = node
  | _ => false

namespace GuardSys

def act (s : GuardSys) : ServerAct → GuardSys
  | .call op => { s with db := (op.exec s.db).2 }
  | .setClock now => { s with clock := now }

def completions (s : GuardSys) (e : ExecutionId) (node : NodeId) : ℕ :=
  ((s.db.events e).entries.filter (completes node)).length

def handle {β : Type} (op : GuardCall β) (s : GuardSys) : Except BackendError β × GuardSys :=
  match op with
  | .inl op => ((op.exec s.db).1, { s with db := (op.exec s.db).2 })
  | .inr (.countNodeCompletions e node) => (.ok (s.completions e node), s)
  | .inr .utcNow => (.ok s.clock, s)
  | .inr (.sealApprovalRecord ..) => (.ok (), s)

/-- What any number of steps of other parties may make of the system. -/
def Reaches (s t : GuardSys) : Prop := ∃ acts : List ServerAct, t = acts.foldl act s

theorem Reaches.refl (s : GuardSys) : s.Reaches s := ⟨[], rfl⟩

theorem Reaches.trans {s t u : GuardSys} (h : s.Reaches t) (h' : t.Reaches u) : s.Reaches u := by
  obtain ⟨acts, rfl⟩ := h
  obtain ⟨acts', rfl⟩ := h'
  exact ⟨acts ++ acts', by rw [List.foldl_append]⟩

end GuardSys

/-- Processes over the guard's calls, beside everything else that happens. -/
def guards {α Job : Type} (program : Job → GuardProg α) :
    Service GuardCall BackendError α GuardSys ServerAct Job where
  handle op s := s.handle op
  fallible op := match op with
    | .inr .utcNow => false
    | _ => true
  act a s := s.act a
  program := program

@[simp]
theorem guards_handle {α Job β : Type} (program : Job → GuardProg α) (op : GuardCall β)
    (s : GuardSys) : (guards program).beside.handle op s = s.handle op :=
  rfl

end JamJet
