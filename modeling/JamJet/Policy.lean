import JamJet.Json

/-! Tool policies: which nodes a chain of policy sets allows, blocks or gates, and the deadline an
approval request raised under it carries. -/

namespace JamJet.Policy

structure PolicySetIr where
  blockedTools : List String := []
  requireApprovalFor : List String := []
  modelAllowlist : List String := []
  approvalTimeoutSecs : Option ℕ := none
  escalateAfterSecs : Option ℕ := none
  deriving DecidableEq, Repr

inductive PolicyDecision
  | allow
  | block (reason : String)
  | requireApproval (approver : String)
  deriving DecidableEq, Repr

/-- `*` matches any characters, so the rest is tried on every suffix; `?` matches one. -/
def globMatchInner : List Char → List Char → Bool
  | [], v => v.isEmpty
  | c :: p, v =>
      if c = '*' then v.tails.any (globMatchInner p)
      else
        match v with
        | [] => false
        | d :: v => (c = '?' || c = d) && globMatchInner p v

def globMatch (pattern value : String) : Bool := globMatchInner pattern.toList value.toList

def modelMatches (pattern model : String) : Bool :=
  if globMatch pattern model then true
  else if pattern.toList.contains '/' then false
  else globMatch pattern (String.ofList (model.toList.takeWhile (· ≠ '/')))

/-- What the rules are matched against. -/
structure EvaluationContext where
  nodeId : String
  nodeKindTag : String
  toolName : Option String
  modelRef : Option String
  deriving DecidableEq, Repr

def functionKindTags : List String := ["python_fn", "java_fn", "external_fn"]

def pythonRefTag : String := "python_ref"

namespace EvaluationContext

def policyNames (ctx : EvaluationContext) : List String :=
  ctx.toolName.toList ++ if ctx.nodeKindTag ∈ functionKindTags then [ctx.nodeId] else []

def replaceChars (chars : List Char) (s : String) : String :=
  String.ofList (s.toList.map fun c => if c ∈ chars then '.' else c)

/-- The handler of a code-backed node as a dotted path. -/
def canonicalHandler (ctx : EvaluationContext) : Option String :=
  ctx.toolName.bind fun name =>
    if ctx.nodeKindTag = "python_fn" ∨ ctx.nodeKindTag = pythonRefTag then
      some (replaceChars [':'] name)
    else if ctx.nodeKindTag = "java_fn" then some (replaceChars ['/'] name)
    else none

def canonicalPattern (pattern : String) : String := replaceChars [':', '/'] pattern

/-- The name of the node that the pattern matches. -/
def «matches» (ctx : EvaluationContext) (pattern : String) : Option String :=
  match ctx.policyNames.find? (globMatch pattern) with
  | some name => some name
  | none => ctx.canonicalHandler.filter (globMatch (canonicalPattern pattern))

def text (kind : Json) (field : String) : Option String := (kind.get field).bind Json.asStr

/-- The tool or handler and the model a node kind names, by its serialized form. -/
def extractNames (kind : Json) : Option String × Option String :=
  match (text kind "type").getD "" with
  | "tool" | "finalizer" => (text kind "tool_ref", none)
  | "mcp_tool" => (text kind "tool", none)
  | "agent_tool" => (((kind.get "agent").bind (·.get "explicit")).bind Json.asStr, none)
  | "a2a_task" => (text kind "skill", none)
  | "model" => (none, text kind "model_ref")
  | "python_fn" => (some ((text kind "module").getD "" ++ ":" ++ (text kind "function").getD ""), none)
  | "java_fn" => (some ((text kind "class_name").getD "" ++ "/" ++ (text kind "method").getD ""), none)
  | "external_fn" => (some ((text kind "queue").getD "" ++ "/" ++ (text kind "handler").getD ""), none)
  | "agent" => (text kind "agent_ref", none)
  | _ => (none, none)

def fromNodeKind (nodeId : String) (kind : Json) : EvaluationContext where
  nodeId := nodeId
  nodeKindTag := (text kind "type").getD "unknown"
  toolName := (extractNames kind).1
  modelRef := (extractNames kind).2

end EvaluationContext

/-- What one layer of the chain says, if anything. -/
def evaluateLayer (ctx : EvaluationContext) (policy : PolicySetIr) : Option PolicyDecision :=
  if ctx.nodeKindTag = "model" ∧ policy.modelAllowlist ≠ [] then
    if policy.modelAllowlist.any fun pattern => ctx.modelRef.any (modelMatches pattern) then
      some .allow
    else some (.block ("model '" ++ ctx.modelRef.getD "unknown" ++ "' is not in the allowlist"))
  else
    match policy.blockedTools.findSome? fun pattern =>
        (ctx.matches pattern).map fun name => (name, pattern) with
    | some (name, pattern) =>
        some (.block ("tool '" ++ name ++ "' matches blocked pattern '" ++ pattern ++ "'"))
    | none =>
        if policy.requireApprovalFor.any fun pattern => (ctx.matches pattern).isSome then
          some (.requireApproval "human")
        else none

/-- The layers come least specific first; the most specific that says anything decides. -/
def evaluate (ctx : EvaluationContext) (policySets : List PolicySetIr) : PolicyDecision :=
  (policySets.reverse.findSome? (evaluateLayer ctx)).getD .allow

def maxApprovalTimeoutSecs : ℕ := 365 * 24 * 60 * 60

structure ApprovalDeadline where
  timeoutSecs : ℕ
  escalateAfterSecs : Option ℕ
  deriving DecidableEq, Repr

def PolicySetIr.validateApprovalDeadline (p : PolicySetIr) : Except String Unit :=
  match p.approvalTimeoutSecs, p.escalateAfterSecs with
  | none, none => .ok ()
  | none, some _ => .error "escalate_after_secs needs approval_timeout_secs in the same policy"
  | some t, escalate =>
      if 1 ≤ t ∧ t ≤ maxApprovalTimeoutSecs then
        match escalate with
        | some e =>
            if 1 ≤ e ∧ e < t then .ok ()
            else .error ("escalate_after_secs must be at least 1 and less than " ++
              "approval_timeout_secs (" ++ toString t ++ "), got " ++ toString e)
        | none => .ok ()
      else .error ("approval_timeout_secs must be between 1 and " ++
        toString maxApprovalTimeoutSecs ++ ", got " ++ toString t)

/-- Every level is a ceiling: the shortest timeout and the shortest escalation apply, and an
escalation that would not come first is dropped. -/
def ApprovalDeadline.resolve (sets : List PolicySetIr) : Except String (Option ApprovalDeadline) := do
  for set in sets do
    set.validateApprovalDeadline
  match (sets.filterMap (·.approvalTimeoutSecs)).min? with
  | none => return none
  | some timeoutSecs =>
      return some ⟨timeoutSecs, (sets.filterMap (·.escalateAfterSecs)).min?.filter (· < timeoutSecs)⟩

end JamJet.Policy
