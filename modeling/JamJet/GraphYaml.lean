import JamJet.ValidateRules

/-! The compiler of graph-mode YAML documents: nodes, edges and the header, from what
`yaml.safe_load` returns. -/

namespace JamJet.GraphYaml

/-- A loaded value.  The keys of mappings are strings. -/
inductive Yaml
  | null
  | bool (b : Bool)
  | int (n : ℤ)
  | float (bits : BitVec 64)
  | str (s : String)
  /-- A date or a time. -/
  | stamp (text : String)
  | list (items : List Yaml)
  | dict (members : List (String × Yaml))

abbrev Members := List (String × Yaml)

inductive YamlError
  | valueError (message : String)
  | typeError
  | attributeError

/-- Texts that Python makes of values, and numbers it reads from texts. -/
structure Builtins where
  str : Yaml → String
  repr : Yaml → String
  /-- The name of the type. -/
  typeName : Yaml → String
  /-- `str.strip()` -/
  strip : String → String
  /-- `int(text)`; `none` raises. -/
  int : String → Option ℤ
  /-- `json.dumps(value)`; `none` raises. -/
  dumps : Yaml → Option String

namespace Yaml

def truthy : Yaml → Bool
  | null => false
  | bool b => b
  | int n => n ≠ 0
  | float bits => bits ≠ 0 && bits ≠ 0x8000000000000000
  | str s => s ≠ ""
  | stamp _ => true
  | list items => !items.isEmpty
  | dict members => !members.isEmpty

/-- `a or b`. -/
def orElse (a b : Yaml) : Yaml := if a.truthy then a else b

/-- What has a method `get`. -/
def members : Yaml → Except YamlError Members
  | dict members => .ok members
  | _ => .error .attributeError

def isStr (v : Yaml) (s : String) : Bool :=
  match v with
  | str t => t = s
  | _ => false

/-- `list(value)`, and what a loop goes over. -/
def toList : Yaml → Except YamlError (List Yaml)
  | list items => .ok items
  | str s => .ok (s.toList.map fun c => str (String.ofList [c]))
  | dict members => .ok (members.map fun kv => str kv.1)
  | _ => .error .typeError

end Yaml

/-- `d.get(key, default)`. -/
def getD (d : Members) (key : String) (default : Yaml) : Yaml := (d.lookup key).getD default

/-- `d.get(key)`. -/
def get (d : Members) (key : String) : Yaml := getD d key .null

/-- A key that stands for itself when it is missing. -/
def getStr (d : Members) (key : String) (default : String) : Yaml := getD d key (.str default)

section Policies

structure PolicySet where
  blockedTools : List Yaml
  requireApprovalFor : List Yaml
  modelAllowlist : List Yaml
  approvalTimeoutSecs : Option ℤ
  escalateAfterSecs : Option ℤ

def policyKnownKeys : List String :=
  ["approval_timeout_secs", "blocked_tools", "escalate_after_secs", "model_allowlist",
    "require_approval_for"]

def maxApprovalTimeoutSecs : ℤ := 365 * 24 * 60 * 60

variable (py : Builtins)

/-- One of the two deadline keys. -/
def deadlineKey (raw : Members) (location key : String) : Except YamlError (Option ℤ) :=
  match get raw key with
  | .null => .ok none
  | .int n => .ok (some n)
  | value =>
      .error (.valueError
        (location ++ ": " ++ key ++ " must be a whole number of seconds, got " ++ py.repr value))

def compileApprovalDeadline (raw : Members) (location : String) :
    Except YamlError (Option ℤ × Option ℤ) := do
  let timeout ← deadlineKey py raw location "approval_timeout_secs"
  let escalate ← deadlineKey py raw location "escalate_after_secs"
  match timeout with
  | some timeout =>
      if ¬ (1 ≤ timeout ∧ timeout ≤ maxApprovalTimeoutSecs) then
        throw (.valueError (location ++ ": approval_timeout_secs must be between 1 and " ++
          toString maxApprovalTimeoutSecs ++ ", got " ++ toString timeout))
  | none => pure ()
  match escalate with
  | none => pure ()
  | some escalate =>
      match timeout with
      | none =>
          throw (.valueError
            (location ++ ": escalate_after_secs needs approval_timeout_secs in the same policy"))
      | some timeout =>
          if ¬ (1 ≤ escalate ∧ escalate < timeout) then
            throw (.valueError (location ++ ": escalate_after_secs must be at least 1 and less " ++
              "than approval_timeout_secs (" ++ toString timeout ++ "), got " ++ toString escalate))
  return (timeout, escalate)

def checkPolicyKeys (members : Members) (location : String) : Except YamlError Unit :=
  let unknown := (members.map Prod.fst).filter (· ∉ policyKnownKeys)
  if unknown = [] then .ok ()
  else .error (.valueError ("Unknown key(s) in " ++ location ++ ": " ++
    ", ".intercalate (unknown.insertionSort (· ≤ ·)) ++ ". Allowed keys: " ++
    ", ".intercalate policyKnownKeys))

/-- `_compile_policy`: no policy where there is none. -/
def compilePolicy (raw : Yaml) (location : String) : Except YamlError (Option PolicySet) :=
  match raw with
  | .null => .ok none
  | .dict members => do
      checkPolicyKeys members location
      let blockedTools ← ((get members "blocked_tools").orElse (.list [])).toList
      let requireApprovalFor ← ((get members "require_approval_for").orElse (.list [])).toList
      let modelAllowlist ← ((get members "model_allowlist").orElse (.list [])).toList
      let (timeout, escalate) ← compileApprovalDeadline py members location
      return some
        { blockedTools := blockedTools
          requireApprovalFor := requireApprovalFor
          modelAllowlist := modelAllowlist
          approvalTimeoutSecs := timeout
          escalateAfterSecs := escalate }
  | raw =>
      .error (.valueError
        ("policy block at " ++ location ++ " must be a mapping, got " ++ py.typeName raw))

end Policies

section Helpers

variable (py : Builtins)

/-- `_parse_timeout`. -/
def parseTimeout : Yaml → Except YamlError Yaml
  | .null => .ok .null
  | .int n => .ok (.int n)
  | .bool b => .ok (.bool b)
  | timeout =>
      let s := py.strip (py.str timeout)
      let head := String.ofList s.toList.dropLast
      let seconds :=
        match s.toList.getLast? with
        | some 's' => py.int head
        | some 'm' => (py.int head).map (· * 60)
        | some 'h' => (py.int head).map (· * 3600)
        | _ => py.int s
      match seconds with
      | some n => .ok (.int n)
      | none => .error (.valueError "invalid literal for int() with base 10")

/-- `agent_ref`. -/
def agentRef (value : Yaml) (location : String) : Except YamlError (Option String) :=
  match value with
  | .null => .ok none
  | .str s =>
      if py.strip s = "" then
        .error (.valueError
          (location ++ ": agent_ref must be a non-empty string (an Agent Card uri)"))
      else .ok (some s)
  | _ =>
      .error (.valueError
        (location ++ ": agent_ref must be a non-empty string (an Agent Card uri)"))

/-- A target that names a node of type `end` is the end. -/
def termOf (endIds : List String) : Yaml → Yaml
  | .str s => if s ∈ endIds then .str "end" else .str s
  | target => target

/-- `_term`; for what cannot be hashed the test raises. -/
def term (endIds : List String) (target : Yaml) : Except YamlError Yaml :=
  match target with
  | .list _ => .error .typeError
  | .dict _ => .error .typeError
  | target => .ok (termOf endIds target)

/-- `_state_schema_str`. -/
def stateSchemaStr (value : Yaml) : Except YamlError String :=
  match value with
  | .str s => .ok s
  | value =>
      if value.truthy then
        match py.dumps value with
        | some text => .ok text
        | none => .error .typeError
      else .ok ""

end Helpers

section Kinds

variable (py : Builtins)

/-- One entry of `conditions`. -/
def compileBranch (endIds : List String) (cond : Yaml) : Except YamlError Yaml := do
  let cond ← cond.members
  let target := ((get cond "next").orElse (get cond "to")).orElse (.str "end")
  let target ← term endIds target
  return .dict [("condition", (get cond "if").orElse (get cond "when")), ("target", target)]

def compileBranches (endIds : List String) (data : Members) : Except YamlError (List Yaml) := do
  let conditions ← ((getD data "conditions" (.list [])).orElse (.list [])).toList
  let branches ← conditions.mapM (compileBranch endIds)
  match get data "default" with
  | .null => return branches
  | default =>
      let target ← term endIds default
      return branches ++ [.dict [("condition", .null), ("target", target)]]

def compileYamlScorer (s : Yaml) : Except YamlError Yaml := do
  let d ← s.members
  match getStr d "type" "" with
  | .str "llm_judge" =>
      return .dict [("type", .str "llm_judge"), ("model", getStr d "model" "default_chat"),
        ("rubric", getStr d "rubric" ""), ("min_score", getD d "min_score" (.int 3))]
  | .str "assertion" =>
      return .dict [("type", .str "assertion"), ("checks", getD d "checks" (.list []))]
  | .str "latency" =>
      return .dict [("type", .str "latency"), ("threshold_ms", getD d "threshold_ms" (.int 5000))]
  | .str "cost" =>
      return .dict [("type", .str "cost"),
        ("threshold_usd", getD d "threshold_usd" (.float 0x3ff0000000000000))]
  | .str "custom" =>
      return .dict [("type", .str "custom"), ("module", getStr d "module" ""),
        ("kwargs", getD d "kwargs" (.dict []))]
  | _ => return s

/-- Whether a node routes by its conditions. -/
def isCondition (nodeType : Yaml) : Bool := nodeType.isStr "condition" || nodeType.isStr "branch"

/-- `_yaml_node_to_kind`. -/
def yamlNodeToKind (nodeId : String) (nodeType : Yaml) (data : Members) (endIds : List String) :
    Except YamlError Yaml :=
  if isCondition nodeType then do
    let branches ← compileBranches endIds data
    return .dict [("type", .str "condition"), ("branches", .list branches)]
  else
    match nodeType with
    | .str "model" =>
        .ok (.dict [("type", .str "model"), ("model_ref", getStr data "model" "default_chat"),
          ("prompt_ref", getStr data "prompt" ("prompts/" ++ nodeId ++ ".md")),
          ("output_schema", getStr data "output_schema" ""),
          ("system_prompt", get data "system_prompt")])
    | .str "tool" =>
        .ok (.dict [("type", .str "tool"), ("tool_ref", getStr data "tool_ref" nodeId),
          ("input_mapping", getD data "input" (.dict [])),
          ("output_schema", getStr data "output_schema" "")])
    | .str "mcp_tool" =>
        .ok (.dict [("type", .str "mcp_tool"), ("server", getStr data "server" ""),
          ("tool", getStr data "tool" ""), ("input_mapping", getD data "input" (.dict [])),
          ("output_schema", getStr data "output_schema" "")])
    | .str "a2a_task" => do
        let timeout ← parseTimeout py (get data "timeout")
        return .dict [("type", .str "a2a_task"), ("remote_agent", getStr data "remote_agent" ""),
          ("skill", getStr data "skill" ""), ("input_mapping", getD data "input" (.dict [])),
          ("output_schema", getStr data "output_schema" ""),
          ("stream", getD data "stream" (.bool false)),
          ("on_input_required", get data "on_input_required"), ("timeout_secs", timeout)]
    | .str "human_approval" => do
        let timeout ← parseTimeout py (get data "timeout")
        return .dict [("type", .str "human_approval"),
          ("description", getStr data "description" ("Approval required for " ++ nodeId)),
          ("timeout_secs", timeout), ("fallback_node", get data "fallback")]
    | .str "agent" =>
        .ok (.dict [("type", .str "agent"), ("agent_ref", getStr data "agent_ref" nodeId),
          ("input_mapping", getD data "input" (.dict [])),
          ("output_schema", getStr data "output_schema" "")])
    | .str "eval" => do
        let scorers ← (getD data "scorers" (.list [])).toList
        let scorers ← scorers.mapM compileYamlScorer
        return .dict [("type", .str "eval"), ("scorers", .list scorers),
          ("on_fail", getStr data "on_fail" "halt"),
          ("max_retries", getD data "max_retries" (.int 0)),
          ("input_expr", get data "input_expr")]
    | nodeType => .ok (.dict [("type", nodeType)])

end Kinds

section Graphs

structure NodeIr where
  id : String
  kind : Yaml
  retryPolicy : Yaml
  nodeTimeoutSecs : Yaml
  description : Yaml
  labels : Yaml
  policy : Option PolicySet
  agentRef : Option String

structure EdgeIr where
  src : String
  dst : Yaml
  condition : Yaml

structure GraphIr where
  workflowId : Yaml
  version : Yaml
  name : Yaml
  description : Yaml
  stateSchema : String
  startNode : Yaml
  nodes : List NodeIr
  edges : List EdgeIr
  retryPolicies : Yaml
  timeouts : Yaml
  models : Yaml
  tools : Yaml
  mcpServers : Yaml
  remoteAgents : Yaml
  labels : Yaml
  policy : Option PolicySet
  agentRef : Option String

variable (py : Builtins)

/-- The edge of one entry of a list under `next`; a bare string makes none unless it is `end`. -/
def listEdge (nodeId : String) (endIds : List String) (entry : Yaml) :
    Except YamlError (Option EdgeIr) :=
  match entry with
  | .dict edge => do
      let dst ← term endIds (getStr edge "to" "end")
      return some ⟨nodeId, dst, get edge "when"⟩
  | entry => .ok (if entry.isStr "end" then some ⟨nodeId, .str "end", .null⟩ else none)

def nextEdges (nodeId : String) (endIds : List String) (nextVal : Yaml) :
    Except YamlError (List EdgeIr) :=
  match nextVal with
  | .str s => do
      let dst ← term endIds (.str s)
      return [⟨nodeId, dst, .null⟩]
  | .list entries => do
      let edges ← entries.mapM (listEdge nodeId endIds)
      return edges.filterMap id
  | .null => .ok [⟨nodeId, .str "end", .null⟩]
  | _ => .ok []

def nodeTypeOf (data : Members) : Yaml := getStr data "type" "tool"

/-- On a node `agent_ref` names the agent that is called. -/
def checkAgentRef (nodeId : String) (data : Members) : Except YamlError Unit :=
  if ¬ (nodeTypeOf data).isStr "agent" ∧ (data.lookup "agent_ref").isSome then
    .error (.valueError ("node '" ++ nodeId ++ "': agent_ref names the agent an `agent` node " ++
      "calls; to say which agent this node acts for, use acts_for"))
  else .ok ()

def compileNode (endIds : List String) (nodeId : String) (data : Members) :
    Except YamlError (NodeIr × List EdgeIr) := do
  let kind ← yamlNodeToKind py nodeId (nodeTypeOf data) data endIds
  let policy ← compilePolicy py (get data "policy") ("node '" ++ nodeId ++ "'")
  let timeout ← parseTimeout py (get data "timeout")
  checkAgentRef nodeId data
  let actsFor ← agentRef py (get data "acts_for") ("node '" ++ nodeId ++ "' acts_for")
  let edges ← nextEdges nodeId endIds (get data "next")
  return (
    { id := nodeId
      kind := kind
      retryPolicy := get data "retry_policy"
      nodeTimeoutSecs := timeout
      description := get data "description"
      labels := getD data "labels" (.dict [])
      policy := policy
      agentRef := actsFor }, edges)

/-- The loop over the nodes; those of type `end` are no nodes of the IR. -/
def compileNodes (endIds : List String) :
    Members → Except YamlError (List NodeIr × List EdgeIr)
  | [] => .ok ([], [])
  | (nodeId, data) :: rest => do
      let data ← data.members
      if (nodeTypeOf data).isStr "end" then compileNodes endIds rest
      else do
        let (node, out) ← compileNode py endIds nodeId data
        let (nodes, edges) ← compileNodes endIds rest
        return (node :: nodes, out ++ edges)

/-- The ids of the nodes of type `end`. -/
def endIdsOf (rawNodes : Members) : List String :=
  rawNodes.filterMap fun (nodeId, data) =>
    match data with
    | .dict members => if (get members "type").isStr "end" then some nodeId else none
    | _ => none

/-- `_compile_graph_yaml`. -/
def compileGraphYaml (data : Members) : Except YamlError GraphIr := do
  let rawNodes ← (getD data "nodes" (.dict [])).members
  let (nodes, edges) ← compileNodes py (endIdsOf rawNodes) rawNodes
  let policy ← compilePolicy py (get data "policy") "workflow-level policy"
  let wf ← (getD data "workflow" (.dict [])).members
  let agent ← agentRef py (get wf "agent_ref") "workflow agent_ref"
  let stateSchema ← stateSchemaStr py (getStr wf "state_schema" "")
  let mcp ← (getD data "mcp" (.dict [])).members
  let a2a ← (getD data "a2a" (.dict [])).members
  return {
    workflowId := getStr wf "id" "unknown"
    version := getStr wf "version" "0.1.0"
    name := get wf "name"
    description := get wf "description"
    stateSchema := stateSchema
    startNode := getStr wf "start" ((nodes.head?.map (·.id)).getD "")
    nodes := nodes
    edges := edges
    retryPolicies := getD data "retry_policies" (.dict [])
    timeouts := getD data "timeouts" (.dict [])
    models := getD data "models" (.dict [])
    tools := getD data "tools" (.dict [])
    mcpServers := getD mcp "servers" (.dict [])
    remoteAgents := getD a2a "remote_agents" (.dict [])
    labels := getD wf "labels" (.dict [])
    policy := policy
    agentRef := agent }

end Graphs

end JamJet.GraphYaml
