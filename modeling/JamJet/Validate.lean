import JamJet.ConditionNode
import JamJet.GraphSearch
import JamJet.Ir

/-! The validation of a submitted workflow, pass by pass. -/

namespace JamJet

namespace Condition

/-- `str::parse::<u32>`. -/
def parseU32 (s : List Char) : Option ℕ :=
  let digits := match s with
    | '+' :: rest => rest
    | _ => s
  let n := Nat.ofDigitChars 10 digits 0
  if !digits.isEmpty && digits.all Char.isDigit && n < 2 ^ 32 then some n else none

def requireStatePath (lhs : List Char) : Except String Unit :=
  match "state.".toList.isPrefixOf? lhs with
  | some path =>
      if !path.isEmpty && (path.splitOn '.').all (!·.isEmpty) then .ok ()
      else .error ("left-hand side `" ++ String.ofList lhs ++ "` must be a `state.<path>` reference")
  | none =>
      .error ("left-hand side `" ++ String.ofList lhs ++ "` must be a `state.<path>` reference")

/-- An expression the evaluator can ever satisfy, given how JSON text is read. -/
def validateExpression (parseLiteral : String → Option Json) (expr : String) : Except String Unit :=
  let expr := trim expr.toList
  if expr.isEmpty then .error "expression is empty"
  else
    match findFirstOp expr with
    | some (before, _, after) => do
        requireStatePath (trim before)
        let rhs := String.ofList (trim after)
        if (parseLiteral rhs).isNone then
          .error ("right-hand side `" ++ rhs ++ "` is not a literal (use a double-quoted string, " ++
            "a number, true, false or null)")
        else .ok ()
    | none => requireStatePath expr

end Condition

namespace Ir

open Policy (PolicySetIr)

inductive IrError
  | unknownToolRef (node ref : String)
  | unknownModelRef (node ref : String)
  | unknownMcpServer (node ref : String)
  | unknownRemoteAgent (node ref : String)
  | unknownEdgeTarget (src dst : String)
  | invalidConditionExpression (node expr reason : String)
  | invalidQueueName (node queue reason : String)
  | unknownBranchTarget (node target : String)
  | branchTargetMissingOutEdge (node target : String)
  | unmarkedAgentToolDispatch (node : String)
  | misplacedAgentToolDispatch (node coordinates : String)
  | invalidApprovalDeadline (scope reason : String)
  | invalidNodeId (id : String)
  | nodeIdMismatch (key id : String)
  | unreachableNode (id : String)
  | noStartNode
  | invalidVersion (version : String)
  | duplicateNodeId (id : String)
  deriving DecidableEq, Repr

abbrev IrResult := Except IrError Unit

/-- The longest node id. -/
def maxNodeIdLen : ℕ := 128

/-- The longest queue name of an `external_fn` node. -/
def maxQueueNameLen : ℕ := 64

def isIdChar (c : Char) : Bool := c.isAlphanum || c = '_' || c = '.' || c = '-'

/-- One to `maxNodeIdLen` ASCII letters, digits, `_`, `.` and `-`. -/
def safeId (id : String) : Bool :=
  !id.isEmpty && id.utf8ByteSize ≤ maxNodeIdLen && id.toList.all isIdChar

def isAdkDispatchCoordinates (moduleName function : String) : Bool :=
  moduleName = "jamjet.agents.tool_runtime" && function = "dispatch_tool_calls"

variable (parseLiteral : String → Option Json) (walk : HashOrder NodeId) (ir : WorkflowIr)

def validateMetadata : IrResult :=
  if ir.workflowId.isEmpty then .error (.invalidVersion "workflow_id is empty")
  else
    let parts := ir.version.toList.splitOn '.'
    if parts.length ≠ 3 ∨ parts.any fun p => (Condition.parseU32 p).isNone then
      .error (.invalidVersion ir.version)
    else .ok ()

/-- The keys of the map are distinct; an id has to agree with its key. -/
def validateNoDuplicateNodes : IrResult :=
  (ir.entries walk).forM fun (key, node) =>
    if key ≠ node.id then .error (.duplicateNodeId node.id) else .ok ()

def validateStartNode : IrResult :=
  if ir.startNode.isEmpty then .error .noStartNode
  else if ir.startNode ∉ ir.nodes then .error (.unreachableNode ir.startNode)
  else .ok ()

def validateEdges : IrResult :=
  ir.edges.forM fun edge =>
    if edge.dst ∉ ir.nodes ∧ edge.dst ≠ "end" then .error (.unknownEdgeTarget edge.src edge.dst)
    else .ok ()

/-- A branch leads to a node or to the end, along an edge. -/
def validateBranch (id : NodeId) (branch : ConditionalBranch) : IrResult :=
  if branch.target ≠ "end" ∧ branch.target ∉ ir.nodes then
    .error (.unknownBranchTarget id branch.target)
  else if branch.target ∉ ir.successors id then
    .error (.branchTargetMissingOutEdge id branch.target)
  else .ok ()

def validateBranchTargets : IrResult :=
  (ir.entries walk).forM fun (id, node) =>
    match node.kind with
    | .condition branches => branches.forM (validateBranch ir id)
    | _ => .ok ()

/-- The nodes that the search from the start node visits. -/
def visited : Finset NodeId :=
  GraphSearch.search (fun id => (ir.successors id).filter (· ≠ "end")) (ir.edges.length + 1)
    ({ir.startNode}, [ir.startNode])

def validateReachability : IrResult :=
  (ir.entries walk).forM fun (id, _) =>
    if id ∉ visited ir then .error (.unreachableNode id) else .ok ()

/-- A name a node refers to is one of those configured. -/
def known (ref : String) (names : Finset String) (err : IrError) : IrResult :=
  if ref ∉ names then .error err else .ok ()

def validateRefs : IrResult :=
  (ir.entries walk).forM fun (id, node) =>
    match node.kind with
    | .tool toolRef => known toolRef ir.tools (.unknownToolRef id toolRef)
    | .model modelRef _ _ => known modelRef ir.models.keys (.unknownModelRef id modelRef)
    | .mcpTool server => known server ir.mcpServers (.unknownMcpServer id server)
    | .a2aTask remoteAgent => known remoteAgent ir.remoteAgents (.unknownRemoteAgent id remoteAgent)
    | _ => .ok ()

def validateAgentToolDispatch : IrResult :=
  (ir.entries walk).forM fun (id, node) =>
    match node.kind with
    | .pythonFn moduleName function agentToolDispatch =>
        let isDispatcher := isAdkDispatchCoordinates moduleName function
        if isDispatcher && !agentToolDispatch then .error (.unmarkedAgentToolDispatch id)
        else if agentToolDispatch && !isDispatcher then
          .error (.misplacedAgentToolDispatch id ("python_fn " ++ moduleName ++ ":" ++ function))
        else .ok ()
    | .javaFn className method true =>
        .error (.misplacedAgentToolDispatch id ("java_fn " ++ className ++ "/" ++ method))
    | _ => .ok ()

def validateConditionExpressions : IrResult :=
  (ir.entries walk).forM fun (id, node) =>
    match node.kind with
    | .condition branches =>
        branches.forM fun branch =>
          match branch.condition with
          | some expr =>
              match Condition.validateExpression parseLiteral expr with
              | .error reason => .error (.invalidConditionExpression id expr reason)
              | .ok () => .ok ()
          | none => .ok ()
    | _ => .ok ()

/-- What is wrong with the queue name of an `external_fn` node. -/
def queueProblem (queue : String) : Option String :=
  if queue.isEmpty then some "the queue name is empty"
  else if queue.utf8ByteSize > maxQueueNameLen then
    some ("the queue name is longer than " ++ toString maxQueueNameLen ++ " characters")
  else if !queue.toList.all isIdChar then some "use only ASCII letters, digits, '-', '_' and '.'"
  else
    match QueueType.fromName queue with
    | .named _ => none
    | _ => some "that is a built-in queue; name a queue of your own"

def validateExternalQueues : IrResult :=
  (ir.entries walk).forM fun (id, node) =>
    match node.kind with
    | .externalFn queue _ =>
        match queueProblem queue with
        | some reason => .error (.invalidQueueName id queue reason)
        | none => .ok ()
    | _ => .ok ()

def validateNodeIds : IrResult :=
  (ir.entries walk).forM fun (key, node) =>
    if !safeId key then .error (.invalidNodeId key)
    else if !safeId node.id then .error (.invalidNodeId node.id)
    else if key ≠ node.id then .error (.nodeIdMismatch key node.id)
    else .ok ()

/-- A policy's deadline settings, reported under the scope they were made in. -/
def validateDeadline (scope : String) : Option PolicySetIr → IrResult
  | none => .ok ()
  | some policy =>
      match policy.validateApprovalDeadline with
      | .error reason => .error (.invalidApprovalDeadline scope reason)
      | .ok () => .ok ()

/-- The nodes are taken in the order of their ids. -/
def validateApprovalDeadlines : IrResult := do
  validateDeadline "workflow" ir.policy
  (ir.entries .sorted).forM fun (id, node) => validateDeadline ("node '" ++ id ++ "'") node.policy

def validateWorkflow : IrResult := do
  validateMetadata ir
  validateNoDuplicateNodes walk ir
  validateStartNode ir
  validateEdges ir
  validateBranchTargets walk ir
  validateReachability walk ir
  validateRefs walk ir
  validateAgentToolDispatch walk ir
  validateConditionExpressions parseLiteral walk ir
  validateExternalQueues walk ir
  validateNodeIds walk ir
  validateApprovalDeadlines ir

end Ir

end JamJet
