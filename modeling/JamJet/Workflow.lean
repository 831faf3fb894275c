import JamJet.Json
import Mathlib.Data.Finmap
import Mathlib.Data.List.Sort

/-! Workflow definitions as the scheduler reads them: node kinds, edges, the intermediate
representation, and the payload a node is dispatched with. -/

namespace JamJet

abbrev NodeId := String

abbrev ExecutionId := ℕ

inductive WorkflowStatus
  | pending
  | running
  | paused
  | completed
  | failed
  | cancelled
  | limitExceeded
  deriving DecidableEq, Repr

def WorkflowStatus.isTerminal : WorkflowStatus → Bool
  | .completed | .failed | .cancelled | .limitExceeded => true
  | .pending | .running | .paused => false

structure ConditionalBranch where
  condition : Option String
  target : NodeId
  deriving DecidableEq, Repr

/-- The node kinds, with the fields that dispatch and routing read. -/
inductive NodeKind
  | model (modelRef : String) (systemPrompt : Option String) (tools : List Json)
  | tool
  | pythonFn (moduleName function : String)
  | javaFn (className method : String)
  | externalFn (queue handler : String)
  | condition (branches : List ConditionalBranch)
  | parallel
  | join
  | humanApproval
  | wait
  | subgraph
  | memoryRetrieval
  | policy
  | finalizer
  | agent
  | mcpTool
  | a2aTask
  | agentDiscovery
  | coordinator
  | agentTool
  | eval
  | limitExceeded
  deriving Repr

inductive QueueType
  | model
  | tool
  | pythonTool
  | javaTool
  | retrieval
  | privileged
  | general
  | named (name : String)
  deriving DecidableEq, Repr

def QueueType.asStr : QueueType → String
  | .model => "model"
  | .tool => "tool"
  | .pythonTool => "python_tool"
  | .javaTool => "java_tool"
  | .retrieval => "retrieval"
  | .privileged => "privileged"
  | .general => "general"
  | .named name => name

def NodeKind.queueType : NodeKind → QueueType
  | .model .. => .model
  | .tool | .finalizer => .tool
  | .pythonFn .. => .pythonTool
  | .javaFn .. => .javaTool
  | .externalFn queue _ => .named queue
  | .memoryRetrieval => .retrieval
  | .mcpTool | .a2aTask => .tool
  | _ => .general

structure NodeDef where
  kind : NodeKind
  retryPolicy : Option String
  deriving Repr

structure EdgeDef where
  src : NodeId
  dst : NodeId
  deriving DecidableEq, Repr

/-- `temperature` is the `f32` widened to the bits of the `f64` it is written as. -/
structure ModelConfig where
  provider : String
  model : String
  temperature : Option (BitVec 64)
  maxTokens : Option ℕ
  deriving DecidableEq, Repr

structure WorkflowIr where
  nodes : Finmap fun _ : NodeId => NodeDef
  edges : List EdgeDef
  models : Finmap fun _ : String => ModelConfig

/-- How many attempts a node's work item gets, from its named retry policy. -/
def maxAttemptsFor (retryPolicy : Option String) : ℕ :=
  match retryPolicy with
  | some "no_retry" => 1
  | some "io_default" => 5
  | some "llm_default" => 3
  | _ => 3

def ConditionalBranch.toJson (b : ConditionalBranch) : Json :=
  Json.ofFields [("condition", Json.ofOption .string b.condition), ("target", .string b.target)]

def ModelConfig.modelId (cfg : ModelConfig) : String :=
  if cfg.provider.isEmpty then cfg.model else cfg.provider ++ "/" ++ cfg.model

/-- The fields a node's kind adds to its payload. -/
def NodeKind.payloadFields (ir : WorkflowIr) (state : JsonMap) : NodeKind → List (String × Json)
  | .pythonFn moduleName function =>
      [("module", .string moduleName), ("function", .string function), ("input", .object state)]
  | .javaFn className method =>
      [("class", .string className), ("method", .string method), ("input", .object state)]
  | .externalFn _ handler => [("handler", .string handler), ("input", .object state)]
  | .model modelRef systemPrompt tools =>
      let cfg := ir.models.lookup modelRef
      [("model", .string ((cfg.map ModelConfig.modelId).getD modelRef))]
        ++ ((cfg.bind (·.temperature)).map fun t => ("temperature", .number (.float t))).toList
        ++ ((cfg.bind (·.maxTokens)).map fun m => ("max_tokens", Json.ofNat m)).toList
        ++ (systemPrompt.map fun p => ("system_prompt", .string p)).toList
        ++ (if tools.isEmpty then [] else [("tools", .array tools)])
        ++ ((BTree.get state "messages").map fun m => ("messages", m)).toList
  | .condition branches =>
      if branches.isEmpty then []
      else [("branches", .array (branches.map ConditionalBranch.toJson)), ("state", .object state)]
  | _ => []

def buildWorkItemPayload (ir : WorkflowIr) (nodeId : NodeId) (node : NodeDef) (state : JsonMap)
    (workflowId workflowVersion : String) : Json :=
  Json.ofFields ([("workflow_id", .string workflowId), ("workflow_version", .string workflowVersion),
    ("node_id", .string nodeId)] ++ node.kind.payloadFields ir state)

/-- The order a hash map or set is walked in: some listing of its keys. -/
structure HashOrder (α : Type) where
  walk : Finset α → List α
  nodup : ∀ s, (walk s).Nodup
  mem_walk : ∀ s a, a ∈ walk s ↔ a ∈ s

/-- The order in which the keys come sorted. -/
def HashOrder.sorted : HashOrder NodeId where
  walk s := Quotient.lift (fun keys : List NodeId => keys.insertionSort (· ≤ ·))
    (fun a b (h : a.Perm b) => List.Perm.eq_of_pairwise' (List.pairwise_insertionSort _ a)
      (List.pairwise_insertionSort _ b)
      ((List.perm_insertionSort _ a).trans (h.trans (List.perm_insertionSort _ b).symm))) s.val
  nodup s := by
    obtain ⟨keys, hnodup⟩ := s
    induction keys using Quotient.inductionOn with
    | h keys => exact (List.perm_insertionSort _ keys).nodup_iff.mpr hnodup
  mem_walk s a := by
    obtain ⟨keys, hnodup⟩ := s
    induction keys using Quotient.inductionOn with
    | h keys => exact List.mem_insertionSort _

end JamJet
