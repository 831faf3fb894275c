import JamJet.Policy
import JamJet.Workflow

/-! The workflow definition as it is submitted, and the part of it the scheduler reads. -/

namespace JamJet

def QueueType.fromName (name : String) : QueueType :=
  match name with
  | "model" => .model
  | "tool" => .tool
  | "python_tool" => .pythonTool
  | "java_tool" => .javaTool
  | "retrieval" => .retrieval
  | "privileged" => .privileged
  | "general" => .general
  | other => .named other

namespace Ir

open Policy (PolicySetIr)

/-- The node kinds, with the fields that compilation, validation and dispatch read. -/
inductive NodeKind
  | model (modelRef : String) (systemPrompt : Option String) (tools : List Json)
  | tool (toolRef : String)
  | pythonFn (moduleName function : String) (agentToolDispatch : Bool)
  | javaFn (className method : String) (agentToolDispatch : Bool)
  | externalFn (queue handler : String)
  | condition (branches : List ConditionalBranch)
  | parallel
  | join
  | humanApproval
  | wait
  | subgraph
  | memoryRetrieval
  | policy
  | finalizer (toolRef : String)
  | agent (agentRef : String)
  | mcpTool (server : String)
  | a2aTask (remoteAgent : String)
  | agentDiscovery
  | coordinator
  | agentTool
  | eval
  | limitExceeded
  deriving Repr

def NodeKind.scheduled : NodeKind → JamJet.NodeKind
  | .model modelRef systemPrompt tools => .model modelRef systemPrompt tools
  | .tool _ => .tool
  | .pythonFn moduleName function _ => .pythonFn moduleName function
  | .javaFn className method _ => .javaFn className method
  | .externalFn queue handler => .externalFn queue handler
  | .condition branches => .condition branches
  | .parallel => .parallel
  | .join => .join
  | .humanApproval => .humanApproval
  | .wait => .wait
  | .subgraph => .subgraph
  | .memoryRetrieval => .memoryRetrieval
  | .policy => .policy
  | .finalizer _ => .finalizer
  | .agent _ => .agent
  | .mcpTool _ => .mcpTool
  | .a2aTask _ => .a2aTask
  | .agentDiscovery => .agentDiscovery
  | .coordinator => .coordinator
  | .agentTool => .agentTool
  | .eval => .eval
  | .limitExceeded => .limitExceeded

structure NodeDef where
  id : String
  kind : NodeKind
  retryPolicy : Option String := none
  labels : List (String × String) := []
  policy : Option PolicySetIr := none
  agentRef : Option String := none

def NodeDef.scheduled (node : NodeDef) : JamJet.NodeDef where
  kind := node.kind.scheduled
  retryPolicy := node.retryPolicy

structure EdgeDef where
  src : NodeId
  dst : NodeId
  condition : Option String := none
  deriving DecidableEq, Repr

def EdgeDef.scheduled (edge : EdgeDef) : JamJet.EdgeDef where
  src := edge.src
  dst := edge.dst

/-- Of the tool, server and remote agent configurations, their names. -/
structure WorkflowIr where
  workflowId : String
  version : String
  startNode : NodeId
  nodes : Finmap fun _ : NodeId => NodeDef
  edges : List EdgeDef
  models : Finmap fun _ : String => ModelConfig := ∅
  tools : Finset String := ∅
  mcpServers : Finset String := ∅
  remoteAgents : Finset String := ∅
  policy : Option PolicySetIr := none
  agentRef : Option String := none

namespace WorkflowIr

def edgesFrom (ir : WorkflowIr) (id : NodeId) : List EdgeDef := ir.edges.filter (·.src = id)

def successors (ir : WorkflowIr) (id : NodeId) : List NodeId := (ir.edgesFrom id).map (·.dst)

/-- The nodes in the order a walk over the map takes them. -/
def entries (walk : HashOrder NodeId) (ir : WorkflowIr) : List (NodeId × NodeDef) :=
  (walk.walk ir.nodes.keys).filterMap fun id => (ir.nodes.lookup id).map (id, ·)

variable {ir : WorkflowIr} {id : NodeId} {node : NodeDef}

theorem mem_edgesFrom {edge : EdgeDef} : edge ∈ ir.edgesFrom id ↔ edge ∈ ir.edges ∧ edge.src = id := by
  simp [edgesFrom]

theorem mem_successors {dst : NodeId} :
    dst ∈ ir.successors id ↔ ∃ edge ∈ ir.edges, edge.src = id ∧ edge.dst = dst := by
  simp [successors, mem_edgesFrom, and_assoc]

theorem mem_entries {walk : HashOrder NodeId} :
    (id, node) ∈ ir.entries walk ↔ ir.nodes.lookup id = some node := by
  simp only [entries, List.mem_filterMap, Option.map_eq_some_iff, Prod.mk.injEq]
  constructor
  · rintro ⟨id', -, node', hlookup, rfl, rfl⟩
    exact hlookup
  · intro hlookup
    have hkey : id ∈ ir.nodes.keys :=
      Finmap.mem_keys.mpr (Finmap.mem_of_lookup_eq_some hlookup)
    exact ⟨id, (walk.mem_walk _ _).mpr hkey, node, hlookup, rfl, rfl⟩

theorem mem_keys : id ∈ ir.nodes.keys ↔ ∃ node, ir.nodes.lookup id = some node := by
  rw [Finmap.mem_keys, ← Finmap.lookup_isSome, Option.isSome_iff_exists]

/-- The part of the nodes the scheduler reads. -/
def scheduledNodes (nodes : Finmap fun _ : NodeId => NodeDef) :
    Finmap fun _ : NodeId => JamJet.NodeDef where
  entries := nodes.entries.map (Sigma.map (fun key => key) fun _ => NodeDef.scheduled)
  nodupKeys := by
    obtain ⟨entries, hnodup⟩ := nodes
    induction entries using Quotient.inductionOn with
    | h l => exact Multiset.coe_nodupKeys.mpr ((Multiset.coe_nodupKeys.mp hnodup).map₂ _)

def scheduled (ir : WorkflowIr) : JamJet.WorkflowIr where
  nodes := scheduledNodes ir.nodes
  edges := ir.edges.map EdgeDef.scheduled
  models := ir.models

theorem lookup_scheduled :
    ir.scheduled.nodes.lookup id = (ir.nodes.lookup id).map NodeDef.scheduled := by
  change (scheduledNodes ir.nodes).lookup id = _
  induction ir.nodes using Finmap.induction_on with
  | H l => exact List.dlookup_map₂ id

end WorkflowIr

end Ir

end JamJet
