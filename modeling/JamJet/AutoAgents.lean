import JamJet.PyJson
import Mathlib.Data.List.Nodup
import Mathlib.Logic.Relation

/-! The Python builder of workflow graphs, whose compilation gives each agent tool that is to be
chosen by routing a coordinator that chooses it. -/

namespace JamJet.AutoAgents
open PyJson (Value setItem mem_setItem mem_of_mem_setItem nodup_setItem)

abbrev Dict := List (String × Value)

structure Branch where
  condition : Option String
  target : String
  deriving DecidableEq

structure CoordinatorNode where
  task : String := ""
  requiredSkills : List String := []
  outputKey : String := "result"
  preferredSkills : List String := []
  trustDomain : Option String := none
  budget : Option Dict := none
  tiebreaker : Option Dict := none
  strategy : String := "default"
  weights : Option Dict := none
  inputMapping : Option Dict := none

structure AgentToolNode where
  agent : String := ""
  outputKey : String := "result"
  mode : String := "sync"
  inputMapping : Option Dict := none
  timeoutMs : Option ℤ := none
  budget : Option Dict := none

/-- A node of the builder.  An agent tool is an object that is written to later, and what stands in
the graph is its identity; of the other classes only what they compile to is read. -/
inductive AnyNode
  | agentTool (obj : ℕ)
  | condition (branches : List Branch)
  | coordinator (node : CoordinatorNode)
  | other (kind : Value)

structure Edge where
  fromId : String
  toId : String
  condition : Option String := none
  deriving DecidableEq

structure WorkflowGraph where
  workflowId : String
  version : String
  stateSchema : String
  nodes : List (String × AnyNode)
  edges : List Edge
  start : Option String
  alreadyExpanded : Bool
  /-- The agent tools there are, by identity. -/
  objects : ℕ → AgentToolNode

def WorkflowGraph.new (workflowId version : String) (objects : ℕ → AgentToolNode) : WorkflowGraph :=
  ⟨workflowId, version, "", [], [], none, false, objects⟩

section Ir

inductive AgentTarget
  | auto
  | explicit (agent : String)

/-- A member that is left out when it is falsy is `none`. -/
inductive Kind
  | agentTool (agent : AgentTarget) (mode outputKey : String) (inputMapping : Dict)
      (timeoutMs : Option ℤ) (budget : Option Dict)
  | condition (branches : List Branch)
  | coordinator (task : String) (requiredSkills preferredSkills : List String)
      (outputKey strategy : String) (weights inputMapping : Dict) (trustDomain : Option String)
      (budget tiebreaker : Option Dict)
  | other (kind : Value)

structure IrNode where
  id : String
  kind : Kind

structure WorkflowIr where
  workflowId : String
  version : String
  stateSchema : String
  startNode : String
  nodes : List (String × IrNode)
  edges : List Edge

/-- `if self.budget`. -/
def nonempty (d : Option Dict) : Option Dict := d.filter fun d => !d.isEmpty

def AgentToolNode.toIrKind (node : AgentToolNode) : Kind :=
  .agentTool (if node.agent = "auto" then .auto else .explicit node.agent) node.mode node.outputKey
    (node.inputMapping.getD []) (node.timeoutMs.filter (· ≠ 0)) (nonempty node.budget)

def CoordinatorNode.toIrKind (node : CoordinatorNode) : Kind :=
  .coordinator node.task node.requiredSkills node.preferredSkills node.outputKey node.strategy
    (node.weights.getD []) (node.inputMapping.getD []) (node.trustDomain.filter (· ≠ ""))
    (nonempty node.budget) (nonempty node.tiebreaker)

def toIrKind (objects : ℕ → AgentToolNode) : AnyNode → Kind
  | .agentTool obj => (objects obj).toIrKind
  | .condition branches => .condition branches
  | .coordinator node => node.toIrKind
  | .other kind => .other kind

end Ir

section Builder

def addNode (g : WorkflowGraph) (nodeId : String) (node : AnyNode) : WorkflowGraph :=
  { g with
    start := if g.nodes.isEmpty then some nodeId else g.start
    nodes := setItem g.nodes nodeId node
    alreadyExpanded := false }

def addEdge (g : WorkflowGraph) (edge : Edge) : WorkflowGraph :=
  { g with edges := g.edges ++ [edge], alreadyExpanded := false }

def coordinatorId (agentNodeId : String) : String := "_coordinator_" ++ agentNodeId

def selectedAgent (agentNodeId : String) : String := "_selected_agent_" ++ agentNodeId

/-- The object of an agent tool whose agent is still to be chosen. -/
def autoObject (objects : ℕ → AgentToolNode) : AnyNode → Option ℕ
  | .agentTool obj => if (objects obj).agent = "auto" then some obj else none
  | _ => none

def autoNodes (g : WorkflowGraph) : List (String × ℕ) :=
  g.nodes.filterMap fun entry => (autoObject g.objects entry.2).map fun obj => (entry.1, obj)

def coordinatorOf (agentNodeId : String) : CoordinatorNode where
  task := "Route to agent for: " ++ agentNodeId
  outputKey := selectedAgent agentNodeId
  strategy := "default"

/-- An edge to the agent is one to its coordinator. -/
def redirect (agentNodeId : String) (edge : Edge) : Edge :=
  if edge.toId = agentNodeId then { edge with toId := coordinatorId agentNodeId } else edge

/-- One round of the loop of `_expand_auto_agents`. -/
def expandAutoAgent (g : WorkflowGraph) (agentNodeId : String) (obj : ℕ) : WorkflowGraph :=
  { g with
    nodes := setItem g.nodes (coordinatorId agentNodeId) (.coordinator (coordinatorOf agentNodeId))
    objects := Function.update g.objects obj
      { g.objects obj with agent := "state." ++ selectedAgent agentNodeId }
    edges := g.edges.map (redirect agentNodeId) ++ [⟨coordinatorId agentNodeId, agentNodeId, none⟩]
    start := if g.start = some agentNodeId then some (coordinatorId agentNodeId) else g.start }

def overwriteError (coordId : String) : String :=
  "Auto-expansion would overwrite existing node '" ++ coordId ++ "'. " ++
    "Reserve the '_coordinator_' prefix for generated nodes."

/-- What the rounds before a `ValueError` have done stays done. -/
def expandEach : List (String × ℕ) → WorkflowGraph → WorkflowGraph × Except String Unit
  | [], g => ({ g with alreadyExpanded := true }, .ok ())
  | (agentNodeId, obj) :: rest, g =>
    if coordinatorId agentNodeId ∈ g.nodes.map (·.1) then
      (g, .error (overwriteError (coordinatorId agentNodeId)))
    else
      expandEach rest (expandAutoAgent g agentNodeId obj)

def expandAutoAgents (g : WorkflowGraph) : WorkflowGraph × Except String Unit :=
  if g.alreadyExpanded then (g, .ok ()) else expandEach (autoNodes g) g

def toIr (g : WorkflowGraph) : WorkflowIr where
  workflowId := g.workflowId
  version := g.version
  stateSchema := g.stateSchema
  startNode := g.start.getD ""
  nodes := g.nodes.map fun entry => (entry.1, ⟨entry.1, toIrKind g.objects entry.2⟩)
  edges := g.edges

def compile (g : WorkflowGraph) : WorkflowGraph × Except String WorkflowIr :=
  ((expandAutoAgents g).1, (expandAutoAgents g).2.map fun _ => toIr (expandAutoAgents g).1)

end Builder

section Runs

inductive Op
  | addNode (nodeId : String) (node : AnyNode)
  | addEdge (edge : Edge)
  | compile

/-- The graph, and what it was told: the ids whose node was an auto agent when it was added, and the
edges as they were added. -/
structure Session where
  graph : WorkflowGraph
  auto : List String
  given : List Edge

def Session.next (s : Session) : Op → Session
  | .addNode nodeId node =>
    { s with
      graph := AutoAgents.addNode s.graph nodeId node
      auto := s.auto.filter (· ≠ nodeId) ++
        if (autoObject s.graph.objects node).isSome then [nodeId] else [] }
  | .addEdge edge =>
    { s with graph := AutoAgents.addEdge s.graph edge, given := s.given ++ [edge] }
  | .compile => { s with graph := (AutoAgents.compile s.graph).1 }

/-- A new graph. -/
def Session.new (workflowId version : String) (objects : ℕ → AgentToolNode) : Session :=
  ⟨.new workflowId version objects, [], []⟩

def run (s : Session) (ops : List Op) : Session := ops.foldl Session.next s

/-- An edge leads from one node to another. -/
def Leads (edges : List Edge) (a b : String) : Prop := ∃ e ∈ edges, e.fromId = a ∧ e.toId = b

def Kind.branches : Kind → List Branch
  | .condition branches => branches
  | _ => []

/-- An auto agent is reached through its coordinator only. -/
structure ThroughCoordinator (given : List Edge) (ir : WorkflowIr) (id : String) : Prop where
  inEdges : ir.edges.filter (·.toId = id) = [⟨coordinatorId id, id, none⟩]
  coordinator : (coordinatorId id, ⟨coordinatorId id, (coordinatorOf id).toIrKind⟩) ∈ ir.nodes
  /-- The agent is the one that its coordinator selects. -/
  agent : ∃ node : AgentToolNode, node.agent = "state." ++ selectedAgent id ∧
    (id, ⟨id, node.toIrKind⟩) ∈ ir.nodes
  branches : ∀ entry ∈ ir.nodes, ∀ branch ∈ entry.2.kind.branches, branch.target ≠ id
  /-- Every edge that led to it, with its condition, and every path. -/
  edges : ∀ e ∈ given, e.toId = id → { e with toId := coordinatorId id } ∈ ir.edges
  paths : ∀ a, Relation.TransGen (Leads given) a id →
    Relation.ReflTransGen (Leads ir.edges) a (coordinatorId id)
  start : ir.startNode ≠ id

/-- What the last compile is to give. -/
structure Coordinated (s : Session) (ir : WorkflowIr) : Prop where
  agents : ∀ id ∈ s.auto, ThroughCoordinator s.given ir id
  matched : ∀ entry ∈ ir.nodes, ∀ branch ∈ entry.2.kind.branches,
    Leads s.given entry.1 branch.target → Leads ir.edges entry.1 branch.target

/-- The auto agents that an earlier compile has expanded: nothing in the graph marks them any
more. -/
def expanded (s : Session) : List String :=
  s.auto.filter fun id => id ∉ (autoNodes s.graph).map (·.1)

/-- The edges to a node have been led to a coordinator. -/
def Redirected (g : WorkflowGraph) (id : String) : Prop :=
  coordinatorId id ∈ g.nodes.map (·.1) ∧ ⟨coordinatorId id, id, none⟩ ∈ g.edges

instance (g : WorkflowGraph) (id : String) : Decidable (Redirected g id) :=
  inferInstanceAs (Decidable (_ ∧ _))

/-- What makes a step harmless. -/
def Safe (s : Session) : Op → Prop
  | .addNode nodeId node =>
    -- a coordinator is not replaced, nor an object that awaits its own added again
    (∀ id ∈ expanded s, nodeId ≠ coordinatorId id) ∧
      ∀ agent ∈ autoNodes s.graph, autoObject s.graph.objects node = some agent.2 →
        agent.1 = nodeId
  | .addEdge edge => edge.toId ∉ expanded s
  | .compile => True

instance (s : Session) : (op : Op) → Decidable (Safe s op)
  | .addNode _ _ => inferInstanceAs (Decidable (_ ∧ _))
  | .addEdge _ => inferInstanceAs (Decidable (_ ∉ _))
  | .compile => inferInstanceAs (Decidable True)

/-- A run of harmless steps. -/
def SafeRun (s : Session) : List Op → Prop
  | [] => True
  | op :: ops => Safe s op ∧ SafeRun (s.next op) ops

instance decidableSafeRun : (s : Session) → (ops : List Op) → Decidable (SafeRun s ops)
  | _, [] => inferInstanceAs (Decidable True)
  | s, op :: ops =>
    have := decidableSafeRun (s.next op) ops
    inferInstanceAs (Decidable (Safe s op ∧ SafeRun (s.next op) ops))

/-- No branch targets an auto agent, or a node whose edges have been led elsewhere. -/
def BranchesFree (s : Session) : Prop :=
  ∀ entry ∈ s.graph.nodes, ∀ branch ∈ (toIrKind s.graph.objects entry.2).branches,
    branch.target ∉ s.auto ∧ ¬ Redirected s.graph branch.target

instance (s : Session) : Decidable (BranchesFree s) :=
  inferInstanceAs (Decidable (∀ entry ∈ s.graph.nodes, _))

end Runs

section Edges

variable {edges : List Edge} {id id' a b : String}

theorem filter_redirect (hne : id' ≠ id) (hcoord : coordinatorId id ≠ id') :
    (edges.map (redirect id)).filter (·.toId = id') = edges.filter (·.toId = id') := by
  induction edges with
  | nil => rfl
  | cons e edges ih =>
    rw [List.map_cons]
    by_cases he : e.toId = id
    · rw [List.filter_cons_of_neg (by simp [redirect, he, hcoord]),
        List.filter_cons_of_neg (by simp [he, Ne.symm hne]), ih]
    · rw [redirect, if_neg he, List.filter_cons, List.filter_cons, ih]

theorem coordinatorId_ne : coordinatorId id ≠ id := by
  intro h
  have hlength := congrArg String.length h
  simp [coordinatorId] at hlength

theorem filter_redirect_self : (edges.map (redirect id)).filter (·.toId = id) = [] := by
  refine List.filter_eq_nil_iff.mpr fun e he => ?_
  obtain ⟨e', -, rfl⟩ := List.mem_map.mp he
  by_cases he' : e'.toId = id
  · simp [redirect, he', coordinatorId_ne]
  · simp [redirect, he']

theorem mem_redirect {e : Edge} (h : e ∈ edges) (hne : e.toId ≠ id) :
    e ∈ edges.map (redirect id) :=
  List.mem_map.mpr ⟨e, h, if_neg hne⟩

theorem leads_redirect (h : Relation.TransGen (Leads edges) a b) : Relation.TransGen
    (Leads (edges.map (redirect id) ++ [⟨coordinatorId id, id, none⟩])) a b := by
  refine Relation.TransGen.closed (fun x y hxy => ?_) a b h
  obtain ⟨e, he, rfl, rfl⟩ := hxy
  by_cases hto : e.toId = id
  · have hin : Leads (edges.map (redirect id) ++ [⟨coordinatorId id, id, none⟩]) e.fromId
        (coordinatorId id) :=
      ⟨redirect id e, List.mem_append_left _ (List.mem_map_of_mem he), by simp [redirect, hto],
        by simp [redirect, hto]⟩
    exact (Relation.TransGen.single hin).tail
      ⟨⟨coordinatorId id, id, none⟩, by simp, rfl, hto.symm⟩
  · exact .single ⟨e, List.mem_append_left _ (mem_redirect he hto), rfl, rfl⟩

end Edges

section Expansion

variable {g : WorkflowGraph} {id id' : String} {obj obj' : ℕ} {given : List Edge}

theorem autoObject_eq_some {objects : ℕ → AgentToolNode} {node : AnyNode} :
    autoObject objects node = some obj ↔ node = .agentTool obj ∧ (objects obj).agent = "auto" := by
  cases node with
  | agentTool o =>
    rw [autoObject]
    split_ifs with h
    · exact ⟨fun heq => Option.some.inj heq ▸ ⟨rfl, h⟩, fun heq => AnyNode.agentTool.inj heq.1 ▸ rfl⟩
    · exact ⟨fun heq => (by cases heq), fun heq => absurd (AnyNode.agentTool.inj heq.1 ▸ heq.2) h⟩
  | condition _ => simp [autoObject]
  | coordinator _ => simp [autoObject]
  | other _ => simp [autoObject]

theorem mem_autoNodes : (id, obj) ∈ autoNodes g ↔
    (id, .agentTool obj) ∈ g.nodes ∧ (g.objects obj).agent = "auto" := by
  rw [autoNodes, List.mem_filterMap]
  constructor
  · rintro ⟨⟨key, node⟩, hmem, heq⟩
    obtain ⟨o, ho, heq⟩ := Option.map_eq_some_iff.mp heq
    obtain ⟨rfl, rfl⟩ := Prod.mk.inj heq
    obtain ⟨rfl, hauto⟩ := autoObject_eq_some.mp ho
    exact ⟨hmem, hauto⟩
  · rintro ⟨hmem, hauto⟩
    exact ⟨_, hmem, by rw [autoObject_eq_some.mpr ⟨rfl, hauto⟩]; rfl⟩

theorem key_of_mem {entry : String × AnyNode} (h : entry ∈ g.nodes) :
    entry.1 ∈ g.nodes.map (·.1) := List.mem_map_of_mem h

theorem node_unique {node node' : AnyNode} (hkeys : (g.nodes.map (·.1)).Nodup)
    (h : (id, node) ∈ g.nodes) (h' : (id, node') ∈ g.nodes) : node = node' :=
  congrArg Prod.snd (List.inj_on_of_nodup_map hkeys h h' rfl)

theorem selected_ne_auto : "state." ++ selectedAgent id ≠ "auto" := by
  intro h
  have hchars := congrArg (fun s : String => s.toList.head?) h
  simp at hchars

theorem mem_nodes_expand {entry : String × AnyNode} (hkeys : (g.nodes.map (·.1)).Nodup)
    (hnew : coordinatorId id ∉ g.nodes.map (·.1)) :
    entry ∈ (expandAutoAgent g id obj).nodes ↔
      entry = (coordinatorId id, .coordinator (coordinatorOf id)) ∨ entry ∈ g.nodes := by
  rw [expandAutoAgent, mem_setItem hkeys]
  refine or_congr_right ⟨And.right, fun h => ⟨fun heq => hnew (heq ▸ key_of_mem h), h⟩⟩

theorem mem_autoNodes_expand (hkeys : (g.nodes.map (·.1)).Nodup)
    (hnew : coordinatorId id ∉ g.nodes.map (·.1)) :
    (id', obj') ∈ autoNodes (expandAutoAgent g id obj) ↔
      (id', obj') ∈ autoNodes g ∧ obj' ≠ obj := by
  rw [mem_autoNodes, mem_autoNodes, mem_nodes_expand hkeys hnew, expandAutoAgent]
  by_cases hobj : obj' = obj
  · subst hobj
    simp [selected_ne_auto]
  · simp [hobj]

/-- An agent that has its coordinator. -/
structure Wired (g : WorkflowGraph) (given : List Edge) (id : String) : Prop where
  agent : ∃ obj, (id, .agentTool obj) ∈ g.nodes ∧
    (g.objects obj).agent = "state." ++ selectedAgent id
  coordinator : (coordinatorId id, .coordinator (coordinatorOf id)) ∈ g.nodes
  inEdges : g.edges.filter (·.toId = id) = [⟨coordinatorId id, id, none⟩]
  edges : ∀ e ∈ given, e.toId = id → { e with toId := coordinatorId id } ∈ g.edges
  start : g.start ≠ some id

theorem wired_self (hkeys : (g.nodes.map (·.1)).Nodup) (hauto : (id, obj) ∈ autoNodes g)
    (hnew : coordinatorId id ∉ g.nodes.map (·.1))
    (hkept : ∀ e ∈ given, e.toId = id → e ∈ g.edges) :
    Wired (expandAutoAgent g id obj) given id where
  agent := ⟨obj, (mem_nodes_expand hkeys hnew).mpr (.inr (mem_autoNodes.mp hauto).1),
    by simp [expandAutoAgent]⟩
  coordinator := (mem_nodes_expand hkeys hnew).mpr (.inl rfl)
  inEdges := by
    rw [expandAutoAgent, List.filter_append, filter_redirect_self]
    simp
  edges := fun e he hto =>
    List.mem_append_left _ (List.mem_map.mpr ⟨e, hkept e he hto, if_pos hto⟩)
  start := by
    rw [expandAutoAgent]
    split_ifs with hstart
    · simpa using coordinatorId_ne
    · exact hstart

theorem Wired.expand (h : Wired g given id') (hkeys : (g.nodes.map (·.1)).Nodup)
    (hauto : (id, obj) ∈ autoNodes g) (hnew : coordinatorId id ∉ g.nodes.map (·.1)) :
    Wired (expandAutoAgent g id obj) given id' := by
  obtain ⟨obj', hmem', hagent'⟩ := h.agent
  obtain ⟨hmem, hagent⟩ := mem_autoNodes.mp hauto
  have hobj : obj' ≠ obj := fun heq =>
    selected_ne_auto (hagent'.symm.trans (heq ▸ hagent))
  have hne : id' ≠ id := fun heq =>
    hobj (AnyNode.agentTool.inj (node_unique hkeys (heq ▸ hmem') hmem))
  have hcoord : coordinatorId id ≠ id' := fun heq => hnew (heq ▸ key_of_mem hmem')
  have hredirected : coordinatorId id' ≠ id := fun heq => by
    cases node_unique hkeys (heq ▸ h.coordinator) hmem
  constructor
  case agent =>
    refine ⟨obj', (mem_nodes_expand hkeys hnew).mpr (.inr hmem'), ?_⟩
    dsimp only [expandAutoAgent]
    rw [Function.update_of_ne hobj, hagent']
  case coordinator => exact (mem_nodes_expand hkeys hnew).mpr (.inr h.coordinator)
  case inEdges =>
    rw [expandAutoAgent, List.filter_append, filter_redirect hne hcoord, h.inEdges]
    simp [Ne.symm hne]
  case edges =>
    intro e he hto
    exact List.mem_append_left _ (mem_redirect (h.edges e he hto) hredirected)
  case start =>
    rw [expandAutoAgent]
    split_ifs with hstart
    · simpa using hcoord
    · exact h.start

end Expansion

section Invariant

variable {s : Session} {id : String} {obj : ℕ}

/-- What holds of a graph after any run of harmless steps. -/
structure Inv (s : Session) : Prop where
  keys : (s.graph.nodes.map (·.1)).Nodup
  started : s.graph.nodes ≠ [] → s.graph.start ≠ none
  flag : s.graph.alreadyExpanded = true → autoNodes s.graph = []
  agent : ∀ id ∈ s.auto, ∃ obj, (id, .agentTool obj) ∈ s.graph.nodes
  marked : ∀ id obj, (id, obj) ∈ autoNodes s.graph → id ∈ s.auto
  own : ∀ id id' obj, (id, obj) ∈ autoNodes s.graph → (id', obj) ∈ autoNodes s.graph → id = id'
  kept : ∀ e ∈ s.given, ¬ Redirected s.graph e.toId → e ∈ s.graph.edges
  leads : ∀ e ∈ s.given, Relation.TransGen (Leads s.graph.edges) e.fromId e.toId
  wired : ∀ id ∈ expanded s, Wired s.graph s.given id

theorem mem_expanded :
    id ∈ expanded s ↔ id ∈ s.auto ∧ id ∉ (autoNodes s.graph).map (·.1) := by
  rw [expanded, List.mem_filter, decide_eq_true_iff]

theorem Inv.expand (h : Inv s) (hauto : (id, obj) ∈ autoNodes s.graph)
    (hnew : coordinatorId id ∉ s.graph.nodes.map (·.1))
    (hflag : s.graph.alreadyExpanded = false) :
    Inv { s with graph := expandAutoAgent s.graph id obj } := by
  have hmarked : ∀ {id' obj'}, (id', obj') ∈ autoNodes (expandAutoAgent s.graph id obj) →
      (id', obj') ∈ autoNodes s.graph := fun hmem =>
    ((mem_autoNodes_expand h.keys hnew).mp hmem).1
  have hkept : ∀ e ∈ s.given, e.toId = id → e ∈ s.graph.edges := fun e he hto =>
    h.kept e he fun hred => hnew (hto ▸ hred.1)
  constructor
  case keys => exact nodup_setItem h.keys
  case started =>
    intro _
    dsimp only [expandAutoAgent]
    split_ifs
    · exact Option.some_ne_none _
    · exact h.started (List.ne_nil_of_mem (mem_autoNodes.mp hauto).1)
  case flag => exact fun htrue => absurd (hflag.symm.trans htrue) Bool.false_ne_true
  case agent =>
    intro id' hid
    obtain ⟨obj', hmem⟩ := h.agent id' hid
    exact ⟨obj', (mem_nodes_expand h.keys hnew).mpr (.inr hmem)⟩
  case marked => exact fun id' obj' hmem => h.marked id' obj' (hmarked hmem)
  case own => exact fun _ _ _ hmem hmem' => h.own _ _ _ (hmarked hmem) (hmarked hmem')
  case kept =>
    intro e he hred
    have hto : e.toId ≠ id := by
      intro hto
      refine hred ⟨?_, ?_⟩
      · exact hto ▸ key_of_mem ((mem_nodes_expand h.keys hnew).mpr (.inl rfl))
      · exact hto ▸ List.mem_append_right _ (List.mem_singleton.mpr rfl)
    refine List.mem_append_left _ (mem_redirect (h.kept e he fun hred' => hred ?_) hto)
    obtain ⟨entry, hentry, hkey⟩ := List.mem_map.mp hred'.1
    exact ⟨hkey ▸ key_of_mem ((mem_nodes_expand h.keys hnew).mpr (.inr hentry)),
      List.mem_append_left _ (mem_redirect hred'.2 hto)⟩
  case leads => exact fun e he => leads_redirect (h.leads e he)
  case wired =>
    intro id' hexpanded
    obtain ⟨hid, hgone⟩ := mem_expanded.mp hexpanded
    by_cases hpending : id' ∈ (autoNodes s.graph).map (·.1)
    · obtain ⟨⟨key, obj'⟩, hmem, rfl⟩ := List.mem_map.mp hpending
      have hobj : obj' = obj := by
        by_contra hne
        exact hgone (List.mem_map.mpr
          ⟨_, (mem_autoNodes_expand h.keys hnew).mpr ⟨hmem, hne⟩, rfl⟩)
      obtain rfl := h.own _ _ _ hauto (hobj ▸ hmem)
      exact wired_self h.keys hauto hnew hkept
    · exact (h.wired id' (mem_expanded.mpr ⟨hid, hpending⟩)).expand h.keys hauto hnew

theorem keys_autoNodes (g : WorkflowGraph) :
    ((autoNodes g).map (·.1)).Sublist (g.nodes.map (·.1)) := by
  rw [autoNodes]
  induction g.nodes with
  | nil => exact .slnil
  | cons entry nodes ih =>
    cases hobj : autoObject g.objects entry.2 with
    | none =>
      rw [List.filterMap_cons_none (by rw [hobj]; rfl)]
      exact ih.cons _
    | some obj =>
      rw [List.filterMap_cons_some (by rw [hobj]; rfl)]
      exact ih.cons_cons _

/-- The loop, which either expands every agent or stops before one whose coordinator cannot be
added. -/
theorem Inv.expandEach {agents : List (String × ℕ)} (h : Inv s)
    (hflag : s.graph.alreadyExpanded = false)
    (hagents : ∀ agent, agent ∈ agents ↔ agent ∈ autoNodes s.graph)
    (hpair : agents.Pairwise (·.2 ≠ ·.2)) :
    Inv { s with graph := (AutoAgents.expandEach agents s.graph).1 } ∧
      ((AutoAgents.expandEach agents s.graph).2 = .ok () →
        autoNodes (AutoAgents.expandEach agents s.graph).1 = []) := by
  induction agents generalizing s with
  | nil =>
    have hnone : autoNodes s.graph = [] :=
      List.eq_nil_iff_forall_not_mem.mpr fun agent hmem => by simpa using (hagents agent).mpr hmem
    exact ⟨⟨h.keys, h.started, fun _ => hnone, h.agent, h.marked, h.own, h.kept, h.leads,
      fun id hid => ⟨(h.wired id hid).agent, (h.wired id hid).coordinator, (h.wired id hid).inEdges,
        (h.wired id hid).edges, (h.wired id hid).start⟩⟩, fun _ => hnone⟩
  | cons agent agents ih =>
    obtain ⟨id, obj⟩ := agent
    rw [AutoAgents.expandEach]
    split_ifs with hold
    · exact ⟨h, fun herror => by cases herror⟩
    · have hauto := (hagents (id, obj)).mp List.mem_cons_self
      have hfresh := (List.pairwise_cons.mp hpair).1
      refine ih (h.expand hauto hold hflag) hflag ?_ (List.pairwise_cons.mp hpair).2
      rintro ⟨id', obj'⟩
      rw [mem_autoNodes_expand h.keys hold, ← hagents, List.mem_cons]
      constructor
      · exact fun hmem => ⟨.inr hmem, (hfresh _ hmem).symm⟩
      · rintro ⟨heq | hmem, hne⟩
        · exact absurd (congrArg Prod.snd heq) hne
        · exact hmem

theorem Inv.expandAutoAgents (h : Inv s) :
    Inv { s with graph := (AutoAgents.expandAutoAgents s.graph).1 } ∧
      ((AutoAgents.expandAutoAgents s.graph).2 = .ok () →
        autoNodes (AutoAgents.expandAutoAgents s.graph).1 = []) := by
  rw [AutoAgents.expandAutoAgents]
  split_ifs with hflag
  · exact ⟨h, fun _ => h.flag hflag⟩
  · refine h.expandEach (Bool.eq_false_of_not_eq_true hflag) (fun _ => Iff.rfl) ?_
    have hkeys := List.pairwise_map.mp ((keys_autoNodes s.graph).nodup h.keys)
    exact hkeys.imp_of_mem fun {a b} ha hb hne hobj =>
      hne (h.own a.1 b.1 b.2 (hobj ▸ ha) hb)

end Invariant

section Steps

variable {s : Session} {ops : List Op}

theorem Inv.addNode {nodeId : String} {node : AnyNode} (h : Inv s)
    (hsafe : Safe s (.addNode nodeId node)) : Inv (s.next (.addNode nodeId node)) := by
  obtain ⟨hcoord, hobject⟩ := hsafe
  have hnodes : ∀ {entry}, entry ∈ (AutoAgents.addNode s.graph nodeId node).nodes ↔
      entry = (nodeId, node) ∨ entry.1 ≠ nodeId ∧ entry ∈ s.graph.nodes := mem_setItem h.keys
  have hauto : ∀ {id obj}, (id, obj) ∈ autoNodes (AutoAgents.addNode s.graph nodeId node) ↔
      id = nodeId ∧ autoObject s.graph.objects node = some obj ∨
        id ≠ nodeId ∧ (id, obj) ∈ autoNodes s.graph := by
    intro id obj
    rw [mem_autoNodes, hnodes, mem_autoNodes, autoObject_eq_some, Prod.mk.injEq,
      eq_comm (a := AnyNode.agentTool obj)]
    dsimp only [AutoAgents.addNode]
    tauto
  constructor
  case keys => exact nodup_setItem h.keys
  case started =>
    intro _
    dsimp only [Session.next, AutoAgents.addNode]
    split_ifs with hempty
    · exact Option.some_ne_none _
    · exact h.started fun hnil => hempty (by simp [hnil])
  case flag => exact fun htrue => absurd htrue Bool.false_ne_true
  case agent =>
    intro id hid
    rcases List.mem_append.mp hid with hid | hid
    · obtain ⟨hid, hne⟩ := List.mem_filter.mp hid
      obtain ⟨obj, hmem⟩ := h.agent id hid
      exact ⟨obj, hnodes.mpr (.inr ⟨of_decide_eq_true hne, hmem⟩)⟩
    · split_ifs at hid with hsome
      · obtain ⟨obj, hobj⟩ := Option.isSome_iff_exists.mp hsome
        obtain rfl := List.mem_singleton.mp hid
        exact ⟨obj, hnodes.mpr (.inl ((autoObject_eq_some.mp hobj).1 ▸ rfl))⟩
      · cases hid
  case marked =>
    intro id obj hmem
    rcases hauto.mp hmem with ⟨rfl, hobj⟩ | ⟨hne, hmem⟩
    · exact List.mem_append_right _ (by simp [hobj])
    · exact List.mem_append_left _ (List.mem_filter.mpr ⟨h.marked id obj hmem, by simpa using hne⟩)
  case own =>
    intro id id' obj hmem hmem'
    rcases hauto.mp hmem with ⟨rfl, hobj⟩ | ⟨-, hold⟩ <;>
      rcases hauto.mp hmem' with ⟨rfl, hobj'⟩ | ⟨-, hold'⟩
    · rfl
    · exact (hobject _ hold' hobj).symm
    · exact hobject _ hold hobj'
    · exact h.own id id' obj hold hold'
  case kept =>
    intro e he hred
    refine h.kept e he fun hred' => hred ⟨?_, hred'.2⟩
    obtain ⟨entry, hentry, hkey⟩ := List.mem_map.mp hred'.1
    by_cases hne : entry.1 = nodeId
    · exact List.mem_map.mpr ⟨_, hnodes.mpr (.inl rfl), hne.symm.trans hkey⟩
    · exact List.mem_map.mpr ⟨_, hnodes.mpr (.inr ⟨hne, hentry⟩), hkey⟩
  case leads => exact h.leads
  case wired =>
    intro id hexpanded
    obtain ⟨hid, hgone⟩ := mem_expanded.mp hexpanded
    have hne : id ≠ nodeId := by
      rintro rfl
      rcases List.mem_append.mp hid with hid | hid
      · exact of_decide_eq_true (List.mem_filter.mp hid).2 rfl
      · split_ifs at hid with hsome
        · obtain ⟨obj, hobj⟩ := Option.isSome_iff_exists.mp hsome
          exact hgone (List.mem_map.mpr ⟨_, hauto.mpr (.inl ⟨rfl, hobj⟩), rfl⟩)
        · cases hid
    have hold : id ∈ expanded s := by
      refine mem_expanded.mpr ⟨?_, fun hpending => ?_⟩
      · rcases List.mem_append.mp hid with hid | hid
        · exact (List.mem_filter.mp hid).1
        · split_ifs at hid
          · exact absurd (List.mem_singleton.mp hid) hne
          · cases hid
      · obtain ⟨⟨key, obj⟩, hmem, rfl⟩ := List.mem_map.mp hpending
        exact hgone (List.mem_map.mpr ⟨_, hauto.mpr (.inr ⟨hne, hmem⟩), rfl⟩)
    have hwired := h.wired id hold
    obtain ⟨obj, hmem, hagent⟩ := hwired.agent
    constructor
    case agent => exact ⟨obj, hnodes.mpr (.inr ⟨hne, hmem⟩), hagent⟩
    case coordinator => exact hnodes.mpr (.inr ⟨(hcoord id hold).symm, hwired.coordinator⟩)
    case inEdges => exact hwired.inEdges
    case edges => exact hwired.edges
    case start =>
      dsimp only [Session.next, AutoAgents.addNode]
      rw [if_neg fun hempty => List.ne_nil_of_mem hmem (List.isEmpty_iff.mp hempty)]
      exact hwired.start

theorem Inv.addEdge {edge : Edge} (h : Inv s) (hsafe : Safe s (.addEdge edge)) :
    Inv (s.next (.addEdge edge)) := by
  have hleads : ∀ {a b}, Leads s.graph.edges a b → Leads (s.graph.edges ++ [edge]) a b := by
    rintro a b ⟨e, he, hends⟩
    exact ⟨e, List.mem_append_left _ he, hends⟩
  constructor
  case keys => exact h.keys
  case started => exact h.started
  case flag => exact fun htrue => absurd htrue Bool.false_ne_true
  case agent => exact h.agent
  case marked => exact h.marked
  case own => exact h.own
  case kept =>
    intro e he hred
    rcases List.mem_append.mp he with he | he
    · exact List.mem_append_left _ (h.kept e he fun hred' =>
        hred ⟨hred'.1, List.mem_append_left _ hred'.2⟩)
    · exact List.mem_append_right _ he
  case leads =>
    intro e he
    rcases List.mem_append.mp he with he | he
    · exact Relation.TransGen.mono (fun _ _ => hleads) _ _ (h.leads e he)
    · exact .single ⟨e, List.mem_append_right _ he, rfl, rfl⟩
  case wired =>
    intro id hid
    have hne : edge.toId ≠ id := fun heq => hsafe (heq ▸ hid)
    have hwired := h.wired id hid
    constructor
    case agent => exact hwired.agent
    case coordinator => exact hwired.coordinator
    case inEdges =>
      dsimp only [Session.next, AutoAgents.addEdge]
      rw [List.filter_append, hwired.inEdges]
      simp [hne]
    case edges =>
      intro e he hto
      rcases List.mem_append.mp he with he | he
      · exact List.mem_append_left _ (hwired.edges e he hto)
      · exact absurd (List.mem_singleton.mp he ▸ hto) hne
    case start => exact hwired.start

theorem Inv.next {op : Op} (h : Inv s) (hsafe : Safe s op) : Inv (s.next op) := by
  cases op with
  | addNode nodeId node => exact h.addNode hsafe
  | addEdge edge => exact h.addEdge hsafe
  | compile => exact h.expandAutoAgents.1

theorem Inv.new (workflowId version : String) (objects : ℕ → AgentToolNode) :
    Inv (.new workflowId version objects) := by
  constructor
  case keys => exact List.nodup_nil
  case started => exact fun hne => absurd rfl hne
  case flag => exact fun _ => rfl
  case agent => exact fun _ hid => by cases hid
  case marked => exact fun _ _ hmem => by cases hmem
  case own => exact fun _ _ _ hmem => by cases hmem
  case kept => exact fun _ he => by cases he
  case leads => exact fun _ he => by cases he
  case wired => exact fun _ hid => by cases hid

theorem Inv.run (h : Inv s) (hsafe : SafeRun s ops) : Inv (AutoAgents.run s ops) := by
  induction ops generalizing s with
  | nil => exact h
  | cons op ops ih => exact ih (h.next hsafe.1) hsafe.2

end Steps

section Compile

variable {g : WorkflowGraph} {agents : List (String × ℕ)}

theorem old_of_expandEach {key : String} {branches : List Branch}
    (h : (key, .condition branches) ∈ (expandEach agents g).1.nodes) :
    (key, .condition branches) ∈ g.nodes := by
  induction agents generalizing g with
  | nil => exact h
  | cons agent agents ih =>
    rw [expandEach] at h
    split_ifs at h with hold
    · exact h
    · rcases mem_of_mem_setItem (ih h) with hnew | hmem
      · cases congrArg Prod.snd hnew
      · exact hmem

theorem kept_expandEach {e : Edge} (h : e ∈ g.edges) (hother : ∀ agent ∈ agents, e.toId ≠ agent.1) :
    e ∈ (expandEach agents g).1.edges := by
  induction agents generalizing g with
  | nil => exact h
  | cons agent agents ih =>
    rw [expandEach]
    split_ifs with hold
    · exact h
    · refine ih (List.mem_append_left _ (mem_redirect h (hother _ List.mem_cons_self))) fun a ha =>
        hother a (List.mem_cons_of_mem _ ha)

theorem old_of_expandAutoAgents {key : String} {branches : List Branch}
    (h : (key, .condition branches) ∈ (expandAutoAgents g).1.nodes) :
    (key, .condition branches) ∈ g.nodes := by
  rw [expandAutoAgents] at h
  split_ifs at h
  · exact h
  · exact old_of_expandEach h

theorem kept_expandAutoAgents {e : Edge} (h : e ∈ g.edges)
    (hother : ∀ agent ∈ autoNodes g, e.toId ≠ agent.1) : e ∈ (expandAutoAgents g).1.edges := by
  rw [expandAutoAgents]
  split_ifs
  · exact h
  · exact kept_expandEach h hother

end Compile

section Claims

variable {ops : List Op} {s : Session} {g : WorkflowGraph} {id : String} {ir : WorkflowIr}

theorem compile_ok (h : (compile g).2 = .ok ir) :
    (expandAutoAgents g).2 = .ok () ∧ ir = toIr (expandAutoAgents g).1 := by
  rw [compile] at h
  cases hexpand : (expandAutoAgents g).2 with
  | error message => rw [hexpand] at h; cases h
  | ok result => rw [hexpand] at h; exact ⟨rfl, (Except.ok.inj h).symm⟩

theorem old_branch {entry : String × IrNode} {branch : Branch}
    (h : entry ∈ (toIr (expandAutoAgents g).1).nodes) (hbranch : branch ∈ entry.2.kind.branches) :
    ∃ node, (entry.1, node) ∈ g.nodes ∧ branch ∈ (toIrKind g.objects node).branches := by
  obtain ⟨⟨key, node⟩, hmem, rfl⟩ := List.mem_map.mp h
  cases node with
  | condition branches => exact ⟨_, old_of_expandAutoAgents hmem, hbranch⟩
  | agentTool obj => cases hbranch
  | coordinator node => cases hbranch
  | other kind => cases hbranch

theorem Inv.throughCoordinator (h : Inv s) (hwired : Wired s.graph s.given id)
    (hbranches : ∀ entry ∈ (toIr s.graph).nodes, ∀ branch ∈ entry.2.kind.branches,
      branch.target ≠ id) :
    ThroughCoordinator s.given (toIr s.graph) id := by
  obtain ⟨obj, hmem, hagent⟩ := hwired.agent
  constructor
  case inEdges => exact hwired.inEdges
  case coordinator => exact List.mem_map.mpr ⟨_, hwired.coordinator, rfl⟩
  case agent => exact ⟨_, hagent, List.mem_map.mpr ⟨_, hmem, rfl⟩⟩
  case branches => exact hbranches
  case edges => exact hwired.edges
  case paths =>
    intro a hpath
    have hleads : Relation.TransGen (Leads s.graph.edges) a id := by
      refine Relation.TransGen.closed (fun x y hxy => ?_) a id hpath
      obtain ⟨e, he, rfl, rfl⟩ := hxy
      exact h.leads e he
    -- the last edge of the path is the only one there is to the agent
    obtain ⟨b, hpath, e, he, rfl, hto⟩ := Relation.TransGen.tail'_iff.mp hleads
    have hlast : e ∈ s.graph.edges.filter (·.toId = id) :=
      List.mem_filter.mpr ⟨he, decide_eq_true hto⟩
    rw [hwired.inEdges, List.mem_singleton] at hlast
    rw [hlast] at hpath
    exact hpath
  case start =>
    obtain ⟨start, hstart⟩ := Option.ne_none_iff_exists'.mp (h.started (List.ne_nil_of_mem hmem))
    rw [toIr, hstart]
    exact fun heq => hwired.start (heq ▸ hstart)

theorem coordinated_of_safe {workflowId version : String} {objects : ℕ → AgentToolNode}
    (h : SafeRun (.new workflowId version objects) ops)
    (hbranches : BranchesFree (run (.new workflowId version objects) ops))
    (hir : (compile (run (.new workflowId version objects) ops).graph).2 = .ok ir) :
    Coordinated (run (.new workflowId version objects) ops) ir := by
  have hbefore := (Inv.new workflowId version objects).run h
  obtain ⟨hok, rfl⟩ := compile_ok hir
  obtain ⟨hafter, hnone⟩ := hbefore.expandAutoAgents
  constructor
  case agents =>
    intro id hid
    refine hafter.throughCoordinator (hafter.wired id (mem_expanded.mpr ⟨hid, ?_⟩))
      fun entry hentry branch hbranch => ?_
    · rw [hnone hok]
      exact List.not_mem_nil
    obtain ⟨node, hmem, hold⟩ := old_branch hentry hbranch
    exact fun heq => (hbranches _ hmem branch hold).1 (heq ▸ hid)
  case matched =>
    rintro entry hentry branch hbranch ⟨e, he, hends⟩
    obtain ⟨node, hmem, hold⟩ := old_branch hentry hbranch
    obtain ⟨hauto, hred⟩ := hbranches _ hmem branch hold
    have hedge := hbefore.kept e he (hends.2 ▸ hred)
    refine ⟨e, kept_expandAutoAgents hedge fun agent hagent heq => hauto ?_, hends⟩
    rw [← hends.2, heq]
    exact hbefore.marked agent.1 agent.2 hagent

def autoAgents : ℕ → AgentToolNode := fun _ => { agent := "auto" }

/-- An agent is added before a first compile and one after it, beside a Condition. -/
def twice : List Op :=
  [.addNode "start" (.other .none), .addNode "classify" (.agentTool 0),
    .addEdge ⟨"start", "classify", none⟩, .compile,
    .addNode "gate" (.condition [⟨some "state.ok", "done"⟩]), .addNode "done" (.other .none),
    .addNode "review" (.agentTool 1), .addEdge ⟨"classify", "gate", none⟩,
    .addEdge ⟨"gate", "done", some "state.ok"⟩, .addEdge ⟨"gate", "review", none⟩]

theorem coordinated_twice :
    Coordinated (run (.new "w" "0.1.0" autoAgents) twice)
      (toIr (expandAutoAgents (run (.new "w" "0.1.0" autoAgents) twice).graph).1) :=
  coordinated_of_safe (by decide +kernel) (by decide +kernel) rfl

/-- A branch goes straight to the agent while its edge goes to the coordinator. -/
theorem branch_bypasses_coordinator : ¬ ∀ (workflowId version : String)
    (objects : ℕ → AgentToolNode) (ops : List Op) (ir : WorkflowIr),
    (compile (run (.new workflowId version objects) ops).graph).2 = .ok ir →
      Coordinated (run (.new workflowId version objects) ops) ir := by
  intro h
  have hrun := h "w" "0.1.0" autoAgents
    [.addNode "gate" (.condition [⟨some "state.ok", "classify"⟩]),
      .addNode "classify" (.agentTool 0), .addEdge ⟨"gate", "classify", none⟩] _ rfl
  exact (hrun.agents "classify" (by decide +kernel)).branches _ List.mem_cons_self _
    List.mem_cons_self rfl

end Claims

end JamJet.AutoAgents
