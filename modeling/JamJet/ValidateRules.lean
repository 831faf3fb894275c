import JamJet.SemVer
import JamJet.Validate

/-! The documented rules of a workflow, and which of them validation leaves unchecked. -/

namespace JamJet.Ir

open Relation

variable {parseLiteral : String → Option Json} {walk : HashOrder NodeId} {ir : WorkflowIr}

/-- An edge leads from one id to the other. -/
def WorkflowIr.Leads (ir : WorkflowIr) (src dst : NodeId) : Prop := dst ∈ ir.successors src

/-- Where a run may stop: the end, or a node without out-edges. -/
def WorkflowIr.Stops (ir : WorkflowIr) (id : NodeId) : Prop := id = "end" ∨ ir.edgesFrom id = []

/-- The tool a node refers to. -/
def NodeKind.toolRef : NodeKind → Option String
  | .tool toolRef | .finalizer toolRef => some toolRef
  | _ => none

/-- The agents a node refers to: the one it calls and the one it acts for. -/
def NodeDef.agentRefs (node : NodeDef) : List String :=
  (match node.kind with
    | .agent agentRef => [agentRef]
    | _ => []) ++ node.agentRef.toList

/-- The rules in the order they are listed, given which agents are known. -/
structure Rules (agents : Finset String) (ir : WorkflowIr) : Prop where
  workflowId : ir.workflowId ≠ ""
  version : SemVer.valid ir.version.toList = true
  distinctIds : ∀ key key' node node', ir.nodes.lookup key = some node →
    ir.nodes.lookup key' = some node' → node.id = node'.id → key = key'
  startNode : ir.startNode ∈ ir.nodes
  edgeTargets : ∀ edge ∈ ir.edges, edge.dst ∈ ir.nodes ∨ edge.dst = "end"
  edgeSources : ∀ edge ∈ ir.edges, edge.src ∈ ir.nodes
  branchTargets : ∀ id node branches, ir.nodes.lookup id = some node →
    node.kind = .condition branches → ∀ branch ∈ branches,
      branch.target ∈ ir.nodes ∨ branch.target = "end"
  reachable : ∀ id ∈ ir.nodes, ReflTransGen ir.Leads ir.startNode id
  terminal : ∀ id ∈ ir.nodes, ∃ last, ReflTransGen ir.Leads id last ∧ ir.Stops last
  toolRefs : ∀ id node, ir.nodes.lookup id = some node → ∀ ref ∈ node.kind.toolRef, ref ∈ ir.tools
  modelRefs : ∀ id node ref systemPrompt tools, ir.nodes.lookup id = some node →
    node.kind = .model ref systemPrompt tools → ref ∈ ir.models
  agentRefs : ∀ id node, ir.nodes.lookup id = some node → ∀ ref ∈ node.agentRefs, ref ∈ agents
  agentRef : ∀ ref ∈ ir.agentRef, ref ∈ agents
  mcpServers : ∀ id node server, ir.nodes.lookup id = some node → node.kind = .mcpTool server →
    server ∈ ir.mcpServers
  remoteAgents : ∀ id node remoteAgent, ir.nodes.lookup id = some node →
    node.kind = .a2aTask remoteAgent → remoteAgent ∈ ir.remoteAgents
  dispatchMarked : ∀ id node moduleName function marker, ir.nodes.lookup id = some node →
    node.kind = .pythonFn moduleName function marker →
      isAdkDispatchCoordinates moduleName function = true → marker = true
  safeIds : ∀ id node, ir.nodes.lookup id = some node → safeId id = true ∧ safeId node.id = true

/-- The rules no pass looks at. -/
structure Unvalidated (agents : Finset String) (ir : WorkflowIr) : Prop where
  plainVersion : ∀ part ∈ ir.version.toList.splitOn '.', SemVer.plain part = true
  edgeSources : ∀ edge ∈ ir.edges, edge.src ∈ ir.nodes
  noTrap : ∀ trap ⊆ ir.nodes.keys, trap.Nonempty →
    ∃ id ∈ trap, ir.Stops id ∨ ∃ dst, ir.Leads id dst ∧ dst ∉ trap
  finalizerRefs : ∀ id node ref, ir.nodes.lookup id = some node → node.kind = .finalizer ref →
    ref ∈ ir.tools
  agentRefs : ∀ id node, ir.nodes.lookup id = some node → ∀ ref ∈ node.agentRefs, ref ∈ agents
  agentRef : ∀ ref ∈ ir.agentRef, ref ∈ agents

theorem forM_eq_ok {α : Type} {check : α → IrResult} {items : List α} :
    items.forM check = .ok () ↔ ∀ item ∈ items, check item = .ok () := by
  induction items with
  | nil => simp [List.forM, pure, Except.pure]
  | cons item rest ih =>
    rw [List.forall_mem_cons, ← ih]
    cases hcheck : check item with
    | error err => simp [List.forM, hcheck, bind, Except.bind]
    | ok => simp [List.forM, hcheck, bind, Except.bind]

theorem entries_forM_eq_ok {check : NodeId × NodeDef → IrResult} :
    (ir.entries walk).forM check = .ok () ↔
      ∀ id node, ir.nodes.lookup id = some node → check (id, node) = .ok () := by
  rw [forM_eq_ok]
  constructor
  · exact fun h id node hlookup => h (id, node) (WorkflowIr.mem_entries.mpr hlookup)
  · rintro h ⟨id, node⟩ hmem
    exact h id node (WorkflowIr.mem_entries.mp hmem)

theorem refuse_eq_ok {c : Prop} [Decidable c] {err : IrError} :
    (if c then .error err else .ok () : IrResult) = .ok () ↔ ¬ c := by
  split <;> simp_all

theorem known_eq_ok {ref : String} {names : Finset String} {err : IrError} :
    known ref names err = .ok () ↔ ref ∈ names := by
  simp [known]

theorem signedDigits_of_parseU32 {s : List Char} (h : (Condition.parseU32 s).isNone = false) :
    SemVer.SignedDigits s := by
  unfold Condition.parseU32 at h
  split at h
  · rename_i rest
    simp only [Bool.and_eq_true, Bool.not_eq_true', List.isEmpty_eq_false_iff, List.all_eq_true,
      decide_eq_true_eq] at h
    right
    refine ⟨rest, rfl, ?_⟩
    by_contra hno
    rw [if_neg fun hd => hno ⟨hd.1.1, hd.1.2⟩] at h
    cases h
  · simp only [Bool.and_eq_true, Bool.not_eq_true', List.isEmpty_eq_false_iff, List.all_eq_true,
      decide_eq_true_eq] at h
    left
    by_contra hno
    rw [if_neg fun hd => hno ⟨hd.1.1, hd.1.2⟩] at h
    cases h

theorem validateMetadata_ok (h : validateMetadata ir = .ok ()) : ir.workflowId ≠ "" ∧
    (SemVer.valid ir.version.toList = true ↔
      ∀ part ∈ ir.version.toList.splitOn '.', SemVer.plain part = true) := by
  unfold validateMetadata at h
  split at h
  · cases h
  · rename_i hempty
    rw [refuse_eq_ok, not_or, not_ne_iff] at h
    obtain ⟨hlength, hparse⟩ := h
    obtain ⟨a, b, c, hparts, hversion⟩ := SemVer.exists_parts hlength
    have hnumbers : ∀ part ∈ [a, b, c], SemVer.SignedDigits part := by
      intro part hpart
      refine signedDigits_of_parseU32 ?_
      rw [← hparts] at hpart
      by_contra hnone
      exact hparse (List.any_eq_true.mpr ⟨part, hpart, by simpa using hnone⟩)
    refine ⟨fun heq => hempty (by simp [heq]), ?_⟩
    rw [hparts]
    conv_lhs => rw [hversion]
    rw [SemVer.valid_iff_plain (hnumbers a (by simp)) (hnumbers b (by simp)) (hnumbers c (by simp))]
    simp [and_assoc]

theorem validateStartNode_iff : validateStartNode ir = .ok () ↔
    ir.startNode ≠ "" ∧ ir.startNode ∈ ir.nodes := by
  unfold validateStartNode
  by_cases hnamed : ir.startNode = ""
  · simp [hnamed]
  · rw [if_neg (by simpa using hnamed), refuse_eq_ok, not_not]
    exact (and_iff_right hnamed).symm

theorem validateEdges_iff : validateEdges ir = .ok () ↔
    ∀ edge ∈ ir.edges, edge.dst ∈ ir.nodes ∨ edge.dst = "end" := by
  unfold validateEdges
  rw [forM_eq_ok]
  refine forall₂_congr fun edge _ => ?_
  rw [refuse_eq_ok]
  tauto

theorem validateBranchTargets_ok (h : validateBranchTargets walk ir = .ok ()) {id : NodeId}
    {node : NodeDef} {branches : List ConditionalBranch} (hlookup : ir.nodes.lookup id = some node)
    (hkind : node.kind = .condition branches) {branch : ConditionalBranch}
    (hbranch : branch ∈ branches) :
    (branch.target ∈ ir.nodes ∨ branch.target = "end") ∧ branch.target ∈ ir.successors id := by
  have hnode := entries_forM_eq_ok.mp h id node hlookup
  simp only [hkind] at hnode
  have hone := forM_eq_ok.mp hnode branch hbranch
  unfold validateBranch at hone
  split at hone
  · cases hone
  · have hedge := refuse_eq_ok.mp hone
    tauto

theorem visited_space : (insert ir.startNode (ir.edges.map (·.dst)).toFinset).card ≤
    ir.edges.length + 1 := by
  have hcard := (Finset.card_insert_le ir.startNode (ir.edges.map (·.dst)).toFinset)
  have htargets := List.toFinset_card_le (ir.edges.map (·.dst))
  rw [List.length_map] at htargets
  omega

theorem mem_visited_iff {id : NodeId} : id ∈ visited ir ↔
    ReflTransGen (GraphSearch.Edge fun id => (ir.successors id).filter (· ≠ "end")) ir.startNode id := by
  refine GraphSearch.mem_search_iff (insert ir.startNode (ir.edges.map (·.dst)).toFinset)
    (fun a _ b hb => ?_) (Finset.mem_insert_self _ _) visited_space
  obtain ⟨edge, hedge, -, hdst⟩ := WorkflowIr.mem_successors.mp (List.mem_filter.mp hb).1
  refine Finset.mem_insert_of_mem (List.mem_toFinset.mpr (List.mem_map.mpr ⟨edge, hedge, hdst⟩))

theorem validateReachability_ok (h : validateReachability walk ir = .ok ()) :
    ∀ id ∈ ir.nodes, ReflTransGen ir.Leads ir.startNode id := by
  intro id hid
  obtain ⟨node, hlookup⟩ := WorkflowIr.mem_keys.mp (Finmap.mem_keys.mpr hid)
  have hvisited := not_not.mp (refuse_eq_ok.mp (entries_forM_eq_ok.mp h id node hlookup))
  exact ReflTransGen.mono (fun a b hb => (List.mem_filter.mp hb).1) _ _ (mem_visited_iff.mp hvisited)

theorem validateReachability_of_reaches (hsrc : ∀ edge ∈ ir.edges, edge.src ≠ "end")
    (hend : "end" ∉ ir.nodes) (hreach : ∀ id ∈ ir.nodes, ReflTransGen ir.Leads ir.startNode id) :
    validateReachability walk ir = .ok () := by
  have hvisited : ∀ id, ReflTransGen ir.Leads ir.startNode id → id ≠ "end" → id ∈ visited ir := by
    intro id hpath
    rw [mem_visited_iff]
    induction hpath with
    | refl => exact fun _ => .refl
    | tail _ hleads ih =>
      intro hne
      obtain ⟨edge, hedge, hfrom, -⟩ := WorkflowIr.mem_successors.mp hleads
      refine (ih (hfrom ▸ hsrc edge hedge)).tail (List.mem_filter.mpr ⟨hleads, ?_⟩)
      simpa using hne
  refine entries_forM_eq_ok.mpr fun id node hlookup => refuse_eq_ok.mpr fun hout => hout ?_
  have hid : id ∈ ir.nodes := Finmap.mem_of_lookup_eq_some hlookup
  exact hvisited id (hreach id hid) fun heq => hend (heq ▸ hid)

/-- References of the kinds that are validated. -/
def RefResolves (ir : WorkflowIr) : NodeKind → Prop
  | .tool ref => ref ∈ ir.tools
  | .model ref _ _ => ref ∈ ir.models
  | .mcpTool server => server ∈ ir.mcpServers
  | .a2aTask remoteAgent => remoteAgent ∈ ir.remoteAgents
  | _ => True

theorem validateRefs_iff : validateRefs walk ir = .ok () ↔
    ∀ id node, ir.nodes.lookup id = some node → RefResolves ir node.kind := by
  unfold validateRefs
  rw [entries_forM_eq_ok]
  refine forall_congr' fun id => forall_congr' fun node => imp_congr_right fun _ => ?_
  dsimp only
  cases node.kind
  case tool ref => exact known_eq_ok
  case model ref systemPrompt tools => exact known_eq_ok.trans Finmap.mem_keys
  case mcpTool server => exact known_eq_ok
  case a2aTask remoteAgent => exact known_eq_ok
  all_goals exact iff_of_true rfl trivial

theorem validateAgentToolDispatch_ok (h : validateAgentToolDispatch walk ir = .ok ()) {id : NodeId}
    {node : NodeDef} {moduleName function : String} {marker : Bool}
    (hlookup : ir.nodes.lookup id = some node) (hkind : node.kind = .pythonFn moduleName function marker) :
    isAdkDispatchCoordinates moduleName function = marker := by
  have hnode := entries_forM_eq_ok.mp h id node hlookup
  simp only [hkind] at hnode
  split at hnode
  · cases hnode
  · rename_i hmarked
    have hplaced := refuse_eq_ok.mp hnode
    cases hdispatch : isAdkDispatchCoordinates moduleName function <;> cases marker <;> simp_all

theorem validateNodeIds_ok (h : validateNodeIds walk ir = .ok ()) {id : NodeId} {node : NodeDef}
    (hlookup : ir.nodes.lookup id = some node) :
    safeId id = true ∧ safeId node.id = true ∧ id = node.id := by
  have hnode := entries_forM_eq_ok.mp h id node hlookup
  dsimp only at hnode
  split at hnode
  · cases hnode
  · rename_i hkey
    split at hnode
    · cases hnode
    · rename_i hid
      have hsame := refuse_eq_ok.mp hnode
      simp_all

/-- What each pass of an accepted workflow has gone through. -/
structure Accepted (parseLiteral : String → Option Json) (walk : HashOrder NodeId)
    (ir : WorkflowIr) : Prop where
  metadata : validateMetadata ir = .ok ()
  startNode : validateStartNode ir = .ok ()
  edges : validateEdges ir = .ok ()
  branchTargets : validateBranchTargets walk ir = .ok ()
  reachability : validateReachability walk ir = .ok ()
  refs : validateRefs walk ir = .ok ()
  agentToolDispatch : validateAgentToolDispatch walk ir = .ok ()
  nodeIds : validateNodeIds walk ir = .ok ()

theorem bind_eq_ok {first second : IrResult} :
    (first >>= fun _ => second) = .ok () ↔ first = .ok () ∧ second = .ok () := by
  cases first <;> simp [bind, Except.bind]

theorem accepted_of_validateWorkflow (h : validateWorkflow parseLiteral walk ir = .ok ()) :
    Accepted parseLiteral walk ir := by
  simp only [validateWorkflow, bind_eq_ok] at h
  obtain ⟨hmetadata, -, hstart, hedges, hbranches, hreach, hrefs, hdispatch, -, -, hids, -⟩ := h
  exact ⟨hmetadata, hstart, hedges, hbranches, hreach, hrefs, hdispatch, hids⟩

theorem Accepted.leads (h : Accepted parseLiteral walk ir) {src dst : NodeId}
    (hleads : ir.Leads src dst) : dst ∈ ir.nodes ∨ dst = "end" := by
  obtain ⟨edge, hedge, -, rfl⟩ := WorkflowIr.mem_successors.mp hleads
  exact validateEdges_iff.mp h.edges edge hedge

/-- Of an accepted workflow all the rules hold if and only if those hold that no pass looks at. -/
theorem validated_rules_iff (parseLiteral : String → Option Json) (walk : HashOrder NodeId)
    (agents : Finset String) (ir : WorkflowIr) (h : validateWorkflow parseLiteral walk ir = .ok ()) :
    Rules agents ir ↔ Unvalidated agents ir := by
  have haccepted := accepted_of_validateWorkflow h
  obtain ⟨hworkflowId, hversion⟩ := validateMetadata_ok haccepted.metadata
  have hrefs : ∀ {id node k}, ir.nodes.lookup id = some node → node.kind = k → RefResolves ir k :=
    fun {id node _} hlookup hkind => hkind ▸ validateRefs_iff.mp haccepted.refs id node hlookup
  have htrap := GraphSearch.all_reach_iff_no_trap ir.Leads ir.Stops ir.nodes.keys
    fun src _ dst hleads =>
      (haccepted.leads hleads).imp Finmap.mem_keys.mpr .inl
  constructor
  · intro hrules
    refine ⟨hversion.mp hrules.version, hrules.edgeSources, htrap.mp fun id hid => ?_,
      fun id node ref hlookup hkind => ?_, hrules.agentRefs, hrules.agentRef⟩
    · exact hrules.terminal id (Finmap.mem_keys.mp hid)
    · exact hrules.toolRefs id node hlookup ref (by simp [hkind, NodeKind.toolRef])
  · intro hrest
    refine ⟨hworkflowId, hversion.mpr hrest.plainVersion, ?_,
      (validateStartNode_iff.mp haccepted.startNode).2, validateEdges_iff.mp haccepted.edges,
      hrest.edgeSources, ?_, validateReachability_ok haccepted.reachability, fun id hid => ?_, ?_,
      ?_, hrest.agentRefs, hrest.agentRef, ?_, ?_, ?_, ?_⟩
    · intro key key' node node' hlookup hlookup' hid
      have hkey := (validateNodeIds_ok haccepted.nodeIds hlookup).2.2
      have hkey' := (validateNodeIds_ok haccepted.nodeIds hlookup').2.2
      rw [hkey, hid, ← hkey']
    · intro id node branches hlookup hkind branch hbranch
      exact (validateBranchTargets_ok haccepted.branchTargets hlookup hkind hbranch).1
    · exact htrap.mpr hrest.noTrap id (Finmap.mem_keys.mpr hid)
    · intro id node hlookup ref href
      cases hkind : node.kind <;> simp only [hkind, NodeKind.toolRef, Option.mem_def,
        Option.some.injEq, reduceCtorEq] at href
      · exact href ▸ hrefs hlookup hkind
      · exact hrest.finalizerRefs id node ref hlookup (href ▸ hkind)
    · intro id node ref systemPrompt tools hlookup hkind
      exact hrefs hlookup hkind
    · intro id node server hlookup hkind
      exact hrefs hlookup hkind
    · intro id node remoteAgent hlookup hkind
      exact hrefs hlookup hkind
    · intro id node moduleName function marker hlookup hkind hdispatch
      rw [← validateAgentToolDispatch_ok haccepted.agentToolDispatch hlookup hkind, hdispatch]
    · intro id node hlookup
      obtain ⟨hkey, hid, -⟩ := validateNodeIds_ok haccepted.nodeIds hlookup
      exact ⟨hkey, hid⟩

/-- A workflow of one node, with an edge to the given target. -/
def oneNode (dst : NodeId) : WorkflowIr where
  workflowId := "test"
  version := "0.1.0"
  startNode := "a"
  nodes := Finmap.singleton "a" { id := "a", kind := .condition [] }
  edges := [{ src := "a", dst := dst }]

theorem oneNode_lookup {dst id : NodeId} {node : NodeDef}
    (h : (oneNode dst).nodes.lookup id = some node) :
    id = "a" ∧ node = { id := "a", kind := .condition [] } := by
  have hid : id = "a" := by
    have hmem := Finmap.mem_of_lookup_eq_some h
    simpa [oneNode] using hmem
  subst hid
  rw [oneNode, Finmap.lookup_singleton_eq] at h
  exact ⟨rfl, (Option.some.inj h).symm⟩

theorem validated_rules_one_node : Rules ∅ (oneNode "end") := by
  refine (validated_rules_iff (fun _ => none) .sorted ∅ (oneNode "end") (by decide)).mpr
    ⟨by decide, by decide, ?_, ?_, ?_, by decide⟩
  · rintro trap hsub ⟨id, hid⟩
    have hleads : (oneNode "end").Leads "a" "end" := List.mem_singleton.mpr rfl
    obtain rfl : id = "a" := by simpa [oneNode] using hsub hid
    exact ⟨"a", hid, .inr ⟨"end", hleads, fun hmem => by simpa [oneNode] using hsub hmem⟩⟩
  · intro id node ref hlookup hkind
    obtain ⟨-, rfl⟩ := oneNode_lookup hlookup
    cases hkind
  · intro id node hlookup ref href
    obtain ⟨-, rfl⟩ := oneNode_lookup hlookup
    cases href

/-- A node that leads only to itself is accepted. -/
theorem loop_accepted : validateWorkflow (fun _ => none) .sorted (oneNode "a") = .ok () ∧
    ¬ Rules ∅ (oneNode "a") := by
  refine ⟨by decide, fun h => ?_⟩
  obtain ⟨last, hpath, hstops⟩ := h.terminal "a" (by decide)
  have hlast : last = "a" := by
    clear hstops
    induction hpath with
    | refl => rfl
    | tail _ hleads ih =>
      subst ih
      exact List.mem_singleton.mp hleads
  subst hlast
  rcases hstops with hend | hnone
  · exact absurd hend (by decide)
  · cases hnone

end JamJet.Ir
