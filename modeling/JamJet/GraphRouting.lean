import JamJet.Fallible
import JamJet.GraphYaml

/-! Which of the targets a graph document names become edges. -/

namespace JamJet.GraphYaml

open Fallible

/-- The nodes of a document, as they are written. -/
def rawNodesOf (data : Members) : Members :=
  match getD data "nodes" (.dict []) with
  | .dict members => members
  | _ => []

section Named

/-- What one entry of a list under `next` names. -/
def entryTarget : Yaml → Option Yaml
  | .dict edge => some (getStr edge "to" "end")
  | .str s => some (.str s)
  | _ => none

/-- What `next` names. -/
def nextNamed : Yaml → List Yaml
  | .str s => [.str s]
  | .list entries => entries.filterMap entryTarget
  | _ => []

/-- The bare strings of a list under `next`. -/
def bareStrings : Yaml → List Yaml
  | .list entries => entries.filter fun entry =>
      match entry with
      | .str _ => true
      | _ => false
  | _ => []

/-- The targets of `conditions`. -/
def conditionTargets (data : Members) : List Yaml :=
  match ((getD data "conditions" (.list [])).orElse (.list [])).toList with
  | .ok conditions => conditions.filterMap fun cond =>
      match cond with
      | .dict cond => some (((get cond "next").orElse (get cond "to")).orElse (.str "end"))
      | _ => none
  | .error _ => []

/-- The targets a condition node names besides `next`. -/
def branchNamed (data : Members) : List Yaml :=
  if isCondition (nodeTypeOf data) then
    conditionTargets data ++
      match get data "default" with
      | .null => []
      | default => [default]
  else []

def named (data : Members) : List Yaml := nextNamed (get data "next") ++ branchNamed data

/-- Where the document has a node go, the end where it names nothing. -/
def targets (endIds : List String) (data : Members) : List Yaml :=
  if named data = [] then [.str "end"] else (named data).map (termOf endIds)

/-- What of an entry of a list has an edge: a mapping, and the bare `end`. -/
def wiredEntry : Yaml → Option Yaml
  | .dict edge => some (getStr edge "to" "end")
  | .str s => if s = "end" then some (.str "end") else none
  | _ => none

/-- What of `next` has an edge, which is the end where there is no `next`. -/
def wired : Yaml → List Yaml
  | .str s => [.str s]
  | .list entries => entries.filterMap wiredEntry
  | .null => [.str "end"]
  | _ => []

end Named

section Reading

/-- How the runtime reads an IR, as far as the check of branch targets looks: the edges, and the
branches of the condition nodes. -/
structure ReadAs (ir : GraphIr) (r : Ir.WorkflowIr) : Prop where
  edges : r.edges.map (fun e => (e.src, Yaml.str e.dst)) = ir.edges.map fun e => (e.src, e.dst)
  branches : ∀ id node branches, r.nodes.lookup id = some node → node.kind = .condition branches →
    ∃ n ∈ ir.nodes, n.id = id ∧ ∃ written,
      n.kind = .dict [("type", .str "condition"), ("branches", .list written)] ∧
        List.Forall₂ (fun branch entry => ∃ condition,
          entry = .dict [("condition", condition), ("target", .str branch.target)]) branches written

/-- The branches lead to nodes, or to the end. -/
def BranchesExist (r : Ir.WorkflowIr) : Prop :=
  ∀ id node branches, r.nodes.lookup id = some node → node.kind = .condition branches →
    ∀ branch ∈ branches, branch.target = "end" ∨ branch.target ∈ r.nodes

end Reading

/-- Every node goes where the document says and nowhere else, so that the runtime accepts the
branches. -/
structure KeepsRouting (rawNodes : Members) (ir : GraphIr) : Prop where
  routed : ∀ id data, (id, .dict data) ∈ rawNodes → ¬ (nodeTypeOf data).isStr "end" →
    ∀ target, (∃ e ∈ ir.edges, e.src = id ∧ e.dst = target) ↔
      target ∈ targets (endIdsOf rawNodes) data
  accepted : ∀ (walk : HashOrder NodeId) (r : Ir.WorkflowIr), ReadAs ir r → BranchesExist r →
    Ir.validateBranchTargets walk r = .ok ()

/-- Every node has an edge from its `next`, and one for each bare string of it and each branch. -/
def AllWired (rawNodes : Members) : Prop :=
  ∀ id data, (id, .dict data) ∈ rawNodes → ¬ (nodeTypeOf data).isStr "end" →
    wired (get data "next") ≠ [] ∧
      ∀ target ∈ bareStrings (get data "next") ++ branchNamed data,
        termOf (endIdsOf rawNodes) target ∈
          (wired (get data "next")).map (termOf (endIdsOf rawNodes))

section Edges

variable {endIds : List String} {nodeId : String}

theorem term_eq_ok {target t : Yaml} (h : term endIds target = .ok t) : t = termOf endIds target := by
  unfold term at h
  split at h
  · cases h
  · cases h
  · exact (Except.ok.inj h).symm

variable (endIds) in
theorem termOf_end : termOf endIds (.str "end") = .str "end" := by
  simp [termOf]

theorem listEdge_eq_ok {entry : Yaml} {edge : Option EdgeIr}
    (h : listEdge nodeId endIds entry = .ok edge) :
    (∀ e ∈ edge, e.src = nodeId) ∧ edge.map (·.dst) = (wiredEntry entry).map (termOf endIds) := by
  cases entry with
  | dict members =>
    obtain ⟨dst, hdst, h⟩ := bind_eq_ok.mp h
    cases h
    exact ⟨by simp, by simp [wiredEntry, term_eq_ok hdst]⟩
  | str s =>
    cases h
    by_cases hend : s = "end"
    · simp [Yaml.isStr, wiredEntry, hend, termOf_end]
    · simp [Yaml.isStr, wiredEntry, hend]
  | _ =>
    cases h
    simp [Yaml.isStr, wiredEntry]

theorem nextEdges_eq_ok {next : Yaml} {edges : List EdgeIr}
    (h : nextEdges nodeId endIds next = .ok edges) :
    (∀ e ∈ edges, e.src = nodeId) ∧ edges.map (·.dst) = (wired next).map (termOf endIds) := by
  unfold nextEdges at h
  split at h
  · obtain ⟨dst, hdst, h⟩ := bind_eq_ok.mp h
    cases h
    exact ⟨by simp, by simp [wired, term_eq_ok hdst]⟩
  · rename_i entries
    obtain ⟨opts, hopts, hedges⟩ := bind_eq_ok.mp h
    have hread := forall₂_of_mapM hopts
    clear h hopts
    cases hedges
    rw [wired]
    induction hread with
    | nil => simp
    | @cons entry edge entries edges hentry _ ih =>
      obtain ⟨hsrc, htarget⟩ := listEdge_eq_ok hentry
      obtain ⟨hsrcs, hdsts⟩ := ih
      cases hwired : wiredEntry entry with
      | none =>
        have hnone : edge = none := by simpa [hwired] using htarget
        subst hnone
        rw [List.filterMap_cons, List.filterMap_cons, hwired]
        exact ⟨hsrcs, hdsts⟩
      | some target =>
        obtain ⟨e, rfl, hdst⟩ : ∃ e, edge = some e ∧ e.dst = termOf endIds target := by
          simpa [hwired] using htarget
        have hsrc : e.src = nodeId := hsrc e rfl
        rw [List.filterMap_cons, List.filterMap_cons, hwired]
        refine ⟨List.forall_mem_cons.mpr ⟨hsrc, hsrcs⟩, ?_⟩
        exact congrArg₂ List.cons hdst hdsts
  · cases h
    exact ⟨by simp, by simp [wired, termOf_end]⟩
  · rename_i hstr hlist hnull
    cases h
    refine ⟨by simp, ?_⟩
    cases next <;> simp_all [wired]

end Edges

section Nodes

variable {py : Builtins} {endIds : List String}

theorem compileNode_eq_ok {nodeId : String} {data : Members} {node : NodeIr} {out : List EdgeIr}
    (h : compileNode py endIds nodeId data = .ok (node, out)) :
    node.id = nodeId ∧ yamlNodeToKind py nodeId (nodeTypeOf data) data endIds = .ok node.kind ∧
      (∀ e ∈ out, e.src = nodeId) ∧
      out.map (·.dst) = (wired (get data "next")).map (termOf endIds) := by
  unfold compileNode at h
  obtain ⟨kind, hkind, h⟩ := bind_eq_ok.mp h
  obtain ⟨policy, -, h⟩ := bind_eq_ok.mp h
  obtain ⟨timeout, -, h⟩ := bind_eq_ok.mp h
  obtain ⟨_, -, h⟩ := bind_eq_ok.mp h
  obtain ⟨actsFor, -, h⟩ := bind_eq_ok.mp h
  obtain ⟨edges, hedges, h⟩ := bind_eq_ok.mp h
  cases h
  exact ⟨rfl, hkind, nextEdges_eq_ok hedges⟩

/-- Every node of the IR and every edge comes from a node of the document; and all of these are
there. -/
theorem compileNodes_eq_ok {rawNodes : Members} {nodes : List NodeIr} {edges : List EdgeIr}
    (h : compileNodes py endIds rawNodes = .ok (nodes, edges)) :
    (∀ id data, (id, .dict data) ∈ rawNodes → ¬ (nodeTypeOf data).isStr "end" →
      ∃ node out, node ∈ nodes ∧ out ⊆ edges ∧ compileNode py endIds id data = .ok (node, out)) ∧
    (∀ node ∈ nodes, ∃ id data out, (id, .dict data) ∈ rawNodes ∧
      ¬ (nodeTypeOf data).isStr "end" ∧ compileNode py endIds id data = .ok (node, out)) ∧
    ∀ e ∈ edges, ∃ id data node out, (id, .dict data) ∈ rawNodes ∧
      ¬ (nodeTypeOf data).isStr "end" ∧ compileNode py endIds id data = .ok (node, out) ∧
      e ∈ out := by
  induction rawNodes generalizing nodes edges with
  | nil =>
    cases h
    simp
  | cons entry rest ih =>
    obtain ⟨nodeId, value⟩ := entry
    obtain ⟨data, hdata, hloop⟩ := bind_eq_ok.mp h
    clear h
    obtain rfl : value = .dict data := by
      cases value <;> cases hdata
      rfl
    split at hloop
    · rename_i hend
      obtain ⟨hall, hnodes, hedges⟩ := ih hloop
      refine ⟨fun id d hmem hnot => ?_, fun node hnode => ?_, fun e he => ?_⟩
      · rcases List.mem_cons.mp hmem with heq | hmem
        · cases heq
          exact absurd hend hnot
        · exact hall id d hmem hnot
      · obtain ⟨id, d, out, hmem, hrest⟩ := hnodes node hnode
        exact ⟨id, d, out, List.mem_cons_of_mem _ hmem, hrest⟩
      · obtain ⟨id, d, node, out, hmem, hrest⟩ := hedges e he
        exact ⟨id, d, node, out, List.mem_cons_of_mem _ hmem, hrest⟩
    · rename_i hend
      obtain ⟨⟨node, out⟩, hnode, hmore⟩ := bind_eq_ok.mp hloop
      obtain ⟨⟨others, more⟩, hothers, hpair⟩ := bind_eq_ok.mp hmore
      cases hpair
      obtain ⟨hall, hnodes, hedges⟩ := ih hothers
      refine ⟨fun id d hmem hnot => ?_, fun n hn => ?_, fun e he => ?_⟩
      · rcases List.mem_cons.mp hmem with heq | hmem
        · cases heq
          exact ⟨node, out, List.mem_cons_self, List.subset_append_left _ _, hnode⟩
        · obtain ⟨n, o, hn, ho, hcompiled⟩ := hall id d hmem hnot
          exact ⟨n, o, List.mem_cons_of_mem _ hn, List.subset_append_of_subset_right _ ho, hcompiled⟩
      · rcases List.mem_cons.mp hn with rfl | hn
        · exact ⟨nodeId, data, out, List.mem_cons_self, hend, hnode⟩
        · obtain ⟨id, d, o, hmem, hrest⟩ := hnodes n hn
          exact ⟨id, d, o, List.mem_cons_of_mem _ hmem, hrest⟩
      · rcases List.mem_append.mp he with he | he
        · exact ⟨nodeId, data, node, out, List.mem_cons_self, hend, hnode, he⟩
        · obtain ⟨id, d, n, o, hmem, hrest⟩ := hedges e he
          exact ⟨id, d, n, o, List.mem_cons_of_mem _ hmem, hrest⟩

theorem compileGraphYaml_eq_ok {data : Members} {ir : GraphIr}
    (h : compileGraphYaml py data = .ok ir) :
    compileNodes py (endIdsOf (rawNodesOf data)) (rawNodesOf data) = .ok (ir.nodes, ir.edges) := by
  unfold compileGraphYaml at h
  obtain ⟨rawNodes, hraw, h⟩ := bind_eq_ok.mp h
  obtain ⟨⟨nodes, edges⟩, hnodes, h⟩ := bind_eq_ok.mp h
  obtain ⟨policy, -, h⟩ := bind_eq_ok.mp h
  obtain ⟨wf, -, h⟩ := bind_eq_ok.mp h
  obtain ⟨agent, -, h⟩ := bind_eq_ok.mp h
  obtain ⟨stateSchema, -, h⟩ := bind_eq_ok.mp h
  obtain ⟨mcp, -, h⟩ := bind_eq_ok.mp h
  obtain ⟨a2a, -, h⟩ := bind_eq_ok.mp h
  have hrawNodes : rawNodesOf data = rawNodes := by
    unfold rawNodesOf
    cases hvalue : getD data "nodes" (.dict []) <;> simp_all [Yaml.members]
  rw [hrawNodes]
  cases h
  exact hnodes

end Nodes

section Targets

variable {endIds : List String} {data : Members}

theorem mem_bareStrings {entries : List Yaml} {target : Yaml} :
    target ∈ bareStrings (.list entries) ↔ target ∈ entries ∧ ∃ s, target = .str s := by
  rw [bareStrings, List.mem_filter]
  refine and_congr_right fun _ => ?_
  cases target <;> simp

theorem mem_nextNamed_list {entries : List Yaml} {target : Yaml} :
    target ∈ nextNamed (.list entries) ↔
      target ∈ wired (.list entries) ∨ target ∈ bareStrings (.list entries) := by
  rw [nextNamed, wired, List.mem_filterMap, List.mem_filterMap, mem_bareStrings]
  constructor
  · rintro ⟨entry, hentry, htarget⟩
    cases entry with
    | dict edge => exact .inl ⟨.dict edge, hentry, htarget⟩
    | str s =>
      cases htarget
      exact .inr ⟨hentry, s, rfl⟩
    | _ => cases htarget
  · rintro (⟨entry, hentry, htarget⟩ | ⟨hentry, s, rfl⟩)
    · cases entry with
      | dict edge => exact ⟨.dict edge, hentry, htarget⟩
      | str s =>
        obtain ⟨rfl, htarget⟩ : s = "end" ∧ Yaml.str "end" = target := by
          simpa [wiredEntry] using htarget
        exact ⟨.str "end", hentry, htarget ▸ rfl⟩
      | _ => cases htarget
    · exact ⟨.str s, hentry, rfl⟩

theorem wired_of_named {next : Yaml} {target : Yaml} (h : target ∈ nextNamed next) :
    target ∈ wired next ∨ target ∈ bareStrings next := by
  cases next with
  | str s => exact .inl h
  | list entries => exact mem_nextNamed_list.mp h
  | _ => cases h

theorem named_of_bare {next : Yaml} {target : Yaml} (h : target ∈ bareStrings next) :
    target ∈ nextNamed next := by
  cases next with
  | list entries => exact mem_nextNamed_list.mpr (.inr h)
  | _ => cases h

theorem named_of_wired {next : Yaml} {target : Yaml} (h : target ∈ wired next) :
    target ∈ nextNamed next ∨ (next = .null ∧ target = .str "end") := by
  cases next with
  | str s => exact .inl h
  | list entries => exact .inl (mem_nextNamed_list.mpr (.inl h))
  | null => exact .inr ⟨rfl, List.mem_singleton.mp h⟩
  | _ => cases h

/-- What is named and what is wired are the same when there is an edge, and one for each bare string
and each branch. -/
theorem targets_iff : (∀ target, target ∈ (wired (get data "next")).map (termOf endIds) ↔
      target ∈ targets endIds data) ↔
    wired (get data "next") ≠ [] ∧
      ∀ target ∈ bareStrings (get data "next") ++ branchNamed data,
        termOf endIds target ∈ (wired (get data "next")).map (termOf endIds) := by
  constructor
  · intro h
    refine ⟨fun hnil => ?_, fun target htarget => (h _).mpr ?_⟩
    · have hempty : targets endIds data = [] :=
        List.eq_nil_iff_forall_not_mem.mpr fun target htarget => by simpa [hnil] using (h target).mpr htarget
      unfold targets at hempty
      split at hempty <;> simp_all
    · have hnamed : target ∈ named data := by
        rcases List.mem_append.mp htarget with hbare | hbranch
        · exact List.mem_append_left _ (named_of_bare hbare)
        · exact List.mem_append_right _ hbranch
      rw [targets, if_neg (List.ne_nil_of_mem hnamed)]
      exact List.mem_map_of_mem hnamed
  · rintro ⟨hne, hall⟩ target
    constructor
    · intro htarget
      obtain ⟨w, hw, rfl⟩ := List.mem_map.mp htarget
      rcases named_of_wired hw with hnamed | ⟨hnull, rfl⟩
      · have hmem : w ∈ named data := List.mem_append_left _ hnamed
        rw [targets, if_neg (List.ne_nil_of_mem hmem)]
        exact List.mem_map_of_mem hmem
      · rw [termOf_end, targets]
        split
        · exact List.mem_singleton_self _
        · rename_i hnamed
          -- without `next` the branches are all that is named, and each leads to the end
          obtain ⟨b, hb⟩ := List.exists_mem_of_ne_nil _ hnamed
          have hbranch : b ∈ branchNamed data := by simpa [named, hnull, nextNamed] using hb
          have hend := hall b (List.mem_append_right _ hbranch)
          rw [hnull, wired, List.map_singleton, List.mem_singleton, termOf_end] at hend
          exact hend ▸ List.mem_map_of_mem hb
    · intro htarget
      unfold targets at htarget
      split at htarget
      · rename_i hnamed
        obtain ⟨w, hw⟩ := List.exists_mem_of_ne_nil _ hne
        rcases named_of_wired hw with hmem | ⟨hnull, rfl⟩
        · exact absurd (List.mem_append_left _ hmem) (hnamed ▸ List.not_mem_nil)
        · rw [List.mem_singleton.mp htarget, ← termOf_end endIds]
          exact List.mem_map_of_mem hw
      · obtain ⟨n, hn, rfl⟩ := List.mem_map.mp htarget
        rcases List.mem_append.mp hn with hnext | hbranch
        · rcases wired_of_named hnext with hwired | hbare
          · exact List.mem_map_of_mem hwired
          · exact hall n (List.mem_append_left _ hbare)
        · exact hall n (List.mem_append_right _ hbranch)

end Targets

section Branches

variable {py : Builtins} {endIds : List String} {data : Members}

theorem compileBranch_eq_ok {cond entry : Yaml} (h : compileBranch endIds cond = .ok entry) :
    ∃ members, cond = .dict members ∧ entry = .dict
      [("condition", (get members "if").orElse (get members "when")),
        ("target", termOf endIds
          (((get members "next").orElse (get members "to")).orElse (.str "end")))] := by
  unfold compileBranch at h
  obtain ⟨members, hmembers, htarget⟩ := bind_eq_ok.mp h
  obtain ⟨target, hterm, hentry⟩ := bind_eq_ok.mp htarget
  have hcond : cond = .dict members := by
    cases cond <;> cases hmembers
    rfl
  cases hentry
  exact ⟨members, hcond, by rw [term_eq_ok hterm]⟩

theorem target_of_branch {branches : List Yaml} (h : compileBranches endIds data = .ok branches)
    (hcondition : isCondition (nodeTypeOf data) = true) {condition target : Yaml}
    (hentry : .dict [("condition", condition), ("target", target)] ∈ branches) :
    ∃ t ∈ branchNamed data, target = termOf endIds t := by
  unfold compileBranches at h
  obtain ⟨conditions, hconditions, hmore⟩ := bind_eq_ok.mp h
  obtain ⟨compiled, hcompiled, hdefault⟩ := bind_eq_ok.mp hmore
  have hin : .dict [("condition", condition), ("target", target)] ∈ compiled →
      ∃ t ∈ branchNamed data, target = termOf endIds t := by
    intro hmem
    obtain ⟨cond, hcond, hbranch⟩ := exists_of_forall₂ (forall₂_of_mapM hcompiled) _ hmem
    obtain ⟨members, rfl, heq⟩ := compileBranch_eq_ok hbranch
    simp only [Yaml.dict.injEq, List.cons.injEq, Prod.mk.injEq, true_and, and_true] at heq
    refine ⟨_, ?_, heq.2⟩
    rw [branchNamed, if_pos hcondition, conditionTargets, hconditions]
    exact List.mem_append_left _ (List.mem_filterMap.mpr ⟨_, hcond, rfl⟩)
  have hend : ∀ default, get data "default" = default → default ≠ .null → default ∈ branchNamed data := by
    intro default hget hne
    rw [branchNamed, if_pos hcondition, hget]
    cases default <;> simp_all
  cases hget : get data "default" with
  | null =>
    simp only [hget] at hdefault
    cases hdefault
    exact hin hentry
  | _ =>
    simp only [hget] at hdefault
    obtain ⟨last, hlast, hpure⟩ := bind_eq_ok.mp hdefault
    cases hpure
    rcases List.mem_append.mp hentry with hmem | hmem
    · exact hin hmem
    · have heq := List.mem_singleton.mp hmem
      simp only [Yaml.dict.injEq, List.cons.injEq, Prod.mk.injEq, true_and, and_true] at heq
      exact ⟨_, hend _ hget (by simp), heq.2.trans (term_eq_ok hlast)⟩

theorem branches_of_kind {nodeId : String} {nodeType : Yaml} {written : List Yaml}
    (h : yamlNodeToKind py nodeId nodeType data endIds =
      .ok (.dict [("type", .str "condition"), ("branches", .list written)])) :
    isCondition nodeType = true ∧ compileBranches endIds data = .ok written := by
  unfold yamlNodeToKind at h
  split at h
  · rename_i hcondition
    obtain ⟨branches, hbranches, hkind⟩ := bind_eq_ok.mp h
    cases hkind
    exact ⟨hcondition, hbranches⟩
  split at h
  · simp at h
  · simp at h
  · simp at h
  · obtain ⟨timeout, -, hkind⟩ := bind_eq_ok.mp h
    simp [pure, Except.pure] at hkind
  · obtain ⟨timeout, -, hkind⟩ := bind_eq_ok.mp h
    simp [pure, Except.pure] at hkind
  · simp at h
  · obtain ⟨scorers, -, hmore⟩ := bind_eq_ok.mp h
    obtain ⟨scorers, -, hkind⟩ := bind_eq_ok.mp hmore
    simp [pure, Except.pure] at hkind
  · simp at h

end Branches

variable {py : Builtins} {data : Members} {ir : GraphIr}

theorem edge_iff (h : compileGraphYaml py data = .ok ir)
    (hkeys : ((rawNodesOf data).map Prod.fst).Nodup) {id : String} {node : Members}
    (hmem : (id, .dict node) ∈ rawNodesOf data) (hend : ¬ (nodeTypeOf node).isStr "end") (target : Yaml) :
    (∃ e ∈ ir.edges, e.src = id ∧ e.dst = target) ↔
      target ∈ (wired (get node "next")).map (termOf (endIdsOf (rawNodesOf data))) := by
  obtain ⟨hall, -, hedges⟩ := compileNodes_eq_ok (compileGraphYaml_eq_ok h)
  constructor
  · rintro ⟨e, he, rfl, rfl⟩
    obtain ⟨id, other, compiled, out, hother, -, hcompiled, hout⟩ := hedges e he
    obtain ⟨-, -, hsrc, hdst⟩ := compileNode_eq_ok hcompiled
    have hsame := List.inj_on_of_nodup_map hkeys hother hmem (hsrc e hout).symm
    obtain ⟨-, hnode⟩ := Prod.mk.inj hsame
    cases hnode
    rw [← hdst]
    exact List.mem_map_of_mem hout
  · intro htarget
    obtain ⟨compiled, out, -, hsub, hcompiled⟩ := hall id node hmem hend
    obtain ⟨-, -, hsrc, hdst⟩ := compileNode_eq_ok hcompiled
    rw [← hdst] at htarget
    obtain ⟨e, he, rfl⟩ := List.mem_map.mp htarget
    exact ⟨e, hsub he, hsrc e he, rfl⟩

theorem accepted_of_routed (h : compileGraphYaml py data = .ok ir)
    (hrouted : ∀ id node, (id, .dict node) ∈ rawNodesOf data → ¬ (nodeTypeOf node).isStr "end" →
      ∀ target ∈ targets (endIdsOf (rawNodesOf data)) node, ∃ e ∈ ir.edges, e.src = id ∧ e.dst = target)
    (walk : HashOrder NodeId) {r : Ir.WorkflowIr} (hread : ReadAs ir r) (hexist : BranchesExist r) :
    Ir.validateBranchTargets walk r = .ok () := by
  refine Ir.entries_forM_eq_ok.mpr fun id node hlookup => ?_
  cases hkind : node.kind with
  | condition branches =>
    simp only [hkind]
    refine Ir.forM_eq_ok.mpr fun branch hbranch => ?_
    obtain ⟨n, hn, rfl, written, hwritten, hpairs⟩ := hread.branches id node branches hlookup hkind
    obtain ⟨entry, hentry, condition, rfl⟩ := exists_of_forall₂ hpairs.flip branch hbranch
    obtain ⟨-, hnodes, -⟩ := compileNodes_eq_ok (compileGraphYaml_eq_ok h)
    obtain ⟨id, d, out, hmem, hend, hcompiled⟩ := hnodes n hn
    obtain ⟨hid, hyaml, -⟩ := compileNode_eq_ok hcompiled
    rw [hwritten] at hyaml
    obtain ⟨hcondition, hbranches⟩ := branches_of_kind hyaml
    obtain ⟨t, ht, htarget⟩ := target_of_branch hbranches hcondition hentry
    have hnamed : t ∈ named d := List.mem_append_right _ ht
    have htargets : .str branch.target ∈ targets (endIdsOf (rawNodesOf data)) d := by
      rw [targets, if_neg (List.ne_nil_of_mem hnamed), htarget]
      exact List.mem_map_of_mem hnamed
    obtain ⟨e, he, hsrc, hdst⟩ := hrouted id d hmem hend _ htargets
    have hedge : (n.id, Yaml.str branch.target) ∈ r.edges.map fun e => (e.src, Yaml.str e.dst) := by
      rw [hread.edges, hid, ← hsrc, ← hdst]
      exact List.mem_map_of_mem (f := fun e : EdgeIr => (e.src, e.dst)) he
    obtain ⟨edge, hedge, hpair⟩ := List.mem_map.mp hedge
    obtain ⟨hfrom, hto⟩ := Prod.mk.inj hpair
    have hsuccessor : branch.target ∈ r.successors n.id :=
      Ir.WorkflowIr.mem_successors.mpr ⟨edge, hedge, hfrom, Yaml.str.inj hto⟩
    have hfound := hexist n.id node branches hlookup hkind branch hbranch
    unfold Ir.validateBranch
    rw [if_neg (by tauto), if_neg (by tauto)]
  | _ => simp only [hkind]

/-- When the edges are those the document names. -/
theorem keepsRouting_iff (h : compileGraphYaml py data = .ok ir)
    (hkeys : ((rawNodesOf data).map Prod.fst).Nodup) :
    KeepsRouting (rawNodesOf data) ir ↔ AllWired (rawNodesOf data) := by
  have hrouted : (∀ id node, (id, .dict node) ∈ rawNodesOf data → ¬ (nodeTypeOf node).isStr "end" →
      ∀ target, (∃ e ∈ ir.edges, e.src = id ∧ e.dst = target) ↔
        target ∈ targets (endIdsOf (rawNodesOf data)) node) ↔ AllWired (rawNodesOf data) := by
    refine forall₄_congr fun id node hmem hend => ?_
    rw [← targets_iff]
    exact forall_congr' fun target => iff_congr (edge_iff h hkeys hmem hend target) Iff.rfl
  rw [← hrouted]
  exact ⟨fun hkeeps => hkeeps.routed, fun hall => ⟨hall, fun walk r hread hexist =>
    accepted_of_routed h (fun id node hmem hend target => (hall id node hmem hend target).mpr) walk
      hread hexist⟩⟩

section Documents

/-- Texts are not looked at where there are only strings. -/
def plainBuiltins : Builtins where
  str _ := ""
  repr _ := ""
  typeName _ := ""
  strip s := s
  int _ := none
  dumps _ := none

/-- A node that goes on to another one, which ends. -/
def twoSteps : Members :=
  [("nodes", .dict
    [("fetch", .dict [("type", .str "tool"), ("next", .str "done")]),
      ("done", .dict [("type", .str "end")])])]

/-- Both nodes are wired. -/
theorem keepsRouting_twoSteps : ∃ ir, compileGraphYaml plainBuiltins twoSteps = .ok ir ∧
    (KeepsRouting (rawNodesOf twoSteps) ir ↔ AllWired (rawNodesOf twoSteps)) :=
  ⟨_, rfl, keepsRouting_iff (show compileGraphYaml plainBuiltins twoSteps = _ from rfl) (by decide)⟩

/-- A condition node in the form the compiler knows, without edges written beside the branches. -/
def router : Members :=
  [("nodes", .dict
    [("route", .dict [("type", .str "condition"),
        ("conditions", .list [.dict [("if", .str "state.ok"), ("next", .str "ship")]]),
        ("default", .str "retry")]),
      ("ship", .dict [("type", .str "tool")]), ("retry", .dict [("type", .str "tool")])])]

/-- Its only edge goes to the end. -/
theorem router_misses_branch : ∃ ir, compileGraphYaml plainBuiltins router = .ok ir ∧
    ¬ KeepsRouting (rawNodesOf router) ir := by
  refine ⟨_, rfl, fun h => ?_⟩
  obtain ⟨e, he, hsrc, hdst⟩ := (h.routed "route" _ List.mem_cons_self (by decide) (.str "ship")).mpr
    List.mem_cons_self
  rcases List.mem_cons.mp he with rfl | he
  · simp at hdst
  · rcases List.mem_cons.mp he with rfl | he
    · simp at hsrc
    · rcases List.mem_cons.mp he with rfl | he
      · simp at hsrc
      · cases he

end Documents

end JamJet.GraphYaml
