import JamJet.RankedGraph
import JamJet.StrategyLoops

/-! When the graphs the strategy compilers write are well formed. -/

namespace JamJet.Strategies

open Relation RankedGraph

/-- A graph the runtime accepts and runs from its start node alone. -/
structure WellFormed (ir : Ir.WorkflowIr) : Prop where
  startNode : ir.startNode ∈ ir.nodes
  edgeSources : ∀ edge ∈ ir.edges, edge.src ∈ ir.nodes
  edgeTargets : ∀ edge ∈ ir.edges, edge.dst ∈ ir.nodes ∨ edge.dst = "end"
  acyclic : ∀ id, ¬ TransGen ir.Leads id id
  reachable : ∀ id ∈ ir.nodes, ReflTransGen ir.Leads ir.startNode id
  branchTargets : ∀ id node branches, ir.nodes.lookup id = some node →
    node.kind = .condition branches → ∀ branch ∈ branches, ir.Leads id branch.target
  endReachable : ∀ id ∈ ir.nodes, ReflTransGen ir.Leads id "end"
  accepted : ∀ walk, Ir.validateReachability walk ir = .ok ()
  oneRoot : ∀ id ∈ ir.nodes, (∀ src, ¬ ir.Leads src id) → id = ir.startNode

/-- The branches of a condition lead where its edges do. -/
def BranchesLead (c : Compiled) (entry : StrategyId × StrategyNode) : Prop :=
  ∀ branches, entry.2.kind = .condition branches → ∀ branch ∈ branches,
    ∃ b, c.Leads entry.1 b ∧ branch.target = b.text

theorem branchesLead_modelNode {c : Compiled} {id : StrategyId} {model : String}
    {systemPrompt : Option String} {labels : List (String × String)} :
    BranchesLead c (id, modelNode model systemPrompt labels) := by
  intro branches hkind
  cases hkind

theorem branchesLead_conditionNode {c : Compiled} {id : StrategyId}
    {branches : List (Option String × StrategyId)} {labels : List (String × String)}
    (h : ∀ branch ∈ branches, c.Leads id branch.2) :
    BranchesLead c (id, conditionNode branches labels) := by
  intro written hkind branch hbranch
  cases hkind
  obtain ⟨entry, hentry, rfl⟩ := List.mem_map.mp hbranch
  exact ⟨entry.2, h entry hentry, rfl⟩

theorem branchesLead_costGuardNode {c : Compiled} {i : ℕ} {id okTarget : StrategyId}
    (hlimit : c.Leads id .limitExceeded) (hok : c.Leads id okTarget) :
    BranchesLead c (id, costGuardNode i okTarget) :=
  branchesLead_conditionNode (by simp [costGuardBranches, hlimit, hok])

theorem branchesLead_lastNodes {c : Compiled} {model : String} :
    ∀ entry ∈ lastNodes model, BranchesLead c entry := by
  simp only [lastNodes, List.mem_cons, List.not_mem_nil, or_false]
  rintro entry (rfl | rfl)
  · exact branchesLead_modelNode
  · intro branches hkind
    cases hkind

/-- What makes a compiled graph well formed, node by node and edge by edge. -/
structure Wired (c : Compiled) (rank : StrategyId → ℕ) : Prop where
  nodup : c.names.Nodup
  startNode : c.startNode ∈ c.names
  stop : .stop ∉ c.names
  ranked : Ranked c.Leads rank
  sources : ∀ a b, c.Leads a b → a ∈ c.names
  targets : ∀ a b, c.Leads a b → b ∈ c.names ∨ b = .stop
  entered : ∀ b ∈ c.names, b ≠ c.startNode → ∃ a, c.Leads a b
  left : ∀ a ∈ c.names, ∃ b, c.Leads a b
  below : ∀ a ∈ c.names, rank a ≤ rank .stop
  branches : ∀ entry ∈ c.nodes, BranchesLead c entry

theorem Wired.wellFormed {c : Compiled} {rank : StrategyId → ℕ} (h : Wired c rank)
    (workflowId version : String) : WellFormed (c.ir workflowId version) := by
  have hreach : ∀ id ∈ c.names, ReflTransGen c.Leads c.startNode id := by
    intro id hid
    refine h.ranked.reaches_from_root {a | a ∈ c.names} (fun b hb hne => ?_) hid
    obtain ⟨a, hleads⟩ := h.entered b hb hne
    exact ⟨a, h.sources a b hleads, hleads⟩
  have hend : ∀ id ∈ c.names, ReflTransGen c.Leads id .stop := by
    intro id hid
    refine h.ranked.reaches_sink {a | a ∈ c.names} h.below (fun a ha => ?_) hid
    obtain ⟨b, hleads⟩ := h.left a ha
    exact ⟨b, hleads, h.targets a b hleads⟩
  have hreachable : ∀ id ∈ (c.ir workflowId version).nodes,
      ReflTransGen (c.ir workflowId version).Leads c.startNode.text id := by
    intro id hid
    obtain ⟨a, ha, rfl⟩ := Compiled.mem_ir.mp hid
    exact Compiled.reaches_text (hreach a ha)
  refine ⟨Compiled.mem_ir.mpr ⟨_, h.startNode, rfl⟩, ?_, ?_, ?_, hreachable, ?_, ?_, ?_, ?_⟩
  · intro edge hedge
    obtain ⟨e, he, rfl⟩ := List.mem_map.mp hedge
    exact Compiled.mem_ir.mpr ⟨_, h.sources e.src e.dst ⟨e, he, rfl, rfl⟩, rfl⟩
  · intro edge hedge
    obtain ⟨e, he, rfl⟩ := List.mem_map.mp hedge
    rcases h.targets e.src e.dst ⟨e, he, rfl, rfl⟩ with hdst | hdst
    · exact .inl (Compiled.mem_ir.mpr ⟨_, hdst, rfl⟩)
    · exact .inr (congrArg StrategyId.text hdst)
  · intro id hcycle
    obtain ⟨a, b, ha, hb, hab⟩ := Compiled.transGen_ir hcycle
    obtain rfl := StrategyId.text_injective (ha.symm.trans hb)
    exact h.ranked.acyclic a hab
  · intro id node branches hlookup hkind branch hbranch
    obtain ⟨a, compiled, hmem, rfl, rfl⟩ := (Compiled.lookup_ir h.nodup).mp hlookup
    obtain ⟨b, hleads, htarget⟩ := h.branches (a, compiled) hmem branches hkind branch hbranch
    rw [htarget]
    exact Compiled.leads_text.mpr hleads
  · intro id hid
    obtain ⟨a, ha, rfl⟩ := Compiled.mem_ir.mp hid
    exact Compiled.reaches_text (hend a ha)
  · intro walk
    have hstop : "end" ∉ (c.ir workflowId version).nodes := by
      intro hmem
      obtain ⟨a, ha, heq⟩ := Compiled.mem_ir.mp hmem
      have hstop : StrategyId.stop = a := StrategyId.text_injective heq
      exact h.stop (hstop ▸ ha)
    refine Ir.validateReachability_of_reaches (fun edge hedge heq => hstop ?_) hstop hreachable
    obtain ⟨e, he, rfl⟩ := List.mem_map.mp hedge
    exact Compiled.mem_ir.mpr ⟨_, h.sources e.src e.dst ⟨e, he, rfl, rfl⟩, heq.symm⟩
  · intro id hid hroot
    obtain ⟨a, ha, rfl⟩ := Compiled.mem_ir.mp hid
    by_contra hne
    obtain ⟨b, hleads⟩ := h.entered a ha fun heq => hne (congrArg StrategyId.text heq)
    exact hroot b.text (Compiled.leads_text.mpr hleads)

section PlanAndExecute

variable {config : StrategyConfig} {model : String} {limits : StrategyLimits}

theorem leads_nextGuard (config : StrategyConfig) (model : String) (limits : StrategyLimits) {i : ℕ}
    (hi : (i : ℤ) < limits.maxIterations) : ∃ a,
      (compilePlanAndExecute config model limits).Leads a (nextGuard limits.maxIterations i) := by
  by_cases hverifier : config.verifier.isSome = true
  · exact ⟨.verify i, leads_planAndExecute.mpr
      (.inr (.inl ⟨i, hi, .inr (.inr ⟨hverifier, rfl, rfl⟩)⟩))⟩
  · refine ⟨.step i, leads_planAndExecute.mpr (.inr (.inl ⟨i, hi, .inr (.inl ⟨rfl, ?_⟩)⟩))⟩
    rw [if_neg hverifier]

theorem wired_planAndExecute (h : 1 ≤ limits.maxIterations) :
    Wired (compilePlanAndExecute config model limits) (rank limits.maxIterations.toNat) := by
  have hnext : ∀ i : ℕ, (i : ℤ) < limits.maxIterations → nextGuard limits.maxIterations i ∈
      (compilePlanAndExecute config model limits).names := by
    intro i hi
    rw [mem_names_planAndExecute, nextGuard]
    split
    · exact .inr (.inl ⟨i + 1, by omega, .inl rfl⟩)
    · exact .inr (.inr (.inl rfl))
  have hguard : ∀ (i : ℕ) b, (i : ℤ) < limits.maxIterations → b = .limitExceeded ∨ b = .step i →
      (compilePlanAndExecute config model limits).Leads (.costGuard i) b := fun i b hi hb =>
    leads_planAndExecute.mpr (.inr (.inl ⟨i, hi, .inl ⟨rfl, hb⟩⟩))
  refine ⟨nodup_planAndExecute, mem_names_planAndExecute.mpr (.inl rfl),
    by simp [mem_names_planAndExecute], ranked_planAndExecute, fun a b hleads => ?_,
    fun a b hleads => ?_, fun b hb hne => ?_, fun a ha => ?_, fun a ha => ?_, ?_⟩
  · rw [mem_names_planAndExecute]
    rcases leads_planAndExecute.mp hleads with ⟨rfl, -⟩ | ⟨i, hi, hturn⟩ | ⟨rfl, -⟩ | ⟨rfl, -⟩
    · exact .inl rfl
    · refine .inr (.inl ⟨i, hi, ?_⟩)
      grind
    · exact .inr (.inr (.inl rfl))
    · exact .inr (.inr (.inr rfl))
  · rcases leads_planAndExecute.mp hleads with ⟨-, rfl⟩ | ⟨i, hi, hturn⟩ | ⟨-, rfl⟩ | ⟨-, rfl⟩
    · exact .inl (mem_names_planAndExecute.mpr (.inr (.inl ⟨0, by omega, .inl rfl⟩)))
    · left
      rcases hturn with ⟨-, rfl | rfl⟩ | ⟨-, rfl⟩ | ⟨-, -, rfl⟩
      · exact mem_names_planAndExecute.mpr (.inr (.inr (.inr rfl)))
      · exact mem_names_planAndExecute.mpr (.inr (.inl ⟨i, hi, .inr (.inl rfl)⟩))
      · split
        · rename_i hverifier
          exact mem_names_planAndExecute.mpr (.inr (.inl ⟨i, hi, .inr (.inr ⟨hverifier, rfl⟩)⟩))
        · exact hnext i hi
      · exact hnext i hi
    · exact .inr rfl
    · exact .inr rfl
  · rcases mem_names_planAndExecute.mp hb with rfl | ⟨i, hi, rfl | rfl | ⟨hverifier, rfl⟩⟩ | rfl | rfl
    · exact absurd rfl hne
    · cases i with
      | zero => exact ⟨.plan, leads_planAndExecute.mpr (.inl ⟨rfl, rfl⟩)⟩
      | succ i =>
        have hlast : (i : ℤ) < limits.maxIterations - 1 := by omega
        have hentered := leads_nextGuard config model limits (i := i) (by omega)
        rwa [nextGuard, if_pos hlast] at hentered
    · exact ⟨.costGuard i, hguard i _ hi (.inr rfl)⟩
    · refine ⟨.step i, leads_planAndExecute.mpr (.inr (.inl ⟨i, hi, .inr (.inl ⟨rfl, ?_⟩)⟩))⟩
      rw [if_pos hverifier]
    · have hlast : ¬ ((limits.maxIterations.toNat - 1 : ℕ) : ℤ) < limits.maxIterations - 1 := by omega
      have hentered := leads_nextGuard config model limits (i := limits.maxIterations.toNat - 1)
        (by omega)
      rwa [nextGuard, if_neg hlast] at hentered
    · exact ⟨.costGuard 0, hguard 0 _ (by omega) (.inl rfl)⟩
  · rcases mem_names_planAndExecute.mp ha with rfl | ⟨i, hi, rfl | rfl | ⟨hverifier, rfl⟩⟩ | rfl | rfl
    · exact ⟨.costGuard 0, leads_planAndExecute.mpr (.inl ⟨rfl, rfl⟩)⟩
    · exact ⟨.step i, hguard i _ hi (.inr rfl)⟩
    · exact ⟨_, leads_planAndExecute.mpr (.inr (.inl ⟨i, hi, .inr (.inl ⟨rfl, rfl⟩)⟩))⟩
    · exact ⟨_, leads_planAndExecute.mpr (.inr (.inl ⟨i, hi, .inr (.inr ⟨hverifier, rfl, rfl⟩)⟩))⟩
    · exact ⟨.stop, leads_planAndExecute.mpr (.inr (.inr (.inl ⟨rfl, rfl⟩)))⟩
    · exact ⟨.stop, leads_planAndExecute.mpr (.inr (.inr (.inr ⟨rfl, rfl⟩)))⟩
  · rcases mem_names_planAndExecute.mp ha with rfl | ⟨i, hi, rfl | rfl | ⟨-, rfl⟩⟩ | rfl | rfl <;>
      simp only [rank] <;> omega
  · refine forall_mem_unrolled.mpr ⟨?_, fun i hi => ?_, branchesLead_lastNodes⟩
    · simp [branchesLead_modelNode]
    · have hcost := branchesLead_costGuardNode (i := i) (hguard i _ hi (.inl rfl))
        (hguard i _ hi (.inr rfl))
      cases config.verifier <;> simp [branchesLead_modelNode, hcost]

end PlanAndExecute

section React

variable {config : StrategyConfig} {model : String} {limits : StrategyLimits}

theorem wired_react (h : 1 ≤ limits.maxIterations) :
    Wired (compileReact config model limits) (rank limits.maxIterations.toNat) := by
  have hguard : ∀ (i : ℕ) b, (i : ℤ) < limits.maxIterations →
      b = .limitExceeded ∨ b = afterThought limits.maxIterations i →
      (compileReact config model limits).Leads (.reactGuard i) b := fun i b hi hb =>
    leads_react.mpr (.inl ⟨i, hi, .inr (.inl ⟨rfl, hb⟩)⟩)
  have hafter : ∀ i : ℕ, (i : ℤ) < limits.maxIterations →
      afterThought limits.maxIterations i ∈ (compileReact config model limits).names := by
    intro i hi
    rw [mem_names_react, afterThought]
    split
    · rename_i hlast
      exact .inl ⟨i, hi, .inr (.inr ⟨hlast, rfl⟩)⟩
    · exact .inr (.inl rfl)
  refine ⟨nodup_react, mem_names_react.mpr (.inl ⟨0, by omega, .inl rfl⟩),
    by simp [mem_names_react], ranked_react, fun a b hleads => ?_, fun a b hleads => ?_,
    fun b hb hne => ?_, fun a ha => ?_, fun a ha => ?_, ?_⟩
  · rw [mem_names_react]
    rcases leads_react.mp hleads with ⟨i, hi, hturn⟩ | ⟨rfl, -⟩ | ⟨rfl, -⟩
    · refine .inl ⟨i, hi, ?_⟩
      grind
    · exact .inr (.inl rfl)
    · exact .inr (.inr rfl)
  · rcases leads_react.mp hleads with ⟨i, hi, hturn⟩ | ⟨-, rfl⟩ | ⟨-, rfl⟩
    · left
      rcases hturn with ⟨-, rfl⟩ | ⟨-, rfl | rfl⟩ | ⟨hlast, -, rfl⟩
      · exact mem_names_react.mpr (.inl ⟨i, hi, .inr (.inl rfl)⟩)
      · exact mem_names_react.mpr (.inr (.inr rfl))
      · exact hafter i hi
      · exact mem_names_react.mpr (.inl ⟨i + 1, by omega, .inl rfl⟩)
    · exact .inr rfl
    · exact .inr rfl
  · rcases mem_names_react.mp hb with ⟨i, hi, rfl | rfl | ⟨hlast, rfl⟩⟩ | rfl | rfl
    · cases i with
      | zero => exact absurd rfl hne
      | succ i =>
        have hlast : (i : ℤ) < limits.maxIterations - 1 := by omega
        exact ⟨.observe i, leads_react.mpr (.inl ⟨i, by omega, .inr (.inr ⟨hlast, rfl, rfl⟩)⟩)⟩
    · exact ⟨.think i, leads_react.mpr (.inl ⟨i, hi, .inl ⟨rfl, rfl⟩⟩)⟩
    · have hentered := hguard i _ hi (.inr rfl)
      rw [afterThought, if_pos hlast] at hentered
      exact ⟨_, hentered⟩
    · have hlast : ¬ ((limits.maxIterations.toNat - 1 : ℕ) : ℤ) < limits.maxIterations - 1 := by omega
      have hentered := hguard (limits.maxIterations.toNat - 1) _ (by omega) (.inr rfl)
      rw [afterThought, if_neg hlast] at hentered
      exact ⟨_, hentered⟩
    · exact ⟨.reactGuard 0, hguard 0 _ (by omega) (.inl rfl)⟩
  · rcases mem_names_react.mp ha with ⟨i, hi, rfl | rfl | ⟨hlast, rfl⟩⟩ | rfl | rfl
    · exact ⟨.reactGuard i, leads_react.mpr (.inl ⟨i, hi, .inl ⟨rfl, rfl⟩⟩)⟩
    · exact ⟨.limitExceeded, hguard i _ hi (.inl rfl)⟩
    · exact ⟨.think (i + 1), leads_react.mpr (.inl ⟨i, hi, .inr (.inr ⟨hlast, rfl, rfl⟩)⟩)⟩
    · exact ⟨.stop, leads_react.mpr (.inr (.inl ⟨rfl, rfl⟩))⟩
    · exact ⟨.stop, leads_react.mpr (.inr (.inr ⟨rfl, rfl⟩))⟩
  · rcases mem_names_react.mp ha with ⟨i, hi, rfl | rfl | ⟨hlast, rfl⟩⟩ | rfl | rfl <;>
      simp only [rank] <;> omega
  · refine forall_mem_unrolled.mpr ⟨by simp, fun i hi => ?_, branchesLead_lastNodes⟩
    have hcost := branchesLead_costGuardNode (i := i) (hguard i _ hi (.inl rfl))
      (hguard i _ hi (.inr rfl))
    by_cases hlast : (i : ℤ) < limits.maxIterations - 1
    · rw [afterThought, if_pos hlast] at hcost
      simp [hlast, branchesLead_modelNode, hcost]
    · rw [afterThought, if_neg hlast] at hcost
      simp only [hlast, if_false, List.append_nil, List.mem_cons, List.not_mem_nil, or_false]
      rintro entry (rfl | rfl)
      · exact branchesLead_modelNode
      · exact hcost

end React

section Consensus

variable {config : StrategyConfig} {model : String} {limits : StrategyLimits}

theorem wired_consensus (h : 2 ≤ config.numAgents.getD 3) :
    Wired (compileConsensus config model limits) (rank (config.numAgents.getD 3).toNat) := by
  have hguard : ∀ (i : ℕ) b, (i : ℤ) < config.numAgents.getD 3 - 1 →
      b = .limitExceeded ∨ b = .agent (i + 1) →
      (compileConsensus config model limits).Leads (.costGuard i) b := fun i b hi hb =>
    leads_consensus.mpr (.inl ⟨i, by omega, .inr ⟨hi, rfl, hb⟩⟩)
  have hanswer : ∀ i : ℕ, (i : ℤ) < config.numAgents.getD 3 →
      (compileConsensus config model limits).Leads (.agent i)
        (afterAgent (config.numAgents.getD 3) i) := fun i hi =>
    leads_consensus.mpr (.inl ⟨i, hi, .inl ⟨rfl, rfl⟩⟩)
  refine ⟨nodup_consensus, mem_names_consensus.mpr (.inl ⟨0, by omega, .inl rfl⟩),
    by simp [mem_names_consensus], ranked_consensus, fun a b hleads => ?_, fun a b hleads => ?_,
    fun b hb hne => ?_, fun a ha => ?_, fun a ha => ?_, ?_⟩
  · rw [mem_names_consensus]
    rcases leads_consensus.mp hleads with ⟨i, hi, hturn⟩ | ⟨rfl, -⟩ | ⟨rfl, -⟩ | ⟨rfl, -⟩ | ⟨rfl, -⟩
    · refine .inl ⟨i, hi, ?_⟩
      grind
    · exact .inr (.inl rfl)
    · exact .inr (.inr (.inl rfl))
    · exact .inr (.inr (.inr (.inl rfl)))
    · exact .inr (.inr (.inr (.inr rfl)))
  · rcases leads_consensus.mp hleads with ⟨i, hi, hturn⟩ | ⟨-, rfl⟩ | ⟨-, rfl⟩ | ⟨-, rfl⟩ | ⟨-, rfl⟩
    · left
      rcases hturn with ⟨-, rfl⟩ | ⟨hlast, -, rfl | rfl⟩
      · rw [mem_names_consensus, afterAgent]
        split
        · rename_i hlast
          exact .inl ⟨i, hi, .inr ⟨hlast, rfl⟩⟩
        · exact .inr (.inl rfl)
      · exact mem_names_consensus.mpr (.inr (.inr (.inr (.inr rfl))))
      · exact mem_names_consensus.mpr (.inl ⟨i + 1, by omega, .inl rfl⟩)
    · exact .inl (mem_names_consensus.mpr (.inr (.inr (.inl rfl))))
    · exact .inl (mem_names_consensus.mpr (.inr (.inr (.inr (.inl rfl)))))
    · exact .inr rfl
    · exact .inr rfl
  · rcases mem_names_consensus.mp hb with ⟨i, hi, rfl | ⟨hlast, rfl⟩⟩ | rfl | rfl | rfl | rfl
    · cases i with
      | zero => exact absurd rfl hne
      | succ i => exact ⟨.costGuard i, hguard i _ (by omega) (.inr rfl)⟩
    · have hentered := hanswer i hi
      rw [afterAgent, if_pos hlast] at hentered
      exact ⟨_, hentered⟩
    · have hlast : ¬ (((config.numAgents.getD 3).toNat - 1 : ℕ) : ℤ) <
          config.numAgents.getD 3 - 1 := by omega
      have hentered := hanswer ((config.numAgents.getD 3).toNat - 1) (by omega)
      rw [afterAgent, if_neg hlast] at hentered
      exact ⟨_, hentered⟩
    · exact ⟨.vote, leads_consensus.mpr (.inr (.inl ⟨rfl, rfl⟩))⟩
    · exact ⟨.judge, leads_consensus.mpr (.inr (.inr (.inl ⟨rfl, rfl⟩)))⟩
    · exact ⟨.costGuard 0, hguard 0 _ (by omega) (.inl rfl)⟩
  · rcases mem_names_consensus.mp ha with ⟨i, hi, rfl | ⟨hlast, rfl⟩⟩ | rfl | rfl | rfl | rfl
    · exact ⟨_, hanswer i hi⟩
    · exact ⟨.limitExceeded, hguard i _ hlast (.inl rfl)⟩
    · exact ⟨.judge, leads_consensus.mpr (.inr (.inl ⟨rfl, rfl⟩))⟩
    · exact ⟨.finalize, leads_consensus.mpr (.inr (.inr (.inl ⟨rfl, rfl⟩)))⟩
    · exact ⟨.stop, leads_consensus.mpr (.inr (.inr (.inr (.inl ⟨rfl, rfl⟩))))⟩
    · exact ⟨.stop, leads_consensus.mpr (.inr (.inr (.inr (.inr ⟨rfl, rfl⟩))))⟩
  · rcases mem_names_consensus.mp ha with ⟨i, hi, rfl | ⟨hlast, rfl⟩⟩ | rfl | rfl | rfl | rfl <;>
      simp only [rank] <;> omega
  · refine forall_mem_unrolled.mpr ⟨by simp, fun i hi => ?_, ?_⟩
    · by_cases hlast : (i : ℤ) < config.numAgents.getD 3 - 1
      · have hcost := branchesLead_costGuardNode (i := i) (hguard i _ hlast (.inl rfl))
          (hguard i _ hlast (.inr rfl))
        simp [hlast, branchesLead_modelNode, hcost]
      · simp [hlast, branchesLead_modelNode]
    · intro entry hentry
      rcases List.mem_append.mp hentry with hentry | hentry
      · simp only [List.mem_cons, List.not_mem_nil, or_false] at hentry
        rcases hentry with rfl | rfl <;> exact branchesLead_modelNode
      · exact branchesLead_lastNodes entry hentry

end Consensus

section Debate

variable {config : StrategyConfig} {model : String} {limits : StrategyLimits}

theorem wired_debate (h : 2 ≤ maxRounds config limits) :
    Wired (compileDebate config model limits) (rank (maxRounds config limits).toNat) := by
  have hguard : ∀ (i : ℕ) b, (i : ℤ) < maxRounds config limits - 1 →
      b = .limitExceeded ∨ b = .respond i →
      (compileDebate config model limits).Leads (.costGuard i) b := fun i b hi hb =>
    leads_debate.mpr (.inr (.inl ⟨i, by omega, .inr (.inr ⟨by omega, .inr (.inr (.inl ⟨rfl, hb⟩))⟩)⟩))
  have hgate : ∀ (i : ℕ) b, (i : ℤ) < maxRounds config limits - 1 →
      b = .finalize ∨ b = .costGuard i →
      (compileDebate config model limits).Leads (.judgeGate i) b := fun i b hi hb =>
    leads_debate.mpr (.inr (.inl ⟨i, by omega, .inr (.inr ⟨by omega, .inr (.inl ⟨rfl, hb⟩)⟩)⟩))
  have hcounter : ∀ i : ℕ, (i : ℤ) < maxRounds config limits →
      (compileDebate config model limits).Leads (.counter i) (.judgeRound i) := fun i hi =>
    leads_debate.mpr (.inr (.inl ⟨i, hi, .inl ⟨rfl, rfl⟩⟩))
  have hjudge : ∀ i : ℕ, (i : ℤ) < maxRounds config limits - 1 →
      (compileDebate config model limits).Leads (.judgeRound i) (.judgeGate i) := fun i hi =>
    leads_debate.mpr (.inr (.inl ⟨i, by omega, .inr (.inr ⟨by omega, .inl ⟨rfl, rfl⟩⟩)⟩))
  have hrespond : ∀ i : ℕ, (i : ℤ) < maxRounds config limits - 1 →
      (compileDebate config model limits).Leads (.respond i) (.counter (i + 1)) := fun i hi =>
    leads_debate.mpr (.inr (.inl ⟨i, by omega, .inr (.inr
      ⟨by omega, .inr (.inr (.inr ⟨rfl, rfl⟩))⟩)⟩))
  have hturn : ∀ (i : ℕ) b, (i : ℤ) < maxRounds config limits - 1 →
      b = .judgeGate i ∨ b = .costGuard i ∨ b = .respond i →
      b ∈ (compileDebate config model limits).names := fun i b hi hb =>
    mem_names_debate.mpr (.inr (.inl ⟨i, by omega, .inr (.inr ⟨by omega, hb⟩)⟩))
  refine ⟨nodup_debate, mem_names_debate.mpr (.inl rfl), by simp [mem_names_debate], ranked_debate,
    fun a b hleads => ?_, fun a b hleads => ?_, fun b hb hne => ?_, fun a ha => ?_,
    fun a ha => ?_, ?_⟩
  · rw [mem_names_debate]
    rcases leads_debate.mp hleads with ⟨rfl, -⟩ | ⟨i, hi, hedge⟩ | ⟨rfl, -⟩ | ⟨rfl, -⟩
    · exact .inl rfl
    · refine .inr (.inl ⟨i, hi, ?_⟩)
      grind
    · exact .inr (.inr (.inl rfl))
    · exact .inr (.inr (.inr rfl))
  · rcases leads_debate.mp hleads with ⟨-, rfl⟩ | ⟨i, hi, hedge⟩ | ⟨-, rfl⟩ | ⟨-, rfl⟩
    · exact .inl (mem_names_debate.mpr (.inr (.inl ⟨0, by omega, .inl rfl⟩)))
    · left
      rcases hedge with ⟨-, rfl⟩ | ⟨-, -, rfl⟩ |
        ⟨hlast, ⟨-, rfl⟩ | ⟨-, rfl | rfl⟩ | ⟨-, rfl | rfl⟩ | ⟨-, rfl⟩⟩
      · exact mem_names_debate.mpr (.inr (.inl ⟨i, hi, .inr (.inl rfl)⟩))
      · exact mem_names_debate.mpr (.inr (.inr (.inl rfl)))
      · exact hturn i _ (by omega) (.inl rfl)
      · exact mem_names_debate.mpr (.inr (.inr (.inl rfl)))
      · exact hturn i _ (by omega) (.inr (.inl rfl))
      · exact mem_names_debate.mpr (.inr (.inr (.inr rfl)))
      · exact hturn i _ (by omega) (.inr (.inr rfl))
      · exact mem_names_debate.mpr (.inr (.inl ⟨i + 1, by omega, .inl rfl⟩))
    · exact .inr rfl
    · exact .inr rfl
  · rcases mem_names_debate.mp hb with
      rfl | ⟨i, hi, rfl | rfl | ⟨hlast, rfl | rfl | rfl⟩⟩ | rfl | rfl
    · exact absurd rfl hne
    · cases i with
      | zero => exact ⟨.propose, leads_debate.mpr (.inl ⟨rfl, rfl⟩)⟩
      | succ i => exact ⟨.respond i, hrespond i (by omega)⟩
    · exact ⟨.counter i, hcounter i hi⟩
    · exact ⟨.judgeRound i, hjudge i (by omega)⟩
    · exact ⟨.judgeGate i, hgate i _ (by omega) (.inr rfl)⟩
    · exact ⟨.costGuard i, hguard i _ (by omega) (.inr rfl)⟩
    · exact ⟨.judgeGate 0, hgate 0 _ (by omega) (.inl rfl)⟩
    · exact ⟨.costGuard 0, hguard 0 _ (by omega) (.inl rfl)⟩
  · rcases mem_names_debate.mp ha with
      rfl | ⟨i, hi, rfl | rfl | ⟨hlast, rfl | rfl | rfl⟩⟩ | rfl | rfl
    · exact ⟨.counter 0, leads_debate.mpr (.inl ⟨rfl, rfl⟩)⟩
    · exact ⟨.judgeRound i, hcounter i hi⟩
    · by_cases hlast : (i : ℤ) = maxRounds config limits - 1
      · exact ⟨.finalize, leads_debate.mpr (.inr (.inl ⟨i, hi, .inr (.inl ⟨hlast, rfl, rfl⟩)⟩))⟩
      · exact ⟨.judgeGate i, hjudge i (by omega)⟩
    · exact ⟨.finalize, hgate i _ (by omega) (.inl rfl)⟩
    · exact ⟨.limitExceeded, hguard i _ (by omega) (.inl rfl)⟩
    · exact ⟨.counter (i + 1), hrespond i (by omega)⟩
    · exact ⟨.stop, leads_debate.mpr (.inr (.inr (.inl ⟨rfl, rfl⟩)))⟩
    · exact ⟨.stop, leads_debate.mpr (.inr (.inr (.inr ⟨rfl, rfl⟩)))⟩
  · rcases mem_names_debate.mp ha with
      rfl | ⟨i, hi, rfl | rfl | ⟨hlast, rfl | rfl | rfl⟩⟩ | rfl | rfl <;>
      simp only [rank] <;> omega
  · refine forall_mem_unrolled.mpr ⟨by simp [branchesLead_modelNode], fun i hi => ?_,
      branchesLead_lastNodes⟩
    by_cases hlast : (i : ℤ) = maxRounds config limits - 1
    · simp [hlast, branchesLead_modelNode]
    · have hcost := branchesLead_costGuardNode (i := i) (hguard i _ (by omega) (.inl rfl))
        (hguard i _ (by omega) (.inr rfl))
      have hjudged : ∀ labels, BranchesLead (compileDebate config model limits) (.judgeGate i,
          conditionNode [(verdictIs "judge" i "ruling" "settled", .finalize), (none, .costGuard i)]
            labels) := fun labels => branchesLead_conditionNode (by
        simp [hgate i _ (by omega) (.inl rfl), hgate i _ (by omega) (.inr rfl)])
      simp [hlast, branchesLead_modelNode, hcost, hjudged]

end Debate

variable {config : StrategyConfig} {model workflowId version : String} {limits : StrategyLimits}

theorem not_wellFormed_of_orphan {c : Compiled} {id : StrategyId} (hid : id ∈ c.names)
    (hentered : ∀ a, ¬ c.Leads a id) (hne : id ≠ c.startNode) :
    ¬ WellFormed (c.ir workflowId version) := by
  intro h
  have hroot := h.oneRoot id.text (Compiled.mem_ir.mpr ⟨id, hid, rfl⟩) fun src hleads => by
    obtain ⟨a, b, -, hb, hab⟩ := Compiled.leads_ir.mp hleads
    exact hentered a (StrategyId.text_injective hb ▸ hab)
  exact hne (StrategyId.text_injective hroot)

theorem reviseLoop_not_wellFormed {first : StrategyId} {judge gate : ℕ → StrategyId} {rounds : ℤ}
    {firstNode word judgeLabel gateLabel judgeModel : String} (h : JudgeNames first judge gate) :
    ¬ WellFormed ((reviseLoop first firstNode judge gate word judgeLabel gateLabel judgeModel model
      rounds).ir workflowId version) := by
  have hlimit : ∀ n, rank n .limitExceeded = 7 * n + 4 := fun _ => rfl
  have hfirst : StrategyId.limitExceeded ≠ first :=
    ne_of_rank 0 (by rw [h.first, hlimit]; omega)
  have hjudge : ∀ i, StrategyId.limitExceeded ≠ judge i := fun i =>
    ne_of_rank i (by rw [h.judge, hlimit]; omega)
  have hgate : ∀ i, StrategyId.limitExceeded ≠ gate i := fun i =>
    ne_of_rank i (by rw [h.gate, hlimit]; omega)
  refine not_wellFormed_of_orphan (mem_names_reviseLoop.mpr (.inr (.inr (.inr rfl))))
    (fun a hleads => ?_) hfirst
  have hcases := leads_reviseLoop.mp hleads
  simp only [hjudge, hgate, reduceCtorEq, and_false, or_false, exists_false] at hcases

theorem consensus_not_wellFormed (h : config.numAgents.getD 3 ≤ 1) :
    ¬ WellFormed ((compileConsensus config model limits).ir workflowId version) := by
  refine not_wellFormed_of_orphan (mem_names_consensus.mpr (.inr (.inr (.inr (.inr rfl)))))
    (fun a hleads => ?_) nofun
  rcases leads_consensus.mp hleads with ⟨i, hi, hturn⟩ | ⟨-, hb⟩ | ⟨-, hb⟩ | ⟨-, hb⟩ | ⟨-, hb⟩
  · rcases hturn with ⟨-, hb⟩ | ⟨hlast, -⟩
    · rw [afterAgent] at hb
      split at hb <;> cases hb
    · omega
  all_goals cases hb

theorem debate_not_wellFormed (h : maxRounds config limits ≤ 1) :
    ¬ WellFormed ((compileDebate config model limits).ir workflowId version) := by
  refine not_wellFormed_of_orphan (mem_names_debate.mpr (.inr (.inr (.inr rfl))))
    (fun a hleads => ?_) nofun
  rcases leads_debate.mp hleads with ⟨-, hb⟩ | ⟨i, hi, hturn⟩ | ⟨-, hb⟩ | ⟨-, hb⟩
  · cases hb
  · rcases hturn with ⟨-, hb⟩ | ⟨-, -, hb⟩ | ⟨hlast, -⟩
    · cases hb
    · cases hb
    · omega
  all_goals cases hb

theorem maxIterations_of_validate (h : limits.validate = .ok ()) : 1 ≤ limits.maxIterations := by
  by_contra hlt
  rw [StrategyLimits.validate, if_pos (by omega)] at h
  cases h

theorem compileStrategy_eq_ok {strategyName : String} {c : Compiled}
    (hlimits : limits.validate = .ok ()) :
    compileStrategy strategyName config model limits = .ok c ↔
      (strategyName = "react" ∧ c = compileReact config model limits) ∨
      (strategyName = "plan-and-execute" ∧ c = compilePlanAndExecute config model limits) ∨
      (strategyName = "critic" ∧ c = compileCritic config model limits) ∨
      (strategyName = "reflection" ∧ c = compileReflection config model limits) ∨
      (strategyName = "consensus" ∧ c = compileConsensus config model limits) ∨
      (strategyName = "debate" ∧ c = compileDebate config model limits) := by
  unfold compileStrategy
  rw [hlimits]
  simp only [bind, Except.bind, pure, Except.pure]
  split <;> simp_all [eq_comm]

/-- Exactly the strategies that write a cost guard are well formed: a critic or a reflection writes
none, nor does a consensus of fewer than two agents or a debate of fewer than two rounds, and their
limit node is left without an edge into it. -/
theorem compiled_wellFormed_iff (strategyName : String) (config : StrategyConfig) (model : String)
    (limits : StrategyLimits) (workflowId version : String) (hlimits : limits.validate = .ok ()) :
    (∀ c, compileStrategy strategyName config model limits = .ok c →
      WellFormed (c.ir workflowId version)) ↔
    strategyName ≠ "critic" ∧ strategyName ≠ "reflection" ∧
      (strategyName = "consensus" → 2 ≤ config.numAgents.getD 3) ∧
      (strategyName = "debate" → 2 ≤ config.maxRounds.getD 3 ∧ 2 ≤ limits.maxIterations) := by
  have hiterations := maxIterations_of_validate hlimits
  simp only [compileStrategy_eq_ok hlimits]
  constructor
  · intro h
    refine ⟨?_, ?_, fun hname => ?_, fun hname => ?_⟩
    · rintro rfl
      exact reviseLoop_not_wellFormed judgeNames_critic (h (compileCritic config model limits) (by simp))
    · rintro rfl
      exact reviseLoop_not_wellFormed judgeNames_reflection
        (h (compileReflection config model limits) (by simp))
    · by_contra hagents
      have hfew : config.numAgents.getD 3 ≤ 1 := by omega
      exact consensus_not_wellFormed hfew (h (compileConsensus config model limits) (by simp [hname]))
    · by_contra hrounds
      have hfew : maxRounds config limits ≤ 1 := by
        rw [maxRounds]
        omega
      exact debate_not_wellFormed hfew (h (compileDebate config model limits) (by simp [hname]))
  · rintro ⟨hcritic, hreflection, hconsensus, hdebate⟩ c
      (⟨hname, rfl⟩ | ⟨hname, rfl⟩ | ⟨hname, rfl⟩ | ⟨hname, rfl⟩ | ⟨hname, rfl⟩ | ⟨hname, rfl⟩)
    · exact (wired_react hiterations).wellFormed workflowId version
    · exact (wired_planAndExecute hiterations).wellFormed workflowId version
    · exact absurd hname hcritic
    · exact absurd hname hreflection
    · exact (wired_consensus (hconsensus hname)).wellFormed workflowId version
    · obtain ⟨hrounds, hiterations⟩ := hdebate hname
      exact (wired_debate (by rw [maxRounds]; omega)).wellFormed workflowId version

/-- Ten turns, a dollar, five minutes. -/
def tenTurns : StrategyLimits := ⟨10, 0x3ff0000000000000, 300⟩

theorem compiled_wellFormed_react : ∃ c, compileStrategy "react" {} "m" tenTurns = .ok c ∧
    WellFormed (c.ir "w" "1.0.0") :=
  ⟨_, rfl, (compiled_wellFormed_iff "react" {} "m" tenTurns "w" "1.0.0" rfl).mpr
    ⟨by decide, by decide, by decide, by decide⟩ _ rfl⟩

/-- A critic under the same limits is not: nothing leads to its limit node. -/
theorem critic_not_wellFormed : tenTurns.validate = .ok () ∧
    ∃ c, compileStrategy "critic" {} "m" tenTurns = .ok c ∧ ¬ WellFormed (c.ir "w" "1.0.0") :=
  ⟨rfl, _, rfl, reviseLoop_not_wellFormed judgeNames_critic⟩

end JamJet.Strategies
