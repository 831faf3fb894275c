import JamJet.StrategyGraphs

/-! How often a compiled strategy may iterate on the way from its start to its end, and what guards
it between two iterations. -/

namespace JamJet.Strategies

open RankedGraph

/-- A step, a thought, a round or an agent. -/
def startsIteration (labels : List (String × String)) : Bool :=
  labels.contains (eventLabel "iteration_started")

/-- A condition with a branch on the cost to the limit. -/
def guardsCost : Ir.NodeKind → Bool
  | .condition branches => branches.any fun branch =>
      branch.condition == some "state.__cost_exceeded__" && branch.target == "__limit_exceeded__"
  | _ => false

/-- A way through a workflow from its start node to its end. -/
structure Path (ir : Ir.WorkflowIr) (path : List NodeId) : Prop where
  head : path.head? = some ir.startNode
  last : path.getLast? = some "end"
  chain : path.IsChain ir.Leads

/-- The node of the name starts an iteration. -/
def iterates (ir : Ir.WorkflowIr) (id : NodeId) : Bool :=
  (ir.nodes.lookup id).any fun node => startsIteration node.labels

/-- The node of the name is a cost guard. -/
def guards (ir : Ir.WorkflowIr) (id : NodeId) : Bool :=
  (ir.nodes.lookup id).any fun node => guardsCost node.kind

/-- On no way through does a workflow iterate more often than it may, nor twice without a cost guard
in between. -/
structure Limited (ir : Ir.WorkflowIr) (maxIterations : ℤ) : Prop where
  count : ∀ path, Path ir path → (path.countP (iterates ir) : ℤ) ≤ maxIterations + 1
  guarded : ∀ path, Path ir path → ∀ before first between second after,
    path = before ++ first :: (between ++ second :: after) → iterates ir first → iterates ir second →
    (∀ id ∈ between, ¬ iterates ir id) → ∃ id ∈ between, guards ir id

section Names

variable {c : Compiled} {workflowId version : String} {a b : StrategyId}

def Compiled.Iterates (c : Compiled) (id : StrategyId) : Prop :=
  ∃ node, (id, node) ∈ c.nodes ∧ startsIteration node.labels

def Compiled.Guards (c : Compiled) (id : StrategyId) : Prop :=
  ∃ node, (id, node) ∈ c.nodes ∧ guardsCost node.kind

theorem any_lookup_text (h : c.names.Nodup) (p : Ir.NodeDef → Bool) :
    ((c.ir workflowId version).nodes.lookup a.text).any p = true ↔
      ∃ node, (a, node) ∈ c.nodes ∧ p (Compiled.definition a node) = true := by
  rw [Option.any_eq_true]
  constructor
  · rintro ⟨found, hfound, hp⟩
    obtain ⟨id, node, hmem, hid, rfl⟩ := (Compiled.lookup_ir h).mp hfound
    obtain rfl := StrategyId.text_injective hid
    exact ⟨node, hmem, hp⟩
  · rintro ⟨node, hmem, hp⟩
    exact ⟨_, (Compiled.lookup_ir h).mpr ⟨a, node, hmem, rfl, rfl⟩, hp⟩

theorem iterates_text (h : c.names.Nodup) :
    iterates (c.ir workflowId version) a.text ↔ c.Iterates a := any_lookup_text h _

theorem guards_text (h : c.names.Nodup) :
    guards (c.ir workflowId version) a.text ↔ c.Guards a := any_lookup_text h _

theorem chain_names {path : List NodeId}
    (h : (a.text :: path).IsChain (c.ir workflowId version).Leads) :
    ∃ ids : List StrategyId, path = ids.map StrategyId.text ∧ (a :: ids).IsChain c.Leads := by
  induction path generalizing a with
  | nil => exact ⟨[], rfl, .singleton a⟩
  | cons next path ih =>
    rw [List.isChain_cons_cons] at h
    obtain ⟨a', b, ha, rfl, hleads⟩ := Compiled.leads_ir.mp h.1
    obtain ⟨ids, rfl, hchain⟩ := ih h.2
    rw [← StrategyId.text_injective ha] at hleads
    exact ⟨b :: ids, rfl, List.isChain_cons_cons.mpr ⟨hleads, hchain⟩⟩

theorem path_names {path : List NodeId} (h : Path (c.ir workflowId version) path) :
    ∃ ids : List StrategyId, path = ids.map StrategyId.text ∧ ids.IsChain c.Leads := by
  obtain ⟨rest, rfl⟩ := List.head?_eq_some_iff.mp h.head
  obtain ⟨ids, rfl, hchain⟩ := chain_names h.chain
  exact ⟨c.startNode :: ids, rfl, hchain⟩

theorem path_of_names {ids : List StrategyId} (hchain : (c.startNode :: ids).IsChain c.Leads)
    (hlast : (c.startNode :: ids).getLast? = some .stop) :
    Path (c.ir workflowId version) ((c.startNode :: ids).map StrategyId.text) := by
  refine ⟨rfl, by rw [List.getLast?_map, hlast]; rfl, ?_⟩
  rw [List.isChain_map]
  exact hchain.imp fun a b hleads => Compiled.leads_text.mpr hleads

theorem Compiled.Guards.not_iterates (hnodup : c.names.Nodup)
    (hapart : ∀ entry ∈ c.nodes, startsIteration entry.2.labels → guardsCost entry.2.kind = false)
    (h : c.Guards a) : ¬ c.Iterates a := by
  rintro ⟨node, hnode, hlabels⟩
  obtain ⟨guard, hguard, hkind⟩ := h
  have heq : (a, node) = (a, guard) := List.inj_on_of_nodup_map hnodup hnode hguard rfl
  have hnot := hapart _ hnode hlabels
  rw [heq, hkind] at hnot
  cases hnot

theorem limited_of_guarded {height : StrategyId → ℕ} {maxIterations : ℤ}
    (turns : List StrategyId) (sheltered : StrategyId → Prop) (hnodup : c.names.Nodup)
    (hranked : Ranked c.Leads height)
    (hapart : ∀ entry ∈ c.nodes, startsIteration entry.2.labels → guardsCost entry.2.kind = false)
    (hturns : ∀ id, c.Iterates id → id ∈ turns) (hlength : (turns.length : ℤ) ≤ maxIterations + 1)
    (hentered : ∀ a b, c.Leads a b → c.Iterates b ∨ sheltered b →
      c.Guards a ∨ sheltered a ∧ ¬ c.Iterates a) :
    Limited (c.ir workflowId version) maxIterations := by
  constructor
  · intro path hpath
    obtain ⟨ids, rfl, hchain⟩ := path_names hpath
    have hcount := hranked.countP_le hchain (fun id => iterates (c.ir workflowId version) id.text)
      turns fun id hid => hturns id ((iterates_text hnodup).mp hid)
    rw [List.countP_map]
    have hle : (ids.countP (iterates (c.ir workflowId version) ∘ StrategyId.text) : ℤ) ≤
        turns.length := by exact_mod_cast hcount
    exact hle.trans hlength
  · intro path hpath before first between second after heq hfirst hsecond _
    obtain ⟨ids, rfl, hchain⟩ := path_names hpath
    obtain ⟨before, tail, rfl, rfl, htail⟩ := List.map_eq_append_iff.mp heq
    obtain ⟨first, rest, rfl, rfl, hrest⟩ := List.map_eq_cons_iff.mp htail
    obtain ⟨between, tail, rfl, rfl, hafter⟩ := List.map_eq_append_iff.mp hrest
    obtain ⟨second, after, rfl, rfl, -⟩ := List.map_eq_cons_iff.mp hafter
    have hwalk : (first :: (between ++ [second])).IsChain c.Leads := by
      refine hchain.infix ⟨before, after, ?_⟩
      simp
    obtain ⟨id, hid, hguard⟩ := exists_guard_between
      (fun a hguard => Compiled.Guards.not_iterates hnodup hapart hguard) hentered between hwalk
      ((iterates_text hnodup).mp hfirst) (.inl ((iterates_text hnodup).mp hsecond))
    exact ⟨id.text, List.mem_map_of_mem hid, (guards_text hnodup).mpr hguard⟩

end Names

theorem guardsCost_modelNode {model : String} {systemPrompt : Option String}
    {labels : List (String × String)} :
    guardsCost (modelNode model systemPrompt labels).kind = false := rfl

theorem guardsCost_costGuardNode {i : ℕ} {okTarget : StrategyId} :
    guardsCost (costGuardNode i okTarget).kind = true := rfl

theorem startsIteration_costGuardNode {i : ℕ} {okTarget : StrategyId} :
    startsIteration (costGuardNode i okTarget).labels = false := by
  simp [startsIteration, costGuardNode, conditionNode, nodeLabel, iterationLabel, eventLabel]

theorem guardsCost_gate {condition : Option String} {next : StrategyId}
    {labels : List (String × String)} :
    guardsCost (conditionNode [(condition, .finalize), (none, next)] labels).kind = false := by
  have htarget : (StrategyId.finalize.text == "__limit_exceeded__") = false := by decide
  simp [guardsCost, conditionNode, htarget]

theorem startsIteration_gate {branches : List (Option String × StrategyId)} {word : String} {i : ℕ} :
    startsIteration (conditionNode branches [nodeLabel word, iterationLabel i]).labels = false := by
  simp [startsIteration, conditionNode, nodeLabel, iterationLabel, eventLabel]

theorem not_iterates_lastNodes {model : String} {id : StrategyId} :
    ¬ ∃ entry ∈ lastNodes model, id = entry.1 ∧ startsIteration entry.2.labels := by
  simp [lastNodes, startsIteration, modelNode, limitExceededNode, nodeLabel, eventLabel]

theorem guardsCost_lastNodes {model : String} :
    ∀ entry ∈ lastNodes model, guardsCost entry.2.kind = false := by
  simp [lastNodes, guardsCost, modelNode, limitExceededNode]

variable {config : StrategyConfig} {model workflowId version : String} {limits : StrategyLimits}
  {id : StrategyId}

theorem iterates_unrolled {c : Compiled} {first last : List (StrategyId × StrategyNode)}
    {turn : ℕ → List (StrategyId × StrategyNode)} {n : ℤ} (h : c.nodes = unrolled first n turn last) :
    c.Iterates id ↔
      (∃ entry ∈ first, id = entry.1 ∧ startsIteration entry.2.labels) ∨
      (∃ i : ℕ, (i : ℤ) < n ∧ ∃ entry ∈ turn i, id = entry.1 ∧ startsIteration entry.2.labels) ∨
      ∃ entry ∈ last, id = entry.1 ∧ startsIteration entry.2.labels := by
  simp only [Compiled.Iterates, h, mem_unrolled]
  constructor
  · rintro ⟨node, hentry | ⟨i, hi, hentry⟩ | hentry, hlabels⟩
    · exact .inl ⟨_, hentry, rfl, hlabels⟩
    · exact .inr (.inl ⟨i, hi, _, hentry, rfl, hlabels⟩)
    · exact .inr (.inr ⟨_, hentry, rfl, hlabels⟩)
  · rintro (⟨entry, hentry, rfl, hlabels⟩ | ⟨i, hi, entry, hentry, rfl, hlabels⟩ |
      ⟨entry, hentry, rfl, hlabels⟩)
    · exact ⟨entry.2, .inl hentry, hlabels⟩
    · exact ⟨entry.2, .inr (.inl ⟨i, hi, hentry⟩), hlabels⟩
    · exact ⟨entry.2, .inr (.inr hentry), hlabels⟩

section PlanAndExecute

theorem iterates_planAndExecute : (compilePlanAndExecute config model limits).Iterates id ↔
    ∃ i : ℕ, (i : ℤ) < limits.maxIterations ∧ id = .step i := by
  rw [iterates_unrolled rfl]
  cases config.verifier <;>
    simp [startsIteration, modelNode, costGuardNode, conditionNode, lastNodes, limitExceededNode,
      nodeLabel, eventLabel, iterationLabel]

theorem guards_planAndExecute {i : ℕ} (hi : (i : ℤ) < limits.maxIterations) :
    (compilePlanAndExecute config model limits).Guards (.costGuard i) :=
  ⟨costGuardNode i (.step i), mem_unrolled.mpr (.inr (.inl ⟨i, hi, by simp⟩)), guardsCost_costGuardNode⟩

theorem limited_planAndExecute (h : 1 ≤ limits.maxIterations) :
    Limited ((compilePlanAndExecute config model limits).ir workflowId version)
      limits.maxIterations := by
  refine limited_of_guarded ((List.range limits.maxIterations.toNat).map .step) (fun _ => False)
    nodup_planAndExecute ranked_planAndExecute ?_ (fun id hid => ?_) ?_ fun a b hleads hb => ?_
  · refine forall_mem_unrolled.mpr ⟨by simp [guardsCost_modelNode], fun i hi => ?_,
      fun entry hentry _ => guardsCost_lastNodes entry hentry⟩
    cases config.verifier <;> simp [guardsCost_modelNode, startsIteration_costGuardNode]
  · obtain ⟨i, hi, rfl⟩ := iterates_planAndExecute.mp hid
    exact List.mem_map_of_mem (List.mem_range.mpr (by omega))
  · simp only [List.length_map, List.length_range]
    omega
  · obtain ⟨i, hi, rfl⟩ := iterates_planAndExecute.mp (hb.resolve_right id)
    rcases leads_planAndExecute.mp hleads with ⟨-, hb⟩ | ⟨j, hj, hturn⟩ | ⟨-, hb⟩ | ⟨-, hb⟩
    · cases hb
    · rcases hturn with ⟨rfl, hb⟩ | ⟨-, hb⟩ | ⟨-, -, hb⟩
      · exact .inl (guards_planAndExecute hj)
      · rw [nextGuard] at hb
        split at hb
        · cases hb
        · split at hb <;> cases hb
      · rw [nextGuard] at hb
        split at hb <;> cases hb
    all_goals cases hb

end PlanAndExecute

section React

theorem iterates_react : (compileReact config model limits).Iterates id ↔
    ∃ i : ℕ, (i : ℤ) < limits.maxIterations ∧ id = .think i := by
  have hlast : ¬ ∃ entry ∈ lastNodes model, id = entry.1 ∧ startsIteration entry.2.labels :=
    not_iterates_lastNodes
  rw [iterates_unrolled rfl]
  simp only [List.not_mem_nil, false_and, exists_false, false_or]
  refine (or_iff_left hlast).trans (exists_congr fun i => and_congr_right fun hi => ?_)
  by_cases hend : (i : ℤ) < limits.maxIterations - 1 <;>
    simp [hend, startsIteration, modelNode, costGuardNode, conditionNode, nodeLabel, eventLabel,
      iterationLabel]

theorem guards_react {i : ℕ} (hi : (i : ℤ) < limits.maxIterations) :
    (compileReact config model limits).Guards (.reactGuard i) :=
  ⟨_, mem_unrolled.mpr (.inr (.inl ⟨i, hi, List.mem_cons_of_mem _ List.mem_cons_self⟩)),
    guardsCost_costGuardNode⟩

theorem limited_react (h : 1 ≤ limits.maxIterations) :
    Limited ((compileReact config model limits).ir workflowId version) limits.maxIterations := by
  refine limited_of_guarded ((List.range limits.maxIterations.toNat).map .think)
    (fun id => ∃ i, id = .observe i) nodup_react ranked_react ?_ (fun id hid => ?_) ?_
    fun a b hleads hb => ?_
  · refine forall_mem_unrolled.mpr ⟨by simp, fun i hi => ?_,
      fun entry hentry _ => guardsCost_lastNodes entry hentry⟩
    by_cases hend : (i : ℤ) < limits.maxIterations - 1 <;>
      simp [hend, guardsCost_modelNode, startsIteration_costGuardNode]
  · obtain ⟨i, hi, rfl⟩ := iterates_react.mp hid
    exact List.mem_map_of_mem (List.mem_range.mpr (by omega))
  · simp only [List.length_map, List.length_range]
    omega
  · rcases leads_react.mp hleads with ⟨j, hj, hturn⟩ | ⟨rfl, rfl⟩ | ⟨rfl, rfl⟩
    · rcases hturn with ⟨rfl, rfl⟩ | ⟨rfl, -⟩ | ⟨-, rfl, rfl⟩
      · simp [iterates_react] at hb
      · exact .inl (guards_react hj)
      · exact .inr ⟨⟨j, rfl⟩, by simp [iterates_react]⟩
    · simp [iterates_react] at hb
    · simp [iterates_react] at hb

end React

section Consensus

theorem iterates_consensus : (compileConsensus config model limits).Iterates id ↔
    ∃ i : ℕ, (i : ℤ) < config.numAgents.getD 3 ∧ id = .agent i := by
  have hlast : ¬ ∃ entry ∈ [((.vote : StrategyId), modelNode model none
        [nodeLabel "voting", eventLabel "critic_verdict"]),
        (.judge, modelNode (config.judgeModel.getD model) none
          [nodeLabel "judge", eventLabel "strategy_completed"])] ++ lastNodes model,
      id = entry.1 ∧ startsIteration entry.2.labels := by
    rintro ⟨entry, hentry, hid⟩
    rcases List.mem_append.mp hentry with hentry | hentry
    · simp only [List.mem_cons, List.not_mem_nil, or_false] at hentry
      rcases hentry with rfl | rfl <;>
        simp [startsIteration, modelNode, nodeLabel, eventLabel] at hid
    · exact not_iterates_lastNodes ⟨entry, hentry, hid⟩
  rw [iterates_unrolled rfl]
  simp only [List.not_mem_nil, false_and, exists_false, false_or]
  refine (or_iff_left hlast).trans (exists_congr fun i => and_congr_right fun hi => ?_)
  by_cases hend : (i : ℤ) < config.numAgents.getD 3 - 1 <;>
    simp [hend, startsIteration, modelNode, costGuardNode, conditionNode, nodeLabel, eventLabel,
      iterationLabel]

theorem guards_consensus {i : ℕ} (hi : (i : ℤ) < config.numAgents.getD 3 - 1) :
    (compileConsensus config model limits).Guards (.costGuard i) :=
  ⟨costGuardNode i (.agent (i + 1)), mem_unrolled.mpr (.inr (.inl ⟨i, by omega, by simp [hi]⟩)),
    guardsCost_costGuardNode⟩

theorem limited_consensus (hiterations : 1 ≤ limits.maxIterations)
    (h : config.numAgents.getD 3 ≤ limits.maxIterations + 1) :
    Limited ((compileConsensus config model limits).ir workflowId version)
      limits.maxIterations := by
  refine limited_of_guarded ((List.range (config.numAgents.getD 3).toNat).map .agent)
    (fun _ => False) nodup_consensus ranked_consensus ?_ (fun id hid => ?_) ?_
    fun a b hleads hb => ?_
  · refine forall_mem_unrolled.mpr ⟨by simp, fun i hi => ?_, fun entry hentry _ => ?_⟩
    · by_cases hend : (i : ℤ) < config.numAgents.getD 3 - 1 <;>
        simp [hend, guardsCost_modelNode, startsIteration_costGuardNode]
    · rcases List.mem_append.mp hentry with hentry | hentry
      · simp only [List.mem_cons, List.not_mem_nil, or_false] at hentry
        rcases hentry with rfl | rfl <;> exact guardsCost_modelNode
      · exact guardsCost_lastNodes entry hentry
  · obtain ⟨i, hi, rfl⟩ := iterates_consensus.mp hid
    exact List.mem_map_of_mem (List.mem_range.mpr (by omega))
  · simp only [List.length_map, List.length_range]
    omega
  · obtain ⟨i, hi, rfl⟩ := iterates_consensus.mp (hb.resolve_right id)
    rcases leads_consensus.mp hleads with ⟨j, hj, hturn⟩ | ⟨-, hb⟩ | ⟨-, hb⟩ | ⟨-, hb⟩ | ⟨-, hb⟩
    · rcases hturn with ⟨-, hb⟩ | ⟨hend, rfl, -⟩
      · rw [afterAgent] at hb
        split at hb <;> cases hb
      · exact .inl (guards_consensus hend)
    all_goals cases hb

theorem exists_answers_consensus {c : Compiled} (hc : c = compileConsensus config model limits)
    (workflowId version : String) (k : ℕ) :
    ∀ i : ℕ, (i + k + 1 : ℤ) = config.numAgents.getD 3 →
      ∃ rest, (StrategyId.agent i :: rest).IsChain c.Leads ∧
        (StrategyId.agent i :: rest).getLast? = some .stop ∧
        k + 1 ≤ ((StrategyId.agent i :: rest).map StrategyId.text).countP
          (iterates (c.ir workflowId version)) := by
  have hagent : ∀ i : ℕ, (i : ℤ) < config.numAgents.getD 3 →
      iterates (c.ir workflowId version) (StrategyId.agent i).text := fun i hi =>
    hc ▸ (iterates_text nodup_consensus).mpr (iterates_consensus.mpr ⟨i, hi, rfl⟩)
  have hanswer : ∀ i : ℕ, (i : ℤ) < config.numAgents.getD 3 →
      c.Leads (.agent i) (afterAgent (config.numAgents.getD 3) i) := fun i hi =>
    hc ▸ leads_consensus.mpr (.inl ⟨i, hi, .inl ⟨rfl, rfl⟩⟩)
  induction k with
  | zero =>
    intro i hi
    have hleads := hanswer i (by omega)
    rw [afterAgent, if_neg (by omega)] at hleads
    have hvote : c.Leads .vote .judge := hc ▸ leads_consensus.mpr (.inr (.inl ⟨rfl, rfl⟩))
    have hjudge : c.Leads .judge .finalize :=
      hc ▸ leads_consensus.mpr (.inr (.inr (.inl ⟨rfl, rfl⟩)))
    have hstop : c.Leads .finalize .stop :=
      hc ▸ leads_consensus.mpr (.inr (.inr (.inr (.inl ⟨rfl, rfl⟩))))
    refine ⟨[.vote, .judge, .finalize, .stop], by simp [hleads, hvote, hjudge, hstop], rfl, ?_⟩
    rw [List.map_cons, List.countP_cons_of_pos (hagent i (by omega))]
    omega
  | succ k ih =>
    intro i hi
    obtain ⟨rest, hchain, hlast, hcount⟩ := ih (i + 1) (by push_cast at hi ⊢; omega)
    have hleads := hanswer i (by omega)
    rw [afterAgent, if_pos (by omega)] at hleads
    have hguard : c.Leads (.costGuard i) (.agent (i + 1)) :=
      hc ▸ leads_consensus.mpr (.inl ⟨i, by omega, .inr ⟨by omega, rfl, .inr rfl⟩⟩)
    refine ⟨.costGuard i :: .agent (i + 1) :: rest, .cons_cons hleads (.cons_cons hguard hchain),
      by simpa [List.getLast?_cons_cons] using hlast, ?_⟩
    rw [List.map_cons, List.countP_cons_of_pos (hagent i (by omega)), List.map_cons, List.countP_cons]
    exact Nat.succ_le_succ (hcount.trans (Nat.le_add_right _ _))

theorem not_limited_consensus {c : Compiled} (hc : c = compileConsensus config model limits)
    (hiterations : 1 ≤ limits.maxIterations)
    (h : limits.maxIterations + 1 < config.numAgents.getD 3) :
    ¬ Limited (c.ir workflowId version) limits.maxIterations := by
  intro hlimited
  have hstart : c.startNode = .agent 0 := hc ▸ rfl
  obtain ⟨rest, hchain, hlast, hcount⟩ := exists_answers_consensus hc workflowId version
    ((config.numAgents.getD 3).toNat - 1) 0 (by omega)
  rw [← hstart] at hchain hlast hcount
  have hbound := hlimited.count _ (path_of_names hchain hlast)
  omega

end Consensus

section Debate

theorem iterates_debate : (compileDebate config model limits).Iterates id ↔
    id = .propose ∨ ∃ i : ℕ, (i : ℤ) < maxRounds config limits - 1 ∧ id = .respond i := by
  have hlast : ¬ ∃ entry ∈ lastNodes model, id = entry.1 ∧ startsIteration entry.2.labels :=
    not_iterates_lastNodes
  rw [iterates_unrolled rfl, or_iff_left hlast]
  refine or_congr (by simp [startsIteration, modelNode]) (exists_congr fun i => ?_)
  by_cases hend : (i : ℤ) = maxRounds config limits - 1
  · simp [hend, startsIteration, modelNode, nodeLabel, eventLabel, iterationLabel]
  · have hbefore : (i : ℤ) < maxRounds config limits ↔ (i : ℤ) < maxRounds config limits - 1 := by
      omega
    simp [hend, hbefore, startsIteration, modelNode, costGuardNode, conditionNode, nodeLabel,
      eventLabel, iterationLabel]

theorem guards_debate {i : ℕ} (hi : (i : ℤ) < maxRounds config limits)
    (hend : (i : ℤ) ≠ maxRounds config limits - 1) :
    (compileDebate config model limits).Guards (.costGuard i) :=
  ⟨costGuardNode i (.respond i), mem_unrolled.mpr (.inr (.inl ⟨i, hi, by simp [hend]⟩)),
    guardsCost_costGuardNode⟩

theorem limited_debate (h : 1 ≤ limits.maxIterations) :
    Limited ((compileDebate config model limits).ir workflowId version) limits.maxIterations := by
  have hrounds : maxRounds config limits ≤ limits.maxIterations := min_le_right _ _
  refine limited_of_guarded
    (.propose :: (List.range (maxRounds config limits - 1).toNat).map .respond) (fun _ => False)
    nodup_debate ranked_debate ?_ (fun id hid => ?_) ?_ fun a b hleads hb => ?_
  · refine forall_mem_unrolled.mpr ⟨by simp [guardsCost_modelNode], fun i hi => ?_,
      fun entry hentry _ => guardsCost_lastNodes entry hentry⟩
    by_cases hend : (i : ℤ) = maxRounds config limits - 1 <;>
      simp [hend, guardsCost_modelNode, startsIteration_costGuardNode, startsIteration_gate]
  · rcases iterates_debate.mp hid with rfl | ⟨i, hi, rfl⟩
    · exact List.mem_cons_self
    · exact List.mem_cons_of_mem _ (List.mem_map_of_mem (List.mem_range.mpr (by omega)))
  · simp only [List.length_cons, List.length_map, List.length_range]
    omega
  · rcases leads_debate.mp hleads with ⟨rfl, rfl⟩ | ⟨j, hj, hturn⟩ | ⟨rfl, rfl⟩ | ⟨rfl, rfl⟩
    · simp [iterates_debate] at hb
    · rcases hturn with ⟨rfl, rfl⟩ | ⟨-, rfl, rfl⟩ | ⟨hend, ⟨rfl, rfl⟩ | ⟨rfl, rfl | rfl⟩ | ⟨rfl, -⟩ |
        ⟨rfl, rfl⟩⟩
      · simp [iterates_debate] at hb
      · simp [iterates_debate] at hb
      · simp [iterates_debate] at hb
      · simp [iterates_debate] at hb
      · simp [iterates_debate] at hb
      · exact .inl (guards_debate hj hend)
      · simp [iterates_debate] at hb
    · simp [iterates_debate] at hb
    · simp [iterates_debate] at hb

end Debate

section ReviseLoop

variable {first : StrategyId} {judge gate : ℕ → StrategyId} {rounds : ℤ}
  {firstNode word judgeLabel gateLabel judgeModel : String}

theorem iterates_reviseLoop : (reviseLoop first firstNode judge gate word judgeLabel gateLabel
      judgeModel model rounds).Iterates id ↔
    id = first ∨ ∃ i : ℕ, (i : ℤ) < rounds - 1 ∧ id = .revise i := by
  have hlast : ¬ ∃ entry ∈ lastNodes model, id = entry.1 ∧ startsIteration entry.2.labels :=
    not_iterates_lastNodes
  rw [iterates_unrolled rfl, or_iff_left hlast]
  refine or_congr (by simp [startsIteration, modelNode]) (exists_congr fun i => ?_)
  by_cases hend : (i : ℤ) = rounds - 1
  · simp [hend, startsIteration, modelNode, nodeLabel, eventLabel, iterationLabel]
  · have hbefore : (i : ℤ) < rounds ↔ (i : ℤ) < rounds - 1 := by omega
    simp [hend, hbefore, startsIteration, modelNode, conditionNode, nodeLabel, eventLabel,
      iterationLabel]

theorem guardsCost_reviseLoop : ∀ entry ∈ (reviseLoop first firstNode judge gate word judgeLabel
    gateLabel judgeModel model rounds).nodes, guardsCost entry.2.kind = false := by
  refine forall_mem_unrolled.mpr ⟨by simp [guardsCost_modelNode], fun i hi => ?_,
    guardsCost_lastNodes⟩
  by_cases hend : (i : ℤ) = rounds - 1 <;> simp [hend, guardsCost_modelNode, guardsCost_gate]

theorem limited_reviseLoop (h : JudgeNames first judge gate) (hrounds : rounds ≤ 1)
    {maxIterations : ℤ} (hiterations : 1 ≤ maxIterations) :
    Limited ((reviseLoop first firstNode judge gate word judgeLabel gateLabel judgeModel model
      rounds).ir workflowId version) maxIterations := by
  have honly : ∀ id, (reviseLoop first firstNode judge gate word judgeLabel gateLabel judgeModel model
      rounds).Iterates id → id = first := by
    intro id hid
    rcases iterates_reviseLoop.mp hid with rfl | ⟨i, hi, -⟩
    · rfl
    · omega
  refine limited_of_guarded [first] (fun _ => False) (nodup_reviseLoop h) (ranked_reviseLoop h)
    (fun entry hentry _ => guardsCost_reviseLoop entry hentry)
    (fun id hid => List.mem_singleton.mpr (honly id hid)) ?_ fun a b hleads hb => ?_
  · simp only [List.length_singleton]
    omega
  · have hup := ranked_reviseLoop h a b hleads
    rw [honly b (hb.resolve_right id), h.first] at hup
    omega

theorem exists_rest_reviseLoop {c : Compiled} (hc : c = reviseLoop first firstNode judge gate word
      judgeLabel gateLabel judgeModel model rounds) (hrounds : 2 ≤ rounds) :
    ∃ rest, (judge 1 :: rest).IsChain c.Leads ∧ (judge 1 :: rest).getLast? = some .stop := by
  have hstop : c.Leads .finalize .stop := hc ▸ leads_reviseLoop.mpr (.inr (.inr (.inl ⟨rfl, rfl⟩)))
  by_cases hend : ((1 : ℕ) : ℤ) = rounds - 1
  · have hjudge : c.Leads (judge 1) .finalize :=
      hc ▸ leads_reviseLoop.mpr (.inr (.inl ⟨1, by omega, .inl ⟨hend, rfl, rfl⟩⟩))
    exact ⟨[.finalize, .stop], by simp [hjudge, hstop], rfl⟩
  · have hjudge : c.Leads (judge 1) (gate 1) :=
      hc ▸ leads_reviseLoop.mpr (.inr (.inl ⟨1, by omega, .inr ⟨hend, .inl ⟨rfl, rfl⟩⟩⟩))
    have hgate : c.Leads (gate 1) .finalize :=
      hc ▸ leads_reviseLoop.mpr (.inr (.inl ⟨1, by omega, .inr ⟨hend, .inr (.inl ⟨rfl, .inl rfl⟩)⟩⟩))
    exact ⟨[gate 1, .finalize, .stop], by simp [hjudge, hgate, hstop], rfl⟩

/-- With a second judgement, the first answer and its revision have no cost guard between them. -/
theorem not_limited_reviseLoop {c : Compiled} (hc : c = reviseLoop first firstNode judge gate word
      judgeLabel gateLabel judgeModel model rounds) (h : JudgeNames first judge gate)
    (hrounds : 2 ≤ rounds) {maxIterations : ℤ} :
    ¬ Limited (c.ir workflowId version) maxIterations := by
  intro hlimited
  have hnodup : c.names.Nodup := hc ▸ nodup_reviseLoop h
  have hiterates : ∀ id, c.Iterates id ↔ id = first ∨ ∃ i : ℕ, (i : ℤ) < rounds - 1 ∧ id = .revise i :=
    fun id => hc ▸ iterates_reviseLoop
  have hnot : ∀ id, ¬ c.Guards id := by
    rintro id ⟨node, hnode, hkind⟩
    have hplain : guardsCost node.kind = false := guardsCost_reviseLoop (id, node) (hc ▸ hnode)
    rw [hplain] at hkind
    cases hkind
  obtain ⟨rest, hchain, hlast⟩ := exists_rest_reviseLoop hc hrounds
  have hfirst : c.Leads first (judge 0) := hc ▸ leads_reviseLoop.mpr (.inl ⟨rfl, rfl⟩)
  have hturn : ∀ a b, (a = judge 0 ∧ b = gate 0) ∨ (a = gate 0 ∧ (b = .finalize ∨ b = .revise 0)) ∨
      (a = .revise 0 ∧ b = judge (0 + 1)) → c.Leads a b := fun a b hab =>
    hc ▸ leads_reviseLoop.mpr (.inr (.inl ⟨0, by omega, .inr ⟨by omega, hab⟩⟩))
  have hstart : c.startNode = first := hc ▸ rfl
  have hpath : Path (c.ir workflowId version)
      ((c.startNode :: judge 0 :: gate 0 :: .revise 0 :: judge 1 :: rest).map StrategyId.text) := by
    refine path_of_names ?_ ?_
    · rw [hstart]
      refine .cons_cons hfirst (.cons_cons (hturn _ _ (.inl ⟨rfl, rfl⟩)) (.cons_cons
        (hturn _ _ (.inr (.inl ⟨rfl, .inr rfl⟩))) (.cons_cons ?_ hchain)))
      exact hturn _ _ (.inr (.inr ⟨rfl, rfl⟩))
    · simpa [List.getLast?_cons_cons] using hlast
  have hbetween : ∀ id ∈ [(judge 0).text, (gate 0).text],
      ¬ iterates (c.ir workflowId version) id := by
    simp only [List.mem_cons, List.not_mem_nil, or_false]
    rintro id (rfl | rfl) hid
    · rcases (hiterates _).mp ((iterates_text hnodup).mp hid) with heq | ⟨i, -, heq⟩
      · exact ne_of_rank 0 (by rw [h.judge, h.first]; omega) heq
      · exact ne_of_rank 0 (by rw [h.judge]; simp only [rank]; omega) heq
    · rcases (hiterates _).mp ((iterates_text hnodup).mp hid) with heq | ⟨i, -, heq⟩
      · exact ne_of_rank 0 (by rw [h.gate, h.first]; omega) heq
      · exact ne_of_rank 0 (by rw [h.gate]; simp only [rank]; omega) heq
  obtain ⟨id, hid, hguard⟩ := hlimited.guarded _ hpath [] _ _ _ _ rfl
    ((iterates_text hnodup).mpr ((hiterates _).mpr (.inl hstart)))
    ((iterates_text hnodup).mpr ((hiterates _).mpr (.inr ⟨0, by omega, rfl⟩))) hbetween
  simp only [List.mem_cons, List.not_mem_nil, or_false] at hid
  rcases hid with rfl | rfl <;> exact hnot _ ((guards_text hnodup).mp hguard)

end ReviseLoop

/-- Exactly so long as no revision follows a judgement, and the agents are not more than the limit, a
compiled strategy keeps within its limits: `_compile_critic` and `_compile_reflection` write no cost
guard, and `_compile_consensus` does not bound its agents. -/
theorem compiled_limited_iff (strategyName : String) (config : StrategyConfig) (model : String)
    (limits : StrategyLimits) (workflowId version : String) (hlimits : limits.validate = .ok ()) :
    (∀ c, compileStrategy strategyName config model limits = .ok c →
      Limited (c.ir workflowId version) limits.maxIterations) ↔
    (strategyName = "critic" ∨ strategyName = "reflection" →
      config.maxRounds.getD 3 ≤ 1 ∨ limits.maxIterations ≤ 1) ∧
    (strategyName = "consensus" → config.numAgents.getD 3 ≤ limits.maxIterations + 1) := by
  have hiterations := maxIterations_of_validate hlimits
  have hrounds : maxRounds config limits ≤ 1 ↔
      config.maxRounds.getD 3 ≤ 1 ∨ limits.maxIterations ≤ 1 := min_le_iff
  simp only [compileStrategy_eq_ok hlimits]
  constructor
  · intro h
    constructor
    · intro hname
      rw [← hrounds]
      by_contra hmany
      rcases hname with rfl | rfl
      · exact not_limited_reviseLoop rfl judgeNames_critic (by omega)
          (h (compileCritic config model limits) (by simp))
      · exact not_limited_reviseLoop rfl judgeNames_reflection (by omega)
          (h (compileReflection config model limits) (by simp))
    · intro hname
      by_contra hmany
      exact not_limited_consensus rfl hiterations (by omega)
        (h (compileConsensus config model limits) (by simp [hname]))
  · rintro ⟨hjudged, hconsensus⟩ c
      (⟨hname, rfl⟩ | ⟨hname, rfl⟩ | ⟨hname, rfl⟩ | ⟨hname, rfl⟩ | ⟨hname, rfl⟩ | ⟨hname, rfl⟩)
    · exact limited_react hiterations
    · exact limited_planAndExecute hiterations
    · exact limited_reviseLoop judgeNames_critic (hrounds.mpr (hjudged (.inl hname))) hiterations
    · exact limited_reviseLoop judgeNames_reflection (hrounds.mpr (hjudged (.inr hname))) hiterations
    · exact limited_consensus hiterations (hconsensus hname)
    · exact limited_debate hiterations

theorem compiled_limited_debate : ∃ c, compileStrategy "debate" {} "m" tenTurns = .ok c ∧
    Limited (c.ir "w" "1.0.0") tenTurns.maxIterations :=
  ⟨_, rfl, (compiled_limited_iff "debate" {} "m" tenTurns "w" "1.0.0" rfl).mpr
    ⟨by decide, by decide⟩ _ rfl⟩

/-- A reflection of three rounds revises with no cost guard, and twelve agents exceed ten turns. -/
theorem reflection_and_consensus_not_limited : tenTurns.validate = .ok () ∧
    (∃ c, compileStrategy "reflection" {} "m" tenTurns = .ok c ∧
      ¬ Limited (c.ir "w" "1.0.0") tenTurns.maxIterations) ∧
    ∃ c, compileStrategy "consensus" { numAgents := some 12 } "m" tenTurns = .ok c ∧
      ¬ Limited (c.ir "w" "1.0.0") tenTurns.maxIterations :=
  ⟨rfl, ⟨_, rfl, not_limited_reviseLoop rfl judgeNames_reflection (by decide)⟩,
    ⟨_, rfl, not_limited_consensus rfl (by decide) (by decide)⟩⟩

end JamJet.Strategies
