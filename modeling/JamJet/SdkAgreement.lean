import JamJet.SdkStrategies
import JamJet.StrategyLoops

/-! When the Java and the Python strategy compilers write the same graph. -/

namespace JamJet.Strategies

theorem unrolled_congr {α : Type} {first first' : List α} {turn turn' : ℕ → List α}
    (hfirst : first = first') (hturn : ∀ i, turn i = turn' i) (n : ℤ) (last : List α) :
    unrolled first n turn last = unrolled first' n turn' last := by
  rw [hfirst, funext hturn]

theorem unrolled_of_nonpos {α : Type} {n : ℤ} (h : n ≤ 0) (first : List α) (turn : ℕ → List α)
    (last : List α) : unrolled first n turn last = first ++ last := by
  simp [unrolled, Int.toNat_of_nonpos h]

theorem length_unrolled {α : Type} (first : List α) (n : ℤ) {turn : ℕ → List α} {k : ℕ}
    (hturn : ∀ i, (turn i).length = k) (last : List α) :
    (unrolled first n turn last).length = first.length + n.toNat * k + last.length := by
  simp [unrolled, List.length_flatMap, hturn, Nat.add_assoc]

theorem length_unrolled_last {α : Type} (first : List α) (n : ℤ) {turn : ℕ → List α}
    (hturn : ∀ i : ℕ, (turn i).length = if (i : ℤ) = n - 1 then 1 else 4) (last : List α) :
    (unrolled first n turn last).length =
      first.length + (if n.toNat = 0 then 0 else 4 * n.toNat - 3) + last.length := by
  cases hn : n.toNat with
  | zero => simp [unrolled, hn]
  | succ m =>
    have hlast : (turn m).length = 1 := by
      rw [hturn, if_pos (by omega)]
    have hrest : ∀ i ∈ List.range m, (turn i).length = 4 := by
      intro i hi
      have hlt := List.mem_range.mp hi
      rw [hturn, if_neg (by omega)]
    have hsum : ((List.range m).flatMap turn).length = m * 4 := by
      rw [List.length_flatMap, List.map_congr_left hrest]
      simp
    simp only [unrolled, hn, List.range_succ, List.flatMap_append, List.flatMap_cons,
      List.flatMap_nil, List.append_nil, List.length_append, hsum, hlast, Nat.succ_ne_zero,
      if_false]
    omega

/-! The graphs without their prompts are those the Python compilers were already said to write. -/

/-- What a strategy compiler writes, without its prompts, output keys and descriptions. -/
structure Outline where
  nodes : List (String × StrategyNode)
  edges : List GraphEdge
  startNode : String

def GraphKind.outline : GraphKind → Ir.NodeKind
  | .model modelRef _ _ systemPrompt => .model modelRef systemPrompt []
  | .condition branches _ =>
      .condition (branches.map fun branch => ⟨branch.1, branch.2⟩)
  | .limitExceeded _ => .limitExceeded

def GraphNode.outline (node : GraphNode) : StrategyNode where
  kind := node.kind.outline
  retryPolicy := node.retryPolicy
  labels := node.labels

def StrategyGraph.outline (graph : StrategyGraph) : Outline where
  nodes := graph.nodes.map fun (id, node) => (id, node.outline)
  edges := graph.edges
  startNode := graph.startNode

def StrategyEdge.named (edge : StrategyEdge) : GraphEdge :=
  ⟨edge.src.text, edge.dst.text, edge.condition⟩

def Compiled.outline (c : Compiled) : Outline where
  nodes := c.nodes.map fun (id, node) => (id.text, node)
  edges := c.edges.map StrategyEdge.named
  startNode := c.startNode.text

namespace Python

@[simp]
theorem outline_modelNode (model prompt outputKey : String) (systemPrompt : Option String)
    (labels : List (String × String)) :
    (modelNode model prompt outputKey systemPrompt labels).outline =
      Strategies.modelNode model systemPrompt labels := rfl

@[simp]
theorem outline_conditionNode (expression : String) (branches : List (Option String × StrategyId))
    (labels : List (String × String)) :
    (conditionNode expression (branches.map fun branch => (branch.1, branch.2.text))
      labels).outline = Strategies.conditionNode branches labels := by
  simp only [conditionNode, GraphNode.outline, GraphKind.outline, Strategies.conditionNode,
    List.map_map]
  rfl

@[simp]
theorem outline_limitExceededNode :
    limitExceededNode.outline = Strategies.limitExceededNode := rfl

theorem outline_costGuard (i : ℕ) {okTarget : StrategyId} {target : String}
    (htarget : target = okTarget.text) :
    (conditionNode "state.__cost_exceeded__ == true" (costGuardBranches target)
      [("jamjet.strategy.node", "cost_guard"),
        ("jamjet.strategy.iteration", toString i)]).outline = costGuardNode i okTarget := by
  have hlimit : StrategyId.limitExceeded.text = "__limit_exceeded__" := by
    simp [StrategyId.text, StrategyId.stem]
  rw [costGuardNode, ← outline_conditionNode "state.__cost_exceeded__ == true"]
  simp only [costGuardBranches, Strategies.costGuardBranches, List.map_cons, List.map_nil, hlimit,
    htarget]
  rfl

@[simp]
theorem named_edge (src dst : StrategyId) (condition : Option String) :
    (Strategies.edge src dst condition).named = edge src.text dst.text condition := rfl

theorem outline_finalize (model prompt : String) :
    (finalize model prompt).map (fun (id, node) => (id, node.outline)) =
      (lastNodes model).map fun (id, node) => (id.text, node) := by
  simp [finalize, lastNodes, StrategyId.text, StrategyId.stem, nodeLabel, eventLabel]

theorem named_lastEdges : lastEdges.map StrategyEdge.named = finalizeEdges := by
  simp [lastEdges, finalizeEdges, StrategyId.text, StrategyId.stem]

theorem verdictIs_critic (i : ℕ) : verdictIs "critic" i "verdict" "passed" =
    some ("state.__critic_" ++ toString i ++ "_verdict__.passed == true") := by
  simp [verdictIs, ← String.toList_inj]

theorem outline_compileReact (config : SdkConfig) (tools : List String) (model : String)
    (limits : StrategyLimits) (goal : String) :
    (compileReact config tools model limits goal).outline =
      (Strategies.compileReact config.toStrategyConfig model limits).outline := by
  simp only [StrategyGraph.outline, Compiled.outline, compileReact, Strategies.compileReact,
    map_unrolled, outline_finalize, named_lastEdges, Outline.mk.injEq]
  refine ⟨unrolled_congr rfl (fun i => ?_) _ _, unrolled_congr rfl (fun i => ?_) _ _, ?_⟩
  · split
    all_goals
      simp [StrategyId.text, StrategyId.stem, nodeLabel, eventLabel, iterationLabel]
      exact outline_costGuard i (by simp [StrategyId.text, StrategyId.stem])
  · split <;> simp [StrategyId.text, StrategyId.stem, costExceeded]
  · decide +kernel

theorem outline_compilePlanAndExecute (config : SdkConfig) (tools : List String) (model : String)
    (limits : StrategyLimits) (goal : String) :
    (compilePlanAndExecute config tools model limits goal).outline =
      (Strategies.compilePlanAndExecute config.toStrategyConfig model limits).outline := by
  simp only [StrategyGraph.outline, Compiled.outline, compilePlanAndExecute,
    Strategies.compilePlanAndExecute, map_unrolled, outline_finalize, named_lastEdges,
    Outline.mk.injEq]
  refine ⟨unrolled_congr ?_ (fun i => ?_) _ _, unrolled_congr ?_ (fun i => ?_) _ _, ?_⟩
  · simp [StrategyId.text, StrategyId.stem, nodeLabel, eventLabel]
  · cases config.verifier
    all_goals
      simp [StrategyId.text, StrategyId.stem, nodeLabel, eventLabel, iterationLabel]
      exact outline_costGuard i (by simp [StrategyId.text, StrategyId.stem])
  · decide +kernel
  · cases config.verifier
    all_goals
      by_cases hi : (i : ℤ) < limits.maxIterations - 1 <;>
        simp [StrategyId.text, StrategyId.stem, costExceeded, hi]
  · simp [StrategyId.text, StrategyId.stem]

theorem outline_compileCritic (spell : F64 → String) (config : SdkConfig) (model : String)
    (limits : StrategyLimits) (goal : String) :
    (compileCritic spell config model limits goal).outline =
      (Strategies.compileCritic config.toStrategyConfig model limits).outline := by
  simp only [StrategyGraph.outline, Compiled.outline, compileCritic, Strategies.compileCritic,
    reviseLoop, maxRounds, map_unrolled, outline_finalize, named_lastEdges, Outline.mk.injEq]
  refine ⟨unrolled_congr ?_ (fun i => ?_) _ _, unrolled_congr ?_ (fun i => ?_) _ _, ?_⟩
  · simp [StrategyId.text, StrategyId.stem, nodeLabel, eventLabel]
  · by_cases hlast : (i : ℤ) = min (config.maxRounds.getD 3) limits.maxIterations - 1
    · simp [StrategyId.text, StrategyId.stem, nodeLabel, eventLabel, iterationLabel, hlast]
    · have hgate := outline_conditionNode
        ("state.__critic_" ++ toString i ++ "_verdict__.passed == true")
        [(verdictIs "critic" i "verdict" "passed", .finalize), (none, .revise i)]
        [nodeLabel "critic_gate", iterationLabel i]
      simp [StrategyId.text, StrategyId.stem, nodeLabel, eventLabel, iterationLabel,
        verdictIs_critic, hlast] at hgate ⊢
      exact hgate
  · decide +kernel
  · by_cases hlast : (i : ℤ) = min (config.maxRounds.getD 3) limits.maxIterations - 1 <;>
      simp [StrategyId.text, StrategyId.stem, verdictIs_critic, hlast]
  · simp [StrategyId.text, StrategyId.stem]

end Python

/-- The graph the Python compiler was said to write is this one without its prompts. -/
theorem outline_compileStrategy (spell : F64 → String) (strategy : SharedStrategy)
    (config : SdkConfig) (tools : List String) (model : String) (limits : StrategyLimits)
    (goal : String) :
    (Python.compileStrategy spell strategy config tools model limits goal).map
        StrategyGraph.outline =
      (compileStrategy strategy.name config.toStrategyConfig model limits).map
        Compiled.outline := by
  unfold Python.compileStrategy compileStrategy
  cases limits.validate with
  | error message => cases strategy <;> rfl
  | ok _ =>
    cases strategy with
    | react => exact congrArg Except.ok (Python.outline_compileReact config tools model limits goal)
    | planAndExecute =>
      exact congrArg Except.ok (Python.outline_compilePlanAndExecute config tools model limits goal)
    | critic =>
      exact congrArg Except.ok (Python.outline_compileCritic spell config model limits goal)

/-! The two compilers. -/

theorem toolsList_eq (tools : List String) : Java.toolsList tools = Python.toolsList tools := by
  cases tools <;> rfl

theorem compilePlan_eq_compileReact (config : SdkConfig) (tools : List String) (model : String)
    (limits : JavaLimits) (goal : String) :
    Java.compilePlan config tools model limits.maxIterations goal =
      Python.compileReact config tools model limits.strategyLimits goal := by
  simp only [Java.compilePlan, toolsList_eq]
  rfl

theorem compilePlanAndExecute_eq {config : SdkConfig} (h : config.verifierModel ≠ some "")
    (tools : List String) (model : String) (limits : JavaLimits) (goal : String) :
    Java.compilePlanAndExecute config tools model limits.maxIterations goal =
      Python.compilePlanAndExecute config tools model limits.strategyLimits goal := by
  cases hmodel : config.verifierModel with
  | none =>
    have hverifier : config.verifier = none := by simp [StrategyConfig.verifier, hmodel]
    simp only [Java.compilePlanAndExecute, Python.compilePlanAndExecute, toolsList_eq, hmodel,
      hverifier]
    rfl
  | some verifier =>
    have hverifier : config.verifier = some verifier := by
      have hname : verifier ≠ "" := fun hname => h (by rw [hmodel, hname])
      simp [StrategyConfig.verifier, hmodel, hname]
    simp only [Java.compilePlanAndExecute, Python.compilePlanAndExecute, toolsList_eq, hmodel,
      hverifier]
    rfl

theorem length_edges_verified {config : SdkConfig} (h : config.verifierModel = some "")
    (tools : List String) (model : String) (limits : JavaLimits) (goal : String) :
    (Java.compilePlanAndExecute config tools model limits.maxIterations goal).edges.length =
        3 + limits.maxIterations.toInt.toNat * 4 ∧
      (Python.compilePlanAndExecute config tools model limits.strategyLimits goal).edges.length =
        3 + limits.maxIterations.toInt.toNat * 3 := by
  have hverifier : config.verifier = none := by simp [StrategyConfig.verifier, h]
  simp only [Java.compilePlanAndExecute, Python.compilePlanAndExecute, h, hverifier]
  constructor
  · refine (length_unrolled _ _ (k := 4) (fun i => rfl) _).trans ?_
    simp [Java.finalizeEdges]
    omega
  · refine (length_unrolled _ _ (k := 3) (fun i => rfl) _).trans ?_
    simp [Python.finalizeEdges, JavaLimits.strategyLimits]
    omega

/-- The rounds of the Python critic. -/
def Python.rounds (config : SdkConfig) (limits : JavaLimits) : ℤ :=
  min (config.maxRounds.getD 3) limits.maxIterations.toInt

/-- The rounds of the Java critic. -/
def Java.rounds (config : SdkConfig) (limits : JavaLimits) : ℤ :=
  min ((config.maxRounds.map intValue).getD 3).toInt limits.maxIterations.toInt

theorem compileCritic_eq_iff (spell : F64 → String) (config : SdkConfig) (model : String)
    (limits : JavaLimits) (goal : String) :
    Java.compileCritic spell config model limits.maxIterations goal =
        Python.compileCritic spell config model limits.strategyLimits goal ↔
      (Java.rounds config limits).toNat = (Python.rounds config limits).toNat := by
  have hjava : (Java.compileCritic spell config model limits.maxIterations goal).edges.length =
      3 + (if (Java.rounds config limits).toNat = 0 then 0
        else 4 * (Java.rounds config limits).toNat - 3) := by
    simp only [Java.compileCritic]
    rw [length_unrolled_last]
    · simp [Java.finalizeEdges, Java.rounds]
      omega
    · intro i
      split <;> rfl
  have hpython : (Python.compileCritic spell config model limits.strategyLimits goal).edges.length =
      3 + (if (Python.rounds config limits).toNat = 0 then 0
        else 4 * (Python.rounds config limits).toNat - 3) := by
    simp only [Python.compileCritic]
    rw [length_unrolled_last]
    · simp [Python.finalizeEdges, Python.rounds, JavaLimits.strategyLimits]
      omega
    · intro i
      split <;> rfl
  constructor
  · intro h
    have hlength := congrArg (fun graph => graph.edges.length) h
    simp only [hjava, hpython] at hlength
    split at hlength <;> split at hlength <;> omega
  · intro h
    by_cases hpos : Java.rounds config limits = Python.rounds config limits
    · simp only [Java.rounds, Python.rounds] at hpos
      simp only [Java.compileCritic, Python.compileCritic, JavaLimits.strategyLimits, hpos]
      rfl
    · -- below the first round there is nothing to unroll
      have hj : Java.rounds config limits ≤ 0 := by omega
      have hp : Python.rounds config limits ≤ 0 := by omega
      simp only [Java.rounds, Python.rounds] at hj hp
      simp only [Java.compileCritic, Python.compileCritic, JavaLimits.strategyLimits,
        unrolled_of_nonpos hj, unrolled_of_nonpos hp]
      rfl

/-- `max_rounds` counts the same rounds, below `n`, when its low 32 bits are read as an `int`. -/
def KeepsRounds (r : ℤ) (n : Int32) : Prop :=
  (-2 ^ 31 ≤ r ∧ r < 2 ^ 31) ∨ (2 ^ 31 ≤ r ∧ n.toInt ≤ (Java.intValue r).toInt) ∨
    (r < -2 ^ 31 ∧ (Java.intValue r).toInt ≤ 0)

/-- The configurations both compilers read alike. -/
def ReadAlike (strategy : SharedStrategy) (config : SdkConfig) (n : Int32) : Prop :=
  (strategy = .planAndExecute → config.verifierModel ≠ some "") ∧
    (strategy = .critic → ∀ r, config.maxRounds = some r → KeepsRounds r n)

theorem rounds_toNat_iff {config : SdkConfig} {limits : JavaLimits}
    (h : 1 ≤ limits.maxIterations.toInt) :
    (Java.rounds config limits).toNat = (Python.rounds config limits).toNat ↔
      ∀ r, config.maxRounds = some r → KeepsRounds r limits.maxIterations := by
  have hmax : limits.maxIterations.toInt < 2 ^ 31 := Int32.toInt_lt _
  cases hr : config.maxRounds with
  | none => simp [Java.rounds, Python.rounds, hr]
  | some r =>
    have hlow := Int32.le_toInt (Java.intValue r)
    have hhigh := Int32.toInt_lt (Java.intValue r)
    have hfits : -2 ^ 31 ≤ r → r < 2 ^ 31 → (Java.intValue r).toInt = r :=
      fun h₁ h₂ => Int32.toInt_ofInt_of_le h₁ h₂
    simp only [Java.rounds, Python.rounds, hr, Option.map_some, Option.getD_some, KeepsRounds,
      Option.some.injEq, forall_eq']
    omega

theorem validateLimits_eq_ok {limits : JavaLimits} (h : limits.strategyLimits.validate = .ok ()) :
    Java.validateLimits limits = .ok () ∧ 1 ≤ limits.maxIterations.toInt := by
  have hlt : ∀ a : Int32, a < 1 ↔ a.toInt < 1 := fun a => Int32.lt_iff_toInt_lt
  simp only [StrategyLimits.validate, JavaLimits.strategyLimits] at h
  simp only [Java.validateLimits, hlt]
  by_cases hmax : limits.maxIterations.toInt < 1
  · simp [hmax] at h
  · by_cases hcost : limits.maxCostUsd.nonPositive = true
    · simp [hmax, hcost] at h
    · by_cases htime : limits.timeoutSeconds.toInt < 1
      · simp [hmax, hcost, htime] at h
      · exact ⟨by simp [hmax, hcost, htime], by omega⟩

/-- Both compilers return, and the same graph, exactly on the configurations they read alike. -/
theorem same_graph_iff (spell : F64 → String) (strategy : SharedStrategy) (config : SdkConfig)
    (tools : List String) (model : String) (limits : JavaLimits) (goal : String)
    (hlimits : limits.strategyLimits.validate = .ok ()) :
    (∃ graph,
      Java.compile spell strategy.name config tools model limits goal = .ok graph ∧
      Python.compileStrategy spell strategy config tools model limits.strategyLimits goal =
        .ok graph) ↔ ReadAlike strategy config limits.maxIterations := by
  obtain ⟨hjava, hmax⟩ := validateLimits_eq_ok hlimits
  have hsame : ∀ a b : StrategyGraph,
      (∃ graph, (Except.ok a : Except String StrategyGraph) = .ok graph ∧
        (Except.ok b : Except String StrategyGraph) = .ok graph) ↔ a = b := by
    intro a b
    constructor
    · rintro ⟨graph, ha, hb⟩
      cases ha
      cases hb
      rfl
    · rintro rfl
      exact ⟨a, rfl, rfl⟩
  unfold Java.compile Python.compileStrategy
  rw [hjava, hlimits]
  cases strategy with
  | react =>
    refine (hsame _ _).trans ?_
    simp [ReadAlike, compilePlan_eq_compileReact]
  | planAndExecute =>
    refine (hsame _ _).trans ?_
    simp only [ReadAlike, true_implies, reduceCtorEq, false_implies, and_true]
    constructor
    · intro h hempty
      have hlength := length_edges_verified hempty tools model limits goal
      rw [h] at hlength
      omega
    · exact fun h => compilePlanAndExecute_eq h tools model limits goal
  | critic =>
    refine (hsame _ _).trans ?_
    simp only [ReadAlike, true_implies, reduceCtorEq, false_implies, true_and]
    exact (compileCritic_eq_iff spell config model limits goal).trans (rounds_toNat_iff hmax)

/-- One iteration, a dollar and a minute. -/
def oneTurn : JavaLimits := ⟨1, 0x3ff0000000000000, 60⟩

theorem same_graph_verified : ∃ graph,
    Java.compile (fun _ => "0.8") "plan-and-execute" { verifierModel := some "v" } ["search"] "m"
        oneTurn "g" = .ok graph ∧
      Python.compileStrategy (fun _ => "0.8") .planAndExecute { verifierModel := some "v" }
        ["search"] "m" oneTurn.strategyLimits "g" = .ok graph :=
  (same_graph_iff (fun _ => "0.8") .planAndExecute { verifierModel := some "v" } ["search"] "m"
    oneTurn "g" rfl).mpr ⟨fun _ => by simp, fun h => by cases h⟩

/-- An empty verifier model is a verifier in Java and none in Python, and `max_rounds` past the
ints wraps in Java only. -/
theorem empty_verifier_and_wrapped_rounds_differ :
    oneTurn.strategyLimits.validate = .ok () ∧
    (¬ ∃ graph,
      Java.compile (fun _ => "0.8") "plan-and-execute" { verifierModel := some "" } [] "m" oneTurn
          "g" = .ok graph ∧
        Python.compileStrategy (fun _ => "0.8") .planAndExecute { verifierModel := some "" } [] "m"
          oneTurn.strategyLimits "g" = .ok graph) ∧
    ¬ ∃ graph,
      Java.compile (fun _ => "0.8") "critic" { maxRounds := some (2 ^ 32) } [] "m" oneTurn "g" =
          .ok graph ∧
        Python.compileStrategy (fun _ => "0.8") .critic { maxRounds := some (2 ^ 32) } [] "m"
          oneTurn.strategyLimits "g" = .ok graph := by
  refine ⟨rfl, ?_, ?_⟩
  · rintro ⟨graph, hjava, hpython⟩
    have hseven : Except.ok 7 =
        (Except.ok graph : Except String StrategyGraph).map (·.edges.length) :=
      hjava ▸ rfl
    have hsix : Except.ok 6 =
        (Except.ok graph : Except String StrategyGraph).map (·.edges.length) :=
      hpython ▸ rfl
    rw [← hseven] at hsix
    cases hsix
  · rintro ⟨graph, hjava, hpython⟩
    have hthree : Except.ok 3 =
        (Except.ok graph : Except String StrategyGraph).map (·.edges.length) :=
      hjava ▸ rfl
    have hfour : Except.ok 4 =
        (Except.ok graph : Except String StrategyGraph).map (·.edges.length) :=
      hpython ▸ rfl
    rw [← hthree] at hfour
    cases hfour

end JamJet.Strategies
