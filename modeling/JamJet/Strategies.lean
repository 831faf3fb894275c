import JamJet.Ir

/-! The strategy compilers: each unrolls a reasoning strategy into nodes and edges.  Of the nodes
they write, the prompts and descriptions are left out. -/

namespace JamJet.Strategies

/-- The names of the generated nodes, and the end of the graph. -/
inductive StrategyId
  | plan
  | step (i : ℕ)
  | verify (i : ℕ)
  | think (i : ℕ)
  | observe (i : ℕ)
  | reactGuard (i : ℕ)
  | draft
  | critic (i : ℕ)
  | criticGate (i : ℕ)
  | revise (i : ℕ)
  | execute
  | reflect (i : ℕ)
  | reflectGate (i : ℕ)
  | agent (i : ℕ)
  | vote
  | judge
  | propose
  | counter (i : ℕ)
  | judgeRound (i : ℕ)
  | judgeGate (i : ℕ)
  | respond (i : ℕ)
  | costGuard (i : ℕ)
  | finalize
  | limitExceeded
  | stop
  deriving DecidableEq, Repr

namespace StrategyId

/-- The word a name is built from, and its number. -/
def stem : StrategyId → String × Option ℕ
  | plan => ("plan", none)
  | step i => ("step", some i)
  | verify i => ("verify", some i)
  | think i => ("think", some i)
  | observe i => ("observe", some i)
  | reactGuard i => ("react_guard", some i)
  | draft => ("draft", none)
  | critic i => ("critic", some i)
  | criticGate i => ("critic_gate", some i)
  | revise i => ("revise", some i)
  | execute => ("execute", none)
  | reflect i => ("reflect", some i)
  | reflectGate i => ("reflect_gate", some i)
  | agent i => ("agent", some i)
  | vote => ("vote", none)
  | judge => ("judge", none)
  | propose => ("propose", none)
  | counter i => ("counter", some i)
  | judgeRound i => ("judge", some i)
  | judgeGate i => ("judge_gate", some i)
  | respond i => ("respond", some i)
  | costGuard i => ("cost_guard", some i)
  | finalize => ("finalize", none)
  | limitExceeded => ("limit_exceeded", none)
  | stop => ("end", none)

/-- `__word__` or `__word_i__`; the end of the graph is `end`. -/
def text (id : StrategyId) : NodeId :=
  match id, id.stem with
  | stop, (word, _) => word
  | _, (word, none) => "__" ++ word ++ "__"
  | _, (word, some i) => "__" ++ word ++ "_" ++ toString i ++ "__"

end StrategyId

/-- The bits of a double. -/
abbrev F64 := BitVec 64

/-- `x <= 0`; nothing compares with a NaN. -/
def F64.nonPositive (x : F64) : Bool :=
  !(x.extractLsb' 52 11 = 0x7ff && x.extractLsb' 0 52 ≠ 0) && (x.msb || x = 0)

structure StrategyLimits where
  maxIterations : ℤ
  maxCostUsd : F64
  timeoutSeconds : ℤ

def StrategyLimits.validate (limits : StrategyLimits) : Except String Unit :=
  if limits.maxIterations < 1 then .error "max_iterations must be >= 1"
  else if limits.maxCostUsd.nonPositive then .error "max_cost_usd must be > 0"
  else if limits.timeoutSeconds < 1 then .error "timeout_seconds must be >= 1"
  else .ok ()

/-- The keys of a strategy's configuration that shape its graph. -/
structure StrategyConfig where
  verifierModel : Option String := none
  criticModel : Option String := none
  judgeModel : Option String := none
  maxRounds : Option ℤ := none
  numAgents : Option ℤ := none

structure StrategyNode where
  kind : Ir.NodeKind
  retryPolicy : Option String
  labels : List (String × String)

structure StrategyEdge where
  src : StrategyId
  dst : StrategyId
  condition : Option String
  deriving DecidableEq

/-- What a compiler returns; the nodes in the order they are written. -/
structure Compiled where
  nodes : List (StrategyId × StrategyNode)
  edges : List StrategyEdge
  startNode : StrategyId

def modelNode (model : String) (systemPrompt : Option String) (labels : List (String × String)) :
    StrategyNode where
  kind := .model model systemPrompt []
  retryPolicy := some "llm_default"
  labels := labels

def conditionNode (branches : List (Option String × StrategyId)) (labels : List (String × String)) :
    StrategyNode where
  kind := .condition (branches.map fun (condition, target) => ⟨condition, target.text⟩)
  retryPolicy := none
  labels := labels

def limitExceededNode : StrategyNode where
  kind := .limitExceeded
  retryPolicy := none
  labels := [("jamjet.strategy.limit", "true")]

def edge (src dst : StrategyId) (condition : Option String := none) : StrategyEdge :=
  ⟨src, dst, condition⟩

def costGuardBranches (okTarget : StrategyId) : List (Option String × StrategyId) :=
  [(some "state.__cost_exceeded__", .limitExceeded), (none, okTarget)]

/-- The condition on the edge from a cost guard to the limit. -/
def costExceeded : Option String := some "state.__cost_exceeded__ == true"

def nodeLabel (node : String) : String × String := ("jamjet.strategy.node", node)

def eventLabel (event : String) : String × String := ("jamjet.strategy.event", event)

def iterationLabel (i : ℕ) : String × String := ("jamjet.strategy.iteration", toString i)

def costGuardNode (i : ℕ) (okTarget : StrategyId) : StrategyNode :=
  conditionNode (costGuardBranches okTarget) [nodeLabel "cost_guard", iterationLabel i]

/-- The nodes every compiler ends with. -/
def lastNodes (model : String) : List (StrategyId × StrategyNode) :=
  [(.finalize, modelNode model none [nodeLabel "finalizer", eventLabel "strategy_completed"]),
    (.limitExceeded, limitExceededNode)]

def lastEdges : List StrategyEdge := [edge .finalize .stop, edge .limitExceeded .stop]

/-- `config.get("verifier_model")`, where the empty name counts as none. -/
def StrategyConfig.verifier (config : StrategyConfig) : Option String :=
  config.verifierModel.filter fun model => !model.isEmpty

/-- `min(config.get("max_rounds", 3), limits.max_iterations)`. -/
def maxRounds (config : StrategyConfig) (limits : StrategyLimits) : ℤ :=
  min (config.maxRounds.getD 3) limits.maxIterations

/-- What a compiler writes before a loop over `range(n)`, in each turn of it, and after it. -/
def unrolled {α : Type} (first : List α) (n : ℤ) (turn : ℕ → List α) (last : List α) : List α :=
  first ++ (List.range n.toNat).flatMap turn ++ last

def compilePlanAndExecute (config : StrategyConfig) (model : String) (limits : StrategyLimits) :
    Compiled :=
  let n := limits.maxIterations
  let next (src : StrategyId) (i : ℕ) : StrategyEdge :=
    if (i : ℤ) < n - 1 then edge src (.costGuard (i + 1)) else edge src .finalize
  { nodes := unrolled
      [(.plan, modelNode model (some "You are a planning AI. Output valid JSON only.")
        [nodeLabel "plan_generation", eventLabel "plan_generated"])]
      n
      (fun i =>
        [(.costGuard i, costGuardNode i (.step i)),
          (.step i, modelNode model none
            [nodeLabel "step_executor", eventLabel "iteration_started", iterationLabel i])] ++
        (config.verifier.map fun verifier => (StrategyId.verify i, modelNode verifier none
          [nodeLabel "verifier", eventLabel "critic_verdict"])).toList)
      (lastNodes model)
    edges := unrolled
      [edge .plan (.costGuard 0)]
      n
      (fun i =>
        (if config.verifier.isSome then [edge (.step i) (.verify i), next (.verify i) i]
          else [next (.step i) i]) ++
        [edge (.costGuard i) .limitExceeded costExceeded, edge (.costGuard i) (.step i)])
      lastEdges
    startNode := .plan }

def compileReact (_config : StrategyConfig) (model : String) (limits : StrategyLimits) : Compiled :=
  let n := limits.maxIterations
  let okTarget (i : ℕ) : StrategyId := if (i : ℤ) < n - 1 then .observe i else .finalize
  { nodes := unrolled
      []
      n
      (fun i =>
        [(.think i, modelNode model none
            [nodeLabel "react_think", eventLabel "iteration_started", iterationLabel i]),
          (.reactGuard i, costGuardNode i (okTarget i))] ++
        if (i : ℤ) < n - 1 then
          [(.observe i, modelNode model none
            [nodeLabel "react_observe", eventLabel "tool_called", iterationLabel i])]
        else [])
      (lastNodes model)
    edges := unrolled
      []
      n
      (fun i =>
        [edge (.think i) (.reactGuard i), edge (.reactGuard i) .limitExceeded costExceeded,
          edge (.reactGuard i) (okTarget i)] ++
        if (i : ℤ) < n - 1 then [edge (.observe i) (.think (i + 1))] else [])
      lastEdges
    startNode := .think 0 }

/-- The condition on which a judged round ends the loop. -/
def verdictIs (word : String) (i : ℕ) (verdict field : String) : Option String :=
  some ("state.__" ++ word ++ "_" ++ toString i ++ "_" ++ verdict ++ "__." ++ field ++ " == true")

/-- The loop `_compile_critic` and `_compile_reflection` share: a first answer, then up to `rounds`
judgements with a revision between them. -/
def reviseLoop (first : StrategyId) (firstNode : String) (judge gate : ℕ → StrategyId)
    (word judgeLabel gateLabel : String) (judgeModel model : String) (rounds : ℤ) : Compiled :=
  { nodes := unrolled
      [(first, modelNode model none [nodeLabel firstNode, eventLabel "iteration_started"])]
      rounds
      (fun i =>
        (judge i, modelNode judgeModel none
          [nodeLabel judgeLabel, eventLabel "critic_verdict", iterationLabel i]) ::
        if (i : ℤ) = rounds - 1 then []
        else
          [(gate i, conditionNode
              [(verdictIs word i "verdict" "passed", .finalize), (none, .revise i)]
              [nodeLabel gateLabel, iterationLabel i]),
            (.revise i, modelNode model none
              [nodeLabel "revision", eventLabel "iteration_started", iterationLabel (i + 1)])])
      (lastNodes model)
    edges := unrolled
      [edge first (judge 0)]
      rounds
      (fun i =>
        if (i : ℤ) = rounds - 1 then [edge (judge i) .finalize]
        else
          [edge (judge i) (gate i),
            edge (gate i) .finalize (verdictIs word i "verdict" "passed"),
            edge (gate i) (.revise i), edge (.revise i) (judge (i + 1))])
      lastEdges
    startNode := first }

def compileCritic (config : StrategyConfig) (model : String) (limits : StrategyLimits) : Compiled :=
  reviseLoop .draft "draft_generation" .critic .criticGate "critic" "critic_eval" "critic_gate"
    (config.criticModel.getD model) model (maxRounds config limits)

def compileReflection (config : StrategyConfig) (model : String) (limits : StrategyLimits) :
    Compiled :=
  reviseLoop .execute "initial_execution" .reflect .reflectGate "reflect" "reflection"
    "reflect_gate" model model (maxRounds config limits)

/-- The number of agents is the configuration's alone. -/
def compileConsensus (config : StrategyConfig) (model : String) (_limits : StrategyLimits) :
    Compiled :=
  let numAgents := config.numAgents.getD 3
  { nodes := unrolled
      []
      numAgents
      (fun i =>
        (.agent i, modelNode model none
          [nodeLabel "parallel_agent", eventLabel "iteration_started", iterationLabel i]) ::
        if (i : ℤ) < numAgents - 1 then [(.costGuard i, costGuardNode i (.agent (i + 1)))] else [])
      ([(.vote, modelNode model none [nodeLabel "voting", eventLabel "critic_verdict"]),
        (.judge, modelNode (config.judgeModel.getD model) none
          [nodeLabel "judge", eventLabel "strategy_completed"])] ++ lastNodes model)
    edges := unrolled
      []
      numAgents
      (fun i =>
        if (i : ℤ) < numAgents - 1 then
          [edge (.agent i) (.costGuard i), edge (.costGuard i) .limitExceeded costExceeded,
            edge (.costGuard i) (.agent (i + 1))]
        else [edge (.agent i) .vote])
      ([edge .vote .judge, edge .judge .finalize] ++ lastEdges)
    startNode := .agent 0 }

def compileDebate (config : StrategyConfig) (model : String) (limits : StrategyLimits) : Compiled :=
  let rounds := maxRounds config limits
  { nodes := unrolled
      [(.propose, modelNode model none [nodeLabel "proposer", eventLabel "iteration_started"])]
      rounds
      (fun i =>
        [(.counter i, modelNode model none
            [nodeLabel "challenger", eventLabel "tool_called", iterationLabel i]),
          (.judgeRound i, modelNode (config.judgeModel.getD model) none
            [nodeLabel "judge", eventLabel "critic_verdict", iterationLabel i])] ++
        if (i : ℤ) = rounds - 1 then []
        else
          [(.judgeGate i, conditionNode
              [(verdictIs "judge" i "ruling" "settled", .finalize), (none, .costGuard i)]
              [nodeLabel "judge_gate", iterationLabel i]),
            (.costGuard i, costGuardNode i (.respond i)),
            (.respond i, modelNode model none
              [nodeLabel "responder", eventLabel "iteration_started", iterationLabel (i + 1)])])
      (lastNodes model)
    edges := unrolled
      [edge .propose (.counter 0)]
      rounds
      (fun i =>
        edge (.counter i) (.judgeRound i) ::
        if (i : ℤ) = rounds - 1 then [edge (.judgeRound i) .finalize]
        else
          [edge (.judgeRound i) (.judgeGate i),
            edge (.judgeGate i) .finalize (verdictIs "judge" i "ruling" "settled"),
            edge (.judgeGate i) (.costGuard i),
            edge (.costGuard i) .limitExceeded costExceeded, edge (.costGuard i) (.respond i),
            edge (.respond i) (.counter (i + 1))])
      lastEdges
    startNode := .propose }

def compileStrategy (strategyName : String) (config : StrategyConfig) (model : String)
    (limits : StrategyLimits) : Except String Compiled := do
  limits.validate
  match strategyName with
  | "react" => return compileReact config model limits
  | "plan-and-execute" => return compilePlanAndExecute config model limits
  | "critic" => return compileCritic config model limits
  | "reflection" => return compileReflection config model limits
  | "consensus" => return compileConsensus config model limits
  | "debate" => return compileDebate config model limits
  | _ =>
      .error ("Unknown strategy '" ++ strategyName ++ "'. Known strategies: " ++
        "consensus, critic, debate, plan-and-execute, react, reflection")

end JamJet.Strategies
