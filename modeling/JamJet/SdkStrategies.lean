import JamJet.Strategies

/-! The Java strategy compiler beside the Python one, on the strategies both know: the graphs with
their prompts, output keys and descriptions, and when the two are the same. -/

namespace JamJet.Strategies

/-- The kind of a node as the compilers write it. -/
inductive GraphKind
  | model (modelRef promptRef outputSchema : String) (systemPrompt : Option String)
  | condition (branches : List (Option String × String)) (expression : String)
  | limitExceeded (description : String)
  deriving DecidableEq

structure GraphNode where
  kind : GraphKind
  retryPolicy : Option String
  description : String
  labels : List (String × String)
  deriving DecidableEq

structure GraphEdge where
  src : String
  dst : String
  condition : Option String
  deriving DecidableEq

/-- `nodes`, `edges` and `start_node` of a compiled strategy. -/
structure StrategyGraph where
  nodes : List (String × GraphNode)
  edges : List GraphEdge
  startNode : String
  deriving DecidableEq

/-- A strategy's configuration with the threshold its critic is told. -/
structure SdkConfig extends StrategyConfig where
  passThreshold : Option F64 := none

/-- The double `0.8`. -/
def defaultThreshold : F64 := 0x3fe999999999999a

/-- The strategies both compilers know. -/
inductive SharedStrategy
  | react
  | planAndExecute
  | critic
  deriving DecidableEq

def SharedStrategy.name : SharedStrategy → String
  | react => "react"
  | planAndExecute => "plan-and-execute"
  | critic => "critic"

namespace Python

def modelNode (model prompt outputKey : String) (systemPrompt : Option String)
    (labels : List (String × String)) : GraphNode where
  kind := .model model prompt outputKey systemPrompt
  retryPolicy := some "llm_default"
  description := prompt
  labels := labels

def conditionNode (expression : String) (branches : List (Option String × String))
    (labels : List (String × String)) : GraphNode where
  kind := .condition branches expression
  retryPolicy := none
  description := expression
  labels := labels

def limitExceededNode : GraphNode where
  kind := .limitExceeded "Strategy limit reached"
  retryPolicy := none
  description := "Strategy limit exceeded — execution halted"
  labels := [("jamjet.strategy.limit", "true")]

def edge (src dst : String) (condition : Option String := none) : GraphEdge :=
  ⟨src, dst, condition⟩

def costGuardBranches (okTarget : String) : List (Option String × String) :=
  [(some "state.__cost_exceeded__", "__limit_exceeded__"), (none, okTarget)]

/-- `", ".join(tools) if tools else "none"`. -/
def toolsList (tools : List String) : String :=
  if tools.isEmpty then "none" else ", ".intercalate tools

def finalize (model prompt : String) : List (String × GraphNode) :=
  [("__finalize__", modelNode model prompt "result" none
      [("jamjet.strategy.node", "finalizer"), ("jamjet.strategy.event", "strategy_completed")]),
    ("__limit_exceeded__", limitExceededNode)]

def finalizeEdges : List GraphEdge :=
  [edge "__finalize__" "end", edge "__limit_exceeded__" "end"]

def compilePlanAndExecute (config : SdkConfig) (tools : List String) (model : String)
    (limits : StrategyLimits) (goal : String) : StrategyGraph :=
  let n := limits.maxIterations
  let stepId (i : ℕ) := "__step_" ++ toString i ++ "__"
  let guardId (i : ℕ) := "__cost_guard_" ++ toString i ++ "__"
  let verifierId (i : ℕ) := "__verify_" ++ toString i ++ "__"
  let next (src : String) (i : ℕ) : GraphEdge :=
    if (i : ℤ) < n - 1 then edge src (guardId (i + 1)) else edge src "__finalize__"
  { nodes := unrolled
      [("__plan__", modelNode model
        ("You are an AI agent working on: " ++ goal ++ "\n" ++
          "Available tools: " ++ toolsList tools ++ "\n" ++
          "Generate a structured plan with up to " ++ toString n ++ " concrete steps. " ++
          "Output JSON: \x7b\"steps\": [\"step 1\", \"step 2\", ...]\x7d")
        "__plan__" (some "You are a planning AI. Output valid JSON only.")
        [("jamjet.strategy.node", "plan_generation"),
          ("jamjet.strategy.event", "plan_generated")])]
      n
      (fun i =>
        [(guardId i, conditionNode "state.__cost_exceeded__ == true"
            (costGuardBranches (stepId i))
            [("jamjet.strategy.node", "cost_guard"),
              ("jamjet.strategy.iteration", toString i)]),
          (stepId i, modelNode model
            ("You are executing step " ++ toString (i + 1) ++ " of " ++ toString n ++
              " for the goal: " ++ goal ++ "\n" ++
              "The plan is: \x7b\x7b state.__plan__ \x7d\x7d\n" ++
              "Execute step " ++ toString (i + 1) ++ " using the available tools. " ++
              "Record your result.")
            ("__step_" ++ toString i ++ "_output__") none
            [("jamjet.strategy.node", "step_executor"),
              ("jamjet.strategy.event", "iteration_started"),
              ("jamjet.strategy.iteration", toString i)])] ++
        -- `if verifier_model:`, where the empty name counts as none
        (config.verifier.map fun verifier => (verifierId i, modelNode verifier
          ("Verify step " ++ toString (i + 1) ++ " output against the goal: " ++ goal ++ "\n" ++
            "Output JSON: \x7b\"passed\": true/false, \"score\": 0.0-1.0, " ++
            "\"feedback\": \"...\"\x7d")
          ("__verify_" ++ toString i ++ "_result__") none
          [("jamjet.strategy.node", "verifier"),
            ("jamjet.strategy.event", "critic_verdict")])).toList)
      (finalize model
        ("You completed all steps for the goal: " ++ goal ++ "\n" ++
          "Synthesize the results from all steps into a final, well-structured response."))
    edges := unrolled
      [edge "__plan__" "__cost_guard_0__"]
      n
      (fun i =>
        (if config.verifier.isSome then
            [edge (stepId i) (verifierId i), next (verifierId i) i]
          else [next (stepId i) i]) ++
        [edge (guardId i) "__limit_exceeded__" (some "state.__cost_exceeded__ == true"),
          edge (guardId i) (stepId i)])
      finalizeEdges
    startNode := "__plan__" }

def compileReact (_config : SdkConfig) (tools : List String) (model : String)
    (limits : StrategyLimits) (goal : String) : StrategyGraph :=
  let n := limits.maxIterations
  let thinkId (i : ℕ) := "__think_" ++ toString i ++ "__"
  let observeId (i : ℕ) := "__observe_" ++ toString i ++ "__"
  let guardId (i : ℕ) := "__react_guard_" ++ toString i ++ "__"
  let okTarget (i : ℕ) := if (i : ℤ) < n - 1 then observeId i else "__finalize__"
  { nodes := unrolled
      []
      n
      (fun i =>
        [(thinkId i, modelNode model
            ("Goal: " ++ goal ++ "\n" ++
              "Available tools: " ++ toolsList tools ++ "\n" ++
              "Iteration " ++ toString (i + 1) ++ " of " ++ toString n ++ ". " ++
              "Think about what to do next. " ++
              "If you have enough information to answer, say FINISH. " ++
              "Otherwise choose a tool and describe what input to pass. " ++
              "Output JSON: \x7b\"thought\": \"...\", \"action\": \"tool_name or FINISH\", " ++
              "\"input\": \x7b...\x7d\x7d")
            ("__think_" ++ toString i ++ "_output__") none
            [("jamjet.strategy.node", "react_think"),
              ("jamjet.strategy.event", "iteration_started"),
              ("jamjet.strategy.iteration", toString i)]),
          (guardId i, conditionNode "state.__cost_exceeded__ == true"
            (costGuardBranches (okTarget i))
            [("jamjet.strategy.node", "cost_guard"),
              ("jamjet.strategy.iteration", toString i)])] ++
        if (i : ℤ) < n - 1 then
          [(observeId i, modelNode model
            ("Goal: " ++ goal ++ "\n" ++
              "Previous thought: \x7b\x7b state.__think_" ++ toString i ++
              "_output__ \x7d\x7d\n" ++
              "Process the tool result and update your understanding. " ++
              "Output JSON: \x7b\"observation\": \"...\", \"progress\": \"...\"\x7d")
            ("__observe_" ++ toString i ++ "_output__") none
            [("jamjet.strategy.node", "react_observe"),
              ("jamjet.strategy.event", "tool_called"),
              ("jamjet.strategy.iteration", toString i)])]
        else [])
      (finalize model
        ("Goal: " ++ goal ++ "\n" ++
          "Based on all thoughts and observations, produce a final answer."))
    edges := unrolled
      []
      n
      (fun i =>
        [edge (thinkId i) (guardId i),
          edge (guardId i) "__limit_exceeded__" (some "state.__cost_exceeded__ == true"),
          edge (guardId i) (okTarget i)] ++
        if (i : ℤ) < n - 1 then [edge (observeId i) (thinkId (i + 1))] else [])
      finalizeEdges
    startNode := "__think_0__" }

def compileCritic (spell : F64 → String) (config : SdkConfig) (model : String)
    (limits : StrategyLimits) (goal : String) : StrategyGraph :=
  let criticModel := config.criticModel.getD model
  let passThreshold := config.passThreshold.getD defaultThreshold
  let maxRounds := min (config.maxRounds.getD 3) limits.maxIterations
  let criticId (i : ℕ) := "__critic_" ++ toString i ++ "__"
  let reviseId (i : ℕ) := "__revise_" ++ toString i ++ "__"
  let gateId (i : ℕ) := "__critic_gate_" ++ toString i ++ "__"
  let draftRef (i : ℕ) :=
    if i = 0 then "__draft_output__" else "__revise_" ++ toString (i - 1) ++ "_output__"
  let passed (i : ℕ) := "state.__critic_" ++ toString i ++ "_verdict__.passed == true"
  { nodes := unrolled
      [("__draft__", modelNode model
        ("Goal: " ++ goal ++ "\n" ++ "Produce a high-quality initial response.")
        "__draft_output__" none
        [("jamjet.strategy.node", "draft_generation"),
          ("jamjet.strategy.event", "iteration_started")])]
      maxRounds
      (fun i =>
        (criticId i, modelNode criticModel
          ("Goal: " ++ goal ++ "\n" ++
            "Draft to evaluate: \x7b\x7b state." ++ draftRef i ++ " \x7d\x7d\n" ++
            "Evaluate this draft against the goal. Pass threshold: " ++ spell passThreshold ++
            ".\n" ++
            "Output JSON: \x7b\"score\": 0.0-1.0, \"passed\": true/false, " ++
            "\"feedback\": \"...\"\x7d")
          ("__critic_" ++ toString i ++ "_verdict__") none
          [("jamjet.strategy.node", "critic_eval"),
            ("jamjet.strategy.event", "critic_verdict"),
            ("jamjet.strategy.iteration", toString i)]) ::
        if (i : ℤ) = maxRounds - 1 then []
        else
          [(gateId i, conditionNode (passed i)
              [(some (passed i), "__finalize__"), (none, reviseId i)]
              [("jamjet.strategy.node", "critic_gate"),
                ("jamjet.strategy.iteration", toString i)]),
            (reviseId i, modelNode model
              ("Goal: " ++ goal ++ "\n" ++
                "Previous draft: \x7b\x7b state." ++ draftRef i ++ " \x7d\x7d\n" ++
                "Critic feedback: \x7b\x7b state.__critic_" ++ toString i ++
                "_verdict__.feedback \x7d\x7d\n" ++
                "Revise the draft based on the feedback.")
              ("__revise_" ++ toString i ++ "_output__") none
              [("jamjet.strategy.node", "revision"),
                ("jamjet.strategy.event", "iteration_started"),
                ("jamjet.strategy.iteration", toString (i + 1))])])
      (finalize model
        ("Goal: " ++ goal ++ "\n" ++
          "Format the final, polished response based on all revisions."))
    edges := unrolled
      [edge "__draft__" "__critic_0__"]
      maxRounds
      (fun i =>
        if (i : ℤ) = maxRounds - 1 then [edge (criticId i) "__finalize__"]
        else
          [edge (criticId i) (gateId i), edge (gateId i) "__finalize__" (some (passed i)),
            edge (gateId i) (reviseId i), edge (reviseId i) (criticId (i + 1))])
      finalizeEdges
    startNode := "__draft__" }

/-- `compile_strategy` at a strategy the Java compiler knows too. -/
def compileStrategy (spell : F64 → String) (strategy : SharedStrategy) (config : SdkConfig)
    (tools : List String) (model : String) (limits : StrategyLimits) (goal : String) :
    Except String StrategyGraph := do
  limits.validate
  match strategy with
  | .react => return compileReact config tools model limits goal
  | .planAndExecute => return compilePlanAndExecute config tools model limits goal
  | .critic => return compileCritic spell config model limits goal

end Python

/-- The limits as the Java compiler takes them. -/
structure JavaLimits where
  maxIterations : Int32
  maxCostUsd : F64
  timeoutSeconds : Int32

def JavaLimits.strategyLimits (limits : JavaLimits) : StrategyLimits where
  maxIterations := limits.maxIterations.toInt
  maxCostUsd := limits.maxCostUsd
  timeoutSeconds := limits.timeoutSeconds.toInt

namespace Java

def validateLimits (limits : JavaLimits) : Except String Unit :=
  if limits.maxIterations < 1 then .error "maxIterations must be >= 1"
  else if limits.maxCostUsd.nonPositive then .error "maxCostUsd must be > 0"
  else if limits.timeoutSeconds < 1 then .error "timeoutSeconds must be >= 1"
  else .ok ()

def modelNode (model prompt outputKey : String) (systemPrompt : Option String)
    (labels : List (String × String)) : GraphNode where
  kind := .model model prompt outputKey systemPrompt
  retryPolicy := some "llm_default"
  description := prompt
  labels := labels

def conditionNode (expression : String) (branches : List (Option String × String))
    (labels : List (String × String)) : GraphNode where
  kind := .condition branches expression
  retryPolicy := none
  description := expression
  labels := labels

def limitExceededNode : GraphNode where
  kind := .limitExceeded "Strategy limit reached"
  retryPolicy := none
  description := "Strategy limit exceeded — execution halted"
  labels := [("jamjet.strategy.limit", "true")]

def edge (src dst : String) (condition : Option String) : GraphEdge := ⟨src, dst, condition⟩

def costGuardBranches (okTarget : String) : List (Option String × String) :=
  [(some "state.__cost_exceeded__", "__limit_exceeded__"), (none, okTarget)]

/-- `tools != null && !tools.isEmpty() ? String.join(", ", tools) : "none"`. -/
def toolsList (tools : List String) : String :=
  if tools ≠ [] then ", ".intercalate tools else "none"

/-- `Number.intValue()` of an integer, which keeps its low 32 bits. -/
def intValue (r : ℤ) : Int32 := Int32.ofInt r

/-- The finalizer and the terminal node of the limits. -/
def finalize (model prompt : String) : List (String × GraphNode) :=
  [("__finalize__", modelNode model prompt "result" none
      [("jamjet.strategy.node", "finalizer"), ("jamjet.strategy.event", "strategy_completed")]),
    ("__limit_exceeded__", limitExceededNode)]

def finalizeEdges : List GraphEdge :=
  [edge "__finalize__" "end" none, edge "__limit_exceeded__" "end" none]

def compilePlanAndExecute (config : SdkConfig) (tools : List String) (model : String) (n : Int32)
    (goal : String) : StrategyGraph :=
  let verifierModel := config.verifierModel
  let stepId (i : ℕ) := "__step_" ++ toString i ++ "__"
  let guardId (i : ℕ) := "__cost_guard_" ++ toString i ++ "__"
  let verifierId (i : ℕ) := "__verify_" ++ toString i ++ "__"
  let n := n.toInt
  { nodes := unrolled
      [("__plan__", modelNode model
        ("You are an AI agent working on: " ++ goal ++ "\n" ++
          "Available tools: " ++ toolsList tools ++ "\n" ++
          "Generate a structured plan with up to " ++ toString n ++ " concrete steps. " ++
          "Output JSON: \x7b\"steps\": [\"step 1\", \"step 2\", ...]\x7d")
        "__plan__" (some "You are a planning AI. Output valid JSON only.")
        [("jamjet.strategy.node", "plan_generation"),
          ("jamjet.strategy.event", "plan_generated")])]
      n
      (fun i =>
        [(guardId i, conditionNode "state.__cost_exceeded__ == true"
            (costGuardBranches (stepId i))
            [("jamjet.strategy.node", "cost_guard"),
              ("jamjet.strategy.iteration", toString i)]),
          (stepId i, modelNode model
            ("You are executing step " ++ toString (i + 1) ++ " of " ++ toString n ++
              " for the goal: " ++ goal ++ "\n" ++
              "The plan is: \x7b\x7b state.__plan__ \x7d\x7d\n" ++
              "Execute step " ++ toString (i + 1) ++ " using the available tools. " ++
              "Record your result.")
            ("__step_" ++ toString i ++ "_output__") none
            [("jamjet.strategy.node", "step_executor"),
              ("jamjet.strategy.event", "iteration_started"),
              ("jamjet.strategy.iteration", toString i)])] ++
        -- `verifierModel != null`, which the empty name meets
        match verifierModel with
        | some verifierModel =>
            [(verifierId i, modelNode verifierModel
              ("Verify step " ++ toString (i + 1) ++ " output against the goal: " ++ goal ++
                "\n" ++
                "Output JSON: \x7b\"passed\": true/false, \"score\": 0.0-1.0, " ++
                "\"feedback\": \"...\"\x7d")
              ("__verify_" ++ toString i ++ "_result__") none
              [("jamjet.strategy.node", "verifier"),
                ("jamjet.strategy.event", "critic_verdict")])]
        | none => [])
      (finalize model
        ("You completed all steps for the goal: " ++ goal ++ "\n" ++
          "Synthesize the results from all steps into a final, well-structured response."))
    edges := unrolled
      [edge "__plan__" "__cost_guard_0__" none]
      n
      (fun i =>
        (match verifierModel with
        | some _ =>
            [edge (stepId i) (verifierId i) none,
              if (i : ℤ) < n - 1 then edge (verifierId i) (guardId (i + 1)) none
              else edge (verifierId i) "__finalize__" none]
        | none =>
            [if (i : ℤ) < n - 1 then edge (stepId i) (guardId (i + 1)) none
              else edge (stepId i) "__finalize__" none]) ++
        [edge (guardId i) "__limit_exceeded__" (some "state.__cost_exceeded__ == true"),
          edge (guardId i) (stepId i) none])
      finalizeEdges
    startNode := "__plan__" }

/-- `compilePlan`, which unrolls `react`. -/
def compilePlan (_config : SdkConfig) (tools : List String) (model : String) (n : Int32)
    (goal : String) : StrategyGraph :=
  let thinkId (i : ℕ) := "__think_" ++ toString i ++ "__"
  let observeId (i : ℕ) := "__observe_" ++ toString i ++ "__"
  let guardId (i : ℕ) := "__react_guard_" ++ toString i ++ "__"
  let n := n.toInt
  let okTarget (i : ℕ) := if (i : ℤ) < n - 1 then observeId i else "__finalize__"
  { nodes := unrolled
      []
      n
      (fun i =>
        [(thinkId i, modelNode model
            ("Goal: " ++ goal ++ "\n" ++
              "Available tools: " ++ toolsList tools ++ "\n" ++
              "Iteration " ++ toString (i + 1) ++ " of " ++ toString n ++ ". " ++
              "Think about what to do next. " ++
              "If you have enough information to answer, say FINISH. " ++
              "Otherwise choose a tool and describe what input to pass. " ++
              "Output JSON: \x7b\"thought\": \"...\", \"action\": \"tool_name or FINISH\", " ++
              "\"input\": \x7b...\x7d\x7d")
            ("__think_" ++ toString i ++ "_output__") none
            [("jamjet.strategy.node", "react_think"),
              ("jamjet.strategy.event", "iteration_started"),
              ("jamjet.strategy.iteration", toString i)]),
          (guardId i, conditionNode "state.__cost_exceeded__ == true"
            (costGuardBranches (okTarget i))
            [("jamjet.strategy.node", "cost_guard"),
              ("jamjet.strategy.iteration", toString i)])] ++
        if (i : ℤ) < n - 1 then
          [(observeId i, modelNode model
            ("Goal: " ++ goal ++ "\n" ++
              "Previous thought: \x7b\x7b state.__think_" ++ toString i ++
              "_output__ \x7d\x7d\n" ++
              "Process the tool result and update your understanding. " ++
              "Output JSON: \x7b\"observation\": \"...\", \"progress\": \"...\"\x7d")
            ("__observe_" ++ toString i ++ "_output__") none
            [("jamjet.strategy.node", "react_observe"),
              ("jamjet.strategy.event", "tool_called"),
              ("jamjet.strategy.iteration", toString i)])]
        else [])
      (finalize model
        ("Goal: " ++ goal ++ "\n" ++
          "Based on all thoughts and observations, produce a final answer."))
    edges := unrolled
      []
      n
      (fun i =>
        [edge (thinkId i) (guardId i) none,
          edge (guardId i) "__limit_exceeded__" (some "state.__cost_exceeded__ == true"),
          edge (guardId i) (okTarget i) none] ++
        if (i : ℤ) < n - 1 then [edge (observeId i) (thinkId (i + 1)) none] else [])
      finalizeEdges
    startNode := "__think_0__" }

def compileCritic (spell : F64 → String) (config : SdkConfig) (model : String)
    (maxIterations : Int32) (goal : String) : StrategyGraph :=
  let criticModel := config.criticModel.getD model
  let passThreshold := config.passThreshold.getD defaultThreshold
  let configMaxRounds := (config.maxRounds.map intValue).getD 3
  let maxRounds := min configMaxRounds.toInt maxIterations.toInt
  let criticId (i : ℕ) := "__critic_" ++ toString i ++ "__"
  let reviseId (i : ℕ) := "__revise_" ++ toString i ++ "__"
  let gateId (i : ℕ) := "__critic_gate_" ++ toString i ++ "__"
  let draftRef (i : ℕ) :=
    if i = 0 then "__draft_output__" else "__revise_" ++ toString (i - 1) ++ "_output__"
  let passedCond (i : ℕ) := "state.__critic_" ++ toString i ++ "_verdict__.passed == true"
  { nodes := unrolled
      [("__draft__", modelNode model
        ("Goal: " ++ goal ++ "\n" ++ "Produce a high-quality initial response.")
        "__draft_output__" none
        [("jamjet.strategy.node", "draft_generation"),
          ("jamjet.strategy.event", "iteration_started")])]
      maxRounds
      (fun i =>
        (criticId i, modelNode criticModel
          ("Goal: " ++ goal ++ "\n" ++
            "Draft to evaluate: \x7b\x7b state." ++ draftRef i ++ " \x7d\x7d\n" ++
            "Evaluate this draft against the goal. Pass threshold: " ++ spell passThreshold ++
            ".\n" ++
            "Output JSON: \x7b\"score\": 0.0-1.0, \"passed\": true/false, " ++
            "\"feedback\": \"...\"\x7d")
          ("__critic_" ++ toString i ++ "_verdict__") none
          [("jamjet.strategy.node", "critic_eval"),
            ("jamjet.strategy.event", "critic_verdict"),
            ("jamjet.strategy.iteration", toString i)]) ::
        if (i : ℤ) = maxRounds - 1 then []
        else
          [(gateId i, conditionNode (passedCond i)
              [(some (passedCond i), "__finalize__"), (none, reviseId i)]
              [("jamjet.strategy.node", "critic_gate"),
                ("jamjet.strategy.iteration", toString i)]),
            (reviseId i, modelNode model
              ("Goal: " ++ goal ++ "\n" ++
                "Previous draft: \x7b\x7b state." ++ draftRef i ++ " \x7d\x7d\n" ++
                "Critic feedback: \x7b\x7b state.__critic_" ++ toString i ++
                "_verdict__.feedback \x7d\x7d\n" ++
                "Revise the draft based on the feedback.")
              ("__revise_" ++ toString i ++ "_output__") none
              [("jamjet.strategy.node", "revision"),
                ("jamjet.strategy.event", "iteration_started"),
                ("jamjet.strategy.iteration", toString (i + 1))])])
      (finalize model
        ("Goal: " ++ goal ++ "\n" ++
          "Format the final, polished response based on all revisions."))
    edges := unrolled
      [edge "__draft__" "__critic_0__" none]
      maxRounds
      (fun i =>
        if (i : ℤ) = maxRounds - 1 then [edge (criticId i) "__finalize__" none]
        else
          [edge (criticId i) (gateId i) none,
            edge (gateId i) "__finalize__" (some (passedCond i)),
            edge (gateId i) (reviseId i) none, edge (reviseId i) (criticId (i + 1)) none])
      finalizeEdges
    startNode := "__draft__" }

def compile (spell : F64 → String) (strategyName : String) (config : SdkConfig)
    (tools : List String) (model : String) (limits : JavaLimits) (goal : String) :
    Except String StrategyGraph := do
  validateLimits limits
  match strategyName with
  | "react" => return compilePlan config tools model limits.maxIterations goal
  | "plan-and-execute" =>
      return compilePlanAndExecute config tools model limits.maxIterations goal
  | "critic" => return compileCritic spell config model limits.maxIterations goal
  | _ =>
      .error ("Unknown strategy '" ++ strategyName ++
        "'. Known strategies: critic, plan-and-execute, react")

end Java

end JamJet.Strategies
