import JamJet.ConditionNode
import JamJet.Fallible

/-! Eval nodes: the scorers, the assertions they check, and the executor that runs them and turns
their results into an action. -/

namespace JamJet

inductive ChatRole
  | system
  | user
  | assistant
  | tool
  deriving DecidableEq, Repr

structure ChatMessage where
  role : ChatRole
  content : String
  deriving DecidableEq, Repr

/-- The configuration of one model call.  `temperature` is kept as the number it is read as. -/
structure ChatConfig where
  model : Option String := none
  maxTokens : Option ℕ := none
  temperature : Option (BitVec 64) := none
  systemPrompt : Option String := none
  stopSequences : Option (List String) := none
  deriving DecidableEq, Repr

structure ModelRequest where
  messages : List ChatMessage
  config : ChatConfig := {}
  tools : List Json := []
  deriving Repr

structure ToolCall where
  id : String
  name : String
  arguments : Json
  deriving Repr

structure ModelResponse where
  content : String
  model : String
  finishReason : String
  inputTokens : ℕ
  outputTokens : ℕ
  toolCalls : List ToolCall
  deriving Repr

/-- The errors of a model call; those the executors do not tell apart come with their text. -/
inductive ModelError
  | rateLimited (retryAfterSecs : ℕ)
  | other (text : String)
  deriving DecidableEq, Repr

def ModelError.text : ModelError → String
  | .rateLimited secs => "rate limited — retry after " ++ toString secs ++ "s"
  | .other text => text

/-- `panicked` is no error of the source: the task of the executor ends there. -/
inductive ExecutorError
  | rateLimited (retryAfterSecs : ℕ)
  | fatal (msg : String)
  | panicked
  deriving DecidableEq, Repr

inductive EvalScorer
  | llmJudge (model rubric : String) (minScore : ℕ)
  | assertion (checks : List String)
  | latency (thresholdMs : ℕ)
  | cost (thresholdUsd : BitVec 64)
  | custom (moduleName : String) (kwargs : Json)
  deriving Repr

inductive EvalOnFail
  | retryWithFeedback
  | escalate
  | halt
  | logAndContinue
  deriving DecidableEq, Repr

def EvalOnFail.asStr : EvalOnFail → String
  | .retryWithFeedback => "retry_with_feedback"
  | .escalate => "escalate"
  | .halt => "halt"
  | .logAndContinue => "log_and_continue"

theorem EvalOnFail.asStr_injective : Function.Injective EvalOnFail.asStr := by
  intro a b h
  cases a <;> cases b <;> simp_all [asStr]

/-- What the executors call: the model, the readers of `serde_json`, and the texts of numbers with
a fixed number of digits. -/
structure ExecutorEnv where
  chat : ModelRequest → Except ModelError ModelResponse
  fromStr : String → Option Json
  scorersFromValue : Json → Option (List EvalScorer)
  onFailFromValue : Json → Option EvalOnFail
  malformed : Json → String
  fixed : ℕ → BitVec 64 → String

namespace EvalExecutor

open Condition (trim)

/-! ### Assertions -/

def stripSuffix (suffix s : List Char) : Option (List Char) :=
  (suffix.reverse.isPrefixOf? s.reverse).map List.reverse

/-- What stands before and after the first occurrence of a text. -/
def splitOnce (pat : List Char) : List Char → Option (List Char × List Char)
  | [] => if pat.isEmpty then some ([], []) else none
  | c :: rest =>
      match pat.isPrefixOf? (c :: rest) with
      | some after => some ([], after)
      | none => (splitOnce pat rest).map fun (before, after) => (c :: before, after)

def trimMatches (c : Char) (s : List Char) : List Char :=
  ((s.dropWhile (· == c)).reverse.dropWhile (· == c)).reverse

def quote : Char := Char.ofNat 39

def unquote (s : List Char) : List Char := trimMatches '"' (trimMatches quote (trim s))

/-- `str::parse::<i64>`. -/
def parseI64 (s : List Char) : Option ℤ :=
  match s with
  | '-' :: digits => (magnitude digits).bind fun n => if n ≤ 2 ^ 63 then some (-n) else none
  | '+' :: digits => (magnitude digits).bind fun n => if n < 2 ^ 63 then some n else none
  | digits => (magnitude digits).bind fun n => if n < 2 ^ 63 then some n else none
where
  magnitude (digits : List Char) : Option ℕ :=
    if !digits.isEmpty && digits.all Char.isDigit then some (Nat.ofDigitChars 10 digits 0) else none

def numericOps : List (String × (ℤ → ℤ → Bool)) :=
  [(">= ", fun actual n => n ≤ actual), ("> ", fun actual n => n < actual),
    ("<= ", fun actual n => actual ≤ n), ("< ", fun actual n => actual < n),
    ("== ", fun actual n => actual = n)]

/-- A comparison that is not understood holds. -/
def evalNumericComparison (actual : ℤ) (opAndRhs : List Char) : Bool :=
  (numericOps.findSome? fun (op, holds) =>
    ((op.toList.isPrefixOf? (trim opAndRhs)).bind fun rhs => parseI64 (trim rhs)).map
      (holds actual)).getD true

/-- `'key' in output`. -/
def keyCheck (check : List Char) (subject : Json) : Option Bool :=
  (stripSuffix " in output".toList check).map fun rest =>
    match subject with
    | .object fields => (BTree.get fields (String.ofList (unquote rest))).isSome
    | _ => false

/-- `len(output.key) >= N`. -/
def lenCheck (check : List Char) (subject : Json) : Option Bool :=
  ("len(output.".toList.isPrefixOf? check).bind fun inner =>
    (splitOnce [')'] inner).map fun (field, rest) =>
      let arrLen := match subject.get (String.ofList field) with
        | some (.array items) => items.length
        | _ => 0
      evalNumericComparison arrLen (trim rest)

/-- `output.key == 'value'` and `output.key != null`. -/
def fieldCheck (check : List Char) (subject : Json) : Option Bool :=
  ("output.".toList.isPrefixOf? check).bind fun rest =>
    match splitOnce " == ".toList rest with
    | some (field, expected) =>
        let actual := ((subject.get (String.ofList (trim field))).bind Json.asStr).getD ""
        some (actual == String.ofList (unquote expected))
    | none =>
        (splitOnce " != ".toList rest).bind fun (field, expected) =>
          if String.ofList (trim expected) ∈ ["null", "None"] then
            match subject.get (String.ofList (trim field)) with
            | none | some .null => some false
            | some _ => some true
          else none

/-- A check that matches no pattern passes. -/
def evalAssertion (check : String) (subject : Json) : Bool :=
  let check := trim check.toList
  (((keyCheck check subject).or (lenCheck check subject)).or (fieldCheck check subject)).getD true

/-! ### Scorers -/

structure ScorerResult where
  scorerType : String
  passed : Bool
  score : Option (BitVec 64)
  message : String
  deriving DecidableEq, Repr

/-- The doubles zero and one. -/
def f64Zero : BitVec 64 := 0

def f64One : BitVec 64 := 0x3ff0000000000000

def judgePrompt [FloatText] (rubric : String) (subject : Json) : String :=
  "You are an impartial evaluator.\n\nRubric: " ++ rubric ++ "\n\nOutput to evaluate:\n" ++
    Hashing.canonicalJson subject ++ "\n\nRespond with ONLY a JSON object: " ++
    "\x7b\"score\": <integer 1-5>, \"reason\": \"<brief reason>\"\x7d"

/-- The text from the first opening brace to the last closing one.  A slice that would end before
it starts panics. -/
def judgeObject (content : List Char) : Except ExecutorError (Option (List Char)) :=
  match content.idxOf? (Char.ofNat 0x7b), content.reverse.idxOf? (Char.ofNat 0x7d) with
  | some start, some fromEnd =>
      if start ≤ content.length - fromEnd then
        .ok (some ((content.take (content.length - fromEnd)).drop start))
      else .error .panicked
  | _, _ => .ok none

def runLlmJudge [FloatText] [F64] (env : ExecutorEnv) (model rubric : String) (minScore : ℕ)
    (subject : Json) : Except ExecutorError ScorerResult :=
  let request : ModelRequest :=
    { messages := [⟨.user, judgePrompt rubric subject⟩]
      config := { model := some model, maxTokens := some 256, temperature := some f64Zero } }
  match env.chat request with
  | .error e => .ok ⟨"llm_judge", false, none, "model call failed: " ++ e.text⟩
  | .ok resp => do
      let content := trim resp.content.toList
      let parsed := (← judgeObject content).bind fun json => env.fromStr (String.ofList json)
      match parsed with
      | some obj =>
          let score := ((obj.get "score").bind (Json.asUnsigned 64)).getD 0 % 2 ^ 8
          let reason := ((obj.get "reason").bind Json.asStr).getD "no reason"
          return ⟨"llm_judge", minScore ≤ score, some (F64.ofInt score),
            "score=" ++ toString score ++ "/5 (min=" ++ toString minScore ++ "): " ++ reason⟩
      | none =>
          return ⟨"llm_judge", false, none,
            "failed to parse judge response: " ++ String.ofList content⟩

def runAssertions (checks : List String) (subject : Json) : ScorerResult :=
  let failures := checks.filter fun check => !evalAssertion check subject
  if failures.isEmpty then
    ⟨"assertion", true, some f64One, "all " ++ toString checks.length ++ " assertions passed"⟩
  else
    ⟨"assertion", false, some f64Zero, "failed assertions: " ++ String.intercalate "; " failures⟩

def runLatency [F64] (thresholdMs actualMs : ℕ) : ScorerResult :=
  ⟨"latency", actualMs ≤ thresholdMs, some (F64.ofInt actualMs),
    toString actualMs ++ "ms (threshold: " ++ toString thresholdMs ++ "ms)"⟩

/-- Neither cost is a NaN. -/
def runCost [F64] (env : ExecutorEnv) (thresholdUsd actualUsd : BitVec 64) : ScorerResult :=
  ⟨"cost", !F64.lt thresholdUsd actualUsd, some actualUsd,
    "$" ++ env.fixed 6 actualUsd ++ " (threshold: $" ++ env.fixed 4 thresholdUsd ++ ")"⟩

/-- Left to the Python worker. -/
def runCustom (moduleName : String) : ScorerResult :=
  ⟨"custom", true, none, "custom scorer '" ++ moduleName ++ "' delegated to Python worker"⟩

/-- What an evaluation is about: the output it evaluates, and the time and cost of the node
before. -/
structure EvalSubject where
  output : Json := .null
  precedingMs : ℕ := 0
  precedingCostUsd : BitVec 64 := f64Zero

def runScorer [FloatText] [F64] (env : ExecutorEnv) (subject : EvalSubject) :
    EvalScorer → Except ExecutorError ScorerResult
  | .llmJudge model rubric minScore => runLlmJudge env model rubric minScore subject.output
  | .assertion checks => .ok (runAssertions checks subject.output)
  | .latency thresholdMs => .ok (runLatency thresholdMs subject.precedingMs)
  | .cost thresholdUsd => .ok (runCost env thresholdUsd subject.precedingCostUsd)
  | .custom moduleName _ => .ok (runCustom moduleName)

def ScorerResult.toJson (r : ScorerResult) : Json :=
  Json.ofFields [("scorer", .string r.scorerType), ("passed", .bool r.passed),
    ("score", Json.ofOption (fun score => .number (.float score)) r.score),
    ("message", .string r.message)]

/-! ### The executor -/

/-- The results of the scorers, and what follows from them. -/
def conclude (onFail : EvalOnFail) (maxRetries durationMs : ℕ) (results : List ScorerResult) :
    Except ExecutorError ExecutionResult :=
  let overallPassed := results.all (·.passed)
  let resultsJson := Json.array (results.map ScorerResult.toJson)
  let action := if overallPassed then "continue" else onFail.asStr
  if !overallPassed && onFail == .halt then
    .error (.fatal ("eval node failed — scorers: " ++ String.intercalate "; "
      ((results.filter fun r => !r.passed).map (·.message))))
  else
    .ok
      { output := Json.ofFields [("passed", .bool overallPassed), ("scorers", resultsJson),
          ("on_fail", .string onFail.asStr), ("max_retries", Json.ofNat maxRetries)]
        statePatch := Json.ofFields [("eval_passed", .bool overallPassed),
          ("eval_action", .string action), ("eval_results", resultsJson)]
        durationMs := durationMs
        finishReason := some (if overallPassed then "pass" else action) }

/-- An evaluation with the configuration it is given. -/
def run [FloatText] [F64] (env : ExecutorEnv) (durationMs : ℕ) (scorers : List EvalScorer)
    (onFail : EvalOnFail) (maxRetries : ℕ) (subject : EvalSubject) :
    Except ExecutorError ExecutionResult := do
  conclude onFail maxRetries durationMs (← scorers.mapM (runScorer env subject))

/-- The configuration is read off the payload; what is missing there has a default. -/
def execute [FloatText] [F64] (env : ExecutorEnv) (durationMs : ℕ) (payload : Json) :
    Except ExecutorError ExecutionResult :=
  let scorers := ((payload.get "scorers").bind env.scorersFromValue).getD []
  let onFail := ((payload.get "on_fail").bind env.onFailFromValue).getD .halt
  let maxRetries := ((payload.get "max_retries").bind (Json.asUnsigned 64)).getD 0 % 2 ^ 32
  run env durationMs scorers onFail maxRetries
    { output := ((payload.get "input").or (payload.get "last_output")).getD .null
      precedingMs := ((payload.get "preceding_duration_ms").bind (Json.asUnsigned 64)).getD 0
      precedingCostUsd := ((payload.get "preceding_cost_usd").bind Json.asF64).getD f64Zero }

/-! ### What the action is for -/

theorem length_results [FloatText] [F64] {env : ExecutorEnv} {durationMs maxRetries : ℕ}
    {scorers : List EvalScorer} {onFail : EvalOnFail} {subject : EvalSubject}
    {result : ExecutionResult} (h : run env durationMs scorers onFail maxRetries subject = .ok result) :
    ∃ items, result.output.get "scorers" = some (.array items) ∧
      items.length = scorers.length := by
  obtain ⟨results, hresults, hconclude⟩ := Fallible.bind_eq_ok.mp h
  have hlength := (Fallible.forall₂_of_mapM hresults).length_eq
  refine ⟨results.map ScorerResult.toJson, ?_, by simp [hlength]⟩
  cases hhalt : !results.all (·.passed) && onFail == .halt with
  | true => simp [conclude, hhalt] at hconclude
  | false =>
    simp only [conclude, hhalt] at hconclude
    cases hconclude
    simp [Json.ofFields, Json.get, BTree.insertAll, BTree.get_insert]

theorem run_nil [FloatText] [F64] (env : ExecutorEnv) (durationMs : ℕ) (onFail : EvalOnFail)
    (maxRetries : ℕ) (subject : EvalSubject) :
    run env durationMs [] onFail maxRetries subject =
      .ok
        { output := Json.ofFields [("passed", .bool true), ("scorers", .array []),
            ("on_fail", .string onFail.asStr), ("max_retries", Json.ofNat maxRetries)]
          statePatch := Json.ofFields [("eval_passed", .bool true),
            ("eval_action", .string "continue"), ("eval_results", .array [])]
          durationMs := durationMs
          finishReason := some "pass" } := rfl

end EvalExecutor

end JamJet
