import JamJet.EvalExecutor

/-! The executors of the embedded worker pool: what each of them runs on, given the payload the
scheduler builds for a node, and what the node's definition asks for. -/

namespace JamJet

namespace ModelNodeExecutor

/-- A message of the payload; a role that is none of the others counts as the user's. -/
def readMessage (msg : Json) : ChatMessage :=
  let role := ((msg.get "role").bind Json.asStr).getD "user"
  let content := ((msg.get "content").bind Json.asStr).getD ""
  match role with
  | "system" => ⟨.system, content⟩
  | "assistant" => ⟨.assistant, content⟩
  | _ => ⟨.user, content⟩

def readMessages : Option Json → List ChatMessage
  | some (.array msgs) => msgs.map readMessage
  | _ => []

def toolCallJson (tc : ToolCall) : Json :=
  Json.ofFields [("id", .string tc.id), ("name", .string tc.name), ("arguments", tc.arguments)]

def startsWith (pat s : String) : Bool := pat.toList.isPrefixOf s.toList

/-- The provider, as far as the name of the model tells it. -/
def systemOf (model : String) : String :=
  let bare := match model.toList.dropWhile (· != '/') with
    | _ :: rest => String.ofList rest
    | [] => model
  if startsWith "anthropic/" model ∨ startsWith "claude" bare then "anthropic"
  else if startsWith "openai/" model ∨ startsWith "gpt" bare ∨ startsWith "o1" bare then "openai"
  else "unknown"

/-- The model call, and what is kept of its response. -/
def call (env : ExecutorEnv) (durationMs : ℕ) (messages : List ChatMessage) (config : ChatConfig)
    (tools : List Json) : Except ExecutorError ExecutionResult :=
  if messages.isEmpty then
    .error (.fatal "ModelNodeExecutor: no prompt or messages provided")
  else
    match env.chat ⟨messages, config, tools⟩ with
    | .error (.rateLimited secs) => .error (.rateLimited secs)
    | .error e => .error (.fatal ("Model call failed: " ++ e.text))
    | .ok response =>
        let toolCallsJson := Json.array (response.toolCalls.map toolCallJson)
        .ok
          { output := Json.ofFields [("content", .string response.content),
              ("model", .string response.model), ("finish_reason", .string response.finishReason),
              ("tool_calls", toolCallsJson)]
            statePatch := Json.ofFields [("last_model_output", .string response.content),
              ("last_model_finish_reason", .string response.finishReason),
              ("last_model_tool_calls", toolCallsJson)]
            durationMs := durationMs
            genAiSystem := some (systemOf response.model)
            genAiModel := some response.model
            inputTokens := some response.inputTokens
            outputTokens := some response.outputTokens
            finishReason := some response.finishReason }

/-- The messages a call is made with: the prompt, if there is one. -/
def messagesFor (prompt : String) (messages : Option Json) : List ChatMessage :=
  if prompt.isEmpty then readMessages messages else [⟨.user, prompt⟩]

def execute [F64] (env : ExecutorEnv) (durationMs : ℕ) (payload : Json) :
    Except ExecutorError ExecutionResult :=
  let prompt := ((payload.get "prompt").bind Json.asStr).getD ""
  let tools := match payload.get "tools" with
    | some (.array tools) => tools
    | _ => []
  call env durationMs (messagesFor prompt (payload.get "messages"))
    { model := some (((payload.get "model").bind Json.asStr).getD "anthropic/claude-sonnet-4-6")
      maxTokens := ((payload.get "max_tokens").bind (Json.asUnsigned 64)).map (· % 2 ^ 32)
      temperature := (payload.get "temperature").bind Json.asF64
      systemPrompt := (payload.get "system_prompt").bind Json.asStr } tools

end ModelNodeExecutor

/-- The nodes the pool has an executor for, with what their definitions ask for. -/
inductive PoolNode
  | model (modelRef promptRef : String) (systemPrompt : Option String) (tools : List Json)
  | eval (scorers : List EvalScorer) (onFail : EvalOnFail) (maxRetries : ℕ)
  | condition (branches : List ConditionalBranch)

namespace PoolNode

/-- The part of the definition that the scheduler reads. -/
def scheduled : PoolNode → NodeKind
  | .model modelRef _ systemPrompt tools => .model modelRef systemPrompt tools
  | .eval .. => .eval
  | .condition branches => .condition branches

/-- The executor that is registered for the kind of a node. -/
def execute [FloatText] [F64] (env : ExecutorEnv) (durationMs : ℕ) (nodeId : NodeId)
    (payload : Json) : PoolNode → Except ExecutorError ExecutionResult
  | .model .. => ModelNodeExecutor.execute env durationMs payload
  | .eval .. => EvalExecutor.execute env durationMs payload
  | .condition _ =>
      (ConditionNodeExecutor.execute env.fromStr env.malformed durationMs nodeId payload).mapError
        .fatal

/-- The execution the definition of a node asks for.  `subject` is what an evaluation is about. -/
def intended [FloatText] [F64] (env : ExecutorEnv) (durationMs : ℕ) (ir : WorkflowIr)
    (state : JsonMap) (subject : EvalExecutor.EvalSubject) :
    PoolNode → Except ExecutorError ExecutionResult
  | .model modelRef promptRef systemPrompt tools =>
      let cfg := ir.models.lookup modelRef
      ModelNodeExecutor.call env durationMs
        (ModelNodeExecutor.messagesFor promptRef (BTree.get state "messages"))
        { model := some ((cfg.map ModelConfig.modelId).getD modelRef)
          maxTokens := cfg.bind (·.maxTokens)
          temperature := (cfg.bind (·.temperature)).filter finiteF64
          systemPrompt := systemPrompt } tools
  | .eval scorers onFail maxRetries =>
      EvalExecutor.run env durationMs scorers onFail maxRetries subject
  | .condition [] =>
      .ok { output := .object [], statePatch := .object [], durationMs := durationMs }
  | .condition branches =>
      .ok
        { output := ConditionNodeExecutor.routing
            (expectedRoute (fun expr => Condition.evalCondition env.fromStr expr (.object state))
              branches) (branches.map (·.target))
          statePatch := .object []
          durationMs := durationMs }

/-- What has to hold of a definition so that nothing of it is missing in the payload. -/
def Carried (state : JsonMap) : PoolNode → Prop
  | .model _ promptRef _ _ =>
      promptRef.isEmpty ∨
        ModelNodeExecutor.readMessages (BTree.get state "messages") = [⟨.user, promptRef⟩]
  | .eval scorers onFail maxRetries => scorers = [] ∧ onFail = .halt ∧ maxRetries = 0
  | .condition _ => True

end PoolNode

theorem Json.asUnsigned_ofNat {width n : ℕ} (h : n < 2 ^ width) :
    Json.asUnsigned width (Json.ofNat n) = some n := by
  have hint : (n : ℤ) < 2 ^ width := by exact_mod_cast h
  simp [Json.asUnsigned, Json.ofNat, hint]

section Payloads

variable {ir : WorkflowIr} {nodeId : NodeId} {retryPolicy : Option String} {state : JsonMap}
  {workflowId workflowVersion : String}

theorem get_modelPayload (modelRef : String) (systemPrompt : Option String) (tools : List Json)
    (k : String) :
    (buildWorkItemPayload ir nodeId ⟨.model modelRef systemPrompt tools, retryPolicy⟩ state
        workflowId workflowVersion).get k =
      (if "messages" = k then BTree.get state "messages" else none).or
      ((if "tools" = k then (if tools.isEmpty then none else some (.array tools)) else none).or
      ((if "system_prompt" = k then systemPrompt.map .string else none).or
      ((if "max_tokens" = k then ((ir.models.lookup modelRef).bind (·.maxTokens)).map Json.ofNat
        else none).or
      ((if "temperature" = k then
          ((ir.models.lookup modelRef).bind (·.temperature)).map fun t => .number (.float t)
        else none).or
      ((Json.ofFields [("workflow_id", .string workflowId),
        ("workflow_version", .string workflowVersion), ("node_id", .string nodeId),
        ("model", .string (((ir.models.lookup modelRef).map ModelConfig.modelId).getD
          modelRef))]).get k))))) := by
  have hfield : ∀ {α : Type} (o : Option α) (key : String) (f : α → Json),
      (o.map fun a => (key, f a)) = (o.map f).map fun v => (key, v) := by
    intro α o key f
    cases o <;> rfl
  have htools : (if tools.isEmpty then [] else [("tools", Json.array tools)]) =
      ((if tools.isEmpty then none else some (Json.array tools)).map fun v => ("tools", v)).toList := by
    split <;> rfl
  simp only [buildWorkItemPayload, NodeKind.payloadFields, htools]
  rw [hfield _ "temperature", hfield _ "max_tokens", hfield _ "system_prompt"]
  simp only [← List.append_assoc, Json.get_ofFields_option]
  rfl

/-- The model's executor reads every field back but the prompt, which the payload does not have. -/
theorem execute_modelPayload [F64] (env : ExecutorEnv) (durationMs : ℕ) (modelRef : String)
    (hlimit : ∀ cfg, ir.models.lookup modelRef = some cfg → ∀ n ∈ cfg.maxTokens, n < 2 ^ 32)
    (systemPrompt : Option String) (tools : List Json) :
    ModelNodeExecutor.execute env durationMs (buildWorkItemPayload ir nodeId
        ⟨.model modelRef systemPrompt tools, retryPolicy⟩ state workflowId workflowVersion) =
      ModelNodeExecutor.call env durationMs
        (ModelNodeExecutor.readMessages (BTree.get state "messages"))
        { model := some (((ir.models.lookup modelRef).map ModelConfig.modelId).getD modelRef)
          maxTokens := (ir.models.lookup modelRef).bind (·.maxTokens)
          temperature := ((ir.models.lookup modelRef).bind (·.temperature)).filter finiteF64
          systemPrompt := systemPrompt } tools := by
  have htools : (match (if tools.isEmpty then none else some (Json.array tools)) with
      | some (.array tools) => tools
      | _ => []) = tools := by
    cases tools <;> rfl
  have hsystem : (systemPrompt.map Json.string).bind Json.asStr = systemPrompt := by
    cases systemPrompt <;> rfl
  have hmaxTokens : ((((ir.models.lookup modelRef).bind (·.maxTokens)).map Json.ofNat).bind
      (Json.asUnsigned 64)).map (· % 2 ^ 32) = (ir.models.lookup modelRef).bind (·.maxTokens) := by
    cases hmax : (ir.models.lookup modelRef).bind (·.maxTokens) with
    | none => rfl
    | some n =>
      obtain ⟨cfg, hcfg, hn⟩ := Option.bind_eq_some_iff.mp hmax
      have hlt := hlimit cfg hcfg n hn
      have hwide : n < 2 ^ 64 := Nat.lt_trans hlt (by decide)
      rw [Option.map_some, Option.bind_some, Json.asUnsigned_ofNat hwide, Option.map_some,
        Nat.mod_eq_of_lt hlt]
  have htemperature : ((((ir.models.lookup modelRef).bind (·.temperature)).map
      fun t => Json.number (.float t)).bind Json.asF64) =
        ((ir.models.lookup modelRef).bind (·.temperature)).filter finiteF64 := by
    cases (ir.models.lookup modelRef).bind (·.temperature) with
    | none => rfl
    | some t => simp [Json.asF64, Option.filter]
  have hget := @get_modelPayload ir nodeId retryPolicy state workflowId workflowVersion modelRef
    systemPrompt tools
  unfold ModelNodeExecutor.execute
  generalize buildWorkItemPayload _ _ _ _ _ _ = payload at hget ⊢
  obtain ⟨hprompt, hmessages, hmodel, hmax, htemp, hsys, htool⟩ :
      payload.get "prompt" = none ∧ payload.get "messages" = BTree.get state "messages" ∧
      payload.get "model" =
        some (.string (((ir.models.lookup modelRef).map ModelConfig.modelId).getD modelRef)) ∧
      payload.get "max_tokens" =
        ((ir.models.lookup modelRef).bind (·.maxTokens)).map Json.ofNat ∧
      payload.get "temperature" =
        ((ir.models.lookup modelRef).bind (·.temperature)).map (fun t => .number (.float t)) ∧
      payload.get "system_prompt" = systemPrompt.map .string ∧
      payload.get "tools" = if tools.isEmpty then none else some (.array tools) := by
    simp only [hget]
    simp [Json.ofFields, Json.get, BTree.insertAll, BTree.get_insert]
  rw [hprompt, hmessages, hmodel, hmax, htemp, hsys, htool, hmaxTokens, htemperature, hsystem]
  simp only [htools]
  rfl

theorem execute_evalPayload [FloatText] [F64] (env : ExecutorEnv) (durationMs : ℕ) :
    EvalExecutor.execute env durationMs (buildWorkItemPayload ir nodeId ⟨.eval, retryPolicy⟩ state
        workflowId workflowVersion) =
      EvalExecutor.run env durationMs [] .halt 0 {} := by
  have hget : ∀ k, (buildWorkItemPayload ir nodeId ⟨.eval, retryPolicy⟩ state workflowId
      workflowVersion).get k =
        if "node_id" = k then some (.string nodeId)
        else if "workflow_version" = k then some (.string workflowVersion)
        else if "workflow_id" = k then some (.string workflowId) else none := by
    intro k
    simp [buildWorkItemPayload, NodeKind.payloadFields, Json.ofFields, Json.get, BTree.insertAll,
      BTree.get_insert]
  simp [EvalExecutor.execute, hget]

theorem execute_conditionPayload [FloatText] [F64] (env : ExecutorEnv) (durationMs : ℕ)
    (branches : List ConditionalBranch) (subject : EvalExecutor.EvalSubject) :
    (PoolNode.condition branches).execute env durationMs nodeId (buildWorkItemPayload ir nodeId
        ⟨.condition branches, retryPolicy⟩ state workflowId workflowVersion) =
      (PoolNode.condition branches).intended env durationMs ir state subject := by
  cases branches with
  | nil =>
    have hget : (buildWorkItemPayload ir nodeId ⟨.condition [], retryPolicy⟩ state workflowId
        workflowVersion).get "branches" = none := by
      simp [buildWorkItemPayload, NodeKind.payloadFields, Json.ofFields, Json.get, BTree.insertAll,
        BTree.get_insert]
    simp [PoolNode.execute, PoolNode.intended, ConditionNodeExecutor.execute, hget,
      Except.mapError]
  | cons b branches =>
    simp only [PoolNode.execute, PoolNode.intended]
    rw [execute_dispatched (List.cons_ne_nil b branches)]
    rfl

end Payloads

/-- A model that answers one conversation only. -/
def answering (messages : List ChatMessage) : ExecutorEnv where
  chat request :=
    if request.messages = messages then .ok ⟨"yes", "model", "stop", 1, 1, []⟩
    else .error (.other "unknown conversation")
  fromStr _ := none
  scorersFromValue _ := none
  onFailFromValue _ := none
  malformed _ := ""
  fixed _ _ := ""

theorem messages_of_call {durationMs : ℕ} {messages messages' : List ChatMessage}
    {config config' : ChatConfig} {tools tools' : List Json} (hne : messages' ≠ [])
    (h : ModelNodeExecutor.call (answering messages') durationMs messages config tools =
      ModelNodeExecutor.call (answering messages') durationMs messages' config' tools') :
    messages = messages' := by
  by_contra hother
  have hempty : messages'.isEmpty = false := by simpa using hne
  have hintended : ∃ result,
      ModelNodeExecutor.call (answering messages') durationMs messages' config' tools' =
        .ok result := by
    simp [ModelNodeExecutor.call, answering, hempty]
  obtain ⟨result, hresult⟩ := hintended
  rw [hresult] at h
  cases hmessages : messages.isEmpty with
  | true => simp [ModelNodeExecutor.call, hmessages] at h
  | false => simp [ModelNodeExecutor.call, answering, hmessages, hother] at h

theorem run_eq_default_iff [FloatText] [F64] (env : ExecutorEnv) (durationMs : ℕ)
    (scorers : List EvalScorer) (onFail : EvalOnFail) (maxRetries : ℕ)
    (subject subject' : EvalExecutor.EvalSubject) :
    EvalExecutor.run env durationMs [] .halt 0 subject' =
        EvalExecutor.run env durationMs scorers onFail maxRetries subject ↔
      scorers = [] ∧ onFail = .halt ∧ maxRetries = 0 := by
  constructor
  · intro h
    rw [EvalExecutor.run_nil] at h
    obtain ⟨items, hitems, hlength⟩ := EvalExecutor.length_results h.symm
    have hscorers : scorers = [] := by
      have hget : some (Json.array []) = some (Json.array items) := by
        rw [← hitems]
        simp [Json.ofFields, Json.get, BTree.insertAll, BTree.get_insert]
      cases hget
      exact List.length_eq_zero_iff.mp hlength.symm
    subst hscorers
    rw [EvalExecutor.run_nil] at h
    have houtput := congrArg (fun r : Except ExecutorError ExecutionResult =>
      r.toOption.map (·.output)) h
    have hkey : ∀ k, ∀ {a b : Json}, some a = some b → a.get k = b.get k := by
      intro k a b hab
      rw [Option.some.inj hab]
    have hon := hkey "on_fail" houtput
    have hretries := hkey "max_retries" houtput
    simp [Json.ofFields, Json.get, BTree.insertAll, BTree.get_insert] at hon hretries
    refine ⟨rfl, (EvalOnFail.asStr_injective hon).symm, ?_⟩
    simpa [Json.ofNat] using hretries.symm
  · rintro ⟨rfl, rfl, rfl⟩
    rw [EvalExecutor.run_nil, EvalExecutor.run_nil]

/-- The executor of the pool does what a node's definition asks for, whatever the model answers,
for the nodes whose definition the payload carries.  The prompt of a model node and all of an eval
node are not in it. -/
theorem execute_payload_iff [FloatText] [F64] (node : PoolNode) (ir : WorkflowIr)
    (hlimits : ∀ modelRef cfg, ir.models.lookup modelRef = some cfg →
      ∀ n ∈ cfg.maxTokens, n < 2 ^ 32)
    (nodeId : NodeId) (retryPolicy : Option String) (state : JsonMap)
    (workflowId workflowVersion : String) (subject : EvalExecutor.EvalSubject) :
    (∀ env durationMs, node.execute env durationMs nodeId (buildWorkItemPayload ir nodeId
        ⟨node.scheduled, retryPolicy⟩ state workflowId workflowVersion) =
      node.intended env durationMs ir state subject) ↔ node.Carried state := by
  cases node with
  | model modelRef promptRef systemPrompt tools =>
    simp only [PoolNode.execute, PoolNode.scheduled, PoolNode.intended, PoolNode.Carried,
      execute_modelPayload _ _ _ (hlimits modelRef)]
    cases hprompt : promptRef.isEmpty with
    | true => simp [ModelNodeExecutor.messagesFor, hprompt]
    | false =>
      simp only [ModelNodeExecutor.messagesFor, hprompt, Bool.false_eq_true, if_false, false_or]
      constructor
      · intro h
        exact messages_of_call (List.cons_ne_nil _ _) (h (answering [⟨.user, promptRef⟩]) 0)
      · intro h env durationMs
        rw [h]
  | eval scorers onFail maxRetries =>
    simp only [PoolNode.execute, PoolNode.scheduled, PoolNode.intended, PoolNode.Carried,
      execute_evalPayload, run_eq_default_iff]
    exact ⟨fun h => h (answering []) 0, fun h _ _ => h⟩
  | condition branches =>
    have h := fun env durationMs => @execute_conditionPayload ir nodeId retryPolicy state workflowId
      workflowVersion _ _ env durationMs branches subject
    simp [PoolNode.scheduled, PoolNode.Carried, h]

/-- A workflow with one model, and a conversation to have with it. -/
def fastIr : WorkflowIr where
  nodes := ∅
  edges := []
  models := Finmap.singleton "fast" ⟨"openai", "small", none, some 512⟩

def greeting : JsonMap :=
  [("messages", .array [Json.ofFields [("role", .string "user"), ("content", .string "hello")]])]

/-- A model node without a prompt of its own. -/
def chatNode : PoolNode := .model "fast" "" (some "Be brief.") []

theorem chatNode_execute_payload :
    @PoolNode.execute bitsText costless (answering [⟨.user, "hello"⟩]) 5 "chat"
        (buildWorkItemPayload fastIr "chat" ⟨chatNode.scheduled, none⟩ greeting "wf" "1.0.0")
        chatNode =
      @PoolNode.intended bitsText costless (answering [⟨.user, "hello"⟩]) 5 fastIr greeting {}
        chatNode := by
  have hlimits : ∀ modelRef cfg, fastIr.models.lookup modelRef = some cfg →
      ∀ n ∈ cfg.maxTokens, n < 2 ^ 32 := by
    intro modelRef cfg hcfg n hn
    have hkey : modelRef = "fast" := by
      simpa [fastIr] using Finmap.mem_of_lookup_eq_some hcfg
    subst hkey
    rw [fastIr, Finmap.lookup_singleton_eq] at hcfg
    cases hcfg
    cases hn
    decide
  exact (@execute_payload_iff bitsText costless chatNode fastIr hlimits "chat" none greeting "wf"
    "1.0.0" {}).mpr (.inl rfl) _ _

/-- An eval node that halts unless the output has an answer. -/
def answerCheck : PoolNode := .eval [.assertion ["'answer' in output"]] .halt 0

/-- Its scorer fails on an output without one, and it completes as passed all the same. -/
theorem answerCheck_passes :
    (@EvalExecutor.runScorer bitsText costless (answering []) {}
      (.assertion ["'answer' in output"])).toOption.map (·.passed) = some false ∧
    ((@PoolNode.execute bitsText costless (answering []) 5 "check"
      (buildWorkItemPayload fastIr "check" ⟨answerCheck.scheduled, none⟩ greeting "wf" "1.0.0")
      answerCheck).toOption.bind fun result => (result.output.get "passed").bind Json.asBool) =
        some true := by
  constructor
  · decide +kernel
  · simp only [answerCheck, PoolNode.execute, PoolNode.scheduled, execute_evalPayload,
      EvalExecutor.run_nil]
    rfl

end JamJet
