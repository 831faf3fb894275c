import JamJet.AgentLoop

/-! The thread of a session over the runs on it, in the process and on the engine: what a run is
seeded with, what it leaves in the thread, and which turns a later run is told of. -/

namespace JamJet.Sessions

open AgentLoop ToolRuntime

/-- A message of the thread. -/
def message (role content : String) : Json :=
  Json.ofFields [("role", .string role), ("content", .string content)]

structure Session where
  id : String
  messages : List Json
  latestExecutionId : Option String

def Session.appendMessage (session : Session) (role content : String) : Session :=
  { session with messages := session.messages ++ [message role content] }

section Seed

/-- `seed_messages_for_run`, of a session. -/
def seedMessagesForRun (session : Session) (systemInstructions prompt : String) : List Json :=
  (if systemInstructions = "" then [] else [message "system" systemInstructions]) ++
    session.messages.filter (fun m => !isSystem m) ++ [message "user" prompt]

/-- `_inject_memory_block` -/
def injectMemoryBlock (messages : List Json) (ctx : String) : List Json :=
  let block := message "system" ("Relevant memory from prior sessions:\n" ++ ctx)
  match messages with
  | [] => [block]
  | first :: rest => if isSystem first then first :: block :: rest else block :: first :: rest

/-- The messages that `_prepare_run` seeds a run on a session with. An agent without memory finds
an empty context. -/
def prepareRun (session : Session) (instructions prompt ctx : String) : List Json :=
  let system := if instructions = "" then "You are a helpful assistant." else instructions
  let initialMessages := seedMessagesForRun session system prompt
  if ctx = "" then initialMessages else injectMemoryBlock initialMessages ctx

/-- `build_initial_state` -/
def buildInitialState (initialMessages : List Json) (toolsMap : Json) : Json :=
  Json.ofFields [("messages", .array initialMessages), ("tools", toolsMap)]

end Seed

section Calls

variable {Obj Val σ : Type}

/-- A run on the engine: the tools of the agent, and what its model and its worker do. -/
structure DurableRun (Obj σ : Type) where
  toolSchemas : List Json
  toolsMap : Json
  maxTurns : ℤ
  responses : ℕ → ModelReply
  process : Process Obj σ

/-- How a call is run: by the strategy in the process, with its final output, or on the engine. -/
inductive RunPath (Obj σ : Type)
  | inProcess (output : String)
  | durable (run : DurableRun Obj σ)

/-- A call of an agent on the session. -/
structure Call (Obj σ : Type) where
  instructions : String
  prompt : String
  memory : String
  executionId : Option String
  path : RunPath Obj σ

/-- The content of the last assistant message that carries text. -/
def lastAssistantContent (messages : List Json) : Option Json :=
  (messages.reverse.find? fun m => (m.get "role" matches some (.string "assistant")) &&
    Condition.isTruthy (m.get "content")).bind fun m => m.get "content"

/-- The output of a completed execution. What is no text is made one. -/
def extractOutput (textOf : Json → String) (state : Json) : String :=
  let messages := match state.get "messages" with
    | some (.array items) => items
    | _ => []
  let output := match state.get "last_model_output" with
    | none | some .null => lastAssistantContent messages
    | some v => some v
  match output with
  | none => ""
  | some (.string s) => s
  | some v => textOf v

/-- `persist_session_turn` -/
def persistSessionTurn (session : Session) (prompt output : String) (executionId : Option String)
    (fullMessages : Option (List Json)) : Session :=
  let session := match fullMessages with
    | some messages => { session with messages := messages.filter fun m => !isSystem m }
    | none => (session.appendMessage "user" prompt).appendMessage "assistant" output
  { session with latestExecutionId := executionId.or session.latestExecutionId }

variable (py : Interpreter Obj Val σ) (parseLiteral : String → Option Json) (textOf : Json → String)

/-- The state a durable run ends in, if it completes. -/
def terminalState (run : DurableRun Obj σ) (initialInput : Json) : Option Json :=
  match compileAgentToIr run.toolSchemas run.maxTurns with
  | .error _ => none
  | .ok ir =>
      match runLoop py parseLiteral run.responses ir (3 * run.maxTurns.toNat + 1) ir.startNode
        ⟨initialInput, run.process, 0⟩ with
      | some (.ok x) => some x.state
      | _ => none

/-- The session after a call, and the output of the call, if it completes. -/
def perform (session : Session) (call : Call Obj σ) : Option (Session × String) :=
  match call.path with
  | .inProcess output =>
      some (persistSessionTurn session call.prompt output call.executionId none, output)
  | .durable run =>
      let initialMessages := prepareRun session call.instructions call.prompt call.memory
      (terminalState py parseLiteral run (buildInitialState initialMessages run.toolsMap)).map
        fun state =>
          let output := extractOutput textOf state
          let fullMessages := match state.get "messages" with
            | some (.array items) => some items
            | _ => none
          (persistSessionTurn session call.prompt output call.executionId fullMessages, output)

/-- The session after the calls, and the turns they made: the prompts and the outputs. -/
def performAll (session : Session) (calls : List (Call Obj σ)) :
    Option (Session × List (String × String)) :=
  calls.foldlM (fun (session, made) call =>
    (perform py parseLiteral textOf session call).map fun (session, output) =>
      (session, made ++ [("user", call.prompt), ("assistant", output)])) (session, [])

end Calls

/-- The turns in a list of messages. -/
def turns (messages : List Json) : List (String × String) := messages.filterMap turnOf

section Statement

variable {Obj Val σ : Type} (py : Interpreter Obj Val σ) (parseLiteral : String → Option Json)
  (textOf : Json → String)

/-- After each of the calls the thread, and so the seed of a next run, has the turns that the
session came with and those of every call so far. -/
def NeverDrops (start : Session) (calls : List (Call Obj σ)) : Prop :=
  ∀ earlier, earlier <+: calls → ∀ session made,
    performAll py parseLiteral textOf start earlier = some (session, made) →
      (turns start.messages ++ made).Sublist (turns session.messages) ∧
      ∀ systemInstructions prompt, (turns start.messages ++ made).Sublist
        (turns (seedMessagesForRun session systemInstructions prompt))

/-- The model says its final answer in a turn that asks for tools too. -/
def AnswerAsked (call : Call Obj σ) : Prop :=
  match call.path with
  | .inProcess _ => True
  | .durable run => (answer run.responses 0 run.maxTurns.toNat).content ∈
      (asked run.responses 0 run.maxTurns.toNat).map ModelReply.content

end Statement

section Turns

theorem turns_append (l l' : List Json) : turns (l ++ l') = turns l ++ turns l' :=
  List.filterMap_append

theorem isSystem_message (role content : String) :
    isSystem (message role content) = decide (role = "system") := by
  rw [isSystem, message, get_ofFields (by simp)]
  by_cases h : role = "system"
  · simp [BTree.get, h]
  · simp [BTree.get, h]

theorem turnOf_user (content : String) : turnOf (message "user" content) = some ("user", content) := by
  rw [turnOf, message, get_ofFields (by simp), get_ofFields (by simp)]
  rfl

theorem turnOf_assistant (content : String) :
    turnOf (message "assistant" content) = some ("assistant", content) := by
  rw [turnOf, message, get_ofFields (by simp), get_ofFields (by simp)]
  rfl

theorem turnOf_of_isSystem {m : Json} (h : isSystem m = true) : turnOf m = none := by
  unfold isSystem at h
  unfold turnOf
  split at h
  · simp [*]
  · cases h

theorem turns_filter (l : List Json) : turns (l.filter fun m => !isSystem m) = turns l := by
  induction l with
  | nil => rfl
  | cons m l ih =>
    cases h : isSystem m with
    | true => simpa [turns, h, turnOf_of_isSystem h] using ih
    | false =>
      rw [List.filter_cons_of_pos (by simp [h]), turns, List.filterMap_cons, turns,
        List.filterMap_cons, show (l.filter fun m => !isSystem m).filterMap turnOf = l.filterMap turnOf
          from ih]

theorem turns_seedMessagesForRun (session : Session) (systemInstructions prompt : String) :
    turns (seedMessagesForRun session systemInstructions prompt) =
      turns session.messages ++ [("user", prompt)] := by
  have hsystem : turns (if systemInstructions = "" then []
      else [message "system" systemInstructions]) = [] := by
    split
    · rfl
    · simp [turns, turnOf_of_isSystem (isSystem_message "system" systemInstructions)]
  have hprompt : turns [message "user" prompt] = [("user", prompt)] := by
    simp [turns, turnOf_user]
  rw [seedMessagesForRun, turns_append, turns_append, hsystem, turns_filter, hprompt, List.nil_append]

theorem turns_injectMemoryBlock (messages : List Json) (ctx : String) :
    turns (injectMemoryBlock messages ctx) = turns messages := by
  have hblock := turnOf_of_isSystem (isSystem_message "system"
    ("Relevant memory from prior sessions:\n" ++ ctx))
  unfold injectMemoryBlock
  cases messages with
  | nil => simp [turns, hblock]
  | cons first rest =>
    dsimp only
    split
    · simp [turns, List.filterMap_cons, hblock]
    · simp [turns, List.filterMap_cons, hblock]

theorem turns_prepareRun (session : Session) (instructions prompt ctx : String) :
    turns (prepareRun session instructions prompt ctx) =
      turns session.messages ++ [("user", prompt)] := by
  unfold prepareRun
  dsimp only
  split
  · exact turns_seedMessagesForRun _ _ _
  · rw [turns_injectMemoryBlock, turns_seedMessagesForRun]

end Turns

section Calls

variable {Obj Val σ : Type} {py : Interpreter Obj Val σ} {parseLiteral : String → Option Json}
  {textOf : Json → String} {session session' : Session} {call : Call Obj σ} {output : String}

/-- What the thread is told after the prompt of a call. -/
def said (call : Call Obj σ) (output : String) : List (String × String) :=
  match call.path with
  | .inProcess _ => [("assistant", output)]
  | .durable run => (asked run.responses 0 run.maxTurns.toNat).map fun r => ("assistant", r.content)

theorem said_assistant {turn : String × String} (h : turn ∈ said call output) :
    turn.1 = "assistant" := by
  unfold said at h
  cases hpath : call.path with
  | inProcess _ =>
    rw [hpath, List.mem_singleton] at h
    rw [h]
  | durable run =>
    rw [hpath] at h
    obtain ⟨r, -, rfl⟩ := List.mem_map.mp h
    rfl

theorem inLoop_buildInitialState (initialMessages : List Json) (toolsMap : Json) :
    InLoop (buildInitialState initialMessages toolsMap) initialMessages where
  isObject := ⟨_, rfl⟩
  messages := get_ofFields (by simp) _
  assistantContent := get_ofFields (by simp) _

theorem textOf_output {state : Json}
    (h : state.get "last_model_output" = some (.string output)) :
    extractOutput textOf state = output := by
  simp [extractOutput, h]

/-- A completed run on the engine has the last answer of the model as its output, and leaves the
messages of the loop. -/
theorem terminalState_eq_some {run : DurableRun Obj σ} {messages : List Json} {state : Json}
    (hliteral : parseLiteral "\"tool_calls\"" = some (.string "tool_calls"))
    (h : terminalState py parseLiteral run (buildInitialState messages run.toolsMap) = some state) :
    ∃ added, Completed run.responses 0 run.maxTurns.toNat messages state added := by
  unfold terminalState compileAgentToIr at h
  by_cases hturns : run.maxTurns < 1
  · rw [if_pos hturns] at h
    cases h
  · rw [if_neg hturns] at h
    dsimp only at h
    obtain ⟨result, hrun, hcompleted⟩ : ∃ result, runLoop py parseLiteral run.responses
        (unroll run.toolSchemas run.maxTurns.toNat) (3 * run.maxTurns.toNat + 1) (.model 0)
          ⟨buildInitialState messages run.toolsMap, run.process, 0⟩ = some result ∧
        ∀ y, result = .ok y → ∃ added, Completed run.responses 0 run.maxTurns.toNat messages y.state added :=
      runLoop_ends hliteral (Nat.zero_add _) (inLoop_buildInitialState _ _) le_rfl
    rw [show (unroll run.toolSchemas run.maxTurns.toNat).startNode = .model 0 from rfl, hrun] at h
    cases result with
    | error e => cases h
    | ok y =>
      cases h
      exact hcompleted y rfl

theorem terminalState_of_direct (hliteral : parseLiteral "\"tool_calls\"" = some (.string "tool_calls"))
    {run : DurableRun Obj σ} (hturns : 1 ≤ run.maxTurns)
    (hdirect : (run.responses 0).finishReason ≠ "tool_calls") (messages : List Json) :
    ∃ state, terminalState py parseLiteral run (buildInitialState messages run.toolsMap) =
      some state := by
  obtain ⟨more, hmore⟩ : ∃ more, 3 * run.maxTurns.toNat + 1 = more + 1 + 1 :=
    ⟨3 * run.maxTurns.toNat - 1, by omega⟩
  obtain ⟨-, hreason, -⟩ := (inLoop_buildInitialState messages run.toolsMap).model (run.responses 0)
  have hlt : 0 < run.maxTurns.toNat := by omega
  have hnot : ¬ run.maxTurns < 1 := by omega
  unfold terminalState compileAgentToIr
  rw [if_neg hnot, hmore]
  dsimp only
  rw [show (unroll run.toolSchemas run.maxTurns.toNat).startNode = .model 0 from rfl, runLoop,
    stepLoop_model (Nat.zero_le _), if_pos hlt]
  dsimp only
  rw [runLoop, stepLoop_toolGate hlt hliteral hreason, if_neg hdirect]
  exact ⟨_, rfl⟩

/-- The turns of a call are added to the thread, the answer of a call on the engine only when it
asks for tools. -/
theorem perform_turns (hliteral : parseLiteral "\"tool_calls\"" = some (.string "tool_calls"))
    (h : perform py parseLiteral textOf session call = some (session', output)) :
    turns session'.messages = turns session.messages ++ ("user", call.prompt) :: said call output ∧
      (AnswerAsked call ↔ ("assistant", output) ∈ said call output) := by
  unfold perform at h
  unfold said AnswerAsked
  cases hpath : call.path with
  | inProcess out =>
    rw [hpath] at h
    cases h
    refine ⟨?_, by simp⟩
    simp [persistSessionTurn, Session.appendMessage, turns, turnOf_user, turnOf_assistant]
  | durable run =>
    rw [hpath] at h
    obtain ⟨state, hstate, hpersisted⟩ := Option.map_eq_some_iff.mp h
    clear h
    obtain ⟨added, hdone⟩ := terminalState_eq_some hliteral hstate
    rw [textOf_output hdone.output, hdone.inLoop.messages] at hpersisted
    cases hpersisted
    refine ⟨?_, by simp⟩
    have hadded : turns added = (asked run.responses 0 run.maxTurns.toNat).map fun r =>
        ("assistant", r.content) := hdone.said
    rw [persistSessionTurn, turns_filter, turns_append, turns_prepareRun, hadded, List.append_assoc,
      List.singleton_append]

theorem performAll_concat (calls : List (Call Obj σ)) :
    performAll py parseLiteral textOf session (calls ++ [call]) =
      (performAll py parseLiteral textOf session calls).bind fun (session, made) =>
        (perform py parseLiteral textOf session call).map fun (session, output) =>
          (session, made ++ [("user", call.prompt), ("assistant", output)]) := by
  rw [performAll, List.foldlM_append]
  simp [performAll, Option.bind_eq_bind]

theorem performAll_concat_eq_some {calls : List (Call Obj σ)} {made : List (String × String)}
    (h : performAll py parseLiteral textOf session (calls ++ [call]) = some (session', made)) :
    ∃ before told output, performAll py parseLiteral textOf session calls = some (before, told) ∧
      perform py parseLiteral textOf before call = some (session', output) ∧
      made = told ++ [("user", call.prompt), ("assistant", output)] := by
  rw [performAll_concat] at h
  obtain ⟨⟨before, told⟩, hbefore, hcall⟩ := Option.bind_eq_some_iff.mp h
  obtain ⟨⟨after, output⟩, hafter, hmade⟩ := Option.map_eq_some_iff.mp hcall
  cases hmade
  exact ⟨before, told, output, hbefore, hafter, rfl⟩

end Calls

section Threads

variable {Obj Val σ : Type} {py : Interpreter Obj Val σ} {parseLiteral : String → Option Json}
  {textOf : Json → String} {start session : Session} {calls : List (Call Obj σ)}
  {made : List (String × String)}

/-- The prompts of a thread. -/
def prompts (l : List (String × String)) : ℕ := l.countP fun turn => turn.1 = "user"

theorem prompts_said (call : Call Obj σ) (output : String) : prompts (said call output) = 0 := by
  rw [prompts, List.countP_eq_zero]
  intro turn hturn
  simp [said_assistant hturn]

theorem prompts_performAll (hliteral : parseLiteral "\"tool_calls\"" = some (.string "tool_calls"))
    (h : performAll py parseLiteral textOf start calls = some (session, made)) :
    prompts (turns session.messages) = prompts (turns start.messages ++ made) := by
  induction calls using List.reverseRecOn generalizing session made with
  | nil =>
    cases h
    rw [List.append_nil]
  | append_singleton calls call ih =>
    obtain ⟨before, told, output, hbefore, hcall, rfl⟩ := performAll_concat_eq_some h
    have htold := ih hbefore
    have hsaid := prompts_said call output
    rw [(perform_turns hliteral hcall).1]
    simp only [prompts, List.countP_append, List.countP_cons] at htold hsaid ⊢
    simp
    omega

theorem turns_sublist (hliteral : parseLiteral "\"tool_calls\"" = some (.string "tool_calls"))
    (hasked : ∀ call ∈ calls, AnswerAsked call)
    (h : performAll py parseLiteral textOf start calls = some (session, made)) :
    (turns start.messages ++ made).Sublist (turns session.messages) := by
  induction calls using List.reverseRecOn generalizing session made with
  | nil =>
    cases h
    rw [List.append_nil]
  | append_singleton calls call ih =>
    obtain ⟨before, told, output, hbefore, hcall, rfl⟩ := performAll_concat_eq_some h
    obtain ⟨hturns, hiff⟩ := perform_turns hliteral hcall
    have hanswer := List.singleton_sublist.mpr (hiff.mp (hasked call (by simp)))
    have htold := ih (fun c hc => hasked c (by simp [hc])) hbefore
    rw [hturns, ← List.append_assoc]
    exact htold.append (hanswer.cons_cons _)

theorem sublist_of_concat_sublist_append {α : Type} {l l₁ l₂ : List α} {x : α} (hx : x ∉ l₂)
    (h : (l ++ [x]).Sublist (l₁ ++ l₂)) : (l ++ [x]).Sublist l₁ := by
  obtain ⟨a, b, hab, ha, hb⟩ := List.sublist_append_iff.mp h
  rcases List.eq_nil_or_concat b with rfl | ⟨b, y, rfl⟩
  · rwa [hab, List.append_nil]
  · have hlast : x = y := by
      have := congrArg List.getLast? hab
      simpa using this
    exact absurd (hb.subset (by simp [hlast])) hx

theorem answerAsked_of_sublist (hliteral : parseLiteral "\"tool_calls\"" = some (.string "tool_calls"))
    {call : Call Obj σ}
    (h : performAll py parseLiteral textOf start (calls ++ [call]) = some (session, made))
    (hkept : (turns start.messages ++ made).Sublist (turns session.messages)) : AnswerAsked call := by
  obtain ⟨before, told, output, hbefore, hcall, rfl⟩ := performAll_concat_eq_some h
  obtain ⟨hturns, hiff⟩ := perform_turns hliteral hcall
  rw [hiff]
  by_contra hdropped
  have hprompts := prompts_performAll hliteral hbefore
  rw [hturns, show turns start.messages ++ (told ++ [("user", call.prompt), ("assistant", output)]) =
    (turns start.messages ++ told ++ [("user", call.prompt)]) ++ [("assistant", output)] by simp] at hkept
  have hlast : ("assistant", output) ∉ ("user", call.prompt) :: said call output := by
    simp [hdropped]
  have hcount := (sublist_of_concat_sublist_append hlast hkept).countP_le
    (p := fun turn => turn.1 = "user")
  simp only [prompts, List.countP_append, List.countP_cons] at hprompts hcount
  simp at hcount
  omega

/-- A session keeps every turn just when the answers on the engine ask for tools. -/
theorem neverDrops_iff (hliteral : parseLiteral "\"tool_calls\"" = some (.string "tool_calls"))
    (hcompleted : (performAll py parseLiteral textOf start calls).isSome) :
    NeverDrops py parseLiteral textOf start calls ↔ ∀ call ∈ calls, AnswerAsked call := by
  constructor
  · intro hkept call hcall
    obtain ⟨earlier, later, rfl⟩ := List.append_of_mem hcall
    have hearlier : earlier ++ [call] <+: earlier ++ call :: later := ⟨later, by simp⟩
    obtain ⟨⟨session, made⟩, hrun⟩ : ∃ outcome,
        performAll py parseLiteral textOf start (earlier ++ [call]) = some outcome := by
      rw [performAll, List.append_cons, List.foldlM_append] at hcompleted
      exact Option.isSome_iff_exists.mp (Option.isSome_of_isSome_bind hcompleted)
    exact answerAsked_of_sublist hliteral hrun (hkept _ hearlier session made hrun).1
  · intro hasked earlier hearlier session made hrun
    have hkept := turns_sublist hliteral (fun call hcall => hasked call (hearlier.subset hcall)) hrun
    refine ⟨hkept, fun systemInstructions prompt => ?_⟩
    rw [turns_seedMessagesForRun]
    exact hkept.trans (List.sublist_append_left _ _)

end Threads

/-- JSON reads the text that the gates compare with. -/
def toolCallsLiteral (s : String) : Option Json :=
  if s = "\"tool_calls\"" then some (.string "tool_calls") else none

/-- A question on a new session in the process, and one on the engine that the model answers
without tools. -/
def greeting : Call String Unit := ⟨"", "Hello", "", none, .inProcess "Hi"⟩

def answeredAtOnce : DurableRun String Unit :=
  ⟨[], .object [], 8, fun _ => ⟨"4", "stop", []⟩, ⟨[], ()⟩⟩

def question : Call String Unit := ⟨"", "2 + 2?", "", some "execution-1", .durable answeredAtOnce⟩

def newSession : Session := ⟨"session-1", [], none⟩

theorem perform_question (session : Session) : ∃ outcome,
    perform oneModule toolCallsLiteral (fun _ => "") session question = some outcome := by
  obtain ⟨state, hstate⟩ : ∃ state, terminalState oneModule toolCallsLiteral answeredAtOnce
      (buildInitialState (prepareRun session "" "2 + 2?" "") (.object [])) = some state :=
    terminalState_of_direct rfl (by decide) (by decide) _
  exact ⟨_, congrArg (Option.map _) hstate⟩

theorem performAll_question (calls : List (Call String Unit)) {session : Session}
    {made : List (String × String)}
    (h : performAll oneModule toolCallsLiteral (fun _ => "") newSession calls = some (session, made)) :
    (performAll oneModule toolCallsLiteral (fun _ => "") newSession (calls ++ [question])).isSome := by
  obtain ⟨outcome, hquestion⟩ := perform_question session
  rw [performAll_concat, h, Option.bind_some]
  dsimp only
  rw [hquestion]
  rfl

theorem neverDrops_twoCalls :
    NeverDrops oneModule toolCallsLiteral (fun _ => "") newSession [greeting, question] ↔
      ∀ call ∈ [greeting, question], AnswerAsked call :=
  neverDrops_iff rfl (performAll_question [greeting] rfl)

/-- The answer of the engine is not in the thread. -/
theorem direct_answer_dropped :
    (performAll oneModule toolCallsLiteral (fun _ => "") newSession [question]).isSome ∧
      ¬ NeverDrops oneModule toolCallsLiteral (fun _ => "") newSession [question] := by
  have hcompleted := performAll_question [] rfl
  obtain ⟨⟨session, made⟩, hrun⟩ := Option.isSome_iff_exists.mp hcompleted
  refine ⟨hcompleted, fun hkept => ?_⟩
  have hasked : AnswerAsked question :=
    answerAsked_of_sublist rfl hrun (hkept _ List.prefix_rfl session made hrun).1
  simp [AnswerAsked, question, answeredAtOnce, asked] at hasked

end JamJet.Sessions
