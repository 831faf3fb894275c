import JamJet.StateAgreement
import JamJet.ToolRuntime

/-! The durable loop of an agent: the graph it is compiled to, a turn of model, gate and tools after
the other, and what a run of that graph makes of the messages. -/

namespace JamJet.AgentLoop

open Materializer ToolRuntime

/-- The model calls, the gates and the dispatches of the turns. -/
inductive LoopId
  | model (turn : ℕ)
  | toolGate (turn : ℕ)
  | tools (turn : ℕ)
  deriving DecidableEq

def LoopId.text : LoopId → String
  | .model turn => "__model_" ++ toString turn ++ "__"
  | .toolGate turn => "__tool_gate_" ++ toString turn ++ "__"
  | .tools turn => "__tools_" ++ toString turn ++ "__"

inductive LoopKind
  | model (tools : List Json)
  | condition (branches : List BranchDef)
  | pythonFn (moduleName function : String)

/-- An edge, to a node or to the end. -/
structure LoopEdge where
  src : LoopId
  dst : Option LoopId
  condition : Option String

def targetText : Option LoopId → String
  | some id => id.text
  | none => "end"

structure LoopIr where
  startNode : LoopId
  nodes : List (LoopId × LoopKind)
  edges : List LoopEdge

section Compile

def toolCallsExpr : String := "state.last_model_finish_reason == \"tool_calls\""

/-- The nodes of a turn. -/
def turnNodes (toolSchemas : List Json) (turn : ℕ) : List (LoopId × LoopKind) :=
  [(.model turn, .model toolSchemas),
    (.toolGate turn, .condition
      [⟨some toolCallsExpr, targetText (some (.tools turn))⟩, ⟨none, targetText none⟩]),
    (.tools turn, .pythonFn "jamjet.agents.tool_runtime" "dispatch_tool_calls")]

def turnEdges (turn : ℕ) : List LoopEdge :=
  [⟨.model turn, some (.toolGate turn), none⟩,
    ⟨.toolGate turn, some (.tools turn), some toolCallsExpr⟩, ⟨.toolGate turn, none, none⟩,
    ⟨.tools turn, some (.model (turn + 1)), none⟩]

/-- The turns one after another, and a last model call that is offered no tools. -/
def unroll (toolSchemas : List Json) (maxTurns : ℕ) : LoopIr where
  startNode := .model 0
  nodes := (List.range maxTurns).flatMap (turnNodes toolSchemas) ++ [(.model maxTurns, .model [])]
  edges := (List.range maxTurns).flatMap turnEdges ++ [⟨.model maxTurns, none, none⟩]

/-- `compile_agent_to_ir`. -/
def compileAgentToIr (toolSchemas : List Json) (maxTurns : ℤ) : Except String LoopIr :=
  if maxTurns < 1 then .error "max_turns must be >= 1" else .ok (unroll toolSchemas maxTurns.toNat)

end Compile

section Run

/-- What a model call answers. -/
structure ModelReply where
  content : String
  finishReason : String
  toolCalls : List Json

/-- The state patch of a model node. -/
def ModelReply.patch (r : ModelReply) : Json :=
  Json.ofFields [("last_model_output", .string r.content),
    ("last_model_finish_reason", .string r.finishReason),
    ("last_model_tool_calls", .array r.toolCalls)]

variable {Obj Val σ : Type}

/-- An execution: its state, the process of the worker, and how many model calls it has made. -/
structure Exec (Obj σ : Type) where
  state : Json
  process : Process Obj σ
  answered : ℕ

def LoopIr.kindOf (ir : LoopIr) (id : LoopId) : Option LoopKind :=
  ((ir.nodes.filter fun node => node.1 = id).head?).map Prod.snd

def LoopIr.edgesFrom (ir : LoopIr) (id : LoopId) : List LoopEdge :=
  ir.edges.filter fun edge => edge.src = id

variable (py : Interpreter Obj Val σ) (parseLiteral : String → Option Json)
  (responses : ℕ → ModelReply)

/-- A node is executed and an edge is taken, of a condition node the one to the branch it chose. -/
def stepLoop (ir : LoopIr) (id : LoopId) (x : Exec Obj σ) :
    Option (Except Raised (Option LoopId × Exec Obj σ)) :=
  match ir.kindOf id with
  | none => none
  | some (.model _) => (ir.edgesFrom id).head?.map fun edge =>
      .ok (edge.dst, { x with
        state := jsonMergePatch x.state (responses x.answered).patch
        answered := x.answered + 1 })
  | some (.condition branches) =>
      (ConditionNodeExecutor.resolve parseLiteral x.state branches).bind fun chosen =>
        ((ir.edgesFrom id).find? fun edge => targetText edge.dst = chosen).map fun edge =>
          .ok (edge.dst, x)
  | some (.pythonFn _ _) =>
      let ran := dispatchToolCalls py x.state.members x.process
      match ran.result with
      | .error e => some (.error e)
      | .ok patch => (ir.edgesFrom id).head?.map fun edge =>
          .ok (edge.dst, { x with state := jsonMergePatch x.state patch, process := ran.process })

/-- From a node to the end, in at most so many steps. -/
def runLoop (ir : LoopIr) : ℕ → LoopId → Exec Obj σ → Option (Except Raised (Exec Obj σ))
  | 0, _, _ => none
  | fuel + 1, id, x =>
      match stepLoop py parseLiteral responses ir id x with
      | none => none
      | some (.error e) => some (.error e)
      | some (.ok (none, x)) => some (.ok x)
      | some (.ok (some next, x)) => runLoop ir fuel next x

end Run

section Messages

/-- `message.get("role") == "system"` -/
def isSystem (m : Json) : Bool := m.get "role" matches some (.string "system")

/-- What a user or an assistant says. -/
def turnOf (m : Json) : Option (String × String) :=
  match m.get "role", m.get "content" with
  | some (.string "user"), some (.string content) => some ("user", content)
  | some (.string "assistant"), some (.string content) => some ("assistant", content)
  | _, _ => none

/-- The model turns that ask for tools, from a call on, in at most so many turns. -/
def asked (responses : ℕ → ModelReply) : ℕ → ℕ → List ModelReply
  | _, 0 => []
  | call, turns + 1 =>
      if (responses call).finishReason = "tool_calls" then
        responses call :: asked responses (call + 1) turns
      else []

/-- The model turn after them. -/
def answer (responses : ℕ → ModelReply) (call turns : ℕ) : ModelReply :=
  responses (call + (asked responses call turns).length)

end Messages

section Graph

variable {toolSchemas : List Json} {maxTurns turn : ℕ}

theorem filter_turns {α : Type} {f : ℕ → List α} {p : α → Bool}
    (h : ∀ s ≠ turn, (f s).filter p = []) : ((List.range maxTurns).flatMap f).filter p =
      if turn < maxTurns then (f turn).filter p else [] := by
  induction maxTurns with
  | zero => simp
  | succ n ih =>
    rw [List.range_succ, List.flatMap_append, List.filter_append, ih, List.flatMap_singleton]
    by_cases hlt : turn < n
    · rw [if_pos hlt, if_pos (Nat.lt_succ_of_lt hlt), h n hlt.ne', List.append_nil]
    · rw [if_neg hlt, List.nil_append]
      by_cases heq : n = turn
      · rw [if_pos (by omega), heq]
      · rw [if_neg (by omega), h n heq]

variable (turn) in
theorem filter_nodes {id : LoopId} (h : ∀ s ≠ turn, ∀ node ∈ turnNodes toolSchemas s, node.1 ≠ id) :
    (unroll toolSchemas maxTurns).nodes.filter (fun node => node.1 = id) =
      (if turn < maxTurns then (turnNodes toolSchemas turn).filter fun node => node.1 = id else []) ++
        [(.model maxTurns, .model [])].filter fun node => node.1 = id := by
  have hother : ∀ s ≠ turn, (turnNodes toolSchemas s).filter (fun node => node.1 = id) = [] :=
    fun s hs => List.filter_eq_nil_iff.mpr fun node hnode => by simpa using h s hs node hnode
  rw [unroll, List.filter_append, filter_turns hother]

variable (turn) in
theorem filter_edges {id : LoopId} (h : ∀ s ≠ turn, ∀ edge ∈ turnEdges s, edge.src ≠ id) :
    (unroll toolSchemas maxTurns).edgesFrom id =
      (if turn < maxTurns then (turnEdges turn).filter fun edge => edge.src = id else []) ++
        [⟨.model maxTurns, none, none⟩].filter fun edge => edge.src = id := by
  have hother : ∀ s ≠ turn, (turnEdges s).filter (fun edge => edge.src = id) = [] :=
    fun s hs => List.filter_eq_nil_iff.mpr fun edge hedge => by simpa using h s hs edge hedge
  rw [LoopIr.edgesFrom, unroll, List.filter_append, filter_turns hother]

theorem kindOf_model : (unroll toolSchemas maxTurns).kindOf (.model turn) =
    if turn < maxTurns then some (.model toolSchemas)
    else if turn = maxTurns then some (.model []) else none := by
  rw [LoopIr.kindOf, filter_nodes turn (by simp [turnNodes])]
  by_cases hlt : turn < maxTurns
  · simp [hlt, turnNodes]
  · by_cases heq : turn = maxTurns
    · simp [heq]
    · have hne : ¬ maxTurns = turn := fun h => heq h.symm
      simp [hlt, heq, hne]

theorem kindOf_toolGate (h : turn < maxTurns) :
    (unroll toolSchemas maxTurns).kindOf (.toolGate turn) = some (.condition
      [⟨some toolCallsExpr, targetText (some (.tools turn))⟩, ⟨none, targetText none⟩]) := by
  rw [LoopIr.kindOf, filter_nodes turn (by simp [turnNodes])]
  simp [h, turnNodes]

theorem kindOf_tools (h : turn < maxTurns) : (unroll toolSchemas maxTurns).kindOf (.tools turn) =
    some (.pythonFn "jamjet.agents.tool_runtime" "dispatch_tool_calls") := by
  rw [LoopIr.kindOf, filter_nodes turn (by simp [turnNodes])]
  simp [h, turnNodes]

theorem edgesFrom_model : (unroll toolSchemas maxTurns).edgesFrom (.model turn) =
    if turn < maxTurns then [⟨.model turn, some (.toolGate turn), none⟩]
    else if turn = maxTurns then [⟨.model turn, none, none⟩] else [] := by
  rw [filter_edges turn (by simp [turnEdges])]
  by_cases hlt : turn < maxTurns
  · simp [hlt, hlt.ne', turnEdges]
  · by_cases heq : turn = maxTurns
    · simp [heq]
    · have hne : ¬ maxTurns = turn := fun h => heq h.symm
      simp [hlt, heq, hne]

theorem edgesFrom_toolGate (h : turn < maxTurns) :
    (unroll toolSchemas maxTurns).edgesFrom (.toolGate turn) =
      [⟨.toolGate turn, some (.tools turn), some toolCallsExpr⟩, ⟨.toolGate turn, none, none⟩] := by
  rw [filter_edges turn (by simp [turnEdges])]
  simp [h, turnEdges]

theorem edgesFrom_tools (h : turn < maxTurns) :
    (unroll toolSchemas maxTurns).edgesFrom (.tools turn) =
      [⟨.tools turn, some (.model (turn + 1)), none⟩] := by
  rw [filter_edges turn (by simp [turnEdges])]
  simp [h, turnEdges]

end Graph

section Gate

variable {parseLiteral : String → Option Json} {state : Json} {reason : String} {turn : ℕ}

theorem evalCondition_toolCalls
    (hliteral : parseLiteral "\"tool_calls\"" = some (.string "tool_calls"))
    (hreason : state.get "last_model_finish_reason" = some (.string reason)) :
    Condition.evalCondition parseLiteral toolCallsExpr state = decide (reason = "tool_calls") := by
  have hexpr : Condition.trim toolCallsExpr.toList = toolCallsExpr.toList := by decide
  have hop : Condition.findFirstOp toolCallsExpr.toList =
      some ("state.last_model_finish_reason ".toList, .eq, " \"tool_calls\"".toList) := by decide
  have hpath : Condition.statePath (Condition.trim "state.last_model_finish_reason ".toList) =
      some "last_model_finish_reason".toList := by decide
  have hrhs : String.ofList (Condition.trim " \"tool_calls\"".toList) = "\"tool_calls\"" := by decide
  have hsplit : "last_model_finish_reason".toList.splitOn '.' =
      ["last_model_finish_reason".toList] := by decide
  have hresolve : Condition.resolvePath state "last_model_finish_reason".toList =
      some (.string reason) := by
    rw [Condition.resolvePath, hsplit]
    cases state with
    | object fields =>
      rw [List.foldlM_cons, Condition.descend, if_neg (by decide), String.ofList_toList]
      exact congrArg (· >>= fun v => [].foldlM Condition.descend v) hreason
    | _ => cases hreason
  have hnonempty : toolCallsExpr.toList.isEmpty = false := by decide
  rw [Condition.evalCondition, hexpr]
  simp only [hnonempty, hop, Condition.evalComparison, hpath, hrhs, hliteral, hresolve,
    Condition.valuesEqual, Condition.jsonEqual]
  simp

theorem resolve_gate (hliteral : parseLiteral "\"tool_calls\"" = some (.string "tool_calls"))
    (hreason : state.get "last_model_finish_reason" = some (.string reason)) :
    ConditionNodeExecutor.resolve parseLiteral state
      [⟨some toolCallsExpr, targetText (some (.tools turn))⟩, ⟨none, targetText none⟩] =
      some (targetText (if reason = "tool_calls" then some (.tools turn) else none)) := by
  have hgate := evalCondition_toolCalls hliteral hreason
  by_cases h : reason = "tool_calls"
  · simp [ConditionNodeExecutor.resolve, ConditionNodeExecutor.considerBranch, hgate, h]
  · simp [ConditionNodeExecutor.resolve, ConditionNodeExecutor.considerBranch, hgate, h]

theorem targetText_tools_ne : targetText (some (.tools turn)) ≠ targetText none := by
  intro h
  have hchars := congrArg String.toList h
  simp [targetText, LoopId.text] at hchars

end Gate

section Dispatch

variable {Obj Val σ : Type} {py : Interpreter Obj Val σ} {input : JsonMap} {messages : List Json}

theorem get_ofFields {fields : List (String × Json)} (h : (fields.map Prod.fst).Nodup)
    (key : String) : (Json.ofFields fields).get key = BTree.get fields key := by
  rw [Json.ofFields, Json.get, BTree.get_insertAll_of_nodup h, BTree.get_nil, Option.or_none]

theorem role_of_runCall {tools call : Json} {p : Process Obj σ} {m : Json}
    (h : (runCall py tools call p).result = .ok m) : m.get "role" = some (.string "tool") := by
  unfold runCall at h
  split at h
  · dsimp only at h
    split at h
    · cases h
    · split at h
      · cases h
      · split at h
        · cases h
        · split at h
          · cases h
          · cases h
            exact get_ofFields (by simp) _
  · cases h

theorem role_of_runCalls {tools : Json} {calls : List Json} {p : Process Obj σ} {results : List Json}
    (h : (runCalls py tools calls p).result = .ok results) :
    ∀ m ∈ results, m.get "role" = some (.string "tool") := by
  induction calls generalizing p results with
  | nil =>
    cases h
    simp
  | cons call calls ih =>
    rw [runCalls] at h
    dsimp only at h
    cases hhead : (runCall py tools call p).result with
    | error e =>
      rw [hhead] at h
      cases h
    | ok message =>
      rw [hhead] at h
      obtain ⟨rest, hrest, rfl⟩ := Fallible.map_eq_ok.mp h
      exact List.forall_mem_cons.mpr ⟨role_of_runCall hhead, ih hrest⟩

/-- What the dispatch makes of the messages: the turn that asked for the calls, and their results. -/
theorem dispatch_eq_ok {p : Process Obj σ} {content : String} {patch : Json}
    (hmessages : BTree.get input "messages" = some (.array messages))
    (hcontent : BTree.get input "last_model_output" = some (.string content))
    (hassistant : BTree.get input "assistant_content" = none)
    (h : (dispatchToolCalls py input p).result = .ok patch) :
    ∃ assistant results, patch = Json.ofFields [("messages", .array (messages ++ assistant :: results))] ∧
      turnOf assistant = some ("assistant", content) ∧ isSystem assistant = false ∧
      ∀ m ∈ results, turnOf m = none ∧ isSystem m = false := by
  have hitems : iterate (orElse (getItem input "messages") (.array [])) = .ok messages := by
    rw [getItem, hmessages, Option.getD_some, orElse]
    cases messages with
    | nil => rfl
    | cons m rest => simp [Condition.isTruthy, iterate]
  have hsaid : orElse (assistantContent input) (.string "") = .string content := by
    rw [assistantContent, getItem, hassistant, Option.getD_none]
    dsimp only
    rw [getItem, hcontent, Option.getD_some, orElse]
    by_cases hempty : content = ""
    · simp [hempty]
    · simp [Condition.isTruthy, hempty]
  unfold dispatchToolCalls at h
  cases hopening : openingMessages py input with
  | error e =>
    rw [hopening] at h
    cases h
  | ok opened =>
    obtain ⟨opened, calls⟩ := opened
    rw [hopening] at h
    obtain ⟨results, hresults, hpatch⟩ := Fallible.map_eq_ok.mp h
    unfold openingMessages at hopening
    obtain ⟨items, hi, hrest⟩ := Fallible.bind_eq_ok.mp hopening
    obtain ⟨read, -, hcalls⟩ := Fallible.bind_eq_ok.mp hrest
    obtain ⟨asked, -, hpair⟩ := Fallible.bind_eq_ok.mp hcalls
    cases hitems.symm.trans hi
    rw [hsaid] at hpair
    cases hpair
    refine ⟨Json.ofFields [("role", .string "assistant"), ("content", .string content),
      ("tool_calls", .array asked)], results, ?_, ?_, ?_, fun m hm => ?_⟩
    · rw [← hpatch, List.append_assoc, List.singleton_append]
    · rw [turnOf, get_ofFields (by simp), get_ofFields (by simp)]
      rfl
    · rw [isSystem, get_ofFields (by simp)]
      rfl
    · have hrole := role_of_runCalls hresults m hm
      simp [turnOf, isSystem, hrole]

end Dispatch

section Turns

/-- The state of the loop, as far as its turns look at it. -/
structure InLoop (state : Json) (messages : List Json) : Prop where
  isObject : ∃ fields, state = .object fields
  messages : state.get "messages" = some (.array messages)
  assistantContent : state.get "assistant_content" = none

theorem get_merge_of_none {fields : JsonMap} {patch : List (String × Json)}
    (hpatch : (patch.map Prod.fst).Nodup) {key : String} (h : BTree.get patch key = none) :
    (jsonMergePatch (.object fields) (Json.ofFields patch)).get key = BTree.get fields key := by
  have hget := BTree.get_insertAll_of_nodup (m := []) (k := key) hpatch
  rw [h, BTree.get_nil] at hget
  rw [Json.ofFields, jsonMergePatch_object, Json.get, Json.members_object,
    get_mergeFields (BTree.sorted_nil.insertAll patch), hget]
  rfl

theorem get_merge_of_some {fields : JsonMap} {patch : List (String × Json)}
    (hpatch : (patch.map Prod.fst).Nodup) {key : String} {v : Json}
    (h : BTree.get patch key = some v) (hv : ∀ old, mergeMember old v = some v) :
    (jsonMergePatch (.object fields) (Json.ofFields patch)).get key = some v := by
  have hget := BTree.get_insertAll_of_nodup (m := []) (k := key) hpatch
  rw [h, Option.some_or] at hget
  rw [Json.ofFields, jsonMergePatch_object, Json.get, Json.members_object,
    get_mergeFields (BTree.sorted_nil.insertAll patch), hget]
  exact hv _

theorem mergeMember_string (old : Option Json) (s : String) :
    mergeMember old (.string s) = some (.string s) := by
  simp [mergeMember, jsonMergePatch]

theorem mergeMember_array (old : Option Json) (items : List Json) :
    mergeMember old (.array items) = some (.array items) := by
  simp [mergeMember, jsonMergePatch]

theorem InLoop.model {state : Json} {messages : List Json} (h : InLoop state messages)
    (r : ModelReply) :
    InLoop (jsonMergePatch state r.patch) messages ∧
      (jsonMergePatch state r.patch).get "last_model_finish_reason" = some (.string r.finishReason) ∧
      (jsonMergePatch state r.patch).get "last_model_output" = some (.string r.content) := by
  obtain ⟨fields, rfl⟩ := h.isObject
  refine ⟨⟨⟨_, jsonMergePatch_object _ _⟩, ?_, ?_⟩, ?_, ?_⟩
  · exact (get_merge_of_none (by simp) rfl).trans h.messages
  · exact (get_merge_of_none (by simp) rfl).trans h.assistantContent
  · exact get_merge_of_some (by simp) rfl fun old => mergeMember_string old _
  · exact get_merge_of_some (by simp) rfl fun old => mergeMember_string old _

theorem InLoop.dispatch {state : Json} {messages messages' : List Json} (h : InLoop state messages) :
    InLoop (jsonMergePatch state (Json.ofFields [("messages", .array messages')])) messages' := by
  obtain ⟨fields, rfl⟩ := h.isObject
  refine ⟨⟨_, jsonMergePatch_object _ _⟩, ?_, ?_⟩
  · exact get_merge_of_some (by simp) rfl fun old => mergeMember_array old _
  · exact (get_merge_of_none (by simp) rfl).trans h.assistantContent

end Turns

section Runs

variable {Obj Val σ : Type} {py : Interpreter Obj Val σ} {parseLiteral : String → Option Json}
  {responses : ℕ → ModelReply} {toolSchemas : List Json} {maxTurns turn : ℕ} {x : Exec Obj σ}

theorem stepLoop_model (h : turn ≤ maxTurns) :
    stepLoop py parseLiteral responses (unroll toolSchemas maxTurns) (.model turn) x =
      some (.ok (if turn < maxTurns then some (.toolGate turn) else none,
        { x with
          state := jsonMergePatch x.state (responses x.answered).patch
          answered := x.answered + 1 })) := by
  unfold stepLoop
  rw [kindOf_model, edgesFrom_model]
  by_cases hlt : turn < maxTurns
  · simp [hlt]
  · have heq : turn = maxTurns := by omega
    simp [heq]

theorem stepLoop_toolGate (h : turn < maxTurns) {reason : String}
    (hliteral : parseLiteral "\"tool_calls\"" = some (.string "tool_calls"))
    (hreason : x.state.get "last_model_finish_reason" = some (.string reason)) :
    stepLoop py parseLiteral responses (unroll toolSchemas maxTurns) (.toolGate turn) x =
      some (.ok (if reason = "tool_calls" then some (.tools turn) else none, x)) := by
  unfold stepLoop
  rw [kindOf_toolGate h, edgesFrom_toolGate h]
  simp only [resolve_gate hliteral hreason, Option.bind_some]
  by_cases heq : reason = "tool_calls"
  · simp [heq]
  · simp [heq, targetText_tools_ne]

theorem stepLoop_tools (h : turn < maxTurns) :
    stepLoop py parseLiteral responses (unroll toolSchemas maxTurns) (.tools turn) x =
      some ((dispatchToolCalls py x.state.members x.process).result.map fun patch =>
        (some (.model (turn + 1)), { x with
          state := jsonMergePatch x.state patch
          process := (dispatchToolCalls py x.state.members x.process).process })) := by
  unfold stepLoop
  rw [kindOf_tools h, edgesFrom_tools h]
  cases hresult : (dispatchToolCalls py x.state.members x.process).result <;>
    simp [hresult, Except.map]

/-- What a completed loop has added to the messages, and what its output is. -/
structure Completed (responses : ℕ → ModelReply) (call turns : ℕ) (messages : List Json)
    (state : Json) (added : List Json) : Prop where
  inLoop : InLoop state (messages ++ added)
  said : added.filterMap turnOf =
    (asked responses call turns).map fun r => ("assistant", r.content)
  noSystem : ∀ m ∈ added, isSystem m = false
  output : state.get "last_model_output" = some (.string (answer responses call turns).content)

theorem Completed.nil {call turns : ℕ} {messages : List Json} {state : Json}
    (hin : InLoop state messages) (hasked : asked responses call turns = [])
    (houtput : state.get "last_model_output" = some (.string (responses call).content)) :
    Completed responses call turns messages state [] where
  inLoop := by rwa [List.append_nil]
  said := by rw [hasked, List.filterMap_nil, List.map_nil]
  noSystem := by simp
  output := by rw [houtput, answer, hasked, List.length_nil, Nat.add_zero]

theorem Completed.cons {call turns : ℕ} {messages results added : List Json} {assistant state : Json}
    (htools : (responses call).finishReason = "tool_calls")
    (hturn : turnOf assistant = some ("assistant", (responses call).content))
    (hassistant : isSystem assistant = false)
    (hresults : ∀ m ∈ results, turnOf m = none ∧ isSystem m = false)
    (h : Completed responses (call + 1) turns (messages ++ assistant :: results) state added) :
    Completed responses call (turns + 1) messages state (assistant :: results ++ added) := by
  have hasked : asked responses call (turns + 1) =
      responses call :: asked responses (call + 1) turns := if_pos htools
  have hnone : results.filterMap turnOf = [] :=
    List.filterMap_eq_nil_iff.mpr fun m hm => (hresults m hm).1
  refine ⟨by simpa using h.inLoop, ?_, ?_, ?_⟩
  · rw [hasked, List.map_cons, List.filterMap_append, List.filterMap_cons, hturn]
    simp [hnone, h.said]
  · intro m hm
    rcases List.mem_append.mp hm with hm | hm
    · rcases List.mem_cons.mp hm with rfl | hm
      · exact hassistant
      · exact (hresults m hm).2
    · exact h.noSystem m hm
  · rw [h.output, answer, answer, hasked, List.length_cons, Nat.add_assoc, Nat.add_comm 1]

/-- From a model call on, the loop ends: with an error of a tool, or at the first answer that asks for
no tools, or at the last turn. -/
theorem runLoop_ends (hliteral : parseLiteral "\"tool_calls\"" = some (.string "tool_calls"))
    {turns : ℕ} (hturns : turn + turns = maxTurns) {messages : List Json}
    (hstate : InLoop x.state messages) {fuel : ℕ} (hfuel : 3 * turns + 1 ≤ fuel) :
    ∃ result, runLoop py parseLiteral responses (unroll toolSchemas maxTurns) fuel (.model turn) x =
        some result ∧
      ∀ y, result = .ok y → ∃ added, Completed responses x.answered turns messages y.state added := by
  induction turns generalizing turn x messages fuel with
  | zero =>
    obtain ⟨more, rfl⟩ : ∃ more, fuel = more + 1 := ⟨fuel - 1, by omega⟩
    obtain ⟨hin, -, houtput⟩ := hstate.model (responses x.answered)
    have hlast : ¬ turn < maxTurns := by omega
    rw [runLoop, stepLoop_model (by omega), if_neg hlast]
    refine ⟨_, rfl, fun y hy => ⟨[], ?_⟩⟩
    cases hy
    exact Completed.nil hin rfl houtput
  | succ turns ih =>
    obtain ⟨more, rfl⟩ : ∃ more, fuel = more + 1 + 1 + 1 := ⟨fuel - 3, by omega⟩
    obtain ⟨hin, hreason, houtput⟩ := hstate.model (responses x.answered)
    have hlt : turn < maxTurns := by omega
    rw [runLoop, stepLoop_model (by omega), if_pos hlt]
    dsimp only
    rw [runLoop, stepLoop_toolGate hlt hliteral hreason]
    by_cases htools : (responses x.answered).finishReason = "tool_calls"
    · rw [if_pos htools]
      dsimp only
      rw [runLoop, stepLoop_tools hlt]
      dsimp only
      cases hdispatch : (dispatchToolCalls py
          (jsonMergePatch x.state (responses x.answered).patch).members x.process).result with
      | error e => exact ⟨.error e, rfl, fun y hy => by cases hy⟩
      | ok patch =>
        obtain ⟨fields, hfields⟩ := hin.isObject
        rw [hfields] at hdispatch hin houtput ⊢
        obtain ⟨assistant, results, rfl, hturn, hassistant, hresults⟩ :=
          dispatch_eq_ok hin.messages houtput hin.assistantContent hdispatch
        obtain ⟨result, hrun, hresult⟩ := ih (x :=
          { state := jsonMergePatch (.object fields) (Json.ofFields
              [("messages", .array (messages ++ assistant :: results))])
            process := (dispatchToolCalls py fields x.process).process
            answered := x.answered + 1 })
          (show turn + 1 + turns = maxTurns by omega) hin.dispatch
          (show 3 * turns + 1 ≤ more by omega)
        refine ⟨result, hrun, fun y hy => ?_⟩
        obtain ⟨added, hdone⟩ := hresult y hy
        exact ⟨_, hdone.cons htools hturn hassistant hresults⟩
    · rw [if_neg htools]
      refine ⟨_, rfl, fun y hy => ⟨[], ?_⟩⟩
      cases hy
      exact Completed.nil hin (if_neg htools) houtput

end Runs

end JamJet.AgentLoop
