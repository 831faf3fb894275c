import JamJet.ConditionNode
import JamJet.Fallible
import JamJet.PendingCalls

/-! The Python dispatcher of a model turn's tool calls: what it runs, and what the gate has read
of it. -/

namespace JamJet.ToolRuntime

open Condition (isTruthy)

variable {Obj Val σ : Type}

/-- A registered tool: its name, and the function behind it. -/
structure ToolDefinition (Obj : Type) where
  name : String
  fnModule : String
  fnQualname : String
  fn : Obj
  wrapper : Option Obj
  deriving DecidableEq, Repr

namespace ToolDefinition

def toolCallable (defn : ToolDefinition Obj) : Obj := defn.wrapper.getD defn.fn

/-- The tool's own `module:qualname`. -/
def registeredRef (defn : ToolDefinition Obj) : String := defn.fnModule ++ ":" ++ defn.fnQualname

end ToolDefinition

/-- The state of a Python process: the tool registry, and everything else. -/
structure Process (Obj σ : Type) where
  registry : BTree (ToolDefinition Obj)
  heap : σ

def Process.getTool (p : Process Obj σ) (name : String) : Option (ToolDefinition Obj) :=
  BTree.get p.registry name

inductive Raised
  | unnamedCall
  | notRegistered (name : Json)
  | notAReference (name : String)
  | cannotImport (name ref : String)
  | namesNothing (name ref : String)
  | notOwnReference (name ref : String)
  | typeError
  | attributeError
  | other
  deriving Repr

inductive Imported (Obj : Type)
  | module_ (obj : Obj)
  | importError
  | raised

inductive Loaded (Val : Type)
  | value (v : Val)
  | decodeError
  | raised

/-- What a tool is called with: `fn(**arguments)` for a dict, `fn(arguments)` otherwise. -/
inductive Arguments (Val : Type)
  | keywords (fields : List (String × Val))
  | positional (v : Val)

/-- What the interpreter does outside the dispatcher. Importing a module and calling a tool run
code that may do anything to the process. -/
structure Interpreter (Obj Val σ : Type) where
  importModule : String → Process Obj σ → Imported Obj × Process Obj σ
  /-- `inspect.getattr_static(obj, part, None)`, where None is as good as absent. -/
  getattrStatic : σ → Obj → String → Option Obj
  /-- The `ToolDefinition` an object is, if it is one. -/
  definition : σ → Obj → Option (ToolDefinition Obj)
  ofJson : Json → Val
  /-- The entries of a value that is a dict. -/
  asDict : Val → Option (List (String × Val))
  loads : String → Loaded Val
  dumps : Json → Option String
  /-- A text of white space. -/
  blank : String → Bool
  call : Obj → Arguments Val → Process Obj σ → Option Val × Process Obj σ
  stringify : Val → Process Obj σ → Option String × Process Obj σ

section Resolve

variable (py : Interpreter Obj Val σ)

/-- The module and the path of a `module:function` reference whose parts are all there. -/
def reference (ref : List Char) : Option (List Char × List (List Char)) := do
  let (modulePath, fnPath) ← Dispatch.splitOnce ref
  if (modulePath.splitOn '.' ++ fnPath.splitOn '.').any List.isEmpty then none
  else some (modulePath, fnPath.splitOn '.')

/-- The tool an entry's module holds under the entry's path. -/
def importedTool (name ref : String) (modulePath : List Char) (fnPath : List (List Char))
    (p : Process Obj σ) : Except Raised (ToolDefinition Obj) × Process Obj σ :=
  match py.importModule (String.ofList modulePath) p with
  | (.importError, p) => (.error (.cannotImport name ref), p)
  | (.raised, p) => (.error .other, p)
  | (.module_ obj, p) =>
      let found := fnPath.foldlM (fun obj part => py.getattrStatic p.heap obj (String.ofList part)) obj
      match found with
      | none => (.error (.namesNothing name ref), p)
      | some obj =>
          let marker := py.getattrStatic p.heap obj "_jamjet_tool" >>= py.definition p.heap
          match marker with
          | none => (.error (.notOwnReference name ref), p)
          | some defn =>
              if defn.name ≠ name ∨ defn.registeredRef ≠ ref then
                (.error (.notOwnReference name ref), p)
              else (.ok defn, p)

/-- What an import may leave of itself in the registry: the names it overwrote are put back, and
the names it added stay only if the entry is accepted. -/
def Process.restore (snapshot : BTree (ToolDefinition Obj)) (accepted : Bool) (p : Process Obj σ) :
    Process Obj σ :=
  let putBack := BTree.insertAll p.registry snapshot
  let registry :=
    if accepted then putBack else putBack.filter fun entry => (BTree.get snapshot entry.1).isSome
  { p with registry }

/-- The tool an entry that is not the registered tool's own names, and what importing it leaves of
the registry. -/
def verifiedTool (name ref : String) (modulePath : List Char) (fnPath : List (List Char))
    (p : Process Obj σ) : Except Raised (ToolDefinition Obj) × Process Obj σ :=
  let (defn, imported) := importedTool py name ref modulePath fnPath p
  (defn, imported.restore p.registry defn.isOk)

/-- The tool a name with an entry in the tools map runs. -/
def entryTool (name : String) (entry : Json) (p : Process Obj σ) :
    Except Raised (ToolDefinition Obj) × Process Obj σ :=
  match entry.asStr with
  | none => (.error (.notAReference name), p)
  | some ref =>
      match reference ref.toList with
      | none => (.error (.notAReference name), p)
      | some (modulePath, fnPath) =>
          match (p.getTool name).filter fun registered => registered.registeredRef = ref with
          | some registered => (.ok registered, p)
          | none => verifiedTool py name ref modulePath fnPath p

/-- The tool a call of the name runs. -/
def resolveTool (name tools : Json) (p : Process Obj σ) :
    Except Raised (ToolDefinition Obj) × Process Obj σ :=
  if !isTruthy (some name) then (.error .unnamedCall, p)
  else
    match name with
    | .array _ | .object _ => (.error .typeError, p)
    | .string s =>
        match tools.get s with
        | some entry => entryTool py s entry p
        | none =>
            match p.getTool s with
            | some defn => (.ok defn, p)
            | none => (.error (.notRegistered name), p)
    | _ => (.error (.notRegistered name), p)

end Resolve

/-- A call that is run: its name and arguments as they were asked for, the tool that runs, and the
registry the name was looked up in. -/
structure Executed (Obj : Type) where
  name : Json
  arguments : Json
  tool : ToolDefinition Obj
  registry : BTree (ToolDefinition Obj)

/-- How a run ends, the process it leaves, and the calls it has run. -/
structure Outcome (α Obj σ : Type) where
  result : Except Raised α
  process : Process Obj σ
  executed : List (Executed Obj)

/-- `for item in v`. -/
def iterate : Json → Except Raised (List Json)
  | .array items => .ok items
  | .string s => .ok (s.toList.map fun c => .string c.toString)
  | .object fields => .ok (fields.map fun kv => .string kv.1)
  | _ => .error .typeError

/-- `v or default`. -/
def orElse (v default : Json) : Json := if isTruthy (some v) then v else default

/-- `input.get(key)`. -/
def getItem (input : JsonMap) (key : String) : Json := (BTree.get input key).getD .null

section Dispatch

variable (py : Interpreter Obj Val σ)

/-- A call in the shape an assistant message has it. -/
def assistantToolCall : Json → Except Raised Json
  | .object call => do
      let arguments ←
        match getItem call "arguments" with
        | .string s => .ok s
        | v => (py.dumps (if v matches .null then .object [] else v)).elim (.error .other) .ok
      return Json.ofFields [("id", getItem call "id"), ("type", .string "function"),
        ("function", Json.ofFields [("name", getItem call "name"), ("arguments", .string arguments)])]
  | _ => .error .attributeError

def coerceArguments (arguments : Json) : Except Raised Val :=
  match arguments with
  | .string s =>
      if py.blank s then .ok (py.ofJson (.object []))
      else
        match py.loads s with
        | .value v => .ok v
        | .decodeError => .ok (py.ofJson (.object []))
        | .raised => .error .other
  | .null => .ok (py.ofJson (.object []))
  | v => .ok (py.ofJson v)

def callArguments (v : Val) : Arguments Val :=
  match py.asDict v with
  | some fields => .keywords fields
  | none => .positional v

/-- One call of the turn, and the message of its result. -/
def runCall (tools call : Json) (p : Process Obj σ) : Outcome Json Obj σ :=
  match call with
  | .object fields =>
      let name := getItem fields "name"
      match coerceArguments py (getItem fields "arguments") with
      | .error e => ⟨.error e, p, []⟩
      | .ok arguments =>
          match resolveTool py name tools p with
          | (.error e, q) => ⟨.error e, q, []⟩
          | (.ok tool, q) =>
              let executed := [⟨name, getItem fields "arguments", tool, p.registry⟩]
              match py.call tool.toolCallable (callArguments py arguments) q with
              | (none, q) => ⟨.error .other, q, executed⟩
              | (some result, q) =>
                  match py.stringify result q with
                  | (none, q) => ⟨.error .other, q, executed⟩
                  | (some content, q) =>
                      ⟨.ok (Json.ofFields [("role", .string "tool"),
                        ("tool_call_id", getItem fields "id"), ("name", name),
                        ("content", .string content)]), q, executed⟩
  | _ => ⟨.error .attributeError, p, []⟩

/-- The calls one after another, as far as none raises. -/
def runCalls (tools : Json) : List Json → Process Obj σ → Outcome (List Json) Obj σ
  | [], p => ⟨.ok [], p, []⟩
  | call :: calls, p =>
      let head := runCall py tools call p
      match head.result with
      | .error e => ⟨.error e, head.process, head.executed⟩
      | .ok message =>
          let tail := runCalls tools calls head.process
          ⟨tail.result.map (message :: ·), tail.process, head.executed ++ tail.executed⟩

/-- The list a turn's dispatch runs. -/
def toolCalls (input : JsonMap) : Json :=
  match getItem input "tool_calls" with
  | .null => orElse (getItem input "last_model_tool_calls") (.array [])
  | calls => calls

def assistantContent (input : JsonMap) : Json :=
  match getItem input "assistant_content" with
  | .null => getItem input "last_model_output"
  | content => content

/-- The messages before the first call is run. -/
def openingMessages (input : JsonMap) : Except Raised (List Json × List Json) := do
  let messages ← iterate (orElse (getItem input "messages") (.array []))
  let calls ← iterate (toolCalls input)
  let asked ← calls.mapM (assistantToolCall py)
  let assistant := Json.ofFields [("role", .string "assistant"),
    ("content", orElse (assistantContent input) (.string "")), ("tool_calls", .array asked)]
  return (messages ++ [assistant], calls)

/-- The calls of one model turn, and the updated messages. -/
def dispatchToolCalls (input : JsonMap) (p : Process Obj σ) : Outcome Json Obj σ :=
  match openingMessages py input with
  | .error e => ⟨.error e, p, []⟩
  | .ok (messages, calls) =>
      let ran := runCalls py (orElse (getItem input "tools") (.object [])) calls p
      ⟨ran.result.map fun results => Json.ofFields [("messages", .array (messages ++ results))],
        ran.process, ran.executed⟩

end Dispatch

/-- The call the gate read is the one that ran: without an entry in the tools map, by the tool
registered under the name; with one, by a tool that the entry is the own reference of, which is
the registered one if that has the reference, and else another of the name. -/
structure Ran (call : Dispatch.PendingToolCall) (e : Executed Obj) : Prop where
  name : e.name = .string call.name
  arguments : e.arguments = call.arguments
  unmapped : call.handler = none → BTree.get e.registry call.name = some e.tool
  mapped : ∀ ref, call.handler = some ref → e.tool.registeredRef = ref ∧
    (BTree.get e.registry call.name = some e.tool ∨
      e.tool.name = call.name ∧
        ∀ defn, BTree.get e.registry call.name = some defn → defn.registeredRef ≠ ref)

section Read

variable {py : Interpreter Obj Val σ} {p : Process Obj σ} {tool : ToolDefinition Obj}
  {name ref : String} {entry call : Json} {tools : Option JsonMap} {c : Dispatch.PendingToolCall}

theorem importedTool_eq_ok {modulePath : List Char} {fnPath : List (List Char)}
    (h : (importedTool py name ref modulePath fnPath p).1 = .ok tool) :
    tool.name = name ∧ tool.registeredRef = ref := by
  unfold importedTool at h
  split at h
  · cases h
  · cases h
  · dsimp only at h
    split at h
    · cases h
    · split at h
      · cases h
      · split at h
        · cases h
        · rename_i hown
          obtain ⟨hname, href⟩ := not_or.mp hown
          cases h
          exact ⟨not_not.mp hname, not_not.mp href⟩

theorem entryTool_eq_ok (h : (entryTool py name entry p).1 = .ok tool) :
    entry = .string tool.registeredRef ∧ (p.getTool name = some tool ∨ tool.name = name ∧
      ∀ defn, p.getTool name = some defn → defn.registeredRef ≠ tool.registeredRef) := by
  unfold entryTool at h
  split at h
  · cases h
  · rename_i ref hentry
    have hentry : entry = .string ref := by
      cases entry <;> simp_all [Json.asStr]
    split at h
    · cases h
    · split at h
      · rename_i registered hregistered
        obtain ⟨hget, href⟩ := Option.filter_eq_some_iff.mp hregistered
        cases h
        have href : tool.registeredRef = ref := by simpa using href
        exact ⟨by rw [hentry, href], .inl hget⟩
      · rename_i hother
        obtain ⟨hname, href⟩ := importedTool_eq_ok h
        refine ⟨by rw [hentry, href], .inr ⟨hname, fun defn hdefn hsame => ?_⟩⟩
        have hnot := Option.filter_eq_none_iff.mp hother defn hdefn
        simp [hsame, href] at hnot

theorem resolveTool_eq_ok {tools : Json}
    (h : (resolveTool py (.string name) tools p).1 = .ok tool) :
    (tools.get name = none → p.getTool name = some tool) ∧
      ∀ entry, tools.get name = some entry → (entryTool py name entry p).1 = .ok tool := by
  unfold resolveTool at h
  split at h
  · cases h
  · dsimp only at h
    split at h
    · rename_i entry hentry
      refine ⟨fun hnone => absurd (hentry.symm.trans hnone) (by simp), fun entry' hentry' => ?_⟩
      cases hentry.symm.trans hentry'
      exact h
    · rename_i hnone
      refine ⟨fun _ => ?_, fun entry' hentry' => absurd (hnone.symm.trans hentry') (by simp)⟩
      split at h
      · rename_i defn hdefn
        cases h
        exact hdefn
      · cases h

theorem handlerRef_eq_some (h : Dispatch.handlerRef entry = some ref) : entry = .string ref := by
  cases entry with
  | string s =>
    simp only [Dispatch.handlerRef, Json.asStr, Option.bind_eq_bind, Option.bind_some] at h
    split at h
    · cases h
    · obtain ⟨parts, _, h⟩ := Option.bind_eq_some_iff.mp h
      split at h
      · cases h
      · split at h
        · cases h
        · rw [Option.some.inj h]
  | _ => cases h

theorem readCall_eq_ok (h : Dispatch.readCall tools call = .ok c) :
    ∃ fields, call = .object fields ∧ getItem fields "name" = .string c.name ∧
      getItem fields "arguments" = c.arguments ∧
      ((tools.bind fun tools => BTree.get tools c.name) = none ∧ c.handler = none ∨
        ∃ ref, (tools.bind fun tools => BTree.get tools c.name) = some (.string ref) ∧
          c.handler = some ref) := by
  unfold Dispatch.readCall at h
  split at h
  · cases h
  · rename_i name hname
    obtain ⟨v, hv, hstr⟩ := Option.bind_eq_some_iff.mp hname
    have hv' : v = .string name := by
      cases v <;> simp_all [Json.asStr]
    subst hv'
    cases call with
    | object fields =>
      have hget : getItem fields "name" = .string name := by
        change (BTree.get fields "name").getD .null = _
        rw [show BTree.get fields "name" = some (.string name) from hv, Option.getD_some]
      split at h
      · cases h
      · dsimp only at h
        split at h
        · rename_i hnone
          cases h
          exact ⟨fields, rfl, hget, rfl, .inl ⟨hnone, rfl⟩⟩
        · rename_i entry hentry
          split at h
          · cases h
          · rename_i ref href
            cases h
            exact ⟨fields, rfl, hget, rfl, .inr ⟨ref, handlerRef_eq_some href ▸ hentry, rfl⟩⟩
    | _ => cases hv

variable (py p) in
theorem runCall_spec {toolsMap : Json}
    (hmap : ∀ name, toolsMap.get name = tools.bind fun tools => BTree.get tools name)
    (h : Dispatch.readCall tools call = .ok c) :
    ((runCall py toolsMap call p).executed = [] ∧
        ∃ e, (runCall py toolsMap call p).result = .error e) ∨
      ∃ e, (runCall py toolsMap call p).executed = [e] ∧ Ran c e := by
  obtain ⟨fields, rfl, hname, harguments, hhandler⟩ := readCall_eq_ok h
  simp only [runCall, hname, harguments]
  cases coerceArguments py c.arguments with
  | error e => exact .inl ⟨rfl, e, rfl⟩
  | ok arguments =>
    dsimp only
    cases hresolved : resolveTool py (.string c.name) toolsMap p with
    | mk result q =>
      cases result with
      | error e => exact .inl ⟨rfl, e, rfl⟩
      | ok tool =>
        obtain ⟨hunmapped, hmapped⟩ := resolveTool_eq_ok (congrArg Prod.fst hresolved)
        refine .inr ⟨⟨.string c.name, c.arguments, tool, p.registry⟩, ?_, rfl, rfl, ?_, ?_⟩
        · dsimp only
          split
          · rfl
          · split <;> rfl
        · intro hnone
          rcases hhandler with ⟨hentry, _⟩ | ⟨ref, _, hsome⟩
          · exact hunmapped ((hmap _).trans hentry)
          · exact absurd (hnone.symm.trans hsome) (by simp)
        · intro ref href
          rcases hhandler with ⟨_, hnone⟩ | ⟨ref', hentry, hsome⟩
          · exact absurd (hnone.symm.trans href) (by simp)
          · cases hsome.symm.trans href
            obtain ⟨hown, htool⟩ := entryTool_eq_ok (hmapped _ ((hmap _).trans hentry))
            cases hown
            exact ⟨rfl, htool⟩

theorem runCalls_spec {toolsMap : Json}
    (hmap : ∀ name, toolsMap.get name = tools.bind fun tools => BTree.get tools name)
    {calls : List Json} {read : List Dispatch.PendingToolCall}
    (h : List.Forall₂ (fun call c => Dispatch.readCall tools call = .ok c) calls read) :
    ∃ run rest, read = run ++ rest ∧ List.Forall₂ Ran run (runCalls py toolsMap calls p).executed ∧
      (rest = [] ∨ ∃ e, (runCalls py toolsMap calls p).result = .error e) := by
  induction h generalizing p with
  | nil => exact ⟨[], [], rfl, .nil, .inl rfl⟩
  | @cons call c calls read hcall _ ih =>
    have hhead := runCall_spec py p hmap hcall
    rw [runCalls]
    cases hresult : (runCall py toolsMap call p).result with
    | error e =>
      rcases hhead with ⟨hexecuted, _⟩ | ⟨ran, hexecuted, hran⟩
      · exact ⟨[], c :: read, rfl, by simp [hexecuted], .inr ⟨e, rfl⟩⟩
      · exact ⟨[c], read, rfl, by simpa [hexecuted] using hran, .inr ⟨e, rfl⟩⟩
    | ok message =>
      rcases hhead with ⟨_, e, herror⟩ | ⟨ran, hexecuted, hran⟩
      · exact absurd (hresult.symm.trans herror) (by simp)
      · obtain ⟨run, rest, hread, hrun, hrest⟩ := ih (p := (runCall py toolsMap call p).process)
        refine ⟨c :: run, rest, by rw [hread, List.cons_append], ?_, ?_⟩
        · simp only [hexecuted, List.singleton_append]
          exact .cons hran hrun
        · refine hrest.imp_right fun ⟨e, he⟩ => ⟨e, ?_⟩
          simp only [he]
          rfl

theorem getItem_of_present {input : JsonMap} {key : String} {v : Json}
    (h : Dispatch.present input key = some v) : getItem input key = v := by
  obtain ⟨w, hw, hpresent⟩ := Option.bind_eq_some_iff.mp h
  cases w <;> simp_all [getItem]

theorem getItem_of_not_present {input : JsonMap} {key : String}
    (h : Dispatch.present input key = none) : getItem input key = .null := by
  cases hget : BTree.get input key with
  | none => simp [getItem, hget]
  | some v => cases v <;> simp_all [getItem, Dispatch.present]

theorem iterate_toolCalls {input : JsonMap} {calls : List Json}
    (h : Dispatch.rawCalls input = some (.array calls)) : iterate (toolCalls input) = .ok calls := by
  rcases Option.or_eq_some_iff.mp h with hfirst | ⟨hnone, hlast⟩
  · rw [toolCalls, getItem_of_present hfirst]
    rfl
  · rw [toolCalls, getItem_of_not_present hnone, getItem_of_present hlast]
    cases calls <;> rfl

theorem iterate_toolCalls_none {input : JsonMap} (h : Dispatch.rawCalls input = none) :
    iterate (toolCalls input) = .ok [] := by
  obtain ⟨hfirst, hlast⟩ := Option.or_eq_none_iff.mp h
  rw [toolCalls, getItem_of_not_present hfirst, getItem_of_not_present hlast]
  rfl

theorem get_toolsMap {input : JsonMap} (h : Dispatch.toolsMap input = .ok tools) (name : String) :
    (orElse (getItem input "tools") (.object [])).get name =
      tools.bind fun tools => BTree.get tools name := by
  unfold Dispatch.toolsMap at h
  split at h
  · rename_i hnone
    cases h
    rw [getItem_of_not_present hnone]
    rfl
  · rename_i fields hfields
    cases h
    rw [getItem_of_present hfields]
    cases fields <;> rfl
  · cases h

variable (py p) in
theorem dispatchToolCalls_spec {input : JsonMap} {raw : List Json}
    (h : iterate (toolCalls input) = .ok raw) :
    ((dispatchToolCalls py input p).executed = [] ∧
        ∃ e, (dispatchToolCalls py input p).result = .error e) ∨
      ((dispatchToolCalls py input p).executed =
          (runCalls py (orElse (getItem input "tools") (.object [])) raw p).executed ∧
        ∀ e, (runCalls py (orElse (getItem input "tools") (.object [])) raw p).result = .error e →
          (dispatchToolCalls py input p).result = .error e) := by
  unfold dispatchToolCalls
  cases hopening : openingMessages py input with
  | error e => exact .inl ⟨rfl, e, rfl⟩
  | ok opening =>
    obtain ⟨messages, calls⟩ := opening
    have hcalls : calls = raw := by
      unfold openingMessages at hopening
      cases hmessages : iterate (orElse (getItem input "messages") (.array [])) with
      | error e => simp [hmessages, bind, Except.bind] at hopening
      | ok ms =>
        cases hasked : raw.mapM (assistantToolCall py) with
        | error e => simp [hmessages, h, hasked, bind, Except.bind] at hopening
        | ok asked =>
          simp only [hmessages, h, hasked, bind, Except.bind, pure, Except.pure, Except.ok.injEq,
            Prod.mk.injEq] at hopening
          exact hopening.2.symm
    subst hcalls
    refine .inr ⟨rfl, fun e he => ?_⟩
    simp only [he]
    rfl

end Read

/-- Every call that runs is one the gate read: in the order read, all of them unless the dispatch
raises. -/
theorem executed_calls_read (py : Interpreter Obj Val σ) (p : Process Obj σ) (input : JsonMap)
    (calls : List Dispatch.PendingToolCall)
    (h : Dispatch.readPendingToolCalls (.object input) = .ok calls) :
    ∃ run rest, calls = run ++ rest ∧
      List.Forall₂ Ran run (dispatchToolCalls py input p).executed ∧
      (rest = [] ∨ ∃ e, (dispatchToolCalls py input p).result = .error e) := by
  have hrun : ∀ raw, iterate (toolCalls input) = .ok raw →
      (∃ run rest, calls = run ++ rest ∧ List.Forall₂ Ran run
        (runCalls py (orElse (getItem input "tools") (.object [])) raw p).executed ∧ (rest = [] ∨
          ∃ e, (runCalls py (orElse (getItem input "tools") (.object [])) raw p).result = .error e)) →
      ∃ run rest, calls = run ++ rest ∧ List.Forall₂ Ran run
        (dispatchToolCalls py input p).executed ∧
        (rest = [] ∨ ∃ e, (dispatchToolCalls py input p).result = .error e) := by
    rintro raw hraw ⟨run, rest, hcalls, hran, hrest⟩
    rcases dispatchToolCalls_spec py p hraw with ⟨hnone, he⟩ | ⟨hexecuted, herror⟩
    · exact ⟨[], calls, rfl, by simp [hnone], .inr he⟩
    · exact ⟨run, rest, hcalls, hexecuted ▸ hran, hrest.imp_right fun ⟨e, he⟩ => ⟨e, herror e he⟩⟩
  simp only [Dispatch.readPendingToolCalls] at h
  split at h
  · rename_i hnone
    cases h
    exact hrun [] (iterate_toolCalls_none hnone) ⟨[], [], rfl, .nil, .inl rfl⟩
  · rename_i raw hraw
    cases htools : Dispatch.toolsMap input with
    | error e => simp [htools, bind, Except.bind] at h
    | ok tools =>
      simp only [htools, bind, Except.bind] at h
      split at h
      · cases h
      · exact hrun raw (iterate_toolCalls hraw)
          (runCalls_spec (get_toolsMap htools) (Fallible.forall₂_of_mapM h))
  · cases h

/-- A tool `pay`, by the module that registers it. -/
def payTool (fnModule : String) : ToolDefinition String :=
  { name := "pay", fnModule, fnQualname := "pay", fn := fnModule ++ ".pay.fn",
    wrapper := some (fnModule ++ ".pay") }

/-- An interpreter with one module, `bank`, which registers a tool `pay`. -/
def oneModule : Interpreter String Json Unit where
  importModule path p :=
    if path = "bank" then
      (.module_ "bank", { p with registry := BTree.insert p.registry "pay" (payTool "bank") })
    else (.importError, p)
  getattrStatic _ obj part :=
    if obj = "bank" ∧ part = "pay" then some "bank.pay"
    else if obj = "bank.pay" ∧ part = "_jamjet_tool" then some "bank.pay.definition"
    else none
  definition _ obj := if obj = "bank.pay.definition" then some (payTool "bank") else none
  ofJson := id
  asDict v := match v with
    | .object fields => some fields
    | _ => none
  loads _ := .decodeError
  dumps _ := some "{}"
  blank s := s.isEmpty
  call _ _ p := (some .null, p)
  stringify _ p := (some "null", p)

/-- One call of `pay`, which the tools map resolves to the module `bank`. -/
def payInput : JsonMap :=
  [("tool_calls", .array [.object [("arguments", .object []), ("name", .string "pay")]]),
    ("tools", .object [("pay", .string "bank:pay")])]

theorem executed_calls_read_pay :
    ∃ calls run rest, Dispatch.readPendingToolCalls (.object payInput) = .ok calls ∧
      calls = run ++ rest ∧
      List.Forall₂ Ran run (dispatchToolCalls oneModule payInput ⟨[], ()⟩).executed ∧
      (rest = [] ∨ ∃ e, (dispatchToolCalls oneModule payInput ⟨[], ()⟩).result = .error e) := by
  obtain ⟨run, rest, h⟩ := executed_calls_read oneModule ⟨[], ()⟩ payInput
    [⟨"pay", .object [], some "bank:pay"⟩] rfl
  exact ⟨_, run, rest, rfl, h⟩

/-- A worker whose `pay` is registered by another module runs the one the entry names, and keeps
its own registered. -/
theorem entry_runs_unregistered :
    ∃ calls e,
      Dispatch.readPendingToolCalls (.object payInput) = .ok calls ∧
      (dispatchToolCalls oneModule payInput ⟨[("pay", payTool "till")], ()⟩).executed = [e] ∧
      e.name = .string "pay" ∧ BTree.get e.registry "pay" = some (payTool "till") ∧
      BTree.get (dispatchToolCalls oneModule payInput ⟨[("pay", payTool "till")], ()⟩).process.registry
        "pay" = some (payTool "till") ∧ e.tool ≠ payTool "till" := by
  refine ⟨_, _, rfl, rfl, rfl, rfl, rfl, ?_⟩
  decide

end JamJet.ToolRuntime
