import JamJet.OrderedMap

/-! The tool calls the policy gate reads from the frozen input of an agent's dispatch node. -/

namespace JamJet.Dispatch

structure PendingToolCall where
  name : String
  arguments : Json
  /-- The run's `tools` entry for the name, if it has one. -/
  handler : Option String

def maxToolNameLen : ℕ := 512

def maxPendingCalls : ℕ := 256

inductive UnreadableCalls
  | notAnObject
  | notAList
  | unnamedCall
  | nameTooLong
  | tooManyCalls
  | toolsMapNotAnObject
  | unresolvableHandler
  deriving DecidableEq, Repr

/-- The texts around the first colon. -/
def splitOnce (s : List Char) : Option (List Char × List Char) :=
  match s.dropWhile (· ≠ ':') with
  | [] => none
  | _ :: function => some (s.takeWhile (· ≠ ':'), function)

/-- The well-formed `module:function` an entry of the tools map names. -/
def handlerRef (entry : Json) : Option String := do
  let s ← entry.asStr
  if maxToolNameLen < s.length then none
  else
    let (module_, function) ← splitOnce s.toList
    if module_ = [] ∨ function = [] then none
    else if (function.splitOn '.').any (fun seg => seg = [] ∨ seg.head? = some '_') ∨
        (module_.splitOn '.').any fun seg => seg = [] ∨ ['_', '_'].isPrefixOf seg then none
    else some s

/-- One call of the list. -/
def readCall (tools : Option JsonMap) (call : Json) : Except UnreadableCalls PendingToolCall :=
  match call.get "name" >>= Json.asStr with
  | none => .error .unnamedCall
  | some name =>
      if maxToolNameLen < name.length then .error .nameTooLong
      else
        let arguments := (call.get "arguments").getD .null
        match tools.bind fun tools => BTree.get tools name with
        | none => .ok ⟨name, arguments, none⟩
        | some entry =>
            match handlerRef entry with
            | none => .error .unresolvableHandler
            | some handler => .ok ⟨name, arguments, some handler⟩

/-- `input.get(key)`, where null is as good as absent. -/
def present (input : JsonMap) (key : String) : Option Json :=
  (BTree.get input key).bind fun v =>
    match v with
    | .null => none
    | v => some v

/-- The list the dispatch runs: `tool_calls`, else `last_model_tool_calls`. -/
def rawCalls (input : JsonMap) : Option Json :=
  (present input "tool_calls").or (present input "last_model_tool_calls")

def toolsMap (input : JsonMap) : Except UnreadableCalls (Option JsonMap) :=
  match present input "tools" with
  | none => .ok none
  | some (.object tools) => .ok (some tools)
  | some _ => .error .toolsMapNotAnObject

def readPendingToolCalls (input : Json) : Except UnreadableCalls (List PendingToolCall) :=
  match input with
  | .object input =>
      match rawCalls input with
      | none => .ok []
      | some (.array calls) => do
          let tools ← toolsMap input
          if maxPendingCalls < calls.length then .error .tooManyCalls
          else calls.mapM (readCall tools)
      | some _ => .error .notAList
  | _ => .error .notAnObject

end JamJet.Dispatch
