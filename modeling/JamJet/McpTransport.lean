import JamJet.Json
import Mathlib.Algebra.Order.Ring.Int

/-! The MCP client over its stdio transport: any number of calls, each writing its request as one
line and then reading one line, beside the server at the other end of the two pipes. -/

namespace JamJet.Mcp

structure JsonRpcRequest where
  jsonrpc : String
  id : Json
  method : String
  params : Option Json

/-- `JsonRpcRequest::new`. -/
def JsonRpcRequest.new (id : UInt64) (method : String) (params : Option Json) : JsonRpcRequest where
  jsonrpc := "2.0"
  id := .ofNat id.toNat
  method := method
  params := params

def JsonRpcRequest.toJson (r : JsonRpcRequest) : Json :=
  .ofFields [("jsonrpc", .string r.jsonrpc), ("id", r.id), ("method", .string r.method),
    ("params", r.params.getD .null)]

structure JsonRpcError where
  code : ℤ
  message : String
  data : Option Json

structure JsonRpcResponse where
  jsonrpc : String
  id : Json
  result : Option Json
  error : Option JsonRpcError

/-- An `Option` field: absent or null is `None`. -/
def optionField {α : Type} (read : Json → Option α) (v : Json) (key : String) :
    Option (Option α) :=
  match v.get key with
  | none | some .null => some none
  | some field => (read field).map some

def asI64 : Json → Option ℤ
  | .number (.int n) => if -2 ^ 63 ≤ n ∧ n < 2 ^ 63 then some n else none
  | _ => none

def JsonRpcError.ofJson (v : Json) : Option JsonRpcError := do
  let code ← (v.get "code").bind asI64
  let message ← (v.get "message").bind Json.asStr
  let data ← optionField some v "data"
  return ⟨code, message, data⟩

/-- A response has to carry an id; a notification does not, and is none. -/
def JsonRpcResponse.ofJson (v : Json) : Option JsonRpcResponse := do
  let jsonrpc ← (v.get "jsonrpc").bind Json.asStr
  let id ← v.get "id"
  let result ← optionField some v "result"
  let error ← optionField JsonRpcError.ofJson v "error"
  return ⟨jsonrpc, id, result, error⟩

/-! What the two methods of the client make of a response. -/

structure McpTool where
  name : String
  description : Option String
  inputSchema : Json

def McpTool.ofJson (v : Json) : Option McpTool := do
  let name ← (v.get "name").bind Json.asStr
  let description ← optionField Json.asStr v "description"
  let inputSchema ← v.get "inputSchema"
  return ⟨name, description, inputSchema⟩

inductive McpContent
  | text (text : String)
  | image (data mimeType : String)
  | resource (uri : String) (mimeType text : Option String)

def McpContent.ofJson (v : Json) : Option McpContent := do
  match ← (v.get "type").bind Json.asStr with
  | "text" => return .text (← (v.get "text").bind Json.asStr)
  | "image" =>
      return .image (← (v.get "data").bind Json.asStr) (← (v.get "mime_type").bind Json.asStr)
  | "resource" =>
      return .resource (← (v.get "uri").bind Json.asStr) (← optionField Json.asStr v "mime_type")
        (← optionField Json.asStr v "text")
  | _ => none

structure McpToolCallResponse where
  content : List McpContent
  isError : Option Bool

def asBool : Json → Option Bool
  | .bool b => some b
  | _ => none

/-- `serde_json::from_value` of a `Vec`. -/
def listOf {α : Type} (read : Json → Option α) : Json → Option (List α)
  | .array items => items.mapM read
  | _ => none

def McpToolCallResponse.ofJson (v : Json) : Option McpToolCallResponse := do
  let content ← (v.get "content").bind (listOf McpContent.ofJson)
  let isError ← optionField asBool v "isError"
  return ⟨content, isError⟩

/-- The calls of the client: `list_tools`, which a refresh of the pool makes, and `call_tool`. -/
inductive Method
  | listTools
  | callTool (name : String) (arguments : Json)

inductive Output
  | tools (tools : List McpTool)
  | toolCall (response : McpToolCallResponse)

def Method.request (id : UInt64) : Method → JsonRpcRequest
  | .listTools => .new id "tools/list" none
  | .callTool name arguments =>
      .new id "tools/call"
        (some (.ofFields [("name", .string name), ("arguments", arguments)]))

/-- The texts the client's errors are put together from: `{:?}` of a response's error, and what
serde says of a value or a line it cannot read. -/
structure ErrorTexts where
  debug : Option JsonRpcError → String
  fromValue : Json → String
  fromStr : String → String

/-- What a method returns on the response it was sent. -/
def Method.output (texts : ErrorTexts) (response : JsonRpcResponse) :
    Method → Except String Output
  | .listTools =>
      match response.result with
      | none => .error ("tools/list failed: " ++ texts.debug response.error)
      | some result =>
          let tools := (result.get "tools").getD .null
          match listOf McpTool.ofJson tools with
          | some tools => .ok (.tools tools)
          | none => .error (texts.fromValue tools)
  | .callTool .. =>
      match response.result with
      | none => .error ("tools/call failed: " ++ texts.debug response.error)
      | some result =>
          match McpToolCallResponse.ofJson result with
          | some response => .ok (.toolCall response)
          | none => .error (texts.fromValue result)

/-! The transport. -/

/-- How far a call of `send` has come. -/
inductive Phase
  /-- Waiting for the lock of stdin. -/
  | waiting
  /-- Holding the lock of stdin. -/
  | writing
  /-- Waiting for the lock of stdout. -/
  | written
  /-- Holding the lock of stdout. -/
  | reading
  | returned (result : Except String JsonRpcResponse)
  /-- Its future was dropped. -/
  | dropped

structure Call where
  method : Method
  request : JsonRpcRequest
  phase : Phase

/-- The client with its transport, and the server's end of the pipes. -/
structure Transport where
  requestCounter : UInt64 := 1
  calls : List Call := []
  /-- The call that holds the lock of stdin, and what of its line is still to be written. -/
  stdin : Option (ℕ × List Char) := none
  /-- The call that holds the lock of stdout, and what it has read so far. -/
  stdout : Option (ℕ × List Char) := none
  /-- What the server has received of a line that is not ended. -/
  toServer : List Char := []
  /-- The ids of the requests the server has received and not answered. -/
  pending : List Json := []
  /-- What the server has written and nobody has read. -/
  fromServer : List Char := []
  /-- Whether the server has closed its end. -/
  closed : Bool := false
  /-- The calls whose line is written and that have not returned, as they wrote it.  No step
  depends on it. -/
  queue : List ℕ := []

inductive Act
  | call (method : Method)
  | lockStdin (i : ℕ)
  | write (i : ℕ)
  | flush (i : ℕ)
  | writeError (i : ℕ) (e : String)
  | lockStdout (i : ℕ)
  | read (i : ℕ)
  | readEof (i : ℕ)
  | readError (i : ℕ) (e : String)
  | drop (i : ℕ)
  | reply (k : ℕ) (line : List Char)
  | notify (line : List Char)
  | close

namespace Transport

/-- Move a call on. -/
def setPhase (s : Transport) (i : ℕ) (phase : Phase) : Transport :=
  { s with calls := s.calls.modify i fun c => { c with phase := phase } }

def phase? (s : Transport) (i : ℕ) : Option Phase := s.calls[i]?.map (·.phase)

/-- The request of a call. -/
def request? (s : Transport) (i : ℕ) : Option JsonRpcRequest := s.calls[i]?.map (·.request)

/-- `send` returns while it writes: the lock of stdin is free again. -/
def returnWriting (s : Transport) (i : ℕ) (e : String) : Transport :=
  { s.setPhase i (.returned (.error e)) with stdin := none, queue := s.queue.erase i }

/-- `send` returns while it reads: the lock of stdout is free again. -/
def returnReading (s : Transport) (i : ℕ) (result : Except String JsonRpcResponse) : Transport :=
  { s.setPhase i (.returned result) with stdout := none, queue := s.queue.erase i }

/-- A future is dropped, and with it the locks it holds. -/
def drop (s : Transport) (i : ℕ) : Transport :=
  { s.setPhase i .dropped with
    stdin := s.stdin.filter (·.1 ≠ i)
    stdout := s.stdout.filter (·.1 ≠ i)
    queue := s.queue.erase i }

/-- `serde_json::to_string` of a request, and `serde_json::from_str`. -/
structure Serde where
  text : JsonRpcRequest → List Char
  fromStr : List Char → Option Json

variable (serde : Serde) (texts : ErrorTexts)

/-- The line of a request. -/
def line (r : JsonRpcRequest) : List Char := serde.text r ++ ['\n']

/-- A line read, as a response. -/
def parse (buf : List Char) : Except String JsonRpcResponse :=
  match (serde.fromStr buf).bind JsonRpcResponse.ofJson with
  | some response => .ok response
  | none =>
      let raw := String.ofList buf
      .error ("MCP response parse error: " ++ texts.fromStr raw ++ " (raw: " ++ raw ++ ")")

/-- What `send` returns on the line it read. -/
def received (buf : List Char) : Except String JsonRpcResponse :=
  if buf = [] then .error "MCP server closed stdout unexpectedly" else parse serde texts buf

/-- The server's end of the pipe takes one character; a line ended is a request received. -/
def deliver (s : Transport) (c : Char) : Transport :=
  if c = '\n' then
    { s with
      toServer := []
      pending := s.pending ++ ((serde.fromStr s.toServer).bind (·.get "id")).toList }
  else { s with toServer := s.toServer ++ [c] }

/-- One step.  An act that is not possible changes nothing. -/
def step (s : Transport) : Act → Transport
  | .call method =>
      { s with
        requestCounter := s.requestCounter + 1
        calls := s.calls ++ [⟨method, method.request s.requestCounter, .waiting⟩] }
  | .lockStdin i =>
      match s.stdin, s.phase? i, s.request? i with
      | none, some .waiting, some request =>
          { s.setPhase i .writing with stdin := some (i, line serde request) }
      | _, _, _ => s
  | .write i =>
      match s.stdin with
      | some (j, c :: rest) =>
          if i = j then
            let s := s.deliver serde c
            { s with
              stdin := some (i, rest)
              queue := if rest = [] then s.queue ++ [i] else s.queue }
          else s
      | _ => s
  | .flush i =>
      match s.stdin with
      | some (j, []) => if i = j then { s.setPhase i .written with stdin := none } else s
      | _ => s
  | .writeError i e =>
      match s.stdin with
      | some (j, rest) =>
          if i = j then
            s.returnWriting i
              (if rest = [] then "MCP stdin flush error: " ++ e
                else "MCP stdin write error: " ++ e)
          else s
      | none => s
  | .lockStdout i =>
      match s.stdout, s.phase? i with
      | none, some .written => { s.setPhase i .reading with stdout := some (i, []) }
      | _, _ => s
  | .read i =>
      match s.stdout, s.fromServer with
      | some (j, buf), c :: rest =>
          if i = j then
            let s := { s with fromServer := rest }
            if c = '\n' then s.returnReading i (received serde texts (buf ++ [c]))
            else { s with stdout := some (i, buf ++ [c]) }
          else s
      | _, _ => s
  | .readEof i =>
      match s.stdout, s.fromServer, s.closed with
      | some (j, buf), [], true =>
          if i = j then s.returnReading i (received serde texts buf) else s
      | _, _, _ => s
  | .readError i e =>
      match s.stdout with
      | some (j, _) =>
          if i = j then s.returnReading i (.error ("MCP stdout read error: " ++ e)) else s
      | none => s
  | .drop i =>
      match s.phase? i with
      | none | some (.returned _) => s
      | some _ => s.drop i
  | .reply k line =>
      if s.closed then s
      else { s with pending := s.pending.eraseIdx k, fromServer := s.fromServer ++ line ++ ['\n'] }
  | .notify line => if s.closed then s else { s with fromServer := s.fromServer ++ line ++ ['\n'] }
  | .close => { s with closed := true }

def run (s : Transport) (acts : List Act) : Transport := acts.foldl (step serde texts) s

end Transport

open Transport

/-- What a call of the client has returned. -/
def Call.output (texts : ErrorTexts) (c : Call) : Option (Except String Output) :=
  match c.phase with
  | .returned (.ok response) => some (c.method.output texts response)
  | .returned (.error e) => some (.error e)
  | _ => none

end JamJet.Mcp
