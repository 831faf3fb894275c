import JamJet.AgentLimits
import JamJet.ApprovalBinding
import JamJet.ArtifactRefs
import JamJet.BudgetGate
import JamJet.LimitRuns
import JamJet.Rollover
import JamJet.ToolEffects

/-! One claimed item, from its start to its settlement.  Its heartbeat renews the lease beside the
execution, and has to end with it. -/

namespace JamJet

open AtomicCalls Policy

/-- A claimed item, as `execute_item` is given it. -/
structure ItemClaim where
  id : WorkItemId
  executionId : ExecutionId
  nodeId : NodeId
  tenantId : String
  queueType : String
  payload : Json
  held : payload.Held
  attempt : ℕ
  maxAttempts : ℕ
  leaseFence : ℤ

/-- A node of a workflow: its kind, what its gates read, and the tool calls it makes. -/
structure LoadedNode where
  kind : NodeKind
  guarded : GuardedNode
  scope : AgentScope
  toolCalls : Except String UInt32

/-- What is read of a workflow. -/
structure LoadedIr where
  node : NodeId → Option LoadedNode
  startNode : NodeId
  policy : Option PolicySetIr := none
  limits : BudgetLimits := {}
  continueAsNew : Bool := false

/-- What an executor makes of an item, and the events it streams meanwhile. -/
structure ItemExecutor where
  execute : ItemClaim → Except ExecutorError ExecutionResult
  executeStreaming : ItemClaim → Except ExecutorError ExecutionResult × List Json

/-- A worker, with what it is given of the rest: the tenants' policies, the guard of the calls of
a dispatch node and the ids of later segments. -/
structure ItemWorker where
  workerId : WorkerId
  env : GuardEnv
  sealing : Bool := false
  executors : List (String × ItemExecutor) := []
  artifactThreshold : ℕ := 8192
  tenant : String → TenantRead
  perCall : GuardRequest → Bool → GuardProg GuardOutcome
  segmentExecutionId : ExecutionId → ℕ → ExecutionId

/-- The clock, as an execution reads it: the time taken when a stub ends and when the node does, and
the time when the item is parked. -/
structure ItemTimes where
  stubMs : ℕ
  durationMs : ℕ
  parkedAt : Instant

/-- The calls of `execute_item` itself, beside those of its parts.  The three reads that decide
whether the occurrence was run before are told apart from other reads. -/
inductive ItemOp : Type → Type
  | spawnHeartbeat (item : WorkItemId) (worker : WorkerId) (fence : ℤ) (intervalSecs : ℕ) :
      ItemOp Unit
  | abortHeartbeat : ItemOp Unit
  | getWorkflow (workflowId workflowVersion : String) : ItemOp (Option (Except String LoadedIr))
  | countNodeCompletions (e : ExecutionId) (node : NodeId) : ItemOp ℕ
  | currentState (e : ExecutionId) : ItemOp (Option Json)
  | recordedEffect (key : String) : ItemOp (Option Json)
  | patchAppendArray (e : ExecutionId) (key : String) (value : Json) : ItemOp Unit
  | putArtifact (bytes : String) (mediaType : Option String) : ItemOp ArtifactRef
  | completeWorkItemFenced (id : WorkItemId) (fence : ℤ) : ItemOp Bool
  | commitTurn (id : WorkItemId) (fence : ℤ) (e : ExecutionId) (kind : EventKind)
      (snapshot : Bool) : ItemOp EventSequence

inductive ItemCall (β : Type) : Type
  | backend (op : BackendOp β)
  | guard (op : GuardCall β)
  | server (op : ServerOp β)
  | budget (op : BudgetOp β)
  | own (op : ItemOp β)

abbrev ItemProg := Prog ItemCall BackendError

/-- How `execute_item` ends where `?` passes no error of the backend on.  A panic of the executor
is no return. -/
inductive ItemEnd
  | returned (r : Except String Unit)
  | unwound
  deriving DecidableEq

/-- What comes of a node: an early return, or an outcome to record.  A result and a rate limit come
with the key of the occurrence. -/
inductive ItemOutcome
  | returns (e : ItemEnd)
  | completed (r : ExecutionResult) (key : String)
  | fatal (msg : String)
  | rateLimited (retryAfterSecs : ℕ) (key : String)

namespace ExecuteItem

def maxRetryAfterSecs : ℕ := 3600

def heartbeatSecs : ℕ := 15

def parsePayload (payload : Json) : String × String :=
  (((payload.get "workflow_id").bind Json.asStr).getD "unknown",
    ((payload.get "workflow_version").bind Json.asStr).getD "1.0.0")

/-- The result a recorded effect stands for. -/
def replayedResult (recorded : Json) : ExecutionResult :=
  let text := fun key => (recorded.get key).bind Json.asStr
  let count := fun key => (recorded.get key).bind Json.asU64
  { output := (recorded.get "output").getD (.object [])
    statePatch := (recorded.get "state_patch").getD (.object [])
    durationMs := (count "duration_ms").getD 0
    genAiSystem := text "gen_ai_system"
    genAiModel := text "gen_ai_model"
    inputTokens := count "input_tokens"
    outputTokens := count "output_tokens"
    finishReason := text "finish_reason" }

def idempotencyKey [FloatText] (env : GuardEnv) (run : String) (segment step : ℕ) (node : NodeId)
    (inputHash : String) : String :=
  Hashing.contentHash env.sha256Hex (Json.ofFields [
    ("run", .string run),
    ("segment", Json.ofNat segment),
    ("step", Json.ofNat step),
    ("node", .string node),
    ("input", .string inputHash)])

def here {α : Type} (op : ItemOp α) : ItemProg α := Prog.perform (.own op)

def backend {α : Type} (op : BackendOp α) : ItemProg α := Prog.perform (.backend op)

def guard {α : Type} (p : GuardProg α) : ItemProg α := Prog.mapOps (fun op => .guard op) p

def server {α : Type} (p : Server α) : ItemProg α := Prog.mapOps (fun op => .server op) p

def budget {α : Type} (p : BudgetProg α) : ItemProg α := Prog.mapOps (fun op => .budget op) p

def loadIr (workflowId workflowVersion : String) : ItemProg (Except String LoadedIr) := do
  match ← (here (.getWorkflow workflowId workflowVersion)).attempt with
  | .error err => return .error err.display
  | .ok none =>
      return .error ("workflow " ++ workflowId ++ " v" ++ workflowVersion ++ " not found")
  | .ok (some ir) => return ir

/-- A snapshot that cannot be read counts as none. -/
def loadBudgetState [F64] (e : ExecutionId) : ItemProg BudgetState := do
  match ← (backend (.latestSnapshot e)).attempt with
  | .ok (some snap) => return BudgetState.fromSnapshotState snap.state
  | _ => return {}

/-- Record a terminal event and settle the item in one fenced commit.  A lost fence is no error:
the item has another owner. -/
def commitTerminal (item : ItemClaim) (kind : EventKind) (snapshot : Bool) :
    ItemProg (Except String Unit) := do
  match ← (here (.commitTurn item.id item.leaseFence item.executionId kind snapshot)).attempt with
  | .ok _ | .error (.fenceLost _) => return .ok ()
  | .error err => return .error err.display

/-- A node that fails for good. -/
def commitFailed (item : ItemClaim) (error : String) : ItemProg (Except String Unit) :=
  commitTerminal item (.nodeFailed item.nodeId error item.attempt false) false

/-- Nothing where the node may run; otherwise the item is settled, or the attempt fails. -/
def settleOutcome (item : ItemClaim) : GuardOutcome → ItemProg (Option (Except String Unit))
  | .allow => return none
  | .blocked reason => return some (← commitFailed item ("policy blocked: " ++ reason))
  | .unavailable reason => return some (.error reason)
  | .held _ => do
      match ← (here (.completeWorkItemFenced item.id item.leaseFence)).attempt with
      | .ok _ => return some (.ok ())
      | .error err =>
          return some (.error ("failed to settle held work item: " ++ err.display))

/-- The receiver of the streamed events: it stops at the first one it cannot append. -/
def appendStreamed (e : ExecutionId) : List Json → ItemProg (Except String Unit)
  | [] => return .ok ()
  | event :: rest => do
      match ← (here (.patchAppendArray e "agent_tool_events" event)).attempt with
      | .ok () => appendStreamed e rest
      | .error err => return .error ("patch_append_array failed: " ++ err.display)

section Execute

variable [FloatText] [Chrono] [F64] [F64Display] (w : ItemWorker) (item : ItemClaim)

omit [F64] [F64Display] in
/-- The guard answers in any case: what it cannot read is a refusal. -/
def checkPolicy (ir : LoadedIr) (node : LoadedNode) :
    ItemProg (Option (Except String Unit)) := do
  match ← (guard (Guard.guardItem w.env w.perCall
      { guard :=
          { executionId := item.executionId
            nodeId := item.nodeId
            tenantId := item.tenantId
            tenant := w.tenant item.tenantId
            workflowPolicy := ir.policy
            node := node.guarded
            payload := item.payload
            held := item.held
            sealing := w.sealing }
        scope := node.scope
        workItemId := some item.id
        toolCalls := node.toolCalls })).attempt with
  | .ok outcome => settleOutcome item outcome
  | .error err => settleOutcome item (.unavailable err.display)

omit [Chrono] [F64] [F64Display] in
/-- The key of the occurrence: how often the node has completed, and the state it runs on. -/
def deriveIdempotencyKey : ItemProg String := do
  let step ← here (.countNodeCompletions item.executionId item.nodeId)
  let currentState ← here (.currentState item.executionId)
  return idempotencyKey w.env (runText w.env item.executionId) 0 step item.nodeId
    (Hashing.contentHash w.env.sha256Hex (currentState.getD (.object [])))

omit [FloatText] [Chrono] [F64] [F64Display] in
/-- A kind without an executor is completed by a stub; events are streamed for agent tools only. -/
def fire (times : ItemTimes) (kindTag : String) : ItemProg (Except ExecutorError ExecutionResult) :=
  match w.executors.lookup kindTag with
  | none => return .ok (stubResult times.stubMs)
  | some executor =>
      if kindTag = "agent_tool" then do
        let (result, events) := executor.executeStreaming item
        match result, ← appendStreamed item.executionId events with
        | .error .panicked, _ => return .error .panicked
        | result, .ok () => return result
        | _, .error msg => return .error (.fatal msg)
      else return executor.execute item

omit [FloatText] [Chrono] [F64] [F64Display] in
/-- `heartbeat.abort(); return r`. -/
def abortReturn (r : Except String Unit) : ItemProg ItemOutcome := do
  let _ ← (here .abortHeartbeat).attempt
  return .returns (.returned r)

omit [FloatText] [Chrono] in
/-- What was executed or replayed, past the ceilings of the budget.  A trip rolls the run over where
it continues as new. -/
def enforceBudget (ir : LoadedIr) (spent : BudgetState) (key : String) :
    Except ExecutorError ExecutionResult → ItemProg ItemOutcome
  | .error .panicked => return .returns .unwound
  | .error (.fatal msg) => return .fatal msg
  | .error (.rateLimited secs) => return .rateLimited secs key
  | .ok result => do
      match ← (budget (Worker.checkBudgetAfterExecution item.executionId ir.limits spent
          result.inputTokens result.outputTokens none result.statePatch)).attempt with
      -- the check has no error of its own
      | .error err => abortReturn (.error err.display)
      | .ok (none, _, statePatch) => return .completed { result with statePatch := statePatch } key
      | .ok (some r, _, _) => do
          let _ ← (here .abortHeartbeat).attempt
          if ir.continueAsNew then
            let (workflowId, workflowVersion) := parsePayload item.payload
            match ← (server (Worker.rolloverSegment w.segmentExecutionId
              { executionId := item.executionId
                startNode := ir.startNode
                workflowId := workflowId
                workflowVersion := workflowVersion
                tenantId := item.tenantId
                itemId := item.id
                queueType := item.queueType
                leaseFence := item.leaseFence })).attempt with
            | .ok () => return .returns (.returned (.ok ()))
            | .error err => return .returns (.returned (.error err.display))
          else return .returns (.returned r)

omit [Chrono] in
/-- Replay a recorded effect, or claim the key and run the executor.  The key and its record are
read with `?`, beside the heartbeat; every other early return ends it first. -/
def replayOrFire (times : ItemTimes) (ir : LoadedIr) (node : LoadedNode) (spent : BudgetState) :
    ItemProg ItemOutcome := do
  let key ← deriveIdempotencyKey w item
  match ← here (.recordedEffect key) with
  | some recorded => enforceBudget w item ir spent key (.ok (replayedResult recorded))
  | none =>
      match ← (server (Worker.awaitOrClaimEffect
          { key := key
            executionId := item.executionId
            nodeId := item.nodeId
            workerId := w.workerId
            leaseFence := item.leaseFence })).attempt with
      | .error err => abortReturn (.error err.display)
      | .ok (.error msg) => abortReturn (.error msg)
      | .ok (.ok (some recorded)) =>
          enforceBudget w item ir spent key (.ok (replayedResult recorded))
      | .ok (.ok none) =>
          let result ← fire w item times (nodeKindTag node.kind)
          enforceBudget w item ir spent key result

/-- The gates of a node in their order, and the node itself. -/
def runNode (times : ItemTimes) (ir : LoadedIr) (node : LoadedNode) : ItemProg ItemOutcome := do
  let spent ← loadBudgetState item.executionId
  match ← checkPolicy w item ir node with
  | some r => abortReturn r
  | none =>
      match ← (budget
          (Worker.checkBudgetBeforeExecution item.executionId ir.limits spent)).attempt with
      | .error err => abortReturn (.error err.display)
      | .ok (some r) => abortReturn r
      | .ok none => replayOrFire w item times ir node spent

omit [Chrono] [F64] [F64Display] in
/-- A large output is stored apart before the event that refers to it. -/
def commitCompleted (times : ItemTimes) (r : ExecutionResult) (key : String) :
    ItemProg (Except String Unit) := do
  let commit := fun output => commitTerminal item
    ({ r with output := output, durationMs := times.durationMs }.completed item.nodeId
      (some key)) true
  match spillBytes r.output w.artifactThreshold with
  | none => commit r.output
  | some bytes =>
      match ← (here (.putArtifact bytes (some "application/json"))).attempt with
      | .ok ref => commit ref.toSentinel
      | .error err => return .error err.display

omit [FloatText] [Chrono] [F64] [F64Display] in
/-- Back to pending for a later attempt, unless this was the last.  What follows a park that landed
is best effort. -/
def parkItem (times : ItemTimes) (retryAfterSecs : ℕ) (key : String) :
    ItemProg (Except String Unit) := do
  let nextAttempt := item.attempt + 1
  if item.maxAttempts ≤ nextAttempt then
    commitFailed item ("rate limited: exhausted " ++ toString item.maxAttempts ++ " attempts")
  else
    let retryAfter := after times.parkedAt (min retryAfterSecs maxRetryAfterSecs)
    match ← (backend (.parkWorkItem item.id item.leaseFence retryAfter nextAttempt)).attempt with
    | .error err => return .error err.display
    | .ok false => return .ok ()
    | .ok true =>
        let _ ← (backend (.releaseToolReservation key w.workerId item.leaseFence)).attempt
        match ← (backend (.latestSequence item.executionId)).attempt with
        | .error _ => return .ok ()
        | .ok _ =>
            let _ ← (backend (.appendEvent item.executionId
              (.nodeParked item.nodeId nextAttempt retryAfter))).attempt
            return .ok ()

omit [Chrono] [F64] [F64Display] in
/-- The end of `execute_item`: the outcome of the node is recorded. -/
def record (times : ItemTimes) : ItemOutcome → ItemProg ItemEnd
  | .returns e => return e
  | .completed r key => do
      let _ ← (here .abortHeartbeat).attempt
      return .returned (← commitCompleted w item times r key)
  | .fatal msg => do
      let _ ← (here .abortHeartbeat).attempt
      return .returned (← commitFailed item msg)
  | .rateLimited secs key => do
      let _ ← (here .abortHeartbeat).attempt
      return .returned (← parkItem w item times secs key)

/-- What is executed beside the heartbeat. -/
def runItem (times : ItemTimes) : ItemProg ItemOutcome := do
  let (workflowId, workflowVersion) := parsePayload item.payload
  match ← loadIr workflowId workflowVersion with
  | .error e => return .fatal ("failed to load IR: " ++ e)
  | .ok ir =>
      match ir.node item.nodeId with
      | none => return .fatal ("node " ++ item.nodeId ++ " not found in IR")
      | some node => runNode w item times ir node

/-- `execute_item`. -/
def executeItem (times : ItemTimes) : ItemProg ItemEnd := do
  let _ ← backend (.latestSequence item.executionId)
  let _ ← backend (.appendEvent item.executionId
    (.nodeStarted item.nodeId w.workerId item.attempt))
  let _ ← (here (.spawnHeartbeat item.id w.workerId item.leaseFence heartbeatSecs)).attempt
  let outcome ← runItem w item times
  record w item times outcome

end Execute

end ExecuteItem

/-! The heartbeat -/

def ItemOp.beats {β : Type} (running : Bool) : ItemOp β → Bool
  | .spawnHeartbeat .. => true
  | .abortHeartbeat => false
  | _ => running

/-- The reads of the key and of its record. -/
def ItemOp.readsKey {β : Type} : ItemOp β → Bool
  | .countNodeCompletions .. | .currentState _ | .recordedEffect _ => true
  | _ => false

/-- Whether the heartbeat runs after a call. -/
def ItemCall.beats {β : Type} (running : Bool) : ItemCall β → Bool
  | .own op => op.beats running
  | _ => running

def ItemCall.readsKey {β : Type} : ItemCall β → Bool
  | .own op => op.readsKey
  | _ => false

/-- The heartbeat that these calls spawned was not aborted. -/
def heartbeatRuns (calls : List (Answered ItemCall BackendError)) : Bool :=
  calls.foldl (fun running c => c.op.beats running) false

/-- The key of the occurrence, or its record, could not be read. -/
def keyReadFails (calls : List (Answered ItemCall BackendError)) : Bool :=
  calls.any fun c => c.op.readsKey && !c.reply.isOk

namespace ExecuteItem

/-- Both, call by call. -/
def watch {β : Type} (s : Bool × Bool) (op : ItemCall β) (reply : Except BackendError β) :
    Bool × Bool :=
  (op.beats s.1, s.2 || op.readsKey && !reply.isOk)

theorem foldl_watch (calls : List (Answered ItemCall BackendError)) (s : Bool × Bool) :
    calls.foldl (fun s c => watch s c.op c.reply) s =
      (calls.foldl (fun running c => c.op.beats running) s.1, s.2 || keyReadFails calls) := by
  induction calls generalizing s with
  | nil => simp [keyReadFails]
  | cons c calls ih =>
    rw [List.foldl_cons, ih]
    simp [watch, keyReadFails, Bool.or_assoc]

/-- A call that neither concerns the heartbeat nor reads the key. -/
def Quiet {β : Type} (op : ItemCall β) : Prop := ∀ s reply, watch s op reply = s

/-- Where a run may end: a heartbeat is left only behind a read that failed. -/
def Ends (s : Bool × Bool) (r : Except BackendError ItemEnd) : Prop :=
  r ≠ .ok .unwound → s.1 = s.2

/-- Where a node may end: an outcome to record still has its heartbeat. -/
def NodeEnds (s : Bool × Bool) : Except BackendError ItemOutcome → Prop
  | .ok (.returns e) => e ≠ .unwound → s.1 = s.2
  | .ok _ => s = (true, false)
  | .error _ => s.1 = s.2

section Quiet

variable {α : Type}

theorem quiet_of {β : Type} {op : ItemCall β} (hbeats : ∀ running, op.beats running = running)
    (hreads : op.readsKey = false) : Quiet op := by
  intro s reply
  simp [watch, hbeats, hreads]

theorem within_guard (p : GuardProg α) : (guard p).Within Quiet :=
  (Prog.within_true p).mapOps fun _ _ => quiet_of (fun _ => rfl) rfl

theorem within_server (p : Server α) : (server p).Within Quiet :=
  (Prog.within_true p).mapOps fun _ _ => quiet_of (fun _ => rfl) rfl

theorem within_budget (p : BudgetProg α) : (budget p).Within Quiet :=
  (Prog.within_true p).mapOps fun _ _ => quiet_of (fun _ => rfl) rfl

theorem within_backend (op : BackendOp α) : (backend op).Within Quiet :=
  Prog.within_perform.mpr (quiet_of (fun _ => rfl) rfl)

theorem within_here {op : ItemOp α} (hbeats : ∀ running, (ItemCall.own op).beats running = running)
    (hreads : (ItemCall.own op).readsKey = false) : (here op).Within Quiet :=
  Prog.within_perform.mpr (quiet_of hbeats hreads)

end Quiet

/-- The part leaves the heartbeat and the key alone, and has a result whatever its calls are
answered. -/
def Calm {α : Type} (p : ItemProg α) : Prop :=
  ∀ s, p.Follows watch (fun t r => t = s ∧ ∃ a, r = .ok a) s

section Calm

variable {α β : Type}

theorem calm_pure (a : α) : Calm (pure a) := fun _ => ⟨rfl, a, rfl⟩

theorem Calm.bind {p : ItemProg α} {f : α → ItemProg β} (hp : Calm p) (hf : ∀ a, Calm (f a)) :
    Calm (p >>= f) := by
  intro s
  refine .bind ((hp s).mono fun t r h => ?_)
  obtain ⟨rfl, a, rfl⟩ := h
  exact hf a t

theorem calm_attempt {p : ItemProg α} {f : Except BackendError α → ItemProg β}
    (hp : p.Within Quiet) (hf : ∀ r, Calm (f r)) : Calm (p.attempt >>= f) :=
  fun s => .bind (.attempt (hp.follows fun r => hf r s))

theorem calm_loadIr (workflowId workflowVersion : String) :
    Calm (loadIr workflowId workflowVersion) := by
  refine calm_attempt (within_here (fun _ => rfl) rfl) fun reply => ?_
  split <;> exact calm_pure _

theorem calm_loadBudgetState [F64] (e : ExecutionId) : Calm (loadBudgetState e) := by
  refine calm_attempt (within_backend _) fun reply => ?_
  split <;> exact calm_pure _

theorem calm_commitTerminal (item : ItemClaim) (kind : EventKind) (snapshot : Bool) :
    Calm (commitTerminal item kind snapshot) := by
  refine calm_attempt (within_here (fun _ => rfl) rfl) fun reply => ?_
  split <;> exact calm_pure _

theorem calm_settleOutcome (item : ItemClaim) (outcome : GuardOutcome) :
    Calm (settleOutcome item outcome) := by
  cases outcome with
  | allow => exact calm_pure _
  | blocked reason => exact (calm_commitTerminal _ _ _).bind fun _ => calm_pure _
  | unavailable reason => exact calm_pure _
  | held gated =>
    refine calm_attempt (within_here (fun _ => rfl) rfl) fun reply => ?_
    split <;> exact calm_pure _

theorem calm_appendStreamed (e : ExecutionId) (events : List Json) :
    Calm (appendStreamed e events) := by
  induction events with
  | nil => exact calm_pure _
  | cons event rest ih =>
    refine calm_attempt (within_here (fun _ => rfl) rfl) fun reply => ?_
    split
    · exact ih
    · exact calm_pure _

variable {w : ItemWorker} {item : ItemClaim} {times : ItemTimes}

theorem calm_checkPolicy [FloatText] [Chrono] (ir : LoadedIr) (node : LoadedNode) :
    Calm (checkPolicy w item ir node) := by
  refine calm_attempt (within_guard _) fun reply => ?_
  split <;> exact calm_settleOutcome _ _

theorem calm_fire (kindTag : String) : Calm (fire w item times kindTag) := by
  unfold fire
  split
  · exact calm_pure _
  · split
    · refine (calm_appendStreamed _ _).bind fun streamed => ?_
      split <;> exact calm_pure _
    · exact calm_pure _

theorem calm_commitCompleted [FloatText] (r : ExecutionResult) (key : String) :
    Calm (commitCompleted w item times r key) := by
  unfold commitCompleted
  split
  · exact calm_commitTerminal _ _ _
  · refine calm_attempt (within_here (fun _ => rfl) rfl) fun reply => ?_
    split
    · exact calm_commitTerminal _ _ _
    · exact calm_pure _

theorem calm_parkItem (retryAfterSecs : ℕ) (key : String) :
    Calm (parkItem w item times retryAfterSecs key) := by
  unfold parkItem
  dsimp only
  split
  · exact calm_commitTerminal _ _ _
  · refine calm_attempt (within_backend _) fun parked => ?_
    split
    · exact calm_pure _
    · exact calm_pure _
    · refine calm_attempt (within_backend _) fun released => ?_
      refine calm_attempt (within_backend _) fun sequence => ?_
      split
      · exact calm_pure _
      · exact calm_attempt (within_backend _) fun _ => calm_pure _

end Calm

section Runs

variable {α β : Type} {s : Bool × Bool} {Q : Bool × Bool → Except BackendError β → Prop}

theorem follows_calm {p : ItemProg α} {f : α → ItemProg β} (hp : Calm p)
    (hf : ∀ a, (f a).Follows watch Q s) : (p >>= f).Follows watch Q s := by
  refine .bind ((hp s).mono fun t r h => ?_)
  obtain ⟨rfl, a, rfl⟩ := h
  exact hf a

theorem follows_attempt {p : ItemProg α} {f : Except BackendError α → ItemProg β}
    (hp : p.Within Quiet) (hf : ∀ r, (f r).Follows watch Q s) :
    (p.attempt >>= f).Follows watch Q s :=
  .bind (.attempt (hp.follows hf))

theorem follows_abort {f : Except BackendError Unit → ItemProg β}
    (hf : ∀ r, (f r).Follows watch Q (false, s.2)) :
    ((here .abortHeartbeat).attempt >>= f).Follows watch Q s := by
  refine .bind (.attempt (Prog.follows_perform fun reply => ?_))
  have hw : watch s (.own .abortHeartbeat) reply = (false, s.2) := by
    simp [watch, ItemCall.beats, ItemCall.readsKey, ItemOp.beats, ItemOp.readsKey]
  rw [hw]
  exact hf reply

theorem follows_read {op : ItemOp α} {f : α → ItemProg β}
    (hbeats : ∀ running, (ItemCall.own op).beats running = running)
    (hreads : (ItemCall.own op).readsKey = true)
    (hf : ∀ a, (f a).Follows watch Q (true, false)) (herr : ∀ err, Q (true, true) (.error err)) :
    (here op >>= f).Follows watch Q (true, false) := by
  refine .bind (Prog.follows_perform fun reply => ?_)
  cases reply with
  | ok a =>
    have hw : watch (true, false) (.own op) (.ok a) = (true, false) := by
      simp [watch, hbeats, Except.isOk, Except.toBool]
    rw [hw]
    exact hf a
  | error err =>
    have hw : watch (true, false) (.own op) (.error err : Except BackendError α) =
        (true, true) := by
      simp [watch, hbeats, hreads, Except.isOk, Except.toBool]
    rw [hw]
    exact herr err

end Runs

section Execute

variable [FloatText] [F64] [F64Display] {w : ItemWorker} {item : ItemClaim} {times : ItemTimes}

omit [FloatText] [F64] [F64Display] in
theorem follows_abortReturn (r : Except String Unit) :
    (abortReturn r).Follows watch NodeEnds (true, false) :=
  follows_abort fun _ _ => rfl

omit [FloatText] in
theorem follows_enforceBudget (ir : LoadedIr) (spent : BudgetState) (key : String)
    (result : Except ExecutorError ExecutionResult) :
    (enforceBudget w item ir spent key result).Follows watch NodeEnds (true, false) := by
  cases result with
  | error e =>
    cases e with
    | panicked => exact fun h => absurd rfl h
    | fatal msg => exact rfl
    | rateLimited secs => exact rfl
  | ok result =>
    refine follows_attempt (within_budget _) fun verdict => ?_
    split
    · exact follows_abortReturn _
    · exact rfl
    · refine follows_abort fun _ => ?_
      split
      · refine follows_attempt (within_server _) fun rolled => ?_
        split <;> exact fun _ => rfl
      · exact fun _ => rfl

omit [F64] [F64Display] in
theorem follows_deriveIdempotencyKey {Q : Bool × Bool → Except BackendError String → Prop}
    (hok : ∀ key, Q (true, false) (.ok key)) (herr : ∀ err, Q (true, true) (.error err)) :
    (deriveIdempotencyKey w item).Follows watch Q (true, false) := by
  refine follows_read (fun _ => rfl) rfl (fun step => ?_) herr
  exact follows_read (fun _ => rfl) rfl (fun currentState => hok _) herr

theorem follows_replayOrFire (ir : LoadedIr) (node : LoadedNode) (spent : BudgetState) :
    (replayOrFire w item times ir node spent).Follows watch NodeEnds (true, false) := by
  refine .bind (follows_deriveIdempotencyKey (fun key => ?_) fun err => rfl)
  refine follows_read (fun _ => rfl) rfl (fun recorded => ?_) fun err => rfl
  cases recorded with
  | some recorded => exact follows_enforceBudget _ _ _ _
  | none =>
    refine follows_attempt (within_server _) fun claimed => ?_
    split
    · exact follows_abortReturn _
    · exact follows_abortReturn _
    · exact follows_enforceBudget _ _ _ _
    · exact follows_calm (calm_fire _) fun result => follows_enforceBudget _ _ _ _

theorem follows_runNode [Chrono] (ir : LoadedIr) (node : LoadedNode) :
    (runNode w item times ir node).Follows watch NodeEnds (true, false) := by
  refine follows_calm (calm_loadBudgetState _) fun spent => ?_
  refine follows_calm (calm_checkPolicy _ _) fun settled => ?_
  cases settled with
  | some r => exact follows_abortReturn _
  | none =>
    refine follows_attempt (within_budget _) fun verdict => ?_
    split
    · exact follows_abortReturn _
    · exact follows_abortReturn _
    · exact follows_replayOrFire _ _ _

omit [F64] [F64Display] in
theorem follows_record {s : Bool × Bool} {outcome : ItemOutcome} (h : NodeEnds s (.ok outcome)) :
    (record w item times outcome).Follows watch Ends s := by
  have hsettled : ∀ p : ItemProg (Except String Unit), Calm p → Prog.Follows watch Ends
      (do
        let _ ← (here .abortHeartbeat).attempt
        return .returned (← p) : ItemProg ItemEnd) (true, false) := by
    intro p hp
    exact follows_abort fun _ => follows_calm hp fun _ _ => rfl
  cases outcome with
  | returns e =>
    intro hne
    exact h fun he => hne (he ▸ rfl)
  | completed r key =>
    obtain rfl := h
    exact hsettled _ (calm_commitCompleted _ _)
  | fatal msg =>
    obtain rfl := h
    exact hsettled _ (calm_commitTerminal _ _ _)
  | rateLimited secs key =>
    obtain rfl := h
    exact hsettled _ (calm_parkItem _ _)

theorem follows_runItem [Chrono] :
    (runItem w item times).Follows watch NodeEnds (true, false) := by
  refine follows_calm (calm_loadIr _ _) fun loaded => ?_
  cases loaded with
  | error e => exact rfl
  | ok ir =>
    cases hnode : ir.node item.nodeId with
    | none =>
      simp only [hnode]
      exact rfl
    | some node =>
      simp only [hnode]
      exact follows_runNode _ _

theorem follows_executeItem [Chrono] :
    (executeItem w item times).Follows watch Ends (false, false) := by
  refine .bind ((within_backend _).follows fun sequence => ?_)
  cases sequence with
  | error err => exact fun _ => rfl
  | ok sequence =>
    refine .bind ((within_backend _).follows fun started => ?_)
    cases started with
    | error err => exact fun _ => rfl
    | ok started =>
      refine .bind (.attempt (Prog.follows_perform fun spawned => ?_))
      have hw : watch (false, false) (.own (.spawnHeartbeat item.id w.workerId item.leaseFence
          heartbeatSecs)) spawned = (true, false) := by
        simp [watch, ItemCall.beats, ItemCall.readsKey, ItemOp.beats, ItemOp.readsKey]
      rw [hw]
      refine .bind (follows_runItem.mono fun s r hr => ?_)
      cases r with
      | error err => exact fun _ => hr
      | ok outcome => exact follows_record hr

end Execute

end ExecuteItem

section Heartbeat

variable [FloatText] [Chrono] [F64] [F64Display] {w : ItemWorker} {item : ItemClaim}
  {times : ItemTimes}

/-- When `execute_item` returns, its heartbeat has been aborted exactly when no read of the key or
of its record failed. -/
theorem heartbeat_aborted_iff {calls : List (Answered ItemCall BackendError)}
    {r : Except BackendError ItemEnd} (h : (ExecuteItem.executeItem w item times).Ran calls r)
    (hreturns : r ≠ .ok .unwound) :
    heartbeatRuns calls = false ↔ keyReadFails calls = false := by
  have hends := ExecuteItem.follows_executeItem.ran h hreturns
  rw [ExecuteItem.foldl_watch] at hends
  have hsame : heartbeatRuns calls = keyReadFails calls := by
    rw [Bool.false_or] at hends
    exact hends
  rw [hsame]

end Heartbeat

/-- A worker whose nodes pass every gate. -/
def openWorker : ItemWorker where
  workerId := "w"
  env := payEnv
  tenant _ := .policy none
  perCall _ _ := return .allow
  segmentExecutionId e n := e + n

def openItem : ItemClaim where
  id := 1
  executionId := 0
  nodeId := "a"
  tenantId := "default"
  queueType := "general"
  payload := .null
  held := trivial
  attempt := 0
  maxAttempts := 3
  leaseFence := 7

def openIr : LoadedIr where
  node n :=
    if n = "a" then some ⟨.tool, { definition := .null, held := trivial }, {}, .ok 0⟩ else none
  startNode := "a"

/-- The node passes its gates, and then its completions cannot be counted. -/
def uncountedCalls : List (Answered ItemCall BackendError) :=
  [⟨.backend (.latestSequence 0), .ok 0⟩,
    ⟨.backend (.appendEvent 0 (.nodeStarted "a" "w" 0)), .ok 1⟩,
    ⟨.own (.spawnHeartbeat 1 "w" 7 15), .ok ()⟩,
    ⟨.own (.getWorkflow "unknown" "1.0.0"), .ok (some (.ok openIr))⟩,
    ⟨.backend (.latestSnapshot 0), .ok none⟩,
    ⟨.own (.countNodeCompletions 0 "a"), .error (.database "disk I/O error")⟩]

theorem heartbeat_left_running :
    let _ : FloatText := bitsText
    let _ : Chrono := firstDay
    let _ : F64 := costless
    let _ : F64Display := ⟨fun _ => "0", fun _ => "0.0000"⟩
    (ExecuteItem.executeItem openWorker openItem ⟨0, 0, 0⟩).Ran uncountedCalls
      (.error (.database "disk I/O error")) ∧ heartbeatRuns uncountedCalls = true := by
  intro _ _ _ _
  refine ⟨?_, rfl⟩
  refine ⟨_, _, rfl, _, _, rfl, _, _, rfl, _, _, rfl, _, _, rfl, _, _, rfl, rfl, rfl⟩

/-- The workflow cannot be loaded. -/
def unloadedCalls : List (Answered ItemCall BackendError) :=
  [⟨.backend (.latestSequence 0), .ok 0⟩,
    ⟨.backend (.appendEvent 0 (.nodeStarted "a" "w" 0)), .ok 1⟩,
    ⟨.own (.spawnHeartbeat 1 "w" 7 15), .ok ()⟩,
    ⟨.own (.getWorkflow "unknown" "1.0.0"), .error (.database "disk I/O error")⟩,
    ⟨.own .abortHeartbeat, .ok ()⟩,
    ⟨.own (.commitTurn 1 7 0 (.nodeFailed "a" "failed to load IR: database error: disk I/O error"
      0 false) false), .ok 2⟩]

theorem heartbeat_aborted_unloaded :
    let _ : FloatText := bitsText
    let _ : Chrono := firstDay
    let _ : F64 := costless
    let _ : F64Display := ⟨fun _ => "0", fun _ => "0.0000"⟩
    (ExecuteItem.executeItem openWorker openItem ⟨0, 0, 0⟩).Ran unloadedCalls
      (.ok (.returned (.ok ()))) ∧ heartbeatRuns unloadedCalls = false := by
  intro _ _ _ _
  have hran : (ExecuteItem.executeItem openWorker openItem ⟨0, 0, 0⟩).Ran unloadedCalls
      (.ok (.returned (.ok ()))) :=
    ⟨_, _, rfl, _, _, rfl, _, _, rfl, _, _, rfl, _, _, rfl, _, _, rfl, rfl, rfl⟩
  exact ⟨hran, (heartbeat_aborted_iff hran (by simp)).mpr rfl⟩

end JamJet
