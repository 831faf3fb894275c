import JamJet.Completion
import JamJet.EvalExecutor

/-! A strategy limit that is hit: the marker node on its way through the workers and the
scheduler.  No executor is registered for its kind, so its work item completes like any other,
and what becomes of the run is left to the other nodes. -/

namespace JamJet

open AtomicCalls Scheduler

/-- The serde tag of a node's kind. -/
def nodeKindTag : NodeKind → String
  | .model .. => "model"
  | .tool => "tool"
  | .pythonFn .. => "python_fn"
  | .javaFn .. => "java_fn"
  | .externalFn .. => "external_fn"
  | .condition _ => "condition"
  | .parallel => "parallel"
  | .join => "join"
  | .humanApproval => "human_approval"
  | .wait => "wait"
  | .subgraph => "subgraph"
  | .memoryRetrieval => "memory_retrieval"
  | .policy => "policy"
  | .finalizer => "finalizer"
  | .agent => "agent"
  | .mcpTool => "mcp_tool"
  | .a2aTask => "a2a_task"
  | .agentDiscovery => "agent_discovery"
  | .coordinator => "coordinator"
  | .agentTool => "agent_tool"
  | .eval => "eval"
  | .limitExceeded => "limit_exceeded"

abbrev NodeExecutor := WorkItemRow → Except ExecutorError ExecutionResult

/-- The kinds the server registers an executor for with its embedded pool. -/
def embeddedKinds : List String := ["model", "eval", "condition"]

/-- The result of a node that nothing executes. -/
def stubResult (durationMs : ℕ) : ExecutionResult :=
  { output := .object [], statePatch := .object [], durationMs := durationMs }

/-- `execute_item` where it looks the executor up: a kind without one is completed by a stub. -/
def fireExecutor (executors : List (String × NodeExecutor)) (durationMs : ℕ) (kind : NodeKind)
    (item : WorkItemRow) : Except ExecutorError ExecutionResult :=
  match executors.lookup (nodeKindTag kind) with
  | some executor => executor item
  | none => .ok (stubResult durationMs)

/-- What a finished execution is committed as. -/
def ExecutionResult.completed (node : NodeId) (idempotencyKey : Option String)
    (r : ExecutionResult) : EventKind :=
  .nodeCompleted node
    { output := r.output
      statePatch := r.statePatch
      durationMs := r.durationMs
      genAiSystem := r.genAiSystem
      genAiModel := r.genAiModel
      inputTokens := r.inputTokens
      outputTokens := r.outputTokens
      finishReason := r.finishReason
      idempotencyKey := idempotencyKey }

def WorkflowIr.IsLimit (ir : WorkflowIr) (node : NodeId) : Prop :=
  ∃ retryPolicy, ir.nodes.lookup node = some ⟨.limitExceeded, retryPolicy⟩

/-- The node was handed to the workers. -/
def Dispatched (node : NodeId) (events : List Event) : Prop :=
  ∃ event ∈ events, ∃ queueType, event.kind = .nodeScheduled node queueType

/-- A work item of the node was executed. -/
def Executed (node : NodeId) (events : List Event) : Prop :=
  ∃ event ∈ events, ∃ result, event.kind = .nodeCompleted node result

/-- A limit of the workflow was hit. -/
def LimitHit (ir : WorkflowIr) (events : List Event) : Prop :=
  ∃ node, ir.IsLimit node ∧ Executed node events

/-- The workflow an execution runs. -/
def Db.RunsIr (irOf : String → String → Option WorkflowIr) (db : Db) (e : ExecutionId)
    (ir : WorkflowIr) : Prop :=
  ∃ x, db.executions.find? e = some x ∧ irOf x.workflowId x.workflowVersion = some ir

/-- No event of the longer log is new that records the run as completed, or dispatches a node
that was not dispatched before. -/
def StandsStill (events events' : List Event) : Prop :=
  ∀ event ∈ events', event ∉ events →
    (∀ finalState, event.kind ≠ .workflowCompleted finalState) ∧
      ∀ node queueType, event.kind = .nodeScheduled node queueType → Dispatched node events

/-- From the first database to the second, every run in which a limit was hit stands still, and
its status does not become `Completed`. -/
def LimitKept (irOf : String → String → Option WorkflowIr) (db db' : Db) : Prop :=
  ∀ e ir, db.RunsIr irOf e ir → LimitHit ir (db.events e).entries →
    StandsStill (db.events e).entries (db'.events e).entries ∧
    ∀ x x', db.executions.find? e = some x → db'.executions.find? e = some x' →
      x.status ≠ .completed → x'.status ≠ .completed

/-- A pass over the progress neither finds the run completed nor a node to run that was not
dispatched before.  A progress to dispatch from is readable, with nothing left to skip. -/
def ExecProgress.Settled (cfg : SchedulerConfig) (ir : WorkflowIr) (events : List Event)
    (p : ExecProgress) : Prop :=
  p.unreadable = false → (∀ node ∈ ir.nodes.keys, p.skippable ir node = false) →
    (∀ node ∈ ir.nodes.keys, node ∉ p.terminalFailed → p.isRunnable ir node = true →
      Dispatched node events) ∧
    (p.scheduled ≠ ∅ ∨ p.terminalFailed ≠ ∅ ∨
      1 ≤ cfg.maxDispatchPerTick ∧ ∃ node ∈ ir.nodes.keys, p.isRunnable ir node = true)

/-- Once a limit of the run was hit, the progress is settled. -/
def Spares (cfg : SchedulerConfig) (irOf : String → String → Option WorkflowIr) (db : Db)
    (e : ExecutionId) (p : ExecProgress) : Prop :=
  ∀ ir, db.RunsIr irOf e ir → LimitHit ir (db.events e).entries →
    p.Settled cfg ir (db.events e).entries

/-- The events by which the scheduler drives a run. -/
def EventKind.drives : EventKind → Bool
  | .nodeScheduled .. | .workflowCompleted _ => true
  | _ => false

/-- The operation neither dispatches a node of a run nor completes it.  A run that is started is
a new one. -/
def BackendOp.LeavesDriving {β : Type} : BackendOp β → Prop
  | .createRun .. => True
  | .updateExecutionStatus _ status _ => status ≠ .completed
  | .finishExecution _ kind status _ => kind.drives = false ∧ status ≠ .completed
  | op => ∀ kind ∈ op.kinds, kind.drives = false

/-- The operation may set the status of an execution to `Completed`. -/
def BackendOp.Completes {β : Type} (e : ExecutionId) : BackendOp β → Prop
  | .finishExecution e' _ status _ | .updateExecutionStatus e' status _ =>
      e' = e ∧ status = .completed
  | _ => False

/-- Only the scheduler dispatches nodes and completes runs.  When a limit node is completed, and
whenever a pass goes on from a progress of a run in which one was, that progress is settled. -/
def limitsSettled (cfg : SchedulerConfig) (irOf : String → String → Option WorkflowIr) :
    EngineRules where
  actOk a s := match a with
    | .call op => op.LeavesDriving ∧ ∀ e node result ir p,
        Appends s.db op e (.nodeCompleted node result) → s.db.RunsIr irOf e ir →
          ir.IsLimit node → s.progress e = some p → p.Settled cfg ir (s.db.events e).entries
    | .passTime _ => True
  callOk op s := match op with
    | .inr (.setProgress e p) => Spares cfg irOf s.db e p
    | _ => True

section Logs

variable {ir : WorkflowIr} {node : NodeId} {events events' : List Event} {cfg : SchedulerConfig}
  {p : ExecProgress}

theorem Dispatched.mono (h : Dispatched node events) (hsub : events ⊆ events') :
    Dispatched node events' := by
  obtain ⟨event, hmem, hkind⟩ := h
  exact ⟨event, hsub hmem, hkind⟩

theorem LimitHit.mono (h : LimitHit ir events) (hsub : events ⊆ events') : LimitHit ir events' := by
  obtain ⟨node, hlimit, event, hmem, hkind⟩ := h
  exact ⟨node, hlimit, event, hsub hmem, hkind⟩

theorem StandsStill.refl (events : List Event) : StandsStill events events :=
  fun _ hmem hnew => absurd hmem hnew

theorem StandsStill.trans {events'' : List Event} (h₁ : StandsStill events events')
    (h₂ : StandsStill events' events'') : StandsStill events events'' := by
  intro event hmem hnew
  by_cases hmid : event ∈ events'
  · exact h₁ event hmid hnew
  · obtain ⟨hend, hknown⟩ := h₂ event hmem hmid
    refine ⟨hend, fun node queueType hkind => ?_⟩
    -- dispatched in between, a node had been dispatched before that
    obtain ⟨earlier, hearlier, q, hq⟩ := hknown node queueType hkind
    by_cases hold : earlier ∈ events
    · exact ⟨earlier, hold, q, hq⟩
    · exact (h₁ earlier hearlier hold).2 node q hq

theorem ExecProgress.Settled.mono (h : p.Settled cfg ir events) (hsub : events ⊆ events') :
    p.Settled cfg ir events' := by
  intro hread hclosed
  obtain ⟨hknown, hunfinished⟩ := h hread hclosed
  exact ⟨fun node hkey hfail hrun => (hknown node hkey hfail hrun).mono hsub, hunfinished⟩

end Logs

section Databases

variable {irOf : String → String → Option WorkflowIr} {db db' : Db} {e : ExecutionId}
  {ir : WorkflowIr} {β : Type}

theorem events_subset_exec (op : BackendOp β) (db : Db) (e : ExecutionId) :
    (db.events e).entries ⊆ ((op.exec db).2.events e).entries :=
  (extends_exec op db e).subset

theorem Db.RunsIr.unique {ir' : WorkflowIr} (h : db.RunsIr irOf e ir) (h' : db.RunsIr irOf e ir') :
    ir = ir' := by
  obtain ⟨x, hx, hir⟩ := h
  obtain ⟨x', hx', hir'⟩ := h'
  rw [hx] at hx'
  cases hx'
  exact Option.some.inj (hir.symm.trans hir')

theorem Db.RunsIr.exec (h : db.RunsIr irOf e ir) (op : BackendOp β) :
    (op.exec db).2.RunsIr irOf e ir := by
  obtain ⟨x, hx, hir⟩ := h
  obtain ⟨x', hx', hstep⟩ := (op.effect db).executions.row hx
  refine ⟨x', hx', ?_⟩
  cases hstep <;> exact hir

theorem appends_of_new {op : BackendOp β} {event : Event}
    (hmem : event ∈ ((op.exec db).2.events e).entries) (hnew : event ∉ (db.events e).entries) :
    Appends db op e event.kind := by
  obtain ⟨kinds, hlog, hkinds⟩ := (op.effect db).logs e
  rw [hlog] at hmem
  rcases SeqLog.mem_appendAll hmem with hold | ⟨hkind, -⟩
  · exact absurd hold hnew
  · exact hkinds _ hkind

theorem ExecutionStep.not_completed {op : BackendOp β} {x x' : ExecutionRow}
    (h : ExecutionStep op x x') (hop : ¬ op.Completes x.executionId)
    (hopen : x.status ≠ .completed) : x'.status ≠ .completed := by
  cases h with
  | keep => exact hopen
  | finish | setStatus => exact fun hs => hop ⟨rfl, hs⟩
  | limitExceeded => exact fun hs => by cases hs

/-- An operation keeps the limits that were hit when, of a run with one, it dispatches only known
nodes and does not make it completed. -/
theorem LimitKept.exec {op : BackendOp β}
    (hlog : ∀ e ir, db.RunsIr irOf e ir → LimitHit ir (db.events e).entries →
      ∀ kind, Appends db op e kind → (∀ finalState, kind ≠ .workflowCompleted finalState) ∧
        ∀ node queueType, kind = .nodeScheduled node queueType →
          Dispatched node (db.events e).entries)
    (hstatus : ∀ e ir, db.RunsIr irOf e ir → LimitHit ir (db.events e).entries →
      ¬ op.Completes e) :
    LimitKept irOf db (op.exec db).2 := by
  intro e ir hruns hhit
  refine ⟨fun event hmem hnew => ?_, fun x x' hx hx' hopen => ?_⟩
  · exact hlog e ir hruns hhit event.kind (appends_of_new hmem hnew)
  · obtain ⟨y, hy, hstep⟩ := (op.effect db).executions.row hx
    rw [hy] at hx'
    cases hx'
    have hkey : x.executionId = e := Table.key_of_find? hx
    exact hstep.not_completed (hkey ▸ hstatus e ir hruns hhit) hopen

theorem EventKind.not_driving {kind : EventKind} (h : kind.drives = false)
    {events : List Event} : (∀ finalState, kind ≠ .workflowCompleted finalState) ∧
      ∀ node queueType, kind = .nodeScheduled node queueType → Dispatched node events := by
  constructor
  · rintro finalState rfl
    cases h
  · rintro node queueType rfl
    cases h

theorem LimitKept.refl (db : Db) : LimitKept irOf db db := by
  intro e ir _ _
  refine ⟨.refl _, fun x x' hx hx' hopen => ?_⟩
  rw [hx] at hx'
  cases hx'
  exact hopen

theorem LimitKept.trans {db'' : Db} (h₁ : LimitKept irOf db db') (h₂ : LimitKept irOf db' db'')
    (hruns : ∀ e ir, db.RunsIr irOf e ir → db'.RunsIr irOf e ir)
    (hlog : ∀ e, (db.events e).entries ⊆ (db'.events e).entries) : LimitKept irOf db db'' := by
  intro e ir hrun hhit
  obtain ⟨hstill, hopen⟩ := h₁ e ir hrun hhit
  obtain ⟨hstill', hopen'⟩ := h₂ e ir (hruns e ir hrun) (hhit.mono (hlog e))
  refine ⟨hstill.trans hstill', fun x x'' hx hx'' hne => ?_⟩
  obtain ⟨x', hx', -⟩ := hruns e ir hrun
  exact hopen' x' x'' hx' hx'' (hopen x x' hx hx' hne)

theorem LimitKept.createRun (x : ExecutionRow) (seed : Option SnapshotRow)
    (started scheduled : EventKind) (item : NewWorkItem) (now : Instant) :
    LimitKept irOf db (db.createRun x seed started scheduled item now).2 := by
  rcases Db.createRun_cases db x seed started scheduled item now with
    hs | ⟨executions, items, hexec, -, -, hs⟩
  · rw [hs]
    exact .refl db
  · intro e ir ⟨y, hy, _⟩ _
    have hother : e ≠ x.executionId := by
      rintro rfl
      rw [(Table.rows_of_insert? hexec).1] at hy
      cases hy
    rw [hs]
    refine ⟨?_, fun y y' hy hy' hopen => ?_⟩
    · simp only [Function.update_of_ne hother]
      exact .refl _
    · simp only [Table.find?_of_insert? hexec, if_neg (Ne.symm hother), hy] at hy'
      cases hy'
      exact hopen

theorem LimitKept.of_leaves {op : BackendOp β} (h : op.LeavesDriving) :
    LimitKept irOf db (op.exec db).2 := by
  by_cases hcreate : op.newExecution = none
  · refine .exec (fun e ir _ _ kind hkind => EventKind.not_driving ?_) fun e ir _ _ hcompletes => ?_
    · rcases hkind.mem_kinds with hmem | ⟨r, hr⟩
      · cases op with
        | createRun => cases hcreate
        | finishExecution => simpa [List.mem_singleton.mp hmem] using h.1
        | updateExecutionStatus => cases hmem
        | _ => exact h kind hmem
      · rcases hr with rfl | rfl <;> rfl
    · cases op with
      | finishExecution => exact h.2 hcompletes.2
      | updateExecutionStatus => exact h hcompletes.2
      | _ => exact hcompletes
  · cases op with
    | createRun x seed started scheduled item now =>
      exact LimitKept.createRun x seed started scheduled item now
    | _ => exact absurd rfl hcreate

/-- A progress that spares its run goes on to do so, unless a limit is hit that it is not settled
for. -/
theorem Spares.exec {cfg : SchedulerConfig} {p : ExecProgress} (h : Spares cfg irOf db e p)
    (hruns : db.RunsIr irOf e ir) (op : BackendOp β)
    (hhits : ∀ node result, Appends db op e (.nodeCompleted node result) → ir.IsLimit node →
      p.Settled cfg ir (db.events e).entries) : Spares cfg irOf (op.exec db).2 e p := by
  intro ir' hruns' hhit
  have hir : ir' = ir := hruns'.unique (hruns.exec op)
  subst hir
  have hsub := events_subset_exec op db e
  obtain ⟨node, hlimit, event, hmem, result, hkind⟩ := hhit
  by_cases hold : event ∈ (db.events e).entries
  · exact (h ir' hruns ⟨node, hlimit, event, hold, result, hkind⟩).mono hsub
  · have happ := appends_of_new hmem hold
    rw [hkind] at happ
    exact (hhits node result happ hlimit).mono hsub

end Databases

/-- The cache is the scheduler's own, an execution keeps its workflow, and a cached progress that
spares its run goes on to do so. -/
structure LimitRely (cfg : SchedulerConfig) (irOf : String → String → Option WorkflowIr)
    (s t : Sys) : Prop where
  progress : t.progress = s.progress
  runs : ∀ e ir, s.db.RunsIr irOf e ir → t.db.RunsIr irOf e ir
  spares : ∀ e ir p, s.db.RunsIr irOf e ir → s.progress e = some p → Spares cfg irOf s.db e p →
    Spares cfg irOf t.db e p

section Steps

variable {cfg : SchedulerConfig} {irOf : String → String → Option WorkflowIr} {s t u : Sys}

theorem LimitRely.refl (s : Sys) : LimitRely cfg irOf s s :=
  ⟨rfl, fun _ _ h => h, fun _ _ _ _ _ h => h⟩

theorem LimitRely.trans (h₁ : LimitRely cfg irOf s t) (h₂ : LimitRely cfg irOf t u) :
    LimitRely cfg irOf s u where
  progress := h₂.progress.trans h₁.progress
  runs e ir h := h₂.runs e ir (h₁.runs e ir h)
  spares e ir p hr hp h := by
    refine h₂.spares e ir p (h₁.runs e ir hr) ?_ (h₁.spares e ir p hr hp h)
    rw [h₁.progress]
    exact hp

theorem limitRely_act {a : Act} (ha : (limitsSettled cfg irOf).actOk a s) :
    LimitRely cfg irOf s (s.act a) := by
  cases a with
  | passTime nanos => exact ⟨rfl, fun _ _ h => h, fun _ _ _ _ _ h => h⟩
  | call op =>
    refine ⟨rfl, fun e ir h => h.exec op, fun e ir p hr hp h => ?_⟩
    exact h.exec hr op fun node result happ hlimit => ha.2 e node result ir p happ hr hlimit hp

end Steps

/-- Each call of the scheduler keeps the limits that were hit. -/
def hitLimitSpec (cfg : SchedulerConfig) (irOf : String → String → Option WorkflowIr) :
    Spec SchedOp Sys where
  inv _ := True
  rely := LimitRely cfg irOf
  rely_refl := .refl
  rely_trans := .trans
  good op s := match op with
    | .inl op => LimitKept irOf s.db (op.exec s.db).2
    | .inr _ => True

/-- The calls of the dispatch loop, with what is known of the nodes it dispatches. -/
inductive DispatchesReady (ir : WorkflowIr) (p : ExecProgress) (e : ExecutionId) :
    {β : Type} → SchedOp β → Prop
  | utcNow : DispatchesReady ir p e (.inr .utcNow)
  | latestSequence : DispatchesReady ir p e (.inl (.latestSequence e))
  | nodeScheduled (node : NodeId) (queueType : String) (hkey : node ∈ ir.nodes.keys)
      (hfail : node ∉ p.terminalFailed) (hrun : p.isRunnable ir node = true) :
      DispatchesReady ir p e (.inl (.appendEvent e (.nodeScheduled node queueType)))
  | enqueueWorkItem (item : NewWorkItem) (now : Instant) :
      DispatchesReady ir p e (.inl (.enqueueWorkItem item now))

theorem within_dispatch_ready (cfg : SchedulerConfig) (ir : WorkflowIr) (e : ExecutionId)
    (workflowId workflowVersion : String) (p : ExecProgress) (nodes : List NodeId)
    (enqueued : ℕ) : (dispatch cfg ir e workflowId workflowVersion p nodes enqueued).Within
      (DispatchesReady ir p e) := by
  induction nodes generalizing enqueued with
  | nil => exact Prog.within_pure _
  | cons nodeId rest ih =>
    unfold dispatch
    split
    · exact Prog.within_pure _
    · split
      · exact Prog.within_pure _
      · split
        · exact ih _
        · rename_i hfail
          split
          · rename_i hrun
            split
            · rename_i node hlook
              have hkey : nodeId ∈ ir.nodes.keys :=
                Finmap.mem_keys.mpr (Finmap.mem_of_lookup_eq_some hlook)
              refine Prog.Within.bind ?_ fun _ => ih _
              unfold dispatchNode backend here
              refine (within_appendNext .latestSequence
                (.nodeScheduled nodeId _ hkey hfail hrun)).bind fun _ => ?_
              refine (Prog.within_perform.mpr .utcNow).bind fun now => ?_
              exact (Prog.within_perform.mpr (.enqueueWorkItem _ _)).bind fun _ =>
                Prog.within_pure ()
            · exact ih _
          · exact ih _

/-- The tick is at a progress of the execution that is cached and spares the run. -/
structure Sparing (cfg : SchedulerConfig) (irOf : String → String → Option WorkflowIr)
    (e : ExecutionId) (ir : WorkflowIr) (p : ExecProgress) (s : Sys) : Prop where
  runs : s.db.RunsIr irOf e ir
  cached : s.progress e = some p
  spares : Spares cfg irOf s.db e p

section Tick

variable [Chrono] {cfg : SchedulerConfig} {irOf : String → String → Option WorkflowIr}
  {order : HashOrder NodeId} {s t : Sys} {e : ExecutionId} {ir : WorkflowIr} {p : ExecProgress}
  {workflowId workflowVersion : String}

omit [Chrono] in
theorem Sparing.stable (h : Sparing cfg irOf e ir p s) (ht : LimitRely cfg irOf s t) :
    Sparing cfg irOf e ir p t := by
  refine ⟨ht.runs e ir h.runs, ?_, ht.spares e ir p h.runs h.cached h.spares⟩
  rw [ht.progress]
  exact h.cached

theorem wp_recording_limit {α : Type} {q : Sched α} (ok : {β : Type} → SchedOp β → Prop)
    (hq : q.Within ok)
    (hok : ∀ {β : Type} (op : BackendOp β), ok (.inl op) → op.LeavesDriving)
    (h : s.db.RunsIr irOf e ir) :
    wp (engine cfg irOf) (limitsSettled cfg irOf) (hitLimitSpec cfg irOf) q
      (fun r t => t.db.RunsIr irOf e ir ∧ q.Ends r) s := by
  refine wp_within hq (P := fun t : Sys => t.db.RunsIr irOf e ir)
    (fun a b ha (hab : LimitRely cfg irOf a b) _ => hab.runs e ir ha) (fun op a hop _ ha => ?_) h
  cases op with
  | inl op => exact ⟨LimitKept.of_leaves (hok op hop), fun _ => ha.exec op⟩
  | inr op => exact ⟨trivial, fun _ => by cases op <;> exact ha⟩

theorem wp_dispatch_limit (h : Sparing cfg irOf e ir p s) (hread : p.unreadable = false)
    (hclosed : ∀ node ∈ ir.nodes.keys, p.skippable ir node = false) (nodes : List NodeId)
    (enqueued : ℕ) :
    wp (engine cfg irOf) (limitsSettled cfg irOf) (hitLimitSpec cfg irOf)
      (dispatch cfg ir e workflowId workflowVersion p nodes enqueued) (fun r t =>
        Sparing cfg irOf e ir p t ∧
          (dispatch cfg ir e workflowId workflowVersion p nodes enqueued).Ends r) s := by
  have hkept : ∀ {β : Type} {op : BackendOp β} {a : Sys}, Sparing cfg irOf e ir p a →
      (∀ node result, ¬ Appends a.db op e (.nodeCompleted node result)) →
      Sparing cfg irOf e ir p ((engine cfg irOf).handle (.inl op) a).2 := by
    intro β op a ha hno
    exact ⟨ha.runs.exec op, ha.cached,
      ha.spares.exec ha.runs op fun node result happ _ => absurd happ (hno node result)⟩
  refine wp_within (within_dispatch_ready cfg ir e workflowId workflowVersion p nodes enqueued)
    (fun a b ha hab _ => ha.stable hab) (fun op a hop _ ha => ?_) h
  cases hop with
  | utcNow => exact ⟨trivial, fun _ => ha⟩
  | latestSequence =>
    refine ⟨LimitKept.of_leaves (fun kind hkind => by cases hkind), fun _ => hkept ha ?_⟩
    exact fun node result happ => happ
  | enqueueWorkItem item now =>
    refine ⟨LimitKept.of_leaves (fun kind hkind => by cases hkind), fun _ => hkept ha ?_⟩
    exact fun node result happ => happ
  | nodeScheduled node queueType hkey hfail hrun =>
    refine ⟨LimitKept.exec (fun e' ir' hruns hhit kind hkind => ?_)
      fun e' ir' _ _ hcompletes => hcompletes, fun _ => hkept ha fun n result happ => ?_⟩
    · obtain ⟨he, hk⟩ := hkind
      subst he hk
      refine ⟨fun finalState hk => (by cases hk), fun node' queueType' hk => ?_⟩
      cases hk
      have hir : ir' = ir := hruns.unique ha.runs
      subst hir
      exact (ha.spares ir' hruns hhit hread hclosed).1 node hkey hfail hrun
    · cases happ.2

omit [Chrono] in
theorem outcome_of_failed (order : HashOrder NodeId) (hfail : p.terminalFailed ≠ ∅) :
    (outcome order p).1 ≠ .completed ∧ (outcome order p).2.drives = false := by
  unfold outcome
  rw [if_neg hfail]
  exact ⟨fun hs => (by cases hs), rfl⟩

/-- A run with a hit limit is not found completed. -/
theorem wp_finishIfDone_limit (h : Sparing cfg irOf e ir p s) (hread : p.unreadable = false)
    (hclosed : ∀ node ∈ ir.nodes.keys, p.skippable ir node = false) {enqueued : ℕ}
    (hidle : enqueued = 0 → p.scheduled = ∅ → 1 ≤ cfg.maxDispatchPerTick →
      ∀ node ∈ ir.nodes.keys, node ∉ p.terminalFailed → p.isRunnable ir node = false) :
    wp (engine cfg irOf) (limitsSettled cfg irOf) (hitLimitSpec cfg irOf)
      (finishIfDone order e p enqueued) (fun _ _ => True) s := by
  unfold finishIfDone backend here
  split
  · rename_i hdone
    obtain ⟨hnone, hsched⟩ := hdone
    apply wp_call
    intro t ht _
    refine ⟨trivial, fun _ => ?_, fun hf => by cases hf⟩
    apply wp_call
    intro u hu _
    have hu' := (h.stable ht).stable hu
    -- with a limit hit, a run with nothing in flight has failed
    have hfailed : ∀ ir', u.db.RunsIr irOf e ir' → LimitHit ir' (u.db.events e).entries →
        p.terminalFailed ≠ ∅ := by
      intro ir' hruns hhit hempty
      have hir : ir' = ir := hruns.unique hu'.runs
      subst hir
      rcases (hu'.spares ir' hruns hhit hread hclosed).2 with hne | hne | ⟨hmax, node, hkey, hrun⟩
      · exact hne hsched
      · exact hne hempty
      · rw [hidle hnone hsched hmax node hkey (by simp [hempty])] at hrun
        cases hrun
    refine ⟨LimitKept.exec (fun e' ir' hruns hhit kind hkind => ?_)
      fun e' ir' hruns hhit hcompletes => ?_, fun _ => ?_, fun _ _ _ _ _ _ => trivial⟩
    · obtain ⟨he, hk, -⟩ := hkind
      subst he
      rw [hk]
      exact EventKind.not_driving (outcome_of_failed order (hfailed ir' hruns hhit)).2
    · obtain ⟨he, hs⟩ := hcompletes
      subst he
      exact (outcome_of_failed order (hfailed ir' hruns hhit)).1 hs
    · generalize ((engine cfg irOf).handle _ u).1 = reply
      cases reply with
      | error _ => exact fun _ _ _ => trivial
      | ok _ => exact fun v _ _ => ⟨trivial, fun _ _ _ _ => trivial, fun hf => by cases hf⟩
  · exact wp_pure fun _ _ _ => trivial

theorem unreadable_skipCascade {passes : ℕ} {p' : ExecProgress}
    (h : (skipCascade order ir e passes p).Ends (.ok p')) : p'.unreadable = p.unreadable := by
  have hnodes : ∀ (nodes : List NodeId) (q q' : ExecProgress),
      (nodes.foldlM (skipNode e) q).Ends (.ok q') → q'.unreadable = q.unreadable := by
    intro nodes
    induction nodes with
    | nil =>
      intro q q' hq
      cases hq
      rfl
    | cons node nodes ih =>
      intro q q' hq
      rw [List.foldlM_cons, Prog.ends_bind] at hq
      obtain ⟨q₁, hq₁, hq⟩ := hq
      obtain ⟨latest, rfl⟩ := ends_skipNode.mp hq₁
      have hrest := ih _ _ hq
      exact hrest
  induction passes generalizing p with
  | zero =>
    cases h
    rfl
  | succ passes ih =>
    unfold skipCascade at h
    split at h
    · cases h
      rfl
    · obtain ⟨q, hq, h⟩ := Prog.ends_bind.mp h
      exact (ih h).trans (hnodes _ _ _ hq)

theorem wp_dispatchAndFinish_limit (h : Sparing cfg irOf e ir p s) (hread : p.unreadable = false)
    (hclosed : ∀ node ∈ ir.nodes.keys, p.skippable ir node = false) :
    wp (engine cfg irOf) (limitsSettled cfg irOf) (hitLimitSpec cfg irOf)
      (dispatchAndFinish cfg order ir e workflowId workflowVersion p) (fun _ _ => True) s := by
  unfold dispatchAndFinish
  split
  · exact wp_pure fun _ _ _ => trivial
  · rename_i hcap
    refine wp_bind (wp_mono (fun r t _ ht => ?_)
      (wp_dispatch_limit h hread hclosed (order.walk ir.nodes.keys) 0))
    obtain ⟨ht, hends⟩ := ht
    cases r with
    | error _ => trivial
    | ok enqueued =>
      refine wp_finishIfDone_limit ht hread hclosed fun hnone _ hmax node hkey hfail => ?_
      exact (ends_dispatch hends).2 hnone hmax (by omega) node ((order.mem_walk _ _).mpr hkey) hkey
        hfail

theorem wp_advance_limit (h : s.db.RunsIr irOf e ir) (hread : p.unreadable = false) :
    wp (engine cfg irOf) (limitsSettled cfg irOf) (hitLimitSpec cfg irOf)
      (advance cfg order ir e workflowId workflowVersion p) (fun _ _ => True) s := by
  have hrecords : ∀ {β : Type} (op : BackendOp β), Records e (.inl op) → op.LeavesDriving := by
    intro β op hop
    cases hop <;> simp [BackendOp.LeavesDriving, BackendOp.kinds, EventKind.drives]
  unfold advance
  refine wp_bind (wp_mono (fun r t _ ht => ?_)
    (wp_recording_limit (Records e) (within_sweepDeadlines cfg p) hrecords h))
  cases r with
  | error _ => trivial
  | ok _ =>
    refine wp_bind (wp_mono (fun r u _ hu => ?_)
      (wp_recording_limit (Records e) (within_failRejected order p) hrecords ht.1))
    cases r with
    | error _ => trivial
    | ok _ =>
      refine wp_bind (wp_mono (fun r v _ hv => ?_) (wp_recording_limit (Skips e)
        (within_skipCascade order ir _ p) (fun op hop => ?_) hu.1))
      · cases r with
        | error _ => trivial
        | ok p' =>
          obtain ⟨hruns, hends⟩ := hv
          have hread' : p'.unreadable = false := (unreadable_skipCascade hends).trans hread
          obtain ⟨-, hclosed⟩ := ends_skipCascade hends
          apply wp_call
          intro w hw _
          refine ⟨trivial, fun hspares => ?_, fun hf => by cases hf⟩
          refine wp_dispatchAndFinish_limit ⟨?_, ?_, ?_⟩ hread' hclosed
          · exact hw.runs e ir hruns
          · exact Function.update_self e (some p') w.progress
          · exact hspares
      · cases hop <;> simp [BackendOp.LeavesDriving, BackendOp.kinds, EventKind.drives]

theorem wp_readProgress_limit (h : s.db.RunsIr irOf e ir) :
    wp (engine cfg irOf) (limitsSettled cfg irOf) (hitLimitSpec cfg irOf) (readProgress e)
      (fun _ t => t.db.RunsIr irOf e ir) s := by
  refine wp_mono (fun _ _ _ ht => ht.1)
    (wp_recording_limit (Reads e) within_readProgress (fun op hop => ?_) h)
  cases hop
  simp [BackendOp.LeavesDriving, BackendOp.kinds]

theorem wp_scheduleRunnableNodes_limit
    (h : ∀ ir, irOf workflowId workflowVersion = some ir → s.db.RunsIr irOf e ir) :
    wp (engine cfg irOf) (limitsSettled cfg irOf) (hitLimitSpec cfg irOf)
      (scheduleRunnableNodes cfg order e workflowId workflowVersion) (fun _ _ => True) s := by
  unfold scheduleRunnableNodes here
  apply wp_call
  intro t ht _
  refine ⟨trivial, fun _ => ?_, fun _ _ _ _ _ _ => trivial⟩
  have hreply : (engine cfg irOf).handle (.inr (.loadWorkflow workflowId workflowVersion)) t =
      (.ok (irOf workflowId workflowVersion), t) := rfl
  rw [hreply]
  cases hir : irOf workflowId workflowVersion with
  | none => exact fun _ _ _ => trivial
  | some ir =>
    have hruns : t.db.RunsIr irOf e ir := ht.runs e ir (h ir hir)
    refine wp_bind (wp_mono (fun r u _ hu => ?_) (wp_readProgress_limit hruns))
    cases r with
    | error _ => trivial
    | ok p =>
      change wp (engine cfg irOf) (limitsSettled cfg irOf) (hitLimitSpec cfg irOf)
        (if p.unreadable = true then _ else _) _ u
      split
      · refine wp_mono (fun _ _ _ _ => trivial)
          (wp_recording_limit (Records e) (within_recordStall p) (fun op hop => ?_) hu)
        cases hop <;> simp [BackendOp.LeavesDriving, BackendOp.kinds, EventKind.drives]
      · rename_i hread
        exact wp_advance_limit hu (by simpa using hread)

theorem limit_sound : Sound (engine cfg irOf) (limitsSettled cfg irOf) (hitLimitSpec cfg irOf) where
  act a s _ ha := ⟨trivial, limitRely_act ha⟩
  act_rest _ _ _ _ _ := trivial
  call _ _ _ _ _ := trivial
  stop _ _ _ := ⟨trivial, trivial⟩
  job order s _ _ _ := by
    refine wp_tick (fun _ => True) (fun x t => ∀ ir, irOf x.workflowId x.workflowVersion = some ir →
      t.db.RunsIr irOf x.executionId ir) (fun _ _ _ _ _ => trivial)
      (fun x s t h ht ir hir => ht.runs _ ir (h ir hir)) (fun x _ op s h ir hir => ?_)
      (fun s _ _ => ?_) (fun s _ _ => ⟨?_, fun _ => ⟨trivial, fun x hx ir hir => ?_⟩⟩)
      (fun x s _ hx _ => wp_scheduleRunnableNodes_limit hx) trivial
    · cases op with
      | inl op => exact (h ir hir).exec op
      | inr op => cases op <;> exact h ir hir
    · refine wp_mono (fun _ _ _ _ => trivial) (wp_within within_reclaimExpiredLeases
        (P := fun _ => True) (fun _ _ _ _ _ => trivial) (fun op s h _ _ => ⟨?_, fun _ => trivial⟩)
        trivial)
      cases op with
      | inr op => trivial
      | inl op =>
        refine LimitKept.of_leaves ?_
        rcases h with h | h <;>
          cases h <;> simp [BackendOp.LeavesDriving, BackendOp.kinds, EventKind.drives]
    · exact LimitKept.of_leaves fun kind hkind => by cases hkind
    · obtain ⟨hx, -⟩ := mem_listExecutions hx
      exact ⟨x, Table.find?_of_mem hx, hir⟩

end Tick

/-- The run is started on a node of its workflow. -/
def startedOn (ir : WorkflowIr) (nodeId : NodeId) (node : NodeDef) : EngineMove :=
  .outside (.call (startRun ir nodeId node 0 "wf" "1.0.0" (.object []) "default" 0))

/-- A worker without an executor for its kind executes the limit node's item. -/
def executeLimit (item : WorkItemId) : List EngineMove :=
  [.outside (.call (.claimWorkItem "w" ["general"] none 1)),
    .outside (.call (.commitTurn item 1 0
      ((stubResult 5).completed "limit" (some "key")) true 2))]

/-- A tool node and a limit node side by side. -/
def limitBeside : WorkflowIr where
  nodes := ([⟨"work", ⟨.tool, none⟩⟩, ⟨"limit", ⟨.limitExceeded, none⟩⟩] :
    List (Sigma fun _ : NodeId => NodeDef)).toFinmap
  edges := []
  models := ∅

abbrev besideEngine : Machine SchedOp BackendError Sys Act (HashOrder NodeId) :=
  @engine firstDay {} fun _ _ => some limitBeside

/-- The tool node is in flight, and a tick dispatches the limit node. -/
def limitInFlight : List EngineMove :=
  startedOn limitBeside "work" ⟨.tool, none⟩ :: .start .sorted :: List.replicate 13 .advance

theorem spares_of_no_outcome {cfg : SchedulerConfig} {irOf : String → String → Option WorkflowIr}
    {db : Db} {e : ExecutionId} {p : ExecProgress}
    (h : (db.events e).entries.any (·.kind.isNodeOutcome) = false) : Spares cfg irOf db e p := by
  rintro ir - ⟨node, -, event, hmem, result, hkind⟩
  have hno := List.any_eq_false.mp h event hmem
  rw [hkind] at hno
  exact absurd rfl hno

theorem settled_beside {cfg : SchedulerConfig} {event : Event} {n n' : EventSequence}
    {q q' : String} {events : List Event} {p : ExecProgress} (hsched : "work" ∈ p.scheduled) :
    p.Settled cfg limitBeside (event :: ⟨n, .nodeScheduled "work" q⟩ ::
      ⟨n', .nodeScheduled "limit" q'⟩ :: events) := by
  refine fun _ _ => ⟨fun node hkey _ _ => ?_, .inl (Finset.ne_empty_of_mem hsched)⟩
  rw [limitBeside, Finmap.mem_keys, Finmap.mem_list_toFinmap] at hkey
  simp only [List.mem_cons, List.not_mem_nil, or_false, Sigma.mk.injEq] at hkey
  obtain ⟨b, ⟨rfl, -⟩ | ⟨rfl, -⟩⟩ := hkey
  · exact ⟨_, .tail _ (.head _), q, rfl⟩
  · exact ⟨_, .tail _ (.tail _ (.head _)), q', rfl⟩

theorem obeyed_limitInFlight :
    (@limitsSettled {} fun _ _ => some limitBeside).Obeyed besideEngine (boot {} 0)
      limitInFlight := by
  refine ⟨⟨trivial, fun e node result ir p happ => ?_⟩, trivial, trivial, trivial, trivial, trivial,
    trivial, trivial, spares_of_no_outcome rfl, spares_of_no_outcome rfl, trivial, trivial, trivial,
    trivial, trivial, trivial⟩
  rcases happ.2 with h | h <;> cases h

/-- A workflow of one limit node. -/
def limitAlone : WorkflowIr := ⟨Finmap.singleton "limit" ⟨.limitExceeded, none⟩, [], ∅⟩

end JamJet
