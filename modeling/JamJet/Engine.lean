import JamJet.Scheduler
import JamJet.Transitions

/-! The engine as a whole: one scheduler process beside workers, API requests and the passing of
time, all of them on one database.  Every backend call is one atomic step; a call of the
scheduler may fail, and the scheduler may be stopped between any two of its calls. -/

namespace JamJet

open AtomicCalls

/-- A change of a work item's status: a fence handed out, or the claim under it given up. -/
inductive Transition
  | minted (worker : Option WorkerId) (fence : ℤ)
  /-- A lease taken away as expired; `attempt` is the one its holder was on. -/
  | expired (attempt : ℕ)
  | released
  | settled
  deriving DecidableEq, Repr

/-- Whether an operation requeues items on the ground that their lease ran out. -/
def BackendOp.expires {β : Type} : BackendOp β → Bool
  | .expireStaleLeases _ | .sweepRequeue .. => true
  | _ => false

/-- The change of status from `r` to `r'`, if it is one. -/
def transition? {β : Type} (op : BackendOp β) (r r' : WorkItemRow) : Option Transition :=
  if r'.status = r.status then none
  else
    match r'.status with
    | .claimed => some (.minted r'.workerId r'.leaseFence)
    | .pending => some (if op.expires then .expired r.attempt else .released)
    | .completed | .failed | .deadLettered => some .settled

/-- What an observer of the run writes down.  No step of the engine depends on it. -/
structure Watch where
  /-- The transitions of each work item, the latest first. -/
  history : WorkItemId → List Transition := fun _ => []
  /-- The rows the sweep selected and has not come to yet. -/
  selected : List WorkItemRow := []
  /-- The nodes for which the tick made the first of two writes that belong together. -/
  halfWritten : List (ExecutionId × NodeId) := []

namespace Watch

/-- Note the changes an operation made to the work items. -/
def note {β : Type} (op : BackendOp β) (db db' : Db) (w : Watch) : Watch :=
  { w with
    history := fun id =>
      match db.workItems.find? id, db'.workItems.find? id with
      | some r, some r' => (transition? op r r').toList ++ w.history id
      | _, _ => w.history id }

/-- An append that opens or closes a pair of writes: `NodeScheduled` is to be followed by the
node's work item, a dead letter by the node's failure. -/
def pairedAppend (e : ExecutionId) (kind : EventKind) (opened : List (ExecutionId × NodeId)) :
    List (ExecutionId × NodeId) :=
  match kind with
  | .nodeScheduled node _ => opened ++ [(e, node)]
  | .nodeFailed node _ _ false => opened.erase (e, node)
  | _ => opened

/-- Follow the scheduler through the sequences of writes it makes. -/
def follow {β : Type} : BackendOp β → Except BackendError β → Watch → Watch
  | .selectExpired _, .ok rows, w => { w with selected := rows }
  | .sweepRequeue item _, _, w => { w with selected := w.selected.filter (·.id ≠ item.id) }
  | .sweepDeadLetter item, .ok settled, w =>
      { w with
        selected := w.selected.filter (·.id ≠ item.id)
        halfWritten :=
          if settled then w.halfWritten ++ [(item.executionId, item.nodeId)] else w.halfWritten }
  | .listExecutions .., _, w => { w with selected := [] }
  | .appendEvent e kind, .ok _, w => { w with halfWritten := pairedAppend e kind w.halfWritten }
  | .enqueueWorkItem item _, .ok _, w =>
      { w with halfWritten := w.halfWritten.erase (item.executionId, item.nodeId) }
  | _, _, w => w

/-- A stop of the scheduler ends whatever it was in. -/
def halt (w : Watch) : Watch := { w with selected := [], halfWritten := [] }

variable {β : Type} {op : BackendOp β} {db db' : Db} {w : Watch} {id : WorkItemId}

@[simp]
theorem note_selected : (w.note op db db').selected = w.selected := rfl

@[simp]
theorem note_halfWritten : (w.note op db db').halfWritten = w.halfWritten := rfl

@[simp]
theorem follow_history (reply : Except BackendError β) : (follow op reply w).history = w.history := by
  cases op <;> first | rfl | (cases reply <;> rfl)

theorem note_history_of_some {r r' : WorkItemRow} (hr : db.workItems.find? id = some r)
    (hr' : db'.workItems.find? id = some r') :
    (w.note op db db').history id = (transition? op r r').toList ++ w.history id := by
  simp [note, hr, hr']

theorem note_history_of_none (hr : db.workItems.find? id = none) :
    (w.note op db db').history id = w.history id := by
  simp [note, hr]

theorem note_eq_self (h : db'.workItems = db.workItems) : w.note op db db' = w := by
  have hsame : ∀ r, transition? op r r = none := fun r => by simp [transition?]
  obtain ⟨history, selected, halfWritten⟩ := w
  simp only [note, h, Watch.mk.injEq, and_true]
  funext id
  cases db.workItems.find? id with
  | none => rfl
  | some r => simp [hsame]

end Watch

/-- The one write `start_run` makes for a run of a workflow. -/
def startRun (ir : WorkflowIr) (startNode : NodeId) (node : NodeDef) (e : ExecutionId)
    (workflowId workflowVersion : String) (input : Json) (tenantId : String) (now : Instant)
    (initiatedBy : Option String := none) : BackendOp Unit :=
  let queueType := node.kind.queueType.asStr
  let initialState := match input with
    | .object fields => fields
    | _ => []
  .createRun
    { executionId := e
      workflowId := workflowId
      workflowVersion := workflowVersion
      status := .running
      initialInput := input
      updatedAt := now
      completedAt := none
      tenantId := tenantId }
    none (.workflowStarted input initiatedBy) (.nodeScheduled startNode queueType)
    { executionId := e
      nodeId := startNode
      queueType := queueType
      payload := buildWorkItemPayload ir startNode node initialState workflowId workflowVersion
      attempt := 0
      maxAttempts := maxAttemptsFor node.retryPolicy }
    now

/-- The database, the scheduler's cache and the time. -/
structure Sys where
  db : Db := {}
  progress : ExecutionId → Option ExecProgress := fun _ => none
  clock : Instant := 0
  watch : Watch := {}

/-- What the other parties do. -/
inductive Act : Type 1
  | call {β : Type} (op : BackendOp β)
  | passTime (nanos : ℕ)

namespace Sys

def act (s : Sys) : Act → Sys
  | .call op =>
      { s with
        db := (op.exec s.db).2
        watch := s.watch.note op s.db (op.exec s.db).2 }
  | .passTime nanos => { s with clock := s.clock + nanos }

/-- A call of the scheduler to the backend. -/
def callBackend {β : Type} (op : BackendOp β) (s : Sys) : Except BackendError β × Sys :=
  ((op.exec s.db).1,
    { s with
      db := (op.exec s.db).2
      watch := .follow op (op.exec s.db).1 (s.watch.note op s.db (op.exec s.db).2) })

/-- What the scheduler does on its own side. -/
def callLocal (irOf : String → String → Option WorkflowIr) {β : Type} (op : LocalOp β)
    (s : Sys) : Except BackendError β × Sys :=
  match op with
  | .utcNow => (.ok s.clock, s)
  | .loadWorkflow workflowId workflowVersion => (.ok (irOf workflowId workflowVersion), s)
  | .getProgress e => (.ok (s.progress e), s)
  | .setProgress e p => (.ok (), { s with progress := Function.update s.progress e (some p) })
  | .dropProgress e => (.ok (), { s with progress := Function.update s.progress e none })
  | .sealApprovalRecord .. => (.ok (), s)

def handle (irOf : String → String → Option WorkflowIr) {β : Type} (op : SchedOp β) (s : Sys) :
    Except BackendError β × Sys :=
  match op with
  | .inl op => s.callBackend op
  | .inr op => s.callLocal irOf op

@[simp]
theorem callLocal_db {irOf : String → String → Option WorkflowIr} {β : Type} (op : LocalOp β)
    (s : Sys) : (s.callLocal irOf op).2.db = s.db := by
  cases op <;> rfl

@[simp]
theorem callLocal_watch {irOf : String → String → Option WorkflowIr} {β : Type} (op : LocalOp β)
    (s : Sys) : (s.callLocal irOf op).2.watch = s.watch := by
  cases op <;> rfl

theorem cached_callLocal {irOf : String → String → Option WorkflowIr} {β : Type} {op : LocalOp β}
    {s : Sys} {I : ExecutionId → ExecProgress → Prop} (h : ∀ e p, s.progress e = some p → I e p)
    (hset : match op with
      | .setProgress e p => I e p
      | _ => True) :
    ∀ e p, (s.callLocal irOf op).2.progress e = some p → I e p := by
  cases op with
  | setProgress e p =>
    intro e' p' hp'
    change Function.update s.progress e (some p) e' = some p' at hp'
    by_cases he : e' = e
    · subst he
      rw [Function.update_self] at hp'
      cases hp'
      exact hset
    · rw [Function.update_of_ne he] at hp'
      exact h e' p' hp'
  | dropProgress e =>
    intro e' p' hp'
    change Function.update s.progress e none e' = some p' at hp'
    by_cases he : e' = e
    · subst he
      rw [Function.update_self] at hp'
      cases hp'
    · rw [Function.update_of_ne he] at hp'
      exact h e' p' hp'
  | _ => exact h

/-- A new process starts with empty caches. -/
def halt (s : Sys) : Sys := { s with progress := fun _ => none, watch := s.watch.halt }

end Sys

/-- The calls that can fail: those to the backend and to the audit chain. -/
def fallible {β : Type} : SchedOp β → Bool
  | .inl _ | .inr (.loadWorkflow ..) | .inr (.sealApprovalRecord ..) => true
  | .inr _ => false

/-- The scheduler's ticks, each over some order of its hash maps, beside everything else. -/
def engine [Chrono] (cfg : SchedulerConfig) (irOf : String → String → Option WorkflowIr) :
    Machine SchedOp BackendError Sys Act (HashOrder NodeId) where
  handle op s := s.handle irOf op
  fallible op := fallible op
  act a s := s.act a
  program order := Scheduler.tick cfg order
  stop s := s.halt

abbrev EngineConfig := Config SchedOp BackendError Sys

abbrev EngineMove := Move BackendError Act (HashOrder NodeId)

abbrev EngineRules := Rules SchedOp Sys Act (HashOrder NodeId)

/-- A database opened by a scheduler that has not ticked yet. -/
def boot (db : Db) (clock : Instant) : EngineConfig := atRest { db := db, clock := clock }

/-- Timestamps of the epoch's first day, when the runs on fixed inputs take place.  None of them
reads a timestamp back. -/
@[reducible]
def firstDay : Chrono where
  toRfc3339Millis t :=
    let pad (width n : ℕ) := "".pushn '0' (width - (toString n).length) ++ toString n
    let ms := t / 1000000
    "1970-01-01T" ++ pad 2 (ms / 3600000) ++ ":" ++ pad 2 (ms / 60000 % 60) ++ ":" ++
      pad 2 (ms / 1000 % 60) ++ "." ++ pad 3 (ms % 1000) ++ "Z"
  parseFromRfc3339 _ := none

/-- A workflow of one tool node, a run of it, and the engine on it. -/
def oneNodeIr : WorkflowIr := ⟨Finmap.singleton "a" ⟨.tool, none⟩, [], ∅⟩

def startOne : BackendOp Unit :=
  startRun oneNodeIr "a" ⟨.tool, none⟩ 0 "wf" "1.0.0" (.object []) "default" 0

def emptyResult : NodeResult :=
  ⟨.null, .object [], 5, none, none, none, none, none, none, none⟩

abbrev oneNodeEngine : Machine SchedOp BackendError Sys Act (HashOrder NodeId) :=
  @engine firstDay {} fun _ _ => some oneNodeIr

section Runs

variable [Chrono] (cfg : SchedulerConfig) (irOf : String → String → Option WorkflowIr)

theorem handle_append (s : Sys) (e : ExecutionId) (kind : EventKind) :
    (s.db.executions.find? e = none ∧
      ∃ err, (engine cfg irOf).handle (.inl (.appendEvent e kind)) s = (.error err, s)) ∨
    (∃ row, s.db.executions.find? e = some row) ∧
      (engine cfg irOf).handle (.inl (.appendEvent e kind)) s =
        (.ok ((s.db.events e).latest + 1),
          { s with
            db := s.db.setEvents e ((s.db.events e).append kind)
            watch := { s.watch with
              halfWritten := Watch.pairedAppend e kind s.watch.halfWritten } }) := by
  rcases Db.appendEvent_cases s.db e kind with ⟨hnone, h⟩ | ⟨hrow, h⟩
  · refine .inl ⟨hnone, Db.foreignKeyError, ?_⟩
    simp only [engine, Sys.handle, Sys.callBackend, BackendOp.exec, h]
    rw [Watch.note_eq_self rfl]
    rfl
  · refine .inr ⟨hrow, ?_⟩
    simp only [engine, Sys.handle, Sys.callBackend, BackendOp.exec, h]
    rw [Watch.note_eq_self (Db.setEvents_workItems _)]
    rfl

/-- A property of the database and the histories that no backend operation breaks holds along
every run, whoever makes the calls. -/
theorem run_backend_inv {I : Db → (WorkItemId → List Transition) → Prop}
    (hop : ∀ {β : Type} (op : BackendOp β) (db : Db) (w : Watch), I db w.history →
      I (op.exec db).2 (w.note op db (op.exec db).2).history)
    (c : EngineConfig) (ms : List EngineMove) (hc : I c.state.db c.state.watch.history) :
    I (c.run (engine cfg irOf) ms).state.db (c.run (engine cfg irOf) ms).state.watch.history := by
  refine Config.run_inv (I := fun s => I s.db s.watch.history) ?_ ?_ ?_
    (Rules.obeyed_default c ms) hc
  · rintro (op | nanos) s - h
    · exact hop op s.db s.watch h
    · exact h
  · rintro β (op | op) s - h
    · simp only [engine, Sys.handle, Sys.callBackend, Watch.follow_history]
      exact hop op s.db s.watch h
    · cases op <;> exact h
  · exact fun s h => h

end Runs

end JamJet
