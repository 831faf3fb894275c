import JamJet.Engine

/-! Snapshots of the materialized state.  A committed turn takes them inside its transaction, a
continuation segment starts with one, and `materialize` folds the rest of the log on top of the
latest. -/

namespace JamJet

open Materializer

namespace SnapshotRow

/-- The base `materialize` rebuilds from the columns of a snapshot. -/
def toMaterialized (snap : SnapshotRow) : MaterializedState where
  currentState := snap.state
  status := snap.status
  completedNodes := snap.completedNodes
  activeNodes := snap.activeNodes
  lastSequence := snap.lastSequence

def fromMaterialized (e : ExecutionId) (mat : MaterializedState) : SnapshotRow where
  executionId := e
  atSequence := mat.lastSequence
  state := mat.currentState
  status := mat.status
  completedNodes := mat.completedNodes
  activeNodes := mat.activeNodes
  lastSequence := mat.lastSequence

/-- Anchored at 0, in the child's own sequence space. -/
def seedForSegment (e : ExecutionId) (currentState : Json) : SnapshotRow where
  executionId := e
  atSequence := 0
  state := currentState
  status := .running
  completedNodes := ∅
  activeNodes := ∅
  lastSequence := 0

@[simp]
theorem toMaterialized_fromMaterialized (e : ExecutionId) (mat : MaterializedState) :
    (fromMaterialized e mat).toMaterialized = mat :=
  rfl

end SnapshotRow

/-- The one write of `start_next_segment`: the run goes on in a child execution from the state
it had come to. -/
def startNextSegment (parent child : ExecutionId) (nextSegmentNumber : ℕ)
    (carriedState : MaterializedState) (workflowId workflowVersion startNode queueType tenantId : String)
    (now : Instant) (initiatedBy : Option String) : BackendOp Unit :=
  .createRun
    { executionId := child
      workflowId := workflowId
      workflowVersion := workflowVersion
      status := .running
      initialInput := carriedState.currentState
      updatedAt := now
      completedAt := none
      tenantId := tenantId
      parentExecutionId := some parent
      segmentNumber := nextSegmentNumber }
    (some (.seedForSegment child carriedState.currentState))
    (.workflowStarted carriedState.currentState initiatedBy) (.nodeScheduled startNode queueType)
    { executionId := child
      nodeId := startNode
      queueType := queueType
      payload := Json.ofFields [("workflow_id", .string workflowId),
        ("workflow_version", .string workflowVersion)]
      attempt := 0
      maxAttempts := 3 }
    now

/-- A run that is created with a seed snapshot has the one `start_next_segment` gives it. -/
def BackendOp.SeedsSegment {β : Type} : BackendOp β → Prop
  | .createRun execution (some seed) started _ _ _ =>
      seed = .seedForSegment execution.executionId execution.initialInput ∧
        ∃ initiatedBy, started = .workflowStarted execution.initialInput initiatedBy
  | _ => True

theorem seedsSegment_startNextSegment (parent child : ExecutionId) (nextSegmentNumber : ℕ)
    (carriedState : MaterializedState) (workflowId workflowVersion startNode queueType tenantId : String)
    (now : Instant) (initiatedBy : Option String) :
    (startNextSegment parent child nextSegmentNumber carriedState workflowId workflowVersion startNode
      queueType tenantId now initiatedBy).SeedsSegment :=
  ⟨rfl, initiatedBy, rfl⟩

/-- What to fold on, and the sequence number past which. -/
def materializeBase (snapshot : Option SnapshotRow) (initialInput : Json) :
    MaterializedState × EventSequence :=
  match snapshot with
  | some snap => (snap.toMaterialized, snap.atSequence)
  | none => (ofInitialInput initialInput, 0)

/-- `materialize` makes three reads (the execution, its latest snapshot, the events since), and
each may find the database further on than the one before. -/
def materialize (atExecution atSnapshot atEvents : Db) (e : ExecutionId) :
    Except BackendError MaterializedState :=
  match atExecution.executions.find? e with
  | none => .error (.notFound e)
  | some execution =>
      let (base, baseSequence) :=
        materializeBase (atSnapshot.latestSnapshot e) execution.initialInput
      .ok (applyEventsSeeded base ((atEvents.events e).since baseSequence))

/-- The whole log folded from an execution's initial input. -/
def replay (initialInput : Json) (log : EventLog) : MaterializedState :=
  applyEventsSeeded (ofInitialInput initialInput) log.entries

theorem lastSequence_replay (initialInput : Json) (log : EventLog) :
    (replay initialInput log).lastSequence = log.latest := by
  rw [replay, lastSequence_applyEventsSeeded]
  exact Nat.max_eq_right (Nat.zero_le _)

/-- The later database has the executions of the earlier one, with the same input and the same
log or a longer one. -/
structure Db.Continues (db db' : Db) : Prop where
  log : ∀ e, (db.events e).Extends (db'.events e)
  input : ∀ e x, db.executions.find? e = some x →
    ∃ x', db'.executions.find? e = some x' ∧ x'.initialInput = x.initialInput

theorem Db.Continues.refl (db : Db) : db.Continues db :=
  ⟨fun _ => .refl _, fun _ x hx => ⟨x, hx, rfl⟩⟩

theorem Db.Continues.trans {db₁ db₂ db₃ : Db} (h₁ : db₁.Continues db₂) (h₂ : db₂.Continues db₃) :
    db₁.Continues db₃ where
  log e := (h₁.log e).trans (h₂.log e)
  input e x hx := by
    obtain ⟨x₂, hx₂, hin₂⟩ := h₁.input e x hx
    obtain ⟨x₃, hx₃, hin₃⟩ := h₂.input e x₂ hx₂
    exact ⟨x₃, hx₃, hin₃.trans hin₂⟩

theorem ExecutionStep.initialInput {β : Type} {op : BackendOp β} {x x' : ExecutionRow}
    (h : ExecutionStep op x x') : x'.initialInput = x.initialInput := by
  cases h <;> rfl

theorem Db.continues_exec {β : Type} (op : BackendOp β) (db : Db) :
    db.Continues (op.exec db).2 where
  log e := extends_exec op db e
  input e x hx := by
    obtain ⟨x', hx', hstep⟩ := (op.effect db).executions.row hx
    exact ⟨x', hx', hstep.initialInput⟩

/-- Folding the rest of the log on a snapshot gives what folding the whole log gives. -/
structure Db.Faithful (db : Db) (snap : SnapshotRow) : Prop where
  mark : snap.atSequence ≤ (db.events snap.executionId).latest
  fold : ∃ x, db.executions.find? snap.executionId = some x ∧
    applyEventsSeeded snap.toMaterialized
      ((db.events snap.executionId).since snap.atSequence) =
        replay x.initialInput (db.events snap.executionId)

theorem Db.Faithful.mono {db db' : Db} {snap : SnapshotRow} (h : db.Faithful snap)
    (hc : db.Continues db') : db'.Faithful snap := by
  obtain ⟨hmark, x, hx, hfold⟩ := h
  have hlog := hc.log snap.executionId
  refine ⟨hmark.trans hlog.latest_le, ?_⟩
  obtain ⟨x', hx', hin⟩ := hc.input _ x hx
  obtain ⟨more, hentries, hsince⟩ := hlog.since_eq hmark
  refine ⟨x', hx', ?_⟩
  rw [hsince, applyEventsSeeded_append, hfold, replay, replay, hentries,
    applyEventsSeeded_append, hin]

theorem Db.faithful_fromMaterialized {db : Db} {e : ExecutionId} {x : ExecutionRow}
    (hx : db.executions.find? e = some x) :
    db.Faithful (.fromMaterialized e (replay x.initialInput (db.events e))) := by
  have hat : (replay x.initialInput (db.events e)).lastSequence = (db.events e).latest :=
    lastSequence_replay _ _
  refine ⟨hat.le, x, hx, ?_⟩
  have hnone : (db.events e).since (replay x.initialInput (db.events e)).lastSequence = [] :=
    SeqLog.since_latest hat.ge
  change applyEventsSeeded _ ((db.events e).since (replay _ _).lastSequence) = _
  rw [hnone]
  rfl

theorem Db.faithful_seed {db : Db} {x : ExecutionRow} (initiatedBy : Option String)
    (scheduled : EventKind)
    (hx : db.executions.find? x.executionId = some x)
    (hlog : db.events x.executionId =
      (SeqLog.empty.append (.workflowStarted x.initialInput initiatedBy)).append scheduled) :
    db.Faithful (.seedForSegment x.executionId x.initialInput) := by
  refine ⟨Nat.zero_le _, x, hx, ?_⟩
  change applyEventsSeeded _ ((db.events x.executionId).since 0) = _
  rw [SeqLog.since_zero, replay]
  change _ = applyEventsSeeded _ (db.events x.executionId).entries
  rw [hlog]
  rfl

theorem Db.mem_latestSnapshot {db : Db} {e : ExecutionId} {snap : SnapshotRow}
    (h : db.latestSnapshot e = some snap) :
    snap ∈ db.snapshots.rows ∧ snap.executionId = e := by
  have hmem := (List.mem_insertionSort _).mp (List.mem_of_mem_head? h)
  simpa using hmem

/-- Every snapshot is faithful, and an execution without a row has no events either. -/
structure SnapshotsHold (db : Db) : Prop where
  faithful : ∀ snap ∈ db.snapshots.rows, db.Faithful snap
  homed : ∀ e, db.executions.find? e = none → (db.events e).entries = []

theorem materializeBase_fold {db db' : Db} (h : SnapshotsHold db) (hc : db.Continues db')
    {e : ExecutionId} {x : ExecutionRow} (hx : db'.executions.find? e = some x) :
    applyEventsSeeded (materializeBase (db.latestSnapshot e) x.initialInput).1
      ((db'.events e).since (materializeBase (db.latestSnapshot e) x.initialInput).2) =
        replay x.initialInput (db'.events e) := by
  cases hsnap : db.latestSnapshot e with
  | none =>
    change applyEventsSeeded _ ((db'.events e).since 0) = _
    rw [SeqLog.since_zero]
    rfl
  | some snap =>
    obtain ⟨hmem, rfl⟩ := Db.mem_latestSnapshot hsnap
    obtain ⟨_, x', hx', hfold⟩ := (h.faithful snap hmem).mono hc
    cases hx'.symm.trans hx
    exact hfold

theorem Db.writeSnapshot_eq (db : Db) (e : ExecutionId) (initialInput : Json) :
    db.writeSnapshot e initialInput = db.putSnapshot (.fromMaterialized e
      (applyEventsSeeded (materializeBase (db.latestSnapshot e) initialInput).1
        ((db.events e).since (materializeBase (db.latestSnapshot e) initialInput).2))) := by
  unfold Db.writeSnapshot
  cases db.latestSnapshot e <;> rfl

theorem Db.recordToolEffect_snapshots (db : Db) (e : ExecutionId) (kind : EventKind)
    (now : Instant) : (db.recordToolEffect e kind now).snapshots = db.snapshots := by
  unfold Db.recordToolEffect
  split <;> rfl

theorem snapshots_recordTurn {db db' : Db} (h : SnapshotsHold db) (hsnap : db'.snapshots = db.snapshots)
    (hc : db.Continues db') {e : ExecutionId} {x : ExecutionRow}
    (hx : db'.executions.find? e = some x) (kind : EventKind) (snapshot : Bool) (now : Instant) :
    ∀ snap ∈ (db'.recordTurn e kind x.initialInput snapshot now).snapshots.rows,
      db'.Faithful snap := by
  have hold : ∀ snap ∈ db'.snapshots.rows, db'.Faithful snap := fun snap hmem =>
    (h.faithful snap (hsnap ▸ hmem)).mono hc
  have hrec : (db'.recordToolEffect e kind now).snapshots = db'.snapshots :=
    Db.recordToolEffect_snapshots db' e kind now
  have hcore := Db.recordToolEffect_core db' e kind now
  intro snap hmem
  unfold Db.recordTurn at hmem
  simp only at hmem
  split at hmem
  · rw [Db.writeSnapshot_eq] at hmem
    rcases Table.mem_of_mem_put hmem with hmem | rfl
    · rw [hrec] at hmem
      exact hold snap hmem
    · have hlatest : (db'.recordToolEffect e kind now).latestSnapshot e = db.latestSnapshot e := by
        simp only [Db.latestSnapshot, hrec, hsnap]
      rw [hlatest, hcore.events, materializeBase_fold h hc hx]
      exact Db.faithful_fromMaterialized hx
  · rw [hrec] at hmem
    exact hold snap hmem

theorem snapshots_commitTurnInner {db : Db} (h : SnapshotsHold db) (id : WorkItemId) (fence : ℤ)
    (e : ExecutionId) (kind : EventKind) (snapshot refuse : Bool) (now : Instant)
    (hc : db.Continues (db.commitTurnInner id fence e kind snapshot refuse now).2) :
    ∀ snap ∈ (db.commitTurnInner id fence e kind snapshot refuse now).2.snapshots.rows,
      (db.commitTurnInner id fence e kind snapshot refuse now).2.Faithful snap := by
  rcases Db.commitTurnInner_cases db id fence e kind snapshot refuse now with
    hs | ⟨_, hs⟩ | ⟨_, _, settle, row, _, hrow, hs⟩
  · rw [hs]
    exact h.faithful
  · rw [hs] at hc ⊢
    exact fun snap hmem => (h.faithful snap hmem).mono hc
  · rw [hs] at hc ⊢
    generalize hdb' : (db.updateItem id (WorkItemRow.claimedUnder fence) settle.1
      settle.2).setEvents e ((db.events e).append kind) = db' at hc ⊢
    have hsnap : db'.snapshots = db.snapshots := by rw [← hdb']; rfl
    have hexec : db'.executions = db.executions := by rw [← hdb']; rfl
    -- the turn's bookkeeping leaves executions and logs as the append left them
    have hcore := Db.recordTurn_core db' e kind row.initialInput snapshot now
    have hc' : db.Continues db' :=
      ⟨fun e' => hcore.events ▸ hc.log e', fun e' x hx => ⟨x, hexec ▸ hx, rfl⟩⟩
    have hsame : db'.Continues (db'.recordTurn e kind row.initialInput snapshot now) := by
      refine ⟨fun e' => ?_, fun e' x hx => ⟨x, hcore.executions ▸ hx, rfl⟩⟩
      rw [hcore.events]
      exact .refl _
    intro snap hmem
    exact (snapshots_recordTurn h hsnap hc' (hexec ▸ hrow) kind snapshot now snap hmem).mono hsame

theorem snapshots_createRun {db : Db} (h : SnapshotsHold db) {x : ExecutionRow}
    {seed : Option SnapshotRow} {started scheduled : EventKind} {item : NewWorkItem}
    {now : Instant} (hop : (BackendOp.createRun x seed started scheduled item now).SeedsSegment)
    (hc : db.Continues (db.createRun x seed started scheduled item now).2) :
    ∀ snap ∈ (db.createRun x seed started scheduled item now).2.snapshots.rows,
      (db.createRun x seed started scheduled item now).2.Faithful snap := by
  rcases Db.createRun_cases db x seed started scheduled item now with
    hs | ⟨executions, items, hexec, _, _, hs⟩
  · rw [hs]
    exact h.faithful
  · rw [hs] at hc ⊢
    cases seed with
    | none => exact fun snap hmem => (h.faithful snap hmem).mono hc
    | some seed =>
      obtain ⟨rfl, initiatedBy, rfl⟩ := hop
      intro snap hmem
      rcases Table.mem_of_mem_put hmem with hmem | rfl
      · exact (h.faithful snap hmem).mono hc
      · have hempty : db.events x.executionId = .empty := by
          have hentries := h.homed _ (Table.rows_of_insert? hexec).1
          cases hlog : db.events x.executionId with
          | mk entries increasing positive =>
            rw [hlog] at hentries
            cases hentries
            rfl
        refine Db.faithful_seed initiatedBy scheduled ?_ ?_
        · simp [Table.find?_of_insert? hexec]
        · simp [hempty]

theorem SnapshotsHold.exec {db : Db} (h : SnapshotsHold db) {β : Type} {op : BackendOp β}
    (hop : op.SeedsSegment) : SnapshotsHold (op.exec db).2 := by
  have hc := Db.continues_exec op db
  refine ⟨?_, fun e hnone => ?_⟩
  · cases op with
    | createRun x seed started scheduled item now => exact snapshots_createRun h hop hc
    | commitTurn id fence e kind snapshot now =>
      simp only [BackendOp.exec, Db.commitTurn_db] at hc ⊢
      exact snapshots_commitTurnInner h id fence e kind snapshot false now hc
    | commitTurnUnlessTerminal id fence e kind snapshot now =>
      exact snapshots_commitTurnInner h id fence e kind snapshot true now hc
    | reserveToolEffect key e node owner fence ttl now =>
      have hsame : (db.reserveToolEffect key e node owner fence ttl now).2.snapshots =
          db.snapshots := by
        unfold Db.reserveToolEffect
        simp only
        split <;> rfl
      intro snap hmem
      simp only [BackendOp.exec, hsame] at hmem
      exact (h.faithful snap hmem).mono hc
    | releaseToolReservation key owner fence =>
      exact fun snap hmem => (h.faithful snap hmem).mono hc
    | _ =>
      intro snap hmem
      rw [(BackendOp.rest rfl db).snapshots] at hmem
      exact (h.faithful snap hmem).mono hc
  · rw [events_exec_of_absent op db hnone]
    refine h.homed e ?_
    cases hx : db.executions.find? e with
    | none => rfl
    | some x =>
      obtain ⟨x', hx', _⟩ := hc.input e x hx
      rw [hnone] at hx'
      cases hx'

theorem SnapshotsHold.runOps {db : Db} (h : SnapshotsHold db) (ops : List SomeOp)
    (hops : ∀ op ∈ ops, op.2.SeedsSegment) :
    SnapshotsHold (db.runOps ops) ∧ db.Continues (db.runOps ops) := by
  induction ops generalizing db with
  | nil => exact ⟨h, .refl db⟩
  | cons op ops ih =>
    have hstep := h.exec (hops op (by simp))
    obtain ⟨hrun, hc⟩ := ih hstep fun op' hmem => hops op' (by simp [hmem])
    exact ⟨hrun, (Db.continues_exec op.2 db).trans hc⟩

theorem SnapshotsHold.of_none {db : Db} (hnone : db.snapshots.rows = [])
    (hhomed : ∀ e, db.executions.find? e = none → (db.events e).entries = []) :
    SnapshotsHold db := by
  refine ⟨?_, hhomed⟩
  rw [hnone]
  simp

/-- Whatever snapshots the operations of a run took, and whatever happens between the reads of
`materialize`, it returns the fold of the whole log it last read. -/
theorem snapshots_never_change_state {db : Db} (hnone : db.snapshots.rows = [])
    (hhomed : ∀ e, db.executions.find? e = none → (db.events e).entries = [])
    {ops ops₁ ops₂ : List SomeOp} (hops : ∀ op ∈ ops ++ ops₁ ++ ops₂, op.2.SeedsSegment)
    (e : ExecutionId) :
    materialize (db.runOps ops) ((db.runOps ops).runOps ops₁)
        (((db.runOps ops).runOps ops₁).runOps ops₂) e =
      match (db.runOps ops).executions.find? e with
      | none => .error (.notFound e)
      | some execution =>
          .ok (replay execution.initialInput
            ((((db.runOps ops).runOps ops₁).runOps ops₂).events e)) := by
  obtain ⟨h₀, -⟩ := (SnapshotsHold.of_none hnone hhomed).runOps ops fun op hop =>
    hops op (by simp [hop])
  obtain ⟨h₁, hc₁⟩ := h₀.runOps ops₁ fun op hop => hops op (by simp [hop])
  obtain ⟨-, hc₂⟩ := h₁.runOps ops₂ fun op hop => hops op (by simp [hop])
  unfold materialize
  cases hx : (db.runOps ops).executions.find? e with
  | none => rfl
  | some x =>
    obtain ⟨x', hx', hin⟩ := (hc₁.trans hc₂).input e x hx
    simp only [← hin]
    exact congrArg Except.ok (materializeBase_fold h₁ hc₂ hx')

/-- One turn committed with a snapshot. -/
def snapshotRun : List SomeOp :=
  [⟨_, startOne⟩, ⟨_, .claimWorkItem "w" ["tool"] none 1⟩,
    ⟨_, .commitTurn 1 1 0
      (.nodeCompleted "a" { emptyResult with statePatch := .object [("x", .bool true)] }) true 2⟩]

theorem snapshots_never_change_state_one_turn :
    ((({} : Db).runOps snapshotRun).latestSnapshot 0).isSome = true ∧
    ∃ execution, (({} : Db).runOps snapshotRun).executions.find? 0 = some execution ∧
      materialize (({} : Db).runOps snapshotRun) (({} : Db).runOps snapshotRun)
          ((({} : Db).runOps snapshotRun).runOps [⟨_, .appendEvent 0 (.nodeSkipped "b" "")⟩]) 0 =
        .ok (replay execution.initialInput
          (((({} : Db).runOps snapshotRun).runOps
            [⟨_, .appendEvent 0 (.nodeSkipped "b" "")⟩]).events 0)) := by
  have hseeds : ∀ op ∈ snapshotRun ++ [] ++ [⟨_, .appendEvent 0 (.nodeSkipped "b" "")⟩],
      op.2.SeedsSegment := by
    intro op hop
    simp only [snapshotRun, List.append_nil, List.cons_append, List.nil_append, List.mem_cons,
      List.not_mem_nil, or_false] at hop
    rcases hop with rfl | rfl | rfl | rfl <;> trivial
  exact ⟨rfl, _, rfl, snapshots_never_change_state rfl (fun _ _ => rfl) hseeds 0⟩

end JamJet
