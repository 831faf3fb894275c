import JamJet.Budget
import JamJet.SubmitApproval
import Mathlib.Algebra.Order.Ring.Int

/-! The counters of a run under any interleaving of its workers.  The read before a node and the
write after it are two steps, and only what happens between them can lose an update. -/

namespace JamJet

open AtomicCalls Materializer

/-- The claim a worker's read of the counters is remembered under. -/
abbrev ClaimKey := WorkItemId × ℤ × ExecutionId

/-- The database, the time, and where each claim's log stood when the counters were first read
under it.  No step depends on the last. -/
structure BudgetSys where
  db : Db := {}
  clock : Instant := 0
  loads : ClaimKey → Option EventSequence := fun _ => none

namespace BudgetSys

def act (s : BudgetSys) : ServerAct → BudgetSys
  | .call op => { s with db := (op.exec s.db).2 }
  | .setClock now => { s with clock := now }

def remember (s : BudgetSys) (key : ClaimKey) : BudgetSys :=
  { s with
    loads := Function.update s.loads key ((s.loads key).or (some (s.db.events key.2.2).latest)) }

def handle {β : Type} (op : BudgetOp β) (s : BudgetSys) : Except BackendError β × BudgetSys :=
  match op with
  | .inl op => ((op.exec s.db).1, { s with db := (op.exec s.db).2 })
  | .inr .utcNow => (.ok s.clock, s)
  | .inr (.loadBudget item fence e) =>
      (.ok (s.db.latestSnapshot e), s.remember (item, fence, e))

end BudgetSys

/-- Any number of workers, each executing an item; everything else happens beside them. -/
def budgetWorkers [F64] : Service BudgetOp BackendError Unit BudgetSys ServerAct BudgetItem where
  handle op s := s.handle op
  fallible op := match op with
    | .inr .utcNow => false
    | _ => true
  act a s := s.act a
  program item := Worker.executeItem item

abbrev BudgetMove := PoolMove BackendError ServerAct BudgetItem

/-- The two counters of tokens. -/
inductive TokenSide
  | input
  | output

def NodeResult.tokens (result : NodeResult) : TokenSide → ℕ
  | .input => result.inputTokens.getD 0
  | .output => result.outputTokens.getD 0

def BudgetState.tokens (b : BudgetState) : TokenSide → ℕ
  | .input => b.totalInputTokens
  | .output => b.totalOutputTokens

def EventKind.tokens (kind : EventKind) (side : TokenSide) : ℕ :=
  match kind with
  | .nodeCompleted _ result => result.tokens side
  | _ => 0

/-- The tokens the completed nodes of a log report. -/
def spent (side : TokenSide) (events : List Event) : ℕ :=
  (events.map fun x => x.kind.tokens side).sum

/-- A patch that leaves the counters of any state as they are. -/
def Json.leavesBudget : Json → Bool
  | .null => true
  | .object fields => fields.all fun kv => kv.1 ≠ budgetKey
  | _ => false

/-- The kinds whose fold leaves the counters as they are and that report no tokens. -/
def EventKind.leavesBudget : EventKind → Bool
  | .workflowCompleted _ => false
  | .nodeCompleted _ result =>
      result.tokens .input = 0 && result.tokens .output = 0 && result.statePatch.leavesBudget
  | .approvalReceived _ answer => answer.statePatch.all Json.leavesBudget
  | _ => true

theorem get_mergeFields_of_not_mem {patch : JsonMap} {k : String} (h : ∀ kv ∈ patch, kv.1 ≠ k)
    (fields : JsonMap) : BTree.get (mergeFields fields patch) k = BTree.get fields k := by
  induction patch generalizing fields with
  | nil => simp [mergeFields]
  | cons kv patch ih =>
    have hk := h kv (by simp)
    rw [mergeFields_cons, ih fun kv' hkv' => h kv' (by simp [hkv'])]
    cases mergeMember (BTree.get fields kv.1) kv.2 with
    | none => simp [BTree.get_remove, hk]
    | some new => simp [BTree.get_insert, hk]

theorem get_jsonMergePatch_leavesBudget {patch : Json} (h : patch.leavesBudget = true)
    (state : Json) : (jsonMergePatch state patch).get budgetKey = state.get budgetKey := by
  cases patch with
  | null => simp [jsonMergePatch]
  | object fields =>
    rw [jsonMergePatch_object, Json.get, get_mergeFields_of_not_mem (by
      simpa [Json.leavesBudget] using h)]
    cases state <;> rfl
  | _ => cases h

theorem get_applyEvent_leavesBudget {kind : EventKind} (h : kind.leavesBudget = true)
    (mat : MaterializedState) (sequence : EventSequence) :
    (applyEvent mat ⟨sequence, kind⟩).currentState.get budgetKey =
      mat.currentState.get budgetKey := by
  cases kind with
  | workflowCompleted => cases h
  | nodeCompleted node result =>
    simp only [EventKind.leavesBudget, Bool.and_eq_true] at h
    exact get_jsonMergePatch_leavesBudget h.2 _
  | approvalReceived node answer =>
    simp only [EventKind.leavesBudget] at h
    cases hpatch : answer.statePatch with
    | none => simp [applyEvent, hpatch]
    | some patch =>
      rw [hpatch] at h
      simpa [applyEvent, hpatch] using get_jsonMergePatch_leavesBudget h _
  | interruptRaised node =>
    simp only [applyEvent]
    split <;> rfl
  | _ => rfl

theorem tokens_leavesBudget {kind : EventKind} (h : kind.leavesBudget = true) (side : TokenSide) :
    kind.tokens side = 0 := by
  cases kind with
  | nodeCompleted node result =>
    simp only [EventKind.leavesBudget, Bool.and_eq_true, decide_eq_true_eq] at h
    cases side with
    | input => exact h.1.1
    | output => exact h.1.2
  | _ => rfl

theorem spent_append (side : TokenSide) (xs ys : List Event) :
    spent side (xs ++ ys) = spent side xs + spent side ys := by
  simp [spent]

theorem spent_singleton (side : TokenSide) (x : Event) : spent side [x] = x.kind.tokens side := by
  simp [spent]

theorem spent_eq_zero {side : TokenSide} {xs : List Event} (h : ∀ x ∈ xs, x.kind.tokens side = 0) :
    spent side xs = 0 := by
  induction xs with
  | nil => rfl
  | cons x xs ih =>
    have hrest := ih fun y hy => h y (by simp [hy])
    rw [← List.singleton_append, spent_append, spent_singleton, h x (by simp), hrest]

theorem replay_appendAll {kinds : List EventKind} (h : ∀ kind ∈ kinds, kind.leavesBudget = true)
    (input : Json) (log : EventLog) :
    (replay input (log.appendAll kinds)).currentState.get budgetKey =
        (replay input log).currentState.get budgetKey ∧
      ∀ side, spent side (log.appendAll kinds).entries = spent side log.entries := by
  induction kinds generalizing log with
  | nil => exact ⟨rfl, fun _ => rfl⟩
  | cons kind kinds ih =>
    have hkind := h kind (by simp)
    obtain ⟨hstate, hspent⟩ := ih (fun k hk => h k (by simp [hk])) (log.append kind)
    refine ⟨hstate.trans ?_, fun side => (hspent side).trans ?_⟩
    · rw [replay, SeqLog.entries_append, applyEventsSeeded_append]
      exact get_applyEvent_leavesBudget hkind _ _
    · rw [SeqLog.entries_append, spent_append, spent_singleton, tokens_leavesBudget hkind,
        Nat.add_zero]

theorem Db.le_latestSnapshot {db : Db} {snap : SnapshotRow} (h : snap ∈ db.snapshots.rows) :
    ∃ latest, db.latestSnapshot snap.executionId = some latest ∧ snap.atSequence ≤ latest.atSequence := by
  unfold Db.latestSnapshot
  have hmem : snap ∈ (db.snapshots.rows.filter fun s => s.executionId = snap.executionId).insertionSort
      fun a b => b.atSequence ≤ a.atSequence :=
    (List.mem_insertionSort _).mpr (by simp [h])
  have hsorted := List.pairwise_insertionSort (fun a b : SnapshotRow => b.atSequence ≤ a.atSequence)
    (db.snapshots.rows.filter fun s => s.executionId = snap.executionId)
  cases hrows : (db.snapshots.rows.filter fun s => s.executionId = snap.executionId).insertionSort
      fun a b => b.atSequence ≤ a.atSequence with
  | nil =>
    rw [hrows] at hmem
    cases hmem
  | cons latest rest =>
    rw [hrows] at hmem hsorted
    refine ⟨latest, rfl, ?_⟩
    rcases List.mem_cons.mp hmem with rfl | hmem
    · exact le_rfl
    · exact (List.pairwise_cons.mp hsorted).1 snap hmem

theorem SnapshotsHold.latest_eq {db : Db} (h : SnapshotsHold db) (snap : SnapshotRow)
    (hmem : snap ∈ db.snapshots.rows)
    (hat : (db.events snap.executionId).latest ≤ snap.atSequence) {x : ExecutionRow}
    (hx : db.executions.find? snap.executionId = some x) :
    ∃ latest, db.latestSnapshot snap.executionId = some latest ∧
      latest.state = (replay x.initialInput (db.events snap.executionId)).currentState := by
  obtain ⟨latest, hlatest, hle⟩ := Db.le_latestSnapshot hmem
  obtain ⟨hrow, he⟩ := Db.mem_latestSnapshot hlatest
  obtain ⟨-, x', hx', hfold⟩ := h.faithful latest hrow
  rw [he] at hx' hfold
  cases hx'.symm.trans hx
  rw [SeqLog.since_latest (hat.trans hle)] at hfold
  exact ⟨latest, hlatest, congrArg (·.currentState) hfold⟩

theorem Db.latestSnapshot_put_of_ne {db : Db} {snap : SnapshotRow} {e : ExecutionId}
    (he : snap.executionId ≠ e) : (db.putSnapshot snap).latestSnapshot e = db.latestSnapshot e := by
  unfold Db.latestSnapshot Db.putSnapshot Table.put
  congr 2
  rw [List.filter_append, List.filter_filter]
  have hnone : [snap].filter (fun s => s.executionId = e) = [] := by simp [he]
  rw [hnone, List.append_nil]
  refine List.filter_congr fun s _ => ?_
  by_cases hs : s.executionId = e
  · simp [hs, he.symm]
  · simp [hs]

theorem Db.continues_turn (db : Db) (id : WorkItemId) (fence : ℤ)
    (settle : { f : WorkItemRow → WorkItemRow // ∀ r, (f r).id = r.id }) (e : ExecutionId)
    (kind : EventKind) :
    db.Continues ((db.updateItem id (WorkItemRow.claimedUnder fence) settle.1 settle.2).setEvents e
      ((db.events e).append kind)) := by
  refine ⟨fun e' => ?_, fun e' x hx => ⟨x, hx, rfl⟩⟩
  by_cases he : e' = e
  · subst he
    rw [Db.setEvents_events_self]
    exact SeqLog.extends_append _ _
  · rw [Db.setEvents_events_of_ne _ he]
    exact .refl _

theorem latestSnapshot_recordTurn {db db' : Db} (h : SnapshotsHold db)
    (hsnap : db'.snapshots = db.snapshots) (hc : db.Continues db') {e : ExecutionId}
    {x : ExecutionRow} (hx : db'.executions.find? e = some x) {kind : EventKind} {now : Instant}
    (h' : SnapshotsHold (db'.recordTurn e kind x.initialInput true now)) :
    ∃ latest, (db'.recordTurn e kind x.initialInput true now).latestSnapshot e = some latest ∧
      latest.state = (replay x.initialInput (db'.events e)).currentState := by
  have hcore := Db.recordToolEffect_core db' e kind now
  have hsame : (db'.recordToolEffect e kind now).latestSnapshot e = db.latestSnapshot e := by
    simp only [Db.latestSnapshot, Db.recordToolEffect_snapshots db' e kind now, hsnap]
  have hevents : ((db'.recordToolEffect e kind now).putSnapshot (.fromMaterialized e
      (replay x.initialInput (db'.events e)))).events = db'.events := hcore.events
  have hx' : (db'.recordToolEffect e kind now).executions.find? e = some x := by
    rw [hcore.executions, hx]
  unfold Db.recordTurn at h' ⊢
  simp only [if_true] at h' ⊢
  rw [Db.writeSnapshot_eq, hsame, hcore.events, materializeBase_fold h hc hx] at h' ⊢
  have hlatest := h'.latest_eq (.fromMaterialized e (replay x.initialInput (db'.events e)))
    (by simp [Db.putSnapshot, Table.put]) (by rw [hevents]; exact (lastSequence_replay _ _).ge) hx'
  rw [hevents] at hlatest
  exact hlatest

theorem latestSnapshot_commitTurnInner {db : Db} (h : SnapshotsHold db) {id : WorkItemId}
    {fence : ℤ} {e₀ : ExecutionId} {kind : EventKind} {snapshot refuse : Bool} {now : Instant}
    (h' : SnapshotsHold (db.commitTurnInner id fence e₀ kind snapshot refuse now).2)
    {e : ExecutionId} {x : ExecutionRow} (hx : db.executions.find? e = some x) :
    (db.commitTurnInner id fence e₀ kind snapshot refuse now).2.latestSnapshot e =
      db.latestSnapshot e ∨
    ∃ latest, (db.commitTurnInner id fence e₀ kind snapshot refuse now).2.latestSnapshot e =
        some latest ∧ latest.state = (replay x.initialInput
          ((db.commitTurnInner id fence e₀ kind snapshot refuse now).2.events e)).currentState := by
  rcases Db.commitTurnInner_cases db id fence e₀ kind snapshot refuse now with
    hs | ⟨_, hs⟩ | ⟨_, _, settle, row, _, hrow, hs⟩
  · exact .inl (by rw [hs])
  · exact .inl (by rw [hs]; rfl)
  · have hc := Db.continues_turn db id fence settle e₀ kind
    rw [hs] at h' ⊢
    generalize hdb' : (db.updateItem id (WorkItemRow.claimedUnder fence) settle.1
      settle.2).setEvents e₀ ((db.events e₀).append kind) = db' at h' hc ⊢
    have hsnap : db'.snapshots = db.snapshots := by rw [← hdb']; rfl
    have hexec : db'.executions = db.executions := by rw [← hdb']; rfl
    have hsame : (db'.recordToolEffect e₀ kind now).latestSnapshot e = db.latestSnapshot e := by
      simp only [Db.latestSnapshot, Db.recordToolEffect_snapshots db' e₀ kind now, hsnap]
    cases snapshot with
    | false => exact .inl hsame
    | true =>
      by_cases he : e = e₀
      · subst he
        cases hrow.symm.trans hx
        refine .inr ?_
        rw [(Db.recordTurn_core db' e kind x.initialInput true now).events]
        exact latestSnapshot_recordTurn h hsnap hc (hexec ▸ hx) h'
      · refine .inl ?_
        unfold Db.recordTurn
        simp only [if_true]
        rw [Db.writeSnapshot_eq, Db.latestSnapshot_put_of_ne (Ne.symm he)]
        exact hsame

theorem latestSnapshot_exec {db : Db} (h : SnapshotsHold db) {β : Type} {op : BackendOp β}
    (hop : op.SeedsSegment) {e : ExecutionId} {x : ExecutionRow}
    (hx : db.executions.find? e = some x) :
    (op.exec db).2.latestSnapshot e = db.latestSnapshot e ∨
    ∃ latest, (op.exec db).2.latestSnapshot e = some latest ∧
      latest.state = (replay x.initialInput ((op.exec db).2.events e)).currentState := by
  have h' := h.exec hop
  have hsame : (op.exec db).2.snapshots = db.snapshots →
      (op.exec db).2.latestSnapshot e = db.latestSnapshot e := by
    intro hs
    simp only [Db.latestSnapshot, hs]
  cases op with
  | createRun x' seed started scheduled item now =>
    rcases Db.createRun_cases db x' seed started scheduled item now with
      hs | ⟨executions, items, hexec, -, -, hs⟩
    · exact .inl (by rw [BackendOp.exec, hs])
    · rw [BackendOp.exec, hs]
      have hne : x'.executionId ≠ e := by
        rintro rfl
        rw [(Table.rows_of_insert? hexec).1] at hx
        cases hx
      cases seed with
      | none => exact .inl rfl
      | some seed => exact .inl (Db.latestSnapshot_put_of_ne hne)
  | commitTurn id fence e' kind snapshot now =>
    simp only [BackendOp.exec, Db.commitTurn_db] at h' ⊢
    exact latestSnapshot_commitTurnInner h h' hx
  | commitTurnUnlessTerminal id fence e' kind snapshot now =>
    exact latestSnapshot_commitTurnInner h h' hx
  | reserveToolEffect key e' node owner fence ttl now =>
    refine .inl (hsame ?_)
    simp only [BackendOp.exec, Db.reserveToolEffect]
    split <;> rfl
  | releaseToolReservation key owner fence => exact .inl (hsame rfl)
  | _ => exact .inl (hsame (BackendOp.rest rfl db).snapshots)

section Counters

variable [F64]

/-- The state an execution's log folds to. -/
def Db.stateOf (db : Db) (x : ExecutionRow) : Json :=
  (replay x.initialInput (db.events x.executionId)).currentState

/-- What a worker that reads the counters finds. -/
def Db.loadedBudget (db : Db) (e : ExecutionId) : BudgetState :=
  match db.latestSnapshot e with
  | some snap => .fromSnapshotState snap.state
  | none => {}

/-- The counters in the committed state are those the execution started with and what its
completed nodes report, and a worker that reads them finds the same. -/
structure CountersExact (db : Db) (x : ExecutionRow) : Prop where
  loaded : db.loadedBudget x.executionId = .fromSnapshotState (db.stateOf x)
  tokens : ∀ side, (BudgetState.fromSnapshotState (db.stateOf x)).tokens side =
    (BudgetState.fromSnapshotState x.initialInput).tokens side +
      spent side (db.events x.executionId).entries

structure BudgetInv (db : Db) : Prop where
  snapshots : SnapshotsHold db
  counters : ∀ e x, db.executions.find? e = some x → CountersExact db x

/-- What another party does to a run leaves the counters in its state alone, and a run that does
not continue another starts without counters. -/
def Db.KeepsBudget (db : Db) {β : Type} : BackendOp β → Prop
  | .finishExecution e (.workflowCompleted finalState) _ _ =>
      ∀ x, db.executions.find? e = some x → finalState.get budgetKey = (db.stateOf x).get budgetKey
  | .createRun execution seed started scheduled _ _ =>
      started.leavesBudget = true ∧ scheduled.leavesBudget = true ∧
        (seed = none → execution.initialInput.get budgetKey = none)
  | op => ∀ kind ∈ op.kinds, kind.leavesBudget = true

theorem fromSnapshotState_congr {state state' : Json}
    (h : state'.get budgetKey = state.get budgetKey) :
    BudgetState.fromSnapshotState state' = .fromSnapshotState state := by
  simp only [BudgetState.fromSnapshotState, h]

theorem loadedBudget_exec {db : Db} (h : SnapshotsHold db) {β : Type} {op : BackendOp β}
    (hop : op.SeedsSegment) {e : ExecutionId} {x x' : ExecutionRow}
    (hx : db.executions.find? e = some x) (hx' : (op.exec db).2.executions.find? e = some x')
    (hin : x'.initialInput = x.initialInput) :
    (op.exec db).2.loadedBudget e = db.loadedBudget e ∨
      (op.exec db).2.loadedBudget e = .fromSnapshotState ((op.exec db).2.stateOf x') := by
  rcases latestSnapshot_exec h hop hx with hs | ⟨latest, hs, hstate⟩
  · exact .inl (by simp only [Db.loadedBudget, hs])
  · refine .inr ?_
    have he : x'.executionId = e := Table.key_of_find? hx'
    simp only [Db.loadedBudget, hs, hstate, Db.stateOf, hin, he]

theorem CountersExact.step {db db' : Db} {x x' : ExecutionRow} (h : CountersExact db x)
    (he : x'.executionId = x.executionId) (hin : x'.initialInput = x.initialInput)
    (hloaded : db'.loadedBudget x.executionId = db.loadedBudget x.executionId ∨
      db'.loadedBudget x.executionId = .fromSnapshotState (db'.stateOf x'))
    (hstate : (db'.stateOf x').get budgetKey = (db.stateOf x).get budgetKey)
    (hspent : ∀ side, spent side (db'.events x.executionId).entries =
      spent side (db.events x.executionId).entries) : CountersExact db' x' := by
  have hbudget := fromSnapshotState_congr hstate
  refine ⟨?_, fun side => ?_⟩
  · rw [he]
    rcases hloaded with hl | hl
    · rw [hl, h.loaded, hbudget]
    · exact hl
  · rw [hbudget, h.tokens, hin, he, hspent]

omit [F64] in
/-- What an operation of another party leaves of an execution's state and reports. -/
theorem quiet_exec {db : Db} {β : Type} {op : BackendOp β} (hop : db.KeepsBudget op)
    {e : ExecutionId} {x : ExecutionRow} (hx : db.executions.find? e = some x) :
    ((replay x.initialInput ((op.exec db).2.events e)).currentState.get budgetKey =
        (replay x.initialInput (db.events e)).currentState.get budgetKey) ∧
      ∀ side, spent side ((op.exec db).2.events e).entries = spent side (db.events e).entries := by
  have hkinds : (∀ kind ∈ op.kinds, kind.leavesBudget = true) →
      ((replay x.initialInput ((op.exec db).2.events e)).currentState.get budgetKey =
          (replay x.initialInput (db.events e)).currentState.get budgetKey) ∧
        ∀ side, spent side ((op.exec db).2.events e).entries = spent side (db.events e).entries := by
    intro hkeep
    obtain ⟨kinds, hlog, happ⟩ := (op.effect db).logs e
    have hall : ∀ kind ∈ kinds, kind.leavesBudget = true := by
      intro kind hk
      rcases (happ kind hk).mem_kinds with hmem | ⟨r, rfl | rfl⟩
      · exact hkeep kind hmem
      · rfl
      · rfl
    obtain ⟨hstate, hspent⟩ := replay_appendAll hall x.initialInput (db.events e)
    rw [hlog]
    exact ⟨hstate, hspent⟩
  cases op with
  | finishExecution e' kind status now =>
    cases kind with
    | workflowCompleted finalState =>
      rcases Db.finishExecution_cases db e' (.workflowCompleted finalState) status now with
        hs | ⟨-, -, -, hs⟩
      · rw [BackendOp.exec, hs]
        exact ⟨rfl, fun _ => rfl⟩
      · rw [BackendOp.exec, hs]
        by_cases he : e = e'
        · subst he
          have hfinal := hop x hx
          have hid : x.executionId = e := Table.key_of_find? hx
          rw [Db.setEvents_events_self]
          constructor
          · rw [replay, SeqLog.entries_append, applyEventsSeeded_append]
            simpa [applyEventsSeeded, applyEvent, Db.stateOf, hid, replay] using hfinal
          · intro side
            rw [SeqLog.entries_append, spent_append]
            simp [spent, EventKind.tokens]
        · rw [Db.setEvents_events_of_ne _ he]
          exact ⟨rfl, fun _ => rfl⟩
    | _ => exact hkinds hop
  | createRun x' seed started scheduled item now =>
    exact hkinds (by simpa [BackendOp.kinds] using ⟨hop.1, hop.2.1⟩)
  | _ => exact hkinds hop

omit [F64] in
theorem SnapshotsHold.latest_of_absent {db : Db} (h : SnapshotsHold db) {e : ExecutionId}
    (hfree : db.executions.find? e = none) : db.latestSnapshot e = none := by
  cases hsnap : db.latestSnapshot e with
  | none => rfl
  | some snap =>
    obtain ⟨hmem, rfl⟩ := Db.mem_latestSnapshot hsnap
    obtain ⟨-, x, hx, -⟩ := h.faithful snap hmem
    rw [hfree] at hx
    cases hx

omit [F64] in
theorem latestSnapshot_putSeed {db : Db} (h : SnapshotsHold db) {e : ExecutionId}
    (hfree : db.executions.find? e = none) (input : Json) :
    (db.putSnapshot (.seedForSegment e input)).latestSnapshot e = some (.seedForSegment e input) := by
  have hmem : SnapshotRow.seedForSegment e input ∈
      (db.putSnapshot (.seedForSegment e input)).snapshots.rows := by
    simp [Db.putSnapshot, Table.put]
  obtain ⟨latest, hlatest, -⟩ := Db.le_latestSnapshot hmem
  obtain ⟨hrow, he⟩ := Db.mem_latestSnapshot hlatest
  rcases Table.mem_of_mem_put hrow with hold | rfl
  · obtain ⟨-, x, hx, -⟩ := h.faithful latest hold
    rw [he] at hx
    exact absurd (hx.symm.trans hfree) (by simp)
  · exact hlatest

/-- A new execution starts with the counters it is given. -/
theorem CountersExact.of_createRun {db : Db} (h : SnapshotsHold db) {x : ExecutionRow}
    {seed : Option SnapshotRow} {started scheduled : EventKind} {item : NewWorkItem}
    {now : Instant} (hseed : (BackendOp.createRun x seed started scheduled item now).SeedsSegment)
    (hop : db.KeepsBudget (.createRun x seed started scheduled item now))
    (hfree : db.executions.find? x.executionId = none)
    (hx : (db.createRun x seed started scheduled item now).2.executions.find? x.executionId =
      some x) : CountersExact (db.createRun x seed started scheduled item now).2 x := by
  obtain ⟨hstarted, hscheduled, hroot⟩ := hop
  rcases Db.createRun_cases db x seed started scheduled item now with
    hs | ⟨executions, items, hexec, -, -, hs⟩
  · rw [hs, hfree] at hx
    cases hx
  · have hempty : db.events x.executionId = .empty := by
      have hentries := h.homed _ hfree
      cases hlog : db.events x.executionId with
      | mk entries increasing positive =>
        rw [hlog] at hentries
        cases hentries
        rfl
    have hlog : (db.createRun x seed started scheduled item now).2.events x.executionId =
        SeqLog.empty.appendAll [started, scheduled] := by
      rw [hs]
      simp [hempty, SeqLog.appendAll]
    have hkinds : ∀ kind ∈ [started, scheduled], kind.leavesBudget = true := by
      simp [hstarted, hscheduled]
    obtain ⟨hstate, hspent⟩ := replay_appendAll hkinds x.initialInput .empty
    have hcur : BudgetState.fromSnapshotState
        ((db.createRun x seed started scheduled item now).2.stateOf x) =
          .fromSnapshotState x.initialInput := by
      refine fromSnapshotState_congr ?_
      rw [Db.stateOf, hlog, hstate]
      rfl
    refine ⟨?_, fun side => ?_⟩
    · rw [hcur]
      cases seed with
      | none =>
        have hlatest : (db.createRun x none started scheduled item now).2.latestSnapshot
            x.executionId = none := by
          rw [hs]
          exact h.latest_of_absent hfree
        simp [Db.loadedBudget, hlatest, BudgetState.fromSnapshotState, hroot rfl]
      | some seed =>
        obtain ⟨rfl, -⟩ := hseed
        have hlatest : (db.createRun x (some (.seedForSegment x.executionId x.initialInput))
            started scheduled item now).2.latestSnapshot x.executionId =
              some (.seedForSegment x.executionId x.initialInput) := by
          rw [hs]
          exact latestSnapshot_putSeed h hfree x.initialInput
        simp only [Db.loadedBudget, hlatest]
        rfl
    · rw [hcur, hlog, hspent]
      rfl

theorem BudgetInv.exec {db : Db} (h : BudgetInv db) {β : Type} {op : BackendOp β}
    (hseed : op.SeedsSegment) (hop : db.KeepsBudget op) : BudgetInv (op.exec db).2 := by
  refine ⟨h.snapshots.exec hseed, fun e x' hx' => ?_⟩
  cases hx : db.executions.find? e with
  | some x =>
    obtain ⟨x₁, hx₁, hstep⟩ := (op.effect db).executions.row hx
    cases hx'.symm.trans hx₁
    have hin := hstep.initialInput
    have he : x.executionId = e := Table.key_of_find? hx
    have he' : x'.executionId = e := Table.key_of_find? hx'
    obtain ⟨hstate, hspent⟩ := quiet_exec hop hx
    subst he
    refine (h.counters _ x hx).step he' hin
      (loadedBudget_exec h.snapshots hseed hx hx' hin) ?_ hspent
    simp only [Db.stateOf, hin, he', hstate]
  | none =>
    have hnew := (op.effect db).executions.new hx hx'
    have he' : x'.executionId = e := Table.key_of_find? hx'
    cases op with
    | createRun x seed started scheduled item now =>
      cases hnew
      subst he'
      exact .of_createRun h.snapshots hseed hop hx hx'
    | _ => cases hnew

/-- Why a commit loses nothing: the patch has room for the counters, no node that completed since
the counters were read under the claim reports tokens, and the sums still fit the counters. -/
structure BudgetSys.CommitsAlone (s : BudgetSys) (key : ClaimKey) (result : NodeResult) : Prop where
  object : ∃ fields, result.statePatch = .object fields
  alone : ∀ v, s.loads key = some v →
    ∀ y ∈ (s.db.events key.2.2).since v, ∀ side, y.kind.tokens side = 0
  fits : ∀ x, s.db.executions.find? key.2.2 = some x →
    ∀ side, (BudgetState.fromSnapshotState x.initialInput).tokens side +
      spent side (s.db.events key.2.2).entries + result.tokens side < 2 ^ 64

/-- Counters that were exact when they were read under the claim. -/
structure BudgetSys.LoadedUnder (s : BudgetSys) (key : ClaimKey) (b : BudgetState) : Prop where
  valid : b.Valid
  read : ∃ v v₀ x, s.loads key = some v ∧ v ≤ v₀ ∧ v₀ ≤ (s.db.events key.2.2).latest ∧
    s.db.executions.find? key.2.2 = some x ∧
    ∀ side, b.tokens side = (BudgetState.fromSnapshotState x.initialInput).tokens side +
      spent side ((s.db.events key.2.2).upTo v₀)

/-- What holds after any steps of the others: logs grow, and what was remembered stays. -/
structure BudgetSys.Later (s t : BudgetSys) : Prop where
  db : s.db.Continues t.db
  loads : ∀ key v, s.loads key = some v → t.loads key = some v

omit [F64] in
theorem BudgetSys.Later.trans {s t u : BudgetSys} (h : s.Later t) (h' : t.Later u) : s.Later u :=
  ⟨h.db.trans h'.db, fun key v hv => h'.loads key v (h.loads key v hv)⟩

theorem BudgetSys.LoadedUnder.later {s t : BudgetSys} {key : ClaimKey} {b : BudgetState}
    (h : s.LoadedUnder key b) (hl : s.Later t) : t.LoadedUnder key b := by
  obtain ⟨hvalid, v, v₀, x, hv, hle, hlatest, hx, htokens⟩ := h
  obtain ⟨x', hx', hinput⟩ := hl.db.input _ x hx
  have hlog := hl.db.log key.2.2
  refine ⟨hvalid, v, v₀, x', hl.loads key v hv, hle, hlatest.trans hlog.latest_le, hx', ?_⟩
  intro side
  rw [hlog.upTo_eq hlatest, hinput, htokens]

omit [F64] in
theorem spent_upTo {log : EventLog} {v v₀ : EventSequence} (hle : v ≤ v₀)
    (halone : ∀ y ∈ log.since v, ∀ side, y.kind.tokens side = 0) (side : TokenSide) :
    spent side (log.upTo v₀) = spent side log.entries := by
  have hnone : spent side (log.since v₀) = 0 := by
    refine spent_eq_zero fun y hy => halone y ?_ side
    rw [SeqLog.mem_since] at hy ⊢
    exact ⟨hy.1, lt_of_le_of_lt hle hy.2⟩
  rw [← SeqLog.upTo_append_since log v₀, spent_append, hnone, Nat.add_zero]

theorem tokens_accumulate (b : BudgetState) (result : NodeResult) (side : TokenSide) :
    (b.accumulate result.inputTokens result.outputTokens none).tokens side =
      (b.tokens side + result.tokens side) % 2 ^ 64 := by
  cases side <;> rfl

/-- The result a worker commits: the executor's, with the counters in its patch. -/
def BudgetState.resultWith (b : BudgetState) (result : NodeResult) : NodeResult :=
  { result with
    statePatch := (b.accumulate result.inputTokens result.outputTokens none).patchIntoSnapshotState
      result.statePatch }

theorem counters_of_append {s : BudgetSys} {key : ClaimKey} {b : BudgetState} (node : NodeId)
    {result : NodeResult} (hwf : result.statePatch.WellFormed) (hload : s.LoadedUnder key b)
    (halone : s.CommitsAlone key (b.resultWith result)) {x : ExecutionRow}
    (hx : s.db.executions.find? key.2.2 = some x) :
    let log := (s.db.events key.2.2).append (.nodeCompleted node (b.resultWith result))
    ∀ side, (BudgetState.fromSnapshotState (replay x.initialInput log).currentState).tokens side =
      (BudgetState.fromSnapshotState x.initialInput).tokens side + spent side log.entries := by
  obtain ⟨hvalid, v, v₀, x', hv, hle, hlatest, hx', htokens⟩ := hload
  cases hx'.symm.trans hx
  obtain ⟨fields, hpatch⟩ : ∃ fields, result.statePatch = .object fields := by
    obtain ⟨fields', hfields'⟩ := halone.object
    cases hp : result.statePatch with
    | object fields => exact ⟨fields, rfl⟩
    | _ => simp [BudgetState.resultWith, hp, BudgetState.patchIntoSnapshotState] at hfields'
  have hsorted : BTree.Sorted fields := by
    rw [hpatch] at hwf
    exact hwf.1
  have hcounters : BudgetState.fromSnapshotState (replay x.initialInput ((s.db.events
      key.2.2).append (.nodeCompleted node (b.resultWith result)))).currentState =
        b.accumulate result.inputTokens result.outputTokens none := by
    rw [replay, SeqLog.entries_append, applyEventsSeeded_append]
    change BudgetState.fromSnapshotState (jsonMergePatch _ (b.resultWith result).statePatch) = _
    rw [BudgetState.resultWith, hpatch]
    exact BudgetState.fromSnapshotState_merge (hvalid.accumulate _ _) hsorted _
  have hspent := spent_upTo hle (halone.alone v hv)
  intro log side
  have hfits := halone.fits x hx side
  have hreport : (b.resultWith result).tokens side = result.tokens side := by cases side <;> rfl
  rw [hcounters, tokens_accumulate, htokens, hspent, ← hreport, Nat.mod_eq_of_lt hfits,
    SeqLog.entries_append, spent_append, spent_singleton, Nat.add_assoc]
  rfl

/-- A commit under a claim whose read was exact keeps the counters exact. -/
theorem BudgetInv.commit {s : BudgetSys} (h : BudgetInv s.db) {id : WorkItemId} {fence : ℤ}
    {e : ExecutionId} {b : BudgetState} {node : NodeId} {result : NodeResult} {now : Instant}
    (hwf : result.statePatch.WellFormed) (hload : s.LoadedUnder (id, fence, e) b)
    (hrule : s.db.workItems.hits id (WorkItemRow.claimedUnder fence) = true →
      s.CommitsAlone (id, fence, e) (b.resultWith result)) :
    BudgetInv ((BackendOp.commitTurn id fence e (.nodeCompleted node (b.resultWith result)) true
      now).exec s.db).2 := by
  generalize hop : BackendOp.commitTurn id fence e (.nodeCompleted node (b.resultWith result)) true
    now = op
  have hseed : op.SeedsSegment := by
    subst hop
    trivial
  have hsnap := h.snapshots.exec hseed
  refine ⟨hsnap, fun e' x' hx' => ?_⟩
  obtain ⟨x, hx, hin⟩ : ∃ x, s.db.executions.find? e' = some x ∧
      x'.initialInput = x.initialInput := by
    cases hx : s.db.executions.find? e' with
    | none =>
      have hnew := (op.effect s.db).executions.new hx hx'
      subst hop
      cases hnew
    | some x =>
      obtain ⟨x₁, hx₁, hstep⟩ := (op.effect s.db).executions.row hx
      cases hx'.symm.trans hx₁
      exact ⟨x, rfl, hstep.initialInput⟩
  have he : x.executionId = e' := Table.key_of_find? hx
  have he' : x'.executionId = e' := Table.key_of_find? hx'
  have hloaded := loadedBudget_exec h.snapshots hseed hx hx' hin
  have hsame : (op.exec s.db).2.events e' = s.db.events e' → CountersExact (op.exec s.db).2 x' := by
    intro hev
    subst he
    refine (h.counters _ x hx).step he' hin hloaded ?_ fun side => by rw [hev]
    simp only [Db.stateOf, hin, he', hev]
  have hdb : (op.exec s.db).2 = (s.db.commitTurnInner id fence e
      (.nodeCompleted node (b.resultWith result)) true false now).2 := by
    subst hop
    exact Db.commitTurn_db s.db id fence e _ true now
  rcases Db.commitTurnInner_cases s.db id fence e (.nodeCompleted node (b.resultWith result)) true
    false now with hs | ⟨-, hs⟩ | ⟨hhit, -, settle, row, -, hrow, hs⟩
  · exact hsame (by rw [hdb, hs])
  · exact hsame (by rw [hdb, hs]; rfl)
  · have hc := Db.continues_turn s.db id fence settle e (.nodeCompleted node (b.resultWith result))
    have hturn : ((s.db.updateItem id (WorkItemRow.claimedUnder fence) settle.1 settle.2).setEvents e
        ((s.db.events e).append (.nodeCompleted node (b.resultWith result)))).events =
          Function.update s.db.events e
            ((s.db.events e).append (.nodeCompleted node (b.resultWith result))) := rfl
    rw [hs] at hdb
    generalize hdb' : (s.db.updateItem id (WorkItemRow.claimedUnder fence) settle.1
      settle.2).setEvents e ((s.db.events e).append (.nodeCompleted node (b.resultWith result))) =
        db' at hdb hc hturn
    have hexec : db'.executions = s.db.executions := by rw [← hdb']; rfl
    have hsnaps : db'.snapshots = s.db.snapshots := by rw [← hdb']; rfl
    have hevents : (op.exec s.db).2.events = db'.events := by
      rw [hdb, (Db.recordTurn_core db' e _ row.initialInput true now).events]
    by_cases hee : e' = e
    · subst hee
      cases hrow.symm.trans hx
      have hlog : (op.exec s.db).2.events e' =
          (s.db.events e').append (.nodeCompleted node (b.resultWith result)) := by
        rw [hevents, hturn, Function.update_self]
      have hcounters := counters_of_append node hwf hload (hrule hhit) hx
      refine ⟨?_, fun side => ?_⟩
      · obtain ⟨latest, hlatest, hstate⟩ := latestSnapshot_recordTurn h.snapshots hsnaps hc
          (hexec ▸ hx) (hdb ▸ hsnap)
        rw [← hdb] at hlatest
        rw [← hevents] at hstate
        simp only [Db.loadedBudget, Db.stateOf, he', hin, hlatest, hstate]
      · rw [Db.stateOf, he', hlog, hin]
        exact hcounters side
    · exact hsame (by rw [hevents, hturn, Function.update_of_ne hee])

/-- The runs in which no update is lost.  Other parties leave the counters alone; a worker finds
the execution it reads the counters of, and the read does not fail; and a commit that lands under
a worker's claim finds no completion since that worker's read. -/
def noLostUpdates : Rules BudgetOp BudgetSys ServerAct BudgetItem where
  actOk a s := match a with
    | .call op => op.SeedsSegment ∧ s.db.KeepsBudget op
    | .setClock _ => True
  callOk op s := match op with
    | .inl (.commitTurn id fence e (.nodeCompleted _ result) _ _) =>
        s.db.workItems.hits id (WorkItemRow.claimedUnder fence) = true →
          s.CommitsAlone (id, fence, e) result
    | .inr (.loadBudget _ _ e) => (s.db.executions.find? e).isSome
    | _ => True
  faultOk op _ := match op with
    | .inr (.loadBudget ..) => False
    | _ => True

/-- A commit writes counters that were exact when read; nothing else a worker does touches them. -/
def budgetSpec : Spec BudgetOp BudgetSys where
  inv s := BudgetInv s.db ∧ ∀ key v, s.loads key = some v → v ≤ (s.db.events key.2.2).latest
  rely := BudgetSys.Later
  rely_refl s := ⟨.refl s.db, fun _ _ h => h⟩
  rely_trans h h' := h.trans h'
  good op s := match op with
    | .inl (.commitTurn id fence e kind snapshot _) => snapshot = true ∧ ∃ node result b,
        kind = .nodeCompleted node (BudgetState.resultWith b result) ∧
          result.statePatch.WellFormed ∧ s.LoadedUnder (id, fence, e) b
    | .inl (.appendEvent _ kind) => kind.leavesBudget = true
    | .inl (.latestSequence _) => True
    | .inl _ => False
    | .inr _ => True

theorem budgetSpec_db {s : BudgetSys} (h : budgetSpec.inv s) {β : Type} (op : BackendOp β)
    (hinv : BudgetInv (op.exec s.db).2) :
    budgetSpec.inv { s with db := (op.exec s.db).2 } ∧
      budgetSpec.rely s { s with db := (op.exec s.db).2 } := by
  have hc := Db.continues_exec op s.db
  exact ⟨⟨hinv, fun key v hv => (h.2 key v hv).trans (hc.log _).latest_le⟩, hc, fun _ _ hv => hv⟩

theorem budgetSpec_load {s : BudgetSys} (h : budgetSpec.inv s) (key : ClaimKey) :
    budgetSpec.inv (s.remember key) ∧ budgetSpec.rely s (s.remember key) ∧
      ∃ v, (s.remember key).loads key = some v := by
  have hkey : ∃ v, (s.loads key).or (some (s.db.events key.2.2).latest) = some v ∧
      v ≤ (s.db.events key.2.2).latest := by
    cases hload : s.loads key with
    | none => exact ⟨_, rfl, le_rfl⟩
    | some v => exact ⟨v, rfl, h.2 key v hload⟩
  obtain ⟨v, hv, hle⟩ := hkey
  refine ⟨⟨h.1, fun key' v' hv' => ?_⟩, ⟨.refl _, fun key' v' hv' => ?_⟩, v, ?_⟩
  · simp only [BudgetSys.remember] at hv'
    by_cases hk : key' = key
    · subst hk
      rw [Function.update_self, hv] at hv'
      cases hv'
      exact hle
    · rw [Function.update_of_ne hk] at hv'
      exact h.2 key' v' hv'
  · simp only [BudgetSys.remember]
    by_cases hk : key' = key
    · subst hk
      rw [Function.update_self, hv']
      rfl
    · rwa [Function.update_of_ne hk]
  · simp only [BudgetSys.remember, Function.update_self, hv]

theorem loadedUnder_load {s : BudgetSys} (h : budgetSpec.inv s) {key : ClaimKey} {x : ExecutionRow}
    (hx : s.db.executions.find? key.2.2 = some x) :
    (s.remember key).LoadedUnder key (s.db.loadedBudget key.2.2) := by
  obtain ⟨hinv, -, v, hv⟩ := budgetSpec_load h key
  have hexact := h.1.counters _ x hx
  have he : x.executionId = key.2.2 := Table.key_of_find? hx
  have hloaded := hexact.loaded
  have htokens := hexact.tokens
  rw [← hloaded, he] at htokens
  have hall : ((s.remember key).db.events key.2.2).upTo (s.db.events key.2.2).latest =
      (s.db.events key.2.2).entries := SeqLog.upTo_latest le_rfl
  refine ⟨?_, v, (s.db.events key.2.2).latest, x, hv, hinv.2 key v hv, le_rfl, hx, fun side => ?_⟩
  · rw [he] at hloaded
    rw [hloaded]
    exact BudgetState.valid_fromSnapshotState _
  · rw [hall, htokens]

section Worker

variable {s : BudgetSys} {item : BudgetItem}

theorem budgetOf_latestSnapshot (db : Db) (e : ExecutionId) :
    (match (.ok (db.latestSnapshot e) : Except BackendError (Option SnapshotRow)) with
      | .ok (some snap) => BudgetState.fromSnapshotState snap.state
      | _ => {}) = db.loadedBudget e := by
  simp only [Db.loadedBudget]
  cases db.latestSnapshot e <;> rfl

theorem wp_loadBudgetState {Q : Except BackendError BudgetState → BudgetSys → Prop}
    (hQ : ∀ b t, t.LoadedUnder (item.itemId, item.leaseFence, item.executionId) b → Q (.ok b) t) :
    wp budgetWorkers.beside noLostUpdates budgetSpec (Worker.loadBudgetState item) Q s := by
  apply wp_bind
  apply wp_attempt
  apply wp_perform
  intro s' _ hi
  refine ⟨trivial, fun hfound => ?_, fun _ hfault => hfault.elim⟩
  obtain ⟨x, hx⟩ := Option.isSome_iff_exists.mp hfound
  intro t ht _ u hu _
  have hload : (s'.remember _).LoadedUnder (item.itemId, item.leaseFence, item.executionId) _ :=
    loadedUnder_load hi hx
  have hdone := hQ _ u ((hload.later ht).later hu)
  rw [← budgetOf_latestSnapshot] at hdone
  exact hdone

theorem wp_commitResult {b : BudgetState}
    (h : s.LoadedUnder (item.itemId, item.leaseFence, item.executionId) b) :
    wp budgetWorkers.beside noLostUpdates budgetSpec (Worker.commitResult item
      ((b.accumulate item.result.inputTokens item.result.outputTokens none).patchIntoSnapshotState
        item.result.statePatch)) (fun _ _ => True) s := by
  apply wp_call
  intro s' hs _
  refine ⟨trivial, fun _ => ?_, fun hf => by cases hf⟩
  apply wp_bind
  apply wp_perform
  intro t ht _
  have hload := (h.later hs).later ht
  refine ⟨⟨rfl, item.nodeId, item.result, b, rfl, item.wellFormed, hload⟩, fun _ u _ _ => ?_,
    fun _ _ e u _ _ => trivial⟩
  generalize (budgetWorkers.beside.handle _ t).1 = reply
  cases reply with
  | ok sequence => exact fun _ _ _ => trivial
  | error e => trivial

theorem wp_report {e : ExecutionId} {tag : String} {rest : BudgetProg Unit}
    (hrest : ∀ t, s.Later t → wp budgetWorkers.beside noLostUpdates budgetSpec rest
      (fun _ _ => True) t) :
    wp budgetWorkers.beside noLostUpdates budgetSpec (do
      match ← (Worker.backend (.latestSequence e)).attempt with
      | .ok _ =>
          let _ ← (Worker.backend (.appendEvent e (.other tag))).attempt
          return ()
      | .error _ => rest) (fun _ _ => True) s := by
  apply wp_bind
  apply wp_attempt
  apply wp_perform
  intro s' hs _
  refine ⟨trivial, fun _ t ht _ => ?_, fun _ _ err t ht _ => hrest t (hs.trans ht)⟩
  apply wp_bind
  apply wp_attempt
  apply wp_perform
  exact fun _ _ _ => ⟨rfl, fun _ _ _ _ _ _ _ => trivial, fun _ _ _ _ _ _ _ _ _ => trivial⟩

theorem wp_executeItem :
    wp budgetWorkers.beside noLostUpdates budgetSpec (Worker.executeItem item) (fun _ _ => True)
      s := by
  apply wp_bind
  apply wp_loadBudgetState
  intro b t hload
  change wp budgetWorkers.beside noLostUpdates budgetSpec _ (fun _ _ => True) t
  split
  · exact wp_report fun _ _ _ _ _ => trivial
  · dsimp only
    split
    · exact wp_report fun u hu => wp_commitResult (hload.later hu)
    · exact wp_commitResult hload

end Worker

theorem soundIn_budgetWorkers : SoundIn budgetWorkers noLostUpdates budgetSpec where
  act a s hi ha := by
    cases a with
    | call op => exact budgetSpec_db hi op (hi.1.exec ha.1 ha.2)
    | setClock now => exact ⟨hi, .refl _, fun _ _ h => h⟩
  call op s hi hg hc := by
    rcases op with op | op
    · refine budgetSpec_db hi op ?_
      cases op with
      | commitTurn id fence e kind snapshot now =>
        obtain ⟨rfl, node, result, b, rfl, hwf, hload⟩ := hg
        exact hi.1.commit hwf hload hc
      | appendEvent e kind =>
        have hkeeps : kind.leavesBudget = true := hg
        exact hi.1.exec trivial (by simpa [Db.KeepsBudget, BackendOp.kinds] using hkeeps)
      | latestSequence e => exact hi.1
      | _ => exact hg.elim
    · cases op with
      | utcNow => exact ⟨hi, budgetSpec.rely_refl s⟩
      | loadBudget item fence e =>
        obtain ⟨hinv, hrel, -⟩ := budgetSpec_load hi (item, fence, e)
        exact ⟨hinv, hrel⟩
  job _ _ _ _ := wp_executeItem

theorem budgetInv_empty : BudgetInv {} :=
  ⟨⟨fun _ h => absurd h List.not_mem_nil, fun _ _ => rfl⟩, fun _ _ h => by cases h⟩

/-- In a run without lost updates the counters are those the execution started with and what its
completed nodes report. -/
theorem budget_counters_equal_sums {ms : List BudgetMove}
    (hms : noLostUpdates.ObeyedIn budgetWorkers (idlePool {}) ms) {e : ExecutionId}
    {x : ExecutionRow}
    (hx : ((idlePool {}).run budgetWorkers ms).state.db.executions.find? e = some x) :
    let db := ((idlePool {}).run budgetWorkers ms).state.db
    let counters := BudgetState.fromSnapshotState (db.stateOf x)
    let started := BudgetState.fromSnapshotState x.initialInput
    counters.totalInputTokens = started.totalInputTokens + spent .input (db.events e).entries ∧
      counters.totalOutputTokens =
        started.totalOutputTokens + spent .output (db.events e).entries ∧
      (x.initialInput.get budgetKey = none →
        started.totalInputTokens = 0 ∧ started.totalOutputTokens = 0) := by
  have hinv : budgetSpec.inv {} := ⟨budgetInv_empty, fun key v hv => by cases hv⟩
  have hmeets := (Pool.meets_idle hinv).run soundIn_budgetWorkers hms
  have hexact := hmeets.1.1.counters e x hx
  have he : x.executionId = e := Table.key_of_find? hx
  subst he
  refine ⟨hexact.tokens .input, hexact.tokens .output, fun hnone => ?_⟩
  simp [BudgetState.fromSnapshotState, hnone]

end Counters

/-- Doubles as far as a run without costs needs them. -/
@[reducible]
def costless : F64 where
  add x _ := x
  ofInt _ := 0
  lt _ _ := false
  finite_add_zero _ h := h
  finite_ofInt _ _ _ := rfl

/-- A node of the run that reports some input tokens. -/
def sibling (node : NodeId) (id : WorkItemId) (tokens : ℕ) : BudgetItem where
  executionId := 0
  nodeId := node
  itemId := id
  leaseFence := 1
  limits := {}
  result := { emptyResult with inputTokens := some tokens }
  wellFormed := ⟨.nil, trivial⟩

/-- Two nodes of one run, each claimed by a worker. -/
def twoSiblings : List BudgetMove :=
  [.outside (.call startOne),
    .outside (.call (.enqueueWorkItem ⟨0, "b", "tool", .null, 0, 3⟩ 0)),
    .outside (.call (.claimWorkItem "w1" ["tool"] none 0)),
    .outside (.call (.claimWorkItem "w2" ["tool"] none 0)),
    .spawn 1 (sibling "a" 1 10), .spawn 2 (sibling "b" 2 20)]

/-- Both read the counters before either commits. -/
theorem sibling_update_lost :
    let db := ((idlePool {}).run (@budgetWorkers costless)
      (twoSiblings ++ [.advance 1, .advance 2, .advance 1, .advance 1, .advance 2, .advance 2])).state.db
    ∃ x, db.executions.find? 0 = some x ∧ x.initialInput.get budgetKey = none ∧
      (@BudgetState.fromSnapshotState costless (db.stateOf x)).totalInputTokens = 20 ∧
        spent .input (db.events 0).entries = 30 :=
  ⟨_, rfl, rfl, rfl, rfl⟩

theorem budget_counters_equal_sums_in_turn :
    let db := ((idlePool {}).run (@budgetWorkers costless)
      (twoSiblings ++ [.advance 1, .advance 1, .advance 1, .advance 2, .advance 2, .advance 2])).state.db
    ∃ x, db.executions.find? 0 = some x ∧
      (@BudgetState.fromSnapshotState costless (db.stateOf x)).totalInputTokens = 30 ∧
        spent .input (db.events 0).entries = 30 := by
  let _ : F64 := costless
  refine ⟨_, rfl, ?_, rfl⟩
  refine (@budget_counters_equal_sums costless _ ?_ 0 _ rfl).1.trans rfl
  refine ⟨⟨trivial, rfl, rfl, fun _ => rfl⟩, ⟨trivial, fun _ h => absurd h List.not_mem_nil⟩,
    ⟨trivial, fun _ h => absurd h List.not_mem_nil⟩, ⟨trivial, fun _ h => absurd h List.not_mem_nil⟩,
    trivial, trivial, rfl, trivial, fun _ => ⟨⟨_, rfl⟩, fun v hv => ?_, fun x hx => ?_⟩,
    rfl, trivial, fun _ => ⟨⟨_, rfl⟩, fun v hv => ?_, fun x hx => ?_⟩, trivial⟩
  · obtain rfl : v = 2 := (Option.some.inj hv).symm
    exact fun y hy => absurd hy List.not_mem_nil
  · obtain rfl := Option.some.inj hx
    intro side
    cases side <;> decide
  · obtain rfl : v = 3 := (Option.some.inj hv).symm
    exact fun y hy => absurd hy List.not_mem_nil
  · obtain rfl := Option.some.inj hx
    intro side
    cases side <;> decide

end JamJet
