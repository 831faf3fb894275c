import JamJet.Backend

/-! What one operation of the backend can do: to a work item, to an execution's log, to an
execution's status and to the store's term.  The invariants of the runs are derived from these
lists, never from the operations themselves. -/

namespace JamJet

namespace Db

/-- The work item an operation hands out under a new fence. -/
def mintedFor {β : Type} (db : Db) : BackendOp β → Option WorkItemId
  | .claimWorkItem _ queueTypes _ now =>
      (oldest (db.workItems.rows.filter (claimable queueTypes now))).map (·.id)
  | .reattachLease id worker lostFence _ =>
      if db.workItems.hits id (WorkItemRow.reattachable worker lostFence) then some id else none
  | _ => none

/-- The work item whose lease an operation prolongs. -/
def renewedFor {β : Type} (db : Db) : BackendOp β → Option WorkItemId
  | .renewLease id worker fence _ _ =>
      if db.workItems.hits id (renewable worker fence) then some id else none
  | _ => none

end Db

/-- Whether an operation can end a work item. -/
def BackendOp.settles {β : Type} : BackendOp β → Bool
  | .completeWorkItem .. | .failWorkItem .. | .completeWorkItemFenced .. | .failWorkItemFenced ..
  | .withdrawWorkItemFenced .. | .finalizeRolloverFenced .. | .commitTurn ..
  | .commitTurnUnlessTerminal .. | .expireStaleLeases .. | .sweepDeadLetter .. => true
  | _ => false

/-- What an operation may make of a work item's row. -/
inductive ItemStep (db : Db) : {β : Type} → BackendOp β → WorkItemRow → WorkItemRow → Prop
  | keep {β : Type} {op : BackendOp β} {r : WorkItemRow} : ItemStep db op r r
  | settle {β : Type} {op : BackendOp β} {r r' : WorkItemRow} (hop : op.settles = true)
      (h : (∃ now, r' = r.complete now) ∨ r' = r.fail ∨ r' = r.failTurn ∨
        ∃ n, r' = r.deadLetter n) : ItemStep db op r r'
  | releaseFailed {id fence error now} {r : WorkItemRow} (hid : r.id = id)
      (hc : r.claimedUnder fence = true) (n : ℕ) (t : Instant) :
      ItemStep db (.failWorkItemFenced id fence error now) r (r.release n t)
  | releaseParked {id fence t n} {r : WorkItemRow} (hid : r.id = id)
      (hc : r.claimedUnder fence = true) :
      ItemStep db (.parkWorkItem id fence t n) r (r.release n t)
  | expire {now} {r : WorkItemRow} (hx : r.leaseExpired now = true)
      (ht : db.terminalStatusOf r.executionId = none) :
      ItemStep db (.expireStaleLeases now) r r.expire
  | sweepRequeue {item now} {r : WorkItemRow} (hid : r.id = item.id) (hc : r.status = .claimed) :
      ItemStep db (.sweepRequeue item now) r
        (r.sweepRequeue (item.attempt + 1) (after now (backoffSecs (item.attempt + 1))))
  | claim {worker queueTypes leaseSecs now} {r : WorkItemRow} (hp : r.status = .pending)
      (hm : db.mintedFor (.claimWorkItem worker queueTypes leaseSecs now) = some r.id) :
      ItemStep db (.claimWorkItem worker queueTypes leaseSecs now) r
        (r.claim db.term worker (grantedLeaseSecs leaseSecs) now)
  | renew {id worker fence len now} {r : WorkItemRow} (hg : Db.renewable worker fence r = true)
      (hm : db.renewedFor (.renewLease id worker fence len now) = some r.id) :
      ItemStep db (.renewLease id worker fence len now) r (r.renew len now)
  | reattach {id worker lostFence now} {r : WorkItemRow}
      (hg : r.reattachable worker lostFence = true)
      (hm : db.mintedFor (.reattachLease id worker lostFence now) = some r.id) :
      ItemStep db (.reattachLease id worker lostFence now) r (r.reattach db.term worker now)

/-- What an operation may append to an execution's log. -/
def Appends (db : Db) {β : Type} (op : BackendOp β) (e : ExecutionId) (kind : EventKind) : Prop :=
  match op with
  | .appendEvent e' kind' => e = e' ∧ kind = kind'
  | .appendEventIf e' kind' condition =>
      e = e' ∧ kind = kind' ∧ db.terminalStatusOf e = none ∧
        condition (db.events e).entries = true
  | .finishExecution e' kind' _ _ => e = e' ∧ kind = kind' ∧ db.terminalStatusOf e = none
  | .createRun execution _ started scheduled _ _ =>
      e = execution.executionId ∧ (kind = started ∨ kind = scheduled)
  | .commitTurn id fence e' kind' _ _ =>
      e = e' ∧ kind = kind' ∧ db.workItems.hits id (WorkItemRow.claimedUnder fence) = true
  | .commitTurnUnlessTerminal id fence e' kind' _ _ =>
      e = e' ∧ kind = kind' ∧ db.workItems.hits id (WorkItemRow.claimedUnder fence) = true ∧
        db.terminalStatusOf e = none
  | .expireStaleLeases now =>
      db.terminalStatusOf e = none ∧ ∃ r ∈ db.workItems.rows, r.executionId = e ∧
        r.leaseExpired now = true ∧
        (kind = (Db.leaseExpiryEvents r).1 ∨ kind = (Db.leaseExpiryEvents r).2)
  | _ => False

/-- The events an operation is given to append. -/
def BackendOp.kinds {β : Type} : BackendOp β → List EventKind
  | .appendEvent _ kind | .appendEventIf _ kind _ | .finishExecution _ kind _ _
  | .commitTurn _ _ _ kind _ _ | .commitTurnUnlessTerminal _ _ _ kind _ _ => [kind]
  | .createRun _ _ started scheduled _ _ => [started, scheduled]
  | _ => []

theorem Appends.mem_kinds {db : Db} {β : Type} {op : BackendOp β} {e : ExecutionId}
    {kind : EventKind} (h : Appends db op e kind) :
    kind ∈ op.kinds ∨
      ∃ r, kind = (Db.leaseExpiryEvents r).1 ∨ kind = (Db.leaseExpiryEvents r).2 := by
  cases op with
  | appendEvent | appendEventIf | finishExecution | commitTurn | commitTurnUnlessTerminal =>
    exact .inl (by simp [BackendOp.kinds, h.2])
  | createRun => exact .inl (by simpa [BackendOp.kinds] using h.2)
  | expireStaleLeases =>
    obtain ⟨_, r, _, _, _, hr⟩ := h
    exact .inr ⟨r, hr⟩
  | _ => exact h.elim

/-- The work item an operation may create. -/
def Creates {β : Type} (op : BackendOp β) (item : NewWorkItem) : Prop :=
  match op with
  | .enqueueWorkItem item' _ => item = item'
  | .createRun _ _ _ _ item' _ => item = item'
  | _ => False

/-- Whether an operation can create a work item at all. -/
def BackendOp.creates {β : Type} : BackendOp β → Bool
  | .enqueueWorkItem .. | .createRun .. => true
  | _ => false

theorem BackendOp.not_creates {β : Type} {op : BackendOp β} (h : op.creates = false)
    (item : NewWorkItem) : ¬ Creates op item := by
  cases op with
  | enqueueWorkItem | createRun => cases h
  | _ => exact fun h => h

/-- The execution an operation may create. -/
def BackendOp.newExecution {β : Type} : BackendOp β → Option ExecutionRow
  | .createRun execution _ _ _ _ _ => some execution
  | _ => none

/-- What an operation may make of an execution's row. -/
inductive ExecutionStep : {β : Type} → BackendOp β → ExecutionRow → ExecutionRow → Prop
  | keep {β : Type} {op : BackendOp β} {x : ExecutionRow} : ExecutionStep op x x
  | finish {kind status now} {x : ExecutionRow} (hx : x.status.isTerminal = false)
      (hs : status.isTerminal = true) :
      ExecutionStep (.finishExecution x.executionId kind status now) x (x.finish status now)
  | setStatus {status now} {x : ExecutionRow} :
      ExecutionStep (.updateExecutionStatus x.executionId status now) x (x.setStatus status now)
  | limitExceeded {id fence now} {x : ExecutionRow} (hx : x.status.isTerminal = false) :
      ExecutionStep (.finalizeRolloverFenced x.executionId id fence now) x
        (x.finish .limitExceeded now)

namespace Db

variable {db db' : Db} {e e' : ExecutionId} {id id' : WorkItemId} {kind : EventKind}

@[simp]
theorem setEvents_workItems (log : EventLog) : (db.setEvents e log).workItems = db.workItems := rfl

@[simp]
theorem setEvents_executions (log : EventLog) : (db.setEvents e log).executions = db.executions :=
  rfl

@[simp]
theorem setEvents_term (log : EventLog) : (db.setEvents e log).term = db.term := rfl

@[simp]
theorem setEvents_events_self (log : EventLog) : (db.setEvents e log).events e = log := by
  simp [setEvents]

theorem setEvents_events_of_ne (log : EventLog) (h : e' ≠ e) :
    (db.setEvents e log).events e' = db.events e' := by
  simp [setEvents, h]

section UpdateItem

variable {guard : WorkItemRow → Bool} {f : WorkItemRow → WorkItemRow}
  (hf : ∀ r, (f r).id = r.id)

@[simp]
theorem updateItem_events : (db.updateItem id guard f hf).events = db.events := rfl

@[simp]
theorem updateItem_executions : (db.updateItem id guard f hf).executions = db.executions := rfl

@[simp]
theorem updateItem_term : (db.updateItem id guard f hf).term = db.term := rfl

theorem updateItem_find? : (db.updateItem id guard f hf).workItems.find? id' =
    (db.workItems.find? id').map fun r => if id' = id ∧ guard r then f r else r := by
  simp only [updateItem, Table.find?_update]

theorem updateItem_row {r : WorkItemRow} (hr : db.workItems.find? id' = some r) :
    ∃ r', (db.updateItem id guard f hf).workItems.find? id' = some r' ∧
      ((id' = id ∧ guard r = true ∧ r' = f r) ∨ r' = r) := by
  rw [updateItem_find? hf, hr]
  by_cases hg : id' = id ∧ guard r = true
  · exact ⟨f r, by simp [hg], .inl ⟨hg.1, hg.2, rfl⟩⟩
  · exact ⟨r, by simp [hg], .inr rfl⟩

end UpdateItem

section UpdateExecution

variable {guard : ExecutionRow → Bool} {f : ExecutionRow → ExecutionRow}
  {hf : ∀ x, (f x).executionId = x.executionId}

@[simp]
theorem updateExecution_workItems :
    (db.updateExecution e guard f hf).workItems = db.workItems :=
  rfl

@[simp]
theorem updateExecution_events : (db.updateExecution e guard f hf).events = db.events := rfl

@[simp]
theorem updateExecution_term : (db.updateExecution e guard f hf).term = db.term := rfl

end UpdateExecution

theorem insertEvent_eq_some {n : EventSequence} (h : db.insertEvent e kind = some (n, db')) :
    (∃ row, db.executions.find? e = some row) ∧ n = (db.events e).latest + 1 ∧
      db' = db.setEvents e ((db.events e).append kind) := by
  unfold insertEvent at h
  split at h
  · cases h
  · rename_i row hrow
    cases h
    exact ⟨⟨row, hrow⟩, rfl, rfl⟩

/-- The same snapshots, tool effects and reservations. -/
structure RestEq (db db' : Db) : Prop where
  snapshots : db'.snapshots = db.snapshots
  toolEffects : db'.toolEffects = db.toolEffects
  toolReservations : db'.toolReservations = db.toolReservations

theorem RestEq.refl (db : Db) : RestEq db db := ⟨rfl, rfl, rfl⟩

theorem RestEq.trans {db₁ db₂ db₃ : Db} (h₁ : RestEq db₁ db₂) (h₂ : RestEq db₂ db₃) :
    RestEq db₁ db₃ :=
  ⟨h₂.snapshots.trans h₁.snapshots, h₂.toolEffects.trans h₁.toolEffects,
    h₂.toolReservations.trans h₁.toolReservations⟩

theorem expireOne_rest {item : WorkItemRow} (h : db.expireOne item = some db') :
    db'.executions = db.executions ∧ db'.term = db.term ∧ RestEq db db' ∧
    (∀ id, db.workItems.find? id = none → db'.workItems.find? id = none) ∧
    (db'.events = db.events ∨ (db.terminalStatusOf item.executionId = none ∧
      (∃ row, db.executions.find? item.executionId = some row) ∧
      db'.events = Function.update db.events item.executionId
        (((db.events item.executionId).append (leaseExpiryEvents item).1).append
          (leaseExpiryEvents item).2))) := by
  unfold expireOne at h
  split at h
  · cases h
    refine ⟨rfl, rfl, ⟨rfl, rfl, rfl⟩, fun id hid => ?_, .inl rfl⟩
    rw [updateItem_find? WorkItemRow.fail_id, hid]
    rfl
  · rename_i hlive
    split at h
    · cases h
      exact ⟨rfl, rfl, .refl db, fun _ hid => hid, .inl rfl⟩
    · split at h
      · cases h
        exact ⟨rfl, rfl, .refl db, fun _ hid => hid, .inl rfl⟩
      · simp only [Option.bind_eq_bind, Option.bind_eq_some_iff, Option.pure_def] at h
        obtain ⟨⟨n₁, db₂⟩, h₁, ⟨n₂, db₃⟩, h₂, h₃⟩ := h
        obtain ⟨hrow, _, rfl⟩ := insertEvent_eq_some h₁
        obtain ⟨_, _, rfl⟩ := insertEvent_eq_some h₂
        cases h₃
        refine ⟨rfl, rfl, ⟨rfl, rfl, rfl⟩, fun id hid => ?_, .inr ⟨by simpa using hlive, hrow, ?_⟩⟩
        · simp only [setEvents_workItems]
          rw [updateItem_find? WorkItemRow.expire_id, hid]
          rfl
        · simp [setEvents]

theorem expireOne_row {item r : WorkItemRow} (h : db.expireOne item = some db')
    (hr : db.workItems.find? id = some r) :
    ∃ r', db'.workItems.find? id = some r' ∧ (r' = r ∨ (id = item.id ∧ r.status = .claimed ∧
      (r' = r.fail ∨ (db.terminalStatusOf item.executionId = none ∧ r' = r.expire)))) := by
  unfold expireOne at h
  split at h
  · cases h
    obtain ⟨r', hr', hcase⟩ := updateItem_row WorkItemRow.fail_id hr
    refine ⟨r', hr', ?_⟩
    rcases hcase with ⟨hid, hg, rfl⟩ | rfl
    · exact .inr ⟨hid, by simpa [WorkItemRow.isClaimed] using hg, .inl rfl⟩
    · exact .inl rfl
  · rename_i hlive
    split at h
    · cases h
      exact ⟨r, hr, .inl rfl⟩
    · split at h
      · cases h
        exact ⟨r, hr, .inl rfl⟩
      · simp only [Option.bind_eq_bind, Option.bind_eq_some_iff, Option.pure_def] at h
        obtain ⟨⟨n₁, db₂⟩, h₁, ⟨n₂, db₃⟩, h₂, h₃⟩ := h
        obtain ⟨_, _, rfl⟩ := insertEvent_eq_some h₁
        obtain ⟨_, _, rfl⟩ := insertEvent_eq_some h₂
        cases h₃
        obtain ⟨r', hr', hcase⟩ := updateItem_row WorkItemRow.expire_id hr
        refine ⟨r', by simpa using hr', ?_⟩
        rcases hcase with ⟨hid, hg, rfl⟩ | rfl
        · refine .inr ⟨hid, by simpa [WorkItemRow.isClaimed] using hg, .inr ⟨?_, rfl⟩⟩
          simpa using hlive
        · exact .inl rfl

/-- How far the claim path's reclaim may have come from the database it started on. -/
structure Reclaiming (db₀ : Db) (now : Instant) (db : Db) : Prop where
  executions : db.executions = db₀.executions
  term : db.term = db₀.term
  rest : RestEq db₀ db
  absent : ∀ id, db₀.workItems.find? id = none → db.workItems.find? id = none
  row : ∀ id r, db₀.workItems.find? id = some r → ∃ r', db.workItems.find? id = some r' ∧
    (r' = r ∨ (r.status = .claimed ∧ (r' = r.fail ∨ (r.leaseExpired now = true ∧
      db₀.terminalStatusOf r.executionId = none ∧ r' = r.expire))))
  log : ∀ e, ∃ kinds, db.events e = (db₀.events e).appendAll kinds ∧
    ∀ kind ∈ kinds, Appends db₀ (.expireStaleLeases now) e kind
  homeless : ∀ e, db₀.executions.find? e = none → db.events e = db₀.events e

theorem Reclaiming.refl (db : Db) (now : Instant) : Reclaiming db now db where
  executions := rfl
  term := rfl
  rest := .refl db
  absent _ h := h
  row _ r h := ⟨r, h, .inl rfl⟩
  log _ := ⟨[], rfl, by simp⟩
  homeless _ _ := rfl

theorem Reclaiming.step {db₀ : Db} {now : Instant} (hd : Reclaiming db₀ now db)
    {item : WorkItemRow} (hitem : item ∈ db₀.workItems.rows)
    (hx : item.leaseExpired now = true) (h : db.expireOne item = some db') :
    Reclaiming db₀ now db' := by
  obtain ⟨hexec, hterm, hrest, habsent, hevents⟩ := expireOne_rest h
  have hstatus : db.terminalStatusOf = db₀.terminalStatusOf := by
    funext e
    simp only [terminalStatusOf, hd.executions]
  refine ⟨hexec.trans hd.executions, hterm.trans hd.term, hd.rest.trans hrest,
    fun id hid => habsent id (hd.absent id hid), ?_, ?_, ?_⟩
  · intro id r hr
    obtain ⟨r₁, hr₁, hcase₁⟩ := hd.row id r hr
    obtain ⟨r₂, hr₂, hcase₂⟩ := expireOne_row h hr₁
    refine ⟨r₂, hr₂, ?_⟩
    rcases hcase₁ with rfl | ⟨hc, hcase₁⟩
    · rcases hcase₂ with rfl | ⟨rfl, hc, hcase₂⟩
      · exact .inl rfl
      · -- the row of the selected key is still the one that was selected
        have hrow : r₁ = item := by
          have := hr.symm.trans (Table.find?_of_mem hitem)
          exact Option.some.inj this
        subst hrow
        rcases hcase₂ with rfl | ⟨ht, rfl⟩
        · exact .inr ⟨hc, .inl rfl⟩
        · exact .inr ⟨hc, .inr ⟨hx, hstatus ▸ ht, rfl⟩⟩
    · -- a row already reclaimed is no longer claimed, so it is left alone
      have hdone : r₁.status ≠ .claimed := by
        rcases hcase₁ with rfl | ⟨_, _, rfl⟩ <;> simp [WorkItemRow.fail, WorkItemRow.expire]
      rcases hcase₂ with rfl | ⟨_, hc₂, _⟩
      · exact .inr ⟨hc, hcase₁⟩
      · exact absurd hc₂ hdone
  · intro e
    obtain ⟨kinds, hlog, hkinds⟩ := hd.log e
    rcases hevents with hsame | ⟨ht, _, hnew⟩
    · exact ⟨kinds, by rw [hsame, hlog], hkinds⟩
    · by_cases he : e = item.executionId
      · subst he
        rw [hstatus] at ht
        refine ⟨kinds ++ [(leaseExpiryEvents item).1] ++ [(leaseExpiryEvents item).2], ?_, ?_⟩
        · rw [hnew, SeqLog.appendAll_concat, SeqLog.appendAll_concat, ← hlog,
            Function.update_self]
        · intro kind hkind
          simp only [List.mem_append, List.mem_singleton] at hkind
          rcases hkind with (hkind | rfl) | rfl
          · exact hkinds kind hkind
          · exact ⟨ht, item, hitem, rfl, hx, .inl rfl⟩
          · exact ⟨ht, item, hitem, rfl, hx, .inr rfl⟩
      · exact ⟨kinds, by rw [hnew, Function.update_of_ne he, hlog], hkinds⟩
  · intro e hnone
    rcases hevents with hsame | ⟨_, ⟨row, hrow⟩, hnew⟩
    · rw [hsame, hd.homeless e hnone]
    · have he : e ≠ item.executionId := by
        rintro rfl
        rw [← hd.executions, hrow] at hnone
        cases hnone
      rw [hnew, Function.update_of_ne he, hd.homeless e hnone]

theorem Reclaiming.fold {db₀ : Db} {now : Instant} {items : List WorkItemRow}
    (hd : Reclaiming db₀ now db) (hitems : ∀ item ∈ items, item ∈ db₀.workItems.rows ∧
      item.leaseExpired now = true) (h : items.foldlM expireOne db = some db') :
    Reclaiming db₀ now db' := by
  induction items generalizing db with
  | nil =>
    simp only [List.foldlM_nil, Option.pure_def, Option.some.injEq] at h
    exact h ▸ hd
  | cons item items ih =>
    simp only [List.foldlM_cons, Option.bind_eq_bind, Option.bind_eq_some_iff] at h
    obtain ⟨db₁, h₁, h₂⟩ := h
    obtain ⟨hmem, hx⟩ := hitems item (by simp)
    exact ih (hd.step hmem hx h₁) (fun i hi => hitems i (by simp [hi])) h₂

theorem expireStaleLeases_reclaiming (db : Db) (now : Instant) :
    Reclaiming db now (db.expireStaleLeases now).2 := by
  unfold expireStaleLeases
  split
  · rename_i db' h
    refine (Reclaiming.refl db now).fold (fun item hitem => ?_) h
    simpa using hitem
  · exact .refl db now

/-- The same work items, executions, logs and term. -/
structure CoreEq (db db' : Db) : Prop where
  workItems : db'.workItems = db.workItems
  executions : db'.executions = db.executions
  events : db'.events = db.events
  term : db'.term = db.term

theorem recordToolEffect_core (db : Db) (e : ExecutionId) (kind : EventKind) (now : Instant) :
    CoreEq db (db.recordToolEffect e kind now) := by
  unfold recordToolEffect
  split
  · exact ⟨rfl, rfl, rfl, rfl⟩
  · exact ⟨rfl, rfl, rfl, rfl⟩

theorem writeSnapshot_core (db : Db) (e : ExecutionId) (input : Json) :
    CoreEq db (db.writeSnapshot e input) := by
  unfold writeSnapshot putSnapshot
  split
  exact ⟨rfl, rfl, rfl, rfl⟩

theorem insertDeadLetter_core (db : Db) (row : DeadLetterRow) :
    CoreEq db (db.insertDeadLetter row) :=
  ⟨rfl, rfl, rfl, rfl⟩

theorem putSeed_core (db : Db) (e : ExecutionId) (seed : Option SnapshotRow) :
    CoreEq db (db.putSeed e seed) := by
  cases seed <;> exact ⟨rfl, rfl, rfl, rfl⟩

theorem reserveToolEffect_core (db : Db) (key : String) (e : ExecutionId) (node : NodeId)
    (owner : WorkerId) (fence : ℤ) (ttl : ℕ) (now : Instant) :
    CoreEq db (db.reserveToolEffect key e node owner fence ttl now).2 := by
  unfold reserveToolEffect
  simp only
  split
  · exact ⟨rfl, rfl, rfl, rfl⟩
  · exact ⟨rfl, rfl, rfl, rfl⟩

theorem CoreEq.trans {db₁ db₂ db₃ : Db} (h₁ : CoreEq db₁ db₂) (h₂ : CoreEq db₂ db₃) :
    CoreEq db₁ db₃ :=
  ⟨h₂.workItems.trans h₁.workItems, h₂.executions.trans h₁.executions,
    h₂.events.trans h₁.events, h₂.term.trans h₁.term⟩

theorem recordTurn_core (db : Db) (e : ExecutionId) (kind : EventKind) (input : Json)
    (snapshot : Bool) (now : Instant) : CoreEq db (db.recordTurn e kind input snapshot now) := by
  unfold recordTurn
  simp only
  split
  · exact (recordToolEffect_core db e kind now).trans (writeSnapshot_core _ e input)
  · exact recordToolEffect_core db e kind now

/-- A commit changes nothing, withdraws the item of a terminal execution, or settles the item
and appends the event. -/
theorem commitTurnInner_cases (db : Db) (id : WorkItemId) (fence : ℤ) (e : ExecutionId)
    (kind : EventKind) (snapshot refuse : Bool) (now : Instant) :
    (db.commitTurnInner id fence e kind snapshot refuse now).2 = db ∨
    (db.workItems.hits id (WorkItemRow.claimedUnder fence) = true ∧
      (db.commitTurnInner id fence e kind snapshot refuse now).2 =
        db.updateItem id (WorkItemRow.claimedUnder fence) WorkItemRow.fail WorkItemRow.fail_id) ∨
    (db.workItems.hits id (WorkItemRow.claimedUnder fence) = true ∧
      (refuse = true → db.terminalStatusOf e = none) ∧
      ∃ settle row, settleOf kind now = some settle ∧ db.executions.find? e = some row ∧
        (db.commitTurnInner id fence e kind snapshot refuse now).2 =
          ((db.updateItem id (WorkItemRow.claimedUnder fence) settle.1 settle.2).setEvents e
            ((db.events e).append kind)).recordTurn e kind row.initialInput snapshot now) := by
  unfold commitTurnInner
  split
  · exact .inl rfl
  · rename_i settle hsettle hkind
    split
    · unfold withdrawWorkItemFenced settleIf
      by_cases hhit : db.workItems.hits id (WorkItemRow.claimedUnder fence) = true
      · rw [if_pos hhit]
        exact .inr (.inl ⟨hhit, rfl⟩)
      · rw [if_neg hhit]
        exact .inl rfl
    · rename_i hlive
      split
      · rename_i hhit
        simp only
        split
        · rename_i row sequence appended hrow hins
          obtain ⟨_, _, rfl⟩ := insertEvent_eq_some hins
          exact .inr (.inr ⟨hhit, fun hr => by simpa [hr] using hlive, ⟨settle, hsettle⟩, row,
            hkind, hrow, rfl⟩)
        · exact .inl rfl
      · exact .inl rfl

theorem insertWorkItem_eq_some {item : NewWorkItem} {now : Instant} {n : WorkItemId}
    (h : db.insertWorkItem item now = some (n, db')) :
    (∃ row, db.executions.find? item.executionId = some row) ∧ n = db.freshItemId ∧
      ∃ items, db.workItems.insert? (item.toRow db.freshItemId now) = some items ∧
        db' = { db with workItems := items } := by
  unfold insertWorkItem at h
  split at h
  · rename_i row items hrow hitems
    cases h
    exact ⟨⟨row, hrow⟩, rfl, items, hitems, rfl⟩
  · cases h

theorem createRun_cases (db : Db) (x : ExecutionRow) (seed : Option SnapshotRow)
    (started scheduled : EventKind) (item : NewWorkItem) (now : Instant) :
    (db.createRun x seed started scheduled item now).2 = db ∨
    ∃ executions items, db.executions.insert? x = some executions ∧
      db.workItems.insert? (item.toRow db.freshItemId now) = some items ∧
      (∃ row, executions.find? item.executionId = some row) ∧
      (db.createRun x seed started scheduled item now).2 =
        { db.putSeed x.executionId seed with
          executions := executions
          workItems := items
          events := Function.update db.events x.executionId
            (((db.events x.executionId).append started).append scheduled) } := by
  unfold createRun
  split
  · exact .inl rfl
  · rename_i executions hexec
    simp only
    split
    · exact .inl rfl
    · rename_i n₃ db₃ h₃
      split
      · exact .inl rfl
      · rename_i n₄ db₄ h₄
        split
        · exact .inl rfl
        · rename_i n₅ db₅ h₅
          obtain ⟨_, _, rfl⟩ := insertEvent_eq_some h₃
          obtain ⟨_, _, rfl⟩ := insertEvent_eq_some h₄
          obtain ⟨⟨row, hrow⟩, _, items, hitems, rfl⟩ := insertWorkItem_eq_some h₅
          cases seed with
          | none => exact .inr ⟨executions, items, hexec, hitems, ⟨row, hrow⟩, by simp [putSeed, setEvents]⟩
          | some snap =>
            exact .inr ⟨executions, items, hexec, hitems, ⟨row, hrow⟩,
              by simp [putSeed, putSnapshot, setEvents]⟩

theorem appendEvent_cases (db : Db) (e : ExecutionId) (kind : EventKind) :
    (db.executions.find? e = none ∧ db.appendEvent e kind = (.error foreignKeyError, db)) ∨
      (∃ row, db.executions.find? e = some row) ∧ db.appendEvent e kind =
        (.ok ((db.events e).latest + 1), db.setEvents e ((db.events e).append kind)) := by
  unfold appendEvent insertEvent
  cases db.executions.find? e with
  | none => exact .inl ⟨rfl, rfl⟩
  | some row => exact .inr ⟨⟨row, rfl⟩, rfl⟩

theorem terminalStatusOf_eq_none {row : ExecutionRow} (hrow : db.executions.find? e = some row)
    (hs : row.status.isTerminal = false) : db.terminalStatusOf e = none := by
  simp [terminalStatusOf, hrow, hs]

theorem appendEventIf_cases (db : Db) (e : ExecutionId) (kind : EventKind)
    (condition : List Event → Bool) :
    (db.appendEventIf e kind condition).2 = db ∨
      (db.terminalStatusOf e = none ∧ condition (db.events e).entries = true ∧
        (db.appendEventIf e kind condition).2 = db.setEvents e ((db.events e).append kind)) := by
  unfold appendEventIf
  split
  · exact .inl rfl
  · rename_i row hrow
    split
    · exact .inl rfl
    · rename_i hs
      split
      · rename_i hc
        exact .inr ⟨terminalStatusOf_eq_none hrow (by simpa using hs), hc, rfl⟩
      · exact .inl rfl

/-- A finish changes nothing, or it moves a live execution to the terminal status and appends
the event. -/
theorem finishExecution_cases (db : Db) (e : ExecutionId) (kind : EventKind)
    (status : WorkflowStatus) (now : Instant) :
    (db.finishExecution e kind status now).2 = db ∨
      (status.isTerminal = true ∧ db.terminalStatusOf e = none ∧
        (∃ row, db.executions.find? e = some row) ∧
        (db.finishExecution e kind status now).2 =
          (db.updateExecution e (fun _ => true) (ExecutionRow.finish status now)
            (ExecutionRow.finish_executionId status now)).setEvents e
            ((db.events e).append kind)) := by
  unfold finishExecution
  split
  · exact .inl rfl
  · rename_i hst
    split
    · exact .inl rfl
    · rename_i row hrow
      split
      · exact .inl rfl
      · rename_i hs
        exact .inr ⟨by simpa using hst, terminalStatusOf_eq_none hrow (by simpa using hs),
          ⟨row, hrow⟩, rfl⟩

theorem commitTurn_db (db : Db) (id : WorkItemId) (fence : ℤ) (e : ExecutionId) (kind : EventKind)
    (snapshot : Bool) (now : Instant) : (db.commitTurn id fence e kind snapshot now).2 =
      (db.commitTurnInner id fence e kind snapshot false now).2 := by
  unfold commitTurn
  split <;> simp_all

end Db

open Db

theorem WorkItemRow.claimedUnder_iff {fence : ℤ} {r : WorkItemRow} :
    r.claimedUnder fence = true ↔ r.leaseFence = fence ∧ r.status = .claimed := by
  simp [WorkItemRow.claimedUnder]

theorem WorkItemRow.isClaimed_iff {r : WorkItemRow} :
    r.isClaimed = true ↔ r.status = .claimed := by
  simp [WorkItemRow.isClaimed]

theorem mem_oldest {rows : List WorkItemRow} {r : WorkItemRow} (h : oldest rows = some r) :
    r ∈ rows := by
  unfold oldest at h
  exact (List.mem_insertionSort _).mp (List.mem_of_mem_head? h)

theorem status_of_claimable {queueTypes : List String} {now : Instant} {r : WorkItemRow}
    (h : claimable queueTypes now r = true) : r.status = .pending := by
  unfold claimable at h
  exact (of_decide_eq_true h).1

/-- The work items after an operation: those there before, each changed in a listed way, and
the one it creates. -/
structure ItemsEffect (db : Db) {β : Type} (op : BackendOp β)
    (items : Table WorkItemId WorkItemRow (·.id)) : Prop where
  row : ∀ {id r}, db.workItems.find? id = some r →
    ∃ r', items.find? id = some r' ∧ ItemStep db op r r'
  new : ∀ {id r'}, db.workItems.find? id = none → items.find? id = some r' →
    ∃ item now, Creates op item ∧ id = db.freshItemId ∧ r' = item.toRow id now

def LogsEffect (db : Db) {β : Type} (op : BackendOp β) (events : ExecutionId → EventLog) : Prop :=
  ∀ e, ∃ kinds, events e = (db.events e).appendAll kinds ∧ ∀ kind ∈ kinds, Appends db op e kind

structure ExecutionsEffect (db : Db) {β : Type} (op : BackendOp β)
    (executions : Table ExecutionId ExecutionRow (·.executionId)) : Prop where
  row : ∀ {e x}, db.executions.find? e = some x →
    ∃ x', executions.find? e = some x' ∧ ExecutionStep op x x'
  new : ∀ {e x'}, db.executions.find? e = none → executions.find? e = some x' →
    op.newExecution = some x'

/-- Everything an operation can do to the parts of the database the runs are about. -/
structure Effect (db : Db) {β : Type} (op : BackendOp β) (db' : Db) : Prop where
  items : ItemsEffect db op db'.workItems
  logs : LogsEffect db op db'.events
  executions : ExecutionsEffect db op db'.executions
  term : db.term ≤ db'.term

section Effects

variable {db : Db} {β : Type} {op : BackendOp β}

theorem ItemsEffect.same : ItemsEffect db op db.workItems where
  row h := ⟨_, h, .keep⟩
  new hnone h := by rw [hnone] at h; cases h

theorem ItemsEffect.update {id : WorkItemId} {guard : WorkItemRow → Bool}
    {f : WorkItemRow → WorkItemRow} (hf : ∀ r, (f r).id = r.id)
    (h : ∀ r, db.workItems.find? id = some r → guard r = true → ItemStep db op r (f r)) :
    ItemsEffect db op (db.workItems.update id guard f hf) where
  row {id' r} hr := by
    rw [Table.find?_update, hr]
    by_cases hg : id' = id ∧ guard r = true
    · obtain ⟨rfl, hg⟩ := hg
      exact ⟨f r, by simp [hg], h r hr hg⟩
    · exact ⟨r, by simp [hg], .keep⟩
  new hnone hr' := by
    rw [Table.find?_update, hnone] at hr'
    cases hr'

theorem ItemsEffect.insert {item : NewWorkItem} {now : Instant} {items}
    (hc : Creates op item)
    (h : db.workItems.insert? (item.toRow db.freshItemId now) = some items) :
    ItemsEffect db op items where
  row {id r} hr := by
    refine ⟨r, ?_, .keep⟩
    rw [Table.find?_of_insert? h]
    split
    · rename_i hid
      have hfree := (Table.rows_of_insert? h).1
      rw [hid, hr] at hfree
      cases hfree
    · exact hr
  new {id r'} hnone hr' := by
    rw [Table.find?_of_insert? h] at hr'
    split at hr'
    · rename_i hid
      cases hr'
      cases hid
      exact ⟨item, now, hc, rfl, rfl⟩
    · rw [hnone] at hr'
      cases hr'

theorem LogsEffect.same : LogsEffect db op db.events := fun _ => ⟨[], rfl, by simp⟩

theorem LogsEffect.append {e : ExecutionId} {kind : EventKind} (h : Appends db op e kind) :
    LogsEffect db op (Function.update db.events e ((db.events e).append kind)) := by
  intro e'
  by_cases he : e' = e
  · subst he
    refine ⟨[kind], by simp [SeqLog.appendAll], ?_⟩
    simpa using h
  · exact ⟨[], by simp [he], by simp⟩

theorem ExecutionsEffect.same : ExecutionsEffect db op db.executions where
  row h := ⟨_, h, .keep⟩
  new hnone h := by rw [hnone] at h; cases h

theorem ExecutionsEffect.update {e : ExecutionId} {guard : ExecutionRow → Bool}
    {f : ExecutionRow → ExecutionRow} (hf : ∀ x, (f x).executionId = x.executionId)
    (h : ∀ x, db.executions.find? e = some x → guard x = true → ExecutionStep op x (f x)) :
    ExecutionsEffect db op (db.executions.update e guard f hf) where
  row {e' x} hx := by
    rw [Table.find?_update, hx]
    by_cases hg : e' = e ∧ guard x = true
    · obtain ⟨rfl, hg⟩ := hg
      exact ⟨f x, by simp [hg], h x hx hg⟩
    · exact ⟨x, by simp [hg], .keep⟩
  new hnone hx' := by
    rw [Table.find?_update, hnone] at hx'
    cases hx'

theorem Effect.same : Effect db op db := ⟨.same, .same, .same, le_rfl⟩

theorem Effect.of_core {db₁ db₂ : Db} (h : CoreEq db₁ db₂) (heff : Effect db op db₁) :
    Effect db op db₂ := by
  obtain ⟨hw, hx, he, ht⟩ := h
  exact ⟨hw ▸ heff.items, he ▸ heff.logs, hx ▸ heff.executions, ht ▸ heff.term⟩

theorem Effect.updateItem {id : WorkItemId} {guard : WorkItemRow → Bool}
    {f : WorkItemRow → WorkItemRow} {hf : ∀ r, (f r).id = r.id}
    (h : ∀ r, db.workItems.find? id = some r → guard r = true → ItemStep db op r (f r)) :
    Effect db op (db.updateItem id guard f hf) :=
  ⟨.update hf h, .same, .same, le_rfl⟩

theorem Effect.settleIf {id : WorkItemId} {guard : WorkItemRow → Bool}
    {f : WorkItemRow → WorkItemRow} {hf : ∀ r, (f r).id = r.id}
    (h : ∀ r, db.workItems.find? id = some r → guard r = true → ItemStep db op r (f r)) :
    Effect db op (db.settleIf id guard f hf).2 := by
  unfold Db.settleIf
  split
  · exact .updateItem h
  · exact .same

theorem Effect.append {e : ExecutionId} {kind : EventKind} (h : Appends db op e kind) :
    Effect db op (db.setEvents e ((db.events e).append kind)) :=
  ⟨.same, .append h, .same, le_rfl⟩

theorem Effect.commit {id : WorkItemId} {fence : ℤ} {e : ExecutionId} {kind : EventKind}
    {snapshot refuse : Bool} {now : Instant} (hop : op.settles = true)
    (h : (refuse = true → db.terminalStatusOf e = none) →
      db.workItems.hits id (WorkItemRow.claimedUnder fence) = true → Appends db op e kind) :
    Effect db op (db.commitTurnInner id fence e kind snapshot refuse now).2 := by
  rcases commitTurnInner_cases db id fence e kind snapshot refuse now with
    hs | ⟨_, hs⟩ | ⟨hhit, hlive, settle, row, hsettle, _, hs⟩
  · rw [hs]
    exact .same
  · rw [hs]
    exact .updateItem fun r _ _ => .settle hop (.inr (.inl rfl))
  · rw [hs]
    refine .of_core (recordTurn_core _ e kind row.initialInput snapshot now)
      ⟨.update settle.2 fun r _ hg => ?_, .append (h hlive hhit), .same, le_rfl⟩
    unfold settleOf at hsettle
    split at hsettle
    · cases hsettle
      exact .settle hop (.inl ⟨now, rfl⟩)
    · cases hsettle
      exact .settle hop (.inr (.inr (.inl rfl)))
    · cases hsettle

end Effects

/-- What one operation of the backend can do. -/
theorem BackendOp.effect {β : Type} (op : BackendOp β) (db : Db) :
    Effect db op (op.exec db).2 := by
  cases op with
  | listExecutions | executionTenant | getExecution | latestSnapshot | latestSequence | getEvents
    | getEventsSince | leaseSecsFor | getToolEffect | reservationHolder | selectExpired =>
    exact .same
  | reserveToolEffect key e node owner fence ttl now =>
    exact .of_core (reserveToolEffect_core db key e node owner fence ttl now) .same
  | releaseToolReservation key owner fence =>
    have hcore : CoreEq db (db.releaseToolReservation key owner fence).2 := ⟨rfl, rfl, rfl, rfl⟩
    exact .of_core hcore .same
  | insertDeadLetter row => exact .of_core (insertDeadLetter_core db row) .same
  | setStoreTermAtLeast term => exact ⟨.same, .same, .same, le_max_left _ _⟩
  | appendEvent e kind =>
    rcases appendEvent_cases db e kind with ⟨_, h⟩ | ⟨_, h⟩ <;> rw [BackendOp.exec, h]
    · exact .same
    · exact .append ⟨rfl, rfl⟩
  | appendEventIf e kind condition =>
    rcases appendEventIf_cases db e kind condition with h | ⟨ht, hc, h⟩ <;> rw [BackendOp.exec, h]
    · exact .same
    · exact .append ⟨rfl, rfl, ht, hc⟩
  | finishExecution e kind status now =>
    rcases finishExecution_cases db e kind status now with h | ⟨hs, ht, _, h⟩ <;>
      rw [BackendOp.exec, h]
    · exact .same
    · refine ⟨.same, .append ⟨rfl, rfl, ht⟩, .update (ExecutionRow.finish_executionId status now)
        fun x hx _ => ?_, le_rfl⟩
      obtain rfl := Table.key_of_find? hx
      refine .finish ?_ hs
      simpa [terminalStatusOf, hx] using ht
  | updateExecutionStatus e status now =>
    simp only [BackendOp.exec, Db.updateExecutionStatus]
    split
    · exact .same
    · refine ⟨.same, .same, .update (ExecutionRow.setStatus_executionId status now)
        fun x hx _ => ?_, le_rfl⟩
      obtain rfl := Table.key_of_find? hx
      exact .setStatus
  | createRun x seed started scheduled item now =>
    rcases createRun_cases db x seed started scheduled item now with
      h | ⟨executions, items, hexec, hitems, _, h⟩
    · rw [BackendOp.exec, h]
      exact .same
    · rw [BackendOp.exec, h]
      have hterm : (db.putSeed x.executionId seed).term = db.term := (putSeed_core db _ seed).term
      refine ⟨.insert rfl hitems, ?_, ?_, hterm.ge⟩
      · intro e
        by_cases he : e = x.executionId
        · subst he
          refine ⟨[started, scheduled], by simp [SeqLog.appendAll], ?_⟩
          simp only [List.mem_cons, List.not_mem_nil, or_false]
          rintro kind (rfl | rfl)
          · exact ⟨rfl, .inl rfl⟩
          · exact ⟨rfl, .inr rfl⟩
        · exact ⟨[], by simp [he], by simp⟩
      · refine ⟨fun {e row} hrow => ⟨row, ?_, .keep⟩, fun {e row} hnone hrow => ?_⟩
        · rw [Table.find?_of_insert? hexec]
          split
          · rename_i he
            have hfree := (Table.rows_of_insert? hexec).1
            rw [he, hrow] at hfree
            cases hfree
          · exact hrow
        · rw [Table.find?_of_insert? hexec] at hrow
          split at hrow
          · cases hrow
            rfl
          · rw [hnone] at hrow
            cases hrow
  | enqueueWorkItem item now =>
    simp only [BackendOp.exec, Db.enqueueWorkItem]
    split
    · exact .same
    · rename_i n db' h
      obtain ⟨_, _, items, hitems, rfl⟩ := insertWorkItem_eq_some h
      exact ⟨.insert rfl hitems, .same, .same, le_rfl⟩
  | expireStaleLeases now =>
    have hd := expireStaleLeases_reclaiming db now
    refine ⟨⟨fun {id r} hr => ?_, fun {id r'} hnone hr' => ?_⟩, hd.log, ?_, hd.term.ge⟩
    · obtain ⟨r', hr', hcase⟩ := hd.row id r hr
      refine ⟨r', hr', ?_⟩
      rcases hcase with rfl | ⟨_, rfl | ⟨hx, ht, rfl⟩⟩
      · exact .keep
      · exact .settle rfl (.inr (.inl rfl))
      · exact .expire hx ht
    · simp only [BackendOp.exec, hd.absent id hnone] at hr'
      cases hr'
    · simp only [BackendOp.exec, hd.executions]
      exact .same
  | claimWorkItem worker queueTypes leaseSecs now =>
    simp only [BackendOp.exec, Db.claimWorkItem]
    split
    · exact .same
    · rename_i item hitem
      have hmem := List.mem_filter.mp (mem_oldest hitem)
      refine .updateItem fun r hr _ => ?_
      cases hr.symm.trans (Table.find?_of_mem hmem.1)
      exact .claim (status_of_claimable hmem.2) (by simp [mintedFor, hitem])
  | renewLease id worker fence len now =>
    simp only [BackendOp.exec, Db.renewLease]
    split
    · rename_i hhit
      refine .updateItem fun r hr hg => .renew hg ?_
      simp [renewedFor, hhit, Table.key_of_find? hr]
    · exact .same
  | reattachLease id worker lostFence now =>
    simp only [BackendOp.exec, Db.reattachLease]
    split
    · exact .same
    · rename_i row hrow
      split
      · rename_i hg
        refine .updateItem fun r hr _ => ?_
        cases hr.symm.trans hrow
        have hhit : db.workItems.hits id (WorkItemRow.reattachable worker lostFence) = true :=
          Table.hits_iff.mpr ⟨row, hrow, hg⟩
        refine .reattach hg ?_
        simp [mintedFor, hhit, Table.key_of_find? hrow]
      · exact .same
  | completeWorkItem id now =>
    simp only [BackendOp.exec, Db.completeWorkItem]
    split
    · exact .updateItem fun r _ _ => .settle rfl (.inl ⟨now, rfl⟩)
    · exact .same
  | failWorkItem id =>
    simp only [BackendOp.exec, Db.failWorkItem]
    split
    · exact .updateItem fun r _ _ => .settle rfl (.inr (.inl rfl))
    · exact .same
  | completeWorkItemFenced id fence now =>
    exact .settleIf fun r _ _ => .settle rfl (.inl ⟨now, rfl⟩)
  | withdrawWorkItemFenced id fence => exact .settleIf fun r _ _ => .settle rfl (.inr (.inl rfl))
  | parkWorkItem id fence t n => exact .settleIf fun r hr hg => .releaseParked (Table.key_of_find? hr) hg
  | failWorkItemFenced id fence error now =>
    simp only [BackendOp.exec, Db.failWorkItemFenced]
    split
    · exact .same
    · split
      · refine .of_core (insertDeadLetter_core _ _) (.updateItem fun r _ hg => ?_)
        exact .settle rfl (.inr (.inr (.inr ⟨_, rfl⟩)))
      · exact .updateItem fun r hr hg => .releaseFailed (Table.key_of_find? hr) hg _ _
  | finalizeRolloverFenced e id fence now =>
    simp only [BackendOp.exec, Db.finalizeRolloverFenced]
    split
    · refine ⟨.update (WorkItemRow.complete_id now) fun r _ _ => .settle rfl (.inl ⟨now, rfl⟩),
        .same, .update (ExecutionRow.finish_executionId .limitExceeded now) fun x hx hg => ?_,
        le_rfl⟩
      obtain rfl := Table.key_of_find? hx
      exact .limitExceeded (by simpa using hg)
    · exact .same
  | commitTurn id fence e kind snapshot now =>
    rw [BackendOp.exec, commitTurn_db]
    exact .commit rfl fun _ h => ⟨rfl, rfl, h⟩
  | commitTurnUnlessTerminal id fence e kind snapshot now =>
    exact .commit rfl fun ht h => ⟨rfl, rfl, h, ht rfl⟩
  | sweepDeadLetter item =>
    exact .settleIf fun r _ _ => .settle rfl (.inr (.inr (.inr ⟨_, rfl⟩)))
  | sweepRequeue item now =>
    exact .settleIf fun r hr hg =>
      .sweepRequeue (Table.key_of_find? hr) (WorkItemRow.isClaimed_iff.mp hg)

theorem extends_exec {β : Type} (op : BackendOp β) (db : Db) (e : ExecutionId) :
    (db.events e).Extends ((op.exec db).2.events e) := by
  obtain ⟨kinds, hlog, _⟩ := (op.effect db).logs e
  rw [hlog]
  exact SeqLog.extends_appendAll _ _

/-- Whether an operation can write a snapshot, a tool effect or a reservation. -/
def BackendOp.records {β : Type} : BackendOp β → Bool
  | .createRun .. | .commitTurn .. | .commitTurnUnlessTerminal .. | .reserveToolEffect ..
  | .releaseToolReservation .. => true
  | _ => false

theorem settleIf_rest (db : Db) (id : WorkItemId) (guard : WorkItemRow → Bool)
    (f : WorkItemRow → WorkItemRow) (hf : ∀ r, (f r).id = r.id) :
    RestEq db (db.settleIf id guard f hf).2 := by
  unfold Db.settleIf
  split <;> exact ⟨rfl, rfl, rfl⟩

theorem BackendOp.rest {β : Type} {op : BackendOp β} (h : op.records = false) (db : Db) :
    RestEq db (op.exec db).2 := by
  cases op with
  | createRun | commitTurn | commitTurnUnlessTerminal | reserveToolEffect
    | releaseToolReservation => cases h
  | appendEvent e kind =>
    rcases appendEvent_cases db e kind with ⟨_, h⟩ | ⟨_, h⟩ <;> rw [BackendOp.exec, h] <;>
      exact ⟨rfl, rfl, rfl⟩
  | appendEventIf e kind condition =>
    rcases appendEventIf_cases db e kind condition with h | ⟨_, _, h⟩ <;>
      rw [BackendOp.exec, h] <;> exact ⟨rfl, rfl, rfl⟩
  | finishExecution e kind status now =>
    rcases finishExecution_cases db e kind status now with h | ⟨_, _, _, h⟩ <;>
      rw [BackendOp.exec, h] <;> exact ⟨rfl, rfl, rfl⟩
  | updateExecutionStatus e status now =>
    simp only [BackendOp.exec, Db.updateExecutionStatus]
    split <;> exact ⟨rfl, rfl, rfl⟩
  | enqueueWorkItem item now =>
    simp only [BackendOp.exec, Db.enqueueWorkItem]
    split
    · exact .refl db
    · rename_i n db' h
      obtain ⟨_, _, items, _, rfl⟩ := insertWorkItem_eq_some h
      exact ⟨rfl, rfl, rfl⟩
  | expireStaleLeases now => exact (expireStaleLeases_reclaiming db now).rest
  | claimWorkItem worker queueTypes leaseSecs now =>
    simp only [BackendOp.exec, Db.claimWorkItem]
    split <;> exact ⟨rfl, rfl, rfl⟩
  | renewLease id worker fence len now =>
    simp only [BackendOp.exec, Db.renewLease]
    split <;> exact ⟨rfl, rfl, rfl⟩
  | reattachLease id worker lostFence now =>
    simp only [BackendOp.exec, Db.reattachLease]
    split
    · exact .refl db
    · split <;> exact ⟨rfl, rfl, rfl⟩
  | completeWorkItem id now =>
    simp only [BackendOp.exec, Db.completeWorkItem]
    split <;> exact ⟨rfl, rfl, rfl⟩
  | failWorkItem id =>
    simp only [BackendOp.exec, Db.failWorkItem]
    split <;> exact ⟨rfl, rfl, rfl⟩
  | failWorkItemFenced id fence error now =>
    simp only [BackendOp.exec, Db.failWorkItemFenced]
    split
    · exact .refl db
    · split <;> exact ⟨rfl, rfl, rfl⟩
  | finalizeRolloverFenced e id fence now =>
    simp only [BackendOp.exec, Db.finalizeRolloverFenced]
    split <;> exact ⟨rfl, rfl, rfl⟩
  | completeWorkItemFenced | parkWorkItem | withdrawWorkItemFenced | sweepDeadLetter
    | sweepRequeue => exact settleIf_rest ..
  | _ => exact ⟨rfl, rfl, rfl⟩

/-- Only the log of an execution with a row is written. -/
theorem events_exec_of_absent {β : Type} (op : BackendOp β) (db : Db) {e : ExecutionId}
    (h : (op.exec db).2.executions.find? e = none) : (op.exec db).2.events e = db.events e := by
  have habsent : db.executions.find? e = none := by
    cases hx : db.executions.find? e with
    | none => rfl
    | some x =>
      obtain ⟨x', hx', _⟩ := (op.effect db).executions.row hx
      rw [h] at hx'
      cases hx'
  -- an append to an execution that has a row is one to another log
  have hother : ∀ {e' row log}, db.executions.find? e' = some row →
      Function.update db.events e' log e = db.events e := by
    intro e' row log hrow
    refine Function.update_of_ne ?_ ..
    rintro rfl
    rw [habsent] at hrow
    cases hrow
  have hcommit : ∀ {id fence e' kind snapshot refuse now},
      (db.commitTurnInner id fence e' kind snapshot refuse now).2.events e = db.events e := by
    intro id fence e' kind snapshot refuse now
    rcases commitTurnInner_cases db id fence e' kind snapshot refuse now with
      hs | ⟨_, hs⟩ | ⟨_, _, settle, row, _, hrow, hs⟩ <;> rw [hs]
    · rfl
    · rw [(recordTurn_core _ e' kind row.initialInput snapshot now).events]
      exact hother hrow
  cases op with
  | appendEvent e' kind =>
    rcases appendEvent_cases db e' kind with ⟨_, h⟩ | ⟨⟨row, hrow⟩, h⟩ <;> rw [BackendOp.exec, h]
    exact hother hrow
  | appendEventIf e' kind condition =>
    simp only [BackendOp.exec, Db.appendEventIf]
    split
    · rfl
    · rename_i row hrow
      split
      · rfl
      · split
        · exact hother hrow
        · rfl
  | finishExecution e' kind status now =>
    rcases finishExecution_cases db e' kind status now with h | ⟨_, _, ⟨row, hrow⟩, h⟩ <;>
      rw [BackendOp.exec, h]
    exact hother hrow
  | createRun x seed started scheduled item now =>
    rcases createRun_cases db x seed started scheduled item now with
      hs | ⟨executions, items, hexec, _, _, hs⟩
    · rw [BackendOp.exec, hs]
    · rw [BackendOp.exec, hs] at h ⊢
      refine Function.update_of_ne ?_ ..
      rintro rfl
      rw [Table.find?_of_insert? hexec] at h
      simp at h
  | expireStaleLeases now => exact (expireStaleLeases_reclaiming db now).homeless e habsent
  | commitTurn id fence e' kind snapshot now =>
    rw [BackendOp.exec, commitTurn_db]
    exact hcommit
  | commitTurnUnlessTerminal id fence e' kind snapshot now => exact hcommit
  | _ =>
    obtain ⟨kinds, hlog, hkinds⟩ := (BackendOp.effect _ db).logs e
    cases kinds with
    | nil => exact hlog
    | cons kind kinds => exact (hkinds kind (by simp)).elim

theorem mem_listExecutions {db : Db} {status : WorkflowStatus} {limit offset : ℕ}
    {x : ExecutionRow} (h : x ∈ db.listExecutions status limit offset) :
    x ∈ db.executions.rows ∧ x.status = status := by
  have h := List.mem_of_mem_drop (List.mem_of_mem_take h)
  simpa using (List.mem_insertionSort _).mp h

theorem settleIf_ok {db : Db} {id : WorkItemId} {guard : WorkItemRow → Bool}
    {f : WorkItemRow → WorkItemRow} {hf : ∀ r, (f r).id = r.id} :
    (db.settleIf id guard f hf).1 = .ok (db.workItems.hits id guard) := by
  unfold Db.settleIf
  split <;> simp_all

theorem mem_selectExpired {db : Db} {now : Instant} {row : WorkItemRow} :
    row ∈ db.selectExpired now ↔ row ∈ db.workItems.rows ∧ row.leaseExpired now = true := by
  simp [Db.selectExpired, List.mem_insertionSort]

end JamJet
