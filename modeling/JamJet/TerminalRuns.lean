import JamJet.Engine

/-! What can still happen to a run that has ended.  Some writers look at the execution's status
inside their transaction and some do not; the law holds exactly as far as those that do not are
kept off terminal executions. -/

namespace JamJet

open AtomicCalls

/-- The execution of a work item has not ended. -/
def Db.itemLive (db : Db) (id : WorkItemId) : Prop :=
  ∀ r, db.workItems.find? id = some r → db.terminalStatusOf r.executionId = none

/-- The writes that do not look at the execution's status are made before it ends: a committed
turn other than a policy block, a plain append of a node's outcome, a reported failure, a park,
the sweep's requeue and the change of status after an approval. -/
def Db.WritesLive (db : Db) {β : Type} : BackendOp β → Prop
  | .commitTurn _ _ e kind _ _ => kind.isPolicyBlock = true ∨ db.terminalStatusOf e = none
  | .appendEvent e kind =>
      kind.isNodeOutcome = true → kind.isPolicyBlock = true ∨ db.terminalStatusOf e = none
  | .failWorkItemFenced id _ _ _ | .parkWorkItem id _ _ _ => db.itemLive id
  | .sweepRequeue item _ => db.itemLive item.id
  | .updateExecutionStatus e status _ =>
      status.isTerminal = true ∨ db.terminalStatusOf e = none
  | _ => True

/-- A status is written over a live one, or it is terminal itself. -/
def Db.FlipsLive (db : Db) {β : Type} : BackendOp β → Prop
  | .updateExecutionStatus e status _ =>
      status.isTerminal = true ∨ db.terminalStatusOf e = none
  | _ => True

theorem Db.WritesLive.flips {db : Db} {β : Type} {op : BackendOp β} (h : db.WritesLive op) :
    db.FlipsLive op := by
  cases op with
  | updateExecutionStatus => exact h
  | _ => trivial

/-- An event ends its run exactly when `finish_execution` records it, and a run starts with its
start events. -/
def BackendOp.EndsByFinish {β : Type} : BackendOp β → Prop
  | .finishExecution _ kind _ _ => kind.endsRun = true
  | .appendEvent _ kind | .appendEventIf _ kind _ => kind.endsRun = false
  | .createRun _ _ started scheduled _ _ =>
      (started.endsRun = false ∧ started.isNodeOutcome = false) ∧
        scheduled.endsRun = false ∧ scheduled.isNodeOutcome = false
  | .commitTurn _ _ _ kind _ _ | .commitTurnUnlessTerminal _ _ _ kind _ _ => kind.endsRun = false
  | _ => True

/-- Every writer records its own kinds of events, and the unchecked ones only on live runs. -/
def writersOnLiveRuns : EngineRules where
  actOk a s := match a with
    | .call op => op.EndsByFinish ∧ s.db.WritesLive op
    | .passTime _ => True
  callOk op s := match op with
    | .inl op => op.EndsByFinish ∧ s.db.WritesLive op
    | .inr _ => True

/-- An execution whose log holds an end event has a terminal status. -/
def EndedAreTerminal (db : Db) : Prop :=
  ∀ e, (∃ x ∈ (db.events e).entries, x.kind.endsRun = true) → db.terminalStatusOf e ≠ none

section Steps

variable {db : Db} {β : Type} {op : BackendOp β} {e : ExecutionId}

theorem terminalStatusOf_ne_none : db.terminalStatusOf e ≠ none ↔
    ∃ x, db.executions.find? e = some x ∧ x.status.isTerminal = true := by
  unfold Db.terminalStatusOf
  cases db.executions.find? e with
  | none => simp
  | some x => cases h : x.status.isTerminal <;> simp [h]

theorem terminalStatusOf_exec (hlive : db.FlipsLive op) (h : db.terminalStatusOf e ≠ none) :
    (op.exec db).2.terminalStatusOf e ≠ none := by
  obtain ⟨x, hx, hs⟩ := terminalStatusOf_ne_none.mp h
  obtain ⟨x', hx', hstep⟩ := (op.effect db).executions.row hx
  refine terminalStatusOf_ne_none.mpr ⟨x', hx', ?_⟩
  cases hstep with
  | keep => exact hs
  | finish _ hst => exact hst
  | limitExceeded => rfl
  | setStatus =>
    rcases hlive with hst | hnone
    · exact hst
    · rw [Table.key_of_find? hx] at hnone
      exact absurd hnone h

theorem EndedAreTerminal.exec_of_no_end (h : EndedAreTerminal db) (hlive : db.WritesLive op)
    (hno : ∀ e kind, Appends db op e kind → kind.endsRun = false) :
    EndedAreTerminal (op.exec db).2 := by
  rintro e ⟨x, hx, hend⟩
  refine terminalStatusOf_exec hlive.flips (h e ?_)
  obtain ⟨kinds, hlog, hkinds⟩ := (op.effect db).logs e
  rw [hlog] at hx
  rcases SeqLog.mem_appendAll hx with hx | ⟨hk, _⟩
  · exact ⟨x, hx, hend⟩
  · rw [hno e _ (hkinds _ hk)] at hend
    cases hend

theorem EndedAreTerminal.finish (h : EndedAreTerminal db) (e' : ExecutionId) (kind : EventKind)
    (status : WorkflowStatus) (now : Instant) :
    EndedAreTerminal (db.finishExecution e' kind status now).2 := by
  rcases Db.finishExecution_cases db e' kind status now with hs | ⟨hst, _, ⟨row, hrow⟩, hs⟩
  · rw [hs]
    exact h
  · intro e hend
    by_cases he : e = e'
    · subst he
      refine terminalStatusOf_ne_none.mpr ⟨row.finish status now, ?_, hst⟩
      rw [hs]
      simp [Db.updateExecution, Table.find?_update, hrow]
    · rw [hs, Db.setEvents_events_of_ne _ he] at hend
      have hold := terminalStatusOf_ne_none.mp (h e hend)
      rw [hs]
      refine terminalStatusOf_ne_none.mpr ?_
      simpa [Db.updateExecution, Table.find?_update, he] using hold

theorem EndedAreTerminal.exec (h : EndedAreTerminal db) (hends : op.EndsByFinish)
    (hlive : db.WritesLive op) : EndedAreTerminal (op.exec db).2 := by
  cases op with
  | finishExecution e kind status now => exact h.finish e kind status now
  | appendEvent =>
    refine h.exec_of_no_end hlive ?_
    rintro e kind ⟨_, rfl⟩
    exact hends
  | appendEventIf | commitTurn | commitTurnUnlessTerminal =>
    refine h.exec_of_no_end hlive ?_
    rintro e kind ⟨_, rfl, _⟩
    exact hends
  | createRun =>
    refine h.exec_of_no_end hlive ?_
    rintro e kind ⟨_, rfl | rfl⟩
    · exact hends.1.1
    · exact hends.2.1
  | expireStaleLeases =>
    refine h.exec_of_no_end hlive ?_
    rintro e kind ⟨_, r, _, _, _, rfl | rfl⟩ <;> rfl
  | _ => exact h.exec_of_no_end hlive fun _ _ ha => ha.elim

/-- On a run that has ended, no outcome of a node is recorded but a policy block, and no work item
goes back to the queue. -/
def FinishedUntouched (db db' : Db) : Prop :=
  ∀ e, (∃ x ∈ (db.events e).entries, x.kind.endsRun = true) →
    (∀ x ∈ (db'.events e).entries, x ∉ (db.events e).entries → x.kind.isNodeOutcome = true →
      x.kind.isPolicyBlock = true) ∧
    ∀ id r r', db.workItems.find? id = some r → db'.workItems.find? id = some r' →
      r.executionId = e → r'.status = .pending → r.status = .pending

theorem FinishedUntouched.refl (db : Db) : FinishedUntouched db db := by
  refine fun e _ => ⟨fun x hx hn => absurd hx hn, fun id r r' hr hr' _ hp => ?_⟩
  cases hr.symm.trans hr'
  exact hp

theorem policyBlock_of_appends {kind : EventKind} (h : Appends db op e kind)
    (hends : op.EndsByFinish) (hlive : db.WritesLive op) (ht : db.terminalStatusOf e ≠ none)
    (ho : kind.isNodeOutcome = true) : kind.isPolicyBlock = true := by
  cases op with
  | appendEvent =>
    obtain ⟨rfl, rfl⟩ := h
    exact (hlive ho).resolve_right ht
  | commitTurn =>
    obtain ⟨rfl, rfl, _⟩ := h
    exact hlive.resolve_right ht
  | appendEventIf => exact absurd h.2.2.1 ht
  | finishExecution => exact absurd h.2.2 ht
  | commitTurnUnlessTerminal => exact absurd h.2.2.2 ht
  | expireStaleLeases => exact absurd h.1 ht
  | createRun =>
    obtain ⟨_, rfl | rfl⟩ := h
    · rw [hends.1.2] at ho
      cases ho
    · rw [hends.2.2] at ho
      cases ho
  | _ => exact h.elim

theorem pending_of_itemStep {r r' : WorkItemRow} (h : ItemStep db op r r')
    (hr : db.workItems.find? r.id = some r) (hlive : db.WritesLive op)
    (ht : db.terminalStatusOf r.executionId ≠ none) (hp : r'.status = .pending) :
    r.status = .pending := by
  cases h with
  | keep => exact hp
  | settle _ hs => rcases hs with ⟨now, rfl⟩ | rfl | rfl | ⟨n, rfl⟩ <;> cases hp
  | releaseFailed hid | releaseParked hid | sweepRequeue hid =>
    exact absurd (hlive r (hid ▸ hr)) ht
  | expire _ hnone => exact absurd hnone ht
  | claim | reattach => cases hp
  | renew => exact hp

theorem FinishedUntouched.exec (h : EndedAreTerminal db) (hends : op.EndsByFinish)
    (hlive : db.WritesLive op) : FinishedUntouched db (op.exec db).2 := by
  intro e hend
  have ht := h e hend
  refine ⟨fun x hx hnew ho => ?_, fun id r r' hr hr' he hp => ?_⟩
  · obtain ⟨kinds, hlog, hkinds⟩ := (op.effect db).logs e
    rw [hlog] at hx
    rcases SeqLog.mem_appendAll hx with hx | ⟨hk, _⟩
    · exact absurd hx hnew
    · exact policyBlock_of_appends (hkinds _ hk) hends hlive ht ho
  · obtain ⟨r₁, hr₁, hstep⟩ := (op.effect db).items.row hr
    cases hr'.symm.trans hr₁
    have hid := Table.key_of_find? hr
    exact pending_of_itemStep hstep (hid ▸ hr) hlive (he ▸ ht) hp

end Steps

section Runs

variable [Chrono] (cfg : SchedulerConfig) (irOf : String → String → Option WorkflowIr)

theorem ended_are_terminal {c : EngineConfig} {ms : List EngineMove}
    (hms : writersOnLiveRuns.Obeyed (engine cfg irOf) c ms) (hc : EndedAreTerminal c.state.db) :
    EndedAreTerminal (c.run (engine cfg irOf) ms).state.db := by
  refine Config.run_inv (I := fun s => EndedAreTerminal s.db) ?_ ?_ (fun _ h => h) hms hc
  · rintro (op | nanos) s ha h
    · exact h.exec ha.1 ha.2
    · exact h
  · rintro β (op | op) s ha h
    · exact h.exec ha.1 ha.2
    · cases op <;> exact h

/-- While the writers that do not check it keep off terminal executions, nothing happens to a
finished run, at any move of any run. -/
theorem nothing_happens_to_finished_run (clock : Instant) (ms : List EngineMove) (m : EngineMove)
    (hms : writersOnLiveRuns.Obeyed (engine cfg irOf) (boot {} clock) (ms ++ [m])) :
    FinishedUntouched ((boot {} clock).run (engine cfg irOf) ms).state.db
      ((boot {} clock).run (engine cfg irOf) (ms ++ [m])).state.db := by
  obtain ⟨hms, hm⟩ := Rules.obeyed_concat.mp hms
  have hstart : EndedAreTerminal (boot {} clock).state.db := by
    rintro e ⟨x, hx, _⟩
    cases hx
  have hended := ended_are_terminal cfg irOf hms hstart
  rw [Config.run_concat]
  refine Config.step_rel (M := engine cfg irOf)
    (R := fun s t => EndedAreTerminal s.db → FinishedUntouched s.db t.db)
    (fun s _ => .refl s.db) ?_ ?_ (fun s _ => .refl s.db) hm hended
  · rintro (op | nanos) s ha h
    · exact .exec h ha.1 ha.2
    · exact .refl s.db
  · rintro β (op | op) s ha h
    · exact .exec h ha.1 ha.2
    · cases op <;> exact .refl s.db

end Runs

/-- A one-node run is claimed by a worker and cancelled while the worker is busy. -/
def cancelledRun : List EngineMove :=
  [.outside (.call startOne), .outside (.call (.claimWorkItem "w" ["tool"] none 1)),
    .outside (.call (.finishExecution 0 (.workflowCancelled none) .cancelled 2))]

theorem nothing_happens_to_finished_run_checked_commit :
    FinishedUntouched ((boot {} 0).run oneNodeEngine cancelledRun).state.db
      ((boot {} 0).run oneNodeEngine (cancelledRun ++ [.outside (.call
        (.commitTurnUnlessTerminal 1 1 0 (.nodeCompleted "a" emptyResult) true 3))])).state.db := by
  refine @nothing_happens_to_finished_run firstDay {} _ 0 cancelledRun _ ?_
  exact ⟨⟨⟨⟨rfl, rfl⟩, rfl, rfl⟩, trivial⟩, ⟨trivial, trivial⟩, ⟨rfl, trivial⟩, ⟨rfl, trivial⟩,
    trivial⟩

/-- The in-process worker's commit does not look at the status: its `NodeCompleted` follows the
`WorkflowCancelled`. -/
theorem commit_after_cancel :
    ¬ FinishedUntouched ((boot {} 0).run oneNodeEngine cancelledRun).state.db
      ((boot {} 0).run oneNodeEngine (cancelledRun ++ [.outside (.call
        (.commitTurn 1 1 0 (.nodeCompleted "a" emptyResult) true 3))])).state.db := by
  intro h
  have hend : ∃ x ∈ (((boot {} 0).run oneNodeEngine cancelledRun).state.db.events 0).entries,
      x.kind.endsRun = true := ⟨⟨3, .workflowCancelled none⟩, .tail _ (.tail _ (.head _)), rfl⟩
  have hold : ∀ x ∈ (((boot {} 0).run oneNodeEngine cancelledRun).state.db.events 0).entries,
      x.sequence ≤ 3 := by decide
  have hblock := (h 0 hend).1 ⟨4, .nodeCompleted "a" emptyResult⟩
    (.tail _ (.tail _ (.tail _ (.head _)))) (fun hx => absurd (hold _ hx) (by decide)) rfl
  cases hblock

end JamJet
