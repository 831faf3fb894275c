import JamJet.CalledParts
import JamJet.TickCalls

/-! Which executions one tick of the scheduler comes to.  It reads one page of the running
executions, the most recently updated first, and never asks for the next. -/

namespace JamJet

open AtomicCalls Scheduler

namespace Scheduler

section Onward

variable {e : ExecutionId}

/-- Every call but the load of a workflow, with which the work on an execution begins. -/
def Onward {β : Type} : SchedOp β → Prop
  | .inr (.loadWorkflow ..) => False
  | _ => True

theorem Records.onward {β : Type} {op : SchedOp β} (h : Records e op) : Onward op := by
  cases h <;> trivial

theorem Skips.onward {β : Type} {op : SchedOp β} (h : Skips e op) : Onward op := by
  cases h <;> trivial

theorem Reads.onward {β : Type} {op : SchedOp β} (h : Reads e op) : Onward op := by
  cases h <;> trivial

theorem Closes.onward {β : Type} {op : SchedOp β} (h : Closes e op) : Onward op := by
  cases h with
  | dispatches h | finishes h => cases h <;> trivial

theorem sweep_onward {β : Type} {op : SchedOp β} (h : Sweeps op ∨ SweepRecords op) : Onward op := by
  rcases h with h | h <;> cases h <;> trivial

end Onward

variable [Chrono] {cfg : SchedulerConfig} {irOf : String → String → Option WorkflowIr}
  {order : HashOrder NodeId} {s : Sys} {e : ExecutionId} {workflowId workflowVersion : String}

theorem sweep_executions {β : Type} {op : SchedOp β} (h : Sweeps op ∨ SweepRecords op) (s : Sys) :
    ((engine cfg irOf).handle op s).2.db.executions = s.db.executions := by
  rcases h with h | h
  · cases h with
    | sweepDeadLetter item =>
      simp only [engine, Sys.handle, Sys.callBackend, BackendOp.exec, Db.sweepDeadLetter,
        Db.settleIf]
      split <;> rfl
    | sweepRequeue item now =>
      simp only [engine, Sys.handle, Sys.callBackend, BackendOp.exec, Db.sweepRequeue,
        Db.settleIf]
      split <;> rfl
    | _ => rfl
  · have happend : ∀ e kind,
        ((engine cfg irOf).handle (.inl (.appendEvent e kind)) s).2.db.executions =
          s.db.executions := by
      intro e kind
      rcases handle_append cfg irOf s e kind with ⟨-, err, h⟩ | ⟨-, h⟩
      · rw [h]
      · rw [h]
        exact Db.setEvents_executions _
    cases h with
    | latestSequence e => rfl
    | nodeFailed e => exact happend e _
    | retryScheduled e => exact happend e _

theorem onward_advance (ir : WorkflowIr) (progress : ExecProgress) :
    (advance cfg order ir e workflowId workflowVersion progress).Within Onward := by
  unfold advance
  refine ((within_sweepDeadlines cfg progress).mono fun _ => Records.onward).bind fun _ => ?_
  refine ((within_failRejected order progress).mono fun _ => Records.onward).bind fun _ => ?_
  refine ((within_skipCascade order ir _ progress).mono fun _ => Skips.onward).bind
    fun progress => ?_
  refine Prog.Within.bind (Prog.within_perform.mpr trivial) fun _ => ?_
  exact (within_dispatchAndFinish cfg order ir _ _ progress).mono fun _ => Closes.onward

theorem scheduleRunnableNodes_head (cfg : SchedulerConfig) (order : HashOrder NodeId)
    (e : ExecutionId) (workflowId workflowVersion : String) :
    ∃ rest, scheduleRunnableNodes cfg order e workflowId workflowVersion =
        .call (.inr (.loadWorkflow workflowId workflowVersion)) rest ∧
      ∀ r, (rest r).Within Onward := by
  refine ⟨_, rfl, fun r => ?_⟩
  cases r with
  | error err => trivial
  | ok loaded =>
    cases loaded with
    | none => trivial
    | some ir =>
      refine (within_readProgress.mono fun _ => Reads.onward).bind fun progress => ?_
      split
      · exact (within_recordStall progress).mono fun _ => Records.onward
      · exact onward_advance ir progress

theorem scheduleRunnableNodes_injective {e' : ExecutionId} {workflowId' workflowVersion' : String}
    {k k' : Except BackendError Unit → Sched Unit}
    (h : (scheduleRunnableNodes cfg order e workflowId workflowVersion).attempt >>= k =
      (scheduleRunnableNodes cfg order e' workflowId' workflowVersion').attempt >>= k') :
    e = e' := by
  have hload : ∀ e workflowId workflowVersion (k : Except BackendError Unit → Sched Unit),
      (scheduleRunnableNodes cfg order e workflowId workflowVersion).attempt >>= k =
        .call (.inr (.loadWorkflow workflowId workflowVersion)) _ := fun _ _ _ _ => rfl
  rw [hload, hload] at h
  obtain ⟨-, -, hrest⟩ := Prog.call.inj h
  -- A loaded workflow is followed by the read of the execution's progress.
  have hread := congrFun (eq_of_heq hrest) (.ok (some ⟨∅, [], ∅⟩))
  obtain ⟨-, hop, -⟩ := Prog.call.inj hread
  cases eq_of_heq hop
  rfl

theorem sweep_keeps_executions (s : Sys) :
    (reclaimExpiredLeases.alone (engine cfg irOf).handle s).2.db.executions = s.db.executions :=
  Prog.Within.alone (I := fun t => t.db.executions = s.db.executions) within_reclaimExpiredLeases
    (fun _ t hop ht => (sweep_executions hop t).trans ht) rfl

theorem tick_eq : tick cfg order = reclaimExpiredLeases.attempt >>= fun _ =>
    backend (.listExecutions .running 100 0) >>= fun running =>
      Prog.attemptEach running fun x =>
        scheduleRunnableNodes cfg order x.executionId x.workflowId x.workflowVersion := rfl

theorem list_after_sweep (cfg : SchedulerConfig) (irOf : String → String → Option WorkflowIr)
    (s : Sys) :
    let t := (reclaimExpiredLeases.alone (engine cfg irOf).handle s).2
    ∃ u, (backend (.listExecutions .running 100 0)).alone (engine cfg irOf).handle t =
      (.ok (s.db.listExecutions .running 100 0), u) := by
  intro t
  have hpage : t.db.listExecutions .running 100 0 = s.db.listExecutions .running 100 0 := by
    rw [Db.listExecutions, Db.listExecutions, sweep_keeps_executions]
  exact ⟨_, Prod.ext (congrArg Except.ok hpage) rfl⟩

theorem calls_of_mem_page {x : ExecutionRow} (hx : x ∈ s.db.listExecutions .running 100 0) :
    Prog.Calls (engine cfg irOf).handle (tick cfg order) s
      (scheduleRunnableNodes cfg order x.executionId x.workflowId x.workflowVersion).attempt := by
  obtain ⟨u, hlist⟩ := list_after_sweep cfg irOf s
  let work (x : ExecutionRow) : Sched Unit :=
    scheduleRunnableNodes cfg order x.executionId x.workflowId x.workflowVersion
  have hloop : Prog.Calls (engine cfg irOf).handle
      (Prog.attemptEach (s.db.listExecutions .running 100 0) work) u (work x).attempt :=
    Prog.calls_attemptEach hx u
  obtain ⟨k, t, h⟩ := hloop
  refine ⟨k, t, ?_⟩
  rw [tick_eq]
  exact .second (Prog.alone_attempt _ _) (.second hlist h)

theorem mem_page_of_calls (h : Prog.Calls (engine cfg irOf).handle (tick cfg order) s
      (scheduleRunnableNodes cfg order e workflowId workflowVersion).attempt) :
    ∃ x ∈ s.db.listExecutions .running 100 0, x.executionId = e := by
  obtain ⟨k, t, h⟩ := h
  obtain ⟨rest, hhead, -⟩ := scheduleRunnableNodes_head cfg order e workflowId workflowVersion
  have hcall : (scheduleRunnableNodes cfg order e workflowId workflowVersion).attempt >>= k =
      .call (.inr (.loadWorkflow workflowId workflowVersion)) fun r => (rest r).attempt >>= k := by
    rw [hhead]
    rfl
  have hload : ¬ Onward (.inr (.loadWorkflow workflowId workflowVersion)) := id
  rw [tick_eq, hcall] at h
  have hsweep := h.of_attempt (within_reclaimExpiredLeases.mono fun _ => sweep_onward) hload
  obtain ⟨page, hpage, hloop⟩ := hsweep.of_within (Prog.within_perform.mpr trivial) hload
  obtain ⟨u, hlist⟩ := list_after_sweep cfg irOf s
  have hrows : page = s.db.listExecutions .running 100 0 := by
    have hreply := (congrArg Prod.fst hlist).symm.trans hpage
    exact (Except.ok.inj hreply).symm
  obtain ⟨x, hx, k', hx'⟩ := Prog.reaches_attemptEach hload (fun x _ =>
    have ⟨rest, hx, hrest⟩ := scheduleRunnableNodes_head cfg order x.executionId x.workflowId
      x.workflowVersion
    ⟨_, _, rest, hx, hrest⟩) hloop
  rw [← hcall] at hx'
  exact ⟨x, hrows ▸ hx, (scheduleRunnableNodes_injective hx').symm⟩

end Scheduler

/-- A page from the start holds every row of the status exactly when there are no more of them than
it has room for. -/
theorem Db.listExecutions_all_iff (db : Db) (status : WorkflowStatus) (limit : ℕ) :
    (∀ x ∈ db.executions.rows, x.status = status → x ∈ db.listExecutions status limit 0) ↔
      (db.executions.rows.filter fun x => x.status = status).length ≤ limit := by
  have hperm := List.perm_insertionSort (fun a b : ExecutionRow => b.updatedAt ≤ a.updatedAt)
    (db.executions.rows.filter fun x => x.status = status)
  have hnodup : (db.executions.rows.filter fun x => x.status = status).Nodup :=
    List.Nodup.filter _ (List.Nodup.of_map _ db.executions.nodup)
  rw [Db.listExecutions, List.drop_zero, ← hperm.length_eq]
  generalize (db.executions.rows.filter fun x => x.status = status).insertionSort
    (fun a b => b.updatedAt ≤ a.updatedAt) = sorted at hperm ⊢
  have hmem : ∀ x, x ∈ sorted ↔ x ∈ db.executions.rows ∧ x.status = status := by
    intro x
    simp [hperm.mem_iff]
  constructor
  · intro hall
    by_contra hlong
    have hlt : limit < sorted.length := by omega
    have hout : sorted[limit] ∉ sorted.take limit := by
      intro hin
      obtain ⟨i, hi, heq⟩ := List.mem_take_iff_getElem.mp hin
      have := (hperm.nodup_iff.mpr hnodup).getElem_inj_iff.mp heq
      omega
    obtain ⟨hrow, hstatus⟩ := (hmem sorted[limit]).mp (List.getElem_mem hlt)
    exact hout (hall _ hrow hstatus)
  · intro hshort x hx hstatus
    rw [List.take_of_length_le hshort]
    exact (hmem x).mpr ⟨hx, hstatus⟩

/-- One tick comes to the work on every running execution exactly when there are at most a hundred
of them. -/
theorem tick_schedules_every_running_iff [Chrono] (cfg : SchedulerConfig)
    (irOf : String → String → Option WorkflowIr) (order : HashOrder NodeId) (s : Sys) :
    (∀ x ∈ s.db.executions.rows, x.status = .running →
      Prog.Calls (engine cfg irOf).handle (tick cfg order) s
        (scheduleRunnableNodes cfg order x.executionId x.workflowId x.workflowVersion).attempt) ↔
    (s.db.executions.rows.filter fun x => x.status = .running).length ≤ 100 := by
  rw [← Db.listExecutions_all_iff]
  constructor
  · intro hall x hx hstatus
    obtain ⟨y, hy, hid⟩ := mem_page_of_calls (hall x hx hstatus)
    have hfind := Table.find?_of_mem (mem_listExecutions hy).1
    rw [hid, Table.find?_of_mem hx] at hfind
    cases hfind
    exact hy
  · intro hall x hx hstatus
    exact calls_of_mem_page (hall x hx hstatus)

/-- A hundred and one running executions, each updated later than the one before it. -/
def crowd : Table ExecutionId ExecutionRow (·.executionId) where
  rows := (List.range 101).map fun i => ⟨i, "wf", "1.0.0", .running, .object [], i, none, "default",
    none, 0⟩
  nodup := by
    rw [List.map_map]
    simpa [Function.comp_def] using List.nodup_range

/-- The one that waited longest is not come to. -/
theorem oldest_running_not_scheduled :
    crowd.find? 0 = some ⟨0, "wf", "1.0.0", .running, .object [], 0, none, "default", none, 0⟩ ∧
      ¬ Prog.Calls (@engine firstDay {} fun _ _ => some oneNodeIr).handle
        (@tick firstDay {} .sorted) { db := { executions := crowd } }
        (@scheduleRunnableNodes firstDay {} .sorted 0 "wf" "1.0.0").attempt := by
  refine ⟨rfl, fun h => ?_⟩
  obtain ⟨x, hx, hid⟩ := @mem_page_of_calls firstDay _ _ _ _ _ _ _ h
  have hpage : ∀ x ∈ ({ executions := crowd } : Db).listExecutions .running 100 0,
      x.executionId ≠ 0 := by
    decide +kernel
  exact hpage x hx hid

end JamJet
