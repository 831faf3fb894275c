import JamJet.SubmitApproval
import JamJet.TickCalls
import JamJet.TerminalRuns

/-! What becomes of an approval request under any interleaving of deciders, sweeps and
cancellations: one outcome at most, in time and on a live run.  The status of the run itself is
less well kept. -/

namespace JamJet

open AtomicCalls Approvals

namespace EventKind

/-- A decision on an approval request, its expiry or its escalation. -/
def isApprovalOutcome : EventKind → Bool
  | .approvalReceived .. | .approvalExpired .. | .approvalEscalated .. => true
  | _ => false

/-- The event resolves the request that `n` made at `r`. -/
def resolves (n : NodeId) (r : EventSequence) : EventKind → Bool
  | .approvalReceived m answer => m = n ∧ answer.requestSequence = some r
  | .approvalExpired m requestSequence _ _ => m = n ∧ requestSequence = r
  | _ => false

/-- The event escalates the request that `n` made at `r`. -/
def escalates (n : NodeId) (r : EventSequence) : EventKind → Bool
  | .approvalEscalated m requestSequence _ _ => m = n ∧ requestSequence = r
  | _ => false

theorem isApprovalOutcome_of {n : NodeId} {r : EventSequence} {kind : EventKind}
    (h : kind.resolves n r = true ∨ kind.escalates n r = true) : kind.isApprovalOutcome = true := by
  cases kind <;> simp_all [resolves, escalates, isApprovalOutcome]

theorem not_resolves_of_escalates {n m : NodeId} {r r' : EventSequence} {kind : EventKind}
    (h : kind.escalates n r = true) : kind.resolves m r' = false := by
  cases kind <;> simp_all [resolves, escalates]

theorem outcome_unique {n m : NodeId} {r r' : EventSequence} {kind : EventKind}
    (h : kind.resolves n r = true ∨ kind.escalates n r = true)
    (h' : kind.resolves m r' = true ∨ kind.escalates m r' = true) : m = n ∧ r' = r := by
  cases kind with
  | approvalReceived node answer =>
    simp only [resolves, escalates, decide_eq_true_eq, Bool.false_eq_true, or_false] at h h'
    exact ⟨h'.1.symm.trans h.1, Option.some.inj (h'.2.symm.trans h.2)⟩
  | approvalExpired node requestSequence | approvalEscalated node requestSequence =>
    simp only [resolves, escalates, decide_eq_true_eq, Bool.false_eq_true, or_false, false_or] at h h'
    exact ⟨h'.1.symm.trans h.1, h'.2.symm.trans h.2⟩
  | _ => simp [resolves, escalates] at h

end EventKind

/-- The outcomes in a log: each names the latest request of its node before it, and no request has
two resolutions, two escalations or an escalation after its resolution. -/
structure OneOutcome (log : List Event) : Prop where
  names : ∀ x ∈ log, x.kind.isApprovalOutcome = true →
    ∃ n r, x.kind.resolves n r = true ∨ x.kind.escalates n r = true
  latest : ∀ x ∈ log, ∀ n r, x.kind.resolves n r = true ∨ x.kind.escalates n r = true →
    r < x.sequence ∧ (∃ q ∈ log, (requestOf n q).isSome = true ∧ q.sequence = r) ∧
      ∀ q ∈ log, (requestOf n q).isSome = true → q.sequence < x.sequence → q.sequence ≤ r
  resolved_once : ∀ n r, ∀ x ∈ log, ∀ y ∈ log, x.kind.resolves n r = true →
    y.kind.resolves n r = true → x = y
  escalated_once : ∀ n r, ∀ x ∈ log, ∀ y ∈ log, x.kind.escalates n r = true →
    y.kind.escalates n r = true → x = y
  escalated_first : ∀ n r, ∀ x ∈ log, ∀ y ∈ log, x.kind.escalates n r = true →
    y.kind.resolves n r = true → x.sequence < y.sequence

theorem OneOutcome.nil : OneOutcome [] := by
  constructor <;> simp

section Status

variable [Chrono] {n : NodeId} {p : PendingApproval} {x : Event} {status : NodeApprovalStatus}

/-- How a node comes to be pending: by a new request, or by an event that leaves the old one
open. -/
theorem applyStatus_eq_pending (h : applyStatus n status x = .pending p) :
    requestOf n x = some p ∨
      status = .pending p ∧ requestOf n x = none ∧ x.kind.resolves n p.sequence = false := by
  obtain ⟨sequence, kind⟩ := x
  cases kind with
  | toolApprovalRequired m toolName approver context =>
    by_cases hm : m = n
    · simp only [applyStatus, hm, if_true, NodeApprovalStatus.pending.injEq] at h
      exact .inl (by simp [requestOf, hm, h])
    · simp only [applyStatus, hm, if_false] at h
      exact .inr ⟨h, by simp [requestOf, hm], rfl⟩
  | approvalReceived m answer =>
    by_cases hm : m = n
    · cases status <;> cases hd : answer.decision <;> simp_all [applyStatus]
    · simp only [applyStatus, hm, if_false] at h
      exact .inr ⟨h, rfl, by simp [EventKind.resolves, hm]⟩
  | approvalExpired m requestSequence expiresAt principal =>
    by_cases hm : m = n
    · cases status with
      | pending p' =>
        simp only [applyStatus, hm, if_true] at h
        split at h
        · cases h
        · rename_i hr
          cases h
          exact .inr ⟨rfl, rfl, by simp [EventKind.resolves, Ne.symm hr]⟩
      | _ => simp_all [applyStatus]
    · simp only [applyStatus, hm, if_false] at h
      exact .inr ⟨h, rfl, by simp [EventKind.resolves, hm]⟩
  | _ => exact .inr ⟨h, rfl, rfl⟩

omit [Chrono] in
theorem requestOf_sequence (h : requestOf n x = some p) : p.sequence = x.sequence := by
  obtain ⟨sequence, kind⟩ := x
  cases kind <;> simp only [requestOf, reduceCtorEq] at h
  split at h
  · cases h
    rfl
  · cases h

theorem pending_latest {log : List Event} (hlog : log.Pairwise fun a b => a.sequence < b.sequence)
    (h : log.foldl (applyStatus n) .notRequested = .pending p) :
    (∃ q ∈ log, requestOf n q = some p) ∧
      ∀ y ∈ log, p.sequence < y.sequence →
        requestOf n y = none ∧ y.kind.resolves n p.sequence = false := by
  -- Induction on the log from its end: what the last event does decides.
  induction log using List.reverseRecOn with
  | nil => cases h
  | append_singleton log x ih =>
    rw [List.foldl_append] at h
    obtain ⟨hlog, -, hlast⟩ := List.pairwise_append.mp hlog
    have hbelow : ∀ y ∈ log, y.sequence < x.sequence := fun y hy => hlast y hy x (by simp)
    rcases applyStatus_eq_pending h with hreq | ⟨hstatus, hnone, hres⟩
    · refine ⟨⟨x, by simp, hreq⟩, fun y hy hlt => ?_⟩
      rw [requestOf_sequence hreq] at hlt
      rcases List.mem_append.mp hy with hy | hy
      · exact absurd hlt (lt_asymm (hbelow y hy))
      · obtain rfl := List.mem_singleton.mp hy
        exact absurd hlt (lt_irrefl _)
    · obtain ⟨⟨q, hq, hp⟩, hafter⟩ := ih hlog hstatus
      refine ⟨⟨q, by simp [hq], hp⟩, fun y hy hlt => ?_⟩
      rcases List.mem_append.mp hy with hy | hy
      · exact hafter y hy hlt
      · obtain rfl := List.mem_singleton.mp hy
        exact ⟨hnone, hres⟩

theorem status_pending_of {log : List Event} (h : nodeApprovalStatus log n = .pending p) :
    log.foldl (applyStatus n) .notRequested = .pending p := by
  unfold nodeApprovalStatus at h
  split at h
  · cases h
  · exact h

theorem stillPending_iff {log : List Event} {r : EventSequence} : stillPending log n r = true ↔
    ∃ p, nodeApprovalStatus log n = .pending p ∧ p.sequence = r := by
  unfold stillPending
  split <;> simp_all

theorem stillOpen_iff {log : List Event} {r : EventSequence} {now : Instant} :
    stillOpen log n r now = true ↔
      ∃ p, nodeApprovalStatus log n = .pending p ∧ p.sequence = r ∧ p.expired now = false := by
  unfold stillOpen
  split <;> simp_all

end Status

section Logs

variable [Chrono] {l : EventLog} {kind : EventKind} {n : NodeId} {r : EventSequence}

omit [Chrono] in
theorem OneOutcome.append_quiet (h : OneOutcome l.entries) (hk : kind.isApprovalOutcome = false) :
    OneOutcome (l.append kind).entries := by
  have hold : ∀ x ∈ (l.append kind).entries, x.kind.isApprovalOutcome = true → x ∈ l.entries := by
    intro x hx hout
    rcases SeqLog.mem_append.mp hx with hx | rfl
    · exact hx
    · rw [hk] at hout
      cases hout
  have hres : ∀ x ∈ (l.append kind).entries, ∀ n r, x.kind.resolves n r = true → x ∈ l.entries :=
    fun x hx n r hr => hold x hx (EventKind.isApprovalOutcome_of (.inl hr))
  have hesc : ∀ x ∈ (l.append kind).entries, ∀ n r, x.kind.escalates n r = true → x ∈ l.entries :=
    fun x hx n r hr => hold x hx (EventKind.isApprovalOutcome_of (.inr hr))
  refine ⟨fun x hx hout => h.names x (hold x hx hout) hout, fun x hx n r hr => ?_,
    fun n r x hx y hy hxr hyr => h.resolved_once n r x (hres x hx n r hxr) y (hres y hy n r hyr) hxr hyr,
    fun n r x hx y hy hxr hyr => h.escalated_once n r x (hesc x hx n r hxr) y (hesc y hy n r hyr) hxr hyr,
    fun n r x hx y hy hxr hyr => h.escalated_first n r x (hesc x hx n r hxr) y (hres y hy n r hyr) hxr hyr⟩
  have hx' := hold x hx (EventKind.isApprovalOutcome_of hr)
  obtain ⟨hlt, ⟨q, hq, hreq⟩, hlatest⟩ := h.latest x hx' n r hr
  refine ⟨hlt, ⟨q, (SeqLog.extends_append l kind).mem hq, hreq⟩, fun q' hq' hreq' hlt' => ?_⟩
  rcases SeqLog.mem_append.mp hq' with hq' | rfl
  · exact hlatest q' hq' hreq' hlt'
  · have hle := SeqLog.le_latest hx'
    exact absurd hlt' (by simp only; omega)

omit [Chrono] in
theorem OneOutcome.appendAll_quiet {kinds : List EventKind} (h : OneOutcome l.entries)
    (hk : ∀ kind ∈ kinds, kind.isApprovalOutcome = false) :
    OneOutcome (l.appendAll kinds).entries := by
  induction kinds generalizing l with
  | nil => exact h
  | cons kind kinds ih =>
    exact ih (h.append_quiet (hk kind (by simp))) fun k hk' => hk k (by simp [hk'])

theorem OneOutcome.unresolved {p : PendingApproval} (h : OneOutcome l.entries)
    (hp : nodeApprovalStatus l.entries n = .pending p) :
    ∀ x ∈ l.entries, x.kind.resolves n p.sequence = false := by
  intro x hx
  obtain ⟨-, hafter⟩ := pending_latest l.increasing (status_pending_of hp)
  by_contra hres
  rw [Bool.not_eq_false] at hres
  have hlt := (h.latest x hx n p.sequence (.inl hres)).1
  rw [(hafter x hx hlt).2] at hres
  cases hres

/-- An outcome of the pending request is the only one of its kind. -/
theorem OneOutcome.append_pending {p : PendingApproval} (h : OneOutcome l.entries)
    (hp : nodeApprovalStatus l.entries n = .pending p)
    (hk : kind.resolves n p.sequence = true ∨ kind.escalates n p.sequence = true)
    (hesc : kind.escalates n p.sequence = true →
      ∀ x ∈ l.entries, x.kind.escalates n p.sequence = false) :
    OneOutcome (l.append kind).entries := by
  have hopen := h.unresolved hp
  obtain ⟨⟨q, hq, hreq⟩, hafter⟩ := pending_latest l.increasing (status_pending_of hp)
  have hqseq := requestOf_sequence hreq
  have hle : ∀ x ∈ l.entries, x.sequence ≤ l.latest := fun x hx => SeqLog.le_latest hx
  refine ⟨fun x hx hout => ?_, fun x hx m r hr => ?_, fun m r x hx y hy hxr hyr => ?_,
    fun m r x hx y hy hxr hyr => ?_, fun m r x hx y hy hxr hyr => ?_⟩
  · rcases SeqLog.mem_append.mp hx with hx | rfl
    · exact h.names x hx hout
    · exact ⟨n, p.sequence, hk⟩
  · rcases SeqLog.mem_append.mp hx with hx | rfl
    · obtain ⟨hlt, ⟨q', hq', hreq'⟩, hlatest⟩ := h.latest x hx m r hr
      refine ⟨hlt, ⟨q', (SeqLog.extends_append l kind).mem hq', hreq'⟩, fun y hy hy' hlt' => ?_⟩
      rcases SeqLog.mem_append.mp hy with hy | rfl
      · exact hlatest y hy hy' hlt'
      · exact absurd (hle x hx) (by simp only at hlt'; omega)
    · obtain ⟨rfl, rfl⟩ := EventKind.outcome_unique hk hr
      refine ⟨hqseq ▸ Nat.lt_succ_of_le (hle q hq), ⟨q, (SeqLog.extends_append l kind).mem hq,
        by simp [hreq], hqseq.symm⟩, fun y hy hy' hlt' => ?_⟩
      rcases SeqLog.mem_append.mp hy with hy | rfl
      · by_contra hlt
        rw [(hafter y hy (not_le.mp hlt)).1] at hy'
        cases hy'
      · exact absurd hlt' (lt_irrefl _)
  · rcases SeqLog.mem_append.mp hx with hx | rfl <;> rcases SeqLog.mem_append.mp hy with hy | rfl
    · exact h.resolved_once m r x hx y hy hxr hyr
    · obtain ⟨rfl, rfl⟩ := EventKind.outcome_unique hk (.inl hyr)
      rw [hopen x hx] at hxr
      cases hxr
    · obtain ⟨rfl, rfl⟩ := EventKind.outcome_unique hk (.inl hxr)
      rw [hopen y hy] at hyr
      cases hyr
    · rfl
  · rcases SeqLog.mem_append.mp hx with hx | rfl <;> rcases SeqLog.mem_append.mp hy with hy | rfl
    · exact h.escalated_once m r x hx y hy hxr hyr
    · obtain ⟨rfl, rfl⟩ := EventKind.outcome_unique hk (.inr hyr)
      rw [hesc hyr x hx] at hxr
      cases hxr
    · obtain ⟨rfl, rfl⟩ := EventKind.outcome_unique hk (.inr hxr)
      rw [hesc hxr y hy] at hyr
      cases hyr
    · rfl
  · rcases SeqLog.mem_append.mp hx with hx | rfl <;> rcases SeqLog.mem_append.mp hy with hy | rfl
    · exact h.escalated_first m r x hx y hy hxr hyr
    · exact Nat.lt_succ_of_le (hle x hx)
    · obtain ⟨rfl, rfl⟩ := EventKind.outcome_unique hk (.inr hxr)
      rw [hopen y hy] at hyr
      cases hyr
    · rw [EventKind.not_resolves_of_escalates hxr] at hyr
      cases hyr

end Logs

section Calls

variable [Chrono]

/-- An append of the sweep: an outcome goes in only while its request is pending, an escalation
only as the first. -/
def GuardedAppend (kind : EventKind) (condition : List Event → Bool) : Prop :=
  kind.isApprovalOutcome = true →
    (∀ n answer, kind ≠ .approvalReceived n answer) ∧
    ∃ n r, (kind.resolves n r = true ∨ kind.escalates n r = true) ∧
      ∀ log, condition log = true →
        stillPending log n r = true ∧ (kind.escalates n r = true → notEscalated log n r = true)

/-- How the processes of the server record outcomes: a decision while its request is open, the
outcomes of a sweep under their own conditions, and none any other way. -/
def Guarded {β : Type} : ServerOp β → Prop
  | .inl (.inl (.appendEventIf _ kind condition)) => GuardedAppend kind condition
  | .inl (.inl op) => ∀ kind ∈ op.kinds, kind.isApprovalOutcome = false
  | .inl (.inr _) => True
  | .inr (.appendEventIf _ kind condition) =>
      ∃ n answer r, kind = .approvalReceived n answer ∧ answer.requestSequence = some r ∧
        condition = fun now log => stillOpen log n r now

theorem guardedAppend_quiet {kind : EventKind} (hk : kind.isApprovalOutcome = false)
    (condition : List Event → Bool) : GuardedAppend kind condition := by
  intro h
  rw [hk] at h
  cases h

/-- An operation that records no outcome. -/
theorem guarded_quiet {β : Type} {op : BackendOp β}
    (h : ∀ kind ∈ op.kinds, kind.isApprovalOutcome = false) : Guarded (.inl (.inl op)) := by
  cases op with
  | appendEventIf e kind condition =>
    exact guardedAppend_quiet (h kind (by simp [BackendOp.kinds])) condition
  | _ => exact h

theorem guarded_silent {β : Type} {op : BackendOp β} (h : op.kinds = []) :
    Guarded (.inl (.inl op)) :=
  guarded_quiet (by simp [h])

theorem guarded_sweeps {β : Type} {op : SchedOp β}
    (h : Scheduler.Sweeps op ∨ Scheduler.SweepRecords op) : Guarded (.inl op) := by
  rcases h with h | h <;> cases h <;>
    first
      | trivial
      | exact guarded_quiet (by simp [BackendOp.kinds, EventKind.isApprovalOutcome])

theorem guarded_reads {e : ExecutionId} {β : Type} {op : SchedOp β} (h : Scheduler.Reads e op) :
    Guarded (.inl op) := by
  cases h <;> first | trivial | exact guarded_silent rfl

theorem guarded_skips {e : ExecutionId} {β : Type} {op : SchedOp β} (h : Scheduler.Skips e op) :
    Guarded (.inl op) := by
  cases h <;>
    first
      | trivial
      | exact guarded_quiet (by simp [BackendOp.kinds, EventKind.isApprovalOutcome])

theorem guarded_closes {e : ExecutionId} {β : Type} {op : SchedOp β} (h : Scheduler.Closes e op) :
    Guarded (.inl op) := by
  cases h with
  | dispatches h =>
    cases h <;>
      first
        | trivial
        | exact guarded_quiet (by simp [BackendOp.kinds, EventKind.isApprovalOutcome])
  | finishes h =>
    cases h with
    | finish kind status now hk =>
      refine guarded_quiet ?_
      cases kind <;> simp_all [BackendOp.kinds, EventKind.isApprovalOutcome, EventKind.endsRun]
    | _ => trivial

namespace Scheduler

variable (cfg : SchedulerConfig) (e : ExecutionId)

theorem guarded_applyDeadline (sweep : DeadlineSweep) (action : DeadlineAction) :
    (applyDeadline cfg e sweep action).Within fun op => Guarded (.inl op) := by
  have hseal : ∀ event, (sealEvent cfg e event).Within fun op => Guarded (.inl op) := by
    refine fun event => within_sealEvent cfg event (guarded_silent rfl) (fun _ _ => trivial)
      fun _ _ _ => guarded_quiet ?_
    simp [BackendOp.kinds, EventKind.isApprovalOutcome]
  unfold applyDeadline backend
  cases action with
  | expire node sequence expiresAt =>
    refine (Prog.within_perform.mpr ?_).bind fun reply => ?_
    · refine fun _ => ⟨by simp, node, sequence, .inl (by simp [EventKind.resolves]), fun log hlog => ?_⟩
      exact ⟨hlog, by simp [EventKind.escalates]⟩
    · split
      · exact (hseal _).bind fun _ => Prog.within_pure _
      · exact Prog.within_pure _
  | escalate node sequence escalateAt expiresAt =>
    refine (Prog.within_perform.mpr ?_).bind fun reply => ?_
    · refine fun _ => ⟨by simp, node, sequence, .inr (by simp [EventKind.escalates]), fun log hlog => ?_⟩
      rw [Bool.and_eq_true] at hlog
      exact ⟨hlog.1, fun _ => hlog.2⟩
    · split
      · exact (hseal _).bind fun _ => Prog.within_pure _
      · exact Prog.within_pure _

theorem guarded_sweepApprovalDeadlines (now : Instant) :
    (sweepApprovalDeadlines cfg e now).Within fun op => Guarded (.inl op) := by
  unfold sweepApprovalDeadlines backend
  refine (Prog.within_perform.mpr ?_).bind fun events => ?_
  · exact guarded_silent rfl
  · exact Prog.Within.foldlM (guarded_applyDeadline cfg e) _ {}

theorem guarded_advance (order : HashOrder NodeId) (ir : WorkflowIr)
    (workflowId workflowVersion : String) (progress : ExecProgress) :
    (advance cfg order ir e workflowId workflowVersion progress).Within
      fun op => Guarded (.inl op) := by
  unfold advance sweepDeadlines here
  refine Prog.Within.bind ?_ fun _ => ?_
  · split
    · refine (Prog.within_perform.mpr trivial).bind fun now => ?_
      exact (guarded_sweepApprovalDeadlines cfg e now).attempt.bind fun _ => Prog.within_pure ()
    · exact Prog.within_pure ()
  refine Prog.Within.bind ?_ fun _ => ?_
  · refine Prog.Within.forEach (fun _ => within_appendNext ?_ ?_) _ <;>
      exact guarded_quiet (by simp [BackendOp.kinds, EventKind.isApprovalOutcome])
  refine ((within_skipCascade order ir _ progress).mono fun _ => guarded_skips).bind
    fun progress => ?_
  refine (Prog.within_perform.mpr trivial).bind fun _ => ?_
  exact (within_dispatchAndFinish cfg order ir _ _ progress).mono fun _ => guarded_closes

theorem guarded_scheduleRunnableNodes (order : HashOrder NodeId)
    (workflowId workflowVersion : String) :
    (scheduleRunnableNodes cfg order e workflowId workflowVersion).Within
      fun op => Guarded (.inl op) := by
  unfold scheduleRunnableNodes recordStall here backend
  refine (Prog.within_perform.mpr trivial).bind fun ir => ?_
  split
  · exact Prog.within_pure ()
  · refine (within_readProgress.mono fun _ => guarded_reads).bind fun progress => ?_
    split
    · split
      · exact Prog.within_pure ()
      · exact (Prog.within_perform.mpr (guardedAppend_quiet rfl _)).bind fun _ => Prog.within_pure ()
    · exact guarded_advance cfg e order _ _ _ progress

theorem guarded_tick (order : HashOrder NodeId) :
    (tick cfg order).Within fun op => Guarded (.inl op) := by
  unfold tick backend
  refine (within_reclaimExpiredLeases.mono fun _ => guarded_sweeps).attempt.bind fun _ => ?_
  refine (Prog.within_perform.mpr ?_).bind fun running => ?_
  · exact guarded_silent rfl
  · refine Prog.Within.forEach (fun x => ?_) running
    exact (guarded_scheduleRunnableNodes cfg x.executionId order _ _).attempt.bind
      fun _ => Prog.within_pure ()

end Scheduler

namespace Api

theorem guarded_recordDecision (e : ExecutionId) (request : PendingApproval)
    (submission : ApprovalSubmission) (wasPaused : Bool) :
    (recordDecision e request submission wasPaused).Within Guarded := by
  unfold recordDecision backend utcNow appendEventIf
  refine (Prog.within_perform.mpr ⟨_, _, _, rfl, rfl, rfl⟩).bind fun reply => ?_
  split
  · exact Prog.within_pure _
  · refine (Prog.within_perform.mpr ?_).bind fun latest => ?_
    · exact guarded_silent rfl
    · refine (Prog.within_perform.mpr trivial).bind fun now => ?_
      split <;> exact Prog.within_pure _
  · dsimp only
    split
    · refine (Prog.within_perform.mpr trivial).bind fun now => ?_
      refine (Prog.within_perform.mpr ?_).bind fun _ => Prog.within_pure _
      exact guarded_silent rfl
    · exact Prog.within_pure _

theorem guarded_submitApproval (e : ExecutionId) (submission : ApprovalSubmission)
    (policy : ApprovalPolicy) : (submitApproval e submission policy).Within Guarded := by
  unfold submitApproval backend utcNow
  split
  · refine (Prog.within_perform.mpr ?_).bind fun execution => ?_
    · exact guarded_silent rfl
    dsimp only
    split
    · exact Prog.within_pure _
    · refine (Prog.within_perform.mpr ?_).bind fun events => ?_
      · exact guarded_silent rfl
      split
      · exact Prog.within_pure _
      · refine (Prog.within_perform.mpr trivial).bind fun now => ?_
        split
        · exact Prog.within_pure _
        · split
          · exact Prog.within_pure _
          · exact guarded_recordDecision e _ submission _
  · exact Prog.within_pure _

theorem guarded_cancelExecution (e : ExecutionId) : (cancelExecution e).Within Guarded := by
  unfold cancelExecution backend utcNow
  refine (Prog.within_perform.mpr ?_).bind fun execution => ?_
  · exact guarded_silent rfl
  split
  · trivial
  · split
    · exact Prog.within_pure _
    · refine (Prog.within_perform.mpr trivial).bind fun now => ?_
      refine (Prog.within_perform.mpr ?_).bind fun reply => ?_
      · exact guarded_quiet (by simp [BackendOp.kinds, EventKind.isApprovalOutcome])
      · split <;> exact Prog.within_pure _

end Api

theorem guarded_program (cfg : SchedulerConfig) (irOf : String → String → Option WorkflowIr)
    (job : ServerJob) : ((server cfg irOf).program job).Within Guarded := by
  cases job with
  | submitApproval e submission policy =>
    exact (Api.guarded_submitApproval e submission policy).bind fun _ => Prog.within_pure ()
  | cancelExecution e => exact (Api.guarded_cancelExecution e).bind fun _ => Prog.within_pure ()
  | tick order => exact (Scheduler.guarded_tick cfg order).mapOps fun _ h => h
  | sweepApprovalDeadlines e now =>
    refine Prog.Within.bind ?_ fun _ => Prog.within_pure ()
    exact (Scheduler.guarded_sweepApprovalDeadlines cfg e now).mapOps fun _ h => h

end Calls

section Outcomes

variable [Chrono]

/-- The outcomes recorded between two states are on live runs, and the decisions among them in
time, by the clock of their append. -/
def DecidesInTime (s s' : Sys) : Prop :=
  ∀ e, ∀ x ∈ (s'.db.events e).entries, x ∉ (s.db.events e).entries →
    x.kind.isApprovalOutcome = true →
      s.db.terminalStatusOf e = none ∧
      ∀ n answer, x.kind = .approvalReceived n answer →
        ∃ q ∈ (s.db.events e).entries, ∃ p, requestOf n q = some p ∧
          answer.requestSequence = some p.sequence ∧ p.expired s.clock = false

/-- What one step does with outcomes. -/
structure OutcomeStep (s s' : Sys) : Prop where
  keeps : (∀ e, OneOutcome (s.db.events e).entries) → ∀ e, OneOutcome (s'.db.events e).entries
  inTime : DecidesInTime s s'

theorem OutcomeStep.of_db {s s' : Sys} (h : s'.db = s.db) : OutcomeStep s s' where
  keeps hs := h ▸ hs
  inTime _ _ hx hnew := absurd (h ▸ hx) hnew

theorem OutcomeStep.of_quiet {s s' : Sys} {β : Type} {op : BackendOp β}
    (hdb : s'.db = (op.exec s.db).2) (hop : ∀ kind ∈ op.kinds, kind.isApprovalOutcome = false) :
    OutcomeStep s s' := by
  have hkinds : ∀ e kind, Appends s.db op e kind → kind.isApprovalOutcome = false := by
    intro e kind h
    rcases h.mem_kinds with hk | ⟨r, rfl | rfl⟩
    · exact hop kind hk
    · rfl
    · rfl
  refine ⟨fun hs e => ?_, fun e x hx hnew hout => ?_⟩
  · obtain ⟨kinds, hlog, happ⟩ := (op.effect s.db).logs e
    rw [hdb, hlog]
    exact (hs e).appendAll_quiet fun kind hk => hkinds e kind (happ kind hk)
  · obtain ⟨kinds, hlog, happ⟩ := (op.effect s.db).logs e
    rw [hdb, hlog] at hx
    rcases SeqLog.mem_appendAll hx with hx | ⟨hk, _⟩
    · exact absurd hx hnew
    · rw [hkinds e _ (happ _ hk)] at hout
      cases hout

theorem OutcomeStep.of_append {s s' : Sys} {e : ExecutionId} {kind : EventKind}
    {p : PendingApproval} {n : NodeId}
    (hdb : s'.db = s.db.setEvents e ((s.db.events e).append kind))
    (hlive : s.db.terminalStatusOf e = none)
    (hp : nodeApprovalStatus (s.db.events e).entries n = .pending p)
    (hk : kind.resolves n p.sequence = true ∨ kind.escalates n p.sequence = true)
    (hesc : kind.escalates n p.sequence = true →
      notEscalated (s.db.events e).entries n p.sequence = true)
    (htime : ∀ m answer, kind = .approvalReceived m answer → p.expired s.clock = false) :
    OutcomeStep s s' := by
  refine ⟨fun hs e' => ?_, fun e' x hx hnew _ => ?_⟩
  · by_cases he : e' = e
    · subst he
      rw [hdb, Db.setEvents_events_self]
      refine (hs e').append_pending hp hk fun hk' x hx => ?_
      have hnone := hesc hk'
      simp only [notEscalated, Bool.not_eq_true', List.any_eq_false] at hnone
      have hx' := hnone x hx
      unfold EventKind.escalates
      split
      · rename_i hkind
        simpa [hkind] using hx'
      · rfl
    · rw [hdb, Db.setEvents_events_of_ne _ he]
      exact hs e'
  · by_cases he : e' = e
    · subst he
      refine ⟨hlive, fun m answer hkind => ?_⟩
      rw [hdb, Db.setEvents_events_self] at hx
      rcases SeqLog.mem_append.mp hx with hx | rfl
      · exact absurd hx hnew
      · obtain ⟨⟨q, hq, hreq⟩, -⟩ :=
          pending_latest (s.db.events e').increasing (status_pending_of hp)
        cases hkind
        simp only [EventKind.resolves, EventKind.escalates, decide_eq_true_eq, Bool.false_eq_true,
          or_false] at hk
        obtain ⟨rfl, hseq⟩ := hk
        exact ⟨q, hq, p, hreq, hseq, htime m answer rfl⟩
    · rw [hdb, Db.setEvents_events_of_ne _ he] at hx
      exact absurd hx hnew

theorem OutcomeStep.of_guardedAppend {s s' : Sys} {e : ExecutionId} {kind : EventKind}
    {condition : List Event → Bool} (h : GuardedAppend kind condition)
    (hdb : s'.db = (s.db.appendEventIf e kind condition).2) : OutcomeStep s s' := by
  cases hout : kind.isApprovalOutcome with
  | false =>
    have hexec : s'.db = ((BackendOp.appendEventIf e kind condition).exec s.db).2 := hdb
    exact .of_quiet hexec (by simpa [BackendOp.kinds] using hout)
  | true =>
    obtain ⟨hnot, n, r, hk, hcond⟩ := h hout
    rcases Db.appendEventIf_cases s.db e kind condition with hs | ⟨hlive, hc, hs⟩
    · exact .of_db (hdb.trans hs)
    · obtain ⟨hpending, hesc⟩ := hcond _ hc
      obtain ⟨p, hp, rfl⟩ := stillPending_iff.mp hpending
      exact .of_append (hdb.trans hs) hlive hp hk hesc fun m answer hm => absurd hm (hnot m answer)

theorem OutcomeStep.of_decision {s s' : Sys} {e : ExecutionId} {n : NodeId}
    {answer : ApprovalAnswer} {r : EventSequence} (hr : answer.requestSequence = some r)
    (hdb : s'.db = (s.db.appendEventIf e (.approvalReceived n answer)
      fun log => stillOpen log n r s.clock).2) : OutcomeStep s s' := by
  rcases Db.appendEventIf_cases s.db e (.approvalReceived n answer)
    (fun log => stillOpen log n r s.clock) with hs | ⟨hlive, hc, hs⟩
  · exact .of_db (hdb.trans hs)
  · obtain ⟨p, hp, rfl, htime⟩ := stillOpen_iff.mp hc
    refine .of_append (hdb.trans hs) hlive hp (.inl ?_) ?_ fun _ _ _ => htime
    · simp [EventKind.resolves, hr]
    · simp [EventKind.escalates]

variable {cfg : SchedulerConfig} {irOf : String → String → Option WorkflowIr}

theorem OutcomeStep.of_call {s : Sys} {β : Type} {op : ServerOp β} (h : Guarded op) :
    OutcomeStep s (s.handleServer irOf op).2 := by
  rcases op with (op | op) | op
  · cases op with
    | appendEventIf e kind condition => exact .of_guardedAppend h rfl
    | _ => exact .of_quiet rfl h
  · exact .of_db (Sys.callLocal_db op s)
  · cases op with
    | appendEventIf e kind condition =>
      obtain ⟨n, answer, r, rfl, hr, rfl⟩ := h
      exact .of_decision hr rfl

/-- Decisions, expiries and escalations are recorded by the processes of the server alone. -/
def outcomesByServer : ServerRules where
  actOk a _ := match a with
    | .call op => ∀ kind ∈ op.kinds, kind.isApprovalOutcome = false
    | .setClock _ => True

/-- Whoever decides, sweeps or asks again, and by whatever clocks: each request has one outcome,
recorded in time and on a live run. -/
theorem one_outcome_per_request {s : Sys} {ms : List ServerMove}
    (hs : ∀ e, OneOutcome (s.db.events e).entries)
    (hms : outcomesByServer.ObeyedIn (server cfg irOf) (idlePool s) ms) :
    (∀ e, OneOutcome (((idlePool s).run (server cfg irOf) ms).state.db.events e).entries) ∧
    ∀ ms' m, ms' ++ [m] <+: ms →
      DecidesInTime ((idlePool s).run (server cfg irOf) ms').state
        ((idlePool s).run (server cfg irOf) (ms' ++ [m])).state := by
  have hact : ∀ a t, outcomesByServer.actOk a t → OutcomeStep t ((server cfg irOf).act a t) := by
    intro a t ha
    cases a with
    | call op => exact .of_quiet rfl ha
    | setClock now => exact .of_db rfl
  have hidle : Pool.AllWithin Guarded (idlePool s : ServerPool) := Pool.allWithin_idle s
  refine ⟨Pool.run_inv (I := fun t => ∀ e, OneOutcome (t.db.events e).entries)
    (guarded_program cfg irOf) (fun a t ha => (hact a t ha).keeps)
    (fun op t hop _ => (OutcomeStep.of_call hop).keeps) hms hidle hs, fun ms' m hpre => ?_⟩
  have hstep : OutcomeStep _ _ := Pool.run_rel (guarded_program cfg irOf) (fun t => .of_db rfl) hact
    (fun op t hop _ => .of_call hop) hms hidle hpre
  exact hstep.inTime

end Outcomes

abbrev oneNodeServer : Service ServerOp BackendError Unit Sys ServerAct ServerJob :=
  @server firstDay {} fun _ _ => some oneNodeIr

/-- An approval as a reviewer of a development server submits it. -/
def approveA : ApprovalSubmission where
  nodeId := some "a"
  userId := "reviewer"
  principal := none
  decision := .approved
  comment := none
  statePatch := none
  actionDigest := none
  devMode := true

/-- A run of one node that asked for approval. -/
def requested : List ServerMove :=
  [.outside (.call startOne),
    .outside (.call (.appendEvent 0 (.toolApprovalRequired "a" "tool" "ops" (.object []))))]

/-- Two deciders read the same request, and then both append. -/
def twoDeciders : List ServerMove :=
  requested ++
    [.spawn 0 (.submitApproval 0 approveA {}), .spawn 1 (.submitApproval 0 approveA {}),
      .advance 0, .advance 0, .advance 0, .advance 1, .advance 1, .advance 1,
      .advance 0, .advance 1]

theorem one_outcome_per_request_two_deciders :
    (∃ x ∈ (((idlePool {}).run oneNodeServer twoDeciders).state.db.events 0).entries,
      x.kind.resolves "a" 3 = true) ∧
    OneOutcome (((idlePool {}).run oneNodeServer twoDeciders).state.db.events 0).entries := by
  refine ⟨by decide, (@one_outcome_per_request firstDay {} _ {} _ (fun e => .nil) ?_).1 0⟩
  refine Pool.obeyedIn_of_acts (fun a ha s => ?_) _
  simp only [twoDeciders, requested, List.cons_append, List.nil_append, List.mem_cons,
    PoolMove.outside.injEq, reduceCtorEq, List.not_mem_nil, or_false] at ha
  rcases ha with rfl | rfl <;> simp [startOne, startRun, BackendOp.kinds, EventKind.isApprovalOutcome]

section Statuses

variable [Chrono] {cfg : SchedulerConfig} {irOf : String → String → Option WorkflowIr}

/-- A status is written over a live one only: no run ends between the append of a decision and the
change of status after it. -/
def flipsOnLiveRuns : ServerRules where
  actOk a s := match a with
    | .call op => s.db.FlipsLive op
    | .setClock _ => True
  callOk op s := match op with
    | .inl (.inl op) => s.db.FlipsLive op
    | _ => True

omit [Chrono] in
theorem terminalStatusOf_handle {s : Sys} {β : Type} {op : ServerOp β} {e : ExecutionId}
    (hop : flipsOnLiveRuns.callOk op s) (h : s.db.terminalStatusOf e ≠ none) :
    (s.handleServer irOf op).2.db.terminalStatusOf e ≠ none := by
  rcases op with (op | op) | op
  · exact terminalStatusOf_exec hop h
  · change (s.callLocal irOf op).2.db.terminalStatusOf e ≠ none
    rwa [Sys.callLocal_db]
  · cases op with
    | appendEventIf e' kind condition =>
      have hflips : s.db.FlipsLive (.appendEventIf e' kind (condition s.clock)) := trivial
      exact terminalStatusOf_exec hflips h

/-- A run that has ended does not come back. -/
theorem terminal_status_never_left {s : Sys} {ms ms' : List ServerMove} {e : ExecutionId}
    (hms : flipsOnLiveRuns.ObeyedIn (server cfg irOf) (idlePool s) (ms ++ ms'))
    (h : ∃ row, ((idlePool s).run (server cfg irOf) ms).state.db.executions.find? e = some row ∧
      row.status.isTerminal = true) :
    ∃ row, ((idlePool s).run (server cfg irOf) (ms ++ ms')).state.db.executions.find? e = some row ∧
      row.status.isTerminal = true := by
  rw [← terminalStatusOf_ne_none] at h ⊢
  rw [Pool.run_append]
  refine Pool.run_inv (I := fun t => t.db.terminalStatusOf e ≠ none) (guarded_program cfg irOf) ?_
    (fun op t _ hop => terminalStatusOf_handle hop) (Pool.obeyedIn_append.mp hms).2
    ((Pool.allWithin_idle s).run (guarded_program cfg irOf) ms) h
  intro a t ha ht
  cases a with
  | call op => exact terminalStatusOf_exec ha ht
  | setClock now => exact ht

end Statuses

/-- A run that an older release paused, with a request pending on it. -/
def pausedRun : List ServerMove :=
  requested ++ [.outside (.call (.updateExecutionStatus 0 .paused 0))]

/-- A decider reads the run as paused and appends; the run is cancelled; the decider goes on. -/
def lateFlip : List ServerMove :=
  [.spawn 0 (.submitApproval 0 approveA {}), .spawn 1 (.cancelExecution 0),
    .advance 0, .advance 0, .advance 0, .advance 0,
    .advance 1, .advance 1, .advance 1,
    .advance 0, .advance 0]

theorem cancelled_run_revived :
    (((idlePool {}).run oneNodeServer (pausedRun ++ lateFlip.take 9)).state.db.executions.find? 0).map
      (·.status) = some .cancelled ∧
    (((idlePool {}).run oneNodeServer (pausedRun ++ lateFlip)).state.db.executions.find? 0).map
      (·.status) = some .running := by
  decide

/-- The same two, the decider first, and a second decider after them. -/
def earlyFlip : List ServerMove :=
  [.spawn 0 (.submitApproval 0 approveA {}), .spawn 1 (.cancelExecution 0),
    .advance 0, .advance 0, .advance 0, .advance 0, .advance 0, .advance 0,
    .advance 1, .advance 1, .advance 1]

def secondDecider : List ServerMove :=
  [.spawn 2 (.submitApproval 0 approveA {}), .advance 2]

theorem terminal_status_never_left_cancelled :
    ∃ row, ((idlePool {}).run oneNodeServer
        ((pausedRun ++ earlyFlip) ++ secondDecider)).state.db.executions.find? 0 = some row ∧
      row.status.isTerminal = true := by
  refine @terminal_status_never_left firstDay {} _ {} (pausedRun ++ earlyFlip) secondDecider 0 ?_
    ⟨_, rfl, rfl⟩
  exact ⟨trivial, trivial, .inr rfl, trivial, trivial, trivial, trivial, trivial, trivial, trivial,
    .inr rfl, trivial, trivial, trivial, trivial, trivial, trivial⟩

end JamJet
