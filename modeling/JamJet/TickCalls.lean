import JamJet.Engine

/-! Which calls each part of a tick can come to make, and the rule for the tick as a whole.  A
proof about one part of the tick passes over the others by these lists. -/

namespace JamJet.Scheduler

open AtomicCalls

/-- The calls of the sweep of expired leases. -/
inductive Sweeps : {β : Type} → SchedOp β → Prop
  | utcNow : Sweeps (.inr .utcNow)
  | selectExpired (now : Instant) : Sweeps (.inl (.selectExpired now))
  | sweepDeadLetter (item : WorkItemRow) : Sweeps (.inl (.sweepDeadLetter item))
  | insertDeadLetter (row : DeadLetterRow) : Sweeps (.inl (.insertDeadLetter row))
  | sweepRequeue (item : WorkItemRow) (now : Instant) : Sweeps (.inl (.sweepRequeue item now))

/-- The calls that record what the sweep did. -/
inductive SweepRecords : {β : Type} → SchedOp β → Prop
  | latestSequence (e : ExecutionId) : SweepRecords (.inl (.latestSequence e))
  | nodeFailed (e : ExecutionId) (node : NodeId) (error : String) (attempt : ℕ)
      (retryable : Bool) :
      SweepRecords (.inl (.appendEvent e (.nodeFailed node error attempt retryable)))
  | retryScheduled (e : ExecutionId) (node : NodeId) (attempt delayMs : ℕ) :
      SweepRecords (.inl (.appendEvent e (.retryScheduled node attempt delayMs)))

/-- The calls that record a passed deadline, a rejected node or a stall. -/
inductive Records (e : ExecutionId) : {β : Type} → SchedOp β → Prop
  | utcNow : Records e (.inr .utcNow)
  | getEvents : Records e (.inl (.getEvents e))
  | executionTenant : Records e (.inl (.executionTenant e))
  | sealApprovalRecord (event : Event) (tenantId : String) :
      Records e (.inr (.sealApprovalRecord e event tenantId))
  | auditSealFailed (sequence : EventSequence) (tag error : String) :
      Records e (.inl (.appendEvent e (.auditSealFailed sequence tag error)))
  | approvalExpired (node : NodeId) (sequence : EventSequence) (expiresAt : Instant)
      (principal : String) (condition : List Event → Bool) :
      Records e (.inl (.appendEventIf e (.approvalExpired node sequence expiresAt principal)
        condition))
  | approvalEscalated (node : NodeId) (sequence : EventSequence) (escalateAt expiresAt : Instant)
      (condition : List Event → Bool) :
      Records e (.inl (.appendEventIf e (.approvalEscalated node sequence escalateAt expiresAt)
        condition))
  | runStalled (reason : String) (condition : List Event → Bool) :
      Records e (.inl (.appendEventIf e (.runStalled reason) condition))
  | latestSequence : Records e (.inl (.latestSequence e))
  | nodeFailed (node : NodeId) (error : String) :
      Records e (.inl (.appendEvent e (.nodeFailed node error 0 false)))

/-- The calls of the skip cascade. -/
inductive Skips (e : ExecutionId) : {β : Type} → SchedOp β → Prop
  | latestSequence : Skips e (.inl (.latestSequence e))
  | nodeSkipped (node : NodeId) :
      Skips e (.inl (.appendEvent e (.nodeSkipped node "branch not taken")))

/-- The calls of the dispatch loop. -/
inductive Dispatches (e : ExecutionId) : {β : Type} → SchedOp β → Prop
  | utcNow : Dispatches e (.inr .utcNow)
  | latestSequence : Dispatches e (.inl (.latestSequence e))
  | nodeScheduled (node : NodeId) (queueType : String) :
      Dispatches e (.inl (.appendEvent e (.nodeScheduled node queueType)))
  | enqueueWorkItem (item : NewWorkItem) (now : Instant) (he : item.executionId = e) :
      Dispatches e (.inl (.enqueueWorkItem item now))

/-- The calls that end a run. -/
inductive Finishes (e : ExecutionId) : {β : Type} → SchedOp β → Prop
  | utcNow : Finishes e (.inr .utcNow)
  | finish (kind : EventKind) (status : WorkflowStatus) (now : Instant)
      (hk : kind.endsRun = true) : Finishes e (.inl (.finishExecution e kind status now))
  | dropProgress : Finishes e (.inr (.dropProgress e))

/-- The calls of dispatch and completion. -/
inductive Closes (e : ExecutionId) : {β : Type} → SchedOp β → Prop
  | dispatches {β : Type} {op : SchedOp β} (h : Dispatches e op) : Closes e op
  | finishes {β : Type} {op : SchedOp β} (h : Finishes e op) : Closes e op

/-- The calls that bring the cached progress up to date. -/
inductive Reads (e : ExecutionId) : {β : Type} → SchedOp β → Prop
  | getProgress : Reads e (.inr (.getProgress e))
  | getEventsSince (sequence : EventSequence) : Reads e (.inl (.getEventsSince e sequence))
  | setProgress (p : ExecProgress) : Reads e (.inr (.setProgress e p))

/-- The calls made for one execution. -/
inductive Advances (e : ExecutionId) : {β : Type} → SchedOp β → Prop
  | loadWorkflow (workflowId workflowVersion : String) :
      Advances e (.inr (.loadWorkflow workflowId workflowVersion))
  | reads {β : Type} {op : SchedOp β} (h : Reads e op) : Advances e op
  | records {β : Type} {op : SchedOp β} (h : Records e op) : Advances e op
  | skips {β : Type} {op : SchedOp β} (h : Skips e op) : Advances e op
  | closes {β : Type} {op : SchedOp β} (h : Closes e op) : Advances e op

section Lists

variable {ok : {β : Type} → SchedOp β → Prop} {e : ExecutionId}

theorem within_appendNext {kind : EventKind} (hl : ok (.inl (.latestSequence e)))
    (ha : ok (.inl (.appendEvent e kind))) : (appendNext e kind).Within ok := by
  unfold appendNext backend
  refine (Prog.within_perform.mpr hl).bind fun _ => ?_
  exact (Prog.within_perform.mpr ha).bind fun _ => Prog.within_pure ()

theorem within_reclaimRow (result : ReclaimResult) (row : WorkItemRow) :
    (reclaimRow result row).Within Sweeps := by
  unfold reclaimRow backend here
  dsimp only
  split
  · refine (Prog.within_perform.mpr (.sweepDeadLetter _)).bind fun settled => ?_
    cases settled with
    | true =>
      refine (Prog.within_perform.mpr .utcNow).bind fun _ => ?_
      exact (Prog.within_perform.mpr (.insertDeadLetter _)).bind fun _ => Prog.within_pure _
    | false => exact Prog.within_pure _
  · refine (Prog.within_perform.mpr .utcNow).bind fun _ => ?_
    refine (Prog.within_perform.mpr (.sweepRequeue _ _)).bind fun requeued => ?_
    cases requeued <;> exact Prog.within_pure _

theorem within_reclaimRows : reclaimRows.Within Sweeps := by
  unfold reclaimRows backend here
  refine (Prog.within_perform.mpr .utcNow).bind fun _ => ?_
  refine (Prog.within_perform.mpr (.selectExpired _)).bind fun rows => ?_
  exact Prog.Within.foldlM within_reclaimRow rows {}

theorem within_recordRetry (item : WorkItemRow) : (recordRetry item).Within SweepRecords := by
  unfold recordRetry
  refine (within_appendNext (.latestSequence _) (.nodeFailed _ _ _ _ _)).bind fun _ => ?_
  exact within_appendNext (.latestSequence _) (.retryScheduled _ _ _ _)

theorem within_recordExhausted (item : WorkItemRow) :
    (recordExhausted item).Within SweepRecords :=
  within_appendNext (.latestSequence _) (.nodeFailed _ _ _ _ _)

theorem within_reclaimExpiredLeases :
    reclaimExpiredLeases.Within fun op => Sweeps op ∨ SweepRecords op := by
  unfold reclaimExpiredLeases
  refine (within_reclaimRows.mono fun _ => .inl).bind fun reclaimed => ?_
  refine ((Prog.Within.forEach within_recordRetry _).mono fun _ => .inr).bind fun _ => ?_
  exact (Prog.Within.forEach within_recordExhausted _).mono fun _ => .inr

theorem within_recordSealGap (event : Event) (error : String)
    (ha : ∀ sequence tag error,
      ok (.inl (.appendEvent e (.auditSealFailed sequence tag error)))) :
    (recordSealGap e event error).Within ok := by
  unfold recordSealGap backend
  exact (Prog.within_perform.mpr (ha _ _ _)).attempt.bind fun _ => Prog.within_pure ()

theorem within_sealEvent (cfg : SchedulerConfig) (event : Event)
    (ht : ok (.inl (.executionTenant e)))
    (hs : ∀ event tenantId, ok (.inr (.sealApprovalRecord e event tenantId)))
    (ha : ∀ sequence tag error,
      ok (.inl (.appendEvent e (.auditSealFailed sequence tag error)))) :
    (sealEvent cfg e event).Within ok := by
  unfold sealEvent backend here
  split
  · refine (Prog.within_perform.mpr ht).attempt.bind fun tenant => ?_
    split
    · refine (Prog.within_perform.mpr (hs _ _)).attempt.bind fun reply => ?_
      split
      · exact Prog.within_pure ()
      · exact within_recordSealGap _ _ ha
    · exact within_recordSealGap _ _ ha
    · exact within_recordSealGap _ _ ha
  · exact Prog.within_pure ()

theorem within_applyDeadline [Chrono] (cfg : SchedulerConfig) (sweep : DeadlineSweep)
    (action : Approvals.DeadlineAction) : (applyDeadline cfg e sweep action).Within (Records e) := by
  have hseal : ∀ event, (sealEvent cfg e event).Within (Records e) := fun event =>
    within_sealEvent cfg event .executionTenant .sealApprovalRecord .auditSealFailed
  unfold applyDeadline backend
  cases action with
  | expire node sequence expiresAt =>
    refine (Prog.within_perform.mpr (.approvalExpired _ _ _ _ _)).bind fun reply => ?_
    split
    · exact (hseal _).bind fun _ => Prog.within_pure _
    · exact Prog.within_pure _
  | escalate node sequence escalateAt expiresAt =>
    refine (Prog.within_perform.mpr (.approvalEscalated _ _ _ _ _)).bind fun reply => ?_
    split
    · exact (hseal _).bind fun _ => Prog.within_pure _
    · exact Prog.within_pure _

theorem within_sweepDeadlines [Chrono] (cfg : SchedulerConfig) (progress : ExecProgress) :
    (sweepDeadlines cfg e progress).Within (Records e) := by
  unfold sweepDeadlines sweepApprovalDeadlines backend here
  split
  · refine (Prog.within_perform.mpr .utcNow).bind fun now => ?_
    refine Prog.Within.bind (Prog.Within.attempt ?_) fun _ => Prog.within_pure ()
    refine (Prog.within_perform.mpr .getEvents).bind fun events => ?_
    exact Prog.Within.foldlM (within_applyDeadline cfg) _ {}
  · exact Prog.within_pure ()

theorem within_failRejected (order : HashOrder NodeId) (progress : ExecProgress) :
    (failRejected order e progress).Within (Records e) :=
  Prog.Within.forEach (fun _ => within_appendNext .latestSequence (.nodeFailed _ _)) _

theorem within_recordStall (progress : ExecProgress) :
    (recordStall e progress).Within (Records e) := by
  unfold recordStall backend
  split
  · exact Prog.within_pure ()
  · exact (Prog.within_perform.mpr (.runStalled _ _)).bind fun _ => Prog.within_pure ()

theorem within_skipNode [Chrono] (progress : ExecProgress) (node : NodeId) :
    (skipNode e progress node).Within (Skips e) := by
  unfold skipNode backend
  refine (Prog.within_perform.mpr .latestSequence).bind fun latest => ?_
  exact (Prog.within_perform.mpr (.nodeSkipped node)).bind fun _ => Prog.within_pure _

theorem within_skipCascade [Chrono] (order : HashOrder NodeId) (ir : WorkflowIr) (passes : ℕ)
    (progress : ExecProgress) : (skipCascade order ir e passes progress).Within (Skips e) := by
  induction passes generalizing progress with
  | zero => exact Prog.within_pure _
  | succ passes ih =>
    unfold skipCascade
    split
    · exact Prog.within_pure _
    · exact (Prog.Within.foldlM within_skipNode _ _).bind ih

theorem within_dispatchNode (ir : WorkflowIr) (workflowId workflowVersion : String)
    (progress : ExecProgress) (nodeId : NodeId) (node : NodeDef) :
    (dispatchNode ir e workflowId workflowVersion progress nodeId node).Within (Dispatches e) := by
  unfold dispatchNode backend here
  refine (within_appendNext .latestSequence (.nodeScheduled _ _)).bind fun _ => ?_
  refine (Prog.within_perform.mpr .utcNow).bind fun now => ?_
  exact (Prog.within_perform.mpr (.enqueueWorkItem _ _ rfl)).bind fun _ => Prog.within_pure ()

theorem within_dispatch (cfg : SchedulerConfig) (ir : WorkflowIr)
    (workflowId workflowVersion : String) (progress : ExecProgress) (nodes : List NodeId)
    (enqueued : ℕ) :
    (dispatch cfg ir e workflowId workflowVersion progress nodes enqueued).Within
      (Dispatches e) := by
  induction nodes generalizing enqueued with
  | nil => exact Prog.within_pure _
  | cons nodeId rest ih =>
    unfold dispatch
    split
    · exact Prog.within_pure _
    · split
      · exact Prog.within_pure _
      · split
        · exact ih _
        · split
          · split
            · exact (within_dispatchNode _ _ _ _ _ _).bind fun _ => ih _
            · exact ih _
          · exact ih _

theorem within_readProgress [Chrono] : (readProgress e).Within (Reads e) := by
  unfold readProgress backend here
  refine (Prog.within_perform.mpr .getProgress).bind fun cached => ?_
  refine (Prog.within_perform.mpr (.getEventsSince _)).bind fun events => ?_
  exact (Prog.within_perform.mpr (.setProgress _)).bind fun _ => Prog.within_pure _

theorem outcome_endsRun (order : HashOrder NodeId) (progress : ExecProgress) :
    (outcome order progress).2.endsRun = true := by
  unfold outcome
  split <;> rfl

theorem within_finishIfDone (order : HashOrder NodeId) (progress : ExecProgress) (enqueued : ℕ) :
    (finishIfDone order e progress enqueued).Within (Finishes e) := by
  unfold finishIfDone backend here
  split
  · refine (Prog.within_perform.mpr .utcNow).bind fun now => ?_
    refine (Prog.within_perform.mpr (.finish _ _ _ (outcome_endsRun order progress))).bind
      fun _ => ?_
    exact Prog.within_perform.mpr .dropProgress
  · exact Prog.within_pure ()

theorem within_dispatchAndFinish (cfg : SchedulerConfig) (order : HashOrder NodeId)
    (ir : WorkflowIr) (workflowId workflowVersion : String) (progress : ExecProgress) :
    (dispatchAndFinish cfg order ir e workflowId workflowVersion progress).Within (Closes e) := by
  unfold dispatchAndFinish
  split
  · exact Prog.within_pure ()
  · refine ((within_dispatch cfg ir _ _ progress _ 0).mono fun _ => .dispatches).bind fun _ => ?_
    exact (within_finishIfDone order progress _).mono fun _ => .finishes

theorem within_advance [Chrono] (cfg : SchedulerConfig) (order : HashOrder NodeId)
    (ir : WorkflowIr) (workflowId workflowVersion : String) (progress : ExecProgress) :
    (advance cfg order ir e workflowId workflowVersion progress).Within (Advances e) := by
  unfold advance
  refine ((within_sweepDeadlines cfg progress).mono fun _ => .records).bind fun _ => ?_
  refine ((within_failRejected order progress).mono fun _ => .records).bind fun _ => ?_
  refine ((within_skipCascade order ir _ progress).mono fun _ => .skips).bind fun progress => ?_
  refine Prog.Within.bind (Prog.within_perform.mpr (.reads (.setProgress _))) fun _ => ?_
  exact (within_dispatchAndFinish cfg order ir _ _ progress).mono fun _ => .closes

theorem within_scheduleRunnableNodes [Chrono] (cfg : SchedulerConfig) (order : HashOrder NodeId)
    (workflowId workflowVersion : String) :
    (scheduleRunnableNodes cfg order e workflowId workflowVersion).Within (Advances e) := by
  unfold scheduleRunnableNodes here
  refine (Prog.within_perform.mpr (.loadWorkflow _ _)).bind fun ir => ?_
  split
  · exact Prog.within_pure ()
  · refine (within_readProgress.mono fun _ => .reads).bind fun progress => ?_
    split
    · exact (within_recordStall progress).mono fun _ => .records
    · exact within_advance cfg order _ _ _ progress

end Lists

section Tick

variable [Chrono] {cfg : SchedulerConfig} {irOf : String → String → Option WorkflowIr}
  {U : EngineRules} {S : Spec SchedOp Sys} {order : HashOrder NodeId} {s : Sys}

/-- The tick as a whole.  `R` holds between its parts, and `X` is what the list of executions
says about each row, for good. -/
theorem wp_tick (R : Sys → Prop) (X : ExecutionRow → Sys → Prop)
    (hR : ∀ s t, R s → S.rely s t → S.inv t → R t)
    (hXrely : ∀ x s t, X x s → S.rely s t → X x t)
    (hXcall : ∀ x {β : Type} (op : SchedOp β) s, X x s → X x ((engine cfg irOf).handle op s).2)
    (hsweep : ∀ s, R s → S.inv s → wp (engine cfg irOf) U S reclaimExpiredLeases (fun _ => R) s)
    (hlist : ∀ s, R s → S.inv s → S.good (.inl (.listExecutions .running 100 0)) s ∧
      (U.callOk (.inl (.listExecutions .running 100 0)) s →
        R ((engine cfg irOf).handle (.inl (.listExecutions .running 100 0)) s).2 ∧
        ∀ x ∈ s.db.listExecutions .running 100 0,
          X x ((engine cfg irOf).handle (.inl (.listExecutions .running 100 0)) s).2))
    (hrun : ∀ x s, R s → X x s → S.inv s → wp (engine cfg irOf) U S
      (scheduleRunnableNodes cfg order x.executionId x.workflowId x.workflowVersion)
      (fun _ => R) s)
    (h : R s) : wp (engine cfg irOf) U S (tick cfg order) (fun _ => R) s := by
  unfold tick
  apply wp_bind
  apply wp_attempt
  apply wp_of_rely
  intro t ht hit
  refine wp_mono (fun r u _ hu => ?_) (hsweep t (hR s t h ht hit) hit)
  change wp (engine cfg irOf) U S _ _ u
  apply wp_call
  intro v hv hiv
  have hRv := hR u v hu hv hiv
  obtain ⟨hgood, hreply⟩ := hlist v hRv hiv
  refine ⟨hgood, fun hc => ?_, fun _ _ e w hw hiw => hR v w hRv hw hiw⟩
  obtain ⟨hRw, hXw⟩ := hreply hc
  change wp (engine cfg irOf) U S _ _ _
  refine wp_foldlM (fun rows _ t => R t ∧ ∀ x ∈ rows, X x t) ?_ ?_ ?_ ⟨hRw, hXw⟩
  · intro x rows _ w hw hiw
    have hkept := wp_keep (X := fun t => ∀ y ∈ rows, X y t)
      (fun a b ha hab y hy => hXrely y a b (ha y hy) hab)
      (fun op a ha y hy => hXcall y op a (ha y hy))
      (hrun x w hw.1 (hw.2 x (by simp)) hiw) (fun y hy => hw.2 y (by simp [hy]))
    apply wp_bind
    apply wp_attempt
    refine wp_mono (fun r t _ ht => ?_) hkept
    exact fun u hu hiu => ⟨hR t u ht.1 hu hiu, fun y hy => hXrely y t u (ht.2 y hy) hu⟩
  · exact fun rows _ a b hab hrel hib =>
      ⟨hR a b hab.1 hrel hib, fun x hx => hXrely x a b (hab.2 x hx) hrel⟩
  · exact fun _ t ht _ => ht.1

end Tick

end JamJet.Scheduler
