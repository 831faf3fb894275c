import JamJet.Rejections

/-! Runs of one execution: its events and its ticks, each tick to its end, and the nodes the
rejection loop fails on the way. -/

namespace JamJet

open AtomicCalls Scheduler

namespace Scheduler

open ExecProgress

/-- The node an event fails for good. -/
def failedNode : EventKind → Option NodeId
  | .nodeFailed node _ _ false => some node
  | _ => none

theorem failedNode_eq_some {kind : EventKind} {node : NodeId} :
    failedNode kind = some node ↔ ∃ error attempt, kind = .nodeFailed node error attempt false := by
  constructor
  · intro h
    unfold failedNode at h
    split at h
    · cases h
      exact ⟨_, _, rfl⟩
    · cases h
  · rintro ⟨error, attempt, rfl⟩
    rfl

/-- The nodes failed by what was appended to a log. -/
def failures (before after : EventLog) : List NodeId :=
  (after.entries.drop before.entries.length).filterMap fun event => failedNode event.kind

theorem failures_appendAll (log : EventLog) (kinds : List EventKind) :
    failures log (log.appendAll kinds) = kinds.filterMap failedNode := by
  have hentries : ∃ more, (log.appendAll kinds).entries = log.entries ++ more ∧
      more.map (·.kind) = kinds := by
    induction kinds generalizing log with
    | nil => exact ⟨[], by simp, rfl⟩
    | cons kind kinds ih =>
      obtain ⟨more, hmore, hkinds⟩ := ih (log.append kind)
      refine ⟨⟨log.latest + 1, kind⟩ :: more, ?_, by simp [hkinds]⟩
      simpa [SeqLog.appendAll] using hmore
  obtain ⟨more, hmore, rfl⟩ := hentries
  simp [failures, hmore, List.filterMap_map]

/-- The nodes the rejection loop goes over. -/
def toFail (order : HashOrder NodeId) (p : ExecProgress) : List NodeId :=
  (order.walk p.rejected.keys).filter (· ∉ p.terminalFailed)

theorem mem_toFail {order : HashOrder NodeId} {p : ExecProgress} {node : NodeId} :
    node ∈ toFail order p ↔ p.Failing node := by
  simp [toFail, Failing, order.mem_walk, Finmap.mem_keys]

theorem nodup_toFail (order : HashOrder NodeId) (p : ExecProgress) : (toFail order p).Nodup :=
  (order.nodup _).filter _

variable [Chrono] {cfg : SchedulerConfig} {irOf : String → String → Option WorkflowIr}
  {order : HashOrder NodeId} {ir : WorkflowIr} {e : ExecutionId} {s t u : Sys}

/-- The progress a scheduler with nothing cached reads. -/
def logProgress (e : ExecutionId) (s : Sys) : ExecProgress := applyAll {} (s.db.events e).entries

/-- What the sweep of deadlines finds due; it looks only where a hold has a deadline. -/
def sweepDue (e : ExecutionId) (s : Sys) : List Approvals.DeadlineAction :=
  if ((logProgress e s).held ∩ (logProgress e s).deadlineRequests).Nonempty then
    Approvals.dueDeadlineActions (s.db.events e).entries s.clock
  else []

/-- A tick with nobody else about; its calls may still fail. -/
def aloneSpec : Spec SchedOp Sys where
  inv _ := True
  rely := Eq
  rely_refl _ := rfl
  rely_trans := Eq.trans
  good _ _ := True

/-- The tick on its way: what it has appended to the log it found, and what its failures are. -/
structure Ticking (e : ExecutionId) (log : EventLog) (failed : List NodeId) (s : Sys) : Prop where
  cached : ∀ p, s.progress e = some p → p.Coherent (s.db.events e)
  grown : ∃ kinds, s.db.events e = log.appendAll kinds ∧ kinds.filterMap failedNode = failed
  failsOpen : (logProgress e s).FailsOpen

namespace Ticking

variable {log : EventLog} {failed : List NodeId}

theorem start (hcached : ∀ p, s.progress e = some p → p.Coherent (s.db.events e))
    (h : (logProgress e s).FailsOpen) : Ticking e (s.db.events e) [] s :=
  ⟨hcached, ⟨[], rfl, rfl⟩, h⟩

theorem logProgress_append {kind : EventKind} (hlog : t.db.events e = (s.db.events e).append kind) :
    logProgress e t = (logProgress e s).apply ⟨(s.db.events e).latest + 1, kind⟩ := by
  rw [logProgress, hlog, SeqLog.entries_append, applyAll_append]
  rfl

theorem append (h : Ticking e log failed s) {kind : EventKind}
    (hkind : ¬ (logProgress e s).Spoils kind) (hprogress : t.progress = s.progress)
    (hlog : t.db.events e = (s.db.events e).append kind) :
    Ticking e log (failed ++ (failedNode kind).toList) t := by
  obtain ⟨kinds, hkinds, hfailed⟩ := h.grown
  refine ⟨fun p hp => ?_, ⟨kinds ++ [kind], ?_, ?_⟩, ?_⟩
  · rw [hlog]
    exact (h.cached p (hprogress ▸ hp)).extends (SeqLog.extends_append _ kind)
  · rw [hlog, hkinds, SeqLog.appendAll_concat]
  · cases hnode : failedNode kind <;> simp [hfailed, hnode]
  · rw [logProgress_append hlog]
    exact h.failsOpen.apply hkind

theorem same (h : Ticking e log failed s) (hprogress : t.progress = s.progress)
    (hlog : t.db.events e = s.db.events e) : Ticking e log failed t := by
  refine ⟨?_, ?_, ?_⟩
  · rw [hprogress, hlog]
    exact h.cached
  · rw [hlog]
    exact h.grown
  · rw [logProgress, hlog]
    exact h.failsOpen

theorem setProgress (h : Ticking e log failed s) {p : Option ExecProgress}
    (hp : ∀ q, p = some q → q.Coherent (s.db.events e)) :
    Ticking e log failed { s with progress := Function.update s.progress e p } := by
  refine ⟨fun q hq => hp q ?_, h.grown, h.failsOpen⟩
  have hself : Function.update s.progress e p e = some q := hq
  rwa [Function.update_self] at hself

end Ticking

variable (cfg irOf) in
theorem Ticking.ends_append {log : EventLog} {failed : List NodeId}
    (h : Ticking e log failed s) {kind : EventKind} (hkind : ¬ (logProgress e s).Spoils kind) :
    ends (fun _ => Ticking e log (failed ++ (failedNode kind).toList))
      (fun _ => Ticking e log failed)
      ((engine cfg irOf).handle (.inl (.appendEvent e kind)) s).1
      ((engine cfg irOf).handle (.inl (.appendEvent e kind)) s).2 := by
  rcases handle_append cfg irOf s e kind with ⟨-, err, herr⟩ | ⟨-, happ⟩
  · rw [herr]
    exact h
  · rw [happ]
    exact h.append hkind rfl (Db.setEvents_events_self _)

theorem wp_appendNext {log : EventLog} {failed : List NodeId} {kind : EventKind}
    (h : Ticking e log failed s) (hkind : ¬ (logProgress e s).Spoils kind) :
    wp (engine cfg irOf) {} aloneSpec (appendNext e kind)
      (ends (fun _ => Ticking e log (failed ++ (failedNode kind).toList))
        fun _ => Ticking e log failed) s := by
  unfold appendNext backend
  apply wp_call
  rintro t rfl -
  refine ⟨trivial, fun _ => ?_, fun _ _ err t ht _ => ht ▸ h⟩
  have hread : Ticking e log failed ((engine cfg irOf).handle (.inl (.latestSequence e)) s).2 :=
    h.same rfl rfl
  apply wp_call
  rintro t rfl -
  refine ⟨trivial, fun _ => ?_, fun _ _ err t ht _ => ht ▸ hread⟩
  refine ends_mono (fun _ ht => ?_) (fun _ ht u hu _ => ?_)
    (hread.ends_append cfg irOf hkind)
  · exact fun u hu _ => hu ▸ ht
  · exact hu ▸ ht

/-- The sweep on its way: it has appended nothing but its own events. -/
structure Sweeping (e : ExecutionId) (log : EventLog) (p : ExecProgress) (s : Sys) : Prop where
  ticking : Ticking e log [] s
  spoils : ∀ node r expiresAt principal,
    (logProgress e s).Spoils (.approvalExpired node r expiresAt principal) →
      p.Spoils (.approvalExpired node r expiresAt principal)

namespace Sweeping

variable {log : EventLog} {p : ExecProgress}

theorem append (h : Sweeping e log p s) {kind : EventKind} (hkind : FromSweep kind)
    (hspoils : ¬ (logProgress e s).Spoils kind) (hprogress : t.progress = s.progress)
    (hlog : t.db.events e = (s.db.events e).append kind) : Sweeping e log p t := by
  have hnone : failedNode kind = none := by
    cases kind <;> first | rfl | exact hkind.elim
  refine ⟨?_, fun node r expiresAt principal ht => h.spoils node r expiresAt principal ?_⟩
  · simpa [hnone] using h.ticking.append hspoils hprogress hlog
  · rw [Ticking.logProgress_append hlog] at ht
    exact spoils_of_sweep hkind ht

theorem same (h : Sweeping e log p s) (hprogress : t.progress = s.progress)
    (hlog : t.db.events e = s.db.events e) : Sweeping e log p t := by
  refine ⟨h.ticking.same hprogress hlog, ?_⟩
  rw [logProgress, hlog]
  exact h.spoils

variable (cfg irOf) in
theorem handle_appendIf (h : Sweeping e log p s) {kind : EventKind} (hkind : FromSweep kind)
    (hspoils : ¬ (logProgress e s).Spoils kind) (condition : List Event → Bool) :
    Sweeping e log p
      ((engine cfg irOf).handle (.inl (.appendEventIf e kind condition)) s).2 := by
  rcases Db.appendEventIf_cases s.db e kind condition with hsame | ⟨-, -, happ⟩
  · exact h.same rfl (congrArg (fun db : Db => db.events e) hsame)
  · refine h.append hkind hspoils rfl ?_
    exact (congrArg (fun db : Db => db.events e) happ).trans (Db.setEvents_events_self _)

end Sweeping

/-- The calls that seal an event. -/
inductive Seals (e : ExecutionId) : {β : Type} → SchedOp β → Prop
  | executionTenant : Seals e (.inl (.executionTenant e))
  | sealApprovalRecord (event : Event) (tenantId : String) :
      Seals e (.inr (.sealApprovalRecord e event tenantId))
  | auditSealFailed (sequence : EventSequence) (tag error : String) :
      Seals e (.inl (.appendEvent e (.auditSealFailed sequence tag error)))

theorem wp_sealEvent {log : EventLog} {p : ExecProgress} {event : Event}
    (h : Sweeping e log p s) :
    wp (engine cfg irOf) {} aloneSpec (sealEvent cfg e event) (fun _ => Sweeping e log p) s := by
  have hlist : (sealEvent cfg e event).Within (Seals e) :=
    within_sealEvent cfg event .executionTenant .sealApprovalRecord .auditSealFailed
  refine wp_mono (fun _ _ _ ht => ht.1) (wp_within hlist (fun _ _ hs hst _ => hst ▸ hs) ?_ h)
  intro β op u hop _ hu
  refine ⟨trivial, fun _ => ?_⟩
  cases hop with
  | executionTenant => exact hu.same rfl rfl
  | sealApprovalRecord event tenantId => exact hu.same rfl rfl
  | auditSealFailed sequence tag error =>
    rcases handle_append cfg irOf u e (.auditSealFailed sequence tag error) with
      ⟨-, err, herr⟩ | ⟨-, happ⟩
    · rw [herr]
      exact hu
    · rw [happ]
      have hkind : FromSweep (.auditSealFailed sequence tag error) := trivial
      exact hu.append hkind (fun hspoils => hspoils) rfl (Db.setEvents_events_self _)

theorem wp_sweepAppend {log : EventLog} {p : ExecProgress} {sweep swept : DeadlineSweep}
    (h : Sweeping e log p s) (kind : EventKind) (hkind : FromSweep kind)
    (hspoils : ¬ (logProgress e s).Spoils kind) (condition : List Event → Bool) :
    wp (engine cfg irOf) {} aloneSpec (do
      match ← backend (.appendEventIf e kind condition) with
      | .appended sequence =>
          sealEvent cfg e ⟨sequence, kind⟩
          return swept
      | _ => return sweep) (ends (fun _ => Sweeping e log p) fun _ => Sweeping e log p) s := by
  have hdone : ∀ (sweep : DeadlineSweep) (t : Sys), Sweeping e log p t →
      wp (engine cfg irOf) {} aloneSpec (pure sweep : Sched DeadlineSweep)
        (ends (fun _ => Sweeping e log p) fun _ => Sweeping e log p) t :=
    fun _ t ht u hu _ => hu ▸ ht
  have hsealed : ∀ (event : Event) (sweep : DeadlineSweep) (t : Sys), Sweeping e log p t →
      wp (engine cfg irOf) {} aloneSpec (sealEvent cfg e event >>= fun _ => pure sweep)
        (ends (fun _ => Sweeping e log p) fun _ => Sweeping e log p) t := by
    intro event sweep t ht
    refine wp_bind (wp_mono (fun r u _ hu => ?_) (wp_sealEvent ht))
    cases r with
    | error err => exact hu
    | ok _ => exact hdone sweep u hu
  apply wp_call
  rintro t rfl -
  refine ⟨trivial, fun _ => ?_, fun _ _ err t ht _ => ht ▸ h⟩
  have happ := h.handle_appendIf cfg irOf hkind hspoils condition
  generalize (engine cfg irOf).handle (.inl (.appendEventIf e kind condition)) s = reply at happ ⊢
  obtain ⟨reply, t⟩ := reply
  cases reply with
  | error err => exact fun u hu _ => hu ▸ happ
  | ok reply =>
    cases reply with
    | appended sequence => exact hsealed _ _ t happ
    | _ => exact hdone _ t happ

theorem wp_applyDeadline {log : EventLog} {p : ExecProgress} {sweep : DeadlineSweep}
    {action : Approvals.DeadlineAction} (h : Sweeping e log p s)
    (haction : ∀ node r expiresAt, action = .expire node r expiresAt →
      ¬ p.Spoils (.approvalExpired node r expiresAt Approvals.deadlinePrincipal)) :
    wp (engine cfg irOf) {} aloneSpec (applyDeadline cfg e sweep action)
      (ends (fun _ => Sweeping e log p) fun _ => Sweeping e log p) s := by
  cases action with
  | expire node r expiresAt =>
    exact wp_sweepAppend h (.approvalExpired node r expiresAt Approvals.deadlinePrincipal) trivial
      (fun hs => haction node r expiresAt rfl (h.spoils _ _ _ _ hs)) _
  | escalate node r escalateAt expiresAt =>
    exact wp_sweepAppend h (.approvalEscalated node r escalateAt expiresAt) trivial (fun hs => hs) _

/-- Every expiry that is due leaves alone the nodes that completed. -/
def SweepSpares (e : ExecutionId) (s : Sys) : Prop :=
  ∀ node r expiresAt, .expire node r expiresAt ∈ sweepDue e s →
    ¬ (logProgress e s).Spoils (.approvalExpired node r expiresAt Approvals.deadlinePrincipal)

/-- What the sweep leaves: none of its appends is a failure, and where nothing is due there are
none. -/
structure Swept (e : ExecutionId) (s t : Sys) : Prop where
  ticking : Ticking e (s.db.events e) [] t
  idle : sweepDue e s = [] → t.db.events e = s.db.events e

theorem wp_sweepDeadlines (h : Ticking e (s.db.events e) [] s) (hspares : SweepSpares e s) :
    wp (engine cfg irOf) {} aloneSpec (sweepDeadlines cfg e (logProgress e s))
      (fun _ t => Swept e s t) s := by
  have hnothing : wp (engine cfg irOf) {} aloneSpec (pure () : Sched Unit)
      (fun _ t => Swept e s t) s :=
    fun t ht _ => ht ▸ ⟨h, fun _ => rfl⟩
  by_cases htrigger : ((logProgress e s).held ∩ (logProgress e s).deadlineRequests).Nonempty
  swap
  · unfold sweepDeadlines
    rw [if_neg htrigger]
    exact hnothing
  have hdue : sweepDue e s = Approvals.dueDeadlineActions (s.db.events e).entries s.clock :=
    if_pos htrigger
  unfold sweepDeadlines sweepApprovalDeadlines here backend
  rw [if_pos htrigger]
  apply wp_call
  rintro t rfl -
  refine ⟨trivial, fun _ => ?_, fun hf => by cases hf⟩
  apply wp_bind
  apply wp_attempt
  -- a failed read ends the sweep, not the tick
  have hend : ∀ (r : Except BackendError DeadlineSweep) (t : Sys),
      Sweeping e (s.db.events e) (logProgress e s) t →
      (sweepDue e s = [] → t.db.events e = s.db.events e) →
      ends (fun _ => wp (engine cfg irOf) {} aloneSpec (pure () : Sched Unit)
        fun _ t => Swept e s t) (fun _ t => Swept e s t)
        (.ok r : Except BackendError (Except BackendError DeadlineSweep)) t :=
    fun r t ht hlog u hu _ => hu ▸ ⟨ht.ticking, hlog⟩
  have hstart : Sweeping e (s.db.events e) (logProgress e s) s := ⟨h, fun _ _ _ _ hs => hs⟩
  apply wp_call
  rintro t rfl -
  refine ⟨trivial, fun _ => ?_, fun _ _ err t ht _ => ht ▸ hend _ s hstart fun _ => rfl⟩
  have hread : Sweeping e (s.db.events e) (logProgress e s)
      ((engine cfg irOf).handle (.inl (.getEvents e)) s).2 := hstart.same rfl rfl
  change wp _ _ _ ((Approvals.dueDeadlineActions (s.db.events e).entries s.clock).foldlM _ _) _ _
  rw [← hdue]
  refine wp_foldlM (fun actions _ t => Sweeping e (s.db.events e) (logProgress e s) t ∧
    (∀ action ∈ actions, action ∈ sweepDue e s) ∧
    (sweepDue e s = [] → t.db.events e = s.db.events e)) ?_ ?_ ?_
    ⟨hread, fun _ ha => ha, fun _ => rfl⟩
  · rintro action actions sweep u ⟨hu, hactions, hlog⟩ -
    have hmem : action ∈ sweepDue e s := hactions action (by simp)
    have hne : sweepDue e s ≠ [] := List.ne_nil_of_mem hmem
    refine wp_mono (fun r v _ hv => ?_) (wp_applyDeadline hu fun node r expiresAt ha => ?_)
    · cases r with
      | error err => exact hend (.error err) v hv fun hnil => absurd hnil hne
      | ok sweep =>
        exact ⟨hv, fun a ha => hactions a (List.mem_cons_of_mem action ha),
          fun hnil => absurd hnil hne⟩
    · exact hspares node r expiresAt (ha ▸ hmem)
  · rintro actions sweep u v hu rfl -
    exact hu
  · rintro sweep u ⟨hu, -, hlog⟩ -
    exact hend _ u hu hlog

theorem wp_failRejected {log : EventLog} {p : ExecProgress} (h : Ticking e log [] s) :
    wp (engine cfg irOf) {} aloneSpec (failRejected order e p)
      (ends (fun _ => Ticking e log (toFail order p))
        fun _ t => ∃ failed, failed <+: toFail order p ∧ Ticking e log failed t) s := by
  unfold failRejected Prog.forEach
  refine wp_foldlM (fun left _ t => ∃ failed, failed ++ left = toFail order p ∧
    Ticking e log failed t) ?_ ?_ ?_ ⟨[], rfl, h⟩
  · rintro node left _ t ⟨failed, hsplit, ht⟩ -
    refine wp_mono (fun r u _ hu => ?_) (wp_appendNext ht fun hs => hs)
    cases r with
    | error err => exact ⟨failed, ⟨node :: left, hsplit⟩, hu⟩
    | ok _ => exact ⟨failed ++ [node], by simpa using hsplit, hu⟩
  · rintro left _ t u ht rfl -
    exact ht
  · rintro _ t ⟨failed, hsplit, ht⟩ -
    rw [List.append_nil] at hsplit
    exact hsplit ▸ ht

/-- The cascade where nothing else is unread: its local progress is what the log says. -/
structure Skipping (e : ExecutionId) (log : EventLog) (q : ExecProgress) (s : Sys) : Prop where
  ticking : Ticking e log [] s
  local_eq : q = logProgress e s
  none : ∀ node, ¬ q.Failing node

theorem wp_skipNode_alone {log : EventLog} {q : ExecProgress} {node : NodeId}
    (h : Skipping e log q s) :
    wp (engine cfg irOf) {} aloneSpec (skipNode e q node)
      (ends (fun q' => Skipping e log q') fun _ => Ticking e log []) s := by
  unfold skipNode backend
  apply wp_call
  rintro t rfl -
  refine ⟨trivial, fun _ => ?_, fun _ _ err t ht _ => ht ▸ h.ticking⟩
  have hread : Ticking e log [] ((engine cfg irOf).handle (.inl (.latestSequence e)) s).2 :=
    h.ticking.same rfl rfl
  have hspoils : ¬ (logProgress e s).Spoils (.nodeSkipped node "branch not taken") :=
    fun hs => h.none node (h.local_eq ▸ hs)
  apply wp_call
  rintro t rfl -
  refine ⟨trivial, fun _ => ?_, fun _ _ err t ht _ => ht ▸ hread⟩
  rcases handle_append cfg irOf ((engine cfg irOf).handle (.inl (.latestSequence e)) s).2 e
    (.nodeSkipped node "branch not taken") with ⟨-, err, herr⟩ | ⟨-, happ⟩
  · rw [herr]
    exact fun u hu _ => hu ▸ hread
  · rw [happ]
    rintro u rfl -
    have hlog : (s.db.setEvents e ((s.db.events e).append
        (.nodeSkipped node "branch not taken"))).events e =
          (s.db.events e).append (.nodeSkipped node "branch not taken") :=
      Db.setEvents_events_self _
    refine ⟨?_, ?_, ?_⟩
    · exact hread.append hspoils rfl hlog
    · rw [Ticking.logProgress_append (s := s) hlog, ← h.local_eq]
    · intro other hother
      exact h.none other ((failing_of_eq rfl rfl).mp hother)

theorem wp_skipCascade_alone {log : EventLog} {q : ExecProgress} {passes : ℕ}
    (h : Skipping e log q s) :
    wp (engine cfg irOf) {} aloneSpec (skipCascade order ir e passes q)
      (ends (fun q' => Skipping e log q') fun _ => Ticking e log []) s := by
  induction passes generalizing q s with
  | zero =>
    exact fun t ht _ => ht ▸ h
  | succ passes ih =>
    unfold skipCascade
    split
    · exact fun t ht _ => ht ▸ h
    · refine wp_bind (wp_foldlM (fun _ q' => Skipping e log q') ?_ ?_ ?_ h)
      · intro node _ q' t ht _
        refine wp_mono (fun r u _ hu => ?_) (wp_skipNode_alone ht)
        cases r with
        | ok q'' => exact hu
        | error err => exact hu
      · rintro _ q' t u ht rfl -
        exact ht
      · exact fun q' t ht _ => ih ht

theorem wp_dispatchAndFinish {log : EventLog} {failed : List NodeId} {q : ExecProgress}
    {workflowId workflowVersion : String} (h : Ticking e log failed s) :
    wp (engine cfg irOf) {} aloneSpec
      (dispatchAndFinish cfg order ir e workflowId workflowVersion q)
      (fun _ => Ticking e log failed) s := by
  refine wp_mono (fun _ _ _ ht => ht.1) (wp_within (within_dispatchAndFinish cfg order ir _ _ q)
    (fun _ _ ht htu _ => htu ▸ ht) ?_ h)
  intro β op t hop _ ht
  refine ⟨trivial, fun _ => ?_⟩
  rcases hop with hop | hop
  · cases hop with
    | utcNow => exact ht
    | latestSequence => exact ht.same rfl rfl
    | enqueueWorkItem item now he =>
      obtain ⟨kinds, hlog, hkinds⟩ := ((BackendOp.enqueueWorkItem item now).effect t.db).logs e
      obtain rfl : kinds = [] := List.eq_nil_iff_forall_not_mem.mpr hkinds
      exact ht.same rfl hlog
    | nodeScheduled node queueType =>
      have hspoils : ¬ (logProgress e t).Spoils (.nodeScheduled node queueType) := fun hs => hs
      have happ := ht.ends_append cfg irOf hspoils
      rcases handle_append cfg irOf t e (.nodeScheduled node queueType) with
        ⟨-, err, herr⟩ | ⟨-, hrow⟩
      · rw [herr]
        exact ht
      · rw [hrow] at happ ⊢
        simpa [failedNode, ends] using happ
  · cases hop with
    | utcNow => exact ht
    | dropProgress => exact ht.setProgress fun _ hq => by cases hq
    | finish kind status now hk =>
      have hplain : ¬ (logProgress e t).Spoils kind ∧ failedNode kind = none := by
        cases kind <;> first | exact ⟨fun hs => hs, rfl⟩ | cases hk
      rcases Db.finishExecution_cases t.db e kind status now with hsame | ⟨-, -, -, hend⟩
      · exact ht.same rfl (congrArg (fun db : Db => db.events e) hsame)
      · have hlog := (congrArg (fun db : Db => db.events e) hend).trans (Db.setEvents_events_self _)
        simpa [hplain.2] using ht.append (t := ((engine cfg irOf).handle
          (.inl (.finishExecution e kind status now)) t).2) hplain.1 rfl hlog

theorem wp_readProgress_alone (hcached : ∀ p, s.progress e = some p → p.Coherent (s.db.events e)) :
    wp (engine cfg irOf) {} aloneSpec (readProgress e)
      (ends (fun p t => p = logProgress e s ∧ t.db = s.db ∧ t.clock = s.clock ∧
        ∀ q, t.progress e = some q → q.Coherent (s.db.events e)) fun _ t => t = s) s := by
  unfold readProgress backend here
  apply wp_call
  rintro t rfl -
  refine ⟨trivial, fun _ => ?_, fun hf => by cases hf⟩
  apply wp_call
  rintro t rfl -
  refine ⟨trivial, fun _ => ?_, fun _ _ err t ht _ => ht.symm⟩
  apply wp_call
  rintro t rfl -
  refine ⟨trivial, fun _ => ?_, fun hf => by cases hf⟩
  have hcoherent : ((s.progress e).getD {}).Coherent (s.db.events e) := by
    cases hp : s.progress e with
    | none => exact coherent_empty _
    | some p => exact hcached p hp
  have hread : ((s.progress e).getD {}).applyAll
      ((s.db.events e).since ((s.progress e).getD {}).lastSequence) = logProgress e s :=
    hcoherent.applyAll_since
  rintro t rfl -
  refine ⟨hread, rfl, rfl, fun q hq => ?_⟩
  have hself : Function.update s.progress e (some _) e = some q := hq
  rw [Function.update_self] at hself
  obtain rfl := Option.some.inj hself
  have hwhole : (logProgress e s).Coherent (s.db.events e) := coherent_entries _
  rw [← hread] at hwhole
  exact hwhole

/-- A tick that leaves no record of its own unread: it skips no node, or has nothing to record
before. -/
def ReadsItself (e : ExecutionId) (ir : WorkflowIr) (s : Sys) : Prop :=
  (∀ node ∈ ir.nodes.keys, (logProgress e s).skippable ir node = false) ∨
    ((∀ node, ¬ (logProgress e s).Failing node) ∧ sweepDue e s = [])

/-- What a tick may leave: some of the nodes to fail have been failed. -/
def Failed (order : HashOrder NodeId) (e : ExecutionId) (s t : Sys) : Prop :=
  ∃ failed, failed <+: toFail order (logProgress e s) ∧ Ticking e (s.db.events e) failed t

theorem wp_closing {workflowId workflowVersion : String} {u : Sys} {q : ExecProgress}
    {failed : List NodeId} (hfailed : failed <+: toFail order (logProgress e s))
    (hu : Ticking e (s.db.events e) failed u) (hq : q.Coherent (u.db.events e)) :
    wp (engine cfg irOf) {} aloneSpec (here (.setProgress e q) >>= fun _ =>
      dispatchAndFinish cfg order ir e workflowId workflowVersion q)
      (fun _ => Failed order e s) u := by
  unfold here
  apply wp_call
  rintro t rfl -
  refine ⟨trivial, fun _ => ?_, fun hf => by cases hf⟩
  have hset := hu.setProgress (p := some q) fun _ h => Option.some.inj h ▸ hq
  exact wp_mono (fun _ v _ hv => ⟨failed, hfailed, hv⟩) (wp_dispatchAndFinish hset)

theorem wp_advance_alone {workflowId workflowVersion : String}
    (h : Ticking e (s.db.events e) [] s) (hspares : SweepSpares e s) (hreads : ReadsItself e ir s) :
    wp (engine cfg irOf) {} aloneSpec
      (advance cfg order ir e workflowId workflowVersion (logProgress e s))
      (fun _ => Failed order e s) s := by
  unfold advance
  refine wp_bind (wp_mono (fun r t _ ht => ?_) (wp_sweepDeadlines h hspares))
  cases r with
  | error err => exact ⟨[], List.nil_prefix, ht.ticking⟩
  | ok _ =>
    rcases hreads with hskip | ⟨hnone, hdue⟩
    · -- nothing to skip: the progress that was read is written back
      refine wp_bind (wp_mono (fun r u _ hu => ?_) (wp_failRejected ht.ticking))
      cases r with
      | error err => exact hu
      | ok _ =>
        have hnil : (logProgress e s).newlySkippable order ir = [] := by
          refine List.eq_nil_iff_forall_not_mem.mpr fun node hnode => ?_
          obtain ⟨hmem, hsome⟩ := mem_newlySkippable.mp hnode
          rw [hskip node hmem] at hsome
          cases hsome
        have hpure : skipCascade order ir e (ir.nodes.keys.card + 1) (logProgress e s) =
            pure (logProgress e s) := by
          unfold skipCascade
          rw [hnil]
        have hread : (logProgress e s).Coherent (u.db.events e) := by
          obtain ⟨kinds, hlog, -⟩ := hu.grown
          rw [hlog]
          exact (coherent_entries _).extends (SeqLog.extends_appendAll _ kinds)
        change wp _ _ _ (skipCascade order ir e (ir.nodes.keys.card + 1) (logProgress e s) >>= _) _ _
        rw [hpure]
        exact wp_closing List.prefix_rfl hu hread
    · -- nothing to record: the cascade reads its own skips
      have hnil : toFail order (logProgress e s) = [] :=
        List.eq_nil_iff_forall_not_mem.mpr fun node hnode => hnone node (mem_toFail.mp hnode)
      have hpure : failRejected order e (logProgress e s) = pure () := by
        change Prog.forEach (toFail order (logProgress e s)) _ = pure ()
        rw [hnil]
        rfl
      have hlog := ht.idle hdue
      have hstart : Skipping e (s.db.events e) (logProgress e s) t := by
        refine ⟨ht.ticking, ?_, hnone⟩
        rw [logProgress, logProgress, hlog]
      change wp _ _ _ (failRejected order e (logProgress e s) >>= _) _ _
      rw [hpure]
      change wp _ _ _ (skipCascade order ir e (ir.nodes.keys.card + 1) (logProgress e s) >>= _) _ _
      refine wp_bind (wp_mono (fun r u _ hu => ?_) (wp_skipCascade_alone hstart))
      cases r with
      | error err => exact ⟨[], List.nil_prefix, hu⟩
      | ok q =>
        have hread : q.Coherent (u.db.events e) := by
          rw [hu.local_eq]
          exact coherent_entries _
        exact wp_closing List.nil_prefix hu.ticking hread

theorem wp_recordStall {p : ExecProgress} (h : Ticking e (s.db.events e) [] s) :
    wp (engine cfg irOf) {} aloneSpec (recordStall e p) (fun _ => Failed order e s) s := by
  have hdone : ∀ t, Ticking e (s.db.events e) [] t → Failed order e s t :=
    fun t ht => ⟨[], List.nil_prefix, ht⟩
  unfold recordStall backend
  split
  · exact fun t ht _ => ht ▸ hdone s h
  · apply wp_call
    rintro t rfl -
    refine ⟨trivial, fun _ => ?_, fun _ _ err t ht _ => ht ▸ hdone s h⟩
    have happ : ∀ condition, Ticking e (s.db.events e) [] ((engine cfg irOf).handle
        (.inl (.appendEventIf e (.runStalled Approvals.unreadableLogReason) condition)) s).2 := by
      intro condition
      rcases Db.appendEventIf_cases s.db e (.runStalled Approvals.unreadableLogReason) condition with
        hsame | ⟨-, -, hlog⟩
      · exact h.same rfl (congrArg (fun db : Db => db.events e) hsame)
      · have hspoils : ¬ (logProgress e s).Spoils (.runStalled Approvals.unreadableLogReason) :=
          fun hs => hs
        refine h.append hspoils rfl ?_
        exact (congrArg (fun db : Db => db.events e) hlog).trans (Db.setEvents_events_self _)
    generalize hreply : (engine cfg irOf).handle (.inl (.appendEventIf e
      (.runStalled Approvals.unreadableLogReason) _)) s = reply
    have hticking : Ticking e (s.db.events e) [] reply.2 := hreply ▸ happ _
    obtain ⟨reply, t⟩ := reply
    cases reply with
    | error err => exact fun u hu _ => hu ▸ hdone t hticking
    | ok _ => exact fun u hu _ => hu ▸ hdone t hticking

/-- A whole tick of the execution. -/
theorem wp_scheduleRunnableNodes_alone {workflowId workflowVersion : String}
    (hcached : ∀ p, s.progress e = some p → p.Coherent (s.db.events e))
    (h : (logProgress e s).FailsOpen)
    (hok : ∀ ir, irOf workflowId workflowVersion = some ir → (logProgress e s).unreadable = false →
      SweepSpares e s ∧ ReadsItself e ir s) :
    wp (engine cfg irOf) {} aloneSpec
      (scheduleRunnableNodes cfg order e workflowId workflowVersion)
      (fun _ => Failed order e s) s := by
  have hstart : Failed order e s s := ⟨[], List.nil_prefix, .start hcached h⟩
  unfold scheduleRunnableNodes here
  apply wp_call
  rintro t rfl -
  refine ⟨trivial, fun _ => ?_, fun _ _ err t ht _ => ht ▸ hstart⟩
  have hreply : (engine cfg irOf).handle (.inr (.loadWorkflow workflowId workflowVersion)) s =
      (.ok (irOf workflowId workflowVersion), s) := rfl
  rw [hreply]
  cases hir : irOf workflowId workflowVersion with
  | none => exact fun t ht _ => ht ▸ hstart
  | some ir =>
    refine wp_bind (wp_mono (fun r t _ ht => ?_) (wp_readProgress_alone hcached))
    cases r with
    | error err =>
      have heq : t = s := ht
      exact heq ▸ hstart
    | ok p =>
      obtain ⟨rfl, hdb, hclock, hread⟩ := ht
      -- the log and the clock are those of `s`, so what holds there holds here
      have hprogress : logProgress e s = logProgress e t := by
        rw [logProgress, logProgress, hdb]
      have hdue : sweepDue e s = sweepDue e t := by
        rw [sweepDue, sweepDue, hprogress, hdb, hclock]
      have hticking : Ticking e (t.db.events e) [] t := by
        refine .start ?_ (hprogress ▸ h)
        rw [hdb]
        exact hread
      have hfailed : ∀ u, Failed order e t u → Failed order e s u := by
        rintro u ⟨failed, hprefix, hu⟩
        rw [← hprogress] at hprefix
        rw [hdb] at hu
        exact ⟨failed, hprefix, hu⟩
      rw [hprogress]
      change wp _ _ _ (if (logProgress e t).unreadable = true then _ else _) _ t
      split
      · exact wp_mono (fun _ u _ hu => hfailed u hu) (wp_recordStall hticking)
      · rename_i hreadable
        have hread' : (logProgress e s).unreadable = false := by
          rw [hprogress]
          simpa using hreadable
        obtain ⟨hspares, hreads⟩ := hok ir hir hread'
        rw [SweepSpares, hdue, hprogress] at hspares
        rw [ReadsItself, hdue, hprogress] at hreads
        exact wp_mono (fun _ u _ hu => hfailed u hu) (wp_advance_alone hticking hspares hreads)

/-! Runs of one execution -/

inductive ExecutionMove
  /-- An event recorded by anyone but the scheduler. -/
  | event (kind : EventKind)
  | passTime (nanos : ℕ)
  /-- The scheduler starts anew, with nothing cached. -/
  | restart
  | tick (order : HashOrder NodeId)

variable (cfg irOf e) in
/-- What a move does.  Any call of a tick may fail, and the tick then ends as it stands. -/
inductive Moves (workflowId workflowVersion : String) : Sys → ExecutionMove → Sys → Prop
  | event (s : Sys) (kind : EventKind) :
      Moves workflowId workflowVersion s (.event kind) (s.act (.call (.appendEvent e kind)))
  | passTime (s : Sys) (nanos : ℕ) :
      Moves workflowId workflowVersion s (.passTime nanos) (s.act (.passTime nanos))
  | restart (s : Sys) : Moves workflowId workflowVersion s .restart s.halt
  | tick {s t : Sys} {order : HashOrder NodeId} {r : Except BackendError Unit}
      (h : Yields (engine cfg irOf) Eq
        (scheduleRunnableNodes cfg order e workflowId workflowVersion) s r t) :
      Moves workflowId workflowVersion s (.tick order) t

/-- The nodes a move fails, each with the nodes completed when the move begins. -/
def failsIn (e : ExecutionId) (s : Sys) : ExecutionMove → Sys → List (NodeId × Finset NodeId)
  | .tick _, t => (failures (s.db.events e) (t.db.events e)).map fun node =>
      (node, (logProgress e s).completed)
  | _, _ => []

variable (cfg irOf e) in
/-- A run of moves that are allowed, and all that its ticks fail. -/
inductive FailingRun (workflowId workflowVersion : String) (allowed : Sys → ExecutionMove → Prop)
    (s : Sys) : List (NodeId × Finset NodeId) → Sys → Prop
  | start : FailingRun workflowId workflowVersion allowed s [] s
  | step {t u : Sys} {m : ExecutionMove} {failed : List (NodeId × Finset NodeId)}
      (h : FailingRun workflowId workflowVersion allowed s failed t) (ha : allowed t m)
      (hm : Moves cfg irOf e workflowId workflowVersion t m u) :
      FailingRun workflowId workflowVersion allowed s (failed ++ failsIn e t m u) u

variable (irOf e) in
/-- No event completes or skips a node that is to be failed or rejects a hold of a completed one,
and no tick skips a node after recording something itself. -/
def KeepsOpen (workflowId workflowVersion : String) (s : Sys) : ExecutionMove → Prop
  | .event kind => ¬ (logProgress e s).Spoils kind
  | .tick _ => ∀ ir, irOf workflowId workflowVersion = some ir →
      (logProgress e s).unreadable = false → SweepSpares e s ∧ ReadsItself e ir s
  | _ => True

theorem FailingRun.event {workflowId workflowVersion : String}
    {allowed : Sys → ExecutionMove → Prop} {failed : List (NodeId × Finset NodeId)}
    (h : FailingRun cfg irOf e workflowId workflowVersion allowed s failed t) {kind : EventKind}
    (ha : allowed t (.event kind)) :
    FailingRun cfg irOf e workflowId workflowVersion allowed s failed
      (t.act (.call (.appendEvent e kind))) := by
  have hnext := h.step ha (.event t kind)
  have hnil : failsIn e t (.event kind) (t.act (.call (.appendEvent e kind))) = [] := rfl
  rwa [hnil, List.append_nil] at hnext

theorem FailingRun.tick {workflowId workflowVersion : String}
    {allowed : Sys → ExecutionMove → Prop} {failed : List (NodeId × Finset NodeId)}
    (h : FailingRun cfg irOf e workflowId workflowVersion allowed s failed t)
    (order : HashOrder NodeId) (ha : allowed t (.tick order))
    (hu : ((scheduleRunnableNodes cfg order e workflowId workflowVersion).alone
      (engine cfg irOf).handle t).2 = u) :
    FailingRun cfg irOf e workflowId workflowVersion allowed s
      (failed ++ failsIn e t (.tick order) u) u := by
  subst hu
  exact h.step ha (.tick .alone)

/-- What holds along such a run. -/
structure RunOpen (e : ExecutionId) (failed : List (NodeId × Finset NodeId)) (s : Sys) : Prop where
  cached : ∀ p, s.progress e = some p → p.Coherent (s.db.events e)
  failsOpen : (logProgress e s).FailsOpen
  nodup : (failed.map Prod.fst).Nodup
  isOpen : ∀ x ∈ failed, x.1 ∉ x.2
  /-- A node that was failed is so in the log, for good. -/
  terminal : ∀ x ∈ failed, x.1 ∈ (logProgress e s).terminalFailed

theorem grows_logProgress {s t : Sys} (h : (s.db.events e).Extends (t.db.events e)) :
    (logProgress e s).Grows (logProgress e t) := by
  obtain ⟨more, hmore⟩ := h
  rw [logProgress, logProgress, ← hmore, applyAll_append]
  exact grows_applyAll _ more

theorem terminalFailed_of_mem_failures {log log' : EventLog} {node : NodeId}
    (hnode : node ∈ failures log log') : node ∈ (applyAll {} log'.entries).terminalFailed := by
  obtain ⟨event, hevent, hkind⟩ := List.mem_filterMap.mp hnode
  obtain ⟨before, later, hsplit⟩ := List.append_of_mem (List.mem_of_mem_drop hevent)
  rw [hsplit, applyAll_append]
  have hafter := grows_applyAll ((applyAll {} before).apply event) later
  refine hafter.failed ?_
  obtain ⟨sequence, kind⟩ := event
  obtain ⟨error, attempt, rfl⟩ := failedNode_eq_some.mp hkind
  exact Finset.mem_insert_self node _

theorem Failed.each_once (h : Failed order e s t) :
    (failures (s.db.events e) (t.db.events e)).Nodup ∧
      ∀ node ∈ failures (s.db.events e) (t.db.events e),
        (logProgress e s).Failing node ∧ node ∈ (logProgress e t).terminalFailed := by
  obtain ⟨failed, hfront, ht⟩ := h
  obtain ⟨kinds, hlog, hfailed⟩ := ht.grown
  have heq : failures (s.db.events e) (t.db.events e) = failed := by
    rw [hlog, failures_appendAll, hfailed]
  refine ⟨?_, fun node hnode => ⟨?_, terminalFailed_of_mem_failures hnode⟩⟩
  · rw [heq]
    exact (nodup_toFail order _).sublist hfront.sublist
  · rw [heq] at hnode
    exact mem_toFail.mp (hfront.subset hnode)

theorem RunOpen.idle {failed : List (NodeId × Finset NodeId)} (h : RunOpen e failed s)
    (hcached : ∀ p, t.progress e = some p → p.Coherent (t.db.events e))
    (hopen : (logProgress e t).FailsOpen) (hext : (s.db.events e).Extends (t.db.events e)) :
    RunOpen e (failed ++ []) t := by
  rw [List.append_nil]
  exact ⟨hcached, hopen, h.nodup, h.isOpen,
    fun x hx => (grows_logProgress hext).failed (h.terminal x hx)⟩

theorem RunOpen.tick {failed : List (NodeId × Finset NodeId)} (h : RunOpen e failed s)
    (ht : Failed order e s t) : RunOpen e (failed ++ failsIn e s (.tick order) t) t := by
  obtain ⟨hnodup, heach⟩ := ht.each_once
  obtain ⟨names, -, hticking⟩ := ht
  obtain ⟨kinds, hlog, -⟩ := hticking.grown
  have hext : (s.db.events e).Extends (t.db.events e) :=
    hlog ▸ SeqLog.extends_appendAll _ kinds
  have hnew : ∀ x ∈ failsIn e s (.tick order) t,
      x.1 ∈ failures (s.db.events e) (t.db.events e) ∧ x.2 = (logProgress e s).completed := by
    intro x hx
    obtain ⟨node, hnode, rfl⟩ := List.mem_map.mp hx
    exact ⟨hnode, rfl⟩
  refine ⟨hticking.cached, hticking.failsOpen, ?_, ?_, ?_⟩
  · have hnames : (failsIn e s (.tick order) t).map Prod.fst =
        failures (s.db.events e) (t.db.events e) := by
      simp [failsIn, Function.comp_def]
    rw [List.map_append, hnames]
    refine List.nodup_append.mpr ⟨h.nodup, hnodup, ?_⟩
    rintro node hold _ hfresh rfl
    obtain ⟨x, hx, rfl⟩ := List.mem_map.mp hold
    exact (heach _ hfresh).1.2 (h.terminal x hx)
  · intro x hx
    rcases List.mem_append.mp hx with hx | hx
    · exact h.isOpen x hx
    · obtain ⟨hnode, hcompleted⟩ := hnew x hx
      rw [hcompleted]
      exact h.failsOpen _ (heach _ hnode).1
  · intro x hx
    rcases List.mem_append.mp hx with hx | hx
    · exact (grows_logProgress hext).failed (h.terminal x hx)
    · exact (heach _ (hnew x hx).1).2

theorem RunOpen.step {workflowId workflowVersion : String} {failed : List (NodeId × Finset NodeId)}
    {m : ExecutionMove} (h : RunOpen e failed s)
    (ha : KeepsOpen irOf e workflowId workflowVersion s m)
    (hm : Moves cfg irOf e workflowId workflowVersion s m t) :
    RunOpen e (failed ++ failsIn e s m t) t := by
  cases hm with
  | passTime nanos => exact h.idle h.cached h.failsOpen (.refl _)
  | restart => exact h.idle (fun _ hp => by cases hp) h.failsOpen (.refl _)
  | event kind =>
    rcases Db.appendEvent_cases s.db e kind with ⟨-, hsame⟩ | ⟨-, happ⟩
    · have hdb : (s.act (.call (.appendEvent e kind))).db = s.db := congrArg Prod.snd hsame
      have hlog := congrArg (fun db : Db => db.events e) hdb
      refine h.idle (fun p hp => hlog ▸ h.cached p hp) ?_ (hlog ▸ .refl _)
      rw [logProgress, hlog]
      exact h.failsOpen
    · have hdb : (s.act (.call (.appendEvent e kind))).db =
          s.db.setEvents e ((s.db.events e).append kind) := congrArg Prod.snd happ
      have hlog := (congrArg (fun db : Db => db.events e) hdb).trans (Db.setEvents_events_self _)
      have hnext := (Ticking.start h.cached h.failsOpen).append (s := s) ha
        (t := s.act (.call (.appendEvent e kind))) rfl hlog
      exact h.idle hnext.cached hnext.failsOpen (hlog ▸ SeqLog.extends_append _ kind)
  | tick hy =>
    exact h.tick (hy.ends (S := aloneSpec) (U := {}) (fun _ => trivial) (fun _ _ => trivial)
      (fun _ _ => trivial) (wp_scheduleRunnableNodes_alone h.cached h.failsOpen ha))

theorem RunOpen.run {workflowId workflowVersion : String} {failed : List (NodeId × Finset NodeId)}
    (h : RunOpen e [] s)
    (hrun : FailingRun cfg irOf e workflowId workflowVersion
      (KeepsOpen irOf e workflowId workflowVersion) s failed t) : RunOpen e failed t := by
  induction hrun with
  | start => exact h
  | step _ ha hm ih => exact ih.step ha hm

/-- In every run of events and ticks of an execution, from a start without rejections on, in which
no event completes or skips a node to be failed or rejects a hold of a completed one and no tick
skips a node after recording something itself, every node the rejection loop fails is one that had
not completed, and it is failed once. -/
theorem rejected_nodes_fail_open_once (cfg : SchedulerConfig)
    (irOf : String → String → Option WorkflowIr) (e : ExecutionId)
    (workflowId workflowVersion : String) (s t : Sys) (failed : List (NodeId × Finset NodeId))
    (hnone : (logProgress e s).rejected = ∅) (hempty : s.progress e = none)
    (hrun : FailingRun cfg irOf e workflowId workflowVersion
      (KeepsOpen irOf e workflowId workflowVersion) s failed t) :
    (failed.map Prod.fst).Nodup ∧ ∀ x ∈ failed, x.1 ∉ x.2 := by
  have hstart : RunOpen e [] s := by
    refine ⟨fun p hp => ?_, ?_, List.nodup_nil, by simp, by simp⟩
    · rw [hempty] at hp
      cases hp
    · rintro node ⟨hnode, -⟩
      rw [hnone] at hnode
      exact absurd hnode Finmap.notMem_empty
  have hend := hstart.run hrun
  exact ⟨hend.nodup, hend.isOpen⟩

end Scheduler

/-- A run as it is created. -/
def created (ir : WorkflowIr) (startNode : NodeId) (node : NodeDef) : Sys :=
  { db := ((startRun ir startNode node 0 "wf" "1.0.0" (.object []) "default" 0).exec {}).2 }

/-- Events of the run recorded one after the other. -/
def recorded (kinds : List EventKind) (s : Sys) : Sys :=
  kinds.foldl (fun s kind => s.act (.call (.appendEvent 0 kind))) s

/-- A tick whose calls all succeed. -/
def ticked (ir : WorkflowIr) (s : Sys) : Sys :=
  ((@Scheduler.scheduleRunnableNodes firstDay {} .sorted 0 "wf" "1.0.0").alone
    (@engine firstDay {} fun _ _ => some ir).handle s).2

/-- An approval of a node asked for and turned down. -/
def turnedDown (node : NodeId) : List EventKind :=
  [.toolApprovalRequired node "mail" "ops" .null,
    .approvalReceived node ⟨"u1", .rejected, none, none, none, none, none⟩]

namespace Scheduler

/-- The runs of the first execution of an engine that knows one workflow. -/
abbrev RunOf (ir : WorkflowIr) (allowed : Sys → ExecutionMove → Prop) :=
  @FailingRun firstDay {} (fun _ _ => some ir) 0 "wf" "1.0.0" allowed

abbrev keepsOpenOne : Sys → ExecutionMove → Prop :=
  @KeepsOpen firstDay (fun _ _ => some oneNodeIr) 0 "wf" "1.0.0"

theorem rejected_nodes_fail_open_once_one :
    ∃ t, RunOf oneNodeIr keepsOpenOne (created oneNodeIr "a" ⟨.tool, none⟩) [("a", ∅)] t ∧
      ([("a", (∅ : Finset NodeId))].map Prod.fst).Nodup ∧
      ∀ x ∈ [("a", (∅ : Finset NodeId))], x.1 ∉ x.2 := by
  let _ := firstDay
  have hevents : RunOf oneNodeIr keepsOpenOne (created oneNodeIr "a" ⟨.tool, none⟩) []
      (recorded (turnedDown "a") (created oneNodeIr "a" ⟨.tool, none⟩)) :=
    (FailingRun.start.event fun h => h).event fun h => absurd h.2.2.1 (by decide)
  have hrun : RunOf oneNodeIr keepsOpenOne (created oneNodeIr "a" ⟨.tool, none⟩) [("a", ∅)]
      (ticked oneNodeIr (recorded (turnedDown "a") (created oneNodeIr "a" ⟨.tool, none⟩))) := by
    refine hevents.tick .sorted ?_ rfl
    rintro ir hir -
    obtain rfl := Option.some.inj hir
    refine ⟨?_, .inl (by decide)⟩
    have hdue : sweepDue 0 (recorded (turnedDown "a") (created oneNodeIr "a" ⟨.tool, none⟩)) = [] := rfl
    intro node r expiresAt hmem
    rw [hdue] at hmem
    cases hmem
  exact ⟨_, hrun, rejected_nodes_fail_open_once {} (fun _ _ => some oneNodeIr) 0 "wf" "1.0.0" _ _ _
    (by decide) rfl hrun⟩

/-- A node turned down completes all the same and is failed; and a node turned down is failed by
two ticks when the first of them skips another node. -/
theorem completed_or_failed_node_failed :
    (∃ failed t, RunOf oneNodeIr (fun _ _ => True) (created oneNodeIr "a" ⟨.tool, none⟩) failed t ∧
      ∃ x ∈ failed, x.1 ∈ x.2) ∧
    ∃ failed t, RunOf routedIr (fun _ _ => True) (created routedIr "cond" routingNode) failed t ∧
      ¬ (failed.map Prod.fst).Nodup := by
  let _ := firstDay
  have hrecorded : ∀ (ir : WorkflowIr) {s t : Sys} {failed : List (NodeId × Finset NodeId)}
      (kinds : List EventKind), RunOf ir (fun _ _ => True) s failed t →
      RunOf ir (fun _ _ => True) s failed (recorded kinds t) := by
    intro ir s t failed kinds h
    induction kinds generalizing t with
    | nil => exact h
    | cons kind kinds ih => exact ih (h.event trivial)
  constructor
  · have hevents := hrecorded oneNodeIr (turnedDown "a" ++ [.nodeCompleted "a" emptyResult])
      (.start (s := created oneNodeIr "a" ⟨.tool, none⟩))
    exact ⟨_, ticked oneNodeIr _, hevents.tick .sorted trivial rfl, by decide⟩
  · have hevents := hrecorded routedIr (turnedDown "r" ++ [.nodeCompleted "cond" (routedTo "c")])
      (.start (s := created routedIr "cond" routingNode))
    have htick := hevents.tick .sorted (u := ticked routedIr _) trivial rfl
    exact ⟨_, ticked routedIr _, htick.tick .sorted trivial rfl, by decide⟩

end Scheduler

end JamJet
