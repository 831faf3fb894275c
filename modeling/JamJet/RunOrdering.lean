import JamJet.IncrementalFold
import JamJet.LimitRuns

/-! The order in which the scheduler goes through a run: it hands out or skips a node only once
every node with an edge to it has concluded, and enqueues a work item only for a node it has
recorded as scheduled. -/

namespace JamJet

open AtomicCalls Scheduler

/-- The node has come to an end that lets the nodes after it go on. -/
def EventKind.concludes (node : NodeId) : EventKind → Bool
  | .nodeCompleted node' _ | .nodeSkipped node' _ | .nodeCancelled node' => node' = node
  | _ => false

/-- The scheduler comes to the node. -/
def EventKind.reaches (node : NodeId) : EventKind → Bool
  | .nodeScheduled node' _ | .nodeSkipped node' _ => node' = node
  | _ => false

def Concluded (node : NodeId) (events : List Event) : Prop :=
  ∃ x ∈ events, x.kind.concludes node = true

/-- A node of the workflow, and every node with an edge to it has concluded. -/
structure WorkflowIr.Ready (ir : WorkflowIr) (events : List Event) (node : NodeId) : Prop where
  isNode : node ∈ ir.nodes.keys
  sources : ∀ edge ∈ ir.edges, edge.dst = node → Concluded edge.src events

/-- The run of the execution has come to the node. -/
def Db.Due (irOf : String → String → Option WorkflowIr) (db : Db) (e : ExecutionId)
    (node : NodeId) : Prop :=
  ∃ ir, db.RunsIr irOf e ir ∧ ir.Ready (db.events e).entries node

section Logs

variable {ir : WorkflowIr} {events events' : List Event} {node : NodeId}

theorem Concluded.mono (h : Concluded node events) (hsub : events ⊆ events') :
    Concluded node events' := by
  obtain ⟨x, hx, hkind⟩ := h
  exact ⟨x, hsub hx, hkind⟩

theorem WorkflowIr.Ready.mono (h : ir.Ready events node) (hsub : events ⊆ events') :
    ir.Ready events' node :=
  ⟨h.isNode, fun edge hedge hdst => (h.sources edge hedge hdst).mono hsub⟩

end Logs

namespace ExecProgress

variable {p : ExecProgress} {ir : WorkflowIr} {events events' : List Event} {node : NodeId}

/-- What the progress has as completed concluded in the log. -/
structure Backed (p : ExecProgress) (events : List Event) : Prop where
  skipped : p.skipped ⊆ p.completed
  completed : ∀ node ∈ p.completed, Concluded node events

theorem backed_default (events : List Event) : Backed {} events := by
  constructor <;> simp

theorem Backed.mono (h : p.Backed events) (hsub : events ⊆ events') : p.Backed events' :=
  ⟨h.skipped, fun node hnode => (h.completed node hnode).mono hsub⟩

/-- The source of a dead edge is completed as well: it was skipped, or routed elsewhere. -/
theorem Backed.of_edgeDead (h : p.Backed events) {src : NodeId}
    (hdead : p.edgeDead ir src node = true) : Concluded src events := by
  rcases edgeDead_iff.mp hdead with hskip | ⟨_, _, _, _, hdone, _⟩
  · exact h.completed src (h.skipped hskip)
  · exact h.completed src hdone

theorem Backed.ready_of_runnable (h : p.Backed events) (hkey : node ∈ ir.nodes.keys)
    (hrun : p.isRunnable ir node = true) : ir.Ready events node := by
  refine ⟨hkey, fun edge hedge hdst => ?_⟩
  have hin : edge ∈ inEdges ir node := mem_inEdges.mpr ⟨hedge, hdst⟩
  obtain ⟨-, -, -, hroot | ⟨-, hlive⟩⟩ := isRunnable_iff.mp hrun
  · rw [hroot] at hin
    cases hin
  · cases hdead : p.edgeDead ir edge.src node with
    | false => exact h.completed _ (hlive edge hin hdead)
    | true => exact h.of_edgeDead hdead

theorem Backed.ready_of_skippable (h : p.Backed events) (hkey : node ∈ ir.nodes.keys)
    (hskip : p.skippable ir node = true) : ir.Ready events node := by
  refine ⟨hkey, fun edge hedge hdst => ?_⟩
  obtain ⟨-, -, hdead⟩ := skippable_iff.mp hskip
  exact h.of_edgeDead (hdead edge (mem_inEdges.mpr ⟨hedge, hdst⟩))

variable [Chrono]

/-- Only an event that concludes a node adds it to the completed ones. -/
theorem completed_apply (event : Event) (h : node ∈ (p.apply event).completed) :
    node ∈ p.completed ∨ event.kind.concludes node = true := by
  obtain ⟨sequence, kind⟩ := event
  change node ∈ (p.applyKind sequence kind).completed at h
  cases kind with
  | nodeCompleted node' _ | nodeSkipped node' _ | nodeCancelled node' =>
    rcases Finset.mem_insert.mp h with rfl | h
    · exact .inr (by simp [EventKind.concludes])
    · exact .inl h
  | nodeFailed node' error attempt retryable => cases retryable <;> exact .inl h
  | nodeScheduled node' | nodeStarted node' | retryScheduled node' =>
    simp only [applyKind, markScheduled_completed] at h
    exact .inl h
  | approvalReceived node' answer =>
    simp only [applyKind] at h
    split at h
    · split at h <;> exact .inl h
    · exact .inl h
  | approvalExpired =>
    simp only [applyKind] at h
    split at h <;> exact .inl h
  | workflowStarted input => cases input <;> exact .inl h
  | _ => exact .inl h

/-- An event of the log, under whatever number it is folded in. -/
theorem Backed.apply (h : p.Backed events) {event : Event}
    (hmem : ∃ x ∈ events, x.kind = event.kind) : (p.apply event).Backed events := by
  refine ⟨skipped_subset_completed_apply h.skipped event, fun node hnode => ?_⟩
  rcases completed_apply event hnode with hold | hnew
  · exact h.completed node hold
  · obtain ⟨x, hx, hkind⟩ := hmem
    exact ⟨x, hx, hkind ▸ hnew⟩

theorem Backed.applyAll (h : p.Backed events) {read : List Event} (hsub : read ⊆ events) :
    (p.applyAll read).Backed events := by
  induction read generalizing p with
  | nil => exact h
  | cons x read ih =>
    have hx : (p.apply x).Backed events := h.apply ⟨x, hsub List.mem_cons_self, rfl⟩
    exact ih hx fun y hy => hsub (List.mem_cons_of_mem x hy)

end ExecProgress

/-- The cache is the scheduler's own, an execution keeps its workflow, and no event is lost. -/
structure OrderRely (irOf : String → String → Option WorkflowIr) (s t : Sys) : Prop where
  progress : t.progress = s.progress
  runs : ∀ e ir, s.db.RunsIr irOf e ir → t.db.RunsIr irOf e ir
  logs : ∀ e, (s.db.events e).entries ⊆ (t.db.events e).entries

def orderSpec (irOf : String → String → Option WorkflowIr) : Spec SchedOp Sys where
  inv s := ∀ e p, s.progress e = some p → p.Backed (s.db.events e).entries
  rely := OrderRely irOf
  rely_refl _ := ⟨rfl, fun _ _ h => h, fun _ => List.Subset.refl _⟩
  rely_trans h₁ h₂ := ⟨h₂.progress.trans h₁.progress, fun e ir h => h₂.runs e ir (h₁.runs e ir h),
    fun e => List.Subset.trans (h₁.logs e) (h₂.logs e)⟩
  good op s := match op with
    | .inr (.setProgress e p) => p.Backed (s.db.events e).entries
    | .inl (.appendEvent e kind) => ∀ node, kind.reaches node = true → s.db.Due irOf e node
    | .inl (.enqueueWorkItem item _) =>
        Dispatched item.nodeId (s.db.events item.executionId).entries ∧
          s.db.Due irOf item.executionId item.nodeId
    | _ => True

/-- The tick is at a progress of the execution that its log backs. -/
structure Going (irOf : String → String → Option WorkflowIr) (e : ExecutionId) (ir : WorkflowIr)
    (p : ExecProgress) (s : Sys) : Prop where
  runs : s.db.RunsIr irOf e ir
  backed : p.Backed (s.db.events e).entries

section Tick

variable [Chrono] {cfg : SchedulerConfig} {irOf : String → String → Option WorkflowIr}
  {order : HashOrder NodeId} {s t : Sys} {e : ExecutionId} {ir : WorkflowIr} {p : ExecProgress}
  {workflowId workflowVersion : String} {node : NodeId}

omit [Chrono] in
theorem Going.stable (h : Going irOf e ir p s) (ht : OrderRely irOf s t) : Going irOf e ir p t :=
  ⟨ht.runs e ir h.runs, h.backed.mono (ht.logs e)⟩

theorem orderRely_handle {β : Type} (op : BackendOp β) (s : Sys) :
    OrderRely irOf s ((engine cfg irOf).handle (.inl op) s).2 :=
  ⟨rfl, fun _ _ h => h.exec op, events_subset_exec op s.db⟩

theorem Going.handle {β : Type} (h : Going irOf e ir p s) (op : SchedOp β) :
    Going irOf e ir p ((engine cfg irOf).handle op s).2 := by
  cases op with
  | inl op => exact h.stable (orderRely_handle op s)
  | inr op => cases op <;> exact ⟨h.runs, h.backed⟩

/-- Calls that reach no node pass the position by. -/
theorem wp_going {α : Type} {q : Sched α} {ok : {β : Type} → SchedOp β → Prop}
    (hq : q.Within ok)
    (hok : ∀ {β : Type} (op : SchedOp β) (s : Sys), ok op → (orderSpec irOf).good op s)
    (h : Going irOf e ir p s) :
    wp (engine cfg irOf) {} (orderSpec irOf) q (fun _ => Going irOf e ir p) s :=
  wp_mono (fun _ _ _ h => h.1) (wp_within hq (fun _ _ h ht _ => h.stable ht)
    (fun op s hop _ h => ⟨hok op s hop, fun _ => h.handle op⟩) h)

/-- The tick goes on from an append only with the event in the log. -/
theorem handle_appendEvent (e : ExecutionId) (kind : EventKind) (s : Sys) :
    ends (fun _ t => ∃ x ∈ (t.db.events e).entries, x.kind = kind) (fun _ _ => True)
      ((engine cfg irOf).handle (.inl (.appendEvent e kind)) s).1
      ((engine cfg irOf).handle (.inl (.appendEvent e kind)) s).2 := by
  rcases Db.appendEvent_cases s.db e kind with ⟨_, hfail⟩ | ⟨_, happ⟩
  · simp only [engine, Sys.handle, Sys.callBackend, BackendOp.exec, hfail]
    exact trivial
  · simp only [engine, Sys.handle, Sys.callBackend, BackendOp.exec, happ]
    change ∃ x ∈ ((s.db.setEvents e ((s.db.events e).append kind)).events e).entries, x.kind = kind
    rw [Db.setEvents_events_self, SeqLog.entries_append]
    exact ⟨_, List.mem_append_right _ (List.mem_singleton.mpr rfl), rfl⟩

omit [Chrono] in
theorem ends_of_state {α : Type} {P : Sys → Prop} {Q : α → Sys → Prop}
    {E : BackendError → Sys → Prop} {r : Except BackendError α} (h : P s)
    (hQ : ∀ a t, P t → Q a t) (hE : ∀ e t, P t → E e t) : ends Q E r s := by
  cases r with
  | ok a => exact hQ a s h
  | error e => exact hE e s h

theorem wp_appendEvent_order {α : Type} {kind : EventKind} {f : EventSequence → Sched α}
    {Q : α → Sys → Prop} (h : Going irOf e ir p s)
    (hready : ∀ node, kind.reaches node = true → ir.Ready (s.db.events e).entries node)
    (hf : ∀ sequence t, Going irOf e ir p t → (s.db.events e).entries ⊆ (t.db.events e).entries →
      (∃ x ∈ (t.db.events e).entries, x.kind = kind) →
      wp (engine cfg irOf) {} (orderSpec irOf) (f sequence) (ends Q fun _ _ => True) t) :
    wp (engine cfg irOf) {} (orderSpec irOf) (backend (.appendEvent e kind) >>= f)
      (ends Q fun _ _ => True) s := by
  refine wp_call fun t ht _ => ⟨fun node hreach => ?_, fun _ => ?_, fun _ _ _ _ _ _ => trivial⟩
  · exact ⟨ir, ht.runs e ir h.runs, (hready node hreach).mono (ht.logs e)⟩
  · have hnext : Going irOf e ir p ((engine cfg irOf).handle (.inl (.appendEvent e kind)) t).2 :=
      (h.stable ht).handle _
    have hsub := List.Subset.trans (ht.logs e) (events_subset_exec (.appendEvent e kind) t.db e)
    refine ends_mono (fun sequence hx => ?_) (fun _ _ _ _ _ => trivial) (handle_appendEvent e kind t)
    exact hf sequence _ hnext hsub hx

theorem wp_skipNode_order (h : Going irOf e ir p s)
    (hready : ir.Ready (s.db.events e).entries node) :
    wp (engine cfg irOf) {} (orderSpec irOf) (skipNode e p node)
      (ends (fun p' => Going irOf e ir p') fun _ _ => True) s := by
  unfold skipNode
  refine wp_call fun t ht _ => ⟨trivial, fun _ => ?_, fun _ _ _ _ _ _ => trivial⟩
  refine wp_appendEvent_order ((h.stable ht).handle _) (fun node' hreach => ?_) ?_
  · obtain rfl : node = node' := of_decide_eq_true hreach
    exact hready.mono (ht.logs e)
  · intro sequence u hu _ hmem v hv _
    exact Going.stable ⟨hu.runs, hu.backed.apply hmem⟩ hv

theorem wp_skipCascade_order {passes : ℕ} (h : Going irOf e ir p s) :
    wp (engine cfg irOf) {} (orderSpec irOf) (skipCascade order ir e passes p)
      (ends (fun p' => Going irOf e ir p') fun _ _ => True) s := by
  induction passes generalizing p s with
  | zero => exact fun t ht _ => h.stable ht
  | succ passes ih =>
    have hready : ∀ node ∈ p.newlySkippable order ir, ir.Ready (s.db.events e).entries node :=
      fun node hnode =>
        have ⟨hkey, hskip⟩ := ExecProgress.mem_newlySkippable.mp hnode
        h.backed.ready_of_skippable hkey hskip
    unfold skipCascade
    split
    · exact fun t ht _ => h.stable ht
    · rename_i heq
      rw [heq] at hready
      refine wp_bind (wp_foldlM (fun nodes p' t => Going irOf e ir p' t ∧
        ∀ node ∈ nodes, ir.Ready (t.db.events e).entries node) ?_ ?_ ?_ ⟨h, hready⟩)
      · intro node nodes p' t ⟨ht, hnodes⟩ _
        have hskip : wp (engine cfg irOf) {} (orderSpec irOf) (skipNode e p' node)
            (ends (fun p'' => Going irOf e ir p'') fun _ _ => True) t :=
          wp_skipNode_order ht (hnodes node List.mem_cons_self)
        -- the nodes to come stay ready while this one is skipped
        have hkept := wp_keep (X := fun u : Sys => ∀ node ∈ nodes,
            ir.Ready (u.db.events e).entries node)
          (fun a b ha (hab : OrderRely irOf a b) node hnode => (ha node hnode).mono (hab.logs e))
          (fun op a ha node hnode => ?_)
          hskip fun node hnode => hnodes node (List.mem_cons_of_mem _ hnode)
        · refine wp_mono (fun r u _ hr => ?_) hkept
          cases r with
          | ok p'' => exact hr
          | error _ => trivial
        · cases op with
          | inl op => exact (ha node hnode).mono (events_subset_exec op a.db e)
          | inr op => cases op <;> exact ha node hnode
      · exact fun nodes p' a b ⟨ha, hnodes⟩ hab _ =>
          ⟨ha.stable hab, fun node hnode => (hnodes node hnode).mono (hab.logs e)⟩
      · exact fun p' t ⟨ht, _⟩ _ => ih ht

theorem wp_readProgress_order (h : s.db.RunsIr irOf e ir) :
    wp (engine cfg irOf) {} (orderSpec irOf) (readProgress e)
      (ends (fun p' => Going irOf e ir p') fun _ _ => True) s := by
  unfold readProgress backend here
  apply wp_call
  intro t ht hit
  refine ⟨trivial, fun _ => ?_, fun hf => by cases hf⟩
  apply wp_call
  intro u hu hiu
  refine ⟨trivial, fun _ => ?_, fun _ _ _ _ _ _ => trivial⟩
  have hcached : ((t.progress e).getD {}).Backed (u.db.events e).entries := by
    cases hp : t.progress e with
    | none => exact ExecProgress.backed_default _
    | some p => exact hiu e p ((congrFun hu.progress e).trans hp)
  obtain ⟨p, hp⟩ : ∃ p, p = ((t.progress e).getD {}).applyAll
      ((u.db.events e).since ((t.progress e).getD {}).lastSequence) := ⟨_, rfl⟩
  have hbacked : p.Backed (u.db.events e).entries := by
    rw [hp]
    exact hcached.applyAll (List.filter_subset_self _)
  have hgoing : Going irOf e ir p u := ⟨hu.runs e ir (ht.runs e ir h), hbacked⟩
  apply wp_call
  intro v hv _
  have hset : Going irOf e ir p v := (hgoing.handle _).stable hv
  subst hp
  refine ⟨hset.backed, fun _ => ?_, fun hf => by cases hf⟩
  exact fun w hw _ => (hset.handle _).stable hw

/-- The node is recorded as scheduled before its work item is enqueued. -/
theorem wp_dispatchNode_order (h : Going irOf e ir p s)
    (hready : ir.Ready (s.db.events e).entries node) (nodeDef : NodeDef) :
    wp (engine cfg irOf) {} (orderSpec irOf)
      (dispatchNode ir e workflowId workflowVersion p node nodeDef)
      (ends (fun _ => Going irOf e ir p) fun _ _ => True) s := by
  unfold dispatchNode appendNext here
  refine wp_bind (wp_call fun t ht _ => ⟨trivial, fun _ => ?_, fun _ _ _ _ _ _ => trivial⟩)
  have hready : ir.Ready (t.db.events e).entries node := hready.mono (ht.logs e)
  refine wp_appendEvent_order ((h.stable ht).handle _) (fun node' hreach => ?_) ?_
  · obtain rfl : node = node' := of_decide_eq_true hreach
    exact hready
  intro sequence u hu hsub ⟨x, hx, hkind⟩
  refine wp_pure fun v hv _ => ?_
  refine wp_call fun w hw _ => ⟨trivial, fun _ => ?_, fun hf => by cases hf⟩
  refine wp_call fun y hy _ => ?_
  have hlog : (u.db.events e).entries ⊆ (y.db.events e).entries :=
    List.Subset.trans (List.Subset.trans (hv.logs e) (hw.logs e)) (hy.logs e)
  have hgoing : Going irOf e ir p y := (((hu.stable hv).stable hw).handle _).stable hy
  refine ⟨⟨⟨x, hlog hx, _, hkind⟩, ir, hgoing.runs, (hready.mono hsub).mono hlog⟩, fun _ => ?_,
    fun _ _ _ _ _ _ => trivial⟩
  have hnext : ∀ op : SchedOp WorkItemId, Going irOf e ir p ((engine cfg irOf).handle op y).2 :=
    hgoing.handle
  refine ends_of_state (hnext _) (fun _ z hz => ?_) fun _ _ _ _ _ _ => trivial
  exact wp_pure fun z' hz' _ => hz.stable hz'

theorem wp_dispatch_order (h : Going irOf e ir p s) (nodes : List NodeId) (enqueued : ℕ) :
    wp (engine cfg irOf) {} (orderSpec irOf)
      (dispatch cfg ir e workflowId workflowVersion p nodes enqueued)
      (ends (fun _ => Going irOf e ir p) fun _ _ => True) s := by
  induction nodes generalizing enqueued s with
  | nil => exact fun t ht _ => h.stable ht
  | cons nodeId rest ih =>
    unfold dispatch
    split
    · exact fun t ht _ => h.stable ht
    · split
      · exact fun t ht _ => h.stable ht
      · split
        · exact ih h _
        · split
          · rename_i hrun
            split
            · rename_i nodeDef hlook
              have hkey : nodeId ∈ ir.nodes.keys :=
                Finmap.mem_keys.mpr (Finmap.mem_of_lookup_eq_some hlook)
              refine wp_bind (wp_mono (fun r t _ ht => ?_)
                (wp_dispatchNode_order h (h.backed.ready_of_runnable hkey hrun) nodeDef))
              cases r with
              | ok _ => exact ih ht _
              | error _ => trivial
            · exact ih h _
          · exact ih h _

omit [Chrono] in
theorem records_good {β : Type} {op : SchedOp β} (h : Records e op) (s : Sys) :
    (orderSpec irOf).good op s := by
  cases h <;> first | trivial | exact fun node hreach => by cases hreach

theorem wp_advance_order (h : Going irOf e ir p s) :
    wp (engine cfg irOf) {} (orderSpec irOf)
      (advance cfg order ir e workflowId workflowVersion p) (fun _ _ => True) s := by
  unfold advance
  refine wp_bind (wp_mono (fun r t _ ht => ?_)
    (wp_going (within_sweepDeadlines cfg p) (fun op s hop => records_good hop s) h))
  cases r with
  | error _ => trivial
  | ok _ =>
    refine wp_bind (wp_mono (fun r u _ hu => ?_)
      (wp_going (within_failRejected order p) (fun op s hop => records_good hop s) ht))
    cases r with
    | error _ => trivial
    | ok _ =>
      refine wp_bind (wp_mono (fun r v _ hv => ?_) (wp_skipCascade_order hu))
      cases r with
      | error _ => trivial
      | ok p' =>
        refine wp_call fun w hw _ => ?_
        have hset : Going irOf e ir p' w := Going.stable hv hw
        refine ⟨hset.backed, fun _ => ?_, fun hf => by cases hf⟩
        have hgoing : Going irOf e ir p' ((engine cfg irOf).handle (.inr (.setProgress e p')) w).2 :=
          hset.handle _
        change wp (engine cfg irOf) {} (orderSpec irOf)
          (dispatchAndFinish cfg order ir e workflowId workflowVersion p') _ _
        unfold dispatchAndFinish
        split
        · exact wp_pure fun _ _ _ => trivial
        · refine wp_bind (wp_mono (fun r x _ hx => ?_) (wp_dispatch_order hgoing _ 0))
          cases r with
          | error _ => trivial
          | ok enqueued =>
            refine wp_mono (fun _ _ _ _ => trivial) (wp_going (within_finishIfDone order p' enqueued)
              (fun op s hop => ?_) hx)
            cases hop <;> trivial

theorem wp_scheduleRunnableNodes_order
    (h : ∀ ir, irOf workflowId workflowVersion = some ir → s.db.RunsIr irOf e ir) :
    wp (engine cfg irOf) {} (orderSpec irOf)
      (scheduleRunnableNodes cfg order e workflowId workflowVersion) (fun _ _ => True) s := by
  unfold scheduleRunnableNodes here
  refine wp_call fun t ht _ => ⟨trivial, fun _ => ?_, fun _ _ _ _ _ _ => trivial⟩
  have hreply : (engine cfg irOf).handle (.inr (.loadWorkflow workflowId workflowVersion)) t =
      (.ok (irOf workflowId workflowVersion), t) := rfl
  rw [hreply]
  cases hir : irOf workflowId workflowVersion with
  | none => exact fun _ _ _ => trivial
  | some ir =>
    refine wp_bind (wp_mono (fun r u _ hu => ?_) (wp_readProgress_order (ht.runs e ir (h ir hir))))
    cases r with
    | error _ => trivial
    | ok p =>
      change wp (engine cfg irOf) {} (orderSpec irOf) (if p.unreadable = true then _ else _) _ u
      split
      · exact wp_mono (fun _ _ _ _ => trivial) (wp_going (within_recordStall p)
          (fun op s hop => records_good hop s) hu)
      · exact wp_advance_order hu

theorem order_sound : Sound (engine cfg irOf) {} (orderSpec irOf) where
  act a s hi _ := by
    cases a with
    | passTime nanos => exact ⟨hi, rfl, fun _ _ h => h, fun _ => List.Subset.refl _⟩
    | call op =>
      refine ⟨fun e p hp => (hi e p hp).mono (events_subset_exec op s.db e), ?_⟩
      exact ⟨rfl, fun _ _ h => h.exec op, events_subset_exec op s.db⟩
  act_rest _ _ _ _ _ := trivial
  call op s hi hg _ := by
    cases op with
    | inl op => exact fun e p hp => (hi e p hp).mono (events_subset_exec op s.db e)
    | inr op =>
      intro e p hp
      change p.Backed ((s.callLocal irOf op).2.db.events e).entries
      rw [Sys.callLocal_db]
      refine Sys.cached_callLocal (I := fun e p => p.Backed (s.db.events e).entries) hi ?_ e p hp
      cases op <;> exact hg
  stop s _ _ := ⟨fun _ _ h => (by cases h), trivial⟩
  job order s _ _ _ := by
    refine wp_tick (fun _ => True) (fun x t => ∀ ir, irOf x.workflowId x.workflowVersion = some ir →
      t.db.RunsIr irOf x.executionId ir) (fun _ _ _ _ _ => trivial)
      (fun x s t h ht ir hir => ht.runs _ ir (h ir hir)) (fun x _ op s h ir hir => ?_)
      (fun s _ _ => ?_) (fun s _ _ => ⟨trivial, fun _ => ⟨trivial, fun x hx ir hir => ?_⟩⟩)
      (fun x s _ hx _ => wp_scheduleRunnableNodes_order hx) trivial
    · cases op with
      | inl op => exact (h ir hir).exec op
      | inr op => cases op <;> exact h ir hir
    · refine wp_mono (fun _ _ _ _ => trivial) (wp_within within_reclaimExpiredLeases
        (P := fun _ => True) (fun _ _ _ _ _ => trivial) (fun op s h _ _ => ⟨?_, fun _ => trivial⟩)
        trivial)
      rcases h with h | h <;> cases h <;> first | trivial | exact fun node hreach => by cases hreach
    · obtain ⟨hx, -⟩ := mem_listExecutions hx
      exact ⟨x, Table.find?_of_mem hx, hir⟩

end Tick

/-- In every run, beside any other parties, the scheduler records a node as scheduled or skipped
only when each node with an edge to it has completed, been skipped or been cancelled. -/
theorem reached_after_sources [Chrono] (cfg : SchedulerConfig)
    (irOf : String → String → Option WorkflowIr) (db : Db) (clock : Instant) (ms : List EngineMove)
    (e : ExecutionId) (kind : EventKind) (k : Except BackendError EventSequence → Sched Unit)
    (hcall : ((boot db clock).run (engine cfg irOf) ms).running =
      some (.call (.inl (.appendEvent e kind)) k)) (node : NodeId)
    (hreach : kind.reaches node = true) :
    ((boot db clock).run (engine cfg irOf) ms).state.db.Due irOf e node := by
  have hstart : Meets (engine cfg irOf) {} (orderSpec irOf) (boot db clock) :=
    ⟨fun _ _ h => (by cases h), trivial⟩
  have hmeets := hstart.run order_sound (Rules.obeyed_default _ ms)
  exact hmeets.good hcall node hreach

/-- With the condition completed and `b` skipped, `c` is scheduled. -/
theorem reached_after_sources_routed : ∃ k,
    ((boot {} 0).run routedEngine (skippingRun ++ List.replicate 3 .advance)).running =
      some (.call (.inl (.appendEvent 0 (.nodeScheduled "c" "tool"))) k) ∧
    ((boot {} 0).run routedEngine (skippingRun ++ List.replicate 3 .advance)).state.db.Due
      (fun _ _ => some routedIr) 0 "c" :=
  ⟨_, rfl, @reached_after_sources firstDay {} _ {} 0 _ 0 (.nodeScheduled "c" "tool") _ rfl "c" rfl⟩

/-- In every run, beside any other parties, the scheduler enqueues a work item only for a node that
its execution's log has as scheduled, and to which the run has come. -/
theorem enqueued_after_scheduled [Chrono] (cfg : SchedulerConfig)
    (irOf : String → String → Option WorkflowIr) (db : Db) (clock : Instant) (ms : List EngineMove)
    (item : NewWorkItem) (now : Instant) (k : Except BackendError WorkItemId → Sched Unit)
    (hcall : ((boot db clock).run (engine cfg irOf) ms).running =
      some (.call (.inl (.enqueueWorkItem item now)) k)) :
    Dispatched item.nodeId (((boot db clock).run (engine cfg irOf) ms).state.db.events
        item.executionId).entries ∧
      ((boot db clock).run (engine cfg irOf) ms).state.db.Due irOf item.executionId item.nodeId := by
  have hstart : Meets (engine cfg irOf) {} (orderSpec irOf) (boot db clock) :=
    ⟨fun _ _ h => (by cases h), trivial⟩
  exact (hstart.run order_sound (Rules.obeyed_default _ ms)).good hcall

theorem enqueued_after_scheduled_routed : ∃ item now k,
    ((boot {} 0).run routedEngine (skippingRun ++ List.replicate 5 .advance)).running =
      some (.call (.inl (.enqueueWorkItem item now)) k) ∧ item.nodeId = "c" ∧
    Dispatched item.nodeId (((boot {} 0).run routedEngine
        (skippingRun ++ List.replicate 5 .advance)).state.db.events item.executionId).entries ∧
    ((boot {} 0).run routedEngine (skippingRun ++ List.replicate 5 .advance)).state.db.Due
      (fun _ _ => some routedIr) item.executionId item.nodeId :=
  ⟨_, _, _, rfl, rfl, @enqueued_after_scheduled firstDay {} _ {} 0 _ _ _ _ rfl⟩

end JamJet
