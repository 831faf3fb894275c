import JamJet.Skips
import JamJet.TickCalls
import Mathlib.Order.WellFoundedSet

/-! When the scheduler ends a run: nothing scheduled and nothing dispatched means, on an acyclic
graph, that every node is done, or that some node failed for good and no other can run. -/

namespace JamJet

open AtomicCalls Scheduler

namespace WorkflowIr

def Edge (ir : WorkflowIr) (src dst : NodeId) : Prop := ⟨src, dst⟩ ∈ ir.edges

def Acyclic (ir : WorkflowIr) : Prop := ∀ node, ¬ Relation.TransGen ir.Edge node node

def SourcesAreNodes (ir : WorkflowIr) : Prop := ∀ edge ∈ ir.edges, edge.src ∈ ir.nodes.keys

theorem induction_nodes {ir : WorkflowIr} (hacyc : ir.Acyclic) {P : NodeId → Prop}
    (h : ∀ node ∈ ir.nodes.keys, (∀ src ∈ ir.nodes.keys, ir.Edge src node → P src) → P node) :
    ∀ node ∈ ir.nodes.keys, P node := by
  have : IsStrictOrder NodeId (Relation.TransGen ir.Edge) :=
    { irrefl := hacyc, trans := fun _ _ _ => Relation.TransGen.trans }
  have hwf : (ir.nodes.keys : Set NodeId).WellFoundedOn (Relation.TransGen ir.Edge) :=
    Finset.wellFoundedOn _
  intro node hnode
  refine hwf.induction (Finset.mem_coe.mpr hnode) fun n hn ih => ?_
  exact h n hn fun src hsrc hedge => ih src hsrc (.single hedge)

end WorkflowIr

namespace ExecProgress

variable {p : ExecProgress} {ir : WorkflowIr} {node : NodeId}

theorem isRunnable_iff : p.isRunnable ir node = true ↔
    node ∉ p.scheduled ∧ node ∉ p.completed ∧ node ∉ p.skipped ∧
      (inEdges ir node = [] ∨ (∃ e ∈ inEdges ir node, p.edgeDead ir e.src node = false) ∧
        ∀ e ∈ inEdges ir node, p.edgeDead ir e.src node = false → e.src ∈ p.completed) := by
  unfold isRunnable
  split
  · rename_i h
    simp only [Bool.false_eq_true, false_iff]
    rintro ⟨hs, hc, hk, _⟩
    simp [hs, hc, hk] at h
  · rename_i h
    simp only [not_or] at h
    simp only [h.1, h.2.1, h.2.2, not_false_eq_true, true_and]
    split
    · rename_i hnil
      simp [List.isEmpty_iff.mp hnil]
    · rename_i hcons
      have hne : inEdges ir node ≠ [] := by simpa using hcons
      simp only [hne, false_or, Bool.and_eq_true, Bool.not_eq_true', List.isEmpty_eq_false_iff,
        ne_eq, List.filter_eq_nil_iff, List.all_filter, List.all_eq_true, decide_eq_true_eq,
        Bool.or_eq_true, Bool.not_not, not_forall]
      refine and_congr (by simp) (forall₂_congr fun e _ => ?_)
      cases p.edgeDead ir e.src node <;> simp

theorem mem_inEdges {edge : EdgeDef} : edge ∈ inEdges ir node ↔ edge ∈ ir.edges ∧ edge.dst = node := by
  simp [inEdges]

theorem all_completed (hacyc : ir.Acyclic) (hsrc : ir.SourcesAreNodes)
    (hsub : p.skipped ⊆ p.completed) (hsched : p.scheduled = ∅) (hfail : p.terminalFailed = ∅)
    (hskip : ∀ node ∈ ir.nodes.keys, p.skippable ir node = false)
    (hrun : ∀ node ∈ ir.nodes.keys, p.isRunnable ir node = false) :
    ∀ node ∈ ir.nodes.keys, node ∈ p.completed := by
  refine ir.induction_nodes hacyc fun node hnode ih => ?_
  by_contra hc
  have hk : node ∉ p.skipped := fun h => hc (hsub h)
  have hdone : ∀ e ∈ inEdges ir node, e.src ∈ p.completed := by
    intro e he
    obtain ⟨hmem, rfl⟩ := mem_inEdges.mp he
    exact ih e.src (hsrc e hmem) hmem
  -- with every predecessor done, the node is a root, has a live in-edge, or has only dead ones
  by_cases hlive : ∃ e ∈ inEdges ir node, p.edgeDead ir e.src node = false
  · have hr : p.isRunnable ir node = true :=
      isRunnable_iff.mpr ⟨by simp [hsched], hc, hk, .inr ⟨hlive, fun e he _ => hdone e he⟩⟩
    rw [hrun node hnode] at hr
    cases hr
  · by_cases hroot : inEdges ir node = []
    · have hr : p.isRunnable ir node = true :=
        isRunnable_iff.mpr ⟨by simp [hsched], hc, hk, .inl hroot⟩
      rw [hrun node hnode] at hr
      cases hr
    · have hs : p.skippable ir node = true := by
        refine skippable_iff.mpr ⟨by simp [resolved, hc, hk, hsched, hfail], hroot, ?_⟩
        intro e he
        by_contra hne
        exact hlive ⟨e, he, by simpa using hne⟩
      rw [hskip node hnode] at hs
      cases hs

end ExecProgress

open ExecProgress

/-- A dispatch loop that enqueued nothing, under caps it had not reached, found no node to run. -/
theorem ends_dispatch {cfg : SchedulerConfig} {ir : WorkflowIr} {e : ExecutionId}
    {workflowId workflowVersion : String} {p : ExecProgress} {nodes : List NodeId}
    {enqueued n : ℕ}
    (h : (dispatch cfg ir e workflowId workflowVersion p nodes enqueued).Ends (.ok n)) :
    enqueued ≤ n ∧ (n = 0 → 1 ≤ cfg.maxDispatchPerTick →
      p.scheduled.card < cfg.maxConcurrentNodesPerExecution →
      ∀ node ∈ nodes, node ∈ ir.nodes.keys → node ∉ p.terminalFailed →
        p.isRunnable ir node = false) := by
  induction nodes generalizing enqueued with
  | nil =>
    cases h
    exact ⟨le_rfl, by simp⟩
  | cons nodeId rest ih =>
    unfold dispatch at h
    split at h
    · rename_i hcap
      cases h
      exact ⟨le_rfl, fun h0 h1 => by omega⟩
    · split at h
      · rename_i hcap
        cases h
        exact ⟨le_rfl, fun h0 _ h2 => by omega⟩
      · split at h
        · rename_i hfailed
          obtain ⟨hle, hnone⟩ := ih h
          refine ⟨hle, fun h0 h1 h2 node hnode hkey hnf => ?_⟩
          rcases List.mem_cons.mp hnode with rfl | hnode
          · exact absurd hfailed hnf
          · exact hnone h0 h1 h2 node hnode hkey hnf
        · split at h
          · rename_i hrunnable
            split at h
            · obtain ⟨_, _, h⟩ := Prog.ends_bind.mp h
              obtain ⟨hle, _⟩ := ih h
              exact ⟨by omega, fun h0 => by omega⟩
            · rename_i hlook
              obtain ⟨hle, hnone⟩ := ih h
              refine ⟨hle, fun h0 h1 h2 node hnode hkey hnf => ?_⟩
              rcases List.mem_cons.mp hnode with rfl | hnode
              · exact absurd (Finmap.mem_keys.mp hkey) (Finmap.lookup_eq_none.mp hlook)
              · exact hnone h0 h1 h2 node hnode hkey hnf
          · rename_i hidle
            obtain ⟨hle, hnone⟩ := ih h
            refine ⟨hle, fun h0 h1 h2 node hnode hkey hnf => ?_⟩
            rcases List.mem_cons.mp hnode with rfl | hnode
            · simpa using hidle
            · exact hnone h0 h1 h2 node hnode hkey hnf

/-- The execution runs this version of this workflow. -/
def Runs (s : Sys) (e : ExecutionId) (workflowId workflowVersion : String) : Prop :=
  ∃ x, s.db.executions.find? e = some x ∧ x.workflowId = workflowId ∧
    x.workflowVersion = workflowVersion

/-- What the progress says when a run is ended with an event. -/
def EndsRightly (ir : WorkflowIr) (p : ExecProgress) (kind : EventKind) : Prop :=
  (∀ finalState, kind = .workflowCompleted finalState →
    (∀ node ∈ ir.nodes.keys, node ∈ p.completed) ∧ p.terminalFailed = ∅) ∧
  (∀ error, kind = .workflowFailed error →
    p.terminalFailed.Nonempty ∧ p.scheduled = ∅ ∧
      ∀ node ∈ ir.nodes.keys, node ∉ p.terminalFailed → p.isRunnable ir node = false)

/-- The cached progress of an execution, over the workflow it runs, allows the event. -/
def MayFinish (irOf : String → String → Option WorkflowIr) (s : Sys) (e : ExecutionId)
    (kind : EventKind) : Prop :=
  ∃ workflowId workflowVersion ir p, Runs s e workflowId workflowVersion ∧
    irOf workflowId workflowVersion = some ir ∧ s.progress e = some p ∧
    (ir.Acyclic → ir.SourcesAreNodes → EndsRightly ir p kind)

def finishGood (irOf : String → String → Option WorkflowIr) {β : Type} : SchedOp β → Sys → Prop
  | .inl (.finishExecution e kind _ _), s => MayFinish irOf s e kind
  | .inr (.setProgress _ p), _ => p.skipped ⊆ p.completed
  | _, _ => True

/-- The cache is the scheduler's own, and an execution keeps its workflow. -/
def finishRely (s s' : Sys) : Prop :=
  s'.progress = s.progress ∧ ∀ e workflowId workflowVersion, Runs s e workflowId workflowVersion →
    Runs s' e workflowId workflowVersion

def finishSpec (irOf : String → String → Option WorkflowIr) : Spec SchedOp Sys where
  inv s := ∀ e p, s.progress e = some p → p.skipped ⊆ p.completed
  rely := finishRely
  rely_refl _ := ⟨rfl, fun _ _ _ h => h⟩
  rely_trans h₁ h₂ := ⟨h₂.1.trans h₁.1, fun e i v h => h₂.2 e i v (h₁.2 e i v h)⟩
  good op s := finishGood irOf op s

theorem Runs.exec {s : Sys} {e : ExecutionId} {workflowId workflowVersion : String} {β : Type}
    (op : BackendOp β) (h : Runs s e workflowId workflowVersion) :
    Runs { s with db := (op.exec s.db).2 } e workflowId workflowVersion := by
  obtain ⟨x, hx, hid, hv⟩ := h
  obtain ⟨x', hx', hstep⟩ := (op.effect s.db).executions.row hx
  refine ⟨x', hx', ?_⟩
  cases hstep <;> exact ⟨hid, hv⟩

theorem finishRely_act (a : Act) (s : Sys) : finishRely s (s.act a) := by
  cases a with
  | call op => exact ⟨rfl, fun e i v h => h.exec op⟩
  | passTime nanos => exact ⟨rfl, fun e i v h => h⟩

section Tick

variable [Chrono] {cfg : SchedulerConfig} {irOf : String → String → Option WorkflowIr}
  {U : EngineRules} {order : HashOrder NodeId} {s : Sys} {e : ExecutionId}
  {workflowId workflowVersion : String} {ir : WorkflowIr}

theorem Runs.handle (h : Runs s e workflowId workflowVersion) {β : Type} (op : SchedOp β) :
    Runs ((engine cfg irOf).handle op s).2 e workflowId workflowVersion := by
  cases op with
  | inl op => exact h.exec op
  | inr op => cases op <;> exact h

theorem wp_recording {α : Type} {p : Sched α} (ok : {β : Type} → SchedOp β → Prop)
    (hp : p.Within ok) (hgood : ∀ {β : Type} (op : SchedOp β) s, ok op → finishGood irOf op s)
    (hcache : ∀ {β : Type} (op : SchedOp β) (s : Sys), ok op →
      ((engine cfg irOf).handle op s).2.progress = s.progress)
    {known : Option ExecProgress} (hr : Runs s e workflowId workflowVersion)
    (hk : s.progress e = known) :
    wp (engine cfg irOf) U (finishSpec irOf) p (fun r t =>
      (Runs t e workflowId workflowVersion ∧ t.progress e = known) ∧ p.Ends r) s := by
  refine wp_within hp (P := fun t => Runs t e workflowId workflowVersion ∧ t.progress e = known)
    (fun a b ha hab _ => ⟨hab.2 _ _ _ ha.1, by rw [hab.1]; exact ha.2⟩)
    (fun op a hop _ ha => ⟨hgood op a hop, fun _ => ⟨ha.1.handle op, ?_⟩⟩) ⟨hr, hk⟩
  rw [hcache op a hop]
  exact ha.2

theorem wp_finishIfDone {p : ExecProgress} {enqueued : ℕ}
    (hr : Runs s e workflowId workflowVersion) (hir : irOf workflowId workflowVersion = some ir)
    (hp : s.progress e = some p)
    (hends : enqueued = 0 → p.scheduled = ∅ → ir.Acyclic → ir.SourcesAreNodes →
      EndsRightly ir p (outcome order p).2) :
    wp (engine cfg irOf) U (finishSpec irOf) (finishIfDone order e p enqueued) (fun _ _ => True)
      s := by
  unfold finishIfDone backend here
  split
  · rename_i hdone
    apply wp_call
    intro t ht _
    refine ⟨trivial, fun _ => ?_, fun hf => by cases hf⟩
    apply wp_call
    intro u hu _
    refine ⟨?_, fun _ => ?_, fun _ _ _ _ _ _ => trivial⟩
    · refine ⟨workflowId, workflowVersion, ir, p, hu.2 _ _ _ (ht.2 _ _ _ hr), hir, ?_, ?_⟩
      · rw [hu.1]
        exact (congrFun ht.1 e).trans hp
      · exact hends hdone.1 hdone.2
    · generalize ((engine cfg irOf).handle _ u).1 = reply
      cases reply with
      | error _ => exact fun _ _ _ => trivial
      | ok _ => exact fun v _ _ => ⟨trivial, fun _ _ _ _ => trivial, fun hf => by cases hf⟩
  · exact wp_pure fun _ _ _ => trivial

theorem wp_dispatchAndFinish {p : ExecProgress} (hd : 1 ≤ cfg.maxDispatchPerTick)
    (hr : Runs s e workflowId workflowVersion) (hir : irOf workflowId workflowVersion = some ir)
    (hp : s.progress e = some p) (hsub : p.skipped ⊆ p.completed)
    (hclosed : ∀ node ∈ ir.nodes.keys, p.skippable ir node = false) :
    wp (engine cfg irOf) U (finishSpec irOf)
      (dispatchAndFinish cfg order ir e workflowId workflowVersion p) (fun _ _ => True) s := by
  unfold dispatchAndFinish
  split
  · exact wp_pure fun _ _ _ => trivial
  · rename_i hcap
    refine wp_bind (wp_mono (fun r t _ ht => ?_) (wp_recording (Dispatches e)
      (within_dispatch cfg ir workflowId workflowVersion p (order.walk ir.nodes.keys) 0)
      (fun op s h => by cases h <;> trivial) (fun op s h => by cases h <;> rfl) hr hp))
    obtain ⟨⟨hrt, hpt⟩, hends⟩ := ht
    cases r with
    | error _ => trivial
    | ok enqueued =>
      refine wp_finishIfDone hrt hir hpt fun h0 hsched hacyc hsrc => ?_
      have hidle : ∀ node ∈ ir.nodes.keys, node ∉ p.terminalFailed →
          p.isRunnable ir node = false := fun node hnode hnf =>
        (ends_dispatch hends).2 h0 hd (by omega) node ((order.mem_walk _ _).mpr hnode) hnode hnf
      unfold outcome
      split
      · rename_i hfail
        refine ⟨fun _ _ => ⟨?_, hfail⟩, fun _ h => by cases h⟩
        exact all_completed hacyc hsrc hsub hsched hfail hclosed fun node hnode =>
          hidle node hnode (by simp [hfail])
      · rename_i hfail
        exact ⟨fun _ h => (by cases h), fun _ _ =>
          ⟨Finset.nonempty_iff_ne_empty.mpr hfail, hsched, hidle⟩⟩

theorem wp_advance {p : ExecProgress} (hd : 1 ≤ cfg.maxDispatchPerTick)
    (hr : Runs s e workflowId workflowVersion) (hir : irOf workflowId workflowVersion = some ir)
    (hsub : p.skipped ⊆ p.completed) :
    wp (engine cfg irOf) U (finishSpec irOf)
      (advance cfg order ir e workflowId workflowVersion p) (fun _ _ => True) s := by
  have hrecords : ∀ {β : Type} (op : SchedOp β) s, Records e op → finishGood irOf op s :=
    fun op s h => by cases h <;> trivial
  have hquiet : ∀ {β : Type} (op : SchedOp β) (s : Sys), Records e op →
      ((engine cfg irOf).handle op s).2.progress = s.progress := fun op s h => by cases h <;> rfl
  unfold advance
  refine wp_bind (wp_mono (fun r t _ ht => ?_) (wp_recording (Records e)
    (within_sweepDeadlines cfg p) hrecords hquiet hr rfl))
  cases r with
  | error _ => trivial
  | ok _ =>
    refine wp_bind (wp_mono (fun r u _ hu => ?_) (wp_recording (Records e)
      (within_failRejected order p) hrecords hquiet ht.1.1 rfl))
    cases r with
    | error _ => trivial
    | ok _ =>
      refine wp_bind (wp_mono (fun r v _ hv => ?_) (wp_recording (Skips e)
        (within_skipCascade order ir _ p) (fun op s h => by cases h <;> trivial)
        (fun op s h => by cases h <;> rfl) hu.1.1 rfl))
      cases r with
      | error _ => trivial
      | ok p' =>
        obtain ⟨⟨hrv, _⟩, hends⟩ := hv
        obtain ⟨hflow, hclosed⟩ := ends_skipCascade hends
        have hsub' : p'.skipped ⊆ p'.completed := by
          rw [hflow.skipped, hflow.completed]
          exact Finset.union_subset_union_left hsub
        apply wp_call
        intro w hw _
        refine ⟨hsub', fun _ => ?_, fun hf => by cases hf⟩
        refine wp_dispatchAndFinish hd (hw.2 _ _ _ hrv) hir ?_ hsub' hclosed
        exact Function.update_self e (some p') w.progress

theorem wp_readProgress (hr : Runs s e workflowId workflowVersion) :
    wp (engine cfg irOf) U (finishSpec irOf) (readProgress e)
      (ends (fun p t => Runs t e workflowId workflowVersion ∧ p.skipped ⊆ p.completed)
        fun _ _ => True) s := by
  unfold readProgress backend here
  apply wp_call
  intro t ht hit
  refine ⟨trivial, fun _ => ?_, fun hf => by cases hf⟩
  have hcached : ((t.progress e).getD {}).skipped ⊆ ((t.progress e).getD {}).completed := by
    cases hp : t.progress e with
    | none => exact Finset.Subset.refl _
    | some p => exact hit e p hp
  apply wp_call
  intro u hu _
  refine ⟨trivial, fun _ => ?_, fun _ _ _ _ _ _ => trivial⟩
  have hsub := skipped_subset_completed_applyAll hcached
    ((u.db.events e).since ((t.progress e).getD {}).lastSequence)
  apply wp_call
  intro v hv _
  refine ⟨hsub, fun _ => ?_, fun hf => by cases hf⟩
  exact fun w hw _ => ⟨hw.2 _ _ _ (hv.2 _ _ _ (hu.2 _ _ _ (ht.2 _ _ _ hr))), hsub⟩

theorem wp_scheduleRunnableNodes (hd : 1 ≤ cfg.maxDispatchPerTick)
    (hr : Runs s e workflowId workflowVersion) :
    wp (engine cfg irOf) U (finishSpec irOf)
      (scheduleRunnableNodes cfg order e workflowId workflowVersion) (fun _ _ => True) s := by
  unfold scheduleRunnableNodes here
  apply wp_call
  intro t ht _
  refine ⟨trivial, fun _ => ?_, fun _ _ _ _ _ _ => trivial⟩
  have hrt := ht.2 _ _ _ hr
  have hreply : (engine cfg irOf).handle (.inr (.loadWorkflow workflowId workflowVersion)) t =
      (.ok (irOf workflowId workflowVersion), t) := rfl
  rw [hreply]
  cases hir : irOf workflowId workflowVersion with
  | none => exact fun _ _ _ => trivial
  | some ir =>
    refine wp_bind (wp_mono (fun r u _ hu => ?_) (wp_readProgress hrt))
    cases r with
    | error _ => trivial
    | ok p =>
      obtain ⟨hru, hsub⟩ := hu
      change wp (engine cfg irOf) U (finishSpec irOf) (if p.unreadable = true then _ else _) _ u
      split
      · exact wp_mono (fun _ _ _ _ => trivial) (wp_recording (Records e) (within_recordStall p)
          (fun op s h => by cases h <;> trivial) (fun op s h => by cases h <;> rfl) hru rfl)
      · exact wp_advance hd hru hir hsub

theorem finish_sound (hd : 1 ≤ cfg.maxDispatchPerTick) :
    Sound (engine cfg irOf) U (finishSpec irOf) where
  act a s hi _ := by
    refine ⟨?_, finishRely_act a s⟩
    cases a <;> exact hi
  act_rest _ _ _ _ _ := trivial
  call op s hi hg _ := by
    cases op with
    | inl op => exact hi
    | inr op =>
      refine Sys.cached_callLocal hi ?_
      cases op <;> exact hg
  stop s _ _ := ⟨fun _ _ h => (by cases h), trivial⟩
  job order s _ hi _ := by
    refine wp_tick (fun _ => True) (fun x t => Runs t x.executionId x.workflowId x.workflowVersion)
      (fun _ _ _ _ _ => trivial) (fun x s t h ht => ht.2 _ _ _ h) (fun x _ op s h => h.handle op)
      (fun s _ _ => ?_) (fun s _ _ => ⟨trivial, fun _ => ⟨trivial, fun x hx => ?_⟩⟩)
      (fun x s _ hx _ => wp_scheduleRunnableNodes hd hx) trivial
    · exact wp_mono (fun _ _ _ _ => trivial) (wp_within within_reclaimExpiredLeases
        (P := fun _ => True) (fun _ _ _ _ _ => trivial)
        (fun op s h _ _ => ⟨by rcases h with h | h <;> cases h <;> trivial, fun _ => trivial⟩) trivial)
    · obtain ⟨hx, hstatus⟩ := mem_listExecutions hx
      exact ⟨x, Table.find?_of_mem hx, rfl, rfl⟩

/-- The scheduler ends a run only when its progress allows it: with `WorkflowCompleted` when every
node is completed and none failed for good, with `WorkflowFailed` when some node failed for good,
none is scheduled and no other can run. -/
theorem finish_only_when_done (cfg : SchedulerConfig)
    (irOf : String → String → Option WorkflowIr) (hd : 1 ≤ cfg.maxDispatchPerTick) (db : Db)
    (clock : Instant) (ms : List EngineMove) (e : ExecutionId) (kind : EventKind)
    (status : WorkflowStatus) (now : Instant) (k : Except BackendError ExecutionFinish → Sched Unit)
    (hrun : ((boot db clock).run (engine cfg irOf) ms).running =
      some (.call (.inl (.finishExecution e kind status now)) k)) :
    MayFinish irOf ((boot db clock).run (engine cfg irOf) ms).state e kind := by
  have hstart : Meets (engine cfg irOf) {} (finishSpec irOf) (boot db clock) :=
    ⟨fun _ _ h => (by cases h), trivial⟩
  exact (hstart.run (finish_sound hd) (Rules.obeyed_default _ ms)).good hrun

end Tick

/-- A one-node run from its start to the tick that ends it. -/
def finishedRun : List EngineMove :=
  [.outside (.call startOne),
    .outside (.call (.claimWorkItem "w" ["tool"] none 1)),
    .outside (.call (.commitTurn 1 1 0 (.nodeCompleted "a" emptyResult) false 2)),
    .start .sorted] ++ List.replicate 9 .advance

theorem finish_only_when_done_one_node : ∃ e kind status now k,
    ((boot {} 0).run oneNodeEngine finishedRun).running =
      some (.call (.inl (.finishExecution e kind status now)) k) ∧
    MayFinish (fun _ _ => some oneNodeIr) ((boot {} 0).run oneNodeEngine finishedRun).state e
      kind := by
  have hrun : ∃ e kind status now k, ((boot {} 0).run oneNodeEngine finishedRun).running =
      some (.call (.inl (.finishExecution e kind status now)) k) := ⟨_, _, _, _, _, rfl⟩
  obtain ⟨e, kind, status, now, k, hrun⟩ := hrun
  exact ⟨e, kind, status, now, k, hrun,
    @finish_only_when_done firstDay {} _ (by decide) {} 0 _ e kind status now k hrun⟩

end JamJet
