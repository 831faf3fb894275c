import JamJet.LiveItems

/-! Whether a node can be dispatched again while it still has a work item: the scheduler decides
from the log, so it depends on what the log last says about the node. -/

namespace JamJet

open AtomicCalls Scheduler

/-- What an event says about a node: `true` when it is under way or done, `false` when it is free
to be dispatched again. -/
def EventKind.wordOn (node : NodeId) : EventKind → Option Bool
  | .nodeScheduled n _ | .nodeStarted n _ _ | .retryScheduled n _ _ | .nodeCompleted n _
  | .nodeSkipped n _ | .nodeCancelled n => if n = node then some true else none
  | .nodeFailed n _ _ retryable => if n = node then some (!retryable) else none
  | .approvalReceived n answer =>
      if n = node ∧ answer.decision = .approved then some false else none
  | _ => none

/-- The last thing a list of events says about a node. -/
def lastWord (node : NodeId) (events : List Event) : Option Bool :=
  events.foldl (fun word event => (event.kind.wordOn node).or word) none

section LastWord

variable {node : NodeId} {xs ys : List Event}

theorem lastWord_append : lastWord node (xs ++ ys) = (lastWord node ys).or (lastWord node xs) := by
  have hfold : ∀ (w : Option Bool) (events : List Event),
      events.foldl (fun word event => (event.kind.wordOn node).or word) w =
        (lastWord node events).or w := by
    intro w events
    induction events generalizing w with
    | nil => rfl
    | cons event events ih =>
      simp only [lastWord, List.foldl_cons, Option.or_none] at ih ⊢
      rw [ih, ih (event.kind.wordOn node), Option.or_assoc]
  rw [lastWord, List.foldl_append]
  exact hfold _ ys

theorem lastWord_concat {event : Event} :
    lastWord node (xs ++ [event]) = (event.kind.wordOn node).or (lastWord node xs) := by
  rw [lastWord_append]
  simp [lastWord]

theorem lastWord_entries {log : EventLog} {n : EventSequence} {w : Bool}
    (h : lastWord node (log.since n) = some w) : lastWord node log.entries = some w := by
  rw [← SeqLog.upTo_append_since log n, lastWord_append, h]
  rfl

theorem lastWord_since_extends {log log' : EventLog} {n : EventSequence} (h : log.Extends log')
    (hw : lastWord node (log.since n) ≠ none) : lastWord node (log'.since n) ≠ none := by
  obtain ⟨more, hmore⟩ := h
  rw [SeqLog.since, ← hmore, List.filter_append, lastWord_append]
  simp only [ne_eq, Option.or_eq_none_iff, not_and]
  exact fun _ => hw

theorem lastWord_since_scheduled {log : EventLog} {n : EventSequence} {queueType : String}
    (hn : n ≤ log.latest) :
    lastWord node ((log.append (.nodeScheduled node queueType)).since n) ≠ none := by
  rw [SeqLog.since_append hn, lastWord_concat]
  simp [EventKind.wordOn]

end LastWord

/-- The fold does not dispatch the node. -/
def ExecProgress.Taken (p : ExecProgress) (node : NodeId) : Prop :=
  node ∈ p.scheduled ∨ node ∈ p.completed ∨ node ∈ p.terminalFailed

namespace ExecProgress

variable {p : ExecProgress} {node : NodeId}

theorem taken_markScheduled (p : ExecProgress) (node : NodeId) : (p.markScheduled node).Taken node := by
  unfold markScheduled
  split
  · rename_i h
    exact .inr h
  · exact .inl (Finset.mem_insert_self _ _)

theorem Taken.markScheduled (h : p.Taken node) (n : NodeId) : (p.markScheduled n).Taken node := by
  unfold ExecProgress.markScheduled
  split
  · exact h
  · exact h.imp_left Finset.mem_insert_of_mem

theorem not_taken_of_runnable {ir : WorkflowIr} (hf : node ∉ p.terminalFailed)
    (hr : p.isRunnable ir node = true) : ¬ p.Taken node := by
  rintro (h | h | h)
  · simp [isRunnable, h] at hr
  · simp [isRunnable, h] at hr
  · exact hf h

variable [Chrono]

/-- One event: a node is taken when the event says so, or was taken and the event says nothing. -/
theorem taken_apply {event : Event} (hw : event.kind.wordOn node ≠ some false)
    (hp : event.kind.wordOn node = none → p.Taken node) : (p.apply event).Taken node := by
  obtain ⟨sequence, kind⟩ := event
  change (p.applyKind sequence kind).Taken node
  cases kind with
  | nodeScheduled n _ | nodeStarted n _ _ | retryScheduled n _ _ =>
    by_cases hn : n = node
    · exact hn ▸ taken_markScheduled p n
    · exact (hp (by simp [EventKind.wordOn, hn])).markScheduled n
  | nodeCompleted n _ | nodeSkipped n _ | nodeCancelled n =>
    by_cases hn : n = node
    · exact .inr (.inl (hn ▸ Finset.mem_insert_self _ _))
    · rcases hp (by simp [EventKind.wordOn, hn]) with h | h | h
      · exact .inl (Finset.mem_erase.mpr ⟨Ne.symm hn, h⟩)
      · exact .inr (.inl (Finset.mem_insert_of_mem h))
      · exact .inr (.inr h)
  | nodeFailed n _ _ retryable =>
    by_cases hn : n = node
    · cases retryable with
      | false => exact .inr (.inr (hn ▸ Finset.mem_insert_self _ _))
      | true => simp [EventKind.wordOn, hn] at hw
    · have hkept := hp (by simp [EventKind.wordOn, hn])
      cases retryable with
      | false =>
        rcases hkept with h | h | h
        · exact .inl (Finset.mem_erase.mpr ⟨Ne.symm hn, h⟩)
        · exact .inr (.inl h)
        · exact .inr (.inr (Finset.mem_insert_of_mem h))
      | true => exact hkept.imp_left fun h => Finset.mem_erase.mpr ⟨Ne.symm hn, h⟩
  | approvalReceived n answer =>
    by_cases hn : n = node ∧ answer.decision = .approved
    · simp [EventKind.wordOn, hn] at hw
    · have hkept := hp (by simp [EventKind.wordOn, hn])
      simp only [applyKind]
      split
      · cases hd : answer.decision with
        | approved =>
          exact hkept.imp_left fun h => Finset.mem_erase.mpr ⟨fun heq => hn ⟨heq.symm, hd⟩, h⟩
        | rejected => exact hkept
      · exact hkept
  | approvalExpired n _ _ _ =>
    simp only [applyKind]
    split <;> exact hp rfl
  | workflowStarted input initiatedBy =>
    cases input <;> exact hp rfl
  | _ => exact hp rfl

theorem taken_applyAll {events : List Event} (hw : lastWord node events ≠ some false)
    (hp : lastWord node events = none → p.Taken node) : (p.applyAll events).Taken node := by
  induction events using List.reverseRecOn with
  | nil => exact hp rfl
  | append_singleton events event ih =>
    rw [applyAll_append]
    rw [lastWord_concat] at hw hp
    refine taken_apply (fun h => hw (by rw [h]; rfl)) fun hnone => ?_
    rw [hnone, Option.none_or] at hw hp
    exact ih hw hp

end ExecProgress

open ExecProgress

/-- What a progress may miss of an execution's log: of a node with a live item it holds that the
node is taken, unless the log says something about the node past it. -/
def Keeps (db : Db) (e : ExecutionId) (p : ExecProgress) : Prop :=
  p.lastSequence ≤ (db.events e).latest ∧ ∀ node, db.HasLive e node →
    lastWord node ((db.events e).since p.lastSequence) = none → p.Taken node

structure LiveInv (s : Sys) : Prop where
  one : s.db.OneLive
  homed : s.db.Homed
  told : ∀ e, Keeps s.db e {}
  cached : ∀ e p, s.progress e = some p → Keeps s.db e p

/-- The log says something about the node that no cached progress has read. -/
def Announced (s : Sys) (e : ExecutionId) (node : NodeId) : Prop :=
  ∀ p, p = {} ∨ s.progress e = some p →
    lastWord node ((s.db.events e).since p.lastSequence) ≠ none

/-- The cache stays, logs only grow, and no item comes to life for an execution already there. -/
structure LiveRely (s s' : Sys) : Prop where
  progress : s'.progress = s.progress
  log : ∀ e, (s.db.events e).Extends (s'.db.events e)
  execution : ∀ e, s.db.HasExecution e → s'.db.HasExecution e
  live : ∀ e node, s.db.HasExecution e → s'.db.HasLive e node → s.db.HasLive e node

/-- Only the engine makes work items, a run is started with the item of its first node, and no
tick reads the log of an execution while it says of a node with a live item that it is free. -/
def freedNodesSettled : EngineRules where
  actOk a _ := match a with
    | .call (.enqueueWorkItem ..) => False
    | .call (.createRun execution _ _ scheduled item _) =>
        item.executionId = execution.executionId ∧
          ∃ queueType, scheduled = .nodeScheduled item.nodeId queueType
    | _ => True
  callOk op s := match op with
    | .inl (.getEventsSince e _) => ∀ node, s.db.HasLive e node →
        lastWord node (s.db.events e).entries ≠ some false
    | _ => True

section Steps

variable {s t u : Sys} {e : ExecutionId} {node : NodeId} {p : ExecProgress}

theorem LiveRely.of_eq (hdb : t.db = s.db) (hp : t.progress = s.progress) : LiveRely s t := by
  refine ⟨hp, fun _ => ?_, fun _ h => ?_, fun _ _ _ h => ?_⟩
  · rw [hdb]
    exact .refl _
  · rwa [hdb]
  · rwa [hdb] at h

theorem LiveRely.trans (h₁ : LiveRely s t) (h₂ : LiveRely t u) : LiveRely s u where
  progress := h₂.progress.trans h₁.progress
  log e := (h₁.log e).trans (h₂.log e)
  execution e h := h₂.execution e (h₁.execution e h)
  live e node he h := h₁.live e node he (h₂.live e node (h₁.execution e he) h)

theorem Keeps.mono {db db' : Db} (h : Keeps db e p) (hlog : (db.events e).Extends (db'.events e))
    (hlive : ∀ node, db'.HasLive e node → db.HasLive e node ∨
      lastWord node ((db'.events e).since p.lastSequence) ≠ none) : Keeps db' e p := by
  refine ⟨h.1.trans hlog.latest_le, fun node hn hw => ?_⟩
  rcases hlive node hn with hn | hsaid
  · exact h.2 node hn (by_contra fun hne => lastWord_since_extends hlog hne hw)
  · exact absurd hw hsaid

theorem Announced.mono (h : Announced s e node) (hp : t.progress = s.progress)
    (hlog : (s.db.events e).Extends (t.db.events e)) : Announced t e node :=
  fun p hc => lastWord_since_extends hlog (h p (hp ▸ hc))

theorem Announced.stable (h : Announced s e node) (ht : LiveRely s t) : Announced t e node :=
  h.mono ht.progress (ht.log e)

/-- An operation keeps the invariant when what it adds is of a node without a live item that the
log has told of. -/
theorem LiveInv.exec (h : LiveInv s) {β : Type} (op : BackendOp β)
    (hadds : ∀ id r, s.db.workItems.find? id = none →
      (op.exec s.db).2.workItems.find? id = some r →
      ¬ s.db.HasLive r.executionId r.nodeId ∧
        Announced { s with db := (op.exec s.db).2 } r.executionId r.nodeId) (w : Watch) :
    LiveInv { s with db := (op.exec s.db).2, watch := w } := by
  have hlive : ∀ e p, (p = {} ∨ s.progress e = some p) → ∀ node, (op.exec s.db).2.HasLive e node →
      s.db.HasLive e node ∨
        lastWord node (((op.exec s.db).2.events e).since p.lastSequence) ≠ none := by
    rintro e p hp node ⟨id, hid⟩
    rcases hid.of_exec with hold | hnone
    · exact .inl ⟨id, hold⟩
    · obtain ⟨r, hr, rfl, rfl, _⟩ := hid
      exact .inr ((hadds id r hnone hr).2 p hp)
  refine ⟨fun e node id id' hid hid' => ?_, h.homed.exec op, fun e => ?_, fun e p hp => ?_⟩
  · rcases hid.of_exec with hold | hnone
    · rcases hid'.of_exec with hold' | hnone'
      · exact h.one e node id id' hold hold'
      · obtain ⟨r, hr, rfl, rfl, _⟩ := hid'
        exact absurd ⟨id, hold⟩ (hadds id' r hnone' hr).1
    · obtain ⟨r, hr, rfl, rfl, _⟩ := hid
      rcases hid'.of_exec with hold' | hnone'
      · exact absurd ⟨id', hold'⟩ (hadds id r hnone hr).1
      · obtain ⟨r', hr', _⟩ := hid'
        exact (adds_of_exec hnone hr).1.trans (adds_of_exec hnone' hr').1.symm
  · exact (h.told e).mono (extends_exec op s.db e) (hlive e {} (.inl rfl))
  · exact (h.cached e p hp).mono (extends_exec op s.db e) (hlive e p (.inr hp))

theorem liveRely_exec {β : Type} {op : BackendOp β} (hc : op.creates = false) (s : Sys)
    (w : Watch) : LiveRely s { s with db := (op.exec s.db).2, watch := w } where
  progress := rfl
  log e := extends_exec op s.db e
  execution _ he := he.exec op
  live _ _ _ h := h.of_exec hc

theorem liveRely_append {kind : EventKind} (s : Sys) (e : ExecutionId) (w : Watch) :
    LiveRely s { s with db := s.db.setEvents e ((s.db.events e).append kind), watch := w } where
  progress := rfl
  log e' := by
    by_cases he : e' = e
    · subst he
      simp only [Db.setEvents_events_self]
      exact SeqLog.extends_append _ _
    · simp only [Db.setEvents_events_of_ne _ he]
      exact .refl _
  execution _ he := he
  live _ _ _ h := h

theorem LiveInv.announced (h : LiveInv s) (e : ExecutionId) (node : NodeId) (queueType : String)
    (w : Watch) : Announced { s with
      db := s.db.setEvents e ((s.db.events e).append (.nodeScheduled node queueType))
      watch := w } e node := by
  intro p hp
  have hle : p.lastSequence ≤ (s.db.events e).latest := by
    rcases hp with rfl | hp
    · exact (h.told e).1
    · exact (h.cached e p hp).1
  simp only [Db.setEvents_events_self]
  exact lastWord_since_scheduled hle

theorem LiveInv.exec_of_not_creates (h : LiveInv s) {β : Type} {op : BackendOp β}
    (hc : op.creates = false) (w : Watch) :
    LiveInv { s with db := (op.exec s.db).2, watch := w } := by
  refine h.exec op (fun id r hnone hr => ?_) w
  obtain ⟨item, _, hitem, _⟩ := (op.effect s.db).items.new hnone hr
  exact absurd hitem (op.not_creates hc item)

section Start

variable {x : ExecutionRow} {seed : Option SnapshotRow} {started scheduled : EventKind}
  {item : NewWorkItem} {now : Instant}

theorem LiveInv.createRun (h : LiveInv s) (hitem : item.executionId = x.executionId)
    (hs : ∃ queueType, scheduled = .nodeScheduled item.nodeId queueType) (w : Watch) :
    LiveInv { s with
      db := ((BackendOp.createRun x seed started scheduled item now).exec s.db).2, watch := w } := by
  refine h.exec _ (fun id r hnone hr => ?_) w
  obtain ⟨_, _, he, hn, hfree, hlog⟩ := adds_of_exec hnone hr
  obtain ⟨queueType, rfl⟩ := hs
  rw [he, hn, hitem]
  refine ⟨?_, fun p hp => ?_⟩
  · -- an item of the new execution would have an execution to belong to
    rintro ⟨id', r', hr', he', _⟩
    obtain ⟨x', hx'⟩ := h.homed id' r' hr'
    rw [he', hfree] at hx'
    cases hx'
  · have hkept : Keeps s.db x.executionId p := by
      rcases hp with rfl | hp
      · exact h.told _
      · exact h.cached _ p hp
    change lastWord _ ((((BackendOp.createRun x seed started _ item now).exec s.db).2.events
      x.executionId).since _) ≠ none
    rw [hlog]
    exact lastWord_since_scheduled (hkept.1.trans (by simp))

theorem liveRely_createRun (hitem : item.executionId = x.executionId) (s : Sys) (w : Watch) :
    LiveRely s { s with
      db := ((BackendOp.createRun x seed started scheduled item now).exec s.db).2, watch := w } where
  progress := rfl
  log e := extends_exec _ s.db e
  execution _ he := he.exec _
  live e node he h := by
    obtain ⟨id, hid⟩ := h
    rcases hid.of_exec with hold | hnone
    · exact ⟨id, hold⟩
    · obtain ⟨r, hr, rfl, _⟩ := hid
      obtain ⟨_, _, hr, _, hfree, _⟩ := adds_of_exec hnone hr
      obtain ⟨x', hx'⟩ := he
      rw [hr, hitem, hfree] at hx'
      cases hx'

end Start

theorem live_act {a : Act} (ha : freedNodesSettled.actOk a s) (h : LiveInv s) :
    LiveInv (s.act a) ∧ LiveRely s (s.act a) := by
  cases a with
  | passTime nanos => exact ⟨⟨h.one, h.homed, h.told, h.cached⟩, .of_eq rfl rfl⟩
  | call op =>
    cases op with
    | enqueueWorkItem => exact ha.elim
    | createRun => exact ⟨h.createRun ha.1 ha.2 _, liveRely_createRun ha.1 s _⟩
    | _ => exact ⟨h.exec_of_not_creates rfl _, liveRely_exec rfl s _⟩

end Steps

def liveSpec : Spec SchedOp Sys where
  inv := LiveInv
  rely := LiveRely
  rely_refl _ := .of_eq rfl rfl
  rely_trans := .trans
  good op s := match op with
    | .inl (.enqueueWorkItem item _) =>
        ¬ s.db.HasLive item.executionId item.nodeId ∧ Announced s item.executionId item.nodeId
    | .inl (.createRun ..) => False
    | .inr (.setProgress e p) => Keeps s.db e p
    | _ => True

/-- The tick's own progress of an execution holds every node with a live item for taken. -/
structure Covers (e : ExecutionId) (p : ExecProgress) (s : Sys) : Prop where
  execution : s.db.HasExecution e
  le : p.lastSequence ≤ (s.db.events e).latest
  taken : ∀ node, s.db.HasLive e node → p.Taken node

section Covers

variable {s t : Sys} {e : ExecutionId} {p : ExecProgress}

theorem Covers.stable (h : Covers e p s) (ht : LiveRely s t) : Covers e p t :=
  ⟨ht.execution e h.execution, h.le.trans (ht.log e).latest_le, fun node hn =>
    h.taken node (ht.live e node h.execution hn)⟩

theorem Covers.of_db (h : Covers e p s) (hdb : t.db = s.db) : Covers e p t := by
  obtain ⟨hx, hle, htaken⟩ := h
  rw [← hdb] at hx hle htaken
  exact ⟨hx, hle, htaken⟩

theorem Covers.keeps (h : Covers e p s) : Keeps s.db e p := ⟨h.le, fun node hn _ => h.taken node hn⟩

theorem Covers.skip [Chrono] (h : Covers e p s) {latest : EventSequence} {node : NodeId}
    {reason : String} (hl : latest < (s.db.events e).latest) :
    Covers e (p.apply ⟨latest + 1, .nodeSkipped node reason⟩) s := by
  refine ⟨h.execution, max_le h.le hl, fun n hn => taken_apply ?_ fun _ => h.taken n hn⟩
  simp only [EventKind.wordOn]
  split <;> simp

end Covers

section Tick

variable [Chrono] {cfg : SchedulerConfig} {irOf : String → String → Option WorkflowIr}
  {order : HashOrder NodeId} {s t : Sys} {e : ExecutionId} {ir : WorkflowIr} {p : ExecProgress}
  {workflowId workflowVersion : String}

theorem liveRely_records {β : Type} {op : SchedOp β} (h : Records e op) (s : Sys) :
    LiveRely s ((engine cfg irOf).handle op s).2 := by
  cases h
  all_goals first
    | exact .of_eq rfl rfl
    | exact liveRely_exec rfl s _

theorem wp_records_live {α : Type} {q : Sched α} (hq : q.Within (Records e)) (h : Covers e p s) :
    wp (engine cfg irOf) freedNodesSettled liveSpec q (fun _ => Covers e p) s :=
  wp_mono (fun _ _ _ h => h.1) (wp_within hq (fun _ _ h ht _ => h.stable ht)
    (fun op s hop _ h => ⟨by cases hop <;> trivial, fun _ => h.stable (liveRely_records hop s)⟩) h)

theorem wp_readProgress_live (h : s.db.HasExecution e) :
    wp (engine cfg irOf) freedNodesSettled liveSpec (readProgress e)
      (ends (fun p => Covers e p) fun _ _ => True) s := by
  unfold readProgress backend here
  apply wp_call
  intro t ht _
  refine ⟨trivial, fun _ => ?_, fun hf => by cases hf⟩
  apply wp_call
  intro u hu hiu
  refine ⟨trivial, fun hfree => ?_, fun _ _ _ _ _ _ => trivial⟩
  have hkept : Keeps u.db e ((t.progress e).getD {}) := by
    cases hp : t.progress e with
    | none => exact hiu.told e
    | some p => exact hiu.cached e p ((congrFun hu.progress e).trans hp)
  obtain ⟨cached, hcached⟩ : ∃ cached, (t.progress e).getD {} = cached := ⟨_, rfl⟩
  rw [hcached] at hkept
  -- what was read says of no node with a live item that it is free
  have hcovers : Covers e (cached.applyAll ((u.db.events e).since cached.lastSequence)) u := by
    refine ⟨hu.execution e (ht.execution e h), ?_, fun node hn => ?_⟩
    · rw [lastSequence_applyAll]
      exact max_le hkept.1 (SeqLog.maxSequence_le fun x hx =>
        SeqLog.le_latest (SeqLog.mem_since.mp hx).1)
    · exact taken_applyAll (fun hw => hfree node hn (lastWord_entries hw)) (hkept.2 node hn)
  apply wp_call
  intro v hv _
  simp only [hcached]
  have hread : LiveRely u ((engine cfg irOf).handle (.inl (.getEventsSince e
      ((t.progress e).getD {}).lastSequence)) u).2 := .of_eq rfl rfl
  have hset := hcovers.stable (hread.trans hv)
  refine ⟨hset.keeps, fun _ => ?_, fun hf => by cases hf⟩
  intro w hw _
  refine Covers.stable ?_ hw
  exact hset.of_db rfl

theorem wp_skipNode_live {node : NodeId} (h : Covers e p s) :
    wp (engine cfg irOf) freedNodesSettled liveSpec (skipNode e p node)
      (ends (fun p' => Covers e p') fun _ _ => True) s := by
  unfold skipNode backend
  apply wp_call
  intro t ht _
  refine ⟨trivial, fun _ => ?_, fun _ _ _ _ _ _ => trivial⟩
  apply wp_call
  intro u hu _
  refine ⟨trivial, fun _ => ?_, fun _ _ _ _ _ _ => trivial⟩
  have htu : LiveRely t u := by
    refine LiveRely.trans ?_ hu
    exact .of_eq rfl rfl
  have hcovers := (h.stable ht).stable htu
  rcases handle_append cfg irOf u e (.nodeSkipped node "branch not taken") with
    ⟨_, _, hfail⟩ | ⟨_, happ⟩
  · rw [hfail]
    exact fun _ _ _ => trivial
  · rw [happ]
    intro v hv _
    refine Covers.stable (Covers.skip (hcovers.stable (liveRely_append u e _)) ?_) hv
    rw [Db.setEvents_events_self, SeqLog.latest_append]
    exact Nat.lt_succ_of_le (htu.log e).latest_le

theorem wp_skipCascade_live {passes : ℕ} (h : Covers e p s) :
    wp (engine cfg irOf) freedNodesSettled liveSpec (skipCascade order ir e passes p)
      (ends (fun p' => Covers e p') fun _ _ => True) s := by
  induction passes generalizing p s with
  | zero => exact fun t ht _ => h.stable ht
  | succ passes ih =>
    unfold skipCascade
    split
    · exact fun t ht _ => h.stable ht
    · refine wp_bind (wp_foldlM (fun _ p' => Covers e p') ?_ ?_ ?_ h)
      · exact fun node _ p' t ht _ => wp_skipNode_live ht
      · exact fun _ p' a b h hab _ => h.stable hab
      · exact fun p' t ht _ => ih ht

/-- The dispatch loop has come this far: no node it is still to look at has a live item unless the
progress holds it for taken. -/
structure Dispatching (e : ExecutionId) (p : ExecProgress) (nodes : List NodeId) (s : Sys) :
    Prop where
  execution : s.db.HasExecution e
  taken : ∀ node ∈ nodes, s.db.HasLive e node → p.Taken node

omit [Chrono] in
theorem Dispatching.stable {nodes : List NodeId} (h : Dispatching e p nodes s)
    (ht : LiveRely s t) : Dispatching e p nodes t :=
  ⟨ht.execution e h.execution, fun node hnode hn =>
    h.taken node hnode (ht.live e node h.execution hn)⟩

omit [Chrono] in
theorem Dispatching.enqueued {nodeId : NodeId} {rest : List NodeId} {item : NewWorkItem}
    {now : Instant} (h : Dispatching e p (nodeId :: rest) s) (hnew : nodeId ∉ rest)
    (hitem : item.nodeId = nodeId) (w : Watch) :
    Dispatching e p rest { s with
      db := ((BackendOp.enqueueWorkItem item now).exec s.db).2, watch := w } := by
  refine ⟨h.execution.exec _, fun node hnode ⟨id, hid⟩ => ?_⟩
  rcases hid.of_exec with hold | hnone
  · exact h.taken node (by simp [hnode]) ⟨id, hold⟩
  · obtain ⟨r, hr, _, hn, _⟩ := hid
    obtain ⟨_, _, _, hrn⟩ := adds_of_exec hnone hr
    rw [← hn, hrn, hitem] at hnode
    exact absurd hnode hnew

theorem wp_dispatchNode_live {nodeId : NodeId} {node : NodeDef} {rest : List NodeId}
    (h : Dispatching e p (nodeId :: rest) s) (hfree : ¬ p.Taken nodeId) (hnew : nodeId ∉ rest) :
    wp (engine cfg irOf) freedNodesSettled liveSpec
      (dispatchNode ir e workflowId workflowVersion p nodeId node)
      (ends (fun _ => Dispatching e p rest) fun _ _ => True) s := by
  unfold dispatchNode appendNext backend here
  apply wp_bind
  apply wp_call
  intro t ht _
  refine ⟨trivial, fun _ => ?_, fun _ _ _ _ _ _ => trivial⟩
  apply wp_call
  intro u hu hiu
  refine ⟨trivial, fun _ => ?_, fun _ _ _ _ _ _ => trivial⟩
  have htu : LiveRely t u := by
    refine LiveRely.trans ?_ hu
    exact .of_eq rfl rfl
  rcases handle_append cfg irOf u e (.nodeScheduled nodeId node.kind.queueType.asStr) with
    ⟨_, _, hfail⟩ | ⟨_, happ⟩
  · rw [hfail]
    exact fun _ _ _ => trivial
  · rw [happ]
    intro v hv _
    have huv : LiveRely u v := (liveRely_append u e _).trans hv
    have hannounced : Announced v e nodeId := (hiu.announced e nodeId _ _).stable hv
    apply wp_call
    intro w hw _
    refine ⟨trivial, fun _ => ?_, fun hf => by cases hf⟩
    apply wp_call
    intro x hx _
    have hvx : LiveRely v x := LiveRely.trans hw hx
    have hdisp := (((h.stable ht).stable htu).stable huv).stable hvx
    refine ⟨⟨fun hlive => hfree (hdisp.taken nodeId (by simp) hlive), hannounced.stable hvx⟩,
      fun _ => ?_, fun _ _ _ _ _ _ => trivial⟩
    generalize ((engine cfg irOf).handle _ x).1 = reply
    cases reply with
    | error _ => exact fun _ _ _ => trivial
    | ok _ =>
      intro y hy _
      refine Dispatching.stable ?_ hy
      exact hdisp.enqueued hnew rfl _

theorem wp_dispatch_live {nodes : List NodeId} {enqueued : ℕ} (hnodup : nodes.Nodup)
    (h : Dispatching e p nodes s) :
    wp (engine cfg irOf) freedNodesSettled liveSpec
      (dispatch cfg ir e workflowId workflowVersion p nodes enqueued) (fun _ _ => True) s := by
  induction nodes generalizing enqueued s with
  | nil => exact fun _ _ _ => trivial
  | cons nodeId rest ih =>
    obtain ⟨hnew, hrest⟩ := List.nodup_cons.mp hnodup
    have hskip : Dispatching e p rest s :=
      ⟨h.execution, fun node hnode => h.taken node (by simp [hnode])⟩
    unfold dispatch
    split
    · exact fun _ _ _ => trivial
    · split
      · exact fun _ _ _ => trivial
      · split
        · exact ih hrest hskip
        · rename_i hfail
          split
          · rename_i hrun
            split
            · refine wp_bind (wp_mono (fun r t _ ht => ?_)
                (wp_dispatchNode_live h (not_taken_of_runnable hfail hrun) hnew))
              cases r with
              | error _ => trivial
              | ok _ => exact ih hrest ht
            · exact ih hrest hskip
          · exact ih hrest hskip

theorem wp_dispatchAndFinish_live (h : Covers e p s) :
    wp (engine cfg irOf) freedNodesSettled liveSpec
      (dispatchAndFinish cfg order ir e workflowId workflowVersion p) (fun _ _ => True) s := by
  unfold dispatchAndFinish
  split
  · exact fun _ _ _ => trivial
  · refine wp_bind (wp_mono (fun r t _ _ => ?_) (wp_dispatch_live (order.nodup _)
      ⟨h.execution, fun node _ => h.taken node⟩))
    cases r with
    | error _ => trivial
    | ok enqueued =>
      exact wp_mono (fun _ _ _ _ => trivial) (wp_within (within_finishIfDone order p enqueued)
        (P := fun _ => True) (fun _ _ _ _ _ => trivial)
        (fun op s h _ _ => ⟨by cases h <;> trivial, fun _ => trivial⟩) trivial)

theorem wp_advance_live (h : Covers e p s) :
    wp (engine cfg irOf) freedNodesSettled liveSpec
      (advance cfg order ir e workflowId workflowVersion p) (fun _ _ => True) s := by
  unfold advance
  refine wp_bind (wp_mono (fun r t _ ht => ?_) (wp_records_live (within_sweepDeadlines cfg p) h))
  cases r with
  | error _ => trivial
  | ok _ =>
    refine wp_bind (wp_mono (fun r u _ hu => ?_) (wp_records_live (within_failRejected order p) ht))
    cases r with
    | error _ => trivial
    | ok _ =>
      refine wp_bind (wp_mono (fun r v _ hv => ?_) (wp_skipCascade_live hu))
      cases r with
      | error _ => trivial
      | ok p' =>
        apply wp_call
        intro w hw _
        have hcovers : Covers e p' w := Covers.stable hv hw
        refine ⟨hcovers.keeps, fun _ => ?_, fun hf => by cases hf⟩
        refine wp_dispatchAndFinish_live ?_
        exact hcovers.of_db rfl

theorem wp_scheduleRunnableNodes_live (h : s.db.HasExecution e) :
    wp (engine cfg irOf) freedNodesSettled liveSpec
      (scheduleRunnableNodes cfg order e workflowId workflowVersion) (fun _ _ => True) s := by
  unfold scheduleRunnableNodes here
  apply wp_call
  intro t ht _
  refine ⟨trivial, fun _ => ?_, fun _ _ _ _ _ _ => trivial⟩
  have hreply : (engine cfg irOf).handle (.inr (.loadWorkflow workflowId workflowVersion)) t =
      (.ok (irOf workflowId workflowVersion), t) := rfl
  rw [hreply]
  cases irOf workflowId workflowVersion with
  | none => exact fun _ _ _ => trivial
  | some ir =>
    refine wp_bind (wp_mono (fun r u _ hu => ?_) (wp_readProgress_live (ht.execution e h)))
    cases r with
    | error _ => trivial
    | ok p =>
      change wp (engine cfg irOf) freedNodesSettled liveSpec
        (if p.unreadable = true then _ else _) _ u
      split
      · exact wp_mono (fun _ _ _ _ => trivial) (wp_records_live (within_recordStall p) hu)
      · exact wp_advance_live hu

theorem live_sound : Sound (engine cfg irOf) freedNodesSettled liveSpec where
  act a s hi ha := live_act ha hi
  act_rest _ _ _ _ _ := trivial
  call op s hi hg _ := by
    cases op with
    | inl op =>
      cases op with
      | createRun => exact hg.elim
      | enqueueWorkItem item now =>
        refine hi.exec _ (fun id r hnone hr => ?_) _
        obtain ⟨_, _, he, hn⟩ := adds_of_exec hnone hr
        rw [he, hn]
        exact ⟨hg.1, hg.2.mono rfl (extends_exec _ s.db _)⟩
      | _ => exact hi.exec_of_not_creates rfl _
    | inr op =>
      have hdb : (s.callLocal irOf op).2.db = s.db := Sys.callLocal_db op s
      change LiveInv (s.callLocal irOf op).2
      refine ⟨hdb ▸ hi.one, hdb ▸ hi.homed, fun e => hdb ▸ hi.told e, fun e p hp => ?_⟩
      rw [hdb]
      refine Sys.cached_callLocal (I := fun e p => Keeps s.db e p) hi.cached ?_ e p hp
      cases op <;> exact hg
  stop s hi _ := ⟨⟨hi.one, hi.homed, hi.told, fun _ _ h => (by cases h)⟩, trivial⟩
  job order s _ _ _ := by
    refine wp_tick (fun _ => True) (fun x t => t.db.HasExecution x.executionId)
      (fun _ _ _ _ _ => trivial) (fun x s t h ht => ht.execution _ h) (fun x _ op s h => ?_)
      (fun s _ _ => ?_) (fun s _ _ => ⟨trivial, fun _ => ⟨trivial, fun x hx => ?_⟩⟩)
      (fun x s _ hx _ => wp_scheduleRunnableNodes_live hx) trivial
    · cases op with
      | inl op => exact h.exec op
      | inr op => cases op <;> exact h
    · exact wp_mono (fun _ _ _ _ => trivial) (wp_within within_reclaimExpiredLeases
        (P := fun _ => True) (fun _ _ _ _ _ => trivial)
        (fun op s h _ _ => ⟨by rcases h with h | h <;> cases h <;> trivial, fun _ => trivial⟩) trivial)
    · exact ⟨x, Table.find?_of_mem (mem_listExecutions hx).1⟩

/-- In a run in which no tick reads a log that frees a node with a live item, every node has at
most one pending or claimed work item, at every moment. -/
theorem one_live_item_per_node (cfg : SchedulerConfig)
    (irOf : String → String → Option WorkflowIr) (clock : Instant) (ms : List EngineMove)
    (hms : freedNodesSettled.Obeyed (engine cfg irOf) (boot {} clock) ms) :
    ((boot {} clock).run (engine cfg irOf) ms).state.db.OneLive := by
  have hnone : ∀ e node, ¬ ({} : Db).HasLive e node := by
    rintro e node ⟨id, r, hr, _⟩
    cases hr
  have hstart : Meets (engine cfg irOf) freedNodesSettled liveSpec (boot {} clock) := by
    refine ⟨⟨?_, ?_, fun e => ⟨Nat.zero_le _, fun node hn => absurd hn (hnone e node)⟩,
      fun _ _ h => (by cases h)⟩, trivial⟩
    · exact fun e node id _ hid => absurd ⟨id, hid⟩ (hnone e node)
    · exact fun id r hr => by cases hr
  exact (hstart.run live_sound hms).inv.one

end Tick

/-- The worker reports a failure: the item is requeued, then the failure is recorded. -/
def failingRun : List EngineMove :=
  [.outside (.call startOne),
    .outside (.call (.claimWorkItem "w" ["tool"] none 1)),
    .outside (.call (.failWorkItemFenced 1 1 "boom" 2)),
    .outside (.call (.appendEvent 0 (.nodeFailed "a" "boom" 0 true)))]

/-- The retry is recorded before the next tick, which then leaves the node alone. -/
theorem one_live_item_per_node_retry_recorded :
    ((boot {} 0).run oneNodeEngine (failingRun ++
      [.outside (.call (.appendEvent 0 (.retryScheduled "a" 1 2000))), .start .sorted] ++
      List.replicate 9 .advance)).state.db.OneLive := by
  refine @one_live_item_per_node firstDay {} _ 0 _ ⟨⟨rfl, _, rfl⟩, trivial, trivial, trivial,
    trivial, trivial, trivial, trivial, trivial, trivial, trivial, ?_, trivial, trivial, trivial,
    trivial⟩
  intro node _
  change lastWord node [⟨1, .workflowStarted (.object [])⟩, ⟨2, .nodeScheduled "a" "tool"⟩,
    ⟨3, .nodeFailed "a" "boom" 0 true⟩, ⟨4, .retryScheduled "a" 1 2000⟩] ≠ some false
  by_cases hnode : "a" = node <;> simp [lastWord, EventKind.wordOn, hnode]

/-- A tick between the two finds the node free and dispatches it a second time. -/
theorem redispatch_before_retry_recorded :
    ¬ ((boot {} 0).run oneNodeEngine (failingRun ++ [.start .sorted] ++
      List.replicate 12 .advance)).state.db.OneLive := by
  intro h
  have := h 0 "a" 1 2 ⟨_, rfl, rfl, rfl, rfl⟩ ⟨_, rfl, rfl, rfl, rfl⟩
  cases this

end JamJet
