import JamJet.LiveItems

/-! Nodes that are scheduled in the log with no work item to run them: how a tick that fails, or
is stopped, between two writes that belong together leaves one, and that nothing else does. -/

namespace JamJet

open AtomicCalls Scheduler

/-- Whether a node waits for its work item after an event, given whether it did before. -/
def EventKind.awaits (node : NodeId) (waiting : Bool) : EventKind → Bool
  | .nodeScheduled n _ => if n = node then true else waiting
  | .nodeCompleted n _ | .nodeFailed n _ _ _ | .nodeSkipped n _ | .nodeCancelled n
  | .toolApprovalRequired n _ _ _ => if n = node then false else waiting
  | _ => waiting

/-- The log holds a `NodeScheduled` of the node with no outcome, hold or failure of it since. -/
def awaiting (node : NodeId) (events : List Event) : Bool :=
  events.foldl (fun waiting event => event.kind.awaits node waiting) false

/-- The node is scheduled and no work item of it is pending or claimed. -/
def Stranded (db : Db) (e : ExecutionId) (node : NodeId) : Prop :=
  awaiting node (db.events e).entries = true ∧ ¬ db.HasLive e node

section Awaiting

variable {node : NodeId} {log : EventLog} {kind : EventKind} {waiting : Bool}

theorem awaiting_append :
    awaiting node (log.append kind).entries = kind.awaits node (awaiting node log.entries) := by
  simp [awaiting]

theorem waiting_of_awaits (hk : ∀ queueType, kind ≠ .nodeScheduled node queueType)
    (h : kind.awaits node waiting = true) : waiting = true := by
  cases kind with
  | nodeScheduled n queueType =>
    by_cases hn : n = node
    · exact absurd rfl (hn ▸ hk queueType)
    · simpa [EventKind.awaits, hn] using h
  | nodeCompleted n _ | nodeFailed n _ _ _ | nodeSkipped n _ | nodeCancelled n
    | toolApprovalRequired n _ _ _ =>
    by_cases hn : n = node
    · simp [EventKind.awaits, hn] at h
    · simpa [EventKind.awaits, hn] using h
  | _ => exact h

theorem awaiting_of_appendAll {kinds : List EventKind}
    (hk : ∀ kind ∈ kinds, ∀ queueType, kind ≠ .nodeScheduled node queueType)
    (h : awaiting node (log.appendAll kinds).entries = true) : awaiting node log.entries = true := by
  induction kinds using List.reverseRecOn with
  | nil => exact h
  | append_singleton kinds kind ih =>
    rw [SeqLog.appendAll_concat, awaiting_append] at h
    exact ih (fun k hkm => hk k (by simp [hkm])) (waiting_of_awaits (hk kind (by simp)) h)

end Awaiting

theorem Stranded.of_exec {db : Db} {β : Type} {op : BackendOp β} {e : ExecutionId} {node : NodeId}
    (hop : op.settles = false)
    (hk : ∀ kind queueType, Appends db op e kind → kind ≠ .nodeScheduled node queueType)
    (h : Stranded (op.exec db).2 e node) : Stranded db e node := by
  obtain ⟨kinds, hlog, hkinds⟩ := (op.effect db).logs e
  refine ⟨?_, fun hlive => h.2 (hlive.exec hop)⟩
  have hawait := h.1
  rw [hlog] at hawait
  exact awaiting_of_appendAll (fun kind hmem queueType => hk kind queueType (hkinds kind hmem)) hawait

/-- The tick neither fails nor is stopped while a pair of writes is half made; `others` lists the
nodes that are stranded by what other parties do. -/
def pairsWhole (others : ExecutionId → NodeId → Prop) : EngineRules where
  actOk a s := match a with
    | .call op => ∀ e node, Stranded (op.exec s.db).2 e node → Stranded s.db e node ∨ others e node
    | .passTime _ => True
  faultOk _ s := s.watch.halfWritten = []
  stopOk s := s.watch.halfWritten = []

/-- Every stranded node is one the tick is between two writes for, or the others' doing. -/
structure StrandInv (others : ExecutionId → NodeId → Prop) (s : Sys) : Prop where
  half : ∀ e node, Stranded s.db e node → (e, node) ∈ s.watch.halfWritten ∨ others e node
  homed : s.db.Homed

/-- The work item a row was read from is still of the row's node. -/
def Db.Knows (db : Db) (row : WorkItemRow) : Prop :=
  ∃ r, db.workItems.find? row.id = some r ∧ r.executionId = row.executionId ∧ r.nodeId = row.nodeId

theorem Db.Knows.exec {db : Db} {row : WorkItemRow} {β : Type} (op : BackendOp β)
    (h : db.Knows row) : (op.exec db).2.Knows row := by
  obtain ⟨r, hr, he, hn⟩ := h
  obtain ⟨r', hr', hstep⟩ := (op.effect db).items.row hr
  obtain ⟨he', hn', _⟩ := hstep.keeps
  exact ⟨r', hr', he'.trans he, hn'.trans hn⟩

structure StrandRely (s s' : Sys) : Prop where
  half : s'.watch.halfWritten = s.watch.halfWritten
  execution : ∀ e, s.db.HasExecution e → s'.db.HasExecution e
  knows : ∀ row, s.db.Knows row → s'.db.Knows row

/-- What the tick's backend calls need. -/
def strandGood {β : Type} : SchedOp β → Sys → Prop
  | .inl (.sweepDeadLetter row), s => s.db.Knows row
  | .inl (.appendEvent ..), _ | .inl (.enqueueWorkItem ..), _ | .inr _, _ => True
  | .inl op, _ => op.settles = false ∧ ∀ db e kind node queueType, Appends db op e kind →
      kind ≠ .nodeScheduled node queueType

def strandSpec (others : ExecutionId → NodeId → Prop) : Spec SchedOp Sys where
  inv := StrandInv others
  rely := StrandRely
  rely_refl _ := ⟨rfl, fun _ h => h, fun _ h => h⟩
  rely_trans h₁ h₂ := ⟨h₂.half.trans h₁.half, fun e h => h₂.execution e (h₁.execution e h),
    fun row h => h₂.knows row (h₁.knows row h)⟩
  good op s := strandGood op s
  rest s := s.watch.halfWritten = []

section Steps

variable {others : ExecutionId → NodeId → Prop} {s : Sys}

theorem strand_act {a : Act} (ha : (pairsWhole others).actOk a s) (h : StrandInv others s) :
    StrandInv others (s.act a) ∧ StrandRely s (s.act a) := by
  cases a with
  | passTime nanos => exact ⟨⟨h.half, h.homed⟩, rfl, fun _ h => h, fun _ h => h⟩
  | call op =>
    refine ⟨⟨fun e node hs => ?_, h.homed.exec op⟩, rfl, fun _ he => he.exec op,
      fun _ hk => hk.exec op⟩
    rcases ha e node hs with hold | hother
    · exact h.half e node hold
    · exact .inr hother

theorem mem_pairedAppend {e e' : ExecutionId} {node : NodeId} {kind : EventKind}
    {opened : List (ExecutionId × NodeId)} (h : (e', node) ∈ opened)
    (hclosed : ∀ error attempt, e' = e → kind ≠ .nodeFailed node error attempt false) :
    (e', node) ∈ Watch.pairedAppend e kind opened := by
  unfold Watch.pairedAppend
  split
  · exact List.mem_append_left _ h
  · rename_i n error attempt
    refine (List.mem_erase_of_ne fun heq => ?_).mpr h
    obtain ⟨rfl, rfl⟩ := Prod.mk.inj heq
    exact hclosed error attempt rfl rfl
  · exact h

theorem StrandInv.append (h : StrandInv others s) (e : ExecutionId) (kind : EventKind) :
    StrandInv others { s with
      db := s.db.setEvents e ((s.db.events e).append kind)
      watch := { s.watch with halfWritten := Watch.pairedAppend e kind s.watch.halfWritten } } := by
  refine ⟨fun e' node hs => ?_, h.homed⟩
  obtain ⟨hawait, hdead⟩ := hs
  by_cases he : e' = e
  · subst he
    simp only [Db.setEvents_events_self] at hawait
    rw [awaiting_append] at hawait
    by_cases hk : ∃ queueType, kind = .nodeScheduled node queueType
    · obtain ⟨queueType, rfl⟩ := hk
      exact .inl (by simp [Watch.pairedAppend])
    · have hwait := waiting_of_awaits (fun q hq => hk ⟨q, hq⟩) hawait
      refine (h.half e' node ⟨hwait, hdead⟩).imp_left fun hmem => mem_pairedAppend hmem ?_
      rintro error attempt - rfl
      simp [EventKind.awaits] at hawait
  · simp only [Db.setEvents_events_of_ne _ he] at hawait
    refine (h.half e' node ⟨hawait, hdead⟩).imp_left fun hmem => mem_pairedAppend hmem ?_
    exact fun _ _ heq => absurd heq he

theorem hasLive_enqueue {db : Db} {item : NewWorkItem} {now : Instant} {id : WorkItemId}
    (h : ((BackendOp.enqueueWorkItem item now).exec db).1 = .ok id) :
    ((BackendOp.enqueueWorkItem item now).exec db).2.HasLive item.executionId item.nodeId := by
  simp only [BackendOp.exec, Db.enqueueWorkItem] at h ⊢
  split at h
  · cases h
  · rename_i n db' hins
    obtain ⟨_, _, items, hitems, rfl⟩ := Db.insertWorkItem_eq_some hins
    refine ⟨db.freshItemId, item.toRow db.freshItemId now, ?_, rfl, rfl, rfl⟩
    simp only [Table.find?_of_insert? hitems]
    exact if_pos rfl

theorem freshItemId_free (db : Db) : db.workItems.find? db.freshItemId = none := by
  have hle : ∀ {ids : List WorkItemId} {id}, id ∈ ids → id ≤ ids.foldr max 0 := by
    intro ids id hid
    induction ids with
    | nil => cases hid
    | cons first ids ih =>
      rcases List.mem_cons.mp hid with rfl | hid
      · exact le_max_left _ _
      · exact (ih hid).trans (le_max_right _ _)
  refine Table.find?_eq_none_iff.mpr fun r hr heq => ?_
  have hmem : r.id ∈ db.workItems.rows.map (·.id) := List.mem_map_of_mem hr
  exact absurd heq (Nat.lt_succ_of_le (hle hmem)).ne

theorem enqueue_ok {db : Db} {item : NewWorkItem} (now : Instant)
    (h : db.HasExecution item.executionId) :
    ∃ id, ((BackendOp.enqueueWorkItem item now).exec db).1 = .ok id := by
  obtain ⟨x, hx⟩ := h
  have hfree : db.workItems.find? (item.toRow db.freshItemId now).id = none := freshItemId_free db
  obtain ⟨items, hitems, _⟩ := Table.insert?_eq_some hfree
  exact ⟨db.freshItemId, by simp [BackendOp.exec, Db.enqueueWorkItem, Db.insertWorkItem, hx, hitems]⟩

theorem halfWritten_enqueue {item : NewWorkItem} {now : Instant} {id : WorkItemId}
    (h : ((BackendOp.enqueueWorkItem item now).exec s.db).1 = .ok id) :
    (s.callBackend (.enqueueWorkItem item now)).2.watch.halfWritten =
      s.watch.halfWritten.erase (item.executionId, item.nodeId) := by
  simp only [Sys.callBackend, h]
  rfl

theorem StrandInv.enqueue (h : StrandInv others s) (item : NewWorkItem) (now : Instant) :
    StrandInv others (s.callBackend (.enqueueWorkItem item now)).2 := by
  refine ⟨fun e node hs => ?_, h.homed.exec _⟩
  replace hs : Stranded ((BackendOp.enqueueWorkItem item now).exec s.db).2 e node := hs
  have hold : (e, node) ∈ s.watch.halfWritten ∨ others e node := by
    refine h.half e node (hs.of_exec rfl ?_)
    exact fun _ _ ha => False.elim ha
  cases hreply : ((BackendOp.enqueueWorkItem item now).exec s.db).1 with
  | error err =>
    simp only [Sys.callBackend, hreply]
    exact hold
  | ok id =>
    rw [halfWritten_enqueue hreply]
    refine hold.imp_left fun hmem => (List.mem_erase_of_ne fun heq => ?_).mpr hmem
    obtain ⟨rfl, rfl⟩ := Prod.mk.inj heq
    exact hs.2 (hasLive_enqueue hreply)

theorem hasLive_sweepDeadLetter {db : Db} {row : WorkItemRow} {e : ExecutionId} {node : NodeId}
    (hrow : db.Knows row) (hother : (e, node) ≠ (row.executionId, row.nodeId))
    (h : db.HasLive e node) : ((BackendOp.sweepDeadLetter row).exec db).2.HasLive e node := by
  obtain ⟨id, r, hr, rfl, rfl, hl⟩ := h
  refine ⟨id, r, ?_, rfl, rfl, hl⟩
  have hid : id ≠ row.id := by
    rintro rfl
    obtain ⟨r', hr', he, hn⟩ := hrow
    cases hr.symm.trans hr'
    exact hother (by rw [he, hn])
  simp only [BackendOp.exec, Db.sweepDeadLetter, Db.settleIf]
  split
  · rw [Db.updateItem_find?, hr]
    simp [hid]
  · exact hr

theorem halfWritten_deadLetter (s : Sys) (row : WorkItemRow) :
    (s.callBackend (.sweepDeadLetter row)).2.watch.halfWritten =
      if s.db.workItems.hits row.id WorkItemRow.isClaimed then
        s.watch.halfWritten ++ [(row.executionId, row.nodeId)]
      else s.watch.halfWritten := by
  simp only [Sys.callBackend, BackendOp.exec, Db.sweepDeadLetter, settleIf_ok]
  rfl

theorem StrandInv.deadLetter (h : StrandInv others s) {row : WorkItemRow} (hrow : s.db.Knows row) :
    StrandInv others (s.callBackend (.sweepDeadLetter row)).2 := by
  refine ⟨fun e node hs => ?_, h.homed.exec _⟩
  rw [halfWritten_deadLetter]
  replace hs : Stranded ((BackendOp.sweepDeadLetter row).exec s.db).2 e node := hs
  have hold : Stranded s.db e node ∨ (s.db.workItems.hits row.id WorkItemRow.isClaimed = true ∧
      (e, node) = (row.executionId, row.nodeId)) := by
    cases hhit : s.db.workItems.hits row.id WorkItemRow.isClaimed with
    | false =>
      simp only [BackendOp.exec, Db.sweepDeadLetter, Db.settleIf, hhit] at hs
      exact .inl hs
    | true =>
      by_cases hkey : (e, node) = (row.executionId, row.nodeId)
      · exact .inr ⟨rfl, hkey⟩
      · have hawait := hs.1
        simp only [BackendOp.exec, Db.sweepDeadLetter, Db.settleIf, hhit, if_true,
          Db.updateItem_events] at hawait
        exact .inl ⟨hawait, fun hlive => hs.2 (hasLive_sweepDeadLetter hrow hkey hlive)⟩
  rcases hold with hold | ⟨hhit, hkey⟩
  · refine (h.half e node hold).imp_left fun hmem => ?_
    split
    · exact List.mem_append_left _ hmem
    · exact hmem
  · rw [hhit, hkey]
    exact .inl (by simp)

theorem halfWritten_callBackend {β : Type} {op : BackendOp β} (s : Sys)
    (hop : match op with
      | .sweepDeadLetter _ | .appendEvent .. | .enqueueWorkItem .. => False
      | _ => True) : (s.callBackend op).2.watch.halfWritten = s.watch.halfWritten := by
  cases op with
  | sweepDeadLetter | appendEvent | enqueueWorkItem => exact hop.elim
  | _ => rfl

theorem StrandInv.unpaired (h : StrandInv others s) {β : Type} {op : BackendOp β}
    (hop : match op with
      | .sweepDeadLetter _ | .appendEvent .. | .enqueueWorkItem .. => False
      | _ => True) (hset : op.settles = false)
    (hk : ∀ e kind node queueType, Appends s.db op e kind → kind ≠ .nodeScheduled node queueType) :
    StrandInv others (s.callBackend op).2 := by
  refine ⟨fun e node hs => ?_, h.homed.exec op⟩
  rw [halfWritten_callBackend s hop]
  replace hs : Stranded (op.exec s.db).2 e node := hs
  exact h.half e node (hs.of_exec hset fun kind queueType => hk e kind node queueType)

theorem strandRely_callBackend {β : Type} {op : BackendOp β} (s : Sys)
    (hop : match op with
      | .sweepDeadLetter _ | .appendEvent .. | .enqueueWorkItem .. => False
      | _ => True) : StrandRely s (s.callBackend op).2 :=
  ⟨halfWritten_callBackend s hop, fun _ h => h.exec op, fun _ h => h.exec op⟩

end Steps

section Tick

variable [Chrono] {others : ExecutionId → NodeId → Prop} {cfg : SchedulerConfig}
  {irOf : String → String → Option WorkflowIr} {order : HashOrder NodeId} {s : Sys}
  {e : ExecutionId} {ir : WorkflowIr} {p : ExecProgress} {workflowId workflowVersion : String}

/-- The sweep has come this far: the pairs that are half made are those of the items it has
dead-lettered, and the rows still to come are of items that exist. -/
structure Sweeping (rows : List WorkItemRow) (result : ReclaimResult) (s : Sys) : Prop where
  half : s.watch.halfWritten = result.exhausted.map fun item => (item.executionId, item.nodeId)
  known : ∀ row ∈ rows, s.db.Knows row
  retryable : ∀ item ∈ result.retryable, s.db.HasExecution item.executionId
  exhausted : ∀ item ∈ result.exhausted, s.db.HasExecution item.executionId

omit [Chrono] in
theorem Sweeping.stable {rows : List WorkItemRow} {result : ReclaimResult} {t : Sys}
    (h : Sweeping rows result s) (ht : StrandRely s t) : Sweeping rows result t where
  half := ht.half.trans h.half
  known row hrow := ht.knows row (h.known row hrow)
  retryable item hitem := ht.execution _ (h.retryable item hitem)
  exhausted item hitem := ht.execution _ (h.exhausted item hitem)

omit [Chrono] in
theorem Sweeping.next {row : WorkItemRow} {rows : List WorkItemRow} {result result' : ReclaimResult}
    {β : Type} {op : BackendOp β} (h : Sweeping (row :: rows) result s) (hhome : s.db.Homed)
    (hhalf : (s.callBackend op).2.watch.halfWritten =
      result'.exhausted.map fun item => (item.executionId, item.nodeId))
    (hretry : ∀ item ∈ result'.retryable,
      item ∈ result.retryable ∨ item.executionId = row.executionId)
    (hexh : ∀ item ∈ result'.exhausted,
      item ∈ result.exhausted ∨ item.executionId = row.executionId) :
    Sweeping rows result' (s.callBackend op).2 := by
  have hrow : s.db.HasExecution row.executionId := by
    obtain ⟨r, hr, he, _⟩ := h.known row (by simp)
    exact he ▸ hhome row.id r hr
  refine ⟨hhalf, fun row' hr => (h.known row' (by simp [hr])).exec op, fun item hitem => ?_,
    fun item hitem => ?_⟩
  · rcases hretry item hitem with hitem | he
    · exact (h.retryable item hitem).exec op
    · exact (he ▸ hrow).exec op
  · rcases hexh item hitem with hitem | he
    · exact (h.exhausted item hitem).exec op
    · exact (he ▸ hrow).exec op

theorem wp_reclaimRow_strand {result : ReclaimResult} {row : WorkItemRow} {rows : List WorkItemRow}
    (h : Sweeping (row :: rows) result s) :
    wp (engine cfg irOf) (pairsWhole others) (strandSpec others) (reclaimRow result row)
      (ends (Sweeping rows) fun _ t => t.watch.halfWritten = []) s := by
  unfold reclaimRow backend here
  dsimp only
  split
  · apply wp_call
    intro t ht hit
    have hrow := h.stable ht
    refine ⟨hrow.known row (by simp), fun _ => ?_, fun _ hf _ u hu _ => hu.half.trans hf⟩
    have hreply : ((engine cfg irOf).handle (.inl (.sweepDeadLetter row)) t).1 =
        .ok (t.db.workItems.hits row.id WorkItemRow.isClaimed) := settleIf_ok
    have hhalf := halfWritten_deadLetter t row
    rw [hreply]
    change ends _ _ _ (t.callBackend (.sweepDeadLetter row)).2
    cases hhit : t.db.workItems.hits row.id WorkItemRow.isClaimed with
    | false =>
      rw [hhit] at hhalf
      intro v hv _
      exact (hrow.next hit.homed (hhalf.trans hrow.half) (fun _ => .inl) fun _ => .inl).stable hv
    | true =>
      rw [hhit, if_pos rfl, hrow.half] at hhalf
      have hdone : Sweeping rows
          { result with exhausted := result.exhausted ++ [{ row with attempt := row.attempt + 1 }] }
          (t.callBackend (.sweepDeadLetter row)).2 := by
        refine hrow.next hit.homed (by simp [hhalf]) (fun _ => .inl) fun item hitem => ?_
        rcases List.mem_append.mp hitem with hitem | hitem
        · exact .inl hitem
        · exact .inr (by rw [List.mem_singleton.mp hitem])
      apply wp_call
      intro u hu _
      refine ⟨trivial, fun _ => ?_, fun hf => by cases hf⟩
      apply wp_call
      intro v hv _
      refine ⟨⟨rfl, fun _ _ _ _ _ ha => False.elim ha⟩, fun _ => ?_,
        fun _ hf _ w hw _ => hw.half.trans hf⟩
      intro w hw _
      exact (((hdone.stable hu).stable hv).stable (strandRely_callBackend v trivial)).stable hw
  · apply wp_call
    intro t ht _
    refine ⟨trivial, fun _ => ?_, fun hf => by cases hf⟩
    apply wp_call
    intro u hu hiu
    have hrow : Sweeping (row :: rows) result u := (h.stable ht).stable hu
    refine ⟨⟨rfl, fun _ _ _ _ _ ha => False.elim ha⟩, fun _ => ?_,
      fun _ hf _ w hw _ => hw.half.trans hf⟩
    have hreply : ((engine cfg irOf).handle (.inl (.sweepRequeue row t.clock)) u).1 =
        .ok (u.db.workItems.hits row.id WorkItemRow.isClaimed) := settleIf_ok
    have hhalf : (u.callBackend (.sweepRequeue row t.clock)).2.watch.halfWritten =
        u.watch.halfWritten := halfWritten_callBackend u trivial
    change ends _ _ ((engine cfg irOf).handle (.inl (.sweepRequeue row t.clock)) u).1
      (u.callBackend (.sweepRequeue row t.clock)).2
    rw [hreply]
    cases u.db.workItems.hits row.id WorkItemRow.isClaimed with
    | false =>
      intro v hv _
      exact (hrow.next hiu.homed (hhalf.trans hrow.half) (fun _ => .inl) fun _ => .inl).stable hv
    | true =>
      intro v hv _
      refine Sweeping.stable ?_ hv
      refine hrow.next hiu.homed (hhalf.trans hrow.half) (fun item hitem => ?_) fun _ => .inl
      rcases List.mem_append.mp hitem with hitem | hitem
      · exact .inl hitem
      · exact .inr (by rw [List.mem_singleton.mp hitem])

theorem wp_reclaimRows_strand (h : s.watch.halfWritten = []) :
    wp (engine cfg irOf) (pairsWhole others) (strandSpec others) reclaimRows
      (ends (Sweeping []) fun _ t => t.watch.halfWritten = []) s := by
  unfold reclaimRows backend here
  apply wp_call
  intro t ht _
  refine ⟨trivial, fun _ => ?_, fun hf => by cases hf⟩
  apply wp_call
  intro u hu _
  refine ⟨⟨rfl, fun _ _ _ _ _ ha => False.elim ha⟩, fun _ => ?_,
    fun _ hf _ w hw _ => hw.half.trans hf⟩
  refine wp_foldlM Sweeping ?_ ?_ ?_ ⟨?_, fun row hrow => ?_, fun _ hi => (by cases hi),
    fun _ hi => (by cases hi)⟩
  · exact fun row rows result v hv _ => wp_reclaimRow_strand hv
  · exact fun rows result v w hv hw _ => hv.stable hw
  · exact fun result v hv _ => hv
  · exact hu.half.trans (ht.half.trans h)
  · exact ⟨row, Table.find?_of_mem (mem_selectExpired.mp hrow).1, rfl, rfl⟩

/-- These pairs are half made, and these executions are there. -/
structure Open (opened : List (ExecutionId × NodeId)) (es : List ExecutionId) (s : Sys) : Prop where
  half : s.watch.halfWritten = opened
  executions : ∀ e ∈ es, s.db.HasExecution e

omit [Chrono] in
theorem Open.stable {opened : List (ExecutionId × NodeId)} {es : List ExecutionId} {t : Sys}
    (h : Open opened es s) (ht : StrandRely s t) : Open opened es t :=
  ⟨ht.half.trans h.half, fun e he => ht.execution e (h.executions e he)⟩

theorem wp_appendNext_strand {kind : EventKind} {opened : List (ExecutionId × NodeId)}
    {es : List ExecutionId} (he : e ∈ es) (h : Open opened es s) :
    wp (engine cfg irOf) (pairsWhole others) (strandSpec others) (appendNext e kind)
      (ends (fun _ => Open (Watch.pairedAppend e kind opened) es)
        fun _ t => t.watch.halfWritten = []) s := by
  unfold appendNext backend
  apply wp_call
  intro t ht _
  refine ⟨⟨rfl, fun _ _ _ _ _ ha => False.elim ha⟩, fun _ => ?_,
    fun _ hf _ w hw _ => hw.half.trans hf⟩
  apply wp_call
  intro u hu _
  have hread : StrandRely t (t.callBackend (.latestSequence e)).2 :=
    strandRely_callBackend t trivial
  have hopen : Open opened es u := ((h.stable ht).stable hread).stable hu
  refine ⟨trivial, fun _ => ?_, fun _ hf _ w hw _ => hw.half.trans hf⟩
  obtain ⟨row, hrow⟩ := hopen.executions e he
  rcases handle_append cfg irOf u e kind with ⟨hnone, _⟩ | ⟨_, happ⟩
  · rw [hrow] at hnone
    cases hnone
  · rw [happ]
    intro v hv _
    refine Open.stable ?_ hv
    exact ⟨by simp [hopen.half], hopen.executions⟩

theorem wp_recordRetry_strand {item : WorkItemRow} {opened : List (ExecutionId × NodeId)}
    {es : List ExecutionId} (he : item.executionId ∈ es) (h : Open opened es s) :
    wp (engine cfg irOf) (pairsWhole others) (strandSpec others) (recordRetry item)
      (ends (fun _ => Open opened es) fun _ t => t.watch.halfWritten = []) s := by
  unfold recordRetry
  refine wp_bind (wp_mono (fun r t _ ht => ?_) (wp_appendNext_strand he h))
  cases r with
  | error _ => exact ht
  | ok _ => exact wp_appendNext_strand he ht

/-- The sweep and what it records: every item it dead-letters gets its failure recorded. -/
theorem wp_reclaimExpiredLeases_strand (h : s.watch.halfWritten = []) :
    wp (engine cfg irOf) (pairsWhole others) (strandSpec others) reclaimExpiredLeases
      (fun _ t => t.watch.halfWritten = []) s := by
  unfold reclaimExpiredLeases
  refine wp_bind (wp_mono (fun r t _ ht => ?_) (wp_reclaimRows_strand h))
  cases r with
  | error _ => exact ht
  | ok result =>
    have hopen : Open (result.exhausted.map fun item => (item.executionId, item.nodeId))
        ((result.retryable ++ result.exhausted).map (·.executionId)) t := by
      refine ⟨ht.half, fun e he => ?_⟩
      obtain ⟨item, hitem, rfl⟩ := List.mem_map.mp he
      exact (List.mem_append.mp hitem).elim (ht.retryable item) (ht.exhausted item)
    refine wp_bind (wp_foldlM (fun items _ t => items ⊆ result.retryable ∧ Open
      (result.exhausted.map fun item => (item.executionId, item.nodeId))
      ((result.retryable ++ result.exhausted).map (·.executionId)) t) ?_ ?_ ?_
      ⟨List.Subset.refl _, hopen⟩)
    · rintro item items - u ⟨hsub, hu⟩ _
      obtain ⟨hitem, hsub⟩ := List.cons_subset.mp hsub
      refine wp_mono (fun r v _ hv => ?_) (wp_recordRetry_strand
        (List.mem_map.mpr ⟨item, List.mem_append_left _ hitem, rfl⟩) hu)
      cases r with
      | error _ => exact hv
      | ok _ => exact ⟨hsub, hv⟩
    · exact fun items _ u v hu hv _ => ⟨hu.1, hu.2.stable hv⟩
    · rintro - u ⟨-, hu⟩ _
      refine wp_foldlM (fun items _ t => items ⊆ result.exhausted ∧ Open
        (items.map fun item => (item.executionId, item.nodeId))
        ((result.retryable ++ result.exhausted).map (·.executionId)) t) ?_ ?_ ?_
        ⟨List.Subset.refl _, hu⟩
      · rintro item items - v ⟨hsub, hv⟩ _
        obtain ⟨hitem, hsub⟩ := List.cons_subset.mp hsub
        refine wp_mono (fun r w _ hw => ?_) (wp_appendNext_strand
          (List.mem_map.mpr ⟨item, List.mem_append_right _ hitem, rfl⟩) hv)
        cases r with
        | error _ => exact hw
        | ok _ =>
          change Open (List.erase (_ :: _) _) _ w at hw
          rw [List.erase_cons_head] at hw
          exact ⟨hsub, hw⟩
      · exact fun items _ v w hv hw _ => ⟨hv.1, hv.2.stable hw⟩
      · exact fun _ v hv _ => hv.2.half

theorem wp_unpaired {α : Type} {q : Sched α} {ok : {β : Type} → SchedOp β → Prop}
    (hq : q.Within ok) (hgood : ∀ {β : Type} (op : SchedOp β) (s : Sys), ok op → strandGood op s)
    (hkeep : ∀ {β : Type} (op : SchedOp β) (s : Sys), ok op → s.watch.halfWritten = [] →
      ((engine cfg irOf).handle op s).2.watch.halfWritten = [])
    {es : List ExecutionId} (h : Open [] es s) :
    wp (engine cfg irOf) (pairsWhole others) (strandSpec others) q (fun _ => Open [] es) s := by
  refine wp_mono (fun _ _ _ h => h.1) (wp_within hq (P := Open [] es)
    (fun _ _ h ht _ => h.stable ht) (fun op s hop _ h => ⟨hgood op s hop, fun _ => ?_⟩) h)
  refine ⟨hkeep op s hop h.half, fun e he => ?_⟩
  cases op with
  | inl op => exact (h.executions e he).exec op
  | inr op =>
    have hdb : (s.callLocal irOf op).2.db = s.db := Sys.callLocal_db op s
    change (s.callLocal irOf op).2.db.HasExecution e
    rw [hdb]
    exact h.executions e he

omit [Chrono] in
theorem ends_enqueue {nodeId : NodeId} (item : NewWorkItem) (now : Instant)
    (he : item.executionId = e) (hn : item.nodeId = nodeId) (h : Open [(e, nodeId)] [e] s)
    {E : BackendError → Sys → Prop} :
    ends (fun _ => Open [] [e]) E (s.callBackend (.enqueueWorkItem item now)).1
      (s.callBackend (.enqueueWorkItem item now)).2 := by
  subst he hn
  obtain ⟨id, hid⟩ := enqueue_ok now (h.executions item.executionId (by simp))
  have hreply : (s.callBackend (.enqueueWorkItem item now)).1 = .ok id := hid
  rw [hreply]
  refine ⟨?_, fun e he => (h.executions e he).exec _⟩
  rw [halfWritten_enqueue hid, h.half]
  simp

theorem wp_dispatchNode_strand {nodeId : NodeId} {node : NodeDef} (h : Open [] [e] s) :
    wp (engine cfg irOf) (pairsWhole others) (strandSpec others)
      (dispatchNode ir e workflowId workflowVersion p nodeId node)
      (ends (fun _ => Open [] [e]) fun _ t => t.watch.halfWritten = []) s := by
  unfold dispatchNode backend here
  refine wp_bind (wp_mono (fun r t _ ht => ?_) (wp_appendNext_strand (by simp) h))
  cases r with
  | error _ => exact ht
  | ok _ =>
    replace ht : Open [(e, nodeId)] [e] t := ht
    apply wp_call
    intro u hu _
    refine ⟨trivial, fun _ => ?_, fun hf => by cases hf⟩
    apply wp_call
    intro v hv _
    have hopen : Open [(e, nodeId)] [e] v := (ht.stable hu).stable hv
    refine ⟨trivial, fun _ => ?_, fun _ hf _ w hw _ => hw.half.trans hf⟩
    change ends _ _ (v.callBackend _).1 (v.callBackend _).2
    refine ends_mono (fun _ hdone w hw _ => ?_) (fun _ => False.elim)
      (ends_enqueue (E := fun _ _ => False) _ _ ?_ ?_ hopen)
    · exact hdone.stable hw
    · rfl
    · rfl

theorem wp_dispatch_strand {nodes : List NodeId} {enqueued : ℕ} (h : Open [] [e] s) :
    wp (engine cfg irOf) (pairsWhole others) (strandSpec others)
      (dispatch cfg ir e workflowId workflowVersion p nodes enqueued)
      (ends (fun _ => Open [] [e]) fun _ t => t.watch.halfWritten = []) s := by
  induction nodes generalizing enqueued s with
  | nil => exact fun _ ht _ => h.stable ht
  | cons nodeId rest ih =>
    unfold dispatch
    split
    · exact fun _ ht _ => h.stable ht
    · split
      · exact fun _ ht _ => h.stable ht
      · split
        · exact ih h
        · split
          · split
            · refine wp_bind (wp_mono (fun r t _ ht => ?_) (wp_dispatchNode_strand h))
              cases r with
              | error _ => exact ht
              | ok _ => exact ih ht
            · exact ih h
          · exact ih h

theorem halfWritten_append {kind : EventKind} (hk : ∀ node queueType, kind ≠ .nodeScheduled node queueType)
    (hs : s.watch.halfWritten = []) :
    ((engine cfg irOf).handle (.inl (.appendEvent e kind)) s).2.watch.halfWritten = [] := by
  rcases handle_append cfg irOf s e kind with ⟨_, _, hfail⟩ | ⟨_, happ⟩
  · rw [hfail]
    exact hs
  · rw [happ]
    simp only [hs, Watch.pairedAppend]
    split
    · exact absurd rfl (hk _ _)
    · rfl
    · rfl

theorem halfWritten_local {β : Type} {op : LocalOp β} (hs : s.watch.halfWritten = []) :
    ((engine cfg irOf).handle (.inr op) s).2.watch.halfWritten = [] := by
  change (s.callLocal irOf op).2.watch.halfWritten = []
  rw [Sys.callLocal_watch]
  exact hs

theorem halfWritten_backend {β : Type} {op : BackendOp β} (hs : s.watch.halfWritten = [])
    (hop : match op with
      | .sweepDeadLetter _ | .appendEvent .. | .enqueueWorkItem .. => False
      | _ => True) :
    ((engine cfg irOf).handle (.inl op) s).2.watch.halfWritten = [] :=
  (halfWritten_callBackend s hop).trans hs

theorem wp_records_strand {α : Type} {q : Sched α} (hq : q.Within (Records e))
    (h : Open [] [e] s) :
    wp (engine cfg irOf) (pairsWhole others) (strandSpec others) q (fun _ => Open [] [e]) s := by
  refine wp_unpaired hq (fun op s hop => ?_) (fun op s hop hs => ?_) h
  · cases hop
    all_goals first
      | trivial
      | exact ⟨rfl, fun _ _ _ _ _ ha => False.elim ha⟩
      | (refine ⟨rfl, ?_⟩; rintro _ _ _ _ _ ⟨_, rfl, _⟩ heq; cases heq)
  · cases hop with
    | utcNow | sealApprovalRecord => exact halfWritten_local hs
    | auditSealFailed | nodeFailed => exact halfWritten_append (fun _ _ heq => by cases heq) hs
    | _ => exact halfWritten_backend hs trivial

theorem wp_skipCascade_strand {passes : ℕ} (h : Open [] [e] s) :
    wp (engine cfg irOf) (pairsWhole others) (strandSpec others)
      (skipCascade order ir e passes p) (fun _ => Open [] [e]) s := by
  refine wp_unpaired (within_skipCascade order ir passes p) (fun op s hop => ?_)
    (fun op s hop hs => ?_) h
  · cases hop with
    | latestSequence => exact ⟨rfl, fun _ _ _ _ _ ha => False.elim ha⟩
    | nodeSkipped => trivial
  · cases hop with
    | latestSequence => exact halfWritten_backend hs trivial
    | nodeSkipped => exact halfWritten_append (fun _ _ heq => by cases heq) hs

theorem wp_finishIfDone_strand {enqueued : ℕ} (h : Open [] [e] s) :
    wp (engine cfg irOf) (pairsWhole others) (strandSpec others)
      (finishIfDone order e p enqueued) (fun _ => Open [] [e]) s := by
  refine wp_unpaired (within_finishIfDone order p enqueued) (fun op s hop => ?_)
    (fun op s hop hs => ?_) h
  · cases hop with
    | utcNow | dropProgress => trivial
    | finish kind status now hk =>
      refine ⟨rfl, ?_⟩
      rintro _ _ _ _ _ ⟨_, rfl, _⟩ rfl
      cases hk
  · cases hop with
    | utcNow | dropProgress => exact halfWritten_local hs
    | finish => exact halfWritten_backend hs trivial

theorem wp_advance_strand (h : Open [] [e] s) :
    wp (engine cfg irOf) (pairsWhole others) (strandSpec others)
      (advance cfg order ir e workflowId workflowVersion p)
      (fun _ t => t.watch.halfWritten = []) s := by
  unfold advance
  refine wp_bind (wp_mono (fun r t _ ht => ?_) (wp_records_strand (within_sweepDeadlines cfg p) h))
  cases r with
  | error _ => exact ht.half
  | ok _ =>
    refine wp_bind (wp_mono (fun r u _ hu => ?_)
      (wp_records_strand (within_failRejected order p) ht))
    cases r with
    | error _ => exact hu.half
    | ok _ =>
      refine wp_bind (wp_mono (fun r v _ hv => ?_) (wp_skipCascade_strand hu))
      cases r with
      | error _ => exact hv.half
      | ok p' =>
        apply wp_call
        intro w hw _
        have hopen : Open [] [e] w := Open.stable hv hw
        refine ⟨trivial, fun _ => ?_, fun hf => by cases hf⟩
        change wp _ _ _ (dispatchAndFinish cfg order ir e workflowId workflowVersion p') _ _
        unfold dispatchAndFinish
        split
        · exact fun x hx _ => hx.half.trans hopen.half
        · refine wp_bind (wp_mono (fun r x _ hx => ?_)
            (wp_dispatch_strand ⟨hopen.half, hopen.executions⟩))
          cases r with
          | error _ => exact hx
          | ok enqueued => exact wp_mono (fun _ _ _ hy => hy.half) (wp_finishIfDone_strand hx)

theorem wp_readProgress_strand (h : Open [] [e] s) :
    wp (engine cfg irOf) (pairsWhole others) (strandSpec others) (readProgress e)
      (fun _ => Open [] [e]) s := by
  refine wp_unpaired within_readProgress (fun op s hop => ?_) (fun op s hop hs => ?_) h
  · cases hop with
    | getEventsSince => exact ⟨rfl, fun _ _ _ _ _ ha => False.elim ha⟩
    | _ => trivial
  · cases hop with
    | getEventsSince => exact halfWritten_backend hs trivial
    | _ => exact halfWritten_local hs

theorem wp_scheduleRunnableNodes_strand (h : Open [] [e] s) :
    wp (engine cfg irOf) (pairsWhole others) (strandSpec others)
      (scheduleRunnableNodes cfg order e workflowId workflowVersion)
      (fun _ t => t.watch.halfWritten = []) s := by
  unfold scheduleRunnableNodes here
  apply wp_call
  intro t ht _
  have hopen : Open [] [e] t := h.stable ht
  refine ⟨trivial, fun _ => ?_, fun _ hf _ w hw _ => hw.half.trans hf⟩
  have hreply : (engine cfg irOf).handle (.inr (.loadWorkflow workflowId workflowVersion)) t =
      (.ok (irOf workflowId workflowVersion), t) := rfl
  rw [hreply]
  cases irOf workflowId workflowVersion with
  | none => exact fun w hw _ => hw.half.trans hopen.half
  | some ir =>
    refine wp_bind (wp_mono (fun r u _ hu => ?_) (wp_readProgress_strand hopen))
    cases r with
    | error _ => exact hu.half
    | ok p =>
      change wp (engine cfg irOf) (pairsWhole others) (strandSpec others)
        (if p.unreadable = true then _ else _) _ u
      split
      · exact wp_mono (fun _ _ _ hv => hv.half) (wp_records_strand (within_recordStall p) hu)
      · exact wp_advance_strand hu

theorem strand_sound : Sound (engine cfg irOf) (pairsWhole others) (strandSpec others) where
  act a s hi ha := strand_act ha hi
  act_rest a s hi hr ha := (strand_act ha hi).2.half.trans hr
  call op s hi hg _ := by
    cases op with
    | inl op =>
      cases op with
      | sweepDeadLetter row => exact hi.deadLetter hg
      | enqueueWorkItem item now => exact hi.enqueue item now
      | appendEvent e kind =>
        rcases handle_append cfg irOf s e kind with ⟨_, _, hfail⟩ | ⟨_, happ⟩
        · rw [hfail]
          exact hi
        · rw [happ]
          exact hi.append e kind
      | _ => exact hi.unpaired trivial hg.1 (hg.2 s.db)
    | inr op =>
      have hdb : (s.callLocal irOf op).2.db = s.db := Sys.callLocal_db op s
      have hwatch : (s.callLocal irOf op).2.watch = s.watch := Sys.callLocal_watch op s
      change StrandInv others (s.callLocal irOf op).2
      refine ⟨?_, hdb ▸ hi.homed⟩
      rw [hdb, hwatch]
      exact hi.half
  stop s hi hs := by
    refine ⟨⟨fun e node h => ?_, hi.homed⟩, rfl⟩
    have := hi.half e node h
    rw [hs] at this
    exact .inr (this.resolve_left List.not_mem_nil)
  job order s _ _ hr := by
    refine wp_tick (fun t => t.watch.halfWritten = []) (fun x t => t.db.HasExecution x.executionId)
      (fun a b ha hab _ => hab.half.trans ha) (fun x a b h hab => hab.execution _ h)
      (fun x _ op a h => ?_) (fun a ha _ => wp_reclaimExpiredLeases_strand ha)
      (fun a ha _ => ⟨⟨rfl, fun _ _ _ _ _ h => False.elim h⟩, fun _ =>
        ⟨halfWritten_backend ha trivial, fun x hx => ?_⟩⟩)
      (fun x a ha hx _ => wp_scheduleRunnableNodes_strand ⟨ha, by simpa using hx⟩) hr
    · cases op with
      | inl op => exact h.exec op
      | inr op =>
        change (a.callLocal irOf op).2.db.HasExecution x.executionId
        rw [Sys.callLocal_db]
        exact h
    · exact ⟨x, Table.find?_of_mem (mem_listExecutions hx).1⟩

/-- While no tick fails or is stopped between the two writes of a pair, whenever the scheduler is
at rest a node scheduled in a log with no outcome, hold or failure of it since has a pending or
claimed work item, unless another party stranded it. -/
theorem no_stranded_node (others : ExecutionId → NodeId → Prop) (cfg : SchedulerConfig)
    (irOf : String → String → Option WorkflowIr) (clock : Instant) (ms : List EngineMove)
    (hms : (pairsWhole others).Obeyed (engine cfg irOf) (boot {} clock) ms)
    (hrest : ((boot {} clock).run (engine cfg irOf) ms).running = none) (e : ExecutionId)
    (node : NodeId) (hwait : awaiting node
      (((boot {} clock).run (engine cfg irOf) ms).state.db.events e).entries = true) :
    ((boot {} clock).run (engine cfg irOf) ms).state.db.HasLive e node ∨ others e node := by
  have hstart : Meets (engine cfg irOf) (pairsWhole others) (strandSpec others) (boot {} clock) := by
    refine ⟨⟨fun e node h => ?_, fun id r hr => by cases hr⟩, rfl⟩
    cases h.1
  obtain ⟨hinv, hrun⟩ := hstart.run strand_sound hms
  rw [hrest] at hrun
  by_cases hlive : ((boot {} clock).run (engine cfg irOf) ms).state.db.HasLive e node
  · exact .inl hlive
  · have hhalf := hinv.half e node ⟨hwait, hlive⟩
    rw [hrun] at hhalf
    exact .inr (hhalf.resolve_left List.not_mem_nil)

end Tick

theorem startOne_strands_none (e : ExecutionId) (node : NodeId)
    (h : Stranded (startOne.exec {}).2 e node) : False := by
  obtain ⟨hawait, hdead⟩ := h
  by_cases he : e = 0
  · subst he
    change awaiting node [⟨1, .workflowStarted (.object [])⟩, ⟨2, .nodeScheduled "a" "tool"⟩] = true
      at hawait
    have hnode : "a" = node := by simpa [awaiting, EventKind.awaits] using hawait
    subst hnode
    exact hdead ⟨1, _, rfl, rfl, rfl, rfl⟩
  · obtain ⟨kinds, hlog, hkinds⟩ := (startOne.effect {}).logs e
    have hnone : kinds = [] := List.eq_nil_iff_forall_not_mem.mpr fun kind hk =>
      he (hkinds kind hk).1
    rw [hlog, hnone] at hawait
    cases hawait

/-- A tick whose first backend call fails. -/
def faultyTick : List EngineMove :=
  [.outside (.call startOne), .start .sorted, .advance, .fault (.database "disk I/O error")] ++
    List.replicate 7 .advance

theorem no_stranded_node_faulty_tick :
    awaiting "a" (((boot {} 0).run oneNodeEngine faultyTick).state.db.events 0).entries = true ∧
    ((boot {} 0).run oneNodeEngine faultyTick).state.db.HasLive 0 "a" := by
  have hwait : awaiting "a" (((boot {} 0).run oneNodeEngine faultyTick).state.db.events 0).entries =
      true := by decide
  have hms : (pairsWhole fun _ _ => False).Obeyed oneNodeEngine (boot {} 0) faultyTick :=
    ⟨fun e node h => (startOne_strands_none e node h).elim, trivial, trivial, rfl, trivial, trivial,
      trivial, trivial, trivial, trivial, trivial, trivial⟩
  refine ⟨hwait, ?_⟩
  exact (@no_stranded_node firstDay (fun _ _ => False) {} (fun _ _ => some oneNodeIr) 0 faultyTick
    hms rfl 0 "a" hwait).resolve_right id

/-- Two tool nodes with no edge between them: the run is started with `a`, and `b` is dispatched by
the first tick. -/
def twoRootsIr : WorkflowIr where
  nodes := ([⟨"a", ⟨.tool, none⟩⟩, ⟨"b", ⟨.tool, none⟩⟩] :
    List (Sigma fun _ : NodeId => NodeDef)).toFinmap
  edges := []
  models := ∅

abbrev twoRootsEngine : Machine SchedOp BackendError Sys Act (HashOrder NodeId) :=
  @engine firstDay {} fun _ _ => some twoRootsIr

/-- The tick records that `b` is scheduled, and its next backend call, the enqueue, fails. -/
def unqueuedRun : List EngineMove :=
  [.outside (.call (startRun twoRootsIr "a" ⟨.tool, none⟩ 0 "wf" "1.0.0" (.object []) "default" 0)),
    .start .sorted] ++ List.replicate 11 .advance ++
  [.fault (.database "disk I/O error"), .advance]

/-- `b` is scheduled, there is no work item of it, and nothing is left to make one. -/
theorem failed_enqueue_strands_node :
    ((boot {} 0).run twoRootsEngine unqueuedRun).running = none ∧
    awaiting "b" (((boot {} 0).run twoRootsEngine unqueuedRun).state.db.events 0).entries = true ∧
    ∀ r ∈ ((boot {} 0).run twoRootsEngine unqueuedRun).state.db.workItems.rows, r.nodeId ≠ "b" :=
  ⟨rfl, by decide, by decide⟩

end JamJet
