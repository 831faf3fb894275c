import JamJet.LiveItems
import JamJet.Rollover

/-! Any number of rollovers of one execution beside everything else: what there is of its
successor, and who marks it as over. -/

namespace JamJet

open AtomicCalls Materializer Approvals

/-- Any number of workers rolling executions over; claims, expiries, commits and all other calls
happen beside them. -/
def rollovers (segmentExecutionId : ExecutionId → ℕ → ExecutionId) :
    Service ServerOp BackendError Unit Sys ServerAct RolloverJob where
  handle op s := s.handleServer (fun _ _ => none) op
  fallible op := serverFallible op
  act a s := s.serverAct a
  program r := Worker.rolloverSegment segmentExecutionId r

/-- The two operations that write a status of their caller's choice. -/
def BackendOp.setsStatus {β : Type} : BackendOp β → Bool
  | .finishExecution .. | .updateExecutionStatus .. => true
  | _ => false

section Seed

variable {db : Db} {β : Type} {op : BackendOp β} {child : ExecutionId}

/-- A committed turn takes its snapshot past the event it appends. -/
theorem seed_commitTurnInner (h : SnapshotsHold db) (id : WorkItemId) (fence : ℤ)
    (e : ExecutionId) (kind : EventKind) (snapshot refuse : Bool) (now : Instant) :
    (db.commitTurnInner id fence e kind snapshot refuse now).2.snapshots.find? (child, 0) =
      db.snapshots.find? (child, 0) := by
  rcases Db.commitTurnInner_cases db id fence e kind snapshot refuse now with
    hs | ⟨_, hs⟩ | ⟨_, _, settle, row, _, hrow, hs⟩
  · rw [hs]
  · rw [hs]
    rfl
  · rw [hs]
    generalize hdb' : (db.updateItem id (WorkItemRow.claimedUnder fence) settle.1
      settle.2).setEvents e ((db.events e).append kind) = db'
    have hsnap : db'.snapshots = db.snapshots := by rw [← hdb']; rfl
    have hexec : db'.executions = db.executions := by rw [← hdb']; rfl
    have hevents : db'.events e = (db.events e).append kind := by rw [← hdb']; simp
    have hc : db.Continues db' := by
      refine ⟨fun e' => ?_, fun e' x hx => ⟨x, hexec ▸ hx, rfl⟩⟩
      rw [← hdb']
      by_cases he : e' = e
      · subst he
        rw [Db.setEvents_events_self]
        exact SeqLog.extends_append _ _
      · rw [Db.setEvents_events_of_ne _ he]
        exact .refl _
    have hrec : (db'.recordToolEffect e kind now).snapshots = db.snapshots :=
      (Db.recordToolEffect_snapshots db' e kind now).trans hsnap
    have hcore := Db.recordToolEffect_core db' e kind now
    unfold Db.recordTurn
    simp only
    split
    · have hlatest : (db'.recordToolEffect e kind now).latestSnapshot e = db.latestSnapshot e := by
        simp only [Db.latestSnapshot, hrec]
      rw [Db.writeSnapshot_eq, hlatest, hcore.events, materializeBase_fold h hc (hexec ▸ hrow)]
      have hmark : (replay row.initialInput (db'.events e)).lastSequence ≠ 0 := by
        rw [lastSequence_replay, hevents, SeqLog.latest_append]
        exact Nat.succ_ne_zero _
      simp only [Db.putSnapshot, hrec]
      rw [Table.find?_put, if_neg]
      intro hkey
      exact hmark (congrArg Prod.snd hkey)
    · rw [hrec]

theorem seed_exec (h : SnapshotsHold db)
    (hnew : ∀ x, op.newExecution = some x → x.executionId ≠ child) :
    (op.exec db).2.snapshots.find? (child, 0) = db.snapshots.find? (child, 0) := by
  cases op with
  | createRun x seed started scheduled item now =>
    rcases Db.createRun_cases db x seed started scheduled item now with hs | ⟨_, _, -, -, -, hs⟩
    · rw [BackendOp.exec, hs]
    · rw [BackendOp.exec, hs]
      cases seed with
      | none => rfl
      | some seed =>
        simp only [Db.putSeed, Db.putSnapshot]
        rw [Table.find?_put, if_neg]
        intro hkey
        exact hnew x rfl (congrArg Prod.fst hkey)
  | commitTurn id fence e kind snapshot now =>
    rw [BackendOp.exec, Db.commitTurn_db]
    exact seed_commitTurnInner h id fence e kind snapshot false now
  | commitTurnUnlessTerminal id fence e kind snapshot now =>
    exact seed_commitTurnInner h id fence e kind snapshot true now
  | reserveToolEffect key e node owner fence ttl now =>
    rw [BackendOp.exec, Db.reserveToolEffect]
    split <;> rfl
  | releaseToolReservation => rfl
  | _ => rw [(BackendOp.rest rfl db).snapshots]

end Seed

/-- What is fixed about the execution that is rolled over: its row and its log when the attempts
begin, the start node of its workflow, and the id its successor will have. -/
structure RolloverOf where
  parent : ExecutionRow
  log : EventLog
  startNode : NodeId
  child : ExecutionId

namespace RolloverOf

variable (R : RolloverOf)

/-- The child's start items. -/
def startItem (db : Db) (id : WorkItemId) : Prop :=
  ∃ r, db.workItems.find? id = some r ∧ r.executionId = R.child ∧ r.nodeId = R.startNode

/-- A state the parent had come to while the attempts went on. -/
def Carried (db : Db) (state : Json) : Prop :=
  ∃ log, R.log.Extends log ∧ log.Extends (db.events R.parent.executionId) ∧
    state = (replay R.parent.initialInput log).currentState

/-- The child as a rollover leaves it. -/
structure Successor (db : Db) (x : ExecutionRow) : Prop where
  parentExecutionId : x.parentExecutionId = some R.parent.executionId
  segmentNumber : x.segmentNumber = R.parent.segmentNumber + 1
  carried : R.Carried db x.initialInput
  seed : db.snapshots.find? (R.child, 0) = some (.seedForSegment R.child x.initialInput)
  started : ∃ later, (db.events R.child).entries =
    ⟨1, .workflowStarted x.initialInput (runInitiator R.log.entries)⟩ :: later
  startItem : ∃! id, R.startItem db id

/-- The parent goes on from where it was, and its children are at most the one. -/
structure Holds (db : Db) : Prop where
  parent : ∃ x, db.executions.find? R.parent.executionId = some x ∧
    x.initialInput = R.parent.initialInput ∧ x.segmentNumber = R.parent.segmentNumber
  log : R.log.Extends (db.events R.parent.executionId)
  snapshots : SnapshotsHold db
  only : ∀ e x, db.executions.find? e = some x →
    x.parentExecutionId = some R.parent.executionId → e = R.child
  absent : db.executions.find? R.child = none → ∀ id, ¬ R.startItem db id
  successor : ∀ x, db.executions.find? R.child = some x → R.Successor db x

/-- An operation that starts neither the child nor another continuation of the parent, and puts no
start item of the child in the queue. -/
structure LeavesChild {β : Type} (op : BackendOp β) : Prop where
  execution : ∀ x, op.newExecution = some x →
    x.executionId ≠ R.child ∧ x.parentExecutionId ≠ some R.parent.executionId
  item : ∀ item, Creates op item → ¬ (item.executionId = R.child ∧ item.nodeId = R.startNode)
  seeds : op.SeedsSegment

variable {R} {db : Db} {β : Type} {op : BackendOp β}

theorem Carried.mono {db' : Db} {state : Json} (h : R.Carried db state)
    (hlog : (db.events R.parent.executionId).Extends (db'.events R.parent.executionId)) :
    R.Carried db' state := by
  obtain ⟨log, hfrom, hto, hstate⟩ := h
  exact ⟨log, hfrom, hto.trans hlog, hstate⟩

theorem startItem_exec (h : ∀ item, Creates op item →
    ¬ (item.executionId = R.child ∧ item.nodeId = R.startNode)) (id : WorkItemId) :
    R.startItem (op.exec db).2 id ↔ R.startItem db id := by
  have heffect := (op.effect db).items
  constructor
  · rintro ⟨r', hr', he, hn⟩
    cases hr : db.workItems.find? id with
    | none =>
      obtain ⟨item, now, hc, -, rfl⟩ := heffect.new hr hr'
      exact absurd ⟨he, hn⟩ (h item hc)
    | some r =>
      obtain ⟨r'', hr'', hstep⟩ := heffect.row hr
      cases hr'.symm.trans hr''
      obtain ⟨he', hn', -⟩ := hstep.keeps
      exact ⟨r, hr, he'.symm.trans he, hn'.symm.trans hn⟩
  · rintro ⟨r, hr, he, hn⟩
    obtain ⟨r', hr', hstep⟩ := heffect.row hr
    obtain ⟨he', hn', -⟩ := hstep.keeps
    exact ⟨r', hr', he'.trans he, hn'.trans hn⟩

theorem executionStep_keeps {x x' : ExecutionRow} (h : ExecutionStep op x x') :
    x'.initialInput = x.initialInput ∧ x'.segmentNumber = x.segmentNumber ∧
      x'.parentExecutionId = x.parentExecutionId := by
  cases h <;> exact ⟨rfl, rfl, rfl⟩

theorem Holds.exec (h : R.Holds db) (hop : R.LeavesChild op) : R.Holds (op.exec db).2 where
  parent := by
    obtain ⟨x, hx, hinput, hsegment⟩ := h.parent
    obtain ⟨x', hx', hstep⟩ := (op.effect db).executions.row hx
    obtain ⟨hi, hs, -⟩ := executionStep_keeps hstep
    exact ⟨x', hx', hi.trans hinput, hs.trans hsegment⟩
  log := h.log.trans (extends_exec op db _)
  snapshots := h.snapshots.exec hop.seeds
  only e x' hx' hparent := by
    cases hx : db.executions.find? e with
    | none => exact absurd hparent (hop.execution x' ((op.effect db).executions.new hx hx')).2
    | some x =>
      obtain ⟨x'', hx'', hstep⟩ := (op.effect db).executions.row hx
      cases hx'.symm.trans hx''
      exact h.only e x hx ((executionStep_keeps hstep).2.2.symm.trans hparent)
  absent hnone id hid := by
    have hbefore : db.executions.find? R.child = none := by
      cases hx : db.executions.find? R.child with
      | none => rfl
      | some x =>
        obtain ⟨x', hx', -⟩ := (op.effect db).executions.row hx
        rw [hnone] at hx'
        cases hx'
    exact h.absent hbefore id ((startItem_exec hop.item id).mp hid)
  successor x' hx' := by
    cases hx : db.executions.find? R.child with
    | none =>
      have hnew := (op.effect db).executions.new hx hx'
      exact absurd (Table.key_of_find? hx') (hop.execution x' hnew).1
    | some x =>
      obtain ⟨x'', hx'', hstep⟩ := (op.effect db).executions.row hx
      cases hx'.symm.trans hx''
      obtain ⟨hi, hs, hp⟩ := executionStep_keeps hstep
      obtain ⟨hparent, hsegment, hcarried, hseed, ⟨later, hstarted⟩, hitem⟩ := h.successor x hx
      refine ⟨hp.trans hparent, hs.trans hsegment, ?_, ?_, ?_, ?_⟩
      · rw [hi]
        exact hcarried.mono (extends_exec op db _)
      · rw [hi, seed_exec h.snapshots fun x hnew => (hop.execution x hnew).1, hseed]
      · obtain ⟨more, hmore⟩ := extends_exec op db R.child
        refine ⟨later ++ more, ?_⟩
        rw [hi, ← hmore, hstarted]
        rfl
      · simpa only [startItem_exec hop.item] using hitem

/-- The one write that starts the child, with what a rollover has read before it. -/
inductive StartsChild (R : RolloverOf) (db : Db) : {β : Type} → BackendOp β → Prop
  | mk {carriedState : MaterializedState} (hcarried : R.Carried db carriedState.currentState)
      (workflowId workflowVersion queueType tenantId : String) (now : Instant) :
      StartsChild R db (startNextSegment R.parent.executionId R.child (R.parent.segmentNumber + 1)
        carriedState workflowId workflowVersion R.startNode queueType tenantId now
        (runInitiator R.log.entries))

theorem StartsChild.writes (hop : R.StartsChild db op) :
    op.SeedsSegment ∧ ∃ x started scheduled item now,
      (op.exec db).2 = (db.createRun x (some (.seedForSegment R.child x.initialInput)) started scheduled
        item now).2 ∧
      x.executionId = R.child ∧ x.parentExecutionId = some R.parent.executionId ∧
      x.segmentNumber = R.parent.segmentNumber + 1 ∧ R.Carried db x.initialInput ∧
      started = .workflowStarted x.initialInput (runInitiator R.log.entries) ∧
      item.executionId = R.child ∧ item.nodeId = R.startNode := by
  cases hop with
  | mk hcarried =>
    exact ⟨seedsSegment_startNextSegment .., _, _, _, _, _, rfl, rfl, rfl, rfl, hcarried, rfl, rfl, rfl⟩

/-- Whoever comes first makes the child; whoever comes later makes nothing. -/
theorem Holds.start (h : R.Holds db) (hop : R.StartsChild db op) : R.Holds (op.exec db).2 := by
  obtain ⟨hseeds, x, started, scheduled, item, now, hexec, hid, hparent, hsegment, hcarried, rfl,
    hitemExecution, hitemNode⟩ := hop.writes
  have hsnapshots := h.snapshots.exec hseeds
  have hextends := extends_exec op db R.parent.executionId
  have hkeeps := (op.effect db).executions
  rcases Db.createRun_cases db x (some (.seedForSegment R.child x.initialInput))
      (.workflowStarted x.initialInput (runInitiator R.log.entries)) scheduled item now with
    hs | ⟨executions, items, hexecutions, hitems, -, hs⟩
  · rw [hexec, hs]
    exact h
  · have hs := hexec.trans hs
    have hfree : db.executions.find? R.child = none := hid ▸ (Table.rows_of_insert? hexecutions).1
    have hchild : ∀ e, (op.exec db).2.executions.find? e =
        if R.child = e then some x else db.executions.find? e := by
      intro e
      rw [hs, ← hid]
      exact Table.find?_of_insert? hexecutions
    refine ⟨?_, h.log.trans hextends, hsnapshots, ?_, ?_, ?_⟩
    · obtain ⟨p, hp, hinput, hsegment'⟩ := h.parent
      obtain ⟨p', hp', hstep⟩ := hkeeps.row hp
      obtain ⟨hi, hn, -⟩ := executionStep_keeps hstep
      exact ⟨p', hp', hi.trans hinput, hn.trans hsegment'⟩
    · intro e x' hx' hx'parent
      rw [hchild] at hx'
      split at hx'
      · rename_i he
        exact he.symm
      · exact h.only e x' hx' hx'parent
    · intro hnone
      rw [hchild, if_pos rfl] at hnone
      cases hnone
    · intro x' hx'
      rw [hchild, if_pos rfl] at hx'
      cases hx'
      refine ⟨hparent, hsegment, hcarried.mono hextends, ?_, ?_, ?_⟩
      · rw [hs]
        simp only [Db.putSeed, Db.putSnapshot, hid]
        exact (Table.find?_put _ _).trans (if_pos rfl)
      · have hempty : (db.events R.child).entries = [] := h.snapshots.homed R.child hfree
        have hlatest : (db.events R.child).latest = 0 := by
          simp [SeqLog.latest, hempty, SeqLog.maxSequence]
        have hevents : (op.exec db).2.events R.child = ((db.events R.child).append
            (.workflowStarted x.initialInput (runInitiator R.log.entries))).append scheduled := by
          rw [hs, ← hid]
          exact Function.update_self ..
        refine ⟨[⟨2, scheduled⟩], ?_⟩
        simp [hevents, hempty, hlatest]
      · have hrow : ∀ id, (op.exec db).2.workItems.find? id =
            if db.freshItemId = id then some (item.toRow db.freshItemId now)
            else db.workItems.find? id := by
          intro id
          rw [hs]
          exact Table.find?_of_insert? hitems
        refine ⟨db.freshItemId, ⟨_, by rw [hrow, if_pos rfl], hitemExecution, hitemNode⟩, ?_⟩
        rintro id ⟨r, hr, hre, hrn⟩
        rw [hrow] at hr
        split at hr
        · rename_i heq
          exact heq.symm
        · exact absurd ⟨r, hr, hre, hrn⟩ (h.absent hfree id)

theorem LeavesChild.of_not_creates (h : op.creates = false) : R.LeavesChild op where
  execution x hx := by
    cases op with
    | createRun => cases h
    | _ => cases hx
  item item hc := absurd hc (BackendOp.not_creates h item)
  seeds := by
    cases op with
    | createRun => cases h
    | _ => trivial

variable (R)

/-- What is relied on between two calls of a rollover, and what its calls are. -/
def spec : Spec ServerOp Sys where
  inv s := R.Holds s.db
  rely s t := s.db.Continues t.db
  rely_refl s := .refl s.db
  rely_trans h₁ h₂ := h₁.trans h₂
  good op s := match op with
    | .inl (.inl op) => R.StartsChild s.db op ∨ (op.creates = false ∧ op.setsStatus = false)
    | _ => True

/-- Attempts on this execution; nobody else starts its child or enqueues the child's start item;
and no attempt finalizes under a fence that only a settled or requeued item still carries. -/
def rules : Rules ServerOp Sys ServerAct RolloverJob where
  actOk a _ := match a with
    | .call op => R.LeavesChild op
    | .setClock _ => True
  jobOk r := r.executionId = R.parent.executionId ∧ r.startNode = R.startNode
  callOk op s := match op with
    | .inl (.inl (.finalizeRolloverFenced _ id fence _)) =>
        ∀ r, s.db.workItems.find? id = some r → r.status ≠ .claimed → r.leaseFence ≠ fence
    | _ => True

section Attempt

variable {R} {segmentExecutionId : ExecutionId → ℕ → ExecutionId} {s : Sys} {α γ : Type}

theorem wp_utcNow {f : Instant → Server γ} {Q : Except BackendError γ → Sys → Prop}
    (h : ∀ (now : Instant) (s' : Sys), s.db.Continues s'.db → R.Holds s'.db →
      wp (rollovers segmentExecutionId).beside R.rules R.spec (f now) Q s')
    (herr : ∀ e t, Q (.error e) t) :
    wp (rollovers segmentExecutionId).beside R.rules R.spec (Api.utcNow >>= f) Q s :=
  wp_call fun s' hs hi => ⟨trivial, fun _ => h s'.clock s' hs hi, fun _ _ e t _ _ => herr e t⟩

theorem wp_backend {op : BackendOp α} (hop : op.creates = false ∧ op.setsStatus = false) {f : α → Server γ}
    {Q : Except BackendError γ → Sys → Prop} (herr : ∀ e t, Q (.error e) t)
    (h : ∀ (a : α) (s' t : Sys), s.db.Continues s'.db → R.Holds s'.db → (op.exec s'.db).1 = .ok a →
      t.db = (op.exec s'.db).2 →
      wp (rollovers segmentExecutionId).beside R.rules R.spec (f a) Q t) :
    wp (rollovers segmentExecutionId).beside R.rules R.spec (Api.backend op >>= f) Q s := by
  refine wp_call fun s' hs hi => ⟨.inr hop, fun _ => ?_, fun _ _ e t _ _ => herr e t⟩
  change ends _ _ (op.exec s'.db).1 (s'.callBackend op).2
  cases hreply : (op.exec s'.db).1 with
  | ok a => exact h a s' _ hs hi hreply rfl
  | error e => exact fun t _ _ => herr e t

theorem wp_finalizeRollover (r : RolloverJob) :
    wp (rollovers segmentExecutionId).beside R.rules R.spec (Worker.finalizeRollover r)
      (fun _ _ => True) s := by
  unfold Worker.finalizeRollover
  refine wp_utcNow (fun now s' _ _ => ?_) fun _ _ => trivial
  exact wp_backend ⟨rfl, rfl⟩ (fun _ _ => trivial) fun _ _ _ _ _ _ _ => wp_pure fun _ _ _ => trivial

theorem wp_materialize :
    wp (rollovers segmentExecutionId).beside R.rules R.spec
      (Worker.materialize R.parent.executionId)
      (ends (fun mat t => R.Carried t.db mat.currentState) fun _ _ => True) s := by
  unfold Worker.materialize
  refine wp_backend ⟨rfl, rfl⟩ (fun _ _ => trivial) fun execution s₁ t₁ _ hi₁ hreply₁ ht₁ => ?_
  cases hreply₁
  obtain ⟨x, hx, hinput, -⟩ := hi₁.parent
  simp only [hx]
  refine wp_backend ⟨rfl, rfl⟩ (fun _ _ => trivial) fun snapshot s₂ t₂ _ hi₂ hreply₂ ht₂ => ?_
  cases hreply₂
  refine wp_backend ⟨rfl, rfl⟩ (fun _ _ => trivial) fun events s₃ t₃ hc₃ hi₃ hreply₃ ht₃ => ?_
  cases hreply₃
  refine wp_pure fun t hc _ => ?_
  obtain ⟨x₃, hx₃, hinput₃, -⟩ := hi₃.parent
  have hbetween : s₂.db.Continues s₃.db := by
    have hsame : t₂.db = s₂.db := ht₂
    exact hsame ▸ hc₃
  have hfold := materializeBase_fold hi₂.snapshots hbetween hx₃
  have hlast : t₃.db = s₃.db := ht₃
  refine ⟨s₃.db.events R.parent.executionId, hi₃.log, ?_, ?_⟩
  · exact (hlast ▸ hc.log R.parent.executionId)
  · rw [hinput, ← hinput₃, hfold]

/-- The log the attempts begin with starts the run. -/
def Begun (R : RolloverOf) : Prop :=
  ∃ x ∈ R.log.entries, ∃ input initiatedBy, x.kind = .workflowStarted input initiatedBy

theorem runInitiator_extends {log : EventLog} (hbegun : R.Begun) (h : R.log.Extends log) :
    runInitiator log.entries = runInitiator R.log.entries := by
  obtain ⟨more, hmore⟩ := h
  obtain ⟨x, hx, input, initiatedBy, hkind⟩ := hbegun
  unfold runInitiator
  rw [← hmore, List.findSome?_append, Option.or_of_isSome]
  exact List.findSome?_isSome_iff.mpr ⟨x, hx, by simp [hkind]⟩

theorem wp_startNextSegment (hbegun : R.Begun) {r : RolloverJob}
    (hjob : r.executionId = R.parent.executionId ∧ r.startNode = R.startNode)
    (hchild : segmentExecutionId R.parent.executionId (R.parent.segmentNumber + 1) = R.child)
    {carriedState : MaterializedState} (hcarried : R.Carried s.db carriedState.currentState) :
    wp (rollovers segmentExecutionId).beside R.rules R.spec
      (Worker.startNextSegment segmentExecutionId r (R.parent.segmentNumber + 1) carriedState)
      (fun _ _ => True) s := by
  unfold Worker.startNextSegment
  rw [hjob.1, hjob.2, hchild]
  refine wp_backend ⟨rfl, rfl⟩ (fun _ _ => trivial) fun execution s₁ t₁ hc₁ _ hreply₁ ht₁ => ?_
  cases execution with
  | some x => exact wp_pure fun _ _ _ => trivial
  | none =>
    refine wp_utcNow (fun now s₂ hc₂ _ => ?_) fun _ _ => trivial
    refine wp_backend ⟨rfl, rfl⟩ (fun _ _ => trivial) fun events s₃ t₃ hc₃ hi₃ hreply₃ ht₃ => ?_
    cases hreply₃
    rw [runInitiator_extends hbegun hi₃.log]
    have hsofar : s.db.Continues t₃.db := by
      have h₁ : t₁.db = s₁.db := ht₁
      have h₃ : t₃.db = s₃.db := ht₃
      exact h₃ ▸ (hc₁.trans (h₁ ▸ hc₂)).trans hc₃
    refine wp_call fun s₄ hc₄ _ => ⟨.inl ?_, fun _ => ?_, fun _ _ _ _ _ _ => trivial⟩
    · exact .mk (hcarried.mono ((hsofar.trans hc₄).log _)) ..
    · generalize (((rollovers segmentExecutionId).beside.handle _ s₄)).1 = reply
      cases reply with
      | ok a => exact fun _ _ _ => trivial
      | error e => exact fun _ _ _ => trivial

theorem wp_rolloverSegment (hbegun : R.Begun) {r : RolloverJob}
    (hjob : r.executionId = R.parent.executionId ∧ r.startNode = R.startNode)
    (hchild : segmentExecutionId R.parent.executionId (R.parent.segmentNumber + 1) = R.child) :
    wp (rollovers segmentExecutionId).beside R.rules R.spec
      (Worker.rolloverSegment segmentExecutionId r) (fun _ _ => True) s := by
  unfold Worker.rolloverSegment
  refine wp_backend ⟨rfl, rfl⟩ (fun _ _ => trivial) fun events s₁ t₁ _ _ _ _ => ?_
  split
  · exact wp_finalizeRollover r
  · refine wp_backend ⟨rfl, rfl⟩ (fun _ _ => trivial) fun execution s₂ t₂ _ hi₂ hreply₂ _ => ?_
    cases hreply₂
    obtain ⟨x, hx, -, hsegment⟩ := hi₂.parent
    simp only [hjob.1, hx]
    split
    · exact wp_finalizeRollover r
    · refine wp_bind (wp_mono ?_ wp_materialize)
      rintro (err | mat) t hi hmat
      · trivial
      · simp only [ends] at hmat ⊢
        rw [hsegment]
        refine wp_bind (wp_mono ?_ (wp_startNextSegment hbegun hjob hchild hmat))
        rintro (err | nextId) t' hi' -
        · trivial
        · refine wp_backend ⟨rfl, rfl⟩ (fun _ _ => trivial) fun latest s₅ t₅ _ _ _ _ => ?_
          refine wp_backend ⟨rfl, rfl⟩ (fun _ _ => trivial) fun sequence s₆ t₆ _ _ _ _ => ?_
          exact wp_finalizeRollover r

theorem sound (hbegun : R.Begun)
    (hchild : segmentExecutionId R.parent.executionId (R.parent.segmentNumber + 1) = R.child) :
    SoundIn (rollovers segmentExecutionId) R.rules R.spec where
  act := by
    rintro (op | now) s hi hok
    · exact ⟨hi.exec hok, Db.continues_exec op s.db⟩
    · exact ⟨hi, .refl s.db⟩
  call := by
    rintro β ((op | op) | op) s hi hg -
    · refine ⟨?_, Db.continues_exec op s.db⟩
      rcases hg with hstart | ⟨hnone, -⟩
      · exact hi.start hstart
      · exact hi.exec (.of_not_creates hnone)
    · have hdb : ((rollovers segmentExecutionId).handle (.inl (.inr op)) s).2.db = s.db :=
        Sys.callLocal_db op s
      refine ⟨?_, ?_⟩
      · change R.Holds _
        rw [hdb]
        exact hi
      · change s.db.Continues _
        rw [hdb]
        exact .refl s.db
    · cases op with
      | appendEventIf e kind condition =>
        have hleaves : R.LeavesChild (.appendEventIf e kind (condition s.clock)) :=
          .of_not_creates rfl
        exact ⟨hi.exec hleaves, Db.continues_exec _ s.db⟩
  job r s hjob _ := wp_rolloverSegment hbegun hjob hchild

end Attempt

theorem finalize_finds_fence {db : Db} {e : ExecutionId} {id : WorkItemId} {fence : ℤ} {now : Instant}
    {x x' : ExecutionRow} (hx : db.executions.find? e = some x)
    (hx' : (db.finalizeRolloverFenced e id fence now).2.executions.find? e = some x')
    (hne : x'.status ≠ x.status) :
    ∃ r, db.workItems.find? id = some r ∧ r.leaseFence = fence := by
  by_cases hhit : (db.workItems.hits id fun r => r.leaseFence = fence) = true
  · obtain ⟨r, hr, hfence⟩ := Table.hits_iff.mp hhit
    exact ⟨r, hr, by simpa using hfence⟩
  · have hsame : (db.finalizeRolloverFenced e id fence now).2 = db := by
      simp only [Db.finalizeRolloverFenced, hhit]
      rfl
    rw [hsame, hx] at hx'
    exact absurd (congrArg ExecutionRow.status (Option.some.inj hx').symm) hne

/-- The execution as it is before any attempt: its log begun, no child, and no start item of one. -/
structure Before (R : RolloverOf) (db : Db) : Prop where
  parent : db.executions.find? R.parent.executionId = some R.parent
  log : db.events R.parent.executionId = R.log
  begun : R.Begun
  snapshots : SnapshotsHold db
  childless : ∀ e x, db.executions.find? e = some x →
    x.parentExecutionId ≠ some R.parent.executionId
  child : db.executions.find? R.child = none
  items : ∀ id, ¬ R.startItem db id

theorem Before.holds {R : RolloverOf} {db : Db} (h : R.Before db) : R.Holds db where
  parent := ⟨R.parent, h.parent, rfl, rfl⟩
  log := h.log ▸ .refl _
  snapshots := h.snapshots
  only e x hx hparent := absurd hparent (h.childless e x hx)
  absent _ := h.items
  successor x hx := by
    rw [h.child] at hx
    cases hx

section Runs

variable {R : RolloverOf} {segmentExecutionId : ExecutionId → ℕ → ExecutionId}

abbrev RolloverMove := PoolMove BackendError ServerAct RolloverJob

/-- However many attempts race, crash and are repeated: the child is the only one, it goes on from
a state its parent had come to, with one start item and the parent's initiator; and an attempt
marks the parent as over only while it holds the item. -/
theorem rollover_makes_one_successor {s : Sys} {ms : List RolloverMove}
    (hchild : segmentExecutionId R.parent.executionId (R.parent.segmentNumber + 1) = R.child)
    (hbefore : R.Before s.db)
    (hms : R.rules.ObeyedIn (rollovers segmentExecutionId) (idlePool s) ms) :
    (∀ e x, ((idlePool s).run (rollovers segmentExecutionId) ms).state.db.executions.find? e = some x →
      x.parentExecutionId = some R.parent.executionId →
        e = R.child ∧ R.Successor ((idlePool s).run (rollovers segmentExecutionId) ms).state.db x) ∧
    ∀ ms' i, ms' ++ [.advance i] <+: ms →
      ∀ x x', ((idlePool s).run (rollovers segmentExecutionId) ms').state.db.executions.find?
          R.parent.executionId = some x → x.status ≠ .limitExceeded →
        ((idlePool s).run (rollovers segmentExecutionId) (ms' ++ [.advance i])).state.db.executions.find?
          R.parent.executionId = some x' → x'.status = .limitExceeded →
        ∃ id fence now k, ((idlePool s).run (rollovers segmentExecutionId) ms').procs i =
            some (.call (.inl (.inl
              (.finalizeRolloverFenced R.parent.executionId id fence now))) k) ∧
          ((idlePool s).run (rollovers segmentExecutionId) ms').state.db.workItems.hits id
            (WorkItemRow.claimedUnder fence) = true := by
  have hsound := sound (R := R) hbefore.begun hchild
  have hmeets : ∀ ms', R.rules.ObeyedIn (rollovers segmentExecutionId) (idlePool s) ms' →
      Pool.Meets (rollovers segmentExecutionId) R.rules R.spec
        ((idlePool s).run (rollovers segmentExecutionId) ms') := fun ms' h =>
    (Pool.meets_idle hbefore.holds).run hsound h
  constructor
  · intro e x hx hparent
    have hholds := (hmeets ms hms).1
    have he := hholds.only e x hx hparent
    exact ⟨he, hholds.successor x (he ▸ hx)⟩
  · rintro ms' i ⟨rest, rfl⟩ x x' hx hlive hx' hmarked
    rw [List.append_assoc, Pool.obeyedIn_append] at hms
    obtain ⟨hms', hi, -⟩ := hms
    obtain ⟨hinv, hprocs⟩ := hmeets ms' hms'
    rw [Pool.run_concat] at hx'
    generalize (idlePool s).run (rollovers segmentExecutionId) ms' = c at *
    have hsame : ∀ c' : Pool ServerOp BackendError Unit Sys, c'.state.db = c.state.db →
        c'.state.db.executions.find? R.parent.executionId ≠ some x' := by
      intro c' hc' h
      rw [hc', hx] at h
      exact hlive ((congrArg ExecutionRow.status (Option.some.inj h)).trans hmarked)
    simp only [Pool.step] at hx'
    cases hp : c.procs i with
    | none =>
      simp only [hp] at hx'
      exact absurd hx' (hsame c rfl)
    | some p =>
      simp only [hp] at hx'
      cases p with
      | done reply => exact absurd hx' (hsame c rfl)
      | call op k =>
        simp only [Rules.allowsIn, hp] at hi
        have hgood := (hprocs i _ hp c.state (R.spec.rely_refl _) hinv).1
        rcases op with (op | op) | op
        · change (op.exec c.state.db).2.executions.find? _ = some x' at hx'
          have hsets : op.setsStatus = false := by
            rcases hgood with hstart | ⟨-, hsets⟩
            · cases hstart
              rfl
            · exact hsets
          obtain ⟨x'', hx'', hstep⟩ := (op.effect c.state.db).executions.row hx
          cases hx'.symm.trans hx''
          cases hstep with
          | keep => exact absurd hmarked hlive
          | finish => cases hsets
          | setStatus => cases hsets
          | @limitExceeded id fence now _ _ =>
            have he : x.executionId = R.parent.executionId := Table.key_of_find? hx
            have hne : (x.finish .limitExceeded now).status ≠ x.status := Ne.symm hlive
            rw [he] at hx'
            obtain ⟨r, hr, hfence⟩ := finalize_finds_fence hx hx' hne
            have hclaimed : r.status = .claimed := by
              by_contra hother
              exact hi r hr hother hfence
            exact ⟨id, fence, now, k, by rw [he],
              Table.hits_iff.mpr ⟨r, hr, by simp [WorkItemRow.claimedUnder, hclaimed, hfence]⟩⟩
        · exact absurd hx' (hsame ⟨_, c.procs⟩ (Sys.callLocal_db op c.state))
        · cases op with
          | appendEventIf e kind condition =>
            have hexec : (c.state.db.appendEventIf e kind (condition c.state.clock)).2.executions =
                c.state.db.executions := by
              rcases Db.appendEventIf_cases c.state.db e kind (condition c.state.clock) with
                h | ⟨-, -, h⟩
              · rw [h]
              · rw [h]
                rfl
            change (c.state.db.appendEventIf e kind (condition c.state.clock)).2.executions.find? _ =
              some x' at hx'
            rw [hexec, hx] at hx'
            exact absurd ((congrArg ExecutionRow.status (Option.some.inj hx')).trans hmarked) hlive

end Runs

end RolloverOf

/-- What is fixed about the rollover of the one-node run. -/
def oneRolloverOf : RolloverOf where
  parent :=
    { executionId := 0
      workflowId := "wf"
      workflowVersion := "1.0.0"
      status := .running
      initialInput := .object []
      updatedAt := 0
      completedAt := none
      tenantId := "default" }
  log := oneClaimed.db.events 0
  startNode := "a"
  child := 1

theorem oneRolloverOf_before : oneRolloverOf.Before oneClaimed.db where
  parent := rfl
  log := rfl
  begun := ⟨_, List.mem_cons_self, _, _, rfl⟩
  snapshots := by
    have hempty : SnapshotsHold ({} : Db) := SnapshotsHold.of_none rfl fun _ _ => rfl
    refine (hempty.runOps _ fun op hop => ?_).1
    simp only [List.mem_cons, List.not_mem_nil, or_false] at hop
    rcases hop with rfl | rfl <;> trivial
  childless e x hx hparent := by
    obtain ⟨hmem, -⟩ := Table.find?_eq_some_iff.mp hx
    cases List.mem_singleton.mp hmem
    cases hparent
  child := rfl
  items := by
    rintro id ⟨r, hr, he, -⟩
    obtain ⟨hmem, -⟩ := Table.find?_eq_some_iff.mp hr
    cases List.mem_singleton.mp hmem
    cases he

/-- The holder and a worker of an earlier fence roll over at once: both find no child, the stale one
creates it, and the holder's own attempt fails and is repeated. -/
def racingRollovers : List RolloverOf.RolloverMove :=
  [.spawn 1 oneRollover, .spawn 2 { oneRollover with leaseFence := 7 }] ++
    List.replicate 8 (.advance 1) ++ List.replicate 13 (.advance 2) ++
    [.advance 1, .spawn 3 oneRollover, .advance 3, .advance 3, .advance 3]

theorem racingRollovers_leave_one_successor :
    ∃ x, ((idlePool oneClaimed).run (rollovers fun _ n => n) racingRollovers).state.db.executions.find? 1
        = some x ∧
      oneRolloverOf.Successor
        ((idlePool oneClaimed).run (rollovers fun _ n => n) racingRollovers).state.db x := by
  have hms : oneRolloverOf.rules.ObeyedIn (rollovers fun _ n => n) (idlePool oneClaimed)
      racingRollovers := by
    refine ⟨⟨rfl, rfl⟩, ⟨rfl, rfl⟩, trivial, trivial, trivial, trivial, trivial, trivial, trivial,
      trivial, trivial, trivial, trivial, trivial, trivial, trivial, trivial, trivial, trivial,
      trivial, trivial, trivial, ?_, trivial, ⟨rfl, rfl⟩, trivial, trivial, ?_, trivial⟩
    · intro r hr _ hfence
      cases hr
      cases hfence
    · intro r hr hfree
      cases hr
      exact absurd rfl hfree
  exact ⟨_, rfl, ((RolloverOf.rollover_makes_one_successor rfl oneRolloverOf_before hms).1 1 _ rfl
    rfl).2⟩

/-- The run of a node that is not retried, claimed. -/
def oneShot : Sys where
  db := ({} : Db).runOps [
    ⟨_, startRun oneNodeIr "a" ⟨.tool, some "no_retry"⟩ 0 "wf" "1.0.0" (.object []) "default" 0⟩,
    ⟨_, .claimWorkItem "w" ["tool"] none 0⟩]

/-- The sweep takes a stalled worker's item for good, and the worker goes on to finalize. -/
def lostBeforeFinalize (row : WorkItemRow) : List RolloverOf.RolloverMove :=
  .spawn 1 oneRollover :: List.replicate 12 (.advance 1) ++ [.outside (.call (.sweepDeadLetter row))]

theorem stale_worker_marks_parent :
    ∃ row, oneShot.db.selectExpired (after 0 1000) = [row] ∧ row.attempt + 1 ≥ row.maxAttempts ∧
      ((((idlePool oneShot).run (rollovers fun _ n => n)
        (lostBeforeFinalize row)).state.db.executions.find? 0).map (·.status)) = some .running ∧
      (((idlePool oneShot).run (rollovers fun _ n => n)
        (lostBeforeFinalize row)).state.db.workItems.hits 1 (WorkItemRow.claimedUnder 1)) = false ∧
      ((((idlePool oneShot).run (rollovers fun _ n => n)
        (lostBeforeFinalize row ++ [.advance 1])).state.db.executions.find? 0).map (·.status)) =
          some .limitExceeded :=
  ⟨_, rfl, by decide, rfl, rfl, rfl⟩

end JamJet
