import JamJet.TickCalls

/-! The scheduler's cached progress against the fold of the whole log: when the two agree, and
the interleaving in which an event is lost from the cache for good. -/

namespace JamJet

open AtomicCalls Scheduler

namespace ExecProgress

variable [Chrono] {p : ExecProgress} {log log' : EventLog}

/-- The progress is the fold of the log up to its own last sequence number. -/
def Coherent (p : ExecProgress) (log : EventLog) : Prop :=
  p = foldOf log p.lastSequence ∧ p.lastSequence ≤ log.latest

theorem coherent_entries (log : EventLog) : Coherent (applyAll {} log.entries) log := by
  have hlast : (applyAll {} log.entries).lastSequence = log.latest := by
    rw [lastSequence_applyAll]
    exact Nat.zero_max _
  refine ⟨?_, hlast.le⟩
  rw [hlast, foldOf, SeqLog.upTo_latest le_rfl]

theorem coherent_empty (log : EventLog) : Coherent {} log := by
  refine ⟨?_, Nat.zero_le _⟩
  have hnone : log.upTo 0 = [] := by
    refine List.filter_eq_nil_iff.mpr fun x hx => ?_
    have := log.positive x hx
    simp only [decide_eq_true_eq]
    omega
  rw [foldOf, hnone]
  rfl

theorem Coherent.extends (h : p.Coherent log) (hext : log.Extends log') : p.Coherent log' := by
  refine ⟨?_, h.2.trans hext.latest_le⟩
  rw [foldOf, hext.upTo_eq h.2]
  exact h.1

theorem Coherent.applyAll_since (h : p.Coherent log) :
    p.applyAll (log.since p.lastSequence) = applyAll {} log.entries := by
  have hp : p = applyAll {} (log.upTo p.lastSequence) := h.1
  calc p.applyAll (log.since p.lastSequence)
      = (applyAll {} (log.upTo p.lastSequence)).applyAll (log.since p.lastSequence) := by
        rw [← hp]
    _ = applyAll {} log.entries := by rw [← applyAll_append, SeqLog.upTo_append_since]

theorem Coherent.eq_of_latest (h : p.Coherent log) (hl : log.latest ≤ p.lastSequence) :
    p = applyAll {} log.entries := by
  rw [← h.applyAll_since, SeqLog.since_latest hl]
  rfl

end ExecProgress

open ExecProgress

/-- More was appended, none of it a `NodeSkipped`. -/
def GrowsUnskipped (log log' : EventLog) : Prop :=
  log.Extends log' ∧ ∀ x ∈ log'.entries, x ∈ log.entries ∨ x.kind.isNodeSkipped = false

theorem GrowsUnskipped.refl (log : EventLog) : GrowsUnskipped log log :=
  ⟨.refl log, fun _ hx => .inl hx⟩

theorem GrowsUnskipped.trans {l₁ l₂ l₃ : EventLog} (h₁ : GrowsUnskipped l₁ l₂)
    (h₂ : GrowsUnskipped l₂ l₃) : GrowsUnskipped l₁ l₃ := by
  refine ⟨h₁.1.trans h₂.1, fun x hx => ?_⟩
  rcases h₂.2 x hx with hx | hx
  · exact h₁.2 x hx
  · exact .inr hx

theorem growsUnskipped_exec {β : Type} {op : BackendOp β} {db : Db}
    (h : ∀ e kind, Appends db op e kind → kind.isNodeSkipped = false) (e : ExecutionId) :
    GrowsUnskipped (db.events e) ((op.exec db).2.events e) := by
  obtain ⟨kinds, hlog, hkinds⟩ := (op.effect db).logs e
  rw [hlog]
  refine ⟨SeqLog.extends_appendAll _ _, fun x hx => ?_⟩
  rcases SeqLog.mem_appendAll hx with hx | ⟨hk, _⟩
  · exact .inl hx
  · exact .inr (h e x.kind (hkinds _ hk))

/-- Everything the tick has not read of an execution's log is a `NodeSkipped`, as it is when
nobody appends between the tick's read and the skip it is about to record. -/
def UnreadAreSkips (s : Sys) (e : ExecutionId) : Prop :=
  ∀ p, s.progress e = some p →
    ∀ x ∈ (s.db.events e).since p.lastSequence, x.kind.isNodeSkipped = true

/-- Only the tick records skips, and it does so with nothing else unread. -/
def skipsUndisturbed : EngineRules where
  actOk a s := match a with
    | .call op => ∀ e kind, Appends s.db op e kind → kind.isNodeSkipped = false
    | .passTime _ => True
  callOk op s := match op with
    | .inl (.appendEvent e (.nodeSkipped _ _)) => UnreadAreSkips s e
    | _ => True

def foldRely (s s' : Sys) : Prop :=
  s'.progress = s.progress ∧ ∀ e, GrowsUnskipped (s.db.events e) (s'.db.events e)

theorem foldRely_act {a : Act} {s : Sys} (ha : skipsUndisturbed.actOk a s) :
    foldRely s (s.act a) := by
  cases a with
  | call op => exact ⟨rfl, fun e => growsUnskipped_exec ha e⟩
  | passTime nanos => exact ⟨rfl, fun e => .refl _⟩

section Fold

variable [Chrono]

def foldSpec : Spec SchedOp Sys where
  inv s := ∀ e p, s.progress e = some p → p.Coherent (s.db.events e)
  rely := foldRely
  rely_refl _ := ⟨rfl, fun _ => .refl _⟩
  rely_trans h₁ h₂ := ⟨h₂.1.trans h₁.1, fun e => (h₁.2 e).trans (h₂.2 e)⟩
  good op s := match op with
    | .inr (.setProgress e p) => p.Coherent (s.db.events e)
    | _ => True

/-- The tick's local progress on the way through the cascade: the fold up to its last sequence
number, at or past the cached one, and no skip is unread. -/
structure Cascading (e : ExecutionId) (cached p : ExecProgress) (s : Sys) : Prop where
  isCached : s.progress e = some cached
  coherent : p.Coherent (s.db.events e)
  le : cached.lastSequence ≤ p.lastSequence
  unread : ∀ x ∈ (s.db.events e).entries, p.lastSequence < x.sequence → x.kind.isNodeSkipped = false

namespace Cascading

variable {e : ExecutionId} {cached p : ExecProgress} {s t : Sys}

theorem stable (h : Cascading e cached p s) (ht : foldRely s t) : Cascading e cached p t := by
  refine ⟨?_, h.coherent.extends (ht.2 e).1, h.le, fun x hx hs => ?_⟩
  · rw [ht.1]
    exact h.isCached
  · rcases (ht.2 e).2 x hx with hx | hx
    · exact h.unread x hx hs
    · exact hx

theorem latest_eq (h : Cascading e cached p s) (hrule : UnreadAreSkips s e) :
    (s.db.events e).latest = p.lastSequence := by
  refine le_antisymm (SeqLog.maxSequence_le fun x hx => ?_) h.coherent.2
  by_contra hgt
  have hpast : p.lastSequence < x.sequence := Nat.lt_of_not_le hgt
  have hskip := hrule cached h.isCached x (SeqLog.mem_since.mpr ⟨hx, h.le.trans_lt hpast⟩)
  rw [h.unread x hx hpast] at hskip
  cases hskip

theorem skip (h : Cascading e cached p s) (hrule : UnreadAreSkips s e) {latest : EventSequence}
    (hl : p.lastSequence ≤ latest) (hl' : latest ≤ (s.db.events e).latest) {kind : EventKind}
    (hprog : t.progress = s.progress) (hlog : t.db.events e = (s.db.events e).append kind) :
    Cascading e cached (p.apply ⟨latest + 1, kind⟩) t := by
  have hlatest := h.latest_eq hrule
  obtain rfl : latest = (s.db.events e).latest := le_antisymm hl' (hlatest ▸ hl)
  have hp := h.coherent.eq_of_latest hlatest.le
  have hnew : p.apply ⟨(s.db.events e).latest + 1, kind⟩ = applyAll {} (t.db.events e).entries := by
    rw [hlog, SeqLog.entries_append, applyAll_append, ← hp]
    rfl
  have hcoh : (p.apply ⟨(s.db.events e).latest + 1, kind⟩).Coherent (t.db.events e) := by
    rw [hnew]
    exact coherent_entries _
  refine ⟨?_, hcoh, h.le.trans (le_max_left _ _), fun x hx hs => ?_⟩
  · rw [hprog]
    exact h.isCached
  · have hlast : (t.db.events e).latest ≤ (p.apply ⟨(s.db.events e).latest + 1, kind⟩).lastSequence := by
      rw [hlog, SeqLog.latest_append]
      exact le_max_right _ _
    have := SeqLog.le_latest hx
    exact absurd (this.trans hlast) (Nat.not_le.mpr hs)

end Cascading

section Tick

variable {cfg : SchedulerConfig} {irOf : String → String → Option WorkflowIr}
  {order : HashOrder NodeId} {s : Sys} {e : ExecutionId} {ir : WorkflowIr}
  {cached p : ExecProgress}

theorem foldRely_records {β : Type} {op : SchedOp β} (h : Records e op) (s : Sys) :
    foldRely s ((engine cfg irOf).handle op s).2 := by
  refine ⟨by cases h <;> rfl, fun e' => ?_⟩
  cases h
  all_goals first
    | exact .refl _
    | exact growsUnskipped_exec (by rintro e kind ⟨_, rfl, _⟩; rfl) e'

theorem wp_unwritten {α : Type} {q : Sched α} {ok : {β : Type} → SchedOp β → Prop}
    (hq : q.Within ok) (hok : ∀ {β : Type} (op : SchedOp β) (s : Sys), ok op → foldSpec.good op s) :
    wp (engine cfg irOf) skipsUndisturbed foldSpec q (fun _ _ => True) s :=
  wp_mono (fun _ _ _ _ => trivial) (wp_within hq (P := fun _ => True) (fun _ _ _ _ _ => trivial)
    (fun op s h _ _ => ⟨hok op s h, fun _ => trivial⟩) trivial)

theorem wp_records {α : Type} {q : Sched α} (hq : q.Within (Records e))
    (h : Cascading e cached p s) :
    wp (engine cfg irOf) skipsUndisturbed foldSpec q (fun _ => Cascading e cached p) s :=
  wp_mono (fun _ _ _ h => h.1) (wp_within hq (fun _ _ h ht _ => h.stable ht)
    (fun op s hop _ h => ⟨by cases hop <;> trivial, fun _ => h.stable (foldRely_records hop s)⟩) h)

theorem wp_skipNode {node : NodeId} (h : Cascading e cached p s) :
    wp (engine cfg irOf) skipsUndisturbed foldSpec (skipNode e p node)
      (ends (fun p' => Cascading e cached p') fun _ _ => True) s := by
  unfold skipNode backend
  apply wp_call
  intro t ht _
  have htc := h.stable ht
  refine ⟨trivial, fun _ => ?_, fun _ _ _ _ _ _ => trivial⟩
  apply wp_call
  intro u hu _
  refine ⟨trivial, fun hrule => ?_, fun _ _ _ _ _ _ => trivial⟩
  have huc := htc.stable hu
  rcases Db.appendEvent_cases u.db e (.nodeSkipped node "branch not taken") with
    ⟨_, hfail⟩ | ⟨_, happ⟩
  · simp only [engine, Sys.handle, Sys.callBackend, BackendOp.exec, hfail]
    exact fun _ _ _ => trivial
  · simp only [engine, Sys.handle, Sys.callBackend, BackendOp.exec, happ]
    intro v hv _
    refine Cascading.stable ?_ hv
    exact huc.skip hrule htc.coherent.2 (hu.2 e).1.latest_le rfl (Db.setEvents_events_self _)

theorem wp_skipCascade {passes : ℕ} (h : Cascading e cached p s) :
    wp (engine cfg irOf) skipsUndisturbed foldSpec (skipCascade order ir e passes p)
      (ends (fun p' => Cascading e cached p') fun _ _ => True) s := by
  induction passes generalizing p s with
  | zero => exact fun t ht _ => h.stable ht
  | succ passes ih =>
    unfold skipCascade
    split
    · exact fun t ht _ => h.stable ht
    · refine wp_bind (wp_foldlM (fun _ p' => Cascading e cached p') ?_ ?_ ?_ h)
      · exact fun node _ p' t ht _ => wp_skipNode ht
      · exact fun _ p' a b h hab _ => h.stable hab
      · exact fun p' t ht _ => ih ht

theorem wp_readProgress_fold :
    wp (engine cfg irOf) skipsUndisturbed foldSpec (readProgress e)
      (ends (fun p' => Cascading e p' p') fun _ _ => True) s := by
  unfold readProgress backend here
  apply wp_call
  intro t ht hit
  refine ⟨trivial, fun _ => ?_, fun hf => by cases hf⟩
  apply wp_call
  intro u hu hiu
  refine ⟨trivial, fun _ => ?_, fun _ _ _ _ _ _ => trivial⟩
  -- what was cached is still cached and coherent, so the read completes it to the whole log
  have hcached : ((t.progress e).getD {}).Coherent (u.db.events e) := by
    cases hp : t.progress e with
    | none => exact coherent_empty _
    | some p => exact hiu e p ((congrFun hu.1 e).trans hp)
  obtain ⟨p, hp⟩ : ∃ p, p = ((t.progress e).getD {}).applyAll
      ((u.db.events e).since ((t.progress e).getD {}).lastSequence) := ⟨_, rfl⟩
  have hwhole : p = applyAll {} (u.db.events e).entries := hp.trans hcached.applyAll_since
  apply wp_call
  intro v hv _
  have hset : Cascading e p p ((engine cfg irOf).handle (.inr (.setProgress e p)) v).2 := by
    refine ⟨Function.update_self e _ v.progress, ?_, le_rfl, fun x hx hs => ?_⟩
    · rw [hwhole]
      exact (coherent_entries _).extends (hv.2 e).1
    · rcases (hv.2 e).2 x hx with hx | hx
      · have hle := SeqLog.le_latest hx
        rw [hwhole, lastSequence_applyAll] at hs
        exact absurd (hle.trans (le_max_right _ _)) (Nat.not_le.mpr hs)
      · exact hx
  subst hp
  exact ⟨hset.coherent, fun _ => fun w hw _ => hset.stable hw, fun hf => by cases hf⟩

theorem wp_advance_fold {workflowId workflowVersion : String} (h : Cascading e p p s) :
    wp (engine cfg irOf) skipsUndisturbed foldSpec
      (advance cfg order ir e workflowId workflowVersion p) (fun _ _ => True) s := by
  unfold advance
  refine wp_bind (wp_mono (fun r t _ ht => ?_) (wp_records (within_sweepDeadlines cfg p) h))
  cases r with
  | error _ => trivial
  | ok _ =>
    refine wp_bind (wp_mono (fun r u _ hu => ?_) (wp_records (within_failRejected order p) ht))
    cases r with
    | error _ => trivial
    | ok _ =>
      refine wp_bind (wp_mono (fun r v _ hv => ?_) (wp_skipCascade hu))
      cases r with
      | error _ => trivial
      | ok p' =>
        apply wp_call
        intro w hw _
        refine ⟨(Cascading.stable hv hw).coherent, fun _ => ?_, fun hf => by cases hf⟩
        refine wp_unwritten (within_dispatchAndFinish cfg order ir workflowId workflowVersion p')
          fun op s h => ?_
        cases h with
        | dispatches h | finishes h => cases h <;> trivial

theorem wp_scheduleRunnableNodes_fold {workflowId workflowVersion : String} :
    wp (engine cfg irOf) skipsUndisturbed foldSpec
      (scheduleRunnableNodes cfg order e workflowId workflowVersion) (fun _ _ => True) s := by
  unfold scheduleRunnableNodes here
  apply wp_call
  intro t _ _
  refine ⟨trivial, fun _ => ?_, fun _ _ _ _ _ _ => trivial⟩
  have hreply : (engine cfg irOf).handle (.inr (.loadWorkflow workflowId workflowVersion)) t =
      (.ok (irOf workflowId workflowVersion), t) := rfl
  rw [hreply]
  cases irOf workflowId workflowVersion with
  | none => exact fun _ _ _ => trivial
  | some ir =>
    refine wp_bind (wp_mono (fun r u _ hu => ?_) wp_readProgress_fold)
    cases r with
    | error _ => trivial
    | ok p =>
      change wp (engine cfg irOf) skipsUndisturbed foldSpec (if p.unreadable = true then _ else _) _ u
      split
      · exact wp_unwritten (within_recordStall p) fun op s h => by cases h <;> trivial
      · exact wp_advance_fold hu

theorem fold_sound : Sound (engine cfg irOf) skipsUndisturbed foldSpec where
  act a s hi ha := by
    have hrely := foldRely_act ha
    refine ⟨fun e p hp => ?_, hrely⟩
    exact (hi e p ((congrFun hrely.1 e).symm.trans hp)).extends (hrely.2 e).1
  act_rest _ _ _ _ _ := trivial
  call op s hi hg _ := by
    cases op with
    | inl op => exact fun e p hp => (hi e p hp).extends (extends_exec op s.db e)
    | inr op =>
      intro e p hp
      change p.Coherent ((s.callLocal irOf op).2.db.events e)
      rw [Sys.callLocal_db]
      refine Sys.cached_callLocal (I := fun e p => p.Coherent (s.db.events e)) hi ?_ e p hp
      cases op <;> exact hg
  stop s _ _ := ⟨fun _ _ h => (by cases h), trivial⟩
  job order s _ _ _ := by
    refine wp_tick (fun _ => True) (fun _ _ => True) (fun _ _ _ _ _ => trivial)
      (fun _ _ _ _ _ => trivial) (fun _ _ _ _ _ => trivial) (fun s _ _ => ?_)
      (fun s _ _ => ⟨trivial, fun _ => ⟨trivial, fun _ _ => trivial⟩⟩)
      (fun x s _ _ _ => wp_scheduleRunnableNodes_fold) trivial
    exact wp_unwritten within_reclaimExpiredLeases fun op s h => by
      rcases h with h | h <;> cases h <;> trivial

/-- While every skip is recorded with nothing else unread, the cached progress of an execution is
the fold of its whole log up to the cached sequence number, in every state of every run. -/
theorem cached_progress_is_full_fold (cfg : SchedulerConfig)
    (irOf : String → String → Option WorkflowIr) (db : Db) (clock : Instant)
    (ms : List EngineMove)
    (hms : skipsUndisturbed.Obeyed (engine cfg irOf) (boot db clock) ms) (e : ExecutionId)
    (p : ExecProgress)
    (hp : ((boot db clock).run (engine cfg irOf) ms).state.progress e = some p) :
    p = foldOf (((boot db clock).run (engine cfg irOf) ms).state.db.events e) p.lastSequence := by
  have hstart : Meets (engine cfg irOf) skipsUndisturbed foldSpec (boot db clock) :=
    ⟨fun _ _ h => (by cases h), trivial⟩
  exact ((hstart.run fold_sound hms).inv e p hp).1

end Tick

end Fold

/-- A result with nothing to report but the target a condition chose. -/
def routedTo (target : NodeId) : NodeResult :=
  { emptyResult with output := Json.ofFields [("chosen_target", .string target)] }

def routingNode : NodeDef := ⟨.condition [⟨some "x", "b"⟩, ⟨none, "c"⟩], none⟩

/-- A condition in front of `b` and `c`, and a root `r` beside it. -/
def routedIr : WorkflowIr where
  nodes := ([⟨"cond", routingNode⟩, ⟨"b", ⟨.tool, none⟩⟩, ⟨"c", ⟨.tool, none⟩⟩,
    ⟨"r", ⟨.tool, none⟩⟩] : List (Sigma fun _ : NodeId => NodeDef)).toFinmap
  edges := [⟨"cond", "b"⟩, ⟨"cond", "c"⟩]
  models := ∅

abbrev routedEngine : Machine SchedOp BackendError Sys Act (HashOrder NodeId) :=
  @engine firstDay {} fun _ _ => some routedIr

/-- The run is started, a tick dispatches `r`, the condition routes to `c`, and the next tick is
about to record the skip of `b`. -/
def skippingRun : List EngineMove :=
  [.outside (.call (startRun routedIr "cond" routingNode 0 "wf" "1.0.0" (.object []) "default" 0)),
    .start .sorted] ++ List.replicate 13 .advance ++
  [.outside (.call (.claimWorkItem "w1" ["general"] none 1)),
    .outside (.call (.commitTurn 1 1 0 (.nodeCompleted "cond" (routedTo "c")) false 2)),
    .outside (.call (.claimWorkItem "w2" ["tool"] none 3)), .start .sorted] ++
  List.replicate 8 .advance

theorem cached_progress_is_full_fold_undisturbed : ∃ p,
    ((boot {} 0).run routedEngine (skippingRun ++ [.advance, .advance])).state.progress 0 =
      some p ∧ "b" ∈ p.skipped ∧
    p = @foldOf firstDay (((boot {} 0).run routedEngine
      (skippingRun ++ [.advance, .advance])).state.db.events 0) p.lastSequence := by
  have hp : ∃ p, ((boot {} 0).run routedEngine
      (skippingRun ++ [.advance, .advance])).state.progress 0 = some p ∧ "b" ∈ p.skipped :=
    ⟨_, rfl, by decide⟩
  have hskip : UnreadAreSkips ((boot {} 0).run routedEngine skippingRun).state 0 := by
    intro p hp
    cases hp
    decide
  have hms : skipsUndisturbed.Obeyed routedEngine (boot {} 0) (skippingRun ++ [.advance, .advance]) :=
    ⟨by rintro e kind ⟨_, rfl | rfl⟩ <;> rfl, trivial, trivial, trivial, trivial, trivial, trivial,
      trivial, trivial, trivial, trivial, trivial, trivial, trivial, trivial,
      by rintro e kind ⟨⟩, by rintro e kind ⟨_, rfl, _⟩; rfl, by rintro e kind ⟨⟩, trivial,
      trivial, trivial, trivial, trivial, trivial, trivial, trivial, trivial, hskip, trivial,
      trivial⟩
  obtain ⟨p, hp, hb⟩ := hp
  exact ⟨p, hp, hb, @cached_progress_is_full_fold firstDay {} _ {} 0 _ hms 0 p hp⟩

/-- `r` completes between the sequence number the tick read and the skip it appends. -/
def lostRun : List EngineMove :=
  skippingRun ++ [.outside (.call (.commitTurn 2 1 0 (.nodeCompleted "r" (routedTo "")) false 4)),
    .advance, .advance]

/-- The completion of `r` is in the log, at the cached sequence number, and not in the cache. -/
theorem cached_progress_misses_completion : ∃ p,
    ((boot {} 0).run routedEngine lostRun).state.progress 0 = some p ∧ "r" ∉ p.completed ∧
    "r" ∈ (@foldOf firstDay (((boot {} 0).run routedEngine lostRun).state.db.events 0)
      p.lastSequence).completed :=
  ⟨_, rfl, by decide, by decide⟩

end JamJet
