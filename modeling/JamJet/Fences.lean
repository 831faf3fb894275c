import JamJet.Engine

/-! Fences: those handed out for a work item only ever grow, and the statements that settle an
item against the fence its caller presents. -/

namespace JamJet

open AtomicCalls

namespace Transition

def fence? : Transition → Option ℤ
  | .minted _ fence => some fence
  | _ => none

/-- The fences handed out in a history, the latest first. -/
def fences (history : List Transition) : List ℤ := history.filterMap fence?

end Transition

open Transition

theorem mintFence_le {t t' e e' : ℤ} (ht : t ≤ t') (he : e ≤ e') : mintFence t e ≤ mintFence t' e' := by
  unfold mintFence
  omega

namespace ItemStep

variable {db : Db} {β : Type} {op : BackendOp β} {r r' : WorkItemRow}

theorem leaseEpoch_le (h : ItemStep db op r r') : r.leaseEpoch ≤ r'.leaseEpoch := by
  cases h with
  | keep | renew => exact le_rfl
  | settle _ h =>
    rcases h with ⟨now, rfl⟩ | rfl | rfl | ⟨n, rfl⟩ <;> exact le_rfl
  | releaseFailed | releaseParked | expire | sweepRequeue | claim | reattach =>
    exact Int.le_add_one le_rfl

theorem claimed_cases (h : ItemStep db op r r') (hc : r'.status = .claimed) :
    (r.status = .claimed ∧ (r' = r ∨ db.renewedFor op = some r.id ∧ ∃ n now, r' = r.renew n now)) ∨
      (r.status = .pending ∧ db.mintedFor op = some r.id ∧ r'.attempt ≤ r.attempt ∧
        r'.leaseEpoch = r.leaseEpoch + 1 ∧ r'.leaseFence = mintFence db.term r'.leaseEpoch) := by
  cases h with
  | keep => exact .inl ⟨hc, .inl rfl⟩
  | renew hg hm =>
    refine .inl ⟨hc, .inr ⟨hm, _, _, rfl⟩⟩
  | settle _ h =>
    rcases h with ⟨now, rfl⟩ | rfl | rfl | ⟨n, rfl⟩ <;> cases hc
  | releaseFailed | releaseParked | expire | sweepRequeue => cases hc
  | claim hp hm => exact .inr ⟨hp, hm, le_rfl, rfl, rfl⟩
  | reattach hg hm =>
    simp only [WorkItemRow.reattachable, decide_eq_true_eq] at hg
    exact .inr ⟨hg.1, hm, Nat.sub_le _ _, rfl, rfl⟩

theorem fence_of_minted (h : ItemStep db op r r') {w : Option WorkerId} {f : ℤ}
    (ht : transition? op r r' = some (.minted w f)) :
    r.leaseEpoch < r'.leaseEpoch ∧ f = mintFence db.term r'.leaseEpoch := by
  unfold transition? at ht
  split at ht
  · cases ht
  · rename_i hs
    split at ht
    · rename_i hc
      cases ht
      rcases h.claimed_cases hc with ⟨hr, _⟩ | ⟨_, _, _, he, hf⟩
      · exact absurd (hc.trans hr.symm) hs
      · exact ⟨by omega, hf⟩
    · split at ht <;> cases ht
    all_goals cases ht

end ItemStep

/-- The fences of every item grow, and none is above the one its row's epoch stands for. -/
def FencesBounded (db : Db) (history : WorkItemId → List Transition) : Prop :=
  ∀ id, (fences (history id)).Pairwise (· > ·) ∧ ∀ f ∈ fences (history id),
    ∃ r, db.workItems.find? id = some r ∧ f ≤ mintFence db.term r.leaseEpoch

theorem FencesBounded.exec {β : Type} (op : BackendOp β) (db : Db) (w : Watch)
    (h : FencesBounded db w.history) :
    FencesBounded (op.exec db).2 (w.note op db (op.exec db).2).history := by
  intro id
  obtain ⟨hpair, hbound⟩ := h id
  have heff := op.effect db
  cases hr : db.workItems.find? id with
  | none =>
    rw [Watch.note_history_of_none hr]
    refine ⟨hpair, fun f hf => ?_⟩
    obtain ⟨r, hr', _⟩ := hbound f hf
    rw [hr] at hr'
    cases hr'
  | some r =>
    obtain ⟨r', hr', hstep⟩ := heff.items.row hr
    rw [Watch.note_history_of_some hr hr']
    have hold : ∀ f ∈ fences (w.history id), f ≤ mintFence db.term r.leaseEpoch := by
      intro f hf
      obtain ⟨r₀, hr₀, hle⟩ := hbound f hf
      cases hr.symm.trans hr₀
      exact hle
    have hgrow := mintFence_le heff.term hstep.leaseEpoch_le
    cases ht : (transition? op r r').bind fence? with
    | none =>
      have hsame : fences ((transition? op r r').toList ++ w.history id) = fences (w.history id) := by
        cases htr : transition? op r r' with
        | none => rfl
        | some t => simp_all [fences]
      rw [hsame]
      exact ⟨hpair, fun f hf => ⟨r', hr', (hold f hf).trans hgrow⟩⟩
    | some f =>
      obtain ⟨t, htr, hf⟩ := Option.bind_eq_some_iff.mp ht
      cases t with
      | minted wk f' =>
        cases hf
        obtain ⟨hlt, rfl⟩ := hstep.fence_of_minted htr
        have hnew : fences ((transition? op r r').toList ++ w.history id) =
            mintFence db.term r'.leaseEpoch :: fences (w.history id) := by
          rw [htr]
          rfl
        rw [hnew]
        refine ⟨List.pairwise_cons.mpr ⟨fun g hg => ?_, hpair⟩, fun g hg => ⟨r', hr', ?_⟩⟩
        · refine lt_of_le_of_lt (hold g hg) ?_
          simp only [mintFence]
          omega
        · rcases List.mem_cons.mp hg with rfl | hg
          · exact mintFence_le heff.term le_rfl
          · exact (hold g hg).trans hgrow
      | expired | released | settled => cases hf

section Settles

/-- The event a turn is committed with: the two kinds `commit_turn` takes. -/
inductive TurnEvent
  | completed (node : NodeId) (result : NodeResult)
  | failed (node : NodeId) (error : String) (attempt : ℕ) (retryable : Bool)

def TurnEvent.kind : TurnEvent → EventKind
  | .completed node result => .nodeCompleted node result
  | .failed node error attempt retryable => .nodeFailed node error attempt retryable

/-- The statements that settle a work item under a fence. -/
inductive FencedSettle
  | commitTurn (e : ExecutionId) (event : TurnEvent) (snapshot : Bool)
  | commitTurnUnlessTerminal (e : ExecutionId) (event : TurnEvent) (snapshot : Bool)
  | completeWorkItemFenced
  | failWorkItemFenced (error : String)
  | parkWorkItem (retryAfter : Instant) (nextAttempt : ℕ)
  | withdrawWorkItemFenced
  | finalizeRolloverFenced (e : ExecutionId)

def reportsLoss {α : Type} : Except BackendError α → Bool
  | .error (.fenceLost _) => true
  | _ => false

/-- Whether the statement reports the fence as lost, and the database it leaves. -/
def FencedSettle.run (db : Db) (id : WorkItemId) (fence : ℤ) (now : Instant) :
    FencedSettle → Bool × Db
  | .commitTurn e event snapshot =>
      let reply := db.commitTurn id fence e event.kind snapshot now
      (reportsLoss reply.1, reply.2)
  | .commitTurnUnlessTerminal e event snapshot =>
      let reply := db.commitTurnUnlessTerminal id fence e event.kind snapshot now
      (reportsLoss reply.1, reply.2)
  | .completeWorkItemFenced =>
      let reply := db.completeWorkItemFenced id fence now
      (reply.1 matches .ok false, reply.2)
  | .failWorkItemFenced error =>
      let reply := db.failWorkItemFenced id fence error now
      (reply.1 matches .ok none, reply.2)
  | .parkWorkItem retryAfter nextAttempt =>
      let reply := db.parkWorkItem id fence retryAfter nextAttempt
      (reply.1 matches .ok false, reply.2)
  | .withdrawWorkItemFenced =>
      let reply := db.withdrawWorkItemFenced id fence
      (reply.1 matches .ok false, reply.2)
  | .finalizeRolloverFenced e =>
      let reply := db.finalizeRolloverFenced e id fence now
      (reply.1 matches .ok false, reply.2)

/-- The item is claimed under the fence, or the loss is reported and no row changes. -/
def NeedsLiveClaim (db : Db) (id : WorkItemId) (fence : ℤ) (now : Instant)
    (settle : FencedSettle) : Prop :=
  db.workItems.hits id (WorkItemRow.claimedUnder fence) = true ∨
    settle.run db id fence now = (true, db)

variable {db : Db} {id : WorkItemId} {fence : ℤ} {now : Instant}

theorem settleIf_of_miss {guard : WorkItemRow → Bool} {f : WorkItemRow → WorkItemRow}
    {hf : ∀ r, (f r).id = r.id} (h : db.workItems.hits id guard = false) :
    db.settleIf id guard f hf = (.ok false, db) := by
  simp [Db.settleIf, h]

theorem commitTurnInner_of_miss (e : ExecutionId) (event : TurnEvent) (snapshot refuse : Bool)
    (h : db.workItems.hits id (WorkItemRow.claimedUnder fence) = false) :
    db.commitTurnInner id fence e event.kind snapshot refuse now = (.error (.fenceLost id), db) := by
  unfold Db.commitTurnInner
  cases event <;> simp only [TurnEvent.kind, Db.settleOf]
  all_goals
    split
    · simp [Db.withdrawWorkItemFenced, settleIf_of_miss h]
    · simp [h]

theorem failWorkItemFenced_of_miss (error : String)
    (h : db.workItems.hits id (WorkItemRow.claimedUnder fence) = false) :
    db.failWorkItemFenced id fence error now = (.ok none, db) := by
  have hnone : (db.workItems.find? id).filter (WorkItemRow.claimedUnder fence) = none := by
    rw [Option.filter_eq_none_iff]
    intro r hr hg
    exact absurd (Table.hits_iff.mpr ⟨r, hr, hg⟩) (by simp [h])
  simp [Db.failWorkItemFenced, hnone]

/-- A fenced settle needs the live claim, except that finalizing a rollover also takes an item
that merely still stores the fence. -/
theorem fenced_settle_needs_live_claim (db : Db) (id : WorkItemId) (fence : ℤ) (now : Instant)
    (settle : FencedSettle) :
    NeedsLiveClaim db id fence now settle ↔
      ((∃ e, settle = .finalizeRolloverFenced e) → ∀ r, db.workItems.find? id = some r →
        r.leaseFence = fence → r.status = .claimed) := by
  by_cases hhit : db.workItems.hits id (WorkItemRow.claimedUnder fence) = true
  · refine iff_of_true (.inl hhit) fun _ r hr _ => ?_
    obtain ⟨r', hr', hg⟩ := Table.hits_iff.mp hhit
    cases hr.symm.trans hr'
    exact (WorkItemRow.claimedUnder_iff.mp hg).2
  · have hmiss : db.workItems.hits id (WorkItemRow.claimedUnder fence) = false := by simpa using hhit
    cases settle with
    | commitTurn e event snapshot =>
      refine iff_of_true (.inr ?_) (by simp)
      simp [FencedSettle.run, Db.commitTurn, commitTurnInner_of_miss e event _ _ hmiss, reportsLoss]
    | commitTurnUnlessTerminal e event snapshot =>
      refine iff_of_true (.inr ?_) (by simp)
      simp [FencedSettle.run, Db.commitTurnUnlessTerminal, commitTurnInner_of_miss e event _ _ hmiss,
        reportsLoss]
    | completeWorkItemFenced =>
      refine iff_of_true (.inr ?_) (by simp)
      simp [FencedSettle.run, Db.completeWorkItemFenced, settleIf_of_miss hmiss]
    | failWorkItemFenced error =>
      refine iff_of_true (.inr ?_) (by simp)
      simp [FencedSettle.run, failWorkItemFenced_of_miss error hmiss]
    | parkWorkItem retryAfter nextAttempt =>
      refine iff_of_true (.inr ?_) (by simp)
      simp [FencedSettle.run, Db.parkWorkItem, settleIf_of_miss hmiss]
    | withdrawWorkItemFenced =>
      refine iff_of_true (.inr ?_) (by simp)
      simp [FencedSettle.run, Db.withdrawWorkItemFenced, settleIf_of_miss hmiss]
    | finalizeRolloverFenced e =>
      -- its guard leaves the status out, so a row that stores the fence is hit whatever it is in
      by_cases hf : db.workItems.hits id (fun r => r.leaseFence = fence) = true
      · refine iff_of_false ?_ ?_
        · rintro (h | h)
          · exact hhit h
          · simp [FencedSettle.run, Db.finalizeRolloverFenced, hf] at h
        · intro h
          obtain ⟨r, hr, hfence⟩ := Table.hits_iff.mp hf
          have hfence : r.leaseFence = fence := by simpa using hfence
          exact hhit (Table.hits_iff.mpr ⟨r, hr,
            WorkItemRow.claimedUnder_iff.mpr ⟨hfence, h ⟨e, rfl⟩ r hr hfence⟩⟩)
      · refine iff_of_true (.inr ?_) fun _ r hr hfence => ?_
        · simp [FencedSettle.run, Db.finalizeRolloverFenced, hf]
        · exact absurd (Table.hits_iff.mpr ⟨r, hr, by simpa using hfence⟩) hf

/-- A run started, its item claimed and completed, all under the fence 1. -/
def completedItemDb : Db :=
  let started := (startOne.exec {}).2
  let claimed := (started.claimWorkItem "w" ["tool"] none 1).2
  (claimed.completeWorkItemFenced 1 1 2).2

/-- The completed item still stores its fence, so finalizing takes effect on it and marks its
execution limit_exceeded. -/
theorem finalize_settles_completed_item :
    ¬ NeedsLiveClaim completedItemDb 1 1 3 (.finalizeRolloverFenced 0) ∧
      ((completedItemDb.finalizeRolloverFenced 0 1 1 3).2.executions.find? 0).map (·.status) =
        some .limitExceeded := by
  refine ⟨?_, by decide⟩
  rintro (h | h)
  · exact absurd h (by decide)
  · exact absurd (congrArg Prod.fst h) (by decide)

end Settles

variable [Chrono]

/-- Every fence handed out for a work item is greater than all handed out for it before. -/
theorem fences_strictly_increase (cfg : SchedulerConfig)
    (irOf : String → String → Option WorkflowIr) (db : Db) (clock : Instant)
    (ms : List EngineMove) (id : WorkItemId) :
    (fences (((boot db clock).run (engine cfg irOf) ms).state.watch.history id)).Pairwise
      (· > ·) := by
  have hinv := run_backend_inv cfg irOf (I := FencesBounded) FencesBounded.exec (boot db clock) ms (fun _ => ⟨List.Pairwise.nil, by simp [boot, atRest, fences]⟩)
  exact (hinv id).1

end JamJet
