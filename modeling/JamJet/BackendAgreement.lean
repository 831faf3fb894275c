import JamJet.LeaseOps

/-! One work item on both backends: whether the fenced calls get the same answer and leave the same
attempt and holder, whatever the calls and their order. -/

namespace JamJet

/-- A call that may concern the item.  The committed event is one of the item's execution. -/
inductive LeaseCall
  | claimWorkItemWithLease (worker : WorkerId) (queueTypes : List String) (leaseSecs : Option ℕ)
      (expiryNow now : Instant)
  | reclaimExpiredLeases (now : Instant)
  | renewLease (worker : WorkerId) (fence : ℤ) (now : Instant)
  | heartbeatLease (worker : WorkerId) (fence : ℤ) (now : Instant)
  | completeWorkItemFenced (fence : ℤ) (now : Instant)
  | failWorkItemFenced (fence : ℤ) (error : String) (now : Instant)
  | withdrawWorkItemFenced (fence : ℤ)
  | parkWorkItem (fence : ℤ) (retryAfter : Instant) (nextAttempt : ℕ)
  | commitTurn (fence : ℤ) (kind : EventKind) (snapshot : Bool) (now : Instant)
  | finalizeRolloverFenced (e : ExecutionId) (fence : ℤ) (now : Instant)

namespace LeaseCall

/-- Whether the in-memory backend accepts the call (grants this item, for a claim), and what it is
then. -/
def onMemory (id : WorkItemId) (e : ExecutionId) (m : InMemoryBackend) :
    LeaseCall → Bool × InMemoryBackend
  | .claimWorkItemWithLease worker queueTypes leaseSecs expiryNow now =>
      let (granted, m') := m.claimWorkItemWithLease worker queueTypes leaseSecs expiryNow now
      (granted = some id, m')
  | .reclaimExpiredLeases now => (true, m.reclaimExpiredLeases now)
  | .renewLease worker fence now =>
      let (reply, m') := m.renewLease id worker fence now
      (reply.isOk, m')
  | .heartbeatLease worker fence now =>
      let (reply, m') := m.heartbeatLease id worker fence now
      (reply.isOk, m')
  | .completeWorkItemFenced fence _ => m.completeWorkItemFenced id fence
  | .failWorkItemFenced fence error _ => m.failWorkItemFenced id fence error
  | .withdrawWorkItemFenced fence => m.withdrawWorkItemFenced id fence
  | .parkWorkItem fence _ nextAttempt => m.parkWorkItem id fence nextAttempt
  | .commitTurn fence kind snapshot _ =>
      let (reply, m') := m.commitTurn id fence e kind snapshot
      (reply.isOk, m')
  | .finalizeRolloverFenced e' fence now => m.finalizeRolloverFenced e' id fence now

/-- A reply of `true`, or of something, accepts. -/
def accepted : Except BackendError Bool → Bool
  | .ok b => b
  | .error _ => false

/-- The same on SQLite. -/
def onSqlite (id : WorkItemId) (e : ExecutionId) (db : Db) : LeaseCall → Bool × Db
  | .claimWorkItemWithLease worker queueTypes leaseSecs expiryNow now =>
      let (granted, db') := db.claimWorkItemWithLease worker queueTypes leaseSecs expiryNow now
      (granted = some id, db')
  | .reclaimExpiredLeases now => (true, db.reclaimExpiredLeases now)
  | .renewLease worker fence now =>
      let (reply, db') := db.renewHeldLease id worker fence now
      (reply.isOk, db')
  | .heartbeatLease worker fence now =>
      let (reply, db') := db.heartbeatLease id worker fence now
      (reply.isOk, db')
  | .completeWorkItemFenced fence now =>
      let (reply, db') := db.completeWorkItemFenced id fence now
      (accepted reply, db')
  | .failWorkItemFenced fence error now =>
      let (reply, db') := db.failWorkItemFenced id fence error now
      (accepted (reply.map Option.isSome), db')
  | .withdrawWorkItemFenced fence =>
      let (reply, db') := db.withdrawWorkItemFenced id fence
      (accepted reply, db')
  | .parkWorkItem fence retryAfter nextAttempt =>
      let (reply, db') := db.parkWorkItem id fence retryAfter nextAttempt
      (accepted reply, db')
  | .commitTurn fence kind snapshot now =>
      let (reply, db') := db.commitTurn id fence e kind snapshot now
      (reply.isOk, db')
  | .finalizeRolloverFenced e' fence now =>
      let (reply, db') := db.finalizeRolloverFenced e' id fence now
      (accepted reply, db')

/-- A claim that one backend grants, the other grants as well. -/
def grantedAlike (id : WorkItemId) (e : ExecutionId) (m : InMemoryBackend) (db : Db)
    (call : LeaseCall) : Prop :=
  match call with
  | .claimWorkItemWithLease .. => (call.onMemory id e m).1 = (call.onSqlite id e db).1
  | _ => True

/-- When the two backends' guards come to the same.  In memory a free item keeps a fence, and the
guards of a park and of a committed turn test nothing else; on SQLite a settled row keeps its fence,
and the guard of a rollover tests nothing else; and only in memory does a claim on no queue at all
reclaim expired leases. -/
def guardsAgree (id : WorkItemId) (m : InMemoryBackend) (db : Db) : LeaseCall → Prop
  | .claimWorkItemWithLease _ queueTypes _ expiryNow _ =>
      queueTypes = [] → ∀ item, m.workItems.find? id = some item → item.lapsed expiryNow = true →
        m.isTerminal item.executionId = false ∧ item.maxAttempts ≤ item.attempt + 1
  | .parkWorkItem fence _ _ =>
      ∀ item, m.workItems.find? id = some item → item.workerId = none → item.leaseFence ≠ fence
  | .commitTurn fence kind _ now =>
      (Db.settleOf kind now).isSome →
        ∀ item, m.workItems.find? id = some item → item.workerId = none → item.leaseFence ≠ fence
  | .finalizeRolloverFenced _ fence _ =>
      (∀ item, m.workItems.find? id = some item → item.workerId = none →
        (item.leaseFence = fence ↔ fence = 0)) ∧
      (m.workItems.find? id = none → ∀ r, db.workItems.find? id = some r → r.leaseFence ≠ fence)
  | _ => True

end LeaseCall

/-- The attempt and the holder of an item that is not settled. -/
def InMemoryBackend.holding (m : InMemoryBackend) (id : WorkItemId) :
    Option (ℕ × Option WorkerId) :=
  (m.workItems.find? id).map fun item => (item.attempt, item.workerId)

def Db.holding (db : Db) (id : WorkItemId) : Option (ℕ × Option WorkerId) :=
  ((db.workItems.find? id).filter WorkItemRow.isLive).map fun r => (r.attempt, r.workerId)

/-! What the two keep of one item -/

/-- The columns both have. -/
structure SameItem (e : ExecutionId) (x : MemoryEntry) (item : WorkItem) (r : WorkItemRow) :
    Prop where
  execution : item.executionId = e
  row_execution : r.executionId = e
  attempt : item.attempt = r.attempt
  maxAttempts : item.maxAttempts = r.maxAttempts
  worker : item.workerId = r.workerId
  lease : item.leaseExpiresAt = r.leaseExpiresAt
  epoch : x.epoch = r.leaseEpoch
  nonneg : 0 ≤ r.leaseEpoch
  len : x.leaseLen = r.leaseSecs.getD defaultLeaseSecs
  lost : ∀ fence, r.lastLeaseFence = some fence → epochAfterExpiryOf fence ≤ r.leaseEpoch

/-- Who may still re-attach.  A claim clears this in memory; on SQLite the epoch has moved on. -/
def LastAgrees (r : WorkItemRow) : Option (WorkerId × ℤ) → Prop
  | some (worker, fence) => r.lastWorkerId = some worker ∧ r.lastLeaseFence = some fence
  | none => ∀ fence, r.lastLeaseFence = some fence → epochAfterExpiryOf fence < r.leaseEpoch

/-- An entry of the maps and a row of the table that stand for one item. -/
inductive Twins (e : ExecutionId) (x : MemoryEntry) : Option WorkItemRow → Prop
  | settled {row : Option WorkItemRow} (hx : x.item = none)
      (h : ∀ r, row = some r → r.isLive = false) : Twins e x row
  | claimed {item : WorkItem} {r : WorkItemRow} (hx : x.item = some item)
      (same : SameItem e x item r) (hr : r.status = .claimed) (worker : r.workerId.isSome = true)
      (fence : item.leaseFence = r.leaseFence) (minted : fenceEpoch r.leaseFence ≤ r.leaseEpoch)
      (last : x.last = none) : Twins e x (some r)
  | pending {item : WorkItem} {r : WorkItemRow} (hx : x.item = some item)
      (same : SameItem e x item r) (hr : r.status = .pending) (worker : r.workerId = none)
      (lease : r.leaseExpiresAt = none) (fence : r.leaseFence = 0) (last : LastAgrees r x.last) :
      Twins e x (some r)

/-- Two backends that have run the same calls on an item of this execution. -/
structure Joint (id : WorkItemId) (e : ExecutionId) (m : InMemoryBackend) (db : Db) : Prop where
  twins : Twins e (m.entry id) (db.workItems.find? id)
  status : (m.executions.find? e).map (·.status) = (db.executions.find? e).map (·.status)
  term : m.storeTerm = db.term
  stored : db.ItemsStored

section Lapse

variable {e : ExecutionId} {x : MemoryEntry} {row : Option WorkItemRow} {now : Instant}

theorem Twins.lapsed_iff {item : WorkItem} {r : WorkItemRow} (h : Twins e x (some r))
    (hx : x.item = some item) (now : Instant) : item.lapsed now = r.leaseExpired now := by
  cases h with
  | settled hx' => simp [hx'] at hx
  | claimed hx' same hr worker =>
    cases hx.symm.trans hx'
    simp [WorkItem.lapsed, WorkItemRow.leaseExpired, same.lease, same.worker, hr, worker]
  | pending hx' same hr worker =>
    cases hx.symm.trans hx'
    simp [WorkItem.lapsed, WorkItemRow.leaseExpired, same.worker, hr, worker]

theorem SameItem.requeue {item item' : WorkItem} {r r' : WorkItemRow} {x' : MemoryEntry}
    (same : SameItem e x item r) (minted : fenceEpoch r.leaseFence ≤ r.leaseEpoch)
    (hitem : item' = { item with
      attempt := item.attempt + 1, workerId := none, leaseExpiresAt := none,
      leaseFence := item'.leaseFence })
    (hrow : r' = { r with
      status := .pending, attempt := r.attempt + 1, workerId := none, leaseExpiresAt := none,
      leaseFence := 0, leaseEpoch := r.leaseEpoch + 1, lastWorkerId := r.workerId,
      lastLeaseFence := some r.leaseFence, retryAfter := r'.retryAfter })
    (hepoch : x'.epoch = x.epoch + 1) (hlen : x'.leaseLen = x.leaseLen) :
    SameItem e x' item' r' := by
  rw [hitem, hrow]
  refine ⟨same.execution, same.row_execution, ?_, same.maxAttempts, rfl, rfl, ?_, ?_, ?_, ?_⟩
  · simp [same.attempt]
  · rw [hepoch, same.epoch]
  · have hnonneg := same.nonneg
    simp only
    omega
  · rw [hlen, same.len]
  · intro fence hfence
    cases hfence
    simp only [epochAfterExpiryOf]
    omega

theorem not_leaseExpired {r : WorkItemRow} (h : r.isLive = false) : r.leaseExpired now = false := by
  simp only [WorkItemRow.isLive, decide_eq_false_iff_not, not_or] at h
  simp [WorkItemRow.leaseExpired, h.2]

theorem Twins.lapsing (h : Twins e x row) (now : Instant) {onItem : WorkItem → MemoryEntry}
    {onRow : WorkItemRow → WorkItemRow}
    (hlapse : ∀ item r, x.item = some item → SameItem e x item r → r.status = .claimed →
      r.workerId.isSome = true → item.leaseFence = r.leaseFence →
        fenceEpoch r.leaseFence ≤ r.leaseEpoch → x.last = none →
          Twins e (onItem item) (some (onRow r))) :
    Twins e (x.item.elim x fun item => if item.lapsed now then onItem item else x)
      (row.map fun r => if r.leaseExpired now then onRow r else r) := by
  cases h with
  | settled hx h =>
    refine .settled (by simp [hx]) fun r' hr' => ?_
    obtain ⟨r, hr, rfl⟩ := Option.map_eq_some_iff.mp hr'
    simpa [not_leaseExpired (h r hr)] using h r hr
  | @claimed item r hx same hr worker fence minted last =>
    have hlapsed := (Twins.claimed hx same hr worker fence minted last).lapsed_iff hx now
    simp only [hx, Option.elim_some, Option.map_some, hlapsed]
    by_cases hexpired : r.leaseExpired now = true
    · simp only [hexpired, if_true]
      exact hlapse item r hx same hr worker fence minted last
    · simp only [hexpired]
      exact .claimed hx same hr worker fence minted last
  | @pending item r hx same hr worker lease fence last =>
    have hlapsed := (Twins.pending hx same hr worker lease fence last).lapsed_iff hx now
    have hexpired : r.leaseExpired now = false := by simp [WorkItemRow.leaseExpired, hr]
    simp only [hx, Option.elim_some, Option.map_some, hlapsed, hexpired, Bool.false_eq_true,
      if_false]
    exact .pending hx same hr worker lease fence last

theorem SameItem.left_iff {item : WorkItem} {r : WorkItemRow} (same : SameItem e x item r) :
    item.attempt + 1 < item.maxAttempts ↔ r.attempt + 1 < r.maxAttempts := by
  rw [same.attempt, same.maxAttempts]

theorem Twins.expiry (h : Twins e x row) {m : InMemoryBackend} {db : Db}
    (hterminal : m.isTerminal e = (db.terminalStatusOf e).isSome) (now : Instant) :
    Twins e (m.afterExpiry now x)
      (row.map fun r => Db.afterExpiry (db.terminalStatusOf r.executionId).isSome now r) := by
  refine h.lapsing now fun item r hx same hr worker fence minted last => ?_
  simp only [InMemoryBackend.expired, Db.expired, same.execution, same.row_execution, hterminal]
  by_cases hover : (db.terminalStatusOf e).isSome = true
  · simp only [hover, if_true]
    exact .settled rfl fun r' hr' => by
      cases hr'
      rfl
  · by_cases hleft : r.attempt + 1 < r.maxAttempts
    · have hitem : x.item.map WorkItem.expire = some item.expire := by rw [hx, Option.map_some]
      simp only [hover, same.left_iff.mpr hleft, not_le.mpr hleft, if_true, if_false]
      refine .pending hitem (same.requeue minted rfl rfl rfl rfl) rfl rfl rfl rfl ?_
      obtain ⟨w, hw⟩ := Option.isSome_iff_exists.mp worker
      simp [LastAgrees, WorkItemRow.expire, hw, same.worker, fence]
    · simp only [hover, mt same.left_iff.mp hleft, not_lt.mp hleft, if_true, if_false]
      exact .claimed hx same hr worker fence minted last

theorem Twins.sweep (h : Twins e x row) (now : Instant) :
    Twins e (InMemoryBackend.afterSweep now x) (row.map (Db.afterSweep now)) := by
  refine h.lapsing now fun item r hx same hr worker fence minted last => ?_
  simp only [InMemoryBackend.reclaimed, Db.reclaimed]
  by_cases hleft : r.attempt + 1 < r.maxAttempts
  · have hitem : x.item.map WorkItem.sweepRequeue = some item.sweepRequeue := by
      rw [hx, Option.map_some]
    simp only [same.left_iff.mpr hleft, not_le.mpr hleft, if_true, if_false]
    refine .pending hitem (same.requeue minted rfl rfl rfl rfl) rfl rfl rfl rfl ?_
    obtain ⟨w, hw⟩ := Option.isSome_iff_exists.mp worker
    simp [LastAgrees, WorkItemRow.sweepRequeue, hw, same.worker, fence]
  · simp only [mt same.left_iff.mp hleft, not_lt.mp hleft, if_true, if_false]
    exact .settled rfl fun r' hr' => by
      cases hr'
      rfl

theorem Twins.held_eq (h : Twins e x row) (fence : ℤ) :
    x.item.any (WorkItem.heldUnder fence) = row.any (WorkItemRow.claimedUnder fence) := by
  cases h with
  | settled hx h =>
    cases row with
    | none => simp [hx]
    | some r =>
      have hlive := h r rfl
      simp only [WorkItemRow.isLive, decide_eq_false_iff_not, not_or] at hlive
      simp [hx, WorkItemRow.claimedUnder, hlive.2]
  | claimed hx same hr worker hfence =>
    simp [hx, WorkItem.heldUnder, WorkItemRow.claimedUnder, same.worker, worker, hr, hfence]
  | pending hx same hr worker =>
    simp [hx, WorkItem.heldUnder, WorkItemRow.claimedUnder, same.worker, worker, hr]

theorem Twins.held_cases (h : Twins e x row) (fence : ℤ) :
    (x.item.filter (WorkItem.heldUnder fence) = none ∧
      row.filter (WorkItemRow.claimedUnder fence) = none) ∨
    ∃ item r, x.item = some item ∧ row = some r ∧ item.heldUnder fence = true ∧
      r.claimedUnder fence = true ∧ SameItem e x item r := by
  have hguard := h.held_eq fence
  cases h with
  | settled hx =>
    refine .inl ⟨by simp [hx], Option.filter_eq_none_iff.mpr fun r hr hg => ?_⟩
    simp [hx, hr, hg] at hguard
  | @claimed item r hx same | @pending item r hx same =>
    by_cases hg : r.claimedUnder fence = true
    · exact .inr ⟨item, r, hx, rfl, by simpa [hx, hg] using hguard, hg, same⟩
    · refine .inl ⟨?_, by simp [hg]⟩
      simpa [hx, hg] using hguard

theorem Twins.fence_eq (h : Twins e x row) {fence : ℤ}
    (hfree : ∀ item, x.item = some item → item.workerId = none →
      (item.leaseFence = fence ↔ fence = 0))
    (hgone : x.item = none → ∀ r, row = some r → r.leaseFence ≠ fence) :
    x.item.any (fun item => item.leaseFence = fence) = row.any fun r => r.leaseFence = fence := by
  cases h with
  | settled hx hlive =>
    cases row with
    | none => simp [hx]
    | some r => simp [hx, hgone hx r rfl]
  | claimed hx same hr worker hfence => simp [hx, hfence]
  | @pending item r hx same hr worker lease hfence =>
    have hw : item.workerId = none := same.worker.trans worker
    have hzero : (0 : ℤ) = fence ↔ fence = 0 := eq_comm
    simp [hx, hfence, hfree item hx hw, hzero]

theorem Twins.release (h : Twins e x row) {fence : ℤ} {r : WorkItemRow} (hrow : row = some r)
    (hheld : r.claimedUnder fence = true) {x' : MemoryEntry} {item : WorkItem}
    (hx : x.item = some item) (item' : WorkItem) (hx' : x'.item = some item') (n : ℕ) (t : Instant)
    (hitem : item'.executionId = item.executionId ∧ item'.attempt = n ∧
      item'.maxAttempts = item.maxAttempts ∧ item'.workerId = none ∧ item'.leaseExpiresAt = none)
    (hepoch : x'.epoch = x.epoch + 1) (hlen : x'.leaseLen = x.leaseLen) (hlast : x'.last = x.last) :
    Twins e x' (some (r.release n t)) := by
  obtain ⟨hexec, hattempt, hmax, hworker, hlease⟩ := hitem
  have hclaimed : r.status = .claimed := by
    simp only [WorkItemRow.claimedUnder, decide_eq_true_eq] at hheld
    exact hheld.2
  cases h with
  | settled hx₀ => simp [hx₀] at hx
  | claimed hx₀ same hr worker hfence minted last =>
    cases hrow
    cases hx.symm.trans hx₀
    have hnonneg := same.nonneg
    have hlost := same.lost
    refine .pending hx' ⟨hexec.trans same.execution, same.row_execution, hattempt,
      hmax.trans same.maxAttempts, hworker, hlease, ?_, ?_, hlen.trans same.len, ?_⟩ rfl rfl rfl rfl ?_
    · rw [hepoch, same.epoch]
      rfl
    · simp only [WorkItemRow.release]
      omega
    · intro f hf
      have := hlost f hf
      simp only [WorkItemRow.release]
      omega
    · rw [hlast, last]
      intro f hf
      have := hlost f hf
      simp only [WorkItemRow.release]
      omega
  | pending hx₀ same hr =>
    cases hrow
    simp [hr] at hclaimed

end Lapse

section Calls

variable {id : WorkItemId} {e : ExecutionId} {m m' : InMemoryBackend} {db db' : Db} {fence : ℤ}

theorem Joint.move (h : Joint id e m db) (hmexec : m'.executions = m.executions)
    (hmterm : m'.storeTerm = m.storeTerm) (hexec : db'.executions = db.executions)
    (hterm : db'.term = db.term) (hstored : db'.ItemsStored)
    (htwins : Twins e (m'.entry id) (db'.workItems.find? id)) : Joint id e m' db' where
  twins := htwins
  status := by rw [hmexec, hexec, h.status]
  term := by rw [hmterm, hterm, h.term]
  stored := hstored

theorem Joint.terminal_eq (h : Joint id e m db) :
    m.isTerminal e = (db.terminalStatusOf e).isSome := by
  have hstatus := h.status
  unfold InMemoryBackend.isTerminal Db.terminalStatusOf
  cases hm : m.executions.find? e with
  | none =>
    cases hdb : db.executions.find? e with
    | none => rfl
    | some y => simp [hm, hdb] at hstatus
  | some x =>
    cases hdb : db.executions.find? e with
    | none => simp [hm, hdb] at hstatus
    | some y =>
      simp only [hm, hdb, Option.map_some, Option.some.injEq] at hstatus
      by_cases ht : y.status.isTerminal = true <;> simp [hstatus, ht]

theorem Joint.removeHeld (h : Joint id e m db) {f : WorkItemRow → WorkItemRow}
    (hf : ∀ r, (f r).id = r.id) (hsettled : ∀ r, (f r).isLive = false)
    (hstored : (db.settleIf id (WorkItemRow.claimedUnder fence) f hf).2.ItemsStored) :
    (m.removeHeld id fence).1 =
        LeaseCall.accepted (db.settleIf id (WorkItemRow.claimedUnder fence) f hf).1 ∧
      Joint id e (m.removeHeld id fence).2
        (db.settleIf id (WorkItemRow.claimedUnder fence) f hf).2 := by
  have hguard : m.workItems.hits id (WorkItem.heldUnder fence) =
      db.workItems.hits id (WorkItemRow.claimedUnder fence) := h.twins.held_eq fence
  have hreply := Db.settleIf_reply db (WorkItemRow.claimedUnder fence) hf id
  obtain ⟨hexec, hterm⟩ := Db.settleIf_kept db (WorkItemRow.claimedUnder fence) hf id
  have hrow := Db.settleIf_row db (WorkItemRow.claimedUnder fence) hf id id
  rw [hreply]
  unfold InMemoryBackend.removeHeld
  by_cases hhit : db.workItems.hits id (WorkItemRow.claimedUnder fence) = true
  · rw [hguard, if_pos hhit]
    refine ⟨hhit.symm, h.move rfl rfl hexec hterm hstored ?_⟩
    rw [InMemoryBackend.entry_removeItem, if_pos rfl, hrow]
    obtain ⟨r, hr, hg⟩ := Table.hits_iff.mp hhit
    refine .settled rfl fun r' hr' => ?_
    rw [hr] at hr'
    simp only [Option.map_some, if_true, hg, Option.some.injEq] at hr'
    exact hr' ▸ hsettled r
  · rw [hguard, if_neg hhit]
    refine ⟨by simpa [LeaseCall.accepted] using hhit, h.move rfl rfl hexec hterm hstored ?_⟩
    have hsame : (db.settleIf id (WorkItemRow.claimedUnder fence) f hf).2 = db := by
      rw [Db.settleIf, if_neg hhit]
    rw [hsame]
    exact h.twins

theorem Joint.fail (h : Joint id e m db) (error : String) (now : Instant) :
    (m.failWorkItemFenced id fence error).1 =
        LeaseCall.accepted ((db.failWorkItemFenced id fence error now).1.map Option.isSome) ∧
      Joint id e (m.failWorkItemFenced id fence error).2
        (db.failWorkItemFenced id fence error now).2 := by
  have hstored := h.stored.exec (.failWorkItemFenced id fence error now) rfl
  simp only [BackendOp.exec] at hstored
  unfold InMemoryBackend.failWorkItemFenced
  unfold Db.failWorkItemFenced at hstored ⊢
  rcases h.twins.held_cases fence with ⟨hnone, hnone'⟩ | ⟨item, r, hitem, hrow, hheld, hg, same⟩
  · have hnone : (m.workItems.find? id).filter (WorkItem.heldUnder fence) = none := hnone
    simp only [hnone, hnone']
    exact ⟨rfl, h⟩
  · have hitem : m.workItems.find? id = some item := hitem
    have hsome : (m.workItems.find? id).filter (WorkItem.heldUnder fence) = some item := by
      simp [hitem, hheld]
    have hsome' : (db.workItems.find? id).filter (WorkItemRow.claimedUnder fence) = some r := by
      simp [hrow, hg]
    simp only [hsome, hsome'] at hstored ⊢
    have hspent : item.attempt + 1 ≥ item.maxAttempts ↔ r.attempt + 1 ≥ r.maxAttempts := by
      rw [same.attempt, same.maxAttempts]
    by_cases hleft : r.attempt + 1 ≥ r.maxAttempts
    · simp only [hspent.mpr hleft, hleft, if_true] at hstored ⊢
      refine ⟨rfl, h.move rfl rfl rfl rfl hstored (.settled ?_ fun r' hr' => ?_)⟩
      · rw [InMemoryBackend.entry_removeItem, if_pos rfl]
      · simp only [(Db.insertDeadLetter_core _ _).workItems] at hr'
        rw [Db.updateItem_find? (WorkItemRow.deadLetter_id (r.attempt + 1)), hrow] at hr'
        simp only [Option.map_some, hg, and_self, if_true, Option.some.injEq] at hr'
        exact hr' ▸ rfl
    · simp only [hspent, hleft, if_false] at hstored ⊢
      refine ⟨rfl, h.move rfl rfl rfl rfl hstored ?_⟩
      rw [Db.updateItem_find? (WorkItemRow.release_id (r.attempt + 1) _), hrow]
      simp only [Option.map_some, hg, and_self, if_true]
      rw [InMemoryBackend.entry_bumpEpoch, if_pos rfl, InMemoryBackend.entry_setItem, if_pos rfl]
      refine h.twins.release hrow hg hitem (item.fail error) ?_ (r.attempt + 1) _
        ⟨rfl, ?_, rfl, rfl, rfl⟩ rfl rfl rfl
      · exact congrArg (Option.map (WorkItem.fail error)) hitem
      · simp [WorkItem.fail, same.attempt]

theorem Joint.fence_eq (h : Joint id e m db)
    (hfree : ∀ item, m.workItems.find? id = some item → item.workerId = none →
      item.leaseFence ≠ fence) :
    (m.workItems.hits id fun item => item.leaseFence = fence) =
      db.workItems.hits id (WorkItemRow.claimedUnder fence) := by
  have hheld : (m.workItems.find? id).any (WorkItem.heldUnder fence) =
      db.workItems.hits id (WorkItemRow.claimedUnder fence) := h.twins.held_eq fence
  rw [← hheld]
  change (m.workItems.find? id).any _ = _
  cases hitem : m.workItems.find? id with
  | none => rfl
  | some item =>
    cases hw : item.workerId with
    | none => simp [WorkItem.heldUnder, hw, hfree item hitem hw]
    | some w => simp [WorkItem.heldUnder, hw]

theorem Joint.park (h : Joint id e m db) (retryAfter : Instant) (nextAttempt : ℕ)
    (hfree : ∀ item, m.workItems.find? id = some item → item.workerId = none →
      item.leaseFence ≠ fence) :
    (m.parkWorkItem id fence nextAttempt).1 =
        LeaseCall.accepted (db.parkWorkItem id fence retryAfter nextAttempt).1 ∧
      Joint id e (m.parkWorkItem id fence nextAttempt).2
        (db.parkWorkItem id fence retryAfter nextAttempt).2 := by
  have hstored := h.stored.exec (.parkWorkItem id fence retryAfter nextAttempt) rfl
  have hguard := h.fence_eq hfree
  simp only [BackendOp.exec] at hstored
  unfold InMemoryBackend.parkWorkItem
  unfold Db.parkWorkItem Db.settleIf at hstored ⊢
  rw [hguard]
  by_cases hhit : db.workItems.hits id (WorkItemRow.claimedUnder fence) = true
  · simp only [hhit, if_true] at hstored ⊢
    rcases h.twins.held_cases fence with ⟨-, hnone⟩ | ⟨item, r, hitem, hrow, hheld, hg, same⟩
    · obtain ⟨r, hr, hg⟩ := Table.hits_iff.mp hhit
      simp [hr, hg] at hnone
    · refine ⟨rfl, h.move rfl rfl rfl rfl hstored ?_⟩
      rw [Db.updateItem_find? (WorkItemRow.release_id nextAttempt retryAfter), hrow]
      simp only [Option.map_some, hg, and_self, if_true]
      rw [InMemoryBackend.entry_bumpEpoch, if_pos rfl, InMemoryBackend.entry_setItem, if_pos rfl]
      refine h.twins.release hrow hg hitem (item.park nextAttempt) ?_ nextAttempt retryAfter
        ⟨rfl, rfl, rfl, rfl, rfl⟩ rfl rfl rfl
      exact congrArg (Option.map (WorkItem.park nextAttempt)) hitem
  · simp only [hhit]
    exact ⟨rfl, h⟩

/-- A committed turn that finds a free item under no fence of its own. -/
theorem Joint.commit (h : Joint id e m db) (kind : EventKind) (snapshot : Bool) (now : Instant)
    (hfree : (Db.settleOf kind now).isSome = true →
      ∀ item, m.workItems.find? id = some item → item.workerId = none → item.leaseFence ≠ fence) :
    (m.commitTurn id fence e kind snapshot).1.isOk =
        (db.commitTurn id fence e kind snapshot now).1.isOk ∧
      Joint id e (m.commitTurn id fence e kind snapshot).2
        (db.commitTurn id fence e kind snapshot now).2 := by
  have hstored := h.stored.exec (.commitTurn id fence e kind snapshot now) rfl
  simp only [BackendOp.exec] at hstored
  by_cases hhit : (Db.settleOf kind now).isSome = true ∧
      db.workItems.hits id (WorkItemRow.claimedUnder fence) = true
  · obtain ⟨hkind, hhit⟩ := hhit
    have hhit' := (h.fence_eq (hfree hkind)).trans hhit
    obtain ⟨settle, hsettle⟩ := Option.isSome_iff_exists.mp hkind
    obtain ⟨r, hr, hg⟩ := Table.hits_iff.mp hhit
    have hexecution : r.executionId = e := by
      rcases h.twins.held_cases fence with ⟨-, hnone⟩ | ⟨item, r', -, hrow, -, -, same⟩
      · simp [hr, hg] at hnone
      · cases hr.symm.trans hrow
        exact same.row_execution
    obtain ⟨x, hx⟩ := Option.isSome_iff_exists.mp (hexecution ▸ h.stored id r hr)
    obtain ⟨_, m', hm, hmexec, hmterm, hmentry⟩ := m.commitTurn_accepted (e := e) hkind hhit' snapshot
    obtain ⟨_, db', hdb, hitems, hexec, hterm, -⟩ := Db.commitTurn_held hsettle hhit hx snapshot
    rw [hdb] at hstored
    rw [hm, hdb]
    refine ⟨rfl, h.move hmexec hmterm hexec hterm hstored (.settled ?_ fun r' hr' => ?_)⟩
    · rw [hmentry, InMemoryBackend.entry_removeItem, if_pos rfl]
    · rw [hitems, Db.updateItem_find? settle.2, hr] at hr'
      simp only [Option.map_some, hg, and_self, if_true, Option.some.injEq] at hr'
      exact hr' ▸ Db.settleOf_settles hsettle r
  · have hmiss : Db.settleOf kind now = none ∨
        db.workItems.hits id (WorkItemRow.claimedUnder fence) = false := by
      cases hs : Db.settleOf kind now with
      | none => exact .inl rfl
      | some settle => exact .inr (by simpa [hs] using hhit)
    have hmiss' : Db.settleOf kind now = none ∨
        (m.workItems.hits id fun item => item.leaseFence = fence) = false := by
      cases hs : Db.settleOf kind now with
      | none => exact .inl rfl
      | some settle =>
        rw [h.fence_eq (hfree (by simp [hs]))]
        exact .inr (hmiss.resolve_left (by simp [hs]))
    obtain ⟨_, hm⟩ := InMemoryBackend.commitTurn_refused (e := e) snapshot hmiss'
    obtain ⟨_, hdb⟩ := Db.commitTurn_refused (e := e) snapshot hmiss
    rw [hm, hdb]
    exact ⟨rfl, h⟩

theorem status_update {t t' : Table ExecutionId ExecutionRow (·.executionId)}
    (h : (t.find? e).map (·.status) = (t'.find? e).map (·.status)) (e' : ExecutionId)
    {f g : ExecutionRow → ExecutionRow} (hf : ∀ x, (f x).executionId = x.executionId)
    (hg : ∀ x, (g x).executionId = x.executionId) (hwrite : ∀ x y, (f x).status = (g y).status) :
    ((t.update e' (fun x => !x.status.isTerminal) f hf).find? e).map (·.status) =
      ((t'.update e' (fun x => !x.status.isTerminal) g hg).find? e).map (·.status) := by
  rw [Table.find?_update, Table.find?_update]
  cases ht : t.find? e with
  | none =>
    cases ht' : t'.find? e with
    | none => rfl
    | some y => simp [ht, ht'] at h
  | some x =>
    cases ht' : t'.find? e with
    | none => simp [ht, ht'] at h
    | some y =>
      have hstatus : x.status = y.status := by simpa [ht, ht'] using h
      simp only [Option.map_some, hstatus]
      split
      · rw [hwrite x y]
      · rw [hstatus]

theorem Joint.finalize (h : Joint id e m db) (e' : ExecutionId) (now : Instant)
    (hfree : ∀ item, m.workItems.find? id = some item → item.workerId = none →
      (item.leaseFence = fence ↔ fence = 0))
    (hgone : m.workItems.find? id = none → ∀ r, db.workItems.find? id = some r →
      r.leaseFence ≠ fence) :
    (m.finalizeRolloverFenced e' id fence now).1 =
        LeaseCall.accepted (db.finalizeRolloverFenced e' id fence now).1 ∧
      Joint id e (m.finalizeRolloverFenced e' id fence now).2
        (db.finalizeRolloverFenced e' id fence now).2 := by
  have hstored := h.stored.exec (.finalizeRolloverFenced e' id fence now) rfl
  simp only [BackendOp.exec] at hstored
  have hguard : (m.workItems.hits id fun item => item.leaseFence = fence) =
      db.workItems.hits id fun r => r.leaseFence = fence :=
    h.twins.fence_eq hfree hgone
  unfold InMemoryBackend.finalizeRolloverFenced
  unfold Db.finalizeRolloverFenced at hstored ⊢
  rw [hguard]
  by_cases hhit : (db.workItems.hits id fun r => r.leaseFence = fence) = true
  · simp only [hhit, if_true] at hstored ⊢
    obtain ⟨r, hr, hg⟩ := Table.hits_iff.mp hhit
    refine ⟨rfl, ⟨.settled ?_ fun r' hr' => ?_, ?_, h.term, hstored⟩⟩
    · change ((m.removeItem id).entry id).item = none
      rw [InMemoryBackend.entry_removeItem, if_pos rfl]
    · rw [Db.updateExecution_workItems, Db.updateItem_find? (WorkItemRow.complete_id now), hr] at hr'
      simp only [Option.map_some, hg, and_self, if_true, Option.some.injEq] at hr'
      exact hr' ▸ rfl
    · have hwrite := status_update h.status e'
        (f := fun x => { x with status := .limitExceeded, updatedAt := now }) (fun _ => rfl)
        (ExecutionRow.finish_executionId .limitExceeded now) fun _ _ => rfl
      exact hwrite
  · simp only [hhit]
    exact ⟨rfl, h⟩

/-! Leases -/

theorem Twins.renewable_eq {x : MemoryEntry} {row : Option WorkItemRow} (h : Twins e x row)
    (worker : WorkerId) :
    x.item.any (fun item => item.workerId = some worker ∧ item.leaseFence = fence) =
      row.any (Db.renewable worker fence) := by
  cases h with
  | settled hx hlive =>
    cases row with
    | none => simp [hx]
    | some r =>
      have hlive := hlive r rfl
      simp only [WorkItemRow.isLive, decide_eq_false_iff_not, not_or] at hlive
      simp [hx, Db.renewable, WorkItemRow.claimedUnder, hlive.2]
  | claimed hx same hr hworker hfence =>
    simp [hx, Db.renewable, WorkItemRow.claimedUnder, same.worker, hr, hfence]
  | pending hx same hr hworker =>
    simp [hx, Db.renewable, same.worker, hworker]

theorem renewLease_accepted (m : InMemoryBackend) (id : WorkItemId) (worker : WorkerId) (fence : ℤ)
    (now : Instant) :
    (m.renewLease id worker fence now).1.isOk =
        m.workItems.hits id (fun item => item.workerId = some worker ∧ item.leaseFence = fence) ∧
      (m.renewLease id worker fence now).2 =
        if m.workItems.hits id (fun item => item.workerId = some worker ∧ item.leaseFence = fence)
        then m.setItem id (WorkItem.renew (m.leaseLenOf id) now)
          (WorkItem.renew_id (m.leaseLenOf id) now)
        else m := by
  unfold InMemoryBackend.renewLease Table.hits
  cases hitem : m.workItems.find? id with
  | none => simp [Except.isOk, Except.toBool]
  | some item =>
    by_cases hw : item.workerId = some worker
    · by_cases hf : item.leaseFence = fence <;> simp [hw, hf, Except.isOk, Except.toBool]
    · simp [hw, Except.isOk, Except.toBool]

theorem renewHeldLease_accepted (db : Db) (id : WorkItemId) (worker : WorkerId) (fence : ℤ)
    (now : Instant) :
    (db.renewHeldLease id worker fence now).1.isOk = db.workItems.hits id (Db.renewable worker fence) ∧
      (db.renewHeldLease id worker fence now).2 =
        db.updateItem id (Db.renewable worker fence) (WorkItemRow.renew (db.leaseSecsFor id) now)
          (WorkItemRow.renew_id (db.leaseSecsFor id) now) := by
  unfold Db.renewHeldLease Db.renewLease
  by_cases hhit : db.workItems.hits id (Db.renewable worker fence) = true
  · simp [hhit, Except.isOk, Except.toBool]
  · have hmiss : db.workItems.hits id (Db.renewable worker fence) = false := by simpa using hhit
    have hsame : db.updateItem id (Db.renewable worker fence)
        (WorkItemRow.renew (db.leaseSecsFor id) now)
        (WorkItemRow.renew_id (db.leaseSecsFor id) now) = db := by
      rw [Db.updateItem, Table.update_eq_self hmiss]
    simp [hmiss, hsame, Except.isOk, Except.toBool]

theorem Joint.renew (h : Joint id e m db) (worker : WorkerId) (now : Instant) :
    (m.renewLease id worker fence now).1.isOk = (db.renewHeldLease id worker fence now).1.isOk ∧
      Joint id e (m.renewLease id worker fence now).2
        (db.renewHeldLease id worker fence now).2 := by
  have hguard : (m.workItems.hits id fun item =>
      item.workerId = some worker ∧ item.leaseFence = fence) =
      db.workItems.hits id (Db.renewable worker fence) := h.twins.renewable_eq worker
  obtain ⟨hreply, hleft⟩ := renewLease_accepted m id worker fence now
  obtain ⟨hreply', hleft'⟩ := renewHeldLease_accepted db id worker fence now
  have hstored := h.stored.exec (.renewLease id worker fence (db.leaseSecsFor id) now) rfl
  simp only [BackendOp.exec] at hstored
  change (db.renewHeldLease id worker fence now).2.ItemsStored at hstored
  rw [hleft'] at hstored
  refine ⟨hreply.trans (hguard.trans hreply'.symm), ?_⟩
  rw [hleft, hleft', hguard]
  by_cases hhit : db.workItems.hits id (Db.renewable worker fence) = true
  · rw [if_pos hhit]
    refine h.move rfl rfl rfl rfl hstored ?_
    obtain ⟨r, hr, hg⟩ := Table.hits_iff.mp hhit
    have hg' : r.workerId = some worker ∧ r.claimedUnder fence = true := by
      simpa [Db.renewable] using hg
    rw [Db.updateItem_find? (WorkItemRow.renew_id (db.leaseSecsFor id) now),
      InMemoryBackend.entry_setItem, if_pos rfl]
    have hlen : db.leaseSecsFor id = r.leaseSecs.getD defaultLeaseSecs := by
      simp [Db.leaseSecsFor, hr]
    have htwins := h.twins
    rw [hr] at htwins ⊢
    simp only [Option.map_some, hg, and_self, if_true]
    cases htwins with
    | settled hx hlive =>
      have hlive := hlive r rfl
      have hclaimed : r.status = .claimed := by
        have := hg'.2
        simp only [WorkItemRow.claimedUnder, decide_eq_true_eq] at this
        exact this.2
      simp [WorkItemRow.isLive, hclaimed] at hlive
    | @claimed item _ hx same hstatus hworker hfence minted last =>
      have hmlen : m.leaseLenOf id = db.leaseSecsFor id := same.len.trans hlen.symm
      rw [hmlen]
      have hrenewed := congrArg (Option.map (WorkItem.renew (db.leaseSecsFor id) now)) hx
      rw [Option.map_some] at hrenewed
      exact .claimed hrenewed
        ⟨same.execution, same.row_execution, same.attempt, same.maxAttempts, same.worker, rfl,
          same.epoch, same.nonneg, same.len, same.lost⟩ hstatus hworker hfence minted last
    | pending hx same hstatus hworker =>
      simp [hworker] at hg'
  · have hmiss : db.workItems.hits id (Db.renewable worker fence) = false := by simpa using hhit
    rw [if_neg hhit, Db.updateItem, Table.update_eq_self hmiss]
    exact h

/-- Pending from the expiry of exactly this lease, by the maps. -/
def MemoryEntry.reattachable (worker : WorkerId) (fence : ℤ) (x : MemoryEntry) : Bool :=
  x.last = some (worker, fence) ∧ x.item.any (fun item => item.workerId = none) ∧
    x.epoch = epochAfterExpiryOf fence

theorem Twins.reattachable_eq {x : MemoryEntry} {row : Option WorkItemRow} (h : Twins e x row)
    (worker : WorkerId) :
    x.reattachable worker fence = row.any (WorkItemRow.reattachable worker fence) := by
  cases h with
  | settled hx hlive =>
    cases row with
    | none => simp [MemoryEntry.reattachable, hx]
    | some r =>
      have hlive := hlive r rfl
      simp only [WorkItemRow.isLive, decide_eq_false_iff_not, not_or] at hlive
      simp [MemoryEntry.reattachable, hx, WorkItemRow.reattachable, hlive.1]
  | claimed hx same hr hworker hfence minted last =>
    simp [MemoryEntry.reattachable, last, WorkItemRow.reattachable, hr]
  | @pending item r hx same hr hworker lease hfence last =>
    cases hlast : x.last with
    | none =>
      rw [hlast] at last
      have hmoved : r.lastLeaseFence = some fence → r.leaseEpoch ≠ epochAfterExpiryOf fence :=
        fun hf he => absurd (last fence hf) (by omega)
      simp only [MemoryEntry.reattachable, hlast, reduceCtorEq, false_and, decide_false,
        Option.any_some, WorkItemRow.reattachable, Bool.false_eq, decide_eq_false_iff_not]
      exact fun hg => hmoved hg.2.2.2.1 hg.2.2.2.2
    | some lost =>
      obtain ⟨lastWorker, lastFence⟩ := lost
      rw [hlast] at last
      simp [MemoryEntry.reattachable, hlast, hx, WorkItemRow.reattachable, hr, hworker, last.1,
        last.2, same.worker, same.epoch, and_assoc]

theorem reattachLease_accepted (m : InMemoryBackend) (id : WorkItemId) (worker : WorkerId)
    (fence : ℤ) (now : Instant) :
    (m.reattachLease id worker fence now).1.isOk = (m.entry id).reattachable worker fence ∧
      (m.reattachLease id worker fence now).2.executions = m.executions ∧
      (m.reattachLease id worker fence now).2.storeTerm = m.storeTerm ∧
      (m.reattachLease id worker fence now).2.entry id =
        if (m.entry id).reattachable worker fence then
          { m.entry id with
            item := (m.entry id).item.map (WorkItem.reattach worker
              (mintFence m.storeTerm ((m.entry id).epoch + 1)) (m.entry id).leaseLen now)
            epoch := (m.entry id).epoch + 1
            last := none }
        else m.entry id := by
  unfold InMemoryBackend.reattachLease
  cases hlast : m.lastLease id with
  | none => simp [MemoryEntry.reattachable, InMemoryBackend.entry, hlast, Except.isOk, Except.toBool]
  | some lost =>
    obtain ⟨lastWorker, lastFence⟩ := lost
    by_cases hlost : lastWorker = worker ∧ lastFence = fence
    · obtain ⟨rfl, rfl⟩ := hlost
      cases hitem : m.workItems.find? id with
      | none =>
        simp [MemoryEntry.reattachable, InMemoryBackend.entry, hitem, Except.isOk, Except.toBool]
      | some item =>
        by_cases hfree : item.workerId = none ∧ m.epoch id = epochAfterExpiryOf lastFence
        · have hguard : (m.entry id).reattachable lastWorker lastFence = true := by
            simp [MemoryEntry.reattachable, InMemoryBackend.entry, hlast, hitem, hfree]
          simp only [ne_eq, not_true_eq_false, or_self, if_false, hfree.1, hfree.2, Option.isSome_none,
            Bool.false_eq_true, hguard, if_true]
          refine ⟨rfl, rfl, rfl, ?_⟩
          have hepoch : (m.leaseEpochs id).getD 0 = epochAfterExpiryOf lastFence := hfree.2
          simp [hepoch, InMemoryBackend.entry, InMemoryBackend.setItem, InMemoryBackend.bumpEpoch,
            Table.find?_update, InMemoryBackend.epoch, InMemoryBackend.leaseLenOf]
        · have hguard : (m.entry id).reattachable lastWorker lastFence = false := by
            simpa [MemoryEntry.reattachable, InMemoryBackend.entry, hlast, hitem] using hfree
          have htaken : item.workerId.isSome = true ∨ m.epoch id ≠ epochAfterExpiryOf lastFence := by
            cases hw : item.workerId with
            | none => exact .inr fun he => hfree ⟨hw, he⟩
            | some w => exact .inl rfl
          simp [htaken, hguard, Except.isOk, Except.toBool]
    · have hguard : (m.entry id).reattachable worker fence = false := by
        simp [MemoryEntry.reattachable, InMemoryBackend.entry, hlast, hlost]
      have hother : lastWorker ≠ worker ∨ lastFence ≠ fence := by
        by_cases hw : lastWorker = worker
        · exact .inr fun hf => hlost ⟨hw, hf⟩
        · exact .inl hw
      simp [hother, hguard, Except.isOk, Except.toBool]

/-- A lease that is handed back, however each backend tests that it may be. -/
theorem Joint.reattach (h : Joint id e m db) (worker : WorkerId) (now : Instant) :
    (m.reattachLease id worker fence now).1.isOk = (db.reattachLease id worker fence now).1.isOk ∧
      Joint id e (m.reattachLease id worker fence now).2
        (db.reattachLease id worker fence now).2 := by
  have hstored := h.stored.exec (.reattachLease id worker fence now) rfl
  simp only [BackendOp.exec] at hstored
  have hguard : (m.entry id).reattachable worker fence =
      (db.workItems.find? id).any (WorkItemRow.reattachable worker fence) :=
    h.twins.reattachable_eq worker
  obtain ⟨hreply, hmexec, hmterm, hmentry⟩ := reattachLease_accepted m id worker fence now
  have htwins := h.twins
  rw [hreply]
  unfold Db.reattachLease at hstored ⊢
  cases hr : db.workItems.find? id with
  | none =>
    have hmiss : (m.entry id).reattachable worker fence = false := by rw [hguard, hr]; rfl
    rw [hmiss] at hmentry ⊢
    refine ⟨rfl, h.move hmexec hmterm rfl rfl h.stored ?_⟩
    rw [hmentry]
    exact h.twins
  | some r =>
    rw [hr] at htwins
    by_cases hg : r.reattachable worker fence = true
    · have hhit : (m.entry id).reattachable worker fence = true := by rw [hguard, hr]; exact hg
      rw [hhit] at hmentry ⊢
      simp only [hr, hg, if_true] at hstored ⊢
      refine ⟨rfl, h.move hmexec hmterm rfl rfl hstored ?_⟩
      simp only [WorkItemRow.reattachable, decide_eq_true_eq] at hg
      rw [hmentry, if_pos rfl, Db.updateItem_find? (WorkItemRow.reattach_id db.term worker now), hr]
      simp only [Option.map_some, hg.1, hg.2.1, and_self, decide_true, if_true]
      cases htwins with
      | settled hx hlive =>
        have hlive := hlive r rfl
        simp [WorkItemRow.isLive, hg.1] at hlive
      | claimed hx same hstatus =>
        rw [hg.1] at hstatus
        cases hstatus
      | @pending item _ hx same hstatus hworker lease hfence last =>
        have hnonneg := same.nonneg
        have hminted : mintFence m.storeTerm ((m.entry id).epoch + 1) =
            mintFence db.term (r.leaseEpoch + 1) := by rw [h.term, same.epoch]
        rw [hminted, hx, same.len]
        refine .claimed rfl ⟨same.execution, same.row_execution, ?_, same.maxAttempts, rfl, rfl, ?_,
          ?_, rfl, ?_⟩ rfl rfl rfl ?_ rfl
        · simp [WorkItem.reattach, WorkItemRow.reattach, same.attempt]
        · simp [WorkItemRow.reattach, same.epoch]
        · simp only [WorkItemRow.reattach]
          omega
        · intro f hf
          simp [WorkItemRow.reattach] at hf
        · simp only [WorkItemRow.reattach, fenceEpoch, mintFence]
          omega
    · have hmiss : (m.entry id).reattachable worker fence = false := by
        rw [hguard, hr]
        simpa using hg
      rw [hmiss] at hmentry ⊢
      simp only [hg]
      refine ⟨rfl, h.move hmexec hmterm rfl rfl h.stored ?_⟩
      rw [hmentry]
      exact h.twins

theorem renewLease_error {worker : WorkerId} {now : Instant} {err : BackendError}
    (h : (m.renewLease id worker fence now).1 = .error err) :
    err = .fenceLost id ∨ m.workItems.find? id = none := by
  unfold InMemoryBackend.renewLease at h
  cases hitem : m.workItems.find? id with
  | none => exact .inr rfl
  | some item =>
    left
    simp only [hitem] at h
    split_ifs at h <;> simp_all

theorem reattachLease_gone {worker : WorkerId} (hitem : m.workItems.find? id = none)
    (now : Instant) : ∃ err, m.reattachLease id worker fence now = (.error err, m) := by
  unfold InMemoryBackend.reattachLease
  rw [hitem]
  split
  · exact ⟨_, rfl⟩
  · split_ifs <;> exact ⟨_, rfl⟩

theorem Joint.heartbeat (h : Joint id e m db) (worker : WorkerId) (now : Instant) :
    (m.heartbeatLease id worker fence now).1.isOk = (db.heartbeatLease id worker fence now).1.isOk ∧
      Joint id e (m.heartbeatLease id worker fence now).2
        (db.heartbeatLease id worker fence now).2 := by
  obtain ⟨hrenew, hrenewed⟩ := @Joint.renew id e m db fence h worker now
  have hreattach := @Joint.reattach id e m db fence h worker now
  have hlost : ∀ err, (db.renewHeldLease id worker fence now).1 = .error err →
      err = .fenceLost id := by
    intro err herr
    unfold Db.renewHeldLease Db.renewLease at herr
    split at herr <;> simp_all
  unfold InMemoryBackend.heartbeatLease Db.heartbeatLease
  cases hm : m.renewLease id worker fence now with
  | mk reply m' =>
    cases hdb : db.renewHeldLease id worker fence now with
    | mk reply' db' =>
      rw [hm, hdb] at hrenew hrenewed
      rw [hdb] at hlost
      cases reply with
      | ok _ =>
        cases reply' with
        | ok _ => exact ⟨rfl, hrenewed⟩
        | error _ => simp [Except.isOk, Except.toBool] at hrenew
      | error err =>
        cases reply' with
        | ok _ => simp [Except.isOk, Except.toBool] at hrenew
        | error err' =>
          cases hlost err' rfl
          rcases renewLease_error (congrArg Prod.fst hm) with rfl | hgone
          · exact hreattach
          · obtain ⟨err₂, hm₂⟩ := @reattachLease_gone id m fence worker hgone now
            rw [hm₂] at hreattach
            cases err with
            | fenceLost => rw [hm₂]; exact hreattach
            | notFound => exact hreattach
            | database => exact hreattach
            | versionConflict => exact hreattach

/-! Reclaims and claims -/

theorem Joint.reclaim (h : Joint id e m db) (now : Instant) :
    Joint id e (m.reclaimExpiredLeases now) (db.reclaimExpiredLeases now) := by
  obtain ⟨hmexec, hmterm, hmentry⟩ := m.reclaimExpiredLeases_eq now
  obtain ⟨hexec, hterm, hrow⟩ := Db.reclaimExpiredLeases_eq db now
  have hstored : (db.reclaimExpiredLeases now).ItemsStored := by
    intro id' r' hr'
    rw [hrow] at hr'
    obtain ⟨r, hr, rfl⟩ := Option.map_eq_some_iff.mp hr'
    have hsame : (Db.afterSweep now r).executionId = r.executionId := by
      unfold Db.afterSweep Db.reclaimed
      split_ifs <;> rfl
    rw [hexec, hsame]
    exact h.stored id' r hr
  refine h.move hmexec hmterm hexec hterm hstored ?_
  rw [hmentry, hrow]
  exact h.twins.sweep now

theorem claimFirst_entry (m : InMemoryBackend) (worker : WorkerId) (queueTypes : List String)
    (leaseSecs : Option ℕ) (now : Instant) (id : WorkItemId) :
    (m.claimFirst worker queueTypes leaseSecs now).2.executions = m.executions ∧
      (m.claimFirst worker queueTypes leaseSecs now).2.storeTerm = m.storeTerm ∧
      if (m.claimFirst worker queueTypes leaseSecs now).1 = some id then
        (∃ item, (m.entry id).item = some item ∧ item.workerId = none) ∧
        (m.claimFirst worker queueTypes leaseSecs now).2.entry id =
          { item := (m.entry id).item.map (WorkItem.claim worker
              (mintFence m.storeTerm ((m.entry id).epoch + 1)) (grantedLeaseSecs leaseSecs) now)
            epoch := (m.entry id).epoch + 1
            leaseLen := grantedLeaseSecs leaseSecs
            last := none }
      else (m.claimFirst worker queueTypes leaseSecs now).2.entry id = m.entry id := by
  unfold InMemoryBackend.claimFirst
  cases hfind : m.workItems.rows.find? fun item =>
      item.workerId = none ∧ item.queueType ∈ queueTypes with
  | none => simp
  | some item =>
    refine ⟨rfl, rfl, ?_⟩
    simp only [Option.some.injEq]
    by_cases hid : item.id = id
    · subst hid
      rw [if_pos rfl]
      have hfree : item.workerId = none := by
        have hp := List.find?_some hfind
        simp only [decide_eq_true_eq] at hp
        exact hp.1
      refine ⟨⟨item, Table.find?_of_mem (List.mem_of_find?_eq_some hfind), hfree⟩, ?_⟩
      simp [InMemoryBackend.entry, InMemoryBackend.setItem, InMemoryBackend.bumpEpoch,
        Table.find?_update, InMemoryBackend.epoch, InMemoryBackend.leaseLenOf]
    · rw [if_neg hid]
      simp [InMemoryBackend.entry, InMemoryBackend.setItem, InMemoryBackend.bumpEpoch,
        Table.find?_update, InMemoryBackend.epoch, InMemoryBackend.leaseLenOf, Ne.symm hid]

theorem claimWorkItem_row (db : Db) (worker : WorkerId) (queueTypes : List String)
    (leaseSecs : Option ℕ) (now : Instant) (id : WorkItemId) :
    ∃ granted, (db.claimWorkItem worker queueTypes leaseSecs now).1 = .ok granted ∧
      (db.claimWorkItem worker queueTypes leaseSecs now).2.executions = db.executions ∧
      (db.claimWorkItem worker queueTypes leaseSecs now).2.term = db.term ∧
      if granted.map (·.id) = some id then
        ∃ r, db.workItems.find? id = some r ∧ r.status = .pending ∧
          (db.claimWorkItem worker queueTypes leaseSecs now).2.workItems.find? id =
            some (r.claim db.term worker (grantedLeaseSecs leaseSecs) now)
      else (db.claimWorkItem worker queueTypes leaseSecs now).2.workItems.find? id =
        db.workItems.find? id := by
  unfold Db.claimWorkItem
  cases hfind : Db.oldest (db.workItems.rows.filter (Db.claimable queueTypes now)) with
  | none => exact ⟨none, rfl, rfl, rfl, by simp⟩
  | some item =>
    refine ⟨_, rfl, rfl, rfl, ?_⟩
    simp only [Option.map_some, WorkItemRow.claim_id, Option.some.injEq]
    obtain ⟨hmem, hpending⟩ := List.mem_filter.mp (mem_oldest hfind)
    rw [Db.updateItem_find? (WorkItemRow.claim_id db.term worker (grantedLeaseSecs leaseSecs) now)]
    by_cases hid : item.id = id
    · subst hid
      have hrow := Table.find?_of_mem hmem
      rw [if_pos rfl]
      simp only [Db.claimable, decide_eq_true_eq] at hpending
      exact ⟨item, hrow, hpending.1, by simp [hrow]⟩
    · simp [hid, Ne.symm hid]

/-- A claim granted alike, after expiries that went alike. -/
theorem Joint.take (h : Joint id e m db) (worker : WorkerId) (queueTypes : List String)
    (leaseSecs : Option ℕ) (now : Instant)
    (hgranted : (m.claimFirst worker queueTypes leaseSecs now).1 = some id ↔
      ∃ r, (db.claimWorkItem worker queueTypes leaseSecs now).1 = .ok (some r) ∧ r.id = id) :
    Joint id e (m.claimFirst worker queueTypes leaseSecs now).2
      (db.claimWorkItem worker queueTypes leaseSecs now).2 := by
  have hstored := h.stored.exec (.claimWorkItem worker queueTypes leaseSecs now) rfl
  simp only [BackendOp.exec] at hstored
  obtain ⟨hmexec, hmterm, hmentry⟩ := claimFirst_entry m worker queueTypes leaseSecs now id
  obtain ⟨granted, hreply, hexec, hterm, hrow⟩ :=
    claimWorkItem_row db worker queueTypes leaseSecs now id
  refine h.move hmexec hmterm hexec hterm hstored ?_
  by_cases hid : granted.map (·.id) = some id
  · have hid' : (m.claimFirst worker queueTypes leaseSecs now).1 = some id := by
      obtain ⟨r, rfl, hr⟩ := Option.map_eq_some_iff.mp hid
      exact hgranted.mpr ⟨r, hreply, hr⟩
    rw [if_pos hid'] at hmentry
    rw [if_pos hid] at hrow
    obtain ⟨⟨item, hitem, hfree⟩, hmentry⟩ := hmentry
    obtain ⟨r, hr, hpending, hrow⟩ := hrow
    have htwins := h.twins
    rw [hr] at htwins
    rw [hrow, hmentry]
    cases htwins with
    | settled hx => simp [hx] at hitem
    | claimed hx same hstatus =>
      rw [hpending] at hstatus
      cases hstatus
    | @pending item' _ hx same hstatus hworker lease hfence last =>
      have hnonneg := same.nonneg
      have hlost := same.lost
      have hminted : mintFence m.storeTerm ((m.entry id).epoch + 1) =
          mintFence db.term (r.leaseEpoch + 1) := by rw [h.term, same.epoch]
      rw [hminted, hx]
      refine .claimed rfl ⟨same.execution, same.row_execution, same.attempt, same.maxAttempts, rfl,
        rfl, ?_, ?_, rfl, ?_⟩ rfl rfl rfl ?_ rfl
      · simp [WorkItemRow.claim, same.epoch]
      · simp only [WorkItemRow.claim]
        omega
      · intro f hf
        have := hlost f hf
        simp only [WorkItemRow.claim]
        omega
      · simp only [WorkItemRow.claim, fenceEpoch, mintFence]
        omega
  · have hid' : ¬ (m.claimFirst worker queueTypes leaseSecs now).1 = some id := by
      intro hm
      obtain ⟨r, hr, hrid⟩ := hgranted.mp hm
      rw [hreply] at hr
      cases hr
      simp [hrid] at hid
    rw [if_neg hid'] at hmentry
    rw [if_neg hid] at hrow
    rw [hrow, hmentry]
    exact h.twins

theorem Joint.expire (h : Joint id e m db) (now : Instant) :
    ∃ db', db.expireStaleLeases now = (.ok (), db') ∧ Joint id e (m.expireLapsed now) db' := by
  obtain ⟨hmexec, hmterm, hmentry⟩ := m.expireLapsed_eq now
  obtain ⟨db', hdb, hexec, hterm, hrow⟩ := Db.expireStaleLeases_eq h.stored now
  have hstored := h.stored.exec (.expireStaleLeases now) rfl
  simp only [BackendOp.exec, hdb] at hstored
  refine ⟨db', hdb, h.move hmexec hmterm hexec hterm hstored ?_⟩
  rw [hmentry, hrow]
  exact h.twins.expiry h.terminal_eq now

theorem claimFirst_nil (m : InMemoryBackend) (worker : WorkerId) (leaseSecs : Option ℕ)
    (now : Instant) : m.claimFirst worker [] leaseSecs now = (none, m) := by
  have hnone : m.workItems.rows.find? (fun item =>
      item.workerId = none ∧ item.queueType ∈ ([] : List String)) = none :=
    List.find?_eq_none.mpr fun item _ => by simp
  simp only [InMemoryBackend.claimFirst, hnone]

theorem Joint.claim (h : Joint id e m db) (worker : WorkerId) (queueTypes : List String)
    (leaseSecs : Option ℕ) (expiryNow now : Instant)
    (hempty : queueTypes = [] → ∀ item, m.workItems.find? id = some item →
      item.lapsed expiryNow = true →
        m.isTerminal item.executionId = false ∧ item.maxAttempts ≤ item.attempt + 1)
    (hgranted : (m.claimWorkItemWithLease worker queueTypes leaseSecs expiryNow now).1 = some id ↔
      (db.claimWorkItemWithLease worker queueTypes leaseSecs expiryNow now).1 = some id) :
    Joint id e (m.claimWorkItemWithLease worker queueTypes leaseSecs expiryNow now).2
      (db.claimWorkItemWithLease worker queueTypes leaseSecs expiryNow now).2 := by
  unfold InMemoryBackend.claimWorkItemWithLease Db.claimWorkItemWithLease at *
  cases queueTypes with
  | nil =>
    obtain ⟨hmexec, hmterm, hmentry⟩ := m.expireLapsed_eq expiryNow
    simp only [claimFirst_nil, List.isEmpty_nil, if_true]
    refine h.move hmexec hmterm rfl rfl h.stored ?_
    have hkept : m.afterExpiry expiryNow (m.entry id) = m.entry id := by
      unfold InMemoryBackend.afterExpiry
      cases hitem : (m.entry id).item with
      | none => rfl
      | some item =>
        by_cases hlapsed : item.lapsed expiryNow = true
        · obtain ⟨hlive, hspent⟩ := hempty rfl item hitem hlapsed
          simp [hlapsed, InMemoryBackend.expired, hlive, hspent]
        · simp [hlapsed]
    rw [hmentry, hkept]
    exact h.twins
  | cons queueType rest =>
    obtain ⟨db', hdb, hexpired⟩ := h.expire expiryNow
    simp only [List.isEmpty_cons, Bool.false_eq_true, if_false, hdb] at hgranted ⊢
    obtain ⟨granted, hreply, -⟩ := claimWorkItem_row db' worker (queueType :: rest) leaseSecs now id
    cases hclaim : db'.claimWorkItem worker (queueType :: rest) leaseSecs now with
    | mk reply claimed =>
      have htake := hexpired.take worker (queueType :: rest) leaseSecs now
      rw [hclaim] at hreply htake
      cases hreply
      simp only [hclaim] at hgranted ⊢
      cases granted with
      | none => exact htake (by simpa using hgranted)
      | some r => exact htake (by simpa using hgranted)

theorem Joint.holding_eq (h : Joint id e m db) : m.holding id = db.holding id := by
  have htwins : Twins e (m.entry id) (db.workItems.find? id) := h.twins
  have hitem : m.workItems.find? id = (m.entry id).item := rfl
  unfold InMemoryBackend.holding Db.holding
  rw [hitem]
  cases hr : db.workItems.find? id with
  | none =>
    rw [hr] at htwins
    cases htwins with
    | settled hx => simp [hx]
  | some r =>
    rw [hr] at htwins
    cases htwins with
    | settled hx hlive => simp [hx, Option.filter, hlive r rfl]
    | claimed hx same hstatus =>
      simp [hx, Option.filter, WorkItemRow.isLive, hstatus, same.attempt, same.worker]
    | pending hx same hstatus =>
      simp [hx, Option.filter, WorkItemRow.isLive, hstatus, same.attempt, same.worker]

theorem Joint.call (h : Joint id e m db) (call : LeaseCall) (hguards : call.guardsAgree id m db)
    (hgranted : call.grantedAlike id e m db) :
    (call.onMemory id e m).1 = (call.onSqlite id e db).1 ∧
      Joint id e (call.onMemory id e m).2 (call.onSqlite id e db).2 := by
  cases call with
  | claimWorkItemWithLease worker queueTypes leaseSecs expiryNow now =>
    have hsame : (m.claimWorkItemWithLease worker queueTypes leaseSecs expiryNow now).1 = some id ↔
        (db.claimWorkItemWithLease worker queueTypes leaseSecs expiryNow now).1 = some id :=
      decide_eq_decide.mp hgranted
    exact ⟨hgranted, h.claim worker queueTypes leaseSecs expiryNow now hguards hsame⟩
  | reclaimExpiredLeases now => exact ⟨rfl, h.reclaim now⟩
  | renewLease worker fence now => exact h.renew worker now
  | heartbeatLease worker fence now => exact h.heartbeat worker now
  | completeWorkItemFenced fence now =>
    exact h.removeHeld (WorkItemRow.complete_id now) (fun _ => rfl)
      (h.stored.exec (.completeWorkItemFenced id fence now) rfl)
  | failWorkItemFenced fence error now => exact h.fail error now
  | withdrawWorkItemFenced fence =>
    exact h.removeHeld WorkItemRow.fail_id (fun _ => rfl)
      (h.stored.exec (.withdrawWorkItemFenced id fence) rfl)
  | parkWorkItem fence retryAfter nextAttempt => exact h.park retryAfter nextAttempt hguards
  | commitTurn fence kind snapshot now => exact h.commit kind snapshot now hguards
  | finalizeRolloverFenced e' fence now => exact h.finalize e' now hguards.1 hguards.2

end Calls

/-! Runs -/

/-- What each call of a run answers, and the attempt and holder it leaves. -/
abbrev LeaseTrace := List (Bool × Option (ℕ × Option WorkerId))

namespace LeaseCall

def memoryTrace (id : WorkItemId) (e : ExecutionId) : InMemoryBackend → List LeaseCall → LeaseTrace
  | _, [] => []
  | m, call :: calls =>
      ((call.onMemory id e m).1, (call.onMemory id e m).2.holding id) ::
        memoryTrace id e (call.onMemory id e m).2 calls

def sqliteTrace (id : WorkItemId) (e : ExecutionId) : Db → List LeaseCall → LeaseTrace
  | _, [] => []
  | db, call :: calls =>
      ((call.onSqlite id e db).1, (call.onSqlite id e db).2.holding id) ::
        sqliteTrace id e (call.onSqlite id e db).2 calls

/-- A condition on each call, in the states it finds. -/
def AllMeet (id : WorkItemId) (e : ExecutionId)
    (condition : LeaseCall → InMemoryBackend → Db → Prop) :
    InMemoryBackend → Db → List LeaseCall → Prop
  | _, _, [] => True
  | m, db, call :: calls => condition call m db ∧
      AllMeet id e condition (call.onMemory id e m).2 (call.onSqlite id e db).2 calls

end LeaseCall

/-- An item just enqueued on both backends, of an execution both have in one status, in stores of
one term. -/
structure EnqueuedOnBoth (id : WorkItemId) (e : ExecutionId) (m : InMemoryBackend) (db : Db)
    (item : NewWorkItem) (createdAt : Instant) : Prop where
  execution : item.executionId = e
  memory : m.workItems.find? id = some
    { id := id, executionId := item.executionId, nodeId := item.nodeId, queueType := item.queueType,
      payload := item.payload, attempt := item.attempt, maxAttempts := item.maxAttempts,
      createdAt := createdAt }
  noEpoch : m.leaseEpochs id = none
  noLease : m.leaseSecs id = none ∧ m.lastLease id = none
  sqlite : db.workItems.find? id = some (item.toRow id createdAt)
  status : (m.executions.find? e).map (·.status) = (db.executions.find? e).map (·.status)
  term : m.storeTerm = db.term
  stored : db.ItemsStored

theorem EnqueuedOnBoth.joint {id : WorkItemId} {e : ExecutionId} {m : InMemoryBackend} {db : Db}
    {item : NewWorkItem} {createdAt : Instant} (h : EnqueuedOnBoth id e m db item createdAt) :
    Joint id e m db where
  twins := by
    rw [h.sqlite]
    have hepoch : m.epoch id = 0 := by simp [InMemoryBackend.epoch, h.noEpoch]
    have hlen : m.leaseLenOf id = defaultLeaseSecs := by
      simp [InMemoryBackend.leaseLenOf, h.noLease.1]
    refine .pending h.memory ⟨h.execution, h.execution, rfl, rfl, rfl, rfl, hepoch, le_rfl, hlen, ?_⟩
      rfl rfl rfl rfl ?_
    · intro fence hf
      cases hf
    · change LastAgrees _ (m.lastLease id)
      rw [h.noLease.2]
      intro fence hf
      cases hf
  status := h.status
  term := h.term
  stored := h.stored

theorem Joint.traces_eq {id : WorkItemId} {e : ExecutionId} (calls : List LeaseCall) :
    ∀ {m : InMemoryBackend} {db : Db}, Joint id e m db →
      LeaseCall.AllMeet id e (fun call m db => call.grantedAlike id e m db) m db calls →
      LeaseCall.AllMeet id e (fun call m db => call.guardsAgree id m db) m db calls →
      LeaseCall.memoryTrace id e m calls = LeaseCall.sqliteTrace id e db calls := by
  induction calls with
  | nil => exact fun _ _ _ => rfl
  | cons call calls ih =>
    intro m db h hgranted hguards
    obtain ⟨hreply, hafter⟩ := h.call call hguards.1 hgranted.1
    rw [LeaseCall.memoryTrace, LeaseCall.sqliteTrace, hreply, hafter.holding_eq,
      ih hafter hgranted.2 hguards.2]

/-- Both backends accept the same calls and leave the same attempt and holder after each, as long
as every call finds the two guards alike. -/
theorem backends_agree {id : WorkItemId} {e : ExecutionId} {m : InMemoryBackend} {db : Db}
    {item : NewWorkItem} {createdAt : Instant} (h : EnqueuedOnBoth id e m db item createdAt)
    (calls : List LeaseCall)
    (hgranted : LeaseCall.AllMeet id e (fun call m db => call.grantedAlike id e m db) m db calls)
    (hguards : LeaseCall.AllMeet id e (fun call m db => call.guardsAgree id m db) m db calls) :
    LeaseCall.memoryTrace id e m calls = LeaseCall.sqliteTrace id e db calls :=
  h.joint.traces_eq calls hgranted hguards

def oneExecution : ExecutionRow where
  executionId := 1
  workflowId := "wf"
  workflowVersion := "1"
  status := .running
  initialInput := .object []
  updatedAt := 0
  completedAt := none
  tenantId := "default"

def oneItem : NewWorkItem := ⟨1, "a", "tool", .object [], 0, 3⟩

def oneInMemory : InMemoryBackend where
  executions := Table.empty.put oneExecution
  workItems := Table.empty.put
    { id := 1, executionId := 1, nodeId := "a", queueType := "tool", payload := .object [],
      attempt := 0, maxAttempts := 3, createdAt := 0 }

def oneInSqlite : Db where
  executions := Table.empty.put oneExecution
  workItems := Table.empty.put (oneItem.toRow 1 0)

theorem oneItem_enqueued : EnqueuedOnBoth 1 1 oneInMemory oneInSqlite oneItem 0 where
  execution := rfl
  memory := rfl
  noEpoch := rfl
  noLease := ⟨rfl, rfl⟩
  sqlite := rfl
  status := rfl
  term := rfl
  stored := by
    intro id r hr
    obtain ⟨hmem, -⟩ := Table.find?_eq_some_iff.mp hr
    cases List.mem_singleton.mp hmem
    rfl

/-- A worker claims the item, parks it and commits a later attempt of its own. -/
def parkAndCommit : List LeaseCall :=
  [.claimWorkItemWithLease "w" ["tool"] none 0 0, .heartbeatLease "w" 1 1, .parkWorkItem 1 2 0,
    .claimWorkItemWithLease "w" ["tool"] none 2 2, .commitTurn 3 (.nodeFailed "a" "err" 0 false) false 3]

theorem backends_agree_on_parkAndCommit :
    LeaseCall.memoryTrace 1 1 oneInMemory parkAndCommit =
      LeaseCall.sqliteTrace 1 1 oneInSqlite parkAndCommit := by
  refine backends_agree oneItem_enqueued parkAndCommit ?_ ?_
  · exact ⟨rfl, trivial, trivial, rfl, trivial, trivial⟩
  · refine ⟨?_, trivial, ?_, ?_, ?_, trivial⟩
    · intro h
      cases h
    · intro item hitem hfree
      cases hitem
      cases hfree
    · intro h
      cases h
    · intro _ item hitem hfree
      cases hitem
      cases hfree

/-- A worker reports its attempt as failed, and commits it all the same under the fence it had. -/
def commitAfterFailure : List LeaseCall :=
  [.claimWorkItemWithLease "w" ["tool"] none 0 0, .failWorkItemFenced 1 "err" 0,
    .commitTurn 1 (.nodeFailed "a" "err" 0 true) false 0]

theorem committed_after_failure_in_memory_only :
    EnqueuedOnBoth 1 1 oneInMemory oneInSqlite oneItem 0 ∧
    LeaseCall.AllMeet 1 1 (fun call m db => call.grantedAlike 1 1 m db) oneInMemory oneInSqlite
      commitAfterFailure ∧
    LeaseCall.memoryTrace 1 1 oneInMemory commitAfterFailure =
      [(true, some (0, some "w")), (true, some (1, none)), (true, none)] ∧
    LeaseCall.sqliteTrace 1 1 oneInSqlite commitAfterFailure =
      [(true, some (0, some "w")), (true, some (1, none)), (false, some (1, none))] :=
  ⟨oneItem_enqueued, ⟨rfl, trivial, trivial, trivial⟩, rfl, rfl⟩

end JamJet
