import JamJet.LiveItems
import JamJet.MemoryBackend
import JamJet.Sweep

/-! The lease operations of both backends as whole calls, with what each leaves of one work item. -/

namespace JamJet

open AtomicCalls Scheduler

namespace Db

variable (db : Db)

/-- `claim_work_item_with_lease`, its two transactions one after the other. -/
def claimWorkItemWithLease (worker : WorkerId) (queueTypes : List String) (leaseSecs : Option ℕ)
    (expiryNow now : Instant) : Option WorkItemId × Db :=
  if queueTypes.isEmpty then (none, db)
  else
    match db.expireStaleLeases expiryNow with
    | (.error _, unchanged) => (none, unchanged)
    | (.ok (), expired) =>
        match expired.claimWorkItem worker queueTypes leaseSecs now with
        | (.ok (some item), claimed) => (some item.id, claimed)
        | (_, unclaimed) => (none, unclaimed)

/-- `renew_lease`: the lease length is read, then the holder's lease is prolonged. -/
def renewHeldLease (id : WorkItemId) (worker : WorkerId) (fence : ℤ) (now : Instant) :
    Outcome Unit :=
  db.renewLease id worker fence (db.leaseSecsFor id) now

def heartbeatLease (id : WorkItemId) (worker : WorkerId) (fence : ℤ) (now : Instant) :
    Outcome LeaseRenewal :=
  match db.renewHeldLease id worker fence now with
  | (.ok (), renewed) => (.ok ⟨fence, false⟩, renewed)
  | (.error (.fenceLost _), _) => db.reattachLease id worker fence now
  | (.error err, _) => (.error err, db)

/-- `reclaim_expired_leases` with nobody else about. -/
def reclaimExpiredLeases (now : Instant) : Db :=
  (reclaimRows.alone (fun op s => Sys.handle (fun _ _ => none) op s)
    { db := db, clock := now }).2.db

/-- The foreign key of the work items. -/
def ItemsStored : Prop :=
  ∀ id r, db.workItems.find? id = some r → (db.executions.find? r.executionId).isSome = true

variable {db} {db' : Db} {id : WorkItemId} {now : Instant}

theorem ItemsStored.exec (h : db.ItemsStored) {β : Type} (op : BackendOp β)
    (hop : op.creates = false) : (op.exec db).2.ItemsStored := by
  intro id r' hr'
  have heffect := op.effect db
  cases hr : db.workItems.find? id with
  | none =>
    obtain ⟨item, _, hc, -⟩ := heffect.items.new hr hr'
    exact absurd hc (BackendOp.not_creates hop item)
  | some r =>
    obtain ⟨r'', hr'', hstep⟩ := heffect.items.row hr
    cases hr'.symm.trans hr''
    obtain ⟨x, hx⟩ := Option.isSome_iff_exists.mp (h id r hr)
    obtain ⟨x', hx', -⟩ := heffect.executions.row hx
    rw [hstep.keeps.1, hx']
    rfl

/-- What the claim path's reclaim makes of a claimed row it selected. -/
def expired (terminal : Bool) (item r : WorkItemRow) : WorkItemRow :=
  if terminal then r.fail
  else if item.attempt + 1 ≥ item.maxAttempts then r
  else r.expire

theorem expireOne_eq {item : WorkItemRow}
    (hstored : (db.executions.find? item.executionId).isSome = true) :
    ∃ db', db.expireOne item = some db' ∧ db'.executions = db.executions ∧ db'.term = db.term ∧
      ∀ id, db'.workItems.find? id = (db.workItems.find? id).map fun r =>
        if item.id = id then
          if r.isClaimed then expired (db.terminalStatusOf item.executionId).isSome item r else r
        else r := by
  obtain ⟨x, hx⟩ := Option.isSome_iff_exists.mp hstored
  unfold expireOne
  by_cases ht : (db.terminalStatusOf item.executionId).isSome = true
  · rw [if_pos ht]
    refine ⟨_, rfl, rfl, rfl, fun id => ?_⟩
    rw [updateItem_find? WorkItemRow.fail_id]
    congr 1
    funext r
    by_cases hid : item.id = id
    · simp [hid, expired, ht]
    · simp [hid, Ne.symm hid]
  · rw [if_neg ht]
    by_cases hspent : item.attempt + 1 ≥ item.maxAttempts
    · rw [if_pos hspent]
      refine ⟨_, rfl, rfl, rfl, fun id => ?_⟩
      simp [expired, ht, hspent]
    · rw [if_neg hspent]
      by_cases hhit : db.workItems.hits item.id WorkItemRow.isClaimed = true
      · simp only [hhit, Bool.not_true, Bool.false_eq_true, if_false, insertEvent,
          updateItem_executions, hx, setEvents_executions, Option.bind_eq_bind, Option.bind_some,
          Option.pure_def]
        refine ⟨_, rfl, rfl, rfl, fun id => ?_⟩
        simp only [setEvents_workItems]
        rw [updateItem_find? WorkItemRow.expire_id]
        congr 1
        funext r
        by_cases hid : item.id = id
        · simp [hid, expired, ht, hspent]
        · simp [hid, Ne.symm hid]
      · simp only [hhit, Bool.not_false, if_true]
        refine ⟨_, rfl, rfl, rfl, fun id => ?_⟩
        cases hr : db.workItems.find? id with
        | none => rfl
        | some r =>
          by_cases hid : item.id = id
          · subst hid
            have hr' : r.isClaimed ≠ true := fun hc => hhit (Table.hits_iff.mpr ⟨r, hr, hc⟩)
            simp [hr']
          · simp [hid]

theorem expireStaleLeases_fold {items : List WorkItemRow} (hitems : (items.map (·.id)).Nodup)
    (hstored : ∀ item ∈ items, (db.executions.find? item.executionId).isSome = true) :
    ∃ db', items.foldlM expireOne db = some db' ∧ db'.executions = db.executions ∧
      db'.term = db.term ∧ ∀ id, db'.workItems.find? id = (db.workItems.find? id).map fun r =>
        (items.find? fun item => item.id = id).elim r fun item =>
          if r.isClaimed then expired (db.terminalStatusOf item.executionId).isSome item r else r := by
  have hfold : ∃ db', items.foldlM expireOne db = some db' ∧ db'.executions = db.executions ∧
      db'.term = db.term ∧ ∀ id, db'.workItems.find? id = (db.workItems.find? id).map fun r =>
        items.foldl (fun r item => if item.id = id then
          if r.isClaimed then expired (db.terminalStatusOf item.executionId).isSome item r else r
          else r) r := by
    induction items generalizing db with
    | nil => exact ⟨db, rfl, rfl, rfl, fun id => by simp⟩
    | cons item items ih =>
      obtain ⟨db₁, h₁, hexec₁, hterm₁, hrow₁⟩ := expireOne_eq (hstored item (by simp))
      obtain ⟨db₂, h₂, hexec₂, hterm₂, hrow₂⟩ := ih (List.nodup_cons.mp hitems).2
        fun i hi => by rw [hexec₁]; exact hstored i (by simp [hi])
      refine ⟨db₂, by simp [h₁, h₂], hexec₂.trans hexec₁, hterm₂.trans hterm₁, fun id => ?_⟩
      rw [hrow₂, hrow₁, Option.map_map]
      congr 1
      funext r
      have hstatus : db₁.terminalStatusOf = db.terminalStatusOf := by
        funext e
        simp only [terminalStatusOf, hexec₁]
      simp only [Function.comp_apply, List.foldl_cons, hstatus]
  obtain ⟨db', h, hexec, hterm, hrow⟩ := hfold
  refine ⟨db', h, hexec, hterm, fun id => ?_⟩
  rw [hrow]
  congr 1
  funext r
  exact Table.foldl_at_key (fun item r => if r.isClaimed then
    expired (db.terminalStatusOf item.executionId).isSome item r else r) hitems id r

/-- What the claim path's reclaim leaves of a row. -/
def afterExpiry (terminal : Bool) (now : Instant) (r : WorkItemRow) : WorkItemRow :=
  if r.leaseExpired now then expired terminal r r else r

theorem isClaimed_of_leaseExpired {r : WorkItemRow} (h : r.leaseExpired now = true) :
    r.isClaimed = true := by
  simp only [WorkItemRow.leaseExpired, Bool.and_eq_true] at h
  exact h.1

theorem expireStaleLeases_eq (hstored : db.ItemsStored) (now : Instant) :
    ∃ db', db.expireStaleLeases now = (.ok (), db') ∧ db'.executions = db.executions ∧
      db'.term = db.term ∧ ∀ id, db'.workItems.find? id = (db.workItems.find? id).map fun r =>
        afterExpiry (db.terminalStatusOf r.executionId).isSome now r := by
  have hnodup : ((db.workItems.rows.filter (WorkItemRow.leaseExpired now)).map (·.id)).Nodup :=
    db.workItems.nodup.sublist (List.Sublist.map _ List.filter_sublist)
  obtain ⟨db', hfold, hexec, hterm, hrow⟩ := expireStaleLeases_fold hnodup fun item hitem =>
    hstored item.id item (Table.find?_of_mem (List.mem_filter.mp hitem).1)
  refine ⟨db', by rw [expireStaleLeases, hfold], hexec, hterm, fun id => ?_⟩
  rw [hrow, Table.find?_filter_rows]
  cases hr : db.workItems.find? id with
  | none => rfl
  | some r =>
    by_cases hx : r.leaseExpired now = true
    · simp [Option.filter, hx, afterExpiry, isClaimed_of_leaseExpired hx]
    · simp [Option.filter, hx, afterExpiry]

/-! The sweep -/

/-- What the sweep makes of a claimed row it selected. -/
def reclaimed (item : WorkItemRow) (now : Instant) (r : WorkItemRow) : WorkItemRow :=
  if item.attempt + 1 ≥ item.maxAttempts then r.deadLetter (item.attempt + 1)
  else r.sweepRequeue (item.attempt + 1) (after now (backoffSecs (item.attempt + 1)))

/-- The handler of a scheduler that is alone with the database. -/
abbrev aloneHandle {β : Type} (op : SchedOp β) (s : Sys) : Except BackendError β × Sys :=
  Sys.handle (fun _ _ => none) op s

theorem settleIf_row (db : Db) (guard : WorkItemRow → Bool) {f : WorkItemRow → WorkItemRow}
    (hf : ∀ r, (f r).id = r.id) (item id : WorkItemId) :
    (db.settleIf item guard f hf).2.workItems.find? id = (db.workItems.find? id).map fun r =>
      if item = id then if guard r then f r else r else r := by
  unfold settleIf
  split
  · rw [updateItem_find? hf]
    congr 1
    funext r
    by_cases hid : item = id
    · simp [hid]
    · simp [hid, Ne.symm hid]
  · rename_i hhit
    cases hr : db.workItems.find? id with
    | none => rfl
    | some r =>
      by_cases hid : item = id
      · subst hid
        have hg : guard r ≠ true := fun hg => hhit (Table.hits_iff.mpr ⟨r, hr, hg⟩)
        simp [hg]
      · simp [hid]

theorem settleIf_kept (db : Db) (guard : WorkItemRow → Bool) {f : WorkItemRow → WorkItemRow}
    (hf : ∀ r, (f r).id = r.id) (item : WorkItemId) :
    (db.settleIf item guard f hf).2.executions = db.executions ∧
      (db.settleIf item guard f hf).2.term = db.term := by
  unfold settleIf
  split <;> exact ⟨rfl, rfl⟩

theorem settleIf_reply (db : Db) (guard : WorkItemRow → Bool) {f : WorkItemRow → WorkItemRow}
    (hf : ∀ r, (f r).id = r.id) (item : WorkItemId) :
    (db.settleIf item guard f hf).1 = .ok (db.workItems.hits item guard) := by
  unfold settleIf
  split <;> simp_all

theorem backend_alone {α : Type} (op : BackendOp α) (s : Sys) :
    (backend op).alone aloneHandle s = s.callBackend op :=
  rfl

theorem reclaimRow_alone (result : ReclaimResult) (item : WorkItemRow) (s : Sys) :
    ∃ result' t, (reclaimRow result item).alone aloneHandle s = (.ok result', t) ∧
      t.clock = s.clock ∧ t.db.executions = s.db.executions ∧ t.db.term = s.db.term ∧
      ∀ id, t.db.workItems.find? id = (s.db.workItems.find? id).map fun r =>
        if item.id = id then if r.isClaimed then reclaimed item s.clock r else r else r := by
  unfold reclaimRow
  simp only
  by_cases hspent : item.attempt + 1 ≥ item.maxAttempts
  · have hreply : (s.db.sweepDeadLetter item).1 = _ := settleIf_reply s.db WorkItemRow.isClaimed _ item.id
    have hrow : ∀ id, (s.db.sweepDeadLetter item).2.workItems.find? id = _ :=
      settleIf_row s.db WorkItemRow.isClaimed (WorkItemRow.deadLetter_id (item.attempt + 1)) item.id
    obtain ⟨hexec, hterm⟩ : _ ∧ (s.db.sweepDeadLetter item).2.term = _ :=
      settleIf_kept s.db WorkItemRow.isClaimed (WorkItemRow.deadLetter_id (item.attempt + 1)) item.id
    rw [if_pos hspent, Prog.alone_bind, backend_alone]
    simp only [Sys.callBackend, BackendOp.exec, hreply, reclaimed, if_pos hspent]
    cases s.db.workItems.hits item.id WorkItemRow.isClaimed with
    | true => exact ⟨_, _, rfl, rfl, hexec, hterm, hrow⟩
    | false => exact ⟨_, _, rfl, rfl, hexec, hterm, hrow⟩
  · have hreply : (s.db.sweepRequeue item s.clock).1 = _ := settleIf_reply s.db WorkItemRow.isClaimed _ item.id
    have hrow : ∀ id, (s.db.sweepRequeue item s.clock).2.workItems.find? id = _ :=
      settleIf_row s.db WorkItemRow.isClaimed (WorkItemRow.sweepRequeue_id (item.attempt + 1)
        (after s.clock (backoffSecs (item.attempt + 1)))) item.id
    obtain ⟨hexec, hterm⟩ : _ ∧ (s.db.sweepRequeue item s.clock).2.term = _ :=
      settleIf_kept s.db WorkItemRow.isClaimed (WorkItemRow.sweepRequeue_id (item.attempt + 1)
        (after s.clock (backoffSecs (item.attempt + 1)))) item.id
    have hclock : (here .utcNow).alone aloneHandle s = (.ok s.clock, s) := rfl
    rw [if_neg hspent, Prog.alone_bind, hclock]
    simp only
    rw [Prog.alone_bind, backend_alone]
    simp only [Sys.callBackend, BackendOp.exec, hreply, reclaimed, if_neg hspent]
    cases s.db.workItems.hits item.id WorkItemRow.isClaimed with
    | true => exact ⟨_, _, rfl, rfl, hexec, hterm, hrow⟩
    | false => exact ⟨_, _, rfl, rfl, hexec, hterm, hrow⟩

theorem reclaimRows_fold {items : List WorkItemRow} (hitems : (items.map (·.id)).Nodup)
    (result : ReclaimResult) (s : Sys) :
    ∃ result' t, (items.foldlM reclaimRow result).alone aloneHandle s = (.ok result', t) ∧
      t.clock = s.clock ∧ t.db.executions = s.db.executions ∧ t.db.term = s.db.term ∧
      ∀ id, t.db.workItems.find? id = (s.db.workItems.find? id).map fun r =>
        (items.find? fun item => item.id = id).elim r fun item =>
          if r.isClaimed then reclaimed item s.clock r else r := by
  have hfold : ∃ result' t, (items.foldlM reclaimRow result).alone aloneHandle s = (.ok result', t) ∧
      t.clock = s.clock ∧ t.db.executions = s.db.executions ∧ t.db.term = s.db.term ∧
      ∀ id, t.db.workItems.find? id = (s.db.workItems.find? id).map fun r =>
        items.foldl (fun r item => if item.id = id then
          if r.isClaimed then reclaimed item s.clock r else r else r) r := by
    clear hitems
    induction items generalizing result s with
    | nil => exact ⟨result, s, rfl, rfl, rfl, rfl, fun id => by simp⟩
    | cons item items ih =>
      obtain ⟨result₁, s₁, h₁, hclock₁, hexec₁, hterm₁, hrow₁⟩ := reclaimRow_alone result item s
      obtain ⟨result₂, s₂, h₂, hclock₂, hexec₂, hterm₂, hrow₂⟩ := ih result₁ s₁
      refine ⟨result₂, s₂, ?_, hclock₂.trans hclock₁, hexec₂.trans hexec₁, hterm₂.trans hterm₁,
        fun id => ?_⟩
      · rw [List.foldlM_cons, Prog.alone_bind, h₁]
        exact h₂
      · rw [hrow₂, hrow₁, Option.map_map]
        congr 1
        funext r
        simp only [Function.comp_apply, List.foldl_cons, hclock₁]
  obtain ⟨result', t, h, hclock, hexec, hterm, hrow⟩ := hfold
  refine ⟨result', t, h, hclock, hexec, hterm, fun id => ?_⟩
  rw [hrow]
  congr 1
  funext r
  exact Table.foldl_at_key (fun item r => if r.isClaimed then reclaimed item s.clock r else r) hitems id r

/-- What the sweep leaves of a row. -/
def afterSweep (now : Instant) (r : WorkItemRow) : WorkItemRow :=
  if r.leaseExpired now then reclaimed r now r else r

theorem reclaimExpiredLeases_eq (db : Db) (now : Instant) :
    (db.reclaimExpiredLeases now).executions = db.executions ∧
      (db.reclaimExpiredLeases now).term = db.term ∧
      ∀ id, (db.reclaimExpiredLeases now).workItems.find? id =
        (db.workItems.find? id).map (afterSweep now) := by
  obtain ⟨result, t, h, -, hexec, hterm, hrow⟩ := reclaimRows_fold (selectExpired_nodup db now) {}
    { db := db, clock := now, watch := Watch.follow (.selectExpired now) (.ok (db.selectExpired now))
        (Watch.note (.selectExpired now) db db {}) }
  have heq : db.reclaimExpiredLeases now = t.db := by
    have hrun := congrArg (fun p => p.2.db) h
    exact hrun
  rw [heq]
  refine ⟨hexec, hterm, fun id => ?_⟩
  rw [hrow]
  cases hr : db.workItems.find? id with
  | none => simp
  | some r =>
    simp only [Option.map_some, Option.some.injEq, afterSweep]
    cases hfind : (db.selectExpired now).find? fun item => item.id = id with
    | none =>
      have hx : r.leaseExpired now ≠ true := by
        intro hx
        have hmem := mem_selectExpired.mpr ⟨Table.mem_of_find? hr, hx⟩
        have hid := List.find?_eq_none.mp hfind r hmem
        exact hid (by simpa using Table.key_of_find? hr)
      simp [hx]
    | some item =>
      obtain ⟨hmem, hx⟩ := mem_selectExpired.mp (List.mem_of_find?_eq_some hfind)
      have hid : item.id = id := by simpa using List.find?_some hfind
      have hitem : item = r := by
        have hrow' := Table.find?_of_mem hmem
        rw [hid, hr] at hrow'
        exact (Option.some.inj hrow').symm
      subst hitem
      simp [hx, isClaimed_of_leaseExpired hx]

/-! A committed turn -/

theorem settleOf_settles {kind : EventKind} {settle}
    (h : settleOf kind now = some settle) (r : WorkItemRow) : (settle.1 r).isLive = false := by
  unfold settleOf at h
  split at h
  · cases h
    rfl
  · cases h
    rfl
  · cases h

theorem commitTurn_held {e : ExecutionId} {kind : EventKind} {fence : ℤ} {settle}
    (hkind : settleOf kind now = some settle)
    (hhit : db.workItems.hits id (WorkItemRow.claimedUnder fence) = true) {x : ExecutionRow}
    (hx : db.executions.find? e = some x) (snapshot : Bool) :
    ∃ sequence db', db.commitTurn id fence e kind snapshot now = (.ok sequence, db') ∧
      db'.workItems = (db.updateItem id (WorkItemRow.claimedUnder fence) settle.1 settle.2).workItems ∧
      db'.executions = db.executions ∧ db'.term = db.term ∧
      db'.events e = (db.events e).append kind := by
  obtain ⟨f, hf⟩ := settle
  unfold commitTurn commitTurnInner
  simp only [hkind, Bool.false_eq_true, if_false, hhit, if_true, updateItem_executions, hx,
    insertEvent]
  have hcore := recordTurn_core ((db.updateItem id (WorkItemRow.claimedUnder fence) f hf).setEvents e
    (((db.updateItem id (WorkItemRow.claimedUnder fence) f hf).events e).append kind)) e kind
    x.initialInput snapshot now
  refine ⟨_, _, rfl, hcore.workItems, hcore.executions, hcore.term, ?_⟩
  rw [hcore.events, setEvents_events_self]
  rfl

theorem commitTurn_refused {e : ExecutionId} {kind : EventKind} {fence : ℤ} (snapshot : Bool)
    (h : settleOf kind now = none ∨
      db.workItems.hits id (WorkItemRow.claimedUnder fence) = false) :
    ∃ err, db.commitTurn id fence e kind snapshot now = (.error err, db) := by
  unfold commitTurn commitTurnInner
  cases hkind : settleOf kind now with
  | none => exact ⟨_, rfl⟩
  | some settle =>
    obtain ⟨f, hf⟩ := settle
    have hmiss := h.resolve_left (by simp [hkind])
    simp only [Bool.false_eq_true, if_false, hmiss]
    exact ⟨_, rfl⟩

end Db

/-- What the in-memory backend keeps of one item, over its maps. -/
structure MemoryEntry where
  item : Option WorkItem
  epoch : ℤ
  leaseLen : ℕ
  last : Option (WorkerId × ℤ)

namespace InMemoryBackend

def entry (m : InMemoryBackend) (id : WorkItemId) : MemoryEntry :=
  ⟨m.workItems.find? id, m.epoch id, m.leaseLenOf id, m.lastLease id⟩

variable {m : InMemoryBackend} {id : WorkItemId} {now : Instant}

theorem entry_setItem {f : WorkItem → WorkItem} (hf : ∀ item, (f item).id = item.id)
    (key id : WorkItemId) : (m.setItem key f hf).entry id =
      if key = id then { m.entry id with item := (m.entry id).item.map f } else m.entry id := by
  by_cases hid : key = id
  · simp [setItem, entry, Table.find?_update, epoch, leaseLenOf, hid]
  · simp [setItem, entry, Table.find?_update, epoch, leaseLenOf, hid, Ne.symm hid]

theorem entry_removeItem (key id : WorkItemId) : (m.removeItem key).entry id =
    if key = id then { m.entry id with item := none } else m.entry id := by
  by_cases hid : key = id
  · simp only [removeItem, entry, Table.find?_delete, epoch, leaseLenOf, hid, if_true]
    cases m.workItems.find? id <;> simp [Option.filter]
  · simp only [removeItem, entry, Table.find?_delete, epoch, leaseLenOf, Ne.symm hid, hid, if_false]
    cases m.workItems.find? id <;> simp [Option.filter]

theorem entry_bumpEpoch (key id : WorkItemId) : (m.bumpEpoch key).entry id =
    if key = id then { m.entry id with epoch := (m.entry id).epoch + 1 } else m.entry id := by
  by_cases hid : key = id
  · subst hid
    simp [bumpEpoch, entry, epoch, leaseLenOf]
  · simp [bumpEpoch, entry, epoch, leaseLenOf, hid, Ne.symm hid]

theorem entry_rememberLease (item : WorkItem) (id : WorkItemId) : (m.rememberLease item).entry id =
    if item.id = id then
      { m.entry id with last := some (item.workerId.getD "", item.leaseFence) }
    else m.entry id := by
  by_cases hid : item.id = id
  · subst hid
    simp [rememberLease, entry, epoch, leaseLenOf]
  · simp [rememberLease, entry, epoch, leaseLenOf, hid, Ne.symm hid]

@[simp]
theorem entry_pushEvent (e : ExecutionId) (kind : EventKind) (id : WorkItemId) :
    (m.pushEvent e kind).2.entry id = m.entry id :=
  rfl

theorem commitTurn_kept (m : InMemoryBackend) (e : ExecutionId) (kind : EventKind)
    (snapshot : Bool) :
    let recorded := m.recordToolEffect e kind
    let after := if snapshot then recorded.writeSnapshot e else recorded
    after.executions = m.executions ∧ after.storeTerm = m.storeTerm ∧
      ∀ id, after.entry id = m.entry id := by
  have hrecorded : (m.recordToolEffect e kind).executions = m.executions ∧
      (m.recordToolEffect e kind).storeTerm = m.storeTerm ∧
      ∀ id, (m.recordToolEffect e kind).entry id = m.entry id := by
    unfold recordToolEffect
    split <;> exact ⟨rfl, rfl, fun _ => rfl⟩
  have hsnapshot : ∀ m : InMemoryBackend, (m.writeSnapshot e).executions = m.executions ∧
      (m.writeSnapshot e).storeTerm = m.storeTerm ∧
      ∀ id, (m.writeSnapshot e).entry id = m.entry id := by
    intro m
    unfold writeSnapshot
    split
    exact ⟨rfl, rfl, fun _ => rfl⟩
  obtain ⟨hexec, hterm, hentry⟩ := hrecorded
  simp only
  split
  · obtain ⟨hexec', hterm', hentry'⟩ := hsnapshot (m.recordToolEffect e kind)
    exact ⟨hexec'.trans hexec, hterm'.trans hterm, fun id => (hentry' id).trans (hentry id)⟩
  · exact ⟨hexec, hterm, hentry⟩

theorem commitTurn_accepted {e : ExecutionId} {kind : EventKind} {fence : ℤ}
    (hkind : (Db.settleOf kind now).isSome = true)
    (hhit : (m.workItems.hits id fun item => item.leaseFence = fence) = true) (snapshot : Bool) :
    ∃ sequence m', m.commitTurn id fence e kind snapshot = (.ok sequence, m') ∧
      m'.executions = m.executions ∧ m'.storeTerm = m.storeTerm ∧
      ∀ id', m'.entry id' = (m.removeItem id).entry id' := by
  obtain ⟨hexec, hterm, hentry⟩ :=
    commitTurn_kept ((m.removeItem id).pushEvent e kind).2 e kind snapshot
  unfold commitTurn
  cases kind with
  | nodeCompleted | nodeFailed =>
    simp only [hhit, if_true]
    exact ⟨_, _, rfl, hexec, hterm, hentry⟩
  | _ => simp [Db.settleOf] at hkind

theorem commitTurn_refused {e : ExecutionId} {kind : EventKind} {fence : ℤ} (snapshot : Bool)
    (h : Db.settleOf kind now = none ∨
      (m.workItems.hits id fun item => item.leaseFence = fence) = false) :
    ∃ err, m.commitTurn id fence e kind snapshot = (.error err, m) := by
  unfold commitTurn
  cases kind with
  | nodeCompleted | nodeFailed =>
    have hmiss := h.resolve_left (by simp [Db.settleOf])
    simp only [hmiss, Bool.false_eq_true, if_false]
    exact ⟨_, rfl⟩
  | _ => exact ⟨_, rfl⟩

/-- What the claim path's reclaim makes of a lapsed entry. -/
def expired (terminal : Bool) (item : WorkItem) (x : MemoryEntry) : MemoryEntry :=
  if terminal then { x with item := none }
  else if item.attempt + 1 < item.maxAttempts then
    { x with
      item := x.item.map WorkItem.expire
      epoch := x.epoch + 1
      last := some (item.workerId.getD "", item.leaseFence) }
  else x

theorem expireOne_eq (m : InMemoryBackend) (now : Instant) (item : WorkItem) :
    (m.expireOne now item).executions = m.executions ∧
    (m.expireOne now item).storeTerm = m.storeTerm ∧
    ∀ id, (m.expireOne now item).entry id =
      if item.id = id then
        if item.lapsed now then expired (m.isTerminal item.executionId) item (m.entry id)
        else m.entry id
      else m.entry id := by
  unfold expireOne
  by_cases hlapsed : item.lapsed now = true
  · simp only [hlapsed, Bool.not_true, Bool.false_eq_true, if_false, if_true]
    by_cases hterminal : m.isTerminal item.executionId = true
    · rw [if_pos hterminal]
      refine ⟨rfl, rfl, fun id => ?_⟩
      rw [entry_removeItem]
      simp [expired, hterminal]
    · rw [if_neg hterminal]
      by_cases hleft : item.attempt + 1 < item.maxAttempts
      · rw [if_pos hleft]
        refine ⟨rfl, rfl, fun id => ?_⟩
        change (((m.rememberLease item).bumpEpoch item.id).setItem item.id WorkItem.expire
          WorkItem.expire_id).entry id = _
        rw [entry_setItem, entry_bumpEpoch, entry_rememberLease]
        by_cases hid : item.id = id <;> simp [hid, expired, hterminal, hleft]
      · rw [if_neg hleft]
        refine ⟨rfl, rfl, fun id => ?_⟩
        simp [expired, hterminal, hleft]
  · simp [hlapsed]

/-- What the claim path's reclaim leaves of an entry. -/
def afterExpiry (m : InMemoryBackend) (now : Instant) (x : MemoryEntry) : MemoryEntry :=
  x.item.elim x fun item =>
    if item.lapsed now then expired (m.isTerminal item.executionId) item x else x

/-- A pass over the items, in which each step leaves the executions and touches its own entry only,
changes every entry by its own item. -/
theorem foldItems_eq (m : InMemoryBackend) {step : InMemoryBackend → WorkItem → InMemoryBackend}
    (onItem : WorkItem → MemoryEntry → MemoryEntry)
    (hstep : ∀ m' item, m'.executions = m.executions →
      (step m' item).executions = m'.executions ∧ (step m' item).storeTerm = m'.storeTerm ∧
        ∀ id, (step m' item).entry id =
          if item.id = id then onItem item (m'.entry id) else m'.entry id) :
    (m.workItems.rows.foldl step m).executions = m.executions ∧
      (m.workItems.rows.foldl step m).storeTerm = m.storeTerm ∧
      ∀ id, (m.workItems.rows.foldl step m).entry id =
        (m.entry id).item.elim (m.entry id) fun item => onItem item (m.entry id) := by
  have hfold : ∀ (items : List WorkItem) (m' : InMemoryBackend), m'.executions = m.executions →
      (items.foldl step m').executions = m.executions ∧
        (items.foldl step m').storeTerm = m'.storeTerm ∧
        ∀ id, (items.foldl step m').entry id =
          items.foldl (fun x item => if item.id = id then onItem item x else x) (m'.entry id) := by
    intro items
    induction items with
    | nil => exact fun m' hexec => ⟨hexec, rfl, fun _ => rfl⟩
    | cons item items ih =>
      intro m' hexec
      obtain ⟨hexec₁, hterm₁, hentry₁⟩ := hstep m' item hexec
      obtain ⟨hexec₂, hterm₂, hentry₂⟩ := ih _ (hexec₁.trans hexec)
      refine ⟨hexec₂, hterm₂.trans hterm₁, fun id => ?_⟩
      simp only [List.foldl_cons, hentry₂, hentry₁]
  obtain ⟨hexec, hterm, hentry⟩ := hfold m.workItems.rows m rfl
  refine ⟨hexec, hterm, fun id => ?_⟩
  rw [hentry, Table.foldl_at_key onItem m.workItems.nodup]
  rfl

theorem expireLapsed_eq (m : InMemoryBackend) (now : Instant) :
    (m.expireLapsed now).executions = m.executions ∧
      (m.expireLapsed now).storeTerm = m.storeTerm ∧
      ∀ id, (m.expireLapsed now).entry id = m.afterExpiry now (m.entry id) := by
  refine m.foldItems_eq (fun item x =>
    if item.lapsed now then expired (m.isTerminal item.executionId) item x else x)
    fun m' item hexec => ?_
  have hstatus : m'.isTerminal = m.isTerminal := by
    funext e
    simp only [isTerminal, hexec]
  rw [← hstatus]
  exact expireOne_eq m' now item

/-! The sweep -/

/-- What the sweep makes of a lapsed entry. -/
def reclaimed (item : WorkItem) (x : MemoryEntry) : MemoryEntry :=
  if item.attempt + 1 < item.maxAttempts then
    { x with
      item := x.item.map WorkItem.sweepRequeue
      epoch := x.epoch + 1
      last := some (item.workerId.getD "", item.leaseFence) }
  else { x with item := none }

theorem reclaimOne_eq (m : InMemoryBackend) (now : Instant) (item : WorkItem) :
    (m.reclaimOne now item).executions = m.executions ∧
    (m.reclaimOne now item).storeTerm = m.storeTerm ∧
    ∀ id, (m.reclaimOne now item).entry id =
      if item.id = id then if item.lapsed now then reclaimed item (m.entry id) else m.entry id
      else m.entry id := by
  unfold reclaimOne
  by_cases hlapsed : item.lapsed now = true
  · simp only [hlapsed, Bool.not_true, Bool.false_eq_true, if_false, if_true]
    by_cases hleft : item.attempt + 1 < item.maxAttempts
    · rw [if_pos hleft]
      refine ⟨rfl, rfl, fun id => ?_⟩
      rw [entry_setItem, entry_bumpEpoch, entry_rememberLease]
      by_cases hid : item.id = id <;> simp [hid, reclaimed, hleft]
    · rw [if_neg hleft]
      refine ⟨rfl, rfl, fun id => ?_⟩
      change (m.removeItem item.id).entry id = _
      rw [entry_removeItem]
      simp [reclaimed, hleft]
  · simp [hlapsed]

/-- What the sweep leaves of an entry. -/
def afterSweep (now : Instant) (x : MemoryEntry) : MemoryEntry :=
  x.item.elim x fun item => if item.lapsed now then reclaimed item x else x

theorem reclaimExpiredLeases_eq (m : InMemoryBackend) (now : Instant) :
    (m.reclaimExpiredLeases now).executions = m.executions ∧
      (m.reclaimExpiredLeases now).storeTerm = m.storeTerm ∧
      ∀ id, (m.reclaimExpiredLeases now).entry id = afterSweep now (m.entry id) :=
  m.foldItems_eq (fun item x => if item.lapsed now then reclaimed item x else x)
    fun m' item _ => reclaimOne_eq m' now item

end InMemoryBackend

end JamJet
