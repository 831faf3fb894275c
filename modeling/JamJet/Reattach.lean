import JamJet.Sweep

/-! Re-attaching a lost lease: what the guard's columns say about the item's past, and when the
attempt that the expiry charged is the one given back. -/

namespace JamJet

open AtomicCalls

/-- What a work item's row says about its history: a claimed row shows the fence handed out last,
and the `last_*` columns a claim that was lost, whose epoch is past. -/
structure LeaseStory (r : WorkItemRow) (history : List Transition) : Prop where
  epoch : 0 ≤ r.leaseEpoch
  claimed : r.status = .claimed → ∃ term rest, r.leaseFence = mintFence term r.leaseEpoch ∧
    history = .minted r.workerId r.leaseFence :: rest
  lost : ∀ worker fence, r.lastWorkerId = some worker → r.lastLeaseFence = some fence →
    ∃ term epoch, fence = mintFence term epoch ∧ 0 ≤ epoch ∧ epoch + 1 ≤ r.leaseEpoch ∧
      (r.status = .pending → r.leaseEpoch = epoch + 1 →
        ∃ attempt rest, history = .expired attempt :: .minted (some worker) fence :: rest)

namespace LeaseStory

variable {r r' : WorkItemRow} {history : List Transition} {t : Transition}

theorem toRow (item : NewWorkItem) (id : WorkItemId) (now : Instant) (history : List Transition) :
    LeaseStory (item.toRow id now) history where
  epoch := le_rfl
  claimed h := by cases h
  lost _ _ h := by cases h

theorem settled (h : LeaseStory r history) (r' : WorkItemRow) (hc : r'.status ≠ .claimed)
    (hp : r'.status ≠ .pending)
    (he : r'.leaseEpoch = r.leaseEpoch) (hw : r'.lastWorkerId = r.lastWorkerId)
    (hf : r'.lastLeaseFence = r.lastLeaseFence) (history' : List Transition) :
    LeaseStory r' history' where
  epoch := he ▸ h.epoch
  claimed hcl := absurd hcl hc
  lost w f hw' hf' := by
    obtain ⟨term, epoch, rfl, h0, hle, _⟩ := h.lost w f (hw ▸ hw') (hf ▸ hf')
    exact ⟨term, epoch, rfl, h0, he ▸ hle, fun hpe => absurd hpe hp⟩

theorem released (h : LeaseStory r history) (n : ℕ) (at' : Instant) (history' : List Transition) :
    LeaseStory (r.release n at') history' where
  epoch := Int.le_add_one h.epoch
  claimed hcl := by cases hcl
  lost w f hw hf := by
    obtain ⟨term, epoch, rfl, h0, hle, _⟩ := h.lost w f hw hf
    refine ⟨term, epoch, rfl, h0, Int.le_add_one hle, fun _ he => ?_⟩
    simp only [WorkItemRow.release] at he
    omega

theorem expired (h : LeaseStory r history) (hc : r.status = .claimed) {attempt : ℕ}
    (hs : r'.status = .pending) (he : r'.leaseEpoch = r.leaseEpoch + 1)
    (hw : r'.lastWorkerId = r.workerId) (hf : r'.lastLeaseFence = some r.leaseFence) :
    LeaseStory r' (.expired attempt :: history) where
  epoch := he ▸ Int.le_add_one h.epoch
  claimed hcl := by rw [hs] at hcl; cases hcl
  lost w f hw' hf' := by
    obtain ⟨term, rest, hfence, hhist⟩ := h.claimed hc
    obtain rfl : r.leaseFence = f := Option.some.inj (hf.symm.trans hf')
    refine ⟨term, r.leaseEpoch, hfence, h.epoch, he.ge, fun _ _ => ⟨attempt, rest, ?_⟩⟩
    rw [hhist, ← hw, hw']

theorem claim (h : LeaseStory r history) (term : ℤ) (worker : WorkerId) (len : ℕ) (now : Instant) :
    LeaseStory (r.claim term worker len now)
      (.minted (some worker) (mintFence term (r.leaseEpoch + 1)) :: history) where
  epoch := Int.le_add_one h.epoch
  claimed _ := ⟨term, history, rfl, rfl⟩
  lost w f hw hf := by
    obtain ⟨t, epoch, rfl, h0, hle, _⟩ := h.lost w f hw hf
    exact ⟨t, epoch, rfl, h0, Int.le_add_one hle, fun hp => by cases hp⟩

theorem reattach (h : LeaseStory r history) (term : ℤ) (worker : WorkerId) (now : Instant) :
    LeaseStory (r.reattach term worker now)
      (.minted (some worker) (mintFence term (r.leaseEpoch + 1)) :: history) where
  epoch := Int.le_add_one h.epoch
  claimed _ := ⟨term, history, rfl, rfl⟩
  lost w f hw := by cases hw

theorem renew (h : LeaseStory r history) (n : ℕ) (now : Instant) :
    LeaseStory (r.renew n now) history :=
  ⟨h.epoch, h.claimed, h.lost⟩

theorem step {db : Db} {β : Type} {op : BackendOp β} (h : LeaseStory r history)
    (hstep : ItemStep db op r r') : LeaseStory r' ((transition? op r r').toList ++ history) := by
  cases hstep with
  | keep => simpa [transition?] using h
  | settle _ hs =>
    rcases hs with ⟨now, rfl⟩ | rfl | rfl | ⟨n, rfl⟩
    · exact h.settled (r.complete now) (fun h => by cases h) (fun h => by cases h) rfl rfl rfl _
    · exact h.settled r.fail (fun h => by cases h) (fun h => by cases h) rfl rfl rfl _
    · exact h.settled r.failTurn (fun h => by cases h) (fun h => by cases h) rfl rfl rfl _
    · exact h.settled (r.deadLetter n) (fun h => by cases h) (fun h => by cases h) rfl rfl rfl _
  | releaseFailed _ _ n t => exact h.released n t _
  | releaseParked => exact h.released _ _ _
  | @expire now _ hx =>
    have hc : r.status = .claimed := by
      simp only [WorkItemRow.leaseExpired, Bool.and_eq_true, decide_eq_true_eq] at hx
      exact hx.1
    have ht : transition? (.expireStaleLeases now) r r.expire = some (.expired r.attempt) := by
      simp [transition?, WorkItemRow.expire, hc, BackendOp.expires]
    rw [ht]
    exact h.expired hc rfl rfl rfl rfl
  | @sweepRequeue item now _ _ hc =>
    have ht : transition? (.sweepRequeue item now) r (r.sweepRequeue (item.attempt + 1)
        (after now (backoffSecs (item.attempt + 1)))) = some (.expired r.attempt) := by
      simp [transition?, WorkItemRow.sweepRequeue, hc, BackendOp.expires]
    rw [ht]
    exact h.expired hc rfl rfl rfl rfl
  | @claim worker queueTypes leaseSecs now _ hp =>
    have ht : transition? (.claimWorkItem worker queueTypes leaseSecs now) r
        (r.claim db.term worker (grantedLeaseSecs leaseSecs) now) =
          some (.minted (some worker) (mintFence db.term (r.leaseEpoch + 1))) := by
      simp [transition?, WorkItemRow.claim, hp]
    rw [ht]
    exact h.claim _ _ _ _
  | renew => simpa [transition?, WorkItemRow.renew] using h.renew _ _
  | @reattach id worker lostFence now _ hg =>
    simp only [WorkItemRow.reattachable, decide_eq_true_eq] at hg
    have ht : transition? (.reattachLease id worker lostFence now) r
        (r.reattach db.term worker now) =
          some (.minted (some worker) (mintFence db.term (r.leaseEpoch + 1))) := by
      simp [transition?, WorkItemRow.reattach, hg.1]
    rw [ht]
    exact h.reattach _ _ _

theorem of_reattachable (h : LeaseStory r history) {worker : WorkerId} {fence : ℤ}
    (hg : r.reattachable worker fence = true) :
    ∃ attempt rest, history = .expired attempt :: .minted (some worker) fence :: rest := by
  simp only [WorkItemRow.reattachable, decide_eq_true_eq] at hg
  obtain ⟨hp, _, hw, hf, he⟩ := hg
  obtain ⟨term, epoch, rfl, h0, hle, hlast⟩ := h.lost worker _ hw hf
  refine hlast hp ?_
  -- the low half of the fence is at most the epoch it was minted with
  simp only [epochAfterExpiryOf, fenceEpoch, mintFence] at he
  omega

end LeaseStory

/-- The item is absent and never was, or its row tells its history. -/
def Told (id : WorkItemId) (db : Db) (history : WorkItemId → List Transition) : Prop :=
  ∀ r, db.workItems.find? id = some r → LeaseStory r (history id)

theorem Told.exec {id : WorkItemId} {β : Type} (op : BackendOp β) (db : Db) (w : Watch)
    (h : Told id db w.history) :
    Told id (op.exec db).2 (w.note op db (op.exec db).2).history := by
  intro r' hr'
  have heff := (op.effect db).items
  cases hr : db.workItems.find? id with
  | none =>
    obtain ⟨item, now, _, _, rfl⟩ := heff.new hr hr'
    exact LeaseStory.toRow item id now _
  | some r =>
    obtain ⟨r₁, hr₁, hstep⟩ := heff.row hr
    cases hr'.symm.trans hr₁
    rw [Watch.note_history_of_some hr hr']
    exact (h r hr).step hstep

/-- The row the sweep's requeue takes the attempt from. -/
def BackendOp.sweptRow {β : Type} : BackendOp β → Option WorkItemRow
  | .sweepRequeue item _ => some item
  | _ => none

/-- A row that comes out pending was so before, or its holder gave it back, or its lease expired
and one attempt was charged: on the row itself, or by the sweep on the row it selected. -/
theorem ItemStep.pending_cases {db : Db} {β : Type} {op : BackendOp β} {r r' : WorkItemRow}
    (h : ItemStep db op r r') (hp : r'.status = .pending) :
    r' = r ∨ r.status = .claimed ∧ (transition? op r r' = some .released ∨
      transition? op r r' = some (.expired r.attempt) ∧ (r'.attempt = r.attempt + 1 ∨
        ∃ item, op.sweptRow = some item ∧ r.id = item.id ∧ r'.attempt = item.attempt + 1)) := by
  cases h with
  | keep => exact .inl rfl
  | settle _ hs => rcases hs with ⟨now, rfl⟩ | rfl | rfl | ⟨n, rfl⟩ <;> cases hp
  | releaseFailed _ hc | releaseParked _ hc =>
    have hc := (WorkItemRow.claimedUnder_iff.mp hc).2
    exact .inr ⟨hc, .inl (by simp [transition?, WorkItemRow.release, hc, BackendOp.expires])⟩
  | expire hx =>
    have hc : r.status = .claimed := by
      simp only [WorkItemRow.leaseExpired, Bool.and_eq_true, decide_eq_true_eq] at hx
      exact hx.1
    refine .inr ⟨hc, .inr ⟨?_, .inl rfl⟩⟩
    simp [transition?, WorkItemRow.expire, hc, BackendOp.expires]
  | sweepRequeue hid hc =>
    refine .inr ⟨hc, .inr ⟨?_, .inr ⟨_, rfl, hid, rfl⟩⟩⟩
    simp [transition?, WorkItemRow.sweepRequeue, hc, BackendOp.expires]
  | claim | reattach => cases hp
  | renew hg =>
    simp only [Db.renewable, decide_eq_true_eq] at hg
    have hc := (WorkItemRow.claimedUnder_iff.mp hg.2).2
    simp only [WorkItemRow.renew, hc] at hp
    cases hp

/-- An expired item stands one attempt above the claim that was lost, and the rows the sweep
selected are on the attempt it saw. -/
structure AttemptsCharged (s : Sys) : Prop where
  absent : ∀ id, s.db.workItems.find? id = none → s.watch.history id = []
  selected : ∀ item ∈ s.watch.selected, ∀ r, s.db.workItems.find? item.id = some r →
    r.status = .claimed → r.attempt = item.attempt
  charged : ∀ id r attempt rest, s.db.workItems.find? id = some r → r.status = .pending →
    s.watch.history id = .expired attempt :: rest → r.attempt = attempt + 1

/-- The sweep's own statements are left to it, and no row it has selected and not come to yet is
claimed again. -/
def noNewClaims : EngineRules where
  actOk a s := match a with
    | .call op => op.sweptRow = none ∧ ∀ item ∈ s.watch.selected, s.db.mintedFor op ≠ some item.id
    | .passTime _ => True

theorem AttemptsCharged.exec {s : Sys} {β : Type} {op : BackendOp β} (h : AttemptsCharged s)
    (hno : ∀ item ∈ s.watch.selected, s.db.mintedFor op ≠ some item.id)
    (hswept : ∀ item, op.sweptRow = some item → item ∈ s.watch.selected) :
    AttemptsCharged { s with
      db := (op.exec s.db).2
      watch := s.watch.note op s.db (op.exec s.db).2 } := by
  have heff := (op.effect s.db).items
  refine ⟨fun id hid => ?_, fun item hitem r' hr' hc => ?_, fun id r' attempt rest hr' hp hh => ?_⟩
  · cases hr : s.db.workItems.find? id with
    | none => exact (Watch.note_history_of_none hr).trans (h.absent id hr)
    | some r =>
      obtain ⟨r', hr', _⟩ := heff.row hr
      exact absurd (hid.symm.trans hr') (by simp)
  · obtain ⟨r, hr, hcl, rfl | ⟨_, n, now, rfl⟩⟩ := claimed_of_exec (hno item hitem) hr' hc
    · exact h.selected item hitem r' hr hcl
    · exact h.selected item hitem r hr hcl
  · cases hr : s.db.workItems.find? id with
    | none =>
      rw [show (s.watch.note op s.db (op.exec s.db).2).history id = [] from
        (Watch.note_history_of_none hr).trans (h.absent id hr)] at hh
      cases hh
    | some r =>
      obtain ⟨r₁, hr₁, hstep⟩ := heff.row hr
      cases hr'.symm.trans hr₁
      have hhist : (s.watch.note op s.db (op.exec s.db).2).history id =
          (transition? op r r').toList ++ s.watch.history id :=
        Watch.note_history_of_some hr hr'
      rw [hhist] at hh
      rcases hstep.pending_cases hp with rfl | ⟨hcl, ht | ⟨ht, hcase⟩⟩
      · simp only [transition?, if_true, Option.toList_none, List.nil_append] at hh
        exact h.charged id r' attempt rest hr hp hh
      · simp [ht] at hh
      · simp only [ht, Option.toList_some, List.cons_append, List.nil_append, List.cons.injEq,
          Transition.expired.injEq] at hh
        rcases hcase with hcase | ⟨item, hop, hid, hcase⟩
        · rw [hcase, hh.1]
        · have hkey := Table.key_of_find? hr
          have hsame := h.selected item (hswept item hop) r (by rw [← hid, hkey]; exact hr) hcl
          rw [hcase, ← hsame, hh.1]

theorem find?_reattachLease {db : Db} {id : WorkItemId} {r : WorkItemRow} {worker : WorkerId}
    {fence : ℤ} (now : Instant) (hr : db.workItems.find? id = some r)
    (hg : r.reattachable worker fence = true) :
    (db.reattachLease id worker fence now).2.workItems.find? id =
      some (r.reattach db.term worker now) := by
  have hguard : r.status = .pending ∧ r.workerId = none := by
    simp only [WorkItemRow.reattachable, decide_eq_true_eq] at hg
    exact ⟨hg.1, hg.2.1⟩
  simp only [Db.reattachLease, hr, hg, if_true]
  rw [Db.updateItem_find? (WorkItemRow.reattach_id db.term worker now), hr]
  simp [hguard]

section Runs

variable [Chrono] (cfg : SchedulerConfig) (irOf : String → String → Option WorkflowIr)

theorem reattach_sound : Sound (engine cfg irOf) noNewClaims (sweepSpec AttemptsCharged) where
  act a s hi ha := by
    refine ⟨?_, sweepRely_act a s⟩
    cases a with
    | call op => exact AttemptsCharged.exec hi ha.2 fun item hop => by simp [ha.1] at hop
    | passTime nanos => exact ⟨hi.absent, hi.selected, hi.charged⟩
  act_rest _ _ _ _ _ := trivial
  call op s hi hg _ := by
    cases op with
    | inr op => cases op <;> exact ⟨hi.absent, hi.selected, hi.charged⟩
    | inl op =>
      have hno := no_grants_of_sweepGood hg
      have hswept : ∀ item, op.sweptRow = some item → item ∈ s.watch.selected := by
        intro item hop
        cases op <;> cases hop
        exact hg
      have hkept := AttemptsCharged.exec hi (fun _ _ => by simp [hno]) hswept
      refine ⟨fun id hid => ?_, fun item hitem r hr hc => ?_, fun id r attempt rest hr hp hh => ?_⟩
      · exact (congrFun (Watch.follow_history _) id).trans (hkept.absent id hid)
      · cases hsel : op.selects with
        | false =>
          have hold : item ∈ (s.watch.note op s.db (op.exec s.db).2).selected :=
            follow_selected hsel hitem
          exact hkept.selected item hold r hr hc
        | true =>
          cases op <;> try cases hsel
          obtain ⟨hrow, _⟩ := mem_selectExpired.mp hitem
          rw [Option.some.inj (hr.symm.trans (Table.find?_of_mem hrow))]
      · exact hkept.charged id r attempt rest hr hp
          ((congrFun (Watch.follow_history _) id).symm.trans hh)
  stop s hi _ := ⟨⟨hi.absent, fun _ h => (List.not_mem_nil h).elim, hi.charged⟩, trivial⟩
  job order s _ _ _ := wp_tick_sweep order

theorem leaseEpoch_grows (c : EngineConfig) (ms : List EngineMove) {id : WorkItemId}
    {r r' : WorkItemRow} (hr : c.state.db.workItems.find? id = some r)
    (hr' : (c.run (engine cfg irOf) ms).state.db.workItems.find? id = some r') :
    r.leaseEpoch ≤ r'.leaseEpoch := by
  have hinv := run_backend_inv cfg irOf
    (I := fun db _ => ∃ r', db.workItems.find? id = some r' ∧ r.leaseEpoch ≤ r'.leaseEpoch)
    (fun op db _ ⟨r₁, hr₁, hle⟩ => by
      obtain ⟨r₂, hr₂, hstep⟩ := (op.effect db).items.row hr₁
      exact ⟨r₂, hr₂, hle.trans hstep.leaseEpoch_le⟩) c ms ⟨r, hr, le_rfl⟩
  obtain ⟨r₁, hr₁, hle⟩ := hinv
  cases hr'.symm.trans hr₁
  exact hle

/-- Re-attach safety, for an item from its creation on.  A lost fence is re-attached only right
after the expiry of the claim that minted it, and never again after that; one holder and one
fence pass the guard of the live claim, those handed out last; and the attempt given back is the
one the lost claim was on, in every run where the sweep's selected rows are not claimed again. -/
theorem reattach_safety (db : Db) (clock : Instant) (ms : List EngineMove) (id : WorkItemId)
    (hnew : db.workItems.find? id = none) (r : WorkItemRow)
    (hr : ((boot db clock).run (engine cfg irOf) ms).state.db.workItems.find? id = some r) :
    let c := (boot db clock).run (engine cfg irOf) ms
    (∀ worker fence, r.reattachable worker fence = true →
      ∃ attempt rest, c.state.watch.history id =
          .expired attempt :: .minted (some worker) fence :: rest ∧
        (noNewClaims.Obeyed (engine cfg irOf) (boot db clock) ms →
          ∀ now, (r.reattach c.state.db.term worker now).attempt = attempt) ∧
        ∀ now ms' r', ((c.step (engine cfg irOf)
            (.outside (.call (.reattachLease id worker fence now)))).run
              (engine cfg irOf) ms').state.db.workItems.find? id = some r' →
          r'.reattachable worker fence = false) ∧
    (∀ fence, r.claimedUnder fence = true →
      ∃ rest, c.state.watch.history id = .minted r.workerId fence :: rest) ∧
    (∀ worker fence worker' fence', Db.renewable worker fence r = true →
      Db.renewable worker' fence' r = true → worker = worker' ∧ fence = fence') := by
  intro c
  have hstory : LeaseStory r (c.state.watch.history id) :=
    run_backend_inv cfg irOf (I := Told id) Told.exec (boot db clock) ms
      (fun r₀ hr₀ => absurd (hnew.symm.trans hr₀) (by simp)) r hr
  refine ⟨fun worker fence hg => ?_, fun fence hg => ?_, fun w f w' f' h h' => ?_⟩
  · obtain ⟨attempt, rest, hhist⟩ := hstory.of_reattachable hg
    refine ⟨attempt, rest, hhist, fun hms now => ?_, fun now ms' r' hr' => ?_⟩
    · have hstart : Meets (engine cfg irOf) noNewClaims (sweepSpec AttemptsCharged)
          (boot db clock) :=
        ⟨⟨fun _ _ => rfl, fun _ h => (List.not_mem_nil h).elim, fun _ _ _ _ _ _ h => by cases h⟩,
          trivial⟩
      have hmeets := hstart.run (reattach_sound cfg irOf) hms
      have hp : r.status = .pending := by
        simp only [WorkItemRow.reattachable, decide_eq_true_eq] at hg
        exact hg.1
      have hatt : r.attempt = attempt + 1 := hmeets.inv.charged id r attempt _ hr hp hhist
      simp [WorkItemRow.reattach, hatt]
    · have hgrow := leaseEpoch_grows cfg irOf _ ms' (find?_reattachLease now hr hg) hr'
      simp only [WorkItemRow.reattach] at hgrow
      simp only [WorkItemRow.reattachable, decide_eq_true_eq] at hg
      simp only [WorkItemRow.reattachable, decide_eq_false_iff_not]
      rintro ⟨_, _, _, _, he⟩
      have := hg.2.2.2.2
      omega
  · obtain ⟨hf, hs⟩ := WorkItemRow.claimedUnder_iff.mp hg
    obtain ⟨_, rest, _, hhist⟩ := hstory.claimed hs
    exact ⟨rest, hf ▸ hhist⟩
  · simp only [Db.renewable, WorkItemRow.claimedUnder, decide_eq_true_eq] at h h'
    exact ⟨Option.some.inj (h.1.symm.trans h'.1), h.2.1.symm.trans h'.2.1⟩

end Runs

/-- A worker's lease expires on the claim path and the worker comes back: the attempt is 0 as
before the expiry. -/
def returnRun : List EngineMove :=
  [.outside (.call startOne),
    .outside (.call (.claimWorkItem "w1" ["tool"] none 0)), .outside (.passTime 31000000000),
    .outside (.call (.expireStaleLeases 31000000000))]

theorem reattach_safety_after_expiry : ∃ r,
    ((boot {} 0).run oneNodeEngine returnRun).state.db.workItems.find? 1 = some r ∧
      r.reattachable "w1" 1 = true ∧ (r.reattach 0 "w1" 0).attempt = 0 := by
  have hrow : ∃ r, ((boot {} 0).run oneNodeEngine returnRun).state.db.workItems.find? 1 = some r ∧
      r.reattachable "w1" 1 = true := ⟨_, rfl, by decide⟩
  have hms : noNewClaims.Obeyed oneNodeEngine (boot {} 0) returnRun :=
    ⟨⟨rfl, fun _ h => by cases h⟩, ⟨rfl, fun _ h => by cases h⟩, trivial,
      ⟨rfl, fun _ h => by cases h⟩, trivial⟩
  have hhist : ((boot {} 0).run oneNodeEngine returnRun).state.watch.history 1 =
      [.expired 0, .minted (some "w1") 1] := by decide
  obtain ⟨r, hr, hg⟩ := hrow
  obtain ⟨hsafe, _⟩ := @reattach_safety firstDay {} _ {} 0 returnRun 1 rfl r hr
  obtain ⟨attempt, rest, heq, hback, _⟩ := hsafe "w1" 1 hg
  refine ⟨r, hr, hg, (hback hms 0).trans ?_⟩
  simp only [hhist, List.cons.injEq, Transition.expired.injEq] at heq
  exact heq.1.symm

/-- After the sweep took a lease it had not found expired, its holder re-attaches at attempt 0,
though it was on attempt 1 and the sweep charged it none. -/
theorem reattach_lowers_attempt : ∃ r,
    ((boot {} 0).run oneNodeEngine (staleRun ++ [.advance])).state.db.workItems.find? 1 = some r ∧
      r.reattachable "w2" 3 = true ∧
      ((boot {} 0).run oneNodeEngine (staleRun ++ [.advance])).state.watch.history 1 =
        [.expired 1, .minted (some "w2") 3, .expired 0, .minted (some "w1") 1] ∧
      (r.reattach 0 "w2" 31000000000).attempt ≠ 1 :=
  ⟨_, rfl, by decide, by decide, by decide⟩

end JamJet
