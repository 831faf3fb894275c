import JamJet.Fences
import JamJet.TickCalls

/-! The sweep of expired leases against everything that can happen between its `SELECT` and its
`UPDATE`s, and the re-attach of a lease that was taken away as expired. -/

namespace JamJet

open AtomicCalls Scheduler

/-- What the sweep has to find at each of its statements: the row it acts on is one it selected,
and it selects by a time that has come.  A tick hands out no lease. -/
def sweepGood {β : Type} : SchedOp β → Sys → Prop
  | .inl (.sweepRequeue item _), s | .inl (.sweepDeadLetter item), s => item ∈ s.watch.selected
  | .inl (.selectExpired now), s => now ≤ s.clock
  | .inl (.claimWorkItem ..), _ | .inl (.renewLease ..), _ | .inl (.reattachLease ..), _ => False
  | _, _ => True

/-- The other parties neither select rows nor turn back the clock. -/
def sweepRely (s s' : Sys) : Prop := s'.watch.selected = s.watch.selected ∧ s.clock ≤ s'.clock

/-- A tick beside others, for any invariant. -/
def sweepSpec (inv : Sys → Prop) : Spec SchedOp Sys where
  inv := inv
  rely := sweepRely
  rely_refl _ := ⟨rfl, le_rfl⟩
  rely_trans h₁ h₂ := ⟨h₂.1.trans h₁.1, h₁.2.trans h₂.2⟩
  good := sweepGood

theorem sweepRely_act (a : Act) (s : Sys) : sweepRely s (s.act a) := by
  cases a with
  | call op => exact ⟨rfl, le_rfl⟩
  | passTime nanos => exact ⟨rfl, Nat.le_add_right _ _⟩

theorem sweepGood_of_advances {e : ExecutionId} {β : Type} {op : SchedOp β} (h : Advances e op)
    (s : Sys) : sweepGood op s := by
  cases h with
  | reads h => cases h <;> trivial
  | records h => cases h <;> trivial
  | skips h => cases h <;> trivial
  | closes h =>
    cases h with
    | dispatches h | finishes h => cases h <;> trivial
  | _ => trivial

/-- The rows still to be swept are among those selected, each once. -/
def Remaining (rows : List WorkItemRow) (s : Sys) : Prop :=
  (∀ row ∈ rows, row ∈ s.watch.selected) ∧ (rows.map (·.id)).Nodup

theorem Remaining.filter {row : WorkItemRow} {rows : List WorkItemRow} {s t : Sys}
    (h : Remaining (row :: rows) s)
    (ht : t.watch.selected = s.watch.selected.filter (·.id ≠ row.id)) : Remaining rows t := by
  obtain ⟨hmem, hnodup⟩ := h
  simp only [List.map_cons, List.nodup_cons] at hnodup
  refine ⟨fun x hx => ?_, hnodup.2⟩
  rw [ht]
  have hne : x.id ≠ row.id := fun hid => hnodup.1 (hid ▸ List.mem_map_of_mem hx)
  exact List.mem_filter.mpr ⟨hmem x (by simp [hx]), by simpa using hne⟩

theorem Remaining.stable {rows : List WorkItemRow} {s t : Sys} (h : Remaining rows s)
    (ht : sweepRely s t) : Remaining rows t :=
  ⟨fun row hrow => ht.1 ▸ h.1 row hrow, h.2⟩

theorem selectExpired_nodup (db : Db) (now : Instant) :
    ((db.selectExpired now).map (·.id)).Nodup := by
  have hperm := (List.perm_insertionSort (fun a b : WorkItemRow => a.createdAt ≤ b.createdAt)
    (db.workItems.rows.filter (WorkItemRow.leaseExpired now))).map (·.id)
  refine hperm.nodup_iff.mpr ?_
  exact db.workItems.nodup.sublist (List.filter_sublist.map _)

section Tick

variable [Chrono] {cfg : SchedulerConfig} {irOf : String → String → Option WorkflowIr}
  {U : EngineRules} {inv : Sys → Prop} {s : Sys}

theorem wp_outside_sweep {α : Type} {p : Sched α} (ok : {β : Type} → SchedOp β → Prop)
    (hp : p.Within ok) (hok : ∀ {β : Type} (op : SchedOp β) s, ok op → sweepGood op s) :
    wp (engine cfg irOf) U (sweepSpec inv) p (fun _ _ => True) s :=
  wp_mono (fun _ _ _ _ => trivial) (wp_within hp (P := fun _ => True) (fun _ _ _ _ _ => trivial)
    (fun op s h _ _ => ⟨hok op s h, fun _ => trivial⟩) trivial)

theorem wp_reclaimRow (result : ReclaimResult) {row : WorkItemRow} {rows : List WorkItemRow}
    (h : Remaining (row :: rows) s) :
    wp (engine cfg irOf) U (sweepSpec inv) (reclaimRow result row)
      (ends (fun _ => Remaining rows) fun _ _ => True) s := by
  unfold reclaimRow backend here
  dsimp only
  split
  · apply wp_call
    intro t ht _
    have hrow := h.stable ht
    refine ⟨hrow.1 row (by simp), fun _ => ?_, fun _ _ _ _ _ _ => trivial⟩
    have hleft : Remaining rows ((engine cfg irOf).handle (.inl (.sweepDeadLetter row)) t).2 := by
      refine hrow.filter ?_
      simp only [engine, Sys.handle, Sys.callBackend, BackendOp.exec, Db.sweepDeadLetter,
        settleIf_ok]
      rfl
    simp only [engine, Sys.handle, Sys.callBackend, BackendOp.exec, Db.sweepDeadLetter,
      settleIf_ok] at hleft ⊢
    generalize t.db.workItems.hits row.id WorkItemRow.isClaimed = settled at hleft ⊢
    cases settled with
    | false => exact fun u hu _ => hleft.stable hu
    | true =>
      apply wp_call
      intro u hu _
      refine ⟨trivial, fun _ => ?_, fun hf => by cases hf⟩
      apply wp_call
      intro v hv _
      refine ⟨trivial, fun _ => ?_, fun _ _ _ _ _ _ => trivial⟩
      exact fun x hx _ => ((hleft.stable hu).stable hv).stable hx
  · apply wp_call
    intro t ht _
    refine ⟨trivial, fun _ => ?_, fun hf => by cases hf⟩
    apply wp_call
    intro u hu _
    have hrow := (h.stable ht).stable hu
    refine ⟨hrow.1 row (by simp), fun _ => ?_, fun _ _ _ _ _ _ => trivial⟩
    have hleft : Remaining rows
        ((engine cfg irOf).handle (.inl (.sweepRequeue row t.clock)) u).2 :=
      hrow.filter rfl
    simp only [engine, Sys.handle, Sys.callBackend, Sys.callLocal, BackendOp.exec, Db.sweepRequeue,
      settleIf_ok] at hleft ⊢
    generalize u.db.workItems.hits row.id WorkItemRow.isClaimed = requeued at hleft ⊢
    cases requeued <;> exact fun x hx _ => hleft.stable hx

theorem wp_reclaimRows :
    wp (engine cfg irOf) U (sweepSpec inv) reclaimRows (fun _ _ => True) s := by
  unfold reclaimRows backend here
  apply wp_call
  intro t ht _
  refine ⟨trivial, fun _ => ?_, fun hf => by cases hf⟩
  apply wp_call
  intro u hu hiu
  refine ⟨hu.2, fun _ => ?_, fun _ _ _ _ _ _ => trivial⟩
  refine wp_foldlM (fun rows _ => Remaining rows) ?_ ?_ ?_
    ⟨fun row hrow => hrow, selectExpired_nodup _ _⟩
  · exact fun row rows result v hv _ => wp_reclaimRow result hv
  · exact fun rows _ v w hv hw _ => hv.stable hw
  · exact fun _ _ _ _ => trivial

theorem wp_tick_sweep (order : HashOrder NodeId) :
    wp (engine cfg irOf) U (sweepSpec inv) (tick cfg order) (fun _ _ => True) s := by
  have hrecords : ∀ {β : Type} (op : SchedOp β) (s : Sys), SweepRecords op → sweepGood op s := by
    intro β op s h
    cases h <;> trivial
  unfold tick
  apply wp_bind
  apply wp_attempt
  refine wp_mono (Q := fun _ _ => True) (fun r t _ _ => ?_) ?_
  · refine wp_bind (wp_mono (Q := fun _ _ => True) (fun r u _ _ => ?_) ?_)
    · cases r with
      | error _ => trivial
      | ok running =>
        refine wp_outside_sweep (fun op => ∃ e, Advances e op)
          (Prog.Within.forEach (fun x => ?_) running) fun op s h => sweepGood_of_advances h.choose_spec s
        refine Prog.Within.bind (Prog.Within.attempt ?_) fun _ => Prog.within_pure ()
        exact (within_scheduleRunnableNodes cfg order x.workflowId x.workflowVersion).mono
          fun op h => ⟨_, h⟩
    · exact wp_perform fun u _ _ =>
        ⟨trivial, fun _ _ _ _ => trivial, fun _ _ _ _ _ _ => trivial⟩
  · unfold reclaimExpiredLeases
    refine wp_bind (wp_mono (Q := fun _ _ => True) (fun r u _ _ => ?_) wp_reclaimRows)
    cases r with
    | error _ => trivial
    | ok reclaimed =>
      refine wp_outside_sweep SweepRecords ?_ hrecords
      refine (Prog.Within.forEach within_recordRetry _).bind fun _ => ?_
      exact Prog.Within.forEach within_recordExhausted _

end Tick

/-- The `SELECT` of the sweep. -/
def BackendOp.selects {β : Type} : BackendOp β → Bool
  | .selectExpired _ => true
  | _ => false

section Expired

variable {db : Db} {β : Type} {op : BackendOp β} {s : Sys}

/-- While a selected row is claimed, it is the row that was found expired. -/
def SelectedExpired (s : Sys) : Prop :=
  ∀ item ∈ s.watch.selected, item.leaseExpired s.clock = true ∧
    ∀ r, s.db.workItems.find? item.id = some r → r.status = .claimed → r = item

theorem leaseExpired_mono {t t' : Instant} {r : WorkItemRow} (h : r.leaseExpired t = true)
    (ht : t ≤ t') : r.leaseExpired t' = true := by
  simp only [WorkItemRow.leaseExpired, Bool.and_eq_true, Option.any_eq_true] at h ⊢
  obtain ⟨hs, x, hx, hlt⟩ := h
  refine ⟨hs, x, hx, ?_⟩
  simp only [decide_eq_true_eq] at hlt ⊢
  exact lt_of_lt_of_le hlt ht

theorem claimed_of_exec {id : WorkItemId} {r' : WorkItemRow} (hm : db.mintedFor op ≠ some id)
    (hr' : (op.exec db).2.workItems.find? id = some r') (hc : r'.status = .claimed) :
    ∃ r, db.workItems.find? id = some r ∧ r.status = .claimed ∧
      (r' = r ∨ db.renewedFor op = some id ∧ ∃ n now, r' = r.renew n now) := by
  have heff := (op.effect db).items
  cases hr : db.workItems.find? id with
  | none =>
    obtain ⟨item, now, _, _, rfl⟩ := heff.new hr hr'
    cases hc
  | some r =>
    obtain ⟨r₁, hr₁, hstep⟩ := heff.row hr
    cases hr'.symm.trans hr₁
    have hid := Table.key_of_find? hr
    rcases hstep.claimed_cases hc with ⟨hcl, h⟩ | ⟨_, hmint, _⟩
    · exact ⟨r, rfl, hcl, by simpa [hid] using h⟩
    · exact absurd (hid ▸ hmint) hm

theorem no_grants_of_sweepGood (h : sweepGood (.inl op) s) :
    s.db.mintedFor op = none ∧ s.db.renewedFor op = none := by
  cases op <;> first | exact ⟨rfl, rfl⟩ | cases h

theorem follow_selected {reply : Except BackendError β} {w : Watch} {item : WorkItemRow}
    (hop : op.selects = false) (h : item ∈ (Watch.follow op reply w).selected) :
    item ∈ w.selected := by
  cases op with
  | selectExpired => cases hop
  | sweepRequeue => exact List.mem_of_mem_filter h
  | sweepDeadLetter =>
    cases reply with
    | ok settled => exact List.mem_of_mem_filter h
    | error e => exact h
  | listExecutions => cases h
  | appendEvent | enqueueWorkItem => cases reply <;> exact h
  | _ => exact h

theorem SelectedExpired.exec (h : SelectedExpired s)
    (hno : ∀ item ∈ s.watch.selected, s.db.mintedFor op ≠ some item.id ∧
      s.db.renewedFor op ≠ some item.id) :
    SelectedExpired { s with db := (op.exec s.db).2 } := by
  intro item hitem
  obtain ⟨hx, hrow⟩ := h item hitem
  refine ⟨hx, fun r' hr' hc => ?_⟩
  obtain ⟨r, hr, hcl, rfl | ⟨hren, _⟩⟩ := claimed_of_exec (hno item hitem).1 hr' hc
  · exact hrow r' hr hcl
  · exact absurd hren (hno item hitem).2

/-- No lease is handed out or prolonged on a row the sweep has selected and not come to yet. -/
def noGrants : EngineRules where
  actOk a s := match a with
    | .call op => ∀ item ∈ s.watch.selected, s.db.mintedFor op ≠ some item.id ∧
        s.db.renewedFor op ≠ some item.id
    | .passTime _ => True

theorem noGrants_of_selected_nil {a : Act} {s : Sys} (h : s.watch.selected = []) :
    noGrants.actOk a s := by
  cases a with
  | call op => simp [noGrants, h]
  | passTime nanos => trivial

/-- The `UPDATE` of the sweep takes the lease it found expired, still expired, and does not lower
the attempt. -/
def TakesExpired (s : Sys) (item : WorkItemRow) : Prop :=
  ∀ r, s.db.workItems.find? item.id = some r → r.status = .claimed →
    r.leaseFence = item.leaseFence ∧ r.leaseExpiresAt = item.leaseExpiresAt ∧
      r.leaseExpired s.clock = true ∧ r.attempt ≤ item.attempt + 1

variable [Chrono] (cfg : SchedulerConfig) (irOf : String → String → Option WorkflowIr)

theorem sweep_sound : Sound (engine cfg irOf) noGrants (sweepSpec SelectedExpired) where
  act a s hi ha := by
    refine ⟨?_, sweepRely_act a s⟩
    cases a with
    | call op => exact SelectedExpired.exec hi ha
    | passTime nanos =>
      exact fun item hitem => ⟨leaseExpired_mono (hi item hitem).1 (Nat.le_add_right _ _),
        (hi item hitem).2⟩
  act_rest _ _ _ _ _ := trivial
  call op s hi hg _ := by
    cases op with
    | inr op => cases op <;> exact hi
    | inl op =>
      intro item hitem
      cases hsel : op.selects with
      | false =>
        have hno := no_grants_of_sweepGood hg
        have hkept : SelectedExpired { s with db := (op.exec s.db).2 } :=
          SelectedExpired.exec hi fun _ _ => by simp [hno]
        have hold : item ∈ (s.watch.note op s.db (op.exec s.db).2).selected :=
          follow_selected hsel hitem
        exact hkept item hold
      | true =>
        cases op <;> try cases hsel
        obtain ⟨hrow, hx⟩ := mem_selectExpired.mp hitem
        refine ⟨leaseExpired_mono hx hg, fun r hr _ => ?_⟩
        exact Option.some.inj (hr.symm.trans (Table.find?_of_mem hrow))
  stop s hi _ := ⟨fun item hitem => (List.not_mem_nil hitem).elim, trivial⟩
  job order s _ _ _ := wp_tick_sweep order

/-- While no lease is granted on a row between the sweep's `SELECT` and its `UPDATE`, the sweep
takes only expired leases, in every run. -/
theorem sweep_takes_only_expired (db : Db) (clock : Instant) (ms : List EngineMove)
    (hms : noGrants.Obeyed (engine cfg irOf) (boot db clock) ms) (item : WorkItemRow)
    (now : Instant) (k : Except BackendError Bool → Sched Unit)
    (hrun : ((boot db clock).run (engine cfg irOf) ms).running =
        some (.call (.inl (.sweepRequeue item now)) k) ∨
      ((boot db clock).run (engine cfg irOf) ms).running =
        some (.call (.inl (.sweepDeadLetter item)) k)) :
    TakesExpired ((boot db clock).run (engine cfg irOf) ms).state item := by
  have hstart : Meets (engine cfg irOf) noGrants (sweepSpec SelectedExpired) (boot db clock) :=
    ⟨fun item hitem => (List.not_mem_nil hitem).elim, trivial⟩
  have hmeets := hstart.run (sweep_sound cfg irOf) hms
  generalize (boot db clock).run (engine cfg irOf) ms = c at hrun hmeets ⊢
  have hsel : item ∈ c.state.watch.selected := by
    rcases hrun with hrun | hrun <;> exact hmeets.good hrun
  intro r hr hc
  obtain ⟨hx, hrow⟩ := hmeets.inv item hsel
  obtain rfl := hrow r hr hc
  exact ⟨rfl, rfl, hx, Nat.le_succ _⟩

end Expired

section Runs

/-- A run is started, its item claimed, the lease runs out and a tick selects the item. -/
def selectRun : List EngineMove :=
  [.outside (.call startOne),
    .outside (.call (.claimWorkItem "w1" ["tool"] none 0)), .outside (.passTime 31000000000),
    .start .sorted, .advance, .advance]

/-- Before the sweep's `UPDATE` the claim path requeues the item and another worker claims it. -/
def staleRun : List EngineMove :=
  selectRun ++ [.outside (.call (.expireStaleLeases 31000000000)),
    .outside (.call (.claimWorkItem "w2" ["tool"] none 31000000000)), .advance]

theorem sweep_takes_only_expired_undisturbed : ∃ item now k,
    ((boot {} 0).run oneNodeEngine (selectRun ++ [.advance])).running =
      some (.call (.inl (.sweepRequeue item now)) k) ∧
    TakesExpired ((boot {} 0).run oneNodeEngine (selectRun ++ [.advance])).state item := by
  have hrun : ∃ item now k, ((boot {} 0).run oneNodeEngine (selectRun ++ [.advance])).running =
      some (.call (.inl (.sweepRequeue item now)) k) := ⟨_, _, _, rfl⟩
  have hms : noGrants.Obeyed oneNodeEngine (boot {} 0) (selectRun ++ [.advance]) :=
    ⟨noGrants_of_selected_nil rfl, noGrants_of_selected_nil rfl, noGrants_of_selected_nil rfl,
      trivial, trivial, trivial, trivial, trivial⟩
  obtain ⟨item, now, k, hrun⟩ := hrun
  exact ⟨item, now, k, hrun,
    @sweep_takes_only_expired firstDay {} _ {} 0 _ hms item now k (.inl hrun)⟩

/-- The sweep takes the lease of the second worker, which is not the one it found expired and
runs for another 30 s. -/
theorem sweep_takes_live_lease : ∃ item now k,
    ((boot {} 0).run oneNodeEngine staleRun).running =
      some (.call (.inl (.sweepRequeue item now)) k) ∧
    ¬ TakesExpired ((boot {} 0).run oneNodeEngine staleRun).state item := by
  refine ⟨_, _, _, rfl, fun h => ?_⟩
  exact absurd (h _ rfl rfl).1 (by decide)

end Runs

end JamJet
