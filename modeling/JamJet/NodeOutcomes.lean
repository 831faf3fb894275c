import JamJet.ExecProgress

/-! A node that reached a terminal outcome is not brought back, whatever is folded and in which
order. -/

namespace JamJet.ExecProgress

variable {p q : ExecProgress} {node : NodeId}

/-- What holds of a fold at every point. -/
structure Sane (p : ExecProgress) : Prop where
  completed : Disjoint p.scheduled p.completed
  failed : Disjoint p.scheduled p.terminalFailed
  skipped : p.skipped ⊆ p.completed
  requested : ∀ node ∈ p.held, node ∈ p.heldRequest

/-- Outcomes are only ever added. -/
structure Grows (p q : ExecProgress) : Prop where
  completed : p.completed ⊆ q.completed
  skipped : p.skipped ⊆ q.skipped
  failed : p.terminalFailed ⊆ q.terminalFailed

theorem Grows.refl (p : ExecProgress) : p.Grows p := ⟨subset_rfl, subset_rfl, subset_rfl⟩

theorem Grows.trans {r : ExecProgress} (h : p.Grows q) (h' : q.Grows r) : p.Grows r :=
  ⟨h.completed.trans h'.completed, h.skipped.trans h'.skipped, h.failed.trans h'.failed⟩

theorem sane_default : Sane {} := by
  refine ⟨?_, ?_, ?_, ?_⟩ <;> simp

theorem disjoint_erase_insert {s t : Finset NodeId} (h : Disjoint s t) (node : NodeId) :
    Disjoint (s.erase node) (insert node t) := by
  rw [Finset.disjoint_insert_right]
  have hrest : Disjoint (s.erase node) t := h.mono_left (Finset.erase_subset node s)
  exact ⟨Finset.notMem_erase node s, hrest⟩

theorem Sane.markScheduled (h : p.Sane) (node : NodeId) : (p.markScheduled node).Sane := by
  unfold ExecProgress.markScheduled
  split
  · exact h
  rename_i hnode
  obtain ⟨hcompleted, hfailed⟩ := not_or.mp hnode
  have hdisjoint : ∀ t : Finset NodeId, node ∉ t → Disjoint p.scheduled t →
      Disjoint (insert node p.scheduled) t := by
    intro t ht hp
    exact Finset.disjoint_insert_left.mpr ⟨ht, hp⟩
  exact ⟨hdisjoint _ hcompleted h.completed, hdisjoint _ hfailed h.failed, h.skipped, h.requested⟩

theorem grows_markScheduled (p : ExecProgress) (node : NodeId) :
    p.Grows (p.markScheduled node) := by
  unfold ExecProgress.markScheduled
  split
  · exact .refl p
  · exact ⟨subset_rfl, subset_rfl, subset_rfl⟩

variable [Chrono]

/-- Each arm that adds an outcome takes the node from what is scheduled. -/
theorem Sane.applyKind (h : p.Sane) (sequence : EventSequence) (kind : EventKind) :
    (p.applyKind sequence kind).Sane := by
  have herase : ∀ (node : NodeId) (t : Finset NodeId), Disjoint p.scheduled t →
      Disjoint (p.scheduled.erase node) t :=
    fun node t ht => ht.mono_left (Finset.erase_subset node p.scheduled)
  have hheld : ∀ node, ∀ n ∈ p.held.erase node, n ∈ p.heldRequest :=
    fun node n hn => h.requested n (Finset.mem_of_mem_erase hn)
  cases kind with
  | nodeCompleted node result =>
    exact ⟨disjoint_erase_insert h.completed node, herase node _ h.failed,
      h.skipped.trans (Finset.subset_insert node _), hheld node⟩
  | nodeSkipped node reason =>
    exact ⟨disjoint_erase_insert h.completed node, herase node _ h.failed,
      Finset.insert_subset_insert node h.skipped, hheld node⟩
  | nodeCancelled node =>
    exact ⟨disjoint_erase_insert h.completed node, herase node _ h.failed,
      h.skipped.trans (Finset.subset_insert node _), hheld node⟩
  | nodeFailed node error attempt retryable =>
    cases retryable with
    | false =>
      exact ⟨herase node _ h.completed, disjoint_erase_insert h.failed node, h.skipped, hheld node⟩
    | true => exact ⟨herase node _ h.completed, herase node _ h.failed, h.skipped, h.requested⟩
  | nodeScheduled node queueType => exact h.markScheduled node
  | nodeStarted node workerId attempt => exact h.markScheduled node
  | retryScheduled node attempt delayMs => exact h.markScheduled node
  | toolApprovalRequired node toolName approver context =>
    refine ⟨h.completed, h.failed, h.skipped, fun n hn => ?_⟩
    rcases Finset.mem_insert.mp hn with rfl | hn
    · exact Finmap.mem_insert.mpr (.inl rfl)
    · exact Finmap.mem_insert.mpr (.inr (h.requested n hn))
  | approvalReceived node answer =>
    simp only [ExecProgress.applyKind]
    split
    · cases answer.decision with
      | approved => exact ⟨herase node _ h.completed, herase node _ h.failed, h.skipped, hheld node⟩
      | rejected => exact ⟨h.completed, h.failed, h.skipped, hheld node⟩
    · exact h
  | approvalExpired node requestSequence expiresAt principal =>
    simp only [ExecProgress.applyKind]
    split
    · exact ⟨h.completed, h.failed, h.skipped, hheld node⟩
    · exact h
  | workflowStarted input initiatedBy =>
    cases input <;> exact ⟨h.completed, h.failed, h.skipped, h.requested⟩
  | _ => exact ⟨h.completed, h.failed, h.skipped, h.requested⟩

theorem grows_applyKind (p : ExecProgress) (sequence : EventSequence) (kind : EventKind) :
    p.Grows (p.applyKind sequence kind) := by
  have hinsert : ∀ (node : NodeId) (s : Finset NodeId), s ⊆ insert node s := Finset.subset_insert
  cases kind with
  | nodeCompleted node result => exact ⟨hinsert node _, subset_rfl, subset_rfl⟩
  | nodeSkipped node reason => exact ⟨hinsert node _, hinsert node _, subset_rfl⟩
  | nodeCancelled node => exact ⟨hinsert node _, subset_rfl, subset_rfl⟩
  | nodeFailed node error attempt retryable =>
    cases retryable with
    | false => exact ⟨subset_rfl, subset_rfl, hinsert node _⟩
    | true => exact ⟨subset_rfl, subset_rfl, subset_rfl⟩
  | nodeScheduled node queueType => exact grows_markScheduled p node
  | nodeStarted node workerId attempt => exact grows_markScheduled p node
  | retryScheduled node attempt delayMs => exact grows_markScheduled p node
  | approvalReceived node answer =>
    simp only [ExecProgress.applyKind]
    split
    · cases answer.decision <;> exact ⟨subset_rfl, subset_rfl, subset_rfl⟩
    · exact .refl p
  | approvalExpired node requestSequence expiresAt principal =>
    simp only [ExecProgress.applyKind]
    split
    · exact ⟨subset_rfl, subset_rfl, subset_rfl⟩
    · exact .refl p
  | workflowStarted input initiatedBy =>
    cases input <;> exact ⟨subset_rfl, subset_rfl, subset_rfl⟩
  | _ => exact ⟨subset_rfl, subset_rfl, subset_rfl⟩

theorem Sane.apply (h : p.Sane) (event : Event) : (p.apply event).Sane := by
  have hkind := h.applyKind event.sequence event.kind
  exact ⟨hkind.completed, hkind.failed, hkind.skipped, hkind.requested⟩

theorem grows_apply (p : ExecProgress) (event : Event) : p.Grows (p.apply event) := by
  have hkind := grows_applyKind p event.sequence event.kind
  exact ⟨hkind.completed, hkind.skipped, hkind.failed⟩

theorem Sane.applyAll (h : p.Sane) (events : List Event) : (p.applyAll events).Sane := by
  induction events generalizing p with
  | nil => exact h
  | cons event events ih => exact ih (h.apply event)

theorem grows_applyAll (p : ExecProgress) (events : List Event) : p.Grows (p.applyAll events) := by
  induction events generalizing p with
  | nil => exact .refl p
  | cons event events ih => exact (grows_apply p event).trans (ih (p.apply event))

/-- At every point of every sequence of events no scheduled node has an outcome, the skipped nodes
are completed and the held ones have a request; and from one point to a later one outcomes are only
added. -/
theorem fold_never_resurrects (before later : List Event) :
    Disjoint (applyAll {} before).scheduled (applyAll {} before).completed ∧
    Disjoint (applyAll {} before).scheduled (applyAll {} before).terminalFailed ∧
    (applyAll {} before).skipped ⊆ (applyAll {} before).completed ∧
    (∀ node ∈ (applyAll {} before).held, node ∈ (applyAll {} before).heldRequest) ∧
    (applyAll {} before).completed ⊆ (applyAll {} (before ++ later)).completed ∧
    (applyAll {} before).skipped ⊆ (applyAll {} (before ++ later)).skipped ∧
    (applyAll {} before).terminalFailed ⊆ (applyAll {} (before ++ later)).terminalFailed := by
  have hsane := sane_default.applyAll before
  have hgrows := grows_applyAll (applyAll {} before) later
  rw [← applyAll_append] at hgrows
  exact ⟨hsane.completed, hsane.failed, hsane.skipped, hsane.requested, hgrows.completed,
    hgrows.skipped, hgrows.failed⟩

end JamJet.ExecProgress
