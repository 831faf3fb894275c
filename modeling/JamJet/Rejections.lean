import JamJet.IncrementalFold
import JamJet.Skips

/-! The nodes the rejection loop fails, and when one of them has completed. -/

namespace JamJet

namespace ExecProgress

variable {p q : ExecProgress} {node : NodeId}

/-- The nodes the rejection loop fails. -/
def Failing (p : ExecProgress) (node : NodeId) : Prop := node ∈ p.rejected ∧ node ∉ p.terminalFailed

instance (p : ExecProgress) : DecidablePred p.Failing := fun node =>
  inferInstanceAs (Decidable (node ∈ p.rejected ∧ node ∉ p.terminalFailed))

/-- No node to be failed has completed. -/
def FailsOpen (p : ExecProgress) : Prop := ∀ node, p.Failing node → node ∉ p.completed

/-- The event leaves a node both completed and to be failed: it completes or skips a rejected node,
or it rejects a hold of a completed one. -/
def Spoils (p : ExecProgress) : EventKind → Prop
  | .nodeCompleted node _ | .nodeSkipped node _ => p.Failing node
  | .approvalReceived node answer =>
      answer.decision = .rejected ∧ node ∈ p.held ∧ node ∈ p.completed ∧ node ∉ p.terminalFailed
  | .approvalExpired node requestSequence _ _ =>
      p.heldRequest.lookup node = some requestSequence ∧ node ∈ p.held ∧ node ∈ p.completed ∧
        node ∉ p.terminalFailed
  | _ => False

theorem failing_of_eq (hrejected : q.rejected = p.rejected)
    (hfailed : q.terminalFailed = p.terminalFailed) : q.Failing node ↔ p.Failing node := by
  rw [Failing, Failing, hrejected, hfailed]

theorem FailsOpen.of_eq (h : p.FailsOpen) (hrejected : q.rejected = p.rejected)
    (hfailed : q.terminalFailed = p.terminalFailed) (hcompleted : q.completed = p.completed) :
    q.FailsOpen := by
  intro node hnode
  rw [hcompleted]
  exact h node ((failing_of_eq hrejected hfailed).mp hnode)

theorem FailsOpen.complete (h : p.FailsOpen) (hnode : ¬ p.Failing node)
    (hrejected : q.rejected = p.rejected) (hfailed : q.terminalFailed = p.terminalFailed)
    (hcompleted : q.completed = insert node p.completed) : q.FailsOpen := by
  intro other hother
  have hp : p.Failing other := (failing_of_eq hrejected hfailed).mp hother
  have hne : other ≠ node := fun heq => hnode (heq ▸ hp)
  rw [hcompleted, Finset.mem_insert, not_or]
  exact ⟨hne, h other hp⟩

theorem FailsOpen.reject (h : p.FailsOpen) {reason : String}
    (hnode : node ∉ p.completed ∨ node ∈ p.terminalFailed)
    (hrejected : q.rejected = p.rejected.insert node reason)
    (hfailed : q.terminalFailed = p.terminalFailed) (hcompleted : q.completed = p.completed) :
    q.FailsOpen := by
  rintro other ⟨hother, hopen⟩
  rw [hfailed] at hopen
  rw [hrejected, Finmap.mem_insert] at hother
  rw [hcompleted]
  rcases hother with rfl | hother
  · exact hnode.resolve_right hopen
  · exact h other ⟨hother, hopen⟩

theorem markScheduled_terminalFailed (p : ExecProgress) (node : NodeId) :
    (p.markScheduled node).terminalFailed = p.terminalFailed := by
  unfold markScheduled
  split <;> rfl

theorem markScheduled_rejected (p : ExecProgress) (node : NodeId) :
    (p.markScheduled node).rejected = p.rejected := by
  unfold markScheduled
  split <;> rfl

theorem FailsOpen.markScheduled (h : p.FailsOpen) (node : NodeId) :
    (p.markScheduled node).FailsOpen :=
  h.of_eq (markScheduled_rejected p node) (markScheduled_terminalFailed p node)
    (markScheduled_completed p node)

variable [Chrono]

theorem FailsOpen.applyKind (h : p.FailsOpen) (sequence : EventSequence) {kind : EventKind}
    (hkind : ¬ p.Spoils kind) : (p.applyKind sequence kind).FailsOpen := by
  cases kind with
  | nodeCompleted node result => exact h.complete hkind rfl rfl rfl
  | nodeSkipped node reason => exact h.complete hkind rfl rfl rfl
  | nodeCancelled node =>
    -- the marker goes with the completion
    rintro other ⟨hother, hopen⟩
    obtain ⟨hne, hmem⟩ := Finmap.mem_erase.mp hother
    have hp : other ∉ p.completed := h other ⟨hmem, hopen⟩
    exact Finset.mem_insert.not.mpr (not_or.mpr ⟨hne, hp⟩)
  | nodeFailed node error attempt retryable =>
    cases retryable with
    | true => exact h.of_eq rfl rfl rfl
    | false =>
      rintro other ⟨hother, hopen⟩
      obtain ⟨-, hmem⟩ := Finmap.mem_erase.mp hother
      have hnotFailed : other ∉ p.terminalFailed :=
        fun hmem => hopen (Finset.mem_insert_of_mem hmem)
      exact h other ⟨hmem, hnotFailed⟩
  | nodeScheduled node queueType => exact h.markScheduled node
  | nodeStarted node workerId attempt => exact h.markScheduled node
  | retryScheduled node attempt delayMs => exact h.markScheduled node
  | approvalReceived node answer =>
    simp only [ExecProgress.applyKind]
    split
    · rename_i hheld
      cases hdecision : answer.decision with
      | approved => exact h.of_eq rfl rfl rfl
      | rejected =>
        have hnode : node ∉ p.completed ∨ node ∈ p.terminalFailed := by
          by_contra hboth
          rw [not_or, not_not] at hboth
          exact hkind ⟨hdecision, hheld, hboth⟩
        exact h.reject hnode rfl rfl rfl
    · exact h
  | approvalExpired node requestSequence expiresAt principal =>
    simp only [ExecProgress.applyKind]
    split
    · rename_i hheld
      have hnode : node ∉ p.completed ∨ node ∈ p.terminalFailed := by
        by_contra hboth
        rw [not_or, not_not] at hboth
        exact hkind ⟨hheld.1, hheld.2, hboth⟩
      exact h.reject hnode rfl rfl rfl
    · exact h
  | workflowStarted input initiatedBy => cases input <;> exact h.of_eq rfl rfl rfl
  | _ => exact h.of_eq rfl rfl rfl

theorem FailsOpen.apply (h : p.FailsOpen) {event : Event} (hkind : ¬ p.Spoils event.kind) :
    (p.apply event).FailsOpen :=
  (h.applyKind event.sequence hkind).of_eq rfl rfl rfl

/-- What the sweep of deadlines appends. -/
def FromSweep : EventKind → Prop
  | .approvalExpired .. | .approvalEscalated .. | .auditSealFailed .. => True
  | _ => False

theorem spoils_of_sweep {event : Event} (hkind : FromSweep event.kind) {node : NodeId}
    {r : EventSequence} {expiresAt : Instant} {principal : String}
    (h : (p.apply event).Spoils (.approvalExpired node r expiresAt principal)) :
    p.Spoils (.approvalExpired node r expiresAt principal) := by
  obtain ⟨sequence, kind⟩ := event
  cases kind with
  | approvalExpired node' r' expiresAt' principal' =>
    by_cases hheld : p.heldRequest.lookup node' = some r' ∧ node' ∈ p.held
    · obtain ⟨hrequest, hnode, hrest⟩ := h
      simp only [ExecProgress.apply, ExecProgress.applyKind, if_pos hheld] at hrequest hnode hrest
      exact ⟨hrequest, Finset.mem_of_mem_erase hnode, hrest⟩
    · simp only [ExecProgress.apply, ExecProgress.applyKind, if_neg hheld] at h
      exact h
  | approvalEscalated | auditSealFailed => exact h
  | _ => exact hkind.elim

end ExecProgress

end JamJet
