import JamJet.NodeOutcomes
import JamJet.RoundClosure
import JamJet.Engine

/-! The skip cascade: whatever its calls are answered, it computes the least set of nodes closed
under the dead-edge rule, and a skipped node is never dispatched. -/

namespace JamJet

open AtomicCalls

namespace ExecProgress

variable {p q : ExecProgress} {ir : WorkflowIr} {node : NodeId} {S T : Finset NodeId}

/-- The progress with some more nodes skipped. -/
def withSkipped (p : ExecProgress) (S : Finset NodeId) : ExecProgress :=
  { p with completed := p.completed ∪ S, skipped := p.skipped ∪ S }

/-- The same as far as edges and joins are concerned. -/
structure SameFlow (p q : ExecProgress) : Prop where
  completed : p.completed = q.completed
  scheduled : p.scheduled = q.scheduled
  skipped : p.skipped = q.skipped
  terminalFailed : p.terminalFailed = q.terminalFailed
  routes : p.routes = q.routes

/-- An edge is dead when its source was skipped, or is a routing condition that chose another
target. -/
theorem edgeDead_iff {src dst : NodeId} : p.edgeDead ir src dst = true ↔ src ∈ p.skipped ∨
    ∃ branches retryPolicy, ir.nodes.lookup src = some ⟨.condition branches, retryPolicy⟩ ∧
      branches ≠ [] ∧ src ∈ p.completed ∧ p.routes.lookup src ≠ some dst := by
  unfold edgeDead
  by_cases hs : src ∈ p.skipped
  · simp [hs]
  · rw [if_neg hs]
    split
    · rename_i branches policy hlook
      by_cases hc : branches ≠ [] ∧ src ∈ p.completed <;> simp_all [and_assoc]
    · rename_i hno
      simp only [hs, false_or, Bool.false_eq_true, false_iff]
      rintro ⟨branches, policy, hlook, _⟩
      exact hno branches policy hlook

theorem skippable_iff : p.skippable ir node = true ↔
    ¬ p.resolved node ∧ inEdges ir node ≠ [] ∧
      ∀ e ∈ inEdges ir node, p.edgeDead ir e.src node = true := by
  unfold skippable
  split
  · rename_i h
    simp [h]
  · rename_i h
    simp [h]

theorem SameFlow.edgeDead (h : SameFlow p q) (ir : WorkflowIr) (src dst : NodeId) :
    p.edgeDead ir src dst = q.edgeDead ir src dst := by
  rw [Bool.eq_iff_iff, edgeDead_iff, edgeDead_iff, h.skipped, h.completed, h.routes]

theorem SameFlow.skippable (h : SameFlow p q) (ir : WorkflowIr) (node : NodeId) :
    p.skippable ir node = q.skippable ir node := by
  rw [Bool.eq_iff_iff, skippable_iff, skippable_iff]
  simp only [resolved, h.completed, h.scheduled, h.skipped, h.terminalFailed, h.edgeDead]

theorem edgeDead_mono (hST : S ⊆ T) {src dst : NodeId}
    (h : (p.withSkipped S).edgeDead ir src dst = true) :
    (p.withSkipped T).edgeDead ir src dst = true := by
  rw [edgeDead_iff] at h ⊢
  rcases h with hs | ⟨branches, policy, hlook, hb, hc, hr⟩
  · exact .inl (Finset.union_subset_union_right hST hs)
  · exact .inr ⟨branches, policy, hlook, hb, Finset.union_subset_union_right hST hc, hr⟩

/-- One pass of the cascade, as a derivation over the nodes of the workflow. -/
def skipping (p : ExecProgress) (ir : WorkflowIr) : Derivation NodeId where
  univ := ir.nodes.keys
  fresh S := ir.nodes.keys.filter fun node => (p.withSkipped S).skippable ir node
  fresh_sub S node h := by
    obtain ⟨hmem, hskip⟩ := Finset.mem_filter.mp h
    have hun := (skippable_iff.mp hskip).1
    refine Finset.mem_sdiff.mpr ⟨hmem, fun hS => hun (.inl ?_)⟩
    exact Finset.mem_union_right _ hS
  mono {S T} hST node h := by
    obtain ⟨hmem, hskip⟩ := Finset.mem_filter.mp h
    obtain ⟨hun, hin, hdead⟩ := skippable_iff.mp hskip
    by_cases hT : node ∈ T
    · exact Finset.mem_union_left _ hT
    · refine Finset.mem_union_right _ (Finset.mem_filter.mpr ⟨hmem, skippable_iff.mpr ⟨?_, hin, ?_⟩⟩)
      · simp only [resolved, withSkipped, Finset.mem_union, not_or] at hun ⊢
        exact ⟨⟨hun.1.1, hT⟩, hun.2.1, ⟨hun.2.2.1.1, hT⟩, hun.2.2.2⟩
      · exact fun e he => edgeDead_mono hST (hdead e he)

/-- Nothing is left to skip once `S` is skipped. -/
def SkipClosed (p : ExecProgress) (ir : WorkflowIr) (S : Finset NodeId) : Prop :=
  ∀ node ∈ ir.nodes.keys, (p.withSkipped S).skippable ir node = false

theorem saturated_iff : (p.skipping ir).Saturated S ↔ p.SkipClosed ir S := by
  simp [Derivation.Saturated, skipping, SkipClosed, Finset.filter_eq_empty_iff]

theorem mem_newlySkippable {order : HashOrder NodeId} :
    node ∈ p.newlySkippable order ir ↔ node ∈ ir.nodes.keys ∧ p.skippable ir node = true := by
  simp [newlySkippable, List.mem_insertionSort, order.mem_walk]

theorem toFinset_newlySkippable {order : HashOrder NodeId} (h : SameFlow q (p.withSkipped S)) :
    (q.newlySkippable order ir).toFinset = (p.skipping ir).fresh S := by
  ext node
  simp [mem_newlySkippable, skipping, h.skippable]

theorem not_scheduled_of_newlySkippable (h : SameFlow q (p.withSkipped S)) {order : HashOrder NodeId}
    (hnode : node ∈ q.newlySkippable order ir) : node ∉ p.scheduled := by
  have hun := (skippable_iff.mp (mem_newlySkippable.mp hnode).2).1
  intro hs
  exact hun (.inr (.inl (h.scheduled ▸ hs)))

theorem markScheduled_completed (p : ExecProgress) (node : NodeId) :
    (p.markScheduled node).completed = p.completed := by
  unfold markScheduled
  split <;> rfl

theorem markScheduled_skipped (p : ExecProgress) (node : NodeId) :
    (p.markScheduled node).skipped = p.skipped := by
  unfold markScheduled
  split <;> rfl

theorem not_runnable_of_completed (h : node ∈ p.completed) : p.isRunnable ir node = false := by
  simp [isRunnable, h]

variable [Chrono]

theorem sameFlow_apply_skip (h : SameFlow q (p.withSkipped S)) (hnode : node ∉ p.scheduled)
    (sequence : EventSequence) (reason : String) :
    SameFlow (q.apply ⟨sequence, .nodeSkipped node reason⟩) (p.withSkipped (insert node S)) := by
  refine ⟨?_, ?_, ?_, h.terminalFailed, h.routes⟩
  · simp [apply, applyKind, h.completed, withSkipped]
  · simp [apply, applyKind, h.scheduled, withSkipped, hnode]
  · simp [apply, applyKind, h.skipped, withSkipped]

theorem completed_subset_apply (p : ExecProgress) (event : Event) :
    p.completed ⊆ (p.apply event).completed := (grows_apply p event).completed

theorem skipped_apply (p : ExecProgress) (event : Event) :
    (p.apply event).skipped = p.skipped ∨
      ∃ node ∈ (p.apply event).completed, (p.apply event).skipped = insert node p.skipped := by
  obtain ⟨sequence, kind⟩ := event
  change (p.applyKind sequence kind).skipped = p.skipped ∨
    ∃ node ∈ (p.applyKind sequence kind).completed,
      (p.applyKind sequence kind).skipped = insert node p.skipped
  unfold applyKind
  split
  all_goals first
    | exact .inl rfl
    | exact .inr ⟨_, Finset.mem_insert_self _ _, rfl⟩
    | exact .inl (markScheduled_skipped p _)
    | (split <;> first | exact .inl rfl | (split <;> exact .inl rfl))

theorem skipped_subset_completed_apply (h : p.skipped ⊆ p.completed) (event : Event) :
    (p.apply event).skipped ⊆ (p.apply event).completed := by
  have hgrow := h.trans (completed_subset_apply p event)
  rcases skipped_apply p event with hs | ⟨node, hnode, hs⟩
  · exact hs ▸ hgrow
  · exact hs ▸ Finset.insert_subset hnode hgrow

theorem skipped_subset_completed_applyAll (h : p.skipped ⊆ p.completed) (events : List Event) :
    (p.applyAll events).skipped ⊆ (p.applyAll events).completed := by
  induction events generalizing p with
  | nil => exact h
  | cons event events ih => exact ih (skipped_subset_completed_apply h event)

theorem completed_subset_applyAll (p : ExecProgress) (events : List Event) :
    p.completed ⊆ (p.applyAll events).completed := (grows_applyAll p events).completed

theorem mem_completed_of_nodeSkipped (p : ExecProgress) {events : List Event} {event : Event}
    (hevent : event ∈ events) {reason : String} (hkind : event.kind = .nodeSkipped node reason) :
    node ∈ (p.applyAll events).completed := by
  obtain ⟨before, later, rfl⟩ := List.append_of_mem hevent
  simp only [applyAll, List.foldl_append, List.foldl_cons]
  refine completed_subset_applyAll _ later ?_
  simp [apply, hkind, applyKind]

end ExecProgress

namespace Scheduler

open ExecProgress

variable [Chrono] {order : HashOrder NodeId} {ir : WorkflowIr} {e : ExecutionId}
  {p q q' : ExecProgress} {S : Finset NodeId}

theorem ends_skipNode {node : NodeId} : (skipNode e q node).Ends (.ok q') ↔
    ∃ latest, q' = q.apply ⟨latest + 1, .nodeSkipped node "branch not taken"⟩ := by
  unfold skipNode backend
  simp only [Prog.ends_bind]
  constructor
  · rintro ⟨latest, _, _, _, h⟩
    exact ⟨latest, Except.ok.inj h⟩
  · rintro ⟨latest, rfl⟩
    exact ⟨latest, ⟨.ok latest, rfl⟩, latest + 1, ⟨.ok (latest + 1), rfl⟩, rfl⟩

theorem sameFlow_skipNodes {nodes : List NodeId} (h : SameFlow q (p.withSkipped S))
    (hnodes : ∀ node ∈ nodes, node ∉ p.scheduled)
    (hq' : (nodes.foldlM (skipNode e) q).Ends (.ok q')) :
    SameFlow q' (p.withSkipped (S ∪ nodes.toFinset)) := by
  induction nodes generalizing q S with
  | nil =>
    cases hq'
    simpa using h
  | cons node nodes ih =>
    rw [List.foldlM_cons, Prog.ends_bind] at hq'
    obtain ⟨q₁, hq₁, hq'⟩ := hq'
    obtain ⟨latest, rfl⟩ := ends_skipNode.mp hq₁
    have h₁ := sameFlow_apply_skip h (hnodes node (by simp)) (latest + 1) "branch not taken"
    have h₂ := ih h₁ (fun n hn => hnodes n (by simp [hn])) hq'
    rwa [List.toFinset_cons, Finset.union_insert, ← Finset.insert_union]

theorem sameFlow_skipCascade {passes : ℕ} (h : SameFlow q (p.withSkipped S))
    (hq' : (skipCascade order ir e passes q).Ends (.ok q')) :
    SameFlow q' (p.withSkipped ((p.skipping ir).rounds passes S)) := by
  induction passes generalizing q S with
  | zero =>
    cases hq'
    exact h
  | succ passes ih =>
    have hfresh : (q.newlySkippable order ir).toFinset = (p.skipping ir).fresh S :=
      toFinset_newlySkippable h
    unfold skipCascade at hq'
    unfold Derivation.rounds
    split at hq'
    · rename_i hnil
      cases hq'
      have hempty : (p.skipping ir).fresh S = ∅ := by rw [← hfresh, hnil, List.toFinset_nil]
      rwa [if_pos hempty]
    · rename_i node nodes hcons
      obtain ⟨q₁, hq₁, hq'⟩ := Prog.ends_bind.mp hq'
      rw [← hcons] at hq₁
      have h₁ := sameFlow_skipNodes h (fun n hn => not_scheduled_of_newlySkippable h hn) hq₁
      rw [hfresh] at h₁
      have hne : (p.skipping ir).fresh S ≠ ∅ := by
        rw [← hfresh, hcons]
        simp
      rw [if_neg hne]
      exact ih h₁ hq'

theorem skipCascade_stops {passes passes' : ℕ} (h : SameFlow q (p.withSkipped S))
    (hp : ((p.skipping ir).univ \ S).card < passes)
    (hp' : ((p.skipping ir).univ \ S).card < passes') :
    skipCascade order ir e passes q = skipCascade order ir e passes' q := by
  induction passes generalizing q S passes' with
  | zero => omega
  | succ passes ih =>
    obtain ⟨passes', rfl⟩ := Nat.exists_eq_succ_of_ne_zero (Nat.ne_of_gt (Nat.zero_lt_of_lt hp'))
    have hfresh : (q.newlySkippable order ir).toFinset = (p.skipping ir).fresh S :=
      toFinset_newlySkippable h
    unfold skipCascade
    split
    · rfl
    · rename_i node nodes hcons
      refine Prog.bind_congr fun q₁ hq₁ => ?_
      rw [← hcons] at hq₁
      have h₁ := sameFlow_skipNodes h (fun n hn => not_scheduled_of_newlySkippable h hn) hq₁
      rw [hfresh] at h₁
      have hne : (p.skipping ir).fresh S ≠ ∅ := by
        rw [← hfresh, hcons]
        simp
      have hlt := Derivation.card_left_lt hne
      exact ih h₁ (by omega) (by omega)

theorem exists_ends_skipNodes (nodes : List NodeId) (q : ExecProgress) :
    ∃ q', (nodes.foldlM (skipNode e) q).Ends (.ok q') := by
  induction nodes generalizing q with
  | nil => exact ⟨q, rfl⟩
  | cons node nodes ih =>
    obtain ⟨q', hq'⟩ := ih (q.apply ⟨1, .nodeSkipped node "branch not taken"⟩)
    exact ⟨q', by rw [List.foldlM_cons, Prog.ends_bind]; exact ⟨_, ends_skipNode.mpr ⟨0, rfl⟩, hq'⟩⟩

theorem exists_ends_skipCascade (passes : ℕ) (q : ExecProgress) :
    ∃ q', (skipCascade order ir e passes q).Ends (.ok q') := by
  induction passes generalizing q with
  | zero => exact ⟨q, rfl⟩
  | succ passes ih =>
    unfold skipCascade
    split
    · exact ⟨q, rfl⟩
    · obtain ⟨q₁, hq₁⟩ := exists_ends_skipNodes (e := e) (q.newlySkippable order ir) q
      obtain ⟨q', hq'⟩ := ih q₁
      rename_i hcons
      exact ⟨q', Prog.ends_bind.mpr ⟨q₁, hcons ▸ hq₁, hq'⟩⟩

/-- What the cascade ends with: the start with the least closed set skipped, and nothing left to
skip. -/
theorem ends_skipCascade (hq' : (skipCascade order ir e (ir.nodes.keys.card + 1) p).Ends (.ok q')) :
    SameFlow q' (p.withSkipped ((p.skipping ir).rounds (ir.nodes.keys.card + 1) ∅)) ∧
      ∀ node ∈ ir.nodes.keys, q'.skippable ir node = false := by
  have hstart : SameFlow p (p.withSkipped ∅) := by
    constructor <;> simp [withSkipped]
  have hcard : ((p.skipping ir).univ \ ∅).card < ir.nodes.keys.card + 1 := by
    simp [skipping]
  have hflow := sameFlow_skipCascade hstart hq'
  refine ⟨hflow, fun node hnode => ?_⟩
  rw [hflow.skippable]
  exact saturated_iff.mp (Derivation.saturated_rounds hcard) node hnode

/-- The cascade ends, within its pass bound, with the least set of nodes closed under the
dead-edge rule skipped, whatever the order of the hash maps and the replies of the backend.  Each
node it skips has only dead in-edges at that moment and at the end of the loop, and is runnable
neither in this tick nor in any later one, cached or folded anew. -/
theorem skipCascade_least_fixpoint (order : HashOrder NodeId) (ir : WorkflowIr) (e : ExecutionId)
    (p : ExecProgress) :
    (∃ p', (skipCascade order ir e (ir.nodes.keys.card + 1) p).Ends (.ok p')) ∧
    (∀ extra, skipCascade order ir e (ir.nodes.keys.card + 1 + extra) p =
      skipCascade order ir e (ir.nodes.keys.card + 1) p) ∧
    (∃ S, IsLeast {T | p.SkipClosed ir T} S ∧
      ∀ p', (skipCascade order ir e (ir.nodes.keys.card + 1) p).Ends (.ok p') →
        p'.skipped = p.skipped ∪ S ∧ p'.completed = p.completed ∪ S ∧
        (∀ node ∈ ir.nodes.keys, p'.skippable ir node = false) ∧
        ∀ node ∈ S, (∃ T, T ⊆ S ∧ (p.withSkipped T).skippable ir node = true) ∧
          (∀ edge ∈ inEdges ir node, p'.edgeDead ir edge.src node = true) ∧
          ∀ events, (p'.applyAll events).isRunnable ir node = false) ∧
    (∀ (q : ExecProgress) (events : List Event) (event : Event) (node : NodeId) (reason : String),
      event ∈ events → event.kind = .nodeSkipped node reason →
        (q.applyAll events).isRunnable ir node = false) := by
  have hstart : SameFlow p (p.withSkipped ∅) := by
    constructor <;> simp [withSkipped]
  have hcard : ((p.skipping ir).univ \ ∅).card < ir.nodes.keys.card + 1 := by
    simp [skipping]
  refine ⟨exists_ends_skipCascade _ p, fun extra => ?_, ?_, ?_⟩
  · exact skipCascade_stops hstart (by omega) hcard
  · refine ⟨(p.skipping ir).rounds (ir.nodes.keys.card + 1) ∅, ?_, fun p' hp' => ?_⟩
    · have hleast := Derivation.rounds_isLeast (D := p.skipping ir) (S := ∅)
        (n := ir.nodes.keys.card + 1) (Nat.lt_succ_self _)
      refine ⟨saturated_iff.mp hleast.1.2, fun T hT => hleast.2 ⟨Finset.empty_subset T, ?_⟩⟩
      exact saturated_iff.mpr hT
    · obtain ⟨hflow, hclosed⟩ := ends_skipCascade hp'
      refine ⟨hflow.skipped, hflow.completed, hclosed, fun node hnode => ?_⟩
      obtain hnil | ⟨T, hT, hfresh⟩ := Derivation.mem_rounds hnode
      · simp at hnil
      · have hskip := (Finset.mem_filter.mp hfresh).2
        refine ⟨⟨T, hT, hskip⟩, fun edge hedge => ?_, fun events => ?_⟩
        · rw [hflow.edgeDead]
          exact edgeDead_mono hT ((skippable_iff.mp hskip).2.2 edge hedge)
        · refine not_runnable_of_completed (completed_subset_applyAll p' events ?_)
          rw [hflow.completed]
          exact Finset.mem_union_right _ hnode
  · intro q events event node reason hevent hkind
    exact not_runnable_of_completed (mem_completed_of_nodeSkipped q hevent hkind)

end Scheduler

/-- A condition that chose `c`: `b` is skipped for its dead in-edge, and then `d` behind it. -/
def branchIr : WorkflowIr where
  nodes := ([⟨"cond", ⟨.condition [⟨some "x", "b"⟩, ⟨none, "c"⟩], none⟩⟩, ⟨"b", ⟨.tool, none⟩⟩,
    ⟨"c", ⟨.tool, none⟩⟩, ⟨"d", ⟨.tool, none⟩⟩] : List (Sigma fun _ : NodeId => NodeDef)).toFinmap
  edges := [⟨"cond", "b"⟩, ⟨"cond", "c"⟩, ⟨"b", "d"⟩]
  models := ∅

def branchProgress : ExecProgress :=
  { completed := {"cond"}, routes := Finmap.singleton "cond" "c", lastSequence := 4 }

/-- The in-edge of `d` is live when the loop starts, and `d` is skipped all the same. -/
theorem skipped_node_had_live_edge : ∃ p',
    (@Scheduler.skipCascade firstDay .sorted branchIr 0 (branchIr.nodes.keys.card + 1)
      branchProgress).Ends (.ok p') ∧
    "d" ∈ p'.skipped ∧ "d" ∉ branchProgress.skipped ∧
    branchProgress.edgeDead branchIr "b" "d" = false := by
  refine ⟨_, ⟨.ok 4, .ok 5, .ok 5, .ok 6, rfl⟩, by decide, by decide, by decide⟩

end JamJet
