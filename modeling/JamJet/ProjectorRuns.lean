import JamJet.Projector
import JamJet.Transitions

/-! The rows of the approval read model after any ticks of the projector: each is what the events
up to the checkpoint make of its node. -/

namespace JamJet

open AtomicCalls Approvals Projector

section Fold

variable [Chrono] {e : ExecutionId} {n : NodeId}

/-- One event's effect on the row of a node. -/
def nodeStep (e : ExecutionId) (n : NodeId) (current : Option ApprovalProjectionRow) (event : Event) :
    Option ApprovalProjectionRow :=
  if approvalNode event.kind = some n then (writtenRow e current event).or current else current

/-- The row of a node after these events. -/
def rowAfter (e : ExecutionId) (n : NodeId) (events : List Event) : Option ApprovalProjectionRow :=
  events.foldl (nodeStep e n) none

/-- Rows that what is written next cannot tell apart. -/
def Alike (r r' : Option ApprovalProjectionRow) : Prop :=
  r.map (fun r => (r.status, r.lastSequence)) = r'.map fun r => (r.status, r.lastSequence)

theorem writtenRow_alike {r r' : Option ApprovalProjectionRow} (h : Alike r r') (x : Event) :
    writtenRow e r x = writtenRow e r' x := by
  have hany : ∀ p : ApprovalRowStatus → EventSequence → Bool,
      (r.any fun r => p r.status r.lastSequence) = r'.any fun r => p r.status r.lastSequence := by
    intro p
    have hmap := congrArg (fun o => o.any fun x => p x.1 x.2) h
    cases r with
    | none =>
      cases r' with
      | none => rfl
      | some r' => cases h
    | some r =>
      cases r' with
      | none => cases h
      | some r' => simpa using hmap
  unfold writtenRow
  cases x.kind with
  | approvalReceived node answer =>
    simp only [hany fun status _ => status = .pending]
  | approvalExpired node requestSequence expiresAt principal =>
    simp only [hany fun status sequence => status = .pending && sequence = requestSequence]
  | _ => rfl

theorem writtenRow_key {r : Option ApprovalProjectionRow} {x : Event} {row : ApprovalProjectionRow}
    (hx : approvalNode x.kind = some n) (h : writtenRow e r x = some row) :
    row.executionId = e ∧ row.nodeId = n := by
  unfold writtenRow at h
  cases hkind : x.kind with
  | toolApprovalRequired node toolName approver context =>
    simp only [hkind, approvalNode, Option.some.injEq] at hx h
    subst h
    exact ⟨rfl, hx⟩
  | approvalReceived node answer =>
    simp only [hkind, approvalNode, Option.some.injEq] at hx h
    split at h
    · cases h
      exact ⟨rfl, hx⟩
    · cases h
  | approvalExpired node requestSequence expiresAt principal =>
    simp only [hkind, approvalNode, Option.some.injEq] at hx h
    split at h
    · cases h
      exact ⟨rfl, hx⟩
    · cases h
  | _ => simp [hkind, approvalNode] at hx

/-- What a batch leaves, started on rows that are alike the true ones: the true rows of the nodes
it touched, and nothing new of the others. -/
structure Batch (e : ExecutionId) (start : NodeId → Option ApprovalProjectionRow)
    (truth : NodeId → Option ApprovalProjectionRow) (events : List Event) (w : Working) : Prop where
  nodup : w.touched.Nodup
  touched : ∀ n ∈ w.touched, ∃ row, w.nodes n = some row ∧
    events.foldl (nodeStep e n) (truth n) = some row ∧ row.executionId = e ∧ row.nodeId = n
  untouched : ∀ n, n ∉ w.touched → w.nodes n = start n ∧
    events.foldl (nodeStep e n) (truth n) = truth n

theorem batch_fold {start truth : NodeId → Option ApprovalProjectionRow}
    (h : ∀ n, Alike (start n) (truth n)) (events : List Event) :
    Batch e start truth events (events.foldl (applyEvent e) ⟨start, []⟩) := by
  induction events using List.reverseRecOn with
  | nil => exact ⟨.nil, by simp, fun _ _ => ⟨rfl, rfl⟩⟩
  | append_singleton events x ih =>
    simp only [List.foldl_append, List.foldl_cons, List.foldl_nil] at ih ⊢
    generalize hw : events.foldl (applyEvent e) ⟨start, []⟩ = w at ih ⊢
    -- the batch writes the row the true row asks for
    have hsame : ∀ n, writtenRow e (w.nodes n) x =
        writtenRow e (events.foldl (nodeStep e n) (truth n)) x := by
      intro n
      refine writtenRow_alike ?_ x
      by_cases hn : n ∈ w.touched
      · obtain ⟨row, hrow, htrue, -⟩ := ih.touched n hn
        rw [hrow, htrue]
        rfl
      · obtain ⟨hrow, htrue⟩ := ih.untouched n hn
        rw [hrow, htrue]
        exact h n
    have hkeep : (∀ n, approvalNode x.kind = some n → writtenRow e (w.nodes n) x = none) →
        Batch e start truth (events ++ [x]) w := by
      intro hnone
      have hstep : ∀ n, (events ++ [x]).foldl (nodeStep e n) (truth n) =
          events.foldl (nodeStep e n) (truth n) := by
        intro n
        simp only [List.foldl_append, List.foldl_cons, List.foldl_nil]
        rw [nodeStep]
        split
        · rename_i hnode
          rw [← hsame, hnone n hnode, Option.none_or]
        · rfl
      refine ⟨ih.nodup, fun n hn => ?_, fun n hn => ?_⟩
      · rw [hstep]
        exact ih.touched n hn
      · rw [hstep]
        exact ih.untouched n hn
    unfold applyEvent
    cases hnode : approvalNode x.kind with
    | none => exact hkeep fun n hn => by simp [hnode] at hn
    | some m =>
      simp only
      cases hwritten : writtenRow e (w.nodes m) x with
      | none =>
        refine hkeep fun n hn => ?_
        rw [hnode] at hn
        cases hn
        exact hwritten
      | some row =>
        simp only
        have hmem : ∀ n, n ∈ (if m ∈ w.touched then w.touched else w.touched ++ [m]) ↔
            n = m ∨ n ∈ w.touched := by
          intro n
          split
          · rename_i hm
            exact ⟨.inr, fun h => h.elim (fun h => h ▸ hm) id⟩
          · simp [or_comm]
        have hstep : ∀ n, n ≠ m → nodeStep e n (events.foldl (nodeStep e n) (truth n)) x =
            events.foldl (nodeStep e n) (truth n) := by
          intro n hn
          rw [nodeStep, if_neg]
          rw [hnode]
          exact fun h => hn (Option.some.inj h).symm
        refine ⟨?_, fun n hn => ?_, fun n hn => ?_⟩
        · split
          · exact ih.nodup
          · rename_i hm
            rw [← List.concat_eq_append]
            exact ih.nodup.concat hm
        · simp only [List.foldl_append, List.foldl_cons, List.foldl_nil]
          by_cases hnm : n = m
          · subst hnm
            have hkey := writtenRow_key hnode hwritten
            rw [hsame] at hwritten
            refine ⟨row, by simp, ?_, hkey⟩
            rw [nodeStep, if_pos hnode, hwritten, Option.some_or]
          · rw [hstep n hnm]
            simp only [ne_eq, hnm, not_false_eq_true, Function.update_of_ne]
            exact ih.touched n (((hmem n).mp hn).resolve_left hnm)
        · have hnm : n ≠ m := fun h => hn ((hmem n).mpr (.inl h))
          simp only [List.foldl_append, List.foldl_cons, List.foldl_nil, hstep n hnm, ne_eq, hnm,
            not_false_eq_true, Function.update_of_ne]
          exact ih.untouched n fun h => hn ((hmem n).mpr (.inr h))

end Fold

section Projection

variable {reread : Json → Json} {s : ProjectorSys} {e : ExecutionId} {n : NodeId}

/-- A row as it is read back. -/
def ApprovalProjectionRow.readBack (reread : Json → Json) (r : ApprovalProjectionRow) :
    ApprovalProjectionRow :=
  { r with context := r.context.map reread }

theorem mem_approvalProjection {r : ApprovalProjectionRow} :
    r ∈ s.approvalProjection reread e ↔
      ∃ n r₀, s.rows.find? (e, n) = some r₀ ∧ r = r₀.readBack reread := by
  simp only [ProjectorSys.approvalProjection, List.mem_map, List.mem_insertionSort, List.mem_filter,
    decide_eq_true_eq]
  constructor
  · rintro ⟨r₀, ⟨hmem, rfl⟩, rfl⟩
    exact ⟨r₀.nodeId, r₀, Table.find?_of_mem hmem, rfl⟩
  · rintro ⟨n, r₀, hfind, rfl⟩
    have hkey := Table.key_of_find? hfind
    simp only [Prod.mk.injEq] at hkey
    exact ⟨r₀, ⟨Table.mem_of_find? hfind, hkey.1⟩, rfl⟩

theorem find?_approvalProjection :
    ((s.approvalProjection reread e).find? fun r => r.nodeId = n) =
      (s.rows.find? (e, n)).map (·.readBack reread) := by
  have hkey : ∀ n r₀, s.rows.find? (e, n) = some r₀ → r₀.nodeId = n := by
    intro n r₀ h
    have hkey := Table.key_of_find? h
    simp only [Prod.mk.injEq] at hkey
    exact hkey.2
  cases hfind : (s.approvalProjection reread e).find? fun r => r.nodeId = n with
  | some r =>
    obtain ⟨n', r₀, hrow, rfl⟩ := mem_approvalProjection.mp (List.mem_of_find?_eq_some hfind)
    have hnode : r₀.nodeId = n := by
      have hnode := List.find?_some hfind
      exact of_decide_eq_true hnode
    rw [← hnode, hkey n' r₀ hrow, hrow]
    rfl
  | none =>
    cases hrow : s.rows.find? (e, n) with
    | none => rfl
    | some r₀ =>
      have hmem : r₀.readBack reread ∈ s.approvalProjection reread e :=
        mem_approvalProjection.mpr ⟨n, r₀, hrow, rfl⟩
      have hnone := List.find?_eq_none.mp hfind _ hmem
      exact absurd (decide_eq_true (hkey n r₀ hrow)) hnone

end Projection

section Runs

variable [Chrono] {reread : Json → Json} {s t : ProjectorSys} {e : ExecutionId}

/-- Each row is what the events up to the checkpoint make of its node. -/
structure Projected (s : ProjectorSys) : Prop where
  rows : ∀ e n, s.rows.find? (e, n) =
    rowAfter e n ((s.db.events e).upTo (s.checkpoints e))
  checkpoint : ∀ e, s.checkpoints e ≤ (s.db.events e).latest

omit [Chrono] in
theorem maxSequence_since {log : EventLog} {c : EventSequence} (h : log.since c ≠ []) :
    SeqLog.maxSequence (log.since c) = log.latest := by
  have hsplit : log.latest = max (SeqLog.maxSequence (log.upTo c)) (SeqLog.maxSequence (log.since c)) := by
    rw [← SeqLog.maxSequence_append, SeqLog.upTo_append_since]
    rfl
  have hupTo : SeqLog.maxSequence (log.upTo c) ≤ c := SeqLog.maxSequence_le fun x hx => by
    simpa using (List.mem_filter.mp hx).2
  obtain ⟨x, hx⟩ := List.exists_mem_of_ne_nil _ h
  have hlt := (SeqLog.mem_since.mp hx).2
  have hle := SeqLog.le_maxSequence hx
  omega

theorem Projected.commit (h : Projected t) {log : EventLog} (hlog : log.Extends (t.db.events e))
    (hc : t.checkpoints e ≤ log.latest) (hne : log.since (t.checkpoints e) ≠ [])
    {rows : Table (ExecutionId × NodeId) ApprovalProjectionRow (fun r => (r.executionId, r.nodeId))}
    (hrows : ∀ n, rows.find? (e, n) = (log.since (t.checkpoints e)).foldl (nodeStep e n)
      (t.rows.find? (e, n)))
    (hother : ∀ e' n, e' ≠ e → rows.find? (e', n) = t.rows.find? (e', n)) :
    Projected { t with
      rows := rows
      checkpoints := Function.update t.checkpoints e
        (SeqLog.maxSequence (log.since (t.checkpoints e))) } := by
  have hmax := maxSequence_since hne
  constructor
  · intro e' n
    by_cases he : e' = e
    · subst he
      have hupTo : (t.db.events e').upTo log.latest =
          log.upTo (t.checkpoints e') ++ log.since (t.checkpoints e') := by
        rw [hlog.upTo_eq le_rfl, SeqLog.upTo_latest le_rfl, SeqLog.upTo_append_since]
      simp only [hrows, h.rows, Function.update_self, hmax, hupTo, rowAfter, List.foldl_append]
      rw [hlog.upTo_eq hc]
    · simp only [ne_eq, he, not_false_eq_true, Function.update_of_ne, hother, h.rows]
  · intro e'
    by_cases he : e' = e
    · subst he
      simpa [hmax] using hlog.latest_le
    · simpa [he] using h.checkpoint e'

def projectorSpec (reread : Json → Json) : Spec ProjectorOp ProjectorSys where
  inv := Projected
  rely s t := t.rows = s.rows ∧ t.checkpoints = s.checkpoints ∧
    ∀ e, (s.db.events e).Extends (t.db.events e)
  rely_refl _ := ⟨rfl, rfl, fun _ => .refl _⟩
  rely_trans h h' := ⟨h'.1.trans h.1, h'.2.1.trans h.2.1, fun e => (h.2.2 e).trans (h'.2.2 e)⟩
  good op s := Projected (s.handle reread op).2

omit [Chrono] in
theorem sorted_since (log : EventLog) (c : EventSequence) :
    (log.since c).insertionSort (fun a b => a.sequence ≤ b.sequence) = log.since c := by
  have hincreasing := log.increasing.sublist (List.filter_sublist (p := fun x => c < x.sequence))
  exact List.Pairwise.insertionSort_eq (hincreasing.imp fun h => le_of_lt h)

theorem wp_projectExecution : wp (projector reread) {} (projectorSpec reread) (projectExecution e)
    (fun _ _ => True) s := by
  unfold projectExecution
  apply wp_call
  intro s₁ _ hi₁
  refine ⟨hi₁, fun _ => ?_, fun _ _ _ _ _ _ => trivial⟩
  simp only [projector, ProjectorSys.handle, ends]
  apply wp_call
  intro s₂ h₂ hi₂
  refine ⟨hi₂, fun _ => ?_, fun _ _ _ _ _ _ => trivial⟩
  simp only [ends, sorted_since]
  generalize hc : s₁.checkpoints e = c
  have hc₂ : s₂.checkpoints e = c := by rw [h₂.2.1, hc]
  split
  · exact fun _ _ _ => trivial
  · rename_i hne
    have hne : (s₂.db.events e).since c ≠ [] := by simpa using hne
    apply wp_call
    intro s₃ h₃ hi₃
    refine ⟨hi₃, fun _ => ?_, fun _ _ _ _ _ _ => trivial⟩
    simp only [ends]
    -- the batch starts on the stored rows, read back
    have hstart : ∀ n, Alike ((s₃.approvalProjection reread e).find? fun r => r.nodeId = n)
        (s₃.rows.find? (e, n)) := by
      intro n
      simp only [Alike, find?_approvalProjection]
      cases s₃.rows.find? (e, n) <;> rfl
    have hbatch := batch_fold (e := e) hstart ((s₂.db.events e).since c)
    generalize ((s₂.db.events e).since c).foldl (applyEvent e) _ = w at hbatch ⊢
    have hkeys : ∀ n ∈ w.touched, ∃ row, w.nodes n = some row ∧ row.executionId = e ∧
        row.nodeId = n := by
      intro n hn
      obtain ⟨row, hrow, -, hkey⟩ := hbatch.touched n hn
      exact ⟨row, hrow, hkey⟩
    have hcommit : ∀ {s₄ : ProjectorSys}, (projectorSpec reread).rely s₃ s₄ → Projected s₄ →
        ∀ rows, (∀ n, rows.find? (e, n) = ((s₂.db.events e).since c).foldl (nodeStep e n)
          (s₄.rows.find? (e, n))) →
        (∀ e' n, e' ≠ e → rows.find? (e', n) = s₄.rows.find? (e', n)) →
        Projected { s₄ with
          rows := rows
          checkpoints := Function.update s₄.checkpoints e
            (SeqLog.maxSequence ((s₂.db.events e).since c)) } := by
      intro s₄ h₄ hi₄ rows hrows hother
      have hc₄ : s₄.checkpoints e = c := by rw [h₄.2.1, h₃.2.1, hc₂]
      have hle : c ≤ (s₂.db.events e).latest := hc₂ ▸ hi₂.checkpoint e
      rw [← hc₄] at hrows hne hle ⊢
      exact hi₄.commit ((h₃.2.2 e).trans (h₄.2.2 e)) hle hne hrows hother
    split
    · rename_i hempty
      have huntouched : ∀ n, n ∉ w.touched := by
        intro n hn
        obtain ⟨row, hrow, -⟩ := hkeys n hn
        have hmem : row ∈ w.touched.filterMap w.nodes := List.mem_filterMap.mpr ⟨n, hn, hrow⟩
        rw [List.isEmpty_iff.mp hempty] at hmem
        cases hmem
      apply wp_call
      intro s₄ h₄ hi₄
      refine ⟨hcommit h₄ hi₄ s₄.rows (fun n => ?_) fun _ _ _ => rfl, fun _ => ?_,
        fun _ _ _ _ _ _ => trivial⟩
      · rw [h₄.1]
        exact ((hbatch.untouched n (huntouched n)).2).symm
      · exact fun _ _ _ => trivial
    · have hnodup : ((w.touched.filterMap w.nodes).map fun r => (r.executionId, r.nodeId)).Nodup := by
        have hrow : ∀ n ∈ w.touched, (w.nodes n).map (fun r => (r.executionId, r.nodeId)) =
            some (e, n) := by
          intro n hn
          obtain ⟨row, hrow, rfl, rfl⟩ := hkeys n hn
          rw [hrow]
          rfl
        rw [List.map_filterMap, List.filterMap_congr hrow, ← Function.comp_def some, List.filterMap_eq_map]
        exact hbatch.nodup.map fun _ _ h => (Prod.mk.inj h).2
      apply wp_call
      intro s₄ h₄ hi₄
      obtain ⟨hin, hout⟩ := Table.find?_foldl_put hnodup s₄.rows
      refine ⟨hcommit h₄ hi₄ ((w.touched.filterMap w.nodes).foldl Table.put s₄.rows)
        (fun n => ?_) (fun e' n he => ?_), fun _ => ?_, fun _ _ _ _ _ _ => trivial⟩
      · by_cases hn : n ∈ w.touched
        · obtain ⟨row, hrow, htrue, rfl, rfl⟩ := hbatch.touched n hn
          rw [hin row (List.mem_filterMap.mpr ⟨_, hn, hrow⟩), h₄.1, htrue]
        · rw [hout, h₄.1, (hbatch.untouched n hn).2]
          intro r hr hkey
          obtain ⟨m, hm, hrow⟩ := List.mem_filterMap.mp hr
          obtain ⟨row, hrow', -, hnode⟩ := hkeys m hm
          cases hrow.symm.trans hrow'
          simp only [Prod.mk.injEq] at hkey
          exact hn (hkey.2 ▸ hnode ▸ hm)
      · refine hout _ fun r hr hkey => ?_
        obtain ⟨m, hm, hrow⟩ := List.mem_filterMap.mp hr
        obtain ⟨row, hrow', hexec, -⟩ := hkeys m hm
        cases hrow.symm.trans hrow'
        simp only [Prod.mk.injEq] at hkey
        exact he (hkey.1.symm.trans hexec)
      · exact fun _ _ _ => trivial

theorem wp_projectPage (page : List ExecutionRow) (total : ℕ) :
    wp (projector reread) {} (projectorSpec reread) (projectPage page total) (fun _ _ => True) s := by
  refine wp_foldlM (fun _ _ _ => True) (fun x _ total t _ _ => ?_) (fun _ _ _ _ _ _ _ => trivial)
    (fun _ _ _ _ => trivial) trivial
  apply wp_bind
  apply wp_attempt
  refine wp_mono (fun r u _ _ => ?_) wp_projectExecution
  cases r <;> exact fun _ _ _ => trivial

theorem wp_projectorTick (pages total offset : ℕ) :
    wp (projector reread) {} (projectorSpec reread) (tick total offset pages) (fun _ _ => True) s := by
  induction pages generalizing s total offset with
  | zero => exact fun _ _ _ => trivial
  | succ pages ih =>
    unfold tick
    apply wp_call
    intro t _ hi
    refine ⟨hi, fun _ => ?_, fun _ _ _ _ _ _ => trivial⟩
    change wp (projector reread) {} (projectorSpec reread) _ _ t
    apply wp_bind
    refine wp_mono (fun r u _ _ => ?_) (wp_projectPage _ total)
    cases r with
    | error _ => trivial
    | ok total =>
      simp only [ends]
      split
      · exact fun _ _ _ => trivial
      · exact ih _ _

theorem Projected.extends {db : Db} (h : Projected s)
    (hlog : ∀ e, (s.db.events e).Extends (db.events e)) : Projected { s with db := db } where
  rows e n := by
    rw [(hlog e).upTo_eq (h.checkpoint e)]
    exact h.rows e n
  checkpoint e := (h.checkpoint e).trans (hlog e).latest_le

theorem projector_sound : Sound (projector reread) {} (projectorSpec reread) where
  act a s hi _ := by
    cases a with
    | call op => exact ⟨hi.extends fun e => extends_exec op s.db e, rfl, rfl,
        fun e => extends_exec op s.db e⟩
    | setClock now => exact ⟨hi, (projectorSpec reread).rely_refl s⟩
  act_rest _ _ _ _ _ := trivial
  call _ _ _ hg _ := hg
  stop s hi _ := ⟨hi, trivial⟩
  job pages s _ _ _ := by
    apply wp_bind
    refine wp_mono (fun r u _ _ => ?_) (wp_projectorTick pages 0 0)
    cases r with
    | error _ => trivial
    | ok total => exact fun _ _ _ => trivial

/-- The rows are those of the log up to the checkpoint, whatever ticks there were, wherever they
stopped, and however the log has grown beside them. -/
theorem projected_run (db : Db) (ms : List (Move BackendError ServerAct ℕ)) :
    Projected ((atRest { db := db }).run (projector reread) ms).state := by
  have hstart : Projected { db := db } :=
    { rows := fun e n => by
        have hnone : (db.events e).upTo 0 = [] := List.filter_eq_nil_iff.mpr fun x hx => by
          simpa using ((db.events e).positive x hx).ne'
        simp [hnone, rowAfter]
      checkpoint := fun _ => Nat.zero_le _ }
  have hmeets : Meets (projector reread) {} (projectorSpec reread) (atRest { db := db }) :=
    ⟨hstart, trivial⟩
  exact (hmeets.run projector_sound (Rules.obeyed_default _ ms)).inv

end Runs

end JamJet
