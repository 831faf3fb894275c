import JamJet.AgentLimits

/-! Results reported for the admitted steps of one node.  The check counts the admissions and the
results after an item's own admission, so results that come out of the order of the admissions are
taken for one another. -/

namespace JamJet

open Approvals

def EventKind.isStepOf (node : NodeId) : EventKind → Bool
  | .agentStepAdmitted n .. => n = node
  | _ => false

def EventKind.isResultOf (node : NodeId) : EventKind → Bool
  | .nodeCompleted n _ | .nodeFailed n .. => n = node
  | _ => false

/-- The event admits a step as this work item. -/
def EventKind.admitsItem (item : ℕ) : EventKind → Bool
  | .agentStepAdmitted _ (some id) _ _ _ _ => id = item
  | _ => false

/-- What a work item's result is recorded as. -/
inductive StepResult
  | completed (result : NodeResult)
  | failed (error : String) (attempt : ℕ) (retryable : Bool)

def StepResult.kind (node : NodeId) : StepResult → EventKind
  | .completed result => .nodeCompleted node result
  | .failed error attempt retryable => .nodeFailed node error attempt retryable

/-- The log, the items in the order of their admissions, each with the items whose results had been
reported by then, and the items whose results have been reported, the latest first. -/
structure Steps where
  log : List Event := []
  admitted : List (ℕ × List ℕ) := []
  reported : List ℕ := []

inductive StepMove
  | admitStep (item : ℕ) (agents : List String) (toolCalls : ℕ)
      (approvalSequence : Option EventSequence) (createdAt : Instant)
  | report (item : ℕ) (result : StepResult)
  | other (kind : EventKind)

namespace Steps

def items (s : Steps) : List ℕ := s.admitted.map Prod.fst

def append (s : Steps) (kind : EventKind) : List Event := s.log ++ [⟨s.log.length + 1, kind⟩]

/-- A result is recorded if the check of the log lets it pass. -/
def step (node : NodeId) (s : Steps) : StepMove → Steps
  | .admitStep item agents toolCalls approvalSequence createdAt =>
      { s with
        log := s.append
          (.agentStepAdmitted node (some item) agents toolCalls approvalSequence createdAt)
        admitted := s.admitted ++ [(item, s.reported)] }
  | .report item result =>
      { s with
        log := if admittedOpen s.log item then s.append (result.kind node) else s.log
        reported := if item ∈ s.reported then s.reported else item :: s.reported }
  | .other kind => { s with log := s.append kind }

/-- Every item is admitted once, before its results; the other events are of other nodes. -/
def Valid (node : NodeId) (s : Steps) : StepMove → Prop
  | .admitStep item .. => ∀ e ∈ s.log, e.kind.admitsItem item = false
  | .report item _ => item ∈ s.items
  | .other kind => kind.isStepOf node = false ∧ kind.isResultOf node = false ∧
      ∀ item ∈ s.items, kind.admitsItem item = false

/-- The items reported by the time this one was admitted. -/
def reportedBefore (s : Steps) (item : ℕ) : List ℕ :=
  ((s.admitted.find? (·.1 = item)).map Prod.snd).getD []

/-- The items admitted before this one whose results came after its admission. -/
def overtaking (s : Steps) (item : ℕ) : ℕ :=
  ((s.admitted.takeWhile (·.1 ≠ item)).filter fun other =>
    other.1 ∈ s.reported ∧ other.1 ∉ s.reportedBefore item).length

/-- The items admitted after this one that have not reported yet. -/
def waiting (s : Steps) (item : ℕ) : ℕ :=
  ((s.admitted.dropWhile (·.1 ≠ item)).tail.filter fun other => other.1 ∉ s.reported).length

/-- A first result is not overtaken by more results than there are steps still waiting behind it,
and the log can be read; a further result is overtaken by as many. -/
def InTurn (s : Steps) (item : ℕ) : Prop :=
  if item ∈ s.reported then s.waiting item ≤ s.overtaking item
  else s.overtaking item ≤ s.waiting item ∧ hasUnreadableEvents s.log = false

/-- The first result is accepted, a further one is refused, and for an accepted one the ledger has
an open step. -/
structure AcceptedOnce (node : NodeId) (s : Steps) (item : ℕ) : Prop where
  accepted : admittedOpen s.log item = true ↔ item ∉ s.reported
  charged : admittedOpen s.log item = true →
    ∃ ledger, Ledger.applySegment {} s.log = some ledger ∧ ledger.opened node ≠ []

/-- Every report of the run has the property, in the state it is made in. -/
def EveryReport (node : NodeId) (p : Steps → ℕ → Prop) : Steps → List StepMove → Prop
  | _, [] => True
  | s, m :: ms => (∀ item result, m = .report item result → p s item) ∧
      EveryReport node p (s.step node m) ms

def ValidRun (node : NodeId) : Steps → List StepMove → Prop
  | _, [] => True
  | s, m :: ms => s.Valid node m ∧ ValidRun node (s.step node m) ms

end Steps

/-! The check of one item -/

def openedAfter (node : NodeId) (events : List Event) : ℕ :=
  (events.filter fun e => e.kind.isStepOf node).length

def endedAfter (node : NodeId) (events : List Event) : ℕ :=
  (events.filter fun e => e.kind.isResultOf node).length

theorem fromLast_append {α : Type} {p : α → Bool} {before after : List α} {x : α} (hx : p x = true)
    (hafter : ∀ y ∈ after, p y = false) : fromLast p (before ++ x :: after) = some (x :: after) := by
  have hnone : fromLast p after = none := by
    induction after with
    | nil => rfl
    | cons y ys ih =>
      rw [fromLast, ih fun z hz => hafter z (List.mem_cons_of_mem y hz),
        hafter y List.mem_cons_self]
      rfl
  induction before with
  | nil =>
    rw [List.nil_append, fromLast, hnone, if_pos hx]
    rfl
  | cons y ys ih =>
    rw [List.cons_append, fromLast, ih]
    rfl

theorem admittedOpen_eq {node : NodeId} {item : ℕ} {before after : List Event} {admission : Event}
    (hnode : admission.kind.isStepOf node = true) (hitem : admission.kind.admitsItem item = true)
    (hafter : ∀ e ∈ after, e.kind.admitsItem item = false) :
    admittedOpen (before ++ admission :: after) item =
      decide (endedAfter node after < 1 + openedAfter node after) := by
  obtain ⟨sequence, kind⟩ := admission
  cases kind with
  | agentStepAdmitted n id agents toolCalls approval createdAt =>
    have hn : n = node := of_decide_eq_true hnode
    subst hn
    unfold admittedOpen
    rw [fromLast_append]
    · rfl
    · cases id with
      | none => cases hitem
      | some id => exact hitem
    · exact hafter
  | _ => cases hnode

/-! What the log holds of the items -/

namespace Steps

/-- What is known of one item: its admission in the log, and the admissions and the results that
follow it. -/
structure Entry (node : NodeId) (s : Steps) (before : List (ℕ × List ℕ)) (item : ℕ)
    (seen : List ℕ) (after : List (ℕ × List ℕ)) : Prop where
  log : ∃ earlier admission later, s.log = earlier ++ admission :: later ∧
    admission.kind.isStepOf node = true ∧ admission.kind.admitsItem item = true ∧
    (∀ e ∈ later, e.kind.admitsItem item = false) ∧ openedAfter node later = after.length ∧
    endedAfter node later + seen.length = s.reported.length
  fresh : ∃ fresh, s.reported = fresh ++ seen
  seen_before : ∀ y ∈ seen, y ∈ before.map Prod.fst

/-- The log records the admissions of the items and, of each reported item, one result. -/
structure Inv (node : NodeId) (s : Steps) : Prop where
  items_nodup : s.items.Nodup
  reported_nodup : s.reported.Nodup
  reported_items : ∀ y ∈ s.reported, y ∈ s.items
  entry : ∀ before item seen after, s.admitted = before ++ (item, seen) :: after →
    Entry node s before item seen after

variable {node : NodeId} {s : Steps} {item : ℕ}

theorem inv_empty : Inv node {} where
  items_nodup := List.nodup_nil
  reported_nodup := List.nodup_nil
  reported_items := by simp
  entry := by simp

theorem split_items (h : item ∈ s.items) :
    ∃ before seen after, s.admitted = before ++ (item, seen) :: after := by
  obtain ⟨entry, hentry, rfl⟩ := List.mem_map.mp h
  obtain ⟨before, after, heq⟩ := List.append_of_mem hentry
  exact ⟨before, entry.2, after, heq⟩

theorem Inv.admitted_in_log (hs : Inv node s) (h : item ∈ s.items) :
    ∃ e ∈ s.log, e.kind.admitsItem item = true := by
  obtain ⟨before, seen, after, heq⟩ := split_items h
  obtain ⟨earlier, admission, later, hlog, -, hitem, -⟩ := (hs.entry before item seen after heq).log
  exact ⟨admission, by simp [hlog], hitem⟩

theorem openedAfter_append (events : List Event) (e : Event) :
    openedAfter node (events ++ [e]) =
      openedAfter node events + if e.kind.isStepOf node then 1 else 0 := by
  unfold openedAfter
  cases h : e.kind.isStepOf node <;> simp [h]

theorem endedAfter_append (events : List Event) (e : Event) :
    endedAfter node (events ++ [e]) =
      endedAfter node events + if e.kind.isResultOf node then 1 else 0 := by
  unfold endedAfter
  cases h : e.kind.isResultOf node <;> simp [h]

theorem Entry.append {before after : List (ℕ × List ℕ)} {seen : List ℕ} {kind : EventKind}
    (h : Entry node s before item seen after) (hkind : kind.admitsItem item = false)
    {after' : List (ℕ × List ℕ)} {s' : Steps} (hlog : s'.log = s.append kind)
    (hopened : after'.length = after.length + if kind.isStepOf node then 1 else 0)
    (hreported : s'.reported.length =
      s.reported.length + if kind.isResultOf node then 1 else 0)
    (hfresh : ∃ fresh, s'.reported = fresh ++ s.reported) :
    Entry node s' before item seen after' := by
  obtain ⟨earlier, admission, later, heq, hnode, hitem, hlater, hopen, hended⟩ := h.log
  refine ⟨⟨earlier, admission, later ++ [⟨s.log.length + 1, kind⟩], ?_, hnode, hitem, ?_, ?_, ?_⟩,
    ?_, h.seen_before⟩
  · rw [hlog, Steps.append, heq]
    simp
  · intro e he
    rcases List.mem_append.mp he with he | he
    · exact hlater e he
    · rw [List.mem_singleton] at he
      subst he
      exact hkind
  · rw [openedAfter_append, hopen, hopened]
  · rw [endedAfter_append, hreported]
    dsimp only
    omega
  · obtain ⟨new, hnew⟩ := hfresh
    obtain ⟨fresh, heq⟩ := h.fresh
    exact ⟨new ++ fresh, by rw [hnew, heq, List.append_assoc]⟩

theorem Inv.other (hs : Inv node s) {kind : EventKind} (h : s.Valid node (.other kind)) :
    Inv node (s.step node (.other kind)) := by
  obtain ⟨hstep, hresult, hitems⟩ := h
  refine ⟨hs.items_nodup, hs.reported_nodup, hs.reported_items, ?_⟩
  intro before item seen after heq
  have hmem : item ∈ s.items := List.mem_map.mpr ⟨(item, seen), by
    rw [show s.admitted = _ from heq]
    simp, rfl⟩
  apply (hs.entry before item seen after heq).append (hitems item hmem) rfl
  · simp [hstep]
  · simp [step, hresult]
  · exact ⟨[], rfl⟩

/-- A new item comes last. -/
theorem Inv.admitStep (hs : Inv node s) {agents : List String} {toolCalls : ℕ}
    {approval : Option EventSequence} {createdAt : Instant}
    (h : s.Valid node (.admitStep item agents toolCalls approval createdAt)) :
    Inv node (s.step node (.admitStep item agents toolCalls approval createdAt)) := by
  have hnew : item ∉ s.items := by
    intro hmem
    obtain ⟨e, he, hadmits⟩ := hs.admitted_in_log hmem
    rw [h e he] at hadmits
    cases hadmits
  have hitems : (s.step node (.admitStep item agents toolCalls approval createdAt)).items =
      s.items ++ [item] := by
    simp [items, step]
  refine ⟨?_, hs.reported_nodup, ?_, ?_⟩
  · rw [hitems, List.nodup_append]
    refine ⟨hs.items_nodup, List.nodup_singleton _, ?_⟩
    intro x hx y hy heq
    rw [List.mem_singleton] at hy
    subst hy
    subst heq
    exact hnew hx
  · intro y hy
    rw [hitems]
    exact List.mem_append_left _ (hs.reported_items y hy)
  · intro before x seen after heq
    have heq : s.admitted ++ [(item, s.reported)] = before ++ (x, seen) :: after := heq
    rcases List.eq_nil_or_concat after with rfl | ⟨after, last, rfl⟩
    · obtain ⟨hbefore, hlast⟩ := List.append_inj' heq rfl
      subst hbefore
      cases hlast
      refine ⟨⟨s.log, ⟨s.log.length + 1, _⟩, [], rfl, ?_, ?_, by simp, rfl, ?_⟩, ⟨[], rfl⟩, ?_⟩
      · exact decide_eq_true rfl
      · exact decide_eq_true rfl
      · exact Nat.zero_add _
      · exact hs.reported_items
    · rw [List.concat_eq_append, ← List.cons_append, ← List.append_assoc] at heq
      obtain ⟨hadmitted, hlast⟩ := List.append_inj' heq rfl
      have hx : x ∈ s.items := List.mem_map.mpr ⟨(x, seen), by
        rw [hadmitted]
        simp, rfl⟩
      have hne : item ≠ x := fun heq => hnew (heq ▸ hx)
      have hadmits : (EventKind.agentStepAdmitted node (some item) agents toolCalls approval
          createdAt).admitsItem x = false := decide_eq_false hne
      apply (hs.entry before x seen after hadmitted).append hadmits rfl
      · simp [EventKind.isStepOf]
      · simp [step, EventKind.isResultOf]
      · exact ⟨[], rfl⟩

theorem isResultOf_kind (result : StepResult) : (result.kind node).isResultOf node = true := by
  cases result <;> exact decide_eq_true rfl

theorem isStepOf_kind (result : StepResult) : (result.kind node).isStepOf node = false := by
  cases result <;> rfl

theorem admitsItem_kind (result : StepResult) : (result.kind node).admitsItem item = false := by
  cases result <;> rfl

theorem Inv.report (hs : Inv node s) {result : StepResult} (h : item ∈ s.items)
    (haccepted : admittedOpen s.log item = true ↔ item ∉ s.reported) :
    Inv node (s.step node (.report item result)) := by
  by_cases hrep : item ∈ s.reported
  · have hrefused : admittedOpen s.log item = false := by
      rw [← Bool.not_eq_true, haccepted]
      exact not_not_intro hrep
    have hsame : s.step node (.report item result) = s := by
      simp [step, hrefused, hrep]
    rw [hsame]
    exact hs
  · have hopen : admittedOpen s.log item = true := haccepted.mpr hrep
    have hreported : (s.step node (.report item result)).reported = item :: s.reported := by
      simp [step, hrep]
    have hlog : (s.step node (.report item result)).log = s.append (result.kind node) := by
      simp [step, hopen]
    refine ⟨hs.items_nodup, ?_, ?_, ?_⟩
    · rw [hreported]
      exact List.nodup_cons.mpr ⟨hrep, hs.reported_nodup⟩
    · intro y hy
      rw [hreported] at hy
      rcases List.mem_cons.mp hy with rfl | hy
      · exact h
      · exact hs.reported_items y hy
    · intro before x seen after heq
      apply (hs.entry before x seen after heq).append (admitsItem_kind result) hlog
      · simp [isStepOf_kind]
      · simp [hreported, isResultOf_kind]
      · exact ⟨[item], hreported⟩

/-! The counts -/

theorem length_filter_mem {xs ys : List ℕ} (hxs : xs.Nodup) (hys : ys.Nodup)
    (hsub : ∀ x ∈ xs, x ∈ ys) : (ys.filter (· ∈ xs)).length = xs.length := by
  apply List.Perm.length_eq
  rw [List.perm_ext_iff_of_nodup (hys.filter _) hxs]
  intro x
  simp only [List.mem_filter, decide_eq_true_eq]
  exact ⟨fun h => h.2, fun h => ⟨hsub x h, h⟩⟩

theorem counts_eq (hs : s.items.Nodup) {before after : List (ℕ × List ℕ)} {seen : List ℕ}
    (heq : s.admitted = before ++ (item, seen) :: after) :
    s.overtaking item =
        (before.filter fun other => other.1 ∈ s.reported ∧ other.1 ∉ seen).length ∧
      s.waiting item = (after.filter fun other => other.1 ∉ s.reported).length := by
  have hne : ∀ entry ∈ before, (decide (entry.1 ≠ item)) = true := by
    intro entry hentry
    apply decide_eq_true
    intro hitem
    have hnodup := hs
    rw [items, heq, List.map_append, List.nodup_append] at hnodup
    exact hnodup.2.2 entry.1 (List.mem_map_of_mem hentry) item (by simp) hitem
  have hfind : s.admitted.find? (·.1 = item) = some (item, seen) := by
    rw [heq, List.find?_append, List.find?_eq_none.mpr]
    · simp
    · intro entry hentry
      simpa using hne entry hentry
  have htake : s.admitted.takeWhile (·.1 ≠ item) = before := by
    rw [heq, List.takeWhile_append_of_pos hne]
    simp
  have hdrop : s.admitted.dropWhile (·.1 ≠ item) = (item, seen) :: after := by
    rw [heq, List.dropWhile_append_of_pos hne]
    simp
  unfold overtaking waiting reportedBefore
  rw [htake, hdrop, hfind]
  exact ⟨rfl, rfl⟩

/-- The results that followed an item's admission: those that overtook it, its own, and those of
the items behind it that have reported. -/
theorem endedAfter_eq (hs : Inv node s) {before after : List (ℕ × List ℕ)} {seen fresh : List ℕ}
    (heq : s.admitted = before ++ (item, seen) :: after) (hfresh : s.reported = fresh ++ seen)
    (hseen : ∀ y ∈ seen, y ∈ before.map Prod.fst) :
    fresh.length + s.waiting item =
      s.overtaking item + (if item ∈ s.reported then 1 else 0) + after.length := by
  have hitems : s.items = before.map Prod.fst ++ item :: after.map Prod.fst := by
    rw [items, heq, List.map_append, List.map_cons]
  have hnodup := hs.items_nodup
  rw [hitems, List.nodup_append] at hnodup
  obtain ⟨-, hrest, hdisjoint⟩ := hnodup
  have hreported := hs.reported_nodup
  rw [hfresh, List.nodup_append] at hreported
  have hmem : ∀ y, y ∈ fresh ↔ y ∈ s.reported ∧ y ∉ seen := by
    intro y
    rw [hfresh, List.mem_append]
    constructor
    · intro hy
      exact ⟨Or.inl hy, fun hy' => hreported.2.2 y hy y hy' rfl⟩
    · intro hy
      exact hy.1.resolve_right hy.2
  have hnotseen : ∀ y, y = item ∨ y ∈ after.map Prod.fst → y ∉ seen := by
    intro y hy hy'
    exact hdisjoint y (hseen y hy') y (List.mem_cons.mpr hy) rfl
  have hcount : (s.items.filter (· ∈ fresh)).length = fresh.length := by
    apply length_filter_mem hreported.1 hs.items_nodup
    intro y hy
    exact hs.reported_items y ((hmem y).mp hy).1
  have hbefore : ((before.map Prod.fst).filter (· ∈ fresh)).length = s.overtaking item := by
    rw [(counts_eq hs.items_nodup heq).1, List.filter_map, List.length_map]
    simp only [Function.comp_def, hmem]
  have hitem : ([item].filter (· ∈ fresh)).length = if item ∈ s.reported then 1 else 0 := by
    have hiff : item ∈ fresh ↔ item ∈ s.reported := by
      rw [hmem]
      exact and_iff_left (hnotseen item (Or.inl rfl))
    by_cases hrep : item ∈ s.reported
    · simp [hiff, hrep]
    · simp [hiff, hrep]
  have hafter : ((after.map Prod.fst).filter (· ∈ fresh)).length + s.waiting item =
      after.length := by
    have hsplit := List.length_eq_length_filter_add (l := after) fun other =>
      decide (other.1 ∈ s.reported)
    rw [(counts_eq hs.items_nodup heq).2, List.filter_map, List.length_map, hsplit]
    congr 1
    · congr 1
      apply List.filter_congr
      intro other hother
      have hnot := hnotseen other.1 (Or.inr (List.mem_map_of_mem hother))
      simp [hmem, hnot]
    · simp
  have hsplit : (s.items.filter (· ∈ fresh)).length =
      ((before.map Prod.fst).filter (· ∈ fresh)).length + ([item].filter (· ∈ fresh)).length +
        ((after.map Prod.fst).filter (· ∈ fresh)).length := by
    rw [hitems, List.filter_append, List.length_append, ← List.singleton_append,
      List.filter_append, List.length_append, Nat.add_assoc]
  omega

/-- The check lets a result pass if fewer results have overtaken the item, its own among them, than
there are steps not answered from it on. -/
theorem admittedOpen_iff (hs : Inv node s) (h : item ∈ s.items) :
    admittedOpen s.log item = true ↔
      s.overtaking item + (if item ∈ s.reported then 1 else 0) < 1 + s.waiting item := by
  obtain ⟨before, seen, after, heq⟩ := split_items h
  have hentry := hs.entry before item seen after heq
  obtain ⟨earlier, admission, later, hlog, hnode, hitem, hlater, hopen, hended⟩ := hentry.log
  obtain ⟨fresh, hfresh⟩ := hentry.fresh
  have hcount := endedAfter_eq hs heq hfresh hentry.seen_before
  have hlength := congrArg List.length hfresh
  rw [List.length_append] at hlength
  rw [hlog, admittedOpen_eq hnode hitem hlater, decide_eq_true_eq, hopen]
  omega

/-! The ledger -/

theorem opened_charge (ledger : Ledger) (names : List String) (f : Spent → Spent) :
    (ledger.charge names f).opened = ledger.opened := rfl

theorem opened_endStep (node : NodeId) (ledger : Ledger) (n : NodeId) (f : Spent → Spent) :
    (ledger.opened node).length ≤
      ((ledger.endStep n f).opened node).length + if n = node then 1 else 0 := by
  unfold Ledger.endStep
  cases hopened : ledger.opened n with
  | nil => exact Nat.le_add_right _ _
  | cons names rest =>
    dsimp only
    rw [opened_charge]
    dsimp only
    by_cases hn : n = node
    · subst hn
      rw [Function.update_self, hopened, if_pos rfl]
      rfl
    · rw [Function.update_of_ne (Ne.symm hn)]
      exact Nat.le_add_right _ _

theorem apply_opened (node : NodeId) (ledger : Ledger) {e : Event} (he : e.kind ≠ .unknown) :
    ∃ ledger', ledger.apply e = some ledger' ∧
      (ledger.opened node).length + (if e.kind.isStepOf node then 1 else 0) ≤
        (ledger'.opened node).length + if e.kind.isResultOf node then 1 else 0 := by
  obtain ⟨sequence, kind⟩ := e
  cases kind with
  | unknown => exact absurd rfl he
  | agentStepAdmitted n id agents toolCalls approval createdAt =>
    refine ⟨_, rfl, ?_⟩
    by_cases hn : n = node
    · subst hn
      simp [EventKind.isStepOf, EventKind.isResultOf]
    · simp [EventKind.isStepOf, EventKind.isResultOf, hn, Ne.symm hn]
  | nodeCompleted n result =>
    refine ⟨_, rfl, ?_⟩
    simpa [EventKind.isStepOf, EventKind.isResultOf] using
      opened_endStep node ledger n (·.completeStep result)
  | nodeFailed n error attempt retryable =>
    refine ⟨_, rfl, ?_⟩
    simpa [EventKind.isStepOf, EventKind.isResultOf] using
      opened_endStep node ledger n (·.failStep)
  | _ => exact ⟨ledger, rfl, by simp [EventKind.isStepOf, EventKind.isResultOf]⟩

theorem openedAfter_cons (e : Event) (events : List Event) :
    openedAfter node (e :: events) =
      (if e.kind.isStepOf node then 1 else 0) + openedAfter node events := by
  unfold openedAfter
  cases h : e.kind.isStepOf node <;> simp [h, Nat.add_comm]

theorem endedAfter_cons (e : Event) (events : List Event) :
    endedAfter node (e :: events) =
      (if e.kind.isResultOf node then 1 else 0) + endedAfter node events := by
  unfold endedAfter
  cases h : e.kind.isResultOf node <;> simp [h, Nat.add_comm]

theorem foldl_opened (node : NodeId) {events : List Event}
    (hread : ∀ e ∈ events, e.kind ≠ .unknown) (ledger : Ledger) :
    ∃ ledger', events.foldlM Ledger.apply ledger = some ledger' ∧
      (ledger.opened node).length + openedAfter node events ≤
        (ledger'.opened node).length + endedAfter node events := by
  induction events generalizing ledger with
  | nil => exact ⟨ledger, rfl, Nat.le_refl _⟩
  | cons e events ih =>
    obtain ⟨ledger₁, happly, hle⟩ := apply_opened node ledger (hread e (by simp))
    obtain ⟨ledger₂, hfold, hle'⟩ := ih (fun e' he' => hread e' (by simp [he'])) ledger₁
    refine ⟨ledger₂, by rw [List.foldlM_cons, happly]; exact hfold, ?_⟩
    rw [openedAfter_cons, endedAfter_cons]
    omega

theorem readable_of_fold {events : List Event} {ledger ledger' : Ledger}
    (h : events.foldlM Ledger.apply ledger = some ledger') : ∀ e ∈ events, e.kind ≠ .unknown := by
  induction events generalizing ledger with
  | nil => simp
  | cons e events ih =>
    rw [List.foldlM_cons] at h
    cases happly : ledger.apply e with
    | none =>
      rw [happly] at h
      cases h
    | some ledger₁ =>
      rw [happly] at h
      intro e' he'
      rcases List.mem_cons.mp he' with rfl | he'
      · intro hunknown
        rw [Ledger.apply, hunknown] at happly
        cases happly
      · exact ih h e' he'

theorem readable_iff {events : List Event} :
    hasUnreadableEvents events = false ↔ ∀ e ∈ events, e.kind ≠ .unknown := by
  unfold hasUnreadableEvents
  rw [List.any_eq_false]
  refine forall₂_congr fun e _ => ?_
  cases e.kind <;> simp

theorem ledger_open_iff (hs : Inv node s) (h : item ∈ s.items)
    (hopen : admittedOpen s.log item = true) :
    (∃ ledger, Ledger.applySegment {} s.log = some ledger ∧ ledger.opened node ≠ []) ↔
      hasUnreadableEvents s.log = false := by
  rw [readable_iff]
  constructor
  · intro h
    obtain ⟨ledger, hfold, -⟩ := h
    exact readable_of_fold hfold
  · intro hread
    obtain ⟨before, seen, after, heq⟩ := split_items h
    obtain ⟨earlier, admission, later, hlog, hnode, hitem, hlater, -⟩ :=
      (hs.entry before item seen after heq).log
    rw [hlog, admittedOpen_eq hnode hitem hlater, decide_eq_true_eq] at hopen
    rw [hlog] at hread ⊢
    obtain ⟨ledger₁, hfold₁, -⟩ := foldl_opened node (fun e he => hread e (List.mem_append_left _ he))
      { ({} : Ledger) with opened := fun _ => [] }
    obtain ⟨ledger₂, hfold₂, hle⟩ := foldl_opened node (fun e he => hread e (List.mem_append_right _ he))
      ledger₁
    refine ⟨ledger₂, ?_, ?_⟩
    · rw [Ledger.applySegment, List.foldlM_append, hfold₁]
      exact hfold₂
    · intro hnil
      have hresult : admission.kind.isResultOf node = false := by
        cases hkind : admission.kind <;> simp_all [EventKind.isStepOf, EventKind.isResultOf]
      rw [openedAfter_cons, endedAfter_cons, hnode, hresult, hnil, List.length_nil] at hle
      simp only [if_true, Bool.false_eq_true, if_false] at hle
      omega

theorem acceptedOnce_iff (hs : Inv node s) (h : item ∈ s.items) :
    AcceptedOnce node s item ↔ s.InTurn item := by
  have hopen := admittedOpen_iff hs h
  have hledger := ledger_open_iff hs h
  unfold InTurn
  by_cases hrep : item ∈ s.reported
  · rw [if_pos hrep] at hopen ⊢
    constructor
    · intro haccepted
      have hrefused : ¬ admittedOpen s.log item = true := fun hyes =>
        haccepted.accepted.mp hyes hrep
      rw [hopen] at hrefused
      omega
    · intro hle
      have hrefused : ¬ admittedOpen s.log item = true := by
        rw [hopen]
        omega
      exact ⟨⟨fun hyes => absurd hyes hrefused, fun hno => absurd hrep hno⟩,
        fun hyes => absurd hyes hrefused⟩
  · rw [if_neg hrep] at hopen ⊢
    constructor
    · intro haccepted
      have hyes := haccepted.accepted.mpr hrep
      refine ⟨?_, (hledger hyes).mp (haccepted.charged hyes)⟩
      rw [hopen] at hyes
      omega
    · intro hturn
      have hyes : admittedOpen s.log item = true := by
        rw [hopen]
        omega
      exact ⟨⟨fun _ => hrep, fun _ => hyes⟩, fun _ => (hledger hyes).mpr hturn.2⟩

/-- The runs in which every first result is accepted, every further one is refused, and every
accepted one has a step to be charged to, are those whose reports all come in turn. -/
theorem results_accepted_once_iff {ms : List StepMove} (hvalid : ValidRun node {} ms) :
    EveryReport node (AcceptedOnce node) {} ms ↔ EveryReport node InTurn {} ms := by
  have hrun : ∀ (ms : List StepMove) (s : Steps), Inv node s → ValidRun node s ms →
      (EveryReport node (AcceptedOnce node) s ms ↔ EveryReport node InTurn s ms) := by
    intro ms
    induction ms with
    | nil => exact fun _ _ _ => Iff.rfl
    | cons m ms ih =>
      intro s hs hvalid
      obtain ⟨hm, hms⟩ := hvalid
      unfold EveryReport
      cases m with
      | admitStep item agents toolCalls approval createdAt =>
        rw [ih _ (hs.admitStep hm) hms]
        simp
      | other kind =>
        rw [ih _ (hs.other hm) hms]
        simp
      | report item result =>
        have hiff := acceptedOnce_iff hs hm
        constructor
        · intro h
          have hnow := h.1 item result rfl
          refine ⟨?_, (ih _ (hs.report hm hnow.accepted) hms).mp h.2⟩
          intro item' result' heq
          cases heq
          exact hiff.mp hnow
        · intro h
          have hnow := hiff.mpr (h.1 item result rfl)
          refine ⟨?_, (ih _ (hs.report hm hnow.accepted) hms).mpr h.2⟩
          intro item' result' heq
          cases heq
          exact hnow
  exact hrun ms {} inv_empty hvalid

/-- Two steps, and these reports of their items. -/
def twoSteps (reports : List ℕ) : List StepMove :=
  .admitStep 1 ["bot"] 0 none 0 :: .admitStep 2 ["bot"] 0 none 0 ::
    reports.map fun item => .report item (.failed "boom" 0 true)

theorem valid_twoSteps {reports : List ℕ} (h : ∀ item ∈ reports, item = 1 ∨ item = 2) :
    ValidRun "a" {} (twoSteps reports) := by
  refine ⟨by simp [Valid], by simp [Valid, step, append, EventKind.admitsItem], ?_⟩
  have hreports : ∀ s : Steps, s.items = [1, 2] → ValidRun "a" s
      (reports.map fun item => .report item (.failed "boom" 0 true)) := by
    induction reports with
    | nil => exact fun _ _ => trivial
    | cons item rest ih =>
      intro s hs
      refine ⟨?_, ih (fun item' h' => h item' (List.mem_cons_of_mem item h')) _ hs⟩
      rcases h item List.mem_cons_self with rfl | rfl <;> simp [Valid, hs]
  exact hreports _ rfl

/-- The later step's result comes first. -/
theorem results_accepted_once_backwards :
    EveryReport "a" (AcceptedOnce "a") {} (twoSteps [2, 1]) ↔
      EveryReport "a" InTurn {} (twoSteps [2, 1]) :=
  results_accepted_once_iff (valid_twoSteps (by simp))

/-- The earlier step's result comes first: the later step's is refused, and the earlier step's is
accepted again. -/
theorem results_taken_for_one_another :
    let s := (twoSteps [1]).foldl (step "a") {}
    ValidRun "a" {} (twoSteps [1, 2, 1]) ∧
      2 ∉ s.reported ∧ admittedOpen s.log 2 = false ∧
      1 ∈ s.reported ∧ admittedOpen s.log 1 = true ∧
      ¬ EveryReport "a" (AcceptedOnce "a") {} (twoSteps [1, 2, 1]) := by
  intro s
  have hnew : 2 ∉ s.reported := by decide
  have hrefused : admittedOpen s.log 2 = false := by decide
  refine ⟨valid_twoSteps (by simp), hnew, hrefused, by decide, by decide, ?_⟩
  intro h
  have hyes := (h.2.2.2.1 2 _ rfl).accepted.mpr hnew
  exact absurd (hyes.symm.trans hrefused) (by decide)

end Steps
end JamJet
