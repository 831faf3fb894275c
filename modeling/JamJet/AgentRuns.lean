import JamJet.AgentLimits
import JamJet.ApprovalBinding
import JamJet.Snapshots
import Mathlib.Data.List.Infix
import Mathlib.Data.List.Perm.Subperm

/-! An agent's limits over every run: any number of guard calls, interleaved in any way with each
other and with everything else that happens to the run's segments. -/

namespace JamJet

open AtomicCalls Approvals Policy

/-- A step the guard admitted for an agent, as the log holds it. -/
structure AdmittedStep where
  toolCalls : ℕ
  approval : Option EventSequence
  deriving DecidableEq, Repr

def EventKind.isStep : EventKind → Bool
  | .agentStepAdmitted .. => true
  | _ => false

/-- The step an event admits for an agent. -/
def stepOf (agent : String) (event : Event) : Option AdmittedStep :=
  match event.kind with
  | .agentStepAdmitted _ _ names toolCalls approval _ =>
      if agent ∈ names then some ⟨toolCalls, approval⟩ else none
  | _ => none

/-- The approval an admitted step was released by. -/
def approvalOf (event : Event) : Option EventSequence :=
  match event.kind with
  | .agentStepAdmitted _ _ _ _ approval _ => approval
  | _ => none

/-- The steps a log holds for an agent, oldest first. -/
def stepsOf (agent : String) (events : List Event) : List AdmittedStep :=
  events.filterMap (stepOf agent)

def callsOf (steps : List AdmittedStep) : ℕ := (steps.map (·.toolCalls)).sum

/-- The approvals the steps of a log were released by. -/
def usedApprovals (events : List Event) : List EventSequence := events.filterMap approvalOf

/-- The request a node's approval answered. -/
def releasedRequest [Chrono] (events : List Event) (node : NodeId) : Option EventSequence :=
  match nodeApprovalStatus events node with
  | .approved .. => (answeredRequest events node).map (·.sequence)
  | _ => none

/-- The requests of a log that show a reviewer an agent's limit and that were approved, at the end
of the log or earlier. -/
def approvedEscalations [Chrono] (events : List Event) : List EventSequence :=
  events.filterMap fun x => match x.kind with
    | .toolApprovalRequired node _ _ context =>
        if (context.get escalationKey).isSome ∧
            ∃ before ∈ events.inits, releasedRequest before node = some x.sequence then
          some x.sequence
        else none
    | _ => none

namespace AutonomyConstraints

/-- A step takes the agent past its limit of steps or of tool calls, after the steps before it. -/
def past (card : AutonomyConstraints) (before : List AdmittedStep) (step : AdmittedStep) : Bool :=
  card.maxIterations.any (fun max => max.toNat ≤ before.length) ||
    card.maxToolCalls.any fun max =>
      0 < step.toolCalls && max.toNat < callsOf before + step.toolCalls

/-- The steps that took the agent past a limit. -/
def pastSteps (card : AutonomyConstraints) (before : List AdmittedStep) :
    List AdmittedStep → List AdmittedStep
  | [] => []
  | step :: rest =>
      if card.past before step then step :: card.pastSteps (before ++ [step]) rest
      else card.pastSteps (before ++ [step]) rest

theorem pastSteps_concat (card : AutonomyConstraints) (steps before : List AdmittedStep)
    (step : AdmittedStep) :
    card.pastSteps before (steps ++ [step]) = card.pastSteps before steps ++
      if card.past (before ++ steps) step then [step] else [] := by
  induction steps generalizing before with
  | nil => simp [pastSteps]
  | cons first rest ih =>
    simp only [List.cons_append, pastSteps, ih, List.append_assoc, List.nil_append]
    split <;> simp

theorem pastSteps_subset (card : AutonomyConstraints) (steps before : List AdmittedStep) :
    (card.pastSteps before steps).Sublist steps := by
  induction steps generalizing before with
  | nil => simp [pastSteps]
  | cons first rest ih =>
    simp only [pastSteps]
    split
    · exact (ih _).cons_cons first
    · exact (ih _).cons first

theorem within_of_pastSteps {card : AutonomyConstraints} {steps : List AdmittedStep}
    (h : card.pastSteps [] steps = []) :
    (∀ max, card.maxIterations = some max → steps.length ≤ max.toNat) ∧
      ∀ max, card.maxToolCalls = some max → callsOf steps ≤ max.toNat := by
  induction steps using List.reverseRecOn with
  | nil => simp [callsOf]
  | append_singleton steps step ih =>
    rw [pastSteps_concat, List.append_eq_nil_iff] at h
    obtain ⟨hsteps, hstep⟩ := h
    have hpast : card.past steps step = false := by simpa using hstep
    simp only [past, Bool.or_eq_false_iff] at hpast
    obtain ⟨ihsteps, ihcalls⟩ := ih hsteps
    constructor
    · intro max hmax
      have hlt : steps.length < max.toNat := by simpa [hmax] using hpast.1
      simpa [Nat.succ_le_iff] using hlt
    · intro max hmax
      have hle := ihcalls max hmax
      have hcalls : 0 < step.toolCalls → callsOf steps + step.toolCalls ≤ max.toNat := by
        simpa [hmax] using hpast.2
      simp only [callsOf, List.map_append, List.sum_append, List.map_cons, List.map_nil,
        List.sum_cons, List.sum_nil] at hle hcalls ⊢
      omega

end AutonomyConstraints

section Ledger

variable {agent : String} {l l' : Ledger}

/-- The ledger counts exactly these steps of an agent, up to the largest counter. -/
structure Ledger.Counts (l : Ledger) (agent : String) (steps : List AdmittedStep) : Prop where
  iterations : (l.agents agent).iterations = min steps.length (2 ^ 64 - 1)
  toolCalls : (l.agents agent).toolCalls = min (callsOf steps) (2 ^ 64 - 1)

theorem Ledger.charge_agents {names : List String} (hnames : names.Nodup) (f : Spent → Spent)
    (l : Ledger) (agent : String) : (l.charge names f).agents agent =
      if agent ∈ names then f (l.agents agent) else l.agents agent := by
  simp only [Ledger.charge]
  generalize l.agents = m
  induction names generalizing m with
  | nil => simp
  | cons name names ih =>
    obtain ⟨hname, hrest⟩ := List.nodup_cons.mp hnames
    rw [List.foldl_cons, ih hrest]
    by_cases h : agent = name
    · subst h
      simp [hname]
    · simp [h]

theorem Ledger.Counts.charge {steps : List AdmittedStep} (h : l.Counts agent steps)
    {f : Spent → Spent}
    (hf : ∀ s, (f s).iterations = s.iterations ∧ (f s).toolCalls = s.toolCalls)
    (names : List String) : (l.charge names f).Counts agent steps := by
  obtain ⟨hi, ht⟩ := h
  suffices hkept : ∀ m : String → Spent,
      (names.foldl (fun m a => Function.update m a (f (m a))) m agent).iterations =
          (m agent).iterations ∧
        (names.foldl (fun m a => Function.update m a (f (m a))) m agent).toolCalls =
          (m agent).toolCalls by
    exact ⟨(hkept l.agents).1.trans hi, (hkept l.agents).2.trans ht⟩
  intro m
  induction names generalizing m with
  | nil => exact ⟨rfl, rfl⟩
  | cons name names ih =>
    obtain ⟨ihi, iht⟩ := ih (Function.update m name (f (m name)))
    rw [List.foldl_cons, ihi, iht]
    by_cases ha : agent = name
    · subst ha
      simpa using hf (m agent)
    · simp [ha]

theorem Ledger.Counts.endStep {steps : List AdmittedStep} (h : l.Counts agent steps)
    {f : Spent → Spent}
    (hf : ∀ s, (f s).iterations = s.iterations ∧ (f s).toolCalls = s.toolCalls) (node : NodeId) :
    (l.endStep node f).Counts agent steps := by
  unfold Ledger.endStep
  split
  · exact h
  · rename_i names rest _
    have hrest : Ledger.Counts { l with opened := Function.update l.opened node rest } agent steps :=
      ⟨h.iterations, h.toolCalls⟩
    exact hrest.charge hf names

/-- The agents of an admitted step are listed once each. -/
def NamesOnce (event : Event) : Prop :=
  ∀ node item names toolCalls approval createdAt,
    event.kind = .agentStepAdmitted node item names toolCalls approval createdAt → names.Nodup

theorem saturating_min (width n k : ℕ) :
    saturatingAdd width (min n (2 ^ width - 1)) k = min (n + k) (2 ^ width - 1) := by
  unfold saturatingAdd
  omega

theorem Ledger.Counts.apply {steps : List AdmittedStep} (h : l.Counts agent steps) {x : Event}
    (hx : NamesOnce x) (happly : l.apply x = some l') :
    l'.Counts agent (steps ++ (stepOf agent x).toList) := by
  obtain ⟨sequence, kind⟩ := x
  cases kind with
  | agentStepAdmitted node item names toolCalls approval createdAt =>
    simp only [Ledger.apply, Option.some.injEq] at happly
    subst happly
    have hcharge := Ledger.charge_agents (hx _ _ _ _ _ _ rfl) (·.admitStep toolCalls createdAt) l
      agent
    by_cases hmem : agent ∈ names
    · simp only [hmem, if_true] at hcharge
      constructor
      · rw [hcharge, Spent.admitStep, h.iterations, saturating_min]
        simp [stepOf, hmem]
      · rw [hcharge, Spent.admitStep, h.toolCalls, saturating_min]
        simp [stepOf, hmem, callsOf]
    · simp only [hmem, if_false] at hcharge
      simp only [stepOf, hmem, if_false, Option.toList_none, List.append_nil]
      exact ⟨by rw [hcharge, h.iterations], by rw [hcharge, h.toolCalls]⟩
  | nodeCompleted node result =>
    simp only [Ledger.apply, Option.some.injEq] at happly
    subst happly
    have hend := h.endStep (f := (·.completeStep result)) (fun _ => ⟨rfl, rfl⟩) node
    simpa [stepOf] using hend
  | nodeFailed node error attempt retryable =>
    simp only [Ledger.apply, Option.some.injEq] at happly
    subst happly
    have hend := h.endStep (f := (·.failStep)) (fun _ => ⟨rfl, rfl⟩) node
    simpa [stepOf] using hend
  | unknown => cases happly
  | _ =>
    simp only [Ledger.apply, Option.some.injEq] at happly
    subst happly
    simpa [stepOf] using h

theorem Ledger.Counts.applySegment {steps : List AdmittedStep} (h : l.Counts agent steps)
    {events : List Event} (hevents : ∀ x ∈ events, NamesOnce x)
    (happly : l.applySegment events = some l') :
    l'.Counts agent (steps ++ stepsOf agent events) := by
  unfold Ledger.applySegment at happly
  have hstart : Ledger.Counts { l with opened := fun _ => [] } agent steps :=
    ⟨h.iterations, h.toolCalls⟩
  generalize ({ l with opened := fun _ => [] } : Ledger) = start at happly hstart
  clear h
  induction events generalizing start steps with
  | nil =>
    cases happly
    simpa [stepsOf] using hstart
  | cons x events ih =>
    rw [List.foldlM_cons] at happly
    cases hx : start.apply x with
    | none => simp [hx] at happly
    | some next =>
      simp only [hx, Option.bind_eq_bind, Option.bind_some] at happly
      have hnext := hstart.apply (hevents x (by simp)) hx
      have hrest := ih (fun y hy => hevents y (by simp [hy])) next happly hnext
      have hsteps : stepsOf agent (x :: events) = (stepOf agent x).toList ++ stepsOf agent events := by
        unfold stepsOf
        rw [List.filterMap_cons]
        cases stepOf agent x <;> rfl
      rwa [hsteps, ← List.append_assoc]

theorem Ledger.counts_nil (agent : String) : ({} : Ledger).Counts agent [] := ⟨rfl, rfl⟩

end Ledger

section Check

variable {agent : String} {card : AutonomyConstraints} {step : Step} {now : Instant} {l : Ledger}

theorem Autonomy.limits_of_check {usage : AgentUsage}
    (h : (Autonomy.check (some card) usage step).isProceed = true) :
    (∀ max, card.maxIterations = some max → usage.iterations < max.toNat) ∧
      ∀ max, card.maxToolCalls = some max → 0 < step.toolCalls.toNat →
        (usage.toolCalls + step.toolCalls.toNat) % 2 ^ 64 ≤ max.toNat := by
  have hnone : (Autonomy.limits card usage step).findSome? id = none := by
    simp only [Autonomy.check] at h
    split at h
    · cases h
    · cases hlimits : (Autonomy.limits card usage step).findSome? id with
      | none => rfl
      | some stop => simp [hlimits, AutonomyDecision.isProceed] at h
  simp only [Autonomy.limits, List.findSome?_eq_none_iff, List.mem_cons, List.not_mem_nil,
    or_false, forall_eq_or_imp, forall_eq, id_eq] at hnone
  obtain ⟨hiterations, hcalls, -⟩ := hnone
  constructor
  · intro max hmax
    by_contra hle
    simp [hmax, Nat.le_of_not_lt hle] at hiterations
  · intro max hmax hpos
    by_contra hle
    simp only [hmax, Option.bind_some, hpos, true_and, Nat.lt_of_not_le hle, if_true] at hcalls
    cases hcalls

theorem not_past_of_check {steps : List AdmittedStep} (hl : l.Counts agent steps)
    (hfits : callsOf steps + step.toolCalls.toNat < 2 ^ 64) (approval : Option EventSequence)
    (h : (Autonomy.check (some card) (l.usage agent now) step).isProceed = true) :
    card.past steps ⟨step.toolCalls.toNat, approval⟩ = false := by
  obtain ⟨hiterations, hcalls⟩ := Autonomy.limits_of_check h
  simp only [Ledger.usage, hl.iterations, hl.toolCalls] at hiterations hcalls
  simp only [AutonomyConstraints.past, Bool.or_eq_false_iff]
  constructor
  · cases hmax : card.maxIterations with
    | none => rfl
    | some max =>
      have hlt := hiterations max hmax
      have hmax32 := max.toNat_lt
      simp only [Option.any_some, decide_eq_false_iff_not, not_le]
      omega
  · cases hmax : card.maxToolCalls with
    | none => rfl
    | some max =>
      have hle := hcalls max hmax
      simp only [Option.any_some, Bool.and_eq_false_iff, decide_eq_false_iff_not, not_lt]
      by_cases hpos : 0 < step.toolCalls.toNat
      · have hle := hle hpos
        rw [min_eq_left (by omega), Nat.mod_eq_of_lt hfits] at hle
        exact .inr hle
      · exact .inl (Nat.le_of_not_lt hpos)

theorem firstStop_eq_none {agents : Agents} {escalation : Option Stop}
    (h : firstStop l step now escalation agents = none) :
    escalation = none ∧ ∀ a ∈ agents, (Autonomy.check a.2 (l.usage a.1 now) step).isProceed = true := by
  induction agents generalizing escalation with
  | nil => exact ⟨h, by simp⟩
  | cons a agents ih =>
    obtain ⟨name, constraints⟩ := a
    simp only [firstStop] at h
    split at h
    · rename_i hproceed
      obtain ⟨hnone, hrest⟩ := ih h
      exact ⟨hnone, by simpa [hproceed] using hrest⟩
    · split at h
      · cases h
      · obtain ⟨hnone, -⟩ := ih h
        simp at hnone

theorem check_of_not_failStop {agents : Agents} (h : failStop l agents step now = false)
    {a : String × Option AutonomyConstraints} (ha : a ∈ agents) (hfail : onLimitOf a.2 = .fail) :
    (Autonomy.check a.2 (l.usage a.1 now) step).isProceed = true := by
  unfold failStop at h
  rw [List.any_eq_false] at h
  simpa [hfail] using h a ha

end Check

section Approvals

variable [Chrono] {events events' : List Event} {node : NodeId} {sequence : EventSequence}

theorem mem_approvedEscalations : sequence ∈ approvedEscalations events ↔
    ∃ x ∈ events, x.sequence = sequence ∧ ∃ node toolName approver context,
      x.kind = .toolApprovalRequired node toolName approver context ∧
      (context.get escalationKey).isSome = true ∧
      ∃ before, before <+: events ∧ releasedRequest before node = some sequence := by
  simp only [approvedEscalations, List.mem_filterMap]
  constructor
  · rintro ⟨x, hx, h⟩
    refine ⟨x, hx, ?_⟩
    split at h
    · rename_i node toolName approver context hkind
      split at h
      · rename_i hshown
        obtain ⟨hkey, before, hbefore, hreleased⟩ := hshown
        cases h
        exact ⟨rfl, node, toolName, approver, context, hkind, hkey, before,
          (List.mem_inits _ _).mp hbefore, hreleased⟩
      · cases h
    · cases h
  · rintro ⟨x, hx, rfl, node, toolName, approver, context, hkind, hkey, before, hbefore, hreleased⟩
    refine ⟨x, hx, ?_⟩
    simp only [hkind]
    rw [if_pos ⟨hkey, before, (List.mem_inits _ _).mpr hbefore, hreleased⟩]

theorem approvedEscalations_mono (h : events <+: events')
    (hs : sequence ∈ approvedEscalations events) : sequence ∈ approvedEscalations events' := by
  rw [mem_approvedEscalations] at hs ⊢
  obtain ⟨x, hx, hseq, n, toolName, approver, context, hkind, hkey, before, hbefore, hreleased⟩ := hs
  exact ⟨x, h.subset hx, hseq, n, toolName, approver, context, hkind, hkey, before,
    hbefore.trans h, hreleased⟩

/-- An escalation that can release a step was approved, and no step of the log was released
by it. -/
theorem unusedEscalation_eq_some (h : unusedEscalation events node = some sequence) :
    sequence ∈ approvedEscalations events ∧ sequence ∉ usedApprovals events := by
  unfold unusedEscalation at h
  cases hstatus : nodeApprovalStatus events node with
  | approved user decided digest =>
    simp only [hstatus, Option.bind_eq_bind] at h
    obtain ⟨request, hrequest, h⟩ := Option.bind_eq_some_iff.mp h
    obtain ⟨shown, hshown, h⟩ := Option.bind_eq_some_iff.mp h
    split at h
    · cases h
    · rename_i hunused
      cases h
      constructor
      · have hanswered := hrequest
        simp only [answeredRequest, hstatus] at hrequest
        obtain ⟨x, hx, hreq⟩ := List.exists_of_findSome?_eq_some hrequest
        have hmem : x ∈ events := List.mem_reverse.mp hx
        unfold requestOf at hreq
        split at hreq
        · rename_i n toolName approver context hkind
          split at hreq
          · rename_i hn
            subst hn
            cases hreq
            refine mem_approvedEscalations.mpr ⟨x, hmem, rfl, n, toolName, approver, context,
              hkind, by simp [hshown], events, List.prefix_rfl, ?_⟩
            simp [releasedRequest, hstatus, hanswered]
          · cases hreq
        · cases hreq
      · intro hused
        obtain ⟨x, hx, happroval⟩ := List.mem_filterMap.mp hused
        refine hunused (List.any_eq_true.mpr ⟨x, hx, ?_⟩)
        unfold approvalOf at happroval
        split at happroval
        · rename_i hkind
          simp [hkind, happroval]
        · cases happroval
  | _ => simp [hstatus] at h

end Approvals

/-! The segments of a run -/

namespace Db

/-- The segments before this one, the nearest first. -/
inductive Segments (db : Db) : ExecutionId → List ExecutionId → Prop
  | root {e : ExecutionId} {x : ExecutionRow} (hx : db.executions.find? e = some x)
      (hp : x.parentExecutionId = none) : Segments db e []
  | next {e p : ExecutionId} {x : ExecutionRow} {earlier : List ExecutionId}
      (hx : db.executions.find? e = some x) (hp : x.parentExecutionId = some p)
      (h : Segments db p earlier) : Segments db e (p :: earlier)

/-- Some segment continues this one. -/
def hasChild (db : Db) (e : ExecutionId) : Bool :=
  db.executions.rows.any fun x => x.parentExecutionId = some e

/-- The steps of an agent in these segments, the last segment given first. -/
def runSteps (db : Db) (agent : String) (segments : List ExecutionId) : List AdmittedStep :=
  segments.reverse.flatMap fun e => stepsOf agent (db.events e).entries

/-- The requests about a limit that were approved in these segments. -/
def runApprovals [Chrono] (db : Db) (segments : List ExecutionId) :
    List (ExecutionId × EventSequence) :=
  segments.flatMap fun e => (approvedEscalations (db.events e).entries).map fun n => (e, n)

variable {db db' : Db} {e e' : ExecutionId} {earlier earlier' : List ExecutionId} {agent : String}

theorem hasChild_iff : db.hasChild e = true ↔
    ∃ e' x, db.executions.find? e' = some x ∧ x.parentExecutionId = some e := by
  simp only [hasChild, List.any_eq_true, decide_eq_true_eq]
  constructor
  · rintro ⟨x, hx, hp⟩
    exact ⟨x.executionId, x, Table.find?_of_mem hx, hp⟩
  · rintro ⟨e', x, hx, hp⟩
    exact ⟨x, Table.mem_of_find? hx, hp⟩

theorem Segments.unique (h : db.Segments e earlier) (h' : db.Segments e earlier') :
    earlier = earlier' := by
  induction h generalizing earlier' with
  | root hx hp =>
    cases h' with
    | root => rfl
    | next hx' hp' =>
      cases hx.symm.trans hx'
      rw [hp] at hp'
      cases hp'
  | next hx hp h ih =>
    cases h' with
    | root hx' hp' =>
      cases hx.symm.trans hx'
      rw [hp] at hp'
      cases hp'
    | next hx' hp' h' =>
      cases hx.symm.trans hx'
      rw [hp] at hp'
      cases hp'
      rw [ih h']

theorem Segments.hasChild (h : db.Segments e earlier) : ∀ p ∈ earlier, db.hasChild p = true := by
  induction h with
  | root => simp
  | next hx hp h ih =>
    intro q hq
    rcases List.mem_cons.mp hq with rfl | hq
    · exact hasChild_iff.mpr ⟨_, _, hx, hp⟩
    · exact ih q hq

theorem Segments.of_mem (h : db.Segments e earlier) :
    ∀ p ∈ earlier, ∃ before, db.Segments p before ∧ before.length < earlier.length := by
  induction h with
  | root => simp
  | next hx hp h ih =>
    intro q hq
    rcases List.mem_cons.mp hq with rfl | hq
    · exact ⟨_, h, by simp⟩
    · obtain ⟨before, hbefore, hlt⟩ := ih q hq
      exact ⟨before, hbefore, by simpa using Nat.lt_succ_of_lt hlt⟩

theorem Segments.not_mem (h : db.Segments e earlier) : e ∉ earlier := by
  intro hmem
  obtain ⟨before, hbefore, hlt⟩ := h.of_mem e hmem
  rw [h.unique hbefore] at hlt
  exact lt_irrefl _ hlt

theorem runSteps_cons (segments : List ExecutionId) :
    db.runSteps agent (e :: segments) =
      db.runSteps agent segments ++ stepsOf agent (db.events e).entries := by
  simp [runSteps]

theorem runSteps_congr {segments : List ExecutionId}
    (h : ∀ p ∈ segments, stepsOf agent (db'.events p).entries = stepsOf agent (db.events p).entries) :
    db'.runSteps agent segments = db.runSteps agent segments := by
  induction segments with
  | nil => rfl
  | cons p segments ih =>
    rw [runSteps_cons, runSteps_cons, h p (by simp), ih fun q hq => h q (by simp [hq])]

/-- The segments of the earlier database are those of the later one, logs grow, and a segment that
is continued takes no more steps. -/
structure Closes (db db' : Db) : Prop where
  row : ∀ e x, db.executions.find? e = some x →
    ∃ x', db'.executions.find? e = some x' ∧ x'.parentExecutionId = x.parentExecutionId
  log : ∀ e, (db.events e).entries <+: (db'.events e).entries
  closed : ∀ e, db.hasChild e = true → ∀ agent,
    stepsOf agent (db'.events e).entries = stepsOf agent (db.events e).entries

theorem Closes.refl (db : Db) : db.Closes db :=
  ⟨fun _ x hx => ⟨x, hx, rfl⟩, fun _ => List.prefix_rfl, fun _ _ _ => rfl⟩

theorem Closes.hasChild (h : db.Closes db') (he : db.hasChild e = true) : db'.hasChild e = true := by
  obtain ⟨e', x, hx, hp⟩ := hasChild_iff.mp he
  obtain ⟨x', hx', hp'⟩ := h.row e' x hx
  exact hasChild_iff.mpr ⟨e', x', hx', hp'.trans hp⟩

theorem Closes.trans {db'' : Db} (h : db.Closes db') (h' : db'.Closes db'') : db.Closes db'' where
  row e x hx := by
    obtain ⟨x', hx', hp⟩ := h.row e x hx
    obtain ⟨x'', hx'', hp'⟩ := h'.row e x' hx'
    exact ⟨x'', hx'', hp'.trans hp⟩
  log e := (h.log e).trans (h'.log e)
  closed e he agent := (h'.closed e (h.hasChild he) agent).trans (h.closed e he agent)

theorem Segments.of_rows (hs : db.Segments e earlier)
    (hrow : ∀ e x, db.executions.find? e = some x →
      ∃ x', db'.executions.find? e = some x' ∧ x'.parentExecutionId = x.parentExecutionId) :
    db'.Segments e earlier := by
  induction hs with
  | root hx hp =>
    obtain ⟨x', hx', hp'⟩ := hrow _ _ hx
    exact .root hx' (hp'.trans hp)
  | next hx hp _ ih =>
    obtain ⟨x', hx', hp'⟩ := hrow _ _ hx
    exact .next hx' (hp'.trans hp) ih

theorem Segments.mono (hs : db.Segments e earlier) (h : db.Closes db') : db'.Segments e earlier :=
  hs.of_rows h.row

end Db

theorem ExecutionStep.parentExecutionId {β : Type} {op : BackendOp β} {x x' : ExecutionRow}
    (h : ExecutionStep op x x') : x'.parentExecutionId = x.parentExecutionId := by
  cases h <;> rfl

theorem GuardSys.row_handle {β : Type} (op : GuardCall β) (s : GuardSys) :
    ∀ e x, s.db.executions.find? e = some x → ∃ x',
      (s.handle op).2.db.executions.find? e = some x' ∧ x'.parentExecutionId = x.parentExecutionId := by
  intro e x hx
  rcases op with op | op
  · obtain ⟨x', hx', hstep⟩ := (op.effect s.db).executions.row hx
    exact ⟨x', hx', hstep.parentExecutionId⟩
  · cases op <;> exact ⟨x, hx, rfl⟩

/-- A call that admits no step and creates no segment. -/
def BackendOp.Quiet {β : Type} (op : BackendOp β) : Prop :=
  (∀ kind ∈ op.kinds, kind.isStep = false) ∧ op.newExecution = none

theorem step_of_not_isStep {x : Event} (h : x.kind.isStep = false) (agent : String) :
    stepOf agent x = none ∧ approvalOf x = none ∧ NamesOnce x := by
  obtain ⟨sequence, kind⟩ := x
  cases kind with
  | agentStepAdmitted => cases h
  | _ => exact ⟨rfl, rfl, fun _ _ _ _ _ _ hkind => by cases hkind⟩

theorem steps_appendAll {kinds : List EventKind} (h : ∀ kind ∈ kinds, kind.isStep = false)
    (log : EventLog) :
    (∀ agent, stepsOf agent (log.appendAll kinds).entries = stepsOf agent log.entries) ∧
      usedApprovals (log.appendAll kinds).entries = usedApprovals log.entries ∧
      ((∀ x ∈ log.entries, NamesOnce x) → ∀ x ∈ (log.appendAll kinds).entries, NamesOnce x) := by
  induction kinds generalizing log with
  | nil => exact ⟨fun _ => rfl, rfl, id⟩
  | cons kind kinds ih =>
    have hkind := fun agent => step_of_not_isStep (x := ⟨log.latest + 1, kind⟩) (h kind (by simp)) agent
    obtain ⟨hsteps, hused, hnames⟩ := ih (fun k hk => h k (by simp [hk])) (log.append kind)
    refine ⟨fun agent => (hsteps agent).trans ?_, hused.trans ?_, fun hlog => hnames ?_⟩
    · simp [stepsOf, (hkind agent).1]
    · simp [usedApprovals, (hkind "").2.1]
    · intro x hx
      rw [SeqLog.entries_append] at hx
      rcases List.mem_append.mp hx with hx | hx
      · exact hlog x hx
      · obtain rfl := List.mem_singleton.mp hx
        exact (hkind "").2.2

theorem noStep_of_appends {β : Type} {op : BackendOp β}
    (hop : ∀ kind ∈ op.kinds, kind.isStep = false) {e : ExecutionId} {kind : EventKind}
    (h : Appends db op e kind) : kind.isStep = false := by
  rcases h.mem_kinds with hmem | ⟨r, rfl | rfl⟩
  · exact hop kind hmem
  · rfl
  · rfl

section Invariant

variable [Chrono]

/-- What the recorded steps satisfy: each names its agents once, no approval releases two steps of
a segment, and a step past the limits of the agent's card was released by an approval, which the
card has to ask for. -/
structure LimitsKept (agent : String) (card : AutonomyConstraints) (db : Db) : Prop where
  homed : ∀ e, db.executions.find? e = none → (db.events e).entries = []
  parents : ∀ e x p, db.executions.find? e = some x → x.parentExecutionId = some p →
    (db.executions.find? p).isSome = true
  names : ∀ e, ∀ x ∈ (db.events e).entries, NamesOnce x
  once : ∀ e, (usedApprovals (db.events e).entries).Nodup
  approved : ∀ e, usedApprovals (db.events e).entries ⊆ approvedEscalations (db.events e).entries
  released : ∀ e earlier, db.Segments e earlier →
    ∀ step ∈ card.pastSteps [] (db.runSteps agent (e :: earlier)),
      onLimitOf (some card) = .escalateToHuman ∧ step.approval.isSome = true

variable {agent : String} {card : AutonomyConstraints} {db : Db}

/-- A call that records no step, and continues only segments that exist, keeps what the steps
satisfy. -/
theorem LimitsKept.quiet (h : LimitsKept agent card db) {β : Type} {op : BackendOp β}
    (hop : ∀ kind ∈ op.kinds, kind.isStep = false)
    (hnew : ∀ x p, op.newExecution = some x → x.parentExecutionId = some p →
      (db.executions.find? p).isSome = true) :
    LimitsKept agent card (op.exec db).2 ∧ db.Closes (op.exec db).2 := by
  have heffect := op.effect db
  have hlogs : ∀ e, (∀ agent, stepsOf agent ((op.exec db).2.events e).entries =
        stepsOf agent (db.events e).entries) ∧
      usedApprovals ((op.exec db).2.events e).entries = usedApprovals (db.events e).entries ∧
      ((∀ x ∈ (db.events e).entries, NamesOnce x) →
        ∀ x ∈ ((op.exec db).2.events e).entries, NamesOnce x) := by
    intro e
    obtain ⟨kinds, hlog, hkinds⟩ := heffect.logs e
    rw [hlog]
    exact steps_appendAll (fun kind hk => noStep_of_appends hop (hkinds kind hk)) _
  have hcloses : db.Closes (op.exec db).2 := by
    refine ⟨fun e x hx => ?_, fun e => extends_exec op db e, fun e _ agent => (hlogs e).1 agent⟩
    obtain ⟨x', hx', hstep⟩ := heffect.executions.row hx
    exact ⟨x', hx', hstep.parentExecutionId⟩
  have hparents : ∀ e x p, (op.exec db).2.executions.find? e = some x →
      x.parentExecutionId = some p → (db.executions.find? p).isSome = true := by
    intro e x p hx hp
    cases hold : db.executions.find? e with
    | none => exact hnew x p (heffect.executions.new hold hx) hp
    | some x₀ =>
      obtain ⟨x', hx', hp'⟩ := hcloses.row e x₀ hold
      cases hx.symm.trans hx'
      exact h.parents e x₀ p hold (hp'.symm.trans hp)
  have hexists : ∀ p, (db.executions.find? p).isSome = true →
      ((op.exec db).2.executions.find? p).isSome = true := by
    intro p hp
    obtain ⟨x, hx⟩ := Option.isSome_iff_exists.mp hp
    obtain ⟨x', hx', -⟩ := hcloses.row p x hx
    rw [hx']
    rfl
  -- the segments of an execution that was there are those it had
  have hback : ∀ e earlier, (op.exec db).2.Segments e earlier →
      (db.executions.find? e).isSome = true → db.Segments e earlier := by
    intro e earlier hs
    induction hs with
    | root hx hp =>
      intro hold
      obtain ⟨x₀, hx₀⟩ := Option.isSome_iff_exists.mp hold
      obtain ⟨x', hx', hp'⟩ := hcloses.row _ x₀ hx₀
      cases hx.symm.trans hx'
      exact .root hx₀ (hp'.symm.trans hp)
    | next hx hp _ ih =>
      intro hold
      obtain ⟨x₀, hx₀⟩ := Option.isSome_iff_exists.mp hold
      obtain ⟨x', hx', hp'⟩ := hcloses.row _ x₀ hx₀
      cases hx.symm.trans hx'
      exact .next hx₀ (hp'.symm.trans hp) (ih (hparents _ _ _ hx hp))
  have hsteps : ∀ segments, (op.exec db).2.runSteps agent segments = db.runSteps agent segments :=
    fun segments => Db.runSteps_congr fun p _ => (hlogs p).1 agent
  refine ⟨⟨?_, fun e x p hx hp => hexists p (hparents e x p hx hp),
    fun e => (hlogs e).2.2 (h.names e), fun e => ?_, fun e => ?_, ?_⟩, hcloses⟩
  · intro e he
    rw [events_exec_of_absent op db he]
    refine h.homed e ?_
    cases hx : db.executions.find? e with
    | none => rfl
    | some x =>
      obtain ⟨x', hx', -⟩ := hcloses.row e x hx
      rw [he] at hx'
      cases hx'
  · rw [(hlogs e).2.1]
    exact h.once e
  · rw [(hlogs e).2.1]
    exact fun n hn => approvedEscalations_mono (hcloses.log e) (h.approved e hn)
  · intro e earlier hs
    rw [hsteps]
    cases hold : db.executions.find? e with
    | some x => exact h.released e earlier (hback e earlier hs (by simp [hold]))
    | none =>
      -- a new segment starts without steps
      have hempty : stepsOf agent (db.events e).entries = [] := by
        rw [h.homed e hold]
        rfl
      cases hs with
      | root hx hp =>
        rw [Db.runSteps_cons, hempty]
        simp [Db.runSteps, AutonomyConstraints.pastSteps]
      | next hx hp hrest =>
        rw [Db.runSteps_cons, hempty, List.append_nil]
        exact h.released _ _ (hback _ _ hrest (hparents _ _ _ hx hp))

/-- A recorded step is within the limits or released by an unused approval, and it is recorded in
the last segment of its run. -/
theorem LimitsKept.admitted (h : LimitsKept agent card db) {e : ExecutionId} {node : NodeId}
    {item : Option ℕ} {names : List String} {toolCalls : ℕ} {approval : Option EventSequence}
    {createdAt : Instant} {condition : List Event → Bool} (hnames : names.Nodup)
    (hlast : db.terminalStatusOf e = none → condition (db.events e).entries = true →
      db.hasChild e = false)
    (happroval : condition (db.events e).entries = true → ∀ n, approval = some n →
      n ∈ approvedEscalations (db.events e).entries ∧ n ∉ usedApprovals (db.events e).entries)
    (hpast : db.terminalStatusOf e = none → condition (db.events e).entries = true →
      agent ∈ names → ∀ earlier, db.Segments e earlier →
        card.past (db.runSteps agent (e :: earlier)) ⟨toolCalls, approval⟩ = true →
        onLimitOf (some card) = .escalateToHuman ∧ approval.isSome = true) :
    LimitsKept agent card ((BackendOp.appendEventIf e
        (.agentStepAdmitted node item names toolCalls approval createdAt) condition).exec db).2 ∧
      db.Closes ((BackendOp.appendEventIf e
        (.agentStepAdmitted node item names toolCalls approval createdAt) condition).exec db).2 := by
  have habsent := fun e' => events_exec_of_absent (BackendOp.appendEventIf e
    (.agentStepAdmitted node item names toolCalls approval createdAt) condition) db (e := e')
  rcases Db.appendEventIf_cases db e (.agentStepAdmitted node item names toolCalls approval createdAt)
    condition with hs | ⟨hlive, hcond, hs⟩
  · rw [BackendOp.exec, hs]
    exact ⟨h, .refl db⟩
  · rw [BackendOp.exec, hs] at habsent ⊢
    have hself : ((db.setEvents e ((db.events e).append
        (.agentStepAdmitted node item names toolCalls approval createdAt))).events e).entries =
          (db.events e).entries ++ [⟨(db.events e).latest + 1,
            .agentStepAdmitted node item names toolCalls approval createdAt⟩] := by
      rw [Db.setEvents_events_self, SeqLog.entries_append]
    generalize hlog : (db.events e).append
      (.agentStepAdmitted node item names toolCalls approval createdAt) = log at habsent hself ⊢
    have hother : ∀ e', e' ≠ e → (db.setEvents e log).events e' = db.events e' :=
      fun e' he => Db.setEvents_events_of_ne log he
    have hchild := hlast hlive hcond
    have hnochild : ∀ e', db.hasChild e' = true → e' ≠ e := by
      rintro e' he' rfl
      rw [hchild] at he'
      cases he'
    have hsegments : ∀ e' earlier, (db.setEvents e log).Segments e' earlier →
        db.Segments e' earlier := by
      intro e' earlier hseg
      induction hseg with
      | root hx hp => exact .root hx hp
      | next hx hp _ ih => exact .next hx hp ih
    have hused : ∀ e', usedApprovals ((db.setEvents e log).events e').entries =
        if e' = e then usedApprovals (db.events e).entries ++ approval.toList
        else usedApprovals (db.events e').entries := by
      intro e'
      by_cases he : e' = e
      · subst he
        rw [hself, if_pos rfl]
        cases approval <;> simp [usedApprovals, approvalOf]
      · rw [hother e' he, if_neg he]
    have hclose : db.Closes (db.setEvents e log) := by
      refine ⟨fun e' x hx => ⟨x, hx, rfl⟩, fun e' => ?_, fun e' he' agent => ?_⟩
      · by_cases he : e' = e
        · subst he
          rw [hself]
          exact List.prefix_append _ _
        · rw [hother e' he]
      · rw [hother e' (hnochild e' he')]
    refine ⟨⟨fun e' he' => ?_, h.parents, fun e' => ?_, fun e' => ?_, fun e' => ?_, ?_⟩, hclose⟩
    · rw [habsent e' he']
      exact h.homed e' he'
    · by_cases he : e' = e
      · subst he
        intro x hx
        rw [hself] at hx
        rcases List.mem_append.mp hx with hx | hx
        · exact h.names e' x hx
        · obtain rfl := List.mem_singleton.mp hx
          intro _ _ _ _ _ _ hkind
          cases hkind
          exact hnames
      · rw [hother e' he]
        exact h.names e'
    · rw [hused]
      split
      · cases approval with
        | none => simpa using h.once e
        | some n =>
          have hfresh := (happroval hcond n rfl).2
          simp only [Option.toList_some, ← List.concat_eq_append]
          exact (h.once e).concat hfresh
      · exact h.once e'
    · rw [hused]
      split
      · rename_i he
        subst he
        intro n hn
        refine approvedEscalations_mono (hclose.log e') ?_
        rcases List.mem_append.mp hn with hn | hn
        · exact h.approved e' hn
        · exact (happroval hcond n (by simpa using hn)).1
      · exact fun n hn => approvedEscalations_mono (hclose.log e') (h.approved e' hn)
    · intro e' earlier hafter
      have hseg := hsegments e' earlier hafter
      have hrest : (db.setEvents e log).runSteps agent earlier = db.runSteps agent earlier :=
        Db.runSteps_congr fun p hp => by rw [hother p (hnochild p (hseg.hasChild p hp))]
      have hold := h.released e' earlier hseg
      rw [Db.runSteps_cons, hrest]
      by_cases he : e' = e
      · subst he
        by_cases hmem : agent ∈ names
        · have hstep : stepsOf agent ((db.setEvents e' log).events e').entries =
              stepsOf agent (db.events e').entries ++ [⟨toolCalls, approval⟩] := by
            rw [hself]
            simp [stepsOf, stepOf, hmem]
          rw [hstep, ← List.append_assoc, ← Db.runSteps_cons,
            AutonomyConstraints.pastSteps_concat, List.nil_append]
          intro step hin
          rcases List.mem_append.mp hin with hin | hin
          · exact hold step hin
          · split at hin
            · rename_i hover
              obtain rfl := List.mem_singleton.mp hin
              exact hpast hlive hcond hmem earlier hseg hover
            · cases hin
        · have hstep : stepsOf agent ((db.setEvents e' log).events e').entries =
              stepsOf agent (db.events e').entries := by
            rw [hself]
            simp [stepsOf, stepOf, hmem]
          rw [hstep, ← Db.runSteps_cons]
          exact hold
      · rw [hother e' he, ← Db.runSteps_cons]
        exact hold

end Invariant

/-- A call of the guard that admits no step. -/
def QuietCall {β : Type} : GuardCall β → Prop
  | .inl op => op.Quiet
  | .inr _ => True

theorem quiet_read {β : Type} {op : BackendOp β} (hkinds : op.kinds = [])
    (hnew : op.newExecution = none) : QuietCall (.inl op) :=
  ⟨by simp [hkinds], hnew⟩

section Quiet

/-! Nothing but the record of a step is ever one. -/

theorem within_recordPolicyViolation (e : ExecutionId) :
    (Guard.recordPolicyViolation e).Within QuietCall := by
  unfold Guard.recordPolicyViolation Guard.backend
  refine .bind (.attempt (by simp [QuietCall, BackendOp.Quiet, BackendOp.kinds,
    BackendOp.newExecution])) fun reply => ?_
  cases reply with
  | error err => exact Prog.within_pure _
  | ok sequence =>
    refine .bind (.attempt ?_) fun _ => Prog.within_pure _
    simp [QuietCall, BackendOp.Quiet, BackendOp.kinds, BackendOp.newExecution, EventKind.isStep]

theorem within_append {e : ExecutionId} {kind : EventKind} (h : kind.isStep = false) :
    (Guard.backend (.appendEvent e kind)).attempt.Within QuietCall :=
  .attempt (by simp [Guard.backend, QuietCall, BackendOp.Quiet, BackendOp.kinds,
    BackendOp.newExecution, h])

theorem within_getEvents (e : ExecutionId) :
    (Guard.backend (.getEvents e)).attempt.Within QuietCall :=
  .attempt (by simp [Guard.backend, QuietCall, BackendOp.Quiet, BackendOp.kinds,
    BackendOp.newExecution])

theorem within_here {α : Type} (op : GuardOp α) : (Guard.here op).Within QuietCall := by
  simp [Guard.here, QuietCall]

theorem within_sealAppended (r : GuardRequest) (event : Event) :
    (Guard.sealAppended r event).Within QuietCall := by
  unfold Guard.sealAppended
  split
  · refine .bind (.attempt (within_here _)) fun reply => ?_
    cases reply with
    | ok _ => exact Prog.within_pure _
    | error err => exact .bind (within_append rfl) fun _ => Prog.within_pure _
  · exact Prog.within_pure _

theorem within_recordRequest (r : GuardRequest) {kind : EventKind} (h : kind.isStep = false)
    (gated : List String) : (Guard.recordRequest r kind gated).Within QuietCall := by
  unfold Guard.recordRequest
  refine .bind (within_append h) fun reply => ?_
  cases reply with
  | error err => exact Prog.within_pure _
  | ok sequence => exact .bind (within_sealAppended r _) fun _ => Prog.within_pure _

variable [FloatText] {env : GuardEnv}

theorem within_raiseRequest [Chrono] (r : GuardRequest) (toolName approver : String)
    (deadline : Option ApprovalDeadline) (step : ℕ) :
    (Guard.raiseRequest env r toolName approver deadline step).Within QuietCall := by
  unfold Guard.raiseRequest
  cases deadline with
  | none => exact within_recordRequest r rfl _
  | some deadline =>
    refine .bind (within_here _) fun now => ?_
    split
    · exact Prog.within_pure _
    · exact within_recordRequest r rfl _

theorem within_requireApproval [Chrono] (r : GuardRequest) (toolName approver : String)
    (deadline : Option ApprovalDeadline) :
    (Guard.requireApproval env r toolName approver deadline).Within QuietCall := by
  unfold Guard.requireApproval
  refine .bind (within_getEvents _) fun reply => ?_
  cases reply with
  | error err => exact Prog.within_pure _
  | ok events =>
    have hdecide : (Guard.decideApproval env r toolName approver deadline events).Within QuietCall := by
      unfold Guard.decideApproval
      refine .bind (.attempt (within_here _)) fun count => ?_
      cases count with
      | error err => exact Prog.within_pure _
      | ok step =>
        simp only
        split
        · exact Prog.within_pure _
        · exact within_raiseRequest r toolName approver deadline step
    simp only
    split <;> first | exact Prog.within_pure _ | exact hdecide

theorem within_completionCovered [Chrono] (r : GuardRequest) (toolName : String) :
    (Guard.completionCovered env r toolName).Within QuietCall := by
  unfold Guard.completionCovered
  refine .bind (within_getEvents _) fun reply => ?_
  cases reply with
  | error err => exact Prog.within_pure _
  | ok events =>
    simp only
    split
    · refine .bind (.attempt (within_here _)) fun count => ?_
      cases count with
      | error err => exact Prog.within_pure _
      | ok step =>
        simp only
        split
        · exact Prog.within_pure _
        · refine .bind (.attempt (within_here _)) fun count => ?_
          cases count <;> exact Prog.within_pure _
    · exact Prog.within_pure _

omit [FloatText] in
theorem within_allowed {p : GuardProg GuardOutcome} (hp : p.Within QuietCall)
    (outcome : GuardOutcome) : Prog.Within QuietCall (match outcome with
      | .allow => p
      | other => (pure other : GuardProg GuardOutcome)) := by
  cases outcome with
  | allow => exact hp
  | _ => exact Prog.within_pure _

theorem within_guardPolicy [Chrono] {perCall : Bool → GuardProg GuardOutcome}
    (hcalls : ∀ b, (perCall b).Within QuietCall) (r : GuardRequest) :
    (Guard.guardPolicy env perCall r).Within QuietCall := by
  have hallow : ∀ gated, Prog.Within QuietCall
      (if r.node.agentToolDispatch then perCall gated else pure .allow) := by
    intro gated
    split
    · exact hcalls gated
    · exact Prog.within_pure _
  have hblock : ∀ (reason : String), Prog.Within QuietCall (do
      if r.mode = .fire then
        Guard.recordPolicyViolation r.executionId
      return .blocked reason : GuardProg GuardOutcome) := by
    intro reason
    simp only
    split
    · exact .bind (within_recordPolicyViolation _) fun _ => Prog.within_pure _
    · exact Prog.within_pure _
  have hrest := within_allowed (hallow true)
  unfold Guard.guardPolicy
  split
  · exact Prog.within_pure _
  · exact hblock _
  · simp only
    split
    · exact hallow false
    · exact hblock _
    · split
      · split
        · exact .bind (within_recordPolicyViolation _) fun _ => Prog.within_pure _
        · exact .bind (within_requireApproval r _ _ _) hrest
      · exact .bind (within_completionCovered r _) hrest

omit [FloatText] in
theorem within_recordStop (e : ExecutionId) (decision : AutonomyDecision) (escalated : Bool) :
    (Guard.recordStop e decision escalated).Within QuietCall := by
  have hrecord : ∀ tag, Prog.Within QuietCall (do
      let _ ← (Guard.backend (.appendEvent e (.other tag))).attempt
      return () : GuardProg Unit) :=
    fun tag => .bind (within_append rfl) fun _ => Prog.within_pure _
  unfold Guard.recordStop
  cases decision with
  | proceed => exact Prog.within_pure _
  | limitReached | circuitBreakerTripped =>
    refine .bind (hrecord _) fun _ => ?_
    cases escalated with
    | true => exact hrecord _
    | false => exact Prog.within_pure _

omit [FloatText] in
theorem within_completionAdmitted (e : ExecutionId) (workItemId : Option ℕ) :
    (Guard.completionAdmitted e workItemId).Within QuietCall := by
  unfold Guard.completionAdmitted
  cases workItemId with
  | none => exact Prog.within_pure _
  | some item =>
    refine .bind (within_getEvents _) fun reply => ?_
    cases reply with
    | error err => exact Prog.within_pure _
    | ok events =>
      simp only
      split <;> exact Prog.within_pure _

omit [FloatText] in
theorem within_refuseCard (r : AgentRequest) (rule : String) :
    (Guard.refuseCard r rule).Within QuietCall := by
  unfold Guard.refuseCard
  simp only
  split
  · exact .bind (within_recordPolicyViolation _) fun _ => Prog.within_pure _
  · exact Prog.within_pure _

omit [FloatText] in
theorem within_readCards (r : AgentRequest) (registry : String → RegistryRead)
    (agents : List String) : (Guard.readCards r registry agents).Within QuietCall := by
  induction agents with
  | nil => exact Prog.within_pure _
  | cons agent agents ih =>
    unfold Guard.readCards
    cases registry agent with
    | unregistered => exact within_refuseCard r _
    | unreadable err => exact Prog.within_pure _
    | card constraints =>
      simp only
      split
      · exact within_refuseCard r _
      · refine .bind ih fun rest => ?_
        cases rest <;> exact Prog.within_pure _

omit [FloatText] in
theorem within_agentCard (r : AgentRequest) : (Guard.agentCard r).Within QuietCall := by
  unfold Guard.agentCard
  split
  · exact Prog.within_pure _
  · exact within_refuseCard r _
  · exact within_readCards r _ _

end Quiet

section Cards

/-! The agents a step is charged to: each once, with its card. -/

theorem nodup_refs (scope : AgentScope) : scope.refs.Nodup := by
  unfold AgentScope.refs
  generalize scope.workflowAgent.toList ++ scope.nodeAgent.toList = refs
  suffices h : ∀ start : List String, start.Nodup → (refs.foldl pushNew start).Nodup from h [] .nil
  induction refs with
  | nil => exact fun _ h => h
  | cons ref refs ih =>
    intro start hstart
    refine ih _ ?_
    unfold pushNew
    split
    · exact hstart
    · rename_i hnew
      rw [← List.concat_eq_append]
      exact hstart.concat hnew

/-- What the agents of a step are. -/
structure CardsRead (scope : AgentScope) (agents : Agents) : Prop where
  names : (agents.map (·.1)).Nodup
  cards : ∀ a ∈ agents, ∃ registry, scope.registry = some registry ∧ registry a.1 = .card a.2

theorem ends_refuseCard {r : AgentRequest} {rule : String} {agents : Agents} :
    ¬ (Guard.refuseCard r rule).Ends (.ok (.ok agents)) := by
  unfold Guard.refuseCard
  simp only
  split
  · intro h
    obtain ⟨_, -, h⟩ := Prog.ends_bind.mp h
    cases h
  · intro h
    cases h

theorem ends_readCards {r : AgentRequest} {registry : String → RegistryRead} {refs : List String}
    {agents : Agents} (h : (Guard.readCards r registry refs).Ends (.ok (.ok agents))) :
    agents.map (·.1) = refs ∧ ∀ a ∈ agents, registry a.1 = .card a.2 := by
  induction refs generalizing agents with
  | nil =>
    cases h
    simp
  | cons ref refs ih =>
    unfold Guard.readCards at h
    cases hread : registry ref with
    | unregistered =>
      rw [hread] at h
      exact (ends_refuseCard h).elim
    | unreadable err =>
      rw [hread] at h
      cases h
    | card constraints =>
      simp only [hread] at h
      split at h
      · exact (ends_refuseCard h).elim
      · obtain ⟨rest, hrest, h⟩ := Prog.ends_bind.mp h
        cases rest with
        | error refused => cases h
        | ok rest =>
          obtain ⟨hnames, hcards⟩ := ih hrest
          cases h
          refine ⟨by simp [hnames], fun a ha => ?_⟩
          rcases List.mem_cons.mp ha with rfl | ha
          · exact hread
          · exact hcards a ha

theorem ends_agentCard {r : AgentRequest} {agents : Agents}
    (h : (Guard.agentCard r).Ends (.ok (.ok agents))) : CardsRead r.scope agents := by
  have hrefs := nodup_refs r.scope
  unfold Guard.agentCard at h
  split at h
  · cases h
    exact ⟨.nil, by simp⟩
  · exact (ends_refuseCard h).elim
  · rename_i registry hregistry _
    obtain ⟨hnames, hcards⟩ := ends_readCards h
    exact ⟨hnames ▸ hrefs, fun a ha => ⟨registry, hregistry, hcards a ha⟩⟩

theorem CardsRead.withCallee {scope : AgentScope} {agents : Agents} (h : CardsRead scope agents)
    {called : Option (String × Option AutonomyConstraints)}
    (hcalled : Guard.callee scope = .ok called) :
    CardsRead scope (Guard.withCallee agents called) := by
  cases called with
  | none => exact h
  | some c =>
    unfold Guard.withCallee
    simp only
    split
    · exact h
    · rename_i hnew
      obtain ⟨registry, hregistry, hcard⟩ : ∃ registry, scope.registry = some registry ∧
          registry c.1 = .card c.2 := by
        unfold Guard.callee at hcalled
        split at hcalled
        · rename_i agent registry _ hregistry
          split at hcalled
          · rename_i constraints hcard
            cases hcalled
            exact ⟨registry, hregistry, hcard⟩
          · cases hcalled
          · cases hcalled
        · cases hcalled
      have hfresh : c.1 ∉ agents.map (·.1) := by
        intro hmem
        obtain ⟨a, ha, hname⟩ := List.mem_map.mp hmem
        exact hnew (List.any_eq_true.mpr ⟨a, ha, by simp [hname]⟩)
      constructor
      · rw [List.map_append, List.map_singleton, ← List.concat_eq_append]
        exact h.names.concat hfresh
      · intro a ha
        rcases List.mem_append.mp ha with ha | ha
        · exact h.cards a ha
        · obtain rfl := List.mem_singleton.mp ha
          exact ⟨registry, hregistry, hcard⟩

end Cards

/-- The runs in which no step is recorded in a segment that has been continued.  The only recorder
of steps is the guard, a new segment continues one that exists, the agent's card is the same in
every call, and the sum the check forms fits its 64 bits. -/
def segmentsClosed (agent : String) (card : AutonomyConstraints) :
    Rules GuardCall GuardSys ServerAct AgentRequest where
  actOk a s := match a with
    | .call op => (∀ kind ∈ op.kinds, kind.isStep = false) ∧
        ∀ x p, op.newExecution = some x → x.parentExecutionId = some p →
          (s.db.executions.find? p).isSome = true
    | .setClock _ => True
  callOk op s := match op with
    | .inl (.appendEventIf e (.agentStepAdmitted _ _ _ toolCalls _ _) condition) =>
        s.db.terminalStatusOf e = none → condition (s.db.events e).entries = true →
          s.db.hasChild e = false ∧ ∀ earlier, s.db.Segments e earlier →
            callsOf (s.db.runSteps agent (e :: earlier)) + toolCalls < 2 ^ 64
    | _ => True
  jobOk r := ∀ registry constraints, r.scope.registry = some registry →
    registry agent = .card constraints → constraints = some card

section Runs

variable [Chrono]

/-- What the record of a step has to find: its agents are listed once, it uses no approval twice,
and it is past the limits of the agent's card only if an approval released it. -/
def AdmitsWithin (agent : String) (card : AutonomyConstraints) (db : Db) (e : ExecutionId)
    (names : List String) (toolCalls : ℕ) (approval : Option EventSequence) : Prop :=
  (∀ n, approval = some n → n ∈ approvedEscalations (db.events e).entries ∧
    n ∉ usedApprovals (db.events e).entries) ∧
  (agent ∈ names → ∃ earlier, db.Segments e earlier ∧
    (callsOf (db.runSteps agent (e :: earlier)) + toolCalls < 2 ^ 64 →
      card.past (db.runSteps agent (e :: earlier)) ⟨toolCalls, approval⟩ = true →
      onLimitOf (some card) = .escalateToHuman ∧ approval.isSome = true))

def limitSpec (agent : String) (card : AutonomyConstraints) : Spec GuardCall GuardSys where
  inv s := LimitsKept agent card s.db
  rely s t := s.db.Closes t.db
  rely_refl s := .refl s.db
  rely_trans h h' := h.trans h'
  good op s := match op with
    | .inl (.appendEventIf e (.agentStepAdmitted _ _ names toolCalls approval _) condition) =>
        names.Nodup ∧ (condition (s.db.events e).entries = true →
          AdmitsWithin agent card s.db e names toolCalls approval)
    | .inl op => op.Quiet
    | .inr _ => True

variable {agent : String} {card : AutonomyConstraints}

theorem good_of_quiet {β : Type} {op : GuardCall β} (h : QuietCall op) (s : GuardSys) :
    (limitSpec agent card).good op s := by
  rcases op with op | op
  · cases op with
    | appendEventIf e kind condition =>
      cases kind with
      | agentStepAdmitted => simp [QuietCall, BackendOp.Quiet, BackendOp.kinds, EventKind.isStep] at h
      | _ => exact h
    | _ => exact h
  · trivial

theorem handle_quiet {β : Type} {op : GuardCall β} (h : QuietCall op) {s : GuardSys}
    (hs : (limitSpec agent card).inv s) : (limitSpec agent card).inv (s.handle op).2 ∧
      (limitSpec agent card).rely s (s.handle op).2 := by
  rcases op with op | op
  · refine LimitsKept.quiet hs h.1 fun x p hx => ?_
    rw [h.2] at hx
    cases hx
  · cases op <;> exact ⟨hs, .refl s.db⟩

theorem handle_limits {β : Type} {op : GuardCall β} {s : GuardSys}
    (hs : (limitSpec agent card).inv s) (hgood : (limitSpec agent card).good op s)
    (hrule : (segmentsClosed agent card).callOk op s) :
    (limitSpec agent card).inv (s.handle op).2 ∧
      (limitSpec agent card).rely s (s.handle op).2 := by
  by_cases hquiet : QuietCall op
  · exact handle_quiet hquiet hs
  · rcases op with op | op
    · cases op with
      | appendEventIf e kind condition =>
        cases kind with
        | agentStepAdmitted node item names toolCalls approval createdAt =>
          obtain ⟨hnames, hwithin⟩ := hgood
          refine LimitsKept.admitted hs hnames (fun hlive hcond => (hrule hlive hcond).1)
            (fun hcond => (hwithin hcond).1) fun hlive hcond hmem earlier hseg hpast => ?_
          obtain ⟨segments, hsegments, hreleased⟩ := (hwithin hcond).2 hmem
          rw [hseg.unique hsegments] at hpast
          exact hreleased ((hrule hlive hcond).2 segments hsegments) hpast
        | _ => exact absurd hgood hquiet
      | _ => exact absurd hgood hquiet
    · exact absurd trivial hquiet

variable {Job : Type} {program : Job → GuardProg GuardOutcome}
  {U : Rules GuardCall GuardSys ServerAct Job} {s : GuardSys}

theorem wp_quiet {α : Type} {p : GuardProg α} (hp : p.Within QuietCall) {P : GuardSys → Prop}
    (hP : ∀ s t, P s → s.db.Closes t.db → P t) (hs : P s) :
    wp (guards program).beside U (limitSpec agent card) p (fun r t => P t ∧ p.Ends r) s := by
  refine wp_within hp (fun s t h hc _ => hP s t h hc) (fun op s hop hi h => ?_) hs
  exact ⟨good_of_quiet hop s, fun _ => hP s _ h (handle_quiet hop hi).2⟩

/-- The walk back finds the segments of the run. -/
theorem wp_segmentChain {env : GuardEnv} (remaining : ℕ) (e : ExecutionId) :
    wp (guards program).beside U (limitSpec agent card) (Guard.segmentChain env remaining e)
      (fun r t => ∀ chain, r = .ok (.ok chain) →
        ∃ earlier, t.db.Segments e earlier ∧ chain = (e :: earlier).reverse) s := by
  induction remaining generalizing e s with
  | zero =>
    intro t _ _ chain h
    cases h
  | succ remaining ih =>
    apply wp_attemptCall
    intro t _ _
    refine ⟨good_of_quiet (quiet_read rfl rfl) t, fun _ => ?_, fun _ _ err => ?_⟩
    · simp only [guards_handle, GuardSys.handle, BackendOp.exec]
      cases hx : t.db.executions.find? e with
      | none =>
        intro u _ _ chain h
        cases h
      | some x =>
        simp only
        cases hp : x.parentExecutionId with
        | none =>
          intro u hu _ chain h
          cases h
          obtain ⟨x', hx', hp'⟩ := hu.row e x hx
          exact ⟨[], .root hx' (hp'.trans hp), rfl⟩
        | some p =>
          apply wp_bind
          refine wp_mono ?_ (wp_keep (X := fun s : GuardSys =>
            ∃ x', s.db.executions.find? e = some x' ∧ x'.parentExecutionId = some p) ?_ ?_ (ih p) ⟨x, hx, hp⟩)
          · rintro r u - ⟨hchain, x', hx', hp'⟩
            cases r with
            | error err =>
              intro chain h
              cases h
            | ok reply =>
              cases reply with
              | error reason =>
                intro v _ _ chain h
                cases h
              | ok chain =>
                obtain ⟨earlier, hseg, rfl⟩ := hchain chain rfl
                intro v hv _ chain' h
                cases h
                exact ⟨p :: earlier, (Db.Segments.next hx' hp' hseg).mono hv, by simp⟩
          · rintro s t ⟨x', hx', hp'⟩ hc
            obtain ⟨x'', hx'', hp''⟩ := hc.row e x' hx'
            exact ⟨x'', hx'', hp''.trans hp'⟩
          · rintro β op s ⟨x', hx', hp'⟩
            obtain ⟨x'', hx'', hp''⟩ := s.row_handle op e x' hx'
            exact ⟨x'', hx'', hp''.trans hp'⟩
    · intro u _ _ chain h
      cases h

omit [Chrono] in
theorem Ledger.Counts.mono {l : Ledger} {t : GuardSys} {segments : List ExecutionId}
    (h : l.Counts agent (s.db.runSteps agent segments))
    (hclosed : ∀ p ∈ segments, s.db.hasChild p = true) (hc : s.db.Closes t.db) :
    l.Counts agent (t.db.runSteps agent segments) := by
  rw [Db.runSteps_congr fun p hp => hc.closed p (hclosed p hp) agent]
  exact h

theorem wp_foldEarlier {env : GuardEnv} {ids done : List ExecutionId} {ledger : Ledger}
    (hdone : ledger.Counts agent (s.db.runSteps agent done))
    (hclosed : ∀ p ∈ ids.reverse ++ done, s.db.hasChild p = true) :
    wp (guards program).beside U (limitSpec agent card) (Guard.foldEarlier env ledger ids)
      (fun r t => ∀ l, r = .ok (.ok l) →
        l.Counts agent (t.db.runSteps agent (ids.reverse ++ done))) s := by
  induction ids generalizing done ledger s with
  | nil =>
    intro t ht _ l h
    cases h
    exact hdone.mono (by simpa using hclosed) ht
  | cons p ids ih =>
    apply wp_attemptCall
    intro t ht hi
    refine ⟨good_of_quiet (quiet_read rfl rfl) t, fun _ => ?_, fun _ _ err => ?_⟩
    · simp only [guards_handle, GuardSys.handle, BackendOp.exec]
      cases hfold : ledger.applySegment (t.db.events p).entries with
      | none =>
        intro u _ _ l h
        cases h
      | some next =>
        have hnext : next.Counts agent (t.db.runSteps agent (p :: done)) := by
          rw [Db.runSteps_cons]
          exact (hdone.mono (fun q hq => hclosed q (by simp [hq])) ht).applySegment (hi.names p) hfold
        have hsame : ids.reverse ++ p :: done = (p :: ids).reverse ++ done := by simp
        rw [← hsame]
        exact ih hnext fun q hq => ht.hasChild (hclosed q (hsame ▸ hq))
    · intro u _ _ l h
      cases h

/-- A plan for these agents, with the steps of the earlier segments counted. -/
structure Planned (agent : String) (e : ExecutionId) (agents : Agents) (plan : Plan)
    (s : GuardSys) : Prop where
  agents : plan.agents = agents
  earlier : ∃ earlier, s.db.Segments e earlier ∧
    plan.earlier.Counts agent (s.db.runSteps agent earlier)

omit [Chrono] in
theorem Planned.mono {e : ExecutionId} {agents : Agents} {plan : Plan} {t : GuardSys}
    (h : Planned agent e agents plan s) (hc : s.db.Closes t.db) : Planned agent e agents plan t := by
  obtain ⟨hagents, earlier, hseg, hcounts⟩ := h
  exact ⟨hagents, earlier, hseg.mono hc, hcounts.mono hseg.hasChild hc⟩

omit [Chrono] in
theorem within_decidePlan [FloatText] (e : ExecutionId) (agents : Agents) (step : Step)
    (earlier ledger : Ledger) (now : Instant) :
    (Guard.decidePlan e agents step earlier ledger now).Within QuietCall := by
  unfold Guard.decidePlan
  split
  · exact Prog.within_pure _
  · exact .bind (within_recordStop _ _ _) fun _ => Prog.within_pure _
  · exact Prog.within_pure _

omit [Chrono] in
theorem ends_decidePlan [FloatText] {e : ExecutionId} {agents : Agents} {step : Step}
    {earlier ledger : Ledger} {now : Instant} {plan : Plan}
    (h : (Guard.decidePlan e agents step earlier ledger now).Ends (.ok (.ok plan))) :
    plan.agents = agents ∧ plan.earlier = earlier := by
  unfold Guard.decidePlan at h
  split at h
  · cases h
    exact ⟨rfl, rfl⟩
  · obtain ⟨_, -, h⟩ := Prog.ends_bind.mp h
    cases h
  · cases h
    exact ⟨rfl, rfl⟩

theorem wp_plan [FloatText] {env : GuardEnv} {e : ExecutionId} {agents : Agents}
    {toolCalls : UInt32} :
    wp (guards program).beside U (limitSpec agent card) (Guard.plan env e agents toolCalls)
      (fun r t => ∀ plan, r = .ok (.ok plan) → Planned agent e agents plan t) s := by
  unfold Guard.plan
  apply wp_bind
  refine wp_mono ?_ (wp_segmentChain _ e)
  intro r t _ hchain
  cases r with
  | error err =>
    intro plan h
    cases h
  | ok reply =>
    cases reply with
    | error what =>
      intro u _ _ plan h
      cases h
    | ok chain =>
      obtain ⟨earlier, hseg, rfl⟩ := hchain chain rfl
      have hearlier : (e :: earlier).reverse.filter (· ≠ e) = earlier.reverse := by
        rw [List.reverse_cons, List.filter_append]
        have hkeep : earlier.reverse.filter (· ≠ e) = earlier.reverse := by
          refine List.filter_eq_self.mpr fun p hp => ?_
          have hp := List.mem_reverse.mp hp
          simpa using fun h : p = e => hseg.not_mem (h ▸ hp)
        rw [hkeep]
        simp
      simp only [ends, hearlier]
      have hnone : Ledger.Counts {} agent (t.db.runSteps agent []) := Ledger.counts_nil agent
      apply wp_bind
      refine wp_mono ?_ (wp_keep (X := fun s : GuardSys => s.db.Segments e earlier)
        (fun _ _ hs hc => hs.mono hc) (fun op s hs => hs.of_rows (s.row_handle op))
        (wp_foldEarlier hnone (by simpa using hseg.hasChild)) hseg)
      rintro r u - ⟨hfold, hsegu⟩
      cases r with
      | error err =>
        intro plan h
        cases h
      | ok reply =>
        cases reply with
        | error what =>
          intro v _ _ plan h
          cases h
        | ok folded =>
          have hcounts := hfold folded rfl
          rw [List.reverse_reverse, List.append_nil] at hcounts
          have hplanned : ∀ plan : Plan, plan.agents = agents → plan.earlier = folded →
              Planned agent e agents plan u := by
            rintro plan rfl rfl
            exact ⟨rfl, earlier, hsegu, hcounts⟩
          apply wp_attemptCall
          intro v hv _
          refine ⟨good_of_quiet (quiet_read rfl rfl) v, fun _ => ?_, fun _ _ err => ?_⟩
          · simp only [guards_handle, GuardSys.handle, BackendOp.exec]
            split
            · intro w _ _ plan h
              cases h
            · rename_i ledger _
              apply wp_call
              intro w hw _
              refine ⟨trivial, fun _ => ?_, fun hf => by cases hf⟩
              simp only [guards_handle, GuardSys.handle, ends]
              refine wp_mono ?_ (wp_quiet (P := fun t => ∀ plan : Plan, plan.agents = agents →
                plan.earlier = folded → Planned agent e agents plan t)
                (within_decidePlan e agents ⟨toolCalls⟩ folded ledger w.clock)
                (fun _ _ h hc plan ha hl => (h plan ha hl).mono hc)
                fun plan ha hl => (hplanned plan ha hl).mono (Db.Closes.trans hv hw))
              rintro r x - ⟨hkept, hends⟩ plan rfl
              obtain ⟨hagents, hfolded⟩ := ends_decidePlan hends
              exact hkept plan hagents hfolded
          · intro w _ _ plan h
            cases h

theorem Planned.admitsWithin {e : ExecutionId} {agents : Agents} {plan : Plan} {node : NodeId}
    {approval : Option EventSequence} (hplan : Planned agent e agents plan s)
    (hkept : LimitsKept agent card s.db) (hcard : ∀ c, (agent, c) ∈ agents → c = some card)
    (hallowed : plan.stillAllowed node approval (s.db.events e).entries = true) :
    AdmitsWithin agent card s.db e (plan.agents.map (·.1)) plan.step.toolCalls.toNat approval := by
  obtain ⟨rfl, earlier, hseg, hcounts⟩ := hplan
  unfold Plan.stillAllowed at hallowed
  cases hfold : plan.earlier.applySegment (s.db.events e).entries with
  | none => simp [hfold] at hallowed
  | some ledger =>
    have hledger : ledger.Counts agent (s.db.runSteps agent (e :: earlier)) := by
      rw [Db.runSteps_cons]
      exact hcounts.applySegment (hkept.names e) hfold
    simp only [hfold] at hallowed
    constructor
    · rintro n rfl
      simp only [Bool.and_eq_true, decide_eq_true_eq] at hallowed
      exact unusedEscalation_eq_some hallowed.1
    · intro hmem
      obtain ⟨⟨name, constraints⟩, ha, rfl⟩ := List.mem_map.mp hmem
      obtain rfl := hcard constraints ha
      refine ⟨earlier, hseg, fun hfits hpast => ?_⟩
      -- where the check lets the step through, it is not past the limits
      have hcheck : (Autonomy.check (some card) (ledger.usage name plan.now) plan.step).isProceed ≠
          true := by
        intro hproceed
        rw [not_past_of_check hledger hfits approval hproceed] at hpast
        cases hpast
      cases approval with
      | none =>
        simp only [Option.isNone_iff_eq_none] at hallowed
        exact absurd ((firstStop_eq_none hallowed).2 _ ha) hcheck
      | some n =>
        simp only [Bool.and_eq_true, Bool.not_eq_true'] at hallowed
        refine ⟨?_, rfl⟩
        cases honlimit : onLimitOf (some card) with
        | fail => exact absurd (check_of_not_failStop hallowed.2 ha honlimit) hcheck
        | escalateToHuman => rfl

theorem wp_recordStep {e : ExecutionId} {node : NodeId} {workItemId : Option ℕ} {plan : Plan}
    {approval : Option EventSequence} {agents : Agents} (hplan : Planned agent e agents plan s)
    (hnames : (agents.map (·.1)).Nodup) (hcard : ∀ c, (agent, c) ∈ agents → c = some card) :
    wp (guards program).beside U (limitSpec agent card)
      (Guard.recordStep e node workItemId plan approval) (fun _ _ => True) s := by
  apply wp_call
  intro t ht _
  refine ⟨trivial, fun _ => ?_, fun hf => by cases hf⟩
  simp only [guards_handle, GuardSys.handle, ends]
  apply wp_attemptCall
  intro u hu hi
  refine ⟨⟨?_, fun hallowed => ?_⟩, fun _ => ?_, fun _ _ err _ _ _ => trivial⟩
  · rw [hplan.agents]
    exact hnames
  · exact (hplan.mono (Db.Closes.trans ht hu)).admitsWithin hi hcard hallowed
  · split <;> exact fun _ _ _ => trivial

theorem wp_admit {e : ExecutionId} {node : NodeId} {workItemId : Option ℕ} {plan : Plan}
    {agents : Agents} (hplan : Planned agent e agents plan s)
    (hnames : (agents.map (·.1)).Nodup) (hcard : ∀ c, (agent, c) ∈ agents → c = some card) :
    wp (guards program).beside U (limitSpec agent card) (Guard.admitStep e node workItemId plan)
      (fun _ _ => True) s := by
  unfold Guard.admitStep
  split
  · exact wp_recordStep hplan hnames hcard
  · apply wp_attemptCall
    intro t ht _
    refine ⟨good_of_quiet (quiet_read rfl rfl) t, fun _ => ?_, fun _ _ err _ _ _ => trivial⟩
    simp only [guards_handle, GuardSys.handle, BackendOp.exec]
    split
    · exact fun _ _ _ => trivial
    · exact wp_recordStep (hplan.mono ht) hnames hcard

variable [FloatText] {env : GuardEnv} {perCall : GuardRequest → Bool → GuardProg GuardOutcome}

omit [FloatText] in
theorem wp_quiet_true {α : Type} {p : GuardProg α} (hp : p.Within QuietCall) :
    wp (guards program).beside U (limitSpec agent card) p (fun _ _ => True) s :=
  wp_mono (fun _ _ _ _ => trivial) (wp_quiet hp (P := fun _ => True) (fun _ _ h _ => h) trivial)

/-- The policy chain admits no step, so what was planned is recorded on the log it finds. -/
theorem wp_firePlanned (hcalls : ∀ request gated, (perCall request gated).Within QuietCall)
    {r : AgentRequest} {plan : Plan} {agents : Agents}
    (hplan : Planned agent r.guard.executionId agents plan s) (hnames : (agents.map (·.1)).Nodup)
    (hcard : ∀ c, (agent, c) ∈ agents → c = some card) :
    wp (guards program).beside U (limitSpec agent card) (Guard.firePlanned env perCall r plan)
      (fun _ _ => True) s := by
  have hstable : ∀ s t : GuardSys, Planned agent r.guard.executionId agents plan s →
      s.db.Closes t.db → Planned agent r.guard.executionId agents plan t :=
    fun _ _ h hc => h.mono hc
  unfold Guard.firePlanned
  split
  · apply wp_bind
    refine wp_mono ?_ (wp_quiet (within_guardPolicy (hcalls r.guard) r.guard) hstable hplan)
    rintro res t - ⟨hplan, -⟩
    cases res with
    | error err => trivial
    | ok outcome =>
      cases outcome with
      | allow => exact wp_admit hplan hnames hcard
      | _ => exact fun _ _ _ => trivial
  · rename_i escalation _
    apply wp_attemptCall
    intro t ht _
    refine ⟨good_of_quiet (quiet_read rfl rfl) t, fun _ => ?_, fun _ _ err _ _ _ => trivial⟩
    simp only [guards_handle, GuardSys.handle, BackendOp.exec]
    apply wp_bind
    refine wp_mono ?_ (wp_quiet (within_guardPolicy (hcalls _) _) hstable (hplan.mono ht))
    rintro res u - ⟨hplan, -⟩
    cases res with
    | error err => trivial
    | ok outcome =>
      cases outcome with
      | allow => exact wp_admit hplan hnames hcard
      | held gated =>
        have hheld : ∀ raised : Bool, Prog.Within QuietCall (do
            if raised then
              Guard.recordStop r.guard.executionId escalation.decision true
            return .held gated : GuardProg GuardOutcome) := by
          intro raised
          cases raised with
          | false => exact Prog.within_pure _
          | true => exact .bind (within_recordStop _ _ _) fun _ => Prog.within_pure _
        refine wp_quiet_true (.bind (.attempt ?_) fun raised => hheld _)
        exact Prog.within_perform.mpr (quiet_read rfl rfl)
      | _ => exact fun _ _ _ => trivial

theorem wp_guardItem (hcalls : ∀ request gated, (perCall request gated).Within QuietCall)
    {r : AgentRequest} (hjob : (segmentsClosed agent card).jobOk r) :
    wp (guards program).beside U (limitSpec agent card) (Guard.guardItem env perCall r)
      (fun _ _ => True) s := by
  unfold Guard.guardItem
  apply wp_bind
  refine wp_mono ?_ (wp_quiet (within_agentCard r) (P := fun _ => True) (fun _ _ h _ => h) trivial)
  rintro res t - ⟨-, hends⟩
  cases res with
  | error err => trivial
  | ok read =>
    cases read with
    | error refused => exact fun _ _ _ => trivial
    | ok cards =>
      simp only [ends]
      split
      · exact fun _ _ _ => trivial
      · rename_i called hcalled
        have hread := (ends_agentCard hends).withCallee hcalled
        have hcard : ∀ c, (agent, c) ∈ Guard.withCallee cards called → c = some card := by
          intro c hc
          obtain ⟨registry, hregistry, hc⟩ := hread.cards _ hc
          exact hjob registry c hregistry hc
        split
        · exact wp_quiet_true (within_guardPolicy (hcalls _) _)
        · split
          · refine wp_quiet_true (.bind (within_completionAdmitted _ _) fun admitted => ?_)
            cases admitted with
            | error refused => exact Prog.within_pure _
            | ok _ => exact within_guardPolicy (hcalls _) _
          · exact fun _ _ _ => trivial
          · apply wp_bind
            refine wp_mono ?_ wp_plan
            intro res u _ hplan
            cases res with
            | error err => trivial
            | ok reply =>
              cases reply with
              | error refused => exact fun _ _ _ => trivial
              | ok plan => exact wp_firePlanned hcalls (hplan plan rfl) hread.names hcard

end Runs

/-- Any number of calls of the guard, each for a work item; everything else happens beside them. -/
abbrev agentGuards [FloatText] [Chrono] (env : GuardEnv)
    (perCall : GuardRequest → Bool → GuardProg GuardOutcome) :
    Service GuardCall BackendError GuardOutcome GuardSys ServerAct AgentRequest :=
  guards (Guard.guardItem env perCall)

abbrev GuardMove := PoolMove BackendError ServerAct AgentRequest

section Limits

variable [FloatText] [Chrono] {env : GuardEnv}
  {perCall : GuardRequest → Bool → GuardProg GuardOutcome} {agent : String}
  {card : AutonomyConstraints}

theorem limits_sound (hcalls : ∀ request gated, (perCall request gated).Within QuietCall) :
    SoundIn (agentGuards env perCall) (segmentsClosed agent card) (limitSpec agent card) where
  act a s hs ha := by
    cases a with
    | call op => exact LimitsKept.quiet hs ha.1 ha.2
    | setClock now => exact ⟨hs, .refl s.db⟩
  call op s hs hgood hrule := handle_limits hs hgood hrule
  job j s hj _ := wp_guardItem hcalls hj

omit [FloatText] in
theorem limitsKept_empty : LimitsKept agent card {} where
  homed _ _ := rfl
  parents e x p hx := by cases hx
  names e x hx := by cases hx
  once e := List.nodup_nil
  approved e := List.nil_subset _
  released e earlier h := by cases h with
    | root hx => cases hx
    | next hx => cases hx

omit [FloatText] in
theorem length_approvals_le {db : Db} (h : LimitsKept agent card db) (segments : List ExecutionId) :
    ((db.runSteps agent segments).filter fun step => step.approval.isSome).length ≤
      (db.runApprovals segments).length := by
  induction segments with
  | nil => simp [Db.runSteps]
  | cons e segments ih =>
    have hown : ((stepsOf agent (db.events e).entries).filter fun step => step.approval.isSome).length ≤
        (usedApprovals (db.events e).entries).length := by
      generalize (db.events e).entries = events
      induction events with
      | nil => simp [stepsOf]
      | cons x events ih =>
        simp only [stepsOf, usedApprovals, List.filterMap_cons] at ih ⊢
        have hstep : ∀ step, stepOf agent x = some step → step.approval = approvalOf x := by
          intro step hstep
          unfold stepOf at hstep
          split at hstep
          · rename_i hkind
            split at hstep
            · cases hstep
              simp [approvalOf, hkind]
            · cases hstep
          · cases hstep
        cases hs : stepOf agent x with
        | none => cases approvalOf x <;> simp <;> omega
        | some step =>
          have happroval := hstep step hs
          cases ha : approvalOf x with
          | none =>
            rw [ha] at happroval
            simpa [happroval] using ih
          | some n =>
            rw [ha] at happroval
            simpa [happroval] using ih
    have hused := ((h.once e).subperm (h.approved e)).length_le
    rw [Db.runSteps_cons, List.filter_append, List.length_append]
    simp only [Db.runApprovals, List.flatMap_cons, List.length_append, List.length_map] at ih ⊢
    omega

/-- An agent's limits hold in every state of a run that records no step in a segment that has been
continued.  A card that fails is never past its limits of steps and of tool calls.  Under a card
that escalates the steps past a limit are no more than the approved requests about it, and no
approval releases two steps. -/
theorem agent_limits_hold (hcalls : ∀ request gated, (perCall request gated).Within QuietCall)
    {clock : Instant} {ms : List GuardMove}
    (hms : (segmentsClosed agent card).ObeyedIn (agentGuards env perCall)
      (idlePool ⟨{}, clock⟩) ms) {db : Db}
    (hdb : ((idlePool ⟨{}, clock⟩ : Pool GuardCall BackendError GuardOutcome GuardSys).run
      (agentGuards env perCall) ms).state.db = db) :
    (∀ e earlier, db.Segments e earlier →
      (onLimitOf (some card) = .fail →
        (∀ max, card.maxIterations = some max →
          (db.runSteps agent (e :: earlier)).length ≤ max.toNat) ∧
        ∀ max, card.maxToolCalls = some max →
          callsOf (db.runSteps agent (e :: earlier)) ≤ max.toNat) ∧
      (card.pastSteps [] (db.runSteps agent (e :: earlier))).length ≤
        (db.runApprovals (e :: earlier)).length) ∧
    ∀ e, (usedApprovals (db.events e).entries).Nodup ∧
      usedApprovals (db.events e).entries ⊆ approvedEscalations (db.events e).entries := by
  have hstart : (limitSpec agent card).inv ⟨{}, clock⟩ := limitsKept_empty
  have hmeets := Pool.Meets.run (limits_sound hcalls) (Pool.meets_idle hstart) hms
  have hkept : LimitsKept agent card db := hdb ▸ hmeets.1
  refine ⟨fun e earlier hseg => ⟨fun hfail => ?_, ?_⟩, fun e => ⟨hkept.once e, hkept.approved e⟩⟩
  · refine AutonomyConstraints.within_of_pastSteps ?_
    rw [List.eq_nil_iff_forall_not_mem]
    intro step hstep
    have hreleased := (hkept.released e earlier hseg step hstep).1
    rw [hfail] at hreleased
    cases hreleased
  · have hsub := (card.pastSteps_subset (db.runSteps agent (e :: earlier)) []).filter
      fun step => step.approval.isSome
    have hall : (card.pastSteps [] (db.runSteps agent (e :: earlier))).filter
        (fun step => step.approval.isSome) = card.pastSteps [] (db.runSteps agent (e :: earlier)) :=
      List.filter_eq_self.mpr fun step hstep => (hkept.released e earlier hseg step hstep).2
    rw [hall] at hsub
    exact hsub.length_le.trans (length_approvals_le hkept _)

end Limits

/-- A card that lets its agent take two steps. -/
def twoSteps : AutonomyConstraints := { maxIterations := some 2 }

/-- An item of an execution whose workflow acts for the agent. -/
def botStep (e : ExecutionId) : AgentRequest where
  guard := { payRequest none none with executionId := e, workflowPolicy := none }
  scope := { workflowAgent := some "bot", registry := some fun _ => .card (some twoSteps) }
  workItemId := none
  toolCalls := .ok 0

abbrev botGuards : Service GuardCall BackendError GuardOutcome GuardSys ServerAct AgentRequest :=
  @agentGuards bitsText firstDay payEnv fun _ _ => return .allow

/-- A guard call from its start to the record of its step, over this many calls. -/
def wholeCall (i : ℕ) (e : ExecutionId) (calls : ℕ) : List GuardMove :=
  .spawn i (botStep e) :: List.replicate calls (.advance i)

/-- A step of the first segment, and one of its continuation. -/
def continuedRun : List GuardMove :=
  .outside (.call startOne) :: wholeCall 0 0 5 ++
    .outside (.call (startNextSegment 0 1 1 (Materializer.ofInitialInput (.object [])) "wf" "1.0.0"
      "a" "default" "default" 0 none)) :: wholeCall 1 1 7

def afterGuards (ms : List GuardMove) : Db :=
  ((idlePool ⟨{}, 0⟩ : Pool GuardCall BackendError GuardOutcome GuardSys).run botGuards ms).state.db

theorem botStep_allowed (e : ExecutionId) : (segmentsClosed "bot" twoSteps).jobOk (botStep e) := by
  intro registry constraints hregistry hcard
  cases hregistry
  cases hcard
  rfl

theorem continuedRun_obeys :
    (segmentsClosed "bot" twoSteps).ObeyedIn botGuards (idlePool ⟨{}, 0⟩) continuedRun := by
  refine ⟨⟨by simp [startOne, startRun, BackendOp.kinds, EventKind.isStep], fun x p hx hp => ?_⟩,
    botStep_allowed 0, trivial, trivial, trivial, trivial, fun _ _ => ⟨by decide +kernel, ?_⟩,
    ⟨by simp [startNextSegment, BackendOp.kinds, EventKind.isStep], fun x p hx hp => ?_⟩,
    botStep_allowed 1, trivial, trivial, trivial, trivial, trivial, trivial,
    fun _ _ => ⟨by decide +kernel, ?_⟩, trivial⟩
  · cases hx
    cases hp
  · intro earlier h
    cases h with
    | root hx hp => decide +kernel
    | next hx hp h =>
      cases hx
      cases hp
  · cases hx
    cases hp
    decide +kernel
  · intro earlier h
    cases h with
    | root hx hp =>
      cases hx
      cases hp
    | next hx hp h =>
      cases hx
      cases hp
      cases h with
      | root hx hp => decide +kernel
      | next hx hp h =>
        cases hx
        cases hp

theorem agent_limits_hold_in_continued_run :
    (segmentsClosed "bot" twoSteps).ObeyedIn botGuards (idlePool ⟨{}, 0⟩) continuedRun ∧
      ((afterGuards continuedRun).runSteps "bot" [1, 0]).length = 2 ∧
      ((afterGuards continuedRun).runSteps "bot" [1, 0]).length ≤ 2 := by
  have hsegments : (afterGuards continuedRun).Segments 1 [0] := .next rfl rfl (.root rfl rfl)
  have hlimits := @agent_limits_hold bitsText firstDay payEnv (fun _ _ => return .allow) "bot"
    twoSteps (fun _ _ => Prog.within_pure _) 0 continuedRun continuedRun_obeys
    (afterGuards continuedRun) rfl
  exact ⟨continuedRun_obeys, by decide +kernel, ((hlimits.1 1 [0] hsegments).1 rfl).1 2 rfl⟩

/-- The first segment is not closed yet when its continuation has taken the second step, and takes
another: a third step under a card of two. -/
theorem limit_passed_across_segments :
    onLimitOf (some twoSteps) = .fail ∧ twoSteps.maxIterations = some 2 ∧
      (afterGuards (continuedRun ++ wholeCall 2 0 5)).Segments 1 [0] ∧
      ((afterGuards (continuedRun ++ wholeCall 2 0 5)).runSteps "bot" [1, 0]).length = 3 :=
  ⟨rfl, rfl, .next rfl rfl (.root rfl rfl), by decide +kernel⟩

end JamJet
