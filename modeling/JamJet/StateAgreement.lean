import JamJet.Engine
import JamJet.OrderedMap

/-! The workflow state is folded twice: the scheduler inserts the members of each patch into the
state it dispatches nodes with, the materializer merges the patches into the state it records.
When do the two agree? -/

namespace JamJet

namespace Json

mutual

/-- Every object's keys are in order, as `serde_json`'s map keeps them. -/
def WellFormed : Json → Prop
  | .object fields => BTree.Sorted fields ∧ WellFormedFields fields
  | .array items => WellFormedItems items
  | _ => True

def WellFormedFields : List (String × Json) → Prop
  | [] => True
  | (_, v) :: rest => v.WellFormed ∧ WellFormedFields rest

def WellFormedItems : List Json → Prop
  | [] => True
  | v :: rest => v.WellFormed ∧ WellFormedItems rest

end

/-- The members of an object; nothing else has any. -/
def members : Json → JsonMap
  | .object fields => fields
  | _ => []

@[simp]
theorem members_object (fields : JsonMap) : (object fields).members = fields := rfl

mutual

/-- Merging `new` over `old` leaves nothing of `old`. -/
def Replaces (old : Json) : Json → Prop
  | .null => False
  | .object fields =>
      (∀ kv ∈ old.members, (BTree.get fields kv.1).isSome = true) ∧ ReplacesFields old fields
  | _ => True

def ReplacesFields (old : Json) : List (String × Json) → Prop
  | [] => True
  | (k, v) :: rest => Replaces ((BTree.get old.members k).getD .null) v ∧ ReplacesFields old rest

end

mutual

/-- Merging `new` over `old` leaves `old` as it was. -/
def Keeps (old : Json) : Json → Prop
  | .null => True
  | .object fields => (∃ had, old = .object had) ∧ KeepsFields old fields
  | other => old = other

def KeepsFields (old : Json) : List (String × Json) → Prop
  | [] => True
  | (k, .null) :: rest => BTree.get old.members k = none ∧ KeepsFields old rest
  | (k, v) :: rest =>
      (∃ had, BTree.get old.members k = some had ∧ Keeps had v) ∧ KeepsFields old rest

end

theorem wellFormedFields_iff {fields : JsonMap} :
    WellFormedFields fields ↔ ∀ kv ∈ fields, kv.2.WellFormed := by
  induction fields with
  | nil => simp [WellFormedFields]
  | cons kv fields ih => simp [WellFormedFields, ih]

theorem replacesFields_iff {old : Json} {fields : JsonMap} : ReplacesFields old fields ↔
    ∀ kv ∈ fields, Replaces ((BTree.get old.members kv.1).getD .null) kv.2 := by
  induction fields with
  | nil => simp [ReplacesFields]
  | cons kv fields ih => simp [ReplacesFields, ih]

theorem wellFormed_object {fields : JsonMap} : (object fields).WellFormed ↔
    BTree.Sorted fields ∧ ∀ kv ∈ fields, kv.2.WellFormed := by
  rw [WellFormed, wellFormedFields_iff]

theorem WellFormed.sorted {v : Json} (h : v.WellFormed) : BTree.Sorted v.members := by
  cases v with
  | object fields => exact (wellFormed_object.mp h).1
  | _ => exact BTree.sorted_nil

theorem WellFormed.member {v : Json} (h : v.WellFormed) {kv : String × Json}
    (hkv : kv ∈ v.members) : kv.2.WellFormed := by
  cases v with
  | object fields => exact (wellFormed_object.mp h).2 kv hkv
  | _ => cases hkv

theorem WellFormed.getD {v : Json} (h : v.WellFormed) (k : String) :
    ((BTree.get v.members k).getD .null).WellFormed := by
  cases hget : BTree.get v.members k with
  | none => simp [WellFormed]
  | some w => exact h.member (BTree.mem_of_get hget)

/-- What a member of a patch must be for the merge to leave the object as it was. -/
def KeepsMember (old : Option Json) (v : Json) : Prop :=
  match v with
  | .null => old = none
  | v => ∃ had, old = some had ∧ Keeps had v

theorem keepsFields_iff {old : Json} {fields : JsonMap} : KeepsFields old fields ↔
    ∀ kv ∈ fields, KeepsMember (BTree.get old.members kv.1) kv.2 := by
  induction fields with
  | nil => simp [KeepsFields]
  | cons kv fields ih =>
    obtain ⟨k, v⟩ := kv
    cases v <;> simp [KeepsFields, KeepsMember, ih]

end Json

open Json Materializer

/-! Merge patches -/

/-- What a member of a patch makes of the value under its key. -/
def mergeMember (old : Option Json) (v : Json) : Option Json :=
  match v with
  | .null => none
  | v => some (jsonMergePatch (old.getD .null) v)

theorem mergeFields_cons (fields : JsonMap) (k : String) (v : Json) (rest : JsonMap) :
    mergeFields fields ((k, v) :: rest) = mergeFields (match mergeMember (BTree.get fields k) v with
      | none => BTree.remove fields k
      | some new => BTree.insert fields k new) rest := by
  cases v <;> simp [mergeFields, mergeMember]

theorem jsonMergePatch_object (target : Json) (patch : JsonMap) :
    jsonMergePatch target (.object patch) = .object (mergeFields target.members patch) := by
  cases target <;> simp [jsonMergePatch, members]

theorem sorted_mergeFields {fields : JsonMap} (h : BTree.Sorted fields) (patch : JsonMap) :
    BTree.Sorted (mergeFields fields patch) := by
  induction patch generalizing fields with
  | nil => simpa [mergeFields] using h
  | cons kv patch ih =>
    rw [mergeFields_cons]
    cases mergeMember (BTree.get fields kv.1) kv.2 with
    | none => exact ih (h.remove kv.1)
    | some new => exact ih (h.insert kv.1 new)

theorem get_mergeFields {fields patch : JsonMap} (hp : BTree.Sorted patch) (k : String) :
    BTree.get (mergeFields fields patch) k =
      match BTree.get patch k with
      | none => BTree.get fields k
      | some v => mergeMember (BTree.get fields k) v := by
  induction patch generalizing fields with
  | nil => simp [mergeFields]
  | cons kv patch ih =>
    obtain ⟨hlt, hp⟩ := List.pairwise_cons.mp hp
    rw [mergeFields_cons, ih hp, BTree.get_cons]
    by_cases hk : kv.1 = k
    · subst hk
      rw [BTree.get_eq_none_of_lt hlt, if_pos rfl]
      cases hnew : mergeMember (BTree.get fields kv.1) kv.2 with
      | none => simp [BTree.get_remove, hnew]
      | some new => simp [BTree.get_insert, hnew]
    · rw [if_neg hk]
      have hsame : BTree.get (match mergeMember (BTree.get fields kv.1) kv.2 with
          | none => BTree.remove fields kv.1
          | some new => BTree.insert fields kv.1 new) k = BTree.get fields k := by
        cases mergeMember (BTree.get fields kv.1) kv.2 with
        | none => simp [BTree.get_remove, hk]
        | some new => simp [BTree.get_insert, hk]
      rw [hsame]

theorem mergeMember_eq_iff {old : Option Json} {v : Json}
    (h : v ≠ .null → (jsonMergePatch (old.getD .null) v = v ↔ Replaces (old.getD .null) v)) :
    mergeMember old v = some v ↔ Replaces (old.getD .null) v := by
  cases v with
  | null => simp [mergeMember, Replaces]
  | _ => simpa [mergeMember] using h (by simp)

/-- A merge against members that differ from those before it at most where the patch speaks: the keys of
the patch decide. -/
theorem mergeFields_eq_iff {fields patch m : JsonMap} (hf : BTree.Sorted fields)
    (hp : BTree.Sorted patch) (hm : BTree.Sorted m)
    (helse : ∀ k, BTree.get patch k = none → BTree.get m k = BTree.get fields k)
    {P : String × Json → Prop}
    (hkey : ∀ kv ∈ patch, (mergeMember (BTree.get fields kv.1) kv.2 = BTree.get m kv.1 ↔ P kv)) :
    mergeFields fields patch = m ↔ ∀ kv ∈ patch, P kv := by
  have hmerged : ∀ kv ∈ patch, BTree.get (mergeFields fields patch) kv.1 =
      mergeMember (BTree.get fields kv.1) kv.2 := by
    intro kv hkv
    rw [get_mergeFields hp, hp.get_of_mem hkv]
  constructor
  · intro heq kv hkv
    exact (hkey kv hkv).mp (by rw [← hmerged kv hkv, heq])
  · intro hall
    refine (sorted_mergeFields hf patch).ext hm fun k => ?_
    cases hget : BTree.get patch k with
    | none => rw [get_mergeFields hp, hget, helse k hget]
    | some v =>
      have hmem := BTree.mem_of_get hget
      exact (hmerged (k, v) hmem).trans ((hkey (k, v) hmem).mpr (hall _ hmem))

theorem mergeFields_eq_insertAll_iff {fields patch : JsonMap} (hf : BTree.Sorted fields)
    (hp : BTree.Sorted patch)
    (h : ∀ kv ∈ patch, kv.2 ≠ .null →
      (jsonMergePatch ((BTree.get fields kv.1).getD .null) kv.2 = kv.2 ↔
        Replaces ((BTree.get fields kv.1).getD .null) kv.2)) :
    mergeFields fields patch = BTree.insertAll fields patch ↔
      ∀ kv ∈ patch, Replaces ((BTree.get fields kv.1).getD .null) kv.2 := by
  refine mergeFields_eq_iff hf hp (hf.insertAll patch) (fun k hk => ?_) fun kv hkv => ?_
  · rw [BTree.get_insertAll hp, hk, Option.none_or]
  · rw [BTree.get_insertAll hp, hp.get_of_mem hkv]
    exact mergeMember_eq_iff (h kv hkv)

theorem jsonMergePatch_eq_patch_iff (old new : Json) (ho : old.WellFormed) (hn : new.WellFormed) :
    new ≠ .null → (jsonMergePatch old new = new ↔ Replaces old new) := by
  intro hne
  match new, hn, hne with
  | .object patch, hn, _ =>
    have hsorted : BTree.Sorted patch := hn.sorted
    have hinsert := mergeFields_eq_insertAll_iff ho.sorted hsorted fun kv hkv hnull =>
      jsonMergePatch_eq_patch_iff _ kv.2 (ho.getD kv.1) (hn.member hkv) hnull
    rw [jsonMergePatch_object, Json.object.injEq, Replaces, replacesFields_iff, ← hinsert]
    constructor
    · intro heq
      have hkeys : ∀ kv ∈ old.members, (BTree.get patch kv.1).isSome = true := by
        intro kv hkv
        have hget : BTree.get (mergeFields old.members patch) kv.1 = _ := get_mergeFields hsorted kv.1
        rw [heq, ho.sorted.get_of_mem hkv] at hget
        cases hp : BTree.get patch kv.1 with
        | none => simp [hp] at hget
        | some w => rfl
      exact ⟨hkeys, by rw [heq, ho.sorted.insertAll_eq_patch hsorted hkeys]⟩
    · rintro ⟨hkeys, heq⟩
      rw [heq, ho.sorted.insertAll_eq_patch hsorted hkeys]
  | .bool b, _, _ => simp [jsonMergePatch, Replaces]
  | .number n, _, _ => simp [jsonMergePatch, Replaces]
  | .string s, _, _ => simp [jsonMergePatch, Replaces]
  | .array items, _, _ => simp [jsonMergePatch, Replaces]
termination_by sizeOf new
decreasing_by exact Json.sizeOf_member_lt hkv

theorem mergeMember_eq_old_iff {old : Option Json} {v : Json}
    (h : ∀ had, old = some had → (jsonMergePatch had v = had ↔ Keeps had v)) :
    mergeMember old v = old ↔ KeepsMember old v := by
  cases v with
  | null => exact eq_comm
  | _ =>
    cases old with
    | none => simp [mergeMember, KeepsMember]
    | some had => simpa [mergeMember, KeepsMember] using h had rfl

theorem mergeFields_eq_self_iff {fields patch : JsonMap} (hf : BTree.Sorted fields)
    (hp : BTree.Sorted patch)
    (h : ∀ kv ∈ patch, ∀ had, BTree.get fields kv.1 = some had →
      (jsonMergePatch had kv.2 = had ↔ Keeps had kv.2)) :
    mergeFields fields patch = fields ↔
      ∀ kv ∈ patch, KeepsMember (BTree.get fields kv.1) kv.2 := by
  exact mergeFields_eq_iff hf hp hf (fun _ _ => rfl) fun kv hkv => mergeMember_eq_old_iff (h kv hkv)

theorem jsonMergePatch_eq_target_iff (old new : Json) (ho : old.WellFormed) (hn : new.WellFormed) :
    jsonMergePatch old new = old ↔ Keeps old new := by
  match new, hn with
  | .null, _ => simp [jsonMergePatch, Keeps]
  | .bool b, _ => simp [jsonMergePatch, Keeps, eq_comm]
  | .number n, _ => simp [jsonMergePatch, Keeps, eq_comm]
  | .string s, _ => simp [jsonMergePatch, Keeps, eq_comm]
  | .array items, _ => simp [jsonMergePatch, Keeps, eq_comm]
  | .object patch, hn =>
    have hself := mergeFields_eq_self_iff ho.sorted hn.sorted fun kv hkv had hhad =>
      jsonMergePatch_eq_target_iff had kv.2 (ho.member (BTree.mem_of_get hhad)) (hn.member hkv)
    rw [jsonMergePatch_object, Keeps, keepsFields_iff]
    cases old with
    | object fields => simpa using hself
    | _ => simp
termination_by sizeOf new
decreasing_by exact Json.sizeOf_member_lt hkv

/-! The two folds -/

/-- The JSON values both folds read are well formed. -/
def EventKind.JsonWellFormed : EventKind → Prop
  | .workflowStarted input _ => input.WellFormed
  | .nodeCompleted _ result => result.statePatch.WellFormed
  | .approvalReceived _ answer => ∀ patch ∈ answer.statePatch, patch.WellFormed
  | _ => True

def EventKind.isWorkflowCompleted : EventKind → Bool
  | .workflowCompleted _ => true
  | _ => false

/-- The value last written under a top-level key, by the input or by the patch of a node. -/
def lastWritten (log : List Event) (k : String) : Option Json :=
  log.foldl (fun had event => match event.kind with
    | .workflowStarted input _ => (BTree.get input.members k).or had
    | .nodeCompleted _ result => (BTree.get result.statePatch.members k).or had
    | _ => had) none

/-- An event that both folds read the same way, where `written` is what the keys hold. -/
def EventKind.Plain (written : String → Option Json) : EventKind → Prop
  | .workflowStarted input _ => ∀ kv ∈ input.members, written kv.1 = some kv.2
  | .nodeCompleted _ result =>
      match result.statePatch with
      | .object patch => ∀ kv ∈ patch, Replaces ((written kv.1).getD .null) kv.2
      | .null => True
      | _ => False
  | .approvalReceived _ answer =>
      match answer.statePatch with
      | some (.object patch) => ∀ kv ∈ patch, KeepsMember (written kv.1) kv.2
      | none | some .null => True
      | some _ => False
  | _ => True

/-- The state the scheduler dispatches with is the state the materializer records. -/
def StatesAgree [Chrono] (initialInput : Json) (log : List Event) : Prop :=
  Json.object (ExecProgress.applyAll {} log).finalState =
    (applyEventsSeeded (ofInitialInput initialInput) log).currentState

section Folds

variable [Chrono]

theorem finalState_apply (p : ExecProgress) (event : Event) :
    (p.apply event).finalState = match event.kind with
      | .workflowStarted input _ => BTree.insertAll p.finalState input.members
      | .nodeCompleted _ result => BTree.insertAll p.finalState result.statePatch.members
      | _ => p.finalState := by
  obtain ⟨sequence, kind⟩ := event
  cases kind with
  | workflowStarted input initiatedBy => cases input <;> rfl
  | nodeCompleted node result =>
    obtain ⟨output, statePatch⟩ := result
    cases statePatch <;> rfl
  | nodeScheduled | nodeStarted | retryScheduled =>
    simp only [ExecProgress.apply, ExecProgress.applyKind, ExecProgress.markScheduled]
    split <;> rfl
  | nodeFailed node error attempt retryable => cases retryable <;> rfl
  | approvalReceived node answer =>
    simp only [ExecProgress.apply, ExecProgress.applyKind]
    split
    · split <;> rfl
    · rfl
  | approvalExpired node requestSequence expiresAt principal =>
    simp only [ExecProgress.apply, ExecProgress.applyKind]
    split <;> rfl
  | _ => rfl

omit [Chrono] in
theorem currentState_applyEvent (base : MaterializedState) (event : Event)
    (h : event.kind.isWorkflowCompleted = false) :
    (applyEvent base event).currentState = match event.kind with
      | .nodeCompleted _ result => jsonMergePatch base.currentState result.statePatch
      | .approvalReceived _ answer =>
          jsonMergePatch base.currentState (answer.statePatch.getD .null)
      | _ => base.currentState := by
  obtain ⟨sequence, kind⟩ := event
  cases kind with
  | workflowCompleted => cases h
  | interruptRaised node =>
    simp only [applyEvent]
    split <;> rfl
  | approvalReceived node answer =>
    simp only [applyEvent]
    cases answer.statePatch with
    | none => simp [jsonMergePatch]
    | some patch => rfl
  | _ => rfl

theorem agree_apply_iff {p : ExecProgress} {base : MaterializedState} {event : Event}
    (hsame : base.currentState = .object p.finalState) (hstate : (Json.object p.finalState).WellFormed)
    (hopen : event.kind.isWorkflowCompleted = false) (hwf : event.kind.JsonWellFormed) :
    Json.object (p.apply event).finalState = (applyEvent base event).currentState ↔
      event.kind.Plain (BTree.get p.finalState) := by
  rw [finalState_apply, currentState_applyEvent base event hopen, hsame]
  generalize event.kind = kind at hopen hwf ⊢
  have hsorted : BTree.Sorted p.finalState := hstate.sorted
  cases kind with
  | workflowStarted input initiatedBy =>
    simp only [Json.object.injEq, EventKind.Plain]
    exact hsorted.insertAll_eq_self_iff hwf.sorted
  | nodeCompleted node result =>
    simp only [EventKind.JsonWellFormed] at hwf
    simp only [EventKind.Plain]
    generalize result.statePatch = patch at hwf ⊢
    cases patch with
    | object patch =>
      rw [jsonMergePatch_object, Json.object.injEq, eq_comm]
      refine mergeFields_eq_insertAll_iff hsorted hwf.sorted fun kv hkv hnull => ?_
      exact jsonMergePatch_eq_patch_iff _ kv.2 (hstate.getD kv.1) (hwf.member hkv) hnull
    | null => simp [jsonMergePatch, members, BTree.insertAll]
    | _ => simp [jsonMergePatch]
  | approvalReceived node answer =>
    simp only [EventKind.JsonWellFormed] at hwf
    simp only [EventKind.Plain]
    generalize answer.statePatch = patch at hwf ⊢
    cases patch with
    | none => simp [jsonMergePatch]
    | some patch =>
      have hpatch := hwf patch rfl
      cases patch with
      | object patch =>
        simp only [Option.getD_some]
        rw [eq_comm, jsonMergePatch_eq_target_iff _ _ hstate hpatch, Keeps, keepsFields_iff]
        simp
      | null => simp [jsonMergePatch]
      | _ => simp [jsonMergePatch]
  | _ => simp [EventKind.Plain]

theorem wellFormed_finalState_apply {p : ExecProgress} {event : Event}
    (hstate : (Json.object p.finalState).WellFormed) (hwf : event.kind.JsonWellFormed) :
    (Json.object (p.apply event).finalState).WellFormed := by
  have hinsert : ∀ {patch : Json}, patch.WellFormed →
      (Json.object (BTree.insertAll p.finalState patch.members)).WellFormed := by
    intro patch hpatch
    refine wellFormed_object.mpr ⟨hstate.sorted.insertAll _, fun kv hkv => ?_⟩
    exact (BTree.mem_insertAll hkv).elim hpatch.member hstate.member
  rw [finalState_apply]
  generalize event.kind = kind at hwf ⊢
  cases kind with
  | workflowStarted input initiatedBy => exact hinsert hwf
  | nodeCompleted node result => exact hinsert hwf
  | _ => exact hstate

/-- The scheduler's state after a log is well formed, and holds under each key the value last
written there. -/
theorem finalState_applyAll {log : List Event} (hwf : ∀ event ∈ log, event.kind.JsonWellFormed) :
    (Json.object (ExecProgress.applyAll {} log).finalState).WellFormed ∧
      BTree.get (ExecProgress.applyAll {} log).finalState = lastWritten log := by
  induction log using List.reverseRecOn with
  | nil => exact ⟨wellFormed_object.mpr ⟨BTree.sorted_nil, by simp [ExecProgress.applyAll]⟩, rfl⟩
  | append_singleton log event ih =>
    obtain ⟨hstate, hget⟩ := ih fun e he => hwf e (by simp [he])
    have hevent := hwf event (by simp)
    rw [ExecProgress.applyAll_append]
    refine ⟨wellFormed_finalState_apply hstate hevent, ?_⟩
    change BTree.get ((ExecProgress.applyAll {} log).apply event).finalState = _
    rw [finalState_apply]
    funext k
    simp only [lastWritten, List.foldl_append, List.foldl_cons, List.foldl_nil]
    generalize event.kind = kind at hevent ⊢
    cases kind with
    | workflowStarted input initiatedBy => rw [BTree.get_insertAll hevent.sorted, hget]; rfl
    | nodeCompleted node result => rw [BTree.get_insertAll hevent.sorted, hget]; rfl
    | _ => rw [hget]; rfl

theorem statesAgree_concat {initialInput : Json} {log : List Event} {event : Event}
    (hwf : ∀ e ∈ log ++ [event], e.kind.JsonWellFormed)
    (hopen : event.kind.isWorkflowCompleted = false) (h : StatesAgree initialInput log) :
    StatesAgree initialInput (log ++ [event]) ↔ event.kind.Plain (lastWritten log) := by
  have hlog : ∀ e ∈ log, e.kind.JsonWellFormed := fun e he => hwf e (by simp [he])
  obtain ⟨hstate, hget⟩ := finalState_applyAll hlog
  rw [StatesAgree, ExecProgress.applyAll_append, applyEventsSeeded_append, ← hget]
  exact agree_apply_iff h.symm hstate hopen (hwf event (by simp))

theorem statesAgree_started {sequence : EventSequence} {input : JsonMap}
    {initiatedBy : Option String}
    (hwf : (Json.object input).WellFormed) :
    StatesAgree (.object input) [⟨sequence, .workflowStarted (.object input) initiatedBy⟩] := by
  have hstart : BTree.insertAll [] input = input :=
    BTree.sorted_nil.insertAll_eq_patch hwf.sorted (by simp)
  change Json.object (BTree.insertAll [] input) = Json.object input
  rw [hstart]

/-- On a log that starts with the object the run was started with, the two states agree after
every event just when every event is plain: a node's patch replaces what it overwrites, without
null members, and an approval's patch changes nothing. -/
theorem states_agree_iff_plain {sequence : EventSequence} {input : JsonMap}
    {initiatedBy : Option String} {rest : List Event}
    (hinput : (Json.object input).WellFormed)
    (hwf : ∀ event ∈ rest, event.kind.JsonWellFormed)
    (hopen : ∀ event ∈ rest, event.kind.isWorkflowCompleted = false) :
    (∀ log, log <+: rest →
      StatesAgree (.object input) (⟨sequence, .workflowStarted (.object input) initiatedBy⟩ :: log)) ↔
    ∀ log event, log ++ [event] <+: rest →
      event.kind.Plain (lastWritten (⟨sequence, .workflowStarted (.object input) initiatedBy⟩ :: log)) := by
  have hstep : ∀ log event, log ++ [event] <+: rest →
      StatesAgree (.object input) (⟨sequence, .workflowStarted (.object input) initiatedBy⟩ :: log) →
      (StatesAgree (.object input)
          (⟨sequence, .workflowStarted (.object input) initiatedBy⟩ :: (log ++ [event])) ↔
        event.kind.Plain (lastWritten (⟨sequence, .workflowStarted (.object input) initiatedBy⟩ :: log))) := by
    intro log event hpre hlog
    have hmem : ∀ e ∈ log ++ [event], e ∈ rest := fun e he => hpre.subset he
    refine statesAgree_concat (fun e he => ?_) (hopen event (hmem event (by simp))) hlog
    rcases List.mem_cons.mp he with rfl | he
    · exact hinput
    · exact hwf e (hmem e he)
  have hshorter : ∀ {log event}, log ++ [event] <+: rest → log <+: rest := fun hpre =>
    (List.prefix_append _ _).trans hpre
  constructor
  · intro hall log event hpre
    exact (hstep log event hpre (hall log (hshorter hpre))).mp (hall _ hpre)
  · intro hplain log
    induction log using List.reverseRecOn with
    | nil => exact fun _ => statesAgree_started hinput
    | append_singleton log event ih =>
      intro hpre
      exact (hstep log event hpre (ih (hshorter hpre))).mpr (hplain log event hpre)

end Folds

/-- A completed node with this patch. -/
def patched (sequence : EventSequence) (statePatch : Json) : Event :=
  ⟨sequence, .nodeCompleted "a" { emptyResult with statePatch := statePatch }⟩

/-- A node that writes a key nobody wrote before. -/
theorem states_agree_iff_plain_new_key :
    @StatesAgree firstDay (.object [])
      [⟨1, .workflowStarted (.object [])⟩, patched 2 (.object [("x", .bool true)])] := by
  have hinput : (Json.object []).WellFormed := by simp [wellFormed_object]
  have hpatch : (Json.object [("x", .bool true)]).WellFormed := by
    simp [BTree.Sorted, Json.WellFormed, Json.WellFormedFields]
  refine (@states_agree_iff_plain firstDay 1 [] none [patched 2 (.object [("x", .bool true)])] hinput
    (by simpa [patched, EventKind.JsonWellFormed] using hpatch)
    (by simp [patched, EventKind.isWorkflowCompleted])).mpr ?_ _ List.prefix_rfl
  intro log event hpre
  have hlen := hpre.length_le
  simp only [List.length_append, List.length_cons, List.length_nil] at hlen
  obtain rfl : log = [] := List.length_eq_zero_iff.mp (by omega)
  obtain rfl : event = patched 2 (.object [("x", .bool true)]) := by simpa using hpre
  simp [patched, EventKind.Plain, Json.Replaces]

/-- Two nodes that write members of one object: the scheduler keeps the second node's members
only, the record has both. -/
theorem nested_patch_states_differ :
    ¬ @StatesAgree firstDay (.object [])
      [⟨1, .workflowStarted (.object [])⟩,
        patched 2 (.object [("doc", .object [("title", .string "t")])]),
        patched 3 (.object [("doc", .object [("body", .string "b")])])] := by
  intro h
  cases h

end JamJet
