import JamJet.PendingCalls
import JamJet.Policy

/-! The policy of an agent's dispatch node: every call of the batch is evaluated under each name it
answers to, and the batch gets the strictest of the decisions. -/

namespace JamJet

open Policy

/-- A decision without its texts. -/
inductive DecisionKind
  | allow
  | requireApproval
  | block
  deriving DecidableEq, Repr

def DecisionKind.strictness : DecisionKind → ℕ
  | .allow => 0
  | .requireApproval => 1
  | .block => 2

def Policy.PolicyDecision.kind : PolicyDecision → DecisionKind
  | .allow => .allow
  | .block _ => .block
  | .requireApproval _ => .requireApproval

namespace Policy.PolicyDecision

@[simp] theorem kind_allow : allow.kind = .allow := rfl

@[simp] theorem kind_block (reason : String) : (block reason).kind = .block := rfl

@[simp] theorem kind_requireApproval (approver : String) :
    (requireApproval approver).kind = .requireApproval := rfl

end Policy.PolicyDecision

namespace Dispatch

/-- The aggregate outcome of one batch. -/
inductive DispatchDecision
  | allow
  | block (toolName reason : String)
  | requireApproval (approver : String) (gated : List String)
  deriving DecidableEq, Repr

def DispatchDecision.kind : DispatchDecision → DecisionKind
  | .allow => .allow
  | .block .. => .block
  | .requireApproval .. => .requireApproval

/-- The last segment of the function path of a `module:function.attr` reference. -/
def handlerFunctionName (handler : String) : String :=
  let function := ((splitOnce handler.toList).map Prod.snd).getD handler.toList
  String.ofList ((function.splitOn '.').getLastD function)

/-- The context of a tool of this name. -/
def toolCtx (nodeId : String) (toolName : String) : EvaluationContext where
  nodeId := nodeId
  nodeKindTag := "tool"
  toolName := some toolName
  modelRef := none

/-- The context of the code a call resolves to. -/
def refCtx (nodeId : String) (handler : String) : EvaluationContext where
  nodeId := nodeId
  nodeKindTag := pythonRefTag
  toolName := some handler
  modelRef := none

/-- What a call is matched on: its name and, where its handler is known, the handler's reference and
the handler's function. -/
def identities (nodeId : String) (call : PendingToolCall) : List EvaluationContext :=
  toolCtx nodeId call.name :: match call.handler with
    | some h => [refCtx nodeId h, toolCtx nodeId (handlerFunctionName h)]
    | none => []

/-- The decisions on a call, each with the name it is about. -/
def decisions (nodeId : String) (sets : List PolicySetIr) (call : PendingToolCall) :
    List (String × PolicyDecision) :=
  (identities nodeId call).map fun ctx => (ctx.toolName.getD "", evaluate ctx sets)

/-- The first approver that the decisions on one call ask for, unless one of them is a block. -/
def foldDecisions (needsApproval : Option String) :
    List (String × PolicyDecision) → Except DispatchDecision (Option String)
  | [] => .ok needsApproval
  | (matched, .block reason) :: _ => .error (.block matched reason)
  | (_, .requireApproval a) :: rest => foldDecisions (needsApproval.or (some a)) rest
  | (_, .allow) :: rest => foldDecisions needsApproval rest

/-- The calls that are left, after those that asked for approval. -/
def evaluateCalls (nodeId : String) (sets : List PolicySetIr) (gated : List String)
    (approver : Option String) : List PendingToolCall → DispatchDecision
  | [] =>
      match approver with
      | some a => .requireApproval a gated
      | none => .allow
  | call :: calls =>
      match foldDecisions none (decisions nodeId sets call) with
      | .error blocked => blocked
      | .ok none => evaluateCalls nodeId sets gated approver calls
      | .ok (some a) =>
          evaluateCalls nodeId sets (gated ++ [call.name]) (approver.or (some a)) calls

def evaluateDispatch (nodeId : String) (calls : List PendingToolCall) (sets : List PolicySetIr) :
    DispatchDecision :=
  evaluateCalls nodeId sets [] none calls

def blockOf : String × PolicyDecision → Option DispatchDecision
  | (matched, .block reason) => some (.block matched reason)
  | _ => none

def approverOf : String × PolicyDecision → Option String
  | (_, .requireApproval a) => some a
  | _ => none

theorem foldDecisions_eq (needsApproval : Option String) (ds : List (String × PolicyDecision)) :
    foldDecisions needsApproval ds = match ds.findSome? blockOf with
      | some blocked => .error blocked
      | none => .ok (needsApproval.or (ds.findSome? approverOf)) := by
  induction ds generalizing needsApproval with
  | nil => simp [foldDecisions]
  | cons d ds ih =>
    obtain ⟨matched, decision⟩ := d
    cases decision with
    | allow => simp [foldDecisions, ih, blockOf, approverOf, List.findSome?_cons]
    | block reason => simp [foldDecisions, blockOf, List.findSome?_cons]
    | requireApproval a =>
      simp [foldDecisions, ih, blockOf, approverOf, List.findSome?_cons]

variable {nodeId : String} {sets : List PolicySetIr} {call : PendingToolCall}
  {calls : List PendingToolCall}

/-- One of the names of the call needs an approval. -/
def needsApproval (nodeId : String) (sets : List PolicySetIr) (call : PendingToolCall) : Bool :=
  (identities nodeId call).any fun ctx => (evaluate ctx sets).kind = .requireApproval

theorem needsApproval_eq :
    needsApproval nodeId sets call = ((decisions nodeId sets call).findSome? approverOf).isSome := by
  unfold needsApproval decisions
  induction identities nodeId call with
  | nil => rfl
  | cons ctx ctxs ih =>
    rw [List.any_cons, List.map_cons, List.findSome?_cons]
    cases hd : evaluate ctx sets with
    | allow => simpa [approverOf] using ih
    | block reason => simpa [approverOf] using ih
    | requireApproval a => simp [approverOf]

theorem evaluateCalls_eq (gated : List String) (approver : Option String) :
    evaluateCalls nodeId sets gated approver calls =
      match (calls.flatMap (decisions nodeId sets)).findSome? blockOf with
      | some blocked => blocked
      | none =>
          match approver.or ((calls.flatMap (decisions nodeId sets)).findSome? approverOf) with
          | some a => .requireApproval a
              (gated ++ (calls.filter (needsApproval nodeId sets)).map (·.name))
          | none => .allow := by
  induction calls generalizing gated approver with
  | nil =>
    cases approver <;> simp [evaluateCalls]
  | cons call calls ih =>
    rw [evaluateCalls, foldDecisions_eq]
    simp only [List.flatMap_cons, List.findSome?_append, List.filter_cons, needsApproval_eq]
    cases hblock : (decisions nodeId sets call).findSome? blockOf with
    | some blocked => simp
    | none =>
      cases happroval : (decisions nodeId sets call).findSome? approverOf with
      | none => simp [ih]
      | some a => simp [ih]

/-- Some name of some call gets a decision of this kind. -/
def SomeIdentity (nodeId : String) (calls : List PendingToolCall) (sets : List PolicySetIr)
    (kind : DecisionKind) : Prop :=
  ∃ call ∈ calls, ∃ ctx ∈ identities nodeId call, (evaluate ctx sets).kind = kind

theorem SomeIdentity.mono {kind : DecisionKind} {calls' : List PendingToolCall}
    (h : SomeIdentity nodeId calls sets kind) (hsub : ∀ call ∈ calls, call ∈ calls') :
    SomeIdentity nodeId calls' sets kind := by
  obtain ⟨call, hcall, hctx⟩ := h
  exact ⟨call, hsub call hcall, hctx⟩

theorem mem_decisions {d : String × PolicyDecision} :
    d ∈ calls.flatMap (decisions nodeId sets) ↔
      ∃ call ∈ calls, ∃ ctx ∈ identities nodeId call,
        (ctx.toolName.getD "", evaluate ctx sets) = d := by
  simp [decisions]

theorem blockOf_isSome (d : String × PolicyDecision) :
    (blockOf d).isSome = true ↔ d.2.kind = .block := by
  obtain ⟨matched, decision⟩ := d
  cases decision <;> simp [blockOf]

theorem approverOf_isSome (d : String × PolicyDecision) :
    (approverOf d).isSome = true ↔ d.2.kind = .requireApproval := by
  obtain ⟨matched, decision⟩ := d
  cases decision <;> simp [approverOf]

theorem someIdentity_iff {kind : DecisionKind} : SomeIdentity nodeId calls sets kind ↔
    ∃ d ∈ calls.flatMap (decisions nodeId sets), d.2.kind = kind := by
  constructor
  · intro h
    obtain ⟨call, hcall, ctx, hctx, hkind⟩ := h
    exact ⟨_, mem_decisions.mpr ⟨call, hcall, ctx, hctx, rfl⟩, hkind⟩
  · intro h
    obtain ⟨d, hd, hkind⟩ := h
    obtain ⟨call, hcall, ctx, hctx, heq⟩ := mem_decisions.mp hd
    subst heq
    exact ⟨call, hcall, ctx, hctx, hkind⟩

theorem findSome?_blockOf_isSome :
    ((calls.flatMap (decisions nodeId sets)).findSome? blockOf).isSome = true ↔
      SomeIdentity nodeId calls sets .block := by
  simp only [List.findSome?_isSome_iff, blockOf_isSome, someIdentity_iff]

theorem findSome?_approverOf_isSome :
    ((calls.flatMap (decisions nodeId sets)).findSome? approverOf).isSome = true ↔
      SomeIdentity nodeId calls sets .requireApproval := by
  simp only [List.findSome?_isSome_iff, approverOf_isSome, someIdentity_iff]

theorem evaluateDispatch_eq :
    evaluateDispatch nodeId calls sets =
      match (calls.flatMap (decisions nodeId sets)).findSome? blockOf with
      | some blocked => blocked
      | none =>
          match (calls.flatMap (decisions nodeId sets)).findSome? approverOf with
          | some a => .requireApproval a ((calls.filter (needsApproval nodeId sets)).map (·.name))
          | none => .allow := by
  rw [evaluateDispatch, evaluateCalls_eq]
  simp

theorem kind_of_blockOf {ds : List (String × PolicyDecision)} {blocked : DispatchDecision}
    (h : ds.findSome? blockOf = some blocked) : blocked.kind = .block := by
  obtain ⟨d, -, hd⟩ := List.exists_of_findSome?_eq_some h
  obtain ⟨matched, decision⟩ := d
  cases decision with
  | allow => cases hd
  | requireApproval a => cases hd
  | block reason =>
    cases hd
    rfl

theorem kind_evaluateDispatch :
    (evaluateDispatch nodeId calls sets).kind =
      if ((calls.flatMap (decisions nodeId sets)).findSome? blockOf).isSome then .block
      else if ((calls.flatMap (decisions nodeId sets)).findSome? approverOf).isSome then
        .requireApproval
      else .allow := by
  rw [evaluateDispatch_eq]
  cases hblock : (calls.flatMap (decisions nodeId sets)).findSome? blockOf with
  | some blocked => exact kind_of_blockOf hblock
  | none =>
    cases (calls.flatMap (decisions nodeId sets)).findSome? approverOf with
    | none => rfl
    | some a => rfl

theorem kind_block_iff : (evaluateDispatch nodeId calls sets).kind = .block ↔
    SomeIdentity nodeId calls sets .block := by
  rw [kind_evaluateDispatch, ← findSome?_blockOf_isSome]
  split
  · simp [*]
  · split <;> simp [*]

theorem kind_requireApproval_iff : (evaluateDispatch nodeId calls sets).kind = .requireApproval ↔
    ¬ SomeIdentity nodeId calls sets .block ∧ SomeIdentity nodeId calls sets .requireApproval := by
  rw [kind_evaluateDispatch, ← findSome?_blockOf_isSome, ← findSome?_approverOf_isSome]
  split
  · simp [*]
  · split <;> simp [*]

theorem strictness_mono {calls' : List PendingToolCall} (hsub : ∀ call ∈ calls, call ∈ calls') :
    (evaluateDispatch nodeId calls sets).kind.strictness ≤
      (evaluateDispatch nodeId calls' sets).kind.strictness := by
  cases hkind : (evaluateDispatch nodeId calls sets).kind with
  | allow => exact Nat.zero_le _
  | block =>
    have hblock := (kind_block_iff.mp hkind).mono hsub
    rw [kind_block_iff.mpr hblock]
  | requireApproval =>
    have happroval := (kind_requireApproval_iff.mp hkind).2.mono hsub
    by_cases hblock : SomeIdentity nodeId calls' sets .block
    · rw [kind_block_iff.mpr hblock]
      decide
    · rw [kind_requireApproval_iff.mpr ⟨hblock, happroval⟩]

theorem strictness_injective : Function.Injective DecisionKind.strictness := by
  intro k k' h
  cases k <;> cases k' <;> first | rfl | cases h

/-- The decision on a batch is the strictest on any name of its calls. -/
structure Strictest (nodeId : String) (calls : List PendingToolCall) (sets : List PolicySetIr)
    (decision : DispatchDecision) : Prop where
  block : decision.kind = .block ↔ SomeIdentity nodeId calls sets .block
  requireApproval : ¬ SomeIdentity nodeId calls sets .block →
    (decision.kind = .requireApproval ↔ SomeIdentity nodeId calls sets .requireApproval)
  gated : ∀ approver gated, decision = .requireApproval approver gated →
    gated = (calls.filter (needsApproval nodeId sets)).map (·.name)
  allow : ¬ SomeIdentity nodeId calls sets .block →
    ¬ SomeIdentity nodeId calls sets .requireApproval → decision = .allow

theorem strictest_evaluateDispatch :
    Strictest nodeId calls sets (evaluateDispatch nodeId calls sets) := by
  constructor
  · exact kind_block_iff
  · intro hblock
    rw [kind_requireApproval_iff]
    exact and_iff_right hblock
  · intro approver gated h
    rw [evaluateDispatch_eq] at h
    cases hblock : (calls.flatMap (decisions nodeId sets)).findSome? blockOf with
    | some blocked =>
      have hkind := kind_of_blockOf hblock
      simp only [hblock] at h
      rw [h] at hkind
      cases hkind
    | none =>
      cases happroval : (calls.flatMap (decisions nodeId sets)).findSome? approverOf with
      | none => simp [hblock, happroval] at h
      | some a =>
        simp only [hblock, happroval, DispatchDecision.requireApproval.injEq] at h
        exact h.2.symm
  · intro hblock happroval
    rw [← findSome?_blockOf_isSome, Bool.not_eq_true, Option.isSome_eq_false_iff,
      Option.isNone_iff_eq_none] at hblock
    rw [← findSome?_approverOf_isSome, Bool.not_eq_true, Option.isSome_eq_false_iff,
      Option.isNone_iff_eq_none] at happroval
    simp only [evaluateDispatch_eq, hblock, happroval]

/-- A batch gets the strictest decision on its calls, in whatever order they come, and one more
call does not make it weaker. -/
theorem dispatch_batch_strictest (nodeId : String) (calls : List PendingToolCall)
    (sets : List PolicySetIr) :
    Strictest nodeId calls sets (evaluateDispatch nodeId calls sets) ∧
      (∀ calls' : List PendingToolCall, calls'.Perm calls →
        (evaluateDispatch nodeId calls' sets).kind = (evaluateDispatch nodeId calls sets).kind) ∧
      ∀ before after : List PendingToolCall, calls = before ++ after → ∀ call,
        (evaluateDispatch nodeId calls sets).kind.strictness ≤
          (evaluateDispatch nodeId (before ++ call :: after) sets).kind.strictness := by
  refine ⟨strictest_evaluateDispatch, ?_, ?_⟩
  · intro calls' hperm
    have hle : (evaluateDispatch nodeId calls' sets).kind.strictness ≤
        (evaluateDispatch nodeId calls sets).kind.strictness :=
      strictness_mono fun call hcall => hperm.mem_iff.mp hcall
    have hge : (evaluateDispatch nodeId calls sets).kind.strictness ≤
        (evaluateDispatch nodeId calls' sets).kind.strictness :=
      strictness_mono fun call hcall => hperm.mem_iff.mpr hcall
    exact strictness_injective (Nat.le_antisymm hle hge)
  · intro before after heq call
    subst heq
    apply strictness_mono
    intro call' hcall'
    rcases List.mem_append.mp hcall' with h | h
    · exact List.mem_append_left _ h
    · exact List.mem_append_right _ (List.mem_cons_of_mem _ h)

end Dispatch
end JamJet
