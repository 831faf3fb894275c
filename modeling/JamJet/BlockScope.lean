import JamJet.ApprovalDeadlines
import JamJet.DispatchGuard
import JamJet.HandlerSpelling

/-! The layer a block is recorded under: the guard looks for it again, with a context of its own. -/

namespace JamJet

open AtomicCalls Policy Dispatch

namespace Dispatch

variable {nodeId : String} {sets : List PolicySetIr} {calls : List PendingToolCall}

/-- The first name of the batch that is blocked. -/
def blockedIdentity (nodeId : String) (calls : List PendingToolCall) (sets : List PolicySetIr) :
    Option EvaluationContext :=
  (calls.flatMap (identities nodeId)).find? fun ctx => (evaluate ctx sets).kind = .block

theorem findSome?_blockOf_eq {matched reason : String}
    (h : (calls.flatMap (decisions nodeId sets)).findSome? blockOf = some (.block matched reason)) :
    ∃ ctx, blockedIdentity nodeId calls sets = some ctx ∧ ctx.toolName.getD "" = matched ∧
      evaluate ctx sets = .block reason := by
  have hmap : calls.flatMap (decisions nodeId sets) =
      (calls.flatMap (identities nodeId)).map fun ctx =>
        (ctx.toolName.getD "", evaluate ctx sets) := by
    rw [List.map_flatMap]
    rfl
  unfold blockedIdentity
  rw [hmap] at h
  clear hmap
  generalize calls.flatMap (identities nodeId) = ctxs at h ⊢
  induction ctxs with
  | nil => cases h
  | cons ctx ctxs ih =>
    rw [List.map_cons, List.findSome?_cons] at h
    cases hd : evaluate ctx sets with
    | allow =>
      simp only [hd, blockOf] at h
      obtain ⟨ctx', hfind, hrest⟩ := ih h
      exact ⟨ctx', by simp [hd, hfind], hrest⟩
    | requireApproval a =>
      simp only [hd, blockOf] at h
      obtain ⟨ctx', hfind, hrest⟩ := ih h
      exact ⟨ctx', by simp [hd, hfind], hrest⟩
    | block reason' =>
      simp only [hd, blockOf, Option.some.injEq, DispatchDecision.block.injEq] at h
      exact ⟨ctx, by simp [hd], h.1, by rw [hd, h.2]⟩

theorem blockedIdentity_of_block {toolName reason : String}
    (h : evaluateDispatch nodeId calls sets = .block toolName reason) :
    ∃ ctx, blockedIdentity nodeId calls sets = some ctx ∧ ctx.toolName.getD "" = toolName ∧
      evaluate ctx sets = .block reason := by
  rw [evaluateDispatch_eq] at h
  cases hblock : (calls.flatMap (decisions nodeId sets)).findSome? blockOf with
  | some blocked =>
    simp only [hblock] at h
    exact findSome?_blockOf_eq (h ▸ hblock)
  | none =>
    cases happroval : (calls.flatMap (decisions nodeId sets)).findSome? approverOf with
    | none => simp [hblock, happroval] at h
    | some a => simp [hblock, happroval] at h

theorem identity_cases {ctx : EvaluationContext}
    (h : ctx ∈ calls.flatMap (identities nodeId)) :
    ∃ name, ctx = toolCtx nodeId name ∨ ctx = refCtx nodeId name := by
  obtain ⟨call, -, hctx⟩ := List.mem_flatMap.mp h
  unfold identities at hctx
  rcases List.mem_cons.mp hctx with rfl | hctx
  · exact ⟨_, Or.inl rfl⟩
  · cases hhandler : call.handler with
    | none =>
      rw [hhandler] at hctx
      cases hctx
    | some handler =>
      rw [hhandler] at hctx
      simp only [List.mem_cons, List.not_mem_nil, or_false] at hctx
      rcases hctx with rfl | rfl
      · exact ⟨_, Or.inr rfl⟩
      · exact ⟨_, Or.inl rfl⟩

end Dispatch

/-- The most specific layer that has the pattern among its blocked tools. -/
def patternScope (layers : List (String × PolicySetIr)) (pattern : String) : Option String :=
  (layers.find? fun layer => pattern ∈ layer.2.blockedTools).map Prod.fst

/-- The most specific layer that says anything of the context. -/
def decidingLayer (ctx : EvaluationContext) (layers : List (String × PolicySetIr)) :
    Option (String × PolicySetIr) :=
  layers.find? fun layer => (evaluateLayer ctx layer.2).isSome

/-- The first blocked pattern of a layer that matches. -/
def matchedPattern (ctx : EvaluationContext) (policy : PolicySetIr) : Option String :=
  policy.blockedTools.find? fun pattern => (ctx.matches pattern).isSome

/-- The layer has a pattern that matches the name as it is written. -/
def namesLiterally (policy : PolicySetIr) (name : String) : Bool :=
  (policy.blockedTools ++ policy.requireApprovalFor).any (globMatch · name)

theorem find?_of_imp {α : Type} {p q : α → Bool} {xs : List α} {x : α} (h : xs.find? p = some x)
    (hx : q x = true) (himp : ∀ y ∈ xs, q y = true → p y = true) : xs.find? q = some x := by
  induction xs with
  | nil => cases h
  | cons y ys ih =>
    rw [List.find?_cons] at h ⊢
    cases hp : p y with
    | true =>
      simp only [hp, Option.some.injEq] at h
      subst h
      simp [hx]
    | false =>
      simp only [hp] at h
      have hq : q y = false := by
        rw [← Bool.not_eq_true]
        intro hq
        rw [himp y List.mem_cons_self hq] at hp
        cases hp
      simp only [hq]
      exact ih h fun z hz => himp z (List.mem_cons_of_mem y hz)

section Layers

variable {ctx : EvaluationContext} {tenant workflow node : Option PolicySetIr}

theorem scopes_policies :
    (scopes tenant workflow node).map Prod.snd =
      (tenant.toList ++ workflow.toList ++ node.toList).reverse := by
  cases tenant <;> cases workflow <;> cases node <;> rfl

theorem scopes_nodup : ((scopes tenant workflow node).map Prod.fst).Nodup := by
  cases tenant <;> cases workflow <;> cases node <;> simp [scopes]

theorem unknown_not_mem_scopes : "unknown" ∉ (scopes tenant workflow node).map Prod.fst := by
  cases tenant <;> cases workflow <;> cases node <;> simp [scopes]

theorem evaluateLayer_isSome (htag : ctx.nodeKindTag ≠ "model") (policy : PolicySetIr) :
    (evaluateLayer ctx policy).isSome = true ↔
      ∃ pattern ∈ policy.blockedTools ++ policy.requireApprovalFor,
        (ctx.matches pattern).isSome = true := by
  have hkind := congrArg Option.isSome (evaluateLayer_kind htag policy)
  rw [Option.isSome_map] at hkind
  rw [hkind]
  split
  · rename_i hblocked
    obtain ⟨pattern, hpattern, hmatch⟩ := List.any_eq_true.mp hblocked
    exact ⟨fun _ => ⟨pattern, List.mem_append_left _ hpattern, hmatch⟩, fun _ => rfl⟩
  · rename_i hblocked
    split
    · rename_i happroval
      obtain ⟨pattern, hpattern, hmatch⟩ := List.any_eq_true.mp happroval
      exact ⟨fun _ => ⟨pattern, List.mem_append_right _ hpattern, hmatch⟩, fun _ => rfl⟩
    · rename_i happroval
      refine ⟨fun h => (by cases h), ?_⟩
      intro h
      obtain ⟨pattern, hpattern, hmatch⟩ := h
      rcases List.mem_append.mp hpattern with hpattern | hpattern
      · exact absurd (List.any_eq_true.mpr ⟨pattern, hpattern, hmatch⟩) hblocked
      · exact absurd (List.any_eq_true.mpr ⟨pattern, hpattern, hmatch⟩) happroval

theorem evaluate_singleton_ne_allow (htag : ctx.nodeKindTag ≠ "model") (policy : PolicySetIr) :
    evaluate ctx [policy] ≠ .allow ↔ (evaluateLayer ctx policy).isSome = true := by
  have hkind := evaluateLayer_kind htag policy
  unfold evaluate
  rw [List.reverse_singleton, List.findSome?_cons, List.findSome?_nil]
  cases hlayer : evaluateLayer ctx policy with
  | none => simp
  | some d =>
    rw [hlayer] at hkind
    cases d with
    | allow =>
      simp only [Option.map_some, PolicyDecision.kind_allow] at hkind
      split at hkind
      · cases hkind
      · split at hkind <;> cases hkind
    | block reason => simp
    | requireApproval a => simp

theorem identifyPolicyScope_eq (htag : ctx.nodeKindTag ≠ "model") :
    identifyPolicyScope ctx tenant workflow node =
      ((decidingLayer ctx (scopes tenant workflow node)).map Prod.fst).getD "unknown" := by
  unfold identifyPolicyScope decidingLayer
  have hsame : ∀ layer : String × PolicySetIr, decide (evaluate ctx [layer.2] ≠ .allow) =
      (evaluateLayer ctx layer.2).isSome := by
    intro layer
    rw [Bool.eq_iff_iff, decide_eq_true_eq]
    exact evaluate_singleton_ne_allow htag layer.2
  simp only [hsame]
  cases (scopes tenant workflow node).find? fun layer => (evaluateLayer ctx layer.2).isSome <;> rfl

theorem matchedPattern_of_block (htag : ctx.nodeKindTag ≠ "model") {policy : PolicySetIr}
    {reason : String} (h : evaluateLayer ctx policy = some (.block reason)) :
    ∃ pattern, matchedPattern ctx policy = some pattern := by
  have hkind := evaluateLayer_kind htag policy
  rw [h, Option.map_some, PolicyDecision.kind_block] at hkind
  have hany : (policy.blockedTools.any fun p => (ctx.matches p).isSome) = true := by
    by_contra hany
    rw [if_neg hany] at hkind
    split at hkind <;> cases hkind
  apply Option.isSome_iff_exists.mp
  unfold matchedPattern
  rw [List.find?_isSome]
  exact List.any_eq_true.mp hany

theorem find?_of_findSome? {α β : Type} {f : α → Option β} {xs : List α} {b : β}
    (h : xs.findSome? f = some b) : ∃ x, xs.find? (fun x => (f x).isSome) = some x ∧ f x = some b := by
  induction xs with
  | nil => cases h
  | cons x xs ih =>
    rw [List.findSome?_cons] at h
    cases hx : f x with
    | none =>
      simp only [hx] at h
      obtain ⟨y, hfind, hy⟩ := ih h
      exact ⟨y, by simp [hx, hfind], hy⟩
    | some b' =>
      simp only [hx] at h
      exact ⟨x, by simp [hx], by rw [hx, h]⟩

/-- A block is said by the layer that decides, with the first of its blocked patterns that
matches. -/
theorem decidingLayer_of_block (htag : ctx.nodeKindTag ≠ "model") {reason : String}
    (h : evaluate ctx (tenant.toList ++ workflow.toList ++ node.toList) = .block reason) :
    ∃ layer pattern, decidingLayer ctx (scopes tenant workflow node) = some layer ∧
      matchedPattern ctx layer.2 = some pattern := by
  have hfound : ((scopes tenant workflow node).findSome? fun layer => evaluateLayer ctx layer.2) =
      some (.block reason) := by
    unfold evaluate at h
    rw [← scopes_policies, List.findSome?_map] at h
    cases hsome : (scopes tenant workflow node).findSome? (evaluateLayer ctx ∘ Prod.snd) with
    | none =>
      rw [hsome] at h
      cases h
    | some d =>
      rw [hsome, Option.getD_some] at h
      rw [← h]
      exact hsome
  obtain ⟨layer, hlayer, hblock⟩ := find?_of_findSome? hfound
  obtain ⟨pattern, hpattern⟩ := matchedPattern_of_block htag hblock
  exact ⟨layer, pattern, hlayer, hpattern⟩

theorem patternScope_eq (htag : ctx.nodeKindTag ≠ "model") {layers : List (String × PolicySetIr)}
    {layer : String × PolicySetIr} {pattern : String}
    (hlayer : decidingLayer ctx layers = some layer)
    (hpattern : matchedPattern ctx layer.2 = some pattern) :
    patternScope layers pattern = some layer.1 := by
  have hmatch := List.find?_some hpattern
  have hfind : (layers.find? fun layer => decide (pattern ∈ layer.2.blockedTools)) = some layer := by
    apply find?_of_imp hlayer
    · exact decide_eq_true (List.mem_of_find?_eq_some hpattern)
    · intro other _ hother
      exact (evaluateLayer_isSome htag other.2).mpr
        ⟨pattern, List.mem_append_left _ (of_decide_eq_true hother), hmatch⟩
  unfold patternScope
  rw [hfind]
  rfl

theorem matches_toolCtx (nodeId name pattern : String) :
    ((toolCtx nodeId name).matches pattern).isSome = globMatch pattern name := by
  have hnames : (toolCtx nodeId name).policyNames = [name] := rfl
  have hcanonical : (toolCtx nodeId name).canonicalHandler = none := by
    simp [toolCtx, EvaluationContext.canonicalHandler, pythonRefTag]
  unfold EvaluationContext.matches
  rw [hnames, hcanonical]
  cases hmatch : globMatch pattern name <;> simp [hmatch]

theorem matches_refCtx {nodeId name pattern : String} (h : globMatch pattern name = true) :
    ((refCtx nodeId name).matches pattern).isSome = true := by
  have hnames : (refCtx nodeId name).policyNames = [name] := rfl
  unfold EvaluationContext.matches
  rw [hnames]
  simp [h]

theorem evaluateLayer_toolCtx (nodeId name : String) (policy : PolicySetIr) :
    (evaluateLayer (toolCtx nodeId name) policy).isSome = namesLiterally policy name := by
  have htag : (toolCtx nodeId name).nodeKindTag ≠ "model" := (by decide : "tool" ≠ "model")
  rw [Bool.eq_iff_iff, evaluateLayer_isSome htag, namesLiterally, List.any_eq_true]
  simp only [matches_toolCtx]

theorem evaluateLayer_refCtx {nodeId name : String} {policy : PolicySetIr}
    (h : namesLiterally policy name = true) :
    (evaluateLayer (refCtx nodeId name) policy).isSome = true := by
  have htag : (refCtx nodeId name).nodeKindTag ≠ "model" := (by decide : "python_ref" ≠ "model")
  obtain ⟨pattern, hpattern, hmatch⟩ := List.any_eq_true.mp h
  exact (evaluateLayer_isSome htag policy).mpr ⟨pattern, hpattern, matches_refCtx hmatch⟩

/-- Looked for as a tool, the deciding layer of a reference is found exactly where it has a pattern
that matches the reference as it is written. -/
theorem identifyPolicyScope_refCtx {nodeId name : String} {layer : String × PolicySetIr}
    (hlayer : decidingLayer (refCtx nodeId name) (scopes tenant workflow node) = some layer) :
    identifyPolicyScope (toolCtx nodeId name) tenant workflow node = layer.1 ↔
      namesLiterally layer.2 name = true := by
  have htag : (toolCtx nodeId name).nodeKindTag ≠ "model" := (by decide : "tool" ≠ "model")
  rw [identifyPolicyScope_eq htag]
  have hmem := List.mem_of_find?_eq_some hlayer
  constructor
  · intro h
    cases hfound : decidingLayer (toolCtx nodeId name) (scopes tenant workflow node) with
    | none =>
      rw [hfound] at h
      have hname : layer.1 ∈ (scopes tenant workflow node).map Prod.fst :=
        List.mem_map_of_mem hmem
      rw [← h] at hname
      exact absurd hname unknown_not_mem_scopes
    | some other =>
      rw [hfound] at h
      have hother := List.mem_of_find?_eq_some hfound
      have heq : other = layer := List.inj_on_of_nodup_map scopes_nodup hother hmem h
      have hsome := List.find?_some hfound
      rw [heq, evaluateLayer_toolCtx] at hsome
      exact hsome
  · intro h
    have hfound : decidingLayer (toolCtx nodeId name) (scopes tenant workflow node) = some layer := by
      apply find?_of_imp hlayer
      · rw [evaluateLayer_toolCtx]
        exact h
      · intro other _ hother
        rw [evaluateLayer_toolCtx] at hother
        exact evaluateLayer_refCtx hother
    rw [hfound]
    rfl

end Layers

/-- The recorded scope is that of the most specific layer with the pattern that blocked: a layer of
the chain, with a blocked pattern that matches a name of the calls. -/
structure NamesDecider (layers : List (String × PolicySetIr)) (nodeId : NodeId)
    (calls : List PendingToolCall) (pattern scope : String) : Prop where
  layer : patternScope layers pattern = some scope
  known : scope ≠ "unknown"
  matching : ∃ policy, (scope, policy) ∈ layers ∧ ∃ blocked ∈ policy.blockedTools,
    ∃ call ∈ calls, ∃ ctx ∈ identities nodeId call, (ctx.matches blocked).isSome = true

section Record

variable {tenant workflow node : Option PolicySetIr} {nodeId : NodeId}
  {calls : List PendingToolCall} {ctx : EvaluationContext}

theorem namesDecider_iff (htag : ctx.nodeKindTag ≠ "model")
    (hctx : ctx ∈ calls.flatMap (identities nodeId)) {layer : String × PolicySetIr}
    {pattern scope : String}
    (hlayer : decidingLayer ctx (scopes tenant workflow node) = some layer)
    (hpattern : matchedPattern ctx layer.2 = some pattern) :
    NamesDecider (scopes tenant workflow node) nodeId calls pattern scope ↔ scope = layer.1 := by
  have hscope := patternScope_eq htag hlayer hpattern
  have hmem := List.mem_of_find?_eq_some hlayer
  constructor
  · intro h
    have hsome := h.layer
    rw [hscope, Option.some.injEq] at hsome
    exact hsome.symm
  · intro h
    subst h
    obtain ⟨call, hcall, hidentity⟩ := List.mem_flatMap.mp hctx
    have hmatch : (ctx.matches pattern).isSome = true :=
      List.find?_some (p := fun pattern => (ctx.matches pattern).isSome) hpattern
    refine ⟨hscope, ?_, layer.2, hmem, pattern, List.mem_of_find?_eq_some hpattern, call, hcall, ctx,
      hidentity, hmatch⟩
    intro hunknown
    have hname : layer.1 ∈ (scopes tenant workflow node).map Prod.fst := List.mem_map_of_mem hmem
    rw [hunknown] at hname
    exact unknown_not_mem_scopes hname

/-- The scope of a name, looked for as a tool, is the deciding layer's where the name is a tool's or
the layer matches it as it is written. -/
theorem toolScope_iff {name : String} (hctx : ctx = toolCtx nodeId name ∨ ctx = refCtx nodeId name)
    {layer : String × PolicySetIr}
    (hlayer : decidingLayer ctx (scopes tenant workflow node) = some layer) :
    identifyPolicyScope (toolCtx nodeId name) tenant workflow node = layer.1 ↔
      ctx.nodeKindTag = "tool" ∨ namesLiterally layer.2 name = true := by
  rcases hctx with rfl | rfl
  · have htag : (toolCtx nodeId name).nodeKindTag ≠ "model" := (by decide : "tool" ≠ "model")
    rw [identifyPolicyScope_eq htag, hlayer]
    exact ⟨fun _ => Or.inl rfl, fun _ => rfl⟩
  · have htag : (refCtx nodeId name).nodeKindTag ≠ "tool" :=
      (by decide : "python_ref" ≠ "tool")
    rw [identifyPolicyScope_refCtx hlayer]
    exact ⟨Or.inr, fun h => h.resolve_left htag⟩

variable [FloatText] [Chrono]

theorem guardCalls_of_block (env : GuardEnv) {r : DispatchRequest}
    {tenantPolicy : Option PolicySetIr} {toolName reason : String}
    (hblock : evaluateDispatch r.guard.nodeId calls (r.guard.sets tenantPolicy) =
      .block toolName reason) :
    DispatchGuard.guardCalls env r tenantPolicy calls =
      DispatchGuard.refuse r reason (DispatchGuard.toolScope r tenantPolicy toolName) := by
  unfold DispatchGuard.guardCalls
  rw [hblock]
  rfl

theorem guardDispatch_of_block (env : GuardEnv) {r : DispatchRequest}
    {tenantPolicy : Option PolicySetIr} {toolName reason : String}
    (hblock : evaluateDispatch r.guard.nodeId calls (r.guard.sets tenantPolicy) =
      .block toolName reason) (htenant : r.guard.tenant = .policy tenantPolicy)
    (hread : readPendingToolCalls (payloadInput r.guard.payload) = .ok calls) :
    DispatchGuard.guardDispatch env r =
      DispatchGuard.refuse r reason (DispatchGuard.toolScope r tenantPolicy toolName) := by
  have hsets : r.guard.sets tenantPolicy ≠ [] := by
    intro hnil
    obtain ⟨ctx, -, -, hdecision⟩ := blockedIdentity_of_block hblock
    rw [hnil] at hdecision
    cases hdecision
  unfold DispatchGuard.guardDispatch
  rw [htenant]
  simp only [hsets, false_and, if_false, hread]
  exact guardCalls_of_block env hblock

/-- A block is recorded under the layer that decided it exactly if the blocked name is that of a
call or of a handler's function, or else that layer has a pattern that matches the handler's
reference as it is written. -/
theorem block_scope_named_iff (env : GuardEnv) (r : DispatchRequest)
    (tenantPolicy : Option PolicySetIr) {toolName reason : String}
    (hblock : evaluateDispatch r.guard.nodeId calls (r.guard.sets tenantPolicy) =
      .block toolName reason) :
    let layers := scopes tenantPolicy r.guard.workflowPolicy r.guard.node.policy
    let scope := DispatchGuard.toolScope r tenantPolicy toolName
    DispatchGuard.guardCalls env r tenantPolicy calls = DispatchGuard.refuse r reason scope ∧
    (r.guard.tenant = .policy tenantPolicy →
      readPendingToolCalls (payloadInput r.guard.payload) = .ok calls →
        DispatchGuard.guardDispatch env r = DispatchGuard.refuse r reason scope) ∧
    ∃ ctx layer pattern,
      blockedIdentity r.guard.nodeId calls (r.guard.sets tenantPolicy) = some ctx ∧
      decidingLayer ctx layers = some layer ∧ matchedPattern ctx layer.2 = some pattern ∧
      (NamesDecider layers r.guard.nodeId calls pattern scope ↔
        ctx.nodeKindTag = "tool" ∨ namesLiterally layer.2 (ctx.toolName.getD "") = true) := by
  intro layers scope
  refine ⟨guardCalls_of_block env hblock, guardDispatch_of_block env hblock, ?_⟩
  obtain ⟨ctx, hfirst, hname, hdecision⟩ := blockedIdentity_of_block hblock
  have hmem := List.mem_of_find?_eq_some hfirst
  obtain ⟨name, hcases⟩ := identity_cases hmem
  have htag : ctx.nodeKindTag ≠ "model" := by
    rcases hcases with rfl | rfl
    · exact (by decide : "tool" ≠ "model")
    · exact (by decide : "python_ref" ≠ "model")
  have hgetD : ctx.toolName.getD "" = name := by
    rcases hcases with rfl | rfl <;> rfl
  obtain ⟨layer, pattern, hlayer, hpattern⟩ := decidingLayer_of_block htag hdecision
  refine ⟨ctx, layer, pattern, hfirst, hlayer, hpattern, ?_⟩
  rw [namesDecider_iff htag hmem hlayer hpattern, hgetD]
  have hscope : scope = identifyPolicyScope (toolCtx r.guard.nodeId name) tenantPolicy
      r.guard.workflowPolicy r.guard.node.policy := by
    rw [← hgetD, hname]
    rfl
  rw [hscope]
  exact toolScope_iff hcases hlayer

omit [FloatText] [Chrono]

/-- A turn that calls a tool whose code is a wire transfer. -/
def wirePayload : Json :=
  .object [("input", .object [
    ("tool_calls", .array [.object [("name", .string "pay")]]),
    ("tools", .object [("pay", .string "bank.wires:send_wire")])])]

def wireCalls : List PendingToolCall := [⟨"pay", .null, some "bank.wires:send_wire"⟩]

/-- Its dispatch, under a tenant that blocks this pattern. -/
def wireRequest (pattern : String) : DispatchRequest where
  guard := {
    executionId := 0
    nodeId := "a"
    tenantId := "default"
    tenant := .policy (some { blockedTools := [pattern] })
    workflowPolicy := none
    node := { definition := .object [], held := held_object BTree.sorted_nil (by simp) }
    payload := wirePayload
    held := by
      refine held_object (List.pairwise_singleton _ _) fun kv hkv => ?_
      rw [List.mem_singleton] at hkv
      subst hkv
      refine held_object (by unfold BTree.Sorted; decide) ?_
      simp [Json.Held, Json.HeldFields, Json.HeldItems, BTree.Sorted] }

theorem read_wirePayload (pattern : String) :
    readPendingToolCalls (payloadInput (wireRequest pattern).guard.payload) = .ok wireCalls := by
  rfl

/-- A pattern with the colon blocks the transfer, and the tenant is named. -/
theorem block_scope_named_of_colon :
    let r := wireRequest "bank.*:send_wire"
    let tenantPolicy : Option PolicySetIr := some { blockedTools := ["bank.*:send_wire"] }
    let layers := scopes tenantPolicy none none
    let scope := DispatchGuard.toolScope r tenantPolicy "bank.wires:send_wire"
    ∃ ctx layer pattern, blockedIdentity "a" wireCalls (r.guard.sets tenantPolicy) = some ctx ∧
      decidingLayer ctx layers = some layer ∧ matchedPattern ctx layer.2 = some pattern ∧
      (NamesDecider layers "a" wireCalls pattern scope ↔
        ctx.nodeKindTag = "tool" ∨ namesLiterally layer.2 (ctx.toolName.getD "") = true) := by
  intro r tenantPolicy layers scope
  have hblock : evaluateDispatch r.guard.nodeId wireCalls (r.guard.sets tenantPolicy) =
      .block "bank.wires:send_wire" ("tool 'bank.wires:send_wire' matches blocked pattern " ++
        "'bank.*:send_wire'") := by decide
  exact (@block_scope_named_iff _ bitsText (rfc3339 0) addingEnv r tenantPolicy _ _ hblock).2.2

/-- A pattern in dotted form blocks the transfer too, and no layer is named. -/
theorem block_scope_unknown_of_dot :
    let r := wireRequest "bank.wires.send_wire"
    let tenantPolicy : Option PolicySetIr := some { blockedTools := ["bank.wires.send_wire"] }
    let layers := scopes tenantPolicy none none
    let reason := "tool 'bank.wires.send_wire' matches blocked pattern 'bank.wires.send_wire'"
    evaluateDispatch "a" wireCalls (r.guard.sets tenantPolicy) =
        .block "bank.wires:send_wire" reason ∧
      @DispatchGuard.guardDispatch bitsText (rfc3339 0) addingEnv r =
        DispatchGuard.refuse r reason "unknown" ∧
      patternScope layers "bank.wires.send_wire" = some "tenant" ∧
      ∀ pattern, ¬ NamesDecider layers "a" wireCalls pattern "unknown" := by
  intro r tenantPolicy layers reason
  have hblock : evaluateDispatch "a" wireCalls (r.guard.sets tenantPolicy) =
      .block "bank.wires:send_wire" reason := by decide
  have hscope : DispatchGuard.toolScope r tenantPolicy "bank.wires:send_wire" = "unknown" := by
    decide
  refine ⟨hblock, ?_, by decide, fun pattern h => h.known rfl⟩
  rw [← hscope]
  exact @guardDispatch_of_block wireCalls bitsText (rfc3339 0) addingEnv r tenantPolicy _ _ hblock
    rfl (read_wirePayload _)

end Record

end JamJet
