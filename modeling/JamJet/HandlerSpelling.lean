import JamJet.DispatchPolicy
import Mathlib.Data.List.Infix
import Mathlib.Data.List.TakeWhile

/-! An agent card's lists of tools, and the spellings of a Python handler: `:` and `.` separate its
segments alike, so no decision depends on which of the two is written where. -/

namespace JamJet.Policy

open EvaluationContext (canonicalPattern replaceChars)

/-- Kinds that choose at run time what they run. -/
def runTimeTargetTags : List String := ["coordinator", "agent_discovery", "agent_tool"]

def listed (patterns : List String) (name : String) : Bool := patterns.any (globMatch · name)

def separators : List Char := [':', '.', '/']

/-- The pattern names a path and not a bare name. -/
def isPathPattern (pattern : String) : Bool := pattern.toList.any (· ∈ separators)

/-- The text after the last separator. -/
def functionName (handler : String) : String :=
  String.ofList (handler.toList.reverse.takeWhile (· ∉ separators)).reverse

def handlerListed (ctx : EvaluationContext) (handler : String) (allowed : List String) : Bool :=
  allowed.any fun p =>
    if isPathPattern p then
      globMatch p handler || ctx.canonicalHandler.any (globMatch (canonicalPattern p))
    else globMatch p (functionName handler)

def isCode (ctx : EvaluationContext) : Bool :=
  ctx.nodeKindTag ∈ functionKindTags || ctx.nodeKindTag = pythonRefTag

/-- The context's tool is named by one of the patterns. -/
def toolListed (ctx : EvaluationContext) (name : String) (patterns : List String) : Bool :=
  if isCode ctx then handlerListed ctx name patterns else listed patterns name

/-- Whether the context's tool may run under a list; no list restricts nothing. -/
def nodeAllowed (ctx : EvaluationContext) (allowed : List String) : Except String Unit :=
  if allowed = [] then .ok ()
  else
    match ctx.toolName with
    | none =>
        if ctx.nodeKindTag ∈ runTimeTargetTags then
          .error (ctx.nodeKindTag ++ " (target chosen at run time)")
        else .ok ()
    | some name => if toolListed ctx name allowed then .ok () else .error name

/-- The name under which one of the patterns names the node. -/
def nodeNamedBy (ctx : EvaluationContext) (patterns : List String) : Option String :=
  if patterns = [] then none
  else
    match ctx.toolName with
    | none =>
        if ctx.nodeKindTag ∈ runTimeTargetTags then
          some (ctx.nodeKindTag ++ " (target chosen at run time)")
        else none
    | some name => if toolListed ctx name patterns then some name else none

theorem globMatchInner_star (p v : List Char) :
    globMatchInner ('*' :: p) v = v.tails.any (globMatchInner p) := by
  cases v <;> simp [globMatchInner]

theorem globMatchInner_cons {c : Char} (hc : c ≠ '*') (p : List Char) (d : Char) (v : List Char) :
    globMatchInner (c :: p) (d :: v) = ((c = '?' || c = d) && globMatchInner p v) := by
  simp [globMatchInner, hc]

theorem globMatchInner_cons_nil {c : Char} (hc : c ≠ '*') (p : List Char) :
    globMatchInner (c :: p) [] = false := by
  simp [globMatchInner, hc]

/-- A match survives renaming the characters, if those of the pattern and of the value are renamed
alike and no other character becomes or stops to be a wildcard. -/
theorem globMatchInner_map {f g : Char → Char} (hstar : ∀ c, g c = '*' ↔ c = '*')
    (hany : g '?' = '?') {p v : List Char} (hsame : ∀ c ∈ v, g c = f c)
    (h : globMatchInner p v = true) : globMatchInner (p.map g) (v.map f) = true := by
  induction p generalizing v with
  | nil =>
    cases v with
    | nil => rfl
    | cons d v => simp [globMatchInner] at h
  | cons c p ih =>
    rw [List.map_cons]
    by_cases hc : c = '*'
    · subst hc
      rw [globMatchInner_star, List.any_eq_true] at h
      obtain ⟨suffix, hsuffix, hmatch⟩ := h
      rw [List.mem_tails] at hsuffix
      have hmem : suffix.map f ∈ (v.map f).tails := (List.mem_tails _ _).mpr (hsuffix.map f)
      have hrest := ih (fun d hd => hsame d (hsuffix.mem hd)) hmatch
      rw [(hstar '*').mpr rfl, globMatchInner_star, List.any_eq_true]
      exact ⟨_, hmem, hrest⟩
    · have hgc : g c ≠ '*' := fun hgc => hc ((hstar c).mp hgc)
      cases v with
      | nil =>
        rw [globMatchInner_cons_nil hc] at h
        cases h
      | cons d v =>
        rw [globMatchInner_cons hc] at h
        simp only [Bool.and_eq_true, Bool.or_eq_true, decide_eq_true_eq] at h
        have hrest := ih (fun e he => hsame e (List.mem_cons_of_mem d he)) h.2
        have hhead : g c = '?' ∨ g c = f d := by
          rcases h.1 with hc' | hc'
          · exact Or.inl (hc' ▸ hany)
          · exact Or.inr (hc' ▸ hsame d List.mem_cons_self)
        rw [List.map_cons, globMatchInner_cons hgc]
        simp only [Bool.and_eq_true, Bool.or_eq_true, decide_eq_true_eq]
        exact ⟨hhead, hrest⟩

theorem globMatch_canonical {pattern handler : String} (hslash : '/' ∉ handler.toList)
    (h : globMatch pattern handler = true) :
    globMatch (canonicalPattern pattern) (replaceChars [':'] handler) = true := by
  unfold globMatch canonicalPattern replaceChars
  rw [String.toList_ofList, String.toList_ofList]
  apply globMatchInner_map _ _ _ h
  · intro c
    by_cases hc : c ∈ [':', '/']
    · rw [if_pos hc]
      constructor
      · intro hstar
        cases hstar
      · intro hstar
        rw [hstar] at hc
        exact absurd hc (by decide)
    · rw [if_neg hc]
  · decide
  · intro c hc
    have hne : c ≠ '/' := fun heq => hslash (heq ▸ hc)
    simp [hne]

/-- Two references without a slash that are one dotted path. -/
structure SamePath (h h' : String) : Prop where
  noSlash : '/' ∉ h.toList
  noSlash' : '/' ∉ h'.toList
  path : replaceChars [':'] h = replaceChars [':'] h'

/-- The context of a Python function node with this handler. -/
def pythonFnCtx (nodeId handler : String) : EvaluationContext where
  nodeId := nodeId
  nodeKindTag := "python_fn"
  toolName := some handler
  modelRef := none

theorem canonicalHandler_pythonFnCtx (nodeId handler : String) :
    (pythonFnCtx nodeId handler).canonicalHandler = some (replaceChars [':'] handler) := by
  simp [pythonFnCtx, EvaluationContext.canonicalHandler]

/-- A pattern names a Python function by its node or by its dotted path; the reference as written
adds nothing. -/
theorem matches_pythonFnCtx {nodeId handler : String} (hslash : '/' ∉ handler.toList)
    (pattern : String) :
    ((pythonFnCtx nodeId handler).matches pattern).isSome = true ↔
      globMatch pattern nodeId = true ∨
        globMatch (canonicalPattern pattern) (replaceChars [':'] handler) = true := by
  have hnames : (pythonFnCtx nodeId handler).policyNames = [handler, nodeId] := rfl
  unfold EvaluationContext.matches
  rw [hnames, canonicalHandler_pythonFnCtx]
  by_cases hliteral : globMatch pattern handler = true
  · simp [hliteral, globMatch_canonical hslash hliteral]
  · by_cases hnode : globMatch pattern nodeId = true
    · simp [hliteral, hnode]
    · simp [hliteral, hnode, Option.filter_some]

theorem matches_samePath {h h' : String} (hpath : SamePath h h') (nodeId pattern : String) :
    ((pythonFnCtx nodeId h).matches pattern).isSome =
      ((pythonFnCtx nodeId h').matches pattern).isSome := by
  rw [Bool.eq_iff_iff, matches_pythonFnCtx hpath.noSlash, matches_pythonFnCtx hpath.noSlash',
    hpath.path]

section Evaluate

variable {ctx ctx' : EvaluationContext}

theorem evaluateLayer_kind (htag : ctx.nodeKindTag ≠ "model") (s : PolicySetIr) :
    (evaluateLayer ctx s).map PolicyDecision.kind =
      if s.blockedTools.any fun p => (ctx.matches p).isSome then some .block
      else if s.requireApprovalFor.any fun p => (ctx.matches p).isSome then some .requireApproval
      else none := by
  have hsome : (s.blockedTools.findSome? fun pattern =>
      (ctx.matches pattern).map fun name => (name, pattern)).isSome =
        s.blockedTools.any fun p => (ctx.matches p).isSome := by
    induction s.blockedTools with
    | nil => rfl
    | cons pattern rest ih =>
      rw [List.findSome?_cons, List.any_cons]
      cases ctx.matches pattern <;> simp [ih]
  unfold evaluateLayer
  rw [if_neg (fun h => htag h.1), ← hsome]
  cases s.blockedTools.findSome? fun pattern =>
      (ctx.matches pattern).map fun name => (name, pattern) with
  | some found => rfl
  | none =>
    by_cases happroval : (s.requireApprovalFor.any fun p => (ctx.matches p).isSome) = true
    · simp [happroval]
    · simp [happroval]

theorem evaluate_kind (sets : List PolicySetIr) : (evaluate ctx sets).kind =
    (sets.reverse.findSome? fun s => (evaluateLayer ctx s).map PolicyDecision.kind).getD .allow := by
  unfold evaluate
  induction sets.reverse with
  | nil => rfl
  | cons s rest ih =>
    rw [List.findSome?_cons, List.findSome?_cons]
    cases evaluateLayer ctx s with
    | none => exact ih
    | some d => rfl

theorem evaluate_kind_congr (htag : ctx.nodeKindTag ≠ "model") (htag' : ctx'.nodeKindTag ≠ "model")
    (h : ∀ p, (ctx.matches p).isSome = (ctx'.matches p).isSome) (sets : List PolicySetIr) :
    (evaluate ctx sets).kind = (evaluate ctx' sets).kind := by
  simp only [evaluate_kind, evaluateLayer_kind htag, evaluateLayer_kind htag', h]

end Evaluate

theorem functionName_replaceChars (handler : String) :
    functionName (replaceChars [':'] handler) = functionName handler := by
  have hsep : ∀ c, (if c ∈ [':'] then '.' else c) ∈ separators ↔ c ∈ separators := by
    intro c
    by_cases hc : c ∈ [':']
    · rw [List.mem_singleton] at hc
      subst hc
      decide
    · rw [if_neg hc]
  unfold functionName replaceChars
  rw [String.toList_ofList, ← List.map_reverse, List.takeWhile_map]
  have hfun : ((fun c => decide (c ∉ separators)) ∘ fun c => if c ∈ [':'] then '.' else c) =
      fun c => decide (c ∉ separators) := by
    funext c
    simp only [Function.comp_apply, hsep]
  rw [hfun]
  have hsame : (handler.toList.reverse.takeWhile fun c => decide (c ∉ separators)).map
      (fun c => if c ∈ [':'] then '.' else c) =
        handler.toList.reverse.takeWhile fun c => decide (c ∉ separators) := by
    refine (List.map_congr_left ?_).trans (List.map_id _)
    intro c hc
    have hc' : c ∉ separators :=
      of_decide_eq_true (List.mem_takeWhile_imp (p := fun c => decide (c ∉ separators)) hc)
    apply if_neg
    intro hcolon
    rw [List.mem_singleton] at hcolon
    subst hcolon
    exact hc' (by decide)
  rw [hsame]

theorem handlerListed_pythonFnCtx {nodeId handler : String} (hslash : '/' ∉ handler.toList)
    (allowed : List String) :
    handlerListed (pythonFnCtx nodeId handler) handler allowed =
      allowed.any fun p =>
        if isPathPattern p then globMatch (canonicalPattern p) (replaceChars [':'] handler)
        else globMatch p (functionName (replaceChars [':'] handler)) := by
  have hmatch : ∀ p, (globMatch p handler ||
      globMatch (canonicalPattern p) (replaceChars [':'] handler)) =
        globMatch (canonicalPattern p) (replaceChars [':'] handler) := by
    intro p
    by_cases hliteral : globMatch p handler = true
    · rw [hliteral, globMatch_canonical hslash hliteral, Bool.true_or]
    · rw [Bool.not_eq_true] at hliteral
      rw [hliteral, Bool.false_or]
  unfold handlerListed
  simp only [canonicalHandler_pythonFnCtx, Option.any_some, hmatch, functionName_replaceChars]

theorem toolListed_samePath {h h' : String} (hpath : SamePath h h') (nodeId : String)
    (patterns : List String) :
    toolListed (pythonFnCtx nodeId h) h patterns = toolListed (pythonFnCtx nodeId h') h' patterns := by
  have hcode : ∀ handler, isCode (pythonFnCtx nodeId handler) = true := fun _ => rfl
  simp only [toolListed, hcode, if_true, handlerListed_pythonFnCtx hpath.noSlash,
    handlerListed_pythonFnCtx hpath.noSlash', hpath.path]

/-- No spelling of a Python function's reference changes what is decided about it: the kind of the
policy decision, and whether it is on a list. -/
theorem spelling_decides_nothing {h h' : String} (hpath : SamePath h h') (nodeId : String)
    (sets : List PolicySetIr) :
    (evaluate (pythonFnCtx nodeId h) sets).kind = (evaluate (pythonFnCtx nodeId h') sets).kind ∧
      ∀ patterns : List String,
        (nodeAllowed (pythonFnCtx nodeId h) patterns = .ok () ↔
          nodeAllowed (pythonFnCtx nodeId h') patterns = .ok ()) ∧
        (nodeNamedBy (pythonFnCtx nodeId h) patterns).isSome =
          (nodeNamedBy (pythonFnCtx nodeId h') patterns).isSome := by
  have htag : ∀ handler, (pythonFnCtx nodeId handler).nodeKindTag ≠ "model" := fun _ =>
    (by decide : "python_fn" ≠ "model")
  refine ⟨evaluate_kind_congr (htag h) (htag h') (matches_samePath hpath nodeId) sets, ?_⟩
  intro patterns
  have htool : ∀ handler, (pythonFnCtx nodeId handler).toolName = some handler := fun _ => rfl
  have hlisted := toolListed_samePath hpath nodeId patterns
  unfold nodeAllowed nodeNamedBy
  rw [htool, htool]
  by_cases hempty : patterns = []
  · simp [hempty]
  · simp only [if_neg hempty, hlisted]
    cases toolListed (pythonFnCtx nodeId h') h' patterns <;> simp

/-- A policy that blocks a dotted path blocks it in both spellings, and a list has both. -/
theorem spelling_decides_nothing_of_send :
    let sets : List PolicySetIr := [{ blockedTools := ["payments.*"] }]
    (evaluate (pythonFnCtx "n" "payments:transfer.send") sets).kind =
        (evaluate (pythonFnCtx "n" "payments.transfer:send") sets).kind ∧
      ((nodeAllowed (pythonFnCtx "n" "payments:transfer.send") ["payments:*"] = .ok () ↔
          nodeAllowed (pythonFnCtx "n" "payments.transfer:send") ["payments:*"] = .ok ()) ∧
        (nodeNamedBy (pythonFnCtx "n" "payments:transfer.send") ["payments:*"]).isSome =
          (nodeNamedBy (pythonFnCtx "n" "payments.transfer:send") ["payments:*"]).isSome) := by
  intro sets
  have hpath : SamePath "payments:transfer.send" "payments.transfer:send" :=
    ⟨by decide, by decide, by decide⟩
  have hsend := spelling_decides_nothing hpath "n" sets
  exact ⟨hsend.1, hsend.2 ["payments:*"]⟩

end JamJet.Policy
