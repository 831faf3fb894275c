import JamJet.Validate

/-! What the validator of branch expressions accepts against what the evaluator can be satisfied
by.  Both read the same small grammar; they part on a path with an empty segment, which the
validator refuses and the evaluator resolves to nothing. -/

namespace JamJet.Condition

variable {parseLiteral : String → Option Json} {expr : String}

/-- A state in which the path leads to the value. -/
def nest : List (List Char) → Json → Json
  | [], v => v
  | segment :: path, v => .object [(String.ofList segment, nest path v)]

theorem descend_nest {segment : List Char} (h : segment ≠ []) (v : Json) :
    descend (.object [(String.ofList segment, v)]) segment = some v := by
  simp [descend, h, BTree.get]

theorem foldlM_descend_nest {path : List (List Char)} (h : [] ∉ path) (v : Json) :
    path.foldlM descend (nest path v) = some v := by
  induction path with
  | nil => rfl
  | cons segment path ih =>
    have hsegment : segment ≠ [] := by
      rintro rfl
      simp at h
    have hpath : [] ∉ path := fun hmem => h (List.mem_cons_of_mem _ hmem)
    rw [nest, List.foldlM_cons, descend_nest hsegment]
    exact ih hpath

theorem foldlM_descend_of_empty {path : List (List Char)} (h : [] ∈ path) (root : Json) :
    path.foldlM descend root = none := by
  induction path generalizing root with
  | nil => simp at h
  | cons segment path ih =>
    rw [List.foldlM_cons]
    cases hnext : descend root segment with
    | none => rfl
    | some next =>
      have hsegment : segment ≠ [] := by
        rintro rfl
        simp [descend] at hnext
      have hpath : [] ∈ path := by
        rcases List.mem_cons.mp h with heq | hmem
        · exact absurd heq.symm hsegment
        · exact hmem
      exact ih hpath next

theorem resolvePath_nest {path : List Char} (h : [] ∉ path.splitOn '.') (v : Json) :
    resolvePath (nest (path.splitOn '.') v) path = some v :=
  foldlM_descend_nest h v

theorem resolvePath_of_empty {path : List Char} (h : [] ∈ path.splitOn '.') (root : Json) :
    resolvePath root path = none :=
  foldlM_descend_of_empty h root

theorem resolvePath_empty_state (path : List Char) : resolvePath (.object []) path = none := by
  have hsplit : path.splitOn '.' ≠ [] := List.splitOn_ne_nil _ _
  rw [resolvePath]
  cases hsegments : path.splitOn '.' with
  | nil => exact absurd hsegments hsplit
  | cons segment rest => simp [List.foldlM_cons, descend, BTree.get]

theorem numbersEqual_self (n : JsonNumber) : numbersEqual n n = true := by
  cases n <;> simp [numbersEqual]

mutual

theorem jsonEqual_self : ∀ v : Json, jsonEqual v v = true
  | .null => by simp [jsonEqual]
  | .bool b => by simp [jsonEqual]
  | .number n => by simp [jsonEqual, numbersEqual_self]
  | .string s => by simp [jsonEqual]
  | .array items => by
    rw [jsonEqual]
    exact itemsEqual_self items
  | .object fields => by
    rw [jsonEqual]
    exact membersEqual_self fields

theorem itemsEqual_self : ∀ items : List Json, itemsEqual items items = true
  | [] => by simp [itemsEqual]
  | v :: items => by simp [itemsEqual, jsonEqual_self v, itemsEqual_self items]

theorem membersEqual_self : ∀ fields : List (String × Json), membersEqual fields fields = true
  | [] => by simp [membersEqual]
  | (k, v) :: fields => by simp [membersEqual, jsonEqual_self v, membersEqual_self fields]

end

theorem jsonEqual_null (v : Json) : jsonEqual v .null = true ↔ v = .null := by
  cases v <;> simp [jsonEqual]

theorem valuesEqual_absent (literal : Json) : valuesEqual none literal = true ↔ literal = .null :=
  jsonEqual_null literal

/-! ### The left-hand side -/

/-- A path whose segments are all there. -/
def WholePath (lhs path : List Char) : Prop := statePath lhs = some path ∧ [] ∉ path.splitOn '.'

theorem requireStatePath_ok (lhs : List Char) :
    requireStatePath lhs = .ok () ↔ ∃ path, WholePath lhs path := by
  unfold requireStatePath WholePath statePath
  cases "state.".toList.isPrefixOf? lhs with
  | none => simp
  | some path =>
    cases path with
    | nil => simp
    | cons c path =>
      have hall : ((c :: path).splitOn '.').all (!·.isEmpty) = true ↔
          [] ∉ (c :: path).splitOn '.' := by
        rw [List.all_eq_true]
        constructor
        · intro h hmem
          simpa using h [] hmem
        · intro h segment hmem
          cases segment with
          | nil => exact absurd hmem h
          | cons d segment => rfl
      simp [← hall]

/-! ### Satisfaction -/

theorem evalTruthiness_satisfiable (lhs : List Char) :
    (∃ state, evalTruthiness lhs state = true) ↔ ∃ path, WholePath lhs path := by
  constructor
  · rintro ⟨state, hstate⟩
    unfold evalTruthiness at hstate
    cases hpath : statePath lhs with
    | none => simp [hpath] at hstate
    | some path =>
      refine ⟨path, hpath, fun hempty => ?_⟩
      simp [hpath, resolvePath_of_empty hempty, isTruthy] at hstate
  · rintro ⟨path, hpath, hsegments⟩
    refine ⟨nest (path.splitOn '.') (.bool true), ?_⟩
    simp [evalTruthiness, hpath, resolvePath_nest hsegments, isTruthy]

/-- A comparison that an absent value satisfies. -/
def HoldsOfAbsent (op : CompareOp) (literal : Json) : Prop := op = .eq ↔ literal = .null

theorem evalComparison_eq {lhs rhs path : List Char} {literal : Json}
    (hpath : statePath (trim lhs) = some path)
    (hliteral : parseLiteral (String.ofList (trim rhs)) = some literal) (op : CompareOp)
    (state : Json) :
    evalComparison parseLiteral lhs op rhs state = true ↔
      (op = .eq ↔ valuesEqual (resolvePath state path) literal = true) := by
  cases op <;> simp [evalComparison, hpath, hliteral]

theorem evalComparison_satisfiable {lhs rhs path : List Char} {literal : Json}
    (hpath : WholePath (trim lhs) path)
    (hliteral : parseLiteral (String.ofList (trim rhs)) = some literal) (op : CompareOp) :
    ∃ state, evalComparison parseLiteral lhs op rhs state = true := by
  cases op with
  | eq =>
    refine ⟨nest (path.splitOn '.') literal, (evalComparison_eq hpath.1 hliteral _ _).mpr ?_⟩
    simp [resolvePath_nest hpath.2, valuesEqual, jsonEqual_self]
  | ne =>
    by_cases hnull : literal = .null
    · refine ⟨nest (path.splitOn '.') (.bool true), (evalComparison_eq hpath.1 hliteral _ _).mpr ?_⟩
      rw [resolvePath_nest hpath.2, hnull]
      simp [valuesEqual, jsonEqual]
    · refine ⟨.object [], (evalComparison_eq hpath.1 hliteral _ _).mpr ?_⟩
      simp [resolvePath_empty_state, valuesEqual_absent, hnull]

theorem evalComparison_of_empty {lhs rhs path : List Char} {literal : Json}
    (hpath : statePath (trim lhs) = some path) (hempty : [] ∈ path.splitOn '.')
    (hliteral : parseLiteral (String.ofList (trim rhs)) = some literal) (op : CompareOp)
    (state : Json) :
    evalComparison parseLiteral lhs op rhs state = true ↔ HoldsOfAbsent op literal := by
  rw [evalComparison_eq hpath hliteral, resolvePath_of_empty hempty, valuesEqual_absent,
    HoldsOfAbsent]

/-- The expression compares a path with an empty segment with a literal, and holds of an absent
value: it is true in every state. -/
def BrokenPathHolds (parseLiteral : String → Option Json) (expr : String) : Prop :=
  ∃ lhs op rhs path literal, findFirstOp (trim expr.toList) = some (lhs, op, rhs) ∧
    statePath (trim lhs) = some path ∧ [] ∈ path.splitOn '.' ∧
    parseLiteral (String.ofList (trim rhs)) = some literal ∧ HoldsOfAbsent op literal

theorem validateExpression_comparison {lhs rhs : List Char} {op : CompareOp}
    (hop : findFirstOp (trim expr.toList) = some (lhs, op, rhs)) :
    validateExpression parseLiteral expr = .ok () ↔
      (∃ path, WholePath (trim lhs) path) ∧
        ∃ literal, parseLiteral (String.ofList (trim rhs)) = some literal := by
  have hexpr : (trim expr.toList).isEmpty = false := by
    cases hchars : trim expr.toList with
    | nil => simp [hchars, findFirstOp] at hop
    | cons c rest => rfl
  rw [← requireStatePath_ok]
  simp only [validateExpression, hexpr, hop, Bool.false_eq_true, if_false]
  cases hlhs : requireStatePath (trim lhs) with
  | error reason => simp [bind, Except.bind]
  | ok value =>
    cases hrhs : parseLiteral (String.ofList (trim rhs)) with
    | none => simp [bind, Except.bind]
    | some literal => simp [bind, Except.bind]

theorem evalCondition_comparison {lhs rhs : List Char} {op : CompareOp}
    (hop : findFirstOp (trim expr.toList) = some (lhs, op, rhs)) (state : Json) :
    evalCondition parseLiteral expr state = evalComparison parseLiteral lhs op rhs state := by
  have hexpr : (trim expr.toList).isEmpty = false := by
    cases hchars : trim expr.toList with
    | nil => simp [hchars, findFirstOp] at hop
    | cons c rest => rfl
  simp [evalCondition, hexpr, hop]

theorem validateExpression_truthiness (hop : findFirstOp (trim expr.toList) = none) :
    validateExpression parseLiteral expr = .ok () ↔
      ∃ state, evalCondition parseLiteral expr state = true := by
  cases hexpr : (trim expr.toList).isEmpty with
  | true => simp [validateExpression, evalCondition, hexpr]
  | false =>
    simp only [validateExpression, evalCondition, hexpr, hop, Bool.false_eq_true, if_false,
      requireStatePath_ok, evalTruthiness_satisfiable]

/-- The validator accepts exactly the expressions some state satisfies, unless the expression holds
of the absent value of a path with an empty segment. -/
theorem validateExpression_satisfiable_iff (parseLiteral : String → Option Json) (expr : String) :
    (validateExpression parseLiteral expr = .ok () ↔
      ∃ state, evalCondition parseLiteral expr state = true) ↔
    ¬ BrokenPathHolds parseLiteral expr := by
  cases hop : findFirstOp (trim expr.toList) with
  | none => simp [validateExpression_truthiness hop, BrokenPathHolds, hop]
  | some found =>
    obtain ⟨lhs, op, rhs⟩ := found
    simp only [validateExpression_comparison hop, evalCondition_comparison hop]
    constructor
    · rintro hagree ⟨lhs', op', rhs', path, literal, hop', hpath, hempty, hliteral, habsent⟩
      obtain ⟨rfl, rfl, rfl⟩ : lhs = lhs' ∧ op = op' ∧ rhs = rhs' := by simpa [hop] using hop'
      have htrue := (evalComparison_of_empty hpath hempty hliteral op .null).mpr habsent
      obtain ⟨⟨path', hpath', hwhole⟩, -⟩ := hagree.mpr ⟨.null, htrue⟩
      obtain rfl : path = path' := by simpa [hpath] using hpath'
      exact hwhole hempty
    · intro hbroken
      constructor
      · rintro ⟨⟨path, hpath⟩, literal, hliteral⟩
        exact evalComparison_satisfiable hpath hliteral op
      · rintro ⟨state, hstate⟩
        cases hpath : statePath (trim lhs) with
        | none => simp [evalComparison, hpath] at hstate
        | some path =>
          cases hliteral : parseLiteral (String.ofList (trim rhs)) with
          | none => simp [evalComparison, hpath, hliteral] at hstate
          | some literal =>
            refine ⟨⟨path, hpath, fun hempty => hbroken ?_⟩, literal, rfl⟩
            have habsent := (evalComparison_of_empty hpath hempty hliteral op state).mp hstate
            exact ⟨lhs, op, rhs, path, literal, hop, hpath, hempty, hliteral, habsent⟩

/-- A reader that knows one number. -/
def readOne (text : String) : Option Json := if text = "1" then some (.number (.int 1)) else none

theorem refused_expression_holds :
    validateExpression readOne "state..attempt != 1" =
        .error "left-hand side `state..attempt` must be a `state.<path>` reference" ∧
      ∀ state, evalCondition readOne "state..attempt != 1" state = true := by
  refine ⟨by decide +kernel, fun state => ?_⟩
  have hop : findFirstOp (trim "state..attempt != 1".toList) =
      some ("state..attempt ".toList, .ne, " 1".toList) := by decide +kernel
  have hpath : statePath (trim "state..attempt ".toList) = some ".attempt".toList := by
    decide +kernel
  have hempty : [] ∈ ".attempt".toList.splitOn '.' := by decide +kernel
  have hliteral : readOne (String.ofList (trim " 1".toList)) = some (.number (.int 1)) := rfl
  rw [evalCondition_comparison hop, evalComparison_of_empty hpath hempty hliteral]
  simp [HoldsOfAbsent]

end JamJet.Condition
