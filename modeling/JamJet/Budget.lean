import JamJet.ProcessPool
import JamJet.Snapshots
import JamJet.StateAgreement

/-! Token budgets.  A worker reads the counters from the latest snapshot before it executes a node
and writes them back, as one object, with the node's result. -/

namespace JamJet

open AtomicCalls Materializer

/-- The arithmetic of doubles, as far as the counters use it. -/
class F64 where
  add : BitVec 64 → BitVec 64 → BitVec 64
  ofInt : ℤ → BitVec 64
  lt : BitVec 64 → BitVec 64 → Bool
  finite_add_zero : ∀ x, finiteF64 x = true → finiteF64 (add x 0) = true
  finite_ofInt : ∀ n, -2 ^ 63 ≤ n → n < 2 ^ 64 → finiteF64 (ofInt n) = true

namespace Json

/-- The readers of `serde` for the types of the counters. -/
def asUnsigned (width : ℕ) : Json → Option ℕ
  | .number (.int n) => if 0 ≤ n ∧ n < 2 ^ width then some n.toNat else none
  | _ => none

def asBool : Json → Option Bool
  | .bool b => some b
  | _ => none

/-- A JSON number is finite, and an integer has at most 64 bits. -/
def asF64 [F64] : Json → Option (BitVec 64)
  | .number (.float bits) => if finiteF64 bits then some bits else none
  | .number (.int n) => if -2 ^ 63 ≤ n ∧ n < 2 ^ 64 then some (F64.ofInt n) else none
  | _ => none

end Json

structure BudgetState where
  totalInputTokens : ℕ := 0
  totalOutputTokens : ℕ := 0
  totalCostUsd : BitVec 64 := 0
  iterationCount : ℕ := 0
  toolCallCount : ℕ := 0
  consecutiveErrorCount : ℕ := 0
  circuitBreakerTripped : Bool := false
  deriving DecidableEq, Repr

structure BudgetLimits where
  totalTokens : Option ℕ := none
  inputTokens : Option ℕ := none
  outputTokens : Option ℕ := none
  costUsd : Option (BitVec 64) := none

def budgetKey : String := "__budget"

namespace BudgetState

def totalTokens (b : BudgetState) : ℕ := (b.totalInputTokens + b.totalOutputTokens) % 2 ^ 64

/-- `serde_json::to_value`: a number JSON cannot hold becomes null. -/
def toJson (b : BudgetState) : Json :=
  .object [
    ("circuit_breaker_tripped", .bool b.circuitBreakerTripped),
    ("consecutive_error_count", Json.ofNat b.consecutiveErrorCount),
    ("iteration_count", Json.ofNat b.iterationCount),
    ("tool_call_count", Json.ofNat b.toolCallCount),
    ("total_cost_usd", if finiteF64 b.totalCostUsd then .number (.float b.totalCostUsd) else .null),
    ("total_input_tokens", Json.ofNat b.totalInputTokens),
    ("total_output_tokens", Json.ofNat b.totalOutputTokens)]

variable [F64]

def ofFields (input output cost iterations toolCalls errors tripped : Json) :
    Option BudgetState := do
  return {
    totalInputTokens := ← input.asUnsigned 64
    totalOutputTokens := ← output.asUnsigned 64
    totalCostUsd := ← cost.asF64
    iterationCount := ← iterations.asUnsigned 32
    toolCallCount := ← toolCalls.asUnsigned 32
    consecutiveErrorCount := ← errors.asUnsigned 32
    circuitBreakerTripped := ← tripped.asBool }

/-- `serde_json::from_value`, from an object with all the fields or from the list of them. -/
def fromJson : Json → Option BudgetState
  | .object fields => do
      ofFields (← BTree.get fields "total_input_tokens") (← BTree.get fields "total_output_tokens")
        (← BTree.get fields "total_cost_usd") (← BTree.get fields "iteration_count")
        (← BTree.get fields "tool_call_count") (← BTree.get fields "consecutive_error_count")
        (← BTree.get fields "circuit_breaker_tripped")
  | .array [input, output, cost, iterations, toolCalls, errors, tripped] =>
      ofFields input output cost iterations toolCalls errors tripped
  | _ => none

def fromSnapshotState (state : Json) : BudgetState :=
  ((state.get budgetKey).bind fromJson).getD {}

omit [F64] in
/-- A patch that is not an object has no room for the counters. -/
def patchIntoSnapshotState (b : BudgetState) : Json → Json
  | .object fields => .object (BTree.insert fields budgetKey b.toJson)
  | other => other

def accumulate (b : BudgetState) (inputTokens outputTokens : Option ℕ)
    (costUsd : Option (BitVec 64)) : BudgetState :=
  { b with
    totalInputTokens := (b.totalInputTokens + inputTokens.getD 0) % 2 ^ 64
    totalOutputTokens := (b.totalOutputTokens + outputTokens.getD 0) % 2 ^ 64
    totalCostUsd := F64.add b.totalCostUsd (costUsd.getD 0) }

/-- The first limit that is reached, by the event it is reported with. -/
def exhausted (b : BudgetState) (limits : BudgetLimits) : Option String :=
  if limits.totalTokens.any (· ≤ b.totalTokens) || limits.inputTokens.any (· ≤ b.totalInputTokens) ||
      limits.outputTokens.any (· ≤ b.totalOutputTokens) then
    some "token_budget_exceeded"
  else if limits.costUsd.any fun limit => !F64.lt b.totalCostUsd limit then
    some "cost_budget_exceeded"
  else none

/-- The first limit that is passed, by the event it is reported with. -/
def exceeded (b : BudgetState) (limits : BudgetLimits) : Option String :=
  if limits.totalTokens.any (· < b.totalTokens) || limits.inputTokens.any (· < b.totalInputTokens) ||
      limits.outputTokens.any (· < b.totalOutputTokens) then
    some "token_budget_exceeded"
  else if limits.costUsd.any fun limit => F64.lt limit b.totalCostUsd then
    some "cost_budget_exceeded"
  else none

/-- Counters that survive being written and read back. -/
structure Valid (b : BudgetState) : Prop where
  input : b.totalInputTokens < 2 ^ 64
  output : b.totalOutputTokens < 2 ^ 64
  cost : finiteF64 b.totalCostUsd = true
  iterations : b.iterationCount < 2 ^ 32
  toolCalls : b.toolCallCount < 2 ^ 32
  errors : b.consecutiveErrorCount < 2 ^ 32

omit [F64] in
theorem valid_default : Valid {} := by
  constructor <;> decide

omit [F64] in
theorem asUnsigned_lt {width n : ℕ} {v : Json} (h : v.asUnsigned width = some n) : n < 2 ^ width := by
  unfold Json.asUnsigned at h
  split at h
  · split at h
    · rename_i hn
      cases h
      rw [Int.toNat_lt hn.1]
      exact_mod_cast hn.2
    · cases h
  · cases h

theorem asF64_finite {v : Json} {bits : BitVec 64} (h : v.asF64 = some bits) :
    finiteF64 bits = true := by
  unfold Json.asF64 at h
  split at h
  · split at h
    · rename_i hfin
      cases h
      exact hfin
    · cases h
  · split at h
    · rename_i hn
      cases h
      exact F64.finite_ofInt _ hn.1 hn.2
    · cases h
  · cases h

theorem valid_ofFields {input output cost iterations toolCalls errors tripped : Json}
    {b : BudgetState}
    (h : ofFields input output cost iterations toolCalls errors tripped = some b) : b.Valid := by
  simp only [ofFields, Option.pure_def, Option.bind_eq_bind, Option.bind_eq_some_iff,
    Option.some.injEq] at h
  obtain ⟨_, hin, _, hout, _, hcost, _, hiter, _, htool, _, herr, _, _, rfl⟩ := h
  exact ⟨asUnsigned_lt hin, asUnsigned_lt hout, asF64_finite hcost, asUnsigned_lt hiter,
    asUnsigned_lt htool, asUnsigned_lt herr⟩

theorem valid_fromJson {v : Json} {b : BudgetState} (h : fromJson v = some b) : b.Valid := by
  unfold fromJson at h
  split at h
  · simp only [Option.bind_eq_bind, Option.bind_eq_some_iff] at h
    obtain ⟨_, _, _, _, _, _, _, _, _, _, _, _, _, _, h⟩ := h
    exact valid_ofFields h
  · exact valid_ofFields h
  · cases h

theorem valid_fromSnapshotState (state : Json) : (fromSnapshotState state).Valid := by
  unfold fromSnapshotState
  cases hb : (state.get budgetKey).bind fromJson with
  | none => exact valid_default
  | some b =>
    obtain ⟨v, _, hv⟩ := Option.bind_eq_some_iff.mp hb
    exact valid_fromJson hv

theorem Valid.accumulate {b : BudgetState} (h : b.Valid) (inputTokens outputTokens : Option ℕ) :
    (b.accumulate inputTokens outputTokens none).Valid :=
  ⟨Nat.mod_lt _ (by decide), Nat.mod_lt _ (by decide), F64.finite_add_zero _ h.cost, h.iterations,
    h.toolCalls, h.errors⟩

omit [F64] in
theorem asUnsigned_ofNat {width n : ℕ} (h : n < 2 ^ width) :
    (Json.ofNat n).asUnsigned width = some n := by
  have hn : (n : ℤ) < 2 ^ width := by exact_mod_cast h
  simp [Json.ofNat, Json.asUnsigned, hn]

theorem ofFields_toJson {b : BudgetState} (h : b.Valid) :
    ofFields (Json.ofNat b.totalInputTokens) (Json.ofNat b.totalOutputTokens)
      (.number (.float b.totalCostUsd)) (Json.ofNat b.iterationCount) (Json.ofNat b.toolCallCount)
      (Json.ofNat b.consecutiveErrorCount) (.bool b.circuitBreakerTripped) = some b := by
  have hcost : (Json.number (.float b.totalCostUsd)).asF64 = some b.totalCostUsd := if_pos h.cost
  rw [ofFields, asUnsigned_ofNat h.input, asUnsigned_ofNat h.output, asUnsigned_ofNat h.iterations,
    asUnsigned_ofNat h.toolCalls, asUnsigned_ofNat h.errors, hcost]
  rfl

omit [F64] in
theorem sorted_toJson (b : BudgetState) : BTree.Sorted b.toJson.members := by
  simp only [toJson, Json.members_object, BTree.Sorted, List.pairwise_cons, List.mem_cons,
    List.not_mem_nil, or_false, forall_eq_or_imp, forall_eq, List.Pairwise.nil, and_true,
    IsEmpty.forall_iff, implies_true]
  decide

omit [F64] in
theorem get_merge {b : BudgetState} (old : Json) {k : String} {v : Json}
    (hk : BTree.get b.toJson.members k = some v) (hv : ∀ o, jsonMergePatch o v = v)
    (hnull : v ≠ .null) : BTree.get (mergeFields old.members b.toJson.members) k = some v := by
  rw [get_mergeFields (sorted_toJson b), hk]
  cases v with
  | null => exact absurd rfl hnull
  | _ => exact congrArg some (hv _)

omit [F64] in
theorem get_merge_nat {b : BudgetState} (old : Json) {k : String} {n : ℕ}
    (hk : BTree.get b.toJson.members k = some (Json.ofNat n)) :
    BTree.get (mergeFields old.members b.toJson.members) k = some (Json.ofNat n) :=
  get_merge old hk (fun _ => by simp [Json.ofNat, jsonMergePatch]) (by simp [Json.ofNat])

theorem fromJson_object {fields : JsonMap}
    {input output cost iterations toolCalls errors tripped : Json}
    (hin : BTree.get fields "total_input_tokens" = some input)
    (hout : BTree.get fields "total_output_tokens" = some output)
    (hcost : BTree.get fields "total_cost_usd" = some cost)
    (hiter : BTree.get fields "iteration_count" = some iterations)
    (htool : BTree.get fields "tool_call_count" = some toolCalls)
    (herr : BTree.get fields "consecutive_error_count" = some errors)
    (htripped : BTree.get fields "circuit_breaker_tripped" = some tripped) :
    fromJson (.object fields) =
      ofFields input output cost iterations toolCalls errors tripped := by
  rw [fromJson, hin, hout, hcost, hiter, htool, herr, htripped]
  rfl

theorem fromJson_merge {b : BudgetState} (h : b.Valid) (old : Json) :
    fromJson (jsonMergePatch old b.toJson) = some b := by
  have hobject : jsonMergePatch old b.toJson =
      .object (mergeFields old.members b.toJson.members) := jsonMergePatch_object old _
  rw [hobject, ← ofFields_toJson h]
  refine fromJson_object (get_merge_nat old ?_) (get_merge_nat old ?_)
    (get_merge old ?_ (fun _ => by simp [jsonMergePatch]) (by simp)) (get_merge_nat old ?_)
    (get_merge_nat old ?_) (get_merge_nat old ?_)
    (get_merge old ?_ (fun _ => by simp [jsonMergePatch]) (by simp))
  all_goals simp [toJson, BTree.get_cons, h.cost]

theorem fromSnapshotState_merge {b : BudgetState} (h : b.Valid) {fields : JsonMap}
    (hfields : BTree.Sorted fields) (state : Json) :
    fromSnapshotState (jsonMergePatch state (b.patchIntoSnapshotState (.object fields))) = b := by
  have hget : (jsonMergePatch state (b.patchIntoSnapshotState (.object fields))).get budgetKey =
      some (jsonMergePatch ((BTree.get state.members budgetKey).getD .null) b.toJson) := by
    rw [patchIntoSnapshotState, jsonMergePatch_object, Json.get,
      get_mergeFields (hfields.insert budgetKey b.toJson), BTree.get_insert, if_pos rfl]
    rfl
  rw [fromSnapshotState, hget]
  simp [fromJson_merge h]

end BudgetState

/-- An item a worker holds, and what executing it comes to. -/
structure BudgetItem where
  executionId : ExecutionId
  nodeId : NodeId
  itemId : WorkItemId
  leaseFence : ℤ
  limits : BudgetLimits
  result : NodeResult
  wellFormed : result.statePatch.WellFormed

/-- What a worker does besides plain backend calls.  The read of the counters is told apart from
other reads by the claim it is made under. -/
inductive WorkerOp : Type → Type
  | utcNow : WorkerOp Instant
  | loadBudget (item : WorkItemId) (fence : ℤ) (e : ExecutionId) : WorkerOp (Option SnapshotRow)

abbrev BudgetOp (β : Type) : Type := BackendOp β ⊕ WorkerOp β

abbrev BudgetProg := Prog BudgetOp BackendError

namespace Worker

def backend {α : Type} (op : BackendOp α) : BudgetProg α := Prog.perform (.inl op)

/-- A snapshot that cannot be read counts as none. -/
def loadBudgetState [F64] (item : BudgetItem) : BudgetProg BudgetState := do
  let snapshot ← (Prog.perform (.inr (.loadBudget item.itemId item.leaseFence item.executionId)) :
    BudgetProg (Option SnapshotRow)).attempt
  return match snapshot with
    | .ok (some snap) => BudgetState.fromSnapshotState snap.state
    | _ => {}

/-- Commit the result with the counters in its patch. -/
def commitResult (item : BudgetItem) (statePatch : Json) : BudgetProg Unit := do
  let now ← Prog.perform (.inr .utcNow)
  let _ ← backend (.commitTurn item.itemId item.leaseFence item.executionId
    (.nodeCompleted item.nodeId { item.result with statePatch := statePatch }) true now)
  return ()

/-- `execute_item`, as far as the budget goes. -/
def executeItem [F64] (item : BudgetItem) : BudgetProg Unit := do
  let budget ← loadBudgetState item
  match budget.exhausted item.limits with
  | some tag =>
      match ← (backend (.latestSequence item.executionId)).attempt with
      | .ok _ =>
          let _ ← (backend (.appendEvent item.executionId (.other tag))).attempt
          return ()
      | .error _ => return ()
  | none =>
      let budget := budget.accumulate item.result.inputTokens item.result.outputTokens none
      let statePatch := budget.patchIntoSnapshotState item.result.statePatch
      match budget.exceeded item.limits with
      | some tag =>
          -- a sequence that cannot be read lets the turn through
          match ← (backend (.latestSequence item.executionId)).attempt with
          | .ok _ =>
              let _ ← (backend (.appendEvent item.executionId (.other tag))).attempt
              return ()
          | .error _ => commitResult item statePatch
      | none => commitResult item statePatch

end Worker

end JamJet
