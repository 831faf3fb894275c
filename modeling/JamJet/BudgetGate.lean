import JamJet.BudgetRuns
import JamJet.CallTraces

/-! The gates a node's tokens and cost pass at a worker: before it fires, on what is spent already,
and after it has run, on what it reports.  The counters are 64 bits wide. -/

namespace JamJet

open AtomicCalls

/-- How the messages of the gates write doubles: in full, and with four decimals. -/
class F64Display where
  display : BitVec 64 → String
  fixed4 : BitVec 64 → String

/-- A ceiling that has been reached or passed. -/
structure BudgetTrip where
  kind : String
  limit : BitVec 64
  current : BitVec 64

/-- The event a trip is recorded as; dollars do not survive the cast to whole tokens. -/
def BudgetTrip.event (trip : BudgetTrip) : EventKind :=
  .other (if trip.kind = "cost_usd" then "cost_budget_exceeded" else "token_budget_exceeded")

/-- What `+` on `u64` does when the sum has no room: a debug build panics, a release build wraps. -/
inductive Build
  | debug
  | release
  deriving DecidableEq, Repr

def Build.addU64 : Build → ℕ → ℕ → Option ℕ
  | .debug, x, y => if x + y < 2 ^ 64 then some (x + y) else none
  | .release, x, y => some ((x + y) % 2 ^ 64)

/-- What an executor reports for one node. -/
structure SpendReport where
  inputTokens : Option UInt64 := none
  outputTokens : Option UInt64 := none
  costUsd : Option (BitVec 64) := none

namespace SpendReport

def input (r : SpendReport) : ℕ := (r.inputTokens.getD 0).toNat

def output (r : SpendReport) : ℕ := (r.outputTokens.getD 0).toNat

theorem input_lt (r : SpendReport) : r.input < 2 ^ 64 := (r.inputTokens.getD 0).toNat_lt

theorem output_lt (r : SpendReport) : r.output < 2 ^ 64 := (r.outputTokens.getD 0).toNat_lt

end SpendReport

namespace BudgetState

variable [F64]

/-- One ceiling on tokens. -/
def reached (kind : String) (limit : Option ℕ) (current : ℕ) : Option BudgetTrip :=
  limit.bind fun l => if l ≤ current then some ⟨kind, F64.ofInt l, F64.ofInt current⟩ else none

/-- The ceiling on cost; a NaN on either side loses every comparison, and counts as reached. -/
def reachedCost (limit : Option (BitVec 64)) (current : BitVec 64) : Option BudgetTrip :=
  limit.bind fun l => if F64.lt current l then none else some ⟨"cost_usd", l, current⟩

/-- `exhausted`, given the total it compares. -/
def exhaustedAt (b : BudgetState) (limits : BudgetLimits) (total : ℕ) : Option BudgetTrip :=
  (reached "total_tokens" limits.totalTokens total).or
    ((reached "input_tokens" limits.inputTokens b.totalInputTokens).or
      ((reached "output_tokens" limits.outputTokens b.totalOutputTokens).or
        (reachedCost limits.costUsd b.totalCostUsd)))

omit [F64] in
/-- `total_tokens`; nothing when the addition panics. -/
def totalTokensIn (build : Build) (b : BudgetState) : Option ℕ :=
  build.addU64 b.totalInputTokens b.totalOutputTokens

/-- `exhausted`; the total is computed only when it has a ceiling. -/
def exhaustedIn (build : Build) (b : BudgetState) (limits : BudgetLimits) :
    Option (Option BudgetTrip) :=
  match limits.totalTokens with
  | none => some (b.exhaustedAt limits 0)
  | some _ => (b.totalTokensIn build).map (b.exhaustedAt limits)

/-- `accumulate`; nothing when an addition panics. -/
def accumulateIn (build : Build) (b : BudgetState) (r : SpendReport) : Option BudgetState := do
  let input ← build.addU64 b.totalInputTokens r.input
  let output ← build.addU64 b.totalOutputTokens r.output
  return { b with
    totalInputTokens := input
    totalOutputTokens := output
    totalCostUsd := F64.add b.totalCostUsd (r.costUsd.getD 0) }

def accumulateAll (build : Build) (b : BudgetState) (reports : List SpendReport) :
    Option BudgetState :=
  reports.foldlM (accumulateIn build) b

/-- `exhausted` in a release build. -/
def exhaustedTrip (b : BudgetState) (limits : BudgetLimits) : Option BudgetTrip :=
  b.exhaustedAt limits b.totalTokens

/-! What is exhausted stays exhausted -/

/-- The counters fit their width. -/
structure CountersFit (b : BudgetState) : Prop where
  input : b.totalInputTokens < 2 ^ 64
  output : b.totalOutputTokens < 2 ^ 64

/-- The total neither panics nor wraps to less than a part of it. -/
def TotalHolds (build : Build) (b : BudgetState) : Prop :=
  ∃ total, b.totalTokensIn build = some total ∧ b.totalInputTokens ≤ total ∧
    b.totalOutputTokens ≤ total

/-- No addition along the reports panics, or wraps to less than it was given. -/
def NoWrap (build : Build) : BudgetState → List SpendReport → Prop
  | b, [] => b.TotalHolds build
  | b, r :: reports => b.TotalHolds build ∧ ∃ after, b.accumulateIn build r = some after ∧
      b.totalInputTokens ≤ after.totalInputTokens ∧ r.input ≤ after.totalInputTokens ∧
      b.totalOutputTokens ≤ after.totalOutputTokens ∧ r.output ≤ after.totalOutputTokens ∧
      NoWrap build after reports

/-- `exhausted` names a ceiling on tokens. -/
def TokensExhausted (build : Build) (b : BudgetState) (limits : BudgetLimits) : Prop :=
  ∃ trip, b.exhaustedIn build limits = some (some trip) ∧ trip.kind ≠ "cost_usd"

/-- Whatever the limits, a ceiling on tokens that is reached is still reached after the reports,
and every addition on the way is exact. -/
structure StaysExhausted (build : Build) (b : BudgetState) (reports : List SpendReport) : Prop where
  noWrap : b.NoWrap build reports
  stays : ∀ limits, b.TokensExhausted build limits →
    ∃ after, b.accumulateAll build reports = some after ∧ after.TokensExhausted build limits

/-- All tokens there are after the reports. -/
def tokensAfter (b : BudgetState) (reports : List SpendReport) : ℕ :=
  b.totalInputTokens + b.totalOutputTokens + (reports.map fun r => r.input + r.output).sum

section Overflow

variable {build : Build} {b after : BudgetState} {r : SpendReport} {reports : List SpendReport}

omit [F64] in
theorem addU64_fits (build : Build) {x y z : ℕ} (hx : x < 2 ^ 64) (hy : y < 2 ^ 64) :
    (build.addU64 x y = some z ∧ x ≤ z) ↔ x + y < 2 ^ 64 ∧ z = x + y := by
  cases build with
  | debug =>
    simp only [Build.addU64, Option.ite_none_right_eq_some, Option.some.injEq]
    omega
  | release =>
    simp only [Build.addU64, Option.some.injEq]
    omega

omit [F64] in
theorem totalHolds_iff (hb : b.CountersFit) :
    b.TotalHolds build ↔ b.totalInputTokens + b.totalOutputTokens < 2 ^ 64 := by
  constructor
  · rintro ⟨total, htotal, hle, -⟩
    exact ((addU64_fits build hb.input hb.output).mp ⟨htotal, hle⟩).1
  · intro h
    obtain ⟨htotal, hle⟩ := (addU64_fits build hb.input hb.output).mpr ⟨h, rfl⟩
    exact ⟨_, htotal, hle, Nat.le_add_left _ _⟩

theorem accumulateIn_fits (build : Build) (b : BudgetState) (r : SpendReport)
    (hinput : b.totalInputTokens + r.input < 2 ^ 64)
    (houtput : b.totalOutputTokens + r.output < 2 ^ 64) :
    b.accumulateIn build r = some { b with
      totalInputTokens := b.totalInputTokens + r.input
      totalOutputTokens := b.totalOutputTokens + r.output
      totalCostUsd := F64.add b.totalCostUsd (r.costUsd.getD 0) } := by
  have hadd : ∀ x y, x + y < 2 ^ 64 → build.addU64 x y = some (x + y) := by
    intro x y h
    exact ((addU64_fits build (by omega) (by omega)).mpr ⟨h, rfl⟩).1
  simp [accumulateIn, hadd _ _ hinput, hadd _ _ houtput]

theorem accumulateIn_exact (hb : b.CountersFit) (h : b.accumulateIn build r = some after)
    (hinput : b.totalInputTokens ≤ after.totalInputTokens)
    (houtput : b.totalOutputTokens ≤ after.totalOutputTokens) :
    after.CountersFit ∧ after.totalInputTokens = b.totalInputTokens + r.input ∧
      after.totalOutputTokens = b.totalOutputTokens + r.output := by
  simp only [accumulateIn, Option.bind_eq_bind, Option.bind_eq_some_iff, Option.pure_def,
    Option.some.injEq] at h
  obtain ⟨input, hin, output, hout, rfl⟩ := h
  obtain ⟨hlt, heq⟩ := (addU64_fits build hb.input r.input_lt).mp ⟨hin, hinput⟩
  obtain ⟨hlt', heq'⟩ := (addU64_fits build hb.output r.output_lt).mp ⟨hout, houtput⟩
  exact ⟨⟨heq ▸ hlt, heq' ▸ hlt'⟩, heq, heq'⟩

theorem noWrap_iff (hb : b.CountersFit) :
    b.NoWrap build reports ↔ b.tokensAfter reports < 2 ^ 64 := by
  induction reports generalizing b with
  | nil => simp [NoWrap, tokensAfter, totalHolds_iff hb]
  | cons r reports ih =>
    have hsplit : b.tokensAfter (r :: reports) = b.totalInputTokens + r.input +
        (b.totalOutputTokens + r.output) + (reports.map fun r => r.input + r.output).sum := by
      simp only [tokensAfter, List.map_cons, List.sum_cons]
      omega
    constructor
    · rintro ⟨-, after, hafter, hinput, -, houtput, -, hrest⟩
      obtain ⟨hfit, heq, heq'⟩ := accumulateIn_exact hb hafter hinput houtput
      have hlt := (ih hfit).mp hrest
      rw [tokensAfter, heq, heq'] at hlt
      rw [hsplit]
      exact hlt
    · intro h
      rw [hsplit] at h
      have hfit : CountersFit { b with
          totalInputTokens := b.totalInputTokens + r.input
          totalOutputTokens := b.totalOutputTokens + r.output
          totalCostUsd := F64.add b.totalCostUsd (r.costUsd.getD 0) } := by
        constructor
        · dsimp only
          omega
        · dsimp only
          omega
      refine ⟨(totalHolds_iff hb).mpr (by omega), _, accumulateIn_fits build b r (by omega) (by omega),
        Nat.le_add_right _ _, Nat.le_add_left _ _, Nat.le_add_right _ _, Nat.le_add_left _ _, ?_⟩
      exact (ih hfit).mpr h

theorem accumulateAll_fits (build : Build) (h : b.tokensAfter reports < 2 ^ 64) :
    ∃ after, b.accumulateAll build reports = some after ∧
      after.totalInputTokens = b.totalInputTokens + (reports.map (·.input)).sum ∧
      after.totalOutputTokens = b.totalOutputTokens + (reports.map (·.output)).sum := by
  induction reports generalizing b with
  | nil => exact ⟨b, rfl, rfl, rfl⟩
  | cons r reports ih =>
    simp only [tokensAfter, List.map_cons, List.sum_cons] at h
    have hstep := accumulateIn_fits build b r (by omega) (by omega)
    obtain ⟨after, hafter, hinput, houtput⟩ := ih (b := { b with
      totalInputTokens := b.totalInputTokens + r.input
      totalOutputTokens := b.totalOutputTokens + r.output
      totalCostUsd := F64.add b.totalCostUsd (r.costUsd.getD 0) }) (by
        simp only [tokensAfter]
        omega)
    refine ⟨after, ?_, ?_, ?_⟩
    · rw [accumulateAll, List.foldlM_cons, hstep]
      exact hafter
    · simp only [hinput, List.map_cons, List.sum_cons]
      omega
    · simp only [houtput, List.map_cons, List.sum_cons]
      omega

theorem reached_cases (kind : String) (limit : Option ℕ) (current : ℕ) :
    (¬ (∃ l, limit = some l ∧ l ≤ current) ∧ reached kind limit current = none) ∨
      (∃ l, limit = some l ∧ l ≤ current) ∧
        ∃ trip, reached kind limit current = some trip ∧ trip.kind = kind := by
  cases limit with
  | none => simp [reached]
  | some l => by_cases h : l ≤ current <;> simp [reached, h]

/-- Some ceiling on tokens is reached, with this total. -/
def AtCeiling (b : BudgetState) (limits : BudgetLimits) (total : ℕ) : Prop :=
  (∃ l, limits.totalTokens = some l ∧ l ≤ total) ∨
    (∃ l, limits.inputTokens = some l ∧ l ≤ b.totalInputTokens) ∨
    ∃ l, limits.outputTokens = some l ∧ l ≤ b.totalOutputTokens

theorem exhaustedAt_tokens {limits : BudgetLimits} {total : ℕ} :
    (∃ trip, b.exhaustedAt limits total = some trip ∧ trip.kind ≠ "cost_usd") ↔
      b.AtCeiling limits total := by
  unfold exhaustedAt AtCeiling
  rcases reached_cases "total_tokens" limits.totalTokens total with
    ⟨htotal, hnone⟩ | ⟨htotal, trip, htrip, hkind⟩
  · rcases reached_cases "input_tokens" limits.inputTokens b.totalInputTokens with
      ⟨hinput, hnone'⟩ | ⟨hinput, trip, htrip, hkind⟩
    · rcases reached_cases "output_tokens" limits.outputTokens b.totalOutputTokens with
        ⟨houtput, hnone''⟩ | ⟨houtput, trip, htrip, hkind⟩
      · -- only the ceiling on cost is left
        have hcost : ∀ trip, reachedCost limits.costUsd b.totalCostUsd = some trip →
            trip.kind = "cost_usd" := by
          intro trip htrip
          simp only [reachedCost, Option.bind_eq_some_iff, Option.ite_none_left_eq_some] at htrip
          obtain ⟨l, -, -, htrip⟩ := htrip
          cases htrip
          rfl
        simp only [hnone, hnone', hnone'', htotal, hinput, houtput, Option.none_or, or_self,
          iff_false, not_exists, not_and, not_not]
        exact hcost
      · simp [hnone, hnone', htrip, hkind, houtput]
    · simp [hnone, htrip, hkind, hinput]
  · simp [htrip, hkind, htotal]

theorem tokensExhausted_iff {limits : BudgetLimits}
    (h : b.totalInputTokens + b.totalOutputTokens < 2 ^ 64) :
    b.TokensExhausted build limits ↔
      b.AtCeiling limits (b.totalInputTokens + b.totalOutputTokens) := by
  have htotal : b.totalTokensIn build = some (b.totalInputTokens + b.totalOutputTokens) :=
    ((addU64_fits build (by omega) (by omega)).mpr ⟨h, rfl⟩).1
  have hat : b.exhaustedIn build limits =
      some (b.exhaustedAt limits (b.totalInputTokens + b.totalOutputTokens)) := by
    unfold exhaustedIn
    cases hlimit : limits.totalTokens with
    | none => simp [exhaustedAt, hlimit, reached]
    | some l => simp [htotal]
  unfold TokensExhausted
  rw [hat, ← exhaustedAt_tokens]
  simp

/-- Whatever the limits, an exhausted budget stays exhausted and no addition overflows, exactly
when the counters and all the tokens reported have room in 64 bits. -/
theorem staysExhausted_iff (build : Build) {b : BudgetState} (hb : b.CountersFit)
    (reports : List SpendReport) :
    b.StaysExhausted build reports ↔ b.tokensAfter reports < 2 ^ 64 := by
  constructor
  · intro h
    exact (noWrap_iff hb).mp h.noWrap
  · intro h
    refine ⟨(noWrap_iff hb).mpr h, fun limits hlimits => ?_⟩
    obtain ⟨after, hafter, hinput, houtput⟩ := accumulateAll_fits build h
    have hsum : (reports.map fun r => r.input + r.output).sum =
        (reports.map (·.input)).sum + (reports.map (·.output)).sum := List.sum_map_add
    unfold tokensAfter at h
    rw [tokensExhausted_iff (by omega)] at hlimits
    refine ⟨after, hafter, (tokensExhausted_iff (by omega)).mpr ?_⟩
    rcases hlimits with ⟨l, hl, hle⟩ | ⟨l, hl, hle⟩ | ⟨l, hl, hle⟩
    · exact .inl ⟨l, hl, by omega⟩
    · exact .inr (.inl ⟨l, hl, by omega⟩)
    · exact .inr (.inr ⟨l, hl, by omega⟩)

end Overflow

/-- A run that has used up its tokens reports one more. -/
def spentUp : BudgetState := { totalInputTokens := 2 ^ 64 - 1 }

def oneMore : SpendReport := { inputTokens := some 1 }

omit [F64] in
/-- A release build forgets what was spent, and a debug build panics. -/
theorem exhausted_budget_reset :
    let _ : F64 := costless
    let limits : BudgetLimits := { totalTokens := some 100 }
    spentUp.CountersFit ∧
      (spentUp.exhaustedIn .release limits).map (·.map (·.kind)) = some (some "total_tokens") ∧
      (spentUp.accumulateAll .release [oneMore]).map
        (fun after => (after.exhaustedIn .release limits).map (·.map (·.kind))) =
          some (some none) ∧
      (spentUp.accumulateAll .debug [oneMore]).isNone = true ∧
      ¬ spentUp.StaysExhausted .release [oneMore] ∧ ¬ spentUp.StaysExhausted .debug [oneMore] := by
  intro _ limits
  have hfit : spentUp.CountersFit := ⟨by decide, by decide⟩
  refine ⟨hfit, rfl, rfl, rfl, fun h => ?_, fun h => ?_⟩
  · exact absurd ((noWrap_iff hfit).mp h.noWrap) (by decide)
  · exact absurd ((noWrap_iff hfit).mp h.noWrap) (by decide)

omit [F64] in
theorem staysExhausted_below_the_width :
    let _ : F64 := costless
    ({ totalInputTokens := 60, totalOutputTokens := 40 } : BudgetState).StaysExhausted .release
      [oneMore, oneMore] := by
  intro _
  exact (staysExhausted_iff .release ⟨by decide, by decide⟩ _).mpr (by decide)

end BudgetState

/-! Before and after a node runs -/

section Gate

variable [F64] [F64Display]

namespace Worker

/-- Refuse to fire on a spent budget.  The record is best effort; the refusal is not. -/
def checkBudgetBeforeExecution (e : ExecutionId) (limits : BudgetLimits) (budget : BudgetState) :
    BudgetProg (Option (Except String Unit)) :=
  match budget.exhaustedTrip limits with
  | none => return none
  | some trip => do
      match ← (backend (.latestSequence e)).attempt with
      | .ok _ =>
          let _ ← (backend (.appendEvent e trip.event)).attempt
      | .error _ => pure ()
      return some (.error ("budget exhausted before execution: " ++ trip.kind ++ " " ++
        F64Display.display trip.current ++ " >= " ++ F64Display.display trip.limit))

omit [F64] [F64Display] in
/-- Record the event and refuse; a sequence that cannot be read ends the check without a verdict. -/
def refuseRecorded (e : ExecutionId) (kind : EventKind) (message : String) :
    BudgetProg (Option (Except String Unit)) := do
  match ← (backend (.latestSequence e)).attempt with
  | .error _ => return none
  | .ok _ =>
      let _ ← (backend (.appendEvent e kind)).attempt
      return some (.error message)

omit [F64] [F64Display] in
def emitTokenBudgetExceeded (e : ExecutionId) (kind : String) (limit current : ℕ) :
    BudgetProg (Option (Except String Unit)) :=
  refuseRecorded e (.other "token_budget_exceeded")
    ("token budget exceeded: " ++ kind ++ " " ++ toString current ++ " > " ++ toString limit)

omit [F64] [F64Display] in
/-- The first ceiling on tokens the counters are past, with what it is compared to. -/
def passedTokens (budget : BudgetState) (limits : BudgetLimits) : Option (String × ℕ × ℕ) :=
  [("total_tokens", limits.totalTokens, budget.totalTokens),
    ("input_tokens", limits.inputTokens, budget.totalInputTokens),
    ("output_tokens", limits.outputTokens, budget.totalOutputTokens)].findSome?
      fun (kind, limit, current) => limit.bind fun l =>
        if l < current then some (kind, l, current) else none

/-- The ceilings in the order they are checked, the one on cost last. -/
def checkCeilings (e : ExecutionId) (limits : BudgetLimits) (budget : BudgetState) :
    BudgetProg (Option (Except String Unit)) :=
  match passedTokens budget limits with
  | some (kind, limit, current) => emitTokenBudgetExceeded e kind limit current
  | none =>
      match limits.costUsd.filter (F64.lt · budget.totalCostUsd) with
      | some limit =>
          refuseRecorded e (.other "cost_budget_exceeded") ("cost budget exceeded: $" ++
            F64Display.fixed4 budget.totalCostUsd ++ " > $" ++ F64Display.fixed4 limit)
      | none => return none

/-- The verdict, the counters with what the node reports, and the patch that carries them; without
a verdict the result is committed. -/
def checkBudgetAfterExecution (e : ExecutionId) (limits : BudgetLimits) (budget : BudgetState)
    (inputTokens outputTokens : Option ℕ) (costUsd : Option (BitVec 64)) (statePatch : Json) :
    BudgetProg (Option (Except String Unit) × BudgetState × Json) := do
  let budget := budget.accumulate inputTokens outputTokens costUsd
  let verdict ← checkCeilings e limits budget
  return (verdict, budget, budget.patchIntoSnapshotState statePatch)

end Worker

/-- Some configured ceiling is exceeded. -/
def BudgetState.PastCeiling (b : BudgetState) (limits : BudgetLimits) : Prop :=
  (∃ l, limits.totalTokens = some l ∧ l < b.totalTokens) ∨
    (∃ l, limits.inputTokens = some l ∧ l < b.totalInputTokens) ∨
    (∃ l, limits.outputTokens = some l ∧ l < b.totalOutputTokens) ∨
    ∃ l, limits.costUsd = some l ∧ F64.lt l b.totalCostUsd = true

section Refusal

variable {e : ExecutionId} {limits : BudgetLimits} {budget : BudgetState}
  {calls : List (Answered BudgetOp BackendError)}

omit [F64] [F64Display] in
theorem ran_refuseRecorded {kind : EventKind} {message : String}
    {r : Except BackendError (Option (Except String Unit))}
    (h : (Worker.refuseRecorded e kind message).Ran calls r) :
    (∃ err, calls = [⟨.inl (.latestSequence e), .error err⟩] ∧ r = .ok none) ∨
      ∃ sequence reply, calls = [⟨.inl (.latestSequence e), .ok sequence⟩,
        ⟨.inl (.appendEvent e kind), reply⟩] ∧ r = .ok (some (.error message)) := by
  obtain ⟨reply, rest, rfl, hrest⟩ := Prog.ran_attempt_perform_bind.mp h
  cases reply with
  | error err =>
    obtain ⟨rfl, rfl⟩ := Prog.ran_pure.mp hrest
    exact .inl ⟨err, rfl, rfl⟩
  | ok sequence =>
    obtain ⟨reply, rest, rfl, hend⟩ := Prog.ran_attempt_perform_bind.mp hrest
    obtain ⟨rfl, rfl⟩ := Prog.ran_pure.mp hend
    exact .inr ⟨sequence, reply, rfl, rfl⟩

omit [F64] [F64Display] in
theorem passedTokens_isSome (budget : BudgetState) (limits : BudgetLimits) :
    (Worker.passedTokens budget limits).isSome = true ↔
      (∃ l, limits.totalTokens = some l ∧ l < budget.totalTokens) ∨
      (∃ l, limits.inputTokens = some l ∧ l < budget.totalInputTokens) ∨
      ∃ l, limits.outputTokens = some l ∧ l < budget.totalOutputTokens := by
  have hone : ∀ (kind : String) (limit : Option ℕ) (current : ℕ),
      (limit.bind fun l => if l < current then some (kind, l, current) else none).isSome = true ↔
        ∃ l, limit = some l ∧ l < current := by
    intro kind limit current
    cases limit with
    | none => simp
    | some l => by_cases h : l < current <;> simp [h]
  unfold Worker.passedTokens
  simp only [List.findSome?_isSome_iff, List.mem_cons, List.not_mem_nil, or_false,
    exists_eq_or_imp, exists_eq_left, hone]

theorem ran_checkCeilings {r : Except BackendError (Option (Except String Unit))}
    (h : (Worker.checkCeilings e limits budget).Ran calls r) :
    (budget.PastCeiling limits ∧ ∃ kind message,
        (Worker.refuseRecorded e kind message).Ran calls r) ∨
      ¬ budget.PastCeiling limits ∧ calls = [] ∧ r = .ok none := by
  unfold Worker.checkCeilings at h
  have htokens := passedTokens_isSome budget limits
  split at h
  · rename_i kind limit current hpassed
    rw [hpassed] at htokens
    refine .inl ⟨?_, _, _, h⟩
    rcases htokens.mp rfl with hl | hl | hl
    · exact .inl hl
    · exact .inr (.inl hl)
    · exact .inr (.inr (.inl hl))
  · rename_i hpassed
    rw [hpassed] at htokens
    have hnone := mt htokens.mpr (by simp)
    split at h
    · rename_i limit hcost
      obtain ⟨hlimit, hlt⟩ := Option.filter_eq_some_iff.mp hcost
      exact .inl ⟨.inr (.inr (.inr ⟨limit, hlimit, hlt⟩)), _, _, h⟩
    · rename_i hcost
      refine .inr ⟨?_, h⟩
      rintro (hl | hl | hl | ⟨l, hlimit, hlt⟩)
      · exact hnone (.inl hl)
      · exact hnone (.inr (.inl hl))
      · exact hnone (.inr (.inr hl))
      · simp [hlimit, hlt] at hcost

/-- The check after execution refuses past every ceiling exactly when the sequence it records the
event under can be read. -/
theorem over_ceiling_refused_iff {inputTokens outputTokens : Option ℕ}
    {costUsd : Option (BitVec 64)} {statePatch : Json}
    {r : Except BackendError (Option (Except String Unit) × BudgetState × Json)}
    (h : (Worker.checkBudgetAfterExecution e limits budget inputTokens outputTokens costUsd
      statePatch).Ran calls r) :
    let after := budget.accumulate inputTokens outputTokens costUsd
    ∃ verdict, r = .ok (verdict, after, after.patchIntoSnapshotState statePatch) ∧
      ((after.PastCeiling limits → ∃ reason, verdict = some (.error reason)) ↔
        (after.PastCeiling limits →
          ∀ err, ⟨.inl (.latestSequence e), .error err⟩ ∉ calls)) := by
  intro after
  rcases Prog.ran_bind.mp h with ⟨err, hran, -⟩ | ⟨verdict, first, rest, rfl, hran, hrest⟩
  · rcases ran_checkCeilings hran with ⟨-, kind, message, hran⟩ | ⟨-, -, hr⟩
    · rcases ran_refuseRecorded hran with ⟨_, -, hr⟩ | ⟨_, _, -, hr⟩
      · cases hr
      · cases hr
    · cases hr
  · obtain ⟨rfl, rfl⟩ := Prog.ran_pure.mp hrest
    refine ⟨verdict, rfl, ?_⟩
    rcases ran_checkCeilings hran with ⟨hpast, kind, message, hran⟩ | ⟨hnot, rfl, hr⟩
    · rcases ran_refuseRecorded hran with ⟨err, rfl, hr⟩ | ⟨sequence, reply, rfl, hr⟩
      · -- the read failed, and with it the verdict is gone
        cases hr
        constructor
        · intro hrefused
          obtain ⟨reason, hreason⟩ := hrefused hpast
          cases hreason
        · intro hread
          exact absurd (by simp) (hread hpast err)
      · cases hr
        refine iff_of_true (fun _ => ⟨message, rfl⟩) fun _ err hmem => ?_
        simp at hmem
    · exact iff_of_true (fun hpast => absurd hpast hnot) fun hpast => absurd hpast hnot

end Refusal

end Gate

/-- Twice the tokens the run may use, and a log that cannot be read. -/
theorem over_ceiling_let_through :
    let _ : F64 := costless
    let _ : F64Display := ⟨fun _ => "0", fun _ => "0.0000"⟩
    let limits : BudgetLimits := { totalTokens := some 100 }
    let after := ({} : BudgetState).accumulate (some 200) none none
    after.PastCeiling limits ∧
      (Worker.checkBudgetAfterExecution 0 limits {} (some 200) none none (.object [])).Ran
        [⟨.inl (.latestSequence 0), .error (.database "disk I/O error")⟩]
        (.ok (none, after, after.patchIntoSnapshotState (.object []))) := by
  intro _ _ limits after
  refine ⟨.inl ⟨100, rfl, by decide⟩, ?_⟩
  exact ⟨_, _, rfl, rfl, rfl⟩

/-- The same with a log that can be read, though not written. -/
theorem over_ceiling_refused :
    let _ : F64 := costless
    let _ : F64Display := ⟨fun _ => "0", fun _ => "0.0000"⟩
    let limits : BudgetLimits := { totalTokens := some 100 }
    let after := ({} : BudgetState).accumulate (some 200) none none
    ∃ reason, (Worker.checkBudgetAfterExecution 0 limits {} (some 200) none none (.object [])).Ran
      [⟨.inl (.latestSequence 0), .ok 7⟩,
        ⟨.inl (.appendEvent 0 (.other "token_budget_exceeded")), .error (.database "disk I/O error")⟩]
      (.ok (some (.error reason), after, after.patchIntoSnapshotState (.object []))) := by
  intro _ _ limits after
  obtain ⟨r, hran⟩ : ∃ r, (Worker.checkBudgetAfterExecution 0 limits {} (some 200) none none
      (.object [])).Ran [⟨.inl (.latestSequence 0), .ok 7⟩, ⟨.inl (.appendEvent 0
        (.other "token_budget_exceeded")), .error (.database "disk I/O error")⟩] r :=
    ⟨_, _, _, rfl, _, _, rfl, rfl, rfl⟩
  obtain ⟨verdict, rfl, hrefused⟩ := over_ceiling_refused_iff hran
  obtain ⟨reason, rfl⟩ := hrefused.mpr (fun _ err => by simp) (.inl ⟨100, rfl, by decide⟩)
  exact ⟨reason, hran⟩

end JamJet
