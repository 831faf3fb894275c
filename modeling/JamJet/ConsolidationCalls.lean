import JamJet.Consolidation

/-! The calls a consolidation cycle makes to the model. -/

namespace JamJet.Engram

open AtomicCalls Prog

variable {Score : Type}

def MemoryCall.asksModel {β : Type} : MemoryCall Score β → Bool
  | .structuredOutput .. => true
  | _ => false

/-- How many requests the model got. -/
def modelCalls (calls : List (Answered (MemoryCall Score) MemoryError)) : ℕ :=
  calls.countP (·.op.asksModel)

namespace Consolidation

/-- A count of the requests, one call later. -/
def countCall {β : Type} (n : ℕ) (op : MemoryCall Score β) (_ : Except MemoryError β) : ℕ :=
  n + if op.asksModel then 1 else 0

theorem foldl_countCall (calls : List (Answered (MemoryCall Score) MemoryError)) (n : ℕ) :
    calls.foldl (fun n c => countCall n c.op c.reply) n = n + modelCalls calls := by
  induction calls generalizing n with
  | nil => rfl
  | cons c calls ih =>
    rw [List.foldl_cons, ih, countCall, modelCalls, modelCalls, List.countP_cons]
    omega

/-- A part that leaves the model alone. -/
abbrev Quiet {α : Type} (p : Upkeep Score α) : Prop := p.Within fun op => op.asksModel = false

variable {α β : Type} {n : ℕ}

theorem Quiet.bind_follows {p : Upkeep Score α} {f : α → Upkeep Score β}
    {Q : ℕ → Except MemoryError β → Prop} (hp : Quiet p)
    (hf : ∀ a, (f a).Follows countCall Q n) (herr : ∀ err, Q n (.error err)) :
    (p >>= f).Follows countCall Q n := by
  refine Follows.bind (Within.follows (hp.mono fun op hop s reply => ?_) fun r => ?_)
  · simp [countCall, hop]
  · cases r with
    | ok a => exact hf a
    | error err => exact herr err

theorem follows_request {system user : String} {f : Json → Upkeep Score β}
    {Q : ℕ → Except MemoryError β → Prop} (hf : ∀ a, (f a).Follows countCall Q (n + 1))
    (herr : ∀ err, Q (n + 1) (.error err)) :
    (perform (.structuredOutput system user) >>= f).Follows countCall Q n := by
  refine Follows.bind (follows_perform fun reply => ?_)
  cases reply with
  | ok a => exact hf a
  | error err => exact herr err

section Quiet

variable (cfg : ConsolidationConfig Score) (scope : Scope)

theorem quiet_storeKnowledge (text : String) (fill : Fact → Fact) :
    Quiet (storeKnowledge scope text fill : Upkeep Score Unit) := by
  unfold storeKnowledge
  refine (within_perform.mpr rfl).bind fun embeddings => ?_
  refine (within_perform.mpr rfl).bind fun freshId => (within_perform.mpr rfl).bind fun now => ?_
  exact (within_perform.mpr rfl).bind fun id => within_perform.mpr rfl

theorem quiet_tagEach (tagged : List (Fact × String × Json)) :
    Quiet (tagEach tagged : Upkeep Score Unit) :=
  Within.forEach (fun _ => (within_perform.mpr rfl).attempt.bind fun _ => within_pure ()) _

theorem quiet_opDecay : Quiet (opDecay cfg scope) := by
  refine (within_perform.mpr rfl).bind fun facts => (within_perform.mpr rfl).bind fun now => ?_
  refine Within.foldlM (fun acc fact => ?_) _ _
  cases cfg.decay fact now with
  | unchanged => exact within_pure _
  | archived =>
    exact (within_perform.mpr rfl).bind fun _ => (within_perform.mpr rfl).bind fun _ =>
      within_pure _
  | lowered confidence => exact (within_perform.mpr rfl).bind fun _ => within_pure _

theorem quiet_opPromote : Quiet (opPromote cfg scope) := by
  refine (within_perform.mpr rfl).bind fun facts => Within.foldlM (fun promoted fact => ?_) _ _
  split
  · exact (within_perform.mpr rfl).bind fun _ => within_pure _
  · exact within_pure _

theorem quiet_opTimelineBuilder : Quiet (opTimelineBuilder scope : Upkeep Score ℕ) := by
  refine (within_perform.mpr rfl).bind fun facts => ?_
  split
  · exact within_pure 0
  · exact (quiet_tagEach _).bind fun _ => within_pure _

variable [LinearOrder Score]

theorem quiet_dedupMatch (fact : Fact) (acc : List FactId × ℕ) (hit : VectorMatch Score) :
    Quiet (dedupMatch cfg fact acc hit) := by
  unfold dedupMatch
  split
  · exact within_pure acc
  · split
    · refine (within_perform.mpr rfl).bind fun _ => (within_perform.mpr rfl).bind fun _ => ?_
      exact (within_perform.mpr rfl).attempt.bind fun _ => within_pure _
    · exact within_pure acc

theorem quiet_dedupNear (acc : List FactId × ℕ) (fact : Fact) (embedding : Option Embedding) :
    Quiet (dedupNear cfg scope acc fact embedding) := by
  cases embedding with
  | none => exact within_pure acc
  | some embedding =>
    exact (within_perform.mpr rfl).bind fun hits => Within.foldlM (quiet_dedupMatch cfg fact) _ _

theorem quiet_dedupFact (acc : List FactId × ℕ) (fact : Fact) :
    Quiet (dedupFact cfg scope acc fact) := by
  unfold dedupFact
  split
  · exact within_pure acc
  · exact (within_perform.mpr rfl).attempt.bind fun embeddings =>
      quiet_dedupNear cfg scope acc fact _

theorem quiet_opDedup : Quiet (opDedup cfg scope) :=
  (within_perform.mpr rfl).bind fun _ =>
    (Within.foldlM (quiet_dedupFact cfg scope) _ _).bind fun _ => within_pure _

end Quiet

/-- An operation makes no more requests than it may, and as many as it reports. -/
def Counted (maxCalls : ℕ) (n s : ℕ) (r : Except MemoryError (ℕ × ℕ)) : Prop :=
  n ≤ s ∧ s ≤ n + maxCalls ∧ ∀ done, r = .ok done → s = n + done.2

variable {cfg : ConsolidationConfig Score} {scope : Scope} {maxCalls : ℕ}

theorem counted_error {s : ℕ} {err : MemoryError} (hle : n ≤ s) (h : s ≤ n + maxCalls) :
    Counted maxCalls n s (.error err) :=
  ⟨hle, h, fun _ hr => by cases hr⟩

theorem counted_ok {s done : ℕ} (hs : s = n + done) (h : done ≤ maxCalls) (made : ℕ) :
    Counted maxCalls n s (.ok (made, done)) := by
  subst hs
  refine ⟨Nat.le_add_right n done, Nat.add_le_add_left h n, fun done' hr => ?_⟩
  cases hr
  rfl

theorem follows_opSummarize (hmax : 0 < maxCalls) (n : ℕ) :
    (opSummarize cfg scope maxCalls).Follows countCall (Counted maxCalls n) n := by
  refine Quiet.bind_follows (within_perform.mpr rfl) (fun facts => ?_)
    fun _ => counted_error le_rfl (by omega)
  split
  · exact counted_ok rfl (Nat.zero_le _) 0
  · refine follows_request (fun response => ?_) fun _ => counted_error (by omega) (by omega)
    refine Quiet.bind_follows (Within.forEach (fun text => quiet_storeKnowledge scope text _) _)
      (fun _ => ?_) fun _ => counted_error (by omega) (by omega)
    refine Quiet.bind_follows (quiet_tagEach _) (fun _ => ?_)
      fun _ => counted_error (by omega) (by omega)
    exact counted_ok (by omega) (by omega) _

theorem follows_opReflect (n : ℕ) :
    (opReflect cfg scope maxCalls).Follows countCall (Counted maxCalls n) n := by
  unfold opReflect
  split
  · exact counted_ok rfl (Nat.zero_le _) 0
  · refine Quiet.bind_follows (within_perform.mpr rfl) (fun facts => ?_)
      fun _ => counted_error le_rfl (by omega)
    split
    · exact counted_ok rfl (Nat.zero_le _) 0
    · refine follows_request (fun response => ?_) fun _ => counted_error (by omega) (by omega)
      refine Quiet.bind_follows (Within.forEach (fun text => quiet_storeKnowledge scope text _) _)
        (fun _ => ?_) fun _ => counted_error (by omega) (by omega)
      exact counted_ok rfl (by omega) _

theorem follows_summarizeEntity (facts : List Fact) (entity : EntityId) {acc : ℕ × ℕ} {s : ℕ}
    (hs : s = n + acc.2) (hacc : acc.2 ≤ maxCalls) :
    (summarizeEntity scope maxCalls facts acc entity : Upkeep Score (ℕ × ℕ)).Follows countCall
      (Counted maxCalls n) s := by
  unfold summarizeEntity
  dsimp only
  split
  · exact counted_ok hs hacc _
  · rename_i hcall
    have hlt : acc.2 < maxCalls := by
      simp only [Bool.or_eq_true, decide_eq_true_eq, not_or, not_le] at hcall
      exact hcall.2
    refine follows_request (fun response => ?_) fun _ => counted_error (by omega) (by omega)
    split
    · refine Quiet.bind_follows (quiet_storeKnowledge scope _ _) (fun _ => ?_)
        fun _ => counted_error (by omega) (by omega)
      exact counted_ok (by omega) (by omega) _
    · exact counted_ok (by omega) (by omega) _

theorem follows_opEntitySummary (order : HashOrder EntityId) (n : ℕ) :
    (opEntitySummary scope maxCalls order : Upkeep Score (ℕ × ℕ)).Follows countCall
      (Counted maxCalls n) n := by
  unfold opEntitySummary
  split
  · exact counted_ok rfl (Nat.zero_le _) 0
  · refine Quiet.bind_follows (within_perform.mpr rfl) (fun facts => ?_)
      fun _ => counted_error le_rfl (by omega)
    refine Follows.foldlM (fun acc s => s = n + acc.2 ∧ acc.2 ≤ maxCalls)
      (fun entity acc s hacc => ?_) (fun acc s hacc => counted_ok hacc.1 hacc.2 _)
      ⟨rfl, Nat.zero_le _⟩
    refine (follows_summarizeEntity facts entity hacc.1 hacc.2).mono fun t r hr => ?_
    cases r with
    | ok done =>
      have hdone := hr.2.2 done rfl
      have hle := hr.2.1
      exact ⟨hdone, by omega⟩
    | error err => exact hr

theorem follows_opPreferenceRollup (n : ℕ) :
    (opPreferenceRollup scope maxCalls : Upkeep Score (ℕ × ℕ)).Follows countCall
      (Counted maxCalls n) n := by
  unfold opPreferenceRollup
  split
  · exact counted_ok rfl (Nat.zero_le _) 0
  · refine Quiet.bind_follows (within_perform.mpr rfl) (fun facts => ?_)
      fun _ => counted_error le_rfl (by omega)
    split
    · exact counted_ok rfl (Nat.zero_le _) 0
    · refine follows_request (fun response => ?_) fun _ => counted_error (by omega) (by omega)
      split
      · refine Quiet.bind_follows (quiet_storeKnowledge scope _ _) (fun _ => ?_)
          fun _ => counted_error (by omega) (by omega)
        refine Quiet.bind_follows (quiet_tagEach _) (fun _ => ?_)
          fun _ => counted_error (by omega) (by omega)
        exact counted_ok rfl (by omega) _
      · exact counted_ok rfl (by omega) _

/-- The cycle so far: as many requests as the result says, and no more than allowed. -/
def WithinBudget (cfg : ConsolidationConfig Score) (s : ℕ)
    (r : Except MemoryError ConsolidationResult) : Prop :=
  s ≤ cfg.maxLlmCalls ∧ ∀ result, r = .ok result → s = result.llmCallsUsed

theorem withinBudget_ok {result : ConsolidationResult} {s : ℕ} (hs : s = result.llmCallsUsed)
    (h : s ≤ cfg.maxLlmCalls) : WithinBudget cfg s (.ok result) := by
  refine ⟨h, fun result' hr => ?_⟩
  cases hr
  exact hs

theorem withinBudget_error {s : ℕ} {err : MemoryError} (h : s ≤ cfg.maxLlmCalls) :
    WithinBudget cfg s (.error err) :=
  ⟨h, fun _ hr => by cases hr⟩

variable {result : ConsolidationResult}

theorem follows_withModel {hasModel : Bool} {op : ℕ → Upkeep Score (ℕ × ℕ)}
    {record : ConsolidationResult → ℕ → ConsolidationResult} (hn : n = result.llmCallsUsed)
    (hle : n ≤ cfg.maxLlmCalls)
    (hop : ∀ left, 0 < left → (op left).Follows countCall (Counted left n) n) :
    (withModel cfg hasModel result op record).Follows countCall (WithinBudget cfg) n := by
  unfold withModel
  split
  · rename_i hcall
    have hlt : result.llmCallsUsed < cfg.maxLlmCalls := by
      simp only [Bool.and_eq_true, decide_eq_true_eq] at hcall
      exact hcall.2
    have hleft : 0 < cfg.maxLlmCalls - result.llmCallsUsed := by omega
    refine Follows.bind ((hop _ hleft).mono fun s r hr => ?_)
    obtain ⟨hlow, hhigh, hdone⟩ := hr
    cases r with
    | ok done =>
      have hs := hdone done rfl
      exact withinBudget_ok (by simp only; omega) (by omega)
    | error err => exact withinBudget_error (by omega)
  · exact withinBudget_ok hn hle

theorem follows_quiet {p : Upkeep Score α} {record : α → ConsolidationResult} (hp : Quiet p)
    (hle : n ≤ cfg.maxLlmCalls) (hrecord : ∀ a, n = (record a).llmCallsUsed) :
    (p >>= fun a => (pure (record a) : Upkeep Score ConsolidationResult)).Follows countCall
      (WithinBudget cfg) n :=
  hp.bind_follows (fun a => withinBudget_ok (hrecord a) hle) fun _ => withinBudget_error hle

variable [LinearOrder Score] {order : HashOrder EntityId} {hasModel : Bool}

theorem follows_runOp (hn : n = result.llmCallsUsed) (hle : n ≤ cfg.maxLlmCalls)
    (op : ConsolidationOp) :
    (runOp cfg order scope hasModel result op).Follows countCall (WithinBudget cfg) n := by
  cases op with
  | decay => exact follows_quiet (quiet_opDecay cfg scope) hle fun _ => hn
  | promote => exact follows_quiet (quiet_opPromote cfg scope) hle fun _ => hn
  | dedup => exact follows_quiet (quiet_opDedup cfg scope) hle fun _ => hn
  | timelineBuilder => exact follows_quiet (quiet_opTimelineBuilder scope) hle fun _ => hn
  | summarize =>
    rw [runOp]
    exact follows_withModel hn hle fun left hleft => follows_opSummarize hleft n
  | reflect =>
    rw [runOp]
    exact follows_withModel hn hle fun left _ => follows_opReflect n
  | entitySummary =>
    rw [runOp]
    exact follows_withModel hn hle fun left _ => follows_opEntitySummary order n
  | preferenceRollup =>
    rw [runOp]
    exact follows_withModel hn hle fun left _ => follows_opPreferenceRollup n

theorem follows_run : (run cfg order scope hasModel).Follows countCall (WithinBudget cfg) 0 := by
  refine Follows.foldlM (fun result s => s = result.llmCallsUsed ∧ s ≤ cfg.maxLlmCalls)
    (fun op result s h => ?_) (fun result s h => withinBudget_ok h.1 h.2) ⟨rfl, Nat.zero_le _⟩
  refine (follows_runOp h.1 h.2 op).mono fun t r hr => ?_
  cases r with
  | ok result => exact ⟨hr.2 result rfl, hr.1⟩
  | error err => exact hr

/-- A cycle makes as many requests to the model as it reports and never more than its budget,
whatever the operations it runs, and whatever its stores, the embedding provider and the model
answer. -/
theorem run_llm_calls (cfg : ConsolidationConfig Score) (order : HashOrder EntityId)
    (scope : Scope) (hasModel : Bool) {calls : List (Answered (MemoryCall Score) MemoryError)}
    {r : Except MemoryError ConsolidationResult}
    (h : (run cfg order scope hasModel).Ran calls r) :
    modelCalls calls ≤ cfg.maxLlmCalls ∧
      ∀ result, r = .ok result → modelCalls calls = result.llmCallsUsed := by
  have hcount := follows_run.ran h
  rwa [foldl_countCall, Nat.zero_add] at hcount

section Rollups

def teaFact : Fact :=
  { id := 1
    text := "drinks tea"
    scope := {}
    category := some "preference"
    validFrom := 0
    createdAt := 0 }

/-- Two rollups that share one call. -/
def twoRollups : ConsolidationConfig ℕ :=
  { enabledOps := [.preferenceRollup, .preferenceRollup]
    decay := fun _ _ => .unchanged
    dedupSimilarity := 95
    mergeAbove := 99
    maxLlmCalls := 1 }

def rollupCalls : List (Answered (MemoryCall ℕ) MemoryError) :=
  [⟨.listFacts (preferenceFilter {}), .ok [teaFact]⟩,
    ⟨.structuredOutput rollupSystem
      ("Roll up these user preferences into a profile:\n- " ++ promptOf [teaFact]), .ok .null⟩]

theorem ran_twoRollups : (run twoRollups ascending {} true).Ran rollupCalls
    (.ok { llmCallsUsed := 1 }) :=
  ⟨.ok [teaFact], _, rfl, .ok .null, [], rfl, rfl, rfl⟩

/-- The second rollup finds no call left. -/
theorem run_llm_calls_rollups : modelCalls rollupCalls ≤ 1 ∧
    ∀ result : ConsolidationResult,
      (Except.ok { llmCallsUsed := 1 } : Except MemoryError ConsolidationResult) = .ok result →
        modelCalls rollupCalls = result.llmCallsUsed :=
  run_llm_calls twoRollups ascending {} true ran_twoRollups

end Rollups

end Consolidation

end JamJet.Engram
