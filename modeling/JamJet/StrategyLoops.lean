import JamJet.RankedGraph
import JamJet.StrategyIr

/-! The unrolled loops of the strategy compilers: the names each writes, where its edges lead, and a
rank that all of them go up in. -/

namespace JamJet.Strategies

open RankedGraph

/-- The place of a name in the order its graph runs in, by the number of turns. -/
def rank (rounds : ℕ) : StrategyId → ℕ
  | .plan | .draft | .execute | .propose => 0
  | .think i | .agent i | .counter i | .critic i | .reflect i => 7 * i + 1
  | .reactGuard i | .judgeRound i | .criticGate i | .reflectGate i => 7 * i + 2
  | .observe i | .judgeGate i | .revise i => 7 * i + 3
  | .costGuard i => 7 * i + 4
  | .step i | .respond i => 7 * i + 5
  | .verify i => 7 * i + 6
  | .vote => 7 * rounds + 1
  | .judge => 7 * rounds + 2
  | .finalize => 7 * rounds + 3
  | .limitExceeded => 7 * rounds + 4
  | .stop => 7 * rounds + 5

section Unrolled

variable {α β : Type} {first last : List α} {turn : ℕ → List α} {n : ℤ}

theorem mem_unrolled {a : α} : a ∈ unrolled first n turn last ↔
    a ∈ first ∨ (∃ i : ℕ, (i : ℤ) < n ∧ a ∈ turn i) ∨ a ∈ last := by
  have hrange : ∀ i : ℕ, i < n.toNat ↔ (i : ℤ) < n := fun i => by omega
  simp only [unrolled, List.mem_append, List.mem_flatMap, List.mem_range, hrange, or_assoc]

theorem forall_mem_unrolled {P : α → Prop} : (∀ a ∈ unrolled first n turn last, P a) ↔
    (∀ a ∈ first, P a) ∧ (∀ i : ℕ, (i : ℤ) < n → ∀ a ∈ turn i, P a) ∧ ∀ a ∈ last, P a := by
  simp only [mem_unrolled]
  constructor
  · exact fun h => ⟨fun a ha => h a (.inl ha), fun i hi a ha => h a (.inr (.inl ⟨i, hi, ha⟩)),
      fun a ha => h a (.inr (.inr ha))⟩
  · rintro ⟨hfirst, hturn, hlast⟩ a (ha | ⟨i, hi, ha⟩ | ha)
    · exact hfirst a ha
    · exact hturn i hi a ha
    · exact hlast a ha

theorem map_unrolled (f : α → β) : (unrolled first n turn last).map f =
    unrolled (first.map f) n (fun i => (turn i).map f) (last.map f) := by
  simp [unrolled, List.map_flatMap]

theorem nodup_unrolled (hfirst : first.Nodup) (hlast : last.Nodup) (hturn : ∀ i, (turn i).Nodup)
    (hapart : ∀ i j a, a ∈ turn i → a ∈ turn j → i = j)
    (hends : ∀ a ∈ last, a ∉ first) (hturns : ∀ i, ∀ a ∈ turn i, a ∉ first ∧ a ∉ last) :
    (unrolled first n turn last).Nodup := by
  have hmiddle : ((List.range n.toNat).flatMap turn).Nodup := by
    refine List.nodup_flatMap.mpr ⟨fun i _ => hturn i, List.nodup_range.imp fun hne => ?_⟩
    exact fun a ha hb => hne (hapart _ _ a ha hb)
  refine (hfirst.append hmiddle ?_).append hlast ?_
  · intro a ha hmem
    obtain ⟨i, -, hi⟩ := List.mem_flatMap.mp hmem
    exact (hturns i a hi).1 ha
  · intro a ha hmem
    rcases List.mem_append.mp ha with ha | ha
    · exact hends a hmem ha
    · obtain ⟨i, -, hi⟩ := List.mem_flatMap.mp ha
      exact (hturns i a hi).2 hmem

end Unrolled

theorem leads_unrolled {c : Compiled} {first last : List StrategyEdge} {turn : ℕ → List StrategyEdge}
    {n : ℤ} (h : c.edges = unrolled first n turn last) {a b : StrategyId} : c.Leads a b ↔
      (∃ e ∈ first, e.src = a ∧ e.dst = b) ∨
      (∃ i : ℕ, (i : ℤ) < n ∧ ∃ e ∈ turn i, e.src = a ∧ e.dst = b) ∨
      ∃ e ∈ last, e.src = a ∧ e.dst = b := by
  simp only [Compiled.Leads, h, mem_unrolled]
  constructor
  · rintro ⟨e, he | ⟨i, hi, he⟩ | he, hab⟩
    · exact .inl ⟨e, he, hab⟩
    · exact .inr (.inl ⟨i, hi, e, he, hab⟩)
    · exact .inr (.inr ⟨e, he, hab⟩)
  · rintro (⟨e, he, hab⟩ | ⟨i, hi, e, he, hab⟩ | ⟨e, he, hab⟩)
    · exact ⟨e, .inl he, hab⟩
    · exact ⟨e, .inr (.inl ⟨i, hi, he⟩), hab⟩
    · exact ⟨e, .inr (.inr he), hab⟩

theorem ranked_of_edges {c : Compiled} {height : StrategyId → ℕ}
    (h : ∀ e ∈ c.edges, height e.src < height e.dst) : Ranked c.Leads height := by
  rintro a b ⟨e, he, rfl, rfl⟩
  exact h e he

variable {config : StrategyConfig} {model : String} {limits : StrategyLimits} {a b id : StrategyId}

section PlanAndExecute

/-- Where a step goes on to: the guard of the next one, or the end of the loop. -/
def nextGuard (n : ℤ) (i : ℕ) : StrategyId :=
  if (i : ℤ) < n - 1 then .costGuard (i + 1) else .finalize

theorem mem_names_planAndExecute : id ∈ (compilePlanAndExecute config model limits).names ↔
    id = .plan ∨
    (∃ i : ℕ, (i : ℤ) < limits.maxIterations ∧
      (id = .costGuard i ∨ id = .step i ∨ (config.verifier.isSome ∧ id = .verify i))) ∨
    id = .finalize ∨ id = .limitExceeded := by
  rw [Compiled.names, compilePlanAndExecute, map_unrolled, mem_unrolled]
  cases config.verifier <;> simp [lastNodes]

theorem nodup_planAndExecute : (compilePlanAndExecute config model limits).names.Nodup := by
  rw [Compiled.names, compilePlanAndExecute, map_unrolled]
  refine nodup_unrolled (by simp) (by simp [lastNodes]) (fun i => ?_) (fun i j a => ?_)
    (by simp [lastNodes]) fun i a => ?_
  · cases config.verifier <;> simp
  · cases config.verifier <;> simp <;> grind
  · cases config.verifier <;> simp [lastNodes] <;> grind

theorem leads_planAndExecute : (compilePlanAndExecute config model limits).Leads a b ↔
    (a = .plan ∧ b = .costGuard 0) ∨
    (∃ i : ℕ, (i : ℤ) < limits.maxIterations ∧
      ((a = .costGuard i ∧ (b = .limitExceeded ∨ b = .step i)) ∨
        (a = .step i ∧
          b = if config.verifier.isSome then .verify i else nextGuard limits.maxIterations i) ∨
        (config.verifier.isSome ∧ a = .verify i ∧ b = nextGuard limits.maxIterations i))) ∨
    (a = .finalize ∧ b = .stop) ∨ (a = .limitExceeded ∧ b = .stop) := by
  rw [leads_unrolled rfl]
  refine or_congr (by simp [edge, eq_comm]) (or_congr (exists_congr fun i =>
    and_congr_right fun hi => ?_) (by simp [lastEdges, edge, eq_comm]))
  cases config.verifier <;> by_cases hlast : (i : ℤ) < limits.maxIterations - 1 <;>
    simp [edge, nextGuard, hlast, or_and_right, exists_or, eq_comm] <;> grind

theorem ranked_planAndExecute : Ranked (compilePlanAndExecute config model limits).Leads
    (rank limits.maxIterations.toNat) := by
  refine ranked_of_edges (forall_mem_unrolled.mpr ⟨by simp [edge, rank], fun i hi => ?_,
    by simp [lastEdges, edge, rank]⟩)
  by_cases hlast : (i : ℤ) < limits.maxIterations - 1 <;>
    by_cases hverifier : config.verifier.isSome = true <;>
    simp [hlast, hverifier, edge, rank] <;> omega

end PlanAndExecute

section React

/-- Where a thought that costs no more than allowed goes on to. -/
def afterThought (n : ℤ) (i : ℕ) : StrategyId :=
  if (i : ℤ) < n - 1 then .observe i else .finalize

theorem mem_names_react : id ∈ (compileReact config model limits).names ↔
    (∃ i : ℕ, (i : ℤ) < limits.maxIterations ∧
      (id = .think i ∨ id = .reactGuard i ∨ ((i : ℤ) < limits.maxIterations - 1 ∧ id = .observe i))) ∨
    id = .finalize ∨ id = .limitExceeded := by
  rw [Compiled.names, compileReact, map_unrolled, mem_unrolled]
  simp only [List.map_nil, List.not_mem_nil, false_or]
  refine or_congr (exists_congr fun i => and_congr_right fun hi => ?_) (by simp [lastNodes])
  by_cases hlast : (i : ℤ) < limits.maxIterations - 1 <;> simp [hlast]

theorem nodup_react : (compileReact config model limits).names.Nodup := by
  rw [Compiled.names, compileReact, map_unrolled]
  refine nodup_unrolled (by simp) (by simp [lastNodes]) (fun i => ?_) (fun i j a => ?_)
    (by simp) fun i a => ?_
  · by_cases hlast : (i : ℤ) < limits.maxIterations - 1 <;> simp [hlast]
  · by_cases hi : (i : ℤ) < limits.maxIterations - 1 <;>
      by_cases hj : (j : ℤ) < limits.maxIterations - 1 <;> simp [hi, hj] <;> grind
  · by_cases hlast : (i : ℤ) < limits.maxIterations - 1 <;> simp [hlast, lastNodes] <;> grind

theorem leads_react : (compileReact config model limits).Leads a b ↔
    (∃ i : ℕ, (i : ℤ) < limits.maxIterations ∧
      ((a = .think i ∧ b = .reactGuard i) ∨
        (a = .reactGuard i ∧ (b = .limitExceeded ∨ b = afterThought limits.maxIterations i)) ∨
        ((i : ℤ) < limits.maxIterations - 1 ∧ a = .observe i ∧ b = .think (i + 1)))) ∨
    (a = .finalize ∧ b = .stop) ∨ (a = .limitExceeded ∧ b = .stop) := by
  rw [leads_unrolled rfl]
  simp only [List.not_mem_nil, false_and, exists_false, false_or]
  refine or_congr (exists_congr fun i => and_congr_right fun hi => ?_)
    (by simp [lastEdges, edge, eq_comm])
  by_cases hlast : (i : ℤ) < limits.maxIterations - 1 <;>
    simp [edge, afterThought, hlast, or_and_right, exists_or, eq_comm] <;> grind

theorem ranked_react :
    Ranked (compileReact config model limits).Leads (rank limits.maxIterations.toNat) := by
  refine ranked_of_edges (forall_mem_unrolled.mpr ⟨by simp, fun i hi => ?_,
    by simp [lastEdges, edge, rank]⟩)
  by_cases hlast : (i : ℤ) < limits.maxIterations - 1 <;> simp [hlast, edge, rank] <;> omega

end React

section Consensus

/-- Where an agent's answer goes on to. -/
def afterAgent (n : ℤ) (i : ℕ) : StrategyId :=
  if (i : ℤ) < n - 1 then .costGuard i else .vote

theorem mem_names_consensus : id ∈ (compileConsensus config model limits).names ↔
    (∃ i : ℕ, (i : ℤ) < config.numAgents.getD 3 ∧
      (id = .agent i ∨ ((i : ℤ) < config.numAgents.getD 3 - 1 ∧ id = .costGuard i))) ∨
    id = .vote ∨ id = .judge ∨ id = .finalize ∨ id = .limitExceeded := by
  rw [Compiled.names, compileConsensus, map_unrolled, mem_unrolled]
  simp only [List.map_nil, List.not_mem_nil, false_or]
  refine or_congr (exists_congr fun i => and_congr_right fun hi => ?_) (by simp [lastNodes])
  by_cases hlast : (i : ℤ) < config.numAgents.getD 3 - 1 <;> simp [hlast]

theorem nodup_consensus : (compileConsensus config model limits).names.Nodup := by
  rw [Compiled.names, compileConsensus, map_unrolled]
  refine nodup_unrolled (by simp) (by simp [lastNodes]) (fun i => ?_) (fun i j a => ?_)
    (by simp) fun i a => ?_
  · by_cases hlast : (i : ℤ) < config.numAgents.getD 3 - 1 <;> simp [hlast]
  · by_cases hi : (i : ℤ) < config.numAgents.getD 3 - 1 <;>
      by_cases hj : (j : ℤ) < config.numAgents.getD 3 - 1 <;> simp [hi, hj] <;> grind
  · by_cases hlast : (i : ℤ) < config.numAgents.getD 3 - 1 <;> simp [hlast, lastNodes] <;> grind

theorem leads_consensus : (compileConsensus config model limits).Leads a b ↔
    (∃ i : ℕ, (i : ℤ) < config.numAgents.getD 3 ∧
      ((a = .agent i ∧ b = afterAgent (config.numAgents.getD 3) i) ∨
        ((i : ℤ) < config.numAgents.getD 3 - 1 ∧ a = .costGuard i ∧
          (b = .limitExceeded ∨ b = .agent (i + 1))))) ∨
    (a = .vote ∧ b = .judge) ∨ (a = .judge ∧ b = .finalize) ∨
    (a = .finalize ∧ b = .stop) ∨ (a = .limitExceeded ∧ b = .stop) := by
  rw [leads_unrolled rfl]
  simp only [List.not_mem_nil, false_and, exists_false, false_or]
  refine or_congr (exists_congr fun i => and_congr_right fun hi => ?_)
    (by simp [lastEdges, edge, eq_comm])
  by_cases hlast : (i : ℤ) < config.numAgents.getD 3 - 1
  · simp [edge, afterAgent, hlast, or_and_right, exists_or, eq_comm]
    grind
  · simp [edge, afterAgent, hlast, eq_comm]

theorem ranked_consensus : Ranked (compileConsensus config model limits).Leads
    (rank (config.numAgents.getD 3).toNat) := by
  refine ranked_of_edges (forall_mem_unrolled.mpr ⟨by simp, fun i hi => ?_,
    by simp [lastEdges, edge, rank]⟩)
  by_cases hlast : (i : ℤ) < config.numAgents.getD 3 - 1 <;> simp [hlast, edge, rank] <;> omega

end Consensus

section Debate

theorem mem_names_debate : id ∈ (compileDebate config model limits).names ↔
    id = .propose ∨
    (∃ i : ℕ, (i : ℤ) < maxRounds config limits ∧
      (id = .counter i ∨ id = .judgeRound i ∨
        ((i : ℤ) ≠ maxRounds config limits - 1 ∧
          (id = .judgeGate i ∨ id = .costGuard i ∨ id = .respond i)))) ∨
    id = .finalize ∨ id = .limitExceeded := by
  rw [Compiled.names, compileDebate, map_unrolled, mem_unrolled]
  refine or_congr (by simp) (or_congr (exists_congr fun i => and_congr_right fun hi => ?_)
    (by simp [lastNodes]))
  by_cases hlast : (i : ℤ) = maxRounds config limits - 1 <;> simp [hlast]

theorem nodup_debate : (compileDebate config model limits).names.Nodup := by
  rw [Compiled.names, compileDebate, map_unrolled]
  refine nodup_unrolled (by simp) (by simp [lastNodes]) (fun i => ?_) (fun i j a => ?_)
    (by simp [lastNodes]) fun i a => ?_
  · by_cases hlast : (i : ℤ) = maxRounds config limits - 1 <;> simp [hlast]
  · by_cases hi : (i : ℤ) = maxRounds config limits - 1 <;>
      by_cases hj : (j : ℤ) = maxRounds config limits - 1 <;> simp [hi, hj] <;> grind
  · by_cases hlast : (i : ℤ) = maxRounds config limits - 1 <;> simp [hlast, lastNodes] <;> grind

theorem leads_debate : (compileDebate config model limits).Leads a b ↔
    (a = .propose ∧ b = .counter 0) ∨
    (∃ i : ℕ, (i : ℤ) < maxRounds config limits ∧
      ((a = .counter i ∧ b = .judgeRound i) ∨
        ((i : ℤ) = maxRounds config limits - 1 ∧ a = .judgeRound i ∧ b = .finalize) ∨
        ((i : ℤ) ≠ maxRounds config limits - 1 ∧
          ((a = .judgeRound i ∧ b = .judgeGate i) ∨
            (a = .judgeGate i ∧ (b = .finalize ∨ b = .costGuard i)) ∨
            (a = .costGuard i ∧ (b = .limitExceeded ∨ b = .respond i)) ∨
            (a = .respond i ∧ b = .counter (i + 1)))))) ∨
    (a = .finalize ∧ b = .stop) ∨ (a = .limitExceeded ∧ b = .stop) := by
  rw [leads_unrolled rfl]
  refine or_congr (by simp [edge, eq_comm]) (or_congr (exists_congr fun i =>
    and_congr_right fun hi => ?_) (by simp [lastEdges, edge, eq_comm]))
  by_cases hlast : (i : ℤ) = maxRounds config limits - 1
  · simp [edge, hlast, or_and_right, exists_or, eq_comm]
  · simp [edge, hlast, or_and_right, exists_or, eq_comm]
    grind

theorem ranked_debate :
    Ranked (compileDebate config model limits).Leads (rank (maxRounds config limits).toNat) := by
  refine ranked_of_edges (forall_mem_unrolled.mpr ⟨by simp [edge, rank], fun i hi => ?_,
    by simp [lastEdges, edge, rank]⟩)
  by_cases hlast : (i : ℤ) = maxRounds config limits - 1 <;> simp [hlast, edge, rank] <;> omega

end Debate

section ReviseLoop

/-- The names of a loop of judgements, by their places. -/
structure JudgeNames (first : StrategyId) (judge gate : ℕ → StrategyId) : Prop where
  first : ∀ n, rank n first = 0
  judge : ∀ n i, rank n (judge i) = 7 * i + 1
  gate : ∀ n i, rank n (gate i) = 7 * i + 2

variable {first : StrategyId} {judge gate : ℕ → StrategyId} {rounds : ℤ}
  {firstNode word judgeLabel gateLabel judgeModel : String}

theorem mem_names_reviseLoop : id ∈ (reviseLoop first firstNode judge gate word judgeLabel gateLabel
      judgeModel model rounds).names ↔
    id = first ∨
    (∃ i : ℕ, (i : ℤ) < rounds ∧
      (id = judge i ∨ ((i : ℤ) ≠ rounds - 1 ∧ (id = gate i ∨ id = .revise i)))) ∨
    id = .finalize ∨ id = .limitExceeded := by
  rw [Compiled.names, reviseLoop, map_unrolled, mem_unrolled]
  refine or_congr (by simp) (or_congr (exists_congr fun i => and_congr_right fun hi => ?_)
    (by simp [lastNodes]))
  by_cases hlast : (i : ℤ) = rounds - 1 <;> simp [hlast]

theorem ne_of_rank (n : ℕ) {a b : StrategyId} (h : rank n a ≠ rank n b) : a ≠ b :=
  fun heq => h (congrArg (rank n) heq)

theorem nodup_reviseLoop (h : JudgeNames first judge gate) : (reviseLoop first firstNode judge gate
    word judgeLabel gateLabel judgeModel model rounds).names.Nodup := by
  have hjudge : ∀ i j, judge i = judge j → i = j := fun i j heq => by
    have hrank := congrArg (rank 0) heq
    rw [h.judge, h.judge] at hrank
    omega
  have hgate : ∀ i j, gate i = gate j → i = j := fun i j heq => by
    have hrank := congrArg (rank 0) heq
    rw [h.gate, h.gate] at hrank
    omega
  have hjg : ∀ i j, judge i ≠ gate j := fun i j =>
    ne_of_rank 0 (by rw [h.judge, h.gate]; omega)
  have hjr : ∀ i j, judge i ≠ .revise j := fun i j =>
    ne_of_rank 0 (by rw [h.judge]; simp only [rank]; omega)
  have hgr : ∀ i j, gate i ≠ .revise j := fun i j =>
    ne_of_rank 0 (by rw [h.gate]; simp only [rank]; omega)
  have hends : ∀ b ∈ [StrategyId.finalize, .limitExceeded],
      first ≠ b ∧ ∀ i, judge i ≠ b ∧ gate i ≠ b := by
    have hafter : ∀ b ∈ [StrategyId.finalize, .limitExceeded], ∀ n, 7 * n + 3 ≤ rank n b := by
      simp [rank]
    intro b hb
    refine ⟨ne_of_rank 0 (by have := hafter b hb 0; rw [h.first]; omega), fun i => ⟨ne_of_rank i ?_,
      ne_of_rank i ?_⟩⟩
    · have := hafter b hb i
      rw [h.judge]
      omega
    · have := hafter b hb i
      rw [h.gate]
      omega
  have hstart : ∀ i, first ≠ judge i ∧ first ≠ gate i ∧ first ≠ .revise i := fun i =>
    ⟨ne_of_rank 0 (by rw [h.first, h.judge]; omega), ne_of_rank 0 (by rw [h.first, h.gate]; omega),
      ne_of_rank 0 (by rw [h.first]; simp only [rank]; omega)⟩
  rw [Compiled.names, reviseLoop, map_unrolled]
  refine nodup_unrolled (by simp) (by simp [lastNodes]) (fun i => ?_) (fun i j a => ?_) ?_
    fun i a => ?_
  · by_cases hlast : (i : ℤ) = rounds - 1 <;> simp [hlast, hjg, hjr, hgr]
  · by_cases hi : (i : ℤ) = rounds - 1 <;> by_cases hj : (j : ℤ) = rounds - 1 <;>
      simp [hi, hj] <;> grind
  · simp only [List.map_cons, List.map_nil, lastNodes]
    grind
  · by_cases hlast : (i : ℤ) = rounds - 1 <;> simp [hlast, lastNodes] <;> grind

theorem leads_reviseLoop : (reviseLoop first firstNode judge gate word judgeLabel gateLabel
      judgeModel model rounds).Leads a b ↔
    (a = first ∧ b = judge 0) ∨
    (∃ i : ℕ, (i : ℤ) < rounds ∧
      (((i : ℤ) = rounds - 1 ∧ a = judge i ∧ b = .finalize) ∨
        ((i : ℤ) ≠ rounds - 1 ∧
          ((a = judge i ∧ b = gate i) ∨ (a = gate i ∧ (b = .finalize ∨ b = .revise i)) ∨
            (a = .revise i ∧ b = judge (i + 1)))))) ∨
    (a = .finalize ∧ b = .stop) ∨ (a = .limitExceeded ∧ b = .stop) := by
  rw [leads_unrolled rfl]
  refine or_congr (by simp [edge, eq_comm]) (or_congr (exists_congr fun i =>
    and_congr_right fun hi => ?_) (by simp [lastEdges, edge, eq_comm]))
  by_cases hlast : (i : ℤ) = rounds - 1
  · simp [edge, hlast, eq_comm]
  · simp [edge, hlast, or_and_right, exists_or, eq_comm]
    grind

theorem ranked_reviseLoop (h : JudgeNames first judge gate) : Ranked (reviseLoop first firstNode
    judge gate word judgeLabel gateLabel judgeModel model rounds).Leads (rank rounds.toNat) := by
  have hrevise : ∀ i, rank rounds.toNat (.revise i) = 7 * i + 3 := fun _ => rfl
  have hfinalize : rank rounds.toNat .finalize = 7 * rounds.toNat + 3 := rfl
  refine ranked_of_edges (forall_mem_unrolled.mpr ⟨by simp [edge, h.first, h.judge], fun i hi => ?_,
    by simp [lastEdges, edge, rank]⟩)
  by_cases hlast : (i : ℤ) = rounds - 1 <;>
    simp [hlast, edge, hrevise, hfinalize, h.judge, h.gate] <;> omega

theorem judgeNames_critic : JudgeNames .draft .critic .criticGate :=
  ⟨fun _ => rfl, fun _ _ => rfl, fun _ _ => rfl⟩

theorem judgeNames_reflection : JudgeNames .execute .reflect .reflectGate :=
  ⟨fun _ => rfl, fun _ _ => rfl, fun _ _ => rfl⟩

end ReviseLoop

end JamJet.Strategies
