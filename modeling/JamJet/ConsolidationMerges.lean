import JamJet.ConsolidationCoverage

/-! The merges of a deduplication, and what becomes of the facts that are merged. -/

namespace JamJet.Engram

open AtomicCalls Prog FactStore

/-- A fact that is invalidated for another one. -/
structure Merge where
  loser : FactId
  keeper : FactId
  deriving DecidableEq, Repr

variable {Score : Type}

/-- The link a call sets from a fact to the one that supersedes it. -/
def MemoryCall.merge? {β : Type} : MemoryCall Score β → Option Merge
  | .updateFact id patch => patch.supersededBy.map fun keeper => ⟨id, keeper⟩
  | _ => none

def MemoryCall.invalidated? {β : Type} : MemoryCall Score β → Option FactId
  | .invalidateFact id => some id
  | _ => none

def merges (calls : List (Answered (MemoryCall Score) MemoryError)) : List Merge :=
  calls.filterMap fun c => c.op.merge?

def invalidatedIds (calls : List (Answered (MemoryCall Score) MemoryError)) : List FactId :=
  calls.filterMap fun c => c.op.invalidated?

namespace Consolidation

/-- What the loop carries of the merges so far. -/
def tally (ms : List Merge) : List FactId × ℕ := (ms.map (·.loser), ms.length)

variable [LinearOrder Score]

/-- The stores after a merge. -/
def mergeIn (env : Surroundings Score) (s : Stores) (m : Merge) : Stores where
  factStore := ((s.factStore.invalidateFact m.loser (env.clock s.calls)).updateFact m.loser
    { supersededBy := some m.keeper }).2
  vectorStore := s.vectorStore.delete m.loser
  calls := s.calls + 3

/-- A part of the loop takes the merges so far and the stores to further merges, those it calls
for. -/
structure Sweeps (env : Surroundings Score) (p : Upkeep Score (List FactId × ℕ))
    (ms : List Merge) (s : Stores) (ms' : List Merge) (s' : Stores) : Prop where
  alone : p.alone (handle env) s = (.ok (tally ms'), s')
  merged : ms' = ms ++ merges (p.made (handle env) s)
  invalidated : invalidatedIds (p.made (handle env) s) =
    (merges (p.made (handle env) s)).map (·.loser)

variable {env : Surroundings Score} {cfg : ConsolidationConfig Score} {scope : Scope} {fact : Fact}
  {hit : VectorMatch Score} {ms ms' : List Merge} {s s' t : Stores}

theorem sweeps_pure : Sweeps env (pure (tally ms)) ms s ms s :=
  ⟨rfl, (List.append_nil ms).symm, rfl⟩

theorem Sweeps.after_call {α : Type} {op : MemoryCall Score α}
    {k : Except MemoryError α → Upkeep Score (List FactId × ℕ)}
    (h : Sweeps env (k (handle env op s).1) ms (handle env op s).2 ms' s')
    (hmerge : op.merge? = none) (hinvalidated : op.invalidated? = none) :
    Sweeps env (.call op k) ms s ms' s' := by
  refine ⟨h.alone, ?_, ?_⟩
  · rw [h.merged]
    simp [made, merges, hmerge]
  · have hrest := h.invalidated
    simpa [made, merges, invalidatedIds, hmerge, hinvalidated] using hrest

theorem sweeps_dedupMatch (env : Surroundings Score) (cfg : ConsolidationConfig Score) (fact : Fact)
    (hit : VectorMatch Score) (ms : List Merge) (s : Stores) :
    Sweeps env (dedupMatch cfg fact (tally ms) hit) ms s ms s ∨
      (hit.id ∉ ms.map (·.loser) ∧
        Sweeps env (dedupMatch cfg fact (tally ms) hit) ms s (ms ++ [⟨hit.id, fact.id⟩])
          (mergeIn env s ⟨hit.id, fact.id⟩)) := by
  unfold dedupMatch
  split
  · exact .inl sweeps_pure
  · rename_i hskip
    split
    · have hnew : hit.id ∉ ms.map (·.loser) := by
        simp only [tally, Bool.or_eq_true, decide_eq_true_eq, List.contains_iff_mem, not_or] at hskip
        exact hskip.2
      refine .inr ⟨hnew, ?_, rfl, rfl⟩
      simp only [tally, List.map_append, List.length_append]
      rfl
    · exact .inl sweeps_pure

theorem sweeps_foldlM {α : Type} {f : List FactId × ℕ → α → Upkeep Score (List FactId × ℕ)}
    {I : List Merge → Stores → Prop} {xs : List α}
    (hpass : ∀ x ∈ xs, ∀ ms s, I ms s → ∃ ms' s', Sweeps env (f (tally ms) x) ms s ms' s' ∧ I ms' s')
    (h : I ms s) : ∃ ms' s', Sweeps env (xs.foldlM f (tally ms)) ms s ms' s' ∧ I ms' s' := by
  induction xs generalizing ms s with
  | nil => exact ⟨ms, s, sweeps_pure, h⟩
  | cons x xs ih =>
    obtain ⟨ms₁, s₁, hhead, hI⟩ := hpass x List.mem_cons_self ms s h
    obtain ⟨ms₂, s₂, htail, hI⟩ := ih (fun y hy => hpass y (List.mem_cons_of_mem _ hy)) hI
    refine ⟨ms₂, s₂, ?_, hI⟩
    rw [List.foldlM_cons]
    have hmade : (f (tally ms) x >>= xs.foldlM f).made (handle env) s =
        (f (tally ms) x).made (handle env) s ++
          (xs.foldlM f (tally ms₁)).made (handle env) s₁ := by
      rw [made_bind, hhead.alone]
    refine ⟨(alone_bind_ok hhead.alone).trans htail.alone, ?_, ?_⟩
    · rw [hmade, htail.merged, hhead.merged]
      simp [merges]
    · have hfirst := hhead.invalidated
      have hrest := htail.invalidated
      simp only [invalidatedIds, merges] at hfirst hrest
      simp [hmade, invalidatedIds, merges, hfirst, hrest]

/-- How the stores have come about by the merges so far. -/
structure Swept (start : FactStore) (listed : List Fact) (ms : List Merge) (s : Stores) : Prop where
  nodup : (ms.map (·.loser)).Nodup
  keepers : ∀ m ∈ ms, ∃ k ∈ listed, k.id = m.keeper
  others : ∀ id, id ∉ ms.map (·.loser) → s.factStore.facts.find? id = start.facts.find? id
  losers : ∀ m ∈ ms, ∃ now, s.factStore.facts.find? m.loser = (start.facts.find? m.loser).map
    fun f => { f with invalidAt := some now, supersededBy := some m.keeper }

omit [LinearOrder Score] in
theorem find?_mergeIn (env : Surroundings Score) (s : Stores) (m : Merge) (id : FactId) :
    (mergeIn env s m).factStore.facts.find? id = (s.factStore.facts.find? id).map fun f =>
      if id = m.loser then
        { f with invalidAt := some (env.clock s.calls), supersededBy := some m.keeper }
      else f := by
  simp only [mergeIn, find?_updateFact, invalidateFact, Table.find?_update, and_true,
    Option.map_map]
  congr 1
  funext f
  by_cases hid : id = m.loser <;> simp [hid, FactPatch.apply]

omit [LinearOrder Score] in
theorem Swept.merge {start : FactStore} {listed : List Fact} (h : Swept start listed ms s)
    {m : Merge} (hnew : m.loser ∉ ms.map (·.loser)) (hkeeper : ∃ k ∈ listed, k.id = m.keeper) :
    Swept start listed (ms ++ [m]) (mergeIn env s m) := by
  constructor
  · simpa [List.nodup_append, h.nodup] using fun a ha hm => hnew (List.mem_map.mpr ⟨a, ha, hm⟩)
  · intro m' hm'
    rcases List.mem_append.mp hm' with hm' | hm'
    · exact h.keepers m' hm'
    · exact List.mem_singleton.mp hm' ▸ hkeeper
  · intro id hid
    simp only [List.map_append, List.mem_append, List.map_cons, List.map_nil, List.mem_singleton,
      not_or] at hid
    rw [find?_mergeIn, ← h.others id hid.1]
    simp [hid.2]
  · intro m' hm'
    rw [find?_mergeIn]
    rcases List.mem_append.mp hm' with hm' | hm'
    · obtain ⟨now, hnow⟩ := h.losers m' hm'
      have hne : m'.loser ≠ m.loser := fun he => hnew (List.mem_map.mpr ⟨m', hm', he⟩)
      refine ⟨now, ?_⟩
      rw [hnow, Option.map_map]
      simp only [if_neg hne, Function.comp_def]
    · obtain rfl := List.mem_singleton.mp hm'
      refine ⟨env.clock s.calls, ?_⟩
      rw [h.others _ hnew]
      simp

theorem sweeps_dedupNear {start : FactStore} {listed : List Fact} (hfact : fact ∈ listed)
    (embedding : Option Embedding) (h : Swept start listed ms s) : ∃ ms' s',
      Sweeps env (dedupNear cfg scope (tally ms) fact embedding) ms s ms' s' ∧
        Swept start listed ms' s' := by
  cases embedding with
  | none => exact ⟨ms, s, sweeps_pure, h⟩
  | some embedding =>
    let hits := s.vectorStore.search env.similarity embedding (some scope)
      (some cfg.dedupSimilarity) 10
    have hloop : ∃ ms' s', Sweeps env (hits.foldlM (dedupMatch cfg fact) (tally ms)) ms
        s.next ms' s' ∧ Swept start listed ms' s' := by
      refine sweeps_foldlM (fun hit _ ms s hms => ?_) ⟨h.nodup, h.keepers, h.others, h.losers⟩
      rcases sweeps_dedupMatch env cfg fact hit ms s with hsame | ⟨hnew, hmerged⟩
      · exact ⟨ms, s, hsame, hms⟩
      · exact ⟨_, _, hmerged, hms.merge hnew ⟨fact, hfact, rfl⟩⟩
    obtain ⟨ms', s', hsweep, hswept⟩ := hloop
    exact ⟨ms', s', Sweeps.after_call hsweep rfl rfl, hswept⟩

theorem sweeps_dedupFact {start : FactStore} {listed : List Fact} (hfact : fact ∈ listed)
    (h : Swept start listed ms s) : ∃ ms' s',
      Sweeps env (dedupFact cfg scope (tally ms) fact) ms s ms' s' ∧ Swept start listed ms' s' := by
  unfold dedupFact
  split
  · exact ⟨ms, s, sweeps_pure, h⟩
  · have hnext : Swept start listed ms s.next := ⟨h.nodup, h.keepers, h.others, h.losers⟩
    let embedding := (env.embed s.calls [fact.text]).toOption.bind List.getLast?
    have hnear : ∃ ms' s', Sweeps env (dedupNear cfg scope (tally ms) fact embedding) ms s.next
        ms' s' ∧ Swept start listed ms' s' := sweeps_dedupNear hfact embedding hnext
    obtain ⟨ms', s', hsweep, hswept⟩ := hnear
    exact ⟨ms', s', Sweeps.after_call hsweep rfl rfl, hswept⟩

theorem swept_opDedup (env : Surroundings Score) (cfg : ConsolidationConfig Score) (scope : Scope)
    (s : Stores) :
    Swept s.factStore (s.factStore.listing env.order (validFilter scope))
      (merges ((opDedup cfg scope).made (handle env) s)) ((opDedup cfg scope).alone (handle env) s).2 ∧
    invalidatedIds ((opDedup cfg scope).made (handle env) s) =
      (merges ((opDedup cfg scope).made (handle env) s)).map (·.loser) := by
  have hstart : Swept s.factStore (s.factStore.listing env.order (validFilter scope)) [] s.next :=
    ⟨List.nodup_nil, fun m hm => (List.not_mem_nil hm).elim, fun _ _ => rfl,
      fun m hm => (List.not_mem_nil hm).elim⟩
  by_cases hquotable : (filterTexts (validFilter scope)).all quotable = true
  · obtain ⟨ms, t, hsweep, hswept⟩ := sweeps_foldlM (f := dedupFact cfg scope)
      (fun fact hfact ms s h => sweeps_dedupFact hfact h) hstart
    have halone : (opDedup cfg scope).alone (handle env) s = (.ok (tally ms).2, t) :=
      (alone_list_bind hquotable).trans ((alone_bind_ok hsweep.alone).trans rfl)
    have hmade : (opDedup cfg scope).made (handle env) s = _ :=
      (made_list_bind hquotable).trans
        (congrArg (List.cons _) ((made_bind_ok hsweep.alone).trans (List.append_nil _)))
    have hmerged := hsweep.merged
    rw [List.nil_append] at hmerged
    rw [halone, hmade]
    refine ⟨?_, hsweep.invalidated⟩
    rw [hmerged] at hswept
    exact hswept
  · have halone : (opDedup cfg scope).alone (handle env) s = _ := alone_list_bind_error hquotable
    have hmade : (opDedup cfg scope).made (handle env) s = _ := made_list_bind_error hquotable
    rw [halone, hmade]
    exact ⟨hstart, rfl⟩

/-! Survivors -/

/-- Every fact a deduplication invalidates is in the scope and superseded by one of its own scope
that is still valid. -/
def KeepsSurvivors (env : Surroundings Score) (cfg : ConsolidationConfig Score) (scope : Scope)
    (s : Stores) : Prop :=
  let after := ((opDedup cfg scope).alone (handle env) s).2.factStore
  ∀ id ∈ invalidatedIds ((opDedup cfg scope).made (handle env) s), ∀ f,
    s.factStore.facts.find? id = some f → scope.contains f.scope = true ∧
      ∃ g keeper k, after.facts.find? id = some g ∧ g.supersededBy = some keeper ∧
        after.facts.find? keeper = some k ∧ k.invalidAt = none ∧ k.scope = f.scope

section Neighbours

/-- Two users of one organisation say the same. -/
def neighbours : Stores :=
  { factStore := { facts := ⟨[
      { crowdFact 1 with scope := { userId := some "ann" } },
      { crowdFact 2 with scope := { userId := some "bob" } }], by decide⟩ }
    vectorStore := { dimensions := 0, entries := ⟨[⟨1, []⟩, ⟨2, []⟩], by decide⟩ } }

/-- Any two texts are alike. -/
def alikeSurroundings : Surroundings ℕ := { plainSurroundings with similarity := ⟨fun _ _ => 100⟩ }

end Neighbours

end Consolidation

end JamJet.Engram
