import JamJet.Neighborhood
import Mathlib.Algebra.Order.Ring.Rat
import Mathlib.Order.Bounds.Basic
import Mathlib.Tactic.Linarith
import Mathlib.Tactic.NormNum

/-! Spreading activation: the scores of the seeds go from neighbour to neighbour and decay, in a
breadth-first search that ends at a depth or when enough entities are activated. -/

namespace JamJet.Engram.Spreading

open GraphSearch

structure SpreadingActivationConfig where
  maxDepth : ℕ := 3
  decayFactor : ℚ := 1 / 2
  minActivation : ℚ := 1 / 20
  maxActivated : ℕ := 50

section Spread

/-- A hash map of the activations. -/
abbrev Activations := Table EntityId (EntityId × ℚ) Prod.fst

/-- What is activated, and what has still to pass its activation on, with its depth. -/
structure Spread where
  activations : Activations := .empty
  visited : Finset EntityId := ∅
  queue : List (EntityId × ℚ × ℕ) := []

/-- A seed is activated by its score. -/
def Spread.seed (s : Spread) (seed : EntityId × ℚ) : Spread where
  activations := s.activations.put seed
  visited := insert seed.1 s.visited
  queue := s.queue ++ [(seed.1, seed.2, 0)]

/-- `*entry = entry.max(child_activation)`, of an entry that is at first 0. -/
def raise (activations : Activations) (id : EntityId) (childActivation : ℚ) : Activations :=
  let activations := activations.orInsert (id, 0)
  activations.put (id, max ((activations.find? id).elim 0 Prod.snd) childActivation)

/-- A neighbour is activated, the first time that it is met. -/
def Spread.visit (childActivation : ℚ) (depth : ℕ) (s : Spread) (entity : Entity) : Spread :=
  if entity.id ∈ s.visited then s
  else
    { activations := raise s.activations entity.id childActivation
      visited := insert entity.id s.visited
      queue := s.queue ++ [(entity.id, childActivation, depth + 1)] }

variable (graph : EntityId → Except MemoryError SubGraph) (config : SpreadingActivationConfig)

/-- The turns of the loop, at most so many. The graph replies with the neighbours at depth 1. -/
def spreadLoop : ℕ → Spread → Option (Except MemoryError Activations)
  | 0, _ => none
  | rounds + 1, s =>
      match s.queue with
      | [] => some (.ok s.activations)
      | (entityId, activation, depth) :: queue =>
          if config.maxDepth ≤ depth ∨ config.maxActivated ≤ s.activations.rows.length then
            some (.ok s.activations)
          else if activation * config.decayFactor < config.minActivation then
            spreadLoop rounds { s with queue := queue }
          else
            match graph entityId with
            | .error err => some (.error err)
            | .ok subgraph =>
                spreadLoop rounds (subgraph.entities.foldl
                  (Spread.visit (activation * config.decayFactor) depth) { s with queue := queue })

/-- `spread`, given a bound on the turns of its loop. -/
def spread (seeds : List (EntityId × ℚ)) (rounds : ℕ) : Option (Except MemoryError Activations) :=
  spreadLoop graph config rounds (seeds.foldl Spread.seed {})

end Spread

section Meaning

variable (neighbors : EntityId → SubGraph) (config : SpreadingActivationConfig)
  (seeds : List (EntityId × ℚ))

/-- The entities next to an entity. -/
def adjacent (id : EntityId) : List EntityId := (neighbors id).entities.map (·.id)

/-- The distance of an entity from another. -/
def Distant (a : EntityId) (d : ℕ) (b : EntityId) : Prop :=
  Within (fun a b => b ∈ adjacent neighbors a) {a} d b ∧
    ¬ Before (fun a b => b ∈ adjacent neighbors a) {a} d b

/-- What the seeds within the depth give an entity. -/
def contributions (id : EntityId) : Set ℚ :=
  {v | ∃ seed ∈ seeds, ∃ d ≤ config.maxDepth,
    Distant neighbors seed.1 d id ∧ v = seed.2 * config.decayFactor ^ d}

/-- So many are activated at most, each as strongly as a seed can. -/
structure Bounded (activations : Activations) : Prop where
  size : activations.rows.length ≤ max config.maxActivated seeds.length
  strongest : ∀ row ∈ activations.rows,
    IsGreatest (contributions neighbors config seeds row.1) row.2

open Classical in
/-- The strongest activation of an entity. -/
noncomputable def strongest (id : EntityId) : ℚ :=
  if h : ∃ v, IsGreatest (contributions neighbors config seeds id) v then h.choose else 0

/-- The neighbours an activation is passed on to. -/
def offers (item : EntityId × ℚ) : List EntityId :=
  if item.2 * config.decayFactor < config.minActivation then [] else adjacent neighbors item.1

/-- The turns of a breadth-first search from the seeds, where every entity that is found would pass its
strongest activation on. -/
noncomputable def turns : List (Turn (EntityId × ℚ) EntityId) :=
  breadthFirst (offers neighbors config) (fun id => (id, strongest neighbors config seeds id))
    config.maxDepth (seeds.map Prod.fst).toFinset seeds []

/-- The strongest activation of what is found comes from whom it is found by, and not too many are
found. -/
structure TurnFits (turn : Turn (EntityId × ℚ) EntityId) : Prop where
  strongest : ∀ id ∈ turn.finds,
    IsGreatest (contributions neighbors config seeds id) (turn.source.2 * config.decayFactor)
  size : turn.before.card + turn.finds.length ≤ max config.maxActivated seeds.length

/-- A seed is listed last with its strongest activation, and every turn that comes before the limit
fits. -/
structure Fits : Prop where
  listed : ∀ earlier id score later, seeds = earlier ++ (id, score) :: later →
    id ∉ later.map Prod.fst → IsGreatest (contributions neighbors config seeds id) score
  inTurn : ∀ turn ∈ turns neighbors config seeds, turn.before.card < config.maxActivated →
    TurnFits neighbors config seeds turn

end Meaning

section Steps

variable {s : Spread} {activations : Activations} {id : EntityId} {c : ℚ} {depth : ℕ}

theorem rows_raise (h : id ∉ activations.rows.map Prod.fst) (hc : 0 ≤ c) :
    (raise activations id c).rows = activations.rows ++ [(id, c)] := by
  have hfree : activations.find? id = none := Table.find?_eq_none_iff.mpr fun row hrow heq =>
    h (heq ▸ List.mem_map_of_mem hrow)
  obtain ⟨inserted, hinsert, hrows⟩ := Table.insert?_eq_some (r := (id, (0 : ℚ))) hfree
  have hzero : inserted.find? id = some (id, 0) := Table.find?_of_mem (r := (id, (0 : ℚ))) (by simp [hrows])
  have hkept : activations.rows.filter (fun row => row.1 ≠ id) = activations.rows := by
    refine List.filter_eq_self.mpr fun row hrow => ?_
    have hne : row.1 ≠ id := fun heq => h (heq ▸ List.mem_map_of_mem hrow)
    simpa using hne
  rw [raise, Table.orInsert, hinsert, Option.getD_some, hzero]
  simp only [Table.put, hrows, List.filter_append, hkept, Option.elim_some, max_eq_right hc]
  simp

/-- Visited are those that are activated. -/
def Marked (s : Spread) : Prop := s.visited = (s.activations.rows.map Prod.fst).toFinset

theorem Marked.card (h : Marked s) : s.visited.card = s.activations.rows.length := by
  rw [h, List.toFinset_card_of_nodup s.activations.nodup, List.length_map]

/-- What the visits of the neighbours add. -/
structure Visited (c : ℚ) (depth : ℕ) (ids : List EntityId) (s s' : Spread) : Prop where
  rows : s'.activations.rows = s.activations.rows ++ (fresh s.visited ids).map fun id => (id, c)
  visited : s'.visited = s.visited ∪ ids.toFinset
  queue : s'.queue = s.queue ++ (fresh s.visited ids).map fun id => (id, c, depth + 1)
  marked : Marked s'

variable (depth) in
theorem foldl_visit (hs : Marked s) (hc : 0 ≤ c) (entities : List Entity) :
    Visited c depth (entities.map (·.id)) s (entities.foldl (Spread.visit c depth) s) := by
  induction entities generalizing s with
  | nil => exact ⟨by simp [fresh], by simp, by simp [fresh], hs⟩
  | cons entity entities ih =>
    rw [List.foldl_cons, Spread.visit]
    by_cases hold : entity.id ∈ s.visited
    · rw [if_pos hold]
      obtain ⟨hrows, hvisited, hqueue, hmarked⟩ := ih hs
      rw [List.map_cons]
      refine ⟨?_, ?_, ?_, hmarked⟩
      · rw [hrows, fresh, if_pos hold]
      · rw [hvisited, List.toFinset_cons, Finset.union_insert, Finset.insert_eq_of_mem
          (Finset.mem_union_left _ hold)]
      · rw [hqueue, fresh, if_pos hold]
    · rw [if_neg hold]
      have hnew : entity.id ∉ s.activations.rows.map Prod.fst := by
        rwa [hs, List.mem_toFinset] at hold
      have hraised := rows_raise hnew hc
      obtain ⟨hrows, hvisited, hqueue, hmarked⟩ := ih (s :=
        { activations := raise s.activations entity.id c
          visited := insert entity.id s.visited
          queue := s.queue ++ [(entity.id, c, depth + 1)] }) (by
        rw [Marked, hraised, hs]
        ext b
        simp)
      rw [List.map_cons]
      refine ⟨?_, ?_, ?_, hmarked⟩
      · rw [hrows, hraised, fresh, if_neg hold]
        simp
      · rw [hvisited, List.toFinset_cons, Finset.union_insert, Finset.insert_union]
      · rw [hqueue, fresh, if_neg hold]
        simp

end Steps

section Seeds

theorem mem_seeded {seeds : List (EntityId × ℚ)} {row : EntityId × ℚ} :
    row ∈ (seeds.foldl Spread.seed {}).activations.rows ↔
      ∃ earlier later, seeds = earlier ++ row :: later ∧ row.1 ∉ later.map Prod.fst := by
  induction seeds using List.reverseRecOn with
  | nil => simp [Table.empty]
  | append_singleton seeds last ih =>
    rw [List.foldl_append]
    simp only [List.foldl_cons, List.foldl_nil, Spread.seed, Table.put, List.mem_append, List.mem_filter,
      List.mem_singleton, ih, decide_eq_true_eq]
    constructor
    · rintro (⟨⟨earlier, later, rfl, hlater⟩, hne⟩ | rfl)
      · exact ⟨earlier, later ++ [last], by simp, by simpa using ⟨by simpa using hlater, hne⟩⟩
      · exact ⟨seeds, [], rfl, by simp⟩
    · rintro ⟨earlier, later, heq, hlater⟩
      rcases List.eq_nil_or_concat later with rfl | ⟨later, final, rfl⟩
      · obtain ⟨-, hlast⟩ := List.append_inj' heq rfl
        exact .inr (by simpa using hlast.symm)
      · rw [List.concat_eq_append] at heq hlater
        rw [← List.cons_append, ← List.append_assoc] at heq
        obtain ⟨hinit, hlast⟩ := List.append_inj' heq rfl
        obtain rfl : last = final := by simpa using hlast
        simp only [List.map_append, List.mem_append, not_or] at hlater
        refine .inl ⟨⟨earlier, later, hinit, hlater.1⟩, by simpa using hlater.2⟩

theorem seeded (seeds : List (EntityId × ℚ)) :
    Marked (seeds.foldl Spread.seed {}) ∧
      (seeds.foldl Spread.seed {}).visited = (seeds.map Prod.fst).toFinset ∧
      (seeds.foldl Spread.seed {}).queue = seeds.map (fun seed => (seed.1, seed.2, 0)) ∧
      (seeds.foldl Spread.seed {}).activations.rows.length ≤ seeds.length := by
  induction seeds using List.reverseRecOn with
  | nil => simp [Marked, Table.empty]
  | append_singleton seeds last ih =>
    obtain ⟨hmarked, hvisited, hqueue, hlength⟩ := ih
    rw [List.foldl_append]
    refine ⟨?_, ?_, ?_, ?_⟩
    · rw [Marked] at hmarked ⊢
      simp only [List.foldl_cons, List.foldl_nil, Spread.seed, Table.put, hmarked]
      ext b
      by_cases hb : b = last.1
      · simp [hb]
      · simp [hb]
    · simp [Spread.seed, hvisited, Finset.union_comm]
    · simp [Spread.seed, hqueue]
    · have hfilter := List.length_filter_le (fun row : EntityId × ℚ => decide (row.1 ≠ last.1))
        (seeds.foldl Spread.seed {}).activations.rows
      simp only [List.foldl_cons, List.foldl_nil, Spread.seed, Table.put, List.length_append,
        List.length_singleton]
      omega

end Seeds

section Loop

variable {neighbors : EntityId → SubGraph} {config : SpreadingActivationConfig}
  {seeds : List (EntityId × ℚ)} {s : Spread} {found : Finset EntityId}

theorem strongest_eq {id : EntityId} {v : ℚ}
    (h : IsGreatest (contributions neighbors config seeds id) v) :
    strongest neighbors config seeds id = v := by
  have hex : ∃ v, IsGreatest (contributions neighbors config seeds id) v := ⟨v, h⟩
  rw [strongest, dif_pos hex]
  exact hex.choose_spec.unique h

theorem Bounded.earlier {before after : Activations} (h : Bounded neighbors config seeds after)
    (hkept : before.rows <+: after.rows) : Bounded neighbors config seeds before :=
  ⟨hkept.length_le.trans h.size, fun row hrow => h.strongest row (hkept.subset hrow)⟩

/-- What the loop makes of activations when these turns are still to come: it keeps them, and where they
are right, it ends right just when the turns before the limit fit. -/
structure Ends (neighbors : EntityId → SubGraph) (config : SpreadingActivationConfig)
    (seeds : List (EntityId × ℚ)) (rest : List (Turn (EntityId × ℚ) EntityId))
    (activations result : Activations) : Prop where
  kept : activations.rows <+: result.rows
  bounded_iff : Bounded neighbors config seeds activations →
    (Bounded neighbors config seeds result ↔
      ∀ turn ∈ rest, turn.before.card < config.maxActivated → TurnFits neighbors config seeds turn)

theorem Ends.stop {rest : List (Turn (EntityId × ℚ) EntityId)}
    (h : ∀ turn ∈ rest, config.maxActivated ≤ turn.before.card) :
    Ends neighbors config seeds rest s.activations s.activations where
  kept := List.prefix_rfl
  bounded_iff hbounded :=
    ⟨fun _ turn hturn hlt => absurd hlt (Nat.not_lt.mpr (h turn hturn)), fun _ => hbounded⟩

theorem turnFits_nil {item : EntityId × ℚ} (h : found.card < config.maxActivated) :
    TurnFits neighbors config seeds ⟨item, found, []⟩ :=
  ⟨by simp, by simpa using Or.inl h.le⟩

theorem Visited.bounded_iff {s' : Spread} {c : ℚ} {depth : ℕ} {ids : List EntityId}
    {item : EntityId × ℚ} (h : Visited c depth ids s s') (hs : Marked s)
    (hc : item.2 * config.decayFactor = c) (hbounded : Bounded neighbors config seeds s.activations) :
    Bounded neighbors config seeds s'.activations ↔
      TurnFits neighbors config seeds ⟨item, s.visited, fresh s.visited ids⟩ := by
  subst hc
  constructor
  · rintro ⟨hsize, hstrongest⟩
    rw [h.rows] at hsize hstrongest
    refine ⟨fun id hid => ?_, ?_⟩
    · exact hstrongest _ (List.mem_append_right _ (List.mem_map_of_mem hid))
    · simpa [hs.card] using hsize
  · rintro ⟨hstrongest, hsize⟩
    refine ⟨?_, fun row hrow => ?_⟩
    · simpa [h.rows, hs.card] using hsize
    · rw [h.rows] at hrow
      rcases List.mem_append.mp hrow with hrow | hrow
      · exact hbounded.strongest row hrow
      · obtain ⟨id, hid, rfl⟩ := List.mem_map.mp hrow
        exact hstrongest id hid

/-- The turns that are still to come. -/
noncomputable def remaining (neighbors : EntityId → SubGraph) (config : SpreadingActivationConfig)
    (seeds : List (EntityId × ℚ)) (left : ℕ) (found : Finset EntityId)
    (layer next : List (EntityId × ℚ)) : List (Turn (EntityId × ℚ) EntityId) :=
  breadthFirst (offers neighbors config) (fun id => (id, strongest neighbors config seeds id)) left
    found layer next

variable {left depth : ℕ} {item : EntityId × ℚ} {layer next : List (EntityId × ℚ)}
  {result : Activations}

theorem Ends.low (h : Ends neighbors config seeds
      (remaining neighbors config seeds (left + 1) s.visited layer next) s.activations result)
    (hlow : item.2 * config.decayFactor < config.minActivation)
    (hcard : s.visited.card < config.maxActivated) :
    Ends neighbors config seeds
      (remaining neighbors config seeds (left + 1) s.visited (item :: layer) next) s.activations result := by
  have hnone : offers neighbors config item = [] := if_pos hlow
  refine ⟨h.kept, fun hbounded => ?_⟩
  rw [h.bounded_iff hbounded, remaining, remaining, breadthFirst_cons, hnone, fresh, List.map_nil,
    List.append_nil, List.toFinset_nil, Finset.union_empty, List.forall_mem_cons]
  exact ⟨fun h => ⟨fun _ => turnFits_nil hcard, h⟩, And.right⟩

/-- After a turn that fits, what is found is passed on as strongly as it can be; one that does not
fit is never made good. -/
theorem Ends.pass {after : Spread}
    (hvisited : Visited (item.2 * config.decayFactor) depth (adjacent neighbors item.1) s after)
    (h : Ends neighbors config seeds (remaining neighbors config seeds (left + 1) after.visited layer
      (next ++ (fresh s.visited (adjacent neighbors item.1)).map fun id =>
        (id, item.2 * config.decayFactor))) after.activations result)
    (hs : Marked s) (hlow : ¬ item.2 * config.decayFactor < config.minActivation)
    (hcard : s.visited.card < config.maxActivated) :
    Ends neighbors config seeds
      (remaining neighbors config seeds (left + 1) s.visited (item :: layer) next) s.activations result := by
  have hoffers : offers neighbors config item = adjacent neighbors item.1 := if_neg hlow
  refine ⟨(hvisited.rows ▸ List.prefix_append _ _).trans h.kept, fun hbounded => ?_⟩
  have hturn := hvisited.bounded_iff hs rfl hbounded
  rw [remaining, breadthFirst_cons, hoffers, List.forall_mem_cons]
  by_cases hfits : TurnFits neighbors config seeds
      ⟨item, s.visited, fresh s.visited (adjacent neighbors item.1)⟩
  · have hsame := List.map_congr_left fun id hid =>
      congrArg (id, ·) (strongest_eq (hfits.strongest id hid))
    rw [h.bounded_iff (hturn.mpr hfits), remaining, hvisited.visited, hsame]
    exact ⟨fun h => ⟨fun _ => hfits, h⟩, And.right⟩
  · constructor
    · exact fun hresult => absurd (hturn.mp (hresult.earlier h.kept)) hfits
    · exact fun h => absurd (h.1 hcard) hfits

/-- The loop returns, given enough turns. -/
def Returns (neighbors : EntityId → SubGraph) (config : SpreadingActivationConfig) (s : Spread)
    (result : Activations) : Prop :=
  ∃ rounds, ∀ fuel ≥ rounds,
    spreadLoop (fun id => .ok (neighbors id)) config fuel s = some (.ok result)

theorem Returns.now (h : ∀ fuel, spreadLoop (fun id => .ok (neighbors id)) config (fuel + 1) s =
    some (.ok result)) : Returns neighbors config s result := by
  refine ⟨1, fun fuel hfuel => ?_⟩
  obtain ⟨fuel, rfl⟩ : ∃ k, fuel = k + 1 := ⟨fuel - 1, by omega⟩
  exact h fuel

theorem Returns.later {s' : Spread} (h : Returns neighbors config s' result)
    (hstep : ∀ fuel, spreadLoop (fun id => .ok (neighbors id)) config (fuel + 1) s =
      spreadLoop (fun id => .ok (neighbors id)) config fuel s') : Returns neighbors config s result := by
  obtain ⟨rounds, hrounds⟩ := h
  refine ⟨rounds + 1, fun fuel hfuel => ?_⟩
  obtain ⟨fuel, rfl⟩ : ∃ k, fuel = k + 1 := ⟨fuel - 1, by omega⟩
  rw [hstep]
  exact hrounds fuel (by omega)

/-- The queue of a layer: its items that are still to come, and those of the next layer. -/
def layered (depth : ℕ) (layer next : List (EntityId × ℚ)) : List (EntityId × ℚ × ℕ) :=
  layer.map (fun item => (item.1, item.2, depth)) ++
    next.map fun item => (item.1, item.2, depth + 1)

theorem returns_at_depth (hdepth : config.maxDepth ≤ depth) (hqueue : s.queue = layered depth layer next) :
    Returns neighbors config s s.activations := by
  refine Returns.now fun fuel => ?_
  rw [spreadLoop]
  cases hitems : s.queue with
  | nil => rfl
  | cons item queue =>
    obtain ⟨id, activation, d⟩ := item
    have hmem : (id, activation, d) ∈ layered depth layer next := by
      rw [← hqueue, hitems]
      exact List.mem_cons_self
    have hdeep : config.maxDepth ≤ d := by
      simp only [layered, List.mem_append, List.mem_map, Prod.mk.injEq] at hmem
      rcases hmem with ⟨_, _, -, -, rfl⟩ | ⟨_, _, -, -, rfl⟩
      · exact hdepth
      · omega
    exact if_pos (.inl hdeep)

variable (seeds) in
/-- The loop returns, and it returns the right activations just when the turns before the limit
fit. -/
theorem spreadLoop_ends (hdecay : 0 ≤ config.decayFactor) (hdepth : depth + left = config.maxDepth)
    (hqueue : s.queue = layered depth layer next) (hs : Marked s)
    (hpositive : ∀ item ∈ layer ++ next, 0 ≤ item.2) :
    ∃ result, Returns neighbors config s result ∧ Ends neighbors config seeds
      (remaining neighbors config seeds left s.visited layer next) s.activations result := by
  induction left generalizing depth layer next s with
  | zero =>
    exact ⟨s.activations, returns_at_depth (by omega) hqueue,
      Ends.stop (by simp [remaining, breadthFirst_zero])⟩
  | succ left ih =>
    induction layer generalizing s next with
    | nil =>
      rw [remaining, breadthFirst_nil]
      have hnext : s.queue = layered (depth + 1) next [] := by simpa [layered] using hqueue
      exact ih (show depth + 1 + left = config.maxDepth by omega) hnext hs (by simpa using hpositive)
    | cons item layer ihlayer =>
      have hhead : s.queue = (item.1, item.2, depth) :: layered depth layer next := hqueue
      by_cases hfull : config.maxActivated ≤ s.activations.rows.length
      · refine ⟨s.activations, Returns.now fun fuel => ?_, Ends.stop fun turn hturn => ?_⟩
        · rw [spreadLoop, hhead]
          exact if_pos (.inr hfull)
        · rw [← hs.card] at hfull
          exact hfull.trans (Finset.card_le_card (before_of_mem_breadthFirst hturn))
      have hcard : s.visited.card < config.maxActivated := by
        rw [hs.card]
        omega
      have hpass : ¬ (config.maxDepth ≤ depth ∨ config.maxActivated ≤ s.activations.rows.length) := by
        omega
      have hpopped : Marked { s with queue := layered depth layer next } := hs
      by_cases hlow : item.2 * config.decayFactor < config.minActivation
      · have hrest : ∀ i ∈ layer ++ next, 0 ≤ i.2 := fun i hi => hpositive i (by
          rw [List.cons_append]
          exact List.mem_cons_of_mem _ hi)
        obtain ⟨result, hreturns, hends⟩ := ihlayer rfl hpopped hrest
        refine ⟨result, hreturns.later fun fuel => ?_, hends.low hlow hcard⟩
        rw [spreadLoop, hhead]
        simp only [if_neg hpass, if_pos hlow]
      · have hc : 0 ≤ item.2 * config.decayFactor := mul_nonneg (hpositive item (by simp)) hdecay
        have hvisited := foldl_visit depth hpopped hc (neighbors item.1).entities
        have hnext := hvisited.queue.trans (show _ = layered depth layer (next ++
          (fresh s.visited (adjacent neighbors item.1)).map fun id => (id, item.2 * config.decayFactor))
          by simp [layered, adjacent])
        obtain ⟨result, hreturns, hends⟩ := ihlayer hnext hvisited.marked fun i hi => by
          simp only [List.mem_append, List.mem_map] at hi
          rcases hi with hi | hi | ⟨_, -, rfl⟩
          · exact hpositive i (by simp [hi])
          · exact hpositive i (by simp [hi])
          · exact hc
        have hpassed := Ends.pass hvisited hends hpopped hlow hcard
        refine ⟨result, hreturns.later fun fuel => ?_, hpassed⟩
        rw [spreadLoop, hhead]
        simp only [if_neg hpass, if_neg hlow]

/-- Every spreading ends, and in the right activations just when the seeds and the turns before the
limit fit. -/
theorem spread_bounded_iff (neighbors : EntityId → SubGraph) (config : SpreadingActivationConfig)
    (seeds : List (EntityId × ℚ)) (hscores : ∀ seed ∈ seeds, 0 < seed.2)
    (hdecay : 0 < config.decayFactor) :
    ∃ rounds activations, (∀ fuel ≥ rounds,
        spread (fun id => .ok (neighbors id)) config seeds fuel = some (.ok activations)) ∧
      (Bounded neighbors config seeds activations ↔ Fits neighbors config seeds) := by
  obtain ⟨hmarked, hvisited, hqueue, hlength⟩ := seeded seeds
  have hlayered : (seeds.foldl Spread.seed {}).queue = layered 0 seeds [] := by
    simpa [layered] using hqueue
  obtain ⟨activations, ⟨rounds, hrun⟩, hends⟩ := spreadLoop_ends seeds hdecay.le
    (Nat.zero_add config.maxDepth) hlayered hmarked (fun item hitem => (hscores item (by simpa using hitem)).le)
  refine ⟨rounds, activations, hrun, fun hbounded => ⟨?_, ?_⟩, fun hfits => ?_⟩
  · intro earlier id score later hseeds hlater
    exact (hbounded.earlier hends.kept).strongest _ (mem_seeded.mpr ⟨earlier, later, hseeds, hlater⟩)
  · rw [turns, ← hvisited]
    exact (hends.bounded_iff (hbounded.earlier hends.kept)).mp hbounded
  · refine (hends.bounded_iff ⟨hlength.trans (le_max_right _ _), fun row hrow => ?_⟩).mpr ?_
    · obtain ⟨earlier, later, hseeds, hlater⟩ := mem_seeded.mp hrow
      exact hfits.listed earlier row.1 row.2 later hseeds hlater
    · rw [hvisited]
      exact hfits.inTurn

end Loop

section Star

def place (id : EntityId) : Entity :=
  { id, name := "", entityType := "place", scope := {}, createdAt := 0, updatedAt := 0 }

/-- Places 1 and 2 are next to 3, and 1 is next to 4. -/
def roads (id : EntityId) : SubGraph :=
  if id = 1 then ⟨[place 3, place 4], []⟩
  else if id = 2 then ⟨[place 3], []⟩
  else if id = 3 then ⟨[place 1, place 2], []⟩
  else if id = 4 then ⟨[place 1], []⟩
  else ⟨[], []⟩

theorem spread_bounded_roads : ∃ rounds activations, (∀ fuel ≥ rounds,
      spread (fun id => .ok (roads id)) { maxActivated := 3 } [(1, 1 / 10), (2, 1)] fuel =
        some (.ok activations)) ∧
    (Bounded roads { maxActivated := 3 } [(1, 1 / 10), (2, 1)] activations ↔
      Fits roads { maxActivated := 3 } [(1, 1 / 10), (2, 1)]) :=
  spread_bounded_iff roads { maxActivated := 3 } [(1, 1 / 10), (2, 1)] (by norm_num) (by norm_num)

/-- The weak seed is listed first: it gives place 3 what it has, and with place 4 too many are
activated. -/
theorem weak_seed_first : ∃ activations : Activations,
    activations.rows = [(1, 1 / 10), (2, 1), (3, 1 / 20), (4, 1 / 20)] ∧
    (∀ fuel ≥ 2, spread (fun id => .ok (roads id)) { maxActivated := 3 } [(1, 1 / 10), (2, 1)] fuel =
      some (.ok activations)) ∧
    ¬ Bounded roads { maxActivated := 3 } [(1, 1 / 10), (2, 1)] activations := by
  refine ⟨⟨[(1, 1 / 10), (2, 1), (3, 1 / 20), (4, 1 / 20)], by decide⟩, rfl, fun fuel hfuel => ?_,
    fun hbounded => absurd hbounded.size (by decide)⟩
  obtain ⟨fuel, rfl⟩ : ∃ k, fuel = k + 2 := ⟨fuel - 2, by omega⟩
  with_unfolding_all rfl

end Star

end JamJet.Engram.Spreading
