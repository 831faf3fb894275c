import Mathlib.Data.Finset.Card
import Mathlib.Data.Finset.Max
import Mathlib.Logic.Relation

/-! Breadth-first search in a graph given by the successors of each vertex, and what the vertices
of a finite graph can reach. -/

namespace GraphSearch

open Relation

variable {α : Type} [DecidableEq α]

/-- An edge of the graph. -/
def Edge (succ : α → List α) (a b : α) : Prop := b ∈ succ a

/-- Mark the successors that are new and queue them. -/
def enqueue : List α → Finset α × List α → Finset α × List α
  | [], acc => acc
  | next :: rest, (visited, queue) =>
      if next ∈ visited then enqueue rest (visited, queue)
      else enqueue rest (insert next visited, queue ++ [next])

/-- Take the vertices off the queue one by one, for at most the given number of rounds. -/
def search (succ : α → List α) : ℕ → Finset α × List α → Finset α
  | 0, (visited, _) => visited
  | _ + 1, (visited, []) => visited
  | rounds + 1, (visited, current :: queue) =>
      search succ rounds (enqueue (succ current) (visited, queue))

variable {succ : α → List α} {start : α}

/-- What the search keeps: marked vertices are reached from the start, the queue holds marked
vertices, and the successors of a marked vertex off the queue are marked. -/
structure Searching (succ : α → List α) (start : α) (visited : Finset α) (queue : List α) :
    Prop where
  reached : ∀ a ∈ visited, ReflTransGen (Edge succ) start a
  marked : ∀ a ∈ queue, a ∈ visited
  closed : ∀ a ∈ visited, a ∉ queue → ∀ b ∈ succ a, b ∈ visited
  start_mem : start ∈ visited

/-- What queueing some successors does to the marks, the queue and the number of vertices left. -/
theorem enqueue_spec (nexts : List α) (visited : Finset α) (queue : List α) (space : Finset α)
    (hin : ∀ a ∈ nexts, a ∈ space) :
    (∀ a, a ∈ (enqueue nexts (visited, queue)).1 ↔ a ∈ visited ∨ a ∈ nexts) ∧
    (∀ a, a ∈ (enqueue nexts (visited, queue)).2 ↔ a ∈ queue ∨ (a ∈ nexts ∧ a ∉ visited)) ∧
    (enqueue nexts (visited, queue)).2.length +
        (space \ (enqueue nexts (visited, queue)).1).card =
      queue.length + (space \ visited).card := by
  induction nexts generalizing visited queue with
  | nil => simp [enqueue]
  | cons next rest ih =>
    by_cases hnext : next ∈ visited
    · obtain ⟨hmarks, hqueue, hcard⟩ := ih visited queue fun a ha => hin a (by simp [ha])
      simp only [enqueue, if_pos hnext]
      refine ⟨fun a => ?_, fun a => ?_, hcard⟩
      · rw [hmarks, List.mem_cons]
        constructor
        · rintro (h | h)
          · exact .inl h
          · exact .inr (.inr h)
        · rintro (h | rfl | h)
          · exact .inl h
          · exact .inl hnext
          · exact .inr h
      · rw [hqueue, List.mem_cons]
        constructor
        · rintro (h | ⟨h, hno⟩)
          · exact .inl h
          · exact .inr ⟨.inr h, hno⟩
        · rintro (h | ⟨rfl | h, hno⟩)
          · exact .inl h
          · exact absurd hnext hno
          · exact .inr ⟨h, hno⟩
    · obtain ⟨hmarks, hqueue, hcard⟩ :=
        ih (insert next visited) (queue ++ [next]) fun a ha => hin a (by simp [ha])
      simp only [enqueue, if_neg hnext]
      refine ⟨fun a => ?_, fun a => ?_, ?_⟩
      · rw [hmarks, Finset.mem_insert, List.mem_cons]
        tauto
      · rw [hqueue, List.mem_append, List.mem_singleton, Finset.mem_insert, List.mem_cons]
        constructor
        · rintro ((h | rfl) | ⟨h, hno⟩)
          · exact .inl h
          · exact .inr ⟨.inl rfl, hnext⟩
          · exact .inr ⟨.inr h, fun hv => hno (.inr hv)⟩
        · rintro (h | ⟨rfl | h, hno⟩)
          · exact .inl (.inl h)
          · exact .inl (.inr rfl)
          · by_cases heq : a = next
            · exact .inl (.inr heq)
            · exact .inr ⟨h, fun hv => hv.elim heq hno⟩
      · -- the new vertex moves from the rest of the space to the queue
        have hmem : next ∈ space \ visited :=
          Finset.mem_sdiff.mpr ⟨hin next (by simp), hnext⟩
        have hinsert : (space \ insert next visited).card = (space \ visited).card - 1 := by
          rw [Finset.sdiff_insert, Finset.card_erase_of_mem hmem]
        have hpos : 0 < (space \ visited).card := Finset.card_pos.mpr ⟨next, hmem⟩
        simp only [List.length_append, List.length_singleton] at hcard
        omega

/-- One round of the search keeps the invariant. -/
theorem Searching.round {visited : Finset α} {current : α} {queue : List α}
    (h : Searching succ start visited (current :: queue)) :
    Searching succ start (enqueue (succ current) (visited, queue)).1
      (enqueue (succ current) (visited, queue)).2 := by
  obtain ⟨hmarks, hqueue, -⟩ :=
    enqueue_spec (succ current) visited queue (succ current).toFinset (by simp)
  refine ⟨fun a ha => ?_, fun a ha => ?_, fun a ha hout b hb => ?_, ?_⟩
  · rcases (hmarks a).mp ha with ha | ha
    · exact h.reached a ha
    · exact (h.reached current (h.marked current (by simp))).tail ha
  · rcases (hqueue a).mp ha with ha | ⟨ha, -⟩
    · exact (hmarks a).mpr (.inl (h.marked a (by simp [ha])))
    · exact (hmarks a).mpr (.inr ha)
  · have hin : a ∈ visited := by
      rcases (hmarks a).mp ha with ha | ha
      · exact ha
      · by_contra hno
        exact hout ((hqueue a).mpr (.inr ⟨ha, hno⟩))
    by_cases heq : a = current
    · exact (hmarks b).mpr (.inr (heq ▸ hb))
    · have hnotin : a ∉ current :: queue := by
        intro hmem
        rcases List.mem_cons.mp hmem with hmem | hmem
        · exact heq hmem
        · exact hout ((hqueue a).mpr (.inl hmem))
      exact (hmarks b).mpr (.inl (h.closed a hin hnotin b hb))
  · exact (hmarks start).mpr (.inl h.start_mem)

/-- With a round for every vertex left, the search ends with an empty queue. -/
theorem Searching.search {space : Finset α}
    (hclosed : ∀ a ∈ space, ∀ b ∈ succ a, b ∈ space)
    {rounds : ℕ} {visited : Finset α} {queue : List α} (h : Searching succ start visited queue)
    (hvisited : visited ⊆ space) (hrounds : queue.length + (space \ visited).card ≤ rounds) :
    Searching succ start (search succ rounds (visited, queue)) [] := by
  induction rounds generalizing visited queue with
  | zero =>
    have hempty : queue = [] := List.eq_nil_of_length_eq_zero (by omega)
    exact hempty ▸ h
  | succ rounds ih =>
    cases queue with
    | nil => exact h
    | cons current queue =>
      have hin : ∀ a ∈ succ current, a ∈ space :=
        hclosed current (hvisited (h.marked current (by simp)))
      obtain ⟨hmarks, -, hcard⟩ := enqueue_spec (succ current) visited queue space hin
      simp only [GraphSearch.search]
      refine ih h.round (fun a ha => ?_) ?_
      · exact ((hmarks a).mp ha).elim (fun ha => hvisited ha) (hin a)
      · simp only [List.length_cons] at hrounds
        omega

/-- The search marks exactly what the start reaches. -/
theorem mem_search_iff (space : Finset α) (hclosed : ∀ a ∈ space, ∀ b ∈ succ a, b ∈ space)
    (hstart : start ∈ space) {rounds : ℕ} (hrounds : space.card ≤ rounds) {a : α} :
    a ∈ search succ rounds ({start}, [start]) ↔ ReflTransGen (Edge succ) start a := by
  have hinit : Searching succ start {start} [start] := by
    refine ⟨fun a ha => ?_, by simp, fun a ha hout => ?_, by simp⟩
    · rw [Finset.mem_singleton.mp ha]
    · exact absurd (by simpa using ha) hout
  have hcard : (space \ {start}).card = space.card - 1 := by
    rw [Finset.sdiff_singleton_eq_erase, Finset.card_erase_of_mem hstart]
  have hpos : 0 < space.card := Finset.card_pos.mpr ⟨start, hstart⟩
  have hdone : Searching succ start (search succ rounds ({start}, [start])) [] :=
    hinit.search hclosed (Finset.singleton_subset_iff.mpr hstart)
      (by simp only [List.length_singleton]; omega)
  constructor
  · exact hdone.reached a
  · intro hreach
    induction hreach with
    | refl => exact hdone.start_mem
    | tail _ hedge ih => exact hdone.closed _ ih (by simp) _ hedge

omit [DecidableEq α] in
/-- Every vertex of a finite set reaches a goal if and only if no part of the set without goals
keeps all its edges to itself. -/
theorem all_reach_iff_no_trap (step : α → α → Prop) (goal : α → Prop) (vertices : Finset α)
    (hclosed : ∀ a ∈ vertices, ∀ b, step a b → b ∈ vertices ∨ goal b) :
    (∀ a ∈ vertices, ∃ b, ReflTransGen step a b ∧ goal b) ↔
      ∀ trap ⊆ vertices, trap.Nonempty → ∃ a ∈ trap, goal a ∨ ∃ b, step a b ∧ b ∉ trap := by
  classical
  constructor
  · rintro hreach trap hsub ⟨a, ha⟩
    obtain ⟨b, hpath, hgoal⟩ := hreach a (hsub ha)
    induction hpath using ReflTransGen.head_induction_on with
    | refl => exact ⟨b, ha, .inl hgoal⟩
    | @head c d hedge _ ih =>
      by_cases hd : d ∈ trap
      · exact ih hd
      · exact ⟨c, ha, .inr ⟨d, hedge, hd⟩⟩
  · intro hno
    by_contra hstuck
    push Not at hstuck
    obtain ⟨a, ha, hanone⟩ := hstuck
    have hsub : (vertices.filter fun a => ∀ b, ReflTransGen step a b → ¬ goal b) ⊆ vertices :=
      Finset.filter_subset _ _
    obtain ⟨c, hc, hout⟩ := hno _ hsub ⟨a, Finset.mem_filter.mpr ⟨ha, hanone⟩⟩
    obtain ⟨hcv, hcnone⟩ := Finset.mem_filter.mp hc
    rcases hout with hgoal | ⟨b, hedge, hb⟩
    · exact hcnone c .refl hgoal
    · rcases hclosed c hcv b hedge with hbv | hgoal
      · refine hb (Finset.mem_filter.mpr ⟨hbv, fun d hpath => ?_⟩)
        exact hcnone d (ReflTransGen.head hedge hpath)
      · exact hcnone b (.single hedge) hgoal

end GraphSearch
