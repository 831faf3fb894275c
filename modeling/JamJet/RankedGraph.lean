import Mathlib.Data.List.Chain
import Mathlib.Data.List.Perm.Subperm
import Mathlib.Data.Set.Basic
import Mathlib.Logic.Relation
import Mathlib.Order.Lattice

/-! Graphs whose edges all go up in rank: they have no cycle, local conditions on their vertices
make them reachable from a root and lead to a sink, and their paths are counted by the vertices they
may turn at. -/

namespace RankedGraph

open Relation

variable {α : Type} {step : α → α → Prop} {rank : α → ℕ}

/-- Every edge goes up. -/
def Ranked (step : α → α → Prop) (rank : α → ℕ) : Prop := ∀ a b, step a b → rank a < rank b

theorem Ranked.transGen (h : Ranked step rank) {a b : α} (hpath : TransGen step a b) :
    rank a < rank b := by
  induction hpath with
  | single hstep => exact h _ _ hstep
  | tail _ hstep ih => exact ih.trans (h _ _ hstep)

theorem Ranked.acyclic (h : Ranked step rank) (a : α) : ¬ TransGen step a a :=
  fun hcycle => (h.transGen hcycle).ne rfl

theorem Ranked.reaches_from_root (h : Ranked step rank) (vertices : Set α) {root : α}
    (hentered : ∀ b ∈ vertices, b ≠ root → ∃ a ∈ vertices, step a b) {b : α} (hb : b ∈ vertices) :
    ReflTransGen step root b := by
  -- along the rank, which the edge into a vertex lowers
  induction hn : rank b using Nat.strong_induction_on generalizing b with
  | _ n ih =>
    by_cases hroot : b = root
    · rw [hroot]
    · obtain ⟨a, ha, hstep⟩ := hentered b hb hroot
      have hlt : rank a < n := hn ▸ h a b hstep
      exact (ih (rank a) hlt ha rfl).tail hstep

theorem Ranked.reaches_sink (h : Ranked step rank) (vertices : Set α) {sink : α} {top : ℕ}
    (htop : ∀ a ∈ vertices, rank a ≤ top)
    (hleft : ∀ a ∈ vertices, ∃ b, step a b ∧ (b ∈ vertices ∨ b = sink)) {a : α} (ha : a ∈ vertices) :
    ReflTransGen step a sink := by
  induction hn : top - rank a using Nat.strong_induction_on generalizing a with
  | _ n ih =>
    obtain ⟨b, hstep, hb | rfl⟩ := hleft a ha
    · have hlt := h a b hstep
      have hle := htop b hb
      have hfewer : top - rank b < n := by omega
      exact ReflTransGen.head hstep (ih (top - rank b) hfewer hb rfl)
    · exact .single hstep

theorem Ranked.nodup_of_chain (h : Ranked step rank) {path : List α} (hpath : path.IsChain step) :
    path.Nodup := by
  have hup : path.IsChain fun a b => rank a < rank b := hpath.imp h
  have htrans : IsTrans α fun a b => rank a < rank b := ⟨fun _ _ _ => lt_trans⟩
  exact (List.isChain_iff_pairwise.mp hup).imp fun hlt heq => (heq ▸ hlt).ne rfl

theorem Ranked.countP_le (h : Ranked step rank) {path : List α} (hpath : path.IsChain step)
    (turn : α → Bool) (turns : List α) (hturns : ∀ a, turn a → a ∈ turns) :
    path.countP turn ≤ turns.length := by
  have hnodup : (path.filter turn).Nodup := (h.nodup_of_chain hpath).filter _
  have hsubset : path.filter turn ⊆ turns := fun a ha =>
    hturns a (List.mem_filter.mp ha).2
  rw [List.countP_eq_length_filter]
  exact (List.subperm_of_subset hnodup hsubset).length_le

/-- Between two turns of a path lies a guard, when a turn is entered from guards alone, or through
vertices that are. -/
theorem exists_guard_between {turn guard sheltered : α → Prop} (hguard : ∀ a, guard a → ¬ turn a)
    (hentered : ∀ a b, step a b → turn b ∨ sheltered b → guard a ∨ sheltered a ∧ ¬ turn a)
    {first second : α} (between : List α)
    (hpath : (first :: (between ++ [second])).IsChain step) (hfirst : turn first)
    (hsecond : turn second ∨ sheltered second) : ∃ a ∈ between, guard a := by
  induction between using List.reverseRecOn generalizing second with
  | nil =>
    have hstep : step first second := by simpa using hpath
    rcases hentered first second hstep hsecond with hmet | ⟨-, hnot⟩
    · exact absurd hfirst (hguard first hmet)
    · exact absurd hfirst hnot
  | append_singleton between last ih =>
    have hstep : step last second := by
      rw [List.append_assoc, ← List.cons_append, List.isChain_append] at hpath
      simpa using hpath.2.1
    rcases hentered last second hstep hsecond with hmet | ⟨hlast, -⟩
    · exact ⟨last, by simp, hmet⟩
    · have hshorter : (first :: (between ++ [last])).IsChain step := by
        rw [← List.cons_append, List.isChain_append] at hpath
        exact hpath.1
      obtain ⟨a, ha, hmet⟩ := ih hshorter (.inr hlast)
      exact ⟨a, List.mem_append_left _ ha, hmet⟩

end RankedGraph
