import Mathlib.Data.Finset.Card
import Mathlib.Data.Finset.Insert
import Mathlib.Data.Set.Basic
import Mathlib.Tactic.Common

/-! The vertices of a graph by their distance from where a search starts, layer by layer. -/

namespace GraphSearch

variable {α : Type} {step step' : α → α → Prop} {starts : Set α} {n : ℕ} {a b : α}

/-- At most so many edges away from a start. -/
inductive Within (step : α → α → Prop) (starts : Set α) : ℕ → α → Prop
  | start {n : ℕ} {a : α} : a ∈ starts → Within step starts n a
  | edge {n : ℕ} {a b : α} : Within step starts n a → step a b → Within step starts (n + 1) b

/-- Less than so many edges away. -/
def Before (step : α → α → Prop) (starts : Set α) (n : ℕ) (a : α) : Prop :=
  ∃ k < n, Within step starts k a

theorem Within.mono (h : Within step starts n a) {m : ℕ} (hle : n ≤ m) :
    Within step starts m a := by
  induction h generalizing m with
  | start ha => exact .start ha
  | edge _ hstep ih =>
    obtain ⟨m, rfl⟩ : ∃ k, m = k + 1 := ⟨m - 1, by omega⟩
    exact .edge (ih (by omega)) hstep

theorem within_zero : Within step starts 0 a ↔ a ∈ starts := by
  constructor
  · rintro (h | _)
    exact h
  · exact .start

theorem within_succ : Within step starts (n + 1) b ↔
    Within step starts n b ∨ ∃ a, Within step starts n a ∧ step a b := by
  constructor
  · rintro (h | ⟨h, hstep⟩)
    · exact .inl (.start h)
    · exact .inr ⟨_, h, hstep⟩
  · rintro (h | ⟨a, h, hstep⟩)
    · exact h.mono (Nat.le_succ n)
    · exact .edge h hstep

theorem not_before_zero : ¬ Before step starts 0 a := by
  rintro ⟨k, hk, -⟩
  omega

theorem before_succ : Before step starts (n + 1) a ↔ Within step starts n a := by
  constructor
  · rintro ⟨k, hk, h⟩
    exact h.mono (by omega)
  · exact fun h => ⟨n, Nat.lt_succ_self n, h⟩

/-- Graphs that agree on the edges of the vertices that are near in both have the same
distances. -/
theorem within_congr (h : ∀ k < n, ∀ a, Within step starts k a → Within step' starts k a →
    ∀ b, step a b ↔ step' a b) : Within step starts n a ↔ Within step' starts n a := by
  induction n generalizing a with
  | zero => rw [within_zero, within_zero]
  | succ n ih =>
    have hnear : ∀ b, Within step starts n b ↔ Within step' starts n b := fun b =>
      ih fun k hk => h k (Nat.lt_succ_of_lt hk)
    rw [within_succ, within_succ, hnear]
    refine or_congr_right (exists_congr fun c => ?_)
    rw [← hnear]
    exact and_congr_right fun hc => h n (Nat.lt_succ_self n) c hc ((hnear c).mp hc) a

theorem before_congr (h : ∀ k < n, ∀ a, Within step starts k a → Within step' starts k a →
    ∀ b, step a b ↔ step' a b) : Before step starts n a ↔ Before step' starts n a :=
  exists_congr fun _ => and_congr_right fun hk => within_congr fun j hj => h j (hj.trans hk)

/-- What a search layer by layer has: all vertices up to some distance, and in the frontier those of
just that distance. -/
structure Layer (step : α → α → Prop) (starts : Set α) (n : ℕ) (visited : Finset α)
    (frontier : List α) : Prop where
  visited : ∀ a, a ∈ visited ↔ Within step starts n a
  frontier : ∀ a, a ∈ frontier ↔ Within step starts n a ∧ ¬ Before step starts n a

theorem Layer.init {visited : Finset α} {frontier : List α} (hvisited : ∀ a, a ∈ visited ↔ a ∈ starts)
    (hfrontier : ∀ a, a ∈ frontier ↔ a ∈ starts) : Layer step starts 0 visited frontier where
  visited a := by rw [hvisited, within_zero]
  frontier a := by
    rw [hfrontier, within_zero]
    exact ⟨fun h => ⟨h, not_before_zero⟩, And.left⟩

/-- The next layer is what the frontier has edges to. -/
theorem Layer.next {visited visited' : Finset α} {frontier frontier' : List α}
    (h : Layer step starts n visited frontier)
    (hvisited : ∀ b, b ∈ visited' ↔ b ∈ visited ∨ ∃ a ∈ frontier, step a b)
    (hfrontier : ∀ b, b ∈ frontier' ↔ b ∉ visited ∧ ∃ a ∈ frontier, step a b) :
    Layer step starts (n + 1) visited' frontier' := by
  have hnext : ∀ b, Within step starts (n + 1) b ↔
      Within step starts n b ∨ ∃ a ∈ frontier, step a b := by
    intro b
    rw [within_succ]
    constructor
    · rintro (hb | ⟨a, ha, hstep⟩)
      · exact .inl hb
      · by_cases hbefore : Before step starts n a
        · obtain ⟨k, hk, hnear⟩ := hbefore
          exact .inl ((Within.edge hnear hstep).mono hk)
        · exact .inr ⟨a, (h.frontier a).mpr ⟨ha, hbefore⟩, hstep⟩
    · rintro (hb | ⟨a, ha, hstep⟩)
      · exact .inl hb
      · exact .inr ⟨a, ((h.frontier a).mp ha).1, hstep⟩
  refine ⟨fun b => ?_, fun b => ?_⟩
  · rw [hvisited, hnext, h.visited]
  · rw [hfrontier, hnext, before_succ, h.visited]
    tauto

section Turns

variable {ι β : Type} [DecidableEq β]

/-- What is offered and not found yet, each once. -/
def fresh (found : Finset β) : List β → List β
  | [] => []
  | b :: offered => if b ∈ found then fresh found offered else b :: fresh (insert b found) offered

/-- A turn of a breadth-first search: whose it is, what had been found, and what it finds. -/
structure Turn (ι β : Type) where
  source : ι
  before : Finset β
  finds : List β

/-- The turns of a search in the breadth, to a depth: of the items of this layer one after the other,
and then of those that they find. -/
def breadthFirst (offers : ι → List β) (item : β → ι) :
    ℕ → Finset β → List ι → List ι → List (Turn ι β)
  | 0, _, _, _ => []
  | depth + 1, found, [], next => breadthFirst offers item depth found next []
  | depth + 1, found, i :: layer, next =>
      ⟨i, found, fresh found (offers i)⟩ ::
        breadthFirst offers item (depth + 1) (found ∪ (offers i).toFinset) layer
          (next ++ (fresh found (offers i)).map item)
termination_by depth _ layer _ => (depth, layer.length)

variable {offers : ι → List β} {item : β → ι} {depth : ℕ} {found : Finset β} {layer next : List ι}

theorem breadthFirst_zero : breadthFirst offers item 0 found layer next = [] := by
  rw [breadthFirst]

theorem breadthFirst_nil : breadthFirst offers item (depth + 1) found [] next =
    breadthFirst offers item depth found next [] := by
  rw [breadthFirst]

theorem breadthFirst_cons {i : ι} : breadthFirst offers item (depth + 1) found (i :: layer) next =
    ⟨i, found, fresh found (offers i)⟩ ::
      breadthFirst offers item (depth + 1) (found ∪ (offers i).toFinset) layer
        (next ++ (fresh found (offers i)).map item) := by
  rw [breadthFirst]

theorem before_of_mem_breadthFirst {turn : Turn ι β}
    (h : turn ∈ breadthFirst offers item depth found layer next) : found ⊆ turn.before := by
  induction depth generalizing found layer next with
  | zero => simp [breadthFirst_zero] at h
  | succ depth ih =>
    induction layer generalizing found next with
    | nil =>
      rw [breadthFirst_nil] at h
      exact ih h
    | cons i layer ihlayer =>
      rw [breadthFirst_cons] at h
      rcases List.mem_cons.mp h with rfl | h
      · exact Finset.Subset.refl found
      · exact Finset.subset_union_left.trans (ihlayer h)

end Turns

end GraphSearch
