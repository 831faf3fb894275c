import Mathlib.Data.Finset.Card
import Mathlib.Data.List.Infix

/-! Orders in which a finite graph runs, each node after all its sources, and when it leaves no
choice of order. -/

namespace RunOrder

variable {α : Type} {nodes : Finset α} {leads : α → α → Prop}
  {done run path front rest : List α} {x y : α}

/-- A node that can run next: all its sources are done. -/
structure Ready (nodes : Finset α) (leads : α → α → Prop) (done : List α) (x : α) : Prop where
  node : x ∈ nodes
  fresh : x ∉ done
  sources : ∀ y, leads y x → y ∈ done

inductive Run (nodes : Finset α) (leads : α → α → Prop) : List α → Prop
  | nil : Run nodes leads []
  | snoc {done : List α} {x : α} : Run nodes leads done → Ready nodes leads done x → Run nodes leads (done ++ [x])

structure Complete (nodes : Finset α) (leads : α → α → Prop) (run : List α) : Prop where
  runs : Run nodes leads run
  stuck : ∀ x, ¬ Ready nodes leads run x

/-- A path that is entered only from behind, each node from the one before it among others, and
that nothing off it can run without: every node off it has a source off it. -/
structure Forced (nodes : Finset α) (leads : α → α → Prop) (path : List α) : Prop where
  nodup : path.Nodup
  mem : ∀ x ∈ path, x ∈ nodes
  behind : ∀ front x rest, path = front ++ x :: rest → ∀ y, leads y x → y ∈ front
  entered : ∀ front x y rest, path = front ++ x :: y :: rest → leads x y
  off : ∀ x ∈ nodes, x ∉ path → ∃ y, leads y x ∧ y ∉ path

theorem Run.nodup (h : Run nodes leads run) : run.Nodup := by
  induction h with
  | nil => exact List.nodup_nil
  | snoc _ hready ih =>
    refine List.nodup_append.mpr ⟨ih, List.nodup_singleton _, fun a ha b hb hab => ?_⟩
    rw [List.mem_singleton] at hb
    exact hready.fresh (hb ▸ hab ▸ ha)

theorem Run.subset (h : Run nodes leads run) : ∀ x ∈ run, x ∈ nodes := by
  induction h with
  | nil => simp
  | snoc _ hready ih =>
    intro x hx
    rcases List.mem_append.mp hx with hx | hx
    · exact ih x hx
    · rw [List.mem_singleton.mp hx]
      exact hready.node

theorem Run.ready (h : Run nodes leads run) (hrun : run = front ++ x :: rest) :
    Run nodes leads front ∧ Ready nodes leads front x := by
  induction h generalizing rest with
  | nil => simp at hrun
  | @snoc done z hdone hready ih =>
    rcases List.eq_nil_or_concat rest with rfl | ⟨rest', last, rfl⟩
    · obtain ⟨rfl, hz⟩ := List.append_inj' hrun rfl
      cases hz
      exact ⟨hdone, hready⟩
    · rw [List.concat_eq_append, ← List.cons_append, ← List.append_assoc] at hrun
      exact ih (List.append_inj' hrun rfl).1

theorem Run.length_le (h : Run nodes leads run) : run.length ≤ nodes.card := by
  classical
  rw [← List.toFinset_card_of_nodup h.nodup]
  exact Finset.card_le_card fun x hx => h.subset x (List.mem_toFinset.mp hx)

theorem Run.extends (h : Run nodes leads run) : ∃ rest, Complete nodes leads (run ++ rest) := by
  -- each node that runs leaves fewer to run
  induction hn : nodes.card - run.length using Nat.strong_induction_on generalizing run with
  | _ n ih =>
    by_cases hstuck : ∀ x, ¬ Ready nodes leads run x
    · exact ⟨[], by simpa using h, by simpa using hstuck⟩
    · obtain ⟨x, hx⟩ := not_forall_not.mp hstuck
      have hnext := h.snoc hx
      have hle := hnext.length_le
      rw [List.length_append, List.length_singleton] at hle
      have hlt : nodes.card - (run ++ [x]).length < n := by
        rw [List.length_append, List.length_singleton]
        omega
      obtain ⟨rest, hrest⟩ := ih _ hlt hnext rfl
      exact ⟨x :: rest, by simpa using hrest⟩

/-- Along a forced path only its next node is ready. -/
theorem Forced.ready_iff (h : Forced nodes leads path) (hpath : path = front ++ rest) :
    Ready nodes leads front x ↔ rest.head? = some x := by
  constructor
  · intro hready
    have hon : x ∈ path := by
      by_contra hoff
      obtain ⟨y, hy, hyoff⟩ := h.off x hready.node hoff
      exact hyoff (hpath ▸ List.mem_append_left _ (hready.sources y hy))
    have hrest : x ∈ rest := (List.mem_append.mp (hpath ▸ hon)).resolve_left hready.fresh
    obtain ⟨before, after, rfl⟩ := List.append_of_mem hrest
    -- a node before it on the path would have to be done
    rcases List.eq_nil_or_concat before with rfl | ⟨before', z, rfl⟩
    · rfl
    · have hsplit : path = (front ++ before') ++ z :: x :: after := by
        rw [hpath]
        simp
      have hz : z ∈ front := hready.sources z (h.entered _ _ _ _ hsplit)
      have hnodup := h.nodup
      rw [hpath, List.nodup_append] at hnodup
      exact absurd rfl (hnodup.2.2 z hz z (by simp))
  · intro hhead
    obtain ⟨after, rfl⟩ : ∃ after, rest = x :: after := by
      cases rest with
      | nil => cases hhead
      | cons z after => exact ⟨after, by rw [Option.some.inj hhead]⟩
    have hnodup := h.nodup
    rw [hpath, List.nodup_append] at hnodup
    exact ⟨h.mem x (hpath ▸ by simp), fun hmem => hnodup.2.2 x hmem x (by simp) rfl,
      h.behind _ _ _ hpath⟩

theorem Forced.run_prefix (h : Forced nodes leads path) (hrun : Run nodes leads run) :
    run <+: path := by
  induction hrun with
  | nil => exact List.nil_prefix
  | @snoc done x _ hready ih =>
    obtain ⟨rest, hrest⟩ := ih
    have hhead := (h.ready_iff hrest.symm).mp hready
    cases rest with
    | nil => cases hhead
    | cons z rest =>
      cases hhead
      exact ⟨rest, by rw [← hrest, List.append_assoc, List.singleton_append]⟩

theorem Forced.complete_eq (h : Forced nodes leads path) (hrun : Complete nodes leads run) :
    run = path := by
  obtain ⟨rest, hrest⟩ := h.run_prefix hrun.runs
  cases rest with
  | nil => rw [← hrest, List.append_nil]
  | cons x rest => exact absurd ((h.ready_iff hrest.symm).mpr rfl) (hrun.stuck x)

/-- A graph has one complete run exactly when a path is forced, which is then that run. -/
theorem forall_complete_eq_iff :
    (∀ run, Complete nodes leads run → run = path) ↔ Forced nodes leads path := by
  constructor
  · intro honly
    have hnil : Run nodes leads [] := .nil
    obtain ⟨all, hall⟩ := hnil.extends
    have hcomplete : Complete nodes leads path := honly _ hall ▸ hall
    -- whatever is ready after a front of the path comes next on it
    have hnext : ∀ front rest y, path = front ++ rest → Run nodes leads front →
        Ready nodes leads front y → rest.head? = some y := by
      intro front rest y hpath hfront hready
      obtain ⟨after, hafter⟩ := (hfront.snoc hready).extends
      have heq := honly _ hafter
      rw [hpath, List.append_assoc] at heq
      rw [← List.append_cancel_left heq]
      rfl
    refine ⟨hcomplete.runs.nodup, hcomplete.runs.subset, ?_, ?_, ?_⟩
    · intro front x rest hpath
      exact (hcomplete.runs.ready hpath).2.sources
    · intro front x y rest hpath
      by_contra hnot
      obtain ⟨hfront, hx⟩ := hcomplete.runs.ready hpath
      have hsplit : path = (front ++ [x]) ++ y :: rest := by simp [hpath]
      obtain ⟨_, hy⟩ := hcomplete.runs.ready hsplit
      have hready : Ready nodes leads front y := by
        refine ⟨hy.node, fun hmem => hy.fresh (List.mem_append_left _ hmem), fun z hz => ?_⟩
        rcases List.mem_append.mp (hy.sources z hz) with hmem | hmem
        · exact hmem
        · exact absurd (List.mem_singleton.mp hmem ▸ hz) hnot
      have hsame := hnext _ _ y hpath hfront hready
      rw [List.head?_cons] at hsame
      exact hy.fresh (Option.some.inj hsame ▸ by simp)
    · intro x hx hoff
      by_contra hall
      refine hcomplete.stuck x ⟨hx, hoff, fun y hy => ?_⟩
      by_contra hyoff
      exact hall ⟨y, hy, hyoff⟩
  · exact fun h run hrun => h.complete_eq hrun

end RunOrder
