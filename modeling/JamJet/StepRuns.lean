import Mathlib.Data.Option.Basic
import Mathlib.Tactic.Common

/-! Runs of a system some of whose actions are not possible in some states. -/

namespace StepRuns

variable {σ α : Type} {step : σ → α → Option σ} {acts acts' : List α} {a : α} {s t : σ}

/-- The state the actions lead to one after the other, if each of them is possible when it is
its turn. -/
def run (step : σ → α → Option σ) (s : σ) (acts : List α) : Option σ := acts.foldlM step s

@[simp]
theorem run_nil : run step s [] = some s := rfl

theorem run_cons : run step s (a :: acts) = some t ↔
    ∃ u, step s a = some u ∧ run step u acts = some t := by
  simp [run, List.foldlM_cons, Option.bind_eq_some_iff]

theorem run_inv {I : σ → Prop} (hstep : ∀ s, ∀ a ∈ acts, ∀ t, I s → step s a = some t → I t)
    (hs : I s) (h : run step s acts = some t) : I t := by
  induction acts generalizing s with
  | nil =>
    cases h
    exact hs
  | cons a acts ih =>
    obtain ⟨u, hu, h⟩ := run_cons.mp h
    exact ih (fun s b hb => hstep s b (List.mem_cons_of_mem _ hb))
      (hstep s a List.mem_cons_self u hs hu) h

end StepRuns
