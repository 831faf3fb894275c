import Mathlib.Data.List.Sublists
import Mathlib.Logic.Function.Basic

/-! Callers that edit one shared value, each by taking a copy, editing the copy and writing it
back.  Whose edits the value carries in the end is decided by the order of these accesses. -/

namespace JamJet

/-- One access to the shared value. -/
inductive Access (ι : Type)
  | read (i : ι)
  | write (i : ι)
  deriving DecidableEq, Repr

/-- Whose edits the shared value carries, and whose the copy of each caller, in their order. -/
structure Lineage (ι : Type) where
  carried : List ι := []
  copy : ι → List ι := fun _ => []

namespace Lineage

variable {ι : Type} [DecidableEq ι]

def step (L : Lineage ι) : Access ι → Lineage ι
  | .read i => { L with copy := Function.update L.copy i L.carried }
  | .write i => { L with carried := L.copy i ++ [i] }

/-- After these accesses, the latest first. -/
def after : List (Access ι) → Lineage ι
  | [] => {}
  | a :: trace => (after trace).step a

/-- Those who wrote, in their order. -/
def writers : List (Access ι) → List ι
  | [] => []
  | .read _ :: trace => writers trace
  | .write i :: trace => writers trace ++ [i]

/-- Somebody has written since the caller took its copy. -/
def stale (i : ι) : List (Access ι) → Bool
  | [] => false
  | .read j :: trace => i ≠ j && stale i trace
  | .write _ :: _ => true

/-- Some caller wrote back a stale copy. -/
def lossy : List (Access ι) → Bool
  | [] => false
  | .read _ :: trace => lossy trace
  | .write i :: trace => stale i trace || lossy trace

variable {trace : List (Access ι)} {i : ι}

@[simp]
theorem copy_read : (after (.read i :: trace)).copy i = (after trace).carried := by
  simp [after, step]

theorem copy_read_of_ne {j : ι} (h : j ≠ i) :
    (after (.read i :: trace)).copy j = (after trace).copy j := by simp [after, step, h]

theorem copy_sublist (trace : List (Access ι)) :
    (after trace).carried.Sublist (writers trace) ∧
      ∀ i, ((after trace).copy i).Sublist (writers trace) := by
  induction trace with
  | nil => exact ⟨List.Sublist.refl _, fun _ => List.Sublist.refl _⟩
  | cons a trace ih =>
    obtain ⟨hcarried, hcopy⟩ := ih
    cases a with
    | read j =>
      refine ⟨hcarried, fun i => ?_⟩
      by_cases hij : i = j
      · subst hij
        rw [copy_read]
        exact hcarried
      · rw [copy_read_of_ne hij]
        exact hcopy i
    | write j =>
      exact ⟨(hcopy j).append (List.Sublist.refl [j]),
        fun i => (hcopy i).trans (List.sublist_append_left _ [j])⟩

/-- A copy that is not stale carries what the value carries; a stale one misses a writer. -/
theorem copy_of_stale (i : ι) (trace : List (Access ι)) :
    if stale i trace then ((after trace).copy i).length < (writers trace).length
    else (after trace).copy i = (after trace).carried := by
  induction trace with
  | nil => rfl
  | cons a trace ih =>
    cases a with
    | read j =>
      by_cases hij : i = j
      · subst hij
        simp [stale, after, step]
      · simpa [stale, after, step, writers, hij] using ih
    | write j =>
      have hle := ((copy_sublist trace).2 i).length_le
      simp only [stale, after, step, writers, List.length_append, List.length_singleton, if_true]
      omega

/-- The value carries every writer's edit unless a stale copy was written, and then it misses one. -/
theorem carried_of_lossy (trace : List (Access ι)) :
    if lossy trace then (after trace).carried.length < (writers trace).length
    else (after trace).carried = writers trace := by
  induction trace with
  | nil => rfl
  | cons a trace ih =>
    cases a with
    | read j => exact ih
    | write j =>
      have hcopy := copy_of_stale j trace
      simp only [lossy, after, step, writers, List.length_append, List.length_singleton]
      cases hstale : stale j trace with
      | true =>
        have hlt : ((after trace).copy j).length < (writers trace).length := by
          simpa [hstale] using hcopy
        simpa using hlt
      | false =>
        have hsame : (after trace).copy j = (after trace).carried := by simpa [hstale] using hcopy
        rw [hsame]
        cases hlossy : lossy trace <;> simpa [hlossy] using ih

theorem carried_eq_writers (h : lossy trace = false) : (after trace).carried = writers trace := by
  simpa [h] using carried_of_lossy trace

theorem exists_lost (hnodup : (writers trace).Nodup) (h : lossy trace = true) :
    ∃ i ∈ writers trace, i ∉ (after trace).carried := by
  have hlt : (after trace).carried.length < (writers trace).length := by
    simpa [h] using carried_of_lossy trace
  by_contra hall
  simp only [not_exists, not_and, not_not] at hall
  have hle := (hnodup.subperm hall).length_le
  omega

end Lineage

end JamJet
