import Mathlib.Data.List.Forall2
import Mathlib.Tactic.Common

/-! Sequences of pieces, each closed by a separator, and how much of the pieces their
concatenation determines. -/

namespace JamJet

namespace Delimited

variable {α : Type} {sep : α}

/-- The pieces one after the other, each with the separator after it. -/
def closed (sep : α) (pieces : List (List α)) : List α := pieces.flatMap (· ++ [sep])

@[simp]
theorem closed_nil : closed sep [] = [] := rfl

theorem closed_cons (p : List α) (ps : List (List α)) :
    closed sep (p :: ps) = p ++ sep :: closed sep ps := by
  simp [closed]

variable [DecidableEq α]

/-- Two pieces that end at the same place in whatever they begin: they are equally long, or hold
the separator equally often. -/
def Matched (sep : α) (p q : List α) : Prop :=
  p.length = q.length ∨ p.count sep = q.count sep

/-- The piece before the separator that follows `n` others. -/
theorem count_append_inj {p q r s : List α} (hcount : p.count sep = q.count sep)
    (h : p ++ sep :: r = q ++ sep :: s) : p = q ∧ r = s := by
  induction p generalizing q with
  | nil =>
    cases q with
    | nil => exact ⟨rfl, (List.cons.inj h).2⟩
    | cons b q =>
      -- the separator that closes the empty piece would be one of the other's own
      obtain ⟨rfl, -⟩ := List.cons.inj h
      simp at hcount
  | cons a p ih =>
    cases q with
    | nil =>
      obtain ⟨rfl, -⟩ := List.cons.inj h
      simp at hcount
    | cons b q =>
      obtain ⟨rfl, htail⟩ := List.cons.inj h
      have hrest : p.count sep = q.count sep := by
        rw [List.count_cons, List.count_cons] at hcount
        exact Nat.add_right_cancel hcount
      obtain ⟨rfl, rfl⟩ := ih hrest htail
      exact ⟨rfl, rfl⟩

theorem last_append_inj {p q r s : List α} (hr : sep ∉ r) (hs : sep ∉ s)
    (h : p ++ sep :: r = q ++ sep :: s) : p = q ∧ r = s := by
  have hreverse := congrArg List.reverse h
  simp only [List.reverse_append, List.reverse_cons, List.append_assoc, List.singleton_append]
    at hreverse
  have hcount : r.reverse.count sep = s.reverse.count sep := by
    rw [List.count_eq_zero.mpr (by simpa using hr), List.count_eq_zero.mpr (by simpa using hs)]
  obtain ⟨hrest, hlead⟩ := count_append_inj hcount hreverse
  exact ⟨List.reverse_inj.mp hlead, List.reverse_inj.mp hrest⟩

theorem Matched.append_inj {p q r s : List α} (hm : Matched sep p q)
    (h : p ++ sep :: r = q ++ sep :: s) : p = q ∧ r = s := by
  rcases hm with hlength | hcount
  · obtain ⟨hpq, htail⟩ := List.append_inj h hlength
    exact ⟨hpq, (List.cons.inj htail).2⟩
  · exact count_append_inj hcount h

theorem closed_inj {ps qs : List (List α)} (hm : List.Forall₂ (Matched sep) ps qs)
    (h : closed sep ps = closed sep qs) : ps = qs := by
  induction hm with
  | nil => rfl
  | cons hpq hrest ih =>
    rw [closed_cons, closed_cons] at h
    obtain ⟨rfl, htail⟩ := hpq.append_inj h
    rw [ih htail]

end Delimited

end JamJet
