import Mathlib.Data.Finset.Card
import Mathlib.Order.Bounds.Basic
import Mathlib.Tactic.Common

/-! Saturation by rounds: each round adds everything that has become derivable, until a round
finds nothing new.  The result is the least saturated set, and a universe of `n` elements needs
at most `n` rounds that add something. -/

namespace JamJet

/-- What is newly derivable from a set, within a finite universe; more given, no less derived. -/
structure Derivation (α : Type) [DecidableEq α] where
  univ : Finset α
  fresh : Finset α → Finset α
  fresh_sub : ∀ S, fresh S ⊆ univ \ S
  mono : ∀ {S T}, S ⊆ T → fresh S ⊆ T ∪ fresh T

namespace Derivation

variable {α : Type} [DecidableEq α] (D : Derivation α) {S T : Finset α} {n : ℕ}

def Saturated (S : Finset α) : Prop := D.fresh S = ∅

/-- At most `n` rounds, stopping at the first that finds nothing. -/
def rounds : ℕ → Finset α → Finset α
  | 0, S => S
  | n + 1, S => if D.fresh S = ∅ then S else rounds n (S ∪ D.fresh S)

variable {D}

theorem subset_rounds : S ⊆ D.rounds n S := by
  induction n generalizing S with
  | zero => exact Finset.Subset.refl S
  | succ n ih =>
    unfold rounds
    split
    · exact Finset.Subset.refl S
    · exact Finset.subset_union_left.trans ih

theorem rounds_subset_of_saturated (hST : S ⊆ T) (hT : D.Saturated T) : D.rounds n S ⊆ T := by
  induction n generalizing S with
  | zero => exact hST
  | succ n ih =>
    unfold rounds
    split
    · exact hST
    · refine ih (Finset.union_subset hST ?_)
      have hfresh := D.mono hST
      rw [Saturated] at hT
      rwa [hT, Finset.union_empty] at hfresh

theorem card_left_lt (h : D.fresh S ≠ ∅) :
    (D.univ \ (S ∪ D.fresh S)).card < (D.univ \ S).card := by
  refine Finset.card_lt_card ⟨?_, ?_⟩
  · exact Finset.sdiff_subset_sdiff (Finset.Subset.refl _) Finset.subset_union_left
  · intro hsub
    obtain ⟨a, ha⟩ := Finset.nonempty_iff_ne_empty.mpr h
    have hleft := hsub (D.fresh_sub S ha)
    simp [ha] at hleft

theorem saturated_rounds (hn : (D.univ \ S).card < n) : D.Saturated (D.rounds n S) := by
  induction n generalizing S with
  | zero => omega
  | succ n ih =>
    unfold rounds
    split
    · assumption
    · rename_i h
      have hlt := card_left_lt h
      exact ih (by omega)

theorem mem_rounds {a : α} (ha : a ∈ D.rounds n S) :
    a ∈ S ∨ ∃ T, T ⊆ D.rounds n S ∧ a ∈ D.fresh T := by
  induction n generalizing S with
  | zero => exact .inl ha
  | succ n ih =>
    unfold rounds at ha ⊢
    split at ha
    · exact .inl ha
    · rename_i h
      simp only [h, if_false]
      rcases ih ha with hmem | hlater
      · rcases Finset.mem_union.mp hmem with hS | hfresh
        · exact .inl hS
        · exact .inr ⟨S, Finset.subset_union_left.trans subset_rounds, hfresh⟩
      · exact .inr hlater

theorem rounds_isLeast (hn : D.univ.card < n) :
    IsLeast {T | S ⊆ T ∧ D.Saturated T} (D.rounds n S) := by
  refine ⟨⟨subset_rounds, saturated_rounds ?_⟩, fun T hT => rounds_subset_of_saturated hT.1 hT.2⟩
  exact (Finset.card_le_card Finset.sdiff_subset).trans_lt hn

end Derivation

end JamJet
