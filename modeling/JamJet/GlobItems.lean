import Mathlib.Data.List.Forall2
import Mathlib.Tactic.Common

/-! Patterns that are a sequence of items, each for one symbol or for a run of symbols, and words
over any alphabet that such a pattern accepts. -/

namespace JamJet.Glob

variable {α β : Type}

/-- One symbol, or a run of symbols, of those a predicate allows. -/
inductive Item (α : Type)
  | one (allowed : α → Bool)
  | run (allowed : α → Bool)

/-- What may be left of a word behind a run. -/
def rests (allowed : α → Bool) : List α → List (List α)
  | [] => [[]]
  | a :: word => (a :: word) :: if allowed a then rests allowed word else []

/-- The pattern accepts the whole word. -/
def accepts : List (Item α) → List α → Bool
  | [], word => word.isEmpty
  | .one _ :: _, [] => false
  | .one allowed :: items, a :: word => allowed a && accepts items word
  | .run allowed :: items, word => (rests allowed word).any (accepts items)

/-- Two items over different alphabets that do the same to the symbols in question. -/
inductive Item.Agrees (f : α → β) (S : α → Prop) : Item α → Item β → Prop
  | one {p : α → Bool} {q : β → Bool} (h : ∀ a, S a → q (f a) = p a) : Agrees f S (.one p) (.one q)
  | run {p : α → Bool} {q : β → Bool} (h : ∀ a, S a → q (f a) = p a) : Agrees f S (.run p) (.run q)

variable {f : α → β} {S : α → Prop} {word : List α}

theorem rests_map {p : α → Bool} {q : β → Bool} (h : ∀ a, S a → q (f a) = p a)
    (hword : ∀ a ∈ word, S a) : rests q (word.map f) = (rests p word).map (List.map f) := by
  induction word with
  | nil => rfl
  | cons a word ih =>
    have ha : q (f a) = p a := h a (hword a (by simp))
    have hrest := ih fun b hb => hword b (by simp [hb])
    rw [List.map_cons, rests, rests, ha, hrest]
    cases p a <;> simp

theorem mem_of_mem_rests {p : α → Bool} {rest : List α} (h : rest ∈ rests p word) :
    ∀ a ∈ rest, a ∈ word := by
  induction word with
  | nil => simp_all [rests]
  | cons a word ih =>
    unfold rests at h
    rcases List.mem_cons.mp h with rfl | h
    · exact fun b hb => hb
    · cases hp : p a with
      | true =>
        simp only [hp, if_true] at h
        exact fun b hb => List.mem_cons_of_mem _ (ih h b hb)
      | false => simp [hp] at h

/-- Patterns that agree item by item accept the same words. -/
theorem accepts_map {items : List (Item α)} {items' : List (Item β)}
    (h : List.Forall₂ (Item.Agrees f S) items items') (hword : ∀ a ∈ word, S a) :
    accepts items' (word.map f) = accepts items word := by
  induction h generalizing word with
  | nil => cases word <;> rfl
  | @cons item item' items items' hitem _ ih =>
    cases hitem with
    | one hone =>
      cases word with
      | nil => rfl
      | cons a word =>
        rw [List.map_cons, accepts, accepts, hone a (hword a (by simp)),
          ih fun b hb => hword b (by simp [hb])]
    | @run p q hrun =>
      have hrests : ∀ rest ∈ rests p word, accepts items' (rest.map f) = accepts items rest :=
        fun rest hrest => ih fun a ha => hword a (mem_of_mem_rests hrest a ha)
      rw [accepts, accepts, rests_map hrun hword, List.any_map, Bool.eq_iff_iff, List.any_eq_true,
        List.any_eq_true]
      constructor
      · rintro ⟨rest, hrest, h⟩
        exact ⟨rest, hrest, (hrests rest hrest).symm.trans h⟩
      · rintro ⟨rest, hrest, h⟩
        exact ⟨rest, hrest, (hrests rest hrest).trans h⟩

end JamJet.Glob
