import Mathlib.Data.List.Basic
import Mathlib.Tactic.Common

/-! Regular expressions as backtracking engines run them: every operator is greedy, a match is the
first one in the order of preference at the leftmost position that has one, and the search goes on
behind it.  Letters are of any type. -/

namespace Regex

variable {α : Type}

inductive Body (α : Type)
  /-- one letter of a class -/
  | one (p : α → Bool)
  | seq (a b : Body α)
  /-- `a?` -/
  | opt (a : Body α)
  /-- `a{min,max}` -/
  | times (a : Body α) (min max : ℕ)
  /-- `p{min,}`, of a class -/
  | many (p : α → Bool) (min : ℕ)

/-- One body after the other. -/
def Body.all : List (Body α) → Body α
  | [] => .times (.one fun _ => false) 0 0
  | [body] => body
  | body :: bodies => .seq body (Body.all bodies)

/-- A body, and whether it stands between two `\b`. -/
structure Pattern (α : Type) where
  bounded : Bool
  body : Body α

/-! ### What a body spells -/

def Body.Spells : Body α → List α → Prop
  | .one p, w => ∃ a, w = [a] ∧ p a = true
  | .seq a b, w => ∃ u v, w = u ++ v ∧ a.Spells u ∧ b.Spells v
  | .opt a, w => a.Spells w ∨ w = []
  | .times a min max, w => ∃ ws : List (List α), w = ws.flatten ∧ (∀ u ∈ ws, a.Spells u) ∧
      min ≤ ws.length ∧ ws.length ≤ max
  | .many p min, w => (∀ a ∈ w, p a = true) ∧ min ≤ w.length

/-- What is left of a text behind each way to go through so many repetitions, longest first. -/
def timesRests (rests : List α → List (List α)) : ℕ → ℕ → List α → List (List α)
  | min, 0, s => if min = 0 then [s] else []
  | min, max + 1, s =>
    (rests s).flatMap (timesRests rests (min - 1) max) ++ if min = 0 then [s] else []

def manyRests (p : α → Bool) : ℕ → List α → List (List α)
  | min, [] => if min = 0 then [[]] else []
  | min, a :: s =>
    (if p a then manyRests p (min - 1) s else []) ++ if min = 0 then [a :: s] else []

/-- What is left of a text behind each match at its start, in the order of preference. -/
def Body.rests : Body α → List α → List (List α)
  | .one _, [] => []
  | .one p, a :: s => if p a then [s] else []
  | .seq a b, s => (a.rests s).flatMap b.rests
  | .opt a, s => a.rests s ++ [s]
  | .times a min max, s => timesRests a.rests min max s
  | .many p min, s => manyRests p min s

theorem mem_manyRests {p : α → Bool} {min : ℕ} {s rest : List α} :
    rest ∈ manyRests p min s ↔ ∃ w, s = w ++ rest ∧ (∀ a ∈ w, p a = true) ∧ min ≤ w.length := by
  induction s generalizing min with
  | nil =>
    constructor
    · intro h
      unfold manyRests at h
      split at h
      · next hmin => exact ⟨[], by simpa using h, by simp, by simp [hmin]⟩
      · simp at h
    · rintro ⟨w, hs, -, hmin⟩
      obtain ⟨rfl, rfl⟩ := List.append_eq_nil_iff.mp hs.symm
      simp [manyRests, Nat.le_zero.mp hmin]
  | cons b s ih =>
    unfold manyRests
    rw [List.mem_append]
    constructor
    · rintro (h | h)
      · split at h
        · next hb =>
          obtain ⟨w, rfl, hw, hmin⟩ := ih.mp h
          exact ⟨b :: w, rfl, by simpa [hb] using hw, by rw [List.length_cons]; omega⟩
        · simp at h
      · split at h
        · next hmin =>
          exact ⟨[], by simpa using (List.mem_singleton.mp h).symm, by simp, by simp [hmin]⟩
        · simp at h
    · rintro ⟨w, hs, hw, hmin⟩
      cases w with
      | nil =>
        right
        simp [Nat.le_zero.mp hmin, ← show b :: s = rest from hs]
      | cons a w =>
        left
        obtain ⟨rfl, rfl⟩ := List.cons.inj hs
        rw [if_pos (hw _ List.mem_cons_self)]
        refine ih.mpr ⟨w, rfl, fun c hc => hw c (List.mem_cons_of_mem _ hc), ?_⟩
        rw [List.length_cons] at hmin
        omega

theorem mem_timesRests {rests : List α → List (List α)} {P : List α → Prop}
    (hrests : ∀ s rest, rest ∈ rests s ↔ ∃ w, s = w ++ rest ∧ P w) {min max : ℕ}
    {s rest : List α} : rest ∈ timesRests rests min max s ↔
      ∃ ws : List (List α), s = ws.flatten ++ rest ∧ (∀ u ∈ ws, P u) ∧
        min ≤ ws.length ∧ ws.length ≤ max := by
  induction max generalizing min s with
  | zero =>
    constructor
    · intro h
      unfold timesRests at h
      split at h
      · next hmin =>
        exact ⟨[], by simpa using (List.mem_singleton.mp h).symm, by simp, by simp [hmin], Nat.le_refl _⟩
      · simp at h
    · rintro ⟨ws, hs, -, hmin, hmax⟩
      obtain rfl := List.eq_nil_of_length_eq_zero (Nat.le_zero.mp hmax)
      simp only [List.flatten_nil, List.nil_append] at hs
      simp [timesRests, Nat.le_zero.mp hmin, hs]
  | succ max ih =>
    unfold timesRests
    rw [List.mem_append, List.mem_flatMap]
    constructor
    · rintro (⟨t, ht, h⟩ | h)
      · obtain ⟨w, rfl, hw⟩ := (hrests _ _).mp ht
        obtain ⟨ws, rfl, hws, hmin, hmax⟩ := ih.mp h
        refine ⟨w :: ws, by simp, by simpa [hw] using hws, ?_, ?_⟩
        all_goals rw [List.length_cons]; omega
      · split at h
        · next hmin =>
          exact ⟨[], by simpa using (List.mem_singleton.mp h).symm, by simp, by simp [hmin], by simp⟩
        · simp at h
    · rintro ⟨ws, hs, hws, hmin, hmax⟩
      cases ws with
      | nil =>
        right
        simp only [List.flatten_nil, List.nil_append] at hs
        simp [Nat.le_zero.mp hmin, hs]
      | cons w ws =>
        left
        rw [List.flatten_cons, List.append_assoc] at hs
        rw [List.length_cons] at hmin hmax
        exact ⟨ws.flatten ++ rest, (hrests _ _).mpr ⟨w, hs, hws w List.mem_cons_self⟩,
          ih.mpr ⟨ws, rfl, fun u hu => hws u (List.mem_cons_of_mem _ hu), by omega, by omega⟩⟩

/-- The engine goes through just the words that the body spells. -/
theorem Body.mem_rests (body : Body α) (s rest : List α) :
    rest ∈ body.rests s ↔ ∃ w, s = w ++ rest ∧ body.Spells w := by
  induction body generalizing s rest with
  | one p =>
    constructor
    · intro h
      cases s with
      | nil => simp [Body.rests] at h
      | cons a s =>
        unfold Body.rests at h
        split at h
        · next ha => exact ⟨[a], by rw [List.mem_singleton.mp h]; rfl, a, rfl, ha⟩
        · simp at h
    · rintro ⟨_, rfl, a, rfl, ha⟩
      simp [Body.rests, ha]
  | seq a b iha ihb =>
    simp only [Body.rests, List.mem_flatMap, iha, ihb, Body.Spells]
    constructor
    · rintro ⟨_, ⟨u, rfl, hu⟩, v, rfl, hv⟩
      exact ⟨u ++ v, by simp, u, v, rfl, hu, hv⟩
    · rintro ⟨_, rfl, u, v, rfl, hu, hv⟩
      exact ⟨v ++ rest, ⟨u, by simp, hu⟩, v, rfl, hv⟩
  | opt a ih =>
    simp only [Body.rests, List.mem_append, List.mem_singleton, ih, Body.Spells]
    constructor
    · rintro (⟨w, hs, hw⟩ | rfl)
      · exact ⟨w, hs, .inl hw⟩
      · exact ⟨[], rfl, .inr rfl⟩
    · rintro ⟨w, hs, hw | rfl⟩
      · exact .inl ⟨w, hs, hw⟩
      · exact .inr hs.symm
  | times a min max ih =>
    rw [Body.rests, mem_timesRests ih]
    constructor
    · rintro ⟨ws, hs, hws, hmin, hmax⟩
      exact ⟨ws.flatten, hs, ws, rfl, hws, hmin, hmax⟩
    · rintro ⟨_, hs, ws, rfl, hws, hmin, hmax⟩
      exact ⟨ws, hs, hws, hmin, hmax⟩
  | many p min => exact mem_manyRests

/-- The letters that can stand in a word of a body. -/
def Body.Has : Body α → α → Prop
  | .one p, c => p c = true
  | .seq a b, c => a.Has c ∨ b.Has c
  | .opt a, c => a.Has c
  | .times a _ _, c => a.Has c
  | .many p _, c => p c = true

theorem Body.has_of_spells {body : Body α} {w : List α} (h : body.Spells w) :
    ∀ c ∈ w, body.Has c := by
  induction body generalizing w with
  | one p =>
    obtain ⟨a, rfl, ha⟩ := h
    exact fun c hc => List.mem_singleton.mp hc ▸ ha
  | seq a b iha ihb =>
    obtain ⟨u, v, rfl, hu, hv⟩ := h
    intro c hc
    exact (List.mem_append.mp hc).imp (iha hu c) (ihb hv c)
  | opt a ih =>
    rcases h with h | rfl
    · exact ih h
    · exact fun c hc => by cases hc
  | times a min max ih =>
    obtain ⟨ws, rfl, hws, -⟩ := h
    intro c hc
    obtain ⟨u, hu, hc⟩ := List.mem_flatten.mp hc
    exact ih (hws u hu) c hc
  | many p min => exact h.1

theorem Body.spells_times_one {p : α → Bool} {min max : ℕ} {w : List α} :
    (Body.times (.one p) min max).Spells w ↔
      (∀ a ∈ w, p a = true) ∧ min ≤ w.length ∧ w.length ≤ max := by
  constructor
  · rintro ⟨ws, rfl, hws, hmin, hmax⟩
    have hlength : ws.flatten.length = ws.length := by
      clear hmin hmax
      induction ws with
      | nil => rfl
      | cons u ws ih =>
        obtain ⟨a, rfl, -⟩ := hws u List.mem_cons_self
        simp [ih fun v hv => hws v (List.mem_cons_of_mem _ hv)]
    refine ⟨fun a ha => ?_, hlength.symm ▸ hmin, hlength.symm ▸ hmax⟩
    obtain ⟨u, hu, ha⟩ := List.mem_flatten.mp ha
    obtain ⟨b, rfl, hb⟩ := hws u hu
    exact List.mem_singleton.mp ha ▸ hb
  · rintro ⟨hw, hmin, hmax⟩
    refine ⟨w.map fun a => [a], by simp [← List.flatMap_def], fun u hu => ?_, by simpa, by simpa⟩
    obtain ⟨a, ha, rfl⟩ := List.mem_map.mp hu
    exact ⟨a, rfl, hw a ha⟩

/-! ### Matches in a text -/

section Search

variable (word : α → Bool)

/-- `\b` between two letters, or at an end of the text. -/
def boundary (prev next : Option α) : Bool := prev.any word != next.any word

/-- The letter before the rest of a text, when a word has been read behind some letter. -/
def lastOf (prev : Option α) (w : List α) : Option α := w.getLast?.or prev

/-- A word is matched behind a letter and before a rest. -/
structure Pattern.Matches (p : Pattern α) (prev : Option α) (w rest : List α) : Prop where
  spells : p.body.Spells w
  opens : p.bounded = true → boundary word prev (w ++ rest).head? = true
  closes : p.bounded = true → boundary word (lastOf prev w) rest.head? = true

/-- The part of a text that is left out of a rest. -/
def before (s rest : List α) : List α := s.take (s.length - rest.length)

@[simp]
theorem before_append (w rest : List α) : before (w ++ rest) rest = w := by
  simp [before]

/-- The preferred match at the start of a text. -/
def Pattern.matchAt (p : Pattern α) (prev : Option α) (s : List α) : Option (List α) :=
  if p.bounded && !boundary word prev s.head? then none
  else
    let closing := (p.body.rests s).find? fun rest =>
      !p.bounded || boundary word (lastOf prev (before s rest)) rest.head?
    closing.map (before s)

variable {word} {p : Pattern α} {prev : Option α} {s w rest : List α}

theorem Pattern.matches_of_matchAt (h : p.matchAt word prev s = some w) :
    ∃ rest, s = w ++ rest ∧ p.Matches word prev w rest := by
  unfold Pattern.matchAt at h
  split at h
  · cases h
  · next hopens =>
    obtain ⟨rest, hfind, hw⟩ := Option.map_eq_some_iff.mp h
    obtain ⟨v, rfl, hv⟩ := (p.body.mem_rests s rest).mp (List.mem_of_find?_eq_some hfind)
    have hcloses := List.find?_some hfind
    rw [before_append] at hw hcloses
    subst hw
    exact ⟨rest, rfl, hv, by grind, by grind⟩

theorem Pattern.not_matches_of_matchAt (h : p.matchAt word prev (w ++ rest) = none) :
    ¬ p.Matches word prev w rest := by
  intro hm
  unfold Pattern.matchAt at h
  split at h
  · next hopens =>
    have hbounded := hm.opens
    grind
  · rw [Option.map_eq_none_iff, List.find?_eq_none] at h
    have hnot := h rest ((p.body.mem_rests _ rest).mpr ⟨w, rfl, hm.spells⟩)
    rw [before_append] at hnot
    have hcloses := hm.closes
    grind

variable (word)

/-- A text as a search goes through it: letters that it passes by, and matches. -/
inductive Piece (α : Type)
  | kept (a : α)
  | matched (w : List α)

/-- The search, from behind a letter, with so many letters of the last match still to come.  An
empty match is passed by. -/
def Pattern.scan (p : Pattern α) : Option α → ℕ → List α → List (Piece α)
  | _, _, [] => []
  | _, skip + 1, a :: s => p.scan (some a) skip s
  | prev, 0, a :: s =>
    match p.matchAt word prev (a :: s) with
    | some (_ :: w) => .matched (a :: w) :: p.scan (some a) w.length s
    | _ => .kept a :: p.scan (some a) 0 s

/-- A piece when every match is replaced. -/
def Piece.replace (f : List α → List α) : Piece α → List α
  | .kept a => [a]
  | .matched w => f w

/-- `replace_all`. -/
def Pattern.replaceAll (p : Pattern α) (f : List α → List α) (s : List α) : List α :=
  (p.scan word none 0 s).flatMap (Piece.replace f)

/-- `finditer`: the matches with where they begin and end, when so many letters come before. -/
def spans : ℕ → List (Piece α) → List (List α × ℕ × ℕ)
  | _, [] => []
  | pos, .kept _ :: pieces => spans (pos + 1) pieces
  | pos, .matched w :: pieces => (w, pos, pos + w.length) :: spans (pos + w.length) pieces

def Pattern.finditer (p : Pattern α) (s : List α) : List (List α × ℕ × ℕ) :=
  spans 0 (p.scan word none 0 s)

end Search

end Regex
