import Mathlib.Tactic.Common

/-! Walks from step to step over a state: what one run visits, and how its path is told from the
routing of each step alone. -/

namespace StepWalk

variable {σ S C : Type}

/-- A step is found at a cursor and, fired in a state, leaves a state and a cursor; `none` is for a
step that raises. -/
structure Walker (σ S C : Type) where
  stepAt : C → Option S
  fire : S → σ → Option (σ × C)

/-- Where a walk stands: the state, the steps behind it, and the cursor. -/
structure Position (σ S C : Type) where
  state : σ
  path : List S
  cursor : C

namespace Walker

variable (w : Walker σ S C)

/-- At most so many more steps. -/
def run : ℕ → Position σ S C → Option (Position σ S C)
  | 0, p => some p
  | rounds + 1, p =>
      match w.stepAt p.cursor with
      | none => some p
      | some step => do
          let (state, cursor) ← w.fire step p.state
          run rounds ⟨state, p.path ++ [step], cursor⟩

/-- The path from a cursor on, up to where no step is found. -/
def Walks : C → σ → List S → Prop
  | c, _, [] => w.stepAt c = none
  | c, s, step :: path =>
      w.stepAt c = some step ∧ ∃ s' c', w.fire step s = some (s', c') ∧ Walks c' s' path

end Walker

/-- Each step of the path passes on to the next one, and the last one ends it. -/
def Linked (passes : S → σ → S → σ → Prop) (ends : S → σ → Prop) : σ → List S → Prop
  | _, [] => True
  | s, [step] => ends step s
  | s, step :: other :: path => ∃ s', passes step s other s' ∧ Linked passes ends s' (other :: path)

variable {w : Walker σ S C} {c : C} {s : σ} {path path' : List S}

theorem Walker.Walks.unique (h : w.Walks c s path) (h' : w.Walks c s path') : path = path' := by
  induction path generalizing c s path' with
  | nil =>
    cases path' with
    | nil => rfl
    | cons step path' => exact absurd (h.symm.trans h'.1) (by simp)
  | cons step path ih =>
    obtain ⟨hstep, s', c', hfire, hwalks⟩ := h
    cases path' with
    | nil => exact absurd (hstep.symm.trans h') (by simp)
    | cons step' path' =>
      obtain ⟨hstep', s'', c'', hfire', hwalks'⟩ := h'
      cases hstep.symm.trans hstep'
      cases hfire.symm.trans hfire'
      rw [ih hwalks hwalks']

/-- A run that stops where no step is found has walked a path. -/
theorem Walker.walks_of_run {rounds : ℕ} {p q : Position σ S C} (h : w.run rounds p = some q)
    (hends : w.stepAt q.cursor = none) :
    ∃ path, w.Walks p.cursor p.state path ∧ q.path = p.path ++ path := by
  induction rounds generalizing p with
  | zero =>
    cases h
    exact ⟨[], hends, (List.append_nil _).symm⟩
  | succ rounds ih =>
    rw [run] at h
    split at h
    · next hstep =>
      cases h
      exact ⟨[], hstep, (List.append_nil _).symm⟩
    · next step hstep =>
      obtain ⟨⟨s', c'⟩, hfire, hrest⟩ := Option.bind_eq_some_iff.mp h
      obtain ⟨path, hwalks, hpath⟩ := ih hrest
      refine ⟨step :: path, ⟨hstep, s', c', hfire, hwalks⟩, ?_⟩
      rw [hpath, List.append_assoc, List.singleton_append]

/-- A walk is a linked path from its first step. -/
theorem Walker.walks_iff {passes : S → σ → S → σ → Prop} {ends : S → σ → Prop}
    (hpasses : ∀ x s y s', passes x s y s' ↔ ∃ c, w.fire x s = some (s', c) ∧ w.stepAt c = some y)
    (hends : ∀ x s, ends x s ↔ ∃ s' c, w.fire x s = some (s', c) ∧ w.stepAt c = none) :
    w.Walks c s path ↔ path.head? = w.stepAt c ∧ Linked passes ends s path := by
  induction path generalizing c s with
  | nil => exact ⟨fun h => ⟨h.symm, trivial⟩, fun h => h.1.symm⟩
  | cons step path ih =>
    constructor
    · rintro ⟨hstep, s', c', hfire, hwalks⟩
      refine ⟨hstep.symm, ?_⟩
      cases path with
      | nil => exact (hends step s).mpr ⟨s', c', hfire, hwalks⟩
      | cons other path =>
        exact ⟨s', (hpasses step s other s').mpr ⟨c', hfire, hwalks.1⟩, (ih.mp hwalks).2⟩
    · rintro ⟨hstep, hlinked⟩
      refine ⟨hstep.symm, ?_⟩
      cases path with
      | nil => exact (hends step s).mp hlinked
      | cons other path =>
        obtain ⟨s', hpass, hlinked⟩ := hlinked
        obtain ⟨c', hfire, hother⟩ := (hpasses step s other s').mp hpass
        exact ⟨s', c', hfire, ih.mpr ⟨hother.symm, hlinked⟩⟩

end StepWalk
