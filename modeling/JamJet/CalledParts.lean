import JamJet.AtomicCalls

/-! Which parts a process comes to run when nobody else is about: the program it stands before,
call after call, and the rules for finding it in a sequence and in a loop. -/

namespace JamJet.AtomicCalls.Prog

variable {Op : Type → Type} {ε σ α β γ : Type}
  {handle : {β : Type} → Op β → σ → Except ε β × σ} {s t : σ}

/-- Run alone from a state, the process comes to stand before a program in another. -/
inductive Reaches (handle : {β : Type} → Op β → σ → Except ε β × σ) :
    Prog Op ε α → σ → Prog Op ε α → σ → Prop
  | here (p : Prog Op ε α) (s : σ) : Reaches @handle p s p s
  | call {β : Type} {op : Op β} {k : Except ε β → Prog Op ε α} {s t : σ} {q : Prog Op ε α}
      (h : Reaches @handle (k (handle op s).1) (handle op s).2 q t) :
      Reaches @handle (.call op k) s q t

/-- Run alone, the process comes to run `q` as a part of itself. -/
def Calls (handle : {β : Type} → Op β → σ → Except ε β × σ) (p : Prog Op ε α) (s : σ)
    (q : Prog Op ε β) : Prop :=
  ∃ k t, Reaches handle p s (q >>= k) t

theorem bind_call {op : Op γ} {k : Except ε γ → Prog Op ε α} {f : α → Prog Op ε β} :
    Prog.call op k >>= f = .call op fun r => k r >>= f := rfl

theorem attempt_call {op : Op γ} {k : Except ε γ → Prog Op ε α} :
    (Prog.call op k).attempt = .call op fun r => (k r).attempt := rfl

theorem alone_attempt (p : Prog Op ε α) (s : σ) :
    p.attempt.alone handle s = (.ok (p.alone handle s).1, (p.alone handle s).2) := by
  induction p generalizing s with
  | done r => rfl
  | call op k ih => exact ih _ _

theorem Within.alone {ok : {β : Type} → Op β → Prop} {p : Prog Op ε α} (hp : p.Within ok)
    {I : σ → Prop} (hok : ∀ {β : Type} (op : Op β) s, ok op → I s → I (handle op s).2) (hs : I s) :
    I (p.alone handle s).2 := by
  induction p generalizing s with
  | done r => exact hs
  | call op k ih => exact ih _ (hp.2 _) (hok op s hp.1 hs)

theorem Reaches.second {p : Prog Op ε α} {f : α → Prog Op ε β} {a : α} {u : σ}
    {q : Prog Op ε β} (hp : p.alone handle s = (.ok a, u)) (h : Reaches handle (f a) u q t) :
    Reaches handle (p >>= f) s q t := by
  induction p generalizing s with
  | done r =>
    obtain ⟨rfl, rfl⟩ := Prod.mk.inj hp
    exact h
  | call op k ih => exact .call (ih _ hp)

theorem Reaches.of_within {ok : {β : Type} → Op β → Prop} {p : Prog Op ε α}
    {f : α → Prog Op ε β} {op : Op γ} {k : Except ε γ → Prog Op ε β} (hp : p.Within ok)
    (hop : ¬ ok op) (h : Reaches handle (p >>= f) s (.call op k) t) :
    ∃ a, (p.alone handle s).1 = .ok a ∧ Reaches handle (f a) (p.alone handle s).2 (.call op k) t := by
  induction p generalizing s with
  | done r =>
    cases r with
    | ok a => exact ⟨a, rfl, h⟩
    | error e => cases h
  | call op' k' ih =>
    rw [bind_call] at h
    cases h with
    | here => exact absurd hp.1 hop
    | call h => exact ih _ (hp.2 _) h

theorem Reaches.of_attempt {ok : {β : Type} → Op β → Prop} {p : Prog Op ε α}
    {f : Except ε α → Prog Op ε β} {op : Op γ} {k : Except ε γ → Prog Op ε β} (hp : p.Within ok)
    (hop : ¬ ok op) (h : Reaches handle (p.attempt >>= f) s (.call op k) t) :
    Reaches handle (f (p.alone handle s).1) (p.alone handle s).2 (.call op k) t := by
  obtain ⟨a, ha, h⟩ := h.of_within hp.attempt hop
  rw [alone_attempt] at ha h
  cases ha
  exact h

section Loops

variable {f : α → Prog Op ε β} {xs : List α}

/-- A loop that attempts its body on each item, for the effects. -/
def attemptEach (xs : List α) (f : α → Prog Op ε β) : Prog Op ε Unit :=
  forEach xs fun x => do
    let _ ← (f x).attempt

theorem attemptEach_cons (x : α) (xs : List α) :
    attemptEach (x :: xs) f = (f x).attempt >>= fun _ => attemptEach xs f := by
  unfold attemptEach forEach
  rw [List.foldlM_cons]
  simp only [bind_eq]
  induction f x with
  | done r => rfl
  | call op k ih =>
    rw [attempt_call]
    simp only [bind]
    congr 1
    funext r
    exact ih r

theorem calls_attemptEach {x : α} (hx : x ∈ xs) (s : σ) :
    Calls handle (attemptEach xs f) s (f x).attempt := by
  induction xs generalizing s with
  | nil => simp at hx
  | cons y ys ih =>
    rw [attemptEach_cons]
    rcases List.mem_cons.mp hx with rfl | hx
    · exact ⟨_, s, .here _ _⟩
    · obtain ⟨k, t, h⟩ := ih hx ((f y).alone handle s).2
      exact ⟨k, t, .second (alone_attempt _ _) h⟩

/-- A call that each body makes at its start, if at all, is where the loop comes to an item. -/
theorem reaches_attemptEach {ok : {β : Type} → Op β → Prop} {op : Op γ}
    {k : Except ε γ → Prog Op ε Unit} (hop : ¬ ok op)
    (hf : ∀ x ∈ xs, ∃ (δ : Type) (first : Op δ) (rest : Except ε δ → Prog Op ε β),
      f x = .call first rest ∧ ∀ r, (rest r).Within ok)
    (h : Reaches handle (attemptEach xs f) s (.call op k) t) :
    ∃ x ∈ xs, ∃ k', .call op k = (f x).attempt >>= k' := by
  induction xs generalizing s with
  | nil => cases h
  | cons x xs ih =>
    obtain ⟨δ, first, rest, hfx, hrest⟩ := hf x (by simp)
    rw [attemptEach_cons] at h
    have hsplit : (∃ k', .call op k = (f x).attempt >>= k') ∨
        ∃ u, Reaches handle (attemptEach xs f) u (.call op k) t := by
      generalize hp : (f x).attempt >>= (fun _ => attemptEach xs f) = p at h
      cases h with
      | here => exact .inl ⟨_, hp.symm⟩
      | call h =>
        rw [hfx, attempt_call, bind_call] at hp
        cases hp
        exact .inr ⟨_, h.of_attempt (hrest _) hop⟩
    rcases hsplit with hhere | ⟨u, hlater⟩
    · exact ⟨x, by simp, hhere⟩
    · obtain ⟨y, hy, hk⟩ := ih (fun y hy => hf y (by simp [hy])) hlater
      exact ⟨y, by simp [hy], hk⟩

end Loops

end JamJet.AtomicCalls.Prog
