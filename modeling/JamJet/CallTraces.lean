import JamJet.AtomicCalls

/-! The calls a process makes, each with the answer it got, whoever answers them: what is true of
every run of a sequence, an attempt or a loop follows from its parts. -/

namespace JamJet.AtomicCalls

universe u

/-- A call with its answer. -/
structure Answered (Op : Type → Type) (ε : Type) : Type 1 where
  {β : Type}
  op : Op β
  reply : Except ε β

namespace Prog

variable {Op : Type → Type} {ε α β : Type}

/-- Making these calls, with these answers, the process ends with this result. -/
def Ran : Prog Op ε α → List (Answered Op ε) → Except ε α → Prop
  | .done r', calls, r => calls = [] ∧ r = r'
  | .call op k, calls, r => ∃ reply rest, calls = ⟨op, reply⟩ :: rest ∧ (k reply).Ran rest r

variable {calls : List (Answered Op ε)}

@[simp]
theorem ran_pure {a : α} {r : Except ε α} :
    (pure a : Prog Op ε α).Ran calls r ↔ calls = [] ∧ r = .ok a := Iff.rfl

theorem ran_perform {op : Op α} {r : Except ε α} :
    (perform op : Prog Op ε α).Ran calls r ↔ calls = [⟨op, r⟩] := by
  constructor
  · rintro ⟨reply, rest, rfl, rfl, rfl⟩
    rfl
  · rintro rfl
    exact ⟨r, [], rfl, rfl, rfl⟩

theorem ran_attempt {p : Prog Op ε α} {r : Except ε (Except ε α)} :
    p.attempt.Ran calls r ↔ ∃ r', p.Ran calls r' ∧ r = .ok r' := by
  induction p generalizing calls with
  | done r' =>
    constructor
    · rintro ⟨rfl, rfl⟩
      exact ⟨r', ⟨rfl, rfl⟩, rfl⟩
    · rintro ⟨_, ⟨rfl, rfl⟩, rfl⟩
      exact ⟨rfl, rfl⟩
  | call op k ih =>
    constructor
    · rintro ⟨reply, rest, rfl, h⟩
      obtain ⟨r', hr, rfl⟩ := (ih reply).mp h
      exact ⟨r', ⟨reply, rest, rfl, hr⟩, rfl⟩
    · rintro ⟨r', ⟨reply, rest, rfl, h⟩, rfl⟩
      exact ⟨reply, rest, rfl, (ih reply).mpr ⟨r', h, rfl⟩⟩

/-- A sequence ends with the error of its first part, or goes on from the first part's result. -/
theorem ran_bind {p : Prog Op ε α} {f : α → Prog Op ε β} {r : Except ε β} :
    (p >>= f).Ran calls r ↔ (∃ err, p.Ran calls (.error err) ∧ r = .error err) ∨
      ∃ a first rest, calls = first ++ rest ∧ p.Ran first (.ok a) ∧ (f a).Ran rest r := by
  rw [bind_eq]
  induction p generalizing calls with
  | done r' =>
    cases r' with
    | error err =>
      constructor
      · rintro ⟨rfl, rfl⟩
        exact .inl ⟨err, ⟨rfl, rfl⟩, rfl⟩
      · rintro (⟨err', ⟨rfl, herr⟩, rfl⟩ | ⟨a, first, rest, -, ⟨-, ha⟩, -⟩)
        · cases herr
          exact ⟨rfl, rfl⟩
        · cases ha
    | ok a =>
      constructor
      · intro h
        exact .inr ⟨a, [], calls, rfl, ⟨rfl, rfl⟩, h⟩
      · rintro (⟨err, ⟨-, herr⟩, -⟩ | ⟨a', first, rest, rfl, ⟨rfl, ha⟩, h⟩)
        · cases herr
        · cases ha
          exact h
  | call op k ih =>
    constructor
    · rintro ⟨reply, rest, rfl, h⟩
      rcases (ih reply).mp h with ⟨err, herr, rfl⟩ | ⟨a, first, rest, rfl, hp, hf⟩
      · exact .inl ⟨err, ⟨reply, rest, rfl, herr⟩, rfl⟩
      · exact .inr ⟨a, ⟨op, reply⟩ :: first, rest, rfl, ⟨reply, first, rfl, hp⟩, hf⟩
    · rintro (⟨err, ⟨reply, rest, rfl, h⟩, rfl⟩ | ⟨a, _, rest, rfl, ⟨reply, first, rfl, hp⟩, hf⟩)
      · exact ⟨reply, rest, rfl, (ih reply).mpr (.inl ⟨err, h, rfl⟩)⟩
      · exact ⟨reply, first ++ rest, rfl, (ih reply).mpr (.inr ⟨a, first, rest, rfl, hp, hf⟩)⟩

theorem ran_attempt_bind {p : Prog Op ε α} {f : Except ε α → Prog Op ε β} {r : Except ε β} :
    (p.attempt >>= f).Ran calls r ↔
      ∃ r' first rest, calls = first ++ rest ∧ p.Ran first r' ∧ (f r').Ran rest r := by
  rw [ran_bind]
  constructor
  · rintro (⟨err, h, -⟩ | ⟨a, first, rest, rfl, hp, hf⟩)
    · obtain ⟨_, -, herr⟩ := ran_attempt.mp h
      cases herr
    · obtain ⟨r', hran, rfl⟩ : ∃ r', p.Ran first r' ∧ a = r' := by simpa using ran_attempt.mp hp
      exact ⟨a, first, rest, rfl, hran, hf⟩
  · rintro ⟨r', first, rest, rfl, hp, hf⟩
    exact .inr ⟨r', first, rest, rfl, ran_attempt.mpr ⟨r', hp, rfl⟩, hf⟩

theorem ran_attempt_perform_bind {op : Op α} {f : Except ε α → Prog Op ε β} {r : Except ε β} :
    ((perform op).attempt >>= f).Ran calls r ↔
      ∃ reply rest, calls = ⟨op, reply⟩ :: rest ∧ (f reply).Ran rest r := by
  rw [ran_attempt_bind]
  constructor
  · rintro ⟨reply, first, rest, rfl, hp, hf⟩
    obtain rfl := ran_perform.mp hp
    exact ⟨reply, rest, rfl, hf⟩
  · rintro ⟨reply, rest, rfl, hf⟩
    exact ⟨reply, [⟨op, reply⟩], rest, rfl, ran_perform.mpr rfl, hf⟩

/-! The calls of a process that is alone -/

section Made

variable {σ : Type}

/-- The calls a process makes with nobody else about. -/
def made (handle : {β : Type} → Op β → σ → Except ε β × σ) : Prog Op ε α → σ → List (Answered Op ε)
  | .done _, _ => []
  | .call op k, s =>
      ⟨op, (handle op s).1⟩ :: (k (handle op s).1).made handle (handle op s).2

variable {handle : {β : Type} → Op β → σ → Except ε β × σ} {s : σ}

@[simp]
theorem alone_perform (op : Op α) : (perform op : Prog Op ε α).alone handle s = handle op s := rfl

@[simp]
theorem alone_pure (a : α) : (pure a : Prog Op ε α).alone handle s = (.ok a, s) := rfl

theorem alone_bind_ok {p : Prog Op ε α} {f : α → Prog Op ε β} {a : α} {t : σ}
    (h : p.alone handle s = (.ok a, t)) : (p >>= f).alone handle s = (f a).alone handle t := by
  simp only [alone_bind, h]

theorem alone_bind_error {p : Prog Op ε α} {f : α → Prog Op ε β} {e : ε} {t : σ}
    (h : p.alone handle s = (.error e, t)) : (p >>= f).alone handle s = (.error e, t) := by
  simp only [alone_bind, h]

theorem made_bind (p : Prog Op ε α) (f : α → Prog Op ε β) (s : σ) :
    (p >>= f).made handle s = p.made handle s ++ match p.alone handle s with
      | (.ok a, t) => (f a).made handle t
      | (.error _, _) => [] := by
  rw [bind_eq]
  induction p generalizing s with
  | done r => cases r <;> rfl
  | call op k ih => exact congrArg _ (ih _ _)

theorem made_bind_ok {p : Prog Op ε α} {f : α → Prog Op ε β} {a : α} {t : σ}
    (h : p.alone handle s = (.ok a, t)) :
    (p >>= f).made handle s = p.made handle s ++ (f a).made handle t := by
  simp only [made_bind, h]

theorem made_bind_error {p : Prog Op ε α} {f : α → Prog Op ε β} {e : ε} {t : σ}
    (h : p.alone handle s = (.error e, t)) : (p >>= f).made handle s = p.made handle s := by
  simp only [made_bind, h, List.append_nil]

end Made

/-! What the calls add up to -/

section Follows

variable {σ : Type} (step : {β : Type} → σ → Op β → Except ε β → σ)

/-- Whatever the calls are answered, the process ends as `Q` says of what they add up to. -/
def Follows (Q : σ → Except ε α → Prop) : Prog Op ε α → σ → Prop
  | .done r, s => Q s r
  | .call op k, s => ∀ reply, (k reply).Follows Q (step s op reply)

variable {step} {Q : σ → Except ε α → Prop} {s : σ}

theorem follows_perform {op : Op α} (h : ∀ reply, Q (step s op reply) reply) :
    (perform op : Prog Op ε α).Follows step Q s := h

theorem Follows.mono {Q' : σ → Except ε α → Prop} {p : Prog Op ε α} (hp : p.Follows step Q s)
    (h : ∀ s r, Q s r → Q' s r) : p.Follows step Q' s := by
  induction p generalizing s with
  | done r => exact h s r hp
  | call op k ih => exact fun reply => ih reply (hp reply)

theorem Follows.bind {p : Prog Op ε α} {f : α → Prog Op ε β} {Q : σ → Except ε β → Prop}
    (hp : p.Follows step (fun s r => match r with
      | .ok a => (f a).Follows step Q s
      | .error err => Q s (.error err)) s) : (p >>= f).Follows step Q s := by
  rw [bind_eq]
  induction p generalizing s with
  | done r =>
    cases r with
    | ok a => exact hp
    | error err => exact hp
  | call op k ih => exact fun reply => ih reply (hp reply)

theorem Follows.attempt {p : Prog Op ε α} {Q : σ → Except ε (Except ε α) → Prop}
    (hp : p.Follows step (fun s r => Q s (.ok r)) s) : p.attempt.Follows step Q s := by
  induction p generalizing s with
  | done r => exact hp
  | call op k ih => exact fun reply => ih reply (hp reply)

theorem Within.follows {p : Prog Op ε α} (hp : p.Within fun op => ∀ s reply, step s op reply = s)
    (h : ∀ r, Q s r) : p.Follows step Q s := by
  induction p generalizing s with
  | done r => exact h r
  | call op k ih =>
    intro reply
    have hs := hp.1 s reply
    change (k reply).Follows step Q (step s op reply)
    rw [hs]
    exact ih reply (hp.2 reply) h

theorem Follows.foldlM {γ : Type} {f : β → γ → Prog Op ε β} {Q : σ → Except ε β → Prop}
    (P : β → σ → Prop)
    (hpass : ∀ x b s, P b s → (f b x).Follows step (fun s r => match r with
      | .ok b => P b s
      | .error err => Q s (.error err)) s)
    (hend : ∀ b s, P b s → Q s (.ok b)) {xs : List γ} {b : β} (h : P b s) :
    (xs.foldlM f b).Follows step Q s := by
  induction xs generalizing b s with
  | nil => exact hend b s h
  | cons x xs ih =>
    rw [List.foldlM_cons]
    refine Follows.bind ((hpass x b s h).mono fun t r hr => ?_)
    cases r with
    | ok b => exact ih hr
    | error err => exact hr

theorem Follows.ran {p : Prog Op ε α} (hp : p.Follows step Q s) {r : Except ε α}
    (h : p.Ran calls r) : Q (calls.foldl (fun s c => step s c.op c.reply) s) r := by
  induction p generalizing s calls with
  | done r' =>
    obtain ⟨rfl, rfl⟩ := h
    exact hp
  | call op k ih =>
    obtain ⟨reply, rest, rfl, h⟩ := h
    have hrest := ih reply (hp reply) h
    exact hrest

end Follows

end Prog

end JamJet.AtomicCalls
