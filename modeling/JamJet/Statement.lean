import Mathlib.Tactic.Common

/-! Computations that read and change a state and may end with an error, as programs over a
database do: statement by statement, or as a transaction that an error undoes. -/

namespace JamJet

/-- Ends with a value or an error, and leaves a state in either case. -/
def Statement (ε σ α : Type) : Type := σ → Except ε α × σ

namespace Statement

variable {ε σ α β : Type}

instance : Monad (Statement ε σ) where
  pure a s := (.ok a, s)
  bind m f s := match m s with
    | (.ok a, s') => f a s'
    | (.error err, s') => (.error err, s')

def fail (err : ε) : Statement ε σ α := fun s => (.error err, s)

def read (f : σ → α) : Statement ε σ α := fun s => (.ok (f s), s)

/-- `BEGIN .. COMMIT`: an error leaves the state as it was. -/
def atomically (m : Statement ε σ α) : Statement ε σ α := fun s =>
  match m s with
  | (.ok a, s') => (.ok a, s')
  | (.error err, _) => (.error err, s)

/-- One after the other, up to the first error. -/
def forEach (f : α → Statement ε σ Unit) : List α → Statement ε σ Unit
  | [] => pure ()
  | a :: as => do
      f a
      forEach f as

/-- One after the other, with the replies that are not empty. -/
def collect (f : α → Statement ε σ (Option β)) : List α → Statement ε σ (List β)
  | [] => pure []
  | a :: as => do
      let b ← f a
      let bs ← collect f as
      pure (b.toList ++ bs)

section Replies

variable {s : σ} {m : Statement ε σ α} {f : α → Statement ε σ β}

@[simp]
theorem pure_apply (a : α) : (pure a : Statement ε σ α) s = (.ok a, s) := rfl

theorem bind_apply : (m >>= f) s = match m s with
    | (.ok a, s') => f a s'
    | (.error err, s') => (.error err, s') := rfl

@[simp]
theorem read_bind (g : σ → α) : ((Statement.read g : Statement ε σ α) >>= f) s = f (g s) s := rfl

@[simp]
theorem atomically_reply : (m.atomically s).1 = (m s).1 := by
  unfold atomically
  split
  · rename_i heq
    rw [heq]
  · rename_i heq
    rw [heq]

theorem map_reply {g : α → β} : ((m >>= fun a => pure (g a)) s).1 = (m s).1.map g := by
  rw [bind_apply]
  split
  · rename_i heq
    rw [heq]
    rfl
  · rename_i heq
    rw [heq]
    rfl

end Replies

/-- A relation between the state before and after that holds when nothing happens, and of two
steps when it holds of each. -/
structure Kept (σ : Type) where
  rel : σ → σ → Prop
  refl : ∀ s, rel s s
  trans : ∀ {s t u}, rel s t → rel t u → rel s u

/-- What stays true in every state the relation leads to. -/
def Kept.Stable (K : Kept σ) (P : σ → Prop) : Prop := ∀ {s t}, P s → K.rel s t → P t

variable {K : Kept σ} {P : σ → Prop} {m : Statement ε σ α} {f : α → Statement ε σ β}

theorem Kept.stable_true : K.Stable fun _ => True := fun _ _ => trivial

/-- From a state with `P`, the computation leaves a state related to it. -/
def Within (m : Statement ε σ α) (K : Kept σ) (P : σ → Prop) : Prop := ∀ s, P s → K.rel s (m s).2

namespace Within

theorem pure (a : α) : (Pure.pure a : Statement ε σ α).Within K P := fun s _ => K.refl s

theorem fail (err : ε) : (Statement.fail err : Statement ε σ α).Within K P := fun s _ => K.refl s

theorem read (f : σ → α) : (Statement.read f : Statement ε σ α).Within K P := fun s _ => K.refl s

theorem bind (hP : K.Stable P) (hm : m.Within K P) (hf : ∀ a, (f a).Within K P) :
    (m >>= f).Within K P := by
  intro s hs
  have hfirst := hm s hs
  change K.rel s (match m s with
    | (.ok a, s') => f a s'
    | (.error err, s') => (.error err, s')).2
  split
  · rename_i a t heq
    rw [heq] at hfirst
    exact K.trans hfirst (hf a t (hP hs hfirst))
  · rename_i heq
    rwa [heq] at hfirst

theorem read_bind {g : σ → α} (hf : ∀ s, P s → K.rel s ((f (g s)) s).2) :
    ((Statement.read g : Statement ε σ α) >>= f).Within K P := hf

theorem map_at {s : σ} {g : α → β} (hm : K.rel s (m s).2) :
    K.rel s ((m >>= fun a => Pure.pure (g a)) s).2 := by
  change K.rel s (match m s with
    | (.ok a, s') => (Pure.pure (g a) : Statement ε σ β) s'
    | (.error err, s') => (.error err, s')).2
  split
  · rename_i heq
    rwa [heq] at hm
  · rename_i heq
    rwa [heq] at hm

theorem map {g : α → β} (hm : m.Within K P) :
    (m >>= fun a => Pure.pure (g a)).Within K P := fun s hs => map_at (hm s hs)

theorem ite {c : Prop} [Decidable c] {m' : Statement ε σ α} (hm : m.Within K P)
    (hm' : m'.Within K P) : (if c then m else m').Within K P := by
  split
  · exact hm
  · exact hm'

theorem atomically (hm : m.Within K P) : m.atomically.Within K P := by
  intro s hs
  have hrel := hm s hs
  unfold Statement.atomically
  split
  · rename_i heq
    rwa [heq] at hrel
  · exact K.refl s

theorem forEach (hP : K.Stable P) {f : α → Statement ε σ Unit} {as : List α}
    (hf : ∀ a ∈ as, (f a).Within K P) : (Statement.forEach f as).Within K P := by
  induction as with
  | nil => exact pure ()
  | cons a as ih =>
    exact bind hP (hf a (by simp)) fun _ => ih fun b hb => hf b (by simp [hb])

theorem collect (hP : K.Stable P) {f : α → Statement ε σ (Option β)} {as : List α}
    (hf : ∀ a ∈ as, (f a).Within K P) : (Statement.collect f as).Within K P := by
  induction as with
  | nil => exact pure []
  | cons a as ih =>
    refine bind hP (hf a (by simp)) fun b => ?_
    exact bind hP (ih fun c hc => hf c (by simp [hc])) fun bs => pure _

end Within

end Statement

end JamJet
