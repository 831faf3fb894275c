import JamJet.AtomicCalls
import Mathlib.Logic.Function.Basic

/-! Any number of processes over one shared state.  Their atomic calls interleave in every order,
with each other and with the acts of other parties; each call may fail, and each process may be
dropped between two of its calls. -/

namespace JamJet.AtomicCalls

universe u

namespace Prog

variable {Op Op' : Type → Type} {ε α : Type}

/-- The same process over a larger set of calls. -/
def mapOps (f : {β : Type} → Op β → Op' β) : Prog Op ε α → Prog Op' ε α
  | .done r => .done r
  | .call op k => .call (f op) fun r => mapOps f (k r)

theorem Within.mapOps {f : {β : Type} → Op β → Op' β} {ok : {β : Type} → Op β → Prop}
    {ok' : {β : Type} → Op' β → Prop} {p : Prog Op ε α} (hp : p.Within ok)
    (h : ∀ {β : Type} (op : Op β), ok op → ok' (f op)) :
    (Prog.mapOps (fun op => f op) p).Within ok' := by
  induction p with
  | done r => trivial
  | call op k ih => exact ⟨h op hp.1, fun r => ih r (hp.2 r)⟩

theorem within_true (p : Prog Op ε α) : p.Within fun _ => True := by
  induction p with
  | done r => trivial
  | call op k ih => exact ⟨trivial, ih⟩

end Prog

/-- The shared state, what calls and acts do to it, and the jobs a process may be started on. -/
structure Service (Op : Type → Type) (ε α σ : Type) (Act : Type u) (Job : Type) where
  handle : {β : Type} → Op β → σ → Except ε β × σ
  fallible : {β : Type} → Op β → Bool
  act : Act → σ → σ
  program : Job → Prog Op ε α

/-- The shared state and the processes, each under its number. -/
structure Pool (Op : Type → Type) (ε α σ : Type) : Type 1 where
  state : σ
  procs : ℕ → Option (Prog Op ε α)

inductive PoolMove (ε : Type) (Act : Type u) (Job : Type)
  | outside (a : Act)
  | spawn (i : ℕ) (j : Job)
  | advance (i : ℕ)
  | fault (i : ℕ) (e : ε)
  | drop (i : ℕ)

variable {Op : Type → Type} {ε α σ Job : Type} {Act : Type u}

/-- The pool with nobody in it. -/
def idlePool (s : σ) : Pool Op ε α σ := ⟨s, fun _ => none⟩

namespace Pool

def step (M : Service Op ε α σ Act Job) (c : Pool Op ε α σ) : PoolMove ε Act Job → Pool Op ε α σ
  | .outside a => { c with state := M.act a c.state }
  | .spawn i j =>
      match c.procs i with
      | none => { c with procs := Function.update c.procs i (some (M.program j)) }
      | some _ => c
  | .advance i =>
      match c.procs i with
      | some (.call op k) =>
          let reply := M.handle op c.state
          ⟨reply.2, Function.update c.procs i (some (k reply.1))⟩
      | _ => c
  | .fault i e =>
      match c.procs i with
      | some (.call op k) =>
          if M.fallible op then
            { c with procs := Function.update c.procs i (some (k (.error e))) }
          else c
      | _ => c
  | .drop i => { c with procs := Function.update c.procs i none }

def run (M : Service Op ε α σ Act Job) (c : Pool Op ε α σ) (ms : List (PoolMove ε Act Job)) :
    Pool Op ε α σ :=
  ms.foldl (step M) c

theorem run_concat (M : Service Op ε α σ Act Job) (c : Pool Op ε α σ)
    (ms : List (PoolMove ε Act Job)) (m : PoolMove ε Act Job) :
    c.run M (ms ++ [m]) = (c.run M ms).step M m := by
  simp [run]

/-- Something holds of what is left of every process. -/
def Each (P : Prog Op ε α → Prop) (c : Pool Op ε α σ) : Prop := ∀ i p, c.procs i = some p → P p

/-- Every process keeps to the calls that `ok` lists. -/
def AllWithin (ok : {β : Type} → Op β → Prop) (c : Pool Op ε α σ) : Prop :=
  c.Each (Prog.Within ok)

end Pool

/-- Whether a rule lets a move of the pool happen, in the state before it. -/
def Rules.allowsIn (U : Rules Op σ Act Job) (c : Pool Op ε α σ) : PoolMove ε Act Job → Prop
  | .outside a => U.actOk a c.state
  | .spawn _ j => U.jobOk j
  | .advance i =>
      match c.procs i with
      | some (.call op _) => U.callOk op c.state
      | _ => True
  | .fault i _ =>
      match c.procs i with
      | some (.call op _) => U.faultOk op c.state
      | _ => True
  | .drop _ => True

/-- Every move of the run is allowed in the pool it is taken in. -/
def Rules.ObeyedIn (U : Rules Op σ Act Job) (M : Service Op ε α σ Act Job) :
    Pool Op ε α σ → List (PoolMove ε Act Job) → Prop
  | _, [] => True
  | c, m :: ms => U.allowsIn c m ∧ U.ObeyedIn M (c.step M m) ms

namespace Pool

section Steps

variable {M : Service Op ε α σ Act Job} {U : Rules Op σ Act Job}
  {ok : {β : Type} → Op β → Prop} {c : Pool Op ε α σ} {m : PoolMove ε Act Job}

theorem obeyedIn_of_acts {actOk : Act → σ → Prop} {ms : List (PoolMove ε Act Job)}
    (h : ∀ a, .outside a ∈ ms → ∀ s, actOk a s) (c : Pool Op ε α σ) :
    Rules.ObeyedIn { actOk := actOk } M c ms := by
  induction ms generalizing c with
  | nil => trivial
  | cons m ms ih =>
    refine ⟨?_, ih (fun a ha => h a (by simp [ha])) _⟩
    cases m with
    | outside a => exact h a (by simp) _
    | advance i | fault i =>
      simp only [Rules.allowsIn]
      split <;> trivial
    | _ => trivial

theorem obeyedIn_append {ms ms' : List (PoolMove ε Act Job)} :
    U.ObeyedIn M c (ms ++ ms') ↔ U.ObeyedIn M c ms ∧ U.ObeyedIn M (c.run M ms) ms' := by
  induction ms generalizing c with
  | nil => simp [Rules.ObeyedIn, run]
  | cons m' ms ih =>
    simp only [List.cons_append, Rules.ObeyedIn, ih, and_assoc]
    rfl

theorem run_append (c : Pool Op ε α σ) (ms ms' : List (PoolMove ε Act Job)) :
    c.run M (ms ++ ms') = (c.run M ms).run M ms' := by
  simp [run]

theorem Each.update {P Q : Prog Op ε α → Prop} (hc : c.Each P) (hPQ : ∀ p, P p → Q p) {i : ℕ}
    {p : Prog Op ε α} (hp : Q p) (s : σ) :
    Each Q (⟨s, Function.update c.procs i (some p)⟩ : Pool Op ε α σ) := by
  intro i' p' hp'
  by_cases hi : i' = i
  · subst hi
    simp only [Function.update_self, Option.some.injEq] at hp'
    exact hp' ▸ hp
  · simp only [ne_eq, hi, not_false_eq_true, Function.update_of_ne] at hp'
    exact hPQ p' (hc i' p' hp')

theorem Each.drop {P : Prog Op ε α → Prop} (hc : c.Each P) (i : ℕ) :
    Each P { c with procs := Function.update c.procs i none } := by
  intro i' p' hp'
  by_cases hi : i' = i
  · subst hi
    simp at hp'
  · simp only [ne_eq, hi, not_false_eq_true, Function.update_of_ne] at hp'
    exact hc i' p' hp'

/-- What holds of every program and passes from a process to what it leaves holds of every process
at any time. -/
theorem Each.step {P : Prog Op ε α → Prop} (hprog : ∀ j, P (M.program j))
    (hnext : ∀ {β : Type} (op : Op β) k, P (.call op k) → ∀ r, P (k r)) (hc : c.Each P)
    (m : PoolMove ε Act Job) : (c.step M m).Each P := by
  cases m with
  | outside a => exact hc
  | spawn i j =>
    simp only [Pool.step]
    split
    · exact hc.update (fun _ h => h) (hprog j) c.state
    · exact hc
  | advance i =>
    simp only [Pool.step]
    split
    · rename_i op k hp
      exact hc.update (fun _ h => h) (hnext op k (hc i _ hp) _) _
    · exact hc
  | fault i e =>
    simp only [Pool.step]
    split
    · rename_i op k hp
      split
      · exact hc.update (fun _ h => h) (hnext op k (hc i _ hp) _) _
      · exact hc
    · exact hc
  | drop i => exact hc.drop i

theorem Each.run {P : Prog Op ε α → Prop} (hprog : ∀ j, P (M.program j))
    (hnext : ∀ {β : Type} (op : Op β) k, P (.call op k) → ∀ r, P (k r)) (hc : c.Each P)
    (ms : List (PoolMove ε Act Job)) : (c.run M ms).Each P := by
  induction ms generalizing c with
  | nil => exact hc
  | cons m ms ih => exact ih (hc.step hprog hnext m)

theorem AllWithin.step (hprog : ∀ j, (M.program j).Within ok) (hc : c.AllWithin ok)
    (m : PoolMove ε Act Job) : (c.step M m).AllWithin ok :=
  Each.step hprog (fun _ _ h => h.2) hc m

theorem AllWithin.run (hprog : ∀ j, (M.program j).Within ok) (hc : c.AllWithin ok)
    (ms : List (PoolMove ε Act Job)) : (c.run M ms).AllWithin ok :=
  Each.run hprog (fun _ _ h => h.2) hc ms

/-- What every act and every listed call do to the state, a move of the pool does. -/
theorem step_rel {R : σ → σ → Prop} (hrefl : ∀ s, R s s)
    (hact : ∀ a s, U.actOk a s → R s (M.act a s))
    (hcall : ∀ {β : Type} (op : Op β) s, ok op → U.callOk op s → R s (M.handle op s).2)
    (hc : c.AllWithin ok) (hm : U.allowsIn c m) : R c.state (c.step M m).state := by
  cases m with
  | outside a => exact hact a c.state hm
  | spawn i j =>
    simp only [Pool.step]
    split <;> exact hrefl _
  | advance i =>
    simp only [Pool.step]
    simp only [Rules.allowsIn] at hm
    split
    · rename_i op k hp
      rw [hp] at hm
      exact hcall op c.state (hc i _ hp).1 hm
    · exact hrefl _
  | fault i e =>
    simp only [Pool.step]
    split
    · split <;> exact hrefl _
    · exact hrefl _
  | drop i => exact hrefl _

theorem run_inv {I : σ → Prop} (hprog : ∀ j, (M.program j).Within ok)
    (hact : ∀ a s, U.actOk a s → I s → I (M.act a s))
    (hcall : ∀ {β : Type} (op : Op β) s, ok op → U.callOk op s → I s → I (M.handle op s).2)
    {ms : List (PoolMove ε Act Job)} (hms : U.ObeyedIn M c ms) (hc : c.AllWithin ok)
    (hi : I c.state) : I (c.run M ms).state := by
  induction ms generalizing c with
  | nil => exact hi
  | cons m ms ih =>
    refine ih hms.2 (hc.step hprog m) ?_
    exact step_rel (R := fun s t => I s → I t) (fun _ h => h) hact hcall hc hms.1 hi

theorem run_keeps {I : σ → Prop} (hact : ∀ a s, I s → I (M.act a s))
    (hcall : ∀ {β : Type} (op : Op β) s, I s → I (M.handle op s).2)
    (ms : List (PoolMove ε Act Job)) (hi : I c.state) : I (c.run M ms).state :=
  have hobeyed : Rules.ObeyedIn { actOk := fun _ _ => True } M c ms :=
    obeyedIn_of_acts (fun _ _ _ => trivial) c
  run_inv (fun j => Prog.within_true (M.program j)) (fun a s _ => hact a s)
    (fun op s _ _ => hcall op s) hobeyed (fun _ p _ => Prog.within_true p) hi

theorem each_idle {P : Prog Op ε α → Prop} (s : σ) : Each P (idlePool s : Pool Op ε α σ) := by
  intro i p hp
  cases hp

theorem allWithin_idle (s : σ) : AllWithin ok (idlePool s : Pool Op ε α σ) := each_idle s

theorem run_rel {R : σ → σ → Prop} (hprog : ∀ j, (M.program j).Within ok) (hrefl : ∀ s, R s s)
    (hact : ∀ a s, U.actOk a s → R s (M.act a s))
    (hcall : ∀ {β : Type} (op : Op β) s, ok op → U.callOk op s → R s (M.handle op s).2)
    {ms : List (PoolMove ε Act Job)} (hms : U.ObeyedIn M c ms) (hc : c.AllWithin ok)
    {ms' : List (PoolMove ε Act Job)} (hpre : ms' ++ [m] <+: ms) :
    R (c.run M ms').state (c.run M (ms' ++ [m])).state := by
  obtain ⟨rest, rfl⟩ := hpre
  rw [List.append_assoc, obeyedIn_append] at hms
  rw [run_concat]
  exact step_rel hrefl hact hcall (hc.run hprog ms') hms.2.1

end Steps

end Pool

namespace Prog

/-- The process ends with `y` only by a call and a reply that `G` lists. -/
def EndsOnly (G : {β : Type} → Op β → Except ε β → Prop) (y : α) : Prog Op ε α → Prop
  | .done _ => True
  | .call op k => ∀ r, (k r = .done (.ok y) → G op r) ∧ (k r).EndsOnly G y

section EndsOnly

variable {β : Type} {G : {γ : Type} → Op γ → Except ε γ → Prop}

theorem endsOnly_pure (a y : α) : (pure a : Prog Op ε α).EndsOnly G y := trivial

theorem endsOnly_perform {op : Op α} {y : α} (h : G op (.ok y)) :
    (perform op : Prog Op ε α).EndsOnly G y := by
  intro r
  refine ⟨fun hr => ?_, trivial⟩
  cases hr
  exact h

/-- Sequencing: the last call of the first part is the last of all when nothing is left to call. -/
theorem EndsOnly.bind {p : Prog Op ε α} {f : α → Prog Op ε β} {y : β}
    (hp : ∀ a, f a = .done (.ok y) → p.EndsOnly G a) (hf : ∀ a, (f a).EndsOnly G y) :
    (p >>= f).EndsOnly G y := by
  rw [bind_eq]
  induction p with
  | done r =>
    cases r with
    | ok a => exact hf a
    | error e => trivial
  | call op k ih =>
    intro r
    refine ⟨fun hres => ?_, ih r fun a ha => (hp a ha r).2⟩
    change (k r).bind f = .done (.ok y) at hres
    cases hk : k r with
    | done r' =>
      rw [hk] at hres
      cases r' with
      | ok a => exact (hp a hres r).1 hk
      | error e => cases hres
    | call op' k' =>
      rw [hk] at hres
      cases hres

end EndsOnly

end Prog

/-- The state and the calls of a service, for the calculus of one process: the others are part of
what it relies on. -/
def Service.beside (M : Service Op ε α σ Act Job) : Machine Op ε σ Act Job where
  handle op s := M.handle op s
  fallible op := M.fallible op
  act a s := M.act a s
  program _ := .done (.ok ())
  stop s := s

/-- The obligations under which the calculus speaks about pools: every act and every call keeps
the invariant and does to the others only what they rely on. -/
structure SoundIn (M : Service Op ε α σ Act Job) (U : Rules Op σ Act Job) (S : Spec Op σ) :
    Prop where
  act : ∀ a s, S.inv s → U.actOk a s → S.inv (M.act a s) ∧ S.rely s (M.act a s)
  call : ∀ {β : Type} (op : Op β) s, S.inv s → S.good op s → U.callOk op s →
    S.inv (M.handle op s).2 ∧ S.rely s (M.handle op s).2
  job : ∀ j s, U.jobOk j → S.inv s → wp M.beside U S (M.program j) (fun _ _ => True) s

namespace Pool

/-- The invariant holds and every process meets its specification from here. -/
def Meets (M : Service Op ε α σ Act Job) (U : Rules Op σ Act Job) (S : Spec Op σ)
    (c : Pool Op ε α σ) : Prop :=
  S.inv c.state ∧ c.Each fun p => wp M.beside U S p (fun _ _ => True) c.state

section Meets

variable {M : Service Op ε α σ Act Job} {U : Rules Op σ Act Job} {S : Spec Op σ}
  {c : Pool Op ε α σ} {m : PoolMove ε Act Job}

theorem meets_idle {s : σ} (hs : S.inv s) : Meets M U S (idlePool s) := ⟨hs, each_idle s⟩

theorem Meets.update (hc : Meets M U S c) {i : ℕ} {p : Prog Op ε α} {s : σ} (hs : S.inv s)
    (hrel : S.rely c.state s) (hp : wp M.beside U S p (fun _ _ => True) s) :
    Meets M U S ⟨s, Function.update c.procs i (some p)⟩ :=
  ⟨hs, hc.2.update (fun _ h => wp_stable h hrel) hp s⟩

theorem Meets.step (hS : SoundIn M U S) (hc : Meets M U S c) (hm : U.allowsIn c m) :
    Meets M U S (c.step M m) := by
  obtain ⟨hi, hw⟩ := hc
  cases m with
  | outside a =>
    obtain ⟨hi', hrel⟩ := hS.act a c.state hi hm
    exact ⟨hi', fun i p hp => wp_stable (hw i p hp) hrel⟩
  | spawn i j =>
    simp only [Pool.step]
    split
    · exact Meets.update ⟨hi, hw⟩ hi (S.rely_refl _) (hS.job j c.state hm hi)
    · exact ⟨hi, hw⟩
  | advance i =>
    simp only [Pool.step]
    simp only [Rules.allowsIn] at hm
    split
    · rename_i op k hp
      rw [hp] at hm
      obtain ⟨hg, hk, -⟩ := hw i _ hp c.state (S.rely_refl _) hi
      obtain ⟨hi', hrel⟩ := hS.call op c.state hi hg hm
      exact Meets.update ⟨hi, hw⟩ hi' hrel (hk hm)
    · exact ⟨hi, hw⟩
  | fault i e =>
    simp only [Pool.step]
    simp only [Rules.allowsIn] at hm
    split
    · rename_i op k hp
      rw [hp] at hm
      split
      · rename_i hf
        obtain ⟨-, -, he⟩ := hw i _ hp c.state (S.rely_refl _) hi
        exact Meets.update ⟨hi, hw⟩ hi (S.rely_refl _) (he hf hm e)
      · exact ⟨hi, hw⟩
    · exact ⟨hi, hw⟩
  | drop i => exact ⟨hi, hw.drop i⟩

theorem Meets.run (hS : SoundIn M U S) {ms : List (PoolMove ε Act Job)} (hc : Meets M U S c)
    (hms : U.ObeyedIn M c ms) : Meets M U S (c.run M ms) := by
  induction ms generalizing c with
  | nil => exact hc
  | cons m ms ih => exact ih (hc.step hS hms.1) hms.2

end Meets

section Ends

variable {M : Service Op ε α σ Act Job} {c : Pool Op ε α σ}
  {G : {β : Type} → Op β → Except ε β → Prop} {y : α}

/-- A process that comes to end with `y` does so by the reply to a call, or by a fault of it, as
`G` lists them. -/
theorem endsOnly_step (hc : c.Each (Prog.EndsOnly G y)) {m : PoolMove ε Act Job} {i : ℕ}
    (hprog : ∀ j, M.program j ≠ .done (.ok y)) (hbefore : c.procs i ≠ some (.done (.ok y)))
    (hafter : (c.step M m).procs i = some (.done (.ok y))) :
    ∃ (β : Type) (op : Op β) (k : Except ε β → Prog Op ε α), c.procs i = some (.call op k) ∧
      (m = .advance i ∧ G op (M.handle op c.state).1 ∨ ∃ e, m = .fault i e ∧ G op (.error e)) := by
  have hother : ∀ i' (p : Option (Prog Op ε α)), i ≠ i' →
      Function.update c.procs i' p i ≠ some (.done (.ok y)) := by
    intro i' p hi
    rwa [Function.update_of_ne hi]
  cases m with
  | outside a => exact absurd hafter hbefore
  | spawn i' j =>
    simp only [Pool.step] at hafter
    split at hafter
    · by_cases hi : i = i'
      · subst hi
        simp only [Function.update_self, Option.some.injEq] at hafter
        exact absurd hafter (hprog j)
      · exact absurd hafter (hother i' _ hi)
    · exact absurd hafter hbefore
  | advance i' =>
    simp only [Pool.step] at hafter
    split at hafter
    · rename_i op k hp
      by_cases hi : i = i'
      · subst hi
        simp only [Function.update_self, Option.some.injEq] at hafter
        exact ⟨_, op, k, hp, .inl ⟨rfl, (hc i _ hp _).1 hafter⟩⟩
      · exact absurd hafter (hother i' _ hi)
    · exact absurd hafter hbefore
  | fault i' e =>
    simp only [Pool.step] at hafter
    split at hafter
    · rename_i op k hp
      split at hafter
      · by_cases hi : i = i'
        · subst hi
          simp only [Function.update_self, Option.some.injEq] at hafter
          exact ⟨_, op, k, hp, .inr ⟨e, rfl, (hc i _ hp _).1 hafter⟩⟩
        · exact absurd hafter (hother i' _ hi)
      · exact absurd hafter hbefore
    · exact absurd hafter hbefore
  | drop i' =>
    by_cases hi : i = i'
    · subst hi
      simp [Pool.step] at hafter
    · exact absurd hafter (hother i' _ hi)

end Ends

end Pool

end JamJet.AtomicCalls
