import Mathlib.Tactic.Common

/-! A process whose every access to shared state is one atomic call, run beside other
parties, and a rely-guarantee calculus for it.  Calls may fail, and the process may stop
between any two of them. -/

namespace JamJet.AtomicCalls

universe u

/-- A process: it has ended with a result, or it makes one call and goes on from the reply. -/
inductive Prog (Op : Type → Type) (ε α : Type) : Type 1
  | done (r : Except ε α)
  | call {β : Type} (op : Op β) (k : Except ε β → Prog Op ε α)

namespace Prog

variable {Op : Type → Type} {ε α β γ : Type}

/-- Sequencing; an error ends the whole process, as the `?` operator does. -/
def bind : Prog Op ε α → (α → Prog Op ε β) → Prog Op ε β
  | .done (.ok a), f => f a
  | .done (.error e), _ => .done (.error e)
  | .call op k, f => .call op fun r => bind (k r) f

instance : Monad (Prog Op ε) where
  pure a := .done (.ok a)
  bind := bind

/-- One call, its error passed on. -/
def perform (op : Op α) : Prog Op ε α := .call op .done

/-- Run to the end and hand the result over, error or not. -/
def attempt : Prog Op ε α → Prog Op ε (Except ε α)
  | .done r => .done (.ok r)
  | .call op k => .call op fun r => attempt (k r)

/-- A loop for its effects. -/
def forEach (xs : List α) (f : α → Prog Op ε Unit) : Prog Op ε Unit :=
  xs.foldlM (fun _ x => f x) ()

theorem bind_eq (p : Prog Op ε α) (f : α → Prog Op ε β) : p >>= f = bind p f := rfl

/-- Every call the process may come to make is one of those `ok` lists. -/
def Within (ok : {β : Type} → Op β → Prop) : Prog Op ε α → Prop
  | .done _ => True
  | .call op k => ok op ∧ ∀ r, (k r).Within ok

section Within

variable {ok : {β : Type} → Op β → Prop}

@[simp]
theorem within_pure (a : α) : (pure a : Prog Op ε α).Within ok := trivial

@[simp]
theorem within_perform {op : Op α} : (perform op : Prog Op ε α).Within ok ↔ ok op := by
  simp [perform, Within]

theorem Within.bind {p : Prog Op ε α} {f : α → Prog Op ε β} (hp : p.Within ok)
    (hf : ∀ a, (f a).Within ok) : (p >>= f).Within ok := by
  rw [bind_eq]
  induction p with
  | done r =>
    cases r with
    | ok a => exact hf a
    | error e => trivial
  | call op k ih => exact ⟨hp.1, fun r => ih r (hp.2 r)⟩

theorem Within.mono {ok' : {β : Type} → Op β → Prop} {p : Prog Op ε α} (hp : p.Within ok)
    (h : ∀ {β : Type} (op : Op β), ok op → ok' op) : p.Within ok' := by
  induction p with
  | done r => trivial
  | call op k ih => exact ⟨h op hp.1, fun r => ih r (hp.2 r)⟩

theorem Within.attempt {p : Prog Op ε α} (hp : p.Within ok) : p.attempt.Within ok := by
  induction p with
  | done r => trivial
  | call op k ih => exact ⟨hp.1, fun r => ih r (hp.2 r)⟩

theorem Within.foldlM {f : β → α → Prog Op ε β} (hf : ∀ b a, (f b a).Within ok) (xs : List α)
    (b : β) : (xs.foldlM f b).Within ok := by
  induction xs generalizing b with
  | nil => trivial
  | cons x xs ih =>
    rw [List.foldlM_cons]
    exact (hf b x).bind ih

theorem Within.forEach {f : α → Prog Op ε Unit} (hf : ∀ a, (f a).Within ok) (xs : List α) :
    (forEach xs f).Within ok :=
  Within.foldlM (fun _ a => hf a) xs ()

end Within

end Prog

namespace Prog

variable {Op : Type → Type} {ε α β : Type}

/-- The process may end with this result, its calls answered one way or another. -/
def Ends : Prog Op ε α → Except ε α → Prop
  | .done r, r' => r' = r
  | .call _ k, r' => ∃ reply, (k reply).Ends r'

theorem ends_bind {p : Prog Op ε α} {f : α → Prog Op ε β} {b : β} :
    (p >>= f).Ends (.ok b) ↔ ∃ a, p.Ends (.ok a) ∧ (f a).Ends (.ok b) := by
  rw [bind_eq]
  induction p with
  | done r =>
    cases r with
    | ok a =>
      refine ⟨fun h => ⟨a, rfl, h⟩, ?_⟩
      rintro ⟨a', ha, h⟩
      cases ha
      exact h
    | error e =>
      refine ⟨fun h => ?_, ?_⟩
      · cases h
      · rintro ⟨a, ha, _⟩
        cases ha
  | call op k ih =>
    refine ⟨fun ⟨reply, h⟩ => ?_, fun ⟨a, ⟨reply, ha⟩, h⟩ => ⟨reply, (ih reply).mpr ⟨a, ha, h⟩⟩⟩
    obtain ⟨a, ha, h⟩ := (ih reply).mp h
    exact ⟨a, ⟨reply, ha⟩, h⟩

theorem bind_congr {p : Prog Op ε α} {f g : α → Prog Op ε β}
    (h : ∀ a, p.Ends (.ok a) → f a = g a) : p >>= f = p >>= g := by
  simp only [bind_eq]
  induction p with
  | done r =>
    cases r with
    | ok a => exact h a rfl
    | error e => rfl
  | call op k ih =>
    simp only [bind]
    congr 1
    funext reply
    exact ih reply fun a ha => h a ⟨reply, ha⟩

end Prog

namespace Prog

variable {Op : Type → Type} {ε σ α β : Type}

/-- The process run to its end with nobody else about. -/
def alone (handle : {β : Type} → Op β → σ → Except ε β × σ) : Prog Op ε α → σ → Except ε α × σ
  | .done r, s => (r, s)
  | .call op k, s => (k (handle op s).1).alone handle (handle op s).2

theorem alone_bind {handle : {β : Type} → Op β → σ → Except ε β × σ} {p : Prog Op ε α}
    {f : α → Prog Op ε β} {s : σ} : (p >>= f).alone handle s =
      match p.alone handle s with
      | (.ok a, t) => (f a).alone handle t
      | (.error e, t) => (.error e, t) := by
  rw [bind_eq]
  induction p generalizing s with
  | done r => cases r <;> rfl
  | call op k ih => exact ih _

end Prog

/-- The shared state, what the calls of the process and the acts of the other parties do to it,
and the jobs the process is started on. -/
structure Machine (Op : Type → Type) (ε σ : Type) (Act : Type u) (Job : Type) where
  handle : {β : Type} → Op β → σ → Except ε β × σ
  fallible : {β : Type} → Op β → Bool
  act : Act → σ → σ
  program : Job → Prog Op ε Unit
  /-- What a stop of the process leaves behind. -/
  stop : σ → σ

/-- The shared state and what is left of the process; `none` when it is at rest. -/
structure Config (Op : Type → Type) (ε σ : Type) : Type 1 where
  state : σ
  running : Option (Prog Op ε Unit)

inductive Move (ε : Type) (Act : Type u) (Job : Type)
  | outside (a : Act)
  | start (j : Job)
  | advance
  | fault (e : ε)
  | stop

variable {Op : Type → Type} {ε σ Job : Type} {Act : Type u}

def Config.step (M : Machine Op ε σ Act Job) (c : Config Op ε σ) :
    Move ε Act Job → Config Op ε σ
  | .outside a => { c with state := M.act a c.state }
  | .start j =>
      match c.running with
      | none => { c with running := some (M.program j) }
      | some _ => c
  | .advance =>
      match c.running with
      | none => c
      | some (.done _) => { c with running := none }
      | some (.call op k) =>
          let reply := M.handle op c.state
          ⟨reply.2, some (k reply.1)⟩
  | .fault e =>
      match c.running with
      | some (.call op k) => if M.fallible op then ⟨c.state, some (k (.error e))⟩ else c
      | _ => c
  | .stop => ⟨M.stop c.state, none⟩

def Config.run (M : Machine Op ε σ Act Job) (c : Config Op ε σ)
    (ms : List (Move ε Act Job)) : Config Op ε σ :=
  ms.foldl (Config.step M) c

/-- The configuration at rest in a state. -/
def atRest (s : σ) : Config Op ε σ := ⟨s, none⟩

/-- Which moves a run may take, each judged in the state before it. -/
structure Rules (Op : Type → Type) (σ : Type) (Act : Type u) (Job : Type) where
  actOk : Act → σ → Prop := fun _ _ => True
  callOk : {β : Type} → Op β → σ → Prop := fun _ _ => True
  faultOk : {β : Type} → Op β → σ → Prop := fun _ _ => True
  stopOk : σ → Prop := fun _ => True
  jobOk : Job → Prop := fun _ => True

def Rules.allows (U : Rules Op σ Act Job) (c : Config Op ε σ) : Move ε Act Job → Prop
  | .outside a => U.actOk a c.state
  | .start j => U.jobOk j
  | .advance =>
      match c.running with
      | some (.call op _) => U.callOk op c.state
      | _ => True
  | .fault _ =>
      match c.running with
      | some (.call op _) => U.faultOk op c.state
      | _ => True
  | .stop => U.stopOk c.state

/-- Every move of the run is allowed in the configuration it is taken in. -/
def Rules.Obeyed (U : Rules Op σ Act Job) (M : Machine Op ε σ Act Job) :
    Config Op ε σ → List (Move ε Act Job) → Prop
  | _, [] => True
  | c, m :: ms => U.allows c m ∧ U.Obeyed M (c.step M m) ms

/-- What every act, every call and a stop do to the state, a move does. -/
theorem Config.step_rel {M : Machine Op ε σ Act Job} {U : Rules Op σ Act Job} {R : σ → σ → Prop}
    (hrefl : ∀ s, R s s) (hact : ∀ a s, U.actOk a s → R s (M.act a s))
    (hcall : ∀ {β : Type} (op : Op β) s, U.callOk op s → R s (M.handle op s).2)
    (hstop : ∀ s, R s (M.stop s)) {c : Config Op ε σ} {m : Move ε Act Job} (hm : U.allows c m) :
    R c.state (c.step M m).state := by
  obtain ⟨s, running⟩ := c
  cases m with
  | outside a => exact hact a s hm
  | start j => cases running <;> exact hrefl s
  | advance =>
    cases running with
    | none => exact hrefl s
    | some p =>
      cases p with
      | done r => exact hrefl s
      | call op k => exact hcall op s hm
  | fault e =>
    cases running with
    | none => exact hrefl s
    | some p =>
      cases p with
      | done r => exact hrefl s
      | call op k =>
        simp only [Config.step]
        split <;> exact hrefl s
  | stop => exact hstop s

theorem Config.run_inv {M : Machine Op ε σ Act Job} {U : Rules Op σ Act Job} {I : σ → Prop}
    (hact : ∀ a s, U.actOk a s → I s → I (M.act a s))
    (hcall : ∀ {β : Type} (op : Op β) s, U.callOk op s → I s → I (M.handle op s).2)
    (hstop : ∀ s, I s → I (M.stop s)) {ms : List (Move ε Act Job)} {c : Config Op ε σ}
    (hms : U.Obeyed M c ms) (hc : I c.state) : I (c.run M ms).state := by
  induction ms generalizing c with
  | nil => exact hc
  | cons m ms ih =>
    exact ih hms.2 (Config.step_rel (R := fun s t => I s → I t) (fun _ h => h) hact hcall hstop
      hms.1 hc)

theorem Config.run_concat (M : Machine Op ε σ Act Job) (c : Config Op ε σ)
    (ms : List (Move ε Act Job)) (m : Move ε Act Job) :
    c.run M (ms ++ [m]) = (c.run M ms).step M m := by
  simp [Config.run]

theorem Config.run_append (M : Machine Op ε σ Act Job) (c : Config Op ε σ)
    (ms ms' : List (Move ε Act Job)) : c.run M (ms ++ ms') = (c.run M ms).run M ms' :=
  List.foldl_append

theorem Rules.obeyed_append {M : Machine Op ε σ Act Job} {U : Rules Op σ Act Job}
    {c : Config Op ε σ} {ms ms' : List (Move ε Act Job)} :
    U.Obeyed M c (ms ++ ms') ↔ U.Obeyed M c ms ∧ U.Obeyed M (c.run M ms) ms' := by
  induction ms generalizing c with
  | nil => simp [Rules.Obeyed, Config.run]
  | cons m ms ih =>
    simp only [List.cons_append, Rules.Obeyed, ih, and_assoc]
    rfl

theorem Rules.obeyed_concat {M : Machine Op ε σ Act Job} {U : Rules Op σ Act Job}
    {c : Config Op ε σ} {ms : List (Move ε Act Job)} {m : Move ε Act Job} :
    U.Obeyed M c (ms ++ [m]) ↔ U.Obeyed M c ms ∧ U.allows (c.run M ms) m := by
  simp [Rules.obeyed_append, Rules.Obeyed]

theorem Rules.obeyed_default {M : Machine Op ε σ Act Job} (c : Config Op ε σ)
    (ms : List (Move ε Act Job)) : ({} : Rules Op σ Act Job).Obeyed M c ms := by
  induction ms generalizing c with
  | nil => trivial
  | cons m ms ih =>
    refine ⟨?_, ih _⟩
    cases m <;> simp only [Rules.allows] <;> split <;> trivial

/-- What a proof about a process commits to: the state invariant, what the other parties may
change between two calls, what is to hold at each call, and what holds at rest. -/
structure Spec (Op : Type → Type) (σ : Type) where
  inv : σ → Prop
  rely : σ → σ → Prop
  rely_refl : ∀ s, rely s s
  rely_trans : ∀ {s₁ s₂ s₃}, rely s₁ s₂ → rely s₂ s₃ → rely s₁ s₃
  good : {β : Type} → Op β → σ → Prop
  rest : σ → Prop := fun _ => True

/-- A condition on how a process ends: `P` on its result, `E` on its error. -/
def ends {α : Type} (P : α → σ → Prop) (E : ε → σ → Prop) : Except ε α → σ → Prop
  | .ok a, s => P a s
  | .error e, s => E e s

theorem ends_mono {α : Type} {P P' : α → σ → Prop} {E E' : ε → σ → Prop} {r : Except ε α} {s : σ}
    (hP : ∀ a, P a s → P' a s) (hE : ∀ e, E e s → E' e s) (h : ends P E r s) : ends P' E' r s := by
  cases r with
  | ok a => exact hP a h
  | error e => exact hE e h

section Calculus

variable (M : Machine Op ε σ Act Job) (U : Rules Op σ Act Job) (S : Spec Op σ)

/-- The states from which the process meets its specification whatever the others do, and ends
in `Q`. -/
def wp {α : Type} : Prog Op ε α → (Except ε α → σ → Prop) → σ → Prop
  | .done r, Q, s => ∀ s', S.rely s s' → S.inv s' → Q r s'
  | .call op k, Q, s => ∀ s', S.rely s s' → S.inv s' →
      S.good op s' ∧
      (U.callOk op s' → wp (k (M.handle op s').1) Q (M.handle op s').2) ∧
      (M.fallible op = true → U.faultOk op s' → ∀ e, wp (k (.error e)) Q s')

/-- The obligations under which the calculus speaks about runs. -/
structure Sound : Prop where
  act : ∀ a s, S.inv s → U.actOk a s → S.inv (M.act a s) ∧ S.rely s (M.act a s)
  act_rest : ∀ a s, S.inv s → S.rest s → U.actOk a s → S.rest (M.act a s)
  call : ∀ {β : Type} (op : Op β) s, S.inv s → S.good op s → U.callOk op s →
    S.inv (M.handle op s).2
  stop : ∀ s, S.inv s → U.stopOk s → S.inv (M.stop s) ∧ S.rest (M.stop s)
  job : ∀ j s, U.jobOk j → S.inv s → S.rest s → wp M U S (M.program j) (fun _ => S.rest) s

variable {M U S} {α β : Type} {s s' : σ}

theorem wp_stable {p : Prog Op ε α} {Q : Except ε α → σ → Prop}
    (h : wp M U S p Q s) (hr : S.rely s s') : wp M U S p Q s' := by
  cases p with
  | done r => exact fun t ht hi => h t (S.rely_trans hr ht) hi
  | call op k => exact fun t ht hi => h t (S.rely_trans hr ht) hi

theorem wp_of_rely {p : Prog Op ε α} {Q : Except ε α → σ → Prop}
    (h : ∀ s', S.rely s s' → S.inv s' → wp M U S p Q s') : wp M U S p Q s := by
  cases p with
  | done r => exact fun t ht hi => h t ht hi t (S.rely_refl t) hi
  | call op k => exact fun t ht hi => h t ht hi t (S.rely_refl t) hi

theorem wp_mono {p : Prog Op ε α} {Q Q' : Except ε α → σ → Prop}
    (hQ : ∀ r s, S.inv s → Q r s → Q' r s) (h : wp M U S p Q s) : wp M U S p Q' s := by
  induction p generalizing s with
  | done r => exact fun t ht hi => hQ r t hi (h t ht hi)
  | call op k ih =>
    intro t ht hi
    obtain ⟨hg, hc, hf⟩ := h t ht hi
    exact ⟨hg, fun hk => ih _ (hc hk), fun hfa hfo e => ih _ (hf hfa hfo e)⟩

/-- Sequencing: the first part has to end where the rest can go on. -/
theorem wp_bind {p : Prog Op ε α} {f : α → Prog Op ε β}
    {Q : Except ε β → σ → Prop}
    (h : wp M U S p (ends (fun a => wp M U S (f a) Q) fun e => Q (.error e)) s) :
    wp M U S (p >>= f) Q s := by
  rw [Prog.bind_eq]
  induction p generalizing s with
  | done r =>
    cases r with
    | error e => exact h
    | ok a =>
      change wp M U S (f a) Q s
      exact wp_of_rely h
  | call op k ih =>
    intro t ht hi
    obtain ⟨hg, hc, hf⟩ := h t ht hi
    exact ⟨hg, fun hk => ih _ (hc hk), fun hfa hfo e => ih _ (hf hfa hfo e)⟩

theorem wp_pure {a : α} {Q : Except ε α → σ → Prop}
    (hQ : ∀ s', S.rely s s' → S.inv s' → Q (.ok a) s') :
    wp M U S (pure a : Prog Op ε α) Q s :=
  hQ

theorem wp_perform {op : Op α} {Q : Except ε α → σ → Prop}
    (h : ∀ s', S.rely s s' → S.inv s' → S.good op s' ∧
      (U.callOk op s' → ∀ t, S.rely (M.handle op s').2 t → S.inv t → Q (M.handle op s').1 t) ∧
      (M.fallible op = true → U.faultOk op s' → ∀ e t, S.rely s' t → S.inv t → Q (.error e) t)) :
    wp M U S (Prog.perform op) Q s :=
  h

theorem wp_call {op : Op α} {f : α → Prog Op ε β} {Q : Except ε β → σ → Prop}
    (h : ∀ s', S.rely s s' → S.inv s' → S.good op s' ∧
      (U.callOk op s' → ends (fun a => wp M U S (f a) Q)
        (fun e s => ∀ t, S.rely s t → S.inv t → Q (.error e) t)
        (M.handle op s').1 (M.handle op s').2) ∧
      (M.fallible op = true → U.faultOk op s' → ∀ e t, S.rely s' t → S.inv t → Q (.error e) t)) :
    wp M U S (Prog.perform op >>= f) Q s := by
  intro s' hs hi
  obtain ⟨hg, hk, hf⟩ := h s' hs hi
  refine ⟨hg, fun hc => ?_, hf⟩
  have hk := hk hc
  generalize (M.handle op s').1 = reply at hk ⊢
  cases reply with
  | ok a => exact hk
  | error e => exact hk

theorem wp_attempt {p : Prog Op ε α} {Q : Except ε (Except ε α) → σ → Prop}
    (h : wp M U S p (fun r => Q (.ok r)) s) : wp M U S p.attempt Q s := by
  induction p generalizing s with
  | done r => exact h
  | call op k ih =>
    intro t ht hi
    obtain ⟨hg, hc, hf⟩ := h t ht hi
    exact ⟨hg, fun hk => ih _ (hc hk), fun hfa hfo e => ih _ (hf hfa hfo e)⟩

theorem wp_keep {X : σ → Prop} (hstable : ∀ s t, X s → S.rely s t → X t)
    (hcall : ∀ {β : Type} (op : Op β) s, X s → X (M.handle op s).2) {p : Prog Op ε α}
    {Q : Except ε α → σ → Prop} (h : wp M U S p Q s) (hX : X s) :
    wp M U S p (fun r t => Q r t ∧ X t) s := by
  induction p generalizing s with
  | done r => exact fun t ht hi => ⟨h t ht hi, hstable s t hX ht⟩
  | call op k ih =>
    intro t ht hi
    obtain ⟨hg, hc, hf⟩ := h t ht hi
    have hXt := hstable s t hX ht
    exact ⟨hg, fun hk => ih _ (hc hk) (hcall op t hXt), fun hfa hfo e => ih _ (hf hfa hfo e) hXt⟩

/-- A loop over a list: `P` links what is still to do with the accumulator and the state. -/
theorem wp_foldlM {f : β → α → Prog Op ε β}
    {Q : Except ε β → σ → Prop} (P : List α → β → σ → Prop)
    (hstep : ∀ x xs b s, P (x :: xs) b s → S.inv s →
      wp M U S (f b x) (ends (P xs) fun e => Q (.error e)) s)
    (hstable : ∀ xs b s t, P xs b s → S.rely s t → S.inv t → P xs b t)
    (hend : ∀ b s, P [] b s → S.inv s → Q (.ok b) s)
    {xs : List α} {b : β} (h : P xs b s) : wp M U S (xs.foldlM f b) Q s := by
  induction xs generalizing b s with
  | nil => exact fun t ht hi => hend b t (hstable _ _ _ _ h ht hi) hi
  | cons x xs ih =>
    rw [List.foldlM_cons]
    apply wp_bind
    apply wp_of_rely
    intro t ht hi
    refine wp_mono ?_ (hstep x xs b t (hstable _ _ _ _ h ht hi) hi)
    intro r u _ hr
    cases r with
    | ok b' => exact ih hr
    | error e => exact hr

/-- The frame rule: calls that keep `P` and need nothing else leave it in place, and the result
is one the process may end with. -/
theorem wp_within {ok : {β : Type} → Op β → Prop} {P : σ → Prop} {p : Prog Op ε α}
    (hp : p.Within ok) (hstable : ∀ s t, P s → S.rely s t → S.inv t → P t)
    (hcall : ∀ {β : Type} (op : Op β) s, ok op → S.inv s → P s →
      S.good op s ∧ (U.callOk op s → P (M.handle op s).2))
    (h : P s) : wp M U S p (fun r t => P t ∧ p.Ends r) s := by
  induction p generalizing s with
  | done r => exact fun t ht hi => ⟨hstable s t h ht hi, rfl⟩
  | call op k ih =>
    intro t ht hi
    have hPt := hstable s t h ht hi
    obtain ⟨hg, hk⟩ := hcall op t hp.1 hi hPt
    refine ⟨hg, fun hc => ?_, fun _ _ e => ?_⟩
    · exact wp_mono (fun r u _ hr => ⟨hr.1, _, hr.2⟩) (ih _ (hp.2 _) (hk hc))
    · exact wp_mono (fun r u _ hr => ⟨hr.1, _, hr.2⟩) (ih _ (hp.2 _) hPt)

theorem wp_attemptCall {op : Op α} {f : Except ε α → Prog Op ε β} {Q : Except ε β → σ → Prop}
    (h : ∀ s', S.rely s s' → S.inv s' → S.good op s' ∧
      (U.callOk op s' → wp M U S (f (M.handle op s').1) Q (M.handle op s').2) ∧
      (M.fallible op = true → U.faultOk op s' → ∀ e, wp M U S (f (.error e)) Q s')) :
    wp M U S ((Prog.perform op).attempt >>= f) Q s :=
  h

/-- A run of one process to its end, with what the others do between its calls. -/
inductive Yields (M : Machine Op ε σ Act Job) (R : σ → σ → Prop) {α : Type} :
    Prog Op ε α → σ → Except ε α → σ → Prop
  | done {r : Except ε α} {s s' : σ} (hR : R s s') : Yields M R (.done r) s r s'
  | reply {β : Type} {op : Op β} {k : Except ε β → Prog Op ε α} {r : Except ε α} {s t s' : σ}
      (hR : R s t) (h : Yields M R (k (M.handle op t).1) (M.handle op t).2 r s') :
      Yields M R (.call op k) s r s'
  | fault {β : Type} {op : Op β} {k : Except ε β → Prog Op ε α} {r : Except ε α} {s t s' : σ}
      (hR : R s t) (hop : M.fallible op = true) (e : ε) (h : Yields M R (k (.error e)) t r s') :
      Yields M R (.call op k) s r s'

theorem Yields.alone {p : Prog Op ε α} {s : σ} :
    Yields M Eq p s (p.alone M.handle s).1 (p.alone M.handle s).2 := by
  induction p generalizing s with
  | done r => exact .done rfl
  | call op k ih => exact .reply rfl (ih _)

theorem Yields.ends {p : Prog Op ε α} {Q : Except ε α → σ → Prop} {r : Except ε α}
    (hinv : ∀ s, S.inv s) (hcall : ∀ {β : Type} (op : Op β) s, U.callOk op s)
    (hfault : ∀ {β : Type} (op : Op β) s, U.faultOk op s) (hy : Yields M S.rely p s r s')
    (h : wp M U S p Q s) : Q r s' := by
  induction hy with
  | done hR => exact h _ hR (hinv _)
  | reply hR _ ih => exact ih ((h _ hR (hinv _)).2.1 (hcall _ _))
  | fault hR hop e _ ih => exact ih ((h _ hR (hinv _)).2.2 hop (hfault _ _) e)

/-- Where a configuration stands with respect to the specification. -/
def Meets (M : Machine Op ε σ Act Job) (U : Rules Op σ Act Job) (S : Spec Op σ)
    (c : Config Op ε σ) : Prop :=
  S.inv c.state ∧
    match c.running with
    | none => S.rest c.state
    | some p => wp M U S p (fun _ => S.rest) c.state

theorem Meets.step (hS : Sound M U S) {c : Config Op ε σ} (hc : Meets M U S c)
    {m : Move ε Act Job} (hm : U.allows c m) : Meets M U S (c.step M m) := by
  obtain ⟨s, running⟩ := c
  obtain ⟨hi, hr⟩ := hc
  cases m with
  | outside a =>
    obtain ⟨hi', hrel⟩ := hS.act a s hi hm
    refine ⟨hi', ?_⟩
    cases running with
    | none => exact hS.act_rest a s hi hr hm
    | some p => exact wp_stable hr hrel
  | start j =>
    cases running with
    | none => exact ⟨hi, hS.job j s hm hi hr⟩
    | some p => exact ⟨hi, hr⟩
  | advance =>
    cases running with
    | none => exact ⟨hi, hr⟩
    | some p =>
      cases p with
      | done r => exact ⟨hi, hr s (S.rely_refl s) hi⟩
      | call op k =>
        obtain ⟨hg, hk, _⟩ := hr s (S.rely_refl s) hi
        exact ⟨hS.call op s hi hg hm, hk hm⟩
  | fault e =>
    cases running with
    | none => exact ⟨hi, hr⟩
    | some p =>
      cases p with
      | done r => exact ⟨hi, hr⟩
      | call op k =>
        by_cases hf : M.fallible op
        · obtain ⟨_, _, he⟩ := hr s (S.rely_refl s) hi
          simp only [Config.step, hf, if_true]
          exact ⟨hi, he hf hm e⟩
        · simp only [Config.step, hf]
          exact ⟨hi, hr⟩
  | stop =>
    obtain ⟨hi', hr'⟩ := hS.stop s hi hm
    exact ⟨hi', hr'⟩

theorem Meets.run (hS : Sound M U S) {ms : List (Move ε Act Job)} {c : Config Op ε σ}
    (hc : Meets M U S c) (hms : U.Obeyed M c ms) : Meets M U S (c.run M ms) := by
  induction ms generalizing c with
  | nil => exact hc
  | cons m ms ih => exact ih (hc.step hS hms.1) hms.2

theorem Meets.inv {c : Config Op ε σ} (hc : Meets M U S c) : S.inv c.state := hc.1

/-- What each move relates, a run relates from its start to its end.  Of a call it is known that
it meets its precondition. -/
theorem Meets.run_rel (hS : Sound M U S) {R : σ → σ → Prop} (hrefl : ∀ s, R s s)
    (htrans : ∀ {s t u}, R s t → R t u → R s u)
    (hact : ∀ a s, S.inv s → U.actOk a s → R s (M.act a s))
    (hcall : ∀ {β : Type} (op : Op β) s, S.inv s → S.good op s → U.callOk op s →
      R s (M.handle op s).2)
    (hstop : ∀ s, R s (M.stop s)) {ms : List (Move ε Act Job)} {c : Config Op ε σ}
    (hc : Meets M U S c) (hms : U.Obeyed M c ms) : R c.state (c.run M ms).state := by
  induction ms generalizing c with
  | nil => exact hrefl _
  | cons m ms ih =>
    have hstep : R c.state (c.step M m).state := by
      obtain ⟨s, running⟩ := c
      obtain ⟨hi, hr⟩ := hc
      cases m with
      | outside a => exact hact a s hi hms.1
      | start j => cases running <;> exact hrefl s
      | advance =>
        cases running with
        | none => exact hrefl s
        | some p =>
          cases p with
          | done r => exact hrefl s
          | call op k => exact hcall op s hi (hr s (S.rely_refl s) hi).1 hms.1
      | fault e =>
        cases running with
        | none => exact hrefl s
        | some p =>
          cases p with
          | done r => exact hrefl s
          | call op k =>
            simp only [Config.step]
            split <;> exact hrefl s
      | stop => exact hstop s
    exact htrans hstep (ih (hc.step hS hms.1) hms.2)

theorem Meets.good {c : Config Op ε σ} (hc : Meets M U S c)
    {op : Op α} {k : Except ε α → Prog Op ε Unit} (hrun : c.running = some (.call op k)) :
    S.good op c.state := by
  obtain ⟨hi, hr⟩ := hc
  rw [hrun] at hr
  exact (hr c.state (S.rely_refl _) hi).1

end Calculus

end JamJet.AtomicCalls
