import Mathlib.Data.Multiset.Basic
import Mathlib.Logic.Function.Basic
import Mathlib.Logic.Hydra
import Mathlib.Tactic.Common

/-! Synchronous `@durable` calls over one `SqliteCache`: threads whose functions call durable
functions, in any interleaving.  The lock of the cache is held while the function runs. -/

namespace JamJet.Durable

variable {Key Val Err Blob : Type}

/-- What a function does from here on, as far as the cache is concerned: its durable calls, with
what it does on the result of each, an exception included. -/
inductive Body (Key Val Err : Type)
  | done (result : Except Err Val)
  | call (key : Key) (compute : Body Key Val Err) (next : Except Err Val → Body Key Val Err)

/-- A call of `get_or_compute`, and what its caller does with the result. -/
structure Call (Key Val Err : Type) where
  key : Key
  next : Except Err Val → Body Key Val Err

inductive Point (Key Val Err : Type)
  | running (body : Body Key Val Err)
  /-- At `with self._lock`. -/
  | waiting (call : Call Key Val Err) (compute : Body Key Val Err)
  /-- With the lock, before the `SELECT`. -/
  | looking (call : Call Key Val Err) (compute : Body Key Val Err)

/-- A thread, with the calls whose functions it is in, the innermost first. -/
structure Thread (Key Val Err : Type) where
  point : Point Key Val Err
  opened : List (Call Key Val Err) := []

/-- The serialization of cached values. -/
structure Pickle (Val Err Blob : Type) where
  dumps : Val → Except Err Blob
  loads : Blob → Except Err Val

inductive Event (Key : Type)
  /-- The function of a call begins. -/
  | runs (key : Key)
  /-- A call returns a value. -/
  | returns (key : Key)

structure Sys (Key Val Err Blob : Type) where
  threads : List (Thread Key Val Err)
  lock : Option ℕ := none
  rows : Key → Option Blob
  log : List (Event Key) := []

/-- Threads that begin their functions, over a table as it is. -/
def start (bodies : List (Body Key Val Err)) (rows : Key → Option Blob) : Sys Key Val Err Blob where
  threads := bodies.map fun body => { point := .running body }
  rows := rows

def noted (key : Key) : Except Err Val → List (Event Key) → List (Event Key)
  | .ok _, log => log ++ [.returns key]
  | .error _, log => log

variable [DecidableEq Key] (pickle : Pickle Val Err Blob)

/-- From the end of the function to the end of the transaction: what cannot be stored is rolled
back, and raised. -/
def record (key : Key) (result : Except Err Val) (rows : Key → Option Blob) :
    Except Err Val × (Key → Option Blob) :=
  match result with
  | .error err => (.error err, rows)
  | .ok value =>
      match pickle.dumps value with
      | .error err => (.error err, rows)
      | .ok blob => (.ok value, Function.update rows key (some blob))

/-- The next step of the thread at a place; a thread that waits for the lock, or has returned, has
none. -/
def step (s : Sys Key Val Err Blob) (t : ℕ) : Option (Sys Key Val Err Blob) :=
  match s.threads[t]? with
  | none => none
  | some thread =>
      match thread.point with
      | .running (.call key compute next) =>
          some { s with
            threads := s.threads.set t { thread with point := .waiting ⟨key, next⟩ compute } }
      | .waiting call compute =>
          match s.lock with
          | some _ => none
          | none =>
              some { s with
                threads := s.threads.set t { thread with point := .looking call compute }
                lock := some t }
      | .looking call compute =>
          match s.rows call.key with
          | some blob =>
              some { s with
                threads := s.threads.set t
                  { thread with point := .running (call.next (pickle.loads blob)) }
                lock := none
                log := noted call.key (pickle.loads blob) s.log }
          | none =>
              some { s with
                threads := s.threads.set t
                  { point := .running compute, opened := call :: thread.opened }
                log := s.log ++ [.runs call.key] }
      | .running (.done result) =>
          match thread.opened with
          | [] => none
          | call :: outer =>
              let (result, rows) := record pickle call.key result s.rows
              some { s with
                threads := s.threads.set t
                  { point := .running (call.next result), opened := outer }
                lock := none
                rows := rows
                log := noted call.key result s.log }

/-- The states along a schedule, which names the thread of each step; it ends where that thread
cannot move. -/
def trace (s : Sys Key Val Err Blob) : List ℕ → List (Sys Key Val Err Blob)
  | [] => [s]
  | t :: rest =>
      match step pickle s t with
      | none => [s]
      | some s' => s :: trace s' rest

def Steps (s s' : Sys Key Val Err Blob) : Prop := ∃ t, step pickle s t = some s'

/-- One step, by what the thread was about. -/
inductive Moves (s : Sys Key Val Err Blob) (t : ℕ) (thread : Thread Key Val Err) :
    Sys Key Val Err Blob → Prop
  | enter (key compute next) (hpoint : thread.point = .running (.call key compute next)) :
      Moves s t thread { s with
        threads := s.threads.set t { thread with point := .waiting ⟨key, next⟩ compute } }
  | acquire (call compute) (hpoint : thread.point = .waiting call compute) (hlock : s.lock = none) :
      Moves s t thread { s with
        threads := s.threads.set t { thread with point := .looking call compute }
        lock := some t }
  | hit (call compute blob) (hpoint : thread.point = .looking call compute)
      (hrow : s.rows call.key = some blob) :
      Moves s t thread { s with
        threads := s.threads.set t
          { thread with point := .running (call.next (pickle.loads blob)) }
        lock := none
        log := noted call.key (pickle.loads blob) s.log }
  | miss (call compute) (hpoint : thread.point = .looking call compute)
      (hrow : s.rows call.key = none) :
      Moves s t thread { s with
        threads := s.threads.set t { point := .running compute, opened := call :: thread.opened }
        log := s.log ++ [.runs call.key] }
  | close (result call outer) (hpoint : thread.point = .running (.done result))
      (hopened : thread.opened = call :: outer) :
      Moves s t thread { s with
        threads := s.threads.set t
          { point := .running (call.next (record pickle call.key result s.rows).1)
            opened := outer }
        lock := none
        rows := (record pickle call.key result s.rows).2
        log := noted call.key (record pickle call.key result s.rows).1 s.log }

variable {pickle} {s s' : Sys Key Val Err Blob} {t : ℕ}

theorem step_cases (h : step pickle s t = some s') :
    ∃ thread, s.threads[t]? = some thread ∧ Moves pickle s t thread s' := by
  unfold step at h
  cases hthread : s.threads[t]? with
  | none => simp [hthread] at h
  | some thread =>
    refine ⟨thread, rfl, ?_⟩
    simp only [hthread] at h
    cases hpoint : thread.point with
    | running body =>
      cases body with
      | call key compute next =>
        simp only [hpoint, Option.some.injEq] at h
        exact h ▸ .enter key compute next hpoint
      | done result =>
        cases hopened : thread.opened with
        | nil => simp [hpoint, hopened] at h
        | cons call outer =>
          simp only [hpoint, hopened, Option.some.injEq] at h
          exact h ▸ .close result call outer hpoint hopened
    | waiting call compute =>
      cases hlock : s.lock with
      | some holder => simp [hpoint, hlock] at h
      | none =>
        simp only [hpoint, hlock, Option.some.injEq] at h
        exact h ▸ .acquire call compute hpoint hlock
    | looking call compute =>
      cases hrow : s.rows call.key with
      | some blob =>
        simp only [hpoint, hrow, Option.some.injEq] at h
        exact h ▸ .hit call compute blob hpoint hrow
      | none =>
        simp only [hpoint, hrow, Option.some.injEq] at h
        exact h ▸ .miss call compute hpoint hrow

section Finite

/-- What one thread can come to in one step, whatever the cache gives it. -/
inductive Forward : Thread Key Val Err → Thread Key Val Err → Prop
  | enter {key compute next opened} :
      Forward ⟨.waiting ⟨key, next⟩ compute, opened⟩ ⟨.running (.call key compute next), opened⟩
  | acquire {call compute opened} :
      Forward ⟨.looking call compute, opened⟩ ⟨.waiting call compute, opened⟩
  | hit {call compute opened} (result) :
      Forward ⟨.running (call.next result), opened⟩ ⟨.looking call compute, opened⟩
  | miss {call compute opened} :
      Forward ⟨.running compute, call :: opened⟩ ⟨.looking call compute, opened⟩
  | close {call opened result} (result') :
      Forward ⟨.running (call.next result'), opened⟩ ⟨.running (.done result), call :: opened⟩

omit [DecidableEq Key] in
theorem acc_looking {call : Call Key Val Err} {compute : Body Key Val Err}
    {opened : List (Call Key Val Err)}
    (hhit : ∀ result, Acc Forward ⟨.running (call.next result), opened⟩)
    (hmiss : Acc Forward ⟨.running compute, call :: opened⟩) :
    Acc Forward ⟨.looking call compute, opened⟩ := by
  refine .intro _ fun thread h => ?_
  cases h with
  | hit result => exact hhit result
  | miss => exact hmiss

omit [DecidableEq Key] in
theorem acc_waiting {call : Call Key Val Err} {compute : Body Key Val Err}
    {opened : List (Call Key Val Err)} (h : Acc Forward ⟨.looking call compute, opened⟩) :
    Acc Forward ⟨.waiting call compute, opened⟩ := by
  refine .intro _ fun thread hstep => ?_
  cases hstep
  exact h

omit [DecidableEq Key] in
theorem acc_running (body : Body Key Val Err) (opened : List (Call Key Val Err))
    (hreturn : ∀ call outer, opened = call :: outer →
      ∀ result, Acc Forward ⟨.running (call.next result), outer⟩) :
    Acc Forward ⟨.running body, opened⟩ := by
  induction body generalizing opened with
  | done result =>
    refine .intro _ fun thread h => ?_
    cases h with
    | close result' => exact hreturn _ _ rfl result'
  | call key compute next ihcompute ihnext =>
    refine .intro _ fun thread h => ?_
    cases h
    have hnext : ∀ result, Acc Forward ⟨.running (next result), opened⟩ :=
      fun result => ihnext result opened hreturn
    refine acc_waiting (acc_looking hnext (ihcompute _ fun call outer heq result => ?_))
    obtain ⟨rfl, rfl⟩ := List.cons.inj heq
    exact hnext result

omit [DecidableEq Key] in
theorem forward_wf : WellFounded (@Forward Key Val Err) := by
  refine ⟨fun ⟨point, opened⟩ => ?_⟩
  have hreturn : ∀ (opened : List (Call Key Val Err)) call outer, opened = call :: outer →
      ∀ result, Acc Forward ⟨.running (call.next result), outer⟩ := by
    intro opened
    induction opened with
    | nil => simp
    | cons head tail ih =>
      intro call outer heq result
      obtain ⟨rfl, rfl⟩ := List.cons.inj heq
      exact acc_running _ _ ih
  have hrunning : ∀ body opened, Acc Forward (⟨.running body, opened⟩ : Thread Key Val Err) :=
    fun body opened => acc_running body opened (hreturn opened)
  have hlooking : ∀ call compute, Acc Forward (⟨.looking call compute, opened⟩ : Thread Key Val Err) :=
    fun call compute => acc_looking (fun _ => hrunning _ _) (hrunning _ _)
  cases point with
  | running body => exact hrunning body opened
  | waiting call compute => exact acc_waiting (hlooking call compute)
  | looking call compute => exact hlooking call compute

theorem Moves.forward {thread : Thread Key Val Err} (h : Moves pickle s t thread s') :
    ∃ thread', s'.threads = s.threads.set t thread' ∧ Forward thread' thread := by
  obtain ⟨point, opened⟩ := thread
  cases h with
  | enter key compute next hpoint =>
    subst hpoint
    exact ⟨_, rfl, .enter⟩
  | acquire call compute hpoint =>
    subst hpoint
    exact ⟨_, rfl, .acquire⟩
  | hit call compute blob hpoint =>
    subst hpoint
    exact ⟨_, rfl, .hit _⟩
  | miss call compute hpoint =>
    subst hpoint
    exact ⟨_, rfl, .miss⟩
  | close result call outer hpoint hopened =>
    subst hpoint hopened
    exact ⟨_, rfl, .close _⟩

theorem coe_set {α : Type} {l : List α} {t : ℕ} {a b : α} (h : l[t]? = some a) :
    (↑(l.set t b) : Multiset α) + {a} = ↑l + {b} := by
  induction l generalizing t with
  | nil => simp at h
  | cons x l ih =>
    cases t with
    | zero =>
      obtain rfl : x = a := by simpa using h
      rw [List.set_cons_zero, ← Multiset.cons_coe, ← Multiset.cons_coe, add_comm,
        Multiset.singleton_add, add_comm, Multiset.singleton_add, Multiset.cons_swap]
    | succ t =>
      have hrest := @ih t (by simpa using h)
      rw [List.set_cons_succ, ← Multiset.cons_coe, ← Multiset.cons_coe, Multiset.cons_add,
        Multiset.cons_add, hrest]

theorem steps_wf (pickle : Pickle Val Err Blob) :
    WellFounded fun s' s : Sys Key Val Err Blob => Steps pickle s s' := by
  refine Subrelation.wf (fun {s' s} h => ?_)
    (InvImage.wf (fun s : Sys Key Val Err Blob => Multiset.ofList s.threads) forward_wf.cutExpand)
  obtain ⟨t, hstep⟩ := h
  obtain ⟨thread, hthread, hmoves⟩ := step_cases hstep
  obtain ⟨thread', hthreads, hforward⟩ := hmoves.forward
  refine ⟨{thread'}, thread, by simpa using hforward, ?_⟩
  have hset := coe_set (b := thread') hthread
  rwa [← hthreads] at hset

end Finite

section Runs

/-- The thread is in a call and has the lock for it. -/
def Thread.Holds (thread : Thread Key Val Err) : Prop :=
  thread.opened ≠ [] ∨ ∃ call compute, thread.point = .looking call compute

/-- The thread is in one call at most. -/
def Thread.Single (thread : Thread Key Val Err) : Prop :=
  ∀ call outer, thread.opened = call :: outer →
    outer = [] ∧ ∀ call compute, thread.point ≠ .looking call compute

/-- The lock is with the thread that is in a call. -/
structure Held (s : Sys Key Val Err Blob) : Prop where
  holder : ∀ (t : ℕ) (thread : Thread Key Val Err), s.threads[t]? = some thread →
    (thread.Holds ↔ s.lock = some t)
  single : ∀ (t : ℕ) (thread : Thread Key Val Err), s.threads[t]? = some thread → thread.Single
  valid : ∀ t : ℕ, s.lock = some t → ∃ thread, s.threads[t]? = some thread

omit [DecidableEq Key] in
theorem held_start (bodies : List (Body Key Val Err)) (rows : Key → Option Blob) :
    Held (start bodies rows) := by
  have hthread : ∀ (t : ℕ) thread, (start bodies rows).threads[t]? = some thread →
      ∃ body, thread = { point := .running body } := by
    intro t thread h
    obtain ⟨body, -, rfl⟩ := List.mem_map.mp (List.mem_of_getElem? h)
    exact ⟨body, rfl⟩
  refine ⟨fun t thread h => ?_, fun t thread h call outer hopened => ?_, by simp [start]⟩
  · obtain ⟨body, rfl⟩ := hthread t thread h
    simp [Thread.Holds, start]
  · obtain ⟨body, rfl⟩ := hthread t thread h
    cases hopened

theorem getElem?_of_set {α : Type} {l : List α} {t u : ℕ} {a b : α}
    (h : (l.set t a)[u]? = some b) : (u = t ∧ b = a) ∨ (u ≠ t ∧ l[u]? = some b) := by
  rw [List.getElem?_set] at h
  split at h
  · rename_i heq
    split at h
    · exact .inl ⟨heq.symm, (Option.some.inj h).symm⟩
    · cases h
  · rename_i hne
    exact .inr ⟨Ne.symm hne, h⟩

theorem getElem?_set_of_some {α : Type} {l : List α} {t : ℕ} {a b : α} (h : l[t]? = some a) :
    (l.set t b)[t]? = some b := by
  obtain ⟨hlt, -⟩ := List.getElem?_eq_some_iff.mp h
  simp [hlt]

omit [DecidableEq Key] in
theorem Held.set {thread thread' : Thread Key Val Err} (h : Held s)
    (hthread : s.threads[t]? = some thread) (hthreads : s'.threads = s.threads.set t thread')
    (hholds : thread'.Holds ↔ s'.lock = some t)
    (hothers : ∀ u, u ≠ t → (s'.lock = some u ↔ s.lock = some u)) (hsingle : thread'.Single) :
    Held s' where
  holder u thread hu := by
    rcases getElem?_of_set (hthreads ▸ hu) with ⟨rfl, rfl⟩ | ⟨hne, hu⟩
    · exact hholds
    · exact (h.holder u thread hu).trans (hothers u hne).symm
  single u thread hu := by
    rcases getElem?_of_set (hthreads ▸ hu) with ⟨rfl, rfl⟩ | ⟨-, hu⟩
    · exact hsingle
    · exact h.single u thread hu
  valid u hu := by
    by_cases heq : u = t
    · subst heq
      exact ⟨thread', hthreads ▸ getElem?_set_of_some hthread⟩
    · obtain ⟨thread, hthread⟩ := h.valid u ((hothers u heq).mp hu)
      refine ⟨thread, ?_⟩
      rw [hthreads, List.getElem?_set_ne (Ne.symm heq)]
      exact hthread

omit [DecidableEq Key] in
theorem Held.of_looking {thread : Thread Key Val Err} {call : Call Key Val Err}
    {compute : Body Key Val Err} (h : Held s) (hthread : s.threads[t]? = some thread)
    (hpoint : thread.point = .looking call compute) : s.lock = some t ∧ thread.opened = [] := by
  refine ⟨(h.holder t thread hthread).mp (.inr ⟨call, compute, hpoint⟩), ?_⟩
  cases hopened : thread.opened with
  | nil => rfl
  | cons outer rest => exact absurd hpoint ((h.single t thread hthread outer rest hopened).2 _ _)

theorem Held.step (h : Held s) (hstep : step pickle s t = some s') : Held s' := by
  obtain ⟨thread, hthread, hmoves⟩ := step_cases hstep
  have hholder := h.holder t thread hthread
  have hsingle := h.single t thread hthread
  cases hmoves with
  | enter key compute next hpoint =>
    refine h.set hthread rfl ?_ (fun _ _ => Iff.rfl) fun call outer hopened =>
      ⟨(hsingle call outer hopened).1, by simp⟩
    rw [← hholder]
    simp [Thread.Holds, hpoint]
  | acquire call compute hpoint hlock =>
    have hopened : thread.opened = [] := by
      by_contra hne
      exact absurd (hholder.mp (.inl hne)) (by simp [hlock])
    refine h.set hthread rfl (by simp [Thread.Holds]) (fun u hne => ?_) ?_
    · simp [hlock, Ne.symm hne]
    · simp [Thread.Single, hopened]
  | hit call compute blob hpoint hrow =>
    obtain ⟨hlock, hopened⟩ := h.of_looking hthread hpoint
    refine h.set hthread rfl (by simp [Thread.Holds, hopened]) (fun u hne => ?_) ?_
    · simp [hlock, Ne.symm hne]
    · simp [Thread.Single, hopened]
  | miss call compute hpoint hrow =>
    obtain ⟨hlock, hopened⟩ := h.of_looking hthread hpoint
    refine h.set hthread rfl (by simp [Thread.Holds, hlock]) (fun _ _ => Iff.rfl) ?_
    simp [Thread.Single, hopened]
  | close result call outer hpoint hopened =>
    obtain ⟨rfl, -⟩ := hsingle call outer hopened
    have hlock : s.lock = some t := hholder.mp (.inl (by simp [hopened]))
    refine h.set hthread rfl (by simp [Thread.Holds]) (fun u hne => ?_) (by simp [Thread.Single])
    simp [hlock, Ne.symm hne]

/-- What a call has returned is stored, and no function runs for a key after that. -/
structure Recorded (s : Sys Key Val Err Blob) : Prop where
  stored : ∀ key, .returns key ∈ s.log → s.rows key ≠ none
  once : s.log.Pairwise fun e e' => ∀ key, e = .returns key → e' ≠ .runs key

omit [DecidableEq Key] in
theorem recorded_start (bodies : List (Body Key Val Err)) (rows : Key → Option Blob) :
    Recorded (start bodies rows) := ⟨by simp [start], by simp [start]⟩

omit [DecidableEq Key] in
theorem Recorded.noted {key : Key} {result : Except Err Val} {rows : Key → Option Blob}
    (h : Recorded s) (hrows : ∀ k, s.rows k ≠ none → rows k ≠ none)
    (hkey : ∀ value, result = .ok value → rows key ≠ none) (hs' : s'.rows = rows)
    (hlog : s'.log = noted key result s.log) : Recorded s' := by
  subst hs'
  cases result with
  | error err =>
    rw [Durable.noted] at hlog
    exact ⟨fun k hk => hrows k (h.stored k (by rwa [hlog] at hk)), by rw [hlog]; exact h.once⟩
  | ok value =>
    refine ⟨fun k hk => ?_, ?_⟩
    · rw [hlog, Durable.noted, List.mem_append, List.mem_singleton] at hk
      rcases hk with hk | hk
      · exact hrows k (h.stored k hk)
      · cases hk
        exact hkey value rfl
    · rw [hlog, Durable.noted, List.pairwise_append]
      exact ⟨h.once, List.pairwise_singleton _ _, by simp⟩

theorem Recorded.step (h : Recorded s) (hstep : step pickle s t = some s') : Recorded s' := by
  obtain ⟨thread, -, hmoves⟩ := step_cases hstep
  cases hmoves with
  | enter => exact ⟨h.stored, h.once⟩
  | acquire => exact ⟨h.stored, h.once⟩
  | hit call compute blob hpoint hrow =>
    exact h.noted (fun _ hk => hk) (fun _ _ => by simp [hrow]) rfl rfl
  | miss call compute hpoint hrow =>
    refine ⟨fun k hk => h.stored k (by simpa using hk), ?_⟩
    rw [List.pairwise_append]
    refine ⟨h.once, List.pairwise_singleton _ _, fun e he e' he' key hreturns hruns => ?_⟩
    subst hreturns
    rw [List.mem_singleton.mp he'] at hruns
    cases hruns
    exact h.stored _ he hrow
  | close result call outer hpoint hopened =>
    have hrows : ∀ k, s.rows k ≠ none → (record pickle call.key result s.rows).2 k ≠ none := by
      intro k hk
      unfold record
      split
      · exact hk
      split
      · exact hk
      · by_cases heq : k = call.key
        · simp [heq]
        · simpa [heq] using hk
    refine h.noted hrows (fun value hvalue => ?_) rfl rfl
    unfold record at hvalue ⊢
    split at hvalue
    · cases hvalue
    split at hvalue
    · cases hvalue
    · simp_all

/-- No call waits for a lock that its own thread holds. -/
def NoSelfWait (s : Sys Key Val Err Blob) : Prop :=
  ∀ (t : ℕ) (thread : Thread Key Val Err) call compute, s.threads[t]? = some thread →
    thread.point = .waiting call compute → s.lock ≠ some t

/-- What is claimed of one state of a run. -/
structure Sound (pickle : Pickle Val Err Blob) (s : Sys Key Val Err Blob) : Prop where
  noSelfWait : NoSelfWait s
  /-- Where no thread can move, all calls have returned, and the functions that made them. -/
  finishes : (∀ t, step pickle s t = none) →
    ∀ thread ∈ s.threads, thread.opened = [] ∧ ∃ result, thread.point = .running (.done result)
  /-- After the first value returned for a key no function runs for it. -/
  once : s.log.Pairwise fun e e' => ∀ key, e = .returns key → e' ≠ .runs key

/-- The next step of the thread enters a call from the function of another. -/
def Nests (s : Sys Key Val Err Blob) (t : ℕ) : Prop :=
  ∃ thread : Thread Key Val Err, s.threads[t]? = some thread ∧ thread.opened ≠ [] ∧
    ∃ key compute next, thread.point = .running (.call key compute next)

/-- No step of the schedule enters a call from the function of another. -/
def Flat (pickle : Pickle Val Err Blob) (s : Sys Key Val Err Blob) : List ℕ → Prop
  | [] => True
  | t :: rest =>
      match step pickle s t with
      | none => True
      | some s' => ¬ Nests s t ∧ Flat pickle s' rest

theorem stuck_cases (hstuck : ∀ t, step pickle s t = none) {thread : Thread Key Val Err}
    (hthread : s.threads[t]? = some thread) :
    (thread.opened = [] ∧ ∃ result, thread.point = .running (.done result)) ∨
      ∃ call compute, thread.point = .waiting call compute ∧ s.lock ≠ none := by
  have hnone := hstuck t
  simp only [step, hthread] at hnone
  cases hpoint : thread.point with
  | running body =>
    cases body with
    | call key compute next => simp [hpoint] at hnone
    | done result =>
      cases hopened : thread.opened with
      | nil => exact .inl ⟨rfl, result, rfl⟩
      | cons call outer => simp [hpoint, hopened] at hnone
  | waiting call compute =>
    refine .inr ⟨call, compute, rfl, fun hlock => ?_⟩
    simp [hpoint, hlock] at hnone
  | looking call compute =>
    cases hrow : s.rows call.key with
    | none => simp [hpoint, hrow] at hnone
    | some blob => simp [hpoint, hrow] at hnone

theorem finishes_of_held (h : Held s) (hself : NoSelfWait s)
    (hstuck : ∀ t, step pickle s t = none) :
    ∀ thread ∈ s.threads, thread.opened = [] ∧ ∃ result, thread.point = .running (.done result) := by
  have hfree : s.lock = none := by
    by_contra hne
    obtain ⟨holder, hlock⟩ := Option.ne_none_iff_exists'.mp hne
    obtain ⟨thread, hthread⟩ := h.valid holder hlock
    rcases stuck_cases hstuck hthread with ⟨hopened, result, hpoint⟩ | ⟨call, compute, hpoint, -⟩
    · rcases (h.holder holder thread hthread).mpr hlock with hin | ⟨call, compute, hlooking⟩
      · exact hin hopened
      · cases hpoint.symm.trans hlooking
    · exact hself holder thread call compute hthread hpoint hlock
  intro thread hmem
  obtain ⟨t, hthread⟩ := List.mem_iff_getElem?.mp hmem
  rcases stuck_cases hstuck hthread with hdone | ⟨_, _, _, hlock⟩
  · exact hdone
  · exact absurd hfree hlock

theorem sound_of_held (h : Held s) (hr : Recorded s) (hself : NoSelfWait s) :
    Sound pickle s := ⟨hself, finishes_of_held h hself, hr.once⟩

theorem not_sound_of_nests (h : Held s) (hstep : step pickle s t = some s') (hnests : Nests s t) :
    ¬ Sound pickle s' := by
  obtain ⟨thread, hthread, hin, key, compute, next, hpoint⟩ := hnests
  obtain ⟨thread', hthread', hmoves⟩ := step_cases hstep
  cases hthread.symm.trans hthread'
  intro hsound
  cases hmoves with
  | enter key compute next _ =>
    exact hsound.noSelfWait t _ ⟨key, next⟩ compute (getElem?_set_of_some hthread) rfl
      ((h.holder t thread hthread).mp (.inl hin))
  | acquire _ _ hwaiting => cases hpoint.symm.trans hwaiting
  | hit _ _ _ hlooking => cases hpoint.symm.trans hlooking
  | miss _ _ hlooking => cases hpoint.symm.trans hlooking
  | close _ _ _ hdone => cases hpoint.symm.trans hdone

theorem NoSelfWait.step (hself : NoSelfWait s) (h : Held s) (hstep : step pickle s t = some s')
    (hflat : ¬ Nests s t) : NoSelfWait s' := by
  intro u waiter call compute hwaiter hwaits hlock
  obtain ⟨thread, hthread, hmoves⟩ := step_cases hstep
  cases hmoves with
  | enter key compute' next hpoint =>
    rcases getElem?_of_set hwaiter with ⟨rfl, rfl⟩ | ⟨-, hu⟩
    · rcases (h.holder u thread hthread).mpr hlock with hin | ⟨_, _, hlooking⟩
      · exact hflat ⟨thread, hthread, hin, key, compute', next, hpoint⟩
      · cases hpoint.symm.trans hlooking
    · exact hself u waiter call compute hu hwaits hlock
  | acquire call' compute' hpoint hfree =>
    rcases getElem?_of_set hwaiter with ⟨rfl, rfl⟩ | ⟨hne, -⟩
    · cases hwaits
    · exact hne (Option.some.inj hlock).symm
  | hit => cases hlock
  | miss call' compute' hpoint hrow =>
    rcases getElem?_of_set hwaiter with ⟨rfl, rfl⟩ | ⟨-, hu⟩
    · cases hwaits
    · exact hself u waiter call compute hu hwaits hlock
  | close => cases hlock

theorem sound_trace_iff (h : Held s) (hr : Recorded s) (hself : NoSelfWait s)
    (schedule : List ℕ) :
    (∀ s' ∈ trace pickle s schedule, Sound pickle s') ↔ Flat pickle s schedule := by
  have hsound : Sound pickle s := sound_of_held h hr hself
  induction schedule generalizing s with
  | nil => simpa [trace, Flat] using hsound
  | cons t rest ih =>
    cases hstep : step pickle s t with
    | none => simpa [trace, Flat, hstep] using hsound
    | some s' =>
      simp only [trace, Flat, hstep, List.mem_cons, forall_eq_or_imp]
      have hnext : s' ∈ trace pickle s' rest := by
        cases rest with
        | nil => exact List.mem_singleton_self s'
        | cons u rest =>
          unfold trace
          split
          · exact List.mem_singleton_self s'
          · exact List.mem_cons_self
      have hrest : ¬ Nests s t → ((∀ s'' ∈ trace pickle s' rest, Sound pickle s'') ↔
          Flat pickle s' rest) := fun hflat =>
        have hself' := hself.step h hstep hflat
        ih (h.step hstep) (hr.step hstep) hself'
          (sound_of_held (h.step hstep) (hr.step hstep) hself')
      constructor
      · rintro ⟨-, hall⟩
        have hflat : ¬ Nests s t := fun hnests =>
          not_sound_of_nests h hstep hnests (hall s' hnext)
        exact ⟨hflat, (hrest hflat).mp hall⟩
      · rintro ⟨hflat, hafter⟩
        exact ⟨hsound, (hrest hflat).mpr hafter⟩

/-- Every run ends; and all is well in every state of it exactly when no durable function calls a
durable function in it. -/
theorem durable_calls_iff (pickle : Pickle Val Err Blob) :
    (WellFounded fun s' s : Sys Key Val Err Blob => Steps pickle s s') ∧
      ∀ (bodies : List (Body Key Val Err)) (rows : Key → Option Blob) (schedule : List ℕ),
        (∀ s ∈ trace pickle (start bodies rows) schedule, Sound pickle s) ↔
          Flat pickle (start bodies rows) schedule := by
  refine ⟨steps_wf pickle, fun bodies rows schedule =>
    sound_trace_iff (held_start bodies rows) (recorded_start bodies rows) ?_ schedule⟩
  intro t thread call compute _ _ hlock
  cases hlock

end Runs

section Nested

/-- Values that are stored as they are. -/
def Pickle.plain : Pickle ℕ String ℕ := ⟨.ok, .ok⟩

/-- A durable function that calls another one and returns what it returns. -/
def outer : Body String ℕ String := .call "outer" (.call "inner" (.done (.ok 1)) .done) .done

/-- The inner call waits for the lock of the outer one, for good. -/
theorem outer_blocks : ∃ s ∈ trace .plain (start [outer] fun _ => none) [0, 0, 0, 0],
    (∀ t, step .plain s t = none) ∧ ¬ Sound .plain s := by
  let call : Call String ℕ String := ⟨"inner", .done⟩
  let blocked : Sys String ℕ String ℕ :=
    { threads := [⟨.waiting call (.done (.ok 1)), [⟨"outer", .done⟩]⟩]
      lock := some 0
      rows := fun _ => none
      log := [.runs "outer"] }
  refine ⟨blocked, ?_, fun t => ?_, fun h => h.noSelfWait 0 _ call _ rfl rfl rfl⟩
  · exact List.mem_of_getElem? (i := 4) rfl
  · cases t with
    | zero => rfl
    | succ t => rfl

end Nested

end JamJet.Durable
