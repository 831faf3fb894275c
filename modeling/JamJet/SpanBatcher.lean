import JamJet.StepRuns

/-! The batcher that hands a client's span events to the transport: events are added from
anywhere, a timer flushes, one flush sends at a time, and a shutdown flushes what is left. -/

namespace JamJet

namespace SpanBatching

/-- The two bounds of `BatcherOptions`, as a length is compared with them: a fraction counts as the
next whole number, a negative number as 0, and `none` is a number that no length reaches. -/
structure BatcherOptions where
  batchSize : Option ℕ := some 32
  maxBufferSize : Option ℕ := some 1024

def reaches (length : ℕ) (bound : Option ℕ) : Bool := bound.any (· ≤ length)

/-- The promise of a `send`. -/
inductive Sent
  | pending
  | fulfilled
  | rejected
deriving DecidableEq

/-- How far the call of `shutdown` is. -/
inductive Shutdown
  | notCalled
  /-- it awaits the `send` of the flush that it started -/
  | awaiting
  /-- its flush has returned -/
  | flushed
  | resolved
  | thrown
deriving DecidableEq

/-- The batcher, and the flush that is suspended in its `send`, if any.  `added` and `batches` are
history: what was added and what `send` was called with. -/
structure Batcher (Event : Type) where
  buffer : List Event := []
  timer : Bool
  flushing : Bool := false
  droppedCount : ℕ := 0
  sending : Option Sent := none
  stopping : Shutdown := .notCalled
  added : List Event := []
  batches : List (List Event) := []

inductive Act (Event : Type)
  | add (event : Event)
  /-- the timer calls `flush` -/
  | tick
  /-- the promise of the running `send` is fulfilled or rejected -/
  | settle (isFulfilled : Bool)
  /-- the flush that awaited it goes on; `onError` may throw -/
  | resume (onErrorThrows : Bool)
  | shutdown
  /-- `shutdown` goes on after its flush has returned -/
  | finish

variable {Event : Type}

/-- What was handed to `send`, in order. -/
def Batcher.handed (b : Batcher Event) : List Event := b.batches.flatten

/-- A batcher; without `setInterval` it has no timer. -/
def start (Event : Type) (hasSetInterval : Bool) : Batcher Event where
  timer := hasSetInterval

/-- `flush` up to its first `await`. -/
def flush (b : Batcher Event) : Batcher Event :=
  if b.flushing || b.buffer.isEmpty then b
  else { b with
    flushing := true
    buffer := []
    sending := some .pending
    batches := b.batches ++ [b.buffer] }

def makeRoom (options : BatcherOptions) (b : Batcher Event) : Batcher Event :=
  if reaches b.buffer.length options.maxBufferSize then
    -- `shift` leaves an empty buffer as it is
    { b with buffer := b.buffer.tail, droppedCount := b.droppedCount + 1 }
  else b

def add (options : BatcherOptions) (b : Batcher Event) (event : Event) : Batcher Event :=
  let room := makeRoom options b
  let pushed := { room with buffer := room.buffer ++ [event], added := room.added ++ [event] }
  if reaches pushed.buffer.length options.batchSize then flush pushed else pushed

/-- The rest of `flush`: its `finally` runs whatever `onError` does. -/
def endFlush (b : Batcher Event) (throws : Bool) : Batcher Event where
  __ := b
  flushing := false
  sending := none
  stopping := if b.stopping = .awaiting then (if throws then .thrown else .flushed) else b.stopping

def shutdown (b : Batcher Event) : Batcher Event :=
  let flushed := flush { b with timer := false }
  { flushed with stopping := if !b.flushing && flushed.flushing then .awaiting else .flushed }

def step (options : BatcherOptions) (b : Batcher Event) : Act Event → Option (Batcher Event)
  | .add event => some (add options b event)
  | .tick => if b.timer then some (flush b) else none
  | .settle isFulfilled =>
    if b.sending = some .pending then
      some { b with sending := some (if isFulfilled then .fulfilled else .rejected) }
    else none
  | .resume onErrorThrows =>
    match b.sending with
    | some .fulfilled => some (endFlush b false)
    | some .rejected => some (endFlush b onErrorThrows)
    | _ => none
  | .shutdown => some (shutdown b)
  | .finish => if b.stopping = .flushed then some { b with stopping := .resolved } else none

/-- Every event was handed over once, in the order added, or is counted as dropped. -/
def Accounted (b : Batcher Event) : Prop :=
  b.handed.Sublist b.added ∧ b.handed.length + b.droppedCount = b.added.length

/-- What the batcher keeps: what was handed over and what is buffered are events added, in order,
and the others are counted.  A buffer of no size counts every event, whatever becomes of it. -/
structure Kept (options : BatcherOptions) (b : Batcher Event) : Prop where
  sublist : (b.handed ++ b.buffer).Sublist b.added
  count : options.maxBufferSize ≠ some 0 →
    b.handed.length + b.buffer.length + b.droppedCount = b.added.length
  countAll : options.maxBufferSize = some 0 → b.droppedCount = b.added.length
  some_left : b.added ≠ [] → b.handed ++ b.buffer ≠ []
  handed_of_flushing : b.flushing = true → b.handed ≠ []

variable {options : BatcherOptions} {b t : Batcher Event}

theorem kept_start (hasSetInterval : Bool) : Kept options (start Event hasSetInterval) where
  sublist := by simp [start, Batcher.handed]
  count _ := by simp [start, Batcher.handed]
  countAll _ := rfl
  some_left h := (h rfl).elim
  handed_of_flushing h := by simp [start] at h

theorem Kept.congr (h : Kept options b) (hbuffer : t.buffer = b.buffer)
    (hbatches : t.batches = b.batches) (hadded : t.added = b.added)
    (hdropped : t.droppedCount = b.droppedCount) (hflushing : t.flushing = true → b.flushing = true) :
    Kept options t := by
  have hhanded : t.handed = b.handed := by simp [Batcher.handed, hbatches]
  constructor
  · rw [hhanded, hbuffer, hadded]
    exact h.sublist
  · rw [hhanded, hbuffer, hadded, hdropped]
    exact h.count
  · rw [hadded, hdropped]
    exact h.countAll
  · rw [hhanded, hbuffer, hadded]
    exact h.some_left
  · intro ht
    rw [hhanded]
    exact h.handed_of_flushing (hflushing ht)

theorem handed_flush (b : Batcher Event) :
    (flush b).handed ++ (flush b).buffer = b.handed ++ b.buffer := by
  unfold flush
  split <;> simp [Batcher.handed]

theorem added_flush (b : Batcher Event) : (flush b).added = b.added := by
  unfold flush
  split <;> rfl

theorem droppedCount_flush (b : Batcher Event) : (flush b).droppedCount = b.droppedCount := by
  unfold flush
  split <;> rfl

theorem Kept.flush (h : Kept options b) : Kept options (flush b) := by
  have hlength := congrArg List.length (handed_flush b)
  rw [List.length_append, List.length_append] at hlength
  constructor
  · rw [handed_flush, added_flush]
    exact h.sublist
  · rw [hlength, added_flush, droppedCount_flush]
    exact h.count
  · rw [added_flush, droppedCount_flush]
    exact h.countAll
  · rw [handed_flush, added_flush]
    exact h.some_left
  · intro hflushing
    unfold SpanBatching.flush at hflushing ⊢
    split
    · next hidle =>
      rw [if_pos hidle] at hflushing
      exact h.handed_of_flushing hflushing
    · next hbusy =>
      -- the batch it has just handed over is not empty
      simp only [Bool.or_eq_true, List.isEmpty_iff, not_or] at hbusy
      simp [Batcher.handed, hbusy.2]

theorem Kept.push (h : Kept options b) (event : Event) :
    Kept options { makeRoom options b with
      buffer := (makeRoom options b).buffer ++ [event]
      added := (makeRoom options b).added ++ [event] } := by
  unfold makeRoom
  split
  · next hfull =>
    have htail : (b.handed ++ b.buffer.tail).Sublist b.added :=
      ((List.Sublist.refl _).append (List.tail_sublist _)).trans h.sublist
    constructor
    · simpa [Batcher.handed] using htail.append (List.Sublist.refl [event])
    · intro hsize
      have hcount := h.count hsize
      have hpos : 0 < b.buffer.length := by
        cases hmax : options.maxBufferSize with
        | none => simp [reaches, hmax] at hfull
        | some bound =>
          simp only [reaches, hmax, Option.any_some, decide_eq_true_eq] at hfull
          have : bound ≠ 0 := fun hzero => hsize (by rw [hmax, hzero])
          omega
      simp only [Batcher.handed, List.length_append, List.length_tail, List.length_singleton]
        at hcount ⊢
      omega
    · intro hsize
      simp [h.countAll hsize]
    · simp
    · exact h.handed_of_flushing
  · next hroom =>
    constructor
    · simpa [Batcher.handed] using h.sublist.append (List.Sublist.refl [event])
    · intro hsize
      have hcount := h.count hsize
      simp only [Batcher.handed, List.length_append, List.length_singleton] at hcount ⊢
      omega
    · intro hsize
      simp [reaches, hsize] at hroom
    · simp
    · exact h.handed_of_flushing

theorem Kept.step {act : Act Event} (h : Kept options b) (hstep : step options b act = some t) :
    Kept options t := by
  cases act with
  | add event =>
    cases hstep
    simp only [add]
    split
    · exact (h.push event).flush
    · exact h.push event
  | tick =>
    simp only [SpanBatching.step] at hstep
    split at hstep
    · cases hstep
      exact h.flush
    · cases hstep
  | settle isFulfilled =>
    simp only [SpanBatching.step] at hstep
    split at hstep
    · cases hstep
      exact h.congr rfl rfl rfl rfl id
    · cases hstep
  | resume onErrorThrows =>
    simp only [SpanBatching.step] at hstep
    split at hstep
    · cases hstep
      exact h.congr rfl rfl rfl rfl (by simp [endFlush])
    · cases hstep
      exact h.congr rfl rfl rfl rfl (by simp [endFlush])
    · cases hstep
  | shutdown =>
    cases hstep
    have htimer : Kept options { b with timer := false } := h.congr rfl rfl rfl rfl id
    exact htimer.flush.congr rfl rfl rfl rfl id
  | finish =>
    simp only [SpanBatching.step] at hstep
    split at hstep
    · cases hstep
      exact h.congr rfl rfl rfl rfl id
    · cases hstep

theorem kept_of_run {acts : List (Act Event)} {hasSetInterval : Bool}
    (h : StepRuns.run (step options) (start Event hasSetInterval) acts = some b) :
    Kept options b :=
  StepRuns.run_inv (fun _ _ _ _ hkept hstep => hkept.step hstep) (kept_start hasSetInterval) h

theorem rests_step {act : Act Event} (hact : act ≠ .shutdown ∧ ∀ event, act ≠ .add event)
    (htimer : b.timer = false) (hstep : step options b act = some t) :
    t.timer = false ∧ t.batches = b.batches ∧ t.added = b.added ∧
      t.droppedCount = b.droppedCount := by
  cases act with
  | add event => exact absurd rfl (hact.2 event)
  | shutdown => exact absurd rfl hact.1
  | tick => simp [step, htimer] at hstep
  | settle isFulfilled =>
    simp only [step] at hstep
    split at hstep
    · cases hstep
      exact ⟨htimer, rfl, rfl, rfl⟩
    · cases hstep
  | resume onErrorThrows =>
    simp only [step] at hstep
    split at hstep <;> cases hstep <;> exact ⟨htimer, rfl, rfl, rfl⟩
  | finish =>
    simp only [step] at hstep
    split at hstep
    · cases hstep
      exact ⟨htimer, rfl, rfl, rfl⟩
    · cases hstep

theorem rests_run {acts : List (Act Event)}
    (hacts : ∀ act ∈ acts, act ≠ .shutdown ∧ ∀ event, act ≠ .add event)
    (htimer : b.timer = false) (h : StepRuns.run (step options) b acts = some t) :
    t.batches = b.batches ∧ t.added = b.added ∧ t.droppedCount = b.droppedCount := by
  have hinv := StepRuns.run_inv (I := fun s => s.timer = false ∧ s.batches = b.batches ∧
      s.added = b.added ∧ s.droppedCount = b.droppedCount)
    (fun s act hact u hs hstep => by
      obtain ⟨hu, hbatches, hadded, hdropped⟩ := rests_step (hacts act hact) hs.1 hstep
      exact ⟨hu, hbatches.trans hs.2.1, hadded.trans hs.2.2.1, hdropped.trans hs.2.2.2⟩)
    ⟨htimer, rfl, rfl, rfl⟩ h
  exact hinv.2

theorem handed_shutdown (b : Batcher Event) :
    (shutdown b).handed = if b.flushing then b.handed else b.handed ++ b.buffer := by
  by_cases hflushing : b.flushing = true
  · simp [shutdown, flush, Batcher.handed, hflushing]
  · by_cases hempty : b.buffer = []
    · simp [shutdown, flush, Batcher.handed, hflushing, hempty]
    · simp [shutdown, flush, Batcher.handed, hflushing, hempty]

/-- From a shutdown on, with nothing added after it, every event ever added is accounted for just
if no flush was sending while others were buffered when it was called, and no buffer of size 0
has counted what was kept. -/
theorem shutdown_accounts_iff (options : BatcherOptions) (hasSetInterval : Bool)
    (before after : List (Act Event)) {b t : Batcher Event}
    (hbefore : StepRuns.run (step options) (start Event hasSetInterval) before = some b)
    (hrun : StepRuns.run (step options) b (.shutdown :: after) = some t)
    (hafter : ∀ act ∈ after, act ≠ .shutdown ∧ ∀ event, act ≠ .add event) :
    Accounted t ↔ (b.flushing = false ∨ b.buffer = []) ∧
      (options.maxBufferSize ≠ some 0 ∨ b.added = []) := by
  have hkept := kept_of_run hbefore
  obtain ⟨_, hstep, hrun⟩ := StepRuns.run_cons.mp hrun
  cases hstep
  have htimer : (shutdown b).timer = false := by
    simp only [shutdown, flush]
    split <;> rfl
  obtain ⟨hbatches, hadded, hdropped⟩ := rests_run hafter htimer hrun
  have hhanded : t.handed = if b.flushing then b.handed else b.handed ++ b.buffer := by
    rw [← handed_shutdown, Batcher.handed, hbatches, Batcher.handed]
  have hadded : t.added = b.added := hadded.trans (added_flush _)
  have hdropped : t.droppedCount = b.droppedCount := hdropped.trans (droppedCount_flush _)
  have hsublist : t.handed.Sublist t.added := by
    rw [hhanded, hadded]
    split
    · exact (List.sublist_append_left _ _).trans hkept.sublist
    · exact hkept.sublist
  rw [Accounted, and_iff_right hsublist, hhanded, hadded, hdropped]
  by_cases hsize : options.maxBufferSize = some 0
  · have hcount := hkept.countAll hsize
    rw [hcount]
    by_cases hnone : b.added = []
    · -- nothing was added, so there is nothing to hand over
      have hempty := List.eq_nil_of_sublist_nil (hnone ▸ hkept.sublist)
      rw [List.append_eq_nil_iff] at hempty
      simp [hempty.1, hempty.2, hnone]
    · have hleft := hkept.some_left hnone
      have hpos : 0 < (if b.flushing then b.handed else b.handed ++ b.buffer).length := by
        split
        · next hflushing => exact List.length_pos_iff.mpr (hkept.handed_of_flushing hflushing)
        · exact List.length_pos_iff.mpr hleft
      simp only [hsize, ne_eq, not_true_eq_false, hnone, or_self, and_false, iff_false]
      omega
  · have hcount := hkept.count hsize
    simp only [ne_eq, hsize, not_false_eq_true, true_or, and_true]
    by_cases hflushing : b.flushing = true
    · have hempty : b.buffer = [] ↔ b.buffer.length = 0 := List.length_eq_zero_iff.symm
      simp only [hflushing, if_true, Bool.true_eq_false, false_or, hempty]
      omega
    · simp only [hflushing, if_false, Bool.false_eq_true, List.length_append]
      simpa using hcount

/-- An event added while the first batch is being sent, and then the shutdown: it returns at once,
and nothing sends the event any more. -/
def lateEvent : List (Act ℕ) := [.add 1, .tick, .add 2]

theorem shutdown_accounts_one_event : Accounted
    ((StepRuns.run (step {}) (start ℕ true) [.add 1, .shutdown]).getD (start ℕ true)) :=
  (shutdown_accounts_iff {} true [.add 1] [] rfl rfl (by simp)).mpr ⟨.inl rfl, .inl (by simp)⟩

theorem shutdown_during_flush_loses : ∃ b t : Batcher ℕ,
    StepRuns.run (step {}) (start ℕ true) lateEvent = some b ∧
    StepRuns.run (step {}) b [.shutdown, .finish] = some t ∧
    t.stopping = .resolved ∧ t.added = [1, 2] ∧ t.handed = [1] ∧ t.droppedCount = 0 ∧
    ¬ Accounted t := by
  refine ⟨_, _, rfl, rfl, rfl, rfl, rfl, rfl, ?_⟩
  rintro ⟨-, hcount⟩
  exact absurd hcount (by decide)

end SpanBatching

end JamJet
