import Mathlib.Data.List.Induction
import Mathlib.Tactic.Common

/-! Durable agents of the local Python runtime: an entrypoint is called once and its output kept in a
checkpoint database, from which a later call under the same id is answered. -/

namespace JamJet.DurableAgents

/-- What the runtime reads of a durable agent. -/
structure DurableAgentSpec where
  name : String
  /-- The first method that is an entrypoint. -/
  entry : Option String
  dbPath : Option String
  deriving DecidableEq

/-- An agent under an id.  When no id is given a fresh one is made, which is an id like any other. -/
structure Execution where
  spec : DurableAgentSpec
  eid : String
  deriving DecidableEq

inductive Status
  | running
  | completed
  | failed
  deriving DecidableEq

structure StepRecord where
  inputHash : String
  outputJson : Option String
  status : Status
  error : Option String
  deriving DecidableEq

/-- The machine, and Python's `json` and `hashlib`. -/
structure Runtime (Input Output : Type) where
  home : String
  /-- The file that a path names. -/
  file : String → String
  /-- The hex digest of a text. -/
  sha256 : String → String
  /-- `json.dumps({"input": input}, sort_keys=True, default=str)`, which may fail. -/
  payload : Option Input → Option String
  /-- `json.dumps(output, default=str)`, which may fail. -/
  dumps : Output → Option String
  loads : String → Output

/-- How the entrypoint ends when it is called; after a crash nothing more is written. -/
inductive Outcome (Output : Type)
  | returns (output : Output)
  | raises (error : String)
  | crashes
  deriving DecidableEq

/-- A call of `execute`, or of `resume`, which is one without an input. -/
structure Op (Input Output : Type) where
  execution : Execution
  input : Option Input
  outcome : Outcome Output
  deriving DecidableEq

/-- What becomes of it. -/
inductive Event (Input Output : Type)
  | noEntrypoint
  | unhashable
  | replayed (output : Output)
  | called (input : Option Input) (outcome : Outcome Output)
  deriving DecidableEq

/-- A database file and a step in it. -/
abbrev Key := String × String

abbrev Db := Key → Option StepRecord

def Db.set (db : Db) (key : Key) (row : StepRecord) : Db := fun k => if k = key then some row else db k

section Model

variable {Input Output : Type} (rt : Runtime Input Output)

def digest16 (s : String) : String := String.ofList ((rt.sha256 s).toList.take 16)

def deriveStepId (callSite : String) (invocationIndex : ℕ) : String :=
  digest16 rt ("" ++ "\x00" ++ callSite ++ "\x00" ++ toString invocationIndex)

def computeInputHash (input : Option Input) : Option String := (rt.payload input).map (digest16 rt)

def dbPath (x : Execution) : String :=
  match x.spec.dbPath.filter (· ≠ "") with
  | some path => path
  | none => rt.home ++ "/.jamjet/durable/" ++ x.eid ++ ".db"

/-- Where the record of an execution stands: the id is no part of the step's. -/
def key (x : Execution) : Key :=
  (rt.file (dbPath rt x), deriveStepId rt (x.spec.name ++ "." ++ x.spec.entry.getD "") 0)

/-- The output of a completed step. -/
def completedOutput (row : Option StepRecord) : Option String :=
  row.bind fun row => if row.status = .completed then row.outputJson else none

def getStepIfMatch (row : Option StepRecord) (inputHash : String) : Option StepRecord :=
  row.filter fun row => row.status = .completed ∧ row.inputHash = inputHash

/-- The step is started anew, called, and its end recorded. -/
def callEntrypoint (db : Db) (op : Op Input Output) (inputHash : String) :
    Db × Event Input Output :=
  let started : StepRecord := ⟨inputHash, none, .running, none⟩
  let row := match op.outcome with
    | .returns output =>
      match rt.dumps output with
      | some text => { started with status := .completed, outputJson := some text }
      | none => started
    | .raises error => { started with status := .failed, error := some error }
    | .crashes => started
  (db.set (key rt op.execution) row, .called op.input op.outcome)

/-- `_run_durable_agent`. -/
def runDurableAgent (db : Db) (op : Op Input Output) : Db × Event Input Output :=
  let row := db (key rt op.execution)
  match op.execution.spec.entry with
  | none => (db, .noEntrypoint)
  | some _ =>
    -- a resume takes the output whatever input it was made from
    match if op.input.isNone then completedOutput row else none with
    | some text => (db, .replayed (rt.loads text))
    | none =>
      match computeInputHash rt op.input with
      | none => (db, .unhashable)
      | some inputHash =>
        match (getStepIfMatch row inputHash).bind (·.outputJson) with
        | some text => (db, .replayed (rt.loads text))
        | none => callEntrypoint rt db op inputHash

/-- The databases, and what has become of the calls so far. -/
structure Ran (Input Output : Type) where
  db : Db
  log : List (Op Input Output × Event Input Output)

def Ran.next (s : Ran Input Output) (op : Op Input Output) : Ran Input Output :=
  ⟨(runDurableAgent rt s.db op).1, s.log ++ [(op, (runDurableAgent rt s.db op).2)]⟩

/-- A run on empty databases. -/
def run (ops : List (Op Input Output)) : Ran Input Output :=
  ops.foldl (Ran.next rt) ⟨fun _ => none, []⟩

/-- The calls of one execution. -/
def own (x : Execution) (ops : List (Op Input Output)) : List (Op Input Output) :=
  ops.filter fun op => op.execution = x

def ownLog (x : Execution) (s : Ran Input Output) : List (Op Input Output × Event Input Output) :=
  s.log.filter fun entry => entry.1.execution = x

/-- After the call that the entrypoint returns from there are only answers from its record. -/
def Once (earlier later : Op Input Output × Event Input Output) : Prop :=
  ∀ given output, earlier.2 = .called given (.returns output) →
    ∃ text, rt.dumps output = some text ∧ later.2 = .replayed (rt.loads text)

/-- An execution resumes with its own input, completes once, and goes as it would alone. -/
structure ResumesOwn (ops : List (Op Input Output)) (x : Execution) : Prop where
  input : ∀ entry ∈ ownLog x (run rt ops), ∀ given outcome, entry.2 = .called given outcome →
    ∃ first, (own x ops).head? = some first ∧ given = first.input
  once : (ownLog x (run rt ops)).Pairwise (Once rt)
  alone : ownLog x (run rt ops) = (run rt (own x ops)).log

/-- What makes a step of a run harmless. -/
structure Steady (ops : List (Op Input Output)) (op : Op Input Output) : Prop where
  /-- No other execution has used its record. -/
  sole : ∀ o ∈ ops, key rt o.execution = key rt op.execution → o.execution = op.execution
  /-- Once completed it is called without an input or with the one whose hash is recorded. -/
  again : ∀ row, (run rt ops).db (key rt op.execution) = some row → row.status = .completed →
    op.input = none ∨ computeInputHash rt op.input = some row.inputHash
  /-- Until then it is called with its first input. -/
  first : completedOutput ((run rt ops).db (key rt op.execution)) = none →
    ∀ o, (own op.execution ops).head? = some o → op.input = o.input
  recordable : ∀ output, op.outcome = .returns output → (rt.dumps output).isSome

inductive SteadyRun : List (Op Input Output) → Prop
  | nil : SteadyRun []
  | snoc {ops : List (Op Input Output)} {op : Op Input Output} (past : SteadyRun ops)
      (step : Steady rt ops op) : SteadyRun (ops ++ [op])

end Model

section Steps

variable {Input Output : Type} {rt : Runtime Input Output} {db db' : Db} {op : Op Input Output}
  {ops : List (Op Input Output)} {x : Execution} {k : Key}

/-- Everything a step can do. -/
inductive StepCase (rt : Runtime Input Output) (db : Db) (op : Op Input Output) : Prop
  | noEntrypoint (hentry : op.execution.spec.entry = none)
      (h : runDurableAgent rt db op = (db, .noEntrypoint))
  | unhashable (hhash : computeInputHash rt op.input = none)
      (hrow : op.input = none → completedOutput (db (key rt op.execution)) = none)
      (h : runDurableAgent rt db op = (db, .unhashable))
  | replayed (text : String) (hrow : completedOutput (db (key rt op.execution)) = some text)
      (h : runDurableAgent rt db op = (db, .replayed (rt.loads text)))
  | called (inputHash : String) (hentry : op.execution.spec.entry ≠ none)
      (hrow : op.input = none → completedOutput (db (key rt op.execution)) = none)
      (hhash : computeInputHash rt op.input = some inputHash)
      (hmatch : (getStepIfMatch (db (key rt op.execution)) inputHash).bind (·.outputJson) = none)
      (h : runDurableAgent rt db op = callEntrypoint rt db op inputHash)

theorem completedOutput_of_match {row : Option StepRecord} {inputHash text : String}
    (h : (getStepIfMatch row inputHash).bind (·.outputJson) = some text) :
    completedOutput row = some text := by
  obtain ⟨found, hfound, htext⟩ := Option.bind_eq_some_iff.mp h
  obtain ⟨rfl, hstatus⟩ := Option.filter_eq_some_iff.mp hfound
  have hcompleted : found.status = .completed := (of_decide_eq_true hstatus).1
  simp [completedOutput, hcompleted, htext]

theorem step_cases (rt : Runtime Input Output) (db : Db) (op : Op Input Output) :
    StepCase rt db op := by
  cases hentry : op.execution.spec.entry with
  | none => exact .noEntrypoint hentry (by simp only [runDurableAgent, hentry])
  | some entry =>
    cases hresumed : if op.input.isNone then completedOutput (db (key rt op.execution)) else none with
    | some text =>
      have hrow : completedOutput (db (key rt op.execution)) = some text := by
        split at hresumed
        · exact hresumed
        · cases hresumed
      exact .replayed text hrow (by simp only [runDurableAgent, hentry, hresumed])
    | none =>
      have hrow : op.input = none → completedOutput (db (key rt op.execution)) = none :=
        fun hinput => by simpa [hinput] using hresumed
      cases hhash : computeInputHash rt op.input with
      | none =>
        exact .unhashable hhash hrow (by simp only [runDurableAgent, hentry, hresumed, hhash])
      | some inputHash =>
        cases hmatch : (getStepIfMatch (db (key rt op.execution)) inputHash).bind
            (·.outputJson) with
        | some text =>
          exact .replayed text (completedOutput_of_match hmatch)
            (by simp only [runDurableAgent, hentry, hresumed, hhash, hmatch])
        | none =>
          exact .called inputHash (by simp [hentry]) hrow hhash hmatch
            (by simp only [runDurableAgent, hentry, hresumed, hhash, hmatch])

theorem runDurableAgent_of_ne (hne : k ≠ key rt op.execution) :
    (runDurableAgent rt db op).1 k = db k := by
  cases step_cases rt db op with
  | noEntrypoint _ h => rw [h]
  | unhashable _ _ h => rw [h]
  | replayed _ _ h => rw [h]
  | called _ _ _ _ _ h =>
    rw [h]
    exact if_neg hne

theorem runDurableAgent_congr (h : db (key rt op.execution) = db' (key rt op.execution)) :
    (runDurableAgent rt db op).2 = (runDurableAgent rt db' op).2 ∧
      (runDurableAgent rt db op).1 (key rt op.execution) =
        (runDurableAgent rt db' op).1 (key rt op.execution) := by
  unfold runDurableAgent
  dsimp only
  rw [h]
  split
  · exact ⟨rfl, h⟩
  · split
    · exact ⟨rfl, h⟩
    · split
      · exact ⟨rfl, h⟩
      · split
        · exact ⟨rfl, h⟩
        · exact ⟨rfl, by simp [callEntrypoint, Db.set]⟩

@[simp]
theorem own_snoc_self : own op.execution (ops ++ [op]) = own op.execution ops ++ [op] := by
  simp [own]

theorem own_snoc_of_ne (hx : op.execution ≠ x) : own x (ops ++ [op]) = own x ops := by
  simp [own, hx]

theorem run_snoc : run rt (ops ++ [op]) = (run rt ops).next rt op := by
  rw [run, run, List.foldl_append]
  rfl

theorem db_run_filter (k : Key) (ops : List (Op Input Output)) :
    (run rt ops).db k = (run rt (ops.filter fun op => key rt op.execution = k)).db k := by
  induction ops using List.reverseRecOn with
  | nil => rfl
  | append_singleton ops op ih =>
    rw [List.filter_append, run_snoc]
    by_cases hk : key rt op.execution = k
    · subst hk
      have hkeep : [op].filter (fun o => key rt o.execution = key rt op.execution) = [op] := by simp
      rw [hkeep, run_snoc]
      exact (runDurableAgent_congr ih).2
    · have hskip : [op].filter (fun o => key rt o.execution = k) = [] := by simp [hk]
      rw [hskip, List.append_nil]
      exact (runDurableAgent_of_ne (Ne.symm hk)).trans ih

theorem own_eq_filter (h : ∀ o ∈ ops, key rt o.execution = key rt x → o.execution = x) :
    own x ops = ops.filter fun op => key rt op.execution = key rt x := by
  refine List.filter_congr fun o ho => ?_
  by_cases hx : o.execution = x
  · simp [hx]
  · have hk : ¬ key rt o.execution = key rt x := fun hk => hx (h o ho hk)
    simp [hx, hk]

theorem db_own (h : ∀ o ∈ ops, key rt o.execution = key rt x → o.execution = x) :
    (run rt ops).db (key rt x) = (run rt (own x ops)).db (key rt x) := by
  rw [own_eq_filter h]
  exact db_run_filter (key rt x) ops

theorem log_own (hsteady : SteadyRun rt ops) (x : Execution) :
    ownLog x (run rt ops) = (run rt (own x ops)).log := by
  induction hsteady with
  | nil => rfl
  | @snoc ops op past step ih =>
    rw [run_snoc]
    by_cases hx : op.execution = x
    · subst hx
      have hevent := (runDurableAgent_congr (db_own step.sole)).1
      have hlog : ownLog op.execution ((run rt ops).next rt op) =
          ownLog op.execution (run rt ops) ++ [(op, (runDurableAgent rt (run rt ops).db op).2)] := by
        simp [ownLog, Ran.next]
      rw [hlog, ih, hevent, own_snoc_self, run_snoc]
      rfl
    · have hlog : ownLog x ((run rt ops).next rt op) = ownLog x (run rt ops) := by
        simp [ownLog, Ran.next, hx]
      rw [hlog, ih, own_snoc_of_ne hx]

/-- The entrypoint has not returned. -/
structure Pending (rt : Runtime Input Output) (x : Execution) (s : Ran Input Output) : Prop where
  record : ∀ row, s.db (key rt x) = some row → row.status ≠ .completed
  log : ∀ entry ∈ s.log, ∀ given output, entry.2 ≠ .called given (.returns output)

/-- It has, and its output is recorded. -/
structure Done (rt : Runtime Input Output) (x : Execution) (s : Ran Input Output) : Prop where
  entry : x.spec.entry ≠ none
  record : ∃ row text, s.db (key rt x) = some row ∧ row.status = .completed ∧
    row.outputJson = some text ∧
    ∀ entry ∈ s.log, ∀ given output, entry.2 = .called given (.returns output) →
      rt.dumps output = some text

/-- How far an execution has come by itself, from its first input. -/
structure Progress (rt : Runtime Input Output) (x : Execution) (first : Option (Option Input))
    (s : Ran Input Output) : Prop where
  given : ∀ entry ∈ s.log, ∀ given outcome, entry.2 = .called given outcome → first = some given
  once : s.log.Pairwise (Once rt)
  record : Pending rt x s ∨ Done rt x s

variable {s : Ran Input Output} {first : Option (Option Input)} {event : Event Input Output}

theorem Pending.completedOutput (h : Pending rt x s) :
    completedOutput (s.db (key rt x)) = none := by
  cases hrow : s.db (key rt x) with
  | none => rfl
  | some row => simp [DurableAgents.completedOutput, h.record row hrow]

theorem Pending.once_snoc (h : Pending rt x s) (honce : s.log.Pairwise (Once rt)) :
    (s.log ++ [(op, event)]).Pairwise (Once rt) := by
  refine List.pairwise_append.mpr ⟨honce, List.pairwise_singleton _ _, fun entry hentry _ _ => ?_⟩
  exact fun given output hreturned => absurd hreturned (h.log entry hentry given output)

theorem forall_mem_snoc {α : Type} {p : α → Prop} {l : List α} {a : α} :
    (∀ b ∈ l ++ [a], p b) ↔ (∀ b ∈ l, p b) ∧ p a := by
  simp [or_imp, forall_and]

theorem Progress.idle (h : Progress rt x first s) (hpending : Pending rt x s)
    (hcalled : ∀ given outcome, event ≠ .called given outcome) :
    Progress rt x first ⟨s.db, s.log ++ [(op, event)]⟩ where
  given := forall_mem_snoc.mpr
    ⟨h.given, fun given outcome hevent => absurd hevent (hcalled given outcome)⟩
  once := hpending.once_snoc h.once
  record := .inl ⟨hpending.record, forall_mem_snoc.mpr
    ⟨hpending.log, fun given _ => hcalled given _⟩⟩

theorem Progress.call (h : Progress rt op.execution first s) (hpending : Pending rt op.execution s)
    (hentry : op.execution.spec.entry ≠ none) (hfirst : first = some op.input)
    (hrecordable : ∀ output, op.outcome = .returns output → (rt.dumps output).isSome)
    (inputHash : String) :
    Progress rt op.execution first ⟨(callEntrypoint rt s.db op inputHash).1,
      s.log ++ [(op, .called op.input op.outcome)]⟩ where
  given := by
    refine forall_mem_snoc.mpr ⟨h.given, fun given outcome hcalled => ?_⟩
    cases hcalled
    exact hfirst
  once := hpending.once_snoc h.once
  record := by
    cases houtcome : op.outcome with
    | returns output =>
      obtain ⟨text, htext⟩ := Option.isSome_iff_exists.mp (hrecordable output houtcome)
      refine .inr ⟨hentry, ⟨inputHash, some text, .completed, none⟩, text, ?_, rfl, rfl, ?_⟩
      · simp [callEntrypoint, Db.set, houtcome, htext]
      · refine forall_mem_snoc.mpr ⟨fun entry hmem given output' hreturned => ?_, ?_⟩
        · exact absurd hreturned (hpending.log entry hmem given output')
        · rintro given output' hreturned
          cases hreturned
          exact htext
    | raises error =>
      refine .inl ⟨fun row hrow => ?_, forall_mem_snoc.mpr ⟨hpending.log, by simp⟩⟩
      obtain rfl : _ = row := by simpa [callEntrypoint, Db.set, houtcome] using hrow
      simp
    | crashes =>
      refine .inl ⟨fun row hrow => ?_, forall_mem_snoc.mpr ⟨hpending.log, by simp⟩⟩
      obtain rfl : _ = row := by simpa [callEntrypoint, Db.set, houtcome] using hrow
      simp

theorem Progress.answer (h : Progress rt op.execution first s) {row : StepRecord} {text : String}
    (hentry : op.execution.spec.entry ≠ none) (hrow : s.db (key rt op.execution) = some row)
    (hstatus : row.status = .completed) (htext : row.outputJson = some text)
    (hlog : ∀ entry ∈ s.log, ∀ given output, entry.2 = .called given (.returns output) →
      rt.dumps output = some text) :
    Progress rt op.execution first ⟨s.db, s.log ++ [(op, .replayed (rt.loads text))]⟩ where
  given := forall_mem_snoc.mpr ⟨h.given, by simp⟩
  once := by
    refine List.pairwise_append.mpr ⟨h.once, List.pairwise_singleton _ _, fun entry hmem later hlater => ?_⟩
    obtain rfl := List.mem_singleton.mp hlater
    exact fun given output hreturned => ⟨text, hlog entry hmem given output hreturned, rfl⟩
  record := .inr ⟨hentry, row, text, hrow, hstatus, htext, forall_mem_snoc.mpr ⟨hlog, by simp⟩⟩

theorem Progress.next (h : Progress rt op.execution first s)
    (hagain : ∀ row, s.db (key rt op.execution) = some row → row.status = .completed →
      op.input = none ∨ computeInputHash rt op.input = some row.inputHash)
    (hfirst : completedOutput (s.db (key rt op.execution)) = none → first = some op.input)
    (hrecordable : ∀ output, op.outcome = .returns output → (rt.dumps output).isSome) :
    Progress rt op.execution first (s.next rt op) := by
  unfold Ran.next
  rcases h.record with hpending | ⟨hentry, row, text, hrow, hstatus, htext, hlog⟩
  · have hnone := hpending.completedOutput
    cases step_cases rt s.db op with
    | noEntrypoint _ hstep =>
      rw [hstep]
      exact h.idle hpending (by simp)
    | unhashable _ _ hstep =>
      rw [hstep]
      exact h.idle hpending (by simp)
    | replayed text hfound _ =>
      rw [hnone] at hfound
      cases hfound
    | called inputHash hentry _ _ _ hstep =>
      rw [hstep]
      exact h.call hpending hentry (hfirst hnone) hrecordable inputHash
  · have hfound : completedOutput (s.db (key rt op.execution)) = some text := by
      simp [completedOutput, hrow, hstatus, htext]
    cases step_cases rt s.db op with
    | noEntrypoint hno _ => exact absurd hno hentry
    | unhashable hhash hresumed _ =>
      rcases hagain row hrow hstatus with hinput | hmatch
      · rw [hresumed hinput] at hfound
        cases hfound
      · rw [hhash] at hmatch
        cases hmatch
    | replayed text' hfound' hstep =>
      obtain rfl := Option.some.inj (hfound.symm.trans hfound')
      rw [hstep]
      exact h.answer hentry hrow hstatus htext hlog
    | called inputHash _ hresumed hhash hmatch _ =>
      rcases hagain row hrow hstatus with hinput | hsame
      · rw [hresumed hinput] at hfound
        cases hfound
      · obtain rfl := Option.some.inj (hhash.symm.trans hsame)
        simp [getStepIfMatch, hrow, hstatus, htext] at hmatch

theorem progress_nil (x : Execution) (first : Option (Option Input)) :
    Progress rt x first (run rt []) where
  given := by simp [run]
  once := by simp [run]
  record := .inl ⟨by simp [run], by simp [run]⟩

theorem progress_own (hsteady : SteadyRun rt ops) (x : Execution) :
    Progress rt x ((own x ops).head?.map (·.input)) (run rt (own x ops)) := by
  induction hsteady with
  | nil => exact progress_nil x _
  | @snoc ops op past step ih =>
    by_cases hx : op.execution = x
    · subst hx
      have hdb := db_own step.sole
      have hagain := step.again
      have hfirst := step.first
      rw [hdb] at hagain hfirst
      rw [own_snoc_self, run_snoc]
      cases hown : own op.execution ops with
      | nil =>
        rw [hown] at hagain
        exact (progress_nil op.execution _).next hagain (fun _ => rfl) step.recordable
      | cons o rest =>
        rw [hown] at ih hagain hfirst
        refine ih.next hagain (fun hnone => ?_) step.recordable
        exact congrArg some (hfirst hnone o rfl).symm
    · rw [own_snoc_of_ne hx]
      exact ih

theorem resumesOwn_of_steady (hsteady : SteadyRun rt ops) (x : Execution) : ResumesOwn rt ops x := by
  have hprogress := progress_own hsteady x
  have hlog := log_own hsteady x
  exact {
    input := fun entry hentry given outcome hcalled => by
      rw [hlog] at hentry
      obtain ⟨first, hfirst, hgiven⟩ :=
        Option.map_eq_some_iff.mp (hprogress.given entry hentry given outcome hcalled)
      exact ⟨first, hfirst, hgiven.symm⟩
    once := hlog ▸ hprogress.once
    alone := hlog }

end Steps

/-- A runtime in which texts are what they are written as. -/
def plainRuntime : Runtime String String :=
  ⟨"/root", id, id, fun input => some (input.getD "null"), some, id⟩

/-- An agent whose executions share a database. -/
def reporter : DurableAgentSpec := ⟨"Reporter", some "run", some "/data/agents.db"⟩

def call (eid : String) (input : Option String) (outcome : Outcome String) : Op String String :=
  ⟨⟨reporter, eid⟩, input, outcome⟩

/-- After a crash the execution is started again with its input, and then resumed. -/
theorem resumesOwn_after_crash : ResumesOwn plainRuntime
    [call "e1" (some "march") .crashes, call "e1" (some "march") (.returns "report"),
      call "e1" none .crashes] ⟨reporter, "e1"⟩ := by
  have hstarted : (run plainRuntime [call "e1" (some "march") .crashes]).db
      (key plainRuntime ⟨reporter, "e1"⟩) = some ⟨"march", none, .running, none⟩ := by
    decide +kernel
  have hdone : (run plainRuntime [call "e1" (some "march") .crashes,
      call "e1" (some "march") (.returns "report")]).db (key plainRuntime ⟨reporter, "e1"⟩) =
        some ⟨"march", some "report", .completed, none⟩ := by
    decide +kernel
  have hfirst : Steady plainRuntime [] (call "e1" (some "march") .crashes) :=
    ⟨by simp, by simp [run], by simp [own], by simp [call]⟩
  have hsecond : Steady plainRuntime [call "e1" (some "march") .crashes]
      (call "e1" (some "march") (.returns "report")) := by
    refine ⟨by simp [call], fun row hrow hstatus => ?_, by simp [own, call], by simp [plainRuntime]⟩
    obtain rfl := Option.some.inj (hstarted.symm.trans hrow)
    cases hstatus
  have hthird : Steady plainRuntime [call "e1" (some "march") .crashes,
      call "e1" (some "march") (.returns "report")] (call "e1" none .crashes) := by
    refine ⟨by simp [call], fun _ _ _ => .inl rfl, fun hnone => ?_, by simp [call]⟩
    change completedOutput (Ran.db _ (key plainRuntime ⟨reporter, "e1"⟩)) = none at hnone
    rw [hdone] at hnone
    cases hnone
  exact resumesOwn_of_steady (.snoc (.snoc (.snoc .nil hfirst) hsecond) hthird) _

/-- A resume after a crash calls the entrypoint without the input; and another execution in the same
database is answered from the first one's record. -/
theorem resume_loses_input :
    ¬ ResumesOwn plainRuntime [call "e1" (some "march") .crashes, call "e1" none (.returns "report")]
        ⟨reporter, "e1"⟩ ∧
      ¬ ResumesOwn plainRuntime [call "e1" (some "march") (.returns "report"),
        call "e2" (some "march") (.returns "other report")] ⟨reporter, "e2"⟩ := by
  constructor
  · intro h
    obtain ⟨first, hfirst, hgiven⟩ := h.input (call "e1" none (.returns "report"),
      .called none (.returns "report")) (by decide +kernel) none (.returns "report") rfl
    cases hfirst
    cases hgiven
  · intro h
    exact absurd h.alone (by decide +kernel)

end JamJet.DurableAgents
