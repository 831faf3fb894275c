import JamJet.Lineage
import JamJet.ProcessPool
import JamJet.Transitions

/-! The current state of an execution, as its column holds it.  An append to one of its arrays reads
the state and writes it back whole, in two statements that others may come between. -/

namespace JamJet

open AtomicCalls

/-- The database with the `current_state` column of its executions. -/
structure StateDb where
  db : Db := {}
  currentState : ExecutionId → Json := fun _ => .object []

/-- The statements of an append. -/
inductive StateOp : Type → Type
  | getExecution (e : ExecutionId) : StateOp (Option Json)
  | updateExecutionCurrentState (e : ExecutionId) (state : Json) (now : Instant) : StateOp Unit

namespace StateDb

def hasRow (s : StateDb) (e : ExecutionId) : Bool := (s.db.executions.find? e).isSome

def updateCurrentState (s : StateDb) (e : ExecutionId) (state : Json) (now : Instant) : StateDb where
  db := s.db.updateExecution e (fun _ => true) (fun x => { x with updatedAt := now }) fun _ => rfl
  currentState :=
    if s.hasRow e then Function.update s.currentState e state else s.currentState

def handle : {β : Type} → StateOp β → StateDb → Except BackendError β × StateDb
  | _, .getExecution e, s => (.ok (if s.hasRow e then some (s.currentState e) else none), s)
  | _, .updateExecutionCurrentState e state now, s => (.ok (), s.updateCurrentState e state now)

end StateDb

/-- Push a value to the array under a key, which is made when it is not there. -/
def appendArray (state : Json) (key : String) (value : Json) : Except BackendError Json :=
  match state with
  | .object fields =>
      match (BTree.get fields key).getD (.array []) with
      | .array items => .ok (.object (BTree.insert fields key (.array (items ++ [value]))))
      | _ => .error (.database (key ++ " is not an array"))
  | _ => .error (.database "state is not a JSON object")

/-- What follows the read. -/
def writeAppended (e : ExecutionId) (key : String) (value : Json) (now : Instant) :
    Option Json → Prog StateOp BackendError Unit
  | none => .done (.error (.notFound e))
  | some state =>
      match appendArray state key value with
      | .ok state => Prog.perform (.updateExecutionCurrentState e state now)
      | .error err => .done (.error err)

def patchAppendArray (e : ExecutionId) (key : String) (value : Json) (now : Instant) :
    Prog StateOp BackendError Unit := do
  let state ← Prog.perform (.getExecution e)
  writeAppended e key value now state

/-- What one call of `patch_append_array` is given. -/
structure AppendCall where
  key : String
  value : Json
  now : Instant

/-- What one call of `commit_turn` or `commit_turn_unless_terminal` is given. -/
structure CommitCall where
  item : WorkItemId
  fence : ℤ
  executionId : ExecutionId
  kind : EventKind
  snapshot : Bool
  refuseTerminal : Bool
  now : Instant

/-- The transaction of a commit, which does not mention the column. -/
def CommitCall.commit (a : CommitCall) (db : Db) : Except BackendError TurnCommit × Db :=
  db.commitTurnInner a.item a.fence a.executionId a.kind a.snapshot a.refuseTerminal a.now

namespace CurrentState

/-- The next statement of a call, its failure, or a commit. -/
inductive Turn
  | advance (i : ℕ)
  | fault (i : ℕ) (err : BackendError)
  | commit (a : CommitCall)

def Turn.move : Turn → PoolMove BackendError CommitCall AppendCall
  | .advance i => .advance i
  | .fault i err => .fault i err
  | .commit a => .outside a

section Runs

variable (e : ExecutionId) (calls : List AppendCall) (s : StateDb)

def appendProgram (call : AppendCall) : Prog StateOp BackendError Unit :=
  patchAppendArray e call.key call.value call.now

def service : Service StateOp BackendError Unit StateDb CommitCall AppendCall where
  handle op s := s.handle op
  fallible _ := true
  act a s := { s with db := (a.commit s.db).2 }
  program := appendProgram e

/-- All the calls, each under its number. -/
def started : Pool StateOp BackendError Unit StateDb :=
  ⟨s, fun i => (calls[i]?).map (appendProgram e)⟩

/-- The pool after these turns, the latest first. -/
def reached (turns : List Turn) : Pool StateOp BackendError Unit StateDb :=
  (started e calls s).run (service e) (turns.reverse.map Turn.move)

/-- Every call has returned `Ok`. -/
def AllOk (turns : List Turn) : Prop :=
  ∀ i < calls.length, (reached e calls s turns).procs i = some (.done (.ok ()))

end Runs

/-- How many turns a call has had. -/
def turnsOf (i : ℕ) : List Turn → ℕ
  | [] => 0
  | .advance j :: earlier => turnsOf i earlier + if i = j then 1 else 0
  | _ :: earlier => turnsOf i earlier

/-- The accesses of `n` calls to the column, the latest first: the first turn of a call reads it,
the second writes it. -/
def accesses (n : ℕ) : List Turn → List (Access ℕ)
  | [] => []
  | .advance i :: earlier =>
      if n ≤ i then accesses n earlier
      else if turnsOf i earlier = 0 then .read i :: accesses n earlier
      else if turnsOf i earlier = 1 then .write i :: accesses n earlier
      else accesses n earlier
  | _ :: earlier => accesses n earlier

/-- The array under a key. -/
def itemsAt (state : Json) (key : String) : List Json :=
  match state.get key with
  | some (.array items) => items
  | _ => []

/-- The appends under each key are in its array once each, the other members are as they were, and
the events of the committed turns are in the log. -/
structure KeepsUpdates (e : ExecutionId) (calls : List AppendCall) (s : StateDb)
    (turns : List Turn) : Prop where
  arrays : ∀ call ∈ calls, ∃ items,
    ((reached e calls s turns).state.currentState e).get call.key = some (.array items) ∧
      items.Perm (itemsAt (s.currentState e) call.key ++
        (calls.filter fun other => other.key = call.key).map (·.value))
  members : ∀ key, (∀ call ∈ calls, call.key ≠ key) →
    ((reached e calls s turns).state.currentState e).get key = (s.currentState e).get key
  commits : ∀ later a earlier, turns = later ++ .commit a :: earlier → ∀ sequence,
    (a.commit (reached e calls s earlier).state.db).1 = .ok (.committed sequence) →
      ⟨sequence, a.kind⟩ ∈ ((reached e calls s turns).state.db.events a.executionId).entries

end CurrentState

end JamJet
