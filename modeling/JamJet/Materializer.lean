import JamJet.Event

/-! State materialization: the fold that turns events into the current workflow state. -/

namespace JamJet.Materializer

structure MaterializedState where
  currentState : Json
  status : WorkflowStatus
  completedNodes : Finmap fun _ : NodeId => Json
  activeNodes : Finset NodeId
  lastSequence : EventSequence

mutual

/-- JSON merge patch, with a null patch leaving its target alone. -/
def jsonMergePatch (target : Json) : Json → Json
  | .object patch => .object (mergeFields (match target with
      | .object fields => fields
      | _ => []) patch)
  | .null => target
  | other => other

/-- The entries of an object patch, one after the other: null removes its key. -/
def mergeFields (fields : JsonMap) : List (String × Json) → JsonMap
  | [] => fields
  | (key, .null) :: rest => mergeFields (BTree.remove fields key) rest
  | (key, val) :: rest =>
      mergeFields (BTree.insert fields key
        (jsonMergePatch ((BTree.get fields key).getD .null) val)) rest

end

/-- Fold one event on top of a materialized state. -/
def applyEvent (base : MaterializedState) (event : Event) : MaterializedState :=
  let base := { base with lastSequence := max base.lastSequence event.sequence }
  match event.kind with
  | .workflowStarted .. => { base with status := .running }
  | .workflowCompleted finalState => { base with currentState := finalState, status := .completed }
  | .workflowFailed _ => { base with status := .failed }
  | .workflowCancelled _ => { base with status := .cancelled }
  | .strategyLimitHit => { base with status := .limitExceeded }
  | .nodeScheduled node _ | .nodeStarted node _ _ =>
      { base with activeNodes := insert node base.activeNodes }
  | .nodeCompleted node result =>
      { base with
        activeNodes := base.activeNodes.erase node
        completedNodes := base.completedNodes.insert node result.output
        currentState := jsonMergePatch base.currentState result.statePatch }
  | .nodeFailed node _ _ _ | .nodeSkipped node _ | .nodeCancelled node =>
      { base with activeNodes := base.activeNodes.erase node }
  | .interruptRaised _ =>
      if base.status = .running then { base with status := .paused } else base
  | .approvalReceived _ answer =>
      { base with
        currentState := match answer.statePatch with
          | some patch => jsonMergePatch base.currentState patch
          | none => base.currentState
        status := .running }
  | _ => base

def applyEventsSeeded (base : MaterializedState) (events : List Event) : MaterializedState :=
  events.foldl applyEvent base

/-- The base when there is no snapshot: nothing folded yet. -/
def ofInitialInput (initialInput : Json) : MaterializedState where
  currentState := initialInput
  status := .pending
  completedNodes := ∅
  activeNodes := ∅
  lastSequence := 0

theorem applyEventsSeeded_append (base : MaterializedState) (xs ys : List Event) :
    applyEventsSeeded base (xs ++ ys) = applyEventsSeeded (applyEventsSeeded base xs) ys :=
  List.foldl_append

theorem lastSequence_applyEvent (base : MaterializedState) (event : Event) :
    (applyEvent base event).lastSequence = max base.lastSequence event.sequence := by
  unfold applyEvent
  cases event.kind with
  | interruptRaised node =>
    simp only
    split <;> rfl
  | _ => rfl

theorem lastSequence_applyEventsSeeded (base : MaterializedState) (events : List Event) :
    (applyEventsSeeded base events).lastSequence =
      max base.lastSequence (SeqLog.maxSequence events) := by
  induction events generalizing base with
  | nil => simp [applyEventsSeeded, SeqLog.maxSequence]
  | cons event events ih =>
    change (applyEventsSeeded (applyEvent base event) events).lastSequence = _
    rw [ih, lastSequence_applyEvent]
    simp only [SeqLog.maxSequence, List.foldr_cons]
    exact Nat.max_assoc _ _ _

end JamJet.Materializer
