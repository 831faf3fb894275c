import JamJet.Approvals
import Mathlib.Data.List.Sort

/-! The scheduling state of one execution, folded from its events, and what the scheduler reads
off it: dead edges, skippable nodes, runnable nodes. -/

namespace JamJet

structure ExecProgress where
  completed : Finset NodeId := ∅
  scheduled : Finset NodeId := ∅
  terminalFailed : Finset NodeId := ∅
  finalState : JsonMap := []
  lastSequence : EventSequence := 0
  held : Finset NodeId := ∅
  heldRequest : Finmap (fun _ : NodeId => EventSequence) := ∅
  deadlineRequests : Finset NodeId := ∅
  unreadable : Bool := false
  stallRecorded : Bool := false
  rejected : Finmap (fun _ : NodeId => String) := ∅
  routes : Finmap (fun _ : NodeId => NodeId) := ∅
  skipped : Finset NodeId := ∅

namespace ExecProgress

variable [Chrono]

/-- A start or a retry does not bring back a node that reached a terminal outcome. -/
def markScheduled (p : ExecProgress) (node : NodeId) : ExecProgress :=
  if node ∈ p.completed ∨ node ∈ p.terminalFailed then p
  else { p with scheduled := insert node p.scheduled }

def hasDeadline (context : Json) : Bool :=
  [Approvals.expiresAtKey, Approvals.escalateAtKey].any fun k => (context.get k).isSome

/-- The effect of an event's kind; `apply` also moves `lastSequence`. -/
def applyKind (p : ExecProgress) (sequence : EventSequence) : EventKind → ExecProgress
  | .nodeCompleted node result =>
      { p with
        completed := insert node p.completed
        scheduled := p.scheduled.erase node
        held := p.held.erase node
        routes := match (result.output.get "chosen_target").bind Json.asStr with
          | some target => p.routes.insert node target
          | none => p.routes
        finalState := match result.statePatch with
          | .object patch => BTree.insertAll p.finalState patch
          | _ => p.finalState }
  | .nodeSkipped node _ =>
      { p with
        completed := insert node p.completed
        skipped := insert node p.skipped
        scheduled := p.scheduled.erase node
        held := p.held.erase node }
  | .nodeScheduled node _ | .nodeStarted node _ _ => p.markScheduled node
  | .nodeCancelled node =>
      { p with
        completed := insert node p.completed
        scheduled := p.scheduled.erase node
        held := p.held.erase node
        rejected := p.rejected.erase node }
  | .nodeFailed node _ _ false =>
      { p with
        terminalFailed := insert node p.terminalFailed
        scheduled := p.scheduled.erase node
        rejected := p.rejected.erase node
        held := p.held.erase node }
  -- the hold outlives a retryable failure: the decision on it is still to come
  | .nodeFailed node _ _ true => { p with scheduled := p.scheduled.erase node }
  | .retryScheduled node _ _ => p.markScheduled node
  | .toolApprovalRequired node _ _ context =>
      { p with
        held := insert node p.held
        heldRequest := p.heldRequest.insert node sequence
        deadlineRequests :=
          if hasDeadline context then insert node p.deadlineRequests
          else p.deadlineRequests.erase node }
  | .approvalReceived node answer =>
      if node ∈ p.held then
        let p := { p with held := p.held.erase node }
        match answer.decision with
        | .approved => { p with scheduled := p.scheduled.erase node }
        | .rejected =>
            let reason := "approval rejected by " ++ answer.userId ++
              (match answer.comment with
                | some c => ": " ++ c
                | none => "")
            { p with rejected := p.rejected.insert node reason }
      else p
  | .unknown => { p with unreadable := true }
  | .runStalled _ => { p with stallRecorded := true }
  | .approvalExpired node requestSequence expiresAt principal =>
      if p.heldRequest.lookup node = some requestSequence ∧ node ∈ p.held then
        { p with
          held := p.held.erase node
          rejected := p.rejected.insert node
            ("approval rejected by " ++ principal ++ ": " ++ Approvals.expiryComment expiresAt) }
      else p
  | .workflowStarted (.object input) _ =>
      { p with finalState := BTree.insertAll p.finalState input }
  | _ => p

/-- Fold one event into the running state. -/
def apply (p : ExecProgress) (event : Event) : ExecProgress :=
  { p.applyKind event.sequence event.kind with
    lastSequence := max p.lastSequence event.sequence }

def applyAll (p : ExecProgress) (events : List Event) : ExecProgress := events.foldl apply p

theorem applyAll_append (p : ExecProgress) (xs ys : List Event) :
    p.applyAll (xs ++ ys) = (p.applyAll xs).applyAll ys :=
  List.foldl_append

theorem lastSequence_applyAll (p : ExecProgress) (events : List Event) :
    (p.applyAll events).lastSequence = max p.lastSequence (SeqLog.maxSequence events) := by
  induction events generalizing p with
  | nil => simp [applyAll, SeqLog.maxSequence]
  | cons event events ih =>
    change ((p.apply event).applyAll events).lastSequence = _
    rw [ih]
    simp only [apply, SeqLog.maxSequence, List.foldr_cons]
    exact Nat.max_assoc _ _ _

/-- The full fold: everything up to a sequence number, from nothing. -/
def foldOf (log : EventLog) (n : EventSequence) : ExecProgress :=
  applyAll {} (log.upTo n)

/-- Must the edge never enable its target? -/
def edgeDead (p : ExecProgress) (ir : WorkflowIr) (src dst : NodeId) : Bool :=
  if src ∈ p.skipped then true
  else
    match ir.nodes.lookup src with
    | some ⟨.condition branches, _⟩ =>
        if !branches.isEmpty && src ∈ p.completed then p.routes.lookup src ≠ some dst else false
    | _ => false

def inEdges (ir : WorkflowIr) (node : NodeId) : List EdgeDef :=
  ir.edges.filter fun e => e.dst = node

/-- A join over the live in-edges; a node without in-edges is a root. -/
def isRunnable (p : ExecProgress) (ir : WorkflowIr) (node : NodeId) : Bool :=
  if node ∈ p.scheduled ∨ node ∈ p.completed ∨ node ∈ p.skipped then false
  else
    let live := (inEdges ir node).filter fun e => !p.edgeDead ir e.src node
    if (inEdges ir node).isEmpty then true
    else !live.isEmpty && live.all fun e => e.src ∈ p.completed

/-- Completed, scheduled, skipped or failed for good. -/
def resolved (p : ExecProgress) (node : NodeId) : Prop :=
  node ∈ p.completed ∨ node ∈ p.scheduled ∨ node ∈ p.skipped ∨ node ∈ p.terminalFailed

instance (p : ExecProgress) (node : NodeId) : Decidable (p.resolved node) :=
  inferInstanceAs (Decidable (_ ∨ _ ∨ _ ∨ _))

/-- Unresolved, with in-edges, all of them dead. -/
def skippable (p : ExecProgress) (ir : WorkflowIr) (node : NodeId) : Bool :=
  if p.resolved node then false
  else !(inEdges ir node).isEmpty && (inEdges ir node).all fun e => p.edgeDead ir e.src node

/-- The nodes one pass of the cascade finds, sorted for a deterministic log. -/
def newlySkippable (order : HashOrder NodeId) (p : ExecProgress) (ir : WorkflowIr) :
    List NodeId :=
  ((order.walk ir.nodes.keys).filter (p.skippable ir)).insertionSort (· ≤ ·)

end ExecProgress

end JamJet
