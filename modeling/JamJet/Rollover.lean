import JamJet.OrderedMap
import JamJet.Snapshots
import JamJet.SubmitApproval

/-! Continue-as-new: a worker whose run has reached its ceiling starts the next segment, records
the boundary and finalizes the old run.  Each backend call is one step; what ties them is the
child's id and the worker's fence. -/

namespace JamJet

open AtomicCalls Materializer

/-- What a worker holds when its run is to roll over: the workflow, and its item under a fence. -/
structure RolloverJob where
  executionId : ExecutionId
  startNode : NodeId
  workflowId : String
  workflowVersion : String
  tenantId : String
  itemId : WorkItemId
  queueType : String
  leaseFence : ℤ

namespace Worker

section Rollover

variable (segmentExecutionId : ExecutionId → ℕ → ExecutionId) (r : RolloverJob)

/-- `materialize`, its three reads one after the other. -/
def materialize (e : ExecutionId) : Server MaterializedState := do
  match ← Api.backend (.getExecution e) with
  | none => Prog.done (.error (.notFound e))
  | some execution =>
      let snapshot ← Api.backend (.latestSnapshot e)
      let base := materializeBase snapshot execution.initialInput
      let events ← Api.backend (.getEventsSince e base.2)
      return applyEventsSeeded base.1 events

/-- Create the child, unless it is there already; it keeps the run's initiator. -/
def startNextSegment (nextSegmentNumber : ℕ) (carriedState : MaterializedState) :
    Server ExecutionId := do
  let newId := segmentExecutionId r.executionId nextSegmentNumber
  match ← Api.backend (.getExecution newId) with
  | some _ => return newId
  | none =>
      let now ← Api.utcNow
      let events ← Api.backend (.getEvents r.executionId)
      Api.backend (JamJet.startNextSegment r.executionId newId nextSegmentNumber carriedState
        r.workflowId r.workflowVersion r.startNode r.queueType r.tenantId now
        (Approvals.runInitiator events))
      return newId

/-- A stale fence is logged and otherwise ignored. -/
def finalizeRollover : Server Unit := do
  let now ← Api.utcNow
  let _ ← Api.backend (.finalizeRolloverFenced r.executionId r.itemId r.leaseFence now)

/-- The new segment first, then the boundary, then the old run's terminal status. -/
def rolloverSegment : Server Unit := do
  let events ← Api.backend (.getEvents r.executionId)
  if events.any fun e => e.kind.isSegmentBoundary then finalizeRollover r
  else
    match ← Api.backend (.getExecution r.executionId) with
    | none =>
        Prog.done (.error (.database
          ("execution " ++ toString r.executionId ++ " not found for rollover")))
    | some exec =>
        if exec.status.isTerminal then finalizeRollover r
        else
          let nextSegment := exec.segmentNumber + 1
          let carriedState ← materialize r.executionId
          let nextId ← startNextSegment segmentExecutionId r nextSegment carriedState
          let _ ← Api.backend (.latestSequence r.executionId)
          let _ ← Api.backend (.appendEvent r.executionId (.segmentBoundary nextSegment nextId))
          finalizeRollover r

end Rollover

end Worker

/-- The work item a call of a server process may create. -/
def ServerCreates {β : Type} (op : ServerOp β) (item : NewWorkItem) : Prop :=
  match op with
  | .inl (.inl op) => Creates op item
  | _ => False

/-- The start item of a continuation is this one, whatever node and queue the rollover came from. -/
theorem rollover_creates (segmentExecutionId : ExecutionId → ℕ → ExecutionId) (r : RolloverJob) :
    (Worker.rolloverSegment segmentExecutionId r).Within fun op => ∀ item, ServerCreates op item →
      item.nodeId = r.startNode ∧ item.queueType = r.queueType ∧ item.maxAttempts = 3 ∧
        item.payload = Json.ofFields [("workflow_id", .string r.workflowId),
          ("workflow_version", .string r.workflowVersion)] := by
  have hfinal : (Worker.finalizeRollover r).Within fun op => ∀ item, ServerCreates op item →
      item.nodeId = r.startNode ∧ item.queueType = r.queueType ∧ item.maxAttempts = 3 ∧
        item.payload = Json.ofFields [("workflow_id", .string r.workflowId),
          ("workflow_version", .string r.workflowVersion)] := by
    unfold Worker.finalizeRollover Api.backend Api.utcNow
    refine .bind (Prog.within_perform.mpr fun _ h => h.elim) fun now => ?_
    exact .bind (Prog.within_perform.mpr fun _ h => h.elim) fun _ => trivial
  unfold Worker.rolloverSegment
  refine .bind (Prog.within_perform.mpr fun _ h => h.elim) fun events => ?_
  split
  · exact hfinal
  · refine .bind (Prog.within_perform.mpr fun _ h => h.elim) fun exec => ?_
    cases exec with
    | none => trivial
    | some exec =>
      simp only
      split
      · exact hfinal
      · refine .bind ?_ fun carriedState => .bind ?_ fun nextId => ?_
        · unfold Worker.materialize
          refine .bind (Prog.within_perform.mpr fun _ h => h.elim) fun execution => ?_
          cases execution with
          | none => trivial
          | some execution =>
            refine .bind (Prog.within_perform.mpr fun _ h => h.elim) fun snapshot => ?_
            exact .bind (Prog.within_perform.mpr fun _ h => h.elim) fun _ => trivial
        · unfold Worker.startNextSegment
          refine .bind (Prog.within_perform.mpr fun _ h => h.elim) fun child => ?_
          cases child with
          | some child => trivial
          | none =>
            refine .bind (Prog.within_perform.mpr fun _ h => h.elim) fun now => ?_
            refine .bind (Prog.within_perform.mpr fun _ h => h.elim) fun events => ?_
            refine .bind (Prog.within_perform.mpr fun item h => ?_) fun _ => trivial
            cases h
            exact ⟨rfl, rfl, rfl, rfl⟩
        · refine .bind (Prog.within_perform.mpr fun _ h => h.elim) fun _ => ?_
          exact .bind (Prog.within_perform.mpr fun _ h => h.elim) fun _ => hfinal

theorem Json.get_ofFields_isSome {fields : List (String × Json)} {k : String} :
    ((Json.ofFields fields).get k).isSome = true ↔ k ∈ fields.map Prod.fst := by
  change (BTree.get (BTree.insertAll [] fields) k).isSome = true ↔ _
  rw [BTree.get_insertAll_isSome]
  simp

theorem buildWorkItemPayload_names_node (ir : WorkflowIr) (nodeId : NodeId) (node : NodeDef)
    (state : JsonMap) (workflowId workflowVersion : String) :
    ((buildWorkItemPayload ir nodeId node state workflowId workflowVersion).get "node_id").isSome =
      true :=
  Json.get_ofFields_isSome.mpr (by simp)

/-- The item the builder's call sites make of a node. -/
def builtItem (ir : WorkflowIr) (e : ExecutionId) (nodeId : NodeId) (node : NodeDef)
    (state : JsonMap) (workflowId workflowVersion : String) : NewWorkItem where
  executionId := e
  nodeId := nodeId
  queueType := node.kind.queueType.asStr
  payload := buildWorkItemPayload ir nodeId node state workflowId workflowVersion
  attempt := 0
  maxAttempts := maxAttemptsFor node.retryPolicy

/-- The state a run starts from: its input, if that is an object. -/
def initialState : Json → JsonMap
  | .object fields => fields
  | _ => []

/-- Whatever node and queue a rollover comes from, and whatever the node and the state are that
the builder is given: the continuation's start item never has the builder's payload, and it has
its queue and attempts only by coincidence. -/
theorem segment_item_never_as_built (segmentExecutionId : ExecutionId → ℕ → ExecutionId)
    (r : RolloverJob) (ir : WorkflowIr) (node : NodeDef) :
    (Worker.rolloverSegment segmentExecutionId r).Within fun op => ∀ item, ServerCreates op item →
      ∀ e state, let built := builtItem ir e r.startNode node state r.workflowId r.workflowVersion
        item.payload ≠ built.payload ∧
        (item.queueType = built.queueType ↔ r.queueType = node.kind.queueType.asStr) ∧
        (item.maxAttempts = built.maxAttempts ↔ maxAttemptsFor node.retryPolicy = 3) := by
  refine (rollover_creates segmentExecutionId r).mono fun op hop item hitem e state => ?_
  obtain ⟨-, hqueue, hmax, hpayload⟩ := hop item hitem
  refine ⟨fun heq => ?_, by rw [hqueue]; exact Iff.rfl, by rw [hmax]; exact eq_comm⟩
  have hnamed := buildWorkItemPayload_names_node ir r.startNode node state r.workflowId
    r.workflowVersion
  rw [show buildWorkItemPayload _ _ _ _ _ _ = _ from heq.symm, hpayload,
    Json.get_ofFields_isSome] at hnamed
  simp at hnamed

/-- A rollover of the one-node run, triggered by an item of the `general` queue. -/
def oneRollover : RolloverJob where
  executionId := 0
  startNode := "a"
  workflowId := "wf"
  workflowVersion := "1.0.0"
  tenantId := "default"
  itemId := 1
  queueType := "general"
  leaseFence := 1

/-- The run claimed by the worker that is to roll it over. -/
def oneClaimed : Sys where
  db := ({} : Db).runOps [⟨_, startOne⟩, ⟨_, .claimWorkItem "w" ["tool"] none 0⟩]

theorem segment_item_differs :
    ∃ r r' s, (Worker.rolloverSegment (fun _ n => n) oneRollover).alone
        (fun op s => s.handleServer (fun _ _ => none) op) oneClaimed = (.ok (), s) ∧
      s.db.workItems.find? 1 = some r ∧ s.db.workItems.find? 2 = some r' ∧
      r'.executionId = 1 ∧ r'.nodeId = r.nodeId ∧
      r.queueType = "tool" ∧ r'.queueType = "general" ∧
      (r.payload.get "node_id").isSome = true ∧ (r'.payload.get "node_id").isSome = false :=
  ⟨_, _, _, rfl, rfl, rfl, rfl, rfl, rfl, rfl, rfl, rfl⟩

end JamJet
