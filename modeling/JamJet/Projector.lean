import JamJet.Hashing
import JamJet.SubmitApproval
import Mathlib.Data.List.Sort

/-! The read model of approvals: a projector tails each run's log and keeps one durable row a node,
and the listing of a run's approvals is served from the rows, or from the log where there are
none. -/

namespace JamJet

open AtomicCalls Approvals

inductive ApprovalRowStatus
  | pending
  | approved
  | rejected
  deriving DecidableEq, Repr

structure ApprovalProjectionRow where
  executionId : ExecutionId
  nodeId : NodeId
  status : ApprovalRowStatus
  userId : Option String
  comment : Option String
  lastSequence : EventSequence
  toolName : Option String
  approver : Option String
  context : Option Json

def approvedDigestKey : String := "approved_digest"

/-- What the context column of an answered request keeps. -/
def digestContext (digest : String) : Json := Json.ofFields [(approvedDigestKey, .string digest)]

namespace Projector

/-- The node an approval event is about. -/
def approvalNode : EventKind → Option NodeId
  | .toolApprovalRequired node .. | .approvalReceived node _ | .approvalExpired node .. => some node
  | _ => none

/-- The row an event writes for its node, given the node's row.  A decision resolves a pending
request and an expiry the pending request it names; every other one is ignored. -/
def writtenRow [Chrono] (e : ExecutionId) (current : Option ApprovalProjectionRow) (event : Event) :
    Option ApprovalProjectionRow :=
  match event.kind with
  | .toolApprovalRequired node toolName approver context =>
      some
        { executionId := e
          nodeId := node
          status := .pending
          userId := none
          comment := none
          lastSequence := event.sequence
          toolName := some toolName
          approver := some approver
          context := some context }
  | .approvalReceived node answer =>
      if current.any fun r => r.status = .pending then
        some
          { executionId := e
            nodeId := node
            status := match answer.decision with
              | .approved => .approved
              | .rejected => .rejected
            userId := some answer.userId
            comment := answer.comment
            lastSequence := event.sequence
            toolName := none
            approver := none
            context := answer.approvedDigest.map digestContext }
      else none
  | .approvalExpired node requestSequence expiresAt principal =>
      if current.any fun r => r.status = .pending && r.lastSequence = requestSequence then
        some
          { executionId := e
            nodeId := node
            status := .rejected
            userId := some principal
            comment := some (expiryComment expiresAt)
            lastSequence := event.sequence
            toolName := none
            approver := none
            context := none }
      else none
  | _ => none

/-- The rows of a batch while it is folded, and the nodes it has modified. -/
structure Working where
  nodes : NodeId → Option ApprovalProjectionRow
  touched : List NodeId

def applyEvent [Chrono] (e : ExecutionId) (w : Working) (event : Event) : Working :=
  match approvalNode event.kind with
  | none => w
  | some node =>
      match writtenRow e (w.nodes node) event with
      | none => w
      | some row =>
          { nodes := Function.update w.nodes node (some row)
            touched := if node ∈ w.touched then w.touched else w.touched ++ [node] }

end Projector

/-- The calls of the projector.  A batch of rows is written together with the checkpoint. -/
inductive ProjectorOp : Type → Type
  | listExecutions (status : WorkflowStatus) (limit offset : ℕ) : ProjectorOp (List ExecutionRow)
  | getProjectorCheckpoint (e : ExecutionId) : ProjectorOp EventSequence
  | getEventsSince (e : ExecutionId) (sequence : EventSequence) : ProjectorOp (List Event)
  | getApprovalProjection (e : ExecutionId) : ProjectorOp (List ApprovalProjectionRow)
  | applyApprovalProjectionBatch (rows : List ApprovalProjectionRow) (e : ExecutionId)
      (newCheckpoint : EventSequence) : ProjectorOp Unit
  | setProjectorCheckpoint (e : ExecutionId) (newCheckpoint : EventSequence) : ProjectorOp Unit

abbrev ProjectorProg := Prog ProjectorOp BackendError

namespace Projector

variable [Chrono]

/-- One execution: fold the events past its checkpoint on its rows, and write the rows that changed
together with the new checkpoint. -/
def projectExecution (e : ExecutionId) : ProjectorProg ℕ := do
  let checkpoint ← Prog.perform (.getProjectorCheckpoint e)
  let unsorted ← Prog.perform (.getEventsSince e checkpoint)
  let events := unsorted.insertionSort fun a b => a.sequence ≤ b.sequence
  if events.isEmpty then return 0
  else do
    let batchMax := SeqLog.maxSequence events
    let existing ← Prog.perform (.getApprovalProjection e)
    let working := events.foldl (applyEvent e)
      ⟨fun node => existing.find? fun r => r.nodeId = node, []⟩
    let rowsToWrite := working.touched.filterMap working.nodes
    if rowsToWrite.isEmpty then
      Prog.perform (.setProjectorCheckpoint e batchMax)
      return 0
    else
      Prog.perform (.applyApprovalProjectionBatch rowsToWrite e batchMax)
      return rowsToWrite.length

def pageSize : ℕ := 100

/-- The executions of a page; an error in one is logged and the others go on. -/
def projectPage (page : List ExecutionRow) (total : ℕ) : ProjectorProg ℕ :=
  page.foldlM (fun total x => do
    match ← (projectExecution x.executionId).attempt with
    | .ok n => return total + n
    | .error _ => return total) total

/-- One pass over the running executions, page by page, of at most this many pages. -/
def tick (total offset : ℕ) : ℕ → ProjectorProg ℕ
  | 0 => return total
  | pages + 1 => do
      let page ← Prog.perform (.listExecutions .running pageSize offset)
      let total ← projectPage page total
      if page.length < pageSize then return total
      else tick total (offset + page.length) pages

end Projector

/-- The database, the rows of the read model and the projector's checkpoints. -/
structure ProjectorSys where
  db : Db := {}
  rows : Table (ExecutionId × NodeId) ApprovalProjectionRow (fun r => (r.executionId, r.nodeId)) :=
    .empty
  checkpoints : ExecutionId → EventSequence := fun _ => 0

namespace ProjectorSys

/-- The rows of a run, by node.  `reread` is what a context has become once it was written to its
text column and read back. -/
def approvalProjection (reread : Json → Json) (s : ProjectorSys) (e : ExecutionId) :
    List ApprovalProjectionRow :=
  ((s.rows.rows.filter fun r => r.executionId = e).insertionSort fun a b => a.nodeId ≤ b.nodeId).map
    fun r => { r with context := r.context.map reread }

def handle (reread : Json → Json) {β : Type} (op : ProjectorOp β) (s : ProjectorSys) :
    Except BackendError β × ProjectorSys :=
  match op with
  | .listExecutions status limit offset => (.ok (s.db.listExecutions status limit offset), s)
  | .getProjectorCheckpoint e => (.ok (s.checkpoints e), s)
  | .getEventsSince e sequence => (.ok ((s.db.events e).since sequence), s)
  | .getApprovalProjection e => (.ok (s.approvalProjection reread e), s)
  | .applyApprovalProjectionBatch rows e newCheckpoint =>
      (.ok (), { s with
        rows := rows.foldl Table.put s.rows
        checkpoints := Function.update s.checkpoints e newCheckpoint })
  | .setProjectorCheckpoint e newCheckpoint =>
      (.ok (), { s with checkpoints := Function.update s.checkpoints e newCheckpoint })

end ProjectorSys

/-- One projector ticks; everything else happens beside it.  It may stop between any two of its
calls, and any call may fail. -/
def projector [Chrono] (reread : Json → Json) :
    Machine ProjectorOp BackendError ProjectorSys ServerAct ℕ where
  handle op s := s.handle reread op
  fallible _ := true
  act a s := match a with
    | .call op => { s with db := (op.exec s.db).2 }
    | .setClock _ => s
  program pages := do
    let _ ← Projector.tick 0 0 pages
    return ()
  stop s := s

/-! The listing -/

/-- The entries of a run's approvals. -/
structure ApprovalsResponse where
  pending : List Json
  decided : List Json

/-- The deadline fields an entry may have. -/
def deadlineKeys : List String := [expiresAtKey, escalateAtKey]

def pendingEntry (node : NodeId) (toolName approver : Option String) (context : Json)
    (sequence : EventSequence) (deadlines : List (String × Json)) : Json :=
  Json.ofFields ([("node_id", .string node), ("tool_name", Json.ofOption .string toolName),
    ("approver", Json.ofOption .string approver), ("context", context),
    ("sequence", Json.ofNat sequence)] ++ deadlines)

def approvedEntry (node : NodeId) (userId : Option String) (sequence : EventSequence)
    (approvedDigest : Json) : Json :=
  Json.ofFields [("node_id", .string node), ("status", .string "approved"),
    ("user_id", Json.ofOption .string userId), ("sequence", Json.ofNat sequence),
    ("approved_digest", approvedDigest)]

def rejectedEntry (node : NodeId) (userId comment : Option String) (sequence : EventSequence) :
    Json :=
  Json.ofFields [("node_id", .string node), ("status", .string "rejected"),
    ("user_id", Json.ofOption .string userId), ("comment", Json.ofOption .string comment),
    ("sequence", Json.ofNat sequence)]

namespace Approvals

/-- The time of a deadline as the event-log path shows it: the string in the context, or the text
of what is there instead. -/
def PendingApproval.shown [FloatText] (p : PendingApproval) (key : String) : Option String :=
  (p.context.get key).map fun v => v.asStr.getD (Hashing.canonicalJson v)

def PendingApproval.toJson [FloatText] (p : PendingApproval) : Json :=
  pendingEntry p.node (some p.toolName) (some p.approver) p.context p.sequence
    (deadlineKeys.filterMap fun key => (p.shown key).map fun text => (key, .string text))

variable [Chrono]

/-- The nodes that ever had a request, in order, each once. -/
def requestedNodes (events : List Event) : List NodeId :=
  ((events.filterMap fun e => match e.kind with
    | .toolApprovalRequired node .. => some node
    | _ => none).insertionSort (· ≤ ·)).dedup

def decidedEntry (events : List Event) (node : NodeId) : Json :=
  match nodeApprovalStatus events node with
  | .approved userId sequence approvedDigest =>
      approvedEntry node (some userId) sequence (Json.ofOption .string approvedDigest)
  | .rejected userId comment sequence => rejectedEntry node (some userId) comment sequence
  | _ => Json.ofFields [("node_id", .string node), ("status", .string "unknown")]

/-- The approvals of a run as its log gives them. -/
def approvalsView [FloatText] (events : List Event) : ApprovalsResponse :=
  let pending := pendingApprovals events
  { pending := pending.map PendingApproval.toJson
    decided := ((requestedNodes events).filter fun node =>
      !pending.any fun p => p.node = node).map (decidedEntry events) }

end Approvals

namespace ApprovalProjectionRow

def pendingItem (r : ApprovalProjectionRow) : Option Json :=
  match r.status with
  | .pending => some (pendingEntry r.nodeId r.toolName r.approver (r.context.getD .null)
      r.lastSequence (deadlineKeys.filterMap fun key =>
        (r.context.bind fun c => c.get key).map fun v => (key, v)))
  | _ => none

def decidedItem (r : ApprovalProjectionRow) : Option Json :=
  match r.status with
  | .approved => some (approvedEntry r.nodeId r.userId r.lastSequence
      ((r.context.bind fun c => c.get approvedDigestKey).getD .null))
  | .rejected => some (rejectedEntry r.nodeId r.userId r.comment r.lastSequence)
  | .pending => none

end ApprovalProjectionRow

/-- `GET /executions/:id/approvals`: from the rows, or from the log where there are none. -/
def listApprovalsForExecution [Chrono] [FloatText] (reread : Json → Json) (s : ProjectorSys)
    (e : ExecutionId) : ApprovalsResponse :=
  let rows := s.approvalProjection reread e
  if rows.isEmpty then approvalsView (s.db.events e).entries
  else
    { pending := rows.filterMap ApprovalProjectionRow.pendingItem
      decided := rows.filterMap ApprovalProjectionRow.decidedItem }

end JamJet
