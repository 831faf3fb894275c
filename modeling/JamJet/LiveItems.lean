import JamJet.TickCalls

/-! Work items that are pending or claimed: how an operation can bring one about, and when a node
has more than one of them. -/

namespace JamJet

open AtomicCalls Scheduler

namespace Db

/-- The work item is one of this node, pending or claimed. -/
def LiveAt (db : Db) (e : ExecutionId) (node : NodeId) (id : WorkItemId) : Prop :=
  ∃ r, db.workItems.find? id = some r ∧ r.executionId = e ∧ r.nodeId = node ∧ r.isLive = true

def HasLive (db : Db) (e : ExecutionId) (node : NodeId) : Prop := ∃ id, db.LiveAt e node id

def OneLive (db : Db) : Prop :=
  ∀ e node id id', db.LiveAt e node id → db.LiveAt e node id' → id = id'

def HasExecution (db : Db) (e : ExecutionId) : Prop := ∃ x, db.executions.find? e = some x

/-- Every work item belongs to an execution that is there. -/
def Homed (db : Db) : Prop := ∀ id r, db.workItems.find? id = some r → db.HasExecution r.executionId

end Db

/-- What is known when an operation adds a row to the work items. -/
def Adds (db : Db) {β : Type} (op : BackendOp β) (db' : Db) (r : WorkItemRow) : Prop :=
  match op with
  | .enqueueWorkItem item _ => r.executionId = item.executionId ∧ r.nodeId = item.nodeId
  | .createRun x _ started scheduled item _ =>
      r.executionId = item.executionId ∧ r.nodeId = item.nodeId ∧
        db.executions.find? x.executionId = none ∧
        db'.events x.executionId = ((db.events x.executionId).append started).append scheduled
  | _ => False

section Items

variable {db : Db} {β : Type} {op : BackendOp β} {r r' : WorkItemRow} {e : ExecutionId}
  {node : NodeId} {id : WorkItemId}

/-- No operation moves an item to another node, or brings a settled one back to life. -/
theorem ItemStep.keeps (h : ItemStep db op r r') :
    r'.executionId = r.executionId ∧ r'.nodeId = r.nodeId ∧
      (r'.isLive = true → r.isLive = true) := by
  cases h with
  | keep => exact ⟨rfl, rfl, id⟩
  | settle _ hs =>
    rcases hs with ⟨now, rfl⟩ | rfl | rfl | ⟨n, rfl⟩ <;> exact ⟨rfl, rfl, fun h => by cases h⟩
  | releaseFailed _ hc | releaseParked _ hc =>
    refine ⟨rfl, rfl, fun _ => ?_⟩
    have := of_decide_eq_true hc
    simp [WorkItemRow.isLive, this.2]
  | expire hx =>
    refine ⟨rfl, rfl, fun _ => ?_⟩
    simp only [WorkItemRow.leaseExpired, Bool.and_eq_true, decide_eq_true_eq] at hx
    simp [WorkItemRow.isLive, hx.1]
  | sweepRequeue _ hc => exact ⟨rfl, rfl, fun _ => by simp [WorkItemRow.isLive, hc]⟩
  | claim hp => exact ⟨rfl, rfl, fun _ => by simp [WorkItemRow.isLive, hp]⟩
  | renew => exact ⟨rfl, rfl, fun h => h⟩
  | reattach hg =>
    refine ⟨rfl, rfl, fun _ => ?_⟩
    have := of_decide_eq_true hg
    simp [WorkItemRow.isLive, this.1]

theorem ItemStep.live (h : ItemStep db op r r') (hop : op.settles = false)
    (hl : r.isLive = true) : r'.isLive = true := by
  cases h with
  | keep => exact hl
  | settle hs => rw [hop] at hs; cases hs
  | releaseFailed => cases hop
  | expire => cases hop
  | renew => exact hl
  | _ => rfl

/-- A row that was not there: the one new item of the operation, of an execution that exists. -/
theorem adds_of_exec (hnone : db.workItems.find? id = none)
    (hr : (op.exec db).2.workItems.find? id = some r) :
    id = db.freshItemId ∧ (op.exec db).2.HasExecution r.executionId ∧
      Adds db op (op.exec db).2 r := by
  obtain ⟨item, now, hc, hid, rfl⟩ := (op.effect db).items.new hnone hr
  refine ⟨hid, ?_⟩
  cases op with
  | enqueueWorkItem item' now' =>
    obtain rfl : item = item' := hc
    refine ⟨?_, rfl, rfl⟩
    simp only [BackendOp.exec, Db.enqueueWorkItem] at hr ⊢
    split at hr
    · rw [hnone] at hr
      cases hr
    · rename_i n db' h
      obtain ⟨⟨row, hrow⟩, _, items, _, rfl⟩ := Db.insertWorkItem_eq_some h
      exact ⟨row, hrow⟩
  | createRun x seed started scheduled item' now' =>
    obtain rfl : item = item' := hc
    rcases Db.createRun_cases db x seed started scheduled item now' with
      h | ⟨executions, items, hexec, _, ⟨row, hrow⟩, h⟩
    · rw [BackendOp.exec, h, hnone] at hr
      cases hr
    · refine ⟨⟨row, ?_⟩, rfl, rfl, (Table.rows_of_insert? hexec).1, ?_⟩
      · rw [BackendOp.exec, h]
        exact hrow
      · rw [BackendOp.exec, h]
        exact Function.update_self ..
  | _ => exact hc.elim

theorem Db.LiveAt.of_exec (h : (op.exec db).2.LiveAt e node id) :
    db.LiveAt e node id ∨ db.workItems.find? id = none := by
  obtain ⟨r', hr', rfl, rfl, hl⟩ := h
  cases hr : db.workItems.find? id with
  | none => exact .inr rfl
  | some r =>
    obtain ⟨r₁, hr₁, hstep⟩ := (op.effect db).items.row hr
    cases hr'.symm.trans hr₁
    obtain ⟨he, hn, hlive⟩ := hstep.keeps
    exact .inl ⟨r, hr, he.symm, hn.symm, hlive hl⟩

theorem Db.HasLive.of_exec (hc : op.creates = false) (h : (op.exec db).2.HasLive e node) :
    db.HasLive e node := by
  obtain ⟨id, hid⟩ := h
  rcases hid.of_exec with hlive | hnone
  · exact ⟨id, hlive⟩
  · obtain ⟨r, hr, _⟩ := hid
    obtain ⟨item, _, hitem, _⟩ := (op.effect db).items.new hnone hr
    exact absurd hitem (op.not_creates hc item)

theorem Db.HasLive.exec (hop : op.settles = false) (h : db.HasLive e node) :
    (op.exec db).2.HasLive e node := by
  obtain ⟨id, r, hr, rfl, rfl, hl⟩ := h
  obtain ⟨r', hr', hstep⟩ := (op.effect db).items.row hr
  obtain ⟨he, hn, _⟩ := hstep.keeps
  exact ⟨id, r', hr', he, hn, hstep.live hop hl⟩

theorem Db.HasExecution.exec (op : BackendOp β) (h : db.HasExecution e) :
    (op.exec db).2.HasExecution e := by
  obtain ⟨x, hx⟩ := h
  obtain ⟨x', hx', _⟩ := (op.effect db).executions.row hx
  exact ⟨x', hx'⟩

theorem Db.Homed.exec (op : BackendOp β) (h : db.Homed) : (op.exec db).2.Homed := by
  intro id r' hr'
  cases hr : db.workItems.find? id with
  | none => exact (adds_of_exec hr hr').2.1
  | some r =>
    obtain ⟨r₁, hr₁, hstep⟩ := (op.effect db).items.row hr
    cases hr'.symm.trans hr₁
    rw [hstep.keeps.1]
    exact (h id r hr).exec op

end Items

end JamJet
