import JamJet.FactStore

/-! The SQLite message store.  A row keeps the organisation and the user of the scope a message is
saved under; the statements that read and delete look at the organisation alone. -/

namespace JamJet.Engram

/-- An order of rows by a column; what comes first among equals is left open. -/
structure RowOrder {α : Type} (le : α → α → Prop) where
  sort : List α → List α
  perm : ∀ rows, (sort rows).Perm rows
  sorted : ∀ rows, (sort rows).Pairwise le

/-- `ORDER BY seq ASC`. -/
abbrev BySeq := RowOrder fun m n : ChatMessage => m.seq ≤ n.seq

/-- `ORDER BY seq DESC`. -/
abbrev ByLatest := RowOrder fun m n : ChatMessage => n.seq ≤ m.seq

def BySeq.stable : BySeq where
  sort rows := rows.insertionSort fun m n => m.seq ≤ n.seq
  perm rows := List.perm_insertionSort _ rows
  sorted rows := by
    have htotal : Std.Total fun m n : ChatMessage => m.seq ≤ n.seq :=
      ⟨fun m n => le_total m.seq n.seq⟩
    have htrans : IsTrans ChatMessage fun m n => m.seq ≤ n.seq := ⟨fun _ _ _ hmn hno => hmn.trans hno⟩
    exact List.pairwise_insertionSort _ rows

def ByLatest.stable : ByLatest where
  sort rows := (BySeq.stable.sort rows).reverse
  perm rows := (List.reverse_perm _).trans (BySeq.stable.perm rows)
  sorted rows := List.pairwise_reverse.mpr (BySeq.stable.sorted rows)

/-- The message table, and of each message the scope it was saved under, of which the row keeps
two fields. -/
structure MessageStore where
  messages : Table MessageId ChatMessage (·.id)
  savedUnder : MessageId → Scope
  kept : ∀ m ∈ messages.rows,
    m.scope = { orgId := (savedUnder m.id).orgId, userId := (savedUnder m.id).userId }

namespace MessageStore

def empty : MessageStore := ⟨.empty, fun _ => {}, fun _ h => nomatch h⟩

/-- The row of a message; the scope of the call counts, not the message's own. -/
def row (conversationId : String) (scope : Scope) (m : ChatMessage) : ChatMessage :=
  { m with conversationId := conversationId, orgId := scope.orgId, userId := scope.userId }

/-- One `INSERT`. -/
def saveOne (s : MessageStore) (conversationId : String) (scope : Scope) (m : ChatMessage) :
    Except MemoryError MessageStore :=
  match h : s.messages.insert? (row conversationId scope m) with
  | none => .error (.database "UNIQUE constraint failed: messages.id")
  | some messages =>
      .ok
        { messages := messages
          savedUnder := fun id => if id = m.id then scope else s.savedUnder id
          kept := by
            obtain ⟨hfree, hrows⟩ := Table.rows_of_insert? h
            intro n hn
            rw [hrows, List.mem_append, List.mem_singleton] at hn
            rcases hn with hn | rfl
            · have hne : n.id ≠ m.id := Table.find?_eq_none_iff.mp hfree n hn
              simpa [hne] using s.kept n hn
            · simp [row, ChatMessage.scope] }

/-- Row by row: when one is refused, those before it stay. -/
def saveMessages (s : MessageStore) (conversationId : String) (scope : Scope) :
    List ChatMessage → Except MemoryError (List MessageId) × MessageStore
  | [] => (.ok [], s)
  | m :: rest =>
      match s.saveOne conversationId scope m with
      | .error err => (.error err, s)
      | .ok s =>
          let (ids, s) := s.saveMessages conversationId scope rest
          (ids.map (m.id :: ·), s)

/-- `WHERE conversation_id = ? AND org_id = ?` -/
def selects (conversationId : String) (scope : Scope) (m : ChatMessage) : Bool :=
  m.conversationId = conversationId && m.orgId = scope.orgId

/-- `LIMIT`, bound as a signed number; a negative one is no limit. -/
def limit (n : ℕ) (rows : List ChatMessage) : List ChatMessage :=
  if n % 2 ^ 64 < 2 ^ 63 then rows.take (n % 2 ^ 64) else rows

def getMessages (latest : ByLatest) (order : BySeq) (s : MessageStore) (conversationId : String)
    (lastN : Option ℕ) (scope : Scope) : List ChatMessage :=
  let rows := s.messages.rows.filter (selects conversationId scope)
  match lastN with
  | some n => order.sort (limit n (latest.sort rows))
  | none => order.sort rows

/-- `SELECT DISTINCT conversation_id .. WHERE org_id = ?` -/
def listConversations (s : MessageStore) (scope : Scope) : List String :=
  (((s.messages.rows.filter fun m => m.orgId = scope.orgId).map (·.conversationId)).dedup).insertionSort
    (· ≤ ·)

/-- The number of rows that went. -/
def deleteMessages (s : MessageStore) (conversationId : String) (scope : Scope) :
    ℕ × MessageStore :=
  ((s.messages.rows.filter (selects conversationId scope)).length,
    { messages := s.messages.restrict fun m => !selects conversationId scope m
      savedUnder := s.savedUnder
      kept := fun m hm => s.kept m (List.mem_filter.mp hm).1 })

variable {s : MessageStore} {conversationId : String} {scope : Scope} {m : ChatMessage}

/-- A message counts as a scope's own when it was saved under a scope this one contains. -/
def Owns (s : MessageStore) (scope : Scope) (m : ChatMessage) : Prop :=
  scope.contains (s.savedUnder m.id) = true

theorem orgId_of_kept (h : m ∈ s.messages.rows) : m.orgId = (s.savedUnder m.id).orgId :=
  congrArg Scope.orgId (s.kept m h)

theorem selects_iff : selects conversationId scope m = true ↔
    m.conversationId = conversationId ∧ m.orgId = scope.orgId := by simp [selects]

theorem mem_of_mem_limit {n : ℕ} {rows : List ChatMessage} (h : m ∈ limit n rows) : m ∈ rows := by
  unfold limit at h
  split at h
  · exact List.mem_of_mem_take h
  · exact h

theorem mem_of_mem_getMessages {latest : ByLatest} {order : BySeq} {lastN : Option ℕ}
    (h : m ∈ s.getMessages latest order conversationId lastN scope) :
    m ∈ s.messages.rows ∧ selects conversationId scope m = true := by
  unfold getMessages at h
  cases lastN with
  | none => exact List.mem_filter.mp ((order.perm _).mem_iff.mp h)
  | some n =>
    have hlimited := mem_of_mem_limit ((order.perm _).mem_iff.mp h)
    exact List.mem_filter.mp ((latest.perm _).mem_iff.mp hlimited)

theorem mem_listConversations {c : String} : c ∈ s.listConversations scope ↔
    ∃ m ∈ s.messages.rows, m.orgId = scope.orgId ∧ m.conversationId = c := by
  unfold listConversations
  rw [List.mem_insertionSort, List.mem_dedup, List.mem_map]
  constructor
  · rintro ⟨m, hm, hc⟩
    obtain ⟨hrow, horg⟩ := List.mem_filter.mp hm
    exact ⟨m, hrow, by simpa using horg, hc⟩
  · rintro ⟨m, hrow, horg, hc⟩
    exact ⟨m, List.mem_filter.mpr ⟨hrow, by simpa using horg⟩, hc⟩

theorem mem_deleteMessages : m ∈ (s.deleteMessages conversationId scope).2.messages.rows ↔
    m ∈ s.messages.rows ∧ selects conversationId scope m = false := by
  simp [deleteMessages, Table.restrict]

/-- What the three operations touch is the scope's own. -/
structure Private (s : MessageStore) (conversationId : String) (scope : Scope) : Prop where
  returned : ∀ (latest : ByLatest) (order : BySeq) (lastN : Option ℕ),
    ∀ m ∈ s.getMessages latest order conversationId lastN scope, s.Owns scope m
  listed : ∀ c ∈ s.listConversations scope,
    ∃ m ∈ s.messages.rows, m.conversationId = c ∧ s.Owns scope m
  deleted : ∀ m ∈ s.messages.rows,
    m ∉ (s.deleteMessages conversationId scope).2.messages.rows → s.Owns scope m

/-- The scope has its conversation to itself in its organisation, and a message of its own in every
other conversation there. -/
structure HasToItself (s : MessageStore) (conversationId : String) (scope : Scope) : Prop where
  alone : ∀ m ∈ s.messages.rows, m.conversationId = conversationId →
    (s.savedUnder m.id).orgId = scope.orgId → s.Owns scope m
  present : ∀ m ∈ s.messages.rows, (s.savedUnder m.id).orgId = scope.orgId →
    ∃ n ∈ s.messages.rows, n.conversationId = m.conversationId ∧ s.Owns scope n

theorem private_iff (s : MessageStore) (conversationId : String) (scope : Scope) :
    s.Private conversationId scope ↔ s.HasToItself conversationId scope := by
  constructor
  · intro h
    refine ⟨fun m hm hconversation horg => ?_, fun m hm horg => ?_⟩
    · have hselected : selects conversationId scope m = true :=
        selects_iff.mpr ⟨hconversation, (orgId_of_kept hm).trans horg⟩
      refine h.deleted m hm fun hstill => ?_
      simp [(mem_deleteMessages.mp hstill).2] at hselected
    · exact h.listed m.conversationId
        (mem_listConversations.mpr ⟨m, hm, (orgId_of_kept hm).trans horg, rfl⟩)
  · intro h
    have hown : ∀ m ∈ s.messages.rows, selects conversationId scope m = true → s.Owns scope m := by
      intro m hm hselected
      obtain ⟨hconversation, horg⟩ := selects_iff.mp hselected
      exact h.alone m hm hconversation ((orgId_of_kept hm).symm.trans horg)
    refine ⟨fun latest order lastN m hm => ?_, fun c hc => ?_, fun m hm hgone => ?_⟩
    · obtain ⟨hrow, hselected⟩ := mem_of_mem_getMessages hm
      exact hown m hrow hselected
    · obtain ⟨m, hm, horg, rfl⟩ := mem_listConversations.mp hc
      exact h.present m hm ((orgId_of_kept hm).symm.trans horg)
    · refine hown m hm (Bool.eq_false_imp_eq_true.mp fun hout => ?_)
      exact absurd (mem_deleteMessages.mpr ⟨hm, hout⟩) hgone

/-- Two users of one organisation who use the same conversation id. -/
def shared : MessageStore where
  messages := ⟨[⟨1, "conv-1", "user", "hello", "acme", some "alice", 0, 0, []⟩,
    ⟨2, "conv-1", "user", "my pin is 4711", "acme", some "bob", 0, 0, []⟩], by simp⟩
  savedUnder id := { orgId := "acme", userId := some (if id = 1 then "alice" else "bob") }
  kept := by
    intro m hm
    rcases List.mem_pair.mp hm with rfl | rfl <;> rfl

/-- Each user reads and deletes the other's message. -/
theorem shared_not_private : ¬ shared.Private "conv-1" { orgId := "acme", userId := some "alice" } := by
  intro h
  have hown := ((private_iff _ _ _).mp h).alone shared.messages.rows[1] (by simp) rfl rfl
  exact absurd hown (by simp [Owns, shared, Scope.contains, Scope.fieldMatches])

end MessageStore

end JamJet.Engram
