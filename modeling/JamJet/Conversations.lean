import JamJet.Messages

/-! Saving to a conversation over the REST route and the tool, and reading it back.  A call numbers
its messages by their places in its own list. -/

namespace JamJet.Engram

def MemoryError.display : MemoryError → String
  | .database text => "database error: " ++ text
  | .serialization text => "serialization error: " ++ text
  | .notFound id => "not found: " ++ toString id
  | .embedding text => "embedding error: " ++ text

/-- The scope a request's fields name; a session without a user is dropped. -/
def parseScope (orgId userId sessionId : Option String) : Scope :=
  let org := orgId.getD "default"
  match userId with
  | some uid =>
      match sessionId with
      | some sid => { orgId := org, userId := some uid, sessionId := some sid }
      | none => { orgId := org, userId := some uid }
  | none => { orgId := org }

def jsonArray : Json → Option (List Json)
  | .array items => some items
  | _ => none

def jsonObject : Json → Option JsonMap
  | .object fields => some fields
  | _ => none

structure MessageInput where
  role : String
  content : String
  metadata : Option JsonMap := none

/-- An item of the tool's list, when it has a role and a content. -/
def MessageInput.ofJson (m : Json) : Option MessageInput := do
  let role ← (m.get "role").bind Json.asStr
  let content ← (m.get "content").bind Json.asStr
  some { role := role, content := content, metadata := (m.get "metadata").bind jsonObject }

structure SaveMessagesRequest where
  conversationId : String
  messages : List MessageInput
  userId : Option String := none
  orgId : Option String := none

/-- A message under a fresh id, at the time it is created. -/
def ChatMessage.new (id : MessageId) (now : Instant) (conversationId role content : String)
    (scope : Scope) (seq : ℤ) : ChatMessage :=
  { id := id, conversationId := conversationId, role := role, content := content,
    orgId := scope.orgId, userId := scope.userId, seq := seq, createdAt := now }

/-- `i as i32`. -/
def asI32 (i : ℕ) : ℤ := (i : ℤ).bmod (2 ^ 32)

/-- What the request of a save call is about: where it saves, and the items of its list. -/
structure SaveRequest where
  conversationId : String
  scope : Scope
  items : List (Option MessageInput)

namespace SaveRequest

/-- The messages of a call: the items that can be read, each numbered by its place in the list. -/
def chatMessages (q : SaveRequest) (nextId : MessageId) (now : Instant) : List ChatMessage :=
  q.items.zipIdx.filterMap fun (item, i) => item.map fun m =>
    let msg := ChatMessage.new (nextId + i) now q.conversationId m.role m.content q.scope (asI32 i)
    match m.metadata with
    | some metadata => { msg with metadata := metadata }
    | none => msg

/-- The places of the items that can be read, as 32-bit numbers. -/
def numbers (q : SaveRequest) : List ℤ :=
  q.items.zipIdx.filterMap fun (item, i) => item.map fun _ => asI32 i

variable {q : SaveRequest} {nextId : MessageId} {now : Instant} {m : ChatMessage}

theorem seq_chatMessages (q : SaveRequest) (nextId : MessageId) (now : Instant) :
    (q.chatMessages nextId now).map (·.seq) = q.numbers := by
  unfold chatMessages numbers
  rw [List.map_filterMap]
  refine List.filterMap_congr fun (item, i) _ => ?_
  cases item with
  | none => rfl
  | some m => cases hmeta : m.metadata <;> simp [ChatMessage.new, hmeta]

theorem id_mem_chatMessages (h : m ∈ q.chatMessages nextId now) :
    nextId ≤ m.id ∧ m.id < nextId + q.items.length := by
  obtain ⟨⟨item, i⟩, hitem, hmap⟩ := List.mem_filterMap.mp h
  obtain ⟨input, rfl, hm⟩ := Option.map_eq_some_iff.mp hmap
  have hi : i < q.items.length := by simpa using List.snd_lt_of_mem_zipIdx hitem
  have hid : m.id = nextId + i := by
    subst hm
    cases hmeta : input.metadata <;> simp [ChatMessage.new]
  rw [hid]
  exact ⟨Nat.le_add_right _ _, Nat.add_lt_add_left hi _⟩

theorem nodup_chatMessages (q : SaveRequest) (nextId : MessageId) (now : Instant) :
    ((q.chatMessages nextId now).map (·.id)).Nodup := by
  have hplaces : q.items.zipIdx.Pairwise fun a b => a.2 < b.2 := by
    refine List.pairwise_map.mp ?_
    rw [List.zipIdx_map_snd]
    exact List.pairwise_lt_range'
  refine List.pairwise_map.mpr (List.Pairwise.filterMap _ ?_ hplaces)
  rintro ⟨item, i⟩ ⟨item', j⟩ hlt m hm n hn heq
  obtain ⟨input, rfl, rfl⟩ := Option.map_eq_some_iff.mp hm
  obtain ⟨input', rfl, rfl⟩ := Option.map_eq_some_iff.mp hn
  have hsum : nextId + i = nextId + j := by
    cases hmeta : input.metadata <;> cases hmeta' : input'.metadata <;>
      simpa [ChatMessage.new, hmeta, hmeta'] using heq
  exact absurd (Nat.add_left_cancel hsum) (Nat.ne_of_lt hlt)

theorem row_chatMessages (h : m ∈ q.chatMessages nextId now) :
    MessageStore.row q.conversationId q.scope m = m := by
  obtain ⟨⟨item, i⟩, -, hmap⟩ := List.mem_filterMap.mp h
  obtain ⟨input, rfl, rfl⟩ := Option.map_eq_some_iff.mp hmap
  cases hmeta : input.metadata <;> simp [MessageStore.row, ChatMessage.new]

end SaveRequest

namespace MessageStore

variable {s : MessageStore} {conversationId : String} {scope : Scope} {m : ChatMessage}

theorem mem_saveMessages {messages : List ChatMessage}
    (h : m ∈ (s.saveMessages conversationId scope messages).2.messages.rows) :
    m ∈ s.messages.rows ∨ ∃ x ∈ messages, m = row conversationId scope x := by
  induction messages generalizing s with
  | nil => exact .inl h
  | cons x rest ih =>
    unfold saveMessages at h
    cases hone : s.saveOne conversationId scope x with
    | error err => rw [hone] at h; exact .inl h
    | ok s' =>
      rw [hone] at h
      have hrows : s'.messages.rows = s.messages.rows ++ [row conversationId scope x] := by
        unfold saveOne at hone
        split at hone
        · cases hone
        · rename_i hinsert
          cases hone
          exact (Table.rows_of_insert? hinsert).2
      rcases ih h with hold | ⟨y, hy, rfl⟩
      · rw [hrows, List.mem_append, List.mem_singleton] at hold
        rcases hold with hold | rfl
        · exact .inl hold
        · exact .inr ⟨x, List.mem_cons_self, rfl⟩
      · exact .inr ⟨y, List.mem_cons_of_mem _ hy, rfl⟩

theorem saveMessages_of_fresh {messages : List ChatMessage}
    (hnodup : (messages.map (·.id)).Nodup)
    (hfresh : ∀ x ∈ messages, ∀ m ∈ s.messages.rows, m.id ≠ x.id) :
    (s.saveMessages conversationId scope messages).1 = .ok (messages.map (·.id)) ∧
      (s.saveMessages conversationId scope messages).2.messages.rows =
        s.messages.rows ++ messages.map (row conversationId scope) := by
  induction messages generalizing s with
  | nil => simp [saveMessages]
  | cons x rest ih =>
    obtain ⟨hx, hrest⟩ := List.nodup_cons.mp hnodup
    have hfree : s.messages.find? (row conversationId scope x).id = none :=
      Table.find?_eq_none_iff.mpr (hfresh x List.mem_cons_self)
    obtain ⟨table, hinsert, hrows⟩ := Table.insert?_eq_some hfree
    obtain ⟨s', hone, htable⟩ : ∃ s', s.saveOne conversationId scope x = .ok s' ∧
        s'.messages = table := by
      unfold saveOne
      split
      · rename_i hnone
        rw [hnone] at hinsert
        cases hinsert
      · rename_i hsome
        rw [hsome] at hinsert
        exact ⟨_, rfl, Option.some.inj hinsert⟩
    rw [← htable] at hrows
    have hfresh' : ∀ y ∈ rest, ∀ m ∈ s'.messages.rows, m.id ≠ y.id := by
      intro y hy m hm
      rw [hrows, List.mem_append, List.mem_singleton] at hm
      rcases hm with hm | rfl
      · exact hfresh y (List.mem_cons_of_mem _ hy) m hm
      · intro heq
        exact hx (List.mem_map.mpr ⟨y, hy, heq.symm⟩)
    obtain ⟨hids, hall⟩ := ih hrest hfresh'
    unfold saveMessages
    rw [hone]
    refine ⟨?_, ?_⟩
    · simp only [hids, List.map_cons]
      rfl
    · simp only [hall, hrows, List.map_cons, List.append_assoc, List.singleton_append]

end MessageStore

/-- The server's side of the conversations.  The ids it draws are fresh. -/
structure MessageServer where
  store : MessageStore
  nextId : MessageId
  fresh : ∀ m ∈ store.messages.rows, m.id < nextId

/-- A call that saves, as it arrives. -/
inductive SaveCall
  | rest (body : SaveMessagesRequest)
  | tool (args : Json)

namespace MessageServer

def start : MessageServer := ⟨.empty, 0, fun _ h => nomatch h⟩

/-- `save_chat_messages`. -/
def save (s : MessageServer) (now : Instant) (q : SaveRequest) :
    Except MemoryError (List MessageId) × MessageServer :=
  let saved := s.store.saveMessages q.conversationId q.scope (q.chatMessages s.nextId now)
  (saved.1,
    { store := saved.2
      nextId := s.nextId + q.items.length
      fresh := by
        intro m hm
        rcases MessageStore.mem_saveMessages hm with hold | ⟨x, hx, rfl⟩
        · exact Nat.lt_of_lt_of_le (s.fresh m hold) (Nat.le_add_right _ _)
        · exact (SaveRequest.id_mem_chatMessages hx).2 })

/-- `POST /v1/memory/messages`; an error is a status and a text. -/
def saveMessagesHandler (s : MessageServer) (now : Instant) (body : SaveMessagesRequest) :
    Except (ℕ × String) (List MessageId) × MessageServer :=
  if body.messages.isEmpty then (.error (400, "messages must not be empty"), s)
  else
    let scope := parseScope body.orgId body.userId none
    match s.save now ⟨body.conversationId, scope, body.messages.map some⟩ with
    | (.ok ids, s) => (.ok ids, s)
    | (.error err, s) => (.error (500, err.display), s)

/-- `messages_save`: items without a role or a content are passed over. -/
def handleMessagesSave (s : MessageServer) (now : Instant) (args : Json) :
    Except String (List MessageId) × MessageServer :=
  let text (key : String) := (args.get key).bind Json.asStr
  match text "conversation_id" with
  | none => (.error "conversation_id is required", s)
  | some conversationId =>
      match (args.get "messages").bind jsonArray with
      | none => (.error "messages array is required", s)
      | some rawMessages =>
          if rawMessages.isEmpty then (.error "messages must not be empty", s)
          else
            let scope := parseScope (text "org_id") (text "user_id") (text "session_id")
            let q : SaveRequest := ⟨conversationId, scope, rawMessages.map MessageInput.ofJson⟩
            if (q.chatMessages s.nextId now).isEmpty then
              (.error "messages must contain valid \x7brole, content\x7d objects", s)
            else
              match s.save now q with
              | (.ok ids, s) => (.ok ids, s)
              | (.error err, s) => (.error ("save_chat_messages failed: " ++ err.display), s)

/-- `GET /v1/memory/messages/..` and `messages_get`. -/
def getChatMessages (latest : ByLatest) (order : BySeq) (s : MessageServer) (conversationId : String)
    (lastN : Option ℕ) (scope : Scope) : List ChatMessage :=
  s.store.getMessages latest order conversationId lastN scope

def handle (s : MessageServer) (now : Instant) : SaveCall → MessageServer
  | .rest body => (s.saveMessagesHandler now body).2
  | .tool args => (s.handleMessagesSave now args).2

/-- The calls in their order, each at its time. -/
def run (s : MessageServer) (calls : List (Instant × SaveCall)) : MessageServer :=
  calls.foldl (fun s c => s.handle c.1 c.2) s

end MessageServer

namespace SaveCall

/-- What a call asks for; a call that names no conversation or has no list asks for nothing. -/
def request : SaveCall → Option SaveRequest
  | .rest body =>
      some ⟨body.conversationId, parseScope body.orgId body.userId none, body.messages.map some⟩
  | .tool args =>
      let text (key : String) := (args.get key).bind Json.asStr
      match text "conversation_id", (args.get "messages").bind jsonArray with
      | some conversationId, some rawMessages =>
          some ⟨conversationId, parseScope (text "org_id") (text "user_id") (text "session_id"),
            rawMessages.map MessageInput.ofJson⟩
      | _, _ => none

/-- The messages a call saves. -/
def sent (c : SaveCall) (nextId : MessageId) (now : Instant) : List ChatMessage :=
  (c.request.map (·.chatMessages nextId now)).getD []

/-- The numbers it saves them under. -/
def numbers (c : SaveCall) : List ℤ := (c.request.map (·.numbers)).getD []

/-- The call saves to the conversation under the scope. -/
def isOn (conversationId : String) (scope : Scope) (c : SaveCall) : Bool :=
  c.request.any fun q => q.conversationId = conversationId && q.scope = scope

variable {c : SaveCall} {nextId : MessageId} {now : Instant} {conversationId : String} {scope : Scope}

theorem seq_sent (c : SaveCall) (nextId : MessageId) (now : Instant) :
    (c.sent nextId now).map (·.seq) = c.numbers := by
  unfold sent numbers
  cases c.request with
  | none => rfl
  | some q => exact q.seq_chatMessages nextId now

theorem sent_eq_nil_iff : c.sent nextId now = [] ↔ c.numbers = [] := by
  rw [← seq_sent c nextId now, List.map_eq_nil_iff]

end SaveCall

namespace MessageServer

variable {s : MessageServer} {now : Instant} {c : SaveCall} {calls : List (Instant × SaveCall)}
  {conversationId : String} {scope : Scope}

theorem rows_save (s : MessageServer) (now : Instant) (q : SaveRequest) :
    (s.save now q).2.store.messages.rows =
      s.store.messages.rows ++ q.chatMessages s.nextId now := by
  have hfresh : ∀ x ∈ q.chatMessages s.nextId now, ∀ m ∈ s.store.messages.rows, m.id ≠ x.id :=
    fun x hx m hm => Nat.ne_of_lt
      (Nat.lt_of_lt_of_le (s.fresh m hm) (SaveRequest.id_mem_chatMessages hx).1)
  refine (MessageStore.saveMessages_of_fresh (q.nodup_chatMessages _ now) hfresh).2.trans ?_
  rw [List.map_congr_left fun m hm => SaveRequest.row_chatMessages hm, List.map_id']

theorem rows_handle (s : MessageServer) (now : Instant) (c : SaveCall) :
    (s.handle now c).store.messages.rows = s.store.messages.rows ++ c.sent s.nextId now := by
  cases c with
  | rest body =>
    simp only [handle, saveMessagesHandler, SaveCall.sent, SaveCall.request, Option.map_some,
      Option.getD_some]
    split
    · rename_i hempty
      simp [List.isEmpty_iff.mp hempty, SaveRequest.chatMessages]
    · rw [← rows_save]
      rcases s.save now _ with ⟨_ | _, _⟩ <;> rfl
  | tool args =>
    simp only [handle, handleMessagesSave, SaveCall.sent, SaveCall.request]
    cases hconversation : (args.get "conversation_id").bind Json.asStr with
    | none => simp
    | some conversationId =>
      cases hmessages : (args.get "messages").bind jsonArray with
      | none => simp
      | some rawMessages =>
        simp only [Option.map_some, Option.getD_some]
        split
        · rename_i hempty
          simp [List.isEmpty_iff.mp hempty, SaveRequest.chatMessages]
        · split
          · rename_i hnone
            rw [List.isEmpty_iff.mp hnone, List.append_nil]
          · rw [← rows_save]
            rcases s.save now _ with ⟨_ | _, _⟩ <;> rfl

/-- The rows the calls of a run add. -/
def added : MessageServer → List (Instant × SaveCall) → List ChatMessage
  | _, [] => []
  | s, (now, c) :: rest => c.sent s.nextId now ++ (s.handle now c).added rest

/-- The messages saved to the conversation under the scope, call by call and in each call in the
order of its list. -/
def saved (conversationId : String) (scope : Scope) :
    MessageServer → List (Instant × SaveCall) → List ChatMessage
  | _, [] => []
  | s, (now, c) :: rest =>
      (if c.isOn conversationId scope then c.sent s.nextId now else []) ++
        saved conversationId scope (s.handle now c) rest

theorem rows_run (s : MessageServer) (calls : List (Instant × SaveCall)) :
    (s.run calls).store.messages.rows = s.store.messages.rows ++ s.added calls := by
  induction calls generalizing s with
  | nil => simp [run, added]
  | cons head rest ih =>
    obtain ⟨now, c⟩ := head
    have hrun : s.run ((now, c) :: rest) = (s.handle now c).run rest := rfl
    rw [hrun, ih, rows_handle, added, List.append_assoc]

theorem seq_saved (s : MessageServer) (calls : List (Instant × SaveCall)) :
    (saved conversationId scope s calls).map (·.seq) =
      (calls.filter fun c => c.2.isOn conversationId scope).flatMap fun c => c.2.numbers := by
  induction calls generalizing s with
  | nil => rfl
  | cons head rest ih =>
    obtain ⟨now, c⟩ := head
    rw [saved, List.map_append, ih]
    by_cases hon : c.isOn conversationId scope <;> simp [hon, SaveCall.seq_sent]

/-- No other scope of the organisation saves to the conversation by this call. -/
def Alone (conversationId : String) (scope : Scope) (c : SaveCall) : Prop :=
  ∀ q, c.request = some q → q.conversationId = conversationId → q.scope.orgId = scope.orgId →
    c.numbers ≠ [] → q.scope = scope

theorem filter_sent {q : SaveRequest} (hrequest : c.request = some q) :
    (c.sent s.nextId now).filter (MessageStore.selects conversationId scope) =
      if q.conversationId = conversationId ∧ q.scope.orgId = scope.orgId then c.sent s.nextId now
      else [] := by
  have hsent : c.sent s.nextId now = q.chatMessages s.nextId now := by
    simp [SaveCall.sent, hrequest]
  have hrow : ∀ m ∈ q.chatMessages s.nextId now,
      MessageStore.selects conversationId scope m = true ↔
        q.conversationId = conversationId ∧ q.scope.orgId = scope.orgId := by
    intro m hm
    rw [← SaveRequest.row_chatMessages hm]
    exact MessageStore.selects_iff
  rw [hsent]
  split
  · rename_i hkey
    exact List.filter_eq_self.mpr fun m hm => (hrow m hm).mpr hkey
  · rename_i hkey
    exact List.filter_eq_nil_iff.mpr fun m hm hselected => hkey ((hrow m hm).mp hselected)

theorem isOn_iff {q : SaveRequest} (hrequest : c.request = some q) :
    c.isOn conversationId scope = true ↔ q.conversationId = conversationId ∧ q.scope = scope := by
  simp [SaveCall.isOn, hrequest]

theorem filter_sent_of_alone (h : Alone conversationId scope c) :
    (c.sent s.nextId now).filter (MessageStore.selects conversationId scope) =
      if c.isOn conversationId scope then c.sent s.nextId now else [] := by
  cases hrequest : c.request with
  | none => simp [SaveCall.sent, SaveCall.isOn, hrequest]
  | some q =>
    rw [filter_sent hrequest]
    by_cases hkey : q.conversationId = conversationId ∧ q.scope.orgId = scope.orgId
    · rw [if_pos hkey]
      by_cases hnil : c.numbers = []
      · rw [SaveCall.sent_eq_nil_iff.mpr hnil, ite_self]
      · rw [if_pos ((isOn_iff hrequest).mpr ⟨hkey.1, h q hrequest hkey.1 hkey.2 hnil⟩)]
    · rw [if_neg hkey, if_neg fun hon => hkey ?_]
      obtain ⟨hconversation, rfl⟩ := (isOn_iff hrequest).mp hon
      exact ⟨hconversation, rfl⟩

theorem length_own_le (conversationId : String) (scope : Scope) (s : MessageServer) (now : Instant)
    (c : SaveCall) :
    (if c.isOn conversationId scope then c.sent s.nextId now else []).length ≤
      ((c.sent s.nextId now).filter (MessageStore.selects conversationId scope)).length := by
  cases hrequest : c.request with
  | none => simp [SaveCall.sent, hrequest]
  | some q =>
    rw [filter_sent hrequest]
    split
    · rename_i hon
      obtain ⟨hconversation, rfl⟩ := (isOn_iff hrequest).mp hon
      rw [if_pos ⟨hconversation, rfl⟩]
    · exact Nat.zero_le _

theorem alone_of_length (s : MessageServer) (now : Instant) (h : ((c.sent s.nextId now).filter
      (MessageStore.selects conversationId scope)).length ≤
      (if c.isOn conversationId scope then c.sent s.nextId now else []).length) :
    Alone conversationId scope c := by
  intro q hrequest hconversation horg hsome
  rw [filter_sent hrequest, if_pos ⟨hconversation, horg⟩] at h
  by_contra hother
  rw [if_neg fun hon => hother ((isOn_iff hrequest).mp hon).2] at h
  exact hsome (SaveCall.sent_eq_nil_iff.mp (List.eq_nil_of_length_eq_zero (Nat.le_zero.mp h)))

theorem filter_added (h : ∀ c ∈ calls, Alone conversationId scope c.2) :
    (s.added calls).filter (MessageStore.selects conversationId scope) =
      saved conversationId scope s calls := by
  induction calls generalizing s with
  | nil => rfl
  | cons head rest ih =>
    obtain ⟨now, c⟩ := head
    rw [added, saved, List.filter_append, filter_sent_of_alone (h _ List.mem_cons_self),
      ih fun c hc => h c (List.mem_cons_of_mem _ hc)]

theorem length_saved_le (conversationId : String) (scope : Scope) (s : MessageServer)
    (calls : List (Instant × SaveCall)) :
    (saved conversationId scope s calls).length ≤
      ((s.added calls).filter (MessageStore.selects conversationId scope)).length := by
  induction calls generalizing s with
  | nil => exact Nat.le_refl 0
  | cons head rest ih =>
    obtain ⟨now, c⟩ := head
    rw [added, saved, List.filter_append, List.length_append, List.length_append]
    exact Nat.add_le_add (length_own_le conversationId scope s now c) (ih _)

theorem alone_of_length_added (h : ((s.added calls).filter
      (MessageStore.selects conversationId scope)).length ≤
      (saved conversationId scope s calls).length) :
    ∀ c ∈ calls, Alone conversationId scope c.2 := by
  induction calls generalizing s with
  | nil => exact fun c hc => absurd hc List.not_mem_nil
  | cons head rest ih =>
    obtain ⟨now, c⟩ := head
    rw [added, saved, List.filter_append, List.length_append, List.length_append] at h
    have hown := length_own_le conversationId scope s now c
    have hrest := length_saved_le conversationId scope (s.handle now c) rest
    have hhead : Alone conversationId scope c := alone_of_length s now (by omega)
    have htail := ih (s := s.handle now c) (by omega)
    intro d hd
    rcases List.mem_cons.mp hd with rfl | hd
    · exact hhead
    · exact htail d hd

end MessageServer

/-! A list that a number orders strictly is the only arrangement of its items in that order. -/

section Arrangement

variable {rows out : List ChatMessage}

theorem eq_of_perm_of_increasing (hrows : rows.Pairwise fun m n => m.seq < n.seq)
    (hperm : out.Perm rows) (hout : out.Pairwise fun m n => m.seq ≤ n.seq) : out = rows := by
  have hinj : ∀ m ∈ rows, ∀ n ∈ rows, m.seq = n.seq → m = n := by
    refine List.inj_on_of_nodup_map (List.pairwise_map.mpr (hrows.imp fun hlt => ?_))
    exact ne_of_lt hlt
  refine hperm.eq_of_pairwise (fun m n hm hn hmn hnm => ?_) hout (hrows.imp le_of_lt)
  exact hinj m (hperm.mem_iff.mp hm) n hn (le_antisymm hmn hnm)

theorem eq_reverse_of_perm_of_increasing (hrows : rows.Pairwise fun m n => m.seq < n.seq)
    (hperm : out.Perm rows) (hout : out.Pairwise fun m n => n.seq ≤ m.seq) :
    out = rows.reverse := by
  have hback : out.reverse = rows :=
    eq_of_perm_of_increasing hrows ((List.reverse_perm out).trans hperm)
      (List.pairwise_reverse.mpr hout)
  rw [← hback, List.reverse_reverse]

theorem increasing_of_unique (hnodup : rows.Nodup)
    (hrows : rows.Pairwise fun m n => m.seq ≤ n.seq)
    (h : ∀ out : List ChatMessage, out.Perm rows →
      (out.Pairwise fun m n => m.seq ≤ n.seq) → out = rows) :
    rows.Pairwise fun m n => m.seq < n.seq := by
  induction rows with
  | nil => exact List.Pairwise.nil
  | cons m rest ih =>
    obtain ⟨hm, hrest⟩ := List.pairwise_cons.mp hrows
    refine List.pairwise_cons.mpr ⟨?_, ih (List.nodup_cons.mp hnodup).2 hrest ?_⟩
    · cases rest with
      | nil => exact fun n hn => absurd hn List.not_mem_nil
      | cons p rest =>
        have hlt : m.seq < p.seq := by
          refine lt_of_le_of_ne (hm p List.mem_cons_self) fun heq => ?_
          -- with equal numbers the first two can change places
          have hswap := h (p :: m :: rest) (List.Perm.swap m p rest) ?_
          · exact (List.nodup_cons.mp hnodup).1
              ((List.cons.inj hswap).1 ▸ List.mem_cons_self)
          · refine List.pairwise_cons.mpr ⟨fun n hn => ?_, List.pairwise_cons.mpr
              ⟨fun n hn => hm n (List.mem_cons_of_mem _ hn), (List.pairwise_cons.mp hrest).2⟩⟩
            rcases List.mem_cons.mp hn with rfl | hn
            · exact heq.ge
            · exact (List.pairwise_cons.mp hrest).1 n hn
        intro n hn
        rcases List.mem_cons.mp hn with rfl | hn
        · exact hlt
        · exact hlt.trans_le ((List.pairwise_cons.mp hrest).1 n hn)
    · intro out hperm hout
      have hcons := h (m :: out) (hperm.cons m)
        (List.pairwise_cons.mpr ⟨fun n hn => hm n (hperm.mem_iff.mp hn), hout⟩)
      exact (List.cons.inj hcons).2

theorem exists_order (hperm : out.Perm rows) (hout : out.Pairwise fun m n => m.seq ≤ n.seq) :
    ∃ order : BySeq, order.sort rows = out := by
  classical
  refine ⟨{ sort := fun xs => if xs = rows then out else BySeq.stable.sort xs, perm := ?_,
            sorted := ?_ }, if_pos rfl⟩
  · intro xs
    split
    · rename_i heq
      exact heq ▸ hperm
    · exact BySeq.stable.perm xs
  · intro xs
    split
    · exact hout
    · exact BySeq.stable.sorted xs

theorem length_le_of_increasing {numbers : List ℤ} {lo hi : ℤ} (hle : lo ≤ hi)
    (hincreasing : numbers.Pairwise (· < ·)) (hrange : ∀ x ∈ numbers, lo ≤ x ∧ x < hi) :
    (numbers.length : ℤ) ≤ hi - lo := by
  induction numbers generalizing lo with
  | nil => simpa using hle
  | cons x rest ih =>
    obtain ⟨hx, hrest⟩ := List.pairwise_cons.mp hincreasing
    obtain ⟨hlo, hhi⟩ := hrange x List.mem_cons_self
    have htail : (rest.length : ℤ) ≤ hi - (x + 1) := ih (by omega) hrest fun y hy =>
      ⟨hx y hy, (hrange y (List.mem_cons_of_mem _ hy)).2⟩
    rw [List.length_cons]
    omega

end Arrangement

theorem asI32_range (i : ℕ) : -2 ^ 31 ≤ asI32 i ∧ asI32 i < 2 ^ 31 := by
  have hle : -((2 ^ 32 : ℕ) : ℤ) / 2 ≤ asI32 i := Int.le_bmod (by decide)
  have hlt : asI32 i < (((2 ^ 32 : ℕ) : ℤ) + 1) / 2 := Int.bmod_lt (by decide)
  constructor
  · omega
  · omega

namespace MessageServer

variable {s : MessageServer} {calls : List (Instant × SaveCall)} {conversationId : String}
  {scope : Scope}

/-- The conversation as it comes back, whole or its last `n` messages, however the engine orders
rows of one number. -/
structure ReadsBack (calls : List (Instant × SaveCall)) (conversationId : String) (scope : Scope) :
    Prop where
  whole : ∀ latest order, (start.run calls).getChatMessages latest order conversationId none scope =
    saved conversationId scope start calls
  last : ∀ latest order n, n < 2 ^ 64 →
    (start.run calls).getChatMessages latest order conversationId (some n) scope =
      (saved conversationId scope start calls).drop
        ((saved conversationId scope start calls).length - n)

/-- The calls number their messages upwards, and nobody else in the organisation saves there. -/
structure InOrder (calls : List (Instant × SaveCall)) (conversationId : String) (scope : Scope) :
    Prop where
  alone : ∀ c ∈ calls, Alone conversationId scope c.2
  increasing : ((calls.filter fun c => c.2.isOn conversationId scope).flatMap
    fun c => c.2.numbers).Pairwise (· < ·)

theorem selected_run (calls : List (Instant × SaveCall)) :
    (start.run calls).store.messages.rows.filter (MessageStore.selects conversationId scope) =
      (start.added calls).filter (MessageStore.selects conversationId scope) := by
  rw [rows_run]
  rfl

theorem InOrder.increasing_saved (h : InOrder calls conversationId scope) :
    (saved conversationId scope start calls).Pairwise fun m n => m.seq < n.seq :=
  List.pairwise_map.mp (by rw [seq_saved]; exact h.increasing)

theorem InOrder.length_saved (h : InOrder calls conversationId scope) :
    (saved conversationId scope start calls).length ≤ 2 ^ 32 := by
  have hrange : ∀ x ∈ (saved conversationId scope start calls).map (·.seq),
      (-2 ^ 31 : ℤ) ≤ x ∧ x < 2 ^ 31 := by
    intro x hx
    rw [seq_saved] at hx
    obtain ⟨c, -, hx⟩ := List.mem_flatMap.mp hx
    unfold SaveCall.numbers at hx
    cases hrequest : c.2.request with
    | none => simp [hrequest] at hx
    | some q =>
      rw [hrequest] at hx
      obtain ⟨⟨item, i⟩, -, hmap⟩ := List.mem_filterMap.mp hx
      obtain ⟨-, -, rfl⟩ := Option.map_eq_some_iff.mp hmap
      exact asI32_range i
  have hlength := length_le_of_increasing (by decide)
    (List.pairwise_map.mpr h.increasing_saved) hrange
  rw [List.length_map] at hlength
  omega

theorem InOrder.readsBack (h : InOrder calls conversationId scope) :
    ReadsBack calls conversationId scope := by
  have hstrict := h.increasing_saved
  have hrows : (start.run calls).store.messages.rows.filter
      (MessageStore.selects conversationId scope) = saved conversationId scope start calls := by
    rw [selected_run, filter_added h.alone]
  refine ⟨fun latest order => ?_, fun latest order n hn => ?_⟩
  · unfold getChatMessages MessageStore.getMessages
    simp only [hrows]
    exact eq_of_perm_of_increasing hstrict (order.perm _) (order.sorted _)
  · unfold getChatMessages MessageStore.getMessages
    simp only [hrows]
    rw [eq_reverse_of_perm_of_increasing hstrict (latest.perm _) (latest.sorted _)]
    refine eq_of_perm_of_increasing (hstrict.sublist (List.drop_sublist _ _))
      ((order.perm _).trans ?_) (order.sorted _)
    have hlength := h.length_saved
    unfold MessageStore.limit
    rw [Nat.mod_eq_of_lt hn]
    split
    · rw [List.take_reverse]
      exact List.reverse_perm _
    · rw [show (saved conversationId scope start calls).length - n = 0 by omega, List.drop_zero]
      exact List.reverse_perm _

theorem nodup_added (calls : List (Instant × SaveCall)) :
    ((start.added calls).filter (MessageStore.selects conversationId scope)).Nodup := by
  rw [← selected_run]
  exact (List.Nodup.of_map _ (start.run calls).store.messages.nodup).filter _

theorem inOrder_of_readsBack (h : ReadsBack calls conversationId scope) :
    InOrder calls conversationId scope := by
  have hwhole : ∀ order : BySeq, order.sort ((start.added calls).filter
      (MessageStore.selects conversationId scope)) = saved conversationId scope start calls := by
    intro order
    have hread := h.whole ByLatest.stable order
    unfold getChatMessages MessageStore.getMessages at hread
    rwa [selected_run] at hread
  have hperm := BySeq.stable.perm ((start.added calls).filter
    (MessageStore.selects conversationId scope))
  rw [hwhole] at hperm
  have halone : ∀ c ∈ calls, Alone conversationId scope c.2 :=
    alone_of_length_added hperm.length_eq.ge
  rw [filter_added halone] at hwhole
  have hsorted := BySeq.stable.sorted (saved conversationId scope start calls)
  rw [hwhole] at hsorted
  have hnodup : (saved conversationId scope start calls).Nodup :=
    filter_added halone ▸ nodup_added calls
  refine ⟨halone, ?_⟩
  rw [← seq_saved start]
  refine List.pairwise_map.mpr (increasing_of_unique hnodup hsorted fun out hout hle => ?_)
  obtain ⟨order, horder⟩ := exists_order hout hle
  exact horder.symm.trans (hwhole order)

theorem readsBack_iff (calls : List (Instant × SaveCall)) (conversationId : String) (scope : Scope) :
    ReadsBack calls conversationId scope ↔ InOrder calls conversationId scope :=
  ⟨inOrder_of_readsBack, InOrder.readsBack⟩

/-- Two exchanges, each saved when it is over. -/
def twoExchanges : List (Instant × SaveCall) :=
  [(0, .rest ⟨"conv-1", [⟨"user", "Hello", none⟩, ⟨"assistant", "Hi there!", none⟩], none, none⟩),
    (1, .rest ⟨"conv-1", [⟨"user", "How are you?", none⟩, ⟨"assistant", "Fine.", none⟩], none, none⟩)]

/-- Read back, the questions come before the answers. -/
theorem exchanges_interleave : ¬ ReadsBack twoExchanges "conv-1" {} := by
  intro h
  have hincreasing := (inOrder_of_readsBack h).increasing
  revert hincreasing
  decide

end MessageServer

end JamJet.Engram
