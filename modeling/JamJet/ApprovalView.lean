import JamJet.ApprovalOutcomes
import JamJet.OrderedMap
import JamJet.ProjectorRuns

/-! When the listing of a run's approvals from the rows of the read model is the listing from its
log. -/

namespace JamJet

open AtomicCalls Approvals Projector

section Status

variable [Chrono] {e : ExecutionId} {n : NodeId} {events : List Event} {x : Event}
  {status : NodeApprovalStatus} {row : Option ApprovalProjectionRow}

/-- The status of a node by the fold of a log. -/
def statusAfter (n : NodeId) (events : List Event) : NodeApprovalStatus :=
  events.foldl (applyStatus n) .notRequested

theorem statusAfter_concat :
    statusAfter n (events ++ [x]) = applyStatus n (statusAfter n events) x := by
  simp [statusAfter]

theorem rowAfter_concat : rowAfter e n (events ++ [x]) = nodeStep e n (rowAfter e n events) x := by
  simp [rowAfter]

theorem nodeApprovalStatus_of_readable (h : hasUnreadableEvents events = false) :
    nodeApprovalStatus events n = statusAfter n events := by
  simp [nodeApprovalStatus, h, statusAfter]

/-- The current decision on the node is the expiry, by this principal, of its latest request. -/
def ExpiredBy (events : List Event) (n : NodeId) (principal : String) : Prop :=
  ∃ before after sequence requestSequence expiresAt,
    events = before ++ ⟨sequence, .approvalExpired n requestSequence expiresAt principal⟩ :: after ∧
      stillPending before n requestSequence = true ∧ ∀ y ∈ after, requestOf n y = none

/-- The row of a node beside its status. -/
inductive Tracks (e : ExecutionId) (n : NodeId) (events : List Event) :
    NodeApprovalStatus → Option ApprovalProjectionRow → Prop
  | notRequested : Tracks e n events .notRequested none
  | pending (toolName approver : String) (context : Json) (sequence : EventSequence) :
      Tracks e n events (.pending ⟨n, toolName, approver, context, sequence⟩)
        (some ⟨e, n, .pending, none, none, sequence, some toolName, some approver, some context⟩)
  | approved (userId : String) (comment approvedDigest : Option String) (sequence : EventSequence) :
      Tracks e n events (.approved userId sequence approvedDigest)
        (some ⟨e, n, .approved, some userId, comment, sequence, none, none,
          approvedDigest.map digestContext⟩)
  | rejected (userId : String) (comment : Option String) (context : Option Json)
      (sequence : EventSequence) :
      Tracks e n events (.rejected userId comment sequence)
        (some ⟨e, n, .rejected, some userId, comment, sequence, none, none, context⟩)
  | expired (principal : String) (comment : Option String) (sequence : EventSequence)
      (h : ExpiredBy events n principal) :
      Tracks e n events (.rejected deadlinePrincipal comment sequence)
        (some ⟨e, n, .rejected, some principal, comment, sequence, none, none, none⟩)

theorem Tracks.concat (h : Tracks e n events status row) (hx : requestOf n x = none) :
    Tracks e n (events ++ [x]) status row := by
  cases h with
  | notRequested => exact .notRequested
  | pending => exact .pending ..
  | approved => exact .approved ..
  | rejected => exact .rejected ..
  | expired principal comment sequence h =>
    obtain ⟨before, after, s, r, t, rfl, hpending, hafter⟩ := h
    refine .expired _ _ _ ⟨before, after ++ [x], s, r, t, by simp, hpending, fun y hy => ?_⟩
    rcases List.mem_append.mp hy with hy | hy
    · exact hafter y hy
    · rw [List.mem_singleton.mp hy]
      exact hx

theorem unmoved (h : approvalNode x.kind ≠ some n) :
    applyStatus n status x = status ∧ nodeStep e n row x = row ∧ requestOf n x = none := by
  obtain ⟨sequence, kind⟩ := x
  refine ⟨?_, if_neg h, ?_⟩
  · cases kind <;> simp_all [applyStatus, approvalNode]
  · cases kind <;> simp_all [requestOf, approvalNode]

theorem unresolved_step (h : Tracks e n events status row) (hx : requestOf n x = none)
    (hstatus : applyStatus n status x = status) (hrow : writtenRow e row x = none) :
    Tracks e n (events ++ [x]) (applyStatus n status x) (nodeStep e n row x) := by
  have hstep : nodeStep e n row x = row := by
    rw [nodeStep, hrow, Option.none_or, ite_self]
  rw [hstatus, hstep]
  exact h.concat hx

theorem tracks (h : hasUnreadableEvents events = false) :
    Tracks e n events (statusAfter n events) (rowAfter e n events) := by
  induction events using List.reverseRecOn with
  | nil => exact .notRequested
  | append_singleton events x ih =>
    have hread : hasUnreadableEvents events = false := by
      simp only [hasUnreadableEvents, List.any_append, Bool.or_eq_false_iff] at h ⊢
      exact h.1
    have ih := ih hread
    rw [statusAfter_concat, rowAfter_concat]
    by_cases hnode : approvalNode x.kind = some n
    · obtain ⟨sequence, kind⟩ := x
      cases kind with
      | toolApprovalRequired m toolName approver context =>
        cases hnode
        simp only [applyStatus, nodeStep, approvalNode, writtenRow, if_true, Option.some_or]
        exact .pending ..
      | approvalReceived m answer =>
        cases hnode
        generalize statusAfter n events = status at ih ⊢
        generalize rowAfter e n events = row at ih ⊢
        cases ih with
        | pending =>
          cases hd : answer.decision with
          | approved =>
            simp only [applyStatus, nodeStep, approvalNode, writtenRow, if_true, hd,
              Option.any_some, decide_true, Option.some_or]
            exact .approved ..
          | rejected =>
            simp only [applyStatus, nodeStep, approvalNode, writtenRow, if_true, hd,
              Option.any_some, decide_true, Option.some_or]
            exact .rejected ..
        | notRequested => exact unresolved_step .notRequested rfl (by simp [applyStatus]) rfl
        | approved => exact unresolved_step (.approved ..) rfl (by simp [applyStatus]) rfl
        | rejected => exact unresolved_step (.rejected ..) rfl (by simp [applyStatus]) rfl
        | expired principal comment s hby =>
          exact unresolved_step (.expired _ _ _ hby) rfl (by simp [applyStatus]) rfl
      | approvalExpired m requestSequence expiresAt principal =>
        cases hnode
        generalize hstatus : statusAfter n events = status at ih ⊢
        generalize rowAfter e n events = row at ih ⊢
        cases ih with
        | pending toolName approver context s =>
          by_cases hs : s = requestSequence
          · simp only [applyStatus, nodeStep, approvalNode, writtenRow, if_true, hs,
              Option.any_some, decide_true, Bool.and_self, Option.some_or]
            refine .expired _ _ _ ⟨events, [], _, _, _, rfl, ?_, by simp⟩
            simp [stillPending, nodeApprovalStatus_of_readable hread, hstatus, hs]
          · refine unresolved_step (.pending ..) rfl (by simp [applyStatus, hs]) ?_
            simp [writtenRow, hs]
        | notRequested => exact unresolved_step .notRequested rfl (by simp [applyStatus]) rfl
        | approved => exact unresolved_step (.approved ..) rfl (by simp [applyStatus]) rfl
        | rejected => exact unresolved_step (.rejected ..) rfl (by simp [applyStatus]) rfl
        | expired by' comment s hby =>
          exact unresolved_step (.expired _ _ _ hby) rfl (by simp [applyStatus]) rfl
      | _ => simp [approvalNode] at hnode
    · obtain ⟨hstatus, hrow, hreq⟩ : applyStatus n (statusAfter n events) x = statusAfter n events ∧
          nodeStep e n (rowAfter e n events) x = rowAfter e n events ∧ requestOf n x = none :=
        unmoved hnode
      rw [hstatus, hrow]
      exact ih.concat hreq

theorem statusAfter_rejected {after : List Event} (h : ∀ y ∈ after, requestOf n y = none)
    {userId : String} {comment : Option String} {sequence : EventSequence} :
    after.foldl (applyStatus n) (.rejected userId comment sequence) =
      .rejected userId comment sequence := by
  induction after with
  | nil => rfl
  | cons y after ih =>
    have hy : applyStatus n (.rejected userId comment sequence) y =
        .rejected userId comment sequence := by
      have hreq := h y (by simp)
      obtain ⟨s, kind⟩ := y
      cases kind with
      | toolApprovalRequired => simpa [requestOf, applyStatus] using hreq
      | approvalReceived | approvalExpired => simp [applyStatus]
      | _ => rfl
    rw [List.foldl_cons, hy]
    exact ih fun z hz => h z (by simp [hz])

theorem rowAfter_rejected {after : List Event} (h : ∀ y ∈ after, requestOf n y = none)
    {r : ApprovalProjectionRow} (hr : r.status = .rejected) :
    after.foldl (nodeStep e n) (some r) = some r := by
  induction after with
  | nil => rfl
  | cons y after ih =>
    have hy : nodeStep e n (some r) y = some r := by
      have hreq := h y (by simp)
      obtain ⟨s, kind⟩ := y
      cases kind with
      | toolApprovalRequired =>
        simp only [requestOf, ite_eq_right_iff, reduceCtorEq, imp_false] at hreq
        simp [nodeStep, approvalNode, hreq]
      | approvalReceived | approvalExpired => simp [nodeStep, approvalNode, writtenRow, hr]
      | _ => rfl
    rw [List.foldl_cons, hy]
    exact ih fun z hz => h z (by simp [hz])

theorem ExpiredBy.after {principal : String} (h : ExpiredBy events n principal)
    (hread : hasUnreadableEvents events = false) :
    ∃ comment sequence r, statusAfter n events = .rejected deadlinePrincipal comment sequence ∧
      rowAfter e n events = some r ∧ r.status = .rejected ∧ r.userId = some principal := by
  obtain ⟨before, after, s, requestSequence, expiresAt, rfl, hpending, hafter⟩ := h
  simp only [hasUnreadableEvents, List.any_append, List.any_cons, Bool.or_eq_false_iff] at hread
  have hbefore : hasUnreadableEvents before = false := hread.1
  have htracks := tracks (e := e) (n := n) hbefore
  simp only [stillPending, nodeApprovalStatus_of_readable hbefore] at hpending
  simp only [statusAfter, rowAfter, List.foldl_append, List.foldl_cons] at htracks hpending ⊢
  generalize before.foldl (applyStatus n) .notRequested = status at htracks hpending ⊢
  generalize before.foldl (nodeStep e n) none = row at htracks ⊢
  cases htracks with
  | pending toolName approver context sequence =>
    have hsequence : sequence = requestSequence := by simpa using hpending
    have hstatus : applyStatus n (.pending ⟨n, toolName, approver, context, sequence⟩)
        ⟨s, .approvalExpired n requestSequence expiresAt principal⟩ =
        .rejected deadlinePrincipal (some (expiryComment expiresAt)) s := by
      simp [applyStatus, hsequence]
    rw [hstatus]
    simp only [nodeStep, approvalNode, writtenRow, if_true, hsequence, Option.any_some,
      decide_true, Bool.and_self, Option.some_or]
    -- the later events are about other things, or come too late
    exact ⟨_, _, _, statusAfter_rejected hafter, rowAfter_rejected hafter rfl, rfl, rfl⟩
  | _ => simp at hpending

end Status

section Logs

variable [Chrono] {n : NodeId} {events : List Event} {p : PendingApproval}

/-- What the map of undecided requests holds for a node of this status. -/
def slotOf : NodeApprovalStatus → Option (Option PendingApproval)
  | .notRequested => none
  | .pending p => some (some p)
  | _ => some none

theorem get_applyPending {byNode : BTree (Option PendingApproval)} {status : NodeApprovalStatus}
    (h : BTree.get byNode n = slotOf status) (x : Event) :
    BTree.get (applyPending byNode x) n = slotOf (applyStatus n status x) := by
  obtain ⟨sequence, kind⟩ := x
  cases kind with
  | toolApprovalRequired m toolName approver context =>
    by_cases hm : m = n
    · simp [applyPending, applyStatus, BTree.get_insert, hm, slotOf]
    · simp [applyPending, applyStatus, BTree.get_insert, hm, h]
  | approvalReceived m answer =>
    by_cases hm : m = n
    · subst hm
      cases status with
      | pending p => cases hd : answer.decision <;>
          simp [applyPending, applyStatus, h, slotOf, BTree.get_insert, hd]
      | _ => simp [applyPending, applyStatus, h, slotOf, BTree.get_insert]
    · simp only [applyPending, applyStatus, if_neg hm]
      split <;> simp [BTree.get_insert, hm, h]
  | approvalExpired m requestSequence expiresAt principal =>
    by_cases hm : m = n
    · subst hm
      cases status with
      | pending p =>
        by_cases hp : p.sequence = requestSequence <;>
          simp [applyPending, applyStatus, h, slotOf, BTree.get_insert, hp]
      | _ => simp [applyPending, applyStatus, h, slotOf]
    · simp only [applyPending, applyStatus, if_neg hm]
      split
      · split <;> simp [BTree.get_insert, hm, h]
      · exact h
  | _ => exact h

theorem get_applyPending_fold :
    BTree.get (events.foldl applyPending []) n = slotOf (statusAfter n events) := by
  induction events using List.reverseRecOn with
  | nil => rfl
  | append_singleton events x ih =>
    rw [List.foldl_append, statusAfter_concat]
    exact get_applyPending ih x

omit [Chrono] in
theorem sorted_applyPending (events : List Event) :
    BTree.Sorted (events.foldl applyPending []) := by
  induction events using List.reverseRecOn with
  | nil => exact BTree.sorted_nil
  | append_singleton events x ih =>
    rw [List.foldl_append, List.foldl_cons, List.foldl_nil]
    unfold applyPending
    split
    · exact ih.insert _ _
    · split
      · split
        · exact ih.insert _ _
        · exact ih
      · exact ih
    · split
      · exact ih.insert _ _
      · exact ih
    · exact ih

omit [Chrono] in
theorem requestOf_node {x : Event} (h : requestOf n x = some p) : p.node = n := by
  obtain ⟨sequence, kind⟩ := x
  cases kind <;> simp only [requestOf, reduceCtorEq] at h
  split at h
  · rename_i hm
    cases h
    exact hm
  · cases h

theorem applyStatus_eq_notRequested {status : NodeApprovalStatus} {x : Event} :
    applyStatus n status x = .notRequested ↔ status = .notRequested ∧ requestOf n x = none := by
  obtain ⟨sequence, kind⟩ := x
  cases kind with
  | toolApprovalRequired m toolName approver context =>
    by_cases hm : m = n <;> simp [applyStatus, requestOf, hm]
  | approvalReceived m answer =>
    by_cases hm : m = n
    · cases status <;> cases hd : answer.decision <;> simp [applyStatus, requestOf, hm, hd]
    · simp [applyStatus, requestOf, hm]
  | approvalExpired m requestSequence expiresAt principal =>
    by_cases hm : m = n
    · cases status with
      | pending p => by_cases hp : p.sequence = requestSequence <;>
          simp [applyStatus, requestOf, hm, hp]
      | _ => simp [applyStatus, requestOf, hm]
    · simp [applyStatus, requestOf, hm]
  | _ => simp [applyStatus, requestOf]

theorem statusAfter_node (h : statusAfter n events = .pending p) : p.node = n := by
  induction events using List.reverseRecOn with
  | nil => cases h
  | append_singleton events x ih =>
    rw [statusAfter_concat] at h
    rcases applyStatus_eq_pending h with hx | ⟨hstatus, -, -⟩
    · exact requestOf_node hx
    · exact ih hstatus

theorem mem_pendingApprovals : p ∈ pendingApprovals events ↔ ∃ n, statusAfter n events = .pending p := by
  simp only [pendingApprovals, List.mem_filterMap, Prod.exists, exists_eq_right]
  refine exists_congr fun n => ?_
  rw [← (sorted_applyPending events).get_eq_some_iff, get_applyPending_fold]
  cases statusAfter n events <;> simp [slotOf]

theorem pairwise_pendingApprovals :
    (pendingApprovals events).Pairwise fun p q => p.node ≠ q.node := by
  have hnode : ∀ kv ∈ events.foldl applyPending [], ∀ p, kv.2 = some p → p.node = kv.1 := by
    intro kv hkv p hp
    have hget := (sorted_applyPending events).get_eq_some_iff.mpr hkv
    rw [get_applyPending_fold, hp] at hget
    cases hstatus : statusAfter kv.1 events <;> simp only [hstatus, slotOf, reduceCtorEq,
      Option.some.injEq] at hget
    subst hget
    exact statusAfter_node hstatus
  have hsorted : List.Pairwise (fun kv kv' => kv.1 ≠ kv'.1) (events.foldl applyPending []) :=
    (sorted_applyPending events).imp fun h => ne_of_lt h
  rw [pendingApprovals, List.pairwise_filterMap]
  refine hsorted.imp_of_mem fun hkv hkv' hne p hp q hq => ?_
  rwa [hnode _ hkv p hp, hnode _ hkv' q hq]

end Logs

/-- The request a deadline action is for. -/
def Approvals.DeadlineAction.request : DeadlineAction → NodeId × EventSequence
  | .expire node requestSequence _ => (node, requestSequence)
  | .escalate node requestSequence _ _ => (node, requestSequence)

section Folds

variable [Chrono] {n : NodeId} {events : List Event} {p : PendingApproval}

theorem request_dueAction {now : Instant} {action : DeadlineAction}
    (h : dueAction events now p = some action) : action.request = (p.node, p.sequence) := by
  unfold dueAction at h
  dsimp only at h
  split at h
  · cases h
    rfl
  · split at h
    · split at h
      · cases h
        rfl
      · cases h
    · cases h

/-- In a log this build can read, the fold over all nodes and the fold for one node agree. -/
theorem approval_folds_agree (hread : hasUnreadableEvents events = false) :
    (∀ n p, p ∈ pendingApprovals events ∧ p.node = n ↔
      nodeApprovalStatus events n = .pending p) ∧
    ((pendingApprovals events).Pairwise fun p q => p.node ≠ q.node) ∧
    ∀ now, ∀ action ∈ dueDeadlineActions events now,
      stillPending events action.request.1 action.request.2 = true := by
  have hmem : ∀ n p, p ∈ pendingApprovals events ∧ p.node = n ↔
      nodeApprovalStatus events n = .pending p := by
    intro n p
    rw [nodeApprovalStatus_of_readable hread, mem_pendingApprovals]
    constructor
    · rintro ⟨⟨m, hm⟩, rfl⟩
      rwa [statusAfter_node hm]
    · intro h
      exact ⟨⟨n, h⟩, statusAfter_node h⟩
  refine ⟨hmem, pairwise_pendingApprovals, fun now action haction => ?_⟩
  obtain ⟨p, hp, hdue⟩ := List.mem_filterMap.mp haction
  have hpending := (hmem p.node p).mp ⟨hp, rfl⟩
  simp [request_dueAction hdue, stillPending, hpending]

end Folds

/-- Two nodes wait; an expiry names the wrong request, and one node is decided. -/
def twoRequests : List Event :=
  [⟨1, .toolApprovalRequired "a" "wire" "human" .null⟩,
    ⟨2, .toolApprovalRequired "b" "mail" "human" .null⟩,
    ⟨3, .approvalExpired "b" 1 0 deadlinePrincipal⟩,
    ⟨4, .approvalReceived "a" ⟨"u1", .approved, none, none, none, none, none⟩⟩]

theorem approval_folds_agree_after_decision :
    (∃ p, pendingApprovals twoRequests = [p] ∧
      @nodeApprovalStatus firstDay twoRequests "b" = .pending p) ∧
    ∀ p, @nodeApprovalStatus firstDay twoRequests "a" ≠ .pending p := by
  let _ : Chrono := firstDay
  have hread : hasUnreadableEvents twoRequests = false := rfl
  have hagree := (approval_folds_agree hread).1
  have hlist : pendingApprovals twoRequests = [⟨"b", "mail", "human", .null, 2⟩] := rfl
  refine ⟨⟨_, hlist, (hagree "b" _).mp ⟨by simp [hlist], rfl⟩⟩, fun p hp => ?_⟩
  obtain ⟨hmem, hnode⟩ := (hagree "a" p).mpr hp
  rw [hlist, List.mem_singleton] at hmem
  subst hmem
  exact absurd hnode (by decide)

section Logs

variable [Chrono] {n : NodeId} {events : List Event} {p : PendingApproval}

theorem mem_requestedNodes : n ∈ requestedNodes events ↔ statusAfter n events ≠ .notRequested := by
  have hnone : statusAfter n events = .notRequested ↔ ∀ x ∈ events, requestOf n x = none := by
    induction events using List.reverseRecOn with
    | nil => simp [statusAfter]
    | append_singleton events x ih =>
      rw [statusAfter_concat, applyStatus_eq_notRequested, ih]
      simp [or_imp, forall_and]
  rw [ne_eq, hnone]
  simp only [requestedNodes, List.mem_dedup, List.mem_insertionSort, List.mem_filterMap, not_forall]
  refine exists_congr fun x => ?_
  obtain ⟨sequence, kind⟩ := x
  cases kind <;> simp [requestOf]

end Logs

section Entries

variable {n : NodeId} {toolName approver userId comment : Option String} {context : Json}
  {sequence : EventSequence}

/-- The deadline fields of an entry, each as given. -/
def deadlineFields (f : String → Option Json) : List (String × Json) :=
  deadlineKeys.filterMap fun key => (f key).map fun v => (key, v)

theorem get_pendingEntry (f : String → Option Json) (k : String) :
    (pendingEntry n toolName approver context sequence (deadlineFields f)).get k =
      (if escalateAtKey = k then f escalateAtKey else none).or
        ((if expiresAtKey = k then f expiresAtKey else none).or
          ((pendingEntry n toolName approver context sequence []).get k)) := by
  have hfields : deadlineFields f = ((f expiresAtKey).map fun v => (expiresAtKey, v)).toList ++
      ((f escalateAtKey).map fun v => (escalateAtKey, v)).toList := by
    simp only [deadlineFields, deadlineKeys, List.filterMap_cons, List.filterMap_nil]
    cases f expiresAtKey <;> cases f escalateAtKey <;> rfl
  simp only [pendingEntry, hfields, ← List.append_assoc, Json.get_ofFields_option, List.append_nil]

theorem pendingEntry_node (f : String → Option Json) :
    (pendingEntry n toolName approver context sequence (deadlineFields f)).get "node_id" =
      some (.string n) := by
  rw [get_pendingEntry]
  simp [expiresAtKey, escalateAtKey, pendingEntry, Json.ofFields, Json.get, BTree.insertAll,
    BTree.get_insert]

theorem pendingEntry_eq_iff {context' : Json} {f g : String → Option Json} :
    pendingEntry n toolName approver context sequence (deadlineFields f) =
        pendingEntry n toolName approver context' sequence (deadlineFields g) ↔
      context = context' ∧ ∀ key ∈ deadlineKeys, f key = g key := by
  constructor
  · intro h
    have hget := fun k => congrArg (fun j => Json.get j k) h
    simp only [get_pendingEntry] at hget
    have hcontext := hget "context"
    have hexpires := hget expiresAtKey
    have hescalate := hget escalateAtKey
    simp only [expiresAtKey, escalateAtKey, pendingEntry, Json.ofFields, Json.get, BTree.insertAll,
      List.foldl_cons, List.foldl_nil, List.append_nil, BTree.get_insert, BTree.get_nil,
      String.reduceEq, if_true, if_false, Option.none_or, Option.or_none, Option.some.injEq]
      at hcontext hexpires hescalate
    exact ⟨hcontext, by simp [deadlineKeys, expiresAtKey, escalateAtKey, hexpires, hescalate]⟩
  · rintro ⟨rfl, h⟩
    have hfields : deadlineFields f = deadlineFields g :=
      List.filterMap_congr fun key hkey => by rw [h key hkey]
    rw [hfields]

theorem approvedEntry_node {approvedDigest : Json} :
    (approvedEntry n userId sequence approvedDigest).get "node_id" = some (.string n) := by
  simp [approvedEntry, Json.ofFields, Json.get, BTree.insertAll, BTree.get_insert]

theorem rejectedEntry_node :
    (rejectedEntry n userId comment sequence).get "node_id" = some (.string n) := by
  simp [rejectedEntry, Json.ofFields, Json.get, BTree.insertAll, BTree.get_insert]

theorem rejectedEntry_eq_iff {user user' : String} :
    rejectedEntry n (some user) comment sequence = rejectedEntry n (some user') comment sequence ↔
      user = user' := by
  constructor
  · intro h
    have huser := congrArg (fun j => Json.get j "user_id") h
    simpa [rejectedEntry, Json.ofFields, Json.get, BTree.insertAll, BTree.get_insert, Json.ofOption]
      using huser
  · rintro rfl
    rfl

end Entries

section Agreement

/-- The same entries, in whatever order. -/
def SameEntries (a b : ApprovalsResponse) : Prop :=
  (∀ j, j ∈ a.pending ↔ j ∈ b.pending) ∧ ∀ j, j ∈ a.decided ↔ j ∈ b.decided

theorem entries_eq_iff {f g : NodeId → Option Json} {a b : List Json}
    (ha : ∀ j, j ∈ a ↔ ∃ n, f n = some j) (hb : ∀ j, j ∈ b ↔ ∃ n, g n = some j)
    (hf : ∀ n j, f n = some j → j.get "node_id" = some (.string n))
    (hg : ∀ n j, g n = some j → j.get "node_id" = some (.string n)) :
    (∀ j, j ∈ a ↔ j ∈ b) ↔ ∀ n, f n = g n := by
  simp only [ha, hb]
  constructor
  · intro h n
    -- an entry of the other list under the same name is of the same node
    have hto : ∀ {f' g' : NodeId → Option Json},
        (∀ n j, f' n = some j → j.get "node_id" = some (.string n)) →
        (∀ n j, g' n = some j → j.get "node_id" = some (.string n)) →
        (∀ j, (∃ n, f' n = some j) → ∃ n, g' n = some j) → ∀ j, f' n = some j → g' n = some j := by
      intro f' g' hf' hg' hall j hj
      obtain ⟨m, hm⟩ := hall j ⟨n, hj⟩
      have hname := (hf' n j hj).symm.trans (hg' m j hm)
      cases hname
      exact hm
    refine Option.ext fun j => ⟨hto hf hg (fun j => (h j).mp) j, hto hg hf (fun j => (h j).mpr) j⟩
  · intro h j
    simp [h]

variable [Chrono] [FloatText]

/-- The pending entry of a node by its log. -/
def pendingOf : NodeApprovalStatus → Option Json
  | .pending p => some p.toJson
  | _ => none

/-- The decided entry of a node by its log. -/
def decidedOf (n : NodeId) : NodeApprovalStatus → Option Json
  | .approved userId sequence approvedDigest =>
      some (approvedEntry n (some userId) sequence (Json.ofOption .string approvedDigest))
  | .rejected userId comment sequence => some (rejectedEntry n (some userId) comment sequence)
  | _ => none

/-- A context both paths show alike: it survives its text column, and its deadlines are texts. -/
def ShownAlike (reread : Json → Json) (context : Json) : Prop :=
  reread context = context ∧
    ∀ key ∈ deadlineKeys, ∀ v, context.get key = some v → ∃ text, v = .string text

/-- When the rows and the log tell the same: every pending request has a context both show alike,
and no node is decided by an expiry under a name of its own. -/
structure ViewsAgree (reread : Json → Json) (events : List Event) : Prop where
  pending : ∀ x ∈ events, ∀ n p, requestOf n x = some p →
    stillPending events n p.sequence = true → ShownAlike reread p.context
  expired : ∀ n principal, ExpiredBy events n principal → principal = deadlinePrincipal

variable {reread : Json → Json} {e : ExecutionId} {n : NodeId} {events : List Event}
  {status : NodeApprovalStatus} {row : Option ApprovalProjectionRow} {s : ProjectorSys}

omit [Chrono] in
theorem toJson_eq (p : PendingApproval) :
    p.toJson = pendingEntry p.node (some p.toolName) (some p.approver) p.context p.sequence
      (deadlineFields fun key => (p.context.get key).map fun v =>
        .string (v.asStr.getD (Hashing.canonicalJson v))) := by
  simp only [PendingApproval.toJson, PendingApproval.shown, deadlineFields, Option.map_map]
  rfl

omit [Chrono] in
theorem pendingEntry_eq_toJson_iff {toolName approver : String} {context : Json}
    {sequence : EventSequence} :
    pendingEntry n (some toolName) (some approver) (reread context) sequence
        (deadlineFields (reread context).get) =
      (PendingApproval.mk n toolName approver context sequence).toJson ↔
      ShownAlike reread context := by
  rw [toJson_eq, pendingEntry_eq_iff]
  refine and_congr_right fun hreread => forall₂_congr fun key _ => ?_
  rw [hreread]
  cases context.get key with
  | none => simp
  | some v => cases v <;> simp [Json.asStr]

theorem pending_agrees_iff (h : Tracks e n events status row) :
    (row.map (·.readBack reread)).bind ApprovalProjectionRow.pendingItem = pendingOf status ↔
      ∀ p, status = .pending p → ShownAlike reread p.context := by
  cases h with
  | pending toolName approver context sequence =>
    have hiff : pendingEntry n (some toolName) (some approver) (reread context) sequence
        (deadlineFields (reread context).get) =
        (PendingApproval.mk n toolName approver context sequence).toJson ↔
        ShownAlike reread context := pendingEntry_eq_toJson_iff
    simpa [ApprovalProjectionRow.readBack, ApprovalProjectionRow.pendingItem, pendingOf,
      deadlineFields] using hiff
  | _ => simp [ApprovalProjectionRow.readBack, ApprovalProjectionRow.pendingItem, pendingOf]

theorem Tracks.named (h : Tracks e n events status row) {j : Json}
    (hj : (row.map (·.readBack reread)).bind ApprovalProjectionRow.pendingItem = some j ∨
      pendingOf status = some j ∨
      (row.map (·.readBack reread)).bind ApprovalProjectionRow.decidedItem = some j ∨
      decidedOf n status = some j) : j.get "node_id" = some (.string n) := by
  cases h with
  | notRequested => simp [pendingOf, decidedOf] at hj
  | pending =>
    simp only [Option.map_some, Option.bind_some, ApprovalProjectionRow.readBack,
      ApprovalProjectionRow.pendingItem, ApprovalProjectionRow.decidedItem, pendingOf, decidedOf,
      Option.some.injEq, reduceCtorEq, or_false, toJson_eq] at hj
    rcases hj with rfl | rfl <;> exact pendingEntry_node _
  | approved =>
    simp only [Option.map_some, Option.bind_some, ApprovalProjectionRow.readBack,
      ApprovalProjectionRow.pendingItem, ApprovalProjectionRow.decidedItem, pendingOf, decidedOf,
      Option.some.injEq, reduceCtorEq, false_or] at hj
    rcases hj with rfl | rfl <;> exact approvedEntry_node
  | rejected | expired =>
    simp only [Option.map_some, Option.bind_some, ApprovalProjectionRow.readBack,
      ApprovalProjectionRow.pendingItem, ApprovalProjectionRow.decidedItem, pendingOf, decidedOf,
      Option.some.injEq, reduceCtorEq, false_or] at hj
    rcases hj with rfl | rfl <;> exact rejectedEntry_node

omit [FloatText] in
/-- A decision is told alike, but for the name an expiry goes under. -/
theorem decided_agrees_iff (h : Tracks e n events status row)
    (hdigest : ∀ digest, reread (digestContext digest) = digestContext digest)
    (hread : hasUnreadableEvents events = false) (hstatus : statusAfter n events = status)
    (hrow : rowAfter e n events = row) :
    (row.map (·.readBack reread)).bind ApprovalProjectionRow.decidedItem = decidedOf n status ↔
      ∀ principal, ExpiredBy events n principal → principal = deadlinePrincipal := by
  have hafter := fun principal (hby : ExpiredBy events n principal) => hby.after (e := e) hread
  rw [hstatus, hrow] at hafter
  cases h with
  | notRequested =>
    refine iff_of_true rfl fun principal hby => ?_
    obtain ⟨_, _, _, hstatus, -⟩ := hafter principal hby
    cases hstatus
  | pending =>
    refine iff_of_true rfl fun principal hby => ?_
    obtain ⟨_, _, _, hstatus, -⟩ := hafter principal hby
    cases hstatus
  | approved userId comment approvedDigest sequence =>
    refine iff_of_true ?_ fun principal hby => ?_
    · cases approvedDigest with
      | none => rfl
      | some digest =>
        have hget : (reread (digestContext digest)).get approvedDigestKey = some (.string digest) := by
          rw [hdigest]
          simp [digestContext, Json.ofFields, Json.get, BTree.insertAll, BTree.get_insert]
        simp [ApprovalProjectionRow.readBack, ApprovalProjectionRow.decidedItem, decidedOf, hget,
          Json.ofOption]
    · obtain ⟨_, _, _, hstatus, -⟩ := hafter principal hby
      cases hstatus
  | rejected userId comment context sequence =>
    refine iff_of_true rfl fun principal hby => ?_
    obtain ⟨_, _, r, hstatus, hr, -, huser⟩ := hafter principal hby
    cases hr
    cases hstatus
    exact (Option.some.inj huser).symm
  | expired principal comment sequence hby =>
    have hitem : (some (rejectedEntry n (some principal) comment sequence) : Option Json) =
        some (rejectedEntry n (some deadlinePrincipal) comment sequence) ↔
        principal = deadlinePrincipal := by
      rw [Option.some.injEq, rejectedEntry_eq_iff]
    refine hitem.trans ⟨fun h principal' hby' => ?_, fun h => h principal hby⟩
    obtain ⟨_, _, r, -, hr, -, huser⟩ := hafter principal' hby'
    cases hr
    exact (Option.some.inj huser).symm.trans h

omit [FloatText] in
theorem viewsAgree_iff (hincreasing : events.Pairwise fun a b => a.sequence < b.sequence)
    (hread : hasUnreadableEvents events = false) : ViewsAgree reread events ↔
      (∀ n p, statusAfter n events = .pending p → ShownAlike reread p.context) ∧
        ∀ n principal, ExpiredBy events n principal → principal = deadlinePrincipal := by
  have hstill : ∀ {n p}, statusAfter n events = .pending p →
      stillPending events n p.sequence = true := fun {n p} hp =>
    stillPending_iff.mpr ⟨p, (nodeApprovalStatus_of_readable hread).trans hp, rfl⟩
  constructor
  · intro h
    refine ⟨fun n p hp => ?_, h.expired⟩
    obtain ⟨x, hx, hreq⟩ := (pending_latest hincreasing hp).1
    exact h.pending x hx n p hreq (hstill hp)
  · rintro ⟨hpending, hexpired⟩
    refine ⟨fun x hx n p hreq hs => ?_, hexpired⟩
    obtain ⟨p', hstatus, hsequence⟩ := stillPending_iff.mp hs
    rw [nodeApprovalStatus_of_readable hread] at hstatus
    obtain ⟨x', hx', hreq'⟩ := (pending_latest hincreasing hstatus).1
    have hsame : x' = x := by
      refine SeqLog.eq_of_sequence_eq hincreasing hx' hx ?_
      rw [← requestOf_sequence hreq', ← requestOf_sequence hreq, hsequence]
    rw [hsame, hreq] at hreq'
    cases hreq'
    exact hpending n p hstatus

omit [FloatText] in
theorem decidedOf_eq_some_iff (h : Tracks e n events (statusAfter n events) row)
    (hread : hasUnreadableEvents events = false) {j : Json} :
    decidedOf n (statusAfter n events) = some j ↔ statusAfter n events ≠ .notRequested ∧
      (∀ p, statusAfter n events ≠ .pending p) ∧ decidedEntry events n = j := by
  rw [decidedEntry, nodeApprovalStatus_of_readable hread]
  generalize statusAfter n events = status at h ⊢
  cases h <;> simp [decidedOf]

theorem mem_approvalsView_pending {j : Json} :
    j ∈ (approvalsView events).pending ↔ ∃ n, pendingOf (statusAfter n events) = some j := by
  simp only [approvalsView, List.mem_map, mem_pendingApprovals]
  constructor
  · rintro ⟨p, ⟨n, hp⟩, rfl⟩
    exact ⟨n, by simp [pendingOf, hp]⟩
  · rintro ⟨n, hj⟩
    cases hstatus : statusAfter n events with
    | pending p =>
      simp only [pendingOf, hstatus, Option.some.injEq] at hj
      exact ⟨p, ⟨n, hstatus⟩, hj⟩
    | _ => simp [pendingOf, hstatus] at hj

theorem mem_approvalsView_decided (hread : hasUnreadableEvents events = false) {j : Json} :
    j ∈ (approvalsView events).decided ↔ ∃ n, decidedOf n (statusAfter n events) = some j := by
  have hpending : ∀ n, ((pendingApprovals events).any fun p => p.node = n) = false ↔
      ∀ p, statusAfter n events ≠ .pending p := by
    intro n
    simp only [List.any_eq_false, decide_eq_true_eq, mem_pendingApprovals]
    constructor
    · exact fun h p hp => h p ⟨n, hp⟩ (statusAfter_node hp)
    · rintro h p ⟨m, hp⟩ hnode
      exact h p ((statusAfter_node hp).symm.trans hnode ▸ hp)
  simp only [approvalsView, List.mem_map, List.mem_filter, mem_requestedNodes, Bool.not_eq_true',
    hpending]
  refine exists_congr fun n => ?_
  have htracks : Tracks 0 n events (statusAfter n events) _ := tracks hread
  rw [decidedOf_eq_some_iff htracks hread, and_assoc]

/-- Rows that are up to date with the log give its listing exactly when both tell the same. -/
theorem listing_eq_iff
    (hrows : ∀ n, s.rows.find? (e, n) = rowAfter e n (s.db.events e).entries)
    (hread : hasUnreadableEvents (s.db.events e).entries = false)
    (hdigest : ∀ digest, reread (digestContext digest) = digestContext digest) :
    SameEntries (listApprovalsForExecution reread s e) (approvalsView (s.db.events e).entries) ↔
      ViewsAgree reread (s.db.events e).entries := by
  have htracks := fun n => tracks (e := e) (n := n) hread
  simp only [viewsAgree_iff (s.db.events e).increasing hread]
  -- the agreement of a node, by its row and by its status
  have hnodes : ((∀ n, ((s.rows.find? (e, n)).map (·.readBack reread)).bind
        ApprovalProjectionRow.pendingItem = pendingOf (statusAfter n (s.db.events e).entries)) ∧
      ∀ n, ((s.rows.find? (e, n)).map (·.readBack reread)).bind
        ApprovalProjectionRow.decidedItem = decidedOf n (statusAfter n (s.db.events e).entries)) ↔
      (∀ n p, statusAfter n (s.db.events e).entries = .pending p → ShownAlike reread p.context) ∧
        ∀ n principal, ExpiredBy (s.db.events e).entries n principal →
          principal = deadlinePrincipal := by
    simp only [hrows]
    exact and_congr (forall_congr' fun n => pending_agrees_iff (htracks n))
      (forall_congr' fun n => decided_agrees_iff (htracks n) hdigest hread rfl rfl)
  rw [← hnodes]
  have hmem : ∀ {item : ApprovalProjectionRow → Option Json} {j : Json},
      j ∈ (s.approvalProjection reread e).filterMap item ↔
        ∃ n, ((s.rows.find? (e, n)).map (·.readBack reread)).bind item = some j := by
    intro item j
    simp only [List.mem_filterMap, mem_approvalProjection]
    constructor
    · rintro ⟨r, ⟨n, r₀, hr, rfl⟩, hj⟩
      exact ⟨n, by simp [hr, hj]⟩
    · rintro ⟨n, hj⟩
      obtain ⟨r, hr, hitem⟩ := Option.bind_eq_some_iff.mp hj
      obtain ⟨r₀, hr₀, rfl⟩ := Option.map_eq_some_iff.mp hr
      exact ⟨_, ⟨n, r₀, hr₀, rfl⟩, hitem⟩
  have hnamed : ∀ {n j}, ((s.rows.find? (e, n)).map (·.readBack reread)).bind
        ApprovalProjectionRow.pendingItem = some j ∨
      pendingOf (statusAfter n (s.db.events e).entries) = some j ∨
      ((s.rows.find? (e, n)).map (·.readBack reread)).bind
        ApprovalProjectionRow.decidedItem = some j ∨
      decidedOf n (statusAfter n (s.db.events e).entries) = some j →
      j.get "node_id" = some (.string n) := by
    intro n j hj
    rw [hrows] at hj
    exact (htracks n).named hj
  unfold listApprovalsForExecution
  simp only
  split
  · -- no rows, so no requests, and nothing to disagree on
    rename_i hempty
    refine iff_of_true ⟨fun _ => .rfl, fun _ => .rfl⟩ ?_
    have hnone : ∀ n, s.rows.find? (e, n) = none := by
      intro n
      cases hr : s.rows.find? (e, n) with
      | none => rfl
      | some r =>
        have hin : r.readBack reread ∈ s.approvalProjection reread e :=
          mem_approvalProjection.mpr ⟨n, r, hr, rfl⟩
        rw [List.isEmpty_iff.mp hempty] at hin
        cases hin
    have hstatus : ∀ n, statusAfter n (s.db.events e).entries = .notRequested := by
      intro n
      have h := htracks n
      rw [← hrows, hnone] at h
      generalize statusAfter n (s.db.events e).entries = status at h ⊢
      cases h
      rfl
    exact ⟨fun n => by simp [hnone, hstatus, pendingOf], fun n => by
      simp [hnone, hstatus, decidedOf]⟩
  · exact and_congr
      (entries_eq_iff (fun j => hmem) (fun j => mem_approvalsView_pending)
        (fun n j h => hnamed (.inl h)) fun n j h => hnamed (.inr (.inl h)))
      (entries_eq_iff (fun j => hmem) (fun j => mem_approvalsView_decided hread)
        (fun n j h => hnamed (.inr (.inr (.inl h)))) fun n j h => hnamed (.inr (.inr (.inr h))))

end Agreement

/-- Whatever ticks the projector has made and wherever they stopped, once its checkpoint is at the
end of a log it can read, the listing from the rows is the listing from the log exactly when both
tell every pending request and every expiry alike. -/
theorem approvals_listing_faithful [Chrono] [FloatText] (reread : Json → Json)
    (hdigest : ∀ digest, reread (digestContext digest) = digestContext digest) (db : Db)
    (ms : List (Move BackendError ServerAct ℕ)) (e : ExecutionId) :
    let s := ((atRest { db := db }).run (projector reread) ms).state
    s.checkpoints e = (s.db.events e).latest →
      hasUnreadableEvents (s.db.events e).entries = false →
      (SameEntries (listApprovalsForExecution reread s e) (approvalsView (s.db.events e).entries) ↔
        ViewsAgree reread (s.db.events e).entries) := by
  intro s hcheckpoint hread
  refine listing_eq_iff (fun n => ?_) hread hdigest
  rw [(projected_run db ms).rows, hcheckpoint, SeqLog.upTo_latest le_rfl]

/-- A request with this deadline, the decision on it if there is one, and a pass of the projector to
the end. -/
def projectedRun (expiresAt : Json) (decision : List EventKind) : List (Move BackendError ServerAct ℕ) :=
  [.outside (.call startOne),
    .outside (.call (.appendEvent 0 (.toolApprovalRequired "a" "pay" "human"
      (Json.ofFields [(expiresAtKey, expiresAt)]))))] ++
    (decision.map fun kind => .outside (.call (.appendEvent 0 kind))) ++
    .start 1 :: List.replicate 6 .advance

/-- Where the run and a pass over its log end; contexts come back as they were. -/
def projectedState (expiresAt : Json) (decision : List EventKind) : ProjectorSys :=
  ((atRest {}).run (@projector firstDay id) (projectedRun expiresAt decision)).state

/-- The listing of that run from the rows. -/
abbrev projectedListing (s : ProjectorSys) : ApprovalsResponse :=
  @listApprovalsForExecution firstDay bitsText id s 0

/-- The listing of that run from the log. -/
abbrev loggedListing (s : ProjectorSys) : ApprovalsResponse :=
  @approvalsView firstDay bitsText (s.db.events 0).entries

/-- A deadline that is a number is a number in one listing and a text in the other. -/
theorem numeric_deadline_shown_in_two_ways :
    let s := projectedState (.number (.int 5)) []
    s.checkpoints 0 = (s.db.events 0).latest ∧
      hasUnreadableEvents (s.db.events 0).entries = false ∧
      ¬ SameEntries (projectedListing s) (loggedListing s) := by
  refine ⟨rfl, rfl, fun h => ?_⟩
  have hrows : (projectedListing (projectedState (.number (.int 5)) [])).pending =
      [pendingEntry "a" (some "pay") (some "human") (Json.ofFields [(expiresAtKey, .number (.int 5))]) 3
        [(expiresAtKey, .number (.int 5))]] := rfl
  have hlog : (loggedListing (projectedState (.number (.int 5)) [])).pending =
      [pendingEntry "a" (some "pay") (some "human") (Json.ofFields [(expiresAtKey, .number (.int 5))]) 3
        [(expiresAtKey, .string "5")]] := rfl
  have hmem := h.1
  rw [hrows, hlog] at hmem
  have heq := List.mem_singleton.mp ((hmem _).mp List.mem_cons_self)
  have hget := congrArg (fun j => Json.get j expiresAtKey) heq
  simp [pendingEntry, Json.ofFields, Json.get, BTree.insertAll, BTree.get_insert] at hget

/-- A deadline that is a text, and its expiry by the deadline sweep. -/
theorem swept_request_listed_alike :
    let s := projectedState (.string "t") [.approvalExpired "a" 3 0 deadlinePrincipal]
    s.checkpoints 0 = (s.db.events 0).latest ∧
      hasUnreadableEvents (s.db.events 0).entries = false ∧
      (SameEntries (projectedListing s) (loggedListing s) ↔
        @ViewsAgree firstDay id (s.db.events 0).entries) :=
  ⟨rfl, rfl, @approvals_listing_faithful firstDay bitsText id (fun _ => rfl) {}
    (projectedRun (.string "t") [.approvalExpired "a" 3 0 deadlinePrincipal]) 0 rfl rfl⟩

end JamJet
