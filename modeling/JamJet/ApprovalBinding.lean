import JamJet.ApprovalOutcomes
import JamJet.NodeGuard

/-! An approval covers exactly what was shown.  The digest determines the run, the occurrence, the
node, its definition and the payload, and a gated node fires only under an approval of the digest
of what it would do. -/

namespace JamJet

open AtomicCalls Approvals Policy

section Held

theorem held_actionState {v : Json} (h : v.Held) : (actionState v).Held := by
  cases v with
  | object fields =>
    obtain ⟨hsorted, hheld⟩ := h.fields
    refine held_object (hsorted.remove _) fun kv hkv => hheld kv ?_
    exact List.mem_of_mem_filter hkv
  | _ => exact h

theorem held_insert {fields : JsonMap} {k : String} {v : Json} (h : (Json.object fields).Held)
    (hv : v.Held) : (Json.object (BTree.insert fields k v)).Held := by
  obtain ⟨hsorted, hheld⟩ := h.fields
  refine held_object (hsorted.insert k v) fun kv hkv => ?_
  rcases BTree.mem_insert hkv with rfl | hmem
  · exact hv
  · exact hheld kv hmem

theorem held_strippedMember {fields : JsonMap} (key : String) (h : (Json.object fields).Held) :
    (Json.object (match BTree.get fields key with
      | some v => BTree.insert fields key (actionState v)
      | none => fields)).Held := by
  cases hget : BTree.get fields key with
  | none => exact h
  | some v => exact held_insert h (held_actionState (h.fields.2 _ (BTree.mem_of_get hget)))

theorem held_actionPayload {v : Json} (h : v.Held) : (actionPayload v).Held := by
  cases v with
  | object fields => exact held_strippedMember _ (held_strippedMember _ h)
  | _ => exact h

end Held

section Digest

variable [FloatText] {env : GuardEnv} (hsha : Function.Injective env.sha256Hex)
include hsha

theorem definitionHash_inj {definition definition' : Json} (hd : definition.Held)
    (hd' : definition'.Held) (h : definitionHash env definition = definitionHash env definition') :
    definition = definition' := by
  have hnode := Hashing.get_of_contentHash hsha (held_ofFields (by simp [Json.Held, hd]))
    (held_ofFields (by simp [Json.Held, hd'])) h "node"
  simpa [Json.ofFields, Json.get, BTree.insertAll, BTree.get_insert] using hnode

theorem actionDigest_inj {run run' node node' definition definition' : String} {step step' : ℕ}
    {payload payload' : Json} (hp : payload.Held) (hp' : payload'.Held)
    (h : actionDigest env run step node definition payload =
      actionDigest env run' step' node' definition' payload') :
    run = run' ∧ step = step' ∧ node = node' ∧ definition = definition' ∧ payload = payload' := by
  have hfield := Hashing.get_of_contentHash hsha
    (held_ofFields (by simp [Json.Held, Json.ofNat]))
    (held_ofFields (by simp [Json.Held, Json.ofNat])) h
  have hrun := hfield "run"
  have hstep := hfield "step"
  have hnode := hfield "node"
  have hdefinition := hfield "definition"
  have hpayload := hfield "payload"
  simp only [Json.ofFields, Json.get, BTree.insertAll, List.foldl_cons, List.foldl_nil,
    BTree.get_insert, String.reduceEq, if_true, if_false, Option.some.injEq, Json.string.injEq,
    Json.ofNat, Json.number.injEq, JsonNumber.int.injEq, Nat.cast_inj] at hrun hstep hnode hdefinition hpayload
  exact ⟨hrun, hstep, hnode, hdefinition, Hashing.contentHash_inj hsha hp hp' hpayload⟩

theorem digestOf_inj (hsimple : Function.Injective env.simple) {e e' : ExecutionId}
    {step step' : ℕ} {node node' : NodeId} {definition definition' payload payload' : Json}
    (hd : definition.Held) (hd' : definition'.Held) (hp : payload.Held) (hp' : payload'.Held)
    (h : digestOf env e step node definition payload =
      digestOf env e' step' node' definition' payload') :
    e = e' ∧ step = step' ∧ node = node' ∧ definition = definition' ∧
      actionPayload payload = actionPayload payload' := by
  obtain ⟨hrun, hstep, hnode, hdefinition, hpayload⟩ :=
    actionDigest_inj hsha (held_actionPayload hp) (held_actionPayload hp') h
  exact ⟨hsimple (String.append_right_inj _ |>.mp hrun), hstep, hnode,
    definitionHash_inj hsha hd hd' hdefinition, hpayload⟩

end Digest

section Status

variable [Chrono] {n : NodeId} {status : NodeApprovalStatus} {x : Event}

theorem applyStatus_pending_answered {p p' : PendingApproval}
    (h : applyStatus n (.pending p) x = .pending p') (answer : ApprovalAnswer) : x.kind ≠ .approvalReceived n answer := by
  intro hkind
  cases hd : answer.decision <;> simp [applyStatus, hkind, hd] at h

theorem applyStatus_eq_approved {user : String} {sequence : EventSequence}
    {digest : Option String} (h : applyStatus n status x = .approved user sequence digest) :
    (∃ p answer, status = .pending p ∧ x.kind = .approvalReceived n answer ∧
      answer.decision = .approved ∧ answer.approvedDigest = digest) ∨
    status = .approved user sequence digest ∧ requestOf n x = none := by
  obtain ⟨seq, kind⟩ := x
  cases kind with
  | toolApprovalRequired m toolName approver context =>
    by_cases hm : m = n
    · simp [applyStatus, hm] at h
    · simp only [applyStatus, hm, if_false] at h
      exact .inr ⟨h, by simp [requestOf, hm]⟩
  | approvalReceived m answer =>
    by_cases hm : m = n
    · subst hm
      cases status with
      | pending p =>
        cases hd : answer.decision with
        | approved =>
          simp only [applyStatus, hd, if_true, NodeApprovalStatus.approved.injEq] at h
          exact .inl ⟨p, answer, rfl, rfl, hd, h.2.2⟩
        | rejected => simp [applyStatus, hd] at h
      | _ =>
        simp only [applyStatus, if_true] at h
        exact .inr ⟨h, rfl⟩
    · simp only [applyStatus, hm, if_false] at h
      exact .inr ⟨h, rfl⟩
  | approvalExpired m requestSequence expiresAt principal =>
    by_cases hm : m = n
    · cases status with
      | pending p =>
        simp only [applyStatus, hm, if_true] at h
        split at h <;> cases h
      | _ =>
        simp only [applyStatus, hm, if_true] at h
        exact .inr ⟨h, rfl⟩
    · simp only [applyStatus, hm, if_false] at h
      exact .inr ⟨h, rfl⟩
  | _ => exact .inr ⟨h, rfl⟩

/-- A request of the node and the events after it: no later request, and no decision. -/
def OpenSince (n : NodeId) (log : List Event) (before : List Event) (request : Event)
    (between : List Event) : Prop :=
  log = before ++ request :: between ∧ (requestOf n request).isSome = true ∧
    ∀ y ∈ between, requestOf n y = none ∧ ∀ answer, y.kind ≠ .approvalReceived n answer

theorem openSince_of_pending {log : List Event} {p : PendingApproval}
    (h : log.foldl (applyStatus n) .notRequested = .pending p) :
    ∃ before request between, OpenSince n log before request between := by
  induction log using List.reverseRecOn generalizing p with
  | nil => cases h
  | append_singleton log x ih =>
    rw [List.foldl_append] at h
    rcases applyStatus_eq_pending h with hreq | ⟨hstatus, hnone, -⟩
    · exact ⟨log, x, [], rfl, by rw [hreq]; rfl, by simp⟩
    · obtain ⟨before, request, between, hlog, hreq, hopen⟩ := ih hstatus
      refine ⟨before, request, between ++ [x], by simp [hlog], hreq, fun y hy => ?_⟩
      rcases List.mem_append.mp hy with hy | hy
      · exact hopen y hy
      · obtain rfl := List.mem_singleton.mp hy
        rw [List.foldl_cons, List.foldl_nil, hstatus] at h
        exact ⟨hnone, applyStatus_pending_answered h⟩

/-- The node's latest request was answered by an approval with this digest: its first decision,
and no request since. -/
structure ApprovedWith (n : NodeId) (log : List Event) (digest : Option String) : Prop where
  answered : ∃ before request between decided after answer,
    log = before ++ request :: (between ++ decided :: after) ∧
    OpenSince n (before ++ request :: between) before request between ∧
    decided.kind = .approvalReceived n answer ∧ answer.decision = .approved ∧
    answer.approvedDigest = digest ∧ ∀ y ∈ after, requestOf n y = none

theorem approvedWith_of_status {log : List Event} {user : String} {sequence : EventSequence}
    {digest : Option String}
    (h : log.foldl (applyStatus n) .notRequested = .approved user sequence digest) :
    ApprovedWith n log digest := by
  induction log using List.reverseRecOn with
  | nil => cases h
  | append_singleton log x ih =>
    rw [List.foldl_append] at h
    rcases applyStatus_eq_approved h with ⟨p, answer, hstatus, hkind, hd, hdigest⟩ | ⟨hstatus, hnone⟩
    · obtain ⟨before, request, between, hopen⟩ := openSince_of_pending hstatus
      have hlog := hopen.1
      subst hlog
      exact ⟨before, request, between, x, [], answer, by simp, hopen, hkind, hd, hdigest, by simp⟩
    · obtain ⟨before, request, between, decided, after, answer, hlog, hopen, hkind, hd, hdigest, hlater⟩ :=
        (ih hstatus).answered
      refine ⟨before, request, between, decided, after ++ [x], answer, by simp [hlog], hopen, hkind,
        hd, hdigest, fun y hy => ?_⟩
      rcases List.mem_append.mp hy with hy | hy
      · exact hlater y hy
      · obtain rfl := List.mem_singleton.mp hy
        exact hnone

theorem approvedWith_of_covers {log : List Event} {current : String}
    (h : approvalCovers (nodeApprovalStatus log n) current = true) :
    ApprovedWith n log (some current) := by
  unfold approvalCovers at h
  split at h
  · rename_i user sequence digest hstatus
    simp only [decide_eq_true_eq] at h
    subst h
    unfold nodeApprovalStatus at hstatus
    split at hstatus
    · cases hstatus
    · exact approvedWith_of_status hstatus
  · cases h

end Status

section Guard

variable [FloatText] [Chrono]

/-- An approval of exactly what the call would do: answered in the log of `u`, for the occurrence
counted in `v`, and for nothing else. -/
structure Covered (env : GuardEnv) (r : GuardRequest) (u v : GuardSys) : Prop where
  approved : ApprovedWith r.nodeId (u.db.events r.executionId).entries
    (some (digestOf env r.executionId (v.completions r.executionId r.nodeId) r.nodeId
      r.node.definition r.payload))
  exactly : ∀ e step node definition payload, definition.Held → payload.Held →
    digestOf env e step node definition payload = digestOf env r.executionId
      (v.completions r.executionId r.nodeId) r.nodeId r.node.definition r.payload →
    e = r.executionId ∧ step = v.completions r.executionId r.nodeId ∧ node = r.nodeId ∧
      definition = r.node.definition ∧ actionPayload payload = actionPayload r.payload

/-- Nothing is ruled out and nothing is required: what a call ends with is all that is said. -/
def anyRun : Spec GuardCall GuardSys where
  inv _ := True
  rely := GuardSys.Reaches
  rely_refl := GuardSys.Reaches.refl
  rely_trans h h' := h.trans h'
  good _ _ := True

/-- The outcomes that leave the node where it is. -/
def GuardOutcome.Refuses (o : GuardOutcome) : Prop :=
  (∃ gated, o = .held gated) ∨ ∃ reason, o = .unavailable reason

variable {Job : Type} {program : Job → GuardProg GuardOutcome} {U : Rules GuardCall GuardSys ServerAct Job}
  {s : GuardSys} {r : GuardRequest}

omit [FloatText] [Chrono] in
theorem wp_ignored {α β : Type} {op : GuardCall α} {f : Except BackendError α → GuardProg β}
    {Q : Except BackendError β → GuardSys → Prop}
    (h : ∀ reply t, wp (guards program).beside U anyRun (f reply) Q t) :
    wp (guards program).beside U anyRun ((Prog.perform op).attempt >>= f) Q s :=
  wp_attemptCall fun _ _ _ => ⟨trivial, fun _ => h _ _, fun _ _ _ => h _ _⟩

omit [FloatText] [Chrono] in
theorem wp_recordPolicyViolation {e : ExecutionId} {Q : Except BackendError Unit → GuardSys → Prop}
    (hQ : ∀ t, Q (.ok ()) t) :
    wp (guards program).beside U anyRun (Guard.recordPolicyViolation e) Q s := by
  apply wp_ignored
  intro reply t
  cases reply with
  | error err => exact fun _ _ _ => hQ _
  | ok sequence => exact wp_ignored fun _ _ _ _ _ => hQ _

omit [FloatText] [Chrono] in
theorem wp_sealAppended {event : Event} {Q : Except BackendError Unit → GuardSys → Prop}
    (hQ : ∀ t, Q (.ok ()) t) :
    wp (guards program).beside U anyRun (Guard.sealAppended r event) Q s := by
  unfold Guard.sealAppended
  split
  · apply wp_ignored
    intro reply t
    cases reply with
    | ok _ => exact fun _ _ _ => hQ _
    | error err => exact wp_ignored fun _ _ _ _ _ => hQ _
  · exact fun _ _ _ => hQ _

omit [FloatText] [Chrono] in
theorem wp_recordRequest {kind : EventKind} {gated : List String} :
    wp (guards program).beside U anyRun (Guard.recordRequest r kind gated)
      (fun res _ => ∃ o, res = .ok o ∧ o.Refuses) s := by
  apply wp_ignored
  intro reply t
  cases reply with
  | error err => exact fun _ _ _ => ⟨_, rfl, .inr ⟨_, rfl⟩⟩
  | ok sequence =>
    apply wp_bind
    apply wp_sealAppended
    intro u
    exact fun _ _ _ => ⟨_, rfl, .inl ⟨_, rfl⟩⟩

theorem wp_raiseRequest {env : GuardEnv} {toolName approver : String}
    {deadline : Option ApprovalDeadline} {step : ℕ} :
    wp (guards program).beside U anyRun (Guard.raiseRequest env r toolName approver deadline step)
      (fun res _ => ∃ o, res = .ok o ∧ o.Refuses) s := by
  unfold Guard.raiseRequest
  cases deadline with
  | none => exact wp_recordRequest
  | some deadline =>
    apply wp_call
    intro t _ _
    refine ⟨trivial, fun _ => ?_, fun hf => by cases hf⟩
    simp only [guards_handle, GuardSys.handle, ends]
    split
    · exact fun _ _ _ => ⟨_, rfl, .inr ⟨_, rfl⟩⟩
    · exact wp_recordRequest

/-- How the guard of a gated node may end: it refuses, or an approval covers the action. -/
def Settles (env : GuardEnv) (r : GuardRequest) (s : GuardSys) (res : Except BackendError GuardOutcome)
    (s' : GuardSys) : Prop :=
  ∃ o, res = .ok o ∧ (o.Refuses ∨ o = .allow ∧ ∃ u v, s.Reaches u ∧ u.Reaches v ∧ v.Reaches s' ∧
    ApprovedWith r.nodeId (u.db.events r.executionId).entries
      (some (digestOf env r.executionId (v.completions r.executionId r.nodeId) r.nodeId
        r.node.definition r.payload)))

theorem wp_requireApproval {env : GuardEnv} {toolName approver : String}
    {deadline : Option ApprovalDeadline} :
    wp (guards program).beside U anyRun (Guard.requireApproval env r toolName approver deadline)
      (Settles env r s) s := by
  apply wp_attemptCall
  intro u hu _
  refine ⟨trivial, fun _ => ?_, fun _ _ err => fun _ _ _ => ⟨_, rfl, .inl (.inr ⟨_, rfl⟩)⟩⟩
  simp only [guards_handle, GuardSys.handle, BackendOp.exec]
  have hdecide : wp (guards program).beside U anyRun (Guard.decideApproval env r toolName approver
      deadline (u.db.events r.executionId).entries) (Settles env r s) u := by
    apply wp_attemptCall
    intro v hv _
    refine ⟨trivial, fun _ => ?_, fun _ _ err => fun _ _ _ => ⟨_, rfl, .inl (.inr ⟨_, rfl⟩)⟩⟩
    simp only [guards_handle, GuardSys.handle]
    split
    · rename_i hcovers
      rw [Bool.and_eq_true] at hcovers
      intro s' hs' _
      exact ⟨_, rfl, .inr ⟨rfl, u, v, hu, hv, hs', approvedWith_of_covers hcovers.1⟩⟩
    · refine wp_mono ?_ wp_raiseRequest
      rintro res t - ⟨o, rfl, ho⟩
      exact ⟨o, rfl, .inl ho⟩
  split
  · exact fun _ _ _ => ⟨_, rfl, .inl (.inr ⟨_, rfl⟩)⟩
  · exact fun _ _ _ => ⟨_, rfl, .inl (.inl ⟨_, rfl⟩)⟩
  · exact fun _ _ _ => ⟨_, rfl, .inl (.inl ⟨_, rfl⟩)⟩
  · exact hdecide

theorem wp_guardPolicy {env : GuardEnv} {perCall : Bool → GuardProg GuardOutcome}
    {approver : String} (hfire : r.mode = .fire) (hplain : r.node.agentToolDispatch = false)
    (hgated : r.decision = some (.requireApproval approver)) :
    wp (guards program).beside U anyRun (Guard.guardPolicy env perCall r) (fun res t =>
      (∃ reason cause, res = .ok (.blocked reason) ∧ r.deadline = .error cause) ∨
        Settles env r s res t) s := by
  unfold GuardRequest.decision at hgated
  unfold Guard.guardPolicy GuardRequest.deadline
  cases htenant : r.tenant with
  | unreadable err => simp [htenant] at hgated
  | unparseable cause => simp [htenant] at hgated
  | policy set =>
    simp only [htenant, Option.some.injEq] at hgated
    simp only [hgated, hfire]
    cases hdeadline : ApprovalDeadline.resolve (r.sets set) with
    | error cause =>
      apply wp_bind
      apply wp_recordPolicyViolation
      intro t
      exact fun _ _ _ => .inl ⟨_, cause, rfl, rfl⟩
    | ok deadline =>
      apply wp_bind
      refine wp_mono ?_ wp_requireApproval
      rintro res t - ⟨o, rfl, ho | ⟨rfl, u, v, hu, hv, ht, happroved⟩⟩
      · rcases ho with ⟨gated, rfl⟩ | ⟨reason, rfl⟩
        · exact fun _ _ _ => .inr ⟨_, rfl, .inl (.inl ⟨gated, rfl⟩)⟩
        · exact fun _ _ _ => .inr ⟨_, rfl, .inl (.inr ⟨reason, rfl⟩)⟩
      · simp only [ends, hplain, Bool.false_eq_true, if_false]
        intro s' hs' _
        exact .inr ⟨_, rfl, .inr ⟨rfl, u, v, hu, hv, ht.trans hs', happroved⟩⟩

theorem guardPolicy_allows {env : GuardEnv} {perCall : Bool → GuardProg GuardOutcome}
    {approver user : String} {sequence : EventSequence} {deadline : Option ApprovalDeadline}
    (hfire : r.mode = .fire) (hplain : r.node.agentToolDispatch = false)
    (hescalation : r.escalation = none)
    (hgated : r.decision = some (.requireApproval approver)) (hdeadline : r.deadline = .ok deadline)
    (hstatus : nodeApprovalStatus (s.db.events r.executionId).entries r.nodeId =
      .approved user sequence (some (digestOf env r.executionId
        (s.completions r.executionId r.nodeId) r.nodeId r.node.definition r.payload))) :
    Yields (guards program).beside GuardSys.Reaches (Guard.guardPolicy env perCall r) s (.ok .allow)
      s := by
  unfold GuardRequest.decision at hgated
  unfold GuardRequest.deadline at hdeadline
  unfold Guard.guardPolicy
  cases htenant : r.tenant with
  | unreadable err => simp [htenant] at hgated
  | unparseable cause => simp [htenant] at hgated
  | policy set =>
    simp only [htenant, Option.some.injEq] at hgated hdeadline
    simp only [hgated, hfire, hdeadline, Guard.requireApproval, Prog.bind_eq]
    refine .reply (GuardSys.Reaches.refl s) ?_
    simp only [guards_handle, GuardSys.handle, BackendOp.exec, Prog.attempt, Prog.bind, hstatus,
      Guard.decideApproval, Prog.bind_eq]
    refine .reply (GuardSys.Reaches.refl s) ?_
    simp only [guards_handle, GuardSys.handle, Prog.attempt, Prog.bind, hescalation,
      approvalCovers, decide_true, Option.isNone_none, Bool.true_or, Bool.and_true, if_true]
    simp only [pure, Prog.bind, hplain, Bool.false_eq_true, if_false]
    exact .done (GuardSys.Reaches.refl s)

/-- A gated node fires only under an approval of exactly what it would do: its latest request was
answered with the digest of this run, occurrence, node, definition and payload, which is that of
no other action.  Otherwise it is held, or nothing could be decided, or the chain's deadline is
invalid. -/
theorem approval_covers_exactly_what_was_shown {env : GuardEnv}
    (hsha : Function.Injective env.sha256Hex) (hsimple : Function.Injective env.simple)
    {perCall : Bool → GuardProg GuardOutcome} {r : GuardRequest} {approver : String}
    (hfire : r.mode = .fire) (hplain : r.node.agentToolDispatch = false)
    (hgated : r.decision = some (.requireApproval approver)) {s s' : GuardSys}
    {res : Except BackendError GuardOutcome}
    (hrun : Yields (guards (Guard.guardPolicy env perCall)).beside GuardSys.Reaches
      (Guard.guardPolicy env perCall r) s res s') :
    ∃ outcome, res = .ok outcome ∧
      (outcome = .allow ∧ (∃ u v, s.Reaches u ∧ u.Reaches v ∧ v.Reaches s' ∧ Covered env r u v) ∨
        (∃ gated, outcome = .held gated) ∨ (∃ reason, outcome = .unavailable reason) ∨
        ∃ reason cause, outcome = .blocked reason ∧ r.deadline = .error cause) := by
  have hpost := Yields.ends (S := anyRun) (U := {}) (fun _ => trivial) (fun _ _ => trivial)
    (fun _ _ => trivial) hrun (wp_guardPolicy hfire hplain hgated)
  rcases hpost with ⟨reason, cause, rfl, hdeadline⟩ | ⟨o, rfl, ho | ⟨rfl, u, v, hu, hv, hs', happroved⟩⟩
  · exact ⟨_, rfl, .inr (.inr (.inr ⟨reason, cause, rfl, hdeadline⟩))⟩
  · rcases ho with ⟨gated, rfl⟩ | ⟨reason, rfl⟩
    · exact ⟨_, rfl, .inr (.inl ⟨gated, rfl⟩)⟩
    · exact ⟨_, rfl, .inr (.inr (.inl ⟨reason, rfl⟩))⟩
  · refine ⟨_, rfl, .inl ⟨rfl, u, v, hu, hv, hs', happroved, ?_⟩⟩
    intro e step node definition payload hd hp hdigest
    exact digestOf_inj hsha hsimple hd r.node.held hp r.held hdigest

end Guard

/-- A hash given by a table, and on any other text something that is no hash. -/
def tableHash (table : List (String × String)) (text : String) : String :=
  ((table.find? fun h => h.1 = text).map (·.2)).getD ("x" ++ text)

theorem tableHash_injective (table : List (String × String))
    (hkeys : ∀ h ∈ table, ∀ h' ∈ table, h.2 = h'.2 → h.1 = h'.1)
    (hlead : ∀ h ∈ table, h.2.toList.head? ≠ some 'x') : Function.Injective (tableHash table) :=
  Hashing.injective_of_table table (fun _ _ h => (String.append_right_inj _).mp h) hkeys
    fun h hh _ heq => hlead h hh (by simp [heq])

/-- The texts hashed for a payment with an empty payload, and their SHA-256. -/
def payHashes : List (String × String) :=
  [("\x7b\x7d", "44136fa355b3678a1146ad16f7e8649e94fb4fc21fe77e8310c060f61caaff8a"),
    ("\x7b\"domain\":\"jamjet.approval.node.v1\",\"node\":\x7b\"id\":\"a\"," ++
        "\"kind\":\x7b\"tool_ref\":\"pay\",\"type\":\"tool\"\x7d\x7d\x7d",
      "dec2a8b0335b2b221d53254bc726bdd24e23ac790a7536d00e3ab856c977a5fb"),
    ("\x7b\"definition\":\"dec2a8b0335b2b221d53254bc726bdd24e23ac790a7536d00e3ab856c977a5fb\"," ++
        "\"domain\":\"jamjet.approval.action.v3\",\"node\":\"a\"," ++
        "\"payload\":\"44136fa355b3678a1146ad16f7e8649e94fb4fc21fe77e8310c060f61caaff8a\"," ++
        "\"run\":\"exec_00000000000000000000000000000000\",\"step\":0\x7d",
      "a4895dff116bd94cbfb04f1af542195b583c99a7c32ea1897fa0397fc42fa96f")]

/-- SHA-256 on these texts, and on any other text something that is no hash; the id of the first
run. -/
def payEnv : GuardEnv where
  sha256Hex text := ((payHashes.find? fun h => h.1 = text).map (·.2)).getD ("x" ++ text)
  simple e := "00000000000000000000000000000000" ++ String.ofList (List.replicate e '0')
  checkedAddSecs now secs := some (after now secs)

theorem payHash_injective : Function.Injective payEnv.sha256Hex :=
  tableHash_injective payHashes (by decide +kernel) (by decide +kernel)

theorem paySimple_injective : Function.Injective payEnv.simple := by
  intro e e' h
  have hzeros := String.ofList_injective ((String.append_right_inj _).mp h)
  simpa using congrArg List.length hzeros

/-- A node that pays, gated by its workflow. -/
def payNode : GuardedNode where
  definition := .object [("id", .string "a"),
    ("kind", .object [("tool_ref", .string "pay"), ("type", .string "tool")])]
  held := by
    refine held_object (by unfold BTree.Sorted; decide) fun kv hkv => ?_
    simp only [List.mem_cons, List.not_mem_nil, or_false] at hkv
    rcases hkv with rfl | rfl
    · trivial
    · exact held_object (by unfold BTree.Sorted; decide) (by simp [Json.Held])

/-- Firing it with an object of at most one member. -/
def payRequest (payload : Option (String × Bool)) (timeoutSecs : Option ℕ) : GuardRequest where
  executionId := 0
  nodeId := "a"
  tenantId := "default"
  tenant := .policy none
  workflowPolicy := some { requireApprovalFor := ["pay"], approvalTimeoutSecs := timeoutSecs }
  node := payNode
  payload := .object (payload.toList.map fun kv => (kv.1, .bool kv.2))
  held := by
    cases payload with
    | none => exact held_object BTree.sorted_nil (by simp)
    | some kv => exact held_object (List.pairwise_singleton _ _) (by simp [Json.Held])

/-- The payment with an empty payload was asked for and approved. -/
def paymentApproved : GuardSys :=
  [ServerAct.call startOne,
    .call (.appendEvent 0 (.toolApprovalRequired "a" "pay" "human" (.object []))),
    .call (.appendEvent 0 (.approvalReceived "a" { Api.answerOf ⟨"a", "pay", "human", .null, 3⟩ approveA with
      approvedDigest := some (@digestOf bitsText payEnv 0 0 "a" payNode.definition (.object [])) }))].foldl
    GuardSys.act {}

abbrev payGuard : GuardRequest → GuardProg GuardOutcome :=
  @Guard.guardPolicy bitsText firstDay payEnv fun _ => return .allow

theorem payment_allowed : Yields (guards payGuard).beside GuardSys.Reaches
    (payGuard (payRequest none none)) paymentApproved (.ok .allow) paymentApproved :=
  @guardPolicy_allows bitsText firstDay _ payGuard paymentApproved (payRequest none none) payEnv _
    "human" "reviewer" 4 none rfl rfl rfl (by decide) rfl rfl

theorem approval_covers_payment :
    Yields (guards payGuard).beside GuardSys.Reaches (payGuard (payRequest none none)) paymentApproved
      (.ok .allow) paymentApproved ∧
    ∃ u v, paymentApproved.Reaches u ∧ u.Reaches v ∧ v.Reaches paymentApproved ∧
      @Covered bitsText payEnv (payRequest none none) u v := by
  refine ⟨payment_allowed, ?_⟩
  obtain ⟨outcome, hres, ⟨-, hcovered⟩ | ⟨gated, rfl⟩ | ⟨reason, rfl⟩ | ⟨reason, cause, rfl, -⟩⟩ :=
    @approval_covers_exactly_what_was_shown bitsText firstDay payEnv payHash_injective
      paySimple_injective _ (payRequest none none) "human" rfl rfl (by decide) _ _ _ payment_allowed
  · exact hcovered
  · cases hres
  · cases hres
  · cases hres

/-- Another payload than the approved one, under a policy whose deadline is no longer valid. -/
theorem changed_action_blocked : ∃ reason s',
    (payRequest (some ("x", true)) (some 0)).decision = some (.requireApproval "human") ∧
    Yields (guards payGuard).beside GuardSys.Reaches
      (payGuard (payRequest (some ("x", true)) (some 0))) paymentApproved (.ok (.blocked reason)) s' :=
  ⟨_, _, by decide, .reply (GuardSys.Reaches.refl _)
    (.reply (GuardSys.Reaches.refl _) (.done (GuardSys.Reaches.refl _)))⟩

end JamJet
