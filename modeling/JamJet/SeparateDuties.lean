import JamJet.ApprovalOutcomes

/-! Separation of duties over whole runs: with self-approval off, every approval that the server
records is by somebody other than who started the run. -/

namespace JamJet

open AtomicCalls Approvals

/-- An approval is by a known principal, and another one than started the run. -/
def EventKind.Separated (events : List Event) : EventKind → Prop
  | .approvalReceived _ answer => answer.decision = .approved →
      ∃ initiator principal, runInitiator events = some initiator ∧
        answer.principal = some principal ∧ initiator ≠ principal
  | _ => True

def DutiesSeparated (events : List Event) : Prop := ∀ x ∈ events, x.kind.Separated events

/-- Not the answer to a request for approval. -/
def EventKind.Undecided (kind : EventKind) : Prop :=
  ∀ node answer, kind ≠ .approvalReceived node answer

section Logs

variable {kind : EventKind} {log log' : EventLog} {db : Db} {β : Type} {op : BackendOp β}

/-- Who started the run is in its first `WorkflowStarted`, whatever comes later. -/
theorem runInitiator_extends {initiator : String} (hext : log.Extends log')
    (h : runInitiator log.entries = some initiator) : runInitiator log'.entries = some initiator := by
  obtain ⟨more, hmore⟩ := hext
  rw [← hmore]
  unfold runInitiator at h ⊢
  rw [List.findSome?_append]
  generalize log.entries.findSome? _ = found at h ⊢
  cases found with
  | none => cases h
  | some initiatedBy => exact h

theorem EventKind.Separated.extends (h : kind.Separated log.entries) (hext : log.Extends log') :
    kind.Separated log'.entries := by
  cases kind with
  | approvalReceived node answer =>
    intro happroved
    obtain ⟨initiator, principal, hstart, hprincipal, hne⟩ := h happroved
    exact ⟨initiator, principal, runInitiator_extends hext hstart, hprincipal, hne⟩
  | _ => trivial

theorem EventKind.Undecided.separated (h : kind.Undecided) (events : List Event) :
    kind.Separated events := by
  cases kind with
  | approvalReceived node answer => exact absurd rfl (h node answer)
  | _ => trivial

theorem DutiesSeparated.exec (h : ∀ e, DutiesSeparated (db.events e).entries)
    (hop : ∀ e kind, Appends db op e kind → kind.Separated (db.events e).entries) (e : ExecutionId) :
    DutiesSeparated ((op.exec db).2.events e).entries := by
  intro x hx
  obtain ⟨kinds, hlog, hkinds⟩ := (op.effect db).logs e
  have hext : (db.events e).Extends ((op.exec db).2.events e) := extends_exec op db e
  rw [hlog] at hx
  rcases SeqLog.mem_appendAll hx with hold | ⟨hnew, -⟩
  · exact (h e x hold).extends hext
  · exact (hop e x.kind (hkinds _ hnew)).extends hext

theorem Appends.undecided {e : ExecutionId} (h : Appends db op e kind)
    (hop : ∀ kind ∈ op.kinds, kind.Undecided) : kind.Undecided := by
  rcases h.mem_kinds with hmem | ⟨r, rfl | rfl⟩
  · exact hop kind hmem
  · exact fun node answer hkind => by cases hkind
  · exact fun node answer hkind => by cases hkind

end Logs

/-- Approvals are recorded by the server alone, outside dev mode and with self-approval off. -/
def dutiesRules : ServerRules where
  actOk a _ := match a with
    | .call op => ∀ kind ∈ op.kinds, kind.Undecided
    | .setClock _ => True
  jobOk
    | .submitApproval _ submission policy =>
        submission.devMode = false ∧ policy.allowSelfApproval = false
    | _ => True

def dutiesSpec : Spec ServerOp Sys where
  inv s := ∀ e, DutiesSeparated (s.db.events e).entries
  rely s t := ∀ e, (s.db.events e).Extends (t.db.events e)
  rely_refl _ _ := .refl _
  rely_trans h₁ h₂ e := (h₁ e).trans (h₂ e)
  good op s := match op with
    | .inl (.inl op) => ∀ kind ∈ op.kinds, kind.Undecided
    | .inl (.inr _) => True
    | .inr (.appendEventIf e kind _) => kind.Separated (s.db.events e).entries

section Server

variable [Chrono] {cfg : SchedulerConfig} {irOf : String → String → Option WorkflowIr} {s : Sys}
  {e : ExecutionId} {submission : ApprovalSubmission} {policy : ApprovalPolicy}

/-- The calls that answer no request for approval. -/
def AnswersNothing {β : Type} : ServerOp β → Prop
  | .inl (.inl op) => ∀ kind ∈ op.kinds, kind.Undecided
  | .inl (.inr _) => True
  | .inr _ => False

theorem answersNothing_of_guarded {β : Type} {op : SchedOp β} (h : Guarded (.inl op)) :
    AnswersNothing (.inl op) := by
  have hquiet : ∀ {kind : EventKind}, kind.isApprovalOutcome = false → kind.Undecided := by
    rintro kind hkind node answer rfl
    cases hkind
  cases op with
  | inr op => trivial
  | inl op =>
    cases op with
    | appendEventIf e kind condition =>
      rintro kind' hmem node answer rfl
      obtain rfl := List.mem_singleton.mp hmem
      exact (h rfl).1 node answer rfl
    | _ => exact fun kind hmem => hquiet (h kind hmem)

theorem wp_answersNothing {α : Type} {q : Server α} (hq : q.Within AnswersNothing) :
    wp (server cfg irOf).beside dutiesRules dutiesSpec q (fun _ _ => True) s := by
  refine wp_mono (fun _ _ _ _ => trivial) (wp_within hq (P := fun _ => True)
    (fun _ _ _ _ _ => trivial) (fun op s h _ _ => ⟨?_, fun _ => trivial⟩) trivial)
  cases op with
  | inr op => cases h
  | inl op => cases op <;> exact h

/-- The principal of an approval that passes the checks did not start the run. -/
theorem separated_of_openRequest {events : List Event} {request : PendingApproval}
    (hdev : submission.devMode = false) (hself : policy.allowSelfApproval = false)
    (h : Api.openRequest events submission policy = .ok request) :
    (EventKind.approvalReceived request.node (Api.answerOf request submission)).Separated events := by
  intro happroved
  have happroved : submission.decision = .approved := happroved
  simp only [Api.openRequest, bind, Except.bind, throw, throwThe, MonadExceptOf.throw, pure,
    Except.pure, hdev, true_and] at h
  split at h
  · cases h
  split at h
  · cases h
  split at h
  · cases h
  rename_i hprincipal
  split at h
  · cases h
  rename_i hduties
  obtain ⟨principal, hprincipal⟩ := Option.ne_none_iff_exists'.mp hprincipal
  simp only [Api.separationOfDuties, happroved, hself, hprincipal, and_self, if_true, hdev] at hduties
  split at hduties
  · rename_i initiator principal' hstart hsome
    cases hsome
    split at hduties
    · cases hduties
    · rename_i hne
      exact ⟨initiator, principal, hstart, hprincipal, hne⟩
  · cases hduties
  · rename_i hnone
    cases hnone

omit [Chrono] in
theorem answersNothing_of_nil {β : Type} {op : BackendOp β} (h : op.kinds = []) :
    AnswersNothing (.inl (.inl op)) := by
  intro kind hmem
  rw [h] at hmem
  cases hmem

theorem wp_recordDecision_duties {request : PendingApproval} {wasPaused : Bool}
    (h : (EventKind.approvalReceived request.node (Api.answerOf request submission)).Separated
      (s.db.events e).entries) :
    wp (server cfg irOf).beside dutiesRules dutiesSpec
      (Api.recordDecision e request submission wasPaused) (fun _ _ => True) s := by
  unfold Api.recordDecision Api.appendEventIf Api.backend Api.utcNow
  refine wp_call fun t ht _ => ⟨h.extends (ht e), fun _ => ?_, fun _ _ _ _ _ _ => trivial⟩
  generalize ((server cfg irOf).beside.handle _ t).1 = reply
  -- what follows the append answers nothing
  cases reply with
  | error err => exact fun _ _ _ => trivial
  | ok outcome =>
    refine wp_answersNothing ?_
    cases outcome with
    | executionTerminal status => exact Prog.within_pure _
    | refused =>
      refine (Prog.within_perform.mpr (answersNothing_of_nil rfl)).bind fun latest => ?_
      refine (Prog.within_perform.mpr trivial).bind fun now => ?_
      split <;> exact Prog.within_pure _
    | appended sequence =>
      dsimp only
      split
      · refine (Prog.within_perform.mpr trivial).bind fun now => ?_
        exact (Prog.within_perform.mpr (answersNothing_of_nil rfl)).bind fun _ =>
          Prog.within_pure _
      · exact Prog.within_pure _

theorem wp_submitApproval_duties (hdev : submission.devMode = false)
    (hself : policy.allowSelfApproval = false) :
    wp (server cfg irOf).beside dutiesRules dutiesSpec (Api.submitApproval e submission policy)
      (fun _ _ => True) s := by
  unfold Api.submitApproval Api.backend Api.utcNow
  split
  · refine wp_call fun t ht _ => ⟨answersNothing_of_nil rfl, fun _ => ?_,
      fun _ _ _ _ _ _ => trivial⟩
    change wp _ _ _ _ _ _
    dsimp only
    split
    · exact wp_pure fun _ _ _ => trivial
    · refine wp_call fun u hu _ => ⟨answersNothing_of_nil rfl, fun _ => ?_,
        fun _ _ _ _ _ _ => trivial⟩
      change wp _ _ _ _ _ _
      split
      · exact wp_pure fun _ _ _ => trivial
      · rename_i request hopen
        have hduties : (EventKind.approvalReceived request.node
            (Api.answerOf request submission)).Separated (u.db.events e).entries :=
          separated_of_openRequest hdev hself hopen
        refine wp_call fun v hv _ => ⟨trivial, fun _ => ?_, fun _ _ _ _ _ _ => trivial⟩
        change wp _ _ _ _ _ _
        split
        · exact wp_pure fun _ _ _ => trivial
        · split
          · exact wp_pure fun _ _ _ => trivial
          · exact wp_recordDecision_duties (hduties.extends (hv e))
  · exact wp_pure fun _ _ _ => trivial

theorem duties_sound : SoundIn (server cfg irOf) dutiesRules dutiesSpec where
  act a s hi ha := by
    cases a with
    | setClock now => exact ⟨hi, fun _ => .refl _⟩
    | call op =>
      refine ⟨DutiesSeparated.exec hi fun e kind h => ?_, fun e => extends_exec op s.db e⟩
      exact (h.undecided ha).separated _
  call op s hi hg _ := by
    rcases op with (op | op) | ⟨e, kind, condition⟩
    · refine ⟨DutiesSeparated.exec hi fun e kind h => ?_, fun e => extends_exec op s.db e⟩
      exact (h.undecided hg).separated _
    · cases op <;> exact ⟨hi, fun _ => .refl _⟩
    · refine ⟨@DutiesSeparated.exec s.db _ (.appendEventIf e kind (condition s.clock)) hi ?_,
        fun e' => extends_exec _ s.db e'⟩
      rintro e' kind' ⟨rfl, rfl, -⟩
      exact hg
  job j s hj _ := by
    cases j with
    | submitApproval e submission policy =>
      change wp _ _ _ (Api.submitApproval e submission policy >>= fun _ => pure ()) _ s
      refine wp_bind (wp_mono (fun r t _ _ => ?_) (wp_submitApproval_duties hj.1 hj.2))
      cases r with
      | ok _ => exact fun _ _ _ => trivial
      | error _ => trivial
    | cancelExecution e =>
      refine wp_answersNothing (Prog.Within.bind ?_ fun _ => Prog.within_pure ())
      unfold Api.cancelExecution Api.backend Api.utcNow
      refine (Prog.within_perform.mpr (answersNothing_of_nil rfl)).bind fun execution => ?_
      split
      · trivial
      · split
        · exact Prog.within_pure _
        · refine (Prog.within_perform.mpr trivial).bind fun now => ?_
          refine (Prog.within_perform.mpr fun kind hmem node answer hkind => ?_).bind fun reply => ?_
          · cases List.mem_singleton.mp (hkind ▸ hmem)
          · split <;> exact Prog.within_pure _
    | tick order =>
      have hq : ((server cfg irOf).program (.tick order)).Within AnswersNothing :=
        ((Scheduler.guarded_tick cfg order).mono fun _ h => answersNothing_of_guarded h).mapOps
          fun _ h => h
      exact wp_answersNothing hq
    | sweepApprovalDeadlines e now =>
      refine wp_answersNothing (Prog.Within.bind ?_ fun _ => Prog.within_pure ())
      exact (Scheduler.guarded_sweepApprovalDeadlines cfg e now).mapOps
        fun _ h => answersNothing_of_guarded h

/-- With self-approval off and outside dev mode, every approval in every log is by a known
principal other than the one that started the run: in every run of deciders, schedulers and other
parties, however their steps interleave. -/
theorem duties_stay_separated {s : Sys} {ms : List ServerMove}
    (hs : ∀ e, DutiesSeparated (s.db.events e).entries)
    (hms : dutiesRules.ObeyedIn (server cfg irOf) (idlePool s) ms) (e : ExecutionId) :
    DutiesSeparated (((idlePool s).run (server cfg irOf) ms).state.db.events e).entries :=
  ((Pool.meets_idle (M := server cfg irOf) (S := dutiesSpec) hs).run duties_sound hms).1 e

end Server

/-- Bob approves what Alice's run asks for. -/
def approvedByBob : List ServerMove :=
  [.outside (.call (startRun oneNodeIr "a" ⟨.tool, none⟩ 0 "wf" "1.0.0" (.object []) "default" 0
      (some "alice"))),
    .outside (.call (.appendEvent 0 (.toolApprovalRequired "a" "tool" "ops" (.object [])))),
    .spawn 0 (.submitApproval 0 { approveA with principal := some "bob", devMode := false } {}),
    .advance 0, .advance 0, .advance 0, .advance 0]

theorem duties_stay_separated_bob :
    (∃ x ∈ (((idlePool {}).run oneNodeServer approvedByBob).state.db.events 0).entries,
      x.kind.resolves "a" 3 = true) ∧
    DutiesSeparated (((idlePool {}).run oneNodeServer approvedByBob).state.db.events 0).entries := by
  refine ⟨by decide, @duties_stay_separated firstDay {} _ {} approvedByBob (fun e x hx => ?_) ?_ 0⟩
  · cases hx
  · refine ⟨?_, ?_, ⟨rfl, rfl⟩, trivial, trivial, trivial, trivial, trivial⟩ <;>
      rintro kind hmem node answer rfl <;> simp [startRun, BackendOp.kinds] at hmem

end JamJet
