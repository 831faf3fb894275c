import JamJet.SubmitApproval

/-! Replay or fire: how workers that execute the same node occurrence keep from running its effect
twice.  The record of a committed effect and the reservation of its key are read in separate
steps. -/

namespace JamJet

open AtomicCalls

inductive ReserveOutcome
  | acquired
  | held (owner : WorkerId) (expiresAt : Instant)
  deriving DecidableEq, Repr

/-- One item as a worker holds it: the key of the occurrence, and the worker's claim. -/
structure EffectClaim where
  key : String
  executionId : ExecutionId
  nodeId : NodeId
  workerId : WorkerId
  leaseFence : ℤ

namespace Worker

/-- Seconds a reservation is honoured before it is presumed dead. -/
def reservationTtl : ℕ := 300

def resultPollAttempts : ℕ := 40

def reserveToolEffect (c : EffectClaim) (ttl : ℕ) : Server ReserveOutcome := do
  let now ← Api.utcNow
  match ← Api.backend
      (.reserveToolEffect c.key c.executionId c.nodeId c.workerId c.leaseFence ttl now) with
  | true => return .acquired
  | false =>
      match ← Api.backend (.reservationHolder c.key) with
      | some (owner, expiresAt) => return .held owner expiresAt
      | none => return .held "unknown" now

/-- Claim the key, or read the winner's result; `none` when it is held and there is no result
yet. -/
def claimRounds (c : EffectClaim) : ℕ → Server (Option (Option Json))
  | 0 => return none
  | rounds + 1 => do
      match ← reserveToolEffect c reservationTtl with
      | .acquired => return some none
      | .held _ _ =>
          match ← Api.backend (.getToolEffect c.key) with
          | some recorded => return some (some recorded)
          | none => claimRounds c rounds

/-- Wait for the winner's result. -/
def pollResult (c : EffectClaim) : ℕ → Server (Option Json)
  | 0 => return none
  | polls + 1 => do
      match ← Api.backend (.getToolEffect c.key) with
      | some recorded => return some recorded
      | none => pollResult c polls

/-- Claim the key, or return the winner's committed result: `none` means the key is ours and the
caller must run the effect. -/
def awaitOrClaimEffect (c : EffectClaim) : Server (Except String (Option Json)) := do
  match ← claimRounds c 2 with
  | some outcome => return .ok outcome
  | none =>
      match ← pollResult c resultPollAttempts with
      | some recorded => return .ok (some recorded)
      | none => return .error ("idempotency key " ++ c.key ++
          " is held by another worker and no result appeared; " ++
          "retrying rather than running the effect twice")

/-- The part of `execute_item` that decides between replaying and firing, with the key it decided
for. -/
def replayOrFire (c : EffectClaim) : Server (String × Except String (Option Json)) := do
  match ← Api.backend (.getToolEffect c.key) with
  | some recorded => return (c.key, .ok (some recorded))
  | none =>
      let claimed ← awaitOrClaimEffect c
      return (c.key, claimed)

end Worker

/-- What a worker does with an occurrence: it read the key's result, the others ran it, or it is
to run it. -/
abbrev EffectDecision := String × Except String (Option Json)

/-- The decision to run the effect of a key. -/
def runIt (key : String) : EffectDecision := (key, .ok none)

/-- Any number of workers, each deciding about an item; committed turns, released reservations and
everything else happen beside them. -/
def effectWorkers : Service ServerOp BackendError EffectDecision Sys ServerAct EffectClaim where
  handle op s := s.handleServer (fun _ _ => none) op
  fallible op := serverFallible op
  act a s := s.serverAct a
  program c := Worker.replayOrFire c

abbrev EffectMove := PoolMove BackendError ServerAct EffectClaim

/-- The reservation of a key, granted. -/
def Granted (key : String) {β : Type} (op : ServerOp β) (r : Except BackendError β) : Prop :=
  match op, r with
  | .inl (.inl (.reserveToolEffect key' ..)), .ok true => key' = key
  | _, _ => False

section Ends

variable (c : EffectClaim)

theorem endsOnly_reserveToolEffect (ttl : ℕ) :
    (Worker.reserveToolEffect c ttl).EndsOnly (Granted c.key) .acquired := by
  unfold Worker.reserveToolEffect Api.utcNow Api.backend
  refine .bind (fun now h => ?_) fun now => .bind (fun granted h => ?_) fun granted => ?_
  · cases h
  · cases granted with
    | true => exact Prog.endsOnly_perform rfl
    | false => cases h
  · cases granted with
    | true => exact Prog.endsOnly_pure _ _
    | false =>
      refine .bind (fun holder h => ?_) fun holder => ?_
      · rcases holder with _ | ⟨owner, expiresAt⟩ <;> cases h
      · rcases holder with _ | ⟨owner, expiresAt⟩ <;> exact Prog.endsOnly_pure _ _

theorem endsOnly_claimRounds (rounds : ℕ) :
    (Worker.claimRounds c rounds).EndsOnly (Granted c.key) (some none) := by
  induction rounds with
  | zero => exact Prog.endsOnly_pure _ _
  | succ rounds ih =>
    unfold Worker.claimRounds Api.backend
    refine .bind (fun outcome h => ?_) fun outcome => ?_
    · cases outcome with
      | acquired => exact endsOnly_reserveToolEffect c _
      | held owner expiresAt => cases h
    · cases outcome with
      | acquired => exact Prog.endsOnly_pure _ _
      | held owner expiresAt =>
        refine .bind (fun recorded h => ?_) fun recorded => ?_
        · cases recorded with
          | none => cases rounds <;> cases h
          | some recorded => cases h
        · cases recorded with
          | none => exact ih
          | some recorded => exact Prog.endsOnly_pure _ _

theorem endsOnly_awaitOrClaimEffect :
    (Worker.awaitOrClaimEffect c).EndsOnly (Granted c.key) (.ok none) := by
  unfold Worker.awaitOrClaimEffect
  refine .bind (fun outcome h => ?_) fun outcome => ?_
  · cases outcome with
    | none => cases h
    | some outcome =>
      cases h
      exact endsOnly_claimRounds c 2
  · cases outcome with
    | some outcome => exact Prog.endsOnly_pure _ _
    | none =>
      refine .bind (fun recorded h => ?_) fun recorded => ?_
      · cases recorded <;> cases h
      · cases recorded <;> exact Prog.endsOnly_pure _ _

theorem endsOnly_replayOrFire (key : String) :
    (Worker.replayOrFire c).EndsOnly (Granted key) (runIt key) := by
  unfold Worker.replayOrFire Api.backend
  refine .bind (fun recorded h => ?_) fun recorded => ?_
  · cases recorded with
    | none => cases h
    | some recorded => cases h
  · cases recorded with
    | some recorded => exact Prog.endsOnly_pure _ _
    | none =>
      refine .bind (fun claimed h => ?_) fun claimed => Prog.endsOnly_pure _ _
      cases h
      exact endsOnly_awaitOrClaimEffect c

end Ends

section Effects

variable {db : Db} {key : String}

theorem recordTurn_toolEffect {e : ExecutionId} {kind : EventKind} {input : Json} {snapshot : Bool}
    {now : Instant} {row : ToolEffectRow} (h : db.toolEffects.find? key = some row) :
    (db.recordTurn e kind input snapshot now).toolEffects.find? key = some row := by
  have hrecord : (db.recordToolEffect e kind now).toolEffects.find? key = some row := by
    unfold Db.recordToolEffect
    split
    · exact h
    · rename_i effect _
      cases hins : db.toolEffects.insert? effect with
      | none => simpa [hins] using h
      | some t =>
        obtain ⟨hfree, -⟩ := Table.rows_of_insert? hins
        have hne : effect.idempotencyKey ≠ key := by
          rintro rfl
          rw [hfree] at h
          cases h
        simpa [hins, Table.find?_of_insert? hins, hne] using h
  unfold Db.recordTurn
  split
  · exact hrecord
  · exact hrecord

theorem toolEffect_exec {β : Type} (op : BackendOp β) {row : ToolEffectRow}
    (h : db.toolEffects.find? key = some row) :
    (op.exec db).2.toolEffects.find? key = some row := by
  have hcommit : ∀ id fence e kind snapshot refuse now,
      (db.commitTurnInner id fence e kind snapshot refuse now).2.toolEffects.find? key = some row := by
    intro id fence e kind snapshot refuse now
    rcases Db.commitTurnInner_cases db id fence e kind snapshot refuse now with
      hs | ⟨-, hs⟩ | ⟨-, -, settle, x, -, -, hs⟩
    · rwa [hs]
    · rwa [hs]
    · rw [hs]
      exact recordTurn_toolEffect h
  cases op with
  | createRun x seed started scheduled item now =>
    rcases Db.createRun_cases db x seed started scheduled item now with hs | ⟨_, _, -, -, -, hs⟩
    · rw [BackendOp.exec, hs]
      exact h
    · rw [BackendOp.exec, hs]
      cases seed <;> exact h
  | commitTurn id fence e kind snapshot now =>
    rw [BackendOp.exec, Db.commitTurn_db]
    exact hcommit id fence e kind snapshot false now
  | commitTurnUnlessTerminal id fence e kind snapshot now =>
    exact hcommit id fence e kind snapshot true now
  | reserveToolEffect key' e node owner fence ttl now =>
    rw [BackendOp.exec, Db.reserveToolEffect]
    split <;> exact h
  | releaseToolReservation => exact h
  | _ => rw [(BackendOp.rest rfl db).toolEffects, h]

theorem reserveToolEffect_granted {e : ExecutionId} {node : NodeId} {owner : WorkerId} {fence : ℤ}
    {ttl : ℕ} {now : Instant}
    (h : (db.reserveToolEffect key e node owner fence ttl now).1 = .ok true)
    {row : ToolReservationRow} (hrow : db.toolReservations.find? key = some row) :
    row.expiresAt ≤ now ∨ row.owner = owner := by
  unfold Db.reserveToolEffect at h
  dsimp only at h
  split at h
  · rename_i t hins
    rw [(Table.rows_of_insert? hins).1] at hrow
    cases hrow
  · simp only [Except.ok.injEq] at h
    simpa [Table.hits, hrow] using h

end Effects

section Runs

/-- Whoever reserves a key whose effect is on record finds the reservation of another worker on
it, and finds it still running. -/
def recordedKeysHeld : Rules ServerOp Sys ServerAct EffectClaim where
  callOk op s := match op with
    | .inl (.inl (.reserveToolEffect key _ _ owner _ _ now)) =>
        s.db.getToolEffect key ≠ none → ∃ row, s.db.toolReservations.find? key = some row ∧
          now < row.expiresAt ∧ row.owner ≠ owner
    | _ => True

theorem getToolEffect_ne_none {db : Db} {key : String} : db.getToolEffect key ≠ none ↔
    ∃ row, db.toolEffects.find? key = some row := by
  simp [Db.getToolEffect, Option.ne_none_iff_exists']

theorem not_recorded_of_granted {s : Sys} {key : String} {β : Type} {op : ServerOp β}
    (hop : recordedKeysHeld.callOk op s) (hgrant : Granted key op (effectWorkers.handle op s).1) :
    s.db.getToolEffect key = none := by
  by_contra hrec
  rcases op with (op | op) | op
  · cases op with
    | reserveToolEffect key' e node owner fence ttl now =>
      change Granted key _ (s.db.reserveToolEffect key' e node owner fence ttl now).1 at hgrant
      cases hreply : (s.db.reserveToolEffect key' e node owner fence ttl now).1 with
      | error err =>
        rw [hreply] at hgrant
        exact hgrant
      | ok granted =>
        rw [hreply] at hgrant
        cases granted with
        | false => exact hgrant
        | true =>
          obtain rfl : key' = key := hgrant
          obtain ⟨row, hrow, hlive, howner⟩ := hop hrec
          rcases reserveToolEffect_granted hreply hrow with hlapsed | hown
          · exact absurd hlive (not_lt.mpr hlapsed)
          · exact howner hown
    | _ => exact hgrant
  · cases op <;> exact hgrant
  · cases op
    exact hgrant

theorem effect_stays_recorded {key : String} {c : Pool ServerOp BackendError EffectDecision Sys}
    {ms : List EffectMove} (h : c.state.db.getToolEffect key ≠ none) :
    (c.run effectWorkers ms).state.db.getToolEffect key ≠ none := by
  rw [getToolEffect_ne_none] at h ⊢
  obtain ⟨row, hrow⟩ := h
  refine ⟨row, ?_⟩
  refine Pool.run_keeps (I := fun s : Sys => s.db.toolEffects.find? key = some row) ?_ ?_ ms hrow
  · intro a s hs
    cases a with
    | call op => exact toolEffect_exec op hs
    | setClock now => exact hs
  · intro β op s hs
    rcases op with (op | op) | op
    · exact toolEffect_exec op hs
    · exact (Sys.callLocal_db op s).symm ▸ hs
    · cases op with
      | appendEventIf e kind condition =>
        exact toolEffect_exec (.appendEventIf e kind (condition s.clock)) hs

end Runs

/-- The claim of a worker on the one item of a run. -/
def claimOf (worker : WorkerId) : EffectClaim := ⟨"k", 0, "a", worker, 1⟩

/-- A run whose one item is claimed under fence 1. -/
def claimedOne : List EffectMove :=
  [.outside (.call startOne), .outside (.call (.claimWorkItem "w2" ["tool"] none 0))]

/-- The turn that records the effect of the occurrence. -/
def commitEffect : EffectMove :=
  .outside (.call (.commitTurn 1 1 0 (.nodeCompleted "a" { emptyResult with idempotencyKey := some "k" })
    true 0))

/-- `w1` finds nothing on record and stalls; `w2` reserves the key, runs the effect and commits. -/
def effectOnRecord : List EffectMove :=
  claimedOne ++
    [.spawn 1 (claimOf "w1"), .advance 1,
      .spawn 2 (claimOf "w2"), .advance 2, .advance 2, .advance 2, commitEffect]

/-- The reservation lapses, and `w1` goes on to reserve. -/
def stalledWorkerFires : List EffectMove :=
  [.outside (.setClock (after 0 Worker.reservationTtl)), .advance 1, .advance 1]

end JamJet
