import JamJet.CurrentState
import JamJet.OrderedMap
import Mathlib.Data.List.Perm.Lattice

/-! Which interleavings of appends to a current state lose none of them: those in which no call
writes back a state that another has written since it was read. -/

namespace JamJet

open AtomicCalls

namespace CurrentState

/-! What a state holds after appends -/

/-- The append of one of the calls. -/
def appendCall (calls : List AppendCall) (state : Json) (i : ℕ) : Except BackendError Json :=
  match calls[i]? with
  | some call => appendArray state call.key call.value
  | none => .ok state

/-- The state after the appends of these calls, in their order. -/
def appended (calls : List AppendCall) (start : Json) (ids : List ℕ) : Except BackendError Json :=
  ids.foldlM (appendCall calls) start

/-- What these calls append under a key, in their order. -/
def valuesUnder (calls : List AppendCall) (key : String) (ids : List ℕ) : List Json :=
  ids.filterMap fun i => (calls[i]?).bind fun call =>
    if call.key = key then some call.value else none

/-- A state that has come about by the appends of these calls. -/
structure Carries (calls : List AppendCall) (start : Json) (ids : List ℕ) (state : Json) : Prop where
  items : ∀ key, itemsAt state key = itemsAt start key ++ valuesUnder calls key ids
  arrays : ∀ i ∈ ids, ∀ call, calls[i]? = some call →
    state.get call.key = some (.array (itemsAt state call.key))
  members : ∀ key, (∀ i ∈ ids, ∀ call, calls[i]? = some call → call.key ≠ key) →
    state.get key = start.get key

section Appends

variable {calls : List AppendCall} {start state state' : Json} {ids : List ℕ} {i : ℕ}
  {key : String} {value : Json}

theorem itemsAt_congr (h : state.get key = state'.get key) :
    itemsAt state key = itemsAt state' key := by
  simp only [itemsAt, h]

theorem itemsAt_of_get {items : List Json} (h : state.get key = some (.array items)) :
    itemsAt state key = items := by
  simp only [itemsAt, h]

theorem appendArray_ok (h : appendArray state key value = .ok state') :
    state'.get key = some (.array (itemsAt state key ++ [value])) ∧
      ∀ other, other ≠ key → state'.get other = state.get other := by
  cases state with
  | object fields =>
    cases hitems : (BTree.get fields key).getD (.array []) with
    | array items =>
      simp only [appendArray, hitems, Except.ok.injEq] at h
      subst h
      have hsame : itemsAt (.object fields) key = items := by
        cases hget : BTree.get fields key with
        | none =>
          have hempty : items = [] := by simpa [hget] using hitems.symm
          simp [itemsAt, Json.get, hget, hempty]
        | some v =>
          have harray : v = .array items := by simpa [hget] using hitems
          simp [itemsAt, Json.get, hget, harray]
      refine ⟨?_, fun other hother => ?_⟩
      · simp [Json.get, BTree.get_insert, hsame]
      · simp [Json.get, BTree.get_insert, hother.symm]
    | _ => simp [appendArray, hitems] at h
  | _ => simp [appendArray] at h

theorem appended_concat (h : appended calls start ids = .ok state) :
    appended calls start (ids ++ [i]) = appendCall calls state i := by
  unfold appended at h ⊢
  rw [List.foldlM_append, h]
  change List.foldlM (appendCall calls) state [i] = _
  cases hcall : appendCall calls state i <;> simp [hcall]

theorem appended_concat_ok (h : appended calls start (ids ++ [i]) = .ok state') :
    ∃ state, appended calls start ids = .ok state ∧ appendCall calls state i = .ok state' := by
  cases hids : appended calls start ids with
  | error err =>
    unfold appended at h hids
    rw [List.foldlM_append, hids] at h
    cases h
  | ok state => exact ⟨state, rfl, (appended_concat hids).symm.trans h⟩

theorem valuesUnder_concat : valuesUnder calls key (ids ++ [i]) =
    valuesUnder calls key ids ++ valuesUnder calls key [i] := List.filterMap_append

theorem carries_nil : Carries calls start [] start :=
  ⟨fun _ => (List.append_nil _).symm, fun i hi => by simp at hi, fun _ _ => rfl⟩

theorem Carries.concat_none (h : Carries calls start ids state) (hi : calls[i]? = none) :
    Carries calls start (ids ++ [i]) state := by
  refine ⟨fun key => ?_, fun j hj call hcall => ?_, fun key hkey => ?_⟩
  · simpa [valuesUnder_concat, valuesUnder, hi] using h.items key
  · refine h.arrays j ?_ call hcall
    simp only [List.mem_append, List.mem_singleton] at hj
    rcases hj with hj | rfl
    · exact hj
    · simp [hi] at hcall
  · exact h.members key fun j hj => hkey j (List.mem_append_left _ hj)

theorem Carries.concat {call : AppendCall} (h : Carries calls start ids state)
    (hi : calls[i]? = some call) (happend : appendArray state call.key call.value = .ok state') :
    Carries calls start (ids ++ [i]) state' := by
  obtain ⟨hget, hothers⟩ := appendArray_ok happend
  refine ⟨fun key => ?_, fun j hj other hcall => ?_, fun key hkey => ?_⟩
  · rw [valuesUnder_concat, ← List.append_assoc, ← h.items key]
    by_cases hkey : call.key = key
    · subst hkey
      simpa [valuesUnder, hi] using itemsAt_of_get hget
    · have hsame := hothers key (Ne.symm hkey)
      simpa [valuesUnder, hi, hkey] using itemsAt_congr hsame
  · by_cases hkey : other.key = call.key
    · rw [hkey, itemsAt_of_get hget]
      exact hget
    · have hsame := hothers other.key hkey
      simp only [List.mem_append, List.mem_singleton] at hj
      rcases hj with hj | rfl
      · rw [itemsAt_congr hsame, hsame]
        exact h.arrays j hj other hcall
      · rw [hi] at hcall
        cases hcall
        exact absurd rfl hkey
  · have hne : key ≠ call.key := Ne.symm (hkey i (by simp) call hi)
    rw [hothers key hne]
    exact h.members key fun j hj => hkey j (List.mem_append_left _ hj)

theorem carries_appended (h : appended calls start ids = .ok state) :
    Carries calls start ids state := by
  induction ids using List.reverseRecOn generalizing state with
  | nil =>
    cases h
    exact carries_nil
  | append_singleton ids i ih =>
    obtain ⟨before, hids, hcall⟩ := appended_concat_ok h
    cases hi : calls[i]? with
    | none =>
      simp only [appendCall, hi, Except.ok.injEq] at hcall
      subst hcall
      exact (ih hids).concat_none hi
    | some call =>
      simp only [appendCall, hi] at hcall
      exact (ih hids).concat hi hcall

theorem valuesUnder_range (calls : List AppendCall) (key : String) :
    valuesUnder calls key (List.range calls.length) =
      (calls.filter fun call => call.key = key).map (·.value) := by
  induction calls with
  | nil => rfl
  | cons call calls ih =>
    unfold valuesUnder at ih ⊢
    rw [List.length_cons, List.range_succ_eq_map, List.filterMap_cons, List.filterMap_map]
    by_cases hkey : call.key = key
    · simpa [hkey, Function.comp_def] using ih
    · simpa [hkey, Function.comp_def] using ih

theorem valuesUnder_lt {carried writers : List ℕ} {call : AppendCall}
    (hsublist : carried.Sublist writers) (hnodup : writers.Nodup) (hi : i ∈ writers)
    (hmissing : i ∉ carried) (hcall : calls[i]? = some call) :
    (valuesUnder calls call.key carried).length < (valuesUnder calls call.key writers).length := by
  have hsubperm : (i :: carried).Subperm writers := by
    refine List.Nodup.subperm (List.nodup_cons.mpr ⟨hmissing, hnodup.sublist hsublist⟩) ?_
    exact List.cons_subset.mpr ⟨hi, hsublist.subset⟩
  obtain ⟨ids, hperm, hids⟩ := hsubperm
  have hle : (valuesUnder calls call.key ids).length ≤ (valuesUnder calls call.key writers).length :=
    (hids.filterMap _).length_le
  have heq : (valuesUnder calls call.key ids).length =
      (valuesUnder calls call.key (i :: carried)).length := (hperm.filterMap _).length_eq
  have hcons : (valuesUnder calls call.key (i :: carried)).length =
      (valuesUnder calls call.key carried).length + 1 := by simp [valuesUnder, hcall]
  omega

end Appends

/-! Commits -/

section Commits

variable {db db' : Db} {sequence : EventSequence}

theorem executions_commit (a : CommitCall) (db : Db) :
    (a.commit db).2.executions = db.executions := by
  rcases Db.commitTurnInner_cases db a.item a.fence a.executionId a.kind a.snapshot
    a.refuseTerminal a.now with hs | ⟨-, hs⟩ | ⟨-, -, settle, row, -, -, hs⟩
  · exact congrArg Db.executions hs
  · exact (congrArg Db.executions hs).trans rfl
  · exact (congrArg Db.executions hs).trans (Db.recordTurn_core _ _ _ _ _ _).executions

theorem extends_commit (a : CommitCall) (db : Db) (e : ExecutionId) :
    (db.events e).Extends ((a.commit db).2.events e) := by
  unfold CommitCall.commit
  rcases Db.commitTurnInner_cases db a.item a.fence a.executionId a.kind a.snapshot
    a.refuseTerminal a.now with hs | ⟨-, hs⟩ | ⟨-, -, settle, row, -, -, hs⟩
  · rw [hs]
    exact .refl _
  · rw [hs]
    exact .refl _
  · rw [hs, (Db.recordTurn_core _ _ _ _ _ _).events]
    by_cases he : e = a.executionId
    · subst he
      rw [Db.setEvents_events_self]
      exact SeqLog.extends_append _ _
    · rw [Db.setEvents_events_of_ne _ he]
      exact .refl _

theorem mem_of_committed {a : CommitCall} (h : (a.commit db).1 = .ok (.committed sequence)) :
    ⟨sequence, a.kind⟩ ∈ ((a.commit db).2.events a.executionId).entries := by
  obtain ⟨db', hcommit⟩ : ∃ db', a.commit db = (.ok (.committed sequence), db') :=
    ⟨(a.commit db).2, Prod.ext h rfl⟩
  rw [hcommit]
  unfold CommitCall.commit Db.commitTurnInner at hcommit
  split at hcommit
  · cases hcommit
  · split at hcommit
    · split at hcommit <;> cases hcommit
    · split at hcommit
      · dsimp only at hcommit
        split at hcommit
        · rename_i row number appended hrow hinsert
          cases hcommit
          unfold Db.insertEvent at hinsert
          split at hinsert
          · cases hinsert
          · cases hinsert
            rw [(Db.recordTurn_core _ _ _ _ _ _).events, Db.setEvents_events_self,
              SeqLog.entries_append]
            exact List.mem_append_right _ (List.mem_singleton_self _)
        · cases hcommit
      · cases hcommit

end Commits

/-! One turn after the other -/

section Turns

variable {e : ExecutionId} {calls : List AppendCall} {s : StateDb} {turns : List Turn} {i j : ℕ}
  {call : AppendCall} {c : Pool StateOp BackendError Unit StateDb}

theorem reached_cons (turn : Turn) : reached e calls s (turn :: turns) =
    (reached e calls s turns).step (service e) turn.move := by
  simp only [reached, List.reverse_cons, List.map_append, List.map_cons, List.map_nil]
  exact Pool.run_concat _ _ _ _

theorem ne_of_procs {r : Except BackendError Unit} {β : Type} {op : StateOp β}
    {k : Except BackendError β → Prog StateOp BackendError Unit}
    (h : c.procs i = some (.done r)) (hj : c.procs j = some (.call op k)) : i ≠ j := by
  rintro rfl
  rw [h] at hj
  cases hj

theorem procs_of_done {r : Except BackendError Unit} (h : c.procs i = some (.done r))
    (turn : Turn) : (c.step (service e) turn.move).procs i = some (.done r) := by
  cases turn with
  | advance j =>
    simp only [Turn.move, Pool.step]
    split
    · rename_i hj
      exact (Function.update_of_ne (ne_of_procs h hj) _ _).trans h
    · exact h
  | fault j err =>
    simp only [Turn.move, Pool.step]
    split
    · rename_i hj
      split
      · exact (Function.update_of_ne (ne_of_procs h hj) _ _).trans h
      · exact h
    · exact h
  | commit a => exact h

theorem procs_advance_of_ne (h : j ≠ i) :
    (c.step (service e) (.advance i)).procs j = c.procs j := by
  simp only [Pool.step]
  split
  · exact Function.update_of_ne h _ _
  · rfl

theorem step_advance {β : Type} {op : StateOp β}
    {k : Except BackendError β → Prog StateOp BackendError Unit}
    (hp : c.procs i = some (.call op k)) : c.step (service e) (.advance i) =
      ⟨(c.state.handle op).2,
        Function.update c.procs i (some (k (c.state.handle op).1))⟩ := by
  simp only [Pool.step, hp]
  rfl

theorem extends_step (turn : Turn) (e' : ExecutionId) :
    (c.state.db.events e').Extends ((c.step (service e) turn.move).state.db.events e') := by
  cases turn with
  | advance i =>
    simp only [Turn.move, Pool.step]
    split
    · rename_i op k hp
      cases op with
      | getExecution e => exact .refl _
      | updateExecutionCurrentState e state now => exact .refl _
    · exact .refl _
  | fault i err =>
    simp only [Turn.move, Pool.step]
    split
    · split <;> exact .refl _
    · exact .refl _
  | commit a => exact extends_commit a c.state.db e'

theorem extends_reached (later : List Turn) (e' : ExecutionId) :
    ((reached e calls s turns).state.db.events e').Extends
      ((reached e calls s (later ++ turns)).state.db.events e') := by
  induction later with
  | nil => exact .refl _
  | cons turn later ih =>
    rw [List.cons_append, reached_cons]
    exact ih.trans (extends_step turn e')

theorem commits_reached {later earlier : List Turn} {a : CommitCall} {sequence : EventSequence}
    (h : (a.commit (reached e calls s earlier).state.db).1 = .ok (.committed sequence)) :
    ⟨sequence, a.kind⟩ ∈ ((reached e calls s (later ++ .commit a :: earlier)).state.db.events
      a.executionId).entries := by
  have hmem : ⟨sequence, a.kind⟩ ∈ ((reached e calls s (.commit a :: earlier)).state.db.events
      a.executionId).entries := by
    rw [reached_cons]
    exact mem_of_committed h
  exact (extends_reached later a.executionId).subset hmem

end Turns

/-! What is left of each call -/

/-- Some call has failed. -/
def Failed (calls : List AppendCall) (c : Pool StateOp BackendError Unit StateDb) : Prop :=
  ∃ i < calls.length, ∃ err, c.procs i = some (.done (.error err))

/-- What is left of a call after its first turns, given whose appends its copy carries. -/
def Left (e : ExecutionId) (calls : List AppendCall) (s : StateDb) (copy : List ℕ)
    (call : AppendCall) : ℕ → Prog StateOp BackendError Unit → Prop
  | 0, p => p = appendProgram e call
  | 1, p => s.hasRow e = true ∧ ∃ state state', appended calls (s.currentState e) copy = .ok state ∧
      appendArray state call.key call.value = .ok state' ∧
        p = Prog.perform (.updateExecutionCurrentState e state' call.now)
  | _, p => p = .done (.ok ())

/-- The column carries the appends that the order of the accesses gives it, and so does what each
call is about to write. -/
structure Tracks (e : ExecutionId) (calls : List AppendCall) (s : StateDb) (turns : List Turn) :
    Prop where
  absent : ∀ i, calls.length ≤ i → (reached e calls s turns).procs i = none
  left : ∀ i call, calls[i]? = some call → ∃ p, (reached e calls s turns).procs i = some p ∧
    Left e calls s ((Lineage.after (accesses calls.length turns)).copy i) call (turnsOf i turns) p
  column : appended calls (s.currentState e) (Lineage.after (accesses calls.length turns)).carried =
    .ok ((reached e calls s turns).state.currentState e)
  row : (reached e calls s turns).state.hasRow e = s.hasRow e

section Tracking

variable {e : ExecutionId} {calls : List AppendCall} {s : StateDb} {turns : List Turn} {i j n : ℕ}
  {call : AppendCall}

theorem Failed.step {c : Pool StateOp BackendError Unit StateDb} (h : Failed calls c)
    (turn : Turn) : Failed calls (c.step (service e) turn.move) := by
  obtain ⟨i, hi, err, hproc⟩ := h
  exact ⟨i, hi, err, procs_of_done hproc turn⟩

theorem hasRow_updateCurrentState (s : StateDb) (e : ExecutionId) (state : Json) (now : Instant) :
    (s.updateCurrentState e state now).hasRow e = s.hasRow e := by
  unfold StateDb.hasRow StateDb.updateCurrentState Db.updateExecution
  rw [Table.find?_update, Option.isSome_map]

theorem tracks_nil : Tracks e calls s [] where
  absent i hi := by simp [reached, started, Pool.run, List.getElem?_eq_none hi]
  left i call hcall := by
    refine ⟨appendProgram e call, ?_, rfl⟩
    simp [reached, started, Pool.run, hcall]
  column := rfl
  row := rfl

theorem turnsOf_advance_of_ne (h : j ≠ i) : turnsOf j (.advance i :: turns) = turnsOf j turns := by
  simp [turnsOf, h]

theorem accesses_advance : accesses n (.advance i :: turns) =
    if n ≤ i then accesses n turns
    else if turnsOf i turns = 0 then .read i :: accesses n turns
    else if turnsOf i turns = 1 then .write i :: accesses n turns
    else accesses n turns := rfl

theorem copy_advance_of_ne (h : j ≠ i) :
    (Lineage.after (accesses n (.advance i :: turns))).copy j =
      (Lineage.after (accesses n turns)).copy j := by
  rw [accesses_advance]
  split
  · rfl
  · split
    · exact Lineage.copy_read_of_ne h
    · split <;> rfl

theorem Tracks.advance (h : Tracks e calls s turns) (hcall : calls[i]? = some call)
    {p : Prog StateOp BackendError Unit}
    (hp : (reached e calls s (.advance i :: turns)).procs i = some p)
    (hleft : Left e calls s ((Lineage.after (accesses calls.length (.advance i :: turns))).copy i)
      call (turnsOf i turns + 1) p)
    (hcolumn : appended calls (s.currentState e)
      (Lineage.after (accesses calls.length (.advance i :: turns))).carried =
        .ok ((reached e calls s (.advance i :: turns)).state.currentState e))
    (hrow : (reached e calls s (.advance i :: turns)).state.hasRow e = s.hasRow e) :
    Tracks e calls s (.advance i :: turns) := by
  have hlt : i < calls.length := (List.getElem?_eq_some_iff.mp hcall).1
  have hothers : ∀ j, j ≠ i → (reached e calls s (.advance i :: turns)).procs j =
      (reached e calls s turns).procs j := by
    intro j hj
    rw [reached_cons]
    exact procs_advance_of_ne hj
  refine ⟨fun j hj => ?_, fun j other hother => ?_, hcolumn, hrow⟩
  · rw [hothers j (by omega)]
    exact h.absent j hj
  · by_cases hj : j = i
    · subst hj
      rw [hcall] at hother
      cases hother
      refine ⟨p, hp, ?_⟩
      simpa [turnsOf] using hleft
    · obtain ⟨q, hq, hqleft⟩ := h.left j other hother
      rw [hothers j hj, turnsOf_advance_of_ne hj, copy_advance_of_ne hj]
      exact ⟨q, hq, hqleft⟩

/-- The first turn of a call takes a copy of the state. -/
theorem Tracks.read (h : Tracks e calls s turns) (hcall : calls[i]? = some call)
    (hturns : turnsOf i turns = 0) :
    Failed calls (reached e calls s (.advance i :: turns)) ∨
      Tracks e calls s (.advance i :: turns) := by
  have hlt : i < calls.length := (List.getElem?_eq_some_iff.mp hcall).1
  obtain ⟨p, hp, hleft⟩ := h.left i call hcall
  rw [hturns] at hleft
  obtain rfl : p = appendProgram e call := hleft
  have haccesses : accesses calls.length (.advance i :: turns) =
      .read i :: accesses calls.length turns := by
    simp [accesses_advance, hturns, hlt]
  let state := (reached e calls s turns).state
  let found := if state.hasRow e then some (state.currentState e) else none
  have hstep : reached e calls s (.advance i :: turns) =
      ⟨state, Function.update (reached e calls s turns).procs i
        (some (writeAppended e call.key call.value call.now found))⟩ :=
    (reached_cons _).trans (step_advance hp)
  have hproc : (reached e calls s (.advance i :: turns)).procs i =
      some (writeAppended e call.key call.value call.now found) := by
    rw [hstep]
    exact Function.update_self _ _ _
  have hstate : (reached e calls s (.advance i :: turns)).state = state := by rw [hstep]
  by_cases hrow : state.hasRow e = true
  · have hfound : found = some (state.currentState e) := if_pos hrow
    rw [hfound] at hproc
    cases happend : appendArray (state.currentState e) call.key call.value with
    | error err =>
      refine .inl ⟨i, hlt, err, hproc.trans ?_⟩
      simp only [writeAppended, happend]
    | ok state' =>
      refine .inr (h.advance hcall hproc ?_ ?_ ?_)
      · rw [hturns, haccesses]
        refine ⟨h.row.symm.trans hrow, state.currentState e, state', ?_, happend, ?_⟩
        · rw [Lineage.copy_read]
          exact h.column
        · simp only [writeAppended, happend]
      · rw [haccesses, hstate]
        exact h.column
      · rw [hstate]
        exact h.row
  · have hfound : found = none := if_neg hrow
    rw [hfound] at hproc
    exact .inl ⟨i, hlt, _, hproc⟩

theorem Tracks.write (h : Tracks e calls s turns) (hcall : calls[i]? = some call)
    (hturns : turnsOf i turns = 1) : Tracks e calls s (.advance i :: turns) := by
  have hlt : i < calls.length := (List.getElem?_eq_some_iff.mp hcall).1
  obtain ⟨p, hp, hleft⟩ := h.left i call hcall
  rw [hturns] at hleft
  obtain ⟨hrow, state, state', hcopy, happend, rfl⟩ := hleft
  have haccesses : accesses calls.length (.advance i :: turns) =
      .write i :: accesses calls.length turns := by
    simp [accesses_advance, hturns, hlt]
  have hstep : reached e calls s (.advance i :: turns) =
      ⟨(reached e calls s turns).state.updateCurrentState e state' call.now,
        Function.update (reached e calls s turns).procs i (some (.done (.ok ())))⟩ :=
    (reached_cons _).trans (step_advance hp)
  have hproc : (reached e calls s (.advance i :: turns)).procs i = some (.done (.ok ())) := by
    rw [hstep]
    exact Function.update_self _ _ _
  refine h.advance hcall hproc ?_ ?_ ?_
  · rw [hturns]
    rfl
  · rw [haccesses, hstep]
    refine (appended_concat hcopy).trans ?_
    simp [appendCall, hcall, happend, StateDb.updateCurrentState, h.row, hrow]
  · rw [hstep, ← h.row]
    exact hasRow_updateCurrentState _ _ _ _

theorem Tracks.over (h : Tracks e calls s turns) (hcall : calls[i]? = some call)
    (hturns : 2 ≤ turnsOf i turns) : Tracks e calls s (.advance i :: turns) := by
  have hlt : i < calls.length := (List.getElem?_eq_some_iff.mp hcall).1
  obtain ⟨n, hn⟩ : ∃ n, turnsOf i turns = n + 2 := ⟨turnsOf i turns - 2, by omega⟩
  obtain ⟨p, hp, hleft⟩ := h.left i call hcall
  rw [hn] at hleft
  obtain rfl : p = .done (.ok ()) := hleft
  have haccesses : accesses calls.length (.advance i :: turns) =
      accesses calls.length turns := by
    rw [accesses_advance, if_neg (by omega), if_neg (by omega), if_neg (by omega)]
  have hstep : reached e calls s (.advance i :: turns) = reached e calls s turns := by
    rw [reached_cons]
    simp only [Turn.move, Pool.step, hp]
  refine h.advance hcall (hstep ▸ hp) ?_ ?_ ?_
  · rw [hn]
    rfl
  · rw [haccesses, hstep]
    exact h.column
  · rw [hstep]
    exact h.row

theorem Tracks.unchanged (h : Tracks e calls s turns) {turn : Turn}
    (haccesses : accesses calls.length (turn :: turns) = accesses calls.length turns)
    (hturns : ∀ j < calls.length, turnsOf j (turn :: turns) = turnsOf j turns)
    (hprocs : (reached e calls s (turn :: turns)).procs = (reached e calls s turns).procs)
    (hcolumn : (reached e calls s (turn :: turns)).state.currentState e =
      (reached e calls s turns).state.currentState e)
    (hrow : (reached e calls s (turn :: turns)).state.hasRow e =
      (reached e calls s turns).state.hasRow e) : Tracks e calls s (turn :: turns) := by
  refine ⟨fun i hi => ?_, fun i call hcall => ?_, ?_, hrow.trans h.row⟩
  · rw [hprocs]
    exact h.absent i hi
  · obtain ⟨p, hp, hleft⟩ := h.left i call hcall
    have hlt : i < calls.length := (List.getElem?_eq_some_iff.mp hcall).1
    rw [hprocs, haccesses, hturns i hlt]
    exact ⟨p, hp, hleft⟩
  · rw [haccesses, hcolumn]
    exact h.column

theorem Tracks.fault (h : Tracks e calls s turns) (i : ℕ) (err : BackendError) :
    Failed calls (reached e calls s (.fault i err :: turns)) ∨
      Tracks e calls s (.fault i err :: turns) := by
  have hkept : (reached e calls s (.fault i err :: turns)) = reached e calls s turns →
      Tracks e calls s (.fault i err :: turns) := fun hsame =>
    h.unchanged rfl (fun _ _ => rfl) (congrArg Pool.procs hsame) (by rw [hsame]) (by rw [hsame])
  by_cases hi : calls.length ≤ i
  · refine .inr (hkept ?_)
    rw [reached_cons]
    simp only [Turn.move, Pool.step, h.absent i hi]
  · have hlt : i < calls.length := not_le.mp hi
    obtain ⟨p, hp, hleft⟩ := h.left i calls[i] (List.getElem?_eq_getElem hlt)
    have hends : ∀ (β : Type) (op : StateOp β) k, (reached e calls s turns).procs i =
        some (.call op k) → k (.error err) = .done (.error err) →
          Failed calls (reached e calls s (.fault i err :: turns)) := by
      intro β op k hcall hk
      refine ⟨i, hlt, err, ?_⟩
      rw [reached_cons]
      simp only [Turn.move, Pool.step, hcall, service, if_true, Function.update_self, hk]
    rcases hturns : turnsOf i turns with _ | _ | n
    · rw [hturns] at hleft
      obtain rfl : p = appendProgram e calls[i] := hleft
      exact .inl (hends _ _ _ hp rfl)
    · rw [hturns] at hleft
      obtain ⟨-, state, state', -, -, rfl⟩ := hleft
      exact .inl (hends _ _ _ hp rfl)
    · rw [hturns] at hleft
      obtain rfl : p = .done (.ok ()) := hleft
      refine .inr (hkept ?_)
      rw [reached_cons]
      simp only [Turn.move, Pool.step, hp]

theorem Tracks.step (h : Tracks e calls s turns) (turn : Turn) :
    Failed calls (reached e calls s (turn :: turns)) ∨ Tracks e calls s (turn :: turns) := by
  cases turn with
  | advance i =>
    by_cases hi : calls.length ≤ i
    · have hstep : reached e calls s (.advance i :: turns) = reached e calls s turns := by
        rw [reached_cons]
        simp only [Turn.move, Pool.step, h.absent i hi]
      have haccesses : accesses calls.length (.advance i :: turns) =
          accesses calls.length turns := by rw [accesses_advance, if_pos hi]
      refine .inr (h.unchanged haccesses (fun j hj => ?_) (congrArg Pool.procs hstep)
        (by rw [hstep]) (by rw [hstep]))
      exact turnsOf_advance_of_ne (by omega)
    · have hcall : calls[i]? = some calls[i] := List.getElem?_eq_getElem (not_le.mp hi)
      rcases hturns : turnsOf i turns with _ | _ | n
      · exact h.read hcall hturns
      · exact .inr (h.write hcall hturns)
      · exact .inr (h.over hcall (by omega))
  | fault i err => exact h.fault i err
  | commit a =>
    refine .inr (h.unchanged rfl (fun _ _ => rfl) ?_ ?_ ?_)
    · rw [reached_cons]
      rfl
    · rw [reached_cons]
      rfl
    · rw [reached_cons]
      exact congrArg (fun rows => (Table.find? rows e).isSome) (executions_commit a _)

theorem tracks_reached (turns : List Turn) :
    Failed calls (reached e calls s turns) ∨ Tracks e calls s turns := by
  induction turns with
  | nil => exact .inr tracks_nil
  | cons turn turns ih =>
    rcases ih with hfailed | htracks
    · rw [reached_cons]
      exact .inl (hfailed.step turn)
    · exact htracks.step turn

theorem tracks_of_allOk (hok : AllOk e calls s turns) : Tracks e calls s turns := by
  rcases tracks_reached turns with ⟨i, hi, err, hproc⟩ | htracks
  · rw [hok i hi] at hproc
    cases hproc
  · exact htracks

theorem two_le_turnsOf (hok : AllOk e calls s turns) (hi : i < calls.length) :
    2 ≤ turnsOf i turns := by
  obtain ⟨p, hp, hleft⟩ := (tracks_of_allOk hok).left i calls[i] (List.getElem?_eq_getElem hi)
  obtain rfl : p = .done (.ok ()) := Option.some.inj (hp.symm.trans (hok i hi))
  rcases hturns : turnsOf i turns with _ | _ | n
  · rw [hturns] at hleft
    cases hleft
  · rw [hturns] at hleft
    obtain ⟨-, state, state', -, -, hcall⟩ := hleft
    cases hcall
  · omega

theorem mem_writers_accesses :
    i ∈ Lineage.writers (accesses n turns) ↔ i < n ∧ 2 ≤ turnsOf i turns := by
  induction turns with
  | nil => simp [accesses, Lineage.writers, turnsOf]
  | cons turn turns ih =>
    cases turn with
    | advance j =>
      rw [accesses_advance]
      by_cases hij : i = j
      · subst hij
        by_cases hn : n ≤ i
        · rw [if_pos hn, ih]
          omega
        · rw [if_neg hn]
          by_cases h0 : turnsOf i turns = 0
          · simp [h0, Lineage.writers, ih, turnsOf]
          · by_cases h1 : turnsOf i turns = 1
            · simp [h1, Lineage.writers, turnsOf, not_le.mp hn]
            · simp only [h0, h1, if_false, ih, turnsOf, if_true]
              omega
      · have hsame : i ∈ Lineage.writers (if n ≤ j then accesses n turns
            else if turnsOf j turns = 0 then .read j :: accesses n turns
            else if turnsOf j turns = 1 then .write j :: accesses n turns
            else accesses n turns) ↔ i ∈ Lineage.writers (accesses n turns) := by
          split
          · rfl
          · split
            · rfl
            · split
              · simp [Lineage.writers, hij]
              · rfl
        rw [hsame, ih, turnsOf_advance_of_ne hij]
    | fault j err => exact ih
    | commit a => exact ih

theorem nodup_writers_accesses (n : ℕ) (turns : List Turn) :
    (Lineage.writers (accesses n turns)).Nodup := by
  induction turns with
  | nil => exact List.nodup_nil
  | cons turn turns ih =>
    cases turn with
    | advance j =>
      rw [accesses_advance]
      split
      · exact ih
      · split
        · exact ih
        · split
          · rename_i hturns
            have hnew : j ∉ Lineage.writers (accesses n turns) := by
              rw [mem_writers_accesses]
              omega
            refine List.nodup_append.mpr ⟨ih, List.nodup_singleton j, fun i hi j' hj' => ?_⟩
            obtain rfl := List.mem_singleton.mp hj'
            exact fun hij => hnew (hij ▸ hi)
          · exact ih
    | fault j err => exact ih
    | commit a => exact ih

theorem writers_perm (hok : AllOk e calls s turns) :
    (Lineage.writers (accesses calls.length turns)).Perm (List.range calls.length) := by
  refine (List.perm_ext_iff_of_nodup (nodup_writers_accesses _ _) List.nodup_range).mpr fun i => ?_
  rw [mem_writers_accesses, List.mem_range]
  exact ⟨fun h => h.1, fun hi => ⟨hi, two_le_turnsOf hok hi⟩⟩

end Tracking

/-! The appends that are kept -/

section Kept

variable {e : ExecutionId} {calls : List AppendCall} {s : StateDb} {turns : List Turn}

theorem carries_reached (hok : AllOk e calls s turns) :
    Carries calls (s.currentState e)
      (Lineage.after (accesses calls.length turns)).carried
      ((reached e calls s turns).state.currentState e) :=
  carries_appended (tracks_of_allOk hok).column

theorem keepsUpdates_of_carried (hok : AllOk e calls s turns)
    (h : (Lineage.after (accesses calls.length turns)).carried =
      Lineage.writers (accesses calls.length turns)) : KeepsUpdates e calls s turns := by
  have hcarries := carries_reached hok
  rw [h] at hcarries
  have hperm := writers_perm hok
  constructor
  · intro call hmem
    obtain ⟨i, hi, rfl⟩ := List.getElem_of_mem hmem
    have hwriter : i ∈ Lineage.writers (accesses calls.length turns) :=
      hperm.mem_iff.mpr (List.mem_range.mpr hi)
    refine ⟨_, hcarries.arrays i hwriter calls[i] (List.getElem?_eq_getElem hi), ?_⟩
    rw [hcarries.items, ← valuesUnder_range]
    exact (hperm.filterMap _).append_left _
  · intro key hkey
    exact hcarries.members key fun i _ call hcall => hkey call (List.mem_of_getElem? hcall)
  · rintro later a earlier rfl sequence hcommitted
    exact commits_reached hcommitted

theorem not_keepsUpdates (hok : AllOk e calls s turns)
    (h : Lineage.lossy (accesses calls.length turns) = true) : ¬ KeepsUpdates e calls s turns := by
  intro hkeeps
  have hcarries := carries_reached hok
  have hnodup := nodup_writers_accesses calls.length turns
  obtain ⟨i, hwriter, hmissing⟩ := Lineage.exists_lost hnodup h
  have hi : i < calls.length := (mem_writers_accesses.mp hwriter).1
  have hcall : calls[i]? = some calls[i] := List.getElem?_eq_getElem hi
  obtain ⟨items, hget, hperm⟩ := hkeeps.arrays calls[i] (List.getElem_mem hi)
  rw [← itemsAt_of_get hget, hcarries.items, ← valuesUnder_range] at hperm
  have hlt := valuesUnder_lt (Lineage.copy_sublist _).1 hnodup hwriter hmissing hcall
  have hlength := hperm.length_eq
  have hall : (valuesUnder calls calls[i].key (Lineage.writers (accesses calls.length turns))).length
      = (valuesUnder calls calls[i].key (List.range calls.length)).length :=
    ((writers_perm hok).filterMap _).length_eq
  simp only [List.length_append] at hlength
  omega

/-- The interleavings that lose no append. -/
theorem keepsUpdates_iff (hok : AllOk e calls s turns) :
    KeepsUpdates e calls s turns ↔ Lineage.lossy (accesses calls.length turns) = false := by
  constructor
  · intro h
    exact Bool.eq_false_iff.mpr fun hlossy => not_keepsUpdates hok hlossy h
  · intro h
    exact keepsUpdates_of_carried hok (Lineage.carried_eq_writers h)

end Kept

/-! Two appends to one array -/

def noteCalls : List AppendCall :=
  [{ key := "agent_tool_events", value := .string "first", now := 1 },
    { key := "agent_tool_events", value := .string "second", now := 2 }]

def noteRow : ExecutionRow :=
  { executionId := 1, workflowId := "w", workflowVersion := "1.0.0", status := .running
    initialInput := .null, updatedAt := 0, completedAt := none, tenantId := "default" }

def noteDb : StateDb := { db := { executions := (Table.empty.put noteRow) } }

/-- One after the other, the latest turn first. -/
def inSequence : List Turn := [.advance 1, .advance 1, .advance 0, .advance 0]

/-- Both read before either writes. -/
def overlapping : List Turn := [.advance 1, .advance 0, .advance 1, .advance 0]

theorem allOk_notes {turns : List Turn}
    (h0 : (reached 1 noteCalls noteDb turns).procs 0 = some (.done (.ok ())))
    (h1 : (reached 1 noteCalls noteDb turns).procs 1 = some (.done (.ok ()))) :
    AllOk 1 noteCalls noteDb turns := by
  intro i hi
  rcases i with _ | _ | n
  · exact h0
  · exact h1
  · change n + 2 < 2 at hi
    omega

theorem keepsUpdates_inSequence :
    AllOk 1 noteCalls noteDb inSequence ∧
      (KeepsUpdates 1 noteCalls noteDb inSequence ↔
        Lineage.lossy (accesses noteCalls.length inSequence) = false) :=
  ⟨allOk_notes rfl rfl, keepsUpdates_iff (allOk_notes rfl rfl)⟩

theorem overlapping_loses :
    AllOk 1 noteCalls noteDb overlapping ∧ ¬ KeepsUpdates 1 noteCalls noteDb overlapping :=
  ⟨allOk_notes rfl rfl, not_keepsUpdates (allOk_notes rfl rfl) (by decide)⟩

end CurrentState

end JamJet
