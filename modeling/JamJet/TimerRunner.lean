import JamJet.Fallible
import JamJet.Transitions

/-! Durable timers: the rows of the table, the due ones as the store lists them, and the runner's
tick, which fires one after the other and gives up at the first that fails. -/

namespace JamJet.Timers

/-- The texts of ids and times, as the crates read and write them. -/
class TimerText where
  parseUuid : String → Except String ℕ
  uuidText : ℕ → String
  parseUuid_uuidText : ∀ id, parseUuid (uuidText id) = .ok id
  parseRfc3339 : String → Except String Instant

open Fallible (bind_eq_ok map_eq_ok)
open TimerText

/-- A row of the table. -/
structure TimerRow where
  id : String
  executionId : String
  nodeId : NodeId
  fireAt : String
  correlationKey : Option String
  fired : ℤ
  createdAt : String
  firedAt : Option String
  deriving DecidableEq, Repr

structure Timer where
  id : ℕ
  executionId : String
  nodeId : NodeId
  fireAt : Instant
  correlationKey : Option String
  fired : Bool
  createdAt : Instant
  firedAt : Option Instant
  deriving DecidableEq, Repr

/-- The event a timer fires. -/
structure TimerFired where
  executionId : ExecutionId
  nodeId : NodeId
  correlationKey : Option String
  deriving DecidableEq, Repr

abbrev TimerTable := Table String TimerRow (·.id)

/-- The timers beside the state backend.  `appended` keeps what the log only knows the tag of. -/
structure TimerSys where
  timers : TimerTable
  db : Db
  appended : List TimerFired := []

def TimerRow.mark (firedAt : String) (row : TimerRow) : TimerRow :=
  { row with fired := 1, firedAt := some firedAt }

theorem TimerRow.mark_id (firedAt : String) (row : TimerRow) : (row.mark firedAt).id = row.id := rfl

/-- A list loses nothing by stopping at the first item without an image exactly when no item after
it has one. -/
theorem filterMap_takeWhile_iff {α β : Type} {f : α → Option β} {xs : List α} :
    (xs.filterMap f).Subperm ((xs.takeWhile fun x => (f x).isSome).filterMap f) ↔
      ∀ x ∈ xs.dropWhile fun x => (f x).isSome, f x = none := by
  have hsplit : xs.filterMap f = (xs.takeWhile fun x => (f x).isSome).filterMap f ++
      (xs.dropWhile fun x => (f x).isSome).filterMap f := by
    rw [← List.filterMap_append, List.takeWhile_append_dropWhile]
  rw [← List.filterMap_eq_nil_iff, hsplit]
  constructor
  · intro h
    have hlength := h.length_le
    rw [List.length_append] at hlength
    exact List.eq_nil_of_length_eq_zero (by omega)
  · intro h
    rw [h, List.append_nil]

section Tick

variable [TimerText]

def parseDt (s : String) : Except String Instant :=
  (parseRfc3339 s).mapError fun e => "bad datetime '" ++ s ++ "': " ++ e

def rowToTimer (row : TimerRow) : Except String Timer := do
  let id ← (parseUuid row.id).mapError fun e => "bad timer id: " ++ e
  let fireAt ← parseDt row.fireAt
  let createdAt ← parseDt row.createdAt
  let firedAt ← row.firedAt.mapM parseDt
  return ⟨id, row.executionId, row.nodeId, fireAt, row.correlationKey, row.fired ≠ 0, createdAt,
    firedAt⟩

/-- `WHERE fired = 0 AND fire_at <= ? ORDER BY fire_at ASC`. -/
def dueRows (now : String) (timers : TimerTable) : List TimerRow :=
  (timers.rows.filter fun row => row.fired = 0 ∧ row.fireAt ≤ now).insertionSort
    fun a b => a.fireAt ≤ b.fireAt

/-- All timers due to fire, or the error of the first row that cannot be read. -/
def listDue (now : String) (timers : TimerTable) : Except String (List Timer) :=
  (dueRows now timers).mapM rowToTimer

/-- `UPDATE timers SET fired = 1 WHERE id = ?`, by the text the id is written in. -/
def markFired (firedAt : String) (id : ℕ) (timers : TimerTable) : TimerTable :=
  timers.update (uuidText id) (fun _ => true) (TimerRow.mark firedAt) (TimerRow.mark_id firedAt)

/-- One timer of the loop.  The sequence the source reads before the append is advisory. -/
def fire (errorText : BackendError → String) (firedAt : String) (timer : Timer) (s : TimerSys) :
    Except String Unit × TimerSys :=
  match parseUuid timer.executionId with
  | .error e => (.error ("bad execution_id in timer: " ++ e), s)
  | .ok e =>
      match s.db.appendEvent e (.other "timer_fired") with
      | (.error err, db) => (.error ("append TimerFired: " ++ errorText err), { s with db := db })
      | (.ok _, db) =>
          (.ok (),
            { timers := markFired firedAt timer.id s.timers
              db := db
              appended := s.appended ++ [⟨e, timer.nodeId, timer.correlationKey⟩] })

/-- The loop over the due timers; an error leaves it. -/
def fireAll (errorText : BackendError → String) (firedAt : String) :
    List Timer → TimerSys → Except String Unit × TimerSys
  | [], s => (.ok (), s)
  | timer :: timers, s =>
      match fire errorText firedAt timer s with
      | (.error e, s) => (.error e, s)
      | (.ok (), s) => fireAll errorText firedAt timers s

/-- One tick; `now` and `firedAt` are the texts of the times it reads. -/
def tick (errorText : BackendError → String) (now firedAt : String) (s : TimerSys) :
    Except String Unit × TimerSys :=
  match listDue now s.timers with
  | .error e => (.error e, s)
  | .ok due => fireAll errorText firedAt due s

/-! ### What a tick should do -/

/-- The event of a timer whose execution id is valid and whose append succeeds. -/
def eventOf (db : Db) (timer : Timer) : Option TimerFired :=
  match parseUuid timer.executionId with
  | .ok e =>
      if (db.executions.find? e).isSome then some ⟨e, timer.nodeId, timer.correlationKey⟩ else none
  | .error _ => none

/-- The event of a row that can be read; nothing for a bad row. -/
def expected (db : Db) (row : TimerRow) : Option TimerFired :=
  match rowToTimer row with
  | .ok timer => eventOf db timer
  | .error _ => none

/-- Every due timer that could fire on its own has fired and is marked. -/
structure Isolates (now : String) (s t : TimerSys) : Prop where
  fires : ∃ new, t.appended = s.appended ++ new ∧
    ((dueRows now s.timers).filterMap (expected s.db)).Subperm new
  marks : ∀ row ∈ dueRows now s.timers, (expected s.db row).isSome →
    ∃ row', t.timers.find? row.id = some row' ∧ row'.fired ≠ 0

variable (errorText : BackendError → String) {now : String} (firedAt : String) {s : TimerSys}

theorem fire_of_event {timer : Timer} {event : TimerFired} (h : eventOf s.db timer = some event) :
    ∃ db, fire errorText firedAt timer s =
        (.ok (), ⟨markFired firedAt timer.id s.timers, db, s.appended ++ [event]⟩) ∧
      db.executions = s.db.executions := by
  unfold eventOf at h
  unfold fire
  cases he : parseUuid timer.executionId with
  | error e => simp [he] at h
  | ok e =>
    simp only [he] at h
    split at h
    · rename_i hsome
      cases h
      rcases Db.appendEvent_cases s.db e (.other "timer_fired") with ⟨hnone, -⟩ | ⟨-, happend⟩
      · simp [hnone] at hsome
      · exact ⟨s.db.setEvents e ((s.db.events e).append (.other "timer_fired")),
          by simp only [happend], Db.setEvents_executions _⟩
    · cases h

theorem fire_of_none {timer : Timer} (h : eventOf s.db timer = none) :
    ∃ e, fire errorText firedAt timer s = (.error e, s) := by
  unfold eventOf at h
  unfold fire
  cases he : parseUuid timer.executionId with
  | error e => exact ⟨_, rfl⟩
  | ok e =>
    simp only [he] at h
    split at h
    · cases h
    · rename_i hnone
      rcases Db.appendEvent_cases s.db e (.other "timer_fired") with ⟨-, happend⟩ | ⟨⟨row, hrow⟩, -⟩
      · exact ⟨"append TimerFired: " ++ errorText Db.foreignKeyError, by simp only [happend]⟩
      · simp [hrow] at hnone

theorem eventOf_congr {db db' : Db} (h : db'.executions = db.executions) (timer : Timer) :
    eventOf db' timer = eventOf db timer := by
  simp [eventOf, h]

theorem expected_congr {db db' : Db} (h : db'.executions = db.executions) (row : TimerRow) :
    expected db' row = expected db row := by
  unfold expected
  cases rowToTimer row with
  | error e => rfl
  | ok timer => exact eventOf_congr h timer

/-- The text of the id a row is read with. -/
def markedId (row : TimerRow) : Option String :=
  match parseUuid row.id with
  | .ok id => some (uuidText id)
  | .error _ => none

theorem markedId_of_rowToTimer {row : TimerRow} {timer : Timer} (h : rowToTimer row = .ok timer) :
    markedId row = some (uuidText timer.id) := by
  obtain ⟨id, hid, h⟩ := bind_eq_ok.mp h
  obtain ⟨fireAt, -, h⟩ := bind_eq_ok.mp h
  obtain ⟨createdAt, -, h⟩ := bind_eq_ok.mp h
  obtain ⟨firedAt, -, h⟩ := bind_eq_ok.mp h
  cases h
  unfold markedId
  cases hparse : parseUuid row.id with
  | error e =>
    rw [hparse] at hid
    cases hid
  | ok id' =>
    rw [hparse] at hid
    cases hid
    rfl

theorem find?_markFired {firedAt : String} (id : ℕ) (timers : TimerTable) (key : String) :
    (markFired firedAt id timers).find? key =
      (timers.find? key).map fun row => if key = uuidText id then row.mark firedAt else row := by
  rw [markFired, Table.find?_update]
  simp

theorem fireAll_rows {rows : List TimerRow} {timers : List Timer}
    (h : List.Forall₂ (fun row timer => rowToTimer row = .ok timer) rows timers) (s : TimerSys) :
    let run := rows.takeWhile fun row => (expected s.db row).isSome
    let t := (fireAll errorText firedAt timers s).2
    t.appended = s.appended ++ run.filterMap (expected s.db) ∧
      ∀ key, t.timers.find? key = (s.timers.find? key).map fun row =>
        if some key ∈ run.map markedId then row.mark firedAt else row := by
  induction h generalizing s with
  | nil => simp [fireAll]
  | @cons row timer rows timers hrow hrows ih =>
    have hexpected : expected s.db row = eventOf s.db timer := by simp [expected, hrow]
    cases hevent : eventOf s.db timer with
    | none =>
      obtain ⟨e, hfire⟩ := fire_of_none errorText firedAt hevent
      simp [fireAll, hfire, hexpected, hevent]
    | some event =>
      obtain ⟨db, hfire, hdb⟩ := fire_of_event errorText firedAt hevent
      obtain ⟨happended, hmarks⟩ := ih ⟨markFired firedAt timer.id s.timers, db,
        s.appended ++ [event]⟩
      have hsame : expected db = expected s.db := funext (expected_congr hdb)
      simp only [hsame] at happended hmarks
      simp only [fireAll, hfire, hexpected, hevent, List.takeWhile_cons, Option.isSome_some, if_true,
        List.filterMap_cons, List.map_cons, List.mem_cons]
      refine ⟨by rw [happended]; simp, fun key => ?_⟩
      rw [hmarks, find?_markFired, Option.map_map, markedId_of_rowToTimer hrow]
      congr 1
      funext r
      by_cases hkey : key = uuidText timer.id
      · by_cases hlater : some key ∈ (rows.takeWhile fun row => (expected s.db row).isSome).map markedId
        · simp [← hkey, hlater, TimerRow.mark]
        · simp [← hkey, hlater]
      · by_cases hlater : some key ∈ (rows.takeWhile fun row => (expected s.db row).isSome).map markedId
        · simp [hkey, hlater]
        · simp [hkey, hlater]

theorem markedId_eq {row : TimerRow} (h : ∃ id, row.id = uuidText id) :
    markedId row = some row.id := by
  obtain ⟨id, hid⟩ := h
  rw [markedId, hid, parseUuid_uuidText]

theorem exists_of_markedId {row : TimerRow} {key : String} (h : markedId row = some key) :
    ∃ id, key = uuidText id := by
  unfold markedId at h
  split at h
  · rename_i id _
    exact ⟨id, (Option.some.inj h).symm⟩
  · cases h

omit [TimerText] in
theorem find?_of_mem_dueRows {row : TimerRow} (h : row ∈ dueRows now s.timers) :
    s.timers.find? row.id = some row ∧ row.fired = 0 := by
  have hmem := (List.mem_insertionSort _).mp h
  rw [List.mem_filter] at hmem
  exact ⟨Table.find?_of_mem hmem.1, by simpa using (decide_eq_true_eq.mp hmem.2).1⟩

theorem tick_of_readable {due : List Timer} (h : listDue now s.timers = .ok due) :
    let run := (dueRows now s.timers).takeWhile fun row => (expected s.db row).isSome
    (tick errorText now firedAt s).2.appended = s.appended ++ run.filterMap (expected s.db) ∧
      ∀ row ∈ dueRows now s.timers,
        (∃ row', (tick errorText now firedAt s).2.timers.find? row.id = some row' ∧ row'.fired ≠ 0) ↔
          some row.id ∈ run.map markedId := by
  intro run
  have htick : tick errorText now firedAt s = fireAll errorText firedAt due s := by
    simp [tick, h]
  obtain ⟨happended, hmarks⟩ := fireAll_rows errorText firedAt (Fallible.forall₂_of_mapM h) s
  rw [htick]
  refine ⟨happended, fun row hrow => ?_⟩
  obtain ⟨hfind, hzero⟩ := find?_of_mem_dueRows hrow
  rw [hmarks, hfind]
  by_cases hin : some row.id ∈ run.map markedId
  · simp [run, hin, TimerRow.mark]
  · simp [run, hin, hzero]

/-- One tick fires and marks every due timer that could fire on its own exactly when there is none,
or every due row can be read, none that could fire comes after one that cannot, and those that
could fire have their ids written as ids are. -/
theorem tick_isolates_iff (errorText : BackendError → String) (now firedAt : String)
    (s : TimerSys) :
    Isolates now s (tick errorText now firedAt s).2 ↔
      (∀ row ∈ dueRows now s.timers, expected s.db row = none) ∨
      (∀ row ∈ dueRows now s.timers, ∃ timer, rowToTimer row = .ok timer) ∧
        (∀ row ∈ (dueRows now s.timers).dropWhile fun row => (expected s.db row).isSome,
          expected s.db row = none) ∧
        ∀ row ∈ dueRows now s.timers, (expected s.db row).isSome → ∃ id, row.id = uuidText id := by
  cases hdue : listDue now s.timers with
  | error e =>
    have htick : tick errorText now firedAt s = (.error e, s) := by simp [tick, hdue]
    obtain ⟨bad, hbad, hunread⟩ := Fallible.mapM_error hdue
    rw [htick]
    constructor
    · intro h
      obtain ⟨new, happended, hnew⟩ := h.fires
      have hnil : new = [] := List.append_right_eq_self.mp happended.symm
      rw [hnil] at hnew
      exact .inl (List.filterMap_eq_nil_iff.mp (List.subperm_nil.mp hnew))
    · rintro (hnone | ⟨hread, -⟩)
      · refine ⟨⟨[], by simp, ?_⟩, fun row hrow hsome => ?_⟩
        · rw [List.filterMap_eq_nil_iff.mpr hnone]
        · simp [hnone row hrow] at hsome
      · obtain ⟨timer, htimer⟩ := hread bad hbad
        rw [hunread] at htimer
        cases htimer
  | ok due =>
    obtain ⟨happended, hmarks⟩ := tick_of_readable errorText firedAt hdue
    have hread := Fallible.ok_of_mapM hdue
    constructor
    · intro h
      obtain ⟨new, hnew, hfires⟩ := h.fires
      rw [happended, List.append_cancel_left_eq] at hnew
      rw [← hnew, filterMap_takeWhile_iff] at hfires
      refine .inr ⟨hread, hfires, fun row hrow hsome => ?_⟩
      obtain ⟨r, -, hr⟩ := List.mem_map.mp ((hmarks row hrow).mp (h.marks row hrow hsome))
      exact exists_of_markedId hr
    · rintro (hnone | ⟨-, hrest, hwritten⟩)
      · refine ⟨⟨_, happended, ?_⟩, fun row hrow hsome => ?_⟩
        · rw [List.filterMap_eq_nil_iff.mpr hnone]
          exact List.nil_subperm
        · simp [hnone row hrow] at hsome
      · refine ⟨⟨_, happended, filterMap_takeWhile_iff.mpr hrest⟩, fun row hrow hsome => ?_⟩
        refine (hmarks row hrow).mpr (List.mem_map.mpr ⟨row, ?_, markedId_eq (hwritten row hrow hsome)⟩)
        have hsplit : (dueRows now s.timers).takeWhile (fun row => (expected s.db row).isSome) ++
            (dueRows now s.timers).dropWhile (fun row => (expected s.db row).isSome) =
              dueRows now s.timers := List.takeWhile_append_dropWhile
        rw [← hsplit] at hrow
        rcases List.mem_append.mp hrow with hrun | hlater
        · exact hrun
        · simp [hrest row hlater] at hsome

end Tick

/-- Ids in unary, and no times but one. -/
@[reducible]
def unaryText : TimerText where
  parseUuid s := if s.toList.all (· = 'a') then .ok s.length else .error "invalid character"
  uuidText n := String.ofList (List.replicate n 'a')
  parseUuid_uuidText n := by simp
  parseRfc3339 s := if s = "2026-01-01T00:00:00+00:00" then .ok 0 else .error "input is invalid"

def timerRow (id fireAt : String) : TimerRow where
  id := id
  executionId := "a"
  nodeId := "wait"
  fireAt := fireAt
  correlationKey := none
  fired := 0
  createdAt := "2026-01-01T00:00:00+00:00"
  firedAt := none

/-- Two due timers of one running execution; the row of the first has no date. -/
def withBadRow : TimerSys where
  timers := ⟨[timerRow "a" "", timerRow "aa" "2026-01-01T00:00:00+00:00"], by decide⟩
  db :=
    { executions := ⟨[⟨1, "wf", "1.0.0", .running, .object [], 0, none, "default", none, 0⟩],
        by decide⟩ }

/-- The second could fire, and the first keeps it from firing. -/
theorem bad_row_stops_all :
    timerRow "aa" "2026-01-01T00:00:00+00:00" ∈
        dueRows "2026-01-02T00:00:00+00:00" withBadRow.timers ∧
      @expected unaryText withBadRow.db (timerRow "aa" "2026-01-01T00:00:00+00:00") =
        some ⟨1, "wait", none⟩ ∧
      @tick unaryText (fun _ => "") "2026-01-02T00:00:00+00:00" "" withBadRow =
        (.error "bad datetime '': input is invalid", withBadRow) := by
  have hdue : @listDue unaryText "2026-01-02T00:00:00+00:00" withBadRow.timers =
      .error "bad datetime '': input is invalid" := by
    decide +kernel
  refine ⟨by decide +kernel, by decide +kernel, ?_⟩
  simp only [tick, hdue]

end JamJet.Timers
