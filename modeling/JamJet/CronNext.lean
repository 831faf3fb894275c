import JamJet.Fallible
import JamJet.Gregorian
import JamJet.Validate
import Mathlib.Data.Prod.Lex
import Mathlib.Order.Bounds.Basic

/-! Cron expressions: their five fields, the search for the next fire time, and what a tick of the
cron scheduler makes of its outcome. -/

namespace JamJet.Cron

open Condition (isWhiteSpace parseU32)
open Fallible (bind_eq_ok)
open Gregorian (dateOf weekday)

/-- An instant: the minute it lies in, counted from the epoch, and the nanoseconds into it, among
which a leap second counts. -/
structure DateTime where
  minute : ℤ
  nanos : ℕ
  deriving DecidableEq, Repr

namespace DateTime

theorem lex_injective :
    Function.Injective fun t : DateTime => (toLex (t.minute, t.nanos) : ℤ ×ₗ ℕ) := by
  rintro ⟨m, n⟩ ⟨m', n'⟩ h
  simpa using h

instance : LinearOrder DateTime :=
  LinearOrder.lift' (fun t => (toLex (t.minute, t.nanos) : ℤ ×ₗ ℕ)) lex_injective

theorem lt_iff {t u : DateTime} :
    t < u ↔ t.minute < u.minute ∨ t.minute = u.minute ∧ t.nanos < u.nanos :=
  Prod.Lex.toLex_lt_toLex

theorem le_iff {t u : DateTime} :
    t ≤ u ↔ t.minute < u.minute ∨ t.minute = u.minute ∧ t.nanos ≤ u.nanos :=
  Prod.Lex.toLex_le_toLex

/-- The last minute a `DateTime` can hold. -/
def lastMinute : ℤ :=
  (Gregorian.Date.mk 262142 12 31 (by decide) (by decide) (by decide)).toDay * 1440 + 1439

/-- One minute later; past the last minute the addition panics. -/
def addMinute (minute : ℤ) : Option ℤ := if minute < lastMinute then some (minute + 1) else none

end DateTime

open DateTime (lastMinute addMinute)

/-! ### The fields -/

/-- `(min..=max)`, or every so many of it. -/
def inclusive (min max step : ℕ) : List ℕ := List.range' min ((max - min) / step + 1) step

/-- `splitn(2, '-')` of a part with a dash. -/
def beforeDash (part : List Char) : List Char := part.takeWhile (· ≠ '-')

def afterDash (part : List Char) : List Char := (part.dropWhile (· ≠ '-')).tail

/-- The values of one of the comma-separated parts of a field. -/
def partValues (min max : ℕ) (part : List Char) : Except String (List ℕ) :=
  match part with
  | ['*'] => .ok (inclusive min max 1)
  | '*' :: '/' :: stepPart =>
      match parseU32 stepPart with
      | none => .error ("bad step: " ++ String.ofList part)
      | some step =>
          if step = 0 then .error ("step cannot be 0 in: " ++ String.ofList part)
          else .ok (inclusive min max step)
  | part =>
      if '-' ∈ part then
        match parseU32 (beforeDash part) with
        | none => .error ("bad range start: " ++ String.ofList part)
        | some lo =>
            match parseU32 (afterDash part) with
            | none => .error ("bad range end: " ++ String.ofList part)
            | some hi =>
                if lo > hi ∨ lo < min ∨ hi > max then
                  .error ("range out of bounds [" ++ toString min ++ "-" ++ toString max ++ "]: " ++
                    String.ofList part)
                else .ok (inclusive lo hi 1)
      else
        match parseU32 part with
        | none => .error ("bad cron field value: " ++ String.ofList part)
        | some n =>
            if n < min ∨ n > max then
              .error ("value " ++ toString n ++ " out of [" ++ toString min ++ "-" ++ toString max ++
                "]")
            else .ok [n]

def parseField (field : List Char) (min max : ℕ) : Except String (List ℕ) := do
  let values ← (field.splitOn ',').mapM (partValues min max)
  return (values.flatten.insertionSort (· ≤ ·)).dedup

/-- The values of the five fields. -/
structure Schedule where
  minutes : List ℕ
  hours : List ℕ
  doms : List ℕ
  months : List ℕ
  dows : List ℕ
  deriving DecidableEq, Repr

def splitWhitespace (s : List Char) : List (List Char) :=
  (s.splitOnP isWhiteSpace).filter fun word => !word.isEmpty

def parseExpression (expr : String) : Except String Schedule :=
  match splitWhitespace expr.toList with
  | [minute, hour, dom, month, dow] => do
      let minutes ← parseField minute 0 59
      let hours ← parseField hour 0 23
      let doms ← parseField dom 1 31
      let months ← parseField month 1 12
      let dows ← parseField dow 0 6
      return ⟨minutes, hours, doms, months, dows⟩
  | fields => .error ("cron: expected 5 fields, got " ++ toString fields.length ++ ": " ++ expr)

/-! ### The search -/

/-- The day of a minute, and the hour and the minute of it. -/
def dayOf (minute : ℤ) : ℤ := minute / 1440

def hourOf (minute : ℤ) : ℕ := (minute / 60 % 24).toNat

def minuteOfHour (minute : ℤ) : ℕ := (minute % 60).toNat

/-- Whether all the fields hold at a minute. -/
def Schedule.holdsAt (s : Schedule) (candidate : ℤ) : Bool :=
  let date := dateOf (dayOf candidate)
  s.months.contains date.month && s.doms.contains date.day &&
    s.dows.contains (weekday (dayOf candidate)) && s.hours.contains (hourOf candidate) &&
    s.minutes.contains (minuteOfHour candidate)

/-- So many minutes, one after the other: the first at which the schedule holds, if one does.
Nothing at all is returned when the addition panics. -/
def Schedule.scan (s : Schedule) : ℕ → ℤ → Option (Option ℤ)
  | 0, _ => some none
  | steps + 1, candidate =>
      if s.holdsAt candidate then some (some candidate)
      else (addMinute candidate).bind (s.scan steps)

/-- How far the search looks, in minutes. -/
def horizon : ℕ := 366 * 24 * 60

/-- The next fire time after an instant; nothing is returned when the search panics. -/
def cronNext (expr : String) (start : DateTime) : Option (Except String DateTime) :=
  match parseExpression expr with
  | .error msg => some (.error msg)
  | .ok schedule =>
      ((addMinute start.minute).bind (schedule.scan horizon)).map fun found =>
        match found with
        | some minute => .ok ⟨minute, 0⟩
        | none => .error ("cron: no next time found in 366 days for: " ++ expr)

/-! ### The scheduler -/

structure CronJob where
  cronExpression : String
  enabled : Bool
  lastRunAt : Option DateTime
  nextRunAt : DateTime
  deriving DecidableEq, Repr

/-- What the tick writes to a due job after its start: the next fire time, or that it is off.
Nothing is written when the search panics.  `now` is read before the search, `ranAt` at the
write. -/
def afterStart (now ranAt : DateTime) (job : CronJob) : Option CronJob :=
  (cronNext job.cronExpression now).map fun next =>
    match next with
    | .ok next => { job with lastRunAt := some ranAt, nextRunAt := next }
    | .error _ => { job with enabled := false }

/-! ### What the fields denote -/

section Fields

variable {min max v : ℕ} {part : List Char} {values : List ℕ}

/-- The values a part stands for: all of them, every so many from the least, a range, or one. -/
def Covers (min max : ℕ) (part : List Char) (v : ℕ) : Prop :=
  min ≤ v ∧ v ≤ max ∧
    (part = ['*'] ∨
      (∃ text step, part = '*' :: '/' :: text ∧ parseU32 text = some step ∧ step ∣ v - min) ∨
      (∃ a b lo hi, part = a ++ '-' :: b ∧ parseU32 a = some lo ∧ parseU32 b = some hi ∧ lo ≤ v ∧
        v ≤ hi) ∨
      parseU32 part = some v)

/-- The set a field denotes. -/
def fieldSet (min max : ℕ) (field : List Char) : Set ℕ :=
  {v | ∃ part ∈ field.splitOn ',', Covers min max part v}

theorem mem_inclusive {step : ℕ} (hle : min ≤ max) (hstep : 0 < step) :
    v ∈ inclusive min max step ↔ min ≤ v ∧ v ≤ max ∧ step ∣ v - min := by
  rw [inclusive, List.mem_range']
  constructor
  · rintro ⟨i, hi, rfl⟩
    have hbound : step * i ≤ max - min :=
      (Nat.mul_le_mul_left step (Nat.le_of_lt_succ hi)).trans (Nat.mul_div_le _ _)
    refine ⟨by omega, by omega, ?_⟩
    rw [Nat.add_sub_cancel_left]
    exact Nat.dvd_mul_right step i
  · rintro ⟨hmin, hmax, i, hi⟩
    refine ⟨i, ?_, by omega⟩
    rw [Nat.lt_succ_iff, Nat.le_div_iff_mul_le hstep, Nat.mul_comm]
    omega

theorem mem_of_parseU32 {n : ℕ} (h : parseU32 part = some n) :
    part ≠ [] ∧ ∀ c ∈ part, c = '+' ∨ c.isDigit = true := by
  have hdigits : ∀ digits : List Char,
      (if (!digits.isEmpty && digits.all Char.isDigit &&
        decide (Nat.ofDigitChars 10 digits 0 < 2 ^ 32)) = true
        then some (Nat.ofDigitChars 10 digits 0) else none) = some n →
      digits ≠ [] ∧ ∀ c ∈ digits, c.isDigit = true := by
    intro digits hd
    split at hd
    · rename_i hcond
      simp only [Bool.and_eq_true, List.all_eq_true] at hcond
      refine ⟨?_, hcond.1.2⟩
      rintro rfl
      simp at hcond
    · cases hd
  unfold parseU32 at h
  split at h
  · obtain ⟨-, hall⟩ := hdigits _ h
    refine ⟨by simp, fun c hc => ?_⟩
    rcases List.mem_cons.mp hc with rfl | hc
    · exact .inl rfl
    · exact .inr (hall c hc)
  · obtain ⟨hne, hall⟩ := hdigits _ h
    exact ⟨hne, fun c hc => .inr (hall c hc)⟩

theorem parseU32_star (text : List Char) : parseU32 ('*' :: text) = none := by
  cases h : parseU32 ('*' :: text) with
  | none => rfl
  | some n =>
    have := (mem_of_parseU32 h).2 '*' (by simp)
    simp at this

theorem dash_not_mem_of_parseU32 {n : ℕ} (h : parseU32 part = some n) : '-' ∉ part := by
  intro hdash
  have := (mem_of_parseU32 h).2 '-' hdash
  simp at this

theorem split_dash {a b : List Char} (ha : '-' ∉ a) :
    beforeDash (a ++ '-' :: b) = a ∧ afterDash (a ++ '-' :: b) = b := by
  have hall : ∀ c ∈ a, decide (c ≠ '-') = true := by
    intro c hc
    have hne : c ≠ '-' := fun heq => ha (heq ▸ hc)
    simpa using hne
  constructor
  · rw [beforeDash, List.takeWhile_append_of_pos hall]
    simp
  · rw [afterDash, List.dropWhile_append_of_pos hall]
    simp

theorem dash_split (h : '-' ∈ part) :
    part = beforeDash part ++ '-' :: afterDash part := by
  obtain ⟨a, b, rfl, ha⟩ := List.eq_append_cons_of_mem h
  rw [(split_dash ha).1, (split_dash ha).2]

theorem range_iff {P : ℕ → ℕ → Prop} :
    (∃ a b lo hi, part = a ++ '-' :: b ∧ parseU32 a = some lo ∧ parseU32 b = some hi ∧ P lo hi) ↔
      '-' ∈ part ∧ ∃ lo hi, parseU32 (beforeDash part) = some lo ∧
        parseU32 (afterDash part) = some hi ∧ P lo hi := by
  constructor
  · rintro ⟨a, b, lo, hi, rfl, hlo, hhi, hP⟩
    obtain ⟨ha, hb⟩ := split_dash (b := b) (dash_not_mem_of_parseU32 hlo)
    refine ⟨by simp, lo, hi, ?_, ?_, hP⟩
    · rw [ha]
      exact hlo
    · rw [hb]
      exact hhi
  · rintro ⟨hdash, lo, hi, hlo, hhi, hP⟩
    exact ⟨_, _, lo, hi, dash_split hdash, hlo, hhi, hP⟩

theorem mem_partValues (hle : min ≤ max) (h : partValues min max part = .ok values) :
    v ∈ values ↔ Covers min max part v := by
  unfold partValues at h
  split at h
  · cases h
    simp [mem_inclusive hle, Covers]
  · rename_i text
    have hnumber : parseU32 ('*' :: '/' :: text) = none := parseU32_star _
    have hrange : ¬ ∃ a b lo hi, '*' :: '/' :: text = a ++ '-' :: b ∧ parseU32 a = some lo ∧
        parseU32 b = some hi ∧ lo ≤ v ∧ v ≤ hi := by
      rintro ⟨a, b, lo, hi, heq, hlo, -⟩
      cases a with
      | nil => simp at heq
      | cons c a =>
        obtain ⟨rfl, -⟩ := List.cons.inj heq
        rw [parseU32_star] at hlo
        cases hlo
    cases hstep : parseU32 text with
    | none => simp [hstep] at h
    | some step =>
      by_cases hzero : step = 0
      · simp [hstep, hzero] at h
      · simp only [hstep, hzero, if_false, Except.ok.injEq] at h
        rw [← h, mem_inclusive hle (Nat.pos_of_ne_zero hzero), Covers]
        simp only [hnumber, hrange]
        simp [hstep]
  · rename_i hstar hslash
    have hstar : part ≠ ['*'] := hstar
    have hform : ¬ ∃ text step, part = '*' :: '/' :: text ∧ parseU32 text = some step ∧
        step ∣ v - min := by
      rintro ⟨text, step, heq, -⟩
      exact hslash text heq
    have hcovers : Covers min max part v ↔ min ≤ v ∧ v ≤ max ∧
        (('-' ∈ part ∧ ∃ lo hi, parseU32 (beforeDash part) = some lo ∧
          parseU32 (afterDash part) = some hi ∧ lo ≤ v ∧ v ≤ hi) ∨
          parseU32 part = some v) := by
      rw [Covers, range_iff]
      simp only [hform, hstar, false_or]
    rw [hcovers]
    by_cases hdash : '-' ∈ part
    · have hnumber : parseU32 part ≠ some v := fun hn => dash_not_mem_of_parseU32 hn hdash
      simp only [hdash, if_true] at h
      cases hlo : parseU32 (beforeDash part) with
      | none => simp [hlo] at h
      | some lo =>
        cases hhi : parseU32 (afterDash part) with
        | none => simp [hlo, hhi] at h
        | some hi =>
          simp only [hlo, hhi] at h
          split at h
          · cases h
          · rename_i hbounds
            push Not at hbounds
            obtain ⟨h₁, h₂, h₃⟩ := hbounds
            cases h
            rw [mem_inclusive h₁ Nat.one_pos]
            simp only [hdash, hnumber, true_and, or_false, Option.some.injEq, exists_and_left,
              exists_eq_left', one_dvd, and_true]
            omega
    · simp only [hdash, if_false] at h
      cases hn : parseU32 part with
      | none => simp [hn] at h
      | some n =>
        simp only [hn] at h
        split at h
        · cases h
        · rename_i hbounds
          cases h
          simp only [hdash, false_and, false_or, List.mem_singleton, Option.some.injEq]
          omega

theorem mem_flatten_of_mapM {parts : List (List Char)} {lists : List (List ℕ)} (hle : min ≤ max)
    (h : parts.mapM (partValues min max) = .ok lists) :
    v ∈ lists.flatten ↔ ∃ part ∈ parts, Covers min max part v := by
  induction parts generalizing lists with
  | nil =>
    cases h
    simp
  | cons part parts ih =>
    rw [List.mapM_cons] at h
    obtain ⟨values, hpart, h⟩ := bind_eq_ok.mp h
    obtain ⟨rest, hparts, h⟩ := bind_eq_ok.mp h
    cases h
    rw [List.flatten_cons, List.mem_append, mem_partValues hle hpart, ih hparts]
    simp

theorem mem_parseField {field : List Char} (hle : min ≤ max)
    (h : parseField field min max = .ok values) : v ∈ values ↔ v ∈ fieldSet min max field := by
  obtain ⟨lists, hparts, h⟩ := bind_eq_ok.mp h
  cases h
  rw [List.mem_dedup, List.mem_insertionSort, mem_flatten_of_mapM hle hparts]
  rfl

end Fields

/-- The expression can be read. -/
def WellFormed (expr : String) : Prop := ∃ schedule, parseExpression expr = .ok schedule

/-- The minute lies in the sets the five fields denote. -/
def Denotes (expr : String) (minute : ℤ) : Prop :=
  ∃ minutes hours doms months dows,
    splitWhitespace expr.toList = [minutes, hours, doms, months, dows] ∧
    minuteOfHour minute ∈ fieldSet 0 59 minutes ∧ hourOf minute ∈ fieldSet 0 23 hours ∧
    (dateOf (dayOf minute)).day ∈ fieldSet 1 31 doms ∧
    (dateOf (dayOf minute)).month ∈ fieldSet 1 12 months ∧
    weekday (dayOf minute) ∈ fieldSet 0 6 dows

section Search

variable {expr : String} {start : DateTime} {schedule : Schedule}

theorem parseExpression_fields (h : parseExpression expr = .ok schedule) :
    ∃ minutes hours doms months dows,
      splitWhitespace expr.toList = [minutes, hours, doms, months, dows] ∧
      parseField minutes 0 59 = .ok schedule.minutes ∧ parseField hours 0 23 = .ok schedule.hours ∧
      parseField doms 1 31 = .ok schedule.doms ∧ parseField months 1 12 = .ok schedule.months ∧
      parseField dows 0 6 = .ok schedule.dows := by
  unfold parseExpression at h
  split at h
  · rename_i minutes hours doms months dows hwords
    obtain ⟨ms, hms, h⟩ := bind_eq_ok.mp h
    obtain ⟨hs, hhs, h⟩ := bind_eq_ok.mp h
    obtain ⟨ds, hds, h⟩ := bind_eq_ok.mp h
    obtain ⟨mons, hmons, h⟩ := bind_eq_ok.mp h
    obtain ⟨ws, hws, h⟩ := bind_eq_ok.mp h
    cases h
    exact ⟨minutes, hours, doms, months, dows, hwords, hms, hhs, hds, hmons, hws⟩
  · cases h

theorem holdsAt_iff (h : parseExpression expr = .ok schedule) (minute : ℤ) :
    schedule.holdsAt minute = true ↔ Denotes expr minute := by
  obtain ⟨minutes, hours, doms, months, dows, hwords, hms, hhs, hds, hmons, hws⟩ :=
    parseExpression_fields h
  have hholds : schedule.holdsAt minute = true ↔
      (dateOf (dayOf minute)).month ∈ fieldSet 1 12 months ∧
      (dateOf (dayOf minute)).day ∈ fieldSet 1 31 doms ∧
      weekday (dayOf minute) ∈ fieldSet 0 6 dows ∧ hourOf minute ∈ fieldSet 0 23 hours ∧
      minuteOfHour minute ∈ fieldSet 0 59 minutes := by
    rw [← mem_parseField (by decide) hms, ← mem_parseField (by decide) hhs,
      ← mem_parseField (by decide) hds, ← mem_parseField (by decide) hmons,
      ← mem_parseField (by decide) hws]
    simp [Schedule.holdsAt, and_assoc]
  rw [hholds]
  constructor
  · rintro ⟨hmonth, hdom, hdow, hhour, hminute⟩
    exact ⟨minutes, hours, doms, months, dows, hwords, hminute, hhour, hdom, hmonth, hdow⟩
  · rintro ⟨minutes', hours', doms', months', dows', hwords', hminute, hhour, hdom, hmonth, hdow⟩
    rw [hwords] at hwords'
    simp only [List.cons.injEq, and_true] at hwords'
    obtain ⟨rfl, rfl, rfl, rfl, rfl⟩ := hwords'
    exact ⟨hmonth, hdom, hdow, hhour, hminute⟩

/-- The search finds the first minute at which the schedule holds, or there is none among those it
looks at, or there is none up to the last one and it panics. -/
theorem scan_cases (schedule : Schedule) (steps : ℕ) {candidate : ℤ} (hlast : candidate ≤ lastMinute) :
    (∃ t, schedule.scan steps candidate = some (some t) ∧ candidate ≤ t ∧ t < candidate + steps ∧
      t ≤ lastMinute ∧ schedule.holdsAt t = true ∧
      ∀ u, candidate ≤ u → u < t → schedule.holdsAt u = false) ∨
    (schedule.scan steps candidate = some none ∧
      ∀ u, candidate ≤ u → u < candidate + steps → schedule.holdsAt u = false) ∨
    schedule.scan steps candidate = none ∧
      ∀ u, candidate ≤ u → u ≤ lastMinute → schedule.holdsAt u = false := by
  induction steps generalizing candidate with
  | zero => exact .inr (.inl ⟨rfl, fun u h₁ h₂ => by omega⟩)
  | succ steps ih =>
    unfold Schedule.scan
    cases hholds : schedule.holdsAt candidate with
    | true =>
      refine .inl ⟨candidate, rfl, le_rfl, by omega, hlast, hholds, fun u h₁ h₂ => by omega⟩
    | false =>
      have hstep : ∀ u, candidate ≤ u → u = candidate ∨ candidate + 1 ≤ u := fun u h => by omega
      by_cases hnext : candidate < lastMinute
      · have hadd : addMinute candidate = some (candidate + 1) := by simp [addMinute, hnext]
        simp only [hadd, Bool.false_eq_true, if_false, Option.bind_some]
        rcases ih (by omega : candidate + 1 ≤ lastMinute) with
          ⟨t, hscan, h₁, h₂, h₃, hholds', hbefore⟩ | ⟨hscan, hnone⟩ | ⟨hscan, hnone⟩
        · refine .inl ⟨t, hscan, by omega, by omega, h₃, hholds', fun u hu hut => ?_⟩
          rcases hstep u hu with rfl | hu
          · exact hholds
          · exact hbefore u hu hut
        · refine .inr (.inl ⟨hscan, fun u hu hun => ?_⟩)
          rcases hstep u hu with rfl | hu
          · exact hholds
          · exact hnone u hu (by omega)
        · refine .inr (.inr ⟨hscan, fun u hu hul => ?_⟩)
          rcases hstep u hu with rfl | hu
          · exact hholds
          · exact hnone u hu hul
      · have hadd : addMinute candidate = none := by simp [addMinute, hnext]
        simp only [hadd, Bool.false_eq_true, if_false, Option.bind_none]
        refine .inr (.inr ⟨trivial, fun u hu hul => ?_⟩)
        rcases hstep u hu with rfl | hu
        · exact hholds
        · omega

/-- The whole minutes after an instant at which the expression holds. -/
def matching (expr : String) (start : DateTime) : Set DateTime :=
  {t | start < t ∧ t.nanos = 0 ∧ t.minute ≤ lastMinute ∧ Denotes expr t.minute}

theorem mem_matching {t : DateTime} (h : parseExpression expr = .ok schedule) :
    t ∈ matching expr start ↔
      start.minute + 1 ≤ t.minute ∧ t.nanos = 0 ∧ t.minute ≤ lastMinute ∧
        schedule.holdsAt t.minute = true := by
  rw [holdsAt_iff h]
  have hlt : t.nanos = 0 → (start < t ↔ start.minute + 1 ≤ t.minute) := by
    intro hzero
    rw [DateTime.lt_iff, hzero]
    omega
  constructor
  · rintro ⟨h₁, h₂, h₃, h₄⟩
    exact ⟨(hlt h₂).mp h₁, h₂, h₃, h₄⟩
  · rintro ⟨h₁, h₂, h₃, h₄⟩
    exact ⟨(hlt h₂).mpr h₁, h₂, h₃, h₄⟩

/-- What a readable expression comes to: its least match, or an error when every match lies beyond
the horizon, or a panic when there is none at all. -/
theorem cronNext_cases (start : DateTime) (h : parseExpression expr = .ok schedule) :
    (∃ t, cronNext expr start = some (.ok t) ∧ IsLeast (matching expr start) t ∧
      t.minute ≤ start.minute + horizon) ∨
    ((∃ msg, cronNext expr start = some (.error msg)) ∧
      ∀ t ∈ matching expr start, start.minute + horizon < t.minute) ∨
    cronNext expr start = none ∧ matching expr start = ∅ := by
  unfold cronNext
  simp only [h]
  by_cases hlast : start.minute < lastMinute
  · have hadd : addMinute start.minute = some (start.minute + 1) := by simp [addMinute, hlast]
    rw [hadd, Option.bind_some]
    rcases scan_cases schedule horizon (by omega : start.minute + 1 ≤ lastMinute) with
      ⟨t, hscan, h₁, h₂, h₃, hholds, hbefore⟩ | ⟨hscan, hnone⟩ | ⟨hscan, hnone⟩
    · refine .inl ⟨⟨t, 0⟩, by rw [hscan]; rfl, ⟨(mem_matching h).mpr ⟨h₁, rfl, h₃, hholds⟩, ?_⟩,
        by simp only; omega⟩
      intro u hu
      obtain ⟨hu₁, hu₂, -, hu₄⟩ := (mem_matching h).mp hu
      rw [DateTime.le_iff, hu₂]
      by_contra hlt
      have hfalse := hbefore u.minute hu₁ (by simp only [] at hlt; omega)
      rw [hu₄] at hfalse
      cases hfalse
    · refine .inr (.inl ⟨⟨_, by rw [hscan]; rfl⟩, fun u hu => ?_⟩)
      obtain ⟨hu₁, -, -, hu₄⟩ := (mem_matching h).mp hu
      by_contra hlt
      have hfalse := hnone u.minute hu₁ (by omega)
      rw [hu₄] at hfalse
      cases hfalse
    · refine .inr (.inr ⟨by rw [hscan]; rfl, Set.eq_empty_iff_forall_notMem.mpr fun u hu => ?_⟩)
      obtain ⟨hu₁, -, hu₃, hu₄⟩ := (mem_matching h).mp hu
      have hfalse := hnone u.minute hu₁ hu₃
      rw [hu₄] at hfalse
      cases hfalse
  · have hadd : addMinute start.minute = none := by simp [addMinute, hlast]
    refine .inr (.inr ⟨by rw [hadd]; rfl, Set.eq_empty_iff_forall_notMem.mpr fun u hu => ?_⟩)
    obtain ⟨hu₁, -, hu₃, -⟩ := (mem_matching h).mp hu
    omega

end Search

/-- The fire time is the least match, an error means a bad field or no match at all, and no job with
a match to come is switched off. -/
structure LeastNext (expr : String) (start : DateTime) : Prop where
  ok_iff : ∀ t, cronNext expr start = some (.ok t) ↔
    WellFormed expr ∧ IsLeast (matching expr start) t
  error : ∀ msg, cronNext expr start = some (.error msg) →
    ¬ WellFormed expr ∨ matching expr start = ∅
  stays : ∀ ranAt job, job.cronExpression = expr → job.enabled = true → WellFormed expr →
    (matching expr start).Nonempty →
      ∃ job', afterStart start ranAt job = some job' ∧ job'.enabled = true

/-- The search does what it is for exactly when the expression cannot be read, or never matches
again, or matches within the 366 days the search looks at. -/
theorem leastNext_iff (expr : String) (start : DateTime) :
    LeastNext expr start ↔ ¬ WellFormed expr ∨ matching expr start = ∅ ∨
      ∃ t ∈ matching expr start, t.minute ≤ start.minute + horizon := by
  by_cases hwf : WellFormed expr
  · obtain ⟨schedule, h⟩ := hwf
    have hwf : WellFormed expr := ⟨schedule, h⟩
    rcases cronNext_cases start h with
      ⟨t, hnext, hleast, hnear⟩ | ⟨⟨msg, hnext⟩, hfar⟩ | ⟨hnext, hnone⟩
    · refine iff_of_true ⟨fun u => ?_, fun msg herr => ?_, fun ranAt job hexpr hon _ _ => ?_⟩
        (.inr (.inr ⟨t, hleast.1, hnear⟩))
      · constructor
        · intro hu
          rw [hnext] at hu
          cases hu
          exact ⟨hwf, hleast⟩
        · rintro ⟨-, hu⟩
          rw [hnext, hleast.unique hu]
      · rw [hnext] at herr
        cases herr
      · refine ⟨{ job with lastRunAt := some ranAt, nextRunAt := t }, ?_, hon⟩
        rw [afterStart, hexpr, hnext]
        rfl
    · constructor
      · intro hspec
        rcases hspec.error msg hnext with hbad | hempty
        · exact .inl hbad
        · exact .inr (.inl hempty)
      · rintro (hbad | hempty | ⟨t, ht, hnear⟩)
        · exact absurd hwf hbad
        · refine ⟨fun u => ?_, fun _ _ => .inr hempty, fun ranAt job _ _ _ hsome => ?_⟩
          · rw [hnext, hempty]
            simp [IsLeast]
          · rw [hempty] at hsome
            exact absurd hsome Set.not_nonempty_empty
        · exact absurd (hfar t ht) (not_lt.mpr hnear)
    · refine iff_of_true ⟨fun u => ?_, fun _ _ => .inr hnone, fun ranAt job _ _ _ hsome => ?_⟩
        (.inr (.inl hnone))
      · rw [hnext, hnone]
        simp [IsLeast]
      · rw [hnone] at hsome
        exact absurd hsome Set.not_nonempty_empty
  · have hbad : ∃ msg, cronNext expr start = some (.error msg) := by
      cases h : parseExpression expr with
      | error msg => exact ⟨msg, by simp [cronNext, h]⟩
      | ok schedule => exact absurd ⟨schedule, h⟩ hwf
    obtain ⟨msg, hnext⟩ := hbad
    refine iff_of_true ⟨fun u => ?_, fun _ _ => .inl hwf, fun _ _ _ _ h => absurd h hwf⟩ (.inl hwf)
    rw [hnext]
    simp [hwf]

/-- Midnight of a day. -/
def midnight (day : ℤ) : DateTime := ⟨day * 1440, 0⟩

/-- Every leap day at midnight, asked for on the first of March 2025: the next one is in 2028, and
the job is switched off. -/
theorem leap_day_not_found :
    (dateOf 20148).year = 2025 ∧ (dateOf 20148).month = 3 ∧ (dateOf 20148).day = 1 ∧
      WellFormed "0 0 29 2 *" ∧ midnight 21243 ∈ matching "0 0 29 2 *" (midnight 20148) ∧
      ∃ msg, cronNext "0 0 29 2 *" (midnight 20148) = some (.error msg) := by
  have hparse : parseExpression "0 0 29 2 *" =
      .ok ⟨[0], [0], [29], [2], [0, 1, 2, 3, 4, 5, 6]⟩ := by
    decide +kernel
  have hmatch : midnight 21243 ∈ matching "0 0 29 2 *" (midnight 20148) :=
    (mem_matching hparse).mpr ⟨by decide +kernel, rfl, by decide +kernel, by decide +kernel⟩
  -- No day of the year to come is a leap day.
  have hdays : ∀ i < 367, ¬ ((dateOf (20148 + (i : ℕ))).month = 2 ∧
      (dateOf (20148 + (i : ℕ))).day = 29) := by
    decide +kernel
  refine ⟨by decide +kernel, by decide +kernel, by decide +kernel, ⟨_, hparse⟩, hmatch, ?_⟩
  rcases cronNext_cases (midnight 20148) hparse with
    ⟨t, -, hleast, hnear⟩ | ⟨herror, -⟩ | ⟨-, hnone⟩
  · obtain ⟨hafter, -, -, hholds⟩ := (mem_matching hparse).mp hleast.1
    obtain ⟨i, hi⟩ : ∃ i : ℕ, dayOf t.minute = 20148 + i :=
      ⟨(dayOf t.minute - 20148).toNat, by simp only [dayOf, midnight] at hafter ⊢; omega⟩
    have hday : (dateOf (dayOf t.minute)).month = 2 ∧ (dateOf (dayOf t.minute)).day = 29 := by
      simp only [Schedule.holdsAt, Bool.and_eq_true, List.contains_iff_mem,
        List.mem_singleton] at hholds
      exact ⟨hholds.1.1.1.1, hholds.1.1.1.2⟩
    have hbound : i < 367 := by
      simp only [horizon, midnight, dayOf] at hnear hi
      omega
    rw [hi] at hday
    exact absurd hday (hdays i hbound)
  · exact herror
  · rw [hnone] at hmatch
    cases hmatch

end JamJet.Cron
