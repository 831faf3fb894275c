import Mathlib.Algebra.Order.Ring.Int
import Mathlib.Tactic.Common

/-! The Gregorian calendar, continued to all years: dates, and days counted from the first of
January 1970. -/

namespace JamJet.Gregorian

def isLeap (year : ℤ) : Bool := year % 4 = 0 ∧ (year % 100 ≠ 0 ∨ year % 400 = 0)

def monthLengths (year : ℤ) : List ℕ :=
  [31, if isLeap year then 29 else 28, 31, 30, 31, 30, 31, 31, 30, 31, 30, 31]

/-- The days of the years before this one, counted from year 1. -/
def daysBefore (year : ℤ) : ℤ :=
  365 * (year - 1) + (year - 1) / 4 - (year - 1) / 100 + (year - 1) / 400

/-- The day 1970-01-01, counted from 0001-01-01. -/
def epoch : ℤ := daysBefore 1970

structure Date where
  year : ℤ
  month : ℕ
  day : ℕ
  month_pos : 1 ≤ month
  day_pos : 1 ≤ day
  /-- The month is one of the twelve, and the day is one of its days. -/
  day_le : day ≤ (monthLengths year).getD (month - 1) 0

/-- The days from 1970-01-01 to a date. -/
def Date.toDay (d : Date) : ℤ :=
  daysBefore d.year + ((monthLengths d.year).take (d.month - 1)).sum + (d.day - 1) - epoch

theorem daysBefore_succ (year : ℤ) :
    daysBefore (year + 1) = daysBefore year + (monthLengths year).sum := by
  have hsum : ((monthLengths year).sum : ℤ) = if isLeap year then 366 else 365 := by
    unfold monthLengths
    cases isLeap year <;> rfl
  rw [hsum]
  unfold daysBefore isLeap
  by_cases h4 : year % 4 = 0
  · by_cases h100 : year % 100 = 0
    · by_cases h400 : year % 400 = 0
      · simp only [h4, h400, or_true, and_self, decide_true, if_true]
        omega
      · simp only [h4, h100, h400, ne_eq, not_true_eq_false, or_self, and_false, decide_false,
          Bool.false_eq_true, if_false]
        omega
    · simp only [h4, h100, ne_eq, not_false_eq_true, true_or, and_self, decide_true, if_true]
      omega
  · simp only [h4, false_and, decide_false, Bool.false_eq_true, if_false]
    omega

/-- The year of a day counted from 0001-01-01: an estimate by the mean length of a year, which is
at most one too low. -/
def yearOf (n : ℤ) : ℤ :=
  let estimate := n * 400 / 146097 + 1
  if daysBefore (estimate + 1) ≤ n then estimate + 1 else estimate

theorem yearOf_spec (n : ℤ) : daysBefore (yearOf n) ≤ n ∧ n < daysBefore (yearOf n + 1) := by
  unfold yearOf
  dsimp only
  split
  · rename_i h
    refine ⟨h, ?_⟩
    unfold daysBefore
    omega
  · rename_i h
    refine ⟨?_, by omega⟩
    unfold daysBefore
    omega

/-- A day of the year as a month and a day of it, both counted from zero. -/
def splitDay : List ℕ → ℕ → ℕ × ℕ
  | [], day => (0, day)
  | length :: rest, day =>
      if day < length then (0, day)
      else
        let (month, day) := splitDay rest (day - length)
        (month + 1, day)

theorem splitDay_spec {lengths : List ℕ} {day : ℕ} (h : day < lengths.sum) :
    (splitDay lengths day).2 < lengths.getD (splitDay lengths day).1 0 ∧
      (lengths.take (splitDay lengths day).1).sum + (splitDay lengths day).2 = day := by
  induction lengths generalizing day with
  | nil => simp at h
  | cons length rest ih =>
    unfold splitDay
    by_cases hday : day < length
    · simp [hday]
    · have hrest : day - length < rest.sum := by
        rw [List.sum_cons] at h
        omega
      obtain ⟨hlt, hsum⟩ := ih hrest
      simp only [hday, if_false]
      refine ⟨by simpa using hlt, ?_⟩
      simp only [List.take_succ_cons, List.sum_cons]
      omega

/-- The day of the year of a day counted from 0001-01-01. -/
def dayOfYear (n : ℤ) : ℕ := (n - daysBefore (yearOf n)).toNat

theorem dayOfYear_lt (n : ℤ) : dayOfYear n < (monthLengths (yearOf n)).sum := by
  obtain ⟨hle, hlt⟩ := yearOf_spec n
  rw [daysBefore_succ] at hlt
  unfold dayOfYear
  omega

/-- The date of a day counted from 1970-01-01. -/
def dateOf (n : ℤ) : Date where
  year := yearOf (n + epoch)
  month := (splitDay (monthLengths (yearOf (n + epoch))) (dayOfYear (n + epoch))).1 + 1
  day := (splitDay (monthLengths (yearOf (n + epoch))) (dayOfYear (n + epoch))).2 + 1
  month_pos := Nat.succ_pos _
  day_pos := Nat.succ_pos _
  day_le := (splitDay_spec (dayOfYear_lt _)).1

theorem toDay_dateOf (n : ℤ) : (dateOf n).toDay = n := by
  have hsum := (splitDay_spec (dayOfYear_lt (n + epoch))).2
  have hle := (yearOf_spec (n + epoch)).1
  have hday : (dayOfYear (n + epoch) : ℤ) = n + epoch - daysBefore (yearOf (n + epoch)) := by
    unfold dayOfYear
    omega
  simp only [Date.toDay, dateOf, Nat.add_sub_cancel]
  omega

/-- The day of the week, from Sunday. -/
def weekday (n : ℤ) : ℕ := ((n + 4) % 7).toNat

end JamJet.Gregorian
