import JamJet.Gregorian
import Mathlib.Data.List.GetD

/-! Times as RFC 3339 writes them in UTC with milliseconds, and back.  The text has room for years
of four digits; any other year is written with its sign, and not read. -/

namespace JamJet.Gregorian

/-- The last `width` digits of a number. -/
def digits : ℕ → ℕ → List Char
  | 0, _ => []
  | width + 1, n => digits width (n / 10) ++ [Char.ofNat (48 + n % 10)]

def digitValue (c : Char) : Option ℕ :=
  if 48 ≤ c.toNat ∧ c.toNat ≤ 57 then some (c.toNat - 48) else none

/-- A number of exactly `width` digits after those read so far, and what follows it. -/
def readNumber (value : ℕ) : ℕ → List Char → Option (ℕ × List Char)
  | 0, cs => some (value, cs)
  | _ + 1, [] => none
  | width + 1, c :: cs => (digitValue c).bind fun d => readNumber (value * 10 + d) width cs

def readChar (c : Char) : List Char → Option (List Char)
  | [] => none
  | d :: cs => if c = d then some cs else none

/-- The numbers in the text of a time. -/
structure Fields where
  year : ℤ
  month : ℕ
  day : ℕ
  hour : ℕ
  minute : ℕ
  second : ℕ
  milli : ℕ

/-- A year as it is written: in four digits where they are enough, else with its sign. -/
def writeYear (year : ℤ) : List Char :=
  if 0 ≤ year ∧ year < 10000 then digits 4 year.toNat
  else (if year < 0 then '-' else '+') ::
    (if year.natAbs < 10000 then digits 4 year.natAbs else (toString year.natAbs).toList)

namespace Fields

def write (f : Fields) : List Char :=
  writeYear f.year ++ '-' :: (digits 2 f.month ++ '-' :: (digits 2 f.day ++
    'T' :: (digits 2 f.hour ++ ':' :: (digits 2 f.minute ++ ':' :: (digits 2 f.second ++
      '.' :: (digits 3 f.milli ++ ['Z']))))))

/-- Reads a text of the form written, with a year of four digits. -/
def read (cs : List Char) : Option Fields := do
  let (year, cs) ← readNumber 0 4 cs
  let (month, cs) ← readNumber 0 2 (← readChar '-' cs)
  let (day, cs) ← readNumber 0 2 (← readChar '-' cs)
  let (hour, cs) ← readNumber 0 2 (← readChar 'T' cs)
  let (minute, cs) ← readNumber 0 2 (← readChar ':' cs)
  let (second, cs) ← readNumber 0 2 (← readChar ':' cs)
  let (milli, cs) ← readNumber 0 3 (← readChar '.' cs)
  if cs = ['Z'] then some ⟨year, month, day, hour, minute, second, milli⟩ else none

/-- The milliseconds from the epoch to a date and a time of day, if there is such a date and such a
time. -/
def toMillis (f : Fields) : Option ℤ :=
  if h : 1 ≤ f.month ∧ 1 ≤ f.day ∧ f.day ≤ (monthLengths f.year).getD (f.month - 1) 0 then
    if f.hour < 24 ∧ f.minute < 60 ∧ f.second < 60 then
      some (Date.toDay ⟨f.year, f.month, f.day, h.1, h.2.1, h.2.2⟩ * 86400000 +
        f.hour * 3600000 + f.minute * 60000 + f.second * 1000 + f.milli)
    else none
  else none

/-- The date and the time of day, given the milliseconds from the epoch. -/
def ofMillis (ms : ℤ) : Fields where
  year := (dateOf (ms / 86400000)).year
  month := (dateOf (ms / 86400000)).month
  day := (dateOf (ms / 86400000)).day
  hour := (ms / 3600000 % 24).toNat
  minute := (ms / 60000 % 60).toNat
  second := (ms / 1000 % 60).toNat
  milli := (ms % 1000).toNat

end Fields

/-- A time, given by the milliseconds from the epoch, as text. -/
def writeMillis (ms : ℤ) : List Char := (Fields.ofMillis ms).write

def readMillis (cs : List Char) : Option ℤ := (Fields.read cs).bind Fields.toMillis

theorem digitValue_digit : ∀ d < 10, digitValue (Char.ofNat (48 + d)) = some d := by decide

theorem readNumber_add (value width more : ℕ) (cs : List Char) :
    readNumber value (width + more) cs =
      (readNumber value width cs).bind fun (n, rest) => readNumber n more rest := by
  induction width generalizing value cs with
  | zero => simp [readNumber]
  | succ width ih =>
    rw [Nat.succ_add]
    cases cs with
    | nil => rfl
    | cons c cs =>
      simp only [readNumber]
      cases digitValue c with
      | none => rfl
      | some d => exact ih _ _

theorem readNumber_digits (value width n : ℕ) (rest : List Char) :
    readNumber value width (digits width n ++ rest) =
      some (value * 10 ^ width + n % 10 ^ width, rest) := by
  induction width generalizing n rest with
  | zero => simp [readNumber, digits, Nat.mod_one]
  | succ width ih =>
    have hdigit := digitValue_digit _ (Nat.mod_lt n (by decide : 0 < 10))
    have hmod : n % 10 ^ (width + 1) = n % 10 + 10 * (n / 10 % 10 ^ width) := by
      rw [Nat.pow_succ', Nat.mod_mul]
    rw [readNumber_add, digits, List.append_assoc, ih, Option.bind_some]
    simp only [List.singleton_append, readNumber, hdigit, Option.bind_some, Option.some.injEq,
      Prod.mk.injEq, and_true]
    rw [hmod, Nat.pow_succ, Nat.add_mul, Nat.mul_assoc]
    omega

theorem readNumber_written {width n : ℕ} (h : n < 10 ^ width) (rest : List Char) :
    readNumber 0 width (digits width n ++ rest) = some (n, rest) := by
  rw [readNumber_digits, Nat.mod_eq_of_lt h, Nat.zero_mul, Nat.zero_add]

/-- The first milliseconds of the years 0 and 10000. -/
def yearZero : ℤ := -62167219200000

def yearTenThousand : ℤ := 253402300800000

theorem month_le (d : Date) : d.month ≤ 12 := by
  by_contra h
  have hlength : (monthLengths d.year).length = 12 := rfl
  have hday := d.day_le
  rw [List.getD_eq_default _ _ (by omega)] at hday
  have hpos := d.day_pos
  omega

theorem day_le_31 (d : Date) : d.day ≤ 31 := by
  have hall : ∀ i < 12, (monthLengths d.year).getD i 0 ≤ 31 := by
    unfold monthLengths
    cases isLeap d.year <;> decide
  have hpos := d.month_pos
  have hle := month_le d
  exact Nat.le_trans d.day_le (hall _ (by omega))

theorem year_dateOf {day : ℤ} (h : -719528 ≤ day) (h' : day < 2932897) :
    0 ≤ (dateOf day).year ∧ (dateOf day).year < 10000 := by
  obtain ⟨hle, hlt⟩ := yearOf_spec (day + epoch)
  have hyear : (dateOf day).year = yearOf (day + epoch) := rfl
  rw [hyear]
  generalize yearOf (day + epoch) = year at hle hlt ⊢
  unfold epoch daysBefore at hle hlt
  omega

theorem readChar_cons (c : Char) (cs : List Char) : readChar c (c :: cs) = some cs := if_pos rfl

namespace Fields

theorem read_write {f : Fields} (hpos : 0 ≤ f.year) (hyear : f.year < 10000)
    (hmonth : f.month < 10 ^ 2) (hday : f.day < 10 ^ 2) (hhour : f.hour < 10 ^ 2)
    (hminute : f.minute < 10 ^ 2) (hsecond : f.second < 10 ^ 2) (hmilli : f.milli < 10 ^ 3) :
    read f.write = some f := by
  have hfour : f.year.toNat < 10 ^ 4 := by omega
  unfold read write writeYear
  rw [if_pos ⟨hpos, hyear⟩, readNumber_written hfour, Option.bind_eq_bind, Option.bind_some]
  dsimp only
  rw [readChar_cons, Option.bind_eq_bind, Option.bind_some]
  rw [readNumber_written hmonth, Option.bind_some, readChar_cons, Option.bind_some]
  rw [readNumber_written hday, Option.bind_some, readChar_cons, Option.bind_some]
  rw [readNumber_written hhour, Option.bind_some, readChar_cons, Option.bind_some]
  rw [readNumber_written hminute, Option.bind_some, readChar_cons, Option.bind_some]
  rw [readNumber_written hsecond, Option.bind_some, readChar_cons, Option.bind_some]
  rw [readNumber_written hmilli, Option.bind_some, if_pos rfl, Int.toNat_of_nonneg hpos]

theorem toMillis_date (d : Date) {hour minute second : ℕ} (hhour : hour < 24)
    (hminute : minute < 60) (hsecond : second < 60) (milli : ℕ) :
    toMillis ⟨d.year, d.month, d.day, hour, minute, second, milli⟩ =
      some (d.toDay * 86400000 + hour * 3600000 + minute * 60000 + second * 1000 + milli) := by
  have hdate : 1 ≤ d.month ∧ 1 ≤ d.day ∧ d.day ≤ (monthLengths d.year).getD (d.month - 1) 0 :=
    ⟨d.month_pos, d.day_pos, d.day_le⟩
  have htime : hour < 24 ∧ minute < 60 ∧ second < 60 := ⟨hhour, hminute, hsecond⟩
  unfold toMillis
  rw [dif_pos hdate, if_pos htime]

theorem toMillis_ofMillis (ms : ℤ) : (ofMillis ms).toMillis = some ms := by
  have hback := toDay_dateOf (ms / 86400000)
  have hhour : (ms / 3600000 % 24).toNat < 24 := by omega
  have hminute : (ms / 60000 % 60).toNat < 60 := by omega
  have hsecond : (ms / 1000 % 60).toNat < 60 := by omega
  have hsum : ms / 86400000 * 86400000 + ((ms / 3600000 % 24).toNat : ℤ) * 3600000 +
      ((ms / 60000 % 60).toNat : ℤ) * 60000 + ((ms / 1000 % 60).toNat : ℤ) * 1000 +
      ((ms % 1000).toNat : ℤ) = ms := by omega
  have hmillis := toMillis_date (dateOf (ms / 86400000)) hhour hminute hsecond (ms % 1000).toNat
  rw [hback, hsum] at hmillis
  exact hmillis

end Fields

theorem readMillis_writeMillis {ms : ℤ} (h : yearZero ≤ ms) (h' : ms < yearTenThousand) :
    readMillis (writeMillis ms) = some ms := by
  unfold yearZero at h
  unfold yearTenThousand at h'
  have hyear := year_dateOf (by omega : -719528 ≤ ms / 86400000) (by omega)
  have hmonth : (dateOf (ms / 86400000)).month < 10 ^ 2 :=
    Nat.lt_of_le_of_lt (month_le _) (by decide)
  have hday : (dateOf (ms / 86400000)).day < 10 ^ 2 :=
    Nat.lt_of_le_of_lt (day_le_31 _) (by decide)
  have hhour : (ms / 3600000 % 24).toNat < 10 ^ 2 := by omega
  have hminute : (ms / 60000 % 60).toNat < 10 ^ 2 := by omega
  have hsecond : (ms / 1000 % 60).toNat < 10 ^ 2 := by omega
  have hmilli : (ms % 1000).toNat < 10 ^ 3 := by omega
  have hread : Fields.read (Fields.ofMillis ms).write = some (Fields.ofMillis ms) :=
    Fields.read_write hyear.1 hyear.2 hmonth hday hhour hminute hsecond hmilli
  unfold readMillis writeMillis
  rw [hread, Option.bind_some, Fields.toMillis_ofMillis]

end JamJet.Gregorian
