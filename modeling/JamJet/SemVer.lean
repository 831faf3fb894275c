import Mathlib.Data.List.Basic

/-! Semantic versions: the grammar, and the versions that are three numbers and nothing else. -/

namespace SemVer

/-- The part before the first separator, and the part after it if there is one. -/
def cut (sep : Char) : List Char → List Char × Option (List Char)
  | [] => ([], none)
  | c :: rest =>
      if c = sep then ([], some rest)
      else (c :: (cut sep rest).1, (cut sep rest).2)

/-- Digits without a leading zero. -/
def numericIdentifier (s : List Char) : Bool :=
  !s.isEmpty && s.all Char.isDigit && (s.head? ≠ some '0' || s.length = 1)

/-- Letters, digits and hyphens. -/
def alphanumericIdentifier (s : List Char) : Bool :=
  !s.isEmpty && s.all fun c => c.isAlphanum || c = '-'

def preReleaseIdentifier (s : List Char) : Bool :=
  alphanumericIdentifier s && (!s.all Char.isDigit || numericIdentifier s)

/-- `major.minor.patch`. -/
def versionCore (s : List Char) : Bool :=
  (s.splitOn '.').length = 3 && (s.splitOn '.').all numericIdentifier

/-- A version core, then a pre-release after `-`, then build metadata after `+`. -/
def valid (s : List Char) : Bool :=
  let (version, build) := cut '+' s
  let (core, preRelease) := cut '-' version
  versionCore core &&
    preRelease.all (fun text => (text.splitOn '.').all preReleaseIdentifier) &&
    build.all fun text => (text.splitOn '.').all alphanumericIdentifier

theorem cut_of_notMem {sep : Char} {s : List Char} (h : sep ∉ s) : cut sep s = (s, none) := by
  induction s with
  | nil => rfl
  | cons c rest ih =>
    have hne : c ≠ sep := fun heq => h (by simp [heq])
    have hrest : sep ∉ rest := fun hmem => h (by simp [hmem])
    simp [cut, hne, ih hrest]

theorem cut_append {sep : Char} {s t : List Char} (h : sep ∉ s) :
    cut sep (s ++ sep :: t) = (s, some t) := by
  induction s with
  | nil => simp [cut]
  | cons c rest ih =>
    have hne : c ≠ sep := fun heq => h (by simp [heq])
    have hrest : sep ∉ rest := fun hmem => h (by simp [hmem])
    simp [cut, hne, ih hrest]

variable {a b c : List Char}

theorem exists_parts {s : List Char} (h : (s.splitOn '.').length = 3) :
    ∃ a b c, s.splitOn '.' = [a, b, c] ∧ s = a ++ '.' :: (b ++ '.' :: c) := by
  obtain ⟨a, b, c, hparts⟩ := List.length_eq_three.mp h
  have hjoin : ['.'].intercalate (s.splitOn '.') = s := List.intercalate_splitOn _
  rw [hparts] at hjoin
  exact ⟨a, b, c, hparts, by simp [← hjoin]⟩

/-- A nonempty run of digits. -/
structure Digits (s : List Char) : Prop where
  ne_nil : s ≠ []
  all : ∀ c ∈ s, c.isDigit = true

/-- Digits, with or without a plus sign. -/
def SignedDigits (s : List Char) : Prop := Digits s ∨ ∃ digits, s = '+' :: digits ∧ Digits digits

/-- No plus sign, and no zero before another digit. -/
def plain (s : List Char) : Bool := s.head? ≠ some '+' && (s.head? ≠ some '0' || s.length = 1)

theorem Digits.notMem {s : List Char} (h : Digits s) {c : Char} (hc : c.isDigit = false) : c ∉ s :=
  fun hmem => by simp [h.all c hmem] at hc

theorem Digits.numericIdentifier (h : Digits a) : numericIdentifier a = plain a := by
  have hplus : a.head? ≠ some '+' := fun heq =>
    h.notMem (c := '+') (by decide) (List.mem_of_head? heq)
  have hall : a.all Char.isDigit = true := List.all_eq_true.mpr h.all
  simp [SemVer.numericIdentifier, plain, hplus, hall, h.ne_nil]

theorem not_plain_plus : plain ('+' :: a) = false := by
  simp [plain]

/-- A version of three parts that are read as numbers is a semantic version if and only if every
part is plain. -/
theorem valid_iff_plain (ha : SignedDigits a) (hb : SignedDigits b) (hc : SignedDigits c) :
    valid (a ++ '.' :: (b ++ '.' :: c)) = (plain a && plain b && plain c) := by
  have hdot : ∀ {s}, Digits s → '.' ∉ s := fun h => h.notMem (by decide)
  have hplus : ∀ {s}, Digits s → '+' ∉ s := fun h => h.notMem (by decide)
  have hminus : ∀ {s}, Digits s → '-' ∉ s := fun h => h.notMem (by decide)
  rcases ha with ha | ⟨digits, rfl, -⟩
  · rcases hb with hb | ⟨digits, rfl, -⟩
    · rcases hc with hc | ⟨digits, rfl, -⟩
      · have hnoplus : '+' ∉ a ++ '.' :: (b ++ '.' :: c) := by
          simp [hplus ha, hplus hb, hplus hc]
        have hnominus : '-' ∉ a ++ '.' :: (b ++ '.' :: c) := by
          simp [hminus ha, hminus hb, hminus hc]
        have hsplit : (a ++ '.' :: (b ++ '.' :: c)).splitOn '.' = [a, b, c] := by
          rw [List.splitOn_append_cons_self_of_not_mem (hdot ha),
            List.splitOn_append_cons_self_of_not_mem (hdot hb), List.splitOn_eq_singleton (hdot hc)]
        simp [valid, cut_of_notMem hnoplus, cut_of_notMem hnominus, versionCore, hsplit,
          ha.numericIdentifier, hb.numericIdentifier, hc.numericIdentifier, Bool.and_assoc]
      · -- the sign cuts the core off after the second dot
        have hcut : cut '+' (a ++ '.' :: (b ++ '.' :: ('+' :: digits))) =
            (a ++ '.' :: (b ++ ['.']), some digits) := by
          have hnoplus : '+' ∉ a ++ '.' :: (b ++ ['.']) := by simp [hplus ha, hplus hb]
          simpa using cut_append (t := digits) hnoplus
        have hnominus : '-' ∉ a ++ '.' :: (b ++ ['.']) := by simp [hminus ha, hminus hb]
        have hsplit : (a ++ '.' :: (b ++ ['.'])).splitOn '.' = [a, b, []] := by
          rw [List.splitOn_append_cons_self_of_not_mem (hdot ha),
            List.splitOn_append_cons_self_of_not_mem (hdot hb), List.splitOn_nil]
        simp [valid, hcut, cut_of_notMem hnominus, versionCore, hsplit, numericIdentifier,
          not_plain_plus]
    · have hcut : cut '+' (a ++ '.' :: '+' :: (digits ++ '.' :: c)) =
          (a ++ ['.'], some (digits ++ '.' :: c)) := by
        have hnoplus : '+' ∉ a ++ ['.'] := by simp [hplus ha]
        simpa using cut_append (t := digits ++ '.' :: c) hnoplus
      have hnominus : '-' ∉ a ++ ['.'] := by simp [hminus ha]
      have hsplit : (a ++ ['.']).splitOn '.' = [a, []] := by
        rw [List.splitOn_append_cons_self_of_not_mem (hdot ha), List.splitOn_nil]
      simp [valid, hcut, cut_of_notMem hnominus, versionCore, hsplit, not_plain_plus]
  · simp [valid, cut, versionCore, not_plain_plus]

end SemVer
