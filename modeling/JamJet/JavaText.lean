import Mathlib.Data.List.DropRight
import Mathlib.Tactic.Ring

/-! Texts as `java.lang` reads them: digits of every script, integers of 32 and 64 bits, white space,
and the parts between separators. -/

namespace JavaText

/-- `Character.isWhitespace`: no space that does not break is white space. -/
def isWhitespace (c : Char) : Bool :=
  let n := c.toNat
  (9 ≤ n && n ≤ 13) || (28 ≤ n && n ≤ 32) || n = 0x1680 || (0x2000 ≤ n && n ≤ 0x2006) ||
    (0x2008 ≤ n && n ≤ 0x200a) || n = 0x2028 || n = 0x2029 || n = 0x205f || n = 0x3000

def isBlank (s : List Char) : Bool := s.all isWhitespace

def strip (s : List Char) : List Char := (s.dropWhile isWhitespace).rdropWhile isWhitespace

/-- Where the digits of the scripts of the basic plane start. -/
def zeros : List ℕ :=
  [0x30, 0x660, 0x6f0, 0x7c0, 0x966, 0x9e6, 0xa66, 0xae6, 0xb66, 0xbe6, 0xc66, 0xce6, 0xd66, 0xde6,
    0xe50, 0xed0, 0xf20, 0x1040, 0x1090, 0x17e0, 0x1810, 0x1946, 0x19d0, 0x1a80, 0x1a90, 0x1b50,
    0x1bb0, 0x1c40, 0x1c50, 0xa620, 0xa8d0, 0xa900, 0xa9d0, 0xa9f0, 0xaa50, 0xabf0, 0xff10]

/-- `Character.digit` in base ten, of a `char`: beyond the basic plane there are only surrogates. -/
def digit (c : Char) : Option ℕ :=
  (zeros.find? fun base => base ≤ c.toNat && c.toNat < base + 10).map (c.toNat - ·)

/-- The digits of ASCII only. -/
def asciiDigit (c : Char) : Option ℕ := if c.isDigit then some (c.toNat - 48) else none

section Numbers

variable (digit : Char → Option ℕ)

def digits : ℕ → List Char → Option ℕ
  | n, [] => some n
  | n, c :: s => (digit c).bind fun d => digits (10 * n + d) s

/-- One digit at least. -/
def magnitude (s : List Char) : Option ℕ := if s.isEmpty then none else digits digit 0 s

/-- With a plus sign or without. -/
def unsigned (s : List Char) : Option ℕ :=
  match s with
  | '+' :: rest => magnitude digit rest
  | _ => magnitude digit s

end Numbers

/-- `parseInt` and `parseLong`, for a two's complement of this width. -/
def parseSigned (width : ℕ) (s : List Char) : Option ℤ :=
  match s with
  | '-' :: rest => (magnitude digit rest).bind fun n => if n ≤ 2 ^ (width - 1) then some (-n) else none
  | _ => (unsigned digit s).bind fun n => if n < 2 ^ (width - 1) then some (n : ℤ) else none

def parseInt : List Char → Option ℤ := parseSigned 32

/-- The bits of an `int`. -/
def toInt (n : ℤ) : ℤ := if n < 2 ^ 31 then n else n - 2 ^ 32

/-- The `int` of a `long` whose upper half is empty. -/
def narrow (n : ℤ) : Option ℤ := if 0 ≤ n ∧ n < 2 ^ 32 then some (toInt n) else none

/-- `Integer.parseUnsignedInt`; from `2 ^ 31` on the `int` is negative. -/
def parseUnsignedInt (s : List Char) : Option ℤ :=
  if s.head? = some '-' then none
  else if s.length ≤ 9 then parseInt s
  else (parseSigned 64 s).bind narrow

/-- `String.split` by one character: empty parts at the end are dropped, unless nothing is split. -/
def split (sep : Char) (s : List Char) : List (List Char) :=
  if sep ∈ s then (s.splitOn sep).rdropWhile List.isEmpty else [s]

section Parsing

variable {digit : Char → Option ℕ} {s : List Char} {n : ℕ}

theorem digits_lt (hdigit : ∀ c d, digit c = some d → d < 10) {m : ℕ}
    (h : digits digit m s = some n) : n < (m + 1) * 10 ^ s.length := by
  induction s generalizing m with
  | nil =>
    cases h
    simp
  | cons c s ih =>
    obtain ⟨d, hd, hrest⟩ := Option.bind_eq_some_iff.mp h
    have hlt := ih hrest
    have hten := hdigit c d hd
    calc n < (10 * m + d + 1) * 10 ^ s.length := hlt
      _ ≤ ((m + 1) * 10) * 10 ^ s.length := Nat.mul_le_mul_right _ (by omega)
      _ = (m + 1) * 10 ^ (c :: s).length := by rw [List.length_cons, pow_succ']; ring

theorem magnitude_lt (hdigit : ∀ c d, digit c = some d → d < 10) (h : magnitude digit s = some n) :
    n < 10 ^ s.length := by
  unfold magnitude at h
  split at h
  · cases h
  · simpa using digits_lt hdigit h

theorem digits_all {m : ℕ} (h : digits digit m s = some n) : ∀ c ∈ s, (digit c).isSome = true := by
  induction s generalizing m with
  | nil => simp
  | cons c s ih =>
    obtain ⟨d, hd, hrest⟩ := Option.bind_eq_some_iff.mp h
    intro c' hc'
    rcases List.mem_cons.mp hc' with rfl | hc'
    · rw [hd]
      rfl
    · exact ih hrest c' hc'

theorem not_mem_of_unsigned {c : Char} (hc : digit c = none) (hplus : c ≠ '+')
    (h : unsigned digit s = some n) : c ∉ s := by
  have hmagnitude : ∀ {t m}, magnitude digit t = some m → c ∉ t := by
    intro t m ht hmem
    unfold magnitude at ht
    split at ht
    · cases ht
    · have hdigit := digits_all ht c hmem
      rw [hc] at hdigit
      cases hdigit
  unfold unsigned at h
  split at h
  · intro hmem
    rcases List.mem_cons.mp hmem with heq | hmem
    · exact hplus heq
    · exact hmagnitude h hmem
  · exact hmagnitude h

theorem ne_nil_of_unsigned (h : unsigned digit s = some n) : s ≠ [] := by
  rintro rfl
  cases h

end Parsing

theorem digit_lt {c : Char} {d : ℕ} (h : digit c = some d) : d < 10 := by
  obtain ⟨base, hbase, rfl⟩ := Option.map_eq_some_iff.mp h
  have hrange := List.find?_some hbase
  simp only [Bool.and_eq_true, decide_eq_true_eq] at hrange
  omega

theorem digit_minus : digit '-' = none := by decide

theorem digit_dot : digit '.' = none := by decide

theorem digit_of_ascii {c : Char} {d : ℕ} (h : asciiDigit c = some d) : digit c = some d := by
  unfold asciiDigit at h
  split at h
  · next hdigit =>
    cases h
    obtain ⟨hlo, hhi⟩ : 48 ≤ c.toNat ∧ c.toNat ≤ 57 := by
      simpa [Char.isDigit, UInt32.le_iff_toNat_le] using hdigit
    have hfound : zeros.find? (fun base => base ≤ c.toNat && c.toNat < base + 10) = some 0x30 := by
      unfold zeros
      rw [List.find?_cons_of_pos]
      simp only [Bool.and_eq_true, decide_eq_true_eq]
      omega
    rw [digit, hfound]
    rfl
  · cases h

theorem digits_of_ascii {s : List Char} {m n : ℕ} (h : digits asciiDigit m s = some n) :
    digits digit m s = some n := by
  induction s generalizing m with
  | nil => exact h
  | cons c s ih =>
    obtain ⟨d, hd, hrest⟩ := Option.bind_eq_some_iff.mp h
    rw [digits, digit_of_ascii hd]
    exact ih hrest

theorem magnitude_of_ascii {s : List Char} {n : ℕ} (h : magnitude asciiDigit s = some n) :
    magnitude digit s = some n := by
  unfold magnitude at h ⊢
  split at h
  · cases h
  · next hne =>
    rw [if_neg hne]
    exact digits_of_ascii h

theorem unsigned_of_ascii {s : List Char} {n : ℕ} (h : unsigned asciiDigit s = some n) :
    unsigned digit s = some n := by
  unfold unsigned at h ⊢
  split at h
  · exact magnitude_of_ascii h
  · exact magnitude_of_ascii h

theorem parseSigned_of_not_minus {width : ℕ} {s : List Char} (h : s.head? ≠ some '-') :
    parseSigned width s =
      (unsigned digit s).bind fun n => if n < 2 ^ (width - 1) then some (n : ℤ) else none := by
  unfold parseSigned
  split
  · exact absurd rfl h
  · rfl

theorem unsigned_lt {s : List Char} {n : ℕ} (h : unsigned digit s = some n) : n < 10 ^ s.length := by
  unfold unsigned at h
  split at h
  · next rest =>
    have hlt := magnitude_lt (fun c d => digit_lt) h
    exact hlt.trans_le (Nat.pow_le_pow_right (by omega) (Nat.le_succ _))
  · exact magnitude_lt (fun c d => digit_lt) h

theorem narrow_nonneg {n : ℤ} : (∃ m, narrow n = some m ∧ 0 ≤ m) ↔ 0 ≤ n ∧ n < 2 ^ 31 := by
  unfold narrow toInt
  constructor
  · rintro ⟨m, hm, hnonneg⟩
    split at hm
    · cases hm
      split at hnonneg <;> omega
    · cases hm
  · rintro ⟨hnonneg, hlt⟩
    refine ⟨n, ?_, hnonneg⟩
    rw [if_pos ⟨hnonneg, by omega⟩, if_pos hlt]

theorem parseUnsignedInt_nonneg {s : List Char} : (∃ n, parseUnsignedInt s = some n ∧ 0 ≤ n) ↔
    ∃ n, unsigned digit s = some n ∧ n < 2 ^ 31 := by
  unfold parseUnsignedInt
  by_cases hminus : s.head? = some '-'
  · rw [if_pos hminus]
    refine iff_of_false (by simp) ?_
    rintro ⟨n, hn, -⟩
    obtain ⟨rest, rfl⟩ := List.head?_eq_some_iff.mp hminus
    simp [unsigned, magnitude, digits, digit_minus] at hn
  rw [if_neg hminus, parseInt]
  simp only [parseSigned_of_not_minus hminus]
  cases hn : unsigned digit s with
  | none => simp
  | some n =>
    have hlt := unsigned_lt hn
    have hright : (∃ m, some n = some m ∧ m < 2 ^ 31) ↔ n < 2 ^ 31 := by
      constructor
      · rintro ⟨m, hm, hroom⟩
        cases hm
        exact hroom
      · exact fun hroom => ⟨n, rfl, hroom⟩
    rw [hright, Option.bind_some, Option.bind_some]
    by_cases hshort : s.length ≤ 9
    · have hnine : 10 ^ s.length ≤ 10 ^ 9 := Nat.pow_le_pow_right (by omega) hshort
      have hroom : n < 2 ^ 31 := by omega
      rw [if_pos hshort, if_pos hroom]
      exact iff_of_true ⟨n, rfl, Int.natCast_nonneg n⟩ hroom
    · rw [if_neg hshort]
      by_cases hlong : n < 2 ^ 63
      · rw [if_pos hlong, Option.bind_some, narrow_nonneg]
        omega
      · rw [if_neg hlong]
        refine iff_of_false (by simp) ?_
        omega

/-! Parts -/

section Parts

variable {sep : Char} {a s : List Char}

theorem splitOn_replicate (k : ℕ) :
    (List.replicate k sep).splitOn sep = List.replicate (k + 1) [] := by
  induction k with
  | zero => rfl
  | succ k ih =>
    have hnil : sep ∉ ([] : List Char) := List.not_mem_nil
    have hcons := List.splitOn_append_cons_self_of_not_mem hnil (List.replicate k sep)
    rw [List.replicate_succ, ← List.nil_append (sep :: _), hcons, ih]
    rfl

theorem splitOn_trailing (h : sep ∉ a) (k : ℕ) :
    (a ++ List.replicate k sep).splitOn sep = a :: List.replicate k [] := by
  cases k with
  | zero => rw [List.replicate_zero, List.append_nil, List.splitOn_eq_singleton h]; rfl
  | succ k =>
    rw [List.replicate_succ, List.splitOn_append_cons_self_of_not_mem h, splitOn_replicate]

theorem rdropWhile_trailing {parts : List (List Char)} {last : List Char} (h : last ≠ []) (k : ℕ) :
    (parts ++ last :: List.replicate k []).rdropWhile List.isEmpty = parts ++ [last] := by
  induction k with
  | zero => exact List.rdropWhile_concat_neg _ _ _ (by simpa using h)
  | succ k ih =>
    have hsnoc : parts ++ last :: List.replicate (k + 1) [] =
        (parts ++ last :: List.replicate k []) ++ [[]] := by
      rw [List.append_assoc, List.cons_append, List.replicate_succ']
    rw [hsnoc, List.rdropWhile_concat_pos _ _ _ rfl, ih]

theorem split_eq_three {b c : List Char} (ha : sep ∉ a) (hb : sep ∉ b) (hc : sep ∉ c) (hne : c ≠ [])
    (k : ℕ) : split sep (a ++ sep :: (b ++ sep :: (c ++ List.replicate k sep))) = [a, b, c] := by
  have hmem : sep ∈ a ++ sep :: (b ++ sep :: (c ++ List.replicate k sep)) := by simp
  rw [split, if_pos hmem, List.splitOn_append_cons_self_of_not_mem ha,
    List.splitOn_append_cons_self_of_not_mem hb, splitOn_trailing hc]
  have htrailing : ([a, b] ++ c :: List.replicate k []).rdropWhile List.isEmpty = [a, b, c] :=
    rdropWhile_trailing hne k
  exact htrailing

theorem intercalate_trailing (last : List Char) (k : ℕ) :
    [sep].intercalate (last :: List.replicate k []) = last ++ List.replicate k sep := by
  induction k generalizing last with
  | zero => simp
  | succ k ih =>
    rw [List.replicate_succ, List.intercalate_cons_cons, ih, List.replicate_succ]
    simp

theorem exists_of_split {b c : List Char} (h : split sep s = [a, b, c]) :
    ∃ k, s = a ++ sep :: (b ++ sep :: (c ++ List.replicate k sep)) := by
  unfold split at h
  split at h
  · have hjoin : [sep].intercalate (s.splitOn sep) = s := List.intercalate_splitOn _
    have hparts := List.rdropWhile_append_rtakeWhile (p := List.isEmpty) (l := s.splitOn sep)
    have hempty : ∀ part ∈ (s.splitOn sep).rtakeWhile List.isEmpty, part = [] :=
      fun part hpart => List.isEmpty_iff.mp (List.mem_rtakeWhile_imp hpart)
    obtain hrep := List.eq_replicate_of_mem hempty
    rw [h, hrep] at hparts
    refine ⟨((s.splitOn sep).rtakeWhile List.isEmpty).length, ?_⟩
    conv_lhs => rw [← hjoin, ← hparts]
    simp only [List.cons_append, List.nil_append, List.intercalate_cons_cons, intercalate_trailing,
      List.append_assoc]
  · cases h

end Parts

end JavaText
