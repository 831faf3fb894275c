import Mathlib.Data.List.Basic
import Mathlib.Tactic.Common

/-! Percent-encoding: bytes written in letters, digits, a few marks, and a percent sign with two hex
digits for every other byte. -/

namespace Percent

/-- Letters, digits and `_.-~`. -/
def unreserved (b : UInt8) : Bool :=
  (48 ≤ b && b ≤ 57) || (65 ≤ b && b ≤ 90) || (97 ≤ b && b ≤ 122) || b ∈ [45, 46, 95, 126]

def hexDigit (n : ℕ) : Char := Char.ofNat (if n < 10 then 48 + n else 55 + n)

/-- Either case of a digit is read. -/
def hexValue (c : Char) : Option ℕ :=
  if '0' ≤ c ∧ c ≤ '9' then some (c.toNat - '0'.toNat)
  else if 'A' ≤ c ∧ c ≤ 'F' then some (c.toNat - 'A'.toNat + 10)
  else if 'a' ≤ c ∧ c ≤ 'f' then some (c.toNat - 'a'.toNat + 10)
  else none

def quoteByte (b : UInt8) : List Char :=
  if unreserved b then [Char.ofNat b.toNat]
  else ['%', hexDigit (b.toNat / 16), hexDigit (b.toNat % 16)]

def quoteBytes (bytes : List UInt8) : List Char := bytes.flatMap quoteByte

/-- A percent sign without two hex digits stands for itself. -/
def unquoteBytes : List Char → List UInt8
  | [] => []
  | c :: s =>
    if c = '%' then
      match s with
      | hi :: lo :: rest =>
        match hexValue hi, hexValue lo with
        | some h, some l => UInt8.ofNat (h * 16 + l) :: unquoteBytes rest
        | _, _ => 37 :: unquoteBytes (hi :: lo :: rest)
      | rest => 37 :: unquoteBytes rest
    else UInt8.ofNat c.toNat :: unquoteBytes s

/-- The characters that quoted bytes are made of. -/
def isQuoted (c : Char) : Bool :=
  c = '%' || (c.toNat < 128 && unreserved (UInt8.ofNat c.toNat))

theorem isQuoted_of_lt : ∀ n < 256, ∀ c ∈ quoteByte (UInt8.ofNat n), isQuoted c = true := by
  decide +kernel

theorem isQuoted_of_mem {bytes : List UInt8} {c : Char} (h : c ∈ quoteBytes bytes) :
    isQuoted c = true := by
  obtain ⟨b, -, hc⟩ := List.mem_flatMap.mp h
  rw [← UInt8.ofNat_toNat (x := b)] at hc
  exact isQuoted_of_lt b.toNat b.toNat_lt c hc

theorem of_isQuoted (P : Char → Prop) (hP : ∀ n < 128, isQuoted (Char.ofNat n) = true →
    P (Char.ofNat n)) {c : Char} (h : isQuoted c = true) : P c := by
  have hlt : c.toNat < 128 := by
    rcases Bool.or_eq_true _ _ |>.mp h with hc | hc
    · rw [of_decide_eq_true hc]
      decide
    · exact of_decide_eq_true (Bool.and_eq_true _ _ |>.mp hc).1
  rw [← Char.ofNat_toNat c] at h ⊢
  exact hP c.toNat hlt h

theorem hexValue_hexDigit : ∀ n < 16, hexValue (hexDigit n) = some n := by decide

theorem unreserved_of_lt : ∀ n < 256, unreserved (UInt8.ofNat n) = true →
    Char.ofNat n ≠ '%' ∧ (Char.ofNat n).toNat = n ∧ n < 128 := by
  decide +kernel

theorem unquoteBytes_cons {c : Char} {s : List Char} (h : c ≠ '%') :
    unquoteBytes (c :: s) = UInt8.ofNat c.toNat :: unquoteBytes s := by
  conv_lhs => unfold unquoteBytes
  rw [if_neg h]

theorem unquoteBytes_quoteByte (b : UInt8) (s : List Char) :
    unquoteBytes (quoteByte b ++ s) = b :: unquoteBytes s := by
  have hb : b.toNat < 256 := b.toNat_lt
  unfold quoteByte
  split
  · next hb' =>
    rw [← UInt8.ofNat_toNat (x := b)] at hb'
    obtain ⟨hne, hnat, -⟩ := unreserved_of_lt b.toNat hb hb'
    rw [List.singleton_append, unquoteBytes_cons hne, hnat, UInt8.ofNat_toNat]
  · have hhigh := hexValue_hexDigit (b.toNat / 16) (by omega)
    have hlow := hexValue_hexDigit (b.toNat % 16) (by omega)
    have hbyte : b.toNat / 16 * 16 + b.toNat % 16 = b.toNat := by omega
    simp only [List.cons_append, List.nil_append, unquoteBytes, if_true, hhigh, hlow, hbyte,
      UInt8.ofNat_toNat]

theorem unquoteBytes_quoteBytes (bytes : List UInt8) : unquoteBytes (quoteBytes bytes) = bytes := by
  induction bytes with
  | nil => rfl
  | cons b bytes ih =>
    rw [quoteBytes, List.flatMap_cons, unquoteBytes_quoteByte]
    exact congrArg (b :: ·) ih

theorem unreserved_of_not_mem {bytes : List UInt8} (h : '%' ∉ quoteBytes bytes) :
    ∀ b ∈ bytes, unreserved b = true := by
  intro b hb
  by_contra hnot
  refine h (List.mem_flatMap.mpr ⟨b, hb, ?_⟩)
  rw [quoteByte, if_neg hnot]
  exact List.mem_cons_self

end Percent
