import JamJet.RegexReplace
import Mathlib.Data.List.Chain

/-! The patterns of personal data that the runtime's redactor looks for, and what the texts look
like that they match. -/

namespace JamJet.Redaction
open Regex (Body Pattern Sound)

/-- What the regular expressions take for `\d`, `\w` and `\s`.  On ASCII the classes are the usual
ones; there are digits beyond it. -/
class Classes where
  digit : Char → Bool
  word : Char → Bool
  space : Char → Bool
  digit_ascii : ∀ c : Char, c.toNat < 128 → digit c = c.isDigit
  word_ascii : ∀ c : Char, c.toNat < 128 → word c = (c.isAlphanum || c == '_')
  space_ascii : ∀ c : Char, c.toNat < 128 →
    space c = (c == ' ' || (9 ≤ c.toNat && c.toNat ≤ 13))
  word_of_digit : ∀ c, digit c = true → word c = true
  not_word_of_space : ∀ c, space c = true → word c = false
  /-- The Arabic-Indic digits. -/
  digit_arabic : ∀ c : Char, 0x660 ≤ c.toNat → c.toNat ≤ 0x669 → digit c = true

/-- ASCII with one more script of digits. -/
@[reducible]
def someClasses : Classes where
  digit c := c.isDigit || (0x660 ≤ c.toNat && c.toNat ≤ 0x669)
  word c := c.isAlphanum || c == '_' || (0x660 ≤ c.toNat && c.toNat ≤ 0x669)
  space c := c == ' ' || (9 ≤ c.toNat && c.toNat ≤ 13)
  digit_ascii c h := by
    have hnot : ¬ 0x660 ≤ c.toNat := by omega
    simp [hnot]
  word_ascii c h := by
    have hnot : ¬ 0x660 ≤ c.toNat := by omega
    simp [hnot]
  space_ascii c h := rfl
  word_of_digit c h := by
    rcases Bool.or_eq_true_iff.mp h with h | h
    · simp [Char.isAlphanum, h]
    · rw [h, Bool.or_true]
  not_word_of_space c h := by
    have hcode : c.toNat = 32 ∨ 9 ≤ c.toNat ∧ c.toNat ≤ 13 := by
      rcases Bool.or_eq_true_iff.mp h with h | h
      · exact .inl (by rw [beq_iff_eq.mp h]; rfl)
      · exact .inr (by simpa using h)
    have hall : ∀ n < 33, n = 32 ∨ 9 ≤ n ∧ n ≤ 13 → ((Char.ofNat n).isAlphanum ||
        Char.ofNat n == '_' || (0x660 ≤ (Char.ofNat n).toNat && (Char.ofNat n).toNat ≤ 0x669)) =
          false := by decide
    have hnot := hall c.toNat (by omega) hcode
    rwa [Char.ofNat_toNat] at hnot
  digit_arabic c h h' := by simp [h, h']

section Patterns

variable [Classes]

private def chr (c : Char) : Body Char := .one (· == c)

private def oneOf (cs : List Char) : Body Char := .one (cs.contains ·)

private def digits (n : ℕ) : Body Char := .times (.one Classes.digit) n n

/-- `[a-zA-Z0-9._%+-]` -/
def localLetter (c : Char) : Bool := c.isAlphanum || ['.', '_', '%', '+', '-'].contains c

/-- `[a-zA-Z0-9.-]` -/
def domainLetter (c : Char) : Bool := c.isAlphanum || ['.', '-'].contains c

def emailPattern : Pattern Char where
  bounded := false
  body := .all [.many localLetter 1, chr '@', .many domainLetter 1, chr '.', .many Char.isAlpha 2]

def ssnPattern : Pattern Char where
  bounded := true
  body := .all [digits 3, chr '-', digits 2, chr '-', digits 4]

def creditCardPattern : Pattern Char where
  bounded := true
  body := .all [digits 4, .opt (oneOf ['-', ' ']), digits 4, .opt (oneOf ['-', ' ']), digits 4,
    .opt (oneOf ['-', ' ']), digits 4]

/-- `[-.\s]?` -/
private def separator : Body Char := .opt (.one fun c => ['-', '.'].contains c || Classes.space c)

def phonePattern : Pattern Char where
  bounded := true
  body := .all [.opt (chr '+'), .opt (chr '1'), separator, .opt (chr '('), digits 3,
    .opt (chr ')'), separator, digits 3, separator, digits 4]

def ipAddressPattern : Pattern Char where
  bounded := true
  body := .all [.times (.one Classes.digit) 1 3, chr '.', .times (.one Classes.digit) 1 3, chr '.',
    .times (.one Classes.digit) 1 3, chr '.', .times (.one Classes.digit) 1 3]

end Patterns

inductive Detector
  | email
  | ssn
  | creditCard
  | phone
  | ipAddress
  deriving DecidableEq

/-- The names that `builtin_pattern` knows. -/
def Detector.ofName : String → Option Detector
  | "email" => some .email
  | "ssn" => some .ssn
  | "credit_card" => some .creditCard
  | "phone" => some .phone
  | "ip_address" => some .ipAddress
  | _ => none

def Detector.pattern [Classes] : Detector → Pattern Char
  | .email => emailPattern
  | .ssn => ssnPattern
  | .creditCard => creditCardPattern
  | .phone => phonePattern
  | .ipAddress => ipAddressPattern

section Words

variable [Classes] {detector : Detector} {w : List Char}

theorem spells_digits {n : ℕ} :
    (digits n).Spells w ↔ (∀ c ∈ w, Classes.digit c = true) ∧ w.length = n := by
  rw [digits, Body.spells_times_one]
  exact and_congr_right fun _ => ⟨fun h => by omega, fun h => by omega⟩

omit [Classes] in
theorem spells_chr {c : Char} : (chr c).Spells w ↔ w = [c] := by
  constructor
  · rintro ⟨a, rfl, ha⟩
    rw [beq_iff_eq.mp ha]
  · rintro rfl
    exact ⟨c, rfl, beq_self_eq_true c⟩

theorem sound_digits (hw : ∀ c ∈ w, Classes.digit c = true) (hne : w ≠ []) :
    Sound Classes.word w :=
  .of_word (fun c hc => Classes.word_of_digit c (hw c hc)) hne

theorem not_word {c : Char} (h : c.toNat < 128) (hword : (c.isAlphanum || c == '_') = false) :
    Classes.word c = false :=
  (Classes.word_ascii c h).trans hword

theorem ssn_spells (h : ssnPattern.body.Spells w) : '-' ∈ w ∧ Sound Classes.word w := by
  obtain ⟨a, _, rfl, ha, _, _, rfl, hdash, b, _, rfl, hb, _, c, rfl, hdash', hc⟩ := h
  rw [spells_chr] at hdash hdash'
  subst hdash hdash'
  have ha := spells_digits.mp ha
  have hb := spells_digits.mp hb
  have hc := spells_digits.mp hc
  refine ⟨by simp, .append_cons (sound_digits ha.1 ?_) (.append_cons (sound_digits hb.1 ?_)
    (sound_digits hc.1 ?_))⟩
  all_goals rintro rfl; simp at ha hb hc

theorem ipAddress_spells (h : ipAddressPattern.body.Spells w) :
    '.' ∈ w ∧ Sound Classes.word w := by
  obtain ⟨a, _, rfl, ha, _, _, rfl, hdot, b, _, rfl, hb, _, _, rfl, hdot', c, _, rfl, hc, _, d, rfl,
    hdot'', hd⟩ := h
  rw [spells_chr] at hdot hdot' hdot''
  have ha := Body.spells_times_one.mp ha
  have hb := Body.spells_times_one.mp hb
  have hc := Body.spells_times_one.mp hc
  have hd := Body.spells_times_one.mp hd
  subst hdot hdot' hdot''
  refine ⟨by simp, .append_cons (sound_digits ha.1 ?_) (.append_cons (sound_digits hb.1 ?_)
    (.append_cons (sound_digits hc.1 ?_) (sound_digits hd.1 ?_)))⟩
  all_goals rintro rfl; simp at ha hb hc hd

theorem sound_opt {u o v : List Char} {cs : List Char} (hu : Sound Classes.word u)
    (ho : (Body.opt (oneOf cs)).Spells o) (hv : Sound Classes.word v) :
    Sound Classes.word (u ++ (o ++ v)) := by
  rcases ho with ⟨c, rfl, -⟩ | rfl
  · exact hu.append_cons hv
  · exact hu.append hv

theorem creditCard_spells (h : creditCardPattern.body.Spells w) : Sound Classes.word w := by
  obtain ⟨a, _, rfl, ha, s, _, rfl, hs, b, _, rfl, hb, t, _, rfl, ht, c, _, rfl, hc, u, d, rfl, hu,
    hd⟩ := h
  have ha := spells_digits.mp ha
  have hb := spells_digits.mp hb
  have hc := spells_digits.mp hc
  have hd := spells_digits.mp hd
  refine sound_opt (sound_digits ha.1 ?_) hs (sound_opt (sound_digits hb.1 ?_) ht
    (sound_opt (sound_digits hc.1 ?_) hu (sound_digits hd.1 ?_)))
  all_goals rintro rfl; simp at ha hb hc hd

theorem countP_opt {p : Char → Bool} {o : List Char} (ho : (Body.opt (.one p)).Spells o)
    (hp : ∀ c, p c = true → Classes.word c = false) : o.countP Classes.word = 0 := by
  rcases ho with ⟨c, rfl, hc⟩ | rfl
  · simp [hp c hc]
  · rfl

theorem phone_spells (h : phonePattern.body.Spells w) :
    (∃ c ∈ w, Classes.digit c = true) ∧ w.countP Classes.word ≤ 11 := by
  obtain ⟨plus, _, rfl, hplus, one, _, rfl, hone, sep, _, rfl, hsep, paren, _, rfl, hparen, a, _,
    rfl, ha, paren', _, rfl, hparen', sep', _, rfl, hsep', b, _, rfl, hb, sep'', c, rfl, hsep'',
    hc⟩ := h
  have ha := spells_digits.mp ha
  have hb := spells_digits.mp hb
  have hc := spells_digits.mp hc
  have hone : one.countP Classes.word ≤ 1 := by
    rcases hone with ⟨d, rfl, -⟩ | rfl
    · exact List.countP_le_length
    · exact Nat.zero_le 1
  have hchr : ∀ d : Char, d.toNat < 128 → (d.isAlphanum || d == '_') = false →
      ∀ c, (c == d) = true → Classes.word c = false :=
    fun d hd hnot c hc => beq_iff_eq.mp hc ▸ not_word hd hnot
  have hseparator : ∀ c, (['-', '.'].contains c || Classes.space c) = true →
      Classes.word c = false := by
    intro c hc
    rcases Bool.or_eq_true_iff.mp hc with hc | hc
    · rcases List.mem_pair.mp (List.contains_iff_mem.mp hc) with rfl | rfl
      · exact not_word (by decide) (by decide)
      · exact not_word (by decide) (by decide)
    · exact Classes.not_word_of_space c hc
  refine ⟨?_, ?_⟩
  · obtain ⟨c, a, rfl⟩ := List.exists_cons_of_length_eq_add_one ha.2
    exact ⟨c, by simp, ha.1 c List.mem_cons_self⟩
  · simp only [List.countP_append, countP_opt hplus (hchr '+' (by decide) (by decide)),
      countP_opt hparen (hchr '(' (by decide) (by decide)),
      countP_opt hparen' (hchr ')' (by decide) (by decide)), countP_opt hsep hseparator,
      countP_opt hsep' hseparator, countP_opt hsep'' hseparator]
    have hcounta : a.countP Classes.word ≤ a.length := List.countP_le_length
    have hcountb : b.countP Classes.word ≤ b.length := List.countP_le_length
    have hcountc : c.countP Classes.word ≤ c.length := List.countP_le_length
    omega

omit [Classes] in
theorem email_spells (h : emailPattern.body.Spells w) : ∃ l d t, w = l ++ '@' :: (d ++ '.' :: t) ∧
    (∀ c ∈ l, localLetter c = true) ∧ l ≠ [] ∧ (∀ c ∈ d, domainLetter c = true) ∧ d ≠ [] ∧
      (∀ c ∈ t, c.isAlpha = true) ∧ 2 ≤ t.length := by
  obtain ⟨l, _, rfl, hl, _, _, rfl, hat, d, _, rfl, hd, _, t, rfl, hdot, ht⟩ := h
  rw [spells_chr] at hat hdot
  subst hat hdot
  refine ⟨l, d, t, rfl, hl.1, ?_, hd.1, ?_, ht.1, ht.2⟩
  · exact List.ne_nil_of_length_pos hl.2
  · exact List.ne_nil_of_length_pos hd.2

/-- What an email address goes on with behind another: more of a domain. -/
def DomainTail (r : List Char) : Prop := ∃ d t, r = d ++ '.' :: t ∧
  (∀ c ∈ d, domainLetter c = true) ∧ d ≠ [] ∧ (∀ c ∈ t, c.isAlpha = true) ∧ 2 ≤ t.length

omit [Classes] in
theorem local_of_domain {c : Char} (h : domainLetter c = true) : localLetter c = true := by
  simp only [domainLetter, localLetter, Bool.or_eq_true, List.contains_iff_mem] at h ⊢
  rcases h with h | h
  · exact .inl h
  · exact .inr (by rcases List.mem_pair.mp h with rfl | rfl <;> decide)

omit [Classes] in
theorem domain_of_alpha {c : Char} (h : c.isAlpha = true) : domainLetter c = true := by
  simp [domainLetter, Char.isAlphanum, h]

omit [Classes] in
theorem DomainTail.all_local {r : List Char} (h : DomainTail r) :
    ∀ c ∈ r, localLetter c = true := by
  obtain ⟨d, t, rfl, hd, -, ht, -⟩ := h
  intro c hc
  rcases List.mem_append.mp hc with hc | hc
  · exact local_of_domain (hd c hc)
  · rcases List.mem_cons.mp hc with rfl | hc
    · decide
    · exact local_of_domain (domain_of_alpha (ht c hc))

theorem email_greedy {prev : Option Char} {s : List Char}
    (h : emailPattern.matchAt Classes.word prev (w ++ s) = some w) {r s' : List Char}
    (hr : DomainTail r) : s ≠ r ++ s' := by
  rintro rfl
  obtain ⟨d', t', rfl, hd', hne, ht', hlength⟩ := hr
  obtain ⟨y, -, hy, -⟩ := Body.longest (Pattern.head?_rests rfl h)
  obtain ⟨l₁, domain, l₂, hl, hy, -⟩ := Regex.head?_flatMap hy
  obtain ⟨z, hz, hrest, hleast⟩ := Body.longest hy
  obtain ⟨d, rfl, hd, hdlength⟩ := Regex.mem_manyRests.mp hz
  obtain ⟨v, rfl, dot, t, rfl, hdot, ht⟩ :=
    (Body.mem_rests _ _ _).mp (List.mem_of_head? hrest)
  rw [spells_chr] at hdot
  subst hdot
  -- the domain could have gone on to the end of the second one
  have hlonger : '.' :: (t' ++ s') ∈ Regex.manyRests domainLetter 1
      (d ++ (['.'] ++ t ++ (d' ++ '.' :: t' ++ s'))) := by
    refine Regex.mem_manyRests.mpr ⟨d ++ '.' :: (t ++ d'), by simp, fun c hc => ?_, by simp; omega⟩
    simp only [List.mem_append, List.mem_cons] at hc
    rcases hc with hc | rfl | hc | hc
    · exact hd c hc
    · decide
    · exact domain_of_alpha (ht.1 c hc)
    · exact hd' c hc
  have hmatches : s' ∈ (Body.all [chr '.', .many Char.isAlpha 2]).rests ('.' :: (t' ++ s')) :=
    (Body.mem_rests _ _ _).mpr ⟨'.' :: t', rfl, ['.'], t', rfl, spells_chr.mpr rfl, ht', hlength⟩
  have hle := hleast _ hlonger (List.ne_nil_of_mem hmatches)
  simp only [List.length_append, List.length_cons] at hle
  omega

theorem email_extends : Regex.Extends Classes.word emailPattern localLetter DomainTail where
  free := rfl
  left := by
    intro a w ha hw
    obtain ⟨l, v, rfl, hl, hv⟩ := hw
    refine ⟨a :: l, v, rfl, ⟨?_, ?_⟩, hv⟩
    · exact List.forall_mem_cons.mpr ⟨ha, hl.1⟩
    · exact Nat.le_succ_of_le hl.2
  split := by
    intro w hw
    obtain ⟨l, d, t, rfl, hl, hne, hd, hdne, ht, hlength⟩ := email_spells hw
    have htail : DomainTail (d ++ '.' :: t) := ⟨d, t, rfl, hd, hdne, ht, hlength⟩
    exact ⟨l, '@', d ++ '.' :: t, rfl, hne, hl, by simp, htail.all_local, htail⟩
  greedy := fun _ _ _ h _ _ hr => email_greedy h hr

/-- The letters that tags stand between. -/
def bracket (c : Char) : Bool := ['[', ']'].contains c

theorem not_has_bracket (detector : Detector) {c : Char} (hc : bracket c = true) :
    ¬ detector.pattern.body.Has c := by
  have hdigit : Classes.digit c = false := by
    rcases List.mem_pair.mp (List.contains_iff_mem.mp hc) with rfl | rfl
    · exact Classes.digit_ascii _ (by decide)
    · exact Classes.digit_ascii _ (by decide)
  have hspace : Classes.space c = false := by
    rcases List.mem_pair.mp (List.contains_iff_mem.mp hc) with rfl | rfl
    · exact Classes.space_ascii _ (by decide)
    · exact Classes.space_ascii _ (by decide)
  have hfixed : localLetter c = false ∧ domainLetter c = false ∧ c.isAlpha = false ∧
      ∀ d ∈ ['@', '.', '-', ' ', '+', '1', '(', ')'], (c == d) = false := by
    rcases List.mem_pair.mp (List.contains_iff_mem.mp hc) with rfl | rfl
    · decide
    · decide
  cases detector <;> simp_all [Detector.pattern, emailPattern, ssnPattern, creditCardPattern,
    phonePattern, ipAddressPattern, Body.all, Body.Has, digits, chr, oneOf, separator]

omit [Classes] in
theorem spells_email (h : emailPattern.body.Spells w) : '@' ∈ w := by
  obtain ⟨l, d, t, rfl, -⟩ := email_spells h
  simp

theorem spells_mark (h : detector.pattern.body.Spells w) :
    ∃ c ∈ w, Classes.digit c = true ∨ c = '@' := by
  have hdigit : ∀ a v : List Char, (∀ c ∈ a, Classes.digit c = true) → 1 ≤ a.length →
      ∃ c ∈ a ++ v, Classes.digit c = true ∨ c = '@' := by
    intro a v ha hlength
    obtain ⟨c, a, rfl⟩ := List.exists_cons_of_length_pos hlength
    exact ⟨c, by simp, .inl (ha c List.mem_cons_self)⟩
  cases detector with
  | email => exact ⟨'@', spells_email h, .inr rfl⟩
  | phone =>
    obtain ⟨c, hc, hd⟩ := (phone_spells h).1
    exact ⟨c, hc, .inl hd⟩
  | ssn =>
    obtain ⟨a, v, rfl, ha, -⟩ := h
    have ha := spells_digits.mp ha
    exact hdigit a v ha.1 (by omega)
  | creditCard =>
    obtain ⟨a, v, rfl, ha, -⟩ := h
    have ha := spells_digits.mp ha
    exact hdigit a v ha.1 (by omega)
  | ipAddress =>
    obtain ⟨a, v, rfl, ha, -⟩ := h
    have ha := Body.spells_times_one.mp ha
    exact hdigit a v ha.1 ha.2.1

theorem spells_inner (h : detector.pattern.body.Spells w) :
    w ≠ [] ∧ ∀ c ∈ w, bracket c = false := by
  refine ⟨?_, fun c hc => ?_⟩
  · obtain ⟨c, hc, -⟩ := spells_mark h
    exact List.ne_nil_of_mem hc
  · exact Bool.eq_false_iff.mpr fun hb =>
      not_has_bracket detector hb (Body.has_of_spells h c hc)

theorem phone_letter {c : Char} (h : phonePattern.body.Has c) :
    Classes.digit c = true ∨ Classes.space c = true ∨ c ∈ ['+', '1', '-', '.', '(', ')'] := by
  simp only [phonePattern, Body.all, Body.Has, digits, chr, separator, Bool.or_eq_true, beq_iff_eq,
    List.contains_iff_mem, List.mem_cons, List.not_mem_nil, or_false] at h ⊢
  tauto

theorem word_of_hex {c : Char} (h : c.isDigit = true ∨ 'a' ≤ c ∧ c ≤ 'f') :
    Classes.word c = true := by
  have hcode : c.toNat < 128 ∧ c.isAlphanum = true := by
    have hall : ∀ n < 128, (Char.ofNat n).isDigit = true ∨ 97 ≤ n ∧ n ≤ 102 →
        (Char.ofNat n).isAlphanum = true := by decide
    have hlt : c.toNat < 128 := by
      rcases h with h | ⟨-, h⟩
      · have hle : c.val ≤ 57 := by simpa using (Bool.and_eq_true_iff.mp h).2
        exact Nat.lt_of_le_of_lt hle (by decide)
      · exact Nat.lt_of_le_of_lt h (by decide)
    have halnum := hall c.toNat hlt
    rw [Char.ofNat_toNat] at halnum
    exact ⟨hlt, halnum (h.imp_right fun h => ⟨h.1, h.2⟩)⟩
  rw [Classes.word_ascii c hcode.1, hcode.2, Bool.true_or]

end Words

end JamJet.Redaction
