import JamJet.EvalExecutor

/-! What the passing of an evaluation vouches for: the documented checks in their Python reading,
the judge's score, the thresholds; and the inputs on which the executor passes without it. -/

namespace JamJet.EvalExecutor

open Condition (trim isWhiteSpace)

/-! ### The documented checks -/

inductive CompareOp
  | ge
  | gt
  | le
  | lt
  | eq
  deriving DecidableEq

def CompareOp.symbol : CompareOp → String
  | .ge => ">="
  | .gt => ">"
  | .le => "<="
  | .lt => "<"
  | .eq => "=="

def CompareOp.holds : CompareOp → ℤ → ℤ → Bool
  | .ge, m, n => n ≤ m
  | .gt, m, n => n < m
  | .le, m, n => m ≤ n
  | .lt, m, n => m < n
  | .eq, m, n => m = n

/-- A text between single or double quotes. -/
inductive Quotes
  | single
  | double
  deriving DecidableEq

def Quotes.char : Quotes → Char
  | .single => quote
  | .double => '"'

def Quotes.around (q : Quotes) (text : List Char) : List Char := q.char :: text ++ [q.char]

/-- `null`, or as Python has it. -/
inductive NullName
  | null
  | none
  deriving DecidableEq

def NullName.text : NullName → String
  | .null => "null"
  | .none => "None"

/-- The four forms of a check. -/
inductive Check
  | keyIn (q : Quotes) (key : List Char)
  | len (key : List Char) (op : CompareOp) (n : ℤ)
  | equals (key : List Char) (q : Quotes) (value : List Char)
  | notNull (key : List Char) (name : NullName)
  deriving DecidableEq

/-- The digits of an integer. -/
def decimal : ℤ → List Char
  | .ofNat n => Nat.toDigits 10 n
  | .negSucc n => '-' :: Nat.toDigits 10 (n + 1)

/-- The name of a field: no white space, no ASCII punctuation but the underscore. -/
def FieldName (key : List Char) : Prop :=
  key ≠ [] ∧ ∀ c ∈ key, isWhiteSpace c = false ∧ (c.isAlphanum = true ∨ c = '_' ∨ 128 ≤ c.toNat)

namespace Check

def text : Check → List Char
  | .keyIn q key => q.around key ++ " in output".toList
  | .len key op n => "len(output.".toList ++ (key ++ ')' :: ' ' ::
      (op.symbol.toList ++ ' ' :: decimal n))
  | .equals key q value => "output.".toList ++ (key ++ " == ".toList ++ q.around value)
  | .notNull key name => "output.".toList ++ (key ++ " != ".toList ++ name.text.toList)

/-- Fields are named, and a quoted text has neither its quote nor a backslash in it. -/
def WellFormed : Check → Prop
  | .keyIn q key => q.char ∉ key ∧ '\\' ∉ key
  | .len key _ _ => FieldName key
  | .equals key q value => FieldName key ∧ q.char ∉ value ∧ '\\' ∉ value
  | .notNull key _ => FieldName key

/-- `len`, of what has a length. -/
def pyLen : Json → Option ℕ
  | .string s => some s.length
  | .array items => some items.length
  | .object fields => some fields.length
  | _ => none

/-- The Python reading: an access to an absent field is not true. -/
def holds (subject : Json) : Check → Bool
  | .keyIn _ key =>
      match subject with
      | .object fields => (BTree.get fields (String.ofList key)).isSome
      | _ => false
  | .len key op n => ((subject.get (String.ofList key)).bind pyLen).any fun m => op.holds m n
  | .equals key _ value =>
      (subject.get (String.ofList key)).bind Json.asStr == some (String.ofList value)
  | .notNull key _ =>
      match subject.get (String.ofList key) with
      | none | some .null => false
      | some _ => true

end Check

/-! ### What the evaluator makes of them -/

section Texts

variable {s t : List Char} {c : Char}

theorem trim_of_ends {a b : Char} (ha : isWhiteSpace a = false) (hb : isWhiteSpace b = false)
    (hhead : s.head? = some a) (hlast : s.getLast? = some b) : trim s = s := by
  unfold trim
  cases s with
  | nil => rfl
  | cons d s =>
    cases hhead
    rw [List.dropWhile_cons_of_neg (by simp [ha])]
    obtain ⟨t, ht⟩ := List.getLast?_eq_some_iff.mp hlast
    rw [ht, List.reverse_append, List.reverse_singleton, List.singleton_append,
      List.dropWhile_cons_of_neg (by simp [hb]), List.reverse_cons, List.reverse_reverse]

theorem trim_of_all (h : ∀ c ∈ s, isWhiteSpace c = false) : trim s = s := by
  cases hs : s with
  | nil => rfl
  | cons a t =>
    obtain ⟨l, b, hl⟩ : ∃ l b, s = l ++ [b] :=
      ⟨s.dropLast, s.getLast (by rw [hs]; exact List.cons_ne_nil _ _),
        (List.dropLast_append_getLast _).symm⟩
    rw [← hs]
    refine trim_of_ends (h a (by rw [hs]; exact List.mem_cons_self)) (h b ?_) (by rw [hs]; rfl) ?_
    · rw [hl]
      exact List.mem_append_right _ List.mem_cons_self
    · rw [hl]
      exact List.getLast?_concat

theorem trim_cons_space (s : List Char) : trim (' ' :: s) = trim s := by
  unfold trim
  rw [List.dropWhile_cons_of_pos (by decide)]

theorem stripSuffix_append (suffix s : List Char) : stripSuffix suffix (s ++ suffix) = some s := by
  simp [stripSuffix]

theorem stripSuffix_of_last {suffix : List Char} {b c : Char} (hsuffix : suffix.getLast? = some b)
    (hs : s.getLast? = some c) (hne : b ≠ c) : stripSuffix suffix s = none := by
  obtain ⟨l, rfl⟩ := List.getLast?_eq_some_iff.mp hsuffix
  obtain ⟨m, rfl⟩ := List.getLast?_eq_some_iff.mp hs
  simp [stripSuffix, List.isPrefixOf?, hne]

theorem isPrefixOf?_append (pat s : List Char) : pat.isPrefixOf? (pat ++ s) = some s := by
  induction pat with
  | nil => simp
  | cons c pat ih => simp [List.isPrefixOf?, ih]

theorem splitOnce_skip {pat : List Char} (h : c ∉ s) : splitOnce (c :: pat) (s ++ t) =
    (splitOnce (c :: pat) t).map fun (before, after) => (s ++ before, after) := by
  induction s with
  | nil => simp
  | cons d s ih =>
    obtain ⟨hd, hs⟩ := not_or.mp (mt List.mem_cons.mpr h)
    rw [List.cons_append, splitOnce]
    simp only [List.isPrefixOf?, beq_iff_eq, hd, if_false, ih hs, Option.map_map]
    rfl

theorem splitOnce_append {pat : List Char} (h : c ∉ s) :
    splitOnce (c :: pat) (s ++ c :: (pat ++ t)) = some (s, t) := by
  have hfound : splitOnce (c :: pat) (c :: (pat ++ t)) = some ([], t) := by
    rw [splitOnce, ← List.cons_append, isPrefixOf?_append]
  rw [splitOnce_skip h, hfound, Option.map_some]
  simp only [List.append_nil]

end Texts

/-- The numbers of an `i64`. -/
def InI64 (n : ℤ) : Prop := -2 ^ 63 ≤ n ∧ n < 2 ^ 63

instance (n : ℤ) : Decidable (InI64 n) := inferInstanceAs (Decidable (_ ∧ _))

theorem magnitude_toDigits (n : ℕ) : parseI64.magnitude (Nat.toDigits 10 n) = some n := by
  have hne : (Nat.toDigits 10 n).isEmpty = false :=
    List.isEmpty_eq_false_iff.mpr Nat.toDigits_ne_nil
  have hall : (Nat.toDigits 10 n).all Char.isDigit = true :=
    List.all_eq_true.mpr fun c hc => Hashing.isDigit_toDigits hc
  rw [parseI64.magnitude, hne, hall, Nat.ofDigitChars_ten_toDigits]
  rfl

theorem head_toDigits (n : ℕ) : ∃ c rest, Nat.toDigits 10 n = c :: rest ∧ c.isDigit = true := by
  obtain ⟨c, rest, hdigits⟩ := List.exists_cons_of_ne_nil (Nat.toDigits_ne_nil (n := n) (b := 10))
  exact ⟨c, rest, hdigits, Hashing.isDigit_toDigits (hdigits ▸ List.mem_cons_self)⟩

theorem parseI64_decimal (n : ℤ) : parseI64 (decimal n) = if InI64 n then some n else none := by
  cases n with
  | ofNat n =>
    obtain ⟨c, rest, hdigits, hc⟩ := head_toDigits n
    have hparse : parseI64 (decimal (.ofNat n)) =
        (parseI64.magnitude (Nat.toDigits 10 n)).bind fun m => if m < 2 ^ 63 then some ↑m else none := by
      rw [decimal, hdigits, parseI64]
      · rintro rest' heq
        cases heq
        exact absurd hc (by decide)
      · rintro rest' heq
        cases heq
        exact absurd hc (by decide)
    have hroom : InI64 (.ofNat n) ↔ n < 2 ^ 63 := by
      unfold InI64
      rw [Int.ofNat_eq_natCast]
      omega
    rw [hparse, magnitude_toDigits, Option.bind_some]
    by_cases hn : n < 2 ^ 63
    · rw [if_pos hn, if_pos (hroom.mpr hn), Int.ofNat_eq_natCast]
    · rw [if_neg hn, if_neg (mt hroom.mp hn)]
  | negSucc n =>
    have hparse : parseI64 (decimal (.negSucc n)) =
        (parseI64.magnitude (Nat.toDigits 10 (n + 1))).bind fun m =>
          if m ≤ 2 ^ 63 then some (-(m : ℤ)) else none := rfl
    have hroom : InI64 (.negSucc n) ↔ n + 1 ≤ 2 ^ 63 := by
      unfold InI64
      rw [Int.negSucc_eq]
      omega
    rw [hparse, magnitude_toDigits, Option.bind_some]
    by_cases hn : n + 1 ≤ 2 ^ 63
    · rw [if_pos hn, if_pos (hroom.mpr hn), Int.negSucc_eq, Int.natCast_add, Int.natCast_one]
    · rw [if_neg hn, if_neg (mt hroom.mp hn)]

theorem isWhiteSpace_of_isDigit {c : Char} (h : c.isDigit = true) : isWhiteSpace c = false := by
  obtain ⟨hlo, hhi⟩ : 48 ≤ c.toNat ∧ c.toNat ≤ 57 := by
    simpa [Char.isDigit, UInt32.le_iff_toNat_le] using h
  simp [isWhiteSpace]
  omega

theorem decimal_noSpace (n : ℤ) : ∀ c ∈ decimal n, isWhiteSpace c = false := by
  intro c hc
  cases n with
  | ofNat n => exact isWhiteSpace_of_isDigit (Hashing.isDigit_toDigits hc)
  | negSucc n =>
    rcases List.mem_cons.mp hc with rfl | hc
    · decide
    · exact isWhiteSpace_of_isDigit (Hashing.isDigit_toDigits hc)

theorem getLast?_decimal (n : ℤ) : ∃ c, (decimal n).getLast? = some c ∧ c.isDigit = true := by
  have hlast : ∀ k, ∃ c, (Nat.toDigits 10 k).getLast? = some c ∧ c.isDigit = true := by
    intro k
    refine ⟨_, List.getLast?_eq_some_getLast Nat.toDigits_ne_nil, ?_⟩
    exact Hashing.isDigit_toDigits (List.getLast_mem _)
  cases n with
  | ofNat n => exact hlast n
  | negSucc n =>
    obtain ⟨c, hc, hdigit⟩ := hlast (n + 1)
    refine ⟨c, ?_, hdigit⟩
    rw [decimal, List.getLast?_cons, hc]
    rfl

theorem getLast?_comparison (op : CompareOp) (n : ℤ) :
    ∃ c, (op.symbol.toList ++ ' ' :: decimal n).getLast? = some c ∧ c.isDigit = true := by
  obtain ⟨c, hlast, hc⟩ := getLast?_decimal n
  refine ⟨c, ?_, hc⟩
  rw [List.getLast?_append, List.getLast?_cons, hlast]
  rfl

theorem trim_comparison (op : CompareOp) (n : ℤ) :
    trim (op.symbol.toList ++ ' ' :: decimal n) = op.symbol.toList ++ ' ' :: decimal n := by
  obtain ⟨c, hlast, hc⟩ := getLast?_comparison op n
  cases op
  all_goals exact trim_of_ends (by decide) (isWhiteSpace_of_isDigit hc) rfl hlast

theorem evalNumericComparison_text (m : ℤ) (op : CompareOp) (n : ℤ) :
    evalNumericComparison m (op.symbol.toList ++ ' ' :: decimal n) =
      if InI64 n then op.holds m n else true := by
  have hdigits : trim (decimal n) = decimal n := trim_of_all (decimal_noSpace n)
  unfold evalNumericComparison
  simp only [trim_comparison, numericOps]
  by_cases hn : InI64 n
  · cases op
    all_goals
      simp [CompareOp.symbol, CompareOp.holds, List.isPrefixOf?, List.findSome?, hdigits,
        parseI64_decimal, hn]
  · cases op
    all_goals
      simp [CompareOp.symbol, List.isPrefixOf?, List.findSome?, hdigits, parseI64_decimal, hn]

namespace FieldName

variable {key : List Char}

theorem noSpace (h : FieldName key) : ∀ c ∈ key, isWhiteSpace c = false := fun c hc => (h.2 c hc).1

theorem not_mem (h : FieldName key) {c : Char} (halnum : c.isAlphanum = false) (hunderscore : c ≠ '_')
    (hascii : c.toNat < 128) : c ∉ key := by
  intro hc
  rcases (h.2 c hc).2 with hc | hc | hc
  · rw [halnum] at hc
    cases hc
  · exact hunderscore hc
  · omega

theorem trim (h : FieldName key) : trim key = key := trim_of_all h.noSpace

end FieldName

theorem Quotes.char_noSpace (q : Quotes) : isWhiteSpace q.char = false := by cases q <;> decide

theorem Quotes.getLast?_around (q : Quotes) (text : List Char) :
    (q.around text).getLast? = some q.char := List.getLast?_concat

theorem Quotes.trim_around (q : Quotes) (text : List Char) : trim (q.around text) = q.around text :=
  trim_of_ends q.char_noSpace q.char_noSpace rfl (q.getLast?_around text)

/-- What the evaluator reads behind the quotes: quotes within are stripped as well. -/
def Quotes.read (q : Quotes) (text : List Char) : List Char :=
  trimMatches '"' (trimMatches quote (q.around text))

theorem Quotes.unquote_around (q : Quotes) (text : List Char) : unquote (q.around text) = q.read text := by
  unfold unquote
  rw [trim_around]
  rfl

namespace Check

/-- The items of an array; nothing else has a length. -/
def arrayLen : Option Json → ℕ
  | some (.array items) => items.length
  | _ => 0

/-- What the evaluator makes of a check. -/
def passes (subject : Json) : Check → Bool
  | .keyIn q key =>
      match subject with
      | .object fields => (BTree.get fields (String.ofList (q.read key))).isSome
      | _ => false
  | .len key op n =>
      if InI64 n then op.holds (arrayLen (subject.get (String.ofList key))) n else true
  | .equals key q value =>
      ((subject.get (String.ofList key)).bind Json.asStr).getD "" == String.ofList (q.read value)
  | .notNull key _ =>
      match subject.get (String.ofList key) with
      | none | some .null => false
      | some _ => true

variable {subject : Json}

theorem keyCheck_keyIn (q : Quotes) (key : List Char) (subject : Json) :
    keyCheck (Check.keyIn q key).text subject = some ((Check.keyIn q key).passes subject) := by
  unfold keyCheck text
  rw [stripSuffix_append, Option.map_some]
  cases subject with
  | object fields => simp only [Quotes.unquote_around, passes]
  | _ => rfl

theorem keyCheck_eq_none {s : List Char} {c : Char} (hlast : s.getLast? = some c) (hne : c ≠ 't') :
    keyCheck s subject = none := by
  unfold keyCheck
  rw [stripSuffix_of_last (b := 't') (by decide) hlast (Ne.symm hne)]
  rfl

theorem lenCheck_len {key : List Char} (h : FieldName key) (op : CompareOp) (n : ℤ) (subject : Json) :
    lenCheck (Check.len key op n).text subject = some ((Check.len key op n).passes subject) := by
  have hclose : ')' ∉ key := h.not_mem (by decide) (by decide) (by decide)
  have hsplit : splitOnce [')'] (key ++ ')' :: ' ' :: (op.symbol.toList ++ ' ' :: decimal n)) =
      some (key, ' ' :: (op.symbol.toList ++ ' ' :: decimal n)) := splitOnce_append hclose
  have hcompare : trim (' ' :: (op.symbol.toList ++ ' ' :: decimal n)) =
      op.symbol.toList ++ ' ' :: decimal n := by
    rw [trim_cons_space, trim_comparison]
  unfold lenCheck text
  rw [isPrefixOf?_append, Option.bind_some, hsplit, Option.map_some]
  simp only [hcompare, evalNumericComparison_text, passes]
  cases hfield : subject.get (String.ofList key) with
  | none => rfl
  | some v => cases v <;> rfl

theorem lenCheck_eq_none {rest : List Char} : lenCheck ("output.".toList ++ rest) subject = none := by
  rfl

theorem fieldCheck_equals {key : List Char} (h : FieldName key) (q : Quotes) (value : List Char)
    (subject : Json) :
    fieldCheck (Check.equals key q value).text subject =
      some ((Check.equals key q value).passes subject) := by
  have hspace : ' ' ∉ key := fun hmem => absurd (h.noSpace _ hmem) (by decide)
  have hsplit : splitOnce " == ".toList (key ++ " == ".toList ++ q.around value) =
      some (key, q.around value) := by
    rw [List.append_assoc]
    exact splitOnce_append hspace
  unfold fieldCheck text
  rw [isPrefixOf?_append, Option.bind_some, hsplit]
  simp only [h.trim, Quotes.unquote_around]
  rfl

theorem fieldCheck_notNull {key : List Char} (h : FieldName key) (name : NullName) (subject : Json) :
    fieldCheck (Check.notNull key name).text subject =
      some ((Check.notNull key name).passes subject) := by
  have hspace : ' ' ∉ key := fun hmem => absurd (h.noSpace _ hmem) (by decide)
  have hsplit : splitOnce " != ".toList (key ++ " != ".toList ++ name.text.toList) =
      some (key, name.text.toList) := by
    rw [List.append_assoc]
    exact splitOnce_append hspace
  have hnone : splitOnce " == ".toList (key ++ " != ".toList ++ name.text.toList) = none := by
    rw [List.append_assoc]
    refine (splitOnce_skip hspace).trans ?_
    cases name <;> rfl
  have hnull : String.ofList (trim name.text.toList) ∈ ["null", "None"] := by cases name <;> decide
  unfold fieldCheck text
  rw [isPrefixOf?_append, Option.bind_some, hnone, hsplit, Option.bind_some]
  simp only [hnull, if_true, h.trim, passes]
  cases hfield : subject.get (String.ofList key) with
  | none => rfl
  | some v => cases v <;> rfl

theorem getLast?_len (key : List Char) (op : CompareOp) (n : ℤ) :
    ∃ d, (Check.len key op n).text.getLast? = some d ∧ d ≠ 't' := by
  obtain ⟨d, hlast, hd⟩ := getLast?_comparison op n
  refine ⟨d, ?_, fun heq => absurd (heq ▸ hd) (by decide)⟩
  have htext : (Check.len key op n).text = ("len(output.".toList ++ key ++ [')', ' ']) ++
      (op.symbol.toList ++ ' ' :: decimal n) := by
    unfold text
    simp only [List.append_assoc, List.cons_append, List.nil_append]
  rw [htext, List.getLast?_append, hlast]
  rfl

theorem getLast?_equals (key : List Char) (q : Quotes) (value : List Char) :
    ∃ d, (Check.equals key q value).text.getLast? = some d ∧ d ≠ 't' := by
  refine ⟨q.char, ?_, by cases q <;> decide⟩
  have htext : (Check.equals key q value).text = ("output.".toList ++ key ++ " == ".toList) ++
      q.around value := by
    unfold text
    simp only [List.append_assoc]
  rw [htext, List.getLast?_append, q.getLast?_around]
  rfl

theorem getLast?_notNull (key : List Char) (name : NullName) :
    ∃ d, (Check.notNull key name).text.getLast? = some d ∧ d ≠ 't' := by
  obtain ⟨d, hlast, hne⟩ : ∃ d, name.text.toList.getLast? = some d ∧ d ≠ 't' := by
    cases name
    · exact ⟨'l', rfl, by decide⟩
    · exact ⟨'e', rfl, by decide⟩
  refine ⟨d, ?_, hne⟩
  have htext : (Check.notNull key name).text = ("output.".toList ++ key ++ " != ".toList) ++
      name.text.toList := by
    unfold text
    simp only [List.append_assoc]
  rw [htext, List.getLast?_append, hlast]
  rfl

theorem evalAssertion_text {c : Check} (h : c.WellFormed) {check : String}
    (htext : trim check.toList = c.text) (subject : Json) :
    evalAssertion check subject = c.passes subject := by
  unfold evalAssertion
  simp only [htext]
  cases c with
  | keyIn q key => rw [keyCheck_keyIn, Option.some_or, Option.some_or, Option.getD_some]
  | len key op n =>
    obtain ⟨d, hlast, hne⟩ := getLast?_len key op n
    rw [keyCheck_eq_none hlast hne, Option.none_or, lenCheck_len h, Option.some_or,
      Option.getD_some]
  | equals key q value =>
    obtain ⟨d, hlast, hne⟩ := getLast?_equals key q value
    have hlen : lenCheck (Check.equals key q value).text subject = none := lenCheck_eq_none
    rw [keyCheck_eq_none hlast hne, hlen, Option.none_or, Option.none_or, fieldCheck_equals h.1,
      Option.getD_some]
  | notNull key name =>
    obtain ⟨d, hlast, hne⟩ := getLast?_notNull key name
    have hlen : lenCheck (Check.notNull key name).text subject = none := lenCheck_eq_none
    rw [keyCheck_eq_none hlast hne, hlen, Option.none_or, Option.none_or, fieldCheck_notNull h,
      Option.getD_some]

/-- Where the evaluator and the Python reading part: quotes at the ends of a quoted text; a number
without room in an `i64`, and the length of anything but an array; the empty text, which an absent
field equals. -/
def exposed (subject : Json) (c : Check) : Bool :=
  !c.holds subject &&
    match c with
    | .keyIn q key => q.read key ≠ key
    | .len key _ n => !InI64 n || match subject.get (String.ofList key) with
        | some (.array _) => false
        | _ => true
    | .equals _ q value => value = [] || q.read value ≠ value
    | .notNull _ _ => false

theorem holds_of_passes {c : Check} (h : c.passes subject = true)
    (hexposed : c.exposed subject = false) : c.holds subject = true := by
  cases hholds : c.holds subject with
  | true => rfl
  | false =>
    cases c with
    | keyIn q key =>
      have hread : q.read key = key := by simpa [exposed, hholds] using hexposed
      simp only [passes, hread] at h
      exact hholds.symm.trans h
    | len key op n =>
      simp only [exposed, hholds, Bool.not_false, Bool.true_and, Bool.or_eq_false_iff] at hexposed
      obtain ⟨hroom, harray⟩ := hexposed
      have hn : InI64 n := by simpa using hroom
      simp only [passes, if_pos hn] at h
      simp only [holds] at hholds
      cases hfield : subject.get (String.ofList key) with
      | none => simp [hfield] at harray
      | some v =>
        cases v with
        | array items =>
          rw [hfield] at h hholds
          exact hholds.symm.trans h
        | _ => simp [hfield] at harray
    | equals key q value =>
      have hclean : value ≠ [] ∧ q.read value = value := by simpa [exposed, hholds] using hexposed
      simp only [passes, hclean.2, beq_iff_eq] at h
      simp only [holds, beq_eq_false_iff_ne] at hholds
      cases hfield : (subject.get (String.ofList key)).bind Json.asStr with
      | none =>
        rw [hfield, Option.getD_none] at h
        have hempty : value = [] := by simpa using (congrArg String.toList h).symm
        exact absurd hempty hclean.1
      | some s =>
        rw [hfield, Option.getD_some] at h
        exact absurd (hfield.trans (congrArg some h)) hholds
    | notNull key name => exact hholds.symm.trans h

theorem holds_of_exposed {c : Check} (h : c.exposed subject = true) : c.holds subject = false := by
  simp only [exposed, Bool.and_eq_true, Bool.not_eq_true'] at h
  exact h.1

end Check

/-! ### The judge's reply -/

section Judge

variable {content : List Char}

/-- The first `{` stands behind the last `}`, with something between. -/
def Crossed (content : List Char) : Prop :=
  ∃ i j, content[i]? = some (Char.ofNat 0x7b) ∧ (∀ k < i, content[k]? ≠ some (Char.ofNat 0x7b)) ∧
    content[j]? = some (Char.ofNat 0x7d) ∧ (∀ k, j < k → content[k]? ≠ some (Char.ofNat 0x7d)) ∧
    j + 1 < i

theorem idxOf?_spec {c : Char} {i : ℕ} : content.idxOf? c = some i ↔
    content[i]? = some c ∧ ∀ k < i, content[k]? ≠ some c := by
  rw [List.idxOf?_eq_some_iff]
  constructor
  · rintro ⟨hi, hc, hbefore⟩
    refine ⟨by rw [List.getElem?_eq_getElem hi, hc], fun k hk heq => ?_⟩
    obtain ⟨hlt, hget⟩ := List.getElem?_eq_some_iff.mp heq
    exact hbefore k hk hget
  · rintro ⟨hc, hbefore⟩
    obtain ⟨hi, hget⟩ := List.getElem?_eq_some_iff.mp hc
    exact ⟨hi, hget, fun k hk heq => hbefore k hk (by rw [List.getElem?_eq_getElem (hk.trans hi), heq])⟩

theorem idxOf?_reverse_spec {c : Char} {i : ℕ} : content.reverse.idxOf? c = some i ↔
    i < content.length ∧ content[content.length - 1 - i]? = some c ∧
      ∀ k, content.length - 1 - i < k → content[k]? ≠ some c := by
  rw [idxOf?_spec]
  constructor
  · rintro ⟨hc, hbefore⟩
    have hi : i < content.length := by
      simpa using (List.getElem?_eq_some_iff.mp hc).1
    rw [List.getElem?_reverse hi] at hc
    refine ⟨hi, hc, fun k hk heq => ?_⟩
    have hlt : k < content.length := (List.getElem?_eq_some_iff.mp heq).1
    refine hbefore (content.length - 1 - k) (by omega) ?_
    rw [List.getElem?_reverse (by omega), ← heq]
    congr 1
    omega
  · rintro ⟨hi, hc, hafter⟩
    refine ⟨by rw [List.getElem?_reverse hi, hc], fun k hk heq => ?_⟩
    rw [List.getElem?_reverse (by omega)] at heq
    exact hafter _ (by omega) heq

theorem judgeObject_error_iff {e : ExecutorError} :
    judgeObject content = .error e ↔ e = .panicked ∧ Crossed content := by
  unfold judgeObject
  constructor
  · intro h
    split at h
    · next start fromEnd hstart hend =>
      obtain ⟨hopen, hbefore⟩ := idxOf?_spec.mp hstart
      obtain ⟨hlt, hclose, hafter⟩ := idxOf?_reverse_spec.mp hend
      split at h
      · cases h
      · next hcross =>
        cases h
        exact ⟨rfl, start, _, hopen, hbefore, hclose, hafter, by omega⟩
    · cases h
  · rintro ⟨rfl, i, j, hopen, hbefore, hclose, hafter, hcross⟩
    have hj : j < content.length := (List.getElem?_eq_some_iff.mp hclose).1
    have hback : content.length - 1 - (content.length - 1 - j) = j := by omega
    have hend : content.reverse.idxOf? (Char.ofNat 0x7d) = some (content.length - 1 - j) :=
      idxOf?_reverse_spec.mpr ⟨by omega, by rw [hback]; exact hclose, by rw [hback]; exact hafter⟩
    rw [idxOf?_spec.mpr ⟨hopen, hbefore⟩, hend]
    simp only
    rw [if_neg (by omega)]

theorem judgeObject_infix {text : List Char} (h : judgeObject content = .ok (some text)) :
    text <:+: content := by
  unfold judgeObject at h
  split at h
  · split at h
    · cases h
      exact (List.drop_suffix _ _).isInfix.trans (List.take_prefix _ _).isInfix
    · cases h
  · cases h

end Judge

/-! ### What a scorer vouches for -/

section Scorers

variable [FloatText] [F64] (env : ExecutorEnv) (payload : Json)

/-- What an evaluation is about, as its payload has it. -/
def subjectOf : EvalSubject where
  output := ((payload.get "input").or (payload.get "last_output")).getD .null
  precedingMs := ((payload.get "preceding_duration_ms").bind (Json.asUnsigned 64)).getD 0
  precedingCostUsd := ((payload.get "preceding_cost_usd").bind Json.asF64).getD f64Zero

/-- What the judge answers; without an answer, nothing. -/
def judgeReply (model rubric : String) (subject : Json) : List Char :=
  match env.chat
      { messages := [⟨.user, judgePrompt rubric subject⟩]
        config := { model := some model, maxTokens := some 256, temperature := some f64Zero } } with
  | .ok resp => trim resp.content.toList
  | .error _ => []

/-- What is parsed of an answer. -/
def judgeVerdict (reply : List Char) : Option Json :=
  match judgeObject reply with
  | .ok (some text) => env.fromStr (String.ofList text)
  | _ => none

/-- The number at a key, if it fits. -/
def unsignedAt (v : Json) (key : String) : Option ℕ := (v.get key).bind (Json.asUnsigned 64)

/-- A duration that is given and within the threshold. -/
def withinMs (thresholdMs : ℕ) : Option Json → Bool
  | some (.number (.int n)) => n ≤ thresholdMs
  | some (.number (.float x)) => !F64.lt (F64.ofInt thresholdMs) x
  | _ => false

/-- A cost that is given and within the threshold. -/
def withinUsd (thresholdUsd : BitVec 64) (v : Option Json) : Bool :=
  (v.bind Json.asF64).any fun usd => !F64.lt thresholdUsd usd

/-- An answer with an object in it whose score is an integer from the minimum to five. -/
def GoodReply (minScore : ℕ) (reply : List Char) : Prop :=
  ∃ text, text <:+: reply ∧ ∃ fields, env.fromStr (String.ofList text) = some (.object fields) ∧
    ∃ n : ℤ, BTree.get fields "score" = some (.number (.int n)) ∧ minScore ≤ n ∧ n ≤ 5

/-- The checks of one of the four forms a list has. -/
def Checks (checks : List String) (c : Check) : Prop :=
  c.WellFormed ∧ ∃ check ∈ checks, trim check.toList = c.text

/-- What a scorer promises; a custom one is left to its worker. -/
def Holds : EvalScorer → Prop
  | .llmJudge model rubric minScore =>
      GoodReply env minScore (judgeReply env model rubric (subjectOf payload).output)
  | .assertion checks => ∀ c, Checks checks c → c.holds (subjectOf payload).output = true
  | .latency thresholdMs => withinMs thresholdMs (payload.get "preceding_duration_ms") = true
  | .cost thresholdUsd => withinUsd thresholdUsd (payload.get "preceding_cost_usd") = true
  | .custom _ _ => True

/-- Inputs that do not satisfy a scorer and that its defaults and casts take for some that do: a
score past five, or none where none is asked for; a check read otherwise; a number that is not
there. -/
def Exposed : EvalScorer → Prop
  | .llmJudge model rubric minScore =>
      let reply := judgeReply env model rubric (subjectOf payload).output
      ¬ GoodReply env minScore reply ∧ ∃ v, judgeVerdict env reply = some v ∧
        match unsignedAt v "score" with
        | some n => 5 < n
        | none => minScore = 0
  | .assertion checks => ∃ c, Checks checks c ∧ c.exposed (subjectOf payload).output = true
  | .latency thresholdMs =>
      withinMs thresholdMs (payload.get "preceding_duration_ms") = false ∧
        unsignedAt payload "preceding_duration_ms" = none
  | .cost _ => (payload.get "preceding_cost_usd").bind Json.asF64 = none
  | .custom _ _ => False

/-- Inputs a scorer turns down. -/
def Refuses : EvalScorer → Prop
  | .llmJudge model rubric minScore =>
      ∀ v, judgeVerdict env (judgeReply env model rubric (subjectOf payload).output) = some v →
        (unsignedAt v "score").getD 0 % 2 ^ 8 < minScore
  | .assertion checks => ∃ check ∈ checks, evalAssertion check (subjectOf payload).output = false
  | .latency thresholdMs => thresholdMs < (subjectOf payload).precedingMs
  | .cost thresholdUsd => F64.lt thresholdUsd (subjectOf payload).precedingCostUsd = true
  | .custom _ _ => False

/-- An answer the slice cannot be cut out of. -/
def CrossedReply : EvalScorer → Prop
  | .llmJudge model rubric _ =>
      Crossed (judgeReply env model rubric (subjectOf payload).output)
  | _ => False

variable {env payload}

variable (env) in
theorem runLlmJudge_spec (model rubric : String) (minScore : ℕ) (subject : Json) :
    match judgeObject (judgeReply env model rubric subject) with
    | .error e => runLlmJudge env model rubric minScore subject = .error e
    | .ok _ => ∃ r, runLlmJudge env model rubric minScore subject = .ok r ∧
        (r.passed = true ↔ ∃ v, judgeVerdict env (judgeReply env model rubric subject) = some v ∧
          minScore ≤ (unsignedAt v "score").getD 0 % 2 ^ 8) := by
  unfold runLlmJudge judgeReply judgeVerdict
  dsimp only
  generalize env.chat { messages := [⟨.user, judgePrompt rubric subject⟩], config :=
    { model := some model, maxTokens := some 256, temperature := some f64Zero } } = answer
  cases answer with
  | error e =>
    refine ⟨_, rfl, ?_⟩
    simp [judgeObject]
  | ok resp =>
    dsimp only
    cases hobject : judgeObject (trim resp.content.toList) with
    | error e => rfl
    | ok found =>
      cases found with
      | none =>
        refine ⟨_, rfl, ?_⟩
        simp
      | some text =>
        simp only [bind, Except.bind, pure, Except.pure, Option.bind_some]
        cases hparsed : env.fromStr (String.ofList text) with
        | none =>
          refine ⟨_, rfl, ?_⟩
          simp
        | some v =>
          refine ⟨_, rfl, ?_⟩
          simp [unsignedAt]

omit [FloatText] [F64] in
theorem passed_runAssertions {checks : List String} {subject : Json} :
    (runAssertions checks subject).passed = true ↔
      ∀ check ∈ checks, evalAssertion check subject = true := by
  unfold runAssertions
  dsimp only
  split
  · next hempty =>
    simpa using hempty
  · next hfailed =>
    simpa using hfailed

variable (env payload) in
theorem runScorer_spec (s : EvalScorer) :
    CrossedReply env payload s ∧ runScorer env (subjectOf payload) s = .error .panicked ∨
      ¬ CrossedReply env payload s ∧ ∃ r, runScorer env (subjectOf payload) s = .ok r ∧
        (r.passed = true ↔ ¬ Refuses env payload s) := by
  cases s with
  | llmJudge model rubric minScore =>
    have hspec := runLlmJudge_spec env model rubric minScore (subjectOf payload).output
    simp only [CrossedReply, runScorer]
    cases hobject : judgeObject (judgeReply env model rubric (subjectOf payload).output) with
    | error e =>
      obtain ⟨rfl, hcrossed⟩ := judgeObject_error_iff.mp hobject
      rw [hobject] at hspec
      exact .inl ⟨hcrossed, hspec⟩
    | ok found =>
      rw [hobject] at hspec
      obtain ⟨r, hr, hpassed⟩ := hspec
      refine .inr ⟨fun hcrossed => ?_, r, hr, hpassed.trans ?_⟩
      · rw [judgeObject_error_iff.mpr ⟨rfl, hcrossed⟩] at hobject
        cases hobject
      · simp [Refuses]
  | assertion checks =>
    refine .inr ⟨id, _, rfl, passed_runAssertions.trans ?_⟩
    simp [Refuses]
  | latency thresholdMs =>
    refine .inr ⟨id, _, rfl, ?_⟩
    simp [runLatency, Refuses]
  | cost thresholdUsd =>
    refine .inr ⟨id, _, rfl, ?_⟩
    simp [runCost, Refuses]
  | custom moduleName kwargs => exact .inr ⟨id, _, rfl, by simp [runCustom, Refuses]⟩

omit [FloatText] [F64] in
theorem judgeVerdict_spec {reply : List Char} {v : Json} (h : judgeVerdict env reply = some v) :
    ∃ text, text <:+: reply ∧ env.fromStr (String.ofList text) = some v := by
  unfold judgeVerdict at h
  split at h
  · next text htext => exact ⟨text, judgeObject_infix htext, h⟩
  · cases h

omit [FloatText] [F64] in
theorem unsignedAt_spec {v : Json} {key : String} {n : ℕ} (h : unsignedAt v key = some n) :
    ∃ fields, v = .object fields ∧ BTree.get fields key = some (.number (.int n)) := by
  obtain ⟨w, hw, hn⟩ := Option.bind_eq_some_iff.mp h
  cases v with
  | object fields =>
    refine ⟨fields, rfl, hw.trans ?_⟩
    unfold Json.asUnsigned at hn
    split at hn
    · next m =>
      split at hn
      · next hm =>
        cases hn
        rw [Int.toNat_of_nonneg hm.1]
      · cases hn
    · cases hn
  | _ => cases hw

/-- What a scorer does not refuse it vouches for, unless it is exposed. -/
theorem holds_iff {s : EvalScorer} (h : ¬ Refuses env payload s) :
    Holds env payload s ↔ ¬ Exposed env payload s := by
  cases s with
  | llmJudge model rubric minScore =>
    simp only [Refuses, not_forall, not_lt] at h
    obtain ⟨v, hv, hscore⟩ := h
    refine ⟨fun hgood hexposed => hexposed.1 hgood, fun hexposed => ?_⟩
    by_contra hgood
    refine hexposed ⟨hgood, v, hv, ?_⟩
    cases hn : unsignedAt v "score" with
    | none => simpa [hn] using hscore
    | some n =>
      by_contra hsmall
      obtain ⟨text, htext, hparsed⟩ := judgeVerdict_spec hv
      obtain ⟨fields, rfl, hfield⟩ := unsignedAt_spec hn
      rw [hn, Option.getD_some] at hscore
      have hcast : n % 2 ^ 8 ≤ n := Nat.mod_le _ _
      exact hgood ⟨text, htext, fields, hparsed, n, hfield, by omega, by omega⟩
  | assertion checks =>
    simp only [Refuses, not_exists, not_and, Bool.not_eq_false] at h
    have hpasses : ∀ c, Checks checks c → c.passes (subjectOf payload).output = true := by
      rintro c ⟨hwell, check, hcheck, htext⟩
      rw [← Check.evalAssertion_text hwell htext]
      exact h check hcheck
    constructor
    · rintro hholds ⟨c, hc, hexposed⟩
      have hfalse := Check.holds_of_exposed hexposed
      rw [hholds c hc] at hfalse
      cases hfalse
    · intro hexposed c hc
      refine Check.holds_of_passes (hpasses c hc) ?_
      cases hread : c.exposed (subjectOf payload).output with
      | false => rfl
      | true => exact absurd ⟨c, hc, hread⟩ hexposed
  | latency thresholdMs =>
    have hms : (unsignedAt payload "preceding_duration_ms").getD 0 ≤ thresholdMs := not_lt.mp h
    cases hn : unsignedAt payload "preceding_duration_ms" with
    | none => simp [Holds, Exposed, hn]
    | some n =>
      obtain ⟨fields, rfl, hfield⟩ := unsignedAt_spec hn
      have hwithin : withinMs thresholdMs ((Json.object fields).get "preceding_duration_ms") =
          true := by
        rw [Json.get, hfield]
        rw [hn, Option.getD_some] at hms
        simpa [withinMs] using hms
      simp [Holds, Exposed, hwithin]
  | cost thresholdUsd =>
    have husd : F64.lt thresholdUsd (((payload.get "preceding_cost_usd").bind Json.asF64).getD
        f64Zero) = false := by simpa [Refuses, subjectOf] using h
    cases hread : (payload.get "preceding_cost_usd").bind Json.asF64 with
    | none => simp [Holds, Exposed, withinUsd, hread]
    | some usd =>
      rw [hread, Option.getD_some] at husd
      simp [Holds, Exposed, withinUsd, hread, husd]
  | custom moduleName kwargs => simp [Holds, Exposed]

variable (env payload) in
/-- The scorers a payload is read to have. -/
def scorersOf : List EvalScorer := ((payload.get "scorers").bind env.scorersFromValue).getD []

variable (env payload) in
theorem execute_eq (durationMs : ℕ) : ∃ onFail maxRetries, execute env durationMs payload =
    run env durationMs (scorersOf env payload) onFail maxRetries (subjectOf payload) :=
  ⟨_, _, rfl⟩

omit [FloatText] [F64] in
theorem passed_conclude {onFail : EvalOnFail} {maxRetries durationMs : ℕ}
    {results : List ScorerResult} {result : ExecutionResult}
    (h : conclude onFail maxRetries durationMs results = .ok result) :
    result.output.get "passed" = some (.bool (results.all (·.passed))) := by
  unfold conclude at h
  dsimp only at h
  split at h
  · cases h
  · cases h
    simp [Json.ofFields, Json.get, BTree.insertAll, BTree.get_insert]

omit [FloatText] [F64] in
theorem conclude_calm {onFail : EvalOnFail} {maxRetries durationMs : ℕ}
    {results : List ScorerResult} : conclude onFail maxRetries durationMs results ≠
      .error .panicked := by
  unfold conclude
  dsimp only
  split <;> simp

omit [FloatText] [F64] in
theorem conclude_of_all (onFail : EvalOnFail) (maxRetries durationMs : ℕ)
    {results : List ScorerResult} (h : results.all (·.passed) = true) :
    ∃ result, conclude onFail maxRetries durationMs results = .ok result := by
  unfold conclude
  simp [h]

theorem runScorer_ok_iff {s : EvalScorer} {r : ScorerResult}
    (h : runScorer env (subjectOf payload) s = .ok r) :
    ¬ CrossedReply env payload s ∧ (r.passed = true ↔ ¬ Refuses env payload s) := by
  rcases runScorer_spec env payload s with ⟨-, hpanic⟩ | ⟨hwhole, r', hr, hpassed⟩
  · rw [hpanic] at h
    cases h
  · rw [hr] at h
    cases h
    exact ⟨hwhole, hpassed⟩

theorem crossedReply_of_error {s : EvalScorer} {e : ExecutorError}
    (h : runScorer env (subjectOf payload) s = .error e) : e = .panicked ∧ CrossedReply env payload s := by
  rcases runScorer_spec env payload s with ⟨hcrossed, hpanic⟩ | ⟨-, r, hr, -⟩
  · rw [hpanic] at h
    cases h
    exact ⟨rfl, hcrossed⟩
  · rw [hr] at h
    cases h

theorem execute_panicked_iff {durationMs : ℕ} : execute env durationMs payload = .error .panicked ↔
    ∃ s ∈ scorersOf env payload, CrossedReply env payload s := by
  obtain ⟨onFail, maxRetries, heq⟩ := execute_eq env payload durationMs
  rw [heq, run]
  cases hresults : (scorersOf env payload).mapM (runScorer env (subjectOf payload)) with
  | error e =>
    obtain ⟨s, hs, herror⟩ := Fallible.mapM_error hresults
    obtain ⟨rfl, hcrossed⟩ := crossedReply_of_error herror
    exact iff_of_true rfl ⟨s, hs, hcrossed⟩
  | ok results =>
    refine iff_of_false conclude_calm ?_
    rintro ⟨s, hs, hcrossed⟩
    obtain ⟨r, hr⟩ := Fallible.ok_of_mapM hresults s hs
    exact (runScorer_ok_iff hr).1 hcrossed

theorem execute_passed_iff {durationMs : ℕ} :
    (∃ result, execute env durationMs payload = .ok result ∧
      result.output.get "passed" = some (.bool true)) ↔
    ∀ s ∈ scorersOf env payload, ¬ CrossedReply env payload s ∧ ¬ Refuses env payload s := by
  obtain ⟨onFail, maxRetries, heq⟩ := execute_eq env payload durationMs
  rw [heq, run]
  constructor
  · rintro ⟨result, hresult, hpassed⟩ s hs
    obtain ⟨results, hresults, hconclude⟩ := Fallible.bind_eq_ok.mp hresult
    have hall : results.all (·.passed) = true := by
      rw [passed_conclude hconclude] at hpassed
      simpa using hpassed
    obtain ⟨r, hr, hrun⟩ :=
      Fallible.exists_of_forall₂ (Fallible.forall₂_of_mapM hresults).flip s hs
    obtain ⟨hwhole, hiff⟩ := runScorer_ok_iff hrun
    exact ⟨hwhole, hiff.mp (List.all_eq_true.mp hall r hr)⟩
  · intro hall
    cases hresults : (scorersOf env payload).mapM (runScorer env (subjectOf payload)) with
    | error e =>
      obtain ⟨s, hs, herror⟩ := Fallible.mapM_error hresults
      exact absurd (crossedReply_of_error herror).2 (hall s hs).1
    | ok results =>
      have hpassed : results.all (·.passed) = true := by
        rw [List.all_eq_true]
        intro r hr
        obtain ⟨s, hs, hrun⟩ := Fallible.exists_of_forall₂ (Fallible.forall₂_of_mapM hresults) r hr
        exact (runScorer_ok_iff hrun).2.mpr (hall s hs).2
      obtain ⟨result, hresult⟩ := conclude_of_all onFail maxRetries durationMs hpassed
      exact ⟨result, hresult, by rw [passed_conclude hresult, hpassed]⟩

/-! ### Failing closed -/

variable (env payload)

/-- The scorers of a payload are absent, or they are read and every one holds. -/
def Vouched : Prop :=
  ∀ v, payload.get "scorers" = some v →
    ∃ scorers, env.scorersFromValue v = some scorers ∧ ∀ s ∈ scorers, Holds env payload s

structure FailsClosed (durationMs : ℕ) : Prop where
  calm : execute env durationMs payload ≠ .error .panicked
  vouched : ∀ result, execute env durationMs payload = .ok result →
    result.output.get "passed" = some (.bool true) → Vouched env payload

/-- No judge's answer is crossed, the scorers that are there can be read, and where one is exposed
one refuses. -/
structure Sound : Prop where
  whole : ∀ s ∈ scorersOf env payload, ¬ CrossedReply env payload s
  parsed : ∀ v, payload.get "scorers" = some v → (env.scorersFromValue v).isSome = true
  guarded : (∃ s ∈ scorersOf env payload, Exposed env payload s) →
    ∃ s ∈ scorersOf env payload, Refuses env payload s

/-- An evaluation fails closed on these inputs and on no others. -/
theorem failsClosed_iff (durationMs : ℕ) :
    FailsClosed env payload durationMs ↔ Sound env payload := by
  constructor
  · intro h
    have hwhole : ∀ s ∈ scorersOf env payload, ¬ CrossedReply env payload s :=
      fun s hs hcrossed => h.calm (execute_panicked_iff.mpr ⟨s, hs, hcrossed⟩)
    have hvouched : (∀ s ∈ scorersOf env payload, ¬ Refuses env payload s) →
        Vouched env payload := by
      intro hpasses
      obtain ⟨result, hresult, hpassed⟩ := execute_passed_iff.mpr
        fun s hs => ⟨hwhole s hs, hpasses s hs⟩
      exact h.vouched result hresult hpassed
    refine ⟨hwhole, fun v hv => ?_, ?_⟩
    · cases hread : env.scorersFromValue v with
      | some scorers => rfl
      | none =>
        have hnone : scorersOf env payload = [] := by simp [scorersOf, hv, hread]
        obtain ⟨scorers, hscorers, -⟩ := hvouched (by simp [hnone]) v hv
        rw [hread] at hscorers
        cases hscorers
    · rintro ⟨s, hs, hexposed⟩
      by_contra hpasses
      have hpass : ∀ s ∈ scorersOf env payload, ¬ Refuses env payload s :=
        fun s hs hrefuses => hpasses ⟨s, hs, hrefuses⟩
      obtain ⟨v, hv, hmem⟩ : ∃ v, payload.get "scorers" = some v ∧
          s ∈ (env.scorersFromValue v).getD [] := by
        cases hv : payload.get "scorers" with
        | none => simp [scorersOf, hv] at hs
        | some v => exact ⟨v, rfl, by simpa [scorersOf, hv] using hs⟩
      obtain ⟨scorers, hscorers, hholds⟩ := hvouched hpass v hv
      rw [hscorers, Option.getD_some] at hmem
      exact (holds_iff (hpass s hs)).mp (hholds s hmem) hexposed
  · rintro ⟨hwhole, hparsed, hguarded⟩
    constructor
    · rw [ne_eq, execute_panicked_iff]
      rintro ⟨s, hs, hcrossed⟩
      exact hwhole s hs hcrossed
    · intro result hresult hpassed v hv
      obtain ⟨scorers, hscorers⟩ := Option.isSome_iff_exists.mp (hparsed v hv)
      have hread : scorersOf env payload = scorers := by simp [scorersOf, hv, hscorers]
      have hpasses := execute_passed_iff.mp ⟨result, hresult, hpassed⟩
      refine ⟨scorers, hscorers, fun s hs => ?_⟩
      rw [← hread] at hs
      refine (holds_iff (hpasses s hs).2).mpr fun hexposed => ?_
      obtain ⟨s', hs', hrefuses⟩ := hguarded ⟨s, hs, hexposed⟩
      exact (hpasses s' hs').2 hrefuses

end Scorers

/-- A judge that scores one output, far above five. -/
def generousJudge : ExecutorEnv where
  chat _ := .ok ⟨"\x7b\"score\": 261\x7d", "model", "stop", 1, 1, []⟩
  fromStr text :=
    if text = "\x7b\"score\": 261\x7d" then some (.object [("score", .number (.int 261))]) else none
  scorersFromValue v :=
    match v with
    | .array [.object [("min_score", .number (.int 4)), ("model", .string "m"),
        ("rubric", .string "r"), ("type", .string "llm_judge")]] => some [.llmJudge "m" "r" 4]
    | _ => none
  onFailFromValue _ := none
  malformed _ := ""
  fixed _ _ := ""

def judgedPayload : Json :=
  .object [("scorers", .array [.object [("min_score", .number (.int 4)), ("model", .string "m"),
    ("rubric", .string "r"), ("type", .string "llm_judge")]])]

theorem generous_score_passes :
    let _ : FloatText := bitsText
    let _ : F64 := costless
    ¬ FailsClosed generousJudge judgedPayload 0 := by
  intro _ _ h
  have hscorers : scorersOf generousJudge judgedPayload = [.llmJudge "m" "r" 4] := rfl
  have hreply : judgeReply generousJudge "m" "r" (subjectOf judgedPayload).output =
      "\x7b\"score\": 261\x7d".toList := by decide
  have hobject : judgeObject "\x7b\"score\": 261\x7d".toList =
      .ok (some "\x7b\"score\": 261\x7d".toList) := by decide
  have hverdict : judgeVerdict generousJudge "\x7b\"score\": 261\x7d".toList =
      some (.object [("score", .number (.int 261))]) := by
    unfold judgeVerdict
    rw [hobject]
    rfl
  have hpasses : ∀ s ∈ scorersOf generousJudge judgedPayload,
      ¬ CrossedReply generousJudge judgedPayload s ∧ ¬ Refuses generousJudge judgedPayload s := by
    rw [hscorers]
    intro s hs
    rw [List.mem_singleton.mp hs]
    simp only [CrossedReply, Refuses, hreply]
    constructor
    · intro hcrossed
      rw [judgeObject_error_iff.mpr ⟨rfl, hcrossed⟩] at hobject
      cases hobject
    · intro hrefuses
      exact absurd (hrefuses _ hverdict) (by decide)
  obtain ⟨result, hresult, hpassed⟩ := execute_passed_iff.mpr hpasses
  obtain ⟨scorers, hread, hholds⟩ := h.vouched result hresult hpassed _ rfl
  cases hread
  obtain ⟨text, -, fields, hparsed, n, hn, -, hfive⟩ := hholds _ List.mem_cons_self
  simp only [generousJudge] at hparsed
  split at hparsed
  · cases hparsed
    cases hn
    omega
  · cases hparsed

end JamJet.EvalExecutor
