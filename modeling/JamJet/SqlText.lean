import JamJet.CharList
import Mathlib.Data.List.Perm.Basic
import Mathlib.Data.List.Sort
import Mathlib.Data.String.Basic
import Mathlib.Tactic.Common

/-! The text of the simplest `SELECT` statements: how it is cut into tokens, how the tokens are
read, and which rows the statement selects.  A statement outside this fragment has no meaning
here. -/

namespace JamJet

namespace SqlText

inductive Comparator
  | eq
  | ge
  | le
  deriving DecidableEq, Repr

def Comparator.text : Comparator → String
  | .eq => "="
  | .ge => ">="
  | .le => "<="

inductive Token
  | word (name : String)
  | integer (n : ℕ)
  | literal (text : String)
  | comparator (op : Comparator)
  | star
  | leftParen
  | rightParen
  deriving DecidableEq, Repr

/-- What of a token has been read: `closing` stands at a quote that ends a literal, unless a second
one follows. -/
inductive Mode
  | start
  | word (chars : List Char)
  | integer (digits : List Char)
  | literal (chars : List Char)
  | closing (chars : List Char)
  | greater
  | less

def wordStart (c : Char) : Bool := c.isAlpha || c = '_'

def wordChar (c : Char) : Bool := wordStart c || c.isDigit

/-- The first character of a token. -/
def beginToken (c : Char) : Option (List Token × Mode) :=
  if c = ' ' then some ([], .start)
  else if c = '\'' then some ([], .literal [])
  else if wordStart c then some ([], .word [c])
  else if c.isDigit then some ([], .integer [c])
  else if c = '=' then some ([.comparator .eq], .start)
  else if c = '>' then some ([], .greater)
  else if c = '<' then some ([], .less)
  else if c = '*' then some ([.star], .start)
  else if c = '(' then some ([.leftParen], .start)
  else if c = ')' then some ([.rightParen], .start)
  else none

/-- The token that ends where the text does. -/
def Mode.flush : Mode → Option (List Token)
  | .start => some []
  | .word chars => some [.word (String.ofList chars)]
  | .integer digits => some [.integer (Nat.ofDigitChars 10 digits 0)]
  | .closing chars => some [.literal (String.ofList chars)]
  | .literal _ | .greater | .less => none

/-- A token ends and another begins. -/
def Mode.turn (m : Mode) (c : Char) : Option (List Token × Mode) := do
  let done ← m.flush
  let next ← beginToken c
  return (done ++ next.1, next.2)

def Mode.step (m : Mode) (c : Char) : Option (List Token × Mode) :=
  match m with
  | .start => beginToken c
  | .word chars => if wordChar c then some ([], .word (chars ++ [c])) else m.turn c
  | .integer digits =>
      if c.isDigit then some ([], .integer (digits ++ [c]))
      else if wordStart c then none
      else m.turn c
  | .literal chars =>
      -- a statement ends at a NUL, wherever it stands
      if c = Char.ofNat 0 then none
      else if c = '\'' then some ([], .closing chars)
      else some ([], .literal (chars ++ [c]))
  | .closing chars => if c = '\'' then some ([], .literal (chars ++ [c])) else m.turn c
  | .greater => if c = '=' then some ([.comparator .ge], .start) else none
  | .less => if c = '=' then some ([.comparator .le], .start) else none

def lexFrom (m : Mode) : List Char → Option (List Token)
  | [] => m.flush
  | c :: cs => do
      let next ← m.step c
      let rest ← lexFrom next.2 cs
      return next.1 ++ rest

def lex (sql : String) : Option (List Token) := lexFrom .start sql.toList

section Lexing

variable {m : Mode} {cs rest : List Char}

theorem lexFrom_cons {c : Char} {tokens : List Token} {m' : Mode}
    (h : m.step c = some (tokens, m')) :
    lexFrom m (c :: cs) = (lexFrom m' cs).map (tokens ++ ·) := by
  simp only [lexFrom, h, Option.bind_eq_bind, Option.bind_some]
  cases lexFrom m' cs with
  | none => rfl
  | some rest => rfl

theorem lexFrom_silent {c : Char} {m' : Mode} (h : m.step c = some ([], m')) :
    lexFrom m (c :: cs) = lexFrom m' cs := by
  rw [lexFrom_cons h]
  simp

theorem lexFrom_space {done : List Token} (hm : m.flush = some done) :
    lexFrom m (' ' :: cs) = (lexFrom .start cs).map (done ++ ·) := by
  have hturn : m.turn ' ' = some (done, .start) := by
    simp [Mode.turn, hm, beginToken]
  have hstep : m.step ' ' = some (done, .start) := by
    cases m with
    | start =>
      cases hm
      rfl
    | word chars => exact hturn
    | integer digits => exact hturn
    | closing chars => exact hturn
    | literal chars => cases hm
    | greater => cases hm
    | less => cases hm
  exact lexFrom_cons hstep

/-- A text that neither ends a literal nor the statement. -/
def Plain (text : String) : Prop := ∀ c ∈ text.toList, c ≠ '\'' ∧ c ≠ Char.ofNat 0

instance (text : String) : Decidable (Plain text) :=
  inferInstanceAs (Decidable (∀ c ∈ text.toList, c ≠ '\'' ∧ c ≠ Char.ofNat 0))

theorem lexFrom_inside {acc v : List Char} (h : ∀ c ∈ v, c ≠ '\'' ∧ c ≠ Char.ofNat 0) :
    lexFrom (.literal acc) (v ++ '\'' :: rest) = lexFrom (.closing (acc ++ v)) rest := by
  induction v generalizing acc with
  | nil =>
    have hstep : (Mode.literal acc).step '\'' = some ([], .closing acc) := rfl
    rw [List.nil_append, lexFrom_silent hstep, List.append_nil]
  | cons c v ih =>
    obtain ⟨hquote, hnul⟩ := h c (by simp)
    have hstep : (Mode.literal acc).step c = some ([], .literal (acc ++ [c])) := by
      simp [Mode.step, hquote, hnul]
    have hrest := @ih (acc ++ [c]) fun d hd => h d (by simp [hd])
    rw [List.cons_append, lexFrom_silent hstep, hrest, List.append_assoc]
    rfl

theorem lexFrom_literal {v : String} (h : Plain v) :
    lexFrom .start ('\'' :: (v.toList ++ '\'' :: rest)) = lexFrom (.closing v.toList) rest := by
  have hstep : Mode.start.step '\'' = some ([], .literal []) := rfl
  rw [lexFrom_silent hstep, lexFrom_inside h]
  rfl

/-- A name or a keyword. -/
def Wordlike : List Char → Prop
  | [] => False
  | c :: cs => wordStart c = true ∧ ∀ d ∈ cs, wordChar d = true

instance : DecidablePred Wordlike
  | [] => .isFalse id
  | c :: cs => inferInstanceAs (Decidable (wordStart c = true ∧ ∀ d ∈ cs, wordChar d = true))

theorem lexFrom_wordTail {acc : List Char} (h : ∀ d ∈ cs, wordChar d = true) :
    lexFrom (.word acc) (cs ++ rest) = lexFrom (.word (acc ++ cs)) rest := by
  induction cs generalizing acc with
  | nil => simp
  | cons d cs ih =>
    have hstep : (Mode.word acc).step d = some ([], .word (acc ++ [d])) := by
      simp [Mode.step, h d (by simp)]
    have hrest := @ih (acc ++ [d]) fun x hx => h x (by simp [hx])
    rw [List.cons_append, lexFrom_silent hstep, hrest, List.append_assoc]
    rfl

theorem lexFrom_word {w : String} (h : Wordlike w.toList) :
    lexFrom .start (w.toList ++ rest) = lexFrom (.word w.toList) rest := by
  cases hw : w.toList with
  | nil =>
    rw [hw] at h
    cases h
  | cons c cs =>
    rw [hw] at h
    obtain ⟨hc, hcs⟩ := h
    have hspace : c ≠ ' ' := by
      rintro rfl
      cases hc
    have hquote : c ≠ '\'' := by
      rintro rfl
      cases hc
    have hstep : Mode.start.step c = some ([], .word [c]) := by
      simp [Mode.step, beginToken, hspace, hquote, hc]
    rw [List.cons_append, lexFrom_silent hstep, lexFrom_wordTail hcs]
    rfl

theorem lexFrom_wordSpace {w : String} (h : Wordlike w.toList) :
    lexFrom .start (w.toList ++ ' ' :: rest) = (lexFrom .start rest).map ([.word w] ++ ·) := by
  have hflush : (Mode.word w.toList).flush = some [.word w] := by simp [Mode.flush]
  rw [lexFrom_word h, lexFrom_space hflush]

theorem lexFrom_comparator (op : Comparator) :
    lexFrom .start (op.text.toList ++ rest) =
      (lexFrom .start rest).map ([Token.comparator op] ++ ·) := by
  cases op with
  | eq =>
    have hstep : Mode.start.step '=' = some ([.comparator .eq], .start) := rfl
    exact lexFrom_cons hstep
  | ge =>
    have hfirst : Mode.start.step '>' = some ([], .greater) := rfl
    have hlast : Mode.greater.step '=' = some ([.comparator .ge], .start) := rfl
    exact (lexFrom_silent hfirst).trans (lexFrom_cons hlast)
  | le =>
    have hfirst : Mode.start.step '<' = some ([], .less) := rfl
    have hlast : Mode.less.step '=' = some ([.comparator .le], .start) := rfl
    exact (lexFrom_silent hfirst).trans (lexFrom_cons hlast)

theorem lexFrom_digits {acc ds : List Char} (h : ∀ d ∈ ds, d.isDigit = true) :
    lexFrom (.integer acc) (ds ++ rest) = lexFrom (.integer (acc ++ ds)) rest := by
  induction ds generalizing acc with
  | nil => simp
  | cons d ds ih =>
    have hstep : (Mode.integer acc).step d = some ([], .integer (acc ++ [d])) := by
      simp [Mode.step, h d (by simp)]
    have hrest := @ih (acc ++ [d]) fun x hx => h x (by simp [hx])
    rw [List.cons_append, lexFrom_silent hstep, hrest, List.append_assoc]
    rfl

theorem wordStart_of_isDigit {d : Char} (hd : d.isDigit = true) : wordStart d = false := by
  have halpha : d.isAlpha = false := by
    rw [Char.isDigit_iff_toNat] at hd
    obtain ⟨hlow, hhigh⟩ := hd
    have hval : d.toNat = d.val.toNat := rfl
    have hnine : '9'.toNat = 57 := rfl
    have hletters : d.isAlpha = (decide (d.val ≥ 'A'.val ∧ d.val ≤ 'Z'.val) ||
        (decide (d.val ≥ 'a'.val) && decide (d.val ≤ 'z'.val))) := rfl
    cases h : d.isAlpha with
    | false => rfl
    | true =>
      rw [hletters] at h
      simp [UInt32.le_iff_toNat_le] at h
      omega
  have hunderscore : d ≠ '_' := by
    rintro rfl
    cases hd
  simp [wordStart, halpha, hunderscore]

theorem lexFrom_number (n : ℕ) :
    ∃ m : Mode, m.flush = some [.integer n] ∧
      ∀ rest, lexFrom .start ((toString n).toList ++ rest) = lexFrom m rest := by
  have hchars : (toString n).toList = Nat.toDigits 10 n := by
    rw [Nat.toString_eq_ofList_toDigits, String.toList_ofList]
  have hdigits : ∀ d ∈ Nat.toDigits 10 n, d.isDigit = true := fun d hd =>
    Nat.isDigit_of_mem_toDigits (by decide) (by decide) hd
  refine ⟨.integer (Nat.toDigits 10 n), ?_, fun rest => ?_⟩
  · simp [Mode.flush]
  rw [hchars]
  cases hcase : Nat.toDigits 10 n with
  | nil => exact absurd hcase Nat.toDigits_ne_nil
  | cons d ds =>
    rw [hcase] at hdigits
    have hd : d.isDigit = true := hdigits d (by simp)
    have hspace : d ≠ ' ' := by
      rintro rfl
      cases hd
    have hquote : d ≠ '\'' := by
      rintro rfl
      cases hd
    have hstart := wordStart_of_isDigit hd
    have hstep : Mode.start.step d = some ([], .integer [d]) := by
      simp [Mode.step, beginToken, hspace, hquote, hstart, hd]
    rw [List.cons_append, lexFrom_silent hstep,
      lexFrom_digits fun x hx => hdigits x (by simp [hx])]
    rfl

/-- What is read after a token that is complete: nothing, or a space and the rest. -/
def after : List Char → Option (List Token)
  | [] => some []
  | ' ' :: cs => lexFrom .start cs
  | _ => none

/-- A text that closes whatever token stands before it. -/
def Closes (rest : List Char) : Prop := rest = [] ∨ ∃ cs, rest = ' ' :: cs

theorem lexFrom_closes {done : List Token} (hm : m.flush = some done) (h : Closes rest) :
    lexFrom m rest = (after rest).map (done ++ ·) := by
  rcases h with rfl | ⟨cs, rfl⟩
  · rw [lexFrom, hm, after]
    simp
  · exact lexFrom_space hm

end Lexing

/-! Filters joined by `AND` -/

/-- A column compared with a text. -/
structure Filter where
  column : String
  op : Comparator
  value : String

namespace Filter

def text (f : Filter) : String := f.column ++ " " ++ f.op.text ++ " '" ++ f.value ++ "'"

def tokens (f : Filter) : List Token := [.word f.column, .comparator f.op, .literal f.value]

/-- The column is a name, and the value stays inside its quotes. -/
structure Safe (f : Filter) : Prop where
  column : Wordlike f.column.toList
  value : Plain f.value

variable {m : Mode} {rest : List Char} {done : List Token} {f : Filter}

theorem lexFrom_text (hf : f.Safe) (h : Closes rest) :
    lexFrom .start (f.text.toList ++ rest) = (after rest).map (f.tokens ++ ·) := by
  have hchars : f.text.toList ++ rest = f.column.toList ++ (' ' :: (f.op.text.toList ++
      (' ' :: '\'' :: (f.value.toList ++ '\'' :: rest)))) := by
    simp [text]
  have hword : (Mode.word f.column.toList).flush = some [.word f.column] := by
    simp [Mode.flush]
  have hclosing : (Mode.closing f.value.toList).flush = some [.literal f.value] := by
    simp [Mode.flush]
  have hspace : Mode.start.flush = some [] := rfl
  rw [hchars, lexFrom_word hf.column, lexFrom_space hword, lexFrom_comparator,
    lexFrom_space hspace, lexFrom_literal hf.value, lexFrom_closes hclosing h]
  cases after rest with
  | none => rfl
  | some tokens => rfl

/-- The text of the filters that follow a first one. -/
def conjoined (fs : List Filter) : List Char := fs.flatMap fun f => " AND ".toList ++ f.text.toList

def conjoinedTokens (fs : List Filter) : List Token := fs.flatMap fun f => .word "AND" :: f.tokens

theorem closes_conjoined (fs : List Filter) (h : Closes rest) : Closes (conjoined fs ++ rest) := by
  cases fs with
  | nil => exact h
  | cons f fs => exact .inr ⟨_, rfl⟩

theorem after_conjoined (fs : List Filter) (hfs : ∀ f ∈ fs, f.Safe) (h : Closes rest) :
    after (conjoined fs ++ rest) = (after rest).map (conjoinedTokens fs ++ ·) := by
  induction fs with
  | nil =>
    change after rest = _
    simp [conjoinedTokens]
  | cons f fs ih =>
    have htail := ih fun x hx => hfs x (by simp [hx])
    have hchars : conjoined (f :: fs) ++ rest = ' ' :: ("AND".toList ++ ' ' ::
        (f.text.toList ++ (conjoined fs ++ rest))) := by
      simp [conjoined]
    have hand : (Mode.word "AND".toList).flush = some [.word "AND"] := rfl
    have hwordlike : Wordlike "AND".toList := by decide
    rw [hchars, after, lexFrom_word hwordlike, lexFrom_space hand,
      lexFrom_text (hfs f (by simp)) (closes_conjoined fs h), htail]
    cases after rest with
    | none => rfl
    | some tokens => simp [conjoinedTokens]

end Filter

/-! Reading the tokens -/

inductive Operand
  | column (name : String)
  | text (s : String)
  | integer (n : ℕ)
  deriving DecidableEq, Repr

structure Comparison where
  left : Operand
  op : Comparator
  right : Operand
  deriving DecidableEq, Repr

def Filter.comparison (f : Filter) : Comparison := ⟨.column f.column, f.op, .text f.value⟩

/-- The statements of the fragment; a condition is a list of alternatives, each of them a list of
comparisons. -/
inductive Query
  | rows (table : String) (condition : List (List Comparison)) (latestBy : String)
      (limit offset : ℕ)
  | count (table : String) (condition : List (List Comparison))
  deriving Repr

def operand : Token → Option Operand
  | .word name => some (.column name)
  | .literal s => some (.text s)
  | .integer n => some (.integer n)
  | _ => none

/-- Comparisons joined by `AND`, and what follows them. -/
def parseConjunction : List Token → Option (List Comparison × List Token)
  | left :: .comparator op :: right :: rest => do
      let l ← operand left
      let r ← operand right
      match rest with
      | .word w :: more =>
          if w = "AND" then
            let next ← parseConjunction more
            return (⟨l, op, r⟩ :: next.1, next.2)
          else return ([⟨l, op, r⟩], rest)
      | _ => return ([⟨l, op, r⟩], rest)
  | _ => none

/-- Conjunctions joined by `OR`: `AND` binds tighter. -/
def parseCondition : ℕ → List Token → Option (List (List Comparison) × List Token)
  | 0, _ => none
  | fuel + 1, tokens => do
      let first ← parseConjunction tokens
      match first.2 with
      | .word w :: more =>
          if w = "OR" then
            let next ← parseCondition fuel more
            return (first.1 :: next.1, next.2)
          else return ([first.1], first.2)
      | _ => return ([first.1], first.2)

/-- `ORDER BY column DESC LIMIT n OFFSET m`. -/
def parseWindow : List Token → Option (String × ℕ × ℕ)
  | [.word order, .word by_, .word column, .word desc, .word limit, .integer n, .word offset,
      .integer m] =>
      if order = "ORDER" ∧ by_ = "BY" ∧ desc = "DESC" ∧ limit = "LIMIT" ∧ offset = "OFFSET" then
        some (column, n, m)
      else none
  | _ => none

def parseRows (table : String) (tokens : List Token) : Option Query := do
  let condition ← parseCondition tokens.length tokens
  let window ← parseWindow condition.2
  return .rows table condition.1 window.1 window.2.1 window.2.2

def parseCount (table : String) (tokens : List Token) : Option Query := do
  let condition ← parseCondition tokens.length tokens
  if condition.2.isEmpty then return .count table condition.1 else none

def parseTokens : List Token → Option Query
  | .word select :: .star :: .word from_ :: .word table :: .word where_ :: rest =>
      if select = "SELECT" ∧ from_ = "FROM" ∧ where_ = "WHERE" then parseRows table rest else none
  | .word select :: .word count :: .leftParen :: .star :: .rightParen :: .word from_ ::
      .word table :: .word where_ :: rest =>
      if select = "SELECT" ∧ count = "COUNT" ∧ from_ = "FROM" ∧ where_ = "WHERE" then
        parseCount table rest
      else none
  | _ => none

def parse (sql : String) : Option Query := (lex sql).bind parseTokens

/-! What a statement selects -/

def Comparator.holds {α : Type} [LE α] [DecidableEq α] [DecidableLE α] : Comparator → α → α → Bool
  | .eq, a, b => a = b
  | .ge, a, b => b ≤ a
  | .le, a, b => a ≤ b

section Meaning

variable {ρ : Type} (columns : String → Option (ρ → String))

/-- The text an operand stands for in a row. -/
def Operand.value (r : ρ) : Operand → Option String
  | .column name => (columns name).map (· r)
  | .text s => some s
  | .integer _ => none

def Comparison.holds (r : ρ) (c : Comparison) : Bool :=
  match c.left, c.right with
  | .integer a, .integer b => c.op.holds a b
  | left, right =>
      match left.value columns r, right.value columns r with
      | some a, some b => c.op.holds a b
      | _, _ => false

def holds (condition : List (List Comparison)) (r : ρ) : Bool :=
  condition.any fun conjunction => conjunction.all (Comparison.holds columns r)

/-- A text, or a column of texts that are never absent. -/
def Operand.isText : Operand → Bool
  | .column name => (columns name).isSome
  | .text _ => true
  | .integer _ => false

/-- Both sides are texts or both are numbers: no affinity comes into play. -/
def Comparison.typed (c : Comparison) : Bool :=
  match c.left, c.right with
  | .integer _, .integer _ => true
  | left, right => left.isText columns && right.isText columns

def typed (condition : List (List Comparison)) : Bool :=
  condition.all fun conjunction => conjunction.all (Comparison.typed columns)

/-- A window of the rows that meet a condition, the latest by a column first; rows with the same
text there may stand in any order. -/
def Window (condition : List (List Comparison)) (latestBy : ρ → String) (limit offset : ℕ)
    (all result : List ρ) : Prop :=
  ∃ ordered : List ρ, ordered.Perm (all.filter (holds columns condition)) ∧
    ordered.Pairwise (fun a b => latestBy b ≤ latestBy a) ∧
    result = (ordered.drop offset).take limit

end Meaning

/-- A database that answers statements over a table of rows. -/
structure Driver (ρ : Type) where
  rows : String → List ρ → Except String (List ρ)
  count : String → List ρ → Except String ℕ

/-- The statements of the fragment are answered as they read. -/
structure Driver.Conforms {ρ : Type} (db : Driver ρ) (table : String)
    (columns : String → Option (ρ → String)) : Prop where
  rows : ∀ {sql condition column latestBy limit offset},
    parse sql = some (.rows table condition column limit offset) →
    typed columns condition = true → columns column = some latestBy →
    ∀ all, ∃ result, db.rows sql all = .ok result ∧
      Window columns condition latestBy limit offset all result
  count : ∀ {sql condition}, parse sql = some (.count table condition) →
    typed columns condition = true →
    ∀ all, db.count sql all = .ok (all.filter (holds columns condition)).length

/-- Answers the fragment, ties in the order of the table, and nothing else. -/
def reference {ρ : Type} (table : String) (columns : String → Option (ρ → String)) : Driver ρ where
  rows sql all :=
    match parse sql with
    | some (.rows t condition column limit offset) =>
        match columns column with
        | some latestBy =>
            if t = table ∧ typed columns condition = true then
              .ok ((((all.filter (holds columns condition)).insertionSort
                fun a b => latestBy b ≤ latestBy a).drop offset).take limit)
            else .error "SQL logic error"
        | none => .error "SQL logic error"
    | _ => .error "SQL logic error"
  count sql all :=
    match parse sql with
    | some (.count t condition) =>
        if t = table ∧ typed columns condition = true then
          .ok (all.filter (holds columns condition)).length
        else .error "SQL logic error"
    | _ => .error "SQL logic error"

theorem reference_conforms {ρ : Type} (table : String) (columns : String → Option (ρ → String)) :
    (reference table columns).Conforms table columns where
  rows {sql condition column latestBy limit offset} hsql htyped hcolumn all := by
    have hanswer : (reference table columns).rows sql all =
        .ok ((((all.filter (holds columns condition)).insertionSort
          fun a b => latestBy b ≤ latestBy a).drop offset).take limit) := by
      simp [reference, hsql, hcolumn, htyped]
    have : Std.Total fun a b : ρ => latestBy b ≤ latestBy a := ⟨fun a b => le_total _ _⟩
    have : IsTrans ρ fun a b => latestBy b ≤ latestBy a := ⟨fun a b c hab hbc => hbc.trans hab⟩
    exact ⟨_, hanswer, _, List.perm_insertionSort _ _, List.pairwise_insertionSort _ _, rfl⟩
  count {sql condition} hsql htyped all := by simp [reference, hsql, htyped]

/-! A statement whose condition is a list of filters -/

section Filters

theorem parseConjunction_filters (fs : List Filter) (l r : Operand) (op : Comparator)
    {left right : Token} (hl : operand left = some l) (hr : operand right = some r)
    {rest : List Token} (hrest : ∀ w more, rest = .word w :: more → w ≠ "AND") :
    parseConjunction (left :: .comparator op :: right :: (Filter.conjoinedTokens fs ++ rest)) =
      some (⟨l, op, r⟩ :: fs.map Filter.comparison, rest) := by
  induction fs generalizing l r op left right with
  | nil =>
    simp only [Filter.conjoinedTokens, List.flatMap_nil, List.nil_append]
    unfold parseConjunction
    simp only [hl, hr, Option.bind_eq_bind, Option.bind_some]
    split
    · rename_i w more
      simp [hrest w more rfl]
    · rfl
  | cons f fs ih =>
    have hcolumn : operand (.word f.column) = some (.column f.column) := rfl
    have htext : operand (.literal f.value) = some (.text f.value) := rfl
    have hnext := ih (.column f.column) (.text f.value) f.op hcolumn htext
    have htokens : Filter.conjoinedTokens (f :: fs) ++ rest = .word "AND" :: .word f.column ::
        .comparator f.op :: .literal f.value :: (Filter.conjoinedTokens fs ++ rest) := by
      simp [Filter.conjoinedTokens, Filter.tokens]
    rw [htokens, parseConjunction]
    simp [hl, hr, hnext, Filter.comparison]

theorem parseCondition_filters (fs : List Filter) {fuel : ℕ} (hfuel : 0 < fuel)
    (l r : Operand) (op : Comparator)
    {left right : Token} (hl : operand left = some l) (hr : operand right = some r)
    {rest : List Token} (hrest : ∀ w more, rest = .word w :: more → w ≠ "AND" ∧ w ≠ "OR") :
    parseCondition fuel
        (left :: .comparator op :: right :: (Filter.conjoinedTokens fs ++ rest)) =
      some ([⟨l, op, r⟩ :: fs.map Filter.comparison], rest) := by
  obtain ⟨fuel, rfl⟩ := Nat.exists_eq_succ_of_ne_zero hfuel.ne'
  have hconj := parseConjunction_filters fs l r op hl hr fun w more h => (hrest w more h).1
  rw [parseCondition, hconj]
  simp only [Option.bind_eq_bind, Option.bind_some]
  split
  · rename_i w more
    simp [(hrest w more rfl).2]
  · rfl

/-- `slice::join`. -/
def joinWith (sep : String) : List String → String
  | [] => ""
  | x :: rest => x ++ String.ofList (rest.flatMap fun y => sep.toList ++ y.toList)

/-- The condition as it is assembled: a comparison that always holds, then the filters. -/
def conditionText (fs : List Filter) : String := joinWith " AND " ("1=1" :: fs.map Filter.text)

def condition (fs : List Filter) : List (List Comparison) :=
  [⟨.integer 1, .eq, .integer 1⟩ :: fs.map Filter.comparison]

def conditionTokens (fs : List Filter) : List Token :=
  .integer 1 :: .comparator .eq :: .integer 1 :: Filter.conjoinedTokens fs

theorem conditionText_toList (fs : List Filter) :
    (conditionText fs).toList = "1=1".toList ++ Filter.conjoined fs := by
  simp [conditionText, joinWith, Filter.conjoined, List.flatMap_map]

theorem lexFrom_condition (fs : List Filter) (hfs : ∀ f ∈ fs, f.Safe) {rest : List Char}
    (h : Closes rest) :
    lexFrom .start ((conditionText fs).toList ++ rest) =
      (after rest).map (conditionTokens fs ++ ·) := by
  have hone : Mode.start.step '1' = some ([], .integer ['1']) := rfl
  have heq : (Mode.integer ['1']).step '=' = some ([.integer 1, .comparator .eq], .start) := rfl
  have hflush : (Mode.integer ['1']).flush = some [.integer 1] := rfl
  have hchars : (conditionText fs).toList ++ rest =
      '1' :: '=' :: '1' :: (Filter.conjoined fs ++ rest) := by
    simp [conditionText_toList]
  rw [hchars, lexFrom_silent hone, lexFrom_cons heq, lexFrom_silent hone,
    lexFrom_closes hflush (Filter.closes_conjoined fs h), Filter.after_conjoined fs hfs h]
  cases after rest with
  | none => rfl
  | some tokens => rfl

theorem length_conditionTokens (fs : List Filter) (rest : List Token) :
    0 < (conditionTokens fs ++ rest).length := Nat.succ_pos _

theorem parseCondition_condition (fs : List Filter) {rest : List Token} {fuel : ℕ}
    (hfuel : 0 < fuel) (hrest : ∀ w more, rest = .word w :: more → w ≠ "AND" ∧ w ≠ "OR") :
    parseCondition fuel (conditionTokens fs ++ rest) = some (condition fs, rest) := by
  have hone : operand (.integer 1) = some (.integer 1) := rfl
  exact parseCondition_filters fs hfuel (.integer 1) (.integer 1) .eq hone hone hrest

def countText (table : String) (fs : List Filter) : String :=
  "SELECT COUNT(*) FROM " ++ table ++ " WHERE " ++ conditionText fs

def rowsText (table : String) (fs : List Filter) (column : String) (limit offset : ℕ) : String :=
  "SELECT * FROM " ++ table ++ " WHERE " ++ conditionText fs ++ " ORDER BY " ++ column ++
    " DESC LIMIT " ++ toString limit ++ " OFFSET " ++ toString offset

theorem toList_countText (select table where_ condition : String) :
    (select ++ table ++ where_ ++ condition).toList =
      select.toList ++ (table.toList ++ (where_.toList ++ condition.toList)) := by
  simp only [String.toList_append, List.append_assoc]

theorem toList_rowsText (select table where_ condition order column desc limit off offset : String) :
    (select ++ table ++ where_ ++ condition ++ order ++ column ++ desc ++ limit ++ off ++
      offset).toList =
      select.toList ++ (table.toList ++ (where_.toList ++ (condition.toList ++ (order.toList ++
        (column.toList ++ (desc.toList ++ (limit.toList ++ (off.toList ++
          offset.toList)))))))) := by
  simp only [String.toList_append, List.append_assoc]

variable {table column : String} {fs : List Filter}

theorem parse_countText (htable : Wordlike table.toList) (hfs : ∀ f ∈ fs, f.Safe) :
    parse (countText table fs) = some (.count table (condition fs)) := by
  have hclosed : Closes ([] : List Char) := .inl rfl
  have hcondition := lexFrom_condition fs hfs hclosed
  rw [List.append_nil] at hcondition
  have hchars : (countText table fs).toList = "SELECT".toList ++ ' ' ::
      ("COUNT".toList ++ '(' :: '*' :: ')' :: ' ' :: ("FROM".toList ++ ' ' ::
        (table.toList ++ ' ' :: ("WHERE".toList ++ ' ' :: (conditionText fs).toList)))) :=
    toList_countText _ _ _ _
  have hcount : (Mode.word "COUNT".toList).step '(' =
      some ([.word "COUNT", .leftParen], .start) := rfl
  have hstar : Mode.start.step '*' = some ([.star], .start) := rfl
  have hparen : Mode.start.step ')' = some ([.rightParen], .start) := rfl
  have hspace : Mode.start.step ' ' = some ([], .start) := rfl
  have hlex : lex (countText table fs) = some (.word "SELECT" :: .word "COUNT" :: .leftParen ::
      .star :: .rightParen :: .word "FROM" :: .word table :: .word "WHERE" ::
        (conditionTokens fs ++ [])) := by
    rw [lex, hchars, lexFrom_wordSpace (by decide), lexFrom_word (by decide), lexFrom_cons hcount,
      lexFrom_cons hstar, lexFrom_cons hparen, lexFrom_silent hspace,
      lexFrom_wordSpace (by decide), lexFrom_wordSpace htable, lexFrom_wordSpace (by decide),
      hcondition]
    rfl
  have hnext : ∀ w more, ([] : List Token) = .word w :: more → w ≠ "AND" ∧ w ≠ "OR" := nofun
  have hparsed := parseCondition_condition fs (length_conditionTokens fs []) hnext
  rw [parse, hlex, Option.bind_some, parseTokens]
  simp only [and_self, if_true, parseCount, hparsed, Option.bind_eq_bind, Option.bind_some]
  rfl

theorem parse_rowsText (htable : Wordlike table.toList) (hcolumn : Wordlike column.toList)
    (hfs : ∀ f ∈ fs, f.Safe) (limit offset : ℕ) :
    parse (rowsText table fs column limit offset) =
      some (.rows table (condition fs) column limit offset) := by
  obtain ⟨limitMode, hlimit, hlexLimit⟩ := lexFrom_number limit
  obtain ⟨offsetMode, hoffset, hlexOffset⟩ := lexFrom_number offset
  -- the text after the condition, and its tokens
  let tail : List Char := ' ' :: ("ORDER".toList ++ ' ' :: ("BY".toList ++ ' ' ::
    (column.toList ++ ' ' :: ("DESC".toList ++ ' ' :: ("LIMIT".toList ++ ' ' ::
      ((toString limit).toList ++ ' ' :: ("OFFSET".toList ++ ' ' ::
        (toString offset).toList)))))))
  let window : List Token := [.word "ORDER", .word "BY", .word column, .word "DESC",
    .word "LIMIT", .integer limit, .word "OFFSET", .integer offset]
  have hclosed : Closes tail := .inr ⟨_, rfl⟩
  have hlast : lexFrom .start (toString offset).toList = some [.integer offset] := by
    have hend := hlexOffset []
    rw [List.append_nil] at hend
    exact hend.trans hoffset
  have htail : after tail = some window := by
    change lexFrom .start ("ORDER".toList ++ ' ' :: _) = _
    rw [lexFrom_wordSpace (by decide), lexFrom_wordSpace (by decide), lexFrom_wordSpace hcolumn,
      lexFrom_wordSpace (by decide), lexFrom_wordSpace (by decide), hlexLimit,
      lexFrom_space hlimit, lexFrom_wordSpace (by decide), hlast]
    rfl
  have hchars : (rowsText table fs column limit offset).toList = "SELECT".toList ++ ' ' :: '*' ::
      ' ' :: ("FROM".toList ++ ' ' :: (table.toList ++ ' ' :: ("WHERE".toList ++ ' ' ::
        ((conditionText fs).toList ++ tail)))) :=
    toList_rowsText _ _ _ _ _ _ _ _ _ _
  have hstar : Mode.start.step '*' = some ([.star], .start) := rfl
  have hspace : Mode.start.step ' ' = some ([], .start) := rfl
  have hlex : lex (rowsText table fs column limit offset) = some (.word "SELECT" :: .star ::
      .word "FROM" :: .word table :: .word "WHERE" :: (conditionTokens fs ++ window)) := by
    rw [lex, hchars, lexFrom_wordSpace (by decide), lexFrom_cons hstar, lexFrom_silent hspace,
      lexFrom_wordSpace (by decide), lexFrom_wordSpace htable, lexFrom_wordSpace (by decide),
      lexFrom_condition fs hfs hclosed, htail]
    rfl
  have hnext : ∀ w more, window = .word w :: more → w ≠ "AND" ∧ w ≠ "OR" := by
    intro w more h
    obtain ⟨hw, -⟩ := List.cons.inj h
    cases hw
    decide
  have hparsed := parseCondition_condition fs (length_conditionTokens fs window) hnext
  rw [parse, hlex, Option.bind_some, parseTokens]
  simp only [and_self, if_true, parseRows, hparsed, Option.bind_eq_bind, Option.bind_some]
  rfl

variable {ρ : Type} {columns : String → Option (ρ → String)} {r : ρ}

/-- A filter on a column the table has. -/
def Filter.holds (columns : String → Option (ρ → String)) (r : ρ) (f : Filter) :
    Bool :=
  ((columns f.column).map fun g => f.op.holds (g r) f.value).getD false

theorem comparison_holds (f : Filter) :
    Comparison.holds columns r f.comparison = f.holds columns r := by
  cases hcolumn : columns f.column <;>
    simp [Comparison.holds, Filter.comparison, Operand.value,
      Filter.holds, hcolumn]

theorem holds_condition :
    holds columns (condition fs) r = fs.all (Filter.holds columns r) := by
  have hone : Comparison.holds columns r ⟨.integer 1, .eq, .integer 1⟩ = true := rfl
  simp only [holds, condition, List.any_cons, List.any_nil, Bool.or_false,
    List.all_cons, hone, Bool.true_and, List.all_map]
  congr 1
  funext f
  exact comparison_holds f

theorem typed_condition (h : ∀ f ∈ fs, (columns f.column).isSome = true) :
    typed columns (condition fs) = true := by
  simp only [typed, condition, List.all_cons, List.all_nil, Bool.and_true,
    List.all_map, Bool.and_eq_true, List.all_eq_true]
  exact ⟨rfl, fun f hf => by
    simp [Filter.comparison, Comparison.typed, Operand.isText, h f hf]⟩

end Filters

end SqlText

end JamJet
