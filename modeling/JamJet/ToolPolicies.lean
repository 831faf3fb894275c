import JamJet.GlobItems

/-! The tool policies of the cloud SDKs: rules with a glob pattern each, evaluated in Python by
`fnmatch` and in TypeScript by a regular expression, and what the two make of one tool name. -/

namespace JamJet.ToolPolicies

open Glob (Item accepts)

structure PolicyDecision where
  blocked : Bool
  policyKind : String
  pattern : Option String
  toolName : String
  deriving DecidableEq, Repr

/-- An action (`block`, `allow`, `require_approval` or `audit`), and the pattern it is for. -/
abbrev Rule := String × String

namespace Python

/-- Whether a sequence lists a character, by itself or in a range.  A dash at either end, or right
behind a range, stands for itself. -/
def inSequence (c : Char) : List Char → Bool
  | first :: '-' :: last :: rest => (first ≤ c && c ≤ last) || inSequence c rest
  | first :: rest => c = first || inSequence c rest
  | [] => false

/-- What a `[` opens, by the text behind it: whether it is negated, its sequence, and the rest of
the pattern.  A `]` that comes first belongs to the sequence. -/
def classOf (text : List Char) : Option (Bool × List Char × List Char) :=
  let (negated, text) := match text with
    | '!' :: rest => (true, rest)
    | text => (false, text)
  let (first, text) := match text with
    | ']' :: rest => ([']'], rest)
    | text => ([], text)
  if ']' ∈ text then
    some (negated, first ++ text.takeWhile (· ≠ ']'), (text.dropWhile (· ≠ ']')).tail)
  else none

/-- `fnmatch.translate`, of so many characters at most.  A `[` that nothing closes stands for
itself. -/
def translate : ℕ → List Char → List (Item Char)
  | 0, _ => []
  | _, [] => []
  | n + 1, '*' :: pattern => .run (fun _ => true) :: translate n pattern
  | n + 1, '?' :: pattern => .one (fun _ => true) :: translate n pattern
  | n + 1, '[' :: pattern =>
      match classOf pattern with
      | some (negated, sequence, rest) =>
          .one (fun c => inSequence c sequence != negated) :: translate n rest
      | none => .one (· = '[') :: translate n pattern
  | n + 1, c :: pattern => .one (· = c) :: translate n pattern

/-- `fnmatch.fnmatch`, where the names of files are left in their case. -/
def fnmatch (name pattern : String) : Bool :=
  accepts (translate pattern.toList.length pattern.toList) name.toList

/-- The first rule that matches wins. -/
def evaluate (rules : List Rule) (toolName : String) : PolicyDecision :=
  match rules.find? fun rule => fnmatch toolName rule.2 with
  | none => ⟨false, "allow", none, toolName⟩
  | some (action, pattern) =>
      if action = "block" then ⟨true, "block", some pattern, toolName⟩
      else ⟨false, action, some pattern, toolName⟩

end Python

namespace TypeScript

/-- The units a string has for a character. -/
def utf16 (c : Char) : List ℕ :=
  if c.toNat < 0x10000 then [c.toNat]
  else [0xd800 + (c.toNat - 0x10000) / 0x400, 0xdc00 + (c.toNat - 0x10000) % 0x400]

/-- A `.` of a regular expression without flags. -/
def dot (unit : ℕ) : Bool := unit ∉ [0x0a, 0x0d, 0x2028, 0x2029]

/-- What the regular expression is made of; a character it would read as more than itself is
escaped. -/
def globToRegExp (pattern : List Char) : List (Item ℕ) :=
  pattern.flatMap fun ch =>
    if ch = '*' then [.run dot]
    else if ch = '?' then [.one dot]
    else (utf16 ch).map fun unit => .one (· = unit)

/-- `regex.test(toolName)`, the expression being anchored at both ends. -/
def test (pattern toolName : String) : Bool :=
  accepts (globToRegExp pattern.toList) (toolName.toList.flatMap utf16)

/-- The first rule that matches wins. -/
def evaluate (rules : List Rule) (toolName : String) : PolicyDecision :=
  match rules.find? fun rule => test rule.2 toolName with
  | none => ⟨false, "allow", none, toolName⟩
  | some (action, pattern) => ⟨action = "block", action, some pattern, toolName⟩

end TypeScript

/-- The same kind of decision, for the same pattern. -/
def SameDecision (rules : List Rule) (toolName : String) : Prop :=
  (Python.evaluate rules toolName).policyKind = (TypeScript.evaluate rules toolName).policyKind ∧
    (Python.evaluate rules toolName).pattern = (TypeScript.evaluate rules toolName).pattern

/-- The first rule that either of the two lets match is matched by both. -/
def FirstMatchShared (rules : List Rule) (toolName : String) : Prop :=
  ∀ rule, rules.find? (fun rule => Python.fnmatch toolName rule.2 ||
      TypeScript.test rule.2 toolName) = some rule →
    Python.fnmatch toolName rule.2 = TypeScript.test rule.2 toolName

/-! ### Patterns without classes -/

/-- A character that is one unit, and that a `.` matches. -/
def Plain (c : Char) : Prop := c.toNat < 0x10000 ∧ TypeScript.dot c.toNat = true

theorem utf16_of_lt {c : Char} (h : c.toNat < 0x10000) : TypeScript.utf16 c = [c.toNat] := by
  simp [TypeScript.utf16, h]

theorem translate_agrees {pattern : List Char}
    (h : ∀ c ∈ pattern, c ≠ '[' ∧ c.toNat < 0x10000) :
    List.Forall₂ (Item.Agrees Char.toNat Plain) (Python.translate pattern.length pattern)
      (TypeScript.globToRegExp pattern) := by
  induction pattern with
  | nil => exact .nil
  | cons c pattern ih =>
    obtain ⟨hclass, hunit⟩ := h c (by simp)
    have ih := ih fun d hd => h d (by simp [hd])
    rw [TypeScript.globToRegExp, List.flatMap_cons, List.length_cons]
    by_cases hstar : c = '*'
    · subst hstar
      exact .cons (.run fun a ha => ha.2) ih
    · by_cases hany : c = '?'
      · subst hany
        exact .cons (.one fun a ha => ha.2) ih
      · have htranslate : Python.translate (pattern.length + 1) (c :: pattern) =
            .one (· = c) :: Python.translate pattern.length pattern := by
          rw [Python.translate] <;> simp_all
        rw [htranslate, if_neg hstar, if_neg hany, utf16_of_lt hunit]
        refine .cons (.one fun a _ => ?_) ih
        simp [Char.toNat_inj]

theorem flatMap_utf16 {name : List Char} (h : ∀ c ∈ name, Plain c) :
    name.flatMap TypeScript.utf16 = name.map Char.toNat := by
  induction name with
  | nil => rfl
  | cons c name ih =>
    rw [List.flatMap_cons, utf16_of_lt (h c (by simp)).1, ih fun d hd => h d (by simp [hd])]
    rfl

theorem fnmatch_eq_test {pattern toolName : String}
    (hpattern : ∀ c ∈ pattern.toList, c ≠ '[' ∧ c.toNat < 0x10000)
    (hname : ∀ c ∈ toolName.toList, Plain c) :
    Python.fnmatch toolName pattern = TypeScript.test pattern toolName := by
  rw [Python.fnmatch, TypeScript.test, flatMap_utf16 hname]
  exact (Glob.accepts_map (translate_agrees hpattern) hname).symm

/-! ### Decisions -/

theorem Python.evaluate_kind (rules : List Rule) (toolName : String) :
    (evaluate rules toolName).policyKind =
      ((rules.find? fun rule => fnmatch toolName rule.2).map Prod.fst).getD "allow" := by
  unfold evaluate
  cases rules.find? fun rule => fnmatch toolName rule.2 with
  | none => rfl
  | some rule =>
    obtain ⟨action, pattern⟩ := rule
    by_cases hblock : action = "block"
    · simp [hblock]
    · simp [hblock]

theorem Python.evaluate_pattern (rules : List Rule) (toolName : String) :
    (evaluate rules toolName).pattern =
      (rules.find? fun rule => fnmatch toolName rule.2).map Prod.snd := by
  unfold evaluate
  cases rules.find? fun rule => fnmatch toolName rule.2 with
  | none => rfl
  | some rule =>
    obtain ⟨action, pattern⟩ := rule
    by_cases hblock : action = "block"
    · simp [hblock]
    · simp [hblock]

theorem TypeScript.evaluate_kind (rules : List Rule) (toolName : String) :
    (evaluate rules toolName).policyKind =
      ((rules.find? fun rule => test rule.2 toolName).map Prod.fst).getD "allow" := by
  unfold evaluate
  cases rules.find? fun rule => test rule.2 toolName <;> rfl

theorem TypeScript.evaluate_pattern (rules : List Rule) (toolName : String) :
    (evaluate rules toolName).pattern =
      (rules.find? fun rule => test rule.2 toolName).map Prod.snd := by
  unfold evaluate
  cases rules.find? fun rule => test rule.2 toolName <;> rfl

section FirstMatch

variable {p q : String → Bool} {rules : List Rule}

theorem find?_pattern_ne {pattern : String} (hp : p pattern = false) (rules : List Rule) :
    (rules.find? fun rule => p rule.2).map Prod.snd ≠ some pattern := by
  intro h
  obtain ⟨rule, hrule, rfl⟩ := Option.map_eq_some_iff.mp h
  have hmatch := List.find?_some hrule
  simp only [hp] at hmatch
  cases hmatch

variable (p q rules) in
/-- Two tests come to one action and one pattern exactly when the first rule that either lets match
is matched by both. -/
theorem find?_same_iff :
    (((rules.find? fun rule => p rule.2).map Prod.fst).getD "allow" =
        ((rules.find? fun rule => q rule.2).map Prod.fst).getD "allow" ∧
      (rules.find? fun rule => p rule.2).map Prod.snd =
        (rules.find? fun rule => q rule.2).map Prod.snd) ↔
    ∀ rule, rules.find? (fun rule => p rule.2 || q rule.2) = some rule → p rule.2 = q rule.2 := by
  induction rules with
  | nil => simp
  | cons rule rules ih =>
    cases hp : p rule.2 with
    | true =>
      cases hq : q rule.2 with
      | true => simp [hp, hq]
      | false =>
        have hne := find?_pattern_ne hq rules
        simp [hp, hq, Ne.symm hne]
    | false =>
      cases hq : q rule.2 with
      | true =>
        have hne := find?_pattern_ne hp rules
        simp [hp, hq, hne]
      | false => simpa [hp, hq] using ih

end FirstMatch

end JamJet.ToolPolicies
