import JamJet.Json
import JamJet.PiiPatterns
import Mathlib.Data.List.Induction

/-! The redactor of the runtime's audit entries: the fields under given paths, then the matches of
given patterns in every string. -/

namespace JamJet.Redaction
open Regex (Tag Pattern Piece Sound)

inductive RedactionMode
  | mask
  | hash
  | remove
  deriving DecidableEq

def RedactionMode.parse : String → RedactionMode
  | "hash" => .hash
  | "remove" => .remove
  | _ => .mask

/-- What the redactor reads of a data policy. -/
structure DataPolicyIr where
  piiFields : List String
  piiDetectors : List String
  redactionMode : String

structure PiiRedactor where
  detectors : List Detector
  fieldPaths : List (List String)
  mode : RedactionMode

/-- `"$.patient.ssn"` is `["patient", "ssn"]`. -/
def fieldPath (field : String) : List String :=
  let stripped := match field.toList with
    | '$' :: '.' :: rest => rest
    | chars => chars
  (stripped.splitOn '.').map String.ofList

def fromPolicy (policy : DataPolicyIr) : PiiRedactor where
  detectors := policy.piiDetectors.filterMap Detector.ofName
  fieldPaths := policy.piiFields.map fieldPath
  mode := .parse policy.redactionMode

/-- Eight bytes in hexadecimal. -/
structure HexDigest where
  digits : List Char
  length : digits.length = 16
  hex : ∀ c ∈ digits, c.isDigit = true ∨ 'a' ≤ c ∧ c ≤ 'f'

/-- The first eight bytes of SHA-256, and how a JSON value is displayed. -/
structure Outside where
  digest : List Char → HexDigest
  display : Json → List Char

section Redactor

variable [Classes] (out : Outside) (r : PiiRedactor)

def redacted : List Char := "[REDACTED]".toList

def hashTag (digest : HexDigest) : List Char := "[HASH:".toList ++ digest.digits ++ [']']

def redactValue (original : List Char) : List Char :=
  match r.mode with
  | .mask => redacted
  | .hash => hashTag (out.digest original)
  | .remove => []

/-- One detector's pass over a text. -/
def redactWith (detector : Detector) (s : List Char) : List Char :=
  detector.pattern.replaceAll Classes.word (redactValue out r) s

def redactStr (s : List Char) : List Char :=
  r.detectors.foldl (fun result detector => redactWith out r detector result) s

/-- What stands under a key afterwards; `none` when it is removed. -/
def applyRedaction (value : Json) : Option Json :=
  match r.mode with
  | .remove => none
  | .mask => some (.string (String.ofList redacted))
  | .hash =>
    let original := match value with
      | .string s => s.toList
      | other => out.display other
    some (.string (String.ofList (hashTag (out.digest original))))

/-- The entries of a map that the first step of a path addresses are redacted, if it is the last
one, or gone into. -/
def redactAtPath : List String → Json → Json
  | key :: rest, .object fields => .object (fields.filterMap fun entry =>
      if key = "*" ∨ entry.1 = key then
        (if rest.isEmpty then applyRedaction out r entry.2
          else some (redactAtPath rest entry.2)).map fun value => (entry.1, value)
      else some entry)
  | _, value => value

mutual

def redactStringsRecursive : Json → Json
  | .string s => .string (String.ofList (redactStr out r s.toList))
  | .object fields => .object (redactFields fields)
  | .array items => .array (redactItems items)
  | value => value

def redactItems : List Json → List Json
  | [] => []
  | item :: items => redactStringsRecursive item :: redactItems items

def redactFields : List (String × Json) → List (String × Json)
  | [] => []
  | (key, value) :: fields => (key, redactStringsRecursive value) :: redactFields fields

end

def redactJson (value : Json) : Json :=
  let result := r.fieldPaths.foldl (fun result path => redactAtPath out r path result) value
  if r.detectors.isEmpty then result else redactStringsRecursive out r result

end Redactor

mutual

/-- The string values in a value. -/
def strings : Json → List String
  | .string s => [s]
  | .object fields => fieldStrings fields
  | .array items => itemStrings items
  | _ => []

def itemStrings : List Json → List String
  | [] => []
  | item :: items => strings item ++ itemStrings items

def fieldStrings : List (String × Json) → List String
  | [] => []
  | (_, value) :: fields => strings value ++ fieldStrings fields

end

/-- Nothing that an enabled detector finds is left, and a second redaction changes nothing. -/
structure LeavesNoPii [Classes] (out : Outside) (r : PiiRedactor) (value : Json) : Prop where
  clean : ∀ s ∈ strings (redactJson out r value), ∀ detector ∈ r.detectors,
    ¬ detector.pattern.FoundIn Classes.word s.toList
  again : redactJson out r (redactJson out r value) = redactJson out r value

/-- What is enabled beside an email detector runs behind the first one. -/
def EmailFirst (detectors : List Detector) : Prop :=
  .email ∈ detectors → ∀ d ∈ detectors, d ∈ detectors.dropWhile (· ≠ .email)

instance (detectors : List Detector) : Decidable (EmailFirst detectors) :=
  inferInstanceAs (Decidable (_ → _))

/-- The policies whose redactions leave nothing to be found. -/
structure Safe (r : PiiRedactor) : Prop where
  order : r.mode ≠ .remove → EmailFirst r.detectors
  hash : r.mode = .hash → .creditCard ∉ r.detectors ∧ r.fieldPaths = []
  remove : r.mode = .remove → .phone ∉ r.detectors ∧
    (.email ∈ r.detectors → ∀ d ∈ r.detectors, d = .email)

section Tags

variable [Classes] {detector : Detector}

theorem tag_redacted : Tag Classes.word detector.pattern bracket redacted := by
  have hletters : ∀ c ∈ "[REDACTED".toList, ¬ (Classes.digit c = true ∨ c = '@') := by
    intro c hc
    have hplain : ∀ c ∈ "[REDACTED".toList, c.toNat < 128 ∧ c.isDigit = false ∧ c ≠ '@' := by decide
    obtain ⟨hascii, hdigit, hat⟩ := hplain c hc
    rw [Classes.digit_ascii c hascii, hdigit]
    exact fun h => h.elim Bool.false_ne_true hat
  refine Tag.of_inner (i := "[REDACTED".toList) (b := ']') (fun w hw => spells_inner hw) rfl
    ⟨'[', "REDACTED".toList, rfl, rfl⟩ fun prev l w r u hi hm => ?_
  obtain ⟨c, hc, hmark⟩ := spells_mark hm.spells
  exact hletters c (by rw [hi]; simp [hc]) hmark

theorem tag_letter : ∀ c ∈ "[HASH:".toList, ¬ (Classes.digit c = true ∨ Classes.space c = true ∨
    c ∈ ['+', '1', '-', '.', '(', ')']) := by
  intro c hc
  have hplain : ∀ c ∈ "[HASH:".toList, c.toNat < 128 ∧ c.isDigit = false ∧
      (c == ' ' || (9 ≤ c.toNat && c.toNat ≤ 13)) = false ∧
        c ∉ ['+', '1', '-', '.', '(', ')'] := by decide
  obtain ⟨hascii, hdigit, hspace, hnot⟩ := hplain c hc
  rw [Classes.digit_ascii c hascii, Classes.space_ascii c hascii, hdigit, hspace]
  simpa using hnot

/-- The digits of a tag are a card number at most. -/
theorem tag_hashTag (digest : HexDigest) (hdetector : detector ≠ .creditCard) :
    Tag Classes.word detector.pattern bracket (hashTag digest) := by
  refine Tag.of_inner (i := "[HASH:".toList ++ digest.digits) (b := ']')
    (fun w hw => spells_inner hw) rfl ⟨'[', "HASH:".toList ++ digest.digits, rfl, rfl⟩
    fun prev l w r u hi hm => ?_
  have hplain : ∀ c ∈ ['@', '-', '.'], c ∉ "[HASH:".toList ∧
      ¬ (c.isDigit = true ∨ 'a' ≤ c ∧ c ≤ 'f') := by decide
  have hnot : ∀ c ∈ ['@', '-', '.'], c ∉ w := by
    intro c hc hw
    have hmem : c ∈ "[HASH:".toList ++ digest.digits := by rw [hi]; simp [hw]
    rcases List.mem_append.mp hmem with hmem | hmem
    · exact (hplain c hc).1 hmem
    · exact (hplain c hc).2 (digest.hex c hmem)
  cases detector with
  | creditCard => exact hdetector rfl
  | email => exact hnot '@' (by simp) (spells_email hm.spells)
  | ssn => exact hnot '-' (by simp) (ssn_spells hm.spells).1
  | ipAddress => exact hnot '.' (by simp) (ipAddress_spells hm.spells).1
  | phone =>
    have hne := (spells_inner hm.spells).1
    -- the match lies in the digits
    obtain ⟨l', rfl, hfill⟩ : ∃ l', l = "[HASH:".toList ++ l' ∧ digest.digits = l' ++ (w ++ r) := by
      rcases List.append_eq_append_iff.mp hi with h | ⟨m, htag, hrest⟩
      · exact h
      · cases m with
        | nil => exact ⟨[], by rw [htag, List.append_nil, List.append_nil], hrest.symm⟩
        | cons c m =>
          obtain ⟨d, w, rfl⟩ := List.exists_cons_of_ne_nil hne
          obtain rfl := (List.cons.inj hrest).1
          have hletter := phone_letter (Regex.Body.has_of_spells hm.spells d List.mem_cons_self)
          have hmem : d ∈ "[HASH:".toList := by rw [htag]; simp
          exact absurd hletter (tag_letter d hmem)
    rw [Regex.lastOf_append] at hm
    have hword : ∀ c ∈ l' ++ (w ++ r), Classes.word c = true := by
      rw [← hfill]
      exact fun c hc => word_of_hex (digest.hex c hc)
    obtain ⟨rfl, rfl⟩ := hm.fills rfl hne hword
    have hcount := (phone_spells hm.spells).2
    rw [List.nil_append, List.append_nil] at hfill hword
    rw [← hfill, List.countP_eq_length.mpr (hfill ▸ hword), digest.length] at hcount
    omega

end Tags

section Passes

variable [Classes] {out : Outside} {r : PiiRedactor} {p q : Detector} {s : List Char}

/-- A detector finds nothing in a text. -/
abbrev Absent (detector : Detector) (s : List Char) : Prop :=
  detector.pattern.Absent Classes.word none s

theorem walk_pattern (p : Detector) (s : List Char) :
    p.pattern.Search Classes.word none s (p.pattern.scan Classes.word none 0 s) :=
  Regex.walk_scan (fun _ hw => (spells_inner hw).1) none s

theorem matched_pattern {prev : Option Char} {w s : List Char}
    (h : p.pattern.matchAt Classes.word prev (w ++ s) = some w) :
    p.pattern.Matches Classes.word prev w s := by
  obtain ⟨rest, hs, hm⟩ := Pattern.matches_of_matchAt h
  exact List.append_cancel_left hs ▸ hm

theorem redactWith_of_absent (h : Absent p s) : redactWith out r p s = s :=
  Regex.replaceAll_of_absent (fun _ hw => (spells_inner hw).1) _ h

theorem absent_self_of_tags (hf : ∀ m, Tag Classes.word p.pattern bracket (redactValue out r m)) :
    Absent p (redactWith out r p s) :=
  ((walk_pattern p s).imp (fun _ _ h => h) fun _ _ _ h => matched_pattern h).absent_of_tags
    (fun _ hw => spells_inner hw) id hf (.inl rfl)

theorem absent_of_tags (hf : ∀ m, Tag Classes.word q.pattern bracket (redactValue out r m))
    (hp : p = .email → q = .email) (h : Absent q s) : Absent q (redactWith out r p s) := by
  have hbounded : q.pattern.bounded = true → p.pattern.bounded = true := by
    cases p with
    | email => cases hp rfl; exact id
    | _ => exact fun _ => rfl
  exact (((walk_pattern p s).imp (fun _ _ h => h) fun _ _ _ h => matched_pattern h).of_absent
    h).absent_of_tags (fun _ hw => spells_inner hw) hbounded hf (.inl rfl)

/-- The detectors whose matches are digits with single letters between them. -/
def Sturdy (detector : Detector) : Prop :=
  detector = .ssn ∨ detector = .creditCard ∨ detector = .ipAddress

theorem Sturdy.bounded (h : Sturdy p) : p.pattern.bounded = true := by
  rcases h with rfl | rfl | rfl <;> rfl

theorem Sturdy.sound (h : Sturdy p) {w : List Char} (hw : p.pattern.body.Spells w) :
    Sound Classes.word w := by
  rcases h with rfl | rfl | rfl
  · exact (ssn_spells hw).2
  · exact creditCard_spells hw
  · exact (ipAddress_spells hw).2

theorem redactWith_remove (hr : r.mode = .remove) : redactWith out r p s =
    (p.pattern.scan Classes.word none 0 s).flatMap (Piece.replace fun _ => []) := by
  have hvalue : redactValue out r = fun _ => [] := by
    funext original
    rw [redactValue, hr]
  rw [redactWith, hvalue]
  rfl

theorem absent_self_of_removed (hr : r.mode = .remove) (hp : Sturdy p) :
    Absent p (redactWith out r p s) := by
  rw [redactWith_remove hr]
  exact ((walk_pattern p s).imp (fun _ _ h => h) fun _ _ _ h => matched_pattern h).absent_of_removed
    hp.bounded (fun _ hw => (hp.sound hw).1) hp.bounded (fun _ hw => hp.sound hw) (.inl rfl)

theorem absent_of_removed (hr : r.mode = .remove) (hp : Sturdy p) (hq : Sturdy q)
    (h : Absent q s) : Absent q (redactWith out r p s) := by
  rw [redactWith_remove hr]
  exact (((walk_pattern p s).imp (fun _ _ h => h) fun _ _ _ h => matched_pattern h).of_absent
    h).absent_of_removed hp.bounded (fun _ hw => (hp.sound hw).1) hq.bounded
      (fun _ hw => hq.sound hw) (.inl rfl)

theorem absent_email_of_removed (hr : r.mode = .remove) :
    Absent .email (redactWith out r .email s) := by
  rw [redactWith_remove hr]
  exact email_extends.absent_of_removed (walk_pattern .email s)

end Passes

section Texts

variable [Classes] {out : Outside} {r : PiiRedactor} {s : List Char}

theorem absent_foldl (cleared : List Detector) {detectors : List Detector}
    (hown : ∀ p ∈ detectors, ∀ s, Absent p (redactWith out r p s))
    (hkeep : ∀ p ∈ detectors, ∀ q ∈ cleared ++ detectors, ∀ s, (p ∈ cleared → Absent p s) →
      Absent q s → Absent q (redactWith out r p s))
    (hs : ∀ q ∈ cleared, Absent q s) :
    ∀ q ∈ cleared ++ detectors,
      Absent q (detectors.foldl (fun s detector => redactWith out r detector s) s) := by
  induction detectors generalizing cleared s with
  | nil => simpa using hs
  | cons p detectors ih =>
    rw [List.foldl_cons]
    have hmove : cleared ++ p :: detectors = cleared ++ [p] ++ detectors := by simp
    rw [hmove] at hkeep ⊢
    refine ih (cleared ++ [p]) (fun p' hp' => hown p' (List.mem_cons_of_mem _ hp')) ?_ ?_
    · intro p' hp' q hq s hcleared
      exact hkeep p' (List.mem_cons_of_mem _ hp') q hq s
        fun hmem => hcleared (List.mem_append_left _ hmem)
    · intro q hq
      rcases List.mem_append.mp hq with hq | hq
      · exact hkeep p List.mem_cons_self q (by simp [hq]) s (fun hmem => hs p hmem) (hs q hq)
      · obtain rfl := List.mem_singleton.mp hq
        exact hown q List.mem_cons_self s

/-- With tags: behind the first email detector no pass cuts inside words. -/
theorem redactStr_absent_of_tags
    (htags : ∀ q ∈ r.detectors, ∀ m, Tag Classes.word q.pattern bracket (redactValue out r m))
    (horder : EmailFirst r.detectors) (s : List Char) :
    ∀ q ∈ r.detectors, Absent q (redactStr out r s) := by
  by_cases hemail : .email ∈ r.detectors
  · obtain ⟨post, hpost⟩ : ∃ post, r.detectors.dropWhile (· ≠ .email) = .email :: post := by
      cases hdrop : r.detectors.dropWhile (· ≠ .email) with
      | nil =>
        have hmem := horder hemail .email hemail
        rw [hdrop] at hmem
        cases hmem
      | cons d post =>
        have hnot := List.head?_dropWhile_not (· ≠ Detector.email) r.detectors
        rw [hdrop] at hnot
        obtain rfl : d = .email := by simpa using hnot
        exact ⟨post, rfl⟩
    have hsplit : r.detectors = r.detectors.takeWhile (· ≠ .email) ++ .email :: post := by
      rw [← hpost, List.takeWhile_append_dropWhile]
    have hbehind : ∀ q ∈ r.detectors, q ∈ [.email] ++ post := by
      intro q hq
      have hmem := horder hemail q hq
      rwa [hpost] at hmem
    have hold : ∀ q ∈ [.email] ++ post, q ∈ r.detectors := by
      intro q hq
      rw [hsplit]
      exact List.mem_append_right _ hq
    intro q hq
    rw [redactStr, hsplit, List.foldl_append, List.foldl_cons]
    refine absent_foldl [.email] (fun p hp s => ?_) (fun p hp q' hq' s hp' h => ?_)
      (fun q' hq' => ?_) q (hbehind q hq)
    · exact absent_self_of_tags (htags p (hold p (List.mem_append_right _ hp)))
    · by_cases hpe : p = .email
      · subst hpe
        rwa [redactWith_of_absent (hp' (List.mem_singleton.mpr rfl))]
      · exact absent_of_tags (htags q' (hold q' hq')) (fun heq => absurd heq hpe) h
    · obtain rfl := List.mem_singleton.mp hq'
      exact absent_self_of_tags (htags .email hemail)
  · refine absent_foldl [] (fun p hp s => ?_) (fun p hp q hq s _ h => ?_)
      (fun q hq => by cases hq)
    · exact absent_self_of_tags (htags p hp)
    · exact absent_of_tags (htags q hq) (fun heq => absurd (heq ▸ hp) hemail) h

theorem redactStr_absent_of_removed (hr : r.mode = .remove) (hphone : .phone ∉ r.detectors)
    (hemail : .email ∈ r.detectors → ∀ d ∈ r.detectors, d = .email) (s : List Char) :
    ∀ q ∈ r.detectors, Absent q (redactStr out r s) := by
  by_cases hmem : .email ∈ r.detectors
  · have hall := hemail hmem
    refine absent_foldl [] (fun p hp s => ?_) (fun p hp q hq s _ _ => ?_)
      (fun q hq => by cases hq)
    · obtain rfl := hall p hp
      exact absent_email_of_removed hr
    · obtain rfl := hall p hp
      obtain rfl := hall q hq
      exact absent_email_of_removed hr
  · have hsturdy : ∀ q ∈ r.detectors, Sturdy q := by
      intro q hq
      cases q with
      | email => exact absurd hq hmem
      | phone => exact absurd hq hphone
      | ssn => exact .inl rfl
      | creditCard => exact .inr (.inl rfl)
      | ipAddress => exact .inr (.inr rfl)
    exact absent_foldl []
      (fun p hp s => absent_self_of_removed hr (hsturdy p hp))
      (fun p hp q hq s _ h => absent_of_removed hr (hsturdy p hp) (hsturdy q hq) h)
      (fun q hq => by cases hq)

theorem redactStr_absent (h : Safe r) (s : List Char) :
    ∀ q ∈ r.detectors, Absent q (redactStr out r s) := by
  cases hmode : r.mode with
  | mask =>
    refine redactStr_absent_of_tags (fun q _ m => ?_) (h.order (by simp [hmode])) s
    rw [redactValue, hmode]
    exact tag_redacted
  | hash =>
    refine redactStr_absent_of_tags (fun q hq m => ?_) (h.order (by simp [hmode])) s
    rw [redactValue, hmode]
    exact tag_hashTag _ fun heq => (h.hash hmode).1 (heq ▸ hq)
  | remove => exact redactStr_absent_of_removed hmode (h.remove hmode).1 (h.remove hmode).2 s

theorem redactStr_of_absent (h : ∀ q ∈ r.detectors, Absent q s) : redactStr out r s = s := by
  rw [redactStr]
  generalize r.detectors = detectors at h
  induction detectors with
  | nil => rfl
  | cons p detectors ih =>
    rw [List.foldl_cons, redactWith_of_absent (h p List.mem_cons_self)]
    exact ih fun q hq => h q (List.mem_cons_of_mem _ hq)

end Texts

section Paths

variable {out : Outside} {r : PiiRedactor} {value value' : Json} {path : List String}

theorem filterMap_eq_self_iff {α : Type} {f : α → Option α} {l : List α} :
    l.filterMap f = l ↔ ∀ a ∈ l, f a = some a := by
  constructor
  · intro h
    induction l with
    | nil => exact fun a ha => by cases ha
    | cons b l ih =>
      cases hb : f b with
      | none =>
        rw [List.filterMap_cons_none hb] at h
        have hlength := List.length_filterMap_le f l
        rw [h, List.length_cons] at hlength
        omega
      | some c =>
        rw [List.filterMap_cons_some hb] at h
        obtain rfl := (List.cons.inj h).1
        exact List.forall_mem_cons.mpr ⟨hb, ih (List.cons.inj h).2⟩
  · intro h
    induction l with
    | nil => rfl
    | cons b l ih =>
      rw [List.filterMap_cons_some (h b List.mem_cons_self),
        ih fun a ha => h a (List.mem_cons_of_mem _ ha)]

/-- What becomes of an entry of a map on a path. -/
def redactEntry (out : Outside) (r : PiiRedactor) (key : String) (rest : List String)
    (entry : String × Json) : Option (String × Json) :=
  if key = "*" ∨ entry.1 = key then
    (if rest.isEmpty then applyRedaction out r entry.2
      else some (redactAtPath out r rest entry.2)).map fun value => (entry.1, value)
  else some entry

theorem redactAtPath_object {key : String} {rest : List String} {fields : List (String × Json)} :
    redactAtPath out r (key :: rest) (.object fields) =
      .object (fields.filterMap (redactEntry out r key rest)) := rfl

/-- The step of a path addresses an entry. -/
abbrev Hits (key : String) (e : String × Json) : Prop := key = "*" ∨ e.1 = key

/-- Everything that can become of an entry when nothing is hashed. -/
inductive EntryCase (out : Outside) (r : PiiRedactor) (key : String) (rest : List String)
    (e e' : String × Json) : Prop
  | passed (hhit : ¬ Hits key e) (h : e' = e)
  | masked (hhit : Hits key e) (hrest : rest = []) (hmode : r.mode = .mask)
      (h : e' = (e.1, .string (String.ofList redacted)))
  | entered (hhit : Hits key e) (hrest : rest ≠ [])
      (h : e' = (e.1, redactAtPath out r rest e.2))

theorem applyRedaction_mask (hmode : r.mode = .mask) :
    applyRedaction out r value = some (.string (String.ofList redacted)) := by
  unfold applyRedaction
  rw [hmode]

theorem applyRedaction_remove (hmode : r.mode = .remove) : applyRedaction out r value = none := by
  unfold applyRedaction
  rw [hmode]

theorem redactEntry_eq_some_iff (hmode : r.mode ≠ .hash) {key : String} {rest : List String}
    {e e' : String × Json} :
    redactEntry out r key rest e = some e' ↔ EntryCase out r key rest e e' := by
  rw [redactEntry]
  constructor
  · intro h
    split_ifs at h with hhit hrest
    · cases hm : r.mode with
      | mask =>
        rw [applyRedaction_mask hm] at h
        exact .masked hhit (List.isEmpty_iff.mp hrest) hm (Option.some.inj h).symm
      | hash => exact absurd hm hmode
      | remove => rw [applyRedaction_remove hm] at h; cases h
    · exact .entered hhit (fun hnil => hrest (List.isEmpty_iff.mpr hnil)) (Option.some.inj h).symm
    · exact .passed hhit (Option.some.inj h).symm
  · rintro (⟨hhit, rfl⟩ | ⟨hhit, rfl, hm, rfl⟩ | ⟨hhit, hrest, rfl⟩)
    · rw [if_neg hhit]
    · rw [if_pos hhit, List.isEmpty_nil, if_pos rfl, applyRedaction_mask hm]
      rfl
    · rw [if_pos hhit, if_neg fun hnil => hrest (List.isEmpty_iff.mp hnil)]
      rfl

theorem redactAtPath_string (s : String) :
    redactAtPath out r path (.string s) = .string s := by
  cases path <;> rfl

theorem redactAtPath_fixed_iff {key : String} {rest : List String}
    {fields : List (String × Json)} :
    redactAtPath out r (key :: rest) (.object fields) = .object fields ↔
      ∀ e ∈ fields, redactEntry out r key rest e = some e := by
  rw [redactAtPath_object, Json.object.injEq, filterMap_eq_self_iff]

theorem redactAtPath_keep (hmode : r.mode ≠ .hash) {path' : List String}
    (h : redactAtPath out r path value = value) :
    redactAtPath out r path (redactAtPath out r path' value) = redactAtPath out r path' value := by
  induction path generalizing value path' with
  | nil => rfl
  | cons key rest ih =>
    cases path' with
    | nil => exact h
    | cons key' rest' =>
      cases value with
      | object fields =>
        rw [redactAtPath_fixed_iff] at h
        rw [redactAtPath_object, redactAtPath_fixed_iff]
        intro e' he'
        obtain ⟨e, he, hstep⟩ := List.mem_filterMap.mp he'
        have hfixed := h e he
        rw [redactEntry_eq_some_iff hmode] at hstep hfixed ⊢
        cases hstep with
        | passed _ h => exact h ▸ hfixed
        | masked _ _ hmask h =>
          subst h
          by_cases hhit : Hits key e
          · by_cases hrest : rest = []
            · exact .masked hhit hrest hmask rfl
            · exact .entered hhit hrest (by rw [redactAtPath_string])
          · exact .passed hhit rfl
        | entered _ hrest' h =>
          subst h
          cases hfixed with
          | passed hhit _ => exact .passed hhit rfl
          | masked hhit hrest hmask heq =>
            have hvalue := congrArg Prod.snd heq
            dsimp only at hvalue
            rw [hvalue, redactAtPath_string]
            exact .masked hhit hrest hmask rfl
          | entered hhit hrest heq =>
            have hvalue := (congrArg Prod.snd heq).symm
            dsimp only at hvalue
            exact .entered hhit hrest (by rw [ih hvalue])
      | _ => exact h

theorem redactAtPath_again (hmode : r.mode ≠ .hash) :
    redactAtPath out r path (redactAtPath out r path value) = redactAtPath out r path value := by
  induction path generalizing value with
  | nil => rfl
  | cons key rest ih =>
    cases value with
    | object fields =>
      rw [redactAtPath_object, redactAtPath_fixed_iff]
      intro e' he'
      obtain ⟨e, -, hstep⟩ := List.mem_filterMap.mp he'
      rw [redactEntry_eq_some_iff hmode] at hstep ⊢
      cases hstep with
      | passed hhit h => exact h ▸ .passed hhit rfl
      | masked hhit hrest hmask h => exact h ▸ .masked hhit hrest hmask rfl
      | entered hhit hrest h =>
        subst h
        exact .entered hhit hrest (by rw [ih])
    | _ => rfl

theorem redactAtPath_foldl (hmode : r.mode ≠ .hash) {paths : List (List String)} :
    ∀ path ∈ paths, redactAtPath out r path
      (paths.foldl (fun result path => redactAtPath out r path result) value) =
        paths.foldl (fun result path => redactAtPath out r path result) value := by
  induction paths using List.reverseRecOn with
  | nil => exact fun path hpath => by cases hpath
  | append_singleton paths path' ih =>
    intro path hpath
    rw [List.foldl_concat]
    rcases List.mem_append.mp hpath with hpath | hpath
    · exact redactAtPath_keep hmode (ih path hpath)
    · obtain rfl := List.mem_singleton.mp hpath
      exact redactAtPath_again hmode

end Paths

section Values

variable [Classes] {out : Outside} {r : PiiRedactor} {value : Json} {path : List String}

theorem redactItems_eq (items : List Json) :
    redactItems out r items = items.map (redactStringsRecursive out r) := by
  induction items with
  | nil => rfl
  | cons item items ih => rw [redactItems, ih, List.map_cons]

theorem redactFields_eq (fields : List (String × Json)) : redactFields out r fields =
    fields.map fun e => (e.1, redactStringsRecursive out r e.2) := by
  induction fields with
  | nil => rfl
  | cons e fields ih => rw [redactFields, ih, List.map_cons]

omit [Classes] in
theorem itemStrings_eq (items : List Json) : itemStrings items = items.flatMap strings := by
  induction items with
  | nil => rfl
  | cons item items ih => rw [itemStrings, ih, List.flatMap_cons]

omit [Classes] in
theorem fieldStrings_eq (fields : List (String × Json)) :
    fieldStrings fields = fields.flatMap fun e => strings e.2 := by
  induction fields with
  | nil => rfl
  | cons e fields ih => rw [fieldStrings, ih, List.flatMap_cons]

theorem strings_redact {s : String} (h : s ∈ strings (redactStringsRecursive out r value)) :
    ∃ t, s = String.ofList (redactStr out r t) := by
  induction hsize : sizeOf value using Nat.strong_induction_on generalizing value with
  | _ n ih =>
    cases value with
    | string t => exact ⟨t.toList, List.mem_singleton.mp h⟩
    | array items =>
      rw [redactStringsRecursive, strings, itemStrings_eq, redactItems_eq] at h
      obtain ⟨item', hmem, hs⟩ := List.mem_flatMap.mp h
      obtain ⟨item, hitem, rfl⟩ := List.mem_map.mp hmem
      exact ih _ (hsize ▸ Json.sizeOf_item_lt hitem) hs rfl
    | object fields =>
      rw [redactStringsRecursive, strings, fieldStrings_eq, redactFields_eq] at h
      obtain ⟨e', hmem, hs⟩ := List.mem_flatMap.mp h
      obtain ⟨e, he, rfl⟩ := List.mem_map.mp hmem
      exact ih _ (hsize ▸ Json.sizeOf_member_lt he) hs rfl
    | null => cases h
    | bool b => cases h
    | number n => cases h

theorem redact_of_strings (h : ∀ s ∈ strings value, redactStr out r s.toList = s.toList) :
    redactStringsRecursive out r value = value := by
  induction hsize : sizeOf value using Nat.strong_induction_on generalizing value with
  | _ n ih =>
    cases value with
    | string t =>
      rw [redactStringsRecursive, h t (List.mem_singleton.mpr rfl), String.ofList_toList]
    | array items =>
      rw [strings, itemStrings_eq] at h
      rw [redactStringsRecursive, redactItems_eq, List.map_congr_left (g := id), List.map_id]
      intro item hitem
      exact ih _ (hsize ▸ Json.sizeOf_item_lt hitem)
        (fun s hs => h s (List.mem_flatMap.mpr ⟨item, hitem, hs⟩)) rfl
    | object fields =>
      rw [strings, fieldStrings_eq] at h
      rw [redactStringsRecursive, redactFields_eq, List.map_congr_left (g := id), List.map_id]
      intro e he
      rw [ih _ (hsize ▸ Json.sizeOf_member_lt he)
        (fun s hs => h s (List.mem_flatMap.mpr ⟨e, he, hs⟩)) rfl]
      rfl
    | null => rfl
    | bool b => rfl
    | number n => rfl

theorem redactAtPath_strings (hmode : r.mode ≠ .hash)
    (hmask : r.mode = .mask → redactStr out r redacted = redacted)
    (h : redactAtPath out r path value = value) :
    redactAtPath out r path (redactStringsRecursive out r value) =
      redactStringsRecursive out r value := by
  induction path generalizing value with
  | nil => rfl
  | cons key rest ih =>
    cases value with
    | object fields =>
      rw [redactAtPath_fixed_iff] at h
      rw [redactStringsRecursive, redactFields_eq, redactAtPath_fixed_iff]
      intro e' he'
      obtain ⟨e, he, rfl⟩ := List.mem_map.mp he'
      have hfixed := h e he
      rw [redactEntry_eq_some_iff hmode] at hfixed ⊢
      cases hfixed with
      | passed hhit _ => exact .passed hhit rfl
      | masked hhit hrest hm heq =>
        have hvalue := congrArg Prod.snd heq
        dsimp only at hvalue
        refine .masked hhit hrest hm ?_
        rw [hvalue, redactStringsRecursive, String.toList_ofList, hmask hm]
      | entered hhit hrest heq =>
        have hvalue := (congrArg Prod.snd heq).symm
        dsimp only at hvalue
        exact .entered hhit hrest (by rw [ih hvalue])
    | string s => rw [redactStringsRecursive, redactAtPath_string]
    | _ => rfl

end Values

section Claims

variable [Classes] {out : Outside} {r : PiiRedactor} {value : Json}

theorem absent_redacted (q : Detector) : Absent q redacted := by
  have hall : Absent q (redacted ++ []) := Pattern.absent_append.mpr
    ⟨fun l r hlr hr => tag_redacted.free none l r [] hlr hr, trivial⟩
  rwa [List.append_nil] at hall

theorem paths_again (h : Safe r) :
    r.fieldPaths.foldl (fun result path => redactAtPath out r path result)
      (redactJson out r value) = redactJson out r value := by
  have hfixed : ∀ path ∈ r.fieldPaths,
      redactAtPath out r path (redactJson out r value) = redactJson out r value := by
    intro path hpath
    have hmode : r.mode ≠ .hash := by
      intro hm
      rw [(h.hash hm).2] at hpath
      cases hpath
    have hlast : redactAtPath out r path (r.fieldPaths.foldl (fun result path =>
        redactAtPath out r path result) value) = r.fieldPaths.foldl (fun result path =>
          redactAtPath out r path result) value := redactAtPath_foldl hmode path hpath
    rw [redactJson]
    split_ifs
    · exact hlast
    · refine redactAtPath_strings hmode (fun _ => ?_) hlast
      exact redactStr_of_absent fun q _ => absent_redacted q
  generalize redactJson out r value = result at hfixed
  generalize r.fieldPaths = paths at hfixed
  induction paths with
  | nil => rfl
  | cons path paths ih =>
    rw [List.foldl_cons, hfixed path List.mem_cons_self]
    exact ih fun p hp => hfixed p (List.mem_cons_of_mem _ hp)

theorem leavesNoPii (h : Safe r) : LeavesNoPii out r value := by
  have hclean : ∀ s ∈ strings (redactJson out r value), ∀ q ∈ r.detectors, Absent q s.toList := by
    intro s hs q hq
    rw [redactJson, if_neg fun hnil => List.ne_nil_of_mem hq (List.isEmpty_iff.mp hnil)] at hs
    obtain ⟨t, rfl⟩ := strings_redact hs
    rw [String.toList_ofList]
    exact redactStr_absent h t q hq
  refine ⟨fun s hs q hq => ?_, ?_⟩
  · exact (Pattern.absent_iff_not_foundIn fun _ hw => (spells_inner hw).1).mp (hclean s hs q hq)
  · have hstrings : redactStringsRecursive out r (redactJson out r value) =
        redactJson out r value :=
      redact_of_strings fun s hs => redactStr_of_absent (hclean s hs)
    rw [redactJson, paths_again h, hstrings, ite_self]

end Claims

section Inputs

def zeros : HexDigest := ⟨List.replicate 16 '0', rfl, by decide⟩

def outside : Outside := ⟨fun _ => zeros, fun _ => []⟩

end Inputs

end JamJet.Redaction
