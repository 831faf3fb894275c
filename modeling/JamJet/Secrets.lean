import JamJet.Replace
import Mathlib.Data.String.Basic

/-! Placeholders `${NAME}` are expanded to the secrets a backend resolves; known secrets are
redacted one after the other. -/

namespace JamJet.Secrets

open Replace

/-- Resolve a named secret to its plaintext value. -/
abbrev SecretBackend := String → Option String

/-- What the expansion leaves in a text: a character of it, or a secret in place of a placeholder. -/
inductive Fragment
  | kept (c : Char)
  | inserted (name value : String)
  deriving DecidableEq, Repr

def Fragment.text : Fragment → List Char
  | .kept c => [c]
  | .inserted _ value => value.toList

def keep (text : List Char) : List Fragment := text.map .kept

/-- `find("${")`: what stands before the first opener, and after it. -/
def splitOpen : List Char → Option (List Char × List Char)
  | [] => none
  | c :: rest =>
      if c = '$' ∧ rest.head? = some '{' then some ([], rest.tail)
      else (splitOpen rest).map fun (before, after) => (c :: before, after)

/-- `find('}')`. -/
def splitClose : List Char → Option (List Char × List Char)
  | [] => none
  | c :: rest =>
      if c = '}' then some ([], rest)
      else (splitClose rest).map fun (name, after) => (c :: name, after)

theorem splitOpen_eq_some {text before after : List Char} (h : splitOpen text = some (before, after)) :
    text = before ++ '$' :: '{' :: after := by
  induction text generalizing before with
  | nil => cases h
  | cons c rest ih =>
    unfold splitOpen at h
    split at h
    · rename_i hopen
      obtain ⟨rfl, hbrace⟩ := hopen
      cases h
      cases rest with
      | nil => cases hbrace
      | cons b rest => cases hbrace; rfl
    · obtain ⟨⟨before', after'⟩, hrest, heq⟩ := Option.map_eq_some_iff.mp h
      cases heq
      rw [ih hrest]
      rfl

theorem splitClose_eq_some {text name after : List Char} (h : splitClose text = some (name, after)) :
    text = name ++ '}' :: after ∧ '}' ∉ name := by
  induction text generalizing name with
  | nil => cases h
  | cons c rest ih =>
    unfold splitClose at h
    split at h
    · rename_i hclose
      cases h
      exact ⟨by rw [hclose]; rfl, List.not_mem_nil⟩
    · rename_i hclose
      obtain ⟨⟨name', after'⟩, hrest, heq⟩ := Option.map_eq_some_iff.mp h
      cases heq
      obtain ⟨htext, hname⟩ := ih hrest
      refine ⟨by rw [htext]; rfl, fun hmem => ?_⟩
      rcases List.mem_cons.mp hmem with heq | hmem
      · exact hclose heq.symm
      · exact hname hmem

theorem splitClose_append {name after : List Char} (h : '}' ∉ name) :
    splitClose (name ++ '}' :: after) = some (name, after) := by
  induction name with
  | nil => rfl
  | cons c name ih =>
    obtain ⟨hc, hname⟩ := not_or.mp (mt List.mem_cons.mpr h)
    simp [splitClose, Ne.symm hc, ih hname]

theorem mem_of_splitClose_eq_none {text : List Char} (h : splitClose text = none) : '}' ∉ text := by
  induction text with
  | nil => exact List.not_mem_nil
  | cons c rest ih =>
    unfold splitClose at h
    split at h
    · cases h
    · rename_i hclose
      rw [Option.map_eq_none_iff] at h
      exact fun hmem => (List.mem_cons.mp hmem).elim (fun heq => hclose heq.symm) (ih h)

/-- An opener and the first `}` behind it: what stands before, between and after them. -/
def nextPlaceholder (text : List Char) : Option (List Char × List Char × List Char) := do
  let (before, inner) ← splitOpen text
  let (name, after) ← splitClose inner
  some (before, name, after)

theorem nextPlaceholder_eq_some {text before name after : List Char}
    (h : nextPlaceholder text = some (before, name, after)) :
    splitOpen text = some (before, name ++ '}' :: after) ∧ '}' ∉ name := by
  obtain ⟨⟨before', inner⟩, hopen, h⟩ := Option.bind_eq_some_iff.mp h
  obtain ⟨⟨name', after'⟩, hclose, h⟩ := Option.bind_eq_some_iff.mp h
  cases h
  obtain ⟨rfl, hname⟩ := splitClose_eq_some hclose
  exact ⟨hopen, hname⟩

theorem length_nextPlaceholder {text before name after : List Char}
    (h : nextPlaceholder text = some (before, name, after)) : after.length < text.length := by
  rw [splitOpen_eq_some (nextPlaceholder_eq_some h).1]
  simp only [List.length_append, List.length_cons]
  omega

/-- `expand`.  The scan goes on behind the secret it has inserted, or behind the placeholder it has
left alone; it ends when no opener, or no `}` behind it, is left. -/
def expandFragments (backend : SecretBackend) (text : List Char) : List Fragment :=
  match _hnext : nextPlaceholder text with
  | none => keep text
  | some (before, name, after) =>
      match backend (String.ofList name) with
      | some value =>
          keep before ++ .inserted (String.ofList name) value :: expandFragments backend after
      | none => keep (before ++ '$' :: '{' :: name ++ ['}']) ++ expandFragments backend after
termination_by text.length
decreasing_by all_goals exact length_nextPlaceholder _hnext

/-- The string that comes out. -/
def expand (backend : SecretBackend) (s : String) : String :=
  String.ofList ((expandFragments backend s.toList).flatMap Fragment.text)

/-- The texts between the openers, read from the left, and the first `}` behind each. -/
def enclosed (text : List Char) : List (List Char) :=
  match _hnext : nextPlaceholder text with
  | none => []
  | some (_, name, after) => name :: enclosed after
termination_by text.length
decreasing_by exact length_nextPlaceholder _hnext

theorem mem_enclosed_of_some {text before name after : List Char}
    (h : nextPlaceholder text = some (before, name, after)) : name ∈ enclosed text := by
  rw [enclosed]
  split
  · rename_i hnext
    rw [h] at hnext
    cases hnext
  · rename_i hnext
    rw [h] at hnext
    cases hnext
    exact List.mem_cons_self

/-- A name of a placeholder. -/
def Plain (name : List Char) : Prop := ∀ c ∈ name, c ≠ '$' ∧ c ≠ '{' ∧ c ≠ '}'

/-- The text starts with a placeholder that the backend resolves. -/
def Resolves (backend : SecretBackend) (text : List Char) : Prop :=
  ∃ name after, text = '$' :: '{' :: (name ++ '}' :: after) ∧ Plain name ∧
    (backend (String.ofList name)).isSome = true

/-- Every placeholder the backend resolves makes way for its secret, and nothing else changes. -/
inductive Expanded (backend : SecretBackend) : List Char → List Fragment → Prop
  | done : Expanded backend [] []
  | placeholder {name after : List Char} {value : String} {out : List Fragment} :
      Plain name → backend (String.ofList name) = some value → Expanded backend after out →
        Expanded backend ('$' :: '{' :: (name ++ '}' :: after))
          (.inserted (String.ofList name) value :: out)
  | char {c : Char} {rest : List Char} {out : List Fragment} :
      ¬ Resolves backend (c :: rest) → Expanded backend rest out →
        Expanded backend (c :: rest) (.kept c :: out)

section Expand

variable {backend : SecretBackend} {c : Char} {text rest before name after : List Char}
  {value : String} {out : List Fragment}

theorem name_unique {name' after' : List Char} (h : name ++ '}' :: after = name' ++ '}' :: after')
    (hname : '}' ∉ name) (hname' : '}' ∉ name') : name = name' ∧ after = after' := by
  have hsplit : splitClose (name ++ '}' :: after) = some (name, after) := splitClose_append hname
  rw [h, splitClose_append hname'] at hsplit
  cases hsplit
  exact ⟨rfl, rfl⟩

theorem Plain.not_mem (h : Plain name) : '}' ∉ name := fun hmem => (h _ hmem).2.2 rfl

theorem expanded_char (h : ¬ Resolves backend (c :: rest)) :
    Expanded backend (c :: rest) out ↔ ∃ out', out = .kept c :: out' ∧ Expanded backend rest out' := by
  constructor
  · intro hout
    cases hout with
    | placeholder hplain hvalue hafter =>
      exact absurd ⟨_, _, rfl, hplain, by rw [hvalue]; rfl⟩ h
    | char _ hrest => exact ⟨_, rfl, hrest⟩
  · rintro ⟨out', rfl, hrest⟩
    exact .char h hrest

theorem expanded_placeholder (hplain : Plain name) (hvalue : backend (String.ofList name) = some value) :
    Expanded backend ('$' :: '{' :: (name ++ '}' :: after)) out ↔
      ∃ out', out = .inserted (String.ofList name) value :: out' ∧ Expanded backend after out' := by
  constructor
  · intro hout
    generalize htext : '$' :: '{' :: (name ++ '}' :: after) = text at hout
    cases hout with
    | done => cases htext
    | placeholder hplain' hvalue' hafter =>
      obtain ⟨rfl, rfl⟩ := name_unique (List.cons.inj (List.cons.inj htext).2).2 hplain.not_mem
        hplain'.not_mem
      rw [hvalue] at hvalue'
      cases hvalue'
      exact ⟨_, rfl, hafter⟩
    | char hnot _ =>
      exact absurd ⟨name, after, htext.symm, hplain, by rw [hvalue]; rfl⟩ hnot
  · rintro ⟨out', rfl, hafter⟩
    exact .placeholder hplain hvalue hafter

theorem expanded_keep (h : ∀ a b, text = a ++ b → b ≠ [] → ¬ Resolves backend (b ++ rest)) :
    Expanded backend (text ++ rest) out ↔
      ∃ out', out = keep text ++ out' ∧ Expanded backend rest out' := by
  induction text generalizing out with
  | nil => simp [keep]
  | cons c text ih =>
    have hhead : ¬ Resolves backend (c :: (text ++ rest)) := h [] (c :: text) rfl (List.cons_ne_nil _ _)
    rw [List.cons_append, expanded_char hhead]
    constructor
    · rintro ⟨out', rfl, hout⟩
      obtain ⟨out'', rfl, hrest⟩ := (ih fun a b hab hb => h (c :: a) b (by rw [hab]; rfl) hb).mp hout
      exact ⟨out'', rfl, hrest⟩
    · rintro ⟨out', rfl, hout⟩
      exact ⟨_, rfl, (ih fun a b hab hb => h (c :: a) b (by rw [hab]; rfl) hb).mpr ⟨out', rfl, hout⟩⟩

theorem expanded_all_kept (h : ∀ a b, text = a ++ b → ¬ Resolves backend b) :
    Expanded backend text (keep text) := by
  induction text with
  | nil => exact .done
  | cons c text ih =>
    exact .char (h [] _ rfl) (ih fun a b hab => h (c :: a) b (by rw [hab]; rfl))

theorem Resolves.mem_close (h : Resolves backend text) : '}' ∈ text := by
  obtain ⟨name, after, rfl, -, -⟩ := h
  simp

theorem not_resolves_of_splitOpen (h : splitOpen text = some (before, after)) :
    ∀ a b, before = a ++ b → b ≠ [] → ¬ Resolves backend (b ++ '$' :: '{' :: after) := by
  induction text generalizing before with
  | nil => cases h
  | cons c text ih =>
    have hwhole := splitOpen_eq_some h
    unfold splitOpen at h
    split at h
    · cases h
      intro a b hab hb
      exact absurd (List.append_eq_nil_iff.mp hab.symm).2 hb
    · rename_i hopen
      obtain ⟨⟨before', after'⟩, hrest, heq⟩ := Option.map_eq_some_iff.mp h
      cases heq
      intro a b hab hb
      cases a with
      | nil =>
        rintro ⟨name, behind, hname, -, -⟩
        rw [List.nil_append] at hab
        rw [← hab, ← hwhole] at hname
        cases hname
        exact hopen ⟨rfl, rfl⟩
      | cons d a => exact ih hrest a b (List.cons.inj hab).2 hb

theorem not_resolves_of_no_open (h : splitOpen text = none) :
    ∀ a b, text = a ++ b → ¬ Resolves backend b := by
  induction text with
  | nil =>
    intro a b hab
    rw [(List.append_eq_nil_iff.mp hab.symm).2]
    rintro ⟨name, behind, hname, -, -⟩
    cases hname
  | cons c text ih =>
    unfold splitOpen at h
    split at h
    · cases h
    · rename_i hopen
      rw [Option.map_eq_none_iff] at h
      intro a b hab
      cases a with
      | nil =>
        rintro ⟨name, behind, hname, -, -⟩
        rw [List.nil_append] at hab
        rw [hname] at hab
        cases hab
        exact hopen ⟨rfl, rfl⟩
      | cons d a => exact ih h a b (List.cons.inj hab).2

theorem resolves_within (hname : '}' ∉ name) {a b : List Char}
    (hab : '$' :: '{' :: name ++ ['}'] = a ++ b) (hb : b ≠ []) (h : Resolves backend (b ++ after)) :
    (Plain name ∧ (backend (String.ofList name)).isSome = true) ∨
      ∃ pre inner, name = pre ++ '$' :: '{' :: inner ∧ Plain inner ∧
        (backend (String.ofList inner)).isSome = true := by
  obtain ⟨inner, behind, hinner, hplain, hsome⟩ := h
  obtain ⟨b', last, rfl⟩ : ∃ b' last, b = b' ++ [last] := ⟨b.dropLast, b.getLast hb,
    (List.dropLast_append_getLast hb).symm⟩
  rw [← List.append_assoc] at hab
  obtain ⟨hopen, hlast⟩ := List.append_inj' hab rfl
  cases hlast
  have hno : '}' ∉ a ++ b' := by
    rw [← hopen]
    simpa using hname
  have hno' : '}' ∉ b' := fun hmem => hno (List.mem_append_right _ hmem)
  have hclean : '}' ∉ '$' :: '{' :: inner := by simpa using hplain.not_mem
  rw [List.append_assoc, List.singleton_append] at hinner
  obtain ⟨rfl, -⟩ := name_unique hinner hno' hclean
  rcases a with _ | ⟨c, _ | ⟨d, pre⟩⟩
  · cases hopen
    exact .inl ⟨hplain, hsome⟩
  · cases hopen
  · cases hopen
    exact .inr ⟨pre, inner, rfl, hplain, hsome⟩

/-- What an opener and its `}` enclose leads to the right expansion: it is a name; or the backend
resolves neither it nor the placeholder it ends with. -/
def Settled (backend : SecretBackend) (name : List Char) : Prop :=
  Plain name ∨ (backend (String.ofList name) = none ∧
    ∀ pre inner, name = pre ++ '$' :: '{' :: inner → Plain inner →
      backend (String.ofList inner) = none)

theorem expanded_keep_enclosed (hname : '}' ∉ name) (hsettled : Settled backend name)
    (hnone : backend (String.ofList name) = none) :
    Expanded backend ('$' :: '{' :: (name ++ '}' :: after)) out ↔
      ∃ out', out = keep ('$' :: '{' :: name ++ ['}']) ++ out' ∧ Expanded backend after out' := by
  have hsplit : '$' :: '{' :: (name ++ '}' :: after) = ('$' :: '{' :: name ++ ['}']) ++ after := by
    simp
  rw [hsplit]
  refine expanded_keep fun a b hab hb hresolves => ?_
  rcases resolves_within hname hab hb hresolves with ⟨-, hsome⟩ | ⟨pre, inner, heq, hplain, hsome⟩
  · rw [hnone] at hsome
    cases hsome
  · rcases hsettled with hclean | ⟨-, hinner⟩
    · refine (hclean '$' ?_).1 rfl
      rw [heq]
      simp
    · rw [hinner pre inner heq hplain] at hsome
      cases hsome

theorem expanded_enclosed {pre inner : List Char} (hplain : Plain inner)
    (hvalue : backend (String.ofList inner) = some value) (hpre : '}' ∉ pre) :
    Expanded backend ('$' :: '{' :: (pre ++ '$' :: '{' :: inner ++ '}' :: after)) out ↔
      ∃ out', out = keep ('$' :: '{' :: pre) ++ .inserted (String.ofList inner) value :: out' ∧
        Expanded backend after out' := by
  have hsplit : '$' :: '{' :: (pre ++ '$' :: '{' :: inner ++ '}' :: after) =
      ('$' :: '{' :: pre) ++ '$' :: '{' :: (inner ++ '}' :: after) := by simp
  rw [hsplit, expanded_keep fun a b hab hb hresolves => ?_]
  · constructor
    · rintro ⟨out', rfl, hout⟩
      obtain ⟨out'', rfl, hafter⟩ := (expanded_placeholder hplain hvalue).mp hout
      exact ⟨out'', rfl, hafter⟩
    · rintro ⟨out', rfl, hafter⟩
      exact ⟨_, rfl, (expanded_placeholder hplain hvalue).mpr ⟨out', rfl, hafter⟩⟩
  · obtain ⟨name', behind, hname', hother, -⟩ := hresolves
    have hopen : '}' ∉ '$' :: '{' :: pre := by simpa using hpre
    have hno : '}' ∉ b ++ '$' :: '{' :: inner := by
      intro hmem
      rcases List.mem_append.mp hmem with hmem | hmem
      · exact hopen (hab ▸ List.mem_append_right _ hmem)
      · simp only [List.mem_cons] at hmem
        rcases hmem with hmem | hmem | hmem
        · cases hmem
        · cases hmem
        · exact hplain.not_mem hmem
    have hclean : '}' ∉ '$' :: '{' :: name' := by simpa using hother.not_mem
    have hsame : (b ++ '$' :: '{' :: inner) ++ '}' :: after =
        ('$' :: '{' :: name') ++ '}' :: behind := by simpa using hname'
    obtain ⟨heq, -⟩ := name_unique hsame hno hclean
    -- the name would hold the inner opener
    rcases b with _ | ⟨c, _ | ⟨d, b⟩⟩
    · exact hb rfl
    · cases heq
    · cases heq
      exact (hother '$' (by simp)).1 rfl

theorem first_of_not_plain (hname : '}' ∉ name) (hdirty : ¬ Plain name)
    (h : Expanded backend ('$' :: '{' :: (name ++ '}' :: after)) out) :
    ∃ out', out = .kept '$' :: out' := by
  have hhead : ¬ Resolves backend ('$' :: '{' :: (name ++ '}' :: after)) := by
    rintro ⟨name', behind, hname', hplain, -⟩
    obtain ⟨rfl, -⟩ := name_unique (List.cons.inj (List.cons.inj hname').2).2 hname hplain.not_mem
    exact hdirty hplain
  obtain ⟨out', hout, -⟩ := (expanded_char hhead).mp h
  exact ⟨out', hout⟩

theorem keep_append (a b : List Char) : keep (a ++ b) = keep a ++ keep b := List.map_append

/-- Two stretches that are kept and what follows them: where the second goes on, the first has an
inserted secret. -/
theorem keep_ne_inserted {pre tail : List Char} {inner v : String} {out out' : List Fragment}
    (htail : tail ≠ []) : keep (pre ++ tail) ++ out ≠ keep pre ++ .inserted inner v :: out' := by
  rw [keep_append, List.append_assoc]
  intro h
  have hrest := List.append_cancel_left h
  cases tail with
  | nil => exact htail rfl
  | cons c tail => cases hrest

/-- One opener with what it encloses: the scan does right there exactly if it is settled. -/
theorem expanded_segment (hname : '}' ∉ name) (rest : List Fragment) :
    Expanded backend ('$' :: '{' :: (name ++ '}' :: after))
        (match backend (String.ofList name) with
          | some value => .inserted (String.ofList name) value :: rest
          | none => keep ('$' :: '{' :: name ++ ['}']) ++ rest) ↔
      Settled backend name ∧ Expanded backend after rest := by
  cases hvalue : backend (String.ofList name) with
  | some value =>
    by_cases hplain : Plain name
    · rw [expanded_placeholder hplain hvalue]
      constructor
      · rintro ⟨out', hout, hafter⟩
        cases hout
        exact ⟨.inl hplain, hafter⟩
      · rintro ⟨-, hafter⟩
        exact ⟨rest, rfl, hafter⟩
    · constructor
      · intro h
        obtain ⟨out', hout⟩ := first_of_not_plain hname hplain h
        cases hout
      · rintro ⟨hsettled, -⟩
        rcases hsettled with hplain' | ⟨hnone, -⟩
        · exact absurd hplain' hplain
        · rw [hvalue] at hnone
          cases hnone
  | none =>
    by_cases hsettled : Settled backend name
    · rw [expanded_keep_enclosed hname hsettled hvalue]
      constructor
      · rintro ⟨out', hout, hafter⟩
        exact ⟨hsettled, List.append_cancel_left hout ▸ hafter⟩
      · rintro ⟨-, hafter⟩
        exact ⟨rest, rfl, hafter⟩
    · refine iff_of_false (fun h => ?_) fun h => hsettled h.1
      obtain ⟨hdirty, hhidden⟩ := not_or.mp hsettled
      have hhidden' : ∃ pre inner, name = pre ++ '$' :: '{' :: inner ∧ Plain inner ∧
          (backend (String.ofList inner)).isSome = true := by
        by_contra hno
        refine hhidden ⟨hvalue, fun pre inner heq hplain => ?_⟩
        by_contra hsome
        exact hno ⟨pre, inner, heq, hplain, Option.ne_none_iff_isSome.mp hsome⟩
      obtain ⟨pre, inner, rfl, hplain, hsome⟩ := hhidden'
      obtain ⟨value, hinner⟩ := Option.isSome_iff_exists.mp hsome
      have hpre : '}' ∉ pre := fun hmem => hname (List.mem_append_left _ hmem)
      obtain ⟨out', hout, -⟩ := (expanded_enclosed hplain hinner hpre).mp h
      have hsplit : '$' :: '{' :: (pre ++ '$' :: '{' :: inner) ++ ['}'] =
          ('$' :: '{' :: pre) ++ ('$' :: '{' :: inner ++ ['}']) := by simp
      rw [hsplit] at hout
      exact keep_ne_inserted (by simp) hout

theorem expandFragments_of_none (h : nextPlaceholder text = none) :
    expandFragments backend text = keep text := by
  rw [expandFragments]
  split
  · rfl
  · rename_i hnext
    rw [h] at hnext
    cases hnext

theorem expandFragments_of_some (backend : SecretBackend)
    (h : nextPlaceholder text = some (before, name, after)) :
    expandFragments backend text = keep before ++
      match backend (String.ofList name) with
      | some value => .inserted (String.ofList name) value :: expandFragments backend after
      | none => keep ('$' :: '{' :: name ++ ['}']) ++ expandFragments backend after := by
  rw [expandFragments]
  split
  · rename_i hnext
    rw [h] at hnext
    cases hnext
  · rename_i hnext
    rw [h] at hnext
    cases hnext
    cases backend (String.ofList name) with
    | some value => rfl
    | none => simp [keep_append]

theorem expanded_of_no_placeholder (h : nextPlaceholder text = none) :
    Expanded backend text (keep text) := by
  refine expanded_all_kept fun a b hab hresolves => ?_
  cases hopen : splitOpen text with
  | none => exact not_resolves_of_no_open hopen a b hab hresolves
  | some split =>
    obtain ⟨before, inner⟩ := split
    have hclose : splitClose inner = none := by
      cases hclose : splitClose inner with
      | none => rfl
      | some split =>
        obtain ⟨name, after⟩ := split
        simp [nextPlaceholder, hopen, hclose] at h
    have hno : '}' ∉ '$' :: '{' :: inner := by simpa using mem_of_splitClose_eq_none hclose
    rw [splitOpen_eq_some hopen] at hab
    rcases List.append_eq_append_iff.mp hab with ⟨c, -, hc⟩ | ⟨c, hc, rfl⟩
    · exact hno (hc ▸ List.mem_append_right _ hresolves.mem_close)
    · by_cases hnil : c = []
      · rw [hnil] at hresolves
        exact hno hresolves.mem_close
      · exact not_resolves_of_splitOpen hopen a c hc hnil hresolves

theorem expanded_iff (backend : SecretBackend) (text : List Char) :
    Expanded backend text (expandFragments backend text) ↔
      ∀ name ∈ enclosed text, Settled backend name := by
  fun_induction enclosed text with
  | case1 text hnext =>
    rw [expandFragments_of_none hnext]
    simp only [List.not_mem_nil, false_implies, implies_true, iff_true]
    exact expanded_of_no_placeholder hnext
  | case2 text before name after hnext ih =>
    obtain ⟨hopen, hname⟩ := nextPlaceholder_eq_some hnext
    rw [expandFragments_of_some backend hnext, List.forall_mem_cons, ← ih,
      ← expanded_segment hname]
    conv_lhs => rw [splitOpen_eq_some hopen]
    rw [expanded_keep (not_resolves_of_splitOpen hopen)]
    constructor
    · rintro ⟨out', hout, hrest⟩
      exact List.append_cancel_left hout ▸ hrest
    · exact fun hrest => ⟨_, rfl, hrest⟩

end Expand

/-- The values to redact; short ones are left out. -/
structure Redactor where
  knownValues : List String
  long : ∀ value ∈ knownValues, 8 ≤ value.utf8ByteSize

namespace Redactor

def fromNames (names : List String) (backend : SecretBackend) : Redactor where
  knownValues := (names.filterMap backend).filter fun value => 8 ≤ value.utf8ByteSize
  long value h := by simpa using (List.mem_filter.mp h).2

/-- `str::replace`. -/
def replaceStr (s pattern by_ : String) : String :=
  String.ofList (replace id pattern.toList by_.toList s.toList)

def redactStr (r : Redactor) (s : String) : String :=
  r.knownValues.foldl (fun result secret => replaceStr result secret "[REDACTED]") s

end Redactor

/-- A character of a text under redaction: one of the input, with its place there, or of a tag. -/
inductive Mark
  | input (i : ℕ) (c : Char)
  | tag (c : Char)
  deriving DecidableEq

namespace Mark

def char : Mark → Char
  | .input _ c => c
  | .tag c => c

def origin : Mark → Option ℕ
  | .input i _ => some i
  | .tag _ => none

/-- What can stand next to each other: characters that do so in the input, and an input character
and a tag's bracket. -/
def Neighbours : Mark → Mark → Prop
  | .input i _, .input j _ => j = i + 1
  | .input _ _, .tag c => c = '['
  | .tag c, .input _ _ => c = ']'
  | .tag _, .tag _ => True

end Mark

/-- The characters of a text that starts at a place of the input. -/
def marksFrom (p : ℕ) (text : List Char) : List Mark := (text.zipIdx p).map fun (c, i) => .input i c

def tagMarks : List Mark := "[REDACTED]".toList.map .tag

/-- The redaction, of marked characters. -/
def redactMarks (values : List String) (marks : List Mark) : List Mark :=
  values.foldl (fun marks value => replace Mark.char value.toList tagMarks marks) marks

/-- The character of the input at a place is in the redacted text. -/
def Survives (r : Redactor) (s : String) (i : ℕ) : Prop :=
  ∃ c, Mark.input i c ∈ redactMarks r.knownValues (marksFrom 0 s.toList)

/-- The value stands in the text at a place. -/
def Occurs (value text : List Char) (p : ℕ) : Prop := value <+: text.drop p

/-- No character of an occurrence of a known value survives. -/
def RedactsAll (r : Redactor) (s : String) : Prop :=
  ∀ value ∈ r.knownValues, ∀ p, Occurs value.toList s.toList p →
    ∀ i, p ≤ i → i < p + value.toList.length → ¬ Survives r s i

/-- Where occurrences of two values overlap, that of the second lies within that of the first. -/
def Within (text earlier later : List Char) : Prop :=
  ∀ p q, Occurs earlier text p → Occurs later text q → q < p + earlier.length →
    p < q + later.length → p ≤ q ∧ q + later.length ≤ p + earlier.length

/-- No end of one value is a beginning of the other. -/
def Apart (v w : List Char) : Prop :=
  ∀ a b c : List Char, a ≠ [] → b ≠ [] → c ≠ [] →
    ¬ (v = a ++ b ∧ w = b ++ c) ∧ ¬ (w = a ++ b ∧ v = b ++ c)

/-- Occurrences of the values that overlap in the text lie within each other, the one whose value
comes later in the list within the other; and a value with a bracket, which could take in a part of
a tag, overlaps no value at all. -/
structure Separate (r : Redactor) (s : String) : Prop where
  selfWithin : ∀ value ∈ r.knownValues, Within s.toList value.toList value.toList
  within : r.knownValues.Pairwise fun earlier later => Within s.toList earlier.toList later.toList
  apart : ∀ value ∈ r.knownValues, '[' ∈ value.toList ∨ ']' ∈ value.toList →
    ∀ other ∈ r.knownValues, Apart value.toList other.toList

section Redact

variable {text value : List Char} {marks before after : List Mark} {p i : ℕ}

theorem map_char_marksFrom (p : ℕ) (text : List Char) : (marksFrom p text).map Mark.char = text := by
  unfold marksFrom
  rw [List.map_map]
  exact List.zipIdx_map_fst p text

@[simp]
theorem length_marksFrom (p : ℕ) (text : List Char) : (marksFrom p text).length = text.length := by
  simp [marksFrom]

theorem getElem?_marksFrom (p : ℕ) (text : List Char) (t : ℕ) :
    (marksFrom p text)[t]? = text[t]?.map (Mark.input (p + t)) := by
  rw [marksFrom, List.getElem?_map, List.getElem?_zipIdx, Option.map_map]
  rfl

/-- What holds of the marks at every stage. -/
structure Inv (text : List Char) (marks : List Mark) : Prop where
  chain : marks.IsChain Mark.Neighbours
  source : ∀ i c, Mark.input i c ∈ marks → text[i]? = some c
  nodup : (marks.filterMap Mark.origin).Nodup

theorem origin_marksFrom (p : ℕ) (text : List Char) :
    (marksFrom p text).filterMap Mark.origin = List.range' p text.length := by
  rw [← List.zipIdx_map_snd p text, marksFrom, List.filterMap_map, ← List.filterMap_eq_map]
  rfl

theorem chain_marksFrom (p : ℕ) (text : List Char) : (marksFrom p text).IsChain Mark.Neighbours := by
  induction text generalizing p with
  | nil => exact List.IsChain.nil
  | cons c text ih =>
    have hcons : marksFrom p (c :: text) = .input p c :: marksFrom (p + 1) text := rfl
    rw [hcons, List.isChain_cons]
    refine ⟨fun y hy => ?_, ih (p + 1)⟩
    cases text with
    | nil => cases hy
    | cons d text =>
      cases hy
      rfl

theorem chain_tags (text : List Char) : (text.map Mark.tag).IsChain Mark.Neighbours := by
  induction text with
  | nil => exact List.IsChain.nil
  | cons c text ih =>
    refine List.isChain_cons.mpr ⟨fun y hy => ?_, ih⟩
    cases text with
    | nil => cases hy
    | cons d text =>
      cases hy
      trivial

theorem inv_marksFrom (text : List Char) : Inv text (marksFrom 0 text) where
  chain := chain_marksFrom 0 text
  source i c h := by
    obtain ⟨t, ht⟩ := List.mem_iff_getElem?.mp h
    rw [getElem?_marksFrom, Nat.zero_add] at ht
    obtain ⟨d, hd, heq⟩ := Option.map_eq_some_iff.mp ht
    cases heq
    exact hd
  nodup := by
    rw [origin_marksFrom]
    exact List.nodup_range'

theorem Inv.replace (h : Inv text marks) (hvalue : value ≠ []) :
    Inv text (Replace.replace Mark.char value tagMarks marks) := by
  have hreplaced := replaced Mark.char tagMarks hvalue marks
  have hmem : ∀ x ∈ tagMarks, ∃ c, x = .tag c := by
    intro x hx
    obtain ⟨c, -, rfl⟩ := List.mem_map.mp hx
    exact ⟨c, rfl⟩
  have hlast : tagMarks.getLast? = some (.tag ']') := rfl
  have hhead : tagMarks.head? = some (.tag '[') := rfl
  refine ⟨(hreplaced.isChain (by decide) (chain_tags _) ?_ ?_ h.chain).1, fun i c hi => ?_,
    h.nodup.sublist (hreplaced.sublist rfl)⟩
  · intro x y hy
    rw [hhead] at hy
    cases hy
    cases x <;> simp [Mark.Neighbours]
  · intro x hx y
    rw [hlast] at hx
    cases hx
    cases y <;> simp [Mark.Neighbours]
  · rcases hreplaced.mem hi with hi | hi
    · exact h.source i c hi
    · obtain ⟨d, hd⟩ := hmem _ hi
      cases hd

theorem eq_marksFrom {stretch : List Mark} (hne : stretch ≠ [])
    (hchain : stretch.IsChain Mark.Neighbours) (hinput : ∀ m ∈ stretch, ∃ i c, m = .input i c) :
    ∃ p, stretch = marksFrom p (stretch.map Mark.char) := by
  induction stretch with
  | nil => exact absurd rfl hne
  | cons m stretch ih =>
    obtain ⟨i, c, rfl⟩ := hinput m List.mem_cons_self
    refine ⟨i, ?_⟩
    cases stretch with
    | nil => rfl
    | cons n stretch =>
      obtain ⟨p, hp⟩ := ih (List.cons_ne_nil _ _) (List.isChain_cons.mp hchain).2
        fun m hm => hinput m (List.mem_cons_of_mem _ hm)
      obtain ⟨j, d, rfl⟩ := hinput n (List.mem_cons_of_mem _ List.mem_cons_self)
      have hnext : j = i + 1 := (List.isChain_cons.mp hchain).1 _ rfl
      have hstart : j = p := by
        have hhead := congrArg List.head? hp
        cases hhead
        rfl
      subst hstart
      subst hnext
      exact congrArg (Mark.input i c :: ·) hp

/-- A stretch with characters of the input and of a tag has a bracket. -/
theorem bracket_mem {stretch : List Mark} (hchain : stretch.IsChain Mark.Neighbours)
    (hinput : ∃ i c, Mark.input i c ∈ stretch) (htag : ∃ c, Mark.tag c ∈ stretch) :
    '[' ∈ stretch.map Mark.char ∨ ']' ∈ stretch.map Mark.char := by
  induction stretch with
  | nil =>
    obtain ⟨c, hc⟩ := htag
    cases hc
  | cons m stretch ih =>
    obtain ⟨hfirst, hrest⟩ := List.isChain_cons.mp hchain
    have hlater : (∃ i c, Mark.input i c ∈ stretch) → (∃ c, Mark.tag c ∈ stretch) →
        '[' ∈ (m :: stretch).map Mark.char ∨ ']' ∈ (m :: stretch).map Mark.char :=
      fun hinput htag => (ih hrest hinput htag).imp (List.mem_cons_of_mem _)
        (List.mem_cons_of_mem _)
    cases stretch with
    | nil =>
      obtain ⟨i, c, hi⟩ := hinput
      obtain ⟨d, hd⟩ := htag
      rw [List.mem_singleton] at hi hd
      rw [← hi] at hd
      cases hd
    | cons n stretch =>
      have hpair : m.Neighbours n := hfirst n rfl
      -- a bracket stands where the kinds of the marks change
      cases m with
      | input i c =>
        have htag' : ∃ c, Mark.tag c ∈ n :: stretch := by
          obtain ⟨d, hd⟩ := htag
          exact ⟨d, (List.mem_cons.mp hd).resolve_left fun heq => by cases heq⟩
        cases n with
        | tag d =>
          have hbracket : d = '[' := hpair
          exact .inl (by simp [Mark.char, hbracket])
        | input j d => exact hlater ⟨j, d, List.mem_cons_self⟩ htag'
      | tag c =>
        have hinput' : ∃ i c, Mark.input i c ∈ n :: stretch := by
          obtain ⟨i, d, hd⟩ := hinput
          exact ⟨i, d, (List.mem_cons.mp hd).resolve_left fun heq => by cases heq⟩
        cases n with
        | input j d =>
          have hbracket : c = ']' := hpair
          exact .inr (by simp [Mark.char, hbracket])
        | tag d => exact hlater hinput' ⟨d, List.mem_cons_self⟩

theorem Inv.occurs (h : Inv text marks) (hmarks : marks = before ++ marksFrom p value ++ after) :
    Occurs value text p := by
  refine List.prefix_iff_getElem?.mpr fun t ht => ?_
  rw [List.getElem?_drop]
  refine h.source (p + t) _ ?_
  rw [hmarks]
  refine List.mem_append_left _ (List.mem_append_right _ (List.mem_of_getElem? (i := t) ?_))
  rw [getElem?_marksFrom, List.getElem?_eq_getElem ht]
  rfl

theorem place_of_getElem? {secret : List Char} {q t u : ℕ} (ht : t < value.length)
    (h : (marksFrom p value)[t]? = (marksFrom q secret)[u]?) : p + t = q + u := by
  rw [getElem?_marksFrom, getElem?_marksFrom, List.getElem?_eq_getElem ht, Option.map_some] at h
  obtain ⟨c, -, hc⟩ := Option.map_eq_some_iff.mp h.symm
  exact (Mark.input.inj hc).1.symm

/-- A match of one value and an intact occurrence of another: the match is clear of it or covers it,
when it comes of the input, where the occurrences lie within each other, and when it takes in a part
of a tag, where its value overlaps no other. -/
theorem Inv.clear {secret : List Char} (h : Inv text marks) (hsecret : secret ≠ []) (hvalue : value ≠ [])
    (hmarks : marks = before ++ marksFrom p value ++ after) (hwithin : Within text secret value)
    (hapart : '[' ∈ secret ∨ ']' ∈ secret → Apart secret value) :
    Replaced.Clear Mark.char secret before (marksFrom p value) after := by
  intro a w b hw hkey
  have hlength : w.length = secret.length := by rw [← hkey, List.length_map]
  have hwne : w ≠ [] := by
    rintro rfl
    exact hsecret hkey.symm
  have hwpos := List.length_pos_of_ne_nil hwne
  have hvpos := List.length_pos_of_ne_nil hvalue
  by_cases hdisjoint : a.length + w.length ≤ before.length ∨
      before.length + (marksFrom p value).length ≤ a.length
  · exact hdisjoint.imp_right .inl
  refine .inr (.inr ?_)
  obtain ⟨hbefore, hafter⟩ := not_or.mp hdisjoint
  rw [not_le] at hbefore hafter
  have hchain : w.IsChain Mark.Neighbours := by
    have hall := h.chain
    rw [hmarks, hw] at hall
    exact hall.left_of_append.right_of_append
  by_cases hinput : ∀ m ∈ w, ∃ i c, m = .input i c
  · obtain ⟨q, hq⟩ := eq_marksFrom hwne hchain hinput
    rw [hkey] at hq
    -- the two stand to each other in the marks as they do in the input
    have halign : p + a.length = q + before.length := by
      rcases Nat.le_total a.length before.length with hle | hle
      · have hplace := getElem?_overlap hw le_rfl (by rw [length_marksFrom]; omega) hle hbefore
        rw [hq] at hplace
        have hfirst := place_of_getElem? (by omega) hplace
        omega
      · have hplace := getElem?_overlap hw hle hafter le_rfl (by omega)
        rw [hq] at hplace
        have hfirst := place_of_getElem? (by rw [length_marksFrom] at hafter; omega) hplace
        omega
    have hlies := hwithin q p (h.occurs (hmarks.trans (hq ▸ hw))) (h.occurs hmarks)
    rw [length_marksFrom] at hafter ⊢
    omega
  · have htag : ∃ c, Mark.tag c ∈ w := by
      by_contra hno
      refine hinput fun m hm => ?_
      cases m with
      | input i c => exact ⟨i, c, rfl⟩
      | tag c => exact absurd ⟨c, hm⟩ hno
    have hstretch : ∀ m ∈ marksFrom p value, ∃ i c, m = .input i c := by
      intro m hm
      obtain ⟨⟨c, i⟩, -, rfl⟩ := List.mem_map.mp hm
      exact ⟨i, c, rfl⟩
    have hshared : ∀ y : List Mark, y ≠ [] → (∀ m ∈ y, m ∈ w) → (∀ m ∈ y, m ∈ marksFrom p value) →
        Apart secret value := by
      intro y hy hyw hyv
      obtain ⟨m, hm⟩ := List.exists_mem_of_ne_nil y hy
      obtain ⟨i, c, rfl⟩ := hstretch m (hyv m hm)
      exact hapart (hkey ▸ bracket_mem hchain ⟨i, c, hyw _ hm⟩ htag)
    have hchars := map_char_marksFrom p value
    refine ⟨?_, ?_⟩
    · by_contra hlate
      by_cases hinside : a.length + w.length ≤ before.length + (marksFrom p value).length
      · obtain ⟨c, hc⟩ := htag
        obtain ⟨i, d, heq⟩ := hstretch _ (mem_of_within hw (by omega) hinside hc)
        cases heq
      · obtain ⟨x, y, z, hx, hy, hz, hxy, hyz⟩ :=
          overlap_split hw.symm (by omega) hafter (by omega)
        have hapart' := hshared y hy (fun m hm => hyz ▸ List.mem_append_left _ hm)
          fun m hm => hxy ▸ List.mem_append_right _ hm
        refine (hapart' (x.map Mark.char) (y.map Mark.char) (z.map Mark.char) ?_ ?_ ?_).2 ⟨?_, ?_⟩
        · simpa using hx
        · simpa using hy
        · simpa using hz
        · rw [← hchars, hxy, List.map_append]
        · rw [← hkey, hyz, List.map_append]
    · by_contra hshort
      by_cases hinside : before.length ≤ a.length
      · obtain ⟨c, hc⟩ := htag
        obtain ⟨i, d, heq⟩ := hstretch _ (mem_of_within hw hinside (by omega) hc)
        cases heq
      · obtain ⟨x, y, z, hx, hy, hz, hxy, hyz⟩ :=
          overlap_split hw (by omega) hbefore (by omega)
        have hapart' := hshared y hy (fun m hm => hxy ▸ List.mem_append_right _ hm)
          fun m hm => hyz ▸ List.mem_append_left _ hm
        refine (hapart' (x.map Mark.char) (y.map Mark.char) (z.map Mark.char) ?_ ?_ ?_).1 ⟨?_, ?_⟩
        · simpa using hx
        · simpa using hy
        · simpa using hz
        · rw [← hkey, hxy, List.map_append]
        · rw [← hchars, hyz, List.map_append]

/-- The occurrence stands in the marks as it does in the input. -/
def Intact (value : List Char) (p : ℕ) (marks : List Mark) : Prop :=
  ∃ before after, marks = before ++ marksFrom p value ++ after

/-- Nothing is left of it. -/
def Gone (value : List Char) (p : ℕ) (marks : List Mark) : Prop := ∀ m ∈ marksFrom p value, m ∉ marks

theorem input_not_mem_tagMarks (i : ℕ) (c : Char) : Mark.input i c ∉ tagMarks := by
  intro h
  obtain ⟨d, -, hd⟩ := List.mem_map.mp h
  cases hd

theorem exists_of_mem_marksFrom {m : Mark} (h : m ∈ marksFrom p value) : ∃ i c, m = .input i c := by
  obtain ⟨⟨c, i⟩, -, rfl⟩ := List.mem_map.mp h
  exact ⟨i, c, rfl⟩

theorem Gone.replace {secret : List Char} (h : Gone value p marks) (hsecret : secret ≠ []) :
    Gone value p (Replace.replace Mark.char secret tagMarks marks) := by
  intro m hm hmem
  obtain ⟨i, c, rfl⟩ := exists_of_mem_marksFrom hm
  rcases (replaced Mark.char tagMarks hsecret marks).mem hmem with hold | htag
  · exact h _ hm hold
  · exact input_not_mem_tagMarks i c htag

theorem Inv.step {secret : List Char} (h : Inv text marks) (hsecret : secret ≠ [])
    (hvalue : value ≠ []) (hwithin : Within text secret value)
    (hapart : '[' ∈ secret ∨ ']' ∈ secret → Apart secret value) (hintact : Intact value p marks) :
    (value ≠ secret ∧ Intact value p (Replace.replace Mark.char secret tagMarks marks)) ∨
      Gone value p (Replace.replace Mark.char secret tagMarks marks) := by
  obtain ⟨before, after, hmarks⟩ := hintact
  have hclear := h.clear hsecret hvalue hmarks hwithin hapart
  have hne : marksFrom p value ≠ [] := by
    refine List.ne_nil_of_length_pos ?_
    rw [length_marksFrom]
    exact List.length_pos_of_ne_nil hvalue
  have hreplaced := replaced Mark.char tagMarks hsecret marks
  rcases hreplaced.intact_or_gone hsecret hmarks hne hclear with
    ⟨hother, before', after', hout⟩ | hgone
  · rw [map_char_marksFrom] at hother
    exact .inl ⟨hother, before', after', hout⟩
  · refine .inr fun m hm hmem => ?_
    obtain ⟨i, c, rfl⟩ := exists_of_mem_marksFrom hm
    -- its marks are nowhere else
    have hnodup := h.nodup
    rw [hmarks, List.filterMap_append, List.filterMap_append] at hnodup
    obtain ⟨hfront, -, hback⟩ := List.nodup_append.mp hnodup
    obtain ⟨-, -, hfront⟩ := List.nodup_append.mp hfront
    have hi : i ∈ (marksFrom p value).filterMap Mark.origin :=
      List.mem_filterMap.mpr ⟨_, hm, rfl⟩
    rcases hgone _ hmem with hmem | hmem | hmem
    · exact hfront i (List.mem_filterMap.mpr ⟨_, hmem, rfl⟩) i hi rfl
    · exact hback i (List.mem_append_right _ hi) i (List.mem_filterMap.mpr ⟨_, hmem, rfl⟩) rfl
    · exact input_not_mem_tagMarks i c hmem

theorem inv_redactMarks {values : List String} (hvalues : ∀ v ∈ values, v.toList ≠ [])
    (h : Inv text marks) : Inv text (redactMarks values marks) := by
  induction values generalizing marks with
  | nil => exact h
  | cons w values ih =>
    exact ih (fun v hv => hvalues v (List.mem_cons_of_mem _ hv))
      (h.replace (hvalues w List.mem_cons_self))

theorem Gone.redactMarks {values : List String} (hvalues : ∀ v ∈ values, v.toList ≠ [])
    (h : Gone value p marks) : Gone value p (redactMarks values marks) := by
  induction values generalizing marks with
  | nil => exact h
  | cons w values ih =>
    exact ih (fun v hv => hvalues v (List.mem_cons_of_mem _ hv))
      (h.replace (hvalues w List.mem_cons_self))

theorem gone_of_intact {values : List String} {v : String} (hvalues : ∀ v ∈ values, v.toList ≠ [])
    (h : Inv text marks) (hself : ∀ v ∈ values, Within text v.toList v.toList)
    (hwithin : values.Pairwise fun earlier later => Within text earlier.toList later.toList)
    (hapart : ∀ v ∈ values, '[' ∈ v.toList ∨ ']' ∈ v.toList →
      ∀ w ∈ values, Apart v.toList w.toList) (hv : v ∈ values)
    (hintact : Intact v.toList p marks) : Gone v.toList p (redactMarks values marks) := by
  induction values generalizing marks with
  | nil => cases hv
  | cons w values ih =>
    obtain ⟨hfirst, hrest⟩ := List.pairwise_cons.mp hwithin
    have hw := hvalues w List.mem_cons_self
    have hlies : Within text w.toList v.toList := by
      rcases List.mem_cons.mp hv with rfl | hlater
      · exact hself v List.mem_cons_self
      · exact hfirst v hlater
    have hvalues' : ∀ v ∈ values, v.toList ≠ [] := fun v hv => hvalues v (List.mem_cons_of_mem _ hv)
    rcases h.step hw (hvalues v hv) hlies
      (fun hbracket => hapart w List.mem_cons_self hbracket v hv) hintact with ⟨hne, hstill⟩ | hgone
    · have hlater : v ∈ values := (List.mem_cons.mp hv).resolve_left fun heq => hne (by rw [heq])
      exact ih hvalues' (h.replace hw) (fun v hv => hself v (List.mem_cons_of_mem _ hv)) hrest
        (fun v hv hbracket x hx => hapart v (List.mem_cons_of_mem _ hv) hbracket x
          (List.mem_cons_of_mem _ hx)) hlater hstill
    · have hall := hgone.redactMarks hvalues'
      exact hall

theorem intact_of_occurs (hvalue : value ≠ []) (h : Occurs value text p) :
    Intact value p (marksFrom 0 text) := by
  obtain ⟨rest, hrest⟩ := h
  have hp : (text.take p).length = p := by
    rw [List.length_take, Nat.min_eq_left]
    have hlength := congrArg List.length hrest
    have hpos := List.length_pos_of_ne_nil hvalue
    simp only [List.length_append, List.length_drop] at hlength
    omega
  refine ⟨marksFrom 0 (text.take p), marksFrom (p + value.length) rest, ?_⟩
  conv_lhs => rw [← List.take_append_drop p text, ← hrest]
  unfold marksFrom
  rw [List.zipIdx_append, List.zipIdx_append, List.map_append, List.map_append, hp, Nat.zero_add,
    List.append_assoc]

theorem toList_ne_nil (r : Redactor) : ∀ value ∈ r.knownValues, value.toList ≠ [] := by
  intro value hvalue hnil
  have hempty : value = "" := String.toList_eq_nil_iff.mp hnil
  have hlong := r.long value hvalue
  rw [hempty] at hlong
  cases hlong

theorem redactsAll_of_separate {r : Redactor} {s : String} (h : Separate r s) : RedactsAll r s := by
  intro value hvalue p hoccurs i hlo hhi hsurvives
  obtain ⟨c, hc⟩ := hsurvives
  have hinv := inv_marksFrom s.toList
  have hintact := intact_of_occurs (toList_ne_nil r value hvalue) hoccurs
  have hgone := gone_of_intact (toList_ne_nil r) hinv h.selfWithin h.within h.apart hvalue hintact
  refine hgone _ ?_ hc
  have hsource := (inv_redactMarks (toList_ne_nil r) hinv).source i c hc
  refine List.mem_of_getElem? (i := i - p) ?_
  have hchar : value.toList[i - p]? = s.toList[i]? := by
    have hplace := List.prefix_iff_getElem?.mp hoccurs (i - p) (by omega)
    rw [List.getElem?_drop, Nat.add_sub_cancel' hlo] at hplace
    rw [hplace, List.getElem?_eq_getElem]
  rw [getElem?_marksFrom, hchar, hsource, Option.map_some, Nat.add_sub_cancel' hlo]

end Redact

def keyBackend : SecretBackend := fun name => if name = "KEY" then some "sk-1234" else none

def apiKey : Redactor := ⟨["super-secret-value"], by decide⟩

def nestedKeys : Redactor := ⟨["abcdefgh", "abcdefghijkl"], by decide⟩

end JamJet.Secrets
