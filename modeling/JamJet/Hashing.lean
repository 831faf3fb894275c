import JamJet.CharList
import JamJet.OrderedMap
import Mathlib.Data.List.Sort
import Mathlib.Data.Nat.Digits.Defs

/-! Canonical JSON text and the hashes taken over it.  The text of a value determines the value. -/

namespace JamJet

/-- How `serde_json` writes a finite double: the shortest text that reads back as it, with a point
or an exponent. -/
class FloatText where
  text : BitVec 64 → List Char
  text_inj : ∀ a b, finiteF64 a = true → finiteF64 b = true → text a = text b → a = b
  text_chars : ∀ a, finiteF64 a = true → ∀ c ∈ text a, c.isDigit = true ∨ c ∈ ['-', '+', '.', 'e']
  text_fraction : ∀ a, finiteF64 a = true → '.' ∈ text a ∨ 'e' ∈ text a

namespace Hashing

def hexDigit (n : ℕ) : Char :=
  ['0', '1', '2', '3', '4', '5', '6', '7', '8', '9', 'a', 'b', 'c', 'd', 'e', 'f'].getD n '0'

/-- One character inside a quoted string. -/
def escapeChar (c : Char) : List Char :=
  if c = '"' then ['\\', '"']
  else if c = '\\' then ['\\', '\\']
  else if c = Char.ofNat 8 then ['\\', 'b']
  else if c = Char.ofNat 12 then ['\\', 'f']
  else if c = '\n' then ['\\', 'n']
  else if c = '\r' then ['\\', 'r']
  else if c = '\t' then ['\\', 't']
  else if c.toNat < 32 then ['\\', 'u', '0', '0', hexDigit (c.toNat / 16), hexDigit (c.toNat % 16)]
  else [c]

def quote (s : String) : List Char := '"' :: (s.toList.flatMap escapeChar ++ ['"'])

/-- Texts with commas between them. -/
def joined : List (List Char) → List Char
  | [] => []
  | x :: rest => x ++ rest.flatMap (',' :: ·)

variable [FloatText]

def numberText : JsonNumber → List Char
  | .int (.ofNat n) => Nat.toDigits 10 n
  | .int (.negSucc n) => '-' :: Nat.toDigits 10 (n + 1)
  | .float bits => FloatText.text bits

mutual

/-- Object keys sorted, no whitespace. -/
def writeCanonical : Json → List Char
  | .null => ['n', 'u', 'l', 'l']
  | .bool true => ['t', 'r', 'u', 'e']
  | .bool false => ['f', 'a', 'l', 's', 'e']
  | .number n => numberText n
  | .string s => quote s
  | .array items => '[' :: (joined (writeItems items) ++ [']'])
  | .object fields =>
      '{' :: (joined (((writeMembers fields).insertionSort fun a b => a.1 ≤ b.1).map fun kv =>
        quote kv.1 ++ ':' :: kv.2) ++ ['}'])

def writeItems : List Json → List (List Char)
  | [] => []
  | v :: rest => writeCanonical v :: writeItems rest

def writeMembers : List (String × Json) → List (String × List Char)
  | [] => []
  | (k, v) :: rest => (k, writeCanonical v) :: writeMembers rest

end

def canonicalJson (v : Json) : String := String.ofList (writeCanonical v)

/-- Lowercase hex SHA-256 of the canonical text, given the hash of a text. -/
def contentHash (sha256Hex : String → String) (v : Json) : String := sha256Hex (canonicalJson v)

end Hashing

mutual

/-- A value `serde_json` can hold: keys sorted, doubles finite. -/
def Json.Held : Json → Prop
  | .object fields => BTree.Sorted fields ∧ Json.HeldFields fields
  | .array items => Json.HeldItems items
  | .number (.float bits) => finiteF64 bits = true
  | _ => True

def Json.HeldFields : List (String × Json) → Prop
  | [] => True
  | (_, v) :: rest => v.Held ∧ Json.HeldFields rest

def Json.HeldItems : List Json → Prop
  | [] => True
  | v :: rest => v.Held ∧ Json.HeldItems rest

end

theorem Json.heldFields_iff {fields : JsonMap} :
    Json.HeldFields fields ↔ ∀ kv ∈ fields, kv.2.Held := by
  induction fields with
  | nil => simp [Json.HeldFields]
  | cons kv fields ih => simp [Json.HeldFields, ih]

theorem Json.heldItems_iff {items : List Json} :
    Json.HeldItems items ↔ ∀ v ∈ items, v.Held := by
  induction items with
  | nil => simp [Json.HeldItems]
  | cons v items ih => simp [Json.HeldItems, ih]

theorem Json.Held.fields {fields : JsonMap} (h : (Json.object fields).Held) :
    BTree.Sorted fields ∧ ∀ kv ∈ fields, kv.2.Held :=
  ⟨h.1, Json.heldFields_iff.mp h.2⟩

theorem held_object {fields : JsonMap} (hsorted : BTree.Sorted fields)
    (h : ∀ kv ∈ fields, kv.2.Held) : (Json.object fields).Held :=
  ⟨hsorted, Json.heldFields_iff.mpr h⟩

theorem held_ofFields {fields : List (String × Json)} (h : ∀ kv ∈ fields, kv.2.Held) :
    (Json.ofFields fields).Held := by
  refine held_object (BTree.sorted_nil.insertAll fields) fun kv hkv => ?_
  rcases BTree.mem_insertAll hkv with hmem | hmem
  · exact h kv hmem
  · cases hmem

namespace Hashing

section Strings

/-- Reading one escaped character back. -/
def unescape : List Char → Option (Char × List Char)
  | '\\' :: 'b' :: rest => some (Char.ofNat 8, rest)
  | '\\' :: 'f' :: rest => some (Char.ofNat 12, rest)
  | '\\' :: 'n' :: rest => some ('\n', rest)
  | '\\' :: 'r' :: rest => some ('\r', rest)
  | '\\' :: 't' :: rest => some ('\t', rest)
  | '\\' :: 'u' :: '0' :: '0' :: hi :: lo :: rest =>
      ((List.range 32).find? fun n => hexDigit (n / 16) = hi ∧ hexDigit (n % 16) = lo).map fun n =>
        (Char.ofNat n, rest)
  | '\\' :: c :: rest => some (c, rest)
  | c :: rest => some (c, rest)
  | [] => none

theorem find_hexDigits : ∀ n < 32, ((List.range 32).find? fun m =>
    hexDigit (m / 16) = hexDigit (n / 16) ∧ hexDigit (m % 16) = hexDigit (n % 16)) = some n := by
  decide

theorem unescape_escapeChar (c : Char) (rest : List Char) :
    unescape (escapeChar c ++ rest) = some (c, rest) := by
  unfold escapeChar
  split
  · subst_vars; rfl
  split
  · subst_vars; rfl
  split
  · subst_vars; rfl
  split
  · subst_vars; rfl
  split
  · subst_vars; rfl
  split
  · subst_vars; rfl
  split
  · subst_vars; rfl
  split
  · rename_i hsmall
    simp only [List.cons_append, List.nil_append, unescape, find_hexDigits _ hsmall]
    simp
  · rename_i hquote hslash _ _ _ _ _ _
    rw [List.singleton_append]
    unfold unescape
    split <;> simp_all

theorem escapeChar_append_inj {c d : Char} {r s : List Char}
    (h : escapeChar c ++ r = escapeChar d ++ s) : c = d ∧ r = s := by
  have hread := unescape_escapeChar c r
  rw [h, unescape_escapeChar d s] at hread
  simpa [eq_comm] using hread

theorem escapeChar_ne_quote (c : Char) : ∃ d rest, escapeChar c = d :: rest ∧ d ≠ '"' := by
  unfold escapeChar
  repeat' split
  all_goals first
    | exact ⟨_, _, rfl, by decide⟩
    | exact ⟨_, _, rfl, by assumption⟩

/-- A text in quotes ends at the quote, whatever its characters and their escapes. -/
theorem flatMap_quote_inj {α : Type} {escape : α → List Char}
    (hinj : ∀ x y r s, escape x ++ r = escape y ++ s → x = y ∧ r = s)
    (hquote : ∀ x, ∃ d rest, escape x = d :: rest ∧ d ≠ '"') {xs ys : List α} {r s : List Char}
    (h : xs.flatMap escape ++ '"' :: r = ys.flatMap escape ++ '"' :: s) : xs = ys ∧ r = s := by
  induction xs generalizing ys with
  | nil =>
    cases ys with
    | nil => simpa using h
    | cons y ys =>
      obtain ⟨d, rest, hd, hne⟩ := hquote y
      simp only [List.flatMap_nil, List.flatMap_cons, hd, List.nil_append, List.cons_append,
        List.cons.injEq] at h
      exact absurd h.1.symm hne
  | cons x xs ih =>
    cases ys with
    | nil =>
      obtain ⟨d, rest, hd, hne⟩ := hquote x
      simp only [List.flatMap_nil, List.flatMap_cons, hd, List.nil_append, List.cons_append,
        List.cons.injEq] at h
      exact absurd h.1 hne
    | cons y ys =>
      simp only [List.flatMap_cons, List.append_assoc] at h
      obtain ⟨rfl, htail⟩ := hinj _ _ _ _ h
      obtain ⟨rfl, hrest⟩ := ih htail
      exact ⟨rfl, hrest⟩

theorem quote_append_inj {a b : String} {r s : List Char} (h : quote a ++ r = quote b ++ s) :
    a = b ∧ r = s := by
  simp only [quote, List.cons_append, List.append_assoc, List.cons.injEq, true_and]
    at h
  obtain ⟨hchars, hrest⟩ :=
    flatMap_quote_inj (fun _ _ _ _ => escapeChar_append_inj) escapeChar_ne_quote h
  exact ⟨String.toList_inj.mp hchars, hrest⟩

end Strings

section Numbers

def numeralChar (c : Char) : Bool := c.isDigit || c ∈ ['-', '+', '.', 'e']

/-- What follows a number cannot be taken for a part of it. -/
def Stops (rest : List Char) : Prop := ∀ c ∈ rest.head?, numeralChar c = false

theorem isDigit_toDigits {n : ℕ} {c : Char} (h : c ∈ Nat.toDigits 10 n) : c.isDigit = true :=
  Nat.isDigit_of_mem_toDigits (by decide) (by decide) h

theorem toDigits_inj {n m : ℕ} (h : Nat.toDigits 10 n = Nat.toDigits 10 m) : n = m := by
  have hread := congrArg (Nat.ofDigitChars 10 · 0) h
  simpa using hread

theorem takeWhile_numeral {xs r : List Char} (hx : ∀ c ∈ xs, numeralChar c = true)
    (hr : Stops r) : (xs ++ r).takeWhile numeralChar = xs := by
  rw [List.takeWhile_append_of_pos hx]
  cases r with
  | nil => simp
  | cons c r => simp [hr c rfl]

variable [FloatText]

theorem numberText_chars {n : JsonNumber} (hn : (Json.number n).Held) :
    ∀ c ∈ numberText n, numeralChar c = true := by
  intro c hc
  cases n with
  | int n =>
    cases n with
    | ofNat n => simp [numeralChar, isDigit_toDigits hc]
    | negSucc n =>
      rcases List.mem_cons.mp hc with rfl | hc
      · rfl
      · simp [numeralChar, isDigit_toDigits hc]
  | float bits =>
    have hbits : finiteF64 bits = true := by simpa [Json.Held] using hn
    rcases FloatText.text_chars bits hbits c hc with hd | hmem
    · simp [numeralChar, hd]
    · simp only [numeralChar, hmem, decide_true, Bool.or_true]

theorem not_fraction_int (n : ℤ) : '.' ∉ numberText (.int n) ∧ 'e' ∉ numberText (.int n) := by
  have hdigits : ∀ m c, c.isDigit = false → c ∉ Nat.toDigits 10 m := by
    intro m c hc hmem
    rw [isDigit_toDigits hmem] at hc
    cases hc
  cases n with
  | ofNat n => exact ⟨hdigits n _ (by decide), hdigits n _ (by decide)⟩
  | negSucc n =>
    have hdot := hdigits (n + 1) '.' (by decide)
    have hexp := hdigits (n + 1) 'e' (by decide)
    simp [numberText, hdot, hexp]

theorem intText_inj {n m : ℤ} (h : numberText (.int n) = numberText (.int m)) : n = m := by
  have hminus : ∀ k, '-' ∉ Nat.toDigits 10 k := by
    intro k hmem
    exact absurd (isDigit_toDigits hmem) (by decide)
  cases n with
  | ofNat n =>
    cases m with
    | ofNat m => rw [toDigits_inj h]
    | negSucc m =>
      change Nat.toDigits 10 n = '-' :: _ at h
      exact absurd (h ▸ List.mem_cons_self) (hminus n)
  | negSucc n =>
    cases m with
    | ofNat m =>
      change '-' :: _ = Nat.toDigits 10 m at h
      exact absurd (h ▸ List.mem_cons_self) (hminus m)
    | negSucc m =>
      have hdigits := toDigits_inj (List.cons.inj h).2
      rw [Nat.add_right_cancel hdigits]

theorem numberText_inj {n m : JsonNumber} (hn : (Json.number n).Held) (hm : (Json.number m).Held)
    (h : numberText n = numberText m) : n = m := by
  have hmixed : ∀ k bits, finiteF64 bits = true →
      numberText (.int k) ≠ numberText (.float bits) := by
    intro k bits hbits heq
    obtain ⟨hdot, hexp⟩ := not_fraction_int k
    rw [heq] at hdot hexp
    rcases FloatText.text_fraction bits hbits with hmem | hmem
    · exact hdot hmem
    · exact hexp hmem
  cases n with
  | int n =>
    cases m with
    | int m => rw [intText_inj h]
    | float bits => exact absurd h (hmixed n bits (by simpa [Json.Held] using hm))
  | float bits =>
    cases m with
    | int m => exact absurd h.symm (hmixed m bits (by simpa [Json.Held] using hn))
    | float bits' =>
      simp only [Json.Held] at hn hm
      rw [FloatText.text_inj bits bits' hn hm h]

theorem number_append_inj {n m : JsonNumber} {r s : List Char} (hn : (Json.number n).Held)
    (hm : (Json.number m).Held) (hr : Stops r) (hs : Stops s)
    (h : numberText n ++ r = numberText m ++ s) : n = m ∧ r = s := by
  have htext : numberText n = numberText m := by
    rw [← takeWhile_numeral (numberText_chars hn) hr, h,
      takeWhile_numeral (numberText_chars hm) hs]
  refine ⟨numberText_inj hn hm htext, ?_⟩
  rw [htext] at h
  exact List.append_cancel_left h

end Numbers

section Lists

variable {α : Type} {enc : α → List Char} {close : Char}

/-- Texts of values that can be told apart from what follows them. -/
def Separable (enc : α → List Char) (x y : α) : Prop :=
  ∀ r s, Stops r → Stops s → enc x ++ r = enc y ++ s → x = y ∧ r = s

theorem stops_tail (hclose : numeralChar close = false) (xs : List α) (r : List Char) :
    Stops (xs.flatMap (fun x => ',' :: enc x) ++ close :: r) := by
  intro c hc
  cases xs with
  | nil =>
    cases hc
    exact hclose
  | cons x xs =>
    cases hc
    rfl

theorem tail_append_inj (hcomma : close ≠ ',') (hclose : numeralChar close = false) {xs ys : List α}
    (hsep : ∀ x ∈ xs, ∀ y ∈ ys, Separable enc x y) {r s : List Char}
    (h : xs.flatMap (fun x => ',' :: enc x) ++ close :: r =
      ys.flatMap (fun y => ',' :: enc y) ++ close :: s) : xs = ys ∧ r = s := by
  induction xs generalizing ys with
  | nil =>
    cases ys with
    | nil => simpa using h
    | cons y ys =>
      simp only [List.flatMap_nil, List.flatMap_cons, List.nil_append, List.cons_append,
        List.cons.injEq] at h
      exact absurd h.1 hcomma
  | cons x xs ih =>
    cases ys with
    | nil =>
      simp only [List.flatMap_nil, List.flatMap_cons, List.nil_append, List.cons_append,
        List.cons.injEq] at h
      exact absurd h.1.symm hcomma
    | cons y ys =>
      simp only [List.flatMap_cons, List.cons_append, List.append_assoc, List.cons.injEq,
        true_and] at h
      obtain ⟨rfl, htail⟩ := hsep x (by simp) y (by simp) _ _ (stops_tail hclose xs r)
        (stops_tail hclose ys s) h
      obtain ⟨rfl, hrest⟩ := ih (fun x' hx' y' hy' => hsep x' (by simp [hx']) y' (by simp [hy'])) htail
      exact ⟨rfl, hrest⟩

/-- A list in brackets. -/
theorem joined_append_inj (hcomma : close ≠ ',') (hclose : numeralChar close = false)
    {xs ys : List α} (hopen : ∀ x ∈ xs ++ ys, ∃ c rest, enc x = c :: rest ∧ c ≠ close)
    (hsep : ∀ x ∈ xs, ∀ y ∈ ys, Separable enc x y) {r s : List Char}
    (h : joined (xs.map enc) ++ close :: r = joined (ys.map enc) ++ close :: s) :
    xs = ys ∧ r = s := by
  have hjoined : ∀ x (zs : List α), joined ((x :: zs).map enc) =
      enc x ++ zs.flatMap fun z => ',' :: enc z := by
    intro x zs
    simp [joined, List.flatMap_map]
  cases xs with
  | nil =>
    cases ys with
    | nil => simpa [joined] using h
    | cons y ys =>
      obtain ⟨c, rest, hc, hne⟩ := hopen y (by simp)
      rw [hjoined, hc] at h
      exact absurd (List.cons.inj h).1.symm hne
  | cons x xs =>
    cases ys with
    | nil =>
      obtain ⟨c, rest, hc, hne⟩ := hopen x (by simp)
      rw [hjoined, hc] at h
      exact absurd (List.cons.inj h).1 hne
    | cons y ys =>
      rw [hjoined, hjoined, List.append_assoc, List.append_assoc] at h
      obtain ⟨rfl, htail⟩ := hsep x (by simp) y (by simp) _ _ (stops_tail hclose xs r)
        (stops_tail hclose ys s) h
      obtain ⟨rfl, hrest⟩ := tail_append_inj hcomma hclose
        (fun x' hx' y' hy' => hsep x' (by simp [hx']) y' (by simp [hy'])) htail
      exact ⟨rfl, hrest⟩

end Lists

section Values

variable [FloatText]

/-- Which kind of value a text begins. -/
def leadKind (c : Char) : ℕ :=
  if c = 'n' then 0
  else if c = 't' then 1
  else if c = 'f' then 2
  else if c = '"' then 3
  else if c = '[' then 4
  else if c = '{' then 5
  else 6

def kindOf : Json → ℕ
  | .null => 0
  | .bool true => 1
  | .bool false => 2
  | .string _ => 3
  | .array _ => 4
  | .object _ => 5
  | .number _ => 6

omit [FloatText] in
theorem leadKind_numeral {c : Char} (h : numeralChar c = true) : leadKind c = 6 := by
  unfold leadKind
  repeat' split
  all_goals first
    | rfl
    | (subst_vars; exact absurd h (by decide))

theorem numberText_ne_nil {n : JsonNumber} (hn : (Json.number n).Held) : numberText n ≠ [] := by
  cases n with
  | int n =>
    cases n with
    | ofNat n => exact Nat.toDigits_ne_nil
    | negSucc n => exact List.cons_ne_nil _ _
  | float bits =>
    intro hnil
    simp only [Json.Held] at hn
    change FloatText.text bits = [] at hnil
    rcases FloatText.text_fraction bits hn with hmem | hmem <;> simp [hnil] at hmem

theorem writeCanonical_lead {v : Json} (hv : v.Held) :
    ∃ c rest, writeCanonical v = c :: rest ∧ leadKind c = kindOf v ∧ c ≠ ']' := by
  cases v with
  | bool b => cases b <;> exact ⟨_, _, by rw [writeCanonical], rfl, by decide⟩
  | number n =>
    cases htext : numberText n with
    | nil => exact absurd htext (numberText_ne_nil hv)
    | cons c rest =>
      have hc := numberText_chars hv c (by simp [htext])
      refine ⟨c, rest, by rw [writeCanonical, htext], leadKind_numeral hc, ?_⟩
      rintro rfl
      cases hc
  | string s => exact ⟨_, _, by rw [writeCanonical, quote], rfl, by decide⟩
  | _ => exact ⟨_, _, by rw [writeCanonical], rfl, by decide⟩

theorem writeItems_eq (items : List Json) : writeItems items = items.map writeCanonical := by
  induction items with
  | nil => rw [writeItems, List.map_nil]
  | cons v items ih => rw [writeItems, ih, List.map_cons]

theorem writeMembers_eq (fields : List (String × Json)) :
    writeMembers fields = fields.map fun kv => (kv.1, writeCanonical kv.2) := by
  induction fields with
  | nil => rw [writeMembers, List.map_nil]
  | cons kv fields ih => rw [writeMembers, ih, List.map_cons]

/-- A member as it is written. -/
def memberText (kv : String × Json) : List Char := quote kv.1 ++ ':' :: writeCanonical kv.2

theorem writeCanonical_object {fields : JsonMap} (h : BTree.Sorted fields) :
    writeCanonical (.object fields) = '{' :: (joined (fields.map memberText) ++ ['}']) := by
  have hsorted : ((writeMembers fields).insertionSort fun a b => a.1 ≤ b.1) =
      writeMembers fields := by
    refine List.Pairwise.insertionSort_eq ?_
    rw [writeMembers_eq, List.pairwise_map]
    exact h.imp fun hlt => le_of_lt hlt
  rw [writeCanonical, hsorted, writeMembers_eq, List.map_map]
  rfl

theorem writeCanonical_array (items : List Json) :
    writeCanonical (.array items) = '[' :: (joined (items.map writeCanonical) ++ [']']) := by
  rw [writeCanonical, writeItems_eq]

theorem separable_memberText {kv kv' : String × Json}
    (h : Separable writeCanonical kv.2 kv'.2) : Separable memberText kv kv' := by
  intro r s hr hs heq
  simp only [memberText, List.append_assoc, List.cons_append] at heq
  obtain ⟨hkey, htail⟩ := quote_append_inj heq
  obtain ⟨hval, hrest⟩ := h r s hr hs (List.cons.inj htail).2
  exact ⟨Prod.ext hkey hval, hrest⟩

/-- A text is that of one value, wherever it ends. -/
theorem separable_writeCanonical (v w : Json) (hv : v.Held) (hw : w.Held) :
    Separable writeCanonical v w := by
  induction hsize : sizeOf v using Nat.strong_induction_on generalizing v w with
  | _ n ih =>
  subst hsize
  intro r s hr hs h
  have hkind : kindOf v = kindOf w := by
    obtain ⟨c, rest, hc, hlead, -⟩ := writeCanonical_lead hv
    obtain ⟨c', rest', hc', hlead', -⟩ := writeCanonical_lead hw
    rw [hc, hc', List.cons_append, List.cons_append] at h
    rw [← hlead, ← hlead', (List.cons.inj h).1]
  cases v with
  | null =>
    cases w with
    | null => simpa [writeCanonical] using h
    | bool b => cases b <;> cases hkind
    | _ => cases hkind
  | bool b =>
    cases w with
    | bool b' =>
      have hb : b = b' := by cases b <;> cases b' <;> first | rfl | cases hkind
      subst hb
      exact ⟨rfl, List.append_cancel_left h⟩
    | _ => cases b <;> cases hkind
  | number n =>
    cases w with
    | number m =>
      rw [writeCanonical, writeCanonical] at h
      obtain ⟨rfl, hrest⟩ := number_append_inj hv hw hr hs h
      exact ⟨rfl, hrest⟩
    | bool b => cases b <;> cases hkind
    | _ => cases hkind
  | string a =>
    cases w with
    | string b =>
      rw [writeCanonical, writeCanonical] at h
      obtain ⟨rfl, hrest⟩ := quote_append_inj h
      exact ⟨rfl, hrest⟩
    | bool b => cases b <;> cases hkind
    | _ => cases hkind
  | array items =>
    cases w with
    | array items' =>
      simp only [Json.Held, Json.heldItems_iff] at hv hw
      rw [writeCanonical_array, writeCanonical_array] at h
      simp only [List.cons_append, List.append_assoc, List.cons.injEq, true_and] at h
      have hopen : ∀ x ∈ items ++ items', ∃ c rest, writeCanonical x = c :: rest ∧ c ≠ ']' := by
        intro x hx
        have hheld : x.Held := (List.mem_append.mp hx).elim (hv x) (hw x)
        obtain ⟨c, rest, hc, -, hne⟩ := writeCanonical_lead hheld
        exact ⟨c, rest, hc, hne⟩
      have hsep : ∀ x ∈ items, ∀ y ∈ items', Separable writeCanonical x y := fun x hx y hy =>
        ih _ (Json.sizeOf_item_lt hx) x y (hv x hx) (hw y hy) rfl
      obtain ⟨rfl, hrest⟩ := joined_append_inj (by decide) (by decide) hopen hsep h
      exact ⟨rfl, hrest⟩
    | bool b => cases b <;> cases hkind
    | _ => cases hkind
  | object fields =>
    cases w with
    | object fields' =>
      obtain ⟨hsorted, hheld⟩ := hv
      obtain ⟨hsorted', hheld'⟩ := hw
      rw [Json.heldFields_iff] at hheld hheld'
      rw [writeCanonical_object hsorted, writeCanonical_object hsorted'] at h
      simp only [List.cons_append, List.append_assoc, List.cons.injEq, true_and] at h
      have hsep : ∀ kv ∈ fields, ∀ kv' ∈ fields', Separable memberText kv kv' :=
        fun kv hkv kv' hkv' => separable_memberText
          (ih _ (Json.sizeOf_member_lt hkv) kv.2 kv'.2 (hheld kv hkv) (hheld' kv' hkv') rfl)
      obtain ⟨rfl, hrest⟩ := joined_append_inj (by decide) (by decide)
        (fun kv _ => ⟨_, _, rfl, by decide⟩) hsep h
      exact ⟨rfl, hrest⟩
    | bool b => cases b <;> cases hkind
    | _ => cases hkind

theorem canonicalJson_inj {v w : Json} (hv : v.Held) (hw : w.Held)
    (h : canonicalJson v = canonicalJson w) : v = w := by
  have htext : writeCanonical v ++ [] = writeCanonical w ++ [] := by
    rw [List.append_nil, List.append_nil]
    exact String.ofList_injective h
  have hstops : Stops [] := fun c hc => by cases hc
  exact (separable_writeCanonical v w hv hw [] [] hstops hstops htext).1

theorem contentHash_inj {sha256Hex : String → String} (hsha : Function.Injective sha256Hex)
    {v w : Json} (hv : v.Held) (hw : w.Held) (h : contentHash sha256Hex v = contentHash sha256Hex w) :
    v = w :=
  canonicalJson_inj hv hw (hsha h)

theorem get_of_contentHash {sha256Hex : String → String} (hsha : Function.Injective sha256Hex)
    {v w : Json} (hv : v.Held) (hw : w.Held) (h : contentHash sha256Hex v = contentHash sha256Hex w)
    (key : String) : v.get key = w.get key :=
  congrArg (fun object => Json.get object key) (contentHash_inj hsha hv hw h)

end Values

section ControlCharacters

/-- Not a control character. -/
def Printed (c : Char) : Prop := 32 ≤ c.toNat

instance : DecidablePred Printed := fun c => inferInstanceAs (Decidable (32 ≤ c.toNat))

theorem printed_hexDigit : ∀ n < 16, Printed (hexDigit n) := by decide

theorem printed_of_numeral {c : Char} (h : numeralChar c = true) : Printed c := by
  simp only [numeralChar, Bool.or_eq_true, decide_eq_true_eq] at h
  rcases h with h | h
  · rw [Char.isDigit_iff_toNat] at h
    exact le_trans (by decide) h.1
  · exact (by decide : ∀ c ∈ ['-', '+', '.', 'e'], Printed c) c h

theorem printed_escapeChar (c : Char) : ∀ d ∈ escapeChar c, Printed d := by
  unfold escapeChar
  split
  · decide
  split
  · decide
  split
  · decide
  split
  · decide
  split
  · decide
  split
  · decide
  split
  · decide
  split
  · rename_i hlt
    have hhigh := printed_hexDigit (c.toNat / 16) (by omega)
    have hlow := printed_hexDigit (c.toNat % 16) (by omega)
    have hlead : ∀ d ∈ ['\\', 'u', '0', '0'], Printed d := by decide
    intro d hd
    rcases List.mem_append.mp (show d ∈ ['\\', 'u', '0', '0'] ++
      [hexDigit (c.toNat / 16), hexDigit (c.toNat % 16)] from hd) with hd | hd
    · exact hlead d hd
    rcases List.mem_cons.mp hd with rfl | hd
    · exact hhigh
    · rw [List.mem_singleton.mp hd]
      exact hlow
  · rename_i hge
    intro d hd
    rw [List.mem_singleton.mp hd]
    exact Nat.le_of_not_lt hge

theorem printed_between {first last : Char} {text : List Char} (hfirst : Printed first)
    (hlast : Printed last) (h : ∀ c ∈ text, Printed c) :
    ∀ c ∈ first :: (text ++ [last]), Printed c := by
  intro c hc
  rcases List.mem_cons.mp hc with rfl | hc
  · exact hfirst
  rcases List.mem_append.mp hc with hc | hc
  · exact h c hc
  · rw [List.mem_singleton.mp hc]
    exact hlast

theorem printed_quote (s : String) : ∀ c ∈ quote s, Printed c := by
  refine printed_between (by decide) (by decide) fun c hc => ?_
  obtain ⟨d, -, hd⟩ := List.mem_flatMap.mp hc
  exact printed_escapeChar d c hd

theorem printed_joined {texts : List (List Char)} (h : ∀ text ∈ texts, ∀ c ∈ text, Printed c) :
    ∀ c ∈ joined texts, Printed c := by
  cases texts with
  | nil => exact nofun
  | cons text texts =>
    intro c hc
    rcases List.mem_append.mp hc with hc | hc
    · exact h text (by simp) c hc
    obtain ⟨other, hother, hc⟩ := List.mem_flatMap.mp hc
    rcases List.mem_cons.mp hc with rfl | hc
    · decide
    · exact h other (by simp [hother]) c hc

/-- No control character is written as it is. -/
theorem printed_writeCanonical [FloatText] (v : Json) (hv : v.Held) :
    ∀ c ∈ writeCanonical v, Printed c := by
  induction hsize : sizeOf v using Nat.strong_induction_on generalizing v with
  | _ n ih =>
  subst hsize
  cases v with
  | null =>
    rw [writeCanonical]
    decide
  | bool b => cases b <;> rw [writeCanonical] <;> decide
  | number n =>
    rw [writeCanonical]
    exact fun c hc => printed_of_numeral (numberText_chars hv c hc)
  | string s =>
    rw [writeCanonical]
    exact printed_quote s
  | array items =>
    simp only [Json.Held, Json.heldItems_iff] at hv
    rw [writeCanonical_array]
    refine printed_between (by decide) (by decide) (printed_joined fun text htext => ?_)
    obtain ⟨x, hx, rfl⟩ := List.mem_map.mp htext
    exact ih _ (Json.sizeOf_item_lt hx) x (hv x hx) rfl
  | object fields =>
    obtain ⟨hsorted, hheld⟩ := hv
    rw [Json.heldFields_iff] at hheld
    rw [writeCanonical_object hsorted]
    refine printed_between (by decide) (by decide) (printed_joined fun text htext => ?_)
    obtain ⟨kv, hkv, rfl⟩ := List.mem_map.mp htext
    intro c hc
    rcases List.mem_append.mp hc with hc | hc
    · exact printed_quote kv.1 c hc
    rcases List.mem_cons.mp hc with rfl | hc
    · decide
    · exact ih _ (Json.sizeOf_member_lt hkv) kv.2 (hheld kv hkv) rfl c hc

end ControlCharacters

/-- A table extended by a function whose values it does not hold. -/
theorem injective_of_table {α β : Type} [DecidableEq α] (table : List (α × β)) {other : α → β}
    (hother : Function.Injective other) (hkeys : ∀ h ∈ table, ∀ h' ∈ table, h.2 = h'.2 → h.1 = h'.1)
    (hapart : ∀ h ∈ table, ∀ a, h.2 ≠ other a) :
    Function.Injective fun a => ((table.find? fun h => h.1 = a).map (·.2)).getD (other a) := by
  have hfound : ∀ {a h}, (table.find? fun h => h.1 = a) = some h → h ∈ table ∧ h.1 = a :=
    fun h => ⟨List.mem_of_find?_eq_some h, by simpa using List.find?_some h⟩
  intro a b hab
  cases ha : table.find? fun h => h.1 = a with
  | some h =>
    obtain ⟨hmem, rfl⟩ := hfound ha
    cases hb : table.find? fun h => h.1 = b with
    | some h' =>
      obtain ⟨hmem', rfl⟩ := hfound hb
      exact hkeys h hmem h' hmem' (by simpa [ha, hb] using hab)
    | none => exact absurd (by simpa [ha, hb] using hab) (hapart h hmem b)
  | none =>
    cases hb : table.find? fun h => h.1 = b with
    | some h' =>
      obtain ⟨hmem', rfl⟩ := hfound hb
      exact absurd (by simpa [ha, hb] using hab.symm) (hapart h' hmem' a)
    | none => exact hother (by simpa [ha, hb] using hab)

end Hashing

/-- Doubles written by their bits; the runs on fixed inputs have none. -/
@[reducible]
def bitsText : FloatText where
  text bits := '.' :: Nat.toDigits 10 bits.toNat
  text_inj a b _ _ h := BitVec.eq_of_toNat_eq (Hashing.toDigits_inj (List.cons.inj h).2)
  text_chars a _ c hc := by
    rcases List.mem_cons.mp hc with rfl | hc
    · exact .inr (by decide)
    · exact .inl (Hashing.isDigit_toDigits hc)
  text_fraction a _ := .inl List.mem_cons_self

end JamJet
