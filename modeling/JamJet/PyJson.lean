import Mathlib.Data.List.Forall2
import Mathlib.Data.String.Basic
import Mathlib.Tactic.Common

/-! The reader of Python's `json` module with every number kept as its text, and which texts it
reads as which values. -/

namespace PyJson

/-- What `json.loads` returns when `parse_int` and `parse_float` keep the text. -/
inductive Value
  | none
  | bool (b : Bool)
  | number (text : List Char)
  /-- `NaN`, `Infinity` or `-Infinity`. -/
  | float (name : String)
  | str (s : String)
  | list (items : List Value)
  | dict (members : List (String × Value))

/-- `d[k] = v`; a key that is there keeps its place. -/
def setItem {α : Type} : List (String × α) → String → α → List (String × α)
  | [], k, v => [(k, v)]
  | (k', v') :: rest, k, v => if k' = k then (k, v) :: rest else (k', v') :: setItem rest k v

/-- `dict(pairs)`. -/
def dictOf {α : Type} (pairs : List (String × α)) : List (String × α) :=
  pairs.foldl (fun d kv => setItem d kv.1 kv.2) []

def isWhitespace (c : Char) : Bool := c ∈ [' ', '\t', '\n', '\r']

def skipWhitespace (s : List Char) : List Char := s.dropWhile isWhitespace

section Strings

def hexValue (c : Char) : Option ℕ :=
  if '0' ≤ c ∧ c ≤ '9' then some (c.toNat - '0'.toNat)
  else if 'a' ≤ c ∧ c ≤ 'f' then some (c.toNat - 'a'.toNat + 10)
  else if 'A' ≤ c ∧ c ≤ 'F' then some (c.toNat - 'A'.toNat + 10)
  else none

/-- `_decode_uXXXX`. -/
def decodeHex4 (a b c d : Char) : Option ℕ := do
  let a ← hexValue a
  let b ← hexValue b
  let c ← hexValue c
  let d ← hexValue d
  return ((a * 16 + b) * 16 + c) * 16 + d

/-- What follows a backslash.  A surrogate without its partner, which no text in UTF-8 holds, is
refused here and not when the string is encoded. -/
def scanEscape : List Char → Option (Char × List Char)
  | '"' :: s => some ('"', s)
  | '\\' :: s => some ('\\', s)
  | '/' :: s => some ('/', s)
  | 'b' :: s => some (Char.ofNat 8, s)
  | 'f' :: s => some (Char.ofNat 12, s)
  | 'n' :: s => some ('\n', s)
  | 'r' :: s => some ('\r', s)
  | 't' :: s => some ('\t', s)
  | 'u' :: a :: b :: c :: d :: s => do
      let n ← decodeHex4 a b c d
      if n < 0xd800 ∨ 0xdfff < n then return (Char.ofNat n, s)
      match s with
      | '\\' :: 'u' :: a :: b :: c :: d :: s =>
          let low ← decodeHex4 a b c d
          if n ≤ 0xdbff ∧ 0xdc00 ≤ low ∧ low ≤ 0xdfff then
            return (Char.ofNat (0x10000 + (n - 0xd800) * 0x400 + (low - 0xdc00)), s)
          else none
      | _ => none
  | _ => none

/-- One character of a string; a control character is not one. -/
def scanChar : List Char → Option (Char × List Char)
  | '\\' :: s => scanEscape s
  | c :: s => if c.toNat < 32 then none else some (c, s)
  | [] => none

/-- `scanstring`, from behind the opening quote. -/
def scanString : ℕ → List Char → Option (List Char × List Char)
  | 0, _ => none
  | _ + 1, '"' :: s => some ([], s)
  | fuel + 1, s => do
      let (c, s) ← scanChar s
      let (cs, s) ← scanString fuel s
      return (c :: cs, s)

end Strings

section Numbers

/-- `(?:0|[1-9][0-9]*)` -/
def scanUnsigned : List Char → Option (List Char × List Char)
  | [] => none
  | c :: s =>
      if c = '0' then some (['0'], s)
      else if c.isDigit then some (c :: s.takeWhile Char.isDigit, s.dropWhile Char.isDigit)
      else none

/-- `-?(?:0|[1-9][0-9]*)` -/
def scanInteger : List Char → Option (List Char × List Char)
  | '-' :: s => (scanUnsigned s).map fun (digits, s) => ('-' :: digits, s)
  | s => scanUnsigned s

/-- What was read before, when no digits follow. -/
def scanDigits (lead s unread : List Char) : List Char × List Char :=
  match s.takeWhile Char.isDigit with
  | [] => ([], unread)
  | digits => (lead ++ digits, s.dropWhile Char.isDigit)

/-- `(\.[0-9]+)?` -/
def scanFraction : List Char → List Char × List Char
  | '.' :: s => scanDigits ['.'] s ('.' :: s)
  | s => ([], s)

/-- `([eE][-+]?[0-9]+)?` -/
def scanExponent : List Char → List Char × List Char
  | c :: s =>
      if c = 'e' ∨ c = 'E' then
        match s with
        | '-' :: t => scanDigits [c, '-'] t (c :: s)
        | '+' :: t => scanDigits [c, '+'] t (c :: s)
        | t => scanDigits [c] t (c :: s)
      else ([], c :: s)
  | [] => ([], [])

/-- The longest number a text begins with. -/
def scanNumber (s : List Char) : Option (List Char × List Char) :=
  (scanInteger s).map fun (integer, s) =>
    let (fraction, s) := scanFraction s
    let (exponent, s) := scanExponent s
    (integer ++ fraction ++ exponent, s)

end Numbers

mutual

/-- `scan_once`. -/
def scanOnce : ℕ → List Char → Option (Value × List Char)
  | 0, _ => none
  | _ + 1, [] => none
  | fuel + 1, c :: s =>
      if c = '"' then (scanString s.length s).map fun (cs, s) => (.str (String.ofList cs), s)
      else if c = '{' then
        match skipWhitespace s with
        | '}' :: s => some (.dict [], s)
        | s => (scanMembers fuel s).map fun (pairs, s) => (.dict (dictOf pairs), s)
      else if c = '[' then
        match skipWhitespace s with
        | ']' :: s => some (.list [], s)
        | s => (scanItems fuel s).map fun (items, s) => (.list items, s)
      else if ['n', 'u', 'l', 'l'].isPrefixOf (c :: s) then some (.none, s.drop 3)
      else if ['t', 'r', 'u', 'e'].isPrefixOf (c :: s) then some (.bool true, s.drop 3)
      else if ['f', 'a', 'l', 's', 'e'].isPrefixOf (c :: s) then some (.bool false, s.drop 4)
      else
        match scanNumber (c :: s) with
        | some (number, s) => some (.number number, s)
        | none =>
            if "NaN".toList.isPrefixOf (c :: s) then some (.float "NaN", s.drop 2)
            else if "Infinity".toList.isPrefixOf (c :: s) then some (.float "Infinity", s.drop 7)
            else if "-Infinity".toList.isPrefixOf (c :: s) then some (.float "-Infinity", s.drop 8)
            else none

/-- The values of an array and its closing bracket. -/
def scanItems : ℕ → List Char → Option (List Value × List Char)
  | 0, _ => none
  | fuel + 1, s => do
      let (v, s) ← scanOnce fuel s
      match skipWhitespace s with
      | ']' :: s => return ([v], s)
      | ',' :: s =>
          let (vs, s) ← scanItems fuel (skipWhitespace s)
          return (v :: vs, s)
      | _ => none

/-- The members of an object and its closing brace. -/
def scanMembers : ℕ → List Char → Option (List (String × Value) × List Char)
  | 0, _ => none
  | fuel + 1, '"' :: s => do
      let (key, s) ← scanString s.length s
      match skipWhitespace s with
      | ':' :: s =>
          let (v, s) ← scanOnce fuel (skipWhitespace s)
          match skipWhitespace s with
          | '}' :: s => return ([(String.ofList key, v)], s)
          | ',' :: s =>
              let (kvs, s) ← scanMembers fuel (skipWhitespace s)
              return ((String.ofList key, v) :: kvs, s)
          | _ => none
      | _ => none
  | _ + 1, _ => none

end

/-- `json.loads`; `none` is a `JSONDecodeError`. -/
def loads (text : List Char) : Option Value :=
  match scanOnce (2 * text.length) (skipWhitespace text) with
  | some (v, s) => if skipWhitespace s = [] then some v else none
  | none => none

section Dicts

variable {α β : Type} {d : List (String × α)} {k k' : String} {v v' : α}

theorem setItem_cons {kv : String × α} : setItem (kv :: d) k v =
    if kv.1 = k then (k, v) :: d else kv :: setItem d k v := rfl

theorem lookup_setItem : (setItem d k v).lookup k' =
    if k' = k then some v else d.lookup k' := by
  induction d with
  | nil =>
    by_cases h : k' = k
    · simp [setItem, h]
    · simp [setItem, List.lookup_cons, beq_eq_false_iff_ne.mpr h, h]
  | cons kv d ih =>
    rw [setItem_cons]
    by_cases hkv : kv.1 = k
    · rw [if_pos hkv, List.lookup_cons, List.lookup_cons, hkv]
      by_cases h : k' = k
      · simp [h]
      · simp [beq_eq_false_iff_ne.mpr h, h]
    · rw [if_neg hkv, List.lookup_cons, List.lookup_cons, ih]
      by_cases h : k' = kv.1
      · simp [h, hkv]
      · simp [beq_eq_false_iff_ne.mpr h]

theorem setItem_setItem :
    setItem (setItem d k v) k v' = setItem d k v' := by
  induction d with
  | nil => simp [setItem]
  | cons kv d ih =>
    rw [setItem_cons, setItem_cons]
    by_cases hkv : kv.1 = k
    · rw [if_pos hkv, if_pos hkv, setItem_cons, if_pos rfl]
    · rw [if_neg hkv, if_neg hkv, setItem_cons, if_neg hkv, ih]

theorem setItem_of_lookup (h : d.lookup k = some v) : setItem d k v = d := by
  induction d with
  | nil => cases h
  | cons kv d ih =>
    rw [setItem_cons]
    rw [List.lookup_cons] at h
    by_cases hkv : kv.1 = k
    · rw [hkv, beq_self_eq_true] at h
      obtain rfl := Option.some.inj h
      rw [if_pos hkv, ← hkv]
    · rw [beq_eq_false_iff_ne.mpr (Ne.symm hkv)] at h
      rw [if_neg hkv, ih h]

theorem setItem_of_not_mem (h : k ∉ d.map (·.1)) : setItem d k v = d ++ [(k, v)] := by
  induction d with
  | nil => rfl
  | cons kv d ih =>
    simp only [List.map_cons, List.mem_cons, not_or] at h
    rw [setItem, if_neg (Ne.symm h.1), ih h.2]
    rfl

theorem keys_setItem :
    (setItem d k v).map (·.1) = if k ∈ d.map (·.1) then d.map (·.1) else d.map (·.1) ++ [k] := by
  induction d with
  | nil => rfl
  | cons kv d ih =>
    rw [setItem_cons]
    by_cases hkv : kv.1 = k
    · simp [hkv]
    · rw [if_neg hkv, List.map_cons, ih]
      by_cases hmem : k ∈ d.map (·.1)
      · rw [if_pos hmem, if_pos (by simp [hmem])]
        rfl
      · rw [if_neg hmem, if_neg (by simp [Ne.symm hkv, hmem])]
        rfl

theorem nodup_setItem (h : (d.map (·.1)).Nodup) : ((setItem d k v).map (·.1)).Nodup := by
  rw [keys_setItem]
  split_ifs with hmem
  · exact h
  · exact List.nodup_append.mpr ⟨h, by simp, fun a ha b hb hab =>
      hmem (List.mem_singleton.mp hb ▸ hab ▸ ha)⟩

theorem mem_of_mem_setItem {kv : String × α} (h : kv ∈ setItem d k v) : kv = (k, v) ∨ kv ∈ d := by
  induction d with
  | nil => simpa [setItem] using h
  | cons kv' d ih =>
    rw [setItem_cons] at h
    split_ifs at h
    · exact (List.mem_cons.mp h).imp_right (List.mem_cons_of_mem _)
    · rcases List.mem_cons.mp h with rfl | hmem
      · exact .inr List.mem_cons_self
      · exact (ih hmem).imp_right (List.mem_cons_of_mem _)

theorem mem_setItem {kv : String × α} (h : (d.map (·.1)).Nodup) :
    kv ∈ setItem d k v ↔ kv = (k, v) ∨ kv.1 ≠ k ∧ kv ∈ d := by
  induction d with
  | nil => simp [setItem]
  | cons kv' d ih =>
    rw [List.map_cons, List.nodup_cons] at h
    rw [setItem_cons]
    by_cases hkv : kv'.1 = k
    · -- no other entry stands under the key
      have hother : kv ∈ d → kv.1 ≠ k := fun hmem heq =>
        h.1 (hkv.trans heq.symm ▸ List.mem_map_of_mem hmem)
      rw [if_pos hkv, List.mem_cons, List.mem_cons]
      constructor
      · rintro (heq | hmem)
        · exact .inl heq
        · exact .inr ⟨hother hmem, .inr hmem⟩
      · rintro (heq | ⟨hne, heq | hmem⟩)
        · exact .inl heq
        · exact absurd (heq ▸ hkv) hne
        · exact .inr hmem
    · rw [if_neg hkv, List.mem_cons, List.mem_cons, ih h.2]
      constructor
      · rintro (heq | heq | ⟨hne, hmem⟩)
        · exact .inr ⟨heq ▸ hkv, .inl heq⟩
        · exact .inl heq
        · exact .inr ⟨hne, .inr hmem⟩
      · rintro (heq | ⟨hne, heq | hmem⟩)
        · exact .inr (.inl heq)
        · exact .inl heq
        · exact .inr (.inr ⟨hne, hmem⟩)

theorem foldl_setItem {pairs : List (String × α)} (h : ((d ++ pairs).map (·.1)).Nodup) :
    pairs.foldl (fun d kv => setItem d kv.1 kv.2) d = d ++ pairs := by
  induction pairs generalizing d with
  | nil => simp
  | cons kv pairs ih =>
    have hnew : kv.1 ∉ d.map (·.1) := by
      rw [List.map_append, List.map_cons] at h
      exact fun hmem => (List.nodup_append.mp h).2.2 _ hmem _ List.mem_cons_self rfl
    rw [List.foldl_cons, setItem_of_not_mem hnew, ih (by simpa using h)]
    simp

theorem dictOf_eq {pairs : List (String × α)} (h : (pairs.map (·.1)).Nodup) :
    dictOf pairs = pairs := by
  have hfold := foldl_setItem (d := []) (by simpa using h)
  simpa [dictOf] using hfold

end Dicts

/-- Where a value ends: with the text, or before what separates it from the next. -/
def Ends (rest : List Char) : Prop := ∀ c ∈ rest.head?, c = ',' ∨ c = ']' ∨ c = '}'

section Numerals

/-- No digit comes next. -/
def NoDigit (rest : List Char) : Prop := ∀ c ∈ rest.head?, c.isDigit = false

theorem Ends.noDigit {rest : List Char} (h : Ends rest) : NoDigit rest := by
  intro c hc
  rcases h c hc with rfl | rfl | rfl <;> rfl

theorem takeWhile_digits {digits rest : List Char} (h : ∀ c ∈ digits, c.isDigit = true)
    (hrest : NoDigit rest) : (digits ++ rest).takeWhile Char.isDigit = digits := by
  rw [List.takeWhile_append_of_pos h]
  cases rest with
  | nil => simp
  | cons c rest => simp [hrest c rfl]

theorem dropWhile_digits {digits rest : List Char} (h : ∀ c ∈ digits, c.isDigit = true)
    (hrest : NoDigit rest) : (digits ++ rest).dropWhile Char.isDigit = rest := by
  rw [List.dropWhile_append_of_pos h]
  cases rest with
  | nil => simp
  | cons c rest => simp [hrest c rfl]

/-- `0`, or digits of which the first is not `0`. -/
def Unsigned (text : List Char) : Prop :=
  text = ['0'] ∨ ∃ c digits, text = c :: digits ∧ c ≠ '0' ∧ ∀ d ∈ c :: digits, d.isDigit = true

def Fraction (text : List Char) : Prop :=
  text = [] ∨ ∃ digits, text = '.' :: digits ∧ digits ≠ [] ∧ ∀ d ∈ digits, d.isDigit = true

def Exponent (text : List Char) : Prop :=
  text = [] ∨ ∃ e sign digits, text = e :: (sign ++ digits) ∧ (e = 'e' ∨ e = 'E') ∧
    (sign = [] ∨ sign = ['-'] ∨ sign = ['+']) ∧ digits ≠ [] ∧ ∀ d ∈ digits, d.isDigit = true

/-- The numbers of JSON. -/
def Numeral (text : List Char) : Prop :=
  ∃ sign integer fraction exponent, text = sign ++ (integer ++ (fraction ++ exponent)) ∧
    (sign = [] ∨ sign = ['-']) ∧ Unsigned integer ∧ Fraction fraction ∧ Exponent exponent

theorem scanUnsigned_append {text rest : List Char} (h : Unsigned text) (hrest : NoDigit rest) :
    scanUnsigned (text ++ rest) = some (text, rest) := by
  rcases h with rfl | ⟨c, digits, rfl, hc, hdigits⟩
  · rfl
  · obtain ⟨hdigit, hdigits⟩ := List.forall_mem_cons.mp hdigits
    rw [List.cons_append, scanUnsigned, if_neg hc, if_pos hdigit, takeWhile_digits hdigits hrest,
      dropWhile_digits hdigits hrest]

theorem Unsigned.lead {text : List Char} (h : Unsigned text) :
    ∃ c digits, text = c :: digits ∧ c.isDigit = true := by
  rcases h with rfl | ⟨c, digits, rfl, -, hdigits⟩
  · exact ⟨'0', [], rfl, rfl⟩
  · exact ⟨c, digits, rfl, hdigits c List.mem_cons_self⟩

theorem scanInteger_append {sign text rest : List Char} (hsign : sign = [] ∨ sign = ['-'])
    (h : Unsigned text) (hrest : NoDigit rest) :
    scanInteger (sign ++ (text ++ rest)) = some (sign ++ text, rest) := by
  rcases hsign with rfl | rfl
  · obtain ⟨c, digits, rfl, hdigit⟩ := h.lead
    have hminus : c ≠ '-' := by
      rintro rfl
      cases hdigit
    have hscan := scanUnsigned_append h hrest
    unfold scanInteger
    split
    · rename_i heq
      exact absurd (List.cons.inj heq).1 hminus
    · exact hscan
  · change (scanUnsigned (text ++ rest)).map _ = _
    rw [scanUnsigned_append h hrest]
    rfl

theorem scanDigits_append (lead unread : List Char) {digits rest : List Char} (hne : digits ≠ [])
    (h : ∀ d ∈ digits, d.isDigit = true) (hrest : NoDigit rest) :
    scanDigits lead (digits ++ rest) unread = (lead ++ digits, rest) := by
  unfold scanDigits
  rw [takeWhile_digits h hrest, dropWhile_digits h hrest]
  cases digits with
  | nil => exact absurd rfl hne
  | cons d digits => rfl

theorem scanFraction_append {text rest : List Char} (h : Fraction text) (hrest : NoDigit rest)
    (hdot : ∀ c ∈ rest.head?, c ≠ '.') : scanFraction (text ++ rest) = (text, rest) := by
  rcases h with rfl | ⟨digits, rfl, hne, hdigits⟩
  · cases rest with
    | nil => rfl
    | cons c rest =>
      have hc := hdot c rfl
      rw [List.nil_append]
      unfold scanFraction
      split
      · rename_i heq
        exact absurd (List.cons.inj heq).1 hc
      · rfl
  · exact scanDigits_append _ _ hne hdigits hrest

theorem scanExponent_append {text rest : List Char} (h : Exponent text) (hrest : Ends rest) :
    scanExponent (text ++ rest) = (text, rest) := by
  rcases h with rfl | ⟨e, sign, digits, rfl, he, hsign, hne, hdigits⟩
  · cases rest with
    | nil => rfl
    | cons c rest =>
      have hc : ¬ (c = 'e' ∨ c = 'E') := by
        rcases hrest c rfl with rfl | rfl | rfl <;> decide
      simp [scanExponent, hc]
  · obtain ⟨d, more, rfl⟩ := List.exists_cons_of_ne_nil hne
    have hdigit := hdigits d List.mem_cons_self
    rcases hsign with rfl | rfl | rfl
    · have hscan := scanDigits_append [e] (e :: (d :: more ++ rest)) hne hdigits
        hrest.noDigit
      change (if e = 'e' ∨ e = 'E' then _ else _) = _
      rw [if_pos he]
      split
      · rename_i heq
        cases heq
        cases hdigit
      · rename_i heq
        cases heq
        cases hdigit
      · exact hscan
    · change (if e = 'e' ∨ e = 'E' then
        scanDigits [e, '-'] (d :: more ++ rest) (e :: '-' :: (d :: more ++ rest)) else _) = _
      rw [if_pos he]
      exact scanDigits_append _ _ hne hdigits hrest.noDigit
    · change (if e = 'e' ∨ e = 'E' then
        scanDigits [e, '+'] (d :: more ++ rest) (e :: '+' :: (d :: more ++ rest)) else _) = _
      rw [if_pos he]
      exact scanDigits_append _ _ hne hdigits hrest.noDigit

theorem head_exponent {text rest : List Char} (h : Exponent text) (hrest : Ends rest) :
    ∀ c ∈ (text ++ rest).head?, c.isDigit = false ∧ c ≠ '.' := by
  rcases h with rfl | ⟨e, sign, digits, rfl, he, -⟩
  · intro c hc
    rcases hrest c hc with rfl | rfl | rfl <;> exact ⟨rfl, by decide⟩
  · intro c hc
    cases hc
    rcases he with rfl | rfl <;> exact ⟨rfl, by decide⟩

theorem scanNumber_numeral {text rest : List Char} (h : Numeral text) (hrest : Ends rest) :
    scanNumber (text ++ rest) = some (text, rest) := by
  obtain ⟨sign, integer, fraction, exponent, rfl, hsign, hinteger, hfraction, hexponent⟩ := h
  have hhead := head_exponent hexponent hrest
  have hafter : NoDigit (fraction ++ (exponent ++ rest)) := by
    rcases hfraction with rfl | ⟨digits, rfl, -⟩
    · exact fun c hc => (hhead c hc).1
    · intro c hc
      cases hc
      rfl
  unfold scanNumber
  simp only [List.append_assoc]
  rw [scanInteger_append hsign hinteger hafter, Option.map_some,
    scanFraction_append hfraction (fun c hc => (hhead c hc).1) (fun c hc => (hhead c hc).2)]
  simp only [scanExponent_append hexponent hrest, List.append_assoc]

theorem Numeral.lead {text : List Char} (h : Numeral text) :
    ∃ c rest, text = c :: rest ∧ (c.isDigit = true ∨ c = '-') := by
  obtain ⟨sign, integer, fraction, exponent, rfl, hsign, hinteger, -⟩ := h
  obtain ⟨c, digits, rfl, hc⟩ := hinteger.lead
  rcases hsign with rfl | rfl
  · exact ⟨c, _, rfl, .inl hc⟩
  · exact ⟨'-', _, rfl, .inr rfl⟩

end Numerals

section Strings

/-- A way to write the characters of a string that is read back. -/
structure Escapes (escape : Char → List Char) : Prop where
  lead : ∀ c, ∃ d rest, escape c = d :: rest ∧ d ≠ '"'
  scan : ∀ c rest, scanChar (escape c ++ rest) = some (c, rest)

variable {escape : Char → List Char}

theorem scanString_flatMap (h : Escapes escape) {chars rest : List Char} (fuel : ℕ)
    (hfuel : chars.length < fuel) :
    scanString fuel (chars.flatMap escape ++ '"' :: rest) = some (chars, rest) := by
  induction chars generalizing fuel with
  | nil =>
    obtain ⟨fuel, rfl⟩ := Nat.exists_eq_add_of_lt hfuel
    rw [List.length_nil, Nat.zero_add]
    rfl
  | cons c chars ih =>
    obtain ⟨fuel, rfl⟩ : ∃ n, fuel = n + 1 := ⟨fuel - 1, by omega⟩
    obtain ⟨d, more, hd, hne⟩ := h.lead c
    have hchar := h.scan c (chars.flatMap escape ++ '"' :: rest)
    have hrest := ih fuel (by simpa using hfuel)
    rw [List.flatMap_cons, List.append_assoc]
    rw [hd, List.cons_append] at hchar ⊢
    rw [scanString]
    · rw [hchar]
      change (scanString fuel (chars.flatMap escape ++ '"' :: rest)).bind _ = _
      rw [hrest]
      rfl
    · intro s heq
      exact hne (List.cons.inj heq).1

/-- A string between its quotes. -/
def quoted (escape : Char → List Char) (s : String) : List Char :=
  '"' :: (s.toList.flatMap escape ++ ['"'])

theorem length_le_flatMap (h : Escapes escape) (chars : List Char) :
    chars.length ≤ (chars.flatMap escape).length := by
  induction chars with
  | nil => exact Nat.le_refl 0
  | cons c chars ih =>
    obtain ⟨d, more, hd, -⟩ := h.lead c
    rw [List.flatMap_cons, List.length_append, hd]
    simp only [List.length_cons]
    omega

theorem scanString_quoted (h : Escapes escape) (s : String) (rest : List Char) :
    scanString (s.toList.flatMap escape ++ ['"'] ++ rest).length
      (s.toList.flatMap escape ++ ['"'] ++ rest) = some (s.toList, rest) := by
  have hlength := length_le_flatMap h s.toList
  rw [List.append_assoc]
  refine scanString_flatMap h _ ?_
  simp only [List.singleton_append, List.length_append, List.length_cons]
  omega

end Strings

section Values

/-- A text that is read as the value, wherever it ends. -/
structure Reads (text : List Char) (v : Value) : Prop where
  lead : ∃ c rest, text = c :: rest ∧ isWhitespace c = false ∧ c ≠ ']'
  scan : ∀ fuel rest, 2 * text.length ≤ fuel → Ends rest →
    scanOnce fuel (text ++ rest) = some (v, rest)

theorem skipWhitespace_cons {c : Char} {s : List Char} (h : isWhitespace c = false) :
    skipWhitespace (c :: s) = c :: s := by
  rw [skipWhitespace, List.dropWhile_cons_of_neg (by simp [h])]

theorem reads_cons {c : Char} {text : List Char} {v : Value} (hspace : isWhitespace c = false)
    (hclose : c ≠ ']')
    (h : ∀ fuel rest, 2 * text.length < fuel → Ends rest →
      scanOnce (fuel + 1) (c :: (text ++ rest)) = some (v, rest)) : Reads (c :: text) v := by
  refine ⟨⟨c, text, rfl, hspace, hclose⟩, fun fuel rest hfuel hrest => ?_⟩
  rw [List.length_cons] at hfuel
  obtain ⟨fuel, rfl⟩ : ∃ n, fuel = n + 1 := ⟨fuel - 1, by omega⟩
  exact h fuel rest (by omega) hrest

theorem reads_null : Reads ['n', 'u', 'l', 'l'] .none :=
  reads_cons rfl (by decide) fun _ _ _ _ => rfl

theorem reads_true : Reads ['t', 'r', 'u', 'e'] (.bool true) :=
  reads_cons rfl (by decide) fun _ _ _ _ => rfl

theorem reads_false : Reads ['f', 'a', 'l', 's', 'e'] (.bool false) :=
  reads_cons rfl (by decide) fun _ _ _ _ => rfl

theorem reads_quoted {escape : Char → List Char} (h : Escapes escape) (s : String) :
    Reads (quoted escape s) (.str s) := by
  refine reads_cons rfl (by decide) fun fuel rest _ _ => ?_
  change (scanString _ (s.toList.flatMap escape ++ ['"'] ++ rest)).map _ = _
  rw [scanString_quoted h]
  simp only [Option.map_some, String.ofList_toList]

theorem reads_numeral {text : List Char} (h : Numeral text) : Reads text (.number text) := by
  obtain ⟨c, more, rfl, hc⟩ := h.lead
  have hother : ∀ d ∈ ['"', '{', '[', 'n', 't', 'f', ']', ' ', '\t', '\n', '\r'], c ≠ d := by
    rintro d hd rfl
    rcases hc with hc | rfl
    · exact absurd hc ((by decide : ∀ d ∈ ['"', '{', '[', 'n', 't', 'f', ']', ' ', '\t', '\n', '\r'],
        ¬ d.isDigit = true) c hd)
    · exact absurd hd (by decide)
  simp only [List.forall_mem_cons, List.not_mem_nil, false_implies, implies_true, and_true] at hother
  obtain ⟨hquote, hbrace, hbracket, hn, ht, hf, hclose, hspace⟩ := hother
  refine reads_cons (by simp [isWhitespace, hspace]) hclose fun fuel rest _ hrest => ?_
  have hscan := scanNumber_numeral h hrest
  rw [List.cons_append] at hscan
  simp [scanOnce, hquote, hbrace, hbracket, hn.symm, ht.symm, hf.symm, hscan]

/-- Texts with commas between them. -/
def commas : List (List Char) → List Char
  | [] => []
  | [text] => text
  | text :: next :: texts => text ++ ',' :: commas (next :: texts)

theorem ends_comma (s : List Char) : Ends (',' :: s) := by
  intro c hc
  cases hc
  exact .inl rfl

theorem ends_bracket (s : List Char) : Ends (']' :: s) := by
  intro c hc
  cases hc
  exact .inr (.inl rfl)

theorem ends_brace (s : List Char) : Ends ('}' :: s) := by
  intro c hc
  cases hc
  exact .inr (.inr rfl)

theorem Reads.skip {text : List Char} {v : Value} (h : Reads text v) (s : List Char) :
    skipWhitespace (text ++ s) = text ++ s := by
  obtain ⟨c, rest, rfl, hc, -⟩ := h.lead
  exact skipWhitespace_cons hc

theorem commas_lead {text : List Char} {v : Value} (h : Reads text v) (texts : List (List Char)) :
    ∃ c rest, commas (text :: texts) = c :: rest ∧ isWhitespace c = false ∧ c ≠ ']' := by
  obtain ⟨c, rest, rfl, hspace, hclose⟩ := h.lead
  cases texts with
  | nil => exact ⟨c, rest, rfl, hspace, hclose⟩
  | cons next texts => exact ⟨c, _, rfl, hspace, hclose⟩

theorem scanItems_commas {text : List Char} {texts : List (List Char)} {v : Value} {vs : List Value}
    (h : Reads text v) (hs : List.Forall₂ Reads texts vs) (fuel : ℕ) (rest : List Char)
    (hfuel : 2 * (commas (text :: texts)).length < fuel) :
    scanItems fuel (commas (text :: texts) ++ ']' :: rest) = some (v :: vs, rest) := by
  induction hs generalizing text v fuel with
  | nil =>
    obtain ⟨fuel, rfl⟩ : ∃ n, fuel = n + 1 := ⟨fuel - 1, by omega⟩
    have hv := h.scan fuel (']' :: rest) (by simp only [commas] at hfuel; omega) (ends_bracket rest)
    rw [commas, scanItems, hv]
    rfl
  | @cons next w texts vs hnext hs ih =>
    obtain ⟨fuel, rfl⟩ : ∃ n, fuel = n + 1 := ⟨fuel - 1, by omega⟩
    simp only [commas, List.length_append, List.length_cons] at hfuel
    have hv := h.scan fuel (',' :: (commas (next :: texts) ++ ']' :: rest)) (by omega)
      (ends_comma _)
    have htail := ih hnext fuel (by omega)
    have hskip : skipWhitespace (commas (next :: texts) ++ ']' :: rest) =
        commas (next :: texts) ++ ']' :: rest := by
      obtain ⟨c, more, heq, hc, -⟩ := commas_lead hnext texts
      rw [heq]
      exact skipWhitespace_cons hc
    rw [commas, List.append_assoc, List.cons_append, scanItems, hv]
    change (scanItems fuel (skipWhitespace (commas (next :: texts) ++ ']' :: rest))).bind _ = _
    rw [hskip, htail]
    rfl

theorem reads_list {texts : List (List Char)} {vs : List Value} (h : List.Forall₂ Reads texts vs) :
    Reads ('[' :: (commas texts ++ [']'])) (.list vs) := by
  refine reads_cons rfl (by decide) fun fuel rest hfuel _ => ?_
  simp only [List.length_cons, List.length_append, List.length_nil] at hfuel
  rw [List.append_assoc, List.singleton_append, scanOnce, if_neg (by decide),
    if_neg (by decide), if_pos rfl]
  cases h with
  | nil => rfl
  | cons hv hs =>
    rename_i text v texts vs
    obtain ⟨c, more, heq, hspace, hclose⟩ := commas_lead hv texts
    have hitems := scanItems_commas hv hs fuel rest (by omega)
    rw [heq, List.cons_append] at hitems ⊢
    rw [skipWhitespace_cons hspace]
    split
    · rename_i heq
      exact absurd (List.cons.inj heq).1 hclose
    · rw [hitems]
      rfl

/-- A member of an object, its name in quotes. -/
def ReadsMember (escape : Char → List Char) (text : List Char) (kv : String × Value) : Prop :=
  ∃ value, text = quoted escape kv.1 ++ ':' :: value ∧ Reads value kv.2

theorem scanMembers_member {escape : Char → List Char} (hescape : Escapes escape) (k : String)
    {value rest : List Char} {v : Value} (hv : Reads value v) {fuel : ℕ}
    (hfuel : 2 * value.length ≤ fuel) (hrest : Ends rest) :
    scanMembers (fuel + 1) (quoted escape k ++ ':' :: (value ++ rest)) =
      match skipWhitespace rest with
      | '}' :: s => some ([(k, v)], s)
      | ',' :: s => (scanMembers fuel (skipWhitespace s)).map fun (kvs, s) => ((k, v) :: kvs, s)
      | _ => none := by
  change scanMembers (fuel + 1) ('"' :: (k.toList.flatMap escape ++ ['"'] ++
    ':' :: (value ++ rest))) = _
  have hcolon : skipWhitespace (':' :: (value ++ rest)) = ':' :: (value ++ rest) :=
    skipWhitespace_cons rfl
  rw [scanMembers, scanString_quoted hescape]
  simp only [Option.bind_eq_bind, Option.bind_some, hcolon, hv.skip, hv.scan fuel rest hfuel hrest,
    String.ofList_toList]
  split
  · rfl
  · cases scanMembers fuel (skipWhitespace _) <;> rfl
  · rfl

theorem scanMembers_commas {escape : Char → List Char} (hescape : Escapes escape) {text : List Char}
    {texts : List (List Char)} {kv : String × Value} {kvs : List (String × Value)}
    (h : ReadsMember escape text kv) (hs : List.Forall₂ (ReadsMember escape) texts kvs) (fuel : ℕ)
    (rest : List Char) (hfuel : 2 * (commas (text :: texts)).length < fuel) :
    scanMembers fuel (commas (text :: texts) ++ '}' :: rest) = some (kv :: kvs, rest) := by
  induction hs generalizing text kv fuel with
  | nil =>
    obtain ⟨fuel, rfl⟩ : ∃ n, fuel = n + 1 := ⟨fuel - 1, by omega⟩
    obtain ⟨value, rfl, hvalue⟩ := h
    simp only [commas, List.length_append, List.length_cons] at hfuel
    rw [commas, List.append_assoc, List.cons_append,
      scanMembers_member hescape kv.1 hvalue (by omega) (ends_brace rest)]
    rfl
  | @cons next w texts vs hnext hs ih =>
    obtain ⟨fuel, rfl⟩ : ∃ n, fuel = n + 1 := ⟨fuel - 1, by omega⟩
    obtain ⟨value, rfl, hvalue⟩ := h
    simp only [commas, List.length_append, List.length_cons] at hfuel
    have htail := ih hnext fuel (by omega)
    have hskip : skipWhitespace (commas (next :: texts) ++ '}' :: rest) =
        commas (next :: texts) ++ '}' :: rest := by
      obtain ⟨nextValue, rfl, -⟩ := hnext
      cases texts <;> exact skipWhitespace_cons rfl
    have hcomma : skipWhitespace (',' :: (commas (next :: texts) ++ '}' :: rest)) =
        ',' :: (commas (next :: texts) ++ '}' :: rest) := skipWhitespace_cons rfl
    rw [commas, List.append_assoc, List.append_assoc, List.cons_append, List.cons_append,
      scanMembers_member hescape kv.1 hvalue (by omega) (ends_comma _), hcomma]
    simp only [hskip, htail, Option.map_some]

theorem reads_dict {escape : Char → List Char} (hescape : Escapes escape)
    {texts : List (List Char)} {kvs : List (String × Value)} (hnodup : (kvs.map (·.1)).Nodup)
    (h : List.Forall₂ (ReadsMember escape) texts kvs) :
    Reads ('{' :: (commas texts ++ ['}'])) (.dict kvs) := by
  refine reads_cons rfl (by decide) fun fuel rest hfuel _ => ?_
  simp only [List.length_cons, List.length_append, List.length_nil] at hfuel
  rw [List.append_assoc, List.singleton_append, scanOnce, if_neg (by decide),
    if_pos rfl]
  cases h with
  | nil => rfl
  | cons hmember hs =>
    rename_i text kv texts kvs
    have hmembers := scanMembers_commas hescape hmember hs fuel rest (by omega)
    obtain ⟨more, hlead⟩ : ∃ more, commas (text :: texts) ++ '}' :: rest = '"' :: more := by
      obtain ⟨value, rfl, -⟩ := hmember
      cases texts <;> exact ⟨_, rfl⟩
    rw [hlead] at hmembers ⊢
    rw [skipWhitespace_cons rfl]
    change (scanMembers fuel ('"' :: more)).map _ = _
    rw [hmembers, Option.map_some]
    change some (Value.dict (dictOf (kv :: kvs)), rest) = _
    rw [dictOf_eq hnodup]

theorem loads_eq_some {text : List Char} {v : Value} (h : Reads text v) : loads text = some v := by
  have hends : Ends [] := fun c hc => by cases hc
  have hscan := h.scan (2 * text.length) [] (Nat.le_refl _) hends
  have hskip := h.skip []
  rw [List.append_nil] at hscan hskip
  have hend : skipWhitespace [] = [] := rfl
  rw [loads, hskip, hscan]
  simp only [hend, if_true]

end Values

end PyJson
