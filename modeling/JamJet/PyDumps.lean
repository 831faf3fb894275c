import JamJet.Hashing
import JamJet.PyJson

/-! Python's `json.dumps` with sorted keys and ASCII output, for values of `None`, booleans,
integers, strings, lists and dicts, and how much of a value its text tells. -/

namespace PyDumps

open JamJet.Hashing (hexDigit joined Separable Stops numeralChar)

/-- A Python string by its code points, surrogates included. -/
abbrev PyStr := List (Fin 0x110000)

def pyStr (s : String) : PyStr := s.toList.map fun c => Fin.ofNat 0x110000 c.toNat

/-- `"\x00"` -/
def nul : Fin 0x110000 := 0

inductive Key
  | none
  | bool (b : Bool)
  | int (n : ℤ)
  | str (s : PyStr)
  deriving DecidableEq

inductive Value
  | none
  | bool (b : Bool)
  | int (n : ℤ)
  | str (s : PyStr)
  | list (items : List Value)
  | dict (members : List (Key × Value))

inductive Error
  | typeError
  | valueError
  deriving DecidableEq, Repr

section Strings

/-- `ensure_ascii` escapes what is not in ASCII by its UTF-16 units. -/
def unitsOf (c : Fin 0x110000) : List (Fin 0x10000) :=
  if c.val < 0x10000 then [Fin.ofNat 0x10000 c.val]
  else
    [Fin.ofNat 0x10000 (0xd800 + (c.val - 0x10000) / 0x400),
      Fin.ofNat 0x10000 (0xdc00 + (c.val - 0x10000) % 0x400)]

def units (s : PyStr) : List (Fin 0x10000) := s.flatMap unitsOf

/-- The units of a text in ASCII. -/
def ascii (s : List Char) : List (Fin 0x10000) := s.map fun c => Fin.ofNat 0x10000 c.toNat

def hex4 (n : ℕ) : List Char :=
  [hexDigit (n / 4096), hexDigit (n / 256 % 16), hexDigit (n / 16 % 16), hexDigit (n % 16)]

/-- `ESCAPE_DCT`, and `\uXXXX` for what is not printable ASCII. -/
def escapeUnit (u : Fin 0x10000) : List Char :=
  if u.val = 34 then ['\\', '"']
  else if u.val = 92 then ['\\', '\\']
  else if u.val = 8 then ['\\', 'b']
  else if u.val = 12 then ['\\', 'f']
  else if u.val = 10 then ['\\', 'n']
  else if u.val = 13 then ['\\', 'r']
  else if u.val = 9 then ['\\', 't']
  else if 32 ≤ u.val ∧ u.val ≤ 126 then [Char.ofNat u.val]
  else '\\' :: 'u' :: hex4 u.val

def quote (us : List (Fin 0x10000)) : List Char := '"' :: (us.flatMap escapeUnit ++ ['"'])

/-- The order of strings by code points. -/
def strLe : PyStr → PyStr → Bool
  | [], _ => true
  | _ :: _, [] => false
  | a :: s, b :: t => a.val < b.val || (a.val = b.val && strLe s t)

end Strings

section Numbers

def intText : ℤ → List Char
  | .ofNat n => Nat.toDigits 10 n
  | .negSucc n => '-' :: Nat.toDigits 10 (n + 1)

/-- `int.__repr__` refuses more digits than `sys.int_info.default_max_str_digits`. -/
def tooLong (n : ℤ) : Bool := 4300 < (Nat.toDigits 10 n.natAbs).length

end Numbers

namespace Key

/-- Keys of one kind can be put in order; a boolean is an integer. -/
def kind : Key → ℕ
  | none => 0
  | bool _ => 1
  | int _ => 1
  | str _ => 2

def number : Key → ℤ
  | bool b => if b then 1 else 0
  | int n => n
  | _ => 0

def text : Key → PyStr
  | str s => s
  | _ => []

/-- Keys that are equal for a dict. -/
def code (k : Key) : ℕ × ℤ × PyStr := (k.kind, k.number, k.text)

def le (a b : Key) : Bool :=
  a.kind < b.kind || (a.kind = b.kind && (a.number < b.number ||
    (a.number = b.number && strLe a.text b.text)))

/-- The string a key is written as. -/
def units : Key → List (Fin 0x10000)
  | none => ascii "null".toList
  | bool true => ascii "true".toList
  | bool false => ascii "false".toList
  | int n => ascii (intText n)
  | str s => PyDumps.units s

def dumps (k : Key) : Except Error (List Char) :=
  match k with
  | int n => if tooLong n then .error .valueError else .ok (quote k.units)
  | _ => .ok (quote k.units)

end Key

/-- Whether the keys of a dict can be sorted. -/
def sortable (keys : List Key) : Bool :=
  keys.length ≤ 1 || keys.all (·.kind = 1) || keys.all (·.kind = 2)

def sorted {α : Type} (members : List (Key × α)) : List (Key × α) :=
  members.insertionSort fun a b => a.1.le b.1

mutual

/-- `json.dumps(value, sort_keys=True, separators=(",", ":"))`. -/
def dumps : Value → Except Error (List Char)
  | .none => .ok "null".toList
  | .bool true => .ok "true".toList
  | .bool false => .ok "false".toList
  | .int n => if tooLong n then .error .valueError else .ok (intText n)
  | .str s => .ok (quote (units s))
  | .list items => do
      let texts ← (dumpsItems items).mapM id
      return '[' :: (joined texts ++ [']'])
  | .dict members =>
      if sortable (members.map Prod.fst) then do
        let texts ← (sorted (dumpsMembers members)).mapM fun kv => do
          let key ← kv.1.dumps
          let value ← kv.2
          return key ++ ':' :: value
        return '{' :: (joined texts ++ ['}'])
      else .error .typeError

/-- What comes of each item; the first error counts. -/
def dumpsItems : List Value → List (Except Error (List Char))
  | [] => []
  | v :: rest => dumps v :: dumpsItems rest

def dumpsMembers : List (Key × Value) → List (Key × Except Error (List Char))
  | [] => []
  | (k, v) :: rest => (k, dumps v) :: dumpsMembers rest

end

section Same

mutual

/-- Equal values, of the same types, but for the order of members. -/
def same : Value → Value → Bool
  | .none, .none => true
  | .bool b, .bool b' => b = b'
  | .int n, .int m => n = m
  | .str s, .str t => s = t
  | .list items, .list others => sameItems items others
  | .dict members, .dict others =>
      members.length = others.length && sameMembers members others
  | _, _ => false

def sameItems : List Value → List Value → Bool
  | [], [] => true
  | v :: items, w :: others => same v w && sameItems items others
  | _, _ => false

def sameMembers : List (Key × Value) → List (Key × Value) → Bool
  | [], _ => true
  | (k, v) :: members, others =>
      (match others.lookup k with
        | some w => same v w
        | none => false) && sameMembers members others

end

mutual

/-- The keys of a dict are different, `1` and `True` being one key. -/
def Dicts : Value → Prop
  | .list items => DictsItems items
  | .dict members => (members.map fun kv => kv.1.code).Nodup ∧ DictsMembers members
  | _ => True

def DictsItems : List Value → Prop
  | [] => True
  | v :: rest => Dicts v ∧ DictsItems rest

def DictsMembers : List (Key × Value) → Prop
  | [] => True
  | (_, v) :: rest => Dicts v ∧ DictsMembers rest

end

end Same

section Written

/-- What is written: strings by their units, and members in the order of the text, under the
strings their keys are written as. -/
inductive Written
  | none
  | bool (b : Bool)
  | int (n : ℤ)
  | str (us : List (Fin 0x10000))
  | list (items : List Written)
  | dict (members : List (List (Fin 0x10000) × Written))

mutual

def written : Value → Written
  | .none => .none
  | .bool b => .bool b
  | .int n => .int n
  | .str s => .str (units s)
  | .list items => .list (writtenItems items)
  | .dict members => .dict ((sorted (writtenMembers members)).map fun kv => (kv.1.units, kv.2))

def writtenItems : List Value → List Written
  | [] => []
  | v :: rest => written v :: writtenItems rest

def writtenMembers : List (Key × Value) → List (Key × Written)
  | [] => []
  | (k, v) :: rest => (k, written v) :: writtenMembers rest

end

mutual

def text : Written → List Char
  | .none => "null".toList
  | .bool true => "true".toList
  | .bool false => "false".toList
  | .int n => intText n
  | .str us => quote us
  | .list items => '[' :: (joined (textItems items) ++ [']'])
  | .dict members => '{' :: (joined (textMembers members) ++ ['}'])

def textItems : List Written → List (List Char)
  | [] => []
  | v :: rest => text v :: textItems rest

def textMembers : List (List (Fin 0x10000) × Written) → List (List Char)
  | [] => []
  | (us, v) :: rest => (quote us ++ ':' :: text v) :: textMembers rest

end

def Key.offences : Key → List Error
  | .int n => if tooLong n then [.valueError] else []
  | _ => []

mutual

/-- What a value cannot be written for, in the order of the text. -/
def offences : Value → List Error
  | .int n => if tooLong n then [.valueError] else []
  | .list items => offencesItems items
  | .dict members =>
      if sortable (members.map Prod.fst) then
        (sorted (offencesMembers members)).flatMap fun kv => kv.1.offences ++ kv.2
      else [.typeError]
  | _ => []

def offencesItems : List Value → List Error
  | [] => []
  | v :: rest => offences v ++ offencesItems rest

def offencesMembers : List (Key × Value) → List (Key × List Error)
  | [] => []
  | (k, v) :: rest => (k, offences v) :: offencesMembers rest

end

end Written

section Offences

/-- A value, unless something was refused before it came about. -/
def raised {α : Type} (refused : List Error) (a : α) : Except Error α :=
  match refused with
  | [] => .ok a
  | err :: _ => .error err

theorem raised_bind {α β : Type} (xs ys : List Error) (a : α) (f : α → β) :
    (raised xs a >>= fun a => raised ys (f a)) = raised (xs ++ ys) (f a) := by
  cases xs with
  | nil => rfl
  | cons err xs => rfl

theorem mapM_raised {α β : Type} {g : α → Except Error β} (refused : α → List Error) (f : α → β)
    {l : List α} (h : ∀ x ∈ l, g x = raised (refused x) (f x)) :
    l.mapM g = raised (l.flatMap refused) (l.map f) := by
  induction l with
  | nil => rfl
  | cons x l ih =>
    rw [List.mapM_cons, h x List.mem_cons_self, ih fun y hy => h y (List.mem_cons_of_mem x hy)]
    have hpure : ∀ b bs, (pure (b :: bs) : Except Error (List β)) = raised [] (b :: bs) :=
      fun _ _ => rfl
    simp only [hpure, raised_bind, List.append_nil, List.flatMap_cons, List.map_cons]

theorem dumpsItems_eq (items : List Value) : dumpsItems items = items.map dumps := by
  induction items with
  | nil => rw [dumpsItems, List.map_nil]
  | cons v items ih => rw [dumpsItems, ih, List.map_cons]

theorem dumpsMembers_eq (members : List (Key × Value)) :
    dumpsMembers members = members.map fun kv => (kv.1, dumps kv.2) := by
  induction members with
  | nil => rw [dumpsMembers, List.map_nil]
  | cons kv members ih => rw [dumpsMembers, ih, List.map_cons]

theorem offencesItems_eq (items : List Value) : offencesItems items = items.flatMap offences := by
  induction items with
  | nil => rw [offencesItems, List.flatMap_nil]
  | cons v items ih => rw [offencesItems, ih, List.flatMap_cons]

theorem offencesMembers_eq (members : List (Key × Value)) :
    offencesMembers members = members.map fun kv => (kv.1, offences kv.2) := by
  induction members with
  | nil => rw [offencesMembers, List.map_nil]
  | cons kv members ih => rw [offencesMembers, ih, List.map_cons]

theorem writtenItems_eq (items : List Value) : writtenItems items = items.map written := by
  induction items with
  | nil => rw [writtenItems, List.map_nil]
  | cons v items ih => rw [writtenItems, ih, List.map_cons]

theorem writtenMembers_eq (members : List (Key × Value)) :
    writtenMembers members = members.map fun kv => (kv.1, written kv.2) := by
  induction members with
  | nil => rw [writtenMembers, List.map_nil]
  | cons kv members ih => rw [writtenMembers, ih, List.map_cons]

theorem textItems_eq (items : List Written) : textItems items = items.map text := by
  induction items with
  | nil => rw [textItems, List.map_nil]
  | cons v items ih => rw [textItems, ih, List.map_cons]

/-- A member as it is written. -/
def memberText (kv : List (Fin 0x10000) × Written) : List Char := quote kv.1 ++ ':' :: text kv.2

theorem textMembers_eq (members : List (List (Fin 0x10000) × Written)) :
    textMembers members = members.map memberText := by
  induction members with
  | nil => rw [textMembers, List.map_nil]
  | cons kv members ih => rw [textMembers, ih, List.map_cons, memberText]

theorem sorted_map {α β : Type} (f : α → β) (members : List (Key × α)) :
    sorted (members.map fun kv => (kv.1, f kv.2)) =
      (sorted members).map fun kv => (kv.1, f kv.2) :=
  (List.map_insertionSort (r := fun a b : Key × α => a.1.le b.1)
    (s := fun a b : Key × β => a.1.le b.1) (fun kv => (kv.1, f kv.2)) members
    fun _ _ _ _ => Iff.rfl).symm

theorem mem_sorted {α : Type} {members : List (Key × α)} {kv : Key × α} :
    kv ∈ sorted members ↔ kv ∈ members :=
  (List.perm_insertionSort _ members).mem_iff

theorem Key.dumps_eq (k : Key) : k.dumps = raised k.offences (quote k.units) := by
  cases k with
  | int n =>
    rw [Key.dumps, Key.offences]
    split <;> rfl
  | _ => rfl

theorem sizeOf_item_lt {items : List Value} {v : Value} (h : v ∈ items) :
    sizeOf v < sizeOf (Value.list items) := by
  have hmem := List.sizeOf_lt_of_mem h
  simp only [Value.list.sizeOf_spec]
  omega

theorem sizeOf_member_lt {members : List (Key × Value)} {kv : Key × Value} (h : kv ∈ members) :
    sizeOf kv.2 < sizeOf (Value.dict members) := by
  have hmem := List.sizeOf_lt_of_mem h
  have hpair : sizeOf kv.2 < sizeOf kv := by
    obtain ⟨k, v⟩ := kv
    simp only [Prod.mk.sizeOf_spec]
    omega
  simp only [Value.dict.sizeOf_spec]
  omega

/-- The text is that of what is written, unless something is refused; then the first counts. -/
theorem dumps_eq (v : Value) : dumps v = raised (offences v) (text (written v)) := by
  induction hsize : sizeOf v using Nat.strong_induction_on generalizing v with
  | _ n ih =>
  subst hsize
  cases v with
  | bool b => cases b <;> simp [dumps, offences, written, text, raised]
  | int n =>
    unfold dumps offences
    split <;> simp [written, text, raised]
  | list items =>
    have hall : (items.map dumps).mapM id =
        raised (items.flatMap offences) (items.map fun v => text (written v)) := by
      rw [List.mapM_map]
      exact mapM_raised offences _ fun v hv => ih _ (sizeOf_item_lt hv) v rfl
    have hpure : ∀ texts, (pure ('[' :: (joined texts ++ [']'])) : Except Error (List Char)) =
        raised [] ('[' :: (joined texts ++ [']'])) := fun _ => rfl
    rw [dumps, dumpsItems_eq, hall]
    simp only [hpure, raised_bind, List.append_nil, offences, offencesItems_eq, written,
      writtenItems_eq, text, textItems_eq, List.map_map]
    rfl
  | dict members =>
    rw [dumps, offences, offencesMembers_eq, sorted_map, dumpsMembers_eq, sorted_map]
    split
    · have hmember : ∀ kv ∈ sorted members, (do
          let key ← kv.1.dumps
          let value ← dumps kv.2
          return key ++ ':' :: value : Except Error (List Char)) =
          raised (kv.1.offences ++ offences kv.2) (memberText (kv.1.units, written kv.2)) := by
        intro kv hkv
        rw [Key.dumps_eq, ih _ (sizeOf_member_lt (mem_sorted.mp hkv)) kv.2 rfl]
        have hpure : ∀ key value, (pure (key ++ ':' :: value) : Except Error (List Char)) =
            raised [] (key ++ ':' :: value) := fun _ _ => rfl
        simp only [hpure, raised_bind, List.append_nil, memberText]
      have hall := mapM_raised _ _ hmember
      have hpure : ∀ texts, (pure ('{' :: (joined texts ++ ['}'])) : Except Error (List Char)) =
          raised [] ('{' :: (joined texts ++ ['}'])) := fun _ => rfl
      simp only [List.mapM_map, Function.comp_def, hall, hpure, raised_bind, List.append_nil,
        written, writtenMembers_eq, sorted_map, text, textMembers_eq, List.map_map,
        List.flatMap_map]
    · rfl
  | _ => simp [dumps, offences, written, text, raised]

end Offences

section Texts

/-- Reading one escaped unit back. -/
def readUnit : List Char → Option (ℕ × List Char)
  | '\\' :: '"' :: rest => some (34, rest)
  | '\\' :: '\\' :: rest => some (92, rest)
  | '\\' :: 'b' :: rest => some (8, rest)
  | '\\' :: 'f' :: rest => some (12, rest)
  | '\\' :: 'n' :: rest => some (10, rest)
  | '\\' :: 'r' :: rest => some (13, rest)
  | '\\' :: 't' :: rest => some (9, rest)
  | '\\' :: 'u' :: a :: b :: c :: d :: rest => (PyJson.decodeHex4 a b c d).map fun n => (n, rest)
  | c :: rest => some (c.toNat, rest)
  | [] => none

theorem hexValue_hexDigit : ∀ n < 16, PyJson.hexValue (hexDigit n) = some n := by decide

theorem decodeHex4_hex4 {n : ℕ} (h : n < 0x10000) :
    PyJson.decodeHex4 (hexDigit (n / 4096)) (hexDigit (n / 256 % 16)) (hexDigit (n / 16 % 16))
      (hexDigit (n % 16)) = some n := by
  simp only [PyJson.decodeHex4, hexValue_hexDigit _ (show n / 4096 < 16 by omega),
    hexValue_hexDigit _ (show n / 256 % 16 < 16 by omega),
    hexValue_hexDigit _ (show n / 16 % 16 < 16 by omega),
    hexValue_hexDigit _ (show n % 16 < 16 by omega), Option.bind_eq_bind, Option.bind_some,
    Option.pure_def, Option.some.injEq]
  omega

theorem toNat_printable {n : ℕ} (h : n ≤ 126) : (Char.ofNat n).toNat = n := by
  have hall : ∀ n < 127, (Char.ofNat n).toNat = n := by decide
  exact hall n (by omega)

theorem readUnit_escapeUnit (u : Fin 0x10000) (rest : List Char) :
    readUnit (escapeUnit u ++ rest) = some (u.val, rest) := by
  unfold escapeUnit
  split
  · simp_all [readUnit]
  split
  · simp_all [readUnit]
  split
  · simp_all [readUnit]
  split
  · simp_all [readUnit]
  split
  · simp_all [readUnit]
  split
  · simp_all [readUnit]
  split
  · simp_all [readUnit]
  split
  · rename_i hslash _ _ _ _ _ hprintable
    have hnat := toNat_printable hprintable.2
    have hne : Char.ofNat u.val ≠ '\\' := fun heq => hslash (hnat ▸ heq ▸ rfl)
    rw [List.singleton_append]
    unfold readUnit
    split <;> simp_all
  · change (PyJson.decodeHex4 _ _ _ _).map _ = _
    rw [decodeHex4_hex4 u.isLt, Option.map_some]
    rfl

theorem escapeUnit_append_inj (u v : Fin 0x10000) (r s : List Char)
    (h : escapeUnit u ++ r = escapeUnit v ++ s) : u = v ∧ r = s := by
  have hread := readUnit_escapeUnit u r
  rw [h, readUnit_escapeUnit v s, Option.some.injEq, Prod.mk.injEq] at hread
  exact ⟨Fin.ext hread.1.symm, hread.2.symm⟩

theorem escapeUnit_ne_quote (u : Fin 0x10000) :
    ∃ d rest, escapeUnit u = d :: rest ∧ d ≠ '"' := by
  unfold escapeUnit
  split
  · exact ⟨_, _, rfl, by decide⟩
  rename_i hquote
  repeat' split
  all_goals first
    | exact ⟨_, _, rfl, by decide⟩
    | skip
  rename_i hprintable
  refine ⟨_, _, rfl, fun heq => hquote ?_⟩
  rw [← toNat_printable hprintable.2, heq]
  rfl

theorem quote_append_inj {us vs : List (Fin 0x10000)} {r s : List Char}
    (h : quote us ++ r = quote vs ++ s) : us = vs ∧ r = s := by
  simp only [quote, List.cons_append, List.append_assoc, List.cons.injEq, true_and] at h
  exact JamJet.Hashing.flatMap_quote_inj escapeUnit_append_inj escapeUnit_ne_quote h

theorem intText_chars {n : ℤ} : ∀ c ∈ intText n, numeralChar c = true := by
  intro c hc
  cases n with
  | ofNat n => simp [numeralChar, JamJet.Hashing.isDigit_toDigits hc]
  | negSucc n =>
    rcases List.mem_cons.mp hc with rfl | hc
    · rfl
    · simp [numeralChar, JamJet.Hashing.isDigit_toDigits hc]

theorem intText_ne_nil (n : ℤ) : intText n ≠ [] := by
  cases n with
  | ofNat n => exact Nat.toDigits_ne_nil
  | negSucc n => exact List.cons_ne_nil _ _

theorem intText_inj {n m : ℤ} (h : intText n = intText m) : n = m := by
  have hminus : ∀ k, '-' ∉ Nat.toDigits 10 k := fun k hmem =>
    absurd (JamJet.Hashing.isDigit_toDigits hmem) (by decide)
  cases n with
  | ofNat n =>
    cases m with
    | ofNat m => rw [JamJet.Hashing.toDigits_inj h]
    | negSucc m =>
      change Nat.toDigits 10 n = '-' :: _ at h
      exact absurd (h ▸ List.mem_cons_self) (hminus n)
  | negSucc n =>
    cases m with
    | ofNat m =>
      change '-' :: _ = Nat.toDigits 10 m at h
      exact absurd (h ▸ List.mem_cons_self) (hminus m)
    | negSucc m =>
      have hdigits := JamJet.Hashing.toDigits_inj (List.cons.inj h).2
      rw [Nat.add_right_cancel hdigits]

theorem intText_append_inj {n m : ℤ} {r s : List Char} (hr : Stops r) (hs : Stops s)
    (h : intText n ++ r = intText m ++ s) : n = m ∧ r = s := by
  have htext : intText n = intText m := by
    rw [← JamJet.Hashing.takeWhile_numeral intText_chars hr, h,
      JamJet.Hashing.takeWhile_numeral intText_chars hs]
  rw [htext] at h
  exact ⟨intText_inj htext, List.append_cancel_left h⟩

/-- Which kind of value a text begins, as `JamJet.Hashing.leadKind` tells. -/
def kindOf : Written → ℕ
  | .none => 0
  | .bool true => 1
  | .bool false => 2
  | .str _ => 3
  | .list _ => 4
  | .dict _ => 5
  | .int _ => 6

theorem text_lead (v : Written) :
    ∃ c rest, text v = c :: rest ∧ JamJet.Hashing.leadKind c = kindOf v ∧ c ≠ ']' := by
  cases v with
  | none => exact ⟨_, _, by rw [text]; rfl, rfl, by decide⟩
  | bool b => cases b <;> exact ⟨_, _, by rw [text]; rfl, rfl, by decide⟩
  | int n =>
    cases htext : intText n with
    | nil => exact absurd htext (intText_ne_nil n)
    | cons c rest =>
      have hc := intText_chars (n := n) c (by simp [htext])
      refine ⟨c, rest, by rw [text, htext], JamJet.Hashing.leadKind_numeral hc, ?_⟩
      rintro rfl
      cases hc
  | str us => exact ⟨_, _, by rw [text, quote], rfl, by decide⟩
  | list items => exact ⟨_, _, by rw [text], rfl, by decide⟩
  | dict members => exact ⟨_, _, by rw [text], rfl, by decide⟩

theorem separable_memberText {kv kv' : List (Fin 0x10000) × Written}
    (h : Separable text kv.2 kv'.2) : Separable memberText kv kv' := by
  intro r s hr hs heq
  simp only [memberText, List.append_assoc, List.cons_append] at heq
  obtain ⟨hkey, htail⟩ := quote_append_inj heq
  obtain ⟨hval, hrest⟩ := h r s hr hs (List.cons.inj htail).2
  exact ⟨Prod.ext hkey hval, hrest⟩

theorem sizeOf_written_lt {members : List (List (Fin 0x10000) × Written)}
    {kv : List (Fin 0x10000) × Written} (h : kv ∈ members) :
    sizeOf kv.2 < sizeOf (Written.dict members) := by
  have hmem := List.sizeOf_lt_of_mem h
  have hpair : sizeOf kv.2 < sizeOf kv := by
    obtain ⟨us, v⟩ := kv
    simp only [Prod.mk.sizeOf_spec]
    omega
  simp only [Written.dict.sizeOf_spec]
  omega

/-- A text is that of one value, wherever it ends. -/
theorem separable_text (v w : Written) : Separable text v w := by
  induction hsize : sizeOf v using Nat.strong_induction_on generalizing v w with
  | _ n ih =>
  subst hsize
  intro r s hr hs h
  have hkind : kindOf v = kindOf w := by
    obtain ⟨c, rest, hc, hlead, -⟩ := text_lead v
    obtain ⟨c', rest', hc', hlead', -⟩ := text_lead w
    rw [hc, hc', List.cons_append, List.cons_append] at h
    rw [← hlead, ← hlead', (List.cons.inj h).1]
  cases v with
  | none =>
    cases w with
    | none => simpa [text] using h
    | bool b => cases b <;> cases hkind
    | _ => cases hkind
  | bool b =>
    cases w with
    | bool b' =>
      have hb : b = b' := by cases b <;> cases b' <;> first | rfl | cases hkind
      subst hb
      exact ⟨rfl, List.append_cancel_left h⟩
    | _ => cases b <;> cases hkind
  | int n =>
    cases w with
    | int m =>
      rw [text, text] at h
      obtain ⟨rfl, hrest⟩ := intText_append_inj hr hs h
      exact ⟨rfl, hrest⟩
    | bool b => cases b <;> cases hkind
    | _ => cases hkind
  | str us =>
    cases w with
    | str vs =>
      rw [text, text] at h
      obtain ⟨rfl, hrest⟩ := quote_append_inj h
      exact ⟨rfl, hrest⟩
    | bool b => cases b <;> cases hkind
    | _ => cases hkind
  | list items =>
    cases w with
    | list others =>
      rw [text, text, textItems_eq, textItems_eq] at h
      simp only [List.cons_append, List.append_assoc, List.cons.injEq, true_and] at h
      have hsep : ∀ x ∈ items, ∀ y ∈ others, Separable text x y := fun x hx y _ =>
        ih _ (by have := List.sizeOf_lt_of_mem hx; simp only [Written.list.sizeOf_spec]; omega) x y rfl
      obtain ⟨rfl, hrest⟩ := JamJet.Hashing.joined_append_inj (by decide) (by decide)
        (fun x _ => (text_lead x).imp fun c hc => hc.imp fun rest hc => ⟨hc.1, hc.2.2⟩) hsep h
      exact ⟨rfl, hrest⟩
    | bool b => cases b <;> cases hkind
    | _ => cases hkind
  | dict members =>
    cases w with
    | dict others =>
      rw [text, text, textMembers_eq, textMembers_eq] at h
      simp only [List.cons_append, List.append_assoc, List.cons.injEq, true_and] at h
      have hsep : ∀ kv ∈ members, ∀ kv' ∈ others, Separable memberText kv kv' :=
        fun kv hkv kv' _ => separable_memberText (ih _ (sizeOf_written_lt hkv) kv.2 kv'.2 rfl)
      obtain ⟨rfl, hrest⟩ := JamJet.Hashing.joined_append_inj (by decide) (by decide)
        (fun kv _ => ⟨_, _, rfl, by decide⟩) hsep h
      exact ⟨rfl, hrest⟩
    | bool b => cases b <;> cases hkind
    | _ => cases hkind

theorem text_inj {v w : Written} (h : text v = text w) : v = w := by
  have hstops : Stops [] := fun c hc => by cases hc
  exact (separable_text v w [] [] hstops hstops (by rw [h])).1

end Texts

section Order

theorem strLe_total (s t : PyStr) : strLe s t = true ∨ strLe t s = true := by
  induction s generalizing t with
  | nil => exact .inl rfl
  | cons a s ih =>
    cases t with
    | nil => exact .inr rfl
    | cons b t =>
      simp only [strLe, Bool.or_eq_true, Bool.and_eq_true, decide_eq_true_eq]
      rcases lt_trichotomy a.val b.val with hlt | heq | hlt
      · exact .inl (.inl hlt)
      · exact (ih t).imp (fun h => .inr ⟨heq, h⟩) fun h => .inr ⟨heq.symm, h⟩
      · exact .inr (.inl hlt)

theorem strLe_antisymm {s t : PyStr} (h : strLe s t = true) (h' : strLe t s = true) : s = t := by
  induction s generalizing t with
  | nil =>
    cases t with
    | nil => rfl
    | cons b t => cases h'
  | cons a s ih =>
    cases t with
    | nil => cases h
    | cons b t =>
      simp only [strLe, Bool.or_eq_true, Bool.and_eq_true, decide_eq_true_eq] at h h'
      rcases h with h | ⟨heq, h⟩
      · omega
      rcases h' with h' | ⟨-, h'⟩
      · omega
      rw [Fin.ext heq, ih h h']

theorem strLe_trans {s t u : PyStr} (h : strLe s t = true) (h' : strLe t u = true) :
    strLe s u = true := by
  induction s generalizing t u with
  | nil => rfl
  | cons a s ih =>
    cases t with
    | nil => cases h
    | cons b t =>
      cases u with
      | nil => cases h'
      | cons c u =>
        simp only [strLe, Bool.or_eq_true, Bool.and_eq_true, decide_eq_true_eq] at h h' ⊢
        rcases h with h | ⟨heq, h⟩
        · exact .inl (by omega)
        rcases h' with h' | ⟨heq', h'⟩
        · exact .inl (by omega)
        · exact .inr ⟨heq.trans heq', ih h h'⟩

theorem Key.le_iff {a b : Key} : a.le b = true ↔ a.kind < b.kind ∨ (a.kind = b.kind ∧
    (a.number < b.number ∨ (a.number = b.number ∧ strLe a.text b.text = true))) := by
  simp [Key.le]

theorem Key.le_total (a b : Key) : a.le b = true ∨ b.le a = true := by
  rw [Key.le_iff, Key.le_iff]
  rcases lt_trichotomy a.kind b.kind with h | hkind | h
  · exact .inl (.inl h)
  · rcases lt_trichotomy a.number b.number with h | hnumber | h
    · exact .inl (.inr ⟨hkind, .inl h⟩)
    · exact (strLe_total a.text b.text).imp (fun h => .inr ⟨hkind, .inr ⟨hnumber, h⟩⟩)
        fun h => .inr ⟨hkind.symm, .inr ⟨hnumber.symm, h⟩⟩
    · exact .inr (.inr ⟨hkind.symm, .inl h⟩)
  · exact .inr (.inl h)

theorem Key.le_antisymm {a b : Key} (h : a.le b = true) (h' : b.le a = true) : a.code = b.code := by
  rw [Key.le_iff] at h h'
  rcases h with h | ⟨hkind, h⟩
  · omega
  rcases h' with h' | ⟨-, h'⟩
  · omega
  rcases h with h | ⟨hnumber, h⟩
  · omega
  rcases h' with h' | ⟨-, h'⟩
  · omega
  rw [Key.code, Key.code, hkind, hnumber, strLe_antisymm h h']

theorem Key.le_trans {a b c : Key} (h : a.le b = true) (h' : b.le c = true) : a.le c = true := by
  rw [Key.le_iff] at h h' ⊢
  rcases h with h | ⟨hkind, h⟩
  · exact .inl (by omega)
  rcases h' with h' | ⟨hkind', h'⟩
  · exact .inl (by omega)
  refine .inr ⟨hkind.trans hkind', ?_⟩
  rcases h with h | ⟨hnumber, h⟩
  · exact .inl (by omega)
  rcases h' with h' | ⟨hnumber', h'⟩
  · exact .inl (by omega)
  · exact .inr ⟨hnumber.trans hnumber', strLe_trans h h'⟩

theorem sorted_eq_of_perm {α : Type} {members others : List (Key × α)} (h : members.Perm others)
    (hnodup : (members.map fun kv => kv.1.code).Nodup) : sorted members = sorted others := by
  have htotal : Std.Total fun a b : Key × α => a.1.le b.1 = true := ⟨fun a b => Key.le_total a.1 b.1⟩
  have htrans : IsTrans (Key × α) fun a b => a.1.le b.1 = true := ⟨fun _ _ _ => Key.le_trans⟩
  have hperm : (sorted members).Perm (sorted others) :=
    ((List.perm_insertionSort _ members).trans h).trans (List.perm_insertionSort _ others).symm
  refine hperm.eq_of_pairwise (fun a b ha hb hab hba => ?_) (List.pairwise_insertionSort _ members)
    (List.pairwise_insertionSort _ others)
  have hb' : b ∈ members := h.mem_iff.mpr (mem_sorted.mp hb)
  exact List.inj_on_of_nodup_map hnodup (mem_sorted.mp ha) hb' (Key.le_antisymm hab hba)

end Order

section Same

theorem sameItems_iff {items others : List Value} :
    sameItems items others = true ↔ List.Forall₂ (fun v w => same v w = true) items others := by
  induction items generalizing others with
  | nil => cases others <;> simp [sameItems]
  | cons v items ih => cases others <;> simp [sameItems, ih]

theorem sameMembers_iff {members others : List (Key × Value)} : sameMembers members others = true ↔
    ∀ kv ∈ members, ∃ w, others.lookup kv.1 = some w ∧ same kv.2 w = true := by
  induction members with
  | nil => simp [sameMembers]
  | cons kv members ih =>
    obtain ⟨k, v⟩ := kv
    cases hlookup : others.lookup k <;> simp [sameMembers, ih, hlookup]

theorem dictsItems_iff {items : List Value} : DictsItems items ↔ ∀ v ∈ items, Dicts v := by
  induction items with
  | nil => simp [DictsItems]
  | cons v items ih => simp [DictsItems, ih]

theorem dictsMembers_iff {members : List (Key × Value)} :
    DictsMembers members ↔ ∀ kv ∈ members, Dicts kv.2 := by
  induction members with
  | nil => simp [DictsMembers]
  | cons kv members ih => simp [DictsMembers, ih]

theorem mem_of_lookup {α : Type} {members : List (Key × α)} {k : Key} {v : α}
    (h : members.lookup k = some v) : (k, v) ∈ members := by
  induction members with
  | nil => cases h
  | cons kv members ih =>
    rw [List.lookup_cons] at h
    split at h
    · rename_i heq
      obtain rfl : k = kv.1 := by simpa using heq
      cases h
      exact List.mem_cons_self
    · exact List.mem_cons_of_mem _ (ih h)

theorem map_eq_of_forall₂ {α β : Type} {R : α → α → Prop} {f : α → β} {xs ys : List α}
    (h : List.Forall₂ R xs ys) (hf : ∀ x ∈ xs, ∀ y ∈ ys, R x y → f x = f y) :
    xs.map f = ys.map f := by
  induction h with
  | nil => rfl
  | cons hxy _ ih =>
    rw [List.map_cons, List.map_cons, hf _ (by simp) _ (by simp) hxy,
      ih fun x hx y hy => hf x (by simp [hx]) y (by simp [hy])]

theorem written_eq_of_same (v w : Value) (hv : Dicts v) (hw : Dicts w) (h : same v w = true) :
    written v = written w := by
  induction hsize : sizeOf v using Nat.strong_induction_on generalizing v w with
  | _ n ih =>
  subst hsize
  cases v with
  | list items =>
    cases w with
    | list others =>
      rw [Dicts, dictsItems_iff] at hv hw
      rw [same, sameItems_iff] at h
      rw [written, written, writtenItems_eq, writtenItems_eq, map_eq_of_forall₂ h fun v hv' w hw' hsame =>
        ih _ (sizeOf_item_lt hv') v w (hv v hv') (hw w hw') hsame rfl]
    | _ => simp [same] at h
  | dict members =>
    cases w with
    | dict others =>
      obtain ⟨hnodup, hmembers⟩ := hv
      obtain ⟨hnodup', hothers⟩ := hw
      rw [dictsMembers_iff] at hmembers hothers
      simp only [same, Bool.and_eq_true, decide_eq_true_eq, sameMembers_iff] at h
      obtain ⟨hlength, hall⟩ := h
      have hcodes : ((members.map fun kv => (kv.1, written kv.2)).map fun kv => kv.1.code).Nodup := by
        simpa [List.map_map, Function.comp_def] using hnodup
      have hsubset : (members.map fun kv => (kv.1, written kv.2)) ⊆
          others.map fun kv => (kv.1, written kv.2) := by
        intro x hx
        obtain ⟨kv, hkv, rfl⟩ := List.mem_map.mp hx
        obtain ⟨w, hw, hsame⟩ := hall kv hkv
        have hmem := mem_of_lookup hw
        rw [ih _ (sizeOf_member_lt hkv) kv.2 w (hmembers kv hkv) (hothers _ hmem) hsame rfl]
        exact List.mem_map_of_mem (f := fun kv : Key × Value => (kv.1, written kv.2)) hmem
      have hperm := (List.subperm_of_subset (.of_map _ hcodes) hsubset).perm_of_length_le
        (by simp [hlength])
      rw [written, written, writtenMembers_eq, writtenMembers_eq, sorted_eq_of_perm hperm hcodes]
    | _ => simp [same] at h
  | _ => cases w <;> simp_all [same, written]

end Same

end PyDumps
