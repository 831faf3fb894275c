import JamJet.AuditSigner
import JamJet.Delimited
import JamJet.PyDumps

/-! The idempotency key of a `@durable` call, and which calls it tells apart. -/

namespace JamJet.Durable

open PyDumps

/-- A call as its key sees it: arguments of `None`, booleans, integers, strings, lists and dicts. -/
structure DurableCall where
  executionId : PyStr
  qualname : PyStr
  args : List Value
  kwargs : List (PyStr × Value)
  argDicts : DictsItems args
  kwargNames : (kwargs.map Prod.fst).Nodup
  kwargDicts : ∀ kv ∈ kwargs, Dicts kv.2

inductive KeyError
  /-- The message tells what could not be written. -/
  | typeError
  | valueError
  | unicodeEncodeError
  deriving DecidableEq, Repr

namespace DurableCall

/-- The dict of keyword arguments. -/
def kwargsDict (c : DurableCall) : Value := .dict (c.kwargs.map fun kv => (.str kv.1, kv.2))

/-- What is fingerprinted; `_to_canonical` changes no value of these kinds. -/
def canonical (c : DurableCall) : Value :=
  .dict [(.str (pyStr "args"), .list c.args), (.str (pyStr "kwargs"), c.kwargsDict)]

end DurableCall

/-- `encode("utf-8")`, up to the bytes: no surrogate can be encoded. -/
def encode : PyStr → Option (List Char)
  | [] => some []
  | c :: s =>
      if 0xd800 ≤ c.val ∧ c.val ≤ 0xdfff then none else (encode s).map (Char.ofNat c.val :: ·)

/-- `hashlib.sha256(text).hexdigest()` -/
def hexdigest (sha256 : List UInt8 → List UInt8) (text : List Char) : String :=
  Hex.encode (sha256 (utf8 (String.ofList text)))

section Keys

variable (sha256 : List UInt8 → List UInt8)

def argsFingerprint (c : DurableCall) : Except KeyError String :=
  match dumps c.canonical with
  | .error .typeError => .error .typeError
  | .error .valueError => .error .valueError
  | .ok encoded => .ok (hexdigest sha256 encoded)

def generateKey (c : DurableCall) : Except KeyError String :=
  match argsFingerprint sha256 c with
  | .error err => .error err
  | .ok fp =>
      match encode (c.executionId ++ nul :: (c.qualname ++ nul :: pyStr fp)) with
      | none => .error .unicodeEncodeError
      | some payload => .ok (hexdigest sha256 payload)

/-- Calls of one function in one execution with equal arguments. -/
def Equal (c c' : DurableCall) : Prop :=
  c.executionId = c'.executionId ∧ c.qualname = c'.qualname ∧
    sameItems c.args c'.args = true ∧ same c.kwargsDict c'.kwargsDict = true

/-- A key is refused with a `TypeError`, or the two keys are equal exactly for equal calls; and a
call finds what another one stored only if they are. -/
def Separates (c c' : DurableCall) : Prop :=
  generateKey sha256 c = .error .typeError ∨ generateKey sha256 c' = .error .typeError ∨
    ∃ key key', generateKey sha256 c = .ok key ∧ generateKey sha256 c' = .ok key' ∧
      (key = key' ↔ Equal c c') ∧
      ∀ (Blob : Type) (rows : String → Option Blob) (blob : Blob), ¬ Equal c c' →
        Function.update rows key (some blob) key' = rows key'

end Keys

/-- The first thing refused is a dict whose keys cannot be sorted. -/
def Unsortable (c : DurableCall) : Prop := (offences c.canonical).head? = some .typeError

/-- Nothing is refused, and no surrogate stands in the id or the name. -/
structure Plain (c : DurableCall) : Prop where
  written : offences c.canonical = []
  executionId : ∀ p ∈ c.executionId, ¬ (0xd800 ≤ p.val ∧ p.val ≤ 0xdfff)
  qualname : ∀ p ∈ c.qualname, ¬ (0xd800 ≤ p.val ∧ p.val ≤ 0xdfff)

/-- Id and name with a NUL between them are one string, and the arguments are written as one. -/
def Blurred (c c' : DurableCall) : Prop :=
  c.executionId ++ nul :: c.qualname = c'.executionId ++ nul :: c'.qualname ∧
    PyDumps.written c.canonical = PyDumps.written c'.canonical

def Fits (c c' : DurableCall) : Prop :=
  Unsortable c ∨ Unsortable c' ∨ (Plain c ∧ Plain c' ∧ (Blurred c c' → Equal c c'))

section Encoding

theorem encode_eq_some_iff {s : PyStr} :
    (∃ cs, encode s = some cs) ↔ ∀ p ∈ s, ¬ (0xd800 ≤ p.val ∧ p.val ≤ 0xdfff) := by
  induction s with
  | nil => simp [encode]
  | cons c s ih =>
    by_cases hc : 0xd800 ≤ c.val ∧ c.val ≤ 0xdfff
    · simp [encode, hc]
    · simp only [encode, List.forall_mem_cons, hc, not_false_eq_true, true_and, ← ih]
      cases encode s <;> simp

theorem toNat_encoded {c : Fin 0x110000} (hc : ¬ (0xd800 ≤ c.val ∧ c.val ≤ 0xdfff)) :
    (Char.ofNat c.val).toNat = c.val := by
  have hlt := c.isLt
  have hvalid : c.val.isValidChar := by
    rw [Nat.isValidChar]
    omega
  rw [Char.ofNat, dif_pos hvalid]
  rfl

theorem encode_inj {s t : PyStr} {cs : List Char} (hs : encode s = some cs) (ht : encode t = some cs) :
    s = t := by
  induction s generalizing t cs with
  | nil =>
    obtain rfl : [] = cs := by simpa [encode] using hs
    cases t with
    | nil => rfl
    | cons d t =>
      rw [encode] at ht
      split at ht <;> simp at ht
  | cons c s ih =>
    rw [encode] at hs
    split at hs
    · cases hs
    rename_i hc
    obtain ⟨cs', hcs', rfl⟩ := Option.map_eq_some_iff.mp hs
    cases t with
    | nil => simp [encode] at ht
    | cons d t =>
      rw [encode] at ht
      split at ht
      · cases ht
      rename_i hd
      obtain ⟨ds, hds, heq⟩ := Option.map_eq_some_iff.mp ht
      obtain ⟨hchar, rfl⟩ := List.cons.inj heq
      have hval := congrArg Char.toNat hchar
      rw [toNat_encoded hc, toNat_encoded hd] at hval
      rw [Fin.ext hval.symm, ih hcs' hds]

theorem encode_pyStr (s : String) : encode (pyStr s) = some s.toList := by
  rw [pyStr]
  induction s.toList with
  | nil => rfl
  | cons c cs ih =>
    have hvalid : c.toNat.isValidChar := c.valid
    have hval : (Fin.ofNat 0x110000 c.toNat).val = c.toNat :=
      Nat.mod_eq_of_lt (by rw [Nat.isValidChar] at hvalid; omega)
    have hplain : ¬ (0xd800 ≤ c.toNat ∧ c.toNat ≤ 0xdfff) := by
      rw [Nat.isValidChar] at hvalid
      omega
    rw [List.map_cons, encode, hval, if_neg hplain, ih, Option.map_some, Char.ofNat_toNat]

end Encoding

variable {sha256 : List UInt8 → List UInt8} {c c' : DurableCall}

theorem hexdigest_inj (hsha : Function.Injective sha256) {s t : List Char}
    (h : hexdigest sha256 s = hexdigest sha256 t) : s = t :=
  String.ofList_injective (utf8_inj (hsha (Hex.encode_inj h)))

/-- The fingerprint of arguments that can be written. -/
def fingerprint (sha256 : List UInt8 → List UInt8) (c : DurableCall) : String :=
  hexdigest sha256 (text (PyDumps.written c.canonical))

theorem generateKey_of_refused {err : Error} {more : List Error}
    (h : offences c.canonical = err :: more) : generateKey sha256 c =
      .error (match err with | .typeError => .typeError | .valueError => .valueError) := by
  have hdumps : dumps c.canonical = .error err := by rw [dumps_eq, h, raised]
  cases err <;> simp only [generateKey, argsFingerprint, hdumps]

theorem generateKey_of_written (h : offences c.canonical = []) : generateKey sha256 c =
    match encode (c.executionId ++ nul :: (c.qualname ++ nul :: pyStr (fingerprint sha256 c))) with
      | none => .error .unicodeEncodeError
      | some payload => .ok (hexdigest sha256 payload) := by
  have hdumps : dumps c.canonical = .ok (text (PyDumps.written c.canonical)) := by
    rw [dumps_eq, h, raised]
  simp only [generateKey, argsFingerprint, hdumps]
  rfl

theorem generateKey_eq_typeError_iff :
    generateKey sha256 c = .error .typeError ↔ Unsortable c := by
  unfold Unsortable
  cases h : offences c.canonical with
  | cons err more =>
    rw [generateKey_of_refused h]
    cases err <;> simp
  | nil =>
    rw [generateKey_of_written h]
    split <;> simp

variable (sha256) in
theorem encode_payload (hc : Plain c) : ∃ payload,
    encode (c.executionId ++ nul :: (c.qualname ++ nul :: pyStr (fingerprint sha256 c))) = some payload := by
  rw [encode_eq_some_iff]
  have hfingerprint := encode_eq_some_iff.mp ⟨_, encode_pyStr (fingerprint sha256 c)⟩
  intro p hp
  simp only [List.mem_append, List.mem_cons] at hp
  rcases hp with hp | rfl | hp | rfl | hp
  · exact hc.executionId p hp
  · decide
  · exact hc.qualname p hp
  · decide
  · exact hfingerprint p hp

variable (sha256) in
theorem generateKey_of_plain (hc : Plain c) : ∃ key, generateKey sha256 c = .ok key := by
  obtain ⟨payload, hpayload⟩ := encode_payload sha256 hc
  exact ⟨_, by rw [generateKey_of_written hc.written, hpayload]⟩

theorem plain_of_generateKey {key : String} (h : generateKey sha256 c = .ok key) : Plain c := by
  cases hoffences : offences c.canonical with
  | cons err more =>
    rw [generateKey_of_refused hoffences] at h
    cases h
  | nil =>
    rw [generateKey_of_written hoffences] at h
    split at h
    · cases h
    rename_i payload hpayload
    have hplain := encode_eq_some_iff.mp ⟨payload, hpayload⟩
    exact ⟨hoffences, fun p hp => hplain p (by simp [hp]), fun p hp => hplain p (by simp [hp])⟩

theorem nul_not_mem_pyStr (sha256 : List UInt8 → List UInt8) (text : List Char) :
    nul ∉ pyStr (hexdigest sha256 text) := by
  intro hmem
  obtain ⟨d, hd, hzero⟩ := List.mem_map.mp hmem
  have hvalid : d.toNat.isValidChar := d.valid
  have hval : d.toNat % 0x110000 = 0 := congrArg Fin.val hzero
  have hnul : d.toNat = 0 := by
    rw [Nat.isValidChar] at hvalid
    omega
  have hchar : d = Char.ofNat 0 := by rw [← hnul, Char.ofNat_toNat]
  exact Hex.not_mem_encode (by decide) _ (hchar ▸ hd)

theorem key_eq_iff (hsha : Function.Injective sha256) {key key' : String}
    (h : generateKey sha256 c = .ok key) (h' : generateKey sha256 c' = .ok key') :
    key = key' ↔ Blurred c c' := by
  obtain ⟨payload, hpayload⟩ := encode_payload sha256 (plain_of_generateKey h)
  obtain ⟨payload', hpayload'⟩ := encode_payload sha256 (plain_of_generateKey h')
  rw [generateKey_of_written (plain_of_generateKey h).written, hpayload, Except.ok.injEq] at h
  rw [generateKey_of_written (plain_of_generateKey h').written, hpayload', Except.ok.injEq] at h'
  subst h h'
  constructor
  · intro heq
    obtain rfl := hexdigest_inj hsha heq
    have hpayloads : (c.executionId ++ nul :: c.qualname) ++ nul :: pyStr (fingerprint sha256 c) =
        (c'.executionId ++ nul :: c'.qualname) ++ nul :: pyStr (fingerprint sha256 c') := by
      simpa using encode_inj hpayload hpayload'
    obtain ⟨hname, hfingerprint⟩ := Delimited.last_append_inj (nul_not_mem_pyStr sha256 _)
      (nul_not_mem_pyStr sha256 _) hpayloads
    have hencoded := congrArg encode hfingerprint
    rw [encode_pyStr, encode_pyStr, Option.some.injEq, String.toList_inj] at hencoded
    exact ⟨hname, text_inj (hexdigest_inj hsha hencoded)⟩
  · rintro ⟨hname, hwritten⟩
    have hfingerprint : fingerprint sha256 c = fingerprint sha256 c' := by
      rw [fingerprint, hwritten, fingerprint]
    have hpayloads : c.executionId ++ nul :: (c.qualname ++ nul :: pyStr (fingerprint sha256 c)) =
        c'.executionId ++ nul :: (c'.qualname ++ nul :: pyStr (fingerprint sha256 c')) := by
      rw [← hfingerprint]
      simpa using congrArg (· ++ nul :: pyStr (fingerprint sha256 c)) hname
    rw [hpayloads, hpayload', Option.some.injEq] at hpayload
    rw [hpayload]

theorem dicts_canonical (c : DurableCall) : Dicts c.canonical := by
  have hcodes : ((c.kwargs.map fun kv => (Key.str kv.1, kv.2)).map fun kv => kv.1.code).Nodup := by
    rw [List.map_map]
    have hnames : (fun kv : Key × Value => kv.1.code) ∘ (fun kv : PyStr × Value => (Key.str kv.1, kv.2)) =
        (fun s : PyStr => (Key.str s).code) ∘ Prod.fst := rfl
    rw [hnames, ← List.map_map]
    exact c.kwargNames.map fun s t h => congrArg (fun k => k.2.2) h
  have hargs : (Key.str (pyStr "args")).code ≠ (Key.str (pyStr "kwargs")).code := by decide
  refine ⟨by simpa using hargs, c.argDicts, ⟨hcodes, ?_⟩, trivial⟩
  rw [dictsMembers_iff]
  intro kv hkv
  obtain ⟨kwarg, hkwarg, rfl⟩ := List.mem_map.mp hkv
  exact c.kwargDicts kwarg hkwarg

theorem Equal.blurred (h : Equal c c') : Blurred c c' := by
  obtain ⟨hid, hname, hargs, hkwargs⟩ := h
  refine ⟨by rw [hid, hname], written_eq_of_same _ _ (dicts_canonical c) (dicts_canonical c') ?_⟩
  have hkeys : (Key.str (pyStr "kwargs") == Key.str (pyStr "args")) = false := by decide
  simp [DurableCall.canonical, same, sameMembers, List.lookup_cons, hkeys, hargs, hkwargs]

/-- Which calls the keys tell apart. -/
theorem key_separates_iff (hsha : Function.Injective sha256) (c c' : DurableCall) :
    Separates sha256 c c' ↔ Fits c c' := by
  rw [Separates, Fits, generateKey_eq_typeError_iff, generateKey_eq_typeError_iff]
  refine or_congr Iff.rfl (or_congr Iff.rfl ⟨?_, ?_⟩)
  · rintro ⟨key, key', h, h', hiff, -⟩
    exact ⟨plain_of_generateKey h, plain_of_generateKey h', fun hblurred =>
      hiff.mp ((key_eq_iff hsha h h').mpr hblurred)⟩
  · rintro ⟨hplain, hplain', hapart⟩
    obtain ⟨key, h⟩ := generateKey_of_plain sha256 hplain
    obtain ⟨key', h'⟩ := generateKey_of_plain sha256 hplain'
    have hiff : key = key' ↔ Equal c c' :=
      ⟨fun heq => hapart ((key_eq_iff hsha h h').mp heq), fun heq =>
        (key_eq_iff hsha h h').mpr heq.blurred⟩
    refine ⟨key, key', h, h', hiff, fun Blob rows blob hne => ?_⟩
    exact Function.update_of_ne (fun heq => hne (hiff.mp heq.symm)) _ _

section Calls

/-- A call with one argument. -/
def chargeCall (arg : Value) (h : Dicts arg) : DurableCall where
  executionId := pyStr "run-1"
  qualname := pyStr "shop.charge_card"
  args := [arg]
  kwargs := []
  argDicts := ⟨h, trivial⟩
  kwargNames := List.nodup_nil
  kwargDicts := by simp

/-- The texts hashed for the charge of an amount, and their SHA-256. -/
def chargeHashes : List (String × String) :=
  [("\x7b\"args\":[847],\"kwargs\":\x7b\x7d\x7d",
      "45a372a0ba6da4459a77e8b264e683c4c7118540fbb0b891f64c8ef041583b81"),
    ("run-1\x00shop.charge_card\x00" ++
      "45a372a0ba6da4459a77e8b264e683c4c7118540fbb0b891f64c8ef041583b81",
      "7420f009394d49e7e0392a81c80ba58fab80d4f8806e29384aa00ec110f95636"),
    ("\x7b\"args\":[848],\"kwargs\":\x7b\x7d\x7d",
      "93e64db8d11997404290be4b3bec7555d0193163fc3314594a461247def100c7"),
    ("run-1\x00shop.charge_card\x00" ++
      "93e64db8d11997404290be4b3bec7555d0193163fc3314594a461247def100c7",
      "dfa2f808c6da7f17f1df9ea4a540c6c6f90059a5d4f9c1ccbb579c69a7b2e02c")]

/-- SHA-256 on these texts; on any other bytes something that is no digest. -/
def chargeSha256 (bytes : List UInt8) : List UInt8 :=
  (((chargeHashes.map fun h => (utf8 h.1, (Hex.decode h.2).getD [])).find? fun h => h.1 = bytes).map
    (·.2)).getD (0 :: bytes)

theorem chargeSha256_injective : Function.Injective chargeSha256 :=
  Hashing.injective_of_table _ (fun _ _ h => (List.cons.inj h).2) (by decide +kernel)
    fun h hh bytes heq => by
      have hlead : ∀ h ∈ chargeHashes.map fun h => (utf8 h.1, (Hex.decode h.2).getD []),
          h.2.head? ≠ some 0 := by decide +kernel
      exact hlead h hh (by rw [heq]; rfl)

theorem plain_chargeCall {arg : Value} {h : Dicts arg}
    (hwritten : offences (chargeCall arg h).canonical = []) : Plain (chargeCall arg h) :=
  ⟨hwritten, encode_eq_some_iff.mp ⟨_, encode_pyStr "run-1"⟩,
    encode_eq_some_iff.mp ⟨_, encode_pyStr "shop.charge_card"⟩⟩

/-- The keys of two charges are as different as the amounts. -/
theorem key_separates_charges :
    Separates chargeSha256 (chargeCall (.int 847) trivial) (chargeCall (.int 848) trivial) := by
  refine (key_separates_iff chargeSha256_injective _ _).mpr (.inr (.inr
    ⟨plain_chargeCall (by decide +kernel), plain_chargeCall (by decide +kernel), ?_⟩))
  rintro ⟨-, hwritten⟩
  have htexts : text (PyDumps.written (chargeCall (.int 847) trivial).canonical) ≠
      text (PyDumps.written (chargeCall (.int 848) trivial).canonical) := by decide +kernel
  exact absurd (congrArg text hwritten) htexts

/-- A customer by number, and one by the string the number is written as. -/
def byNumber : DurableCall :=
  chargeCall (.dict [(.int 1, .str (pyStr "10 EUR"))]) (by simp [Dicts, DictsMembers])

def byString : DurableCall :=
  chargeCall (.dict [(.str (pyStr "1"), .str (pyStr "10 EUR"))]) (by simp [Dicts, DictsMembers])

/-- The second call gets the result of the first. -/
theorem number_key_collides : ¬ Separates chargeSha256 byNumber byString := by
  have hplain : Plain byNumber := plain_chargeCall (by decide +kernel)
  have hplain' : Plain byString := plain_chargeCall (by decide +kernel)
  have hblurred : Blurred byNumber byString := ⟨rfl, rfl⟩
  have hne : ¬ Equal byNumber byString := by
    rintro ⟨-, -, hargs, -⟩
    exact absurd hargs (by decide)
  rintro (h | h | ⟨key, key', h, h', hiff, -⟩)
  · obtain ⟨key, hkey⟩ := generateKey_of_plain chargeSha256 hplain
    cases h.symm.trans hkey
  · obtain ⟨key, hkey⟩ := generateKey_of_plain chargeSha256 hplain'
    cases h.symm.trans hkey
  · exact hne (hiff.mp ((key_eq_iff chargeSha256_injective h h').mpr hblurred))

end Calls

end JamJet.Durable
