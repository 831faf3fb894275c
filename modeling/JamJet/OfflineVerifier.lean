import JamJet.AuditHash
import JamJet.RuntimeAudit

/-! The offline verifier hashes an exported entry as the runtime does. -/

namespace JamJet

namespace RuntimeAudit

open PyJson (Value Reads)

section Strings

theorem escapes_escapeChar : PyJson.Escapes Hashing.escapeChar := by
  refine ⟨Hashing.escapeChar_ne_quote, fun c rest => ?_⟩
  unfold Hashing.escapeChar
  split
  · subst_vars; rfl
  split
  · subst_vars; rfl
  split
  · subst_vars; rfl
  split
  · subst_vars; rfl
  split
  · subst_vars; rfl
  split
  · subst_vars; rfl
  split
  · subst_vars; rfl
  split
  · rename_i hsmall
    have hhex : ∀ n < 32, PyJson.decodeHex4 '0' '0' (Hashing.hexDigit (n / 16))
        (Hashing.hexDigit (n % 16)) = some n := by decide
    have hlow : c.toNat < 0xd800 ∨ 0xdfff < c.toNat := by omega
    change (PyJson.decodeHex4 '0' '0' (Hashing.hexDigit (c.toNat / 16))
      (Hashing.hexDigit (c.toNat % 16))).bind _ = _
    rw [hhex _ hsmall, Option.bind_some, if_pos hlow]
    simp
  · rename_i hquote hslash _ _ _ _ _ hlarge
    rw [List.singleton_append]
    unfold PyJson.scanChar
    split
    · rename_i heq
      exact absurd (List.cons.inj heq).1 hslash
    · rename_i heq
      obtain ⟨rfl, rfl⟩ := List.cons.inj heq
      rw [if_neg hlarge]
    · rename_i heq
      cases heq

theorem escapeChar_eq (c : Char) : escapeChar c = Hashing.escapeChar c := by
  by_cases hsmall : c.toNat < 32
  · have hall : ∀ n < 32, escapeChar (Char.ofNat n) = Hashing.escapeChar (Char.ofNat n) := by decide
    have hc := hall c.toNat hsmall
    rwa [Char.ofNat_toNat] at hc
  · have hne : ∀ d : Char, d.toNat < 32 → c ≠ d := fun d hd heq => hsmall (heq ▸ hd)
    simp only [escapeChar, Hashing.escapeChar, hsmall, if_false, hne (Char.ofNat 8) (by decide),
      hne (Char.ofNat 12) (by decide), hne '\n' (by decide), hne '\r' (by decide),
      hne '\t' (by decide)]

theorem escape_eq (s : String) : escape s = Hashing.quote s := by
  rw [escape, Hashing.quote, funext escapeChar_eq]

theorem quote_eq (s : String) : Hashing.quote s = PyJson.quoted Hashing.escapeChar s := rfl

theorem joined_eq (texts : List (List Char)) : Hashing.joined texts = PyJson.commas texts := by
  induction texts with
  | nil => rfl
  | cons text texts ih =>
    cases texts with
    | nil => simp [Hashing.joined, PyJson.commas]
    | cons next texts =>
      rw [PyJson.commas, ← ih]
      simp [Hashing.joined]

end Strings

section Numbers

theorem toDigits_lead (n : ℕ) (hn : 0 < n) :
    ∃ c digits, Nat.toDigits 10 n = c :: digits ∧ c ≠ '0' := by
  induction n using Nat.strong_induction_on with
  | _ n ih =>
    by_cases hlt : n < 10
    · have hall : ∀ n < 10, 0 < n → Nat.digitChar n ≠ '0' := by decide
      exact ⟨n.digitChar, [], Nat.toDigits_of_lt_base hlt, hall n hlt hn⟩
    · obtain ⟨c, digits, hdigits, hc⟩ := ih (n / 10) (by omega) (by omega)
      refine ⟨c, digits ++ [(n % 10).digitChar], ?_, hc⟩
      rw [Nat.toDigits_of_base_le (by decide) (by omega), hdigits]
      rfl

theorem unsigned_toDigits (n : ℕ) : PyJson.Unsigned (Nat.toDigits 10 n) := by
  by_cases hn : n = 0
  · rw [hn]
    exact .inl rfl
  · obtain ⟨c, digits, hdigits, hc⟩ := toDigits_lead n (by omega)
    exact .inr ⟨c, digits, hdigits, hc, fun d hd => Hashing.isDigit_toDigits (hdigits ▸ hd)⟩

variable [FloatText]

theorem numeral_numberText (hfloat : ∀ bits, finiteF64 bits = true →
    PyJson.Numeral (FloatText.text bits)) {n : JsonNumber} (hn : (Json.number n).Held) :
    PyJson.Numeral (Hashing.numberText n) := by
  cases n with
  | float bits => exact hfloat bits (by simpa [Json.Held] using hn)
  | int n =>
    cases n with
    | ofNat n =>
      exact ⟨[], _, [], [], by simp [Hashing.numberText], .inl rfl, unsigned_toDigits n, .inl rfl,
        .inl rfl⟩
    | negSucc n =>
      exact ⟨['-'], _, [], [], by simp [Hashing.numberText], .inr rfl, unsigned_toDigits (n + 1),
        .inl rfl, .inl rfl⟩

omit [FloatText] in
theorem all_toDigits (n : ℕ) : (Nat.toDigits 10 n).all Char.isDigit = true :=
  List.all_eq_true.mpr fun _ hc => Hashing.isDigit_toDigits hc

theorem integerOf_numberText (n : ℤ) : integerOf (Hashing.numberText (.int n)) = some n := by
  cases n with
  | ofNat n =>
    have hminus : '-' ∉ Nat.toDigits 10 n := fun hmem =>
      absurd (Hashing.isDigit_toDigits hmem) (by decide)
    change integerOf (Nat.toDigits 10 n) = _
    unfold integerOf
    split
    · rename_i heq
      rw [heq] at hminus
      exact absurd List.mem_cons_self hminus
    · rw [if_pos ⟨Nat.toDigits_ne_nil, all_toDigits n⟩]
      simp
  | negSucc n =>
    change (if _ ∧ _ then _ else _) = _
    rw [if_pos ⟨Nat.toDigits_ne_nil, all_toDigits (n + 1)⟩]
    simp [Int.negSucc_eq]

end Numbers

section Values

variable [FloatText]

mutual

/-- What Python holds of a value that was written and loaded. -/
def valueOf : Json → Value
  | .null => .none
  | .bool b => .bool b
  | .number n => .number (Hashing.numberText n)
  | .string s => .str s
  | .array items => .list (valuesOf items)
  | .object fields => .dict (membersOf fields)

def valuesOf : List Json → List Value
  | [] => []
  | v :: rest => valueOf v :: valuesOf rest

def membersOf : List (String × Json) → List (String × Value)
  | [] => []
  | (k, v) :: rest => (k, valueOf v) :: membersOf rest

end

theorem valuesOf_eq (items : List Json) : valuesOf items = items.map valueOf := by
  induction items with
  | nil => rw [valuesOf, List.map_nil]
  | cons v items ih => rw [valuesOf, ih, List.map_cons]

theorem membersOf_eq (fields : List (String × Json)) :
    membersOf fields = fields.map fun kv => (kv.1, valueOf kv.2) := by
  induction fields with
  | nil => rw [membersOf, List.map_nil]
  | cons kv fields ih => rw [membersOf, ih, List.map_cons]

theorem names_membersOf (fields : List (String × Json)) :
    (membersOf fields).map (·.1) = fields.map (·.1) := by
  rw [membersOf_eq, List.map_map]
  rfl

theorem reads_members {fields : List (String × Json)} (hnodup : (fields.map (·.1)).Nodup)
    (h : ∀ kv ∈ fields, Reads (Hashing.writeCanonical kv.2) (valueOf kv.2)) :
    Reads ('{' :: (Hashing.joined (fields.map Hashing.memberText) ++ ['}']))
      (.dict (membersOf fields)) := by
  rw [joined_eq]
  refine PyJson.reads_dict escapes_escapeChar (by rwa [names_membersOf]) ?_
  rw [membersOf_eq, List.forall₂_map_left_iff, List.forall₂_map_right_iff]
  exact List.forall₂_same.mpr fun kv hkv => ⟨_, rfl, h kv hkv⟩

theorem reads_writeCanonical (hfloat : ∀ bits, finiteF64 bits = true →
    PyJson.Numeral (FloatText.text bits)) (v : Json) (hv : v.Held) :
    Reads (Hashing.writeCanonical v) (valueOf v) := by
  induction hsize : sizeOf v using Nat.strong_induction_on generalizing v with
  | _ n ih =>
  subst hsize
  cases v with
  | null =>
    rw [Hashing.writeCanonical, valueOf]
    exact PyJson.reads_null
  | bool b =>
    cases b
    · rw [Hashing.writeCanonical, valueOf]
      exact PyJson.reads_false
    · rw [Hashing.writeCanonical, valueOf]
      exact PyJson.reads_true
  | number n =>
    rw [Hashing.writeCanonical, valueOf]
    exact PyJson.reads_numeral (numeral_numberText hfloat hv)
  | string s =>
    rw [Hashing.writeCanonical, valueOf, quote_eq]
    exact PyJson.reads_quoted escapes_escapeChar s
  | array items =>
    simp only [Json.Held, Json.heldItems_iff] at hv
    rw [Hashing.writeCanonical_array, valueOf, valuesOf_eq, joined_eq]
    refine PyJson.reads_list ?_
    rw [List.forall₂_map_left_iff, List.forall₂_map_right_iff]
    exact List.forall₂_same.mpr fun x hx => ih _ (Json.sizeOf_item_lt hx) x (hv x hx) rfl
  | object fields =>
    obtain ⟨hsorted, hheld⟩ := hv
    rw [Json.heldFields_iff] at hheld
    rw [Hashing.writeCanonical_object hsorted, valueOf]
    exact reads_members hsorted.nodup_keys fun kv hkv =>
      ih _ (Json.sizeOf_member_lt hkv) kv.2 (hheld kv hkv) rfl

theorem serdeItems_valuesOf {items : List Json}
    (h : ∀ v ∈ items, serdeJson (valueOf v) = .ok (Hashing.writeCanonical v)) :
    serdeItems (valuesOf items) = .ok (Hashing.writeItems items) := by
  induction items with
  | nil => rw [valuesOf, serdeItems, Hashing.writeItems]
  | cons v items ih =>
    obtain ⟨hv, hitems⟩ := List.forall_mem_cons.mp h
    rw [valuesOf, serdeItems, hv, ih hitems, Hashing.writeItems]
    rfl

theorem serdeMembers_membersOf {fields : List (String × Json)}
    (h : ∀ kv ∈ fields, serdeJson (valueOf kv.2) = .ok (Hashing.writeCanonical kv.2)) :
    serdeMembers (membersOf fields) = .ok (Hashing.writeMembers fields) := by
  induction fields with
  | nil => rw [membersOf, serdeMembers, Hashing.writeMembers]
  | cons kv fields ih =>
    obtain ⟨hv, hfields⟩ := List.forall_mem_cons.mp h
    rw [membersOf, serdeMembers, hv, ih hfields, Hashing.writeMembers]
    rfl

theorem serdeJson_valueOf (v : Json) : serdeJson (valueOf v) = .ok (Hashing.writeCanonical v) := by
  induction hsize : sizeOf v using Nat.strong_induction_on generalizing v with
  | _ n ih =>
  subst hsize
  cases v with
  | null => rw [valueOf, serdeJson, Hashing.writeCanonical]
  | bool b => cases b <;> rw [valueOf, serdeJson, Hashing.writeCanonical]
  | number n => rw [valueOf, serdeJson, Hashing.writeCanonical]
  | string s => rw [valueOf, serdeJson, Hashing.writeCanonical, escape_eq]
  | array items =>
    have hitems := serdeItems_valuesOf fun v hv => ih _ (Json.sizeOf_item_lt hv) v rfl
    rw [valueOf, serdeJson, hitems, Hashing.writeCanonical, joined_eq]
    rfl
  | object fields =>
    have hmembers := serdeMembers_membersOf fun kv hkv => ih _ (Json.sizeOf_member_lt hkv) kv.2 rfl
    rw [valueOf, serdeJson, hmembers, Hashing.writeCanonical, joined_eq]
    simp only [← escape_eq]
    rfl

end Values

section Fields

theorem filter_hex (bytes : List UInt8) :
    (bytes.flatMap Hex.encodeByte).filter (· ≠ '-') = bytes.flatMap Hex.encodeByte := by
  refine List.filter_eq_self.mpr fun c hc => ?_
  simp only [ne_eq, decide_eq_true_eq]
  rintro rfl
  exact Hex.not_mem_encodeBytes (by decide) bytes hc

theorem length_hex (bytes : List UInt8) :
    (bytes.flatMap Hex.encodeByte).length = 2 * bytes.length := by
  induction bytes with
  | nil => rfl
  | cons b bytes ih =>
    rw [List.flatMap_cons, List.length_append, ih, List.length_cons]
    simp only [Hex.encodeByte, List.length_cons, List.length_nil]
    omega

theorem part_append {α : Type} (l : List α) {i j k : ℕ} (hij : i ≤ j) (hjk : j ≤ k) :
    (l.take j).drop i ++ (l.take k).drop j = (l.take k).drop i := by
  have hsplit : (l.take k).drop i = ((l.take k).take j).drop i ++ (l.take k).drop j := by
    have hlength : i ≤ ((l.take k).take j).length ∨ (l.take k).length ≤ j := by
      simp only [List.length_take]
      omega
    conv_lhs => rw [← List.take_append_drop j (l.take k)]
    rcases hlength with hlength | hlength
    · rw [List.drop_append_of_le_length hlength]
    · rw [List.drop_eq_nil_of_le hlength]
      simp
  rw [hsplit, List.take_take, Nat.min_eq_left hjk]

theorem uuidOf_hyphenated {bytes : List UInt8} (h : bytes.length = 16) :
    uuidOf (hyphenated bytes) = some bytes := by
  have hall : (bytes.take 16).drop 0 = bytes := by
    rw [List.drop_zero, List.take_of_length_le (by omega)]
  have hparts : ((bytes.take 4).drop 0).flatMap Hex.encodeByte ++
      (((bytes.take 6).drop 4).flatMap Hex.encodeByte ++
      (((bytes.take 8).drop 6).flatMap Hex.encodeByte ++
      (((bytes.take 10).drop 8).flatMap Hex.encodeByte ++
      ((bytes.take 16).drop 10).flatMap Hex.encodeByte))) = bytes.flatMap Hex.encodeByte := by
    rw [← List.flatMap_append, ← List.flatMap_append, ← List.flatMap_append, ← List.flatMap_append,
      part_append bytes (by omega) (by omega), part_append bytes (by omega) (by omega),
      part_append bytes (by omega) (by omega), part_append bytes (by omega) (by omega), hall]
  have hdigits : (hyphenated bytes).toList.filter (· ≠ '-') = bytes.flatMap Hex.encodeByte := by
    rw [hyphenated, String.toList_ofList]
    simp only [List.filter_append, List.filter_cons_of_neg, filter_hex, decide_false, ne_eq,
      not_true_eq_false, Bool.false_eq_true, not_false_eq_true]
    exact hparts
  rw [uuidOf, hdigits, length_hex, h]
  exact Hex.decodeChars_encode bytes

variable {entry : List (String × Value)} {key : String}

theorem uuidField_ok {bytes : List UInt8} (hlength : bytes.length = 16)
    (h : entry.lookup key = some (.str (hyphenated bytes))) : uuidField entry key = .ok bytes := by
  simp only [uuidField, item, h, bind, Except.bind, uuidOf_hyphenated hlength, if_true]

theorem textField_ok {s : String} {optional : Bool} (h : entry.lookup key = some (.str s)) :
    textField entry key optional = .ok s := by
  simp only [textField, h]

theorem textField_optional {s : Option String} (h : entry.lookup key = s.map Value.str) :
    textField entry key true = .ok (s.getD "") := by
  cases s with
  | none => simp only [textField, h, Option.map_none, if_true, Option.getD_none]
  | some s => exact textField_ok h

theorem boolField_ok {b : Bool} (h : entry.lookup key = some (.bool b)) :
    boolField entry key = .ok b := by
  simp only [boolField, h]

theorem intField_ok [FloatText] {n : Int64}
    (h : entry.lookup key = some (.number (Hashing.numberText (.int n.toInt)))) :
    intField entry key = .ok n := by
  have hlow := n.le_toInt
  have hhigh := n.toInt_lt
  simp only [intField, item, h, bind, Except.bind, integerOf_numberText]
  rw [if_pos ⟨by omega, by omega⟩, Int64.ofInt_toInt]

theorem rfc3339_text [Rfc3339] [ChronoSerde] (t : Instant) :
    rfc3339 (ChronoSerde.text t) = Rfc3339.text t := by
  obtain ⟨s, hutc, hz⟩ := ChronoSerde.text_utc t
  have hlist : (ChronoSerde.text t).toList = s.toList ++ ['Z'] := by rw [hz]; simp
  rw [rfc3339, hlist, if_pos (by simp), hutc, List.dropLast_concat]
  simp [String.ofList_append]

theorem chronoText_ne [Rfc3339] [ChronoSerde] (t : Instant) : ChronoSerde.text t ≠ "" := by
  obtain ⟨s, -, hz⟩ := ChronoSerde.text_utc t
  intro hempty
  have hlist := congrArg String.toList (hz.symm.trans hempty)
  simp at hlist

end Fields

section Entries

theorem lookup_filterMap {α : Type} {fields : List (String × Option α)}
    (hnodup : (fields.map (·.1)).Nodup) (key : String) :
    (fields.filterMap fun (name, value) => value.map fun v => (name, v)).lookup key =
      (fields.lookup key).join := by
  induction fields with
  | nil => rfl
  | cons field fields ih =>
    obtain ⟨name, value⟩ := field
    obtain ⟨hnew, hrest⟩ := List.nodup_cons.mp hnodup
    cases value with
    | some v =>
      simp only [List.filterMap_cons, Option.map_some, List.lookup_cons, ih hrest]
      cases key == name <;> rfl
    | none =>
      simp only [List.filterMap_cons, Option.map_none, List.lookup_cons, ih hrest]
      cases hkey : key == name with
      | false => rfl
      | true =>
        rw [beq_iff_eq] at hkey
        have hnone : fields.lookup name = none :=
          List.lookup_eq_none_iff.mpr fun field hfield => by
            simpa using fun heq : name = field.1 => hnew (List.mem_map.mpr ⟨field, hfield, heq.symm⟩)
        rw [hkey, hnone]
        rfl

theorem sublist_filterMap {α : Type} (fields : List (String × Option α)) :
    ((fields.filterMap fun (name, value) => value.map fun v => (name, v)).map (·.1)).Sublist
      (fields.map (·.1)) := by
  induction fields with
  | nil => exact List.Sublist.refl _
  | cons field fields ih =>
    obtain ⟨name, value⟩ := field
    cases value with
    | none => exact ih.cons name
    | some v => exact ih.cons_cons name

variable [Rfc3339] [ChronoSerde]

theorem nodup_jsonFields (e : AuditLogEntry) : (e.jsonFields.map (·.1)).Nodup := by
  simp only [AuditLogEntry.jsonFields, List.map_cons, List.map_nil]
  decide

theorem nodup_members (e : AuditLogEntry) : (e.members.map (·.1)).Nodup :=
  (nodup_jsonFields e).sublist (sublist_filterMap e.jsonFields)

theorem lookup_members (e : AuditLogEntry) (key : String) :
    e.members.lookup key = (e.jsonFields.lookup key).join := lookup_filterMap (nodup_jsonFields e) key

variable [FloatText]

/-- What is loaded of an entry: its members, in whatever order. -/
def Loaded (e : AuditLogEntry) (entry : List (String × Value)) : Prop :=
  ∀ key, entry.lookup key = (e.members.lookup key).map valueOf

variable [Signatures]

omit [Signatures] in
theorem Loaded.member {e : AuditLogEntry} {entry : List (String × Value)} (h : Loaded e entry)
    {key : String} {v : Json} (hv : e.members.lookup key = some v) :
    entry.lookup key = some (valueOf v) := by
  rw [h, hv, Option.map_some]

omit [Signatures] in
theorem Loaded.text {e : AuditLogEntry} {entry : List (String × Value)} (h : Loaded e entry)
    {key s : String} (hs : e.members.lookup key = some (.string s)) :
    textField entry key false = .ok s := by
  have hlookup := h.member hs
  rw [valueOf] at hlookup
  exact textField_ok hlookup

omit [Signatures] in
theorem Loaded.optional {e : AuditLogEntry} {entry : List (String × Value)} (h : Loaded e entry)
    {key : String} {s : Option String} (hs : e.members.lookup key = s.map Json.string) :
    textField entry key true = .ok (s.getD "") := by
  refine textField_optional ?_
  rw [h, hs, Option.map_map]
  cases s with
  | none => rfl
  | some s => simp only [Option.map_some, Function.comp_apply, valueOf]

/-- Of an entry that was loaded the verifier computes the runtime's hash. -/
theorem entryContentHash_loaded {e : AuditLogEntry} {entry : List (String × Value)}
    (h : Loaded e entry) (prevHash : Option String) :
    entryContentHash entry prevHash = .ok (e.contentHash prevHash) := by
  have hexecution : textField entry "execution_id" false = .ok e.executionId := h.text (lookup_members e _)
  have htype : textField entry "event_type" false = .ok e.eventType := h.text (lookup_members e _)
  have hactor : textField entry "actor_id" false = .ok e.actorId := h.text (lookup_members e _)
  have hactorType : textField entry "actor_type" false = .ok e.actorType.asStr := h.text (lookup_members e _)
  have hcreated : textField entry "created_at" false = .ok (ChronoSerde.text e.createdAt) := h.text (lookup_members e _)
  have htenant : textField entry "tenant_id" false = .ok e.tenantId := h.text (lookup_members e _)
  have htool : textField entry "tool_call_hash" true = .ok (e.toolCallHash.getD "") :=
    h.optional (lookup_members e _)
  have hpolicy : textField entry "policy_decision" true = .ok (e.policyDecision.getD "") :=
    h.optional (lookup_members e _)
  have hrequest : textField entry "http_request_id" true = .ok (e.httpRequestId.getD "") :=
    h.optional (lookup_members e _)
  have hmethod : textField entry "http_method" true = .ok (e.httpMethod.getD "") :=
    h.optional (lookup_members e _)
  have hpath : textField entry "http_path" true = .ok (e.httpPath.getD "") :=
    h.optional (lookup_members e _)
  have hip : textField entry "ip_address" true = .ok (e.ipAddress.getD "") :=
    h.optional (lookup_members e _)
  have hexpires : textField entry "expires_at" true = .ok ((e.expiresAt.map ChronoSerde.text).getD "") :=
    h.optional (lookup_members e _)
  have hid : uuidField entry "id" = .ok e.id.toList := by
    have hlookup := h.member (lookup_members e "id")
    rw [valueOf] at hlookup
    exact uuidField_ok (by simp) hlookup
  have heventId : uuidField entry "event_id" = .ok e.eventId.toList := by
    have hlookup := h.member (lookup_members e "event_id")
    rw [valueOf] at hlookup
    exact uuidField_ok (by simp) hlookup
  have hsequence : intField entry "sequence" = .ok e.sequence := by
    have hlookup := h.member (lookup_members e "sequence")
    rw [valueOf] at hlookup
    exact intField_ok hlookup
  have hraw : item entry "raw_event" = .ok (valueOf e.rawEvent) := by
    have hlookup := h.member (lookup_members e "raw_event")
    rw [item, hlookup]
  have hredacted : boolField entry "redacted" = .ok e.redacted := by
    have hlookup := h.member (lookup_members e "redacted")
    rw [valueOf] at hlookup
    exact boolField_ok hlookup
  have hpresent : (entry.lookup "tenant_id").isSome = true := by
    rw [h.member (lookup_members e "tenant_id")]
    rfl
  have hexpiry : (if ((e.expiresAt.map ChronoSerde.text).getD "") = "" then []
      else utf8 (rfc3339 ((e.expiresAt.map ChronoSerde.text).getD ""))) =
      utf8 ((e.expiresAt.map Rfc3339.text).getD "") := by
    cases e.expiresAt with
    | none => rfl
    | some t =>
      simp only [Option.map_some, Option.getD_some, rfc3339_text]
      rw [if_neg (chronoText_ne t)]
  have hflag : (if e.redacted = true then (1 : UInt8) else 0) = e.redacted.toUInt8 := by
    cases e.redacted <;> rfl
  unfold entryContentHash
  simp only [hid, heventId, hexecution, hsequence, htype, hactor, hactorType, htool, hpolicy, hrequest,
    hmethod, hpath, hip, hcreated, hraw, serdeJson_valueOf, hpresent, if_true, htenant, hexpires,
    hredacted, hexpiry, hflag, rfc3339_text, bind, Except.bind, pure, Except.pure]
  rfl

omit [Rfc3339] [ChronoSerde] [Signatures] in
theorem lookup_membersOf (fields : List (String × Json)) (key : String) :
    (membersOf fields).lookup key = (fields.lookup key).map valueOf := by
  induction fields with
  | nil => rw [membersOf, List.lookup_nil, List.lookup_nil, Option.map_none]
  | cons kv fields ih =>
    obtain ⟨name, v⟩ := kv
    rw [membersOf, List.lookup_cons, List.lookup_cons, ih]
    cases key == name <;> rfl

omit [Rfc3339] [ChronoSerde] [FloatText] [Signatures] in
theorem lookup_eq_get {α : Type} (m : List (String × α)) (key : String) :
    m.lookup key = BTree.get m key := by
  induction m with
  | nil => rfl
  | cons kv m ih =>
    rw [BTree.get_cons, List.lookup_cons, ih]
    by_cases h : key = kv.1
    · simp [h]
    · have hne : (key == kv.1) = false := by simpa using h
      rw [hne, if_neg (Ne.symm h)]

omit [Signatures] in
theorem loaded_members (e : AuditLogEntry) : Loaded e (membersOf e.members) :=
  lookup_membersOf e.members

omit [Signatures] in
theorem loaded_toJson (e : AuditLogEntry) :
    Loaded e (membersOf (BTree.insertAll [] e.members)) := by
  intro key
  rw [lookup_membersOf, lookup_eq_get, BTree.get_insertAll_of_nodup (nodup_members e),
    BTree.get_nil, Option.or_none, lookup_eq_get]

omit [FloatText] [Signatures] in
theorem held_members (e : AuditLogEntry) : ∀ kv ∈ e.members, kv.2.Held := by
  intro kv hkv
  obtain ⟨field, hfield, hvalue⟩ := List.mem_filterMap.mp hkv
  have hheld : ∀ field ∈ e.jsonFields, ∀ v, field.2 = some v → v.Held := by
    simp only [AuditLogEntry.jsonFields, List.forall_mem_cons, List.not_mem_nil, false_implies,
      implies_true, and_true, Option.some.injEq, forall_eq', Option.map_eq_some_iff,
      forall_exists_index, and_imp, forall_apply_eq_imp_iff₂]
    simp [Json.Held, e.rawEvent_held]
  obtain ⟨v, hv, rfl⟩ := Option.map_eq_some_iff.mp hvalue
  exact hheld field hfield v hv

variable (hfloat : ∀ bits, finiteF64 bits = true → PyJson.Numeral (FloatText.text bits))

include hfloat

omit [Signatures] in
theorem reads_jsonText (e : AuditLogEntry) : Reads e.jsonText (.dict (membersOf e.members)) :=
  reads_members (nodup_members e) fun kv hkv =>
    reads_writeCanonical hfloat kv.2 (held_members e kv hkv)

omit [Signatures] in
theorem loadEntries_entriesText (entries : List AuditLogEntry) : loadEntries (entriesText entries) =
    .ok (entries.map fun e => Value.dict (membersOf e.members)) := by
  have hreads : Reads (entriesText entries)
      (.list (entries.map fun e => Value.dict (membersOf e.members))) := by
    rw [entriesText, joined_eq]
    refine PyJson.reads_list ?_
    rw [List.forall₂_map_left_iff, List.forall₂_map_right_iff]
    exact List.forall₂_same.mpr fun e _ => reads_jsonText hfloat e
  rw [loadEntries, PyJson.loads_eq_some hreads]

omit [Signatures] in
theorem loadEntries_listAuditLogBody (entries : List AuditLogEntry) (total limit offset : ℕ) :
    loadEntries (listAuditLogBody entries total limit offset) =
      .ok (entries.map fun e => Value.dict (membersOf (BTree.insertAll [] e.members))) := by
  let fields : List (String × Json) :=
    [("items", .array (entries.map AuditLogEntry.toJson)), ("total", Json.ofNat total),
      ("limit", Json.ofNat limit), ("offset", Json.ofNat offset)]
  have hitems : ∀ v ∈ entries.map AuditLogEntry.toJson, v.Held := by
    intro v hv
    obtain ⟨e, -, rfl⟩ := List.mem_map.mp hv
    exact held_ofFields (held_members e)
  have hheld : (Json.ofFields fields).Held := by
    refine held_ofFields ?_
    simp only [fields, List.forall_mem_cons, List.not_mem_nil, false_implies, implies_true, and_true]
    exact ⟨Json.heldItems_iff.mpr hitems, trivial, trivial, trivial⟩
  have hvalue : valueOf (Json.ofFields fields) = .dict (membersOf (BTree.insertAll [] fields)) := by
    rw [Json.ofFields, valueOf]
  have hlookup : (membersOf (BTree.insertAll [] fields)).lookup "items" =
      some (.list (entries.map fun e => Value.dict (membersOf (BTree.insertAll [] e.members)))) := by
    have hnames : (fields.map Prod.fst).Nodup := by
      change ["items", "total", "limit", "offset"].Nodup
      decide
    rw [lookup_membersOf, lookup_eq_get, BTree.get_insertAll_of_nodup hnames]
    change some (valueOf (.array (entries.map AuditLogEntry.toJson))) = _
    rw [valueOf, valuesOf_eq, List.map_map]
    have hentry : valueOf ∘ AuditLogEntry.toJson =
        fun e => Value.dict (membersOf (BTree.insertAll [] e.members)) := by
      funext e
      rw [Function.comp_apply, AuditLogEntry.toJson, Json.ofFields, valueOf]
    rw [hentry]
  have hreads := reads_writeCanonical hfloat (Json.ofFields fields) hheld
  rw [loadEntries, listAuditLogBody, PyJson.loads_eq_some hreads, hvalue]
  simp only [hlookup, Option.getD_some]

end Entries

end RuntimeAudit

section Agreement

variable [Rfc3339] [ChronoSerde] [FloatText] [Signatures]

open RuntimeAudit

/-- An exported entry is hashed offline as the runtime hashed it, from the body of `GET /audit` and
from the serialized entries themselves, when doubles are written as JSON numbers. -/
theorem offline_hash_agrees
    (hfloat : ∀ bits, finiteF64 bits = true → PyJson.Numeral (FloatText.text bits))
    (entries : List AuditLogEntry) (total limit offset : ℕ) :
    ∀ text ∈ [listAuditLogBody entries total limit offset, entriesText entries],
      ∃ loaded, loadEntries text = .ok loaded ∧
        List.Forall₂ (fun (e : AuditLogEntry) value => ∃ entry, value = PyJson.Value.dict entry ∧
          entryContentHash entry e.prevHash = .ok (e.contentHash e.prevHash)) entries loaded := by
  simp only [List.forall_mem_cons, List.not_mem_nil, false_implies, implies_true, and_true]
  refine ⟨⟨_, loadEntries_listAuditLogBody hfloat entries total limit offset, ?_⟩,
    ⟨_, loadEntries_entriesText hfloat entries, ?_⟩⟩
  · rw [List.forall₂_map_right_iff]
    exact List.forall₂_same.mpr fun e _ =>
      ⟨_, rfl, entryContentHash_loaded (loaded_toJson e) e.prevHash⟩
  · rw [List.forall₂_map_right_iff]
    exact List.forall₂_same.mpr fun e _ =>
      ⟨_, rfl, entryContentHash_loaded (loaded_members e) e.prevHash⟩

end Agreement

open RuntimeAudit

/-- Doubles written as a fraction; that of zero is `0.0`. -/
@[reducible]
def fractionText : FloatText where
  text bits := '0' :: '.' :: Nat.toDigits 10 bits.toNat
  text_inj a b _ _ h :=
    BitVec.eq_of_toNat_eq (Hashing.toDigits_inj (List.cons.inj (List.cons.inj h).2).2)
  text_chars a _ c hc := by
    rcases List.mem_cons.mp hc with rfl | hc
    · exact .inl rfl
    rcases List.mem_cons.mp hc with rfl | hc
    · exact .inr (by decide)
    · exact .inl (Hashing.isDigit_toDigits hc)
  text_fraction a _ := .inl (List.mem_cons_of_mem _ List.mem_cons_self)

theorem numeral_fractionText (bits : BitVec 64) : PyJson.Numeral (fractionText.text bits) :=
  ⟨[], ['0'], '.' :: Nat.toDigits 10 bits.toNat, [], by rw [List.append_nil]; rfl, .inl rfl, .inl rfl,
    .inr ⟨_, rfl, Nat.toDigits_ne_nil, fun _ hd => Hashing.isDigit_toDigits hd⟩, .inl rfl⟩

@[reducible]
def firstNanosSerde : @ChronoSerde firstNanos :=
  @ChronoSerde.mk firstNanos
    (fun t => String.ofList ("1970-01-01T00:00:00.00000000".toList ++ Nat.toDigits 10 t) ++ "Z")
    fun t => ⟨String.ofList ("1970-01-01T00:00:00.00000000".toList ++ Nat.toDigits 10 t),
      String.toList_injective (by simp [Rfc3339.text]), rfl⟩

/-- A record whose event holds a nested object, a control character, a letter outside ASCII and a
double, and that expires. -/
def exportedRecord : AuditLogEntry :=
  { stepRecord 2 2 with
    rawEvent := .object [("note", .string "caf\u00e9\x07"),
      ("output", .object [("score", .number (.float 0)), ("tries", .number (.int (-3)))])]
    rawEvent_held := by
      have hinner : (Json.object [("score", .number (.float 0)), ("tries", .number (.int (-3)))]).Held :=
        held_object (by unfold BTree.Sorted; decide) (by simp [Json.Held, finiteF64])
      refine held_object (by unfold BTree.Sorted; decide) (List.forall_mem_cons.mpr ⟨trivial, ?_⟩)
      simpa using hinner
    expiresAt := some 7 }

theorem exported_record_hashed : ∃ loaded,
    loadEntries (@listAuditLogBody firstNanos firstNanosSerde fractionText [exportedRecord] 1 50 0) =
        .ok loaded ∧
      List.Forall₂ (fun (e : AuditLogEntry) value => ∃ entry, value = PyJson.Value.dict entry ∧
        @entryContentHash plainSignatures entry e.prevHash =
          .ok (@AuditLogEntry.contentHash fractionText firstNanos plainSignatures e e.prevHash))
        [exportedRecord] loaded :=
  @offline_hash_agrees firstNanos firstNanosSerde fractionText plainSignatures
    (fun bits _ => numeral_fractionText bits) [exportedRecord] 1 50 0 _ List.mem_cons_self

end JamJet
