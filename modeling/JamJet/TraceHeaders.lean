import JamJet.AgentTool
import JamJet.AuditSigner
import JamJet.ModelAllowlist
import JamJet.PercentText

/-! The headers in which the Python SDK hands its trace, agent, session and user on to another
service, and what is read from them there. -/

namespace JamJet.Propagation

open AgentTool (fromUtf8 fromUtf8_utf8)
open Percent (isQuoted quoteBytes unquoteBytes)
open Policy.Python (isSpace strip)

section Text

/-- `urllib.parse.quote(s, safe="")`. -/
def quote (s : List Char) : List Char := quoteBytes (AgentTool.utf8 s)

variable (malformed : List UInt8 → List Char)

/-- `bytes.decode("utf-8", "replace")`, with what becomes of bytes that are no UTF-8 left open. -/
def decodeReplace (bytes : List UInt8) : List Char := (fromUtf8 bytes).getD (malformed bytes)

/-- The text behind a run of ASCII characters, of which so many have been read. -/
def unquoteRuns (run : List Char) : List Char → List Char
  | [] => decodeReplace malformed (unquoteBytes run)
  | c :: s =>
    if c.toNat < 128 then unquoteRuns (run ++ [c]) s
    else decodeReplace malformed (unquoteBytes run) ++ c :: unquoteRuns [] s

/-- `urllib.parse.unquote`. -/
def unquote (s : List Char) : List Char := if '%' ∈ s then unquoteRuns malformed [] s else s

end Text

/-- The string that is there and not empty. -/
def truthy (s : Option (List Char)) : Option (List Char) := s.filter (· ≠ [])

/-- `str.lower`, on names of headers: of those characters only that become letters of the two names
below. -/
def lower (name : String) : String := String.ofList (name.toList.map Char.toLower)

/-- How a mapping tells its keys apart: they differ when more than their case differs, and maybe when
only this does. -/
structure Mapping where
  fold : String → String
  lower_of_fold : ∀ k k', fold k = fold k' → lower k = lower k'

abbrev Headers := List (String × List Char)

namespace Headers

variable (m : Mapping)

def get (headers : Headers) (key : String) : Option (List Char) :=
  (headers.find? fun h => m.fold h.1 = m.fold key).map (·.2)

def set : Headers → String → List Char → Headers
  | [], key, value => [(key, value)]
  | h :: headers, key, value =>
    if m.fold h.1 = m.fold key then (key, value) :: headers else h :: set headers key value

/-- `_get_ci`. -/
def getCi (headers : Headers) (key : String) : Option (List Char) :=
  (get m headers key).or <| (get m headers (lower key)).or <|
    (headers.find? fun h => lower h.1 = lower key).map (·.2)

end Headers

def TRACEPARENT_HEADER : String := "traceparent"
def TRACESTATE_HEADER : String := "tracestate"

/-- The key of the own entry, with its sign. -/
def jjEq : List Char := "jj=".toList

structure UserContext where
  sessionId : Option (List Char)
  endUserId : Option (List Char)
  endUserEmail : Option (List Char)
  tags : List (List Char)

structure OriginatingContext where
  traceId : List Char
  spanId : List Char
  agentId : Option (List Char)
  agentName : Option (List Char)

section Inject

variable (sha256Hex : List Char → List Char)

/-- The first hex digits of a hash stand in for an id of another form. -/
def traceIdToHex (traceId : List Char) : List Char :=
  if "tr_".toList <+: traceId ∧ traceId.length = 35 then traceId.drop 3
  else (sha256Hex traceId).take 32

def spanIdToHex (spanId : List Char) : List Char :=
  if "sp_".toList <+: spanId ∧ 19 ≤ spanId.length then (spanId.drop 3).take 16
  else (sha256Hex spanId).take 16

def buildTraceparent (traceId spanId : List Char) : List Char :=
  "00-".toList ++ traceIdToHex sha256Hex traceId ++ '-' :: (spanIdToHex sha256Hex spanId ++ "-01".toList)

/-- A field of the own entry, of a value that is there and not empty. -/
def field (key : String) (encode : List Char → List Char) (value : Option (List Char)) :
    List (List Char) :=
  (truthy value).toList.map fun value => key.toList ++ ':' :: encode value

def buildTracestate (agentId agentName sessionId endUserId : Option (List Char)) :
    Option (List Char) :=
  let parts := field "ag" (fun id => id.filter (· ≠ '-')) agentId ++ field "an" quote agentName ++
    field "si" quote sessionId ++ field "eu" quote endUserId
  if parts.isEmpty then none else some (jjEq ++ [';'].intercalate parts)

/-- What is read of the scope that calls. -/
structure Caller where
  traceId : List Char
  agentName : Option (List Char)
  user : Option UserContext

/-- The ids of a call, some of which may be given. -/
def callIds (caller : Caller) (traceId spanId : Option (List Char)) : List Char × List Char :=
  match traceId, spanId with
  | some traceId, some spanId => (traceId, spanId)
  | _, _ =>
    let traceId := (truthy traceId).getD caller.traceId
    let stable := if "tr_".toList <+: traceId then (traceId.drop 3).take 32 else traceId.take 32
    (traceId, spanId.getD ("sp_".toList ++ stable))

/-- The agent of a call: the current one when none is given. -/
def callName (caller : Caller) (agentId agentName : Option (List Char)) : Option (List Char) :=
  if agentId.isNone && agentName.isNone then caller.agentName else agentName

/-- The own entry is put first, unless the key and its sign occur in what is there. -/
def writeTracestate (m : Mapping) (headers : Headers) (tracestate : Option (List Char)) : Headers :=
  match tracestate with
  | none => headers
  | some tracestate =>
    match truthy (headers.get m TRACESTATE_HEADER) with
    | none => headers.set m TRACESTATE_HEADER tracestate
    | some existing =>
      if jjEq <:+: existing then headers
      else headers.set m TRACESTATE_HEADER (tracestate ++ ',' :: existing)

def injectHeaders (m : Mapping) (caller : Caller) (headers : Headers)
    (traceId spanId agentId agentName : Option (List Char)) : Headers :=
  let (traceId, spanId) := callIds caller traceId spanId
  let headers := headers.set m TRACEPARENT_HEADER (buildTraceparent sha256Hex traceId spanId)
  writeTracestate m headers (buildTracestate agentId (callName caller agentId agentName)
    (caller.user.bind (·.sessionId)) (caller.user.bind (·.endUserId)))

end Inject

section Extract

variable (malformed : List UInt8 → List Char)

def isHex (c : Char) : Bool := c ∈ "0123456789abcdef".toList

/-- `_TRACEPARENT_RE`, on a text that is stripped. -/
def matchTraceparent (s : List Char) : Option (List Char × List Char) :=
  let trace := (s.drop 3).take 32
  let parent := (s.drop 36).take 16
  let flags := (s.drop 53).take 2
  if s = "00-".toList ++ trace ++ '-' :: (parent ++ '-' :: flags) ∧
      trace.length = 32 ∧ parent.length = 16 ∧ flags.length = 2 ∧
      (trace ++ parent ++ flags).all isHex then some (trace, parent)
  else none

structure ParsedTraceState where
  agentId : Option (List Char)
  agentName : Option (List Char)
  sessionId : Option (List Char)
  endUserId : Option (List Char)

/-- The fields of a body, in which a later one counts. -/
def fieldOf (body : List Char) (key : String) : Option (List Char) :=
  let fields := (body.splitOn ';').filterMap fun kv =>
    (splitOnce ':' kv).map fun kv => (strip kv.1, strip kv.2)
  fields.reverse.lookup key.toList

/-- The first entry of the own key. -/
def parseJjTracestate (tracestate : List Char) : ParsedTraceState :=
  match ((tracestate.splitOn ',').map strip).find? fun entry => jjEq <+: entry with
  | none => ⟨none, none, none, none⟩
  | some entry =>
    let body := entry.drop 3
    ⟨truthy (fieldOf body "ag"), (fieldOf body "an").map (unquote malformed),
      (fieldOf body "si").map (unquote malformed), (fieldOf body "eu").map (unquote malformed)⟩

/-- The user context, of which only the gaps are filled. -/
def adopt (existing : Option UserContext) (parsed : ParsedTraceState) : Option UserContext :=
  if (truthy parsed.sessionId).isSome || (truthy parsed.endUserId).isSome then
    some {
      sessionId := (truthy (existing.bind (·.sessionId))).or parsed.sessionId
      endUserId := (truthy (existing.bind (·.endUserId))).or parsed.endUserId
      endUserEmail := existing.bind (·.endUserEmail)
      tags := (existing.map (·.tags)).getD [] }
  else existing

/-- What is returned, and the user context afterwards. -/
def extractHeaders (m : Mapping) (user : Option UserContext) (headers : Headers) :
    Option OriginatingContext × Option UserContext :=
  match (truthy (headers.getCi m TRACEPARENT_HEADER)).bind fun tp => matchTraceparent (strip tp) with
  | none => (none, user)
  | some (trace, parent) =>
    let parsed := match truthy (headers.getCi m TRACESTATE_HEADER) with
      | none => ⟨none, none, none, none⟩
      | some ts => parseJjTracestate malformed ts
    (some ⟨"tr_".toList ++ trace, "sp_".toList ++ parent ++ List.replicate 16 '0', parsed.agentId,
      parsed.agentName⟩, adopt user parsed)

end Extract

/-! ### Texts that come through -/

section Texts

variable {malformed : List UInt8 → List Char} {s run : List Char}

theorem utf8EncodeChar_of_lt {c : Char} (h : c.toNat < 128) :
    String.utf8EncodeChar c = [UInt8.ofNat c.toNat] := by
  have hval : c.val.toNat ≤ 127 := by
    change c.toNat ≤ 127
    omega
  simp only [String.utf8EncodeChar, hval, if_true]
  rfl

theorem toNat_of_isQuoted {c : Char} (h : isQuoted c = true) : c.toNat < 128 :=
  Percent.of_isQuoted (fun c => c.toNat < 128) (by decide +kernel) h

theorem unquoteRuns_of_ascii (h : ∀ c ∈ s, c.toNat < 128) :
    unquoteRuns malformed run s = decodeReplace malformed (unquoteBytes (run ++ s)) := by
  induction s generalizing run with
  | nil => rw [unquoteRuns, List.append_nil]
  | cons c s ih =>
    rw [unquoteRuns, if_pos (h c List.mem_cons_self),
      ih fun d hd => h d (List.mem_cons_of_mem _ hd), List.append_assoc, List.singleton_append]

theorem quote_of_not_mem (h : '%' ∉ quote s) : quote s = s := by
  have hall := Percent.unreserved_of_not_mem h
  have hbytes : AgentTool.utf8 (quote s) = AgentTool.utf8 s := by
    rw [quote, quoteBytes, AgentTool.utf8, List.flatMap_assoc]
    refine (List.flatMap_congr fun b hb => ?_).trans (List.flatMap_singleton' _)
    have hb := hall b hb
    rw [← UInt8.ofNat_toNat (x := b)] at hb
    obtain ⟨-, hnat, hlt⟩ := Percent.unreserved_of_lt b.toNat b.toNat_lt hb
    rw [UInt8.ofNat_toNat] at hb
    rw [Percent.quoteByte, if_pos hb, List.flatMap_singleton, utf8EncodeChar_of_lt (by omega), hnat,
      UInt8.ofNat_toNat]
  have hread := congrArg fromUtf8 hbytes
  rw [fromUtf8_utf8, fromUtf8_utf8] at hread
  exact Option.some.inj hread

theorem unquote_quote (s : List Char) : unquote malformed (quote s) = s := by
  unfold unquote
  split
  · have hascii : ∀ c ∈ quote s, c.toNat < 128 := fun c hc =>
      toNat_of_isQuoted (Percent.isQuoted_of_mem hc)
    rw [unquoteRuns_of_ascii hascii, List.nil_append, quote, Percent.unquoteBytes_quoteBytes,
      decodeReplace, fromUtf8_utf8]
    rfl
  · next h => exact quote_of_not_mem h

theorem strip_of_not_space (h : ∀ c ∈ s, isSpace c = false) : strip s = s := by
  have hfront : s.dropWhile isSpace = s := List.dropWhile_eq_self_iff.mpr fun hs => by
    simp [h _ (List.getElem_mem hs)]
  rw [strip, hfront]
  exact List.rdropWhile_eq_self_iff.mpr fun hs => by simp [h _ (List.getLast_mem hs)]

end Texts

/-! ### The own entry -/

section Entry

/-- Neither space nor separator. -/
def Plain (c : Char) : Prop := isSpace c = false ∧ c ∉ [',', ';', ':']

instance (c : Char) : Decidable (Plain c) := inferInstanceAs (Decidable (_ ∧ _))

theorem plain_of_isQuoted {c : Char} (h : isQuoted c = true) : Plain c :=
  Percent.of_isQuoted Plain (by decide +kernel) h

theorem plain_of_isHex {c : Char} (h : isHex c = true) : Plain c := by
  have hall : ∀ c ∈ "0123456789abcdef".toList, Plain c := by decide
  exact hall c (by simpa [isHex] using h)

/-- Keys and values as they stand in the body of an entry. -/
def written (fields : List (List Char × List Char)) : List Char :=
  [';'].intercalate (fields.map fun kv => kv.1 ++ ':' :: kv.2)

variable {malformed : List UInt8 → List Char} {fields : List (List Char × List Char)}
  {existing : List Char}

theorem fieldOf_written (hne : fields ≠ [])
    (hplain : ∀ kv ∈ fields, ∀ c ∈ kv.1 ++ kv.2, Plain c) (key : String) :
    fieldOf (written fields) key = fields.reverse.lookup key.toList := by
  have hsplit : (written fields).splitOn ';' = fields.map fun kv => kv.1 ++ ':' :: kv.2 := by
    refine List.splitOn_intercalate ';' (fun part hpart hmem => ?_) (by simpa using hne)
    obtain ⟨kv, hkv, rfl⟩ := List.mem_map.mp hpart
    have hc : ';' ∈ kv.1 ++ kv.2 := by simpa using hmem
    exact absurd (hplain kv hkv _ hc) (by decide)
  have hread : ∀ kv ∈ fields, ((splitOnce ':' (kv.1 ++ ':' :: kv.2)).map fun kv =>
      (strip kv.1, strip kv.2)) = some kv := fun kv hkv => by
    have hcolon : ':' ∉ kv.1 := fun hmem =>
      absurd (hplain kv hkv _ (List.mem_append_left _ hmem)) (by decide)
    rw [splitOnce_append hcolon, Option.map_some,
      strip_of_not_space fun c hc => (hplain kv hkv c (List.mem_append_left _ hc)).1,
      strip_of_not_space fun c hc => (hplain kv hkv c (List.mem_append_right _ hc)).1]
  unfold fieldOf
  rw [hsplit, List.filterMap_map]
  exact congrArg (fun fields => List.lookup key.toList fields.reverse)
    ((List.filterMap_congr hread).trans List.filterMap_some)

theorem mem_written {c : Char} (h : c ∈ written fields) :
    (∃ kv ∈ fields, c ∈ kv.1 ++ kv.2) ∨ c = ':' ∨ c = ';' := by
  induction fields with
  | nil => cases h
  | cons kv fields ih =>
    have hpart : c ∈ kv.1 ++ ':' :: kv.2 → c ∈ kv.1 ++ kv.2 ∨ c = ':' := by
      simp only [List.mem_append, List.mem_cons]
      tauto
    cases fields with
    | nil =>
      rw [written, List.map_singleton, List.intercalate_singleton] at h
      exact (hpart h).imp (fun hc => ⟨kv, List.mem_cons_self, hc⟩) .inl
    | cons kv' fields =>
      rw [written, List.map_cons, List.map_cons, List.intercalate_cons_cons, List.mem_append,
        List.mem_append] at h
      rcases h with (h | h) | h
      · exact (hpart h).imp (fun hc => ⟨kv, List.mem_cons_self, hc⟩) .inl
      · exact .inr (.inr (List.mem_singleton.mp h))
      · refine (ih h).imp_left fun hfound => ?_
        obtain ⟨found, hfound, hc⟩ := hfound
        exact ⟨found, List.mem_cons_of_mem _ hfound, hc⟩

theorem separate_own (hplain : ∀ kv ∈ fields, ∀ c ∈ kv.1 ++ kv.2, Plain c) :
    ∀ c ∈ jjEq ++ written fields, c ≠ ',' ∧ isSpace c = false := by
  intro c hc
  rcases List.mem_append.mp hc with hc | hc
  · have hall : ∀ c ∈ jjEq, c ≠ ',' ∧ isSpace c = false := by decide
    exact hall c hc
  · rcases mem_written hc with ⟨kv, hkv, hc⟩ | rfl | rfl
    · obtain ⟨hspace, hsep⟩ := hplain kv hkv c hc
      exact ⟨fun heq => hsep (by simp [heq]), hspace⟩
    · decide
    · decide

theorem comma_own (hplain : ∀ kv ∈ fields, ∀ c ∈ kv.1 ++ kv.2, Plain c) :
    ',' ∉ jjEq ++ written fields := fun hmem => (separate_own hplain _ hmem).1 rfl

theorem parse_own (hne : fields ≠ []) (hplain : ∀ kv ∈ fields, ∀ c ∈ kv.1 ++ kv.2, Plain c)
    (h : existing = [] ∨ ∃ rest, existing = ',' :: rest) :
    parseJjTracestate malformed (jjEq ++ written fields ++ existing) =
      ⟨truthy (fields.reverse.lookup "ag".toList),
        (fields.reverse.lookup "an".toList).map (unquote malformed),
        (fields.reverse.lookup "si".toList).map (unquote malformed),
        (fields.reverse.lookup "eu".toList).map (unquote malformed)⟩ := by
  have hcomma := comma_own hplain
  have hstrip : strip (jjEq ++ written fields) = jjEq ++ written fields :=
    strip_of_not_space fun c hc => (separate_own hplain c hc).2
  have hsplit : ∃ rest, (jjEq ++ written fields ++ existing).splitOn ',' =
      (jjEq ++ written fields) :: rest := by
    rcases h with rfl | ⟨rest, rfl⟩
    · exact ⟨[], by rw [List.append_nil]; exact List.splitOn_eq_singleton hcomma⟩
    · exact ⟨rest.splitOn ',', List.splitOn_append_cons_self_of_not_mem hcomma _⟩
  obtain ⟨rest, hsplit⟩ := hsplit
  unfold parseJjTracestate
  rw [hsplit, List.map_cons, hstrip, List.find?_cons_of_pos (by simp)]
  have hbody : (jjEq ++ written fields).drop 3 = written fields := rfl
  simp only [hbody, fieldOf_written hne hplain]

end Entry

/-! ### The headers -/

/-- The digits of an id. -/
structure Uuid where
  digits : List Char
  length_digits : digits.length = 32
  isHex_digits : ∀ c ∈ digits, isHex c = true

def Uuid.traceId (id : Uuid) : List Char := "tr_".toList ++ id.digits

def Uuid.spanId (id : Uuid) : List Char := "sp_".toList ++ id.digits

/-- The entries of a tracestate. -/
def entriesOf (tracestate : List Char) : List (List Char) :=
  ((tracestate.splitOn ',').map strip).filter (· ≠ [])

/-- Those of a mapping, under any spelling of the name. -/
def stateEntries (headers : Headers) : List (List Char) :=
  (headers.filter fun h => lower h.1 = TRACESTATE_HEADER).flatMap fun h => entriesOf h.2

section Headers

variable {m : Mapping} {headers : Headers} {key key' : String} {value entry : List Char}
  {sha256Hex : List Char → List Char} {traceId spanId : Uuid}

theorem Headers.get_cons_of_eq {h : String × List Char} (hkey : m.fold h.1 = m.fold key) :
    Headers.get m (h :: headers) key = some h.2 := by
  simp [Headers.get, hkey]

theorem Headers.get_cons_of_ne {h : String × List Char} (hkey : m.fold h.1 ≠ m.fold key) :
    Headers.get m (h :: headers) key = Headers.get m headers key := by
  simp [Headers.get, hkey]

theorem Headers.get_set : (headers.set m key value).get m key' =
    if m.fold key = m.fold key' then some value else headers.get m key' := by
  induction headers with
  | nil => by_cases h : m.fold key = m.fold key' <;> simp [Headers.set, Headers.get, h]
  | cons h headers ih =>
    unfold Headers.set
    by_cases hkey : m.fold h.1 = m.fold key
    · rw [if_pos hkey]
      by_cases hkey' : m.fold key = m.fold key'
      · rw [if_pos hkey', Headers.get_cons_of_eq hkey']
      · rw [if_neg hkey', Headers.get_cons_of_ne hkey', Headers.get_cons_of_ne (hkey ▸ hkey')]
    · rw [if_neg hkey]
      by_cases hkey' : m.fold h.1 = m.fold key'
      · have hne : ¬ m.fold key = m.fold key' := fun heq => hkey (hkey'.trans heq.symm)
        rw [if_neg hne, Headers.get_cons_of_eq hkey', Headers.get_cons_of_eq hkey']
      · rw [Headers.get_cons_of_ne hkey', Headers.get_cons_of_ne hkey', ih]

theorem mem_stateEntries : entry ∈ stateEntries headers ↔
    ∃ h ∈ headers, lower h.1 = TRACESTATE_HEADER ∧ entry ∈ entriesOf h.2 := by
  simp [stateEntries, and_assoc]

theorem mem_stateEntries_set (hentry : entry ∈ stateEntries headers)
    (hkept : lower key = TRACESTATE_HEADER → ∀ old, Headers.get m headers key = some old →
      entry ∈ entriesOf old → entry ∈ entriesOf value) :
    entry ∈ stateEntries (headers.set m key value) := by
  induction headers with
  | nil => cases hentry
  | cons h headers ih =>
    obtain ⟨found, hmem, hname, hsplit⟩ := mem_stateEntries.mp hentry
    unfold Headers.set
    by_cases hkey : m.fold h.1 = m.fold key
    · rw [if_pos hkey]
      rcases List.mem_cons.mp hmem with rfl | hmem
      · have hlower := (m.lower_of_fold _ _ hkey).symm.trans hname
        have hvalue := hkept hlower found.2 (Headers.get_cons_of_eq hkey) hsplit
        exact mem_stateEntries.mpr ⟨(key, value), List.mem_cons_self, hlower, hvalue⟩
      · exact mem_stateEntries.mpr ⟨found, List.mem_cons_of_mem _ hmem, hname, hsplit⟩
    · rw [if_neg hkey]
      rw [Headers.get_cons_of_ne hkey] at hkept
      rcases List.mem_cons.mp hmem with rfl | hmem
      · exact mem_stateEntries.mpr ⟨found, List.mem_cons_self, hname, hsplit⟩
      · have hrest := ih (mem_stateEntries.mpr ⟨found, hmem, hname, hsplit⟩) hkept
        obtain ⟨kept, hmem', hname', hsplit'⟩ := mem_stateEntries.mp hrest
        exact mem_stateEntries.mpr ⟨kept, List.mem_cons_of_mem _ hmem', hname', hsplit'⟩

theorem fold_ne (m : Mapping) : m.fold TRACEPARENT_HEADER ≠ m.fold TRACESTATE_HEADER := fun h =>
  absurd (m.lower_of_fold _ _ h) (by decide)

theorem buildTraceparent_uuid : buildTraceparent sha256Hex traceId.traceId spanId.spanId =
    "00-".toList ++ traceId.digits ++ '-' :: (spanId.digits.take 16 ++ '-' :: "01".toList) := by
  have htrace : traceIdToHex sha256Hex traceId.traceId = traceId.digits := by
    have hlen : traceId.traceId.length = 35 := by simp [Uuid.traceId, traceId.length_digits]
    rw [traceIdToHex, if_pos ⟨List.prefix_append _ _, hlen⟩]
    rfl
  have hspan : spanIdToHex sha256Hex spanId.spanId = spanId.digits.take 16 := by
    have hlen : 19 ≤ spanId.spanId.length := by simp [Uuid.spanId, spanId.length_digits]
    rw [spanIdToHex, if_pos ⟨List.prefix_append _ _, hlen⟩]
    rfl
  rw [buildTraceparent, htrace, hspan]
  rfl

theorem matchTraceparent_of_lengths {trace parent flags : List Char} (htrace : trace.length = 32)
    (hparent : parent.length = 16) (hflags : flags.length = 2)
    (hhex : ∀ c ∈ trace ++ parent ++ flags, isHex c = true) :
    matchTraceparent ("00-".toList ++ trace ++ '-' :: (parent ++ '-' :: flags)) =
      some (trace, parent) := by
  have hdrop : ("00-".toList ++ trace ++ '-' :: (parent ++ '-' :: flags)).drop 3 =
      trace ++ '-' :: (parent ++ '-' :: flags) := rfl
  have hbehind : (trace ++ '-' :: (parent ++ '-' :: flags)).drop 33 = parent ++ '-' :: flags := by
    rw [List.drop_append, htrace, List.drop_of_length_le (by omega)]
    rfl
  have hlast : (parent ++ '-' :: flags).drop 17 = flags := by
    rw [List.drop_append, hparent, List.drop_of_length_le (by omega)]
    rfl
  have hparents : ("00-".toList ++ trace ++ '-' :: (parent ++ '-' :: flags)).drop 36 =
      parent ++ '-' :: flags := by
    rw [← hdrop, List.drop_drop] at hbehind
    exact hbehind
  have hends : ("00-".toList ++ trace ++ '-' :: (parent ++ '-' :: flags)).drop 53 = flags := by
    rw [← hparents, List.drop_drop] at hlast
    exact hlast
  unfold matchTraceparent
  rw [hdrop, hparents, hends, List.take_left' htrace, List.take_left' hparent,
    List.take_of_length_le (by omega)]
  exact if_pos ⟨rfl, htrace, hparent, hflags, List.all_eq_true.mpr hhex⟩

theorem matchTraceparent_uuid : matchTraceparent (strip
    (buildTraceparent sha256Hex traceId.traceId spanId.spanId)) =
      some (traceId.digits, spanId.digits.take 16) := by
  have hspan : (spanId.digits.take 16).length = 16 := by
    rw [List.length_take, spanId.length_digits]
    rfl
  have hhex : ∀ c ∈ traceId.digits ++ spanId.digits.take 16 ++ "01".toList, isHex c = true := by
    intro c hc
    rcases List.mem_append.mp hc with hc | hc
    · rcases List.mem_append.mp hc with hc | hc
      · exact traceId.isHex_digits c hc
      · exact spanId.isHex_digits c (List.mem_of_mem_take hc)
    · have hall : ∀ c ∈ "01".toList, isHex c = true := by decide
      exact hall c hc
  have hstrip : ∀ c ∈ "00-".toList ++ traceId.digits ++
      '-' :: (spanId.digits.take 16 ++ '-' :: "01".toList), isSpace c = false := by
    intro c hc
    have hcases : c ∈ "00-".toList ∨ c = '-' ∨
        c ∈ traceId.digits ++ spanId.digits.take 16 ++ "01".toList := by
      simp only [List.mem_append, List.mem_cons] at hc ⊢
      tauto
    rcases hcases with hc | rfl | hc
    · have hall : ∀ c ∈ "00-".toList, isSpace c = false := by decide
      exact hall c hc
    · decide
    · exact (plain_of_isHex (hhex c hc)).1
  rw [buildTraceparent_uuid, strip_of_not_space hstrip]
  exact matchTraceparent_of_lengths traceId.length_digits hspan rfl hhex

theorem getCi_of_get (h : headers.get m key = some value) : headers.getCi m key = some value := by
  rw [Headers.getCi, h]
  rfl

theorem truthy_of_ne {s : List Char} (h : s ≠ []) : truthy (some s) = some s := by
  simp [truthy, h]

end Headers

section RoundTrip

variable (malformed : List UInt8 → List Char) (sha256Hex : List Char → List Char) (m : Mapping)

/-- What a receiver without a user context of its own makes of the headers, and what has become of
the other entries. -/
structure RoundTrips (headers sent : Headers) (traceId spanId : Uuid)
    (name session endUser : List Char) : Prop where
  originating : ∃ ctx, (extractHeaders malformed m none sent).1 = some ctx ∧
    ctx.traceId = traceId.traceId ∧ (ctx.spanId.drop 3).take 16 = spanId.digits.take 16 ∧
    ctx.agentName = some name
  user : ∃ user, (extractHeaders malformed m none sent).2 = some user ∧
    user.sessionId = some session ∧ user.endUserId = some endUser
  others : ∀ entry ∈ stateEntries headers, entry ∈ stateEntries sent

/-- The fields of the own entry. -/
def ownFields (agentId : Option (List Char)) (name session endUser : List Char) :
    List (List Char × List Char) :=
  ((truthy agentId).toList.map fun id => ("ag".toList, id.filter (· ≠ '-'))) ++
    [("an".toList, quote name), ("si".toList, quote session), ("eu".toList, quote endUser)]

variable {malformed sha256Hex m} {headers sent : Headers} {traceId spanId : Uuid}
  {agentId : Option (List Char)} {name session endUser tail : List Char}

theorem buildTracestate_eq (hname : name ≠ []) (hsession : session ≠ []) (hend : endUser ≠ []) :
    buildTracestate agentId (some name) (some session) (some endUser) =
      some (jjEq ++ written (ownFields agentId name session endUser)) := by
  have hparts : field "ag" (fun id => id.filter (· ≠ '-')) agentId ++ field "an" quote (some name) ++
      field "si" quote (some session) ++ field "eu" quote (some endUser) =
      (ownFields agentId name session endUser).map fun kv => kv.1 ++ ':' :: kv.2 := by
    simp [field, ownFields, truthy_of_ne hname, truthy_of_ne hsession, truthy_of_ne hend,
      Function.comp_def]
  unfold buildTracestate
  rw [hparts]
  simp [ownFields, written]

theorem plain_ownFields (hagent : ∀ id, agentId = some id → ∀ c ∈ id, c = '-' ∨ isHex c = true) :
    ∀ kv ∈ ownFields agentId name session endUser, ∀ c ∈ kv.1 ++ kv.2, Plain c := by
  have hkeys : ∀ key ∈ ["ag".toList, "an".toList, "si".toList, "eu".toList], ∀ c ∈ key, Plain c := by
    decide
  have hquote : ∀ s, ∀ c ∈ quote s, Plain c := fun s c hc =>
    plain_of_isQuoted (Percent.isQuoted_of_mem hc)
  have hfilter : ∀ id, truthy agentId = some id → ∀ c ∈ id.filter (· ≠ '-'), Plain c := by
    intro id hid c hc
    have hgiven : agentId = some id := (Option.filter_eq_some_iff.mp hid).1
    obtain ⟨hmem, hne⟩ := List.mem_filter.mp hc
    exact plain_of_isHex ((hagent id hgiven c hmem).resolve_left (by simpa using hne))
  intro kv hkv c hc
  rcases List.mem_append.mp hkv with hkv | hkv
  · obtain ⟨id, hid, rfl⟩ := List.mem_map.mp hkv
    rcases List.mem_append.mp hc with hc | hc
    · exact hkeys _ (by simp) c hc
    · exact hfilter id (Option.mem_toList.mp hid) c hc
  · have hcases : kv.1 ∈ ["ag".toList, "an".toList, "si".toList, "eu".toList] ∧
        ∃ s, kv.2 = quote s := by
      simp only [List.mem_cons, List.not_mem_nil, or_false] at hkv
      rcases hkv with rfl | rfl | rfl
      · exact ⟨by simp, name, rfl⟩
      · exact ⟨by simp, session, rfl⟩
      · exact ⟨by simp, endUser, rfl⟩
    obtain ⟨hkey, s, hs⟩ := hcases
    rcases List.mem_append.mp hc with hc | hc
    · exact hkeys _ hkey c hc
    · exact hquote s c (hs ▸ hc)

theorem parse_ownFields (hagent : ∀ id, agentId = some id → ∀ c ∈ id, c = '-' ∨ isHex c = true)
    (htail : tail = [] ∨ ∃ rest, tail = ',' :: rest) : ∃ ag,
    parseJjTracestate malformed (jjEq ++ written (ownFields agentId name session endUser) ++ tail) =
      ⟨ag, some name, some session, some endUser⟩ := by
  have hreverse : (ownFields agentId name session endUser).reverse =
      ("eu".toList, quote endUser) :: ("si".toList, quote session) :: ("an".toList, quote name) ::
        ((truthy agentId).toList.map fun id => ("ag".toList, id.filter (· ≠ '-'))).reverse := by
    rw [ownFields, List.reverse_append]
    rfl
  have hname : (ownFields agentId name session endUser).reverse.lookup "an".toList =
      some (quote name) := by rw [hreverse]; rfl
  have hsession : (ownFields agentId name session endUser).reverse.lookup "si".toList =
      some (quote session) := by rw [hreverse]; rfl
  have hend : (ownFields agentId name session endUser).reverse.lookup "eu".toList =
      some (quote endUser) := by rw [hreverse]; rfl
  refine ⟨truthy ((ownFields agentId name session endUser).reverse.lookup "ag".toList), ?_⟩
  rw [parse_own (by simp [ownFields]) (plain_ownFields hagent) htail, hname, hsession, hend,
    Option.map_some, Option.map_some, Option.map_some, unquote_quote, unquote_quote, unquote_quote]

theorem extractHeaders_eq {user : Option UserContext} (htp : sent.get m TRACEPARENT_HEADER =
      some (buildTraceparent sha256Hex traceId.traceId spanId.spanId)) {parsed : ParsedTraceState}
    (hparsed : (match truthy (sent.getCi m TRACESTATE_HEADER) with
      | none => ⟨none, none, none, none⟩
      | some ts => parseJjTracestate malformed ts) = parsed) :
    extractHeaders malformed m user sent =
      (some ⟨traceId.traceId, "sp_".toList ++ spanId.digits.take 16 ++ List.replicate 16 '0',
        parsed.agentId, parsed.agentName⟩, adopt user parsed) := by
  have hne : buildTraceparent sha256Hex traceId.traceId spanId.spanId ≠ [] := by
    simp [buildTraceparent]
  have hmatch : ((truthy (sent.getCi m TRACEPARENT_HEADER)).bind fun tp =>
      matchTraceparent (strip tp)) = some (traceId.digits, spanId.digits.take 16) := by
    rw [getCi_of_get htp, truthy_of_ne hne]
    exact matchTraceparent_uuid
  unfold extractHeaders
  rw [hmatch]
  dsimp only
  rw [hparsed]
  rfl

theorem roundTrips_of_own (htp : sent.get m TRACEPARENT_HEADER =
      some (buildTraceparent sha256Hex traceId.traceId spanId.spanId))
    (hagent : ∀ id, agentId = some id → ∀ c ∈ id, c = '-' ∨ isHex c = true)
    (htail : tail = [] ∨ ∃ rest, tail = ',' :: rest) (hsession : session ≠ [])
    (hts : sent.get m TRACESTATE_HEADER =
      some (jjEq ++ written (ownFields agentId name session endUser) ++ tail))
    (hothers : ∀ entry ∈ stateEntries headers, entry ∈ stateEntries sent) :
    RoundTrips malformed m headers sent traceId spanId name session endUser := by
  obtain ⟨ag, hparse⟩ : ∃ ag, parseJjTracestate malformed
      (jjEq ++ written (ownFields agentId name session endUser) ++ tail) =
        ⟨ag, some name, some session, some endUser⟩ := parse_ownFields hagent htail
  have hparsed : (match truthy (sent.getCi m TRACESTATE_HEADER) with
      | none => ⟨none, none, none, none⟩
      | some ts => parseJjTracestate malformed ts) =
        (⟨ag, some name, some session, some endUser⟩ : ParsedTraceState) := by
    rw [getCi_of_get hts, truthy_of_ne (by simp [jjEq])]
    exact hparse
  have hdigits : (spanId.digits.take 16).length = 16 := by
    rw [List.length_take, spanId.length_digits]
    rfl
  constructor
  · rw [extractHeaders_eq htp hparsed]
    refine ⟨_, rfl, rfl, ?_, rfl⟩
    change ((spanId.digits.take 16) ++ List.replicate 16 '0').take 16 = _
    exact List.take_left' hdigits
  · rw [extractHeaders_eq htp hparsed, adopt, truthy_of_ne hsession]
    exact ⟨_, rfl, rfl, rfl⟩
  · exact hothers

theorem parse_none {existing : List Char} (h : ∀ entry ∈ entriesOf existing, ¬ jjEq <+: entry) :
    parseJjTracestate malformed existing = ⟨none, none, none, none⟩ := by
  have hnone : (((existing.splitOn ',').map strip).find? fun entry => jjEq <+: entry) = none := by
    rw [List.find?_eq_none]
    intro entry hentry
    by_cases hempty : entry = []
    · subst hempty
      decide
    · simpa using h entry (List.mem_filter.mpr ⟨hentry, by simpa using hempty⟩)
  unfold parseJjTracestate
  rw [hnone]

theorem writeTracestate_of_infix {existing own : List Char}
    (hget : headers.get m TRACESTATE_HEADER = some existing) (h : jjEq <:+: existing) :
    existing ≠ [] ∧ writeTracestate m headers (some own) = headers := by
  have hne : existing ≠ [] := by
    rintro rfl
    exact absurd h (by decide)
  refine ⟨hne, ?_⟩
  unfold writeTracestate
  dsimp only
  rw [hget, truthy_of_ne hne]
  exact if_pos h

theorem writeTracestate_of_not_infix {own : List Char} (hcomma : ',' ∉ own)
    (h : ∀ existing, headers.get m TRACESTATE_HEADER = some existing → ¬ jjEq <:+: existing) :
    ∃ tail, (tail = [] ∨ ∃ rest, tail = ',' :: rest) ∧
      writeTracestate m headers (some own) = headers.set m TRACESTATE_HEADER (own ++ tail) ∧
      ∀ existing, headers.get m TRACESTATE_HEADER = some existing →
        ∀ entry ∈ entriesOf existing, entry ∈ entriesOf (own ++ tail) := by
  unfold writeTracestate
  dsimp only
  cases hget : headers.get m TRACESTATE_HEADER with
  | none => exact ⟨[], .inl rfl, by simp [truthy], by simp⟩
  | some existing =>
    by_cases hne : existing = []
    · subst hne
      refine ⟨[], .inl rfl, by rw [List.append_nil]; rfl, fun found hfound entry hentry => ?_⟩
      obtain rfl := Option.some.inj hfound
      have hnone : entriesOf [] = [] := by decide
      rw [hnone] at hentry
      cases hentry
    · refine ⟨',' :: existing, .inr ⟨existing, rfl⟩, ?_, fun found hfound entry hentry => ?_⟩
      · rw [truthy_of_ne hne]
        exact if_neg (h existing hget)
      · obtain rfl := Option.some.inj hfound
        obtain ⟨hmem, hnonempty⟩ := List.mem_filter.mp hentry
        refine List.mem_filter.mpr ⟨?_, hnonempty⟩
        rw [List.splitOn_append_cons_self_of_not_mem hcomma, List.map_cons]
        exact List.mem_cons_of_mem _ hmem

theorem roundTrips_iff {caller : Caller} {givenTrace givenSpan givenName : Option (List Char)}
    (hids : callIds caller givenTrace givenSpan = (traceId.traceId, spanId.spanId))
    (hcall : callName caller agentId givenName = some name)
    (hagent : ∀ id, agentId = some id → ∀ c ∈ id, c = '-' ∨ isHex c = true)
    (hcallSession : caller.user.bind (·.sessionId) = some session)
    (hcallEnd : caller.user.bind (·.endUserId) = some endUser)
    (hname : name ≠ []) (hsession : session ≠ []) (hend : endUser ≠ [])
    (hjj : ∀ existing, headers.get m TRACESTATE_HEADER = some existing →
      ∀ entry ∈ entriesOf existing, ¬ jjEq <+: entry) :
    RoundTrips malformed m headers
        (injectHeaders sha256Hex m caller headers givenTrace givenSpan agentId givenName)
        traceId spanId name session endUser ↔
      ∀ existing, headers.get m TRACESTATE_HEADER = some existing → ¬ jjEq <:+: existing := by
  have hinject : injectHeaders sha256Hex m caller headers givenTrace givenSpan agentId givenName =
      writeTracestate m (headers.set m TRACEPARENT_HEADER
        (buildTraceparent sha256Hex traceId.traceId spanId.spanId))
        (some (jjEq ++ written (ownFields agentId name session endUser))) := by
    unfold injectHeaders
    rw [hids]
    dsimp only
    rw [hcall, hcallSession, hcallEnd, buildTracestate_eq hname hsession hend]
  generalize hfirst : headers.set m TRACEPARENT_HEADER
    (buildTraceparent sha256Hex traceId.traceId spanId.spanId) = first at hinject
  have hget : first.get m TRACESTATE_HEADER = headers.get m TRACESTATE_HEADER := by
    rw [← hfirst, Headers.get_set, if_neg (fold_ne m)]
  have htp : first.get m TRACEPARENT_HEADER =
      some (buildTraceparent sha256Hex traceId.traceId spanId.spanId) := by
    rw [← hfirst, Headers.get_set, if_pos rfl]
  have hothers : ∀ entry ∈ stateEntries headers, entry ∈ stateEntries first := fun entry hentry => by
    rw [← hfirst]
    exact mem_stateEntries_set hentry fun hlower => absurd hlower (by decide)
  rw [hinject, ← hget]
  rw [← hget] at hjj
  constructor
  · intro hround existing hexisting hinfix
    obtain ⟨hne, hkept⟩ := writeTracestate_of_infix hexisting hinfix
    rw [hkept] at hround
    obtain ⟨ctx, hctx, -, -, hctxName⟩ := hround.originating
    have hparsed : (match truthy (first.getCi m TRACESTATE_HEADER) with
        | none => ⟨none, none, none, none⟩
        | some ts => parseJjTracestate malformed ts) =
          (⟨none, none, none, none⟩ : ParsedTraceState) := by
      rw [getCi_of_get hexisting, truthy_of_ne hne]
      exact parse_none (hjj existing hexisting)
    rw [extractHeaders_eq htp hparsed] at hctx
    obtain rfl := Option.some.inj hctx
    cases hctxName
  · intro hfree
    obtain ⟨tail, htail, hwrite, hkept⟩ := writeTracestate_of_not_infix
      (comma_own (plain_ownFields hagent)) hfree
    rw [hwrite]
    have htpSent : (first.set m TRACESTATE_HEADER
        (jjEq ++ written (ownFields agentId name session endUser) ++ tail)).get m TRACEPARENT_HEADER =
        some (buildTraceparent sha256Hex traceId.traceId spanId.spanId) := by
      rw [Headers.get_set, if_neg (fold_ne m).symm, htp]
    refine roundTrips_of_own htpSent hagent htail hsession ?_ fun entry hentry => ?_
    · rw [Headers.get_set, if_pos rfl]
    · exact mem_stateEntries_set (hothers entry hentry) fun _ old hold hmem =>
        hkept old hold entry hmem

end RoundTrip

/-- A `dict`. -/
def Mapping.dict : Mapping := ⟨id, fun _ _ h => congrArg lower h⟩

def someId : Uuid := ⟨List.replicate 32 'a', rfl, by decide⟩

/-- A caller whose agent's name has separators in it. -/
def someCaller : Caller :=
  ⟨someId.traceId, some "crew; one, 50%".toList,
    some ⟨some "conv:42".toList, some "änne".toList, none, []⟩⟩

theorem roundTrips_separators : RoundTrips (fun _ => []) .dict [("tracestate", "vendor=a".toList)]
    (injectHeaders id .dict someCaller [("tracestate", "vendor=a".toList)] (some someId.traceId)
      (some someId.spanId) none none)
    someId someId "crew; one, 50%".toList "conv:42".toList "änne".toList := by
  have hexisting : ∀ existing, Headers.get .dict [("tracestate", "vendor=a".toList)]
      TRACESTATE_HEADER = some existing → existing = "vendor=a".toList := fun existing h =>
    (Option.some.inj h).symm
  refine (roundTrips_iff rfl rfl (by simp) rfl rfl (by decide) (by decide) (by decide)
    fun existing h => ?_).mpr fun existing h => ?_
  · rw [hexisting existing h]
    decide
  · rw [hexisting existing h]
    decide

/-- Another vendor's key ends in the own one, and nothing is written. -/
theorem similar_key_silences :
    (∀ entry ∈ entriesOf "xjj=1".toList, ¬ jjEq <+: entry) ∧
    ¬ RoundTrips (fun _ => []) .dict [("tracestate", "xjj=1".toList)]
      (injectHeaders id .dict someCaller [("tracestate", "xjj=1".toList)] (some someId.traceId)
        (some someId.spanId) none none)
      someId someId "crew; one, 50%".toList "conv:42".toList "änne".toList := by
  refine ⟨by decide, fun hround => ?_⟩
  obtain ⟨ctx, hctx, -, -, hname⟩ := hround.originating
  have hread : (extractHeaders (fun _ => []) .dict none
      (injectHeaders id .dict someCaller [("tracestate", "xjj=1".toList)] (some someId.traceId)
        (some someId.spanId) none none)).1.bind (·.agentName) = none := by decide +kernel
  rw [hctx] at hread
  exact absurd (hname.symm.trans hread) (by simp)

end JamJet.Propagation
