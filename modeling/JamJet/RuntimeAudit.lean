import JamJet.AuditEntry
import JamJet.PyJson

/-! The audit log as it is exported, and the offline verifier that hashes an exported entry from its
JSON. -/

namespace JamJet

/-- The text of a UUID, in lowercase with hyphens. -/
def hyphenated (bytes : List UInt8) : String :=
  let hex (first last : ℕ) : List Char := ((bytes.take last).drop first).flatMap Hex.encodeByte
  String.ofList (hex 0 4 ++ '-' :: (hex 4 6 ++ '-' :: (hex 6 8 ++ '-' :: (hex 8 10 ++
    '-' :: hex 10 16))))

/-- How `chrono` writes a UTC time in JSON: with `Z` for the `+00:00` of `to_rfc3339`. -/
class ChronoSerde [Rfc3339] where
  text : Instant → String
  text_utc : ∀ t, ∃ s : String, Rfc3339.text t = s ++ "+00:00" ∧ text t = s ++ "Z"

namespace AuditLogEntry

variable [Rfc3339] [ChronoSerde]

/-- The fields of a serialized entry; one that is `None` is left out. -/
def jsonFields (e : AuditLogEntry) : List (String × Option Json) :=
  [("id", some (.string (hyphenated e.id.toList))),
    ("event_id", some (.string (hyphenated e.eventId.toList))),
    ("execution_id", some (.string e.executionId)),
    ("sequence", some (.number (.int e.sequence.toInt))),
    ("event_type", some (.string e.eventType)),
    ("actor_id", some (.string e.actorId)),
    ("actor_type", some (.string e.actorType.asStr)),
    ("tool_call_hash", e.toolCallHash.map .string),
    ("policy_decision", e.policyDecision.map .string),
    ("http_request_id", e.httpRequestId.map .string),
    ("http_method", e.httpMethod.map .string),
    ("http_path", e.httpPath.map .string),
    ("ip_address", e.ipAddress.map .string),
    ("created_at", some (.string (ChronoSerde.text e.createdAt))),
    ("raw_event", some e.rawEvent),
    ("tenant_id", some (.string e.tenantId)),
    ("expires_at", (e.expiresAt.map ChronoSerde.text).map .string),
    ("redacted", some (.bool e.redacted)),
    ("prev_hash", e.prevHash.map .string),
    ("entry_hash", e.entryHash.map .string),
    ("signature", e.signature.map .string)]

/-- The members of a serialized entry, in the order of the fields. -/
def members (e : AuditLogEntry) : List (String × Json) :=
  e.jsonFields.filterMap fun (name, value) => value.map fun v => (name, v)

def toJson (e : AuditLogEntry) : Json := Json.ofFields e.members

variable [FloatText]

/-- `serde_json::to_string` of the entry itself: its members in their order. -/
def jsonText (e : AuditLogEntry) : List Char :=
  '{' :: (Hashing.joined (e.members.map Hashing.memberText) ++ ['}'])

end AuditLogEntry

section Export

variable [Rfc3339] [ChronoSerde] [FloatText]

/-- `serde_json::to_string` of a list of entries. -/
def entriesText (entries : List AuditLogEntry) : List Char :=
  '[' :: (Hashing.joined (entries.map AuditLogEntry.jsonText) ++ [']'])

/-- The body of `GET /audit`. -/
def listAuditLogBody (entries : List AuditLogEntry) (total limit offset : ℕ) : List Char :=
  Hashing.writeCanonical (Json.ofFields
    [("items", .array (entries.map AuditLogEntry.toJson)),
      ("total", Json.ofNat total),
      ("limit", Json.ofNat limit),
      ("offset", Json.ofNat offset)])

end Export

namespace RuntimeAudit

open PyJson (Value)

/-- What the verifier raises on an entry it cannot read. -/
inductive PyError
  | decodeError
  | keyError (key : String)
  | valueError (message : String)
  deriving DecidableEq, Repr

def loadEntries (text : List Char) : Except PyError (List Value) :=
  match PyJson.loads text with
  | none => .error .decodeError
  | some data =>
      let data := match data with
        | .dict members => (members.lookup "items").getD .none
        | data => data
      match data with
      | .list entries => .ok entries
      | _ =>
          .error (.valueError
            "expected a list of audit entries or an object with an 'items' list")

/-- The five control characters with a short form. -/
def shortForm (o : ℕ) : Option (List Char) :=
  [(0x08, ['\\', 'b']), (0x09, ['\\', 't']), (0x0a, ['\\', 'n']), (0x0c, ['\\', 'f']),
    (0x0d, ['\\', 'r'])].lookup o

/-- `_escape`, one character. -/
def escapeChar (ch : Char) : List Char :=
  let o := ch.toNat
  if ch = '"' then ['\\', '"']
  else if ch = '\\' then ['\\', '\\']
  else if o < 0x20 then
    (shortForm o).getD
      ['\\', 'u', '0', '0', Hashing.hexDigit (o / 16), Hashing.hexDigit (o % 16)]
  else [ch]

def escape (s : String) : List Char := '"' :: (s.toList.flatMap escapeChar ++ ['"'])

mutual

/-- `_serde_json`: compact, object members sorted by name. -/
def serdeJson : Value → Except PyError (List Char)
  | .none => .ok ['n', 'u', 'l', 'l']
  | .bool true => .ok ['t', 'r', 'u', 'e']
  | .bool false => .ok ['f', 'a', 'l', 's', 'e']
  | .number text => .ok text
  | .float _ =>
      .error (.valueError "floats must be loaded with load_entries so their spelling is kept")
  | .str s => .ok (escape s)
  | .dict members => do
      let members ← serdeMembers members
      let sorted := members.insertionSort fun a b => a.1 ≤ b.1
      return '{' :: (PyJson.commas (sorted.map fun kv => escape kv.1 ++ ':' :: kv.2) ++ ['}'])
  | .list items => do
      let items ← serdeItems items
      return '[' :: (PyJson.commas items ++ [']'])

def serdeItems : List Value → Except PyError (List (List Char))
  | [] => .ok []
  | v :: rest => do
      let text ← serdeJson v
      let texts ← serdeItems rest
      return text :: texts

def serdeMembers : List (String × Value) → Except PyError (List (String × List Char))
  | [] => .ok []
  | (k, v) :: rest => do
      let text ← serdeJson v
      let texts ← serdeMembers rest
      return (k, text) :: texts

end

/-- `_rfc3339`. -/
def rfc3339 (ts : String) : String :=
  if ts.toList.getLast? = some 'Z' then String.ofList (ts.toList.dropLast ++ "+00:00".toList)
  else ts

/-- `entry[key]`. -/
def item (entry : List (String × Value)) (key : String) : Except PyError Value :=
  match entry.lookup key with
  | some v => .ok v
  | none => .error (.keyError key)

/-- `uuid.UUID(value)`, which reads hex digits of either case, with hyphens anywhere.  What else it
reads (braces, `urn:`) is not the text of a UUID, and is refused all the same. -/
def uuidOf (value : String) : Option (List UInt8) :=
  let digits := value.toList.filter (· ≠ '-')
  if digits.length = 32 then Hex.decodeChars digits else none

/-- `_uuid`; a number is a string as well, but never the text of a UUID. -/
def uuidField (entry : List (String × Value)) (key : String) : Except PyError (List UInt8) := do
  match ← item entry key with
  | .str value =>
      match uuidOf value with
      | none => .error (.valueError "badly formed hexadecimal UUID string")
      | some bytes =>
          if hyphenated bytes = value then .ok bytes
          else .error (.valueError (key ++ " is not a lowercase hyphenated UUID"))
  | _ => .error (.valueError (key ++ " is not a lowercase hyphenated UUID"))

/-- `-?[0-9]+`, read as an integer. -/
def integerOf (text : List Char) : Option ℤ :=
  match text with
  | '-' :: digits =>
      if digits ≠ [] ∧ digits.all Char.isDigit then some (-(Nat.ofDigitChars 10 digits 0 : ℤ))
      else none
  | digits =>
      if digits ≠ [] ∧ digits.all Char.isDigit then some (Nat.ofDigitChars 10 digits 0 : ℤ)
      else none

/-- `_int`. -/
def intField (entry : List (String × Value)) (key : String) : Except PyError Int64 := do
  match ← item entry key with
  | .number text =>
      match integerOf text with
      | none => .error (.valueError (key ++ " is not a JSON integer"))
      | some number =>
          if -(2 ^ 63) ≤ number ∧ number < 2 ^ 63 then .ok (Int64.ofInt number)
          else .error (.valueError (key ++ " is outside the i64 range"))
  | _ => .error (.valueError (key ++ " is not a JSON integer"))

/-- `_text`. -/
def textField (entry : List (String × Value)) (key : String) (optional : Bool) :
    Except PyError String :=
  match entry.lookup key with
  | none => if optional then .ok "" else .error (.valueError (key ++ " is missing"))
  | some .none => if optional then .ok "" else .error (.valueError (key ++ " is not a string"))
  | some (.str v) => .ok v
  | some _ => .error (.valueError (key ++ " is not a string"))

/-- A boolean that is `False` when it is missing. -/
def boolField (entry : List (String × Value)) (key : String) : Except PyError Bool :=
  match entry.lookup key with
  | none => .ok false
  | some (.bool b) => .ok b
  | some _ => .error (.valueError (key ++ " is not a boolean"))

variable [Signatures]

/-- `entry_content_hash`: the fields in the runtime's order, read from the JSON. -/
def entryContentHash (entry : List (String × Value)) (prevHash : Option String) :
    Except PyError String := do
  let id ← uuidField entry "id"
  let eventId ← uuidField entry "event_id"
  let executionId ← textField entry "execution_id" false
  let sequence ← intField entry "sequence"
  let eventType ← textField entry "event_type" false
  let actorId ← textField entry "actor_id" false
  let actorType ← textField entry "actor_type" false
  let toolCallHash ← textField entry "tool_call_hash" true
  let policyDecision ← textField entry "policy_decision" true
  let httpRequestId ← textField entry "http_request_id" true
  let httpMethod ← textField entry "http_method" true
  let httpPath ← textField entry "http_path" true
  let ipAddress ← textField entry "ip_address" true
  let createdAt ← textField entry "created_at" false
  let rawEvent ← serdeJson (← item entry "raw_event")
  let tenantId ←
    if (entry.lookup "tenant_id").isSome then textField entry "tenant_id" false else .ok "default"
  let expires ← textField entry "expires_at" true
  let redacted ← boolField entry "redacted"
  return Hex.encode (Signatures.sha256 (Delimited.closed AuditLogEntry.fieldSep
    [id, eventId, utf8 executionId, leBytes sequence, utf8 eventType, utf8 actorId, utf8 actorType,
      utf8 toolCallHash, utf8 policyDecision, utf8 httpRequestId, utf8 httpMethod, utf8 httpPath,
      utf8 ipAddress, utf8 (rfc3339 createdAt), utf8 (String.ofList rawEvent), utf8 tenantId,
      if expires = "" then [] else utf8 (rfc3339 expires), [if redacted then 1 else 0],
      utf8 (prevHash.getD "")]))

end RuntimeAudit

end JamJet
