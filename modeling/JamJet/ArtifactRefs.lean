import JamJet.ConditionNode

/-! References to values stored apart: how they are told from other values, and what they resolve
to. -/

namespace JamJet

/-- The texts a reference takes for a hash: 64 lowercase hex characters. -/
def isHexHash (hash : String) : Bool :=
  hash.length = 64 && hash.toList.all fun c =>
    ('0' ≤ c && c ≤ '9') || ('a' ≤ c && c ≤ 'f')

def Json.asU64 : Json → Option ℕ
  | .number (.int (.ofNat n)) => some n
  | _ => none

/-- A media type is absent, null or a text. -/
def mediaTypeOk : Option Json → Bool
  | none | some .null | some (.string _) => true
  | some _ => false

/-- The reference a value stands for. -/
def ArtifactRef.fromSentinel (v : Json) : Option ArtifactRef := do
  let inner ← v.get "$artifact"
  let hash ← (inner.get "hash").bind Json.asStr
  if isHexHash hash then
    let size ← (inner.get "size").bind Json.asU64
    if mediaTypeOk (inner.get "media_type") then
      some ⟨hash, size, (inner.get "media_type").bind Json.asStr⟩
    else none
  else none

inductive ResolveError
  | notFound (message : String)
  | serialization (message : String)
  deriving DecidableEq, Repr

section Resolve

-- how a stored text is read (`serde_json::from_slice`)
variable (fromSlice : String → Except String Json)

def resolveRef (artifacts : Artifacts) (ref : ArtifactRef) : Except ResolveError Json :=
  match artifacts.find? ref.hash with
  | some row =>
      match fromSlice row.bytes with
      | .ok v => .ok v
      | .error message => .error (.serialization message)
  | none => .error (.notFound ("artifact " ++ ref.hash ++ " not found (dangling ref)"))

/-- A value one level down. -/
def resolveMember (artifacts : Artifacts) (v : Json) : Except ResolveError Json :=
  match ArtifactRef.fromSentinel v with
  | some ref => resolveRef fromSlice artifacts ref
  | none => .ok v

def resolveFields (artifacts : Artifacts) : JsonMap → Except ResolveError JsonMap
  | [] => .ok []
  | (k, v) :: rest => do
      let v ← resolveMember fromSlice artifacts v
      let rest ← resolveFields artifacts rest
      return (k, v) :: rest

/-- A reference is replaced by what it refers to; in an object or an array that is none, the
references one level down are. -/
def resolveValue (artifacts : Artifacts) (v : Json) : Except ResolveError Json :=
  match ArtifactRef.fromSentinel v with
  | some ref => resolveRef fromSlice artifacts ref
  | none =>
      match v with
      | .object fields => (resolveFields fromSlice artifacts fields).map .object
      | .array items => (items.mapM (resolveMember fromSlice artifacts)).map .array
      | v => .ok v

end Resolve

/-- What stands in a reference, besides further keys. -/
def wellFormedRef (inner : Json) : Bool :=
  ((inner.get "hash").bind Json.asStr).any isHexHash &&
    ((inner.get "size").bind Json.asU64).isSome && mediaTypeOk (inner.get "media_type")

/-- The keys of an object. -/
def Json.keys : Json → List String
  | .object fields => fields.map Prod.fst
  | _ => []

/-- A well-formed reference and nothing else. -/
def ExactSentinel (w : Json) : Prop :=
  w.keys = ["$artifact"] ∧ ∃ inner, w.get "$artifact" = some inner ∧ wellFormedRef inner = true ∧
    ∀ k ∈ inner.keys, k ∈ ["hash", "size", "media_type"]

theorem fromSentinel_isSome (w : Json) : (ArtifactRef.fromSentinel w).isSome = true ↔
    ∃ inner, w.get "$artifact" = some inner ∧ wellFormedRef inner = true := by
  unfold ArtifactRef.fromSentinel wellFormedRef
  cases hw : w.get "$artifact" with
  | none => simp
  | some inner =>
    cases hhash : (inner.get "hash").bind Json.asStr with
    | none => simp [hhash]
    | some hash =>
      by_cases hhex : isHexHash hash = true
      · cases hsize : (inner.get "size").bind Json.asU64 with
        | none => simp [hhash, hhex, hsize]
        | some size =>
          cases hmedia : mediaTypeOk (inner.get "media_type") <;>
            simp [hhash, hhex, hsize, hmedia]
      · simp [hhash, hhex]

theorem fromSentinel_eq_none (w : Json) : ArtifactRef.fromSentinel w = none ↔
    ∀ inner, w.get "$artifact" = some inner → wellFormedRef inner = false := by
  rw [← Option.not_isSome_iff_eq_none, fromSentinel_isSome]
  simp

theorem fromSentinel_toSentinel {ref : ArtifactRef} (h : isHexHash ref.hash = true) :
    ArtifactRef.fromSentinel ref.toSentinel = some ref := by
  obtain ⟨hash, size, mediaType⟩ := ref
  cases mediaType <;>
    simp_all [ArtifactRef.fromSentinel, ArtifactRef.toSentinel, Json.ofFields, Json.get,
      BTree.insertAll, BTree.get_insert, Json.ofNat, Json.ofOption, Json.asStr, Json.asU64,
      mediaTypeOk]

section Keys

variable {fromSlice : String → Except String Json} {artifacts : Artifacts}

theorem keys_resolveFields {fields fields' : JsonMap}
    (h : resolveFields fromSlice artifacts fields = .ok fields') :
    fields'.map Prod.fst = fields.map Prod.fst := by
  induction fields generalizing fields' with
  | nil =>
    cases h
    rfl
  | cons kv rest ih =>
    unfold resolveFields at h
    cases hv : resolveMember fromSlice artifacts kv.2 with
    | error e => simp [hv, bind, Except.bind] at h
    | ok v =>
      cases hrest : resolveFields fromSlice artifacts rest with
      | error e => simp [hv, hrest, bind, Except.bind] at h
      | ok rest' =>
        simp only [hv, hrest, bind, Except.bind, pure, Except.pure, Except.ok.injEq] at h
        subst h
        rw [List.map_cons, List.map_cons, ih hrest]

theorem keys_resolveValue {w v : Json} (hw : ArtifactRef.fromSentinel w = none)
    (h : resolveValue fromSlice artifacts w = .ok v) : v.keys = w.keys := by
  unfold resolveValue at h
  rw [hw] at h
  cases w with
  | object fields =>
    cases hfields : resolveFields fromSlice artifacts fields with
    | error e => simp [hfields, Except.map] at h
    | ok fields' =>
      simp only [hfields, Except.map, Except.ok.injEq] at h
      subst h
      exact keys_resolveFields hfields
  | array items =>
    cases hitems : items.mapM (resolveMember fromSlice artifacts) with
    | error e => simp [hitems, Except.map] at h
    | ok items' =>
      simp only [hitems, Except.map, Except.ok.injEq] at h
      subst h
      rfl
  | null | bool _ | number _ | string _ =>
    cases h
    rfl

end Keys

/-- The value has no key beside the reference in it, and the reference none beside its own. -/
def NoFurtherKeys (w : Json) : Prop :=
  ∀ inner, w.get "$artifact" = some inner → wellFormedRef inner = true →
    w.keys = ["$artifact"] ∧ ∀ k ∈ inner.keys, k ∈ ["hash", "size", "media_type"]

theorem strict_iff (fromSlice : String → Except String Json) (w : Json) :
    (¬ ExactSentinel w → ArtifactRef.fromSentinel w = none ∧
      ∀ artifacts v, resolveValue fromSlice artifacts w = .ok v → v.keys = w.keys) ↔
    NoFurtherKeys w := by
  constructor
  · intro h inner hinner hwell
    by_contra hextra
    have hexact : ¬ ExactSentinel w := by
      intro hexact
      obtain ⟨hkeys, inner', hinner', -, hinnerKeys⟩ := hexact
      rw [hinner, Option.some.injEq] at hinner'
      subst hinner'
      exact hextra ⟨hkeys, hinnerKeys⟩
    have hnone := (fromSentinel_eq_none w).mp (h hexact).1 inner hinner
    rw [hwell] at hnone
    cases hnone
  · intro h hexact
    have hnone : ArtifactRef.fromSentinel w = none := by
      rw [fromSentinel_eq_none]
      intro inner hinner
      rw [← Bool.not_eq_true]
      intro hwell
      obtain ⟨hkeys, hinnerKeys⟩ := h inner hinner hwell
      exact hexact ⟨hkeys, inner, hinner, hwell, hinnerKeys⟩
    exact ⟨hnone, fun artifacts v hv => keys_resolveValue hnone hv⟩

section Spill

variable [FloatText] {sha256Hex : String → String} {artifacts : Artifacts} {bytes : String}
  {mediaType : Option String}

omit [FloatText] in
theorem resolveValue_putArtifact (fromSlice : String → Except String Json)
    (hhex : ∀ text, isHexHash (sha256Hex text) = true)
    (hstore : ((putArtifact sha256Hex artifacts bytes mediaType).2.find? (sha256Hex bytes)).map
      (·.bytes) = some bytes) :
    resolveValue fromSlice (putArtifact sha256Hex artifacts bytes mediaType).2
        (putArtifact sha256Hex artifacts bytes mediaType).1.toSentinel =
      (match fromSlice bytes with
        | .ok v => .ok v
        | .error message => .error (.serialization message)) := by
  have hhash : (putArtifact sha256Hex artifacts bytes mediaType).1.hash = sha256Hex bytes := rfl
  have href : isHexHash (putArtifact sha256Hex artifacts bytes mediaType).1.hash = true := by
    rw [hhash]
    exact hhex bytes
  obtain ⟨row, hrow, hbytes⟩ := Option.map_eq_some_iff.mp hstore
  unfold resolveValue
  rw [fromSentinel_toSentinel href]
  simp only [resolveRef, hhash, hrow, hbytes]

/-- A value that was spilled is what its reference resolves to exactly if its text is read back as
it, and exactly the values without further keys are taken for a reference only in its shape. -/
theorem artifact_refs_iff (fromSlice : String → Except String Json)
    (hhex : ∀ text, isHexHash (sha256Hex text) = true)
    (hstore : ((putArtifact sha256Hex artifacts bytes mediaType).2.find? (sha256Hex bytes)).map
      (·.bytes) = some bytes)
    {v : Json} {threshold : ℕ} (hspill : spillBytes v threshold = some bytes) (w : Json) :
    (resolveValue fromSlice (putArtifact sha256Hex artifacts bytes mediaType).2
        (putArtifact sha256Hex artifacts bytes mediaType).1.toSentinel = .ok v ↔
      fromSlice (Hashing.canonicalJson v) = .ok v) ∧
    ((¬ ExactSentinel w → ArtifactRef.fromSentinel w = none ∧
        ∀ artifacts' u, resolveValue fromSlice artifacts' w = .ok u → u.keys = w.keys) ↔
      NoFurtherKeys w) := by
  have hbytes : bytes = Hashing.canonicalJson v := by
    unfold spillBytes at hspill
    dsimp only at hspill
    split at hspill
    · exact (Option.some.inj hspill).symm
    · cases hspill
  refine ⟨?_, strict_iff fromSlice w⟩
  rw [resolveValue_putArtifact fromSlice hhex hstore, ← hbytes]
  cases fromSlice bytes with
  | error message => simp
  | ok u => simp

end Spill

/-- The hash of every text. -/
def zeroHash : String := String.ofList (List.replicate 64 '0')

/-- Reads the text of one string. -/
def readHello (text : String) : Except String Json :=
  if text = "\"hello\"" then .ok (.string "hello") else .error "expected value"

/-- A text of more than four bytes is spilled and read back; a value with a key of its own is no
reference. -/
theorem artifact_refs_iff_hello :
    let stored := putArtifact (fun _ => zeroHash) Table.empty "\"hello\"" none
    (resolveValue readHello stored.2 stored.1.toSentinel = .ok (.string "hello") ↔
      readHello (@Hashing.canonicalJson bitsText (.string "hello")) = .ok (.string "hello")) ∧
    ((¬ ExactSentinel (.object [("note", .null)]) →
        ArtifactRef.fromSentinel (.object [("note", .null)]) = none ∧
        ∀ artifacts u, resolveValue readHello artifacts (.object [("note", .null)]) = .ok u →
          u.keys = (Json.object [("note", .null)]).keys) ↔
      NoFurtherKeys (.object [("note", .null)])) := by
  have hzero : isHexHash zeroHash = true := by decide
  have hhex : ∀ text : String, isHexHash ((fun _ => zeroHash) text) = true := fun _ => hzero
  have hspill : @spillBytes bitsText (.string "hello") 4 = some "\"hello\"" := by decide
  exact @artifact_refs_iff bitsText (fun _ => zeroHash) Table.empty _ none readHello hhex rfl _ 4
    hspill _

/-- Data of the user with a note beside what looks like a reference. -/
def notedRef : Json :=
  .object [("$artifact", .object [("hash", .string zeroHash), ("size", .number (.int 7))]),
    ("note", .string "keep")]

/-- It is taken for the reference, and what that refers to replaces it, the note included. -/
theorem noted_ref_replaced :
    ¬ ExactSentinel notedRef ∧
      ArtifactRef.fromSentinel notedRef = some ⟨zeroHash, 7, none⟩ ∧
      resolveValue readHello (putArtifact (fun _ => zeroHash) Table.empty "\"hello\"" none).2
        notedRef = .ok (.string "hello") := by
  refine ⟨?_, by rfl, by rfl⟩
  intro h
  exact absurd h.1 (by decide)

end JamJet
