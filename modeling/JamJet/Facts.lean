import JamJet.Event

/-! The data of the memory layer: scopes, facts, entities, relationships and messages. -/

namespace JamJet.Engram

/-- Absent fields of a scope are wildcards. -/
structure Scope where
  orgId : String := "default"
  agentId : Option String := none
  userId : Option String := none
  sessionId : Option String := none
  deriving DecidableEq, Repr

namespace Scope

/-- A field is absent, or the other scope has the same. -/
def fieldMatches (field other : Option String) : Bool := field.all fun text => other = some text

/-- Parent or equal scope of another. -/
def contains (self other : Scope) : Bool :=
  if self.orgId ≠ other.orgId then false
  else if !fieldMatches self.agentId other.agentId then false
  else if !fieldMatches self.userId other.userId then false
  else if !fieldMatches self.sessionId other.sessionId then false
  else true

/-- The rows `org_id = '..' AND user_id = '..' AND ..` selects; `NULL` equals nothing. -/
def selects (self row : Scope) : Bool :=
  row.orgId = self.orgId && fieldMatches self.userId row.userId &&
    fieldMatches self.agentId row.agentId && fieldMatches self.sessionId row.sessionId

/-- The texts a scope puts into a statement. -/
def texts (self : Scope) : List String :=
  self.orgId :: ([self.userId, self.agentId, self.sessionId].filterMap id)

variable {s t : Scope}

theorem contains_iff : s.contains t = true ↔ s.orgId = t.orgId ∧
    fieldMatches s.agentId t.agentId = true ∧ fieldMatches s.userId t.userId = true ∧
    fieldMatches s.sessionId t.sessionId = true := by
  unfold contains
  by_cases horg : s.orgId = t.orgId <;> simp [horg]

theorem selects_eq_contains : s.selects t = s.contains t := by
  rw [Bool.eq_iff_iff, contains_iff, selects]
  simp only [Bool.and_eq_true, decide_eq_true_eq]
  constructor
  · rintro ⟨⟨⟨horg, huser⟩, hagent⟩, hsession⟩
    exact ⟨horg.symm, hagent, huser, hsession⟩
  · rintro ⟨horg, hagent, huser, hsession⟩
    exact ⟨⟨⟨horg.symm, huser⟩, hagent⟩, hsession⟩

end Scope

abbrev FactId := ℕ

abbrev EntityId := ℕ

abbrev RelationshipId := ℕ

abbrev MessageId := ℕ

/-- The bits of an `f32`. -/
abbrev F32 := BitVec 32

abbrev Embedding := List F32

inductive MemoryTier
  | working
  | conversation
  | knowledge
  deriving DecidableEq, Repr

structure Fact where
  id : FactId
  text : String
  scope : Scope
  tier : MemoryTier := .conversation
  category : Option String := none
  source : Option String := none
  confidence : Option F32 := none
  validFrom : Instant
  invalidAt : Option Instant := none
  createdAt : Instant
  entityRefs : List EntityId := []
  supersedes : Option FactId := none
  supersededBy : Option FactId := none
  accessCount : ℕ := 0
  lastAccessed : Option Instant := none
  metadata : JsonMap := []

namespace Fact

/-- A fact under a fresh id, at the time it is created. -/
def new (id : FactId) (now : Instant) (text : String) (scope : Scope) : Fact :=
  { id := id, text := text, scope := scope, validFrom := now, createdAt := now }

/-- Valid at the given point in time. -/
def isValidAt (f : Fact) (now : Instant) : Bool :=
  if now < f.validFrom then false
  else
    match f.invalidAt with
    | some expiry => now < expiry
    | none => true

/-- The event date a fact carries in its metadata. -/
def eventDate (f : Fact) : Option String := (BTree.get f.metadata "event_date").bind Json.asStr

end Fact

structure Entity where
  id : EntityId
  name : String
  entityType : String
  scope : Scope
  attributes : JsonMap := []
  createdAt : Instant
  updatedAt : Instant

structure Relationship where
  id : RelationshipId
  sourceId : EntityId
  relation : String
  targetId : EntityId
  scope : Scope
  validFrom : Instant
  invalidAt : Option Instant := none
  createdAt : Instant
  deriving DecidableEq

/-- A stored chat message; of the scope it was saved under its row keeps the organisation and the
user. -/
structure ChatMessage where
  id : MessageId
  conversationId : String
  role : String
  content : String
  orgId : String
  userId : Option String
  seq : ℤ
  createdAt : Instant
  metadata : JsonMap := []

def ChatMessage.scope (m : ChatMessage) : Scope := { orgId := m.orgId, userId := m.userId }

/-- Only the fields that are present are applied. -/
structure FactPatch where
  text : Option String := none
  tier : Option MemoryTier := none
  category : Option String := none
  source : Option String := none
  confidence : Option F32 := none
  invalidAt : Option Instant := none
  supersededBy : Option FactId := none
  metadata : JsonMap := []

def FactPatch.apply (patch : FactPatch) (f : Fact) : Fact :=
  { f with
    text := patch.text.getD f.text
    tier := patch.tier.getD f.tier
    category := patch.category.or f.category
    source := patch.source.or f.source
    confidence := patch.confidence.or f.confidence
    invalidAt := patch.invalidAt.or f.invalidAt
    supersededBy := patch.supersededBy.or f.supersededBy
    metadata := if patch.metadata.isEmpty then f.metadata else patch.metadata }

@[simp]
theorem FactPatch.apply_id (patch : FactPatch) (f : Fact) : (patch.apply f).id = f.id := rfl

/-- Query parameters of `list_facts`. -/
structure FactFilter where
  scope : Option Scope := none
  tier : Option MemoryTier := none
  category : Option String := none
  validOnly : Bool := true
  asOf : Option Instant := none
  textContains : Option String := none
  limit : ℕ := 50
  offset : ℕ := 0

inductive MemoryError
  | database (text : String)
  | notFound (id : FactId)
  | embedding (text : String)
  | serialization (text : String)
  deriving DecidableEq

end JamJet.Engram
