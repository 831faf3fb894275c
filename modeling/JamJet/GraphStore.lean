import JamJet.FactStore
import JamJet.Workflow

/-! The SQLite graph store: entities and the relationships between them. -/

namespace JamJet.Engram

structure GraphStore where
  entities : Table EntityId Entity (·.id) := .empty
  relationships : Table RelationshipId Relationship (·.id) := .empty

namespace GraphStore

/-- `INSERT .. ON CONFLICT(id) DO UPDATE`: the scope and the time of creation stay. -/
def upsertEntity (s : GraphStore) (entity : Entity) : GraphStore :=
  match s.entities.insert? entity with
  | some entities => { s with entities := entities }
  | none =>
      { s with
        entities := s.entities.update entity.id (fun _ => true)
          (fun row =>
            { row with
              name := entity.name
              entityType := entity.entityType
              attributes := entity.attributes
              updatedAt := entity.updatedAt })
          fun _ => rfl }

def upsertRelationship (s : GraphStore) (rel : Relationship) : GraphStore :=
  match s.relationships.insert? rel with
  | some relationships => { s with relationships := relationships }
  | none =>
      { s with
        relationships := s.relationships.update rel.id (fun _ => true)
          (fun row => { row with relation := rel.relation, invalidAt := rel.invalidAt })
          fun _ => rfl }

def getEntity (s : GraphStore) (id : EntityId) : Option Entity := s.entities.find? id

/-- Entities whose name contains the query, in row order. -/
def searchEntities (s : GraphStore) (query : String) (topK : ℕ) :
    Except MemoryError (List Entity) :=
  statement [query] ((s.entities.rows.filter fun entity => likeContains query entity.name).take topK)

/-- The far end of a relationship, seen from one of its ends. -/
def farEnd (id : EntityId) (rel : Relationship) : EntityId :=
  if rel.sourceId = id then rel.targetId else rel.sourceId

/-- `neighbors` to depth one along the relationships still valid: the entities it discovers, in
the order of its hash map. -/
def neighbors (order : HashOrder EntityId) (s : GraphStore) (id : EntityId) : List Entity :=
  let rels := s.relationships.rows.filter fun rel =>
    (rel.sourceId = id || rel.targetId = id) && rel.invalidAt.isNone
  let found := ((rels.map (farEnd id)).filter (· ≠ id)).toFinset
  (order.walk found).filterMap s.getEntity

/-- Relationships first, then entities; the number of rows that went. -/
def deleteByScope (s : GraphStore) (scope : Scope) : Except MemoryError ℕ × GraphStore :=
  match statement scope.texts ((s.relationships.rows.filter fun rel => scope.selects rel.scope).length
      + (s.entities.rows.filter fun entity => scope.selects entity.scope).length) with
  | .ok gone =>
      (.ok gone,
        { entities := s.entities.restrict fun entity => !scope.selects entity.scope
          relationships := s.relationships.restrict fun rel => !scope.selects rel.scope })
  | .error err => (.error err, s)

end GraphStore

end JamJet.Engram
