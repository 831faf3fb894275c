import JamJet.GraphStore
import JamJet.VectorStore

/-! The memory of an agent: the four stores behind one interface.  What an operation draws (ids,
the time) and what the embedding provider answers are its arguments. -/

namespace JamJet.Engram

/-- An embedding provider as an operation finds it. -/
structure EmbeddingProvider where
  dimensions : ℕ
  embed : List String → Except MemoryError (List Embedding)

structure Memory where
  factStore : FactStore := {}
  vectorStore : VectorStore
  graphStore : GraphStore := {}
  messages : Table MessageId ChatMessage (·.id) := .empty

namespace Memory

/-- A memory with nothing in it. -/
def inMemory (provider : EmbeddingProvider) : Memory :=
  { vectorStore := { dimensions := provider.dimensions } }

/-- Open the database of a memory again: the vectors lived in the process. -/
def «open» (m : Memory) (provider : EmbeddingProvider) : Memory :=
  { m with vectorStore := { dimensions := provider.dimensions } }

/-- The last of the embeddings returned. -/
def popEmbedding (embeddings : List Embedding) : Except MemoryError Embedding :=
  match embeddings.getLast? with
  | some embedding => .ok embedding
  | none => .error (.embedding "provider returned empty embeddings")

/-- Insert a fact, then its vector. -/
def store (m : Memory) (f : Fact) (embedding : Embedding) : Except MemoryError FactId × Memory :=
  let m := { m with factStore := m.factStore.insertFact f }
  match m.vectorStore.upsert f.id embedding with
  | (.ok (), vectors) => (.ok f.id, { m with vectorStore := vectors })
  | (.error err, _) => (.error err, m)

def addFact (m : Memory) (provider : EmbeddingProvider) (id : FactId) (now : Instant)
    (text : String) (scope : Scope) : Except MemoryError FactId × Memory :=
  match provider.embed [text] >>= popEmbedding with
  | .ok embedding => m.store (.new id now text scope) embedding
  | .error err => (.error err, m)

structure RecallQuery (Score : Type) where
  query : String
  scope : Option Scope := none
  maxResults : ℕ := 0
  asOf : Option Instant := none
  minScore : Option Score := none

section Recall

variable {Score : Type} [LinearOrder Score] (similarity : Similarity Score)

/-- Look a match up: a fact that is valid and in the query's scope is recalled. -/
def recallOne (query : RecallQuery Score) (now : Instant) (acc : List Fact × FactStore)
    (id : FactId) : List Fact × FactStore :=
  match acc.2.getFact id with
  | .ok f =>
      if f.isValidAt (query.asOf.getD now) && query.scope.all (·.contains f.scope) then
        (acc.1 ++ [f], acc.2.recordAccess f.id now)
      else acc
  -- a stale vector
  | .error _ => acc

def «recall» (m : Memory) (provider : EmbeddingProvider) (query : RecallQuery Score)
    (now : Instant) : Except MemoryError (List Fact) × Memory :=
  let maxResults := if query.maxResults = 0 then 10 else query.maxResults
  match provider.embed [query.query] >>= popEmbedding with
  | .ok embedding =>
      let matches_ := m.vectorStore.search similarity embedding query.scope query.minScore maxResults
      let recalled := (matches_.map (·.id)).foldl (recallOne query now) ([], m.factStore)
      (.ok recalled.1, { m with factStore := recalled.2 })
  | .error err => (.error err, m)

end Recall

/-- The filter behind `list_facts` and `export`. -/
def scopeFilter (scope : Option Scope) : FactFilter := { scope := scope }

def «export» (order : ListingOrder) (m : Memory) (scope : Option Scope) :
    Except MemoryError (List Fact) :=
  m.factStore.listFacts order (scopeFilter scope)

/-- Insert the facts one by one, each with its vector, and count them. -/
def importAll (m : Memory) : List (Fact × Embedding) → ℕ → Except MemoryError ℕ × Memory
  | [], imported => (.ok imported, m)
  | (f, embedding) :: rest, imported =>
      match m.store f embedding with
      | (.ok _, m) => importAll m rest (imported + 1)
      | (.error err, m) => (.error err, m)

def «import» (m : Memory) (provider : EmbeddingProvider) (facts : List Fact) :
    Except MemoryError ℕ × Memory :=
  if facts.isEmpty then (.ok 0, m)
  else
    match provider.embed (facts.map (·.text)) with
    | .ok embeddings =>
        if embeddings.length ≠ facts.length then
          (.error (.embedding ("provider returned " ++ toString embeddings.length ++
            " embeddings for " ++ toString facts.length ++ " texts (cardinality mismatch)")), m)
        else m.importAll (facts.zip embeddings) 0
    | .error err => (.error err, m)

/-- Invalidate a fact and drop its vector. -/
def forget (m : Memory) (id : FactId) (now : Instant) : Memory :=
  { m with
    factStore := m.factStore.invalidateFact id now
    vectorStore := m.vectorStore.delete id }

/-- Erase a scope from the facts, the vectors and the graph; the number of facts that went. -/
def deleteUserData (m : Memory) (scope : Scope) : Except MemoryError ℕ × Memory :=
  match m.factStore.deleteScopeData scope with
  | (.error err, facts) => (.error err, { m with factStore := facts })
  | (.ok gone, facts) =>
      let m := { m with
        factStore := facts
        vectorStore := (m.vectorStore.deleteByScope scope).2 }
      match m.graphStore.deleteByScope scope with
      | (.error err, graph) => (.error err, { m with graphStore := graph })
      | (.ok _, graph) => (.ok gone, { m with graphStore := graph })

end Memory

end JamJet.Engram
