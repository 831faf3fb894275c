import JamJet.Facts
import JamJet.Table
import Mathlib.Data.List.Sort
import Mathlib.Order.Lex

/-! The in-process vector store: a map from fact ids to embeddings, searched by similarity. -/

namespace JamJet.Engram

structure VectorEntry where
  id : FactId
  embedding : Embedding
  deriving DecidableEq

structure VectorStore where
  dimensions : ℕ
  entries : Table FactId VectorEntry (·.id) := .empty

/-- Cosine similarity, as far as the store depends on it: its scores can be compared. -/
structure Similarity (Score : Type) where
  score : Embedding → Embedding → Score

structure VectorMatch (Score : Type) where
  id : FactId
  score : Score

namespace VectorStore

/-- Insert or replace the embedding of a fact. -/
def upsert (s : VectorStore) (id : FactId) (embedding : Embedding) :
    Except MemoryError Unit × VectorStore :=
  if embedding.length ≠ s.dimensions then
    (.error (.embedding ("dimension mismatch: expected " ++ toString s.dimensions ++ ", got " ++
      toString embedding.length)), s)
  else (.ok (), { s with entries := s.entries.put ⟨id, embedding⟩ })

def delete (s : VectorStore) (id : FactId) : VectorStore :=
  { s with entries := s.entries.delete id fun _ => true }

/-- The scope is not looked at: every entry goes. -/
def deleteByScope (s : VectorStore) (_scope : Scope) : ℕ × VectorStore :=
  (s.entries.rows.length, { s with entries := .empty })

section Search

variable {Score : Type} [LinearOrder Score]

/-- Descending by score, ties broken by id. -/
def matchBefore (a b : VectorMatch Score) : Prop :=
  b.score < a.score ∨ (a.score = b.score ∧ a.id ≤ b.id)

instance : DecidableRel (matchBefore : VectorMatch Score → VectorMatch Score → Prop) := fun a b =>
  inferInstanceAs (Decidable (b.score < a.score ∨ (a.score = b.score ∧ a.id ≤ b.id)))

/-- The `top_k` entries most similar to the query; the filter's scope is passed over. -/
def search (similarity : Similarity Score) (s : VectorStore) (query : Embedding)
    (_scope : Option Scope) (minScore : Option Score) (topK : ℕ) : List (VectorMatch Score) :=
  let matches_ := (s.entries.rows.map fun entry =>
    (⟨entry.id, similarity.score query entry.embedding⟩ : VectorMatch Score)).filter fun m =>
      minScore.all fun least => ¬ m.score < least
  (matches_.insertionSort matchBefore).take topK

end Search

end VectorStore

end JamJet.Engram
