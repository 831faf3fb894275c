import JamJet.ConsolidationCalls

/-! Consolidation over a fact store and a vector store that nobody else uses meanwhile. -/

namespace JamJet.Engram

open AtomicCalls Prog

/-- What the engine runs among: the order and the similarity its stores go by, and what the clock,
the source of ids, the embedding provider and the model answer, call by call. -/
structure Surroundings (Score : Type) where
  order : ListingOrder
  similarity : Similarity Score
  clock : ℕ → Instant
  freshId : ℕ → FactId
  embed : ℕ → List String → Except MemoryError (List Embedding)
  answer : ℕ → String → String → Except MemoryError Json

/-- The stores, and how many calls have been made. -/
structure Stores where
  factStore : FactStore := {}
  vectorStore : VectorStore
  calls : ℕ := 0

/-- One call later. -/
def Stores.next (s : Stores) : Stores := { s with calls := s.calls + 1 }

namespace Consolidation

variable {Score : Type} [LinearOrder Score]

def handle (env : Surroundings Score) {β : Type} (op : MemoryCall Score β) (s : Stores) :
    Except MemoryError β × Stores :=
  match op with
  | .listFacts filter => (s.factStore.listFacts env.order filter, s.next)
  | .updateFact id patch =>
      let reply := s.factStore.updateFact id patch
      (reply.1, { s.next with factStore := reply.2 })
  | .invalidateFact id =>
      (.ok (), { s.next with factStore := s.factStore.invalidateFact id (env.clock s.calls) })
  | .insertFact fact => (.ok fact.id, { s.next with factStore := s.factStore.insertFact fact })
  | .deleteVector id => (.ok (), { s.next with vectorStore := s.vectorStore.delete id })
  | .upsertVector id embedding =>
      let reply := s.vectorStore.upsert id embedding
      (reply.1, { s.next with vectorStore := reply.2 })
  | .search query scope minScore topK =>
      (.ok (s.vectorStore.search env.similarity query scope minScore topK), s.next)
  | .embed texts => (env.embed s.calls texts, s.next)
  | .structuredOutput system user => (env.answer s.calls system user, s.next)
  | .utcNow => (.ok (env.clock s.calls), s.next)
  | .newFactId => (.ok (env.freshId s.calls), s.next)

end Consolidation

namespace FactStore

/-! Listings -/

/-- The facts a listing gives; none when it fails. -/
def listing (order : ListingOrder) (s : FactStore) (filter : FactFilter) : List Fact :=
  (s.listFacts order filter).toOption.getD []

variable {order : ListingOrder} {s : FactStore} {filter : FactFilter} {f : Fact} {id : FactId}

theorem listFacts_eq (h : (filterTexts filter).all quotable = true) :
    s.listFacts order filter = .ok (s.listing order filter) := by
  simp [listing, listFacts, statement, h, Except.toOption]

theorem listFacts_error (h : (filterTexts filter).all quotable ≠ true) :
    s.listFacts order filter = .error (.database "unrecognized token") ∧
      s.listing order filter = [] := by
  simp [listing, listFacts, statement, h, Except.toOption]

theorem listing_sublist : (s.listing order filter).Sublist
    (order.sort (s.facts.rows.filter (filterSelects filter))) := by
  unfold listing listFacts statement
  split
  · exact (List.take_sublist _ _).trans (List.drop_sublist _ _)
  · exact List.nil_sublist _

theorem mem_of_mem_listing (h : f ∈ s.listing order filter) :
    f ∈ s.facts.rows ∧ filterSelects filter f = true :=
  List.mem_filter.mp ((order.perm _).mem_iff.mp (listing_sublist.subset h))

theorem find?_of_mem_listing (h : f ∈ s.listing order filter) : s.facts.find? f.id = some f :=
  Table.find?_of_mem (mem_of_mem_listing h).1

theorem nodup_listing : ((s.listing order filter).map (·.id)).Nodup := by
  have hrows : ((s.facts.rows.filter (filterSelects filter)).map (·.id)).Nodup :=
    s.facts.nodup.sublist (List.filter_sublist.map _)
  exact (((order.perm _).map _).nodup_iff.mpr hrows).sublist (listing_sublist.map _)

theorem length_listing_le : (s.listing order filter).length ≤ filter.limit := by
  unfold listing listFacts statement
  split
  · exact List.length_take_le _ _
  · exact Nat.zero_le _

theorem length_listing (hoffset : filter.offset = 0) : (s.listing order filter).length =
    if (filterTexts filter).all quotable = true then
      min filter.limit (s.facts.rows.countP (filterSelects filter))
    else 0 := by
  unfold listing listFacts statement
  split
  · simp [Except.toOption, hoffset, (order.perm _).length_eq, List.countP_eq_length_filter]
  · rfl

/-! Patches -/

/-- One update after the other. -/
def patchEach (s : FactStore) (patches : List (FactId × FactPatch)) : FactStore :=
  patches.foldl (fun s patch => (s.updateFact patch.1 patch.2).2) s

theorem find?_updateFact (s : FactStore) (id id' : FactId) (patch : FactPatch) :
    (s.updateFact id patch).2.facts.find? id' =
      (s.facts.find? id').map fun f => if id' = id then patch.apply f else f := by
  simp only [updateFact, Table.find?_update, and_true]

theorem updateFact_reply {patch : FactPatch} (h : s.facts.find? id = some f) :
    (s.updateFact id patch).1 = .ok (patch.apply f) := by
  have hfind := find?_updateFact s id id patch
  rw [h, Option.map_some, if_pos rfl] at hfind
  change getFact (s.updateFact id patch).2 id = _
  rw [getFact, hfind]

theorem find?_patchEach_of_notMem {patches : List (FactId × FactPatch)}
    (h : id ∉ patches.map (·.1)) : (s.patchEach patches).facts.find? id = s.facts.find? id := by
  induction patches generalizing s with
  | nil => rfl
  | cons patch patches ih =>
    simp only [List.map_cons, List.mem_cons, not_or] at h
    rw [patchEach, List.foldl_cons, ← patchEach, ih h.2, find?_updateFact]
    simp [h.1]

theorem find?_patchEach_of_mem {patches : List (FactId × FactPatch)}
    (hnodup : (patches.map (·.1)).Nodup) {patch : FactPatch} (h : (id, patch) ∈ patches) :
    (s.patchEach patches).facts.find? id = (s.facts.find? id).map patch.apply := by
  induction patches generalizing s with
  | nil => cases h
  | cons head patches ih =>
    obtain ⟨hnew, hnodup⟩ := List.nodup_cons.mp hnodup
    rw [patchEach, List.foldl_cons, ← patchEach]
    rcases List.mem_cons.mp h with rfl | h
    · rw [find?_patchEach_of_notMem hnew, find?_updateFact]
      simp
    · have hne : id ≠ head.1 := by
        rintro rfl
        exact hnew (List.mem_map_of_mem (f := (·.1)) h)
      rw [ih hnodup h, find?_updateFact]
      simp [hne]

end FactStore

namespace Consolidation

open FactStore

variable {Score : Type} [LinearOrder Score] {env : Surroundings Score} {s : Stores}
  {filter : FactFilter} {α : Type} {f : List Fact → Upkeep Score α}

theorem alone_list_bind (h : (filterTexts filter).all quotable = true) :
    (perform (.listFacts filter) >>= f).alone (handle env) s =
      (f (s.factStore.listing env.order filter)).alone (handle env) s.next :=
  alone_bind_ok (congrArg (fun reply => (reply, s.next)) (listFacts_eq h))

theorem alone_list_bind_error (h : (filterTexts filter).all quotable ≠ true) :
    (perform (.listFacts filter) >>= f).alone (handle env) s =
      (.error (.database "unrecognized token"), s.next) :=
  alone_bind_error (congrArg (fun reply => (reply, s.next)) (listFacts_error h).1)

theorem made_list_bind (h : (filterTexts filter).all quotable = true) :
    (perform (.listFacts filter) >>= f).made (handle env) s =
      ⟨.listFacts filter, .ok (s.factStore.listing env.order filter)⟩ ::
        (f (s.factStore.listing env.order filter)).made (handle env) s.next := by
  have hcall : (perform (.listFacts filter) : Upkeep Score (List Fact)).alone (handle env) s =
      (.ok (s.factStore.listing env.order filter), s.next) :=
    congrArg (fun reply => (reply, s.next)) (listFacts_eq h)
  rw [made_bind_ok hcall, ← listFacts_eq h]
  rfl

theorem made_list_bind_error (h : (filterTexts filter).all quotable ≠ true) :
    (perform (.listFacts filter) >>= f).made (handle env) s =
      [⟨.listFacts filter, .error (.database "unrecognized token")⟩] := by
  have hcall : (perform (.listFacts filter) : Upkeep Score (List Fact)).alone (handle env) s =
      (.error (.database "unrecognized token"), s.next) :=
    congrArg (fun reply => (reply, s.next)) (listFacts_error h).1
  rw [made_bind_error hcall, ← (listFacts_error h).1]
  rfl

end Consolidation

end JamJet.Engram
