import JamJet.Memory

/-! Erasure of a scope: what goes, what stays, and when it is exactly what it should be. -/

namespace JamJet.Engram

namespace Memory

variable {m m' : Memory} {scope : Scope} {n : ℕ}

/-- What holds of the stores after an erasure that went through. -/
structure Erased (m : Memory) (scope : Scope) (m' : Memory) : Prop where
  facts : m'.factStore.facts.rows =
    m.factStore.facts.rows.filter fun f => !scope.contains f.scope
  vectors : m'.vectorStore.entries.rows = []
  entities : m'.graphStore.entities.rows =
    m.graphStore.entities.rows.filter fun entity => !scope.contains entity.scope
  relationships : m'.graphStore.relationships.rows =
    m.graphStore.relationships.rows.filter fun rel => !scope.contains rel.scope
  messages : m'.messages = m.messages

theorem erased_of_deleteUserData (h : m.deleteUserData scope = (.ok n, m')) : Erased m scope m' := by
  by_cases hquotable : scope.texts.all quotable = true
  · simp only [deleteUserData, FactStore.deleteScopeData, GraphStore.deleteByScope, statement,
      if_pos hquotable] at h
    obtain ⟨-, rfl⟩ := Prod.mk.inj h
    constructor <;> simp [Table.restrict, VectorStore.deleteByScope, Table.empty,
      Scope.selects_eq_contains]
  · simp only [deleteUserData, FactStore.deleteScopeData, statement, if_neg hquotable] at h
    cases (Prod.mk.inj h).1

/-- The vectors of the facts in a scope are gone, those of other facts are as they were. -/
structure VectorsErased (m : Memory) (scope : Scope) (m' : Memory) : Prop where
  gone : ∀ entry ∈ m'.vectorStore.entries.rows, ∀ f ∈ m.factStore.facts.rows, f.id = entry.id →
    scope.contains f.scope = false
  kept : ∀ entry ∈ m.vectorStore.entries.rows, ∀ f ∈ m.factStore.facts.rows, f.id = entry.id →
    scope.contains f.scope = false → entry ∈ m'.vectorStore.entries.rows

/-- Erasure as it is meant: of every store exactly what the scope contains is gone, and a recall
for a scope that shares no fact with it finds what it found before. -/
structure ErasesExactly (m : Memory) (scope : Scope) (m' : Memory) : Prop where
  facts : ∀ f, f ∈ m'.factStore.facts.rows ↔
    f ∈ m.factStore.facts.rows ∧ scope.contains f.scope = false
  vectors : VectorsErased m scope m'
  entities : ∀ entity, entity ∈ m'.graphStore.entities.rows ↔
    entity ∈ m.graphStore.entities.rows ∧ scope.contains entity.scope = false
  relationships : ∀ rel, rel ∈ m'.graphStore.relationships.rows ↔
    rel ∈ m.graphStore.relationships.rows ∧ scope.contains rel.scope = false
  messages : ∀ message, message ∈ m'.messages.rows ↔
    message ∈ m.messages.rows ∧ scope.contains message.scope = false
  «recall» : ∀ (other : Scope), (∀ f ∈ m.factStore.facts.rows, scope.contains f.scope = true →
      other.contains f.scope = false) →
    ∀ {Score : Type} [LinearOrder Score] (similarity : Similarity Score)
      (provider : EmbeddingProvider) (query : RecallQuery Score) (now : Instant),
      query.scope = some other →
        (Memory.«recall» similarity m' provider query now).1 =
          (Memory.«recall» similarity m provider query now).1

section Recall

variable {Score : Type} [LinearOrder Score] {similarity : Similarity Score}
  {query : RecallQuery Score} {now : Instant}

theorem mem_search {s : VectorStore} {embedding : Embedding} {scope : Option Scope}
    {minScore : Option Score} {topK : ℕ} {hit : VectorMatch Score}
    (h : hit ∈ s.search similarity embedding scope minScore topK) :
    ∃ entry ∈ s.entries.rows, entry.id = hit.id := by
  have hsorted := List.mem_of_mem_take h
  rw [List.mem_insertionSort] at hsorted
  obtain ⟨entry, hentry, rfl⟩ := List.mem_map.mp (List.mem_filter.mp hsorted).1
  exact ⟨entry, hentry, rfl⟩

omit [LinearOrder Score] in
theorem foldl_recallOne_nil {other : Scope} (hscope : query.scope = some other)
    {facts : FactStore} {ids : List FactId}
    (h : ∀ id ∈ ids, ∀ f ∈ facts.facts.rows, f.id = id → other.contains f.scope = false) :
    ids.foldl (recallOne query now) ([], facts) = ([], facts) := by
  induction ids with
  | nil => rfl
  | cons id ids ih =>
    have hone : recallOne query now ([], facts) id = ([], facts) := by
      simp only [recallOne, FactStore.getFact]
      cases hf : facts.facts.find? id with
      | none => rfl
      | some f =>
        have hout := h id (by simp) f (Table.mem_of_find? hf) (Table.key_of_find? hf)
        simp [hscope, hout]
    rw [List.foldl_cons, hone]
    exact ih fun id hid => h id (by simp [hid])

theorem recall_eq_nil (m : Memory) (similarity : Similarity Score) (now : Instant) {other : Scope} (hscope : query.scope = some other)
    (h : ∀ entry ∈ m.vectorStore.entries.rows, ∀ f ∈ m.factStore.facts.rows, f.id = entry.id →
      other.contains f.scope = false) (provider : EmbeddingProvider) :
    (m.«recall» similarity provider query now).1 =
      (provider.embed [query.query] >>= popEmbedding).map fun _ => [] := by
  unfold «recall»
  cases provider.embed [query.query] >>= popEmbedding with
  | error err => rfl
  | ok embedding =>
    have hout : ∀ id ∈ (m.vectorStore.search similarity embedding query.scope query.minScore
        (if query.maxResults = 0 then 10 else query.maxResults)).map (·.id),
        ∀ f ∈ m.factStore.facts.rows, f.id = id → other.contains f.scope = false := by
      intro id hid f hf heq
      obtain ⟨hit, hhit, rfl⟩ := List.mem_map.mp hid
      obtain ⟨entry, hentry, hid⟩ := mem_search hhit
      exact h entry hentry f hf (heq.trans hid.symm)
    simp only [foldl_recallOne_nil hscope hout, Except.map]

end Recall

/-- An erasure is exact if and only if the scope contains no chat message and every vector of a
fact is of a fact in the scope. -/
theorem erases_exactly_iff (m m' : Memory) (scope : Scope) (n : ℕ)
    (h : m.deleteUserData scope = (.ok n, m')) : ErasesExactly m scope m' ↔
      (∀ message ∈ m.messages.rows, scope.contains message.scope = false) ∧
      ∀ entry ∈ m.vectorStore.entries.rows, ∀ f ∈ m.factStore.facts.rows, f.id = entry.id →
        scope.contains f.scope = true := by
  have herased := erased_of_deleteUserData h
  constructor
  · intro hexact
    refine ⟨fun message hmessage => ?_, fun entry hentry f hf hid => ?_⟩
    · have hstill : message ∈ m'.messages.rows := herased.messages ▸ hmessage
      exact ((hexact.messages message).mp hstill).2
    · by_contra hout
      have hkept := hexact.vectors.kept entry hentry f hf hid (by simpa using hout)
      rw [herased.vectors] at hkept
      cases hkept
  · rintro ⟨hmessages, hvectors⟩
    refine ⟨fun f => ?_, ⟨fun entry hentry => ?_, fun entry hentry f hf hid hout => ?_⟩,
      fun entity => ?_, fun rel => ?_, fun message => ?_, ?_⟩
    · simp [herased.facts]
    · rw [herased.vectors] at hentry
      cases hentry
    · rw [hvectors entry hentry f hf hid] at hout
      cases hout
    · simp [herased.entities]
    · simp [herased.relationships]
    · rw [herased.messages]
      exact ⟨fun hmem => ⟨hmem, hmessages message hmem⟩, And.left⟩
    · intro other hdisjoint Score _ similarity provider query now hscope
      have hbefore := recall_eq_nil m similarity now hscope
        (fun entry hentry f hf hid => hdisjoint f hf (hvectors entry hentry f hf hid)) provider
      have hafter := recall_eq_nil m' similarity now hscope
        (by simp [herased.vectors]) provider
      rw [hbefore, hafter]

end Memory

def alice : Scope := { orgId := "acme", userId := some "alice" }

def bob : Scope := { orgId := "acme", userId := some "bob" }

/-- A memory of one fact. -/
def aliceOnly : Memory :=
  (({ vectorStore := { dimensions := 1 } } : Memory).store (.new 1 0 "likes tea" alice) [0]).2

/-- A second user's fact beside it, and a message of the first. -/
def aliceAndBob : Memory :=
  { (aliceOnly.store (.new 2 0 "likes tea" bob) [0]).2 with
    messages := ⟨[⟨1, "c1", "user", "hello", "acme", some "alice", 1, 0, []⟩], by simp⟩ }

namespace Memory

theorem erases_exactly_alice_only : ∃ n m', aliceOnly.deleteUserData alice = (.ok n, m') ∧
    ErasesExactly aliceOnly alice m' := by
  refine ⟨1, _, rfl, (erases_exactly_iff aliceOnly _ alice 1 rfl).mpr ⟨?_, ?_⟩⟩
  · rintro message ⟨⟩
  · intro entry _ f hf _
    obtain rfl : f = .new 1 0 "likes tea" alice := List.mem_singleton.mp hf
    decide

/-- Erasing one user takes the other's vector along and leaves the user's message. -/
theorem erasure_reaches_another_user : ∃ m', aliceAndBob.deleteUserData alice = (.ok 1, m') ∧
    ¬ ErasesExactly aliceAndBob alice m' ∧
    ∃ message ∈ m'.messages.rows, alice.contains message.scope = true := by
  refine ⟨_, rfl, fun h => ?_, ⟨1, "c1", "user", "hello", "acme", some "alice", 1, 0, []⟩,
    List.mem_singleton.mpr rfl, by decide⟩
  have hbob : (⟨2, [0]⟩ : VectorEntry) ∈ aliceAndBob.vectorStore.entries.rows := by decide
  have hfact : Fact.new 2 0 "likes tea" bob ∈ aliceAndBob.factStore.facts.rows :=
    List.mem_cons_of_mem _ (List.mem_singleton.mpr rfl)
  have hkept := h.vectors.kept _ hbob _ hfact rfl (by decide)
  cases hkept

end Memory

end JamJet.Engram
