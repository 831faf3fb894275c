import JamJet.MemoryErasure

/-! Export and import: what a memory takes from another one's export, and what it makes of its
own. -/

namespace JamJet.Engram

namespace Memory

variable {m m' : Memory} {order : ListingOrder} {provider : EmbeddingProvider}
  {scope : Option Scope} {now : Instant}

/-- The fact is in the scope that is asked for. -/
def inScope (scope : Option Scope) (f : Fact) : Prop := scope.all (·.contains f.scope) = true

/-- Some query recalls the fact, whatever the similarity. -/
def Recallable (m : Memory) (provider : EmbeddingProvider) (now : Instant) (f : Fact) : Prop :=
  ∀ {Score : Type} [LinearOrder Score] (similarity : Similarity Score),
    ∃ (query : RecallQuery Score) (facts : List Fact),
      (m.«recall» similarity provider query now).1 = .ok facts ∧ f ∈ facts

/-- An empty memory that imports the export of a scope holds exactly its valid facts, each to be
recalled. -/
def RestoresScope (order : ListingOrder) (m : Memory) (provider : EmbeddingProvider)
    (scope : Option Scope) (now : Instant) : Prop :=
  ∃ facts n m', m.export order scope = .ok facts ∧
    (inMemory provider).import provider facts = (.ok n, m') ∧
    (∀ f, (f ∈ m'.factStore.facts.rows ∧ f.isValidAt now = true) ↔
      f ∈ m.factStore.facts.rows ∧ f.isValidAt now = true ∧ inScope scope f) ∧
    ∀ f ∈ m'.factStore.facts.rows, f.isValidAt now = true → Recallable m' provider now f

/-- A memory that imports its own export stays as it is, and counts no fact. -/
def ReimportsNothing (order : ListingOrder) (m : Memory) (provider : EmbeddingProvider)
    (scope : Option Scope) : Prop :=
  ∃ facts m', m.export order scope = .ok facts ∧ m.import provider facts = (.ok 0, m') ∧
    m'.factStore = m.factStore ∧ m'.vectorStore = m.vectorStore

theorem scopeFilter_selects {f : Fact} : FactStore.filterSelects (scopeFilter scope) f = true ↔
    inScope scope f ∧ f.invalidAt = none := by
  have hselects : (scope.all fun s => s.selects f.scope) = scope.all (·.contains f.scope) := by
    cases scope <;> simp [Scope.selects_eq_contains]
  simp [FactStore.filterSelects, scopeFilter, hselects, inScope]

theorem scopeFilter_texts :
    FactStore.filterTexts (scopeFilter scope) = (scope.map Scope.texts).getD [] := by
  simp [FactStore.filterTexts, scopeFilter]

/-- The facts an export lists, before it is cut off. -/
def listed (order : ListingOrder) (m : Memory) (scope : Option Scope) : List Fact :=
  order.sort (m.factStore.facts.rows.filter (FactStore.filterSelects (scopeFilter scope)))

theorem mem_listed {f : Fact} : f ∈ m.listed order scope ↔
    f ∈ m.factStore.facts.rows ∧ inScope scope f ∧ f.invalidAt = none := by
  rw [listed, (order.perm _).mem_iff, List.mem_filter, scopeFilter_selects]

theorem export_eq : m.export order scope =
    if ((scope.map Scope.texts).getD []).all quotable = true then .ok ((m.listed order scope).take 50)
    else .error (.database "unrecognized token") := by
  rw [«export», FactStore.listFacts, scopeFilter_texts, statement]
  rfl

theorem importAll_count {pairs : List (Fact × Embedding)} {imported n : ℕ}
    (h : m.importAll pairs imported = (.ok n, m')) : n = imported + pairs.length := by
  induction pairs generalizing m imported with
  | nil => simpa [importAll] using (Prod.mk.inj h).1.symm
  | cons pair rest ih =>
    obtain ⟨f, embedding⟩ := pair
    simp only [importAll] at h
    split at h
    · have hrest := ih h
      simp only [List.length_cons]
      omega
    · cases (Prod.mk.inj h).1

theorem import_count {facts : List Fact} {n : ℕ} (h : m.import provider facts = (.ok n, m')) :
    n = facts.length := by
  unfold «import» at h
  split at h
  · rename_i hempty
    obtain rfl := List.isEmpty_iff.mp hempty
    simpa using (Prod.mk.inj h).1.symm
  · split at h
    · split at h
      · cases (Prod.mk.inj h).1
      · rename_i hlength
        have hcount := importAll_count h
        simp only [List.length_zip] at hcount
        omega
    · cases (Prod.mk.inj h).1

/-- The contract of an embedding provider: one vector of its dimension for each text. -/
def Answers (provider : EmbeddingProvider) : Prop :=
  ∀ texts, ∃ embeddings, provider.embed texts = .ok embeddings ∧
    embeddings.length = texts.length ∧ ∀ e ∈ embeddings, e.length = provider.dimensions

end Memory

end JamJet.Engram
