import JamJet.Memory
import JamJet.TopK
import Mathlib.Order.WithBot

/-! What a recall is asked for, the best matching facts, and what it takes from the first vectors of
the index.  An entry of the index is there until its fact is forgotten, whatever its scope. -/

namespace JamJet.Engram

namespace VectorStore

variable {Score : Type} [LinearOrder Score] {a b c : VectorMatch Score}

theorem matchBefore_total (a b : VectorMatch Score) : matchBefore a b ∨ matchBefore b a := by
  unfold matchBefore
  rcases lt_trichotomy a.score b.score with h | h | h
  · exact .inr (.inl h)
  · exact (le_total a.id b.id).imp (fun hle => .inr ⟨h, hle⟩) fun hle => .inr ⟨h.symm, hle⟩
  · exact .inl (.inl h)

theorem matchBefore_trans (hab : matchBefore a b) (hbc : matchBefore b c) : matchBefore a c := by
  unfold matchBefore at hab hbc ⊢
  rcases hab with hab | ⟨hab, hid⟩
  · rcases hbc with hbc | ⟨hbc, -⟩
    · exact .inl (hbc.trans hab)
    · exact .inl (hbc ▸ hab)
  · rcases hbc with hbc | ⟨hbc, hid'⟩
    · exact .inl (hab ▸ hbc)
    · exact .inr ⟨hab.trans hbc, hid.trans hid'⟩

theorem matchBefore_antisymm (hab : matchBefore a b) (hba : matchBefore b a) : a = b := by
  obtain ⟨id, score⟩ := a
  obtain ⟨id', score'⟩ := b
  simp only [matchBefore] at hab hba
  rcases hab with hab | ⟨rfl, hid⟩
  · rcases hba with hba | ⟨rfl, -⟩
    · exact absurd hab hba.asymm
    · exact absurd hab (lt_irrefl _)
  · rcases hba with hba | ⟨-, hid'⟩
    · exact absurd hba (lt_irrefl _)
    · rw [le_antisymm hid hid']

theorem pairwise_matches (l : List (VectorMatch Score)) :
    (l.insertionSort matchBefore).Pairwise matchBefore := by
  have htotal : Std.Total (matchBefore : VectorMatch Score → VectorMatch Score → Prop) :=
    ⟨matchBefore_total⟩
  have htrans : IsTrans (VectorMatch Score) matchBefore := ⟨fun _ _ _ => matchBefore_trans⟩
  exact List.pairwise_insertionSort _ l

theorem insertionSort_filter (p : VectorMatch Score → Bool) (l : List (VectorMatch Score)) :
    (l.filter p).insertionSort matchBefore = (l.insertionSort matchBefore).filter p := by
  have hperm : ((l.filter p).insertionSort matchBefore).Perm
      ((l.insertionSort matchBefore).filter p) :=
    (List.perm_insertionSort _ _).trans ((List.perm_insertionSort _ l).symm.filter p)
  exact hperm.eq_of_pairwise (fun _ _ _ _ hab hba => matchBefore_antisymm hab hba)
    (pairwise_matches _) ((pairwise_matches l).sublist List.filter_sublist)

end VectorStore

namespace Memory

section Recall

variable {Score : Type} [LinearOrder Score]

def RecallQuery.limit (query : RecallQuery Score) : ℕ :=
  if query.maxResults = 0 then 10 else query.maxResults

/-- Valid at the time of the query, and in its scope. -/
def RecallQuery.selects (query : RecallQuery Score) (now : Instant) (f : Fact) : Bool :=
  f.isValidAt (query.asOf.getD now) && query.scope.all (·.contains f.scope)

/-- The vectors that reach the least score, the most similar first. -/
def ranking (similarity : Similarity Score) (m : Memory) (query : RecallQuery Score)
    (embedding : Embedding) : List (VectorMatch Score) :=
  ((m.vectorStore.entries.rows.map fun entry =>
    (⟨entry.id, similarity.score embedding entry.embedding⟩ : VectorMatch Score)).filter fun hit =>
      query.minScore.all fun least => ¬ hit.score < least).insertionSort VectorStore.matchBefore

/-- The fact of an id, when the query selects it. -/
def found (m : Memory) (query : RecallQuery Score) (now : Instant) (id : FactId) : Option Fact :=
  (m.factStore.facts.find? id).filter (query.selects now)

/-- How similar a fact is to the query: by the vector kept for it, else by that of its text. -/
def similarityOf (similarity : Similarity Score) (m : Memory) (provider : EmbeddingProvider)
    (embedding : Embedding) (f : Fact) : WithBot Score :=
  match m.vectorStore.entries.find? f.id, provider.embed [f.text] >>= popEmbedding with
  | some entry, _ => similarity.score embedding entry.embedding
  | none, .ok own => similarity.score embedding own
  | none, .error _ => ⊥

/-- The facts a recall is to choose from. -/
def eligible (similarity : Similarity Score) (m : Memory) (provider : EmbeddingProvider)
    (query : RecallQuery Score) (now : Instant) (embedding : Embedding) : List Fact :=
  m.factStore.facts.rows.filter fun f => query.selects now f &&
    similarityOf similarity m provider embedding f ≠ ⊥ &&
    query.minScore.all fun least => least ≤ similarityOf similarity m provider embedding f

/-- A recall returns the best of the eligible facts. -/
def RecallsBest (similarity : Similarity Score) (m : Memory) (provider : EmbeddingProvider)
    (query : RecallQuery Score) (now : Instant) : Prop :=
  ∃ embedding facts, provider.embed [query.query] >>= popEmbedding = .ok embedding ∧
    (m.«recall» similarity provider query now).1 = .ok facts ∧
    TopK.Best query.limit (eligible similarity m provider query now embedding)
      (similarityOf similarity m provider embedding) facts

variable {similarity : Similarity Score} {m : Memory} {provider : EmbeddingProvider}
  {query : RecallQuery Score} {now : Instant} {embedding : Embedding} {f : Fact} {id : FactId}

theorem mem_ranking {hit : VectorMatch Score} : hit ∈ ranking similarity m query embedding ↔
    (∃ entry ∈ m.vectorStore.entries.rows,
      hit = ⟨entry.id, similarity.score embedding entry.embedding⟩) ∧
    ∀ least, query.minScore = some least → least ≤ hit.score := by
  rw [ranking, List.mem_insertionSort, List.mem_filter, List.mem_map]
  refine and_congr ?_ ?_
  · exact exists_congr fun entry => and_congr_right fun _ => eq_comm
  · cases query.minScore <;> simp

theorem nodup_ranking : ((ranking similarity m query embedding).map (·.id)).Nodup := by
  refine ((List.perm_insertionSort _ _).map _).nodup_iff.mpr ?_
  refine List.Nodup.sublist (List.filter_sublist.map _) ?_
  rw [List.map_map]
  exact m.vectorStore.entries.nodup

theorem sorted_ranking :
    (ranking similarity m query embedding).Pairwise fun x y => y.score ≤ x.score :=
  (VectorStore.pairwise_matches _).imp fun {x y} h => by
    rcases h with h | ⟨h, -⟩
    · exact h.le
    · exact h.ge

omit [LinearOrder Score] in
theorem found_eq_some : found m query now id = some f ↔
    f ∈ m.factStore.facts.rows ∧ f.id = id ∧ query.selects now f = true := by
  rw [found, Option.filter_eq_some_iff, Table.find?_eq_some_iff, and_assoc]

omit [LinearOrder Score] in
theorem foldl_recallOne {ids : List FactId} (hids : ids.Nodup) (acc : List Fact) {facts : FactStore}
    (hsame : ∀ id ∈ ids, facts.facts.find? id = m.factStore.facts.find? id) :
    (ids.foldl (recallOne query now) (acc, facts)).1 =
      acc ++ ids.filterMap (found m query now) := by
  induction ids generalizing acc facts with
  | nil => simp
  | cons id ids ih =>
    obtain ⟨hnew, hids⟩ := List.nodup_cons.mp hids
    have hrest : ∀ other ∈ ids, facts.facts.find? other = m.factStore.facts.find? other :=
      fun other hother => hsame other (List.mem_cons_of_mem _ hother)
    have hhead := hsame id List.mem_cons_self
    rw [List.foldl_cons, List.filterMap_cons]
    cases hfind : m.factStore.facts.find? id with
    | none =>
      have hone : recallOne query now (acc, facts) id = (acc, facts) := by
        simp [recallOne, FactStore.getFact, hhead, hfind]
      rw [hone, ih hids acc hrest]
      simp [found, hfind]
    | some f =>
      have hid : f.id = id := Table.key_of_find? hfind
      by_cases hselect : query.selects now f = true
      · have hone : recallOne query now (acc, facts) id =
            (acc ++ [f], facts.recordAccess f.id now) := by
          unfold RecallQuery.selects at hselect
          simp only [recallOne, FactStore.getFact, hhead, hfind, hselect, if_true]
        have hrest' : ∀ other ∈ ids, (facts.recordAccess f.id now).facts.find? other =
            m.factStore.facts.find? other := by
          intro other hother
          have hne : other ≠ f.id := fun heq => hnew (hid ▸ heq ▸ hother)
          rw [FactStore.recordAccess, Table.find?_update_of_ne hne]
          exact hrest other hother
        have hfound : found m query now id = some f := by simp [found, hfind, hselect]
        rw [hone, ih hids _ hrest', hfound, List.append_assoc]
        rfl
      · have hone : recallOne query now (acc, facts) id = (acc, facts) := by
          unfold RecallQuery.selects at hselect
          simp only [recallOne, FactStore.getFact, hhead, hfind]
          exact if_neg hselect
        have hfound : found m query now id = none := by simp [found, hfind, hselect]
        rw [hone, ih hids acc hrest, hfound]

theorem recall_eq (hembed : provider.embed [query.query] >>= popEmbedding = .ok embedding) :
    (m.«recall» similarity provider query now).1 =
      .ok (((ranking similarity m query embedding).take query.limit).filterMap
        fun hit => found m query now hit.id) := by
  have hids : (((ranking similarity m query embedding).take query.limit).map (·.id)).Nodup :=
    nodup_ranking.sublist ((List.take_sublist _ _).map _)
  have hfold : (((((ranking similarity m query embedding).take query.limit).map (·.id)).foldl
      (recallOne query now) ([], m.factStore)).1 =
        [] ++ (((ranking similarity m query embedding).take query.limit).map (·.id)).filterMap
          (found m query now)) := foldl_recallOne hids [] fun _ _ => rfl
  rw [List.filterMap_map, List.nil_append] at hfold
  unfold «recall»
  rw [hembed]
  exact congrArg Except.ok hfold

theorem mem_eligible : f ∈ eligible similarity m provider query now embedding ↔
    f ∈ m.factStore.facts.rows ∧ query.selects now f = true ∧
      similarityOf similarity m provider embedding f ≠ ⊥ ∧
      ∀ least, query.minScore = some least →
        (least : WithBot Score) ≤ similarityOf similarity m provider embedding f := by
  rw [eligible, List.mem_filter]
  cases query.minScore <;> simp [and_assoc]

omit [LinearOrder Score] in
theorem similarityOf_entry {entry : VectorEntry} (h : entry ∈ m.vectorStore.entries.rows)
    (hid : entry.id = f.id) : similarityOf similarity m provider embedding f =
      (similarity.score embedding entry.embedding : WithBot Score) := by
  have hfind : m.vectorStore.entries.find? f.id = some entry :=
    Table.find?_eq_some_iff.mpr ⟨h, hid⟩
  rw [similarityOf, hfind]

theorem found_of_mem_ranking (hf : f ∈ eligible similarity m provider query now embedding)
    (hid : f.id = id) : found m query now id = some f :=
  found_eq_some.mpr ⟨(mem_eligible.mp hf).1, hid, (mem_eligible.mp hf).2.1⟩

theorem ranks : TopK.Ranks (ranking similarity m query embedding)
    (fun hit => (hit.score : WithBot Score)) (fun hit => found m query now hit.id)
    (eligible similarity m provider query now embedding)
    (similarityOf similarity m provider embedding) := by
  constructor
  · exact sorted_ranking.imp fun h => WithBot.coe_le_coe.mpr h
  · have hids : ((ranking similarity m query embedding).map (·.id)).filterMap
        (found m query now) |>.Nodup := by
      refine nodup_ranking.filterMap fun id id' f hf hf' => ?_
      exact ((found_eq_some.mp hf).2.1).symm.trans (found_eq_some.mp hf').2.1
    rwa [List.filterMap_map] at hids
  · intro hit hhit f hfound
    obtain ⟨hmem, hid, hselect⟩ := found_eq_some.mp hfound
    obtain ⟨⟨entry, hentry, rfl⟩, hleast⟩ := mem_ranking.mp hhit
    have hvalue : similarityOf similarity m provider embedding f =
        (similarity.score embedding entry.embedding : WithBot Score) :=
      similarityOf_entry hentry hid.symm
    refine ⟨mem_eligible.mpr ⟨hmem, hselect, by simp [hvalue], fun least h => ?_⟩, hvalue⟩
    rw [hvalue]
    exact WithBot.coe_le_coe.mpr (hleast least h)

theorem mem_ranked_iff (hf : f ∈ eligible similarity m provider query now embedding) :
    f ∈ (ranking similarity m query embedding).filterMap (fun hit => found m query now hit.id) ↔
      ∃ entry ∈ m.vectorStore.entries.rows, entry.id = f.id := by
  rw [List.mem_filterMap]
  constructor
  · rintro ⟨hit, hhit, hfound⟩
    obtain ⟨⟨entry, hentry, rfl⟩, -⟩ := mem_ranking.mp hhit
    exact ⟨entry, hentry, (found_eq_some.mp hfound).2.1.symm⟩
  · rintro ⟨entry, hentry, hid⟩
    refine ⟨_, mem_ranking.mpr ⟨⟨entry, hentry, rfl⟩, fun least h => ?_⟩,
      found_of_mem_ranking hf hid.symm⟩
    have hleast := (mem_eligible.mp hf).2.2.2 least h
    rw [similarityOf_entry hentry hid] at hleast
    exact WithBot.coe_le_coe.mp hleast

/-- What an answer must find in the index to be the best: as many first vectors as are asked for,
all of eligible facts, and no eligible fact without a vector more similar than one of them; or every
eligible fact among the first vectors. -/
def IndexSuffices (similarity : Similarity Score) (m : Memory) (provider : EmbeddingProvider)
    (query : RecallQuery Score) (now : Instant) (embedding : Embedding) : Prop :=
  (query.limit ≤ (ranking similarity m query embedding).length ∧
    (∀ hit ∈ (ranking similarity m query embedding).take query.limit,
      (found m query now hit.id).isSome = true) ∧
    ∀ f ∈ eligible similarity m provider query now embedding,
      (∀ entry ∈ m.vectorStore.entries.rows, entry.id ≠ f.id) →
      ∀ hit ∈ (ranking similarity m query embedding).take query.limit,
        similarityOf similarity m provider embedding f ≤ hit.score) ∨
  ∀ f ∈ eligible similarity m provider query now embedding,
    ∃ hit ∈ (ranking similarity m query embedding).take query.limit, hit.id = f.id

theorem recallsBest_iff : RecallsBest similarity m provider query now ↔
    ∃ embedding, provider.embed [query.query] >>= popEmbedding = .ok embedding ∧
      IndexSuffices similarity m provider query now embedding := by
  have hbest : ∀ embedding, TopK.Best query.limit
      (eligible similarity m provider query now embedding)
      (similarityOf similarity m provider embedding)
      (((ranking similarity m query embedding).take query.limit).filterMap
        fun hit => found m query now hit.id) ↔
        IndexSuffices similarity m provider query now embedding := by
    intro embedding
    have hrows : m.factStore.facts.rows.Nodup := m.factStore.facts.nodup.of_map _
    have heligible : (eligible similarity m provider query now embedding).Nodup := hrows.filter _
    rw [ranks.best_iff heligible query.limit]
    refine or_congr (and_congr_right fun _ => and_congr_right fun _ => ?_) ?_
    · refine forall₂_congr fun f hf => ?_
      rw [mem_ranked_iff hf]
      simp only [not_exists, not_and, ne_eq]
    · refine forall₂_congr fun f hf => ?_
      rw [List.mem_filterMap]
      refine exists_congr fun hit => and_congr_right fun _ => ?_
      constructor
      · exact fun hfound => (found_eq_some.mp hfound).2.1.symm
      · exact fun hid => found_of_mem_ranking hf hid.symm
  constructor
  · rintro ⟨embedding, facts, hembed, hrecall, h⟩
    rw [recall_eq hembed] at hrecall
    cases hrecall
    exact ⟨embedding, hembed, (hbest embedding).mp h⟩
  · rintro ⟨embedding, hembed, h⟩
    exact ⟨embedding, _, hembed, recall_eq hembed, (hbest embedding).mpr h⟩

/-- The ids a recall returns. -/
def recalledIds (similarity : Similarity Score) (m : Memory) (provider : EmbeddingProvider)
    (query : RecallQuery Score) (now : Instant) : Except MemoryError (List FactId) :=
  (m.«recall» similarity provider query now).1.map fun facts => facts.map (·.id)

/-- Forgetting a fact goes unnoticed by a query: its vector is not among the first, or it is not
selected and neither is the fact of the vector that moves up. -/
def ForgetUnnoticed (similarity : Similarity Score) (m : Memory) (query : RecallQuery Score)
    (now : Instant) (embedding : Embedding) (id : FactId) : Prop :=
  ∀ hit ∈ (ranking similarity m query embedding).take query.limit, hit.id = id →
    (found m query now hit.id).isSome = false ∧
      ∀ next, (ranking similarity m query embedding)[query.limit]? = some next →
        (found m query now next.id).isSome = false

theorem ranking_forget (forgottenAt : Instant) :
    ranking similarity (m.forget id forgottenAt) query embedding =
      (ranking similarity m query embedding).filter fun hit => hit.id ≠ id := by
  rw [ranking, ranking, ← VectorStore.insertionSort_filter]
  congr 1
  simp only [forget, VectorStore.delete, Table.delete, List.filter_filter, List.filter_map,
    and_true]
  congr 1
  refine List.filter_congr fun entry _ => ?_
  simp [Bool.and_comm]

omit [LinearOrder Score] in
theorem found_forget {other : FactId} (h : other ≠ id) (forgottenAt : Instant) :
    found (m.forget id forgottenAt) query now other = found m query now other := by
  rw [found, found, forget, FactStore.invalidateFact, Table.find?_update_of_ne h]

omit [LinearOrder Score] in
theorem map_id_filterMap (hits : List (VectorMatch Score)) :
    (hits.filterMap fun hit => found m query now hit.id).map (·.id) =
      (hits.filter fun hit => (found m query now hit.id).isSome).map (·.id) := by
  induction hits with
  | nil => rfl
  | cons hit hits ih =>
    rw [List.filterMap_cons, List.filter_cons]
    cases hfound : found m query now hit.id with
    | none => simpa using ih
    | some f =>
      have hid := (found_eq_some.mp hfound).2.1
      simp [hid, ih]

/-- A recall after a fact was forgotten returns what it returned before, exactly when the index
does not bring the forgetting to notice. -/
theorem recalledIds_forget_iff (forgottenAt : Instant) :
    recalledIds similarity (m.forget id forgottenAt) provider query now =
        recalledIds similarity m provider query now ↔
      ∀ embedding, provider.embed [query.query] >>= popEmbedding = .ok embedding →
        ForgetUnnoticed similarity m query now embedding id := by
  cases hembed : provider.embed [query.query] >>= popEmbedding with
  | error err => simp [recalledIds, «recall», hembed]
  | ok embedding =>
    have hiff := TopK.map_filter_take_removed_iff
      (nodup_ranking : ((ranking similarity m query embedding).map (·.id)).Nodup)
      (fun hit => (found m query now hit.id).isSome) id query.limit
    have hsame : (((ranking similarity m query embedding).filter fun hit => hit.id ≠ id).take
        query.limit).filterMap (fun hit => found (m.forget id forgottenAt) query now hit.id) =
        (((ranking similarity m query embedding).filter fun hit => hit.id ≠ id).take
          query.limit).filterMap fun hit => found m query now hit.id := by
      refine List.filterMap_congr fun hit hhit => found_forget ?_ forgottenAt
      simpa using (List.mem_filter.mp (List.mem_of_mem_take hhit)).2
    simp only [recalledIds, recall_eq hembed, Except.map, Except.ok.injEq, ranking_forget, hsame,
      map_id_filterMap, hiff, forall_eq', ForgetUnnoticed]

/-- A recall returns the best matching facts exactly if the index suffices, and a fact forgotten
later changes what it returns exactly if the index brings it to notice. -/
theorem recall_best_iff (similarity : Similarity Score) (m : Memory) (provider : EmbeddingProvider)
    (query : RecallQuery Score) (now : Instant) :
    (RecallsBest similarity m provider query now ↔
      ∃ embedding, provider.embed [query.query] >>= popEmbedding = .ok embedding ∧
        IndexSuffices similarity m provider query now embedding) ∧
    ∀ id forgottenAt, recalledIds similarity (m.forget id forgottenAt) provider query now =
        recalledIds similarity m provider query now ↔
      ∀ embedding, provider.embed [query.query] >>= popEmbedding = .ok embedding →
        ForgetUnnoticed similarity m query now embedding id :=
  ⟨recallsBest_iff, fun _ forgottenAt => recalledIds_forget_iff forgottenAt⟩

end Recall

/-- Vectors of two texts; any other text is like the second. -/
def drinksProvider : EmbeddingProvider where
  dimensions := 2
  embed texts := .ok (texts.map fun text =>
    if text = "tea" then [0x3F800000, 0] else [0x3F19999A, 0x3F4CCCCD])

/-- Their cosine similarities, in millionths. -/
def drinksSimilarity : Similarity ℕ where
  score query own := if query = own then 1000000 else 600000

/-- A fact of one organisation, then one of another. -/
def drinksMemory : Memory :=
  let m := ((inMemory drinksProvider).addFact drinksProvider 1 0 "tea" { orgId := "b" }).2
  (m.addFact drinksProvider 2 1 "coffee" { orgId := "a" }).2

def drinksQuery : RecallQuery ℕ :=
  { query := "tea", scope := some { orgId := "a" }, maxResults := 1 }

/-- The one fact of the scope is not recalled: that of another organisation took its place. -/
theorem recall_other_scope_first :
    ¬ RecallsBest drinksSimilarity drinksMemory drinksProvider drinksQuery 2 := by
  rintro ⟨embedding, facts, hembed, hrecall, hbest⟩
  have hfacts : (drinksMemory.«recall» drinksSimilarity drinksProvider drinksQuery 2).1 = .ok [] := rfl
  have hvector : drinksProvider.embed [drinksQuery.query] >>= popEmbedding =
      .ok [0x3F800000, 0] := rfl
  rw [hfacts] at hrecall
  rw [hvector] at hembed
  cases hrecall
  cases hembed
  have hcount := hbest.count
  have heligible : (eligible drinksSimilarity drinksMemory drinksProvider drinksQuery 2
      [0x3F800000, 0]).length = 1 := by decide
  rw [heligible] at hcount
  cases hcount

end Memory

end JamJet.Engram
