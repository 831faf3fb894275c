import JamJet.RecallBest

/-! The second stage of extraction: does a new fact repeat or contradict an existing one?  The
search passes over the scope, and of its hits the first alone is looked at. -/

namespace JamJet.Engram

inductive ConflictVerdict
  | duplicate
  | contradicts
  | refines
  | noConflict
  deriving DecidableEq, Repr

structure ConflictResult (Score : Type) where
  verdict : ConflictVerdict
  existingFactId : Option FactId := none
  similarity : Option Score := none
  reason : Option String := none
  deriving DecidableEq

def conflictSystemPrompt : String :=
  "You are comparing two facts about a user/topic. Determine if the new fact contradicts, " ++
  "duplicates, or refines the existing fact.\n\nRespond with JSON:\n" ++
  "\x7b\"verdict\": \"contradicts\" | \"duplicate\" | \"refines\", " ++
  "\"reason\": \"brief explanation\"\x7d\n\n" ++
  "- \"contradicts\": The new fact directly contradicts the existing fact " ++
  "(e.g., moved from city A to city B)\n" ++
  "- \"duplicate\": The new fact says the same thing as the existing fact\n" ++
  "- \"refines\": The new fact adds new detail to the existing fact without contradicting it"

/-- What a model is sent: a system prompt and a user prompt. -/
structure Prompt where
  system : String
  user : String
  deriving DecidableEq

/-- The model behind `structured_output`. -/
abbrev LlmClient := Prompt → Except MemoryError Json

/-- The stores, the provider and the two thresholds; `nearIdentical` is `0.99`. -/
structure ConflictDetector (Score : Type) where
  factStore : FactStore
  vectorStore : VectorStore
  embedding : EmbeddingProvider
  similarity : Similarity Score
  similarityThreshold : Score
  nearIdentical : Score

namespace ConflictDetector

variable {Score : Type} [LinearOrder Score]

/-- What comes of the first hit; with the result, the prompts that were sent. -/
def judge (d : ConflictDetector Score) (llm : LlmClient) (now : Instant) (newText : String)
    (topMatch : VectorMatch Score) : Except MemoryError (ConflictResult Score) × List Prompt :=
  if d.nearIdentical < topMatch.score then
    -- the fact behind the vector is not looked at
    (.ok
      { verdict := .duplicate, existingFactId := some topMatch.id, similarity := some topMatch.score,
        reason := some "near-identical embedding" }, [])
  else
    let invalid : ConflictResult Score :=
      { verdict := .noConflict, similarity := some topMatch.score,
        reason := some "existing fact is invalid or not found" }
    match d.factStore.getFact topMatch.id with
    | .error _ => (.ok invalid, [])
    | .ok f =>
        if f.isValidAt now then
          let prompt : Prompt := ⟨conflictSystemPrompt,
            "Existing fact: \"" ++ f.text ++ "\"\nNew fact: \"" ++ newText ++ "\""⟩
          match llm prompt with
          | .error err => (.error err, [prompt])
          | .ok response =>
              let verdictStr := ((response.get "verdict").bind Json.asStr).getD "refines"
              let verdict :=
                if verdictStr = "contradicts" then ConflictVerdict.contradicts
                else if verdictStr = "duplicate" then .duplicate
                else .refines
              (.ok
                { verdict := verdict, existingFactId := some topMatch.id,
                  similarity := some topMatch.score,
                  reason := (response.get "reason").bind Json.asStr }, [prompt])
        else (.ok invalid, [])

def check (d : ConflictDetector Score) (llm : LlmClient) (now : Instant) (newText : String)
    (scope : Scope) : Except MemoryError (ConflictResult Score) × List Prompt :=
  match d.embedding.embed [newText] with
  | .error err => (.error err, [])
  | .ok [] => (.error (.embedding "empty embedding result"), [])
  | .ok (newEmbedding :: _) =>
      match d.vectorStore.search d.similarity newEmbedding (some scope) (some d.similarityThreshold)
          5 with
      | [] => (.ok { verdict := .noConflict }, [])
      | topMatch :: _ => d.judge llm now newText topMatch

/-- A valid fact of the scope. -/
def Inside (now : Instant) (scope : Scope) (f : Fact) : Bool :=
  f.isValidAt now && scope.contains f.scope

/-- The vector is that of a valid fact of the scope. -/
def InsideId (d : ConflictDetector Score) (now : Instant) (scope : Scope) (id : FactId) : Bool :=
  (d.factStore.facts.find? id).any (Inside now scope)

/-- The detector over what is left when the facts that are invalid or outside the scope go, with
their vectors. -/
def within (d : ConflictDetector Score) (now : Instant) (scope : Scope) : ConflictDetector Score :=
  { d with
    factStore := { d.factStore with facts := d.factStore.facts.restrict (Inside now scope) }
    vectorStore := { d.vectorStore with
      entries := d.vectorStore.entries.restrict fun entry => d.InsideId now scope entry.id } }

/-- The entry's fact is similar enough to be a conflict. -/
def Reaches (d : ConflictDetector Score) (newEmbedding : Embedding) (entry : VectorEntry) : Prop :=
  d.similarityThreshold ≤ d.similarity.score newEmbedding entry.embedding

/-- Whatever the model replies: only a valid fact of the scope is named, the most similar one is if
there is any, and the others change neither the result nor what the model is sent. -/
structure LooksInside (d : ConflictDetector Score) (now : Instant) (newText : String)
    (scope : Scope) : Prop where
  named : ∀ llm r sent, d.check llm now newText scope = (.ok r, sent) →
    ∀ id, r.existingFactId = some id → d.InsideId now scope id = true
  closest : ∀ llm r sent, d.check llm now newText scope = (.ok r, sent) →
    ∀ newEmbedding more, d.embedding.embed [newText] = .ok (newEmbedding :: more) →
    (∃ entry ∈ d.vectorStore.entries.rows,
      d.InsideId now scope entry.id = true ∧ d.Reaches newEmbedding entry) →
    ∃ entry ∈ d.vectorStore.entries.rows,
      d.InsideId now scope entry.id = true ∧ r.existingFactId = some entry.id ∧
      ∀ other ∈ d.vectorStore.entries.rows, d.InsideId now scope other.id = true →
        d.similarity.score newEmbedding other.embedding ≤
          d.similarity.score newEmbedding entry.embedding
  unaffected : ∀ llm,
    d.check llm now newText scope = (d.within now scope).check llm now newText scope

/-- The vector closest to the new text, of equally close ones that of the least id, is one of a
valid fact of the scope, unless it does not reach the threshold. -/
def ClosestInside (d : ConflictDetector Score) (now : Instant) (newText : String) (scope : Scope) :
    Prop :=
  ∀ newEmbedding more, d.embedding.embed [newText] = .ok (newEmbedding :: more) →
    ∀ entry ∈ d.vectorStore.entries.rows, d.Reaches newEmbedding entry →
      (∀ other ∈ d.vectorStore.entries.rows,
        VectorStore.matchBefore ⟨entry.id, d.similarity.score newEmbedding entry.embedding⟩
          ⟨other.id, d.similarity.score newEmbedding other.embedding⟩) →
      d.InsideId now scope entry.id = true

end ConflictDetector

namespace VectorStore

variable {Score : Type} [LinearOrder Score] {similarity : Similarity Score} {s : VectorStore}
  {query : Embedding} {scope : Option Scope} {least : Score} {k : ℕ} {m : VectorMatch Score}

/-- The match of an entry. -/
def matchOf (similarity : Similarity Score) (query : Embedding) (entry : VectorEntry) :
    VectorMatch Score := ⟨entry.id, similarity.score query entry.embedding⟩

/-- The hits of a search before the cut. -/
def hits (similarity : Similarity Score) (s : VectorStore) (query : Embedding) (least : Score) :
    List (VectorMatch Score) :=
  ((s.entries.rows.map (matchOf similarity query)).filter fun m => ¬ m.score < least).insertionSort
    matchBefore

theorem search_eq_take : s.search similarity query scope (some least) k =
    (hits similarity s query least).take k := rfl

theorem mem_hits : m ∈ hits similarity s query least ↔
    ∃ entry ∈ s.entries.rows, matchOf similarity query entry = m ∧ least ≤ m.score := by
  rw [hits, List.mem_insertionSort, List.mem_filter, List.mem_map]
  simp only [not_lt, decide_eq_true_eq]
  constructor
  · rintro ⟨⟨entry, hentry, heq⟩, hleast⟩
    exact ⟨entry, hentry, heq, hleast⟩
  · rintro ⟨entry, hentry, heq, hleast⟩
    exact ⟨⟨entry, hentry, heq⟩, hleast⟩

theorem head_hits {rest : List (VectorMatch Score)} (h : hits similarity s query least = m :: rest) :
    ∃ entry ∈ s.entries.rows, matchOf similarity query entry = m ∧ least ≤ m.score ∧
      ∀ other ∈ s.entries.rows, matchBefore m (matchOf similarity query other) := by
  have hm : m ∈ hits similarity s query least := h ▸ List.mem_cons_self
  obtain ⟨entry, hentry, heq, hleast⟩ := mem_hits.mp hm
  refine ⟨entry, hentry, heq, hleast, fun other hother => ?_⟩
  by_cases hreach : least ≤ similarity.score query other.embedding
  · have hmem : matchOf similarity query other ∈ m :: rest :=
      h ▸ mem_hits.mpr ⟨other, hother, rfl, hreach⟩
    rcases List.mem_cons.mp hmem with hsame | hlater
    · rw [hsame]
      exact .inr ⟨rfl, Nat.le_refl _⟩
    · have hsorted : (m :: rest).Pairwise matchBefore := h ▸ pairwise_matches _
      exact (List.pairwise_cons.mp hsorted).1 _ hlater
  · exact .inl ((not_le.mp hreach).trans_le hleast)

theorem hits_of_closest {entry : VectorEntry} (hentry : entry ∈ s.entries.rows)
    (hleast : least ≤ similarity.score query entry.embedding)
    (hbefore : ∀ other ∈ s.entries.rows,
      matchBefore (matchOf similarity query entry) (matchOf similarity query other)) :
    ∃ rest, hits similarity s query least = matchOf similarity query entry :: rest := by
  have hmem : matchOf similarity query entry ∈ hits similarity s query least :=
    mem_hits.mpr ⟨entry, hentry, rfl, hleast⟩
  cases hhits : hits similarity s query least with
  | nil =>
    rw [hhits] at hmem
    exact absurd hmem List.not_mem_nil
  | cons m rest =>
    obtain ⟨first, hfirst, rfl, -, hall⟩ := head_hits hhits
    rw [matchBefore_antisymm (hall entry hentry) (hbefore first hfirst)]
    exact ⟨rest, rfl⟩

theorem hits_eq_nil_iff : hits similarity s query least = [] ↔
    ∀ entry ∈ s.entries.rows, ¬ least ≤ similarity.score query entry.embedding := by
  constructor
  · intro h entry hentry hreach
    have hmem : matchOf similarity query entry ∈ hits similarity s query least :=
      mem_hits.mpr ⟨entry, hentry, rfl, hreach⟩
    rw [h] at hmem
    exact List.not_mem_nil hmem
  · intro h
    refine List.eq_nil_iff_forall_not_mem.mpr fun m hm => ?_
    obtain ⟨entry, hentry, rfl, hreach⟩ := mem_hits.mp hm
    exact h entry hentry hreach

end VectorStore

namespace ConflictDetector

variable {Score : Type} [LinearOrder Score] {d : ConflictDetector Score} {llm : LlmClient}
  {now : Instant} {newText : String} {scope : Scope} {newEmbedding : Embedding}
  {more : List Embedding} {topMatch : VectorMatch Score} {id : FactId}

omit [LinearOrder Score] in
theorem insideId_iff : d.InsideId now scope id = true ↔
    ∃ f, d.factStore.getFact id = .ok f ∧ f.isValidAt now = true ∧
      scope.contains f.scope = true := by
  unfold InsideId FactStore.getFact Inside
  cases d.factStore.facts.find? id <;> simp

/-- The hits of a check. -/
def checkHits (d : ConflictDetector Score) (newEmbedding : Embedding) : List (VectorMatch Score) :=
  VectorStore.hits d.similarity d.vectorStore newEmbedding d.similarityThreshold

theorem check_of_embed (h : d.embedding.embed [newText] = .ok (newEmbedding :: more)) :
    d.check llm now newText scope =
      match d.checkHits newEmbedding with
      | [] => (.ok { verdict := .noConflict }, [])
      | topMatch :: _ => d.judge llm now newText topMatch := by
  unfold check
  rw [h]
  simp only [VectorStore.search_eq_take, checkHits]
  cases VectorStore.hits d.similarity d.vectorStore newEmbedding d.similarityThreshold <;> rfl

theorem named_of_judge {r : ConflictResult Score} {sent : List Prompt} {f : Fact}
    (hfact : d.factStore.getFact topMatch.id = .ok f) (hvalid : f.isValidAt now = true)
    (h : d.judge llm now newText topMatch = (.ok r, sent)) :
    r.existingFactId = some topMatch.id := by
  unfold judge at h
  split at h
  · cases h
    rfl
  · simp only [hfact, hvalid, if_true] at h
    split at h
    · cases h
    · cases h
      rfl

theorem judge_congr {d' : ConflictDetector Score} (hnear : d'.nearIdentical = d.nearIdentical)
    (hfact : d'.factStore.getFact topMatch.id = d.factStore.getFact topMatch.id) :
    d'.judge llm now newText topMatch = d.judge llm now newText topMatch := by
  unfold judge
  rw [hnear, hfact]

omit [LinearOrder Score] in
theorem getFact_within (h : d.InsideId now scope id = true) :
    (d.within now scope).factStore.getFact id = d.factStore.getFact id := by
  unfold InsideId at h
  have hfind : (d.within now scope).factStore.facts.find? id =
      (d.factStore.facts.find? id).filter (Inside now scope) :=
    Table.find?_filter_rows d.factStore.facts id (Inside now scope)
  unfold FactStore.getFact
  rw [hfind]
  cases hfact : d.factStore.facts.find? id with
  | none => rfl
  | some f =>
    rw [hfact, Option.any_some] at h
    rw [Option.filter_some, if_pos h]

omit [LinearOrder Score] in
theorem mem_entries_within {entry : VectorEntry} :
    entry ∈ (d.within now scope).vectorStore.entries.rows ↔
      entry ∈ d.vectorStore.entries.rows ∧ d.InsideId now scope entry.id = true := List.mem_filter

theorem closestInside_iff : d.ClosestInside now newText scope ↔
    ∀ newEmbedding more, d.embedding.embed [newText] = .ok (newEmbedding :: more) →
      ∀ topMatch rest, d.checkHits newEmbedding = topMatch :: rest →
        d.InsideId now scope topMatch.id = true := by
  constructor
  · intro h newEmbedding more hembed topMatch rest hhits
    obtain ⟨entry, hentry, rfl, hreach, hall⟩ := VectorStore.head_hits hhits
    exact h newEmbedding more hembed entry hentry hreach hall
  · intro h newEmbedding more hembed entry hentry hreach hall
    obtain ⟨rest, hhits⟩ := VectorStore.hits_of_closest hentry hreach hall
    exact h newEmbedding more hembed _ rest hhits

theorem checkHits_within {rest : List (VectorMatch Score)}
    (hhits : d.checkHits newEmbedding = topMatch :: rest)
    (hinside : d.InsideId now scope topMatch.id = true) :
    ∃ rest', (d.within now scope).checkHits newEmbedding = topMatch :: rest' := by
  obtain ⟨entry, hentry, rfl, hreach, hall⟩ := VectorStore.head_hits hhits
  refine VectorStore.hits_of_closest (mem_entries_within.mpr ⟨hentry, hinside⟩) hreach ?_
  exact fun other hother => hall other (mem_entries_within.mp hother).1

theorem checkHits_within_eq_nil (hhits : d.checkHits newEmbedding = []) :
    (d.within now scope).checkHits newEmbedding = [] :=
  VectorStore.hits_eq_nil_iff.mpr fun entry hentry =>
    VectorStore.hits_eq_nil_iff.mp hhits entry (mem_entries_within.mp hentry).1

theorem looksInside_of_closestInside (h : d.ClosestInside now newText scope) :
    d.LooksInside now newText scope := by
  have hnamed : ∀ llm r sent newEmbedding more,
      d.embedding.embed [newText] = .ok (newEmbedding :: more) →
      d.check llm now newText scope = (.ok r, sent) →
      (d.checkHits newEmbedding = [] ∧ r.existingFactId = none) ∨
        ∃ topMatch rest, d.checkHits newEmbedding = topMatch :: rest ∧
          d.InsideId now scope topMatch.id = true ∧ r.existingFactId = some topMatch.id := by
    intro llm r sent newEmbedding more hembed hcheck
    rw [check_of_embed hembed] at hcheck
    cases hhits : d.checkHits newEmbedding with
    | nil =>
      rw [hhits] at hcheck
      cases hcheck
      exact .inl ⟨rfl, rfl⟩
    | cons topMatch rest =>
      rw [hhits] at hcheck
      have hinside := closestInside_iff.mp h newEmbedding more hembed topMatch rest hhits
      obtain ⟨f, hfact, hvalid, -⟩ := insideId_iff.mp hinside
      exact .inr ⟨topMatch, rest, rfl, hinside, named_of_judge hfact hvalid hcheck⟩
  refine ⟨fun llm r sent hcheck id hid => ?_, fun llm r sent hcheck newEmbedding more hembed hsome => ?_,
    fun llm => ?_⟩
  · cases hembed : d.embedding.embed [newText] with
    | error err => simp [check, hembed] at hcheck
    | ok embeddings =>
      cases embeddings with
      | nil => simp [check, hembed] at hcheck
      | cons newEmbedding more =>
        rcases hnamed llm r sent newEmbedding more hembed hcheck with
          ⟨-, hnone⟩ | ⟨topMatch, rest, -, hinside, htop⟩
        · rw [hnone] at hid
          cases hid
        · rw [htop] at hid
          exact Option.some.inj hid ▸ hinside
  · obtain ⟨entry, hentry, -, hreach⟩ := hsome
    rcases hnamed llm r sent newEmbedding more hembed hcheck with
      ⟨hnil, -⟩ | ⟨topMatch, rest, hhits, hinside, htop⟩
    · exact absurd hreach (VectorStore.hits_eq_nil_iff.mp hnil entry hentry)
    · obtain ⟨first, hfirst, rfl, -, hall⟩ := VectorStore.head_hits hhits
      refine ⟨first, hfirst, hinside, htop, fun other hother _ => ?_⟩
      rcases hall other hother with hlt | ⟨heq, -⟩
      · exact hlt.le
      · exact heq.ge
  · cases hembed : d.embedding.embed [newText] with
    | error err => simp [check, within, hembed]
    | ok embeddings =>
      cases embeddings with
      | nil => simp [check, within, hembed]
      | cons newEmbedding more =>
        rw [check_of_embed hembed, check_of_embed (d := d.within now scope) hembed]
        cases hhits : d.checkHits newEmbedding with
        | nil => rw [checkHits_within_eq_nil hhits]
        | cons topMatch rest =>
          have hinside := closestInside_iff.mp h newEmbedding more hembed topMatch rest hhits
          obtain ⟨rest', hwithin⟩ := checkHits_within hhits hinside
          have hsame : (d.within now scope).judge llm now newText topMatch =
              d.judge llm now newText topMatch := judge_congr rfl (getFact_within hinside)
          rw [hwithin]
          exact hsame.symm

theorem named_within {r : ConflictResult Score} {sent : List Prompt}
    (hembed : d.embedding.embed [newText] = .ok (newEmbedding :: more))
    (h : (d.within now scope).check llm now newText scope = (.ok r, sent)) :
    r.similarity = none ∨ r.existingFactId ≠ none := by
  rw [check_of_embed (d := d.within now scope) hembed] at h
  cases hhits : (d.within now scope).checkHits newEmbedding with
  | nil =>
    rw [hhits] at h
    cases h
    exact .inl rfl
  | cons topMatch rest =>
    rw [hhits] at h
    obtain ⟨entry, hentry, rfl, -, -⟩ := VectorStore.head_hits hhits
    have hinside := (mem_entries_within.mp hentry).2
    obtain ⟨f, hfact, hvalid, -⟩ := insideId_iff.mp hinside
    rw [named_of_judge ((getFact_within hinside).trans hfact) hvalid h]
    exact .inr (Option.some_ne_none _)

theorem judge_of_invalid (llm : LlmClient) (newText : String)
    (hfar : ¬ d.nearIdentical < topMatch.score)
    (hinvalid : ∀ f, d.factStore.getFact topMatch.id = .ok f → ¬ f.isValidAt now = true) :
    ∃ r, d.judge llm now newText topMatch = (.ok r, []) ∧ r.existingFactId = none ∧
      r.similarity = some topMatch.score := by
  unfold judge
  rw [if_neg hfar]
  cases hfact : d.factStore.getFact topMatch.id with
  | error err => exact ⟨_, rfl, rfl, rfl⟩
  | ok f => exact ⟨_, if_neg (hinvalid f hfact), rfl, rfl⟩

theorem judge_of_answer (newText : String) {response : Json} (hllm : ∀ prompt, llm prompt = .ok response)
    (h : d.nearIdentical < topMatch.score ∨
      ∃ f, d.factStore.getFact topMatch.id = .ok f ∧ f.isValidAt now = true) :
    ∃ r sent, d.judge llm now newText topMatch = (.ok r, sent) ∧
      r.existingFactId = some topMatch.id := by
  unfold judge
  by_cases hnear : d.nearIdentical < topMatch.score
  · rw [if_pos hnear]
    exact ⟨_, [], rfl, rfl⟩
  · obtain ⟨f, hfact, hvalid⟩ := h.resolve_left hnear
    simp only [if_neg hnear, hfact, hvalid, if_true, hllm]
    exact ⟨_, _, rfl, rfl⟩

theorem closestInside_of_looksInside (h : d.LooksInside now newText scope) :
    d.ClosestInside now newText scope := by
  refine closestInside_iff.mpr fun newEmbedding more hembed topMatch rest hhits => ?_
  -- a model that answers, so that a fact the check looks at is named
  let llm : LlmClient := fun _ => .ok .null
  have hllm : ∀ prompt, llm prompt = .ok .null := fun _ => rfl
  have hcheck : d.check llm now newText scope = d.judge llm now newText topMatch := by
    rw [check_of_embed hembed, hhits]
  by_cases hlooked : d.nearIdentical < topMatch.score ∨
      ∃ f, d.factStore.getFact topMatch.id = .ok f ∧ f.isValidAt now = true
  · obtain ⟨r, sent, hjudge, hid⟩ := judge_of_answer newText hllm hlooked
    exact h.named llm r sent (hcheck.trans hjudge) topMatch.id hid
  · obtain ⟨hfar, hinvalid⟩ := not_or.mp hlooked
    obtain ⟨r, hjudge, hnone, hscore⟩ := judge_of_invalid llm newText hfar
      fun f hfact hvalid => hinvalid ⟨f, hfact, hvalid⟩
    have hwithin := (h.unaffected llm).symm.trans (hcheck.trans hjudge)
    rcases named_within hembed hwithin with hnosim | hnamed
    · rw [hscore] at hnosim
      cases hnosim
    · exact absurd hnone hnamed

theorem looksInside_iff (d : ConflictDetector Score) (now : Instant) (newText : String)
    (scope : Scope) : d.LooksInside now newText scope ↔ d.ClosestInside now newText scope :=
  ⟨closestInside_of_looksInside, looksInside_of_closestInside⟩

/-- A detector over a fact of one organisation and one of another; similarities in millionths. -/
def drinksDetector : ConflictDetector ℕ where
  factStore := Memory.drinksMemory.factStore
  vectorStore := Memory.drinksMemory.vectorStore
  embedding := Memory.drinksProvider
  similarity := Memory.drinksSimilarity
  similarityThreshold := 920000
  nearIdentical := 990000

/-- A new fact of the second repeats what the first has stored: that fact is named. -/
theorem other_organisation_named :
    ¬ drinksDetector.LooksInside 2 "tea" { orgId := "a" } := by
  intro h
  have hinside := h.named (fun _ => .ok .null) _ [] rfl 1 rfl
  revert hinside
  decide

end ConflictDetector

end JamJet.Engram
