import JamJet.CallTraces
import JamJet.FactStore
import JamJet.Memory
import JamJet.Workflow
import Mathlib.Data.Finset.Sort

/-! The consolidation engine: eight operations that keep long-term memory in order.  What the
engine asks of its stores, the embedding provider and the model are its calls. -/

namespace JamJet.Engram

open AtomicCalls Prog

inductive ConsolidationOp
  | decay
  | promote
  | dedup
  | summarize
  | reflect
  | entitySummary
  | preferenceRollup
  | timelineBuilder
  deriving DecidableEq, Repr

/-- What the decay formula says of a fact at a time. -/
inductive Decayed
  | unchanged
  | archived
  | lowered (confidence : F32)

structure ConsolidationConfig (Score : Type) where
  enabledOps : List ConsolidationOp := [.decay, .promote, .dedup, .summarize, .reflect,
    .entitySummary, .preferenceRollup, .timelineBuilder]
  decay : Fact → Instant → Decayed
  promoteAccessCount : ℕ := 3
  dedupSimilarity : Score
  /-- The score 0.99, above which a match is merged. -/
  mergeAbove : Score
  summarizeThreshold : ℕ := 100
  reflectMinFacts : ℕ := 10
  maxLlmCalls : ℕ := 10

structure ConsolidationResult where
  factsDecayed : ℕ := 0
  factsArchived : ℕ := 0
  factsPromoted : ℕ := 0
  factsDeduped : ℕ := 0
  factsSummarized : ℕ := 0
  insightsGenerated : ℕ := 0
  entitySummariesGenerated : ℕ := 0
  preferencesRolledUp : ℕ := 0
  timelineEventsOrdered : ℕ := 0
  llmCallsUsed : ℕ := 0
  deriving DecidableEq, Repr

/-- The calls of the engine. -/
inductive MemoryCall (Score : Type) : Type → Type
  | listFacts (filter : FactFilter) : MemoryCall Score (List Fact)
  | updateFact (id : FactId) (patch : FactPatch) : MemoryCall Score Fact
  | invalidateFact (id : FactId) : MemoryCall Score Unit
  | insertFact (fact : Fact) : MemoryCall Score FactId
  | deleteVector (id : FactId) : MemoryCall Score Unit
  | upsertVector (id : FactId) (embedding : Embedding) : MemoryCall Score Unit
  | search (query : Embedding) (scope : Option Scope) (minScore : Option Score) (topK : ℕ) :
      MemoryCall Score (List (VectorMatch Score))
  | embed (texts : List String) : MemoryCall Score (List Embedding)
  | structuredOutput (system user : String) : MemoryCall Score Json
  | utcNow : MemoryCall Score Instant
  | newFactId : MemoryCall Score FactId

abbrev Upkeep (Score : Type) := Prog (MemoryCall Score) MemoryError

namespace Consolidation

variable {Score : Type}

/-! What the operations list -/

def validFilter (scope : Scope) : FactFilter := { scope := some scope }

def knowledgeFilter (scope : Scope) : FactFilter := { scope := some scope, tier := some .knowledge }

def conversationFilter (scope : Scope) : FactFilter :=
  { scope := some scope, tier := some .conversation }

def preferenceFilter (scope : Scope) : FactFilter :=
  { scope := some scope, category := some "preference" }

/-! Operations without a model -/

section WithoutModel

variable (cfg : ConsolidationConfig Score) (scope : Scope)

/-- Lower the confidence of stale knowledge, or archive it: how many of either, and how many
archived. -/
def opDecay : Upkeep Score (ℕ × ℕ) := do
  let facts ← perform (.listFacts (knowledgeFilter scope))
  let now ← perform .utcNow
  facts.foldlM (fun acc fact =>
    match cfg.decay fact now with
    | .unchanged => pure acc
    | .archived => do
        perform (.invalidateFact fact.id)
        perform (.deleteVector fact.id)
        pure (acc.1 + 1, acc.2 + 1)
    | .lowered confidence => do
        let _ ← perform (.updateFact fact.id { confidence := some confidence })
        pure (acc.1 + 1, acc.2)) (0, 0)

/-- Move frequently accessed conversation facts to the knowledge tier. -/
def opPromote : Upkeep Score ℕ := do
  let facts ← perform (.listFacts (conversationFilter scope))
  facts.foldlM (fun promoted fact =>
    if cfg.promoteAccessCount ≤ fact.accessCount then do
      let _ ← perform (.updateFact fact.id { tier := some .knowledge })
      pure (promoted + 1)
    else pure promoted) 0

section Dedup

variable [LinearOrder Score]

/-- Merge a match into a fact: keep the fact, invalidate the match and link the two. -/
def dedupMatch (fact : Fact) (acc : List FactId × ℕ) (hit : VectorMatch Score) :
    Upkeep Score (List FactId × ℕ) :=
  if hit.id = fact.id || acc.1.contains hit.id then pure acc
  else if cfg.mergeAbove < hit.score then do
    perform (.invalidateFact hit.id)
    perform (.deleteVector hit.id)
    let _ ← (perform (.updateFact hit.id { supersededBy := some fact.id })).attempt
    pure (acc.1 ++ [hit.id], acc.2 + 1)
  else pure acc

/-- Merge what is close to a fact, by its embedding where there is one. -/
def dedupNear (acc : List FactId × ℕ) (fact : Fact) :
    Option Embedding → Upkeep Score (List FactId × ℕ)
  | none => pure acc
  | some embedding => do
      let hits ← perform (.search embedding (some scope) (some cfg.dedupSimilarity) 10)
      hits.foldlM (dedupMatch cfg fact) acc

def dedupFact (acc : List FactId × ℕ) (fact : Fact) : Upkeep Score (List FactId × ℕ) :=
  if acc.1.contains fact.id then pure acc
  else do
    let embeddings ← (perform (.embed [fact.text])).attempt
    dedupNear cfg scope acc fact (embeddings.toOption.bind List.getLast?)

/-- Merge near-duplicates among the valid facts. -/
def opDedup : Upkeep Score ℕ := do
  let facts ← perform (.listFacts (validFilter scope))
  let acc ← facts.foldlM (dedupFact cfg scope) ([], 0)
  pure acc.2

end Dedup

/-- Set one metadata key of each of these facts; an error is passed over. -/
def tagEach (tagged : List (Fact × String × Json)) : Upkeep Score Unit :=
  forEach tagged fun tag => do
    let _ ← (perform (.updateFact tag.1.id { metadata := [tag.2] })).attempt
    pure ()

/-- Marks for facts an operation has dealt with. -/
def marks (key : String) (facts : List Fact) : List (Fact × String × Json) :=
  facts.map fun fact => (fact, key, .bool true)

/-- The facts that carry an event date, each with it. -/
def datedFacts (facts : List Fact) : List (Fact × String) :=
  facts.filterMap fun fact => fact.eventDate.map fun date => (fact, date)

/-- By date; the sort is stable. -/
def timeline (facts : List Fact) : List (Fact × String) :=
  (datedFacts facts).insertionSort fun a b => a.2 ≤ b.2

def timelineTags (facts : List Fact) : List (Fact × String × Json) :=
  (timeline facts).zipIdx.map fun entry =>
    (entry.1.1, "timeline_position", Json.ofNat entry.2)

/-- Tag dated facts with their position in the order of their dates. -/
def opTimelineBuilder : Upkeep Score ℕ := do
  let facts ← perform (.listFacts (validFilter scope))
  if (datedFacts facts).isEmpty then pure 0
  else do
    tagEach (timelineTags facts)
    pure (datedFacts facts).length

end WithoutModel

/-! Operations that ask the model -/

section WithModel

variable (cfg : ConsolidationConfig Score) (scope : Scope) (maxCalls : ℕ)

/-- Embed a text and store it as knowledge, the rest of the fact filled in. -/
def storeKnowledge (text : String) (fill : Fact → Fact) : Upkeep Score Unit := do
  let embeddings ← perform (.embed [text])
  let embedding := embeddings.getLast?.getD []
  let freshId ← perform .newFactId
  let now ← perform .utcNow
  let id ← perform (.insertFact (fill { Fact.new freshId now text scope with tier := .knowledge }))
  perform (.upsertVector id embedding)

/-- The texts of an array member of an answer. -/
def answerTexts (response : Json) (key : String) : List String :=
  match response.get key with
  | some (.array items) => items.filterMap Json.asStr
  | _ => []

def summarizeSystem : String :=
  "You are a memory summarization engine. Given a list of conversation facts, produce 1-3 concise knowledge-level summaries that capture the key information. Respond with JSON: \x7b\"summaries\": [\"summary1\", \"summary2\"]\x7d"

def reflectSystem : String :=
  "You are a memory reflection engine. Given a list of facts about a user/topic, generate 1-2 higher-order insights or patterns. Each insight should be a concise statement that captures something not explicitly stated by any single fact. Respond with JSON: \x7b\"insights\": [\"insight1\", \"insight2\"]\x7d"

def entitySummarySystem : String :=
  "You are a memory consolidation engine. Given a list of facts about a single entity, produce one concise wiki-style summary paragraph. Respond with JSON: \x7b\"summary\": \"...\"\x7d"

def rollupSystem : String :=
  "You are a memory consolidation engine. Given a list of user preference facts, produce a single consolidated preference profile as a concise paragraph. Respond with JSON: \x7b\"profile\": \"...\"\x7d"

/-- The texts of facts, as the items of a list in a prompt. -/
def promptOf (facts : List Fact) : String := "\n- ".intercalate (facts.map (·.text))

/-- Condense conversation facts into knowledge, and mark them. -/
def opSummarize : Upkeep Score (ℕ × ℕ) := do
  let facts ← perform (.listFacts (conversationFilter scope))
  if facts.length < cfg.summarizeThreshold then pure (0, 0)
  else do
    let response ← perform (.structuredOutput summarizeSystem
      ("Summarize these conversation facts into knowledge:\n- " ++ promptOf facts))
    let summaries := answerTexts response "summaries"
    forEach summaries fun text => storeKnowledge scope text fun fact =>
      { fact with source := some "consolidation:summarize", confidence := some 0x3F59999A#32 }
    tagEach (marks "summarized" facts)
    pure (summaries.length, min 1 maxCalls)

/-- Draw insights from knowledge. -/
def opReflect : Upkeep Score (ℕ × ℕ) :=
  if maxCalls = 0 then pure (0, 0)
  else do
    let facts ← perform (.listFacts (knowledgeFilter scope))
    if facts.length < cfg.reflectMinFacts then pure (0, 0)
    else do
      let response ← perform (.structuredOutput reflectSystem
        ("Generate insights from these facts:\n- " ++ promptOf (facts.take 30)))
      let insights := answerTexts response "insights"
      forEach insights fun text => storeKnowledge scope text fun fact =>
        { fact with source := some "consolidation:reflect", confidence := some 0x3F4CCCCD#32 }
      pure (insights.length, 1)

/-- The facts that refer to an entity, as often as they do. -/
def entityGroup (facts : List Fact) (entity : EntityId) : List Fact :=
  facts.flatMap fun fact => (fact.entityRefs.filter (· = entity)).map fun _ => fact

/-- The entities the facts refer to, in the order the map of groups is walked. -/
def entities (order : HashOrder EntityId) (facts : List Fact) : List EntityId :=
  order.walk (facts.flatMap (·.entityRefs)).toFinset

/-- The order in which the ids come sorted. -/
def ascending : HashOrder EntityId where
  walk ids := ids.sort (· ≤ ·)
  nodup _ := Finset.sort_nodup _ (· ≤ ·)
  mem_walk _ _ := Finset.mem_sort (· ≤ ·)

/-- Summarize one group, as long as there are calls left. -/
def summarizeEntity (facts : List Fact) (acc : ℕ × ℕ) (entity : EntityId) :
    Upkeep Score (ℕ × ℕ) :=
  let group := entityGroup facts entity
  if group.length < 3 || maxCalls ≤ acc.2 then pure acc
  else do
    let response ← perform (.structuredOutput entitySummarySystem
      ("Summarize these facts about entity " ++ toString entity ++ " into a single paragraph:\n- " ++
        promptOf group))
    match (response.get "summary").bind Json.asStr with
    | some text => do
        storeKnowledge scope text fun fact =>
          { fact with
            source := some "consolidation:entity_summary"
            confidence := some 0x3F59999A#32
            entityRefs := [entity] }
        pure (acc.1 + 1, acc.2 + 1)
    | none => pure (acc.1, acc.2 + 1)

/-- One summary for each entity with three facts or more. -/
def opEntitySummary (order : HashOrder EntityId) : Upkeep Score (ℕ × ℕ) :=
  if maxCalls = 0 then pure (0, 0)
  else do
    let facts ← perform (.listFacts (validFilter scope))
    (entities order facts).foldlM (summarizeEntity scope maxCalls facts) (0, 0)

/-- Roll preferences up into one profile, and mark them. -/
def opPreferenceRollup : Upkeep Score (ℕ × ℕ) :=
  if maxCalls = 0 then pure (0, 0)
  else do
    let facts ← perform (.listFacts (preferenceFilter scope))
    if facts.isEmpty then pure (0, 0)
    else do
      let response ← perform (.structuredOutput rollupSystem
        ("Roll up these user preferences into a profile:\n- " ++ promptOf facts))
      match (response.get "profile").bind Json.asStr with
      | some text => do
          storeKnowledge scope text fun fact =>
            { fact with
              category := some "preference"
              source := some "consolidation:preference_rollup"
              confidence := some 0x3F666666#32 }
          tagEach (marks "rolled_up" facts)
          pure (facts.length, 1)
      | none => pure (0, 1)

end WithModel

/-! The cycle -/

section Run

variable [LinearOrder Score] (cfg : ConsolidationConfig Score) (order : HashOrder EntityId)
  (scope : Scope) (hasModel : Bool)

/-- An operation that asks the model runs when there is a model and calls are left. -/
def withModel (result : ConsolidationResult) (op : ℕ → Upkeep Score (ℕ × ℕ))
    (record : ConsolidationResult → ℕ → ConsolidationResult) : Upkeep Score ConsolidationResult :=
  if hasModel && result.llmCallsUsed < cfg.maxLlmCalls then do
    let done ← op (cfg.maxLlmCalls - result.llmCallsUsed)
    pure { record result done.1 with llmCallsUsed := result.llmCallsUsed + done.2 }
  else pure result

def runOp (result : ConsolidationResult) : ConsolidationOp → Upkeep Score ConsolidationResult
  | .decay => do
      let done ← opDecay cfg scope
      pure { result with factsDecayed := done.1, factsArchived := done.2 }
  | .promote => do
      let promoted ← opPromote cfg scope
      pure { result with factsPromoted := promoted }
  | .dedup => do
      let deduped ← opDedup cfg scope
      pure { result with factsDeduped := deduped }
  | .summarize => withModel cfg hasModel result (opSummarize cfg scope)
      fun r n => { r with factsSummarized := n }
  | .reflect => withModel cfg hasModel result (opReflect cfg scope)
      fun r n => { r with insightsGenerated := n }
  | .entitySummary => withModel cfg hasModel result (opEntitySummary scope · order)
      fun r n => { r with entitySummariesGenerated := n }
  | .preferenceRollup => withModel cfg hasModel result (opPreferenceRollup scope)
      fun r n => { r with preferencesRolledUp := n }
  | .timelineBuilder => do
      let ordered ← opTimelineBuilder scope
      pure { result with timelineEventsOrdered := ordered }

/-- Run the enabled operations in sequence. -/
def run : Upkeep Score ConsolidationResult :=
  cfg.enabledOps.foldlM (runOp cfg order scope hasModel) {}

end Run

end Consolidation

end JamJet.Engram
