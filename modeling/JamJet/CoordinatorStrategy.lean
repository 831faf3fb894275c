import JamJet.Json
import JamJet.Ranking
import Mathlib.Data.Finset.Card
import Mathlib.Data.Finset.SDiff

/-! The default coordinator strategy of the Python SDK: agents are discovered by their skills and
trust domain, scored on five dimensions, and the first of the ranking is taken, unless a model is
asked to break the tie. -/

namespace JamJet.Coordinator

/-- An agent as the registry lists it. -/
structure Agent where
  uri : String
  skills : List String := []
  latencyClass : Option String := none
  costClass : Option String := none
  trustDomain : Option String := none
  reasoningModes : List String := []

/-- The skills are those of a set. -/
structure AgentCandidate where
  uri : String
  skills : List String
  latencyClass : Option String
  costClass : Option String
  trustDomain : Option String
  reasoningModes : List String
  deriving DecidableEq

/-- An agent that is passed over. -/
structure Rejected where
  uri : String
  reason : String
  deriving DecidableEq

structure DimensionScores (F : Type) where
  capabilityFit : F
  costFit : F
  latencyFit : F
  trustCompatibility : F
  historicalPerformance : F

structure ScoringResult (F : Type) where
  agentUri : String
  scores : DimensionScores F
  composite : F

/-- The reasoning is whatever the model wrote there. -/
structure Decision (F : Type) where
  selectedUri : Option String
  method : String
  reasoning : Json := .null
  confidence : F
  rejected : List Rejected := []
  tiebreakerTokens : Option (ℕ × ℕ) := none

structure LlmResponse where
  text : String
  inputTokens : ℕ
  outputTokens : ℕ

/-- What Python does with texts and values. -/
structure Python where
  /-- `json.loads` of the text without the white space around it. -/
  loads : String → Except String Json
  str : Json → String
  /-- The error of a value that has no `get`. -/
  noAttribute : Json → String
  unhashable : Json → String
  setText : Finset String → String

namespace DefaultStrategy

section Discovery

variable (py : Python) (requiredSkills : List String) (trustDomain : Option String)

def domainText (domain : Option String) : String := domain.getD "None"

/-- Why an agent is excluded, if it is. -/
def exclusion (agent : Agent) : Option String :=
  if ¬ requiredSkills ⊆ agent.skills then
    some ("missing skills: " ++ py.setText (requiredSkills.toFinset \ agent.skills.toFinset))
  else if trustDomain.getD "" ≠ "" ∧ agent.trustDomain ≠ trustDomain then
    some ("trust domain mismatch: " ++ domainText agent.trustDomain ++ " != " ++
      domainText trustDomain)
  else none

def toCandidate (agent : Agent) : AgentCandidate where
  uri := agent.uri
  skills := agent.skills.dedup
  latencyClass := agent.latencyClass
  costClass := agent.costClass
  trustDomain := agent.trustDomain
  reasoningModes := agent.reasoningModes

/-- Without a registry there are no agents. -/
def discover (registry : Option (List Agent)) : List AgentCandidate × List Rejected :=
  let allAgents := registry.getD []
  ((allAgents.filter fun agent => exclusion py requiredSkills trustDomain agent = none).map
      toCandidate,
    allAgents.filterMap fun agent =>
      (exclusion py requiredSkills trustDomain agent).map (⟨agent.uri, ·⟩))

end Discovery

section Scoring

variable {F : Type} [LinearOrder F] [Zero F] [One F] [Add F] [Sub F] [Mul F] [Div F] [NatCast F]

/-- A literal with one decimal. -/
def tenths (n : ℕ) : F := (n : F) / ((10 : ℕ) : F)

def sum (xs : List F) : F := xs.foldl (· + ·) 0

def dimensions (s : DimensionScores F) : List (String × F) :=
  [("capability_fit", s.capabilityFit), ("cost_fit", s.costFit), ("latency_fit", s.latencyFit),
    ("trust_compatibility", s.trustCompatibility),
    ("historical_performance", s.historicalPerformance)]

/-- The weights are divided by their own sum, also where one is missing. -/
def composite (weights : List (String × F)) (s : DimensionScores F) : F :=
  let w := if weights.isEmpty then (dimensions s).map fun dim => (dim.1, 1) else weights
  let totalWeight := sum (w.map (·.2))
  if totalWeight = 0 then 0
  else sum ((dimensions s).map fun dim => dim.2 * (w.lookup dim.1).getD 1) / totalWeight

def scoreCapability (candidate : AgentCandidate) : F :=
  if candidate.skills.isEmpty then tenths 3
  else min ((candidate.skills.length : F) / ((5 : ℕ) : F)) 1

/-- The classes of cost and of latency. -/
def scoreClass (name : Option String) : F :=
  match name.getD "" with
  | "low" => 1
  | "medium" => tenths 7
  | "high" => tenths 4
  | _ => tenths 5

def scoreReasoningModes (preferred : List String) (candidate : AgentCandidate) : F :=
  if preferred.isEmpty ∨ candidate.reasoningModes.isEmpty then 0
  else
    let overlap := preferred.toFinset ∩ candidate.reasoningModes.toFinset
    tenths 2 * (overlap.card : F) / (preferred.length : F)

variable (weights : List (String × F)) (preferredReasoningModes : List String)

def scoreOf (c : AgentCandidate) : ScoringResult F :=
  let scores : DimensionScores F :=
    { capabilityFit := min (scoreCapability c + scoreReasoningModes preferredReasoningModes c) 1
      costFit := scoreClass c.costClass
      latencyFit := scoreClass c.latencyClass
      trustCompatibility := if c.trustDomain.getD "" ≠ "" then 1 else tenths 5
      historicalPerformance := tenths 5 }
  { agentUri := c.uri, scores, composite := composite weights scores }

/-- The difference between the first two. -/
def spreadOf : List (ScoringResult F) → F
  | first :: second :: _ => first.composite - second.composite
  | _ => 1

def score (candidates : List AgentCandidate) : List (ScoringResult F) × F :=
  let results := Ranking.rank ScoringResult.composite
    (candidates.map (scoreOf weights preferredReasoningModes))
  (results, spreadOf results)

end Scoring

section Decision

variable {F : Type} [LinearOrder F] [Zero F] [One F] [Sub F]

def lowerScore (r : ScoringResult F) : Rejected := ⟨r.agentUri, "lower score"⟩

def hashable : Json → Bool
  | .array _ | .object _ => false
  | _ => true

variable (py : Python) (reply : Except String LlmResponse)

/-- The uri and the reasoning of a reply, and its tokens, or the exception. -/
def readReply : Except String (Json × Json × (ℕ × ℕ)) := do
  let resp ← reply
  match ← py.loads resp.text with
  | .object fields =>
      let selectedUri := (BTree.get fields "selected_uri").getD (.string "")
      let reasoning := (BTree.get fields "reasoning").getD (.string "")
      if hashable selectedUri then
        .ok (selectedUri, reasoning, (resp.inputTokens, resp.outputTokens))
      else .error (py.unhashable selectedUri)
  | parsed => .error (py.noAttribute parsed)

/-- The tied candidate of this uri; any other value falls back to the first, and says so. -/
def validated (first : ScoringResult F) (tied : List (ScoringResult F)) (selectedUri reasoning : Json) :
    ScoringResult F × Json :=
  match selectedUri with
  | .string uri =>
      match tied.find? (·.agentUri = uri) with
      | some c => (c, reasoning)
      | none => (first, .string ("LLM returned invalid URI, falling back. Original: " ++
          py.str reasoning))
  | _ => (first, .string ("LLM returned invalid URI, falling back. Original: " ++ py.str reasoning))

/-- Only the three leading candidates are shown. -/
def llmTiebreaker (first : ScoringResult F) (rest : List (ScoringResult F)) : Decision F :=
  let tied := (first :: rest).take 3
  match readReply py reply with
  | .ok (selectedUri, reasoning, tokens) =>
      let (selected, reasoning) := validated py first tied selectedUri reasoning
      { selectedUri := some selected.agentUri
        method := "llm_tiebreaker"
        reasoning
        confidence := selected.composite
        rejected := (tied.filter (·.agentUri ≠ selected.agentUri)).map
          fun c => ⟨c.agentUri, "not selected by tiebreaker"⟩
        tiebreakerTokens := some tokens }
  | .error e =>
      { selectedUri := some first.agentUri
        method := "tiebreaker_failed"
        reasoning := .string ("LLM tiebreaker failed: " ++ e)
        confidence := first.composite
        rejected := rest.map lowerScore }

variable (threshold : F) (tiebreakerModel : String)

def decide : List (ScoringResult F) → Decision F
  | [] => { selectedUri := none, method := "no_candidates", confidence := 0 }
  | selected :: rest =>
      if spreadOf (selected :: rest) ≤ threshold ∧ tiebreakerModel ≠ "" ∧ rest ≠ [] then
        llmTiebreaker py reply selected rest
      else
        { selectedUri := some selected.agentUri
          method := "structured"
          confidence := selected.composite
          rejected := rest.map lowerScore }

end Decision

end DefaultStrategy

end JamJet.Coordinator
