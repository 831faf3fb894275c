import JamJet.CoordinatorStrategy
import Mathlib.Algebra.Order.Field.Rat
import Mathlib.Tactic.NormNum

/-! The coordinator node: discovery, scoring and decision by way of the strategy bridge, and when the
decision accounts for every agent that could have been chosen. -/

namespace JamJet.Coordinator

open DefaultStrategy Ranking

/-! ### The executor -/

section Executor

variable {F : Type}

/-- The fields of the payload that routing reads, with their defaults. -/
structure Config (F : Type) where
  requiredSkills : List String := []
  trustDomain : Option String := none
  outputKey : String := "result"
  threshold : F
  tiebreakerModel : String := "claude-sonnet-4-6"
  maxCandidates : ℕ := 3
  weights : List (String × F) := []
  preferredReasoningModes : List String := []

/-- The calls of the bridge that fail, with their errors, and the error of a reply that is no
`DecideResponse`. -/
structure Calls where
  discover : Option String := none
  score : Option String := none
  decide : Option String := none
  undecodable : String

structure ScoringEntry (F : Type) where
  uri : String
  scores : Option (DimensionScores F) := none
  composite : F

structure DecisionEvent (F : Type) where
  selected : Option String
  method : String
  reasoning : Option String := none
  confidence : F
  rejected : List Rejected := []
  tiebreakerTokens : Option (ℕ × ℕ) := none

inductive Event (F : Type)
  | discovery (querySkills : List String) (queryTrustDomain : Option String)
      (candidates : List (String × List String)) (filteredOut : List Rejected)
  | scoring (rankings : List (ScoringEntry F)) (spread : F) (weights : List (String × F))
  | decision (d : DecisionEvent F)

/-- The output is an object of one key, or null. -/
structure ExecutionResult (F : Type) where
  output : Option (String × String)
  events : List (Event F)
  genAiModel : Option String := none

def ScoringResult.entry (r : ScoringResult F) : ScoringEntry F where
  uri := r.agentUri
  scores := some r.scores
  composite := r.composite

/-- `Option<String>` of a JSON value. -/
def readText : Json → Option (Option String)
  | .null => some none
  | .string s => some (some s)
  | _ => none

section Steps

variable [LinearOrder F] [Zero F] [One F] [Sub F] (py : Python) (calls : Calls)
  (reply : Except String LlmResponse) (cfg : Config F)

def noCandidates : DecisionEvent F where
  selected := none
  method := "no_candidates"
  confidence := 0

/-- The bridge's call, and the reply as it is read. -/
def bridgeDecide (topCandidates : List (ScoringResult F)) :
    Except String (Decision F × Option String) :=
  match calls.decide with
  | some e => .error e
  | none =>
      let decision := DefaultStrategy.decide py reply cfg.threshold cfg.tiebreakerModel topCandidates
      match readText decision.reasoning with
      | some reasoning => .ok (decision, reasoning)
      | none => .error calls.undecodable

def structured (top : ScoringResult F) (rest : List (ScoringResult F)) : DecisionEvent F where
  selected := some top.agentUri
  method := "structured"
  confidence := top.composite
  rejected := rest.map lowerScore

/-- The decision among the first of the ranking, and the model that was used. -/
def tiebreak (topN : List (ScoringResult F)) : DecisionEvent F × Option String :=
  match bridgeDecide py calls reply cfg topN with
  | .ok (r, reasoning) =>
      ({ selected := r.selectedUri
         method := r.method
         reasoning
         confidence := r.confidence
         rejected := r.rejected
         tiebreakerTokens := r.tiebreakerTokens },
        if r.method = "llm_tiebreaker" then some cfg.tiebreakerModel else none)
  | .error e =>
      ({ selected := topN.head?.map (·.agentUri)
         method := "tiebreaker_failed"
         reasoning := some ("Tiebreaker error: " ++ e)
         confidence := topN.head?.elim 0 (·.composite) }, none)

end Steps

variable [LinearOrder F] [Zero F] [One F] [Add F] [Sub F] [Mul F] [Div F] [NatCast F]
  (py : Python) (calls : Calls) (reply : Except String LlmResponse)
  (registry : Option (List Agent)) (cfg : Config F)

def execute : Except String (ExecutionResult F) :=
  match calls.discover with
  | some e => .error ("Discovery failed: " ++ e)
  | none =>
      let (candidates, filteredOut) := discover py cfg.requiredSkills cfg.trustDomain registry
      let discovery := .discovery cfg.requiredSkills cfg.trustDomain
        (candidates.map fun c => (c.uri, c.skills)) filteredOut
      match candidates with
      | [] => .ok { output := none, events := [discovery, .decision noCandidates] }
      | [only] =>
          .ok { output := some (cfg.outputKey, only.uri)
                events := [discovery, .scoring [{ uri := only.uri, composite := 1 }] 1 cfg.weights,
                  .decision { selected := some only.uri, method := "single_candidate",
                              confidence := 1 }] }
      | _ =>
          match calls.score with
          | some e => .error ("Scoring failed: " ++ e)
          | none =>
              let (rankings, spread) :=
                score cfg.weights cfg.preferredReasoningModes candidates
              let scoring := .scoring (rankings.map ScoringResult.entry) spread cfg.weights
              match rankings with
              | [] => .ok { output := none, events := [scoring, .decision noCandidates] }
              | top :: rest =>
                  let (decision, model) :=
                    if cfg.threshold < spread then (structured top rest, none)
                    else tiebreak py calls reply cfg (rankings.take cfg.maxCandidates)
                  .ok { output := decision.selected.map (cfg.outputKey, ·)
                        events := [discovery, scoring, .decision decision]
                        genAiModel := model }

end Executor

/-! ### What routing is for -/

section Purpose

variable {F : Type}

/-- An agent with the required skills, of the trust domain if one is asked for. -/
def Eligible (cfg : Config F) (agent : Agent) : Prop :=
  cfg.requiredSkills ⊆ agent.skills ∧
    (cfg.trustDomain.getD "" = "" ∨ agent.trustDomain = cfg.trustDomain)

instance (cfg : Config F) : DecidablePred (Eligible cfg) :=
  fun _ => inferInstanceAs (Decidable (_ ∧ _))

/-- The outcome selects this uri, or none, in a decision with this list of rejected agents. -/
def Decides (outcome : Except String (ExecutionResult F)) (cfg : Config F)
    (selected : Option String) (rejected : List Rejected) : Prop :=
  ∃ result d, outcome = .ok result ∧ .decision d ∈ result.events ∧ d.selected = selected ∧
    result.output = selected.map (cfg.outputKey, ·) ∧ d.rejected = rejected

/-- One of the eligible agents is selected and each other one is named once, and where none is
eligible none is selected. -/
structure Routes (cfg : Config F) (agents : List Agent)
    (outcome : Except String (ExecutionResult F)) : Prop where
  accounts : (∃ agent ∈ agents, Eligible cfg agent) → ∃ chosen ∈ agents, Eligible cfg chosen ∧
    ∃ rejected, Decides outcome cfg (some chosen.uri) rejected ∧
      ∀ other ∈ agents, Eligible cfg other → other.uri ≠ chosen.uri →
        (rejected.map (·.uri)).count other.uri = 1
  selectsNone : (∀ agent ∈ agents, ¬ Eligible cfg agent) → ∃ rejected, Decides outcome cfg none rejected

/-- What the model answers leaves the others of the list named: it is no answer and the ranking
stands, or there are three at most and the reasoning is a text, unless the uri is none of theirs. -/
def Answered (py : Python) (reply : Except String LlmResponse) (uris : List String) : Prop :=
  match readReply py reply with
  | .error _ => True
  | .ok (selectedUri, reasoning, _) => uris.length ≤ 3 ∧
      ((readText reasoning).isSome = true ∨ ∀ uri ∈ uris, selectedUri ≠ .string uri)

variable [LinearOrder F] [Zero F] [One F] [Add F] [Sub F] [Mul F] [Div F] [NatCast F]

def agentScore (cfg : Config F) (agent : Agent) : ScoringResult F :=
  scoreOf cfg.weights cfg.preferredReasoningModes (toCandidate agent)

/-- An eligible agent's score is above that of every other by more than the threshold. -/
def Leads (cfg : Config F) (eligible : List Agent) : Prop :=
  ∃ c others, eligible.Perm (c :: others) ∧ ∀ d ∈ others,
    cfg.threshold < (agentScore cfg c).composite - (agentScore cfg d).composite

/-- The inputs on which everyone is accounted for: one agent at most is eligible, or one leads, or
the call to decide goes through, the cut keeps them all, and so does the model's answer. -/
def Kept (py : Python) (calls : Calls) (reply : Except String LlmResponse) (cfg : Config F)
    (eligible : List Agent) : Prop :=
  eligible.length ≤ 1 ∨ Leads cfg eligible ∨
    calls.decide = none ∧ eligible.length ≤ cfg.maxCandidates ∧
      (cfg.tiebreakerModel = "" ∨ Answered py reply (eligible.map (·.uri)))

end Purpose

/-! ### Who is ranked -/

section Discovery

variable {F : Type} {py : Python} {cfg : Config F} {agents : List Agent} {agent : Agent}

theorem exclusion_eq_none :
    exclusion py cfg.requiredSkills cfg.trustDomain agent = none ↔ Eligible cfg agent := by
  unfold exclusion Eligible
  by_cases hskills : cfg.requiredSkills ⊆ agent.skills
  · by_cases hdomain : cfg.trustDomain.getD "" ≠ "" ∧ agent.trustDomain ≠ cfg.trustDomain
    · rw [if_neg (not_not.mpr hskills), if_pos hdomain]
      exact iff_of_false (by simp) fun h => h.2.elim hdomain.1 hdomain.2
    · rw [if_neg (not_not.mpr hskills), if_neg hdomain]
      exact iff_of_true rfl ⟨hskills, by tauto⟩
  · rw [if_pos hskills]
    exact iff_of_false (by simp) fun h => hskills h.1

/-- The agents that can be chosen, in the order of the registry. -/
def eligibleOf (cfg : Config F) (agents : List Agent) : List Agent :=
  agents.filter fun agent => Eligible cfg agent

theorem mem_eligibleOf : agent ∈ eligibleOf cfg agents ↔ agent ∈ agents ∧ Eligible cfg agent := by
  rw [eligibleOf, List.mem_filter, decide_eq_true_eq]

variable (py cfg) in
theorem discover_fst (registry : Option (List Agent)) :
    (discover py cfg.requiredSkills cfg.trustDomain registry).1 =
      (eligibleOf cfg (registry.getD [])).map toCandidate := by
  unfold discover eligibleOf
  dsimp only
  congr 1
  refine List.filter_congr fun agent _ => ?_
  rw [decide_eq_decide, exclusion_eq_none]

variable [LinearOrder F] [Zero F] [One F] [Add F] [Sub F] [Mul F] [Div F] [NatCast F]

/-- The eligible agents by descending score. -/
def ranked (cfg : Config F) (eligible : List Agent) : List Agent :=
  rank (fun agent => (agentScore cfg agent).composite) eligible

variable (cfg) in
theorem score_fst (eligible : List Agent) :
    (score cfg.weights cfg.preferredReasoningModes (eligible.map toCandidate)).1 =
      (ranked cfg eligible).map (agentScore cfg) := by
  unfold score ranked
  dsimp only
  rw [List.map_map, rank_map]
  rfl

theorem leads_iff [MonotoneSub F] {eligible : List Agent} (h : 2 ≤ eligible.length) :
    cfg.threshold < spreadOf ((ranked cfg eligible).map (agentScore cfg)) ↔
      Leads cfg eligible := by
  have hlength : (ranked cfg eligible).length = eligible.length := rank_perm.length_eq
  rcases hranked : ranked cfg eligible with _ | ⟨first, _ | ⟨second, rest⟩⟩
  · rw [hranked] at hlength
    simp only [List.length_nil] at hlength
    omega
  · rw [hranked] at hlength
    simp only [List.length_singleton] at hlength
    omega
  · exact lead_iff hranked cfg.threshold

end Discovery

/-! ### Who is named -/

section Decision

variable {F : Type} {uris : List String} {n : ℕ} {d : DecisionEvent F}

/-- A decision for one of the first `n`, in which the others of these are rejected. -/
def Cut (uris : List String) (n : ℕ) (d : DecisionEvent F) : Prop :=
  ∃ c ∈ uris.take n, d.selected = some c ∧
    d.rejected.map (·.uri) = (uris.take n).filter (· ≠ c)

variable {rankings rest : List (ScoringResult F)} {first : ScoringResult F}

theorem cut_lowerScore (hnodup : (rankings.map (·.agentUri)).Nodup)
    (htake : rankings.take n = first :: rest) (hselected : d.selected = some first.agentUri)
    (hrejected : d.rejected = rest.map lowerScore) : Cut (rankings.map (·.agentUri)) n d := by
  have huris : (rankings.map (·.agentUri)).take n =
      first.agentUri :: rest.map (·.agentUri) := by
    rw [← List.map_take, htake, List.map_cons]
  have hhead : (first.agentUri :: rest.map (·.agentUri)).Nodup := by
    rw [← huris]
    exact hnodup.sublist (List.take_sublist _ _)
  refine ⟨first.agentUri, ?_, hselected, ?_⟩
  · rw [huris]
    exact List.mem_cons_self
  · rw [huris, filter_ne_head hhead, hrejected, List.map_map]
    rfl

theorem cut_nobody (hselected : d.selected = some first.agentUri) (hrejected : d.rejected = []) :
    Cut ((first :: rest).map (·.agentUri)) 1 d := by
  refine ⟨first.agentUri, ?_, hselected, ?_⟩
  · simp
  · simp [hrejected]

section Reply

variable (py : Python) {tied : List (ScoringResult F)} (selectedUri reasoning : Json)

theorem validated_mem (hfirst : first ∈ tied) :
    (validated py first tied selectedUri reasoning).1 ∈ tied := by
  unfold validated
  split
  · split
    · next hfound => exact List.mem_of_find?_eq_some hfound
    · exact hfirst
  · exact hfirst

theorem validated_readable (first : ScoringResult F) (tied : List (ScoringResult F)) :
    (readText (validated py first tied selectedUri reasoning).2).isSome = true ↔
      (readText reasoning).isSome = true ∨ ∀ c ∈ tied, selectedUri ≠ .string c.agentUri := by
  unfold validated
  split
  · next uri =>
    split
    · next c hfound =>
      have hsame : c.agentUri = uri := by simpa using List.find?_some hfound
      refine (or_iff_left ?_).symm
      exact fun h => h c (List.mem_of_find?_eq_some hfound) (by rw [hsame])
    · next hnone =>
      refine iff_of_true rfl (.inr fun c hc heq => ?_)
      have hother := List.find?_eq_none.mp hnone c hc
      exact hother (by simpa using (Json.string.inj heq).symm)
  · next hnot => exact iff_of_true rfl (.inr fun c _ heq => hnot c.agentUri heq)

end Reply

variable [LinearOrder F] [Zero F] [One F] [Sub F] {py : Python} {calls : Calls}
  {reply : Except String LlmResponse} {cfg : Config F}

theorem tiebreak_error {e : String} {topN : List (ScoringResult F)}
    (h : bridgeDecide py calls reply cfg topN = .error e) :
    (tiebreak py calls reply cfg topN).1.selected = topN.head?.map (·.agentUri) ∧
      (tiebreak py calls reply cfg topN).1.rejected = [] := by
  rw [tiebreak, h]
  exact ⟨rfl, rfl⟩

theorem tiebreak_ok {topN : List (ScoringResult F)} {r : Decision F} {text : Option String}
    (hcall : calls.decide = none)
    (hdecide : DefaultStrategy.decide py reply cfg.threshold cfg.tiebreakerModel topN = r)
    (htext : readText r.reasoning = some text) :
    (tiebreak py calls reply cfg topN).1.selected = r.selectedUri ∧
      (tiebreak py calls reply cfg topN).1.rejected = r.rejected := by
  have hbridge : bridgeDecide py calls reply cfg topN = .ok (r, text) := by
    simp only [bridgeDecide, hcall, hdecide, htext]
  rw [tiebreak, hbridge]
  exact ⟨rfl, rfl⟩

theorem tiebreak_nil : (tiebreak py calls reply cfg []).1.selected = none := by
  cases hcall : calls.decide with
  | some e =>
    have hbridge : bridgeDecide py calls reply cfg [] = .error e := by
      simp only [bridgeDecide, hcall]
    exact (tiebreak_error hbridge).1
  | none => exact (tiebreak_ok hcall rfl rfl).1

omit [LinearOrder F] [Zero F] [One F] [Sub F] in
theorem cut_llmTiebreaker {selectedUri reasoning : Json} {tokens : ℕ × ℕ}
    (hreply : readReply py reply = .ok (selectedUri, reasoning, tokens))
    (htake : rankings.take n = first :: rest)
    (hselected : d.selected = (llmTiebreaker py reply first rest).selectedUri)
    (hrejected : d.rejected = (llmTiebreaker py reply first rest).rejected) :
    Cut (rankings.map (·.agentUri)) (min 3 n) d := by
  have huris : (rankings.map (·.agentUri)).take (min 3 n) =
      ((first :: rest).take 3).map (·.agentUri) := by
    rw [← List.map_take, ← List.take_take, htake]
  have hfirst : first ∈ (first :: rest).take 3 := List.mem_cons_self
  have hmem := validated_mem py selectedUri reasoning hfirst
  simp only [llmTiebreaker, hreply] at hselected hrejected
  refine ⟨_, ?_, hselected, ?_⟩
  · rw [huris]
    exact List.mem_map_of_mem hmem
  · rw [huris, hrejected, List.map_map, List.filter_map]
    rfl

omit [LinearOrder F] [Zero F] [One F] [Sub F] in
theorem answered_iff {selectedUri reasoning : Json} {tokens : ℕ × ℕ}
    (hreply : readReply py reply = .ok (selectedUri, reasoning, tokens)) :
    Answered py reply (rankings.map (·.agentUri)) ↔ rankings.length ≤ 3 ∧
      ((readText reasoning).isSome = true ∨
        ∀ c ∈ rankings, selectedUri ≠ .string c.agentUri) := by
  unfold Answered
  rw [hreply]
  simp only [List.length_map, List.forall_mem_map]

theorem cut_error {e : String} (htake : rankings.take n = first :: rest)
    (h : bridgeDecide py calls reply cfg (first :: rest) = .error e) :
    Cut (rankings.map (·.agentUri)) 1 (tiebreak py calls reply cfg (first :: rest)).1 := by
  obtain ⟨hselected, hrejected⟩ := tiebreak_error h
  obtain ⟨others, rfl⟩ : ∃ others, rankings = first :: others := by
    cases rankings with
    | nil => simp at htake
    | cons r others =>
      cases n with
      | zero => cases htake
      | succ n => exact ⟨others, by rw [(List.cons.inj htake).1]⟩
  exact cut_nobody hselected hrejected

/-- When the model is asked. -/
theorem cut_asked (hnodup : (rankings.map (·.agentUri)).Nodup) (hlength : 2 ≤ rankings.length)
    (htake : rankings.take n = first :: rest) (hcall : calls.decide = none)
    (hdecide : DefaultStrategy.decide py reply cfg.threshold cfg.tiebreakerModel (first :: rest) =
      llmTiebreaker py reply first rest) :
    ∃ k, Cut (rankings.map (·.agentUri)) k (tiebreak py calls reply cfg (first :: rest)).1 ∧
      (rankings.length ≤ k ↔ rankings.length ≤ n ∧
        Answered py reply (rankings.map (·.agentUri))) := by
  cases hreply : readReply py reply with
  | error e =>
    have htext : readText (llmTiebreaker py reply first rest).reasoning =
        some (some ("LLM tiebreaker failed: " ++ e)) := by
      simp only [llmTiebreaker, hreply, readText]
    obtain ⟨hselected, hrejected⟩ := tiebreak_ok hcall hdecide htext
    simp only [llmTiebreaker, hreply] at hselected hrejected
    refine ⟨n, cut_lowerScore hnodup htake hselected hrejected, ?_⟩
    simp [Answered, hreply]
  | ok read =>
    obtain ⟨selectedUri, reasoning, tokens⟩ := read
    have hreadable := validated_readable py selectedUri reasoning first ((first :: rest).take 3)
    have hreasoning : (llmTiebreaker py reply first rest).reasoning =
        (validated py first ((first :: rest).take 3) selectedUri reasoning).2 := by
      simp only [llmTiebreaker, hreply]
    rw [answered_iff hreply]
    cases htext : readText (validated py first ((first :: rest).take 3) selectedUri reasoning).2 with
    | some text =>
      obtain ⟨hselected, hrejected⟩ :=
        tiebreak_ok hcall hdecide ((congrArg readText hreasoning).trans htext)
      refine ⟨min 3 n, cut_llmTiebreaker hreply htake hselected hrejected, ?_⟩
      rw [le_min_iff]
      constructor
      · rintro ⟨hthree, hall⟩
        have htied : (first :: rest).take 3 = rankings := by
          rw [← htake, List.take_of_length_le hall, List.take_of_length_le hthree]
        rw [htext, htied] at hreadable
        exact ⟨hall, hthree, hreadable.mp rfl⟩
      · exact fun h => ⟨h.2.1, h.1⟩
    | none =>
      have hbridge : bridgeDecide py calls reply cfg (first :: rest) = .error calls.undecodable := by
        simp only [bridgeDecide, hcall, hdecide, hreasoning, htext]
      refine ⟨1, cut_error htake hbridge, iff_of_false (by omega) ?_⟩
      rintro ⟨-, -, hread⟩
      have hsubset : ∀ c ∈ (first :: rest).take 3, c ∈ rankings := fun c hc =>
        List.mem_of_mem_take (htake ▸ List.mem_of_mem_take hc : c ∈ rankings.take n)
      have hsome := hreadable.mpr (hread.imp_right fun h c hc => h c (hsubset c hc))
      rw [htext] at hsome
      cases hsome

/-- What a tie is cut to, and that nobody is cut off exactly if the call goes through, the ranking is
short enough, and no model is asked or its answer leaves everyone named. -/
theorem cut_tiebreak (hnodup : (rankings.map (·.agentUri)).Nodup) (hlength : 2 ≤ rankings.length)
    (hspread : spreadOf rankings ≤ cfg.threshold) (hmax : 0 < cfg.maxCandidates) :
    ∃ n, Cut (rankings.map (·.agentUri)) n
        (tiebreak py calls reply cfg (rankings.take cfg.maxCandidates)).1 ∧
      (rankings.length ≤ n ↔ calls.decide = none ∧ rankings.length ≤ cfg.maxCandidates ∧
        (cfg.tiebreakerModel = "" ∨ Answered py reply (rankings.map (·.agentUri)))) := by
  obtain ⟨first, rest, htake⟩ : ∃ first rest,
      rankings.take cfg.maxCandidates = first :: rest := by
    refine List.exists_cons_of_ne_nil fun hnil => ?_
    have hzero := congrArg List.length hnil
    rw [List.length_take, List.length_nil] at hzero
    omega
  rw [htake]
  cases hcall : calls.decide with
  | some e =>
    have hbridge : bridgeDecide py calls reply cfg (first :: rest) = .error e := by
      simp only [bridgeDecide, hcall]
    exact ⟨1, cut_error htake hbridge, iff_of_false (by omega) (by simp)⟩
  | none =>
    by_cases hask : spreadOf (first :: rest) ≤ cfg.threshold ∧ cfg.tiebreakerModel ≠ "" ∧ rest ≠ []
    · obtain ⟨n, hcut, hiff⟩ := cut_asked hnodup hlength htake hcall (if_pos hask)
      refine ⟨n, hcut, ?_⟩
      rw [hiff, or_iff_right hask.2.1]
      exact (and_iff_right rfl).symm
    · have hdecide : DefaultStrategy.decide py reply cfg.threshold cfg.tiebreakerModel
          (first :: rest) = { selectedUri := some first.agentUri, method := "structured",
                              confidence := first.composite, rejected := rest.map lowerScore } :=
        if_neg hask
      obtain ⟨hselected, hrejected⟩ := tiebreak_ok hcall hdecide rfl
      refine ⟨cfg.maxCandidates, cut_lowerScore hnodup htake hselected hrejected, ?_⟩
      constructor
      · intro hall
        have hwhole : rankings = first :: rest := by
          rw [← htake, List.take_of_length_le hall]
        refine ⟨rfl, hall, .inl ?_⟩
        by_contra hmodel
        refine hask ⟨hwhole ▸ hspread, hmodel, ?_⟩
        rintro rfl
        rw [hwhole, List.length_singleton] at hlength
        omega
      · exact fun h => h.2.1

end Decision

/-! ### Who is accounted for -/

section Routing

variable {F : Type} {py : Python} {calls : Calls} {reply : Except String LlmResponse}
  {registry : Option (List Agent)} {cfg : Config F}

theorem accounts_iff_of_cut {agents : List Agent} {uris : List String} {n : ℕ} {d : DecisionEvent F}
    (hperm : uris.Perm ((eligibleOf cfg agents).map (·.uri))) (hnodup : uris.Nodup)
    (hcut : Cut uris n d) :
    (∃ chosen ∈ agents, Eligible cfg chosen ∧ ∃ rejected,
      (d.selected = some chosen.uri ∧ d.rejected = rejected) ∧
        ∀ other ∈ agents, Eligible cfg other → other.uri ≠ chosen.uri →
          (rejected.map (·.uri)).count other.uri = 1) ↔ uris.length ≤ n := by
  obtain ⟨c, hc, hselected, hrejected⟩ := hcut
  have hmem : ∀ uri, uri ∈ uris ↔ ∃ agent ∈ agents, Eligible cfg agent ∧ agent.uri = uri := by
    intro uri
    rw [hperm.mem_iff, List.mem_map]
    simp only [mem_eligibleOf, and_assoc]
  rw [← count_others_iff hnodup hc]
  constructor
  · rintro ⟨chosen, -, -, rejected, ⟨hchosen, rfl⟩, hall⟩ uri huri hne
    obtain rfl : c = chosen.uri := Option.some.inj (hselected.symm.trans hchosen)
    obtain ⟨other, hother, helig, rfl⟩ := (hmem uri).mp huri
    rw [← hrejected]
    exact hall other hother helig hne
  · intro hall
    obtain ⟨chosen, hchosen, helig, rfl⟩ := (hmem c).mp (List.mem_of_mem_take hc)
    refine ⟨chosen, hchosen, helig, d.rejected, ⟨hselected, rfl⟩, fun other hother helig' hne => ?_⟩
    rw [hrejected]
    exact hall other.uri ((hmem other.uri).mpr ⟨other, hother, helig', rfl⟩) hne

theorem answered_perm {uris uris' : List String} (h : uris.Perm uris') :
    Answered py reply uris ↔ Answered py reply uris' := by
  unfold Answered
  rw [h.length_eq]
  simp only [h.mem_iff]

theorem decides_iff {discovery scoring : Event F} {d : DecisionEvent F} {model : Option String}
    {selected : Option String} {rejected : List Rejected}
    (hdiscovery : ∀ d', discovery ≠ .decision d') (hscoring : ∀ d', scoring ≠ .decision d') :
    Decides (.ok { output := d.selected.map (cfg.outputKey, ·)
                   events := [discovery, scoring, .decision d]
                   genAiModel := model }) cfg selected rejected ↔
      d.selected = selected ∧ d.rejected = rejected := by
  constructor
  · rintro ⟨result, d', hresult, hmem, hselected, -, hrejected⟩
    cases hresult
    have hd : d' = d := by simpa [hdiscovery, hscoring, eq_comm] using hmem
    rw [← hd]
    exact ⟨hselected, hrejected⟩
  · rintro ⟨rfl, rfl⟩
    exact ⟨_, d, rfl, by simp, rfl, rfl, rfl⟩

variable [LinearOrder F] [Zero F] [One F] [Add F] [Sub F] [Mul F] [Div F] [NatCast F]

/-- The decision on a ranking of two or more. -/
def decisionOn (py : Python) (calls : Calls) (reply : Except String LlmResponse) (cfg : Config F)
    (rankings : List (ScoringResult F)) : DecisionEvent F :=
  match rankings with
  | [] => noCandidates
  | top :: rest =>
      if cfg.threshold < spreadOf (top :: rest) then structured top rest
      else (tiebreak py calls reply cfg ((top :: rest).take cfg.maxCandidates)).1

variable (py reply) in
theorem decides_many (hdiscover : calls.discover = none) (hscore : calls.score = none)
    {agents : List Agent} (hagents : agents = eligibleOf cfg (registry.getD []))
    (hlength : 2 ≤ agents.length) (selected : Option String) (rejected : List Rejected) :
    Decides (execute py calls reply registry cfg) cfg selected rejected ↔
      (decisionOn py calls reply cfg ((ranked cfg agents).map (agentScore cfg))).selected =
          selected ∧
        (decisionOn py calls reply cfg ((ranked cfg agents).map (agentScore cfg))).rejected =
          rejected := by
  obtain ⟨first, second, others, hmany⟩ : ∃ first second others,
      agents = first :: second :: others := by
    rcases agents with _ | ⟨first, _ | ⟨second, others⟩⟩
    · simp at hlength
    · simp at hlength
    · exact ⟨first, second, others, rfl⟩
  have hfound := discover_fst py cfg registry
  rw [← hagents] at hfound
  have hrankings := score_fst cfg agents
  have hspread : (score cfg.weights cfg.preferredReasoningModes (agents.map toCandidate)).2 =
      spreadOf (score cfg.weights cfg.preferredReasoningModes (agents.map toCandidate)).1 := rfl
  unfold execute
  rw [hdiscover]
  generalize discover py cfg.requiredSkills cfg.trustDomain registry = found at hfound ⊢
  obtain ⟨candidates, filteredOut⟩ := found
  dsimp only at hfound ⊢
  have hnonempty : (ranked cfg agents).map (agentScore cfg) ≠ [] := by
    intro hnil
    have hnone : (ranked cfg agents).length = 0 := by
      rw [List.map_eq_nil_iff.mp hnil, List.length_nil]
    rw [ranked, rank_perm.length_eq] at hnone
    omega
  generalize (ranked cfg agents).map (agentScore cfg) = rankings at hrankings hnonempty ⊢
  subst hfound
  rw [hmany] at hrankings hspread ⊢
  simp only [List.map_cons] at hrankings hspread ⊢
  rw [hscore]
  generalize score cfg.weights cfg.preferredReasoningModes (toCandidate first ::
    toCandidate second :: others.map toCandidate) = scored at hrankings hspread ⊢
  obtain ⟨results, spread⟩ := scored
  dsimp only at hrankings hspread ⊢
  subst hrankings hspread
  cases results with
  | nil => exact absurd rfl hnonempty
  | cons top rest =>
    unfold decisionOn
    dsimp only
    by_cases hlead : cfg.threshold < spreadOf (top :: rest)
    · simp only [if_pos hlead]
      exact decides_iff (by rintro _ ⟨⟩) (by rintro _ ⟨⟩)
    · simp only [if_neg hlead]
      exact decides_iff (by rintro _ ⟨⟩) (by rintro _ ⟨⟩)

/-- What the decision on two or more accounts for. -/
theorem accounts_decisionOn [MonotoneSub F] {agents : List Agent}
    (hnodup : (agents.map (·.uri)).Nodup) (hlength : 2 ≤ (eligibleOf cfg agents).length)
    {d : DecisionEvent F}
    (hd : decisionOn py calls reply cfg ((ranked cfg (eligibleOf cfg agents)).map (agentScore cfg)) = d) :
    (∃ chosen ∈ agents, Eligible cfg chosen ∧ ∃ rejected,
      (d.selected = some chosen.uri ∧ d.rejected = rejected) ∧
        ∀ other ∈ agents, Eligible cfg other → other.uri ≠ chosen.uri →
          (rejected.map (·.uri)).count other.uri = 1) ↔
      Kept py calls reply cfg (eligibleOf cfg agents) := by
  have hleads : cfg.threshold <
      spreadOf ((ranked cfg (eligibleOf cfg agents)).map (agentScore cfg)) ↔
        Leads cfg (eligibleOf cfg agents) := leads_iff hlength
  have hperm : (((ranked cfg (eligibleOf cfg agents)).map (agentScore cfg)).map (·.agentUri)).Perm
      ((eligibleOf cfg agents).map (·.uri)) := by
    rw [List.map_map]
    exact rank_perm.map _
  generalize (ranked cfg (eligibleOf cfg agents)).map (agentScore cfg) = rankings at *
  have hdistinct : (rankings.map (·.agentUri)).Nodup :=
    hperm.nodup_iff.mpr (hnodup.sublist (List.filter_sublist.map _))
  have hcount : rankings.length = (eligibleOf cfg agents).length := by simpa using hperm.length_eq
  obtain ⟨top, rest, rfl⟩ := List.exists_cons_of_length_pos (by omega : 0 < rankings.length)
  have haccounts : ∀ n, Cut ((top :: rest).map (·.agentUri)) n d → _ := fun n hcut =>
    accounts_iff_of_cut hperm hdistinct hcut
  unfold Kept
  rw [← hleads, or_iff_right (by omega : ¬ (eligibleOf cfg agents).length ≤ 1)]
  by_cases hlead : cfg.threshold < spreadOf (top :: rest)
  · have hstructured : d = structured top rest := hd.symm.trans (if_pos hlead)
    have hcut : Cut ((top :: rest).map (·.agentUri)) (top :: rest).length d := by
      rw [hstructured]
      exact cut_lowerScore hdistinct List.take_length rfl rfl
    rw [haccounts _ hcut]
    exact iff_of_true (by simp) (.inl hlead)
  · have htie : d = (tiebreak py calls reply cfg ((top :: rest).take cfg.maxCandidates)).1 :=
      hd.symm.trans (if_neg hlead)
    rw [or_iff_right hlead, ← hcount, answered_perm hperm.symm]
    by_cases hmax : 0 < cfg.maxCandidates
    · obtain ⟨n, hcut, hiff⟩ := cut_tiebreak hdistinct (hcount ▸ hlength) (not_lt.mp hlead) hmax
      rw [← htie] at hcut
      rw [haccounts _ hcut, List.length_map, hiff]
    · -- nobody is left to choose from
      obtain hzero : cfg.maxCandidates = 0 := by omega
      rw [hzero, List.take_zero] at htie
      refine iff_of_false ?_ fun h => by omega
      rintro ⟨chosen, -, -, rejected, ⟨hselected, -⟩, -⟩
      rw [htie, tiebreak_nil] at hselected
      cases hselected

theorem routes_few (hdiscover : calls.discover = none)
    (hfew : (eligibleOf cfg (registry.getD [])).length ≤ 1) :
    Routes cfg (registry.getD []) (execute py calls reply registry cfg) := by
  have hfound := discover_fst py cfg registry
  have hmem : ∀ agent, agent ∈ registry.getD [] → Eligible cfg agent →
      agent ∈ eligibleOf cfg (registry.getD []) := fun agent h h' => mem_eligibleOf.mpr ⟨h, h'⟩
  unfold execute
  rw [hdiscover]
  generalize discover py cfg.requiredSkills cfg.trustDomain registry = found at hfound ⊢
  obtain ⟨candidates, filteredOut⟩ := found
  dsimp only at hfound ⊢
  subst hfound
  cases heligible : eligibleOf cfg (registry.getD []) with
  | nil =>
    rw [heligible] at hmem
    refine ⟨?_, fun _ => ⟨[], _, noCandidates, rfl, by simp, rfl, rfl, rfl⟩⟩
    rintro ⟨agent, hagent, helig⟩
    cases hmem agent hagent helig
  | cons only rest =>
    obtain rfl : rest = [] := by
      rw [heligible, List.length_cons] at hfew
      exact List.eq_nil_of_length_eq_zero (by omega)
    rw [heligible] at hmem
    obtain ⟨honly, helig⟩ : only ∈ registry.getD [] ∧ Eligible cfg only :=
      mem_eligibleOf.mp (heligible ▸ List.mem_cons_self)
    refine ⟨fun _ => ⟨only, honly, helig, [],
      ⟨_, { selected := some only.uri, method := "single_candidate", confidence := 1 }, rfl,
        List.mem_cons_of_mem _ (List.mem_cons_of_mem _ List.mem_cons_self), rfl, rfl, rfl⟩, ?_⟩,
      fun hnone => absurd helig (hnone only honly)⟩
    intro other hother helig' hne
    exact absurd (congrArg Agent.uri (List.mem_singleton.mp (hmem other hother helig'))) hne

/-- Every eligible agent is accounted for on these inputs and on no others. -/
theorem routes_iff [MonotoneSub F] (py : Python) (calls : Calls) (hdiscover : calls.discover = none)
    (hscore : calls.score = none) (reply : Except String LlmResponse)
    (registry : Option (List Agent)) (cfg : Config F)
    (hdistinct : ((registry.getD []).map (·.uri)).Nodup) :
    Routes cfg (registry.getD []) (execute py calls reply registry cfg) ↔
      Kept py calls reply cfg (eligibleOf cfg (registry.getD [])) := by
  by_cases hfew : (eligibleOf cfg (registry.getD [])).length ≤ 1
  · exact iff_of_true (routes_few hdiscover hfew) (.inl hfew)
  have hlength : 2 ≤ (eligibleOf cfg (registry.getD [])).length := by omega
  rw [← accounts_decisionOn hdistinct hlength rfl]
  simp only [← decides_many py reply hdiscover hscore rfl hlength]
  obtain ⟨agent, hagent⟩ := List.exists_mem_of_length_pos
    (by omega : 0 < (eligibleOf cfg (registry.getD [])).length)
  obtain ⟨hmem, helig⟩ := mem_eligibleOf.mp hagent
  exact ⟨fun h => h.accounts ⟨agent, hmem, helig⟩,
    fun h => ⟨fun _ => h, fun hnone => absurd helig (hnone agent hmem)⟩⟩

/-! Two agents of one kind. -/

def twins : Option (List Agent) :=
  some [{ uri := "agent-a", skills := ["analysis"] }, { uri := "agent-b", skills := ["analysis"] }]

def routing : Config ℚ where
  requiredSkills := ["analysis"]
  threshold := 1 / 10

/-- Every text is read as a choice of the second. -/
def python : Python where
  loads _ := .ok (.object [("reasoning", .string "cheaper"), ("selected_uri", .string "agent-b")])
  str _ := "cheaper"
  noAttribute _ := ""
  unhashable _ := ""
  setText _ := "set()"

theorem routes_answered :
    Routes routing (twins.getD []) (execute python { undecodable := "" }
        (.ok { text := "agent-b", inputTokens := 50, outputTokens := 20 }) twins routing) ↔
      Kept python { undecodable := "" }
        (.ok { text := "agent-b", inputTokens := 50, outputTokens := 20 }) routing
        (eligibleOf routing (twins.getD [])) :=
  routes_iff _ _ rfl rfl _ _ _ (by decide)

def failing : Calls where
  decide := some "Strategy returned error status 500: "
  undecodable := ""

/-- When the call to decide fails, the first is taken and the other is not named. -/
theorem failed_call_names_nobody :
    ((twins.getD []).map (·.uri)).Nodup ∧
      ¬ Routes routing (twins.getD []) (execute python failing (.error "timeout") twins routing) := by
  refine ⟨by decide, fun h => ?_⟩
  have hlength : 2 ≤ (eligibleOf routing (twins.getD [])).length := by decide
  have hdiscover : failing.discover = none := rfl
  have hscore : failing.score = none := rfl
  have haccounts := h.accounts ⟨{ uri := "agent-a", skills := ["analysis"] },
    List.mem_cons_self, by decide⟩
  simp only [decides_many python (.error "timeout") hdiscover hscore rfl hlength] at haccounts
  rcases (accounts_decisionOn (by decide) hlength rfl).mp haccounts with hfew | hleads | ⟨hcall, -⟩
  · omega
  · obtain ⟨c, others, hperm, hlead⟩ := hleads
    have hsame : ∀ agent ∈ eligibleOf routing (twins.getD []),
        (agentScore routing agent).composite =
          (agentScore routing { uri := "", skills := ["analysis"] }).composite := by
      intro agent hagent
      have hmem : agent ∈ (twins.getD []) := (mem_eligibleOf.mp hagent).1
      rcases List.mem_cons.mp hmem with rfl | hmem
      · rfl
      · obtain rfl := List.mem_singleton.mp hmem
        rfl
    have hcount := hperm.length_eq
    rw [List.length_cons] at hcount
    obtain ⟨d, hd⟩ := List.exists_mem_of_length_pos (by omega : 0 < others.length)
    have hlt := hlead d hd
    rw [hsame c (hperm.symm.subset List.mem_cons_self),
      hsame d (hperm.symm.subset (List.mem_cons_of_mem _ hd)), sub_self] at hlt
    exact absurd hlt (by norm_num [routing])
  · cases hcall

end Routing

end JamJet.Coordinator
