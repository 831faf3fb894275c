import JamJet.Context

/-! Which context blocks keep to their budget: what the facts that a budget takes come to in each
format. -/

namespace JamJet.Engram.Context

/-! What a rendering comes to -/

/-- The sum of a cost. -/
def total {α : Type} (cost : α → ℕ) (xs : List α) : ℕ := xs.foldr (fun x n => cost x + n) 0

section Total

variable {α β : Type} (cost : α → ℕ)

@[simp]
theorem total_nil : total cost [] = 0 := rfl

@[simp]
theorem total_cons (x : α) (xs : List α) : total cost (x :: xs) = cost x + total cost xs := rfl

theorem total_map (f : β → α) (xs : List β) :
    total cost (xs.map f) = total (fun x => cost (f x)) xs := by
  induction xs with
  | nil => rfl
  | cons x xs ih => simp [ih]

theorem total_insert {m : BTree ℕ} (hm : m.Sorted) (k : String) (v : ℕ) :
    total Prod.snd (m.insert k v) + (BTree.get m k).getD 0 = total Prod.snd m + v := by
  induction m with
  | nil => simp [BTree.insert]
  | cons kv m ih =>
    obtain ⟨k', v'⟩ := kv
    have hbelow := (List.pairwise_cons.mp hm).1
    have hrest := ih (List.pairwise_cons.mp hm).2
    rw [BTree.get_cons, BTree.insert]
    by_cases heq : k = k'
    · subst heq
      simp only [if_true, Option.getD_some, total_cons]
      omega
    · rw [if_neg heq, if_neg (Ne.symm heq)]
      by_cases hlt : k < k'
      · have hnone : BTree.get m k = none :=
          BTree.get_eq_none_of_lt fun kv hkv => hlt.trans (hbelow kv hkv)
        simp only [if_pos hlt, hnone, Option.getD_none, total_cons]
        omega
      · simp only [if_neg hlt, total_cons]
        omega

end Total

/-- The facts the budget takes: each that has room for its text and two tokens more in what those
before it have left. -/
def taken : ℕ → List Fact → List Fact
  | _, [] => []
  | room, fact :: rest =>
      if estimate fact.text + 2 ≤ room then fact :: taken (room - (estimate fact.text + 2)) rest
      else taken room rest

def prefixBytes (now : Instant) (fact : Fact) : ℕ :=
  ((linePrefix now fact).map fun date => date.utf8ByteSize + 3).getD 0

/-- The bytes of the line of a fact. -/
def lineBytes (now : Instant) (fact : Fact) : ℕ :=
  prefixBytes now fact + fact.text.utf8ByteSize + 3

def linesBytes (clock : ℕ → Instant) (facts : List Fact) : ℕ :=
  total (fun entry => lineBytes (clock entry.2) entry.1) facts.zipIdx

/-- What each tier costs that some fact is of. -/
def perTier (cost : MemoryTier → ℕ) (tiers : List MemoryTier) : ℕ :=
  total (fun tier => if tier ∈ tiers then cost tier else 0) [.working, .conversation, .knowledge]

def tagBytes (tier : MemoryTier) : ℕ := 2 * tier.name.utf8ByteSize + 7

def headingBytes (tier : MemoryTier) : ℕ := tier.label.utf8ByteSize + 6

theorem estimate_le_iff {text : String} {budget : ℕ} :
    estimate text ≤ budget ↔ text.utf8ByteSize ≤ 4 * budget := by
  unfold estimate
  omega

theorem foldl_fillStep (budget : ℕ) (facts : List Fact) (acc : List Fact × ℕ) (h : acc.2 ≤ budget) :
    (facts.foldl (fillStep budget) acc).1 = acc.1 ++ taken (budget - acc.2) facts := by
  induction facts generalizing acc with
  | nil => simp [taken]
  | cons fact facts ih =>
    rw [List.foldl_cons, taken]
    by_cases hfits : estimate fact.text + 2 ≤ budget - acc.2
    · have hstep : fillStep budget acc fact = (acc.1 ++ [fact], acc.2 + (estimate fact.text + 2)) :=
        if_neg (by omega)
      have hroom : acc.2 + (estimate fact.text + 2) ≤ budget := by omega
      rw [hstep, ih _ hroom, if_pos hfits, Nat.sub_add_eq, List.append_assoc]
      rfl
    · have hstep : fillStep budget acc fact = acc := if_pos (by omega)
      rw [hstep, ih acc h, if_neg hfits]

theorem fill_eq_taken (budget : ℕ) (facts : List Fact) : fill budget facts = taken budget facts :=
  foldl_fillStep budget facts ([], 0) (Nat.zero_le budget)

theorem taken_sublist (room : ℕ) (facts : List Fact) : (taken room facts).Sublist facts := by
  induction facts generalizing room with
  | nil => exact List.Sublist.slnil
  | cons fact facts ih =>
    rw [taken]
    split
    · exact (ih _).cons_cons fact
    · exact (ih _).cons fact

/-- By tier: no fact after one of a lower tier. -/
def ByTier (facts : List Fact) : Prop :=
  facts.Pairwise fun f g => f.tier.priority ≤ g.tier.priority

theorem byTier_sortByTierPriority (facts : List Fact) : ByTier (sortByTierPriority facts) := by
  have htotal : Std.Total fun f g : Fact => f.tier.priority ≤ g.tier.priority :=
    ⟨fun f g => le_total f.tier.priority g.tier.priority⟩
  have htrans : IsTrans Fact fun f g => f.tier.priority ≤ g.tier.priority :=
    ⟨fun _ _ _ => le_trans⟩
  exact List.pairwise_insertionSort _ facts

/-! The tiers of the facts included -/

theorem total_countTier {counts : BTree ℕ} (h : counts.Sorted) (fact : Fact) :
    total Prod.snd (countTier counts fact) = total Prod.snd counts + 1 := by
  have hinsert := total_insert h fact.tier.name ((BTree.get counts fact.tier.name).getD 0 + 1)
  change total Prod.snd (BTree.insert counts fact.tier.name _) = _
  omega

theorem total_tierBreakdown (facts : List Fact) :
    total Prod.snd (tierBreakdown facts) = facts.length := by
  have hfold : ∀ counts : BTree ℕ, counts.Sorted →
      total Prod.snd (facts.foldl countTier counts) = total Prod.snd counts + facts.length := by
    induction facts with
    | nil => exact fun counts _ => rfl
    | cons fact facts ih =>
      intro counts hcounts
      have hcounted : (countTier counts fact).Sorted := hcounts.insert _ _
      rw [List.foldl_cons, ih _ hcounted, total_countTier hcounts, List.length_cons]
      omega
  exact (hfold [] BTree.sorted_nil).trans (Nat.zero_add _)

/-! Lines and headings -/

theorem byteSize_formatFactLine (now : Instant) (fact : Fact) :
    (formatFactLine now fact).utf8ByteSize + 1 = lineBytes now fact := by
  have hdash : "- ".utf8ByteSize = 2 := by decide
  have hopening : "- [".utf8ByteSize = 3 := by decide
  have hclosing : "] ".utf8ByteSize = 2 := by decide
  unfold formatFactLine lineBytes prefixBytes
  cases linePrefix now fact with
  | none =>
    simp only [String.utf8ByteSize_append, Option.map_none, Option.getD_none]
    omega
  | some date =>
    simp only [String.utf8ByteSize_append, Option.map_some, Option.getD_some]
    omega

theorem byteSize_block (lines : List (Fact × String)) :
    (block lines).utf8ByteSize = total (fun entry => entry.2.utf8ByteSize + 1) lines := by
  have hbreak : "\n".utf8ByteSize = 1 := by decide
  induction lines with
  | nil => rfl
  | cons entry lines ih => simp only [block, String.utf8ByteSize_append, ih, total_cons, hbreak]

theorem total_factLines (clock : ℕ → Instant) (facts : List Fact) :
    total (fun entry => entry.2.utf8ByteSize + 1) (factLines clock facts) =
      linesBytes clock facts := by
  simp only [factLines, linesBytes, total_map, byteSize_formatFactLine]

theorem map_factLines (clock : ℕ → Instant) (facts : List Fact) :
    (factLines clock facts).map (·.1) = facts := by
  rw [factLines, List.map_map]
  exact List.zipIdx_map_fst 0 facts

/-! The three formats come to what they are said to -/

theorem total_ofTier (cost : Fact × String → ℕ) (lines : List (Fact × String)) :
    total cost (ofTier .working lines) + total cost (ofTier .conversation lines) +
      total cost (ofTier .knowledge lines) = total cost lines := by
  induction lines with
  | nil => rfl
  | cons entry lines ih =>
    simp only [ofTier] at ih ⊢
    cases htier : entry.1.tier <;> simp [htier] <;> omega

theorem byteSize_tierSection (tier : MemoryTier) (lines : List (Fact × String)) :
    (tierSection tier.name (ofTier tier lines)).utf8ByteSize =
      (if tier ∈ lines.map (·.1.tier) then tagBytes tier else 0) +
        total (fun entry => entry.2.utf8ByteSize + 1) (ofTier tier lines) := by
  have hopening : "<".utf8ByteSize = 1 := by decide
  have hclosing : "</".utf8ByteSize = 2 := by decide
  have hend : ">\n".utf8ByteSize = 2 := by decide
  unfold tierSection
  by_cases hused : tier ∈ lines.map (·.1.tier)
  · obtain ⟨entry, hentry, htier⟩ := List.mem_map.mp hused
    have hmem : entry ∈ ofTier tier lines :=
      List.mem_filter.mpr ⟨hentry, decide_eq_true htier⟩
    have hne : ¬ (ofTier tier lines).isEmpty = true := by
      intro hempty
      rw [List.isEmpty_iff] at hempty
      exact List.not_mem_nil (hempty ▸ hmem)
    rw [if_neg hne, if_pos hused]
    simp only [String.utf8ByteSize_append, byteSize_block, tagBytes]
    omega
  · have hnil : ofTier tier lines = [] := by
      refine List.filter_eq_nil_iff.mpr fun entry hentry htier => hused ?_
      exact List.mem_map.mpr ⟨entry, hentry, of_decide_eq_true htier⟩
    rw [hnil, if_neg hused]
    rfl

theorem tiers_factLines (clock : ℕ → Instant) (facts : List Fact) :
    (factLines clock facts).map (·.1.tier) = facts.map (·.tier) := by
  have hmap := congrArg (List.map (·.tier)) (map_factLines clock facts)
  rwa [List.map_map] at hmap

theorem perTier_cons (cost : MemoryTier → ℕ) (tier : MemoryTier) (tiers : List MemoryTier) :
    perTier cost (tier :: tiers) + (if tier ∈ tiers then cost tier else 0) =
      cost tier + perTier cost tiers := by
  cases tier <;> simp [perTier] <;> omega

theorem priority_injective {tier tier' : MemoryTier} (h : tier.priority = tier'.priority) :
    tier = tier' := by
  cases tier <;> cases tier' <;> first | rfl | cases h

theorem byteSize_heading (tier : MemoryTier) :
    ("### " ++ tier.label ++ "\n\n").utf8ByteSize = headingBytes tier := by
  have hopening : "### ".utf8ByteSize = 4 := by decide
  have hclosing : "\n\n".utf8ByteSize = 2 := by decide
  simp only [String.utf8ByteSize_append, headingBytes]
  omega

theorem byteSize_markdownLines (lines : List (Fact × String))
    (hsorted : ByTier (lines.map (·.1))) (tier : MemoryTier)
    (hafter : ∀ entry ∈ lines, tier.priority ≤ entry.1.tier.priority) :
    (markdownLines (some tier) lines).utf8ByteSize +
        (if tier ∈ lines.map (·.1.tier) then headingBytes tier else 0) =
      perTier headingBytes (lines.map (·.1.tier)) +
        total (fun entry => entry.2.utf8ByteSize + 1) lines := by
  have hbreak : "\n".utf8ByteSize = 1 := by decide
  induction lines generalizing tier with
  | nil => rfl
  | cons entry lines ih =>
    obtain ⟨hbelow, hsorted⟩ := List.pairwise_cons.mp hsorted
    have hlower : ∀ other ∈ lines, entry.1.tier.priority ≤ other.1.tier.priority :=
      fun other hother => hbelow other.1 (List.mem_map_of_mem hother)
    have hrest := ih hsorted entry.1.tier hlower
    have hcons := perTier_cons headingBytes entry.1.tier (lines.map (·.1.tier))
    have hheading := byteSize_heading entry.1.tier
    simp only [markdownLines, String.utf8ByteSize_append, List.map_cons, total_cons, hbreak]
    by_cases heq : tier = entry.1.tier
    · subst heq
      have hempty : "".utf8ByteSize = 0 := rfl
      rw [if_neg (fun hne => hne rfl), if_pos List.mem_cons_self, hempty]
      omega
    · have hlt : tier.priority < entry.1.tier.priority :=
        lt_of_le_of_ne (hafter entry List.mem_cons_self) fun h => heq (priority_injective h)
      have hnew : tier ∉ entry.1.tier :: lines.map (·.1.tier) := by
        intro hmem
        rcases List.mem_cons.mp hmem with h | h
        · exact heq h
        · obtain ⟨other, hother, rfl⟩ := List.mem_map.mp h
          exact absurd (hlower other hother) hlt.not_ge
      rw [if_pos (fun h => heq (Option.some.inj h)), if_neg hnew, hheading]
      omega

theorem byteSize_markdownLines_none {lines : List (Fact × String)}
    (hsorted : ByTier (lines.map (·.1))) :
    (markdownLines none lines).utf8ByteSize =
      perTier headingBytes (lines.map (·.1.tier)) +
        total (fun entry => entry.2.utf8ByteSize + 1) lines := by
  have hbreak : "\n".utf8ByteSize = 1 := by decide
  cases lines with
  | nil => rfl
  | cons entry lines =>
    obtain ⟨hbelow, hsorted⟩ := List.pairwise_cons.mp hsorted
    have hrest := byteSize_markdownLines lines hsorted entry.1.tier
      fun other hother => hbelow other.1 (List.mem_map_of_mem hother)
    have hcons := perTier_cons headingBytes entry.1.tier (lines.map (·.1.tier))
    have hheading := byteSize_heading entry.1.tier
    have hnew : (none : Option MemoryTier) ≠ some entry.1.tier := Option.some_ne_none _ |>.symm
    simp only [markdownLines, String.utf8ByteSize_append, List.map_cons, total_cons, hbreak,
      if_pos hnew] at hheading ⊢
    omega

theorem byteSize_commaLines {texts : List String} (h : texts ≠ []) :
    (commaLines texts).utf8ByteSize + 2 = total (fun text => text.utf8ByteSize + 2) texts := by
  have hcomma : ",\n".utf8ByteSize = 2 := by decide
  induction texts with
  | nil => exact absurd rfl h
  | cons text texts ih =>
    cases texts with
    | nil => rfl
    | cons next texts =>
      have hrest := ih (List.cons_ne_nil next texts)
      simp only [commaLines, String.utf8ByteSize_append, total_cons] at hrest ⊢
      omega

variable [FloatText]

/-- The bytes of the entry of a fact. -/
def entryBytes (r : Rendering) (fact : Fact) : ℕ :=
  86 + total (fun member => (Hashing.canonicalJson member.2).utf8ByteSize) (rawMembers r fact)

/-- The bytes of a block of these facts. -/
def blockBytes (r : Rendering) : OutputFormat → List Fact → ℕ
  | .systemPrompt, facts =>
      18 + perTier tagBytes (facts.map (·.tier)) + linesBytes r.clock facts
  | .markdown, facts =>
      19 + perTier headingBytes (facts.map (·.tier)) + linesBytes r.clock facts
  | .raw, facts => 2 + total (entryBytes r) facts

theorem byteSize_formatSystemPrompt (r : Rendering) (facts : List Fact) :
    (formatSystemPrompt r facts).utf8ByteSize = blockBytes r .systemPrompt facts := by
  have hopening : "<memory>\n".utf8ByteSize = 9 := by decide
  have hclosing : "</memory>".utf8ByteSize = 9 := by decide
  have hworking : (tierSection "working" (ofTier .working (factLines r.clock facts))).utf8ByteSize
      = _ := byteSize_tierSection .working (factLines r.clock facts)
  have hconversation :
      (tierSection "conversation" (ofTier .conversation (factLines r.clock facts))).utf8ByteSize
      = _ := byteSize_tierSection .conversation (factLines r.clock facts)
  have hknowledge :
      (tierSection "knowledge" (ofTier .knowledge (factLines r.clock facts))).utf8ByteSize
      = _ := byteSize_tierSection .knowledge (factLines r.clock facts)
  have hall := total_ofTier (fun entry => entry.2.utf8ByteSize + 1) (factLines r.clock facts)
  have hlines := total_factLines r.clock facts
  rw [tiers_factLines] at hworking hconversation hknowledge
  simp only [formatSystemPrompt, String.utf8ByteSize_append, blockBytes, perTier, total_cons,
    total_nil]
  omega

theorem byteSize_formatMarkdown (r : Rendering) {facts : List Fact} (hsorted : ByTier facts) :
    (formatMarkdown r facts).utf8ByteSize = blockBytes r .markdown facts := by
  have htitle : "## Memory Context\n\n".utf8ByteSize = 19 := by decide
  have hlines := total_factLines r.clock facts
  have hentries : ByTier ((factLines r.clock facts).map (·.1)) := by
    rwa [map_factLines]
  have hmarkdown := byteSize_markdownLines_none hentries
  rw [tiers_factLines] at hmarkdown
  unfold formatMarkdown
  rw [String.utf8ByteSize_append, hmarkdown, hlines, htitle]
  exact (Nat.add_assoc _ _ _).symm

theorem byteSize_memberLine (member : String × Json) :
    (memberLine member).utf8ByteSize = (String.ofList (Hashing.quote member.1)).utf8ByteSize +
      (Hashing.canonicalJson member.2).utf8ByteSize + 6 := by
  have hindent : "    ".utf8ByteSize = 4 := by decide
  have hcolon : ": ".utf8ByteSize = 2 := by decide
  simp only [memberLine, String.utf8ByteSize_append]
  omega

theorem byteSize_rawEntry (r : Rendering) (fact : Fact) :
    (rawEntry r fact).utf8ByteSize + 2 = entryBytes r fact := by
  have hopening : "  \x7b\n".utf8ByteSize = 4 := by decide
  have hclosing : "\n  \x7d".utf8ByteSize = 4 := by decide
  have hcategory : (String.ofList (Hashing.quote "category")).utf8ByteSize = 10 := by decide
  have hconfidence : (String.ofList (Hashing.quote "confidence")).utf8ByteSize = 12 := by decide
  have hid : (String.ofList (Hashing.quote "id")).utf8ByteSize = 4 := by decide
  have htext : (String.ofList (Hashing.quote "text")).utf8ByteSize = 6 := by decide
  have htier : (String.ofList (Hashing.quote "tier")).utf8ByteSize = 6 := by decide
  have hmembers : (commaLines ((rawMembers r fact).map memberLine)).utf8ByteSize + 2 = _ :=
    byteSize_commaLines (by simp [rawMembers])
  simp only [rawEntry, String.utf8ByteSize_append, entryBytes]
  simp only [rawMembers, List.map_cons, List.map_nil, total_cons, total_nil, byteSize_memberLine]
    at hmembers ⊢
  omega

theorem byteSize_formatRaw (r : Rendering) (facts : List Fact) :
    (formatRaw r facts).utf8ByteSize = blockBytes r .raw facts := by
  have hopening : "[\n".utf8ByteSize = 2 := by decide
  have hclosing : "\n]".utf8ByteSize = 2 := by decide
  cases facts with
  | nil => rfl
  | cons fact facts =>
    have hentries : (commaLines ((fact :: facts).map (rawEntry r))).utf8ByteSize + 2 = _ :=
      byteSize_commaLines (List.cons_ne_nil _ _)
    simp only [total_map, byteSize_rawEntry] at hentries
    change _ = total (entryBytes r) (fact :: facts) at hentries
    have hne : ¬ (fact :: facts).isEmpty = true := fun h => by cases h
    rw [formatRaw, if_neg hne]
    simp only [String.utf8ByteSize_append, blockBytes]
    omega

theorem byteSize_render (r : Rendering) (format : OutputFormat) {facts : List Fact}
    (hsorted : ByTier facts) : (render r format facts).utf8ByteSize = blockBytes r format facts := by
  cases format with
  | systemPrompt => exact byteSize_formatSystemPrompt r facts
  | markdown => exact byteSize_formatMarkdown r hsorted
  | raw => exact byteSize_formatRaw r facts

/-! The budget -/

/-- A block keeps to the budget, and accounts for each fact that was retrieved. -/
structure FitsBudget (cfg : ContextConfig) (retrieved : List Fact) (b : ContextBlock) : Prop where
  tokens : b.tokenCount ≤ cfg.tokenBudget
  counted : b.factsIncluded + b.factsOmitted = retrieved.length
  tiers : total Prod.snd b.tierBreakdown = b.factsIncluded

/-- The facts that the budget of a configuration takes. -/
def takenOf (cfg : ContextConfig) (retrieved : List Fact) : List Fact :=
  taken (cfg.tokenBudget - formatOverhead cfg.format) (sortByTierPriority retrieved)

theorem fitsBudget_assemble_iff (cfg : ContextConfig) (r : Rendering) (retrieved : List Fact) :
    FitsBudget cfg retrieved (assemble cfg r retrieved) ↔
      blockBytes r cfg.format (takenOf cfg retrieved) ≤ 4 * cfg.tokenBudget := by
  have hsublist : (takenOf cfg retrieved).Sublist (sortByTierPriority retrieved) :=
    taken_sublist _ _
  have hsorted : ByTier (takenOf cfg retrieved) :=
    (byTier_sortByTierPriority retrieved).sublist hsublist
  have hlength : (sortByTierPriority retrieved).length = retrieved.length :=
    (List.perm_insertionSort _ retrieved).length_eq
  have htokens : (assemble cfg r retrieved).tokenCount =
      estimate (render r cfg.format (takenOf cfg retrieved)) := by
    simp only [assemble, fill_eq_taken, takenOf]
  rw [← byteSize_render r cfg.format hsorted, ← estimate_le_iff, ← htokens]
  constructor
  · exact fun h => h.tokens
  · intro h
    refine ⟨h, ?_, total_tierBreakdown _⟩
    have hle := hsublist.length_le
    simp only [assemble, fill_eq_taken]
    unfold takenOf at hle
    omega

/-- The blocks that keep to their budget. -/
theorem build_fits_iff {cfg : ContextConfig} {r : Rendering}
    {search : String → Scope → ℕ → Except MemoryError (List Fact)} {query : String} {scope : Scope}
    {retrieved : List Fact} (hsearch : search query scope cfg.maxCandidates = .ok retrieved) :
    ∃ b, build cfg r search query scope = .ok b ∧
      (FitsBudget cfg retrieved b ↔
        blockBytes r cfg.format (takenOf cfg retrieved) ≤ 4 * cfg.tokenBudget) := by
  refine ⟨assemble cfg r retrieved, ?_, fitsBudget_assemble_iff cfg r retrieved⟩
  rw [build, hsearch]
  rfl

/-- A note, and a budget that its text and the overhead of a list come to. -/
def noteFact : Fact := { id := 1, text := "a", scope := {}, validFrom := 0, createdAt := 0 }

def noteConfig : ContextConfig := { tokenBudget := 8, format := .raw }

def noteRendering : Rendering :=
  { uuid := fun _ => "00000000-0000-0000-0000-000000000001", clock := fun _ => 0 }

omit [FloatText] in
theorem build_fits_note :
    let _ : FloatText := bitsText
    ∃ b, build noteConfig noteRendering (fun _ _ _ => .ok [noteFact]) "a" {} = .ok b ∧
      (FitsBudget noteConfig [noteFact] b ↔
        blockBytes noteRendering .raw (takenOf noteConfig [noteFact]) ≤ 4 * 8) :=
  let _ : FloatText := bitsText
  build_fits_iff rfl

omit [FloatText] in
theorem note_overruns :
    let _ : FloatText := bitsText
    ∃ b, build noteConfig noteRendering (fun _ _ _ => .ok [noteFact]) "a" {} = .ok b ∧
      estimate (render noteRendering noteConfig.format []) ≤ noteConfig.tokenBudget ∧
      ¬ FitsBudget noteConfig [noteFact] b := by
  intro _
  refine ⟨_, rfl, by decide, ?_⟩
  rw [fitsBudget_assemble_iff]
  have htaken : takenOf noteConfig [noteFact] = [noteFact] := rfl
  rw [htaken]
  change ¬ 2 + ((86 + _) + 0) ≤ 4 * 8
  omega

end JamJet.Engram.Context
