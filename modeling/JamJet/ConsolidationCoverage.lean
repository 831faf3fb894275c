import JamJet.CalledParts
import JamJet.ConsolidationRuns

/-! Which facts of a scope promotion, summarizing and the timeline get to see. -/

namespace JamJet.Engram

open AtomicCalls Prog FactStore

namespace Consolidation

variable {Score : Type} [LinearOrder Score]

/-! What the operations leave in the store -/

/-- The update that sets one metadata key. -/
def tagPatch (tag : Fact × String × Json) : FactId × FactPatch :=
  (tag.1.id, { metadata := [tag.2] })

/-- The updates of the facts accessed often enough. -/
def promotions (cfg : ConsolidationConfig Score) (facts : List Fact) : List (FactId × FactPatch) :=
  (facts.filter fun fact => cfg.promoteAccessCount ≤ fact.accessCount).map fun fact =>
    (fact.id, { tier := some .knowledge })

variable {env : Surroundings Score} {cfg : ConsolidationConfig Score} {scope : Scope} {s : Stores}

theorem alone_tagEach (tagged : List (Fact × String × Json)) (s : Stores) :
    (tagEach tagged).alone (handle env) s =
      (.ok (), { s with
        factStore := s.factStore.patchEach (tagged.map tagPatch)
        calls := s.calls + tagged.length }) := by
  induction tagged generalizing s with
  | nil => rfl
  | cons tag tagged ih =>
    have hrest := ih { s with
      factStore := (s.factStore.updateFact tag.1.id { metadata := [tag.2] }).2
      calls := s.calls + 1 }
    refine (alone_bind_ok ?_).trans (hrest.trans ?_)
    · rfl
    · simp [patchEach, tagPatch, Nat.add_comm, Nat.add_left_comm]

/-- The loop of a promotion over facts that are all in the store. -/
theorem alone_promoteEach (cfg : ConsolidationConfig Score) {facts : List Fact} (promoted : ℕ)
    {s : Stores}
    (h : ∀ f ∈ facts, (s.factStore.facts.find? f.id).isSome = true) :
    (facts.foldlM (fun promoted fact =>
      if cfg.promoteAccessCount ≤ fact.accessCount then do
        let _ ← perform (.updateFact fact.id { tier := some .knowledge })
        pure (promoted + 1)
      else pure promoted) promoted : Upkeep Score ℕ).alone (handle env) s =
      (.ok (promoted + (promotions cfg facts).length), { s with
        factStore := s.factStore.patchEach (promotions cfg facts)
        calls := s.calls + (promotions cfg facts).length }) := by
  induction facts generalizing promoted s with
  | nil => rfl
  | cons fact facts ih =>
    have hrest : ∀ f ∈ facts, (s.factStore.facts.find? f.id).isSome = true :=
      fun f hf => h f (List.mem_cons_of_mem _ hf)
    rw [List.foldlM_cons]
    by_cases hcount : cfg.promoteAccessCount ≤ fact.accessCount
    · rw [if_pos hcount]
      obtain ⟨f, hf⟩ := Option.isSome_iff_exists.mp (h fact List.mem_cons_self)
      let patched := s.factStore.updateFact fact.id { tier := some .knowledge }
      have hcall : (perform (.updateFact fact.id { tier := some .knowledge }) :
          Upkeep Score Fact).alone (handle env) s =
          (.ok (FactPatch.apply { tier := some .knowledge } f),
            { s with factStore := patched.2, calls := s.calls + 1 }) :=
        congrArg (fun reply => (reply, _)) (updateFact_reply hf)
      have hhead : ((do
          let _ ← perform (.updateFact fact.id { tier := some .knowledge })
          pure (promoted + 1)) : Upkeep Score ℕ).alone (handle env) s =
          (.ok (promoted + 1), { s with factStore := patched.2, calls := s.calls + 1 }) :=
        (alone_bind_ok hcall).trans rfl
      have hthere : ∀ g ∈ facts, (patched.2.facts.find? g.id).isSome = true := by
        intro g hg
        rw [find?_updateFact, Option.isSome_map]
        exact hrest g hg
      refine (alone_bind_ok hhead).trans ((ih _ hthere).trans ?_)
      simp only [promotions, hcount, patchEach, patched, decide_true, List.filter_cons_of_pos,
        List.map_cons, List.length_cons, List.foldl_cons, Prod.mk.injEq, Except.ok.injEq,
        Stores.mk.injEq, true_and]
      omega
    · rw [if_neg hcount]
      refine (ih _ hrest).trans ?_
      simp [promotions, hcount]

theorem factStore_opPromote : ((opPromote cfg scope).alone (handle env) s).2.factStore =
    s.factStore.patchEach (promotions cfg (s.factStore.listing env.order (conversationFilter scope))) := by
  by_cases hquotable : (filterTexts (conversationFilter scope)).all quotable = true
  · have hthere : ∀ f ∈ s.factStore.listing env.order (conversationFilter scope),
        (s.next.factStore.facts.find? f.id).isSome = true :=
      fun f hf => Option.isSome_iff_exists.mpr ⟨f, find?_of_mem_listing hf⟩
    have hrun : (opPromote cfg scope).alone (handle env) s = _ :=
      (alone_list_bind hquotable).trans (alone_promoteEach cfg 0 hthere)
    rw [hrun]
    rfl
  · have hrun : (opPromote cfg scope).alone (handle env) s = _ := alone_list_bind_error hquotable
    rw [hrun, (listFacts_error hquotable).2]
    rfl

theorem factStore_opTimelineBuilder :
    ((opTimelineBuilder scope).alone (handle env) s).2.factStore =
      s.factStore.patchEach
        ((timelineTags (s.factStore.listing env.order (validFilter scope))).map tagPatch) := by
  by_cases hquotable : (filterTexts (validFilter scope)).all quotable = true
  · have hrun : (opTimelineBuilder scope).alone (handle env) s = _ :=
      alone_list_bind hquotable
    rw [hrun]
    split
    · rename_i hempty
      have hnone : datedFacts (s.factStore.listing env.order (validFilter scope)) = [] :=
        List.isEmpty_iff.mp hempty
      simp [timelineTags, timeline, hnone, patchEach, Stores.next]
    · rw [alone_bind_ok (alone_tagEach _ _)]
      rfl
  · have hrun : (opTimelineBuilder scope).alone (handle env) s = _ :=
      alone_list_bind_error hquotable
    rw [hrun, (listFacts_error hquotable).2]
    rfl

theorem asksModel_opSummarize {maxCalls : ℕ} :
    (∃ c ∈ (opSummarize cfg scope maxCalls).made (handle env) s, c.op.asksModel = true) ↔
      (filterTexts (conversationFilter scope)).all quotable = true ∧
        cfg.summarizeThreshold ≤ (s.factStore.listing env.order (conversationFilter scope)).length := by
  by_cases hquotable : (filterTexts (conversationFilter scope)).all quotable = true
  · have hmade : (opSummarize cfg scope maxCalls).made (handle env) s = _ :=
      made_list_bind hquotable
    rw [hmade]
    by_cases hshort : (s.factStore.listing env.order (conversationFilter scope)).length <
        cfg.summarizeThreshold
    · have hnone : (pure (0, 0) : Upkeep Score (ℕ × ℕ)).made (handle env) s.next = [] := rfl
      rw [if_pos hshort, hnone]
      simp [MemoryCall.asksModel, not_le.mpr hshort]
    · rw [if_neg hshort]
      refine ⟨fun _ => ⟨hquotable, not_lt.mp hshort⟩, fun _ => ?_⟩
      exact ⟨_, List.mem_cons_of_mem _ List.mem_cons_self, rfl⟩
  · have hmade : (opSummarize cfg scope maxCalls).made (handle env) s = _ :=
      made_list_bind_error hquotable
    rw [hmade]
    simp [MemoryCall.asksModel, hquotable]

/-! What the timeline numbers -/

theorem mem_datedFacts {facts : List Fact} {f : Fact} {date : String} :
    (f, date) ∈ datedFacts facts ↔ f ∈ facts ∧ f.eventDate = some date := by
  simp only [datedFacts, List.mem_filterMap, Option.map_eq_some_iff, Prod.mk.injEq]
  constructor
  · rintro ⟨g, hg, d, hd, rfl, rfl⟩
    exact ⟨hg, hd⟩
  · rintro ⟨hf, hd⟩
    exact ⟨f, hf, date, hd, rfl, rfl⟩

theorem mem_timeline {facts : List Fact} {f : Fact} {date : String} :
    (f, date) ∈ timeline facts ↔ f ∈ facts ∧ f.eventDate = some date := by
  rw [timeline, (List.perm_insertionSort _ _).mem_iff, mem_datedFacts]

theorem mem_timelineTags {facts : List Fact} {tag : Fact × String × Json} :
    tag ∈ timelineTags facts ↔ ∃ n date, (timeline facts)[n]? = some (tag.1, date) ∧
      tag.2 = ("timeline_position", Json.ofNat n) := by
  simp only [timelineTags, List.mem_map, List.mem_zipIdx_iff_getElem?]
  constructor
  · rintro ⟨⟨⟨f, date⟩, n⟩, hn, rfl⟩
    exact ⟨n, date, hn, rfl⟩
  · rintro ⟨n, date, hn, htag⟩
    refine ⟨((tag.1, date), n), hn, ?_⟩
    rw [← htag]

theorem exists_timelineTag {facts : List Fact} {f : Fact} {date : String} (hf : f ∈ facts)
    (hdate : f.eventDate = some date) :
    ∃ n, (f, "timeline_position", Json.ofNat n) ∈ timelineTags facts := by
  obtain ⟨n, hn⟩ := List.mem_iff_getElem?.mp (mem_timeline.mpr ⟨hf, hdate⟩)
  exact ⟨n, mem_timelineTags.mpr ⟨n, date, hn, rfl⟩⟩

theorem mem_of_mem_timelineTags {facts : List Fact} {tag : Fact × String × Json}
    (h : tag ∈ timelineTags facts) : tag.1 ∈ facts ∧ ∃ date, tag.1.eventDate = some date := by
  obtain ⟨n, date, hn, -⟩ := mem_timelineTags.mp h
  obtain ⟨hf, hdate⟩ := mem_timeline.mp (List.mem_of_getElem? hn)
  exact ⟨hf, date, hdate⟩

theorem map_fst_datedFacts (facts : List Fact) :
    (datedFacts facts).map (·.1) = facts.filter fun f => f.eventDate.isSome := by
  induction facts with
  | nil => rfl
  | cons f facts ih =>
    rw [datedFacts] at ih ⊢
    cases hdate : f.eventDate with
    | none => simpa [hdate] using ih
    | some date => simpa [hdate] using ih

theorem nodup_timelineTags {facts : List Fact} (h : (facts.map (·.id)).Nodup) :
    (((timelineTags facts).map tagPatch).map (·.1)).Nodup := by
  have htags : ((timelineTags facts).map tagPatch).map (·.1) =
      ((timeline facts).map (·.1)).map (·.id) :=
    calc ((timelineTags facts).map tagPatch).map (·.1)
        = ((timeline facts).zipIdx.map (·.1)).map (·.1.id) := by
          simp only [timelineTags, List.map_map, Function.comp_def, tagPatch]
      _ = ((timeline facts).map (·.1)).map (·.id) := by
          rw [List.zipIdx_map_fst, List.map_map]
          rfl
  have hperm : ((timeline facts).map (·.1)).Perm (facts.filter fun f => f.eventDate.isSome) := by
    rw [← map_fst_datedFacts]
    exact (List.perm_insertionSort _ _).map _
  rw [htags, (hperm.map _).nodup_iff]
  exact h.sublist (List.filter_sublist.map _)

/-! Coverage -/

/-- The scope has the fact, and it is valid now. -/
def inForce (scope : Scope) (now : Instant) (f : Fact) : Bool :=
  scope.contains f.scope && f.isValidAt now

/-- After a promotion no valid conversation fact of the scope has been accessed often enough. -/
def PromotesAll (env : Surroundings Score) (cfg : ConsolidationConfig Score) (scope : Scope)
    (now : Instant) (s : Stores) : Prop :=
  ∀ f ∈ ((opPromote cfg scope).alone (handle env) s).2.factStore.facts.rows,
    inForce scope now f = true → f.tier = .conversation → f.accessCount < cfg.promoteAccessCount

/-- The model is asked once the valid conversation facts of the scope reach the threshold. -/
def SummarizesInTime (env : Surroundings Score) (cfg : ConsolidationConfig Score) (scope : Scope)
    (maxCalls : ℕ) (now : Instant) (s : Stores) : Prop :=
  cfg.summarizeThreshold ≤
      s.factStore.facts.rows.countP (fun f => inForce scope now f && f.tier = .conversation) →
    ∃ c ∈ (opSummarize cfg scope maxCalls).made (handle env) s, c.op.asksModel = true

/-- Every valid fact of the scope with an event date comes to have a position. -/
def NumbersAll (env : Surroundings Score) (scope : Scope) (now : Instant) (s : Stores) : Prop :=
  ∀ f ∈ s.factStore.facts.rows, inForce scope now f = true → f.eventDate.isSome = true →
    ∃ g, ((opTimelineBuilder scope).alone (handle env) s).2.factStore.facts.find? f.id = some g ∧
      ∃ n : ℕ, BTree.get g.metadata "timeline_position" = some (Json.ofNat n)

variable {now : Instant}

theorem promotesAll_iff : PromotesAll env cfg scope now s ↔
    ∀ f ∈ s.factStore.facts.rows, inForce scope now f = true → f.tier = .conversation →
      cfg.promoteAccessCount ≤ f.accessCount →
        f ∈ s.factStore.listing env.order (conversationFilter scope) := by
  unfold PromotesAll
  rw [factStore_opPromote]
  generalize hlisted : s.factStore.listing env.order (conversationFilter scope) = facts
  have hids : ((promotions cfg facts).map (·.1)).Nodup := by
    have hnodup : (facts.map (·.id)).Nodup := hlisted ▸ nodup_listing
    simpa [promotions, Function.comp_def] using hnodup.sublist (List.filter_sublist.map _)
  constructor
  · intro hall f hf hforce htier hcount
    by_contra hmiss
    have hout : f.id ∉ (promotions cfg facts).map (·.1) := by
      intro hid
      simp only [promotions, List.map_map, List.mem_map, List.mem_filter, Function.comp_apply] at hid
      obtain ⟨g, ⟨hg, -⟩, hid⟩ := hid
      have hfind := find?_of_mem_listing (hlisted ▸ hg)
      rw [hid, Table.find?_of_mem hf] at hfind
      exact hmiss (Option.some.inj hfind ▸ hg)
    have hsame := find?_patchEach_of_notMem (s := s.factStore) hout
    rw [Table.find?_of_mem hf] at hsame
    have hlt := hall f (Table.mem_of_find? hsame) hforce htier
    omega
  · intro hall g hg hforce htier
    by_contra hcount
    have hfind := Table.find?_of_mem hg
    by_cases hin : g.id ∈ (promotions cfg facts).map (·.1)
    · obtain ⟨⟨id, patch⟩, hpatch, rfl⟩ := List.mem_map.mp hin
      have hpromoted := find?_patchEach_of_mem (s := s.factStore) hids hpatch
      obtain ⟨f, -, hf⟩ := List.mem_map.mp hpatch
      obtain rfl : ({ tier := some .knowledge } : FactPatch) = patch := (Prod.mk.inj hf).2
      rw [hpromoted] at hfind
      obtain ⟨f', -, rfl⟩ := Option.map_eq_some_iff.mp hfind
      cases htier
    · rw [find?_patchEach_of_notMem hin] at hfind
      have hlisted' := hall g (Table.mem_of_find? hfind) hforce htier (not_lt.mp hcount)
      refine hin (List.mem_map.mpr ⟨(g.id, { tier := some .knowledge }), ?_, rfl⟩)
      exact List.mem_map.mpr ⟨g, List.mem_filter.mpr ⟨hlisted', by simpa using hcount⟩, rfl⟩

theorem summarizesInTime_iff {maxCalls : ℕ} : SummarizesInTime env cfg scope maxCalls now s ↔
    (cfg.summarizeThreshold ≤
        s.factStore.facts.rows.countP (fun f => inForce scope now f && f.tier = .conversation) →
      scope.texts.all quotable = true ∧ cfg.summarizeThreshold ≤ 50 ∧
        cfg.summarizeThreshold ≤ s.factStore.facts.rows.countP fun f =>
          scope.contains f.scope && f.tier = .conversation && f.invalidAt.isNone) := by
  have htexts : filterTexts (conversationFilter scope) = scope.texts := by
    simp [filterTexts, conversationFilter]
  have hselects : filterSelects (conversationFilter scope) = fun f =>
      scope.contains f.scope && f.tier = .conversation && f.invalidAt.isNone := by
    funext f
    simp [filterSelects, conversationFilter, Scope.selects_eq_contains]
  have hlength : (s.factStore.listing env.order (conversationFilter scope)).length =
      if (filterTexts (conversationFilter scope)).all quotable = true then
        min 50 (s.factStore.facts.rows.countP (filterSelects (conversationFilter scope)))
      else 0 := length_listing rfl
  rw [htexts, hselects] at hlength
  rw [SummarizesInTime, asksModel_opSummarize, htexts, hlength]
  refine imp_congr_right fun _ => and_congr_right fun hquotable => ?_
  rw [if_pos hquotable]
  exact le_min_iff

theorem numbersAll_iff : NumbersAll env scope now s ↔
    ∀ f ∈ s.factStore.facts.rows, inForce scope now f = true → f.eventDate.isSome = true →
      f ∈ s.factStore.listing env.order (validFilter scope) ∨
        ∃ n : ℕ, BTree.get f.metadata "timeline_position" = some (Json.ofNat n) := by
  unfold NumbersAll
  rw [factStore_opTimelineBuilder]
  generalize hlisted : s.factStore.listing env.order (validFilter scope) = facts
  have hids := nodup_timelineTags (hlisted ▸ nodup_listing : (facts.map (·.id)).Nodup)
  refine forall₂_congr fun f hf => forall₂_congr fun _ hdated => ?_
  by_cases hin : f ∈ facts
  · obtain ⟨date, hdate⟩ := Option.isSome_iff_exists.mp hdated
    obtain ⟨n, htag⟩ := exists_timelineTag hin hdate
    have hnumbered : (s.factStore.patchEach ((timelineTags facts).map tagPatch)).facts.find? f.id =
        (s.factStore.facts.find? f.id).map
          (FactPatch.apply { metadata := [("timeline_position", Json.ofNat n)] }) :=
      find?_patchEach_of_mem hids (List.mem_map_of_mem (f := tagPatch) htag)
    rw [Table.find?_of_mem hf] at hnumbered
    refine ⟨fun _ => .inl hin, fun _ => ⟨_, hnumbered, n, ?_⟩⟩
    simp [FactPatch.apply, BTree.get]
  · have hout : f.id ∉ ((timelineTags facts).map tagPatch).map (·.1) := by
      intro hid
      simp only [List.map_map, List.mem_map, Function.comp_apply, tagPatch] at hid
      obtain ⟨tag, htag, hid⟩ := hid
      have hmem := (mem_of_mem_timelineTags htag).1
      have hfind := find?_of_mem_listing (hlisted ▸ hmem)
      rw [hid, Table.find?_of_mem hf] at hfind
      exact hin (Option.some.inj hfind ▸ hmem)
    rw [find?_patchEach_of_notMem hout, Table.find?_of_mem hf]
    simp [hin]

/-- Promotion, summarizing and the timeline cover a scope exactly as far as the listings of at most
fifty facts they work on do. -/
theorem consolidation_covers_iff (env : Surroundings Score) (cfg : ConsolidationConfig Score)
    (scope : Scope) (now : Instant) (s : Stores) :
    (PromotesAll env cfg scope now s ↔
      ∀ f ∈ s.factStore.facts.rows, inForce scope now f = true → f.tier = .conversation →
        cfg.promoteAccessCount ≤ f.accessCount →
          f ∈ s.factStore.listing env.order (conversationFilter scope)) ∧
    (∀ maxCalls, SummarizesInTime env cfg scope maxCalls now s ↔
      (cfg.summarizeThreshold ≤
          s.factStore.facts.rows.countP (fun f => inForce scope now f && f.tier = .conversation) →
        scope.texts.all quotable = true ∧ cfg.summarizeThreshold ≤ 50 ∧
          cfg.summarizeThreshold ≤ s.factStore.facts.rows.countP fun f =>
            scope.contains f.scope && f.tier = .conversation && f.invalidAt.isNone)) ∧
    (NumbersAll env scope now s ↔
      ∀ f ∈ s.factStore.facts.rows, inForce scope now f = true → f.eventDate.isSome = true →
        f ∈ s.factStore.listing env.order (validFilter scope) ∨
          ∃ n : ℕ, BTree.get f.metadata "timeline_position" = some (Json.ofNat n)) :=
  ⟨promotesAll_iff, fun _ => summarizesInTime_iff, numbersAll_iff⟩

section Crowd

/-- Stores in creation order, and answers that say nothing. -/
def plainSurroundings : Surroundings ℕ where
  order := .stable
  similarity := ⟨fun _ _ => 0⟩
  clock _ := 1
  freshId n := 1000 + n
  embed _ _ := .ok [[]]
  answer _ _ _ := .ok .null

def crowdFact (n : ℕ) : Fact :=
  { id := n
    text := "met"
    scope := {}
    validFrom := 0
    createdAt := 0
    accessCount := 3
    metadata := [("event_date", .string "2024-05-01")] }

/-- Fifty-one facts of one kind. -/
def crowd : Stores :=
  { factStore := { facts := ⟨(List.range 51).map crowdFact, by
      rw [List.map_map]
      exact (List.map_id _).symm ▸ List.nodup_range⟩ }
    vectorStore := { dimensions := 0 } }

def crowdConfig : ConsolidationConfig ℕ :=
  { decay := fun _ _ => .unchanged
    dedupSimilarity := 95
    mergeAbove := 99
    summarizeThreshold := 51 }

theorem exists_unlisted (filter : FactFilter) (hlimit : filter.limit = 50) :
    ∃ n, crowdFact n ∈ crowd.factStore.facts.rows ∧
      crowdFact n ∉ crowd.factStore.listing .stable filter := by
  by_contra hall
  simp only [not_exists, not_and, not_not] at hall
  have hsub : crowd.factStore.facts.rows ⊆ crowd.factStore.listing .stable filter := by
    intro f hf
    obtain ⟨n, -, rfl⟩ := List.mem_map.mp hf
    exact hall n hf
  have hnodup : crowd.factStore.facts.rows.Nodup := crowd.factStore.facts.nodup.of_map
  have hle := (hnodup.subperm hsub).length_le
  have hmost : (crowd.factStore.listing .stable filter).length ≤ filter.limit := length_listing_le
  have hrows : crowd.factStore.facts.rows.length = 51 := by simp [crowd]
  omega

theorem inForce_crowdFact (n : ℕ) : inForce {} 1 (crowdFact n) = true := rfl

/-- Of fifty-one facts the fifty-first is neither promoted nor numbered, and they are never
summarized. -/
theorem crowd_not_covered : ¬ PromotesAll plainSurroundings crowdConfig {} 1 crowd ∧
    ¬ SummarizesInTime plainSurroundings crowdConfig {} 10 1 crowd ∧
    ¬ NumbersAll plainSurroundings {} 1 crowd := by
  refine ⟨fun h => ?_, fun h => ?_, fun h => ?_⟩
  · obtain ⟨n, hn, hout⟩ := exists_unlisted (conversationFilter {}) rfl
    exact hout (promotesAll_iff.mp h _ hn (inForce_crowdFact n) rfl le_rfl)
  · have hcount : crowd.factStore.facts.rows.countP
        (fun f => inForce {} 1 f && f.tier = .conversation) = 51 := by
      have hall : crowd.factStore.facts.rows.countP
          (fun f => inForce {} 1 f && f.tier = .conversation) =
            crowd.factStore.facts.rows.length := by
        refine List.countP_eq_length.mpr fun f hf => ?_
        obtain ⟨n, -, rfl⟩ := List.mem_map.mp hf
        rfl
      rw [hall]
      simp [crowd]
    have hdue := summarizesInTime_iff.mp h hcount.ge
    exact absurd hdue.2.1 (by decide)
  · obtain ⟨n, hn, hout⟩ := exists_unlisted (validFilter {}) rfl
    rcases numbersAll_iff.mp h _ hn (inForce_crowdFact n) rfl with hin | ⟨m, hm⟩
    · exact hout hin
    · simp [crowdFact, BTree.get] at hm

end Crowd

end Consolidation

end JamJet.Engram
