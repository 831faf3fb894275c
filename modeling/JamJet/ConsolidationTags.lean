import JamJet.ConsolidationCoverage

/-! What the marks of consolidation leave of a fact's metadata. -/

namespace JamJet.Engram

open AtomicCalls Prog FactStore

namespace Consolidation

variable {Score : Type} [LinearOrder Score] {env : Surroundings Score}
  {cfg : ConsolidationConfig Score} {scope : Scope} {maxCalls : ℕ} {now : Instant} {s : Stores}

/-! Stored summaries -/

/-- The provider embeds the text at this call, in as many dimensions as the store has. -/
def Embeds (env : Surroundings Score) (dimensions calls : ℕ) (text : String) : Prop :=
  ∃ embeddings, env.embed calls [text] = .ok embeddings ∧
    (embeddings.getLast?.getD []).length = dimensions

/-- It embeds one text after the other, five calls apart. -/
def EmbedsEach (env : Surroundings Score) (dimensions : ℕ) : ℕ → List String → Prop
  | _, [] => True
  | calls, text :: texts =>
      Embeds env dimensions calls text ∧ EmbedsEach env dimensions (calls + 5) texts

/-- Every fact of a store is in another, as it is. -/
def Keeps (before after : FactStore) : Prop :=
  ∀ id f, before.facts.find? id = some f → after.facts.find? id = some f

theorem Keeps.trans {s₁ s₂ s₃ : FactStore} (h₁ : Keeps s₁ s₂) (h₂ : Keeps s₂ s₃) : Keeps s₁ s₃ :=
  fun id f h => h₂ id f (h₁ id f h)

theorem keeps_insertFact (store : FactStore) (f : Fact) : Keeps store (store.insertFact f) := by
  intro id g hg
  unfold insertFact
  split
  · rename_i facts hfacts
    rw [Table.find?_of_insert? hfacts]
    have hfree := (Table.rows_of_insert? hfacts).1
    have hne : f.id ≠ id := by
      rintro rfl
      rw [hfree] at hg
      cases hg
    rw [if_neg hne]
    exact hg
  · exact hg

variable (env scope) in
theorem alone_storeKnowledge (text : String) (fill : Fact → Fact) (s : Stores) :
    Keeps s.factStore ((storeKnowledge scope text fill).alone (handle env) s).2.factStore ∧
      (((storeKnowledge scope text fill).alone (handle env) s).1 = .ok () ↔
        Embeds env s.vectorStore.dimensions s.calls text) ∧
      (Embeds env s.vectorStore.dimensions s.calls text →
        ((storeKnowledge scope text fill).alone (handle env) s).2.calls = s.calls + 5 ∧
        ((storeKnowledge scope text fill).alone (handle env) s).2.vectorStore.dimensions =
          s.vectorStore.dimensions) := by
  cases hembed : env.embed s.calls [text] with
  | error err =>
    have hcall : (perform (.embed [text]) : Upkeep Score (List Embedding)).alone (handle env) s =
        (.error err, s.next) := congrArg (fun reply => (reply, s.next)) hembed
    have hrun : (storeKnowledge scope text fill).alone (handle env) s = (.error err, s.next) :=
      alone_bind_error hcall
    rw [hrun]
    simp [Keeps, Embeds, hembed, Stores.next]
  | ok embeddings =>
    let fact := fill { Fact.new (env.freshId (s.calls + 1)) (env.clock (s.calls + 2)) text scope with
      tier := .knowledge }
    have hcall : (perform (.embed [text]) : Upkeep Score (List Embedding)).alone (handle env) s =
        (.ok embeddings, s.next) := congrArg (fun reply => (reply, s.next)) hembed
    have hrun : (storeKnowledge scope text fill).alone (handle env) s =
        ((s.vectorStore.upsert fact.id (embeddings.getLast?.getD [])).1,
          { factStore := s.factStore.insertFact fact
            vectorStore := (s.vectorStore.upsert fact.id (embeddings.getLast?.getD [])).2
            calls := s.calls + 5 }) := (alone_bind_ok hcall).trans rfl
    rw [hrun]
    refine ⟨keeps_insertFact _ _, ?_, fun h => ⟨rfl, ?_⟩⟩
    · simp only [VectorStore.upsert, Embeds, hembed, Except.ok.injEq]
      split <;> simp_all
    · simp only [VectorStore.upsert]
      split <;> rfl

variable (env scope) in
theorem alone_storeEach (texts : List String) (fill : Fact → Fact) (s : Stores) :
    Keeps s.factStore
        ((forEach texts fun text => storeKnowledge scope text fill).alone (handle env) s).2.factStore ∧
      (((forEach texts fun text => storeKnowledge scope text fill).alone (handle env) s).1 = .ok () ↔
        EmbedsEach env s.vectorStore.dimensions s.calls texts) := by
  induction texts generalizing s with
  | nil => exact ⟨fun _ _ h => h, by simp [forEach, EmbedsEach]⟩
  | cons text texts ih =>
    obtain ⟨hkeeps, hiff, hcalls⟩ := alone_storeKnowledge env scope text fill s
    generalize hrun : (storeKnowledge scope text fill).alone (handle env) s = run at hkeeps hiff hcalls
    obtain ⟨r, t⟩ := run
    cases r with
    | error err =>
      have hno : ¬ Embeds env s.vectorStore.dimensions s.calls text := fun h => by
        cases hiff.mpr h
      have hstop : (forEach (text :: texts) fun text => storeKnowledge scope text fill).alone
          (handle env) s = (.error err, t) := alone_bind_error hrun
      rw [hstop]
      exact ⟨hkeeps, by simp [EmbedsEach, hno]⟩
    | ok done =>
      have hyes := hiff.mp rfl
      obtain ⟨hcalls, hdimensions⟩ := hcalls hyes
      have hgo : (forEach (text :: texts) fun text => storeKnowledge scope text fill).alone
          (handle env) s = (forEach texts fun text => storeKnowledge scope text fill).alone
            (handle env) t := alone_bind_ok hrun
      obtain ⟨hkeeps', hiff'⟩ := ih t
      rw [hgo]
      refine ⟨hkeeps.trans hkeeps', hiff'.trans ?_⟩
      simp only at hcalls hdimensions
      rw [EmbedsEach, hcalls, hdimensions, and_iff_right hyes]

/-! Frames -/

/-- Every fact has the metadata it had, up to one key. -/
def KeepsMetadata (key : String) (before after : FactStore) : Prop :=
  ∀ id f, before.facts.find? id = some f → ∃ g, after.facts.find? id = some g ∧
    ∀ other, other ≠ key → BTree.get g.metadata other = BTree.get f.metadata other

theorem Keeps.keepsMetadata {key : String} {before after : FactStore} (h : Keeps before after) :
    KeepsMetadata key before after :=
  fun id f hf => ⟨f, h id f hf, fun _ _ => rfl⟩

/-- A mark takes the place of the metadata it is set in: facts keep the rest only if they have
none. -/
theorem keepsMetadata_tags {key : String} {before after : FactStore} (hkeeps : Keeps before after)
    {tags : List (Fact × String × Json)} (hids : ((tags.map tagPatch).map (·.1)).Nodup)
    (hkey : ∀ tag ∈ tags, tag.2.1 = key)
    (hin : ∀ tag ∈ tags, before.facts.find? tag.1.id = some tag.1) :
    KeepsMetadata key before (after.patchEach (tags.map tagPatch)) ↔
      ∀ tag ∈ tags, ∀ other, other ≠ key → BTree.get tag.1.metadata other = none := by
  have hmarked : ∀ tag ∈ tags, (after.patchEach (tags.map tagPatch)).facts.find? tag.1.id =
      some (FactPatch.apply { metadata := [tag.2] } tag.1) := by
    intro tag htag
    have hpatched := find?_patchEach_of_mem (s := after) hids
      (List.mem_map_of_mem (f := tagPatch) htag)
    exact hpatched.trans (congrArg (Option.map _) (hkeeps _ _ (hin tag htag)))
  have hother : ∀ tag ∈ tags, ∀ other, other ≠ key →
      BTree.get (FactPatch.apply { metadata := [tag.2] } tag.1).metadata other = none := by
    intro tag htag other hne
    have hkeyed := hkey tag htag
    simp [FactPatch.apply, BTree.get, hkeyed, Ne.symm hne]
  constructor
  · intro h tag htag other hne
    obtain ⟨g, hg, hsame⟩ := h _ _ (hin tag htag)
    rw [hmarked tag htag] at hg
    cases hg
    rw [← hsame other hne]
    exact hother tag htag other hne
  · intro h id f hf
    by_cases hmem : id ∈ (tags.map tagPatch).map (·.1)
    · simp only [List.map_map, List.mem_map, Function.comp_apply] at hmem
      obtain ⟨tag, htag, rfl⟩ := hmem
      have hsame : tag.1 = f := Option.some.inj ((hin tag htag).symm.trans hf)
      subst hsame
      refine ⟨_, hmarked tag htag, fun other hne => ?_⟩
      rw [h tag htag other hne]
      exact hother tag htag other hne
    · exact ⟨f, (find?_patchEach_of_notMem hmem).trans (hkeeps id f hf), fun _ _ => rfl⟩

omit [LinearOrder Score] in
theorem keepsMetadata_marks {key : String} {filter : FactFilter} {after : FactStore}
    (hkeeps : Keeps s.factStore after) :
    KeepsMetadata key s.factStore (after.patchEach
        ((marks key (s.factStore.listing env.order filter)).map tagPatch)) ↔
      ∀ f ∈ s.factStore.listing env.order filter, ∀ other, other ≠ key →
        BTree.get f.metadata other = none := by
  have hids : (((marks key (s.factStore.listing env.order filter)).map tagPatch).map
      (·.1)).Nodup := by
    simpa [marks, tagPatch, Function.comp_def] using nodup_listing
  rw [keepsMetadata_tags hkeeps hids]
  · simp [marks]
  · simp [marks]
  · intro tag htag
    obtain ⟨f, hf, rfl⟩ := List.mem_map.mp htag
    exact find?_of_mem_listing hf

/-! The timeline -/

theorem keepsMetadata_opTimelineBuilder : KeepsMetadata "timeline_position" s.factStore
      ((opTimelineBuilder scope).alone (handle env) s).2.factStore ↔
    ∀ f ∈ s.factStore.listing env.order (validFilter scope), f.eventDate = none := by
  rw [factStore_opTimelineBuilder, keepsMetadata_tags (fun _ _ h => h)
    (nodup_timelineTags nodup_listing)]
  · constructor
    · intro h f hf
      by_contra hdated
      obtain ⟨date, hdate⟩ := Option.ne_none_iff_exists'.mp hdated
      obtain ⟨n, htag⟩ := exists_timelineTag hf hdate
      have hnone := h _ htag "event_date" (by decide)
      simp [Fact.eventDate, hnone] at hdate
    · intro h tag htag
      obtain ⟨hf, date, hdate⟩ := mem_of_mem_timelineTags htag
      rw [h _ hf] at hdate
      cases hdate
  · intro tag htag
    obtain ⟨n, date, -, htag⟩ := mem_timelineTags.mp htag
    rw [htag]
  · intro tag htag
    exact find?_of_mem_listing (mem_of_mem_timelineTags htag).1

theorem factStore_undated
    (h : ∀ f ∈ s.factStore.listing env.order (validFilter scope), f.eventDate = none) :
    ((opTimelineBuilder scope).alone (handle env) s).2.factStore = s.factStore := by
  have hnone : timelineTags (s.factStore.listing env.order (validFilter scope)) = [] := by
    refine List.eq_nil_iff_forall_not_mem.mpr fun tag htag => ?_
    obtain ⟨hf, date, hdate⟩ := mem_of_mem_timelineTags htag
    rw [h _ hf] at hdate
    cases hdate
  rw [factStore_opTimelineBuilder, hnone]
  rfl

/-! Summaries and rollups -/

/-- Summarizing comes to mark the facts it has summarized. -/
def SummaryMarks (env : Surroundings Score) (cfg : ConsolidationConfig Score) (scope : Scope)
    (s : Stores) : Prop :=
  let facts := s.factStore.listing env.order (conversationFilter scope)
  scope.texts.all quotable = true ∧ cfg.summarizeThreshold ≤ facts.length ∧
    ∃ response, env.answer (s.calls + 1) summarizeSystem
        ("Summarize these conversation facts into knowledge:\n- " ++ promptOf facts) = .ok response ∧
      EmbedsEach env s.vectorStore.dimensions (s.calls + 2) (answerTexts response "summaries")

/-- The rollup comes to mark the preferences it has rolled up. -/
def RollupMarks (env : Surroundings Score) (scope : Scope) (maxCalls : ℕ) (s : Stores) : Prop :=
  let facts := s.factStore.listing env.order (preferenceFilter scope)
  0 < maxCalls ∧ facts ≠ [] ∧
    ∃ response text, env.answer (s.calls + 1) rollupSystem
        ("Roll up these user preferences into a profile:\n- " ++ promptOf facts) = .ok response ∧
      (response.get "profile").bind Json.asStr = some text ∧
      Embeds env s.vectorStore.dimensions (s.calls + 2) text

/-- A run that sets these marks if `P`, after what it stores, and else only stores. -/
def MarksIf (P : Prop) (tags : List (Fact × String × Json)) (before after : FactStore) : Prop :=
  (¬ P ∧ Keeps before after) ∨
    (P ∧ ∃ stored, Keeps before stored ∧ after = stored.patchEach (tags.map tagPatch))

section MarksIf

variable {P Q : Prop} {tags : List (Fact × String × Json)} {before after : FactStore} {t : Stores}

theorem keeps_refl (store : FactStore) : Keeps store store := fun _ _ h => h

theorem MarksIf.congr (h : MarksIf P tags before after) (hiff : P ↔ Q) :
    MarksIf Q tags before after := by
  unfold MarksIf at h ⊢
  rwa [hiff] at h

theorem marksIf_stored {p : Upkeep Score Unit} {report : ℕ × ℕ}
    (hkeeps : Keeps t.factStore (p.alone (handle env) t).2.factStore)
    (hiff : (p.alone (handle env) t).1 = .ok () ↔ P) :
    MarksIf P tags t.factStore (((do
      p
      tagEach tags
      pure report) : Upkeep Score (ℕ × ℕ)).alone (handle env) t).2.factStore := by
  generalize hstore : p.alone (handle env) t = stored at hkeeps hiff
  obtain ⟨r, u⟩ := stored
  cases r with
  | error err =>
    rw [alone_bind_error hstore]
    refine .inl ⟨fun h => ?_, hkeeps⟩
    cases hiff.mpr h
  | ok done =>
    rw [alone_bind_ok hstore, alone_bind_ok (alone_tagEach tags u)]
    exact .inr ⟨hiff.mp rfl, u.factStore, hkeeps, rfl⟩

theorem marksIf_structuredOutput {system text : String} {f : Json → Upkeep Score (ℕ × ℕ)}
    {Q : Json → Prop} (h : ∀ response,
      MarksIf (Q response) tags t.factStore ((f response).alone (handle env) t.next).2.factStore) :
    MarksIf (∃ response, env.answer t.calls system text = .ok response ∧ Q response) tags
      t.factStore ((perform (.structuredOutput system text) >>= f).alone (handle env) t).2.factStore := by
  cases hanswer : env.answer t.calls system text with
  | error err =>
    rw [alone_bind_error (congrArg (fun reply => (reply, t.next)) hanswer)]
    refine .inl ⟨?_, keeps_refl t.factStore⟩
    rintro ⟨response, hresponse, -⟩
    cases hresponse
  | ok response =>
    rw [alone_bind_ok (congrArg (fun reply => (reply, t.next)) hanswer)]
    refine (h response).congr ?_
    simp

end MarksIf

variable (env cfg scope maxCalls s)

theorem marksIf_opSummarize : MarksIf (SummaryMarks env cfg scope s)
    (marks "summarized" (s.factStore.listing env.order (conversationFilter scope))) s.factStore
    ((opSummarize cfg scope maxCalls).alone (handle env) s).2.factStore := by
  have htexts : filterTexts (conversationFilter scope) = scope.texts := by
    simp [filterTexts, conversationFilter]
  by_cases hquotable : (filterTexts (conversationFilter scope)).all quotable = true
  · have hrun : (opSummarize cfg scope maxCalls).alone (handle env) s = _ :=
      alone_list_bind hquotable
    rw [hrun]
    rw [htexts] at hquotable
    by_cases hshort : (s.factStore.listing env.order (conversationFilter scope)).length <
        cfg.summarizeThreshold
    · rw [if_pos hshort]
      exact .inl ⟨fun h => not_le.mpr hshort h.2.1, keeps_refl s.factStore⟩
    · rw [if_neg hshort]
      refine (marksIf_structuredOutput (t := s.next) fun response => ?_).congr
        ⟨fun h => ⟨hquotable, not_lt.mp hshort, h⟩, fun h => h.2.2⟩
      have hstore := alone_storeEach env scope (answerTexts response "summaries")
        (fun fact => { fact with
          source := some "consolidation:summarize", confidence := some 0x3F59999A#32 }) s.next.next
      exact marksIf_stored hstore.1 hstore.2
  · have hrun : (opSummarize cfg scope maxCalls).alone (handle env) s = _ :=
      alone_list_bind_error hquotable
    rw [hrun]
    rw [htexts] at hquotable
    exact .inl ⟨fun h => hquotable h.1, keeps_refl s.factStore⟩

theorem marksIf_opPreferenceRollup : MarksIf (RollupMarks env scope maxCalls s)
    (marks "rolled_up" (s.factStore.listing env.order (preferenceFilter scope))) s.factStore
    ((opPreferenceRollup scope maxCalls).alone (handle env) s).2.factStore := by
  unfold opPreferenceRollup
  by_cases hmax : maxCalls = 0
  · rw [if_pos hmax]
    exact .inl ⟨fun h => absurd h.1 (by omega), keeps_refl s.factStore⟩
  · rw [if_neg hmax]
    by_cases hquotable : (filterTexts (preferenceFilter scope)).all quotable = true
    · rw [alone_list_bind hquotable]
      by_cases hnone : (s.factStore.listing env.order (preferenceFilter scope)).isEmpty = true
      · rw [if_pos hnone]
        exact .inl ⟨fun h => h.2.1 (List.isEmpty_iff.mp hnone), keeps_refl s.factStore⟩
      · rw [if_neg hnone]
        have hsome : s.factStore.listing env.order (preferenceFilter scope) ≠ [] :=
          fun h => hnone (List.isEmpty_iff.mpr h)
        refine (marksIf_structuredOutput (t := s.next) (Q := fun response =>
          ∃ text, (response.get "profile").bind Json.asStr = some text ∧
            Embeds env s.vectorStore.dimensions (s.calls + 2) text) fun response => ?_).congr
          ⟨fun h => ⟨Nat.pos_of_ne_zero hmax, hsome, ?_⟩, fun h => ?_⟩
        · cases hprofile : (response.get "profile").bind Json.asStr with
          | none =>
            refine .inl ⟨?_, keeps_refl s.factStore⟩
            rintro ⟨text, htext, -⟩
            cases htext
          | some text =>
            have hstore := alone_storeKnowledge env scope text (fun fact => { fact with
              category := some "preference"
              source := some "consolidation:preference_rollup"
              confidence := some 0x3F666666#32 }) s.next.next
            refine (marksIf_stored hstore.1 hstore.2.1).congr ?_
            simp [Stores.next]
        · obtain ⟨response, hanswer, text, hprofile, hembeds⟩ := h
          exact ⟨response, text, hanswer, hprofile, hembeds⟩
        · obtain ⟨-, -, response, text, hanswer, hprofile, hembeds⟩ := h
          exact ⟨response, hanswer, text, hprofile, hembeds⟩
    · rw [alone_list_bind_error hquotable]
      exact .inl ⟨fun h => h.2.1 (listFacts_error hquotable).2, keeps_refl s.factStore⟩

/-! The frame of the marks -/

variable {env cfg scope maxCalls s}

/-- The dated valid facts of the scope carry positions in the order of their dates. -/
def InOrder (scope : Scope) (now : Instant) (store : FactStore) : Prop :=
  ∀ f ∈ store.facts.rows, inForce scope now f = true →
    ∀ g ∈ store.facts.rows, inForce scope now g = true →
      ∀ date date', f.eventDate = some date → g.eventDate = some date' → date < date' →
        ∃ n m : ℕ, BTree.get f.metadata "timeline_position" = some (Json.ofNat n) ∧
          BTree.get g.metadata "timeline_position" = some (Json.ofNat m) ∧ n < m

/-- The position of a fact in a store. -/
def positionIn (store : FactStore) (id : FactId) : Option Json :=
  (store.facts.find? id).bind fun f => BTree.get f.metadata "timeline_position"

/-- Marks set one key and leave the rest of the metadata; a second timeline comes to what the first
one came to, and the positions follow the dates. -/
structure TagsKeepMetadata (env : Surroundings Score) (cfg : ConsolidationConfig Score)
    (scope : Scope) (maxCalls : ℕ) (now : Instant) (s : Stores) : Prop where
  timeline : KeepsMetadata "timeline_position" s.factStore
    ((opTimelineBuilder scope).alone (handle env) s).2.factStore
  summarized : KeepsMetadata "summarized" s.factStore
    ((opSummarize cfg scope maxCalls).alone (handle env) s).2.factStore
  rolledUp : KeepsMetadata "rolled_up" s.factStore
    ((opPreferenceRollup scope maxCalls).alone (handle env) s).2.factStore
  repeats : let first := (opTimelineBuilder scope).alone (handle env) s
    let second := (opTimelineBuilder scope).alone (handle env) first.2
    second.1 = first.1 ∧ positionIn second.2.factStore = positionIn first.2.factStore
  inOrder : InOrder scope now ((opTimelineBuilder scope).alone (handle env) s).2.factStore

theorem keepsMetadata_opSummarize : KeepsMetadata "summarized" s.factStore
      ((opSummarize cfg scope maxCalls).alone (handle env) s).2.factStore ↔
    (SummaryMarks env cfg scope s →
      ∀ f ∈ s.factStore.listing env.order (conversationFilter scope), ∀ key, key ≠ "summarized" →
        BTree.get f.metadata key = none) := by
  rcases marksIf_opSummarize env cfg scope maxCalls s with
    ⟨hstops, hkeeps⟩ | ⟨hmarks, stored, hkeeps, hmarked⟩
  · exact iff_of_true hkeeps.keepsMetadata fun h => absurd h hstops
  · rw [hmarked, keepsMetadata_marks hkeeps]
    exact ⟨fun h _ => h, fun h => h hmarks⟩

theorem keepsMetadata_opPreferenceRollup : KeepsMetadata "rolled_up" s.factStore
      ((opPreferenceRollup scope maxCalls).alone (handle env) s).2.factStore ↔
    (RollupMarks env scope maxCalls s →
      ∀ f ∈ s.factStore.listing env.order (preferenceFilter scope), ∀ key, key ≠ "rolled_up" →
        BTree.get f.metadata key = none) := by
  rcases marksIf_opPreferenceRollup env scope maxCalls s with
    ⟨hstops, hkeeps⟩ | ⟨hmarks, stored, hkeeps, hmarked⟩
  · exact iff_of_true hkeeps.keepsMetadata fun h => absurd h hstops
  · rw [hmarked, keepsMetadata_marks hkeeps]
    exact ⟨fun h _ => h, fun h => h hmarks⟩

theorem fst_opTimelineBuilder : ((opTimelineBuilder scope).alone (handle env) s).1 =
    if (filterTexts (validFilter scope)).all quotable = true then
      .ok (datedFacts (s.factStore.listing env.order (validFilter scope))).length
    else .error (.database "unrecognized token") := by
  by_cases hquotable : (filterTexts (validFilter scope)).all quotable = true
  · have hrun : (opTimelineBuilder scope).alone (handle env) s = _ := alone_list_bind hquotable
    rw [hrun, if_pos hquotable]
    split
    · rename_i hempty
      rw [List.isEmpty_iff.mp hempty]
      rfl
    · rw [alone_bind_ok (alone_tagEach _ _)]
      rfl
  · have hrun : (opTimelineBuilder scope).alone (handle env) s = _ :=
      alone_list_bind_error hquotable
    rw [hrun, if_neg hquotable]

/-- One fact with an event date. -/
def datedStores : Stores :=
  { factStore := { facts := ⟨[crowdFact 1], List.nodup_singleton _⟩ }
    vectorStore := { dimensions := 0 } }

end Consolidation

end JamJet.Engram
