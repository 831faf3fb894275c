import JamJet.AuditQuery

/-! The enricher that seals audit entries into one chain, over concurrent calls, failed appends and
restarts. -/

namespace JamJet

/-- The head of the chain in memory; it is read from the log when it is first needed. -/
structure ChainHead where
  seeded : Bool := false
  head : Option String := none

/-- The table, and the process with the calls that have built their entry and wait for the lock of
the chain. -/
structure AuditSys where
  table : AuditTable := .empty
  chain : ChainHead := {}
  sealFailures : ℕ := 0
  waiting : List AuditLogEntry := []

structure AuditEnricher where
  backend : SqliteAuditBackend
  signer : AuditSigner

/-- What the database refuses during a call. -/
structure AuditFaults where
  readFails : Bool := false
  appendError : Option String := none

inductive AuditAct
  /-- A call has built its entry, the time of its creation included. -/
  | begin (entry : AuditLogEntry)
  /-- The call at a place among those waiting takes the lock. -/
  | lock (place : ℕ) (faults : AuditFaults)
  /-- The process ends, and another one opens the log. -/
  | restart

namespace AuditEnricher

variable [FloatText] [Rfc3339] [JsonText] [Signatures] (enricher : AuditEnricher)

/-- An error reads as an empty log. -/
def latestEntryHash (readFails : Bool) (table : AuditTable) : Option String :=
  if readFails then none
  else
    match enricher.backend.query { limit := 1 } table with
    | .ok entries => entries.head?.bind (·.entryHash)
    | .error _ => none

/-- The part of `seal_entry` under the lock. -/
def sealEntry (entry : AuditLogEntry) (faults : AuditFaults) (s : AuditSys) :
    Except String Unit × AuditSys :=
  let head := if s.chain.seeded then s.chain.head
    else enricher.latestEntryHash faults.readFails s.table
  let entry := entry.sealed head enricher.signer
  match faults.appendError with
  | some err => (.error ("audit log write failed: " ++ err), { s with chain := ⟨true, head⟩ })
  | none =>
      (.ok (),
        { s with
          table := SqliteAuditBackend.append entry s.table
          chain := ⟨true, entry.entryHash⟩ })

def tryEnrichAndAppend (entry : AuditLogEntry) (faults : AuditFaults) (s : AuditSys) :
    Except String Unit × AuditSys :=
  match enricher.sealEntry entry faults s with
  | (.ok (), s') => (.ok (), s')
  | (.error err, s') => (.error err, { s' with sealFailures := s'.sealFailures + 1 })

def step (s : AuditSys) : AuditAct → AuditSys
  | .begin entry => { s with waiting := s.waiting ++ [entry] }
  | .lock place faults =>
      match s.waiting[place]? with
      | some entry =>
          (enricher.tryEnrichAndAppend entry faults
            { s with waiting := s.waiting.eraseIdx place }).2
      | none => s
  | .restart => { table := s.table }

def run (s : AuditSys) (acts : List AuditAct) : AuditSys := acts.foldl enricher.step s

end AuditEnricher

theorem append_fresh [FloatText] [Rfc3339] (entry : AuditLogEntry) {table : AuditTable}
    (h : table.find? entry.id = none) :
    (SqliteAuditBackend.append entry table).rows = table.rows ++ [entry.toRow] ∧
      ∀ id, entry.id ≠ id → (SqliteAuditBackend.append entry table).find? id = table.find? id := by
  obtain ⟨table', hinsert, hrows⟩ := Table.insert?_eq_some (t := table) (r := entry.toRow) h
  have htable : SqliteAuditBackend.append entry table = table' := by
    simp [SqliteAuditBackend.append, hinsert]
  rw [htable]
  refine ⟨hrows, fun id hne => ?_⟩
  rw [Table.find?_of_insert? hinsert]
  exact if_neg hne

section Conditions

variable [FloatText] [Rfc3339] [JsonText]

/-- The entry is read back from its row as it was written. -/
structure AuditLogEntry.ReadsBack (e : AuditLogEntry) : Prop where
  rawEvent : JsonText.fromStr (Hashing.canonicalJson e.rawEvent) = .ok ⟨e.rawEvent, e.rawEvent_held⟩
  createdAt : Rfc3339.parse (Rfc3339.text e.createdAt) = .ok e.createdAt
  expiresAt : ∀ t ∈ e.expiresAt, Rfc3339.parse (Rfc3339.text t) = .ok t

theorem AuditLogEntry.ReadsBack.toEntry {e : AuditLogEntry} (h : e.ReadsBack) :
    e.toRow.toEntry = .ok e := by
  have hactor : parseActorType e.actorType.asStr = e.actorType := by
    cases e.actorType <;> rfl
  have hexpires : (e.expiresAt.map Rfc3339.text).bind (fun s => (Rfc3339.parse s).toOption) =
      e.expiresAt := by
    cases hexp : e.expiresAt with
    | none => rfl
    | some t => simp [h.expiresAt t hexp, Except.toOption]
  have hredacted : ((if e.redacted then (1 : Int32) else 0) != 0) = e.redacted := by
    cases e.redacted <;> rfl
  simp only [AuditRow.toEntry, AuditLogEntry.toRow, h.rawEvent, h.createdAt, Except.mapError,
    bind, Except.bind, pure, Except.pure, hactor, hexpires, hredacted]

theorem AuditLogEntry.ReadsBack.sealed [Signatures] {e : AuditLogEntry} (h : e.ReadsBack)
    (prevHash : Option String) (signer : AuditSigner) : (e.sealed prevHash signer).ReadsBack :=
  ⟨h.rawEvent, h.createdAt, h.expiresAt⟩

theorem mapM_toEntry {entries : List AuditLogEntry} (h : ∀ e ∈ entries, e.ReadsBack) :
    (entries.map AuditLogEntry.toRow).mapM AuditRow.toEntry = .ok entries := by
  induction entries with
  | nil => rfl
  | cons e entries ih =>
    have hfirst := (h e (by simp)).toEntry
    have hrest := ih fun x hx => h x (by simp [hx])
    rw [List.map_cons, List.mapM_cons, hfirst, hrest]
    rfl

/-- The row stored last was created after every other. -/
def LastIsLatest (table : AuditTable) : Prop :=
  ∃ before last, table.rows = before ++ [last] ∧ ∀ r ∈ before, r.createdAt < last.createdAt

/-- Entries are built under a new id and read back as they are written, and the head is read from
a log that is empty, or that is read without an error and whose last entry is its latest. -/
def AuditSys.Orderly (s : AuditSys) : AuditAct → Prop
  | .begin entry => entry.ReadsBack ∧ s.table.find? entry.id = none ∧
      entry.id ∉ s.waiting.map (·.id)
  | .lock _ faults => s.chain.seeded = true ∨ s.table.rows = [] ∨
      (faults.readFails = false ∧ LastIsLatest s.table)
  | .restart => True

end Conditions

theorem head_of_newest {before after ordered : List AuditRow} {newest : AuditRow}
    (hothers : ∀ r ∈ before ++ after, r.createdAt < newest.createdAt)
    (hperm : ordered.Perm (before ++ newest :: after))
    (hsorted : ordered.Pairwise fun a b => b.createdAt ≤ a.createdAt) :
    ∃ rest, ordered = newest :: rest := by
  have hmem : newest ∈ ordered := hperm.mem_iff.mpr (by simp)
  cases ordered with
  | nil => cases hmem
  | cons r rest =>
    have hr : r ∈ newest :: (before ++ after) :=
      (hperm.trans List.perm_middle).mem_iff.mp (by simp)
    rcases List.mem_cons.mp hr with rfl | hr
    · exact ⟨rest, rfl⟩
    · have hlt := hothers r hr
      have hle : newest.createdAt ≤ r.createdAt := by
        rcases List.mem_cons.mp hmem with heq | hrest
        · exact absurd (heq ▸ hlt) (String.lt_irrefl _)
        · exact (List.pairwise_cons.mp hsorted).1 newest hrest
      exact absurd hle (String.not_le.mpr hlt)

theorem plain_newest [Rfc3339] : ({ limit := 1 } : AuditQuery).Plain := by
  simp [AuditQuery.Plain, AuditQuery.texts]

theorem AuditLogEntry.id_of_hash [FloatText] [Rfc3339] [Signatures]
    (hsha : Function.Injective Signatures.sha256) {signer : AuditSigner}
    {e₁ e₂ : AuditLogEntry} (h₁ : e₁.Sound signer) (h₂ : e₂.Sound signer)
    (hsame : e₁.entryHash = e₂.entryHash) : e₁.id = e₂.id := by
  have hcontent : e₁.contentHash e₁.prevHash = e₂.contentHash e₂.prevHash :=
    Option.some.inj (h₁.hash.symm.trans (hsame.trans h₂.hash))
  have hhashed := AuditLogEntry.hashed_of_contentHash hsha hcontent
  have hlength : Delimited.Matched AuditLogEntry.fieldSep e₁.id.toList e₂.id.toList :=
    .inl (by simp)
  simp only [AuditLogEntry.hashed, AuditLogEntry.fields, Delimited.closed_cons] at hhashed
  exact Vector.toList_inj.mp (hlength.append_inj hhashed).1

theorem marked_of_sound [FloatText] [Rfc3339] [Signatures]
    (hsha : Function.Injective Signatures.sha256) {signer : AuditSigner}
    {entries : List AuditLogEntry} (hsound : ∀ e ∈ entries, e.Sound signer)
    (hids : (entries.map (·.id)).Nodup) :
    HashChain.Marked AuditLogEntry.entryHash none entries := by
  refine ⟨hids.of_map _, ?_, ?_⟩
  · intro a ha b hb hsame
    have hid := AuditLogEntry.id_of_hash hsha (hsound a ha) (hsound b hb) hsame
    exact List.inj_on_of_nodup_map hids ha hb hid
  · intro a ha hnone
    rw [(hsound a ha).hash] at hnone
    cases hnone

/-- Two calls take the lock in the other order than they built their entries, and the next process
appends a third entry. -/
def forkActs (first second third : AuditLogEntry) : List AuditAct :=
  [.begin first, .begin second, .lock 1 {}, .lock 0 {}, .restart, .begin third, .lock 0 {}]

/-- The log afterwards. -/
def forkedLog [FloatText] [Rfc3339] [Signatures] (signer : AuditSigner) (first second third : AuditLogEntry) : List AuditLogEntry :=
  let sealed₂ := second.sealed none signer
  [sealed₂, first.sealed sealed₂.entryHash signer, third.sealed sealed₂.entryHash signer]

theorem forkedLog_not_linked [FloatText] [Rfc3339] [Signatures]
    {first second third : AuditLogEntry} (hsha : Function.Injective Signatures.sha256) {signer : AuditSigner}
    (hkey : signer.canSign = true) (hids : [first.id, second.id, third.id].Nodup)
    {order : List AuditLogEntry} (hperm : order.Perm (forkedLog signer first second third)) :
    ¬ Linked none order := by
  intro hlinked
  have hsound : ∀ e ∈ forkedLog signer first second third, e.Sound signer := by
    intro e he
    simp only [forkedLog, List.mem_cons, List.not_mem_nil, or_false] at he
    rcases he with rfl | rfl | rfl <;> exact AuditLogEntry.sealed_sound hkey _ _
  have hnodup : ((forkedLog signer first second third).map (·.id)).Nodup :=
    (List.Perm.swap _ _ _).nodup_iff.mp hids
  have hmarked := (marked_of_sound hsha hsound hnodup).of_perm hperm
  let sealed₂ := second.sealed none signer
  have hsame := hlinked.prev_inj hmarked (first.sealed sealed₂.entryHash signer)
    (hperm.mem_iff.mpr (by simp [forkedLog, sealed₂])) (third.sealed sealed₂.entryHash signer)
    (hperm.mem_iff.mpr (by simp [forkedLog, sealed₂])) rfl
  have hid : first.id = third.id := by
    have hsealed := congrArg AuditLogEntry.id hsame
    exact hsealed
  simp [hid] at hids

section Chain

variable [FloatText] [Rfc3339] [JsonText] {enricher : AuditEnricher}

/-- The hash of the last entry of a log. -/
abbrev lastHash (entries : List AuditLogEntry) : Option String :=
  HashChain.lastMark AuditLogEntry.entryHash none entries

/-- The log is a chain of sound entries, and what is in memory is its head. -/
structure AuditSys.Chained [Signatures] (enricher : AuditEnricher) (entries : List AuditLogEntry)
    (s : AuditSys) : Prop where
  rows : s.table.rows = entries.map AuditLogEntry.toRow
  readsBack : ∀ e ∈ entries, e.ReadsBack
  linked : Linked none entries
  sound : ∀ e ∈ entries, e.Sound enricher.signer
  head : s.chain.seeded = true → s.chain.head = lastHash entries
  waiting : ∀ e ∈ s.waiting, e.ReadsBack ∧ s.table.find? e.id = none
  distinct : (s.waiting.map (·.id)).Nodup

theorem query_newest (hsqlite : enricher.backend.sqlite.Conforms "audit_log" AuditRow.column)
    {table : AuditTable} {entries : List AuditLogEntry}
    (hrows : table.rows = entries.map AuditLogEntry.toRow) :
    ∃ ordered : List AuditRow, ordered.Perm table.rows ∧
      ordered.Pairwise (fun a b => b.createdAt ≤ a.createdAt) ∧
      enricher.backend.query { limit := 1 } table = (ordered.take 1).mapM AuditRow.toEntry := by
  have htimes : ∀ e ∈ entries, ({ limit := 1 } : AuditQuery).TimesCompare e :=
    fun _ _ => ⟨nofun, nofun⟩
  obtain ⟨ordered, hperm, hsorted, hquery⟩ := query_of_plain hsqlite plain_newest hrows htimes
  have hall : entries.filter ({ limit := 1 } : AuditQuery).Matches = entries :=
    List.filter_eq_self.mpr fun _ _ => rfl
  rw [hall, ← hrows] at hperm
  exact ⟨ordered, hperm, hsorted, hquery⟩

theorem latestEntryHash_newest
    (hsqlite : enricher.backend.sqlite.Conforms "audit_log" AuditRow.column)
    {table : AuditTable} {before after : List AuditLogEntry} {e : AuditLogEntry}
    (hrows : table.rows = (before ++ e :: after).map AuditLogEntry.toRow) (hback : e.ReadsBack)
    (hothers : ∀ x ∈ before ++ after, Rfc3339.text x.createdAt < Rfc3339.text e.createdAt) :
    enricher.latestEntryHash false table = e.entryHash := by
  obtain ⟨ordered, hperm, hsorted, hquery⟩ := query_newest hsqlite hrows
  rw [hrows, List.map_append, List.map_cons] at hperm
  have hlatest : ∀ r ∈ before.map AuditLogEntry.toRow ++ after.map AuditLogEntry.toRow,
      r.createdAt < e.toRow.createdAt := by
    intro r hr
    rw [← List.map_append] at hr
    obtain ⟨x, hx, rfl⟩ := List.mem_map.mp hr
    exact hothers x hx
  obtain ⟨rest, rfl⟩ := head_of_newest hlatest hperm hsorted
  have hanswer : enricher.backend.query { limit := 1 } table = .ok [e] := by
    rw [hquery]
    simp [hback.toEntry, pure, Except.pure, bind, Except.bind]
  simp [AuditEnricher.latestEntryHash, hanswer]

theorem latestEntryHash_latest
    (hsqlite : enricher.backend.sqlite.Conforms "audit_log" AuditRow.column)
    {table : AuditTable} {entries : List AuditLogEntry}
    (hrows : table.rows = entries.map AuditLogEntry.toRow) (hback : ∀ e ∈ entries, e.ReadsBack)
    (hlatest : LastIsLatest table) :
    enricher.latestEntryHash false table = lastHash entries := by
  obtain ⟨before, last, hlast, hbefore⟩ := hlatest
  obtain ⟨init, final, rfl, rfl, hfinal⟩ := List.map_eq_append_iff.mp (hrows.symm.trans hlast)
  obtain ⟨e, rfl, rfl⟩ := List.map_eq_singleton_iff.mp hfinal
  have hothers : ∀ x ∈ init ++ [], Rfc3339.text x.createdAt < Rfc3339.text e.createdAt := by
    intro x hx
    rw [List.append_nil] at hx
    exact hbefore x.toRow (List.mem_map_of_mem hx)
  have hmark : lastHash (init ++ [e]) = e.entryHash := HashChain.lastMark_append init e
  rw [hmark]
  exact latestEntryHash_newest hsqlite hrows (hback e (by simp)) hothers

theorem latestEntryHash_empty
    (hsqlite : enricher.backend.sqlite.Conforms "audit_log" AuditRow.column)
    {table : AuditTable} (hrows : table.rows = []) (readFails : Bool) :
    enricher.latestEntryHash readFails table = none := by
  cases readFails with
  | true => rfl
  | false =>
    have hnone : table.rows = ([] : List AuditLogEntry).map AuditLogEntry.toRow := hrows
    obtain ⟨ordered, hperm, -, hquery⟩ := query_newest hsqlite hnone
    rw [hrows] at hperm
    have hanswer : enricher.backend.query { limit := 1 } table = .ok [] := by
      rw [hquery, List.perm_nil.mp hperm]
      rfl
    simp [AuditEnricher.latestEntryHash, hanswer]

namespace AuditSys.Chained

variable [Signatures] {entries : List AuditLogEntry} {s : AuditSys}

theorem start (hrows : s.table.rows = []) (hseeded : s.chain.seeded = false)
    (hwaiting : s.waiting = []) : s.Chained enricher [] where
  rows := hrows
  readsBack := by simp
  linked := trivial
  sound := by simp
  head h := by simp [hseeded] at h
  waiting := by simp [hwaiting]
  distinct := by simp [hwaiting]

theorem found (hsqlite : enricher.backend.sqlite.Conforms "audit_log" AuditRow.column)
    (h : s.Chained enricher entries) {place : ℕ} {faults : AuditFaults}
    (horderly : s.Orderly (.lock place faults)) :
    (if s.chain.seeded then s.chain.head
      else enricher.latestEntryHash faults.readFails s.table) = lastHash entries := by
  by_cases hseeded : s.chain.seeded = true
  · rw [if_pos hseeded]
    exact h.head hseeded
  rw [if_neg hseeded]
  rcases horderly with hs | hempty | ⟨hread, hlatest⟩
  · exact absurd hs hseeded
  · have hnil : entries = [] := List.map_eq_nil_iff.mp (h.rows.symm.trans hempty)
    rw [latestEntryHash_empty hsqlite hempty, hnil]
    rfl
  · rw [hread]
    exact latestEntryHash_latest hsqlite h.rows h.readsBack hlatest

theorem begin_ (h : s.Chained enricher entries) {entry : AuditLogEntry}
    (horderly : s.Orderly (.begin entry)) :
    (enricher.step s (.begin entry)).Chained enricher entries := by
  obtain ⟨hback, hfresh, hother⟩ := horderly
  refine ⟨h.rows, h.readsBack, h.linked, h.sound, h.head, ?_, ?_⟩
  · intro e he
    rcases List.mem_append.mp he with he | he
    · exact h.waiting e he
    · rw [List.mem_singleton.mp he]
      exact ⟨hback, hfresh⟩
  · have hids : ((s.waiting ++ [entry]).map (·.id)).Nodup := by
      rw [List.map_append, List.nodup_append]
      refine ⟨h.distinct, by simp, ?_⟩
      intro a ha b hb hab
      simp only [List.map_cons, List.map_nil, List.mem_singleton] at hb
      exact hother (hb ▸ hab ▸ ha)
    exact hids

theorem refused (h : s.Chained enricher entries) (place failures : ℕ) :
    ({ s with
      waiting := s.waiting.eraseIdx place
      chain := ⟨true, lastHash entries⟩
      sealFailures := failures } : AuditSys).Chained enricher entries := by
  have hsub : (s.waiting.eraseIdx place).Sublist s.waiting := List.eraseIdx_sublist ..
  exact ⟨h.rows, h.readsBack, h.linked, h.sound, fun _ => rfl,
    fun e he => h.waiting e (hsub.subset he), h.distinct.sublist (hsub.map _)⟩

/-- An entry sealed at the head is its successor. -/
theorem appended (hkey : enricher.signer.canSign = true) (h : s.Chained enricher entries)
    {place : ℕ} {entry : AuditLogEntry} (hentry : s.waiting[place]? = some entry) :
    let next := entry.sealed (lastHash entries) enricher.signer
    ({ s with
      waiting := s.waiting.eraseIdx place
      table := SqliteAuditBackend.append next s.table
      chain := ⟨true, next.entryHash⟩ } : AuditSys).Chained enricher (entries ++ [next]) := by
  intro next
  obtain ⟨hplace, hget⟩ := List.getElem?_eq_some_iff.mp hentry
  have hmem : entry ∈ s.waiting := List.mem_of_getElem? hentry
  obtain ⟨hback, hfresh⟩ := h.waiting entry hmem
  have hsub : (s.waiting.eraseIdx place).Sublist s.waiting := List.eraseIdx_sublist ..
  have hnext : s.table.find? next.id = none := hfresh
  obtain ⟨hrows, hothers⟩ := append_fresh next hnext
  have hids : entry.id ∉ (s.waiting.eraseIdx place).map (·.id) := by
    have hperm := (List.getElem_cons_eraseIdx_perm hplace).map (·.id)
    have hnodup := hperm.nodup_iff.mpr h.distinct
    rw [hget] at hnodup
    exact (List.nodup_cons.mp hnodup).1
  refine ⟨?_, ?_, ?_, ?_, ?_, ?_, h.distinct.sublist (hsub.map _)⟩
  · change (SqliteAuditBackend.append next s.table).rows = _
    rw [hrows, h.rows, List.map_append]
    rfl
  · intro e he
    rcases List.mem_append.mp he with he | he
    · exact h.readsBack e he
    · rw [List.mem_singleton.mp he]
      exact hback.sealed _ _
  · exact HashChain.linked_append.mpr ⟨h.linked, rfl⟩
  · intro e he
    rcases List.mem_append.mp he with he | he
    · exact h.sound e he
    · rw [List.mem_singleton.mp he]
      exact AuditLogEntry.sealed_sound hkey entry _
  · have hmark : lastHash (entries ++ [next]) = next.entryHash :=
      HashChain.lastMark_append entries next
    exact fun _ => hmark.symm
  · intro e he
    obtain ⟨heback, hefresh⟩ := h.waiting e (hsub.subset he)
    have hne : next.id ≠ e.id := fun hsame => hids (List.mem_map.mpr ⟨e, he, hsame.symm⟩)
    exact ⟨heback, (hothers e.id hne).trans hefresh⟩

/-- What an orderly step does to the chain. -/
theorem step (hsqlite : enricher.backend.sqlite.Conforms "audit_log" AuditRow.column)
    (hkey : enricher.signer.canSign = true) (h : s.Chained enricher entries) {act : AuditAct}
    (horderly : s.Orderly act) :
    ∃ entries', (enricher.step s act).Chained enricher entries' := by
  cases act with
  | «begin» entry => exact ⟨entries, h.begin_ horderly⟩
  | restart =>
    refine ⟨entries, h.rows, h.readsBack, h.linked, h.sound, ?_, ?_, ?_⟩
    · exact fun hseeded => nomatch hseeded
    · simp [AuditEnricher.step]
    · simp [AuditEnricher.step]
  | lock place faults =>
    cases hentry : s.waiting[place]? with
    | none =>
      have hsame : enricher.step s (.lock place faults) = s := by
        simp [AuditEnricher.step, hentry]
      exact ⟨entries, hsame.symm ▸ h⟩
    | some entry =>
      have hfound := h.found hsqlite horderly
      cases happend : faults.appendError with
      | some err =>
        have hstep : enricher.step s (.lock place faults) =
            { s with
              waiting := s.waiting.eraseIdx place
              chain := ⟨true, lastHash entries⟩
              sealFailures := s.sealFailures + 1 } := by
          simp [AuditEnricher.step, AuditEnricher.tryEnrichAndAppend, AuditEnricher.sealEntry,
            hentry, happend, hfound]
        exact ⟨entries, hstep.symm ▸ h.refused place _⟩
      | none =>
        have hstep : enricher.step s (.lock place faults) =
            { s with
              waiting := s.waiting.eraseIdx place
              table := SqliteAuditBackend.append
                (entry.sealed (lastHash entries) enricher.signer) s.table
              chain := ⟨true, (entry.sealed (lastHash entries) enricher.signer).entryHash⟩ } := by
          simp [AuditEnricher.step, AuditEnricher.tryEnrichAndAppend, AuditEnricher.sealEntry,
            hentry, happend, hfound]
        have happended := h.appended hkey hentry
        rw [hstep]
        exact ⟨_, happended⟩

end AuditSys.Chained

/-- Every step of a run is orderly where it is taken. -/
def AuditEnricher.Orderly [Signatures] (enricher : AuditEnricher) (s : AuditSys) :
    List AuditAct → Prop
  | [] => True
  | act :: acts => s.Orderly act ∧ enricher.Orderly (enricher.step s act) acts

theorem AuditSys.Chained.run [Signatures] {entries : List AuditLogEntry} {s : AuditSys}
    (hsqlite : enricher.backend.sqlite.Conforms "audit_log" AuditRow.column)
    (hkey : enricher.signer.canSign = true) (h : s.Chained enricher entries)
    {acts : List AuditAct} (horderly : enricher.Orderly s acts) :
    ∃ entries', (enricher.run s acts).Chained enricher entries' := by
  induction acts generalizing s entries with
  | nil => exact ⟨entries, h⟩
  | cons act acts ih =>
    obtain ⟨hact, hrest⟩ := horderly
    obtain ⟨entries', h'⟩ := h.step hsqlite hkey hact
    exact ih h' hrest

/-- In a run whose steps are all orderly, the stored entries have exactly one order in which they
form a chain, and in that order the log verifies. -/
theorem audit_chain_linear [Signatures]
    (hsqlite : enricher.backend.sqlite.Conforms "audit_log" AuditRow.column)
    (hkey : enricher.signer.canSign = true) (hsha : Function.Injective Signatures.sha256)
    {acts : List AuditAct} (horderly : enricher.Orderly {} acts) :
    ∃ entries, (enricher.run {} acts).table.rows.mapM AuditRow.toEntry = .ok entries ∧
      ∃ order : List AuditLogEntry, order.Perm entries ∧ Linked none order ∧
        verifyChain order enricher.signer = .ok () ∧
        ∀ order' : List AuditLogEntry, order'.Perm entries → Linked none order' →
          order' = order := by
  have hstart : ({} : AuditSys).Chained enricher [] := .start rfl rfl rfl
  obtain ⟨entries, h⟩ := hstart.run hsqlite hkey horderly
  have hread : (enricher.run {} acts).table.rows.mapM AuditRow.toEntry = .ok entries := by
    rw [h.rows]
    exact mapM_toEntry h.readsBack
  have hverify := verifyChain_ok_iff.mpr ⟨h.linked, h.sound⟩
  have hids : (entries.map (·.id)).Nodup := by
    have hkeys := (enricher.run {} acts).table.nodup
    rw [h.rows, List.map_map] at hkeys
    exact hkeys
  refine ⟨entries, hread, entries, .refl _, h.linked, hverify, ?_⟩
  intro order' hperm hlinked
  exact h.linked.unique hlinked hperm (marked_of_sound hsha h.sound hids)

section Fork

variable [Signatures] {first second third : AuditLogEntry}

theorem fork_rows (hsqlite : enricher.backend.sqlite.Conforms "audit_log" AuditRow.column)
    (hids : [first.id, second.id, third.id].Nodup) (hback : second.ReadsBack)
    (hlate : Rfc3339.text first.createdAt < Rfc3339.text second.createdAt) :
    (enricher.run {} (forkActs first second third)).table.rows =
      (forkedLog enricher.signer first second third).map AuditLogEntry.toRow := by
  have hne : first.id ≠ second.id ∧ first.id ≠ third.id ∧ second.id ≠ third.id := by
    simpa [and_assoc] using hids
  obtain ⟨h₁₂, h₁₃, h₂₃⟩ := hne
  let sealed₂ := second.sealed none enricher.signer
  let sealed₁ := first.sealed sealed₂.entryHash enricher.signer
  let sealed₃ := third.sealed sealed₂.entryHash enricher.signer
  let table₁ := SqliteAuditBackend.append sealed₂ .empty
  let table₂ := SqliteAuditBackend.append sealed₁ table₁
  have hempty : enricher.latestEntryHash false .empty = none := latestEntryHash_empty hsqlite rfl _
  obtain ⟨hrows₁, hfind₁⟩ := append_fresh sealed₂ Table.find?_empty
  obtain ⟨hrows₂, hfind₂⟩ := append_fresh sealed₁ (hfind₁ first.id h₁₂.symm)
  obtain ⟨hrows₃, -⟩ := append_fresh sealed₃
    ((hfind₂ third.id h₁₃).trans (hfind₁ third.id h₂₃))
  have hlog : table₂.rows = ([] ++ sealed₂ :: [sealed₁]).map AuditLogEntry.toRow := by
    rw [hrows₂, hrows₁]
    rfl
  have hothers : ∀ x ∈ [] ++ [sealed₁],
      Rfc3339.text x.createdAt < Rfc3339.text sealed₂.createdAt := by
    intro x hx
    rw [List.mem_singleton.mp hx]
    exact hlate
  have hnewest : enricher.latestEntryHash false table₂ = sealed₂.entryHash :=
    latestEntryHash_newest hsqlite hlog (hback.sealed none enricher.signer) hothers
  have hrun : (enricher.run {} (forkActs first second third)).table =
      SqliteAuditBackend.append sealed₃ table₂ := by
    simp [AuditEnricher.run, AuditEnricher.step, AuditEnricher.tryEnrichAndAppend,
      AuditEnricher.sealEntry, forkActs, hempty, hnewest, sealed₁, sealed₂, sealed₃, table₁, table₂]
  rw [hrun, hrows₃, hlog]
  rfl

theorem fork_breaks (hsqlite : enricher.backend.sqlite.Conforms "audit_log" AuditRow.column)
    (hkey : enricher.signer.canSign = true) (hsha : Function.Injective Signatures.sha256)
    (hids : [first.id, second.id, third.id].Nodup) (hfirst : first.ReadsBack)
    (hsecond : second.ReadsBack) (hthird : third.ReadsBack)
    (hlate : Rfc3339.text first.createdAt < Rfc3339.text second.createdAt) :
    ∃ entries, (enricher.run {} (forkActs first second third)).table.rows.mapM AuditRow.toEntry =
        .ok entries ∧
      ¬ ∃ order : List AuditLogEntry, order.Perm entries ∧ Linked none order := by
  have hback : ∀ e ∈ forkedLog enricher.signer first second third, e.ReadsBack := by
    intro e he
    simp only [forkedLog, List.mem_cons, List.not_mem_nil, or_false] at he
    rcases he with rfl | rfl | rfl
    · exact hsecond.sealed _ _
    · exact hfirst.sealed _ _
    · exact hthird.sealed _ _
  have hread := mapM_toEntry hback
  rw [← fork_rows hsqlite hids hsecond hlate] at hread
  refine ⟨_, hread, ?_⟩
  rintro ⟨order, hperm, hlinked⟩
  exact forkedLog_not_linked hsha hkey hids hperm hlinked

/-- An append, a refused one, a restart and another append. -/
def refusedActs (first second third : AuditLogEntry) : List AuditAct :=
  [.begin first, .lock 0 {}, .begin second, .lock 0 { appendError := some "disk full" }, .restart,
    .begin third, .lock 0 {}]

theorem orderly_refusedActs
    (hsqlite : enricher.backend.sqlite.Conforms "audit_log" AuditRow.column)
    (hids : [first.id, second.id, third.id].Nodup) (hfirst : first.ReadsBack)
    (hsecond : second.ReadsBack) (hthird : third.ReadsBack) :
    enricher.Orderly {} (refusedActs first second third) := by
  have hne : first.id ≠ second.id ∧ first.id ≠ third.id ∧ second.id ≠ third.id := by
    simpa [and_assoc] using hids
  obtain ⟨h₁₂, h₁₃, -⟩ := hne
  let sealed₁ := first.sealed none enricher.signer
  have hempty : enricher.latestEntryHash false .empty = none := latestEntryHash_empty hsqlite rfl _
  obtain ⟨hrows, hfind⟩ := append_fresh sealed₁ Table.find?_empty
  have hlatest : LastIsLatest (SqliteAuditBackend.append sealed₁ .empty) :=
    ⟨[], _, hrows, by simp⟩
  have hfind₂ := hfind second.id h₁₂
  have hfind₃ := hfind third.id h₁₃
  simp [AuditEnricher.Orderly, AuditSys.Orderly, refusedActs, AuditEnricher.step,
    AuditEnricher.tryEnrichAndAppend, AuditEnricher.sealEntry, hempty, hfirst, hsecond, hthird,
    hlatest, hfind₂, hfind₃, sealed₁]
  exact .inl rfl

end Fork

end Chain

def auditEnricher : AuditEnricher := ⟨auditBackend, hmacSigner⟩

theorem stepRecord_readsBack {n : UInt8} {t : Instant} (ht : t < 10) :
    @AuditLogEntry.ReadsBack bitsText firstNanos nullText (stepRecord n t) :=
  @AuditLogEntry.ReadsBack.mk bitsText firstNanos nullText _ rfl
    ((by decide +kernel : ∀ t < 10, firstNanos.parse (firstNanos.text t) = .ok t) t ht) nofun

/-- A refused append and a restart leave the log one chain. -/
theorem refused_append_leaves_one_chain :
    let acts := refusedActs (stepRecord 1 1) (stepRecord 2 2) (stepRecord 3 3)
    ∃ entries, ((@AuditEnricher.run bitsText firstNanos nullText plainSignatures auditEnricher {}
        acts).table.rows.mapM (@AuditRow.toEntry firstNanos nullText)) = .ok entries ∧
      ∃ order : List AuditLogEntry, order.Perm entries ∧ Linked none order ∧
        @verifyChain bitsText firstNanos plainSignatures order hmacSigner = .ok () ∧
        ∀ order' : List AuditLogEntry, order'.Perm entries → Linked none order' →
          order' = order :=
  @audit_chain_linear bitsText firstNanos nullText auditEnricher plainSignatures
    (SqlText.reference_conforms "audit_log" AuditRow.column) rfl (fun _ _ h => h) _
    (@orderly_refusedActs bitsText firstNanos nullText auditEnricher plainSignatures _ _ _
      (SqlText.reference_conforms "audit_log" AuditRow.column) (by decide)
      (stepRecord_readsBack (by decide)) (stepRecord_readsBack (by decide))
      (stepRecord_readsBack (by decide)))

/-- Two calls that take the lock in the other order than they built their entries, then a restart:
the new process continues from the entry of the later time, which already has a successor. -/
theorem concurrent_calls_fork :
    let acts := forkActs (stepRecord 1 1) (stepRecord 2 2) (stepRecord 3 3)
    ∃ entries, ((@AuditEnricher.run bitsText firstNanos nullText plainSignatures auditEnricher {}
        acts).table.rows.mapM (@AuditRow.toEntry firstNanos nullText)) = .ok entries ∧
      ¬ ∃ order : List AuditLogEntry, order.Perm entries ∧ Linked none order := by
  have hids : [(stepRecord 1 1).id, (stepRecord 2 2).id, (stepRecord 3 3).id].Nodup := by decide
  have hlate : firstNanos.text 1 < firstNanos.text 2 := by decide +kernel
  exact @fork_breaks bitsText firstNanos nullText auditEnricher plainSignatures _ _ _
    (SqlText.reference_conforms "audit_log" AuditRow.column) rfl (fun _ _ h => h) hids
    (stepRecord_readsBack (by decide)) (stepRecord_readsBack (by decide))
    (stepRecord_readsBack (by decide)) hlate

section Commitment

variable [FloatText] [Rfc3339] [Signatures]

theorem AuditLogEntry.content_sealed (e : AuditLogEntry) (p : Option String)
    (signer : AuditSigner) : (e.sealed p signer).content = e.content := rfl

/-- The two say the same in the same place; the signatures may differ. -/
def AuditLogEntry.Same (e₁ e₂ : AuditLogEntry) : Prop :=
  e₁.content = e₂.content ∧ e₁.prevHash = e₂.prevHash ∧ e₁.entryHash = e₂.entryHash

end Commitment

/-- The record sealed under another key. -/
def resealedRecord : AuditLogEntry :=
  @AuditLogEntry.sealed bitsText firstNanos plainSignatures (stepRecord 1 1) none ⟨.hmac [2]⟩

end JamJet
