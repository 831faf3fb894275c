import JamJet.AuditHash
import JamJet.AuditLog
import JamJet.Fallible

/-! What an audit query sees, when its filters stay inside their quotes. -/

namespace JamJet

namespace AuditQuery

variable {q : AuditQuery}

theorem filter_tenant {tenant : String} (htenant : q.tenantId = some tenant)
    (log : List AuditLogEntry) :
    log.filter q.Matches = (log.filter (·.tenantId = tenant)).filter q.Matches := by
  rw [List.filter_filter]
  refine List.filter_congr fun e _ => ?_
  by_cases hsame : e.tenantId = tenant
  · simp [hsame]
  · simp [Matches, htenant, hsame, Ne.symm hsame]

variable [Rfc3339]

/-- No given text ends its literal or the statement. -/
def Plain (q : AuditQuery) : Prop := ∀ kv ∈ q.texts, ∀ v ∈ kv.2, SqlText.Plain v

instance (q : AuditQuery) : Decidable q.Plain :=
  inferInstanceAs (Decidable (∀ kv ∈ q.texts, ∀ v ∈ kv.2, SqlText.Plain v))

/-- The bounds compare with the entry's time as texts the way they do as times. -/
structure TimesCompare (q : AuditQuery) (e : AuditLogEntry) : Prop where
  from_ : ∀ t ∈ q.from_, Rfc3339.text t ≤ Rfc3339.text e.createdAt ↔ t ≤ e.createdAt
  to_ : ∀ t ∈ q.to_, Rfc3339.text e.createdAt ≤ Rfc3339.text t ↔ e.createdAt ≤ t

theorem plain_time (t : Instant) : SqlText.Plain (Rfc3339.text t) := by
  intro c hc
  have hchar := Rfc3339.text_chars t c hc
  constructor
  · rintro rfl
    exact absurd hchar (by decide)
  · rintro rfl
    exact absurd hchar (by decide)

theorem mem_filters {f : SqlText.Filter} (h : f ∈ q.filters) :
    (∃ t, f.column = "created_at" ∧ f.value = Rfc3339.text t) ∨
      ∃ kv ∈ q.texts, kv.1 = f.column ∧ kv.2 = some f.value := by
  rcases List.mem_append.mp h with h | h
  · obtain ⟨t, -, rfl⟩ := Option.map_eq_some_iff.mp (Option.mem_toList.mp h)
    exact .inl ⟨t, rfl, rfl⟩
  rcases List.mem_append.mp h with h | h
  · obtain ⟨t, -, rfl⟩ := Option.map_eq_some_iff.mp (Option.mem_toList.mp h)
    exact .inl ⟨t, rfl, rfl⟩
  · obtain ⟨kv, hkv, h⟩ := List.mem_flatMap.mp h
    obtain ⟨v, hv, rfl⟩ := Option.map_eq_some_iff.mp (Option.mem_toList.mp h)
    exact .inr ⟨kv, hkv, rfl, hv⟩

theorem column_of_mem_filters {f : SqlText.Filter} (h : f ∈ q.filters) :
    f.column ∈ ["created_at", "actor_id", "event_type", "execution_id", "tenant_id"] := by
  rcases mem_filters h with ⟨t, hcolumn, -⟩ | ⟨kv, hkv, hcolumn, -⟩
  · simp [hcolumn]
  · have hname : kv.1 ∈ q.texts.map Prod.fst := List.mem_map_of_mem hkv
    rw [hcolumn] at hname
    exact List.mem_cons_of_mem _ hname

theorem safe_filters (hplain : q.Plain) : ∀ f ∈ q.filters, f.Safe := by
  intro f hf
  have hwordlike : ∀ c ∈ ["created_at", "actor_id", "event_type", "execution_id", "tenant_id"],
      SqlText.Wordlike c.toList := by decide
  refine ⟨hwordlike _ (column_of_mem_filters hf), ?_⟩
  rcases mem_filters hf with ⟨t, -, hvalue⟩ | ⟨kv, hkv, -, hvalue⟩
  · rw [hvalue]
    exact plain_time t
  · exact hplain kv hkv f.value hvalue

theorem known_filters : ∀ f ∈ q.filters, (AuditRow.column f.column).isSome = true := by
  intro f hf
  have hknown : ∀ c ∈ ["created_at", "actor_id", "event_type", "execution_id", "tenant_id"],
      (AuditRow.column c).isSome = true := by decide
  exact hknown _ (column_of_mem_filters hf)

variable [FloatText]

theorem filters_hold {e : AuditLogEntry} (htimes : q.TimesCompare e) :
    q.filters.all (SqlText.Filter.holds AuditRow.column e.toRow) = q.Matches e := by
  have hfrom : (q.from_.map fun t => (⟨"created_at", .ge, Rfc3339.text t⟩ : SqlText.Filter)).toList.all
      (SqlText.Filter.holds AuditRow.column e.toRow) = q.from_.all (· ≤ e.createdAt) := by
    cases hq : q.from_ with
    | none => rfl
    | some t =>
      have htime := htimes.from_ t hq
      simp [SqlText.Filter.holds, AuditRow.column, SqlText.Comparator.holds,
        AuditLogEntry.toRow, htime]
  have hto : (q.to_.map fun t => (⟨"created_at", .le, Rfc3339.text t⟩ : SqlText.Filter)).toList.all
      (SqlText.Filter.holds AuditRow.column e.toRow) = q.to_.all (e.createdAt ≤ ·) := by
    cases hq : q.to_ with
    | none => rfl
    | some t =>
      have htime := htimes.to_ t hq
      simp [SqlText.Filter.holds, AuditRow.column, SqlText.Comparator.holds,
        AuditLogEntry.toRow, htime]
  have htext : ∀ (name : String) (column : AuditRow → String) (v : Option String),
      AuditRow.column name = some column →
      (v.map fun v => (⟨name, .eq, v⟩ : SqlText.Filter)).toList.all
        (SqlText.Filter.holds AuditRow.column e.toRow) = v.all (· = column e.toRow) := by
    intro name column v hname
    cases v with
    | none => rfl
    | some v => simp [SqlText.Filter.holds, hname, SqlText.Comparator.holds, eq_comm]
  have hactor := htext "actor_id" _ q.actorId rfl
  have hevent := htext "event_type" _ q.eventType rfl
  have hexecution := htext "execution_id" _ q.executionId rfl
  have htenant := htext "tenant_id" _ q.tenantId rfl
  simp only [filters, texts, List.all_append, List.flatMap_cons, List.flatMap_nil, List.append_nil,
    hfrom, hto, hactor, hevent, hexecution, htenant, Matches, Bool.and_assoc]
  rfl

theorem filter_rows {log : List AuditLogEntry} (htimes : ∀ e ∈ log, q.TimesCompare e) :
    (log.map AuditLogEntry.toRow).filter
        (SqlText.holds AuditRow.column (SqlText.condition q.filters)) =
      (log.filter q.Matches).map AuditLogEntry.toRow := by
  rw [List.filter_map]
  congr 1
  refine List.filter_congr fun e he => ?_
  rw [Function.comp_apply, SqlText.holds_condition, filters_hold (htimes e he)]

end AuditQuery

section Plain

variable [Rfc3339] [FloatText] {backend : SqliteAuditBackend} {q : AuditQuery}
  {log : List AuditLogEntry} {table : AuditTable}

theorem count_of_plain (hsqlite : backend.sqlite.Conforms "audit_log" AuditRow.column)
    (hplain : q.Plain) (hrows : table.rows = log.map AuditLogEntry.toRow)
    (htimes : ∀ e ∈ log, q.TimesCompare e) :
    backend.count q table = .ok (log.filter q.Matches).length := by
  have htable : SqlText.Wordlike "audit_log".toList := by decide
  have htyped := SqlText.typed_condition (AuditQuery.known_filters (q := q))
  have hanswer := hsqlite.count (SqlText.parse_countText htable (AuditQuery.safe_filters hplain))
    htyped table.rows
  rw [SqliteAuditBackend.count, hanswer, hrows, AuditQuery.filter_rows htimes, List.length_map]
  rfl

theorem query_of_plain [JsonText] (hsqlite : backend.sqlite.Conforms "audit_log" AuditRow.column)
    (hplain : q.Plain) (hrows : table.rows = log.map AuditLogEntry.toRow)
    (htimes : ∀ e ∈ log, q.TimesCompare e) :
    ∃ ordered : List AuditRow,
      ordered.Perm ((log.filter q.Matches).map AuditLogEntry.toRow) ∧
      ordered.Pairwise (fun a b => b.createdAt ≤ a.createdAt) ∧
      backend.query q table =
        ((ordered.drop q.offset.toNat).take q.limit.toNat).mapM AuditRow.toEntry := by
  have htable : SqlText.Wordlike "audit_log".toList := by decide
  have hcolumn : SqlText.Wordlike "created_at".toList := by decide
  have htyped := SqlText.typed_condition (AuditQuery.known_filters (q := q))
  obtain ⟨result, hanswer, ordered, hperm, hordered, hwindow⟩ := hsqlite.rows
    (SqlText.parse_rowsText htable hcolumn (AuditQuery.safe_filters hplain) q.limit.toNat
      q.offset.toNat) htyped rfl table.rows
  rw [hrows, AuditQuery.filter_rows htimes] at hperm
  refine ⟨ordered, hperm, hordered, ?_⟩
  rw [SqliteAuditBackend.query, hanswer, ← hwindow]
  rfl

end Plain

/-- A query and a count whose given texts hold no quote and no NUL see exactly the entries that
match. -/
theorem audit_query_exact [Rfc3339] [FloatText] [JsonText] {backend : SqliteAuditBackend}
    (hsqlite : backend.sqlite.Conforms "audit_log" AuditRow.column) {q : AuditQuery}
    (hplain : q.Plain) {log : List AuditLogEntry} {table : AuditTable}
    (hrows : table.rows = log.map AuditLogEntry.toRow) (htimes : ∀ e ∈ log, q.TimesCompare e) :
    backend.count q table = .ok (log.filter q.Matches).length ∧
    (∃ ordered : List AuditRow,
      ordered.Perm ((log.filter q.Matches).map AuditLogEntry.toRow) ∧
      ordered.Pairwise (fun a b => b.createdAt ≤ a.createdAt) ∧
      backend.query q table =
        ((ordered.drop q.offset.toNat).take q.limit.toNat).mapM AuditRow.toEntry) ∧
    ∀ tenant, q.tenantId = some tenant →
      log.filter q.Matches = (log.filter (·.tenantId = tenant)).filter q.Matches :=
  ⟨count_of_plain hsqlite hplain hrows htimes, query_of_plain hsqlite hplain hrows htimes,
    fun _ htenant => AuditQuery.filter_tenant htenant log⟩

/-! Two tenants with an entry each -/

@[reducible]
def nullText : JsonText where
  fromStr s := if s = "null" then .ok ⟨.null, trivial⟩ else .error "expected value"

def alphaEntry : AuditLogEntry := { stepRecord 1 1 with tenantId := "alpha" }

def bravoEntry : AuditLogEntry := { stepRecord 2 2 with tenantId := "bravo", actorId := "bob" }

def twoTenants : AuditTable :=
  @SqliteAuditBackend.append firstNanos bitsText bravoEntry
    (@SqliteAuditBackend.append firstNanos bitsText alphaEntry .empty)

def auditBackend : SqliteAuditBackend := ⟨SqlText.reference "audit_log" AuditRow.column⟩

theorem alpha_sees_its_own :
    let q : AuditQuery := { tenantId := some "alpha", actorId := some "worker", limit := 50 }
    @SqliteAuditBackend.count firstNanos auditBackend q twoTenants = .ok 1 :=
  (@audit_query_exact firstNanos bitsText nullText auditBackend
    (SqlText.reference_conforms "audit_log" AuditRow.column)
    { tenantId := some "alpha", actorId := some "worker", limit := 50 } (by decide)
    [alphaEntry, bravoEntry] twoTenants rfl
    fun _ _ => @AuditQuery.TimesCompare.mk firstNanos _ _ nofun nofun).1

/-- A quote in the actor's name ends its literal, and what follows it cancels the tenant's filter:
no entry matches, and those of both tenants are seen. -/
theorem quote_reaches_every_tenant :
    let q : AuditQuery :=
      { tenantId := some "alpha", limit := 50
        actorId := some "' OR 1=1 OR ''='" }
    ([alphaEntry, bravoEntry].filter q.Matches).length = 0 ∧
      @SqliteAuditBackend.count firstNanos auditBackend q twoTenants = .ok 2 :=
  ⟨by decide, by decide +kernel⟩

/-! The listing of the API -/

structure AuditQueryParams where
  executionId : Option String := none
  actorId : Option String := none
  eventType : Option String := none
  limit : UInt32 := 50
  offset : UInt32 := 0

structure AuditPage where
  items : List AuditLogEntry
  total : ℕ
  limit : UInt32
  offset : UInt32

/-- The query of a request, with the tenant of its token. -/
def AuditQueryParams.query (params : AuditQueryParams) (tenantId : String) : AuditQuery where
  executionId := params.executionId
  actorId := params.actorId
  eventType := params.eventType
  tenantId := some tenantId
  limit := min params.limit 200
  offset := params.offset

def listAuditLog [Rfc3339] [JsonText] (backend : SqliteAuditBackend) (tenantId : String)
    (params : AuditQueryParams) (table : AuditTable) : Except AuditError AuditPage := do
  let q := params.query tenantId
  let total ← backend.count q table
  let entries ← backend.query q table
  return ⟨entries, total, q.limit, q.offset⟩

theorem tenantId_of_toEntry [Rfc3339] [JsonText] {row : AuditRow} {e : AuditLogEntry}
    (h : row.toEntry = .ok e) : e.tenantId = row.tenantId := by
  unfold AuditRow.toEntry at h
  obtain ⟨raw, -, h⟩ := Fallible.bind_eq_ok.mp h
  obtain ⟨createdAt, -, h⟩ := Fallible.bind_eq_ok.mp h
  cases h
  rfl

/-- A request with plain filters is told how many of its tenant's entries match, and is listed its
window of those and of no other tenant's. -/
theorem listAuditLog_tenant [Rfc3339] [FloatText] [JsonText] {backend : SqliteAuditBackend}
    (hsqlite : backend.sqlite.Conforms "audit_log" AuditRow.column) {tenantId : String}
    {params : AuditQueryParams} (hplain : (params.query tenantId).Plain)
    {log : List AuditLogEntry} {table : AuditTable}
    (hrows : table.rows = log.map AuditLogEntry.toRow) {page : AuditPage}
    (h : listAuditLog backend tenantId params table = .ok page) :
    page.total =
        ((log.filter (·.tenantId = tenantId)).filter (params.query tenantId).Matches).length ∧
      page.items.length =
        min (min params.limit 200).toNat (page.total - params.offset.toNat) ∧
      ∀ item ∈ page.items, item.tenantId = tenantId := by
  have htimes : ∀ e ∈ log, (params.query tenantId).TimesCompare e := fun _ _ => ⟨nofun, nofun⟩
  have hcount := count_of_plain hsqlite hplain hrows htimes
  obtain ⟨ordered, hperm, -, hquery⟩ := query_of_plain hsqlite hplain hrows htimes
  simp only [listAuditLog, hcount, hquery] at h
  obtain ⟨total, htotal, h⟩ := Fallible.bind_eq_ok.mp h
  obtain ⟨items, hitems, h⟩ := Fallible.bind_eq_ok.mp h
  cases h
  cases htotal
  have hrelated := Fallible.forall₂_of_mapM hitems
  have htenant := AuditQuery.filter_tenant (q := params.query tenantId) rfl log
  refine ⟨by rw [htenant], ?_, fun item hitem => ?_⟩
  · have hlength : ordered.length = (log.filter (params.query tenantId).Matches).length := by
      rw [hperm.length_eq, List.length_map]
    rw [← hrelated.length_eq, List.length_take, List.length_drop, hlength]
    rfl
  · obtain ⟨row, hrow, hentry⟩ := Fallible.exists_of_forall₂ hrelated item hitem
    have hmem : row ∈ ordered := List.mem_of_mem_drop (List.mem_of_mem_take hrow)
    obtain ⟨e, he, rfl⟩ := List.mem_map.mp (hperm.mem_iff.mp hmem)
    rw [htenant] at he
    have hsame := (List.mem_filter.mp (List.mem_filter.mp he).1).2
    exact (tenantId_of_toEntry hentry).trans (of_decide_eq_true hsame)

theorem listAuditLog_alpha :
    ∃ page, @listAuditLog firstNanos nullText auditBackend "alpha" {} twoTenants = .ok page ∧
      page.total = 1 ∧ page.items.length = 1 ∧ ∀ item ∈ page.items, item.tenantId = "alpha" := by
  have hread : (@SqliteAuditBackend.query firstNanos auditBackend nullText
      (AuditQueryParams.query {} "alpha") twoTenants).toBool = true := by decide +kernel
  have hcount : @SqliteAuditBackend.count firstNanos auditBackend (AuditQueryParams.query {} "alpha")
      twoTenants = .ok 1 := by decide +kernel
  cases hquery : @SqliteAuditBackend.query firstNanos auditBackend nullText
      (AuditQueryParams.query {} "alpha") twoTenants with
  | error e =>
    rw [hquery] at hread
    cases hread
  | ok items =>
    have hpage : @listAuditLog firstNanos nullText auditBackend "alpha" {} twoTenants =
        .ok ⟨items, 1, 50, 0⟩ := by
      simp only [listAuditLog, hcount, hquery]
      rfl
    obtain ⟨-, hlength, htenant⟩ := @listAuditLog_tenant firstNanos bitsText nullText auditBackend
      (SqlText.reference_conforms "audit_log" AuditRow.column) "alpha" {} (by decide)
      [alphaEntry, bravoEntry] twoTenants rfl _ hpage
    exact ⟨_, hpage, rfl, hlength, htenant⟩

end JamJet
