import JamJet.TenantBackend

/-! What the operations of one tenant's backend leave another tenant to see. -/

namespace JamJet

/-- The rows of a tenant among those of a table. -/
def ofTenant {α : Type} (A : TenantId) (rows : List (Owned α)) : List α :=
  (rows.filter fun x => x.tenantId = A).map (·.row)

section Rows

variable {α : Type} {A B : TenantId} {rows : List (Owned α)}

theorem ofTenant_append_of_ne {x : Owned α} (h : x.tenantId ≠ A) :
    ofTenant A (rows ++ [x]) = ofTenant A rows := by
  simp [ofTenant, h]

theorem ofTenant_map {g : Owned α → Owned α} (htenant : ∀ x ∈ rows, (g x).tenantId = x.tenantId)
    (hsame : ∀ x ∈ rows, x.tenantId = A → g x = x) :
    ofTenant A (rows.map g) = ofTenant A rows := by
  induction rows with
  | nil => rfl
  | cons x rows ih =>
    have hrest := ih (fun y hy => htenant y (by simp [hy])) fun y hy => hsame y (by simp [hy])
    have hx := htenant x (by simp)
    unfold ofTenant at hrest ⊢
    by_cases hA : x.tenantId = A
    · simp [hA, hsame x (by simp) hA, hrest]
    · simp [hx, hA, hrest]

theorem ofTenant_filter {p : Owned α → Bool} (hkeep : ∀ x ∈ rows, x.tenantId = A → p x = true) :
    ofTenant A (rows.filter p) = ofTenant A rows := by
  unfold ofTenant
  rw [List.filter_filter]
  congr 1
  refine List.filter_congr fun x hx => ?_
  by_cases hA : x.tenantId = A
  · simp [hA, hkeep x hx hA]
  · simp [hA]

end Rows

namespace TenantDb

variable {db : TenantDb} {n m : TableName} {t : Table n.Key (Owned n.Row) n.key}

theorem owned_eq (A : TenantId) : db.owned A n = ofTenant A (db.table n).rows := rfl

@[simp]
theorem setTable_self : (db.setTable n t).table n = t := Function.update_self ..

theorem setTable_of_ne (h : m ≠ n) : (db.setTable n t).table m = db.table m :=
  Function.update_of_ne h ..

theorem find?_of_mem_owned {A : TenantId} {r : n.Row} (h : r ∈ db.owned A n) :
    (db.table n).find? (n.key ⟨A, r⟩) = some ⟨A, r⟩ := by
  obtain ⟨x, hx, rfl⟩ := List.mem_map.mp h
  obtain ⟨hmem, hA⟩ := List.mem_filter.mp hx
  obtain ⟨tenantId, row⟩ := x
  obtain rfl : tenantId = A := by simpa using hA
  exact Table.find?_of_mem hmem

theorem maxSequence_append {db' : TenantDb} {x : Owned EventRow}
    (hrows : (db'.table .events).rows = (db.table .events).rows ++ [x])
    (hx : x.row.sequence = db.maxSequence x.row.executionId + 1) (e : ExecutionId) :
    db'.maxSequence e = db.maxSequence e + ([x].filter fun x => x.row.executionId = e).length := by
  have hfold : ∀ (rows : List (Owned EventRow)) (b : ℕ),
      rows.foldr (fun x n => max x.row.sequence n) b =
        max (rows.foldr (fun x n => max x.row.sequence n) 0) b := by
    intro rows b
    induction rows with
    | nil => simp
    | cons y rows ih => rw [List.foldr_cons, ih, List.foldr_cons, max_assoc]
  rw [maxSequence, hrows, List.filter_append, List.foldr_append, hfold]
  by_cases he : x.row.executionId = e
  · subst he
    have hmax : db.maxSequence x.row.executionId ≤ x.row.sequence := by
      rw [hx]
      exact Nat.le_succ _
    have hlast : ([x].filter fun y => y.row.executionId = x.row.executionId).foldr
        (fun y n => max y.row.sequence n) 0 = x.row.sequence := by simp
    rw [hlast]
    simp only [decide_true, List.filter_cons_of_pos, List.filter_nil, List.length_singleton]
    exact (max_eq_right hmax).trans hx
  · simp [maxSequence, he]

end TenantDb

/-- The tables whose rows are never deleted, and whose owners the statements rely on. -/
def TableName.lasting : TableName → Bool
  | .executions | .workItems => true
  | _ => false

/-- The tables with a conflict clause over a key that leaves the tenant out. -/
def TableName.sharedKey : TableName → Bool
  | .snapshots | .deadLetters | .approvals | .checkpoints => true
  | _ => false

/-- What tenant `A` may notice of a step of tenant `B`: nothing of its own rows, unless a conflict
clause hit one of them; no tokens other than a new one; and the numbers the events of `B` took. -/
structure Beside (A B : TenantId) (minted : Option String) (s s' : TenantSys) : Prop where
  overwritten : s.overwritten ⊆ s'.overwritten
  seen : ∀ n, n ≠ .tokens → (n.sharedKey = true → A ∉ s'.overwritten) →
    s'.db.owned A n = s.db.owned A n
  tokens : ∀ tokenHash, minted ≠ some tokenHash → ∀ now,
    (s'.db.tokenRow tokenHash now).map ApiToken.ofRow = (s.db.tokenRow tokenHash now).map ApiToken.ofRow
  events : ∃ added, (s'.db.table .events).rows = (s.db.table .events).rows ++ added ∧
    (∀ x ∈ added, x.tenantId = B) ∧ ∀ e, s'.db.maxSequence e = s.db.maxSequence e +
      (added.filter fun x => x.row.executionId = e).length
  lasting : ∀ n : TableName, n.lasting = true → ∀ k x, (s.db.table n).find? k = some x →
    ∃ x', (s'.db.table n).find? k = some x' ∧ x'.tenantId = x.tenantId
  tenants : s'.db.tenants = s.db.tenants

def beside (A B : TenantId) (minted : Option String) : Statement.Kept TenantSys where
  rel := Beside A B minted
  refl s :=
    { overwritten := List.Subset.refl _
      seen := fun _ _ _ => rfl
      tokens := fun _ _ _ => rfl
      events := ⟨[], by simp, by simp, by simp⟩
      lasting := fun _ _ _ x hx => ⟨x, hx, rfl⟩
      tenants := rfl }
  trans := by
    intro s t u hst htu
    obtain ⟨added, hrows, howner, hmax⟩ := hst.events
    obtain ⟨added', hrows', howner', hmax'⟩ := htu.events
    refine
      { overwritten := List.Subset.trans hst.overwritten htu.overwritten
        seen := fun n hn hA => ?_
        tokens := fun h hm now => (htu.tokens h hm now).trans (hst.tokens h hm now)
        events := ⟨added ++ added', ?_, ?_, fun e => ?_⟩
        lasting := fun n hn k x hx => ?_
        tenants := htu.tenants.trans hst.tenants }
    · exact (htu.seen n hn hA).trans
        (hst.seen n hn fun hshared h => hA hshared (htu.overwritten h))
    · rw [hrows', hrows, List.append_assoc]
    · intro x hx
      rcases List.mem_append.mp hx with hx | hx
      · exact howner x hx
      · exact howner' x hx
    · rw [hmax', hmax, List.filter_append, List.length_append, Nat.add_assoc]
    · obtain ⟨y, hy, hown⟩ := hst.lasting n hn k x hx
      obtain ⟨z, hz, hown'⟩ := htu.lasting n hn k y hy
      exact ⟨z, hz, hown'.trans hown⟩

theorem Beside.of_setTable {A B : TenantId} {minted : Option String} {s s' : TenantSys}
    {n : TableName} {t : Table n.Key (Owned n.Row) n.key} (hdb : s'.db = s.db.setTable n t)
    (hevents : n ≠ .events) (htokens : n ≠ .tokens) (hover : s.overwritten ⊆ s'.overwritten)
    (hseen : (n.sharedKey = true → A ∉ s'.overwritten) →
      ofTenant A t.rows = ofTenant A (s.db.table n).rows)
    (hlasting : n.lasting = true → ∀ k x, (s.db.table n).find? k = some x →
      ∃ x', t.find? k = some x' ∧ x'.tenantId = x.tenantId) : Beside A B minted s s' where
  overwritten := hover
  seen m hm hA := by
    rw [hdb]
    by_cases hmn : m = n
    · subst hmn
      rw [TenantDb.owned_eq, TenantDb.setTable_self]
      exact hseen hA
    · rw [TenantDb.owned_eq, TenantDb.setTable_of_ne hmn, TenantDb.owned_eq]
  tokens h _ now := by
    simp only [TenantDb.tokenRow, hdb, TenantDb.setTable_of_ne htokens.symm]
  events := by
    refine ⟨[], ?_, by simp, fun e => ?_⟩
    · rw [hdb, TenantDb.setTable_of_ne hevents.symm, List.append_nil]
    · simp only [TenantDb.maxSequence, hdb, TenantDb.setTable_of_ne hevents.symm]
      simp
  lasting m hm k x hx := by
    rw [hdb]
    by_cases hmn : m = n
    · subst hmn
      rw [TenantDb.setTable_self]
      exact hlasting hm k x hx
    · rw [TenantDb.setTable_of_ne hmn]
      exact ⟨x, hx, rfl⟩
  tenants := by
    rw [hdb]
    rfl

section Statements

open Statement

variable {A B : TenantId} {minted : Option String} {P : TenantSys → Prop} {n : TableName}

theorem within_select {α : Type} (f : TenantDb → α) : (Sql.select f).Within (beside A B minted) P :=
  .read _

theorem lasting_of_insert? {t t' : Table n.Key (Owned n.Row) n.key} {x : Owned n.Row}
    (h : t.insert? x = some t') (k : n.Key) (y : Owned n.Row) (hy : t.find? k = some y) :
    ∃ y', t'.find? k = some y' ∧ y'.tenantId = y.tenantId := by
  obtain ⟨hfree, -⟩ := Table.rows_of_insert? h
  have hne : n.key x ≠ k := by
    rintro rfl
    rw [hfree] at hy
    cases hy
  exact ⟨y, by rw [Table.find?_of_insert? h, if_neg hne, hy], rfl⟩

theorem within_insert (hne : A ≠ B) (hevents : n ≠ .events) (htokens : n ≠ .tokens) (r : n.Row) :
    (Sql.insert n ⟨B, r⟩).Within (beside A B minted) P := by
  intro s _
  unfold Sql.insert
  split
  · exact (beside A B minted).refl s
  · rename_i t ht
    split
    · exact (beside A B minted).refl s
    split
    · refine Beside.of_setTable rfl hevents htokens (List.Subset.refl _) (fun _ => ?_)
        fun _ => lasting_of_insert? ht
      rw [(Table.rows_of_insert? ht).2]
      exact ofTenant_append_of_ne (Ne.symm hne)
    · exact (beside A B minted).refl s

theorem within_insertOrIgnore (hne : A ≠ B) (hevents : n ≠ .events) (htokens : n ≠ .tokens)
    (r : n.Row) : (Sql.insertOrIgnore n ⟨B, r⟩).Within (beside A B minted) P := by
  intro s hs
  have hinsert : (beside A B minted).rel s (Sql.insert n ⟨B, r⟩ s).2 :=
    within_insert (P := P) hne hevents htokens r s hs
  unfold Sql.insertOrIgnore
  split
  · split
    · rename_i heq
      rwa [heq] at hinsert
    · rename_i heq
      rwa [heq] at hinsert
  · exact (beside A B minted).refl s

theorem within_insertOrReplace (hne : A ≠ B) (hevents : n ≠ .events) (htokens : n ≠ .tokens)
    (hlasting : n.lasting = false) (hshared : n.sharedKey = true) (r : n.Row) :
    (Sql.insertOrReplace n ⟨B, r⟩).Within (beside A B minted) P := by
  intro s _
  unfold Sql.insertOrReplace
  split
  · refine Beside.of_setTable rfl hevents htokens (List.subset_append_left _ _) (fun hA => ?_)
      fun h => by simp [hlasting] at h
    have hfree : ∀ x ∈ s.db.conflicts n ⟨B, r⟩, x.tenantId ≠ A := by
      intro x hx hxA
      exact hA hshared (List.mem_append_right _ (List.mem_map.mpr ⟨x, hx, hxA⟩))
    change ofTenant A (List.filter _ (List.filter _ _) ++ [_]) = _
    rw [ofTenant_append_of_ne (Ne.symm hne), List.filter_filter]
    refine ofTenant_filter fun x hx hxA => ?_
    by_contra hnot
    refine hfree x (List.mem_filter.mpr ⟨hx, ?_⟩) hxA
    by_cases hkey : n.key x = n.key ⟨B, r⟩ <;> simp_all
  · exact (beside A B minted).refl s

theorem Beside.of_update {s s' : TenantSys} {k : n.Key} {guard : Owned n.Row → Bool}
    {set : n.Row → n.Row} {hset : ∀ y : Owned n.Row, n.key (y.map set) = n.key y}
    (hdb : s'.db = s.db.setTable n ((s.db.table n).update k guard (Owned.map set) hset))
    (hevents : n ≠ .events) (htokens : n ≠ .tokens) (hover : s.overwritten ⊆ s'.overwritten)
    (howner : (n.sharedKey = true → A ∉ s'.overwritten) →
      ∀ x, (s.db.table n).find? k = some x → guard x = true → x.tenantId ≠ A) : Beside A B minted s s' := by
  refine Beside.of_setTable hdb hevents htokens hover (fun hA => ?_) fun _ k' x hx => ?_
  · refine ofTenant_map (fun x _ => ?_) fun x hx hxA => ?_
    · split
      · rfl
      · rfl
    · refine if_neg fun hhit => ?_
      obtain ⟨rfl, hguard⟩ := hhit
      exact howner hA x (Table.find?_of_mem hx) hguard hxA
  · rw [Table.find?_update, hx]
    refine ⟨_, rfl, ?_⟩
    dsimp only
    split
    · rfl
    · rfl

theorem within_upsert (hne : A ≠ B) (hevents : n ≠ .events) (htokens : n ≠ .tokens) (r : n.Row)
    (guard : n.Row → Bool) (set : n.Row → n.Row)
    (hset : ∀ y : Owned n.Row, n.key (y.map set) = n.key y)
    (hown : n.sharedKey = false → ∀ y : Owned n.Row, n.key y = n.key ⟨B, r⟩ → y.tenantId = B) :
    (Sql.upsert n ⟨B, r⟩ guard set hset).Within (beside A B minted) P := by
  intro s hs
  have hinsert : (beside A B minted).rel s (Sql.insert n ⟨B, r⟩ s).2 :=
    within_insert (P := P) hne hevents htokens r s hs
  unfold Sql.upsert
  split
  · rename_i y hy
    split
    · refine Beside.of_update rfl hevents htokens (List.subset_append_left _ _) fun hA x hx _ => ?_
      cases hy.symm.trans hx
      cases hshared : n.sharedKey with
      | false =>
        intro hyA
        exact hne (hyA.symm.trans (hown hshared y (Table.key_of_find? hy)))
      | true => exact fun hyA => hA hshared (List.mem_append_right _ (by simp [hyA]))
    · exact (beside A B minted).refl s
  · split
    · rename_i heq
      rwa [heq] at hinsert
    · rename_i heq
      rwa [heq] at hinsert

theorem within_update (hne : A ≠ B) (hevents : n ≠ .events) (htokens : n ≠ .tokens) (k : n.Key)
    (guard : n.Row → Bool) (set : n.Row → n.Row)
    (hset : ∀ y : Owned n.Row, n.key (y.map set) = n.key y) :
    (Sql.update n B k guard set hset).Within (beside A B minted) P := by
  intro s _
  refine Beside.of_update rfl hevents htokens (List.Subset.refl _) fun _ x _ hguard hxA => ?_
  simp only [Bool.and_eq_true, decide_eq_true_eq] at hguard
  exact hne (hxA.symm.trans hguard.1)

theorem within_delete (hne : A ≠ B) (hevents : n ≠ .events) (htokens : n ≠ .tokens)
    (hlasting : n.lasting = false) (k : n.Key) (guard : n.Row → Bool) :
    (Sql.delete n B k guard).Within (beside A B minted) P := by
  intro s _
  refine Beside.of_setTable rfl hevents htokens (List.Subset.refl _) (fun _ => ?_)
    fun h => by simp [hlasting] at h
  refine ofTenant_filter fun x _ hxA => ?_
  simp [hxA, hne]

theorem tokenRow_congr {db db' : TenantDb} {g : Owned ApiTokenRow → Owned ApiTokenRow}
    (hrows : (db'.table .tokens).rows = (db.table .tokens).rows.map g)
    (hg : ∀ x, ApiToken.ofRow (g x) = ApiToken.ofRow x ∧ (g x).row.tokenHash = x.row.tokenHash ∧
      (g x).row.revokedAt = x.row.revokedAt ∧ (g x).row.expiresAt = x.row.expiresAt)
    (tokenHash : String) (now : Instant) :
    (db'.tokenRow tokenHash now).map ApiToken.ofRow = (db.tokenRow tokenHash now).map ApiToken.ofRow := by
  rw [TenantDb.tokenRow, TenantDb.tokenRow, hrows, List.find?_map, Option.map_map]
  congr 1
  · funext x
    exact (hg x).1
  · congr 1
    funext x
    obtain ⟨-, hhash, hrevoked, hexpires⟩ := hg x
    simp [hhash, hrevoked, hexpires]

theorem Beside.of_tokens {s s' : TenantSys} {t : Table TableName.tokens.Key
    (Owned TableName.tokens.Row) TableName.tokens.key} (hs : s' = { s with db := s.db.setTable .tokens t })
    (htokens : ∀ tokenHash, minted ≠ some tokenHash → ∀ now,
      (s'.db.tokenRow tokenHash now).map ApiToken.ofRow =
        (s.db.tokenRow tokenHash now).map ApiToken.ofRow) : Beside A B minted s s' := by
  have hsame : ∀ n, n ≠ .tokens → s'.db.table n = s.db.table n := by
    intro n hn
    rw [hs]
    exact TenantDb.setTable_of_ne hn
  refine
    { overwritten := by rw [hs]; exact List.Subset.refl _
      seen := fun n hn _ => by rw [TenantDb.owned_eq, hsame n hn, TenantDb.owned_eq]
      tokens := htokens
      events := ⟨[], by rw [hsame _ (by decide), List.append_nil], by simp, fun e => ?_⟩
      lasting := fun n hn k x hx => ⟨x, by rw [hsame n (by rintro rfl; cases hn), hx], rfl⟩
      tenants := by rw [hs]; rfl }
  simp [TenantDb.maxSequence, hsame .events (by decide)]

theorem within_validateToken (sha256Hex : String → String) (token : String) (now : Instant) :
    (Scoped.validateToken sha256Hex token now).Within (beside A B minted) P := by
  refine .read_bind fun s _ => ?_
  dsimp only
  cases s.db.tokenRow (sha256Hex token) now with
  | none => exact (beside A B minted).refl s
  | some x =>
    refine Beside.of_tokens (t := (s.db.table .tokens).update x.row.id (fun _ => true)
      (Owned.map fun r => { r with lastUsedAt := some now }) fun _ => rfl) rfl fun h _ now' => ?_
    refine tokenRow_congr (g := fun y => if y.row.id = x.row.id then
      y.map fun r => { r with lastUsedAt := some now } else y) ?_ (fun y => ?_) h now'
    · change ((s.db.setTable .tokens _).table .tokens).rows = _
      rw [TenantDb.setTable_self]
      simp [Table.update, TableName.key]
    · split <;> exact ⟨rfl, rfl, rfl, rfl⟩

theorem within_createToken (sha256Hex : String → String) (token : String) (id : ℕ)
    (name role : String) (now : Instant) (hminted : minted = some (sha256Hex token)) :
    (Scoped.createToken B sha256Hex token id name role now).Within (beside A B minted) P := by
  refine .map fun s _ => ?_
  unfold Sql.insert
  split
  · exact (beside A B minted).refl s
  · rename_i t ht
    split
    · exact (beside A B minted).refl s
    split
    · refine Beside.of_tokens (t := t) rfl fun h hne now' => ?_
      have hother : sha256Hex token ≠ h := fun heq => hne (hminted.trans (congrArg some heq))
      change (((s.db.setTable .tokens t).table .tokens).rows.find? _).map _ = _
      rw [TenantDb.setTable_self, (Table.rows_of_insert? ht).2, List.find?_append]
      simp [TenantDb.tokenRow, hother]
    · exact (beside A B minted).refl s

theorem within_insertEvent (hne : A ≠ B) (event : NewEvent) :
    (Scoped.insertEvent B event).Within (beside A B minted) P := by
  refine .read_bind fun s _ => ?_
  dsimp only
  refine Within.map_at (m := Sql.insert .events _) ?_
  generalize hx : (⟨B, ⟨event.id, event.executionId, s.db.maxSequence event.executionId + 1,
    event.kind, event.createdAt⟩⟩ : Owned EventRow) = x
  unfold Sql.insert
  split
  · exact (beside A B minted).refl s
  · rename_i t ht
    split
    · exact (beside A B minted).refl s
    split
    · have hsame : ∀ n, n ≠ .events → (s.db.setTable .events t).table n = s.db.table n :=
        fun n hn => TenantDb.setTable_of_ne hn
      have hrows := (Table.rows_of_insert? ht).2
      refine
        { overwritten := List.Subset.refl _
          seen := fun n hn _ => ?_
          tokens := fun h _ now => ?_
          events := ⟨[x], ?_, ?_, fun e => ?_⟩
          lasting := fun n hn k y hy => ?_
          tenants := rfl }
      · by_cases hev : n = .events
        · subst hev
          rw [TenantDb.owned_eq, TenantDb.setTable_self, hrows, TenantDb.owned_eq]
          refine ofTenant_append_of_ne ?_
          rw [← hx]
          exact Ne.symm hne
        · rw [TenantDb.owned_eq, hsame n hev, TenantDb.owned_eq]
      · simp only [TenantDb.tokenRow, hsame .tokens (by decide)]
      · rw [TenantDb.setTable_self, hrows]
      · intro y hy
        rw [List.mem_singleton.mp hy, ← hx]
      · exact TenantDb.maxSequence_append (by rw [TenantDb.setTable_self, hrows]) (by rw [← hx]) e
      · exact ⟨y, by rw [hsame n (by rintro rfl; cases hn), hy], rfl⟩
    · exact (beside A B minted).refl s

end Statements

section Operations

open Statement

variable {A B : TenantId} {minted : Option String} {P : TenantSys → Prop}

theorem within_appendEvent (hne : A ≠ B) (event : NewEvent) :
    (Scoped.appendEvent B event).Within (beside A B minted) P :=
  .atomically (within_insertEvent hne event)

theorem within_appendEventIf (hne : A ≠ B) (event : NewEvent) (condition : List Event → Bool) :
    (Scoped.appendEventIf B event condition).Within (beside A B minted) fun _ => True := by
  refine .atomically (.bind Kept.stable_true (within_select _) fun found => ?_)
  cases found with
  | none => exact .fail _
  | some x =>
    refine .ite (.pure _) (.bind Kept.stable_true (within_select _) fun log => ?_)
    exact .ite (.map (within_insertEvent hne event)) (.pure _)

theorem within_finishExecution (hne : A ≠ B) (event : NewEvent) (status : WorkflowStatus)
    (now : Instant) :
    (Scoped.finishExecution B event status now).Within (beside A B minted) fun _ => True := by
  refine .ite (.fail _) (.atomically (.bind Kept.stable_true (within_select _) fun found => ?_))
  cases found with
  | some prior => exact .pure _
  | none =>
    refine .bind Kept.stable_true (within_update hne (by decide) (by decide) _ _ _ _) fun hit => ?_
    exact .ite (.map (within_insertEvent hne event)) (.fail _)

theorem within_storeWorkflow [FloatText] (hne : A ≠ B) (sha256Hex : String → String)
    (definition : WorkflowDefinition) :
    (Scoped.storeWorkflow B sha256Hex definition).Within (beside A B minted) fun _ => True := by
  refine .bind Kept.stable_true
    (within_insertOrIgnore hne (by decide) (by decide) _) fun inserted => ?_
  refine .ite (.pure _) (.bind Kept.stable_true (within_select _) fun stored => ?_)
  cases stored with
  | none => exact .fail _
  | some stored => exact .ite (.pure _) (.fail _)

theorem within_updateExecutionStatus (hne : A ≠ B) (e : ExecutionId) (status : WorkflowStatus)
    (now : Instant) :
    (Scoped.updateExecutionStatus B e status now).Within (beside A B minted) fun _ => True :=
  .bind Kept.stable_true (within_update hne (by decide) (by decide) _ _ _ _)
    fun _ => .ite (.pure _) (.fail _)

theorem within_updateExecutionCurrentState (hne : A ≠ B) (e : ExecutionId) (state : Json)
    (now : Instant) :
    (Scoped.updateExecutionCurrentState B e state now).Within (beside A B minted) P :=
  .map (within_update hne (by decide) (by decide) _ _ _ _)

theorem within_patchAppendArray (hne : A ≠ B) (e : ExecutionId) (key : String) (value : Json)
    (now : Instant) :
    (Scoped.patchAppendArray B e key value now).Within (beside A B minted) fun _ => True := by
  refine .bind Kept.stable_true (within_select _) fun found => ?_
  cases found with
  | none => exact .fail _
  | some x =>
    dsimp only
    split
    · split
      · exact within_updateExecutionCurrentState hne _ _ _
      · exact .fail _
    · exact .fail _

theorem within_writeSnapshot (hne : A ≠ B) (snapshot : SnapshotRecord) :
    (Scoped.writeSnapshot B snapshot).Within (beside A B minted) P :=
  within_insertOrReplace hne (by decide) (by decide) (by decide) (by decide) _

theorem within_createRun (hne : A ≠ B) (execution : WorkflowExecution)
    (seedSnapshot : Option SnapshotRecord) (startedEvent scheduledEvent : EventKind)
    (eventIds : ℕ × ℕ) (itemId : WorkItemId) (workItem : NewWorkItem) (now : Instant) :
    (Scoped.createRun B execution seedSnapshot startedEvent scheduledEvent eventIds itemId workItem
      now).Within (beside A B minted) fun _ => True := by
  have hseed : (Scoped.writeSeed B execution.executionId seedSnapshot).Within (beside A B minted)
      fun _ => True := by
    cases seedSnapshot with
    | none => exact .pure _
    | some snapshot => exact within_writeSnapshot hne _
  refine .atomically (.bind Kept.stable_true (within_insert hne (by decide) (by decide) _) fun _ => ?_)
  refine .bind Kept.stable_true hseed fun _ => ?_
  refine .bind Kept.stable_true (within_insertEvent hne _) fun _ => ?_
  refine .bind Kept.stable_true (within_insertEvent hne _) fun _ => ?_
  exact within_insert hne (by decide) (by decide) _

theorem within_releaseToolReservation (hne : A ≠ B) (key : String) (owner : WorkerId) (fence : ℤ) :
    (Scoped.releaseToolReservation B key owner fence).Within (beside A B minted) P :=
  within_delete hne (by decide) (by decide) (by decide) _ _

theorem within_reserveToolEffect (hne : A ≠ B) (key : String) (e : ExecutionId) (node : NodeId)
    (owner : WorkerId) (fence : ℤ) (ttl : ℕ) (now : Instant) :
    (Scoped.reserveToolEffect B key e node owner fence ttl now).Within (beside A B minted)
      fun _ => True := by
  have hown : TableName.toolReservations.sharedKey = false →
      ∀ y : Owned ToolReservationRow, (y.tenantId, y.row.idempotencyKey) = (B, key) →
        y.tenantId = B := fun _ y hy => congrArg Prod.fst hy
  refine .bind Kept.stable_true (within_upsert hne (by decide) (by decide) _ _ _ _ hown) fun acquired => ?_
  refine .ite (.pure _) (.bind Kept.stable_true (within_select _) fun held => ?_)
  cases held with
  | none => exact .pure _
  | some r => exact .pure _

theorem within_putArtifact (hne : A ≠ B) (sha256Hex : String → String) (bytes : String)
    (mediaType : Option String) (now : Instant) :
    (Scoped.putArtifact B sha256Hex bytes mediaType now).Within (beside A B minted)
      fun _ => True := by
  refine .bind Kept.stable_true (within_insertOrIgnore hne (by decide) (by decide) _) fun _ => ?_
  refine .bind Kept.stable_true (within_select _) fun stored => ?_
  cases stored with
  | none => exact .fail _
  | some r => exact .pure _

theorem within_enqueueWorkItem (hne : A ≠ B) (id : WorkItemId) (item : NewWorkItem)
    (createdAt : Instant) :
    (Scoped.enqueueWorkItem B id item createdAt).Within (beside A B minted) P :=
  .map (within_insert hne (by decide) (by decide) _)

/-! Work items that an update names by their id alone: the tenant was checked when they were read. -/

/-- The items are there and belong to the tenant. -/
def HeldBy (B : TenantId) (items : List WorkItemRow) (s : TenantSys) : Prop :=
  ∀ item ∈ items, ∃ x, (s.db.table .workItems).find? item.id = some x ∧ x.tenantId = B

theorem heldBy_stable {items : List WorkItemRow} :
    (beside A B minted).Stable (HeldBy B items) := by
  intro s t hs hst item hitem
  obtain ⟨x, hx, howner⟩ := hs item hitem
  obtain ⟨y, hy, hsame⟩ := hst.lasting .workItems rfl item.id x hx
  exact ⟨y, hy, hsame.trans howner⟩

theorem heldBy_of_owned {s : TenantSys} {items : List WorkItemRow}
    (h : ∀ item ∈ items, item ∈ s.db.owned B .workItems) : HeldBy B items s :=
  fun item hitem => ⟨⟨B, item⟩, TenantDb.find?_of_mem_owned (h item hitem), rfl⟩

theorem within_updateAny_workItem (hne : A ≠ B) {items : List WorkItemRow} {item : WorkItemRow}
    (hitem : item ∈ items) (guard : Owned WorkItemRow → Bool) (set : WorkItemRow → WorkItemRow)
    (hset : ∀ y : Owned WorkItemRow, TableName.workItems.key (y.map set) = TableName.workItems.key y) :
    (Sql.updateAny .workItems item.id guard set hset).Within (beside A B minted) (HeldBy B items) := by
  intro s hs
  obtain ⟨x, hx, howner⟩ := hs item hitem
  refine Beside.of_update rfl (by decide) (by decide) (List.Subset.refl _) fun _ y hy _ hyA => ?_
  cases hx.symm.trans hy
  exact hne (hyA.symm.trans howner)

theorem within_expireOne (hne : A ≠ B) (eventIds : WorkItemId → ℕ × ℕ) (now : Instant)
    {items : List WorkItemRow} {item : WorkItemRow} (hitem : item ∈ items) :
    (Scoped.expireOne B eventIds now item).Within (beside A B minted) (HeldBy B items) := by
  refine .bind heldBy_stable (within_select _) fun execution => ?_
  refine .ite (.map (within_updateAny_workItem hne hitem _ _ _)) (.ite (.pure _) ?_)
  refine .bind heldBy_stable (within_updateAny_workItem hne hitem _ _ _) fun requeued => ?_
  refine .ite (.bind heldBy_stable (within_insertEvent hne _) fun _ => ?_) (.pure _)
  exact .map (within_insertEvent hne _)

theorem within_expireStaleLeases (hne : A ≠ B) (eventIds : WorkItemId → ℕ × ℕ) (now : Instant) :
    (Scoped.expireStaleLeases B eventIds now).Within (beside A B minted) fun _ => True := by
  refine .atomically (.read_bind fun s _ => ?_)
  have hheld : HeldBy B ((s.db.owned B .workItems).filter (WorkItemRow.leaseExpired now)) s :=
    heldBy_of_owned fun item hitem => (List.mem_filter.mp hitem).1
  exact Within.forEach heldBy_stable
    (fun item hitem => within_expireOne hne eventIds now hitem) s hheld

theorem within_claimWorkItemWithLease (hne : A ≠ B) (worker : WorkerId) (queueTypes : List String)
    (leaseSecs : Option ℕ) (eventIds : WorkItemId → ℕ × ℕ) (now : Instant) :
    (Scoped.claimWorkItemWithLease B worker queueTypes leaseSecs eventIds now).Within
      (beside A B minted) fun _ => True := by
  refine .ite (.pure _) (.bind Kept.stable_true (within_expireStaleLeases hne eventIds now)
    fun _ => .atomically (.bind Kept.stable_true (within_select _) fun term => ?_))
  refine .read_bind fun s _ => ?_
  dsimp only
  cases hitem : Db.oldest ((s.db.owned B .workItems).filter (Db.claimable queueTypes now)) with
  | none => exact (beside A B minted).refl s
  | some item =>
    have hheld : HeldBy B [item] s := heldBy_of_owned fun y hy => by
      rw [List.mem_singleton.mp hy]
      exact (List.mem_filter.mp (mem_oldest hitem)).1
    exact Within.map (within_updateAny_workItem hne (List.mem_singleton_self item) _ _ _) s hheld

theorem within_renewHeldLease (hne : A ≠ B) (id : WorkItemId) (worker : WorkerId) (fence : ℤ)
    (now : Instant) :
    (Scoped.renewHeldLease B id worker fence now).Within (beside A B minted) fun _ => True :=
  .bind Kept.stable_true (within_select _)
    fun _ => within_update hne (by decide) (by decide) _ _ _ _

theorem within_renewLease (hne : A ≠ B) (id : WorkItemId) (worker : WorkerId) (fence : ℤ)
    (now : Instant) :
    (Scoped.renewLease B id worker fence now).Within (beside A B minted) fun _ => True :=
  .bind Kept.stable_true (within_renewHeldLease hne id worker fence now)
    fun _ => .ite (.pure _) (.fail _)

theorem within_reattachLease (hne : A ≠ B) (id : WorkItemId) (worker : WorkerId) (fence : ℤ)
    (now : Instant) :
    (Scoped.reattachLease B id worker fence now).Within (beside A B minted) fun _ => True := by
  refine .atomically (.bind Kept.stable_true (within_select _) fun term => ?_)
  refine .bind Kept.stable_true (within_select _) fun found => ?_
  cases found with
  | none => exact .fail _
  | some r =>
    exact .bind Kept.stable_true (within_update hne (by decide) (by decide) _ _ _ _)
      fun _ => .ite (.pure _) (.fail _)

theorem within_heartbeatLease (hne : A ≠ B) (id : WorkItemId) (worker : WorkerId) (fence : ℤ)
    (now : Instant) :
    (Scoped.heartbeatLease B id worker fence now).Within (beside A B minted) fun _ => True :=
  .bind Kept.stable_true (within_renewHeldLease hne id worker fence now)
    fun _ => .ite (.pure _) (within_reattachLease hne id worker fence now)

theorem within_completeWorkItem (hne : A ≠ B) (id : WorkItemId) (now : Instant) :
    (Scoped.completeWorkItem B id now).Within (beside A B minted) fun _ => True :=
  .bind Kept.stable_true (within_update hne (by decide) (by decide) _ _ _ _)
    fun _ => .ite (.pure _) (.fail _)

theorem within_failWorkItem (hne : A ≠ B) (id : WorkItemId) :
    (Scoped.failWorkItem B id).Within (beside A B minted) fun _ => True :=
  .bind Kept.stable_true (within_update hne (by decide) (by decide) _ _ _ _)
    fun _ => .ite (.pure _) (.fail _)

theorem within_failWorkItemFenced (hne : A ≠ B) (id : WorkItemId) (fence : ℤ) (error : String)
    (now : Instant) :
    (Scoped.failWorkItemFenced B id fence error now).Within (beside A B minted) fun _ => True := by
  refine .atomically (.bind Kept.stable_true (within_select _) fun found => ?_)
  cases found with
  | none => exact .pure _
  | some item =>
    refine .ite ?_ ?_
    · refine .bind Kept.stable_true (within_update hne (by decide) (by decide) _ _ _ _) fun _ => ?_
      exact .ite (.map (within_insertOrIgnore hne (by decide) (by decide) _)) (.pure _)
    · exact .bind Kept.stable_true (within_update hne (by decide) (by decide) _ _ _ _)
        fun _ => .ite (.pure _) (.pure _)

theorem within_withdrawWorkItemFenced (hne : A ≠ B) (id : WorkItemId) (fence : ℤ) :
    (Scoped.withdrawWorkItemFenced B id fence).Within (beside A B minted) P :=
  within_update hne (by decide) (by decide) _ _ _ _

theorem within_finalizeRolloverFenced (hne : A ≠ B) (e : ExecutionId) (id : WorkItemId) (fence : ℤ)
    (now : Instant) :
    (Scoped.finalizeRolloverFenced B e id fence now).Within (beside A B minted) fun _ => True := by
  refine .atomically (.bind Kept.stable_true
    (within_update hne (by decide) (by decide) _ _ _ _) fun settled => ?_)
  exact .ite (.map (within_update hne (by decide) (by decide) _ _ _ _)) (.pure _)

theorem within_reclaimRow (hne : A ≠ B) (now : Instant) (item : WorkItemRow) :
    (Scoped.reclaimRow B now item).Within (beside A B minted) fun _ => True := by
  refine .ite ?_ ?_
  · refine .bind Kept.stable_true (within_update hne (by decide) (by decide) _ _ _ _) fun _ => ?_
    exact .ite (.map (within_insertOrIgnore hne (by decide) (by decide) _)) (.pure _)
  · exact .bind Kept.stable_true (within_update hne (by decide) (by decide) _ _ _ _)
      fun _ => .ite (.pure _) (.pure _)

theorem within_reclaimExpiredLeases (hne : A ≠ B) (now : Instant) :
    (Scoped.reclaimExpiredLeases B now).Within (beside A B minted) fun _ => True := by
  refine .bind Kept.stable_true (within_select _) fun rows => ?_
  exact .map (.collect Kept.stable_true fun item _ => within_reclaimRow hne now item)

theorem within_moveToDeadLetter (hne : A ≠ B) (id : WorkItemId) (lastError : String)
    (now : Instant) :
    (Scoped.moveToDeadLetter B id lastError now).Within (beside A B minted) fun _ => True := by
  refine .bind Kept.stable_true (within_select _) fun found => ?_
  cases found with
  | none => exact .fail _
  | some item =>
    refine .bind Kept.stable_true
      (within_insertOrReplace hne (by decide) (by decide) (by decide) (by decide) _) fun _ => ?_
    exact .map (within_update hne (by decide) (by decide) _ _ _ _)

theorem within_writeTurnSnapshot (hne : A ≠ B) (e : ExecutionId) (now : Instant)
    (snapshot : Option ℕ) :
    (Scoped.writeTurnSnapshot B e now snapshot).Within (beside A B minted) fun _ => True := by
  cases snapshot with
  | none => exact .pure _
  | some snapshotId =>
    refine .bind Kept.stable_true (within_select _) fun base => ?_
    cases base with
    | none => exact .fail _
    | some base =>
      exact .bind Kept.stable_true (within_select _)
        fun tail => within_insertOrReplace hne (by decide) (by decide) (by decide) (by decide) _

theorem within_recordToolEffect (hne : A ≠ B) (event : NewEvent) (now : Instant) :
    (Scoped.recordToolEffect B event now).Within (beside A B minted) P := by
  unfold Scoped.recordToolEffect
  split
  · exact .map (within_insertOrIgnore hne (by decide) (by decide) _)
  · exact .pure _

theorem within_commitTurnInner (hne : A ≠ B) (id : WorkItemId) (fence : ℤ) (event : NewEvent)
    (snapshot : Option ℕ) (refuseTerminal : Bool) (now : Instant) :
    (Scoped.commitTurnInner B id fence event snapshot refuseTerminal now).Within
      (beside A B minted) fun _ => True := by
  unfold Scoped.commitTurnInner
  split
  · exact .fail _
  refine .atomically (.bind Kept.stable_true (within_select _) fun terminal => ?_)
  cases terminal with
  | some status =>
    exact .bind Kept.stable_true (within_withdrawWorkItemFenced hne id fence)
      fun _ => .ite (.pure _) (.fail _)
  | none =>
    refine .bind Kept.stable_true (within_update hne (by decide) (by decide) _ _ _ _) fun _ => ?_
    refine .ite (.bind Kept.stable_true (within_insertEvent hne _) fun sequence => ?_) (.fail _)
    refine .bind Kept.stable_true (within_recordToolEffect hne event now) fun _ => ?_
    exact .map (within_writeTurnSnapshot hne _ now snapshot)

theorem within_commitTurn (hne : A ≠ B) (id : WorkItemId) (fence : ℤ) (event : NewEvent)
    (snapshot : Option ℕ) (now : Instant) :
    (Scoped.commitTurn B id fence event snapshot now).Within (beside A B minted) fun _ => True := by
  refine .bind Kept.stable_true
    (within_commitTurnInner hne id fence event snapshot false now) fun outcome => ?_
  cases outcome with
  | committed sequence => exact .pure _
  | executionTerminal status => exact .fail _

theorem within_upsertApproval (hne : A ≠ B) (row : ApprovalProjectionRow) :
    (Scoped.upsertApproval B row).Within (beside A B minted) P :=
  .map (within_upsert hne (by decide) (by decide) _ _ _ _ nofun)

theorem within_setProjectorCheckpoint (hne : A ≠ B) (projectionName : String) (e : ExecutionId)
    (newCheckpoint : EventSequence) (now : Instant) :
    (Scoped.setProjectorCheckpoint B projectionName e newCheckpoint now).Within
      (beside A B minted) P :=
  .map (within_upsert hne (by decide) (by decide) _ _ _ _ nofun)

theorem within_applyApprovalProjectionBatch (hne : A ≠ B) (rows : List ApprovalProjectionRow)
    (projectionName : String) (e : ExecutionId) (newCheckpoint : EventSequence) (now : Instant) :
    (Scoped.applyApprovalProjectionBatch B rows projectionName e newCheckpoint now).Within
      (beside A B minted) fun _ => True := by
  refine .atomically (.bind Kept.stable_true
    (.forEach Kept.stable_true fun row _ => within_upsertApproval hne _) fun _ => ?_)
  exact within_setProjectorCheckpoint hne projectionName e newCheckpoint now

theorem within_applyApprovalProjection (hne : A ≠ B) (row : ApprovalProjectionRow)
    (projectionName : String) (newCheckpoint : EventSequence) (now : Instant) :
    (Scoped.applyApprovalProjection B row projectionName newCheckpoint now).Within
      (beside A B minted) fun _ => True := by
  refine .atomically (.bind Kept.stable_true (within_upsertApproval hne row) fun _ => ?_)
  exact within_setProjectorCheckpoint hne projectionName row.executionId newCheckpoint now

end Operations

section Replies

open Statement

variable {A B : TenantId}

/-- The hash of the token an operation creates. -/
def ScopedOp.minted {β : Type} (sha256Hex : String → String) : ScopedOp β → Option String
  | .createToken token .. => some (sha256Hex token)
  | _ => none

/-- Whatever the operation, and whatever its arguments name. -/
theorem ScopedOp.within [FloatText] (hne : A ≠ B) (sha256Hex : String → String) {β : Type}
    (op : ScopedOp β) :
    (op.exec sha256Hex B).Within (beside A B (op.minted sha256Hex)) fun _ => True := by
  cases op with
  | read r => exact within_select _
  | storeWorkflow definition => exact within_storeWorkflow hne sha256Hex definition
  | createExecution execution => exact within_insert hne (by decide) (by decide) _
  | finishExecution event status now => exact within_finishExecution hne event status now
  | updateExecutionStatus e status now => exact within_updateExecutionStatus hne e status now
  | updateExecutionCurrentState e state now =>
    exact within_updateExecutionCurrentState hne e state now
  | patchAppendArray e key value now => exact within_patchAppendArray hne e key value now
  | appendEvent event => exact within_appendEvent hne event
  | appendEventIf event condition => exact within_appendEventIf hne event condition
  | writeSnapshot snapshot => exact within_writeSnapshot hne snapshot
  | createRun execution seedSnapshot startedEvent scheduledEvent eventIds itemId workItem now =>
    exact within_createRun hne execution seedSnapshot startedEvent scheduledEvent eventIds itemId
      workItem now
  | releaseToolReservation key owner fence => exact within_releaseToolReservation hne key owner fence
  | reserveToolEffect key e node owner fence ttl now =>
    exact within_reserveToolEffect hne key e node owner fence ttl now
  | putArtifact bytes mediaType now => exact within_putArtifact hne sha256Hex bytes mediaType now
  | enqueueWorkItem id item createdAt => exact within_enqueueWorkItem hne id item createdAt
  | claimWorkItemWithLease worker queueTypes leaseSecs eventIds now =>
    exact within_claimWorkItemWithLease hne worker queueTypes leaseSecs eventIds now
  | renewLease id worker fence now => exact within_renewLease hne id worker fence now
  | heartbeatLease id worker fence now => exact within_heartbeatLease hne id worker fence now
  | completeWorkItem id now => exact within_completeWorkItem hne id now
  | completeWorkItemFenced id fence now => exact within_update hne (by decide) (by decide) _ _ _ _
  | failWorkItem id => exact within_failWorkItem hne id
  | failWorkItemFenced id fence error now => exact within_failWorkItemFenced hne id fence error now
  | parkWorkItem id fence retryAfter nextAttempt =>
    exact within_update hne (by decide) (by decide) _ _ _ _
  | withdrawWorkItemFenced id fence => exact within_withdrawWorkItemFenced hne id fence
  | finalizeRolloverFenced e id fence now => exact within_finalizeRolloverFenced hne e id fence now
  | reclaimExpiredLeases now => exact within_reclaimExpiredLeases hne now
  | moveToDeadLetter id lastError now => exact within_moveToDeadLetter hne id lastError now
  | commitTurn id fence event snapshot now => exact within_commitTurn hne id fence event snapshot now
  | commitTurnUnlessTerminal id fence event snapshot now =>
    exact within_commitTurnInner hne id fence event snapshot true now
  | createToken token id name role now =>
    exact within_createToken sha256Hex token id name role now rfl
  | validateToken token now => exact within_validateToken sha256Hex token now
  | applyApprovalProjection row projectionName newCheckpoint now =>
    exact within_applyApprovalProjection hne row projectionName newCheckpoint now
  | applyApprovalProjectionBatch rows projectionName e newCheckpoint now =>
    exact within_applyApprovalProjectionBatch hne rows projectionName e newCheckpoint now
  | setProjectorCheckpoint projectionName e newCheckpoint now =>
    exact within_setProjectorCheckpoint hne projectionName e newCheckpoint now

/-- The table a read of the scoped backend looks at. -/
def ScopedRead.table {β : Type} : ScopedRead β → TableName
  | .getWorkflow .. => .workflows
  | .getExecution .. | .executionTenant .. | .listExecutions .. => .executions
  | .getEvents .. | .getEventsSince .. | .latestSequence .. | .countNodeCompletions .. => .events
  | .latestSnapshot .. => .snapshots
  | .getToolEffect .. => .toolEffects
  | .getArtifact .. => .artifacts
  | .getWorkItem .. => .workItems
  | .getApprovalProjection .. => .approvals
  | .getProjectorCheckpoint .. => .checkpoints

theorem ScopedRead.table_ne_tokens {β : Type} (r : ScopedRead β) : r.table ≠ .tokens := by
  cases r <;> simp [ScopedRead.table]

theorem ScopedRead.exec_congr {β : Type} (r : ScopedRead β) {tenant : TenantId} {db db' : TenantDb}
    (h : db'.owned tenant r.table = db.owned tenant r.table) :
    r.exec tenant db' = r.exec tenant db := by
  -- every read unfolds to a function of the rows of its table
  cases r <;> simp only [ScopedRead.table] at h <;>
    simp only [ScopedRead.exec, TenantDb.getWorkflow, TenantDb.executionTenant,
      TenantDb.getExecution, TenantDb.listExecutions, TenantDb.getEvents, TenantDb.getEventsSince,
      TenantDb.latestSequence, TenantDb.countNodeCompletions, TenantDb.latestSnapshot,
      TenantDb.getToolEffect, TenantDb.getArtifact, TenantDb.getWorkItem,
      TenantDb.getApprovalProjection, TenantDb.getProjectorCheckpoint, h]

theorem Scoped.validateToken_reply (sha256Hex : String → String) (token : String) (now : Instant)
    (s : TenantSys) : (Scoped.validateToken sha256Hex token now s).1 =
      .ok ((s.db.tokenRow (sha256Hex token) now).map ApiToken.ofRow) := by
  rw [Scoped.validateToken, Sql.select_bind]
  cases s.db.tokenRow (sha256Hex token) now with
  | none => rfl
  | some x => rfl

theorem TenantDb.le_maxSequence {db : TenantDb} {x : Owned EventRow}
    (hx : x ∈ (db.table .events).rows) : x.row.sequence ≤ db.maxSequence x.row.executionId := by
  have hmem : x ∈ (db.table .events).rows.filter fun y => y.row.executionId = x.row.executionId :=
    List.mem_filter.mpr ⟨hx, by simp⟩
  unfold TenantDb.maxSequence
  generalize (db.table .events).rows.filter (fun y => y.row.executionId = x.row.executionId) = rows
    at hmem ⊢
  induction rows with
  | nil => cases hmem
  | cons y rows ih =>
    rcases List.mem_cons.mp hmem with rfl | hrest
    · exact Nat.le_max_left ..
    · exact (ih hrest).trans (Nat.le_max_right ..)

/-- An append succeeds under a fresh id for an execution that is there, with the next number. -/
theorem Scoped.appendEvent_reply {s : TenantSys} {event : NewEvent} {sequence : EventSequence} :
    (Scoped.appendEvent A event s).1 = .ok sequence ↔
      (∀ x ∈ (s.db.table .events).rows, x.row.id ≠ event.id) ∧ A ∈ s.db.tenants ∧
        ((s.db.table .executions).find? event.executionId).isSome = true ∧
        sequence = s.db.maxSequence event.executionId + 1 := by
  generalize hrow : (⟨A, ⟨event.id, event.executionId, s.db.maxSequence event.executionId + 1,
    event.kind, event.createdAt⟩⟩ : Owned EventRow) = row
  have hunique : (s.db.table .events).rows.any (TableName.events.unique · row) = false := by
    rw [List.any_eq_false]
    intro x hx hsame
    obtain ⟨hexecution, hsequence⟩ : x.row.executionId = row.row.executionId ∧
      x.row.sequence = row.row.sequence := by simpa [TableName.unique] using hsame
    have hle := TenantDb.le_maxSequence hx
    rw [hexecution, hsequence, ← hrow] at hle
    exact Nat.not_succ_le_self _ hle
  have hfree : (s.db.table .events).find? row.row.id = none ↔
      ∀ x ∈ (s.db.table .events).rows, x.row.id ≠ event.id := by
    rw [Table.find?_eq_none_iff, ← hrow]
    rfl
  have hkeys : s.db.foreignKeysHold .events row = true ↔ A ∈ s.db.tenants ∧
      ((s.db.table .executions).find? event.executionId).isSome = true := by
    rw [← hrow]
    simp [TenantDb.foreignKeysHold, TableName.referencesTenant, TableName.execution?]
  have hinsert := Sql.insert_reply (n := .events) (s := s) (x := row)
  rw [hunique, hkeys] at hinsert
  have hreply : (Scoped.appendEvent A event s).1 =
      (Sql.insert .events row s).1.map fun _ => s.db.maxSequence event.executionId + 1 := by
    rw [Scoped.appendEvent, Statement.atomically_reply, Scoped.insertEvent, Sql.select_bind, hrow]
    exact Statement.map_reply
  rw [hreply]
  cases hresult : (Sql.insert .events row s).1 with
  | ok u =>
    obtain ⟨hid, -, htenant, hexecution⟩ := hinsert.mp hresult
    have hrowId : (s.db.table .events).find? row.row.id = none := hid
    simp only [Except.map, Except.ok.injEq]
    constructor
    · rintro rfl
      exact ⟨hfree.mp hrowId, htenant, hexecution, rfl⟩
    · rintro ⟨-, -, -, rfl⟩
      rfl
  | error err =>
    have hnot : ¬ _ := fun h => by
      have := hinsert.mpr h
      rw [hresult] at this
      cases this
    simp only [Except.map, reduceCtorEq, false_iff]
    rintro ⟨hids, htenant, hexecution, -⟩
    exact hnot ⟨hfree.mpr hids, rfl, htenant, hexecution⟩

/-- The number of a tenant's events for an execution. -/
def TenantDb.countEvents (db : TenantDb) (tenant : TenantId) (e : ExecutionId) : ℕ :=
  ((db.owned tenant .events).filter fun r => r.executionId = e).length

theorem TenantDb.countEvents_append {db db' : TenantDb} {added : List (Owned EventRow)}
    (hrows : (db'.table .events).rows = (db.table .events).rows ++ added)
    (howner : ∀ x ∈ added, x.tenantId = B) (e : ExecutionId) :
    db'.countEvents B e = db.countEvents B e +
      (added.filter fun x => x.row.executionId = e).length := by
  have hall : added.filter (fun x => x.tenantId = B) = added :=
    List.filter_eq_self.mpr fun x hx => by simp [howner x hx]
  have hmap : ((added.map (·.row)).filter fun r => r.executionId = e).length =
      (added.filter fun x => x.row.executionId = e).length := by
    rw [List.filter_map, List.length_map]
    rfl
  rw [TenantDb.countEvents, TenantDb.owned_eq, hrows, ofTenant, List.filter_append, hall,
    List.map_append, List.filter_append, List.length_append, hmap]
  rfl

/-- What an operation of the backend of a tenant leaves. -/
def ScopedOp.after [FloatText] (sha256Hex : String → String) (tenant : TenantId) {β : Type}
    (op : ScopedOp β) (db : TenantDb) : TenantSys := (op.exec sha256Hex tenant ⟨db, []⟩).2

/-- What another tenant reads stays as it was, in the tables whose key leaves the tenant out unless
a conflict clause replaced or updated one of its rows; a token other than the one created says what
it said; and the next number of an execution moves by the events appended to it. -/
theorem scoped_operation_isolated [FloatText] (sha256Hex : String → String) (hne : A ≠ B)
    (db : TenantDb) {β : Type} (op : ScopedOp β) :
    (∀ {γ : Type} (r : ScopedRead γ),
      (r.table.sharedKey = true → A ∉ (op.after sha256Hex B db).overwritten) →
      r.exec A (op.after sha256Hex B db).db = r.exec A db) ∧
    (∀ token now, op.minted sha256Hex ≠ some (sha256Hex token) →
      (Scoped.validateToken sha256Hex token now (op.after sha256Hex B db)).1 =
        (Scoped.validateToken sha256Hex token now ⟨db, []⟩).1) ∧
    ∀ event sequence, (Scoped.appendEvent A event ⟨db, []⟩).1 = .ok sequence →
      (∀ x ∈ ((op.after sha256Hex B db).db.table .events).rows, x.row.id ≠ event.id) →
      ∃ appended, (op.after sha256Hex B db).db.countEvents B event.executionId =
          db.countEvents B event.executionId + appended ∧
        (Scoped.appendEvent A event (op.after sha256Hex B db)).1 = .ok (sequence + appended) := by
  have hbeside : Beside A B (op.minted sha256Hex) ⟨db, []⟩ (op.after sha256Hex B db) :=
    op.within hne sha256Hex ⟨db, []⟩ trivial
  refine ⟨fun r hclear => r.exec_congr (hbeside.seen _ r.table_ne_tokens hclear),
    fun token now hminted => ?_, fun event sequence hbefore hfresh => ?_⟩
  · rw [Scoped.validateToken_reply, Scoped.validateToken_reply, hbeside.tokens _ hminted now]
  obtain ⟨-, htenant, hexecution, rfl⟩ := Scoped.appendEvent_reply.mp hbefore
  obtain ⟨added, hrows, howner, hmax⟩ := hbeside.events
  refine ⟨_, TenantDb.countEvents_append hrows howner _, ?_⟩
  obtain ⟨x, hx⟩ := Option.isSome_iff_exists.mp hexecution
  obtain ⟨x', hx', -⟩ := hbeside.lasting .executions rfl _ x hx
  refine Scoped.appendEvent_reply.mpr ⟨hfresh, ?_, by rw [hx']; rfl, ?_⟩
  · rw [hbeside.tenants]
    exact htenant
  · rw [hmax]
    exact Nat.add_right_comm ..

end Replies

/-! Two tenants, and an execution of the first with a request that waits. -/

def alphaExecution : WorkflowExecution where
  executionId := 1
  workflowId := "wf"
  workflowVersion := "1"
  status := .running
  initialInput := .object []
  currentState := .object []
  startedAt := 0
  updatedAt := 0
  completedAt := none
  parentExecutionId := none
  segmentNumber := 0

def alphaRequest : ApprovalProjectionRow where
  executionId := 1
  nodeId := "pay"
  status := .pending
  userId := none
  comment := none
  lastSequence := 1
  toolName := none
  approver := none
  context := none

def sharedDb : TenantDb :=
  (Scoped.applyApprovalProjection "alpha" alphaRequest "approvals" 1 0
    (Scoped.createExecution "alpha" alphaExecution ⟨{ tenants := ["alpha", "bravo"] }, []⟩).2).2.db

def tenantEvent (id : ℕ) : NewEvent := ⟨id, 1, .nodeSkipped "n" "skipped", 0⟩

theorem bravo_append_beside_alpha :
    let after := @ScopedOp.after bitsText id "bravo" _ (.appendEvent (tenantEvent 7)) sharedDb
    (ScopedRead.getApprovalProjection 1).exec "alpha" after.db =
        (ScopedRead.getApprovalProjection 1).exec "alpha" sharedDb ∧
      ∃ appended, after.db.countEvents "bravo" 1 = sharedDb.countEvents "bravo" 1 + appended ∧
        (Scoped.appendEvent "alpha" (tenantEvent 8) after).1 = .ok (1 + appended) := by
  have hisolated := @scoped_operation_isolated "alpha" "bravo" bitsText id (by decide) sharedDb _
    (.appendEvent (tenantEvent 7))
  exact ⟨hisolated.1 _ fun _ => by decide, hisolated.2.2 (tenantEvent 8) 1 rfl (by decide)⟩

/-- An event of the other tenant takes the number the tenant's own would have had, and an upsert of
the other tenant rewrites the tenant's row. -/
theorem bravo_seen_by_alpha :
    let append : ScopedOp EventSequence := .appendEvent (tenantEvent 7)
    let answer : ScopedOp Unit := .applyApprovalProjection
      { alphaRequest with status := .approved, lastSequence := 2 } "approvals" 2 0
    (Scoped.appendEvent "alpha" (tenantEvent 8) ⟨sharedDb, []⟩).1 = .ok 1 ∧
      (Scoped.appendEvent "alpha" (tenantEvent 8) (@ScopedOp.after bitsText id "bravo" _ append sharedDb)).1 =
        .ok 2 ∧
      (sharedDb.getApprovalProjection "alpha" 1).map (·.lastSequence) = [1] ∧
      (((@ScopedOp.after bitsText id "bravo" _ answer sharedDb).db.getApprovalProjection "alpha" 1).map
        (·.lastSequence)) = [2] :=
  ⟨rfl, rfl, rfl, rfl⟩

end JamJet
