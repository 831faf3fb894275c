import Mathlib.Data.List.Nodup
import Mathlib.Order.Lattice.Nat
import Mathlib.Tactic.Common

/-! Relational tables with a primary key: rows are found, inserted and updated by their key, and
no two rows ever share one. -/

namespace JamJet

structure Table (κ α : Type) (key : α → κ) where
  rows : List α
  nodup : (rows.map key).Nodup

namespace Table

variable {κ α : Type} [DecidableEq κ] {key : α → κ} {t : Table κ α key} {k k' : κ} {r r' : α}

def empty : Table κ α key := ⟨[], List.nodup_nil⟩

def find? (t : Table κ α key) (k : κ) : Option α := t.rows.find? fun r => key r = k

theorem mem_of_find? (h : t.find? k = some r) : r ∈ t.rows := List.mem_of_find?_eq_some h

theorem key_of_find? (h : t.find? k = some r) : key r = k := by
  simpa using List.find?_some h

theorem find?_of_mem (h : r ∈ t.rows) : t.find? (key r) = some r := by
  obtain ⟨rows, nodup⟩ := t
  simp only [find?] at h ⊢
  induction rows with
  | nil => simp at h
  | cons a as ih =>
    obtain ⟨ha, has⟩ := List.nodup_cons.mp nodup
    rcases List.mem_cons.mp h with rfl | h
    · simp
    · have hne : key a ≠ key r := by
        intro he
        exact ha (he ▸ List.mem_map_of_mem (f := key) h)
      simp [hne, ih has h]

theorem find?_eq_some_iff : t.find? k = some r ↔ r ∈ t.rows ∧ key r = k :=
  ⟨fun h => ⟨mem_of_find? h, key_of_find? h⟩, fun h => h.2 ▸ find?_of_mem h.1⟩

theorem find?_eq_none_iff : t.find? k = none ↔ ∀ r ∈ t.rows, key r ≠ k := by
  simp [find?]

/-- `INSERT`: refused when the key is taken. -/
def insert? (t : Table κ α key) (r : α) : Option (Table κ α key) :=
  if h : t.find? (key r) = none then
    some ⟨t.rows ++ [r], by
      rw [List.map_append, List.nodup_append]
      refine ⟨t.nodup, by simp, ?_⟩
      intro a ha b hb he
      obtain ⟨x, hx, rfl⟩ := List.mem_map.mp ha
      simp only [List.map_cons, List.map_nil, List.mem_singleton] at hb
      exact find?_eq_none_iff.mp h x hx (he.trans hb)⟩
  else none

/-- `entry(key).or_insert(row)`. -/
def orInsert (t : Table κ α key) (r : α) : Table κ α key := (t.insert? r).getD t

/-- `UPDATE .. WHERE key = k AND guard`. -/
def update (t : Table κ α key) (k : κ) (guard : α → Bool) (f : α → α)
    (hf : ∀ a, key (f a) = key a) : Table κ α key where
  rows := t.rows.map fun r => if key r = k ∧ guard r then f r else r
  nodup := by
    rw [List.map_map]
    convert t.nodup using 2
    funext r
    simp only [Function.comp_apply]
    split
    · exact hf r
    · rfl

/-- Whether the `UPDATE` with this key and guard affects a row. -/
def hits (t : Table κ α key) (k : κ) (guard : α → Bool) : Bool := (t.find? k).any guard

/-- `INSERT OR REPLACE`: a row with the same key makes way. -/
def put (t : Table κ α key) (r : α) : Table κ α key where
  rows := t.rows.filter (fun x => key x ≠ key r) ++ [r]
  nodup := by
    rw [List.map_append, List.nodup_append]
    refine ⟨t.nodup.sublist (List.Sublist.map key List.filter_sublist), by simp, ?_⟩
    intro a ha b hb he
    obtain ⟨x, hx, rfl⟩ := List.mem_map.mp ha
    simp only [List.map_cons, List.map_nil, List.mem_singleton] at hb
    have hne := (List.mem_filter.mp hx).2
    simp [he.trans hb] at hne

/-- `DELETE .. WHERE key = k AND guard`. -/
def delete (t : Table κ α key) (k : κ) (guard : α → Bool) : Table κ α key where
  rows := t.rows.filter fun r => ¬ (key r = k ∧ guard r)
  nodup := t.nodup.sublist (List.Sublist.map key List.filter_sublist)

/-- The rows that meet a condition. -/
def restrict (t : Table κ α key) (p : α → Bool) : Table κ α key where
  rows := t.rows.filter p
  nodup := t.nodup.sublist (List.Sublist.map key List.filter_sublist)

/-- A fold that touches one key sees one row of a table. -/
theorem foldl_at_key {β : Type} (F : α → β → β) {rows : List α} (hrows : (rows.map key).Nodup)
    (k : κ) (b : β) :
    rows.foldl (fun b r => if key r = k then F r b else b) b =
      (rows.find? fun r => key r = k).elim b fun r => F r b := by
  induction rows generalizing b with
  | nil => rfl
  | cons r rows ih =>
    obtain ⟨hr, hrest⟩ := List.nodup_cons.mp hrows
    rw [List.foldl_cons, ih hrest]
    by_cases hk : key r = k
    · have hnone : rows.find? (fun r => key r = k) = none := by
        refine List.find?_eq_none.mpr fun x hx h => hr ?_
        have hx' : key x = k := by simpa using h
        exact List.mem_map.mpr ⟨x, hx, hx'.trans hk.symm⟩
      simp [hk, hnone]
    · simp [hk]

/-- Among the rows that meet a condition, the key still names its row. -/
theorem find?_filter_rows (t : Table κ α key) (k : κ) (p : α → Bool) :
    (t.rows.filter p).find? (fun r => key r = k) = (t.find? k).filter p := by
  obtain ⟨rows, nodup⟩ := t
  simp only [find?]
  induction rows with
  | nil => rfl
  | cons r rows ih =>
    obtain ⟨hr, hrest⟩ := List.nodup_cons.mp nodup
    by_cases hk : key r = k
    · by_cases hp : p r = true
      · simp [hk, hp, Option.filter]
      · have hnone : rows.find? (fun r => key r = k) = none := by
          refine List.find?_eq_none.mpr fun x hx h => hr ?_
          have hx' : key x = k := by simpa using h
          exact List.mem_map.mpr ⟨x, hx, hx'.trans hk.symm⟩
        rw [List.filter_cons_of_neg hp, ih hrest, hnone]
        simp [hk, hp, Option.filter]
    · by_cases hp : p r = true
      · simp [hk, hp, ih hrest]
      · rw [List.filter_cons_of_neg hp, ih hrest]
        simp [hk]

theorem find?_delete (t : Table κ α key) (k k' : κ) (guard : α → Bool) :
    (t.delete k guard).find? k' =
      (t.find? k').filter fun r => !(decide (k' = k) && guard r) := by
  rw [show (t.delete k guard).find? k' = _ from find?_filter_rows t k' _]
  cases hr : t.find? k' with
  | none => rfl
  | some r =>
    have hkey := key_of_find? hr
    by_cases hk : k' = k <;> simp [Option.filter, hkey, hk]

theorem mem_of_mem_put (h : r' ∈ (t.put r).rows) : r' ∈ t.rows ∨ r' = r := by
  rcases List.mem_append.mp h with h | h
  · exact .inl (List.mem_filter.mp h).1
  · exact .inr (List.mem_singleton.mp h)

theorem find?_put (t : Table κ α key) (r : α) :
    (t.put r).find? k = if key r = k then some r else t.find? k := by
  by_cases hk : key r = k
  · rw [if_pos hk, ← hk]
    exact find?_of_mem (by simp [put])
  · rw [if_neg hk]
    simp only [put, find?, List.find?_append]
    have hnone : [r].find? (fun r => key r = k) = none := by simp [hk]
    rw [hnone, Option.or_none, List.find?_filter]
    congr 1
    funext x
    by_cases hx : key x = k
    · simp [hx, Ne.symm hk]
    · simp [hx]

/-- A batch of rows with distinct keys. -/
theorem find?_foldl_put {rows : List α} (hrows : (rows.map key).Nodup) (t : Table κ α key) :
    (∀ r ∈ rows, (rows.foldl put t).find? (key r) = some r) ∧
      ∀ k, (∀ r ∈ rows, key r ≠ k) → (rows.foldl put t).find? k = t.find? k := by
  induction rows generalizing t with
  | nil => simp
  | cons r rows ih =>
    obtain ⟨hr, hrest⟩ := List.nodup_cons.mp hrows
    obtain ⟨hin, hout⟩ := ih hrest (t.put r)
    constructor
    · intro r' hr'
      rcases List.mem_cons.mp hr' with rfl | hr'
      · rw [List.foldl_cons, hout _ fun x hx h => hr (List.mem_map.mpr ⟨x, hx, h⟩), find?_put,
          if_pos rfl]
      · exact hin r' hr'
    · intro k hk
      rw [List.foldl_cons, hout k fun x hx => hk x (by simp [hx]), find?_put,
        if_neg (hk r (by simp))]

@[simp]
theorem find?_empty : (empty : Table κ α key).find? k = none := rfl

theorem insert?_eq_some (h : t.find? (key r) = none) :
    ∃ t', t.insert? r = some t' ∧ t'.rows = t.rows ++ [r] := by
  exact ⟨_, dif_pos h, rfl⟩

theorem rows_of_insert? {t' : Table κ α key} (h : t.insert? r = some t') :
    t.find? (key r) = none ∧ t'.rows = t.rows ++ [r] := by
  unfold insert? at h
  split at h
  · rename_i hfree
    cases h
    exact ⟨hfree, rfl⟩
  · cases h

theorem find?_of_insert? {t' : Table κ α key} (h : t.insert? r = some t') :
    t'.find? k = if key r = k then some r else t.find? k := by
  obtain ⟨hfree, hrows⟩ := rows_of_insert? h
  simp only [find?, hrows, List.find?_append]
  by_cases hk : key r = k
  · subst hk
    simp only [find?] at hfree
    simp [hfree]
  · simp [hk]

/-- Of the rows of one table, the row is there afterwards. -/
theorem mem_orInsert {whole : Table κ α key} (ht : ∀ a ∈ t.rows, a ∈ whole.rows) (hr : r ∈ whole.rows) :
    r' ∈ (t.orInsert r).rows ↔ r' ∈ t.rows ∨ r' = r := by
  rw [orInsert]
  cases hfound : t.find? (key r) with
  | none =>
    obtain ⟨t', ht', hrows⟩ := insert?_eq_some hfound
    simp [ht', hrows]
  | some a =>
    have hsame : a = r := by
      have hin := find?_of_mem (ht a (mem_of_find? hfound))
      rw [key_of_find? hfound, find?_of_mem hr] at hin
      exact (Option.some.inj hin).symm
    have hnone : t.insert? r = none := dif_neg (by simp [hfound])
    rw [hnone, Option.getD_none]
    refine ⟨.inl, ?_⟩
    rintro (h | rfl)
    · exact h
    · exact hsame ▸ mem_of_find? hfound

variable {guard : α → Bool} {f : α → α} {hf : ∀ a, key (f a) = key a}

theorem find?_update : (t.update k guard f hf).find? k' =
    (t.find? k').map fun r => if k' = k ∧ guard r then f r else r := by
  obtain ⟨rows, nodup⟩ := t
  simp only [find?, update]
  induction rows with
  | nil => rfl
  | cons a as ih =>
    have hkey : key (if key a = k ∧ guard a = true then f a else a) = key a := by
      split
      · exact hf a
      · rfl
    rw [List.map_cons, List.find?_cons, List.find?_cons, hkey]
    by_cases hk : key a = k'
    · simp [hk]
    · simp [hk, ih (List.nodup_cons.mp nodup).2]

theorem find?_update_of_ne (h : k' ≠ k) : (t.update k guard f hf).find? k' = t.find? k' := by
  rw [find?_update]
  simp [h]

theorem hits_iff : t.hits k guard = true ↔ ∃ r, t.find? k = some r ∧ guard r = true := by
  simp [hits, Option.any_eq_true]

theorem update_eq_self (h : t.hits k guard = false) : t.update k guard f hf = t := by
  have hrows : (t.update k guard f hf).rows = t.rows := by
    refine (List.map_congr_left fun r hr => ?_).trans (List.map_id _)
    split
    · rename_i hg
      have hhit : t.hits k guard = true := hits_iff.mpr ⟨r, hg.1 ▸ find?_of_mem hr, hg.2⟩
      simp [h] at hhit
    · rfl
  obtain ⟨rows, nodup⟩ := t
  simpa [update] using hrows

end Table

end JamJet
