import JamJet.Json

/-! Ordered maps as sorted association lists: lookups after an update, and that lookups determine
the map. -/

namespace JamJet.BTree

variable {α : Type} {m m' patch : BTree α} {k k' : String} {v : α}

/-- Keys in increasing order, so without duplicates. -/
def Sorted (m : BTree α) : Prop := m.Pairwise fun a b => a.1 < b.1

@[simp]
theorem sorted_nil : Sorted ([] : BTree α) := List.Pairwise.nil

@[simp]
theorem get_nil : get ([] : BTree α) k = none := rfl

theorem get_cons (kv : String × α) : get (kv :: m) k = if kv.1 = k then some kv.2 else get m k := by
  by_cases h : kv.1 = k <;> simp [get, h]

theorem mem_of_get (h : get m k = some v) : (k, v) ∈ m := by
  induction m with
  | nil => cases h
  | cons kv m ih =>
    rw [get_cons] at h
    split at h
    · rename_i hk
      cases h
      subst hk
      exact List.mem_cons_self
    · exact List.mem_cons_of_mem _ (ih h)

theorem get_of_nodup (hm : (m.map Prod.fst).Nodup) (h : (k, v) ∈ m) : get m k = some v := by
  induction m with
  | nil => cases h
  | cons kv m ih =>
    obtain ⟨hnew, hm⟩ := List.nodup_cons.mp hm
    rw [get_cons]
    rcases List.mem_cons.mp h with rfl | h
    · simp
    · have hne : kv.1 ≠ k := fun heq => hnew (heq ▸ List.mem_map_of_mem h)
      rw [if_neg hne, ih hm h]

theorem Sorted.nodup_keys (hm : Sorted m) : (m.map Prod.fst).Nodup :=
  List.pairwise_map.mpr (hm.imp fun hlt => hlt.ne)

theorem Sorted.get_of_mem (hm : Sorted m) (h : (k, v) ∈ m) : get m k = some v :=
  get_of_nodup hm.nodup_keys h

theorem Sorted.get_eq_some_iff (hm : Sorted m) : get m k = some v ↔ (k, v) ∈ m :=
  ⟨mem_of_get, hm.get_of_mem⟩

theorem get_eq_none_of_lt (h : ∀ kv ∈ m, k < kv.1) : get m k = none := by
  cases hg : get m k with
  | none => rfl
  | some v => exact absurd (h _ (mem_of_get hg)) (lt_irrefl k)

theorem get_insert : get (insert m k v) k' = if k = k' then some v else get m k' := by
  induction m with
  | nil => simp [insert, get_cons]
  | cons kv m ih =>
    obtain ⟨k₀, v₀⟩ := kv
    rw [insert]
    split
    · rename_i hk
      subst hk
      simp only [get_cons]
      split <;> rfl
    · rename_i hk
      split
      · rw [get_cons]
      · rw [get_cons, ih, get_cons]
        by_cases h : k₀ = k'
        · subst h
          simp [hk]
        · simp [h]

theorem get_remove : get (remove m k) k' = if k = k' then none else get m k' := by
  induction m with
  | nil => simp [remove]
  | cons kv m ih =>
    rw [remove] at ih ⊢
    by_cases h : kv.1 = k
    · simp only [h, bne_self_eq_false, Bool.false_eq_true, not_false_eq_true, List.filter_cons_of_neg,
        ih, get_cons]
      split <;> rfl
    · have hne : (kv.1 != k) = true := by simpa using h
      simp only [List.filter_cons, hne, if_true]
      rw [get_cons, ih, get_cons]
      by_cases hk : kv.1 = k'
      · have hk' : ¬ k = k' := fun hk' => h (hk.trans hk'.symm)
        simp [hk, hk']
      · simp [hk]

theorem mem_insert {kv : String × α} (h : kv ∈ insert m k v) : kv = (k, v) ∨ kv ∈ m := by
  induction m with
  | nil => simpa [insert] using h
  | cons kv₀ m ih =>
    rw [insert] at h
    split at h
    · rcases List.mem_cons.mp h with rfl | h
      · exact .inl rfl
      · exact .inr (List.mem_cons_of_mem _ h)
    · split at h
      · rcases List.mem_cons.mp h with rfl | h
        · exact .inl rfl
        · exact .inr h
      · rcases List.mem_cons.mp h with rfl | h
        · exact .inr List.mem_cons_self
        · exact (ih h).imp_right (List.mem_cons_of_mem _)

theorem Sorted.insert (hm : Sorted m) (k : String) (v : α) : Sorted (m.insert k v) := by
  induction m with
  | nil => simp [BTree.insert, Sorted]
  | cons kv m ih =>
    obtain ⟨hlt, hm⟩ := List.pairwise_cons.mp hm
    rw [BTree.insert]
    split
    · rename_i hk
      exact List.pairwise_cons.mpr ⟨fun a ha => hk ▸ hlt a ha, hm⟩
    · rename_i hk
      split
      · rename_i hlt₀
        refine List.pairwise_cons.mpr ⟨fun a ha => ?_, List.pairwise_cons.mpr ⟨hlt, hm⟩⟩
        rcases List.mem_cons.mp ha with rfl | ha
        · exact hlt₀
        · exact hlt₀.trans (hlt a ha)
      · rename_i hge
        refine List.pairwise_cons.mpr ⟨fun a ha => ?_, ih hm⟩
        rcases mem_insert ha with rfl | ha
        · exact lt_of_le_of_ne (not_lt.mp hge) (Ne.symm hk)
        · exact hlt a ha

theorem Sorted.remove (hm : Sorted m) (k : String) : Sorted (m.remove k) :=
  List.Pairwise.sublist List.filter_sublist hm

theorem Sorted.insertAll (hm : Sorted m) (patch : BTree α) : Sorted (m.insertAll patch) := by
  induction patch generalizing m with
  | nil => exact hm
  | cons kv patch ih => exact ih (hm.insert kv.1 kv.2)

theorem get_eq_none (h : k ∉ m.map Prod.fst) : get m k = none := by
  cases hg : get m k with
  | none => rfl
  | some v => exact absurd (List.mem_map_of_mem (mem_of_get hg)) h

theorem get_insertAll_of_nodup (hp : (patch.map Prod.fst).Nodup) :
    get (insertAll m patch) k = (get patch k).or (get m k) := by
  induction patch generalizing m with
  | nil => rfl
  | cons kv patch ih =>
    obtain ⟨hnew, hp⟩ := List.nodup_cons.mp hp
    change get (insertAll (insert m kv.1 kv.2) patch) k = _
    rw [ih hp, get_insert, get_cons]
    by_cases hk : kv.1 = k
    · subst hk
      simp [get_eq_none hnew]
    · simp [hk]

theorem get_insertAll (hp : Sorted patch) :
    get (insertAll m patch) k = (get patch k).or (get m k) := get_insertAll_of_nodup hp.nodup_keys

theorem get_insertAll_isSome : (get (insertAll m patch) k).isSome = true ↔
    k ∈ patch.map Prod.fst ∨ (get m k).isSome = true := by
  induction patch generalizing m with
  | nil => simp [insertAll]
  | cons kv patch ih =>
    change (get (insertAll (insert m kv.1 kv.2) patch) k).isSome = true ↔ _
    rw [ih, get_insert]
    by_cases hk : kv.1 = k
    · simp [hk]
    · simp [hk, Ne.symm hk]

theorem Sorted.ext (hm : Sorted m) (hm' : Sorted m') (h : ∀ k, get m k = get m' k) : m = m' := by
  refine List.Perm.eq_of_pairwise (fun a b _ _ hab hba => absurd hab hba.asymm) hm hm' ?_
  have hnodup : ∀ {l : BTree α}, Sorted l → l.Nodup := fun hl =>
    List.Pairwise.imp (fun hlt heq => hlt.ne (congrArg Prod.fst heq)) hl
  refine (List.perm_ext_iff_of_nodup (hnodup hm) (hnodup hm')).mpr fun kv => ?_
  rw [← hm.get_eq_some_iff, ← hm'.get_eq_some_iff, h]

theorem Sorted.insertAll_eq_patch (hm : Sorted m) (hp : Sorted patch)
    (h : ∀ kv ∈ m, (get patch kv.1).isSome = true) : m.insertAll patch = patch := by
  refine (hm.insertAll patch).ext hp fun k => ?_
  rw [get_insertAll hp]
  cases hget : get patch k with
  | some v => rfl
  | none =>
    cases hold : get m k with
    | none => rfl
    | some v => simpa [hget] using h _ (mem_of_get hold)

theorem Sorted.insertAll_eq_self_iff (hm : Sorted m) (hp : Sorted patch) :
    m.insertAll patch = m ↔ ∀ kv ∈ patch, get m kv.1 = some kv.2 := by
  constructor
  · intro heq kv hkv
    have hget : get (m.insertAll patch) kv.1 = _ := get_insertAll hp
    rw [heq, hp.get_of_mem hkv] at hget
    exact hget
  · intro hall
    refine (hm.insertAll patch).ext hm fun k => ?_
    rw [get_insertAll hp]
    cases hget : get patch k with
    | none => rfl
    | some v => exact (hall _ (mem_of_get hget)).symm

theorem mem_insertAll {kv : String × α} (h : kv ∈ m.insertAll patch) : kv ∈ patch ∨ kv ∈ m := by
  induction patch generalizing m with
  | nil => exact .inr h
  | cons kv₀ patch ih =>
    rcases ih h with h | h
    · exact .inl (List.mem_cons_of_mem _ h)
    · rcases mem_insert h with rfl | h
      · exact .inl List.mem_cons_self
      · exact .inr h

end JamJet.BTree

namespace JamJet.Json

theorem get_ofFields_option (fields : List (String × Json)) (key k : String) (o : Option Json) :
    (Json.ofFields (fields ++ (o.map fun v => (key, v)).toList)).get k =
      (if key = k then o else none).or ((Json.ofFields fields).get k) := by
  cases o with
  | none => simp
  | some v =>
    by_cases hk : key = k <;>
      simp [Json.ofFields, Json.get, BTree.insertAll, BTree.get_insert, hk]

end JamJet.Json
