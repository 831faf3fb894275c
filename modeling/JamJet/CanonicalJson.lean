import JamJet.ExecuteItem

/-! Canonical JSON identifies equal values: the order in which an object's members were put in does
not reach the text, and nothing else is lost in it. -/

namespace JamJet

namespace Json

mutual

/-- Numbers are integers and no object has a key twice; its members are in any order. -/
def Integral : Json → Prop
  | .object fields => (fields.map Prod.fst).Nodup ∧ IntegralFields fields
  | .array items => IntegralItems items
  | .number (.float _) => False
  | _ => True

def IntegralFields : List (String × Json) → Prop
  | [] => True
  | (_, v) :: rest => v.Integral ∧ IntegralFields rest

def IntegralItems : List Json → Prop
  | [] => True
  | v :: rest => v.Integral ∧ IntegralItems rest

end

mutual

/-- Equal as JSON values: the order of members does not count, at any depth. -/
def sameValue : Json → Json → Bool
  | .null, .null => true
  | .bool a, .bool b => a = b
  | .number a, .number b => a = b
  | .string a, .string b => a = b
  | .array items, .array others => sameItems items others
  | .object fields, .object others => fields.length = others.length && sameMembers fields others
  | _, _ => false

def sameItems : List Json → List Json → Bool
  | [], [] => true
  | v :: items, w :: others => sameValue v w && sameItems items others
  | _, _ => false

/-- Every member is one of the other object too. -/
def sameMembers : List (String × Json) → List (String × Json) → Bool
  | [], _ => true
  | (key, v) :: fields, others =>
      (match BTree.get others key with
        | some w => sameValue v w
        | none => false) && sameMembers fields others

end

mutual

/-- The members of every object in the order of their keys. -/
def ordered : Json → Json
  | .object fields => .object (BTree.insertAll [] (orderedMembers fields))
  | .array items => .array (orderedItems items)
  | v => v

def orderedMembers : List (String × Json) → List (String × Json)
  | [] => []
  | (key, v) :: rest => (key, ordered v) :: orderedMembers rest

def orderedItems : List Json → List Json
  | [] => []
  | v :: rest => ordered v :: orderedItems rest

end

theorem integralFields_iff {fields : List (String × Json)} :
    IntegralFields fields ↔ ∀ kv ∈ fields, kv.2.Integral := by
  induction fields with
  | nil => simp [IntegralFields]
  | cons kv fields ih => simp [IntegralFields, ih]

theorem integralItems_iff {items : List Json} :
    IntegralItems items ↔ ∀ v ∈ items, v.Integral := by
  induction items with
  | nil => simp [IntegralItems]
  | cons v items ih => simp [IntegralItems, ih]

theorem integral_object {fields : List (String × Json)} : (object fields).Integral ↔
    (fields.map Prod.fst).Nodup ∧ ∀ kv ∈ fields, kv.2.Integral := by
  rw [Integral, integralFields_iff]

theorem integral_array {items : List Json} :
    (array items).Integral ↔ ∀ v ∈ items, v.Integral := by
  rw [Integral, integralItems_iff]

theorem sameItems_iff {items others : List Json} :
    sameItems items others = true ↔ List.Forall₂ (fun v w => sameValue v w = true) items others := by
  induction items generalizing others with
  | nil => cases others <;> simp [sameItems]
  | cons v items ih => cases others <;> simp [sameItems, ih]

theorem sameMembers_iff {fields others : List (String × Json)} : sameMembers fields others = true ↔
    ∀ kv ∈ fields, ∃ w, BTree.get others kv.1 = some w ∧ sameValue kv.2 w = true := by
  induction fields with
  | nil => simp [sameMembers]
  | cons kv fields ih =>
    obtain ⟨key, v⟩ := kv
    cases hget : BTree.get others key <;> simp [sameMembers, ih, hget]

theorem orderedMembers_eq (fields : List (String × Json)) :
    orderedMembers fields = fields.map fun kv => (kv.1, kv.2.ordered) := by
  induction fields with
  | nil => simp [orderedMembers]
  | cons kv fields ih => simp [orderedMembers, ih]

theorem orderedItems_eq (items : List Json) : orderedItems items = items.map ordered := by
  induction items with
  | nil => simp [orderedItems]
  | cons v items ih => simp [orderedItems, ih]

theorem keys_orderedMembers (fields : List (String × Json)) :
    (orderedMembers fields).map Prod.fst = fields.map Prod.fst := by
  simp [orderedMembers_eq, Function.comp_def]

theorem get_orderedMembers (fields : List (String × Json)) (key : String) :
    BTree.get (orderedMembers fields) key = (BTree.get fields key).map ordered := by
  induction fields with
  | nil => rfl
  | cons kv fields ih =>
    rw [orderedMembers, BTree.get_cons, BTree.get_cons, ih]
    split <;> rfl

theorem get_ordered {fields : List (String × Json)} (h : (fields.map Prod.fst).Nodup)
    (key : String) : BTree.get (BTree.insertAll [] (orderedMembers fields)) key =
      (BTree.get fields key).map ordered := by
  rw [BTree.get_insertAll_of_nodup (by rw [keys_orderedMembers]; exact h), get_orderedMembers]
  simp

theorem held_ordered (v : Json) (hv : v.Integral) : v.ordered.Held := by
  induction hsize : sizeOf v using Nat.strong_induction_on generalizing v with
  | _ n ih =>
  subst hsize
  cases v with
  | object fields =>
    obtain ⟨-, hmembers⟩ := integral_object.mp hv
    rw [ordered]
    refine held_object (BTree.sorted_nil.insertAll _) fun kv hkv => ?_
    rcases BTree.mem_insertAll hkv with hmem | hmem
    · rw [orderedMembers_eq] at hmem
      obtain ⟨kv', hmem', rfl⟩ := List.mem_map.mp hmem
      exact ih _ (sizeOf_member_lt hmem') kv'.2 (hmembers kv' hmem') rfl
    · cases hmem
  | array items =>
    have hitems := integral_array.mp hv
    rw [ordered, orderedItems_eq, Held, heldItems_iff]
    intro w hw
    obtain ⟨v, hmem, rfl⟩ := List.mem_map.mp hw
    exact ih _ (sizeOf_item_lt hmem) v (hitems v hmem) rfl
  | number n =>
    cases n with
    | int n => simp [ordered, Held]
    | float bits => simp [Integral] at hv
  | _ => simp [ordered, Held]

theorem keys_perm {fields others : List (String × Json)} (h : (fields.map Prod.fst).Nodup)
    (hlength : fields.length = others.length)
    (hall : ∀ kv ∈ fields, ∃ w, BTree.get others kv.1 = some w) :
    (fields.map Prod.fst).Perm (others.map Prod.fst) := by
  have hsubset : fields.map Prod.fst ⊆ others.map Prod.fst := by
    intro key hkey
    obtain ⟨kv, hkv, rfl⟩ := List.mem_map.mp hkey
    obtain ⟨w, hw⟩ := hall kv hkv
    exact List.mem_map.mpr ⟨_, BTree.mem_of_get hw, rfl⟩
  exact (List.subperm_of_subset h hsubset).perm_of_length_le (by simp [hlength])

/-- Two objects agree when their members do, key by key. -/
theorem sameObject_iff {fields others : List (String × Json)} (h : (fields.map Prod.fst).Nodup)
    (h' : (others.map Prod.fst).Nodup)
    (hsame : ∀ kv ∈ fields, ∀ w, BTree.get others kv.1 = some w →
      (sameValue kv.2 w = true ↔ kv.2.ordered = w.ordered)) :
    (fields.length = others.length ∧ sameMembers fields others = true) ↔
      ∀ key, (BTree.get fields key).map ordered = (BTree.get others key).map ordered := by
  rw [sameMembers_iff]
  constructor
  · rintro ⟨hlength, hall⟩ key
    have hperm := keys_perm h hlength fun kv hkv => (hall kv hkv).imp fun _ hw => hw.1
    cases hget : BTree.get fields key with
    | some v =>
      obtain ⟨w, hw, hvw⟩ := hall _ (BTree.mem_of_get hget)
      rw [hw]
      simp [(hsame _ (BTree.mem_of_get hget) w hw).mp hvw]
    | none =>
      cases hother : BTree.get others key with
      | none => rfl
      | some w =>
        have hkey := hperm.symm.subset (List.mem_map_of_mem (BTree.mem_of_get hother))
        obtain ⟨kv, hkv, hname⟩ := List.mem_map.mp hkey
        have hfound := BTree.get_of_nodup h hkv
        simp only at hname
        rw [hname, hget] at hfound
        cases hfound
  · intro hkeys
    have hall : ∀ kv ∈ fields, ∃ w, BTree.get others kv.1 = some w ∧ kv.2.ordered = w.ordered := by
      intro kv hkv
      have hkey := hkeys kv.1
      rw [BTree.get_of_nodup h hkv] at hkey
      obtain ⟨w, hw, heq⟩ := Option.map_eq_some_iff.mp hkey.symm
      exact ⟨w, hw, heq.symm⟩
    have hmem : ∀ key, key ∈ fields.map Prod.fst ↔ key ∈ others.map Prod.fst := by
      have hsome : ∀ {m : List (String × Json)}, (m.map Prod.fst).Nodup → ∀ key,
          (key ∈ m.map Prod.fst ↔ ((BTree.get m key).map ordered).isSome = true) := by
        intro m hm key
        constructor
        · intro hkey
          obtain ⟨kv, hkv, rfl⟩ := List.mem_map.mp hkey
          simp [BTree.get_of_nodup hm hkv]
        · intro hkey
          obtain ⟨v, hv⟩ := Option.isSome_iff_exists.mp hkey
          obtain ⟨w, hw, -⟩ := Option.map_eq_some_iff.mp hv
          exact List.mem_map_of_mem (BTree.mem_of_get hw)
      intro key
      rw [hsome h, hsome h', hkeys key]
    have hperm := (List.perm_ext_iff_of_nodup h h').mpr hmem
    refine ⟨by simpa using hperm.length_eq, fun kv hkv => ?_⟩
    obtain ⟨w, hw, heq⟩ := hall kv hkv
    exact ⟨w, hw, (hsame kv hkv w hw).mpr heq⟩

/-- Values are the same when they are equal with their members in order. -/
theorem sameValue_iff (v w : Json) (hv : v.Integral) (hw : w.Integral) :
    sameValue v w = true ↔ v.ordered = w.ordered := by
  induction hsize : sizeOf v using Nat.strong_induction_on generalizing v w with
  | _ n ih =>
  subst hsize
  cases v with
  | object fields =>
    cases w with
    | object others =>
      obtain ⟨hnodup, hmembers⟩ := integral_object.mp hv
      obtain ⟨hnodup', hmembers'⟩ := integral_object.mp hw
      have hkeys := sameObject_iff hnodup hnodup' fun kv hkv w hget =>
        ih _ (sizeOf_member_lt hkv) kv.2 w (hmembers kv hkv)
          (hmembers' _ (BTree.mem_of_get hget)) rfl
      have hsorted : ∀ m : List (String × Json), BTree.Sorted (BTree.insertAll [] (orderedMembers m)) :=
        fun m => BTree.sorted_nil.insertAll _
      simp only [sameValue, ordered, Bool.and_eq_true, decide_eq_true_eq, object.injEq]
      rw [hkeys]
      constructor
      · intro h
        refine (hsorted fields).ext (hsorted others) fun key => ?_
        rw [get_ordered hnodup, get_ordered hnodup', h key]
      · intro h key
        rw [← get_ordered hnodup, ← get_ordered hnodup', h]
    | _ => simp [sameValue, ordered]
  | array items =>
    cases w with
    | array others =>
      have hitems := integral_array.mp hv
      have hothers := integral_array.mp hw
      simp only [sameValue, ordered, sameItems_iff, array.injEq, orderedItems_eq]
      have heq : ∀ v ∈ items, ∀ w ∈ others, (sameValue v w = true ↔ v.ordered = w.ordered) :=
        fun v hv w hw => ih _ (sizeOf_item_lt hv) v w (hitems v hv) (hothers w hw) rfl
      clear ih hv hw hitems hothers
      induction items generalizing others with
      | nil => cases others <;> simp
      | cons v items ihitems =>
        cases others with
        | nil => simp
        | cons w others =>
          have hhead := heq v (by simp) w (by simp)
          have htail := ihitems others fun v hv w hw => heq v (by simp [hv]) w (by simp [hw])
          simp [hhead, htail]
    | _ => simp [sameValue, ordered]
  | _ => cases w <;> simp [sameValue, ordered]

end Json

namespace BTree

variable {α : Type}

theorem insert_perm {m : BTree α} {key : String} (h : key ∉ m.map Prod.fst) (v : α) :
    (m.insert key v).Perm ((key, v) :: m) := by
  induction m with
  | nil => exact .refl _
  | cons kv m ih =>
    obtain ⟨key', v'⟩ := kv
    obtain ⟨hne, hrest⟩ : ¬ key = key' ∧ key ∉ m.map Prod.fst := by simpa using h
    rw [insert, if_neg hne]
    split
    · exact .refl _
    · exact ((ih hrest).cons _).trans (.swap _ _ _)

theorem insertAll_perm {m patch : BTree α} (h : ((m ++ patch).map Prod.fst).Nodup) :
    (m.insertAll patch).Perm (m ++ patch) := by
  induction patch generalizing m with
  | nil => simp [insertAll]
  | cons kv patch ih =>
    have hmiddle : (m ++ kv :: patch).Perm (kv :: m ++ patch) := List.perm_middle
    have hnew : kv.1 ∉ m.map Prod.fst := by
      have hnodup := (hmiddle.map Prod.fst).nodup_iff.mp h
      simp only [List.cons_append, List.map_cons, List.map_append, List.nodup_cons,
        List.mem_append, not_or] at hnodup
      exact hnodup.1.1
    have hinsert := insert_perm hnew kv.2
    have hnodup : ((m.insert kv.1 kv.2 ++ patch).map Prod.fst).Nodup := by
      refine ((hinsert.append_right patch).map Prod.fst).nodup_iff.mpr ?_
      exact (hmiddle.map Prod.fst).nodup_iff.mp h
    exact ((ih hnodup).trans (hinsert.append_right patch)).trans hmiddle.symm

theorem eq_of_perm_of_sorted {m m' : BTree α} (hperm : m.Perm m') (hnodup : (m.map Prod.fst).Nodup)
    (hm : m.Pairwise fun a b => a.1 ≤ b.1) (hm' : m'.Pairwise fun a b => a.1 ≤ b.1) : m = m' := by
  refine hperm.eq_of_pairwise (fun a b ha hb hab hba => ?_) hm hm'
  exact List.inj_on_of_nodup_map hnodup ha (hperm.symm.subset hb) (le_antisymm hab hba)

end BTree

namespace Hashing

open Json

variable [FloatText]

theorem writeCanonical_ordered (v : Json) (hv : v.Integral) :
    writeCanonical v.ordered = writeCanonical v := by
  induction hsize : sizeOf v using Nat.strong_induction_on generalizing v with
  | _ n ih =>
  subst hsize
  cases v with
  | object fields =>
    obtain ⟨hnodup, hmembers⟩ := integral_object.mp hv
    have hwritten : (orderedMembers fields).map (fun kv => (kv.1, writeCanonical kv.2)) =
        writeMembers fields := by
      rw [orderedMembers_eq, writeMembers_eq, List.map_map]
      refine List.map_congr_left fun kv hkv => ?_
      exact congrArg (Prod.mk kv.1) (ih _ (sizeOf_member_lt hkv) kv.2 (hmembers kv hkv) rfl)
    have hkeys : ((orderedMembers fields).map Prod.fst).Nodup := by
      rw [keys_orderedMembers]
      exact hnodup
    have hsorted : BTree.Sorted (BTree.insertAll [] (orderedMembers fields)) :=
      BTree.sorted_nil.insertAll _
    have hperm : ((writeMembers fields).insertionSort fun a b => a.1 ≤ b.1).Perm
        ((BTree.insertAll [] (orderedMembers fields)).map fun kv => (kv.1, writeCanonical kv.2)) := by
      refine (List.perm_insertionSort _ _).trans ?_
      rw [← hwritten]
      exact ((BTree.insertAll_perm (m := []) hkeys).map _).symm
    have htotal : Std.Total fun a b : String × List Char => a.1 ≤ b.1 :=
      ⟨fun a b => le_total a.1 b.1⟩
    have htrans : IsTrans (String × List Char) fun a b => a.1 ≤ b.1 := ⟨fun _ _ _ => le_trans⟩
    have hsort := BTree.eq_of_perm_of_sorted hperm
      (((List.perm_insertionSort _ _).map Prod.fst).nodup_iff.mpr (by
        rw [← hwritten, List.map_map]
        exact hkeys))
      (List.pairwise_insertionSort _ _) (List.pairwise_map.mpr (hsorted.imp le_of_lt))
    rw [ordered, writeCanonical_object hsorted, writeCanonical, hsort, List.map_map]
    rfl
  | array items =>
    have hitems := integral_array.mp hv
    rw [ordered, writeCanonical_array, writeCanonical_array, orderedItems_eq, List.map_map]
    have hwritten : items.map (writeCanonical ∘ Json.ordered) = items.map writeCanonical :=
      List.map_congr_left fun v hmem => ih _ (sizeOf_item_lt hmem) v (hitems v hmem) rfl
    rw [hwritten]
  | _ => simp only [ordered]

theorem canonicalJson_eq_iff {v w : Json} (hv : v.Integral) (hw : w.Integral) :
    canonicalJson v = canonicalJson w ↔ sameValue v w = true := by
  have htext : ∀ u : Json, u.Integral → canonicalJson u.ordered = canonicalJson u :=
    fun u hu => congrArg String.ofList (writeCanonical_ordered u hu)
  rw [sameValue_iff v w hv hw, ← htext v hv, ← htext w hw]
  exact ⟨canonicalJson_inj (held_ordered v hv) (held_ordered w hw), congrArg canonicalJson⟩

theorem contentHash_eq_iff {sha256Hex : String → String} (hsha : Function.Injective sha256Hex)
    {v w : Json} (hv : v.Integral) (hw : w.Integral) :
    contentHash sha256Hex v = contentHash sha256Hex w ↔ sameValue v w = true := by
  rw [← canonicalJson_eq_iff hv hw]
  exact ⟨fun h => hsha h, congrArg sha256Hex⟩

end Hashing

open Json Hashing ExecuteItem

section Keys

variable [FloatText] {env : GuardEnv}

theorem idempotencyKey_inj (hsha : Function.Injective env.sha256Hex) {run run' node node' : String}
    {segment segment' step step' : ℕ} {input input' : String}
    (h : idempotencyKey env run segment step node input =
      idempotencyKey env run' segment' step' node' input') :
    run = run' ∧ segment = segment' ∧ step = step' ∧ node = node' ∧ input = input' := by
  have hfield := get_of_contentHash hsha (held_ofFields (by simp [Json.Held, Json.ofNat]))
    (held_ofFields (by simp [Json.Held, Json.ofNat])) h
  have hrun := hfield "run"
  have hsegment := hfield "segment"
  have hstep := hfield "step"
  have hnode := hfield "node"
  have hinput := hfield "input"
  simp only [Json.ofFields, Json.get, BTree.insertAll, List.foldl_cons, List.foldl_nil,
    BTree.get_insert, String.reduceEq, if_true, if_false, Option.some.injEq, Json.string.injEq,
    Json.ofNat, Json.number.injEq, JsonNumber.int.injEq, Nat.cast_inj]
    at hrun hsegment hstep hnode hinput
  exact ⟨hrun, hsegment, hstep, hnode, hinput⟩

theorem actionDigest_eq_iff (hsha : Function.Injective env.sha256Hex) (run : String) (step : ℕ)
    (node definition : String) {payload payload' : Json} (hp : payload.Integral)
    (hp' : payload'.Integral) :
    actionDigest env run step node definition payload =
      actionDigest env run step node definition payload' ↔ sameValue payload payload' = true := by
  rw [← contentHash_eq_iff hsha hp hp']
  constructor
  · intro h
    have hpayload := get_of_contentHash hsha (held_ofFields (by simp [Json.Held, Json.ofNat]))
      (held_ofFields (by simp [Json.Held, Json.ofNat])) h "payload"
    simpa [Json.ofFields, Json.get, BTree.insertAll, BTree.get_insert] using hpayload
  · intro h
    rw [actionDigest, actionDigest, h]

/-- Canonical JSON and the hashes over it tell values apart, and not the orders of members. -/
theorem canonicalJson_identifies (hsha : Function.Injective env.sha256Hex) :
    (∀ v w : Json, v.Integral → w.Integral →
      (canonicalJson v = canonicalJson w ↔ sameValue v w = true)) ∧
    (∀ run run' node node' input input' segment segment' step step',
      idempotencyKey env run segment step node input =
        idempotencyKey env run' segment' step' node' input' →
      run = run' ∧ segment = segment' ∧ step = step' ∧ node = node' ∧ input = input') ∧
    (∀ v w : Json, v.Integral → w.Integral →
      (contentHash env.sha256Hex v = contentHash env.sha256Hex w ↔ sameValue v w = true)) ∧
    ∀ run step node definition payload payload', payload.Integral → payload'.Integral →
      (actionDigest env run step node definition payload =
        actionDigest env run step node definition payload' ↔ sameValue payload payload' = true) :=
  ⟨fun _ _ hv hw => canonicalJson_eq_iff hv hw,
    fun _ _ _ _ _ _ _ _ _ _ h => idempotencyKey_inj hsha h,
    fun _ _ hv hw => contentHash_eq_iff hsha hv hw,
    fun run step node definition _ _ hp hp' =>
      actionDigest_eq_iff hsha run step node definition hp hp'⟩

end Keys

/-- The texts hashed for an action whose input has two members, and their SHA-256. -/
def inputHashes : List (String × String) :=
  [("\x7b\"a\":[2],\"b\":1\x7d",
      "63c9663de90ee828bbda6cd9acf02d0c653986c1ec25aa239920641edc9a1de5"),
    ("\x7b\"definition\":\"dec2a8b0335b2b221d53254bc726bdd24e23ac790a7536d00e3ab856c977a5fb\"," ++
        "\"domain\":\"jamjet.approval.action.v3\",\"node\":\"a\"," ++
        "\"payload\":\"63c9663de90ee828bbda6cd9acf02d0c653986c1ec25aa239920641edc9a1de5\"," ++
        "\"run\":\"exec_00000000000000000000000000000000\",\"step\":0\x7d",
      "9a26c70d8b334a95ad8bd710bb0e50323c272109e7b95f616e1cfa0bdd9c5a6a")]

/-- The digest of this action does not depend on which member was put in first. -/
theorem canonicalJson_identifies_input :
    let _ : FloatText := bitsText
    let env : GuardEnv := { payEnv with sha256Hex := tableHash inputHashes }
    let digest := actionDigest env (runText env 0) 0 "a"
      "dec2a8b0335b2b221d53254bc726bdd24e23ac790a7536d00e3ab856c977a5fb"
    digest (.object [("b", Json.ofNat 1), ("a", .array [Json.ofNat 2])]) =
      digest (.object [("a", .array [Json.ofNat 2]), ("b", Json.ofNat 1)]) := by
  intro _ env digest
  have hsha : Function.Injective env.sha256Hex :=
    tableHash_injective inputHashes (by decide +kernel) (by decide +kernel)
  refine ((canonicalJson_identifies hsha).2.2.2 _ _ _ _ _ _ ?_ ?_).mpr ?_
  · simp [Integral, IntegralFields, IntegralItems, Json.ofNat]
  · simp [Integral, IntegralFields, IntegralItems, Json.ofNat]
  · simp [sameValue, sameMembers, sameItems, BTree.get, Json.ofNat]

end JamJet
