import JamJet.StateAgreement

/-! The merge of the materializer against the merge patch of RFC 7396, and what a patch leaves
alone. -/

namespace JamJet

namespace Materializer

mutual

/-- `MergePatch` of RFC 7396; a target that is not there is `none`. -/
def mergePatch (target : Option Json) : Json → Json
  | .object patch => .object (mergeMembers (match target with
      | some target => target.members
      | none => []) patch)
  | patch => patch

/-- Each name/value pair of an object patch: null removes the name, anything else is merged. -/
def mergeMembers (target : JsonMap) : List (String × Json) → JsonMap
  | [] => target
  | (name, .null) :: rest => mergeMembers (BTree.remove target name) rest
  | (name, value) :: rest =>
      mergeMembers (BTree.insert target name (mergePatch (BTree.get target name) value)) rest

end

end Materializer

namespace Json

/-- One step into a value. -/
inductive Step
  | member (key : String)
  | item (index : ℕ)
  deriving DecidableEq, Repr

/-- What a value holds at a place. -/
def valueAt : Json → List Step → Option Json
  | v, [] => some v
  | .object fields, .member key :: place => (BTree.get fields key).bind (valueAt · place)
  | .array items, .item index :: place => items[index]?.bind (valueAt · place)
  | _, _ => none

/-- A patch speaks of a place when it has a value there, or one above it that is not merged into:
anything but an object, or an object over the items of an array. -/
def Mentions : Json → List Step → Prop
  | _, [] => True
  | .object fields, .member key :: place => ∃ v, BTree.get fields key = some v ∧ v.Mentions place
  | _, _ => True

/-- A value a patch brings along inside an array. -/
def Brings (patch : Json) (place : List Step) (v : Json) : Prop :=
  patch.valueAt place = some v ∧ ∃ index, .item index ∈ place

end Json

namespace Materializer

open Json

theorem mergeFields_eq_mergeMembers {patch : List (String × Json)}
    (h : ∀ kv ∈ patch, kv.2 ≠ .null → ∀ target,
      jsonMergePatch (target.getD .null) kv.2 = mergePatch target kv.2) (fields : JsonMap) :
    mergeFields fields patch = mergeMembers fields patch := by
  induction patch generalizing fields with
  | nil => rw [mergeFields, mergeMembers]
  | cons kv patch ih =>
    obtain ⟨name, value⟩ := kv
    have hrest := ih fun kv hkv => h kv (List.mem_cons_of_mem _ hkv)
    have hvalue := h (name, value) List.mem_cons_self
    cases value with
    | null => rw [mergeFields, mergeMembers, hrest]
    | _ => simp only [mergeFields, mergeMembers, hrest, hvalue (by simp)]

theorem jsonMergePatch_eq_mergePatch (patch : Json) (hnull : patch ≠ .null)
    (target : Option Json) : jsonMergePatch (target.getD .null) patch = mergePatch target patch := by
  induction hsize : sizeOf patch using Nat.strong_induction_on generalizing patch target with
  | _ n ih =>
  subst hsize
  cases patch with
  | null => exact absurd rfl hnull
  | object fields =>
    have hfields := mergeFields_eq_mergeMembers fun kv hkv hne target =>
      ih _ (sizeOf_member_lt hkv) kv.2 hne target rfl
    rw [jsonMergePatch_object, hfields]
    cases target <;> simp [mergePatch, members]
  | _ => simp [jsonMergePatch, mergePatch]

theorem mergeMember_of_ne_null {v : Json} (h : v ≠ .null) (old : Option Json) :
    mergeMember old v = some (jsonMergePatch (old.getD .null) v) := by
  cases v with
  | null => exact absurd rfl h
  | _ => rfl

theorem jsonMergePatch_idem (patch : Json) (hp : patch.WellFormed) (target : Json)
    (ht : target.WellFormed) :
    jsonMergePatch (jsonMergePatch target patch) patch = jsonMergePatch target patch := by
  induction hsize : sizeOf patch using Nat.strong_induction_on generalizing patch target with
  | _ n ih =>
  subst hsize
  cases patch with
  | object fields =>
    obtain ⟨hsorted, hmembers⟩ := wellFormed_object.mp hp
    have hmerged := sorted_mergeFields ht.sorted fields
    simp only [jsonMergePatch_object, members_object, Json.object.injEq]
    refine (sorted_mergeFields hmerged fields).ext hmerged fun key => ?_
    rw [get_mergeFields hsorted, get_mergeFields hsorted]
    cases hget : BTree.get fields key with
    | none => rfl
    | some v =>
      by_cases hnull : v = .null
      · rw [hnull]
        rfl
      · have hmem := BTree.mem_of_get hget
        have hagain := ih _ (sizeOf_member_lt hmem) v (hmembers _ hmem) _ (ht.getD key) rfl
        simp only [mergeMember_of_ne_null hnull, Option.getD_some, hagain]
  | _ => simp [jsonMergePatch]

theorem valueAt_merged {fields : JsonMap} (hsorted : BTree.Sorted fields) (target : Json)
    (key : String) (place : List Step) :
    (jsonMergePatch target (.object fields)).valueAt (.member key :: place) =
      (match BTree.get fields key with
        | none => BTree.get target.members key
        | some v => mergeMember (BTree.get target.members key) v).bind (valueAt · place) := by
  rw [jsonMergePatch_object, valueAt]
  refine (congrArg (fun v => Option.bind v (valueAt · place)) (get_mergeFields hsorted key)).trans ?_
  cases BTree.get fields key <;> rfl

theorem valueAt_member (v : Json) (key : String) (place : List Step) :
    v.valueAt (.member key :: place) = (BTree.get v.members key).bind (valueAt · place) := by
  cases v <;> simp [valueAt, members]

theorem valueAt_jsonMergePatch {patch : Json} (hp : patch.WellFormed) {place : List Step}
    (hplace : ¬ patch.Mentions place) (target : Json) :
    (jsonMergePatch target patch).valueAt place = target.valueAt place := by
  induction place generalizing patch target with
  | nil => exact absurd (by simp [Mentions]) hplace
  | cons step place ih =>
    cases patch with
    | object fields =>
      cases step with
      | item index => exact absurd (by simp [Mentions]) hplace
      | member key =>
        obtain ⟨hsorted, hmembers⟩ := wellFormed_object.mp hp
        rw [valueAt_merged hsorted, valueAt_member]
        cases hget : BTree.get fields key with
        | none => rfl
        | some v =>
          have hv : ¬ v.Mentions place := fun h => hplace ⟨v, hget, h⟩
          have hne : v ≠ .null := by
            rintro rfl
            cases place <;> exact hv (by simp [Mentions])
          simp only [mergeMember_of_ne_null hne, Option.bind_some,
            ih (hmembers _ (BTree.mem_of_get hget)) hv]
          cases hold : BTree.get target.members key with
          | some old => rfl
          | none =>
            cases place with
            | nil => exact absurd (by simp [Mentions]) hv
            | cons => simp [valueAt]
    | _ => exact absurd (by simp [Mentions]) hplace

/-- A null in what the merge returns was one of the target's, at a place the patch does not speak
of, or lies in an array of the patch. -/
theorem null_of_jsonMergePatch {patch : Json} (hp : patch.WellFormed) (hnull : patch ≠ .null)
    {place : List Step} (target : Json)
    (h : (jsonMergePatch target patch).valueAt place = some .null) :
    (target.valueAt place = some .null ∧ ¬ patch.Mentions place) ∨ patch.Brings place .null := by
  induction place generalizing patch target with
  | nil =>
    cases patch with
    | null => exact absurd rfl hnull
    | _ => simp [jsonMergePatch, valueAt] at h
  | cons step place ih =>
    cases patch with
    | null => exact absurd rfl hnull
    | object fields =>
      cases step with
      | item index => simp [jsonMergePatch_object, valueAt] at h
      | member key =>
        obtain ⟨hsorted, hmembers⟩ := wellFormed_object.mp hp
        rw [valueAt_merged hsorted] at h
        cases hget : BTree.get fields key with
        | none =>
          rw [hget] at h
          exact .inl ⟨by rw [valueAt_member, h], by simp [Mentions, hget]⟩
        | some v =>
          by_cases hv : v = .null
          · simp [hget, hv, mergeMember] at h
          · simp only [hget, mergeMember_of_ne_null hv, Option.bind_some] at h
            rcases ih (hmembers _ (BTree.mem_of_get hget)) hv _ h with ⟨hold, hmentions⟩ | hbrings
            · refine .inl ⟨?_, by simpa [Mentions, hget] using hmentions⟩
              rw [valueAt_member]
              cases hold' : BTree.get target.members key with
              | some old => simpa [hold'] using hold
              | none =>
                cases place with
                | nil => exact absurd (by simp [Mentions]) hmentions
                | cons => simp [hold', valueAt] at hold
            · obtain ⟨hvalue, index, hindex⟩ := hbrings
              exact .inr ⟨by simpa [valueAt, hget] using hvalue, index, List.mem_cons_of_mem _ hindex⟩
    | array items =>
      cases step with
      | member key => simp [jsonMergePatch, valueAt] at h
      | item index => exact .inr ⟨by simpa [jsonMergePatch] using h, index, List.mem_cons_self⟩
    | _ => simp [jsonMergePatch, valueAt] at h

/-- The merge is that of RFC 7396; merging a patch again changes nothing; the nulls of the result
are the target's own or lie in an array the patch brings along; what the patch does not speak of
stays as it was. -/
theorem jsonMergePatch_rfc7396 {target patch : Json} (ht : target.WellFormed)
    (hp : patch.WellFormed) (hnull : patch ≠ .null) :
    jsonMergePatch target patch = mergePatch (some target) patch ∧
      jsonMergePatch (jsonMergePatch target patch) patch = jsonMergePatch target patch ∧
      (∀ place, (jsonMergePatch target patch).valueAt place = some .null →
        (target.valueAt place = some .null ∧ ¬ patch.Mentions place) ∨ patch.Brings place .null) ∧
      ∀ place, ¬ patch.Mentions place →
        (jsonMergePatch target patch).valueAt place = target.valueAt place := by
  have hrfc := jsonMergePatch_eq_mergePatch patch hnull (some target)
  have hidem := jsonMergePatch_idem patch hp target ht
  exact ⟨hrfc, hidem, fun _ h => null_of_jsonMergePatch hp hnull target h,
    fun _ h => valueAt_jsonMergePatch hp h target⟩

/-- A list whose item has a null member. -/
def listPatch : Json := .object [("list", .array [.object [("a", .null)]])]

theorem wellFormed_listPatch : listPatch.WellFormed := by
  simp [listPatch, WellFormed, WellFormedFields, WellFormedItems, BTree.Sorted]

theorem jsonMergePatch_rfc7396_list :
    jsonMergePatch .null listPatch = mergePatch (some .null) listPatch ∧
      jsonMergePatch (jsonMergePatch .null listPatch) listPatch = jsonMergePatch .null listPatch ∧
      (∀ place, (jsonMergePatch .null listPatch).valueAt place = some .null →
        (Json.null.valueAt place = some .null ∧ ¬ listPatch.Mentions place) ∨
          listPatch.Brings place .null) ∧
      ∀ place, ¬ listPatch.Mentions place →
        (jsonMergePatch .null listPatch).valueAt place = Json.null.valueAt place :=
  jsonMergePatch_rfc7396 (by simp [WellFormed]) wellFormed_listPatch (by simp [listPatch])

/-- An array is taken over as it is, the null members of its items too. -/
theorem null_in_array : ¬ ∀ target patch : Json, target.WellFormed → patch.WellFormed →
    patch ≠ .null → ∀ place, (jsonMergePatch target patch).valueAt place = some .null →
      target.valueAt place = some .null := by
  intro h
  have hplace := h (.object []) listPatch (by simp [WellFormed, WellFormedFields])
    wellFormed_listPatch (by simp [listPatch]) [.member "list", .item 0, .member "a"]
    (by simp [listPatch, jsonMergePatch, mergeFields, valueAt, BTree.insert, BTree.get])
  simp [valueAt] at hplace

end Materializer

end JamJet
