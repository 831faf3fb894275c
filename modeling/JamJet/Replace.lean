import Mathlib.Data.List.Chain
import Mathlib.Data.List.Infix
import Mathlib.Tactic.Common

/-! Replacing the occurrences of a pattern in a list, from the left and without overlap, where the
items are compared by a key. -/

namespace JamJet.Replace

variable {α β : Type} [DecidableEq β]

/-- The items still to be passed over are counted; the pattern is not empty. -/
def replaceFrom (key : α → β) (pattern : List β) (tag : List α) : ℕ → List α → List α
  | _, [] => []
  | 0, x :: rest =>
      if pattern.isPrefixOf ((x :: rest).map key) then
        tag ++ replaceFrom key pattern tag (pattern.length - 1) rest
      else x :: replaceFrom key pattern tag 0 rest
  | skip + 1, _ :: rest => replaceFrom key pattern tag skip rest

def replace (key : α → β) (pattern : List β) (tag text : List α) : List α :=
  replaceFrom key pattern tag 0 text

variable {key : α → β} {pattern : List β} {tag : List α}

section Overlap

variable {before stretch after a w b : List α}

/-- Two stretches of one list, of which the second starts first and ends within the other. -/
theorem overlap_split (h : before ++ stretch ++ after = a ++ w ++ b) (hstart : a.length < before.length)
    (hover : before.length < a.length + w.length)
    (hend : a.length + w.length < before.length + stretch.length) :
    ∃ x y z, x ≠ [] ∧ y ≠ [] ∧ z ≠ [] ∧ w = x ++ y ∧ stretch = y ++ z := by
  rw [List.append_assoc, List.append_assoc] at h
  obtain ⟨x, rfl⟩ : ∃ x, before = a ++ x :=
    (List.prefix_of_prefix_length_le ⟨_, h.symm⟩ ⟨_, rfl⟩ hstart.le).imp fun _ => Eq.symm
  rw [List.append_assoc] at h
  have hx := List.append_cancel_left h
  rw [List.length_append] at hstart hover hend
  obtain ⟨y, rfl⟩ : ∃ y, w = x ++ y :=
    (List.prefix_of_prefix_length_le ⟨_, hx⟩ ⟨_, rfl⟩ (by omega)).imp fun _ => Eq.symm
  rw [List.append_assoc] at hx
  have hy := List.append_cancel_left hx
  rw [List.length_append] at hover hend
  obtain ⟨z, rfl⟩ : ∃ z, stretch = y ++ z :=
    (List.prefix_of_prefix_length_le ⟨_, hy.symm⟩ ⟨_, rfl⟩ (by omega)).imp fun _ => Eq.symm
  rw [List.length_append] at hend
  refine ⟨x, y, z, ?_, ?_, ?_, rfl, rfl⟩
  all_goals
    refine List.ne_nil_of_length_pos ?_
    omega

theorem mem_of_within (h : before ++ stretch ++ after = a ++ w ++ b) (hstart : before.length ≤ a.length)
    (hend : a.length + w.length ≤ before.length + stretch.length) {x : α} (hx : x ∈ w) :
    x ∈ stretch := by
  have hprefix : a ++ w <+: before ++ stretch := by
    refine List.prefix_of_prefix_length_le ⟨b, h.symm⟩ ⟨after, rfl⟩ ?_
    rw [List.length_append, List.length_append]
    exact hend
  obtain ⟨y, rfl⟩ : ∃ y, a = before ++ y := by
    refine (List.prefix_of_prefix_length_le ⟨stretch, rfl⟩ ?_ hstart).imp fun _ => Eq.symm
    exact (List.prefix_append a w).trans hprefix
  obtain ⟨z, hz⟩ := hprefix
  rw [List.append_assoc, List.append_assoc] at hz
  rw [← List.append_cancel_left hz]
  exact List.mem_append_right _ (List.mem_append_left _ hx)

theorem getElem?_overlap (h : before ++ stretch ++ after = a ++ w ++ b) {k : ℕ}
    (hk : before.length ≤ k) (hk' : k < before.length + stretch.length) (hak : a.length ≤ k)
    (hak' : k < a.length + w.length) : stretch[k - before.length]? = w[k - a.length]? := by
  have hboth := congrArg (fun l => l[k]?) h
  simpa only [List.append_assoc, List.getElem?_append_right hk, List.getElem?_append_right hak,
    List.getElem?_append_left (show k - before.length < stretch.length by omega),
    List.getElem?_append_left (show k - a.length < w.length by omega)] using hboth

end Overlap

/-- A replacement, part by part. -/
inductive Replaced (key : α → β) (pattern : List β) (tag : List α) : List α → List α → Prop
  | done : Replaced key pattern tag [] []
  | hit {w rest out : List α} : w.map key = pattern → w ≠ [] → Replaced key pattern tag rest out →
      Replaced key pattern tag (w ++ rest) (tag ++ out)
  | miss {x : α} {rest out : List α} : ¬ pattern <+: (x :: rest).map key →
      Replaced key pattern tag rest out → Replaced key pattern tag (x :: rest) (x :: out)

theorem replaceFrom_eq_drop (skip : ℕ) (text : List α) :
    replaceFrom key pattern tag skip text = replaceFrom key pattern tag 0 (text.drop skip) := by
  induction text generalizing skip with
  | nil => cases skip <;> rfl
  | cons x rest ih =>
    cases skip with
    | zero => rfl
    | succ skip => exact ih skip

theorem replaced (key : α → β) (tag : List α) (hpattern : pattern ≠ []) (text : List α) :
    Replaced key pattern tag text (replace key pattern tag text) := by
  induction hlength : text.length using Nat.strong_induction_on generalizing text with
  | _ n ih =>
    cases text with
    | nil => exact .done
    | cons x rest =>
      unfold replace replaceFrom
      split
      · rename_i hmatch
        obtain ⟨w, ⟨after, hw⟩, hkey⟩ :=
          List.prefix_map_iff.mp (List.isPrefixOf_iff_prefix.mp hmatch)
        cases w with
        | nil => exact absurd hkey hpattern
        | cons y w =>
          obtain ⟨rfl, hrest⟩ := List.cons.inj hw
          have hafter : rest.drop (pattern.length - 1) = after := by
            rw [hkey, ← hrest, List.map_cons, List.length_cons, List.length_map,
              Nat.add_sub_cancel]
            exact List.drop_left
          rw [replaceFrom_eq_drop, hafter, ← hw]
          refine .hit hkey.symm (List.cons_ne_nil _ _) (ih after.length ?_ after rfl)
          rw [← hlength, ← hw, List.length_append, List.length_cons]
          omega
      · rename_i hmatch
        refine .miss (fun hprefix => hmatch (List.isPrefixOf_iff_prefix.mpr hprefix)) ?_
        exact ih rest.length (by rw [← hlength]; exact Nat.lt_succ_self _) rest rfl

namespace Replaced

variable {text out : List α}

omit [DecidableEq β] in
theorem mem (h : Replaced key pattern tag text out) {x : α} (hx : x ∈ out) : x ∈ text ∨ x ∈ tag := by
  induction h with
  | done => exact .inl hx
  | hit _ _ _ ih =>
    rcases List.mem_append.mp hx with hx | hx
    · exact .inr hx
    · exact (ih hx).imp_left (List.mem_append_right _)
  | miss _ _ ih =>
    rcases List.mem_cons.mp hx with rfl | hx
    · exact .inl List.mem_cons_self
    · exact (ih hx).imp_left (List.mem_cons_of_mem _)

omit [DecidableEq β] in
theorem sublist {γ : Type} {f : α → Option γ} (h : Replaced key pattern tag text out)
    (htag : tag.filterMap f = []) : (out.filterMap f).Sublist (text.filterMap f) := by
  induction h with
  | done => exact List.Sublist.refl _
  | hit _ _ _ ih =>
    rw [List.filterMap_append, List.filterMap_append, htag, List.nil_append]
    exact ih.trans (List.sublist_append_right _ _)
  | miss _ _ ih =>
    rw [List.filterMap_cons, List.filterMap_cons]
    split
    · exact ih
    · exact ih.cons_cons _

omit [DecidableEq β] in
/-- A relation of neighbours that every item has to the tag's first and the tag's last has to every
item. -/
theorem isChain {R : α → α → Prop} (h : Replaced key pattern tag text out) (hne : tag ≠ [])
    (htag : tag.IsChain R)
    (hfirst : ∀ x, ∀ y ∈ tag.head?, R x y) (hlast : ∀ x ∈ tag.getLast?, ∀ y, R x y)
    (htext : text.IsChain R) :
    out.IsChain R ∧ ∀ x, (∀ y ∈ text.head?, R x y) → ∀ y ∈ out.head?, R x y := by
  induction h with
  | done => exact ⟨htext, fun _ hx => hx⟩
  | @hit w rest out _ _ _ ih =>
    obtain ⟨hout, -⟩ := ih htext.right_of_append
    refine ⟨htag.append hout fun x hx y _ => hlast x hx y, fun x _ y hy => ?_⟩
    rw [List.head?_append_of_ne_nil _ hne] at hy
    exact hfirst x y hy
  | @miss x rest out _ _ ih =>
    obtain ⟨hout, hhead⟩ := ih htext.tail
    refine ⟨List.isChain_cons.mpr ⟨?_, hout⟩, fun z hz => hz⟩
    exact hhead x (List.isChain_cons.mp htext).1

omit [DecidableEq β] in
/-- A stretch in which no match starts stays. -/
theorem keeps {stretch after : List α} (h : Replaced key pattern tag (stretch ++ after) out)
    (hno : ∀ a b, stretch = a ++ b → b ≠ [] → ¬ pattern <+: (b ++ after).map key) :
    ∃ out', out = stretch ++ out' := by
  induction stretch generalizing out with
  | nil => exact ⟨out, rfl⟩
  | cons x stretch ih =>
    have hhead := hno [] (x :: stretch) rfl (List.cons_ne_nil _ _)
    generalize htext : x :: stretch ++ after = text at h
    cases h with
    | done => cases htext
    | @hit w rest out hw _ _ =>
      refine absurd ?_ hhead
      rw [htext, List.map_append, hw]
      exact List.prefix_append _ _
    | miss _ hrest =>
      cases htext
      obtain ⟨out', rfl⟩ := ih hrest fun a b hab hb => hno (x :: a) b (by rw [hab]; rfl) hb
      exact ⟨out', rfl⟩

/-- Every match of the pattern is clear of a stretch of the text, or covers it. -/
def Clear (key : α → β) (pattern : List β) (before stretch after : List α) : Prop :=
  ∀ a w b, before ++ stretch ++ after = a ++ w ++ b → w.map key = pattern →
    a.length + w.length ≤ before.length ∨ before.length + stretch.length ≤ a.length ∨
      (a.length ≤ before.length ∧ before.length + stretch.length ≤ a.length + w.length)

omit [DecidableEq β] in
/-- Such a stretch is replaced with all its items or stays with all of them; it goes when it is a
match itself. -/
theorem intact_or_gone {before stretch after : List α} (h : Replaced key pattern tag text out)
    (hpattern : pattern ≠ []) (htext : text = before ++ stretch ++ after) (hne : stretch ≠ [])
    (hclear : Clear key pattern before stretch after) :
    (stretch.map key ≠ pattern ∧ ∃ before' after', out = before' ++ stretch ++ after') ∨
      ∀ x ∈ out, x ∈ before ∨ x ∈ after ∨ x ∈ tag := by
  have hpos : 0 < stretch.length := List.length_pos_of_ne_nil hne
  induction h generalizing before with
  | done =>
    have hlength := congrArg List.length htext
    simp only [List.length_nil, List.length_append] at hlength
    omega
  | @hit w rest out hw hwne hrest ih =>
    rcases hclear [] w rest htext.symm hw with hbefore | hempty | ⟨-, hcovers⟩
    · -- the match lies in front of the stretch
      simp only [List.length_nil, Nat.zero_add] at hbefore
      obtain ⟨before', rfl⟩ : ∃ before', before = w ++ before' := by
        rw [List.append_assoc] at htext
        exact (List.prefix_of_prefix_length_le ⟨rest, htext⟩ ⟨_, rfl⟩ hbefore).imp fun _ => Eq.symm
      rw [List.append_assoc, List.append_assoc] at htext
      have hrest' := List.append_cancel_left htext
      rw [← List.append_assoc] at hrest'
      have hclear' : Clear key pattern before' stretch after := by
        intro a v b hab hv
        have hwhole : w ++ before' ++ stretch ++ after = w ++ a ++ v ++ b := by
          simp only [List.append_assoc] at hab ⊢
          rw [hab]
        have hshift := hclear (w ++ a) v b hwhole hv
        simp only [List.length_append] at hshift
        omega
      rcases ih hrest' hclear' with ⟨hmatch, front, back, rfl⟩ | hgone
      · exact .inl ⟨hmatch, tag ++ front, back, by simp⟩
      · refine .inr fun x hx => ?_
        rcases List.mem_append.mp hx with hx | hx
        · exact .inr (.inr hx)
        · exact (hgone x hx).imp_left (List.mem_append_right _)
    · simp only [List.length_nil] at hempty
      omega
    · -- the match covers it
      simp only [List.length_nil, Nat.zero_add] at hcovers
      obtain ⟨after', rfl⟩ : ∃ after', w = before ++ stretch ++ after' := by
        have hwhole : before ++ stretch <+: w ++ rest := ⟨after, htext.symm⟩
        refine (List.prefix_of_prefix_length_le hwhole ⟨rest, rfl⟩ ?_).imp fun _ => Eq.symm
        rwa [List.length_append]
      rw [List.append_assoc _ after'] at htext
      have hafter : after' ++ rest = after := List.append_cancel_left htext
      refine .inr fun x hx => ?_
      rcases List.mem_append.mp hx with hx | hx
      · exact .inr (.inr hx)
      · exact (hrest.mem hx).elim
          (fun hx => .inr (.inl (hafter ▸ List.mem_append_right _ hx))) fun hx => .inr (.inr hx)
  | @miss y rest out hhead hrest ih =>
    cases before with
    | cons _ before =>
      cases htext
      have hclear' : Clear key pattern before stretch after := by
        intro a v b hab hv
        have hshift := hclear (y :: a) v b (by simp only [List.cons_append, hab]) hv
        simp only [List.length_cons] at hshift
        omega
      rcases ih rfl hclear' with ⟨hmatch, front, back, rfl⟩ | hgone
      · exact .inl ⟨hmatch, y :: front, back, rfl⟩
      · refine .inr fun x hx => ?_
        rcases List.mem_cons.mp hx with rfl | hx
        · exact .inl List.mem_cons_self
        · exact (hgone x hx).imp_left (List.mem_cons_of_mem _)
    | nil =>
      -- no match starts at the stretch or within it
      have hno : ∀ a b, stretch = a ++ b → b ≠ [] → ¬ pattern <+: (b ++ after).map key := by
        intro a b hab hb hprefix
        obtain ⟨w, ⟨c, hw⟩, hkey⟩ := List.prefix_map_iff.mp hprefix
        have hwpos : 0 < w.length := by
          rw [← List.length_map key, ← hkey]
          exact List.length_pos_of_ne_nil hpattern
        have hbpos := List.length_pos_of_ne_nil hb
        have hmatch := hclear a w c (by rw [hab]; simp [← hw]) hkey.symm
        have hlength := congrArg List.length hab
        simp only [List.length_nil, List.length_append] at hmatch hlength
        have hstart : a = [] := List.eq_nil_of_length_eq_zero (by omega)
        rw [hstart, List.nil_append] at hab
        rw [← hab, ← List.nil_append stretch, ← htext] at hprefix
        exact hhead hprefix
      obtain ⟨out', hout⟩ := keeps (htext ▸ Replaced.miss hhead hrest) hno
      refine .inl ⟨fun hmatch => ?_, [], out', hout⟩
      refine hno [] stretch rfl hne ?_
      rw [List.map_append, hmatch]
      exact List.prefix_append _ _

end Replaced

end JamJet.Replace
