import Mathlib.Data.List.Chain
import Mathlib.Data.List.Nodup
import Mathlib.Data.List.Perm.Basic
import Mathlib.Logic.Relation
import Mathlib.Tactic.Common

/-! Walks along a relation, and lists in which every element names its predecessor by a mark. -/

namespace JamJet

section Walks

variable {α : Type} {R : α → α → Prop} {a : α} {walk : List α}

/-- A walk from an element without predecessor never comes back, when on the walk no element has two
predecessors. -/
theorem nodup_of_walk (hwalk : (a :: walk).IsChain R) (hsource : ∀ x ∈ a :: walk, ¬ R x a)
    (hinj : ∀ x ∈ a :: walk, ∀ y ∈ a :: walk, ∀ z, R x z → R y z → x = y) : (a :: walk).Nodup := by
  rw [List.nodup_iff_injective_getElem]
  have hplaces : ∀ (i j : ℕ) (hi : i < (a :: walk).length) (hj : j < (a :: walk).length),
      (a :: walk)[i] = (a :: walk)[j] → i = j := by
    intro i
    induction i with
    | zero =>
      intro j _ hj heq
      cases j with
      | zero => rfl
      | succ j =>
        have hstep := hwalk.getElem j hj
        rw [← heq] at hstep
        exact absurd hstep (hsource _ (List.getElem_mem _))
    | succ i ih =>
      intro j hi hj heq
      have hstep := hwalk.getElem i hi
      cases j with
      | zero =>
        rw [heq] at hstep
        exact absurd hstep (hsource _ (List.getElem_mem _))
      | succ j =>
        rw [heq] at hstep
        have hbefore := hinj _ (List.getElem_mem _) _ (List.getElem_mem _) _ hstep
          (hwalk.getElem j hj)
        rw [ih j (by omega) (by omega) hbefore]
  exact fun i j heq => Fin.ext (hplaces i j i.2 j.2 heq)

/-- Walks that part never meet an element twice: one that does goes round, and holds the successor
of each of its elements. -/
theorem closed_of_walk (hwalk : walk.IsChain R) (hdet : ∀ x ∈ walk, ∀ y z, R x y → R x z → y = z)
    (hdup : ¬ walk.Nodup) {x y : α} (hx : x ∈ walk) (hxy : R x y) : y ∈ walk := by
  obtain ⟨i, j, hij, hj, hmeet⟩ : ∃ i j, ∃ (_ : i < j) (_ : j < walk.length),
      walk[i] = walk[j] := by
    by_contra hnone
    refine hdup (List.nodup_iff_injective_getElem.mpr fun p q heq => Fin.ext ?_)
    by_contra hne
    rcases Nat.lt_or_gt_of_ne hne with hlt | hlt
    · exact hnone ⟨p, q, hlt, q.2, heq⟩
    · exact hnone ⟨q, p, hlt, p.2, heq.symm⟩
  have hround : ∀ (t : ℕ) (ht : j + t < walk.length), walk[i + t] = walk[j + t] := by
    intro t
    induction t with
    | zero => exact fun _ => hmeet
    | succ t ih =>
      intro ht
      have hleft := hwalk.getElem (i + t) (by omega)
      rw [ih (by omega)] at hleft
      exact hdet _ (List.getElem_mem _) _ _ hleft (hwalk.getElem (j + t) (by omega))
  obtain ⟨k, hk, rfl⟩ := List.getElem_of_mem hx
  by_cases hlast : k + 1 < walk.length
  · rw [hdet _ hx _ _ hxy (hwalk.getElem k hlast)]
    exact List.getElem_mem _
  · have hsame : walk[i + (k - j)] = walk[k] := by
      have := hround (k - j) (by omega)
      simpa only [show j + (k - j) = k by omega] using this
    rw [← hsame] at hxy
    rw [hdet _ (List.getElem_mem _) _ _ hxy (hwalk.getElem (i + (k - j)) (by omega))]
    exact List.getElem_mem _

end Walks

namespace HashChain

variable {α κ : Type} (prev mark : α → Option κ)

/-- The first element names `p`, and each later one the mark of the one before it. -/
def Linked (p : Option κ) : List α → Prop
  | [] => True
  | x :: rest => prev x = p ∧ Linked (mark x) rest

/-- The mark of the last element. -/
def lastMark (p : Option κ) : List α → Option κ
  | [] => p
  | x :: rest => lastMark (mark x) rest

variable {prev mark} {p : Option κ} {xs ys : List α} {x y : α}

theorem lastMark_append (xs : List α) (x : α) : lastMark mark p (xs ++ [x]) = mark x := by
  induction xs generalizing p with
  | nil => rfl
  | cons y ys ih => exact ih

theorem linked_append :
    Linked prev mark p (xs ++ [x]) ↔ Linked prev mark p xs ∧ prev x = lastMark mark p xs := by
  induction xs generalizing p with
  | nil => simp [Linked, lastMark]
  | cons y ys ih =>
    have hstep := @ih (mark y)
    simp only [List.cons_append, Linked, lastMark, hstep, and_assoc]

theorem Linked.prev_of_mem (h : Linked prev mark p xs) (hy : y ∈ xs) :
    prev y = p ∨ ∃ z ∈ xs, prev y = mark z := by
  induction xs generalizing p with
  | nil => cases hy
  | cons x xs ih =>
    obtain ⟨hx, hrest⟩ := h
    rcases List.mem_cons.mp hy with rfl | hy
    · exact .inl hx
    rcases ih hrest hy with hmark | ⟨z, hz, hmark⟩
    · exact .inr ⟨x, by simp, hmark⟩
    · exact .inr ⟨z, by simp [hz], hmark⟩

/-- Marks that tell the elements apart, and are new. -/
structure Marked (mark : α → Option κ) (p : Option κ) (xs : List α) : Prop where
  nodup : xs.Nodup
  inj : ∀ a ∈ xs, ∀ b ∈ xs, mark a = mark b → a = b
  fresh : ∀ a ∈ xs, mark a ≠ p

theorem Marked.tail (h : Marked mark p (x :: xs)) : Marked mark (mark x) xs where
  nodup := (List.nodup_cons.mp h.nodup).2
  inj a ha b hb := h.inj a (by simp [ha]) b (by simp [hb])
  fresh a ha hmark := by
    have heq := h.inj a (by simp [ha]) x (by simp) hmark
    exact (List.nodup_cons.mp h.nodup).1 (heq ▸ ha)

theorem Marked.of_perm (h : Marked mark p xs) (hperm : ys.Perm xs) : Marked mark p ys where
  nodup := hperm.nodup_iff.mpr h.nodup
  inj a ha b hb := h.inj a (hperm.mem_iff.mp ha) b (hperm.mem_iff.mp hb)
  fresh a ha := h.fresh a (hperm.mem_iff.mp ha)

theorem Linked.eq_head (h : Linked prev mark p (x :: xs)) (hm : Marked mark p (x :: xs))
    (hy : y ∈ x :: xs) (hprev : prev y = p) : y = x := by
  obtain ⟨-, hrest⟩ := h
  rcases List.mem_cons.mp hy with rfl | hy
  · rfl
  rcases hrest.prev_of_mem hy with hmark | ⟨z, hz, hmark⟩
  · exact absurd (hmark.symm.trans hprev) (hm.fresh x (by simp))
  · exact absurd (hmark.symm.trans hprev) (hm.fresh z (by simp [hz]))

theorem Linked.unique (hx : Linked prev mark p xs) (hy : Linked prev mark p ys)
    (hperm : ys.Perm xs) (hm : Marked mark p xs) : ys = xs := by
  induction xs generalizing p ys with
  | nil => exact List.perm_nil.mp hperm
  | cons x xs ih =>
    cases ys with
    | nil => exact absurd hperm.symm (List.not_perm_cons_nil)
    | cons y ys =>
      have hhead : y = x := hx.eq_head hm (hperm.mem_iff.mp (by simp)) hy.1
      subst hhead
      rw [ih hx.2 hy.2 ((List.perm_cons y).mp hperm) hm.tail]

theorem Linked.prev_inj (h : Linked prev mark p xs) (hm : Marked mark p xs) :
    ∀ a ∈ xs, ∀ b ∈ xs, prev a = prev b → a = b := by
  induction xs generalizing p with
  | nil => exact nofun
  | cons x xs ih =>
    intro a ha b hb hab
    rcases List.mem_cons.mp ha with rfl | ha'
    · exact (h.eq_head hm hb (hab.symm.trans h.1)).symm
    rcases List.mem_cons.mp hb with rfl | hb'
    · exact h.eq_head hm ha (hab.trans h.1)
    · exact ih h.2 hm.tail a ha' b hb' hab

/-- The last mark determines the chain: elements of one mark name one mark before them. -/
theorem Linked.forall₂_of_lastMark {R : α → α → Prop} (hx : Linked prev mark none xs)
    (hy : Linked prev mark none ys) (hxmark : ∀ x ∈ xs, mark x ≠ none)
    (hymark : ∀ y ∈ ys, mark y ≠ none)
    (hR : ∀ x ∈ xs, ∀ y ∈ ys, mark x = mark y → prev x = prev y ∧ R x y)
    (hlast : lastMark mark none xs = lastMark mark none ys) : List.Forall₂ R xs ys := by
  induction xs using List.reverseRecOn generalizing ys with
  | nil =>
    rcases List.eq_nil_or_concat ys with rfl | ⟨ys, y, rfl⟩
    · exact .nil
    · rw [List.concat_eq_append, lastMark_append] at hlast
      exact absurd hlast.symm (hymark y (by simp))
  | append_singleton xs x ih =>
    rcases List.eq_nil_or_concat ys with rfl | ⟨ys, y, rfl⟩
    · rw [lastMark_append] at hlast
      exact absurd hlast (hxmark x (by simp))
    · rw [List.concat_eq_append] at *
      rw [lastMark_append, lastMark_append] at hlast
      obtain ⟨hxs, hprevx⟩ := linked_append.mp hx
      obtain ⟨hys, hprevy⟩ := linked_append.mp hy
      obtain ⟨hprev, hxy⟩ := hR x (by simp) y (by simp) hlast
      have hrest := ih hxs hys (fun a ha => hxmark a (by simp [ha])) (fun b hb => hymark b (by simp [hb]))
        (fun a ha b hb => hR a (by simp [ha]) b (by simp [hb])) (by rw [← hprevx, hprev, hprevy])
      exact List.rel_append hrest (.cons hxy .nil)

theorem lastMark_of_forall₂ {R : α → α → Prop} (hmark : ∀ x y, R x y → mark x = mark y)
    (h : List.Forall₂ R xs ys) : lastMark mark p xs = lastMark mark p ys := by
  induction h generalizing p with
  | nil => rfl
  | cons hxy _ ih =>
    simp only [lastMark, hmark _ _ hxy]
    exact ih

end HashChain

end JamJet
