import Mathlib.Algebra.Order.Group.Basic
import Mathlib.Data.List.Sort

/-! Rankings, best first: what it takes for the first to lead the second, and what the others of a
list cut off behind some entry are. -/

namespace Ranking

/-- A subtraction, rounded or not, that follows the order. -/
class MonotoneSub (F : Type) [LE F] [Sub F] : Prop where
  sub_le_sub : ∀ {a a' b b' : F}, a ≤ a' → b' ≤ b → a - b ≤ a' - b'

instance {F : Type} [AddCommGroup F] [LinearOrder F] [IsOrderedAddMonoid F] : MonotoneSub F where
  sub_le_sub h h' := sub_le_sub h h'

section Rank

variable {α F : Type} [LinearOrder F] {value : α → F} {xs : List α}

/-- By descending value; entries of one value stay in order. -/
def rank (value : α → F) (xs : List α) : List α := xs.insertionSort fun a b => value b ≤ value a

theorem rank_perm : (rank value xs).Perm xs := List.perm_insertionSort _ xs

theorem rank_pairwise : (rank value xs).Pairwise fun a b => value b ≤ value a := by
  have htotal : Std.Total fun a b : α => value b ≤ value a := ⟨fun a b => le_total _ _⟩
  have htrans : IsTrans α fun a b => value b ≤ value a := ⟨fun _ _ _ h h' => h'.trans h⟩
  exact List.pairwise_insertionSort _ xs

theorem rank_map {β : Type} (f : β → α) (ys : List β) :
    rank value (ys.map f) = (rank (fun y => value (f y)) ys).map f :=
  (List.map_insertionSort (fun a b => value (f b) ≤ value (f a)) (fun a b => value b ≤ value a) f ys
    fun _ _ _ _ => Iff.rfl).symm

/-- The first leads the second by more than this exactly if some entry leads all others by it. -/
theorem lead_iff [Sub F] [MonotoneSub F] {first second : α} {rest : List α}
    (h : rank value xs = first :: second :: rest) (t : F) : t < value first - value second ↔
      ∃ c others, xs.Perm (c :: others) ∧ ∀ d ∈ others, t < value c - value d := by
  have hperm : (first :: second :: rest).Perm xs := h ▸ rank_perm
  have hpairwise : (first :: second :: rest).Pairwise fun a b => value b ≤ value a :=
    h ▸ rank_pairwise
  obtain ⟨hfirst, hrest⟩ := List.pairwise_cons.mp hpairwise
  constructor
  · intro hlead
    refine ⟨first, second :: rest, hperm.symm, fun d hd => hlead.trans_le ?_⟩
    refine MonotoneSub.sub_le_sub le_rfl ?_
    rcases List.mem_cons.mp hd with rfl | hd
    · exact le_rfl
    · exact (List.pairwise_cons.mp hrest).1 d hd
  · rintro ⟨c, others, hothers, hlead⟩
    have hsame := hperm.trans hothers
    by_cases hc : c = first
    · subst hc
      exact hlead second (hsame.cons_inv.subset List.mem_cons_self)
    · -- an entry behind the first one leads it by less than nothing
      have hmem : first ∈ others :=
        (List.mem_cons.mp (hsame.subset List.mem_cons_self)).resolve_left (Ne.symm hc)
      have hle : value c ≤ value first := by
        rcases List.mem_cons.mp (hsame.symm.subset List.mem_cons_self) with rfl | hmem'
        · exact le_rfl
        · exact hfirst c hmem'
      exact (hlead first hmem).trans_le
        (MonotoneSub.sub_le_sub hle (hfirst second List.mem_cons_self))

end Rank

section Others

variable {α : Type} [DecidableEq α] {xs : List α} {c : α} {n : ℕ}

/-- The entries before the cut, without the chosen one, are all others exactly if nothing is cut. -/
theorem count_others_iff (hnodup : xs.Nodup) (hc : c ∈ xs.take n) :
    (∀ x ∈ xs, x ≠ c → ((xs.take n).filter (· ≠ c)).count x = 1) ↔ xs.length ≤ n := by
  constructor
  · intro h
    by_contra hcut
    have hlt : n < xs.length := not_le.mp hcut
    have hdrop : xs[n] ∈ xs.drop n := by
      rw [List.drop_eq_getElem_cons hlt]
      exact List.mem_cons_self
    have hnot : xs[n] ∉ xs.take n := fun hmem =>
      List.disjoint_take_drop hnodup le_rfl hmem hdrop
    have hne : xs[n] ≠ c := fun heq => hnot (heq ▸ hc)
    have hone := h xs[n] (List.getElem_mem hlt) hne
    rw [List.count_eq_zero_of_not_mem fun hmem => hnot (List.mem_of_mem_filter hmem)] at hone
    cases hone
  · intro hall x hx hne
    rw [List.take_of_length_le hall]
    exact List.count_eq_one_of_mem (hnodup.filter _) (List.mem_filter.mpr ⟨hx, by simpa using hne⟩)

theorem filter_ne_head {xs : List α} (h : (c :: xs).Nodup) :
    (c :: xs).filter (· ≠ c) = xs := by
  have hnot : c ∉ xs := (List.nodup_cons.mp h).1
  rw [List.filter_cons_of_neg (by simp), List.filter_eq_self]
  intro x hx
  simpa using fun heq : x = c => hnot (heq ▸ hx)

end Others

end Ranking
