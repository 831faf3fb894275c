import Mathlib.Data.List.Nodup
import Mathlib.Data.List.Perm.Subperm
import Mathlib.Order.Lattice.Nat
import Mathlib.Tactic.Common

/-! The best of what may be chosen, read off a ranking: only its first entries are looked at, and
those that may not be chosen are passed over. -/

namespace JamJet.TopK

variable {α β σ κ : Type} [LinearOrder σ]

/-- The `k` best of those that may be chosen, or all of them when there are fewer. -/
structure Best (k : ℕ) (eligible : List β) (value : β → σ) (chosen : List β) : Prop where
  nodup : chosen.Nodup
  subset : chosen ⊆ eligible
  count : chosen.length = min k eligible.length
  best : ∀ a ∈ chosen, ∀ b ∈ eligible, b ∉ chosen → value b ≤ value a

/-- A ranking, best first, of entries some of which are found to be eligible. -/
structure Ranks (ranking : List α) (score : α → σ) (found : α → Option β)
    (eligible : List β) (value : β → σ) : Prop where
  sorted : ranking.Pairwise fun x y => score y ≤ score x
  nodup : (ranking.filterMap found).Nodup
  sound : ∀ x ∈ ranking, ∀ b, found x = some b → b ∈ eligible ∧ value b = score x

section Best

variable {ranking : List α} {score : α → σ} {found : α → Option β}
  {eligible : List β} {value : β → σ}

omit [LinearOrder σ] in
theorem mem_filterMap_append {xs ys : List α} {b : β} :
    b ∈ (xs ++ ys).filterMap found ↔ b ∈ xs.filterMap found ∨ b ∈ ys.filterMap found := by
  rw [List.filterMap_append, List.mem_append]

/-- What the first `k` entries give is the best there is if they are all eligible and none that is
not ranked beats them, or if they give everything; and in no other case. -/
theorem Ranks.best_iff (h : Ranks ranking score found eligible value) (heligible : eligible.Nodup)
    (k : ℕ) : Best k eligible value ((ranking.take k).filterMap found) ↔
      (k ≤ ranking.length ∧ (∀ x ∈ ranking.take k, (found x).isSome = true) ∧
        ∀ b ∈ eligible, b ∉ ranking.filterMap found → ∀ x ∈ ranking.take k, value b ≤ score x) ∨
      ∀ b ∈ eligible, b ∈ (ranking.take k).filterMap found := by
  have hsplit : ranking = ranking.take k ++ ranking.drop k := (List.take_append_drop k ranking).symm
  have hnodup : ((ranking.take k).filterMap found).Nodup :=
    h.nodup.sublist ((List.take_sublist k ranking).filterMap found)
  have hsubset : (ranking.take k).filterMap found ⊆ eligible := by
    intro b hb
    obtain ⟨x, hx, hfound⟩ := List.mem_filterMap.mp hb
    exact (h.sound x (List.mem_of_mem_take hx) b hfound).1
  have hlength : ((ranking.take k).filterMap found).length ≤ (ranking.take k).length :=
    List.length_filterMap_le _ _
  have htake : (ranking.take k).length ≤ k := List.length_take_le k ranking
  constructor
  · intro hbest
    have hcount := hbest.count
    by_cases hall : k ≤ eligible.length
    · left
      rw [Nat.min_eq_left hall] at hcount
      have hfull : ((ranking.take k).filterMap found).length = (ranking.take k).length := by omega
      have hsome := List.filterMap_length_eq_length.mp hfull
      refine ⟨?_, hsome, fun b hb hunranked x hx => ?_⟩
      · rw [List.length_take] at htake hfull
        omega
      · obtain ⟨a, ha⟩ := Option.isSome_iff_exists.mp (hsome x hx)
        have hmem : a ∈ (ranking.take k).filterMap found := List.mem_filterMap.mpr ⟨x, hx, ha⟩
        have hout : b ∉ (ranking.take k).filterMap found := fun hb' =>
          hunranked (((List.take_sublist k ranking).filterMap found).subset hb')
        rw [← (h.sound x (List.mem_of_mem_take hx) a ha).2]
        exact hbest.best a hmem b hb hout
    · right
      rw [Nat.min_eq_right (by omega)] at hcount
      have hperm := (List.subperm_of_subset hnodup hsubset).perm_of_length_le hcount.ge
      exact fun b hb => hperm.mem_iff.mpr hb
  · rintro (⟨hk, hsome, hunranked⟩ | hall)
    · have hfull := List.filterMap_length_eq_length.mpr hsome
      have hk' : (ranking.take k).length = k := by rw [List.length_take, Nat.min_eq_left hk]
      have hle := (List.subperm_of_subset hnodup hsubset).length_le
      refine ⟨hnodup, hsubset, by omega, fun a ha b hb hout => ?_⟩
      obtain ⟨x, hx, hax⟩ := List.mem_filterMap.mp ha
      rw [(h.sound x (List.mem_of_mem_take hx) a hax).2]
      by_cases hranked : b ∈ ranking.filterMap found
      · rw [hsplit, mem_filterMap_append] at hranked
        obtain ⟨y, hy, hby⟩ := List.mem_filterMap.mp (hranked.resolve_left hout)
        rw [(h.sound y (List.mem_of_mem_drop hy) b hby).2]
        have hsorted := h.sorted
        rw [hsplit, List.pairwise_append] at hsorted
        exact hsorted.2.2 x hx y hy
      · exact hunranked b hb hranked x hx
    · have hperm := (List.perm_ext_iff_of_nodup hnodup heligible).mpr fun b =>
        ⟨fun hb => hsubset hb, fun hb => hall b hb⟩
      have hcount := hperm.length_eq
      refine ⟨hnodup, hsubset, by omega, fun a _ b hb hout => absurd (hall b hb) hout⟩

end Best

section Removal

variable [DecidableEq κ] {key : α → κ} {ranking : List α}

theorem filter_ne_of_not_mem {xs : List α} {gone : κ} (h : gone ∉ xs.map key) :
    xs.filter (fun x => key x ≠ gone) = xs :=
  List.filter_eq_self.mpr fun x hx => by
    have hne : key x ≠ gone := fun heq => h (heq ▸ List.mem_map_of_mem hx)
    simpa using hne

/-- The entry after the first `k` moves up when one of them is removed. -/
theorem take_filter_ne {xs ys : List α} {x : α} (k : ℕ)
    (hnodup : (ranking.map key).Nodup) (htake : ranking.take k = xs ++ x :: ys) :
    (ranking.filter fun y => key y ≠ key x).take k = xs ++ ys ++ ranking[k]?.toList := by
  have hsplit : ranking = xs ++ x :: (ys ++ ranking.drop k) := by
    rw [← List.cons_append, ← List.append_assoc, ← htake, List.take_append_drop]
  have hlength := congrArg List.length htake
  rw [List.length_take, List.length_append, List.length_cons] at hlength
  have hkeys : key x ∉ (xs ++ (ys ++ ranking.drop k)).map key := by
    have hmiddle := hnodup
    rw [hsplit] at hmiddle
    exact (List.nodup_cons.mp ((List.perm_middle.map key).nodup_iff.mp hmiddle)).1
  have hfilter : ranking.filter (fun y => key y ≠ key x) = xs ++ (ys ++ ranking.drop k) := by
    conv_lhs => rw [hsplit]
    rw [← filter_ne_of_not_mem hkeys]
    simp
  rw [hfilter, ← List.append_assoc, List.take_append]
  have hfront : (xs ++ ys).take k = xs ++ ys := List.take_of_length_le (by
    rw [List.length_append]
    omega)
  rw [hfront]
  congr 1
  rcases Nat.lt_or_ge k ranking.length with hlt | hge
  · have hone : k - (xs ++ ys).length = 1 := by
      rw [List.length_append]
      omega
    rw [hone, List.take_one, List.head?_drop]
  · simp [List.drop_eq_nil_of_le hge, List.getElem?_eq_none hge]

/-- Removing an entry leaves what the first `k` give as it was, unless it is one of them and is
given itself or makes room for one that is. -/
theorem map_filter_take_removed_iff (hnodup : (ranking.map key).Nodup) (p : α → Bool) (gone : κ)
    (k : ℕ) :
    (((ranking.filter fun y => key y ≠ gone).take k).filter p).map key =
        ((ranking.take k).filter p).map key ↔
      ∀ x ∈ ranking.take k, key x = gone →
        p x = false ∧ ∀ y, ranking[k]? = some y → p y = false := by
  by_cases hmem : ∃ x ∈ ranking.take k, key x = gone
  · obtain ⟨x, hx, rfl⟩ := hmem
    obtain ⟨xs, ys, htake⟩ := List.append_of_mem hx
    have hunique : ∀ y ∈ ranking.take k, key y = key x → y = x := fun y hy heq =>
      List.inj_on_of_nodup_map hnodup (List.mem_of_mem_take hy) (List.mem_of_mem_take hx) heq
    have hcond : (∀ y ∈ ranking.take k, key y = key x → p y = false ∧
        ∀ z, ranking[k]? = some z → p z = false) ↔
          p x = false ∧ ∀ z, ranking[k]? = some z → p z = false := by
      constructor
      · exact fun h => h x hx rfl
      · rintro h y hy heq
        rw [hunique y hy heq]
        exact h
    rw [hcond, take_filter_ne k hnodup htake, htake]
    have hout : key x ∉ ((ranking.filter fun y => key y ≠ key x).take k).map key := by
      intro hkey
      obtain ⟨y, hy, heq⟩ := List.mem_map.mp hkey
      simpa [heq] using (List.mem_filter.mp (List.mem_of_mem_take hy)).2
    rw [take_filter_ne k hnodup htake] at hout
    cases hp : p x with
    | true =>
      refine iff_of_false (fun heq => hout ?_) (by simp)
      have hin : key x ∈ ((xs ++ x :: ys).filter p).map key :=
        List.mem_map_of_mem (List.mem_filter.mpr ⟨by simp, hp⟩)
      rw [← heq] at hin
      obtain ⟨y, hy, hkey⟩ := List.mem_map.mp hin
      exact List.mem_map.mpr ⟨y, (List.mem_filter.mp hy).1, hkey⟩
    | false =>
      have hsame : (xs ++ x :: ys).filter p = (xs ++ ys).filter p := by simp [hp]
      rw [hsame, List.filter_append (xs ++ ys), List.map_append]
      cases ranking[k]? with
      | none => simp
      | some y => cases hy : p y <;> simp [hy]
  · have hkept : gone ∉ (ranking.take k).map key := fun hkey => by
      obtain ⟨x, hx, heq⟩ := List.mem_map.mp hkey
      exact hmem ⟨x, hx, heq⟩
    have htake : (ranking.filter fun y => key y ≠ gone).take k = ranking.take k := by
      have hfilter := List.filter_append (p := fun y => decide (key y ≠ gone)) (ranking.take k)
        (ranking.drop k)
      rw [List.take_append_drop, filter_ne_of_not_mem hkept] at hfilter
      rw [hfilter, List.take_append, List.take_take, Nat.min_self]
      rcases Nat.lt_or_ge ranking.length k with hlt | hge
      · simp [List.drop_eq_nil_of_le hlt.le]
      · have hnone : k - (ranking.take k).length = 0 := by
          rw [List.length_take]
          omega
        rw [hnone, List.take_zero, List.append_nil]
    rw [htake]
    exact iff_of_true rfl fun x hx heq => absurd ⟨x, hx, heq⟩ hmem

end Removal

end JamJet.TopK
