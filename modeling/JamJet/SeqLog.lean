import Mathlib.Order.Lattice.Nat
import Mathlib.Tactic.Common

/-! Append-only logs whose entries carry strictly increasing positive sequence numbers, the
number of a new entry being one more than the largest so far. -/

namespace JamJet

structure Stamped (κ : Type) where
  sequence : ℕ
  kind : κ
  deriving DecidableEq, Repr

/-- A log that is in sequence order by construction. -/
structure SeqLog (κ : Type) where
  entries : List (Stamped κ)
  increasing : entries.Pairwise fun a b => a.sequence < b.sequence
  positive : ∀ x ∈ entries, 0 < x.sequence

namespace SeqLog

variable {κ : Type} {l l' : SeqLog κ} {k : κ} {n : ℕ}

def maxSequence (xs : List (Stamped κ)) : ℕ := xs.foldr (fun x m => max x.sequence m) 0

theorem le_maxSequence {xs : List (Stamped κ)} {x : Stamped κ} (hx : x ∈ xs) :
    x.sequence ≤ maxSequence xs := by
  induction xs with
  | nil => simp at hx
  | cons y ys ih =>
    rcases List.mem_cons.mp hx with rfl | hx
    · exact le_max_left _ _
    · exact (ih hx).trans (le_max_right _ _)

theorem maxSequence_append (xs ys : List (Stamped κ)) :
    maxSequence (xs ++ ys) = max (maxSequence xs) (maxSequence ys) := by
  induction xs with
  | nil => simp [maxSequence]
  | cons x xs ih =>
    simp only [maxSequence, List.cons_append, List.foldr_cons] at ih ⊢
    rw [ih, max_assoc]

def empty : SeqLog κ := ⟨[], List.Pairwise.nil, by simp⟩

/-- The largest sequence number in the log, 0 when it is empty. -/
def latest (l : SeqLog κ) : ℕ := maxSequence l.entries

theorem le_latest {x : Stamped κ} (hx : x ∈ l.entries) : x.sequence ≤ l.latest :=
  le_maxSequence hx

def append (l : SeqLog κ) (k : κ) : SeqLog κ where
  entries := l.entries ++ [⟨l.latest + 1, k⟩]
  increasing := by
    refine List.pairwise_append.mpr ⟨l.increasing, List.pairwise_singleton _ _, ?_⟩
    intro a ha b hb
    rw [List.mem_singleton.mp hb]
    exact Nat.lt_succ_of_le (le_latest ha)
  positive := by
    intro x hx
    rcases List.mem_append.mp hx with hx | hx
    · exact l.positive x hx
    · rw [List.mem_singleton.mp hx]
      exact Nat.succ_pos _

/-- The entries past a sequence number. -/
def since (l : SeqLog κ) (n : ℕ) : List (Stamped κ) := l.entries.filter fun x => n < x.sequence

/-- The entries up to and including a sequence number. -/
def upTo (l : SeqLog κ) (n : ℕ) : List (Stamped κ) := l.entries.filter fun x => x.sequence ≤ n

@[simp]
theorem entries_empty : (empty : SeqLog κ).entries = [] := rfl

@[simp]
theorem latest_empty : (empty : SeqLog κ).latest = 0 := rfl

@[simp]
theorem entries_append : (l.append k).entries = l.entries ++ [⟨l.latest + 1, k⟩] := rfl

@[simp]
theorem latest_append : (l.append k).latest = l.latest + 1 := by
  rw [latest, entries_append, maxSequence_append]
  simp [maxSequence, latest]

theorem mem_since {x : Stamped κ} : x ∈ l.since n ↔ x ∈ l.entries ∧ n < x.sequence := by
  simp [since]

theorem mem_append {x : Stamped κ} :
    x ∈ (l.append k).entries ↔ x ∈ l.entries ∨ x = ⟨l.latest + 1, k⟩ := by
  simp

theorem since_append (hn : n ≤ l.latest) :
    (l.append k).since n = l.since n ++ [⟨l.latest + 1, k⟩] := by
  have hlt : n < l.latest + 1 := Nat.lt_succ_of_le hn
  simp [since, hlt]

theorem upTo_latest (hn : l.latest ≤ n) : l.upTo n = l.entries := by
  refine List.filter_eq_self.mpr fun x hx => ?_
  simpa using (le_latest hx).trans hn

theorem since_latest (hn : l.latest ≤ n) : l.since n = [] := by
  refine List.filter_eq_nil_iff.mpr fun x hx => ?_
  simpa using (le_latest hx).trans hn

theorem maxSequence_le {xs : List (Stamped κ)} (h : ∀ x ∈ xs, x.sequence ≤ n) :
    maxSequence xs ≤ n := by
  induction xs with
  | nil => exact Nat.zero_le n
  | cons x xs ih =>
    exact max_le (h x (by simp)) (ih fun y hy => h y (by simp [hy]))

/-- In a list in sequence order, a cut by sequence number is a cut of the list. -/
theorem filter_le_append_filter_lt {xs : List (Stamped κ)}
    (h : xs.Pairwise fun a b => a.sequence < b.sequence) (n : ℕ) :
    xs.filter (fun x => x.sequence ≤ n) ++ xs.filter (fun x => n < x.sequence) = xs := by
  induction xs with
  | nil => rfl
  | cons x xs ih =>
    obtain ⟨hx, hxs⟩ := List.pairwise_cons.mp h
    by_cases hn : x.sequence ≤ n
    · have hn' : ¬ n < x.sequence := by omega
      simp [hn, hn', ih hxs]
    · have hn' : n < x.sequence := by omega
      -- everything after `x` is past the cut as well, so the first part is empty
      have hnone : xs.filter (fun y => y.sequence ≤ n) = [] := by
        refine List.filter_eq_nil_iff.mpr fun y hy => ?_
        have := hx y hy
        simp only [decide_eq_true_eq]
        omega
      have hall : xs.filter (fun y => n < y.sequence) = xs := by
        simpa [hnone] using ih hxs
      simp [hn, hn', hnone, hall]

theorem eq_of_sequence_eq {xs : List (Stamped κ)}
    (h : xs.Pairwise fun a b => a.sequence < b.sequence) {x y : Stamped κ} (hx : x ∈ xs)
    (hy : y ∈ xs) (hxy : x.sequence = y.sequence) : x = y := by
  have hnodup : (xs.map (·.sequence)).Nodup :=
    List.pairwise_map.mpr (h.imp fun hlt => hlt.ne)
  exact List.inj_on_of_nodup_map hnodup hx hy hxy

theorem upTo_append_since (l : SeqLog κ) (n : ℕ) : l.upTo n ++ l.since n = l.entries :=
  filter_le_append_filter_lt l.increasing n

/-- A log that holds another one's entries, then more. -/
def Extends (l l' : SeqLog κ) : Prop := l.entries <+: l'.entries

theorem Extends.refl (l : SeqLog κ) : l.Extends l := List.prefix_rfl

theorem Extends.trans {l₁ l₂ l₃ : SeqLog κ} (h₁ : l₁.Extends l₂) (h₂ : l₂.Extends l₃) :
    l₁.Extends l₃ :=
  List.IsPrefix.trans h₁ h₂

theorem extends_append (l : SeqLog κ) (k : κ) : l.Extends (l.append k) :=
  List.prefix_append _ _

theorem Extends.latest_le (h : l.Extends l') : l.latest ≤ l'.latest :=
  maxSequence_le fun _ hx => le_latest (h.subset hx)

theorem Extends.mem {x : Stamped κ} (h : l.Extends l') (hx : x ∈ l.entries) : x ∈ l'.entries :=
  h.subset hx

/-- What is appended later does not change the part up to a number already given. -/
theorem Extends.upTo_eq (h : l.Extends l') (hn : n ≤ l.latest) : l'.upTo n = l.upTo n := by
  obtain ⟨more, hmore⟩ := h
  have hinc := l'.increasing
  rw [← hmore] at hinc
  have hpast : ∀ x ∈ more, ¬ x.sequence ≤ n := by
    intro x hx hxn
    by_cases hne : l.entries = []
    · have hlatest : l.latest = 0 := by simp [latest, hne, maxSequence]
      have hpos := l'.positive x (hmore ▸ List.mem_append_right _ hx)
      omega
    · have hle : l.latest < x.sequence := by
        refine Nat.lt_of_le_of_lt ?_ (Nat.pred_lt (l'.positive x
          (hmore ▸ List.mem_append_right _ hx)).ne')
        refine maxSequence_le fun y hy => ?_
        have := (List.pairwise_append.mp hinc).2.2 y hy x hx
        exact Nat.le_pred_of_lt this
      omega
  have hnone : more.filter (fun x => x.sequence ≤ n) = [] :=
    List.filter_eq_nil_iff.mpr fun x hx => by simpa using hpast x hx
  rw [upTo, ← hmore, List.filter_append, hnone, List.append_nil, upTo]

theorem Extends.since_eq (h : l.Extends l') (hn : n ≤ l.latest) :
    ∃ more, l'.entries = l.entries ++ more ∧ l'.since n = l.since n ++ more := by
  have hup := h.upTo_eq hn
  obtain ⟨more, hmore⟩ := h
  refine ⟨more, hmore.symm, ?_⟩
  have hcut : l.upTo n ++ l'.since n = l.upTo n ++ (l.since n ++ more) := by
    rw [← hup, upTo_append_since, hup, ← List.append_assoc, upTo_append_since, hmore]
  exact List.append_cancel_left hcut

theorem since_zero (l : SeqLog κ) : l.since 0 = l.entries :=
  List.filter_eq_self.mpr fun x hx => by simpa using l.positive x hx

def appendAll (l : SeqLog κ) (ks : List κ) : SeqLog κ := ks.foldl append l

@[simp]
theorem appendAll_nil (l : SeqLog κ) : l.appendAll [] = l := rfl

theorem appendAll_concat (l : SeqLog κ) (ks : List κ) (k : κ) :
    l.appendAll (ks ++ [k]) = (l.appendAll ks).append k := by
  simp [appendAll]

theorem extends_appendAll (l : SeqLog κ) (ks : List κ) : l.Extends (l.appendAll ks) := by
  induction ks generalizing l with
  | nil => exact Extends.refl l
  | cons k ks ih => exact (extends_append l k).trans (ih (l.append k))

/-- Every entry of the longer log was there before or carries one of the new kinds, past
everything that was there. -/
theorem mem_appendAll {ks : List κ} {x : Stamped κ} (hx : x ∈ (l.appendAll ks).entries) :
    x ∈ l.entries ∨ (x.kind ∈ ks ∧ l.latest < x.sequence) := by
  induction ks generalizing l with
  | nil => exact .inl hx
  | cons k ks ih =>
    rcases ih (l := l.append k) hx with hx | ⟨hk, hs⟩
    · rcases mem_append.mp hx with hx | rfl
      · exact .inl hx
      · exact .inr ⟨by simp, Nat.lt_succ_self _⟩
    · refine .inr ⟨List.mem_cons_of_mem _ hk, ?_⟩
      rw [latest_append] at hs
      omega

end SeqLog

end JamJet
