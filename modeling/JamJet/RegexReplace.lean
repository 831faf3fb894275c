import JamJet.Regex
import Mathlib.Data.List.Chain

/-! What a replacement of every match leaves in a text: the letters between the matches come
together, or stand beside what has been put in, and a pattern may match there anew. -/

namespace Regex

variable {α : Type}

section Absence

variable (word : α → Bool)

/-- A match starts at the start of a text, behind a letter. -/
def Pattern.Occurs (q : Pattern α) (prev : Option α) (s : List α) : Prop :=
  ∃ w rest, s = w ++ rest ∧ q.Matches word prev w rest

/-- No match starts at any letter of a text. -/
def Pattern.Absent (q : Pattern α) : Option α → List α → Prop
  | _, [] => True
  | prev, a :: s => ¬ q.Occurs word prev (a :: s) ∧ q.Absent (some a) s

/-- A text contains a match. -/
def Pattern.FoundIn (q : Pattern α) (s : List α) : Prop :=
  ∃ l w r, s = l ++ w ++ r ∧ q.Matches word l.getLast? w r

variable {word} {p q : Pattern α} {prev : Option α} {s t w : List α}

@[simp]
theorem lastOf_nil : lastOf prev [] = prev := rfl

@[simp]
theorem lastOf_cons {a : α} : lastOf prev (a :: w) = lastOf (some a) w := by
  cases hlast : w.getLast? <;> simp [lastOf, List.getLast?_cons, hlast]

theorem lastOf_append {u : List α} : lastOf prev (u ++ w) = lastOf (lastOf prev u) w := by
  induction u generalizing prev with
  | nil => rfl
  | cons a u ih => rw [List.cons_append, lastOf_cons, lastOf_cons, ih]

theorem Pattern.absent_append :
    q.Absent word prev (s ++ t) ↔
      (∀ l r, s = l ++ r → r ≠ [] → ¬ q.Occurs word (lastOf prev l) (r ++ t)) ∧
        q.Absent word (lastOf prev s) t := by
  induction s generalizing prev with
  | nil =>
    refine ⟨fun h => ⟨fun l r hlr hr => ?_, h⟩, And.right⟩
    exact absurd (List.append_eq_nil_iff.mp hlr.symm).2 hr
  | cons a s ih =>
    rw [List.cons_append, Pattern.Absent, ih, lastOf_cons]
    constructor
    · rintro ⟨hhere, hlater, hend⟩
      refine ⟨fun l r hlr hr => ?_, hend⟩
      cases l with
      | nil =>
        obtain rfl : a :: s = r := hlr
        exact hhere
      | cons b l =>
        obtain ⟨rfl, rfl⟩ := List.cons.inj hlr
        rw [lastOf_cons]
        exact hlater l r rfl hr
    · rintro ⟨hall, hend⟩
      refine ⟨hall [] (a :: s) rfl (List.cons_ne_nil a s), fun l r hlr hr => ?_, hend⟩
      have hlater := hall (a :: l) r (by rw [hlr]; rfl) hr
      rwa [lastOf_cons] at hlater

theorem Pattern.absent_iff_not_foundIn (hq : ∀ w, q.body.Spells w → w ≠ []) :
    q.Absent word none s ↔ ¬ q.FoundIn word s := by
  constructor
  · rintro h ⟨l, w, r, rfl, hm⟩
    have hlater := (Pattern.absent_append.mp (List.append_assoc l w r ▸ h)).2
    obtain ⟨a, w, rfl⟩ := List.exists_cons_of_ne_nil (hq w hm.spells)
    have hlast : lastOf none l = l.getLast? := by simp [lastOf]
    rw [hlast] at hlater
    exact hlater.1 ⟨a :: w, r, rfl, hm⟩
  · intro h
    have hall : q.Absent word none (s ++ []) := by
      refine Pattern.absent_append.mpr ⟨fun l r hlr hr hoccurs => h ?_, trivial⟩
      obtain ⟨w, rest, hr, hm⟩ := hoccurs
      have hlast : lastOf none l = l.getLast? := by simp [lastOf]
      rw [hlast] at hm
      exact ⟨l, w, rest, by rw [hlr, List.append_assoc, ← hr, List.append_nil], hm⟩
    rwa [List.append_nil] at hall

end Absence

section Walks

variable (word : α → Bool)

/-- A text cut into pieces by something that holds at the letters passed by and something that
holds of the matches. -/
inductive Walk (K : Option α → List α → Prop) (M : Option α → List α → List α → Prop) :
    Option α → List α → List (Piece α) → Prop
  | nil {prev : Option α} : Walk K M prev [] []
  | kept {prev : Option α} {a : α} {s : List α} {pieces : List (Piece α)} (here : K prev (a :: s))
      (rest : Walk K M (some a) s pieces) : Walk K M prev (a :: s) (.kept a :: pieces)
  | matched {prev : Option α} {w s : List α} {pieces : List (Piece α)} (hw : w ≠ [])
      (here : M prev w s) (rest : Walk K M (lastOf prev w) s pieces) :
      Walk K M prev (w ++ s) (.matched w :: pieces)

variable {word} {p q : Pattern α} {prev : Option α} {s : List α} {pieces : List (Piece α)}
  {K K' : Option α → List α → Prop} {M M' : Option α → List α → List α → Prop}

theorem scan_skip (w : List α) :
    p.scan word prev w.length (w ++ s) = p.scan word (lastOf prev w) 0 s := by
  induction w generalizing prev with
  | nil => rfl
  | cons a w ih => rw [List.length_cons, List.cons_append, Pattern.scan, ih, lastOf_cons]

/-- The search passes by where nothing starts. -/
theorem walk_scan (hp : ∀ w, p.body.Spells w → w ≠ []) (prev : Option α) (s : List α) :
    Walk (fun prev s => ¬ p.Occurs word prev s)
      (fun prev w s => p.matchAt word prev (w ++ s) = some w) prev s (p.scan word prev 0 s) := by
  induction hn : s.length using Nat.strongRecOn generalizing prev s with
  | ind n ih =>
    cases s with
    | nil => exact .nil
    | cons a s =>
      rw [List.length_cons] at hn
      rw [Pattern.scan]
      cases hmatch : p.matchAt word prev (a :: s) with
      | none =>
        refine .kept (fun ⟨w, rest, hs, hm⟩ => ?_) (ih s.length (by omega) _ _ rfl)
        exact Pattern.not_matches_of_matchAt (hs ▸ hmatch) hm
      | some w =>
        obtain ⟨rest, hs, hm⟩ := Pattern.matches_of_matchAt hmatch
        obtain ⟨b, w, rfl⟩ := List.exists_cons_of_ne_nil (hp w hm.spells)
        obtain rfl : a = b := (List.cons.inj hs).1
        obtain rfl : s = w ++ rest := (List.cons.inj hs).2
        rw [List.length_append] at hn
        have hrest := ih rest.length (by omega) (lastOf prev (a :: w)) rest rfl
        simp only [scan_skip]
        rw [lastOf_cons] at hrest
        exact .matched (List.cons_ne_nil a w) hmatch (by rwa [lastOf_cons])

theorem Walk.imp (h : Walk K M prev s pieces) (hkept : ∀ prev s, K prev s → K' prev s)
    (hmatched : ∀ prev w s, M prev w s → M' prev w s) : Walk K' M' prev s pieces := by
  induction h with
  | nil => exact .nil
  | kept here _ ih => exact .kept (hkept _ _ here) ih
  | matched hw here _ ih => exact .matched hw (hmatched _ _ _ here) ih

theorem Walk.of_absent (h : Walk K M prev s pieces) (habsent : q.Absent word prev s) :
    Walk (fun prev s => ¬ q.Occurs word prev s) M prev s pieces := by
  induction h with
  | nil => exact .nil
  | kept _ _ ih => exact .kept habsent.1 (ih habsent.2)
  | matched hw here _ ih => exact .matched hw here (ih (Pattern.absent_append.mp habsent).2)

/-- Where nothing is found nothing is replaced. -/
theorem replaceAll_of_absent (hp : ∀ w, p.body.Spells w → w ≠ []) (f : List α → List α)
    (h : p.Absent word none s) : p.replaceAll word f s = s := by
  have hwalk : Walk (fun prev s => ¬ p.Occurs word prev s) (fun prev w s => p.Matches word prev w s)
      none s (p.scan word none 0 s) :=
    (walk_scan hp none s).imp (fun _ _ hnot => hnot) fun prev w s hmatch => by
      obtain ⟨rest, hs, hm⟩ := Pattern.matches_of_matchAt hmatch
      exact List.append_cancel_left hs ▸ hm
  rw [Pattern.replaceAll]
  generalize (none : Option α) = prev at h hwalk ⊢
  generalize p.scan word prev 0 s = pieces at hwalk ⊢
  induction hwalk with
  | nil => rfl
  | kept _ _ ih => rw [List.flatMap_cons, ih h.2]; rfl
  | @matched prev w s _ hw here _ _ =>
    obtain ⟨a, w, rfl⟩ := List.exists_cons_of_ne_nil hw
    exact absurd ⟨a :: w, s, rfl, here⟩ h.1

end Walks

section Tags

variable {word : α → Bool} {p q : Pattern α} {prev prevOut : Option α} {s w rest : List α}
  {pieces : List (Piece α)} {K : Option α → List α → Prop}
  {M : Option α → List α → List α → Prop} {f : List α → List α} {barrier : α → Bool}

/-- A text that begins with a letter that no match has, and that no match starts in. -/
structure Tag (word : α → Bool) (q : Pattern α) (barrier : α → Bool) (t : List α) : Prop where
  opens : ∃ b u, t = b :: u ∧ barrier b = true
  free : ∀ prev l r u, t = l ++ r → r ≠ [] → ¬ q.Occurs word (lastOf prev l) (r ++ u)

/-- What has no barrier has been between two tags before. -/
theorem Walk.of_replaced (h : Walk K M prev s pieces)
    (hf : ∀ m, ∃ b u, f m = b :: u ∧ barrier b = true)
    (hout : w ++ rest = pieces.flatMap (Piece.replace f)) (hw : ∀ a ∈ w, barrier a = false) :
    ∃ s' pieces', s = w ++ s' ∧ rest = pieces'.flatMap (Piece.replace f) ∧
      Walk K M (lastOf prev w) s' pieces' := by
  induction w generalizing prev s pieces with
  | nil => exact ⟨s, pieces, rfl, hout, h⟩
  | cons a w ih =>
    cases h with
    | nil => cases hout
    | kept here hrest =>
      have htail := (List.cons.inj hout).2
      obtain rfl := (List.cons.inj hout).1
      obtain ⟨s', pieces', rfl, hrest', hwalk⟩ :=
        ih hrest htail fun b hb => hw b (List.mem_cons_of_mem _ hb)
      exact ⟨s', pieces', rfl, hrest', by rwa [lastOf_cons]⟩
    | @matched _ m _ _ hm here hrest =>
      obtain ⟨b, u, hfm, hb⟩ := hf m
      rw [List.flatMap_cons, Piece.replace, hfm] at hout
      obtain rfl := (List.cons.inj hout).1
      exact absurd (hb.symm.trans (hw _ List.mem_cons_self)) Bool.true_eq_false.mp

/-- Tags let no match start that did not start before, unless they take away a boundary. -/
theorem Walk.absent_of_tags
    (h : Walk (fun prev s => ¬ q.Occurs word prev s) (fun prev w s => p.Matches word prev w s)
      prev s pieces)
    (hq : ∀ w, q.body.Spells w → w ≠ [] ∧ ∀ a ∈ w, barrier a = false)
    (hbounded : q.bounded = true → p.bounded = true) (hf : ∀ m, Tag word q barrier (f m))
    (hprev : prevOut = prev ∨ (p.bounded = true → boundary word prev s.head? = true)) :
    q.Absent word prevOut (pieces.flatMap (Piece.replace f)) := by
  induction h generalizing prevOut with
  | nil => trivial
  | @kept prev a s pieces here hrest ih =>
    refine ⟨?_, ih (.inl rfl)⟩
    rintro ⟨w, rest, hout, hm⟩
    obtain ⟨hne, hinner⟩ := hq w hm.spells
    have hwalk : Walk (fun prev s => ¬ q.Occurs word prev s)
        (fun prev w s => p.Matches word prev w s) prev (a :: s) (.kept a :: pieces) :=
      .kept here hrest
    obtain ⟨s', pieces', hs, rfl, hafter⟩ :=
      hwalk.of_replaced (fun m => (hf m).opens) hout.symm hinner
    have hhead : w.head? = some a := by
      obtain ⟨b, w, rfl⟩ := List.exists_cons_of_ne_nil hne
      rw [(List.cons.inj hs).1]
      rfl
    have hlast : ∀ prev prev' : Option α, lastOf prev w = lastOf prev' w := by
      obtain ⟨b, w, rfl⟩ := List.exists_cons_of_ne_nil hne
      intro prev prev'
      rw [lastOf_cons, lastOf_cons]
    refine here ⟨w, s', hs, hm.spells, fun hb => ?_, fun hb => ?_⟩
    · have hopens := hm.opens hb
      rw [← hs]
      rw [List.head?_append, hhead] at hopens
      rcases hprev with rfl | hprev
      · exact hopens
      · exact hprev (hbounded hb)
    · have hcloses := hm.closes hb
      rw [hlast prev prevOut]
      cases hafter with
      | nil => exact hcloses
      | kept _ _ => exact hcloses
      | matched hw' here' _ =>
        have hopens := here'.opens (hbounded hb)
        rwa [hlast prev prevOut] at hopens
  | @matched prev m s pieces hm here hrest ih =>
    rw [List.flatMap_cons, Piece.replace, Pattern.absent_append]
    exact ⟨fun l r hlr hr => (hf m).free _ l r _ hlr hr, ih (.inr fun hb => here.closes hb)⟩

/-- A text between two barriers that no match lies in. -/
theorem Tag.of_inner {i : List α} {b : α}
    (hq : ∀ w, q.body.Spells w → w ≠ [] ∧ ∀ a ∈ w, barrier a = false) (hb : barrier b = true)
    (hopens : ∃ a u, i = a :: u ∧ barrier a = true)
    (hfree : ∀ prev l w r u, i = l ++ (w ++ r) →
      ¬ q.Matches word (lastOf prev l) w (r ++ b :: u)) : Tag word q barrier (i ++ [b]) where
  opens := by
    obtain ⟨a, u, rfl, ha⟩ := hopens
    exact ⟨a, u ++ [b], rfl, ha⟩
  free := by
    rintro prev l r u hlr hr ⟨w, rest, hout, hm⟩
    obtain rfl | ⟨r', b', rfl⟩ := List.eq_nil_or_concat r
    · exact hr rfl
    rw [List.concat_eq_append] at hlr hout
    rw [← List.append_assoc] at hlr
    obtain ⟨rfl, hbb⟩ := List.append_inj' hlr rfl
    obtain rfl := List.singleton_inj.mp hbb
    rw [List.append_assoc] at hout
    rcases List.append_eq_append_iff.mp hout with ⟨c, rfl, hc⟩ | ⟨c, rfl, hc⟩
    · cases c with
      | nil =>
        rw [List.append_nil] at hm
        obtain rfl : [b] ++ u = rest := hc
        exact hfree prev l r' [] u (by rw [List.append_nil]) hm
      | cons d c =>
        obtain rfl : b = d := (List.cons.inj hc).1
        have hinner := (hq _ hm.spells).2 b (by simp)
        exact absurd (hb.symm.trans hinner) Bool.true_eq_false.mp
    · subst hc
      exact hfree prev l w c u rfl hm

end Tags

section Removal

variable {word : α → Bool} {p q : Pattern α} {prev prevOut : Option α} {s w rest : List α}
  {a : α} {pieces : List (Piece α)} {K : Option α → List α → Prop}
  {M : Option α → List α → List α → Prop}

/-- A text that begins and ends within a word. -/
def Solid (word : α → Bool) (w : List α) : Prop :=
  w.head?.any word = true ∧ w.getLast?.any word = true

theorem Solid.ne_nil (h : Solid word w) : w ≠ [] := by
  rintro rfl
  cases h.1

/-- A text in which no two letters outside words stand side by side. -/
def Close (word : α → Bool) (w : List α) : Prop :=
  w.IsChain fun a b => word a = true ∨ word b = true

theorem Solid.append {u v : List α} (hu : Solid word u) (hv : Solid word v) :
    Solid word (u ++ v) := by
  obtain ⟨a, u, rfl⟩ := List.exists_cons_of_ne_nil hu.ne_nil
  refine ⟨hu.1, ?_⟩
  have hlast := hv.2
  cases hv' : v.getLast? with
  | none => rw [hv'] at hlast; cases hlast
  | some b => rwa [List.getLast?_append, hv', Option.some_or, ← hv']

/-- A word of a pattern that a removal neither makes nor cuts. -/
def Sound (word : α → Bool) (w : List α) : Prop := Solid word w ∧ Close word w

theorem Sound.of_word (hw : ∀ a ∈ w, word a = true) (hne : w ≠ []) : Sound word w := by
  obtain ⟨a, u, rfl⟩ := List.exists_cons_of_ne_nil hne
  refine ⟨⟨hw a List.mem_cons_self, ?_⟩, ?_⟩
  · rw [List.getLast?_eq_some_getLast hne]
    exact hw _ (List.getLast_mem hne)
  · rw [Close, List.isChain_iff_getElem]
    exact fun i hi => .inl (hw _ (List.getElem_mem _))

theorem Sound.append {u v : List α} (hu : Sound word u) (hv : Sound word v) :
    Sound word (u ++ v) := by
  refine ⟨hu.1.append hv.1, List.isChain_append.mpr ⟨hu.2, hv.2, fun a ha b _ => .inl ?_⟩⟩
  have hlast := hu.1.2
  rwa [Option.mem_def.mp ha] at hlast

theorem Sound.append_cons {u v : List α} {c : α} (hu : Sound word u) (hv : Sound word v) :
    Sound word (u ++ c :: v) := by
  obtain ⟨b, v, rfl⟩ := List.exists_cons_of_ne_nil hv.1.ne_nil
  have hsolid := hu.1.append hv.1
  refine ⟨⟨?_, ?_⟩, List.isChain_append.mpr ⟨hu.2, ?_, fun a ha d _ => .inl ?_⟩⟩
  · obtain ⟨a, u, rfl⟩ := List.exists_cons_of_ne_nil hu.1.ne_nil
    exact hsolid.1
  · have hlast := hv.1.2
    rwa [List.getLast?_append, List.getLast?_cons_cons, List.getLast?_eq_some_getLast
      (List.cons_ne_nil b v), Option.some_or, ← List.getLast?_eq_some_getLast]
  · exact List.isChain_cons_cons.mpr ⟨.inr hv.1.1, hv.2⟩
  · have hlast := hu.1.2
    rwa [Option.mem_def.mp ha] at hlast

theorem Solid.last (h : Solid word w) (prev : Option α) : (lastOf prev w).any word = true := by
  have hlast := h.2
  cases hw : w.getLast? with
  | none => rw [hw] at hlast; cases hlast
  | some b => rwa [lastOf, hw, Option.some_or, ← hw]

theorem Pattern.Matches.apart (h : p.Matches word prev w s) (hp : p.bounded = true)
    (hw : Solid word w) : prev.any word = false ∧ s.head?.any word = false := by
  have hopens := h.opens hp
  have hcloses := h.closes hp
  obtain ⟨b, u, rfl⟩ := List.exists_cons_of_ne_nil hw.ne_nil
  have hhead : (some b).any word = true := hw.1
  rw [List.cons_append, List.head?_cons, boundary, hhead] at hopens
  rw [boundary, hw.last] at hcloses
  exact ⟨by simpa using hopens, by simpa using hcloses⟩

theorem Pattern.Matches.fills {l r u : List α} (h : p.Matches word (lastOf prev l) w (r ++ u))
    (hp : p.bounded = true) (hne : w ≠ []) (hword : ∀ c ∈ l ++ (w ++ r), word c = true) :
    l = [] ∧ r = [] := by
  simp only [List.mem_append] at hword
  have hsolid : Solid word w :=
    (Sound.of_word (fun c hc => hword c (.inr (.inl hc))) hne).1
  obtain ⟨hbefore, hbehind⟩ := h.apart hp hsolid
  refine ⟨by_contra fun hl => ?_, by_contra fun hr => ?_⟩
  · have hlast := (Sound.of_word (fun c hc => hword c (.inl hc)) hl).1.last prev
    exact absurd (hbefore.symm.trans hlast) Bool.false_ne_true
  · obtain ⟨c, r, rfl⟩ := List.exists_cons_of_ne_nil hr
    have hc := hword c (.inr (.inr List.mem_cons_self))
    exact absurd (hbehind.symm.trans hc) Bool.false_ne_true

/-- A close text that comes together is not cut by a solid match. -/
theorem Walk.of_removed (h : Walk K (fun prev w s => p.Matches word prev w s) (some a) s pieces)
    (hp : p.bounded = true) (hsolid : ∀ w, p.body.Spells w → Solid word w)
    (hout : w ++ rest = pieces.flatMap (Piece.replace fun _ => [])) (hclose : Close word (a :: w)) :
    ∃ s' pieces', s = w ++ s' ∧ rest = pieces'.flatMap (Piece.replace fun _ => []) ∧
      Walk K (fun prev w s => p.Matches word prev w s) (lastOf (some a) w) s' pieces' := by
  induction w generalizing a s pieces with
  | nil => exact ⟨s, pieces, rfl, hout, h⟩
  | cons b w ih =>
    rw [Close, List.isChain_cons_cons] at hclose
    cases h with
    | nil => cases hout
    | kept here hrest =>
      have htail := (List.cons.inj hout).2
      obtain rfl := (List.cons.inj hout).1
      obtain ⟨s', pieces', rfl, hrest', hwalk⟩ := ih hrest htail hclose.2
      exact ⟨s', pieces', rfl, hrest', by rwa [lastOf_cons]⟩
    | matched hm here hrest =>
      obtain ⟨hbefore, hbehind⟩ := here.apart hp (hsolid _ here.spells)
      cases hrest with
      | nil => cases hout
      | kept _ _ =>
        -- the letters on both sides of the match come to stand side by side
        obtain rfl := (List.cons.inj hout).1
        rcases hclose.1 with ha | hb
        · exact absurd (hbefore.symm.trans ha) Bool.false_ne_true
        · exact absurd (hbehind.symm.trans hb) Bool.false_ne_true
      | @matched _ m _ _ hm' here' _ =>
        obtain ⟨c, u, rfl⟩ := List.exists_cons_of_ne_nil hm'
        exact absurd (hbehind.symm.trans (hsolid _ here'.spells).1) Bool.false_ne_true

/-- The removal of solid matches lets no solid and close match start that did not start before. -/
theorem Walk.absent_of_removed
    (h : Walk (fun prev s => ¬ q.Occurs word prev s) (fun prev w s => p.Matches word prev w s)
      prev s pieces)
    (hp : p.bounded = true) (hsolid : ∀ w, p.body.Spells w → Solid word w)
    (hq : q.bounded = true) (hclose : ∀ w, q.body.Spells w → Solid word w ∧ Close word w)
    (hprev : prevOut = prev ∨ s.head?.any word = false) :
    q.Absent word prevOut (pieces.flatMap (Piece.replace fun _ => [])) := by
  induction h generalizing prevOut with
  | nil => trivial
  | @kept prev a s pieces here hrest ih =>
    refine ⟨?_, ih (.inl rfl)⟩
    rintro ⟨w, rest, hout, hm⟩
    obtain ⟨hsolidw, hclosew⟩ := hclose w hm.spells
    obtain ⟨b, w, rfl⟩ := List.exists_cons_of_ne_nil hsolidw.ne_nil
    have htail := (List.cons.inj hout).2
    obtain rfl : a = b := (List.cons.inj hout).1
    obtain ⟨s', pieces', rfl, rfl, hafter⟩ := hrest.of_removed hp hsolid htail.symm hclosew
    have hlast := hsolidw.last prev
    rw [lastOf_cons] at hlast
    refine here ⟨a :: w, s', rfl, hm.spells, fun _ => ?_, fun _ => ?_⟩
    · rcases hprev with rfl | hprev
      · exact hm.opens hq
      · exact absurd (hprev.symm.trans hsolidw.1) Bool.false_ne_true
    · have hcloses := hm.closes hq
      rw [lastOf_cons] at hcloses ⊢
      cases hafter with
      | nil => exact hcloses
      | kept _ _ => exact hcloses
      | matched _ here' _ =>
        have hbefore := (here'.apart hp (hsolid _ here'.spells)).1
        exact absurd (hbefore.symm.trans hlast) Bool.false_ne_true
  | matched hm here hrest ih =>
    exact ih (.inr (here.apart hp (hsolid _ here.spells)).2)

end Removal

section Extension

variable {word : α → Bool} {p : Pattern α} {prev prevOut : Option α} {s w r rest : List α}
  {pieces : List (Piece α)} {inner : α → Bool} {Tail : List α → Prop}

/-- A pattern without boundaries whose matches grow to the left by the letters of a class, and of
which a match ends where no tail follows, as it would have gone on. -/
structure Extends (word : α → Bool) (p : Pattern α) (inner : α → Bool) (Tail : List α → Prop) :
    Prop where
  free : p.bounded = false
  left : ∀ a w, inner a = true → p.body.Spells w → p.body.Spells (a :: w)
  split : ∀ w, p.body.Spells w → ∃ l a r, w = l ++ a :: r ∧ l ≠ [] ∧ (∀ c ∈ l, inner c = true) ∧
    r ≠ [] ∧ (∀ c ∈ r, inner c = true) ∧ Tail r
  greedy : ∀ prev w s, p.matchAt word prev (w ++ s) = some w → ∀ r s', Tail r → s ≠ r ++ s'

/-- The walk of a search for the pattern itself. -/
abbrev Pattern.Search (word : α → Bool) (p : Pattern α) :
    Option α → List α → List (Piece α) → Prop :=
  Walk (fun prev s => ¬ p.Occurs word prev s)
    fun prev w s => p.matchAt word prev (w ++ s) = some w

theorem Extends.occurs_append (h : Extends word p inner Tail) (prev : Option α) (rest : List α)
    (hw : p.body.Spells w) : p.Occurs word prev (w ++ rest) :=
  ⟨w, rest, rfl, hw, fun hb => absurd (h.free.symm.trans hb) Bool.false_ne_true,
    fun hb => absurd (h.free.symm.trans hb) Bool.false_ne_true⟩

theorem Extends.not_spells {a : α} (h : Extends word p inner Tail) (ha : inner a = true)
    (hnot : ¬ p.Occurs word prev (a :: s)) : ∀ w rest, s = w ++ rest → ¬ p.body.Spells w := by
  rintro w rest rfl hw
  exact hnot (h.occurs_append prev rest (h.left a w ha hw))

/-- Letters of the class are not cut by a match. -/
theorem Extends.of_removed (h : Extends word p inner Tail) (hwalk : p.Search word prev s pieces)
    (hnot : ∀ w rest, s = w ++ rest → ¬ p.body.Spells w)
    (hout : w ++ rest = pieces.flatMap (Piece.replace fun _ => []))
    (hw : ∀ c ∈ w, inner c = true) :
    ∃ s' pieces', s = w ++ s' ∧ rest = pieces'.flatMap (Piece.replace fun _ => []) ∧
      p.Search word (lastOf prev w) s' pieces' ∧
        ∀ w rest, s' = w ++ rest → ¬ p.body.Spells w := by
  induction w generalizing prev s pieces with
  | nil => exact ⟨s, pieces, rfl, hout, hwalk, hnot⟩
  | cons b w ih =>
    cases hwalk with
    | nil => cases hout
    | kept here hrest =>
      have htail := (List.cons.inj hout).2
      obtain rfl := (List.cons.inj hout).1
      obtain ⟨s', pieces', rfl, hrest', hwalk', hnot'⟩ :=
        ih hrest (h.not_spells (hw b List.mem_cons_self) here) htail
          fun c hc => hw c (List.mem_cons_of_mem _ hc)
      exact ⟨s', pieces', rfl, hrest', by rwa [lastOf_cons], hnot'⟩
    | matched hm here hrest =>
      obtain ⟨rest', hs, hm'⟩ := Pattern.matches_of_matchAt here
      exact absurd hm'.spells (hnot _ _ hs)

theorem Extends.no_tail (h : Extends word p inner Tail) (hwalk : p.Search word prev s pieces)
    (hend : ∀ r s', Tail r → s ≠ r ++ s')
    (hout : r ++ rest = pieces.flatMap (Piece.replace fun _ => []))
    (hr : r ≠ [] ∧ (∀ c ∈ r, inner c = true) ∧ Tail r) : False := by
  induction hwalk with
  | nil => exact hr.1 (List.append_eq_nil_iff.mp hout).1
  | kept here hrest _ =>
    obtain ⟨b, r, rfl⟩ := List.exists_cons_of_ne_nil hr.1
    have htail := (List.cons.inj hout).2
    obtain rfl := (List.cons.inj hout).1
    obtain ⟨s', pieces', rfl, -⟩ :=
      h.of_removed hrest (h.not_spells (hr.2.1 b List.mem_cons_self) here) htail
        fun c hc => hr.2.1 c (List.mem_cons_of_mem _ hc)
    exact hend (b :: r) s' hr.2.2 rfl
  | matched hm here hrest ih => exact ih (h.greedy _ _ _ here) hout

/-- The removal of its matches leaves none of such a pattern. -/
theorem Extends.absent_of_removed (h : Extends word p inner Tail)
    (hwalk : p.Search word prev s pieces) :
    p.Absent word prevOut (pieces.flatMap (Piece.replace fun _ => [])) := by
  induction hwalk generalizing prevOut with
  | nil => trivial
  | @kept prev a s pieces here hrest ih =>
    refine ⟨?_, ih⟩
    rintro ⟨w, rest, hout, hm⟩
    obtain ⟨l, at', r, rfl, hl, hinner, hr⟩ := h.split w hm.spells
    obtain ⟨b, l, rfl⟩ := List.exists_cons_of_ne_nil hl
    have htail : pieces.flatMap (Piece.replace fun _ => []) = l ++ (at' :: r ++ rest) := by
      rw [← List.append_assoc]
      exact (List.cons.inj hout).2
    obtain rfl : a = b := (List.cons.inj hout).1
    obtain ⟨s', pieces', rfl, hout', hwalk', hnot⟩ :=
      h.of_removed hrest (h.not_spells (hinner a List.mem_cons_self) here) htail.symm
        fun c hc => hinner c (List.mem_cons_of_mem _ hc)
    cases hwalk' with
    | nil => cases hout'
    | matched hm' here' _ =>
      obtain ⟨rest', hs, hm''⟩ := Pattern.matches_of_matchAt here'
      exact hnot _ _ hs hm''.spells
    | kept here' hrest' =>
      have hout'' := (List.cons.inj hout').2
      obtain rfl := (List.cons.inj hout').1
      cases hrest' with
      | nil => exact hr.1 (List.append_eq_nil_iff.mp hout'').1
      | matched hm' here'' hrest'' =>
        exact h.no_tail hrest'' (h.greedy _ _ _ here'') hout'' hr
      | kept here'' hrest'' =>
        -- the whole match has stood in the text
        obtain ⟨c, r, rfl⟩ := List.exists_cons_of_ne_nil hr.1
        have htail' := (List.cons.inj hout'').2
        obtain rfl := (List.cons.inj hout'').1
        obtain ⟨s'', pieces'', rfl, -⟩ :=
          h.of_removed hrest'' (h.not_spells (hr.2.1 c List.mem_cons_self) here'') htail'
            fun d hd => hr.2.1 d (List.mem_cons_of_mem _ hd)
        have hwhole := h.occurs_append prev s'' hm.spells
        simp only [List.cons_append, List.append_assoc] at hwhole
        exact here hwhole
  | matched _ _ _ ih => exact ih

end Extension

section Preference

variable {word : α → Bool} {p : Pattern α} {prev : Option α} {s w x : List α} {c : α → Bool}
  {min : ℕ} {b : Body α}

theorem head?_flatMap {β γ : Type} {l : List β} {f : β → List γ} {x : γ}
    (h : (l.flatMap f).head? = some x) :
    ∃ l₁ y l₂, l = l₁ ++ y :: l₂ ∧ (f y).head? = some x ∧ ∀ z ∈ l₁, f z = [] := by
  induction l with
  | nil => cases h
  | cons a l ih =>
    rw [List.flatMap_cons, List.head?_append] at h
    cases ha : f a with
    | nil =>
      rw [ha] at h
      obtain ⟨l₁, y, l₂, rfl, hy, hnone⟩ := ih h
      exact ⟨a :: l₁, y, l₂, rfl, hy, List.forall_mem_cons.mpr ⟨ha, hnone⟩⟩
    | cons b m =>
      rw [ha] at h
      exact ⟨[], a, l, rfl, ha ▸ h, fun z hz => by cases hz⟩

theorem pairwise_manyRests (c : α → Bool) (min : ℕ) (s : List α) :
    (manyRests c min s).Pairwise fun a b => a.length < b.length := by
  induction s generalizing min with
  | nil =>
    rw [manyRests]
    split_ifs <;> simp
  | cons a s ih =>
    rw [manyRests, List.pairwise_append]
    refine ⟨?_, by split_ifs <;> simp, fun rest hrest rest' hrest' => ?_⟩
    · split_ifs
      · exact ih (min - 1)
      · exact .nil
    · split_ifs at hrest hrest' with ha hmin
      · obtain ⟨w, rfl, -⟩ := mem_manyRests.mp hrest
        rw [List.mem_singleton.mp hrest', List.length_cons, List.length_append]
        omega
      · cases hrest'
      · cases hrest
      · cases hrest

/-- Of what a repetition can leave, the preferred match leaves the least that the rest of the body
matches at the start of. -/
theorem Body.longest (h : ((Body.seq (.many c min) b).rests s).head? = some x) :
    ∃ y ∈ manyRests c min s, (b.rests y).head? = some x ∧
      ∀ z ∈ manyRests c min s, b.rests z ≠ [] → y.length ≤ z.length := by
  obtain ⟨l₁, y, l₂, hl, hy, hnone⟩ := head?_flatMap h
  have hl : manyRests c min s = l₁ ++ y :: l₂ := hl
  have horder := pairwise_manyRests c min s
  rw [hl] at horder ⊢
  refine ⟨y, by simp, hy, fun z hz hne => ?_⟩
  rcases List.mem_append.mp hz with hz | hz
  · exact absurd (hnone z hz) hne
  · rcases List.mem_cons.mp hz with rfl | hz
    · exact Nat.le_refl _
    · exact ((List.pairwise_cons.mp (List.pairwise_append.mp horder).2.1).1 z hz).le

theorem Pattern.head?_rests (hp : p.bounded = false)
    (h : p.matchAt word prev (w ++ s) = some w) : (p.body.rests (w ++ s)).head? = some s := by
  rw [Pattern.matchAt, hp, Bool.false_and, if_neg Bool.false_ne_true] at h
  obtain ⟨rest, hfind, hbefore⟩ := Option.map_eq_some_iff.mp h
  obtain ⟨v, hv, -⟩ := (p.body.mem_rests _ rest).mp (List.mem_of_find?_eq_some hfind)
  rw [hv, before_append] at hbefore
  subst hbefore
  obtain rfl := List.append_cancel_left hv
  simp only [Bool.not_false, Bool.true_or] at hfind
  cases hrests : p.body.rests (v ++ s) with
  | nil => rw [hrests] at hfind; cases hfind
  | cons y rests =>
    rw [hrests, List.find?_cons] at hfind
    exact hfind

end Preference

end Regex
