import JamJet.HashChain
import JamJet.PyJson
import Mathlib.Data.List.Dedup
import Mathlib.Data.List.Perm.Subperm

/-! `chain_order`: audit entries put oldest first along their `prev_hash` links, for entries of any
kind whose hashes are values that may have no place in a set. -/

namespace JamJet

namespace RuntimeAudit

open HashChain Relation

/-- What `chain_order` raises: a `ChainError`, or what a value that cannot be hashed raises. -/
inductive OrderError
  | chainError (index : ℕ) (reason detail : String)
  | typeError
  deriving DecidableEq, Repr

section Order

variable {α κ : Type} [DecidableEq κ]

/-- The loop that fills `by_prev`, from the index `i`. -/
def indexPrev (prevHash : α → Option κ) :
    ℕ → List α → List (κ × α) → Except OrderError (List (κ × α))
  | _, [], byPrev => .ok byPrev
  | i, e :: rest, byPrev =>
      match prevHash e with
      | none => .error .typeError
      | some p =>
          if p ∈ byPrev.map Prod.fst then
            .error (.chainError i "broken_link" "two entries name the same predecessor")
          else indexPrev prevHash (i + 1) rest (byPrev ++ [(p, e)])

/-- The loop that follows the links, behind `len` entries of which `last` is the newest. -/
def follow (entryHash : α → Option κ) (byPrev : List (κ × α)) :
    ℕ → ℕ → α → Except OrderError (List α)
  | 0, _, _ => .ok []
  | missing + 1, len, last =>
      match (entryHash last).bind fun h => byPrev.lookup h with
      | none => .error (.chainError len "broken_link" "")
      | some nxt => (follow entryHash byPrev missing (len + 1) nxt).map (nxt :: ·)

/-- The entries whose predecessor is not in the set. -/
def starts (prevHash entryHash : α → Option κ) (items : List α) : List α :=
  items.filter fun e => prevHash e ∉ items.map entryHash

/-- A hash is `none` where its value cannot be hashed. -/
def chainOrder (prevHash entryHash : α → Option κ) (items : List α) : Except OrderError (List α) :=
  if none ∈ items.map entryHash then .error .typeError
  else
    match indexPrev prevHash 0 items [] with
    | .error err => .error err
    | .ok byPrev =>
        match starts prevHash entryHash items with
        | [start] => (follow entryHash byPrev (items.length - 1) 1 start).map (start :: ·)
        | starts =>
            .error (.chainError 0 "broken_link"
              (toString starts.length ++ " chain starts in the set"))

end Order

section Values

/-- A loaded value as a member of a set.  A number is the string of its text, and the constants of
one name are one object. -/
inductive HashKey
  | none
  | bool (b : Bool)
  | text (s : String)
  | float (name : String)
  deriving DecidableEq, Repr

def hashKey : PyJson.Value → Option HashKey
  | .none => some .none
  | .bool b => some (.bool b)
  | .number text => some (.text (String.ofList text))
  | .float name => some (.float name)
  | .str s => some (.text s)
  | .list _ => none
  | .dict _ => none

/-- `entry.get(key)`, as a member of a set. -/
def getHash (key : String) (entry : List (String × PyJson.Value)) : Option HashKey :=
  hashKey ((entry.lookup key).getD .none)

end Values

variable {α κ : Type} [DecidableEq κ] {prevHash entryHash : α → Option κ} {items : List α}

section ByPrev

/-- The entries under the predecessors they name. -/
def named (prevHash : α → Option κ) (items : List α) : List (κ × α) :=
  items.filterMap fun e => (prevHash e).map fun p => (p, e)

omit [DecidableEq κ] in
theorem mem_named {p : κ} {e : α} :
    (p, e) ∈ named prevHash items ↔ e ∈ items ∧ prevHash e = some p := by
  unfold named
  rw [List.mem_filterMap]
  constructor
  · rintro ⟨x, hx, hpair⟩
    obtain ⟨q, hq, heq⟩ := Option.map_eq_some_iff.mp hpair
    obtain ⟨rfl, rfl⟩ := Prod.mk.inj heq
    exact ⟨hx, hq⟩
  · rintro ⟨he, hp⟩
    exact ⟨e, he, by rw [hp]; rfl⟩

omit [DecidableEq κ] in
theorem nodup_keys_snoc {byPrev : List (κ × α)} {p : κ} {e : α}
    (hnodup : (byPrev.map fun kv => some kv.1).Nodup) (hseen : p ∉ byPrev.map Prod.fst) :
    ((byPrev ++ [(p, e)]).map fun kv => some kv.1).Nodup := by
  rw [List.map_append, List.nodup_append]
  refine ⟨hnodup, by simp, fun k hk l hl heq => hseen ?_⟩
  obtain ⟨kv, hkv, rfl⟩ := List.mem_map.mp hk
  have hl : l = some p := by simpa using hl
  rw [← Option.some.inj (heq.trans hl)]
  exact List.mem_map_of_mem hkv

theorem indexPrev_eq_ok {i : ℕ} {byPrev : List (κ × α)}
    (hnodup : ((byPrev.map fun kv => some kv.1) ++ items.map prevHash).Nodup)
    (hhashable : none ∉ items.map prevHash) :
    indexPrev prevHash i items byPrev = .ok (byPrev ++ named prevHash items) := by
  induction items generalizing i byPrev with
  | nil => simp [indexPrev, named]
  | cons e rest ih =>
    rw [List.map_cons, List.mem_cons, not_or] at hhashable
    obtain ⟨p, hp⟩ := Option.ne_none_iff_exists'.mp (Ne.symm hhashable.1)
    have hfresh : p ∉ byPrev.map Prod.fst := by
      intro hmem
      obtain ⟨kv, hkv, rfl⟩ := List.mem_map.mp hmem
      exact List.nodup_append.mp hnodup |>.2.2 (some kv.1) (List.mem_map_of_mem hkv) (prevHash e)
        (by simp) hp.symm
    have hrest := @ih (i + 1) (byPrev ++ [(p, e)]) (by simpa [hp] using hnodup) hhashable.2
    simp only [indexPrev, hp, if_neg hfresh, hrest, named, List.filterMap_cons, Option.map_some,
      List.append_assoc, List.singleton_append]

theorem indexPrev_eq_typeError_iff {i : ℕ} {byPrev : List (κ × α)}
    (hnodup : (byPrev.map fun kv => some kv.1).Nodup) :
    indexPrev prevHash i items byPrev = .error .typeError ↔
      ∃ before e after, items = before ++ e :: after ∧ prevHash e = none ∧
        ((byPrev.map fun kv => some kv.1) ++ before.map prevHash).Nodup := by
  induction items generalizing i byPrev with
  | nil => simp [indexPrev]
  | cons x rest ih =>
    cases hp : prevHash x with
    | none =>
      simp only [indexPrev, hp, true_iff]
      exact ⟨[], x, rest, rfl, hp, by simpa using hnodup⟩
    | some p =>
      by_cases hseen : p ∈ byPrev.map Prod.fst
      · simp only [indexPrev, hp, if_pos hseen, Except.error.injEq, reduceCtorEq, false_iff]
        rintro ⟨before, e, after, hitems, he, hbefore⟩
        cases before with
        | nil =>
          obtain ⟨rfl, -⟩ := List.cons.inj hitems
          simp [hp] at he
        | cons y before =>
          obtain ⟨rfl, -⟩ := List.cons.inj hitems
          obtain ⟨kv, hkv, rfl⟩ := List.mem_map.mp hseen
          exact List.nodup_append.mp hbefore |>.2.2 (some kv.1) (List.mem_map_of_mem hkv)
            (prevHash x) (by simp) hp.symm
      · simp only [indexPrev, hp, if_neg hseen]
        rw [ih (nodup_keys_snoc hnodup hseen)]
        constructor
        · rintro ⟨before, e, after, rfl, he, hbefore⟩
          exact ⟨x :: before, e, after, rfl, he, by simpa [hp] using hbefore⟩
        · rintro ⟨before, e, after, hitems, he, hbefore⟩
          cases before with
          | nil =>
            obtain ⟨rfl, -⟩ := List.cons.inj hitems
            simp [hp] at he
          | cons y before =>
            obtain ⟨rfl, rfl⟩ := List.cons.inj hitems
            exact ⟨before, e, after, rfl, he, by simpa [hp] using hbefore⟩

theorem nodup_of_indexPrev {i : ℕ} {byPrev filled : List (κ × α)}
    (hnodup : (byPrev.map fun kv => some kv.1).Nodup)
    (h : indexPrev prevHash i items byPrev = .ok filled) :
    ((byPrev.map fun kv => some kv.1) ++ items.map prevHash).Nodup := by
  induction items generalizing i byPrev with
  | nil => simpa using hnodup
  | cons x rest ih =>
    cases hp : prevHash x with
    | none => simp [indexPrev, hp] at h
    | some p =>
      by_cases hseen : p ∈ byPrev.map Prod.fst
      · simp [indexPrev, hp, if_pos hseen] at h
      · simp only [indexPrev, hp, if_neg hseen] at h
        simpa [hp] using ih (nodup_keys_snoc hnodup hseen) h

theorem lookup_named (hnodup : (items.map prevHash).Nodup) {p : κ} {e : α} :
    (named prevHash items).lookup p = some e ↔ e ∈ items ∧ prevHash e = some p := by
  rw [← mem_named]
  induction items with
  | nil => simp [named]
  | cons x rest ih =>
    obtain ⟨hx, hrest⟩ := List.nodup_cons.mp hnodup
    cases hp : prevHash x with
    | none => simpa [named, hp] using ih hrest
    | some q =>
      have hcons : named prevHash (x :: rest) = (q, x) :: named prevHash rest := by simp [named, hp]
      rw [hcons, List.lookup_cons, List.mem_cons]
      by_cases hpq : p = q
      · subst hpq
        have hout : (p, e) ∉ named prevHash rest := fun hmem => by
          obtain ⟨he, hpe⟩ := mem_named.mp hmem
          exact hx (hp ▸ hpe ▸ List.mem_map_of_mem he)
        simp [hout, eq_comm]
      · have hbeq : (p == q) = false := by simpa using hpq
        simp [hbeq, hpq, ih hrest]

end ByPrev

section Follow

/-- The next of some entries: one of them that names the hash. -/
def Next (prevHash entryHash : α → Option κ) (items : List α) (a b : α) : Prop :=
  b ∈ items ∧ prevHash b = entryHash a

variable (hnodup : (items.map prevHash).Nodup) (hhashes : none ∉ items.map entryHash)
include hnodup

omit [DecidableEq κ] in
theorem Next.det {a b c : α} (hb : Next prevHash entryHash items a b)
    (hc : Next prevHash entryHash items a c) : b = c :=
  List.inj_on_of_nodup_map hnodup hb.1 hc.1 (hb.2.trans hc.2.symm)

theorem lookup_next {a b : α} (ha : entryHash a ≠ none) :
    ((entryHash a).bind fun h => (named prevHash items).lookup h) = some b ↔
      Next prevHash entryHash items a b := by
  obtain ⟨h, hh⟩ := Option.ne_none_iff_exists'.mp ha
  rw [hh, Option.bind_some, lookup_named hnodup, Next, hh]

include hhashes

omit [DecidableEq κ] hnodup in
theorem hashable_of_mem {a : α} (ha : a ∈ items) : entryHash a ≠ none :=
  fun hnone => hhashes (hnone ▸ List.mem_map_of_mem ha)

theorem follow_eq_ok {missing len : ℕ} {last : α} {rest : List α} (hlast : last ∈ items)
    (h : follow entryHash (named prevHash items) missing len last = .ok rest) :
    (last :: rest).IsChain (Next prevHash entryHash items) ∧ rest.length = missing := by
  induction missing generalizing len last rest with
  | zero =>
    simp only [follow, Except.ok.injEq] at h
    subst h
    exact ⟨.singleton _, rfl⟩
  | succ missing ih =>
    cases hnext : (entryHash last).bind fun h => (named prevHash items).lookup h with
    | none => simp [follow, hnext] at h
    | some nxt =>
      simp only [follow, hnext] at h
      cases hmore : follow entryHash (named prevHash items) missing (len + 1) nxt with
      | error err => simp [hmore, Except.map] at h
      | ok more =>
        simp only [hmore, Except.map, Except.ok.injEq] at h
        subst h
        have hstep := (lookup_next hnodup (hashable_of_mem hhashes hlast)).mp hnext
        obtain ⟨hwalk, hlen⟩ := ih hstep.1 hmore
        exact ⟨.cons_cons hstep hwalk, by simp [hlen]⟩

omit hnodup hhashes in
theorem follow_eq_error {byPrev : List (κ × α)} {missing len : ℕ} {last : α} {err : OrderError}
    (h : follow entryHash byPrev missing len last = .error err) :
    ∃ index, err = .chainError index "broken_link" "" := by
  induction missing generalizing len last with
  | zero => simp [follow] at h
  | succ missing ih =>
    cases hnext : (entryHash last).bind fun h => byPrev.lookup h with
    | none =>
      simp only [follow, hnext, Except.error.injEq] at h
      exact ⟨len, h.symm⟩
    | some nxt =>
      cases hmore : follow entryHash byPrev missing (len + 1) nxt with
      | ok more => simp [follow, hnext, hmore, Except.map] at h
      | error err =>
        simp only [follow, hnext, hmore, Except.map, Except.error.injEq] at h
        subst h
        exact ih hmore

theorem follow_total (htotal : ∀ a ∈ items, ∃ b, Next prevHash entryHash items a b)
    (missing len : ℕ) {last : α} (hlast : last ∈ items) :
    ∃ rest, follow entryHash (named prevHash items) missing len last = .ok rest := by
  induction missing generalizing len last with
  | zero => exact ⟨[], rfl⟩
  | succ missing ih =>
    obtain ⟨nxt, hnext⟩ := htotal last hlast
    obtain ⟨rest, hrest⟩ := ih (len + 1) hnext.1
    have hlookup := (lookup_next hnodup (hashable_of_mem hhashes hlast)).mpr hnext
    exact ⟨nxt :: rest, by simp only [follow, hlookup, hrest, Except.map]⟩

theorem follow_linked {last : α} {rest : List α} (len : ℕ) (hlast : last ∈ items)
    (hin : rest ⊆ items) (hlinked : Linked prevHash entryHash (entryHash last) rest) :
    follow entryHash (named prevHash items) rest.length len last = .ok rest := by
  induction rest generalizing last len with
  | nil => rfl
  | cons x rest ih =>
    have hx : x ∈ items := hin List.mem_cons_self
    have hlookup := (lookup_next hnodup (hashable_of_mem hhashes hlast)).mpr ⟨hx, hlinked.1⟩
    have hrest := ih (len + 1) hx (fun _ hy => hin (List.mem_cons_of_mem x hy)) hlinked.2
    simp only [List.length_cons, follow, hlookup, hrest, Except.map]

end Follow

section Order

variable (prevHash entryHash items)

/-- The function fails as it should or puts the entries into one chain, and puts every shuffled
chain in order. -/
structure Orders : Prop where
  sound : (∃ index reason detail, chainOrder prevHash entryHash items =
      .error (.chainError index reason detail)) ∨
    ∃ ordered, chainOrder prevHash entryHash items = .ok ordered ∧ ordered.Perm items ∧
      ordered.IsChain fun a b => prevHash b = entryHash a
  restores : ∀ p chain, chain ≠ [] → Linked prevHash entryHash (some p) chain →
    Marked entryHash (some p) chain → none ∉ chain.map entryHash → items.Perm chain →
      chainOrder prevHash entryHash items = .ok chain

/-- Every hash can be hashed where the function comes to it; and the walk from a single start cannot
go round past entries it does not reach. -/
structure Fits : Prop where
  hashable : none ∉ items.map entryHash
  refused : ∀ before e after, items = before ++ e :: after → prevHash e = none →
    ¬ (before.map prevHash).Nodup
  reached : (items.map prevHash).Nodup → ∀ start, starts prevHash entryHash items = [start] →
    (items.map entryHash).Nodup ∨
      ∀ e ∈ items, ReflTransGen (Next prevHash entryHash items) start e

variable {prevHash entryHash items}

omit [DecidableEq κ] in
theorem hashable_of_nodup (hrefused : ∀ before e after, items = before ++ e :: after →
    prevHash e = none → ¬ (before.map prevHash).Nodup) (hnodup : (items.map prevHash).Nodup) :
    none ∉ items.map prevHash := by
  intro hmem
  obtain ⟨e, he, hnone⟩ := List.mem_map.mp hmem
  obtain ⟨before, after, rfl⟩ := List.append_of_mem he
  rw [List.map_append] at hnodup
  exact hrefused before e after rfl hnone (List.nodup_append.mp hnodup).1

theorem chainOrder_of_start {start : α} (hhashes : none ∉ items.map entryHash)
    (hnodup : (items.map prevHash).Nodup) (hprevs : none ∉ items.map prevHash)
    (hstart : starts prevHash entryHash items = [start]) :
    chainOrder prevHash entryHash items =
      (follow entryHash (named prevHash items) (items.length - 1) 1 start).map (start :: ·) := by
  have hindex := @indexPrev_eq_ok _ _ _ prevHash items 0 [] (by simpa using hnodup) hprevs
  simp only [chainOrder, if_neg hhashes, hindex, List.nil_append, hstart]

/-- A shuffled chain is put in order. -/
theorem chainOrder_of_linked {p : κ} {chain : List α} (hne : chain ≠ [])
    (hlinked : Linked prevHash entryHash (some p) chain)
    (hmarked : Marked entryHash (some p) chain) (hhashes : none ∉ chain.map entryHash)
    (hperm : items.Perm chain) : chainOrder prevHash entryHash items = .ok chain := by
  cases chain with
  | nil => exact absurd rfl hne
  | cons first rest =>
    have hmarks : none ∉ items.map entryHash := mt (hperm.map entryHash).mem_iff.mp hhashes
    have hnamed : ∀ e ∈ first :: rest, prevHash e = some p ∨
        ∃ z ∈ first :: rest, prevHash e = entryHash z := fun e he => hlinked.prev_of_mem he
    have hprevs : none ∉ items.map prevHash := by
      intro hmem
      obtain ⟨e, he, hnone⟩ := List.mem_map.mp ((hperm.map prevHash).mem_iff.mp hmem)
      rcases hnamed e he with hp | ⟨z, hz, hp⟩
      · simp [hp] at hnone
      · exact hhashes (hnone ▸ hp ▸ List.mem_map_of_mem hz)
    have hnodup : (items.map prevHash).Nodup := by
      rw [(hperm.map prevHash).nodup_iff]
      exact List.Nodup.map_on (hlinked.prev_inj hmarked) hmarked.nodup
    have hfirst : first ∈ items := hperm.mem_iff.mpr List.mem_cons_self
    have hstart : starts prevHash entryHash items = [first] := by
      refine List.perm_singleton.mp ((hperm.filter _).trans ?_)
      have hout : ∀ e ∈ first :: rest, prevHash e ∉ items.map entryHash ↔ e = first := by
        intro e he
        rw [(hperm.map entryHash).mem_iff]
        constructor
        · intro hnot
          rcases hnamed e he with hp | ⟨z, hz, hp⟩
          · exact hlinked.eq_head hmarked he hp
          · exact absurd (hp ▸ List.mem_map_of_mem hz) hnot
        · rintro rfl hmem
          obtain ⟨z, hz, hmark⟩ := List.mem_map.mp hmem
          exact hmarked.fresh z hz (hmark.trans hlinked.1)
      have hothers : ∀ e ∈ rest, e ≠ first := fun e he heq =>
        (List.nodup_cons.mp hmarked.nodup).1 (heq ▸ he)
      rw [List.filter_cons_of_pos (by simpa using (hout first List.mem_cons_self).mpr rfl),
        List.filter_eq_nil_iff.mpr fun e he => by
          simpa using mt (hout e (List.mem_cons_of_mem first he)).mp (hothers e he)]
    have hlen : items.length - 1 = rest.length := by simp [hperm.length_eq]
    rw [chainOrder_of_start hmarks hnodup hprevs hstart, hlen,
      follow_linked hnodup hmarks 1 hfirst
        (fun x hx => hperm.mem_iff.mpr (List.mem_cons_of_mem first hx)) hlinked.2, Except.map]

/-- With one hash named by no two entries, and two entries under one hash, every entry has a next
one: the entries but for the start name as many hashes as there are. -/
theorem next_of_repeated {start : α} (hnodup : (items.map prevHash).Nodup)
    (hstart : starts prevHash entryHash items = [start])
    (hrepeated : ¬ (items.map entryHash).Nodup) {a : α} (ha : a ∈ items) :
    ∃ b, Next prevHash entryHash items a b := by
  have hitems : items.Nodup := .of_map _ hnodup
  set others := items.filter fun e => prevHash e ∈ items.map entryHash with hothers
  have hlen : others.length + 1 = items.length := by
    have hsplit := (List.filter_append_perm (fun e => decide (prevHash e ∈ items.map entryHash))
      items).length_eq
    have hstarts : (items.filter fun e => !decide (prevHash e ∈ items.map entryHash)) = [start] := by
      rw [← hstart, starts]
      simp only [decide_not]
    rw [List.length_append, hstarts] at hsplit
    exact hsplit
  have hsub : others.map prevHash ⊆ (items.map entryHash).dedup := by
    intro h hmem
    obtain ⟨e, he, rfl⟩ := List.mem_map.mp hmem
    exact List.mem_dedup.mpr (by simpa using (List.mem_filter.mp he).2)
  have hshort : (items.map entryHash).dedup.length < items.length := by
    have hle := (List.dedup_sublist (items.map entryHash)).length_le
    rw [List.length_map] at hle
    refine lt_of_le_of_ne hle fun heq => hrepeated ?_
    rw [← List.dedup_eq_self]
    exact (List.dedup_sublist _).eq_of_length (by rw [heq, List.length_map])
  have hperm : (others.map prevHash).Perm (items.map entryHash).dedup := by
    refine List.Subperm.perm_of_length_le (List.Nodup.subperm ?_ hsub) ?_
    · exact (List.filter_sublist.map prevHash).nodup hnodup
    · rw [List.length_map]
      omega
  have hmem : entryHash a ∈ others.map prevHash :=
    hperm.mem_iff.mpr (List.mem_dedup.mpr (List.mem_map_of_mem ha))
  obtain ⟨b, hb, heq⟩ := List.mem_map.mp hmem
  exact ⟨b, (List.mem_filter.mp hb).1, heq⟩

omit [DecidableEq κ] in
theorem mem_of_walk {a : α} {rest : List α}
    (hwalk : (a :: rest).IsChain (Next prevHash entryHash items)) : rest ⊆ items := by
  induction rest generalizing a with
  | nil => exact List.nil_subset _
  | cons b rest ih =>
    obtain ⟨hstep, hrest⟩ := List.isChain_cons_cons.mp hwalk
    exact List.cons_subset.mpr ⟨hstep.1, ih hrest⟩

theorem perm_of_walk {start : α} {rest : List α} (hnodup : (items.map prevHash).Nodup)
    (hstart : starts prevHash entryHash items = [start])
    (hreached : (items.map entryHash).Nodup ∨
      ∀ e ∈ items, ReflTransGen (Next prevHash entryHash items) start e)
    (hwalk : (start :: rest).IsChain (Next prevHash entryHash items))
    (hlen : rest.length = items.length - 1) : (start :: rest).Perm items := by
  obtain ⟨hmem, hfirst⟩ := List.mem_filter.mp (hstart ▸ List.mem_singleton_self start)
  have hin : start :: rest ⊆ items := List.cons_subset.mpr ⟨hmem, mem_of_walk hwalk⟩
  have hlength : (start :: rest).length = items.length := by
    have := List.length_pos_of_mem hmem
    simp only [List.length_cons, hlen]
    omega
  have hfull : (start :: rest).Nodup → (start :: rest).Perm items := fun h =>
    (h.subperm hin).perm_of_length_le hlength.ge
  rcases hreached with hhashes | hreached
  · refine hfull (nodup_of_walk hwalk (fun x hx hnext => ?_) fun x hx y hy z hxz hyz => ?_)
    · have hnamed : prevHash start ∈ items.map entryHash :=
        hnext.2 ▸ List.mem_map_of_mem (hin hx)
      simp [hnamed] at hfirst
    · exact List.inj_on_of_nodup_map hhashes (hin hx) (hin hy) (hxz.2.symm.trans hyz.2)
  · by_cases hwalkNodup : (start :: rest).Nodup
    · exact hfull hwalkNodup
    · have hclosed : ∀ e, ReflTransGen (Next prevHash entryHash items) start e →
          e ∈ start :: rest := by
        intro e he
        induction he with
        | refl => exact List.mem_cons_self
        | tail _ hstep ih =>
          exact closed_of_walk hwalk (fun x _ y z => Next.det hnodup) hwalkNodup ih hstep
      have hsub : items ⊆ start :: rest := fun e he => hclosed e (hreached e he)
      have hitems : items.Nodup := .of_map _ hnodup
      exact ((hitems.subperm hsub).perm_of_length_le hlength.le).symm

/-- Where the function keeps its word, it refuses nothing by a type error, and everything leads back to
its one start. -/
theorem Orders.fits (h : Orders prevHash entryHash items) : Fits prevHash entryHash items := by
  have hno : chainOrder prevHash entryHash items ≠ .error .typeError := by
    intro herr
    rcases h.sound with ⟨_, _, _, hfail⟩ | ⟨_, hok, -⟩
    · cases herr.symm.trans hfail
    · cases herr.symm.trans hok
  have hhashes : none ∉ items.map entryHash := fun hmem => hno (if_pos hmem)
  have hrefused : ∀ before e after, items = before ++ e :: after → prevHash e = none →
      ¬ (before.map prevHash).Nodup := by
    intro before e after hitems he hbefore
    have hindex : indexPrev prevHash 0 items [] = .error .typeError :=
      (indexPrev_eq_typeError_iff (by simp)).mpr ⟨before, e, after, hitems, he, by simpa⟩
    exact hno (by simp only [chainOrder, if_neg hhashes, hindex])
  refine ⟨hhashes, hrefused, fun hnodup start hstart => ?_⟩
  by_cases hmarks : (items.map entryHash).Nodup
  · exact .inl hmarks
  have hprevs := hashable_of_nodup hrefused hnodup
  have hmem : start ∈ items := (List.mem_filter.mp (hstart ▸ List.mem_singleton_self start)).1
  obtain ⟨rest, hrest⟩ := follow_total hnodup hhashes
    (fun a ha => next_of_repeated hnodup hstart hmarks ha) (items.length - 1) 1 hmem
  have hok : chainOrder prevHash entryHash items = .ok (start :: rest) := by
    rw [chainOrder_of_start hhashes hnodup hprevs hstart, hrest, Except.map]
  obtain ⟨hwalk, -⟩ := follow_eq_ok hnodup hhashes hmem hrest
  rcases h.sound with ⟨_, _, _, hfail⟩ | ⟨ordered, hordered, hperm, -⟩
  · cases hok.symm.trans hfail
  · cases hok.symm.trans hordered
    refine .inr fun e he => ?_
    rcases List.mem_cons.mp (hperm.mem_iff.mpr he) with rfl | he
    · exact .refl
    · exact (hwalk.imp fun _ _ => ReflTransGen.single).rel_cons he

theorem Fits.sound (h : Fits prevHash entryHash items) :
    (∃ index reason detail, chainOrder prevHash entryHash items =
      .error (.chainError index reason detail)) ∨
    ∃ ordered, chainOrder prevHash entryHash items = .ok ordered ∧ ordered.Perm items ∧
      ordered.IsChain fun a b => prevHash b = entryHash a := by
  cases hindex : indexPrev prevHash 0 items [] with
  | error err =>
    cases err with
    | chainError index reason detail =>
      exact .inl ⟨index, reason, detail, by simp only [chainOrder, if_neg h.hashable, hindex]⟩
    | typeError =>
      obtain ⟨before, e, after, hitems, he, hbefore⟩ :=
        (indexPrev_eq_typeError_iff (by simp)).mp hindex
      exact absurd (by simpa using hbefore) (h.refused before e after hitems he)
  | ok byPrev =>
    have hnodup : (items.map prevHash).Nodup := by
      simpa using nodup_of_indexPrev (by simp) hindex
    have hprevs := hashable_of_nodup h.refused hnodup
    by_cases hone : ∃ start, starts prevHash entryHash items = [start]
    · obtain ⟨start, hstart⟩ := hone
      have hmem : start ∈ items :=
        (List.mem_filter.mp (hstart ▸ List.mem_singleton_self start)).1
      have heq := chainOrder_of_start h.hashable hnodup hprevs hstart
      cases hfollow : follow entryHash (named prevHash items) (items.length - 1) 1 start with
      | error err =>
        obtain ⟨index, rfl⟩ := follow_eq_error hfollow
        exact .inl ⟨index, "broken_link", "", by rw [heq, hfollow, Except.map]⟩
      | ok rest =>
        obtain ⟨hwalk, hlen⟩ := follow_eq_ok hnodup h.hashable hmem hfollow
        exact .inr ⟨start :: rest, by rw [heq, hfollow, Except.map],
          perm_of_walk hnodup hstart (h.reached hnodup start hstart) hwalk hlen,
          hwalk.imp fun _ _ hstep => hstep.2⟩
    · refine .inl ⟨0, "broken_link", toString (starts prevHash entryHash items).length ++
        " chain starts in the set", ?_⟩
      simp only [chainOrder, if_neg h.hashable, hindex]
      split
      · rename_i start hstart
        exact absurd ⟨start, hstart⟩ hone
      · rfl

/-- What comes of the entries: the exact condition under which the function keeps its word. -/
theorem orders_iff (prevHash entryHash : α → Option κ) (items : List α) :
    Orders prevHash entryHash items ↔ Fits prevHash entryHash items :=
  ⟨Orders.fits, fun h => ⟨h.sound, fun _ _ hne hlinked hmarked hhashes hperm =>
    chainOrder_of_linked hne hlinked hmarked hhashes hperm⟩⟩

/-- Two entries of one hash, the second its own predecessor, and one that nothing leads to. -/
def forgedExport : List (List (String × PyJson.Value)) :=
  [[("prev_hash", .str "x"), ("entry_hash", .str "h")],
    [("prev_hash", .str "h"), ("entry_hash", .str "h")],
    [("prev_hash", .str "c"), ("entry_hash", .str "c")]]

/-- The second entry comes twice and the third not at all. -/
theorem forgedExport_not_ordered :
    ¬ Orders (getHash "prev_hash") (getHash "entry_hash") forgedExport := by
  intro h
  have hok : chainOrder (getHash "prev_hash") (getHash "entry_hash") forgedExport =
      .ok [forgedExport[0], forgedExport[1], forgedExport[1]] := rfl
  rcases h.sound with ⟨_, _, _, hfail⟩ | ⟨ordered, hordered, hperm, -⟩
  · cases hok.symm.trans hfail
  · cases hok.symm.trans hordered
    exact absurd (hperm.map (getHash "entry_hash")) (by decide)

end Order

end RuntimeAudit

end JamJet
