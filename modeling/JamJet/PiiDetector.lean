import JamJet.Regex
import Mathlib.Data.List.Sort

/-! The detectors of personal data that run before a call to a model: the regular expressions, the
composite that de-overlaps what several detectors report, and the redaction of a text. -/

namespace JamJet

namespace Pii

open Regex (Body Pattern)

/-! ### Detectors -/

/-- What the engine takes `\d` and `\w` for. -/
class Classes where
  digit : Char → Bool
  word : Char → Bool

/-- The two classes of ASCII texts. -/
@[reducible]
def asciiClasses : Classes where
  digit c := c.isDigit
  word c := c.isAlphanum || c == '_'

structure PIIDetection where
  type : String
  value : List Char
  start : ℕ
  stop : ℕ

/-- `[REDACTED:<TYPE>]` -/
def token (type : String) : List Char := "[REDACTED:".toList ++ type.toList ++ [']']

/-- `sorted(detections, key=lambda x: x.start, reverse=True)`: those that start together keep their
order. -/
def rightToLeft (detections : List PIIDetection) : List PIIDetection :=
  detections.insertionSort fun a b => b.start ≤ a.start

/-- A token in place of a slice of the text. -/
def substitute {α : Type} (token : String → List α) (out : List α) (d : PIIDetection) : List α :=
  out.take d.start ++ token d.type ++ out.drop d.stop

/-- `redact` with what `scan` has reported, for letters of any type. -/
def redactAll {α : Type} (token : String → List α) (detections : List PIIDetection)
    (text : List α) : List α :=
  (rightToLeft detections).foldl (substitute token) text

structure PIIDetector where
  scan : List Char → List PIIDetection

def PIIDetector.redact (detector : PIIDetector) (text : List Char) : List Char :=
  let detections := detector.scan text
  if detections.isEmpty then text else redactAll token detections text

section Regexes

variable [Classes]

private def chr (c : Char) : Body Char := .one (· == c)

private def oneOf (cs : List Char) : Body Char := .one (cs.contains ·)

private def digits (n : ℕ) : Body Char := .times (.one Classes.digit) n n

/-- `[ -.]`, the letters from the space to the dot. -/
private def spaceToDot : Body Char := .one fun c => 0x20 ≤ c.toNat && c.toNat ≤ 0x2e

def emailPattern : Pattern Char where
  bounded := false
  body := .all [.many (fun c => c.isAlphanum || ['_', '.', '+', '-'].contains c) 1, chr '@',
    .many (fun c => c.isAlphanum || c == '-') 1, chr '.',
    .many (fun c => c.isAlphanum || ['-', '.'].contains c) 1]

def ssnPattern : Pattern Char where
  bounded := true
  body := .all [digits 3, chr '-', digits 2, chr '-', digits 4]

def creditCardPattern : Pattern Char where
  bounded := true
  body := .times (.seq (.one Classes.digit) (.opt (oneOf [' ', '-']))) 13 19

def phonePattern : Pattern Char where
  bounded := true
  body := .all [.opt (.all [.opt (chr '+'), chr '1', .opt (oneOf [' ', '-'])]), .opt (chr '('),
    digits 3, .opt (chr ')'), .opt spaceToDot, digits 3, .opt spaceToDot, digits 4]

def ipPattern : Pattern Char where
  bounded := true
  body := .seq (.times (.seq (.times (.one Classes.digit) 1 3) (chr '.')) 3 3)
    (.times (.one Classes.digit) 1 3)

def ibanPattern : Pattern Char where
  bounded := true
  body := .all [.times (.one Char.isUpper) 2 2, digits 2,
    .times (.one fun c => c.isUpper || c.isDigit) 1 30]

/-- `_REGEX_PATTERNS` -/
def regexPatterns : List (String × Pattern Char) :=
  [("EMAIL", emailPattern), ("US_SSN", ssnPattern), ("CREDIT_CARD", creditCardPattern),
    ("PHONE_NUMBER", phonePattern), ("IP_ADDRESS", ipPattern), ("IBAN_CODE", ibanPattern)]

/-- The matches of one type. -/
def detectionsOf (text : List Char) (type : String) : List PIIDetection :=
  match regexPatterns.lookup type with
  | some pattern => (pattern.finditer Classes.word text).map fun (value, start, stop) =>
      ⟨type, value, start, stop⟩
  | none => []

/-- A detector of some types; nothing when the constructor refuses one of them. -/
def regexDetector (types : List String) : Option PIIDetector :=
  if types.all fun type => (regexPatterns.lookup type).isSome then
    some ⟨fun text => types.flatMap (detectionsOf text)⟩
  else none

end Regexes

/-- The order of the composite: by start, the longest first. -/
def comesFirst (a b : PIIDetection) : Prop :=
  a.start < b.start ∨ a.start = b.start ∧ (b.stop - b.start : ℤ) ≤ a.stop - a.start

instance (a b : PIIDetection) : Decidable (comesFirst a b) :=
  inferInstanceAs (Decidable (_ ∨ _))

/-- The loop that keeps what does not overlap the last one kept; it starts at -1, which is before
every start as 0 is. -/
def deOverlap : ℕ → List PIIDetection → List PIIDetection
  | _, [] => []
  | lastEnd, d :: rest =>
    if lastEnd ≤ d.start then d :: deOverlap d.stop rest else deOverlap lastEnd rest

/-- What the sub-detectors report, in the order of the composite. -/
def merged (detectors : List PIIDetector) (text : List Char) : List PIIDetection :=
  (detectors.flatMap (·.scan text)).insertionSort comesFirst

/-- `CompositeDetector`. -/
def composite (detectors : List PIIDetector) : PIIDetector where
  scan text := deOverlap 0 (merged detectors text)

/-- `_build_detector`: the regular expressions, and Presidio on top when it is there. -/
def buildDetector [Classes] (presidio : Option PIIDetector) (types : List String) :
    Option PIIDetector :=
  (regexDetector types).map fun regex =>
    match presidio with
    | some presidio => composite [regex, presidio]
    | none => regex

/-! ### What survives a redaction -/

/-- The text with the position of each character, and a token with none. -/
def marked (text : List Char) : List (Option ℕ × Char) := text.zipIdx.map fun ci => (some ci.2, ci.1)

def markedToken (type : String) : List (Option ℕ × Char) := (token type).map fun c => (none, c)

/-- The positions of the characters that a redaction leaves in the text, in their order there. -/
def survivors (detections : List PIIDetection) (text : List Char) : List ℕ :=
  (redactAll markedToken detections (marked text)).filterMap Prod.fst

def Covers (d : PIIDetection) (i : ℕ) : Prop := d.start ≤ i ∧ i < d.stop

instance (d : PIIDetection) (i : ℕ) : Decidable (Covers d i) := inferInstanceAs (Decidable (_ ∧ _))

/-- The positions that no detection covers. -/
def uncovered (detections : List PIIDetection) (text : List Char) : List ℕ :=
  (List.range text.length).filter fun i => ∀ d ∈ detections, ¬ Covers d i

/-- Of what was reported every character is gone, and every other one is kept, in order. -/
def RedactsExactly (reported : List PIIDetection) (detector : PIIDetector) (text : List Char) :
    Prop :=
  survivors (detector.scan text) text = uncovered reported text

/-- The detections are spans inside the text. -/
def InText (detections : List PIIDetection) (text : List Char) : Prop :=
  ∀ d ∈ detections, d.start ≤ d.stop ∧ d.stop ≤ text.length

variable {d : PIIDetection} {ds : List PIIDetection} {text : List Char} {out : List (Option ℕ × Char)}
  {i k : ℕ}

/-- Where a substitution moves a character; nothing when it cuts it out. -/
def moved (d : PIIDetection) (p : ℕ) : Option ℕ :=
  if p < d.start then some p
  else if p < d.stop then none
  else some (p - d.stop + d.start + (token d.type).length)

theorem length_markedToken (type : String) : (markedToken type).length = (token type).length :=
  List.length_map _

/-- The character of a position is found where the substitution has moved it. -/
theorem find_substitute (hstart : d.start ≤ out.length) (hspan : d.start ≤ d.stop) :
    (substitute markedToken out d)[k]?.bind Prod.fst = some i ↔
      ∃ p, out[p]?.bind Prod.fst = some i ∧ moved d p = some k := by
  have htake : (out.take d.start).length = d.start := by simp [hstart]
  have hlead : (out.take d.start ++ markedToken d.type).length =
      d.start + (token d.type).length := by simp [hstart, length_markedToken]
  unfold substitute
  rcases Nat.lt_or_ge k d.start with hk | hk
  · -- before the token
    have hget : (out.take d.start ++ markedToken d.type ++ out.drop d.stop)[k]? = out[k]? := by
      rw [List.append_assoc, List.getElem?_append_left (by omega), List.getElem?_take_of_lt hk]
    rw [hget]
    constructor
    · exact fun h => ⟨k, h, by simp [moved, hk]⟩
    · rintro ⟨p, hp, hmoved⟩
      unfold moved at hmoved
      split at hmoved
      · cases hmoved
        exact hp
      · split at hmoved
        · cases hmoved
        · cases hmoved
          omega
  · rcases Nat.lt_or_ge k (d.start + (token d.type).length) with hk' | hk'
    · -- in the token
      have hget : (out.take d.start ++ markedToken d.type ++ out.drop d.stop)[k]?.bind Prod.fst =
          none := by
        rw [List.getElem?_append_left (by omega), List.getElem?_append_right (by omega)]
        simp [markedToken]
      rw [hget]
      constructor
      · simp
      · rintro ⟨p, hp, hmoved⟩
        unfold moved at hmoved
        split at hmoved
        · cases hmoved
          omega
        · split at hmoved
          · cases hmoved
          · cases hmoved
            omega
    · -- behind it
      have hget : (out.take d.start ++ markedToken d.type ++ out.drop d.stop)[k]? =
          out[k - (d.start + (token d.type).length) + d.stop]? := by
        rw [List.getElem?_append_right (by omega), hlead, List.getElem?_drop, Nat.add_comm]
      rw [hget]
      constructor
      · intro h
        refine ⟨_, h, ?_⟩
        unfold moved
        rw [if_neg (by omega), if_neg (by omega)]
        congr 1
        omega
      · rintro ⟨p, hp, hmoved⟩
        unfold moved at hmoved
        split at hmoved
        · cases hmoved
          omega
        · split at hmoved
          · cases hmoved
          · cases hmoved
            rw [show p - d.stop + d.start + (token d.type).length -
              (d.start + (token d.type).length) + d.stop = p by omega]
            exact hp

/-- Where a character ends up after several substitutions. -/
def movedAll (p : ℕ) : List PIIDetection → Option ℕ
  | [] => some p
  | d :: ds => (moved d p).bind fun p => movedAll p ds

theorem movedAll_append (ds ds' : List PIIDetection) (p : ℕ) :
    movedAll p (ds ++ ds') = (movedAll p ds).bind fun p => movedAll p ds' := by
  induction ds generalizing p with
  | nil => rfl
  | cons d ds ih => simp [movedAll, ih, Option.bind_assoc]

theorem find_foldl (hstart : ∀ d ∈ ds, d.start ≤ out.length) (hspan : ∀ d ∈ ds, d.start ≤ d.stop)
    (horder : ds.Pairwise fun a b => b.start ≤ a.start) :
    (ds.foldl (substitute markedToken) out)[k]?.bind Prod.fst = some i ↔
      ∃ p, out[p]?.bind Prod.fst = some i ∧ movedAll p ds = some k := by
  induction ds generalizing out with
  | nil => simp [movedAll]
  | cons d ds ih =>
    rw [List.pairwise_cons] at horder
    have hd := hstart d List.mem_cons_self
    have hleft : ∀ e ∈ ds, e.start ≤ (substitute markedToken out d).length := by
      intro e he
      have hle := horder.1 e he
      simp only [substitute, List.length_append, List.length_take]
      omega
    rw [List.foldl_cons, ih hleft (fun e he => hspan e (List.mem_cons_of_mem _ he)) horder.2]
    constructor
    · rintro ⟨p, hp, hmoved⟩
      obtain ⟨q, hq, hstep⟩ := (find_substitute hd (hspan d List.mem_cons_self)).mp hp
      exact ⟨q, hq, by simp [movedAll, hstep, hmoved]⟩
    · rintro ⟨q, hq, hmoved⟩
      obtain ⟨p, hstep, hrest⟩ := Option.bind_eq_some_iff.mp hmoved
      exact ⟨p, (find_substitute hd (hspan d List.mem_cons_self)).mpr ⟨q, hq, hstep⟩, hrest⟩

theorem sublist_substitute (hspan : d.start ≤ d.stop) :
    ((substitute markedToken out d).filterMap Prod.fst).Sublist (out.filterMap Prod.fst) := by
  have htoken : (markedToken d.type).filterMap Prod.fst = [] := by
    simp [markedToken, List.filterMap_map]
  have hout : out.filterMap Prod.fst =
      (out.take d.start).filterMap Prod.fst ++ (out.drop d.start).filterMap Prod.fst := by
    rw [← List.filterMap_append, List.take_append_drop]
  rw [substitute, List.filterMap_append, List.filterMap_append, htoken, List.append_nil, hout]
  exact (List.Sublist.refl _).append ((List.drop_sublist_drop_left _ hspan).filterMap _)

theorem sublist_foldl (hspan : ∀ d ∈ ds, d.start ≤ d.stop) :
    ((ds.foldl (substitute markedToken) out).filterMap Prod.fst).Sublist
      (out.filterMap Prod.fst) := by
  induction ds generalizing out with
  | nil => exact List.Sublist.refl _
  | cons d ds ih =>
    exact (ih fun e he => hspan e (List.mem_cons_of_mem _ he)).trans
      (sublist_substitute (hspan d List.mem_cons_self))

theorem marks_marked (text : List Char) :
    (marked text).filterMap Prod.fst = List.range text.length := by
  have hmap : (marked text).filterMap Prod.fst = text.zipIdx.map Prod.snd := by
    rw [marked, List.filterMap_map, ← List.filterMap_eq_map]
    rfl
  rw [hmap, List.zipIdx_map_snd, List.range_eq_range']

theorem find_marked {p : ℕ} :
    (marked text)[p]?.bind Prod.fst = some i ↔ i < text.length ∧ p = i := by
  simp only [marked, List.getElem?_map, List.getElem?_zipIdx]
  cases hp : text[p]? with
  | none =>
    have hlen := List.getElem?_eq_none_iff.mp hp
    simp only [Option.map_none, Option.bind_none, reduceCtorEq, false_iff]
    omega
  | some c =>
    obtain ⟨hlen, -⟩ := List.getElem?_eq_some_iff.mp hp
    simp only [Option.map_some, Option.bind_some, Option.some.injEq]
    omega

theorem pairwise_rightToLeft (ds : List PIIDetection) :
    (rightToLeft ds).Pairwise fun a b => b.start ≤ a.start :=
  have : Std.Total fun a b : PIIDetection => b.start ≤ a.start := ⟨fun _ _ => Nat.le_total _ _⟩
  have : IsTrans PIIDetection fun a b => b.start ≤ a.start := ⟨fun _ _ _ h h' => h'.trans h⟩
  List.pairwise_insertionSort _ ds

@[simp]
theorem mem_rightToLeft : d ∈ rightToLeft ds ↔ d ∈ ds := List.mem_insertionSort _

theorem survivors_eq (h : InText ds text) :
    survivors ds text =
      (List.range text.length).filter fun i => (movedAll i (rightToLeft ds)).isSome := by
  have hspan : ∀ d ∈ rightToLeft ds, d.start ≤ d.stop :=
    fun d hd => (h d (mem_rightToLeft.mp hd)).1
  have hstart : ∀ d ∈ rightToLeft ds, d.start ≤ (marked text).length := by
    intro d hd
    have hd := h d (mem_rightToLeft.mp hd)
    simp only [marked, List.length_map, List.length_zipIdx]
    omega
  have hsub : (survivors ds text).Sublist (List.range text.length) := by
    rw [← marks_marked]
    exact sublist_foldl hspan
  refine List.Pairwise.eq_of_mem_iff (List.pairwise_lt_range.sublist hsub)
    (List.pairwise_lt_range.filter _) fun i => ?_
  have hmem : i ∈ survivors ds text ↔ ∃ k : ℕ,
      (redactAll markedToken ds (marked text))[k]?.bind Prod.fst = some i := by
    rw [survivors, List.mem_filterMap]
    constructor
    · rintro ⟨mark, hmark, hi⟩
      obtain ⟨k, hk⟩ := List.getElem?_of_mem hmark
      exact ⟨k, by rw [hk]; exact hi⟩
    · rintro ⟨k, hk⟩
      obtain ⟨mark, hmark, hi⟩ := Option.bind_eq_some_iff.mp hk
      exact ⟨mark, List.mem_of_getElem? hmark, hi⟩
  rw [hmem, List.mem_filter, List.mem_range, Option.isSome_iff_exists]
  simp only [redactAll, find_foldl hstart hspan (pairwise_rightToLeft ds), find_marked]
  constructor
  · rintro ⟨k, p, ⟨hi, rfl⟩, hk⟩
    exact ⟨hi, k, hk⟩
  · rintro ⟨hi, k, hk⟩
    exact ⟨k, i, ⟨hi, rfl⟩, hk⟩

/-! ### When a redaction is exact -/

/-- How much longer a token is than what it replaces. -/
def growth (d : PIIDetection) : ℤ := (token d.type).length - (d.stop - d.start)

/-- Detections that start at or before a position, from the last: one of them ends behind it, when
it is counted with the growth of the ones before. -/
def EndsBehind (p : ℤ) : List PIIDetection → Prop
  | [] => False
  | d :: ds => p < d.stop ∨ EndsBehind (p + growth d) ds

/-- The offsets of the detections still fit when their turn comes: of those that start at or before
a position some one ends behind it just if some one ends behind the place it has moved to. -/
def OffsetsFit (ds : List PIIDetection) (text : List Char) : Prop :=
  ∀ i < text.length, (∃ d ∈ ds, Covers d i) ↔
    EndsBehind i ((rightToLeft ds).filter fun d => d.start ≤ i)

theorem movedAll_eq_none_iff {p : ℕ} (hspan : ∀ d ∈ ds, d.start ≤ d.stop)
    (horder : ds.Pairwise fun a b => b.start ≤ a.start) (hstart : ∀ d ∈ ds, d.start ≤ p) :
    movedAll p ds = none ↔ EndsBehind p ds := by
  induction ds generalizing p with
  | nil => simp [movedAll, EndsBehind]
  | cons d ds ih =>
    rw [List.pairwise_cons] at horder
    have hd := hstart d List.mem_cons_self
    have hds := hspan d List.mem_cons_self
    rw [EndsBehind, movedAll, moved, if_neg (by omega)]
    by_cases hcut : p < d.stop
    · simp [hcut]
    · have hshift : ((p - d.stop + d.start + (token d.type).length : ℕ) : ℤ) = p + growth d := by
        unfold growth
        omega
      rw [if_neg hcut, Option.bind_some,
        ih (fun e he => hspan e (List.mem_cons_of_mem _ he)) horder.2
          (fun e he => by have := horder.1 e he; omega), hshift]
      have hnot : ¬ (p : ℤ) < d.stop := by omega
      simp [hnot]

theorem movedAll_of_behind {p : ℕ} (h : ∀ d ∈ ds, p < d.start) : movedAll p ds = some p := by
  induction ds with
  | nil => rfl
  | cons d ds ih =>
    rw [movedAll, moved, if_pos (h d List.mem_cons_self), Option.bind_some]
    exact ih fun e he => h e (List.mem_cons_of_mem _ he)

theorem split_of_pairwise (horder : ds.Pairwise fun a b => b.start ≤ a.start) (i : ℕ) :
    ds = (ds.filter fun d => i < d.start) ++ ds.filter fun d => d.start ≤ i := by
  induction ds with
  | nil => rfl
  | cons d ds ih =>
    rw [List.pairwise_cons] at horder
    by_cases hd : i < d.start
    · rw [List.filter_cons_of_pos (by simpa using hd),
        List.filter_cons_of_neg (by simpa using hd), List.cons_append, ← ih horder.2]
    · have hbefore : ∀ e ∈ d :: ds, e.start ≤ i := by
        intro e he
        rcases List.mem_cons.mp he with rfl | he
        · omega
        · have := horder.1 e he
          omega
      rw [List.filter_eq_nil_iff.mpr fun e he => by simpa using hbefore e he, List.nil_append,
        List.filter_eq_self.mpr fun e he => by simpa using hbefore e he]

theorem cut_iff (h : InText ds text) (i : ℕ) : movedAll i (rightToLeft ds) = none ↔
    EndsBehind i ((rightToLeft ds).filter fun d => d.start ≤ i) := by
  have hsplit := split_of_pairwise (pairwise_rightToLeft ds) i
  have hall : movedAll i (rightToLeft ds) =
      movedAll i ((rightToLeft ds).filter fun d => d.start ≤ i) := by
    conv_lhs => rw [hsplit]
    rw [movedAll_append, movedAll_of_behind (by simp), Option.bind_some]
  rw [hall]
  refine movedAll_eq_none_iff (fun d hd => ?_) ((pairwise_rightToLeft ds).filter _) (by simp)
  exact (h d (mem_rightToLeft.mp (List.mem_of_mem_filter hd))).1

theorem filter_eq_iff {α : Type} {l : List α} {p q : α → Bool} :
    l.filter p = l.filter q ↔ ∀ a ∈ l, p a = q a := by
  constructor
  · intro h a ha
    have hmem : a ∈ l.filter p ↔ a ∈ l.filter q := by rw [h]
    simp only [List.mem_filter, ha, true_and] at hmem
    exact Bool.eq_iff_iff.mpr hmem
  · exact List.filter_congr

theorem exact_iff (h : InText ds text) :
    survivors ds text = uncovered ds text ↔ OffsetsFit ds text := by
  rw [survivors_eq h, uncovered, filter_eq_iff]
  refine forall_congr' fun i => ?_
  rw [List.mem_range]
  refine imp_congr_right fun _ => ?_
  have hcovered : (∃ d ∈ ds, Covers d i) ↔ ¬ ∀ d ∈ ds, ¬ Covers d i := by
    simp
  rw [hcovered, ← cut_iff h i, Bool.eq_iff_iff, decide_eq_true_iff, ← Option.not_isSome_iff_eq_none,
    not_iff_not]
  exact iff_comm

theorem not_endsBehind {p : ℤ} (hapart : ds.Pairwise fun a b => b.stop ≤ a.start)
    (hspan : ∀ d ∈ ds, d.start ≤ d.stop) (hp : ∀ d ∈ ds, (d.stop : ℤ) ≤ p) : ¬ EndsBehind p ds := by
  induction ds generalizing p with
  | nil => exact id
  | cons d ds ih =>
    rw [List.pairwise_cons] at hapart
    have hd := hp d List.mem_cons_self
    have hds := hspan d List.mem_cons_self
    rintro (hcut | hrest)
    · omega
    · refine ih hapart.2 (fun e he => hspan e (List.mem_cons_of_mem _ he)) (fun e he => ?_) hrest
      have := hapart.1 e he
      unfold growth
      omega

theorem offsetsFit_of_apart (h : InText ds text)
    (hapart : (rightToLeft ds).Pairwise fun a b => b.stop ≤ a.start) : OffsetsFit ds text := by
  intro i _
  have hspan : ∀ d ∈ (rightToLeft ds).filter (fun d => decide (d.start ≤ i)), d.start ≤ d.stop :=
    fun d hd => (h d (mem_rightToLeft.mp (List.mem_of_mem_filter hd))).1
  have hcovers : (∃ d ∈ ds, Covers d i) ↔
      ∃ d ∈ (rightToLeft ds).filter (fun d => decide (d.start ≤ i)), i < d.stop := by
    simp [Covers, and_assoc]
  have hstart : ∀ d ∈ (rightToLeft ds).filter (fun d => decide (d.start ≤ i)), d.start ≤ i := by
    simp
  have hapart := hapart.filter fun d => decide (d.start ≤ i)
  rw [hcovers]
  generalize (rightToLeft ds).filter (fun d => decide (d.start ≤ i)) = ds at *
  cases ds with
  | nil => simp [EndsBehind]
  | cons d ds =>
    rw [List.pairwise_cons] at hapart
    have hd := hstart d List.mem_cons_self
    have hlast : ¬ ∃ e ∈ ds, i < e.stop := by
      rintro ⟨e, he, hi⟩
      have := hapart.1 e he
      omega
    have hrest (hle : d.stop ≤ i) : ¬ EndsBehind (i + growth d) ds := by
      refine not_endsBehind hapart.2 (fun e he => hspan e (List.mem_cons_of_mem _ he)) fun e he => ?_
      have := hapart.1 e he
      unfold growth
      omega
    rw [EndsBehind, List.exists_mem_cons_iff, or_iff_left hlast]
    constructor
    · intro hi
      exact .inl (by omega)
    · rintro (hi | hi)
      · omega
      · by_contra hnot
        exact hrest (by omega) hi

/-! ### The composite -/

/-- The detections that are passed over, because they begin before the last one taken ends, never
reach past the ones taken: the next one begins right where that one ends, as long as something
that was passed over goes on (`owed` is how far). -/
def Tiled : ℕ → ℕ → List PIIDetection → Prop
  | last, owed, [] => owed ≤ last
  | last, owed, d :: ds =>
    if last ≤ d.start then (owed ≤ last ∨ d.start = last) ∧ Tiled d.stop owed ds
    else Tiled last (max owed d.stop) ds

variable {detectors : List PIIDetector} {last owed : ℕ}

theorem sublist_deOverlap (last : ℕ) (ds : List PIIDetection) :
    (deOverlap last ds).Sublist ds := by
  induction ds generalizing last with
  | nil => exact List.Sublist.refl _
  | cons d ds ih =>
    unfold deOverlap
    split
    · exact (ih _).cons_cons d
    · exact (ih _).cons d

theorem start_of_mem_deOverlap (hspan : ∀ d ∈ ds, d.start ≤ d.stop)
    (h : d ∈ deOverlap last ds) : last ≤ d.start := by
  induction ds generalizing last with
  | nil => simp [deOverlap] at h
  | cons e ds ih =>
    have hrest : ∀ d ∈ ds, d.start ≤ d.stop := fun d hd => hspan d (List.mem_cons_of_mem _ hd)
    unfold deOverlap at h
    split at h
    · next hle =>
      rcases List.mem_cons.mp h with rfl | h
      · exact hle
      · have := ih hrest h
        have := hspan e List.mem_cons_self
        omega
    · exact ih hrest h

theorem pairwise_deOverlap (hspan : ∀ d ∈ ds, d.start ≤ d.stop) :
    (deOverlap last ds).Pairwise fun a b => a.stop ≤ b.start := by
  induction ds generalizing last with
  | nil => simp [deOverlap]
  | cons d ds ih =>
    have hrest : ∀ d ∈ ds, d.start ≤ d.stop := fun d hd => hspan d (List.mem_cons_of_mem _ hd)
    unfold deOverlap
    split
    · exact List.pairwise_cons.mpr ⟨fun e he => start_of_mem_deOverlap hrest he, ih hrest⟩
    · exact ih hrest

/-- From a place on, what goes on there and what comes is covered by what is taken. -/
theorem tiled_iff (hspan : ∀ d ∈ ds, d.start ≤ d.stop)
    (horder : ds.Pairwise fun a b => a.start ≤ b.start) : Tiled last owed ds ↔
      ∀ i, last ≤ i → (i < owed ∨ ∃ d ∈ ds, Covers d i) → ∃ d ∈ deOverlap last ds, Covers d i := by
  induction ds generalizing last owed with
  | nil =>
    simp only [Tiled, deOverlap, List.not_mem_nil, false_and, exists_false, or_false]
    constructor
    · intro h i hi howed
      omega
    · intro h
      by_contra hlt
      exact h last le_rfl (by omega)
  | cons d ds ih =>
    rw [List.pairwise_cons] at horder
    have hrest : ∀ d ∈ ds, d.start ≤ d.stop := fun d hd => hspan d (List.mem_cons_of_mem _ hd)
    have hd := hspan d List.mem_cons_self
    unfold Tiled deOverlap
    split
    · next htaken =>
      rw [ih hrest horder.2]
      have hlater (i : ℕ) (hi : i < d.start) : ¬ ∃ e ∈ ds, Covers e i := by
        rintro ⟨e, he, hle, -⟩
        have := horder.1 e he
        omega
      constructor
      · rintro ⟨hgap, hall⟩ i hi hcovered
        rcases Nat.lt_or_ge i d.stop with hin | hbehind
        · -- inside the one taken, or before it, where nothing goes on
          refine ⟨d, List.mem_cons_self, ?_, hin⟩
          by_contra hbefore
          rcases hcovered with howed | ⟨e, he, hle, hlt⟩
          · omega
          · rcases List.mem_cons.mp he with rfl | he
            · omega
            · exact hlater i (by omega) ⟨e, he, hle, hlt⟩
        · have hcovered : i < owed ∨ ∃ e ∈ ds, Covers e i := by
            refine hcovered.imp_right ?_
            rintro ⟨e, he, hle, hlt⟩
            rcases List.mem_cons.mp he with rfl | he
            · omega
            · exact ⟨e, he, hle, hlt⟩
          obtain ⟨e, he, hcover⟩ := hall i hbehind hcovered
          exact ⟨e, List.mem_cons_of_mem _ he, hcover⟩
      · intro h
        constructor
        · -- otherwise nothing taken covers the end of the last one
          by_contra hgap
          obtain ⟨e, he, hle, hlt⟩ := h last le_rfl (.inl (by omega))
          rcases List.mem_cons.mp he with rfl | he
          · omega
          · have := start_of_mem_deOverlap hrest he
            omega
        · intro i hi hcovered
          obtain ⟨e, he, hcover⟩ := h i (by omega) (hcovered.imp_right fun ⟨e, he, hcover⟩ =>
            ⟨e, List.mem_cons_of_mem _ he, hcover⟩)
          rcases List.mem_cons.mp he with rfl | he
          · exact absurd hcover.2 (by omega)
          · exact ⟨e, he, hcover⟩
    · next hpassed =>
      rw [ih hrest horder.2]
      refine forall_congr' fun i => forall_congr' fun hi => imp_congr_left ?_
      have hcover : Covers d i ↔ i < d.stop := ⟨fun h => h.2, fun h => ⟨by omega, h⟩⟩
      have hmax : i < max owed d.stop ↔ i < owed ∨ i < d.stop := by omega
      rw [List.exists_mem_cons_iff, hcover, hmax, or_assoc]

theorem pairwise_merged (detectors : List PIIDetector) (text : List Char) :
    (merged detectors text).Pairwise comesFirst :=
  have : Std.Total comesFirst := ⟨fun a b => by unfold comesFirst; omega⟩
  have : IsTrans PIIDetection comesFirst := ⟨fun a b c => by unfold comesFirst; omega⟩
  List.pairwise_insertionSort _ _

theorem apart_of_kept (hspan : ∀ d ∈ ds, d.start ≤ d.stop) (horder : ds.Pairwise comesFirst)
    (hkept : ds.Pairwise fun a b => a.stop ≤ b.start) :
    (rightToLeft ds).Pairwise fun a b => b.stop ≤ a.start := by
  have hboth : ds.Pairwise fun a b => (b.stop ≤ a.start ∨ a.stop ≤ b.start) ∧
      (a.start = b.start → a.stop = a.start ∧ b.stop = b.start) := by
    refine (horder.and hkept).imp_of_mem fun {a b} ha hb h => ?_
    have := hspan a ha
    have := hspan b hb
    obtain ⟨hfirst, hle⟩ := h
    unfold comesFirst at hfirst
    omega
  have hsorted := (List.perm_insertionSort (fun a b : PIIDetection => b.start ≤ a.start) ds).symm.pairwise
    hboth (fun {a b} h => ⟨h.1.symm, fun heq => (h.2 heq.symm).symm⟩)
  refine ((pairwise_rightToLeft ds).and hsorted).imp_of_mem fun {a b} ha hb h => ?_
  have := hspan a (mem_rightToLeft.mp ha)
  have := hspan b (mem_rightToLeft.mp hb)
  omega

theorem composite_exact_iff (h : InText (detectors.flatMap (·.scan text)) text) :
    RedactsExactly (detectors.flatMap (·.scan text)) (composite detectors) text ↔
      Tiled 0 0 (merged detectors text) := by
  have hmem : ∀ d, d ∈ merged detectors text ↔ d ∈ detectors.flatMap (·.scan text) :=
    fun d => List.mem_insertionSort _
  have hspan : ∀ d ∈ merged detectors text, d.start ≤ d.stop :=
    fun d hd => (h d ((hmem d).mp hd)).1
  have hsub := sublist_deOverlap 0 (merged detectors text)
  have hkept : InText ((composite detectors).scan text) text :=
    fun d hd => h d ((hmem d).mp (hsub.subset hd))
  have hapart := apart_of_kept (fun d hd => hspan d (hsub.subset hd))
    ((pairwise_merged detectors text).sublist hsub) (pairwise_deOverlap hspan)
  have horder : (merged detectors text).Pairwise fun a b => a.start ≤ b.start :=
    (pairwise_merged detectors text).imp fun h => by unfold comesFirst at h; omega
  rw [RedactsExactly, (exact_iff hkept).mpr (offsetsFit_of_apart hkept hapart), uncovered, uncovered,
    filter_eq_iff, tiled_iff hspan horder]
  simp only [List.mem_range, decide_eq_decide]
  constructor
  · intro hsame i _ hcovered
    obtain ⟨d, hd, hcover⟩ := hcovered.resolve_left (Nat.not_lt_zero i)
    have hlen := (h d ((hmem d).mp hd)).2
    by_contra hnone
    refine (hsame i (hcover.2.trans_le hlen)).mp (fun e he hc => hnone ⟨e, he, hc⟩) d
      ((hmem d).mp hd) hcover
  · intro htiled i _
    constructor
    · intro hnone d hd hcover
      obtain ⟨e, he, hc⟩ := htiled i (Nat.zero_le i) (.inr ⟨d, (hmem d).mpr hd, hcover⟩)
      exact hnone e he hc
    · intro hnone d hd
      exact hnone d ((hmem d).mp (hsub.subset hd))

/-- The redaction of one detector is exact just if the offsets of its detections still fit when
their turn comes; the composite's, of all that its detectors report, just if those that it passes
over are tiled by those that it takes. -/
theorem redacts_exactly_iff (regex : PIIDetector) (others : List PIIDetector) (text : List Char)
    (h : InText ((regex :: others).flatMap (·.scan text)) text) :
    (RedactsExactly (regex.scan text) regex text ↔ OffsetsFit (regex.scan text) text) ∧
    (RedactsExactly ((regex :: others).flatMap (·.scan text)) (composite (regex :: others)) text ↔
      Tiled 0 0 (merged (regex :: others) text)) := by
  refine ⟨exact_iff fun d hd => h d ?_, composite_exact_iff h⟩
  exact List.mem_flatMap.mpr ⟨regex, List.mem_cons_self, hd⟩

/-- A detector of phone and card numbers, in this order. -/
def phoneAndCard : PIIDetector :=
  (@regexDetector asciiClasses ["PHONE_NUMBER", "CREDIT_CARD"]).getD ⟨fun _ => []⟩

/-- A detector that takes the first eight characters for a name. -/
def nameDetector : PIIDetector where
  scan text := [⟨"PERSON", text.take 8, 0, 8⟩]

theorem redacts_exactly_phone :
    RedactsExactly (phoneAndCard.scan "call 555-123-4567".toList) phoneAndCard
      "call 555-123-4567".toList :=
  (redacts_exactly_iff phoneAndCard [] "call 555-123-4567".toList
    (by unfold InText; decide +kernel)).1.mpr
    (offsetsFit_of_apart (by unfold InText; decide +kernel) (by decide +kernel))

/-- A phone number inside a card number leaves seven digits of the card; and a name that ends inside
a phone number keeps the composite from the digits that the regular expressions find. -/
theorem overlap_leaks :
    phoneAndCard.redact "555-123-4567 1234567".toList =
      "[REDACTED:CREDIT_CARD]ER] 1234567".toList ∧
    survivors (phoneAndCard.scan "555-123-4567 1234567".toList) "555-123-4567 1234567".toList =
      [12, 13, 14, 15, 16, 17, 18, 19] ∧
    uncovered (phoneAndCard.scan "555-123-4567 1234567".toList) "555-123-4567 1234567".toList = [] ∧
    phoneAndCard.redact "call 555-123-4567".toList = "call [REDACTED:PHONE_NUMBER]".toList ∧
    (composite [phoneAndCard, nameDetector]).redact "call 555-123-4567".toList =
      "[REDACTED:PERSON]-123-4567".toList := by
  decide +kernel

end Pii

end JamJet
