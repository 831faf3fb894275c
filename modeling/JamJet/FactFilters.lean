import JamJet.FactStore
import JamJet.TimestampOrder
import Mathlib.Data.List.TakeWhile

/-! A filter on facts is written twice: as conditions on the columns of a statement, times as texts
and substrings as patterns, and as a predicate on facts.  Where do the two part? -/

namespace JamJet.Engram

/-- A substring, ASCII letters in either case. -/
def containsIgnoringCase (needle text : String) : Bool :=
  needle.toList.map Char.toLower <:+: text.toList.map Char.toLower

/-- The text of a time; times are nanoseconds from `origin`. -/
def columnText (origin : ℤ) (t : Instant) : List Char := Gregorian.toRfc3339 (origin + (t : ℕ))

namespace FactFilter

/-- The equalities on scope, tier and category. -/
def columnsMatch (filter : FactFilter) (f : Fact) : Bool :=
  filter.scope.all (fun scope => scope.selects f.scope) &&
    filter.tier.all (fun tier => f.tier = tier) &&
    filter.category.all (fun category => f.category = some category)

/-- The validity of a row, times compared as the texts they are kept in. -/
def sqlValid (origin : ℤ) (filter : FactFilter) (f : Fact) : Bool :=
  match filter.asOf with
  | some at_ => !Gregorian.textBefore (columnText origin at_) (columnText origin f.validFrom) &&
      f.invalidAt.all fun expiry =>
        Gregorian.textBefore (columnText origin at_) (columnText origin expiry)
  | none => !filter.validOnly || f.invalidAt.isNone

def likeMatches (filter : FactFilter) (f : Fact) : Bool :=
  filter.textContains.all fun needle => likeContains needle f.text

/-- The `WHERE` clause. -/
def sqlSelects (origin : ℤ) (filter : FactFilter) (f : Fact) : Bool :=
  filter.columnsMatch f && filter.sqlValid origin f && filter.likeMatches f

def validNow (filter : FactFilter) (now : Instant) (f : Fact) : Bool :=
  match filter.asOf with
  | some at_ => f.isValidAt at_
  | none => !filter.validOnly || f.isValidAt now

def contains (filter : FactFilter) (f : Fact) : Bool :=
  filter.textContains.all fun needle => containsIgnoringCase needle f.text

/-- The predicate on facts: in the scope, of the tier and the category, valid, with the text. -/
def inMemory (filter : FactFilter) (now : Instant) (f : Fact) : Bool :=
  filter.scope.all (fun scope => scope.contains f.scope) &&
    filter.tier.all (fun tier => f.tier = tier) &&
    filter.category.all (fun category => f.category = some category) &&
    filter.validNow now f && filter.contains f

end FactFilter

/-- `list_facts` as the statement it runs. -/
def FactStore.selectFacts (origin : ℤ) (order : ListingOrder) (s : FactStore)
    (filter : FactFilter) : Except MemoryError (List Fact) :=
  statement (FactStore.filterTexts filter)
    (((order.sort (s.facts.rows.filter (filter.sqlSelects origin))).drop filter.offset).take
      filter.limit)

/-- A time of the years 0 to 9999. -/
def FourDigitYear (origin : ℤ) (t : Instant) : Prop :=
  Gregorian.yearZero * 1000000 ≤ origin + (t : ℕ) ∧
    origin + (t : ℕ) < Gregorian.yearTenThousand * 1000000

section Listing

variable {origin : ℤ} {order : ListingOrder} {s : FactStore} {filter : FactFilter} {now : Instant}
  {f : Fact}

/-- The listing has exactly the facts of the table that the predicate selects. -/
def ListsExactly (origin : ℤ) (order : ListingOrder) (s : FactStore) (filter : FactFilter)
    (now : Instant) : Prop :=
  ∃ facts, s.selectFacts origin order filter = .ok facts ∧
    facts.Perm (s.facts.rows.filter (filter.inMemory now))

/-- Among the rows the offset skips. -/
def Skipped (origin : ℤ) (order : ListingOrder) (s : FactStore) (filter : FactFilter)
    (f : Fact) : Prop :=
  f ∈ (order.sort (s.facts.rows.filter (filter.sqlSelects origin))).take filter.offset

/-- The columns count a fact as valid that is not: it has no end but has not begun, or its times
and the one asked for are not in the order of their texts. -/
def FalselyValid (origin : ℤ) (filter : FactFilter) (now : Instant) (f : Fact) : Prop :=
  match filter.asOf with
  | none => filter.validOnly = true ∧ f.invalidAt = none ∧ now < f.validFrom
  | some at_ => filter.sqlValid origin f = true ∧ f.isValidAt at_ = false

/-- The columns count a valid fact out: its end is known and still to come, or the texts are not
in the order of the times. -/
def FalselyInvalid (origin : ℤ) (filter : FactFilter) (now : Instant) (f : Fact) : Prop :=
  match filter.asOf with
  | none => filter.validOnly = true ∧ f.validFrom ≤ now ∧
      ∃ expiry, f.invalidAt = some expiry ∧ now < expiry
  | some at_ => filter.sqlValid origin f = false ∧ f.isValidAt at_ = true

/-- What keeps statement and predicate together on a row of the filter's scope, tier and
category. -/
structure RowFits (origin : ℤ) (order : ListingOrder) (s : FactStore) (filter : FactFilter)
    (now : Instant) (f : Fact) : Prop where
  falselyValid : FalselyValid origin filter now f → filter.likeMatches f = true →
    Skipped origin order s filter f
  falselyInvalid : FalselyInvalid origin filter now f → filter.contains f = false
  /-- The text matches by a wildcard alone. -/
  wildcard : filter.sqlValid origin f = true → filter.likeMatches f = true →
    filter.contains f = false → Skipped origin order s filter f
  /-- The text is cut off before the needle. -/
  cut : filter.validNow now f = true → filter.contains f = true → filter.likeMatches f = true
  kept : filter.validNow now f = true → filter.contains f = true →
    ¬ Skipped origin order s filter f

theorem isValidAt_iff : f.isValidAt now = true ↔
    f.validFrom ≤ now ∧ ∀ expiry, f.invalidAt = some expiry → now < expiry := by
  rw [Fact.isValidAt]
  split
  · rename_i h
    simp [not_le.mpr h]
  · rename_i h
    cases f.invalidAt <;> simp [not_lt.mp h]

theorem falselyValid_iff : FalselyValid origin filter now f ↔
    filter.sqlValid origin f = true ∧ filter.validNow now f = false := by
  unfold FalselyValid FactFilter.validNow
  cases hasOf : filter.asOf with
  | some at_ => rfl
  | none =>
    have hvalid : f.isValidAt now = true ↔ f.validFrom ≤ now ∧
        ∀ expiry, f.invalidAt = some expiry → now < expiry := isValidAt_iff
    cases honly : filter.validOnly with
    | false => simp
    | true =>
      cases hend : f.invalidAt with
      | none =>
        have hbegun : f.isValidAt now = true ↔ f.validFrom ≤ now := by simpa [hend] using hvalid
        simp [FactFilter.sqlValid, hasOf, hend, ← Bool.not_eq_true, hbegun]
      | some expiry => simp [FactFilter.sqlValid, hasOf, honly, hend]

theorem falselyInvalid_iff : FalselyInvalid origin filter now f ↔
    filter.sqlValid origin f = false ∧ filter.validNow now f = true := by
  unfold FalselyInvalid FactFilter.validNow
  cases hasOf : filter.asOf with
  | some at_ => rfl
  | none =>
    have hvalid : f.isValidAt now = true ↔ f.validFrom ≤ now ∧
        ∀ expiry, f.invalidAt = some expiry → now < expiry := isValidAt_iff
    cases honly : filter.validOnly with
    | false => simp [FactFilter.sqlValid, hasOf, honly]
    | true =>
      cases hend : f.invalidAt with
      | none => simp [FactFilter.sqlValid, hasOf, hend]
      | some expiry => simpa [FactFilter.sqlValid, hasOf, honly, hend] using hvalid.symm

theorem inMemory_iff : filter.inMemory now f = true ↔ filter.columnsMatch f = true ∧
    filter.validNow now f = true ∧ filter.contains f = true := by
  have hscope : filter.scope.all (fun scope => scope.contains f.scope) =
      filter.scope.all fun scope => scope.selects f.scope := by
    cases filter.scope <;> simp [Scope.selects_eq_contains]
  rw [FactFilter.inMemory, hscope]
  simp only [FactFilter.columnsMatch, Bool.and_eq_true, and_assoc]

theorem rowFits_iff : RowFits origin order s filter now f ↔
    ((filter.sqlValid origin f = true ∧ filter.likeMatches f = true) ∧
      ¬ Skipped origin order s filter f ↔
        filter.validNow now f = true ∧ filter.contains f = true) := by
  constructor
  · rintro ⟨hfalse, hmissed, hwildcard, hcut, hkept⟩
    rw [falselyValid_iff] at hfalse
    rw [falselyInvalid_iff] at hmissed
    cases hsql : filter.sqlValid origin f <;> cases hvalid : filter.validNow now f <;>
      cases hcontains : filter.contains f <;> simp_all
  · intro h
    refine ⟨?_, ?_, ?_, ?_, ?_⟩
    · rw [falselyValid_iff]
      rintro ⟨hsql, hvalid⟩ hlike
      by_contra hskip
      simp [hvalid] at h
      exact hskip (h hsql hlike)
    · rw [falselyInvalid_iff]
      rintro ⟨hsql, hvalid⟩
      simpa [hsql, hvalid] using h
    · intro hsql hlike hcontains
      simpa [hsql, hlike, hcontains] using h
    · intro hvalid hcontains
      exact (h.mpr ⟨hvalid, hcontains⟩).1.2
    · intro hvalid hcontains
      exact (h.mpr ⟨hvalid, hcontains⟩).2

theorem mem_page {l : List Fact} (hl : l.Nodup) (offset : ℕ) :
    f ∈ l.drop offset ↔ f ∈ l ∧ f ∉ l.take offset := by
  have hdisjoint := List.disjoint_take_drop hl (le_refl offset)
  constructor
  · intro h
    exact ⟨List.mem_of_mem_drop h, fun htake => hdisjoint htake h⟩
  · rintro ⟨hmem, hskip⟩
    rw [← List.take_append_drop offset l] at hmem
    exact (List.mem_append.mp hmem).resolve_left hskip

theorem listsExactly_iff_rows (hlimit : s.facts.rows.length ≤ filter.limit) :
    ListsExactly origin order s filter now ↔
      (FactStore.filterTexts filter).all quotable = true ∧ ∀ f ∈ s.facts.rows,
        (filter.sqlSelects origin f = true ∧ ¬ Skipped origin order s filter f ↔
          filter.inMemory now f = true) := by
  have hrows : s.facts.rows.Nodup := s.facts.nodup.of_map _
  have hperm := order.perm (s.facts.rows.filter (filter.sqlSelects origin))
  have hsorted := hperm.nodup_iff.mpr (hrows.filter _)
  have hmem : ∀ f, f ∈ (order.sort (s.facts.rows.filter (filter.sqlSelects origin))).drop
      filter.offset ↔ f ∈ s.facts.rows ∧
        (filter.sqlSelects origin f = true ∧ ¬ Skipped origin order s filter f) := by
    intro f
    rw [mem_page hsorted, hperm.mem_iff, List.mem_filter, and_assoc]
    rfl
  have hshort : ((order.sort (s.facts.rows.filter (filter.sqlSelects origin))).drop
      filter.offset).length ≤ filter.limit := by
    have hlength := hperm.length_eq
    have hfilter := List.length_filter_le (filter.sqlSelects origin) s.facts.rows
    rw [List.length_drop]
    omega
  rw [ListsExactly, FactStore.selectFacts, List.take_of_length_le hshort, statement]
  by_cases hquotable : (FactStore.filterTexts filter).all quotable = true
  · simp only [hquotable, if_true, Except.ok.injEq, true_and, exists_eq_left']
    rw [List.perm_ext_iff_of_nodup (hsorted.sublist (List.drop_sublist _ _)) (hrows.filter _)]
    simp only [hmem, List.mem_filter]
    constructor
    · intro h f hf
      simpa [hf] using h f
    · intro h f
      exact and_congr_right fun hf => h f hf
  · simp [hquotable]

def apples : Fact := { id := 1, text := "50 apples", scope := {}, validFrom := 0, createdAt := 0 }

/-- One fact in the table. -/
def applesStore : FactStore := ({} : FactStore).insertFact apples

end Listing

end JamJet.Engram
