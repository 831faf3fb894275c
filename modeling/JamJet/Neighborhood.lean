import JamJet.Consolidation
import JamJet.FactFilters
import JamJet.Fallible
import JamJet.GraphStore
import JamJet.Layers

/-! The neighbourhood of an entity in the SQLite graph store: a breadth-first search over the rows,
which keep times as texts. -/

namespace JamJet.Engram

/-- Valid at the given point in time. -/
def Relationship.isValidAt (rel : Relationship) (at_ : Instant) : Bool :=
  if at_ < rel.validFrom then false
  else
    match rel.invalidAt with
    | some exp => at_ < exp
    | none => true

structure SubGraph where
  entities : List Entity
  relationships : List Relationship

namespace Neighborhood

open Fallible GraphSearch GraphStore

section Rows

variable (origin : ℤ)

instance {t : Instant} : Decidable (FourDigitYear origin t) := inferInstanceAs (Decidable (_ ∧ _))

/-- `parse_dt` of the text of a time, in which a year that has not four digits has a sign. -/
def parseDt (t : Instant) : Except MemoryError Instant :=
  if FourDigitYear origin t then .ok t
  else .error (.serialization "input contains invalid characters")

def parseOptDt : Option Instant → Except MemoryError (Option Instant)
  | none => .ok none
  | some t => (parseDt origin t).map some

def rowToEntity (row : Entity) : Except MemoryError Entity := do
  let createdAt ← parseDt origin row.createdAt
  let updatedAt ← parseDt origin row.updatedAt
  return { row with createdAt := createdAt, updatedAt := updatedAt }

def rowToRelationship (row : Relationship) : Except MemoryError Relationship := do
  let validFrom ← parseDt origin row.validFrom
  let invalidAt ← parseOptDt origin row.invalidAt
  let createdAt ← parseDt origin row.createdAt
  return { row with validFrom := validFrom, invalidAt := invalidAt, createdAt := createdAt }

/-- The validity of a row, times compared as texts. -/
def validityClause (asOf : Option Instant) (row : Relationship) : Bool :=
  match asOf with
  | some t => !Gregorian.textBefore (columnText origin t) (columnText origin row.validFrom) &&
      row.invalidAt.all fun expiry =>
        Gregorian.textBefore (columnText origin t) (columnText origin expiry)
  | none => row.invalidAt.isNone

end Rows

section Search

/-- What the search has found, and what it has still to expand, with the depth that remains. -/
structure Search where
  visited : Finset EntityId
  entities : Table EntityId Entity (·.id) := .empty
  relationships : Table RelationshipId Relationship (·.id) := .empty
  queue : List (EntityId × ℕ) := []

variable (origin : ℤ) (asOf : Option Instant) (s : GraphStore)

/-- `get_entity`. -/
def fetchEntity (id : EntityId) : Except MemoryError (Option Entity) :=
  match s.entities.find? id with
  | some row => (rowToEntity origin row).map some
  | none => .ok none

/-- The valid relationships at an entity. -/
def relRows (current : EntityId) : List Relationship :=
  s.relationships.rows.filter fun row =>
    (row.sourceId = current || row.targetId = current) && validityClause origin asOf row

/-- One row of these. -/
def followRow (remaining : ℕ) (search : Search) (at_ : EntityId × Relationship) :
    Except MemoryError Search := do
  let rel ← rowToRelationship origin at_.2
  let neighborId := farEnd at_.1 rel
  let relationships := search.relationships.orInsert rel
  if neighborId ∈ search.visited then
    return { search with relationships := relationships }
  else do
    let entity ← fetchEntity origin s neighborId
    return {
      visited := insert neighborId search.visited
      entities := entity.elim search.entities search.entities.orInsert
      relationships := relationships
      queue := search.queue ++ [(neighborId, remaining - 1)] }

/-- The turns of the loop, at most so many. -/
def runSearch : ℕ → Search → Option (Except MemoryError Search)
  | 0, _ => none
  | rounds + 1, search =>
      match search.queue with
      | [] => some (.ok search)
      | (_, 0) :: queue => runSearch rounds { search with queue := queue }
      | (current, remaining + 1) :: queue =>
          match ((relRows origin asOf s current).map (current, ·)).foldlM
              (followRow origin s (remaining + 1)) { search with queue := queue } with
          | .ok search => runSearch rounds search
          | .error err => some (.error err)

/-- The rows of a hash map, in its order. -/
def values {κ α : Type} [DecidableEq κ] {key : α → κ} (order : HashOrder κ) (t : Table κ α key) :
    List α :=
  (order.walk (t.rows.map key).toFinset).filterMap t.find?

/-- `neighbors`, given the orders of its hash maps and a bound on the turns of its loop. -/
def neighbors (order : HashOrder EntityId) (relOrder : HashOrder RelationshipId) (id : EntityId)
    (depth rounds : ℕ) : Option (Except MemoryError SubGraph) :=
  (runSearch origin asOf s rounds { visited := {id}, queue := [(id, depth)] }).map fun result =>
    result.map fun search =>
      { entities := values order search.entities
        relationships := values relOrder search.relationships }

end Search

section Meaning

/-- Valid at the time asked for, or still valid where no time is. -/
def validAt (asOf : Option Instant) (rel : Relationship) : Bool :=
  match asOf with
  | some t => rel.isValidAt t
  | none => rel.invalidAt.isNone

/-- Two entities are the ends of a relationship, either way. -/
def Joined (s : GraphStore) (valid : Relationship → Bool) (a b : EntityId) : Prop :=
  ∃ rel ∈ s.relationships.rows, valid rel = true ∧
    ((rel.sourceId = a ∧ rel.targetId = b) ∨ (rel.targetId = a ∧ rel.sourceId = b))

def Touches (rel : Relationship) (near : EntityId → Prop) : Prop :=
  near rel.sourceId ∨ near rel.targetId

/-- The stored entities other than the start up to the given distance, and the valid relationships
at a vertex nearer than it, each once. -/
structure IsNeighborhood (s : GraphStore) (valid : Relationship → Bool) (id : EntityId) (depth : ℕ)
    (found : SubGraph) : Prop where
  entities : ∀ e, e ∈ found.entities ↔
    e ∈ s.entities.rows ∧ e.id ≠ id ∧ Within (Joined s valid) {id} depth e.id
  relationships : ∀ rel, rel ∈ found.relationships ↔ rel ∈ s.relationships.rows ∧
    valid rel = true ∧ Touches rel (Before (Joined s valid) {id} depth)
  entitiesOnce : found.entities.Nodup
  relationshipsOnce : found.relationships.Nodup

/-- The times of a row are read. -/
def RelReads (origin : ℤ) (rel : Relationship) : Prop :=
  FourDigitYear origin rel.validFrom ∧ (∀ t ∈ rel.invalidAt, FourDigitYear origin t) ∧
    FourDigitYear origin rel.createdAt

def EntityReads (origin : ℤ) (e : Entity) : Prop :=
  FourDigitYear origin e.createdAt ∧ FourDigitYear origin e.updatedAt

/-- Everything in a neighbourhood is read. -/
structure Reads (origin : ℤ) (s : GraphStore) (valid : Relationship → Bool) (id : EntityId)
    (depth : ℕ) : Prop where
  entities : ∀ e ∈ s.entities.rows, e.id ≠ id → Within (Joined s valid) {id} depth e.id →
    EntityReads origin e
  relationships : ∀ rel ∈ s.relationships.rows, valid rel = true →
    Touches rel (Before (Joined s valid) {id} depth) → RelReads origin rel

/-- On the relationships at a vertex nearer than the given distance the texts say what the times
say. -/
def TextsTell (origin : ℤ) (asOf : Option Instant) (s : GraphStore) (id : EntityId) (depth : ℕ) :
    Prop :=
  ∀ rel ∈ s.relationships.rows, Touches rel (Before (Joined s (validAt asOf)) {id} depth) →
    validityClause origin asOf rel = validAt asOf rel

end Meaning

section Reading

variable {origin : ℤ} {s : GraphStore}

/-- What the reading of a year of more than four digits gives. -/
def yearError : MemoryError := .serialization "input contains invalid characters"

theorem parseDt_eq (t : Instant) :
    parseDt origin t = if FourDigitYear origin t then .ok t else .error yearError := rfl

theorem parseOptDt_of_reads {t : Option Instant} (h : ∀ u ∈ t, FourDigitYear origin u) :
    parseOptDt origin t = .ok t := by
  cases t with
  | none => rfl
  | some u => rw [parseOptDt, parseDt_eq, if_pos (h u rfl), Except.map]

theorem parseOptDt_of_not {t : Option Instant} (h : ¬ ∀ u ∈ t, FourDigitYear origin u) :
    parseOptDt origin t = .error yearError := by
  cases t with
  | none => exact absurd (by simp) h
  | some u =>
    have hu : ¬ FourDigitYear origin u := by simpa using h
    rw [parseOptDt, parseDt_eq, if_neg hu, Except.map]

theorem rowToRelationship_of_reads {row : Relationship} (h : RelReads origin row) :
    rowToRelationship origin row = .ok row := by
  obtain ⟨hfrom, hend, hcreated⟩ := h
  rw [rowToRelationship, parseDt_eq, if_pos hfrom, parseOptDt_of_reads hend, parseDt_eq,
    if_pos hcreated]
  rfl

theorem rowToRelationship_of_not {row : Relationship} (h : ¬ RelReads origin row) :
    rowToRelationship origin row = .error yearError := by
  by_cases hfrom : FourDigitYear origin row.validFrom
  · by_cases hend : ∀ t ∈ row.invalidAt, FourDigitYear origin t
    · have hcreated : ¬ FourDigitYear origin row.createdAt := fun hc => h ⟨hfrom, hend, hc⟩
      rw [rowToRelationship, parseDt_eq, if_pos hfrom, parseOptDt_of_reads hend, parseDt_eq,
        if_neg hcreated]
      rfl
    · rw [rowToRelationship, parseDt_eq, if_pos hfrom, parseOptDt_of_not hend]
      rfl
  · rw [rowToRelationship, parseDt_eq, if_neg hfrom]
    rfl

theorem rowToEntity_of_reads {row : Entity} (h : EntityReads origin row) :
    rowToEntity origin row = .ok row := by
  rw [rowToEntity, parseDt_eq, if_pos h.1, parseDt_eq, if_pos h.2]
  rfl

theorem rowToEntity_of_not {row : Entity} (h : ¬ EntityReads origin row) :
    rowToEntity origin row = .error yearError := by
  by_cases hcreated : FourDigitYear origin row.createdAt
  · have hupdated : ¬ FourDigitYear origin row.updatedAt := fun hu => h ⟨hcreated, hu⟩
    rw [rowToEntity, parseDt_eq, if_pos hcreated, parseDt_eq, if_neg hupdated]
    rfl
  · rw [rowToEntity, parseDt_eq, if_neg hcreated]
    rfl

theorem fetchEntity_of_reads {id : EntityId}
    (h : ∀ e ∈ s.entities.find? id, EntityReads origin e) :
    fetchEntity origin s id = .ok (s.entities.find? id) := by
  rw [fetchEntity]
  cases hfind : s.entities.find? id with
  | none => rfl
  | some e => simp [rowToEntity_of_reads (h e hfind), Except.map]

theorem fetchEntity_of_not {id : EntityId} {e : Entity} (hfind : s.entities.find? id = some e)
    (h : ¬ EntityReads origin e) : fetchEntity origin s id = .error yearError := by
  simp [fetchEntity, hfind, rowToEntity_of_not h, Except.map]

end Reading

section Rounds

variable {origin : ℤ} {asOf : Option Instant} {s : GraphStore} {remaining : ℕ}

/-- What has been found is in the tables, and an entity that has been found was marked. -/
structure FromTables (s : GraphStore) (search : Search) : Prop where
  entities : ∀ e ∈ search.entities.rows, e ∈ s.entities.rows
  relationships : ∀ rel ∈ search.relationships.rows, rel ∈ s.relationships.rows

/-- What following some rows adds to a search, and the entities it marks. -/
structure Adds (s : GraphStore) (remaining : ℕ) (rows : List (EntityId × Relationship))
    (search search' : Search) (marked : List EntityId) : Prop where
  visited : ∀ b, b ∈ search'.visited ↔ b ∈ search.visited ∨ ∃ p ∈ rows, farEnd p.1 p.2 = b
  mem_marked : ∀ b, b ∈ marked ↔ b ∉ search.visited ∧ ∃ p ∈ rows, farEnd p.1 p.2 = b
  queue : search'.queue = search.queue ++ marked.map fun b => (b, remaining - 1)
  entities : ∀ e, e ∈ search'.entities.rows ↔
    e ∈ search.entities.rows ∨ (e ∈ s.entities.rows ∧ e.id ∈ marked)
  relationships : ∀ rel, rel ∈ search'.relationships.rows ↔
    rel ∈ search.relationships.rows ∨ ∃ p ∈ rows, p.2 = rel

theorem Adds.fromTables {rows : List (EntityId × Relationship)} {search search' : Search}
    {marked : List EntityId} (h : Adds s remaining rows search search' marked)
    (hfrom : FromTables s search) (hrows : ∀ p ∈ rows, p.2 ∈ s.relationships.rows) :
    FromTables s search' where
  entities e he := ((h.entities e).mp he).elim (hfrom.entities e) And.left
  relationships rel hrel := by
    rcases (h.relationships rel).mp hrel with hrel | ⟨p, hp, rfl⟩
    · exact hfrom.relationships rel hrel
    · exact hrows p hp

theorem Adds.nil (search : Search) : Adds s remaining [] search search [] := by
  constructor <;> simp

theorem Adds.cons {p : EntityId × Relationship} {rows : List (EntityId × Relationship)}
    {search search' search'' : Search} {marked marked' : List EntityId}
    (h : Adds s remaining [p] search search' marked)
    (hrest : Adds s remaining rows search' search'' marked') :
    Adds s remaining (p :: rows) search search'' (marked ++ marked') where
  visited b := by
    rw [hrest.visited, h.visited]
    simp [or_assoc]
  mem_marked b := by
    rw [List.mem_append, h.mem_marked, hrest.mem_marked, h.visited]
    by_cases hp : farEnd p.1 p.2 = b <;> simp [hp]
  queue := by
    rw [hrest.queue, h.queue, List.map_append, List.append_assoc]
  entities e := by
    rw [hrest.entities, h.entities, List.mem_append]
    tauto
  relationships rel := by
    rw [hrest.relationships, h.relationships]
    simp [or_assoc]

variable (remaining) in
/-- A row is followed when it and the entity it leads to are read, unless that is known. -/
theorem followRow_of_reads {search : Search} {p : EntityId × Relationship}
    (hfrom : FromTables s search) (hrow : p.2 ∈ s.relationships.rows) (hreads : RelReads origin p.2)
    (hentity : farEnd p.1 p.2 ∉ search.visited →
      ∀ e ∈ s.entities.rows, e.id = farEnd p.1 p.2 → EntityReads origin e) :
    ∃ search' marked, followRow origin s remaining search p = .ok search' ∧
      Adds s remaining [p] search search' marked := by
  have hrel : ∀ rel, rel ∈ (search.relationships.orInsert p.2).rows ↔
      rel ∈ search.relationships.rows ∨ ∃ q ∈ [p], q.2 = rel := by
    intro rel
    rw [Table.mem_orInsert hfrom.relationships hrow]
    simp [eq_comm]
  by_cases hknown : farEnd p.1 p.2 ∈ search.visited
  · refine ⟨{ search with relationships := search.relationships.orInsert p.2 }, [], ?_, ?_⟩
    · simp [followRow, rowToRelationship_of_reads hreads, bind, Except.bind, hknown, pure, Except.pure]
    · refine ⟨fun b => ?_, fun b => ?_, by simp, by simp, hrel⟩
      · simp only [List.mem_singleton, exists_eq_left]
        exact ⟨.inl, Or.rec id fun h => h ▸ hknown⟩
      · simp only [List.mem_singleton, exists_eq_left, List.not_mem_nil, false_iff, not_and]
        rintro hb rfl
        exact hb hknown
  · have hfetch : fetchEntity origin s (farEnd p.1 p.2) = .ok (s.entities.find? (farEnd p.1 p.2)) :=
      fetchEntity_of_reads fun e he =>
        hentity hknown e (Table.mem_of_find? he) (Table.key_of_find? he)
    refine ⟨_, [farEnd p.1 p.2], by
      simp [followRow, rowToRelationship_of_reads hreads, bind, Except.bind, hknown, hfetch, pure,
        Except.pure]; rfl, ?_⟩
    refine ⟨fun b => ?_, fun b => ?_, rfl, fun e => ?_, hrel⟩
    · simp [or_comm, eq_comm]
    · simp only [List.mem_singleton, exists_eq_left]
      constructor
      · rintro rfl
        exact ⟨hknown, rfl⟩
      · exact fun h => h.2.symm
    · cases hfind : s.entities.find? (farEnd p.1 p.2) with
      | none =>
        have hnone := Table.find?_eq_none_iff.mp hfind
        simpa using fun he heq => absurd heq (hnone e he)
      | some row =>
        obtain ⟨hrow, hkey⟩ := Table.find?_eq_some_iff.mp hfind
        rw [Option.elim_some, Table.mem_orInsert hfrom.entities hrow, List.mem_singleton]
        refine or_congr_right ?_
        rw [← Table.find?_eq_some_iff, hfind, Option.some.injEq, eq_comm]

theorem followRow_of_not {search : Search} {p : EntityId × Relationship}
    (h : ¬ RelReads origin p.2 ∨ (farEnd p.1 p.2 ∉ search.visited ∧
      ∃ e ∈ s.entities.rows, e.id = farEnd p.1 p.2 ∧ ¬ EntityReads origin e)) :
    followRow origin s remaining search p = .error yearError := by
  by_cases hreads : RelReads origin p.2
  · obtain ⟨hnew, e, he, heq, hnot⟩ := h.resolve_left (not_not.mpr hreads)
    have hfetch := fetchEntity_of_not (Table.find?_eq_some_iff.mpr ⟨he, heq⟩) hnot
    simp [followRow, rowToRelationship_of_reads hreads, bind, Except.bind, hnew, hfetch]
  · simp [followRow, rowToRelationship_of_not hreads, bind, Except.bind]

variable (origin remaining) in
/-- Rows are followed as long as they and the entities they lead to are read. -/
theorem foldlM_followRow {rows : List (EntityId × Relationship)} {search : Search}
    (hfrom : FromTables s search) (hrows : ∀ p ∈ rows, p.2 ∈ s.relationships.rows) :
    (∃ search' marked, rows.foldlM (followRow origin s remaining) search = .ok search' ∧
      Adds s remaining rows search search' marked ∧ (∀ p ∈ rows, RelReads origin p.2) ∧
      ∀ e ∈ s.entities.rows, e.id ∈ marked → EntityReads origin e) ∨
    (rows.foldlM (followRow origin s remaining) search = .error yearError ∧
      ((∃ p ∈ rows, ¬ RelReads origin p.2) ∨
        ∃ e ∈ s.entities.rows, e.id ∉ search.visited ∧ (∃ p ∈ rows, farEnd p.1 p.2 = e.id) ∧
          ¬ EntityReads origin e)) := by
  induction rows generalizing search with
  | nil => exact .inl ⟨search, [], rfl, .nil search, by simp, by simp⟩
  | cons p rows ih =>
    obtain ⟨hp, hrest⟩ := List.forall_mem_cons.mp hrows
    rw [List.foldlM_cons]
    by_cases hreads : RelReads origin p.2 ∧ (farEnd p.1 p.2 ∉ search.visited →
        ∀ e ∈ s.entities.rows, e.id = farEnd p.1 p.2 → EntityReads origin e)
    · obtain ⟨search', marked, hstep, hadds⟩ :=
        followRow_of_reads remaining hfrom hp hreads.1 hreads.2
      rw [hstep]
      have hmarked : ∀ e ∈ s.entities.rows, e.id ∈ marked → EntityReads origin e := by
        intro e he hid
        obtain ⟨hnew, q, hq, heq⟩ := (hadds.mem_marked e.id).mp hid
        obtain rfl := List.mem_singleton.mp hq
        exact hreads.2 (heq ▸ hnew) e he heq.symm
      rcases ih (hadds.fromTables hfrom (by simpa using hp)) hrest with
        ⟨search'', marked', hfold, hmore, hrels, hentities⟩ | ⟨hfold, hbad⟩
      · refine .inl ⟨search'', marked ++ marked', hfold, hadds.cons hmore,
          List.forall_mem_cons.mpr ⟨hreads.1, hrels⟩, fun e he hid => ?_⟩
        rcases List.mem_append.mp hid with hid | hid
        · exact hmarked e he hid
        · exact hentities e he hid
      · refine .inr ⟨hfold, ?_⟩
        rcases hbad with ⟨q, hq, hnot⟩ | ⟨e, he, hnew, ⟨q, hq, heq⟩, hnot⟩
        · exact .inl ⟨q, List.mem_cons_of_mem _ hq, hnot⟩
        · have hold : e.id ∉ search.visited := fun h => hnew ((hadds.visited e.id).mpr (.inl h))
          exact .inr ⟨e, he, hold, ⟨q, List.mem_cons_of_mem _ hq, heq⟩, hnot⟩
    · have hbad : ¬ RelReads origin p.2 ∨ (farEnd p.1 p.2 ∉ search.visited ∧
          ∃ e ∈ s.entities.rows, e.id = farEnd p.1 p.2 ∧ ¬ EntityReads origin e) := by
        by_contra hnone
        push Not at hnone
        exact hreads ⟨hnone.1, hnone.2⟩
      rw [followRow_of_not hbad]
      refine .inr ⟨rfl, ?_⟩
      rcases hbad with hnot | ⟨hnew, e, he, heq, hnot⟩
      · exact .inl ⟨p, List.mem_cons_self, hnot⟩
      · exact .inr ⟨e, he, heq ▸ hnew, ⟨p, List.mem_cons_self, heq.symm⟩, hnot⟩

/-- A search with more before its queue. -/
def Search.prepend (pre : List (EntityId × ℕ)) (search : Search) : Search :=
  { search with queue := pre ++ search.queue }

theorem followRow_prepend (pre : List (EntityId × ℕ)) (search : Search)
    (p : EntityId × Relationship) :
    followRow origin s remaining (search.prepend pre) p =
      (followRow origin s remaining search p).map (Search.prepend pre) := by
  unfold followRow
  cases rowToRelationship origin p.2 with
  | error err => rfl
  | ok rel =>
    by_cases hknown : farEnd p.1 rel ∈ search.visited
    · simp [bind, Except.bind, Search.prepend, hknown, Except.map, pure, Except.pure]
    · cases hfetch : fetchEntity origin s (farEnd p.1 rel) with
      | error err => simp [bind, Except.bind, Search.prepend, hknown, Except.map, hfetch]
      | ok entity =>
        simp [bind, Except.bind, Search.prepend, hknown, Except.map, hfetch, pure, Except.pure]

theorem foldlM_prepend (pre : List (EntityId × ℕ)) (rows : List (EntityId × Relationship))
    (search : Search) :
    rows.foldlM (followRow origin s remaining) (search.prepend pre) =
      (rows.foldlM (followRow origin s remaining) search).map (Search.prepend pre) := by
  induction rows generalizing search with
  | nil => rfl
  | cons p rows ih =>
    rw [List.foldlM_cons, List.foldlM_cons, followRow_prepend]
    cases followRow origin s remaining search p with
    | error err => rfl
    | ok search' => exact ih search'

/-- The rows at the entities of a layer. -/
def layerRows (origin : ℤ) (asOf : Option Instant) (s : GraphStore) (frontier : List EntityId) :
    List (EntityId × Relationship) :=
  frontier.flatMap fun current => (relRows origin asOf s current).map (current, ·)

theorem runSearch_layer (frontier : List EntityId) (search : Search) (rounds : ℕ) :
    runSearch origin asOf s (frontier.length + rounds)
        (search.prepend (frontier.map (·, remaining + 1))) =
      match (layerRows origin asOf s frontier).foldlM (followRow origin s (remaining + 1)) search with
      | .ok search' => runSearch origin asOf s rounds search'
      | .error err => some (.error err) := by
  induction frontier generalizing search with
  | nil => simp [Search.prepend, layerRows, pure, Except.pure]
  | cons current rest ih =>
    have hrounds : (current :: rest).length + rounds = rest.length + rounds + 1 := by
      rw [List.length_cons]
      omega
    have hrest : ({ search with queue := rest.map (·, remaining + 1) ++ search.queue } : Search) =
        search.prepend (rest.map (·, remaining + 1)) := rfl
    rw [hrounds, layerRows, List.flatMap_cons, List.foldlM_append]
    simp only [runSearch, Search.prepend, List.map_cons, List.cons_append]
    rw [hrest, foldlM_prepend]
    cases ((relRows origin asOf s current).map (current, ·)).foldlM
        (followRow origin s (remaining + 1)) search with
    | error err => rfl
    | ok search' => exact ih search'

theorem runSearch_last (frontier : List EntityId) (search : Search) (rounds : ℕ) :
    runSearch origin asOf s (frontier.length + rounds) (search.prepend (frontier.map (·, 0))) =
      runSearch origin asOf s rounds search := by
  induction frontier with
  | nil => simp [Search.prepend]
  | cons current rest ih =>
    have hrounds : (current :: rest).length + rounds = rest.length + rounds + 1 := by
      rw [List.length_cons]
      omega
    rw [hrounds]
    exact ih

end Rounds

section Runs

variable {origin : ℤ} {asOf : Option Instant} {s : GraphStore} {id : EntityId} {depth n : ℕ}

theorem mem_layerRows {frontier : List EntityId} {p : EntityId × Relationship} :
    p ∈ layerRows origin asOf s frontier ↔ p.1 ∈ frontier ∧ p.2 ∈ s.relationships.rows ∧
      (p.2.sourceId = p.1 ∨ p.2.targetId = p.1) ∧ validityClause origin asOf p.2 = true := by
  obtain ⟨a, rel⟩ := p
  simp [layerRows, relRows, and_comm, and_assoc]

theorem exists_joined_iff {frontier : List EntityId} {b : EntityId} :
    (∃ a ∈ frontier, Joined s (validityClause origin asOf) a b) ↔
      ∃ p ∈ layerRows origin asOf s frontier, farEnd p.1 p.2 = b := by
  constructor
  · rintro ⟨a, ha, rel, hrel, hvalid, hends⟩
    refine ⟨(a, rel), mem_layerRows.mpr ⟨ha, hrel, hends.imp And.left And.left, hvalid⟩, ?_⟩
    rcases hends with ⟨rfl, rfl⟩ | ⟨rfl, rfl⟩
    · simp [farEnd]
    · by_cases hself : rel.sourceId = rel.targetId <;> simp [farEnd, hself]
  · rintro ⟨⟨a, rel⟩, hp, rfl⟩
    obtain ⟨ha, hrel, hends, hvalid⟩ := mem_layerRows.mp hp
    refine ⟨a, ha, rel, hrel, hvalid, ?_⟩
    by_cases hsource : rel.sourceId = a
    · exact .inl ⟨hsource, by simp [farEnd, hsource]⟩
    · exact .inr ⟨hends.resolve_left hsource, by simp [farEnd, hsource]⟩

/-- What the search has found when it has seen all up to a distance. -/
structure Found (s : GraphStore) (valid : Relationship → Bool) (id : EntityId) (n : ℕ)
    (search : Search) : Prop where
  entities : ∀ e, e ∈ search.entities.rows ↔
    e ∈ s.entities.rows ∧ e.id ≠ id ∧ Within (Joined s valid) {id} n e.id
  relationships : ∀ rel, rel ∈ search.relationships.rows ↔ rel ∈ s.relationships.rows ∧
    valid rel = true ∧ Touches rel (Before (Joined s valid) {id} n)

theorem Found.fromTables {valid : Relationship → Bool} {search : Search}
    (h : Found s valid id n search) : FromTables s search where
  entities e he := ((h.entities e).mp he).1
  relationships rel hrel := ((h.relationships rel).mp hrel).1

/-- The next layer adds what is one step further. -/
theorem Found.next {search search' : Search} {frontier marked : List EntityId} {remaining : ℕ}
    (h : Found s (validityClause origin asOf) id n search)
    (hlayer : Layer (Joined s (validityClause origin asOf)) {id} n search.visited frontier)
    (hadds : Adds s remaining (layerRows origin asOf s frontier) search search' marked) :
    Layer (Joined s (validityClause origin asOf)) {id} (n + 1) search'.visited marked ∧
      Found s (validityClause origin asOf) id (n + 1) search' := by
  have hnext : Layer (Joined s (validityClause origin asOf)) {id} (n + 1) search'.visited marked :=
    hlayer.next (fun b => by rw [hadds.visited, exists_joined_iff])
      fun b => by rw [hadds.mem_marked, exists_joined_iff]
  have hfrontier : ∀ a, Within (Joined s (validityClause origin asOf)) {id} n a ↔
      Before (Joined s (validityClause origin asOf)) {id} n a ∨ a ∈ frontier := by
    intro a
    rw [hlayer.frontier]
    constructor
    · exact fun ha => (Classical.em _).imp_right fun hnot => ⟨ha, hnot⟩
    · rintro (⟨k, hk, ha⟩ | ha)
      · exact ha.mono hk.le
      · exact ha.1
  refine ⟨hnext, fun e => ?_, fun rel => ?_⟩
  · have hstart : id ∈ search.visited := (hlayer.visited id).mpr (.start rfl)
    rw [hadds.entities, h.entities, hnext.frontier, before_succ]
    by_cases hnear : Within (Joined s (validityClause origin asOf)) {id} n e.id
    · have hfar := hnear.mono (Nat.le_succ n)
      simp [hnear, hfar]
    · have hne : e.id ≠ id := fun heq => hnear (heq ▸ .start rfl)
      simp [hnear, hne]
  · have htouches : (∃ p ∈ layerRows origin asOf s frontier, p.2 = rel) ↔
        rel ∈ s.relationships.rows ∧ validityClause origin asOf rel = true ∧
          Touches rel (· ∈ frontier) := by
      constructor
      · rintro ⟨p, hp, rfl⟩
        obtain ⟨ha, hrel, hends, hvalid⟩ := mem_layerRows.mp hp
        refine ⟨hrel, hvalid, ?_⟩
        rcases hends with heq | heq
        · exact .inl (heq ▸ ha)
        · exact .inr (heq ▸ ha)
      · rintro ⟨hrel, hvalid, hsource | htarget⟩
        · exact ⟨(rel.sourceId, rel), mem_layerRows.mpr ⟨hsource, hrel, .inl rfl, hvalid⟩, rfl⟩
        · exact ⟨(rel.targetId, rel), mem_layerRows.mpr ⟨htarget, hrel, .inr rfl, hvalid⟩, rfl⟩
    rw [hadds.relationships, h.relationships, htouches]
    simp only [Touches, before_succ, hfrontier]
    tauto

theorem Reads.next {search search' : Search} {frontier marked : List EntityId} {remaining : ℕ}
    (hreads : Reads origin s (validityClause origin asOf) id n)
    (hfound : Found s (validityClause origin asOf) id n search)
    (hmore : Found s (validityClause origin asOf) id (n + 1) search')
    (hadds : Adds s remaining (layerRows origin asOf s frontier) search search' marked)
    (hrels : ∀ p ∈ layerRows origin asOf s frontier, RelReads origin p.2)
    (hentities : ∀ e ∈ s.entities.rows, e.id ∈ marked → EntityReads origin e) :
    Reads origin s (validityClause origin asOf) id (n + 1) := by
  refine ⟨fun e he hne hnear => ?_, fun rel hrel hvalid hnear => ?_⟩
  · rcases (hadds.entities e).mp ((hmore.entities e).mpr ⟨he, hne, hnear⟩) with hold | hnew
    · obtain ⟨-, -, hold⟩ := (hfound.entities e).mp hold
      exact hreads.entities e he hne hold
    · exact hentities e he hnew.2
  · rcases (hadds.relationships rel).mp ((hmore.relationships rel).mpr ⟨hrel, hvalid, hnear⟩)
      with hold | ⟨p, hp, rfl⟩
    · obtain ⟨-, -, hold⟩ := (hfound.relationships rel).mp hold
      exact hreads.relationships rel hrel hvalid hold
    · exact hrels p hp

theorem not_reads_of_layer {search : Search} {frontier : List EntityId}
    (hlayer : Layer (Joined s (validityClause origin asOf)) {id} n search.visited frontier)
    (hn : n < depth) (hbad : (∃ p ∈ layerRows origin asOf s frontier, ¬ RelReads origin p.2) ∨
      ∃ e ∈ s.entities.rows, e.id ∉ search.visited ∧
        (∃ p ∈ layerRows origin asOf s frontier, farEnd p.1 p.2 = e.id) ∧ ¬ EntityReads origin e) :
    ¬ Reads origin s (validityClause origin asOf) id depth := by
  intro hall
  rcases hbad with ⟨p, hp, hnot⟩ | ⟨e, he, hnew, hp, hnot⟩
  · obtain ⟨ha, hrel, hends, hvalid⟩ := mem_layerRows.mp hp
    have hnear := ((hlayer.frontier p.1).mp ha).1
    have hbefore : Before (Joined s (validityClause origin asOf)) {id} depth p.1 := ⟨n, hn, hnear⟩
    refine hnot (hall.relationships p.2 hrel hvalid ?_)
    rcases hends with heq | heq
    · exact .inl (heq ▸ hbefore)
    · exact .inr (heq ▸ hbefore)
  · obtain ⟨a, ha, hjoined⟩ := exists_joined_iff.mpr hp
    have hnear := ((hlayer.frontier a).mp ha).1
    have hne : e.id ≠ id := fun heq => hnew ((hlayer.visited e.id).mpr (.start heq))
    exact hnot (hall.entities e he hne ((hnear.edge hjoined).mono hn))

/-- How a search ends: with all of the neighbourhood where it is read, else with an error. -/
inductive Ends (origin : ℤ) (asOf : Option Instant) (s : GraphStore) (id : EntityId) (depth : ℕ) :
    Option (Except MemoryError Search) → Prop
  | found {search : Search} : Found s (validityClause origin asOf) id depth search →
      Reads origin s (validityClause origin asOf) id depth → Ends origin asOf s id depth (some (.ok search))
  | failed : ¬ Reads origin s (validityClause origin asOf) id depth →
      Ends origin asOf s id depth (some (.error yearError))

/-- From a layer on, the search ends. -/
theorem runSearch_ends {remaining : ℕ} {search : Search} {frontier : List EntityId}
    (hdepth : n + remaining = depth) (hqueue : search.queue = [])
    (hlayer : Layer (Joined s (validityClause origin asOf)) {id} n search.visited frontier)
    (hfound : Found s (validityClause origin asOf) id n search)
    (hreads : Reads origin s (validityClause origin asOf) id n) :
    ∃ rounds, ∀ fuel ≥ rounds, Ends origin asOf s id depth
      (runSearch origin asOf s fuel (search.prepend (frontier.map (·, remaining)))) := by
  induction remaining generalizing n search frontier with
  | zero =>
    refine ⟨frontier.length + 1, fun fuel hfuel => ?_⟩
    obtain ⟨more, rfl⟩ : ∃ more, fuel = frontier.length + (more + 1) :=
      ⟨fuel - frontier.length - 1, by omega⟩
    obtain rfl : n = depth := hdepth
    rw [runSearch_last, runSearch, hqueue]
    exact .found hfound hreads
  | succ remaining ih =>
    rcases foldlM_followRow origin (remaining + 1) hfound.fromTables
        (fun p hp => (mem_layerRows.mp hp).2.1) with
      ⟨search', marked, hfold, hadds, hrels, hentities⟩ | ⟨hfold, hbad⟩
    · obtain ⟨hnext, hmore⟩ := hfound.next hlayer hadds
      have hreadsNext := hreads.next hfound hmore hadds hrels hentities
      have hempty : ({ search' with queue := [] } : Search).queue = [] := rfl
      obtain ⟨rounds, hrounds⟩ := ih (show n + 1 + remaining = depth by omega) hempty hnext
        ⟨hmore.entities, hmore.relationships⟩ hreadsNext
      refine ⟨frontier.length + rounds, fun fuel hfuel => ?_⟩
      obtain ⟨more, rfl⟩ : ∃ more, fuel = frontier.length + more :=
        ⟨fuel - frontier.length, by omega⟩
      have hsearch' : search' =
          Search.prepend (marked.map (·, remaining)) { search' with queue := [] } := by
        have hmarked := hadds.queue
        rw [hqueue, List.nil_append, Nat.add_sub_cancel] at hmarked
        simp [Search.prepend, ← hmarked]
      rw [runSearch_layer, hfold]
      dsimp only
      rw [hsearch']
      exact hrounds more (by omega)
    · refine ⟨frontier.length, fun fuel hfuel => ?_⟩
      obtain ⟨more, rfl⟩ : ∃ more, fuel = frontier.length + more :=
        ⟨fuel - frontier.length, by omega⟩
      rw [runSearch_layer, hfold]
      exact .failed (not_reads_of_layer hlayer (by omega) hbad)

theorem mem_values {κ α : Type} [DecidableEq κ] {key : α → κ} {order : HashOrder κ}
    {t : Table κ α key} {r : α} : r ∈ values order t ↔ r ∈ t.rows := by
  simp only [values, List.mem_filterMap, order.mem_walk, List.mem_toFinset, Table.find?_eq_some_iff]
  constructor
  · rintro ⟨k, -, hr, -⟩
    exact hr
  · exact fun hr => ⟨key r, List.mem_map_of_mem hr, hr, rfl⟩

theorem nodup_values {κ α : Type} [DecidableEq κ] {key : α → κ} {order : HashOrder κ}
    {t : Table κ α key} : (values order t).Nodup := by
  refine (order.nodup _).filterMap fun k k' r hk hk' => ?_
  exact (Table.key_of_find? hk).symm.trans (Table.key_of_find? hk')

variable {order : HashOrder EntityId} {relOrder : HashOrder RelationshipId}

theorem neighbors_ends (origin : ℤ) (asOf : Option Instant) (s : GraphStore)
    (order : HashOrder EntityId) (relOrder : HashOrder RelationshipId) (id : EntityId) (depth : ℕ) :
    ∃ rounds, ∀ fuel ≥ rounds,
      (∃ found, neighbors origin asOf s order relOrder id depth fuel = some (.ok found) ∧
        IsNeighborhood s (validityClause origin asOf) id depth found ∧
        Reads origin s (validityClause origin asOf) id depth) ∨
      (neighbors origin asOf s order relOrder id depth fuel = some (.error yearError) ∧
        ¬ Reads origin s (validityClause origin asOf) id depth) := by
  have hlayer : Layer (Joined s (validityClause origin asOf)) {id} 0 {id} [id] :=
    .init (by simp) (by simp)
  have hfound : Found s (validityClause origin asOf) id 0 { visited := {id} } := by
    constructor
    · intro e
      simp only [within_zero, Set.mem_singleton_iff, Table.empty, List.not_mem_nil, false_iff]
      exact fun h => h.2.1 h.2.2
    · simp [Touches, not_before_zero, Table.empty]
  have hreads : Reads origin s (validityClause origin asOf) id 0 := by
    refine ⟨fun e _ hne hnear => absurd (within_zero.mp hnear) hne, fun rel _ _ hnear => ?_⟩
    exact absurd hnear (by simp [Touches, not_before_zero])
  obtain ⟨rounds, hrounds⟩ := runSearch_ends (Nat.zero_add depth) rfl hlayer hfound hreads
  refine ⟨rounds, fun fuel hfuel => ?_⟩
  have hends := hrounds fuel hfuel
  rw [neighbors]
  have hstart : (Search.prepend ([id].map (·, depth)) { visited := {id} }) =
      { visited := {id}, queue := [(id, depth)] } := rfl
  rw [hstart] at hends
  revert hends
  generalize runSearch origin asOf s fuel { visited := {id}, queue := [(id, depth)] } = outcome
  rintro (⟨hall, hread⟩ | hnot)
  · refine .inl ⟨_, rfl, ?_, hread⟩
    exact
      { entities := fun e => mem_values.trans (hall.entities e)
        relationships := fun rel => mem_values.trans (hall.relationships rel)
        entitiesOnce := nodup_values
        relationshipsOnce := nodup_values }
  · exact .inr ⟨rfl, hnot⟩

theorem joined_congr {valid valid' : Relationship → Bool} {a b : EntityId}
    (h : ∀ rel ∈ s.relationships.rows, (rel.sourceId = a ∨ rel.targetId = a) →
      (valid rel = true ↔ valid' rel = true)) : Joined s valid a b ↔ Joined s valid' a b := by
  refine exists_congr fun rel => and_congr_right fun hrel => ?_
  refine and_congr_left fun hends => h rel hrel ?_
  exact hends.imp And.left And.left

theorem IsNeighborhood.agree {valid valid' : Relationship → Bool} {found : SubGraph}
    (h : IsNeighborhood s valid id depth found) (h' : IsNeighborhood s valid' id depth found) :
    ∀ rel ∈ s.relationships.rows, Touches rel (Before (Joined s valid') {id} depth) →
      valid rel = valid' rel := by
  have hnear : ∀ a, Before (Joined s valid) {id} depth a ↔ Before (Joined s valid') {id} depth a := by
    refine fun a => before_congr fun k hk c hc hc' b => joined_congr fun rel hrel hends => ?_
    have htouches : Touches rel (Before (Joined s valid) {id} depth) := by
      rcases hends with rfl | rfl
      · exact .inl ⟨k, hk, hc⟩
      · exact .inr ⟨k, hk, hc⟩
    have htouches' : Touches rel (Before (Joined s valid') {id} depth) := by
      rcases hends with rfl | rfl
      · exact .inl ⟨k, hk, hc'⟩
      · exact .inr ⟨k, hk, hc'⟩
    constructor
    · intro hv
      exact ((h'.relationships rel).mp ((h.relationships rel).mpr ⟨hrel, hv, htouches⟩)).2.1
    · intro hv
      exact ((h.relationships rel).mp ((h'.relationships rel).mpr ⟨hrel, hv, htouches'⟩)).2.1
  intro rel hrel htouches
  have htouches' : Touches rel (Before (Joined s valid) {id} depth) :=
    htouches.imp (hnear _).mpr (hnear _).mpr
  rw [Bool.eq_iff_iff]
  constructor
  · intro hv
    exact ((h'.relationships rel).mp ((h.relationships rel).mpr ⟨hrel, hv, htouches'⟩)).2.1
  · intro hv
    exact ((h.relationships rel).mp ((h'.relationships rel).mpr ⟨hrel, hv, htouches⟩)).2.1

variable (origin) in
theorem congr_of_agree {valid valid' : Relationship → Bool}
    (h : ∀ rel ∈ s.relationships.rows, Touches rel (Before (Joined s valid') {id} depth) →
      valid rel = valid' rel) :
    (∀ found, IsNeighborhood s valid id depth found ↔ IsNeighborhood s valid' id depth found) ∧
      (Reads origin s valid id depth ↔ Reads origin s valid' id depth) := by
  have hjoined : ∀ k < depth, ∀ a, Within (Joined s valid) {id} k a →
      Within (Joined s valid') {id} k a → ∀ b, Joined s valid a b ↔ Joined s valid' a b := by
    refine fun k hk a _ ha b => joined_congr fun rel hrel hends => ?_
    have htouches : Touches rel (Before (Joined s valid') {id} depth) := by
      rcases hends with rfl | rfl
      · exact .inl ⟨k, hk, ha⟩
      · exact .inr ⟨k, hk, ha⟩
    rw [h rel hrel htouches]
  have hwithin : ∀ a, Within (Joined s valid) {id} depth a ↔ Within (Joined s valid') {id} depth a :=
    fun a => within_congr hjoined
  have hbefore : Before (Joined s valid) {id} depth = Before (Joined s valid') {id} depth :=
    funext fun a => propext (before_congr hjoined)
  have hrel : ∀ rel, (rel ∈ s.relationships.rows ∧ valid rel = true ∧
      Touches rel (Before (Joined s valid) {id} depth)) ↔ rel ∈ s.relationships.rows ∧
      valid' rel = true ∧ Touches rel (Before (Joined s valid') {id} depth) := by
    intro rel
    rw [hbefore]
    refine and_congr_right fun hrel => and_congr_left fun htouches => ?_
    rw [h rel hrel htouches]
  refine ⟨fun found => ⟨fun hf => ?_, fun hf => ?_⟩, ⟨fun hr => ?_, fun hr => ?_⟩⟩
  · exact ⟨fun e => by rw [hf.entities, hwithin], fun rel => (hf.relationships rel).trans (hrel rel),
      hf.entitiesOnce, hf.relationshipsOnce⟩
  · exact ⟨fun e => by rw [hf.entities, hwithin],
      fun rel => (hf.relationships rel).trans (hrel rel).symm, hf.entitiesOnce, hf.relationshipsOnce⟩
  · refine ⟨fun e he hne hnear => hr.entities e he hne ((hwithin _).mpr hnear),
      fun rel hin hvalid htouches => ?_⟩
    obtain ⟨-, hvalid', htouches'⟩ := (hrel rel).mpr ⟨hin, hvalid, htouches⟩
    exact hr.relationships rel hin hvalid' htouches'
  · refine ⟨fun e he hne hnear => hr.entities e he hne ((hwithin _).mp hnear),
      fun rel hin hvalid htouches => ?_⟩
    obtain ⟨-, hvalid', htouches'⟩ := (hrel rel).mp ⟨hin, hvalid, htouches⟩
    exact hr.relationships rel hin hvalid' htouches'

/-- The search ends, and gives the neighbourhood when the texts of the times near the start say what
the times say, and everything in the neighbourhood is read. -/
theorem neighbors_exact_iff (origin : ℤ) (asOf : Option Instant) (s : GraphStore)
    (order : HashOrder EntityId) (relOrder : HashOrder RelationshipId) (id : EntityId) (depth : ℕ) :
    ∃ rounds, ∀ fuel ≥ rounds, ∃ result,
      neighbors origin asOf s order relOrder id depth fuel = some result ∧
        ((∃ found, result = .ok found ∧ IsNeighborhood s (validAt asOf) id depth found) ↔
          TextsTell origin asOf s id depth ∧ Reads origin s (validAt asOf) id depth) := by
  obtain ⟨rounds, hrounds⟩ := neighbors_ends origin asOf s order relOrder id depth
  refine ⟨rounds, fun fuel hfuel => ?_⟩
  rcases hrounds fuel hfuel with ⟨found, hfound, hneighborhood, hreads⟩ | ⟨hfound, hnot⟩
  · refine ⟨_, hfound, ?_⟩
    constructor
    · rintro ⟨g, hg, hexact⟩
      cases hg
      have htell := hneighborhood.agree hexact
      exact ⟨htell, (congr_of_agree origin htell).2.mp hreads⟩
    · rintro ⟨htell, -⟩
      exact ⟨found, rfl, ((congr_of_agree origin htell).1 found).mp hneighborhood⟩
  · refine ⟨_, hfound, ?_⟩
    constructor
    · rintro ⟨g, hg, -⟩
      cases hg
    · rintro ⟨htell, hreads⟩
      exact absurd ((congr_of_agree origin htell).2.mpr hreads) hnot

end Runs

section Sentinel

/-- The first second of the year 10000, as an end that never comes. -/
def endOfTime : Instant := 253402300800000000000

def alice : Entity :=
  { id := 1, name := "Alice", entityType := "person", scope := {}, createdAt := 0, updatedAt := 0 }

def acme : Entity :=
  { id := 2, name := "Acme", entityType := "company", scope := {}, createdAt := 0, updatedAt := 0 }

def worksFor : Relationship :=
  { id := 1, sourceId := 1, relation := "works_for", targetId := 2, scope := {}, validFrom := 0,
    invalidAt := some endOfTime, createdAt := 0 }

def employment : GraphStore := (({} : GraphStore).upsertEntity alice).upsertEntity acme
  |>.upsertRelationship worksFor

/-- A relationship with that end is not among those valid in 1970. -/
theorem endOfTime_not_exact : ∃ rounds, ∀ fuel ≥ rounds, ¬ ∃ found,
    neighbors 0 (some 0) employment Consolidation.ascending Consolidation.ascending 1 1 fuel =
      some (.ok found) ∧ IsNeighborhood employment (validAt (some 0)) 1 1 found := by
  obtain ⟨rounds, hrounds⟩ := neighbors_ends 0 (some 0) employment Consolidation.ascending
    Consolidation.ascending 1 1
  refine ⟨rounds, fun fuel hfuel => ?_⟩
  rintro ⟨found, hfound, hexact⟩
  rcases hrounds fuel hfuel with ⟨g, hg, hneighborhood, -⟩ | ⟨hg, -⟩
  · cases hfound.symm.trans hg
    have hagree := hneighborhood.agree hexact worksFor List.mem_cons_self
      (.inl ⟨0, by decide, .start rfl⟩)
    have hsql : validityClause 0 (some 0) worksFor = false := by decide +kernel
    have htrue : validAt (some 0) worksFor = true := by decide
    rw [hsql, htrue] at hagree
    cases hagree
  · cases hfound.symm.trans hg

end Sentinel

end Neighborhood

end JamJet.Engram
