import JamJet.Facts
import JamJet.Table
import Mathlib.Data.List.Sort

/-! The SQLite fact store: the `facts` table and the full-text table its triggers keep. -/

namespace JamJet.Engram

/-- `LIKE`: `%` is any run of characters, `_` any one, and ASCII letters match in either case. -/
def likeChars : List Char → List Char → Bool
  | [], text => text.isEmpty
  | '%' :: pattern, [] => likeChars pattern []
  | '%' :: pattern, c :: text => likeChars pattern (c :: text) || likeChars ('%' :: pattern) text
  | '_' :: pattern, _ :: text => likeChars pattern text
  | p :: pattern, c :: text => p.toLower = c.toLower && likeChars pattern text
  | _ :: _, [] => false
termination_by pattern text => pattern.length + text.length

/-- `text LIKE '%needle%'`; a text is looked at up to its first NUL. -/
def likeContains (needle text : String) : Bool :=
  likeChars ('%' :: needle.toList ++ ['%']) (text.toList.takeWhile fun c => c ≠ '\u0000')

/-- A text written into a statement between quotes, its own quotes doubled, reads back as itself;
a NUL would end the statement inside the literal. -/
def quotable (text : String) : Bool := !text.toList.contains '\u0000'

def statement {α : Type} (texts : List String) (reply : α) : Except MemoryError α :=
  if texts.all quotable then .ok reply else .error (.database "unrecognized token")

/-- An order by `created_at`, the latest first; what comes first among equals is left open. -/
structure ListingOrder where
  sort : List Fact → List Fact
  perm : ∀ facts, (sort facts).Perm facts
  sorted : ∀ facts, (sort facts).Pairwise fun f g => g.createdAt ≤ f.createdAt

def ListingOrder.stable : ListingOrder where
  sort facts := facts.insertionSort fun f g => g.createdAt ≤ f.createdAt
  perm facts := List.perm_insertionSort _ facts
  sorted facts := by
    have htotal : Std.Total fun f g : Fact => g.createdAt ≤ f.createdAt :=
      ⟨fun f g => le_total g.createdAt f.createdAt⟩
    have htrans : IsTrans Fact fun f g => g.createdAt ≤ f.createdAt :=
      ⟨fun _ _ _ hfg hgh => hgh.trans hfg⟩
    exact List.pairwise_insertionSort _ facts

/-- A row of `facts_fts`. -/
structure FtsRow where
  factId : FactId
  text : String
  deriving DecidableEq, Repr

structure FactStore where
  facts : Table FactId Fact (·.id) := .empty
  fts : List FtsRow := []

namespace FactStore

/-- `INSERT OR IGNORE`, and the trigger on the row it inserts. -/
def insertFact (s : FactStore) (f : Fact) : FactStore :=
  match s.facts.insert? f with
  | some facts => { facts := facts, fts := s.fts ++ [⟨f.id, f.text⟩] }
  | none => s

def getFact (s : FactStore) (id : FactId) : Except MemoryError Fact :=
  match s.facts.find? id with
  | some f => .ok f
  | none => .error (.notFound id)

/-- No trigger is on updates. -/
def updateFact (s : FactStore) (id : FactId) (patch : FactPatch) :
    Except MemoryError Fact × FactStore :=
  let s := { s with facts := s.facts.update id (fun _ => true) patch.apply patch.apply_id }
  (s.getFact id, s)

def invalidateFact (s : FactStore) (id : FactId) (now : Instant) : FactStore :=
  { s with
    facts := s.facts.update id (fun _ => true) (fun f => { f with invalidAt := some now })
      fun _ => rfl }

def recordAccess (s : FactStore) (id : FactId) (now : Instant) : FactStore :=
  { s with
    facts := s.facts.update id (fun _ => true)
      (fun f => { f with accessCount := f.accessCount + 1, lastAccessed := some now }) fun _ => rfl }

/-- The conditions of `list_facts` on a row. -/
def filterSelects (filter : FactFilter) (f : Fact) : Bool :=
  filter.scope.all (fun scope => scope.selects f.scope) &&
    filter.tier.all (fun tier => f.tier = tier) &&
    filter.category.all (fun category => f.category = some category) &&
    (match filter.asOf with
      | some at_ => f.validFrom ≤ at_ && f.invalidAt.all (fun expiry => at_ < expiry)
      | none => !filter.validOnly || f.invalidAt.isNone) &&
    filter.textContains.all fun needle => likeContains needle f.text

def filterTexts (filter : FactFilter) : List String :=
  (filter.scope.map Scope.texts).getD [] ++ filter.category.toList ++ filter.textContains.toList

def listFacts (order : ListingOrder) (s : FactStore) (filter : FactFilter) :
    Except MemoryError (List Fact) :=
  statement (filterTexts filter)
    (((order.sort (s.facts.rows.filter (filterSelects filter))).drop filter.offset).take
      filter.limit)

/-- `DELETE FROM facts`, and the trigger on each row it deletes. -/
def deleteScopeData (s : FactStore) (scope : Scope) : Except MemoryError ℕ × FactStore :=
  match statement scope.texts (s.facts.rows.filter fun f => scope.selects f.scope) with
  | .ok gone =>
      (.ok gone.length,
        { facts := s.facts.restrict fun f => !scope.selects f.scope
          fts := s.fts.filter fun row => row.factId ∉ gone.map (·.id) })
  | .error err => (.error err, s)

end FactStore

end JamJet.Engram
