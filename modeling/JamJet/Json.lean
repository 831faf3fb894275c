import Mathlib.Data.Int.Notation
import Mathlib.Data.String.Basic
import Mathlib.Tactic.Common

/-! JSON values as `serde_json` holds them: an object is a map sorted by key, without
duplicates; a float is kept as its bits. -/

namespace JamJet

inductive JsonNumber
  | int (value : ℤ)
  | float (bits : BitVec 64)
  deriving DecidableEq, Repr

/-- A double that is neither infinite nor a NaN. -/
def finiteF64 (bits : BitVec 64) : Bool := bits.extractLsb' 52 11 ≠ 2047

inductive Json
  | null
  | bool (b : Bool)
  | number (n : JsonNumber)
  | string (s : String)
  | array (items : List Json)
  | object (fields : List (String × Json))
  deriving Repr

/-- The ordered maps of the source (`BTreeMap`, `serde_json::Map`): entries sorted by key. -/
abbrev BTree (α : Type) := List (String × α)

namespace BTree

variable {α : Type}

def get (m : BTree α) (k : String) : Option α := (m.find? fun kv => kv.1 == k).map (·.2)

/-- Insert or overwrite, keeping the keys in order. -/
def insert (m : BTree α) (k : String) (v : α) : BTree α :=
  match m with
  | [] => [(k, v)]
  | (k', v') :: rest =>
      if k = k' then (k, v) :: rest
      else if k < k' then (k, v) :: (k', v') :: rest
      else (k', v') :: insert rest k v

def remove (m : BTree α) (k : String) : BTree α := m.filter fun kv => kv.1 != k

/-- The entries of `patch`, inserted one by one. -/
def insertAll (m patch : BTree α) : BTree α := patch.foldl (fun m kv => insert m kv.1 kv.2) m

end BTree

abbrev JsonMap := BTree Json

namespace Json

/-- `Value::get` with a string index: only objects have keys. -/
def get (v : Json) (k : String) : Option Json :=
  match v with
  | .object fields => BTree.get fields k
  | _ => none

def asStr : Json → Option String
  | .string s => some s
  | _ => none

def ofNat (n : ℕ) : Json := .number (.int n)

def ofOption {α : Type} (f : α → Json) : Option α → Json
  | none => .null
  | some a => f a

/-- The `json!` object literal. -/
def ofFields (fields : List (String × Json)) : Json :=
  .object (BTree.insertAll [] fields)

theorem sizeOf_item_lt {items : List Json} {v : Json} (h : v ∈ items) :
    sizeOf v < sizeOf (Json.array items) := by
  have hmem := List.sizeOf_lt_of_mem h
  simp only [Json.array.sizeOf_spec]
  omega

theorem sizeOf_member_lt {fields : JsonMap} {kv : String × Json} (h : kv ∈ fields) :
    sizeOf kv.2 < sizeOf (Json.object fields) := by
  have hmem := List.sizeOf_lt_of_mem h
  have hpair : sizeOf kv.2 < sizeOf kv := by
    obtain ⟨k, v⟩ := kv
    simp only [Prod.mk.sizeOf_spec]
    omega
  simp only [Json.object.sizeOf_spec]
  omega

end Json

end JamJet
