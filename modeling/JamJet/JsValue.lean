import JamJet.Fallible
import JamJet.PyJson
import JamJet.ToolPolicies
import Mathlib.Algebra.Order.Ring.Rat

/-! The values of JavaScript that JSON data is made of, and what reading and spreading them does. -/

namespace JamJet.Js

open PyJson (setItem lookup_setItem setItem_setItem setItem_of_lookup)
open ToolPolicies.TypeScript (utf16)

inductive Number
  | nan
  | infinity (negative : Bool)
  | finite (q : ℚ)
  deriving DecidableEq

/-- A string is the sequence of its UTF-16 units. -/
inductive Value
  | undefined
  | null
  | bool (b : Bool)
  | number (n : Number)
  | string (units : List ℕ)
  | array (items : List Value)
  | object (members : List (String × Value))

/-- A property of `undefined` or `null` was read. -/
structure TypeError where
  property : String

/-- The units of a literal. -/
def units (s : String) : List ℕ := s.toList.flatMap utf16

namespace Value

def isNullish : Value → Bool
  | undefined | null => true
  | _ => false

def truthy : Value → Bool
  | undefined | null | number .nan => false
  | bool b => b
  | number (.finite q) => decide (q ≠ 0)
  | string s => !s.isEmpty
  | _ => true

/-- `v?.key`. -/
def prop (v : Value) (key : String) : Value :=
  match v with
  | object members => (members.lookup key).getD undefined
  | _ => undefined

/-- `v.key`. -/
def access (v : Value) (key : String) : Except TypeError Value :=
  if v.isNullish then .error ⟨key⟩ else .ok (v.prop key)

/-- `v ?? other`. -/
def orElse (v other : Value) : Value := if v.isNullish then other else v

/-- What `{ ...v }` copies. -/
def members : Value → List (String × Value)
  | object members => members
  | array items => items.mapIdx fun i item => (toString i, item)
  | string s => s.mapIdx fun i unit => (toString i, string [unit])
  | _ => []

/-- `{ ...v, key: value }`. -/
def set (v : Value) (key : String) (value : Value) : Value := object (setItem v.members key value)

/-- What there is to go through when the value has passed `Array.isArray`, and nothing else. -/
def items : Value → List Value
  | array items => items
  | _ => []

/-- `v === s`, of a literal. -/
def is (v : Value) (s : String) : Bool :=
  match v with
  | string t => t = units s
  | _ => false

/-- The string, when `typeof v` is `"string"`. -/
def text? : Value → Option (List ℕ)
  | string s => some s
  | _ => none

variable {v value value' : Value} {key key' : String}

theorem exists_of_prop (h : v.prop key = value) (hvalue : value ≠ undefined) :
    ∃ members, v = object members ∧ members.lookup key = some value := by
  cases v with
  | object members =>
    refine ⟨members, rfl, ?_⟩
    change (members.lookup key).getD undefined = value at h
    cases hfound : members.lookup key with
    | none => exact absurd (by rw [← h, hfound]; rfl) hvalue
    | some found => rw [← h, hfound]; rfl
  | _ => exact absurd h.symm hvalue

theorem access_eq_ok : v.access key = .ok value ↔ v.isNullish = false ∧ v.prop key = value := by
  unfold access
  cases v.isNullish <;> simp

theorem mapM_access (key : String) {vs : List Value} :
    (∃ values, (vs.mapM fun v => v.access key) = .ok values) ↔ ∀ v ∈ vs, v.isNullish = false := by
  constructor
  · rintro ⟨values, h⟩ v hv
    obtain ⟨value, hvalue⟩ := Fallible.ok_of_mapM h v hv
    exact (access_eq_ok.mp hvalue).1
  · intro h
    refine ⟨vs.map fun v => v.prop key, Fallible.mapM_of_forall₂ ?_⟩
    refine List.forall₂_map_right_iff.mpr (List.forall₂_same.mpr fun v hv => ?_)
    exact access_eq_ok.mpr ⟨h v hv, rfl⟩

theorem prop_set : (v.set key value).prop key = value := by
  change ((setItem v.members key value).lookup key).getD undefined = value
  rw [lookup_setItem, if_pos rfl]
  rfl

theorem prop_set_of_ne (h : v.prop key = value) (hvalue : value ≠ undefined) (hne : key' ≠ key) :
    (v.set key value').prop key' = v.prop key' := by
  obtain ⟨members, rfl, -⟩ := exists_of_prop h hvalue
  change ((setItem members key value').lookup key').getD undefined = _
  rw [lookup_setItem, if_neg hne]
  rfl

theorem set_set : (v.set key value).set key value' = v.set key value' :=
  congrArg object setItem_setItem

theorem set_prop (h : v.prop key = value) (hvalue : value ≠ undefined) : v.set key value = v := by
  obtain ⟨members, rfl, hfound⟩ := exists_of_prop h hvalue
  exact congrArg object (setItem_of_lookup hfound)

end Value

end JamJet.Js
