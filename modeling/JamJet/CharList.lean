import Mathlib.Data.List.Basic
import Mathlib.Tactic.Common

/-! Properties of all the characters of a list are decided by going through the list.  There is
also an instance that goes through all characters there are, which no proof can afford. -/

namespace JamJet

variable {P : Char → Prop} [DecidablePred P]

instance decidableForallMemChars (cs : List Char) : Decidable (∀ c ∈ cs, P c) :=
  List.decidableBAll P cs

end JamJet
