import JamJet.GlobItems
import JamJet.HandlerSpelling
import Mathlib.Data.List.DropRight

/-! Model allowlists.  The engine matches their patterns by recursion, the SDK by a loop over two
positions, and each derives the provider of a reference in its own way.  Where do the two part? -/

namespace JamJet.Policy

/-- What a character of a pattern stands for. -/
def globItem (c : Char) : Glob.Item Char :=
  if c = '*' then .run fun _ => true
  else if c = '?' then .one fun _ => true
  else .one (· = c)

/-- `*` is any run of characters, `?` any one, all else stands for itself. -/
def globMeaning (pattern value : String) : Bool :=
  Glob.accepts (pattern.toList.map globItem) value.toList

namespace Python

/-- The loop of `_glob_match`, by what is left of the pattern and of the value.  Once a star has been
met, `star` is the pattern behind it and the value to resume from. -/
def globLoop : ℕ → List Char → List Char → Option (List Char × List Char) → Option Bool
  | 0, _, _, _ => none
  | _ + 1, p, [], _ => some (p.dropWhile (· = '*')).isEmpty
  | fuel + 1, c :: p, d :: v, star =>
      if c = d ∨ c = '?' then globLoop fuel p v star
      else if c = '*' then globLoop fuel p (d :: v) (some (p, d :: v))
      else
        match star with
        | some (q, r) => globLoop fuel q r.tail (some (q, r.tail))
        | none => some false
  | fuel + 1, [], _ :: _, star =>
      match star with
      | some (q, r) => globLoop fuel q r.tail (some (q, r.tail))
      | none => some false

/-- More rounds than the loop can take. -/
def globRounds (p v : List Char) : ℕ := (v.length + 2) * (p.length + v.length + 2)

def globMatchChars (p v : List Char) : Bool := (globLoop (globRounds p v) p v none).getD false

/-- `_glob_match`. -/
def globMatch (pattern value : String) : Bool := globMatchChars pattern.toList value.toList

/-- What `str.strip` takes off. -/
def isSpace (c : Char) : Bool :=
  (0x09 ≤ c.toNat && c.toNat ≤ 0x0d) || (0x1c ≤ c.toNat && c.toNat ≤ 0x20) ||
    (0x2000 ≤ c.toNat && c.toNat ≤ 0x200a) ||
    c.toNat ∈ [0x85, 0xa0, 0x1680, 0x2028, 0x2029, 0x202f, 0x205f, 0x3000]

def strip (s : List Char) : List Char := (s.dropWhile isSpace).rdropWhile isSpace

/-- `str.lower`, by the case tables of Unicode.  An asterisk has no case. -/
structure Lowering where
  lower : List Char → List Char
  asterisk : ∀ s, '*' ∈ lower s ↔ '*' ∈ s

structure ModelRef where
  provider : String
  model : String
  litellmModel : String

/-- A text up to its first slash. -/
def beforeSlash (s : List Char) : List Char := s.takeWhile (· ≠ '/')

/-- A text behind its first slash. -/
def afterSlash (s : List Char) : List Char := (s.dropWhile (· ≠ '/')).tail

def parseModelRef (L : Lowering) (model : String) : ModelRef :=
  let raw := strip model.toList
  if '/' ∈ raw then
    let provider := L.lower (strip (beforeSlash raw))
    { provider := String.ofList provider
      model := String.ofList (afterSlash raw)
      litellmModel := String.ofList (provider ++ '/' :: afterSlash raw) }
  else { provider := "openai", model := String.ofList raw, litellmModel := String.ofList raw }

def modelAllowlistMatches (pattern provider litellmModel : String) : Bool :=
  if globMatch pattern litellmModel then true
  else if pattern.toList.contains '/' then false
  else globMatch pattern provider

/-- What the SDK decides in-process. -/
def allows (L : Lowering) (allowed : List String) (model : String) : Bool :=
  let ref := parseModelRef L model
  allowed.any fun pattern => modelAllowlistMatches pattern ref.provider ref.litellmModel

end Python

/-- What the engine decides for a durable run. -/
def allows (allowed : List String) (model : String) : Bool := allowed.any (modelMatches · model)

section Meaning

theorem rests_eq_tails (v : List Char) : Glob.rests (fun _ => true) v = v.tails := by
  induction v with
  | nil => rfl
  | cons c v ih => simp [Glob.rests, ih]

theorem globMatchInner_eq_accepts (p v : List Char) :
    globMatchInner p v = Glob.accepts (p.map globItem) v := by
  induction p generalizing v with
  | nil => cases v <;> rfl
  | cons c p ih =>
    rw [List.map_cons]
    by_cases hstar : c = '*'
    · have hitem : globItem c = .run fun _ => true := by simp [globItem, hstar]
      rw [hitem, hstar, globMatchInner_star, Glob.accepts, rests_eq_tails]
      exact congrArg _ (funext ih)
    · cases v with
      | nil =>
        rw [globMatchInner_cons_nil hstar]
        by_cases hany : c = '?' <;> simp [globItem, hstar, hany, Glob.accepts]
      | cons d v =>
        rw [globMatchInner_cons hstar, ih]
        by_cases hany : c = '?'
        · simp [globItem, hany, Glob.accepts]
        · simp [globItem, hstar, hany, Glob.accepts, eq_comm]

theorem globMatch_eq_meaning (pattern value : String) :
    globMatch pattern value = globMeaning pattern value := globMatchInner_eq_accepts _ _

end Meaning

namespace Python

section Loop

variable {p q r v : List Char} {star : Option (List Char × List Char)} {fuel : ℕ}

theorem globLoop_cons (fuel : ℕ) (c : Char) (p : List Char) (d : Char) (v : List Char)
    (star : Option (List Char × List Char)) : globLoop (fuel + 1) (c :: p) (d :: v) star =
      if c = d ∨ c = '?' then globLoop fuel p v star
      else if c = '*' then globLoop fuel p (d :: v) (some (p, d :: v))
      else
        match star with
        | some (q, r) => globLoop fuel q r.tail (some (q, r.tail))
        | none => some false := by
  cases star <;> rfl

/-- Some later alignment behind the last star matches. -/
def resumes (star : Option (List Char × List Char)) : Bool :=
  star.any fun (q, r) => r.tail.tails.any (globMatchInner q)

theorem globMatchInner_nil_right (p : List Char) :
    globMatchInner p [] = (p.dropWhile (· = '*')).isEmpty := by
  induction p with
  | nil => rfl
  | cons c p ih =>
    by_cases hstar : c = '*'
    · rw [hstar, globMatchInner_star]
      simp [ih]
    · rw [globMatchInner_cons_nil hstar]
      simp [hstar]

theorem any_tails (f : List Char → Bool) (l : List Char) :
    l.tails.any f = (f l || l.tail.tails.any f) := by
  cases l with
  | nil => simp
  | cons c l => simp

/-- What a state of the loop has ahead at most. -/
def weight (K : ℕ) (p v : List Char) : Option (List Char × List Char) → ℕ
  | some (_, r) => r.length * K + p.length + v.length
  | none => (v.length + 1) * K + p.length + v.length

/-- The value resumed from is no shorter than what is left, and all lengths are below a bound. -/
def Bounded (K : ℕ) (p v : List Char) (star : Option (List Char × List Char)) : Prop :=
  p.length + v.length < K ∧ ∀ q r, star = some (q, r) → v.length ≤ r.length ∧ q.length + r.length < K

theorem globLoop_isSome (K : ℕ) (h : Bounded K p v star) (hfuel : weight K p v star < fuel) :
    (globLoop fuel p v star).isSome = true := by
  induction fuel generalizing p v star with
  | zero => omega
  | succ fuel ih =>
    obtain ⟨hlength, hstar⟩ := h
    cases v with
    | nil => simp [globLoop]
    | cons d v =>
      -- the value to resume from gets shorter, and with it the weight by a whole `K`
      have hresume : ∀ q r, star = some (q, r) →
          (globLoop fuel q r.tail (some (q, r.tail))).isSome = true := by
        intro q r hq
        obtain ⟨hle, hbound⟩ := hstar q r hq
        subst hq
        rw [List.length_cons] at hle
        have hsplit : r.length * K = (r.length - 1) * K + K := by
          rw [← Nat.succ_mul]
          congr 1
          omega
        refine ih ⟨?_, fun _ _ heq => ?_⟩ ?_
        · simp only [List.length_tail]
          omega
        · obtain ⟨rfl, rfl⟩ := Prod.mk.inj (Option.some.inj heq)
          simp only [List.length_tail]
          omega
        · simp only [weight, List.length_tail] at hfuel ⊢
          omega
      cases p with
      | nil =>
        cases star with
        | none => simp [globLoop]
        | some qr => exact hresume qr.1 qr.2 rfl
      | cons c p =>
        simp only [List.length_cons] at hlength
        rw [globLoop_cons]
        split
        · refine ih ⟨by omega, fun q r hq => ?_⟩ ?_
          · have := hstar q r hq
            simp only [List.length_cons] at this
            omega
          · cases star with
            | none =>
              simp only [weight, List.length_cons, Nat.succ_mul] at hfuel ⊢
              omega
            | some qr =>
              simp only [weight, List.length_cons] at hfuel ⊢
              omega
        · split
          · refine ih ⟨by simp only [List.length_cons]; omega, fun q r hq => ?_⟩ ?_
            · obtain ⟨rfl, rfl⟩ := Prod.mk.inj (Option.some.inj hq)
              simp only [List.length_cons]
              omega
            · cases star with
              | none =>
                simp only [weight, List.length_cons, Nat.succ_mul] at hfuel ⊢
                omega
              | some qr =>
                have hle := Nat.mul_le_mul_right K (hstar qr.1 qr.2 rfl).1
                simp only [weight, List.length_cons] at hfuel hle ⊢
                omega
          · cases star with
            | none => rfl
            | some qr => exact hresume qr.1 qr.2 rfl

theorem globLoop_terminates (p v : List Char) : (globLoop (globRounds p v) p v none).isSome = true := by
  refine globLoop_isSome (p.length + v.length + 1) ⟨by omega, by simp⟩ ?_
  have hrounds : globRounds p v =
      (v.length + 1) * (p.length + v.length + 1) + (p.length + v.length) + (v.length + 3) := by
    rw [globRounds, Nat.add_mul (v.length + 1) 1, Nat.mul_succ]
    omega
  simp only [weight]
  omega

/-- Where the loop matches, the recursion does. -/
theorem globLoop_sound (h : globLoop fuel p v star = some true) :
    (globMatchInner p v || resumes star) = true := by
  induction fuel generalizing p v star with
  | zero => cases h
  | succ fuel ih =>
    cases v with
    | nil =>
      rw [globMatchInner_nil_right, Option.some.inj h]
      rfl
    | cons d v =>
      have hresume : ∀ q r, globLoop fuel q r.tail (some (q, r.tail)) = some true →
          resumes (some (q, r)) = true := by
        intro q r hloop
        have hlater := ih hloop
        change r.tail.tails.any (globMatchInner q) = true
        rw [any_tails]
        exact hlater
      cases p with
      | nil =>
        cases star with
        | none => cases h
        | some qr => simp [hresume qr.1 qr.2 h]
      | cons c p =>
        rw [globLoop_cons] at h
        split at h
        · rename_i hone
          rcases Bool.or_eq_true_iff.mp (ih h) with hrest | hstar
          · by_cases hc : c = '*'
            · rw [hc, globMatchInner_star, List.tails_cons, List.any_cons, any_tails, hrest]
              simp
            · simp [globMatchInner_cons hc, hrest, hone.symm]
          · simp [hstar]
        · split at h
          · rename_i hc
            have hlater := ih h
            rw [resumes, Option.any_some] at hlater
            rw [hc, globMatchInner_star, any_tails, hlater]
            rfl
          · cases star with
            | none => cases h
            | some qr => simp [hresume qr.1 qr.2 h]

/-- What follows the last star is a star-free piece that has been matched so far, and the rest. -/
def Aligned (p v : List Char) (star : Option (List Char × List Char)) : Prop :=
  ∀ q r, star = some (q, r) → ∃ piece taken : List Char, q = piece ++ p ∧ r = taken ++ v ∧
    piece.length = taken.length ∧ '*' ∉ piece

theorem globMatchInner_piece {piece : List Char} (hpiece : '*' ∉ piece)
    (h : globMatchInner (piece ++ p) v = true) :
    piece.length ≤ v.length ∧ globMatchInner p (v.drop piece.length) = true := by
  induction piece generalizing v with
  | nil => exact ⟨Nat.zero_le _, h⟩
  | cons c piece ih =>
    obtain ⟨hc, hpiece⟩ := not_or.mp (mt List.mem_cons.mpr hpiece)
    cases v with
    | nil =>
      rw [List.cons_append, globMatchInner_cons_nil (Ne.symm hc)] at h
      cases h
    | cons d v =>
      rw [List.cons_append, globMatchInner_cons (Ne.symm hc), Bool.and_eq_true] at h
      obtain ⟨hle, hrest⟩ := ih hpiece h.2
      exact ⟨by simpa using hle, hrest⟩

theorem Aligned.of_resumes (h : Aligned p v star) (hlater : resumes star = true) :
    ∃ rest, rest <:+ v ∧ globMatchInner p rest = true := by
  obtain _ | ⟨q, r⟩ := star
  · cases hlater
  · obtain ⟨piece, taken, rfl, rfl, hlength, hpiece⟩ := h q r rfl
    change (taken ++ v).tail.tails.any _ = true at hlater
    obtain ⟨later, hsuffix, hmatch⟩ := List.any_eq_true.mp hlater
    rw [List.mem_tails] at hsuffix
    obtain ⟨-, hrest⟩ := globMatchInner_piece hpiece hmatch
    have hle : later.length ≤ (taken ++ v).length := (hsuffix.trans (List.tail_suffix _)).length_le
    have hdrop : later.drop piece.length <:+ taken ++ v :=
      ((List.drop_suffix _ _).trans hsuffix).trans (List.tail_suffix _)
    refine ⟨_, List.suffix_of_suffix_length_le hdrop (List.suffix_append _ _) ?_, hrest⟩
    rw [List.length_append] at hle
    rw [List.length_drop]
    omega

theorem aligned_star (p v : List Char) : Aligned p v (some (p, v)) := by
  intro q r h
  obtain ⟨rfl, rfl⟩ := Prod.mk.inj (Option.some.inj h)
  exact ⟨[], [], rfl, rfl, rfl, List.not_mem_nil⟩

theorem Aligned.one {c d : Char} (h : Aligned (c :: p) (d :: v) star) (hc : c ≠ '*') :
    Aligned p v star := by
  intro q r hq
  obtain ⟨piece, taken, rfl, rfl, hlength, hpiece⟩ := h q r hq
  exact ⟨piece ++ [c], taken ++ [d], by simp, by simp, by simp [hlength],
    by simp [hpiece, Ne.symm hc]⟩

/-- Where the value holds no star, the loop says what the recursion says: forgetting the star before
the last one loses no match. -/
theorem globLoop_eq {b : Bool} (hvalue : '*' ∉ v) (hresume : ∀ q r, star = some (q, r) → '*' ∉ r)
    (haligned : Aligned p v star) (h : globLoop fuel p v star = some b) :
    b = (globMatchInner p v || resumes star) := by
  induction fuel generalizing p v star with
  | zero => cases h
  | succ fuel ih =>
    cases v with
    | nil =>
      have hb : (p.dropWhile (· = '*')).isEmpty = b := Option.some.inj h
      rw [globMatchInner_nil_right, hb]
      cases hstar : resumes star with
      | false => simp
      | true =>
        obtain ⟨rest, hsuffix, hmatch⟩ := haligned.of_resumes hstar
        rw [List.suffix_nil.mp hsuffix, globMatchInner_nil_right, hb] at hmatch
        simp [hmatch]
    | cons d v =>
      obtain ⟨hd, hv⟩ := not_or.mp (mt List.mem_cons.mpr hvalue)
      have hback : ∀ q r, star = some (q, r) →
          globLoop fuel q r.tail (some (q, r.tail)) = some b → b = resumes (some (q, r)) := by
        intro q r hq hloop
        have hr : '*' ∉ r.tail := fun hmem => hresume q r hq (List.mem_of_mem_tail hmem)
        have hlater := ih hr (fun q' r' heq => by
          obtain ⟨rfl, rfl⟩ := Prod.mk.inj (Option.some.inj heq)
          exact hr) (aligned_star q r.tail) hloop
        change b = r.tail.tails.any (globMatchInner q)
        rw [any_tails]
        exact hlater
      cases p with
      | nil =>
        cases star with
        | none => exact (Option.some.inj h).symm
        | some qr => exact hback qr.1 qr.2 rfl h
      | cons c p =>
        rw [globLoop_cons] at h
        by_cases hc : c = '*'
        · subst hc
          rw [if_neg (by simp [hd]), if_pos rfl] at h
          have hlater := ih hvalue (fun q r heq => by
            obtain ⟨rfl, rfl⟩ := Prod.mk.inj (Option.some.inj heq)
            exact hvalue) (aligned_star p (d :: v)) h
          have hhere : b = globMatchInner ('*' :: p) (d :: v) := by
            rw [globMatchInner_star, any_tails]
            exact hlater
          cases hstar : resumes star with
          | false => simpa using hhere
          | true =>
            -- the star before would only have found what this one finds
            obtain ⟨rest, hsuffix, hmatch⟩ := haligned.of_resumes hstar
            rw [globMatchInner_star, List.any_eq_true] at hmatch
            obtain ⟨rest', hsuffix', hmatch⟩ := hmatch
            have hfound : globMatchInner ('*' :: p) (d :: v) = true := by
              rw [globMatchInner_star, List.any_eq_true]
              exact ⟨rest', (List.mem_tails _ _).mpr (((List.mem_tails _ _).mp hsuffix').trans hsuffix), hmatch⟩
            rw [hhere, hfound]
            rfl
        · rw [globMatchInner_cons hc]
          by_cases hone : c = d ∨ c = '?'
          · rw [if_pos hone] at h
            have hboth : (c = '?' || c = d) = true := by simpa [or_comm] using hone
            rw [hboth, Bool.true_and]
            exact ih hv hresume (haligned.one hc) h
          · rw [if_neg hone, if_neg hc] at h
            have hneither : (c = '?' || c = d) = false := by simpa [and_comm] using hone
            rw [hneither, Bool.false_and, Bool.false_or]
            cases star with
            | none => exact (Option.some.inj h).symm
            | some qr => exact hback qr.1 qr.2 rfl h

theorem globLoop_any (n : ℕ) {u : List Char} (hu : u.length = n) :
    globLoop (n + fuel) (List.replicate n '?' ++ p) (u ++ v) star = globLoop fuel p v star := by
  induction n generalizing u with
  | zero => rw [List.eq_nil_of_length_eq_zero hu, Nat.zero_add]; rfl
  | succ n ih =>
    obtain ⟨d, u, rfl⟩ : ∃ d w, u = d :: w := List.exists_cons_of_length_eq_add_one hu
    rw [Nat.succ_add, List.replicate_succ, List.cons_append, List.cons_append, globLoop_cons,
      if_pos (.inr rfl)]
    exact ih (by simpa using hu)

theorem globMatchChars_sound (h : globMatchChars p v = true) : globMatchInner p v = true := by
  obtain ⟨b, hb⟩ := Option.isSome_iff_exists.mp (globLoop_terminates p v)
  rw [globMatchChars, hb, Option.getD_some] at h
  have hsound := globLoop_sound (h ▸ hb)
  change (globMatchInner p v || false) = true at hsound
  simpa using hsound

theorem globMatchChars_eq (hvalue : '*' ∉ v) : globMatchChars p v = globMatchInner p v := by
  obtain ⟨b, hb⟩ := Option.isSome_iff_exists.mp (globLoop_terminates p v)
  have heq := globLoop_eq hvalue (by simp) (by simp [Aligned]) hb
  rw [globMatchChars, hb, Option.getD_some, heq]
  exact Bool.or_false _

/-- The pattern for any text at least as long as `u ++ '*' :: w`, its star where that has one. -/
def probe (u w : List Char) : List Char :=
  List.replicate u.length '?' ++ '*' :: List.replicate (w.length + 1) '?'

theorem globMatchChars_probe (u w : List Char) :
    globMatchChars (probe u w) (u ++ '*' :: w) = false := by
  have hlength : (probe u w).length = u.length + w.length + 2 := by
    simp [probe]
    omega
  have hrounds : ∃ k, globRounds (probe u w) (u ++ '*' :: w) = u.length + (w.length + (k + 1) + 1) := by
    refine ⟨globRounds (probe u w) (u ++ '*' :: w) - (u.length + w.length + 2), ?_⟩
    have hle : 1 * (u.length + w.length + 2) ≤ globRounds (probe u w) (u ++ '*' :: w) :=
      Nat.mul_le_mul (by omega) (by omega)
    omega
  obtain ⟨k, hk⟩ := hrounds
  have hend : globLoop (w.length + (k + 1)) (List.replicate (w.length + 1) '?') w none =
      some false := by
    have hrest : globLoop (w.length + (k + 1)) (List.replicate w.length '?' ++ ['?']) (w ++ []) none =
        globLoop (k + 1) ['?'] [] none := globLoop_any w.length rfl
    rw [List.append_nil, ← List.replicate_succ'] at hrest
    rw [hrest]
    rfl
  rw [globMatchChars, hk, probe, globLoop_any u.length rfl, globLoop_cons, if_pos (.inl rfl), hend]
  rfl

theorem replicate_ne_star (n : ℕ) : '*' ∉ List.replicate n '?' := by simp

theorem globMatchInner_any (n : ℕ) : globMatchInner (List.replicate n '?' ++ p) v = true ↔
    n ≤ v.length ∧ globMatchInner p (v.drop n) = true := by
  constructor
  · intro h
    simpa using globMatchInner_piece (replicate_ne_star n) h
  · induction n generalizing v with
    | zero => simp
    | succ n ih =>
      rintro ⟨hle, hmatch⟩
      cases v with
      | nil => simp at hle
      | cons d v =>
        rw [List.replicate_succ, List.cons_append, globMatchInner_cons (by decide)]
        simpa using ih ⟨by simpa using hle, by simpa using hmatch⟩

theorem globMatchInner_nil_left : globMatchInner [] v = true ↔ v = [] := by
  simp [globMatchInner]

theorem globMatchInner_replicate (n : ℕ) :
    globMatchInner (List.replicate n '?') v = true ↔ v.length = n := by
  have h := globMatchInner_any (p := []) (v := v) n
  rw [List.append_nil] at h
  rw [h, globMatchInner_nil_left, List.drop_eq_nil_iff]
  omega

theorem globMatchChars_replicate {n : ℕ} (hv : v.length = n) :
    globMatchChars (List.replicate n '?') v = true := by
  have hrounds : ∃ k, globRounds (List.replicate n '?') v = n + (k + 1) := by
    refine ⟨globRounds (List.replicate n '?') v - (n + 1), ?_⟩
    have hle : 1 * (n + 1) ≤ globRounds (List.replicate n '?') v :=
      Nat.mul_le_mul (by omega) (by simp; omega)
    omega
  obtain ⟨k, hk⟩ := hrounds
  have hend : globLoop (n + (k + 1)) (List.replicate n '?' ++ []) (v ++ []) none =
      globLoop (k + 1) [] [] none := globLoop_any n hv
  rw [List.append_nil, List.append_nil] at hend
  rw [globMatchChars, hk, hend]
  rfl

theorem globMatchInner_atLeast (n k : ℕ) :
    globMatchInner (List.replicate n '?' ++ '*' :: List.replicate k '?') v = true ↔
      n + k ≤ v.length := by
  rw [globMatchInner_any, globMatchInner_star, List.any_eq_true]
  constructor
  · rintro ⟨hle, rest, hsuffix, hmatch⟩
    have hlength := ((List.mem_tails _ _).mp hsuffix).length_le
    rw [(globMatchInner_replicate k).mp hmatch, List.length_drop] at hlength
    omega
  · intro h
    refine ⟨by omega, v.drop (v.length - k), ?_, ?_⟩
    · rw [List.mem_tails]
      exact List.suffix_of_suffix_length_le (List.drop_suffix _ _) (List.drop_suffix _ _)
        (by simp only [List.length_drop]; omega)
    · rw [globMatchInner_replicate, List.length_drop]
      omega

theorem globMatchInner_place {c : Char} (hstar : c ≠ '*') (hany : c ≠ '?') (n k : ℕ) :
    globMatchInner (List.replicate n '?' ++ c :: List.replicate k '?') v = true ↔
      v.length = n + k + 1 ∧ v[n]? = some c := by
  rw [globMatchInner_any]
  by_cases hn : n < v.length
  · have hdrop : v.drop n = v[n] :: v.drop (n + 1) := List.drop_eq_getElem_cons hn
    rw [hdrop, globMatchInner_cons hstar, List.getElem?_eq_getElem hn]
    simp only [hany, decide_false, Bool.false_or, Bool.and_eq_true, decide_eq_true_eq,
      globMatchInner_replicate, List.length_drop, Option.some.injEq]
    constructor
    · rintro ⟨-, rfl, hk⟩
      exact ⟨by omega, rfl⟩
    · rintro ⟨hlength, rfl⟩
      exact ⟨by omega, rfl, by omega⟩
  · have hdrop : v.drop n = [] := List.drop_eq_nil_of_le (by omega)
    rw [hdrop, globMatchInner_cons_nil hstar]
    simp only [Bool.false_eq_true, and_false, false_iff]
    rintro ⟨hlength, -⟩
    omega

end Loop

theorem globMatch_eq_iff (value : String) :
    (∀ pattern, globMatch pattern value = Policy.globMatch pattern value) ↔ '*' ∉ value.toList := by
  constructor
  · intro h hmem
    obtain ⟨u, w, hvalue⟩ := List.append_of_mem hmem
    have hprobe := h (String.ofList (probe u w))
    rw [globMatch, Policy.globMatch, String.toList_ofList, hvalue, globMatchChars_probe] at hprobe
    have hmatch := (globMatchInner_atLeast (v := u ++ '*' :: w) u.length (w.length + 1)).mpr
      (by simp)
    exact absurd (hprobe.trans hmatch) (by decide)
  · exact fun h pattern => globMatchChars_eq h

section Allowlists

/-- One pattern, on a full reference and its provider. -/
def admits (glob : List Char → List Char → Bool) (p full provider : List Char) : Bool :=
  glob p full || (!p.contains '/' && glob p provider)

variable {full provider full' provider' : List Char}

/-- When every pattern says the same of a reference and its provider on both sides, the two
references are the same and have no star. -/
theorem same_of_admits (hprovider : provider.length < full.length)
    (hprovider' : provider'.length < full'.length) (hstar : '*' ∈ full' → '*' ∈ full)
    (h : ∀ p, admits globMatchChars p full provider = admits globMatchInner p full' provider') :
    full = full' ∧ provider.length = provider'.length ∧ '*' ∉ full := by
  have hleft : ∀ p, admits globMatchInner p full' provider' = true →
      globMatchInner p full = true ∨ globMatchInner p provider = true := by
    intro p hp
    rw [← h p, admits, Bool.or_eq_true, Bool.and_eq_true] at hp
    exact hp.imp globMatchChars_sound fun hp => globMatchChars_sound hp.2
  have hright : ∀ p, admits globMatchChars p full provider = true →
      globMatchInner p full' = true ∨ globMatchInner p provider' = true := by
    intro p hp
    rw [h p, admits, Bool.or_eq_true, Bool.and_eq_true] at hp
    exact hp.imp_right And.right
  have hwhole : ∀ p, globMatchInner p full' = true → admits globMatchInner p full' provider' = true :=
    fun p hp => by simp [admits, hp]
  -- patterns of `?` alone give the lengths
  have hlength : full.length = full'.length := by
    have hto := hright (List.replicate full.length '?')
      (by simp [admits, globMatchChars_replicate rfl])
    have hfrom := hleft _ (hwhole _ ((globMatchInner_replicate (v := full') _).mpr rfl))
    simp only [globMatchInner_replicate] at hto hfrom
    omega
  have hshort : provider.length = provider'.length := by
    have hto := hright (List.replicate provider.length '?')
      (by simp [admits, globMatchChars_replicate (v := provider) rfl])
    simp only [globMatchInner_replicate] at hto
    omega
  -- a star where the loop would meet one gives that there is none
  have hplain : '*' ∉ full := by
    intro hmem
    obtain ⟨u, w, rfl⟩ := List.append_of_mem hmem
    have hlong : u.length + (w.length + 1) ≤ full'.length := by
      simp only [List.length_append, List.length_cons] at hlength
      omega
    have hadmits := hwhole (probe u w) ((globMatchInner_atLeast _ _).mpr hlong)
    rw [← h, admits, globMatchChars_probe, Bool.false_or, Bool.and_eq_true] at hadmits
    have hle := (globMatchInner_atLeast _ _).mp (globMatchChars_sound hadmits.2)
    simp only [List.length_append, List.length_cons] at hprovider
    omega
  refine ⟨List.ext_getElem hlength fun i hi hi' => ?_, hshort, hplain⟩
  by_contra hne
  have hsplit : full.length = i + (full.length - i - 1) + 1 := by omega
  by_cases hany : full'[i] = '?'
  · have hd : full[i] ≠ '*' := fun hd => hplain (hd ▸ List.getElem_mem hi)
    have hplace := globMatchInner_place (v := full) hd (hany ▸ hne) i (full.length - i - 1)
    have hmatch := hplace.mpr ⟨hsplit, List.getElem?_eq_getElem hi⟩
    have hadmits : admits globMatchChars (List.replicate i '?' ++ full[i] ::
        List.replicate (full.length - i - 1) '?') full provider = true := by
      rw [admits, globMatchChars_eq hplain, hmatch]
      rfl
    rcases hright _ hadmits with hmeet | hmeet
    · have hthere := ((globMatchInner_place hd (hany ▸ hne) _ _).mp hmeet).2
      rw [List.getElem?_eq_getElem hi'] at hthere
      exact hne (Option.some.inj hthere).symm
    · have hthere := ((globMatchInner_place hd (hany ▸ hne) _ _).mp hmeet).1
      omega
  · have hc : full'[i] ≠ '*' := fun hc => hplain (hstar (hc ▸ List.getElem_mem hi'))
    have hplace := globMatchInner_place (v := full') hc hany i (full.length - i - 1)
    have hmatch := hplace.mpr ⟨hlength ▸ hsplit, List.getElem?_eq_getElem hi'⟩
    rcases hleft _ (hwhole _ hmatch) with hmeet | hmeet
    · have hthere := ((globMatchInner_place hc hany _ _).mp hmeet).2
      rw [List.getElem?_eq_getElem hi] at hthere
      exact hne (Option.some.inj hthere)
    · have hthere := ((globMatchInner_place hc hany _ _).mp hmeet).1
      omega

/-- A reference that both sides read alike: it holds no star, and it is the default provider's name
or has a slash, nothing to strip at its end, and before the slash what the SDK makes of it. -/
structure ReadAlike (L : Lowering) (model : List Char) : Prop where
  plain : '*' ∉ model
  spelled : model = "openai".toList ∨ ('/' ∈ model ∧
    L.lower (strip (beforeSlash (strip model))) = beforeSlash model ∧
    afterSlash (strip model) = afterSlash model)

theorem split_slash {s : List Char} (h : '/' ∈ s) : s = beforeSlash s ++ '/' :: afterSlash s := by
  have hsplit := (List.takeWhile_append_dropWhile (p := (· ≠ '/')) (l := s)).symm
  have hne : s.dropWhile (· ≠ '/') ≠ [] := by
    intro hempty
    have hall := List.dropWhile_eq_nil_iff.mp hempty '/' h
    simp at hall
  have hhead := List.head_dropWhile_not (p := (· ≠ '/')) hne
  have hcons := (List.cons_head_tail hne).symm
  have hslash : (s.dropWhile (· ≠ '/')).head hne = '/' := by simpa using hhead
  rw [hslash] at hcons
  rw [hcons] at hsplit
  exact hsplit

theorem beforeSlash_eq_self {s : List Char} (h : '/' ∉ s) : beforeSlash s = s :=
  List.takeWhile_eq_self_iff.mpr fun c hc => by
    have hne : c ≠ '/' := fun heq => h (heq ▸ hc)
    simpa using hne

theorem mem_dropWhile {q : Char → Bool} {c : Char} (hc : q c = false) (s : List Char) :
    c ∈ s.dropWhile q ↔ c ∈ s := by
  induction s with
  | nil => rfl
  | cons d s ih =>
    by_cases hd : q d = true
    · have hne : c ≠ d := by
        rintro rfl
        simp [hd] at hc
      rw [List.dropWhile_cons_of_pos hd, ih]
      simp [hne]
    · rw [List.dropWhile_cons_of_neg hd]

theorem mem_strip {c : Char} (hc : isSpace c = false) (s : List Char) : c ∈ strip s ↔ c ∈ s := by
  rw [strip, List.rdropWhile, List.mem_reverse, mem_dropWhile hc, List.mem_reverse, mem_dropWhile hc]

theorem modelAllowlistMatches_eq (p : List Char) (provider full : String) :
    modelAllowlistMatches (String.ofList p) provider full =
      admits globMatchChars p full.toList provider.toList := by
  unfold modelAllowlistMatches globMatch admits
  rw [String.toList_ofList]
  cases globMatchChars p full.toList <;> cases p.contains '/' <;> simp

theorem modelMatches_eq (p : List Char) (model : String) :
    modelMatches (String.ofList p) model =
      admits globMatchInner p model.toList (beforeSlash model.toList) := by
  unfold modelMatches Policy.globMatch admits
  rw [String.toList_ofList, String.toList_ofList]
  cases globMatchInner p model.toList <;> cases p.contains '/' <;> simp [beforeSlash]

theorem eq_of_globMatchInner {p v : List Char} (hp : ∀ c ∈ p, c ≠ '*' ∧ c ≠ '?')
    (h : globMatchInner p v = true) : v = p := by
  induction p generalizing v with
  | nil => exact globMatchInner_nil_left.mp h
  | cons c p ih =>
    obtain ⟨⟨hstar, hany⟩, hp⟩ := List.forall_mem_cons.mp hp
    cases v with
    | nil =>
      rw [globMatchInner_cons_nil hstar] at h
      cases h
    | cons d v =>
      rw [globMatchInner_cons hstar, Bool.and_eq_true] at h
      have hd : c = d := by simpa [hany] using h.1
      rw [hd, ih hp h.2]

theorem admits_eq (hfull : '*' ∉ full) (hprovider : '*' ∉ provider) (p : List Char) :
    admits globMatchChars p full provider = admits globMatchInner p full provider := by
  rw [admits, admits, globMatchChars_eq hfull, globMatchChars_eq hprovider]

variable {L : Lowering} {model : String}

theorem allows_iff_admits :
    (∀ allowed, allows L allowed model = Policy.allows allowed model) ↔
      ∀ p, admits globMatchChars p (parseModelRef L model).litellmModel.toList
          (parseModelRef L model).provider.toList =
        admits globMatchInner p model.toList (beforeSlash model.toList) := by
  constructor
  · intro h p
    have hone := h [String.ofList p]
    simp only [allows, Policy.allows, List.any_cons, List.any_nil, Bool.or_false] at hone
    rw [← modelAllowlistMatches_eq, ← modelMatches_eq]
    exact hone
  · intro h allowed
    refine congrArg (List.any allowed) (funext fun pattern => ?_)
    have hone := h pattern.toList
    rw [← modelAllowlistMatches_eq, ← modelMatches_eq, String.ofList_toList] at hone
    exact hone

theorem toList_parse_slash (h : '/' ∈ strip model.toList) :
    (parseModelRef L model).provider.toList = L.lower (strip (beforeSlash (strip model.toList))) ∧
      (parseModelRef L model).litellmModel.toList =
        L.lower (strip (beforeSlash (strip model.toList))) ++ '/' :: afterSlash (strip model.toList) := by
  simp [parseModelRef, h]

theorem toList_parse_bare (h : '/' ∉ strip model.toList) :
    (parseModelRef L model).provider.toList = "openai".toList ∧
      (parseModelRef L model).litellmModel.toList = strip model.toList := by
  simp [parseModelRef, h]

theorem readAlike_of_slash (hmem : '/' ∈ model.toList)
    (h : ∀ allowed, allows L allowed model = Policy.allows allowed model) :
    ReadAlike L model.toList := by
  have hadmits := allows_iff_admits.mp h
  have hraw : '/' ∈ strip model.toList := (mem_strip rfl _).mpr hmem
  obtain ⟨hprovider, hfull⟩ := toList_parse_slash (L := L) hraw
  rw [hprovider, hfull] at hadmits
  have hsplit := split_slash hmem
  have hsplit' := split_slash hraw
  have hshort : (beforeSlash model.toList).length < model.toList.length := by
    have hlength := congrArg List.length hsplit
    rw [List.length_append, List.length_cons] at hlength
    omega
  have hstar : '*' ∈ model.toList → '*' ∈ L.lower (strip (beforeSlash (strip model.toList))) ++
      '/' :: afterSlash (strip model.toList) := by
    intro hin
    have hraw : '*' ∈ strip model.toList := (mem_strip rfl _).mpr hin
    rw [hsplit'] at hraw
    rw [List.mem_append, L.asterisk, mem_strip rfl]
    exact List.mem_append.mp hraw
  obtain ⟨hsame, hlength, hplain⟩ := same_of_admits (by simp) hshort hstar hadmits
  obtain ⟨hbefore, hafter⟩ := List.append_inj (hsame.trans hsplit) hlength
  exact ⟨hsame ▸ hplain, .inr ⟨hmem, hbefore, (List.cons.inj hafter).2⟩⟩

theorem readAlike_of_bare (hmem : '/' ∉ model.toList)
    (h : ∀ allowed, allows L allowed model = Policy.allows allowed model) :
    ReadAlike L model.toList := by
  have hraw : '/' ∉ strip model.toList := mt (mem_strip rfl _).mp hmem
  obtain ⟨hprovider, hfull⟩ := toList_parse_bare (L := L) hraw
  -- the default provider's own name is admitted by the SDK
  have hdefault := allows_iff_admits.mp h "openai".toList
  have hself : globMatchChars "openai".toList "openai".toList = true := by decide
  have hnone : "openai".toList.contains '/' = false := by decide
  rw [hprovider, hfull, beforeSlash_eq_self hmem, admits, admits, hself, hnone, Bool.not_false,
    Bool.true_and, Bool.or_true, Bool.true_and, Bool.or_self] at hdefault
  have hmodel := eq_of_globMatchInner (by decide) hdefault.symm
  exact ⟨by rw [hmodel]; decide, .inl hmodel⟩

/-- The two sides decide alike on a reference, whatever the allowlist, if and only if they read it
alike. -/
theorem allows_eq_iff (L : Lowering) (model : String) :
    (∀ allowed, allows L allowed model = Policy.allows allowed model) ↔
      ReadAlike L model.toList := by
  constructor
  · intro h
    by_cases hmem : '/' ∈ model.toList
    · exact readAlike_of_slash hmem h
    · exact readAlike_of_bare hmem h
  · rintro ⟨hplain, hmodel | ⟨hmem, hbefore, hafter⟩⟩
    · have hbare : '/' ∉ model.toList := by
        rw [hmodel]
        decide
      have hstrip : strip "openai".toList = "openai".toList := by decide
      obtain ⟨hprovider, hfull⟩ := toList_parse_bare (L := L) (mt (mem_strip rfl _).mp hbare)
      rw [allows_iff_admits, hprovider, hfull, beforeSlash_eq_self hbare, hmodel, hstrip]
      exact admits_eq (by decide) (by decide)
    · obtain ⟨hprovider, hfull⟩ := toList_parse_slash (L := L) ((mem_strip rfl _).mpr hmem)
      have hbeforePlain : '*' ∉ beforeSlash model.toList := fun h =>
        hplain (List.takeWhile_subset _ h)
      rw [allows_iff_admits, hprovider, hfull, hbefore, hafter, ← split_slash hmem]
      exact admits_eq hplain hbeforePlain

end Allowlists

/-- Both halves: on which values the matchers agree, and on which references the allowlists do. -/
theorem allowlists_agree_iff (L : Lowering) :
    (∀ value, (∀ pattern, globMatch pattern value = Policy.globMatch pattern value ∧
        Policy.globMatch pattern value = globMeaning pattern value) ↔ '*' ∉ value.toList) ∧
      ∀ model, (∀ allowed, allows L allowed model = Policy.allows allowed model) ↔
        ReadAlike L model.toList := by
  refine ⟨fun value => ?_, allows_eq_iff L⟩
  rw [← globMatch_eq_iff]
  exact ⟨fun h pattern => (h pattern).1, fun h pattern => ⟨h pattern, globMatch_eq_meaning _ _⟩⟩

theorem toLower_eq_star {c : Char} : c.toLower = '*' ↔ c = '*' := by
  constructor
  · intro h
    unfold Char.toLower at h
    split at h
    · rename_i hupper
      have hval : c.val + 32 = 42 := congrArg Char.val h
      have hlow : 65 ≤ c.val.toNat := UInt32.le_iff_toNat_le.mp hupper.1
      have hhigh : c.val.toNat ≤ 90 := UInt32.le_iff_toNat_le.mp hupper.2
      have hsum : (c.val.toNat + 32) % 2 ^ 32 = 42 := congrArg UInt32.toNat hval
      omega
    · exact h
  · rintro rfl
    rfl

/-- Lower case of ASCII letters. -/
def Lowering.ascii : Lowering where
  lower s := s.map Char.toLower
  asterisk s := by
    simp only [List.mem_map, toLower_eq_star, exists_eq_right]

/-- A star meets a star; and a bare name counts for the default provider on one side only. -/
theorem allowlists_part : globMatch "*" "*a" ≠ Policy.globMatch "*" "*a" ∧
    allows .ascii ["openai"] "gpt-4o" ≠ Policy.allows ["openai"] "gpt-4o" := by
  decide

end Python

end JamJet.Policy
