import Mathlib.Algebra.Order.Ring.Nat
import Mathlib.Tactic.Common

/-! The delays between the attempts of a node, in the machine arithmetic of the policy. -/

namespace JamJet.Backoff

/-! ### Durations, in nanoseconds -/

def fromSecs (secs : UInt64) : ℕ := secs.toNat * 10 ^ 9

/-- `Duration::MAX` -/
def durationMax : ℕ := 2 ^ 64 * 10 ^ 9 - 1

def checkedMul (d : ℕ) (k : UInt32) : Option ℕ :=
  if d * k.toNat ≤ durationMax then some (d * k.toNat) else none

def saturatingMul (d : ℕ) (k : UInt32) : ℕ := (checkedMul d k).getD durationMax

/-- `u64::saturating_pow` -/
def saturatingPow (base exp : ℕ) : ℕ := min (base ^ exp) (2 ^ 64 - 1)

/-! ### Policies -/

inductive BackoffStrategy
  | fixed
  | linear
  | exponential
  deriving DecidableEq

inductive ErrorClass
  | ioError
  | timeout
  | rateLimit
  | serverError
  | connectionReset
  | custom (name : String)

structure RetryPolicy where
  maxAttempts : UInt32
  backoff : BackoffStrategy
  initialDelay : ℕ
  maxDelay : ℕ
  jitter : Bool
  retryableOn : List ErrorClass

/-- A policy as it is written: the delays are whole seconds. -/
structure WrittenPolicy where
  maxAttempts : UInt32
  backoff : BackoffStrategy
  initialDelay : UInt64
  maxDelay : UInt64
  jitter : Bool
  retryableOn : List ErrorClass

def WrittenPolicy.deserialize (w : WrittenPolicy) : RetryPolicy where
  maxAttempts := w.maxAttempts
  backoff := w.backoff
  initialDelay := fromSecs w.initialDelay
  maxDelay := fromSecs w.maxDelay
  jitter := w.jitter
  retryableOn := w.retryableOn

/-- `none` is a panic: the multiplication operator of durations does not saturate. -/
def delayForAttempt (policy : RetryPolicy) (attempt : UInt32) : Option ℕ :=
  if attempt = 0 then some 0
  else
    let base := match policy.backoff with
      | .fixed => some policy.initialDelay
      | .linear => checkedMul policy.initialDelay attempt
      | .exponential =>
        let factor := saturatingPow 2 (attempt.toNat - 1)
        -- `factor as u32` keeps the low half
        some (saturatingMul policy.initialDelay (UInt32.ofNat factor))
    base.map fun base =>
      let capped := min base policy.maxDelay
      if policy.jitter then capped else capped

/-! ### The law -/

def factorAt : BackoffStrategy → ℕ → ℕ
  | .fixed, _ => 1
  | .linear, n => n
  | .exponential, n => 2 ^ (n - 1)

def law (policy : RetryPolicy) (n : ℕ) : ℕ :=
  min policy.maxDelay (policy.initialDelay * factorAt policy.backoff n)

/-- Where the arithmetic is exact, or the cap hides that it is not. -/
def Fits (w : WrittenPolicy) (n : ℕ) : Prop :=
  match w.backoff with
  | .fixed => True
  | .linear => w.initialDelay.toNat * n < 2 ^ 64
  | .exponential => n ≤ 32 ∨ w.initialDelay = 0 ∨
      w.maxDelay.toNat ≤ if n ≤ 64 then 0 else w.initialDelay.toNat * (2 ^ 32 - 1)

variable {w : WrittenPolicy} {policy : RetryPolicy} {m n : ℕ}

theorem factorAt_mono (strategy : BackoffStrategy) (h : m ≤ n) :
    factorAt strategy m ≤ factorAt strategy n := by
  cases strategy with
  | fixed => exact Nat.le_refl 1
  | linear => exact h
  | exponential => exact Nat.pow_le_pow_right (by decide) (by omega)

theorem law_mono (policy : RetryPolicy) (h : m ≤ n) : law policy m ≤ law policy n :=
  min_le_min_left _ (Nat.mul_le_mul_left _ (factorAt_mono _ h))

theorem law_eq_max (h : m ≤ n) (hm : law policy m = policy.maxDelay) :
    law policy n = policy.maxDelay :=
  le_antisymm (min_le_left _ _) (hm ▸ law_mono policy h)

theorem checkedMul_fromSecs (secs : UInt64) (k : UInt32) : checkedMul (fromSecs secs) k =
    if secs.toNat * k.toNat < 2 ^ 64 then some (fromSecs secs * k.toNat) else none := by
  have hiff : fromSecs secs * k.toNat ≤ durationMax ↔ secs.toNat * k.toNat < 2 ^ 64 := by
    rw [fromSecs, durationMax, Nat.mul_right_comm]
    omega
  rw [checkedMul, if_congr hiff rfl rfl]

theorem min_saturatingMul (secs max : UInt64) (k : UInt32) :
    min (saturatingMul (fromSecs secs) k) (fromSecs max) =
      min (fromSecs max) (fromSecs secs * k.toNat) := by
  have hmax : max.toNat < 2 ^ 64 := max.toNat_lt
  rw [saturatingMul, checkedMul_fromSecs, min_comm]
  split_ifs with h
  · rfl
  · rw [Option.getD_none, fromSecs, fromSecs, durationMax, Nat.mul_right_comm,
      min_eq_left (by omega), min_eq_left (by omega)]

theorem toNat_factor (n : ℕ) :
    (UInt32.ofNat (saturatingPow 2 (n - 1))).toNat =
      if n ≤ 32 then 2 ^ (n - 1) else if n ≤ 64 then 0 else 2 ^ 32 - 1 := by
  rw [UInt32.toNat_ofNat', saturatingPow]
  split_ifs with h32 h64
  · have hlt : 2 ^ (n - 1) < 2 ^ 32 := Nat.pow_lt_pow_right (by decide) (by omega)
    rw [min_eq_left (by omega), Nat.mod_eq_of_lt hlt]
  · have hlt : 2 ^ (n - 1) < 2 ^ 64 := Nat.pow_lt_pow_right (by decide) (by omega)
    rw [min_eq_left (by omega), show n - 1 = 32 + (n - 33) by omega, Nat.pow_add,
      Nat.mul_mod_right]
  · have hle : 2 ^ 64 ≤ 2 ^ (n - 1) := Nat.pow_le_pow_right (by decide) (by omega)
    rw [min_eq_right (by omega)]
    rfl

theorem min_fromSecs_eq_iff {secs max : UInt64} {k k' : ℕ} (h : k < k') :
    min (fromSecs max) (fromSecs secs * k) = min (fromSecs max) (fromSecs secs * k') ↔
      secs.toNat = 0 ∨ max.toNat ≤ secs.toNat * k := by
  rcases Nat.eq_zero_or_pos secs.toNat with hzero | hpos
  · simp [fromSecs, hzero]
  · have hlt : secs.toNat * k < secs.toNat * k' := Nat.mul_lt_mul_of_pos_left h hpos
    rw [fromSecs, fromSecs, Nat.mul_right_comm secs.toNat _ k, Nat.mul_right_comm secs.toNat _ k']
    omega

/-- The law, and what follows from it for the later attempts. -/
theorem delay_eq_law_iff (w : WrittenPolicy) (attempt : UInt32) (h : attempt ≠ 0) :
    (delayForAttempt w.deserialize attempt = some (law w.deserialize attempt.toNat) ↔
      Fits w attempt.toNat) ∧
      ∀ n, attempt.toNat ≤ n → law w.deserialize attempt.toNat ≤ law w.deserialize n ∧
        (law w.deserialize attempt.toNat = w.deserialize.maxDelay →
          law w.deserialize n = w.deserialize.maxDelay) := by
  refine ⟨?_, fun n hn => ⟨law_mono _ hn, law_eq_max hn⟩⟩
  have hattempt : attempt.toNat ≠ 0 := fun hzero => h (UInt32.toNat_inj.mp hzero)
  rw [delayForAttempt, if_neg h, Fits, law]
  cases hb : w.backoff with
  | fixed =>
    have hpolicy : w.deserialize.backoff = .fixed := hb
    simp only [hpolicy, factorAt, ite_self, Nat.mul_one, Option.map_some, min_comm]
  | linear =>
    have hpolicy : w.deserialize.backoff = .linear := hb
    have hinitial : w.deserialize.initialDelay = fromSecs w.initialDelay := rfl
    simp only [hpolicy, hinitial, factorAt, ite_self, checkedMul_fromSecs]
    split_ifs with hfits
    · exact iff_of_true (by rw [Option.map_some, min_comm]) hfits
    · exact iff_of_false (by simp) hfits
  | exponential =>
    have hpolicy : w.deserialize.backoff = .exponential := hb
    have hinitial : w.deserialize.initialDelay = fromSecs w.initialDelay := rfl
    have hmax : w.deserialize.maxDelay = fromSecs w.maxDelay := rfl
    simp only [hpolicy, hinitial, hmax, factorAt, ite_self, Option.map_some, Option.some.injEq,
      min_saturatingMul, toNat_factor]
    have hzero : w.initialDelay = 0 ↔ w.initialDelay.toNat = 0 := UInt64.toNat_inj.symm
    rw [hzero]
    by_cases h32 : attempt.toNat ≤ 32
    · rw [if_pos h32]
      exact iff_of_true rfl (.inl h32)
    by_cases h64 : attempt.toNat ≤ 64
    · rw [if_neg h32, if_pos h64, if_pos h64]
      have hlt : 0 < 2 ^ (attempt.toNat - 1) := Nat.two_pow_pos _
      rw [min_fromSecs_eq_iff hlt, Nat.mul_zero]
      exact (or_iff_right h32).symm
    · rw [if_neg h32, if_neg h64, if_neg h64]
      have hlt : 2 ^ 32 - 1 < 2 ^ (attempt.toNat - 1) :=
        Nat.lt_of_lt_of_le (by decide) (Nat.pow_le_pow_right (by decide) (show 32 ≤ _ by omega))
      rw [min_fromSecs_eq_iff hlt]
      exact (or_iff_right h32).symm

def seconds (backoff : BackoffStrategy) (initialDelay maxDelay : UInt64) : WrittenPolicy :=
  ⟨64, backoff, initialDelay, maxDelay, false, []⟩

theorem delay_eq_law_sixth :
    (delayForAttempt (seconds .exponential 1 30).deserialize 6 =
        some (law (seconds .exponential 1 30).deserialize 6) ↔ Fits (seconds .exponential 1 30) 6) ∧
      ∀ n, 6 ≤ n → law (seconds .exponential 1 30).deserialize 6 ≤
        law (seconds .exponential 1 30).deserialize n ∧
          (law (seconds .exponential 1 30).deserialize 6 =
            (seconds .exponential 1 30).deserialize.maxDelay →
              law (seconds .exponential 1 30).deserialize n =
                (seconds .exponential 1 30).deserialize.maxDelay) :=
  delay_eq_law_iff _ 6 (by decide)

/-- The thirty-third attempt comes without any delay. -/
theorem delay_vanishes : ¬ ∀ (w : WrittenPolicy) (attempt : UInt32), attempt ≠ 0 →
    delayForAttempt w.deserialize attempt = some (law w.deserialize attempt.toNat) := by
  intro h
  have hdelay := h (seconds .exponential 1 30) 33 (by decide)
  revert hdelay
  decide +kernel

end JamJet.Backoff
