import JamJet.DateTimeText
import JamJet.NodeGuard
import Mathlib.Order.Bounds.Basic

/-! The deadline of an approval request: the tightest of the policy chain, written into the
request's context as text and read back. -/

namespace JamJet

open Approvals Policy

namespace Policy

/-- What a chain of policies resolves to. -/
structure DeadlineResolution where
  deadline : Option ApprovalDeadline
  /-- An escalation that would not come before the timeout. -/
  droppedEscalationSecs : Option ℕ
  deriving DecidableEq, Repr

namespace ApprovalDeadline

variable {sets : List PolicySetIr}

/-- The escalation, if it comes before the timeout, else as one that was dropped. -/
def reconcile (timeoutSecs : ℕ) : Option ℕ → Option ℕ × Option ℕ
  | some e => if e < timeoutSecs then (some e, none) else (none, some e)
  | none => (none, none)

/-- The shortest timeout and the shortest escalation of any level. -/
def shortest (sets : List PolicySetIr) : DeadlineResolution :=
  match (sets.filterMap (·.approvalTimeoutSecs)).min? with
  | none => ⟨none, none⟩
  | some timeoutSecs =>
      let escalation := reconcile timeoutSecs (sets.filterMap (·.escalateAfterSecs)).min?
      ⟨some ⟨timeoutSecs, escalation.1⟩, escalation.2⟩

/-- What the chain resolves to, with the escalation that was dropped. -/
def resolution (sets : List PolicySetIr) : Except String DeadlineResolution := do
  for set in sets do
    set.validateApprovalDeadline
  return shortest sets

theorem reconcile_fst (timeoutSecs : ℕ) (escalation : Option ℕ) :
    (reconcile timeoutSecs escalation).1 = escalation.filter (· < timeoutSecs) := by
  cases escalation with
  | none => rfl
  | some e =>
    by_cases h : e < timeoutSecs
    · simp [reconcile, h, Option.filter_some]
    · simp [reconcile, h, Option.filter_some]

theorem resolution_valid (h : ∀ s ∈ sets, s.validateApprovalDeadline = .ok ()) :
    resolution sets = .ok (shortest sets) := by
  have hloop : (forIn sets PUnit.unit fun set (_ : PUnit) => do
      set.validateApprovalDeadline
      pure (ForInStep.yield PUnit.unit) : Except String PUnit) = .ok PUnit.unit := by
    induction sets with
    | nil => rfl
    | cons s sets ih =>
      have hs := h s (by simp)
      rw [List.forIn_cons, hs]
      exact ih fun s' hs' => h s' (by simp [hs'])
  unfold resolution
  rw [hloop]
  rfl

theorem min?_eq_some_iff_isLeast {ns : List ℕ} {n : ℕ} :
    ns.min? = some n ↔ IsLeast {m | m ∈ ns} n := by
  rw [List.min?_eq_some_iff]
  rfl

theorem min?_perm {ns ns' : List ℕ} (h : ns.Perm ns') : ns.min? = ns'.min? := by
  apply Option.ext
  intro n
  rw [min?_eq_some_iff_isLeast, min?_eq_some_iff_isLeast]
  simp only [h.mem_iff]

theorem shortest_perm {sets' : List PolicySetIr} (h : sets'.Perm sets) :
    shortest sets' = shortest sets := by
  unfold shortest
  rw [min?_perm (h.filterMap _), min?_perm (h.filterMap _)]

theorem mem_timeouts {t : ℕ} : t ∈ sets.filterMap (·.approvalTimeoutSecs) ↔
    ∃ s ∈ sets, s.approvalTimeoutSecs = some t := by
  simp

theorem shortest_timeout {d : ApprovalDeadline} (h : (shortest sets).deadline = some d) :
    IsLeast {t | ∃ s ∈ sets, s.approvalTimeoutSecs = some t} d.timeoutSecs := by
  unfold shortest at h
  cases hmin : (sets.filterMap (·.approvalTimeoutSecs)).min? with
  | none => simp [hmin] at h
  | some t =>
    rw [hmin] at h
    cases h
    simpa only [mem_timeouts] using min?_eq_some_iff_isLeast.mp hmin

theorem shortest_eq_none :
    (shortest sets).deadline = none ↔ ∀ s ∈ sets, s.approvalTimeoutSecs = none := by
  have hnone : (shortest sets).deadline = none ↔
      (sets.filterMap (·.approvalTimeoutSecs)).min? = none := by
    unfold shortest
    cases (sets.filterMap (·.approvalTimeoutSecs)).min? <;> simp
  rw [hnone, List.min?_eq_none_iff, List.filterMap_eq_nil_iff]

theorem shortest_cons {d : ApprovalDeadline} (h : (shortest sets).deadline = some d)
    (s : PolicySetIr) :
    ∃ d', (shortest (s :: sets)).deadline = some d' ∧ d'.timeoutSecs ≤ d.timeoutSecs := by
  obtain ⟨s₀, hs₀, ht₀⟩ := (shortest_timeout h).1
  cases hcons : (shortest (s :: sets)).deadline with
  | none =>
    have hnone := shortest_eq_none.mp hcons s₀ (by simp [hs₀])
    rw [hnone] at ht₀
    cases ht₀
  | some d' => exact ⟨d', rfl, (shortest_timeout hcons).2 ⟨s₀, by simp [hs₀], ht₀⟩⟩

theorem shortest_escalation {d : ApprovalDeadline} {e : ℕ}
    (h : (shortest sets).deadline = some d) (he : d.escalateAfterSecs = some e) :
    e < d.timeoutSecs := by
  unfold shortest at h
  cases hmin : (sets.filterMap (·.approvalTimeoutSecs)).min? with
  | none => simp [hmin] at h
  | some t =>
    rw [hmin] at h
    cases h
    rw [reconcile_fst] at he
    simpa using (Option.filter_eq_some_iff.mp he).2

end ApprovalDeadline
end Policy

/-- A request's deadline as its context records it. -/
structure RequestDeadline where
  expiresAt : DeadlineTime
  escalateAt : DeadlineTime

namespace RequestDeadline

def of [Chrono] (context : Json) : RequestDeadline :=
  ⟨DeadlineTime.read context expiresAtKey, DeadlineTime.read context escalateAtKey⟩

def expired (d : RequestDeadline) (now : Instant) : Bool := d.expiresAt.passed now

end RequestDeadline

/-- What the calendar library does with the times of the years 0 to 9999, counted in nanoseconds from
any time before them: it adds seconds, and reads the milliseconds it has written. -/
structure FourDigitYears [Chrono] (env : GuardEnv) (yearZero yearTenThousand : Instant) : Prop where
  add : ∀ t secs, t + secs * 1000000000 < yearTenThousand →
    env.checkedAddSecs t secs = some (t + secs * 1000000000)
  read : ∀ t, yearZero ≤ t → t < yearTenThousand → t % 1000000 = 0 →
    Chrono.parseFromRfc3339 (Chrono.toRfc3339Millis t) = some t

/-- Times in nanoseconds from `origin`, which is given in milliseconds from the epoch. -/
@[reducible]
def rfc3339 (origin : ℤ) : Chrono where
  toRfc3339Millis t := String.ofList (Gregorian.writeMillis (origin + (t / 1000000 : ℕ)))
  parseFromRfc3339 s := do
    let ms ← Gregorian.readMillis s.toList
    if origin ≤ ms then some ((ms - origin).toNat * 1000000) else none

theorem rfc3339_read (origin : ℤ) {t : ℕ}
    (hzero : (Gregorian.yearZero - origin).toNat * 1000000 ≤ t)
    (hlt : t < (Gregorian.yearTenThousand - origin).toNat * 1000000) (hmillis : t % 1000000 = 0) :
    (rfc3339 origin).parseFromRfc3339 ((rfc3339 origin).toRfc3339Millis t) = some t := by
  have hms : Gregorian.readMillis (Gregorian.writeMillis (origin + (t / 1000000 : ℕ))) =
      some (origin + (t / 1000000 : ℕ)) :=
    Gregorian.readMillis_writeMillis (by omega) (by omega)
  have hback : (origin + ((t / 1000000 : ℕ) : ℤ) - origin).toNat * 1000000 = t := by omega
  simp only [Chrono.parseFromRfc3339, Chrono.toRfc3339Millis, String.toList_ofList, hms,
    Option.bind_eq_bind, Option.bind_some]
  rw [if_pos (by omega), hback]

theorem rfc3339_fourDigitYears (origin : ℤ) {env : GuardEnv}
    (h : ∀ t secs, env.checkedAddSecs t secs = some (t + secs * 1000000000)) :
    @FourDigitYears (rfc3339 origin) env ((Gregorian.yearZero - origin).toNat * 1000000)
      ((Gregorian.yearTenThousand - origin).toNat * 1000000) := by
  let _ : Chrono := rfc3339 origin
  constructor
  · intro t secs _
    exact h t secs
  · intro t hzero hlt hmillis
    exact rfc3339_read origin hzero hlt hmillis

section Resolve

variable {sets : List PolicySetIr}

/-- The chain resolves to its tightest deadline, whatever the order of its levels, and one more
level does not loosen it. -/
structure Tightest (sets : List PolicySetIr) (resolved : DeadlineResolution) : Prop where
  permuted : ∀ sets' : List PolicySetIr, sets'.Perm sets →
    ApprovalDeadline.resolution sets' = .ok resolved
  least : ∀ d, resolved.deadline = some d →
    IsLeast {t | ∃ s ∈ sets, s.approvalTimeoutSecs = some t} d.timeoutSecs
  unset : resolved.deadline = none ↔ ∀ s ∈ sets, s.approvalTimeoutSecs = none
  added : ∀ d, resolved.deadline = some d → ∀ s : PolicySetIr, s.validateApprovalDeadline = .ok () →
    ∃ resolved' d', ApprovalDeadline.resolution (s :: sets) = .ok resolved' ∧
      resolved'.deadline = some d' ∧ d'.timeoutSecs ≤ d.timeoutSecs
  escalation : ∀ d, resolved.deadline = some d → ∀ e, d.escalateAfterSecs = some e →
    e < d.timeoutSecs

theorem tightest_shortest (h : ∀ s ∈ sets, s.validateApprovalDeadline = .ok ()) :
    Tightest sets (ApprovalDeadline.shortest sets) := by
  constructor
  · intro sets' hperm
    have hvalid : ∀ s ∈ sets', s.validateApprovalDeadline = .ok () := fun s hs =>
      h s (hperm.mem_iff.mp hs)
    rw [ApprovalDeadline.resolution_valid hvalid, ApprovalDeadline.shortest_perm hperm]
  · intro d hd
    exact ApprovalDeadline.shortest_timeout hd
  · exact ApprovalDeadline.shortest_eq_none
  · intro d hd s hs
    have hvalid : ∀ s' ∈ s :: sets, s'.validateApprovalDeadline = .ok () := by
      intro s' hs'
      cases hs' with
      | head => exact hs
      | tail _ hs' => exact h s' hs'
    obtain ⟨d', hd', hle⟩ := ApprovalDeadline.shortest_cons hd s
    exact ⟨_, d', ApprovalDeadline.resolution_valid hvalid, hd', hle⟩
  · intro d hd e he
    exact ApprovalDeadline.shortest_escalation hd he

end Resolve

section Stamp

theorem milli_add {t : ℕ} (h : t % 1000000 = 0) (secs : ℕ) :
    (t + secs * 1000000000) % 1000000 = 0 := by
  omega

variable [Chrono] {env : GuardEnv} {yearZero yearTenThousand : Instant}

/-- Stamped at this time, the times of the deadline that fall in the years from 0 on are read back
from the context to the instant. -/
structure ReadsBack (yearZero : Instant) (d : ApprovalDeadline) (now : Instant)
    (stamped : JsonMap) : Prop where
  expiresAt : yearZero ≤ now + d.timeoutSecs * 1000000000 →
    (RequestDeadline.of (.object stamped)).expiresAt = .at (now + d.timeoutSecs * 1000000000)
  escalateAt : ∀ e, d.escalateAfterSecs = some e → yearZero ≤ now + e * 1000000000 →
    (RequestDeadline.of (.object stamped)).escalateAt = .at (now + e * 1000000000)
  expired : yearZero ≤ now + d.timeoutSecs * 1000000000 → ∀ t,
    (RequestDeadline.of (.object stamped)).expired t = true ↔
      now + d.timeoutSecs * 1000000000 ≤ t

theorem read_insert (context : JsonMap) (key : String) (t : Instant)
    (h : Chrono.parseFromRfc3339 (Chrono.toRfc3339Millis t) = some t) :
    DeadlineTime.read
      (.object (BTree.insert context key (.string (Chrono.toRfc3339Millis t)))) key = .at t := by
  unfold DeadlineTime.read
  simp [Json.get, BTree.get_insert, Json.asStr, h]

theorem read_insert_ne (context : JsonMap) {key key' : String} (h : key ≠ key') (v : Json) :
    DeadlineTime.read (.object (BTree.insert context key v)) key' =
      DeadlineTime.read (.object context) key' := by
  unfold DeadlineTime.read
  simp [Json.get, BTree.get_insert, h]

theorem stampDeadline_expiresAt (context : JsonMap) {d : ApprovalDeadline} {now : Instant}
    (h : env.checkedAddSecs now d.timeoutSecs = some (now + d.timeoutSecs * 1000000000))
    (hescalate : ∀ e, d.escalateAfterSecs = some e →
      env.checkedAddSecs now e = some (now + e * 1000000000)) :
    Guard.stampDeadline env context d now = .ok
      (let expiring := BTree.insert context expiresAtKey
        (.string (Chrono.toRfc3339Millis (now + d.timeoutSecs * 1000000000)))
      match d.escalateAfterSecs with
      | some e => BTree.insert expiring escalateAtKey
          (.string (Chrono.toRfc3339Millis (now + e * 1000000000)))
      | none => expiring) := by
  unfold Guard.stampDeadline
  cases he : d.escalateAfterSecs with
  | none => simp [h, Bind.bind, Except.bind, pure, Except.pure]
  | some e => simp [h, hescalate e he, Bind.bind, Except.bind, pure, Except.pure]

theorem stampDeadline_readsBack (hyears : FourDigitYears env yearZero yearTenThousand)
    (context : JsonMap) {d : ApprovalDeadline} {now : Instant} (hmillis : now % 1000000 = 0)
    (hlt : now + d.timeoutSecs * 1000000000 < yearTenThousand)
    (hescalate : ∀ e, d.escalateAfterSecs = some e → e < d.timeoutSecs) :
    ∃ stamped, Guard.stampDeadline env context d now = .ok stamped ∧
      ReadsBack yearZero d now stamped := by
  have hadded : ∀ secs ≤ d.timeoutSecs, now + secs * 1000000000 < yearTenThousand ∧
      (now + secs * 1000000000) % 1000000 = 0 := by
    intro secs hsecs
    have hle : secs * 1000000000 ≤ d.timeoutSecs * 1000000000 := Nat.mul_le_mul_right _ hsecs
    exact ⟨Nat.lt_of_le_of_lt (Nat.add_le_add_left hle now) hlt, milli_add hmillis secs⟩
  have hread : ∀ secs ≤ d.timeoutSecs, yearZero ≤ now + secs * 1000000000 →
      Chrono.parseFromRfc3339 (Chrono.toRfc3339Millis (now + secs * 1000000000)) =
        some (now + secs * 1000000000) := by
    intro secs hsecs hzero
    exact hyears.read _ hzero (hadded secs hsecs).1 (hadded secs hsecs).2
  have hstamp := stampDeadline_expiresAt context (hyears.add now d.timeoutSecs hlt)
    (fun e he => hyears.add now e (hadded e (Nat.le_of_lt (hescalate e he))).1)
  refine ⟨_, hstamp, ?_⟩
  have hexpires : yearZero ≤ now + d.timeoutSecs * 1000000000 → ∀ stamped,
      Guard.stampDeadline env context d now = .ok stamped →
      DeadlineTime.read (.object stamped) expiresAtKey =
        .at (now + d.timeoutSecs * 1000000000) := by
    intro hzero stamped h
    rw [hstamp] at h
    cases h
    have hback := read_insert context expiresAtKey _ (hread _ (Nat.le_refl _) hzero)
    cases d.escalateAfterSecs with
    | none => exact hback
    | some e =>
      rw [read_insert_ne _ (by decide : escalateAtKey ≠ expiresAtKey)]
      exact hback
  constructor
  · intro hzero
    exact hexpires hzero _ hstamp
  · intro e he hzero
    have hback := read_insert
      (BTree.insert context expiresAtKey
        (.string (Chrono.toRfc3339Millis (now + d.timeoutSecs * 1000000000))))
      escalateAtKey _ (hread e (Nat.le_of_lt (hescalate e he)) hzero)
    simpa only [RequestDeadline.of, he] using hback
  · intro hzero t
    have h := hexpires hzero _ hstamp
    simp only [RequestDeadline.expired, RequestDeadline.of, h, DeadlineTime.passed,
      decide_eq_true_eq]

/-- Deadlines only tighten along a chain of valid policies, and one whose time is of the years 0 to
9999 is read back from the request to the instant. -/
theorem approval_deadlines_only_tighten (hyears : FourDigitYears env yearZero yearTenThousand)
    {sets : List PolicySetIr} (hvalid : ∀ s ∈ sets, s.validateApprovalDeadline = .ok ())
    {now : Instant} (hmillis : now % 1000000 = 0) :
    ∃ resolved, ApprovalDeadline.resolution sets = .ok resolved ∧ Tightest sets resolved ∧
      ∀ d, resolved.deadline = some d → now + d.timeoutSecs * 1000000000 < yearTenThousand →
        ∀ context : JsonMap, ∃ stamped, Guard.stampDeadline env context d now = .ok stamped ∧
          ReadsBack yearZero d now stamped := by
  have htightest := tightest_shortest hvalid
  refine ⟨_, ApprovalDeadline.resolution_valid hvalid, htightest, ?_⟩
  intro d hd hlt context
  exact stampDeadline_readsBack hyears context hmillis hlt (htightest.escalation d hd)

end Stamp

/-- A tenant that asks for an hour and a node that asks for a minute, with escalations. -/
def twoLevels : List PolicySetIr :=
  [{ approvalTimeoutSecs := some 3600, escalateAfterSecs := some 30 },
    { approvalTimeoutSecs := some 60, escalateAfterSecs := some 45 }]

def addingEnv : GuardEnv where
  sha256Hex text := text
  simple e := toString e
  checkedAddSecs t secs := some (t + secs * 1000000000)

/-- On the second day of 1970, with times counted from its beginning. -/
theorem approval_deadlines_only_tighten_two_levels :
    let _ : Chrono := rfc3339 0
    ∃ stamped, Guard.stampDeadline addingEnv [] ⟨60, some 30⟩ 86400000000000 = .ok stamped ∧
      ReadsBack 0 ⟨60, some 30⟩ 86400000000000 stamped := by
  intro _
  have hadd : ∀ t secs, addingEnv.checkedAddSecs t secs = some (t + secs * 1000000000) :=
    fun _ _ => rfl
  have hvalid : ∀ s ∈ twoLevels, s.validateApprovalDeadline = .ok () := by decide
  have hmillis : (86400000000000 : Instant) % 1000000 = 0 := by decide
  obtain ⟨resolved, hresolved, -, hback⟩ :=
    approval_deadlines_only_tighten (rfc3339_fourDigitYears 0 hadd) hvalid hmillis
  have hlevels : ApprovalDeadline.resolution twoLevels = .ok ⟨some ⟨60, some 30⟩, none⟩ := rfl
  rw [hlevels] at hresolved
  cases hresolved
  exact hback ⟨60, some 30⟩ rfl (by decide) []

/-- The last second of the year 9999. -/
def lastSecond : Instant := 253402300799000000000

/-- A deadline of the year 10000 cannot be read back, and the request expires at once. -/
theorem deadline_after_9999_unreadable :
    let _ : Chrono := rfc3339 0
    ApprovalDeadline.resolution [{ approvalTimeoutSecs := some 1 }] = .ok ⟨some ⟨1, none⟩, none⟩ ∧
      lastSecond % 1000000 = 0 ∧
      ∃ stamped, Guard.stampDeadline addingEnv [] ⟨1, none⟩ lastSecond = .ok stamped ∧
        (RequestDeadline.of (.object stamped)).expiresAt = .unreadable ∧
        (RequestDeadline.of (.object stamped)).expired lastSecond = true := by
  intro _
  exact ⟨rfl, by decide, _, rfl, by decide +kernel, by decide +kernel⟩

end JamJet
