import JamJet.CronNext
import Mathlib.Data.Finset.Basic

/-! Delegated OAuth: the scopes a node's token may ask for, the token exchange, and what the agent
makes of the authorization server's reply. -/

namespace JamJet

namespace OAuth

open Cron (splitWhitespace)
open Condition (isWhiteSpace)

/-! ### Time -/

def nanosPerSecond : ℤ := 1000000000

def nanosPerDay : ℤ := 86400 * nanosPerSecond

/-- The first and the last nanosecond that a `DateTime<Utc>` can hold. -/
def earliestNanos : ℤ :=
  (Gregorian.Date.mk (-262143) 1 1 (by decide) (by decide) (by decide)).toDay * nanosPerDay

theorem lastDay_le : 31 ≤ (Gregorian.monthLengths 262142).getD (12 - 1) 0 := by decide

def latestNanos : ℤ :=
  ((Gregorian.Date.mk 262142 12 31 (Nat.succ_pos 11) (Nat.succ_pos 30) lastDay_le).toDay + 1) *
    nanosPerDay - 1

theorem earliestNanos_eq : earliestNanos = -8334601228800000000000 := by decide

theorem latestNanos_eq : latestNanos = 8210266876799999999999 := by decide

/-- `DateTime<Utc>`, in nanoseconds since the epoch. -/
structure UtcTime where
  nanos : ℤ
  earliest_le : earliestNanos ≤ nanos
  le_latest : nanos ≤ latestNanos

/-- `Duration::seconds`; nothing when it panics, as milliseconds would not fit into an `i64`. -/
def durationSeconds (secs : ℤ) : Option ℤ :=
  if -9223372036854775 ≤ secs ∧ secs ≤ 9223372036854775 then some (secs * nanosPerSecond) else none

/-- `+` of a time and a duration; nothing when it panics. -/
def UtcTime.add (time : UtcTime) (duration : ℤ) : Option UtcTime :=
  if h : earliestNanos ≤ time.nanos + duration ∧ time.nanos + duration ≤ latestNanos then
    some ⟨time.nanos + duration, h.1, h.2⟩
  else none

/-! ### Scopes -/

structure OAuthConfig where
  tokenEndpoint : String
  grantType : String := "urn:ietf:params:oauth:grant-type:token-exchange"
  clientId : String
  clientSecret : String
  requestedScopes : List String := []
  audience : Option String := none

structure NodeOAuthScopes where
  requiredScopes : List String := []
  audience : Option String := none

inductive OAuthError
  | networkError (message : String)
  | tokenExchangeFailed (status : ℕ) (body : String)
  | parseError (message : String)
  | scopeNarrowingFailed (requested available : List String)

def narrowScopes (requested userScopes : List String) : Except OAuthError (List String) :=
  let narrowed := requested.filter (· ∈ userScopes)
  if narrowed.isEmpty && !requested.isEmpty then
    .error (.scopeNarrowingFailed requested userScopes)
  else .ok narrowed

def requested (agentConfig : OAuthConfig) : Option NodeOAuthScopes → List String
  | some node =>
    if node.requiredScopes.isEmpty then agentConfig.requestedScopes else node.requiredScopes
  | none => agentConfig.requestedScopes

def resolveNodeScopes (agentConfig : OAuthConfig) (nodeScopes : Option NodeOAuthScopes)
    (userScopes : List String) : Except OAuthError (List String) :=
  narrowScopes (requested agentConfig nodeScopes) userScopes

/-! ### Token exchange -/

structure TokenExchangeResponse where
  accessToken : String
  tokenType : String
  expiresIn : Option UInt64
  scope : Option String

structure AgentToken where
  accessToken : String
  tokenType : String
  expiresAt : Option UtcTime
  scopes : Finset String
  agentId : String
  userId : Option String
  audience : Option String
  exchangedAt : UtcTime
  revoked : Bool

def AgentToken.isValid (token : AgentToken) (now : UtcTime) : Bool :=
  !token.revoked && !token.expiresAt.any fun expiresAt => decide (expiresAt.nanos ≤ now.nanos)

structure TokenRequest where
  url : String
  form : List (String × String)
  query : List (String × String)

/-- What comes back for a request: nothing, a status that is no success, a body that is no token
response, or a token response. -/
inductive Reply
  | unreachable (message : String)
  | refused (status : ℕ) (body : String)
  | unreadable (message : String)
  | granted (response : TokenExchangeResponse)

def accessTokenType : String := "urn:ietf:params:oauth:token-type:access_token"

def joinScopes (scopes : List String) : String := " ".intercalate scopes

def splitScopes (scope : String) : List String :=
  (splitWhitespace scope.toList).map String.ofList

def tokenRequest (config : OAuthConfig) (subjectToken : String) (effectiveScopes : List String) :
    TokenRequest where
  url := config.tokenEndpoint
  form := [("grant_type", config.grantType), ("subject_token", subjectToken),
    ("subject_token_type", accessTokenType), ("requested_token_type", accessTokenType),
    ("scope", joinScopes effectiveScopes), ("client_id", config.clientId),
    ("client_secret", config.clientSecret)]
  query := config.audience.toList.map fun audience => ("audience", audience)

/-- `expires_in` seconds from now; nothing when the computation panics. -/
def expiry (now : UtcTime) : Option UInt64 → Option (Option UtcTime)
  | none => some none
  | some secs => do
    let duration ← durationSeconds secs.toInt64.toInt
    let expiresAt ← now.add duration
    return some expiresAt

/-- The token that is made of a reply. -/
def tokenOf (config : OAuthConfig) (effectiveScopes : List String) (agentId : String)
    (response : TokenExchangeResponse) (exchangedAt : UtcTime) (expiresAt : Option UtcTime) :
    AgentToken where
  accessToken := response.accessToken
  tokenType := response.tokenType
  expiresAt := expiresAt
  scopes := (splitScopes (response.scope.getD (joinScopes effectiveScopes))).toFinset
  agentId := agentId
  userId := none
  audience := config.audience
  exchangedAt := exchangedAt
  revoked := false

/-- The exchange, with the clock as it is read when the reply is there and when the token is made;
nothing when it panics. -/
def exchangeToken (send : TokenRequest → Reply) (now exchangedAt : UtcTime) (config : OAuthConfig)
    (subjectToken : String) (effectiveScopes : List String) (agentId : String) :
    Option (Except OAuthError AgentToken) :=
  match send (tokenRequest config subjectToken effectiveScopes) with
  | .unreachable message => some (.error (.networkError message))
  | .refused status body => some (.error (.tokenExchangeFailed status body))
  | .unreadable message => some (.error (.parseError message))
  | .granted response => do
    let expiresAt ← expiry now response.expiresIn
    return .ok (tokenOf config effectiveScopes agentId response exchangedAt expiresAt)

/-! ### What a token may do -/

/-- The scopes of the token are the user's, and it is not valid past the expiry that was announced
at a time. -/
structure Delegated (userScopes : List String) (announcedAt : UtcTime) (expiresIn : Option UInt64)
    (token : AgentToken) : Prop where
  narrowed : ∀ scope ∈ token.scopes, scope ∈ userScopes
  expires : ∀ secs, expiresIn = some secs → ∀ time : UtcTime,
    announcedAt.nanos + secs.toNat * nanosPerSecond ≤ time.nanos → token.isValid time = false

variable {userScopes : List String} {announcedAt now : UtcTime} {secs : UInt64}

theorem splitWhitespace_append {sep : Char} (hsep : isWhiteSpace sep = true) (s t : List Char) :
    splitWhitespace (s ++ sep :: t) = splitWhitespace s ++ splitWhitespace t := by
  simp [splitWhitespace, List.splitOnP_append_cons s t hsep]

theorem splitScopes_joinScopes (scopes : List String) :
    splitScopes (joinScopes scopes) = scopes.flatMap splitScopes := by
  induction scopes with
  | nil => rfl
  | cons scope scopes ih =>
    cases scopes with
    | nil => simp [joinScopes]
    | cons next rest =>
      have hjoin : (joinScopes (scope :: next :: rest)).toList =
          scope.toList ++ ' ' :: (joinScopes (next :: rest)).toList := by
        simp [joinScopes, String.intercalate_cons_cons]
      rw [splitScopes, hjoin, splitWhitespace_append (by decide), List.map_append,
        List.flatMap_cons, ← ih]
      rfl

theorem mem_of_resolveNodeScopes {agentConfig : OAuthConfig} {nodeScopes : Option NodeOAuthScopes}
    {scopes : List String} (h : resolveNodeScopes agentConfig nodeScopes userScopes = .ok scopes)
    (scope : String) :
    scope ∈ scopes ↔ scope ∈ requested agentConfig nodeScopes ∧ scope ∈ userScopes := by
  unfold resolveNodeScopes narrowScopes at h
  dsimp only at h
  split at h
  · cases h
  · cases h
    simp

theorem toInt_toInt64 (secs : UInt64) : secs.toInt64.toInt =
    if secs.toNat < 2 ^ 63 then (secs.toNat : ℤ) else secs.toNat - 2 ^ 64 := by
  have hcond := BitVec.toInt_eq_toNat_cond secs.toBitVec
  rw [UInt64.toNat_toBitVec] at hcond
  change secs.toBitVec.toInt = _
  rw [hcond]
  have hiff : 2 * secs.toNat < 2 ^ 64 ↔ secs.toNat < 2 ^ 63 := by omega
  by_cases h : secs.toNat < 2 ^ 63
  · rw [if_pos (hiff.mpr h), if_pos h]
  · rw [if_neg (mt hiff.mp h), if_neg h]
    norm_num

/-- The time so many seconds later is one that chrono can hold. -/
def Holds (now : UtcTime) (secs : UInt64) : Prop :=
  earliestNanos ≤ now.nanos + secs.toInt64.toInt * nanosPerSecond ∧
    now.nanos + secs.toInt64.toInt * nanosPerSecond ≤ latestNanos

theorem expiry_of_holds (h : Holds now secs) : expiry now (some secs) =
    some (some ⟨now.nanos + secs.toInt64.toInt * nanosPerSecond, h.1, h.2⟩) := by
  have hlow := now.earliest_le
  have hhigh := now.le_latest
  have hbounds := h
  rw [Holds, earliestNanos_eq, latestNanos_eq, nanosPerSecond] at hbounds
  rw [earliestNanos_eq] at hlow
  rw [latestNanos_eq] at hhigh
  have hduration : durationSeconds secs.toInt64.toInt =
      some (secs.toInt64.toInt * nanosPerSecond) := by
    rw [durationSeconds, if_pos (by omega)]
  have hadd : now.add (secs.toInt64.toInt * nanosPerSecond) =
      some ⟨now.nanos + secs.toInt64.toInt * nanosPerSecond, h.1, h.2⟩ := dif_pos h
  simp [expiry, hduration, hadd]

theorem holds_of_expiry {expiresAt : Option UtcTime} (h : expiry now (some secs) = some expiresAt) :
    Holds now secs := by
  by_contra hnot
  have hadd : now.add (secs.toInt64.toInt * nanosPerSecond) = none := dif_neg hnot
  simp only [expiry, durationSeconds] at h
  split at h <;> simp [hadd] at h

/-- A token that expires at a time is not valid from the announced expiry on just if that is not
earlier. -/
theorem expires_iff (token : AgentToken) (hrevoked : token.revoked = false) {expiresAt : UtcTime}
    (hexpires : token.expiresAt = some expiresAt) {announced : ℤ}
    (hearliest : earliestNanos ≤ announced) :
    (∀ time : UtcTime, announced ≤ time.nanos → token.isValid time = false) ↔
      expiresAt.nanos ≤ announced := by
  have hvalid (time : UtcTime) : token.isValid time = false ↔ expiresAt.nanos ≤ time.nanos := by
    simp [AgentToken.isValid, hrevoked, hexpires]
  constructor
  · intro h
    by_contra hlater
    -- valid at the announced expiry itself
    have hle : announced ≤ latestNanos := by
      have := expiresAt.le_latest
      omega
    exact hlater ((hvalid _).mp (h ⟨announced, hearliest, hle⟩ le_rfl))
  · intro h time htime
    exact (hvalid time).mpr (h.trans htime)

theorem earliest_le_announced (announcedAt : UtcTime) (secs : UInt64) :
    earliestNanos ≤ announcedAt.nanos + secs.toNat * nanosPerSecond := by
  have hlow := announcedAt.earliest_le
  unfold nanosPerSecond
  omega

/-- The agent counts from when it has the reply, the server from when it announced: that is later,
unless no time has passed or the seconds are so many that they wrap to a negative number. -/
theorem added_le_iff (hclock : announcedAt.nanos ≤ now.nanos) :
    now.nanos + secs.toInt64.toInt * nanosPerSecond ≤
        announcedAt.nanos + secs.toNat * nanosPerSecond ↔
      (secs.toNat < 2 ^ 63 → announcedAt.nanos = now.nanos) := by
  rw [toInt_toInt64, nanosPerSecond]
  have hlow := announcedAt.earliest_le
  have hhigh := now.le_latest
  rw [earliestNanos_eq] at hlow
  rw [latestNanos_eq] at hhigh
  split <;> omega

/-- The token made for a node of a user: it is within the user's scopes and the announced expiry,
and no computation panics, just if the words of what the server granted (where it does not say, of
what was asked for) are the user's scopes, and the seconds until the expiry, as an `i64`, lead from
now to a time that chrono can hold, one not later than the server's. -/
theorem agent_token_delegated_iff (send : TokenRequest → Reply) (agentConfig : OAuthConfig)
    (nodeScopes : Option NodeOAuthScopes) (userScopes : List String) (subjectToken agentId : String)
    {announcedAt now exchangedAt : UtcTime} {scopes : List String}
    {response : TokenExchangeResponse}
    (hscopes : resolveNodeScopes agentConfig nodeScopes userScopes = .ok scopes)
    (hsend : send (tokenRequest agentConfig subjectToken scopes) = .granted response)
    (hclock : announcedAt.nanos ≤ now.nanos) :
    (∃ token, exchangeToken send now exchangedAt agentConfig subjectToken scopes agentId =
        some (.ok token) ∧ Delegated userScopes announcedAt response.expiresIn token) ↔
      (match response.scope with
        | some granted => ∀ word ∈ splitScopes granted, word ∈ userScopes
        | none => ∀ scope ∈ requested agentConfig nodeScopes, scope ∈ userScopes →
            ∀ word ∈ splitScopes scope, word ∈ userScopes) ∧
      ∀ secs, response.expiresIn = some secs →
        Holds now secs ∧ (secs.toNat < 2 ^ 63 → announcedAt.nanos = now.nanos) := by
  have hgranted : (∀ word ∈ splitScopes (response.scope.getD (joinScopes scopes)),
        word ∈ userScopes) ↔
      (match response.scope with
        | some granted => ∀ word ∈ splitScopes granted, word ∈ userScopes
        | none => ∀ scope ∈ requested agentConfig nodeScopes, scope ∈ userScopes →
            ∀ word ∈ splitScopes scope, word ∈ userScopes) := by
    cases response.scope with
    | some granted => rfl
    | none =>
      simp only [Option.getD_none, splitScopes_joinScopes, List.mem_flatMap]
      constructor
      · intro h scope hscope huser word hword
        exact h word ⟨scope, (mem_of_resolveNodeScopes hscopes scope).mpr ⟨hscope, huser⟩, hword⟩
      · rintro h word ⟨scope, hscope, hword⟩
        obtain ⟨hrequested, huser⟩ := (mem_of_resolveNodeScopes hscopes scope).mp hscope
        exact h scope hrequested huser word hword
  have hexchange : (∃ token, exchangeToken send now exchangedAt agentConfig subjectToken scopes
        agentId = some (.ok token) ∧ Delegated userScopes announcedAt response.expiresIn token) ↔
      ∃ expiresAt, expiry now response.expiresIn = some expiresAt ∧
        Delegated userScopes announcedAt response.expiresIn
          (tokenOf agentConfig scopes agentId response exchangedAt expiresAt) := by
    simp [exchangeToken, hsend, Option.bind_eq_some_iff]
  rw [hexchange, ← hgranted]
  constructor
  · rintro ⟨expiresAt, hexpiry, hdelegated⟩
    refine ⟨fun word hword => hdelegated.narrowed word (List.mem_toFinset.mpr hword), ?_⟩
    intro secs hsecs
    rw [hsecs] at hexpiry
    have hholds := holds_of_expiry hexpiry
    rw [expiry_of_holds hholds] at hexpiry
    cases hexpiry
    refine ⟨hholds, (added_le_iff hclock).mp ?_⟩
    exact (expires_iff _ rfl rfl (earliest_le_announced _ _)).mp (hdelegated.expires secs hsecs)
  · rintro ⟨hwords, hsecs⟩
    have hnarrowed (expiresAt : Option UtcTime) : ∀ scope ∈ (tokenOf agentConfig scopes agentId
        response exchangedAt expiresAt).scopes, scope ∈ userScopes :=
      fun word hword => hwords word (List.mem_toFinset.mp hword)
    cases hexpires : response.expiresIn with
    | none => exact ⟨none, rfl, hnarrowed none, fun secs hnone => by cases hnone⟩
    | some secs =>
      obtain ⟨hholds, hsame⟩ := hsecs secs hexpires
      refine ⟨_, expiry_of_holds hholds, hnarrowed _, ?_⟩
      intro secs' heq
      cases heq
      exact (expires_iff _ rfl rfl (earliest_le_announced _ _)).mpr ((added_le_iff hclock).mpr hsame)

def readerConfig : OAuthConfig where
  tokenEndpoint := "https://auth.example/token"
  clientId := "agent"
  clientSecret := "secret"
  requestedScopes := ["read", "admin"]

def epochTime : UtcTime := ⟨0, by decide, by decide⟩

/-- A server that grants scopes for a time, whatever it is asked for. -/
def grants (scope : Option String) (expiresIn : Option UInt64) (_ : TokenRequest) : Reply :=
  .granted ⟨"token", "Bearer", expiresIn, scope⟩

theorem agent_token_delegated_hour : ∃ token,
    exchangeToken (grants none (some 3600)) epochTime epochTime readerConfig "user" ["read"] "a" =
      some (.ok token) ∧ Delegated ["read"] epochTime (some 3600) token :=
  (agent_token_delegated_iff (grants none (some 3600)) readerConfig none ["read"] "user" "a"
    (by rfl) (by rfl) (le_refl epochTime.nanos)).mpr
    ⟨by decide, fun secs hsecs => by cases hsecs; exact ⟨by unfold Holds; decide, fun _ => rfl⟩⟩

/-- The server grants a scope that the user has not, and the token has it; and it announces an
expiry so far off that the agent panics. -/
theorem granted_scope_unchecked :
    resolveNodeScopes readerConfig none ["read"] = .ok ["read"] ∧
    (∃ token, exchangeToken (grants (some "read admin") none) epochTime epochTime readerConfig "user"
      ["read"] "a" = some (.ok token) ∧ "admin" ∈ token.scopes) ∧
    exchangeToken (grants none (some 4611686018427387904)) epochTime epochTime readerConfig "user"
      ["read"] "a" = none := by
  refine ⟨by rfl, ⟨_, rfl, by decide⟩, by rfl⟩

end OAuth

end JamJet
