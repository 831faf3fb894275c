import JamJet.AuditEntry

/-! How much of an audit entry its hash determines. -/

namespace JamJet

/-- The separator as a character of a text. -/
def sepChar : Char := Char.ofNat 0x1f

theorem count_utf8EncodeChar (c : Char) :
    (String.utf8EncodeChar c).count AuditLogEntry.fieldSep = if c = sepChar then 1 else 0 := by
  have hsep : c = sepChar ↔ c.val.toNat = 31 :=
    ⟨fun h => by rw [h]; rfl, fun h => Char.ext (UInt32.toNat_inj.mp h)⟩
  have hbyte : ∀ n, n < 256 → n ≠ 31 → UInt8.ofNat n ≠ AuditLogEntry.fieldSep := by
    intro n hn hne heq
    have htoNat := congrArg UInt8.toNat heq
    rw [UInt8.toNat_ofNat_of_lt' hn] at htoNat
    exact hne htoNat
  rw [if_congr hsep rfl rfl]
  unfold String.utf8EncodeChar
  dsimp only
  split
  · rename_i hle
    by_cases h31 : c.val.toNat = 31
    · simp [h31, AuditLogEntry.fieldSep]
    · rw [if_neg h31, List.count_eq_zero]
      simpa using (hbyte _ (by omega) h31).symm
  -- the bytes of the longer codes are 128 and above
  split
  · rw [if_neg (by omega), List.count_eq_zero]
    have hfirst := hbyte (c.val.toNat / 64 % 32 + 192) (by omega) (by omega)
    have hlast := hbyte (c.val.toNat % 64 + 128) (by omega) (by omega)
    simp only [List.mem_cons, List.not_mem_nil, or_false, not_or]
    exact ⟨hfirst.symm, hlast.symm⟩
  split
  · rw [if_neg (by omega), List.count_eq_zero]
    have hfirst := hbyte (c.val.toNat / 4096 % 16 + 224) (by omega) (by omega)
    have hmiddle := hbyte (c.val.toNat / 64 % 64 + 128) (by omega) (by omega)
    have hlast := hbyte (c.val.toNat % 64 + 128) (by omega) (by omega)
    simp only [List.mem_cons, List.not_mem_nil, or_false, not_or]
    exact ⟨hfirst.symm, hmiddle.symm, hlast.symm⟩
  · rw [if_neg (by omega), List.count_eq_zero]
    have hfirst := hbyte (c.val.toNat / 262144 % 8 + 240) (by omega) (by omega)
    have hsecond := hbyte (c.val.toNat / 4096 % 64 + 128) (by omega) (by omega)
    have hthird := hbyte (c.val.toNat / 64 % 64 + 128) (by omega) (by omega)
    have hlast := hbyte (c.val.toNat % 64 + 128) (by omega) (by omega)
    simp only [List.mem_cons, List.not_mem_nil, or_false, not_or]
    exact ⟨hfirst.symm, hsecond.symm, hthird.symm, hlast.symm⟩

theorem count_utf8 (s : String) :
    (utf8 s).count AuditLogEntry.fieldSep = s.toList.count sepChar := by
  rw [utf8]
  induction s.toList with
  | nil => rfl
  | cons c rest ih =>
    rw [List.flatMap_cons, List.count_append, ih, count_utf8EncodeChar, List.count_cons,
      Nat.add_comm]
    simp

theorem count_utf8_eq_zero {s : String} (h : ∀ c ∈ s.toList, c ≠ sepChar) :
    (utf8 s).count AuditLogEntry.fieldSep = 0 := by
  rw [count_utf8, List.count_eq_zero]
  exact fun hmem => h _ hmem rfl

namespace AuditLogEntry

/-- The entry without what its seal adds. -/
def content (e : AuditLogEntry) : AuditLogEntry :=
  { e with
    prevHash := none
    entryHash := none
    signature := none }

/-- The fields whose text is not of a fixed form. -/
def freeTexts (e : AuditLogEntry) (prevHash : Option String) : List String :=
  [e.executionId, e.eventType, e.actorId, e.toolCallHash.getD "", e.policyDecision.getD "",
    e.httpRequestId.getD "", e.httpMethod.getD "", e.httpPath.getD "", e.ipAddress.getD "",
    e.tenantId, prevHash.getD ""]

/-- The fields whose absence is written as the empty text. -/
def optionals (e : AuditLogEntry) (prevHash : Option String) : List (Option String) :=
  [e.toolCallHash, e.policyDecision, e.httpRequestId, e.httpMethod, e.httpPath, e.ipAddress,
    prevHash]

/-- One text is absent and the other empty. -/
def Blurred (s t : Option String) : Prop := (s = none ∧ t = some "") ∨ (s = some "" ∧ t = none)

/-- Field by field the two hold the separator equally often, and no text is absent in one of them
and empty in the other. -/
structure Aligned (e₁ e₂ : AuditLogEntry) (p₁ p₂ : Option String) : Prop where
  separators : List.Forall₂ (fun s t : String => s.toList.count sepChar = t.toList.count sepChar)
    (e₁.freeTexts p₁) (e₂.freeTexts p₂)
  present : List.Forall₂ (fun s t => ¬ Blurred s t) (e₁.optionals p₁) (e₂.optionals p₂)

theorem eq_of_not_blurred {s t : Option String} (h : ¬ Blurred s t)
    (htext : utf8 (s.getD "") = utf8 (t.getD "")) : s = t := by
  have hget : s.getD "" = t.getD "" := utf8_inj htext
  cases s with
  | none =>
    cases t with
    | none => rfl
    | some b =>
      have hb : b = "" := hget.symm
      exact absurd (.inl ⟨rfl, congrArg some hb⟩) h
  | some a =>
    cases t with
    | none =>
      have ha : a = "" := hget
      exact absurd (.inr ⟨congrArg some ha, rfl⟩) h
    | some b => exact congrArg some hget

theorem not_blurred_self (s : Option String) : ¬ Blurred s s := by
  rintro (⟨hnone, hsome⟩ | ⟨hsome, hnone⟩)
  · cases hnone.symm.trans hsome
  · cases hnone.symm.trans hsome

theorem aligned_of_content {e₁ e₂ : AuditLogEntry} {p : Option String}
    (h : e₁.content = e₂.content) : e₁.Aligned e₂ p p := by
  have hfree : e₁.content.freeTexts p = e₂.content.freeTexts p := by rw [h]
  have hoptional : e₁.content.optionals p = e₂.content.optionals p := by rw [h]
  change e₁.freeTexts p = e₂.freeTexts p at hfree
  change e₁.optionals p = e₂.optionals p at hoptional
  exact ⟨hfree ▸ List.forall₂_same.mpr fun _ _ => rfl,
    hoptional ▸ List.forall₂_same.mpr fun s _ => not_blurred_self s⟩

theorem count_actorType (a : ActorType) : (utf8 a.asStr).count fieldSep = 0 := by
  cases a <;> decide

theorem matched_of_count {a b : List UInt8} (ha : a.count fieldSep = 0)
    (hb : b.count fieldSep = 0) : Delimited.Matched fieldSep a b := .inr (ha.trans hb.symm)

theorem count_rawEvent [FloatText] (e : AuditLogEntry) :
    (utf8 (Hashing.canonicalJson e.rawEvent)).count fieldSep = 0 := by
  refine count_utf8_eq_zero fun c hc hsep => ?_
  subst hsep
  rw [Hashing.canonicalJson, String.toList_ofList] at hc
  exact absurd (Hashing.printed_writeCanonical e.rawEvent e.rawEvent_held sepChar hc) (by decide)

variable [Rfc3339]

theorem count_time (t : Instant) : (utf8 (Rfc3339.text t)).count fieldSep = 0 := by
  refine count_utf8_eq_zero fun c hc hsep => ?_
  subst hsep
  exact absurd (Rfc3339.text_chars t sepChar hc) (by decide)

theorem count_expiry (t : Option Instant) :
    (utf8 ((t.map Rfc3339.text).getD "")).count fieldSep = 0 := by
  cases t with
  | none => rfl
  | some t => exact count_time t

theorem expiry_inj {s t : Option Instant}
    (h : utf8 ((s.map Rfc3339.text).getD "") = utf8 ((t.map Rfc3339.text).getD "")) : s = t := by
  have htext := utf8_inj h
  cases s with
  | none =>
    cases t with
    | none => rfl
    | some b => exact absurd htext.symm (Rfc3339.text_ne b)
  | some a =>
    cases t with
    | none => exact absurd htext (Rfc3339.text_ne a)
    | some b => exact congrArg some (Rfc3339.text_inj htext)

variable [FloatText]

theorem Aligned.matched {e₁ e₂ : AuditLogEntry} {p₁ p₂ : Option String} (h : e₁.Aligned e₂ p₁ p₂) :
    List.Forall₂ (Delimited.Matched fieldSep) (e₁.fields p₁) (e₂.fields p₂) := by
  have htexts := h.separators
  simp only [freeTexts, List.forall₂_cons, List.forall₂_nil_left_iff, and_true] at htexts
  simp only [← count_utf8] at htexts
  obtain ⟨hexecution, heventType, hactor, htool, hpolicy, hrequest, hmethod, hpath, hip, htenant,
    hprev⟩ := htexts
  simp only [fields, List.forall₂_cons, List.forall₂_nil_left_iff, and_true]
  exact ⟨.inl (by simp), .inl (by simp), .inr hexecution, .inl (by simp [leBytes_length]),
    .inr heventType, .inr hactor, matched_of_count (count_actorType _) (count_actorType _),
    .inr htool, .inr hpolicy, .inr hrequest, .inr hmethod, .inr hpath, .inr hip,
    matched_of_count (count_time _) (count_time _),
    matched_of_count (count_rawEvent _) (count_rawEvent _), .inr htenant,
    matched_of_count (count_expiry _) (count_expiry _), .inl rfl, .inr hprev⟩

theorem content_of_fields {e₁ e₂ : AuditLogEntry} {p₁ p₂ : Option String}
    (hpresent : List.Forall₂ (fun s t => ¬ Blurred s t) (e₁.optionals p₁) (e₂.optionals p₂))
    (h : e₁.fields p₁ = e₂.fields p₂) : p₁ = p₂ ∧ e₁.content = e₂.content := by
  simp only [optionals, List.forall₂_cons, List.forall₂_nil_left_iff, and_true] at hpresent
  obtain ⟨htool, hpolicy, hrequest, hmethod, hpath, hip, hprev⟩ := hpresent
  simp only [fields, List.cons.injEq, and_true] at h
  obtain ⟨fid, fevent, fexecution, fsequence, feventType, factor, factorType, ftool, fpolicy,
    frequest, fmethod, fpath, fip, fcreated, fraw, ftenant, fexpires, fredacted, fprev⟩ := h
  refine ⟨eq_of_not_blurred hprev fprev, ?_⟩
  have hid : e₁.id = e₂.id := Vector.toList_inj.mp fid
  have hevent : e₁.eventId = e₂.eventId := Vector.toList_inj.mp fevent
  have hraw : e₁.rawEvent = e₂.rawEvent :=
    Hashing.canonicalJson_inj e₁.rawEvent_held e₂.rawEvent_held (utf8_inj fraw)
  have hcreated : e₁.createdAt = e₂.createdAt := Rfc3339.text_inj (utf8_inj fcreated)
  have hactorType : e₁.actorType = e₂.actorType := ActorType.asStr_inj (utf8_inj factorType)
  have hredacted : e₁.redacted = e₂.redacted := by
    revert fredacted
    cases e₁.redacted <;> cases e₂.redacted <;> decide
  simp only [content, AuditLogEntry.mk.injEq]
  exact ⟨hid, hevent, utf8_inj fexecution, leBytes_inj fsequence, utf8_inj feventType,
    utf8_inj factor, hactorType, eq_of_not_blurred htool ftool, eq_of_not_blurred hpolicy fpolicy,
    eq_of_not_blurred hrequest frequest, eq_of_not_blurred hmethod fmethod,
    eq_of_not_blurred hpath fpath, eq_of_not_blurred hip fip, hcreated, hraw, utf8_inj ftenant,
    expiry_inj fexpires, hredacted, trivial, trivial, trivial⟩

theorem hashed_absent (e : AuditLogEntry) (p : Option String) :
    { e with httpRequestId := none }.hashed p = { e with httpRequestId := some "" }.hashed p := rfl

theorem hashed_move (e : AuditLogEntry) (p : Option String) (a b c : String) :
    { e with
      policyDecision := some a
      httpRequestId := some (b ++ String.singleton sepChar ++ c) }.hashed p =
    { e with
      policyDecision := some (a ++ String.singleton sepChar ++ b)
      httpRequestId := some c }.hashed p := by
  have hpush : ∀ s : String, utf8 (s.push sepChar) = utf8 s ++ [fieldSep] := by
    intro s
    rw [utf8, String.toList_push, List.flatMap_append]
    rfl
  simp [hashed, fields, Delimited.closed_cons, utf8_append, hpush]

variable [Signatures]

theorem hashed_of_contentHash (hsha : Function.Injective Signatures.sha256) {e₁ e₂ : AuditLogEntry}
    {p₁ p₂ : Option String} (h : e₁.contentHash p₁ = e₂.contentHash p₂) :
    e₁.hashed p₁ = e₂.hashed p₂ := hsha (Hex.encode_inj h)

theorem content_of_contentHash (hsha : Function.Injective Signatures.sha256)
    {e₁ e₂ : AuditLogEntry} {p₁ p₂ : Option String} (hal : e₁.Aligned e₂ p₁ p₂)
    (h : e₁.contentHash p₁ = e₂.contentHash p₂) : p₁ = p₂ ∧ e₁.content = e₂.content :=
  content_of_fields hal.present (Delimited.closed_inj hal.matched (hashed_of_contentHash hsha h))

end AuditLogEntry

section Coverage

variable [FloatText] [Rfc3339] [Signatures]

/-- Two entries under two predecessors are told apart by their hashes exactly when they are aligned
or the texts that are hashed differ.  An edit of a stored entry that leaves it aligned and keeps
its hash and signature does not pass. -/
theorem content_hash_covers_iff (hsha : Function.Injective Signatures.sha256)
    (e₁ e₂ : AuditLogEntry) (p₁ p₂ : Option String) :
    ((e₁.contentHash p₁ = e₂.contentHash p₂ → p₁ = p₂ ∧ e₁.content = e₂.content) ↔
      (e₁.hashed p₁ = e₂.hashed p₂ → e₁.Aligned e₂ p₁ p₂)) ∧
    ((e₁.hashed e₁.prevHash = e₂.hashed e₂.prevHash → e₁.Aligned e₂ e₁.prevHash e₂.prevHash) →
      ∀ signer, verifyEntry e₁ signer = .ok () →
        e₂.entryHash = e₁.entryHash → e₂.signature = e₁.signature →
        ∀ entries, e₂ ∈ entries → verifyChain entries signer = .ok () → e₂ = e₁) := by
  constructor
  · constructor
    · intro hcovers htext
      have hhash : e₁.contentHash p₁ = e₂.contentHash p₂ := by
        rw [AuditLogEntry.contentHash, AuditLogEntry.contentHash, htext]
      obtain ⟨rfl, hcontent⟩ := hcovers hhash
      exact AuditLogEntry.aligned_of_content hcontent
    · intro haligned hhash
      exact AuditLogEntry.content_of_contentHash hsha
        (haligned (AuditLogEntry.hashed_of_contentHash hsha hhash)) hhash
  · intro haligned signer hstored hsame hsignature entries hmem haccepted
    have hfirst := (verifyEntry_ok_iff.mp hstored).hash
    have hsecond := ((verifyChain_ok_iff.mp haccepted).2 e₂ hmem).hash
    have hhash : e₁.contentHash e₁.prevHash = e₂.contentHash e₂.prevHash :=
      Option.some.inj (hfirst.symm.trans (hsame.symm.trans hsecond))
    obtain ⟨hprev, hcontent⟩ := AuditLogEntry.content_of_contentHash hsha
      (haligned (AuditLogEntry.hashed_of_contentHash hsha hhash)) hhash
    have hrebuild : ∀ e : AuditLogEntry, e = { e.content with
        prevHash := e.prevHash
        entryHash := e.entryHash
        signature := e.signature } := fun e => rfl
    rw [hrebuild e₂, hrebuild e₁, hcontent, hprev, hsame, hsignature]

end Coverage

/-! One entry, with a hash function that keeps its input and an HMAC key. -/

@[reducible]
def plainSignatures : Signatures where
  sha256 bytes := bytes
  hmacSha256 key message := key ++ message
  publicKey seed := seed
  sign _ _ := List.replicate 64 0
  verifyStrict _ _ signature := signature == List.replicate 64 0
  sign_length _ _ := rfl
  verify_sign _ _ := rfl

/-- The first nanoseconds of the epoch. -/
@[reducible]
def firstNanos : Rfc3339 where
  text t := String.ofList
    ("1970-01-01T00:00:00.00000000".toList ++ (Nat.toDigits 10 t ++ "+00:00".toList))
  parse s :=
    match (List.range 10).find? fun t => String.ofList
      ("1970-01-01T00:00:00.00000000".toList ++ (Nat.toDigits 10 t ++ "+00:00".toList)) = s with
    | some t => .ok t
    | none => .error "input contains invalid characters"
  text_inj a b h := by
    have hdigits := List.append_cancel_left (String.ofList_injective h)
    exact Hashing.toDigits_inj (List.append_cancel_right hdigits)
  text_ne t h := by
    have hchars := congrArg String.toList h
    simp at hchars
  text_chars t c hc := by
    rw [String.toList_ofList, List.mem_append, List.mem_append] at hc
    rcases hc with hc | hc | hc
    · exact (by decide : ∀ c ∈ "1970-01-01T00:00:00.00000000".toList,
        c.isDigit = true ∨ c ∈ ['-', '+', ':', '.', 'T']) c hc
    · exact .inl (Hashing.isDigit_toDigits hc)
    · exact (by decide : ∀ c ∈ "+00:00".toList,
        c.isDigit = true ∨ c ∈ ['-', '+', ':', '.', 'T']) c hc

def nthUuid (n : UInt8) : Uuid := Vector.replicate 16 n

/-- The record of a completed step. -/
def stepRecord (n : UInt8) (createdAt : Instant) : AuditLogEntry where
  id := nthUuid n
  eventId := nthUuid n
  executionId := "exec-1"
  sequence := 1
  eventType := "node_completed"
  actorId := "worker"
  actorType := .system
  createdAt := createdAt
  rawEvent := .null
  rawEvent_held := trivial

def hmacSigner : AuditSigner := ⟨.hmac [1]⟩

def sealedRecord : AuditLogEntry :=
  @AuditLogEntry.sealed bitsText firstNanos plainSignatures (stepRecord 1 1) none hmacSigner

def editedRecord : AuditLogEntry := { sealedRecord with actorId := "intruder" }

theorem worker_edit_detected :
    @AuditLogEntry.contentHash bitsText firstNanos plainSignatures sealedRecord none ≠
        @AuditLogEntry.contentHash bitsText firstNanos plainSignatures editedRecord none ∧
      @verifyChain bitsText firstNanos plainSignatures [editedRecord] hmacSigner ≠ .ok () := by
  have hdiffer : editedRecord.actorId ≠ sealedRecord.actorId := by decide
  have haligned : sealedRecord.Aligned editedRecord none none :=
    ⟨by decide, List.forall₂_same.mpr fun s _ => AuditLogEntry.not_blurred_self s⟩
  have hsound : @AuditLogEntry.Sound bitsText firstNanos plainSignatures hmacSigner sealedRecord :=
    @AuditLogEntry.sealed_sound bitsText firstNanos plainSignatures hmacSigner rfl (stepRecord 1 1)
      none
  have hcovers := @content_hash_covers_iff bitsText firstNanos plainSignatures (fun _ _ h => h)
    sealedRecord editedRecord none none
  constructor
  · intro hhash
    have hcontent := (hcovers.1.mpr (fun _ => haligned) hhash).2
    exact hdiffer (congrArg AuditLogEntry.actorId hcontent).symm
  · intro haccepted
    have hstored := (@verifyEntry_ok_iff bitsText firstNanos plainSignatures _ _).mpr hsound
    have hsame := hcovers.2 (fun _ => haligned) hmacSigner hstored rfl rfl [editedRecord]
      (List.mem_singleton_self _) haccepted
    exact hdiffer (congrArg AuditLogEntry.actorId hsame)

/-- An absent header and an empty one have one hash, so the edit of a sealed entry from one to the
other passes; and so have two entries between which a separator moves from one field to the
next. -/
theorem hash_blurs_fields :
    let edited := { sealedRecord with httpRequestId := some "" }
    let before := { stepRecord 1 1 with policyDecision := some "a", httpRequestId := some "b\x1fc" }
    let after := { stepRecord 1 1 with policyDecision := some "a\x1fb", httpRequestId := some "c" }
    (@AuditLogEntry.contentHash bitsText firstNanos plainSignatures sealedRecord none =
        @AuditLogEntry.contentHash bitsText firstNanos plainSignatures edited none ∧
      sealedRecord.content ≠ edited.content ∧
      edited.entryHash = sealedRecord.entryHash ∧ edited.signature = sealedRecord.signature ∧
      @verifyChain bitsText firstNanos plainSignatures [edited] hmacSigner = .ok ()) ∧
    (@AuditLogEntry.contentHash bitsText firstNanos plainSignatures before none =
        @AuditLogEntry.contentHash bitsText firstNanos plainSignatures after none ∧
      before.content ≠ after.content) := by
  intro edited before after
  have habsent : @AuditLogEntry.hashed bitsText firstNanos sealedRecord none =
      @AuditLogEntry.hashed bitsText firstNanos edited none :=
    @AuditLogEntry.hashed_absent firstNanos bitsText sealedRecord none
  have hmove : @AuditLogEntry.hashed bitsText firstNanos before none =
      @AuditLogEntry.hashed bitsText firstNanos after none :=
    @AuditLogEntry.hashed_move firstNanos bitsText (stepRecord 1 1) none "a" "b" "c"
  have hsound : @AuditLogEntry.Sound bitsText firstNanos plainSignatures hmacSigner edited := by
    obtain ⟨hhash, signature, hsignature, hverify⟩ :=
      @AuditLogEntry.sealed_sound bitsText firstNanos plainSignatures hmacSigner rfl
        (stepRecord 1 1) none
    exact @AuditLogEntry.Sound.mk bitsText firstNanos plainSignatures hmacSigner edited hhash
      ⟨signature, hsignature, hverify⟩
  refine ⟨⟨congrArg Hex.encode habsent, fun h => ?_, rfl, rfl, ?_⟩, congrArg Hex.encode hmove,
    fun h => ?_⟩
  · exact absurd (congrArg AuditLogEntry.httpRequestId h) (by decide)
  · refine (@verifyChain_ok_iff bitsText firstNanos plainSignatures _ _).mpr
      ⟨⟨rfl, trivial⟩, fun e he => ?_⟩
    rw [List.mem_singleton.mp he]
    exact hsound
  · exact absurd (congrArg AuditLogEntry.httpRequestId h) (by decide)

end JamJet
