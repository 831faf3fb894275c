import JamJet.AuditSigner
import JamJet.Delimited
import JamJet.Event
import JamJet.HashChain

/-! Entries of the audit log: what their hash covers, how they are sealed into a chain, and how a
chain is verified. -/

namespace JamJet

/-- How `chrono` writes a UTC time to its last digit, and reads one or says why not. -/
class Rfc3339 where
  text : Instant → String
  parse : String → Except String Instant
  text_inj : Function.Injective text
  text_ne : ∀ t, text t ≠ ""
  text_chars : ∀ t, ∀ c ∈ (text t).toList, c.isDigit = true ∨ c ∈ ['-', '+', ':', '.', 'T']

abbrev Uuid := Vector UInt8 16

inductive ActorType
  | human
  | agent
  | system
  deriving DecidableEq, Repr

def ActorType.asStr : ActorType → String
  | .human => "human"
  | .agent => "agent"
  | .system => "system"

theorem ActorType.asStr_inj {a b : ActorType} (h : a.asStr = b.asStr) : a = b := by
  cases a <;> cases b <;> first | rfl | exact absurd h (by decide)

structure AuditLogEntry where
  id : Uuid
  eventId : Uuid
  executionId : String
  sequence : Int64
  eventType : String
  actorId : String
  actorType : ActorType
  toolCallHash : Option String := none
  policyDecision : Option String := none
  httpRequestId : Option String := none
  httpMethod : Option String := none
  httpPath : Option String := none
  ipAddress : Option String := none
  createdAt : Instant
  rawEvent : Json
  rawEvent_held : rawEvent.Held
  tenantId : String := "default"
  expiresAt : Option Instant := none
  redacted : Bool := false
  prevHash : Option String := none
  entryHash : Option String := none
  signature : Option String := none

/-- The bytes of an integer, the least significant first. -/
def leBytes (n : Int64) : List UInt8 :=
  (List.range 8).map fun i => ⟨n.toBitVec.extractLsb' (8 * i) 8⟩

theorem leBytes_length (n : Int64) : (leBytes n).length = 8 := by simp [leBytes]

theorem leBytes_inj {n m : Int64} (h : leBytes n = leBytes m) : n = m := by
  have hbyte : ∀ i < 8, n.toBitVec.extractLsb' (8 * i) 8 = m.toBitVec.extractLsb' (8 * i) 8 := by
    intro i hi
    have hi' := List.map_inj_left.mp h i (List.mem_range.mpr hi)
    exact congrArg UInt8.toBitVec hi'
  refine Int64.toBitVec_inj.mp (BitVec.eq_of_getLsbD_eq fun j hj => ?_)
  have hbit := congrArg (fun b => b.getLsbD (j % 8)) (hbyte (j / 8) (by omega))
  have hj' : 8 * (j / 8) + j % 8 = j := by omega
  have hlt : j % 8 < 8 := by omega
  simpa [BitVec.getLsbD_extractLsb', hj', hlt] using hbit

namespace AuditLogEntry

variable [FloatText] [Rfc3339]

def fieldSep : UInt8 := 0x1f

/-- The fields that are hashed, as bytes; an absent one is the empty text. -/
def fields (e : AuditLogEntry) (prevHash : Option String) : List (List UInt8) :=
  [e.id.toList,
    e.eventId.toList,
    utf8 e.executionId,
    leBytes e.sequence,
    utf8 e.eventType,
    utf8 e.actorId,
    utf8 e.actorType.asStr,
    utf8 (e.toolCallHash.getD ""),
    utf8 (e.policyDecision.getD ""),
    utf8 (e.httpRequestId.getD ""),
    utf8 (e.httpMethod.getD ""),
    utf8 (e.httpPath.getD ""),
    utf8 (e.ipAddress.getD ""),
    utf8 (Rfc3339.text e.createdAt),
    utf8 (Hashing.canonicalJson e.rawEvent),
    utf8 e.tenantId,
    utf8 ((e.expiresAt.map Rfc3339.text).getD ""),
    [e.redacted.toUInt8],
    utf8 (prevHash.getD "")]

/-- What is hashed: every field with the separator after it. -/
def hashed (e : AuditLogEntry) (prevHash : Option String) : List UInt8 :=
  Delimited.closed fieldSep (e.fields prevHash)

variable [Signatures]

def contentHash (e : AuditLogEntry) (prevHash : Option String) : String :=
  Hex.encode (Signatures.sha256 (e.hashed prevHash))

/-- Links the entry to its predecessor and signs it. -/
def sealed (e : AuditLogEntry) (prevHash : Option String) (signer : AuditSigner) : AuditLogEntry :=
  let hash := e.contentHash prevHash
  { e with
    prevHash := prevHash
    entryHash := some hash
    signature := signer.sign hash }

end AuditLogEntry

/-- Why a chain failed verification, and at which position. -/
inductive ChainError
  | unsealed (index : ℕ)
  | unsigned (index : ℕ)
  | brokenLink (index : ℕ)
  | hashMismatch (index : ℕ)
  | badSignature (index : ℕ)
  deriving DecidableEq, Repr

section Verification

variable [FloatText] [Rfc3339] [Signatures]

/-- One entry on its own, without its link to a predecessor. -/
def verifyEntry (entry : AuditLogEntry) (signer : AuditSigner) : Except ChainError Unit :=
  match entry.entryHash with
  | none => .error (.unsealed 0)
  | some entryHash =>
      match entry.signature with
      | none => .error (.unsigned 0)
      | some signature =>
          if entry.contentHash entry.prevHash ≠ entryHash then .error (.hashMismatch 0)
          else if !signer.verify entryHash signature then .error (.badSignature 0)
          else .ok ()

/-- The loop of `verify_chain`, from the entry at a position. -/
def verifyFrom (signer : AuditSigner) (prev : Option String) (index : ℕ) :
    List AuditLogEntry → Except ChainError Unit
  | [] => .ok ()
  | entry :: rest =>
      match entry.entryHash with
      | none => .error (.unsealed index)
      | some entryHash =>
          match entry.signature with
          | none => .error (.unsigned index)
          | some signature =>
              if entry.prevHash ≠ prev then .error (.brokenLink index)
              else if entry.contentHash entry.prevHash ≠ entryHash then
                .error (.hashMismatch index)
              else if !signer.verify entryHash signature then .error (.badSignature index)
              else verifyFrom signer (some entryHash) (index + 1) rest

def verifyChain (entries : List AuditLogEntry) (signer : AuditSigner) : Except ChainError Unit :=
  verifyFrom signer none 0 entries

/-- What is true of an entry that verifies on its own. -/
structure AuditLogEntry.Sound (signer : AuditSigner) (e : AuditLogEntry) : Prop where
  hash : e.entryHash = some (e.contentHash e.prevHash)
  signed : ∃ signature, e.signature = some signature ∧
    signer.verify (e.contentHash e.prevHash) signature = true

theorem AuditLogEntry.sealed_sound {signer : AuditSigner} (hkey : signer.canSign = true)
    (e : AuditLogEntry) (prevHash : Option String) : (e.sealed prevHash signer).Sound signer where
  hash := rfl
  signed := AuditSigner.verify_sign hkey _

theorem verifyEntry_ok_iff {e : AuditLogEntry} {signer : AuditSigner} :
    verifyEntry e signer = .ok () ↔ e.Sound signer := by
  constructor
  · intro h
    unfold verifyEntry at h
    split at h
    · cases h
    rename_i entryHash hhash
    split at h
    · cases h
    rename_i signature hsignature
    split at h
    · cases h
    rename_i hcontent
    split at h
    · cases h
    rename_i hverify
    have hcontent' : e.contentHash e.prevHash = entryHash := not_not.mp hcontent
    exact ⟨by rw [hhash, hcontent'], signature, hsignature, by rw [hcontent']; simpa using hverify⟩
  · rintro ⟨hhash, signature, hsignature, hverify⟩
    simp [verifyEntry, hhash, hsignature, hverify]

/-- Each entry names the hash of the one before it. -/
abbrev Linked : Option String → List AuditLogEntry → Prop :=
  HashChain.Linked AuditLogEntry.prevHash AuditLogEntry.entryHash

theorem verifyFrom_ok_iff {signer : AuditSigner} {prev : Option String} {index : ℕ}
    {entries : List AuditLogEntry} :
    verifyFrom signer prev index entries = .ok () ↔
      Linked prev entries ∧ ∀ e ∈ entries, e.Sound signer := by
  induction entries generalizing prev index with
  | nil => simp [verifyFrom, HashChain.Linked]
  | cons e rest ih =>
    constructor
    · intro h
      unfold verifyFrom at h
      split at h
      · cases h
      rename_i entryHash hhash
      split at h
      · cases h
      rename_i signature hsignature
      split at h
      · cases h
      rename_i hlink
      split at h
      · cases h
      rename_i hcontent
      split at h
      · cases h
      rename_i hverify
      obtain ⟨hlinked, hsound⟩ := ih.mp h
      have hcontent' : e.contentHash e.prevHash = entryHash := not_not.mp hcontent
      refine ⟨⟨not_not.mp hlink, hhash ▸ hlinked⟩, ?_⟩
      intro x hx
      rcases List.mem_cons.mp hx with rfl | hx
      · exact ⟨by rw [hhash, hcontent'], signature, hsignature,
          by rw [hcontent']; simpa using hverify⟩
      · exact hsound x hx
    · rintro ⟨⟨hprev, hlinked⟩, hsound⟩
      obtain ⟨hhash, signature, hsignature, hverify⟩ := hsound e (by simp)
      have hrest := (@ih e.entryHash (index + 1)).mpr ⟨hlinked, fun x hx => hsound x (by simp [hx])⟩
      rw [hhash] at hrest
      rw [hprev] at hhash hverify hrest
      simp [verifyFrom, hhash, hsignature, hprev, hverify, hrest]

theorem verifyChain_ok_iff {signer : AuditSigner} {entries : List AuditLogEntry} :
    verifyChain entries signer = .ok () ↔
      Linked none entries ∧ ∀ e ∈ entries, e.Sound signer := verifyFrom_ok_iff

end Verification

end JamJet
