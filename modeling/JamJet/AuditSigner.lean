import JamJet.Hashing

/-! Signatures over audit entries: an HMAC tag or an Ed25519 signature of the entry's hash, written
in lowercase hex. -/

namespace JamJet

/-- The bytes of a text. -/
def utf8 (s : String) : List UInt8 := s.toList.flatMap String.utf8EncodeChar

theorem utf8_inj {s t : String} (h : utf8 s = utf8 t) : s = t := by
  have hbytes : s.toList.utf8Encode = t.toList.utf8Encode := congrArg List.toByteArray h
  rw [String.utf8Encode_toList, String.utf8Encode_toList] at hbytes
  exact String.toByteArray_inj.mp hbytes

theorem utf8_append (s t : String) : utf8 (s ++ t) = utf8 s ++ utf8 t := by
  simp [utf8]

namespace Hex

open Hashing

def encodeByte (b : UInt8) : List Char := [hexDigit (b.toNat / 16), hexDigit (b.toNat % 16)]

def encode (bytes : List UInt8) : String := String.ofList (bytes.flatMap encodeByte)

/-- Either case of a digit is read. -/
def digitValue (c : Char) : Option ℕ :=
  if '0' ≤ c ∧ c ≤ '9' then some (c.toNat - '0'.toNat)
  else if 'a' ≤ c ∧ c ≤ 'f' then some (c.toNat - 'a'.toNat + 10)
  else if 'A' ≤ c ∧ c ≤ 'F' then some (c.toNat - 'A'.toNat + 10)
  else none

def decodeChars : List Char → Option (List UInt8)
  | [] => some []
  | [_] => none
  | hi :: lo :: rest => do
      let h ← digitValue hi
      let l ← digitValue lo
      let bytes ← decodeChars rest
      return UInt8.ofNat (h * 16 + l) :: bytes

def decode (s : String) : Option (List UInt8) := decodeChars s.toList

theorem digitValue_hexDigit : ∀ n < 16, digitValue (hexDigit n) = some n := by decide

theorem decodeChars_encode (bytes : List UInt8) :
    decodeChars (bytes.flatMap encodeByte) = some bytes := by
  induction bytes with
  | nil => rfl
  | cons b bytes ih =>
    have hb : b.toNat < 256 := b.toNat_lt
    have hhigh := digitValue_hexDigit (b.toNat / 16) (by omega)
    have hlow := digitValue_hexDigit (b.toNat % 16) (by omega)
    have hbyte : b.toNat / 16 * 16 + b.toNat % 16 = b.toNat := by omega
    have hstep : (b :: bytes).flatMap encodeByte =
        hexDigit (b.toNat / 16) :: hexDigit (b.toNat % 16) :: bytes.flatMap encodeByte := rfl
    rw [hstep, decodeChars, hhigh, hlow, ih]
    change some (UInt8.ofNat (b.toNat / 16 * 16 + b.toNat % 16) :: bytes) = _
    rw [hbyte, UInt8.ofNat_toNat]

theorem decode_encode (bytes : List UInt8) : decode (encode bytes) = some bytes := by
  rw [decode, encode, String.toList_ofList]
  exact decodeChars_encode bytes

theorem encode_inj {a b : List UInt8} (h : encode a = encode b) : a = b :=
  Option.some.inj ((decode_encode a).symm.trans ((congrArg decode h).trans (decode_encode b)))

theorem not_mem_encodeBytes {c : Char} (hc : ∀ n < 16, hexDigit n ≠ c) (bytes : List UInt8) :
    c ∉ bytes.flatMap encodeByte := by
  intro hmem
  obtain ⟨b, -, hb⟩ := List.mem_flatMap.mp hmem
  have hlt : b.toNat < 256 := b.toNat_lt
  rcases List.mem_cons.mp hb with h | h
  · exact hc _ (by omega) h.symm
  · exact hc _ (by omega) (List.mem_singleton.mp h).symm

theorem not_mem_encode {c : Char} (hc : ∀ n < 16, hexDigit n ≠ c) (bytes : List UInt8) :
    c ∉ (encode bytes).toList := by
  rw [encode, String.toList_ofList]
  exact not_mem_encodeBytes hc bytes

end Hex

/-- The `hmac`, `ed25519_dalek` and `sha2` crates: what a key signs, its public key accepts. -/
class Signatures where
  sha256 : List UInt8 → List UInt8
  hmacSha256 : List UInt8 → List UInt8 → List UInt8
  publicKey : List UInt8 → List UInt8
  sign : List UInt8 → List UInt8 → List UInt8
  verifyStrict : List UInt8 → List UInt8 → List UInt8 → Bool
  sign_length : ∀ seed message, (sign seed message).length = 64
  verify_sign : ∀ seed message, verifyStrict (publicKey seed) message (sign seed message) = true

inductive SigningKey
  | none
  | hmac (key : List UInt8)
  | ed25519Signing (seed : List UInt8)
  | ed25519Verifying (publicKey : List UInt8)

structure AuditSigner where
  key : SigningKey

/-- `str::split_once`. -/
def splitOnce (sep : Char) : List Char → Option (List Char × List Char)
  | [] => none
  | c :: rest => if c = sep then some ([], rest) else (splitOnce sep rest).map fun p => (c :: p.1, p.2)

theorem splitOnce_append {sep : Char} {xs ys : List Char} (h : sep ∉ xs) :
    splitOnce sep (xs ++ sep :: ys) = some (xs, ys) := by
  induction xs with
  | nil => simp [splitOnce]
  | cons x xs ih =>
    obtain ⟨hx, hxs⟩ : sep ≠ x ∧ sep ∉ xs := by simpa using h
    simp [splitOnce, Ne.symm hx, ih hxs]

namespace AuditSigner

variable [FloatText] [Signatures]

/-- The first 16 hex digits of the hash of the public key. -/
def ed25519Kid (publicKey : List UInt8) : List Char :=
  (Hex.encode (Signatures.sha256 publicKey)).toList.take 16

/-- The statement an Ed25519 signature covers. -/
def ed25519Statement (entryHash : String) (kid : List Char) : List UInt8 :=
  utf8 (Hashing.canonicalJson (.object
    [("alg", .string "Ed25519"), ("entry_hash", .string entryHash),
      ("kid", .string (String.ofList kid)), ("spec", .string "jamjet.audit.entry/v1")]))

def ed25519SigPrefix : List Char := "ed25519:".toList

/-- Whether the signer holds a key it can sign with. -/
def canSign (s : AuditSigner) : Bool :=
  match s.key with
  | .hmac _ | .ed25519Signing _ => true
  | .none | .ed25519Verifying _ => false

def sign (s : AuditSigner) (data : String) : Option String :=
  match s.key with
  | .none | .ed25519Verifying _ => none
  | .hmac key => some (Hex.encode (Signatures.hmacSha256 key (utf8 data)))
  | .ed25519Signing seed =>
      let kid := ed25519Kid (Signatures.publicKey seed)
      some (String.ofList (ed25519SigPrefix ++ kid ++ ':' ::
        (Hex.encode (Signatures.sign seed (ed25519Statement data kid))).toList))

def verifyEd25519 (publicKey : List UInt8) (data signature : String) : Bool :=
  let kid := ed25519Kid publicKey
  match (ed25519SigPrefix.isPrefixOf signature.toList,
      splitOnce ':' (signature.toList.drop ed25519SigPrefix.length)) with
  | (true, some (sigKid, sigHex)) =>
      if sigKid = kid then
        match Hex.decodeChars sigHex with
        | some raw =>
            raw.length == 64 &&
              Signatures.verifyStrict publicKey (ed25519Statement data kid) raw
        | none => false
      else false
  | _ => false

def verify (s : AuditSigner) (data signature : String) : Bool :=
  match s.key with
  | .none => false
  | .hmac key =>
      match Hex.decode signature with
      | some expected => Signatures.hmacSha256 key (utf8 data) == expected
      | none => false
  | .ed25519Signing seed => verifyEd25519 (Signatures.publicKey seed) data signature
  | .ed25519Verifying publicKey => verifyEd25519 publicKey data signature

theorem verify_sign {s : AuditSigner} (h : s.canSign = true) (data : String) :
    ∃ signature, s.sign data = some signature ∧ s.verify data signature = true := by
  obtain ⟨key⟩ := s
  cases key with
  | none => cases h
  | ed25519Verifying publicKey => cases h
  | hmac key =>
    refine ⟨_, rfl, ?_⟩
    simp [verify, Hex.decode_encode]
  | ed25519Signing seed =>
    refine ⟨_, rfl, ?_⟩
    have hkid : ':' ∉ ed25519Kid (Signatures.publicKey seed) :=
      fun hmem => Hex.not_mem_encode (by decide) _ (List.mem_of_mem_take hmem)
    have hprefix : ed25519SigPrefix.isPrefixOf
        (ed25519SigPrefix ++ (ed25519Kid (Signatures.publicKey seed) ++ ':' ::
          (Hex.encode (Signatures.sign seed (ed25519Statement data
            (ed25519Kid (Signatures.publicKey seed))))).toList)) = true := by
      rw [List.isPrefixOf_iff_prefix]
      exact List.prefix_append ..
    simp only [verify, verifyEd25519, String.toList_ofList, List.append_assoc, hprefix,
      List.drop_left, splitOnce_append hkid, if_true]
    have hdecode := Hex.decode_encode (Signatures.sign seed (ed25519Statement data
      (ed25519Kid (Signatures.publicKey seed))))
    rw [Hex.decode] at hdecode
    simp [hdecode, Signatures.sign_length, Signatures.verify_sign]

end AuditSigner

end JamJet
