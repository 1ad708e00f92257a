import PrivateContinuum.Library.Formats

/-! The authenticated envelope `APCPROT1` of the crypto crate, over a cipher that
is given. -/

namespace PrivateContinuum.Sync

open PrivateContinuum.Library

namespace Protection

/-- `b"APCPROT1"` -/
def magic : Bytes := [65, 80, 67, 80, 82, 79, 84, 49]

def version : Nat := 1

/-- `ALGORITHM_XCHACHA20_POLY1305` -/
def algorithm : Nat := 1

def keyBytes : Nat := 32

def nonceBytes : Nat := 24

def tagBytes : Nat := 16

def headerBytes : Nat := magic.length + 2 + 1 + nonceBytes + 8

/-- `b"A.P.C. authenticated protection\0v1\0xchacha20poly1305\0"` -/
def aadDomain : Bytes :=
  [65, 46, 80, 46, 67, 46, 32, 97, 117, 116, 104, 101, 110, 116, 105, 99, 97, 116, 101,
    100, 32, 112, 114,
    111, 116, 101, 99, 116, 105, 111, 110, 0, 118, 49, 0, 120, 99, 104, 97, 99, 104, 97,
    50, 48, 112, 111,
    108, 121, 49, 51, 48, 53, 0]

end Protection

abbrev ContentKey := { bytes : Bytes // bytes.length = Protection.keyBytes }

abbrev Nonce := { bytes : Bytes // bytes.length = Protection.nonceBytes }

/-- The cipher of the `chacha20poly1305` crate. Decryption undoes encryption
under the same key, nonce and associated data; a ciphertext ends in its tag. -/
structure Aead where
  encrypt : ContentKey → Nonce → (aad plaintext : Bytes) → Option Bytes
  decrypt : ContentKey → Nonce → (aad ciphertext : Bytes) → Option Bytes
  decrypt_encrypt : ∀ {key nonce aad plaintext ciphertext},
    encrypt key nonce aad plaintext = some ciphertext →
    decrypt key nonce aad ciphertext = some plaintext
  tagged : ∀ {key nonce aad plaintext ciphertext},
    encrypt key nonce aad plaintext = some ciphertext → Protection.tagBytes ≤ ciphertext.length

/-- A cipher without secrecy: the plaintext followed by a tag of zeros. -/
def Aead.plain : Aead where
  encrypt := fun _ _ _ plaintext => some (plaintext ++ List.replicate Protection.tagBytes 0)
  decrypt := fun _ _ _ ciphertext =>
    let length := ciphertext.length - Protection.tagBytes
    if ciphertext.drop length = List.replicate Protection.tagBytes 0 then
      some (ciphertext.take length) else none
  decrypt_encrypt := by
    intro key nonce aad plaintext ciphertext encrypted
    cases encrypted
    simp
  tagged := by
    intro key nonce aad plaintext ciphertext encrypted
    cases encrypted
    simp

inductive ProtectionError where
  | emptyContext
  | randomnessUnavailable
  | invalidEnvelope
  | unsupportedVersion (version : Nat)
  | unsupportedAlgorithm (algorithm : Nat)
  | authenticationFailed
  | lengthOverflow
deriving DecidableEq

instance : FramingFailure ProtectionError where
  unexpectedEof := .invalidEnvelope
  lengthOverflow := .lengthOverflow

def buildAad (context : Bytes) : Bytes := Protection.aadDomain ++ context

def writeEnvelope (nonce : Nonce) (ciphertext : Bytes) : Emitter ProtectionError Unit := do
  writeHeader Protection.magic Protection.version
  emit (bigEndian 1 Protection.algorithm)
  emit nonce.1
  writeBytes ciphertext

def protectWithNonce (aead : Aead) (key : ContentKey) (context plaintext : Bytes) (nonce : Nonce) :
    Except ProtectionError Bytes :=
  match aead.encrypt key nonce (buildAad context) plaintext with
  | none => .error .lengthOverflow
  | some ciphertext => (writeEnvelope nonce ciphertext).finish

/-- The nonce is what the random source yields, if it yields one. -/
def protect (aead : Aead) (key : ContentKey) (context plaintext : Bytes)
    (generated : Option Nonce) :
    Except ProtectionError Bytes :=
  if context.isEmpty then .error .emptyContext
  else match generated with
    | none => .error .randomnessUnavailable
    | some nonce => protectWithNonce aead key context plaintext nonce

def unprotect (aead : Aead) (key : ContentKey) (context envelope : Bytes) :
    Except ProtectionError Bytes :=
  if context.isEmpty then .error .emptyContext
  else if short : envelope.length < Protection.headerBytes + Protection.tagBytes then
    .error .invalidEnvelope
  else if slice envelope 0 8 ≠ Protection.magic then .error .invalidEnvelope
  else
    let version := fromBigEndian (slice envelope 8 2)
    let algorithm := fromBigEndian (slice envelope 10 1)
    let nonce : Nonce := ⟨slice envelope 11 24, slice_length (by
      simp only [Protection.headerBytes, Protection.magic, Protection.nonceBytes,
        Protection.tagBytes, List.length_cons, List.length_nil] at short
      omega)⟩
    let ciphertextLen := fromBigEndian (slice envelope 35 8)
    if version ≠ Protection.version then .error (.unsupportedVersion version)
    else if algorithm ≠ Protection.algorithm then .error (.unsupportedAlgorithm algorithm)
    else if ciphertextLen < Protection.tagBytes then .error .invalidEnvelope
    else if ¬ Protection.headerBytes + ciphertextLen < sizeLimit then .error .lengthOverflow
    else if envelope.length ≠ Protection.headerBytes + ciphertextLen then .error .invalidEnvelope
    else match aead.decrypt key nonce (buildAad context) (envelope.drop Protection.headerBytes) with
      | none => .error .authenticationFailed
      | some plaintext => .ok plaintext

def envelopeImage (nonce : Nonce) (ciphertext : Bytes) : Bytes :=
  (Protection.magic ++ bigEndian 2 Protection.version) ++ (bigEndian 1 Protection.algorithm ++
    (nonce.1 ++ (bigEndian 8 ciphertext.length ++ ciphertext)))

theorem emits_envelope (nonce : Nonce) (ciphertext : Bytes) :
    Emits (writeEnvelope nonce ciphertext) (envelopeImage nonce ciphertext) :=
  (emits_header _ _).seq ((emits_emit _).seq ((emits_emit _).seq (emits_writeBytes ciphertext)))

theorem envelopeImage_length (nonce : Nonce) (ciphertext : Bytes) :
    (envelopeImage nonce ciphertext).length = Protection.headerBytes + ciphertext.length := by
  simp only [envelopeImage, List.length_append, bigEndian_length, nonce.2, Protection.headerBytes]
  omega

/-- The fields of an envelope at the offsets where they are read. -/
theorem envelopeImage_slices (nonce : Nonce) (ciphertext : Bytes) :
    slice (envelopeImage nonce ciphertext) 0 8 = Protection.magic ∧
    slice (envelopeImage nonce ciphertext) 8 2 = bigEndian 2 Protection.version ∧
    slice (envelopeImage nonce ciphertext) 10 1 = bigEndian 1 Protection.algorithm ∧
    slice (envelopeImage nonce ciphertext) 11 24 = nonce.1 ∧
    slice (envelopeImage nonce ciphertext) 35 8 = bigEndian 8 ciphertext.length ∧
    (envelopeImage nonce ciphertext).drop Protection.headerBytes = ciphertext := by
  have nonceLength : nonce.1.length = 24 := nonce.2
  refine ⟨?_, ?_, ?_, ?_, ?_, ?_⟩
  · have split : envelopeImage nonce ciphertext = [] ++
        (Protection.magic ++ (bigEndian 2 Protection.version ++
        (bigEndian 1 Protection.algorithm ++
          (nonce.1 ++ (bigEndian 8 ciphertext.length ++ ciphertext))))) := by
      simp [envelopeImage]
    rw [split]
    exact slice_append rfl rfl
  · have split : envelopeImage nonce ciphertext = Protection.magic ++
        (bigEndian 2 Protection.version ++
        (bigEndian 1 Protection.algorithm ++
          (nonce.1 ++ (bigEndian 8 ciphertext.length ++ ciphertext)))) := by
      simp [envelopeImage]
    rw [split]
    exact slice_append rfl (bigEndian_length _ _)
  · exact slice_append rfl (bigEndian_length _ _)
  · have split : envelopeImage nonce ciphertext =
        (Protection.magic ++ bigEndian 2 Protection.version ++
        bigEndian 1 Protection.algorithm) ++
        (nonce.1 ++ (bigEndian 8 ciphertext.length ++ ciphertext)) := by
      simp [envelopeImage]
    rw [split]
    exact slice_append rfl nonceLength
  · have split : envelopeImage nonce ciphertext =
        (Protection.magic ++ bigEndian 2 Protection.version ++
        bigEndian 1 Protection.algorithm ++ nonce.1) ++
        (bigEndian 8 ciphertext.length ++ ciphertext) := by
      simp [envelopeImage]
    rw [split]
    refine slice_append ?_ (bigEndian_length _ _)
    rw [List.length_append, nonceLength]
    rfl
  · have split : envelopeImage nonce ciphertext =
        (Protection.magic ++ bigEndian 2 Protection.version ++
        bigEndian 1 Protection.algorithm ++ nonce.1 ++ bigEndian 8 ciphertext.length) ++
        ciphertext := by
      simp [envelopeImage]
    rw [split]
    apply List.drop_left'
    simp only [List.length_append, nonceLength, bigEndian_length]
    rfl

theorem envelopeImage_numbers {nonce : Nonce} {ciphertext : Bytes}
    (fits : (envelopeImage nonce ciphertext).length < sizeLimit) :
    fromBigEndian (slice (envelopeImage nonce ciphertext) 8 2) = Protection.version ∧
    fromBigEndian (slice (envelopeImage nonce ciphertext) 10 1) = Protection.algorithm ∧
    fromBigEndian (slice (envelopeImage nonce ciphertext) 35 8) = ciphertext.length := by
  obtain ⟨_, version, algorithm, _, length, _⟩ := envelopeImage_slices nonce ciphertext
  have bounded : ciphertext.length < 256 ^ 8 := by
    have limit : sizeLimit = 256 ^ 8 := by decide
    have measured := envelopeImage_length nonce ciphertext
    omega
  rw [version, algorithm, length]
  exact ⟨fromBigEndian_bigEndian (by decide), fromBigEndian_bigEndian (by decide),
    fromBigEndian_bigEndian bounded⟩

/-- A protected plaintext comes back under the same key and context. -/
theorem unprotect_protect {aead : Aead} {key : ContentKey} {context plaintext envelope : Bytes}
    {generated : Option Nonce}
    (done : protect aead key context plaintext generated = .ok envelope) :
    unprotect aead key context envelope = .ok plaintext := by
  unfold protect at done
  split at done
  · cases done
  rename_i filled
  split at done
  · cases done
  rename_i nonce
  unfold protectWithNonce at done
  split at done
  · cases done
  rename_i ciphertext encrypted
  obtain ⟨fits, rfl⟩ := (emits_envelope nonce ciphertext).finish_ok_iff.mp done
  have tagged := aead.tagged encrypted
  have measured := envelopeImage_length nonce ciphertext
  obtain ⟨magic, _, _, nonceAt, _, body⟩ := envelopeImage_slices nonce ciphertext
  obtain ⟨version, algorithm, stated⟩ := envelopeImage_numbers fits
  have long : ¬ (envelopeImage nonce ciphertext).length < Protection.headerBytes +
      Protection.tagBytes := by
    omega
  have large : ¬ ciphertext.length < Protection.tagBytes := by omega
  unfold unprotect
  simp only [filled, Bool.false_eq_true, ↓reduceIte, long, ↓reduceDIte, magic, ne_eq,
    not_true_eq_false,
    version, algorithm, stated, large, ← measured, fits, nonceAt, Subtype.coe_eta,
    body, aead.decrypt_encrypt encrypted]

theorem eq_envelopeImage {envelope : Bytes} {nonce : Nonce} (present : 43 ≤ envelope.length)
    (magic : slice envelope 0 8 = Protection.magic)
    (version : fromBigEndian (slice envelope 8 2) = Protection.version)
    (algorithm : fromBigEndian (slice envelope 10 1) = Protection.algorithm)
    (nonceAt : slice envelope 11 24 = nonce.1)
    (measured : envelope.length = Protection.headerBytes + fromBigEndian (slice envelope 35 8)) :
    envelope = envelopeImage nonce (envelope.drop Protection.headerBytes) := by
  have stated : (envelope.drop Protection.headerBytes).length = fromBigEndian
      (slice envelope 35 8) := by
    rw [List.length_drop, measured]
    omega
  have header : envelope = slice envelope 0 8 ++ (slice envelope 8 2 ++ (slice envelope 10 1 ++
      (slice envelope 11 24 ++ (slice envelope 35 8 ++ envelope.drop 43)))) := by
    rw [← drop_eq_slice envelope 35 8, ← drop_eq_slice envelope 11
      24, ← drop_eq_slice envelope 10 1, ← drop_eq_slice envelope 8 2, ← drop_eq_slice envelope 0 8]
    rfl
  have versioned := slice_eq_bigEndian (by omega) version
  have named := slice_eq_bigEndian (by omega) algorithm
  have length : slice envelope 35 8 = bigEndian 8 (fromBigEndian (slice envelope 35 8)) :=
    slice_eq_bigEndian (by omega) rfl
  rw [envelopeImage, stated, ← versioned, ← named, ← length, ← magic, ← nonceAt, List.append_assoc]
  exact header

/-- What is accepted is the envelope of a ciphertext that decrypts under the context. -/
theorem unprotect_ok {aead : Aead} {key : ContentKey} {context envelope plaintext : Bytes}
    (done : unprotect aead key context envelope = .ok plaintext) :
    ∃ nonce ciphertext, envelope = envelopeImage nonce ciphertext ∧ envelope.length < sizeLimit ∧
      context ≠ [] ∧ aead.decrypt key nonce (buildAad context) ciphertext = some plaintext := by
  unfold unprotect at done
  split at done
  · cases done
  rename_i filled
  split at done
  · cases done
  rename_i long
  split at done
  · cases done
  rename_i magic
  dsimp only at done
  split at done
  · cases done
  rename_i version
  split at done
  · cases done
  rename_i algorithm
  split at done
  · cases done
  split at done
  · cases done
  rename_i bounded
  split at done
  · cases done
  rename_i measured
  split at done
  · cases done
  rename_i found decrypted
  cases done
  have present : 43 ≤ envelope.length := by
    simp only [Protection.headerBytes, Protection.magic, Protection.nonceBytes, Protection.tagBytes,
      List.length_cons, List.length_nil] at long
    omega
  refine ⟨⟨slice envelope 11 24, slice_length (by omega)⟩, envelope.drop Protection.headerBytes,
    ?_, ?_, ?_, decrypted⟩
  · exact eq_envelopeImage present (not_not.mp magic) (not_not.mp version)
      (not_not.mp algorithm) rfl (not_not.mp measured)
  · rw [not_not.mp measured]
    exact not_not.mp bounded
  · intro empty
    rw [empty] at filled
    exact filled rfl

theorem protect_ok {aead : Aead} {key : ContentKey} {context plaintext ciphertext : Bytes}
    {nonce : Nonce} (filled : context ≠ [])
    (encrypted : aead.encrypt key nonce (buildAad context) plaintext = some ciphertext)
    (fits : (envelopeImage nonce ciphertext).length < sizeLimit) :
    protect aead key context plaintext (some nonce) = .ok (envelopeImage nonce ciphertext) := by
  have present : context.isEmpty = false := by simpa using filled
  simp only [protect, present, Bool.false_eq_true, ↓reduceIte, protectWithNonce, encrypted]
  exact (emits_envelope nonce ciphertext).finish_ok_iff.mpr ⟨fits, rfl⟩

end PrivateContinuum.Sync
