import PrivateContinuum.Sync.ScalarFraming

/-! The wire encoding `APCSPRT1` of one protected part. -/

namespace PrivateContinuum.Sync

open PrivateContinuum.Library PrivateContinuum.Core

/-- One transport object: clear multipart bookkeeping around protected bytes. -/
structure ProtectedSyncPart where
  publicationId : PublicationId
  partIndex : UInt32
  totalParts : UInt32
  payload : Bytes
deriving DecidableEq

inductive ProtectedPartCodecError where
  | invalidMagic
  | unsupportedVersion (version : Nat)
  | unexpectedEof
  | lengthOverflow
  | invalidMultipartMetadata
  | lengthMismatch
deriving DecidableEq

instance : FramingFailure ProtectedPartCodecError where
  unexpectedEof := .unexpectedEof
  lengthOverflow := .lengthOverflow

namespace Wire

/-- `b"APCSPRT1"` -/
def magic : Bytes := [65, 80, 67, 83, 80, 82, 84, 49]

def version : Nat := 1

def headerBytes : Nat := magic.length + 2 + logicalIdBytes + 4 + 4 + 8

/-- `validate_metadata` -/
def validateMetadata (partIndex totalParts : UInt32) : Except ProtectedPartCodecError Unit :=
  if totalParts = 0 ∨ totalParts ≤ partIndex then .error .invalidMultipartMetadata else .ok ()

end Wire

def writePart (part : ProtectedSyncPart) : Emitter ProtectedPartCodecError Unit := do
  liftM (Wire.validateMetadata part.partIndex part.totalParts)
  writeHeader Wire.magic Wire.version
  writeId part.publicationId
  emit (bigEndian 4 part.partIndex.toNat)
  emit (bigEndian 4 part.totalParts.toNat)
  writeBytes part.payload

def encodeProtectedSyncPart (part : ProtectedSyncPart) : Except ProtectedPartCodecError Bytes :=
  (writePart part).finish

/-- `remaining`, compared with the announced length. -/
def checkRemaining (length : Nat) : Parser ProtectedPartCodecError Unit := fun reader =>
  if reader.bytes.length - reader.position ≠ length then .error .lengthMismatch
    else .ok ((), reader)

/-- The payload must be everything that is left. -/
def readPayload : Parser ProtectedPartCodecError Bytes := do
  let length ← readLen
  checkRemaining length
  readExact length

def readPart : Parser ProtectedPartCodecError ProtectedSyncPart := do
  readHeader Wire.magic Wire.version .invalidMagic .unsupportedVersion
  let publicationId ← readId
  let partIndex ← readNat 4
  let totalParts ← readNat 4
  liftM (Wire.validateMetadata (.ofNat partIndex) (.ofNat totalParts))
  let payload ← readPayload
  pure ⟨publicationId, .ofNat partIndex, .ofNat totalParts, payload⟩

def decodeProtectedSyncPart (encoded : Bytes) : Except ProtectedPartCodecError ProtectedSyncPart :=
  if encoded.length < Wire.headerBytes then .error .unexpectedEof
  else (readPart ⟨encoded, 0⟩).map Prod.fst

def partImage (part : ProtectedSyncPart) : Bytes :=
  (Wire.magic ++ bigEndian 2 Wire.version) ++ (part.publicationId.bytes ++
    (bigEndian 4 part.partIndex.toNat ++
      (bigEndian 4 part.totalParts.toNat ++ vecImage part.payload)))

theorem partImage_length (part : ProtectedSyncPart) :
    (partImage part).length = Wire.headerBytes + part.payload.length := by
  simp only [partImage, vecImage, List.length_append, bigEndian_length, part.publicationId.width,
    Wire.headerBytes]
  omega

/-- Encoding succeeds exactly on valid metadata whose image fits. -/
theorem encodeProtectedSyncPart_ok_iff {part : ProtectedSyncPart} {encoded : Bytes} :
    encodeProtectedSyncPart part = .ok encoded ↔
      Wire.validateMetadata part.partIndex part.totalParts = .ok () ∧
        (partImage part).length < sizeLimit ∧ encoded = partImage part := by
  cases checked : Wire.validateMetadata part.partIndex part.totalParts with
  | error failure =>
    have stopped : encodeProtectedSyncPart part = .error failure := by
      unfold encodeProtectedSyncPart writePart
      rw [checked]
      rfl
    simp [stopped]
  | ok =>
    have emits : Emits (writePart part) (partImage part) :=
      Emits.checked checked ((emits_header _ _).seq ((emits_id _).seq ((emits_emit _).seq
        ((emits_emit _).seq (emits_vec part.payload)))))
    simp [encodeProtectedSyncPart, emits.finish_ok_iff]

theorem readsRest_payload (payload : Bytes) : ReadsRest readPayload (vecImage payload) payload := by
  intro before fits
  have bounded : payload.length < sizeLimit := by
    simp only [vecImage, List.length_append] at fits
    omega
  have remaining : ReadsRest (do checkRemaining payload.length; readExact payload.length :
      Parser ProtectedPartCodecError Bytes) payload payload := by
    intro prior inner
    have rest := (reads_exact payload : Reads (readExact payload.length :
      Parser ProtectedPartCodecError Bytes) payload payload).rest prior inner
    change (checkRemaining payload.length ⟨prior ++ payload, prior.length⟩ >>= fun outcome =>
      readExact payload.length outcome.2) = _
    rw [checkRemaining, if_neg (by simp)]
    exact rest
  exact (reads_len bounded).bindRest remaining before fits

/-- The payload runs to the end of the object, as its announced length says. -/
theorem readsRest_part {part : ProtectedSyncPart}
    (valid : Wire.validateMetadata part.partIndex part.totalParts = .ok ()) :
    ReadsRest readPart (partImage part) part := by
  have small : ∀ value : UInt32, value.toNat < 256 ^ 4 := fun value => value.toNat_lt
  refine (reads_header _ (by decide) _ _).bindRest ((reads_id _).bindRest
    ((reads_nat (small _)).bindRest ((reads_nat (small _)).bindRest ?_)))
  simp only [UInt32.ofNat_toNat]
  exact (reads_check valid).afterRest ((readsRest_payload part.payload).map _)

theorem decodeProtectedSyncPart_encode {part : ProtectedSyncPart} {encoded : Bytes}
    (done : encodeProtectedSyncPart part = .ok encoded) :
    decodeProtectedSyncPart encoded = .ok part := by
  obtain ⟨valid, fits, rfl⟩ := encodeProtectedSyncPart_ok_iff.mp done
  have long : ¬ (partImage part).length < Wire.headerBytes := by
    rw [partImage_length]
    omega
  rw [decodeProtectedSyncPart, if_neg long, (readsRest_part valid).whole fits]
  rfl

end PrivateContinuum.Sync
