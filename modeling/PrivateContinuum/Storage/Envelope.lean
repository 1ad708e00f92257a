import PrivateContinuum.Library.Bytes

namespace PrivateContinuum.Storage

open PrivateContinuum.Library

namespace Envelope

/-- `b"APCDEV01"` -/
def magic : Bytes := [65, 80, 67, 68, 69, 86, 48, 49]

def version : Nat := 1

def headerLen : Nat := magic.length + 2 + 8

def checksumLen : Nat := 4

end Envelope

inductive RecoveryDecodeError where
  | tooShort
  | invalidMagic
  | unsupportedVersion (version : Nat)
  | lengthOverflow
  | lengthMismatch
  | checksumMismatch
deriving DecidableEq

/-- One bit of the inner loop of `crc32_ieee`. -/
def crcBit (crc : UInt32) : UInt32 :=
  let mask := 0 - (crc &&& 1)
  (crc >>> 1) ^^^ (0xedb88320 &&& mask)

def crcByte (crc : UInt32) (byte : UInt8) : UInt32 :=
  Nat.repeat crcBit 8 (crc ^^^ byte.toUInt32)

/-- `crc32_ieee` -/
def crc32Ieee (bytes : Bytes) : UInt32 := ~~~ (bytes.foldl crcByte 0xffffffff)

example : crc32Ieee [49, 50, 51, 52, 53, 54, 55, 56, 57] = 0xcbf43926 := by decide +kernel

/-- Everything in front of the checksum. -/
def envelopeBody (payload : Bytes) : Bytes :=
  Envelope.magic ++ (bigEndian 2 Envelope.version ++ (bigEndian 8 payload.length ++ payload))

/-- `recovery::encode` -/
def encodeEnvelope (payload : Bytes) : Bytes :=
  envelopeBody payload ++ bigEndian 4 (crc32Ieee (envelopeBody payload)).toNat

/-- `recovery::decode` -/
def decodeEnvelope (encoded : Bytes) : Except RecoveryDecodeError Bytes :=
  if encoded.length < Envelope.headerLen + Envelope.checksumLen then .error .tooShort
  else if slice encoded 0 8 ≠ Envelope.magic then .error .invalidMagic
  else
    let version := fromBigEndian (slice encoded 8 2)
    let payloadLen := fromBigEndian (slice encoded 10 8)
    let expectedLen := Envelope.headerLen + payloadLen + Envelope.checksumLen
    if version ≠ Envelope.version then .error (.unsupportedVersion version)
    else if ¬ expectedLen < sizeLimit then .error .lengthOverflow
    else if encoded.length ≠ expectedLen then .error .lengthMismatch
    else
      let checksumOffset := Envelope.headerLen + payloadLen
      let storedChecksum := fromBigEndian (encoded.drop checksumOffset)
      if storedChecksum ≠ (crc32Ieee (encoded.take checksumOffset)).toNat then
        .error .checksumMismatch
      else .ok (slice encoded Envelope.headerLen payloadLen)

theorem envelopeBody_length (payload : Bytes) :
    (envelopeBody payload).length = Envelope.headerLen + payload.length := by
  simp only [envelopeBody, List.length_append, bigEndian_length, Envelope.headerLen]
  omega

/-- The fields of an envelope at the offsets where they are read. -/
theorem encodeEnvelope_slices (payload : Bytes) :
    slice (encodeEnvelope payload) 0 8 = Envelope.magic ∧
    slice (encodeEnvelope payload) 8 2 = bigEndian 2 Envelope.version ∧
    slice (encodeEnvelope payload) 10 8 = bigEndian 8 payload.length ∧
    slice (encodeEnvelope payload) Envelope.headerLen payload.length = payload := by
  refine ⟨?_, ?_, ?_, ?_⟩
  · have split : encodeEnvelope payload = [] ++ (Envelope.magic ++ (bigEndian 2 Envelope.version ++
        (bigEndian 8 payload.length ++
          (payload ++ bigEndian 4 (crc32Ieee (envelopeBody payload)).toNat)))) := by
      simp [encodeEnvelope, envelopeBody]
    rw [split]
    exact slice_append rfl rfl
  · have split : encodeEnvelope payload = Envelope.magic ++ (bigEndian 2 Envelope.version ++
        (bigEndian 8 payload.length ++
          (payload ++ bigEndian 4 (crc32Ieee (envelopeBody payload)).toNat))) := by
      simp [encodeEnvelope, envelopeBody]
    rw [split]
    exact slice_append rfl (bigEndian_length _ _)
  · have split : encodeEnvelope payload = (Envelope.magic ++ bigEndian 2 Envelope.version) ++
        (bigEndian 8 payload.length ++
          (payload ++ bigEndian 4 (crc32Ieee (envelopeBody payload)).toNat)) := by
      simp [encodeEnvelope, envelopeBody]
    rw [split]
    exact slice_append rfl (bigEndian_length _ _)
  · have split : encodeEnvelope payload = (Envelope.magic ++ bigEndian 2 Envelope.version ++
        bigEndian 8 payload.length) ++
        (payload ++ bigEndian 4 (crc32Ieee (envelopeBody payload)).toNat) := by
      simp [encodeEnvelope, envelopeBody]
    rw [split]
    refine slice_append ?_ rfl
    simp only [List.length_append, bigEndian_length, Envelope.headerLen]

theorem decodeEnvelope_encode {payload : Bytes}
    (fits : Envelope.headerLen + payload.length + Envelope.checksumLen < sizeLimit) :
    decodeEnvelope (encodeEnvelope payload) = .ok payload := by
  obtain ⟨magic, version, length, body⟩ := encodeEnvelope_slices payload
  have measured : (encodeEnvelope payload).length = Envelope.headerLen + payload.length +
      Envelope.checksumLen := by
    rw [encodeEnvelope, List.length_append, envelopeBody_length, bigEndian_length,
      Envelope.checksumLen]
  have long : ¬ (encodeEnvelope payload).length < Envelope.headerLen +
      Envelope.checksumLen := by omega
  have versioned : fromBigEndian (bigEndian 2 Envelope.version) = Envelope.version := by decide
  have bounded : payload.length < 256 ^ 8 := by
    have limit : sizeLimit = 256 ^ 8 := by decide
    omega
  have stated : fromBigEndian (bigEndian 8 payload.length) = payload.length :=
    fromBigEndian_bigEndian bounded
  have before : (encodeEnvelope payload).take (Envelope.headerLen + payload.length) =
      envelopeBody payload := by
    rw [encodeEnvelope, ← envelopeBody_length, List.take_left]
  have after : (encodeEnvelope payload).drop (Envelope.headerLen + payload.length) =
      bigEndian 4 (crc32Ieee (envelopeBody payload)).toNat := by
    rw [encodeEnvelope, ← envelopeBody_length, List.drop_left]
  have summed : fromBigEndian (bigEndian 4 (crc32Ieee (envelopeBody payload)).toNat) =
      (crc32Ieee (envelopeBody payload)).toNat := fromBigEndian_bigEndian (crc32Ieee _).toNat_lt
  unfold decodeEnvelope
  simp only [long, ↓reduceIte, magic, ne_eq, not_true_eq_false, version, versioned, length,
    stated, ← measured, measured ▸ fits, before, after, summed, body]

end PrivateContinuum.Storage
