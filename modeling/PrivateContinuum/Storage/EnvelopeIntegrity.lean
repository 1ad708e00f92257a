import PrivateContinuum.Library.Formats
import PrivateContinuum.Library.ShiftRegister
import PrivateContinuum.Storage.Envelope

namespace PrivateContinuum.Storage

open PrivateContinuum.Library

/-- The feedback of `crc32_ieee`. -/
def crcTaps : BitVec 32 := 0xedb88320

theorem crcTaps_closed : crcTaps.msb = true := by decide

theorem crcBit_toBitVec (crc : UInt32) : (crcBit crc).toBitVec = shiftBit crcTaps crc.toBitVec := by
  have lowest : (crc &&& 1).toBitVec = BitVec.setWidth 32
      (BitVec.ofBool (crc.toBitVec.getLsbD 0)) := by
    rw [UInt32.toBitVec_and]
    exact BitVec.and_one_eq_setWidth_ofBool_getLsbD
  have shifted : (crc >>> 1).toBitVec = crc.toBitVec >>> 1 := by
    rw [UInt32.toBitVec_shiftRight]
    rfl
  rw [crcBit, shiftBit, UInt32.toBitVec_xor, UInt32.toBitVec_and,
    UInt32.toBitVec_sub, shifted, lowest]
  cases crc.toBitVec.getLsbD 0 with
  | false => exact BitVec.xor_zero
  | true => rfl

theorem crcByte_toBitVec (crc : UInt32) (byte : UInt8) :
    (crcByte crc byte).toBitVec = absorb crcTaps crc.toBitVec byte := by
  have turns : ∀ (count : Nat) (state : UInt32),
      (Nat.repeat crcBit count state).toBitVec = shiftBits crcTaps count state.toBitVec := by
    intro count
    induction count with
    | zero => exact fun _ => rfl
    | succ count ih =>
      intro state
      rw [Nat.repeat, crcBit_toBitVec, ih, shiftBits_add count 1]
      rfl
  rw [crcByte, turns, UInt32.toBitVec_xor, absorb]
  rfl

theorem foldl_crcByte_toBitVec (bytes : Bytes) (crc : UInt32) :
    (bytes.foldl crcByte crc).toBitVec = bytes.foldl (absorb crcTaps) crc.toBitVec := by
  induction bytes generalizing crc with
  | nil => rfl
  | cons byte rest ih => rw [List.foldl_cons, ih, crcByte_toBitVec, List.foldl_cons]

/-- Up to four bytes cannot be replaced without a change of the checksum. -/
theorem crc32Ieee_burst {before changed others after : Bytes} (narrow : changed.length ≤ 4)
    (counted : changed.length = others.length)
    (same : crc32Ieee (before ++ (changed ++ after)) = crc32Ieee (before ++ (others ++ after))) :
    changed = others := by
  have registers := congrArg UInt32.toBitVec same
  rw [crc32Ieee, crc32Ieee, UInt32.toBitVec_not, UInt32.toBitVec_not, BitVec.not_inj,
    foldl_crcByte_toBitVec, foldl_crcByte_toBitVec] at registers
  exact burst_detected crcTaps_closed (by omega) counted registers

/-- What decodes is the encoding of what it decodes to. -/
theorem decodeEnvelope_ok {encoded payload : Bytes} (done : decodeEnvelope encoded = .ok payload) :
    encodeEnvelope payload = encoded := by
  unfold decodeEnvelope at done
  by_cases short : encoded.length < Envelope.headerLen + Envelope.checksumLen
  · rw [if_pos short] at done
    cases done
  by_cases magic : slice encoded 0 8 ≠ Envelope.magic
  · rw [if_neg short, if_pos magic] at done
    cases done
  rw [if_neg short, if_neg magic] at done
  dsimp only at done
  by_cases version : fromBigEndian (slice encoded 8 2) ≠ Envelope.version
  · rw [if_pos version] at done
    cases done
  rw [if_neg version] at done
  generalize announced : fromBigEndian (slice encoded 10 8) = payloadLen at done
  by_cases large : ¬ Envelope.headerLen + payloadLen + Envelope.checksumLen < sizeLimit
  · rw [if_pos large] at done
    cases done
  by_cases measured : encoded.length ≠ Envelope.headerLen + payloadLen + Envelope.checksumLen
  · rw [if_neg large, if_pos measured] at done
    cases done
  by_cases summed : fromBigEndian (encoded.drop (Envelope.headerLen + payloadLen)) ≠
      (crc32Ieee (encoded.take (Envelope.headerLen + payloadLen))).toNat
  · rw [if_neg large, if_neg measured, if_pos summed] at done
    cases done
  rw [if_neg large, if_neg measured, if_neg summed] at done
  have eighteen : Envelope.headerLen = 18 := rfl
  have four : Envelope.checksumLen = 4 := rfl
  have filled := not_not.mp measured
  have counted : payload.length = payloadLen := by
    rw [← Except.ok.inj done]
    exact slice_length (by omega)
  have body : envelopeBody payload = encoded.take (Envelope.headerLen + payloadLen) := by
    have grows : ∀ start width, encoded.take (start + width) = encoded.take start ++
        slice encoded start width :=
      fun _ _ => List.take_add
    have header : encoded.take (Envelope.headerLen + payloadLen) =
        slice encoded 0 8 ++ slice encoded 8 2 ++ slice encoded 10 8 ++
        slice encoded 18 payloadLen := by
      rw [eighteen, grows 18, grows 10 8, grows 8 2]
      rfl
    have versioned := slice_eq_bigEndian (show 8 + 2 ≤ encoded.length by omega) (not_not.mp version)
    have length := slice_eq_bigEndian (show 10 + 8 ≤ encoded.length by omega) announced
    rw [header, not_not.mp magic, versioned, length, envelopeBody, counted, ← Except.ok.inj done,
      List.append_assoc, List.append_assoc]
    rfl
  have checksum : bigEndian 4 (crc32Ieee (envelopeBody payload)).toNat =
      encoded.drop (Envelope.headerLen + payloadLen) := by
    have width : (encoded.drop (Envelope.headerLen + payloadLen)).length = 4 := by
      rw [List.length_drop]
      omega
    rw [body, ← not_not.mp summed, ← width, bigEndian_fromBigEndian]
  rw [encodeEnvelope, checksum, body, List.take_append_drop]

theorem encodeEnvelope_length (payload : Bytes) :
    (encodeEnvelope payload).length = Envelope.headerLen + payload.length +
      Envelope.checksumLen := by
  rw [encodeEnvelope, List.length_append, envelopeBody_length, bigEndian_length,
    Envelope.checksumLen]

theorem envelopeBody_inj {payload other : Bytes}
    (same : envelopeBody payload = envelopeBody other) :
    payload = other := by
  have behind : ∀ body : Bytes, (envelopeBody body).drop Envelope.headerLen = body := by
    intro body
    have split : envelopeBody body =
        (Envelope.magic ++ bigEndian 2 Envelope.version ++ bigEndian 8 body.length) ++ body := by
      simp [envelopeBody]
    rw [split]
    apply List.drop_left'
    simp only [List.length_append, bigEndian_length]
    rfl
  rw [← behind payload, same, behind]

theorem checksum_inj {left right : UInt32}
    (same : bigEndian 4 left.toNat = bigEndian 4 right.toNat) : left = right := by
  have numbers := congrArg fromBigEndian same
  rw [fromBigEndian_bigEndian left.toNat_lt, fromBigEndian_bigEndian right.toNat_lt] at numbers
  exact UInt32.toNat.inj numbers

/-- The bytes differ at most within the window of four bytes. -/
def DifferWithin (start : Nat) (left right : Bytes) : Prop :=
  ∀ index, left[index]? ≠ right[index]? → start ≤ index ∧ index < start + 4

section Windows

variable {start : Nat} {left right : Bytes}

theorem DifferWithin.take (differ : DifferWithin start left right) :
    left.take start = right.take start := by
  apply List.ext_getElem?
  intro index
  rw [List.getElem?_take, List.getElem?_take]
  by_cases before : index < start
  · rw [if_pos before, if_pos before]
    by_contra changed
    have inside := (differ index changed).1
    omega
  · rw [if_neg before, if_neg before]

theorem DifferWithin.drop (differ : DifferWithin start left right) :
    left.drop (start + 4) = right.drop (start + 4) := by
  apply List.ext_getElem?
  intro index
  rw [List.getElem?_drop, List.getElem?_drop]
  by_contra changed
  have inside := (differ (start + 4 + index) changed).2
  omega

end Windows

/-- Four bytes of header and payload are not replaced behind the checksum's back. -/
theorem envelopeBody_eq_of_window {payload other : Bytes} {start : Nat}
    (counted : payload.length = other.length)
    (inside : start + 4 ≤ Envelope.headerLen + payload.length)
    (differ : DifferWithin start (encodeEnvelope payload) (encodeEnvelope other)) :
    envelopeBody payload = envelopeBody other := by
  have long : start + 4 ≤ (envelopeBody payload).length := by rwa [envelopeBody_length]
  have long' : start + 4 ≤ (envelopeBody other).length := by rwa [envelopeBody_length, ← counted]
  have before : (envelopeBody payload).take start = (envelopeBody other).take start := by
    have kept := differ.take
    rw [encodeEnvelope, encodeEnvelope, List.take_append_of_le_length (by omega),
      List.take_append_of_le_length (by omega)] at kept
    exact kept
  have behind : (envelopeBody payload).drop (start + 4) ++
      bigEndian 4 (crc32Ieee (envelopeBody payload)).toNat =
      (envelopeBody other).drop (start + 4) ++
      bigEndian 4 (crc32Ieee (envelopeBody other)).toNat := by
    have kept := differ.drop
    rw [encodeEnvelope, encodeEnvelope, List.drop_append_of_le_length long,
      List.drop_append_of_le_length long'] at kept
    exact kept
  obtain ⟨after, checksums⟩ := List.append_inj' behind (by rw [bigEndian_length, bigEndian_length])
  have same := checksum_inj checksums
  have parts : ∀ body : Bytes, body = body.take start ++
      (slice body start 4 ++ body.drop (start + 4)) := by
    intro body
    rw [← drop_eq_slice, List.take_append_drop]
  rw [parts (envelopeBody payload), parts (envelopeBody other), before, after] at same
  have window := crc32Ieee_burst (by rw [slice_length long])
    (by rw [slice_length long, slice_length long']) same
  rw [parts (envelopeBody payload), parts (envelopeBody other), before, after, window]

/-- Four bytes of the checksum are not replaced on their own. -/
theorem envelopeBody_eq_of_checksum {payload other : Bytes} {start : Nat}
    (counted : payload.length = other.length) (behind : Envelope.headerLen + payload.length ≤ start)
    (differ : DifferWithin start (encodeEnvelope payload) (encodeEnvelope other)) :
    envelopeBody payload = envelopeBody other := by
  have kept := congrArg (List.take (Envelope.headerLen + payload.length)) differ.take
  rw [List.take_take, List.take_take, Nat.min_eq_left behind] at kept
  rw [encodeEnvelope, encodeEnvelope, ← envelopeBody_length, List.take_left,
    envelopeBody_length, counted, ← envelopeBody_length, List.take_left] at kept
  exact kept

/-- The envelope round-trips, and detects every change of some bytes within four
consecutive ones of header and payload or of the checksum. -/
theorem envelope_detects_bursts :
    (∀ payload, Envelope.headerLen + payload.length + Envelope.checksumLen < sizeLimit →
      decodeEnvelope (encodeEnvelope payload) = .ok payload) ∧
    (∀ encoded payload, decodeEnvelope encoded = .ok payload → encodeEnvelope payload = encoded) ∧
    ∀ payload encoded start, encoded.length = (encodeEnvelope payload).length →
      encoded ≠ encodeEnvelope payload → DifferWithin start encoded (encodeEnvelope payload) →
      start + 4 ≤ Envelope.headerLen + payload.length ∨
        Envelope.headerLen + payload.length ≤ start →
      ∃ failure, decodeEnvelope encoded = .error failure := by
  refine ⟨fun payload fits => decodeEnvelope_encode fits,
    fun encoded payload => decodeEnvelope_ok, ?_⟩
  intro payload encoded start counted changed differ window
  cases decoded : decodeEnvelope encoded with
  | error failure => exact ⟨failure, rfl⟩
  | ok other =>
    have shown := decodeEnvelope_ok decoded
    rw [← shown] at counted changed differ
    rw [encodeEnvelope_length, encodeEnvelope_length] at counted
    have counted' : other.length = payload.length := by omega
    have same : envelopeBody other = envelopeBody payload := by
      rcases window with front | behind
      · exact envelopeBody_eq_of_window counted' (counted' ▸ front) differ
      · exact envelopeBody_eq_of_checksum counted' (counted' ▸ behind) differ
    rw [envelopeBody_inj same] at changed
    exact absurd rfl changed

/-- One byte of a payload is changed. -/
theorem envelope_detects_bursts_one_byte :
    decodeEnvelope (encodeEnvelope [1, 2, 3]) = .ok [1, 2, 3] ∧
      ∃ failure, decodeEnvelope ((encodeEnvelope [1, 2, 3]).set 19 7) = .error failure := by
  obtain ⟨decodes, _, detects⟩ := envelope_detects_bursts
  refine ⟨decodes [1, 2, 3] (by decide),
    detects [1, 2, 3] _ 17 (by decide +kernel) (by decide +kernel) ?_ (by decide)⟩
  intro index changed
  by_cases here : 19 = index
  · omega
  · exact absurd (List.getElem?_set_ne here) changed

end PrivateContinuum.Storage
