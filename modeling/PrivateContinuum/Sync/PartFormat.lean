import PrivateContinuum.Library.Panics
import PrivateContinuum.Sync.Protection
import PrivateContinuum.Sync.RecordFormat
import PrivateContinuum.Sync.Wire

namespace PrivateContinuum.Sync

open PrivateContinuum.Library PrivateContinuum.Core

/-- The rest of the input is as long as announced. -/
theorem parsesAll_checkedRest (length : Nat) :
    ParsesAll (do checkRemaining length; readExact length : Parser ProtectedPartCodecError Bytes)
      fun remaining payload => remaining = payload ∧ payload.length = length := by
  intro before remaining fits payload rest
  have left : (before ++ remaining).length - before.length = remaining.length := by
    rw [List.length_append, Nat.add_sub_cancel_left]
  change (checkRemaining length ⟨before ++ remaining, before.length⟩ >>= fun outcome =>
    readExact length outcome.2) = _ ↔ _
  by_cases same : remaining.length = length
  · have passes : checkRemaining length ⟨before ++ remaining, before.length⟩ =
        .ok ((), ⟨before ++ remaining, before.length⟩) := by
      rw [checkRemaining, if_neg (by rw [left, same]; simp)]
    rw [passes]
    change readExact length ⟨before ++ remaining, before.length⟩ = _ ↔ _
    rw [parses_exact length before remaining fits]
    constructor
    · rintro ⟨chunk, after, split, ⟨shown, filled⟩, stands⟩
      have none : after = [] := by
        rw [split, List.length_append, shown, filled] at same
        exact List.eq_nil_of_length_eq_zero (by omega)
      rw [none, List.append_nil] at split
      exact ⟨⟨split.trans shown, filled⟩, by rw [stands, ← split, List.length_append]⟩
    · rintro ⟨⟨shown, filled⟩, stands⟩
      exact ⟨remaining, [], by rw [List.append_nil], ⟨shown, filled⟩, by
        rw [stands, List.length_append]⟩
  · have stops : checkRemaining length ⟨before ++ remaining, before.length⟩ =
        .error .lengthMismatch := by
      rw [checkRemaining, if_pos (by rw [left]; exact same)]
    rw [stops]
    constructor
    · intro done
      cases done
    · rintro ⟨⟨shown, filled⟩, _⟩
      exact absurd (shown ▸ filled) same

theorem keepsInput_id {kind : IdKind} :
    KeepsInput (readId : Parser ProtectedPartCodecError (LogicalId kind)) :=
  (keepsInput_fixed _).bind fun _ => keepsInput_pure _

theorem parsesAll_payload :
    ParsesAll readPayload fun remaining payload => remaining = vecImage payload := by
  refine (parses_len.bindAll parsesAll_checkedRest).congr ?_
  intro chunk payload fits
  constructor
  · rintro ⟨length, left, right, split, ⟨shown, _⟩, same, filled⟩
    rw [split, shown, same, ← filled]
    rfl
  · intro shown
    rw [shown, vecImage, List.length_append] at fits
    exact ⟨payload.length, _, payload, shown, ⟨rfl, by omega⟩, rfl, rfl⟩

theorem parsesAll_part : ParsesAll readPart fun remaining part =>
    remaining = partImage part ∧ Wire.validateMetadata part.partIndex part.totalParts = .ok () := by
  refine ((parses_header Wire.magic (by decide) _ _).bindAll fun _ => parses_id.bindAll fun id =>
    (parses_nat 4).bindAll fun partIndex => (parses_nat 4).bindAll fun totalParts =>
      (parses_check (Wire.validateMetadata (.ofNat partIndex) (.ofNat totalParts))).bindAll fun _ =>
        parsesAll_payload.map fun payload =>
          (⟨id, .ofNat partIndex, .ofNat totalParts, payload⟩ : ProtectedSyncPart)).congr ?_
  intro chunk part _
  constructor
  · rintro ⟨_, header, first, split, shownHeader, id, named, second, split', shownId, partIndex,
      index, third, split'',
      ⟨shownIndex, indexFits⟩, totalParts, total, fourth, split''', ⟨shownTotal, totalFits⟩, _,
      none, fifth, last,
      ⟨empty, checked⟩, payload, shownPayload, same⟩
    subst same
    refine ⟨?_, checked⟩
    have index_same : (UInt32.ofNat partIndex).toNat = partIndex :=
      UInt32.toNat_ofNat_of_lt' indexFits
    have total_same : (UInt32.ofNat totalParts).toNat = totalParts :=
      UInt32.toNat_ofNat_of_lt' totalFits
    rw [split, shownHeader, split', shownId, split'', shownIndex, split''', shownTotal, last,
      empty, shownPayload, List.nil_append, partImage, index_same, total_same]
  · rintro ⟨shown, checked⟩
    have small : ∀ value : UInt32, value.toNat < 256 ^ 4 := fun value => value.toNat_lt
    refine ⟨(), _, _, shown, rfl, part.publicationId, _, _, rfl, rfl,
      part.partIndex.toNat, _, _, rfl,
      ⟨rfl, small _⟩, part.totalParts.toNat, _, _, rfl, ⟨rfl, small _⟩, (), [], _, rfl, ⟨rfl, ?_⟩,
      part.payload, rfl, ?_⟩
    · rw [UInt32.ofNat_toNat, UInt32.ofNat_toNat]
      exact checked
    · rw [UInt32.ofNat_toNat, UInt32.ofNat_toNat]

/-- A payload that reaches to the end of the input bounds it. -/
theorem readPayload_bounded {payload : Bytes} {reader rest : Reader}
    (done : readPayload reader = .ok (payload, rest)) :
    reader.bytes.length < sizeLimit := by
  obtain ⟨length, middle, measured, continued⟩ := parser_bind_ok_iff.mp done
  obtain ⟨_, same, checked, taken⟩ := parser_bind_ok_iff.mp continued
  have input : middle.bytes = reader.bytes := keepsInput_nat 8 reader length middle measured
  unfold checkRemaining at checked
  split at checked
  · cases checked
  rename_i fills
  cases checked
  obtain ⟨chunk, last, exact, _⟩ := parser_bind_ok_iff.mp taken
  unfold readFixed at exact
  split at exact
  · rename_i addressable
    split at exact
    · rw [← input]
      omega
    · cases exact
  · cases exact

theorem decodeProtectedSyncPart_bounded {encoded : Bytes} {part : ProtectedSyncPart}
    (done : decodeProtectedSyncPart encoded = .ok part) : encoded.length < sizeLimit := by
  rw [decodeProtectedSyncPart] at done
  by_cases short : encoded.length < Wire.headerBytes
  · rw [if_pos short] at done
    cases done
  rw [if_neg short] at done
  cases ran : readPart ⟨encoded, 0⟩ with
  | error failure =>
    rw [ran] at done
    cases done
  | ok taken =>
    obtain ⟨_, first, header, remaining⟩ := parser_bind_ok_iff.mp ran
    obtain ⟨id, second, named, remaining⟩ := parser_bind_ok_iff.mp remaining
    obtain ⟨index, third, indexed, remaining⟩ := parser_bind_ok_iff.mp remaining
    obtain ⟨total, fourth, counted, remaining⟩ := parser_bind_ok_iff.mp remaining
    obtain ⟨_, fifth, checked, remaining⟩ := parser_bind_ok_iff.mp remaining
    obtain ⟨payload, last, filled, _⟩ := parser_bind_ok_iff.mp remaining
    have whole : fifth.bytes = encoded := by
      rw [keepsInput_check _ _ _ _ checked, keepsInput_nat 4 _ _ _ counted,
        keepsInput_nat 4 _ _ _ indexed,
        keepsInput_id _ _ _ named, keepsInput_header _ _ _ _ _ _ _ header]
    exact whole ▸ readPayload_bounded filled

/-- Exactly the framings of parts with valid metadata decode. -/
theorem decodeProtectedSyncPart_ok_iff {encoded : Bytes} {part : ProtectedSyncPart}
    (fits : encoded.length < sizeLimit) : decodeProtectedSyncPart encoded = .ok part ↔
      encoded = partImage part ∧ Wire.validateMetadata part.partIndex part.totalParts = .ok () := by
  rw [← parsesAll_part.whole_iff fits, decodeProtectedSyncPart]
  by_cases short : encoded.length < Wire.headerBytes
  · rw [if_pos short]
    constructor
    · intro done
      cases done
    · intro whole
      obtain ⟨shown, _⟩ := (parsesAll_part.whole_iff fits).mp whole
      rw [shown, partImage_length] at short
      omega
  · rw [if_neg short]
    cases ran : readPart ⟨encoded, 0⟩ with
    | error failure => simp [Except.map]
    | ok taken =>
      obtain ⟨found, rest⟩ := taken
      simp [Except.map]

theorem decode_iff_encode {encoded : Bytes} {part : ProtectedSyncPart} :
    decodeProtectedSyncPart encoded = .ok part ↔ encodeProtectedSyncPart part = .ok encoded := by
  rw [encodeProtectedSyncPart_ok_iff]
  constructor
  · intro done
    have fits := decodeProtectedSyncPart_bounded done
    obtain ⟨shown, checked⟩ := (decodeProtectedSyncPart_ok_iff fits).mp done
    exact ⟨checked, shown ▸ fits, shown⟩
  · rintro ⟨checked, fits, shown⟩
    exact (decodeProtectedSyncPart_ok_iff (shown ▸ fits)).mpr ⟨shown, checked⟩

theorem validateMetadata_ok_iff {partIndex totalParts : UInt32} :
    Wire.validateMetadata partIndex totalParts = .ok () ↔
    0 < totalParts ∧ partIndex < totalParts := by
  rw [Wire.validateMetadata]
  by_cases refused : totalParts = 0 ∨ totalParts ≤ partIndex
  · rw [if_pos refused]
    constructor
    · intro done
      cases done
    · rintro ⟨positive, below⟩
      rcases refused with none | beyond
      · exact absurd (none ▸ positive) (by decide)
      · exact absurd below (UInt32.not_lt.mpr beyond)
  · rw [if_neg refused]
    rw [not_or, UInt32.not_le] at refused
    exact iff_of_true rfl ⟨UInt32.pos_iff_ne_zero.mpr refused.1, refused.2⟩

namespace Protection

/-- The checks of `unprotect` before the cipher is called, and what it is called with.
Every index, slice and sum is as in the source. -/
def openEnvelope (context envelope : Bytes) : Attempt ProtectionError (Nonce × Bytes) := do
  if context.isEmpty then .fail .emptyContext
  else if envelope.length < headerBytes + tagBytes then .fail .invalidEnvelope
  else do
    let head ← sliceRange envelope 0 magic.length
    if head ≠ magic then .fail .invalidEnvelope
    else do
      let versionOffset := magic.length
      let versionNext ← addSizes versionOffset 1
      let high ← indexAt envelope versionOffset
      let low ← indexAt envelope versionNext
      if fromBigEndian [high, low] ≠ version then
        .fail (.unsupportedVersion (fromBigEndian [high, low]))
      else do
        let algorithmOffset ← addSizes versionOffset 2
        let named ← indexAt envelope algorithmOffset
        if named.toNat ≠ algorithm then .fail (.unsupportedAlgorithm named.toNat)
        else do
          let nonceOffset ← addSizes algorithmOffset 1
          let nonceEnd ← addSizes nonceOffset nonceBytes
          let nonceSlice ← sliceRange envelope nonceOffset nonceEnd
          let nonce ← expectArray nonceBytes nonceSlice
          let lengthEnd ← addSizes nonceEnd 8
          let lengthSlice ← sliceRange envelope nonceEnd lengthEnd
          let digits ← expectArray 8 lengthSlice
          let ciphertextLen := fromBigEndian digits.1
          if ciphertextLen < tagBytes then .fail .invalidEnvelope
          else if ¬ headerBytes + ciphertextLen < sizeLimit then .fail .lengthOverflow
          else if envelope.length ≠ headerBytes + ciphertextLen then .fail .invalidEnvelope
          else do
            let ciphertext ← sliceRange envelope headerBytes envelope.length
            pure (nonce, ciphertext)

/-- `unprotect`, with every index, slice and sum made explicit. -/
def attemptUnprotect (aead : Aead) (key : ContentKey) (context envelope : Bytes) :
    Attempt ProtectionError Bytes := do
  let (nonce, ciphertext) ← openEnvelope context envelope
  match aead.decrypt key nonce (buildAad context) ciphertext with
  | none => .fail .authenticationFailed
  | some plaintext => pure plaintext

end Protection

theorem slice_two {bytes : Bytes} {start : Nat} (inside : start + 1 < bytes.length) :
    slice bytes start 2 = [bytes[start], bytes[start + 1]] := by
  rw [slice, List.drop_eq_getElem_cons (by omega), List.drop_eq_getElem_cons inside]
  rfl

theorem slice_one {bytes : Bytes} {start : Nat} (inside : start < bytes.length) :
    slice bytes start 1 = [bytes[start]] := by
  rw [slice, List.drop_eq_getElem_cons inside]
  rfl

/-- Past the check of its length, an envelope has all fields of its header. -/
theorem openEnvelope_eq {context envelope : Bytes} (filled : ¬ context.isEmpty = true)
    (long : ¬ envelope.length < Protection.headerBytes + Protection.tagBytes) :
    Protection.openEnvelope context envelope =
      if slice envelope 0 8 ≠ Protection.magic then .fail .invalidEnvelope
      else if fromBigEndian (slice envelope 8 2) ≠ Protection.version then
        .fail (.unsupportedVersion (fromBigEndian (slice envelope 8 2)))
      else if fromBigEndian (slice envelope 10 1) ≠ Protection.algorithm then
        .fail (.unsupportedAlgorithm (fromBigEndian (slice envelope 10 1)))
      else if fromBigEndian (slice envelope 35 8) < Protection.tagBytes then .fail .invalidEnvelope
      else if ¬ Protection.headerBytes + fromBigEndian (slice envelope 35 8) < sizeLimit then
        .fail .lengthOverflow
      else if envelope.length ≠ Protection.headerBytes + fromBigEndian (slice envelope 35 8) then
        .fail .invalidEnvelope
      else pure (⟨slice envelope 11 24, slice_length (by
        have enough : Protection.headerBytes + Protection.tagBytes = 59 := rfl
        omega)⟩, envelope.drop Protection.headerBytes) := by
  have enough : Protection.headerBytes + Protection.tagBytes = 59 := rfl
  have header : Protection.headerBytes = 43 := rfl
  have eight : Protection.magic.length = 8 := rfl
  have nonceWidth : Protection.nonceBytes = 24 := rfl
  have limit : sizeLimit = 18446744073709551616 := rfl
  have version : fromBigEndian (slice envelope 8 2) = fromBigEndian [envelope[8], envelope[9]] := by
    rw [slice_two (by omega)]
  have named : fromBigEndian (slice envelope 10 1) = envelope[10].toNat := by
    rw [slice_one (by omega), fromBigEndian, List.foldl_cons, List.foldl_nil,
      Nat.zero_mul, Nat.zero_add]
  have rest : slice envelope 43 (envelope.length - 43) = envelope.drop 43 := by
    rw [slice]
    apply List.take_of_length_le
    rw [List.length_drop]
  rw [Protection.openEnvelope, if_neg filled, if_neg long, eight,
    sliceRange_eq (by omega) (by omega), Attempt.pure_bind]
  by_cases magic : slice envelope 0 8 ≠ Protection.magic
  · rw [if_pos magic, if_pos magic]
  rw [if_neg magic, if_neg magic]
  dsimp only
  rw [addSizes_eq (by omega), Attempt.pure_bind, indexAt_eq (by omega), Attempt.pure_bind,
    indexAt_eq (by omega), Attempt.pure_bind, ← version]
  by_cases versioned : fromBigEndian (slice envelope 8 2) ≠ Protection.version
  · rw [if_pos versioned, if_pos versioned]
  rw [if_neg versioned, if_neg versioned, addSizes_eq (by omega), Attempt.pure_bind,
    indexAt_eq (by omega), Attempt.pure_bind, ← named]
  by_cases algorithm : fromBigEndian (slice envelope 10 1) ≠ Protection.algorithm
  · rw [if_pos algorithm, if_pos algorithm]
  have nonceWide :
      (slice envelope (8 + 2 + 1) (8 + 2 + 1 + Protection.nonceBytes - (8 + 2 + 1))).length =
      Protection.nonceBytes := slice_length (by omega)
  have digitsWide : (slice envelope (8 + 2 + 1 + Protection.nonceBytes)
      (8 + 2 + 1 + Protection.nonceBytes + 8 - (8 + 2 + 1 + Protection.nonceBytes))).length = 8 :=
    slice_length (by omega)
  rw [if_neg algorithm, if_neg algorithm, addSizes_eq (by omega), Attempt.pure_bind,
    addSizes_eq (by omega),
    Attempt.pure_bind, sliceRange_eq (by omega) (by omega), Attempt.pure_bind,
    expectArray_eq nonceWide,
    Attempt.pure_bind, addSizes_eq (by omega), Attempt.pure_bind,
    sliceRange_eq (by omega) (by omega),
    Attempt.pure_bind, expectArray_eq digitsWide, Attempt.pure_bind]
  dsimp only
  have body :
    (sliceRange envelope Protection.headerBytes envelope.length : Attempt ProtectionError Bytes) =
      pure (envelope.drop Protection.headerBytes) := by
    rw [sliceRange_eq (by omega) (le_refl _), header, rest]
  rw [body, Attempt.pure_bind]
  rfl

theorem openEnvelope_empty {context envelope : Bytes} (empty : context.isEmpty = true) :
    Protection.openEnvelope context envelope = .fail .emptyContext := by
  rw [Protection.openEnvelope, if_pos empty]

theorem openEnvelope_short {context envelope : Bytes} (filled : ¬ context.isEmpty = true)
    (short : envelope.length < Protection.headerBytes + Protection.tagBytes) :
    Protection.openEnvelope context envelope = .fail .invalidEnvelope := by
  rw [Protection.openEnvelope, if_neg filled, if_pos short]

/-- Reading an envelope stays inside of it: with every access explicit, `unprotect`
ends in the same way and never panics. -/
theorem attemptUnprotect_eq (aead : Aead) (key : ContentKey) (context envelope : Bytes) :
    Protection.attemptUnprotect aead key context envelope =
      .ofExcept (unprotect aead key context envelope) := by
  rw [Protection.attemptUnprotect, unprotect]
  by_cases empty : context.isEmpty = true
  · rw [openEnvelope_empty empty, if_pos empty]
    rfl
  by_cases short : envelope.length < Protection.headerBytes + Protection.tagBytes
  · rw [openEnvelope_short empty short, if_neg empty, dif_pos short]
    rfl
  rw [openEnvelope_eq empty short, if_neg empty, dif_neg short]
  by_cases magic : slice envelope 0 8 ≠ Protection.magic
  · rw [if_pos magic, if_pos magic]
    rfl
  rw [if_neg magic, if_neg magic]
  by_cases version : fromBigEndian (slice envelope 8 2) ≠ Protection.version
  · rw [if_pos version, if_pos version]
    rfl
  rw [if_neg version, if_neg version]
  by_cases algorithm : fromBigEndian (slice envelope 10 1) ≠ Protection.algorithm
  · rw [if_pos algorithm, if_pos algorithm]
    rfl
  rw [if_neg algorithm, if_neg algorithm]
  by_cases small : fromBigEndian (slice envelope 35 8) < Protection.tagBytes
  · rw [if_pos small, if_pos small]
    rfl
  rw [if_neg small, if_neg small]
  by_cases large : ¬ Protection.headerBytes + fromBigEndian (slice envelope 35 8) < sizeLimit
  · rw [if_pos large, if_pos large]
    rfl
  rw [if_neg large, if_neg large]
  by_cases other : envelope.length ≠ Protection.headerBytes + fromBigEndian (slice envelope 35 8)
  · rw [if_pos other, if_pos other]
    rfl
  rw [if_neg other, if_neg other, Attempt.pure_bind]
  dsimp only
  generalize aead.decrypt _ _ _ _ = decrypted
  cases decrypted with
  | none => rfl
  | some plaintext => rfl

/-- Bytes that are read up to the cipher have all fields of an envelope. -/
theorem openEnvelope_ok {context envelope ciphertext : Bytes} {nonce : Nonce}
    (done : (Protection.openEnvelope context envelope).ended = .ok (nonce, ciphertext)) :
    context ≠ [] ∧ envelope = envelopeImage nonce ciphertext ∧
      Protection.tagBytes ≤ ciphertext.length ∧ envelope.length < sizeLimit := by
  by_cases empty : context.isEmpty = true
  · rw [openEnvelope_empty empty] at done
    cases done
  by_cases short : envelope.length < Protection.headerBytes + Protection.tagBytes
  · rw [openEnvelope_short empty short] at done
    cases done
  rw [openEnvelope_eq empty short] at done
  by_cases magic : slice envelope 0 8 ≠ Protection.magic
  · rw [if_pos magic] at done
    cases done
  by_cases version : fromBigEndian (slice envelope 8 2) ≠ Protection.version
  · rw [if_neg magic, if_pos version] at done
    cases done
  by_cases algorithm : fromBigEndian (slice envelope 10 1) ≠ Protection.algorithm
  · rw [if_neg magic, if_neg version, if_pos algorithm] at done
    cases done
  rw [if_neg magic, if_neg version, if_neg algorithm] at done
  by_cases small : fromBigEndian (slice envelope 35 8) < Protection.tagBytes
  · rw [if_pos small] at done
    cases done
  by_cases large : ¬ Protection.headerBytes + fromBigEndian (slice envelope 35 8) < sizeLimit
  · rw [if_neg small, if_pos large] at done
    cases done
  by_cases other : envelope.length ≠ Protection.headerBytes + fromBigEndian (slice envelope 35 8)
  · rw [if_neg small, if_neg large, if_pos other] at done
    cases done
  rw [if_neg small, if_neg large, if_neg other] at done
  cases done
  have enough : Protection.headerBytes + Protection.tagBytes = 59 := rfl
  have measured := not_not.mp other
  refine ⟨?_, ?_, ?_, ?_⟩
  · intro none
    exact empty (none ▸ rfl)
  · exact eq_envelopeImage (by omega) (not_not.mp magic) (not_not.mp version)
      (not_not.mp algorithm) rfl measured
  · rw [List.length_drop]
    omega
  · rw [measured]
    exact not_not.mp large

/-- The cipher sees exactly the nonce and the ciphertext of a well-formed envelope. -/
theorem openEnvelope_ok_iff {context envelope ciphertext : Bytes} {nonce : Nonce} :
    (Protection.openEnvelope context envelope).ended = .ok (nonce, ciphertext) ↔
      context ≠ [] ∧ envelope = envelopeImage nonce ciphertext ∧
        Protection.tagBytes ≤ ciphertext.length ∧ envelope.length < sizeLimit := by
  constructor
  · exact openEnvelope_ok
  · rintro ⟨present, shown, tagged, fits⟩
    subst shown
    have filled : ¬ context.isEmpty = true := by
      rw [List.isEmpty_iff]
      exact present
    have measured := envelopeImage_length nonce ciphertext
    obtain ⟨magic, _, _, nonceAt, _, body⟩ := envelopeImage_slices nonce ciphertext
    obtain ⟨version, algorithm, stated⟩ := envelopeImage_numbers fits
    have large : Protection.headerBytes + ciphertext.length < sizeLimit := measured ▸ fits
    rw [openEnvelope_eq filled (by omega), if_neg (not_not.mpr magic), if_neg (not_not.mpr version),
      if_neg (not_not.mpr algorithm), stated, if_neg (by omega), if_neg (not_not.mpr large),
      if_neg (not_not.mpr measured)]
    have same : (⟨slice (envelopeImage nonce ciphertext) 11 24, slice_length (by
        have enough : Protection.headerBytes + Protection.tagBytes = 59 := rfl
        omega)⟩ : Nonce) = nonce := Subtype.ext nonceAt
    rw [same, body]
    rfl

/-- Protecting yields the envelope of what the cipher yields. -/
theorem protectWithNonce_ok_iff {aead : Aead} {key : ContentKey}
    {context plaintext envelope : Bytes} {nonce : Nonce} :
    protectWithNonce aead key context plaintext nonce = .ok envelope ↔
      ∃ ciphertext, aead.encrypt key nonce (buildAad context) plaintext = some ciphertext ∧
        Protection.headerBytes + ciphertext.length < sizeLimit ∧
        envelope = envelopeImage nonce ciphertext := by
  rw [protectWithNonce]
  cases encrypted : aead.encrypt key nonce (buildAad context) plaintext with
  | none =>
    constructor
    · intro done
      cases done
    · rintro ⟨ciphertext, impossible, _⟩
      cases impossible
  | some ciphertext =>
    dsimp only
    rw [(emits_envelope nonce ciphertext).finish_ok_iff, envelopeImage_length]
    constructor
    · rintro ⟨fits, shown⟩
      exact ⟨ciphertext, rfl, fits, shown⟩
    · rintro ⟨found, same, fits, shown⟩
      cases same
      exact ⟨fits, shown⟩

theorem unprotect_protectWithNonce {aead : Aead} {key : ContentKey}
    {context plaintext envelope : Bytes} {nonce : Nonce} (present : context ≠ [])
    (done : protectWithNonce aead key context plaintext nonce = .ok envelope) :
    unprotect aead key context envelope = .ok plaintext := by
  have guarded : protect aead key context plaintext (some nonce) = .ok envelope := by
    rw [protect, if_neg (by rw [List.isEmpty_iff]; exact present)]
    exact done
  exact unprotect_protect guarded

/-- The framings of parts and of protected envelopes are exact, and `unprotect` reads
an envelope without leaving it. -/
theorem framings_exact (aead : Aead) :
    (∀ encoded part, decodeProtectedSyncPart encoded = .ok part ↔
      encodeProtectedSyncPart part = .ok encoded) ∧
    (∀ left right part, decodeProtectedSyncPart left = .ok part →
      decodeProtectedSyncPart right = .ok part → left = right) ∧
    (∀ encoded part, decodeProtectedSyncPart encoded = .ok part → 0 < part.totalParts ∧
      part.partIndex < part.totalParts) ∧
    (∀ key context plaintext nonce ciphertext, context ≠ [] →
      aead.encrypt key nonce (buildAad context) plaintext = some ciphertext →
      Protection.headerBytes + ciphertext.length < sizeLimit →
      ∃ envelope, protectWithNonce aead key context plaintext nonce = .ok envelope ∧
        unprotect aead key context envelope = .ok plaintext) ∧
    (∀ key context plaintext nonce envelope, context ≠ [] →
      protectWithNonce aead key context plaintext nonce = .ok envelope →
      unprotect aead key context envelope = .ok plaintext) ∧
    (∀ context envelope nonce ciphertext,
      (Protection.openEnvelope context envelope).ended = .ok (nonce, ciphertext) ↔
        context ≠ [] ∧ envelope = envelopeImage nonce ciphertext ∧
          Protection.tagBytes ≤ ciphertext.length ∧ envelope.length < sizeLimit) ∧
    (∀ key context envelope,
      Protection.attemptUnprotect aead key context envelope =
        .ofExcept (unprotect aead key context envelope)) := by
  refine ⟨fun _ _ => decode_iff_encode, ?_, ?_, ?_, ?_, fun _ _ _ _ => openEnvelope_ok_iff,
    attemptUnprotect_eq aead⟩
  · intro left right part first second
    rw [decode_iff_encode] at first second
    rw [first] at second
    cases second
    rfl
  · intro encoded part done
    have fits := decodeProtectedSyncPart_bounded done
    exact validateMetadata_ok_iff.mp ((decodeProtectedSyncPart_ok_iff fits).mp done).2
  · intro key context plaintext nonce ciphertext present encrypted fits
    have done := protectWithNonce_ok_iff.mpr ⟨ciphertext, encrypted, fits, rfl⟩
    exact ⟨_, done, unprotect_protectWithNonce present done⟩
  · intro key context plaintext nonce envelope present done
    exact unprotect_protectWithNonce present done

/-- A part of one byte, and a plaintext of one byte behind a context of one. -/
theorem framings_exact_one_byte :
    let part : ProtectedSyncPart := ⟨.ofByte 5, 0, 1, [9]⟩
    let key : ContentKey := ⟨List.replicate 32 1, rfl⟩
    let nonce : Nonce := ⟨List.replicate 24 2, rfl⟩
    decodeProtectedSyncPart (partImage part) = .ok part ∧ part.partIndex < part.totalParts ∧
      unprotect Aead.plain key [7] (envelopeImage nonce (9 :: List.replicate 16 0)) = .ok [9] := by
  intro part key nonce
  obtain ⟨exact, _, bounded, _, inverse, _⟩ := framings_exact Aead.plain
  have encoded : encodeProtectedSyncPart part = .ok (partImage part) := by decide +kernel
  have decoded := (exact (partImage part) part).mpr encoded
  have guarded : protectWithNonce Aead.plain key [7] [9] nonce =
      .ok (envelopeImage nonce (9 :: List.replicate 16 0)) := by
    decide +kernel
  exact ⟨decoded, (bounded (partImage part) part decoded).2,
    inverse key [7] [9] nonce _ (by decide) guarded⟩

end PrivateContinuum.Sync
