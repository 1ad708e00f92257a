import PrivateContinuum.Sync.Protected
import PrivateContinuum.Sync.ProjectionFormat
import PrivateContinuum.Sync.RecordStore

namespace PrivateContinuum.Sync

open Std (ExtTreeMap)
open PrivateContinuum.Library PrivateContinuum.Core

theorem bigEndian_injective {width one other : Nat} (bounded : one < 256 ^ width)
    (otherBounded : other < 256 ^ width)
    (same : bigEndian width one = bigEndian width other) : one = other := by
  rw [← fromBigEndian_bigEndian bounded, ← fromBigEndian_bigEndian otherBounded, same]

theorem bigEndian_uint32 {one other : UInt32}
    (same : bigEndian 4 one.toNat = bigEndian 4 other.toNat) : one = other :=
  UInt32.toNat.inj (bigEndian_injective one.toNat_lt other.toNat_lt same)

/-- Every field has its own width, so the context can be taken apart again. -/
theorem partContext_injective {continuumId otherContinuum : ContinuumId}
    {publicationId otherPublication : PublicationId}
    {partIndex otherIndex totalParts otherTotal : UInt32}
    (same : partContext continuumId publicationId partIndex totalParts =
      partContext otherContinuum otherPublication otherIndex otherTotal) :
    continuumId = otherContinuum ∧ publicationId = otherPublication ∧ partIndex = otherIndex ∧
      totalParts = otherTotal := by
  unfold partContext at same
  obtain ⟨upToIndex, totals⟩ := List.append_inj' same (by simp)
  obtain ⟨upToPublication, indexes⟩ := List.append_inj' upToIndex (by simp)
  obtain ⟨upToContinuum, publications⟩ := List.append_inj' upToPublication
    (publicationId.width.trans otherPublication.width.symm)
  obtain ⟨_, continua⟩ :=
    List.append_inj' upToContinuum (continuumId.width.trans otherContinuum.width.symm)
  exact ⟨LogicalId.ext_bytes continua, LogicalId.ext_bytes publications, bigEndian_uint32 indexes,
    bigEndian_uint32 totals⟩

/-- The separators of parts and of records differ in their eighth byte. -/
theorem partContext_ne_protectionContext (continuumId : ContinuumId) (publicationId : PublicationId)
    (partIndex totalParts : UInt32) (context : Bytes) :
    partContext continuumId publicationId partIndex totalParts ≠ recordContextDomain ++
      context := by
  intro same
  have prefixes := congrArg (List.take 8) same
  simp only [partContext, List.append_assoc] at prefixes
  rw [List.take_append_of_le_length (by decide),
    List.take_append_of_le_length (by decide)] at prefixes
  revert prefixes
  decide

/-- A call that encrypts under the key, with the nonce that it drew. -/
inductive KeyUse where
  | protectPart (continuumId : ContinuumId) (publicationId : PublicationId)
      (partIndex totalParts : UInt32) (projection : ScalarSyncProjection) (nonce : Nonce)
  | persist (context : Bytes) (record : DurableSyncRecord) (nonce : Nonce)

namespace KeyUse

def nonce : KeyUse → Nonce
  | .protectPart _ _ _ _ _ nonce => nonce
  | .persist _ _ nonce => nonce

def context : KeyUse → Bytes
  | .protectPart continuumId publicationId partIndex totalParts _ _ =>
    partContext continuumId publicationId partIndex totalParts
  | .persist context _ _ => recordContextDomain ++ context

def plaintext : KeyUse → Option Bytes
  | .protectPart _ _ _ _ projection _ => (encodeScalarProjection projection).toOption
  | .persist _ record _ => (encodeDurableSyncRecord record).toOption

/-- The encryption that the call makes, and what comes out. -/
structure Encrypts (use : KeyUse) (aead : Aead) (key : ContentKey) (nonce : Nonce)
    (aad plaintext ciphertext : Bytes) : Prop where
  drawn : use.nonce = nonce
  bound : buildAad use.context = aad
  encoded : use.plaintext = some plaintext
  encrypted : aead.encrypt key nonce aad plaintext = some ciphertext

end KeyUse

/-- The cipher as an ideal one for a key and the uses made of it: of the ciphertexts
that are ever presented, only those that a use produced under the same nonce and
associated data decrypt. -/
def Authentic (aead : Aead) (key : ContentKey) (uses : KeyUse → Prop)
    (presented : Bytes → Prop) : Prop :=
  ∀ {nonce aad ciphertext plaintext}, presented ciphertext →
    aead.decrypt key nonce aad ciphertext = some plaintext →
    ∃ use, uses use ∧ use.Encrypts aead key nonce aad plaintext ciphertext

theorem buildAad_injective {one other : Bytes}
    (same : buildAad one = buildAad other) : one = other :=
  List.append_cancel_left same

variable {aead : Aead} {key : ContentKey} {uses : KeyUse → Prop} {presented : Bytes → Prop}

/-- Accepted bytes are the envelope of a use under exactly this context. -/
theorem Authentic.unprotect_ok (authentic : Authentic aead key uses presented)
    {context envelope plaintext : Bytes}
    (shown : presented (envelope.drop Protection.headerBytes))
    (done : unprotect aead key context envelope = .ok plaintext) :
    ∃ use, uses use ∧ use.context = context ∧ use.plaintext = some plaintext ∧
      protect aead key context plaintext (some use.nonce) = .ok envelope := by
  obtain ⟨nonce, ciphertext, same, fits, filled, decrypted⟩ := Sync.unprotect_ok done
  have body : envelope.drop Protection.headerBytes = ciphertext := by
    rw [same]
    exact (envelopeImage_slices nonce ciphertext).2.2.2.2.2
  rw [body] at shown
  obtain ⟨use, used, encrypts⟩ := authentic shown decrypted
  have drawn := encrypts.drawn
  subst drawn
  refine ⟨use, used, buildAad_injective encrypts.bound, encrypts.encoded, ?_⟩
  rw [same] at fits ⊢
  exact protect_ok filled encrypts.encrypted fits

/-- A completed loop has met named domains only. -/
theorem readTimes_named {entries : List (DomainKey × ScalarRegister Bytes)}
    {domains last : ExtTreeMap DomainKey (ScalarRegister Bytes)} {before after : Bytes}
    {rest : Reader}
    (fits : (before ++ (entries.flatMap projectedImage ++ after)).length < sizeLimit)
    (valid : ∀ entry ∈ entries, entry.2.Valid)
    (done : readTimes readProjected entries.length domains
      ⟨before ++ (entries.flatMap projectedImage ++ after), before.length⟩ = .ok (last, rest)) :
    ∀ entry ∈ entries, entry.1.domain ≠ [] := by
  induction entries generalizing domains before with
  | nil => simp
  | cons entry others ih =>
    have byEntry : before ++ ((entry :: others).flatMap projectedImage ++ after) =
        before ++ (projectedImage entry ++ (others.flatMap projectedImage ++ after)) := by simp
    have byField : before ++ ((entry :: others).flatMap projectedImage ++ after) =
        before ++ (entry.1.atomId.bytes ++ (vecImage entry.1.domain ++
          (registerImage entry.2 ++ (others.flatMap projectedImage ++ after)))) := by
          simp [projectedImage]
    have behindId : before ++ ((entry :: others).flatMap projectedImage ++ after) =
        (before ++ entry.1.atomId.bytes) ++ (vecImage entry.1.domain ++
          (registerImage entry.2 ++ (others.flatMap projectedImage ++ after))) := by
          simp [projectedImage]
    have behindEntry : before ++ ((entry :: others).flatMap projectedImage ++ after) =
        (before ++ projectedImage entry) ++ (others.flatMap projectedImage ++ after) := by simp
    obtain ⟨next, middle, stepped, later⟩ := parser_bind_ok_iff.mp done
    have fields := stepped
    simp only [readProjected, parser_bind_ok_iff, parser_check_ok_iff, mapError_ok_iff] at fields
    obtain ⟨atomId, _, readAtom, domain, _, readName, key, _, ⟨created, _⟩, _, _, _, placed⟩ :=
      fields
    rw [byField] at readAtom fits
    obtain ⟨sameAtom, stands⟩ := (reads_id entry.1.atomId).determined fits readAtom
    subst stands
    rw [← byField, behindId] at readName
    rw [← byField, behindId] at fits
    obtain ⟨sameName, _⟩ := (reads_vecImage entry.1.domain).determined fits readName
    subst sameAtom
    subst sameName
    obtain ⟨named, keyed⟩ := createKey_ok_iff.mp created
    have fresh : entry.1 ∉ domains := by
      intro taken
      rw [if_pos (by rwa [keyed])] at placed
      cases placed
    rw [← behindId, byEntry] at fits
    rw [byEntry] at stepped
    obtain ⟨_, stood⟩ :=
      (reads_projected fresh named (valid entry List.mem_cons_self)).determined fits stepped
    subst stood
    rw [← byEntry, behindEntry] at later fits
    rw [List.forall_mem_cons]
    exact ⟨named,
      ih fits (fun other member => valid other (List.mem_cons_of_mem entry member)) later⟩

theorem encodeScalarProjection_valid {projection : ScalarSyncProjection} {encoded : Bytes}
    (done : encodeScalarProjection projection = .ok encoded) : projection.AllValid := by
  intro key register found
  have member : (key, register) ∈ projection.domains.toList :=
    ExtTreeMap.mem_toList_iff_getElem?_eq_some.mpr found
  obtain ⟨result, ran⟩ := finish_ok done
  obtain ⟨_, _, counted⟩ := emitter_seq_ok_iff.mp ran
  obtain ⟨_, _, looped⟩ := emitter_seq_ok_iff.mp counted
  obtain ⟨before, after, written⟩ := forM_emitted looped (key, register) member
  cases validated : register.validate with
  | ok checked => exact validated
  | error failure =>
    simp only [writeProjected, validated] at written
    cases written

/-- What an encoded projection decodes to is the projection. -/
theorem decode_encode_eq {projection decoded : ScalarSyncProjection} {encoded : Bytes}
    (done : encodeScalarProjection projection = .ok encoded)
    (opened : decodeScalarProjection encoded = .ok decoded) :
    decoded = projection := by
  have valid := encodeScalarProjection_valid done
  obtain ⟨fits, same⟩ := (encodeScalarProjection_ok_iff valid).mp done
  have named : projection.KeysNamed := by
    intro key register found
    have member : (key, register) ∈ projection.domains.toList :=
      ExtTreeMap.mem_toList_iff_getElem?_eq_some.mpr found
    have shorter := length_le_flatMap fun entry (_ : entry ∈ projection.domains.toList) =>
      projectedImage_ne_nil entry
    have bounded : projection.domains.toList.length < sizeLimit := by
      simp only [projectionImage, List.length_append] at fits
      omega
    have byHeader : projectionImage projection = [] ++
        ((Codec.magic ++ bigEndian 2 Codec.version) ++
        (bigEndian 8 projection.domains.toList.length ++
          projection.domains.toList.flatMap projectedImage)) := rfl
    have byEntries : projectionImage projection = ((Codec.magic ++ bigEndian 2 Codec.version) ++
        bigEndian 8 projection.domains.toList.length) ++
          (projection.domains.toList.flatMap projectedImage ++ []) := by simp [projectionImage]
    obtain ⟨_, ran, _⟩ := Parser.complete_ok opened
    simp only [readProjection, parser_bind_ok_iff] at ran
    obtain ⟨_, _, header, _, _, counted, domains, _, looped, _⟩ := ran
    rw [same, byHeader] at header
    obtain ⟨_, stands⟩ := (reads_header Codec.magic (by decide) SyncCodecError.invalidMagic
      SyncCodecError.unsupportedVersion).determined (byHeader ▸ fits) header
    subst stands
    obtain ⟨count, stood⟩ := (reads_len bounded).determined (byHeader ▸ fits) counted
    subst count
    subst stood
    change readTimes readProjected _ ∅ ⟨projectionImage projection, _⟩ = _ at looped
    rw [byEntries] at looped fits
    refine readTimes_named fits ?_ looped (key, register) member
    intro entry listed
    exact valid entry.1 entry.2 (ScalarSyncProjection.get_of_mem listed)
  have back := decodeScalarProjection_encode ⟨valid, named⟩ done
  rw [opened] at back
  exact Except.ok.inj back

/-- An opened part was protected under the same key with the same labels and exactly
this projection. -/
theorem Authentic.unprotectScalarPart_ok (authentic : Authentic aead key uses presented)
    {continuumId : ContinuumId} {part : ProtectedSyncPart} {projection : ScalarSyncProjection}
    (shown : presented (part.payload.drop Protection.headerBytes))
    (done : unprotectScalarPart ⟨aead, key, continuumId⟩ part = .ok projection) :
    ∃ nonce,
      uses (.protectPart continuumId part.publicationId part.partIndex part.totalParts
        projection nonce) ∧
      protectScalarPart ⟨aead, key, continuumId⟩ part.publicationId part.partIndex
        part.totalParts projection (some nonce) = .ok part := by
  simp only [unprotectScalarPart, bind_ok_iff, mapError_ok_iff] at done
  obtain ⟨⟨⟩, metadata, clear, opened, found, decoded, done⟩ := done
  split at done
  · simp at done
  rename_i filled
  simp only [pure_eq_ok, Except.ok.injEq] at done
  subst done
  obtain ⟨use, used, context, plaintext, sealed⟩ := authentic.unprotect_ok shown opened
  cases use with
  | persist storeContext record nonce =>
    exact absurd context.symm (partContext_ne_protectionContext _ _ _ _ _)
  | protectPart madeContinuum madePublication madeIndex madeTotal made nonce =>
    obtain ⟨sameContinuum, samePublication, sameIndex, sameTotal⟩ := partContext_injective context
    subst sameContinuum
    subst samePublication
    subst sameIndex
    subst sameTotal
    have encoded : encodeScalarProjection made = .ok clear := toOption_eq_some_iff.mp plaintext
    have exact_ : found = made := decode_encode_eq encoded decoded
    subst exact_
    refine ⟨nonce, used, ?_⟩
    simp only [protectScalarPart, bind_ok_iff]
    refine ⟨(), metadata, ?_⟩
    rw [if_neg filled]
    simp only [pure_eq_ok, bind_ok_iff, mapError_ok_iff, Except.ok.injEq]
    exact ⟨clear, encoded, part.payload, sealed, rfl⟩

/-- An opened record was persisted under the same key and context. -/
theorem Authentic.openRecord_ok {Failure : Type} {store : ProtectedSyncRecordStore}
    (authentic : Authentic store.aead store.key uses presented) {envelope : Bytes}
    {record : DurableSyncRecord} (shown : presented (envelope.drop Protection.headerBytes))
    (done : (store.openRecord envelope : Except (ProtectedSyncStoreError Failure) _) = .ok record) :
    ∃ nonce, uses (.persist store.context record nonce) ∧
      (store.sealRecord record (some nonce) : Except (ProtectedSyncStoreError Failure) _) =
        .ok envelope := by
  simp only [ProtectedSyncRecordStore.openRecord, bind_ok_iff, mapError_ok_iff] at done
  obtain ⟨clear, opened, decoded⟩ := done
  obtain ⟨use, used, context, plaintext, sealed⟩ := authentic.unprotect_ok shown opened
  cases use with
  | protectPart madeContinuum madePublication madeIndex madeTotal made nonce =>
    exact absurd context (partContext_ne_protectionContext _ _ _ _ _)
  | persist storeContext made nonce =>
    have sameContext : storeContext = store.context := List.append_cancel_left context
    subst sameContext
    have encoded : encodeDurableSyncRecord made = .ok clear := toOption_eq_some_iff.mp plaintext
    have exact_ : record = made := by
      have back := decodeDurableSyncRecord_encode encoded
      rw [decoded] at back
      exact Except.ok.inj back
    subst exact_
    refine ⟨nonce, used, ?_⟩
    simp only [ProtectedSyncRecordStore.sealRecord, bind_ok_iff, mapError_ok_iff]
    exact ⟨clear, encoded, sealed⟩

/-- The payload that a call produced, if it succeeded. -/
def KeyUse.Produced (aead : Aead) (key : ContentKey) : KeyUse → Bytes → Prop
  | .protectPart continuumId publicationId partIndex totalParts projection nonce, payload =>
    protectScalarPart ⟨aead, key, continuumId⟩ publicationId partIndex totalParts projection
      (some nonce) = .ok ⟨publicationId, partIndex, totalParts, payload⟩
  | .persist context record nonce, payload => ∃ filled : context ≠ [],
    (ProtectedSyncRecordStore.sealRecord ⟨aead, key, context, filled⟩ record (some nonce) :
      Except (ProtectedSyncStoreError Empty) _) = .ok payload

theorem protect_nonce {context plaintext payload : Bytes} {nonce : Nonce}
    (done : protect aead key context plaintext (some nonce) = .ok payload) :
    slice payload 11 24 = nonce.1 := by
  unfold protect at done
  split at done
  · cases done
  change protectWithNonce aead key context plaintext nonce = .ok payload at done
  unfold protectWithNonce at done
  split at done
  · cases done
  rename_i ciphertext _
  obtain ⟨_, rfl⟩ := (emits_envelope nonce ciphertext).finish_ok_iff.mp done
  exact (envelopeImage_slices nonce ciphertext).2.2.2.1

/-- A payload carries the nonce of the call that produced it. -/
theorem KeyUse.Produced.nonce_eq {use : KeyUse} {payload : Bytes}
    (produced : use.Produced aead key payload) :
    slice payload 11 24 = use.nonce.1 := by
  cases use with
  | protectPart continuumId publicationId partIndex totalParts projection nonce =>
    have done : protectScalarPart _ _ _ _ _ _ = .ok _ := produced
    simp only [protectScalarPart, bind_ok_iff] at done
    obtain ⟨⟨⟩, _, done⟩ := done
    split at done
    · simp at done
    simp only [pure_eq_ok, bind_ok_iff, mapError_ok_iff, Except.ok.injEq] at done
    obtain ⟨_, _, _, sealed, same⟩ := done
    cases same
    exact protect_nonce sealed
  | persist context record nonce =>
    obtain ⟨_, done⟩ := produced
    simp only [ProtectedSyncRecordStore.sealRecord, bind_ok_iff, mapError_ok_iff] at done
    obtain ⟨_, _, sealed⟩ := done
    exact protect_nonce sealed

/-- The nonces of calls that protect parts are not those of calls that persist records. -/
def NoncesApart (uses : KeyUse → Prop) : Prop :=
  ∀ continuumId publicationId partIndex totalParts projection nonce context record other,
    uses (.protectPart continuumId publicationId partIndex totalParts projection nonce) →
      uses (.persist context record other) → nonce ≠ other

/-- Protected bytes are bound to their context: contexts of parts are injective and never
those of a store, an accepted part or record was produced for exactly these labels and
contents, all else is refused, and parts and records never pass for each other. -/
theorem protected_context_binding :
    (∀ continuumId publicationId partIndex totalParts otherContinuum otherPublication
      otherIndex otherTotal, partContext continuumId publicationId partIndex totalParts =
          partContext otherContinuum otherPublication otherIndex otherTotal →
        continuumId = otherContinuum ∧ publicationId = otherPublication ∧ partIndex = otherIndex ∧
          totalParts = otherTotal) ∧
    (∀ continuumId publicationId partIndex totalParts, ∀ store : ProtectedSyncRecordStore,
      partContext continuumId publicationId partIndex totalParts ≠ store.protectionContext) ∧
    ∀ (aead : Aead) (key : ContentKey) (uses : KeyUse → Prop) (presented : Bytes → Prop),
      Authentic aead key uses presented →
      (∀ continuumId part projection, presented (part.payload.drop Protection.headerBytes) →
        unprotectScalarPart ⟨aead, key, continuumId⟩ part = .ok projection → ∃ nonce,
          uses (.protectPart continuumId part.publicationId part.partIndex part.totalParts
            projection nonce) ∧
          protectScalarPart ⟨aead, key, continuumId⟩ part.publicationId part.partIndex
            part.totalParts projection (some nonce) = .ok part) ∧
      (∀ continuumId part, presented (part.payload.drop Protection.headerBytes) →
        (∀ projection nonce,
          protectScalarPart ⟨aead, key, continuumId⟩ part.publicationId part.partIndex
          part.totalParts projection (some nonce) = .ok part →
            ¬ uses (.protectPart continuumId part.publicationId part.partIndex part.totalParts
              projection nonce)) →
        ∃ failure, unprotectScalarPart ⟨aead, key, continuumId⟩ part = .error failure) ∧
      (∀ context (filled : context ≠ []) envelope record,
        presented (envelope.drop Protection.headerBytes) →
        ProtectedSyncRecordStore.openCommitted ⟨aead, key, context, filled⟩ (some envelope) =
            (.ok (some record) : Except (ProtectedSyncStoreError Empty) _) → ∃ nonce,
          uses (.persist context record nonce) ∧
          (ProtectedSyncRecordStore.sealRecord ⟨aead, key, context, filled⟩ record (some nonce) :
            Except (ProtectedSyncStoreError Empty) _) = .ok envelope) ∧
      (NoncesApart uses → ∀ use payload, uses use → use.Produced aead key payload →
        presented (payload.drop Protection.headerBytes) →
        match use with
        | .protectPart .. => ∀ context (filled : context ≠ []), ∃ failure,
          ProtectedSyncRecordStore.openCommitted ⟨aead, key, context, filled⟩ (some payload) =
            (.error failure : Except (ProtectedSyncStoreError Empty) _)
        | .persist .. => ∀ continuumId publicationId partIndex totalParts, ∃ failure,
          unprotectScalarPart ⟨aead, key, continuumId⟩ ⟨publicationId, partIndex,
            totalParts, payload⟩ = .error failure) := by
  refine ⟨fun _ _ _ _ _ _ _ _ same => partContext_injective same,
    fun _ _ _ _ store => partContext_ne_protectionContext _ _ _ _ store.context, ?_⟩
  intro aead key uses presented authentic
  have opens :
      ∀ (context : Bytes) (filled : context ≠ []) (envelope : Bytes) (record : DurableSyncRecord),
      ProtectedSyncRecordStore.openCommitted ⟨aead, key, context, filled⟩ (some envelope) =
        (.ok (some record) : Except (ProtectedSyncStoreError Empty) _) →
      (ProtectedSyncRecordStore.openRecord ⟨aead, key, context, filled⟩ envelope :
        Except (ProtectedSyncStoreError Empty) _) = .ok record := by
    intro context filled envelope record done
    simp only [ProtectedSyncRecordStore.openCommitted, bind_ok_iff, pure_eq_ok, Except.ok.injEq,
      Option.some.injEq] at done
    obtain ⟨found, opened, same⟩ := done
    exact same ▸ opened
  refine ⟨?_, ?_, ?_, ?_⟩
  · intro continuumId part projection shown done
    exact authentic.unprotectScalarPart_ok shown done
  · intro continuumId part shown unused
    cases outcome : unprotectScalarPart ⟨aead, key, continuumId⟩ part with
    | error failure => exact ⟨failure, rfl⟩
    | ok projection =>
      obtain ⟨nonce, used, made⟩ := authentic.unprotectScalarPart_ok shown outcome
      exact absurd used (unused projection nonce made)
  · intro context filled envelope record shown done
    exact @Authentic.openRecord_ok uses presented Empty ⟨aead, key, context,
      filled⟩ authentic envelope record shown (opens context filled envelope record done)
  · intro apart use payload used produced shown
    have drawn := produced.nonce_eq
    cases use with
    | protectPart continuumId publicationId partIndex totalParts projection nonce =>
      intro context filled
      cases outcome : (ProtectedSyncRecordStore.openRecord ⟨aead, key, context, filled⟩ payload :
          Except (ProtectedSyncStoreError Empty) _) with
      | error failure =>
        refine ⟨failure, ?_⟩
        simp only [ProtectedSyncRecordStore.openCommitted, outcome]
        rfl
      | ok record =>
        obtain ⟨other, otherUsed, sealed⟩ :=
          @Authentic.openRecord_ok uses presented Empty ⟨aead, key, context,
            filled⟩ authentic payload record shown outcome
        have otherDrawn :=
          (show KeyUse.Produced aead key (.persist context record other) payload from
          ⟨filled, sealed⟩).nonce_eq
        have same : nonce = other := Subtype.ext (drawn.symm.trans otherDrawn)
        exact absurd same (apart _ _ _ _ _ _ _ _ _ used otherUsed)
    | persist context record nonce =>
      intro continuumId publicationId partIndex totalParts
      cases outcome : unprotectScalarPart ⟨aead, key, continuumId⟩ ⟨publicationId, partIndex,
        totalParts, payload⟩ with
      | error failure => exact ⟨failure, rfl⟩
      | ok projection =>
        obtain ⟨other, otherUsed, made⟩ := authentic.unprotectScalarPart_ok shown outcome
        have otherDrawn := (show KeyUse.Produced aead key
          (.protectPart continuumId publicationId partIndex totalParts projection other) payload
            from made).nonce_eq
        have same : other = nonce := Subtype.ext (otherDrawn.symm.trans drawn)
        exact absurd same (apart _ _ _ _ _ _ _ _ _ otherUsed used)

/-- A message with the nonce and the associated data that it was encrypted under. -/
structure SealedMessage where
  nonce : Nonce
  aad : Bytes
  plaintext : Bytes
deriving DecidableEq

def KeyUse.message (use : KeyUse) : Option SealedMessage :=
  use.plaintext.map fun plaintext => ⟨use.nonce, buildAad use.context, plaintext⟩

/-- A cipher that has encrypted the listed messages and decrypts nothing else. -/
def Aead.listed (key : ContentKey) (messages : List SealedMessage) : Aead where
  encrypt := fun usedKey nonce aad plaintext =>
    if usedKey = key ∧ ⟨nonce, aad, plaintext⟩ ∈ messages then
      some (plaintext ++ List.replicate Protection.tagBytes 0)
    else none
  decrypt := fun usedKey nonce aad ciphertext =>
    let plaintext := ciphertext.take (ciphertext.length - Protection.tagBytes)
    if usedKey = key ∧ ⟨nonce, aad, plaintext⟩ ∈ messages ∧
      ciphertext = plaintext ++ List.replicate Protection.tagBytes 0 then some plaintext
    else none
  decrypt_encrypt := by
    intro usedKey nonce aad plaintext ciphertext encrypted
    split at encrypted
    · rename_i sealed
      cases encrypted
      simpa using sealed
    · cases encrypted
  tagged := by
    intro usedKey nonce aad plaintext ciphertext encrypted
    split at encrypted
    · cases encrypted
      simp
    · cases encrypted

theorem Aead.listed_encrypt {uses : List KeyUse} {use : KeyUse} {plaintext : Bytes}
    (used : use ∈ uses) (encoded : use.plaintext = some plaintext) :
    (Aead.listed key (uses.filterMap KeyUse.message)).encrypt key use.nonce
      (buildAad use.context) plaintext =
      some (plaintext ++ List.replicate Protection.tagBytes 0) := by
  refine if_pos ⟨rfl, List.mem_filterMap.mpr ⟨use, used, ?_⟩⟩
  rw [KeyUse.message, encoded, Option.map_some]

theorem Aead.listed_authentic {uses : List KeyUse} :
    Authentic (Aead.listed key (uses.filterMap KeyUse.message)) key (· ∈ uses) presented := by
  intro nonce aad ciphertext plaintext _ decrypted
  simp only [Aead.listed] at decrypted
  split at decrypted
  · rename_i accepted
    obtain ⟨_, listed, whole⟩ := accepted
    cases decrypted
    obtain ⟨use, used, sealed⟩ := List.mem_filterMap.mp listed
    obtain ⟨clear, encoded, same⟩ := Option.map_eq_some_iff.mp sealed
    obtain ⟨drawn, bound, plain⟩ := SealedMessage.mk.inj same
    subst drawn
    subst bound
    rw [plain] at encoded
    refine ⟨use, used, rfl, rfl, encoded, (Aead.listed_encrypt used encoded).trans ?_⟩
    rw [← whole]
  · cases decrypted

theorem KeyUse.plaintext_protectPart {continuumId : ContinuumId} {publicationId : PublicationId}
    {partIndex totalParts : UInt32} {projection : ScalarSyncProjection} {nonce : Nonce}
    {clear : Bytes} (encoded : encodeScalarProjection projection = .ok clear) :
    (KeyUse.protectPart continuumId publicationId partIndex totalParts projection nonce).plaintext =
      some clear := by
  rw [KeyUse.plaintext, encoded]
  rfl

theorem KeyUse.plaintext_persist {context clear : Bytes} {record : DurableSyncRecord}
    {nonce : Nonce} (encoded : encodeDurableSyncRecord record = .ok clear) :
    (KeyUse.persist context record nonce).plaintext = some clear := by
  rw [KeyUse.plaintext, encoded]
  rfl

theorem protectScalarPart_ok {channel : Channel} {publicationId : PublicationId}
    {partIndex totalParts : UInt32} {projection : ScalarSyncProjection} {nonce : Nonce}
    {clear ciphertext : Bytes} (metadata : validatePartMetadata partIndex totalParts = .ok ())
    (filled : projection.isEmpty = false)
    (encoded : encodeScalarProjection projection = .ok clear)
    (encrypted : channel.aead.encrypt channel.key nonce
      (buildAad (partContext channel.continuumId publicationId partIndex totalParts)) clear =
      some ciphertext)
    (fits : (envelopeImage nonce ciphertext).length < sizeLimit) :
    protectScalarPart channel publicationId partIndex totalParts projection (some nonce) =
      .ok ⟨publicationId, partIndex, totalParts, envelopeImage nonce ciphertext⟩ := by
  have present : partContext channel.continuumId publicationId partIndex totalParts ≠ [] := by
    simp [partContext, syncPartContextDomain]
  simp only [protectScalarPart, bind_ok_iff]
  refine ⟨(), metadata, ?_⟩
  rw [filled, if_neg Bool.false_ne_true]
  simp only [pure_eq_ok, bind_ok_iff, mapError_ok_iff, Except.ok.injEq]
  exact ⟨clear, encoded, _, protect_ok present encrypted fits, rfl⟩

theorem sealRecord_ok {Failure : Type} {store : ProtectedSyncRecordStore}
    {record : DurableSyncRecord} {nonce : Nonce} {clear ciphertext : Bytes}
    (encoded : encodeDurableSyncRecord record = .ok clear)
    (encrypted : store.aead.encrypt store.key nonce (buildAad store.protectionContext) clear =
      some ciphertext)
    (fits : (envelopeImage nonce ciphertext).length < sizeLimit) :
    store.sealRecord record (some nonce) =
      (.ok (envelopeImage nonce ciphertext) : Except (ProtectedSyncStoreError Failure) _) := by
  have present : store.protectionContext ≠ [] := by
    simp [ProtectedSyncRecordStore.protectionContext, recordContextDomain]
  simp only [ProtectedSyncRecordStore.sealRecord, bind_ok_iff, mapError_ok_iff]
  exact ⟨clear, encoded, protect_ok present encrypted fits⟩

/-- A part and a record under one key: the part is refused in another continuum and by
every record store, and the record passes for no part. -/
theorem protected_context_binding_replayed :
    let key : ContentKey := ⟨List.replicate 32 7, by decide⟩
    let nonce : Nonce := ⟨List.replicate 24 5, by decide⟩
    let other : Nonce := ⟨List.replicate 24 6, by decide⟩
    let projection : ScalarSyncProjection :=
      .single ⟨.ofByte 5, [98]⟩ (ScalarRegister.empty.put ⟨.ofByte 1, [10], ∅⟩)
    let record : DurableSyncRecord := .create [4] none
    let uses : List KeyUse :=
      [.protectPart (.ofByte 9) (.ofByte 3) 0 1 projection nonce, .persist [1] record other]
    let aead : Aead := .listed key (uses.filterMap KeyUse.message)
    NoncesApart (· ∈ uses) ∧ ∃ payload envelope,
      protectScalarPart ⟨aead, key, .ofByte 9⟩ (.ofByte 3) 0 1 projection (some nonce) =
        .ok ⟨.ofByte 3, 0, 1, payload⟩ ∧
      ProtectedSyncRecordStore.sealRecord ⟨aead, key, [1], by decide⟩ record (some other) =
        (.ok envelope : Except (ProtectedSyncStoreError Empty) _) ∧
      (∃ failure, unprotectScalarPart ⟨aead, key, .ofByte 8⟩ ⟨.ofByte 3, 0, 1, payload⟩ =
        .error failure) ∧
      (∃ failure,
        ProtectedSyncRecordStore.openCommitted ⟨aead, key, [1], by decide⟩ (some payload) =
        (.error failure : Except (ProtectedSyncStoreError Empty) _)) ∧
      ∀ continuumId publicationId partIndex totalParts, ∃ failure,
        unprotectScalarPart ⟨aead, key, continuumId⟩ ⟨publicationId, partIndex,
          totalParts, envelope⟩ = .error failure := by
  intro key nonce other projection record uses aead
  have apart : NoncesApart (· ∈ uses) := by
    intro continuumId publicationId partIndex totalParts made drawn context stored also
      part persisted same
    simp only [uses, List.mem_cons, List.not_mem_nil, or_false, reduceCtorEq,
      false_or] at part persisted
    rw [(KeyUse.protectPart.inj part).2.2.2.2.2, (KeyUse.persist.inj persisted).2.2] at same
    revert same
    decide
  have encoded : encodeScalarProjection projection = .ok (projectionImage projection) := by
    refine (encodeScalarProjection_ok_iff ?_).mpr ⟨by decide +kernel, rfl⟩
    intro name register stored
    rw [(SyncProjection.get_single.mp stored).2]
    decide +kernel
  have kept : encodeDurableSyncRecord record = .ok (recordImage record) :=
    encodeDurableSyncRecord_ok_iff.mpr ⟨by decide +kernel, rfl⟩
  have first : KeyUse.protectPart (.ofByte 9) (.ofByte 3) 0 1 projection nonce ∈ uses :=
    List.mem_cons_self
  have second : KeyUse.persist [1] record other ∈ uses :=
    List.mem_cons_of_mem _ (List.mem_singleton_self _)
  have encrypted := @Aead.listed_encrypt key uses _ _ first (KeyUse.plaintext_protectPart encoded)
  have sealed := @Aead.listed_encrypt key uses _ _ second (KeyUse.plaintext_persist kept)
  have made :=
    @protectScalarPart_ok ⟨aead, key, .ofByte 9⟩ (.ofByte 3) 0 1 projection nonce _ _ (by decide)
    (by decide +kernel) encoded encrypted (by decide +kernel)
  have stored := @sealRecord_ok Empty ⟨aead, key, [1], by decide⟩ record other _ _ kept sealed
    (by decide +kernel)
  have authentic := @Aead.listed_authentic key (fun _ => True) uses
  have bound := protected_context_binding.2.2 aead key (· ∈ uses) (fun _ => True) authentic
  refine ⟨apart, _, _, made, stored, ?_, ?_, ?_⟩
  · refine bound.2.1 (.ofByte 8) _ trivial ?_
    intro opened drawn _ impossible
    simp only [uses, List.mem_cons, List.not_mem_nil, or_false, reduceCtorEq] at impossible
    exact absurd (KeyUse.protectPart.inj impossible).1 (by decide)
  · exact bound.2.2.2 apart _ _ first made trivial [1] (by decide)
  · exact bound.2.2.2 apart _ _ second ⟨by decide, stored⟩ trivial

end PrivateContinuum.Sync
