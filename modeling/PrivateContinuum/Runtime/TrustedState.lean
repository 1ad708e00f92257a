import PrivateContinuum.Sync.ScalarFraming

/-! `APCLREC1`: the recovery encoding of one local scalar snapshot. -/

namespace PrivateContinuum.Runtime

open Std (ExtTreeSet ExtTreeMap)
open PrivateContinuum.Library PrivateContinuum.Core PrivateContinuum.Sync

namespace TrustedState

/-- `b"APCLREC1"` -/
def magic : Bytes := [65, 80, 67, 76, 82, 69, 67, 49]

def version : Nat := 1

end TrustedState

inductive TrustedStateCodecError where
  | invalidMagic
  | unsupportedVersion (version : Nat)
  | unexpectedEof
  | lengthOverflow
  | trailingBytes
  | invalidBoolean
  | duplicateRevisionInSet
  | duplicateFinalizedStatement
  | core (failure : CoreError)
deriving DecidableEq

instance : ScalarFailure TrustedStateCodecError where
  unexpectedEof := .unexpectedEof
  lengthOverflow := .lengthOverflow
  duplicateRevisionInSet := .duplicateRevisionInSet
  core := .core

/-- Recovery bytes are written and read in this error context. -/
abbrev StateEmitter := Emitter TrustedStateCodecError Unit

abbrev StateParser := Parser TrustedStateCodecError

/-- `write_register`, which validates once more. -/
def writeRegister (register : ScalarRegister Bytes) : StateEmitter := do
  liftM (register.validate.mapError TrustedStateCodecError.core)
  writeRevisions register

def writePending : Option (WorkingEpoch Bytes) → StateEmitter
  | none => emit [0]
  | some epoch => do
    emit [1]
    writeId epoch.id
    writeBytes epoch.value
    writeIdSet epoch.observedFrontier

/-- One finalized entry; the identity inside the statement is not written. -/
def writeFinalized (entry : RevisionId × FinalizedStatement Bytes) : StateEmitter := do
  writeId entry.1
  writeBytes entry.2.value
  writeIdSet entry.2.parents

def writeSnapshot (snapshot : LocalScalarSnapshot Bytes) : StateEmitter := do
  writeHeader TrustedState.magic TrustedState.version
  writeRegister snapshot.working.causal
  writePending snapshot.working.pending
  writeIdSet snapshot.finalization.localRevisionIds
  writeCounted snapshot.finalization.finalized.toList writeFinalized
  writeIdSet snapshot.finalization.exposedLocalIds
  writeIdSet snapshot.finalization.handedOffLocalIds

/-- The snapshot is validated before any byte is emitted. -/
def encodeLocalScalarSnapshot (snapshot : LocalScalarSnapshot Bytes) :
    Except TrustedStateCodecError Bytes := do
  let _ ← (LocalScalarDomain.restore snapshot).mapError TrustedStateCodecError.core
  (writeSnapshot snapshot).finish

def readPending : StateParser (Option (WorkingEpoch Bytes)) := do
  let tag ← readNat 1
  if tag = 0 then pure none
  else if tag = 1 then do
    let id ← readId
    let value ← readVec
    let observedFrontier ← readIdSet
    pure (some ⟨id, value, observedFrontier⟩)
  else throw TrustedStateCodecError.invalidBoolean

/-- Loop body over the finalized statements. -/
def readFinalized (finalized : ExtTreeMap RevisionId (FinalizedStatement Bytes)) :
    StateParser (ExtTreeMap RevisionId (FinalizedStatement Bytes)) := do
  let id ← readId
  let value ← readVec
  let parents ← readIdSet
  if id ∈ finalized then throw TrustedStateCodecError.duplicateFinalizedStatement
  else pure (finalized.insert id ⟨id, value, parents⟩)

def readAllFinalized : StateParser (ExtTreeMap RevisionId (FinalizedStatement Bytes)) := do
  let count ← readLen
  readTimes readFinalized count ∅

def readSnapshot : StateParser (LocalScalarSnapshot Bytes) := do
  readHeader TrustedState.magic TrustedState.version .invalidMagic .unsupportedVersion
  let causal ← readRegister
  let pending ← readPending
  let localRevisionIds ← readIdSet
  let finalized ← readAllFinalized
  let exposedLocalIds ← readIdSet
  let handedOffLocalIds ← readIdSet
  pure ⟨⟨causal, pending⟩, ⟨localRevisionIds, finalized, exposedLocalIds, handedOffLocalIds⟩⟩

def decodeLocalScalarSnapshot (encoded : Bytes) :
    Except TrustedStateCodecError (LocalScalarSnapshot Bytes) := do
  let snapshot ← readSnapshot.complete .trailingBytes encoded
  let _ ← (LocalScalarDomain.restore snapshot).mapError TrustedStateCodecError.core
  pure snapshot

def pendingImage : Option (WorkingEpoch Bytes) → Bytes
  | none => [0]
  | some epoch =>
    [1] ++ (epoch.id.bytes ++ (vecImage epoch.value ++ idSetImage epoch.observedFrontier))

def finalizedImage (entry : RevisionId × FinalizedStatement Bytes) : Bytes :=
  entry.1.bytes ++ (vecImage entry.2.value ++ idSetImage entry.2.parents)

/-- The bytes of a snapshot. -/
def snapshotImage (snapshot : LocalScalarSnapshot Bytes) : Bytes :=
  (TrustedState.magic ++ bigEndian 2 TrustedState.version) ++
    (registerImage snapshot.working.causal ++
      (pendingImage snapshot.working.pending ++
        (idSetImage snapshot.finalization.localRevisionIds ++
          ((bigEndian 8 snapshot.finalization.finalized.toList.length ++
              snapshot.finalization.finalized.toList.flatMap finalizedImage) ++
            (idSetImage snapshot.finalization.exposedLocalIds ++
              idSetImage snapshot.finalization.handedOffLocalIds)))))

theorem emits_register {register : ScalarRegister Bytes} (valid : register.Valid) :
    Emits (writeRegister register) (registerImage register) :=
  Emits.checked (mapError_ok_iff.mpr valid) (emits_revisions register)

theorem emits_pending (pending : Option (WorkingEpoch Bytes)) :
    Emits (writePending pending) (pendingImage pending) := by
  cases pending with
  | none => exact emits_emit [0]
  | some epoch =>
    exact (emits_emit [1]).seq
      ((emits_id epoch.id).seq ((emits_vec epoch.value).seq (emits_idSet epoch.observedFrontier)))

theorem emits_finalized (entry : RevisionId × FinalizedStatement Bytes) :
    Emits (writeFinalized entry) (finalizedImage entry) :=
  (emits_id entry.1).seq ((emits_vec entry.2.value).seq (emits_idSet entry.2.parents))

theorem finalizedImage_ne_nil (entry : RevisionId × FinalizedStatement Bytes) :
    finalizedImage entry ≠ [] := by
  intro empty
  exact id_bytes_ne_nil entry.1 (List.append_eq_nil_iff.mp empty).1

theorem emits_snapshot {snapshot : LocalScalarSnapshot Bytes}
    (valid : snapshot.working.causal.Valid) :
    Emits (writeSnapshot snapshot) (snapshotImage snapshot) :=
  (emits_header _ _).seq ((emits_register valid).seq ((emits_pending _).seq ((emits_idSet _).seq
    ((emits_writeCounted (fun entry _ => emits_finalized entry) fun entry _ =>
      finalizedImage_ne_nil entry).seq ((emits_idSet _).seq (emits_idSet _))))))

theorem reads_pending (pending : Option (WorkingEpoch Bytes)) :
    Reads readPending (pendingImage pending) pending := by
  cases pending with
  | none => exact (reads_nat (show 0 < 256 ^ 1 by decide)).last (reads_pure none)
  | some epoch =>
    refine (reads_nat (show 1 < 256 ^ 1 by decide)).bind ?_
    exact (reads_id epoch.id).bind ((reads_vecImage epoch.value).bind
      ((reads_idSet epoch.observedFrontier).last (reads_pure (some epoch))))

/-- The entries still to be read have distinct keys that are not yet stored, and
each statement carries its key. -/
private def Unstored (stored : ExtTreeMap RevisionId (FinalizedStatement Bytes))
    (rest : List (RevisionId × FinalizedStatement Bytes)) : Prop :=
  rest.Pairwise (fun left right => left.1 ≠ right.1) ∧
    ∀ entry ∈ rest, entry.1 ∉ stored ∧ entry.2.revisionId = entry.1

private theorem reads_finalized {stored : ExtTreeMap RevisionId (FinalizedStatement Bytes)}
    {entry : RevisionId × FinalizedStatement Bytes} (fresh : entry.1 ∉ stored)
    (keyed : entry.2.revisionId = entry.1) :
    Reads (readFinalized stored) (finalizedImage entry) (stored.insert entry.1 entry.2) := by
  obtain ⟨id, revisionId, value, parents⟩ := entry
  dsimp only at fresh keyed
  subst keyed
  refine (reads_id revisionId).bind ((reads_vecImage value).bind ((reads_idSet parents).last ?_))
  rw [if_neg fresh]
  exact reads_pure _

theorem reads_allFinalized {finalized : ExtTreeMap RevisionId (FinalizedStatement Bytes)}
    (keyed : ∀ (id : RevisionId) (statement : FinalizedStatement Bytes),
      finalized[id]? = some statement → statement.revisionId = id) :
    Reads readAllFinalized
      (bigEndian 8 finalized.toList.length ++ finalized.toList.flatMap finalizedImage)
        finalized := by
  apply reads_counted
  · intro entry _
    exact finalizedImage_ne_nil entry
  · have looped : Reads (readTimes readFinalized finalized.toList.length ∅)
        (finalized.toList.flatMap finalizedImage)
        (finalized.toList.foldl (fun stored entry => stored.insert entry.1 entry.2) ∅) := by
      apply reads_times Unstored
      · intro stored entry rest unstored
        obtain ⟨apart, restDistinct⟩ := List.pairwise_cons.mp unstored.1
        obtain ⟨fresh, named⟩ := unstored.2 entry List.mem_cons_self
        refine ⟨reads_finalized fresh named, restDistinct, ?_⟩
        intro other member
        obtain ⟨otherFresh, otherNamed⟩ := unstored.2 other (List.mem_cons_of_mem entry member)
        refine ⟨?_, otherNamed⟩
        rw [ExtTreeMap.mem_insert, Std.LawfulEqCmp.compare_eq_iff_eq]
        exact not_or.mpr ⟨apart other member, otherFresh⟩
      · refine ⟨toList_distinct finalized, ?_⟩
        intro entry member
        have found := ExtTreeMap.mem_toList_iff_getElem?_eq_some.mp member
        exact ⟨by simp, keyed entry.1 entry.2 found⟩
    rwa [foldl_insert_toList] at looped

theorem reads_snapshot {snapshot : LocalScalarSnapshot Bytes} {domain : LocalScalarDomain Bytes}
    (restored : LocalScalarDomain.restore snapshot = .ok domain) :
    Reads readSnapshot (snapshotImage snapshot) snapshot := by
  obtain ⟨same, _, restorable⟩ := LocalScalarDomain.restore_ok_iff.mp restored
  subst same
  have keyed : ∀ (id : RevisionId) (statement : FinalizedStatement Bytes),
      domain.finalization.finalized[id]? = some statement → statement.revisionId = id := by
    intro id statement stored
    obtain ⟨revision, found, same⟩ := restorable.frozen id statement stored
    rw [same]
    exact domain.causal.keyed id revision found
  exact (reads_header _ (by decide) _ _).bind ((reads_register restorable.causalValid).bind
    ((reads_pending _).bind ((reads_idSet _).bind ((reads_allFinalized keyed).bind
      ((reads_idSet _).bind ((reads_idSet _).last (reads_pure _)))))))

/-- Encoding succeeds exactly on the restorable snapshots whose image fits. -/
theorem encodeLocalScalarSnapshot_ok_iff {snapshot : LocalScalarSnapshot Bytes} {encoded : Bytes} :
    encodeLocalScalarSnapshot snapshot = .ok encoded ↔
      (∃ domain, LocalScalarDomain.restore snapshot = .ok domain) ∧
        (snapshotImage snapshot).length < sizeLimit ∧ encoded = snapshotImage snapshot := by
  have written : ∀ domain, LocalScalarDomain.restore snapshot = .ok domain →
      ((writeSnapshot snapshot).finish = .ok encoded ↔
        (snapshotImage snapshot).length < sizeLimit ∧ encoded = snapshotImage snapshot) := by
    intro domain restored
    obtain ⟨same, _, restorable⟩ := LocalScalarDomain.restore_ok_iff.mp restored
    have valid : snapshot.working.causal.Valid := by
      rw [← same]
      exact restorable.causalValid
    exact (emits_snapshot valid).finish_ok_iff
  simp only [encodeLocalScalarSnapshot, bind_ok_iff, mapError_ok_iff]
  constructor
  · intro done
    obtain ⟨domain, restored, finished⟩ := done
    exact ⟨⟨domain, restored⟩, (written domain restored).mp finished⟩
  · intro accepted
    obtain ⟨⟨domain, restored⟩, fits⟩ := accepted
    exact ⟨domain, restored, (written domain restored).mpr fits⟩

/-- What the decoder accepts passes `restore`. -/
theorem decodeLocalScalarSnapshot_restores {encoded : Bytes} {snapshot : LocalScalarSnapshot Bytes}
    (decoded : decodeLocalScalarSnapshot encoded = .ok snapshot) :
    ∃ domain, LocalScalarDomain.restore snapshot = .ok domain := by
  simp only [decodeLocalScalarSnapshot, bind_ok_iff, mapError_ok_iff, pure_eq_ok, Except.ok.injEq]
    at decoded
  obtain ⟨_, _, domain, restored, rfl⟩ := decoded
  exact ⟨domain, restored⟩

theorem decodeLocalScalarSnapshot_encode {snapshot : LocalScalarSnapshot Bytes} {encoded : Bytes}
    (done : encodeLocalScalarSnapshot snapshot = .ok encoded) :
    decodeLocalScalarSnapshot encoded = .ok snapshot := by
  obtain ⟨⟨domain, restored⟩, fits, rfl⟩ := encodeLocalScalarSnapshot_ok_iff.mp done
  simp only [decodeLocalScalarSnapshot, bind_ok_iff, mapError_ok_iff, pure_eq_ok, Except.ok.injEq]
  exact ⟨snapshot, (reads_snapshot restored).complete _ fits, domain, restored, rfl⟩

/-- Every reachable domain is coupled, so its snapshot restores to it and, over
bytes, encodes whenever the image fits the address space at all. -/
theorem reachable_coupled :
    (∀ (Value : Type) [DecidableEq Value] (domain : LocalScalarDomain Value), domain.Reachable →
      domain.causal.Valid ∧
      (∀ epoch, domain.pending = some epoch → epoch.observedFrontier = domain.causal.frontierIds) ∧
      (∀ id ∈ domain.finalization.handedOffLocalIds, id ∈ domain.finalization.exposedLocalIds) ∧
      (∀ id ∈ domain.finalization.exposedLocalIds, id ∈ domain.finalization.finalized) ∧
      (∀ id ∈ domain.finalization.finalized, id ∈ domain.finalization.localRevisionIds) ∧
      (∀ id ∈ domain.finalization.localRevisionIds, id ∈ domain.causal) ∧
      (∀ (id : RevisionId) (statement : FinalizedStatement Value),
        domain.finalization.finalized[id]? = some statement →
          ∃ revision, domain.causal.revision id = some revision ∧
            statement = .ofRevision revision) ∧
      (∀ id ∈ domain.finalization.exposedLocalIds,
        ∀ ancestor ∈ domain.finalization.localRevisionIds,
        domain.causal.isAncestor ancestor id = true →
        ancestor ∈ domain.finalization.exposedLocalIds) ∧
      LocalScalarDomain.restore domain.snapshot = .ok domain) ∧
    ∀ domain : LocalScalarDomain Bytes, domain.Reachable →
      (snapshotImage domain.snapshot).length < sizeLimit →
        encodeLocalScalarSnapshot domain.snapshot = .ok (snapshotImage domain.snapshot) := by
  constructor
  · intro Value _ domain reachable
    have wellformed := reachable.wellformed
    have restorable := wellformed.restorable
    have closed := wellformed.exposureClosed
    refine ⟨restorable.causalValid, wellformed.frontierCurrent, restorable.handedOffExposed,
      closed.exposedFinalized, restorable.finalizedLocal, restorable.localKnown,
      restorable.frozen, ?_,
      wellformed.restore_snapshot⟩
    intro id exposed ancestor isLocal below
    exact closed.ancestorsExposed id exposed ancestor isLocal
      (ScalarRegister.isAncestor_iff.mp below)
  · intro domain reachable fits
    have restored := reachable.wellformed.restore_snapshot
    exact encodeLocalScalarSnapshot_ok_iff.mpr ⟨⟨domain, restored⟩, fits, rfl⟩

/-- A domain that sealed, finalized and handed off one revision. -/
theorem reachable_coupled_handed_off :
    let causal : ScalarRegister Bytes := ScalarRegister.empty.put ⟨.ofByte 1, [10], ∅⟩
    let domain := LocalScalarDomain.run ⟨⟨causal, none⟩, .empty⟩ [.beginEpoch (.ofByte 7) [20],
      .sealLocal (.ofByte 2), .finalize (.ofByte 2), .handoff [.ofByte 2]]
    domain.Reachable ∧ .ofByte 2 ∈ domain.finalization.handedOffLocalIds ∧
      LocalScalarDomain.restore domain.snapshot = .ok domain ∧
      encodeLocalScalarSnapshot domain.snapshot = .ok (snapshotImage domain.snapshot) := by
  intro causal domain
  have reachable : domain.Reachable := ⟨causal, ⟨⟨causal, none⟩, .empty⟩, _,
    LocalScalarDomain.fromCausal_ok_iff.mpr ⟨by decide +kernel, rfl⟩, rfl⟩
  obtain ⟨_, _, _, _, _, _, _, _, restored⟩ := reachable_coupled.1 Bytes domain reachable
  exact ⟨reachable, by decide +kernel, restored,
    reachable_coupled.2 domain reachable (by decide +kernel)⟩

end PrivateContinuum.Runtime
