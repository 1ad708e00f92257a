import PrivateContinuum.Runtime.TrustedStateSet
import PrivateContinuum.Sync.Conduct
import PrivateContinuum.Sync.Protected

namespace PrivateContinuum.Runtime

open Std (ExtTreeMap ExtTreeSet)
open PrivateContinuum.Library PrivateContinuum.Core PrivateContinuum.Sync

variable {P : Platform} {TrustedError : Type}

/-- `TrustedStateCodec`: how a trusted state becomes the bytes of a record. -/
structure TrustedStateCodec (Error State : Type) where
  encode : State → Except Error Bytes
  decode : Bytes → Except Error State

def developmentScalarTrustedStateCodec :
    TrustedStateCodec TrustedStateCodecError (LocalScalarSnapshot Bytes) :=
  ⟨encodeLocalScalarSnapshot, decodeLocalScalarSnapshot⟩

def developmentMultiScalarTrustedStateCodec :
    TrustedStateCodec MultiScalarTrustedStateCodecError LocalScalarRecoveryState :=
  ⟨encodeMultiScalarRecoveryState, decodeMultiScalarRecoveryState⟩

abbrev ScalarStateCodec (TrustedError : Type) :=
  TrustedStateCodec TrustedError (LocalScalarSnapshot Bytes)

abbrev RecoveryStateCodec (TrustedError : Type) :=
  TrustedStateCodec TrustedError LocalScalarRecoveryState

/-- One revision of a closure, as the projection carries it. -/
def knownRevision (causal : ScalarRegister Bytes) (revisionId : RevisionId) :
    Except CoreError (ScalarRevision Bytes) :=
  match causal.revision revisionId with
  | some revision => .ok revision
  | none => .error (.unknownRevision revisionId)

/-- The selected revisions with all that they depend on. The handoff rule decides
on a throwaway copy whether they may leave. -/
def projectClosure (domain : LocalScalarDomain Bytes) (selected : ExtTreeSet RevisionId) :
    Except CoreError (ScalarRegister Bytes) := do
  (domain.handoff selected.toList).1
  let closure ← domain.causal.dependencyClosure selected
  let revisions ← closure.toList.mapM (knownRevision domain.causal)
  ScalarRegister.fromRevisions revisions

inductive ScalarPublicationPrepareError where
  | emptyRevisionSet
  | core (failure : CoreError)
  | protection (failure : SyncPartError)
  | wire (failure : ProtectedPartCodecError)

structure ProtectedPublication where
  publicationId : PublicationId
  objects : List Bytes

structure PreparedScalarHandoff where
  revisionIds : ExtTreeSet RevisionId
  publication : ProtectedPublication

def prepareScalarHandoff (domain : LocalScalarDomain Bytes) (domainKey : DomainKey)
    (channel : Channel) (publicationId : PublicationId) (revisionIds : ExtTreeSet RevisionId)
    (generated : Option Nonce) :
    Except ScalarPublicationPrepareError PreparedScalarHandoff := do
  if revisionIds.isEmpty then throw .emptyRevisionSet
  let register ← (projectClosure domain revisionIds).mapError ScalarPublicationPrepareError.core
  let projection : ScalarSyncProjection :=
    ⟨(∅ : ExtTreeMap DomainKey (ScalarRegister Bytes)).insert domainKey register⟩
  let part ← (protectScalarPart channel publicationId 0 1 projection generated).mapError
    ScalarPublicationPrepareError.protection
  let wire ← (encodeProtectedSyncPart part).mapError ScalarPublicationPrepareError.wire
  pure ⟨revisionIds, publicationId, [wire]⟩

inductive RecoveryPublicationPrepareError where
  | emptySelection
  | emptyRevisionSet (domainKey : DomainKey)
  | missingDomain (domainKey : DomainKey)
  | core (failure : CoreError)
  | protection (failure : SyncPartError)
  | wire (failure : ProtectedPartCodecError)

/-- One protected publication over several domains, with the revisions it was
selected by. -/
structure PreparedRecoveryHandoff where
  revisionIds : ExtTreeMap DomainKey (ExtTreeSet RevisionId)
  publicationId : PublicationId
  objects : List Bytes

/-- Loop body of `prepare_recovery_handoff`. -/
def projectDomain (recovery : LocalScalarRecoveryState)
    (projected : ExtTreeMap DomainKey (ScalarRegister Bytes))
    (entry : DomainKey × ExtTreeSet RevisionId) :
    Except RecoveryPublicationPrepareError (ExtTreeMap DomainKey (ScalarRegister Bytes)) := do
  if entry.2.isEmpty then throw (.emptyRevisionSet entry.1)
  let restored ← (recovery.restoreDomain entry.1).mapError RecoveryPublicationPrepareError.core
  match restored with
  | none => throw (.missingDomain entry.1)
  | some domain =>
    let register ← (projectClosure domain entry.2).mapError RecoveryPublicationPrepareError.core
    pure (projected.insert entry.1 register)

def prepareRecoveryHandoff (recovery : LocalScalarRecoveryState) (channel : Channel)
    (publicationId : PublicationId) (revisionIds : ExtTreeMap DomainKey (ExtTreeSet RevisionId))
    (generated : Option Nonce) :
    Except RecoveryPublicationPrepareError PreparedRecoveryHandoff := do
  if revisionIds.isEmpty then throw .emptySelection
  let projected ← revisionIds.toList.foldlM (projectDomain recovery) ∅
  let part ← (protectScalarPart channel publicationId 0 1 ⟨projected⟩ generated).mapError
    RecoveryPublicationPrepareError.protection
  let wire ← (encodeProtectedSyncPart part).mapError RecoveryPublicationPrepareError.wire
  pure ⟨revisionIds, publicationId, [wire]⟩

/-- The order that every runtime transition follows: a candidate state, its
encoding, the durable commit, and only then the live state. -/
def commitCandidate {Live Failure Result : Type} (candidate : Except Failure (Live × Result))
    (encode : Live → Except Failure Bytes) (commit : Bytes → SessionRoutine P Live Failure Unit) :
    SessionRoutine P Live Failure Result := do
  let (live, result) ← Routine.check candidate
  let trustedState ← Routine.check (encode live)
  commit trustedState
  let session ← Routine.load
  Routine.store { session with live }
  pure result

inductive ScalarHandoffStageError (P : Platform) (TrustedError : Type) where
  | core (failure : CoreError)
  | codec (failure : TrustedError)
  | sync (failure : PersistTransitionError P)

def stagePreparedScalarHandoff (codec : ScalarStateCodec TrustedError)
    (prepared : PreparedScalarHandoff) :
    SessionRoutine P (LocalScalarDomain Bytes) (ScalarHandoffStageError P TrustedError) Unit := do
  let session ← Routine.load
  commitCandidate ((onSuccess (session.live.handoff prepared.revisionIds.toList)).mapError
      ScalarHandoffStageError.core)
    (fun live => (codec.encode live.snapshot).mapError ScalarHandoffStageError.codec)
    fun trustedState => (Session.stageOutbound trustedState prepared.publication.publicationId
      prepared.publication.objects).mapError ScalarHandoffStageError.sync

inductive RecoveryHandoffStageError (P : Platform) (TrustedError : Type) where
  | missingDomain (domainKey : DomainKey)
  | core (failure : CoreError)
  | recoveryState (failure : LocalScalarRecoveryStateError)
  | codec (failure : TrustedError)
  | sync (failure : PersistTransitionError P)

/-- Loop body of `stage_prepared_recovery_handoff`. -/
def handOffDomain (candidate : LocalScalarRecoveryState)
    (entry : DomainKey × ExtTreeSet RevisionId) :
    Except (RecoveryHandoffStageError P TrustedError) LocalScalarRecoveryState := do
  let restored ← (candidate.restoreDomain entry.1).mapError RecoveryHandoffStageError.core
  match restored with
  | none => throw (.missingDomain entry.1)
  | some domain =>
    let (next, _) ← (onSuccess (domain.handoff entry.2.toList)).mapError
      RecoveryHandoffStageError.core
    (candidate.replaceDomain entry.1 next.snapshot).mapError RecoveryHandoffStageError.recoveryState

def stagePreparedRecoveryHandoff (codec : RecoveryStateCodec TrustedError)
    (prepared : PreparedRecoveryHandoff) :
    SessionRoutine P LocalScalarRecoveryState (RecoveryHandoffStageError P TrustedError) Unit := do
  let session ← Routine.load
  commitCandidate ((prepared.revisionIds.toList.foldlM handOffDomain session.live).map fun live =>
    (live, ())) (fun live => (codec.encode live).mapError RecoveryHandoffStageError.codec)
    fun trustedState =>
      (Session.stageOutbound trustedState prepared.publicationId prepared.objects).mapError
      RecoveryHandoffStageError.sync

section Conduct

variable {Live World Failure Result : Type} {conduct : Conduct P Live World}
  {session : Session Live} {world : World}

/-- A promise that a runtime function keeps whatever its outcome, with facts about
its result. -/
def Settled (conduct : Conduct P Live World) (world : World)
    (facts : Result → Session Live → World → Prop) (outcome : Except Failure Result)
    (stored : Session Live) (now : World) : Prop :=
  conduct.Holds stored now ∧ conduct.Knows world now ∧ ∀ result, outcome = .ok result →
    facts result stored now

theorem settled_of_committed {Wrapped : Type} (wrap : Failure → Wrapped) {live : Live}
    {commit : SessionRoutine P Live Failure Unit} {records : DurableSyncRecord → World → Prop}
    (result : Result) (valid : conduct.Valid world)
    (committed : conduct.Ensures commit session world
      (conduct.Committed session live world records)) :
    conduct.Ensures (do
      commit.mapError wrap
      let stored ← Routine.load
      Routine.store { stored with live }
      pure result : SessionRoutine P Live Wrapped Result) session world
      (Settled conduct world fun found stored now =>
        found = result ∧ stored.live = live ∧ records stored.record now) := by
  have wrapped : conduct.Ensures (commit.mapError wrap) session world
      (conduct.Committed session live world records) := by
    apply Surroundings.Ensures.mapError valid committed
    intro outcome stored now _ reached
    cases outcome with
    | ok value => exact reached
    | error failure => exact reached
  apply Surroundings.Ensures.bind valid wrapped
  · intro _ stored now _ reached
    obtain ⟨knows, _, holds, described⟩ := reached
    refine ⟨holds, knows, ?_⟩
    intro found same
    cases same
    exact ⟨rfl, rfl, described⟩
  · intro failure stored now _ reached
    obtain ⟨knows, same, holds⟩ := reached
    subst same
    exact ⟨holds, knows, fun found impossible => by cases impossible⟩

/-- A candidate becomes the live state only together with its durable record. -/
theorem ensures_commitCandidate {Wrapped : Type} {wrap : Failure → Wrapped}
    {candidate : Except Wrapped (Live × Result)} {encode : Live → Except Wrapped Bytes}
    {commit : Bytes → SessionRoutine P Live Failure Unit}
    {records : Live → Bytes → DurableSyncRecord → World → Prop} (valid : conduct.Valid world)
    (holds : conduct.Holds session world)
    (committed : ∀ live result trusted, candidate = .ok (live, result) → encode live = .ok trusted →
      conduct.Ensures (commit trusted) session world
        (conduct.Committed session live world (records live trusted))) :
    conduct.Ensures (commitCandidate candidate encode fun trusted =>
      (commit trusted).mapError wrap) session world (Settled conduct world fun result stored now =>
        ∃ trusted, candidate = .ok (stored.live, result) ∧ encode stored.live = .ok trusted ∧
          records stored.live trusted stored.record now) := by
  cases built : candidate with
  | error failure => exact ⟨holds, Conduct.Knows.refl world,
      fun result impossible => by cases impossible⟩
  | ok pair =>
    obtain ⟨live, result⟩ := pair
    cases encoded : encode live with
    | error failure =>
      change conduct.Ensures (Routine.check (encode live) >>= _) session world _
      rw [encoded]
      exact ⟨holds, Conduct.Knows.refl world, fun result impossible => by cases impossible⟩
    | ok trusted =>
      have tail :=
        settled_of_committed wrap result valid (committed live result trusted built encoded)
      change conduct.Ensures (Routine.check (encode live) >>= _) session world _
      rw [encoded]
      apply Surroundings.Ensures.weaken valid tail
      intro outcome stored now _ reached
      refine ⟨reached.1, reached.2.1, ?_⟩
      intro found same
      obtain ⟨sameResult, sameLive, described⟩ := reached.2.2 found same
      subst sameResult
      rw [sameLive]
      exact ⟨trusted, rfl, encoded, described⟩

end Conduct

section Staging

variable {World : Type}

theorem ensures_stagePreparedScalarHandoff {conduct : Conduct P (LocalScalarDomain Bytes) World}
    {session : Session (LocalScalarDomain Bytes)} {world : World}
    {codec : ScalarStateCodec TrustedError} {prepared : PreparedScalarHandoff}
    (valid : conduct.Valid world) (holds : conduct.Holds session world)
    (may : ∀ live trusted next, session.live.handoff prepared.revisionIds.toList = (.ok (), live) →
      codec.encode live.snapshot = .ok trusted →
      session.record.prepareOutbox trusted prepared.publication.publicationId
      session.record.appliedCursor prepared.publication.objects = .ok next →
      conduct.MayBecome session ⟨live, next⟩ world) :
    conduct.Ensures (stagePreparedScalarHandoff codec prepared) session world
      (Settled conduct world fun _ _ _ => True) := by
  apply Conduct.ensures_load
  apply Surroundings.Ensures.weaken valid
  · apply ensures_commitCandidate valid holds
    intro live result trusted built encoded
    apply Conduct.ensures_stageOutbound valid holds
    intro next staged
    exact may live trusted next (onSuccess_ok_iff.mp (mapError_ok_iff.mp built))
      (mapError_ok_iff.mp encoded) staged
  · intro outcome stored now _ reached
    exact ⟨reached.1, reached.2.1, fun _ _ => trivial⟩

theorem ensures_stagePreparedRecoveryHandoff {conduct : Conduct P LocalScalarRecoveryState World}
    {session : Session LocalScalarRecoveryState} {world : World}
    {codec : RecoveryStateCodec TrustedError} {prepared : PreparedRecoveryHandoff}
    (valid : conduct.Valid world) (holds : conduct.Holds session world)
    (may : ∀ live trusted next, prepared.revisionIds.toList.foldlM (handOffDomain : _ → _ →
      Except (RecoveryHandoffStageError P TrustedError) _) session.live = .ok live →
      codec.encode live = .ok trusted →
      session.record.prepareOutbox trusted prepared.publicationId session.record.appliedCursor
      prepared.objects = .ok next → conduct.MayBecome session ⟨live, next⟩ world) :
    conduct.Ensures (stagePreparedRecoveryHandoff codec prepared) session world
      (Settled conduct world fun _ _ _ => True) := by
  apply Conduct.ensures_load
  apply Surroundings.Ensures.weaken valid
  · apply ensures_commitCandidate valid holds
    intro live result trusted built encoded
    apply Conduct.ensures_stageOutbound valid holds
    intro next staged
    refine may live trusted next ?_ (mapError_ok_iff.mp encoded) staged
    cases folded : prepared.revisionIds.toList.foldlM handOffDomain session.live with
    | error failure => simp [folded, Except.map] at built
    | ok last =>
      simp only [folded, Except.map, Except.ok.injEq, Prod.mk.injEq] at built
      rw [built.1]
  · intro outcome stored now _ reached
    exact ⟨reached.1, reached.2.1, fun _ _ => trivial⟩

end Staging

end PrivateContinuum.Runtime
