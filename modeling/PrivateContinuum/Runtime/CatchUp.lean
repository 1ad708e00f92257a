import PrivateContinuum.Runtime.Receive

namespace PrivateContinuum.Runtime

open Std (ExtTreeMap ExtTreeSet)
open PrivateContinuum.Library PrivateContinuum.Core PrivateContinuum.Sync

variable {P : Platform} {TrustedError : Type}

/-- The outcome of a pass. `applied` lists what was observed and sealed. -/
inductive CatchUpOutcome (Revision Observed Sealed : Type) where
  | upToDate (head : Option Revision)
  | applied (head : Revision) (objectCount : Nat) (observedRevisionIds : Observed)
      (sealedLocal : Sealed)
  | cursorAdvancedWithoutSemanticObjects (head : Revision)
  | baselineUnavailable (head : Option Revision)

abbrev ScalarCatchUpOutcome (P : Platform) :=
  CatchUpOutcome P.Revision (ExtTreeSet RevisionId) (Option (ScalarRevision Bytes))

abbrev ScalarRecoveryCatchUpOutcome (P : Platform) :=
  CatchUpOutcome P.Revision (ExtTreeMap DomainKey (ExtTreeSet RevisionId))
    (ExtTreeMap DomainKey (ScalarRevision Bytes))

section Pass

variable {Live Failure Observed Sealed : Type}

/-- A head without objects: the state is stored unchanged under the new cursor. -/
def advanceCursor (encode : Live → Except Failure Bytes) (commit : SessionCommitError P → Failure)
    (head : P.Revision) : SessionRoutine P Live Failure Unit := do
  let session ← Routine.load
  let trustedState ← Routine.check (encode session.live)
  (Session.commitReceived trustedState head).mapError commit

/-- The pass that both catch-up functions make; they differ in how they receive. -/
def catchUpWith (io : SessionIoError P → Failure)
    (advance : P.Revision → SessionRoutine P Live Failure Unit)
    (receive : P.Revision → List Bytes → SessionRoutine P Live Failure (Observed × Sealed)) :
    SessionRoutine P Live Failure (CatchUpOutcome P.Revision Observed Sealed) := do
  let fetched ← Session.fetchFromDurableCursor.mapError io
  match fetched with
  | .upToDate head => pure (.upToDate head)
  | .baselineUnavailable head => pure (.baselineUnavailable head)
  | .changed head objects =>
    if objects.isEmpty then do
      advance head
      pure (.cursorAdvancedWithoutSemanticObjects head)
    else do
      let received ← receive head objects
      pure (.applied head objects.length received.1 received.2)

end Pass

structure ScalarCatchUpSpec where
  channel : Channel
  domainKey : DomainKey
  preObservationRevisionId : Option RevisionId

inductive ScalarCatchUpError (P : Platform) (TrustedError : Type) where
  | io (failure : SessionIoError P)
  | decode (failure : ScalarObjectDecodeError)
  | core (failure : CoreError)
  | trustedState (failure : TrustedError)
  | commit (failure : SessionCommitError P)
  | receive (failure : ScalarReceiveCommitError P TrustedError)

/-- The loop over decoded registers. A complete range has at least one. -/
def combineRegisters : List (ScalarRegister Bytes) → Except CoreError (ScalarRegister Bytes)
  | [] => .ok .empty
  | first :: others => others.foldlM ScalarRegister.merge first

/-- The remote register of one complete fetched range. -/
def fetchedRegister (spec : ScalarCatchUpSpec) (objects : List Bytes) :
    Except (ScalarCatchUpError P TrustedError) (ScalarRegister Bytes) := do
  let decoded ← (decodeCompleteScalarDomainObjects spec.channel spec.domainKey objects).mapError
    ScalarCatchUpError.decode
  (combineRegisters decoded).mapError ScalarCatchUpError.core

def receiveScalarDomain (codec : ScalarStateCodec TrustedError) (spec : ScalarCatchUpSpec)
    (head : P.Revision) (objects : List Bytes) :
    SessionRoutine P (LocalScalarDomain Bytes) (ScalarCatchUpError P TrustedError)
      (ExtTreeSet RevisionId × Option (ScalarRevision Bytes)) := do
  let remote ← Routine.check (fetchedRegister spec objects)
  let sealed ← (commitReceivedScalarDomain codec remote spec.preObservationRevisionId head).mapError
    ScalarCatchUpError.receive
  pure (remote.ids, sealed)

/-- `catch_up_single_scalar_domain` -/
def catchUpSingleScalarDomain (codec : ScalarStateCodec TrustedError) (spec : ScalarCatchUpSpec) :
    SessionRoutine P (LocalScalarDomain Bytes) (ScalarCatchUpError P TrustedError)
      (ScalarCatchUpOutcome P) :=
  catchUpWith ScalarCatchUpError.io
    (advanceCursor
      (fun live => (codec.encode live.snapshot).mapError ScalarCatchUpError.trustedState)
      ScalarCatchUpError.commit)
    (receiveScalarDomain codec spec)

structure ScalarRecoveryCatchUpSpec where
  channel : Channel
  preObservationRevisionIds : ExtTreeMap DomainKey RevisionId

inductive ScalarRecoveryCatchUpError (P : Platform) (TrustedError : Type) where
  | io (failure : SessionIoError P)
  | wire (failure : ProtectedPartCodecError)
  | protection (failure : SyncPartError)
  | incompleteMultipartPublications (count : Nat)
  | core (failure : CoreError)
  | recoveryState (failure : LocalScalarRecoveryStateError)
  | trustedState (failure : TrustedError)
  | commit (failure : SessionCommitError P)

/-- Complete publications are collected as they are. -/
def recoveryIntake (P : Platform) (TrustedError : Type) :
    Intake (ScalarRecoveryCatchUpError P TrustedError) ScalarSyncProjection where
  wire := .wire
  protection := .protection
  check _ := .ok ()
  complete _ projection := .ok projection

def decodeCompleteScalarProjections (channel : Channel) (encodedObjects : List Bytes) :
    Except (ScalarRecoveryCatchUpError P TrustedError) (List ScalarSyncProjection) := do
  let assembly ← (recoveryIntake P TrustedError).takeAll channel encodedObjects
  let incomplete := assembly.inbox.pendingPublications
  if incomplete ≠ 0 then throw (.incompleteMultipartPublications incomplete)
  pure assembly.completed

/-- The candidate container with the evidence gathered so far. -/
structure Observation where
  recovery : LocalScalarRecoveryState
  observedRevisionIds : ExtTreeMap DomainKey (ExtTreeSet RevisionId)
  sealedLocal : ExtTreeMap DomainKey (ScalarRevision Bytes)

/-- Loop body: one domain crosses its own observation boundary. -/
def observeProjected (pre : ExtTreeMap DomainKey RevisionId) (observation : Observation)
    (entry : DomainKey × ScalarRegister Bytes) :
    Except (ScalarRecoveryCatchUpError P TrustedError) Observation := do
  let observedRevisionIds := observation.observedRevisionIds.insert entry.1 entry.2.ids
  let restored ← (observation.recovery.restoreDomain entry.1).mapError
    ScalarRecoveryCatchUpError.core
  match restored with
  | some domain =>
    let (next, sealed) ← (onSuccess (domain.observeRemote entry.2 pre[entry.1]?)).mapError
      ScalarRecoveryCatchUpError.core
    let recovery ← (observation.recovery.replaceDomain entry.1 next.snapshot).mapError
      ScalarRecoveryCatchUpError.recoveryState
    pure ⟨recovery, observedRevisionIds, match sealed with
      | some revision => observation.sealedLocal.insert entry.1 revision
      | none => observation.sealedLocal⟩
  | none =>
    let domain ← (LocalScalarDomain.fromCausal entry.2).mapError ScalarRecoveryCatchUpError.core
    let recovery ← (observation.recovery.insertNew entry.1 domain.snapshot).mapError
      ScalarRecoveryCatchUpError.recoveryState
    pure ⟨recovery, observedRevisionIds, observation.sealedLocal⟩

/-- The merged remote projection of one complete fetched range. -/
def fetchedProjection (channel : Channel) (objects : List Bytes) :
    Except (ScalarRecoveryCatchUpError P TrustedError) ScalarSyncProjection := do
  let projections ← decodeCompleteScalarProjections channel objects
  (projections.foldlM SyncProjection.merge .empty).mapError ScalarRecoveryCatchUpError.core

/-- The candidate of one complete fetched range, with its evidence. -/
def receiveProjections (spec : ScalarRecoveryCatchUpSpec) (recovery : LocalScalarRecoveryState)
    (objects : List Bytes) : Except (ScalarRecoveryCatchUpError P TrustedError) Observation := do
  let combined ← fetchedProjection spec.channel objects
  combined.domains.toList.foldlM (observeProjected spec.preObservationRevisionIds) ⟨recovery, ∅, ∅⟩

def receiveRecoveryState (codec : RecoveryStateCodec TrustedError)
    (spec : ScalarRecoveryCatchUpSpec) (head : P.Revision) (objects : List Bytes) :
    SessionRoutine P LocalScalarRecoveryState (ScalarRecoveryCatchUpError P TrustedError)
      (ExtTreeMap DomainKey (ExtTreeSet RevisionId) ×
        ExtTreeMap DomainKey (ScalarRevision Bytes)) := do
  let session ← Routine.load
  commitCandidate ((receiveProjections spec session.live objects).map fun observation =>
      (observation.recovery, observation.observedRevisionIds, observation.sealedLocal))
    (fun live => (codec.encode live).mapError ScalarRecoveryCatchUpError.trustedState)
    fun trustedState =>
    (Session.commitReceived trustedState head).mapError ScalarRecoveryCatchUpError.commit

/-- `catch_up_scalar_recovery_state` -/
def catchUpScalarRecoveryState (codec : RecoveryStateCodec TrustedError)
    (spec : ScalarRecoveryCatchUpSpec) :
    SessionRoutine P LocalScalarRecoveryState (ScalarRecoveryCatchUpError P TrustedError)
      (ScalarRecoveryCatchUpOutcome P) :=
  catchUpWith ScalarRecoveryCatchUpError.io
    (advanceCursor
      (fun live => (codec.encode live).mapError ScalarRecoveryCatchUpError.trustedState)
      ScalarRecoveryCatchUpError.commit)
    (receiveRecoveryState codec spec)

end PrivateContinuum.Runtime
