import PrivateContinuum.Runtime.CatchUp

/-! Resume passes: catch up, then retire, publish or report what is pending in the
outbox. -/

namespace PrivateContinuum.Runtime

open Std (ExtTreeMap ExtTreeSet)
open PrivateContinuum.Library PrivateContinuum.Core PrivateContinuum.Sync

variable {P : Platform} {TrustedError : Type}

inductive ResumeAction (Revision : Type) where
  | none
  | blockedByBaseline
  | needsRebase (publicationIds : ExtTreeSet PublicationId)
  | publishedAndReconciled (publicationIds : ExtTreeSet PublicationId) (head : Revision)
  | conflict (publicationIds : ExtTreeSet PublicationId) (currentHead : Option Revision)
deriving DecidableEq

structure ResumeReport (Revision Observed Sealed : Type) where
  catchUp : CatchUpOutcome Revision Observed Sealed
  observedReconciled : ExtTreeSet PublicationId
  action : ResumeAction Revision

inductive OutboxResumeError (P : Platform) (CatchUpFailure DecodeFailure : Type) where
  | catchUp (failure : CatchUpFailure)
  | pendingDecode (publicationId : PublicationId) (failure : DecodeFailure)
  | publish (failure : BatchPublishError P)
  | reconcile (failure : BatchCommitError P)

def CatchUpOutcome.isBaselineUnavailable {Revision Observed Sealed : Type} :
    CatchUpOutcome Revision Observed Sealed → Bool
  | .baselineUnavailable _ => true
  | _ => false

/-- The identities of all pending publications. -/
def pendingIds (record : DurableSyncRecord) :
    ExtTreeSet PublicationId := ExtTreeSet.ofList record.outbox.keys

/-- The entry is pending against the cursor that the record has applied. -/
def isCurrent (record : DurableSyncRecord) (id : PublicationId) : Bool :=
  record.outbox[id]?.map DurableOutboxEntry.expectedCursor = some record.appliedCursor

section Pass

variable {Live CatchUpFailure DecodeFailure Observed Sealed : Type}

/-- Loop body: whether what was observed proves that a stale publication arrived. -/
def gatherProof
    (proves : PublicationId → DurableOutboxEntry → Observed → Except DecodeFailure Bool)
    (record : DurableSyncRecord) (observed : Observed) (proven : ExtTreeSet PublicationId)
    (id : PublicationId) :
    Except (OutboxResumeError P CatchUpFailure DecodeFailure) (ExtTreeSet PublicationId) :=
  match record.outbox[id]? with
  | none => .ok proven
  | some entry => do
    let arrived ← (proves id entry observed).mapError (OutboxResumeError.pendingDecode id)
    pure (if arrived then proven.insert id else proven)

/-- Retires the stale publications that an applied range proves. -/
def reconcileObserved
    (proves : PublicationId → DurableOutboxEntry → Observed → Except DecodeFailure Bool)
    (stale : ExtTreeSet PublicationId) (caughtUp : CatchUpOutcome P.Revision Observed Sealed) :
    SessionRoutine P Live (OutboxResumeError P CatchUpFailure DecodeFailure)
      (ExtTreeSet PublicationId) :=
  match caughtUp with
  | .applied head _ observed _ => do
    let session ← Routine.load
    let proven ← Routine.check (stale.toList.foldlM (gatherProof proves session.record observed) ∅)
    if proven.isEmpty then pure proven
    else do
      (Session.commitReconciledOutboxBatch proven session.record.trustedState head).mapError
        OutboxResumeError.reconcile
      pure proven
  | _ => pure ∅

/-- Publishes the entries of the current cursor as one batch. -/
def publishCurrent (caughtUp : CatchUpOutcome P.Revision Observed Sealed)
    (proven current : ExtTreeSet PublicationId) :
    SessionRoutine P Live (OutboxResumeError P CatchUpFailure DecodeFailure)
      (ResumeReport P.Revision Observed Sealed) := do
  let outcome ← (Session.publishStagedBatch current).mapError OutboxResumeError.publish
  match outcome with
  | .published head => do
    let session ← Routine.load
    (Session.commitReconciledOutboxBatch current session.record.trustedState head).mapError
      OutboxResumeError.reconcile
    pure ⟨caughtUp, proven, .publishedAndReconciled current head⟩
  | .conflict currentHead => pure ⟨caughtUp, proven, .conflict current currentHead⟩

/-- What is stale is retired or blocks the pass; what is current is published. -/
def settleOutbox
    (proves : PublicationId → DurableOutboxEntry → Observed → Except DecodeFailure Bool)
    (pending : ExtTreeSet PublicationId) (caughtUp : CatchUpOutcome P.Revision Observed Sealed) :
    SessionRoutine P Live (OutboxResumeError P CatchUpFailure DecodeFailure)
      (ResumeReport P.Revision Observed Sealed) := do
  let session ← Routine.load
  let current := pending.filter (isCurrent session.record)
  let stale := pending.filter fun id => !isCurrent session.record id
  let proven ← reconcileObserved proves stale caughtUp
  let unresolved := stale.filter fun id => !proven.contains id
  if !unresolved.isEmpty then pure ⟨caughtUp, proven, .needsRebase unresolved⟩
  else if current.isEmpty then pure ⟨caughtUp, proven, .none⟩
  else publishCurrent caughtUp proven current

/-- The pass that both set-based resume functions make. -/
def resumeWith
    (catchUp : SessionRoutine P Live CatchUpFailure (CatchUpOutcome P.Revision Observed Sealed))
    (proves : PublicationId → DurableOutboxEntry → Observed → Except DecodeFailure Bool) :
    SessionRoutine P Live (OutboxResumeError P CatchUpFailure DecodeFailure)
      (ResumeReport P.Revision Observed Sealed) := do
  let session ← Routine.load
  let initialPending := pendingIds session.record
  let caughtUp ← catchUp.mapError OutboxResumeError.catchUp
  if caughtUp.isBaselineUnavailable then pure ⟨caughtUp, ∅, .blockedByBaseline⟩
  else if initialPending.isEmpty then pure ⟨caughtUp, ∅, .none⟩
  else settleOutbox proves initialPending caughtUp

/-- The result of one or two passes. -/
structure CycleReport (Report : Type) where
  initial : Report
  postConflict : Option Report

/-- A second pass only after a conflict. -/
def boundedWith {Failure Report : Type} (pass : SessionRoutine P Live Failure Report)
    (conflicted : Report → Bool) :
    SessionRoutine P Live Failure (CycleReport Report) := do
  let initial ← pass
  if !conflicted initial then pure ⟨initial, none⟩
  else do
    let postConflict ← pass
    pure ⟨initial, some postConflict⟩

end Pass

def ResumeAction.isConflict {Revision : Type} : ResumeAction Revision → Bool
  | .conflict _ _ => true
  | _ => false

section Single

inductive ScalarResumeOutboxOutcome (Revision : Type) where
  | none
  | blockedByBaseline
  | needsRebase (publicationId : PublicationId)
  | observedAndReconciled (publicationId : PublicationId) (head : Revision)
  | publishedAndReconciled (publicationId : PublicationId) (head : Revision)
  | conflict (publicationId : PublicationId) (currentHead : Option Revision)

structure ScalarResumeReport (P : Platform) where
  catchUp : ScalarCatchUpOutcome P
  outbox : ScalarResumeOutboxOutcome P.Revision

inductive ScalarResumeError (P : Platform) (TrustedError : Type) where
  | multiplePendingOutboxUnsupported (count : Nat)
  | catchUp (failure : ScalarCatchUpError P TrustedError)
  | pendingDecode (failure : ScalarObjectDecodeError)
  | publish (failure : SessionIoError P)
  | reconcile (failure : SessionCommitError P)

abbrev DomainRoutine (P : Platform) (Failure Value : Type) :=
  SessionRoutine P (LocalScalarDomain Bytes) Failure Value

/-- The entry is one object whose revisions were all observed. -/
def domainProves (spec : ScalarCatchUpSpec) (entry : DurableOutboxEntry)
    (observed : ExtTreeSet RevisionId) :
    Except ScalarObjectDecodeError Bool :=
  match entry.objects with
  | [object] => do
    let pending ← decodeSingleScalarDomainObject spec.channel spec.domainKey object
    pure (pending.ids.all observed.contains)
  | _ => .ok false

/-- The one stale publication: observed, or left for a rebase. -/
def settleStale (spec : ScalarCatchUpSpec) (caughtUp : ScalarCatchUpOutcome P)
    (entry : DurableOutboxEntry) (id : PublicationId) :
    DomainRoutine P (ScalarResumeError P TrustedError) (ScalarResumeReport P) :=
  match caughtUp with
  | .applied head _ observed _ => do
    let arrived ← Routine.check
      ((domainProves spec entry observed).mapError ScalarResumeError.pendingDecode)
    if arrived then do
      let session ← Routine.load
      (Session.commitReconciledOutbox id session.record.trustedState head).mapError
        ScalarResumeError.reconcile
      pure ⟨caughtUp, .observedAndReconciled id head⟩
    else pure ⟨caughtUp, .needsRebase id⟩
  | _ => pure ⟨caughtUp, .needsRebase id⟩

def publishOne (caughtUp : ScalarCatchUpOutcome P) (id : PublicationId) :
    DomainRoutine P (ScalarResumeError P TrustedError) (ScalarResumeReport P) := do
  let outcome ← (Session.publishStaged id).mapError ScalarResumeError.publish
  match outcome with
  | .published head => do
    let session ← Routine.load
    (Session.commitReconciledOutbox id session.record.trustedState head).mapError
      ScalarResumeError.reconcile
    pure ⟨caughtUp, .publishedAndReconciled id head⟩
  | .conflict currentHead => pure ⟨caughtUp, .conflict id currentHead⟩

/-- What follows the catch-up when one publication was pending. -/
def settleOne (spec : ScalarCatchUpSpec) (caughtUp : ScalarCatchUpOutcome P) (id : PublicationId) :
    DomainRoutine P (ScalarResumeError P TrustedError) (ScalarResumeReport P) := do
  let session ← Routine.load
  match session.record.outbox[id]? with
  | none => pure ⟨caughtUp, .none⟩
  | some entry =>
    if entry.expectedCursor ≠ session.record.appliedCursor then settleStale spec caughtUp entry id
    else publishOne caughtUp id

def resumeSingleScalarDomain (codec : ScalarStateCodec TrustedError) (spec : ScalarCatchUpSpec) :
    DomainRoutine P (ScalarResumeError P TrustedError) (ScalarResumeReport P) := do
  let session ← Routine.load
  let pendingCount := session.record.outbox.size
  if pendingCount > 1 then Routine.check (.error (.multiplePendingOutboxUnsupported pendingCount))
  else do
    let pendingPublication := session.record.outbox.keys.head?
    let caughtUp ← (catchUpSingleScalarDomain codec spec).mapError ScalarResumeError.catchUp
    if caughtUp.isBaselineUnavailable then pure ⟨caughtUp, .blockedByBaseline⟩
    else match pendingPublication with
      | none => pure ⟨caughtUp, .none⟩
      | some id => settleOne spec caughtUp id

def resumeSingleScalarDomainBounded (codec : ScalarStateCodec TrustedError)
    (spec : ScalarCatchUpSpec) :
    DomainRoutine P (ScalarResumeError P TrustedError) (CycleReport (ScalarResumeReport P)) :=
  boundedWith (resumeSingleScalarDomain codec spec) fun report => match report.outbox with
    | .conflict _ _ => true
    | _ => false

end Single

abbrev ScalarBatchResumeError (P : Platform) (TrustedError : Type) :=
  OutboxResumeError P (ScalarCatchUpError P TrustedError) ScalarObjectDecodeError

abbrev ScalarBatchResumeReport (P : Platform) :=
  ResumeReport P.Revision (ExtTreeSet RevisionId) (Option (ScalarRevision Bytes))

def resumeScalarOutboxSet (codec : ScalarStateCodec TrustedError) (spec : ScalarCatchUpSpec) :
    DomainRoutine P (ScalarBatchResumeError P TrustedError) (ScalarBatchResumeReport P) :=
  resumeWith (catchUpSingleScalarDomain codec spec) fun _ entry observed =>
    domainProves spec entry observed

def resumeScalarOutboxSetBounded (codec : ScalarStateCodec TrustedError)
    (spec : ScalarCatchUpSpec) :
    DomainRoutine P (ScalarBatchResumeError P TrustedError)
      (CycleReport (ScalarBatchResumeReport P)) :=
  boundedWith (resumeScalarOutboxSet codec spec) fun report => report.action.isConflict

section Recovery

inductive PendingRecoveryPublicationDecodeError where
  | emptyObjectSet
  | wire (failure : ProtectedPartCodecError)
  | publicationIdMismatch (expected actual : PublicationId)
  | protection (failure : SyncPartError)
  | incompleteMultipartPublication
  | multipleCompletedPublications

/-- Every part must name the publication, and only one publication may complete. -/
def pendingIntake (expected : PublicationId) :
    Intake PendingRecoveryPublicationDecodeError ScalarSyncProjection where
  wire := .wire
  protection := .protection
  check part :=
    if part.publicationId ≠ expected then
      .error (.publicationIdMismatch expected part.publicationId) else .ok ()
  complete completed projection :=
    if completed.isEmpty then .ok projection else .error .multipleCompletedPublications

def decodePendingRecoveryPublication (channel : Channel) (expected : PublicationId)
    (objects : List Bytes) :
    Except PendingRecoveryPublicationDecodeError ScalarSyncProjection := do
  if objects.isEmpty then throw .emptyObjectSet
  let assembly ← (pendingIntake expected).takeAll channel objects
  if assembly.inbox.pendingPublications ≠ 0 then throw .incompleteMultipartPublication
  match assembly.completed.head? with
  | none => throw .incompleteMultipartPublication
  | some projection => pure projection

/-- Every revision of every domain of the projection was observed there. -/
def projectionIsObserved (projection : ScalarSyncProjection)
    (observed : ExtTreeMap DomainKey (ExtTreeSet RevisionId)) : Bool :=
  projection.domains.toList.all fun entry => match observed[entry.1]? with
    | none => false
    | some ids => entry.2.ids.all ids.contains

def recoveryProves (channel : Channel) (id : PublicationId) (entry : DurableOutboxEntry)
    (observed : ExtTreeMap DomainKey (ExtTreeSet RevisionId)) :
    Except PendingRecoveryPublicationDecodeError Bool := do
  let pending ← decodePendingRecoveryPublication channel id entry.objects
  pure (projectionIsObserved pending observed)

abbrev ScalarRecoveryResumeError (P : Platform) (TrustedError : Type) :=
  OutboxResumeError P (ScalarRecoveryCatchUpError P TrustedError)
    PendingRecoveryPublicationDecodeError

abbrev ScalarRecoveryResumeReport (P : Platform) :=
  ResumeReport P.Revision (ExtTreeMap DomainKey (ExtTreeSet RevisionId))
    (ExtTreeMap DomainKey (ScalarRevision Bytes))

abbrev RecoveryRoutine (P : Platform) (Failure Value : Type) :=
  SessionRoutine P LocalScalarRecoveryState Failure Value

def resumeScalarRecoveryOutboxSet (codec : RecoveryStateCodec TrustedError)
    (spec : ScalarRecoveryCatchUpSpec) :
    RecoveryRoutine P (ScalarRecoveryResumeError P TrustedError) (ScalarRecoveryResumeReport P) :=
  resumeWith (catchUpScalarRecoveryState codec spec) (recoveryProves spec.channel)

def resumeScalarRecoveryOutboxSetBounded (codec : RecoveryStateCodec TrustedError)
    (spec : ScalarRecoveryCatchUpSpec) :
    RecoveryRoutine P (ScalarRecoveryResumeError P TrustedError)
      (CycleReport (ScalarRecoveryResumeReport P)) :=
  boundedWith (resumeScalarRecoveryOutboxSet codec spec) fun report => report.action.isConflict

end Recovery

end PrivateContinuum.Runtime
