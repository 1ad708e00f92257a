import PrivateContinuum.Library.Interaction
import PrivateContinuum.Sync.Recovery

/-! The session layer: clone, persist, then swap, over a transport, a record store
and a cursor codec that may answer anything. -/

namespace PrivateContinuum.Sync

open Std (ExtTreeMap ExtTreeSet)
open PrivateContinuum.Library PrivateContinuum.Core

/-- The associated types of the transport, the cursor codec and the store. -/
structure Platform where
  Revision : Type
  TransportError : Type
  CursorError : Type
  StoreError : Type

inductive FetchOutcome (Revision : Type) where
  | upToDate (head : Option Revision)
  | changed (head : Revision) (objects : List Bytes)
  | baselineUnavailable (head : Option Revision)

inductive PublishOutcome (Revision : Type) where
  | published (head : Revision)
  | conflict (currentHead : Option Revision)

variable {P : Platform} {Live : Type}

/-- The calls that leave the session layer: cursor codec, transport and store. -/
inductive SessionOp (P : Platform) where
  | encodeCursor (revision : P.Revision)
  | decodeCursor (cursor : TransportCursor)
  | fetchSince (known : Option P.Revision)
  | publish (expected : Option P.Revision) (objects : List Bytes)
  | persist (record : DurableSyncRecord)

def SessionOp.Answer : SessionOp P → Type
  | .encodeCursor _ => Except P.CursorError TransportCursor
  | .decodeCursor _ => Except P.CursorError P.Revision
  | .fetchSince _ => Except P.TransportError (FetchOutcome P.Revision)
  | .publish _ _ => Except P.TransportError (PublishOutcome P.Revision)
  | .persist _ => Except P.StoreError Unit

/-- The two values that a caller hands over mutably: its live state and the record. -/
structure Session (Live : Type) where
  live : Live
  record : DurableSyncRecord

abbrev SessionRoutine (P : Platform) (Live Failure Value : Type) :=
  Routine (SessionOp P) SessionOp.Answer (Session Live) Failure Value

inductive PersistTransitionError (P : Platform) where
  | recovery (failure : SyncRecoveryError)
  | store (failure : P.StoreError)

inductive SessionIoError (P : Platform) where
  | recovery (failure : SyncRecoveryError)
  | transport (failure : P.TransportError)
  | cursor (failure : P.CursorError)

inductive SessionCommitError (P : Platform) where
  | recovery (failure : SyncRecoveryError)
  | store (failure : P.StoreError)
  | cursor (failure : P.CursorError)

inductive BatchPublishError (P : Platform) where
  | emptyBatch
  | recovery (failure : SyncRecoveryError)
  | mixedExpectedCursor
  | cursor (failure : P.CursorError)
  | transport (failure : P.TransportError)

inductive BatchCommitError (P : Platform) where
  | emptyBatch
  | recovery (failure : SyncRecoveryError)
  | cursor (failure : P.CursorError)
  | store (failure : P.StoreError)

namespace Session

open Routine

def encodeCursor (revision : P.Revision) : SessionRoutine P Live P.CursorError TransportCursor :=
  ask (.encodeCursor revision) id

def decodeCursor (cursor : TransportCursor) : SessionRoutine P Live P.CursorError P.Revision :=
  ask (.decodeCursor cursor) id

/-- `cursor.map(decode).transpose()` -/
def decodeOptional :
    Option TransportCursor → SessionRoutine P Live P.CursorError (Option P.Revision)
  | none => pure none
  | some cursor => do
    let revision ← decodeCursor cursor
    pure (some revision)

def fetchSince (known : Option P.Revision) :
    SessionRoutine P Live P.TransportError (FetchOutcome P.Revision) :=
  ask (.fetchSince known) id

def publish (expected : Option P.Revision) (objects : List Bytes) :
    SessionRoutine P Live P.TransportError (PublishOutcome P.Revision) :=
  ask (.publish expected objects) id

def persist (record : DurableSyncRecord) : SessionRoutine P Live P.StoreError Unit :=
  ask (.persist record) id

/-- `*record = next` -/
def swapRecord {Failure : Type} (next : DurableSyncRecord) :
    SessionRoutine P Live Failure Unit := do
  let session ← load
  store { session with record := next }

def stageOutbound (exposedTrustedState : Bytes) (publicationId : PublicationId)
    (protectedObjects : List Bytes) : SessionRoutine P Live (PersistTransitionError P) Unit := do
  let session ← load
  let next ← check ((session.record.prepareOutbox exposedTrustedState publicationId
    session.record.appliedCursor protectedObjects).mapError PersistTransitionError.recovery)
  (persist next).mapError PersistTransitionError.store
  swapRecord next

def publishStaged (publicationId : PublicationId) :
    SessionRoutine P Live (SessionIoError P) (PublishOutcome P.Revision) := do
  let session ← load
  match session.record.outbox[publicationId]? with
  | none => check (.error (.recovery .unknownOutboxPublication))
  | some entry =>
    let expected ← (decodeOptional entry.expectedCursor).mapError SessionIoError.cursor
    (publish expected entry.objects).mapError SessionIoError.transport

def fetchFromDurableCursor :
    SessionRoutine P Live (SessionIoError P) (FetchOutcome P.Revision) := do
  let session ← load
  let known ← (decodeOptional session.record.appliedCursor).mapError SessionIoError.cursor
  (fetchSince known).mapError SessionIoError.transport

def commitReceived (mergedTrustedState : Bytes) (newHead : P.Revision) :
    SessionRoutine P Live (SessionCommitError P) Unit := do
  let cursor ← (encodeCursor newHead).mapError SessionCommitError.cursor
  let session ← load
  let next := session.record.applyReceived mergedTrustedState cursor
  (persist next).mapError SessionCommitError.store
  swapRecord next

def commitReconciledOutbox (publicationId : PublicationId) (reconciledTrustedState : Bytes)
    (newHead : P.Revision) : SessionRoutine P Live (SessionCommitError P) Unit := do
  let cursor ← (encodeCursor newHead).mapError SessionCommitError.cursor
  let session ← load
  let next ← check
    ((session.record.retireOutbox publicationId reconciledTrustedState cursor).mapError
    SessionCommitError.recovery)
  (persist next).mapError SessionCommitError.store
  swapRecord next

/-- Loop body of `publish_staged_batch`: the common cursor so far and the objects. -/
def gatherEntry (record : DurableSyncRecord)
    (gathered : Option (Option TransportCursor) × List Bytes) (publicationId : PublicationId) :
    Except (BatchPublishError P) (Option (Option TransportCursor) × List Bytes) :=
  match record.outbox[publicationId]? with
  | none => .error (.recovery .unknownOutboxPublication)
  | some entry => match gathered.1 with
    | none => .ok (some entry.expectedCursor, gathered.2 ++ entry.objects)
    | some expected =>
      if expected ≠ entry.expectedCursor then .error .mixedExpectedCursor
      else .ok (some expected, gathered.2 ++ entry.objects)

def publishStagedBatch (publicationIds : ExtTreeSet PublicationId) :
    SessionRoutine P Live (BatchPublishError P) (PublishOutcome P.Revision) := do
  if publicationIds.isEmpty then check (.error .emptyBatch)
  else
    let session ← load
    let gathered ← check (publicationIds.toList.foldlM (gatherEntry session.record) (none, []))
    let expected ← (decodeOptional gathered.1.join).mapError BatchPublishError.cursor
    (publish expected gathered.2).mapError BatchPublishError.transport

def commitReconciledOutboxBatch (publicationIds : ExtTreeSet PublicationId)
    (reconciledTrustedState : Bytes) (newHead : P.Revision) :
    SessionRoutine P Live (BatchCommitError P) Unit := do
  if publicationIds.isEmpty then check (.error .emptyBatch)
  else
    let cursor ← (encodeCursor newHead).mapError BatchCommitError.cursor
    let session ← load
    let next ← check
      ((session.record.retireAll publicationIds reconciledTrustedState cursor).mapError
      BatchCommitError.recovery)
    (persist next).mapError BatchCommitError.store
    swapRecord next

/-- Replacement material for one stale publication. -/
structure OutboxRebase where
  stalePublicationId : PublicationId
  rebasedTrustedState : Bytes
  newPublicationId : PublicationId
  newProtectedObjects : List Bytes

def commitRebasedOutbox (rebase : OutboxRebase) (newHead : P.Revision) :
    SessionRoutine P Live (SessionCommitError P) Unit := do
  if rebase.stalePublicationId = rebase.newPublicationId then
    check (.error (.recovery .publicationIdentityCollision))
  else
    let cursor ← (encodeCursor newHead).mapError SessionCommitError.cursor
    let session ← load
    let retired ← check
      ((session.record.retireOutbox rebase.stalePublicationId rebase.rebasedTrustedState
      cursor).mapError SessionCommitError.recovery)
    let next ← check
      ((retired.prepareOutbox rebase.rebasedTrustedState rebase.newPublicationId (some cursor)
      rebase.newProtectedObjects).mapError SessionCommitError.recovery)
    (persist next).mapError SessionCommitError.store
    swapRecord next

end Session

end PrivateContinuum.Sync
