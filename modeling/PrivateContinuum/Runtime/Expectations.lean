import PrivateContinuum.Runtime.ResumeDiscipline

namespace PrivateContinuum.Runtime

open Std (ExtTreeMap ExtTreeSet)
open PrivateContinuum.Library PrivateContinuum.Core PrivateContinuum.Sync

variable {P : Platform} {TrustedError : Type}

section Batch

variable {record : DurableSyncRecord} {gathered : Option (Option TransportCursor) × List Bytes}

theorem gatherEntry_class {start : Option (Option TransportCursor) × List Bytes}
    {id : PublicationId}
    (step : (Session.gatherEntry record start id : Except (BatchPublishError P) _) = .ok gathered) :
    gathered.1 ≠ none := by
  unfold Session.gatherEntry at step
  split at step
  · cases step
  · split at step
    · cases step
      simp
    · split at step
      · cases step
      · cases step
        simp

/-- A batch that is gathered has a cursor class. -/
theorem gather_class {ids : ExtTreeSet PublicationId} (filled : ids.isEmpty = false)
    (done : ids.toList.foldlM (Session.gatherEntry record : _ → _ →
      Except (BatchPublishError P) _) (none, []) = .ok gathered) : gathered.1 ≠ none := by
  cases listed : ids.toList with
  | nil =>
    rw [← ExtTreeSet.isEmpty_toList, listed] at filled
    cases filled
  | cons id rest =>
    rw [listed, List.foldlM_cons, bind_ok_iff] at done
    obtain ⟨next, stepped, finished⟩ := done
    exact foldlM_invariant (fun state : Option (Option TransportCursor) × List Bytes =>
      state.1 ≠ none)
      (fun _ _ _ _ _ step => gatherEntry_class step) (gatherEntry_class stepped) finished

end Batch

/-- A stored part makes its publication non-empty. -/
theorem store_filled {pending filled : PendingPublication} {part : ProtectedSyncPart}
    {clear : ScalarSyncProjection} (done : pending.store part clear = .ok filled) :
    filled.parts.toList ≠ [] := by
  intro none
  have empty : filled.parts = ∅ := by
    rw [← ExtTreeMap.isEmpty_iff, ← ExtTreeMap.isEmpty_toList, none]
    rfl
  have stored := PendingPublication.store_present done
  rw [empty] at stored
  simp at stored

theorem decodeDomainObjects_filled {channel : Channel} {key : DomainKey} {objects : List Bytes}
    {decoded : List (ScalarRegister Bytes)} (some_ : objects ≠ [])
    (done : decodeCompleteScalarDomainObjects channel key objects = .ok decoded) :
    decoded ≠ [] := by
  rw [decodeCompleteScalarDomainObjects, bind_ok_iff] at done
  obtain ⟨assembly, taken, done⟩ := done
  dsimp only at done
  split at done
  · cases done
  · rename_i complete
    cases done
    exact Intake.takeAll_delivers some_ taken (not_not.mp complete)

/-- The values that a pass takes for granted are there: the outbox entries after
catch-up, the cursor class of a batch, the registers of a range, and the completed
publication with a part. -/
structure ExpectationsHold {Live CatchUpFailure Observed Sealed : Type}
    (catchUp : SessionRoutine P Live CatchUpFailure (CatchUpOutcome P.Revision Observed Sealed))
    (session : Session Live) : Prop where
  lookups : ∀ events caughtUp caught, (catchUp session).Traces events (.ok caughtUp, caught) →
    ∀ id ∈ pendingIds session.record, ∃ entry, caught.record.outbox[id]? = some entry
  cursorClass : ∀ record (ids : ExtTreeSet PublicationId) gathered, ids.isEmpty = false →
    ids.toList.foldlM (Session.gatherEntry record : _ → _ →
      Except (BatchPublishError P) _) (none, []) = .ok gathered → gathered.1 ≠ none
  range : ∀ channel key objects decoded, objects ≠ [] →
    decodeCompleteScalarDomainObjects channel key objects = .ok decoded → decoded ≠ []
  completion : ∀ (inbox : MultipartInbox) part clear filled,
    (inbox.soFar part).store part clear = .ok filled →
    (inbox.pending.insert part.publicationId filled)[part.publicationId]? = some filled ∧
      filled.parts.toList ≠ []

theorem expectations_hold {Live CatchUpFailure Observed Sealed : Type}
    {catchUp : SessionRoutine P Live CatchUpFailure (CatchUpOutcome P.Revision Observed Sealed)}
    {session : Session Live}
    (keeps : ∀ events caughtUp caught, (catchUp session).Traces events (.ok caughtUp, caught) →
      CaughtUp session.record events caughtUp caught.record) :
    ExpectationsHold catchUp session where
  lookups := by
    intro events caughtUp caught traced id member
    rw [(keeps events caughtUp caught traced).1]
    exact mem_pendingIds.mp member
  cursorClass := fun _ _ _ filled done => gather_class filled done
  range := fun _ _ _ _ some_ done => decodeDomainObjects_filled some_ done
  completion := fun inbox part clear filled done => ⟨by simp, store_filled done⟩

/-- Both set-based passes keep the discipline, and what they take for granted holds. -/
theorem resume_discipline {codec : CursorCodec P} {events : SessionEvents P}
    (answered : codec.Answered events) :
    (∀ (trusted : ScalarStateCodec TrustedError) (spec : ScalarCatchUpSpec) session outcome stored,
      (resumeScalarOutboxSet trusted spec session).Traces events (outcome, stored) →
        Disciplined codec ScalarCatchUpError.External (catchUpSingleScalarDomain trusted spec)
          (fun _ entry observed => domainProves spec entry observed) session events outcome ∧
        ExpectationsHold (P := P) (catchUpSingleScalarDomain trusted spec) session) ∧
    ∀ (trusted : RecoveryStateCodec TrustedError)
      (spec : ScalarRecoveryCatchUpSpec) session outcome stored,
      (resumeScalarRecoveryOutboxSet trusted spec session).Traces events (outcome, stored) →
        Disciplined codec ScalarRecoveryCatchUpError.External
          (catchUpScalarRecoveryState trusted spec)
          (recoveryProves spec.channel) session events outcome ∧
        ExpectationsHold (P := P) (catchUpScalarRecoveryState trusted spec) session := by
  constructor
  · intro trusted spec session outcome stored traced
    have keeps : ∀ events caughtUp caught,
        (catchUpSingleScalarDomain trusted spec session).Traces events (.ok caughtUp, caught) →
          CaughtUp (P := P) session.record events caughtUp caught.record :=
      fun _ _ _ ran => traces_catchUpSingleScalarDomain ran
    exact ⟨disciplined confined_catchUpSingleScalarDomain keeps answered traced,
      expectations_hold keeps⟩
  · intro trusted spec session outcome stored traced
    have keeps : ∀ events caughtUp caught,
        (catchUpScalarRecoveryState trusted spec session).Traces events (.ok caughtUp, caught) →
          CaughtUp (P := P) session.record events caughtUp caught.record :=
      fun _ _ _ ran => traces_catchUpScalarRecoveryState ran
    exact ⟨disciplined confined_catchUpScalarRecoveryState keeps answered traced,
      expectations_hold keeps⟩

/-- One entry that was prepared before any fetch. A pass that is up to date publishes
it; a pass that moves the cursor publishes nothing and reports it for a rebase. -/
theorem resume_discipline_stale_entry :
    let platform : Platform := ⟨Nat, Unit, Unit, Unit⟩
    let codec : CursorCodec platform := ⟨fun _ => .ok ⟨[1], by decide⟩, fun _ => .ok (0 : Nat)⟩
    let reply (fetched : FetchOutcome platform.Revision) : (op : SessionOp platform) → op.Answer
      | .encodeCursor revision => codec.encode revision
      | .decodeCursor cursor => codec.decode cursor
      | .fetchSince _ => .ok fetched
      | .publish _ _ => .ok (.published (1 : Nat))
      | .persist _ => .ok ()
    let trusted : ScalarStateCodec TrustedStateCodecError :=
      ⟨fun snapshot => .ok (snapshotImage snapshot), decodeLocalScalarSnapshot⟩
    let spec : ScalarCatchUpSpec :=
      ⟨⟨.plain, ⟨List.replicate 32 7, rfl⟩, .ofByte 9⟩, ⟨.ofByte 5, [98]⟩, none⟩
    let record : DurableSyncRecord :=
      (((DurableSyncRecord.create [] none).prepareOutbox [] (.ofByte 4) none [[9]]).toOption).getD
        (.create [] none)
    let session : Session (LocalScalarDomain Bytes) := ⟨⟨⟨.empty, none⟩, .empty⟩, record⟩
    let run (fetched : FetchOutcome platform.Revision) :=
      (resumeScalarOutboxSet trusted spec session : Proc (SessionOp platform) _ _).transcript
        (reply fetched)
    let disciplined (fetched : FetchOutcome platform.Revision) :=
      Disciplined codec ScalarCatchUpError.External (catchUpSingleScalarDomain trusted spec)
        (fun _ entry observed => domainProves spec entry observed) session (run fetched).1
          (run fetched).2.1
    (run (.upToDate none)).1.countP (fun event => event.1.isPublish) = 1 ∧
      disciplined (.upToDate none) ∧
      (run (.changed (1 : Nat) [])).1.countP (fun event => event.1.isPublish) = 0 ∧
      (run (.changed (1 : Nat) [])).2.1.toOption.map ResumeReport.action =
        some (.needsRebase {.ofByte 4}) ∧
      disciplined (.changed (1 : Nat) []) := by
  intro platform codec reply trusted spec record session run disciplined
  have every : ∀ fetched, disciplined fetched := by
    intro fetched
    have answered : codec.Answered (run fetched).1 :=
      CursorCodec.answered_transcript codec (fun _ => rfl)
      (fun _ => rfl) (resumeScalarOutboxSet trusted spec session)
    exact ((resume_discipline answered).1 trusted spec session _ _
      (Proc.transcript_traces (reply fetched) _)).1
  have reported : (run (.changed (1 : Nat) [])).2.1.toOption.map ResumeReport.action =
      some (.needsRebase {.ofByte 4}) := by
    change (_ : Option (ResumeAction Nat)) = _
    decide +kernel
  exact ⟨by decide +kernel, every _, by decide +kernel, reported, every _⟩

end PrivateContinuum.Runtime
