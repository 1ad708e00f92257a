import PrivateContinuum.Runtime.CatchUpTraces
import PrivateContinuum.Runtime.Resume

namespace PrivateContinuum.Runtime

open Std (ExtTreeMap ExtTreeSet)
open PrivateContinuum.Library PrivateContinuum.Core PrivateContinuum.Sync

variable {P : Platform} {TrustedError : Type}

/-- Every pending publication expects the cursor that the record has applied. -/
def AllCurrent (record : DurableSyncRecord) : Prop :=
  ∀ (id : PublicationId) entry, record.outbox[id]? = some entry →
    entry.expectedCursor = record.appliedCursor

/-- The publication is pending against another cursor. -/
def Unresolved (record : DurableSyncRecord) (id : PublicationId) : Prop :=
  ∃ entry, record.outbox[id]? = some entry ∧ entry.expectedCursor ≠ record.appliedCursor

/-- The failure is none of an empty or mixed batch or of an unknown publication;
what a catch-up may fail with is given. -/
def OutboxResumeError.External {CatchUpFailure DecodeFailure : Type}
    (external : CatchUpFailure → Prop) :
    OutboxResumeError P CatchUpFailure DecodeFailure → Prop
  | .catchUp failure => external failure
  | .pendingDecode _ _ => True
  | .publish failure => failure.External
  | .reconcile failure => failure.External

/-- The record without the proven publications, under the same cursor. -/
structure Settles (caught : DurableSyncRecord) (proven : ExtTreeSet PublicationId)
    (settled : DurableSyncRecord) : Prop where
  cursor : settled.appliedCursor = caught.appliedCursor
  entries : ∀ id : PublicationId, settled.outbox[id]? = if id ∈ proven then none
    else caught.outbox[id]?

/-- The stale publications of a record among those that were pending before. -/
def staleAmong (before caught : DurableSyncRecord) : ExtTreeSet PublicationId :=
  (pendingIds before).filter fun id => !isCurrent caught id

theorem mem_pendingIds {record : DurableSyncRecord} {id : PublicationId} :
    id ∈ pendingIds record ↔ ∃ entry, record.outbox[id]? = some entry := by
  rw [← map_mem_iff, pendingIds, ExtTreeSet.mem_ofList]
  simp

theorem isCurrent_iff {record : DurableSyncRecord} {id : PublicationId} {entry : DurableOutboxEntry}
    (found : record.outbox[id]? = some entry) :
    isCurrent record id = true ↔ entry.expectedCursor = record.appliedCursor := by
  simp [isCurrent, found]

section Pass

variable {Live CatchUpFailure DecodeFailure Observed Sealed : Type}
  {proves : PublicationId → DurableOutboxEntry → Observed → Except DecodeFailure Bool}

/-- The first half of a pass: catch-up, and the retirement of what it proves. An
unavailable baseline ends it. -/
def catchUpAndReconcile
    (catchUp : SessionRoutine P Live CatchUpFailure (CatchUpOutcome P.Revision Observed Sealed))
    (proves : PublicationId → DurableOutboxEntry → Observed → Except DecodeFailure Bool) :
    SessionRoutine P Live (OutboxResumeError P CatchUpFailure DecodeFailure)
      (CatchUpOutcome P.Revision Observed Sealed × Option (ExtTreeSet PublicationId)) := do
  let session ← Routine.load
  let caughtUp ← catchUp.mapError OutboxResumeError.catchUp
  if caughtUp.isBaselineUnavailable then pure (caughtUp, none)
  else do
    let caught ← Routine.load
    let proven ← reconcileObserved proves (staleAmong session.record caught.record) caughtUp
    pure (caughtUp, some proven)

theorem gatherProof_within {record : DurableSyncRecord} {observed : Observed}
    {stale : ExtTreeSet PublicationId} {proven : ExtTreeSet PublicationId}
    (done : stale.toList.foldlM (gatherProof proves record observed : _ → _ →
      Except (OutboxResumeError P CatchUpFailure DecodeFailure) _) ∅ = .ok proven) :
    ∀ id ∈ proven, id ∈ stale := by
  refine foldlM_invariant (fun gathered : ExtTreeSet PublicationId => ∀ id ∈ gathered,
    id ∈ stale) ?_ ?_ done
  · intro gathered id next member within step
    have listed : id ∈ stale := by simpa using member
    cases found : record.outbox[id]? with
    | none =>
      simp only [gatherProof, found, Except.ok.injEq] at step
      exact step ▸ within
    | some entry =>
      simp only [gatherProof, found, bind_ok_iff, pure_eq_ok, Except.ok.injEq] at step
      obtain ⟨arrived, _, same⟩ := step
      subst same
      intro other inside
      split at inside
      · rcases ExtTreeSet.mem_insert.mp inside with here | there
        · exact Std.LawfulEqCmp.compare_eq_iff_eq.mp here ▸ listed
        · exact within other there
      · exact within other inside
  · simp

theorem gatherProof_fails {record : DurableSyncRecord} {observed : Observed}
    {stale : ExtTreeSet PublicationId} {external : CatchUpFailure → Prop} :
    FailsOnly (OutboxResumeError.External external)
      (stale.toList.foldlM (gatherProof proves record observed) ∅ :
        Except (OutboxResumeError P CatchUpFailure DecodeFailure) _) := by
  apply failsOnly_foldlM
  intro gathered id
  unfold gatherProof
  split
  · exact failsOnly_ok
  · exact FailsOnly.bind (failsOnly_mapError fun _ => trivial) fun _ => failsOnly_ok

theorem confined_reconcileObserved {stale : ExtTreeSet PublicationId}
    {caughtUp : CatchUpOutcome P.Revision Observed Sealed} :
    (reconcileObserved proves stale caughtUp : SessionRoutine P Live
      (OutboxResumeError P CatchUpFailure DecodeFailure) _).Confined SessionOp.Quiet fun _ =>
      True := by
  cases caughtUp with
  | upToDate head => exact Routine.confined_pure
  | cursorAdvancedWithoutSemanticObjects head => exact Routine.confined_pure
  | baselineUnavailable head => exact Routine.confined_pure
  | applied head count observed sealed =>
    apply Routine.Confined.bind Routine.confined_load
    intro session
    apply Routine.Confined.bind (Routine.confined_check fun _ _ => trivial)
    intro proven
    split
    · exact Routine.confined_pure
    · apply Routine.Confined.bind
        (Routine.Confined.mapError Session.confined_commitReconciledOutboxBatch
        fun _ _ => trivial)
      intro _
      exact Routine.confined_pure

theorem Settles.unchanged {record : DurableSyncRecord} {proven : ExtTreeSet PublicationId}
    (empty : proven.isEmpty = true) : Settles record proven record := by
  refine ⟨rfl, ?_⟩
  intro id
  rw [if_neg (set_empty_not_mem empty id)]

theorem traces_reconcileObserved {codec : CursorCodec P} {stale : ExtTreeSet PublicationId}
    {caughtUp : CatchUpOutcome P.Revision Observed Sealed} {session stored : Session Live}
    {events : SessionEvents P} (external : CatchUpFailure → Prop)
    {outcome : Except (OutboxResumeError P CatchUpFailure DecodeFailure) (ExtTreeSet PublicationId)}
    (pending : ∀ id ∈ stale, id ∈ session.record.outbox)
    (applied : ∀ head count observed sealed, caughtUp = .applied head count observed sealed →
      ∃ cursor, codec.encode head = .ok cursor ∧ session.record.appliedCursor = some cursor)
    (answered : codec.Answered events)
    (traced : (reconcileObserved proves stale caughtUp session).Traces events (outcome, stored)) :
    (∃ failure, outcome = .error failure ∧ failure.External external) ∨
      ∃ proven, outcome = .ok proven ∧ (∀ id ∈ proven, id ∈ stale) ∧
        Settles session.record proven stored.record := by
  have nothing : ∀ proven : ExtTreeSet PublicationId, proven.isEmpty = true →
      (outcome, stored) = (.ok proven, session) → ∃ proven, outcome = .ok proven ∧
        (∀ id ∈ proven, id ∈ stale) ∧ Settles session.record proven stored.record := by
    intro proven empty same
    cases same
    exact ⟨proven, rfl, fun id member => absurd member (set_empty_not_mem empty id),
      Settles.unchanged empty⟩
  cases caughtUp with
  | upToDate head => exact Or.inr (nothing ∅ (by simp) traced.2)
  | cursorAdvancedWithoutSemanticObjects head => exact Or.inr (nothing ∅ (by simp) traced.2)
  | baselineUnavailable head => exact Or.inr (nothing ∅ (by simp) traced.2)
  | applied head count observed sealed =>
    change ((Routine.check (stale.toList.foldlM (gatherProof proves session.record observed) ∅) >>=
      _) session).Traces events (outcome, stored) at traced
    cases gathered : (stale.toList.foldlM (gatherProof proves session.record observed) ∅ :
        Except (OutboxResumeError P CatchUpFailure DecodeFailure) _) with
    | error failure =>
      rw [gathered] at traced
      cases traced.2
      exact Or.inl ⟨failure, rfl, gatherProof_fails failure gathered⟩
    | ok proven =>
      rw [gathered] at traced
      have within := gatherProof_within gathered
      change ((if proven.isEmpty then pure proven
        else _ : SessionRoutine P Live _ _) session).Traces events (outcome, stored) at traced
      by_cases empty : proven.isEmpty = true
      · rw [if_pos empty] at traced
        exact Or.inr (nothing proven empty traced.2)
      rw [if_neg empty] at traced
      have known : ∀ id ∈ proven, id ∈ session.record.outbox :=
        fun id member => pending id (within id member)
      rcases Routine.traces_bind traced with ⟨failure, after, only, same⟩ | ⟨_, after, early, late,
        split, first, ended⟩
      · obtain ⟨committed, kept, committing, told⟩ := Routine.traces_mapError only
        cases same
        rcases Session.traces_commitReconciledOutboxBatch
          (Bool.not_eq_true _ ▸ empty) known committing with
          ⟨cause, failed, outside, _⟩ | ⟨_, done, _⟩
        · subst failed
          cases told
          exact Or.inl ⟨_, rfl, outside⟩
        · subst done
          cases told
      · obtain ⟨committed, kept, committing, told⟩ := Routine.traces_mapError first
        obtain ⟨none, same⟩ := ended
        cases same
        rcases Session.traces_commitReconciledOutboxBatch
          (Bool.not_eq_true _ ▸ empty) known committing with
          ⟨cause, failed, _⟩ | ⟨cursor, done, encoded, retired⟩
        · subst failed
          cases told
        · subst done
          cases told
          obtain ⟨before, encodes, current⟩ := applied head count observed sealed rfl
          have again := answered.encodes (split ▸ List.mem_append_left late encoded)
          rw [encodes, Except.ok.injEq] at again
          exact Or.inr ⟨proven, rfl, within, by rw [retired.applied, current, again],
            retired.entries⟩

theorem confined_catchUpAndReconcile
    {catchUp : SessionRoutine P Live CatchUpFailure (CatchUpOutcome P.Revision Observed Sealed)}
    {external : CatchUpFailure → Prop} (quiet : catchUp.Confined SessionOp.Quiet external) :
    (catchUpAndReconcile catchUp proves).Confined SessionOp.Quiet fun _ => True := by
  apply Routine.Confined.bind Routine.confined_load
  intro session
  apply Routine.Confined.bind (Routine.Confined.mapError quiet fun _ _ => trivial)
  intro caughtUp
  split
  · exact Routine.confined_pure
  · apply Routine.Confined.bind Routine.confined_load
    intro caught
    apply Routine.Confined.bind confined_reconcileObserved
    intro proven
    exact Routine.confined_pure

/-- What a pass reports of an answered publication. -/
def publishedAction (ids : ExtTreeSet PublicationId) :
    PublishOutcome P.Revision → ResumeAction P.Revision
  | .published head => .publishedAndReconciled ids head
  | .conflict currentHead => .conflict ids currentHead

/-- How a pass goes on from the record that its first half leaves. -/
inductive Finish (codec : CursorCodec P) (external : CatchUpFailure → Prop)
    (record : DurableSyncRecord) (caughtUp : CatchUpOutcome P.Revision Observed Sealed)
    (proven : ExtTreeSet PublicationId) :
    SessionEvents P → Except (OutboxResumeError P CatchUpFailure DecodeFailure)
      (ResumeReport P.Revision Observed Sealed) → Prop
  | rebase {ids : ExtTreeSet PublicationId} (exactly : ∀ id, id ∈ ids ↔ Unresolved record id)
      (stale : ¬ AllCurrent record) : Finish codec external record caughtUp proven []
        (.ok ⟨caughtUp, proven, .needsRebase ids⟩)
  | nothing (empty : (pendingIds record).isEmpty = true) :
      Finish codec external record caughtUp proven [] (.ok ⟨caughtUp, proven, .none⟩)
  | undecodable {events : SessionEvents P} {failure : P.CursorError} (current : AllCurrent record)
      (filled : (pendingIds record).isEmpty = false) (quiet : ∀ event ∈ events, event.1.Quiet)
      (undecoded : codec.decodeOptional record.appliedCursor = .error failure) :
      Finish codec external record caughtUp proven events (.error (.publish (.cursor failure)))
  | publish {decodes rest : SessionEvents P} {expected : Option P.Revision}
      {answer : Except P.TransportError (PublishOutcome P.Revision)}
      {outcome : Except (OutboxResumeError P CatchUpFailure DecodeFailure)
        (ResumeReport P.Revision Observed Sealed)}
      (current : AllCurrent record) (filled : (pendingIds record).isEmpty = false)
      (decoding : ∀ event ∈ decodes, ∃ cursor told, event = ⟨.decodeCursor cursor, told⟩)
      (decoded : codec.decodeOptional record.appliedCursor = .ok expected)
      (quiet : ∀ event ∈ rest, event.1.Quiet)
        (allowed : FailsOnly (OutboxResumeError.External external) outcome)
      (reported : ∀ report, outcome = .ok report → ∃ told, answer = .ok told ∧
        report = ⟨caughtUp, proven, publishedAction (pendingIds record) told⟩) :
      Finish codec external record caughtUp proven
        (decodes ++ ⟨.publish expected (Conduct.batchObjects record (pendingIds record)), answer⟩ ::
          rest) outcome

/-- A finished pass: its first half fails, or finds the baseline unavailable, or leaves
the record from which the pass goes on. -/
inductive Divides (codec : CursorCodec P) (external : CatchUpFailure → Prop)
    (catchUp : SessionRoutine P Live CatchUpFailure (CatchUpOutcome P.Revision Observed Sealed))
    (proves : PublicationId → DurableOutboxEntry → Observed → Except DecodeFailure Bool)
    (session : Session Live) :
    SessionEvents P → Except (OutboxResumeError P CatchUpFailure DecodeFailure)
      (ResumeReport P.Revision Observed Sealed) → Prop
  | failed {events : SessionEvents P} {failure : OutboxResumeError P CatchUpFailure DecodeFailure}
      {settled : Session Live}
      (half : (catchUpAndReconcile catchUp proves session).Traces events (.error failure, settled))
      (allowed : failure.External external) :
      Divides codec external catchUp proves session events (.error failure)
  | blocked {events : SessionEvents P} {caughtUp : CatchUpOutcome P.Revision Observed Sealed}
      {settled : Session Live}
      (half : (catchUpAndReconcile catchUp proves session).Traces events
        (.ok (caughtUp, none), settled)) :
      Divides codec external catchUp proves session events (.ok ⟨caughtUp, ∅, .blockedByBaseline⟩)
  | finished {early late : SessionEvents P} {caughtUp : CatchUpOutcome P.Revision Observed Sealed}
      {proven : ExtTreeSet PublicationId} {settled : Session Live}
      {outcome : Except (OutboxResumeError P CatchUpFailure DecodeFailure)
        (ResumeReport P.Revision Observed Sealed)}
      (half : (catchUpAndReconcile catchUp proves session).Traces early
        (.ok (caughtUp, some proven), settled))
      (finish : Finish codec external settled.record caughtUp proven late outcome) :
      Divides codec external catchUp proves session (early ++ late) outcome

/-- What follows a publication calls nothing else but the commit of its outcome. -/
theorem traces_reconcilePublished {external : CatchUpFailure → Prop}
    {ids : ExtTreeSet PublicationId}
    {caughtUp : CatchUpOutcome P.Revision Observed Sealed} {proven : ExtTreeSet PublicationId}
    {session stored : Session Live} {events : SessionEvents P} {told : PublishOutcome P.Revision}
    {outcome : Except (OutboxResumeError P CatchUpFailure DecodeFailure)
      (ResumeReport P.Revision Observed Sealed)}
    (filled : ids.isEmpty = false) (traced : ((match told with
      | .published head => do
        let session ← Routine.load
        (Session.commitReconciledOutboxBatch ids session.record.trustedState head).mapError
          OutboxResumeError.reconcile
        pure ⟨caughtUp, proven, .publishedAndReconciled ids head⟩
      | .conflict currentHead => pure ⟨caughtUp, proven, .conflict ids currentHead⟩ :
        SessionRoutine P Live (OutboxResumeError P CatchUpFailure DecodeFailure)
          (ResumeReport P.Revision Observed Sealed)) session).Traces events (outcome, stored))
    (known : ∀ id ∈ ids, id ∈ session.record.outbox) :
    (∀ event ∈ events, event.1.Quiet) ∧ FailsOnly (OutboxResumeError.External external) outcome ∧
      ∀ report, outcome = .ok report → report = ⟨caughtUp, proven, publishedAction ids told⟩ := by
  cases told with
  | conflict currentHead =>
    obtain ⟨none, same⟩ := traced
    cases same
    subst none
    refine ⟨by simp, failsOnly_ok, ?_⟩
    intro report done
    exact (Except.ok.inj done).symm
  | published head =>
    have rest := Routine.traces_load.mp traced
    have quiet : ∀ (live : Session Live) (part : SessionEvents P) ended,
        (Session.commitReconciledOutboxBatch ids session.record.trustedState head live).Traces
          part ended → ∀ event ∈ part, event.1.Quiet :=
      fun live part ended ran =>
        (Proc.Confined.traces (Session.confined_commitReconciledOutboxBatch live) ran).1
    rcases Routine.traces_bind rest with ⟨failure, after, only, same⟩ | ⟨_, after, early, late,
      split, first, ended⟩
    · obtain ⟨committed, kept, committing, read⟩ := Routine.traces_mapError only
      cases same
      refine ⟨quiet _ _ _ committing, ?_⟩
      rcases Session.traces_commitReconciledOutboxBatch filled known committing with
        ⟨cause, failed, outside, _⟩ | ⟨_, done, _⟩
      · subst failed
        cases read
        refine ⟨failsOnly_error outside, ?_⟩
        intro report done
        cases done
      · subst done
        cases read
    · obtain ⟨committed, kept, committing, read⟩ := Routine.traces_mapError first
      obtain ⟨none, same⟩ := ended
      cases same
      subst none
      rw [List.append_nil] at split
      refine ⟨split ▸ quiet _ _ _ committing, failsOnly_ok, ?_⟩
      intro report done
      exact (Except.ok.inj done).symm

theorem traces_publishCurrent {codec : CursorCodec P} {external : CatchUpFailure → Prop}
    {caughtUp : CatchUpOutcome P.Revision Observed Sealed} {proven : ExtTreeSet PublicationId}
    {session stored : Session Live} {events : SessionEvents P}
    {outcome : Except (OutboxResumeError P CatchUpFailure DecodeFailure)
      (ResumeReport P.Revision Observed Sealed)}
    (current : AllCurrent session.record) (filled : (pendingIds session.record).isEmpty = false)
    (answered : codec.Answered events)
    (traced : (publishCurrent caughtUp proven (pendingIds session.record) session).Traces events
      (outcome, stored)) :
    Finish codec external session.record caughtUp proven events outcome := by
  have pending : Conduct.PendingAt session.record
      (pendingIds session.record) session.record.appliedCursor := by
    intro id member
    obtain ⟨entry, found⟩ := mem_pendingIds.mp member
    exact ⟨entry, found, current id entry found⟩
  have known : ∀ id ∈ pendingIds session.record, id ∈ session.record.outbox :=
    fun id member => map_mem_iff.mpr (mem_pendingIds.mp member)
  rcases Routine.traces_bind traced with ⟨failure, after, only, same⟩ | ⟨told, after, early, late,
    split, first, later⟩
  · obtain ⟨published, kept, publishing, read⟩ := Routine.traces_mapError only
    cases same
    rcases (Session.traces_publishStagedBatch filled pending publishing).2 with
      ⟨cause, failed, quiet, undecoded⟩ | ⟨decodes, expected, answer, split,
        decoding, decoded, told⟩
    · subst failed
      cases read
      exact .undecodable current filled quiet (undecoded codec answered)
    · subst split
      subst told
      refine .publish current filled decoding (decoded codec ?_) (by simp) ?_ ?_
      · exact answered.part fun event member => List.mem_append_left _ member
      · cases answer with
        | ok value => cases read
        | error cause =>
          cases read
          exact failsOnly_error trivial
      · intro report done
        cases done
  · obtain ⟨published, kept, publishing, read⟩ := Routine.traces_mapError first
    have still := (Session.traces_publishStagedBatch filled pending publishing).1
    rcases (Session.traces_publishStagedBatch filled pending publishing).2 with
      ⟨cause, failed, _, _⟩ | ⟨decodes, expected, answer, parts, decoding, decoded, replied⟩
    · subst failed
      cases read
    · subst parts
      subst split
      rw [List.append_assoc, List.singleton_append]
      have same : after = session := (congrArg Prod.snd read).trans still
      subst same
      obtain ⟨quiet, allowed, reported⟩ : (∀ event ∈ late, event.1.Quiet) ∧
          FailsOnly (OutboxResumeError.External external) outcome ∧ ∀ report, outcome = .ok report →
            report = ⟨caughtUp, proven, publishedAction (pendingIds after.record) told⟩ :=
        traces_reconcilePublished filled later known
      refine .publish current filled decoding (decoded codec ?_) quiet allowed ?_
      · exact answered.part fun event member =>
          List.mem_append_left _ (List.mem_append_left _ member)
      · intro report done
        refine ⟨told, ?_, reported report done⟩
        subst replied
        cases answer with
        | ok value =>
          cases read
          rfl
        | error cause => cases read

section Division

variable {caught settled : DurableSyncRecord} {proven : ExtTreeSet PublicationId}
  {id : PublicationId}

/-- What a pass classified as current is what is pending against the applied cursor
in the record that it settles. -/
theorem current_iff (settles : Settles caught proven settled)
    (within : ∀ id ∈ proven, id ∈ staleAmong caught caught) :
    id ∈ (pendingIds caught).filter (isCurrent caught) ↔
      ∃ entry, settled.outbox[id]? = some entry ∧ entry.expectedCursor = settled.appliedCursor := by
  rw [set_mem_filter, mem_pendingIds, settles.cursor, settles.entries]
  constructor
  · intro classified
    obtain ⟨⟨entry, found⟩, current⟩ := classified
    have kept : id ∉ proven := by
      intro member
      have stale := (set_mem_filter.mp (within id member)).2
      simp [current] at stale
    exact ⟨entry, by rw [if_neg kept, found], (isCurrent_iff found).mp current⟩
  · intro pending
    obtain ⟨entry, found, current⟩ := pending
    split at found
    · cases found
    · exact ⟨⟨entry, found⟩, (isCurrent_iff found).mpr current⟩

/-- What a pass leaves unresolved is what is pending against another cursor. -/
theorem unresolved_iff (settles : Settles caught proven settled) :
    id ∈ (staleAmong caught caught).filter (fun id => !proven.contains id) ↔
    Unresolved settled id := by
  rw [set_mem_filter, staleAmong, set_mem_filter, mem_pendingIds, Unresolved,
    settles.cursor, settles.entries]
  constructor
  · intro classified
    obtain ⟨⟨⟨entry, found⟩, stale⟩, left⟩ := classified
    have kept : id ∉ proven := set_not_contains_iff.mp left
    refine ⟨entry, by rw [if_neg kept, found], ?_⟩
    intro current
    simp [(isCurrent_iff found).mpr current] at stale
  · intro pending
    obtain ⟨entry, found, other⟩ := pending
    split at found
    · cases found
    · rename_i kept
      refine ⟨⟨⟨entry, found⟩, ?_⟩, set_not_contains_iff.mpr kept⟩
      have stale : isCurrent caught id ≠ true :=
        fun current => other ((isCurrent_iff found).mp current)
      simpa using stale

theorem allCurrent_iff : AllCurrent settled ↔ ∀ id, ¬ Unresolved settled id := by
  constructor
  · intro current id unresolved
    obtain ⟨entry, found, other⟩ := unresolved
    exact other (current id entry found)
  · intro resolved id entry found
    by_contra other
    exact resolved id ⟨entry, found, other⟩

end Division

section Halves

variable {codec : CursorCodec P} {external : CatchUpFailure → Prop}
  {catchUp : SessionRoutine P Live CatchUpFailure (CatchUpOutcome P.Revision Observed Sealed)}
  {session caught settled stored : Session Live} {early late : SessionEvents P}
  {caughtUp : CatchUpOutcome P.Revision Observed Sealed} {proven : ExtTreeSet PublicationId}
  {outcome : Except (OutboxResumeError P CatchUpFailure DecodeFailure)
    (ResumeReport P.Revision Observed Sealed)}

theorem half_ends (blocked : ¬ caughtUp.isBaselineUnavailable = true)
    (first : (catchUp.mapError (OutboxResumeError.catchUp : CatchUpFailure →
      OutboxResumeError P CatchUpFailure DecodeFailure) session).Traces early (.ok caughtUp,
      caught))
    {ended : Except (OutboxResumeError P CatchUpFailure DecodeFailure) (ExtTreeSet PublicationId)}
    (second : (reconcileObserved proves (staleAmong session.record caught.record) caughtUp
      caught).Traces late (ended, settled)) :
    (catchUpAndReconcile catchUp proves session).Traces (early ++ late)
      (ended.map fun proven => (caughtUp, some proven), settled) := by
  apply Routine.traces_load.mpr
  apply Routine.traces_then first
  rw [if_neg blocked]
  apply Routine.traces_load.mpr
  cases ended with
  | error failure => exact Routine.traces_stopped second
  | ok proven => exact Routine.traces_returned second

theorem traces_settled (settles : Settles caught.record proven settled.record)
    (within : ∀ id ∈ proven, id ∈ staleAmong caught.record caught.record)
      (answered : codec.Answered late)
    (traced : ((if !(staleAmong caught.record caught.record |>.filter fun id =>
        !proven.contains id).isEmpty then
        pure ⟨caughtUp, proven,
          .needsRebase ((staleAmong caught.record caught.record).filter fun id =>
          !proven.contains id)⟩
      else if ((pendingIds caught.record).filter (isCurrent caught.record)).isEmpty then
        pure ⟨caughtUp, proven, .none⟩
      else publishCurrent caughtUp proven
        ((pendingIds caught.record).filter (isCurrent caught.record)) :
        SessionRoutine P Live (OutboxResumeError P CatchUpFailure DecodeFailure)
          (ResumeReport P.Revision Observed Sealed)) settled).Traces late (outcome, stored)) :
    Finish codec external settled.record caughtUp proven late outcome := by
  have exactly : ∀ id, id ∈ (staleAmong caught.record caught.record).filter
      (fun id => !proven.contains id) ↔
      Unresolved settled.record id := fun id => unresolved_iff settles
  by_cases stale : ((staleAmong caught.record caught.record).filter fun id =>
    !proven.contains id).isEmpty = true
  · have current : AllCurrent settled.record := by
      rw [allCurrent_iff]
      intro id unresolved
      exact set_empty_not_mem stale id ((exactly id).mpr unresolved)
    have same : (pendingIds caught.record).filter (isCurrent caught.record) =
        pendingIds settled.record := by
      apply ExtTreeSet.ext_mem
      intro id
      rw [current_iff settles within, mem_pendingIds]
      constructor
      · rintro ⟨entry, found, _⟩
        exact ⟨entry, found⟩
      · rintro ⟨entry, found⟩
        exact ⟨entry, found, current id entry found⟩
    rw [stale, same] at traced
    by_cases empty : (pendingIds settled.record).isEmpty = true
    · rw [empty] at traced
      obtain ⟨none, ended⟩ := traced
      cases ended
      subst none
      exact .nothing empty
    · rw [if_neg (by simp), if_neg empty] at traced
      exact traces_publishCurrent current (Bool.not_eq_true _ ▸ empty) answered traced
  · rw [if_pos (by simpa using stale)] at traced
    obtain ⟨none, ended⟩ := traced
    cases ended
    subst none
    refine .rebase exactly ?_
    intro current
    obtain ⟨id, member⟩ := set_nonempty_iff.mp (Bool.not_eq_true _ ▸ stale)
    exact allCurrent_iff.mp current id ((exactly id).mp member)

theorem reconcile_nothing {stale : ExtTreeSet PublicationId} (empty : stale.isEmpty = true) :
    ((reconcileObserved proves stale caughtUp : SessionRoutine P Live
      (OutboxResumeError P CatchUpFailure DecodeFailure) _) session).Traces [] (.ok ∅,
      session) := by
  cases caughtUp with
  | upToDate head => exact ⟨rfl, rfl⟩
  | cursorAdvancedWithoutSemanticObjects head => exact ⟨rfl, rfl⟩
  | baselineUnavailable head => exact ⟨rfl, rfl⟩
  | applied head count observed sealed =>
    have listed : stale.toList = [] := by
      rw [← List.isEmpty_iff, ExtTreeSet.isEmpty_toList]
      exact empty
    apply Routine.traces_load.mpr
    rw [listed]
    exact ⟨rfl, rfl⟩

/-- A catch-up that leaves nothing pending ends the pass. -/
theorem divides_nothing (blocked : ¬ caughtUp.isBaselineUnavailable = true)
    (first : (catchUp.mapError (OutboxResumeError.catchUp : CatchUpFailure →
      OutboxResumeError P CatchUpFailure DecodeFailure) session).Traces early (.ok caughtUp,
      caught))
    (known : pendingIds session.record = pendingIds caught.record)
    (empty : (pendingIds session.record).isEmpty = true) :
    Divides codec external catchUp proves session early (.ok ⟨caughtUp, ∅, .none⟩) := by
  have nothingStale : (staleAmong session.record caught.record).isEmpty = true := by
    by_contra filled
    obtain ⟨id, member⟩ := set_nonempty_iff.mp (Bool.not_eq_true _ ▸ filled)
    exact set_empty_not_mem empty id (set_mem_filter.mp member).1
  have whole : early = (early ++ []) ++ [] := by simp
  rw [whole]
  exact .finished (half_ends blocked first (reconcile_nothing nothingStale))
    (.nothing (known ▸ empty))

/-- A catch-up that leaves entries pending goes on with the observed reconciliation. -/
theorem divides_settleOutbox (blocked : ¬ caughtUp.isBaselineUnavailable = true)
    (first : (catchUp.mapError (OutboxResumeError.catchUp : CatchUpFailure →
      OutboxResumeError P CatchUpFailure DecodeFailure) session).Traces early (.ok caughtUp,
      caught))
    (known : pendingIds session.record = pendingIds caught.record)
    (applied : ∀ head count observed sealed, caughtUp = .applied head count observed sealed →
      ∃ cursor, codec.encode head = .ok cursor ∧ caught.record.appliedCursor = some cursor)
    (answered : codec.Answered late)
    (traced : (settleOutbox proves (pendingIds session.record) caughtUp caught).Traces late
      (outcome, stored)) :
    Divides codec external catchUp proves session (early ++ late) outcome := by
  have among : staleAmong session.record caught.record =
      staleAmong caught.record caught.record := by
    rw [staleAmong, staleAmong, known]
  have pending : ∀ id ∈ staleAmong caught.record caught.record, id ∈ caught.record.outbox :=
    fun id member => map_mem_iff.mpr (mem_pendingIds.mp (set_mem_filter.mp member).1)
  rcases Routine.traces_bind (Routine.traces_load.mp traced) with
    ⟨failure, after, only, same⟩ | ⟨proven, settled, middle, last, parts, second, ended⟩
  · cases same
    refine .failed (half_ends blocked first only) ?_
    change ((reconcileObserved proves (staleAmong session.record caught.record) caughtUp)
      caught).Traces late (.error failure, stored) at only
    rw [among] at only
    rcases traces_reconcileObserved external pending applied answered only with ⟨cause, same,
      outside⟩ | ⟨_, done, _⟩
    · cases same
      exact outside
    · cases done
  · subst parts
    rw [← List.append_assoc]
    refine .finished (half_ends blocked first second) ?_
    have answeredMiddle : codec.Answered middle :=
      answered.part fun event member => List.mem_append_left last member
    have answeredLast : codec.Answered last :=
      answered.part fun event member => List.mem_append_right middle member
    change ((reconcileObserved proves (staleAmong session.record caught.record) caughtUp)
      caught).Traces middle (.ok proven, settled) at second
    rw [among] at second
    rcases traces_reconcileObserved external pending applied answeredMiddle second with
      ⟨_, impossible, _⟩ | ⟨found, same, within, settles⟩
    · cases impossible
    cases same
    rw [known] at ended
    exact traces_settled settles within answeredLast ended

/-- A finished pass, divided where its first half ends. -/
theorem traces_resumeWith (quiet : catchUp.Confined SessionOp.Quiet external)
    (keeps : ∀ events caughtUp caught, (catchUp session).Traces events (.ok caughtUp, caught) →
      CaughtUp session.record events caughtUp caught.record)
    {events : SessionEvents P} (answered : codec.Answered events)
    (traced : (resumeWith catchUp proves session).Traces events (outcome, stored)) :
    Divides codec external catchUp proves session events outcome := by
  rcases Routine.traces_bind (Routine.traces_load.mp traced) with
    ⟨failure, after, only, same⟩ | ⟨caughtUp, caught, early, late, split, first, later⟩
  · cases same
    refine .failed (Routine.traces_load.mpr (Routine.traces_stopped only)) ?_
    obtain ⟨answer, kept, catching, read⟩ := Routine.traces_mapError only
    cases answer with
    | ok value => cases read
    | error cause =>
      cases read
      exact ((quiet session).traces catching).2 cause rfl
  by_cases blocked : caughtUp.isBaselineUnavailable = true
  · rw [if_pos blocked] at later
    obtain ⟨none, same⟩ := later
    cases same
    subst none
    have half : (catchUpAndReconcile catchUp proves session).Traces events
        (.ok (caughtUp, none), stored) := by
      rw [split]
      apply Routine.traces_load.mpr
      apply Routine.traces_then first
      rw [if_pos blocked]
      exact ⟨rfl, rfl⟩
    exact .blocked half
  rw [if_neg blocked] at later
  obtain ⟨answer, kept, catching, read⟩ := Routine.traces_mapError first
  cases answer with
  | error cause => cases read
  | ok found =>
    cases read
    obtain ⟨outbox, moved⟩ := keeps early caughtUp caught catching
    have known : pendingIds session.record = pendingIds caught.record := by
      rw [pendingIds, pendingIds, outbox]
    subst split
    by_cases empty : (pendingIds session.record).isEmpty = true
    · rw [if_pos empty] at later
      obtain ⟨none, same⟩ := later
      cases same
      subst none
      rw [List.append_nil]
      exact divides_nothing blocked first known empty
    · rw [if_neg empty] at later
      refine divides_settleOutbox blocked first known ?_
        (answered.part fun event member => List.mem_append_right early member) later
      intro head count observed sealed same
      obtain ⟨cursor, encoded, current⟩ := moved head count observed sealed same
      exact ⟨cursor, answered.encodes (List.mem_append_left late encoded), current⟩

end Halves

/-- The discipline of one finished pass. The record that decides is the one that
catch-up and the reconciliation of what was observed leave. -/
structure Disciplined (codec : CursorCodec P) (external : CatchUpFailure → Prop)
    (catchUp : SessionRoutine P Live CatchUpFailure (CatchUpOutcome P.Revision Observed Sealed))
    (proves : PublicationId → DurableOutboxEntry → Observed → Except DecodeFailure Bool)
    (session : Session Live) (events : SessionEvents P)
    (outcome : Except (OutboxResumeError P CatchUpFailure DecodeFailure)
      (ResumeReport P.Revision Observed Sealed)) : Prop where
  divided : Divides codec external catchUp proves session events outcome
  once : events.countP (fun event => event.1.isPublish) ≤ 1
  justified : ∀ before expected objects answer after,
    events = before ++ ⟨.publish expected objects, answer⟩ :: after →
      ∃ early decodes caughtUp proven settled, before = early ++ decodes ∧
        (∀ event ∈ decodes, ∃ cursor told, event = ⟨.decodeCursor cursor, told⟩) ∧
        (catchUpAndReconcile catchUp proves session).Traces early (.ok (caughtUp, some proven),
          settled) ∧
        AllCurrent settled.record ∧ (pendingIds settled.record).isEmpty = false ∧
        objects = Conduct.batchObjects settled.record (pendingIds settled.record) ∧
        codec.decodeOptional settled.record.appliedCursor = .ok expected
  rebased : ∀ early late caughtUp proven settled, events = early ++ late →
    (catchUpAndReconcile catchUp proves session).Traces early (.ok (caughtUp, some proven),
      settled) → ¬ AllCurrent settled.record → (∀ event ∈ events, event.1.Quiet) ∧
        ∃ ids, outcome = .ok ⟨caughtUp, proven, .needsRebase ids⟩ ∧ ∀ id, id ∈ ids ↔
        Unresolved settled.record id
  blocked : ∀ early late caughtUp settled, events = early ++ late →
    (catchUpAndReconcile catchUp proves session).Traces early (.ok (caughtUp, none), settled) →
      (∀ event ∈ events, event.1.Quiet) ∧ outcome = .ok ⟨caughtUp, ∅, .blockedByBaseline⟩
  accepted : FailsOnly (OutboxResumeError.External external) outcome

section Discipline

variable {codec : CursorCodec P} {external : CatchUpFailure → Prop}
  {catchUp : SessionRoutine P Live CatchUpFailure (CatchUpOutcome P.Revision Observed Sealed)}
  {session settled stored : Session Live} {early late events : SessionEvents P}
  {caughtUp : CatchUpOutcome P.Revision Observed Sealed} {proven : ExtTreeSet PublicationId}
  {outcome : Except (OutboxResumeError P CatchUpFailure DecodeFailure)
    (ResumeReport P.Revision Observed Sealed)}

theorem quiet_countP (quiet : ∀ event ∈ events, event.1.Quiet) :
    events.countP (fun event => event.1.isPublish) = 0 := by
  rw [List.countP_eq_zero]
  intro event member
  rw [quiet event member]
  exact Bool.false_ne_true

/-- A pass that publishes nothing is disciplined in what it publishes. -/
theorem quiet_not_published {before after : SessionEvents P} {expected : Option P.Revision}
    {objects : List Bytes} {answer : Except P.TransportError (PublishOutcome P.Revision)}
    (quiet : ∀ event ∈ events, event.1.Quiet) :
    events ≠ before ++ ⟨.publish expected objects, answer⟩ :: after := by
  intro same
  have here := quiet ⟨.publish expected objects, answer⟩
    (same ▸ List.mem_append_right before List.mem_cons_self)
  cases here

theorem publish_after {before after : SessionEvents P} {expected : Option P.Revision}
    {objects : List Bytes} {answer : Except P.TransportError (PublishOutcome P.Revision)}
    (quiet : ∀ event ∈ early, event.1.Quiet)
    (same : early ++ late = before ++ ⟨.publish expected objects, answer⟩ :: after) :
    ∃ between, before = early ++ between ∧
    late = between ++ ⟨.publish expected objects, answer⟩ :: after := by
  rcases List.append_eq_append_iff.mp same with ⟨between, first, rest⟩ | ⟨between, first, rest⟩
  · exact ⟨between, first, rest⟩
  · cases between with
    | nil => exact ⟨[], by simpa using first.symm, rest.symm⟩
    | cons event others =>
      rw [List.cons_append, List.cons.injEq] at rest
      exact absurd (first.trans (by rw [rest.1])) (quiet_not_published quiet)

theorem decoding_quiet {decodes : SessionEvents P}
    (decoding : ∀ event ∈ decodes, ∃ cursor told, event = ⟨.decodeCursor cursor, told⟩) :
    ∀ event ∈ decodes, event.1.Quiet := by
  intro event member
  obtain ⟨cursor, told, same⟩ := decoding event member
  exact same ▸ rfl

theorem Finish.accepted
    (finish : Finish codec external settled.record caughtUp proven late outcome) :
    FailsOnly (OutboxResumeError.External external) outcome := by
  cases finish with
  | rebase exactly stale => exact failsOnly_ok
  | nothing empty => exact failsOnly_ok
  | undecodable current filled quiet undecoded => exact failsOnly_error trivial
  | publish current filled decoding decoded quiet allowed reported => exact allowed

/-- After its first half a pass publishes at most once, and only what is current. -/
theorem Finish.justified {before after : SessionEvents P} {expected : Option P.Revision}
    {objects : List Bytes} {answer : Except P.TransportError (PublishOutcome P.Revision)}
    (finish : Finish codec external settled.record caughtUp proven late outcome)
    (found : late = before ++ ⟨.publish expected objects, answer⟩ :: after) :
    (∀ event ∈ before, ∃ cursor told, event = ⟨.decodeCursor cursor, told⟩) ∧
      AllCurrent settled.record ∧ (pendingIds settled.record).isEmpty = false ∧
      objects = Conduct.batchObjects settled.record (pendingIds settled.record) ∧
      codec.decodeOptional settled.record.appliedCursor = .ok expected := by
  cases finish with
  | rebase exactly stale => simp at found
  | nothing empty => simp at found
  | undecodable current filled quiet undecoded => exact absurd found (quiet_not_published quiet)
  | publish current filled decoding decoded quiet allowed reported =>
    have apart : ∀ part : SessionEvents P, (∀ event ∈ part, event.1.Quiet) →
        (⟨.publish expected objects, answer⟩ : Event (SessionOp P) SessionOp.Answer) ∉ part := by
      intro part silent member
      cases silent _ member
    obtain ⟨same, called, _⟩ := (List.append_cons_inj_of_notMem (apart _ (decoding_quiet decoding))
      (apart _ quiet)).mp found
    cases called
    exact ⟨same ▸ decoding, current, filled, rfl, decoded⟩

theorem Finish.once (finish : Finish codec external settled.record caughtUp proven late outcome) :
    late.countP (fun event => event.1.isPublish) ≤ 1 := by
  cases finish with
  | rebase exactly stale => simp
  | nothing empty => simp
  | undecodable current filled quiet undecoded => rw [quiet_countP quiet]; exact Nat.zero_le 1
  | publish current filled decoding decoded quiet allowed reported =>
    rw [List.countP_append, List.countP_cons, quiet_countP (decoding_quiet decoding),
      quiet_countP quiet]
    simp [SessionOp.isPublish]

theorem Finish.rebased (finish : Finish codec external settled.record caughtUp proven late outcome)
    (stale : ¬ AllCurrent settled.record) : late = [] ∧
      ∃ ids, outcome = .ok ⟨caughtUp, proven, .needsRebase ids⟩ ∧ ∀ id, id ∈ ids ↔
      Unresolved settled.record id := by
  cases finish with
  | rebase exactly _ => exact ⟨rfl, _, rfl, exactly⟩
  | nothing empty =>
    refine absurd ?_ stale
    intro id entry found
    exact absurd (mem_pendingIds.mpr ⟨entry, found⟩) (set_empty_not_mem empty id)
  | undecodable current filled quiet undecoded => exact absurd current stale
  | publish current filled decoding decoded quiet allowed reported => exact absurd current stale

theorem half_quiet (quiet : catchUp.Confined SessionOp.Quiet external)
    {ended : Except (OutboxResumeError P CatchUpFailure DecodeFailure)
      (CatchUpOutcome P.Revision Observed Sealed × Option (ExtTreeSet PublicationId)) ×
      Session Live}
    (half : (catchUpAndReconcile catchUp proves session).Traces early ended) :
    ∀ event ∈ early, event.1.Quiet :=
  ((confined_catchUpAndReconcile quiet session).traces half).1

theorem Divides.once (quiet : catchUp.Confined SessionOp.Quiet external)
    (divides : Divides codec external catchUp proves session events outcome) :
    events.countP (fun event => event.1.isPublish) ≤ 1 := by
  cases divides with
  | failed half allowed =>
    rw [quiet_countP (half_quiet quiet half)]
    exact Nat.zero_le 1
  | blocked half =>
    rw [quiet_countP (half_quiet quiet half)]
    exact Nat.zero_le 1
  | finished half finish =>
    rw [List.countP_append, quiet_countP (half_quiet quiet half), Nat.zero_add]
    exact finish.once

/-- What a pass publishes is all that is pending, after its first half. -/
theorem Divides.justified (quiet : catchUp.Confined SessionOp.Quiet external)
    (divides : Divides codec external catchUp proves session events outcome)
    {before after : SessionEvents P} {expected : Option P.Revision} {objects : List Bytes}
    {answer : Except P.TransportError (PublishOutcome P.Revision)}
    (found : events = before ++ ⟨.publish expected objects, answer⟩ :: after) :
    ∃ early decodes caughtUp proven settled, before = early ++ decodes ∧
      (∀ event ∈ decodes, ∃ cursor told, event = ⟨.decodeCursor cursor, told⟩) ∧
      (catchUpAndReconcile catchUp proves session).Traces early (.ok (caughtUp, some proven),
        settled) ∧
      AllCurrent settled.record ∧ (pendingIds settled.record).isEmpty = false ∧
      objects = Conduct.batchObjects settled.record (pendingIds settled.record) ∧
      codec.decodeOptional settled.record.appliedCursor = .ok expected := by
  cases divides with
  | failed half allowed => exact absurd found (quiet_not_published (half_quiet quiet half))
  | blocked half => exact absurd found (quiet_not_published (half_quiet quiet half))
  | finished half finish =>
    obtain ⟨decodes, first, rest⟩ := publish_after (half_quiet quiet half) found
    obtain ⟨decoding, justified⟩ := finish.justified rest
    exact ⟨_, decodes, _, _, _, first, decoding, half, justified⟩

/-- A run of the first half is the one that the pass made. -/
theorem Divides.rebased (quiet : catchUp.Confined SessionOp.Quiet external)
    (divides : Divides codec external catchUp proves session events outcome)
    (split : events = early ++ late)
    (half : (catchUpAndReconcile catchUp proves session).Traces early (.ok (caughtUp, some proven),
      settled))
    (stale : ¬ AllCurrent settled.record) : (∀ event ∈ events, event.1.Quiet) ∧
      ∃ ids, outcome = .ok ⟨caughtUp, proven, .needsRebase ids⟩ ∧ ∀ id, id ∈ ids ↔
      Unresolved settled.record id := by
  cases divides with
  | failed other allowed => cases (other.unique half ((List.append_nil _).trans split)).2
  | blocked other => cases (other.unique half ((List.append_nil _).trans split)).2
  | finished other finish =>
    obtain ⟨same, ended⟩ := other.unique half split
    cases ended
    obtain ⟨none, reported⟩ := finish.rebased stale
    subst none
    rw [List.append_nil]
    exact ⟨half_quiet quiet other, reported⟩

theorem Divides.blockedByBaseline (quiet : catchUp.Confined SessionOp.Quiet external)
    (divides : Divides codec external catchUp proves session events outcome)
    (split : events = early ++ late)
    (half : (catchUpAndReconcile catchUp proves session).Traces early
      (.ok (caughtUp, none), settled)) :
    (∀ event ∈ events, event.1.Quiet) ∧ outcome = .ok ⟨caughtUp, ∅, .blockedByBaseline⟩ := by
  cases divides with
  | failed other allowed => cases (other.unique half ((List.append_nil _).trans split)).2
  | blocked other =>
    cases (other.unique half ((List.append_nil _).trans split)).2
    exact ⟨half_quiet quiet other, rfl⟩
  | finished other finish => cases (other.unique half split).2

theorem Divides.accepted (divides : Divides codec external catchUp proves session events outcome) :
    FailsOnly (OutboxResumeError.External external) outcome := by
  cases divides with
  | failed half allowed => exact failsOnly_error allowed
  | blocked half => exact failsOnly_ok
  | finished half finish => exact finish.accepted

/-- Every finished pass is disciplined. -/
theorem disciplined (quiet : catchUp.Confined SessionOp.Quiet external)
    (keeps : ∀ events caughtUp caught, (catchUp session).Traces events (.ok caughtUp, caught) →
      CaughtUp session.record events caughtUp caught.record) (answered : codec.Answered events)
    (traced : (resumeWith catchUp proves session).Traces events (outcome, stored)) :
    Disciplined codec external catchUp proves session events outcome := by
  have divided := traces_resumeWith quiet keeps answered traced
  exact ⟨divided, divided.once quiet, fun _ _ _ _ _ found => divided.justified quiet found,
    fun _ _ _ _ _ split half stale => divided.rebased quiet split half stale,
    fun _ _ _ _ split half => divided.blockedByBaseline quiet split half, divided.accepted⟩

end Discipline

end Pass

end PrivateContinuum.Runtime
