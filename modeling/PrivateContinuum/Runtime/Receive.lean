import PrivateContinuum.Runtime.Publication

namespace PrivateContinuum.Runtime

open Std (ExtTreeMap ExtTreeSet)
open PrivateContinuum.Library PrivateContinuum.Core PrivateContinuum.Sync

variable {P : Platform} {TrustedError : Type}

/-- What the assembling loops of the runtime differ in: their errors, what a part
must satisfy before it is ingested, and what becomes of a complete publication. -/
structure Intake (Failure Item : Type) where
  wire : ProtectedPartCodecError → Failure
  protection : SyncPartError → Failure
  check : ProtectedSyncPart → Except Failure Unit
  complete : List Item → ScalarSyncProjection → Except Failure Item

structure Assembly (Item : Type) where
  inbox : MultipartInbox
  completed : List Item
  seenWireObjects : ExtTreeSet Bytes

namespace Intake

variable {Failure Item : Type} (intake : Intake Failure Item) (channel : Channel)

def deliver (completed : List Item) : Option ScalarSyncProjection → Except Failure (List Item)
  | none => .ok completed
  | some projection => do
    let item ← intake.complete completed projection
    pure (completed ++ [item])

/-- Loop body: an exact repetition of a wire object is skipped. -/
def take (assembly : Assembly Item) (encoded : Bytes) : Except Failure (Assembly Item) :=
  if encoded ∈ assembly.seenWireObjects then .ok assembly
  else do
    let part ← (decodeProtectedSyncPart encoded).mapError intake.wire
    intake.check part
    let (inbox, delivered) ← (onSuccess (assembly.inbox.ingest channel part)).mapError
      intake.protection
    let completed ← intake.deliver assembly.completed delivered
    pure ⟨inbox, completed, assembly.seenWireObjects.insert encoded⟩

def takeAll (objects : List Bytes) : Except Failure (Assembly Item) :=
  objects.foldlM (intake.take channel) ⟨.empty, [], ∅⟩

end Intake

inductive ScalarObjectDecodeError where
  | wire (failure : ProtectedPartCodecError)
  | protection (failure : SyncPartError)
  | multipartUnsupported
  | incompleteMultipartPublications (count : Nat)
  | unexpectedDomainCount (count : Nat)
  | missingExpectedDomain

def scalarRegisterFromProjection (projection : ScalarSyncProjection) (expectedDomain : DomainKey) :
    Except ScalarObjectDecodeError (ScalarRegister Bytes) :=
  if projection.domains.size ≠ 1 then .error (.unexpectedDomainCount projection.domains.size)
  else match projection.get expectedDomain with
    | some register => .ok register
    | none => .error .missingExpectedDomain

def decodeSingleScalarDomainObject (channel : Channel) (expectedDomain : DomainKey)
    (encoded : Bytes) :
    Except ScalarObjectDecodeError (ScalarRegister Bytes) := do
  let part ← (decodeProtectedSyncPart encoded).mapError ScalarObjectDecodeError.wire
  if part.partIndex ≠ 0 ∨ part.totalParts ≠ 1 then throw .multipartUnsupported
  let projection ← (unprotectScalarPart channel part).mapError ScalarObjectDecodeError.protection
  scalarRegisterFromProjection projection expectedDomain

/-- Every complete publication must carry exactly the expected domain. -/
def domainIntake (expectedDomain : DomainKey) :
    Intake ScalarObjectDecodeError (ScalarRegister Bytes) where
  wire := .wire
  protection := .protection
  check _ := .ok ()
  complete _ projection := scalarRegisterFromProjection projection expectedDomain

def decodeCompleteScalarDomainObjects (channel : Channel) (expectedDomain : DomainKey)
    (encodedObjects : List Bytes) :
    Except ScalarObjectDecodeError (List (ScalarRegister Bytes)) := do
  let assembly ← (domainIntake expectedDomain).takeAll channel encodedObjects
  let incomplete := assembly.inbox.pendingPublications
  if incomplete ≠ 0 then throw (.incompleteMultipartPublications incomplete)
  pure assembly.completed

inductive ScalarReceiveCommitError (P : Platform) (TrustedError : Type) where
  | core (failure : CoreError)
  | trustedState (failure : TrustedError)
  | sync (failure : SessionCommitError P)

/-- `commit_received_scalar_domain` -/
def commitReceivedScalarDomain (codec : ScalarStateCodec TrustedError)
    (remote : ScalarRegister Bytes) (preObservationRevisionId : Option RevisionId)
    (newHead : P.Revision) :
    SessionRoutine P (LocalScalarDomain Bytes) (ScalarReceiveCommitError P TrustedError)
      (Option (ScalarRevision Bytes)) := do
  let session ← Routine.load
  commitCandidate ((onSuccess (session.live.observeRemote remote preObservationRevisionId)).mapError
      ScalarReceiveCommitError.core)
    (fun live => (codec.encode live.snapshot).mapError ScalarReceiveCommitError.trustedState)
    fun trustedState =>
    (Session.commitReceived trustedState newHead).mapError ScalarReceiveCommitError.sync

inductive RecoveryScalarReceiveCommitError (P : Platform) (TrustedError : Type) where
  | missingDomain
  | core (failure : CoreError)
  | recoveryState (failure : LocalScalarRecoveryStateError)
  | trustedState (failure : TrustedError)
  | sync (failure : SessionCommitError P)

/-- The observation in one domain of a cloned container. -/
def observeDomain (recovery : LocalScalarRecoveryState) (domainKey : DomainKey)
    (remote : ScalarRegister Bytes) (preObservationRevisionId : Option RevisionId) :
    Except (RecoveryScalarReceiveCommitError P TrustedError)
      (LocalScalarRecoveryState × Option (ScalarRevision Bytes)) := do
  let restored ← (recovery.restoreDomain domainKey).mapError RecoveryScalarReceiveCommitError.core
  match restored with
  | none => throw .missingDomain
  | some selected =>
    let (next,
      sealed) ← (onSuccess (selected.observeRemote remote preObservationRevisionId)).mapError
      RecoveryScalarReceiveCommitError.core
    let candidate ← (recovery.replaceDomain domainKey next.snapshot).mapError
      RecoveryScalarReceiveCommitError.recoveryState
    pure (candidate, sealed)

/-- `commit_received_recovery_scalar_domain` -/
def commitReceivedRecoveryScalarDomain (codec : RecoveryStateCodec TrustedError)
    (domainKey : DomainKey) (remote : ScalarRegister Bytes)
    (preObservationRevisionId : Option RevisionId) (newHead : P.Revision) :
    SessionRoutine P LocalScalarRecoveryState (RecoveryScalarReceiveCommitError P TrustedError)
      (Option (ScalarRevision Bytes)) := do
  let session ← Routine.load
  commitCandidate (observeDomain session.live domainKey remote preObservationRevisionId)
    (fun live => (codec.encode live).mapError RecoveryScalarReceiveCommitError.trustedState)
    fun trustedState => (Session.commitReceived trustedState newHead).mapError
      RecoveryScalarReceiveCommitError.sync

section Receiving

variable {World : Type}

theorem ensures_commitReceivedScalarDomain {conduct : Conduct P (LocalScalarDomain Bytes) World}
    {session : Session (LocalScalarDomain Bytes)} {world : World}
    {codec : ScalarStateCodec TrustedError} {remote : ScalarRegister Bytes}
    {pre : Option RevisionId} {head : P.Revision} (valid : conduct.Valid world)
    (holds : conduct.Holds session world)
    (may : ∀ live sealed trusted next now, session.live.observeRemote remote pre =
      (.ok sealed, live) → codec.encode live.snapshot = .ok trusted → conduct.Valid now →
      conduct.Holds session now → conduct.Knows world now →
      conduct.Receives session.record trusted head next now →
      conduct.MayBecome session ⟨live, next⟩ now) :
    conduct.Ensures (commitReceivedScalarDomain codec remote pre head) session world
      (Settled conduct world fun sealed stored now => session.live.observeRemote remote pre =
        (.ok sealed, stored.live) ∧
        ∃ trusted, conduct.Receives session.record trusted head stored.record now) := by
  apply Conduct.ensures_load
  apply Surroundings.Ensures.weaken valid
  · apply ensures_commitCandidate valid holds
    intro live sealed trusted built encoded
    apply Conduct.ensures_commitReceived valid holds
    intro next now nowValid still knows received
    exact may live sealed trusted next now (onSuccess_ok_iff.mp (mapError_ok_iff.mp built))
      (mapError_ok_iff.mp encoded) nowValid still knows received
  · intro outcome stored now _ reached
    refine ⟨reached.1, reached.2.1, ?_⟩
    intro sealed done
    obtain ⟨trusted, built, _, received⟩ := reached.2.2 sealed done
    exact ⟨onSuccess_ok_iff.mp (mapError_ok_iff.mp built), trusted, received⟩

theorem ensures_commitReceivedRecoveryScalarDomain
    {conduct : Conduct P LocalScalarRecoveryState World}
    {session : Session LocalScalarRecoveryState} {world : World}
    {codec : RecoveryStateCodec TrustedError} {key : DomainKey} {remote : ScalarRegister Bytes}
    {pre : Option RevisionId} {head : P.Revision} (valid : conduct.Valid world)
    (holds : conduct.Holds session world)
    (may : ∀ live sealed trusted next now,
      (observeDomain session.live key remote pre :
      Except (RecoveryScalarReceiveCommitError P TrustedError) _) = .ok (live, sealed) →
      codec.encode live = .ok trusted → conduct.Valid now → conduct.Holds session now →
      conduct.Knows world now → conduct.Receives session.record trusted head next now →
      conduct.MayBecome session ⟨live, next⟩ now) :
    conduct.Ensures (commitReceivedRecoveryScalarDomain codec key remote pre head) session world
      (Settled conduct world fun _ _ _ => True) := by
  apply Conduct.ensures_load
  apply Surroundings.Ensures.weaken valid
  · apply ensures_commitCandidate valid holds
    intro live sealed trusted built encoded
    apply Conduct.ensures_commitReceived valid holds
    intro next now nowValid still knows received
    exact may live sealed trusted next now built
      (mapError_ok_iff.mp encoded) nowValid still knows received
  · intro outcome stored now _ reached
    exact ⟨reached.1, reached.2.1, fun _ _ => trivial⟩

end Receiving

namespace Intake

variable {Failure Item : Type} {intake : Intake Failure Item} {channel : Channel}

/-- A taken object was taken before, or its part is ingested and a publication
that it completes is delivered. -/
theorem take_cases {assembly next : Assembly Item} {encoded : Bytes}
    (done : intake.take channel assembly encoded = .ok next) :
    (encoded ∈ assembly.seenWireObjects ∧ next = assembly) ∨
    ∃ part clear delivered, decodeProtectedSyncPart encoded = .ok part ∧
      intake.check part = .ok () ∧ unprotectScalarPart channel part = .ok clear ∧
      assembly.inbox.ingest channel part = (.ok delivered, next.inbox) ∧
      next.seenWireObjects = assembly.seenWireObjects.insert encoded ∧
      ((delivered = none ∧ next.completed = assembly.completed) ∨
        ∃ projection item, delivered = some projection ∧
          intake.complete assembly.completed projection = .ok item ∧
          next.completed = assembly.completed ++ [item]) := by
  unfold take at done
  split at done
  · rename_i repeated
    cases done
    exact Or.inl ⟨repeated, rfl⟩
  · right
    simp only [bind_ok_iff, mapError_ok_iff, Prod.exists, onSuccess_ok_iff, pure_eq_ok,
      Except.ok.injEq] at done
    obtain ⟨part, decoded, ⟨⟩, included, inbox, delivered, ingested, completed, kept, rfl⟩ := done
    cases opened : unprotectScalarPart channel part with
    | error failure => simp [MultipartInbox.ingest, opened] at ingested
    | ok clear =>
      refine ⟨part, clear, delivered, decoded, included, opened, ingested, rfl, ?_⟩
      cases delivered with
      | none =>
        simp only [deliver, Except.ok.injEq] at kept
        exact Or.inl ⟨rfl, kept.symm⟩
      | some projection =>
        simp only [deliver, bind_ok_iff, pure_eq_ok, Except.ok.injEq] at kept
        obtain ⟨item, finished, same⟩ := kept
        exact Or.inr ⟨projection, item, rfl, finished, same.symm⟩

theorem take_fresh {assembly : Assembly Item} {encoded : Bytes} {part : ProtectedSyncPart}
    {delivered : Option ScalarSyncProjection} {inbox : MultipartInbox}
    (fresh : encoded ∉ assembly.seenWireObjects)
    (decoded : decodeProtectedSyncPart encoded = .ok part)
    (included : intake.check part = .ok ())
    (ingested : assembly.inbox.ingest channel part = (.ok delivered, inbox)) :
    intake.take channel assembly encoded = (intake.deliver assembly.completed delivered).map
      fun completed => ⟨inbox, completed, assembly.seenWireObjects.insert encoded⟩ := by
  rw [take, if_neg fresh, decoded]
  simp only [Except.mapError, bind, Except.bind, included, ingested, onSuccess]
  cases intake.deliver assembly.completed delivered with
  | ok completed => rfl
  | error failure => rfl

theorem take_completed {assembly next : Assembly Item} {encoded : Bytes}
    (done : intake.take channel assembly encoded = .ok next) :
    assembly.completed ⊆ next.completed := by
  rcases take_cases done with ⟨_, same⟩ | ⟨_, _, _, _, _, _, _, _, ⟨_, same⟩ | ⟨_, _, _, _, same⟩⟩
  · rw [same]
    exact fun _ member => member
  · rw [same]
    exact fun _ member => member
  · rw [same]
    exact fun _ member => List.mem_append_left _ member

theorem foldlM_completed {objects : List Bytes} {assembly last : Assembly Item}
    (done : objects.foldlM (intake.take channel) assembly = .ok last) :
    assembly.completed ⊆ last.completed :=
  foldlM_invariant (fun state : Assembly Item => assembly.completed ⊆ state.completed)
    (fun _ _ _ _ inside taken => fun _ member => take_completed taken (inside member))
    (fun _ member => member) done

variable (carries : Item → DomainKey → ScalarRevision Bytes → Prop)

/-- The statements that an assembly has delivered or still holds. -/
def Collected (assembly : Assembly Item) (key : DomainKey)
    (revision : ScalarRevision Bytes) : Prop :=
  (∃ item ∈ assembly.completed, carries item key revision) ∨ assembly.inbox.Carries key revision

variable {carries}

/-- One object adds exactly its own statements. -/
theorem take_collected (faithful : ∀ completed projection item,
      intake.complete completed projection = .ok item → ∀ key revision,
        carries item key revision ↔ projection.Carries key revision)
    {assembly next : Assembly Item} {encoded : Bytes} (fresh : encoded ∉ assembly.seenWireObjects)
    (done : intake.take channel assembly encoded = .ok next) (key : DomainKey)
    (revision : ScalarRevision Bytes) : Collected carries next key revision ↔
      Collected carries assembly key revision ∨ ObjectCarries channel encoded key revision := by
  rcases take_cases done with ⟨repeated, _⟩ | ⟨part, clear, delivered, decoded, _, opened,
    ingested, _, outcome⟩
  · exact absurd repeated fresh
  have object : ObjectCarries channel encoded key revision ↔ clear.Carries key revision := by
    constructor
    · intro carried
      obtain ⟨other, projection, same, unprotected, inside⟩ := carried
      rw [decoded] at same
      cases same
      rw [opened] at unprotected
      cases unprotected
      exact inside
    · exact fun inside => ⟨part, clear, decoded, opened, inside⟩
  have kept := MultipartInbox.ingest_carries opened ingested key revision
  rw [object, Collected, Collected, or_assoc, ← kept]
  rcases outcome with ⟨rfl, same⟩ | ⟨projection, item, rfl, finished, same⟩
  · simp [same]
  · have delivered := faithful assembly.completed projection item finished key revision
    simp [same, or_and_right, exists_or, delivered, or_assoc]

variable (channel carries) in
/-- The objects taken so far are the ones seen, and their statements are collected. -/
structure Covers (assembly : Assembly Item) (objects : List Bytes) : Prop where
  seen : ∀ encoded, encoded ∈ assembly.seenWireObjects ↔ encoded ∈ objects
  collected : ∀ key revision, Collected carries assembly key revision ↔
    ∃ encoded ∈ objects, ObjectCarries channel encoded key revision

theorem mem_insert_iff {seen : ExtTreeSet Bytes} {taken : List Bytes}
    (same : ∀ object, object ∈ seen ↔ object ∈ taken) {object : Bytes} (other : Bytes) :
    other ∈ seen.insert object ↔ other ∈ taken ++ [object] := by
  rw [ExtTreeSet.mem_insert, Std.LawfulEqCmp.compare_eq_iff_eq, same, List.mem_append,
    List.mem_singleton, or_comm, eq_comm]

theorem take_covers (faithful : ∀ completed projection item,
      intake.complete completed projection = .ok item → ∀ key revision,
        carries item key revision ↔ projection.Carries key revision)
    {assembly next : Assembly Item} {encoded : Bytes} {before : List Bytes}
    (covers : Covers channel carries assembly before)
    (done : intake.take channel assembly encoded = .ok next) :
    Covers channel carries next (before ++ [encoded]) := by
  by_cases repeated : encoded ∈ assembly.seenWireObjects
  · have same : next = assembly := by
      rcases take_cases done with ⟨_, same⟩ | ⟨part, _, _, _, _, _, _, _, _⟩
      · exact same
      · simp only [take, repeated, ↓reduceIte, Except.ok.injEq] at done
        exact done.symm
    subst same
    have known : encoded ∈ before := (covers.seen encoded).mp repeated
    constructor
    · intro other
      rw [covers.seen, List.mem_append, List.mem_singleton]
      constructor
      · exact Or.inl
      · intro either
        rcases either with old | new
        · exact old
        · exact new ▸ known
    · intro key revision
      rw [covers.collected]
      simp only [List.mem_append, List.mem_singleton, or_and_right, exists_or, exists_eq_left]
      constructor
      · exact Or.inl
      · intro either
        rcases either with old | new
        · exact old
        · exact ⟨encoded, known, new⟩
  · have inserted : next.seenWireObjects = assembly.seenWireObjects.insert encoded := by
      rcases take_cases done with ⟨present, _⟩ | ⟨_, _, _, _, _, _, _, stored, _⟩
      · exact absurd present repeated
      · exact stored
    constructor
    · intro other
      rw [inserted]
      exact mem_insert_iff covers.seen other
    · intro key revision
      rw [take_collected faithful repeated done, covers.collected]
      simp only [List.mem_append, List.mem_singleton, or_and_right, exists_or, exists_eq_left]

theorem foldlM_covers (faithful : ∀ completed projection item,
      intake.complete completed projection = .ok item → ∀ key revision,
        carries item key revision ↔ projection.Carries key revision)
    {objects before : List Bytes} {assembly last : Assembly Item}
    (covers : Covers channel carries assembly before)
    (done : objects.foldlM (intake.take channel) assembly = .ok last) :
    Covers channel carries last (before ++ objects) := by
  induction objects generalizing assembly before with
  | nil =>
    cases done
    rwa [List.append_nil]
  | cons encoded rest ih =>
    rw [List.foldlM_cons, bind_ok_iff] at done
    obtain ⟨next, taken, finished⟩ := done
    have further := ih (take_covers faithful covers taken) finished
    rwa [List.append_assoc, List.singleton_append] at further

/-- A complete range delivers exactly the statements of its objects. -/
theorem takeAll_carries
    (faithful : ∀ completed projection item, intake.complete completed projection = .ok item →
      ∀ key revision, carries item key revision ↔ projection.Carries key revision)
    {objects : List Bytes} {last : Assembly Item}
    (done : intake.takeAll channel objects = .ok last)
    (complete : last.inbox.pendingPublications = 0) (key : DomainKey)
    (revision : ScalarRevision Bytes) :
    (∃ item ∈ last.completed, carries item key revision) ↔
      ∃ encoded ∈ objects, ObjectCarries channel encoded key revision := by
  have start : Covers channel carries (⟨.empty, [], ∅⟩ : Assembly Item) [] := by
    constructor
    · simp
    · intro key revision
      simp [Collected, MultipartInbox.Carries, MultipartInbox.empty]
  have covers := foldlM_covers faithful start done
  rw [List.nil_append] at covers
  rw [← covers.collected, Collected]
  have none : ¬ last.inbox.Carries key revision := by
    intro held
    obtain ⟨id, pending, found, _⟩ := held
    have empty : last.inbox.pending = ∅ := ExtTreeMap.eq_empty_iff_size_eq_zero.mpr complete
    simp [empty] at found
  simp [none]

variable (channel) in
/-- Every object that opens as a part opens to a projection with the property. -/
def OpensTo (good : ScalarSyncProjection → Prop) (objects : List Bytes) : Prop :=
  ∀ encoded ∈ objects, ∀ part clear, decodeProtectedSyncPart encoded = .ok part →
    unprotectScalarPart channel part = .ok clear → good clear

theorem take_every {good : ScalarSyncProjection → Prop} {goodItem : Item → Prop}
    (closed : ScalarSyncProjection.MergeClosed good)
    (faithful : ∀ completed projection item, intake.complete completed projection = .ok item →
      good projection → goodItem item)
    {assembly next : Assembly Item} {encoded : Bytes} (opens : OpensTo channel good [encoded])
    (items : ∀ item ∈ assembly.completed, goodItem item) (every : assembly.inbox.Every good)
    (taken : intake.take channel assembly encoded = .ok next) :
    (∀ item ∈ next.completed, goodItem item) ∧ next.inbox.Every good := by
  rcases take_cases taken with ⟨_, same⟩ | ⟨part, clear, delivered, decoded, _, opened,
    ingested, _, outcome⟩
  · exact same ▸ ⟨items, every⟩
  have clearGood := opens encoded List.mem_cons_self part clear decoded opened
  obtain ⟨inboxEvery, deliveredGood⟩ :=
    MultipartInbox.ingest_every closed every clearGood opened ingested
  refine ⟨?_, inboxEvery⟩
  rcases outcome with ⟨_, same⟩ | ⟨projection, item, rfl, finished, same⟩
  · exact same ▸ items
  · intro other member
    rw [same, List.mem_append, List.mem_singleton] at member
    rcases member with old | new
    · exact items other old
    · exact new ▸ faithful assembly.completed projection item finished
        (deliveredGood projection rfl)

/-- What holds of all parts of a range holds of everything that it delivers. -/
theorem takeAll_every {good : ScalarSyncProjection → Prop} {goodItem : Item → Prop}
    (closed : ScalarSyncProjection.MergeClosed good)
    (faithful : ∀ completed projection item, intake.complete completed projection = .ok item →
      good projection → goodItem item)
    {objects : List Bytes} {last : Assembly Item} (opens : OpensTo channel good objects)
    (done : intake.takeAll channel objects = .ok last) :
    ∀ item ∈ last.completed, goodItem item := by
  have both : (∀ item ∈ last.completed, goodItem item) ∧ last.inbox.Every good := by
    apply foldlM_invariant (fun assembly : Assembly Item =>
      (∀ item ∈ assembly.completed, goodItem item) ∧ assembly.inbox.Every good) ?_ ?_ done
    · intro assembly encoded next member holds taken
      apply take_every closed faithful ?_ holds.1 holds.2 taken
      intro other here
      rw [List.mem_singleton] at here
      exact opens other (here ▸ member)
    · refine ⟨by simp, ?_⟩
      intro id pending found
      simp [MultipartInbox.empty] at found
  exact both.1

theorem opensTo_sound {objects : List Bytes} : OpensTo channel ScalarSyncProjection.Sound objects :=
  fun _ _ _ _ _ opened => unprotectScalarPart_sound opened

/-- Something was delivered or is still waited for. -/
def Underway (assembly : Assembly Item) : Prop :=
  assembly.completed ≠ [] ∨ assembly.inbox.pending.isEmpty = false

theorem take_underway {assembly next : Assembly Item} {encoded : Bytes}
    (fresh : encoded ∉ assembly.seenWireObjects)
    (taken : intake.take channel assembly encoded = .ok next) : Underway next := by
  rcases Intake.take_cases taken with
    ⟨repeated, _⟩ | ⟨part, clear, delivered, _, _, opened, ingested, _,
      ⟨none, _⟩ | ⟨_, item, _, _, completed⟩⟩
  · exact absurd repeated fresh
  · obtain ⟨filled, _, ⟨_, inbox⟩ | ⟨projection, _, impossible, _⟩⟩ :=
      MultipartInbox.ingest_cases opened ingested
    · right
      rw [inbox]
      simp
    · rw [none] at impossible
      cases impossible
  · left
    rw [completed]
    simp

/-- A non-empty complete range delivers something. -/
theorem takeAll_delivers {objects : List Bytes} {last : Assembly Item} (some_ : objects ≠ [])
    (taken : intake.takeAll channel objects = .ok last)
    (complete : last.inbox.pendingPublications = 0) :
    last.completed ≠ [] := by
  have underway : Underway last := by
    cases objects with
    | nil => exact absurd rfl some_
    | cons encoded rest =>
      rw [Intake.takeAll, List.foldlM_cons, bind_ok_iff] at taken
      obtain ⟨next, first, finished⟩ := taken
      refine foldlM_invariant Underway ?_ (take_underway (by simp) first) finished
      intro assembly object after _ held step
      by_cases repeated : object ∈ assembly.seenWireObjects
      · rw [Intake.take, if_pos repeated, Except.ok.injEq] at step
        exact step ▸ held
      · exact take_underway repeated step
  rcases underway with delivered | waiting
  · exact delivered
  · have none : last.inbox.pending.isEmpty = true := by
      rw [ExtTreeMap.isEmpty_iff, ExtTreeMap.eq_empty_iff_size_eq_zero]
      exact complete
    rw [waiting] at none
    cases none

end Intake

end PrivateContinuum.Runtime
