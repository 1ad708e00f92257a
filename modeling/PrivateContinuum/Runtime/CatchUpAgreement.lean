import PrivateContinuum.Runtime.Delivery
import PrivateContinuum.Sync.SessionLikeness

namespace PrivateContinuum.Runtime

open Std (ExtTreeMap ExtTreeSet)
open PrivateContinuum.Library PrivateContinuum.Core PrivateContinuum.Sync

variable {P : Platform} {TrustedError RecoveryError : Type} {key : DomainKey} {channel : Channel}
  {objects : List Bytes}

section Decoding

variable {registers : List (ScalarRegister Bytes)} {projections : List ScalarSyncProjection}

theorem carriesOnly_iff {register : ScalarRegister Bytes} {projection : ScalarSyncProjection} :
    CarriesOnly key register projection ↔ projection = SyncProjection.single key register := by
  unfold CarriesOnly scalarRegisterFromProjection
  constructor
  · intro carried
    split at carried
    · cases carried
    rename_i sizes
    split at carried
    · rename_i stored found
      cases carried
      have inside : ∀ (other : DomainKey) (value : ScalarRegister Bytes),
          (SyncProjection.single key register).domains[other]? = some value →
            projection.domains[other]? = some value := by
        intro other value there
        obtain ⟨rfl, rfl⟩ := SyncProjection.get_single.mp there
        exact found
      have same := map_eq_of_submap inside (by
        rw [not_not.mp sizes, SyncProjection.single, ExtTreeMap.size_insert]
        simp)
      cases projection
      cases same
      rfl
    · cases carried
  · intro same
    subst same
    have stored : (SyncProjection.single key register).get key = some register :=
      SyncProjection.get_single.mpr ⟨rfl, rfl⟩
    have sizes : (SyncProjection.single key register).domains.size = 1 := by
      rw [SyncProjection.single, ExtTreeMap.size_insert]
      simp
    rw [if_neg (not_not.mpr sizes), stored]

/-- What one domain decodes, the container decodes too. -/
theorem decodeProjections_of_domainObjects
    (decoded : decodeCompleteScalarDomainObjects channel key objects = .ok registers) :
    ∃ projections, (decodeCompleteScalarProjections channel objects :
        Except (ScalarRecoveryCatchUpError P RecoveryError) _) = .ok projections ∧
      List.Forall₂ (CarriesOnly key) registers projections := by
  have steps := decoded
  rw [decodeCompleteScalarDomainObjects, bind_ok_iff] at steps
  obtain ⟨single, taken, _⟩ := steps
  obtain ⟨last, also, alongside⟩ :
    ∃ last, (recoveryIntake P RecoveryError).takeAll channel objects = .ok last ∧
      Alongside key single last := alongside_empty.foldlM taken
  rw [decodeDomainObjects_eq taken] at decoded
  rw [decodeProjections_eq also, ← alongside.inbox]
  split at decoded
  · cases decoded
  · rename_i none
    cases decoded
    exact ⟨last.completed, if_neg none, alongside.completed⟩

/-- Every publication of the range carries exactly the domain. -/
def ExactlyDomain (P : Platform) (RecoveryError : Type) (channel : Channel) (key : DomainKey)
    (objects : List Bytes) : Prop :=
  ∀ projections, (decodeCompleteScalarProjections channel objects :
    Except (ScalarRecoveryCatchUpError P RecoveryError) _) = .ok projections →
    ∀ projection ∈ projections, ∃ register, CarriesOnly key register projection

theorem domainObjects_of_decodeProjections
    (exactly : ExactlyDomain P RecoveryError channel key objects)
    (decoded : (decodeCompleteScalarProjections channel objects :
      Except (ScalarRecoveryCatchUpError P RecoveryError) _) = .ok projections) :
    ∃ registers, decodeCompleteScalarDomainObjects channel key objects = .ok registers := by
  have carried := exactly projections decoded
  have steps := decoded
  rw [decodeCompleteScalarProjections, bind_ok_iff] at steps
  obtain ⟨last, taken, _⟩ := steps
  rw [decodeProjections_eq taken] at decoded
  split at decoded
  · cases decoded
  · rename_i none
    cases decoded
    obtain ⟨single, also, alongside⟩ :
      ∃ single, (domainIntake key).takeAll channel objects = .ok single ∧
        Alongside key single last := alongside_empty.foldlM_back taken carried
    refine ⟨single.completed, ?_⟩
    rw [decodeDomainObjects_eq also, alongside.inbox, if_neg none]

theorem decodeProjections_ne_nil (some_objects : objects ≠ [])
    (decoded : (decodeCompleteScalarProjections channel objects :
      Except (ScalarRecoveryCatchUpError P RecoveryError) _) = .ok projections) :
    projections ≠ [] := by
  have steps := decoded
  rw [decodeCompleteScalarProjections, bind_ok_iff] at steps
  obtain ⟨last, taken, _⟩ := steps
  rw [decodeProjections_eq taken] at decoded
  split at decoded
  · cases decoded
  · rename_i none
    cases decoded
    exact Intake.takeAll_delivers some_objects taken (not_not.mp none)

theorem single_toList {register : ScalarRegister Bytes} :
    (SyncProjection.single key register).domains.toList = [(key, register)] :=
  map_toList_singleton key register

theorem empty_merge_single {register : ScalarRegister Bytes} :
    SyncProjection.merge .empty (SyncProjection.single key register) =
      .ok (SyncProjection.single key register) := by
  rw [SyncProjection.merge, single_toList]
  rfl

theorem merge_single {first second : ScalarRegister Bytes} :
    SyncProjection.merge (SyncProjection.single key first) (SyncProjection.single key second) =
      (first.merge second).map (SyncProjection.single key) := by
  have stored : (SyncProjection.single key first).domains[key]? = some first := by
    rw [SyncProjection.single, ExtTreeMap.getElem?_insert_self]
  rw [SyncProjection.merge, single_toList, List.foldlM_cons]
  simp only [SyncProjection.mergeDomain]
  rw [stored]
  change (((first.merge second >>= fun joined => _) >>= _) >>= _) = _
  cases first.merge second with
  | error failure => rfl
  | ok joined =>
    have replaced : (SyncProjection.single key first).domains.insert key joined =
        (SyncProjection.single key joined).domains := by
      apply ExtTreeMap.ext_getElem?
      intro other
      rw [SyncProjection.single, SyncProjection.single, ExtTreeMap.getElem?_insert,
        ExtTreeMap.getElem?_insert, ExtTreeMap.getElem?_insert]
      split
      · rfl
      · rfl
    change Except.ok
      (SyncProjection.mk ((SyncProjection.single key first).domains.insert key joined)) = _
    rw [replaced]
    rfl

theorem mergeAll_single (first : ScalarRegister Bytes)
    (carried : List.Forall₂ (CarriesOnly key) registers projections) :
    projections.foldlM SyncProjection.merge (SyncProjection.single key first) =
      (registers.foldlM ScalarRegister.merge first).map (SyncProjection.single key) := by
  induction carried generalizing first with
  | nil => rfl
  | cons carries _ ih =>
    rw [carriesOnly_iff] at carries
    rw [List.foldlM_cons, List.foldlM_cons, carries, merge_single]
    cases merged : first.merge _ with
    | error failure => rfl
    | ok joined => exact ih joined

variable {spec : ScalarCatchUpSpec} {remote : ScalarRegister Bytes}

/-- The remote register of one domain is the whole remote projection. -/
theorem fetchedProjection_of_register (some_objects : objects ≠ [])
    (fetched : (fetchedRegister spec objects : Except (ScalarCatchUpError P TrustedError) _) =
      .ok remote) :
    (fetchedProjection spec.channel objects :
      Except (ScalarRecoveryCatchUpError P RecoveryError) _) =
      .ok (SyncProjection.single spec.domainKey remote) := by
  simp only [fetchedRegister, bind_ok_iff, mapError_ok_iff] at fetched
  obtain ⟨registers, decoded, combined⟩ := fetched
  obtain ⟨projections, also, carried⟩ :
      ∃ projections, (decodeCompleteScalarProjections spec.channel objects :
      Except (ScalarRecoveryCatchUpError P RecoveryError) _) = .ok projections ∧
      List.Forall₂ (CarriesOnly spec.domainKey) registers projections :=
      decodeProjections_of_domainObjects decoded
  have nonempty := decodeProjections_ne_nil some_objects also
  simp only [fetchedProjection, bind_ok_iff, mapError_ok_iff]
  refine ⟨projections, also, ?_⟩
  cases carried with
  | nil => exact absurd rfl nonempty
  | @cons first projection others later carries rest =>
    rw [carriesOnly_iff] at carries
    rw [List.foldlM_cons, carries, empty_merge_single]
    have merged := mergeAll_single first rest
    rw [combineRegisters] at combined
    rw [combined] at merged
    exact merged

/-- When every publication carries exactly the domain, the projection is fetched only
together with the register. -/
theorem register_of_fetchedProjection
    (exactly : ExactlyDomain P RecoveryError spec.channel spec.domainKey objects)
    {combined : ScalarSyncProjection}
    (fetched : (fetchedProjection spec.channel objects :
      Except (ScalarRecoveryCatchUpError P RecoveryError) _) = .ok combined) :
    ∃ remote, (fetchedRegister spec objects : Except (ScalarCatchUpError P TrustedError) _) =
      .ok remote := by
  simp only [fetchedProjection, bind_ok_iff, mapError_ok_iff] at fetched
  obtain ⟨projections, decoded, merged⟩ := fetched
  obtain ⟨registers, also⟩ := domainObjects_of_decodeProjections exactly decoded
  obtain ⟨same, again, carried⟩ : ∃ same, (decodeCompleteScalarProjections spec.channel objects :
      Except (ScalarRecoveryCatchUpError P RecoveryError) _) = .ok same ∧
      List.Forall₂ (CarriesOnly spec.domainKey) registers same :=
      decodeProjections_of_domainObjects also
  rw [decoded] at again
  cases again
  simp only [fetchedRegister, bind_ok_iff, mapError_ok_iff]
  cases carried with
  | nil => exact ⟨.empty, _, also, rfl⟩
  | @cons first projection others rest carries carried =>
    rw [carriesOnly_iff] at carries
    rw [List.foldlM_cons, carries, empty_merge_single] at merged
    have joined := mergeAll_single first carried
    cases outcome : others.foldlM ScalarRegister.merge first with
    | ok register => exact ⟨register, _, also, outcome⟩
    | error failure =>
      rw [outcome] at joined
      rw [show ((Except.ok (SyncProjection.single spec.domainKey first) : Except CoreError _) >>=
        fun projection =>
        rest.foldlM SyncProjection.merge projection) =
          rest.foldlM SyncProjection.merge (SyncProjection.single spec.domainKey first) from rfl,
          joined] at merged
      cases merged

end Decoding

section Observing

variable {domain : LocalScalarDomain Bytes} {recovery : LocalScalarRecoveryState}

/-- The container holds the domain and nothing else. -/
def OneDomain (key : DomainKey) (domain : LocalScalarDomain Bytes)
    (recovery : LocalScalarRecoveryState) : Prop :=
  ∀ other, recovery.get other = if key = other then some domain.snapshot else none

/-- The map holds the value, if there is one, under the key and nothing else. -/
def OneEntry {Item : Type} (key : DomainKey) (item : Option Item)
    (map : ExtTreeMap DomainKey Item) : Prop :=
  ∀ other : DomainKey, map[other]? = if key = other then item else none

theorem oneEntry_insert {Item : Type} {item : Item} :
    OneEntry key (some item) ((∅ : ExtTreeMap DomainKey Item).insert key item) := by
  intro other
  simp [ExtTreeMap.getElem?_insert]

/-- The container observes the projection of its only domain as the domain observes
the register. -/
structure ObservedAlike (key : DomainKey) (remote : ScalarRegister Bytes)
    (next : LocalScalarDomain Bytes) (sealed : Option (ScalarRevision Bytes))
    (observation : Observation) : Prop where
  domain : OneDomain key next observation.recovery
  observed : OneEntry key (some remote.ids) observation.observedRevisionIds
  sealed : OneEntry key sealed observation.sealedLocal

theorem restoreDomain_one (reachable : domain.Reachable) (one : OneDomain key domain recovery) :
    recovery.restoreDomain key = .ok (some domain) := by
  have stored := one key
  rw [if_pos rfl] at stored
  rw [LocalScalarRecoveryState.restoreDomain, stored]
  simp only [reachable.wellformed.restore_snapshot]
  rfl

theorem replaceDomain_one {next : LocalScalarDomain Bytes} (reachable : next.Reachable)
    (one : OneDomain key domain recovery) :
    ∃ replaced, recovery.replaceDomain key next.snapshot = .ok replaced ∧
    OneDomain key next replaced := by
  have restored := reachable.wellformed.restore_snapshot
  refine ⟨recovery.put key next.snapshot ⟨next, restored⟩, ?_, ?_⟩
  · rw [LocalScalarRecoveryState.replaceDomain, attach_ok restored]
    rfl
  · intro other
    rw [LocalScalarRecoveryState.get_put, one other]
    split
    · rfl
    · rfl

theorem observed_reachable {next : LocalScalarDomain Bytes} {remote : ScalarRegister Bytes}
    {pre : Option RevisionId} {outcome : Except CoreError (Option (ScalarRevision Bytes))}
    (reachable : domain.Reachable) (observed : domain.observeRemote remote pre = (outcome, next)) :
    next.Reachable := by
  have later := reachable.run [.observeRemote remote pre]
  have same : domain.run [.observeRemote remote pre] = next := by
    change ((domain.observeRemote remote pre).map _ id).2 = next
    rw [observed]
    rfl
  rwa [same] at later

theorem observeProjected_one {pre : ExtTreeMap DomainKey RevisionId}
    {remote : ScalarRegister Bytes} {next : LocalScalarDomain Bytes}
    {sealed : Option (ScalarRevision Bytes)} (reachable : domain.Reachable)
    (one : OneDomain key domain recovery)
    (observed : domain.observeRemote remote pre[key]? = (.ok sealed, next)) :
    ∃ observation, (observeProjected pre ⟨recovery, ∅, ∅⟩ (key, remote) :
        Except (ScalarRecoveryCatchUpError P RecoveryError) _) = .ok observation ∧
      ObservedAlike key remote next sealed observation := by
  obtain ⟨replaced, stored, still⟩ := replaceDomain_one (observed_reachable reachable observed) one
  rw [observeProjected, restoreDomain_one reachable one]
  simp only [Except.mapError, bind, Except.bind, observed, onSuccess, stored]
  cases sealed with
  | none =>
    refine ⟨_, rfl, still, oneEntry_insert, ?_⟩
    intro other
    simp
  | some revision => exact ⟨_, rfl, still, oneEntry_insert, oneEntry_insert⟩

theorem observeProjected_one_error {pre : ExtTreeMap DomainKey RevisionId}
    {remote : ScalarRegister Bytes} {next : LocalScalarDomain Bytes} {failure : CoreError}
    (reachable : domain.Reachable) (one : OneDomain key domain recovery)
    (observed : domain.observeRemote remote pre[key]? = (.error failure, next)) :
    (observeProjected pre ⟨recovery, ∅, ∅⟩ (key, remote) :
      Except (ScalarRecoveryCatchUpError P RecoveryError) _) = .error (.core failure) := by
  rw [observeProjected, restoreDomain_one reachable one]
  simp only [Except.mapError, bind, Except.bind, observed, onSuccess]

variable {spec : ScalarCatchUpSpec} {recoverySpec : ScalarRecoveryCatchUpSpec}

/-- The specifications select the same channel and the same revision for the domain. -/
structure SpecsAgree (spec : ScalarCatchUpSpec)
    (recoverySpec : ScalarRecoveryCatchUpSpec) : Prop where
  channel : recoverySpec.channel = spec.channel
  revision : recoverySpec.preObservationRevisionIds[spec.domainKey]? = spec.preObservationRevisionId

theorem receiveProjections_single {remote : ScalarRegister Bytes}
    (agree : SpecsAgree spec recoverySpec)
    (projected : (fetchedProjection spec.channel objects :
      Except (ScalarRecoveryCatchUpError P RecoveryError) _) =
      .ok (SyncProjection.single spec.domainKey remote)) :
    (receiveProjections recoverySpec recovery objects :
      Except (ScalarRecoveryCatchUpError P RecoveryError) _) =
      observeProjected recoverySpec.preObservationRevisionIds ⟨recovery, ∅, ∅⟩
        (spec.domainKey, remote) := by
  rw [receiveProjections, agree.channel, projected]
  change List.foldlM (observeProjected recoverySpec.preObservationRevisionIds) ⟨recovery, ∅, ∅⟩
    (SyncProjection.single spec.domainKey remote).domains.toList = _
  rw [single_toList, List.foldlM_cons]
  exact bind_pure _

theorem receiveProjections_observes {remote : ScalarRegister Bytes}
    {next : LocalScalarDomain Bytes} {sealed : Option (ScalarRevision Bytes)}
    (reachable : domain.Reachable) (agree : SpecsAgree spec recoverySpec)
    (one : OneDomain spec.domainKey domain recovery) (some_objects : objects ≠ [])
    (fetched : (fetchedRegister spec objects : Except (ScalarCatchUpError P TrustedError) _) =
      .ok remote)
    (observed : domain.observeRemote remote spec.preObservationRevisionId = (.ok sealed, next)) :
    ∃ observation, (receiveProjections recoverySpec recovery objects :
        Except (ScalarRecoveryCatchUpError P RecoveryError) _) = .ok observation ∧
      ObservedAlike spec.domainKey remote next sealed observation := by
  have projected :
      (fetchedProjection spec.channel objects :
        Except (ScalarRecoveryCatchUpError P RecoveryError) _) =
      .ok (SyncProjection.single spec.domainKey remote) :=
      fetchedProjection_of_register some_objects fetched
  rw [← agree.revision] at observed
  obtain ⟨observation, done, alike⟩ : ∃ observation,
      (observeProjected recoverySpec.preObservationRevisionIds ⟨recovery, ∅, ∅⟩
        (spec.domainKey, remote) :
        Except (ScalarRecoveryCatchUpError P RecoveryError) _) = .ok observation ∧
      ObservedAlike spec.domainKey remote next sealed observation :=
      observeProjected_one reachable one observed
  exact ⟨observation, (receiveProjections_single agree projected).trans done, alike⟩

theorem receiveProjections_refuses (reachable : domain.Reachable)
    (agree : SpecsAgree spec recoverySpec) (one : OneDomain spec.domainKey domain recovery)
    (some_objects : objects ≠ [])
    (exactly : ExactlyDomain P RecoveryError spec.channel spec.domainKey objects)
    (refused : ∀ remote sealed next,
      (fetchedRegister spec objects : Except (ScalarCatchUpError P TrustedError) _) = .ok remote →
      domain.observeRemote remote spec.preObservationRevisionId ≠ (.ok sealed, next)) :
    ∃ failure, (receiveProjections recoverySpec recovery objects :
      Except (ScalarRecoveryCatchUpError P RecoveryError) _) = .error failure := by
  cases projected : (fetchedProjection spec.channel objects :
      Except (ScalarRecoveryCatchUpError P RecoveryError) ScalarSyncProjection) with
  | error failure =>
    refine ⟨failure, ?_⟩
    rw [receiveProjections, agree.channel, projected]
    rfl
  | ok combined =>
    obtain ⟨remote, fetched⟩ : ∃ remote, (fetchedRegister spec objects :
      Except (ScalarCatchUpError P TrustedError) _) = .ok remote :=
      register_of_fetchedProjection exactly projected
    have single :
        (fetchedProjection spec.channel objects :
          Except (ScalarRecoveryCatchUpError P RecoveryError) _) =
        .ok (SyncProjection.single spec.domainKey remote) :=
        fetchedProjection_of_register some_objects fetched
    rw [projected] at single
    cases single
    rcases observed : domain.observeRemote remote spec.preObservationRevisionId with ⟨outcome, next⟩
    cases outcome with
    | ok sealed => exact absurd observed (refused remote sealed next fetched)
    | error failure =>
      rw [← agree.revision] at observed
      exact ⟨.core failure, (receiveProjections_single agree projected).trans
        (observeProjected_one_error reachable one observed)⟩

end Observing

section Passing

open SessionLikeness

variable {accepts : List Bytes → Prop} {lenient : Prop}

theorem fails_alike {Failure Failing Value Result : Type} {first : Except Failure Value}
    {second : Except Failing Result} {failure : Failure}
    (alike : (∃ value, first = .ok value) ↔ ∃ result, second = .ok result)
    (refused : first = .error failure) :
    ∃ failing, second = .error failing := by
  cases second with
  | error failing => exact ⟨failing, rfl⟩
  | ok result =>
    obtain ⟨value, succeeded⟩ := alike.mpr ⟨result, rfl⟩
    rw [refused] at succeeded
    cases succeeded

theorem matches_commitCandidate {Live Other Failure Failing Result Answer : Type}
    {session : Session Live} {other : Session Other} {candidate : Except Failure (Live × Result)}
    {offered : Except Failing (Other × Answer)} {encode : Live → Except Failure Bytes}
    {encoding : Other → Except Failing Bytes}
    {commit : Bytes → SessionRoutine P Live Failure Unit}
    {committing : Bytes → SessionRoutine P Other Failing Unit}
    (corresponds : Live → Result → Other → Answer → Prop)
    (both : ∀ live result, candidate = .ok (live, result) →
      ∃ held answer, offered = .ok (held, answer) ∧ corresponds live result held answer)
    (neither : ¬ lenient → ∀ failure, candidate = .error failure →
      ∃ failing, offered = .error failing)
    (encodes : ∀ live result held answer, corresponds live result held answer →
      ((∃ bytes, encode live = .ok bytes) ↔ ∃ bytes, encoding held = .ok bytes))
    (commits : ∀ bytes image, (sessionLikeness P accepts).Matches lenient (fun _ _ kept held =>
      kept.record.Alike held.record) (Kept session other) (commit bytes)
      (committing image) session other) :
    (sessionLikeness P accepts).Matches lenient (fun result answer kept held =>
        corresponds kept.live result held.live answer ∧ kept.record.Alike held.record)
          (Kept session other)
      (commitCandidate candidate encode commit) (commitCandidate offered encoding committing)
        session other := by
  refine Likeness.Matches.bind
    (?_ : (sessionLikeness P accepts).Matches lenient (fun first second kept held =>
    corresponds first.1 first.2 second.1 second.2 ∧ kept = session ∧ held = other) _ _ _ _ _) ?_
  · apply Likeness.matches_check
    · rintro ⟨live, result⟩ built
      obtain ⟨held, answer, also, holds⟩ := both live result built
      exact ⟨(held, answer), also, holds, rfl, rfl⟩
    · intro strict failure refused
      obtain ⟨failing, also⟩ := neither strict failure refused
      exact ⟨failing, also, rfl, rfl⟩
  rintro ⟨live, result⟩ ⟨offer, answer⟩ kept held ⟨holds, rfl, rfl⟩
  refine Likeness.Matches.bind (?_ : (sessionLikeness P accepts).Matches lenient
    (fun _ _ now then' => now = kept ∧ then' = held) _ _ _ _ _) ?_
  · apply Likeness.matches_check
    · intro bytes encoded
      obtain ⟨image, also⟩ := (encodes live result offer answer holds).mp ⟨bytes, encoded⟩
      exact ⟨image, also, rfl, rfl⟩
    · intro _ failure refused
      obtain ⟨failing, also⟩ := fails_alike (encodes live result offer answer holds) refused
      exact ⟨failing, also, rfl, rfl⟩
  rintro bytes image now held' ⟨rfl, rfl⟩
  apply Likeness.Matches.bind (commits bytes image)
  intro _ _ stored storing alike
  exact Or.inr ⟨_, rfl, holds, alike⟩

theorem matches_received {Live Other Failure Failing : Type} {session : Session Live}
    {other : Session Other} {wrap : SessionCommitError P → Failure}
    {wrapping : SessionCommitError P → Failing} {head : P.Revision}
    (alike : session.record.Alike other.record) (bytes image : Bytes) :
    (sessionLikeness P accepts).Matches lenient (fun _ _ kept held => kept.live = session.live ∧
        held.live = other.live ∧ kept.record.Alike held.record) (Kept session other)
      ((Session.commitReceived bytes head).mapError wrap)
        ((Session.commitReceived image head).mapError wrapping)
      session other := by
  apply Likeness.Matches.mapError (matches_commitReceived bytes image head alike)
  rintro failure failing kept held ⟨_, rfl, rfl⟩
  exact ⟨rfl, rfl⟩

/-- The session of the domain and the session of the container that holds only it. -/
structure Twin (key : DomainKey) (session : Session (LocalScalarDomain Bytes))
    (other : Session LocalScalarRecoveryState) : Prop where
  reachable : session.live.Reachable
  domain : OneDomain key session.live other.live
  record : session.record.Alike other.record

/-- The outcomes report the same head, count, observed revisions and sealed revision. -/
inductive CatchUpsCorrespond (key : DomainKey) :
    ScalarCatchUpOutcome P → ScalarRecoveryCatchUpOutcome P → Prop
  | upToDate (head : Option P.Revision) : CatchUpsCorrespond key (.upToDate head) (.upToDate head)
  | applied (head : P.Revision) (objectCount : Nat) {ids : ExtTreeSet RevisionId}
      {observed : ExtTreeMap DomainKey (ExtTreeSet RevisionId)}
        {revision : Option (ScalarRevision Bytes)}
      {sealed : ExtTreeMap DomainKey (ScalarRevision Bytes)}
        (sameIds : OneEntry key (some ids) observed)
      (sameSealed : OneEntry key revision sealed) :
      CatchUpsCorrespond key (.applied head objectCount ids revision)
        (.applied head objectCount observed sealed)
  | cursorAdvanced (head : P.Revision) :
      CatchUpsCorrespond key (.cursorAdvancedWithoutSemanticObjects head)
      (.cursorAdvancedWithoutSemanticObjects head)
  | baselineUnavailable (head : Option P.Revision) :
      CatchUpsCorrespond key (.baselineUnavailable head) (.baselineUnavailable head)

/-- The codecs accept the same domains, alone and as the only one of a container. -/
def CodecsAgree (key : DomainKey) (codec : ScalarStateCodec TrustedError)
    (recoveryCodec : RecoveryStateCodec RecoveryError) : Prop :=
  ∀ (domain : LocalScalarDomain Bytes) (recovery : LocalScalarRecoveryState), domain.Reachable →
    OneDomain key domain recovery →
      ((∃ bytes, codec.encode domain.snapshot = .ok bytes) ↔
        ∃ bytes, recoveryCodec.encode recovery = .ok bytes)

variable {codec : ScalarStateCodec TrustedError} {recoveryCodec : RecoveryStateCodec RecoveryError}
  {spec : ScalarCatchUpSpec} {recoverySpec : ScalarRecoveryCatchUpSpec}
  {session : Session (LocalScalarDomain Bytes)} {other : Session LocalScalarRecoveryState}

theorem mapError_some_iff {Failure Wrapped Value : Type} {outcome : Except Failure Value}
    {wrap : Failure → Wrapped} :
    (∃ value, outcome.mapError wrap = .ok value) ↔ ∃ value, outcome = .ok value := by
  simp only [mapError_ok_iff]

theorem receiveRecoveryState_at (head : P.Revision) :
    receiveRecoveryState recoveryCodec recoverySpec head objects other =
      commitCandidate ((receiveProjections recoverySpec other.live objects).map fun observation =>
          (observation.recovery, observation.observedRevisionIds, observation.sealedLocal))
        (fun live => (recoveryCodec.encode live).mapError ScalarRecoveryCatchUpError.trustedState)
        (fun trustedState =>
          (Session.commitReceived trustedState head).mapError ScalarRecoveryCatchUpError.commit)
        other :=
  rfl

theorem commitReceivedScalarDomain_at {remote : ScalarRegister Bytes} {pre : Option RevisionId}
    (head : P.Revision) :
    commitReceivedScalarDomain codec remote pre head session =
      commitCandidate
        ((onSuccess (session.live.observeRemote remote pre)).mapError ScalarReceiveCommitError.core)
        (fun live => (codec.encode live.snapshot).mapError ScalarReceiveCommitError.trustedState)
        (fun trustedState =>
          (Session.commitReceived trustedState head).mapError ScalarReceiveCommitError.sync)
        session :=
  rfl

theorem matches_receive (twin : Twin spec.domainKey session other)
    (agree : SpecsAgree spec recoverySpec)
    (codecs : CodecsAgree spec.domainKey codec recoveryCodec) (some_objects : objects ≠ [])
    (exactly : ¬ lenient → ExactlyDomain P RecoveryError spec.channel spec.domainKey objects)
    (head : P.Revision) :
    (sessionLikeness P accepts).Matches lenient (fun received answer kept held =>
        OneEntry spec.domainKey (some received.1) answer.1 ∧
          OneEntry spec.domainKey received.2 answer.2 ∧
          Twin spec.domainKey kept held) (Kept session other)
      (receiveScalarDomain codec spec head objects)
        (receiveRecoveryState recoveryCodec recoverySpec head objects)
      session other := by
  cases fetched : (fetchedRegister spec objects : Except (ScalarCatchUpError P TrustedError) _) with
  | error failure =>
    have ends : (receiveScalarDomain codec spec head objects : SessionRoutine P _ _ _) session =
        .ret (.error failure, session) := by
      rw [receiveScalarDomain, fetched]
      rfl
    rw [Likeness.Matches, ends]
    by_cases free : lenient
    · exact Or.inl ⟨free, failure, rfl⟩
    · obtain ⟨failing, refused⟩ : ∃ failing, (receiveProjections recoverySpec other.live objects :
          Except (ScalarRecoveryCatchUpError P RecoveryError) _) = .error failing :=
        receiveProjections_refuses twin.reachable agree twin.domain some_objects (exactly free)
          fun remote sealed next also => by cases fetched.symm.trans also
      refine Or.inr ⟨(.error failing, other), ?_, rfl, rfl⟩
      rw [receiveRecoveryState_at, refused]
      rfl
  | ok remote =>
    have begins : (receiveScalarDomain codec spec head objects : SessionRoutine P _ _ _) =
        (commitReceivedScalarDomain codec remote spec.preObservationRevisionId head).mapError
          ScalarCatchUpError.receive >>= fun sealed => pure (remote.ids, sealed) := by
      rw [receiveScalarDomain, fetched]
      rfl
    rw [begins]
    refine Likeness.Matches.mapFirst
      (?_ : (sessionLikeness P accepts).Matches lenient (fun sealed answer kept held =>
      OneEntry spec.domainKey (some remote.ids) answer.1 ∧ OneEntry spec.domainKey sealed answer.2 ∧
        Twin spec.domainKey kept held) _ _ _ _ _) ?_
    · refine Likeness.Matches.mapErrorFirst
        (?_ : (sessionLikeness P accepts).Matches lenient _ (Kept session other)
        _ _ _ _) ?_
      · rw [Likeness.Matches, commitReceivedScalarDomain_at, receiveRecoveryState_at]
        apply Likeness.Matches.weaken (matches_commitCandidate (fun live sealed held answer =>
          live.Reachable ∧ OneDomain spec.domainKey live held ∧
            OneEntry spec.domainKey (some remote.ids) answer.1 ∧
            OneEntry spec.domainKey sealed answer.2)
          ?_ ?_ ?_ ?_)
        · rintro sealed answer kept held ⟨⟨reachable, one, ids, revision⟩, alike⟩
          exact ⟨ids, revision, reachable, one, alike⟩
        · exact fun _ _ _ _ => id
        · intro live sealed built
          have observed := onSuccess_ok_iff.mp (mapError_ok_iff.mp built)
          obtain ⟨observation, also, alike⟩ :
              ∃ observation, (receiveProjections recoverySpec other.live objects :
              Except (ScalarRecoveryCatchUpError P RecoveryError) _) = .ok observation ∧
              ObservedAlike spec.domainKey remote live sealed observation :=
            receiveProjections_observes twin.reachable agree twin.domain
              some_objects fetched observed
          rw [also]
          exact ⟨_, _, rfl, observed_reachable twin.reachable observed, alike.domain,
            alike.observed, alike.sealed⟩
        · intro strict failure refused
          obtain ⟨failing, also⟩ : ∃ failing, (receiveProjections recoverySpec other.live objects :
              Except (ScalarRecoveryCatchUpError P RecoveryError) _) = .error failing := by
            apply receiveProjections_refuses twin.reachable agree twin.domain some_objects
              (exactly strict)
            intro register sealed next again observed
            rw [fetched] at again
            cases again
            rw [observed] at refused
            cases refused
          rw [also]
          exact ⟨failing, rfl⟩
        · rintro live sealed held answer ⟨reachable, one, _, _⟩
          rw [mapError_some_iff, mapError_some_iff]
          exact codecs live held reachable one
        · intro bytes image
          apply Likeness.Matches.weaken (matches_received twin.record bytes image)
          · exact fun _ _ _ _ ended => ended.2.2
          · exact fun _ _ _ _ => id
      · exact fun _ _ _ _ => id
    · exact fun _ _ _ _ => id

theorem matches_advance (twin : Twin spec.domainKey session other)
    (codecs : CodecsAgree spec.domainKey codec recoveryCodec) (head : P.Revision) :
    (sessionLikeness P accepts).Matches lenient (fun _ _ kept held => Twin spec.domainKey kept held)
      (Kept session other)
      (advanceCursor
        (fun live => (codec.encode live.snapshot).mapError ScalarCatchUpError.trustedState)
        ScalarCatchUpError.commit head)
      (advanceCursor (fun live =>
        (recoveryCodec.encode live).mapError ScalarRecoveryCatchUpError.trustedState)
        ScalarRecoveryCatchUpError.commit head) session other := by
  apply Likeness.Matches.bind matches_load
  rintro first second kept held ⟨rfl, rfl, rfl, rfl⟩
  have encodes : (∃ bytes, (codec.encode kept.live.snapshot).mapError
        (ScalarCatchUpError.trustedState : TrustedError →
          ScalarCatchUpError P TrustedError) = .ok bytes) ↔
      ∃ image, (recoveryCodec.encode held.live).mapError
        (ScalarRecoveryCatchUpError.trustedState : RecoveryError →
          ScalarRecoveryCatchUpError P RecoveryError) = .ok image := by
    rw [mapError_some_iff, mapError_some_iff]
    exact codecs kept.live held.live twin.reachable twin.domain
  apply Likeness.Matches.bind (matches_check ?_ ?_)
  · rintro bytes image now then' ⟨_, _, rfl, rfl⟩
    apply Likeness.Matches.weaken (matches_received twin.record bytes image)
    · rintro _ _ stored storing ⟨live, holds, alike⟩
      exact ⟨live ▸ twin.reachable, live ▸ holds ▸ twin.domain, alike⟩
    · exact fun _ _ _ _ => id
  · exact fun bytes encoded => encodes.mp ⟨bytes, encoded⟩
  · exact fun _ failure refused => fails_alike encodes refused

/-- The two passes make the same calls and end alike. -/
theorem matches_catchUp (P : Platform) (lenient : Prop)
    (twin : Twin spec.domainKey session other) (agree : SpecsAgree spec recoverySpec)
    (codecs : CodecsAgree spec.domainKey codec recoveryCodec) :
    (sessionLikeness P fun objects => ¬ lenient →
        ExactlyDomain P RecoveryError spec.channel spec.domainKey objects).Matches lenient
      (fun outcome answer kept held => CatchUpsCorrespond spec.domainKey outcome answer ∧
        Twin spec.domainKey kept held) (Kept session other) (catchUpSingleScalarDomain codec spec)
      (catchUpScalarRecoveryState recoveryCodec recoverySpec) session other := by
  refine Likeness.Matches.bind
    (?_ : (sessionLikeness P _).Matches lenient (fun fetched answered kept held =>
    Together session other fetched answered kept held ∧
      ∀ head objects, fetched = .changed head objects →
      ¬ lenient → ExactlyDomain P RecoveryError spec.channel spec.domainKey objects) _ _ _ _ _) ?_
  · apply Likeness.Matches.mapError (matches_fetch twin.record)
    rintro failure failing kept held ⟨_, rfl, rfl⟩
    exact ⟨rfl, rfl⟩
  rintro fetched answered kept held ⟨⟨rfl, rfl, rfl⟩, exactly⟩
  cases fetched with
  | upToDate head => exact Likeness.matches_pure ⟨.upToDate head, twin⟩
  | baselineUnavailable head => exact Likeness.matches_pure ⟨.baselineUnavailable head, twin⟩
  | changed head objects =>
    by_cases empty : objects = []
    · subst empty
      apply Likeness.Matches.bind (matches_advance twin codecs head)
      intro _ _ stored storing still
      exact Likeness.matches_pure ⟨.cursorAdvanced head, still⟩
    · change (sessionLikeness P _).Matches lenient _ _ (if objects.isEmpty then _ else _)
        (if objects.isEmpty then _ else _) kept held
      rw [if_neg (by simpa using empty), if_neg (by simpa using empty)]
      apply Likeness.Matches.bind
        (matches_receive twin agree codecs empty (exactly head objects rfl) head)
      rintro received answer stored storing ⟨ids, sealed, still⟩
      exact Likeness.matches_pure ⟨.applied head objects.length ids sealed, still⟩

/-- What answers the calls does not look at the trusted state of a record. -/
def IgnoresTrustedState
    (surroundings : List (Event (SessionOp P) SessionOp.Answer) → (op : SessionOp P) → op.Answer) :
    Prop :=
  (sessionLikeness P fun _ => True).Insensitive surroundings

theorem IgnoresTrustedState.insensitive
    {surroundings : List (Event (SessionOp P) SessionOp.Answer) → (op : SessionOp P) → op.Answer}
    (ignores : IgnoresTrustedState surroundings) (accepts : List Bytes → Prop) :
    (sessionLikeness P accepts).Insensitive surroundings :=
  ignores

/-- Against the same surroundings, the container catches up whenever the domain does,
with the corresponding outcome, and when every publication carries exactly the domain,
both succeed or both fail and change nothing. -/
theorem catchUp_agree
    {surroundings : List (Event (SessionOp P) SessionOp.Answer) → (op : SessionOp P) → op.Answer}
    (ignores : IgnoresTrustedState surroundings) (twin : Twin spec.domainKey session other)
    (agree : SpecsAgree spec recoverySpec)
    (codecs : CodecsAgree spec.domainKey codec recoveryCodec) :
    let single := ((catchUpSingleScalarDomain codec spec session).run surroundings []).2
    let many :=
      ((catchUpScalarRecoveryState recoveryCodec recoverySpec other).run surroundings []).2
    (∀ outcome kept, single = (.ok outcome, kept) → ∃ answer held, many = (.ok answer, held) ∧
      CatchUpsCorrespond spec.domainKey outcome answer ∧ Twin spec.domainKey kept held) ∧
    ((∀ history known head objects, surroundings history (.fetchSince known) =
        .ok (.changed head objects) →
        ExactlyDomain P RecoveryError spec.channel spec.domainKey objects) →
      (∃ outcome kept answer held, single = (.ok outcome, kept) ∧ many = (.ok answer, held)) ∨
        ∃ failure failing, single = (.error failure, session) ∧
          many = (.error failing, other)) := by
  intro single many
  constructor
  · intro outcome kept ended
    have passes := matches_catchUp P True twin agree codecs
    have related := (passes.run (ignores.insensitive _)
      (fun _ _ _ _ _ _ _ impossible => absurd trivial impossible) fun _ => ⟨outcome, kept, ended⟩).2
    exact Agree.ok_inv related ended
  · intro exactly
    have passes := matches_catchUp P False twin agree codecs
    have related := (passes.run (ignores.insensitive _)
      (fun history op known same head objects told _ => by
        subst same
        exact exactly history known head objects (eq_of_heq told)) fun impossible =>
        impossible.elim).2
    rcases finished : single with ⟨outcome, kept⟩
    cases outcome with
    | ok value =>
      obtain ⟨answer, held, also, _⟩ := Agree.ok_inv related finished
      exact Or.inl ⟨value, kept, answer, held, rfl, also⟩
    | error failure =>
      obtain ⟨failing, held, also, rfl, rfl⟩ := Agree.error_inv related finished
      exact Or.inr ⟨failure, failing, rfl, also⟩

/-- One fetched object with a revision that the clean domain has not seen. -/
theorem catchUp_agree_one_object :
    let platform : Platform := ⟨Nat, Unit, Unit, Unit⟩
    let key : DomainKey := ⟨.ofByte 5, [98]⟩
    let channel : Channel := ⟨.plain, ⟨List.replicate 32 7, rfl⟩, .ofByte 9⟩
    let known : ScalarRegister Bytes := ScalarRegister.empty.put ⟨.ofByte 1, [1], ∅⟩
    let sent : Option Bytes := do
      let made ← (protectScalarPart channel (.ofByte 4) 0 1
        (.single key (ScalarRegister.empty.put ⟨.ofByte 2, [2], ∅⟩))
          (some ⟨List.replicate 24 3, rfl⟩)).toOption
      (encodeProtectedSyncPart made).toOption
    let surroundings (_ : List (Event (SessionOp platform) SessionOp.Answer)) :
      (op : SessionOp platform) → op.Answer
      | .encodeCursor _ => .ok ⟨[1], by decide⟩
      | .decodeCursor _ => .ok 0
      | .fetchSince _ => .ok (.changed 1 sent.toList)
      | .publish _ _ => .error ()
      | .persist _ => .ok ()
    let recoveryCodec : RecoveryStateCodec MultiScalarTrustedStateCodecError :=
      ⟨fun recovery => .ok (recoveryImage recovery), decodeMultiScalarRecoveryState⟩
    let record : DurableSyncRecord := .create [] none
    let session : Session (LocalScalarDomain Bytes) := ⟨⟨⟨known, none⟩, .empty⟩, record⟩
    ∃ recovery answer held, OneDomain key session.live recovery ∧
      ((catchUpScalarRecoveryState recoveryCodec ⟨channel, ∅⟩ ⟨recovery, record⟩ : Proc
        (SessionOp platform) _ _).run surroundings []).2 = (.ok answer, held) ∧
      ∃ ids observed sealed, answer = .applied 1 1 observed sealed ∧
        OneEntry key (some ids) observed ∧
        ids.toList = [.ofByte 2] ∧ held.record.appliedCursor = some ⟨[1], by decide⟩ := by
  intro platform key channel known sent surroundings recoveryCodec record session
  let codec : ScalarStateCodec TrustedStateCodecError :=
    ⟨fun snapshot => .ok (snapshotImage snapshot), decodeLocalScalarSnapshot⟩
  have reachable : session.live.Reachable :=
    ⟨known, _, [], LocalScalarDomain.fromCausal_ok_iff.mpr ⟨by decide +kernel, rfl⟩, rfl⟩
  have restored := reachable.wellformed.restore_snapshot
  let recovery : LocalScalarRecoveryState :=
    LocalScalarRecoveryState.empty.put key session.live.snapshot ⟨session.live, restored⟩
  have one : OneDomain key session.live recovery := by
    intro other
    rw [LocalScalarRecoveryState.get_put]
    rfl
  have ignores : IgnoresTrustedState surroundings := by
    intro before after _ op other alike
    cases op with
    | persist record =>
      cases other with
      | persist next => exact HEq.rfl
      | _ => cases alike
    | _ =>
      cases other <;> cases alike
      exact HEq.rfl
  let single := ((catchUpSingleScalarDomain codec ⟨channel, key, none⟩ session :
    Proc (SessionOp platform) _ _).run surroundings []).2
  let expected : Bool := match single with
    | (.ok (.applied head count ids none), kept) =>
      decide (head = (1 : Nat) ∧ count = 1 ∧ ids.toList = [.ofByte 2] ∧
        kept.record.appliedCursor = some ⟨[1], by decide⟩)
    | (.ok (.applied _ _ _ (some _)), _) => false
    | (.ok (.upToDate _), _) => false
    | (.ok (.cursorAdvancedWithoutSemanticObjects _), _) => false
    | (.ok (.baselineUnavailable _), _) => false
    | (.error _, _) => false
  have runs : expected = true := by decide +kernel
  have twin : Twin key session ⟨recovery, record⟩ := ⟨reachable, one, rfl, rfl⟩
  have specs : SpecsAgree ⟨channel, key, none⟩ ⟨channel, ∅⟩ := ⟨rfl, by simp⟩
  have codecs : CodecsAgree key codec recoveryCodec :=
    fun _ _ _ _ => ⟨fun _ => ⟨_, rfl⟩, fun _ => ⟨_, rfl⟩⟩
  have passes := (catchUp_agree ignores twin specs codecs).1
  rcases ended : single with ⟨outcome, kept⟩
  simp only [expected, ended] at runs
  split at runs
  · rename_i head count ids last same
    cases same
    obtain ⟨rfl, rfl, listed, applied⟩ := of_decide_eq_true runs
    obtain ⟨answer, held, also, corresponds, still⟩ := passes _ _ ended
    refine ⟨recovery, answer, held, one, also, ?_⟩
    cases corresponds with
    | applied _ _ sameIds sameSealed =>
      exact ⟨ids, _, _, rfl, sameIds, listed, still.record.1 ▸ applied⟩
  all_goals cases runs

end Passing

end PrivateContinuum.Runtime
