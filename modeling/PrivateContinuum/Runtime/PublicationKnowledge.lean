import PrivateContinuum.Runtime.RecoveryKnowledge
import PrivateContinuum.Runtime.Resume

namespace PrivateContinuum.Runtime

open Std (ExtTreeMap ExtTreeSet)
open PrivateContinuum.Library PrivateContinuum.Core PrivateContinuum.Sync
open LocalScalarRecoveryState (Statement Site site statedBy)

variable {P : Platform} {TrustedError : Type} {channel : Channel} {objects : List Bytes}

/-- The statements that the objects open to, one by one. -/
def statementsOf (channel : Channel) (objects : List Bytes) : Set Statement :=
  {statement | ∃ object ∈ objects, ObjectCarries channel object statement.1 statement.2}

theorem statementsOf_nil : statementsOf channel [] = ∅ := by
  simp [statementsOf]

theorem statementsOf_append (one other : List Bytes) :
    statementsOf channel (one ++ other) = statementsOf channel one ∪
      statementsOf channel other := by
  ext statement
  simp [statementsOf, or_and_right, exists_or]

theorem statementsOf_congr {one other : List Bytes}
    (same : ∀ object, object ∈ one ↔ object ∈ other) :
    statementsOf channel one = statementsOf channel other := by
  ext statement
  simp [statementsOf, same]

theorem statementsOf_mono {one other : List Bytes} (inside : one ⊆ other) :
    statementsOf channel one ⊆ statementsOf channel other := by
  rintro statement ⟨object, member, carried⟩
  exact ⟨object, inside member, carried⟩

section Projecting

theorem projectClosure_ok {domain : LocalScalarDomain Bytes} {selected : ExtTreeSet RevisionId}
    {register : ScalarRegister Bytes} (done : projectClosure domain selected = .ok register) :
    register.Valid ∧ (∀ id ∈ selected, id ∈ domain.causal) ∧
      ∀ revision, revision ∈ register.stated ↔
      revision ∈ domain.causal.stated ∧ domain.causal.InClosure selected.toList revision.id := by
  simp only [projectClosure, bind_ok_iff] at done
  obtain ⟨_, _, closure, closed, revisions, listed, built⟩ := done
  obtain ⟨members, known⟩ := ScalarRegister.dependencyClosure_ok closed
  obtain ⟨valid, holds⟩ := ScalarRegister.fromRevisions_ok built
  have inside : ∀ id, id ∈ closure ↔ domain.causal.InClosure selected.toList id := by
    intro id
    rw [members]
    simp only [ScalarRegister.InClosure, ExtTreeSet.mem_toList,
      Relation.reflTransGen_iff_eq_or_transGen]
    rfl
  have found : ∀ revision, revision ∈ revisions ↔
      domain.causal.revision revision.id = some revision ∧ revision.id ∈ closure := by
    intro revision
    rw [mapM_ok listed]
    constructor
    · rintro ⟨id, member, step⟩
      unfold knownRevision at step
      split at step
      · rename_i stored lookup
        cases step
        have named := domain.causal.keyed id _ lookup
        rw [named]
        exact ⟨lookup, ExtTreeSet.mem_toList.mp member⟩
      · cases step
    · rintro ⟨lookup, member⟩
      exact ⟨revision.id, ExtTreeSet.mem_toList.mpr member, by rw [knownRevision, lookup]⟩
  refine ⟨valid, ?_, ?_⟩
  · intro id member
    exact known id ((members id).mpr ⟨id, member, .refl⟩)
  · intro revision
    change register.revision revision.id = some revision ↔ _
    rw [holds, found, inside]
    exact ⟨fun both => both.1, fun both => ⟨both, rfl⟩⟩

variable {recovery live next : LocalScalarRecoveryState}
  {selections : ExtTreeMap DomainKey (ExtTreeSet RevisionId)}

theorem register_valid (recovery : LocalScalarRecoveryState) (key : DomainKey) :
    (recovery.register key).Valid := by
  rw [LocalScalarRecoveryState.register]
  cases found : recovery.get key with
  | none => exact ScalarRegister.empty_valid
  | some snapshot =>
    obtain ⟨domain, restored⟩ := recovery.restores key snapshot found
    obtain ⟨same, _, restorable⟩ := LocalScalarDomain.restore_ok_iff.mp restored
    subst same
    exact restorable.causalValid

/-- The register of a selected domain: the closure of the selection, as it stands there. -/
structure Projects (recovery : LocalScalarRecoveryState) (entry : DomainKey × ExtTreeSet RevisionId)
    (register : ScalarRegister Bytes) : Prop where
  valid : register.Valid
  named : recovery.KeysNamed → entry.1.domain ≠ []
  known : ∀ id ∈ entry.2, id ∈ recovery.register entry.1
  states : ∀ revision, revision ∈ register.stated ↔ revision ∈ (recovery.register entry.1).stated ∧
    (recovery.register entry.1).InClosure entry.2.toList revision.id

theorem projectDomain_projects {entry : DomainKey × ExtTreeSet RevisionId}
    {projected after : ExtTreeMap DomainKey (ScalarRegister Bytes)}
    (done : projectDomain recovery projected entry = .ok after) :
    ∃ register, after = projected.insert entry.1 register ∧ Projects recovery entry register := by
  unfold projectDomain at done
  split at done
  · cases done
  · simp only [bind_ok_iff, mapError_ok_iff] at done
    obtain ⟨restored, found, done⟩ := done
    cases restored with
    | none => cases done
    | some domain =>
      simp only [bind_ok_iff, mapError_ok_iff, pure_eq_ok, Except.ok.injEq] at done
      obtain ⟨register, closed, rfl⟩ := done
      obtain ⟨valid, known, states⟩ := projectClosure_ok closed
      have stored := (LocalScalarRecoveryState.restoreDomain_some found).1
      have same : recovery.register entry.1 = domain.causal := by
        rw [LocalScalarRecoveryState.register, stored]
        rfl
      refine ⟨register, rfl, valid, fun named => named entry.1 _ stored, ?_, ?_⟩
      · exact same ▸ known
      · exact same ▸ states

theorem projectDomains_ok {projected : ExtTreeMap DomainKey (ScalarRegister Bytes)}
    (done : selections.toList.foldlM (projectDomain recovery) ∅ = .ok projected) :
    (∀ (key : DomainKey) register, projected[key]? = some register →
      ∃ entry ∈ selections.toList, entry.1 = key ∧ Projects recovery entry register) ∧
    ∀ entry ∈ selections.toList, ∃ register, projected[entry.1]? = some register ∧
    Projects recovery entry register := by
  constructor
  · refine foldlM_invariant (fun current : ExtTreeMap DomainKey (ScalarRegister Bytes) =>
      ∀ (key : DomainKey) register,
      current[key]? = some register → ∃ entry ∈ selections.toList, entry.1 = key ∧
      Projects recovery entry register) ?_ ?_ done
    · intro current entry after member held step key register found
      obtain ⟨placed, rfl, projects⟩ := projectDomain_projects step
      rw [ExtTreeMap.getElem?_insert] at found
      split at found
      · rename_i here
        cases found
        exact ⟨entry, member, Std.LawfulEqCmp.eq_of_compare here, projects⟩
      · exact held key register found
    · intro key register found
      simp at found
  · intro entry member
    have frame : ∀ current entry after, projectDomain recovery current entry = .ok after →
        ∀ other : DomainKey, other ≠ entry.1 → after[other]? = current[other]? := by
      intro current entry after step other apart
      obtain ⟨placed, rfl, _⟩ := projectDomain_projects step
      simp [ExtTreeMap.getElem?_insert, apart.symm]
    obtain ⟨current, after, _, step, kept⟩ := foldlM_entry
      (fun (current : ExtTreeMap DomainKey (ScalarRegister Bytes)) (key : DomainKey) =>
        current[key]?) frame
      (toList_distinct selections) done member
    obtain ⟨placed, rfl, projects⟩ := projectDomain_projects step
    exact ⟨placed, kept.trans ExtTreeMap.getElem?_insert_self, projects⟩

/-- The objects of a prepared handoff state exactly its selections with everything
below them, all of it known. -/
structure Prepared (channel : Channel) (live : LocalScalarRecoveryState)
    (prepared : PreparedRecoveryHandoff) : Prop where
  known : ∀ entry ∈ prepared.revisionIds.toList, ∀ id ∈ entry.2, id ∈ live.register entry.1
  states : statementsOf channel prepared.objects =
    {statement ∈ live.knowledge.knows | site statement ∈ live.closures prepared.revisionIds.toList}

theorem prepareRecoveryHandoff_prepared {publicationId : PublicationId}
    {generated : Option Nonce} {prepared : PreparedRecoveryHandoff} (named : recovery.KeysNamed)
    (done : prepareRecoveryHandoff recovery channel publicationId selections generated =
      .ok prepared) :
    prepared.publicationId = publicationId ∧ Prepared channel recovery prepared := by
  unfold prepareRecoveryHandoff at done
  split at done
  · cases done
  · simp only [bind_ok_iff, mapError_ok_iff, pure_eq_ok, Except.ok.injEq] at done
    obtain ⟨projected, gathered, part, protected_, wire, encoded, rfl⟩ := done
    obtain ⟨from_, each⟩ := projectDomains_ok gathered
    have sound : ScalarSyncProjection.Sound ⟨projected⟩ := by
      constructor
      · intro key register found
        obtain ⟨entry, _, _, projects⟩ := from_ key register found
        exact projects.valid
      · intro key register found
        obtain ⟨entry, _, rfl, projects⟩ := from_ key register found
        exact projects.named named
    have opened := (unprotectScalarPart_protect sound protected_).2
    have decoded := decodeProtectedSyncPart_encode encoded
    refine ⟨rfl, ?_, ?_⟩
    · intro entry member id inside
      obtain ⟨register, _, projects⟩ := each entry member
      exact projects.known id inside
    · ext ⟨key, revision⟩
      constructor
      · rintro ⟨object, member, other, projection, decoding, opening, carried⟩
        rw [List.mem_singleton.mp member, decoded] at decoding
        cases decoding
        rw [opened] at opening
        cases opening
        obtain ⟨register, found, stated⟩ := carried
        obtain ⟨entry, listed, rfl, projects⟩ := from_ key register found
        obtain ⟨holds, below⟩ := (projects.states revision).mp stated
        exact ⟨holds, entry, listed, rfl, below⟩
      · rintro ⟨holds, entry, listed, same, below⟩
        change key = entry.1 at same
        subst same
        obtain ⟨register, found, projects⟩ := each entry listed
        exact ⟨wire, List.mem_singleton_self _, part, ⟨projected⟩, decoded, opened, register, found,
          (projects.states revision).mpr ⟨holds, below⟩⟩

/-- A selection of known revisions has the same closure in every later state. -/
theorem closures_later {entries : List (DomainKey × ExtTreeSet RevisionId)}
    (known : ∀ entry ∈ entries, ∀ id ∈ entry.2, id ∈ live.register entry.1)
    (grows : live.knowledge.knows ⊆ next.knowledge.knows) :
    next.closures entries = live.closures entries := by
  have included : ∀ key, live.register key ≤ next.register key := by
    intro key id revision found
    have named := (live.register key).keyed id revision found
    subst named
    have known : (key, revision) ∈ next.knowledge.knows := grows found
    exact known
  ext ⟨key, id⟩
  simp only [LocalScalarRecoveryState.closures, ScalarRegister.InClosure, Set.mem_ofPred_eq]
  refine exists_congr fun entry => and_congr_right fun member => and_congr_right fun _ =>
    exists_congr fun start =>
    and_congr_right fun selected => or_congr_right ?_
  exact ScalarRegister.ancestor_iff_of_le (register_valid live entry.1).closed (included entry.1)
    (known entry member start (ExtTreeSet.mem_toList.mp selected))

theorem Prepared.later {prepared : PreparedRecoveryHandoff}
    (before : Prepared channel live prepared)
    (grows : live.knowledge.knows ⊆ next.knowledge.knows) : Prepared channel next prepared where
  known := by
    intro entry member id inside
    obtain ⟨revision, found⟩ := ScalarRegister.mem_iff.mp (before.known entry member id inside)
    have named := (live.register entry.1).keyed id revision found
    subst named
    have known : (entry.1, revision) ∈ next.knowledge.knows := grows found
    exact ScalarRegister.mem_iff.mpr ⟨revision, known⟩
  states := by
    rw [before.states, closures_later before.known grows]
    ext ⟨key, revision⟩
    refine and_congr_left fun below => ⟨fun known => grows known, fun known => ?_⟩
    obtain ⟨entry, member, same, start, selected, path⟩ := below
    change key = entry.1 at same
    subst same
    have there : revision.id ∈ live.register entry.1 := by
      rcases path with here | above
      · change revision.id = start at here
        rw [here]
        exact before.known entry member start (ExtTreeSet.mem_toList.mp selected)
      · exact (register_valid live entry.1).closed.ancestor_mem above
    obtain ⟨other, found⟩ := ScalarRegister.mem_iff.mp there
    have named := (live.register entry.1).keyed revision.id other found
    have also : (entry.1, other) ∈ next.knowledge.knows := grows (show _ = _ from named ▸ found)
    have same : other = revision := by
      have lookup : (next.register entry.1).revision revision.id = some other := named ▸ also
      exact Option.some.inj (lookup.symm.trans known)
    exact same ▸ (show (live.register entry.1).revision other.id = some other from named ▸ found)

end Projecting

section Ranges

variable {recovery : LocalScalarRecoveryState} {spec : ScalarRecoveryCatchUpSpec}
  {observation : Observation}

theorem mem_statedBy_toList {projection : ScalarSyncProjection} {statement : Statement} :
    statement ∈ statedBy projection.domains.toList ↔
    projection.Carries statement.1 statement.2 := by
  constructor
  · rintro ⟨entry, member, same, stated⟩
    exact ⟨entry.2, same ▸ ExtTreeMap.mem_toList_iff_getElem?_eq_some.mp member, stated⟩
  · rintro ⟨register, found, stated⟩
    exact ⟨(statement.1, register), ExtTreeMap.mem_toList_iff_getElem?_eq_some.mpr found,
      rfl, stated⟩

/-- The projection of a complete range states what its objects state, under named keys. -/
theorem fetchedProjection_states {combined : ScalarSyncProjection}
    (done : (fetchedProjection channel objects : Except (ScalarRecoveryCatchUpError P TrustedError)
      _) = .ok combined) :
    combined.Sound ∧ statedBy combined.domains.toList = statementsOf channel objects := by
  simp only [fetchedProjection, decodeCompleteScalarProjections, bind_ok_iff,
    mapError_ok_iff] at done
  obtain ⟨projections, ⟨assembly, taken, decoded⟩, merged⟩ := done
  split at decoded
  · cases decoded
  · rename_i complete
    cases decoded
    have whole := not_not.mp complete
    have sound : combined.Sound := by
      refine ScalarSyncProjection.foldMerge_every ScalarSyncProjection.mergeClosed_sound
        ScalarSyncProjection.Sound.empty ?_ merged
      refine Intake.takeAll_every ScalarSyncProjection.mergeClosed_sound ?_
        Intake.opensTo_sound taken
      intro completed projection item finished good
      cases finished
      exact good
    refine ⟨sound, ?_⟩
    have faithful : ∀ completed projection item,
        (recoveryIntake P TrustedError).complete completed projection = .ok item →
        ∀ key revision, item.Carries key revision ↔ projection.Carries key revision := by
      intro completed projection item finished key revision
      cases finished
      exact Iff.rfl
    ext statement
    rw [mem_statedBy_toList, ScalarSyncProjection.foldMerge_carries merged]
    exact (or_iff_right ScalarSyncProjection.not_carries_empty).trans
      (Intake.takeAll_carries faithful taken whole statement.1 statement.2)

/-- What a range moves: it brings in its statements, and its evidence is part of them. -/
theorem receiveProjections_moved (named : recovery.KeysNamed)
    (done : (receiveProjections spec recovery objects :
      Except (ScalarRecoveryCatchUpError P TrustedError) _) = .ok observation) :
    observation.recovery.KeysNamed ∧
      recovery.Moved observation.recovery (statementsOf spec.channel objects) ∅ ∧
      ∀ (key : DomainKey) ids, observation.observedRevisionIds[key]? = some ids → ∀ id ∈ ids,
        ∃ revision, revision.id = id ∧ (key, revision) ∈ statementsOf spec.channel objects := by
  simp only [receiveProjections, bind_ok_iff] at done
  obtain ⟨combined, fetched, folded⟩ := done
  obtain ⟨sound, states⟩ := fetchedProjection_states fetched
  have listed : ∀ entry ∈ combined.domains.toList, entry.1.domain ≠ [] := fun entry member =>
    sound.named entry.1 entry.2 (ExtTreeMap.mem_toList_iff_getElem?_eq_some.mp member)
  obtain ⟨keyed, moved, evidence⟩ := LocalScalarRecoveryState.observeAll_moved named listed folded
  refine ⟨keyed, states ▸ moved, ?_⟩
  intro key ids found id member
  rcases evidence key ids found with impossible | ⟨entry, inside, same, exactly⟩
  · simp at impossible
  · rw [exactly, ScalarRegister.mem_ids] at member
    obtain ⟨revision, lookup⟩ := ScalarRegister.mem_iff.mp member
    have labelled := entry.2.keyed id revision lookup
    subst labelled
    exact ⟨revision, rfl, states ▸ ⟨entry, inside, same.symm, lookup⟩⟩

/-- Evidence of a pending publication names every statement of its objects. -/
theorem recoveryProves_names {id : PublicationId} {entry : DurableOutboxEntry}
    {observed : ExtTreeMap DomainKey (ExtTreeSet RevisionId)}
    (proven : recoveryProves channel id entry observed = .ok true) {statement : Statement}
    (carried : statement ∈ statementsOf channel entry.objects) :
    ∃ ids, observed[statement.1]? = some ids ∧ statement.2.id ∈ ids := by
  simp only [recoveryProves, bind_ok_iff, pure_eq_ok, Except.ok.injEq,
    decodePendingRecoveryPublication] at proven
  obtain ⟨projection, decoded, observes⟩ := proven
  split at decoded
  · cases decoded
  simp only [bind_ok_iff] at decoded
  obtain ⟨assembly, taken, decoded⟩ := decoded
  split at decoded
  · cases decoded
  rename_i complete
  split at decoded
  · cases decoded
  rename_i first head
  cases decoded
  have faithful : ∀ completed found item, (pendingIntake id).complete completed found = .ok item →
      ∀ key revision, item.Carries key revision ↔ found.Carries key revision := by
    intro completed found item finished key revision
    simp only [pendingIntake] at finished
    split at finished
    · cases finished
      exact Iff.rfl
    · cases finished
  have only : assembly.completed.length ≤ 1 := by
    refine foldlM_invariant (fun state : Assembly ScalarSyncProjection =>
      state.completed.length ≤ 1) ?_ (Nat.zero_le _) taken
    intro state object next _ held step
    rcases Intake.take_cases step with ⟨_, same⟩ | ⟨_, _, _, _, _, _, _, _,
      ⟨_, same⟩ | ⟨_, item, _, finished, same⟩⟩
    · exact same ▸ held
    · exact same ▸ held
    · simp only [pendingIntake] at finished
      split at finished
      · rename_i empty
        rw [same, List.isEmpty_iff.mp empty]
        exact Nat.le_refl 1
      · cases finished
  obtain ⟨item, member, states⟩ :=
    (Intake.takeAll_carries faithful taken
      (not_not.mp complete) statement.1 statement.2).mpr carried
  have same : item = projection := by
    cases listed : assembly.completed with
    | nil =>
      rw [listed] at member
      cases member
    | cons one rest =>
      rw [listed] at member head only
      have nothing : rest = [] := List.eq_nil_of_length_eq_zero (by simpa using only)
      rw [nothing, List.mem_singleton] at member
      rw [List.head?_cons, Option.some.injEq] at head
      exact member.trans head
  subst same
  obtain ⟨register, found, stated⟩ := states
  have inside := ExtTreeMap.mem_toList_iff_getElem?_eq_some.mpr found
  simp only [projectionIsObserved, List.all_eq_true] at observes
  have shown := observes (statement.1, register) inside
  dsimp only at shown
  split at shown
  · cases shown
  · rename_i ids lookup
    refine ⟨ids, lookup, ?_⟩
    rw [set_all_iff] at shown
    exact ExtTreeSet.contains_iff_mem.mp
      (shown statement.2.id (ScalarRegister.mem_ids.mpr (ScalarRegister.mem_iff.mpr ⟨_, stated⟩)))

end Ranges

end PrivateContinuum.Runtime
