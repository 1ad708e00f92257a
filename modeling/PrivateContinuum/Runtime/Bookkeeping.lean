import Mathlib.Data.Set.List
import PrivateContinuum.Runtime.TrustedStateFormat

namespace PrivateContinuum.Runtime

open Std (ExtTreeSet ExtTreeMap)
open PrivateContinuum.Library PrivateContinuum.Core PrivateContinuum.Sync

namespace Bookkeeping

variable {Value : Type}

/-- What `restore` checks, read off the snapshot. -/
structure PassesChecks (image : LocalScalarSnapshot Value) : Prop where
  causalValid : image.working.causal.Valid
  frontierCurrent : WorkingScalar.FrontierCurrent image.working.causal image.working.pending
  exposedLocal : ∀ id ∈ image.finalization.exposedLocalIds, id ∈ image.finalization.localRevisionIds
  handedOffExposed : ∀ id ∈ image.finalization.handedOffLocalIds,
    id ∈ image.finalization.exposedLocalIds
  finalizedLocal : ∀ id ∈ image.finalization.finalized, id ∈ image.finalization.localRevisionIds
  localKnown : ∀ id ∈ image.finalization.localRevisionIds, id ∈ image.working.causal
  frozen : ∀ (id : RevisionId) (statement : FinalizedStatement Value),
    image.finalization.finalized[id]? = some statement →
      ∃ revision, image.working.causal.revision id = some revision ∧
        statement = .ofRevision revision

/-- Exposure covers finalized revisions only, and every local revision below. -/
structure RespectsExposure (image : LocalScalarSnapshot Value) : Prop where
  exposedFinalized : ∀ id ∈ image.finalization.exposedLocalIds, id ∈ image.finalization.finalized
  ancestorsExposed : ∀ id ∈ image.finalization.exposedLocalIds,
    ∀ ancestor ∈ image.finalization.localRevisionIds, image.working.causal.Ancestor ancestor id →
      ancestor ∈ image.finalization.exposedLocalIds

/-- The ledger invariant of the states that the operations build. -/
structure LedgerSound (image : LocalScalarSnapshot Value) :
    Prop extends RespectsExposure image where
  handedOffExposed : ∀ id ∈ image.finalization.handedOffLocalIds,
    id ∈ image.finalization.exposedLocalIds
  frozen : ∀ (id : RevisionId) (statement : FinalizedStatement Value),
    image.finalization.finalized[id]? = some statement →
      ∃ revision, image.working.causal.revision id = some revision ∧
        statement = .ofRevision revision

theorem restore_accepts_iff [DecidableEq Value] {image : LocalScalarSnapshot Value} :
    (∃ domain, LocalScalarDomain.restore image = .ok domain) ↔ PassesChecks image := by
  constructor
  · intro accepted
    obtain ⟨domain, restored⟩ := accepted
    obtain ⟨same, current, restorable⟩ := LocalScalarDomain.restore_ok_iff.mp restored
    subst same
    exact ⟨restorable.causalValid, current, restorable.exposedLocal, restorable.handedOffExposed,
      restorable.finalizedLocal, restorable.localKnown, restorable.frozen⟩
  · intro passes
    refine ⟨⟨⟨image.working.causal, image.working.pending⟩, ⟨image.finalization.localRevisionIds,
      image.finalization.finalized, image.finalization.exposedLocalIds,
      image.finalization.handedOffLocalIds⟩⟩, LocalScalarDomain.restore_ok_iff.mpr ⟨rfl, ?_, ?_⟩⟩
    · exact passes.frontierCurrent
    · exact ⟨passes.exposedLocal, passes.handedOffExposed, passes.finalizedLocal, passes.localKnown,
        passes.causalValid, passes.frozen⟩

theorem ledgerSound_iff {image : LocalScalarSnapshot Value} (passes : PassesChecks image) :
    LedgerSound image ↔ RespectsExposure image :=
  ⟨fun sound => sound.toRespectsExposure,
    fun respects => ⟨respects, passes.handedOffExposed, passes.frozen⟩⟩

end Bookkeeping

namespace ListedSnapshot

open Bookkeeping

variable {listed : ListedSnapshot} {snapshot : LocalScalarSnapshot Bytes} {id : RevisionId}

private theorem mem_ofList {ids : List RevisionId} : id ∈ ExtTreeSet.ofList ids ↔ id ∈ ids := by
  rw [ExtTreeSet.mem_ofList, List.contains_iff_mem]

private theorem ofRevision_inj {one other : ScalarRevision Bytes}
    (same : FinalizedStatement.ofRevision one = .ofRevision other) : one = other := by
  cases one
  cases other
  cases same
  rfl

/-- The register holds exactly the listed revisions. -/
def Forms (listed : ListedSnapshot) (register : ScalarRegister Bytes) : Prop :=
  ∀ (id : RevisionId) (revision : ScalarRevision Bytes), register.revision id = some revision ↔
    ∃ one ∈ listed.revisions, one.revision = revision ∧ one.id = id

variable {register : ScalarRegister Bytes}

private theorem forms_of_holds
    (holds : ∀ id revision, register.revision id = some revision ↔
      revision ∈ listed.revisions.map ListedRevision.revision ∧ revision.id = id) :
    listed.Forms register := by
  intro id revision
  rw [holds, List.mem_map]
  constructor
  · intro found
    obtain ⟨⟨one, member, same⟩, keyed⟩ := found
    subst same
    exact ⟨one, member, rfl, keyed⟩
  · intro found
    obtain ⟨one, member, same, keyed⟩ := found
    subst same
    exact ⟨⟨one, member, rfl⟩, keyed⟩

theorem Describes.forms (describes : listed.Describes snapshot) :
    listed.Forms snapshot.working.causal :=
  forms_of_holds (ScalarRegister.fromRevisions_ok describes.causal).2

theorem Forms.mem_iff (forms : listed.Forms register) : id ∈ register ↔ listed.Known id := by
  rw [ScalarRegister.mem_iff]
  constructor
  · intro known
    obtain ⟨revision, found⟩ := known
    obtain ⟨one, member, _, keyed⟩ := (forms id revision).mp found
    exact ⟨one, member, keyed⟩
  · intro known
    obtain ⟨one, member, keyed⟩ := known
    exact ⟨one.revision, (forms id one.revision).mpr ⟨one, member, rfl, keyed⟩⟩

theorem Forms.parent_iff (forms : listed.Forms register) {child parent : RevisionId} :
    register.Parent child parent ↔ listed.Parent child parent := by
  constructor
  · intro edge
    obtain ⟨revision, found, inside⟩ := edge
    obtain ⟨one, member, same, keyed⟩ := (forms child revision).mp found
    subst same
    exact ⟨one, member, keyed, mem_ofList.mp inside⟩
  · intro edge
    obtain ⟨one, member, keyed, inside⟩ := edge
    exact ⟨one.revision, (forms child one.revision).mpr ⟨one, member, rfl, keyed⟩,
      mem_ofList.mpr inside⟩

theorem Forms.ancestor_iff (forms : listed.Forms register) {ancestor descendant : RevisionId} :
    register.Ancestor ancestor descendant ↔ listed.Below ancestor descendant := by
  have same : register.Parent = listed.Parent :=
    funext fun child => funext fun parent => propext forms.parent_iff
  rw [ScalarRegister.Ancestor, same, Below]

theorem Describes.mem_finalized (describes : listed.Describes snapshot) :
    id ∈ snapshot.finalization.finalized ↔ ∃ statement ∈ listed.finalized, statement.id = id := by
  rw [map_mem_iff]
  simp only [describes.finalized id]
  constructor
  · intro stored
    obtain ⟨_, one, member, keyed, _⟩ := stored
    exact ⟨one, member, keyed⟩
  · intro stored
    obtain ⟨one, member, keyed⟩ := stored
    exact ⟨_, one, member, keyed, rfl⟩

theorem Describes.mem_local (describes : listed.Describes snapshot) :
    id ∈ snapshot.finalization.localRevisionIds ↔ id ∈ listed.localIds := by
  rw [describes.localIds, mem_ofList]

theorem Describes.mem_exposed (describes : listed.Describes snapshot) :
    id ∈ snapshot.finalization.exposedLocalIds ↔ id ∈ listed.exposed := by
  rw [describes.exposed, mem_ofList]

theorem Describes.mem_handedOff (describes : listed.Describes snapshot) :
    id ∈ snapshot.finalization.handedOffLocalIds ↔ id ∈ listed.handedOff := by
  rw [describes.handedOff, mem_ofList]

theorem Describes.respects_iff (describes : listed.Describes snapshot) :
    RespectsExposure snapshot ↔ listed.ExposureCovered := by
  constructor
  · intro respects
    constructor
    · intro id member
      exact describes.mem_finalized.mp
        (respects.exposedFinalized id (describes.mem_exposed.mpr member))
    · intro id member ancestor isLocal below
      exact describes.mem_exposed.mp
        (respects.ancestorsExposed id (describes.mem_exposed.mpr member) ancestor
        (describes.mem_local.mpr isLocal) (describes.forms.ancestor_iff.mpr below))
  · intro covered
    constructor
    · intro id member
      exact describes.mem_finalized.mpr
        (covered.exposedFinalized id (describes.mem_exposed.mp member))
    · intro id member ancestor isLocal below
      exact describes.mem_exposed.mpr
        (covered.belowExposed id (describes.mem_exposed.mp member) ancestor
        (describes.mem_local.mp isLocal) (describes.forms.ancestor_iff.mp below))

theorem Describes.passes_iff (describes : listed.Describes snapshot) :
    PassesChecks snapshot ↔ listed.Accepted := by
  have valid := (ScalarRegister.fromRevisions_ok describes.causal).1
  constructor
  · intro passes
    refine ⟨?_, ?_, ?_, ?_, ?_, ?_, ?_, ?_, ?_⟩
    · intro one member other otherMember same
      have found := (describes.forms _ _).mpr ⟨one, member, rfl, rfl⟩
      have foundOther := (describes.forms _ _).mpr ⟨other, otherMember, rfl, same.symm⟩
      exact Option.some.inj (found.symm.trans foundOther)
    · intro child parent edge
      exact describes.forms.mem_iff.mp
        (valid.closed child parent (describes.forms.parent_iff.mpr edge))
    · intro id cycle
      exact valid.acyclic id (describes.forms.ancestor_iff.mpr cycle)
    · intro epoch pending id
      have current := passes.frontierCurrent epoch.epoch (by rw [← describes.pending, pending]; rfl)
      change .ofList epoch.observed = snapshot.working.causal.frontierIds at current
      rw [← mem_ofList, current, ScalarRegister.mem_frontierIds, describes.forms.mem_iff]
      simp only [describes.forms.ancestor_iff]
    · intro id member
      exact describes.mem_local.mp (passes.exposedLocal id (describes.mem_exposed.mpr member))
    · intro id member
      exact describes.mem_exposed.mp
        (passes.handedOffExposed id (describes.mem_handedOff.mpr member))
    · intro statement member
      exact describes.mem_local.mp (passes.finalizedLocal statement.id
        (describes.mem_finalized.mpr ⟨statement, member, rfl⟩))
    · intro id member
      exact describes.forms.mem_iff.mp (passes.localKnown id (describes.mem_local.mpr member))
    · intro statement member
      obtain ⟨revision, found, same⟩ := passes.frozen statement.id _
        ((describes.finalized _ _).mpr ⟨statement, member, rfl, rfl⟩)
      obtain ⟨one, listedOne, shown, _⟩ := (describes.forms _ _).mp found
      exact ⟨one, listedOne, by rw [shown, ofRevision_inj same]⟩
  · intro accepted
    refine ⟨valid, ?_, ?_, ?_, ?_, ?_, ?_⟩
    · intro epoch pending
      rw [← describes.pending] at pending
      obtain ⟨listedEpoch, present, same⟩ := Option.map_eq_some_iff.mp pending
      subst same
      apply ExtTreeSet.ext_mem
      intro id
      rw [ScalarRegister.mem_frontierIds, describes.forms.mem_iff]
      simp only [describes.forms.ancestor_iff]
      exact mem_ofList.trans (accepted.frontierCurrent listedEpoch present id)
    · intro id member
      exact describes.mem_local.mpr (accepted.exposedLocal id (describes.mem_exposed.mp member))
    · intro id member
      exact describes.mem_exposed.mpr
        (accepted.handedOffExposed id (describes.mem_handedOff.mp member))
    · intro id member
      obtain ⟨statement, present, keyed⟩ := describes.mem_finalized.mp member
      exact describes.mem_local.mpr (keyed ▸ accepted.finalizedLocal statement present)
    · intro id member
      exact describes.forms.mem_iff.mpr (accepted.localKnown id (describes.mem_local.mp member))
    · intro id statement stored
      obtain ⟨one, member, keyed, shown⟩ := (describes.finalized id statement).mp stored
      obtain ⟨revision, present, same⟩ := accepted.frozen one member
      have identity : revision.id = id := (congrArg ScalarRevision.id same).trans keyed
      exact ⟨one.revision, (describes.forms _ _).mpr ⟨revision, present, same, identity⟩,
        shown.symm⟩

theorem Accepted.exists_snapshot (accepted : listed.Accepted) :
    ∃ snapshot, listed.Describes snapshot := by
  have distinct : ∀ one ∈ listed.revisions.map ListedRevision.revision,
      ∀ other ∈ listed.revisions.map ListedRevision.revision, one.id = other.id → one = other := by
    intro one member other otherMember same
    obtain ⟨listedOne, present, shown⟩ := List.mem_map.mp member
    obtain ⟨listedOther, otherPresent, otherShown⟩ := List.mem_map.mp otherMember
    subst shown
    subst otherShown
    exact accepted.agreeing listedOne present listedOther otherPresent same
  obtain ⟨register, _, holds⟩ := ScalarRegister.exists_holding distinct
  have forms : listed.Forms register := forms_of_holds holds
  have valid : register.Valid := by
    apply ScalarRegister.validate_ok_iff.mpr
    constructor
    · intro child parent edge
      exact forms.mem_iff.mpr (accepted.closed child parent (forms.parent_iff.mp edge))
    · intro id cycle
      exact accepted.acyclic id (forms.ancestor_iff.mp cycle)
  obtain ⟨finalized, entries⟩ := exists_finalizedFrom listed.finalizedDistinct
  exact ⟨⟨⟨register, listed.pending.map ListedEpoch.epoch⟩,
    ⟨.ofList listed.localIds, finalized, .ofList listed.exposed,
    .ofList listed.handedOff⟩⟩, ScalarRegister.fromRevisions_ok_iff.mpr ⟨valid, holds⟩, rfl, rfl,
    entries, rfl, rfl⟩

/-- The accepted fields are those that make up a restorable snapshot. -/
theorem accepted_iff : listed.Accepted ↔
    ∃ snapshot, listed.Describes snapshot ∧
      ∃ domain, LocalScalarDomain.restore snapshot = .ok domain := by
  constructor
  · intro accepted
    obtain ⟨snapshot, describes⟩ := accepted.exists_snapshot
    exact ⟨snapshot, describes, restore_accepts_iff.mpr (describes.passes_iff.mpr accepted)⟩
  · intro restorable
    obtain ⟨snapshot, describes, restored⟩ := restorable
    exact describes.passes_iff.mp (restore_accepts_iff.mp restored)

/-- Two accepted listings with the same bytes cover their exposure together. -/
theorem Accepted.covered_of_image {other : ListedSnapshot} (accepted : listed.Accepted)
    (otherAccepted : other.Accepted) (same : listed.image = other.image)
    (fits : listed.image.length < sizeLimit) (covered : listed.ExposureCovered) :
    other.ExposureCovered := by
  obtain ⟨snapshot, describes, restores⟩ := accepted_iff.mp accepted
  obtain ⟨also, otherDescribes, otherRestores⟩ := accepted_iff.mp otherAccepted
  have decoded := (decodeLocalScalarSnapshot_ok_iff fits).mpr ⟨⟨listed, rfl, describes⟩, restores⟩
  have otherDecoded :=
    (decodeLocalScalarSnapshot_ok_iff fits).mpr ⟨⟨other, same, otherDescribes⟩, otherRestores⟩
  have agree : snapshot = also := Except.ok.inj (decoded.symm.trans otherDecoded)
  subst agree
  exact otherDescribes.respects_iff.mp (describes.respects_iff.mpr covered)

end ListedSnapshot

/-- The listed domains that decoding a container takes. -/
structure ContainerAccepted (domains : List ListedDomain) : Prop where
  distinct : domains.Pairwise fun one other => one.key ≠ other.key
  named : ∀ listed ∈ domains, listed.key.domain ≠ []
  accepted : ∀ listed ∈ domains, listed.snapshot.Accepted

theorem HoldsDomains.containerAccepted {recovery : LocalScalarRecoveryState}
    {domains : List RestoredDomain} (holds : HoldsDomains recovery domains) :
    ContainerAccepted (domains.map RestoredDomain.listed) := by
  refine ⟨List.pairwise_map.mpr holds.distinct, ?_, ?_⟩
  · intro listed member
    obtain ⟨restored, _, same⟩ := List.mem_map.mp member
    exact same ▸ restored.named
  · intro listed member
    obtain ⟨restored, _, same⟩ := List.mem_map.mp member
    exact same ▸ ListedSnapshot.accepted_iff.mpr ⟨restored.snapshot, restored.describes,
      restored.restores⟩

theorem ContainerAccepted.exists_decoded {domains : List ListedDomain}
    (accepted : ContainerAccepted domains)
    (fits : (recoveryFrame domains).length < sizeLimit) : ∃ recovery restored,
      domains = restored.map RestoredDomain.listed ∧ HoldsDomains recovery restored ∧
        decodeMultiScalarRecoveryState (recoveryFrame domains) = .ok recovery := by
  have listed : domains ∈ Set.range (List.map RestoredDomain.listed) := by
    rw [Set.range_list_map]
    intro one member
    obtain ⟨snapshot, describes, restores⟩ :=
      ListedSnapshot.accepted_iff.mp (accepted.accepted one member)
    exact ⟨⟨one, snapshot, accepted.named one member, describes, restores⟩, rfl⟩
  obtain ⟨restored, same⟩ := listed
  subst same
  have distinct : restored.Pairwise fun one other => one.listed.key ≠ other.listed.key := by
    have apart := accepted.distinct
    rwa [List.pairwise_map] at apart
  obtain ⟨recovery, holds⟩ := exists_holdsDomains distinct
  exact ⟨recovery, restored, rfl, holds,
    (decodeMultiScalarRecoveryState_ok_iff fits).mpr ⟨restored, rfl, holds⟩⟩

theorem ContainerAccepted.covered_of_frame {domains others : List ListedDomain}
    (accepted : ContainerAccepted domains) (othersAccepted : ContainerAccepted others)
    (same : recoveryFrame domains = recoveryFrame others)
    (fits : (recoveryFrame domains).length < sizeLimit)
    (covered : ∀ listed ∈ domains, listed.snapshot.ExposureCovered) :
    ∀ listed ∈ others, listed.snapshot.ExposureCovered := by
  obtain ⟨recovery, restored, shown, holds, decoded⟩ := accepted.exists_decoded fits
  obtain ⟨also, othersRestored, othersShown, othersHold, othersDecoded⟩ :=
    othersAccepted.exists_decoded (same ▸ fits)
  rw [same] at decoded
  have agree : recovery = also := Except.ok.inj (decoded.symm.trans othersDecoded)
  subst agree
  subst shown
  subst othersShown
  intro listed member
  obtain ⟨other, otherMember, named⟩ := List.mem_map.mp member
  subst named
  have found :=
    (othersHold.holds other.listed.key other.snapshot).mpr ⟨other, otherMember, rfl, rfl⟩
  obtain ⟨one, present, _, snapshots⟩ := (holds.holds _ _).mp found
  have respects := one.describes.respects_iff.mpr (covered one.listed (List.mem_map_of_mem present))
  exact other.describes.respects_iff.mp (snapshots ▸ respects)

namespace Bookkeeping

/-- Snapshot bytes decode to sound ledgers only, exactly if their fields cover the
exposure whenever they are accepted. -/
theorem decoded_ledgerSound_iff {encoded : Bytes} (fits : encoded.length < sizeLimit) :
    (∀ decoded, decodeLocalScalarSnapshot encoded = .ok decoded → LedgerSound decoded) ↔
      ∀ listed : ListedSnapshot, encoded = listed.image → listed.Accepted →
        listed.ExposureCovered := by
  constructor
  · intro sound listed shown accepted
    obtain ⟨snapshot, describes, restores⟩ := ListedSnapshot.accepted_iff.mp accepted
    have decoded :=
      (decodeLocalScalarSnapshot_ok_iff fits).mpr ⟨⟨listed, shown, describes⟩, restores⟩
    exact describes.respects_iff.mp (sound snapshot decoded).toRespectsExposure
  · intro covered snapshot decoded
    obtain ⟨⟨listed, shown, describes⟩, restores⟩ :=
      (decodeLocalScalarSnapshot_ok_iff fits).mp decoded
    have passes := restore_accepts_iff.mp restores
    exact (ledgerSound_iff passes).mpr
      (describes.respects_iff.mpr (covered listed shown (describes.passes_iff.mp passes)))

theorem container_ledgerSound_iff {encoded : Bytes} (fits : encoded.length < sizeLimit) :
    (∀ recovery, decodeMultiScalarRecoveryState encoded = .ok recovery →
      ∀ key decoded, recovery.get key = some decoded → LedgerSound decoded) ↔
      ∀ domains : List ListedDomain, encoded = recoveryFrame domains → ContainerAccepted domains →
        ∀ listed ∈ domains, listed.snapshot.ExposureCovered := by
  constructor
  · intro sound domains shown accepted listed member
    subst shown
    obtain ⟨recovery, restored, same, holds, decoded⟩ := accepted.exists_decoded fits
    subst same
    obtain ⟨one, present, named⟩ := List.mem_map.mp member
    subst named
    have found := (holds.holds one.listed.key one.snapshot).mpr ⟨one, present, rfl, rfl⟩
    exact one.describes.respects_iff.mp (sound recovery decoded _ _ found).toRespectsExposure
  · intro covered recovery decoded key snapshot found
    obtain ⟨domains, shown, holds⟩ := (decodeMultiScalarRecoveryState_ok_iff fits).mp decoded
    obtain ⟨one, present, _, same⟩ := (holds.holds key snapshot).mp found
    subst same
    have respects :=
      covered _ shown holds.containerAccepted one.listed (List.mem_map_of_mem present)
    exact (ledgerSound_iff (restore_accepts_iff.mp one.restores)).mpr
      (one.describes.respects_iff.mpr respects)

/-- An accepted image has the ledger invariant exactly when its exposed revisions are
finalized and so are, as exposed, its local revisions below them, which no acceptor
checks. -/
theorem accepted_ledgerSound_iff [DecidableEq Value] (image : LocalScalarSnapshot Value)
    {encoded : Bytes} (fits : encoded.length < sizeLimit) :
    (((∃ domain, LocalScalarDomain.restore image = .ok domain) → LedgerSound image) ↔
      (PassesChecks image → RespectsExposure image)) ∧
    ((∀ decoded, decodeLocalScalarSnapshot encoded = .ok decoded → LedgerSound decoded) ↔
      ∀ listed : ListedSnapshot, encoded = listed.image → listed.Accepted →
        listed.ExposureCovered) ∧
    ((∀ recovery, decodeMultiScalarRecoveryState encoded = .ok recovery →
      ∀ key decoded, recovery.get key = some decoded → LedgerSound decoded) ↔
      ∀ domains : List ListedDomain, encoded = recoveryFrame domains → ContainerAccepted domains →
        ∀ listed ∈ domains, listed.snapshot.ExposureCovered) := by
  refine ⟨?_, decoded_ledgerSound_iff fits, container_ledgerSound_iff fits⟩
  rw [restore_accepts_iff]
  exact forall_congr' fun passes => ledgerSound_iff passes

/-- Two handed off revisions, one below the other, both finalized and exposed. -/
theorem accepted_ledgerSound_iff_handed_off :
    let first : ListedRevision := ⟨.ofByte 1, [10], [], by decide⟩
    let second : ListedRevision := ⟨.ofByte 2, [20], [.ofByte 1], by decide⟩
    let listed : ListedSnapshot :=
      ⟨[first, second], none, [.ofByte 1, .ofByte 2], [first, second], [.ofByte 1, .ofByte 2],
        [.ofByte 2], by decide +kernel, by decide +kernel, by decide +kernel, by decide +kernel⟩
    let domains : List ListedDomain := [⟨⟨.ofByte 5, [98]⟩, listed⟩]
    (∃ decoded, decodeLocalScalarSnapshot listed.image = .ok decoded ∧
      .ofByte 2 ∈ decoded.finalization.handedOffLocalIds ∧ LedgerSound decoded) ∧
    ∃ recovery decoded, decodeMultiScalarRecoveryState (recoveryFrame domains) = .ok recovery ∧
      recovery.get ⟨.ofByte 5, [98]⟩ = some decoded ∧ LedgerSound decoded := by
  intro first second listed domains
  let register : ScalarRegister Bytes :=
    (ScalarRegister.empty.put first.revision).put second.revision
  let finalized : ExtTreeMap RevisionId (FinalizedStatement Bytes) :=
    (∅ : ExtTreeMap RevisionId (FinalizedStatement Bytes)).insertMany [finalizedEntry first,
      finalizedEntry second]
  let snapshot : LocalScalarSnapshot Bytes :=
    ⟨⟨register, none⟩,
      ⟨.ofList listed.localIds, finalized, .ofList listed.exposed, .ofList listed.handedOff⟩⟩
  have built : ScalarRegister.fromRevisions [first.revision, second.revision] = .ok register := by
    decide +kernel
  have frozen : ([first, second].map finalizedEntry).foldlM insertNewEntry ∅ = some finalized := by
    decide +kernel
  have describes : listed.Describes snapshot :=
    ⟨built, rfl, rfl, (collect_finalized_iff.mp frozen).2, rfl, rfl⟩
  have restores : ∃ domain, LocalScalarDomain.restore snapshot = .ok domain :=
    ⟨⟨⟨register, none⟩, ⟨.ofList listed.localIds, finalized, .ofList listed.exposed,
      .ofList listed.handedOff⟩⟩, by decide +kernel⟩
  have accepted : listed.Accepted := ListedSnapshot.accepted_iff.mpr ⟨snapshot, describes, restores⟩
  have covered : listed.ExposureCovered := by
    constructor
    · intro id member
      simp only [listed, List.mem_cons, List.not_mem_nil, or_false] at member ⊢
      rcases member with same | same
      · exact ⟨first, Or.inl rfl, same.symm⟩
      · exact ⟨second, Or.inr rfl, same.symm⟩
    · intro _ _ ancestor isLocal _
      exact isLocal
  have fits : listed.image.length < sizeLimit := by decide +kernel
  have decoded := (decodeLocalScalarSnapshot_ok_iff fits).mpr ⟨⟨listed, rfl, describes⟩, restores⟩
  have frameFits : (recoveryFrame domains).length < sizeLimit := by decide +kernel
  have container : ContainerAccepted domains := by
    refine ⟨List.pairwise_singleton _ _, ?_, ?_⟩
    · simp [domains]
    · simpa [domains] using accepted
  have containerCovered : ∀ one ∈ domains, one.snapshot.ExposureCovered := by
    simpa [domains] using covered
  obtain ⟨recovery, restored, same, holds, containerDecoded⟩ := container.exists_decoded frameFits
  obtain ⟨one, onlyOne, named⟩ := List.map_eq_singleton_iff.mp same.symm
  have found : recovery.get ⟨.ofByte 5, [98]⟩ = some one.snapshot :=
    (holds.holds _ _).mpr ⟨one, by simp [onlyOne], by rw [named], rfl⟩
  refine ⟨⟨snapshot, decoded, by decide +kernel, ?_⟩, recovery, one.snapshot,
    containerDecoded, found, ?_⟩
  · refine (accepted_ledgerSound_iff snapshot fits).2.1.mpr ?_ snapshot decoded
    intro other shown otherAccepted
    exact accepted.covered_of_image otherAccepted shown fits covered
  · refine (accepted_ledgerSound_iff snapshot frameFits).2.2.mpr ?_ recovery
      containerDecoded _ _ found
    intro others shown othersAccepted
    exact container.covered_of_frame othersAccepted shown frameFits containerCovered

/-- A snapshot that calls its only revision handed off without a finalized
statement. All three acceptors take it. -/
theorem unfinalized_handoff_accepted :
    let causal : ScalarRegister Bytes := ScalarRegister.empty.put ⟨.ofByte 1, [10], ∅⟩
    let image : LocalScalarSnapshot Bytes :=
      ⟨⟨causal, none⟩, ⟨{.ofByte 1}, ∅, {.ofByte 1}, {.ofByte 1}⟩⟩
    let entry : DomainKey × LocalScalarSnapshot Bytes := (⟨.ofByte 5, [98]⟩, image)
    (∃ domain, LocalScalarDomain.restore image = .ok domain) ∧
      decodeLocalScalarSnapshot (snapshotImage image) = .ok image ∧
      (decodeMultiScalarRecoveryState ((TrustedStateSet.magic ++ bigEndian 2 1) ++
        (bigEndian 8 1 ++ domainImage entry))).toOption.map (·.get entry.1) = some (some image) ∧
      .ofByte 1 ∈ image.finalization.handedOffLocalIds ∧ .ofByte 1 ∉ image.finalization.finalized ∧
      ¬ LedgerSound image := by
  intro causal image entry
  have restored : LocalScalarDomain.restore image = .ok ⟨⟨causal, none⟩,
    ⟨{.ofByte 1}, ∅, {.ofByte 1}, {.ofByte 1}⟩⟩ := by decide +kernel
  have unfinalized : LogicalId.ofByte 1 ∉ image.finalization.finalized := by decide +kernel
  refine ⟨⟨_, restored⟩, by decide +kernel, by decide +kernel, by decide +kernel, unfinalized, ?_⟩
  intro sound
  exact unfinalized (sound.exposedFinalized (.ofByte 1) (by decide +kernel))

end Bookkeeping

end PrivateContinuum.Runtime
