import PrivateContinuum.Runtime.TrustedStateSet
import PrivateContinuum.Sync.ProjectionFormat

namespace PrivateContinuum.Runtime

open Std (ExtTreeSet ExtTreeMap)
open PrivateContinuum.Library PrivateContinuum.Core PrivateContinuum.Sync

/-- A pending epoch as the bytes list it. -/
structure ListedEpoch where
  id : WorkingEpochId
  value : Bytes
  observed : List RevisionId
  distinct : observed.Nodup

def ListedEpoch.epoch (listed : ListedEpoch) : WorkingEpoch Bytes :=
  ⟨listed.id, listed.value, .ofList listed.observed⟩

def idsImage (ids : List RevisionId) : Bytes :=
  bigEndian 8 ids.length ++ ids.flatMap LogicalId.bytes

def revisionsImage (listed : List ListedRevision) : Bytes :=
  bigEndian 8 listed.length ++ listed.flatMap listedImage

def listedPendingImage : Option ListedEpoch → Bytes
  | none => [0]
  | some epoch => [1] ++ (epoch.id.bytes ++ (vecImage epoch.value ++ idsImage epoch.observed))

/-- The listed entries are the finalized statements, each under its own identity. -/
def FinalizedFrom (entries : List ListedRevision)
    (finalized : ExtTreeMap RevisionId (FinalizedStatement Bytes)) :
    Prop :=
  ∀ (id : RevisionId) (statement : FinalizedStatement Bytes), finalized[id]? = some statement ↔
    ∃ one ∈ entries, one.id = id ∧ .ofRevision one.revision = statement

/-- A recovery image as its bytes list it, section after section. A finalized
entry has the layout of a revision. -/
structure ListedSnapshot where
  revisions : List ListedRevision
  pending : Option ListedEpoch
  localIds : List RevisionId
  finalized : List ListedRevision
  exposed : List RevisionId
  handedOff : List RevisionId
  localDistinct : localIds.Nodup
  finalizedDistinct : finalized.Pairwise fun one other => one.id ≠ other.id
  exposedDistinct : exposed.Nodup
  handedOffDistinct : handedOff.Nodup

namespace ListedSnapshot

variable (listed : ListedSnapshot)

/-- The bytes that list these fields. -/
def image : Bytes :=
  (TrustedState.magic ++ bigEndian 2 TrustedState.version) ++
    (revisionsImage listed.revisions ++
      (listedPendingImage listed.pending ++ (idsImage listed.localIds ++
      (revisionsImage listed.finalized ++ (idsImage listed.exposed ++ idsImage listed.handedOff)))))

/-- The identity heads a listed revision. -/
def Known (id : RevisionId) : Prop := ∃ one ∈ listed.revisions, one.id = id

def Parent (child parent : RevisionId) : Prop :=
  ∃ one ∈ listed.revisions, one.id = child ∧ parent ∈ one.parents

/-- One or more listed parent steps lead down from the descendant. -/
def Below (ancestor descendant : RevisionId) : Prop :=
  Relation.TransGen listed.Parent descendant ancestor

/-- What decoding checks between the listed fields. -/
structure Accepted : Prop where
  agreeing : ∀ one ∈ listed.revisions, ∀ other ∈ listed.revisions, one.id = other.id →
    one.revision = other.revision
  closed : ∀ child parent, listed.Parent child parent → listed.Known parent
  acyclic : ∀ id, ¬ listed.Below id id
  frontierCurrent : ∀ epoch, listed.pending = some epoch → ∀ id, id ∈ epoch.observed ↔
    listed.Known id ∧ ∀ descendant, ¬ listed.Below id descendant
  exposedLocal : ∀ id ∈ listed.exposed, id ∈ listed.localIds
  handedOffExposed : ∀ id ∈ listed.handedOff, id ∈ listed.exposed
  finalizedLocal : ∀ statement ∈ listed.finalized, statement.id ∈ listed.localIds
  localKnown : ∀ id ∈ listed.localIds, listed.Known id
  frozen : ∀ statement ∈ listed.finalized, ∃ one ∈ listed.revisions,
    one.revision = statement.revision

/-- Every exposed identity heads a finalized entry, and every local identity below
it is listed as exposed. -/
structure ExposureCovered : Prop where
  exposedFinalized : ∀ id ∈ listed.exposed, ∃ statement ∈ listed.finalized, statement.id = id
  belowExposed : ∀ id ∈ listed.exposed, ∀ ancestor ∈ listed.localIds, listed.Below ancestor id →
    ancestor ∈ listed.exposed

/-- The snapshot that the fields make up. -/
structure Describes (snapshot : LocalScalarSnapshot Bytes) : Prop where
  causal : ScalarRegister.fromRevisions (listed.revisions.map ListedRevision.revision) =
    .ok snapshot.working.causal
  pending : listed.pending.map ListedEpoch.epoch = snapshot.working.pending
  localIds : snapshot.finalization.localRevisionIds = .ofList listed.localIds
  finalized : FinalizedFrom listed.finalized snapshot.finalization.finalized
  exposed : snapshot.finalization.exposedLocalIds = .ofList listed.exposed
  handedOff : snapshot.finalization.handedOffLocalIds = .ofList listed.handedOff

end ListedSnapshot

theorem parses_pending : Parses readPending fun chunk pending =>
    ∃ listed : Option ListedEpoch, chunk = listedPendingImage listed ∧
      listed.map ListedEpoch.epoch = pending := by
  have present : Parses (do
      let id ← readId
      let value ← readVec
      let observed ← readIdSet
      pure (some ⟨id, value, observed⟩) :
      StateParser (Option (WorkingEpoch Bytes))) fun chunk found =>
        ∃ epoch, found = some epoch ∧ ∃ listed : ListedEpoch, chunk = listed.id.bytes ++
          (vecImage listed.value ++ idsImage listed.observed) ∧ listed.epoch = epoch := by
    refine (parses_id.bind fun id => parses_vecImage.bind fun value =>
      parses_idSet.map fun observed =>
      some (⟨id, value, observed⟩ : WorkingEpoch Bytes)).congr ?_
    intro chunk found _
    constructor
    · intro taken
      obtain ⟨id, left, right, halves, shownId, value, middle, others, split, shownValue, set,
        ⟨ids, distinct, shownIds, named⟩, same⟩ := taken
      refine ⟨_, same.symm, ⟨id, value, ids, distinct⟩, ?_, ?_⟩
      · rw [halves, shownId, split, shownValue, shownIds]
        rfl
      · rw [named]
        rfl
    · intro taken
      obtain ⟨epoch, same, listed, shown, named⟩ := taken
      subst same
      subst named
      exact ⟨listed.id, _, _, shown, rfl, listed.value, _, _, rfl, rfl, _,
        ⟨listed.observed, listed.distinct, rfl, rfl⟩, rfl⟩
  refine (parses_optional TrustedStateCodecError.invalidBoolean present).congr ?_
  intro chunk pending _
  constructor
  · intro taken
    rcases taken with ⟨shown, same⟩ | ⟨rest, epoch, shown, same, listed, image, named⟩
    · exact ⟨none, shown, same.symm⟩
    · refine ⟨some listed, ?_, ?_⟩
      · rw [shown, image]
        rfl
      · rw [same, ← named]
        rfl
  · intro found
    obtain ⟨listed, shown, same⟩ := found
    cases listed with
    | none => exact Or.inl ⟨shown, same.symm⟩
    | some epoch => exact Or.inr ⟨_, epoch.epoch, shown, same.symm, epoch, rfl, rfl⟩

def finalizedEntry (listed : ListedRevision) : RevisionId × FinalizedStatement Bytes :=
  (listed.id, .ofRevision listed.revision)

theorem parses_finalized (stored : ExtTreeMap RevisionId (FinalizedStatement Bytes)) :
    Parses (readFinalized stored) fun chunk next => ∃ listed : ListedRevision,
      chunk = listedImage listed ∧ insertNewEntry stored (finalizedEntry listed) = some next := by
  refine (parses_id.bind fun id => parses_vecImage.bind fun value =>
    parses_idSet.bind fun parents =>
    parses_refusal TrustedStateCodecError.duplicateFinalizedStatement
      (parses_pure (stored.insert id ⟨id, value, parents⟩))).congr ?_
  intro chunk next _
  constructor
  · intro taken
    obtain ⟨id, left, right, halves, shownId, value, middle, others, split, shownValue, set,
      last, rest, pieces, ⟨ids, distinct, shownIds, named⟩, absent, empty, same⟩ := taken
    refine ⟨⟨id, value, ids, distinct⟩, ?_, ?_⟩
    · rw [halves, shownId, split, shownValue, pieces, shownIds, empty, List.append_nil]
      rfl
    · rw [insertNewEntry, finalizedEntry, if_neg absent, ← same, named]
      rfl
  · intro found
    obtain ⟨listed, shown, inserted⟩ := found
    unfold insertNewEntry finalizedEntry at inserted
    split at inserted
    · cases inserted
    · rename_i absent
      exact ⟨listed.id, _, _, shown, rfl, listed.value, _, _, rfl, rfl, _, _, [],
        (List.append_nil _).symm,
        ⟨listed.parents, listed.distinct, rfl, rfl⟩, absent, rfl, Option.some.inj inserted⟩

theorem collect_finalized_iff {entries : List ListedRevision}
    {finalized : ExtTreeMap RevisionId (FinalizedStatement Bytes)} :
    (entries.map finalizedEntry).foldlM insertNewEntry ∅ = some finalized ↔
      entries.Pairwise (fun one other => one.id ≠ other.id) ∧ FinalizedFrom entries finalized := by
  rw [collect_iff, List.pairwise_map]
  simp only [FinalizedFrom, finalizedEntry, List.mem_map, Prod.mk.injEq]

theorem exists_finalizedFrom {entries : List ListedRevision}
    (distinct : entries.Pairwise fun one other => one.id ≠ other.id) :
    ∃ finalized, FinalizedFrom entries finalized := by
  have collected : (entries.map finalizedEntry).foldlM insertNewEntry ∅ = some _ :=
    foldlM_insertNewEntry.mpr ⟨List.pairwise_map.mpr distinct, by simp, rfl⟩
  exact ⟨_, (collect_finalized_iff.mp collected).2⟩

theorem parses_allFinalized :
    Parses readAllFinalized fun chunk finalized => ∃ entries : List ListedRevision,
    entries.Pairwise (fun one other => one.id ≠ other.id) ∧ chunk = revisionsImage entries ∧
      FinalizedFrom entries finalized := by
  have counted : Parses (do
      let count ← readLen
      let last ← readTimes readFinalized count ∅
      pure last : StateParser (ExtTreeMap RevisionId (FinalizedStatement Bytes))) _ :=
    parses_counted listedImage_ne_nil parses_finalized ∅ fun _ finalized => parses_pure finalized
  simp only [bind_pure] at counted
  refine Parses.congr counted ?_
  intro chunk finalized _
  constructor
  · intro taken
    obtain ⟨entries, last, right, shown, stored, empty, same⟩ := taken
    subst same
    rw [← List.foldlM_map] at stored
    obtain ⟨distinct, holds⟩ := collect_finalized_iff.mp stored
    exact ⟨entries, distinct, by rw [shown, empty, List.append_nil]; rfl, holds⟩
  · intro listed
    obtain ⟨entries, distinct, shown, holds⟩ := listed
    have stored := collect_finalized_iff.mpr ⟨distinct, holds⟩
    rw [List.foldlM_map] at stored
    exact ⟨entries, finalized, [], by rw [shown, List.append_nil]; rfl, stored, rfl, rfl⟩

theorem parses_snapshot : Parses readSnapshot fun chunk snapshot => ∃ listed : ListedSnapshot,
    chunk = listed.image ∧ listed.Describes snapshot := by
  refine ((parses_header TrustedState.magic (by decide) _ _).bind fun _ =>
    parses_register.bind fun causal =>
    parses_pending.bind fun pending => parses_idSet.bind fun localIds =>
      parses_allFinalized.bind fun finalized =>
      parses_idSet.bind fun exposed => parses_idSet.map fun handedOff =>
        (⟨⟨causal, pending⟩, ⟨localIds, finalized, exposed, handedOff⟩⟩ : LocalScalarSnapshot
          Bytes)).congr ?_
  intro chunk snapshot _
  constructor
  · intro taken
    obtain ⟨_, _, _, first, shownHeader, causal, _, _, second, ⟨revisions, shownRevisions, built⟩,
      pending, _, _, third,
      ⟨epoch, shownEpoch, samePending⟩, locals, _, _, fourth,
      ⟨localIds, localDistinct, shownLocal, sameLocal⟩,
      finalized, _, _, fifth, ⟨entries, entriesDistinct, shownEntries, frozen⟩,
      exposedSet, _, _, sixth,
      ⟨exposed, exposedDistinct, shownExposed, sameExposed⟩, handedOffSet,
      ⟨handedOff, handedOffDistinct, shownHandedOff, sameHandedOff⟩, same⟩ := taken
    subst same
    refine ⟨⟨revisions, epoch, localIds, entries, exposed, handedOff, localDistinct,
      entriesDistinct, exposedDistinct,
      handedOffDistinct⟩, ?_, ⟨built, samePending, sameLocal, frozen, sameExposed, sameHandedOff⟩⟩
    rw [first, shownHeader, second, shownRevisions, third, shownEpoch, fourth, shownLocal, fifth,
      shownEntries, sixth, shownExposed, shownHandedOff]
    rfl
  · intro found
    obtain ⟨listed, shown, describes⟩ := found
    exact ⟨(), _, _, shown, rfl, snapshot.working.causal, _, _, rfl,
      ⟨listed.revisions, rfl, describes.causal⟩,
      snapshot.working.pending, _, _, rfl, ⟨listed.pending, rfl, describes.pending⟩,
      snapshot.finalization.localRevisionIds, _, _, rfl,
      ⟨listed.localIds, listed.localDistinct, rfl, describes.localIds⟩,
      snapshot.finalization.finalized, _, _, rfl,
      ⟨listed.finalized, listed.finalizedDistinct, rfl, describes.finalized⟩,
      snapshot.finalization.exposedLocalIds, _, _, rfl,
      ⟨listed.exposed, listed.exposedDistinct, rfl, describes.exposed⟩,
      snapshot.finalization.handedOffLocalIds,
      ⟨listed.handedOff, listed.handedOffDistinct, rfl, describes.handedOff⟩, rfl⟩

/-- Decoding accepts exactly the listings of a snapshot that restores. -/
theorem decodeLocalScalarSnapshot_ok_iff {encoded : Bytes} {snapshot : LocalScalarSnapshot Bytes}
    (fits : encoded.length < sizeLimit) : decodeLocalScalarSnapshot encoded = .ok snapshot ↔
      (∃ listed : ListedSnapshot, encoded = listed.image ∧ listed.Describes snapshot) ∧
        ∃ domain, LocalScalarDomain.restore snapshot = .ok domain := by
  simp only [decodeLocalScalarSnapshot, bind_ok_iff, mapError_ok_iff, pure_eq_ok, Except.ok.injEq,
    parses_snapshot.complete_ok_iff _ fits]
  constructor
  · intro done
    obtain ⟨_, listed, domain, restored, same⟩ := done
    subst same
    exact ⟨listed, domain, restored⟩
  · intro accepted
    obtain ⟨listed, domain, restored⟩ := accepted
    exact ⟨snapshot, listed, domain, restored, rfl⟩

/-- One domain of a container as the bytes list it. -/
structure ListedDomain where
  key : DomainKey
  snapshot : ListedSnapshot

def ListedDomain.image (listed : ListedDomain) : Bytes :=
  listed.key.atomId.bytes ++ (vecImage listed.key.domain ++ vecImage listed.snapshot.image)

/-- The bytes that list these domains in the given order. -/
def recoveryFrame (domains : List ListedDomain) : Bytes :=
  (TrustedStateSet.magic ++ bigEndian 2 TrustedStateSet.version) ++
    (bigEndian 8 domains.length ++ domains.flatMap ListedDomain.image)

/-- A listed domain with the snapshot that it stands for. -/
structure RestoredDomain where
  listed : ListedDomain
  snapshot : LocalScalarSnapshot Bytes
  named : listed.key.domain ≠ []
  describes : listed.snapshot.Describes snapshot
  restores : ∃ domain, LocalScalarDomain.restore snapshot = .ok domain

def RestoredDomain.image (restored : RestoredDomain) : Bytes := restored.listed.image

theorem RestoredDomain.image_ne_nil (restored : RestoredDomain) : restored.image ≠ [] := by
  intro empty
  exact id_bytes_ne_nil restored.listed.key.atomId (List.append_eq_nil_iff.mp empty).1

def storeDomain (recovery : LocalScalarRecoveryState) (restored : RestoredDomain) :
    Option LocalScalarRecoveryState :=
  if restored.listed.key ∈ recovery.domains then none
  else some (recovery.put restored.listed.key restored.snapshot restored.restores)

theorem parses_domain (recovery : LocalScalarRecoveryState) :
    Parses (readDomain recovery) fun chunk next =>
    ∃ restored : RestoredDomain, chunk = restored.image ∧
      storeDomain recovery restored = some next := by
  refine (parses_id.bind fun atomId => parses_vecImage.bind fun domain =>
    (parses_check
      ((DomainKey.create atomId domain).mapError MultiScalarTrustedStateCodecError.domain)).bind
        fun key =>
      parses_vecImage.bind fun scalarBytes =>
        (parses_check
          ((LocalScalarRecoveryState.attach (decodeLocalScalarSnapshot scalarBytes)).mapError
          MultiScalarTrustedStateCodecError.scalar)).bind fun snapshot =>
            parses_refusal MultiScalarTrustedStateCodecError.duplicateDomain
              (parses_pure
                (recovery.put key snapshot.1
                  (decodeLocalScalarSnapshot_restores snapshot.2)))).congr ?_
  intro chunk next fits
  constructor
  · intro taken
    obtain ⟨atomId, left, right, halves, shownId, domain, middle, others, split, shownDomain,
      key, check, later,
      parts, ⟨checkEmpty, created⟩, scalarBytes, nested, last, pieces, shownNested, snapshot,
      final, rest, closing,
      ⟨finalEmpty, _⟩, absent, empty, same⟩ := taken
    obtain ⟨named, keyed⟩ := createKey_ok_iff.mp (mapError_ok_iff.mp created)
    have shown : chunk = atomId.bytes ++ (vecImage domain ++ vecImage scalarBytes) := by
      rw [halves, shownId, split, shownDomain, parts, checkEmpty, pieces, shownNested, closing,
        finalEmpty, empty, List.append_nil, List.append_nil, List.nil_append]
    have nestedFits : scalarBytes.length < sizeLimit := by
      rw [shown] at fits
      simp only [vecImage, List.length_append] at fits
      omega
    obtain ⟨⟨listed, image, describes⟩, restores⟩ :=
      (decodeLocalScalarSnapshot_ok_iff nestedFits).mp snapshot.2
    have filled : key.domain ≠ [] := by
      rw [keyed]
      exact named
    refine ⟨⟨⟨key, listed⟩, snapshot.1, filled, describes, restores⟩, ?_, ?_⟩
    · change chunk = key.atomId.bytes ++ (vecImage key.domain ++ vecImage listed.image)
      rw [shown, image, keyed]
    · rw [storeDomain, if_neg absent, ← same]
  · intro taken
    obtain ⟨restored, shown, stored⟩ := taken
    unfold storeDomain at stored
    split at stored
    · cases stored
    · rename_i absent
      have nestedFits : restored.listed.snapshot.image.length < sizeLimit := by
        rw [shown] at fits
        simp only [RestoredDomain.image, ListedDomain.image, vecImage, List.length_append] at fits
        omega
      have decoded := (decodeLocalScalarSnapshot_ok_iff nestedFits).mpr
        ⟨⟨restored.listed.snapshot, rfl, restored.describes⟩, restored.restores⟩
      have created : DomainKey.create restored.listed.key.atomId restored.listed.key.domain =
          .ok restored.listed.key := DomainKey.create_ok restored.named
      exact ⟨restored.listed.key.atomId, _, _, shown, rfl, restored.listed.key.domain, _, _,
        rfl, rfl,
        restored.listed.key, [], _, rfl, ⟨rfl, mapError_ok_iff.mpr created⟩,
        restored.listed.snapshot.image, _, [],
        (List.append_nil _).symm, rfl, ⟨restored.snapshot, decoded⟩, [], [], rfl,
        ⟨rfl, mapError_ok_iff.mpr (attach_ok decoded)⟩, absent, rfl, Option.some.inj stored⟩

/-- The container holds exactly these domains, under distinct keys. -/
structure HoldsDomains (recovery : LocalScalarRecoveryState)
    (domains : List RestoredDomain) : Prop where
  distinct : domains.Pairwise fun one other => one.listed.key ≠ other.listed.key
  holds : ∀ key snapshot, recovery.get key = some snapshot ↔
    ∃ restored ∈ domains, restored.listed.key = key ∧ restored.snapshot = snapshot

theorem storeDomain_domains {recovery next : LocalScalarRecoveryState} {restored : RestoredDomain} :
    storeDomain recovery restored = some next ↔
      insertNewEntry recovery.domains (restored.listed.key, restored.snapshot) =
        some next.domains := by
  unfold storeDomain insertNewEntry
  split
  · simp
  · rw [Option.some.injEq, Option.some.injEq]
    constructor
    · intro same
      rw [← same]
      rfl
    · intro same
      cases next
      cases same
      rfl

theorem foldlM_storeDomain {domains : List RestoredDomain} {start last : LocalScalarRecoveryState} :
    domains.foldlM storeDomain start = some last ↔
      (domains.map fun restored => (restored.listed.key, restored.snapshot)).foldlM
        insertNewEntry start.domains = some last.domains := by
  induction domains generalizing start with
  | nil =>
    simp only [List.foldlM_nil, List.map_nil]
    constructor
    · intro same
      cases same
      rfl
    · intro same
      cases start
      cases last
      cases same
      rfl
  | cons restored rest ih =>
    rw [List.foldlM_cons, List.map_cons, List.foldlM_cons]
    cases stored : storeDomain start restored with
    | none =>
      unfold storeDomain at stored
      split at stored
      · rename_i present
        simp [insertNewEntry, present]
      · cases stored
    | some next =>
      rw [storeDomain_domains.mp stored]
      exact ih

theorem holdsDomains_iff {recovery : LocalScalarRecoveryState} {domains : List RestoredDomain} :
    HoldsDomains recovery domains ↔ domains.foldlM storeDomain .empty = some recovery := by
  rw [foldlM_storeDomain]
  change _ ↔ List.foldlM insertNewEntry ∅ _ = _
  rw [collect_iff, List.pairwise_map]
  simp only [List.mem_map, Prod.mk.injEq]
  exact ⟨fun lists => ⟨lists.distinct, lists.holds⟩, fun lists => ⟨lists.1, lists.2⟩⟩

theorem parses_recoveryState :
    Parses readRecoveryState fun chunk recovery => ∃ domains : List RestoredDomain,
    chunk = recoveryFrame (domains.map RestoredDomain.listed) ∧ HoldsDomains recovery domains := by
  have counted := parses_counted RestoredDomain.image_ne_nil parses_domain .empty fun _ recovery =>
    parses_pure recovery
  simp only [bind_pure] at counted
  refine ((parses_header TrustedStateSet.magic (by decide) _ _).bind fun _ => counted).congr ?_
  intro chunk recovery _
  have images : ∀ domains : List RestoredDomain, recoveryFrame (domains.map RestoredDomain.listed) =
      (TrustedStateSet.magic ++ bigEndian 2 TrustedStateSet.version) ++
        (bigEndian 8 domains.length ++ domains.flatMap RestoredDomain.image) := by
    intro domains
    rw [recoveryFrame, List.length_map, List.flatMap_map]
    rfl
  constructor
  · intro taken
    obtain ⟨_, header, rest, halves, shownHeader, domains, last, right, shown, stored,
        empty, same⟩ := taken
    subst same
    refine ⟨domains, ?_, holdsDomains_iff.mpr stored⟩
    rw [images, halves, shownHeader, shown, empty, List.append_nil]
  · intro listed
    obtain ⟨domains, shown, holds⟩ := listed
    rw [images] at shown
    exact ⟨(), _, _, shown, rfl, domains, recovery, [], by rw [List.append_nil],
      holdsDomains_iff.mp holds, rfl, rfl⟩

theorem decodeMultiScalarRecoveryState_ok_iff {encoded : Bytes}
    {recovery : LocalScalarRecoveryState} (fits : encoded.length < sizeLimit) :
    decodeMultiScalarRecoveryState encoded = .ok recovery ↔
      ∃ domains : List RestoredDomain, encoded = recoveryFrame (domains.map RestoredDomain.listed) ∧
        HoldsDomains recovery domains :=
  parses_recoveryState.complete_ok_iff _ fits

theorem exists_holdsDomains {domains : List RestoredDomain}
    (distinct : domains.Pairwise fun one other => one.listed.key ≠ other.listed.key) :
    ∃ recovery, HoldsDomains recovery domains := by
  let entry : RestoredDomain → DomainKey × LocalScalarSnapshot Bytes :=
    fun restored => (restored.listed.key, restored.snapshot)
  have collected : ∃ stored, (domains.map entry).foldlM insertNewEntry ∅ = some stored :=
    ⟨_, foldlM_insertNewEntry.mpr ⟨List.pairwise_map.mpr distinct, by simp, rfl⟩⟩
  obtain ⟨stored, collected⟩ := collected
  obtain ⟨_, holds⟩ := collect_iff.mp collected
  have restores : ∀ (key : DomainKey) (snapshot : LocalScalarSnapshot Bytes),
      stored[key]? = some snapshot → ∃ domain, LocalScalarDomain.restore snapshot = .ok domain := by
    intro key snapshot found
    obtain ⟨restored, _, same⟩ := List.mem_map.mp ((holds key snapshot).mp found)
    cases same
    exact restored.restores
  refine ⟨⟨stored, restores⟩, distinct, ?_⟩
  intro key snapshot
  change stored[key]? = some snapshot ↔ _
  rw [holds, List.mem_map]
  simp only [entry, Prod.mk.injEq]

end PrivateContinuum.Runtime
