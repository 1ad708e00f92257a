import PrivateContinuum.Sync.Codec
import PrivateContinuum.Sync.RecordFormat

namespace PrivateContinuum.Sync

open Std (ExtTreeMap ExtTreeSet)
open PrivateContinuum.Library PrivateContinuum.Core

/-- One revision as the bytes list it, its parents in some order. -/
structure ListedRevision where
  id : RevisionId
  value : Bytes
  parents : List RevisionId
  distinct : parents.Nodup

def ListedRevision.revision (listed : ListedRevision) : ScalarRevision Bytes :=
  ⟨listed.id, listed.value, .ofList listed.parents⟩

def listedImage (listed : ListedRevision) : Bytes :=
  listed.id.bytes ++ (vecImage listed.value ++
    (bigEndian 8 listed.parents.length ++ listed.parents.flatMap LogicalId.bytes))

/-- One domain as the bytes list it: revisions in some order, also repeated, that
form a parent-closed and acyclic register. -/
structure DomainBlock where
  key : DomainKey
  listed : List ListedRevision
  register : ScalarRegister Bytes
  named : key.domain ≠ []
  forms : ∀ (id : RevisionId) (revision : ScalarRevision Bytes),
    register.revision id = some revision ↔
    ∃ one ∈ listed, one.revision = revision ∧ revision.id = id
  closed : register.ParentClosed
  acyclic : register.Acyclic

def blockImage (block : DomainBlock) : Bytes :=
  block.key.atomId.bytes ++ (vecImage block.key.domain ++
    (bigEndian 8 block.listed.length ++ block.listed.flatMap listedImage))

/-- The bytes that list these domains in the given order. -/
def projectionFrame (blocks : List DomainBlock) : Bytes :=
  (Codec.magic ++ bigEndian 2 Codec.version) ++
    (bigEndian 8 blocks.length ++ blocks.flatMap blockImage)

section Scalar

variable {Failure : Type} [ScalarFailure Failure]

theorem parses_idSet :
    Parses (readIdSet : Parser Failure _) fun chunk set => ∃ ids : List RevisionId,
    ids.Nodup ∧ chunk = bigEndian 8 ids.length ++ ids.flatMap LogicalId.bytes ∧
    set = .ofList ids := by
  have step : ∀ set : ExtTreeSet RevisionId,
    Parses (readSetMember set : Parser Failure _) fun chunk next =>
      ∃ id : RevisionId, chunk = id.bytes ∧ insertNewMember set id = some next := by
    intro set
    refine (parses_id.bind fun id => parses_refusal ScalarFailure.duplicateRevisionInSet
      (parses_pure (set.insert id))).congr ?_
    intro chunk next _
    constructor
    · intro taken
      obtain ⟨id, left, right, halves, shown, absent, empty, same⟩ := taken
      exact ⟨id, by rw [halves, shown, empty, List.append_nil], by
        rw [insertNewMember, if_neg absent, same]⟩
    · intro taken
      obtain ⟨id, shown, inserted⟩ := taken
      unfold insertNewMember at inserted
      split at inserted
      · cases inserted
      · rename_i absent
        exact ⟨id, chunk, [], by simp, shown, absent, rfl, Option.some.inj inserted⟩
  have counted : Parses (do
      let count ← readLen
      let last ← readTimes readSetMember count ∅
      pure last : Parser Failure (ExtTreeSet RevisionId)) _ :=
    parses_counted id_bytes_ne_nil step ∅ fun _ set => parses_pure set
  simp only [bind_pure] at counted
  refine Parses.congr counted ?_
  intro chunk set _
  constructor
  · intro taken
    obtain ⟨ids, last, right, shown, collected, empty, same⟩ := taken
    obtain ⟨distinct, _, holds⟩ := foldlM_insertNewMember.mp collected
    refine ⟨ids, distinct, by rw [shown, empty, List.append_nil], ?_⟩
    rw [← same]
    apply ExtTreeSet.ext_mem
    intro id
    simp [holds]
  · intro listed
    obtain ⟨ids, distinct, shown, same⟩ := listed
    refine ⟨ids, set, [], by rw [shown, List.append_nil], ?_, rfl, rfl⟩
    rw [foldlM_insertNewMember]
    refine ⟨distinct, by simp, ?_⟩
    intro id
    simp [same]

theorem parses_revision : Parses (readRevision : Parser Failure _) fun chunk revision =>
    ∃ listed : ListedRevision, chunk = listedImage listed ∧ listed.revision = revision := by
  refine (parses_id.bind fun id => parses_vecImage.bind fun value => parses_idSet.map fun parents =>
    (⟨id, value, parents⟩ : ScalarRevision Bytes)).congr ?_
  intro chunk revision _
  constructor
  · intro taken
    obtain ⟨id, left, right, halves, shownId, value, middle, others, split, shownValue, set,
      ⟨ids, distinct, shownIds, named⟩, same⟩ := taken
    refine ⟨⟨id, value, ids, distinct⟩, ?_, ?_⟩
    · rw [halves, shownId, split, shownValue, shownIds]
      rfl
    · rw [← same, named]
      rfl
  · intro found
    obtain ⟨listed, shown, same⟩ := found
    exact ⟨listed.id, _, _, shown, rfl, listed.value, _, _, rfl, rfl, _,
      ⟨listed.parents, listed.distinct, rfl, rfl⟩, same⟩

theorem listedImage_ne_nil (listed : ListedRevision) : listedImage listed ≠ [] := by
  intro empty
  exact id_bytes_ne_nil listed.id (List.append_eq_nil_iff.mp empty).1

theorem foldlM_append {Item Kept : Type} (keep : Item → Kept) {items : List Item}
    {before gathered : List Kept} :
    items.foldlM (fun kept item => some (kept ++ [keep item])) before = some gathered ↔
      gathered = before ++ items.map keep := by
  induction items generalizing before with
  | nil => simp [eq_comm]
  | cons item rest ih =>
    rw [List.foldlM_cons]
    change rest.foldlM _ (before ++ [keep item]) = some gathered ↔ _
    rw [ih]
    simp

theorem parses_register : Parses (readRegister : Parser Failure _) fun chunk register =>
    ∃ listed : List ListedRevision, chunk = bigEndian 8 listed.length ++
      listed.flatMap listedImage ∧
      ScalarRegister.fromRevisions (listed.map ListedRevision.revision) = .ok register := by
  have step : ∀ read : List (ScalarRevision Bytes), Parses (do
      let revision ← readRevision
      pure (read ++ [revision]) : Parser Failure (List (ScalarRevision Bytes))) fun chunk next =>
      ∃ listed : ListedRevision, chunk = listedImage listed ∧
        some (read ++ [listed.revision]) = some next := by
    intro read
    refine (parses_revision.map fun revision => read ++ [revision]).congr ?_
    intro chunk next _
    constructor
    · intro taken
      obtain ⟨revision, ⟨listed, shown, named⟩, same⟩ := taken
      exact ⟨listed, shown, by rw [named, same]⟩
    · intro taken
      obtain ⟨listed, shown, same⟩ := taken
      exact ⟨listed.revision, ⟨listed, shown, rfl⟩, Option.some.inj same⟩
  refine (parses_counted listedImage_ne_nil step [] fun _ revisions =>
    parses_check ((ScalarRegister.fromRevisions revisions).mapError ScalarFailure.core)).congr ?_
  intro chunk register _
  constructor
  · intro taken
    obtain ⟨listed, revisions, right, shown, gathered, empty, built⟩ := taken
    refine ⟨listed, by rw [shown, empty, List.append_nil], ?_⟩
    rw [foldlM_append, List.nil_append] at gathered
    rw [← gathered]
    exact mapError_ok_iff.mp built
  · intro taken
    obtain ⟨listed, shown, built⟩ := taken
    exact ⟨listed, _, [], by rw [shown, List.append_nil],
      (foldlM_append ListedRevision.revision).mpr rfl, rfl, mapError_ok_iff.mpr built⟩

end Scalar

theorem createKey_ok_iff {atomId : AtomId} {domain : Bytes} {key : DomainKey} :
    DomainKey.create atomId domain = .ok key ↔ domain ≠ [] ∧ key = ⟨atomId, domain⟩ := by
  unfold DomainKey.create
  split
  · rename_i empty
    simp [List.isEmpty_iff.mp empty]
  · rename_i filled
    rw [Except.ok.injEq, eq_comm]
    exact ⟨fun same => ⟨fun empty => filled (List.isEmpty_iff.mpr empty), same⟩, fun both => both.2⟩

/-- A block lists what the register is built from. -/
theorem DomainBlock.built (block : DomainBlock) :
    ScalarRegister.fromRevisions (block.listed.map ListedRevision.revision) =
      .ok block.register := by
  rw [ScalarRegister.fromRevisions_ok_iff]
  refine ⟨ScalarRegister.validate_ok_iff.mpr ⟨block.closed, block.acyclic⟩, ?_⟩
  intro id revision
  rw [block.forms, List.mem_map]
  constructor
  · intro found
    obtain ⟨one, member, same, named⟩ := found
    exact ⟨⟨one, member, same⟩, named⟩
  · intro found
    obtain ⟨⟨one, member, same⟩, named⟩ := found
    exact ⟨one, member, same, named⟩

theorem DomainBlock.exists_of_built {key : DomainKey} {listed : List ListedRevision}
    {register : ScalarRegister Bytes} (named : key.domain ≠ [])
    (built : ScalarRegister.fromRevisions (listed.map ListedRevision.revision) = .ok register) :
    ∃ block : DomainBlock, block.key = key ∧ block.listed = listed ∧ block.register = register := by
  obtain ⟨valid, holds⟩ := ScalarRegister.fromRevisions_ok_iff.mp built
  refine ⟨⟨key, listed, register, named, ?_, valid.closed, valid.acyclic⟩, rfl, rfl, rfl⟩
  intro id revision
  rw [holds, List.mem_map]
  constructor
  · intro found
    obtain ⟨⟨one, member, same⟩, keyed⟩ := found
    exact ⟨one, member, same, keyed⟩
  · intro found
    obtain ⟨one, member, same, keyed⟩ := found
    exact ⟨⟨one, member, same⟩, keyed⟩

theorem blockImage_ne_nil (block : DomainBlock) : blockImage block ≠ [] := by
  intro empty
  exact id_bytes_ne_nil block.key.atomId (List.append_eq_nil_iff.mp empty).1

def storeBlock (domains : ExtTreeMap DomainKey (ScalarRegister Bytes)) (block : DomainBlock) :
    Option (ExtTreeMap DomainKey (ScalarRegister Bytes)) :=
  insertNewEntry domains (block.key, block.register)

theorem parses_projected (domains : ExtTreeMap DomainKey (ScalarRegister Bytes)) :
    Parses (readProjected domains) fun chunk next =>
      ∃ block : DomainBlock, chunk = blockImage block ∧ storeBlock domains block = some next := by
  refine (parses_id.bind fun atomId => parses_vecImage.bind fun domain =>
    (parses_check ((DomainKey.create atomId domain).mapError SyncCodecError.projection)).bind
      fun key =>
      parses_register.bind fun register => parses_refusal SyncCodecError.duplicateDomain
        (parses_pure (domains.insert key register))).congr ?_
  intro chunk next _
  constructor
  · intro taken
    obtain ⟨atomId, left, right, halves, shownId, domain, middle, others, split, shownDomain,
      key, check, later,
      parts, ⟨checkEmpty, created⟩, register, listing, last, pieces, ⟨listed, shownListed, built⟩,
      absent, empty,
      same⟩ := taken
    obtain ⟨named, keyed⟩ := createKey_ok_iff.mp (mapError_ok_iff.mp created)
    have filled : key.domain ≠ [] := by
      rw [keyed]
      exact named
    obtain ⟨block, blockKey, blockListed, blockRegister⟩ := DomainBlock.exists_of_built filled built
    refine ⟨block, ?_, ?_⟩
    · rw [blockImage, blockKey, blockListed, keyed, halves, shownId, split, shownDomain, parts,
        checkEmpty, pieces, shownListed, empty, List.append_nil, List.nil_append]
    · rw [storeBlock, insertNewEntry, blockKey, blockRegister, if_neg absent, same]
  · intro taken
    obtain ⟨block, shown, stored⟩ := taken
    unfold storeBlock insertNewEntry at stored
    split at stored
    · cases stored
    · rename_i absent
      have created : DomainKey.create block.key.atomId block.key.domain = .ok block.key :=
        DomainKey.create_ok block.named
      exact ⟨block.key.atomId, _, _, shown, rfl, block.key.domain, _, _, rfl, rfl,
        block.key, [], _, rfl,
        ⟨rfl, mapError_ok_iff.mpr created⟩, block.register, _, [], (List.append_nil _).symm,
        ⟨block.listed, rfl, block.built⟩, absent, rfl, Option.some.inj stored⟩

/-- The blocks describe the projection: distinct keys, each with its register. -/
structure ListsDomains (projection : ScalarSyncProjection) (blocks : List DomainBlock) : Prop where
  distinct : blocks.Pairwise fun left right => left.key ≠ right.key
  holds : ∀ key register, projection.get key = some register ↔
    ∃ block ∈ blocks, block.key = key ∧ block.register = register

theorem foldlM_storeBlock {blocks : List DomainBlock}
    {start last : ExtTreeMap DomainKey (ScalarRegister Bytes)} :
    blocks.foldlM storeBlock start = some last ↔
      (blocks.map fun block => (block.key, block.register)).foldlM insertNewEntry start =
        some last := by
  rw [List.foldlM_map]
  exact Iff.rfl

theorem listsDomains_iff {projection : ScalarSyncProjection} {blocks : List DomainBlock} :
    ListsDomains projection blocks ↔ blocks.foldlM storeBlock ∅ = some projection.domains := by
  rw [foldlM_storeBlock, collect_iff, List.pairwise_map]
  simp only [List.mem_map, Prod.mk.injEq]
  exact ⟨fun lists => ⟨lists.distinct, lists.holds⟩, fun lists => ⟨lists.1, lists.2⟩⟩

theorem parses_projection : Parses readProjection fun chunk projection => ∃ blocks,
    chunk = projectionFrame blocks ∧ ListsDomains projection blocks := by
  refine ((parses_header _ (by decide) _ _).bind fun _ =>
    parses_counted blockImage_ne_nil parses_projected ∅
    fun _ domains => parses_pure (⟨domains⟩ : ScalarSyncProjection)).congr ?_
  intro chunk projection _
  constructor
  · intro taken
    obtain ⟨_, header, rest, halves, shownHeader, blocks, domains, right, shownBlocks, stored,
        empty, same⟩ := taken
    subst same
    refine ⟨blocks, ?_, listsDomains_iff.mpr stored⟩
    rw [halves, shownHeader, shownBlocks, empty, List.append_nil]
    rfl
  · intro listed
    obtain ⟨blocks, shown, lists⟩ := listed
    exact ⟨(), _, _, shown, rfl, blocks, projection.domains, [], by rw [List.append_nil],
      listsDomains_iff.mp lists, rfl, rfl⟩

/-- The projection codec is faithful and validating: registers of the public operations
are valid, projections of them survive the codec, and exactly the listings of a
projection decode to it. -/
theorem projection_codec_faithful :
    (∀ register : ScalarRegister Bytes, register.Obtainable → register.validate = .ok ()) ∧
    (∀ projection : ScalarSyncProjection,
      (∀ key register, projection.get key = some register → register.Obtainable ∧
        ∃ atomId domain, DomainKey.create atomId domain = .ok key) →
      (projectionImage projection).length < sizeLimit → ∃ encoded,
        encodeScalarProjection projection = .ok encoded ∧
        decodeScalarProjection encoded = .ok projection) ∧
    ∀ (bytes : Bytes) (projection : ScalarSyncProjection), bytes.length < sizeLimit →
      (decodeScalarProjection bytes = .ok projection ↔
        ∃ blocks, bytes = projectionFrame blocks ∧ ListsDomains projection blocks) := by
  refine ⟨fun register obtained => obtained.valid, ?_, ?_⟩
  · intro projection built fits
    have sound : projection.Sound := by
      constructor
      · intro key register found
        exact (built key register found).1.valid
      · intro key register found
        obtain ⟨_, atomId, domain, created⟩ := built key register found
        exact DomainKey.create_nonempty created
    have done := (encodeScalarProjection_ok_iff sound.valid).mpr ⟨fits, rfl⟩
    exact ⟨projectionImage projection, done, decodeScalarProjection_encode sound done⟩
  · intro bytes projection fits
    exact parses_projection.complete_ok_iff _ fits

/-- A projection of one assigned register survives its encoding, and a listing that
repeats its only revision decodes to it as well. -/
theorem projection_codec_faithful_repeated :
    let listed : ListedRevision := ⟨.ofByte 1, [10], [], by decide⟩
    let register : ScalarRegister Bytes := ScalarRegister.empty.put listed.revision
    let projection : ScalarSyncProjection := .single ⟨.ofByte 5, [98]⟩ register
    (∃ encoded, encodeScalarProjection projection = .ok encoded ∧
        decodeScalarProjection encoded = .ok projection) ∧
      ∃ blocks, (∀ block ∈ blocks, block.listed = [listed, listed]) ∧
        decodeScalarProjection (projectionFrame blocks) = .ok projection := by
  intro listed register projection
  have extension : ScalarRegister.Extends .empty listed.revision := by
    constructor
    · intro known
      obtain ⟨revision, found⟩ := ScalarRegister.mem_iff.mp known
      simp at found
    · intro parent member
      simp [ListedRevision.revision, listed] at member
  have inserted : ScalarRegister.empty.insertRevision listed.revision = .ok register :=
    (ScalarRegister.insertRevision_ok_iff extension.fresh).mpr ⟨extension, rfl⟩
  have valid := extension.valid_put ScalarRegister.empty_valid
  have only : ∀ key found, projection.get key = some found → found = register ∧
      key = ⟨.ofByte 5, [98]⟩ := by
    intro key found stored
    exact (SyncProjection.get_single.mp stored).symm
  have forms : ∀ (id : RevisionId) (revision : ScalarRevision Bytes),
      register.revision id = some revision ↔
      ∃ one ∈ [listed, listed], one.revision = revision ∧ revision.id = id := by
    intro id revision
    have nothing : ScalarRegister.empty.revision id = (none : Option (ScalarRevision Bytes)) := by
      simp
    rw [ScalarRegister.revision_put, nothing]
    by_cases same : listed.revision.id = id
    · simp only [same, ↓reduceIte, Option.some.injEq, List.mem_cons, List.not_mem_nil,
        or_false, or_self, exists_eq_left]
      constructor
      · intro named
        exact ⟨named, named ▸ same⟩
      · exact And.left
    · simp only [same, ↓reduceIte, reduceCtorEq, List.mem_cons, List.not_mem_nil, or_false, or_self,
        exists_eq_left, false_iff, not_and]
      intro named keyed
      exact same (named ▸ keyed)
  have fits : (projectionImage projection).length < sizeLimit := by decide +kernel
  refine ⟨projection_codec_faithful.2.1 projection ?_ fits, ?_⟩
  · intro key found stored
    obtain ⟨same, named⟩ := only key found stored
    subst same
    subst named
    exact ⟨.insertRevision .empty inserted, .ofByte 5, [98], rfl⟩
  · let block : DomainBlock :=
      ⟨⟨.ofByte 5, [98]⟩, [listed, listed], register, by simp, forms, valid.closed,
      valid.acyclic⟩
    refine ⟨[block], by simp [block], ?_⟩
    have short : ((Codec.magic ++ bigEndian 2 Codec.version) ++
      (bigEndian 8 1 ++ ((LogicalId.ofByte 5 : AtomId).bytes ++
        (vecImage [98] ++ (bigEndian 8 2 ++ [listed, listed].flatMap listedImage)) ++ []))).length <
        sizeLimit := by
      decide +kernel
    refine (projection_codec_faithful.2.2 _ projection short).mpr ⟨[block], rfl, by simp, ?_⟩
    intro key found
    rw [SyncProjection.get_single]
    simp [block, eq_comm]

end PrivateContinuum.Sync
