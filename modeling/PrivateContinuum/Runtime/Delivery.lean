import PrivateContinuum.Runtime.Assembly

namespace PrivateContinuum.Runtime

open Std (ExtTreeMap ExtTreeSet)
open PrivateContinuum.Library PrivateContinuum.Core PrivateContinuum.Sync

variable {P : Platform} {TrustedError : Type} {channel : Channel}

/-- A publication cut into non-empty parts, each protected and encoded as one wire
object. -/
structure CutPublication (channel : Channel) where
  id : PublicationId
  parts : List ScalarSyncProjection
  wires : List Bytes
  filled : parts ≠ []
  bounded : parts.length < 2 ^ 32
  sound : ∀ part ∈ parts, part.Sound
  wired : wires.length = parts.length
  sealed : ∀ index projection wire, parts[index]? = some projection → wires[index]? = some wire →
    ∃ generated part, protectScalarPart channel id (UInt32.ofNat index)
      (UInt32.ofNat parts.length) projection
      generated = .ok part ∧ encodeProtectedSyncPart part = .ok wire

namespace CutPublication

/-- Some of its wire objects are there. -/
def OccursIn (publication : CutPublication channel) (objects : List Bytes) : Prop :=
  ∃ wire ∈ publication.wires, wire ∈ objects

/-- All of its wire objects are there. -/
def WholeIn (publication : CutPublication channel) (objects : List Bytes) : Prop :=
  ∀ wire ∈ publication.wires, wire ∈ objects

instance (publication : CutPublication channel) (objects : List Bytes) :
    Decidable (publication.OccursIn objects) :=
  inferInstanceAs (Decidable (∃ wire ∈ publication.wires, wire ∈ objects))

instance (publication : CutPublication channel) (objects : List Bytes) :
    Decidable (publication.WholeIn objects) :=
  inferInstanceAs (Decidable (∀ wire ∈ publication.wires, wire ∈ objects))

/-- The parts under their indices, as an inbox collects them. -/
def entries (publication : CutPublication channel) : List (UInt32 × ScalarSyncProjection) :=
  publication.parts.zipIdx.map fun (projection, index) => (UInt32.ofNat index, projection)

def whole (publication : CutPublication channel) : PendingPublication where
  totalParts := UInt32.ofNat publication.parts.length
  parts := publication.entries.foldl (fun stored entry => stored.insert entry.1 entry.2) ∅

variable (publication : CutPublication channel)

theorem mem_entries {index : UInt32} {projection : ScalarSyncProjection} :
    (index, projection) ∈ publication.entries ↔
    publication.parts[index.toNat]? = some projection := by
  simp only [entries, List.mem_map, Prod.exists, List.mem_zipIdx_iff_getElem?, Prod.mk.injEq]
  constructor
  · intro listed
    obtain ⟨part, position, found, same, equal⟩ := listed
    have inside : position < 2 ^ 32 := by
      have short := (List.getElem?_eq_some_iff.mp found).1
      have bound := publication.bounded
      omega
    subst same
    subst equal
    rwa [UInt32.toNat_ofNat_of_lt' inside]
  · intro found
    exact ⟨projection, index.toNat, found, UInt32.ofNat_toNat, rfl⟩

theorem entries_distinct : publication.entries.Pairwise fun left right => left.1 ≠ right.1 := by
  rw [entries, List.pairwise_map]
  have bound := publication.bounded
  have increasing : publication.parts.zipIdx.Pairwise fun left right => left.2 < right.2 := by
    rw [List.pairwise_iff_getElem]
    intro first second firstInside secondInside less
    simpa using less
  refine increasing.imp_of_mem ?_
  intro left right leftListed rightListed less same
  have first := List.mem_zipIdx leftListed
  have second := List.mem_zipIdx rightListed
  have leftInside : left.2 < 2 ^ 32 := by omega
  have rightInside : right.2 < 2 ^ 32 := by omega
  have equal := congrArg UInt32.toNat same
  rw [UInt32.toNat_ofNat_of_lt' leftInside, UInt32.toNat_ofNat_of_lt' rightInside] at equal
  omega

theorem whole_part {index : UInt32} {projection : ScalarSyncProjection} :
    publication.whole.parts[index]? = some projection ↔
    publication.parts[index.toNat]? = some projection := by
  rw [whole, getElem?_foldl_insert publication.entries_distinct, mem_entries]
  simp

theorem whole_size : publication.whole.parts.size = publication.whole.totalParts.toNat := by
  rw [whole, size_foldl_insert publication.entries_distinct (by simp)]
  have bound := publication.bounded
  rw [UInt32.toNat_ofNat_of_lt' bound]
  simp [entries]

theorem mem_fragments {fragment : ScalarSyncProjection} :
    fragment ∈ publication.whole.parts.toList.map Prod.snd ↔ fragment ∈ publication.parts := by
  rw [PendingPublication.mem_fragments]
  constructor
  · intro stored
    obtain ⟨index, found⟩ := stored
    exact List.mem_of_getElem? (publication.whole_part.mp found)
  · intro member
    obtain ⟨index, inside, same⟩ := List.getElem_of_mem member
    have short : index < 2 ^ 32 := lt_trans inside publication.bounded
    refine ⟨UInt32.ofNat index, publication.whole_part.mpr ?_⟩
    rw [UInt32.toNat_ofNat_of_lt' short, List.getElem?_eq_some_iff]
    exact ⟨inside, same⟩

theorem whole_assembles
    (agree : ∀ left ∈ publication.parts, ∀ right ∈ publication.parts, left.Agree right) :
    ∃ projection, publication.whole.assemble = .ok projection ∧
      publication.parts.foldlM SyncProjection.merge .empty = .ok projection := by
  have valid : ∀ part ∈ publication.parts, part.AllValid :=
    fun part member => (publication.sound part member).valid
  cases split : publication.whole.parts.toList.map Prod.snd with
  | nil =>
    obtain ⟨part, member⟩ := List.exists_mem_of_ne_nil publication.parts publication.filled
    have listed := publication.mem_fragments.mpr member
    simp [split] at listed
  | cons first rest =>
    have members : ∀ fragment, fragment ∈ first :: rest ↔ fragment ∈ publication.parts :=
      fun fragment => split ▸ publication.mem_fragments
    obtain ⟨projection, merged⟩ :
        ∃ projection, rest.foldlM SyncProjection.merge first = .ok projection :=
      ScalarSyncProjection.union.fold_exists (fun fragment member =>
        valid fragment ((members fragment).mp member)) fun left leftMember right rightMember =>
          agree left ((members left).mp leftMember) right ((members right).mp rightMember)
    refine ⟨projection, ?_, ?_⟩
    · rw [PendingPublication.assemble, split]
      simp [merged, Except.mapError]
    · rw [ScalarSyncProjection.mergeAll_ok_iff valid]
      intro fact
      have union := (ScalarSyncProjection.union.fold_ok_iff
        (fun fragment member => valid fragment ((members fragment).mp member))).mp merged fact
      exact union.trans (by simp only [UnionMerge.Stated, members])

theorem opens_wire {index : Nat} {wire : Bytes} (found : publication.wires[index]? = some wire) :
    ∃ part clear, decodeProtectedSyncPart wire = .ok part ∧
      unprotectScalarPart channel part = .ok clear ∧
      part.publicationId = publication.id ∧ part.partIndex = UInt32.ofNat index ∧
      part.totalParts = publication.whole.totalParts ∧ publication.parts[index]? = some clear := by
  have inside : index < publication.parts.length := by
    rw [← publication.wired]
    exact (List.getElem?_eq_some_iff.mp found).1
  have stored : publication.parts[index]? = some publication.parts[index] :=
    List.getElem?_eq_getElem inside
  obtain ⟨generated, part, sealed, encoded⟩ := publication.sealed index _ wire stored found
  obtain ⟨sameId, sameIndex, sameTotal⟩ := protectScalarPart_labels sealed
  have sound := publication.sound _ (List.mem_of_getElem? stored)
  exact ⟨part, publication.parts[index], decodeProtectedSyncPart_encode encoded,
    (unprotectScalarPart_protect sound sealed).2, sameId, sameIndex, sameTotal, stored⟩

end CutPublication

section Family

variable {family : List (CutPublication channel)} {objects : List Bytes}
  {publication : CutPublication channel}

/-- The plan of a family of publications. -/
def planOf (family : List (CutPublication channel)) : CutPlan :=
  fun id => (family.find? fun publication => publication.id = id).map CutPublication.whole

/-- Every object is a wire object of the family. -/
def FromFamily (family : List (CutPublication channel)) (objects : List Bytes) : Prop :=
  ∀ object ∈ objects, ∃ publication ∈ family, object ∈ publication.wires

theorem same_of_id (distinct : (family.map CutPublication.id).Nodup)
    {other : CutPublication channel} (member : publication ∈ family)
    (otherMember : other ∈ family) (same : publication.id = other.id) :
    publication = other :=
  List.inj_on_of_nodup_map distinct member otherMember same

theorem planOf_mem (distinct : (family.map CutPublication.id).Nodup)
    (member : publication ∈ family) :
    planOf family publication.id = some publication.whole := by
  cases found : family.find? fun other => other.id = publication.id with
  | none =>
    have missing := List.find?_eq_none.mp found publication member
    simp at missing
  | some other =>
    have same : other.id = publication.id := by simpa using List.find?_some found
    rw [planOf, found, same_of_id distinct (List.mem_of_find?_eq_some found) member same]
    rfl

theorem planOf_some {id : PublicationId} {whole : PendingPublication}
    (found : planOf family id = some whole) :
    ∃ publication ∈ family, publication.id = id ∧ publication.whole = whole := by
  rw [planOf, Option.map_eq_some_iff] at found
  obtain ⟨publication, stored, same⟩ := found
  exact ⟨publication, List.mem_of_find?_eq_some stored, by simpa using List.find?_some stored, same⟩

/-- A wire object of the family sits in the place that its labels name. -/
theorem wire_of_part (distinct : (family.map CutPublication.id).Nodup)
    (from_ : FromFamily family objects) {object : Bytes} (listed : object ∈ objects)
    (member : publication ∈ family) {index : UInt32}
    (isPart : IsPart object publication.id index) :
    publication.wires[index.toNat]? = some object := by
  obtain ⟨other, otherMember, wire⟩ := from_ object listed
  obtain ⟨position, inside, same⟩ := List.getElem_of_mem wire
  have found : other.wires[position]? = some object := List.getElem?_eq_some_iff.mpr ⟨inside, same⟩
  obtain ⟨part, clear, decoded, _, sameId, sameIndex, _, _⟩ := other.opens_wire found
  obtain ⟨again, decodedToo, givenId, givenIndex⟩ := isPart
  rw [decoded] at decodedToo
  cases decodedToo
  have equal := same_of_id distinct otherMember member (sameId.symm.trans givenId)
  subst equal
  have short : position < 2 ^ 32 := by
    have bound := other.bounded
    rw [← other.wired] at bound
    omega
  rw [← givenIndex, sameIndex, UInt32.toNat_ofNat_of_lt' short]
  exact found

/-- All parts of the family agree on shared revisions, in every domain. -/
def PartsAgree (family : List (CutPublication channel)) : Prop :=
  ∀ first ∈ family, ∀ second ∈ family, ∀ left ∈ first.parts, ∀ right ∈ second.parts,
    left.Agree right

theorem planned_family (distinct : (family.map CutPublication.id).Nodup) (agree : PartsAgree family)
    (from_ : FromFamily family objects) : Planned channel (planOf family) objects := by
  constructor
  · intro object listed
    obtain ⟨publication, member, wire⟩ := from_ object listed
    obtain ⟨index, inside, same⟩ := List.getElem_of_mem wire
    have found : publication.wires[index]? = some object :=
      List.getElem?_eq_some_iff.mpr ⟨inside, same⟩
    have short : index < 2 ^ 32 := by
      have bound := publication.bounded
      rw [← publication.wired] at bound
      omega
    obtain ⟨part, clear, decoded, opened, sameId, sameIndex, sameTotal, stored⟩ :=
      publication.opens_wire found
    refine ⟨part, clear, publication.whole, decoded, opened, ?_, sameTotal.symm, ?_⟩
    · rw [sameId, planOf_mem distinct member]
    · rw [publication.whole_part, sameIndex, UInt32.toNat_ofNat_of_lt' short, stored]
  · intro first firstListed second secondListed id index isFirst isSecond
    obtain ⟨publication, member, wire⟩ := from_ first firstListed
    obtain ⟨position, inside, same⟩ := List.getElem_of_mem wire
    have found : publication.wires[position]? = some first :=
      List.getElem?_eq_some_iff.mpr ⟨inside, same⟩
    obtain ⟨part, _, decoded, _, sameId, _, _, _⟩ := publication.opens_wire found
    obtain ⟨equal, _⟩ := isPart_unique ⟨part, decoded, sameId, rfl⟩ isFirst
    subst equal
    have one := wire_of_part distinct from_ firstListed member isFirst
    have other := wire_of_part distinct from_ secondListed member isSecond
    exact Option.some.inj (one.symm.trans other)
  · intro id whole found
    obtain ⟨publication, _, _, same⟩ := planOf_some found
    exact same ▸ publication.whole_size
  · intro id whole found
    obtain ⟨publication, member, _, same⟩ := planOf_some found
    obtain ⟨projection, assembled, _⟩ :=
      publication.whole_assembles (agree publication member publication member)
    exact ⟨projection, same ▸ assembled⟩

theorem isPart_wire {index : Nat} {wire : Bytes} (found : publication.wires[index]? = some wire) :
    IsPart wire publication.id (UInt32.ofNat index) := by
  obtain ⟨part, _, decoded, _, sameId, sameIndex, _, _⟩ := publication.opens_wire found
  exact ⟨part, decoded, sameId, sameIndex⟩

theorem occurs_iff (distinct : (family.map CutPublication.id).Nodup)
    (from_ : FromFamily family objects) (member : publication ∈ family) :
    Occurs objects publication.id ↔ publication.OccursIn objects := by
  constructor
  · intro occurs
    obtain ⟨index, object, listed, isPart⟩ := occurs
    have found := wire_of_part distinct from_ listed member isPart
    exact ⟨object, List.mem_of_getElem? found, listed⟩
  · intro occurs
    obtain ⟨wire, wired, listed⟩ := occurs
    obtain ⟨index, inside, same⟩ := List.getElem_of_mem wired
    exact ⟨UInt32.ofNat index, wire, listed,
      isPart_wire (List.getElem?_eq_some_iff.mpr ⟨inside, same⟩)⟩

theorem complete_iff (distinct : (family.map CutPublication.id).Nodup)
    (from_ : FromFamily family objects) (member : publication ∈ family) :
    Complete (planOf family) objects publication.id ↔
      publication.OccursIn objects ∧ publication.WholeIn objects := by
  rw [Complete, occurs_iff distinct from_ member, planOf_mem distinct member]
  simp only [Option.some.injEq, exists_eq_left']
  refine and_congr_right fun _ => ?_
  constructor
  · intro held wire wired
    obtain ⟨index, inside, same⟩ := List.getElem_of_mem wired
    have found : publication.wires[index]? = some wire :=
      List.getElem?_eq_some_iff.mpr ⟨inside, same⟩
    have short : index < 2 ^ 32 := by
      have bound := publication.bounded
      rw [← publication.wired] at bound
      omega
    obtain ⟨_, clear, _, _, _, _, _, placed⟩ := publication.opens_wire found
    have stored : publication.whole.parts[UInt32.ofNat index]? = some clear := by
      rw [publication.whole_part, UInt32.toNat_ofNat_of_lt' short, placed]
    obtain ⟨object, listed, isPart⟩ := held _ (map_mem_iff.mpr ⟨_, stored⟩)
    have also := wire_of_part distinct from_ listed member isPart
    rw [UInt32.toNat_ofNat_of_lt' short, found] at also
    exact Option.some.inj also ▸ listed
  · intro whole index stored
    obtain ⟨clear, placed⟩ := map_mem_iff.mp stored
    have inside : index.toNat < publication.wires.length := by
      rw [publication.wired]
      exact (List.getElem?_eq_some_iff.mp (publication.whole_part.mp placed)).1
    have found : publication.wires[index.toNat]? = some publication.wires[index.toNat] :=
      List.getElem?_eq_getElem inside
    refine ⟨publication.wires[index.toNat], whole _ (List.mem_of_getElem? found), ?_⟩
    have isPart := isPart_wire found
    rwa [UInt32.ofNat_toNat] at isPart

theorem pending_count (distinct : (family.map CutPublication.id).Nodup)
    (from_ : FromFamily family objects) {last : Assembly ScalarSyncProjection}
    (progress : Progress (planOf family) objects last) :
    last.inbox.pendingPublications =
      family.countP fun publication => publication.OccursIn objects ∧
      ¬ publication.WholeIn objects := by
  let missing := family.filter fun publication => publication.OccursIn objects ∧
    ¬ publication.WholeIn objects
  have same : (last.inbox.pending.keys).Perm (missing.map CutPublication.id) := by
    have keysOnce : last.inbox.pending.keys.Nodup := by
      apply List.Pairwise.imp _ ExtTreeMap.distinct_keys
      intro left right apart equal
      exact apart (Std.LawfulEqCmp.compare_eq_iff_eq.mpr equal)
    have idsOnce : (missing.map CutPublication.id).Nodup :=
      distinct.sublist (List.Sublist.map _ List.filter_sublist)
    refine (List.perm_ext_iff_of_nodup keysOnce idsOnce).mpr ?_
    intro id
    rw [ExtTreeMap.mem_keys, List.mem_map]
    constructor
    · intro stored
      obtain ⟨held, found⟩ := map_mem_iff.mp stored
      obtain ⟨occurs, incomplete, whole, planned, _⟩ := progress.partly id held found
      obtain ⟨publication, member, sameId, _⟩ := planOf_some planned
      subst sameId
      rw [occurs_iff distinct from_ member] at occurs
      rw [complete_iff distinct from_ member] at incomplete
      have kept : publication ∈ missing := by
        simp [missing, member, occurs]
        exact fun whole => incomplete ⟨occurs, whole⟩
      exact ⟨publication, kept, rfl⟩
    · intro listed
      obtain ⟨publication, kept, sameId⟩ := listed
      subst sameId
      simp only [missing, List.mem_filter, decide_eq_true_eq] at kept
      obtain ⟨member, occurs, incomplete⟩ := kept
      apply progress.opened _ ((occurs_iff distinct from_ member).mpr occurs)
      rw [complete_iff distinct from_ member]
      exact fun whole => incomplete whole.2
  rw [MultipartInbox.pendingPublications, ← ExtTreeMap.length_keys, same.length_eq, List.length_map,
    List.countP_eq_length_filter]

/-- What is delivered, publication by publication. -/
theorem delivered_parts (agree : PartsAgree family) {order : List PublicationId}
    {projections : List ScalarSyncProjection}
    (delivered : List.Forall₂ (fun id projection => ∃ whole, planOf family id = some whole ∧
      whole.assemble = .ok projection) order projections) :
    ∃ publications : List (CutPublication channel), publications.map CutPublication.id = order ∧
      (∀ publication ∈ publications, publication ∈ family) ∧
      List.Forall₂ (fun publication projection =>
        publication.parts.foldlM SyncProjection.merge .empty = .ok projection) publications
          projections := by
  induction delivered with
  | nil => exact ⟨[], rfl, by simp, List.Forall₂.nil⟩
  | cons first rest ih =>
    obtain ⟨whole, planned, assembled⟩ := first
    obtain ⟨publication, member, sameId, sameWhole⟩ := planOf_some planned
    obtain ⟨publications, ids, members, merged⟩ := ih
    obtain ⟨projection, assembles, merges⟩ :=
      publication.whole_assembles (agree publication member publication member)
    rw [sameWhole, assembled] at assembles
    cases assembles
    refine ⟨publication :: publications, by simp [sameId, ids], ?_, List.Forall₂.cons merges merged⟩
    intro other listed
    rcases List.mem_cons.mp listed with same | later
    · exact same ▸ member
    · exact members other later

/-- The publications that a list of objects delivers, with what each of them is
assembled to. -/
structure Delivers (family : List (CutPublication channel)) (objects : List Bytes)
    (order : List (CutPublication channel)) (projections : List ScalarSyncProjection) : Prop where
  once : (order.map CutPublication.id).Nodup
  members : ∀ publication, publication ∈ order ↔ publication ∈ family ∧ publication.OccursIn objects
  merged : List.Forall₂ (fun publication projection =>
    publication.parts.foldlM SyncProjection.merge .empty = .ok projection) order projections

/-- All complete: every occurring publication is delivered once. -/
theorem delivers_of_progress (distinct : (family.map CutPublication.id).Nodup)
    (agree : PartsAgree family) (from_ : FromFamily family objects)
    {last : Assembly ScalarSyncProjection} (progress : Progress (planOf family) objects last)
    (whole : ∀ publication ∈ family, publication.OccursIn objects → publication.WholeIn objects) :
    ∃ order, Delivers family objects order last.completed := by
  obtain ⟨ids, once, complete, delivered⟩ := progress.delivered
  obtain ⟨order, same, inside, merged⟩ := delivered_parts agree delivered
  refine ⟨order, same ▸ once, ?_, merged⟩
  intro publication
  constructor
  · intro listed
    have member := inside publication listed
    have known : publication.id ∈ ids := same ▸ List.mem_map_of_mem listed
    exact ⟨member, ((complete_iff distinct from_ member).mp ((complete publication.id).mp known)).1⟩
  · intro occurring
    obtain ⟨member, occurs⟩ := occurring
    have known := (complete publication.id).mpr
      ((complete_iff distinct from_ member).mpr ⟨occurs, whole publication member occurs⟩)
    rw [← same, List.mem_map] at known
    obtain ⟨other, listed, sameId⟩ := known
    exact same_of_id distinct (inside other listed) member sameId ▸ listed

namespace Delivers

variable {order : List (CutPublication channel)} {projections : List ScalarSyncProjection}

theorem valid_parts (publication : CutPublication channel) :
    ∀ part ∈ publication.parts, part.AllValid :=
  fun part member => (publication.sound part member).valid

theorem of_projection (delivers : Delivers family objects order projections)
    {projection : ScalarSyncProjection} (listed : projection ∈ projections) :
    ∃ publication ∈ family, publication.OccursIn objects ∧
      publication.parts.foldlM SyncProjection.merge .empty = .ok projection := by
  obtain ⟨publication, member, merges⟩ := forall₂_mem_right delivers.merged listed
  obtain ⟨inside, occurs⟩ := (delivers.members publication).mp member
  exact ⟨publication, inside, occurs, merges⟩

theorem valid (delivers : Delivers family objects order projections) :
    ∀ projection ∈ projections, projection.AllValid := by
  intro projection listed
  obtain ⟨publication, _, _, merges⟩ := delivers.of_projection listed
  exact ScalarSyncProjection.mergeAll_valid (valid_parts publication) merges

/-- The delivered projections state what the parts of the occurring publications
state. -/
theorem stated_iff (delivers : Delivers family objects order projections)
    (fact : ScalarSyncProjection.Fact) :
    ScalarSyncProjection.union.Stated projections fact ↔ ∃ publication ∈ family,
      publication.OccursIn objects ∧ ScalarSyncProjection.union.Stated publication.parts fact := by
  constructor
  · intro stated
    obtain ⟨projection, listed, holds⟩ := stated
    obtain ⟨publication, member, occurs, merges⟩ := delivers.of_projection listed
    exact ⟨publication, member, occurs,
      ((ScalarSyncProjection.mergeAll_ok_iff (valid_parts publication)).mp merges fact).mp holds⟩
  · intro stated
    obtain ⟨publication, member, occurs, parts⟩ := stated
    obtain ⟨projection, listed, merges⟩ := forall₂_mem_left delivers.merged
      ((delivers.members publication).mpr ⟨member, occurs⟩)
    exact ⟨projection, listed,
      ((ScalarSyncProjection.mergeAll_ok_iff (valid_parts publication)).mp merges fact).mpr parts⟩

theorem merges (agree : PartsAgree family) (delivers : Delivers family objects order projections) :
    ∃ merged, projections.foldlM SyncProjection.merge .empty = .ok merged := by
  apply ScalarSyncProjection.mergeAll_exists delivers.valid
  intro left leftListed right rightListed
  obtain ⟨first, firstMember, _, firstMerges⟩ := delivers.of_projection leftListed
  obtain ⟨second, secondMember, _, secondMerges⟩ := delivers.of_projection rightListed
  apply ScalarSyncProjection.mergeAll_agree _ firstMerges
  intro part partListed
  apply ScalarSyncProjection.union.agree_symm
  apply ScalarSyncProjection.mergeAll_agree _ secondMerges
  intro other otherListed
  exact agree second secondMember first firstMember other otherListed part partListed

/-- Two deliveries of the same objects merge to the same projection. -/
theorem same_merge {others : List Bytes} {further : List (CutPublication channel)}
    {again : List ScalarSyncProjection} {merged : ScalarSyncProjection}
    (delivers : Delivers family objects order projections)
    (also : Delivers family others further again)
    (same : ∀ object, object ∈ others ↔ object ∈ objects)
    (done : projections.foldlM SyncProjection.merge .empty = .ok merged) :
    again.foldlM SyncProjection.merge .empty = .ok merged := by
  rw [ScalarSyncProjection.mergeAll_ok_iff also.valid]
  intro fact
  rw [(ScalarSyncProjection.mergeAll_ok_iff delivers.valid).mp done,
    delivers.stated_iff, also.stated_iff]
  simp only [CutPublication.OccursIn, same]

end Delivers

/-- Every publication of the family carries exactly the domain. -/
def FamilyOf (key : DomainKey) (family : List (CutPublication channel)) : Prop :=
  ∀ publication ∈ family, ∀ projection, publication.parts.foldlM SyncProjection.merge .empty =
    .ok projection → ∃ register, CarriesOnly key register projection

/-- The outcome of decoding: the delivered projections, or a count of what is open. -/
theorem decodeProjections_eq {last : Assembly ScalarSyncProjection}
    (taken : (recoveryIntake P TrustedError).takeAll channel objects = .ok last) :
    (decodeCompleteScalarProjections channel objects :
      Except (ScalarRecoveryCatchUpError P TrustedError) _) =
      if last.inbox.pendingPublications ≠ 0 then
        .error (.incompleteMultipartPublications last.inbox.pendingPublications)
      else .ok last.completed := by
  rw [decodeCompleteScalarProjections, taken]
  rfl

theorem decodeDomainObjects_eq {key : DomainKey} {single : Assembly (ScalarRegister Bytes)}
    (taken : (domainIntake key).takeAll channel objects = .ok single) :
    decodeCompleteScalarDomainObjects channel key objects =
      if single.inbox.pendingPublications ≠ 0 then
        .error (.incompleteMultipartPublications single.inbox.pendingPublications)
      else .ok single.completed := by
  rw [decodeCompleteScalarDomainObjects, taken]
  rfl

theorem decode_whole (distinct : (family.map CutPublication.id).Nodup) (agree : PartsAgree family)
    (from_ : FromFamily family objects)
    (whole : ∀ publication ∈ family, publication.OccursIn objects → publication.WholeIn objects) :
    ∃ order projections, Delivers family objects order projections ∧
      (decodeCompleteScalarProjections channel objects :
        Except (ScalarRecoveryCatchUpError P TrustedError) _) = .ok projections := by
  obtain ⟨last, taken, progress⟩ :
      ∃ last, (recoveryIntake P TrustedError).takeAll channel objects = .ok last ∧
      Progress (planOf family) objects last := (planned_family distinct agree from_).takeAll
  obtain ⟨order, delivers⟩ := delivers_of_progress distinct agree from_ progress whole
  have none : last.inbox.pendingPublications = 0 := by
    rw [pending_count distinct from_ progress, List.countP_eq_zero]
    intro publication member missing
    rw [decide_eq_true_eq] at missing
    exact missing.2 (whole publication member missing.1)
  refine ⟨order, last.completed, delivers, ?_⟩
  rw [decodeProjections_eq taken, if_neg (not_not.mpr none)]

/-- One domain decodes the objects alongside the container. -/
theorem decode_alongside (agree : PartsAgree family) {key : DomainKey} (only : FamilyOf key family)
    {last : Assembly ScalarSyncProjection} (progress : Progress (planOf family) objects last)
    (taken : (recoveryIntake P TrustedError).takeAll channel objects = .ok last) :
    ∃ single, (domainIntake key).takeAll channel objects = .ok single ∧
    Alongside key single last := by
  apply alongside_empty.foldlM_back taken
  intro projection listed
  obtain ⟨order, _, _, delivered⟩ := progress.delivered
  obtain ⟨publications, _, inside, merged⟩ := delivered_parts agree delivered
  obtain ⟨publication, member, merges⟩ := forall₂_mem_right merged listed
  exact only publication (inside publication member) projection merges

/-- Assembly depends on which objects were fetched, not on how they arrived. -/
theorem assembly_independent_of_delivery (distinct : (family.map CutPublication.id).Nodup)
    (agree : PartsAgree family) (from_ : FromFamily family objects) :
    ((∀ publication ∈ family, publication.OccursIn objects → publication.WholeIn objects) →
      ∃ order projections merged,
        (decodeCompleteScalarProjections channel objects :
          Except (ScalarRecoveryCatchUpError P TrustedError) _) = .ok projections ∧
        Delivers family objects order projections ∧
        projections.foldlM SyncProjection.merge .empty = .ok merged ∧
        (∀ others, (∀ object, object ∈ others ↔ object ∈ objects) → ∃ again,
          (decodeCompleteScalarProjections channel others :
            Except (ScalarRecoveryCatchUpError P TrustedError) _) =
            .ok again ∧ again.foldlM SyncProjection.merge .empty = .ok merged) ∧
        ∀ key, FamilyOf key family → ∃ registers,
          decodeCompleteScalarDomainObjects channel key objects = .ok registers ∧
            List.Forall₂ (CarriesOnly key) registers projections) ∧
    ((∃ publication ∈ family, publication.OccursIn objects ∧ ¬ publication.WholeIn objects) →
      let count := family.countP fun publication => publication.OccursIn objects ∧
        ¬ publication.WholeIn objects
      (decodeCompleteScalarProjections channel objects :
          Except (ScalarRecoveryCatchUpError P TrustedError) _) =
          .error (.incompleteMultipartPublications count) ∧
        ∀ key, FamilyOf key family →
          decodeCompleteScalarDomainObjects channel key objects =
            .error (.incompleteMultipartPublications count)) := by
  obtain ⟨last, taken, progress⟩ :
      ∃ last, (recoveryIntake P TrustedError).takeAll channel objects = .ok last ∧
      Progress (planOf family) objects last := (planned_family distinct agree from_).takeAll
  constructor
  · intro whole
    obtain ⟨order, projections, delivers, decoded⟩ : ∃ order projections,
        Delivers family objects order projections ∧
          (decodeCompleteScalarProjections channel objects :
          Except (ScalarRecoveryCatchUpError P TrustedError) _) = .ok projections :=
      decode_whole distinct agree from_ whole
    obtain ⟨merged, merges⟩ := delivers.merges agree
    refine ⟨order, projections, merged, decoded, delivers, merges, ?_, ?_⟩
    · intro others same
      have fromToo : FromFamily family others :=
        fun object listed => from_ object ((same object).mp listed)
      have wholeToo : ∀ publication ∈ family, publication.OccursIn others →
          publication.WholeIn others := by
        intro publication member
        simpa only [CutPublication.OccursIn, CutPublication.WholeIn,
          same] using whole publication member
      obtain ⟨further, again, also, decodedToo⟩ :
          ∃ further again, Delivers family others further again ∧
          (decodeCompleteScalarProjections channel others :
            Except (ScalarRecoveryCatchUpError P TrustedError) _) = .ok again :=
        decode_whole distinct agree fromToo wholeToo
      exact ⟨again, decodedToo, delivers.same_merge also same merges⟩
    · intro key only
      obtain ⟨single, takenToo, alongside⟩ := decode_alongside agree only progress taken
      rw [decodeProjections_eq taken] at decoded
      split at decoded
      · cases decoded
      · rename_i none
        cases decoded
        refine ⟨single.completed, ?_, alongside.completed⟩
        rw [decodeDomainObjects_eq takenToo, alongside.inbox, if_neg none]
  · intro missing count
    have counted : last.inbox.pendingPublications = count := pending_count distinct from_ progress
    have some' : count ≠ 0 := by
      obtain ⟨publication, member, occurs, incomplete⟩ := missing
      have positive : 0 < count :=
        List.countP_pos_iff.mpr ⟨publication, member, by simp [occurs, incomplete]⟩
      omega
    constructor
    · rw [decodeProjections_eq taken, counted, if_pos some']
    · intro key only
      obtain ⟨single, takenToo, alongside⟩ := decode_alongside agree only progress taken
      rw [decodeDomainObjects_eq takenToo, alongside.inbox, counted, if_pos some']

end Family

/-- Two parts of one publication: alone the first is counted as open, and both in
any order, with a repetition, are delivered. -/
theorem assembly_independent_of_delivery_two_parts :
    let channel : Channel := ⟨.plain, ⟨List.replicate 32 7, rfl⟩, .ofByte 9⟩
    let part (value : UInt8) : ScalarSyncProjection :=
      .single ⟨.ofByte 5, [98]⟩ (ScalarRegister.empty.put ⟨.ofByte value, [value], ∅⟩)
    let wire (index : UInt32) (value : UInt8) : Option Bytes := do
      let made ← (protectScalarPart channel (.ofByte 4) index 2 (part value)
        (some ⟨List.replicate 24 3, rfl⟩)).toOption
      (encodeProtectedSyncPart made).toOption
    let platform : Platform := ⟨Nat, Unit, Unit, Unit⟩
    ∃ first second, wire 0 1 = some first ∧ wire 1 2 = some second ∧
      (decodeCompleteScalarProjections channel [first] :
        Except (ScalarRecoveryCatchUpError platform Unit) _) =
        .error (.incompleteMultipartPublications 1) ∧
      ∃ projections, (decodeCompleteScalarProjections channel [second, first, second] :
        Except (ScalarRecoveryCatchUpError platform Unit) _) = .ok projections := by
  intro channel part wire platform
  have firstMade : (wire 0 1).isSome = true := by decide +kernel
  have secondMade : (wire 1 2).isSome = true := by decide +kernel
  obtain ⟨first, firstWire⟩ := Option.isSome_iff_exists.mp firstMade
  obtain ⟨second, secondWire⟩ := Option.isSome_iff_exists.mp secondMade
  have different : first ≠ second := by
    intro same
    have unequal : wire 0 1 ≠ wire 1 2 := by decide +kernel
    exact unequal (by rw [firstWire, secondWire, same])
  have sealed : ∀ index value made, wire index value = some made → ∃ generated sealed,
      protectScalarPart channel (.ofByte 4) index 2 (part value) generated = .ok sealed ∧
        encodeProtectedSyncPart sealed = .ok made := by
    intro index value made found
    simp only [wire, Option.bind_eq_bind, Option.bind_eq_some_iff, toOption_eq_some_iff] at found
    obtain ⟨sealed, protected_, encoded⟩ := found
    exact ⟨_, sealed, protected_, encoded⟩
  have firstValid :
      (ScalarRegister.empty.put ⟨.ofByte 1, [1], ∅⟩ : ScalarRegister Bytes).Valid := by
      decide +kernel
  have secondValid :
      (ScalarRegister.empty.put ⟨.ofByte 2, [2], ∅⟩ : ScalarRegister Bytes).Valid := by
      decide +kernel
  have sound : ∀ value, value = 1 ∨ value = 2 → (part value).Sound := by
    intro value either
    constructor
    · intro key register found
      obtain ⟨_, rfl⟩ := SyncProjection.get_single.mp found
      rcases either with rfl | rfl
      · exact firstValid
      · exact secondValid
    · intro key register found
      obtain ⟨rfl, _⟩ := SyncProjection.get_single.mp found
      simp
  let publication : CutPublication channel :=
    { id := .ofByte 4
      parts := [part 1, part 2]
      wires := [first, second]
      filled := by simp
      bounded := by simp
      sound := by simpa using ⟨sound 1 (by simp), sound 2 (by simp)⟩
      wired := rfl
      sealed := by
        intro index projection wire stored found
        match index with
        | 0 =>
          cases stored
          cases found
          exact sealed 0 1 first firstWire
        | 1 =>
          cases stored
          cases found
          exact sealed 1 2 second secondWire }
  have agree : PartsAgree [publication] := by
    have registers : ∀ left right : UInt8, (left = 1 ∨ left = 2) → (right = 1 ∨ right = 2) →
        (part left).Agree (part right) := by
      intro left right isLeft isRight key firstRegister secondRegister firstFound secondFound
      obtain ⟨_, rfl⟩ := SyncProjection.get_single.mp firstFound
      obtain ⟨_, rfl⟩ := SyncProjection.get_single.mp secondFound
      have merges :
          ((ScalarRegister.empty.put ⟨.ofByte left, [left], ∅⟩ : ScalarRegister Bytes).merge
          (ScalarRegister.empty.put ⟨.ofByte right, [right], ∅⟩)).toOption.isSome = true := by
        rcases isLeft with rfl | rfl <;> rcases isRight with rfl | rfl <;> decide +kernel
      obtain ⟨merged, joined⟩ := Option.isSome_iff_exists.mp merges
      exact ScalarRegister.merge_agree (toOption_eq_some_iff.mp joined)
    simpa [PartsAgree, publication] using
      ⟨⟨registers 1 1 (by simp) (by simp), registers 1 2 (by simp) (by simp)⟩,
        registers 2 1 (by simp) (by simp), registers 2 2 (by simp) (by simp)⟩
  have once : ([publication].map CutPublication.id).Nodup := by simp
  have fromFirst : FromFamily [publication] [first] := by simp [FromFamily, publication]
  have fromBoth : FromFamily [publication] [second, first, second] := by
    simp [FromFamily, publication]
  refine ⟨first, second, firstWire, secondWire, ?_, ?_⟩
  · have missing : publication.OccursIn [first] ∧ ¬ publication.WholeIn [first] := by
      simp [publication, CutPublication.OccursIn, CutPublication.WholeIn, different.symm]
    have counted : (decodeCompleteScalarProjections channel [first] :
        Except (ScalarRecoveryCatchUpError platform Unit) _) =
          .error (.incompleteMultipartPublications _) :=
      ((assembly_independent_of_delivery once agree fromFirst).2 ⟨publication, by simp, missing⟩).1
    simpa [missing] using counted
  · have whole : ∀ one ∈ [publication], one.OccursIn [second, first, second] →
        one.WholeIn [second, first, second] := by
      simp [publication, CutPublication.WholeIn]
    obtain ⟨_, projections, _, decoded, _⟩ : ∃ _ projections _,
        (decodeCompleteScalarProjections channel [second, first, second] :
          Except (ScalarRecoveryCatchUpError platform Unit) _) = .ok projections ∧ _ :=
      (assembly_independent_of_delivery once agree fromBoth).1 whole
    exact ⟨projections, decoded⟩

end PrivateContinuum.Runtime
