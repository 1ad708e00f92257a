import PrivateContinuum.Runtime.CatchUp
import PrivateContinuum.Sync.ProjectionMerge

namespace PrivateContinuum.Runtime

open Std (ExtTreeMap ExtTreeSet)
open PrivateContinuum.Library PrivateContinuum.Core PrivateContinuum.Sync

variable {P : Platform} {TrustedError : Type}

/-- The parts that each publication consists of. -/
abbrev CutPlan := PublicationId → Option PendingPublication

/-- The object opens to the part that the plan has in its place. -/
structure Placed (channel : Channel) (plan : CutPlan) (object : Bytes) (part : ProtectedSyncPart)
    (clear : ScalarSyncProjection) (whole : PendingPublication) : Prop where
  decoded : decodeProtectedSyncPart object = .ok part
  opened : unprotectScalarPart channel part = .ok clear
  planned : plan part.publicationId = some whole
  total : whole.totalParts = part.totalParts
  stored : whole.parts[part.partIndex]? = some clear

/-- The object is a part of the publication, at the index. -/
def IsPart (object : Bytes) (id : PublicationId) (index : UInt32) : Prop :=
  ∃ part, decodeProtectedSyncPart object = .ok part ∧ part.publicationId = id ∧
    part.partIndex = index

/-- Every part of the plan has at most one object, and every publication can be
assembled once it is complete. -/
structure Planned (channel : Channel) (plan : CutPlan) (objects : List Bytes) : Prop where
  placed : ∀ object ∈ objects, ∃ part clear whole, Placed channel plan object part clear whole
  single : ∀ first ∈ objects, ∀ second ∈ objects, ∀ id index, IsPart first id index →
    IsPart second id index → first = second
  full : ∀ id whole, plan id = some whole → whole.parts.size = whole.totalParts.toNat
  assembles : ∀ id whole, plan id = some whole → ∃ projection, whole.assemble = .ok projection

/-- Some object is that part. -/
def Held (objects : List Bytes) (id : PublicationId) (index : UInt32) : Prop :=
  ∃ object ∈ objects, IsPart object id index

def Occurs (objects : List Bytes) (id : PublicationId) : Prop := ∃ index, Held objects id index

def Complete (plan : CutPlan) (objects : List Bytes) (id : PublicationId) : Prop :=
  Occurs objects id ∧ ∃ whole, plan id = some whole ∧ ∀ index ∈ whole.parts, Held objects id index

/-- The parts that are there, of all the parts. -/
structure Partly (objects : List Bytes) (id : PublicationId)
    (whole held : PendingPublication) : Prop where
  total : held.totalParts = whole.totalParts
  parts : ∀ (index : UInt32) (clear : ScalarSyncProjection),
    held.parts[index]? = some clear ↔ whole.parts[index]? = some clear ∧ Held objects id index

/-- Where an assembly stands after the objects: open publications hold the parts
that were there, complete ones were delivered once each. -/
structure Progress (plan : CutPlan) (objects : List Bytes)
    (assembly : Assembly ScalarSyncProjection) : Prop where
  seen : ∀ object, object ∈ assembly.seenWireObjects ↔ object ∈ objects
  partly : ∀ (id : PublicationId) (held : PendingPublication),
    assembly.inbox.pending[id]? = some held →
    Occurs objects id ∧ ¬ Complete plan objects id ∧ ∃ whole, plan id = some whole ∧
      Partly objects id whole held
  opened : ∀ id, Occurs objects id → ¬ Complete plan objects id → id ∈ assembly.inbox.pending
  delivered : ∃ order : List PublicationId, order.Nodup ∧
    (∀ id, id ∈ order ↔ Complete plan objects id) ∧
    List.Forall₂ (fun id projection => ∃ whole, plan id = some whole ∧
      whole.assemble = .ok projection) order assembly.completed

variable {channel : Channel} {plan : CutPlan} {objects taken : List Bytes} {object : Bytes}
  {assembly next : Assembly ScalarSyncProjection}

theorem held_append {id : PublicationId} {index : UInt32} :
    Held (taken ++ [object]) id index ↔ Held taken id index ∨ IsPart object id index := by
  simp [Held, or_and_right, exists_or]

theorem isPart_unique {id other : PublicationId} {index slot : UInt32}
    (first : IsPart object id index) (second : IsPart object other slot) :
    other = id ∧ slot = index := by
  obtain ⟨part, decoded, sameId, sameIndex⟩ := first
  obtain ⟨again, decodedToo, otherId, otherIndex⟩ := second
  rw [decoded] at decodedToo
  cases decodedToo
  exact ⟨otherId.symm.trans sameId, otherIndex.symm.trans sameIndex⟩

/-- An object changes nothing for the other publications. -/
theorem held_append_other {id other : PublicationId} {slot index : UInt32}
    (isPart : IsPart object id slot) (apart : other ≠ id) :
    Held (taken ++ [object]) other index ↔ Held taken other index := by
  rw [held_append]
  constructor
  · intro either
    rcases either with old | new
    · exact old
    · exact absurd (isPart_unique isPart new).1 apart
  · exact Or.inl

theorem complete_append_other {id other : PublicationId} {slot : UInt32}
    (isPart : IsPart object id slot) (apart : other ≠ id) :
    Complete plan (taken ++ [object]) other ↔ Complete plan taken other := by
  simp only [Complete, Occurs, held_append_other isPart apart]

theorem occurs_append_other {id other : PublicationId} {slot : UInt32}
    (isPart : IsPart object id slot) (apart : other ≠ id) :
    Occurs (taken ++ [object]) other ↔ Occurs taken other := by
  simp only [Occurs, held_append_other isPart apart]

/-- Only which objects there are matters. -/
theorem Progress.congr {others : List Bytes} (progress : Progress plan taken assembly)
    (same : ∀ object, object ∈ taken ↔ object ∈ others) : Progress plan others assembly := by
  have held : ∀ id index, Held taken id index ↔ Held others id index := by
    intro id index
    simp only [Held, same]
  have occurs : ∀ id, Occurs taken id ↔ Occurs others id := by
    intro id
    simp only [Occurs, held]
  have complete : ∀ id, Complete plan taken id ↔ Complete plan others id := by
    intro id
    simp only [Complete, occurs, held]
  obtain ⟨seen, partly, opened, order, once, members, delivered⟩ := progress
  refine ⟨fun object => (seen object).trans (same object), ?_, ?_, order, once,
    fun id => (members id).trans (complete id), delivered⟩
  · intro id held' found
    obtain ⟨here, missing, whole, planned, parts⟩ := partly id held' found
    refine ⟨(occurs id).mp here, fun full => missing ((complete id).mpr full), whole,
      planned, parts.total, ?_⟩
    intro index clear
    rw [parts.parts, held]
  · intro id here missing
    exact opened id ((occurs id).mpr here) fun full => missing ((complete id).mp full)

theorem progress_empty : Progress plan [] ⟨.empty, [], ∅⟩ := by
  refine ⟨by simp, ?_, ?_, [], List.nodup_nil, ?_, List.Forall₂.nil⟩
  · intro id held found
    simp [MultipartInbox.empty] at found
  · intro id here
    obtain ⟨index, object, impossible, _⟩ := here
    simp at impossible
  · intro id
    simp [Complete, Occurs, Held]

section Step

variable {part : ProtectedSyncPart} {clear : ScalarSyncProjection} {whole : PendingPublication}

theorem Placed.isPart (placed : Placed channel plan object part clear whole) :
    IsPart object part.publicationId part.partIndex :=
  ⟨part, placed.decoded, rfl, rfl⟩

/-- An object that was not taken yet is the first one for its part. -/
theorem Planned.not_held (planned : Planned channel plan objects)
    (inside : ∀ other ∈ taken, other ∈ objects) (listed : object ∈ objects)
    (fresh : object ∉ taken) {id : PublicationId} {index : UInt32}
    (isPart : IsPart object id index) : ¬ Held taken id index := by
  intro held
  obtain ⟨other, member, also⟩ := held
  have same := planned.single object listed other (inside other member) id index isPart also
  exact fresh (same ▸ member)

/-- What the inbox has of the publication of a new object. -/
theorem Progress.soFar (progress : Progress plan taken assembly)
    (placed : Placed channel plan object part clear whole)
    (fresh : ¬ Held taken part.publicationId part.partIndex) :
    Partly taken part.publicationId whole (assembly.inbox.soFar part) := by
  cases found : assembly.inbox.pending[part.publicationId]? with
  | some held =>
    obtain ⟨_, _, other, planned, parts⟩ := progress.partly part.publicationId held found
    rw [placed.planned] at planned
    cases planned
    rw [MultipartInbox.soFar, found]
    exact parts
  | none =>
    have missing : ¬ Complete plan taken part.publicationId := by
      intro full
      obtain ⟨_, other, planned, all⟩ := full
      rw [placed.planned] at planned
      cases planned
      exact fresh (all part.partIndex (map_mem_iff.mpr ⟨clear, placed.stored⟩))
    have absent : ∀ index, ¬ Held taken part.publicationId index := by
      intro index held
      obtain ⟨stored, impossible⟩ :=
        map_mem_iff.mp (progress.opened part.publicationId ⟨index, held⟩ missing)
      rw [found] at impossible
      cases impossible
    rw [MultipartInbox.soFar, found]
    refine ⟨placed.total.symm, ?_⟩
    intro index held
    simp [absent]

/-- A new part is included, and the publication then has that part too. -/
theorem Partly.store {held : PendingPublication}
    (parts : Partly taken part.publicationId whole held)
    (placed : Placed channel plan object part clear whole)
    (fresh : ¬ Held taken part.publicationId part.partIndex) :
    ∃ filled, held.store part clear = .ok filled ∧
    Partly (taken ++ [object]) part.publicationId whole filled := by
  have absent : held.parts[part.partIndex]? = none := by
    apply Option.eq_none_iff_forall_ne_some.mpr
    intro other stored
    exact fresh ((parts.parts part.partIndex other).mp stored).2
  have total : held.totalParts = part.totalParts := parts.total.trans placed.total
  refine ⟨{ held with parts := held.parts.insert part.partIndex clear }, ?_, parts.total, ?_⟩
  · simp [PendingPublication.store, total, absent]
  · intro index other
    rw [held_append, ExtTreeMap.getElem?_insert]
    by_cases here : part.partIndex = index
    · subst here
      rw [if_pos Std.ReflCmp.compare_self, placed.stored]
      simp [placed.isPart]
    · have different : ¬ compare part.partIndex index = .eq :=
        fun same => here (Std.LawfulEqCmp.eq_of_compare same)
      have notPart : ¬ IsPart object part.publicationId index :=
        fun isPart => here (isPart_unique placed.isPart isPart).2.symm
      rw [if_neg different, parts.parts]
      simp [notPart]

/-- A publication with as many parts as planned is the whole one. -/
theorem Partly.eq_whole {held : PendingPublication} {id : PublicationId}
    (parts : Partly taken id whole held) (full : whole.parts.size = whole.totalParts.toNat)
    (sizes : held.parts.size = held.totalParts.toNat) :
    held = whole := by
  have same : held.parts = whole.parts := by
    apply map_eq_of_submap
    · intro index clear found
      exact ((parts.parts index clear).mp found).1
    · rw [sizes, full, parts.total]
  cases held
  cases whole
  simp only at same
  have total := parts.total
  simp only at total
  rw [same, total]

theorem Partly.complete_iff {held : PendingPublication} {id : PublicationId}
    (parts : Partly taken id whole held) (planned : plan id = some whole)
    (full : whole.parts.size = whole.totalParts.toNat) (here : Occurs taken id) :
    Complete plan taken id ↔ held.parts.size = held.totalParts.toNat := by
  constructor
  · intro complete
    obtain ⟨_, other, also, all⟩ := complete
    rw [planned] at also
    cases also
    have same : whole.parts = held.parts := by
      apply ExtTreeMap.ext_getElem?
      intro index
      apply Option.ext
      intro clear
      rw [parts.parts]
      exact ⟨fun found => ⟨found, all index (map_mem_iff.mpr ⟨clear, found⟩)⟩, And.left⟩
    rw [← same, full, parts.total]
  · intro sizes
    refine ⟨here, whole, planned, ?_⟩
    intro index member
    obtain ⟨clear, found⟩ := map_mem_iff.mp member
    rw [← parts.eq_whole full sizes, parts.parts] at found
    exact found.2

/-- The publication of a new object stays open. -/
theorem Progress.stays (progress : Progress plan taken assembly)
    (placed : Placed channel plan object part clear whole) {filled : PendingPublication}
    (parts : Partly (taken ++ [object]) part.publicationId whole filled)
    (missing : ¬ Complete plan (taken ++ [object]) part.publicationId) :
    Progress plan (taken ++ [object]) ⟨⟨assembly.inbox.pending.insert part.publicationId filled⟩,
      assembly.completed, assembly.seenWireObjects.insert object⟩ := by
  have here : Occurs (taken ++ [object]) part.publicationId :=
    ⟨part.partIndex, held_append.mpr (Or.inr placed.isPart)⟩
  obtain ⟨seen, partly, opened, order, once, members, delivered⟩ := progress
  refine ⟨?_, ?_, ?_, order, once, ?_, delivered⟩
  · exact Intake.mem_insert_iff seen
  · intro id held found
    by_cases same : id = part.publicationId
    · subst same
      simp only [ExtTreeMap.getElem?_insert_self, Option.some.injEq] at found
      exact ⟨here, missing, whole, placed.planned, found ▸ parts⟩
    · obtain ⟨occurs, open', whole', planned, old⟩ :=
        partly id held ((MultipartInbox.frame_insert same).symm.trans found)
      refine ⟨(occurs_append_other placed.isPart same).mpr occurs,
        fun full => open' ((complete_append_other placed.isPart same).mp full), whole',
        planned, old.total, ?_⟩
      intro index clear'
      rw [old.parts, held_append_other placed.isPart same]
  · intro id occurs open'
    by_cases same : id = part.publicationId
    · simp [same]
    · have old := opened id ((occurs_append_other placed.isPart same).mp occurs)
        fun full => open' ((complete_append_other placed.isPart same).mpr full)
      simp [old]
  · intro id
    by_cases same : id = part.publicationId
    · subst same
      rw [members]
      constructor
      · intro full
        obtain ⟨_, other, planned, all⟩ := full
        exact ⟨here, other, planned,
          fun index member => held_append.mpr (Or.inl (all index member))⟩
      · exact fun full => absurd full missing
    · rw [members, complete_append_other placed.isPart same]

theorem Progress.completes (progress : Progress plan taken assembly)
    (placed : Placed channel plan object part clear whole) {projection : ScalarSyncProjection}
    (fresh : ¬ Held taken part.publicationId part.partIndex)
    (full : Complete plan (taken ++ [object]) part.publicationId)
    (assembled : whole.assemble = .ok projection) :
    Progress plan (taken ++ [object]) ⟨⟨assembly.inbox.pending.erase part.publicationId⟩,
      assembly.completed ++ [projection], assembly.seenWireObjects.insert object⟩ := by
  obtain ⟨seen, partly, opened, order, once, members, delivered⟩ := progress
  have new : part.publicationId ∉ order := by
    rw [members]
    intro complete
    obtain ⟨_, other, planned, all⟩ := complete
    rw [placed.planned] at planned
    cases planned
    exact fresh (all part.partIndex (map_mem_iff.mpr ⟨clear, placed.stored⟩))
  refine ⟨?_, ?_, ?_, order ++ [part.publicationId], ?_, ?_, ?_⟩
  · exact Intake.mem_insert_iff seen
  · intro id held found
    by_cases same : id = part.publicationId
    · simp [same] at found
    · obtain ⟨occurs, open', whole', planned, old⟩ :=
        partly id held ((MultipartInbox.frame_erase same).symm.trans found)
      refine ⟨(occurs_append_other placed.isPart same).mpr occurs,
        fun full => open' ((complete_append_other placed.isPart same).mp full), whole',
        planned, old.total, ?_⟩
      intro index clear'
      rw [old.parts, held_append_other placed.isPart same]
  · intro id occurs open'
    by_cases same : id = part.publicationId
    · exact absurd (same ▸ full) open'
    · have old := opened id ((occurs_append_other placed.isPart same).mp occurs)
        fun complete => open' ((complete_append_other placed.isPart same).mpr complete)
      simp [old, Ne.symm same]
  · rw [List.nodup_append]
    exact ⟨once, List.nodup_singleton _, fun id member other last same =>
      new (by rw [List.mem_singleton] at last; rw [← last, ← same]; exact member)⟩
  · intro id
    rw [List.mem_append, members, List.mem_singleton]
    by_cases same : id = part.publicationId
    · simp [same, full]
    · simp [same, complete_append_other placed.isPart same]
  · exact List.rel_append delivered
      (List.Forall₂.cons ⟨whole, placed.planned, assembled⟩ List.Forall₂.nil)

end Step

theorem Planned.take (planned : Planned channel plan objects)
    (inside : ∀ other ∈ taken, other ∈ objects) (listed : object ∈ objects)
    (progress : Progress plan taken assembly) :
    ∃ next, (recoveryIntake P TrustedError).take channel assembly object = .ok next ∧
      Progress plan (taken ++ [object]) next := by
  by_cases repeated : object ∈ assembly.seenWireObjects
  · refine ⟨assembly, by simp [Intake.take, repeated], progress.congr ?_⟩
    intro other
    rw [List.mem_append, List.mem_singleton]
    constructor
    · exact Or.inl
    · intro either
      rcases either with old | same
      · exact old
      · exact same ▸ (progress.seen object).mp repeated
  · obtain ⟨part, clear, whole, placed⟩ := planned.placed object listed
    have fresh :=
      planned.not_held inside listed (fun member => repeated ((progress.seen object).mpr member))
      placed.isPart
    obtain ⟨filled, included, parts⟩ := (progress.soFar placed fresh).store placed fresh
    have here : Occurs (taken ++ [object]) part.publicationId :=
      ⟨part.partIndex, held_append.mpr (Or.inr placed.isPart)⟩
    have full := planned.full part.publicationId whole placed.planned
    have complete := parts.complete_iff placed.planned full here
    have ingested : assembly.inbox.ingest channel part =
        if filled.parts.size ≠ filled.totalParts.toNat then
          (.ok none, ⟨assembly.inbox.pending.insert part.publicationId filled⟩)
        else (filled.assemble.map some, ⟨assembly.inbox.pending.erase part.publicationId⟩) := by
      rw [MultipartInbox.soFar] at included
      simp only [MultipartInbox.ingest, placed.opened, included]
    by_cases sizes : filled.parts.size = filled.totalParts.toNat
    · obtain ⟨projection, assembled⟩ := planned.assembles part.publicationId whole placed.planned
      rw [if_neg (not_not.mpr sizes), parts.eq_whole full sizes, assembled] at ingested
      refine ⟨_, ?_, progress.completes placed fresh (complete.mpr sizes) assembled⟩
      rw [Intake.take_fresh repeated placed.decoded rfl ingested]
      rfl
    · rw [if_pos sizes] at ingested
      refine ⟨_, ?_, progress.stays placed parts fun done => sizes (complete.mp done)⟩
      rw [Intake.take_fresh repeated placed.decoded rfl ingested]
      rfl

/-- Objects of the plan are always taken, in any order. -/
theorem Planned.takeAll (planned : Planned channel plan objects) :
    ∃ last, (recoveryIntake P TrustedError).takeAll channel objects = .ok last ∧
    Progress plan objects last := by
  have loop : ∀ rest taken assembly, taken ++ rest = objects → Progress plan taken assembly →
      ∃ last, rest.foldlM ((recoveryIntake P TrustedError).take channel) assembly = .ok last ∧
        Progress plan objects last := by
    intro rest
    induction rest with
    | nil =>
      intro taken assembly split progress
      rw [List.append_nil] at split
      exact ⟨assembly, rfl, split ▸ progress⟩
    | cons object rest ih =>
      intro taken assembly split progress
      have inside : ∀ other ∈ taken, other ∈ objects := by
        intro other member
        exact split ▸ List.mem_append_left _ member
      have listed : object ∈ objects := split ▸ List.mem_append_right _ List.mem_cons_self
      obtain ⟨next, took, further⟩ :
          ∃ next, (recoveryIntake P TrustedError).take channel assembly object = .ok next ∧
          Progress plan (taken ++ [object]) next := planned.take inside listed progress
      obtain ⟨last, finished, ended⟩ := ih (taken ++ [object]) next (by simp [split]) further
      refine ⟨last, ?_, ended⟩
      rw [List.foldlM_cons, took]
      exact finished
  exact loop objects [] ⟨.empty, [], ∅⟩ rfl progress_empty

section Alongside

variable {key : DomainKey} {single singleNext : Assembly (ScalarRegister Bytes)}

/-- The projection carries exactly the domain, with that register. -/
def CarriesOnly (key : DomainKey) (register : ScalarRegister Bytes)
    (projection : ScalarSyncProjection) : Prop :=
  scalarRegisterFromProjection projection key = .ok register

/-- The same objects on the way into one domain and into a container. -/
structure Alongside (key : DomainKey) (single : Assembly (ScalarRegister Bytes))
    (assembly : Assembly ScalarSyncProjection) : Prop where
  inbox : single.inbox = assembly.inbox
  seen : single.seenWireObjects = assembly.seenWireObjects
  completed : List.Forall₂ (CarriesOnly key) single.completed assembly.completed

/-- An object that the domain takes is taken by the container too. -/
theorem Alongside.take (alongside : Alongside key single assembly)
    (taken : (domainIntake key).take channel single object = .ok singleNext) :
    ∃ next, (recoveryIntake P TrustedError).take channel assembly object = .ok next ∧
      Alongside key singleNext next := by
  by_cases repeated : object ∈ assembly.seenWireObjects
  · have skipped : (domainIntake key).take channel single object = .ok single := by
      rw [Intake.take, if_pos (alongside.seen ▸ repeated)]
    rw [skipped] at taken
    cases taken
    exact ⟨assembly, by rw [Intake.take, if_pos repeated], alongside⟩
  · have fresh : object ∉ single.seenWireObjects := alongside.seen ▸ repeated
    rcases Intake.take_cases taken with
      ⟨known, _⟩ | ⟨part, clear, delivered, decoded, _, opened, ingested, seen, outcome⟩
    · exact absurd known fresh
    have same : assembly.inbox.ingest channel part = (.ok delivered, singleNext.inbox) :=
      alongside.inbox ▸ ingested
    rw [Intake.take_fresh repeated decoded rfl same]
    rcases outcome with ⟨none, kept⟩ | ⟨projection, register, some', finished, kept⟩
    · subst none
      refine ⟨_, rfl, rfl, ?_, ?_⟩
      · rw [seen, alongside.seen]
      · rw [kept]
        exact alongside.completed
    · subst some'
      refine ⟨_, rfl, rfl, ?_, ?_⟩
      · rw [seen, alongside.seen]
      · rw [kept]
        exact List.rel_append alongside.completed (List.Forall₂.cons finished List.Forall₂.nil)

/-- An object that the container takes is taken by the domain too, as long as what
it completes carries exactly the domain. -/
theorem Alongside.take_back (alongside : Alongside key single assembly)
    (taken : (recoveryIntake P TrustedError).take channel assembly object = .ok next)
    (only : ∀ projection ∈ next.completed, ∃ register, CarriesOnly key register projection) :
    ∃ singleNext, (domainIntake key).take channel single object = .ok singleNext ∧
      Alongside key singleNext next := by
  by_cases repeated : object ∈ assembly.seenWireObjects
  · have skipped : (recoveryIntake P TrustedError).take channel assembly object = .ok assembly := by
      rw [Intake.take, if_pos repeated]
    rw [skipped] at taken
    cases taken
    exact ⟨single, by rw [Intake.take, if_pos (alongside.seen ▸ repeated)], alongside⟩
  · have fresh : object ∉ single.seenWireObjects := alongside.seen ▸ repeated
    rcases Intake.take_cases taken with
      ⟨known, _⟩ | ⟨part, clear, delivered, decoded, _, opened, ingested, seen, outcome⟩
    · exact absurd known repeated
    have same : single.inbox.ingest channel part = (.ok delivered, next.inbox) :=
      alongside.inbox ▸ ingested
    rw [Intake.take_fresh fresh decoded rfl same]
    rcases outcome with ⟨none, kept⟩ | ⟨projection, item, some', finished, kept⟩
    · subst none
      refine ⟨_, rfl, rfl, ?_, ?_⟩
      · rw [seen, alongside.seen]
      · rw [kept]
        exact alongside.completed
    · subst some'
      cases finished
      obtain ⟨register, carries⟩ := only projection (by simp [kept])
      have delivers : (domainIntake key).deliver single.completed (some projection) =
          .ok (single.completed ++ [register]) := by
        have completes : (domainIntake key).complete single.completed projection = .ok register :=
          carries
        rw [Intake.deliver, completes]
        rfl
      rw [delivers]
      refine ⟨_, rfl, rfl, ?_, ?_⟩
      · rw [seen, alongside.seen]
      · rw [kept]
        exact List.rel_append alongside.completed (List.Forall₂.cons carries List.Forall₂.nil)

theorem alongside_empty :
    Alongside key ⟨.empty, [], ∅⟩ ⟨.empty, [], ∅⟩ := ⟨rfl, rfl, List.Forall₂.nil⟩

theorem Alongside.foldlM {singleLast : Assembly (ScalarRegister Bytes)}
    (alongside : Alongside key single assembly)
    (done : objects.foldlM ((domainIntake key).take channel) single = .ok singleLast) :
    ∃ last, objects.foldlM ((recoveryIntake P TrustedError).take channel) assembly = .ok last ∧
      Alongside key singleLast last := by
  induction objects generalizing single assembly with
  | nil =>
    cases done
    exact ⟨assembly, rfl, alongside⟩
  | cons object rest ih =>
    rw [List.foldlM_cons, bind_ok_iff] at done
    obtain ⟨middle, taken, finished⟩ := done
    obtain ⟨next, took, further⟩ :
      ∃ next, (recoveryIntake P TrustedError).take channel assembly object = .ok next ∧
        Alongside key middle next := alongside.take taken
    obtain ⟨last, ended, both⟩ := ih further finished
    refine ⟨last, ?_, both⟩
    rw [List.foldlM_cons, took]
    exact ended

theorem Alongside.foldlM_back {last : Assembly ScalarSyncProjection}
    (alongside : Alongside key single assembly)
    (done : objects.foldlM ((recoveryIntake P TrustedError).take channel) assembly = .ok last)
    (only : ∀ projection ∈ last.completed, ∃ register, CarriesOnly key register projection) :
    ∃ singleLast, objects.foldlM ((domainIntake key).take channel) single = .ok singleLast ∧
      Alongside key singleLast last := by
  induction objects generalizing single assembly with
  | nil =>
    cases done
    exact ⟨single, rfl, alongside⟩
  | cons object rest ih =>
    rw [List.foldlM_cons, bind_ok_iff] at done
    obtain ⟨next, taken, finished⟩ := done
    have inside := Intake.foldlM_completed finished
    obtain ⟨middle, took, further⟩ := alongside.take_back taken fun projection member =>
      only projection (inside member)
    obtain ⟨singleLast, ended, both⟩ := ih further finished
    refine ⟨singleLast, ?_, both⟩
    rw [List.foldlM_cons, took]
    exact ended

end Alongside

end PrivateContinuum.Runtime
