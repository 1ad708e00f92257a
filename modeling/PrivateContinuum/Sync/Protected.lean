import PrivateContinuum.Sync.Codec
import PrivateContinuum.Sync.Protection
import PrivateContinuum.Sync.Wire

namespace PrivateContinuum.Sync

open Std (ExtTreeMap)
open PrivateContinuum.Library PrivateContinuum.Core

/-- The key and the continuum that a call works under, with the cipher. -/
structure Channel where
  aead : Aead
  key : ContentKey
  continuumId : ContinuumId

inductive SyncPartError where
  | invalidMultipartMetadata
  | multipartTotalMismatch
  | multipartPartCollision
  | emptyProjection
  | codec (failure : SyncCodecError)
  | protection (failure : ProtectionError)
  | core (failure : CoreError)
deriving DecidableEq

/-- `b"A.P.C. sync part context\0v1\0"` -/
def syncPartContextDomain : Bytes :=
  [65, 46, 80, 46, 67, 46, 32, 115, 121, 110, 99, 32, 112, 97, 114, 116, 32, 99, 111, 110,
    116, 101, 120, 116, 0, 118, 49, 0]

def validatePartMetadata (partIndex totalParts : UInt32) : Except SyncPartError Unit :=
  if totalParts = 0 ∨ totalParts ≤ partIndex then .error .invalidMultipartMetadata else .ok ()

def partContext (continuumId : ContinuumId) (publicationId : PublicationId)
    (partIndex totalParts : UInt32) :
    Bytes :=
  syncPartContextDomain ++ continuumId.bytes ++ publicationId.bytes ++
    bigEndian 4 partIndex.toNat ++ bigEndian 4 totalParts.toNat

def protectScalarPart (channel : Channel) (publicationId : PublicationId)
    (partIndex totalParts : UInt32) (projection : ScalarSyncProjection)
    (generated : Option Nonce) : Except SyncPartError ProtectedSyncPart := do
  validatePartMetadata partIndex totalParts
  if projection.isEmpty then throw .emptyProjection
  let clear ← (encodeScalarProjection projection).mapError SyncPartError.codec
  let context := partContext channel.continuumId publicationId partIndex totalParts
  let payload ← (protect channel.aead channel.key context clear generated).mapError
    SyncPartError.protection
  pure ⟨publicationId, partIndex, totalParts, payload⟩

def unprotectScalarPart (channel : Channel) (part : ProtectedSyncPart) :
    Except SyncPartError ScalarSyncProjection := do
  validatePartMetadata part.partIndex part.totalParts
  let context := partContext channel.continuumId part.publicationId part.partIndex part.totalParts
  let clear ← (unprotect channel.aead channel.key context part.payload).mapError
    SyncPartError.protection
  let projection ← (decodeScalarProjection clear).mapError SyncPartError.codec
  if projection.isEmpty then throw .emptyProjection
  pure projection

theorem unprotectScalarPart_protect {channel : Channel} {publicationId : PublicationId}
    {partIndex totalParts : UInt32} {projection : ScalarSyncProjection}
    {generated : Option Nonce} {part : ProtectedSyncPart} (sound : projection.Sound)
    (done : protectScalarPart channel publicationId partIndex totalParts projection generated =
      .ok part) :
    part.publicationId = publicationId ∧ unprotectScalarPart channel part = .ok projection := by
  simp only [protectScalarPart, bind_ok_iff] at done
  obtain ⟨⟨⟩, valid, done⟩ := done
  split at done
  · simp at done
  rename_i filled
  simp only [pure_eq_ok, bind_ok_iff, mapError_ok_iff, Except.ok.injEq] at done
  obtain ⟨clear, encoded, payload, protected_, rfl⟩ := done
  refine ⟨rfl, ?_⟩
  simp only [unprotectScalarPart, bind_ok_iff, mapError_ok_iff]
  refine ⟨(), valid, clear, unprotect_protect protected_, projection,
    decodeScalarProjection_encode sound encoded, ?_⟩
  simp [filled]

theorem protectScalarPart_labels {channel : Channel} {publicationId : PublicationId}
    {partIndex totalParts : UInt32} {projection : ScalarSyncProjection}
    {generated : Option Nonce} {part : ProtectedSyncPart}
    (done : protectScalarPart channel publicationId partIndex totalParts projection generated =
      .ok part) :
    part.publicationId = publicationId ∧ part.partIndex = partIndex ∧
    part.totalParts = totalParts := by
  simp only [protectScalarPart, bind_ok_iff] at done
  obtain ⟨⟨⟩, _, done⟩ := done
  split at done
  · simp at done
  simp only [pure_eq_ok, bind_ok_iff, Except.ok.injEq] at done
  obtain ⟨_, _, _, _, same⟩ := done
  subst same
  exact ⟨rfl, rfl, rfl⟩

theorem unprotectScalarPart_sound {channel : Channel} {part : ProtectedSyncPart}
    {projection : ScalarSyncProjection} (done : unprotectScalarPart channel part = .ok projection) :
    projection.Sound := by
  simp only [unprotectScalarPart, bind_ok_iff, mapError_ok_iff] at done
  obtain ⟨⟨⟩, _, clear, _, decoded, opened, done⟩ := done
  split at done
  · simp at done
  simp only [pure_eq_ok, Except.ok.injEq] at done
  subst done
  exact decodeScalarProjection_sound opened

structure PendingPublication where
  totalParts : UInt32
  parts : ExtTreeMap UInt32 ScalarSyncProjection

instance : DecidableEq ScalarSyncProjection := fun left right =>
  decidable_of_iff (left.domains = right.domains)
    ⟨fun same => by cases left; cases right; cases same; rfl, fun same => by rw [same]⟩

namespace PendingPublication

/-- The collision check and the insertion of one authenticated part. -/
def store (pending : PendingPublication) (part : ProtectedSyncPart) (clear : ScalarSyncProjection) :
    Except SyncPartError PendingPublication :=
  if pending.totalParts ≠ part.totalParts then .error .multipartTotalMismatch
  else match pending.parts[part.partIndex]? with
    | some previous => if previous ≠ clear then .error .multipartPartCollision else .ok pending
    | none => .ok { pending with parts := pending.parts.insert part.partIndex clear }

/-- Merges the parts in index order. A complete publication has a part. -/
def assemble (complete : PendingPublication) : Except SyncPartError ScalarSyncProjection :=
  match complete.parts.toList.map Prod.snd with
  | [] => .ok .empty
  | first :: fragments => (fragments.foldlM SyncProjection.merge first).mapError SyncPartError.core

end PendingPublication

structure MultipartInbox where
  pending : ExtTreeMap PublicationId PendingPublication

namespace MultipartInbox

def empty : MultipartInbox := ⟨∅⟩

def pendingPublications (inbox : MultipartInbox) : Nat := inbox.pending.size

def ingest (channel : Channel) (inbox : MultipartInbox) (part : ProtectedSyncPart) :
    Except SyncPartError (Option ScalarSyncProjection) × MultipartInbox :=
  match unprotectScalarPart channel part with
  | .error failure => (.error failure, inbox)
  | .ok clear =>
    let pending := inbox.pending[part.publicationId]?.getD ⟨part.totalParts, ∅⟩
    match pending.store part clear with
    | .error failure => (.error failure, ⟨inbox.pending.insert part.publicationId pending⟩)
    | .ok filled =>
      if filled.parts.size ≠ filled.totalParts.toNat then
        (.ok none, ⟨inbox.pending.insert part.publicationId filled⟩)
      else (filled.assemble.map some, ⟨inbox.pending.erase part.publicationId⟩)

end MultipartInbox

namespace ScalarSyncProjection

theorem not_carries_empty {key : DomainKey} {revision : ScalarRevision Bytes} :
    ¬ Carries (.empty : ScalarSyncProjection) key revision := by
  intro carried
  obtain ⟨register, found, _⟩ := carried
  simp [SyncProjection.get, SyncProjection.empty] at found

theorem Sound.empty : Sound .empty :=
  ⟨fun key register found => by simp [SyncProjection.get, SyncProjection.empty] at found,
    fun key register found => by simp [SyncProjection.get, SyncProjection.empty] at found⟩

theorem Sound.merge {left right merged : ScalarSyncProjection} (leftSound : left.Sound)
    (rightSound : right.Sound)
    (done : SyncProjection.merge left right = .ok merged) : merged.Sound := by
  refine ⟨merge_allValid done leftSound.valid rightSound.valid, ?_⟩
  intro key register stored
  cases incoming : right.get key with
  | none =>
    rw [SyncProjection.merge_get_other done incoming] at stored
    exact leftSound.named key register stored
  | some other => exact rightSound.named key other incoming

theorem foldMerge_carries {first last : ScalarSyncProjection} {others : List ScalarSyncProjection}
    (done : others.foldlM SyncProjection.merge first = .ok last) (key : DomainKey)
    (revision : ScalarRevision Bytes) :
    last.Carries key revision ↔ first.Carries key revision ∨
    ∃ other ∈ others, other.Carries key revision := by
  induction others generalizing first with
  | nil =>
    cases done
    simp
  | cons other rest ih =>
    rw [List.foldlM_cons, bind_ok_iff] at done
    obtain ⟨next, merged, finished⟩ := done
    rw [ih finished, merge_carries merged]
    simp [or_assoc]

/-- A property of projections that merging keeps. -/
def MergeClosed (good : ScalarSyncProjection → Prop) : Prop :=
  ∀ left right merged, good left → good right → SyncProjection.merge left right = .ok merged →
    good merged

theorem mergeClosed_sound : MergeClosed Sound :=
  fun _ _ _ leftSound rightSound done => leftSound.merge rightSound done

theorem foldMerge_every {good : ScalarSyncProjection → Prop} (closed : MergeClosed good)
    {first last : ScalarSyncProjection} {others : List ScalarSyncProjection}
    (firstGood : good first) (othersGood : ∀ other ∈ others, good other)
    (done : others.foldlM SyncProjection.merge first = .ok last) : good last :=
  foldlM_invariant good
    (fun _ other _ member holds merged => closed _ other _ holds (othersGood other member) merged)
      firstGood done

end ScalarSyncProjection

namespace PendingPublication

variable {pending filled complete : PendingPublication} {part : ProtectedSyncPart}
  {clear projection : ScalarSyncProjection}

def Carries (pending : PendingPublication) (key : DomainKey)
    (revision : ScalarRevision Bytes) : Prop :=
  ∃ (index : UInt32) (fragment : ScalarSyncProjection),
    pending.parts[index]? = some fragment ∧ fragment.Carries key revision

def Every (good : ScalarSyncProjection → Prop) (pending : PendingPublication) : Prop :=
  ∀ (index : UInt32) (fragment : ScalarSyncProjection), pending.parts[index]? = some fragment →
    good fragment

/-- An included part is stored, or was stored before with the same content. -/
theorem store_cases (done : pending.store part clear = .ok filled) :
    (pending.parts[part.partIndex]? = some clear ∧ filled = pending) ∨
      (pending.parts[part.partIndex]? = none ∧
        filled = { pending with parts := pending.parts.insert part.partIndex clear }) := by
  unfold store at done
  split at done
  · cases done
  split at done
  · rename_i previous found
    split at done
    · cases done
    · rename_i same
      cases done
      rw [ne_eq, not_not] at same
      exact Or.inl ⟨same ▸ found, rfl⟩
  · rename_i absent
    cases done
    exact Or.inr ⟨absent, rfl⟩

theorem store_carries (done : pending.store part clear = .ok filled) (key : DomainKey)
    (revision : ScalarRevision Bytes) :
    filled.Carries key revision ↔ pending.Carries key revision ∨ clear.Carries key revision := by
  rcases store_cases done with ⟨stored, same⟩ | ⟨absent, same⟩
  · subst same
    constructor
    · exact Or.inl
    · intro either
      rcases either with old | new
      · exact old
      · exact ⟨part.partIndex, clear, stored, new⟩
  · subst same
    constructor
    · intro carried
      obtain ⟨index, fragment, found, carried⟩ := carried
      rw [ExtTreeMap.getElem?_insert] at found
      split at found
      · cases found
        exact Or.inr carried
      · exact Or.inl ⟨index, fragment, found, carried⟩
    · intro either
      rcases either with ⟨index, fragment, found, carried⟩ | new
      · refine ⟨index, fragment, ?_, carried⟩
        rw [ExtTreeMap.getElem?_insert, if_neg]
        · exact found
        · intro here
          rw [Std.LawfulEqCmp.eq_of_compare here, found] at absent
          cases absent
      · exact ⟨part.partIndex, clear, by simp, new⟩

theorem store_every {good : ScalarSyncProjection → Prop} (every : pending.Every good)
    (clearGood : good clear) (done : pending.store part clear = .ok filled) :
    filled.Every good := by
  rcases store_cases done with ⟨_, same⟩ | ⟨_, same⟩
  · exact same ▸ every
  · subst same
    intro index fragment found
    rw [ExtTreeMap.getElem?_insert] at found
    split at found
    · cases found
      exact clearGood
    · exact every index fragment found

theorem store_present (done : pending.store part clear = .ok filled) :
    filled.parts[part.partIndex]? = some clear := by
  rcases store_cases done with ⟨stored, same⟩ | ⟨_, same⟩
  · exact same ▸ stored
  · subst same
    simp

theorem mem_fragments {fragment : ScalarSyncProjection} :
    fragment ∈ complete.parts.toList.map Prod.snd ↔
      ∃ index : UInt32, complete.parts[index]? = some fragment := by
  simp only [List.mem_map, Prod.exists, exists_eq_right, ExtTreeMap.mem_toList_iff_getElem?_eq_some]

theorem assemble_carries (done : complete.assemble = .ok projection) (key : DomainKey)
    (revision : ScalarRevision Bytes) :
    projection.Carries key revision ↔ complete.Carries key revision := by
  have listed : complete.Carries key revision ↔
      ∃ fragment ∈ complete.parts.toList.map Prod.snd, fragment.Carries key revision := by
    simp only [Carries, mem_fragments]
    exact ⟨fun ⟨index, fragment, found, carried⟩ => ⟨fragment, ⟨index, found⟩, carried⟩,
      fun ⟨fragment, ⟨index, found⟩, carried⟩ => ⟨index, fragment, found, carried⟩⟩
  rw [listed]
  unfold assemble at done
  split at done
  · rename_i none
    cases done
    simp [none, ScalarSyncProjection.not_carries_empty]
  · rename_i first fragments split
    rw [split, ScalarSyncProjection.foldMerge_carries (mapError_ok_iff.mp done)]
    simp

theorem assemble_every {good : ScalarSyncProjection → Prop}
    (closed : ScalarSyncProjection.MergeClosed good) (every : complete.Every good)
    {index : UInt32} {fragment : ScalarSyncProjection}
    (present : complete.parts[index]? = some fragment)
    (done : complete.assemble = .ok projection) :
    good projection := by
  have listed : ∀ fragment ∈ complete.parts.toList.map Prod.snd, good fragment := by
    intro fragment member
    obtain ⟨index, found⟩ := mem_fragments.mp member
    exact every index fragment found
  unfold assemble at done
  split at done
  · rename_i none
    have member := mem_fragments.mpr ⟨index, present⟩
    simp [none] at member
  · rename_i first fragments split
    rw [split, List.forall_mem_cons] at listed
    exact ScalarSyncProjection.foldMerge_every closed listed.1 listed.2 (mapError_ok_iff.mp done)

end PendingPublication

namespace MultipartInbox

variable {channel : Channel} {inbox next : MultipartInbox} {part : ProtectedSyncPart}
  {clear : ScalarSyncProjection} {result : Option ScalarSyncProjection}

def Carries (inbox : MultipartInbox) (key : DomainKey) (revision : ScalarRevision Bytes) : Prop :=
  ∃ (id : PublicationId) (pending : PendingPublication),
    inbox.pending[id]? = some pending ∧ pending.Carries key revision

def Every (good : ScalarSyncProjection → Prop) (inbox : MultipartInbox) : Prop :=
  ∀ (id : PublicationId) (pending : PendingPublication), inbox.pending[id]? = some pending →
    pending.Every good

/-- What the inbox holds so far of the publication that a part belongs to. -/
def soFar (inbox : MultipartInbox) (part : ProtectedSyncPart) : PendingPublication :=
  inbox.pending[part.publicationId]?.getD ⟨part.totalParts, ∅⟩

/-- The statements of all other publications. -/
def CarriesApart (inbox : MultipartInbox) (part : ProtectedSyncPart) (key : DomainKey)
    (revision : ScalarRevision Bytes) : Prop :=
  ∃ (id : PublicationId) (pending : PendingPublication), id ≠ part.publicationId ∧
    inbox.pending[id]? = some pending ∧ pending.Carries key revision

/-- A completed ingestion keeps the filled publication or delivers and forgets it. -/
theorem ingest_cases (opened : unprotectScalarPart channel part = .ok clear)
    (done : inbox.ingest channel part = (.ok result, next)) :
    ∃ filled, (inbox.soFar part).store part clear = .ok filled ∧
      ((result = none ∧ next = ⟨inbox.pending.insert part.publicationId filled⟩) ∨
        ∃ projection, filled.assemble = .ok projection ∧ result = some projection ∧
          next = ⟨inbox.pending.erase part.publicationId⟩) := by
  simp only [ingest, opened] at done
  change (match (inbox.soFar part).store part clear with | .error _ => _ | .ok _ => _) = _ at done
  split at done
  · cases done
  · rename_i filled included
    refine ⟨filled, included, ?_⟩
    split at done
    · cases done
      exact Or.inl ⟨rfl, rfl⟩
    · simp only [Prod.mk.injEq] at done
      obtain ⟨assembled, same⟩ := done
      cases outcome : filled.assemble with
      | error failure => simp [outcome, Except.map] at assembled
      | ok projection =>
        simp only [outcome, Except.map, Except.ok.injEq] at assembled
        exact Or.inr ⟨projection, rfl, assembled.symm, same.symm⟩

theorem carries_iff_apart (inbox : MultipartInbox) (part : ProtectedSyncPart) (key : DomainKey)
    (revision : ScalarRevision Bytes) : inbox.Carries key revision ↔
      (inbox.soFar part).Carries key revision ∨ inbox.CarriesApart part key revision := by
  constructor
  · intro carried
    obtain ⟨id, pending, stored, inside⟩ := carried
    by_cases here : id = part.publicationId
    · left
      rw [soFar, ← here, stored]
      exact inside
    · exact Or.inr ⟨id, pending, here, stored, inside⟩
  · intro either
    rcases either with inside | ⟨id, pending, _, stored, inside⟩
    · cases stored : inbox.pending[part.publicationId]? with
      | some pending =>
        rw [soFar, stored] at inside
        exact ⟨part.publicationId, pending, stored, inside⟩
      | none =>
        rw [soFar, stored] at inside
        obtain ⟨_, _, absent, _⟩ := inside
        simp at absent
    · exact ⟨id, pending, stored, inside⟩

theorem carriesApart_congr
    (frame : ∀ id ≠ part.publicationId, next.pending[id]? = inbox.pending[id]?) (key : DomainKey)
    (revision : ScalarRevision Bytes) :
    next.CarriesApart part key revision ↔ inbox.CarriesApart part key revision := by
  constructor
  · intro carried
    obtain ⟨id, pending, apart, stored, inside⟩ := carried
    exact ⟨id, pending, apart, (frame id apart) ▸ stored, inside⟩
  · intro carried
    obtain ⟨id, pending, apart, stored, inside⟩ := carried
    exact ⟨id, pending, apart, (frame id apart).trans stored, inside⟩

theorem frame_insert {filled : PendingPublication} {id : PublicationId}
    (apart : id ≠ part.publicationId) :
    (inbox.pending.insert part.publicationId filled)[id]? = inbox.pending[id]? := by
  rw [ExtTreeMap.getElem?_insert, if_neg]
  intro here
  exact apart (Std.LawfulEqCmp.eq_of_compare here).symm

theorem frame_erase {id : PublicationId} (apart : id ≠ part.publicationId) :
    (inbox.pending.erase part.publicationId)[id]? = inbox.pending[id]? := by
  rw [ExtTreeMap.getElem?_erase, if_neg]
  intro here
  exact apart (Std.LawfulEqCmp.eq_of_compare here).symm

/-- Nothing is lost or added by an ingestion: what is delivered together with
what stays is what was there together with the part. -/
theorem ingest_carries (opened : unprotectScalarPart channel part = .ok clear)
    (done : inbox.ingest channel part = (.ok result, next)) (key : DomainKey)
    (revision : ScalarRevision Bytes) :
    ((∃ projection, result = some projection ∧ projection.Carries key revision) ∨
      next.Carries key revision) ↔ inbox.Carries key revision ∨ clear.Carries key revision := by
  obtain ⟨filled, included, outcome⟩ := ingest_cases opened done
  have grown := PendingPublication.store_carries included key revision
  rw [carries_iff_apart inbox part, carries_iff_apart next part]
  rcases outcome with ⟨rfl, rfl⟩ | ⟨projection, assembled, rfl, rfl⟩
  · have stays : soFar ⟨inbox.pending.insert part.publicationId filled⟩ part = filled := by
      simp [soFar]
    have apart : CarriesApart ⟨inbox.pending.insert part.publicationId filled⟩ part key revision ↔
        inbox.CarriesApart part key revision :=
      carriesApart_congr (fun id different => frame_insert different) key revision
    rw [stays, grown, apart]
    simp only [reduceCtorEq, false_and, exists_false, false_or]
    exact or_right_comm
  · have gone : ¬ (soFar ⟨inbox.pending.erase part.publicationId⟩ part).Carries key revision := by
      intro carried
      obtain ⟨_, _, absent, _⟩ := carried
      simp [soFar] at absent
    have apart : CarriesApart ⟨inbox.pending.erase part.publicationId⟩ part key revision ↔
        inbox.CarriesApart part key revision :=
      carriesApart_congr (fun id different => frame_erase different) key revision
    rw [apart]
    simp only [Option.some.injEq, exists_eq_left', gone, false_or,
      PendingPublication.assemble_carries assembled, grown]
    exact or_right_comm

/-- What holds of all parts and is kept by merging holds of what is delivered. -/
theorem ingest_every {good : ScalarSyncProjection → Prop}
    (closed : ScalarSyncProjection.MergeClosed good) (every : inbox.Every good)
    (clearGood : good clear) (opened : unprotectScalarPart channel part = .ok clear)
    (done : inbox.ingest channel part = (.ok result, next)) :
    next.Every good ∧ ∀ projection, result = some projection → good projection := by
  obtain ⟨filled, included, outcome⟩ := ingest_cases opened done
  have before : (inbox.soFar part).Every good := by
    cases stored : inbox.pending[part.publicationId]? with
    | some pending =>
      rw [soFar, stored]
      exact every part.publicationId pending stored
    | none =>
      rw [soFar, stored]
      intro index fragment absent
      simp at absent
  have filledEvery := PendingPublication.store_every before clearGood included
  rcases outcome with ⟨rfl, rfl⟩ | ⟨projection, assembled, rfl, rfl⟩
  · refine ⟨?_, fun projection impossible => by cases impossible⟩
    intro id pending stored
    by_cases here : id = part.publicationId
    · simp only [here, ExtTreeMap.getElem?_insert_self, Option.some.injEq] at stored
      exact stored ▸ filledEvery
    · exact every id pending ((frame_insert here).symm.trans stored)
  · refine ⟨?_, ?_⟩
    · intro id pending stored
      by_cases here : id = part.publicationId
      · simp [here] at stored
      · exact every id pending ((frame_erase here).symm.trans stored)
    · intro other same
      cases same
      exact PendingPublication.assemble_every closed filledEvery
        (PendingPublication.store_present included) assembled

end MultipartInbox

/-- The transport object opens, as one part, to a projection with the statement. -/
def ObjectCarries (channel : Channel) (encoded : Bytes) (key : DomainKey)
    (revision : ScalarRevision Bytes) :
    Prop :=
  ∃ part projection, decodeProtectedSyncPart encoded = .ok part ∧
    unprotectScalarPart channel part = .ok projection ∧ projection.Carries key revision

end PrivateContinuum.Sync
