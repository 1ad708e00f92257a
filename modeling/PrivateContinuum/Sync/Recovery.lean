import PrivateContinuum.Sync.Projection

/-! The durable record: trusted state, applied cursor and outbox as one unit. -/

namespace PrivateContinuum.Sync

open Std (ExtTreeMap ExtTreeSet)
open PrivateContinuum.Library PrivateContinuum.Core

inductive SyncRecoveryError where
  | invalidMagic
  | unsupportedVersion (version : Nat)
  | unexpectedEof
  | lengthOverflow
  | trailingBytes
  | invalidBoolean
  | emptyTransportCursor
  | emptyOutbox
  | emptyOutboxObject
  | duplicatePublication
  | publicationIdentityCollision
  | unknownOutboxPublication
deriving DecidableEq

/-- Opaque cursor bytes, never empty. -/
abbrev TransportCursor := { bytes : Bytes // bytes ≠ [] }

/-- `TransportCursor::new` -/
def TransportCursor.create (bytes : Bytes) : Except SyncRecoveryError TransportCursor :=
  if filled : bytes ≠ [] then .ok ⟨bytes, filled⟩ else .error .emptyTransportCursor

/-- One protected publication, retained verbatim until it is reconciled. -/
structure DurableOutboxEntry where
  publicationId : PublicationId
  expectedCursor : Option TransportCursor
  objects : List Bytes
deriving DecidableEq

def validateObjects (objects : List Bytes) : Except SyncRecoveryError Unit :=
  if objects.isEmpty then .error .emptyOutbox
  else if objects.any List.isEmpty then .error .emptyOutboxObject
  else .ok ()

/-- The fields are private to the source type; its methods keep every entry under
its own identity, with objects that pass validation. -/
structure DurableSyncRecord where
  trustedState : Bytes
  appliedCursor : Option TransportCursor
  outbox : ExtTreeMap PublicationId DurableOutboxEntry
  keyed : ∀ (id : PublicationId) (entry : DurableOutboxEntry), outbox[id]? = some entry →
    entry.publicationId = id ∧ validateObjects entry.objects = .ok ()

namespace DurableSyncRecord

/-- `DurableSyncRecord::new` -/
def create (trustedState : Bytes) (appliedCursor : Option TransportCursor) : DurableSyncRecord :=
  ⟨trustedState, appliedCursor, ∅, by simp⟩

theorem ext_fields {left right : DurableSyncRecord}
    (trusted : left.trustedState = right.trustedState)
    (applied : left.appliedCursor = right.appliedCursor)
    (entries : ∀ id : PublicationId, left.outbox[id]? = right.outbox[id]?) : left = right := by
  have outboxes : left.outbox = right.outbox := ExtTreeMap.ext_getElem? entries
  cases left
  cases right
  simp_all

instance : DecidableEq DurableSyncRecord := fun left right =>
  decidable_of_iff (left.trustedState = right.trustedState ∧
    left.appliedCursor = right.appliedCursor ∧ left.outbox = right.outbox)
    ⟨fun ⟨trusted, applied, outbox⟩ => ext_fields trusted applied fun _ => by rw [outbox],
      fun same => by rw [same]; exact ⟨rfl, rfl, rfl⟩⟩

def withTrusted (record : DurableSyncRecord) (trustedState : Bytes) : DurableSyncRecord :=
  { record with trustedState }

/-- An entry that repeats a pending one exactly only replaces the trusted state. -/
def prepareOutbox (record : DurableSyncRecord) (exposedTrustedState : Bytes)
    (publicationId : PublicationId) (expectedCursor : Option TransportCursor)
    (objects : List Bytes) :
    Except SyncRecoveryError DurableSyncRecord :=
  match validated : validateObjects objects with
  | .error failure => .error failure
  | .ok () =>
    let entry : DurableOutboxEntry := ⟨publicationId, expectedCursor, objects⟩
    match record.outbox[publicationId]? with
    | some existing =>
      if existing = entry then .ok (record.withTrusted exposedTrustedState)
      else .error .publicationIdentityCollision
    | none => .ok
      { trustedState := exposedTrustedState
        appliedCursor := record.appliedCursor
        outbox := record.outbox.insert publicationId entry
        keyed := by
          intro id stored found
          rw [ExtTreeMap.getElem?_insert] at found
          split at found
          · rename_i here
            cases found
            exact ⟨Std.LawfulEqCmp.eq_of_compare here, validated⟩
          · exact record.keyed id stored found }

def applyReceived (record : DurableSyncRecord) (mergedTrustedState : Bytes)
    (newCursor : TransportCursor) :
    DurableSyncRecord :=
  { record with trustedState := mergedTrustedState, appliedCursor := some newCursor }

def retireOutbox (record : DurableSyncRecord) (publicationId : PublicationId)
    (reconciledTrustedState : Bytes) (newCursor : TransportCursor) :
    Except SyncRecoveryError DurableSyncRecord :=
  if publicationId ∈ record.outbox then .ok
    { trustedState := reconciledTrustedState
      appliedCursor := some newCursor
      outbox := record.outbox.erase publicationId
      keyed := by
        intro id stored found
        rw [ExtTreeMap.getElem?_erase] at found
        split at found
        · cases found
        · exact record.keyed id stored found }
  else .error .unknownOutboxPublication

/-- The loop of `commit_reconciled_outbox_batch`. -/
def retireAll (record : DurableSyncRecord) (publicationIds : ExtTreeSet PublicationId)
    (reconciledTrustedState : Bytes) (newCursor : TransportCursor) :
    Except SyncRecoveryError DurableSyncRecord :=
  publicationIds.toList.foldlM (fun current id =>
    current.retireOutbox id reconciledTrustedState newCursor) record

variable {record next : DurableSyncRecord} {trusted : Bytes} {cursor : TransportCursor}

/-- The record without the named publications, over a new state and cursor. -/
structure Retires (record : DurableSyncRecord) (ids : ExtTreeSet PublicationId) (trusted : Bytes)
    (cursor : TransportCursor) (next : DurableSyncRecord) : Prop where
  trusted : next.trustedState = trusted
  applied : next.appliedCursor = some cursor
  entries : ∀ id : PublicationId, next.outbox[id]? = if id ∈ ids then none else record.outbox[id]?

theorem retireOutbox_ok {id : PublicationId}
    (done : record.retireOutbox id trusted cursor = .ok next) :
    id ∈ record.outbox ∧ next.trustedState = trusted ∧ next.appliedCursor = some cursor ∧
      ∀ other : PublicationId, next.outbox[other]? = if other = id then none
        else record.outbox[other]? := by
  unfold retireOutbox at done
  split at done
  · rename_i known
    cases done
    refine ⟨known, rfl, rfl, ?_⟩
    intro other
    simp [ExtTreeMap.getElem?_erase, eq_comm (a := other)]
  · cases done

theorem retireOutbox_exists {id : PublicationId} (pending : id ∈ record.outbox) :
    ∃ next, record.retireOutbox id trusted cursor = .ok next :=
  ⟨_, if_pos pending⟩

theorem retireListed_ok {ids : List PublicationId}
    (done : ids.foldlM (fun current id => current.retireOutbox id trusted cursor) record = .ok next)
    (nonempty : ids ≠ []) : next.trustedState = trusted ∧ next.appliedCursor = some cursor ∧
      ∀ other : PublicationId, next.outbox[other]? = if other ∈ ids then none
        else record.outbox[other]? := by
  induction ids generalizing record with
  | nil => exact absurd rfl nonempty
  | cons id rest ih =>
    rw [List.foldlM_cons, bind_ok_iff] at done
    obtain ⟨middle, retired, finished⟩ := done
    obtain ⟨_, trustedNow, appliedNow, entries⟩ := retireOutbox_ok retired
    cases rest with
    | nil =>
      cases finished
      exact ⟨trustedNow, appliedNow, fun other => by simp [entries]⟩
    | cons second later =>
      obtain ⟨trustedLast, appliedLast, remaining⟩ := ih finished (by simp)
      refine ⟨trustedLast, appliedLast, ?_⟩
      intro other
      rw [remaining, entries]
      by_cases here : other = id
      · simp [here]
      · simp [here]

/-- Retiring pending publications, each once, never fails. -/
theorem retireListed_exists {ids : List PublicationId} (once : ids.Nodup)
    (pending : ∀ id ∈ ids, id ∈ record.outbox) :
    ∃ next, ids.foldlM (fun current id => current.retireOutbox id trusted cursor) record =
      .ok next := by
  induction ids generalizing record with
  | nil => exact ⟨record, rfl⟩
  | cons id rest ih =>
    obtain ⟨apart, restOnce⟩ := List.nodup_cons.mp once
    have here : id ∈ record.outbox := pending id List.mem_cons_self
    obtain ⟨middle, retired⟩ : ∃ middle, record.retireOutbox id trusted cursor = .ok middle :=
      retireOutbox_exists here
    obtain ⟨_, _, _, entries⟩ := retireOutbox_ok retired
    have remaining : ∀ other ∈ rest, other ∈ middle.outbox := by
      intro other member
      have different : other ≠ id := fun same => apart (same ▸ member)
      have before := pending other (List.mem_cons_of_mem id member)
      rw [ExtTreeMap.mem_iff_isSome_getElem?] at before ⊢
      rw [entries, if_neg different]
      exact before
    obtain ⟨next, finished⟩ := ih restOnce remaining
    refine ⟨next, ?_⟩
    rw [List.foldlM_cons, retired]
    exact finished

theorem retireAll_retires {ids : ExtTreeSet PublicationId} (nonempty : ids.isEmpty = false)
    (done : record.retireAll ids trusted cursor = .ok next) :
    record.Retires ids trusted cursor next := by
  have listed : ids.toList ≠ [] := by
    intro none
    have empty := List.isEmpty_iff.mpr none
    simp [nonempty] at empty
  obtain ⟨trustedNow, appliedNow, entries⟩ := retireListed_ok done listed
  refine ⟨trustedNow, appliedNow, ?_⟩
  intro id
  rw [entries]
  simp

theorem retireOutbox_retires {id : PublicationId}
    (done : record.retireOutbox id trusted cursor = .ok next) :
    record.Retires {id} trusted cursor next := by
  obtain ⟨_, trustedNow, appliedNow, entries⟩ := retireOutbox_ok done
  refine ⟨trustedNow, appliedNow, ?_⟩
  intro other
  rw [entries]
  by_cases here : other = id
  · simp [here]
  · have apart : ¬ other ∈ ({id} : ExtTreeSet PublicationId) := by
      simpa [eq_comm (a := id)] using here
    rw [if_neg here, if_neg apart]

theorem prepareOutbox_ok {id : PublicationId} {expected : Option TransportCursor}
    {objects : List Bytes} (done : record.prepareOutbox trusted id expected objects = .ok next) :
    validateObjects objects = .ok () ∧ next.trustedState = trusted ∧
      next.appliedCursor = record.appliedCursor ∧
      ∀ other : PublicationId, next.outbox[other]? =
        if other = id then some ⟨id, expected, objects⟩ else record.outbox[other]? := by
  unfold prepareOutbox at done
  split at done
  · cases done
  rename_i validated
  refine ⟨validated, ?_⟩
  dsimp only at done
  split at done
  · rename_i existing found
    split at done
    · rename_i same
      cases done
      refine ⟨rfl, rfl, ?_⟩
      intro other
      by_cases here : other = id
      · rw [if_pos here, here, ← same]
        exact found
      · rw [if_neg here]
        rfl
    · cases done
  · cases done
    refine ⟨rfl, rfl, ?_⟩
    intro other
    simp [ExtTreeMap.getElem?_insert, eq_comm (a := other)]

/-- A pending entry survives every preparation as it is. -/
theorem prepareOutbox_keeps {id other : PublicationId} {expected : Option TransportCursor}
    {objects : List Bytes} {entry : DurableOutboxEntry}
    (done : record.prepareOutbox trusted id expected objects = .ok next)
    (pending : record.outbox[other]? = some entry) : next.outbox[other]? = some entry := by
  obtain ⟨validated, _, _, entries⟩ := prepareOutbox_ok done
  rw [entries]
  by_cases here : other = id
  · subst here
    rw [if_pos rfl]
    simp only [prepareOutbox, pending] at done
    split at done
    · cases done
    · split at done
      · rename_i same
        rw [same]
      · cases done
  · rw [if_neg here, pending]

theorem Retires.keeps {ids : ExtTreeSet PublicationId} {id : PublicationId}
    (retired : record.Retires ids trusted cursor next) (apart : id ∉ ids) :
    next.outbox[id]? = record.outbox[id]? := by
  rw [retired.entries, if_neg apart]

end DurableSyncRecord

theorem validateObjects_ok_iff {objects : List Bytes} :
    validateObjects objects = .ok () ↔ objects ≠ [] ∧ ∀ object ∈ objects, object ≠ [] := by
  unfold validateObjects
  by_cases none : objects = []
  · simp [none]
  · by_cases hollow : [] ∈ objects
    · have found : objects.any List.isEmpty = true := by simpa using hollow
      simp only [List.isEmpty_iff, none, found, ↓reduceIte, reduceCtorEq, false_iff]
      exact fun filled => filled.2 [] hollow rfl
    · have filled : ∀ object ∈ objects, object ≠ [] :=
        fun object member empty => hollow (empty ▸ member)
      have found : objects.any List.isEmpty = false := by simpa using filled
      simpa [none, found] using filled

end PrivateContinuum.Sync
