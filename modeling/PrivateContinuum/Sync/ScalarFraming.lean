import PrivateContinuum.Sync.Projection

/-! Byte framing of identities, identity sets and scalar registers. The sync
projection codec and the local recovery codec each have their own copy of these
functions in the source; here they share one, over the error type. -/

namespace PrivateContinuum.Sync

open Std (ExtTreeSet ExtTreeMap)
open PrivateContinuum.Library PrivateContinuum.Core

variable {kind : IdKind}

section Identity

variable {Failure : Type} [FramingFailure Failure]

def writeId (id : LogicalId kind) : Emitter Failure Unit := emit id.bytes

/-- `read_revision_id`, `read_atom_id` and `read_working_epoch_id`. -/
def readId : Parser Failure (LogicalId kind) := do
  let chunk ← readFixed logicalIdBytes
  pure ⟨chunk.1, chunk.2⟩

theorem id_bytes_ne_nil (id : LogicalId kind) : id.bytes ≠ [] := by
  intro empty
  have width := id.width
  simp [empty, logicalIdBytes] at width

theorem emits_id (id : LogicalId kind) : Emits (writeId id : Emitter Failure Unit) id.bytes :=
  emits_emit _

theorem reads_id (id : LogicalId kind) :
    Reads (readId : Parser Failure (LogicalId kind)) id.bytes id := by
  have fixed : Reads (readFixed logicalIdBytes : Parser Failure _) id.bytes ⟨id.bytes, id.width⟩ :=
    reads_fixed ⟨id.bytes, id.width⟩
  exact fixed.last (reads_pure id)

def vecImage (chunk : Bytes) : Bytes := bigEndian 8 chunk.length ++ chunk

theorem emits_vec (chunk : Bytes) :
    Emits (writeBytes chunk : Emitter Failure Unit) (vecImage chunk) :=
  emits_writeBytes chunk

theorem reads_vecImage (chunk : Bytes) :
    Reads (readVec : Parser Failure Bytes) (vecImage chunk) chunk :=
  reads_vec chunk

/-- A count that precedes non-empty items fits where the items fit. -/
theorem reads_counted {Item Value : Type} {items : List Item} {image : Item → Bytes}
    {rest : Nat → Parser Failure Value} {value : Value} (nonempty : ∀ item ∈ items, image item ≠ [])
    (reads : Reads (rest items.length) (items.flatMap image) value) :
    Reads (do let count ← readLen; rest count)
      (bigEndian 8 items.length ++ items.flatMap image) value := by
  apply Reads.ofFits
  intro fits
  have shorter := length_le_flatMap nonempty
  rw [List.length_append] at fits
  exact (reads_len (by omega)).bind reads

end Identity

/-- The failures that reading scalar state adds to those of the framing. -/
class ScalarFailure (Failure : Type) extends FramingFailure Failure where
  duplicateRevisionInSet : Failure
  core : CoreError → Failure

variable {Failure : Type} [ScalarFailure Failure]

/-- A semantic check inside a reader, with its failure wrapped. -/
def coreChecked {Value : Type} (check : Except CoreError Value) : Parser Failure Value :=
  liftM (check.mapError (ScalarFailure.core : CoreError → Failure))

def writeIdSet (ids : ExtTreeSet RevisionId) :
    Emitter Failure Unit := writeCounted ids.toList writeId

/-- Loop body of `read_id_set`. -/
def readSetMember (ids : ExtTreeSet RevisionId) : Parser Failure (ExtTreeSet RevisionId) := do
  let id ← readId
  if id ∈ ids then throw ScalarFailure.duplicateRevisionInSet else pure (ids.insert id)

def readIdSet : Parser Failure (ExtTreeSet RevisionId) := do
  let count ← readLen
  readTimes readSetMember count ∅

/-- Loop body of `write_register`. -/
def writeRevision (revision : ScalarRevision Bytes) : Emitter Failure Unit := do
  writeId revision.id
  writeBytes revision.value
  writeIdSet revision.parents

def readRevision : Parser Failure (ScalarRevision Bytes) := do
  let id ← readId
  let value ← readVec
  let parents ← readIdSet
  pure ⟨id, value, parents⟩

/-- `write_register`, after its validation. -/
def writeRevisions (register : ScalarRegister Bytes) : Emitter Failure Unit :=
  writeCounted register.statements writeRevision

def readRegister : Parser Failure (ScalarRegister Bytes) := do
  let count ← readLen
  let revisions ← readTimes (fun read => do
    let revision ← readRevision; pure (read ++ [revision])) count []
  coreChecked (ScalarRegister.fromRevisions revisions)

def idSetImage (ids : ExtTreeSet RevisionId) : Bytes :=
  bigEndian 8 ids.toList.length ++ ids.toList.flatMap LogicalId.bytes

def revisionImage (revision : ScalarRevision Bytes) : Bytes :=
  revision.id.bytes ++ (vecImage revision.value ++ idSetImage revision.parents)

def registerImage (register : ScalarRegister Bytes) : Bytes :=
  bigEndian 8 register.statements.length ++ register.statements.flatMap revisionImage

theorem emits_idSet (ids : ExtTreeSet RevisionId) :
    Emits (writeIdSet ids : Emitter Failure Unit) (idSetImage ids) :=
  emits_writeCounted (fun id _ => emits_id id) fun id _ => id_bytes_ne_nil id

theorem emits_revision (revision : ScalarRevision Bytes) :
    Emits (writeRevision revision : Emitter Failure Unit) (revisionImage revision) :=
  (emits_id revision.id).seq ((emits_vec revision.value).seq (emits_idSet revision.parents))

theorem emits_revisions (register : ScalarRegister Bytes) :
    Emits (writeRevisions register : Emitter Failure Unit) (registerImage register) := by
  apply emits_writeCounted
  · intro revision _
    exact emits_revision revision
  · intro revision _ empty
    exact id_bytes_ne_nil revision.id (List.append_eq_nil_iff.mp empty).1

theorem reads_coreChecked {Value : Type} {check : Except CoreError Value} {value : Value}
    (passes : check = .ok value) : Reads (coreChecked check : Parser Failure Value) [] value :=
  reads_check (mapError_ok_iff.mpr passes)

private theorem reads_setMember {ids : ExtTreeSet RevisionId} {id : RevisionId} (fresh : id ∉ ids) :
    Reads (readSetMember ids : Parser Failure _) id.bytes (ids.insert id) := by
  refine (reads_id id).last ?_
  rw [if_neg fresh]
  exact reads_pure _

/-- The identities still to be read are distinct and not yet in the set. -/
private def Unread (set : ExtTreeSet RevisionId) (rest : List RevisionId) : Prop :=
  rest.Nodup ∧ ∀ id ∈ rest, id ∉ set

theorem reads_idSet (ids : ExtTreeSet RevisionId) :
    Reads (readIdSet : Parser Failure _) (idSetImage ids) ids := by
  apply reads_counted
  · intro id _
    exact id_bytes_ne_nil id
  · have looped : Reads (readTimes readSetMember ids.toList.length ∅ : Parser Failure _)
        (ids.toList.flatMap LogicalId.bytes)
          (ids.toList.foldl (fun set id => set.insert id) ∅) := by
      apply reads_times Unread
      · intro set id rest ⟨distinct, fresh⟩
        obtain ⟨absent, restDistinct⟩ := List.nodup_cons.mp distinct
        refine ⟨reads_setMember (fresh id List.mem_cons_self), restDistinct, ?_⟩
        intro other member inserted
        rcases ExtTreeSet.mem_insert.mp inserted with same | old
        · exact absent (Std.LawfulEqCmp.eq_of_compare same ▸ member)
        · exact fresh other (List.mem_cons_of_mem id member) old
      · exact ⟨set_toList_nodup ids, by simp⟩
    rwa [set_foldl_insert_toList] at looped

theorem reads_revision (revision : ScalarRevision Bytes) :
    Reads (readRevision : Parser Failure _) (revisionImage revision) revision :=
  (reads_id revision.id).bind
    ((reads_vecImage revision.value).bind ((reads_idSet revision.parents).map _))

theorem reads_register {register : ScalarRegister Bytes} (valid : register.Valid) :
    Reads (readRegister : Parser Failure _) (registerImage register) register := by
  apply reads_counted
  · intro revision _ empty
    exact id_bytes_ne_nil revision.id (List.append_eq_nil_iff.mp empty).1
  · have looped :
        Reads (readTimes (fun read => do let revision ← readRevision; pure (read ++ [revision]))
        register.statements.length [] : Parser Failure (List (ScalarRevision Bytes)))
        (register.statements.flatMap revisionImage)
        (register.statements.foldl (fun read revision => read ++ [revision]) []) := by
      apply reads_times fun _ _ => True
      · intro read revision _ _
        exact ⟨(reads_revision revision).map _, trivial⟩
      · trivial
    rw [foldl_concat, List.nil_append] at looped
    exact looped.last (reads_coreChecked (ScalarRegister.fromRevisions_statements valid))

theorem readRegister_valid {register : ScalarRegister Bytes} {reader rest : Reader}
    (done : (readRegister : Parser Failure _) reader = .ok (register, rest)) : register.Valid := by
  simp only [readRegister, coreChecked, parser_bind_ok_iff, parser_check_ok_iff,
    mapError_ok_iff] at done
  obtain ⟨_, _, _, _, _, _, built, _⟩ := done
  exact (ScalarRegister.fromRevisions_ok built).1

end PrivateContinuum.Sync
