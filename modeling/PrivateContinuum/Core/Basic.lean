import Mathlib

namespace PrivateContinuum.Core

open Std (ExtTreeSet TransOrd LawfulEqOrd TransCmp LawfulEqCmp)

/-- The identity types that `opaque_id!` declares, and the publication identity
of the sync crate, which has the same shape. -/
inductive IdKind where
  | continuum
  | atom
  | revision
  | workingEpoch
  | publication
deriving DecidableEq

/-- `LOGICAL_ID_BYTES` -/
def logicalIdBytes : Nat := 32

/-- An opaque identity of fixed width. Distinct kinds do not interchange. -/
structure LogicalId (kind : IdKind) where
  bytes : List UInt8
  width : bytes.length = logicalIdBytes
deriving DecidableEq

abbrev ContinuumId := LogicalId .continuum
abbrev AtomId := LogicalId .atom
abbrev RevisionId := LogicalId .revision
abbrev WorkingEpochId := LogicalId .workingEpoch
abbrev PublicationId := LogicalId .publication

variable {kind : IdKind}

/-- Canonical order: unsigned lexicographic order of the bytes. -/
instance : Ord (LogicalId kind) := ⟨fun left right => compare left.bytes right.bytes⟩

instance : TransOrd (LogicalId kind) :=
  inferInstanceAs (TransCmp (compareOn fun id : LogicalId kind => id.bytes))

theorem LogicalId.ext_bytes {left right : LogicalId kind} (same : left.bytes = right.bytes) :
    left = right := by
  cases left
  cases right
  cases same
  rfl

instance : LawfulEqOrd (LogicalId kind) where
  eq_of_compare := fun same => LogicalId.ext_bytes (LawfulEqCmp.eq_of_compare same)

/-- The identity whose last byte is given and whose other bytes are zero. -/
def LogicalId.ofByte (last : UInt8) : LogicalId kind :=
  ⟨List.replicate 31 0 ++ [last], by simp [logicalIdBytes]⟩

/-- `CoreError` -/
inductive CoreError where
  | duplicateRevisionConflict (revisionId : RevisionId)
  | revisionAlreadyKnown (revisionId : RevisionId)
  | unknownRevision (revisionId : RevisionId)
  | missingParent (revisionId parentId : RevisionId)
  | causalCycle (revisionId : RevisionId)
  | duplicateAtomId (atomId : AtomId)
  | continuumMismatch (left right : ContinuumId)
  | workingEpochAlreadyOpen (epochId : WorkingEpochId)
  | noWorkingEpoch
  | dirtyObservationRequiresSeal
  | unexpectedPreObservationRevision (revisionId : RevisionId)
  | invalidWorkingSnapshot
  | unknownLocalRevision (revisionId : RevisionId)
  | finalizedStatementConflict (revisionId : RevisionId)
  | handoffRequiresFinalizedRevision (revisionId : RevisionId)
  | invalidFinalizationSnapshot
deriving DecidableEq

end PrivateContinuum.Core
