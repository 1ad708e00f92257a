import PrivateContinuum.Core.Working

namespace PrivateContinuum.Core

open Std (ExtTreeSet ExtTreeMap)
open PrivateContinuum.Library

variable {Value : Type}

/-- A portable statement frozen before authentication and transport. -/
structure FinalizedStatement (Value : Type) where
  revisionId : RevisionId
  value : Value
  parents : ExtTreeSet RevisionId
deriving DecidableEq

/-- `FinalizedStatement::from` -/
def FinalizedStatement.ofRevision (revision : ScalarRevision Value) : FinalizedStatement Value :=
  ⟨revision.id, revision.value, revision.parents⟩

structure FinalizationSnapshot (Value : Type) where
  localRevisionIds : ExtTreeSet RevisionId
  finalized : ExtTreeMap RevisionId (FinalizedStatement Value)
  exposedLocalIds : ExtTreeSet RevisionId
  handedOffLocalIds : ExtTreeSet RevisionId
deriving DecidableEq

structure FinalizationLedger (Value : Type) where
  localRevisionIds : ExtTreeSet RevisionId
  finalized : ExtTreeMap RevisionId (FinalizedStatement Value)
  exposedLocalIds : ExtTreeSet RevisionId
  handedOffLocalIds : ExtTreeSet RevisionId
deriving DecidableEq

namespace FinalizationLedger

/-- `new` -/
def empty : FinalizationLedger Value := ⟨∅, ∅, ∅, ∅⟩

/-- Adds one identity to the local ones. -/
def own (ledger : FinalizationLedger Value) (revisionId : RevisionId) : FinalizationLedger Value :=
  { ledger with localRevisionIds := ledger.localRevisionIds.insert revisionId }

/-- Adds one finalized statement. -/
def freeze (ledger : FinalizationLedger Value) (revisionId : RevisionId)
    (statement : FinalizedStatement Value) : FinalizationLedger Value :=
  { ledger with finalized := ledger.finalized.insert revisionId statement }

def registerLocal (ledger : FinalizationLedger Value) (causal : ScalarRegister Value)
    (revisionId : RevisionId) : Except CoreError Unit × FinalizationLedger Value :=
  if revisionId ∈ causal then (.ok (), ledger.own revisionId)
  else (.error (.unknownRevision revisionId), ledger)

theorem registerLocal_known {ledger : FinalizationLedger Value} {causal : ScalarRegister Value}
    {id : RevisionId} (known : id ∈ causal) :
    ledger.registerLocal causal id = (.ok (), ledger.own id) := by
  simp [registerLocal, known]

def snapshot (ledger : FinalizationLedger Value) : FinalizationSnapshot Value :=
  ⟨ledger.localRevisionIds, ledger.finalized, ledger.exposedLocalIds, ledger.handedOffLocalIds⟩

/-- The first local revision of the closure that is not finalized, if any. -/
def checkFinalized (ledger : FinalizationLedger Value) (closure : ExtTreeSet RevisionId) :
    Except CoreError Unit :=
  forM (closure.toList.filter (· ∈ ledger.localRevisionIds)) fun revisionId =>
    if revisionId ∈ ledger.finalized then .ok ()
    else .error (.handoffRequiresFinalizedRevision revisionId)

/-- Records exposure of a closure whose direct members were handed off. -/
def expose (ledger : FinalizationLedger Value) (direct closure : ExtTreeSet RevisionId) :
    FinalizationLedger Value where
  localRevisionIds := ledger.localRevisionIds
  finalized := ledger.finalized
  exposedLocalIds :=
    ledger.exposedLocalIds.insertMany (closure.toList.filter (· ∈ ledger.localRevisionIds))
  handedOffLocalIds :=
    ledger.handedOffLocalIds.insertMany (direct.toList.filter (· ∈ ledger.localRevisionIds))

/-- The three subset conditions that `restore` tests first. -/
def subsetsHold (ledger : FinalizationLedger Value) : Bool :=
  ledger.exposedLocalIds.toList.all (· ∈ ledger.localRevisionIds) &&
    ledger.handedOffLocalIds.toList.all (· ∈ ledger.exposedLocalIds) &&
    ledger.finalized.keys.all (· ∈ ledger.localRevisionIds)

/-- Every finalized statement is the causal revision of its identity. -/
def Frozen (ledger : FinalizationLedger Value) (causal : ScalarRegister Value) : Prop :=
  ∀ id statement, ledger.finalized[id]? = some statement →
    ∃ revision, causal.revision id = some revision ∧ statement = .ofRevision revision

/-- What `restore` checks. -/
structure Restorable (ledger : FinalizationLedger Value)
    (causal : ScalarRegister Value) : Prop where
  exposedLocal : ∀ id ∈ ledger.exposedLocalIds, id ∈ ledger.localRevisionIds
  handedOffExposed : ∀ id ∈ ledger.handedOffLocalIds, id ∈ ledger.exposedLocalIds
  finalizedLocal : ∀ id ∈ ledger.finalized, id ∈ ledger.localRevisionIds
  localKnown : ∀ id ∈ ledger.localRevisionIds, id ∈ causal
  causalValid : causal.Valid
  frozen : ledger.Frozen causal

/-- What `restore` does not check and the operations maintain: exposure covers
only finalized revisions and every local revision below them. -/
structure ExposureClosed (ledger : FinalizationLedger Value) (causal : ScalarRegister Value) :
    Prop where
  exposedFinalized : ∀ id ∈ ledger.exposedLocalIds, id ∈ ledger.finalized
  ancestorsExposed : ∀ id ∈ ledger.exposedLocalIds, ∀ ancestor ∈ ledger.localRevisionIds,
    causal.Ancestor ancestor id → ancestor ∈ ledger.exposedLocalIds

theorem subsetsHold_iff {ledger : FinalizationLedger Value} : ledger.subsetsHold = true ↔
    (∀ id ∈ ledger.exposedLocalIds, id ∈ ledger.localRevisionIds) ∧
      (∀ id ∈ ledger.handedOffLocalIds, id ∈ ledger.exposedLocalIds) ∧
        ∀ id ∈ ledger.finalized, id ∈ ledger.localRevisionIds := by
  simp [subsetsHold, and_assoc]

variable [DecidableEq Value]

def finalize (ledger : FinalizationLedger Value) (causal : ScalarRegister Value)
    (revisionId : RevisionId) :
    Except CoreError (FinalizedStatement Value) × FinalizationLedger Value :=
  if revisionId ∉ ledger.localRevisionIds then
    (.error (.unknownLocalRevision revisionId), ledger)
  else match causal.revision revisionId with
    | none => (.error (.unknownRevision revisionId), ledger)
    | some revision =>
      let statement := FinalizedStatement.ofRevision revision
      match ledger.finalized[revisionId]? with
      | some existing =>
        if existing ≠ statement then (.error (.finalizedStatementConflict revisionId), ledger)
        else (.ok existing, ledger)
      | none => (.ok statement, ledger.freeze revisionId statement)

/-- Loop body of `validate_against`. -/
def checkStatement (causal : ScalarRegister Value)
    (entry : RevisionId × FinalizedStatement Value) : Except CoreError Unit :=
  match causal.revision entry.1 with
  | none => .error (.unknownRevision entry.1)
  | some revision =>
    if entry.2 ≠ .ofRevision revision then .error (.finalizedStatementConflict entry.1)
    else .ok ()

def validateAgainst (ledger : FinalizationLedger Value) (causal : ScalarRegister Value) :
    Except CoreError Unit := do
  causal.validate
  forM ledger.finalized.toList (checkStatement causal)

/-- Marks revisions as handed to a transport; every local revision below them
must be finalized. -/
def handoff (ledger : FinalizationLedger Value) (causal : ScalarRegister Value)
    (revisionIds : List RevisionId) : Except CoreError Unit × FinalizationLedger Value :=
  let direct := ExtTreeSet.ofList revisionIds
  let checked := do
    ledger.validateAgainst causal
    let closure ← causal.dependencyClosure direct
    ledger.checkFinalized closure
    pure closure
  match checked with
  | .error failure => (.error failure, ledger)
  | .ok closure => (.ok (), ledger.expose direct closure)

def restore (snapshot : FinalizationSnapshot Value) (causal : ScalarRegister Value) :
    Except CoreError (FinalizationLedger Value) := do
  let ledger : FinalizationLedger Value :=
    ⟨snapshot.localRevisionIds, snapshot.finalized, snapshot.exposedLocalIds,
      snapshot.handedOffLocalIds⟩
  if !ledger.subsetsHold then .error .invalidFinalizationSnapshot
  else
    forM ledger.localRevisionIds.toList fun revisionId =>
      if revisionId ∈ causal then .ok () else .error (.unknownRevision revisionId)
    ledger.validateAgainst causal
    pure ledger

section Specification

variable {ledger : FinalizationLedger Value} {causal : ScalarRegister Value}

theorem checkStatement_ok_iff {entry : RevisionId × FinalizedStatement Value} :
    checkStatement causal entry = .ok () ↔
      ∃ revision, causal.revision entry.1 = some revision ∧ entry.2 = .ofRevision revision := by
  unfold checkStatement
  cases causal.revision entry.1 with
  | none => simp
  | some revision =>
    by_cases same : entry.2 = .ofRevision revision
    · simp [same]
    · simp [same]

theorem validateAgainst_ok_iff :
    ledger.validateAgainst causal = .ok () ↔ causal.Valid ∧ ledger.Frozen causal := by
  simp only [validateAgainst, bind_ok_iff, forM_ok_iff, checkStatement_ok_iff, Prod.forall,
    ExtTreeMap.mem_toList_iff_getElem?_eq_some, Frozen]
  constructor
  · rintro ⟨_, valid, frozen⟩
    exact ⟨valid, frozen⟩
  · rintro ⟨valid, frozen⟩
    exact ⟨(), valid, frozen⟩

theorem restore_ok_iff {image : FinalizationSnapshot Value} :
    restore image causal = .ok ledger ↔ ledger.Restorable causal ∧ ledger.snapshot = image := by
  have known : ∀ locals : ExtTreeSet RevisionId, (forM locals.toList fun revisionId =>
      if revisionId ∈ causal then Except.ok () else .error (CoreError.unknownRevision revisionId)) =
        .ok () ↔ ∀ id ∈ locals, id ∈ causal := by
    simp [forM_ok_iff]
  unfold restore
  constructor
  · intro done
    dsimp only at done
    split at done
    · cases done
    · rename_i bounded
      simp only [Bool.not_eq_true, Bool.not_eq_false'] at bounded
      simp only [bind_ok_iff, pure_eq_ok, Except.ok.injEq] at done
      obtain ⟨⟨⟩, listed, ⟨⟩, validated, same⟩ := done
      subst same
      obtain ⟨valid, frozen⟩ := validateAgainst_ok_iff.mp validated
      obtain ⟨exposed, handedOff, finalized⟩ := subsetsHold_iff.mp bounded
      exact ⟨⟨exposed, handedOff, finalized, (known _).mp listed, valid, frozen⟩, rfl⟩
  · rintro ⟨restorable, rfl⟩
    have bounded : ledger.subsetsHold = true := subsetsHold_iff.mpr
      ⟨restorable.exposedLocal, restorable.handedOffExposed, restorable.finalizedLocal⟩
    have validated := validateAgainst_ok_iff.mpr ⟨restorable.causalValid, restorable.frozen⟩
    simp only [snapshot, bounded, Bool.not_true, Bool.false_eq_true, ↓reduceIte, bind_ok_iff,
      pure_eq_ok]
    exact ⟨(), (known _).mpr restorable.localKnown, (), validated, trivial⟩

theorem finalize_stored {id : RevisionId} {statement : FinalizedStatement Value}
    (returned : (ledger.finalize causal id).1 = .ok statement) :
    (ledger.finalize causal id).2.finalized[id]? = some statement := by
  unfold finalize at returned ⊢
  split at returned
  · cases returned
  · rename_i isLocal
    rw [if_neg isLocal]
    cases found : causal.revision id with
    | none => simp [found] at returned
    | some revision =>
      simp only [found] at returned ⊢
      cases stored : ledger.finalized[id]? with
      | none =>
        simp only [stored, Except.ok.injEq] at returned ⊢
        simp [freeze, returned]
      | some existing =>
        simp only [stored] at returned ⊢
        split at returned
        · cases returned
        · rename_i same
          cases returned
          rw [if_neg same, stored]

end Specification

end FinalizationLedger

end PrivateContinuum.Core
