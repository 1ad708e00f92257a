import PrivateContinuum.Core.ScalarMerge

/-! Local working state over one scalar register. Every mutating operation
returns its outcome together with the state it leaves behind, also when it
fails. -/

namespace PrivateContinuum.Core

open Std (ExtTreeSet ExtTreeMap)

variable {Value : Type}

/-- One local editing epoch that is not yet a portable causal revision. -/
structure WorkingEpoch (Value : Type) where
  id : WorkingEpochId
  value : Value
  observedFrontier : ExtTreeSet RevisionId
deriving DecidableEq

structure WorkingSnapshot (Value : Type) where
  causal : ScalarRegister Value
  pending : Option (WorkingEpoch Value)
deriving DecidableEq

structure WorkingScalar (Value : Type) where
  causal : ScalarRegister Value
  pending : Option (WorkingEpoch Value)
deriving DecidableEq

/-- The revision that sealing an epoch under an identity creates. -/
def WorkingEpoch.sealedAs (epoch : WorkingEpoch Value) (revisionId : RevisionId) :
    ScalarRevision Value :=
  ⟨revisionId, epoch.value, epoch.observedFrontier⟩

namespace WorkingScalar

def fromCausal (causal : ScalarRegister Value) : Except CoreError (WorkingScalar Value) := do
  causal.validate
  pure ⟨causal, none⟩

def workingValue (working : WorkingScalar Value) : Option Value :=
  (working.pending.map WorkingEpoch.value).or working.causal.materialized

/-- Captures the frontier that is observable when the epoch begins. -/
def beginEpoch (working : WorkingScalar Value) (epochId : WorkingEpochId) (value : Value) :
    Except CoreError Unit × WorkingScalar Value :=
  match working.pending with
  | some pending => (.error (.workingEpochAlreadyOpen pending.id), working)
  | none => (.ok (), { working with pending := some ⟨epochId, value, working.causal.frontierIds⟩ })

def updatePending (working : WorkingScalar Value) (value : Value) :
    Except CoreError Unit × WorkingScalar Value :=
  match working.pending with
  | none => (.error .noWorkingEpoch, working)
  | some pending => (.ok (), { working with pending := some { pending with value } })

def snapshot (working : WorkingScalar Value) : WorkingSnapshot Value :=
  ⟨working.causal, working.pending⟩

def restore (snapshot : WorkingSnapshot Value) : Except CoreError (WorkingScalar Value) := do
  snapshot.causal.validate
  if snapshot.pending.any fun pending => pending.observedFrontier ≠ snapshot.causal.frontierIds then
    .error .invalidWorkingSnapshot
  else
    .ok ⟨snapshot.causal, snapshot.pending⟩

/-- The pending epoch is absent or still rests on the current frontier. -/
def FrontierCurrent (causal : ScalarRegister Value)
    (pending : Option (WorkingEpoch Value)) : Prop :=
  ∀ epoch, pending = some epoch → epoch.observedFrontier = causal.frontierIds

theorem restore_ok_iff {image : WorkingSnapshot Value} {working : WorkingScalar Value} :
    restore image = .ok working ↔ image.causal.Valid ∧
      FrontierCurrent image.causal image.pending ∧ working.snapshot = image := by
  have current : (image.pending.any fun pending =>
      pending.observedFrontier ≠ image.causal.frontierIds) = false ↔
        FrontierCurrent image.causal image.pending := by
    simp [Option.any_eq_false, FrontierCurrent]
  simp only [restore, Library.bind_ok_iff]
  constructor
  · rintro ⟨⟨⟩, valid, checked⟩
    split at checked
    · cases checked
    · rename_i fresh
      cases checked
      exact ⟨valid, current.mp (by simpa using fresh), rfl⟩
  · rintro ⟨valid, fresh, rfl⟩
    refine ⟨(), valid, ?_⟩
    rw [current.mpr fresh]
    rfl

variable [DecidableEq Value]

/-- `seal`: turns the pending epoch into one causal revision. -/
def sealEpoch (working : WorkingScalar Value) (revisionId : RevisionId) :
    Except CoreError (ScalarRevision Value) × WorkingScalar Value :=
  if revisionId ∈ working.causal then (.error (.revisionAlreadyKnown revisionId), working)
  else match working.pending with
    | none => (.error .noWorkingEpoch, working)
    | some pending =>
      let revision := pending.sealedAs revisionId
      match working.causal.insertRevision revision with
      | .error failure => (.error failure, working)
      | .ok causal => (.ok revision, ⟨causal, none⟩)

/-- Last step of `observe_remote`: the merge, after the pre-observation seal. -/
def absorbRemote (working : WorkingScalar Value) (remote : ScalarRegister Value)
    (sealed : Option (ScalarRevision Value)) :
    Except CoreError (Option (ScalarRevision Value)) × WorkingScalar Value :=
  match working.causal.merge remote with
  | .error failure => (.error failure, working)
  | .ok causal => (.ok sealed, { working with causal })

/-- Makes remote state observable; a pending epoch is sealed before the merge. -/
def observeRemote (working : WorkingScalar Value) (remote : ScalarRegister Value)
    (preObservationRevisionId : Option RevisionId) :
    Except CoreError (Option (ScalarRevision Value)) × WorkingScalar Value :=
  match remote.validate with
  | .error failure => (.error failure, working)
  | .ok () =>
    match working.pending, preObservationRevisionId with
    | some _, some revisionId =>
      match working.sealEpoch revisionId with
      | (.error failure, next) => (.error failure, next)
      | (.ok revision, next) => next.absorbRemote remote (some revision)
    | some _, none => (.error .dirtyObservationRequiresSeal, working)
    | none, some revisionId => (.error (.unexpectedPreObservationRevision revisionId), working)
    | none, none => working.absorbRemote remote none

/-- A seal either changes nothing or adds one revision over the observed
frontier and closes the epoch. -/
theorem sealEpoch_cases (working : WorkingScalar Value) (id : RevisionId) :
    (∃ failure, working.sealEpoch id = (.error failure, working)) ∨
      ∃ epoch, working.pending = some epoch ∧ working.causal.Extends (epoch.sealedAs id) ∧
        working.sealEpoch id =
          (.ok (epoch.sealedAs id), ⟨working.causal.put (epoch.sealedAs id), none⟩) := by
  unfold sealEpoch
  split
  · exact Or.inl ⟨_, rfl⟩
  · rename_i fresh
    cases dirty : working.pending with
    | none => exact Or.inl ⟨_, rfl⟩
    | some epoch =>
      dsimp only
      cases inserted : working.causal.insertRevision (epoch.sealedAs id) with
      | error failure => exact Or.inl ⟨failure, rfl⟩
      | ok causal =>
        obtain ⟨extension, same⟩ := (ScalarRegister.insertRevision_ok_iff fresh).mp inserted
        exact Or.inr ⟨epoch, rfl, extension, by rw [same]⟩

/-- An observation is refused without a change, merges into a clean state, seals
and merges, or seals and then fails to merge. -/
theorem observeRemote_cases (working : WorkingScalar Value) (remote : ScalarRegister Value)
    (pre : Option RevisionId) :
    (∃ failure, working.observeRemote remote pre = (.error failure, working)) ∨
    (pre = none ∧ ∃ merged, working.pending = none ∧ working.causal.merge remote = .ok merged ∧
      working.observeRemote remote pre = (.ok none, ⟨merged, none⟩)) ∨
    (∃ epoch id, pre = some id ∧ working.pending = some epoch ∧
      working.causal.Extends (epoch.sealedAs id) ∧
      ∃ merged, (working.causal.put (epoch.sealedAs id)).merge remote = .ok merged ∧
        working.observeRemote remote pre = (.ok (some (epoch.sealedAs id)), ⟨merged, none⟩)) ∨
    ∃ epoch id, pre = some id ∧ remote.Valid ∧ working.pending = some epoch ∧
      working.causal.Extends (epoch.sealedAs id) ∧
      ∃ failure, (working.causal.put (epoch.sealedAs id)).merge remote = .error failure ∧
        working.observeRemote remote pre =
          (.error failure, ⟨working.causal.put (epoch.sealedAs id), none⟩) := by
  unfold observeRemote
  split
  · exact Or.inl ⟨_, rfl⟩
  · rename_i valid
    split
    · rename_i id dirty
      rcases working.sealEpoch_cases id with ⟨failure, refused⟩ | ⟨epoch, found, extension, done⟩
      · exact Or.inl ⟨failure, by rw [refused]⟩
      · right; right
        rw [done]
        simp only [absorbRemote]
        cases merging : (working.causal.put (epoch.sealedAs id)).merge remote with
        | ok merged => exact Or.inl ⟨epoch, id, rfl, found, extension, merged, merging, rfl⟩
        | error failure =>
          exact Or.inr ⟨epoch, id, rfl, valid, found, extension, failure, merging, rfl⟩
    · exact Or.inl ⟨_, rfl⟩
    · exact Or.inl ⟨_, rfl⟩
    · rename_i idle
      simp only [absorbRemote]
      cases merging : working.causal.merge remote with
      | ok merged => exact Or.inr (Or.inl ⟨trivial, merged, idle, rfl, by rw [idle]⟩)
      | error failure => exact Or.inl ⟨failure, rfl⟩

end WorkingScalar

end PrivateContinuum.Core
