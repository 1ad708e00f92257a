import PrivateContinuum.Core.Finalization

/-! The local state machine of one scalar domain, its operations as one step
function, and what a step can do. -/

namespace PrivateContinuum.Core

open Std (ExtTreeSet ExtTreeMap)
open PrivateContinuum.Library

variable {Value : Type}

structure LocalScalarSnapshot (Value : Type) where
  working : WorkingSnapshot Value
  finalization : FinalizationSnapshot Value
deriving DecidableEq

structure LocalScalarDomain (Value : Type) where
  working : WorkingScalar Value
  finalization : FinalizationLedger Value
deriving DecidableEq

namespace LocalScalarDomain

def fromCausal (causal : ScalarRegister Value) : Except CoreError (LocalScalarDomain Value) := do
  let working ← WorkingScalar.fromCausal causal
  pure ⟨working, .empty⟩

def causal (domain : LocalScalarDomain Value) : ScalarRegister Value := domain.working.causal

def pending (domain : LocalScalarDomain Value) :
    Option (WorkingEpoch Value) := domain.working.pending

def workingValue (domain : LocalScalarDomain Value) : Option Value := domain.working.workingValue

def beginEpoch (domain : LocalScalarDomain Value) (epochId : WorkingEpochId) (value : Value) :
    Except CoreError Unit × LocalScalarDomain Value :=
  let (outcome, working) := domain.working.beginEpoch epochId value
  (outcome, { domain with working })

def updatePending (domain : LocalScalarDomain Value) (value : Value) :
    Except CoreError Unit × LocalScalarDomain Value :=
  let (outcome, working) := domain.working.updatePending value
  (outcome, { domain with working })

def snapshot (domain : LocalScalarDomain Value) : LocalScalarSnapshot Value :=
  ⟨domain.working.snapshot, domain.finalization.snapshot⟩

theorem snapshot_injective {left right : LocalScalarDomain Value}
    (same : left.snapshot = right.snapshot) : left = right := by
  obtain ⟨⟨_, _⟩, ⟨_, _, _, _⟩⟩ := left
  obtain ⟨⟨_, _⟩, ⟨_, _, _, _⟩⟩ := right
  simp only [snapshot, WorkingScalar.snapshot, FinalizationLedger.snapshot,
    LocalScalarSnapshot.mk.injEq, WorkingSnapshot.mk.injEq, FinalizationSnapshot.mk.injEq] at same
  obtain ⟨⟨rfl, rfl⟩, rfl, rfl, rfl, rfl⟩ := same
  rfl

variable [DecidableEq Value]

def sealLocal (domain : LocalScalarDomain Value) (revisionId : RevisionId) :
    Except CoreError (ScalarRevision Value) × LocalScalarDomain Value :=
  match domain.working.sealEpoch revisionId with
  | (.error failure, working) => (.error failure, { domain with working })
  | (.ok revision, working) =>
    match domain.finalization.registerLocal working.causal revisionId with
    | (.error failure, finalization) => (.error failure, ⟨working, finalization⟩)
    | (.ok (), finalization) => (.ok revision, ⟨working, finalization⟩)

/-- A revision sealed before the merge is registered as local after it. -/
def observeRemote (domain : LocalScalarDomain Value) (remote : ScalarRegister Value)
    (preObservationRevisionId : Option RevisionId) :
    Except CoreError (Option (ScalarRevision Value)) × LocalScalarDomain Value :=
  match domain.working.observeRemote remote preObservationRevisionId with
  | (.error failure, working) => (.error failure, { domain with working })
  | (.ok none, working) => (.ok none, { domain with working })
  | (.ok (some revision), working) =>
    match domain.finalization.registerLocal working.causal revision.id with
    | (.error failure, finalization) => (.error failure, ⟨working, finalization⟩)
    | (.ok (), finalization) => (.ok (some revision), ⟨working, finalization⟩)

def finalize (domain : LocalScalarDomain Value) (revisionId : RevisionId) :
    Except CoreError (FinalizedStatement Value) × LocalScalarDomain Value :=
  let (outcome, finalization) := domain.finalization.finalize domain.causal revisionId
  (outcome, { domain with finalization })

def handoff (domain : LocalScalarDomain Value) (revisionIds : List RevisionId) :
    Except CoreError Unit × LocalScalarDomain Value :=
  let (outcome, finalization) := domain.finalization.handoff domain.causal revisionIds
  (outcome, { domain with finalization })

def restore (snapshot : LocalScalarSnapshot Value) :
    Except CoreError (LocalScalarDomain Value) := do
  let working ← WorkingScalar.restore snapshot.working
  let finalization ← FinalizationLedger.restore snapshot.finalization working.causal
  pure ⟨working, finalization⟩

end LocalScalarDomain

/-- The operations of a local scalar domain. `reopen` takes a snapshot and
restores it. -/
inductive Operation (Value : Type) where
  | beginEpoch (epochId : WorkingEpochId) (value : Value)
  | updatePending (value : Value)
  | sealLocal (revisionId : RevisionId)
  | observeRemote (remote : ScalarRegister Value) (preObservationRevisionId : Option RevisionId)
  | finalize (revisionId : RevisionId)
  | handoff (revisionIds : List RevisionId)
  | reopen

/-- What an operation returns on success. -/
inductive Response (Value : Type) where
  | done
  | sealed (revision : Option (ScalarRevision Value))
  | finalized (statement : FinalizedStatement Value)
deriving DecidableEq

namespace LocalScalarDomain

variable [DecidableEq Value]

/-- One operation: its outcome and the state it leaves. A restart keeps the
restored state and is without effect when `restore` refuses. -/
def step (domain : LocalScalarDomain Value) :
    Operation Value → Except CoreError (Response Value) × LocalScalarDomain Value
  | .beginEpoch epochId value => (domain.beginEpoch epochId value).map (·.map fun _ => .done) id
  | .updatePending value => (domain.updatePending value).map (·.map fun _ => .done) id
  | .sealLocal revisionId =>
    (domain.sealLocal revisionId).map (·.map fun revision => .sealed (some revision)) id
  | .observeRemote remote revisionId =>
    (domain.observeRemote remote revisionId).map (·.map .sealed) id
  | .finalize revisionId => (domain.finalize revisionId).map (·.map .finalized) id
  | .handoff revisionIds => (domain.handoff revisionIds).map (·.map fun _ => .done) id
  | .reopen => match restore domain.snapshot with
    | .error failure => (.error failure, domain)
    | .ok restored => (.ok .done, restored)

/-- The state after a sequence of operations, each kept whatever its outcome. -/
def run (domain : LocalScalarDomain Value) (operations : List (Operation Value)) :
    LocalScalarDomain Value :=
  operations.foldl (fun current operation => (current.step operation).2) domain

/-- A state that some run from `from_causal` passes through. -/
def Reachable (domain : LocalScalarDomain Value) : Prop :=
  ∃ causal initial operations, fromCausal causal = .ok initial ∧ domain = initial.run operations

/-- Everything a step can do: the outcome it reports and the state it leaves. -/
inductive Effect (domain : LocalScalarDomain Value) :
    Operation Value → Except CoreError (Response Value) → LocalScalarDomain Value → Prop where
  | refused (operation : Operation Value) (failure : CoreError) :
      Effect domain operation (.error failure) domain
  | kept (operation : Operation Value) (response : Response Value) :
      Effect domain operation (.ok response) domain
  | opened (epochId : WorkingEpochId) (value : Value) (idle : domain.pending = none) :
      Effect domain (.beginEpoch epochId value) (.ok .done)
        ⟨⟨domain.causal, some ⟨epochId, value, domain.causal.frontierIds⟩⟩, domain.finalization⟩
  | updated (epoch : WorkingEpoch Value) (value : Value) (dirty : domain.pending = some epoch) :
      Effect domain (.updatePending value) (.ok .done)
        ⟨⟨domain.causal, some { epoch with value }⟩, domain.finalization⟩
  | sealed (epoch : WorkingEpoch Value) (id : RevisionId) (dirty : domain.pending = some epoch)
      (extension : domain.causal.Extends (epoch.sealedAs id)) :
      Effect domain (.sealLocal id) (.ok (.sealed (some (epoch.sealedAs id))))
        ⟨⟨domain.causal.put (epoch.sealedAs id), none⟩, domain.finalization.own id⟩
  | observed (remote merged : ScalarRegister Value) (idle : domain.pending = none)
      (done : domain.causal.merge remote = .ok merged) :
      Effect domain (.observeRemote remote none) (.ok (.sealed none))
        ⟨⟨merged, none⟩, domain.finalization⟩
  | sealedThenObserved (epoch : WorkingEpoch Value) (id : RevisionId)
      (remote merged : ScalarRegister Value) (dirty : domain.pending = some epoch)
      (extension : domain.causal.Extends (epoch.sealedAs id))
      (done : (domain.causal.put (epoch.sealedAs id)).merge remote = .ok merged) :
      Effect domain (.observeRemote remote (some id)) (.ok (.sealed (some (epoch.sealedAs id))))
        ⟨⟨merged, none⟩, domain.finalization.own id⟩
  | stranded (epoch : WorkingEpoch Value) (id : RevisionId) (remote : ScalarRegister Value)
      (failure : CoreError) (valid : remote.Valid) (dirty : domain.pending = some epoch)
      (extension : domain.causal.Extends (epoch.sealedAs id))
      (conflict : (domain.causal.put (epoch.sealedAs id)).merge remote = .error failure) :
      Effect domain (.observeRemote remote (some id)) (.error failure)
        ⟨⟨domain.causal.put (epoch.sealedAs id), none⟩, domain.finalization⟩
  | froze (id : RevisionId) (revision : ScalarRevision Value)
      (isLocal : id ∈ domain.finalization.localRevisionIds)
      (found : domain.causal.revision id = some revision)
      (absent : domain.finalization.finalized[id]? = none) :
      Effect domain (.finalize id) (.ok (.finalized (.ofRevision revision)))
        ⟨domain.working, domain.finalization.freeze id (.ofRevision revision)⟩
  | exposed (ids : List RevisionId) (closure : ExtTreeSet RevisionId)
      (closed : domain.causal.dependencyClosure (.ofList ids) = .ok closure)
      (finalized : domain.finalization.checkFinalized closure = .ok ()) :
      Effect domain (.handoff ids) (.ok .done)
        ⟨domain.working, domain.finalization.expose (.ofList ids) closure⟩

/-- The step of an operation has one of the effects of that operation. -/
def Explained (domain : LocalScalarDomain Value) (operation : Operation Value) : Prop :=
  domain.Effect operation (domain.step operation).1 (domain.step operation).2

theorem beginEpoch_effect (domain : LocalScalarDomain Value) (epochId : WorkingEpochId)
    (value : Value) : domain.Explained (.beginEpoch epochId value) := by
  simp only [Explained, step, beginEpoch, WorkingScalar.beginEpoch]
  cases dirty : domain.working.pending with
  | some epoch => exact .refused _ _
  | none => exact .opened epochId value dirty

theorem updatePending_effect (domain : LocalScalarDomain Value) (value : Value) :
    domain.Explained (.updatePending value) := by
  simp only [Explained, step, updatePending, WorkingScalar.updatePending]
  cases dirty : domain.working.pending with
  | none => exact .refused _ _
  | some epoch => exact .updated epoch value dirty

theorem sealLocal_effect (domain : LocalScalarDomain Value) (id : RevisionId) :
    domain.Explained (.sealLocal id) := by
  simp only [Explained, step, sealLocal]
  rcases domain.working.sealEpoch_cases id with ⟨failure, refused⟩ | ⟨epoch, dirty, extension, done⟩
  · rw [refused]
    exact .refused _ failure
  · have known : id ∈ domain.working.causal.put (epoch.sealedAs id) := by
      simp [ScalarRegister.mem_put, WorkingEpoch.sealedAs]
    rw [done]
    simp only [FinalizationLedger.registerLocal_known known]
    exact .sealed epoch id dirty extension

theorem observeRemote_effect (domain : LocalScalarDomain Value) (remote : ScalarRegister Value)
    (pre : Option RevisionId) : domain.Explained (.observeRemote remote pre) := by
  simp only [Explained, step, observeRemote]
  rcases domain.working.observeRemote_cases remote pre with ⟨failure, refused⟩ |
    ⟨rfl, merged, idle, done, observed⟩ |
    ⟨epoch, id, rfl, dirty, extension, merged, done, observed⟩ |
    ⟨epoch, id, rfl, valid, dirty, extension, failure, conflict, stopped⟩
  · rw [refused]
    exact .refused _ failure
  · rw [observed]
    exact .observed remote merged idle done
  · have known : (epoch.sealedAs id).id ∈ merged :=
      ScalarRegister.mem_of_le (ScalarRegister.left_le_merge done) (by simp)
    rw [observed]
    simp only [FinalizationLedger.registerLocal_known known]
    exact .sealedThenObserved epoch id remote merged dirty extension done
  · rw [stopped]
    exact .stranded epoch id remote failure valid dirty extension conflict

theorem finalize_effect (domain : LocalScalarDomain Value) (id : RevisionId) :
    domain.Explained (.finalize id) := by
  simp only [Explained, step, finalize, FinalizationLedger.finalize]
  split
  · exact .refused _ _
  · rename_i isLocal
    cases found : domain.causal.revision id with
    | none => exact .refused _ _
    | some revision =>
      dsimp only
      cases absent : domain.finalization.finalized[id]? with
      | none => exact .froze id revision (by simpa using isLocal) found absent
      | some existing =>
        dsimp only
        split
        · exact .refused _ _
        · exact .kept _ _

theorem handoff_effect (domain : LocalScalarDomain Value) (ids : List RevisionId) :
    domain.Explained (.handoff ids) := by
  simp only [Explained, step, handoff, FinalizationLedger.handoff]
  split
  · rename_i failure _
    exact .refused _ failure
  · rename_i closure checked
    simp only [bind_ok_iff, pure_eq_ok, Except.ok.injEq] at checked
    obtain ⟨_, _, _, closed, _, finalized, same⟩ := checked
    subst same
    exact .exposed ids _ closed finalized

theorem restore_ok_iff {image : LocalScalarSnapshot Value} {domain : LocalScalarDomain Value} :
    restore image = .ok domain ↔ domain.snapshot = image ∧
      WorkingScalar.FrontierCurrent domain.causal domain.pending ∧
        domain.finalization.Restorable domain.causal := by
  obtain ⟨working, finalization⟩ := domain
  obtain ⟨workingImage, finalizationImage⟩ := image
  simp only [restore, bind_ok_iff, pure_eq_ok, Except.ok.injEq, mk.injEq,
    WorkingScalar.restore_ok_iff, FinalizationLedger.restore_ok_iff, snapshot, causal, pending,
    LocalScalarSnapshot.mk.injEq]
  constructor
  · rintro ⟨_, ⟨_, current, rfl⟩, _, ⟨restorable, rfl⟩, rfl, rfl⟩
    exact ⟨⟨rfl, rfl⟩, current, restorable⟩
  · rintro ⟨⟨rfl, rfl⟩, current, restorable⟩
    exact ⟨working, ⟨restorable.causalValid, current, rfl⟩, finalization,
      ⟨restorable, rfl⟩, rfl, rfl⟩

theorem reopen_effect (domain : LocalScalarDomain Value) :
    domain.Explained .reopen := by
  simp only [Explained, step]
  split
  · rename_i failure _
    exact .refused _ failure
  · rename_i restored done
    rw [snapshot_injective (restore_ok_iff.mp done).1]
    exact .kept _ .done

/-- Every operation has one of the listed effects. -/
theorem step_effect (domain : LocalScalarDomain Value) (operation : Operation Value) :
    domain.Explained operation := by
  cases operation with
  | beginEpoch epochId value => exact domain.beginEpoch_effect epochId value
  | updatePending value => exact domain.updatePending_effect value
  | sealLocal id => exact domain.sealLocal_effect id
  | observeRemote remote pre => exact domain.observeRemote_effect remote pre
  | finalize id => exact domain.finalize_effect id
  | handoff ids => exact domain.handoff_effect ids
  | reopen => exact domain.reopen_effect

end LocalScalarDomain

end PrivateContinuum.Core
