import PrivateContinuum.Reference.Causality

/-! Private histories of the reference model: which revisions may have left the replica,
which are frozen, and how private ones that something follows are squashed. -/

namespace PrivateContinuum.Reference

open Std (ExtTreeSet)
open PrivateContinuum.Library

/-- What the operations raise, by message. `register` is raised by the causal register. -/
inductive LedgerError where
  | register (failure : ModelError)
  | privateUnknown
  | exposedUnknown
  | exposingUnknown
  | localUnknown
  | finalizedForeign
  | handoffUnfinalized
  | finalizedRemoved
  | finalizedRewritten
  | revisionExists
  | parentsUnknown (missing : List String)
  | finalizingForeign
  | finalizingRemoved
  | finalizedChanged
  | handingOffUnknown
  | closureUnfinalized
  | squashFinalized
deriving DecidableEq

namespace FrontierCausalRegister

variable {Value : Type}

/-- The walk of `_ancestor_closure` and `_local_ancestor_closure`, which raise different errors. -/
def closureWalk (register : FrontierCausalRegister Value) (absent : LedgerError) :
    Worklist String LedgerError where
  halt _ := none
  expand := fun revisionId => match register.revisions.get revisionId with
    | some revision => .ok revision.parents.toList
    | none => .error absent
  nodes := register.revisions.keys
  finite := by
    intro node successors expanded _
    cases found : register.revisions.get node with
    | none => simp [found] at expanded
    | some revision => exact Dict.mem_keys.mpr ⟨revision, found⟩

def ancestorClosure (register : FrontierCausalRegister Value) (absent : LedgerError)
    (revisionIds : ExtTreeSet String) :
    Except LedgerError (ExtTreeSet String) :=
  (register.closureWalk absent).explore ∅ revisionIds.toList.reverse

/-- The walk of `boundary_parents`: it goes on behind removable revisions. -/
def boundaryWalk (register : FrontierCausalRegister Value) (removable : ExtTreeSet String) :
    Worklist String ModelError where
  halt _ := none
  expand := fun parent => if parent ∈ removable then register.parentsOf parent else .ok []
  nodes := register.revisions.keys
  finite := by
    intro node successors expanded nonempty
    split at expanded
    · rw [parentsOf] at expanded
      split at expanded
      · rename_i revision found
        exact Dict.mem_keys.mpr ⟨revision, found⟩
      · cases expanded
    · cases expanded
      exact absurd rfl nonempty

/-- The inner loop that looks for a later revision of the boundary. -/
def superseded (register : FrontierCausalRegister Value) (boundary : List String)
    (candidate : String) : Except ModelError Bool :=
  boundary.anyM fun other => if candidate = other then pure false
    else register.isAncestor candidate other

/-- `boundary_parents`, reduced to the latest ones. -/
def boundaryParents (register : FrontierCausalRegister Value)
    (removable parents : ExtTreeSet String) :
    Except ModelError (ExtTreeSet String) := do
  let seen ← (register.boundaryWalk removable).explore ∅ parents.toList.reverse
  let boundary := seen.toList.filter fun parent => parent ∉ removable
  let reduced ← boundary.filterM fun candidate => do
    pure (!(← register.superseded boundary candidate))
  pure (ExtTreeSet.ofList reduced)

/-- One round of the loop that rewrites the revisions that stay. -/
def rewriteEntry (register : FrontierCausalRegister Value) (removable : ExtTreeSet String)
    (rewritten : Dict String (FrontierRevision Value)) (entry : String × FrontierRevision Value) :
    Except ModelError (Dict String (FrontierRevision Value)) := do
  let parents ← register.boundaryParents removable entry.2.parents
  let revision ← FrontierRevision.create entry.2.revisionId entry.2.value parents
  pure (rewritten.set entry.1 revision)

def rewrite (register : FrontierCausalRegister Value) (removable : ExtTreeSet String) :
    Except ModelError (Dict String (FrontierRevision Value)) :=
  (register.revisions.filter fun revisionId => revisionId ∉ removable).items.foldlM
    (register.rewriteEntry removable) Dict.empty

end FrontierCausalRegister

structure ExposureAwareCausalState (Value : Type) where
  causal : FrontierCausalRegister Value
  privateLocalIds : ExtTreeSet String
  exposedIds : ExtTreeSet String

structure SquashResult (Value : Type) where
  state : ExposureAwareCausalState Value
  removedIds : ExtTreeSet String

namespace ExposureAwareCausalState

variable {Value : Type}

/-- `__post_init__` -/
def create (causal : FrontierCausalRegister Value)
    (privateLocalIds exposedIds : ExtTreeSet String) :
    Except LedgerError (ExposureAwareCausalState Value) := do
  causal.validate.mapError .register
  if privateLocalIds.toList.any (· ∉ causal.revisions.keys) then throw .privateUnknown
  if exposedIds.toList.any (· ∉ causal.revisions.keys) then throw .exposedUnknown
  pure ⟨causal, privateLocalIds, exposedIds⟩

def copy (state : ExposureAwareCausalState Value) :
    Except LedgerError (ExposureAwareCausalState Value) :=
  create state.causal state.privateLocalIds state.exposedIds

def markExposed (state : ExposureAwareCausalState Value) (revisionIds : ExtTreeSet String) :
    Except LedgerError (ExposureAwareCausalState Value) := do
  let closure ← state.causal.ancestorClosure .exposingUnknown revisionIds
  pure ⟨state.causal, state.privateLocalIds.filter (· ∉ closure),
    state.exposedIds.insertMany closure.toList⟩

/-- The private revisions that are not exposed and that another revision follows. -/
def removable (state : ExposureAwareCausalState Value) : ExtTreeSet String :=
  state.privateLocalIds.filter fun revisionId => revisionId ∉ state.exposedIds ∧
    revisionId ∉ state.causal.frontier.keys

def squashUnexposedDominated (state : ExposureAwareCausalState Value) :
    Except LedgerError (SquashResult Value) :=
  if state.removable.isEmpty then do
    let same ← state.copy
    pure ⟨same, ∅⟩
  else do
    let rewritten ← (state.causal.rewrite state.removable).mapError .register
    let compact : FrontierCausalRegister Value := ⟨rewritten⟩
    compact.validate.mapError .register
    let result ← create compact
      (state.privateLocalIds.filter (· ∉ state.removable)) state.exposedIds
    pure ⟨result, state.removable⟩

end ExposureAwareCausalState

/-- What would be authenticated of a revision. -/
structure FinalizedStatement (Value : Type) where
  revisionId : String
  value : Value
  parents : ExtTreeSet String
deriving DecidableEq

/-- `from_revision` -/
def FinalizedStatement.fromRevision {Value : Type} (revision : FrontierRevision Value) :
    FinalizedStatement Value :=
  ⟨revision.revisionId, revision.value, revision.parents⟩

structure FinalizationSnapshot (Value : Type) where
  causal : FrontierCausalRegister Value
  localIds : ExtTreeSet String
  privateLocalIds : ExtTreeSet String
  exposedIds : ExtTreeSet String
  finalized : Dict String (FinalizedStatement Value)
  handedOffIds : ExtTreeSet String
  signingTransitionCount : Nat

structure FinalizationLedger (Value : Type) where
  state : ExposureAwareCausalState Value
  localIds : ExtTreeSet String
  finalized : Dict String (FinalizedStatement Value)
  handedOffIds : ExtTreeSet String
  signingTransitionCount : Nat

/-- The public operations, and a restart from a snapshot. -/
inductive LedgerCall (Value : Type) where
  | appendLocal (revisionId : String) (value : Value) (parents : Option (ExtTreeSet String))
  | mergeRemote (remote : FrontierCausalRegister Value)
  | finalize (revisionId : String)
  | handoff (revisionIds : ExtTreeSet String)
  | squashPrivate
  | reopen

namespace FinalizationLedger

variable {Value : Type}

def snapshot (ledger : FinalizationLedger Value) : FinalizationSnapshot Value where
  causal := ledger.state.causal
  localIds := ledger.localIds
  privateLocalIds := ledger.state.privateLocalIds
  exposedIds := ledger.state.exposedIds
  finalized := ledger.finalized
  handedOffIds := ledger.handedOffIds
  signingTransitionCount := ledger.signingTransitionCount

/-- `_local_ancestor_closure` -/
def localAncestorClosure (ledger : FinalizationLedger Value) (revisionIds : ExtTreeSet String) :
    Except LedgerError (ExtTreeSet String) := do
  let closure ← ledger.state.causal.ancestorClosure .handingOffUnknown revisionIds
  pure (closure.filter (· ∈ ledger.localIds))

variable [DecidableEq Value]

/-- `_validate_finalized_statements` -/
def validateFinalizedStatements (ledger : FinalizationLedger Value) : Except LedgerError Unit :=
  forM ledger.finalized.items fun entry => match ledger.state.causal.revisions.get entry.1 with
    | none => .error .finalizedRemoved
    | some revision => if entry.2 ≠ .fromRevision revision then .error .finalizedRewritten
        else .ok ()

/-- `__post_init__` -/
def create (ledger : FinalizationLedger Value) : Except LedgerError (FinalizationLedger Value) := do
  if ledger.localIds.toList.any (· ∉ ledger.state.causal.revisions.keys) then throw .localUnknown
  if ledger.finalized.keys.any (· ∉ ledger.localIds) then throw .finalizedForeign
  if ledger.handedOffIds.toList.any (· ∉ ledger.finalized.keys) then throw .handoffUnfinalized
  ledger.validateFinalizedStatements
  pure ledger

def fromCausal (causal : FrontierCausalRegister Value) :
    Except LedgerError (FinalizationLedger Value) := do
  causal.validate.mapError .register
  let state ← ExposureAwareCausalState.create causal ∅ ∅
  create ⟨state, ∅, Dict.empty, ∅, 0⟩

def restore (snapshot : FinalizationSnapshot Value) :
    Except LedgerError (FinalizationLedger Value) := do
  let state ← ExposureAwareCausalState.create snapshot.causal snapshot.privateLocalIds
    snapshot.exposedIds
  create ⟨state, snapshot.localIds, snapshot.finalized, snapshot.handedOffIds,
    snapshot.signingTransitionCount⟩

omit [DecidableEq Value] in
/-- The checks of `append_local` and the register that it stores. -/
def appended (causal : FrontierCausalRegister Value) (revisionId : String) (value : Value)
    (parents : Option (ExtTreeSet String)) :
    Except LedgerError (FrontierRevision Value × FrontierCausalRegister Value) := do
  let _ ← (checkCanonical revisionId).mapError .register
  if revisionId ∈ causal.revisions.keys then throw .revisionExists
  let parentSet := parents.getD (ExtTreeSet.ofList causal.frontier.keys)
  let missing := parentSet.toList.filter (· ∉ causal.revisions.keys)
  if missing ≠ [] then throw (.parentsUnknown missing)
  let revision ← (FrontierRevision.create revisionId value parentSet).mapError .register
  let next : FrontierCausalRegister Value := ⟨causal.revisions.set revisionId revision⟩
  next.validate.mapError .register
  pure (revision, next)

omit [DecidableEq Value] in
def appendLocal (ledger : FinalizationLedger Value) (revisionId : String) (value : Value)
    (parents : Option (ExtTreeSet String)) :
    Except LedgerError (FrontierRevision Value) × FinalizationLedger Value :=
  match appended ledger.state.causal revisionId value parents with
  | .error failure => (.error failure, ledger)
  | .ok (revision, causal) => (.ok revision,
    { ledger with
      state := ⟨causal, ledger.state.privateLocalIds.insert revisionId, ledger.state.exposedIds⟩
      localIds := ledger.localIds.insert revisionId })

/-- The last check comes after the state was replaced. -/
def mergeRemote (ledger : FinalizationLedger Value) (remote : FrontierCausalRegister Value) :
    Except LedgerError Unit × FinalizationLedger Value :=
  match remote.validate >>= fun _ => ledger.state.causal.merge remote with
  | .error failure => (.error (.register failure), ledger)
  | .ok causal =>
    let next := { ledger with
      state := ⟨causal, ledger.state.privateLocalIds.filter (· ∉ remote.revisions.keys),
        ledger.state.exposedIds.insertMany remote.revisions.keys⟩ }
    (next.validateFinalizedStatements, next)

def finalize (ledger : FinalizationLedger Value) (revisionId : String) :
    Except LedgerError (FinalizedStatement Value) × FinalizationLedger Value :=
  if revisionId ∉ ledger.localIds then (.error .finalizingForeign, ledger)
  else match ledger.state.causal.revisions.get revisionId with
    | none => (.error .finalizingRemoved, ledger)
    | some revision =>
      let statement := FinalizedStatement.fromRevision revision
      match ledger.finalized.get revisionId with
      | some previous => if previous ≠ statement then (.error .finalizedChanged, ledger)
          else (.ok previous, ledger)
      | none => (.ok statement,
        { ledger with
          finalized := ledger.finalized.set revisionId statement
          signingTransitionCount := ledger.signingTransitionCount + 1 })

/-- The last check comes after the exposure was recorded. -/
def handoff (ledger : FinalizationLedger Value) (revisionIds : ExtTreeSet String) :
    Except LedgerError Unit × FinalizationLedger Value :=
  match ledger.localAncestorClosure revisionIds with
  | .error failure => (.error failure, ledger)
  | .ok localClosure =>
    if localClosure.toList.any (· ∉ ledger.finalized.keys) then (.error .closureUnfinalized, ledger)
    else match ledger.state.markExposed revisionIds with
      | .error failure => (.error failure, ledger)
      | .ok state =>
        let next := { ledger with
          state := state
          handedOffIds :=
          ledger.handedOffIds.insertMany (revisionIds.toList.filter (· ∈ ledger.localIds)) }
        (next.validateFinalizedStatements, next)

/-- The statements that a squash must not touch. -/
def keepsFinalized (ledger : FinalizationLedger Value)
    (causal : FrontierCausalRegister Value) : Bool :=
  ledger.finalized.items.all fun entry => match causal.revisions.get entry.1 with
    | none => false
    | some revision => entry.2 = .fromRevision revision

def squashPrivate (ledger : FinalizationLedger Value) :
    Except LedgerError (SquashResult Value) × FinalizationLedger Value :=
  match ledger.state.squashUnexposedDominated with
  | .error failure => (.error failure, ledger)
  | .ok candidate =>
    if candidate.removedIds.isEmpty then (.ok candidate, ledger)
    else if ledger.keepsFinalized candidate.state.causal then (.ok candidate,
      { ledger with state := candidate.state, localIds :=
        ledger.localIds.filter (· ∉ candidate.removedIds) })
    else (.error .squashFinalized, ledger)

def step (ledger : FinalizationLedger Value) :
    LedgerCall Value → Except LedgerError Unit × FinalizationLedger Value
  | .appendLocal revisionId value parents =>
    let ended := ledger.appendLocal revisionId value parents
    (ended.1.map fun _ => (), ended.2)
  | .mergeRemote remote => ledger.mergeRemote remote
  | .finalize revisionId =>
    let ended := ledger.finalize revisionId
    (ended.1.map fun _ => (), ended.2)
  | .handoff revisionIds => ledger.handoff revisionIds
  | .squashPrivate =>
    let ended := ledger.squashPrivate
    (ended.1.map fun _ => (), ended.2)
  | .reopen => match restore ledger.snapshot with
    | .error failure => (.error failure, ledger)
    | .ok restored => (.ok (), restored)

/-- The calls one after the other, whether they succeed or fail. -/
def run (ledger : FinalizationLedger Value) (calls : List (LedgerCall Value)) :
    FinalizationLedger Value :=
  calls.foldl (fun current call => (current.step call).2) ledger

end FinalizationLedger

end PrivateContinuum.Reference
