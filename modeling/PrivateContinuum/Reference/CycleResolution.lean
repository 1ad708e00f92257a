import PrivateContinuum.Library.CycleSearch
import PrivateContinuum.Reference.Hierarchy

/-! The resolvers of the reference model for parent cycles: to the root, to one witness
and then to the root, and back through all placements of an atom. -/

namespace PrivateContinuum.Reference

open Std (ExtTreeSet TransOrd TransCmp)
open PrivateContinuum.Library

/-- `mapping[key]` -/
def lookup {Item : Type} (mapping : Dict String Item) (key : String) : Except ModelError Item :=
  match mapping.get key with
  | some item => .ok item
  | none => .error (.keyError key)

def parentGraph (parents : Dict String (Option String)) : Pointers String where
  next := parents.get
  nodes := parents.keys
  listed := fun _ => Dict.mem_keys

/-- `_all_cycles` -/
def allCycles (parents : Dict String (Option String)) :
    List (List String) := (parentGraph parents).allCycles

/-- `_find_cycle` -/
def findCycle (parents : Dict String (Option String)) :
    Option (List String) := (parentGraph parents).findCycle

/-- The parents that are active, and the revisions that placed the atoms there. -/
structure ActivePlacements where
  parents : Dict String (Option String)
  revisionIds : Dict String String

/-- What the loop over the atoms raises. -/
structure PlacementFailures where
  noPlacement : ModelError
  unknownParent : ModelError
  ownParent : ModelError

/-- `_materialize_register` -/
def materializeRegister (rejected : ExtTreeSet String) (register : Placements) :
    Option (ScalarRevision (Option String)) :=
  ScalarRegister.materializedRevision ⟨register.revisions.filter fun revisionId =>
    revisionId ∉ rejected⟩

namespace HierarchyLab

/-- One turn of the loop over the atoms. -/
def activate (lab : HierarchyLab) (failures : PlacementFailures)
    (current : Placements → Option (ScalarRevision (Option String))) (active : ActivePlacements)
    (entry : String × Placements) : Except ModelError ActivePlacements :=
  match current entry.2 with
  | none => .error failures.noPlacement
  | some revision =>
    if revision.value.any fun parent => parent ∉ lab.parents.keys then .error failures.unknownParent
    else if revision.value = some entry.1 then .error failures.ownParent
    else .ok ⟨active.parents.set entry.1 revision.value,
      active.revisionIds.set entry.1 revision.revisionId⟩

/-- The loop over the atoms, which takes a placement of each. -/
def activateAll (lab : HierarchyLab) (failures : PlacementFailures)
    (current : Placements → Option (ScalarRevision (Option String))) :
    Except ModelError ActivePlacements :=
  lab.parents.items.foldlM (lab.activate failures current) ⟨Dict.empty, Dict.empty⟩

/-- `_current_state` -/
def currentState (lab : HierarchyLab) : Except ModelError ActivePlacements :=
  lab.activateAll ⟨.noCurrentPlacement, .currentParentUnknown,
    .atomParentsItself⟩ ScalarRegister.materializedRevision

/-- The parent that was materialized before a placement was made. -/
def previousParent (register : Placements)
    (revision : ScalarRevision (Option String)) : Option String :=
  let prior := register.revisions.filter fun candidateId => candidateId ∈ revision.context
  if prior.items = [] then none
  else (ScalarRegister.mk prior).materializedValue.join

def previousParentWitnesses (lab : HierarchyLab) : Dict String (Option String) :=
  lab.parents.values.foldl (fun witnesses register =>
    register.revisions.items.foldl (fun witnesses entry =>
      witnesses.set entry.1 (previousParent register entry.2)) witnesses) Dict.empty

end HierarchyLab

/-- `_cycle_key` -/
def cycleKey (cycle : List String) : Except ModelError (List Bytes) := do
  let keys ← cycle.mapM canonicalId
  pure (keys.insertionSort fun left right => (compare left right).isLE)

/-- The pair by which the loser of a cycle is chosen. -/
structure Priority where
  revision : Bytes
  atom : Bytes
deriving DecidableEq

instance Priority.ord :
    Ord Priority := ⟨compareLex (compareOn Priority.revision) (compareOn Priority.atom)⟩

instance Priority.transOrd : TransOrd Priority :=
  inferInstanceAs (TransCmp (compareLex (compareOn Priority.revision) (compareOn Priority.atom)))

def priority (sourceRevisionIds : Dict String String) (atomId : String) :
    Except ModelError Priority := do
  let sourceRevisionId ← lookup sourceRevisionIds atomId
  let revision ← canonicalId sourceRevisionId
  let atom ← canonicalId atomId
  pure ⟨revision, atom⟩

/-- `_choose_loser` -/
def chooseLoser (cycle : List String) (sourceRevisionIds : Dict String String) :
    Except ModelError String :=
  least (priority sourceRevisionIds) .emptySequence cycle

inductive FallbackMode where
  | current
  | witness
  | root
deriving DecidableEq

structure BoundedHierarchyMetrics where
  atomCount : Nat
  initialCycleCount : Nat
  resolutionIterations : Nat
  rejectedCurrentRevisionCount : Nat
  witnessFallbackCount : Nat
  rootFallbackCount : Nat
  maxFallbackStepsPerAtom : Nat
deriving DecidableEq

structure BoundedHierarchyResolution where
  activeParents : Dict String (Option String)
  sourceRevisionIds : Dict String String
  fallbackModes : Dict String FallbackMode
  rejectedCurrentRevisionIds : ExtTreeSet String
  metrics : BoundedHierarchyMetrics

/-- The variables of the loop of a bounded resolver. -/
structure Fallbacks where
  parents : Dict String (Option String)
  modes : Dict String FallbackMode
  rejected : ExtTreeSet String
  steps : Dict String Nat
  iterations : Nat

namespace Fallbacks

def start (parents : Dict String (Option String)) : Fallbacks where
  parents := parents
  modes := parents.mapItems fun _ => .current
  rejected := ∅
  steps := Dict.empty
  iterations := 0

/-- The atom leaves its placement for another parent. -/
def fallBack (state : Fallbacks) (loser sourceRevisionId : String) (parent : Option String)
    (mode : FallbackMode) :
    Fallbacks where
  parents := state.parents.set loser parent
  modes := state.modes.set loser mode
  rejected := state.rejected.insert sourceRevisionId
  steps := state.steps.set loser ((state.steps.get loser).getD 0 + 1)
  iterations := state.iterations + 1

/-- What the loop of `resolve_with_root_fallback` does with a loser. -/
def toRoot (sourceRevisionIds : Dict String String) (state : Fallbacks) (loser : String) :
    Except ModelError Fallbacks := do
  let mode ← lookup state.modes loser
  if mode = .root then throw .rootFallbackFailed
  let sourceRevisionId ← lookup sourceRevisionIds loser
  pure (state.fallBack loser sourceRevisionId none .root)

/-- What the loop of `resolve_with_one_witness_fallback` does with a loser. -/
def toWitness (witnesses : Dict String (Option String)) (sourceRevisionIds : Dict String String)
    (state : Fallbacks) (loser : String) : Except ModelError Fallbacks := do
  let sourceRevisionId ← lookup sourceRevisionIds loser
  let mode ← lookup state.modes loser
  let next ← match mode with
    | .current =>
      let witness := (witnesses.get sourceRevisionId).join
      if witness.any fun parent => parent ∉ state.parents.keys then throw .witnessUnknown
      else if witness = some loser then throw .witnessParentsItself
      else pure (state.fallBack loser sourceRevisionId witness .witness)
    | .witness => pure (state.fallBack loser sourceRevisionId none .root)
    | .root => throw .rootFallbackFailed
  let taken ← lookup next.steps loser
  if taken > 2 then throw .fallbackBoundExceeded
  pure next

/-- One iteration, for a cycle that was chosen. -/
def turn (sourceRevisionIds : Dict String String)
    (reject : Fallbacks → String → Except ModelError Fallbacks) (state : Fallbacks)
    (cycle : List String) : Except ModelError Fallbacks := do
  let loser ← chooseLoser cycle sourceRevisionIds
  reject state loser

/-- The loop of a bounded resolver. -/
def settle (sourceRevisionIds : Dict String String)
    (reject : Fallbacks → String → Except ModelError Fallbacks) :
    Nat → Fallbacks → Except ModelError Fallbacks
  | 0, _ => .error .exhausted
  | fuel + 1, state =>
    let cycles := allCycles state.parents
    if cycles = [] then .ok state
    else do
      let cycle ← least cycleKey .emptySequence cycles
      let next ← state.turn sourceRevisionIds reject cycle
      settle sourceRevisionIds reject fuel next

/-- `_finish` -/
def finish (state : Fallbacks) (sourceRevisionIds : Dict String String) (initialCycleCount : Nat) :
    BoundedHierarchyResolution where
  activeParents := state.parents
  sourceRevisionIds := sourceRevisionIds
  fallbackModes := state.modes
  rejectedCurrentRevisionIds := state.rejected
  metrics :=
    { atomCount := state.parents.keys.length
      initialCycleCount := initialCycleCount
      resolutionIterations := state.iterations
      rejectedCurrentRevisionCount := state.rejected.size
      witnessFallbackCount := state.modes.values.count .witness
      rootFallbackCount := state.modes.values.count .root
      maxFallbackStepsPerAtom := state.steps.values.max?.getD 0 }

end Fallbacks

/-- The steps that both bounded resolvers share. -/
def resolveBounded
    (reject : Dict String String → Fallbacks → String → Except ModelError Fallbacks) (fuel : Nat)
    (hierarchy : HierarchyLab) : Except ModelError BoundedHierarchyResolution := do
  let active ← hierarchy.currentState
  let initialCycles := (allCycles active.parents).length
  let last ← Fallbacks.settle active.revisionIds (reject active.revisionIds) fuel
    (Fallbacks.start active.parents)
  pure (last.finish active.revisionIds initialCycles)

def resolveWithRootFallback (fuel : Nat) (hierarchy : HierarchyLab) :
    Except ModelError BoundedHierarchyResolution :=
  resolveBounded Fallbacks.toRoot fuel hierarchy

/-- `witness_by_revision or previous_parent_witnesses(hierarchy)`: an empty mapping counts
as none. -/
def chosenWitnesses (witnessByRevision : Option (Dict String (Option String)))
    (hierarchy : HierarchyLab) :
    Dict String (Option String) :=
  match witnessByRevision with
  | none => hierarchy.previousParentWitnesses
  | some given => if given.items = [] then hierarchy.previousParentWitnesses else given

def resolveWithOneWitnessFallback (witnessByRevision : Option (Dict String (Option String)))
    (fuel : Nat) (hierarchy : HierarchyLab) : Except ModelError BoundedHierarchyResolution :=
  resolveBounded (Fallbacks.toWitness (chosenWitnesses witnessByRevision hierarchy)) fuel hierarchy

structure ResolvedHierarchy where
  activeParents : Dict String (Option String)
  activeRevisionIds : Dict String String
  rejectedRevisionIds : ExtTreeSet String

namespace HierarchyLab

/-- The loop over the atoms without the rejected placements. -/
def activePlacements (lab : HierarchyLab) (rejected : ExtTreeSet String) :
    Except ModelError ActivePlacements :=
  lab.activateAll ⟨.placementsExhausted, .resolvedParentUnknown, .resolvedParentsItself⟩
    (materializeRegister rejected)

/-- Rejects the lowest active revision of a cycle. -/
def rejectLowest (activeIds : Dict String String) (rejected : ExtTreeSet String)
    (cycle : List String) :
    Except ModelError (ExtTreeSet String) := do
  let cycleRevisions ← cycle.mapM (lookup activeIds)
  let loser ← least canonicalId .emptySequence cycleRevisions
  if loser ∈ rejected then throw .noProgress
  pure (rejected.insert loser)

/-- The loop of `resolve_acyclic_by_rejecting_lowest_cycle_revision`. -/
def rejectFrom (lab : HierarchyLab) : Nat → ExtTreeSet String → Except ModelError ResolvedHierarchy
  | 0, _ => .error .exhausted
  | fuel + 1, rejected => do
    let active ← lab.activePlacements rejected
    match findCycle active.parents with
    | none => pure ⟨active.parents, active.revisionIds, rejected⟩
    | some cycle =>
      let next ← rejectLowest active.revisionIds rejected cycle
      rejectFrom lab fuel next

end HierarchyLab

def resolveAcyclicByRejectingLowestCycleRevision (fuel : Nat) (hierarchy : HierarchyLab) :
    Except ModelError ResolvedHierarchy :=
  hierarchy.rejectFrom fuel ∅

end PrivateContinuum.Reference
