import PrivateContinuum.Reference.Causality

namespace PrivateContinuum.Reference

open Std (ExtTreeSet)
open PrivateContinuum.Library

/-- An order in which a set is walked over. -/
structure SetOrder where
  arrange : List String → List String
  perm : ∀ ids, (arrange ids).Perm ids

structure ExactCoverageRegister (Value : Type) where
  retained : Dict String (FrontierRevision Value)
  coveredIds : ExtTreeSet String

variable {Value : Type}

def pickOne (revisions picked : Dict String (FrontierRevision Value)) (revisionId : String) :
    Except ModelError (Dict String (FrontierRevision Value)) :=
  match revisions.get revisionId with
  | some revision => .ok (picked.set revisionId revision)
  | none => .error (.keyError revisionId)

/-- `{id: revisions[id] for id in ids}` over a set of identifiers. -/
def pick (order : SetOrder) (revisions : Dict String (FrontierRevision Value)) (ids : List String) :
    Except ModelError (Dict String (FrontierRevision Value)) :=
  (order.arrange ids).foldlM (pickOne revisions) Dict.empty

namespace ExactCoverageRegister

def fromFull (order : SetOrder) (register : FrontierCausalRegister Value) :
    Except ModelError (ExactCoverageRegister Value) := do
  register.validate
  let frontierIds := register.frontier.keys
  let retained ← pick order register.revisions frontierIds
  pure ⟨retained, ExtTreeSet.ofList (register.revisions.keys.filter (· ∉ frontierIds))⟩

/-- The retained parents of a retained revision. -/
def retainedParents (register : ExactCoverageRegister Value) (revisionId : String) :
    Except ModelError (List String) :=
  match register.retained.get revisionId with
  | some revision => .ok (revision.parents.toList.filter (· ∈ register.retained.keys))
  | none => .error (.keyError revisionId)

/-- The recursion `visit` of `_validate`. -/
def ascent (register : ExactCoverageRegister Value) : Ascent String ModelError :=
  ⟨register.retainedParents, .retainedCycle, .exhausted⟩

/-- `_validate` -/
def validate (register : ExactCoverageRegister Value) : Except ModelError Unit := do
  if register.retained.keys.any (· ∈ register.coveredIds) then throw .retainedAndCovered
  let _ ← checkAllCanonical register.coveredIds.toList
  let available := register.retained.keys ++ register.coveredIds.toList
  forM register.retained.values fun revision =>
    let missing := FrontierCausalRegister.missingParents available revision
    if missing ≠ [] then throw (.compactedParentsUnknown missing) else pure ()
  let _ ← register.ascent.visitAll register.retained.keys
  pure ()

def referencedRetained (register : ExactCoverageRegister Value) : List String :=
  register.retained.values.flatMap fun revision =>
    revision.parents.toList.filter (· ∈ register.retained.keys)

def frontier (register : ExactCoverageRegister Value) : Dict String (FrontierRevision Value) :=
  register.retained.filter fun revisionId => revisionId ∉ register.referencedRetained

def materializedRevision (register : ExactCoverageRegister Value) :
    Option (FrontierRevision Value) :=
  latest register.frontier.values

def compact (order : SetOrder) (register : ExactCoverageRegister Value) :
    Except ModelError (ExactCoverageRegister Value) := do
  let frontierIds := register.frontier.keys
  let retained ← pick order register.retained frontierIds
  let result : ExactCoverageRegister Value :=
    ⟨retained,
      register.coveredIds ∪ ExtTreeSet.ofList (register.retained.keys.filter (· ∉ frontierIds))⟩
  result.validate
  pure result

variable [DecidableEq Value]

def assign (register : ExactCoverageRegister Value) (revisionId : String) (value : Value) :
    Except ModelError (ExactCoverageRegister Value) := do
  let _ ← canonicalId revisionId
  if revisionId ∈ register.coveredIds then throw .coveredIdReused
  let revision ← FrontierRevision.create revisionId value (ExtTreeSet.ofList register.frontier.keys)
  let retained ← register.retained.keep .revisionCollision (revisionId, revision)
  let result : ExactCoverageRegister Value := ⟨retained, register.coveredIds⟩
  result.validate
  pure result

/-- One turn of the loop over the incoming revisions. -/
def sortIncoming (register : ExactCoverageRegister Value)
    (genuinelyNew : Dict String (FrontierRevision Value))
    (entry : String × FrontierRevision Value) :
    Except ModelError (Dict String (FrontierRevision Value)) :=
  if entry.1 ∈ register.coveredIds then .ok genuinelyNew
  else match register.retained.get entry.1 with
    | some previous => if previous ≠ entry.2 then .error .revisionCollision else .ok genuinelyNew
    | none => .ok (genuinelyNew.set entry.1 entry.2)

def importRevisions (register : ExactCoverageRegister Value)
    (incoming : Dict String (FrontierRevision Value)) :
    Except ModelError (ExactCoverageRegister Value) := do
  if incoming.items.any fun entry => entry.1 ≠ entry.2.revisionId then throw .mappingKeyMismatch
  let genuinelyNew ← incoming.items.foldlM register.sortIncoming Dict.empty
  let available := register.retained.keys ++ register.coveredIds.toList ++ genuinelyNew.keys
  forM genuinelyNew.values fun revision =>
    let missing := FrontierCausalRegister.missingParents available revision
    if missing ≠ [] then throw (.historicalParentMissing missing) else pure ()
  let result : ExactCoverageRegister Value :=
    ⟨register.retained.update genuinelyNew, register.coveredIds⟩
  result.validate
  pure result

end ExactCoverageRegister

end PrivateContinuum.Reference
