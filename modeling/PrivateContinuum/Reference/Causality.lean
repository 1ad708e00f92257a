import PrivateContinuum.Library.DepthFirst
import PrivateContinuum.Library.Dict
import PrivateContinuum.Library.Worklist
import PrivateContinuum.Reference.Identity

namespace PrivateContinuum.Reference

open Std (ExtTreeSet)
open PrivateContinuum.Library

/-- A revision names canonical parents other than itself. -/
structure FrontierRevision (Value : Type) where
  revisionId : String
  value : Value
  parents : ExtTreeSet String
  canonical : Canonical revisionId
  otherParents : revisionId ∉ parents
  canonicalParents : ∀ parent ∈ parents, Canonical parent
deriving DecidableEq

section Revisions

variable {Value : Type}

/-- `__post_init__` -/
def FrontierRevision.create (revisionId : String) (value : Value) (parents : ExtTreeSet String) :
    Except ModelError (FrontierRevision Value) := do
  let ⟨canonical⟩ ← checkCanonical revisionId
  if own : revisionId ∈ parents then throw .revisionParentsItself
  else do
    let ⟨canonicalParents⟩ ← checkAllCanonical parents.toList
    pure ⟨revisionId, value, parents, canonical, own, fun parent member =>
      canonicalParents parent (ExtTreeSet.mem_toList.mpr member)⟩

/-- The bytes of `canonical_id`, by which revisions are ordered. -/
def FrontierRevision.key (revision : FrontierRevision Value) : Bytes := revision.canonical.bytes

/-- The step of `latest`: a revision replaces one with a smaller key. -/
def later (best : Option (FrontierRevision Value)) (revision : FrontierRevision Value) :
    Option (FrontierRevision Value) :=
  match best with
  | none => some revision
  | some held => if compare held.key revision.key = .lt then some revision else some held

/-- `max(.., key=canonical_id)`: the first of the largest ones. -/
def latest (revisions : List (FrontierRevision Value)) : Option (FrontierRevision Value) :=
  revisions.foldl later none

end Revisions

/-- Revisions by identifier. -/
structure FrontierCausalRegister (Value : Type) where
  revisions : Dict String (FrontierRevision Value)

/-- Revisions for a receiver that holds what they refer to outside of the delta. -/
structure FrontierDelta (Value : Type) where
  revisions : Dict String (FrontierRevision Value)
  externalParents : ExtTreeSet String

namespace FrontierCausalRegister

variable {Value : Type}

/-- `self.revisions[revision_id].parents` -/
def parentsOf (register : FrontierCausalRegister Value) (revisionId : String) :
    Except ModelError (List String) :=
  match register.revisions.get revisionId with
  | some revision => .ok revision.parents.toList
  | none => .error (.keyError revisionId)

/-- The recursion `visit` of `validate`. -/
def ascent (register : FrontierCausalRegister Value) : Ascent String ModelError :=
  ⟨register.parentsOf, .causalCycle, .exhausted⟩

/-- The parents of a revision that are not in the register. -/
def missingParents (known : List String) (revision : FrontierRevision Value) : List String :=
  revision.parents.toList.filter fun parent => parent ∉ known

def validate (register : FrontierCausalRegister Value) : Except ModelError Unit := do
  forM register.revisions.values fun revision =>
    let missing := missingParents register.revisions.keys revision
    if missing ≠ [] then throw (.causalParentsMissing missing) else pure ()
  let _ ← register.ascent.visitAll register.revisions.keys
  pure ()

/-- The identifiers that some revision names as a parent. -/
def referenced (register : FrontierCausalRegister Value) : List String :=
  register.revisions.values.flatMap fun revision => revision.parents.toList

def frontier (register : FrontierCausalRegister Value) : Dict String (FrontierRevision Value) :=
  register.revisions.filter fun revisionId => revisionId ∉ register.referenced

def materializedRevision (register : FrontierCausalRegister Value) :
    Option (FrontierRevision Value) :=
  latest register.frontier.values

def materializedValue (register : FrontierCausalRegister Value) : Option Value :=
  register.materializedRevision.map FrontierRevision.value

/-- The search upwards for an ancestor: it stops with `none` where it finds it. -/
def search (register : FrontierCausalRegister Value) (ancestorId : String) :
    Worklist String (Option ModelError) where
  halt := fun current => if current = ancestorId then some none else none
  expand := fun current => (register.parentsOf current).mapError some
  nodes := register.revisions.keys
  finite := by
    intro node successors expanded _
    rw [parentsOf] at expanded
    split at expanded
    · rename_i revision found
      exact Dict.mem_keys.mpr ⟨revision, found⟩
    · cases expanded

def isAncestor (register : FrontierCausalRegister Value) (ancestorId descendantId : String) :
    Except ModelError Bool :=
  if ancestorId = descendantId then .ok false
  else if ancestorId ∉ register.revisions.keys ∨ descendantId ∉ register.revisions.keys then
    .error .unknownCausalRevisions
  else do
    let pending ← register.parentsOf descendantId
    match (register.search ancestorId).explore ∅ pending.reverse with
    | .ok _ => .ok false
    | .error none => .ok true
    | .error (some failure) => .error failure

variable [DecidableEq Value]

def assign (register : FrontierCausalRegister Value) (revisionId : String) (value : Value) :
    Except ModelError (FrontierCausalRegister Value) := do
  let revision ← FrontierRevision.create revisionId value (ExtTreeSet.ofList register.frontier.keys)
  let revisions ← register.revisions.keep .revisionCollision (revisionId, revision)
  let result : FrontierCausalRegister Value := ⟨revisions⟩
  result.validate
  pure result

def merge (register other : FrontierCausalRegister Value) :
    Except ModelError (FrontierCausalRegister Value) := do
  let merged ← register.revisions.keepAll .revisionCollision other.revisions
  let result : FrontierCausalRegister Value := ⟨merged⟩
  result.validate
  pure result

omit [DecidableEq Value] in
def missingFrom (register : FrontierCausalRegister Value) (knownRevisionIds : ExtTreeSet String) :
    Except ModelError (FrontierDelta Value) :=
  if knownRevisionIds.toList.any (· ∉ register.revisions.keys) then .error .unknownBaseline
  else
    let missing := register.revisions.filter fun revisionId => revisionId ∉ knownRevisionIds
    .ok ⟨missing, ExtTreeSet.ofList
      ((missing.values.flatMap fun revision => revision.parents.toList).filter fun parent =>
        parent ∉ missing.keys)⟩

def applyDelta (register : FrontierCausalRegister Value) (delta : FrontierDelta Value) :
    Except ModelError (FrontierCausalRegister Value) := do
  let available := register.revisions.keys ++ delta.revisions.keys
  if delta.externalParents.toList.any (· ∉ register.revisions.keys) then
    throw .deltaDependencyMissing
  forM delta.revisions.values fun revision =>
    if missingParents available revision ≠ [] then throw .unresolvedCausalParent else pure ()
  let merged ← register.revisions.keepAll .revisionCollision delta.revisions
  let result : FrontierCausalRegister Value := ⟨merged⟩
  result.validate
  pure result

end FrontierCausalRegister

end PrivateContinuum.Reference
