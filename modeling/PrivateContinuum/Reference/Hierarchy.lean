import PrivateContinuum.Reference.Checkpoint
import PrivateContinuum.Reference.Scalar

namespace PrivateContinuum.Reference

open Std (ExtTreeSet)
open PrivateContinuum.Library

/-- The placements of one atom: a parent, or none for the root. -/
abbrev Placements : Type := ScalarRegister (Option String)

structure HierarchyLab where
  parents : Dict String Placements
  deletedAtoms : ExtTreeSet String

namespace HierarchyLab

def empty : HierarchyLab := ⟨Dict.empty, ∅⟩

/-- The checks of `place` on a parent, where there is one. -/
def checkParent (lab : HierarchyLab) (atomId : String) : Option String → Except ModelError Unit
  | none => .ok ()
  | some parentAtomId => do
    let _ ← canonicalId parentAtomId
    if parentAtomId = atomId then throw .atomParentsItself
    if parentAtomId ∉ lab.parents.keys then throw .unknownParent
    if parentAtomId ∈ lab.deletedAtoms then throw .parentDeleted

def place (lab : HierarchyLab) (atomId revisionId : String) (parentAtomId : Option String) :
    Except ModelError HierarchyLab := do
  let _ ← canonicalId atomId
  let _ ← canonicalId revisionId
  lab.checkParent atomId parentAtomId
  if atomId ∈ lab.deletedAtoms then throw .atomDeleted
  let register := (lab.parents.get atomId).getD ScalarRegister.empty
  let placed ← register.assign revisionId parentAtomId
  pure ⟨lab.parents.set atomId placed, lab.deletedAtoms⟩

def delete (lab : HierarchyLab) (atomId : String) : Except ModelError HierarchyLab :=
  if atomId ∉ lab.parents.keys then .error .deletingUnknown
  else .ok ⟨lab.parents, lab.deletedAtoms.insert atomId⟩

/-- One turn of the loop of `merge`. -/
def mergeAtom (lab other : HierarchyLab) (merged : Dict String Placements) (atomId : String) :
    Except ModelError (Dict String Placements) :=
  match lab.parents.get atomId, other.parents.get atomId with
  | some register, some incoming => do
    let both ← register.merge incoming
    pure (merged.set atomId both)
  | some register, none => .ok (merged.set atomId register)
  | none, some incoming => .ok (merged.set atomId incoming)
  | none, none => .error (.keyError atomId)

def merge (order : SetOrder) (lab other : HierarchyLab) : Except ModelError HierarchyLab := do
  let atomIds := lab.parents.keys ++ other.parents.keys.filter (· ∉ lab.parents.keys)
  let merged ← (order.arrange atomIds).foldlM (mergeAtom lab other) Dict.empty
  pure ⟨merged, lab.deletedAtoms ∪ other.deletedAtoms⟩

end HierarchyLab

/-- An atom and a revision identifier for `place` that no lab takes for another. -/
def Fresh (labs : List HierarchyLab) (atomId revisionId : String) : Prop :=
  ∀ lab ∈ labs, ∀ known register, lab.parents.get known = some register →
    (canonicalId known = canonicalId atomId → known = atomId) ∧
      ∀ used ∈ register.revisions.keys, canonicalId used ≠ canonicalId revisionId

instance decidableFresh (labs : List HierarchyLab) (atomId revisionId : String) :
    Decidable (Fresh labs atomId revisionId) :=
  decidable_of_iff (∀ lab ∈ labs, ∀ entry ∈ lab.parents.items,
    (canonicalId entry.1 = canonicalId atomId → entry.1 = atomId) ∧
    ∀ used ∈ entry.2.revisions.keys, canonicalId used ≠ canonicalId revisionId) (by
      refine forall₂_congr fun lab _ => ?_
      constructor
      · intro every known register found
        exact every (known, register) (Dict.get_iff.mp found)
      · intro every entry member
        exact every entry.1 entry.2 (Dict.get_iff.mpr member))

/-- The labs of all replicas in a run, with their earlier states. -/
inductive World : List HierarchyLab → Prop where
  | start : World [HierarchyLab.empty]
  | place {labs : List HierarchyLab} {lab next : HierarchyLab} (atomId revisionId : String)
      (parentAtomId : Option String)
      (world : World labs) (member : lab ∈ labs) (fresh : Fresh labs atomId revisionId)
      (done : lab.place atomId revisionId parentAtomId = .ok next) : World (next :: labs)
  | delete {labs : List HierarchyLab} {lab next : HierarchyLab} (atomId : String)
      (world : World labs)
      (member : lab ∈ labs) (done : lab.delete atomId = .ok next) : World (next :: labs)
  | merge {labs : List HierarchyLab} {lab other next : HierarchyLab} (order : SetOrder)
      (world : World labs)
      (member : lab ∈ labs) (otherMember : other ∈ labs) (done : lab.merge order other = .ok next) :
      World (next :: labs)

end PrivateContinuum.Reference
