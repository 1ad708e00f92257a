import PrivateContinuum.Core.Basic
import PrivateContinuum.Library.Worklist
import PrivateContinuum.Library.Outcome

namespace PrivateContinuum.Core

open Std (ExtTreeSet ExtTreeMap)
open PrivateContinuum.Library

variable {Value : Type}

structure ScalarRevision (Value : Type) where
  id : RevisionId
  value : Value
  parents : ExtTreeSet RevisionId
deriving DecidableEq

/-- Revisions by identity. The map is private to the source type and every
operation stores a revision under its own identity. -/
structure ScalarRegister (Value : Type) where
  revisions : ExtTreeMap RevisionId (ScalarRevision Value)
  keyed : ∀ (id : RevisionId) (revision : ScalarRevision Value),
    revisions[id]? = some revision → revision.id = id

namespace ScalarRegister

def empty : ScalarRegister Value := ⟨∅, by simp⟩

def revision (register : ScalarRegister Value) (id : RevisionId) : Option (ScalarRevision Value) :=
  register.revisions[id]?

/-- `revisions()`: the revisions in identity order. -/
def statements (register : ScalarRegister Value) : List (ScalarRevision Value) :=
  register.revisions.toList.map Prod.snd

def ids (register : ScalarRegister Value) : ExtTreeSet RevisionId :=
  ExtTreeSet.ofList register.revisions.keys

instance : Membership RevisionId (ScalarRegister Value) :=
  ⟨fun register id => id ∈ register.revisions⟩

instance (id : RevisionId) (register : ScalarRegister Value) : Decidable (id ∈ register) :=
  inferInstanceAs (Decidable (id ∈ register.revisions))

/-- Stores a revision under its own identity. -/
def put (register : ScalarRegister Value) (added : ScalarRevision Value) :
    ScalarRegister Value where
  revisions := register.revisions.insert added.id added
  keyed := by
    intro id revision found
    rw [ExtTreeMap.getElem?_insert] at found
    split at found
    · rename_i same
      cases found
      exact Std.LawfulEqCmp.eq_of_compare same
    · exact register.keyed id revision found

/-- Parents of a known revision, in identity order. -/
def parentList (register : ScalarRegister Value) (id : RevisionId) : List RevisionId :=
  match register.revision id with
  | some revision => revision.parents.toList
  | none => []

/-- First loop of `validate`: every direct parent is present. -/
def checkParents (register : ScalarRegister Value) (child : ScalarRevision Value) :
    Except CoreError Unit :=
  forM child.parents.toList fun parent =>
    if parent ∈ register then .ok () else .error (.missingParent child.id parent)

/-- The two sets that the cycle check threads through its recursion. -/
structure VisitState where
  visiting : ExtTreeSet RevisionId
  complete : ExtTreeSet RevisionId

/-- A loop that visits several identities and stops at the first failure. -/
def visitAll (visit : RevisionId → VisitState → Option (Except CoreError VisitState)) :
    List RevisionId → VisitState → Option (Except CoreError VisitState)
  | [], state => some (.ok state)
  | id :: rest, state => match visit id state with
    | some (.ok next) => visitAll visit rest next
    | some (.error failure) => some (.error failure)
    | none => none

/-- `visit_for_cycle` with a bound on its nesting; `none` is an exhausted bound. -/
def visitForCycle (register : ScalarRegister Value) :
    Nat → RevisionId → VisitState → Option (Except CoreError VisitState)
  | 0, _, _ => none
  | depth + 1, id, state =>
    if id ∈ state.complete then some (.ok state)
    else if id ∈ state.visiting then some (.error (.causalCycle id))
    else
      match visitAll (visitForCycle register depth) (register.parentList id)
          { state with visiting := state.visiting.insert id } with
      | some (.ok next) =>
        some (.ok { visiting := next.visiting.erase id, complete := next.complete.insert id })
      | some (.error failure) => some (.error failure)
      | none => none

/-- Nesting that the cycle check never exceeds. -/
def depthBound (register : ScalarRegister Value) (state : VisitState) : Nat :=
  unseenWeight (fun _ => 1) register.revisions.keys state.visiting + 1

/-- One parent step from a known revision. -/
def Parent (register : ScalarRegister Value) (child parent : RevisionId) : Prop :=
  ∃ revision, register.revision child = some revision ∧ parent ∈ revision.parents

/-- One or more parent steps: the ancestor is below the descendant. -/
def Ancestor (register : ScalarRegister Value) (ancestor descendant : RevisionId) : Prop :=
  Relation.TransGen register.Parent descendant ancestor

/-- Every direct parent is present. -/
def ParentClosed (register : ScalarRegister Value) : Prop :=
  ∀ child parent, register.Parent child parent → parent ∈ register

def Acyclic (register : ScalarRegister Value) : Prop :=
  ∀ id, ¬ register.Ancestor id id

theorem mem_iff {register : ScalarRegister Value} {id : RevisionId} :
    id ∈ register ↔ ∃ revision, register.revision id = some revision := by
  change id ∈ register.revisions ↔ _
  rw [ExtTreeMap.mem_iff_isSome_getElem?, Option.isSome_iff_exists]
  rfl

theorem ext_revision {left right : ScalarRegister Value}
    (same : ∀ id, left.revision id = right.revision id) : left = right := by
  have maps : left.revisions = right.revisions := ExtTreeMap.ext_getElem? same
  cases left
  cases right
  cases maps
  rfl

@[simp] theorem revision_empty (id : RevisionId) :
    (empty : ScalarRegister Value).revision id = none := by
  simp [revision, empty]

theorem revision_put (register : ScalarRegister Value) (added : ScalarRevision Value)
    (id : RevisionId) :
    (register.put added).revision id = if added.id = id then some added
      else register.revision id := by
  simp [revision, put, ExtTreeMap.getElem?_insert]

@[simp] theorem mem_put {register : ScalarRegister Value} {added : ScalarRevision Value}
    {id : RevisionId} : id ∈ register.put added ↔ added.id = id ∨ id ∈ register := by
  change id ∈ register.revisions.insert added.id added ↔ _
  simp only [ExtTreeMap.mem_insert, Std.LawfulEqCmp.compare_eq_iff_eq]
  rfl

theorem mem_statements {register : ScalarRegister Value} {revision : ScalarRevision Value} :
    revision ∈ register.statements ↔ register.revision revision.id = some revision := by
  simp only [statements, List.mem_map, Prod.exists, exists_eq_right,
    ExtTreeMap.mem_toList_iff_getElem?_eq_some]
  constructor
  · rintro ⟨id, found⟩
    have same := register.keyed id revision found
    rw [same]
    exact found
  · intro found
    exact ⟨revision.id, found⟩

@[simp] theorem mem_ids {register : ScalarRegister Value} {id : RevisionId} :
    id ∈ register.ids ↔ id ∈ register := by
  simp only [ids, ExtTreeSet.mem_ofList, List.contains_iff_mem, ExtTreeMap.mem_keys]
  rfl

theorem mem_parentList {register : ScalarRegister Value} {child parent : RevisionId} :
    parent ∈ register.parentList child ↔ register.Parent child parent := by
  unfold parentList Parent
  cases register.revision child with
  | none => simp
  | some revision => simp

theorem Parent.child_mem {register : ScalarRegister Value} {child parent : RevisionId}
    (edge : register.Parent child parent) : child ∈ register := by
  obtain ⟨revision, found, _⟩ := edge
  exact mem_iff.mpr ⟨revision, found⟩

theorem Ancestor.descendant_mem {register : ScalarRegister Value} {ancestor descendant : RevisionId}
    (path : register.Ancestor ancestor descendant) : descendant ∈ register := by
  obtain ⟨_, edge, _⟩ := Relation.TransGen.head'_iff.mp path
  exact edge.child_mem

private theorem visitAll_invariant
    {visit : RevisionId → VisitState → Option (Except CoreError VisitState)}
    {ids : List RevisionId} {first last : VisitState} (Holds : VisitState → Prop)
    (keeps : ∀ id ∈ ids, ∀ state next, Holds state → visit id state = some (.ok next) → Holds next)
    (initial : Holds first) (done : visitAll visit ids first = some (.ok last)) : Holds last := by
  induction ids generalizing first with
  | nil => cases done; exact initial
  | cons id rest ih =>
    rw [visitAll] at done
    split at done
    · rename_i next visited
      exact ih (fun other member => keeps other (List.mem_cons_of_mem id member))
        (keeps id List.mem_cons_self first next initial visited) done
    · cases done
    · cases done

private theorem erase_insert {seen : ExtTreeSet RevisionId} {id : RevisionId} (fresh : id ∉ seen) :
    (seen.insert id).erase id = seen := by
  apply ExtTreeSet.ext_mem
  intro other
  simp only [ExtTreeSet.mem_erase, ExtTreeSet.mem_insert, ne_eq, Std.LawfulEqCmp.compare_eq_iff_eq]
  constructor
  · rintro ⟨different, same | member⟩
    · exact absurd same different
    · exact member
  · intro member
    exact ⟨fun same => fresh (same ▸ member), Or.inr member⟩

/-- A completed visit leaves the `visiting` set as it found it. -/
theorem visitForCycle_visiting {register : ScalarRegister Value} {depth : Nat} {id : RevisionId}
    {state next : VisitState} (done : register.visitForCycle depth id state = some (.ok next)) :
    next.visiting = state.visiting := by
  induction depth generalizing id state next with
  | zero => cases done
  | succ depth ih =>
    rw [visitForCycle] at done
    split at done
    · cases done; rfl
    · split at done
      · cases done
      · rename_i fresh
        split at done
        · rename_i inner visited
          cases done
          have restored : inner.visiting = state.visiting.insert id :=
            visitAll_invariant (fun current => current.visiting = state.visiting.insert id)
              (fun other _ current after same finished => (ih finished).trans same) rfl visited
          simp only [restored, erase_insert fresh]
        · cases done
        · cases done

private theorem visitAll_isSome
    {visit : RevisionId → VisitState → Option (Except CoreError VisitState)}
    {ids : List RevisionId} {first : VisitState} (Holds : VisitState → Prop)
    (keeps : ∀ id ∈ ids, ∀ state next, Holds state → visit id state = some (.ok next) → Holds next)
    (ends : ∀ id ∈ ids, ∀ state, Holds state → (visit id state).isSome) (initial : Holds first) :
    (visitAll visit ids first).isSome := by
  induction ids generalizing first with
  | nil => rfl
  | cons id rest ih =>
    rw [visitAll]
    have ended := ends id List.mem_cons_self first initial
    split
    · rename_i next visited
      exact ih (fun other member => keeps other (List.mem_cons_of_mem id member))
        (fun other member => ends other (List.mem_cons_of_mem id member))
        (keeps id List.mem_cons_self first next initial visited)
    · rfl
    · rename_i exhausted
      simp [exhausted] at ended

theorem depthBound_insert {register : ScalarRegister Value} {state : VisitState} {id : RevisionId}
    (known : id ∈ register) (fresh : id ∉ state.visiting) :
    register.depthBound { state with visiting := state.visiting.insert id } <
      register.depthBound state := by
  have member : id ∈ register.revisions.keys := ExtTreeMap.mem_keys.mpr known
  have smaller := unseenWeight_insert_add (fun _ => 1) member fresh
  simp only [depthBound]
  omega

/-- The bound is enough: the cycle check always ends within it. -/
theorem visitForCycle_isSome (register : ScalarRegister Value) (depth : Nat) (id : RevisionId)
    (state : VisitState) (enough : register.depthBound state ≤ depth) :
    (register.visitForCycle depth id state).isSome := by
  induction depth generalizing id state with
  | zero => simp [depthBound] at enough
  | succ depth ih =>
    rw [visitForCycle]
    split
    · rfl
    · split
      · rfl
      · rename_i fresh
        have inner : (visitAll (register.visitForCycle depth) (register.parentList id)
            { state with visiting := state.visiting.insert id }).isSome := by
          apply visitAll_isSome (fun current => current.visiting = state.visiting.insert id)
          · intro other _ current after same finished
            exact (visitForCycle_visiting finished).trans same
          · intro other member current same
            have known := (mem_parentList.mp member).child_mem
            have smaller := depthBound_insert known fresh
            have equal : register.depthBound current =
                register.depthBound { state with visiting := state.visiting.insert id } := by
              simp [depthBound, same]
            exact ih other current (by omega)
          · rfl
        split
        · rfl
        · rfl
        · rename_i exhausted
          simp [exhausted] at inner

/-- Second loop of `validate`: the cycle check from every identity. -/
def checkCycles (register : ScalarRegister Value) : Option (Except CoreError VisitState) :=
  visitAll (register.visitForCycle (register.depthBound ⟨∅, ∅⟩)) register.revisions.keys ⟨∅, ∅⟩

theorem checkCycles_isSome (register : ScalarRegister Value) : register.checkCycles.isSome := by
  apply visitAll_isSome (fun current => current.visiting = ∅)
  · intro id _ current after same finished
    exact (visitForCycle_visiting finished).trans same
  · intro id _ current same
    apply register.visitForCycle_isSome
    simp [depthBound, same]
  · rfl

/-- `validate`: parent closure first, then the cycle check. -/
def validate (register : ScalarRegister Value) : Except CoreError Unit := do
  forM register.statements register.checkParents
  let _ ← register.checkCycles.get register.checkCycles_isSome
  pure ()

section Construction

variable [DecidableEq Value]

instance : DecidableEq (ScalarRegister Value) := fun left right =>
  decidable_of_iff (left.revisions = right.revisions)
    ⟨fun same => by cases left; cases right; cases same; rfl, fun same => by rw [same]⟩

/-- Loop body of `from_revisions` and `merge`: an identical statement is
harmless, a different one under the same identity is rejected. -/
def absorb (register : ScalarRegister Value) (incoming : ScalarRevision Value) :
    Except CoreError (ScalarRegister Value) :=
  match register.revision incoming.id with
  | some existing =>
    if existing = incoming then .ok register
    else .error (.duplicateRevisionConflict incoming.id)
  | none => .ok (register.put incoming)

def fromRevisions (revisions : List (ScalarRevision Value)) :
    Except CoreError (ScalarRegister Value) := do
  let register ← revisions.foldlM absorb empty
  register.validate
  pure register

def insertRevision (register : ScalarRegister Value) (added : ScalarRevision Value) :
    Except CoreError (ScalarRegister Value) :=
  match register.revision added.id with
  | some existing =>
    if existing = added then .ok register
    else .error (.duplicateRevisionConflict added.id)
  | none => do
    register.checkParents added
    pure (register.put added)

def merge (register other : ScalarRegister Value) : Except CoreError (ScalarRegister Value) := do
  let merged ← other.statements.foldlM absorb register
  merged.validate
  pure merged

end Construction

/-- The walk of `frontier_ids`: parents of known revisions, no failure. -/
def dominationWalk (register : ScalarRegister Value) : Worklist RevisionId Empty where
  halt _ := none
  expand id := .ok (register.parentList id)
  nodes := register.revisions.keys
  finite := by
    intro node successors expanded nonempty
    cases expanded
    obtain ⟨parent, member⟩ := List.exists_mem_of_ne_nil _ nonempty
    exact ExtTreeMap.mem_keys.mpr (mem_parentList.mp member).child_mem

/-- Adds the ancestors of one revision to the dominated set. -/
def dominate (register : ScalarRegister Value) (dominated : ExtTreeSet RevisionId)
    (revision : ScalarRevision Value) : ExtTreeSet RevisionId :=
  match register.dominationWalk.explore dominated revision.parents.toList.reverse with
  | .ok next => next
  | .error impossible => nomatch impossible

def frontierIds (register : ScalarRegister Value) : ExtTreeSet RevisionId :=
  let dominated := register.statements.foldl register.dominate ∅
  register.ids.filter (· ∉ dominated)

def materializedRevision (register : ScalarRegister Value) : Option (ScalarRevision Value) :=
  register.frontierIds.max? >>= register.revision

def materialized (register : ScalarRegister Value) : Option Value :=
  register.materializedRevision.map ScalarRevision.value

/-- Creates a local successor from exactly the current frontier. -/
def assign [DecidableEq Value] (register : ScalarRegister Value) (id : RevisionId) (value : Value) :
    Except CoreError (ScalarRegister Value) :=
  register.insertRevision ⟨id, value, register.frontierIds⟩

/-- The walk of `is_ancestor`: it stops when the sought identity is popped. -/
def ancestorWalk (register : ScalarRegister Value) (ancestor : RevisionId) :
    Worklist RevisionId Unit where
  halt id := if id = ancestor then some () else none
  expand id := .ok (register.parentList id)
  nodes := register.revisions.keys
  finite := by
    intro node successors expanded nonempty
    cases expanded
    obtain ⟨parent, member⟩ := List.exists_mem_of_ne_nil _ nonempty
    exact ExtTreeMap.mem_keys.mpr (mem_parentList.mp member).child_mem

def isAncestor (register : ScalarRegister Value) (ancestor descendant : RevisionId) : Bool :=
  match register.revision descendant with
  | none => false
  | some revision =>
    match (register.ancestorWalk ancestor).explore ∅ revision.parents.toList.reverse with
    | .ok _ => false
    | .error () => true

/-- The walk of `dependency_closure` and of `handoff`: an absent revision is
an error. -/
def closureWalk (register : ScalarRegister Value) : Worklist RevisionId CoreError where
  halt _ := none
  expand id := match register.revision id with
    | some revision => .ok revision.parents.toList
    | none => .error (.unknownRevision id)
  nodes := register.revisions.keys
  finite := by
    intro node successors expanded _
    cases found : register.revision node with
    | none => simp [found] at expanded
    | some revision => exact ExtTreeMap.mem_keys.mpr (mem_iff.mpr ⟨revision, found⟩)

def dependencyClosure (register : ScalarRegister Value) (revisionIds : ExtTreeSet RevisionId) :
    Except CoreError (ExtTreeSet RevisionId) :=
  register.closureWalk.explore ∅ revisionIds.toList.reverse

end ScalarRegister

end PrivateContinuum.Core
