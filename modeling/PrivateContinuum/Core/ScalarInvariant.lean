import PrivateContinuum.Core.Scalar

/-! What the register checks and walks decide: validation is parent closure and
acyclicity, and the walks compute ancestry, frontier and dependency closure. -/

namespace PrivateContinuum.Core.ScalarRegister

open Std (ExtTreeSet ExtTreeMap)
open PrivateContinuum.Library

variable {Value : Type} {register : ScalarRegister Value}

theorem checkParents_ok_iff {child : ScalarRevision Value} :
    register.checkParents child = .ok () ↔ ∀ parent ∈ child.parents, parent ∈ register := by
  rw [checkParents, forM_ok_iff]
  constructor
  · intro checked parent member
    have passed := checked parent (by simpa using member)
    by_contra missing
    simp [missing] at passed
  · intro present parent member
    simp [present parent (by simpa using member)]

theorem checkParents_error {child : ScalarRevision Value} {failure : CoreError}
    (stopped : register.checkParents child = .error failure) :
    ∃ parent ∈ child.parents, parent ∉ register ∧ failure = .missingParent child.id parent := by
  obtain ⟨parent, member, failed⟩ := forM_error stopped
  split at failed
  · cases failed
  · rename_i missing
    cases failed
    exact ⟨parent, by simpa using member, missing, rfl⟩

theorem checkAllParents_ok_iff :
    forM register.statements register.checkParents = .ok () ↔ register.ParentClosed := by
  rw [forM_ok_iff]
  constructor
  · rintro checked child parent ⟨revision, found, member⟩
    have same := register.keyed child revision found
    have listed : revision ∈ register.statements := mem_statements.mpr (same ▸ found)
    exact checkParents_ok_iff.mp (checked revision listed) parent member
  · intro closed revision listed
    apply checkParents_ok_iff.mpr
    intro parent member
    exact closed revision.id parent ⟨revision, mem_statements.mp listed, member⟩

/-- Parents below their children; accessible identities lie on no cycle. -/
def Below (register : ScalarRegister Value) (parent child : RevisionId) : Prop :=
  register.Parent child parent

theorem not_ancestor_self_of_acc {id : RevisionId} (accessible : Acc register.Below id) :
    ¬ register.Ancestor id id := by
  induction accessible with
  | intro id _ ih =>
    intro cycle
    obtain ⟨parent, edge, path⟩ := Relation.TransGen.head'_iff.mp cycle
    exact ih parent edge (Relation.TransGen.tail'_iff.mpr ⟨id, path, edge⟩)

/-- What visiting several identities establishes. A failure names an identity
on a cycle as soon as the open path leads to every visited identity. -/
def Visited (register : ScalarRegister Value) (ids : List RevisionId) (state : VisitState) :
    Except CoreError VisitState → Prop
  | .ok next => (∀ id ∈ state.complete, id ∈ next.complete) ∧ (∀ id ∈ ids, id ∈ next.complete) ∧
      ((∀ id ∈ state.complete, Acc register.Below id) → ∀ id ∈ next.complete, Acc register.Below id)
  | .error failure => (∀ opened ∈ state.visiting, ∀ id ∈ ids, register.Ancestor id opened) →
      ∃ id, failure = .causalCycle id ∧ register.Ancestor id id

private theorem visitAll_visited {depth : Nat}
    (step : ∀ id state result, register.visitForCycle depth id state = some result →
      register.Visited [id] state result)
    {ids : List RevisionId} {state : VisitState} {result : Except CoreError VisitState}
    (ended : visitAll (register.visitForCycle depth) ids state = some result) :
    register.Visited ids state result := by
  induction ids generalizing state with
  | nil =>
    cases ended
    exact ⟨fun id member => member, by simp, fun accessible => accessible⟩
  | cons id rest ih =>
    rw [visitAll] at ended
    split at ended
    · rename_i next visited
      have first := step id state _ visited
      have restored := visitForCycle_visiting visited
      have later := ih ended
      cases result with
      | ok last =>
        obtain ⟨kept, done, sound⟩ := first
        obtain ⟨keptLater, doneLater, soundLater⟩ := later
        refine ⟨fun other member => keptLater other (kept other member), ?_,
          fun accessible => soundLater (sound accessible)⟩
        intro other member
        rcases List.mem_cons.mp member with same | member
        · exact same ▸ keptLater id (done id List.mem_cons_self)
        · exact doneLater other member
      | error failure =>
        intro reaches
        exact later fun opened isOpen other member =>
          reaches opened (restored ▸ isOpen) other (List.mem_cons_of_mem id member)
    · rename_i failure failed
      cases ended
      intro reaches
      apply step id state _ failed
      intro opened isOpen other member
      exact reaches opened isOpen other (by simp_all)
    · cases ended

theorem visitForCycle_visited {depth : Nat} {id : RevisionId} {state : VisitState}
    {result : Except CoreError VisitState}
    (ended : register.visitForCycle depth id state = some result) :
    register.Visited [id] state result := by
  induction depth generalizing id state result with
  | zero => cases ended
  | succ depth ih =>
    rw [visitForCycle] at ended
    split at ended
    · rename_i complete
      cases ended
      exact ⟨fun other member => member, by simpa using complete, fun accessible => accessible⟩
    · split at ended
      · rename_i isOpen
        cases ended
        intro reaches
        exact ⟨id, rfl, reaches id isOpen id List.mem_cons_self⟩
      · split at ended
        · rename_i next visited
          cases ended
          obtain ⟨kept, done, sound⟩ := visitAll_visited (fun _ _ _ => ih) visited
          refine ⟨fun other member => by simp [ExtTreeSet.mem_insert, kept other member],
            by simp, ?_⟩
          intro accessible other member
          rcases ExtTreeSet.mem_insert.mp member with same | member
          · have same : id = other := Std.LawfulEqCmp.eq_of_compare same
            subst other
            constructor
            intro parent edge
            exact sound accessible parent (done parent (mem_parentList.mpr edge))
          · exact sound accessible other member
        · rename_i failure failed
          cases ended
          intro reaches
          apply visitAll_visited (fun _ _ _ => ih) failed
          intro opened isOpen parent member
          have edge : register.Parent id parent := mem_parentList.mp member
          rcases ExtTreeSet.mem_insert.mp isOpen with same | isOpen
          · have same : id = opened := Std.LawfulEqCmp.eq_of_compare same
            exact same ▸ Relation.TransGen.single edge
          · exact Relation.TransGen.tail (reaches opened isOpen id List.mem_cons_self) edge
        · cases ended

private theorem checkCycles_visited :
    register.Visited register.revisions.keys ⟨∅, ∅⟩
      (register.checkCycles.get register.checkCycles_isSome) :=
  visitAll_visited (fun _ _ _ => visitForCycle_visited)
    (Option.some_get register.checkCycles_isSome).symm

theorem checkCycles_ok {last : VisitState}
    (done : register.checkCycles.get register.checkCycles_isSome = .ok last) :
    register.Acyclic := by
  have visited := register.checkCycles_visited
  rw [done] at visited
  obtain ⟨_, complete, sound⟩ := visited
  intro id cycle
  have known : id ∈ register.revisions.keys := ExtTreeMap.mem_keys.mpr cycle.descendant_mem
  have accessible := sound (by simp) id (complete id known)
  exact not_ancestor_self_of_acc accessible cycle

theorem checkCycles_error {failure : CoreError}
    (stopped : register.checkCycles.get register.checkCycles_isSome = .error failure) :
    ∃ id, failure = .causalCycle id ∧ register.Ancestor id id := by
  have visited := register.checkCycles_visited
  rw [stopped] at visited
  exact visited (by simp)

theorem validate_ok_iff :
    register.validate = .ok () ↔ register.ParentClosed ∧ register.Acyclic := by
  simp only [validate, bind_ok_iff, pure_eq_ok]
  constructor
  · rintro ⟨⟨⟩, parents, last, cycles, _⟩
    exact ⟨checkAllParents_ok_iff.mp parents, checkCycles_ok cycles⟩
  · rintro ⟨closed, acyclic⟩
    refine ⟨(), checkAllParents_ok_iff.mpr closed, ?_⟩
    cases cycles : register.checkCycles.get register.checkCycles_isSome with
    | ok last => exact ⟨last, rfl, trivial⟩
    | error failure =>
      obtain ⟨id, _, cycle⟩ := checkCycles_error cycles
      exact absurd cycle (acyclic id)

/-- A rejection names a real missing parent or an identity on a cycle. -/
theorem validate_error {failure : CoreError} (stopped : register.validate = .error failure) :
    (∃ child parent, register.Parent child parent ∧ parent ∉ register ∧
      failure = .missingParent child parent) ∨
    ∃ id, failure = .causalCycle id ∧ register.Ancestor id id := by
  rw [validate, bind_error_iff] at stopped
  rcases stopped with parents | ⟨_, _, cycles⟩
  · obtain ⟨child, listed, failed⟩ := forM_error parents
    obtain ⟨parent, member, missing, same⟩ := checkParents_error failed
    exact Or.inl ⟨child.id, parent, ⟨child, mem_statements.mp listed, member⟩, missing, same⟩
  · rw [bind_error_iff] at cycles
    rcases cycles with failed | ⟨_, _, impossible⟩
    · exact Or.inr (checkCycles_error failed)
    · cases impossible

/-- A register that passes `validate`. -/
abbrev Valid (register : ScalarRegister Value) : Prop := register.validate = .ok ()

theorem Valid.closed (valid : register.Valid) :
    register.ParentClosed := (validate_ok_iff.mp valid).1

theorem Valid.acyclic (valid : register.Valid) : register.Acyclic := (validate_ok_iff.mp valid).2

theorem ParentClosed.ancestor_mem (closed : register.ParentClosed)
    {ancestor descendant : RevisionId} (path : register.Ancestor ancestor descendant) :
    ancestor ∈ register := by
  obtain ⟨child, _, edge⟩ := Relation.TransGen.tail'_iff.mp path
  exact closed child ancestor edge

theorem dominationWalk_edge (source target : RevisionId) :
    register.dominationWalk.Edge source target ↔ register.Parent source target := by
  simp [Worklist.Edge, dominationWalk, mem_parentList]

theorem ancestorWalk_edge (sought source target : RevisionId) :
    (register.ancestorWalk sought).Edge source target ↔ register.Parent source target := by
  simp [Worklist.Edge, ancestorWalk, mem_parentList]

theorem closureWalk_edge (source target : RevisionId) :
    register.closureWalk.Edge source target ↔ register.Parent source target := by
  cases found : register.revision source <;>
    simp [Worklist.Edge, closureWalk, Parent, found]

private theorem reach_of_edge {Failure : Type} {walk : Worklist RevisionId Failure}
    (edges : ∀ source target, walk.Edge source target ↔ register.Parent source target)
    {source target : RevisionId} :
    walk.Reach source target ↔ Relation.ReflTransGen register.Parent source target := by
  have same : walk.Edge = register.Parent := by
    funext from' to'
    exact propext (edges from' to')
  rw [Worklist.Reach, same]

/-- Strict ancestry is what the walk from the parents of a revision reaches. -/
theorem ancestor_iff_parent_reach {ancestor descendant : RevisionId} :
    register.Ancestor ancestor descendant ↔
      ∃ revision, register.revision descendant = some revision ∧
      ∃ start ∈ revision.parents, Relation.ReflTransGen register.Parent start ancestor := by
  constructor
  · intro path
    obtain ⟨start, ⟨revision, found, member⟩, rest⟩ := Relation.TransGen.head'_iff.mp path
    exact ⟨revision, found, start, member, rest⟩
  · rintro ⟨revision, found, start, member, rest⟩
    exact Relation.TransGen.head'_iff.mpr ⟨start, ⟨revision, found, member⟩, rest⟩

theorem isAncestor_iff {ancestor descendant : RevisionId} :
    register.isAncestor ancestor descendant = true ↔ register.Ancestor ancestor descendant := by
  rw [ancestor_iff_parent_reach, isAncestor]
  cases found : register.revision descendant with
  | none => simp
  | some revision =>
    dsimp only
    constructor
    · intro accepted
      split at accepted
      · cases accepted
      · rename_i stopped
        obtain ⟨start, member, node, path, fails⟩ := Worklist.explore_fails stopped
        have same : node = ancestor := by
          simpa [Worklist.Fails, ancestorWalk] using fails
        subst node
        refine ⟨revision, rfl, start, by simpa using member, ?_⟩
        exact (reach_of_edge (register.ancestorWalk_edge ancestor)).mp path
    · rintro ⟨other, same, start, member, path⟩
      cases same
      split
      · rename_i seen done
        have reached := (reach_of_edge (register.ancestorWalk_edge ancestor)).mpr path
        have stacked : start ∈ revision.parents.toList.reverse := by simpa using member
        exact absurd (Or.inl (by simp [ancestorWalk]))
          (Worklist.explore_not_fails done stacked reached ())
      · rfl

instance (ancestor descendant : RevisionId) : Decidable (register.Ancestor ancestor descendant) :=
  decidable_of_iff _ isAncestor_iff

private theorem dominate_spec {dominated : ExtTreeSet RevisionId} (revision : ScalarRevision Value)
    (closed : register.dominationWalk.Closed dominated) :
    register.dominationWalk.Closed (register.dominate dominated revision) ∧
      ∀ id, id ∈ register.dominate dominated revision ↔ id ∈ dominated ∨
        ∃ start ∈ revision.parents, Relation.ReflTransGen register.Parent start id := by
  unfold dominate
  split
  · rename_i next done
    refine ⟨Worklist.explore_closed closed done, fun id => ?_⟩
    rw [Worklist.mem_explore_iff closed done]
    simp only [List.mem_reverse, ExtTreeSet.mem_toList, reach_of_edge register.dominationWalk_edge]
  · rename_i impossible _
    exact nomatch impossible

private theorem dominateAll_spec (revisions : List (ScalarRevision Value))
    {dominated : ExtTreeSet RevisionId} (closed : register.dominationWalk.Closed dominated) :
    ∀ id, id ∈ revisions.foldl register.dominate dominated ↔ id ∈ dominated ∨
      ∃ revision ∈ revisions, ∃ start ∈ revision.parents,
        Relation.ReflTransGen register.Parent start id := by
  induction revisions generalizing dominated with
  | nil => simp
  | cons revision rest ih =>
    intro id
    obtain ⟨stillClosed, members⟩ := dominate_spec revision closed
    rw [List.foldl_cons, ih stillClosed, members]
    simp only [List.mem_cons, exists_eq_or_imp, or_assoc]

theorem mem_frontierIds {id : RevisionId} :
    id ∈ register.frontierIds ↔
    id ∈ register ∧ ∀ descendant, ¬ register.Ancestor id descendant := by
  have dominated : id ∈ register.statements.foldl register.dominate ∅ ↔
      ∃ descendant, register.Ancestor id descendant := by
    rw [dominateAll_spec register.statements register.dominationWalk.closed_empty]
    simp only [ExtTreeSet.not_mem_empty, false_or]
    constructor
    · rintro ⟨revision, listed, start, member, path⟩
      exact ⟨revision.id, ancestor_iff_parent_reach.mpr
        ⟨revision, mem_statements.mp listed, start, member, path⟩⟩
    · rintro ⟨descendant, path⟩
      obtain ⟨revision, found, start, member, rest⟩ := ancestor_iff_parent_reach.mp path
      have same := register.keyed descendant revision found
      exact ⟨revision, mem_statements.mpr (same ▸ found), start, member, rest⟩
  simp only [frontierIds, ExtTreeSet.mem_filter, ExtTreeSet.get_eq, mem_ids, decide_eq_true_eq,
    dominated, not_exists, exists_prop]

/-- A completed dependency closure is the reflexive-transitive parent closure,
and all of it is present. -/
theorem dependencyClosure_ok {revisionIds closure : ExtTreeSet RevisionId}
    (done : register.dependencyClosure revisionIds = .ok closure) :
    (∀ id, id ∈ closure ↔
      ∃ start ∈ revisionIds, Relation.ReflTransGen register.Parent start id) ∧
      ∀ id ∈ closure, id ∈ register := by
  have members : ∀ id, id ∈ closure ↔
      ∃ start ∈ revisionIds, Relation.ReflTransGen register.Parent start id := by
    intro id
    rw [Worklist.mem_explore_iff register.closureWalk.closed_empty done]
    simp [reach_of_edge register.closureWalk_edge]
  refine ⟨members, fun id member => ?_⟩
  obtain ⟨start, named, path⟩ := (members id).mp member
  have stacked : start ∈ revisionIds.toList.reverse := by simpa using named
  have sound := Worklist.explore_not_fails done stacked
    ((reach_of_edge register.closureWalk_edge).mpr path) (.unknownRevision id)
  rw [mem_iff]
  cases found : register.revision id with
  | some revision => exact ⟨revision, rfl⟩
  | none => exact absurd (Or.inr (by simp [closureWalk, found])) sound

theorem dependencyClosure_error {revisionIds : ExtTreeSet RevisionId} {failure : CoreError}
    (stopped : register.dependencyClosure revisionIds = .error failure) :
    ∃ start ∈ revisionIds, ∃ id, Relation.ReflTransGen register.Parent start id ∧
      id ∉ register ∧ failure = .unknownRevision id := by
  obtain ⟨start, stacked, id, path, fails⟩ := Worklist.explore_fails stopped
  refine ⟨start, by simpa using stacked, id, (reach_of_edge register.closureWalk_edge).mp path, ?_⟩
  cases found : register.revision id with
  | some revision => simp [Worklist.Fails, closureWalk, found] at fails
  | none =>
    have missing : id ∉ register := by simp [mem_iff, found]
    simp only [Worklist.Fails, closureWalk, found, reduceCtorEq, false_or,
      Except.error.injEq] at fails
    exact ⟨missing, fails.symm⟩

theorem ParentClosed.dependencyClosure_isOk (closed : register.ParentClosed)
    {revisionIds : ExtTreeSet RevisionId} (known : ∀ id ∈ revisionIds, id ∈ register) :
    ∃ closure, register.dependencyClosure revisionIds = .ok closure := by
  cases outcome : register.dependencyClosure revisionIds with
  | ok closure => exact ⟨closure, rfl⟩
  | error failure =>
    obtain ⟨start, named, id, path, missing, _⟩ := dependencyClosure_error outcome
    rcases Relation.ReflTransGen.cases_tail path with same | ⟨child, _, edge⟩
    · exact absurd (same ▸ known start named) missing
    · exact absurd (closed child id edge) missing

private theorem finite_members (register : ScalarRegister Value) :
    Finite { id // id ∈ register } := by
  apply Set.Finite.to_subtype
  apply Set.Finite.subset (List.finite_toSet register.revisions.keys)
  intro id known
  exact ExtTreeMap.mem_keys.mpr known

theorem Acyclic.frontier_dominates (acyclic : register.Acyclic) {id : RevisionId}
    (known : id ∈ register) :
    id ∈ register.frontierIds ∨ ∃ top ∈ register.frontierIds, register.Ancestor id top := by
  have finite := register.finite_members
  let above (left right : { id // id ∈ register }) : Prop := register.Ancestor right.1 left.1
  have transitive : IsTrans { id // id ∈ register } above :=
    ⟨fun _ _ _ first second => Relation.TransGen.trans first second⟩
  have irreflexive : Std.Irrefl above := ⟨fun node => acyclic node.1⟩
  have wellFounded : WellFounded above := Finite.wellFounded_of_trans_of_irrefl above
  induction node :
    (⟨id, known⟩ : { id // id ∈ register }) using wellFounded.induction generalizing id with
  | _ current ih =>
    subst node
    by_cases maximal : ∀ descendant, ¬ register.Ancestor id descendant
    · exact Or.inl (mem_frontierIds.mpr ⟨known, maximal⟩)
    · push Not at maximal
      obtain ⟨descendant, path⟩ := maximal
      right
      rcases ih ⟨descendant, path.descendant_mem⟩ path path.descendant_mem rfl with top | ⟨top,
        member, rest⟩
      · exact ⟨descendant, top, path⟩
      · exact ⟨top, member, Relation.TransGen.trans rest path⟩

end PrivateContinuum.Core.ScalarRegister
