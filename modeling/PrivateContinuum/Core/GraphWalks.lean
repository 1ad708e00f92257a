import PrivateContinuum.Core.Handoff

namespace PrivateContinuum.Core

open Std (ExtTreeSet ExtTreeMap)
open PrivateContinuum.Library

variable {Value : Type}

namespace ScalarRegister

variable {register : ScalarRegister Value}

private theorem visitAll_more
    {visit deeper : RevisionId → VisitState → Option (Except CoreError VisitState)}
    (same : ∀ id state result, visit id state = some result → deeper id state = some result)
    {ids : List RevisionId} {state : VisitState} {result : Except CoreError VisitState}
    (ended : visitAll visit ids state = some result) : visitAll deeper ids state = some result := by
  induction ids generalizing state with
  | nil => exact ended
  | cons id rest ih =>
    rw [visitAll] at ended ⊢
    cases visited : visit id state with
    | none => simp [visited] at ended
    | some outcome =>
      rw [same id state outcome visited]
      rw [visited] at ended
      cases outcome with
      | ok next => exact ih ended
      | error failure => exact ended

theorem visitForCycle_more {depth more : Nat} {id : RevisionId} {state : VisitState}
    {result : Except CoreError VisitState}
    (ended : register.visitForCycle depth id state = some result) (room : depth ≤ more) :
    register.visitForCycle more id state = some result := by
  induction depth generalizing more id state result with
  | zero => cases ended
  | succ depth ih =>
    obtain ⟨more, rfl⟩ : ∃ less, more = less + 1 := ⟨more - 1, by omega⟩
    have room : depth ≤ more := by omega
    rw [visitForCycle] at ended ⊢
    by_cases complete : id ∈ state.complete
    · rwa [if_pos complete] at ended ⊢
    by_cases visiting : id ∈ state.visiting
    · rwa [if_neg complete, if_pos visiting] at ended ⊢
    rw [if_neg complete, if_neg visiting] at ended ⊢
    cases walked : visitAll (register.visitForCycle depth) (register.parentList id)
        { state with visiting := state.visiting.insert id } with
    | none => simp [walked] at ended
    | some outcome =>
      rw [visitAll_more (fun _ _ _ visited => ih visited room) walked]
      rwa [walked] at ended

/-- The recursion of the cycle check ends on every map: from some depth on, the outcome is
the one that `validate` uses. -/
theorem checkCycles_ends (register : ScalarRegister Value) : ∃ bound, ∀ depth, bound ≤ depth →
    visitAll (register.visitForCycle depth) register.revisions.keys ⟨∅, ∅⟩ =
      some (register.checkCycles.get register.checkCycles_isSome) := by
  refine ⟨register.depthBound ⟨∅, ∅⟩, fun depth room => ?_⟩
  exact visitAll_more (fun _ _ _ visited => visitForCycle_more visited room)
    (Option.some_get register.checkCycles_isSome).symm

/-- Validation ends, accepts exactly the parent-closed acyclic maps, and a rejection names
a real missing parent or a known identity on a cycle. -/
theorem validate_sound_complete (register : ScalarRegister Value) :
    (∃ bound, ∀ depth, bound ≤ depth →
      visitAll (register.visitForCycle depth) register.revisions.keys ⟨∅, ∅⟩ =
        some (register.checkCycles.get register.checkCycles_isSome)) ∧
    (register.validate = .ok () ↔
      (∀ child parent, register.Parent child parent → parent ∈ register) ∧
        ∀ id, ¬ register.Ancestor id id) ∧
    (∀ failure, register.validate = .error failure →
      (∃ child parent, failure = .missingParent child parent) ∨ ∃ id, failure = .causalCycle id) ∧
    (∀ child parent, register.validate = .error (.missingParent child parent) →
      child ∈ register ∧ register.Parent child parent ∧ parent ∉ register) ∧
    ∀ id, register.validate = .error (.causalCycle id) →
      id ∈ register ∧ register.Ancestor id id := by
  refine ⟨register.checkCycles_ends, validate_ok_iff, ?_, ?_, ?_⟩
  · intro failure stopped
    rcases validate_error stopped with ⟨child, parent, _, _, same⟩ | ⟨id, same, _⟩
    · exact Or.inl ⟨child, parent, same⟩
    · exact Or.inr ⟨id, same⟩
  · intro child parent stopped
    rcases validate_error stopped with ⟨holder, missing, edge, absent, same⟩ | ⟨_, same, _⟩
    · cases same
      exact ⟨edge.child_mem, edge, absent⟩
    · cases same
  · intro id stopped
    rcases validate_error stopped with ⟨_, _, _, _, same⟩ | ⟨other, same, cycle⟩
    · cases same
    · cases same
      exact ⟨cycle.descendant_mem, cycle⟩

/-- Reached from some identities by zero or more parent steps. -/
def Dependency (register : ScalarRegister Value) (ids : ExtTreeSet RevisionId)
    (id : RevisionId) : Prop :=
  ∃ start ∈ ids, Relation.ReflTransGen register.Parent start id

/-- The closure loop returns all dependencies where they are known, and names an unknown
one otherwise. -/
theorem dependencyClosure_cases (register : ScalarRegister Value) (ids : ExtTreeSet RevisionId) :
    ((∀ id, register.Dependency ids id → id ∈ register) ∧
      ∃ closure, register.dependencyClosure ids = .ok closure ∧ ∀ id, id ∈ closure ↔
      register.Dependency ids id) ∨
    ∃ id, register.Dependency ids id ∧ id ∉ register ∧
      register.dependencyClosure ids = .error (.unknownRevision id) := by
  cases outcome : register.dependencyClosure ids with
  | ok closure =>
    obtain ⟨members, known⟩ := dependencyClosure_ok outcome
    exact Or.inl ⟨fun id reached => known id ((members id).mpr reached), closure, rfl, members⟩
  | error failure =>
    obtain ⟨start, named, id, path, missing, same⟩ := dependencyClosure_error outcome
    exact Or.inr ⟨id, ⟨start, named, path⟩, missing, by rw [same]⟩

end ScalarRegister

section Handoff

variable [DecidableEq Value] {ledger : FinalizationLedger Value} {register : ScalarRegister Value}
  {closure : ExtTreeSet RevisionId} {ids : List RevisionId}

theorem FinalizationLedger.handoff_of_closure (validated : ledger.validateAgainst register = .ok ())
    (closed : register.dependencyClosure (.ofList ids) = .ok closure) :
    ledger.handoff register ids = match ledger.checkFinalized closure with
      | .ok _ => (.ok (), ledger.expose (.ofList ids) closure)
      | .error failure => (.error failure, ledger) := by
  cases checked : ledger.checkFinalized closure with
  | ok _ => simp only [handoff, validated, closed, bind, Except.bind, checked, pure, Except.pure]
  | error failure => simp only [handoff, validated, closed, bind, Except.bind, checked]

theorem FinalizationLedger.handoff_of_unknown {failure : CoreError}
    (validated : ledger.validateAgainst register = .ok ())
    (stopped : register.dependencyClosure (.ofList ids) = .error failure) :
    ledger.handoff register ids = (.error failure, ledger) := by
  simp only [handoff, validated, stopped, bind, Except.bind]

end Handoff

namespace ScalarRegister

/-- The walks end on every map and compute ancestry, the maximal identities and the
reflexive-transitive closure, in `dependency_closure` and inside `handoff` alike. -/
theorem walks_exact [DecidableEq Value] (register : ScalarRegister Value) :
    ((∀ ancestor, (register.ancestorWalk ancestor).Ends) ∧ register.dominationWalk.Ends ∧
      register.closureWalk.Ends) ∧
    (∀ ancestor descendant, register.isAncestor ancestor descendant = true ↔
      descendant ∈ register ∧ register.Ancestor ancestor descendant) ∧
    (∀ id, id ∈ register.frontierIds ↔
      id ∈ register ∧ ∀ descendant ∈ register, ¬ register.Ancestor id descendant) ∧
    (register.Valid →
      ((∃ id, id ∈ register.frontierIds) ↔ ∃ id, id ∈ register) ∧
      (∀ left ∈ register.frontierIds, ∀ right ∈ register.frontierIds,
        ¬ register.Ancestor left right) ∧
      ∀ id ∈ register, id ∈ register.frontierIds ∨
        ∃ top ∈ register.frontierIds, register.Ancestor id top) ∧
    (∀ ids,
      ((∀ id, register.Dependency ids id → id ∈ register) → ∃ closure,
        register.dependencyClosure ids = .ok closure ∧
          ∀ id, id ∈ closure ↔ register.Dependency ids id) ∧
      ((∃ id, register.Dependency ids id ∧ id ∉ register) →
        ∃ id, register.Dependency ids id ∧ id ∉ register ∧
        register.dependencyClosure ids = .error (.unknownRevision id))) ∧
    ∀ (ledger : FinalizationLedger Value) (ids : List RevisionId),
      ledger.validateAgainst register = .ok () →
      ((∀ id, register.Dependency (.ofList ids) id → id ∈ register) → ∃ closure,
        (∀ id, id ∈ closure ↔ register.Dependency (.ofList ids) id) ∧
        ledger.handoff register ids = match ledger.checkFinalized closure with
          | .ok _ => (.ok (), ledger.expose (.ofList ids) closure)
          | .error failure => (.error failure, ledger)) ∧
      ((∃ id, register.Dependency (.ofList ids) id ∧ id ∉ register) →
        ∃ id, register.Dependency (.ofList ids) id ∧ id ∉ register ∧
          ledger.handoff register ids = (.error (.unknownRevision id), ledger)) := by
  refine ⟨⟨fun _ => Worklist.ends _, Worklist.ends _, Worklist.ends _⟩, ?_, ?_, ?_, ?_, ?_⟩
  · intro ancestor descendant
    rw [isAncestor_iff]
    exact ⟨fun path => ⟨path.descendant_mem, path⟩, And.right⟩
  · intro id
    rw [mem_frontierIds]
    exact and_congr_right fun _ =>
      ⟨fun maximal descendant _ => maximal descendant, fun maximal descendant path =>
        maximal descendant path.descendant_mem path⟩
  · intro valid
    have covered : ∀ id ∈ register, id ∈ register.frontierIds ∨
        ∃ top ∈ register.frontierIds, register.Ancestor id top :=
      fun id known => valid.acyclic.frontier_dominates known
    refine ⟨⟨?_, ?_⟩, ?_, covered⟩
    · rintro ⟨id, member⟩
      exact ⟨id, (mem_frontierIds.mp member).1⟩
    · rintro ⟨id, known⟩
      rcases covered id known with member | ⟨top, member, _⟩
      · exact ⟨id, member⟩
      · exact ⟨top, member⟩
    · intro left member right _
      exact (mem_frontierIds.mp member).2 right
  · intro ids
    rcases register.dependencyClosure_cases ids with ⟨known, complete⟩ | unknown
    · exact ⟨fun _ => complete, fun ⟨id, reached, missing⟩ => absurd (known id reached) missing⟩
    · exact ⟨fun known => by
        obtain ⟨id, reached, missing, _⟩ := unknown
        exact absurd (known id reached) missing, fun _ => unknown⟩
  · intro ledger ids validated
    rcases register.dependencyClosure_cases (.ofList ids) with ⟨known, closure, closed,
      members⟩ | ⟨id, reached, missing, stopped⟩
    · exact ⟨fun _ => ⟨closure, members, FinalizationLedger.handoff_of_closure validated closed⟩,
        fun ⟨id, reached, missing⟩ => absurd (known id reached) missing⟩
    · exact ⟨fun known => absurd (known id reached) missing,
        fun _ => ⟨id, reached, missing, FinalizationLedger.handoff_of_unknown validated stopped⟩⟩

end ScalarRegister

end PrivateContinuum.Core
