import PrivateContinuum.Library.Fallback
import PrivateContinuum.Reference.Materialization

namespace PrivateContinuum.Reference

open Std (ExtTreeSet LawfulEqOrd)
open Relation PrivateContinuum.Library

theorem Priority.compare_eq_iff {left right : Priority} :
    compare left right = .eq ↔ left = right := by
  change (compare left.revision right.revision).then (compare left.atom right.atom) = .eq ↔ _
  rw [Ordering.then_eq_eq, Std.LawfulEqCmp.compare_eq_iff_eq, Std.LawfulEqCmp.compare_eq_iff_eq]
  constructor
  · rintro ⟨revisions, atoms⟩
    obtain ⟨revision, atom⟩ := left
    subst revisions
    subst atoms
    rfl
  · rintro rfl
    exact ⟨rfl, rfl⟩

theorem lookup_ok_iff {Item : Type} {mapping : Dict String Item} {key : String} {item : Item} :
    lookup mapping key = .ok item ↔ mapping.get key = some item := by
  rw [lookup]
  cases mapping.get key with
  | none => simp
  | some held => simp

theorem cycleKey_ok {cycle : List String} (canonical : ∀ atomId ∈ cycle, Canonical atomId) :
    cycleKey cycle =
      .ok ((cycle.map fun atomId => (canonicalId atomId).toOption.getD []).insertionSort
      fun left right => (compare left right).isLE) := by
  have every : ∀ atomId ∈ cycle,
      canonicalId atomId = .ok ((canonicalId atomId).toOption.getD []) := by
    intro atomId inside
    obtain ⟨bytes, found⟩ := canonical atomId inside
    rw [found]
    rfl
  rw [cycleKey, mapM_eq_map every]
  rfl

namespace HierarchyLab

variable {lab : HierarchyLab} {atomId : String} {active : ActivePlacements}
  {revision : ScalarRevision (Option String)} {failures : PlacementFailures}

/-- The current placement of an atom. -/
def placement (lab : HierarchyLab) (atomId : String) : Option (ScalarRevision (Option String)) :=
  (lab.parents.get atomId).bind ScalarRegister.materializedRevision

theorem Clear.takes_current (clear : lab.Clear) :
    lab.Takes ScalarRegister.materializedRevision := by
  intro atomId register revision found taken
  obtain ⟨revisionId, free⟩ := ScalarRegister.materialized_mem taken
  exact clear.sound.placed found (ScalarRegister.mem_frontier.mp free).1

theorem Clear.placement_exists (clear : lab.Clear) (member : atomId ∈ lab.parents.keys) :
    ∃ revision, lab.placement atomId = some revision := by
  obtain ⟨register, found⟩ := Dict.mem_keys.mp member
  rw [placement, found]
  exact (clear.ordered found).materialized_exists (clear.sound.nonempty atomId register found)

theorem Clear.placement_placed (clear : lab.Clear) (found : lab.placement atomId = some revision) :
    lab.Placed atomId revision := by
  obtain ⟨register, stored, taken⟩ := Option.bind_eq_some_iff.mp found
  exact clear.takes_current atomId register revision stored taken

theorem Clear.currentState_ok (clear : lab.Clear) : ∃ active, lab.currentState = .ok active ∧
    lab.Activated ScalarRegister.materializedRevision active :=
  activateAll_ok clear.sound clear.takes_current fun atomId register found =>
    (clear.ordered found).materialized_exists (clear.sound.nonempty atomId register found)

theorem Activated.revisionId
    (activated : lab.Activated ScalarRegister.materializedRevision active) :
    active.revisionIds.get atomId = (lab.placement atomId).map ScalarRevision.revisionId := by
  rw [activated.revisionIds, placement, Option.map_bind]
  rfl

/-- What the losers of cycles fall back to: from the current parent to a second choice, and
from there to the root. -/
def choice (lab : HierarchyLab) (second : String → Option String)
    (atomId : String) : Nat → Option String
  | 0 => (lab.placement atomId).bind ScalarRevision.value
  | 1 => second atomId
  | _ + 2 => none

def choices (lab : HierarchyLab) (second : String → Option String) : Fallback String Priority where
  parent := lab.choice second
  key := fun atomId _ =>
    ⟨((lab.placement atomId).map ScalarRevision.key).getD [], (canonicalId atomId).toOption.getD []⟩

/-- The pair that the code compares is the key of the atom. -/
theorem Clear.priority_eq (clear : lab.Clear)
    (activated : lab.Activated ScalarRegister.materializedRevision active)
    (second : String → Option String) (level : Nat) (member : atomId ∈ lab.parents.keys) :
    priority active.revisionIds atomId = .ok ((lab.choices second).key atomId level) := by
  obtain ⟨revision, found⟩ := clear.placement_exists member
  obtain ⟨bytes, named⟩ := clear.sound.named atomId member
  have source : lookup active.revisionIds atomId = .ok revision.revisionId := by
    rw [lookup_ok_iff, activated.revisionId, found]
    rfl
  have key : (lab.choices second).key atomId level = ⟨revision.key, bytes⟩ := by
    simp only [choices, found, named, Option.map_some, Option.getD_some, Except.toOption]
  rw [key, priority, source, named]
  change (canonicalId revision.revisionId >>= fun bytes => _) = _
  rw [revision.canonical.bytes_eq]
  rfl

theorem Clear.key_inj (clear : lab.Clear) (second : String → Option String) {other : String}
    {level otherLevel : Nat} (member : atomId ∈ lab.parents.keys)
    (also : other ∈ lab.parents.keys)
    (same : (lab.choices second).key atomId level = (lab.choices second).key other otherLevel) :
    atomId = other := by
  obtain ⟨revision, found⟩ := clear.placement_exists member
  obtain ⟨later, stored⟩ := clear.placement_exists also
  have keys := congrArg Priority.revision same
  simp only [choices, found, stored, Option.map_some, Option.getD_some] at keys
  have inLab : lab ∈ [lab] := List.mem_singleton_self lab
  exact (clear.apart.placements lab inLab lab inLab atomId other revision later
    (clear.placement_placed found) (clear.placement_placed stored) keys).1

/-- The code finds the atom of a cycle with the least key, and no other has that key. -/
theorem Clear.chooseLoser_ok (clear : lab.Clear)
    (activated : lab.Activated ScalarRegister.materializedRevision active)
    (second : String → Option String) (taken : String → Nat) {cycle : List String}
    (nonempty : cycle ≠ []) (members : ∀ atomId ∈ cycle, atomId ∈ lab.parents.keys) :
    ∃ loser ∈ cycle, chooseLoser cycle active.revisionIds = .ok loser ∧
      ∀ other ∈ cycle, other ≠ loser →
      compare ((lab.choices second).key loser (taken loser))
        ((lab.choices second).key other (taken other)) = .lt := by
  obtain ⟨loser, member, chosen, fewest⟩ := least_ok ModelError.emptySequence nonempty
    fun atomId inside => clear.priority_eq activated second (taken atomId) (members atomId inside)
  refine ⟨loser, member, chosen, fun other inside apart => ?_⟩
  have bound := fewest other inside
  cases ordered : compare ((lab.choices second).key loser (taken loser))
    ((lab.choices second).key other (taken other)) with
  | lt => rfl
  | eq =>
    have same := clear.key_inj second (members loser member) (members other inside)
      (Priority.compare_eq_iff.mp ordered)
    exact absurd same.symm apart
  | gt =>
    rw [ordered] at bound
    cases bound

/-- The variables of the loop, after the atoms have fallen back so many times. -/
structure Tracks (lab : HierarchyLab) (second : String → Option String) (mode : Nat → FallbackMode)
    (taken : String → Nat) (state : Fallbacks) : Prop where
  parents : ∀ atomId, state.parents.get atomId = (lab.parents.get atomId).map fun _ =>
    lab.choice second atomId (taken atomId)
  modes : ∀ atomId, state.modes.get atomId = (lab.parents.get atomId).map fun _ =>
    mode (taken atomId)
  rejected : ∀ revisionId, revisionId ∈ state.rejected ↔
    ∃ atomId revision, lab.placement atomId = some revision ∧ 0 < taken atomId ∧
      revision.revisionId = revisionId
  steps : ∀ atomId, state.steps.get atomId = if taken atomId = 0 then none else some (taken atomId)
  iterations : state.iterations = ∑ atomId ∈ lab.parents.keys.toFinset, taken atomId

variable {second : String → Option String} {mode : Nat → FallbackMode} {taken : String → Nat}
  {state : Fallbacks}

theorem Tracks.start (second : String → Option String)
    (activated : lab.Activated ScalarRegister.materializedRevision active) (clear : lab.Clear)
    (first : mode 0 = .current) :
    lab.Tracks second mode (fun _ => 0) (Fallbacks.start active.parents) := by
  have parents : ∀ atomId, active.parents.get atomId = (lab.parents.get atomId).map fun _ =>
      lab.choice second atomId 0 := by
    intro atomId
    rw [activated.parents, choice, placement]
    cases found : lab.parents.get atomId with
    | none => rfl
    | some register =>
      obtain ⟨revision, taken⟩ :=
        (clear.ordered found).materialized_exists (clear.sound.nonempty atomId register found)
      rw [Option.bind_some, Option.map_some, Option.bind_some, taken]
      rfl
  refine ⟨parents, ?_, ?_, ?_, ?_⟩
  · intro atomId
    rw [Fallbacks.start, Dict.get_mapItems, parents, Option.map_map, first]
    rfl
  · simp [Fallbacks.start]
  · intro atomId
    rfl
  · simp [Fallbacks.start]

theorem Tracks.mem_keys (tracks : lab.Tracks second mode taken state) :
    atomId ∈ state.parents.keys ↔ atomId ∈ lab.parents.keys := by
  rw [Dict.mem_keys, Dict.mem_keys]
  simp only [tracks.parents, Option.map_eq_some_iff]
  constructor
  · rintro ⟨_, register, found, _⟩
    exact ⟨register, found⟩
  · rintro ⟨register, found⟩
    exact ⟨_, register, found, rfl⟩

theorem Tracks.fallBack (tracks : lab.Tracks second mode taken state)
    (member : atomId ∈ lab.parents.keys) (found : lab.placement atomId = some revision) :
    lab.Tracks second mode (Function.update taken atomId (taken atomId + 1))
      (state.fallBack atomId revision.revisionId (lab.choice second atomId (taken atomId + 1))
        (mode (taken atomId + 1))) := by
  obtain ⟨register, stored⟩ := Dict.mem_keys.mp member
  refine ⟨?_, ?_, ?_, ?_, ?_⟩
  · intro other
    rw [Fallbacks.fallBack, Dict.get_set]
    by_cases here : atomId = other
    · subst here
      rw [if_pos rfl, stored, Function.update_self]
      rfl
    · rw [if_neg here, Function.update_of_ne (Ne.symm here), tracks.parents]
  · intro other
    rw [Fallbacks.fallBack, Dict.get_set]
    by_cases here : atomId = other
    · subst here
      rw [if_pos rfl, stored, Function.update_self]
      rfl
    · rw [if_neg here, Function.update_of_ne (Ne.symm here), tracks.modes]
  · intro revisionId
    rw [Fallbacks.fallBack, ExtTreeSet.mem_insert, Std.LawfulEqCmp.compare_eq_iff_eq,
      tracks.rejected]
    constructor
    · rintro (rfl | ⟨other, held, known, positive, same⟩)
      · exact ⟨atomId, revision, found, by rw [Function.update_self]; omega, rfl⟩
      · refine ⟨other, held, known, ?_, same⟩
        by_cases here : other = atomId
        · rw [here, Function.update_self]
          omega
        · rwa [Function.update_of_ne here]
    · rintro ⟨other, held, known, positive, rfl⟩
      by_cases here : other = atomId
      · rw [here, found, Option.some.injEq] at known
        exact Or.inl (congrArg ScalarRevision.revisionId known)
      · rw [Function.update_of_ne here] at positive
        exact Or.inr ⟨other, held, known, positive, rfl⟩
  · intro other
    rw [Fallbacks.fallBack, Dict.get_set]
    by_cases here : atomId = other
    · subst here
      rw [if_pos rfl, Function.update_self, if_neg (Nat.succ_ne_zero _), tracks.steps]
      by_cases none : taken atomId = 0
      · simp [none]
      · simp [none]
    · rw [if_neg here, Function.update_of_ne (Ne.symm here), tracks.steps]
  · have listed : atomId ∈ lab.parents.keys.toFinset := List.mem_toFinset.mpr member
    rw [Fallback.sum_update_succ listed, ← tracks.iterations]
    rfl

/-- What a bounded resolver does with a loser, and how often an atom can lose. -/
structure Policy (lab : HierarchyLab) where
  second : String → Option String
  mode : Nat → FallbackMode
  limit : Nat
  reject : Dict String String → Fallbacks → String → Except ModelError Fallbacks
  first : mode 0 = .current
  bounded : (lab.choices second).Bounded lab.parents.keys.toFinset fun _ => limit
  rejects : ∀ active state taken loser revision,
    lab.Activated ScalarRegister.materializedRevision active →
    lab.Tracks second mode taken state → lab.placement loser = some revision → taken loser < limit →
      reject active.revisionIds state loser = .ok
        (state.fallBack loser revision.revisionId (lab.choice second loser (taken loser + 1))
          (mode (taken loser + 1)))

theorem placement_mem (found : lab.placement atomId = some revision) :
    atomId ∈ lab.parents.keys := by
  obtain ⟨register, stored, _⟩ := Option.bind_eq_some_iff.mp found
  exact Dict.mem_keys.mpr ⟨register, stored⟩

theorem choices_bounded {limit : Nat} (two : limit ≤ 2)
    (short : limit < 2 → ∀ atomId, second atomId = none) (one : 0 < limit)
    (known : ∀ atomId parent, second atomId = some parent → atomId ∈ lab.parents.keys) :
    (lab.choices second).Bounded lab.parents.keys.toFinset fun _ => limit := by
  constructor
  · intro atomId level parent points
    rw [List.mem_toFinset]
    cases level with
    | zero =>
      obtain ⟨revision, found, _⟩ := Option.bind_eq_some_iff.mp points
      exact placement_mem found
    | succ level =>
      cases level with
      | zero => exact known atomId parent points
      | succ level => cases points
  · intro atomId level beyond
    obtain ⟨level, rfl⟩ : ∃ less, level = less + 1 := ⟨level - 1, by omega⟩
    cases level with
    | zero => exact short (by omega) atomId
    | succ level => rfl

/-- The mode of an atom that goes to the root at once. -/
def rootMode : Nat → FallbackMode
  | 0 => .current
  | _ + 1 => .root

/-- The mode of an atom that goes to its witness first. -/
def witnessMode : Nat → FallbackMode
  | 0 => .current
  | 1 => .witness
  | _ + 2 => .root

theorem Tracks.mode_ok (tracks : lab.Tracks second mode taken state)
    (member : atomId ∈ lab.parents.keys) :
    lookup state.modes atomId = .ok (mode (taken atomId)) := by
  obtain ⟨register, stored⟩ := Dict.mem_keys.mp member
  rw [lookup_ok_iff, tracks.modes, stored, Option.map_some]

theorem Activated.source_ok
    (activated : lab.Activated ScalarRegister.materializedRevision active)
    (found : lab.placement atomId = some revision) :
    lookup active.revisionIds atomId = .ok revision.revisionId := by
  rw [lookup_ok_iff, activated.revisionId, found, Option.map_some]

theorem root_bounded :
    (lab.choices fun _ => none).Bounded lab.parents.keys.toFinset fun _ => 1 := by
  apply choices_bounded (Nat.le_succ 1) (fun _ _ => rfl) Nat.one_pos
  intro atomId parent impossible
  cases impossible

theorem toRoot_ok (activated : lab.Activated ScalarRegister.materializedRevision active)
    (tracks : lab.Tracks (fun _ => none) rootMode taken state)
    (found : lab.placement atomId = some revision) (fewer : taken atomId < 1) :
    Fallbacks.toRoot active.revisionIds state atomId = .ok
      (state.fallBack atomId revision.revisionId
        (lab.choice (fun _ => none) atomId (taken atomId + 1)) (rootMode (taken atomId + 1))) := by
  have none : taken atomId = 0 := Nat.lt_one_iff.mp fewer
  rw [Fallbacks.toRoot, tracks.mode_ok (placement_mem found), activated.source_ok found, none]
  rfl

def rootPolicy (lab : HierarchyLab) : lab.Policy where
  second := fun _ => none
  mode := rootMode
  limit := 1
  reject := Fallbacks.toRoot
  first := rfl
  bounded := root_bounded
  rejects := fun _ _ _ _ _ => toRoot_ok

/-- The witness of the current placement of an atom. -/
def witness (lab : HierarchyLab) (atomId : String) : Option String :=
  (lab.placement atomId).bind fun revision =>
    (lab.previousParentWitnesses.get revision.revisionId).join

theorem previousParentWitnesses_eq : lab.previousParentWitnesses =
    (lab.parents.values.flatMap fun register => register.revisions.items.map fun entry =>
      (entry.1, previousParent register entry.2)).foldl (fun grown entry =>
      grown.set entry.1 entry.2) Dict.empty := by
  rw [previousParentWitnesses, List.foldl_flatMap]
  simp only [List.foldl_map]

/-- The witness of a placement is the parent that was materialized before it. -/
theorem Clear.witness_eq (clear : lab.Clear) {register : Placements}
    (stored : lab.parents.get atomId = some register)
    (found : lab.placement atomId = some revision) :
    lab.witness atomId = previousParent register revision := by
  obtain ⟨same, there, held⟩ := clear.placement_placed found
  rw [stored, Option.some.injEq] at there
  subst there
  have known : revision.revisionId ∈ lab.previousParentWitnesses.keys := by
    rw [previousParentWitnesses_eq]
    apply Dict.foldl_set_known
    refine Or.inl
      (List.mem_map.mpr ⟨(revision.revisionId, previousParent register revision), ?_, rfl⟩)
    exact List.mem_flatMap.mpr ⟨register, Dict.mem_values.mpr ⟨atomId, stored⟩,
      List.mem_map.mpr ⟨(revision.revisionId, revision), Dict.get_iff.mp held, rfl⟩⟩
  obtain ⟨parent, kept⟩ := Dict.mem_keys.mp known
  have origin := kept
  rw [previousParentWitnesses_eq] at origin
  rcases Dict.foldl_set_origin origin with listed | impossible
  · obtain ⟨other, inValues, inItems⟩ := List.mem_flatMap.mp listed
    obtain ⟨owner, owned⟩ := Dict.mem_values.mp inValues
    obtain ⟨entry, member, same⟩ := List.mem_map.mp inItems
    rw [Prod.mk.injEq] at same
    have entryHeld : other.revisions.get entry.1 = some entry.2 := Dict.get_iff.mpr member
    have placed := clear.sound.placed owned entryHeld
    have ids : entry.2.revisionId = revision.revisionId :=
      ((clear.sound.historical owner other owned).keyed entry.1 entry.2 entryHeld).trans same.1
    have keys : entry.2.key = revision.key := by
      have both : (Except.ok entry.2.key : Except ModelError Bytes) = .ok revision.key := by
        rw [ScalarRevision.key,
          ScalarRevision.key, ← entry.2.canonical.bytes_eq, ← revision.canonical.bytes_eq, ids]
      exact Except.ok.inj both
    have inLab : lab ∈ [lab] := List.mem_singleton_self lab
    obtain ⟨rfl, revisions⟩ :=
      clear.apart.placements lab inLab lab inLab owner atomId entry.2 revision placed
      (clear.placement_placed found) keys
    rw [stored, Option.some.injEq] at owned
    rw [witness, found, Option.bind_some, kept, ← same.2, revisions, owned]
    rfl
  · cases impossible

theorem previousParent_placed {register : Placements} {parent : String}
    (named : previousParent register revision = some parent) :
    ∃ revisionId earlier, register.revisions.get revisionId = some earlier ∧
    earlier.value = some parent := by
  rw [previousParent] at named
  split at named
  · cases named
  · rw [Option.join_eq_some_iff, ScalarRegister.materializedValue, Option.map_eq_some_iff] at named
    obtain ⟨earlier, materialized, held⟩ := named
    obtain ⟨revisionId, free⟩ := ScalarRegister.materialized_mem materialized
    exact ⟨revisionId, earlier,
      (Dict.get_filter.mp (ScalarRegister.mem_frontier.mp free).1).1, held⟩

/-- A witness is another atom of the hierarchy. -/
theorem Clear.witness_known (clear : lab.Clear) {parent : String}
    (named : lab.witness atomId = some parent) :
    atomId ∈ lab.parents.keys ∧ parent ∈ lab.parents.keys ∧ parent ≠ atomId := by
  obtain ⟨revision, found, _⟩ := Option.bind_eq_some_iff.mp named
  obtain ⟨register, stored, _⟩ := Option.bind_eq_some_iff.mp found
  rw [clear.witness_eq stored found] at named
  obtain ⟨revisionId, earlier, held, value⟩ := previousParent_placed named
  exact ⟨placement_mem found,
    clear.sound.known atomId earlier (clear.sound.placed stored held) parent value⟩

theorem Clear.witness_bounded (clear : lab.Clear) :
    (lab.choices lab.witness).Bounded lab.parents.keys.toFinset fun _ => 2 := by
  apply choices_bounded (Nat.le_refl 2) (fun impossible =>
    absurd impossible (Nat.lt_irrefl 2)) Nat.two_pos
  intro atomId parent named
  exact (clear.witness_known named).1

theorem Clear.toWitness_ok (clear : lab.Clear)
    (activated : lab.Activated ScalarRegister.materializedRevision active)
    (tracks : lab.Tracks lab.witness witnessMode taken state)
    (found : lab.placement atomId = some revision) (fewer : taken atomId < 2) :
    Fallbacks.toWitness lab.previousParentWitnesses active.revisionIds state atomId = .ok
      (state.fallBack atomId revision.revisionId (lab.choice lab.witness atomId (taken atomId + 1))
        (witnessMode (taken atomId + 1))) := by
  have counted : ∀ parent mode,
      lookup (state.fallBack atomId revision.revisionId parent mode).steps atomId =
      .ok (taken atomId + 1) := by
    intro parent mode
    rw [lookup_ok_iff, Fallbacks.fallBack, Dict.get_set, if_pos rfl, tracks.steps]
    by_cases none : taken atomId = 0
    · simp [none]
    · simp [none]
  have within : ¬ taken atomId + 1 > 2 := by omega
  rw [Fallbacks.toWitness, activated.source_ok found, tracks.mode_ok (placement_mem found)]
  rcases Nat.lt_succ_iff_lt_or_eq.mp fewer with zero | one
  · have none : taken atomId = 0 := Nat.lt_one_iff.mp zero
    have witness : (lab.previousParentWitnesses.get revision.revisionId).join =
        lab.witness atomId := by
      rw [HierarchyLab.witness, found, Option.bind_some]
    have known : ¬ (lab.witness atomId).any (fun parent => parent ∉ state.parents.keys) = true := by
      rw [Option.any_eq_true]
      rintro ⟨parent, named, absent⟩
      exact of_decide_eq_true absent (tracks.mem_keys.mpr (clear.witness_known named).2.1)
    have other : lab.witness atomId ≠ some atomId := fun own => (clear.witness_known own).2.2 rfl
    rw [none] at counted within ⊢
    simp only [bind, Except.bind, pure, Except.pure, witnessMode, witness, if_neg known,
      if_neg other, counted, if_neg within]
    rfl
  · rw [one] at counted within ⊢
    simp only [bind, Except.bind, pure, Except.pure, witnessMode, counted, if_neg within]
    rfl

def Clear.witnessPolicy (clear : lab.Clear) : lab.Policy where
  second := lab.witness
  mode := witnessMode
  limit := 2
  reject := Fallbacks.toWitness lab.previousParentWitnesses
  first := rfl
  bounded := clear.witness_bounded
  rejects := fun _ _ _ _ _ => clear.toWitness_ok

end HierarchyLab

/-- One iteration of a bounded resolver, for any of the cycles. -/
def Fallbacks.Turn (revisionIds : Dict String String)
    (reject : Fallbacks → String → Except ModelError Fallbacks) (state next : Fallbacks) : Prop :=
  ∃ cycle, (parentGraph state.parents).IsCycle cycle ∧
    state.turn revisionIds reject cycle = .ok next

theorem Fallbacks.settle_more {revisionIds : Dict String String}
    {reject : Fallbacks → String → Except ModelError Fallbacks} {fuel more : Nat}
    {state last : Fallbacks} (ended : Fallbacks.settle revisionIds reject fuel state = .ok last)
    (room : fuel ≤ more) : Fallbacks.settle revisionIds reject more state = .ok last := by
  induction fuel generalizing more state with
  | zero => cases ended
  | succ fuel ih =>
    obtain ⟨more, rfl⟩ : ∃ less, more = less + 1 := ⟨more - 1, by omega⟩
    rw [settle] at ended ⊢
    split at ended
    · rename_i none
      rw [if_pos none]
      exact ended
    · rename_i cycles
      rw [if_neg cycles]
      rw [bind_ok_iff] at ended ⊢
      obtain ⟨cycle, chosen, ended⟩ := ended
      rw [bind_ok_iff] at ended
      obtain ⟨next, turned, ended⟩ := ended
      exact ⟨cycle, chosen, bind_ok_iff.mpr ⟨next, turned, ih ended (by omega)⟩⟩

namespace HierarchyLab

section Policies

variable {lab : HierarchyLab} {active : ActivePlacements} {taken : String → Nat}
  {state next : Fallbacks} (policy : lab.Policy)

/-- The active parents are what the atoms point to after so many fallbacks. -/
theorem Policy.edge (tracks : lab.Tracks policy.second policy.mode taken state) :
    (parentGraph state.parents).Edge = (lab.choices policy.second).Edge taken := by
  funext node other
  apply propext
  rw [Pointers.Edge, Fallback.Edge, parentGraph]
  dsimp only
  rw [tracks.parents, Option.map_eq_some_iff]
  constructor
  · rintro ⟨_, _, points⟩
    exact points
  · intro points
    obtain ⟨register, stored⟩ :=
      Dict.mem_keys.mp (List.mem_toFinset.mp (policy.bounded.listed node _ other points))
    exact ⟨register, stored, points⟩

theorem Policy.acyclic_iff (tracks : lab.Tracks policy.second policy.mode taken state) :
    (parentGraph state.parents).Acyclic ↔ (lab.choices policy.second).Settled taken := by
  simp only [Pointers.Acyclic, Pointers.OnCycle, Fallback.Settled, Fallback.OnCycle,
    policy.edge tracks]

variable (clear : lab.Clear) (activated : lab.Activated ScalarRegister.materializedRevision active)

include clear activated

/-- Treating any cycle lets its loser fall back, and nothing else. -/
theorem Policy.turn_ok (tracks : lab.Tracks policy.second policy.mode taken state)
    {cycle : List String} (isCycle : (parentGraph state.parents).IsCycle cycle) :
    ∃ loser ∈ cycle, ∃ revision, lab.placement loser = some revision ∧
      (lab.choices policy.second).Loses taken loser ∧
      state.turn active.revisionIds (policy.reject active.revisionIds) cycle =
        .ok (state.fallBack loser revision.revisionId
        (lab.choice policy.second loser (taken loser + 1)) (policy.mode (taken loser + 1))) := by
  have edge := policy.edge tracks
  have rounds : ∀ atomId ∈ cycle, (lab.choices policy.second).OnCycle taken atomId := by
    intro atomId inside
    have round := isCycle.round atomId inside
    rwa [Pointers.OnCycle, edge] at round
  have members : ∀ atomId ∈ cycle, atomId ∈ lab.parents.keys := fun atomId inside =>
    List.mem_toFinset.mp (policy.bounded.onCycle (rounds atomId inside)).1
  obtain ⟨loser, member, chosen, least⟩ :=
    clear.chooseLoser_ok activated policy.second taken isCycle.nonempty members
  obtain ⟨revision, found⟩ := clear.placement_exists (members loser member)
  refine ⟨loser, member, revision, found, ⟨rounds loser member, ?_⟩, ?_⟩
  · intro other path apart
    refine least other ((isCycle.exactly loser member other).mp ?_) apart
    rwa [Pointers.Reaches, edge]
  · rw [Fallbacks.turn, chosen]
    exact policy.rejects active state taken loser revision activated tracks found
      (policy.bounded.onCycle (rounds loser member)).2

/-- An iteration is one step of the fallbacks. -/
theorem Policy.turn_step (tracks : lab.Tracks policy.second policy.mode taken state)
    (turned : Fallbacks.Turn active.revisionIds (policy.reject active.revisionIds) state next) :
    ∃ later, (lab.choices policy.second).Step taken later ∧
    lab.Tracks policy.second policy.mode later next := by
  obtain ⟨cycle, isCycle, done⟩ := turned
  obtain ⟨loser, _, revision, found, loses, same⟩ := policy.turn_ok clear activated tracks isCycle
  rw [same] at done
  cases done
  exact ⟨_, ⟨loser, loses, rfl⟩, tracks.fallBack (placement_mem found) found⟩

theorem Policy.turns_run (tracks : lab.Tracks policy.second policy.mode taken state)
    (turns : ReflTransGen (Fallbacks.Turn active.revisionIds (policy.reject active.revisionIds))
      state next) :
    ∃ later, (lab.choices policy.second).Run taken later ∧
    lab.Tracks policy.second policy.mode later next := by
  induction turns with
  | refl => exact ⟨taken, .refl, tracks⟩
  | tail _ turned ih =>
    obtain ⟨later, run, tracked⟩ := ih
    obtain ⟨last, step, done⟩ := policy.turn_step clear activated tracked turned
    exact ⟨last, .tail run step, done⟩

/-- Where there is a cycle, there is an iteration. -/
theorem Policy.turn_exists (tracks : lab.Tracks policy.second policy.mode taken state)
    {cycle : List String} (isCycle : (parentGraph state.parents).IsCycle cycle) :
    ∃ next, state.turn active.revisionIds (policy.reject active.revisionIds) cycle = .ok next ∧
      Fallbacks.Turn active.revisionIds (policy.reject active.revisionIds) state next := by
  obtain ⟨loser, _, revision, _, _, same⟩ := policy.turn_ok clear activated tracks isCycle
  exact ⟨_, same, cycle, isCycle, same⟩

/-- With room for all fallbacks that are left, the loop ends without a cycle. -/
theorem Policy.settle_ok (fuel : Nat) (tracks : lab.Tracks policy.second policy.mode taken state)
    (within : ∀ atomId, taken atomId ≤ policy.limit)
    (room : ∑ _atomId ∈ lab.parents.keys.toFinset, policy.limit < state.iterations + fuel) :
    ∃ last, Fallbacks.settle active.revisionIds (policy.reject active.revisionIds) fuel state =
      .ok last ∧ (parentGraph last.parents).Acyclic ∧
        ReflTransGen (Fallbacks.Turn active.revisionIds (policy.reject active.revisionIds)) state
          last := by
  induction fuel generalizing taken state with
  | zero =>
    have fewer := Finset.sum_le_sum fun atomId (_ : atomId ∈ lab.parents.keys.toFinset) =>
      within atomId
    rw [← tracks.iterations] at fewer
    omega
  | succ fuel ih =>
    rw [Fallbacks.settle]
    split
    · rename_i none
      exact ⟨state, rfl, Pointers.allCycles_nil_iff.mp none, .refl⟩
    · rename_i cycles
      have found := (parentGraph state.parents).allCycles_exact.1
      have keyed : ∀ cycle ∈ allCycles state.parents, cycleKey cycle = .ok (_ : List Bytes) :=
        fun cycle member =>
        cycleKey_ok fun atomId inside => clear.sound.named atomId
          (tracks.mem_keys.mp ((found cycle member).round atomId inside).listed)
      obtain ⟨cycle, member, chosen, _⟩ := least_ok ModelError.emptySequence cycles keyed
      obtain ⟨next, turned, turn⟩ := policy.turn_exists clear activated tracks (found cycle member)
      obtain ⟨later, step, tracked⟩ := policy.turn_step clear activated tracks turn
      have count := policy.bounded.sum_step step
      rw [← tracks.iterations, ← tracked.iterations] at count
      obtain ⟨last, ended, acyclic, turns⟩ :=
        ih tracked (policy.bounded.run_le (.single step) within) (by omega)
      refine ⟨last, ?_, acyclic, .head turn turns⟩
      rw [chosen]
      change (state.turn _ _ cycle >>= fun next => _) = _
      rw [turned]
      exact ended

end Policies

end HierarchyLab

end PrivateContinuum.Reference
