import PrivateContinuum.Reference.BoundedResolution

namespace PrivateContinuum.Reference

open Std (ExtTreeSet)
open Relation PrivateContinuum.Library

theorem size_insert_fresh {ids : ExtTreeSet String} {id : String} (fresh : id ∉ ids) :
    (ids.insert id).size = ids.size + 1 := by
  rw [ExtTreeSet.size_insert, if_neg]
  rwa [ExtTreeSet.contains_iff_mem]

section Placements

variable {register other : Placements} {rejected others : ExtTreeSet String}
  {revision : ScalarRevision (Option String)} {revisionId : String} {level more : Nat}

theorem materialize_stored (ordered : register.Ordered)
    (found : materializeRegister rejected register = some revision) :
    register.revisions.get revision.revisionId = some revision ∧
    revision.revisionId ∉ rejected := by
  obtain ⟨stored, free⟩ := ScalarRegister.materialized_mem found
  obtain ⟨held, kept⟩ := Dict.get_filter.mp (ScalarRegister.mem_frontier.mp free).1
  rw [ordered.keyed stored revision held]
  exact ⟨held, of_decide_eq_true kept⟩

/-- No placement is materialized only where all of them are rejected. -/
theorem materialize_none_iff (ordered : register.Ordered) :
    materializeRegister rejected register = none ↔
    ∀ revisionId ∈ register.revisions.keys, revisionId ∈ rejected := by
  constructor
  · intro absent revisionId member
    by_contra kept
    obtain ⟨revision, held⟩ := Dict.mem_keys.mp member
    have there : revisionId ∈ (register.revisions.filter fun revisionId =>
        revisionId ∉ rejected).keys :=
      Dict.mem_keys.mpr ⟨revision, Dict.get_filter.mpr ⟨held, decide_eq_true kept⟩⟩
    obtain ⟨best, found⟩ :=
      (ordered.filter fun revisionId => revisionId ∉ rejected).materialized_exists
        (List.ne_nil_of_mem there)
    rw [materializeRegister, found] at absent
    cases absent
  · intro every
    cases found : materializeRegister rejected register with
    | none => rfl
    | some revision =>
      obtain ⟨held, kept⟩ := materialize_stored ordered found
      exact absurd (every _ (Dict.mem_keys.mpr ⟨revision, held⟩)) kept

theorem materialize_congr
    (same : ∀ revisionId ∈ register.revisions.keys, revisionId ∈ rejected ↔ revisionId ∈ others) :
    materializeRegister rejected register = materializeRegister others register := by
  have filters : (register.revisions.filter fun revisionId => revisionId ∉ rejected) =
      register.revisions.filter fun revisionId => revisionId ∉ others :=
    Dict.filter_congr fun revisionId member => by simp only [same revisionId member]
  rw [materializeRegister, materializeRegister, filters]

/-- The first placements that are materialized, each after the ones before it are rejected. -/
def spent (register : Placements) : Nat → ExtTreeSet String
  | 0 => ∅
  | level + 1 =>
    match materializeRegister (spent register level) register with
    | some revision => (spent register level).insert revision.revisionId
    | none => spent register level

def nthPlacement (register : Placements) (level : Nat) : Option (ScalarRevision (Option String)) :=
  materializeRegister (spent register level) register

theorem spent_some (found : nthPlacement register level = some revision) :
    spent register (level + 1) = (spent register level).insert revision.revisionId := by
  rw [nthPlacement] at found
  rw [spent, found]

theorem spent_none (absent : nthPlacement register level = none) :
    spent register (level + 1) = spent register level := by
  rw [nthPlacement] at absent
  rw [spent, absent]

theorem spent_keys (ordered : register.Ordered) (member : revisionId ∈ spent register level) :
    revisionId ∈ register.revisions.keys := by
  induction level with
  | zero => simp [spent] at member
  | succ level ih =>
    cases found : nthPlacement register level with
    | none =>
      rw [spent_none found] at member
      exact ih member
    | some revision =>
      rw [spent_some found, ExtTreeSet.mem_insert, Std.LawfulEqCmp.compare_eq_iff_eq] at member
      rcases member with rfl | before
      · exact Dict.mem_keys.mpr ⟨revision, (materialize_stored ordered found).1⟩
      · exact ih before

theorem nthPlacement_none (absent : nthPlacement register level = none) (later : level ≤ more) :
    nthPlacement register more = none := by
  induction later with
  | refl => exact absent
  | step _ ih =>
    rw [nthPlacement, spent_none ih]
    exact ih

theorem size_spent (ordered : register.Ordered)
    (found : nthPlacement register level = some revision) :
    (spent register level).size = level := by
  induction level generalizing revision with
  | zero => rfl
  | succ level ih =>
    cases before : nthPlacement register level with
    | none =>
      rw [nthPlacement_none before (Nat.le_succ level)] at found
      cases found
    | some earlier =>
      rw [spent_some before, size_insert_fresh (materialize_stored ordered before).2, ih before]

/-- There are no more placements than revisions. -/
theorem nthPlacement_lt (ordered : register.Ordered)
    (found : nthPlacement register level = some revision) :
    level < register.revisions.keys.length := by
  obtain ⟨held, fresh⟩ := materialize_stored ordered found
  have distinct : (revision.revisionId :: (spent register level).toList).Nodup := by
    refine List.nodup_cons.mpr ⟨fun inside => fresh (ExtTreeSet.mem_toList.mp inside), ?_⟩
    exact ExtTreeSet.distinct_toList.imp fun apart same =>
      apart (Std.LawfulEqCmp.compare_eq_iff_eq.mpr same)
  have known : revision.revisionId :: (spent register level).toList ⊆ register.revisions.keys := by
    intro revisionId member
    rcases List.mem_cons.mp member with rfl | inside
    · exact Dict.mem_keys.mpr ⟨revision, held⟩
    · exact spent_keys ordered (ExtTreeSet.mem_toList.mp inside)
  have shorter := (List.subperm_of_subset distinct known).length_le
  rw [List.length_cons, ExtTreeSet.length_toList, size_spent ordered found] at shorter
  exact shorter

theorem materialize_eq (ordered : register.Ordered)
    (same : ∀ revisionId, register.revisions.get revisionId = other.revisions.get revisionId) :
    materializeRegister rejected register = materializeRegister rejected other := by
  apply (ordered.filter _).materialized_eq
  intro revisionId
  apply Option.ext
  intro revision
  rw [Dict.get_filter, Dict.get_filter, same]

theorem spent_eq (ordered : register.Ordered)
    (same : ∀ revisionId, register.revisions.get revisionId = other.revisions.get revisionId) :
    spent register level = spent other level := by
  induction level with
  | zero => rfl
  | succ level ih => rw [spent, spent, ih, materialize_eq ordered same]

end Placements

namespace HierarchyLab

variable {lab : HierarchyLab} {atomId : String} {register : Placements}
  {revision : ScalarRevision (Option String)} {taken : String → Nat}
  {rejected next : ExtTreeSet String} {active : ActivePlacements}

/-- The placement of an atom after so many of them were rejected. -/
def nth (lab : HierarchyLab) (atomId : String) (level : Nat) :
    Option (ScalarRevision (Option String)) :=
  (lab.parents.get atomId).bind fun register => nthPlacement register level

def nthId (lab : HierarchyLab) (atomId : String) (level : Nat) : String :=
  ((lab.nth atomId level).map ScalarRevision.revisionId).getD ""

/-- The losers of cycles fall back to their next placement. -/
def history (lab : HierarchyLab) : Fallback String Bytes where
  parent := fun atomId level => (lab.nth atomId level).bind ScalarRevision.value
  key := fun atomId level => ((lab.nth atomId level).map ScalarRevision.key).getD []

/-- The number of placements of an atom. -/
def placements (lab : HierarchyLab) (atomId : String) : Nat :=
  ((lab.parents.get atomId).map fun register => register.revisions.keys.length).getD 0

theorem nth_mem {level : Nat} (found : lab.nth atomId level = some revision) :
    atomId ∈ lab.parents.keys := by
  obtain ⟨register, stored, _⟩ := Option.bind_eq_some_iff.mp found
  exact Dict.mem_keys.mpr ⟨register, stored⟩

theorem Clear.nth_placed (clear : lab.Clear) {level : Nat}
    (found : lab.nth atomId level = some revision) :
    lab.Placed atomId revision := by
  obtain ⟨register, stored, taken⟩ := Option.bind_eq_some_iff.mp found
  exact ⟨register, stored, (materialize_stored (clear.ordered stored) taken).1⟩

theorem Clear.history_bounded (clear : lab.Clear) :
    lab.history.Bounded lab.parents.keys.toFinset lab.placements := by
  constructor
  · intro atomId level parent points
    obtain ⟨revision, found, _⟩ := Option.bind_eq_some_iff.mp points
    exact List.mem_toFinset.mpr (nth_mem found)
  · intro atomId level beyond
    cases found : lab.nth atomId level with
    | none => simp only [history, found, Option.bind_none]
    | some revision =>
      obtain ⟨register, stored, taken⟩ := Option.bind_eq_some_iff.mp found
      have fewer := nthPlacement_lt (clear.ordered stored) taken
      rw [placements, stored, Option.map_some, Option.getD_some] at beyond
      omega

/-- The rejected revisions, after the atoms have fallen back so many times. -/
structure Spent (lab : HierarchyLab) (taken : String → Nat)
    (rejected : ExtTreeSet String) : Prop where
  mem : ∀ revisionId, revisionId ∈ rejected ↔
    ∃ atomId register, lab.parents.get atomId = some register ∧
      revisionId ∈ spent register (taken atomId)
  size : rejected.size = ∑ atomId ∈ lab.parents.keys.toFinset, taken atomId

/-- An atom has no placement left. -/
def Exhausted (lab : HierarchyLab) (taken : String → Nat) : Prop :=
  ∃ atomId register, lab.parents.get atomId = some register ∧
    nthPlacement register (taken atomId) = none

theorem Exhausted.later {later : String → Nat} (exhausted : lab.Exhausted taken)
    (grown : ∀ atomId, taken atomId ≤ later atomId) :
    lab.Exhausted later := by
  obtain ⟨atomId, register, stored, absent⟩ := exhausted
  exact ⟨atomId, register, stored, nthPlacement_none absent (grown atomId)⟩

theorem Spent.start : lab.Spent (fun _ => 0) ∅ := by
  constructor
  · simp [spent]
  · simp

/-- A revision is stored in the register of one atom. -/
theorem Clear.owner (clear : lab.Clear) {other revisionId : String} {register later : Placements}
    (stored : lab.parents.get atomId = some register) (also : lab.parents.get other = some later)
    (member : revisionId ∈ register.revisions.keys)
    (inLater : revisionId ∈ later.revisions.keys) : atomId = other := by
  obtain ⟨first, held⟩ := Dict.mem_keys.mp member
  obtain ⟨second, kept⟩ := Dict.mem_keys.mp inLater
  have one := (clear.ordered stored).keyed revisionId first held
  have two := (clear.ordered also).keyed revisionId second kept
  have keys : first.key = second.key := by
    have both : (Except.ok first.key : Except ModelError Bytes) = .ok second.key := by
      rw [ScalarRevision.key,
        ScalarRevision.key, ← first.canonical.bytes_eq, ← second.canonical.bytes_eq, one, two]
    exact Except.ok.inj both
  have inLab : lab ∈ [lab] := List.mem_singleton_self lab
  exact (clear.apart.placements lab inLab lab inLab atomId other first second
    (clear.sound.placed stored held) (clear.sound.placed also kept) keys).1

/-- Without the rejected placements, each atom has its next one. -/
theorem Spent.materialize (holds : lab.Spent taken rejected) (clear : lab.Clear)
    (stored : lab.parents.get atomId = some register) :
    materializeRegister rejected register = nthPlacement register (taken atomId) := by
  apply materialize_congr
  intro revisionId member
  rw [holds.mem]
  constructor
  · rintro ⟨other, later, also, inside⟩
    have same := clear.owner stored also member (spent_keys (clear.ordered also) inside)
    subst same
    rw [stored, Option.some.injEq] at also
    rwa [also]
  · intro inside
    exact ⟨atomId, register, stored, inside⟩

theorem Clear.takes_left (clear : lab.Clear) : lab.Takes (materializeRegister rejected) := by
  intro atomId register revision stored found
  exact ⟨register, stored, (materialize_stored (clear.ordered stored) found).1⟩

/-- The loop over the atoms fails where one of them is exhausted, and takes the next
placements elsewhere. -/
theorem Spent.active_cases (holds : lab.Spent taken rejected) (clear : lab.Clear) :
    (lab.Exhausted taken ∧ lab.activePlacements rejected = .error .placementsExhausted) ∨
      (¬ lab.Exhausted taken ∧ ∃ active, lab.activePlacements rejected = .ok active ∧
        lab.Activated (materializeRegister rejected) active) := by
  by_cases exhausted : lab.Exhausted taken
  · obtain ⟨atomId, register, stored, absent⟩ := exhausted
    refine Or.inl ⟨⟨atomId, register, stored, absent⟩, ?_⟩
    exact activateAll_error clear.sound clear.takes_left stored
      ((holds.materialize clear stored).trans absent)
  · refine Or.inr ⟨exhausted,
      activateAll_ok clear.sound clear.takes_left fun atomId register stored => ?_⟩
    apply Option.ne_none_iff_exists'.mp
    intro absent
    exact exhausted ⟨atomId, register, stored, (holds.materialize clear stored).symm.trans absent⟩

theorem Spent.insert (holds : lab.Spent taken rejected) (clear : lab.Clear)
    (found : lab.nth atomId (taken atomId) = some revision) :
    revision.revisionId ∉ rejected ∧
      lab.Spent (Function.update taken atomId (taken atomId + 1))
        (rejected.insert revision.revisionId) := by
  obtain ⟨register, stored, nth⟩ := Option.bind_eq_some_iff.mp found
  have fresh : revision.revisionId ∉ rejected :=
    (materialize_stored (clear.ordered stored) ((holds.materialize clear stored).trans nth)).2
  refine ⟨fresh, ?_, ?_⟩
  · intro revisionId
    rw [ExtTreeSet.mem_insert, Std.LawfulEqCmp.compare_eq_iff_eq, holds.mem]
    constructor
    · rintro (rfl | ⟨other, later, also, inside⟩)
      · refine ⟨atomId, register, stored, ?_⟩
        rw [Function.update_self, spent_some nth, ExtTreeSet.mem_insert]
        exact Or.inl Std.ReflCmp.compare_self
      · refine ⟨other, later, also, ?_⟩
        by_cases here : other = atomId
        · subst here
          rw [stored, Option.some.injEq] at also
          subst also
          rw [Function.update_self, spent_some nth, ExtTreeSet.mem_insert]
          exact Or.inr inside
        · rwa [Function.update_of_ne here]
    · rintro ⟨other, later, also, inside⟩
      by_cases here : other = atomId
      · subst here
        rw [stored, Option.some.injEq] at also
        subst also
        rw [Function.update_self, spent_some nth, ExtTreeSet.mem_insert,
          Std.LawfulEqCmp.compare_eq_iff_eq] at inside
        exact inside.imp_right fun before => ⟨other, register, stored, before⟩
      · rw [Function.update_of_ne here] at inside
        exact Or.inr ⟨other, later, also, inside⟩
  · rw [size_insert_fresh fresh, holds.size,
      Fallback.sum_update_succ (List.mem_toFinset.mpr (nth_mem found))]

/-- The active parents are what the atoms point to after so many rejected placements. -/
theorem Spent.edge (holds : lab.Spent taken rejected) (clear : lab.Clear)
    (activated : lab.Activated (materializeRegister rejected) active) :
    (parentGraph active.parents).Edge = lab.history.Edge taken := by
  funext node other
  apply propext
  simp only [Pointers.Edge, Fallback.Edge, parentGraph, history, nth, activated.parents]
  cases stored : lab.parents.get node with
  | none => simp
  | some register =>
    rw [Option.bind_some, Option.bind_some, holds.materialize clear stored]
    cases nthPlacement register (taken node) with
    | none => simp
    | some revision => simp

theorem Spent.acyclic_iff (holds : lab.Spent taken rejected) (clear : lab.Clear)
    (activated : lab.Activated (materializeRegister rejected) active) :
    (parentGraph active.parents).Acyclic ↔ lab.history.Settled taken := by
  simp only [Pointers.Acyclic, Pointers.OnCycle, Fallback.Settled, Fallback.OnCycle,
    holds.edge clear activated]

/-- One iteration of the resolver, for any of the cycles. -/
def RejectTurn (lab : HierarchyLab) (rejected next : ExtTreeSet String) : Prop :=
  ∃ active cycle, lab.activePlacements rejected = .ok active ∧
    (parentGraph active.parents).IsCycle cycle ∧
    rejectLowest active.revisionIds rejected cycle = .ok next

/-- Treating any cycle rejects the placement of its loser. -/
theorem Spent.rejectLowest_ok (holds : lab.Spent taken rejected) (clear : lab.Clear)
    (activated : lab.Activated (materializeRegister rejected) active) {cycle : List String}
    (isCycle : (parentGraph active.parents).IsCycle cycle) :
    ∃ loser ∈ cycle, ∃ revision, lab.nth loser (taken loser) = some revision ∧
      lab.history.Loses taken loser ∧
      rejectLowest active.revisionIds rejected cycle =
        .ok (rejected.insert revision.revisionId) := by
  have edge := holds.edge clear activated
  have rounds : ∀ atomId ∈ cycle, lab.history.OnCycle taken atomId := by
    intro atomId inside
    have round := isCycle.round atomId inside
    rwa [Pointers.OnCycle, edge] at round
  have placed : ∀ atomId ∈ cycle, ∃ revision, lab.nth atomId (taken atomId) = some revision := by
    intro atomId inside
    obtain ⟨parent, points, _⟩ := TransGen.head'_iff.mp (rounds atomId inside)
    obtain ⟨revision, found, _⟩ := Option.bind_eq_some_iff.mp points
    exact ⟨revision, found⟩
  have looked : ∀ atomId ∈ cycle, lookup active.revisionIds atomId =
      .ok (lab.nthId atomId (taken atomId)) := by
    intro atomId inside
    obtain ⟨revision, found⟩ := placed atomId inside
    obtain ⟨register, stored, nth⟩ := Option.bind_eq_some_iff.mp found
    rw [lookup_ok_iff, activated.revisionIds, stored, Option.bind_some,
      holds.materialize clear stored, nth, nthId, found]
    rfl
  have keyed : ∀ revisionId ∈ cycle.map fun atomId => lab.nthId atomId (taken atomId),
      canonicalId revisionId = .ok ((canonicalId revisionId).toOption.getD []) := by
    intro revisionId listed
    obtain ⟨atomId, inside, rfl⟩ := List.mem_map.mp listed
    obtain ⟨revision, found⟩ := placed atomId inside
    rw [nthId, found, Option.map_some, Option.getD_some, revision.canonical.bytes_eq]
    rfl
  have key : ∀ atomId ∈ cycle, (canonicalId (lab.nthId atomId (taken atomId))).toOption.getD [] =
      lab.history.key atomId (taken atomId) := by
    intro atomId inside
    obtain ⟨revision, found⟩ := placed atomId inside
    simp only [nthId, history, found, Option.map_some, Option.getD_some,
      revision.canonical.bytes_eq]
    rfl
  have present : (cycle.map fun atomId => lab.nthId atomId (taken atomId)) ≠ [] := by
    rw [Ne, List.map_eq_nil_iff]
    exact isCycle.nonempty
  obtain ⟨lowest, listed, chosen, fewest⟩ := least_ok ModelError.emptySequence present keyed
  obtain ⟨loser, member, rfl⟩ := List.mem_map.mp listed
  obtain ⟨revision, found⟩ := placed loser member
  have named : lab.nthId loser (taken loser) = revision.revisionId := by
    rw [nthId, found]
    rfl
  refine ⟨loser, member, revision, found, ⟨rounds loser member, fun other path apart => ?_⟩, ?_⟩
  · have inside : other ∈ cycle := by
      apply (isCycle.exactly loser member other).mp
      rwa [Pointers.Reaches, edge]
    have bound := fewest _ (List.mem_map_of_mem inside)
    rw [key loser member, key other inside] at bound
    cases ordered : compare (lab.history.key loser (taken loser))
      (lab.history.key other (taken other)) with
    | lt => rfl
    | eq =>
      obtain ⟨later, also⟩ := placed other inside
      have keys := Std.LawfulEqCmp.eq_of_compare ordered
      simp only [history, found, also, Option.map_some, Option.getD_some] at keys
      have inLab : lab ∈ [lab] := List.mem_singleton_self lab
      exact absurd (clear.apart.placements lab inLab lab inLab loser other revision later
        (clear.nth_placed found) (clear.nth_placed also) keys).1.symm apart
    | gt =>
      rw [ordered] at bound
      cases bound
  · rw [rejectLowest, mapM_eq_map looked]
    change (least canonicalId _ _ >>= fun loser => _) = _
    rw [chosen, named]
    change (if revision.revisionId ∈ rejected then _ else _) = _
    rw [if_neg (holds.insert clear found).1]
    rfl

theorem Spent.turn_step (holds : lab.Spent taken rejected) (clear : lab.Clear)
    (turned : lab.RejectTurn rejected next) :
    ∃ later, lab.history.Step taken later ∧ lab.Spent later next := by
  obtain ⟨active, cycle, activates, isCycle, done⟩ := turned
  rcases holds.active_cases clear with ⟨_, failed⟩ | ⟨_, also, activates', activated⟩
  · rw [activates] at failed
    cases failed
  · rw [activates] at activates'
    cases activates'
    obtain ⟨loser, _, revision, found, loses, same⟩ := holds.rejectLowest_ok clear activated isCycle
    rw [same] at done
    cases done
    exact ⟨_, ⟨loser, loses, rfl⟩, (holds.insert clear found).2⟩

theorem Spent.turns_run (holds : lab.Spent taken rejected) (clear : lab.Clear)
    (turns : ReflTransGen lab.RejectTurn rejected next) :
    ∃ later, lab.history.Run taken later ∧ lab.Spent later next := by
  induction turns with
  | refl => exact ⟨taken, .refl, holds⟩
  | tail _ turned ih =>
    obtain ⟨later, run, spent⟩ := ih
    obtain ⟨last, step, done⟩ := spent.turn_step clear turned
    exact ⟨last, .tail run step, done⟩

/-- What the resolver ends with, where the atoms have fallen back so many times. -/
inductive Ends (lab : HierarchyLab) (last : String → Nat) (final : ExtTreeSet String) :
    Except ModelError ResolvedHierarchy → Prop where
  | exhausted (exhausted : lab.Exhausted last)
      (failed : lab.activePlacements final = .error .placementsExhausted) :
      Ends lab last final (.error .placementsExhausted)
  | resolved {active : ActivePlacements} (left : ¬ lab.Exhausted last)
      (activates : lab.activePlacements final = .ok active)
      (activated : lab.Activated (materializeRegister final) active)
        (acyclic : (parentGraph active.parents).Acyclic) :
      Ends lab last final (.ok ⟨active.parents, active.revisionIds, final⟩)

/-- With room for all placements that are left, the loop ends. -/
theorem Spent.rejectFrom_ends (fuel : Nat) (holds : lab.Spent taken rejected) (clear : lab.Clear)
    (within : ∀ atomId, taken atomId ≤ lab.placements atomId)
    (room : ∑ atomId ∈ lab.parents.keys.toFinset, lab.placements atomId < rejected.size + fuel) :
    ∃ last final, lab.history.Run taken last ∧ lab.Spent last final ∧
      ReflTransGen lab.RejectTurn rejected final ∧
      lab.Ends last final (lab.rejectFrom fuel rejected) := by
  induction fuel generalizing taken rejected with
  | zero =>
    have fewer := Finset.sum_le_sum fun atomId (_ : atomId ∈ lab.parents.keys.toFinset) =>
      within atomId
    rw [← holds.size] at fewer
    omega
  | succ fuel ih =>
    rw [rejectFrom]
    rcases holds.active_cases clear with ⟨exhausted, failed⟩ | ⟨left, active, activates, activated⟩
    · rw [failed]
      exact ⟨taken, rejected, .refl, holds, .refl, .exhausted exhausted failed⟩
    · rw [activates]
      simp only [bind, Except.bind]
      rcases (parentGraph active.parents).findCycle_cases with ⟨cycle, found,
        isCycle⟩ | ⟨none, acyclic⟩
      · obtain ⟨loser, _, revision, nth, loses, done⟩ :=
          holds.rejectLowest_ok clear activated isCycle
        obtain ⟨fresh, spent⟩ := holds.insert clear nth
        have step : lab.history.Step taken (Function.update taken loser (taken loser + 1)) :=
          ⟨loser, loses, rfl⟩
        have more : (rejected.insert revision.revisionId).size = rejected.size + 1 :=
          size_insert_fresh fresh
        obtain ⟨last, final, run, ends, turns, outcome⟩ :=
          ih spent (clear.history_bounded.run_le (.single step) within) (by omega)
        refine ⟨last, final, .head step run, ends,
          .head ⟨active, cycle, activates, isCycle, done⟩ turns, ?_⟩
        simp only [findCycle, found, done]
        exact outcome
      · refine ⟨taken, rejected, .refl, holds, .refl, ?_⟩
        simp only [findCycle, none]
        exact .resolved left activates activated acyclic

end HierarchyLab

end PrivateContinuum.Reference
