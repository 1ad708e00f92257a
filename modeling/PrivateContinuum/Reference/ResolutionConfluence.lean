import PrivateContinuum.Reference.HistoryResolution

/-! Cycle resolution ends, with the same result on all replicas and whatever cycle is
treated first. -/

namespace PrivateContinuum.Reference

open Std (ExtTreeSet)
open Relation PrivateContinuum.Library

/-- The resolutions are equal as values. -/
structure BoundedHierarchyResolution.Alike (left right : BoundedHierarchyResolution) : Prop where
  activeParents : ∀ atomId, left.activeParents.get atomId = right.activeParents.get atomId
  sourceRevisionIds : ∀ atomId, left.sourceRevisionIds.get atomId =
    right.sourceRevisionIds.get atomId
  fallbackModes : ∀ atomId, left.fallbackModes.get atomId = right.fallbackModes.get atomId
  rejected : left.rejectedCurrentRevisionIds = right.rejectedCurrentRevisionIds
  metrics : left.metrics = right.metrics

structure ResolvedHierarchy.Alike (left right : ResolvedHierarchy) : Prop where
  activeParents : ∀ atomId, left.activeParents.get atomId = right.activeParents.get atomId
  activeRevisionIds : ∀ atomId, left.activeRevisionIds.get atomId =
    right.activeRevisionIds.get atomId
  rejected : left.rejectedRevisionIds = right.rejectedRevisionIds

theorem maximum_eq {left right : List Nat} (permuted : left.Perm right) :
    left.max? = right.max? := by
  apply Option.ext
  intro most
  simp only [List.max?_eq_some_iff, permuted.mem_iff]

namespace HierarchyLab

section Equality

variable {lab other : HierarchyLab} {atomId : String} {register same : Placements}
  {revision : ScalarRevision (Option String)} {second : String → Option String}
  {mode : Nat → FallbackMode} {taken : String → Nat} {state later : Fallbacks}

/-- What one number of fallbacks leads to is one value. -/
theorem Tracks.finish_alike (tracks : lab.Tracks second mode taken state)
    (also : lab.Tracks second mode taken later) {sources others : Dict String String}
    (ids : ∀ atomId, sources.get atomId = others.get atomId) (cycles : Nat) :
    (state.finish sources cycles).Alike (later.finish others cycles) := by
  have parents : ∀ atomId, state.parents.get atomId = later.parents.get atomId := fun atomId =>
    (tracks.parents atomId).trans (also.parents atomId).symm
  have modes : ∀ atomId, state.modes.get atomId = later.modes.get atomId := fun atomId =>
    (tracks.modes atomId).trans (also.modes atomId).symm
  have steps : ∀ atomId, state.steps.get atomId = later.steps.get atomId := fun atomId =>
    (tracks.steps atomId).trans (also.steps atomId).symm
  have rejected : state.rejected = later.rejected := by
    apply ExtTreeSet.ext_mem
    intro revisionId
    rw [tracks.rejected, also.rejected]
  refine ⟨parents, ids, modes, rejected, ?_⟩
  have atoms : state.parents.keys.length = later.parents.keys.length :=
    ((Dict.items_perm parents).map Prod.fst).length_eq
  have values : state.modes.values.Perm later.modes.values := (Dict.items_perm modes).map Prod.snd
  have most : state.steps.values.max? = later.steps.values.max? :=
    maximum_eq ((Dict.items_perm steps).map Prod.snd)
  simp only [Fallbacks.finish, atoms, tracks.iterations, also.iterations, rejected,
    values.count_eq, most]

theorem Alike.get_none (alike : lab.Alike other) (found : lab.parents.get atomId = none) :
    other.parents.get atomId = none := by
  rw [Dict.get_none_iff] at found ⊢
  rwa [← alike.mem_keys]

theorem Alike.placement_eq (alike : lab.Alike other) (clear : lab.Clear) :
    lab.placement = other.placement := by
  funext atomId
  rw [placement, placement]
  cases found : lab.parents.get atomId with
  | none =>
    rw [alike.get_none found]
  | some register =>
    obtain ⟨same, stored, equal⟩ := alike.get found
    rw [stored]
    exact (clear.ordered found).materialized_eq equal

theorem previousParent_eq (ordered : register.Ordered)
    (equal : ∀ revisionId, register.revisions.get revisionId = same.revisions.get revisionId) :
    previousParent register revision = previousParent same revision := by
  have prior : ∀ revisionId, (register.revisions.filter fun candidateId =>
    candidateId ∈ revision.context).get revisionId =
      (same.revisions.filter fun candidateId => candidateId ∈ revision.context).get revisionId := by
    intro revisionId
    apply Option.ext
    intro earlier
    rw [Dict.get_filter, Dict.get_filter, equal]
  have empty := (Dict.items_perm prior).length_eq
  have values :
      (ScalarRegister.mk (register.revisions.filter fun candidateId =>
        candidateId ∈ revision.context)).materializedValue =
      (ScalarRegister.mk (same.revisions.filter fun candidateId =>
        candidateId ∈ revision.context)).materializedValue := by
    apply congrArg (Option.map ScalarRevision.value)
    exact (ordered.filter fun candidateId => candidateId ∈ revision.context).materialized_eq prior
  simp only [previousParent, ← List.length_eq_zero_iff, empty, values]

theorem Alike.witness_eq (alike : lab.Alike other) (clear : lab.Clear) :
    lab.witness = other.witness := by
  funext atomId
  cases found : lab.placement atomId with
  | none =>
    have absent : other.placement atomId = none := by rw [← alike.placement_eq clear, found]
    rw [witness, witness, found, absent, Option.bind_none, Option.bind_none]
  | some revision =>
    have also : other.placement atomId = some revision := by rw [← alike.placement_eq clear, found]
    obtain ⟨register, stored, _⟩ := Option.bind_eq_some_iff.mp found
    obtain ⟨same, there, equal⟩ := alike.get stored
    rw [clear.witness_eq stored found, (alike.clear clear).witness_eq there also]
    exact previousParent_eq (clear.ordered stored) equal

theorem Alike.choices_eq (alike : lab.Alike other) (clear : lab.Clear) :
    lab.choices second = other.choices second := by
  have choice : lab.choice second = other.choice second := by
    funext atomId level
    cases level with
    | zero => rw [HierarchyLab.choice, HierarchyLab.choice, alike.placement_eq clear]
    | succ level =>
      cases level with
      | zero => rfl
      | succ level => rfl
  simp only [choices, choice, alike.placement_eq clear]

theorem Alike.keys_eq (alike : lab.Alike other) :
    lab.parents.keys.toFinset = other.parents.keys.toFinset := by
  apply Finset.ext
  intro atomId
  rw [List.mem_toFinset, List.mem_toFinset, alike.mem_keys]

theorem card_keys : lab.parents.keys.toFinset.card = lab.parents.keys.length :=
  List.toFinset_card_of_nodup lab.parents.distinct

theorem Alike.length_keys (alike : lab.Alike other) :
    lab.parents.keys.length = other.parents.keys.length := by
  rw [← card_keys, ← card_keys, alike.keys_eq]

theorem Alike.tracks (alike : lab.Alike other) (clear : lab.Clear)
    (tracks : lab.Tracks second mode taken state) :
    other.Tracks second mode taken state := by
  have constant : ∀ {Item : Type} (atomId : String) (item : Item),
      (lab.parents.get atomId).map (fun _ => item) = (other.parents.get atomId).map fun _ =>
      item := by
    intro Item atomId item
    have mapped := congrArg (Option.map fun _ => item) (alike atomId)
    rwa [Option.map_map, Option.map_map] at mapped
  have choice : lab.choice second = other.choice second :=
    congrArg Fallback.parent (alike.choices_eq clear)
  refine ⟨?_, ?_, ?_, tracks.steps, ?_⟩
  · intro atomId
    rw [tracks.parents, constant, choice]
  · intro atomId
    rw [tracks.modes, constant]
  · intro revisionId
    rw [tracks.rejected, alike.placement_eq clear]
  · rw [tracks.iterations, alike.keys_eq]

theorem Alike.history_eq (alike : lab.Alike other) (clear : lab.Clear) :
    lab.history = other.history := by
  have nth : lab.nth = other.nth := by
    funext atomId level
    rw [HierarchyLab.nth, HierarchyLab.nth]
    cases found : lab.parents.get atomId with
    | none =>
      rw [alike.get_none found]
    | some register =>
      obtain ⟨same, stored, equal⟩ := alike.get found
      rw [stored, Option.bind_some, Option.bind_some, nthPlacement, nthPlacement,
        spent_eq (clear.ordered found) equal]
      exact materialize_eq (clear.ordered found) equal
  simp only [history, nth]

end Equality

section Bounded

variable {lab other : HierarchyLab} {active also : ActivePlacements}

/-- Where the loop of a bounded resolver ends. -/
structure Policy.Resolved (policy : lab.Policy) (active : ActivePlacements) (last : String → Nat)
    (final : Fallbacks) : Prop where
  current : lab.currentState = .ok active
  activated : lab.Activated ScalarRegister.materializedRevision active
  run : (lab.choices policy.second).Run (fun _ => 0) last
  settled : (lab.choices policy.second).Settled last
  tracks : lab.Tracks policy.second policy.mode last final
  turns : ReflTransGen (Fallbacks.Turn active.revisionIds (policy.reject active.revisionIds))
    (Fallbacks.start active.parents) final
  acyclic : (parentGraph final.parents).Acyclic
  ends : ∀ fuel, policy.limit * lab.parents.keys.length < fuel →
    resolveBounded policy.reject fuel lab =
      .ok (final.finish active.revisionIds (allCycles active.parents).length)

theorem Policy.resolved (policy : lab.Policy) (clear : lab.Clear) :
    ∃ active last final, policy.Resolved active last final := by
  obtain ⟨active, current, activated⟩ := clear.currentState_ok
  have start := Tracks.start policy.second activated clear policy.first
  have sum : ∑ _atomId ∈ lab.parents.keys.toFinset, policy.limit = policy.limit *
      lab.parents.keys.length := by
    rw [Finset.sum_const, card_keys, smul_eq_mul, Nat.mul_comm]
  obtain ⟨final, settles, acyclic, turns⟩ := policy.settle_ok clear activated
    (policy.limit * lab.parents.keys.length + 1) start (fun _ => Nat.zero_le _)
      (by rw [sum]; exact Nat.lt_add_left 0 (Nat.lt_succ_self _))
  obtain ⟨last, run, tracks⟩ := policy.turns_run clear activated start turns
  refine ⟨active, last, final, current, activated, run, (policy.acyclic_iff tracks).mp acyclic,
    tracks, turns, acyclic, ?_⟩
  intro fuel room
  rw [resolveBounded, current]
  change (Fallbacks.settle _ _ fuel _ >>= fun last => _) = _
  rw [Fallbacks.settle_more settles room]
  rfl

theorem Clear.cycles_eq (clear : lab.Clear) (alike : lab.Alike other)
    (activated : lab.Activated ScalarRegister.materializedRevision active)
    (activates : other.Activated ScalarRegister.materializedRevision also) :
    (allCycles active.parents).length = (allCycles also.parents).length := by
  apply Pointers.length_allCycles_eq
  have first := lab.rootPolicy.edge (Tracks.start lab.rootPolicy.second activated clear rfl)
  have second := other.rootPolicy.edge
    (Tracks.start other.rootPolicy.second activates (alike.clear clear) rfl)
  exact first.trans
    ((congrArg (fun choices => Fallback.Edge choices fun _ => 0) (alike.choices_eq clear)).trans
      second.symm)

theorem Policy.Resolved.alike {policy : lab.Policy} {again : other.Policy}
    {last later : String → Nat} {final state : Fallbacks}
    (resolved : policy.Resolved active last final) (repeated : again.Resolved also later state)
    (clear : lab.Clear) (alike : lab.Alike other) (seconds : again.second = policy.second)
    (modes : again.mode = policy.mode) :
    (final.finish active.revisionIds (allCycles active.parents).length).Alike
      (state.finish also.revisionIds (allCycles also.parents).length) := by
  have run := repeated.run
  have settled := repeated.settled
  have tracks := repeated.tracks
  rw [seconds, ← alike.choices_eq clear] at run settled
  rw [seconds, modes] at tracks
  have same : later = last := Fallback.settled_unique resolved.settled resolved.run settled run
  subst same
  rw [← clear.cycles_eq alike resolved.activated repeated.activated]
  apply resolved.tracks.finish_alike (alike.symm.tracks (alike.clear clear) tracks)
  intro atomId
  rw [resolved.activated.revisionId, repeated.activated.revisionId, alike.placement_eq clear]

/-- A bounded resolver ends within so many fallbacks of each atom, in an acyclic hierarchy.
It gives equal results for equal hierarchies, and for every order of the cycles. -/
structure Resolves (resolve : Nat → HierarchyLab → Except ModelError BoundedHierarchyResolution)
    (reject : Dict String String → Fallbacks → String → Except ModelError Fallbacks)
    (limit : Nat) (lab : HierarchyLab) (active : ActivePlacements)
    (resolution : BoundedHierarchyResolution) : Prop where
  current : lab.currentState = .ok active
  ends : ∀ fuel, limit * lab.parents.keys.length < fuel → resolve fuel lab = .ok resolution
  acyclic : (parentGraph resolution.activeParents).Acyclic
  turns : ∃ final, ReflTransGen (Fallbacks.Turn active.revisionIds (reject active.revisionIds))
    (Fallbacks.start active.parents) final ∧
    resolution = final.finish active.revisionIds (allCycles active.parents).length
  replicas : ∀ other, lab.Alike other → ∃ same, resolution.Alike same ∧
    ∀ fuel, limit * lab.parents.keys.length < fuel → resolve fuel other = .ok same
  orders : ∀ state, ReflTransGen (Fallbacks.Turn active.revisionIds (reject active.revisionIds))
    (Fallbacks.start active.parents) state → state.iterations ≤ limit * lab.parents.keys.length ∧
    (∀ cycle, (parentGraph state.parents).IsCycle cycle →
      ∃ next, state.turn active.revisionIds (reject active.revisionIds) cycle = .ok next) ∧
    ((parentGraph state.parents).Acyclic →
      resolution.Alike (state.finish active.revisionIds (allCycles active.parents).length))

theorem Policy.resolves (policy : lab.Policy) (clear : lab.Clear) {last : String → Nat}
    {final : Fallbacks} (resolved : policy.Resolved active last final)
    (resolve : Nat → HierarchyLab → Except ModelError BoundedHierarchyResolution)
    (agrees : ∀ fuel, resolve fuel lab = resolveBounded policy.reject fuel lab)
    (others : ∀ other, lab.Alike other → ∃ again : other.Policy, again.second = policy.second ∧
      again.mode = policy.mode ∧ again.limit = policy.limit ∧
      ∀ fuel, resolve fuel other = resolveBounded again.reject fuel other) :
    Resolves resolve policy.reject policy.limit lab active
      (final.finish active.revisionIds (allCycles active.parents).length) := by
  have start := Tracks.start policy.second resolved.activated clear policy.first
  refine ⟨resolved.current, ?_, resolved.acyclic, ⟨final, resolved.turns, rfl⟩, ?_, ?_⟩
  · intro fuel room
    rw [agrees, resolved.ends fuel room]
  · intro other alike
    obtain ⟨again, seconds, modes, limits, repeats⟩ := others other alike
    obtain ⟨also, later, state, repeated⟩ := again.resolved (alike.clear clear)
    refine ⟨_, resolved.alike repeated clear alike seconds modes, fun fuel room => ?_⟩
    rw [alike.length_keys, ← limits] at room
    rw [repeats, repeated.ends fuel room]
  · intro state turns
    obtain ⟨taken, run, tracks⟩ := policy.turns_run clear resolved.activated start turns
    refine ⟨?_, ?_, ?_⟩
    · rw [tracks.iterations, Nat.mul_comm, ← card_keys, ← smul_eq_mul, ← Finset.sum_const]
      exact Finset.sum_le_sum fun atomId _ =>
        policy.bounded.run_le run (fun _ => Nat.zero_le _) atomId
    · intro cycle isCycle
      obtain ⟨next, turned, _⟩ := policy.turn_exists clear resolved.activated tracks isCycle
      exact ⟨next, turned⟩
    · intro acyclic
      have same : taken = last :=
        Fallback.settled_unique resolved.settled resolved.run
          ((policy.acyclic_iff tracks).mp acyclic) run
      subst same
      exact resolved.tracks.finish_alike tracks (fun _ => rfl) _

/-- The pair of the one atom is less than that of the other. -/
def Before (sourceRevisionIds : Dict String String) (atomId other : String) : Prop :=
  ∃ first second, priority sourceRevisionIds atomId = .ok first ∧
    priority sourceRevisionIds other = .ok second ∧ compare first second = .lt

/-- Of every cycle, only the atom with the least pair is changed, and moved to the root. -/
structure RootChanges (active : ActivePlacements)
    (resolution : BoundedHierarchyResolution) : Prop where
  perCycle : ∀ cycle, (parentGraph active.parents).IsCycle cycle → ∃ loser ∈ cycle,
    resolution.activeParents.get loser = some none ∧ active.parents.get loser ≠ some none ∧
    ∀ other ∈ cycle, other ≠ loser → Before active.revisionIds loser other ∧
      resolution.activeParents.get other = active.parents.get other
  outside : ∀ atomId, ¬ (parentGraph active.parents).OnCycle atomId →
    resolution.activeParents.get atomId = active.parents.get atomId

theorem rootChanges (clear : lab.Clear) {last : String → Nat} {final : Fallbacks}
    (resolved : lab.rootPolicy.Resolved active last final) (cycles : Nat) :
    RootChanges active (final.finish active.revisionIds cycles) := by
  have start := Tracks.start lab.rootPolicy.second resolved.activated clear lab.rootPolicy.first
  have edge : (parentGraph active.parents).Edge = (lab.choices lab.rootPolicy.second).Edge fun _ =>
      0 := lab.rootPolicy.edge start
  have once := Fallback.settled_once (fun atomId level => by cases level <;>
    rfl) resolved.run resolved.settled
  have kept : ∀ atomId, ¬ (lab.choices lab.rootPolicy.second).Loses (fun _ => 0) atomId →
      final.parents.get atomId = active.parents.get atomId := by
    intro atomId keeps
    have before := start.parents atomId
    rw [resolved.tracks.parents, (once atomId).2 keeps]
    exact before.symm
  constructor
  · intro cycle isCycle
    obtain ⟨loser, member, revision, found, loses, _⟩ :=
      lab.rootPolicy.turn_ok clear resolved.activated start isCycle
    have members : ∀ atomId ∈ cycle, atomId ∈ lab.parents.keys := fun atomId inside =>
      start.mem_keys.mp (isCycle.round atomId inside).listed
    refine ⟨loser, member, ?_, ?_, ?_⟩
    · obtain ⟨register, stored⟩ := Dict.mem_keys.mp (members loser member)
      change final.parents.get loser = _
      rw [resolved.tracks.parents, stored, (once loser).1 loses]
      rfl
    · intro rooted
      obtain ⟨parent, points⟩ := (isCycle.round loser member).known
      change active.parents.get loser = some (some parent) at points
      rw [rooted] at points
      cases points
    · intro other inside apart
      have path : (lab.choices lab.rootPolicy.second).Reaches (fun _ => 0) loser other := by
        have reaches := (isCycle.exactly loser member other).mpr inside
        rwa [Pointers.Reaches, edge] at reaches
      refine ⟨⟨_, _, clear.priority_eq resolved.activated lab.rootPolicy.second 0
        (members loser member),
        clear.priority_eq resolved.activated lab.rootPolicy.second 0 (members other inside),
        loses.least other path apart⟩, ?_⟩
      exact kept other fun also => apart (loses.unique also path).symm
  · intro atomId free
    apply kept
    intro loses
    have round := loses.round
    rw [Fallback.OnCycle, ← edge] at round
    exact free round

/-- Every iteration changes one atom, which is on a cycle, and no atom is changed more
than twice. -/
structure WitnessChanges
    (reject : Dict String String → Fallbacks → String → Except ModelError Fallbacks)
    (active : ActivePlacements) : Prop where
  onCycle : ∀ state next,
    ReflTransGen (Fallbacks.Turn active.revisionIds (reject active.revisionIds))
      (Fallbacks.start active.parents) state →
    Fallbacks.Turn active.revisionIds (reject active.revisionIds) state next →
    ∃ loser, (parentGraph state.parents).OnCycle loser ∧
      next.steps.get loser = some ((state.steps.get loser).getD 0 + 1) ∧ ∀ other, other ≠ loser →
        next.parents.get other = state.parents.get other ∧
          next.steps.get other = state.steps.get other
  twice : ∀ state, ReflTransGen (Fallbacks.Turn active.revisionIds (reject active.revisionIds))
    (Fallbacks.start active.parents) state →
    ∀ atomId taken, state.steps.get atomId = some taken → taken ≤ 2

theorem Clear.witnessChanges (clear : lab.Clear)
    (activated : lab.Activated ScalarRegister.materializedRevision active) :
    WitnessChanges clear.witnessPolicy.reject active := by
  have start := Tracks.start clear.witnessPolicy.second activated clear clear.witnessPolicy.first
  constructor
  · rintro state next turns ⟨cycle, isCycle, done⟩
    obtain ⟨taken, run, tracks⟩ := clear.witnessPolicy.turns_run clear activated start turns
    obtain ⟨loser, member, revision, found, loses, same⟩ :=
      clear.witnessPolicy.turn_ok clear activated tracks isCycle
    rw [same] at done
    cases done
    refine ⟨loser, isCycle.round loser member, ?_, fun other apart => ?_⟩
    · rw [Fallbacks.fallBack, Dict.get_set, if_pos rfl]
    · rw [Fallbacks.fallBack, Dict.get_set, if_neg (Ne.symm apart), Dict.get_set,
        if_neg (Ne.symm apart)]
      exact ⟨rfl, rfl⟩
  · intro state turns atomId count found
    obtain ⟨taken, run, tracks⟩ := clear.witnessPolicy.turns_run clear activated start turns
    have bound := clear.witnessPolicy.bounded.run_le run (fun _ => Nat.zero_le _) atomId
    rw [tracks.steps] at found
    split at found
    · cases found
    · cases found
      exact bound

end Bounded

section History

variable {lab other : HierarchyLab}

/-- The number of all placements in the hierarchy. -/
def placementCount (lab : HierarchyLab) : Nat :=
  (lab.parents.values.map fun register => register.revisions.keys.length).sum

theorem sum_placements :
    ∑ atomId ∈ lab.parents.keys.toFinset, lab.placements atomId = lab.placementCount := by
  have distinct : lab.parents.keys.Nodup := lab.parents.distinct
  rw [List.sum_toFinset _ distinct, placementCount, Dict.values, Dict.keys,
    List.map_map, List.map_map]
  congr 1
  apply List.map_congr_left
  intro entry member
  have stored : lab.parents.get entry.1 = some entry.2 := Dict.get_iff.mpr member
  simp only [Function.comp_apply, placements, stored, Option.map_some, Option.getD_some]

theorem rejectFrom_more {fuel more : Nat} {rejected : ExtTreeSet String}
    {outcome : Except ModelError ResolvedHierarchy}
    (ended : lab.rejectFrom fuel rejected = outcome) (within : outcome ≠ .error .exhausted)
    (room : fuel ≤ more) :
    lab.rejectFrom more rejected = outcome := by
  induction fuel generalizing more rejected with
  | zero => exact absurd ended.symm within
  | succ fuel ih =>
    obtain ⟨more, rfl⟩ : ∃ less, more = less + 1 := ⟨more - 1, by omega⟩
    rw [rejectFrom] at ended ⊢
    cases activates : lab.activePlacements rejected with
    | error failure =>
      rw [activates] at ended
      exact ended
    | ok active =>
      rw [activates] at ended
      simp only [bind, Except.bind] at ended ⊢
      cases found : findCycle active.parents with
      | none =>
        simp only [found] at ended
        exact ended
      | some cycle =>
        simp only [found] at ended ⊢
        cases done : rejectLowest active.revisionIds rejected cycle with
        | error failure =>
          simp only [done] at ended
          exact ended
        | ok next =>
          simp only [done] at ended
          exact ih ended (by omega)

/-- Both fail alike, or are resolved to equal values. -/
inductive AlikeOutcome :
    Except ModelError ResolvedHierarchy → Except ModelError ResolvedHierarchy → Prop where
  | failed (failure : ModelError) : AlikeOutcome (.error failure) (.error failure)
  | resolved {left right : ResolvedHierarchy} (alike : left.Alike right) :
      AlikeOutcome (.ok left) (.ok right)

theorem Alike.spent_eq {taken : String → Nat} {left right : ExtTreeSet String}
    (alike : lab.Alike other) (clear : lab.Clear) (holds : lab.Spent taken left)
    (also : other.Spent taken right) : left = right := by
  apply ExtTreeSet.ext_mem
  intro revisionId
  rw [holds.mem, also.mem]
  constructor
  · rintro ⟨atomId, register, stored, inside⟩
    obtain ⟨same, there, equal⟩ := alike.get stored
    exact ⟨atomId, same, there,
      PrivateContinuum.Reference.spent_eq (clear.ordered stored) equal ▸ inside⟩
  · rintro ⟨atomId, register, stored, inside⟩
    obtain ⟨same, there, equal⟩ := alike.symm.get stored
    exact ⟨atomId, same, there,
      PrivateContinuum.Reference.spent_eq ((alike.clear clear).ordered stored) equal ▸ inside⟩

theorem Alike.exhausted {taken : String → Nat} (alike : lab.Alike other) (clear : lab.Clear)
    (exhausted : lab.Exhausted taken) :
    other.Exhausted taken := by
  obtain ⟨atomId, register, stored, absent⟩ := exhausted
  obtain ⟨same, there, equal⟩ := alike.get stored
  refine ⟨atomId, same, there, ?_⟩
  rw [nthPlacement, ← PrivateContinuum.Reference.spent_eq (clear.ordered stored) equal,
    ← materialize_eq (clear.ordered stored) equal]
  exact absent

/-- The placements that are taken do not depend on the order of the dictionaries. -/
theorem Alike.active_eq {rejected : ExtTreeSet String} {active also : ActivePlacements}
    (alike : lab.Alike other) (clear : lab.Clear)
    (activated : lab.Activated (materializeRegister rejected) active)
    (activates : other.Activated (materializeRegister rejected) also) :
    (∀ atomId, active.parents.get atomId = also.parents.get atomId) ∧
      ∀ atomId, active.revisionIds.get atomId = also.revisionIds.get atomId := by
  have same : ∀ {Item : Type} (field : ScalarRevision (Option String) → Item) (atomId : String),
      (lab.parents.get atomId).bind (fun register =>
        (materializeRegister rejected register).map field) =
        (other.parents.get atomId).bind fun register =>
        (materializeRegister rejected register).map field := by
    intro Item field atomId
    cases found : lab.parents.get atomId with
    | none =>
      rw [alike.get_none found]
    | some register =>
      obtain ⟨later, stored, equal⟩ := alike.get found
      rw [stored, Option.bind_some, Option.bind_some, materialize_eq (clear.ordered found) equal]
  constructor
  · intro atomId
    rw [activated.parents, activates.parents, same]
  · intro atomId
    rw [activated.revisionIds, activates.revisionIds, same]

theorem Ends.fails {last : String → Nat} {final : ExtTreeSet String}
    {outcome : Except ModelError ResolvedHierarchy} {failure : ModelError}
    (ends : lab.Ends last final outcome) (failed : outcome = .error failure) :
    failure = .placementsExhausted ∧ lab.Exhausted last := by
  cases ends with
  | exhausted exhausted _ =>
    cases failed
    exact ⟨rfl, exhausted⟩
  | resolved => cases failed

/-- Where some run is resolved, no atom is exhausted in any run. -/
theorem Ends.not_exhausted {last later : String → Nat} {final : ExtTreeSet String}
    {resolved : ResolvedHierarchy} (ends : lab.Ends last final (.ok resolved))
    (clear : lab.Clear) (run : lab.history.Run (fun _ => 0) last) (holds : lab.Spent last final)
    (also : lab.history.Run (fun _ => 0) later) :
    lab.history.Settled last ∧ ¬ lab.Exhausted later := by
  cases ends with
  | resolved left activates activated acyclic =>
    have settled := (holds.acyclic_iff clear activated).mp acyclic
    refine ⟨settled, fun exhausted => left (exhausted.later fun atomId => ?_)⟩
    exact (Fallback.run_settled settled run also).taken_le atomId

/-- Runs of the iterations that end, end alike. -/
theorem Ends.alike {last later : String → Nat} {final state : ExtTreeSet String}
    {outcome repeated : Except ModelError ResolvedHierarchy} (ends : lab.Ends last final outcome)
    (again : other.Ends later state repeated) (alike : lab.Alike other) (clear : lab.Clear)
    (run : lab.history.Run (fun _ => 0) last) (also : lab.history.Run (fun _ => 0) later)
    (holds : lab.Spent last final) (spent : other.Spent later state) :
    AlikeOutcome outcome repeated := by
  have otherClear := alike.clear clear
  have otherRun : other.history.Run (fun _ => 0) last := alike.history_eq clear ▸ run
  have otherAlso : other.history.Run (fun _ => 0) later := alike.history_eq clear ▸ also
  cases outcome with
  | error failure =>
    obtain ⟨rfl, exhausted⟩ := ends.fails rfl
    cases repeated with
    | error failure =>
      obtain ⟨rfl, _⟩ := again.fails rfl
      exact .failed _
    | ok resolved =>
      exact absurd (alike.exhausted clear exhausted)
        (again.not_exhausted otherClear otherAlso spent otherRun).2
  | ok resolved =>
    obtain ⟨settled, left⟩ := ends.not_exhausted clear run holds also
    cases repeated with
    | error failure =>
      exact absurd (alike.symm.exhausted otherClear (again.fails rfl).2) left
    | ok again' =>
      have rests := (again.not_exhausted otherClear otherAlso spent otherRun).1
      rw [← alike.history_eq clear] at rests
      have same : later = last := Fallback.settled_unique settled run rests also
      subst same
      have rejected : final = state := alike.spent_eq clear holds spent
      subst rejected
      cases ends with
      | resolved _ _ activated _ =>
        cases again with
        | resolved _ _ activates _ =>
          obtain ⟨parents, ids⟩ := alike.active_eq clear activated activates
          exact .resolved ⟨parents, ids, rfl⟩

/-- The resolver ends within as many iterations as there are placements, in an acyclic
hierarchy or because all placements of an atom were rejected. It gives equal results for
equal hierarchies, and for every order of the cycles. -/
structure ResolvesHistory (lab : HierarchyLab)
    (outcome : Except ModelError ResolvedHierarchy) : Prop where
  ends : ∀ fuel, lab.placementCount < fuel →
    resolveAcyclicByRejectingLowestCycleRevision fuel lab = outcome
  resolved : ∀ resolved, outcome = .ok resolved → (parentGraph resolved.activeParents).Acyclic ∧
    ReflTransGen lab.RejectTurn ∅ resolved.rejectedRevisionIds
  fails : ∀ failure, outcome = .error failure → failure = .placementsExhausted ∧
    ∃ rejected, ReflTransGen lab.RejectTurn ∅ rejected ∧
      ∃ atomId register, lab.parents.get atomId = some register ∧
      ∀ revisionId ∈ register.revisions.keys, revisionId ∈ rejected
  replicas : ∀ other, lab.Alike other → ∃ same, AlikeOutcome outcome same ∧
    ∀ fuel, lab.placementCount < fuel →
    resolveAcyclicByRejectingLowestCycleRevision fuel other = same
  orders : ∀ rejected, ReflTransGen lab.RejectTurn ∅ rejected → rejected.size ≤ lab.placementCount ∧
    (∀ failure, lab.activePlacements rejected = .error failure → outcome = .error failure) ∧
    ∀ active, lab.activePlacements rejected = .ok active →
      (∀ cycle, (parentGraph active.parents).IsCycle cycle →
        ∃ next, rejectLowest active.revisionIds rejected cycle = .ok next) ∧
      ((parentGraph active.parents).Acyclic →
        AlikeOutcome outcome (.ok ⟨active.parents, active.revisionIds, rejected⟩))

/-- The loop of the resolver, however much room it has. -/
theorem Clear.history_ends (clear : lab.Clear) :
    ∃ outcome last final, lab.history.Run (fun _ => 0) last ∧ lab.Spent last final ∧
    ReflTransGen lab.RejectTurn ∅ final ∧ lab.Ends last final outcome ∧
      ∀ fuel, lab.placementCount < fuel →
      resolveAcyclicByRejectingLowestCycleRevision fuel lab = outcome := by
  obtain ⟨last, final, run, holds, turns, ends⟩ :=
    Spent.start.rejectFrom_ends (lab.placementCount + 1) clear
    (fun _ => Nat.zero_le _) (by rw [sum_placements]; exact Nat.lt_add_left _ (Nat.lt_succ_self _))
  refine ⟨_, last, final, run, holds, turns, ends,
    fun fuel room => rejectFrom_more rfl (fun stopped => ?_) room⟩
  have impossible := (ends.fails stopped).1
  cases impossible

theorem Alike.placementCount_eq (alike : lab.Alike other) :
    lab.placementCount = other.placementCount := by
  rw [← sum_placements, ← sum_placements, alike.keys_eq]
  apply Finset.sum_congr rfl
  intro atomId member
  rw [← alike.keys_eq, List.mem_toFinset, Dict.mem_keys] at member
  obtain ⟨register, stored⟩ := member
  obtain ⟨same, there, equal⟩ := alike.get stored
  rw [placements, placements, stored, there, Option.map_some, Option.map_some, Option.getD_some,
    Option.getD_some]
  exact ((Dict.items_perm equal).map Prod.fst).length_eq

theorem Clear.resolvesHistory (clear : lab.Clear) : ∃ outcome, lab.ResolvesHistory outcome := by
  obtain ⟨outcome, last, final, run, holds, turns, ends, always⟩ := clear.history_ends
  refine ⟨outcome, always, ?_, ?_, ?_, ?_⟩
  · rintro resolved rfl
    cases ends with
    | resolved _ _ _ acyclic => exact ⟨acyclic, turns⟩
  · rintro failure rfl
    obtain ⟨same, atomId, register, stored, absent⟩ := ends.fails rfl
    refine ⟨same, final, turns, atomId, register, stored, ?_⟩
    exact (materialize_none_iff (clear.ordered stored)).mp
      ((holds.materialize clear stored).trans absent)
  · intro other alike
    obtain ⟨repeated, later, state, also, spent, _, again, repeats⟩ :=
      (alike.clear clear).history_ends
    rw [← alike.history_eq clear] at also
    refine ⟨repeated, ends.alike again alike clear run also holds spent,
      fun fuel room => repeats fuel ?_⟩
    rwa [← alike.placementCount_eq]
  · intro rejected reached
    obtain ⟨taken, also, spent⟩ := Spent.start.turns_run clear reached
    refine ⟨?_, ?_, ?_⟩
    · rw [spent.size, ← sum_placements]
      exact Finset.sum_le_sum fun atomId _ =>
        clear.history_bounded.run_le also (fun _ => Nat.zero_le _) atomId
    · intro failure stopped
      rcases spent.active_cases clear with ⟨exhausted, failed⟩ | ⟨_, active, activates, _⟩
      · rw [stopped] at failed
        cases failed
        have stays :=
          ends.alike (.exhausted exhausted stopped) (fun _ => rfl) clear run also holds spent
        cases stays
        rfl
      · rw [stopped] at activates
        cases activates
    · intro active activates
      rcases spent.active_cases clear with ⟨_, failed⟩ | ⟨left, same, found, activated⟩
      · rw [activates] at failed
        cases failed
      · rw [activates] at found
        cases found
        constructor
        · intro cycle isCycle
          obtain ⟨loser, _, revision, _, _, done⟩ := spent.rejectLowest_ok clear activated isCycle
          exact ⟨_, done⟩
        · intro acyclic
          exact ends.alike (.resolved left activates activated acyclic)
            (fun _ => rfl) clear run also holds spent

end History

end HierarchyLab

open HierarchyLab

/-- All resolvers end without a failure, but for an atom whose placements were all
rejected, and leave no cycle. -/
structure CycleResolution (lab : HierarchyLab) : Prop where
  root : ∃ active resolution,
    Resolves resolveWithRootFallback Fallbacks.toRoot 1 lab active resolution ∧
    RootChanges active resolution
  witness : ∃ active resolution, Resolves (resolveWithOneWitnessFallback none)
    (Fallbacks.toWitness lab.previousParentWitnesses) 2
    lab active resolution ∧ WitnessChanges (Fallbacks.toWitness lab.previousParentWitnesses) active
  history : ∃ outcome, lab.ResolvesHistory outcome

theorem cycle_resolution_confluent {labs : List HierarchyLab} {lab : HierarchyLab}
    (world : World labs) (member : lab ∈ labs) :
    CycleResolution lab := by
  have clear := world.clear member
  refine ⟨?_, ?_, clear.resolvesHistory⟩
  · obtain ⟨active, last, final, resolved⟩ := lab.rootPolicy.resolved clear
    have resolves := lab.rootPolicy.resolves clear resolved resolveWithRootFallback (fun _ => rfl)
      fun other _ => ⟨other.rootPolicy, rfl, rfl, rfl, fun _ => rfl⟩
    exact ⟨active, _, resolves, rootChanges clear resolved _⟩
  · obtain ⟨active, last, final, resolved⟩ := clear.witnessPolicy.resolved clear
    have resolves := clear.witnessPolicy.resolves clear resolved
      (resolveWithOneWitnessFallback none) (fun _ => rfl)
      fun other alike => ⟨(alike.clear clear).witnessPolicy, (alike.witness_eq clear).symm, rfl,
        rfl, fun _ => rfl⟩
    exact ⟨active, _, resolves, clear.witnessChanges resolved.activated⟩

/-- What an operation makes of a hierarchy. -/
def made (outcome : Except ModelError HierarchyLab) :
    HierarchyLab := outcome.toOption.getD HierarchyLab.empty

theorem made_ok {outcome : Except ModelError HierarchyLab}
    (done : outcome.toOption.isSome = true) : outcome = .ok (made outcome) := by
  cases outcome with
  | ok lab => rfl
  | error failure => cases done

def asListed : SetOrder := ⟨id, fun _ => List.Perm.refl _⟩

/-- Two replicas move two atoms below one another. -/
def crossing : List HierarchyLab :=
  let first := made (HierarchyLab.empty.place "aa" "01" none)
  let both := made (first.place "bb" "02" none)
  let left := made (both.place "aa" "03" (some "bb"))
  let right := made (both.place "bb" "04" (some "aa"))
  [made (left.merge asListed right), right, left, both, first, HierarchyLab.empty]

theorem world_crossing : World crossing := by
  have first := World.place "aa" "01" none World.start (List.mem_singleton_self _)
    (by decide +kernel) (made_ok (by decide +kernel))
  have both := World.place "bb" "02" none first List.mem_cons_self
    (by decide +kernel) (made_ok (by decide +kernel))
  have left := World.place "aa" "03" (some "bb") both List.mem_cons_self
    (by decide +kernel) (made_ok (by decide +kernel))
  have right := World.place "bb" "04" (some "aa") left (List.mem_cons_of_mem _ List.mem_cons_self)
    (by decide +kernel) (made_ok (by decide +kernel))
  exact World.merge asListed right (List.mem_cons_of_mem _ List.mem_cons_self) List.mem_cons_self
    (made_ok (by decide +kernel))

theorem cycle_resolution_confluent_crossing : ∃ lab ∈ crossing,
    lab.currentState.toOption.map (fun active => (allCycles active.parents).length) = some 1 ∧
    CycleResolution lab :=
  ⟨_, List.mem_cons_self, by decide +kernel,
    cycle_resolution_confluent world_crossing List.mem_cons_self⟩

end PrivateContinuum.Reference
