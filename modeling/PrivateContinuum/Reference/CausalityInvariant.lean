import Mathlib
import PrivateContinuum.Library.Extremum
import PrivateContinuum.Reference.Causality

namespace PrivateContinuum.Reference

open Std (ExtTreeSet)
open Relation PrivateContinuum.Library

section Revisions

variable {Value : Type} {revisionId : String} {value : Value} {parents : ExtTreeSet String}
  {revision : FrontierRevision Value}

theorem create_ok_iff : FrontierRevision.create revisionId value parents = .ok revision ↔
    revision.revisionId = revisionId ∧ revision.value = value ∧ revision.parents = parents := by
  constructor
  · intro done
    unfold FrontierRevision.create at done
    rw [bind_ok_iff] at done
    obtain ⟨⟨canonical⟩, _, done⟩ := done
    dsimp only at done
    split at done
    · cases done
    · rw [bind_ok_iff] at done
      obtain ⟨⟨canonicalParents⟩, _, done⟩ := done
      cases done
      exact ⟨rfl, rfl, rfl⟩
  · rintro ⟨named, held, listed⟩
    subst named
    subst held
    subst listed
    obtain ⟨⟨canonical⟩, checked⟩ := checkCanonical_ok_iff.mpr revision.canonical
    obtain ⟨⟨others⟩, passed⟩ := checkAllCanonical_ok_iff.mpr fun parent member =>
      revision.canonicalParents parent (ExtTreeSet.mem_toList.mp member)
    unfold FrontierRevision.create
    rw [checked]
    change (if own : revision.revisionId ∈ revision.parents then _ else _) = _
    rw [dif_neg revision.otherParents, passed]
    rfl

theorem create_exists_iff :
    (∃ revision, FrontierRevision.create revisionId value parents = .ok revision) ↔
    Canonical revisionId ∧ revisionId ∉ parents ∧ ∀ parent ∈ parents, Canonical parent := by
  constructor
  · rintro ⟨revision, done⟩
    obtain ⟨rfl, rfl, rfl⟩ := create_ok_iff.mp done
    exact ⟨revision.canonical, revision.otherParents, revision.canonicalParents⟩
  · rintro ⟨canonical, own, canonicalParents⟩
    exact ⟨⟨revisionId, value, parents, canonical, own, canonicalParents⟩,
      create_ok_iff.mpr ⟨rfl, rfl, rfl⟩⟩

theorem latest_eq_greatest {revisions : List (FrontierRevision Value)} :
    latest revisions = greatest FrontierRevision.key revisions := by
  have same : (later : Option (FrontierRevision Value) → _) = larger FrontierRevision.key := by
    funext best revision
    cases best with
    | none => rfl
    | some held => rfl
  rw [latest, same, greatest]

/-- The latest of the same revisions in another order has the same key. -/
theorem latest_key_eq {revisions others : List (FrontierRevision Value)}
    (same : ∀ revision, revision ∈ revisions ↔ revision ∈ others) :
    (latest revisions).map FrontierRevision.key = (latest others).map FrontierRevision.key := by
  rw [latest_eq_greatest, latest_eq_greatest]
  exact greatest_key_eq same

theorem latest_eq {revisions others : List (FrontierRevision Value)}
    (same : ∀ revision, revision ∈ revisions ↔ revision ∈ others)
    (distinct : ∀ left ∈ revisions, ∀ right ∈ revisions, left.key = right.key → left = right) :
    latest revisions = latest others := by
  rw [latest_eq_greatest, latest_eq_greatest]
  exact greatest_eq same distinct

end Revisions

/-- The revision stored under the child names the parent. -/
def Names {Value : Type} (revisions : Dict String (FrontierRevision Value))
    (parent child : String) : Prop :=
  ∃ revision, revisions.get child = some revision ∧ parent ∈ revision.parents

namespace FrontierCausalRegister

variable {Value : Type}

def Ancestor (register : FrontierCausalRegister Value) : String → String → Prop :=
  TransGen (Names register.revisions)

/-- All parents are in the register, and no revision is its own ancestor. -/
structure Valid (register : FrontierCausalRegister Value) : Prop where
  closed : ∀ parent child, Names register.revisions parent child → parent ∈ register.revisions.keys
  acyclic : ∀ revisionId, ¬ register.Ancestor revisionId revisionId

variable {register : FrontierCausalRegister Value} {parent child revisionId : String}

theorem ascent_parent_iff :
    register.ascent.Parent parent child ↔ Names register.revisions parent child := by
  have shown : ∀ parents, register.parentsOf child = .ok parents ↔
      ∃ revision, register.revisions.get child = some revision ∧
        revision.parents.toList = parents := by
    intro parents
    rw [parentsOf]
    cases register.revisions.get child with
    | none => simp
    | some revision => simp
  constructor
  · rintro ⟨parents, listed, member⟩
    obtain ⟨revision, found, same⟩ := (shown parents).mp listed
    exact ⟨revision, found, ExtTreeSet.mem_toList.mp (same ▸ member)⟩
  · rintro ⟨revision, found, member⟩
    exact ⟨_, (shown _).mpr ⟨revision, found, rfl⟩, ExtTreeSet.mem_toList.mpr member⟩

theorem missingParents_nil_iff {known : List String} {revision : FrontierRevision Value} :
    missingParents known revision = [] ↔ ∀ parent ∈ revision.parents, parent ∈ known := by
  rw [missingParents, List.filter_eq_nil_iff]
  simp [ExtTreeSet.mem_toList]

theorem closed_iff {revisions : Dict String (FrontierRevision Value)} {known : List String} :
    (∀ revision ∈ revisions.values, missingParents known revision = []) ↔
      ∀ parent child, Names revisions parent child → parent ∈ known := by
  simp only [missingParents_nil_iff, Dict.mem_values]
  constructor
  · rintro every parent child ⟨revision, found, member⟩
    exact every revision ⟨child, found⟩ parent member
  · rintro every revision ⟨child, found⟩ parent member
    exact every parent child ⟨revision, found, member⟩

/-- The loop that refuses revisions with parents outside of the known identifiers. -/
theorem parentsChecked_iff {revisions : Dict String (FrontierRevision Value)} {known : List String}
    (failure : List String → ModelError) : (forM revisions.values fun revision =>
      let missing := missingParents known revision
      if missing ≠ [] then throw (failure missing) else pure () : Except ModelError Unit) = .ok () ↔
        ∀ parent child, Names revisions parent child → parent ∈ known := by
  rw [forM_ok_iff, ← closed_iff]
  apply forall₂_congr
  intro revision _
  by_cases none : missingParents known revision = []
  · simp [none]
  · simp [none, throw, throwThe, MonadExceptOf.throw]

theorem names_known (names : Names register.revisions parent child) :
    child ∈ register.revisions.keys := by
  obtain ⟨revision, found, _⟩ := names
  exact Dict.mem_keys.mpr ⟨revision, found⟩

theorem ancestor_known (path : register.Ancestor parent child) :
    child ∈ register.revisions.keys := by
  obtain ⟨_, _, edge⟩ := TransGen.tail'_iff.mp path
  exact names_known edge

theorem ascent_complete
    (closed : ∀ parent child, Names register.revisions parent child →
      parent ∈ register.revisions.keys) :
    register.ascent.Complete register.revisions.keys := by
  intro child known
  obtain ⟨revision, found⟩ := Dict.mem_keys.mp known
  refine ⟨revision.parents.toList, ?_,
    fun parent member => closed parent child ⟨revision, found, ExtTreeSet.mem_toList.mp member⟩⟩
  change register.parentsOf child = _
  rw [parentsOf, found]

theorem ascent_ancestor_iff :
    register.ascent.Ancestor parent child ↔ register.Ancestor parent child := by
  have same : register.ascent.Parent = Names register.revisions := by
    funext parent child
    exact propext ascent_parent_iff
  rw [Ascent.Ancestor, Ancestor, same]

theorem validate_ok_iff : register.validate = .ok () ↔ register.Valid := by
  have acyclic : register.ascent.Acyclic register.revisions.keys ↔
      ∀ revisionId, ¬ register.Ancestor revisionId revisionId := by
    simp only [Ascent.Acyclic, ascent_ancestor_iff]
    exact ⟨fun every revisionId round => every revisionId (ancestor_known round) round,
      fun every revisionId _ => every revisionId⟩
  unfold validate
  rw [bind_ok_iff]
  constructor
  · rintro ⟨_, checked, continued⟩
    have closed := (parentsChecked_iff .causalParentsMissing).mp checked
    rw [bind_ok_iff] at continued
    obtain ⟨after, visited, _⟩ := continued
    exact ⟨closed,
      acyclic.mp ((Ascent.visitAll_ok_iff (ascent_complete closed)).mp ⟨after, visited⟩)⟩
  · rintro ⟨closed, rounds⟩
    obtain ⟨after, visited⟩ :=
      (Ascent.visitAll_ok_iff (ascent_complete closed)).mpr (acyclic.mpr rounds)
    exact ⟨(), (parentsChecked_iff .causalParentsMissing).mpr closed, by rw [visited]; rfl⟩

/-- What the smaller register knows, the larger one knows alike. -/
def Included (smaller larger : FrontierCausalRegister Value) : Prop :=
  ∀ revisionId revision, smaller.revisions.get revisionId = some revision →
    larger.revisions.get revisionId = some revision

section Extension

variable {smaller larger : FrontierCausalRegister Value} {above below : String}

theorem Included.names_iff (included : smaller.Included larger)
    (known : child ∈ smaller.revisions.keys) :
    Names larger.revisions parent child ↔ Names smaller.revisions parent child := by
  obtain ⟨held, stored⟩ := Dict.mem_keys.mp known
  constructor
  · rintro ⟨revision, found, member⟩
    rw [included child held stored] at found
    exact ⟨held, stored, Option.some.inj found ▸ member⟩
  · rintro ⟨revision, found, member⟩
    exact ⟨revision, included child revision found, member⟩

/-- The larger register gives known revisions no other ancestors. -/
theorem Included.ancestor_iff (included : smaller.Included larger) (valid : smaller.Valid)
    (known : below ∈ smaller.revisions.keys) :
    larger.Ancestor above below ↔ smaller.Ancestor above below := by
  constructor
  · intro path
    induction path with
    | single edge => exact .single ((included.names_iff known).mp edge)
    | tail _ edge ih =>
      have last := (included.names_iff known).mp edge
      exact (ih (valid.closed _ _ last)).tail last
  · intro path
    refine TransGen.mono ?_ _ _ path
    rintro parent child ⟨revision, found, member⟩
    exact ⟨revision, included child revision found, member⟩

theorem Valid.ancestor_mem (valid : register.Valid) (path : register.Ancestor above below) :
    above ∈ register.revisions.keys := by
  obtain ⟨_, edge, _⟩ := TransGen.head'_iff.mp path
  exact valid.closed _ _ edge

/-- What descends from something unknown is unknown. -/
theorem Included.unknown (included : smaller.Included larger) (valid : smaller.Valid)
    (path : larger.Ancestor above below) (unknown : above ∉ smaller.revisions.keys) :
    below ∉ smaller.revisions.keys :=
  fun known => unknown (valid.ancestor_mem ((included.ancestor_iff valid known).mp path))

/-- A larger register with all of its parents is valid, if no cycle runs through what
is new. -/
theorem Valid.grown (valid : smaller.Valid) (included : smaller.Included larger)
    (closed : ∀ parent child, Names larger.revisions parent child →
      parent ∈ larger.revisions.keys)
    (fresh : ∀ revisionId, revisionId ∉ smaller.revisions.keys →
      ¬ larger.Ancestor revisionId revisionId) :
    larger.Valid := by
  refine ⟨closed, fun revisionId round => ?_⟩
  by_cases known : revisionId ∈ smaller.revisions.keys
  · exact valid.acyclic revisionId ((included.ancestor_iff valid known).mp round)
  · exact fresh revisionId known round

/-- A register that extends a valid one with revisions of another valid one, and has
all their parents, is valid. -/
theorem Valid.extended {base source : FrontierCausalRegister Value} (valid : base.Valid)
    (other : source.Valid) (included : base.Included register)
    (origin : ∀ revisionId revision, register.revisions.get revisionId = some revision →
      base.revisions.get revisionId = some revision ∨
      source.revisions.get revisionId = some revision)
    (closed : ∀ parent child, Names register.revisions parent child →
      parent ∈ register.revisions.keys) :
    register.Valid := by
  refine valid.grown included closed fun revisionId unknown round => other.acyclic revisionId ?_
  have step : ∀ parent child, Names register.revisions parent child → child ∉ base.revisions.keys →
      Names source.revisions parent child := by
    rintro parent child ⟨revision, found, member⟩ fresh
    rcases origin child revision found with held | held
    · exact absurd (Dict.mem_keys.mpr ⟨revision, held⟩) fresh
    · exact ⟨revision, held, member⟩
  have leaves : ∀ above below, register.Ancestor above below → above ∉ base.revisions.keys →
      source.Ancestor above below := by
    intro above below path absent
    induction path with
    | single edge => exact .single (step _ _ edge (included.unknown valid (.single edge) absent))
    | tail before edge ih =>
      exact ih.tail (step _ _ edge (included.unknown valid (before.tail edge) absent))
  exact leaves revisionId revisionId round unknown

/-- A new revision with known parents keeps a register valid. -/
theorem Valid.added {revision : FrontierRevision Value} (valid : register.Valid)
    (fresh : revisionId ∉ register.revisions.keys)
    (known : ∀ parent ∈ revision.parents, parent ∈ register.revisions.keys) :
    Valid ⟨register.revisions.set revisionId revision⟩ := by
  have included : register.Included ⟨register.revisions.set revisionId revision⟩ := by
    intro other held stored
    rw [Dict.get_set, if_neg, stored]
    intro same
    exact fresh (Dict.mem_keys.mpr ⟨held, same ▸ stored⟩)
  have grows : ∀ other ∈ register.revisions.keys,
      other ∈ (register.revisions.set revisionId revision).keys := by
    intro other member
    obtain ⟨held, stored⟩ := Dict.mem_keys.mp member
    exact Dict.mem_keys.mpr ⟨held, included other held stored⟩
  have inside : ∀ parent child, Names (register.revisions.set revisionId revision) parent child →
      parent ∈ register.revisions.keys := by
    rintro parent child ⟨found, stored, member⟩
    rw [Dict.get_set] at stored
    by_cases here : revisionId = child
    · rw [if_pos here] at stored
      cases stored
      exact known parent member
    · rw [if_neg here] at stored
      exact valid.closed parent child ⟨found, stored, member⟩
  refine valid.grown included (fun parent child names =>
    grows parent (inside parent child names)) ?_
  intro other unknown round
  obtain ⟨_, edge, _⟩ := TransGen.head'_iff.mp round
  exact unknown (inside _ _ edge)

end Extension

section Frontiers

theorem mem_referenced :
    revisionId ∈ register.referenced ↔ ∃ child, Names register.revisions revisionId child := by
  rw [referenced, List.mem_flatMap]
  simp only [Dict.mem_values, ExtTreeSet.mem_toList]
  constructor
  · rintro ⟨revision, ⟨child, found⟩, member⟩
    exact ⟨child, revision, found, member⟩
  · rintro ⟨child, revision, found, member⟩
    exact ⟨revision, ⟨child, found⟩, member⟩

theorem get_frontier {revision : FrontierRevision Value} :
    register.frontier.get revisionId = some revision ↔
    register.revisions.get revisionId = some revision ∧
      ¬ ∃ child, Names register.revisions revisionId child := by
  rw [frontier, Dict.get_filter, decide_eq_true_eq, mem_referenced]

theorem mem_frontier : revisionId ∈ register.frontier.keys ↔
    revisionId ∈ register.revisions.keys ∧
      ¬ ∃ child, Names register.revisions revisionId child := by
  rw [Dict.mem_keys, Dict.mem_keys]
  simp only [get_frontier]
  exact exists_and_right

theorem Valid.exists_frontier (valid : register.Valid)
    (known : revisionId ∈ register.revisions.keys) :
    ∃ above ∈ register.frontier.keys, revisionId = above ∨ register.Ancestor revisionId above := by
  let Above (above below : { id : String // id ∈ register.revisions.keys }) : Prop :=
    register.Ancestor below.1 above.1
  have founded : WellFounded Above := by
    have irreflexive : Std.Irrefl Above := ⟨fun id => valid.acyclic id.1⟩
    have transitive : IsTrans _ Above := ⟨fun _ _ _ first second => second.trans first⟩
    exact Finite.wellFounded_of_trans_of_irrefl Above
  have every : ∀ id : { id : String // id ∈ register.revisions.keys },
      ∃ above ∈ register.frontier.keys, id.1 = above ∨ register.Ancestor id.1 above := by
    intro id
    induction id using founded.induction with
    | _ id ih =>
      by_cases named : ∃ child, Names register.revisions id.1 child
      · obtain ⟨child, edge⟩ := named
        obtain ⟨above, held, reached⟩ := ih ⟨child, names_known edge⟩ (.single edge)
        refine ⟨above, held, Or.inr ?_⟩
        rcases reached with same | path
        · exact same ▸ .single edge
        · exact .head edge path
      · exact ⟨id.1, mem_frontier.mpr ⟨id.2, named⟩, Or.inl rfl⟩
  exact every ⟨revisionId, known⟩

/-- No revision of a valid register names the whole frontier. -/
theorem Valid.parents_ne_frontier {revision : FrontierRevision Value} (valid : register.Valid)
    (held : register.revisions.get revisionId = some revision) :
    revision.parents ≠ ExtTreeSet.ofList register.frontier.keys := by
  intro same
  obtain ⟨above, front, _⟩ := valid.exists_frontier (Dict.mem_keys.mpr ⟨revision, held⟩)
  have member : above ∈ revision.parents := by
    rw [same, ExtTreeSet.mem_ofList, List.contains_iff_mem]
    exact front
  exact (mem_frontier.mp front).2 ⟨revisionId, revision, held, member⟩

end Frontiers

section Search

variable {above below : String}

theorem parentsOf_ok {revision : FrontierRevision Value}
    (found : register.revisions.get child = some revision) :
    register.parentsOf child = .ok revision.parents.toList := by
  rw [parentsOf, found]

theorem search_halts_iff {node : String} {failure : Option ModelError} :
    (register.search above).halt node = some failure ↔ node = above ∧ failure = none := by
  change (if node = above then some none else none) = some failure ↔ _
  by_cases here : node = above
  · simp [here, eq_comm]
  · simp [here]

theorem search_edge_iff :
    (register.search above).Edge child parent ↔ Names register.revisions parent child := by
  change (∃ parents, (register.parentsOf child).mapError some = .ok parents ∧ parent ∈ parents) ↔ _
  cases found : register.revisions.get child with
  | none => simp [parentsOf, found, Names, Except.mapError]
  | some revision => simp [parentsOf, found, Names, Except.mapError]

theorem search_reach_iff :
    (register.search above).Reach below parent ↔
    ReflTransGen (Names register.revisions) parent below := by
  have edges : (register.search above).Edge = Function.swap (Names register.revisions) := by
    funext child parent
    exact propext search_edge_iff
  rw [Worklist.Reach, edges]
  exact reflTransGen_swap

theorem Valid.isAncestor_ok (valid : register.Valid) (known : above ∈ register.revisions.keys)
    (there : below ∈ register.revisions.keys) :
    ∃ answer, register.isAncestor above below = .ok answer ∧
    (answer = true ↔ register.Ancestor above below) := by
  by_cases same : above = below
  · refine ⟨false, by rw [isAncestor, if_pos same], iff_of_false Bool.false_ne_true ?_⟩
    exact same ▸ valid.acyclic above
  obtain ⟨revision, found⟩ := Dict.mem_keys.mp there
  have listed : ∀ {Answer : Type} (next : List String → Except ModelError Answer),
      (register.parentsOf below >>= next) = next revision.parents.toList := by
    intro Answer next
    rw [parentsOf_ok found]
    rfl
  have direct : ∀ {start}, start ∈ revision.parents.toList.reverse ↔
      Names register.revisions start below := by
    intro start
    rw [List.mem_reverse, ExtTreeSet.mem_toList]
    constructor
    · exact fun member => ⟨revision, found, member⟩
    · rintro ⟨other, held, member⟩
      exact Option.some.inj (found.symm.trans held) ▸ member
  rw [isAncestor, if_neg same, if_neg (by simp [known, there]), listed]
  cases explored : (register.search above).explore ∅ revision.parents.toList.reverse with
  | ok seen =>
    refine ⟨false, rfl, iff_of_false Bool.false_ne_true fun path => ?_⟩
    obtain ⟨start, rest, last⟩ := TransGen.tail'_iff.mp path
    exact Worklist.explore_not_fails explored (direct.mpr last) (search_reach_iff.mpr rest) none
      (Or.inl (if_pos rfl))
  | error failure =>
    obtain ⟨start, member, node, reached, fails⟩ := Worklist.explore_fails explored
    have path : register.Ancestor node below :=
      TransGen.tail'_iff.mpr ⟨start, search_reach_iff.mp reached, direct.mp member⟩
    cases failure with
    | none =>
      refine ⟨true, rfl, iff_of_true rfl ?_⟩
      rcases fails with halts | stops
      · exact (search_halts_iff.mp halts).1 ▸ path
      · change (register.parentsOf node).mapError some = .error none at stops
        cases listed : register.parentsOf node with
        | ok parents =>
          rw [listed] at stops
          cases stops
        | error failure =>
          rw [listed] at stops
          cases stops
    | some failure =>
      -- the search stays within known revisions, whose parents are always found
      obtain ⟨held, stored⟩ := Dict.mem_keys.mp (valid.ancestor_mem path)
      rcases fails with halts | stops
      · cases (search_halts_iff.mp halts).2
      · change (register.parentsOf node).mapError some = .error (some failure) at stops
        rw [parentsOf_ok stored] at stops
        cases stops

/-- `is_ancestor` answers that it found exactly the ancestors. -/
theorem Valid.isAncestor_true_iff (valid : register.Valid) :
    register.isAncestor above below = .ok true ↔ register.Ancestor above below := by
  constructor
  · intro found
    by_cases known : above ∈ register.revisions.keys ∧ below ∈ register.revisions.keys
    · obtain ⟨answer, told, meaning⟩ := valid.isAncestor_ok known.1 known.2
      exact meaning.mp (Except.ok.inj (told.symm.trans found))
    · rw [not_and_or] at known
      rw [isAncestor] at found
      by_cases same : above = below
      · rw [if_pos same] at found
        cases found
      · rw [if_neg same, if_pos known] at found
        cases found
  · intro path
    obtain ⟨answer, told, meaning⟩ :=
      valid.isAncestor_ok (valid.ancestor_mem path) (ancestor_known path)
    rw [told, meaning.mpr path]

end Search

section Merging

variable [DecidableEq Value] {other result : FrontierCausalRegister Value}

theorem merge_ok_iff : register.merge other = .ok result ↔
    Dict.keepAll ModelError.revisionCollision register.revisions other.revisions =
      .ok result.revisions ∧ result.Valid := by
  rw [merge, bind_ok_iff]
  constructor
  · rintro ⟨merged, kept, continued⟩
    rw [bind_ok_iff] at continued
    obtain ⟨_, validated, same⟩ := continued
    cases same
    exact ⟨kept, validate_ok_iff.mp validated⟩
  · rintro ⟨kept, valid⟩
    refine ⟨result.revisions, kept, ?_⟩
    change (result.validate >>= fun _ => pure result) = _
    rw [validate_ok_iff.mpr valid]
    rfl

theorem merge_exists (valid : register.Valid) (also : other.Valid)
    (agree : register.revisions.Agree other.revisions) :
    ∃ result, register.merge other = .ok result := by
  obtain ⟨merged, kept⟩ := Dict.keepAll_exists_iff.mpr agree
  obtain ⟨_, union⟩ := Dict.keepAll_ok kept
  refine ⟨⟨merged⟩, merge_ok_iff.mpr ⟨kept, ?_⟩⟩
  refine valid.extended also (fun _ _ held => (union _ _).mpr (Or.inl held))
    (fun _ _ => (union _ _).mp) ?_
  rintro parent child ⟨revision, found, member⟩
  rw [Dict.mem_keys]
  rcases (union child revision).mp found with held | held
  · obtain ⟨item, stored⟩ := Dict.mem_keys.mp (valid.closed parent child ⟨revision, held, member⟩)
    exact ⟨item, (union parent item).mpr (Or.inl stored)⟩
  · obtain ⟨item, stored⟩ := Dict.mem_keys.mp (also.closed parent child ⟨revision, held, member⟩)
    exact ⟨item, (union parent item).mpr (Or.inr stored)⟩

/-- Exactly new identifiers can be assigned, on top of the frontier. -/
theorem assign_ok_iff {value : Value} (valid : register.Valid) :
    register.assign revisionId value = .ok result ↔
    revisionId ∉ register.revisions.keys ∧ ∃ revision,
      FrontierRevision.create revisionId value (ExtTreeSet.ofList register.frontier.keys) =
        .ok revision ∧ result = ⟨register.revisions.set revisionId revision⟩ := by
  rw [assign, bind_ok_iff]
  constructor
  · rintro ⟨revision, created, continued⟩
    rw [bind_ok_iff] at continued
    obtain ⟨kept, stored, continued⟩ := continued
    obtain ⟨agrees, grown⟩ := Dict.keep_ok_iff.mp stored
    rw [bind_ok_iff] at continued
    obtain ⟨_, _, finished⟩ := continued
    refine ⟨fun known => ?_, revision, created, ?_⟩
    · obtain ⟨previous, held⟩ := Dict.mem_keys.mp known
      apply valid.parents_ne_frontier held
      rw [agrees previous held]
      exact (create_ok_iff.mp created).2.2
    · rw [← grown]
      exact (Except.ok.inj finished).symm
  · rintro ⟨fresh, revision, created, same⟩
    have stored : Dict.keep ModelError.revisionCollision register.revisions (revisionId, revision) =
        .ok (register.revisions.set revisionId revision) := by
      refine Dict.keep_ok_iff.mpr ⟨fun previous held => ?_, rfl⟩
      exact absurd (Dict.mem_keys.mpr ⟨previous, held⟩) fresh
    have sound : Valid ⟨register.revisions.set revisionId revision⟩ := by
      refine valid.added fresh fun parent member => ?_
      rw [(create_ok_iff.mp created).2.2, ExtTreeSet.mem_ofList, List.contains_iff_mem] at member
      exact (mem_frontier.mp member).1
    refine ⟨revision, created, ?_⟩
    rw [stored]
    change (validate _ >>= fun _ => _) = _
    rw [validate_ok_iff.mpr sound, same]
    rfl

end Merging

end FrontierCausalRegister

end PrivateContinuum.Reference
