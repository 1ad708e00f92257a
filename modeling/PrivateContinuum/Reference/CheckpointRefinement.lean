import PrivateContinuum.Reference.CheckpointInvariant

/-! The compacted register next to the full one: over any run of assignments, imports
and compactions they have the same frontier. -/

namespace PrivateContinuum.Reference

open Std (ExtTreeSet)
open Relation PrivateContinuum.Library

namespace ExactCoverageRegister

variable {Value : Type} {full : FrontierCausalRegister Value}
  {compacted : ExactCoverageRegister Value} {order : SetOrder} {revisionId parent child : String}

/-- The compacted register stands for the full one: what it covers is dominated, and
closed under parents. -/
structure Covers (compacted : ExactCoverageRegister Value)
    (full : FrontierCausalRegister Value) : Prop where
  valid : full.Valid
  retained : ∀ revisionId revision, compacted.retained.get revisionId = some revision →
    full.revisions.get revisionId = some revision
  known : ∀ revisionId, revisionId ∈ full.revisions.keys ↔
    revisionId ∈ compacted.retained.keys ∨ revisionId ∈ compacted.coveredIds
  disjoint : ∀ revisionId ∈ compacted.retained.keys, revisionId ∉ compacted.coveredIds
  dominated : ∀ revisionId ∈ compacted.coveredIds, ∃ child, Names full.revisions revisionId child
  closed : ∀ parent child, Names full.revisions parent child → child ∈ compacted.coveredIds →
    parent ∈ compacted.coveredIds

theorem Covers.get_eq (covers : compacted.Covers full)
    (uncovered : revisionId ∉ compacted.coveredIds) :
    compacted.retained.get revisionId = full.revisions.get revisionId := by
  cases held : compacted.retained.get revisionId with
  | some revision => exact (covers.retained revisionId revision held).symm
  | none =>
    symm
    rw [Dict.get_none_iff, covers.known, not_or]
    exact ⟨Dict.get_none_iff.mp held, uncovered⟩

theorem Covers.names_iff (covers : compacted.Covers full)
    (uncovered : child ∉ compacted.coveredIds) :
    Names compacted.retained parent child ↔ Names full.revisions parent child := by
  rw [Names, Names, covers.get_eq uncovered]

theorem Covers.names (covers : compacted.Covers full)
    (names : Names compacted.retained parent child) :
    Names full.revisions parent child := by
  obtain ⟨revision, found, member⟩ := names
  exact ⟨revision, covers.retained child revision found, member⟩

theorem Covers.ancestor (covers : compacted.Covers full) (path : full.Ancestor parent child)
    (covered : child ∈ compacted.coveredIds) : parent ∈ compacted.coveredIds := by
  induction path with
  | single edge => exact covers.closed _ _ edge covered
  | tail _ edge ih => exact ih (covers.closed _ _ edge covered)

theorem Covers.sound (covers : compacted.Covers full) : compacted.Valid where
  disjoint := covers.disjoint
  canonical := by
    intro revisionId covered
    obtain ⟨child, revision, _, member⟩ := covers.dominated revisionId covered
    exact revision.canonicalParents revisionId member
  closed := by
    intro parent child names
    exact (covers.known parent).mp (covers.valid.closed parent child (covers.names names))
  acyclic := by
    intro revisionId round
    refine covers.valid.acyclic revisionId (TransGen.mono ?_ _ _ round)
    intro parent child names
    exact covers.names names.1

theorem Covers.get_frontier (covers : compacted.Covers full) {revision : FrontierRevision Value} :
    compacted.frontier.get revisionId = some revision ↔
    full.frontier.get revisionId = some revision := by
  have mem_referencedRetained : revisionId ∈ compacted.referencedRetained ↔
      ∃ child, compacted.RetainedNames revisionId child := by
    rw [referencedRetained, List.mem_flatMap]
    simp only [Dict.mem_values, List.mem_filter, ExtTreeSet.mem_toList, decide_eq_true_eq]
    constructor
    · rintro ⟨found, ⟨child, held⟩, member, known⟩
      exact ⟨child, ⟨found, held, member⟩, known⟩
    · rintro ⟨child, ⟨found, held, member⟩, known⟩
      exact ⟨found, ⟨child, held⟩, member, known⟩
  rw [frontier, Dict.get_filter, decide_eq_true_eq, mem_referencedRetained,
    FrontierCausalRegister.get_frontier]
  constructor
  · rintro ⟨held, free⟩
    refine ⟨covers.retained revisionId revision held, ?_⟩
    rintro ⟨child, names⟩
    have present : revisionId ∈ compacted.retained.keys := Dict.mem_keys.mpr ⟨revision, held⟩
    by_cases covered : child ∈ compacted.coveredIds
    · exact covers.disjoint revisionId present (covers.closed revisionId child names covered)
    · exact free ⟨child, (covers.names_iff covered).mpr names, present⟩
  · rintro ⟨held, free⟩
    have uncovered : revisionId ∉ compacted.coveredIds :=
      fun covered => free (covers.dominated revisionId covered)
    refine ⟨(covers.get_eq uncovered).trans held, ?_⟩
    rintro ⟨child, names, _⟩
    exact free ⟨child, covers.names names⟩

theorem Covers.mem_frontier (covers : compacted.Covers full) :
    revisionId ∈ compacted.frontier.keys ↔ revisionId ∈ full.frontier.keys := by
  rw [Dict.mem_keys, Dict.mem_keys]
  simp only [covers.get_frontier]

theorem Covers.values_frontier (covers : compacted.Covers full)
    (revision : FrontierRevision Value) :
    revision ∈ compacted.frontier.values ↔ revision ∈ full.frontier.values := by
  rw [Dict.mem_values, Dict.mem_values]
  simp only [covers.get_frontier]

/-- The frontier of a valid register and the identifiers of all else stand for it. -/
theorem covers_frontier (valid : full.Valid)
    (retained : ∀ revisionId revision, compacted.retained.get revisionId = some revision ↔
      full.revisions.get revisionId = some revision ∧ revisionId ∈ full.frontier.keys)
    (covered : ∀ revisionId, revisionId ∈ compacted.coveredIds ↔ revisionId ∈ full.revisions.keys ∧
      revisionId ∉ full.frontier.keys) : compacted.Covers full where
  valid := valid
  retained := fun revisionId revision held => ((retained revisionId revision).mp held).1
  known := by
    intro revisionId
    rw [covered, Dict.mem_keys]
    constructor
    · rintro ⟨revision, held⟩
      by_cases front : revisionId ∈ full.frontier.keys
      · exact Or.inl
          (Dict.mem_keys.mpr ⟨revision, (retained revisionId revision).mpr ⟨held, front⟩⟩)
      · exact Or.inr ⟨⟨revision, held⟩, front⟩
    · rintro (present | ⟨present, _⟩)
      · obtain ⟨revision, held⟩ := Dict.mem_keys.mp present
        exact ⟨revision, ((retained revisionId revision).mp held).1⟩
      · exact present
  disjoint := by
    intro revisionId present
    obtain ⟨revision, held⟩ := Dict.mem_keys.mp present
    exact fun both => ((covered revisionId).mp both).2 ((retained revisionId revision).mp held).2
  dominated := by
    intro revisionId inside
    obtain ⟨present, behind⟩ := (covered revisionId).mp inside
    by_contra free
    exact behind (FrontierCausalRegister.mem_frontier.mpr ⟨present, free⟩)
  closed := by
    intro parent child names _
    refine (covered parent).mpr ⟨valid.closed parent child names, fun front => ?_⟩
    exact (FrontierCausalRegister.mem_frontier.mp front).2 ⟨child, names⟩

theorem fromFull_exists (valid : full.Valid) :
    ∃ compacted, fromFull order full = .ok compacted := by
  obtain ⟨picked, taken⟩ : ∃ picked, pick order full.revisions full.frontier.keys = .ok picked :=
    pick_exists fun revisionId member => (FrontierCausalRegister.mem_frontier.mp member).1
  refine ⟨⟨picked, ExtTreeSet.ofList (full.revisions.keys.filter (· ∉ full.frontier.keys))⟩, ?_⟩
  rw [fromFull, FrontierCausalRegister.validate_ok_iff.mpr valid]
  dsimp only
  rw [taken]
  rfl

theorem fromFull_covers (done : fromFull order full = .ok compacted) : compacted.Covers full := by
  rw [fromFull, bind_ok_iff] at done
  obtain ⟨_, validated, continued⟩ := done
  rw [bind_ok_iff] at continued
  obtain ⟨picked, taken, finished⟩ := continued
  cases finished
  refine covers_frontier (FrontierCausalRegister.validate_ok_iff.mp validated)
    (fun _ _ => pick_ok taken) ?_
  intro revisionId
  rw [ExtTreeSet.mem_ofList, List.contains_iff_mem, List.mem_filter, decide_eq_true_eq]

/-- Compacting always succeeds, and stands for the same full register. -/
theorem Covers.compact (covers : compacted.Covers full) :
    ∃ next, compacted.compact order = .ok next ∧ next.Covers full := by
  obtain ⟨picked, taken⟩ :
      ∃ picked, pick order compacted.retained compacted.frontier.keys = .ok picked := by
    refine pick_exists fun revisionId member => ?_
    obtain ⟨revision, found⟩ := Dict.mem_keys.mp member
    exact Dict.mem_keys.mpr ⟨revision, (Dict.get_filter.mp found).1⟩
  have stands : Covers ⟨picked, compacted.coveredIds ∪
      ExtTreeSet.ofList (compacted.retained.keys.filter (· ∉ compacted.frontier.keys))⟩ full := by
    apply covers_frontier covers.valid
    · intro revisionId revision
      rw [pick_ok taken, covers.mem_frontier]
      refine and_congr_left fun front => ?_
      have uncovered : revisionId ∉ compacted.coveredIds := fun covered =>
        (FrontierCausalRegister.mem_frontier.mp front).2 (covers.dominated revisionId covered)
      rw [covers.get_eq uncovered]
    · intro revisionId
      rw [ExtTreeSet.mem_union_iff, ExtTreeSet.mem_ofList, List.contains_iff_mem, List.mem_filter,
        decide_eq_true_eq, covers.mem_frontier, covers.known]
      constructor
      · rintro (covered | ⟨present, behind⟩)
        · exact ⟨Or.inr covered, fun front =>
            (FrontierCausalRegister.mem_frontier.mp front).2 (covers.dominated revisionId covered)⟩
        · exact ⟨Or.inl present, behind⟩
      · rintro ⟨present | covered, behind⟩
        · exact Or.inr ⟨present, behind⟩
        · exact Or.inl covered
  refine ⟨_, ?_, stands⟩
  rw [ExactCoverageRegister.compact]
  dsimp only
  rw [taken]
  change (validate _ >>= fun _ => _) = _
  rw [validate_ok_iff.mpr stands.sound]
  rfl

theorem Covers.frontier_set (covers : compacted.Covers full) :
    ExtTreeSet.ofList compacted.frontier.keys = ExtTreeSet.ofList full.frontier.keys := by
  apply ExtTreeSet.ext_mem
  intro revisionId
  rw [ExtTreeSet.mem_ofList, ExtTreeSet.mem_ofList, List.contains_iff_mem, List.contains_iff_mem,
    covers.mem_frontier]

theorem Covers.covered_known (covers : compacted.Covers full)
    (covered : revisionId ∈ compacted.coveredIds) :
    revisionId ∈ full.revisions.keys :=
  (covers.known revisionId).mpr (Or.inr covered)

section Growing

variable {larger : FrontierCausalRegister Value} {next : ExactCoverageRegister Value}

/-- Both registers grow by the same new revisions. -/
theorem Covers.grown (covers : compacted.Covers full) (valid : larger.Valid)
    (included : full.Included larger) (covered : next.coveredIds = compacted.coveredIds)
    (retained : ∀ revisionId, revisionId ∉ compacted.coveredIds →
      next.retained.get revisionId = larger.revisions.get revisionId)
    (kept : ∀ revisionId ∈ compacted.coveredIds, next.retained.get revisionId = none) :
    next.Covers larger where
  valid := valid
  retained := by
    intro revisionId revision held
    by_cases inside : revisionId ∈ compacted.coveredIds
    · rw [kept revisionId inside] at held
      cases held
    · rw [← retained revisionId inside, held]
  known := by
    intro revisionId
    rw [covered, Dict.mem_keys, Dict.mem_keys]
    by_cases inside : revisionId ∈ compacted.coveredIds
    · obtain ⟨revision, held⟩ := Dict.mem_keys.mp (covers.covered_known inside)
      exact iff_of_true ⟨revision, included revisionId revision held⟩ (Or.inr inside)
    · rw [retained revisionId inside, or_iff_left inside]
  disjoint := by
    intro revisionId present inside
    rw [covered] at inside
    exact Dict.get_none_iff.mp (kept revisionId inside) present
  dominated := by
    intro revisionId inside
    rw [covered] at inside
    obtain ⟨child, names⟩ := covers.dominated revisionId inside
    exact ⟨child, (included.names_iff (FrontierCausalRegister.names_known names)).mpr names⟩
  closed := by
    intro parent child names inside
    rw [covered] at inside ⊢
    exact covers.closed parent child
      ((included.names_iff (covers.covered_known inside)).mp names) inside

theorem Covers.added {revision : FrontierRevision Value} (covers : compacted.Covers full)
    (fresh : revisionId ∉ full.revisions.keys)
    (known : ∀ parent ∈ revision.parents, parent ∈ full.revisions.keys) :
    Covers ⟨compacted.retained.set revisionId revision, compacted.coveredIds⟩
      ⟨full.revisions.set revisionId revision⟩ := by
  refine covers.grown (covers.valid.added fresh known) ?_ rfl ?_ ?_
  · intro other held stored
    rw [Dict.get_set, if_neg, stored]
    intro same
    exact fresh (Dict.mem_keys.mpr ⟨held, same ▸ stored⟩)
  · intro other uncovered
    dsimp only
    rw [Dict.get_set, Dict.get_set, covers.get_eq uncovered]
  · intro other covered
    dsimp only
    rw [Dict.get_set, if_neg]
    · exact Dict.get_none_iff.mpr fun present => covers.disjoint other present covered
    · intro same
      exact fresh (same ▸ covers.covered_known covered)

/-- A cycle through new revisions is a cycle of retained ones. -/
theorem Covers.retained_path {above below : String}
    (covers : compacted.Covers full) (included : full.Included larger)
    (closed : ∀ parent child, Names larger.revisions parent child → parent ∈ larger.revisions.keys)
    (retained : ∀ revisionId, revisionId ∉ full.revisions.keys →
      next.retained.get revisionId = larger.revisions.get revisionId)
    (path : larger.Ancestor above below) (unknown : above ∉ full.revisions.keys) :
    TransGen next.RetainedNames above below := by
  have step : ∀ parent child, Names larger.revisions parent child → parent ∉ full.revisions.keys →
      child ∉ full.revisions.keys → next.RetainedNames parent child := by
    intro parent child names upper lower
    constructor
    · rw [Names, retained child lower]
      exact names
    · rw [Dict.mem_keys, retained parent upper]
      exact Dict.mem_keys.mp (closed parent child names)
  have apart : ∀ {child}, larger.Ancestor above child → child ∉ full.revisions.keys :=
    fun longer => included.unknown covers.valid longer unknown
  induction path with
  | single edge => exact .single (step _ _ edge unknown (apart (.single edge)))
  | tail before edge ih => exact ih.tail (step _ _ edge (apart before) (apart (before.tail edge)))

/-- What both sides hold once the incoming revisions are taken in. -/
structure Imports (compacted : ExactCoverageRegister Value) (full : FrontierCausalRegister Value)
    (incoming genuinelyNew merged : Dict String (FrontierRevision Value)) : Prop where
  fresh : ∀ revisionId revision, genuinelyNew.get revisionId = some revision ↔
    incoming.get revisionId = some revision ∧ revisionId ∉ full.revisions.keys
  union : ∀ revisionId revision, merged.get revisionId = some revision ↔
    full.revisions.get revisionId = some revision ∨ incoming.get revisionId = some revision
  agree : full.revisions.Agree incoming

section Imports

variable {incoming genuinelyNew merged : Dict String (FrontierRevision Value)}

theorem Imports.included (imports : Imports compacted full incoming genuinelyNew merged) :
    full.Included ⟨merged⟩ :=
  fun revisionId revision held => (imports.union revisionId revision).mpr (Or.inl held)

theorem Imports.get_iff (imports : Imports compacted full incoming genuinelyNew merged)
    {revision : FrontierRevision Value} :
    merged.get revisionId = some revision ↔
      full.revisions.get revisionId = some revision ∨
        genuinelyNew.get revisionId = some revision := by
  rw [imports.union, imports.fresh]
  constructor
  · rintro (held | sent)
    · exact Or.inl held
    · cases found : full.revisions.get revisionId with
      | none => exact Or.inr ⟨sent, Dict.get_none_iff.mp found⟩
      | some previous =>
        exact Or.inl (congrArg some (imports.agree revisionId previous revision found sent))
  · rintro (held | ⟨sent, _⟩)
    · exact Or.inl held
    · exact Or.inr sent

theorem Imports.get_update (imports : Imports compacted full incoming genuinelyNew merged)
    (covers : compacted.Covers full) (uncovered : revisionId ∉ compacted.coveredIds) :
    (compacted.retained.update genuinelyNew).get revisionId = merged.get revisionId := by
  apply Option.ext
  intro revision
  rw [Dict.get_update, imports.get_iff, covers.get_eq uncovered]
  constructor
  · rintro (sent | ⟨_, held⟩)
    · exact Or.inr sent
    · exact Or.inl held
  · rintro (held | sent)
    · refine Or.inr ⟨fun present => ?_, held⟩
      obtain ⟨other, sent⟩ := Dict.mem_keys.mp present
      exact ((imports.fresh revisionId other).mp sent).2 (Dict.mem_keys.mpr ⟨revision, held⟩)
    · exact Or.inl sent

theorem Imports.covers (imports : Imports compacted full incoming genuinelyNew merged)
    (covers : compacted.Covers full) (valid : FrontierCausalRegister.Valid ⟨merged⟩) :
    Covers ⟨compacted.retained.update genuinelyNew, compacted.coveredIds⟩ ⟨merged⟩ := by
  refine covers.grown valid imports.included rfl (fun _ uncovered =>
    imports.get_update covers uncovered) ?_
  intro revisionId covered
  rw [Option.eq_none_iff_forall_ne_some]
  intro revision held
  rcases Dict.get_update.mp held with sent | ⟨_, kept⟩
  · exact ((imports.fresh revisionId revision).mp sent).2 (covers.covered_known covered)
  · exact covers.disjoint revisionId (Dict.mem_keys.mpr ⟨revision, kept⟩) covered

theorem Imports.available_iff (imports : Imports compacted full incoming genuinelyNew merged)
    (covers : compacted.Covers full) :
    revisionId ∈ compacted.retained.keys ++ compacted.coveredIds.toList ++ genuinelyNew.keys ↔
      revisionId ∈ merged.keys := by
  rw [List.mem_append, List.mem_append, ExtTreeSet.mem_toList, ← covers.known, Dict.mem_keys,
    Dict.mem_keys, Dict.mem_keys]
  simp only [imports.get_iff]
  exact exists_or.symm

/-- The checks of both sides come to the same. -/
theorem Imports.valid_iff (imports : Imports compacted full incoming genuinelyNew merged)
    (covers : compacted.Covers full) :
    ((∀ parent child, Names genuinelyNew parent child →
        parent ∈ compacted.retained.keys ++ compacted.coveredIds.toList ++ genuinelyNew.keys) ∧
      Valid ⟨compacted.retained.update genuinelyNew, compacted.coveredIds⟩) ↔
        FrontierCausalRegister.Valid ⟨merged⟩ := by
  constructor
  · rintro ⟨available, sound⟩
    have closed : ∀ parent child, Names merged parent child → parent ∈ merged.keys := by
      rintro parent child ⟨revision, found, member⟩
      rcases imports.get_iff.mp found with held | sent
      · obtain ⟨other, stored⟩ :=
          Dict.mem_keys.mp (covers.valid.closed parent child ⟨revision, held, member⟩)
        exact Dict.mem_keys.mpr ⟨other, imports.included parent other stored⟩
      · exact (imports.available_iff covers).mp (available parent child ⟨revision, sent, member⟩)
    refine covers.valid.grown imports.included closed fun revisionId unknown round =>
      sound.acyclic revisionId ?_
    refine covers.retained_path imports.included closed (fun other absent => ?_) round unknown
    exact imports.get_update covers fun covered => absent (covers.covered_known covered)
  · intro valid
    refine ⟨?_, (imports.covers covers valid).sound⟩
    rintro parent child ⟨revision, sent, member⟩
    rw [imports.available_iff covers]
    exact valid.closed parent child ⟨revision, imports.get_iff.mpr (Or.inr sent), member⟩

end Imports

variable [DecidableEq Value] {value : Value} {result : FrontierCausalRegister Value}

/-- The compacted register assigns exactly what the full one assigns. -/
theorem Covers.assign_ok_iff (covers : compacted.Covers full) :
    compacted.assign revisionId value = .ok next ↔
    revisionId ∉ full.revisions.keys ∧ ∃ revision,
      FrontierRevision.create revisionId value (ExtTreeSet.ofList full.frontier.keys) =
        .ok revision ∧
        next = ⟨compacted.retained.set revisionId revision, compacted.coveredIds⟩ := by
  rw [ExactCoverageRegister.assign, bind_ok_iff]
  constructor
  · rintro ⟨bytes, canonical, continued⟩
    by_cases covered : revisionId ∈ compacted.coveredIds
    · rw [if_pos covered] at continued
      cases continued
    rw [if_neg covered] at continued
    change (FrontierRevision.create revisionId value _ >>= fun _ => _) = _ at continued
    rw [covers.frontier_set, bind_ok_iff] at continued
    obtain ⟨revision, created, continued⟩ := continued
    rw [bind_ok_iff] at continued
    obtain ⟨kept, stored, continued⟩ := continued
    obtain ⟨agrees, grown⟩ := Dict.keep_ok_iff.mp stored
    rw [bind_ok_iff] at continued
    obtain ⟨_, _, finished⟩ := continued
    refine ⟨fun known => ?_, revision, created, ?_⟩
    · obtain ⟨previous, held⟩ := Dict.mem_keys.mp known
      apply covers.valid.parents_ne_frontier held
      rw [agrees previous ((covers.get_eq covered).trans held)]
      exact (create_ok_iff.mp created).2.2
    · rw [← grown]
      exact (Except.ok.inj finished).symm
  · rintro ⟨fresh, revision, created, same⟩
    have uncovered : revisionId ∉ compacted.coveredIds :=
      fun covered => fresh (covers.covered_known covered)
    obtain ⟨bytes, canonical⟩ : Canonical revisionId :=
      (create_ok_iff.mp created).1 ▸ revision.canonical
    have stored : Dict.keep ModelError.revisionCollision compacted.retained (revisionId, revision) =
        .ok (compacted.retained.set revisionId revision) := by
      refine Dict.keep_ok_iff.mpr ⟨fun previous held => ?_, rfl⟩
      exact absurd (Dict.mem_keys.mpr ⟨previous, covers.retained revisionId previous held⟩) fresh
    have stands := covers.added fresh fun parent member => by
      rw [(create_ok_iff.mp created).2.2, ExtTreeSet.mem_ofList, List.contains_iff_mem] at member
      exact (FrontierCausalRegister.mem_frontier.mp member).1
    refine ⟨bytes, canonical, ?_⟩
    rw [if_neg uncovered]
    change (FrontierRevision.create revisionId value _ >>= fun _ => _) = _
    rw [covers.frontier_set, created]
    change (Dict.keep ModelError.revisionCollision compacted.retained (revisionId, revision) >>=
      fun _ => _) = _
    rw [stored]
    change (validate _ >>= fun _ => _) = _
    rw [validate_ok_iff.mpr stands.sound, same]
    rfl

theorem Covers.assign (covers : compacted.Covers full) :
    ((∃ next, compacted.assign revisionId value = .ok next) ↔
      ∃ result, full.assign revisionId value = .ok result) ∧
      ∀ next result, compacted.assign revisionId value = .ok next →
      full.assign revisionId value = .ok result →
        next.Covers result := by
  simp only [covers.assign_ok_iff, FrontierCausalRegister.assign_ok_iff covers.valid]
  constructor
  · constructor
    · rintro ⟨next, fresh, revision, created, _⟩
      exact ⟨_, fresh, revision, created, rfl⟩
    · rintro ⟨result, fresh, revision, created, _⟩
      exact ⟨_, fresh, revision, created, rfl⟩
  · rintro next result ⟨fresh, revision, created, rfl⟩ ⟨_, other, again, rfl⟩
    rw [created] at again
    cases again
    refine covers.added fresh fun parent member => ?_
    rw [(create_ok_iff.mp created).2.2, ExtTreeSet.mem_ofList, List.contains_iff_mem] at member
    exact (FrontierCausalRegister.mem_frontier.mp member).1

/-- What the loop over the incoming revisions keeps: those that the full register does
not know. -/
theorem Covers.sorted {incoming : Dict String (FrontierRevision Value)}
    (covers : compacted.Covers full) (agree : full.revisions.Agree incoming) : ∃ genuinelyNew,
      incoming.items.foldlM compacted.sortIncoming Dict.empty = .ok genuinelyNew ∧
        ∀ revisionId revision, genuinelyNew.get revisionId = some revision ↔
          incoming.get revisionId = some revision ∧ revisionId ∉ full.revisions.keys := by
  have turn : ∀ entry ∈ incoming.items, ∀ held, compacted.sortIncoming held entry =
      .ok (if entry.1 ∉ full.revisions.keys then held.set entry.1 entry.2 else held) := by
    intro entry member held
    rw [sortIncoming]
    by_cases covered : entry.1 ∈ compacted.coveredIds
    · rw [if_pos covered, if_neg (not_not.mpr (covers.covered_known covered))]
    · rw [if_neg covered, covers.get_eq covered]
      cases found : full.revisions.get entry.1 with
      | none => rw [if_pos (Dict.get_none_iff.mp found)]
      | some previous =>
        have same := agree entry.1 previous entry.2 found (Dict.get_iff.mpr member)
        rw [if_neg (not_not.mpr (Dict.mem_keys.mpr ⟨previous, found⟩))]
        exact if_neg (not_not.mpr same)
  have all : ∀ entries : List (String × FrontierRevision Value),
      (∀ entry ∈ entries, entry ∈ incoming.items) → ∀ held,
      entries.foldlM compacted.sortIncoming held =
        .ok ((entries.filter fun entry => entry.1 ∉ full.revisions.keys).foldl
          (fun grown entry => grown.set entry.1 entry.2) held) := by
    intro entries
    induction entries with
    | nil => exact fun _ _ => rfl
    | cons entry rest ih =>
      intro among held
      have others := ih fun other member => among other (List.mem_cons_of_mem entry member)
      rw [List.foldlM_cons, turn entry (among entry List.mem_cons_self), List.filter_cons]
      change rest.foldlM compacted.sortIncoming _ = _
      rw [others]
      by_cases fresh : entry.1 ∉ full.revisions.keys
      · simp [fresh]
      · simp [fresh]
  refine ⟨_, all incoming.items (fun _ member => member) Dict.empty, ?_⟩
  intro revisionId revision
  rw [Dict.get_foldl_set ((List.filter_sublist.map Prod.fst).nodup incoming.distinct),
    List.mem_filter, decide_eq_true_eq, Dict.get_empty, ← Dict.get_iff]
  simp

/-- An import that passes its loop is checked for parents, and validated. -/
theorem importRevisions_ok_iff {incoming genuinelyNew : Dict String (FrontierRevision Value)}
    (matched : incoming.items.any (fun entry => entry.1 ≠ entry.2.revisionId) = false)
    (sortedOut : incoming.items.foldlM compacted.sortIncoming Dict.empty = .ok genuinelyNew) :
    compacted.importRevisions incoming = .ok next ↔
      (∀ parent child, Names genuinelyNew parent child →
        parent ∈ compacted.retained.keys ++ compacted.coveredIds.toList ++ genuinelyNew.keys) ∧
      Valid ⟨compacted.retained.update genuinelyNew, compacted.coveredIds⟩ ∧
      next = ⟨compacted.retained.update genuinelyNew, compacted.coveredIds⟩ := by
  rw [ExactCoverageRegister.importRevisions,
    matched, ← FrontierCausalRegister.parentsChecked_iff .historicalParentMissing,
    ← validate_ok_iff]
  change (incoming.items.foldlM compacted.sortIncoming Dict.empty >>= fun _ => _) = _ ↔ _
  rw [sortedOut]
  change ((forM genuinelyNew.values _ : Except ModelError Unit) >>= fun _ => _) = _ ↔ _
  rw [bind_ok_iff]
  constructor
  · rintro ⟨_, checked, continued⟩
    rw [bind_ok_iff] at continued
    obtain ⟨_, validated, finished⟩ := continued
    exact ⟨checked, validated, (Except.ok.inj finished).symm⟩
  · rintro ⟨checked, validated, same⟩
    refine ⟨(), checked, ?_⟩
    rw [bind_ok_iff]
    exact ⟨(), validated, congrArg Except.ok same.symm⟩

/-- The compacted register imports exactly what the full one merges, and stands for it. -/
theorem Covers.importRevisions {incoming : Dict String (FrontierRevision Value)}
    (covers : compacted.Covers full)
    (keyed : ∀ revisionId revision, incoming.get revisionId = some revision →
      revision.revisionId = revisionId)
    (agree : full.revisions.Agree incoming) :
    ((∃ next, compacted.importRevisions incoming = .ok next) ↔
      ∃ result, full.merge ⟨incoming⟩ = .ok result) ∧
      ∀ next result, compacted.importRevisions incoming = .ok next →
      full.merge ⟨incoming⟩ = .ok result →
        next.Covers result := by
  obtain ⟨genuinelyNew, sortedOut, fresh⟩ := covers.sorted agree
  obtain ⟨merged, kept⟩ :
      ∃ merged, Dict.keepAll ModelError.revisionCollision full.revisions incoming = .ok merged :=
    Dict.keepAll_exists_iff.mpr agree
  have imports : Imports compacted full incoming genuinelyNew merged :=
    ⟨fresh, (Dict.keepAll_ok kept).2, agree⟩
  have matched : incoming.items.any (fun entry => entry.1 ≠ entry.2.revisionId) = false := by
    simp only [List.any_eq_false, decide_eq_true_eq, ne_eq, not_not]
    intro entry member
    exact (keyed entry.1 entry.2 (Dict.get_iff.mpr member)).symm
  have merges : ∀ result, full.merge ⟨incoming⟩ = .ok result ↔
      result = ⟨merged⟩ ∧ result.Valid := by
    intro result
    rw [FrontierCausalRegister.merge_ok_iff, kept, Except.ok.injEq]
    refine and_congr_left fun _ => ?_
    constructor
    · intro same
      rw [same]
    · intro same
      rw [same]
  simp only [importRevisions_ok_iff matched sortedOut, merges]
  constructor
  · constructor
    · rintro ⟨next, available, sound, _⟩
      exact ⟨_, rfl, (imports.valid_iff covers).mp ⟨available, sound⟩⟩
    · rintro ⟨result, rfl, valid⟩
      obtain ⟨available, sound⟩ := (imports.valid_iff covers).mpr valid
      exact ⟨_, available, sound, rfl⟩
  · rintro next result ⟨_, _, rfl⟩ ⟨rfl, valid⟩
    exact imports.covers covers valid

end Growing

end ExactCoverageRegister

inductive CheckpointStep (Value : Type) where
  | compact (order : SetOrder)
  | assign (revisionId : String) (value : Value)
  | importRevisions (incoming : Dict String (FrontierRevision Value))

section Runs

variable {Value : Type} [DecidableEq Value]

def ExactCoverageRegister.perform (register : ExactCoverageRegister Value) :
    CheckpointStep Value → Except ModelError (ExactCoverageRegister Value)
  | .compact order => register.compact order
  | .assign revisionId value => register.assign revisionId value
  | .importRevisions incoming => register.importRevisions incoming

/-- The full register merges what the other one imports, and is never compacted. -/
def FrontierCausalRegister.perform (register : FrontierCausalRegister Value) :
    CheckpointStep Value → Except ModelError (FrontierCausalRegister Value)
  | .compact _ => .ok register
  | .assign revisionId value => register.assign revisionId value
  | .importRevisions incoming => register.merge ⟨incoming⟩

omit [DecidableEq Value] in
/-- Imported revisions stand under their own identifiers, with the content that is known
of them. -/
def CheckpointStep.Fits (full : FrontierCausalRegister Value) : CheckpointStep Value → Prop
  | .importRevisions incoming => (∀ revisionId revision, incoming.get revisionId = some revision →
      revision.revisionId = revisionId) ∧ full.revisions.Agree incoming
  | _ => True

/-- A compacted register next to the full one, since it was made of it. -/
inductive CheckpointRun : FrontierCausalRegister Value → ExactCoverageRegister Value → Prop where
  | start {full : FrontierCausalRegister Value} {compacted : ExactCoverageRegister Value}
      {order : SetOrder}
      (made : ExactCoverageRegister.fromFull order full = .ok compacted) :
      CheckpointRun full compacted
  | step {full result : FrontierCausalRegister Value} {compacted next : ExactCoverageRegister Value}
      {step : CheckpointStep Value} (run : CheckpointRun full compacted) (fits : step.Fits full)
      (performed : compacted.perform step = .ok next) (also : full.perform step = .ok result) :
      CheckpointRun result next

variable {full : FrontierCausalRegister Value} {compacted : ExactCoverageRegister Value}

/-- One step succeeds on both sides or on none, and keeps them together. -/
theorem covers_step {step : CheckpointStep Value} (covers : compacted.Covers full)
    (fits : step.Fits full) :
    ((∃ next, compacted.perform step = .ok next) ↔ ∃ result, full.perform step = .ok result) ∧
      ∀ next result, compacted.perform step = .ok next → full.perform step = .ok result →
      next.Covers result := by
  cases step with
  | compact order =>
    obtain ⟨next, done, stands⟩ : ∃ next, compacted.compact order = .ok next ∧ next.Covers full :=
      covers.compact
    refine ⟨iff_of_true ⟨next, done⟩ ⟨full, rfl⟩, ?_⟩
    intro other result performed also
    cases also
    rw [ExactCoverageRegister.perform, done] at performed
    cases performed
    exact stands
  | assign revisionId value => exact covers.assign
  | importRevisions incoming => exact covers.importRevisions fits.1 fits.2

theorem CheckpointRun.covers (run : CheckpointRun full compacted) : compacted.Covers full := by
  induction run with
  | start made => exact ExactCoverageRegister.fromFull_covers made
  | step _ fits performed also ih => exact (covers_step ih fits).2 _ _ performed also

/-- Compacting at any moments never changes what is visible: over every run the steps
succeed on both sides or on none, and the frontiers stay the same. -/
theorem checkpoint_preserves_meaning :
    (∀ (full : FrontierCausalRegister Value) (order : SetOrder), full.validate = .ok () →
      ∃ compacted, ExactCoverageRegister.fromFull order full = .ok compacted) ∧
    ∀ (full : FrontierCausalRegister Value) (compacted : ExactCoverageRegister Value),
      CheckpointRun full compacted → (∀ step : CheckpointStep Value, step.Fits full →
        ((∃ next, compacted.perform step = .ok next) ↔ ∃ result, full.perform step = .ok result)) ∧
      (∀ revisionId, revisionId ∈ compacted.frontier.keys ↔ revisionId ∈ full.frontier.keys) ∧
      compacted.materializedRevision.map FrontierRevision.key =
        full.materializedRevision.map FrontierRevision.key ∧
      ((∀ left ∈ full.frontier.values, ∀ right ∈ full.frontier.values, left.key = right.key →
        left = right) → compacted.materializedRevision = full.materializedRevision) ∧
      (∀ revisionId ∈ compacted.retained.keys, revisionId ∉ compacted.coveredIds) ∧
      (∀ revisionId, revisionId ∈ full.revisions.keys ↔
        revisionId ∈ compacted.retained.keys ∨ revisionId ∈ compacted.coveredIds) ∧
      ∀ ancestor descendant, full.Ancestor ancestor descendant → descendant ∈ compacted.coveredIds →
        ancestor ∈ compacted.coveredIds := by
  constructor
  · intro full order validated
    exact ExactCoverageRegister.fromFull_exists
      (FrontierCausalRegister.validate_ok_iff.mp validated)
  · intro full compacted run
    have covers := run.covers
    refine ⟨fun step fits => (covers_step covers fits).1, fun _ => covers.mem_frontier,
      latest_key_eq covers.values_frontier, fun distinct => (latest_eq (fun revision =>
        (covers.values_frontier revision).symm) distinct).symm, covers.disjoint, covers.known,
      fun _ _ => covers.ancestor⟩

/-- A chain of two revisions, compacted, then assigned to. -/
theorem checkpoint_preserves_meaning_chain :
    let first : FrontierRevision Nat := ⟨"01", 7, ∅, by decide +kernel, by simp, by simp⟩
    let second : FrontierRevision Nat :=
      ⟨"02", 8, ExtTreeSet.ofList ["01"], by decide +kernel, by decide +kernel,
      by decide +kernel⟩
    let full : FrontierCausalRegister Nat := ⟨(Dict.empty.set "01" first).set "02" second⟩
    let order : SetOrder := ⟨List.reverse, List.reverse_perm⟩
    ∃ compacted next result, ExactCoverageRegister.fromFull order full = .ok compacted ∧
      compacted.assign "03" 9 = .ok next ∧ full.assign "03" 9 = .ok result ∧
      (∀ revisionId, revisionId ∈ next.frontier.keys ↔ revisionId ∈ result.frontier.keys) := by
  intro first second full order
  obtain ⟨compacted, made⟩ := (@checkpoint_preserves_meaning Nat _).1 full order (by decide +kernel)
  have start : CheckpointRun full compacted := .start made
  have succeeds : (full.assign "03" 9).toOption.isSome = true := by decide +kernel
  obtain ⟨result, some⟩ := Option.isSome_iff_exists.mp succeeds
  have assigned := toOption_eq_some_iff.mp some
  have fits : (CheckpointStep.assign "03" 9).Fits full := trivial
  obtain ⟨next, also⟩ :=
    (((@checkpoint_preserves_meaning Nat _).2 full compacted start).1 (.assign "03" 9) fits).mpr
    ⟨result, assigned⟩
  exact ⟨compacted, next, result, made, also, assigned,
    ((@checkpoint_preserves_meaning Nat _).2 result next (.step start fits also assigned)).2.1⟩

/-- Two concurrent identifiers of the same bytes materialize by the order in which a set
is walked over, and a revision that is imported under another name is only refused by
the compacted register. -/
theorem checkpoint_changes_materialized :
    let small : FrontierRevision Nat := ⟨"0a", 1, ∅, by decide +kernel, by simp, by simp⟩
    let capital : FrontierRevision Nat := ⟨"0A", 2, ∅, by decide +kernel, by simp, by simp⟩
    let full : FrontierCausalRegister Nat := ⟨(Dict.empty.set "0a" small).set "0A" capital⟩
    let order : SetOrder := ⟨List.reverse, List.reverse_perm⟩
    let renamed : FrontierRevision Nat := ⟨"0c", 3, ∅, by decide +kernel, by simp, by simp⟩
    full.validate = .ok () ∧
      ∃ compacted, ExactCoverageRegister.fromFull order full = .ok compacted ∧
      full.materializedRevision = some small ∧ compacted.materializedRevision = some capital ∧
      compacted.importRevisions (Dict.empty.set "0b" renamed) = .error .mappingKeyMismatch ∧
      ∃ result, full.merge ⟨Dict.empty.set "0b" renamed⟩ = .ok result := by
  intro small capital full order renamed
  have valid : full.validate = .ok () := by decide +kernel
  have materialized : full.materializedRevision = some small := by decide +kernel
  have seen : (ExactCoverageRegister.fromFull order full).toOption.map
      ExactCoverageRegister.materializedRevision = some (some capital) := by
    decide +kernel
  have merges : (full.merge ⟨Dict.empty.set "0b" renamed⟩).toOption.isSome = true := by
    decide +kernel
  obtain ⟨compacted, some, latest⟩ := Option.map_eq_some_iff.mp seen
  obtain ⟨result, merged⟩ := Option.isSome_iff_exists.mp merges
  exact ⟨valid, compacted, toOption_eq_some_iff.mp some, materialized, latest, rfl, result,
    toOption_eq_some_iff.mp merged⟩

end Runs

end PrivateContinuum.Reference
