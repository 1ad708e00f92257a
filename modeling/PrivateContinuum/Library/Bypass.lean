import PrivateContinuum.Library.CausalHistory

namespace PrivateContinuum.Library.CausalGraph

open Relation

variable {Id Value : Type}

/-- A kept event that the source refers to, directly or through events that are cut out. -/
inductive Beyond (graph : CausalGraph Id Value) (Kept : Set Id) : Id → Id → Prop
  | direct {target source : Id} (edge : graph.Refers target source) (kept : target ∈ Kept) :
      Beyond graph Kept target source
  | through {target between source : Id} (edge : graph.Refers between source) (cut : between ∉ Kept)
      (rest : Beyond graph Kept target between) : Beyond graph Kept target source

/-- The kept events. Each refers to the latest of the kept events beyond it. -/
structure Bypassed (graph : CausalGraph Id Value) (Kept : Set Id)
    (next : CausalGraph Id Value) : Prop where
  known : ∀ id, id ∈ next.known ↔ id ∈ graph.known ∧ id ∈ Kept
  refers : ∀ target source, source ∈ Kept → (next.Refers target source ↔
    graph.Beyond Kept target source ∧ ∀ other, graph.Beyond Kept other source →
      ¬ graph.Ancestor target other)

variable {graph next others : CausalGraph Id Value} {Kept : Set Id} {target source above : Id}

namespace Beyond

theorem kept (beyond : graph.Beyond Kept target source) : target ∈ Kept := by
  induction beyond with
  | direct _ kept => exact kept
  | through _ _ _ ih => exact ih

theorem ancestor (beyond : graph.Beyond Kept target source) : graph.Ancestor target source := by
  induction beyond with
  | direct edge _ => exact .single edge
  | through edge _ _ ih => exact ih.tail edge

end Beyond

/-- A kept ancestor is beyond the event, or below something that is. -/
theorem Ancestor.beyond (path : graph.Ancestor target source) (kept : target ∈ Kept) :
    ∃ other, graph.Beyond Kept other source ∧ (target = other ∨ graph.Ancestor target other) := by
  induction path with
  | single edge => exact ⟨target, .direct edge kept, Or.inl rfl⟩
  | @tail between source before edge ih =>
    by_cases inside : between ∈ Kept
    · exact ⟨between, .direct edge inside, Or.inr before⟩
    · obtain ⟨other, beyond, below⟩ := ih
      exact ⟨other, .through edge inside beyond, below⟩

/-- Beyond an event there are latest kept events. -/
theorem Sound.exists_latest (sound : graph.Sound) (beyond : graph.Beyond Kept target source) :
    ∃ latest, graph.Beyond Kept latest source ∧ (target = latest ∨ graph.Ancestor target latest) ∧
      ∀ other, graph.Beyond Kept other source → ¬ graph.Ancestor latest other := by
  have every : ∀ event : graph.known, graph.Beyond Kept event.1 source →
      ∃ latest, graph.Beyond Kept latest source ∧
      (event.1 = latest ∨ graph.Ancestor event.1 latest) ∧ ∀ other, graph.Beyond Kept other source →
      ¬ graph.Ancestor latest other := by
    intro event
    induction event using sound.upward.induction with
    | _ event ih =>
      intro beyond
      by_cases last : ∀ other, graph.Beyond Kept other source → ¬ graph.Ancestor event.1 other
      · exact ⟨event.1, beyond, Or.inl rfl, last⟩
      · push Not at last
        obtain ⟨other, further, path⟩ := last
        obtain ⟨latest, there, reached, most⟩ :=
          ih ⟨other, sound.ancestor_known further.ancestor⟩ path further
        refine ⟨latest, there, Or.inr ?_, most⟩
        rcases reached with same | longer
        · exact same ▸ path
        · exact path.trans longer
  exact every ⟨target, sound.ancestor_known beyond.ancestor⟩ beyond

namespace Bypassed

theorem ancestor_of (bypassed : graph.Bypassed Kept next) (path : next.Ancestor target source) :
    graph.Ancestor target source := by
  have step : ∀ {parent child}, next.Refers parent child → graph.Ancestor parent child := by
    intro parent child edge
    have inside := ((bypassed.known child).mp edge.known).2
    exact ((bypassed.refers parent child inside).mp edge).1.ancestor
  induction path with
  | single edge => exact step edge
  | tail _ edge ih => exact ih.trans (step edge)

/-- Between kept events, ancestry is as before. -/
theorem ancestor_iff (bypassed : graph.Bypassed Kept next) (sound : graph.Sound)
    (inside : target ∈ Kept) (kept : source ∈ Kept) :
    next.Ancestor target source ↔ graph.Ancestor target source := by
  refine ⟨bypassed.ancestor_of, fun path => ?_⟩
  have every : ∀ event : graph.known, event.1 ∈ Kept → graph.Ancestor target event.1 →
      next.Ancestor target event.1 := by
    intro event
    induction event using sound.downward.induction with
    | _ event ih =>
      intro kept path
      obtain ⟨other, beyond, below⟩ := path.beyond inside
      obtain ⟨latest, there, reached, most⟩ := sound.exists_latest beyond
      have edge : next.Refers latest event.1 :=
        (bypassed.refers latest event.1 kept).mpr ⟨there, most⟩
      have along : target = latest ∨ graph.Ancestor target latest := by
        rcases below with same | path
        · exact same ▸ reached
        · rcases reached with same | longer
          · exact Or.inr (same ▸ path)
          · exact Or.inr (path.trans longer)
      rcases along with same | path
      · exact same ▸ .single edge
      · exact (ih ⟨latest, sound.ancestor_known there.ancestor⟩ there.ancestor there.kept path).tail
          edge
  exact every ⟨source, path.known⟩ kept path

theorem sound (bypassed : graph.Bypassed Kept next) (sound : graph.Sound) : next.Sound where
  finite := sound.finite.subset fun id member => ((bypassed.known id).mp member).1
  closed := by
    intro target source edge
    obtain ⟨beyond, _⟩ :=
      (bypassed.refers target source ((bypassed.known source).mp edge.known).2).mp edge
    exact (bypassed.known target).mpr ⟨sound.ancestor_known beyond.ancestor, beyond.kept⟩
  acyclic := fun id round => sound.acyclic id (bypassed.ancestor_of round)

/-- Where everything that is beyond the source is kept, the source drops only what it
refers to anyway through another reference. -/
theorem refers_iff (bypassed : graph.Bypassed Kept next) (kept : source ∈ Kept)
    (direct : ∀ target, graph.Refers target source → target ∈ Kept) :
    next.Refers target source ↔ graph.Refers target source ∧ ∀ other, graph.Refers other source →
      ¬ graph.Ancestor target other := by
  have same : ∀ {target}, graph.Beyond Kept target source ↔ graph.Refers target source := by
    intro target
    constructor
    · intro beyond
      cases beyond with
      | direct edge _ => exact edge
      | through edge cut _ => exact absurd (direct _ edge) cut
    · exact fun edge => .direct edge (direct target edge)
  rw [bypassed.refers target source kept]
  simp only [same]

theorem frontier (bypassed : graph.Bypassed Kept next) (sound : graph.Sound)
    (front : graph.frontier ⊆ Kept) :
    next.frontier = graph.frontier := by
  ext id
  constructor
  · intro member
    obtain ⟨known, inside⟩ := (bypassed.known id).mp member.1
    refine ⟨known, fun source edge => ?_⟩
    obtain ⟨above, top, reached⟩ := sound.exists_frontier edge.known
    have path : graph.Ancestor id above := by
      rcases reached with same | path
      · exact same ▸ .single edge
      · exact .head edge path
    obtain ⟨child, first, _⟩ :=
      TransGen.head'_iff.mp ((bypassed.ancestor_iff sound inside (front top)).mpr path)
    exact member.2 child first
  · intro member
    refine ⟨(bypassed.known id).mpr ⟨member.1, front member⟩, fun source edge => ?_⟩
    obtain ⟨child, first, _⟩ := TransGen.head'_iff.mp (bypassed.ancestor_of (.single edge))
    exact member.2 child first

section Union

variable (bypassed : graph.Bypassed Kept next) (sound : graph.Sound) (also : others.Sound)
  (before : graph.Agree others) (after : next.Agree others) (named : ∀ id ∈ others.known, id ∈ Kept)

include bypassed sound also before after named

omit named in
/-- What is merged later sees kept events as before. -/
theorem union_ancestor_iff (inside : target ∈ Kept) (kept : source ∈ Kept) :
    (next.union others).Ancestor target source ↔ (graph.union others).Ancestor target source := by
  by_cases known : source ∈ graph.known
  · rw [after.ancestor_left (bypassed.sound sound) ((bypassed.known source).mpr ⟨known, kept⟩),
      before.ancestor_left sound known]
    exact bypassed.ancestor_iff sound inside kept
  · by_cases there : source ∈ others.known
    · rw [after.ancestor_right also there, before.ancestor_right also there]
    · have absent : ∀ part : CausalGraph Id Value, part.Agree others → source ∉ part.known →
          ¬ (part.union others).Ancestor target source := by
        intro part agree unknown path
        exact (agree.known_union.mp path.known).elim unknown there
      refine iff_of_false (absent next after fun member =>
        known ((bypassed.known source).mp member).1) (absent graph before known)

theorem union_frontier (front : graph.frontier ⊆ Kept) :
    (next.union others).frontier = (graph.union others).frontier := by
  have whole := sound.union also before
  have members : ∀ id, id ∈ Kept →
      (id ∈ (next.union others).known ↔ id ∈ (graph.union others).known) := by
    intro id inside
    rw [after.known_union, before.known_union, bypassed.known]
    exact or_congr_left (and_iff_left inside)
  have top : (graph.union others).frontier ⊆ Kept := by
    intro id member
    rcases before.known_union.mp member.1 with here | there
    · obtain ⟨above, high, reached⟩ := sound.exists_frontier here
      rcases reached with same | path
      · exact same ▸ front high
      · obtain ⟨child, first, _⟩ :=
          TransGen.head'_iff.mp ((before.ancestor_left sound high.1).mpr path)
        exact absurd first (member.2 child)
    · exact named id there
  ext id
  constructor
  · intro member
    have inside : id ∈ Kept := by
      rcases after.known_union.mp member.1 with here | there
      · exact ((bypassed.known id).mp here).2
      · exact named id there
    refine ⟨(members id inside).mp member.1, fun source edge => ?_⟩
    obtain ⟨above, high, reached⟩ := whole.exists_frontier edge.known
    have path : (graph.union others).Ancestor id above := by
      rcases reached with same | path
      · exact same ▸ .single edge
      · exact .head edge path
    obtain ⟨child, first, _⟩ := TransGen.head'_iff.mp
      ((union_ancestor_iff bypassed sound also before after inside (top high)).mpr path)
    exact member.2 child first
  · intro member
    have inside := top member
    refine ⟨(members id inside).mpr member.1, fun source edge => ?_⟩
    have kept : source ∈ Kept := by
      rcases after.known_union.mp edge.known with here | there
      · exact ((bypassed.known source).mp here).2
      · exact named source there
    obtain ⟨child, first, _⟩ := TransGen.head'_iff.mp
      ((union_ancestor_iff bypassed sound also before after inside kept).mp (.single edge))
    exact member.2 child first

end Union

end Bypassed

end PrivateContinuum.Library.CausalGraph
