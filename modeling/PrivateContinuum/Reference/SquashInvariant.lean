import PrivateContinuum.Library.Bypass
import PrivateContinuum.Reference.Finalization
import PrivateContinuum.Reference.OracleSimulation

/-! What a squash leaves of a private history: it cuts removable revisions out, and the
revisions that stay keep their values, their order and their frontier. -/

namespace PrivateContinuum.Reference

open Std (ExtTreeSet)
open Relation PrivateContinuum.Library

theorem FrontierRevision.eq_of_shown {Value : Type} {one two : FrontierRevision Value}
    (named : one.revisionId = two.revisionId) (valued : one.value = two.value)
    (listed : ∀ parent, parent ∈ one.parents ↔ parent ∈ two.parents) : one = two := by
  have parents : one.parents = two.parents := ExtTreeSet.ext_mem listed
  cases one
  cases two
  cases named
  cases valued
  cases parents
  rfl

theorem names_iff {Value : Type} {revisions : Dict String (FrontierRevision Value)}
    {revision : FrontierRevision Value} {parent child : String}
    (stored : revisions.get child = some revision) :
    Names revisions parent child ↔ parent ∈ revision.parents := by
  constructor
  · rintro ⟨held, found, member⟩
    exact Option.some.inj (found.symm.trans stored) ▸ member
  · exact fun member => ⟨revision, stored, member⟩

namespace FrontierCausalRegister

variable {Value : Type} {register compact : FrontierCausalRegister Value}
  {removable : ExtTreeSet String} {revisionId parent child : String}

/-- The revisions that stay. -/
def Kept (removable : ExtTreeSet String) : Set String := {revisionId | revisionId ∉ removable}

theorem Valid.sound (valid : register.Valid) : register.graph.Sound where
  finite := (List.finite_toSet register.revisions.keys).subset fun _ member => graph_known.mp member
  closed := fun target source edge =>
    graph_known.mpr (valid.closed target source (graph_refers.mp edge))
  acyclic := fun id round => valid.acyclic id (graph_ancestor.mp round)

section Closures

variable {absent : LedgerError} {closure revisionIds : ExtTreeSet String}

theorem closureWalk_edge :
    (register.closureWalk absent).Edge child parent ↔ Names register.revisions parent child := by
  cases found : register.revisions.get child with
  | none => simp [Worklist.Edge, closureWalk, Names, found]
  | some revision => simp [Worklist.Edge, closureWalk, Names, found]

theorem closureWalk_reach :
    (register.closureWalk absent).Reach child parent ↔
    child = parent ∨ register.Ancestor parent child := by
  have edges : (register.closureWalk absent).Edge = Function.swap (Names register.revisions) := by
    funext child parent
    exact propext closureWalk_edge
  rw [Worklist.Reach, edges, reflTransGen_swap, reflTransGen_iff_eq_or_transGen, Ancestor]

theorem mem_ancestorClosure (done : register.ancestorClosure absent revisionIds = .ok closure) :
    revisionId ∈ closure ↔ ∃ start ∈ revisionIds, start = revisionId ∨
    register.Ancestor revisionId start := by
  rw [Worklist.mem_explore_iff (Worklist.closed_empty _) done]
  simp only [ExtTreeSet.not_mem_empty, false_or, List.mem_reverse, ExtTreeSet.mem_toList,
    closureWalk_reach]

theorem ancestorClosure_known (done : register.ancestorClosure absent revisionIds = .ok closure)
    (member : revisionId ∈ closure) :
    revisionId ∈ register.revisions.keys := by
  have reached := (Worklist.mem_explore_iff (Worklist.closed_empty _) done revisionId).mp member
  rw [or_iff_right ExtTreeSet.not_mem_empty] at reached
  obtain ⟨start, stacked, path⟩ := reached
  have passes := Worklist.explore_not_fails done stacked path absent
  by_contra unknown
  have missing := Dict.get_none_iff.mpr unknown
  exact passes (Or.inr (by simp [closureWalk, missing]))

/-- The closure of the closure's members stays inside. -/
theorem ancestorClosure_closed (done : register.ancestorClosure absent revisionIds = .ok closure)
    (member : child ∈ closure) (path : register.Ancestor parent child) : parent ∈ closure := by
  obtain ⟨start, listed, reached⟩ := (mem_ancestorClosure done).mp member
  refine (mem_ancestorClosure done).mpr ⟨start, listed, Or.inr ?_⟩
  rcases reached with same | longer
  · exact same ▸ path
  · exact path.trans longer

end Closures

section Boundaries

theorem boundaryWalk_edge : (register.boundaryWalk removable).Edge child parent ↔
    child ∈ removable ∧ Names register.revisions parent child := by
  change (∃ parents, (if child ∈ removable then register.parentsOf child
    else .ok []) = .ok parents ∧ parent ∈ parents) ↔ _
  by_cases cut : child ∈ removable
  · rw [if_pos cut, and_iff_right cut]
    exact ascent_parent_iff
  · rw [if_neg cut]
    simp [cut]

/-- What the walk from the parents reaches and leaves in place is what lies beyond the revision. -/
theorem boundary_beyond {revision : FrontierRevision Value}
    (found : register.revisions.get child = some revision) :
    ((∃ start ∈ revision.parents, (register.boundaryWalk removable).Reach start parent) ∧
      parent ∉ removable) ↔ register.graph.Beyond (Kept removable) parent child := by
  constructor
  · rintro ⟨⟨start, listed, path⟩, stays⟩
    have every : ∀ {start}, (register.boundaryWalk removable).Reach start parent →
        ∀ source, register.graph.Refers start source →
        register.graph.Beyond (Kept removable) parent source := by
      intro start path
      induction path using ReflTransGen.head_induction_on with
      | refl => exact fun source edge => .direct edge stays
      | head edge _ ih =>
        obtain ⟨cut, names⟩ := boundaryWalk_edge.mp edge
        intro source first
        exact .through first (fun kept => kept cut) (ih _ (graph_refers.mpr names))
    exact every path child (graph_refers.mpr ⟨revision, found, listed⟩)
  · intro beyond
    refine ⟨?_, beyond.kept⟩
    have every : ∀ {source}, register.graph.Beyond (Kept removable) parent source →
        ∃ start, register.graph.Refers start source ∧
          (register.boundaryWalk removable).Reach start parent := by
      intro source beyond
      induction beyond with
      | direct edge _ => exact ⟨parent, edge, .refl⟩
      | @through between source edge cut _ ih =>
        obtain ⟨start, names, path⟩ := ih
        refine ⟨between, edge, .head (boundaryWalk_edge.mpr ⟨?_, graph_refers.mp names⟩) path⟩
        by_contra stays
        exact cut stays
    obtain ⟨start, edge, path⟩ := every beyond
    obtain ⟨held, stored, listed⟩ := graph_refers.mp edge
    rw [found, Option.some.injEq] at stored
    exact ⟨start, stored ▸ listed, path⟩

theorem Valid.superseded_ok (valid : register.Valid) {boundary : List String}
    (known : ∀ other ∈ boundary, other ∈ register.revisions.keys)
    (here : parent ∈ register.revisions.keys) :
    ∃ answer, register.superseded boundary parent = .ok answer ∧
      (answer = true ↔ ∃ other ∈ boundary, register.Ancestor parent other) := by
  apply anyM_ok
  intro other member
  by_cases same : parent = other
  · refine ⟨false, by rw [if_pos same]; rfl, iff_of_false Bool.false_ne_true ?_⟩
    exact same ▸ valid.acyclic parent
  · rw [if_neg same]
    exact valid.isAncestor_ok here (known other member)

/-- The reduction keeps the latest revisions beyond the rewritten one. -/
theorem Valid.boundary_reduced (valid : register.Valid) {revision : FrontierRevision Value}
    {seen : ExtTreeSet String} (found : register.revisions.get child = some revision)
    (explored : (register.boundaryWalk removable).explore ∅ revision.parents.toList.reverse =
      .ok seen) :
    ∃ reduced, (seen.toList.filter fun other => other ∉ removable).filterM (fun candidate => do
        pure (!(← register.superseded (seen.toList.filter fun other =>
          other ∉ removable) candidate))) = .ok reduced ∧
      ∀ parent, parent ∈ reduced ↔ register.graph.Beyond (Kept removable) parent child ∧
        ∀ other, register.graph.Beyond (Kept removable) other child →
        ¬ register.graph.Ancestor parent other := by
  have members : ∀ other, other ∈ seen.toList.filter (fun other => other ∉ removable) ↔
      register.graph.Beyond (Kept removable) other child := by
    intro other
    rw [← boundary_beyond found, List.mem_filter, decide_eq_true_eq, ExtTreeSet.mem_toList,
      Worklist.mem_explore_iff (Worklist.closed_empty _) explored]
    simp only [ExtTreeSet.not_mem_empty, false_or, List.mem_reverse, ExtTreeSet.mem_toList]
  have known : ∀ other ∈ seen.toList.filter (fun other => other ∉ removable),
      other ∈ register.revisions.keys :=
    fun other member =>
      graph_known.mp (valid.sound.ancestor_known ((members other).mp member).ancestor)
  obtain ⟨reduced, kept, filtered⟩ :
    ∃ reduced, (seen.toList.filter fun other => other ∉ removable).filterM (fun candidate => do
      pure (!(← register.superseded (seen.toList.filter fun other =>
        other ∉ removable) candidate))) = .ok reduced ∧ _ := by
    apply filterM_ok
    intro candidate member
    obtain ⟨answer, told, meaning⟩ := valid.superseded_ok known (known candidate member)
    refine ⟨!answer, by rw [told]; rfl, ?_⟩
    rw [Bool.not_eq_true', ← Bool.not_eq_true, meaning]
  refine ⟨reduced, kept, fun parent => ?_⟩
  rw [filtered, members, not_exists]
  refine and_congr_right fun _ => ?_
  simp only [not_and, members, graph_ancestor]

/-- The new parents are the latest revisions beyond the rewritten one. -/
theorem Valid.boundaryParents_mem (valid : register.Valid) {revision : FrontierRevision Value}
    {result : ExtTreeSet String} (found : register.revisions.get child = some revision)
    (done : register.boundaryParents removable revision.parents = .ok result) :
    parent ∈ result ↔ register.graph.Beyond (Kept removable) parent child ∧
      ∀ other, register.graph.Beyond (Kept removable) other child →
      ¬ register.graph.Ancestor parent other := by
  rw [boundaryParents, bind_ok_iff] at done
  obtain ⟨seen, explored, done⟩ := done
  obtain ⟨reduced, kept, members⟩ := valid.boundary_reduced found explored
  rw [bind_ok_iff] at done
  obtain ⟨again, repeated, same⟩ := done
  rw [kept, Except.ok.injEq] at repeated
  subst repeated
  cases same
  rw [ExtTreeSet.mem_ofList, List.contains_iff_mem, members]

theorem Valid.boundaryParents_exists (valid : register.Valid) {revision : FrontierRevision Value}
    (found : register.revisions.get child = some revision) :
    ∃ result, register.boundaryParents removable revision.parents = .ok result := by
  cases explored : (register.boundaryWalk removable).explore ∅ revision.parents.toList.reverse with
  | ok seen =>
    obtain ⟨reduced, kept, _⟩ := valid.boundary_reduced found explored
    refine ⟨ExtTreeSet.ofList reduced, ?_⟩
    rw [boundaryParents, explored]
    exact congrArg (fun outcome => outcome >>= fun reduced => pure (ExtTreeSet.ofList reduced)) kept
  | error failure =>
    obtain ⟨start, listed, node, reached, fails⟩ := Worklist.explore_fails explored
    rw [List.mem_reverse, ExtTreeSet.mem_toList] at listed
    have known : node ∈ register.revisions.keys := by
      have first := valid.closed start child ⟨revision, found, listed⟩
      induction reached with
      | refl => exact first
      | tail _ edge _ => exact valid.closed _ _ (boundaryWalk_edge.mp edge).2
    obtain ⟨held, stored⟩ := Dict.mem_keys.mp known
    rcases fails with halts | stops
    · cases halts
    · change (if node ∈ removable then register.parentsOf node
        else .ok []) = .error failure at stops
      rw [parentsOf_ok stored] at stops
      split at stops
      · cases stops
      · cases stops

end Boundaries

section Rewriting

variable {revision : FrontierRevision Value} {rewritten : Dict String (FrontierRevision Value)}

/-- A revision that stays keeps its identifier and its value. -/
structure Rewritten (register : FrontierCausalRegister Value) (removable : ExtTreeSet String)
    (before after : String × FrontierRevision Value) : Prop where
  stored : after.1 = before.1
  named : after.2.revisionId = before.2.revisionId
  valued : after.2.value = before.2.value
  parents : register.boundaryParents removable before.2.parents = .ok after.2.parents

theorem rewriteEntry_ok {first last : Dict String (FrontierRevision Value)}
    {entry : String × FrontierRevision Value}
    (done : register.rewriteEntry removable first entry = .ok last) :
    ∃ next, register.Rewritten removable entry next ∧ last = first.set next.1 next.2 := by
  rw [rewriteEntry, bind_ok_iff] at done
  obtain ⟨parents, reduced, done⟩ := done
  rw [bind_ok_iff] at done
  obtain ⟨created, made, same⟩ := done
  obtain ⟨named, valued, listed⟩ := create_ok_iff.mp made
  exact ⟨(entry.1, created), ⟨rfl, named, valued, listed ▸ reduced⟩, (Except.ok.inj same).symm⟩

/-- The loop appends the rewritten revisions in their order. -/
theorem rewriteEntries_ok {entries : List (String × FrontierRevision Value)}
    {first last : Dict String (FrontierRevision Value)} (distinct : (entries.map Prod.fst).Nodup)
    (fresh : ∀ entry ∈ entries, entry.1 ∉ first.keys)
    (done : entries.foldlM (register.rewriteEntry removable) first = .ok last) :
    ∃ added, last.items = first.items ++ added ∧
    List.Forall₂ (register.Rewritten removable) entries added := by
  induction entries generalizing first with
  | nil =>
    cases done
    exact ⟨[], (List.append_nil _).symm, .nil⟩
  | cons entry rest ih =>
    rw [List.foldlM_cons, bind_ok_iff] at done
    obtain ⟨between, stepped, finished⟩ := done
    obtain ⟨next, rewrites, rfl⟩ := rewriteEntry_ok stepped
    rw [List.map_cons, List.nodup_cons] at distinct
    have absent : first.get next.1 = none := by
      rw [rewrites.stored, Dict.get_none_iff]
      exact fresh entry List.mem_cons_self
    have later : ∀ other ∈ rest, other.1 ∉ (first.set next.1 next.2).keys := by
      intro other member
      rw [Dict.keys, Dict.items_set absent, List.map_append, List.mem_append, not_or]
      refine ⟨fresh other (List.mem_cons_of_mem entry member), ?_⟩
      rw [List.map_singleton, List.mem_singleton, rewrites.stored]
      exact fun same => distinct.1 (List.mem_map.mpr ⟨other, member, same⟩)
    obtain ⟨added, appended, both⟩ := ih distinct.2 later finished
    refine ⟨next :: added, ?_, .cons rewrites both⟩
    rw [appended, Dict.items_set absent, List.append_assoc, List.singleton_append]

theorem rewrite_ok (done : register.rewrite removable = .ok rewritten) :
    List.Forall₂ (register.Rewritten removable)
    (register.revisions.filter fun revisionId => revisionId ∉ removable).items rewritten.items := by
  obtain ⟨added, appended, both⟩ :=
    rewriteEntries_ok (Dict.distinct _) (fun entry _ => List.not_mem_nil) done
  rw [appended]
  exact both

theorem rewrite_get (done : register.rewrite removable = .ok rewritten)
    (found : register.revisions.get revisionId = some revision) (stays : revisionId ∉ removable) :
    ∃ next, rewritten.get revisionId = some next ∧
      register.Rewritten removable (revisionId, revision) (revisionId, next) := by
  have member : (revisionId, revision) ∈ (register.revisions.filter fun revisionId =>
      revisionId ∉ removable).items :=
    Dict.get_iff.mp (Dict.get_filter.mpr ⟨found, decide_eq_true stays⟩)
  obtain ⟨⟨stored, next⟩, held, rewrites⟩ := forall₂_mem_left (rewrite_ok done) member
  have same : stored = revisionId := rewrites.stored
  subst same
  exact ⟨next, Dict.get_iff.mpr held, rewrites⟩

theorem rewrite_origin {next : FrontierRevision Value}
    (done : register.rewrite removable = .ok rewritten)
    (found : rewritten.get revisionId = some next) :
    ∃ revision, register.revisions.get revisionId = some revision ∧
      revisionId ∉ removable ∧
      register.Rewritten removable (revisionId, revision) (revisionId, next) := by
  obtain ⟨⟨stored, revision⟩, member, rewrites⟩ :=
    forall₂_mem_right (rewrite_ok done) (Dict.get_iff.mp found)
  have same : revisionId = stored := rewrites.stored
  subst same
  obtain ⟨held, stays⟩ := Dict.get_filter.mp (Dict.get_iff.mpr member)
  exact ⟨revision, held, of_decide_eq_true stays, rewrites⟩

/-- The rewritten register is the history without the removed revisions. -/
theorem Valid.rewrite_bypassed (valid : register.Valid)
    (done : register.rewrite removable = .ok rewritten) :
    register.graph.Bypassed (Kept removable) (graph ⟨rewritten⟩) where
  known := by
    intro id
    rw [graph_known, graph_known, Dict.mem_keys, Dict.mem_keys]
    constructor
    · rintro ⟨next, found⟩
      obtain ⟨revision, held, stays, _⟩ := rewrite_origin done found
      exact ⟨⟨revision, held⟩, stays⟩
    · rintro ⟨⟨revision, held⟩, stays⟩
      obtain ⟨next, found, _⟩ := rewrite_get done held stays
      exact ⟨next, found⟩
  refers := by
    intro target source stays
    rw [graph_refers]
    constructor
    · rintro ⟨next, found, listed⟩
      obtain ⟨revision, held, _, rewrites⟩ := rewrite_origin done found
      exact (valid.boundaryParents_mem held rewrites.parents).mp listed
    · intro latest
      obtain ⟨revision, held⟩ := Dict.mem_keys.mp (graph_known.mp latest.1.ancestor.known)
      obtain ⟨next, found, rewrites⟩ := rewrite_get done held stays
      exact ⟨next, found, (valid.boundaryParents_mem held rewrites.parents).mpr latest⟩

theorem Valid.rewrite_valid (valid : register.Valid)
    (done : register.rewrite removable = .ok rewritten) : Valid ⟨rewritten⟩ where
  closed := fun parent child names => graph_known.mp
    (((valid.rewrite_bypassed done).sound valid.sound).closed parent child (graph_refers.mpr names))
  acyclic := fun id round =>
    ((valid.rewrite_bypassed done).sound valid.sound).acyclic id (graph_ancestor.mpr round)

theorem Valid.rewrite_exists (valid : register.Valid) (keyed : register.Keyed) :
    ∃ rewritten, register.rewrite removable = .ok rewritten := by
  apply foldlM_exists (fun _ => True) ?_ trivial
  rintro first ⟨id, revision⟩ member _
  obtain ⟨found, _⟩ := Dict.get_filter.mp (Dict.get_iff.mpr member)
  obtain ⟨parents, reduced⟩ :=
    (valid.boundaryParents_exists found : ∃ parents,
      register.boundaryParents removable revision.parents = .ok parents)
  have beyond : ∀ {parent}, parent ∈ parents → register.graph.Beyond (Kept removable) parent id :=
    fun listed => ((valid.boundaryParents_mem found reduced).mp listed).1
  obtain ⟨created, made⟩ :
      ∃ created, FrontierRevision.create revision.revisionId revision.value parents =
        .ok created := by
    refine create_exists_iff.mpr ⟨revision.canonical, fun own => ?_, fun parent listed => ?_⟩
    · rw [keyed id revision found] at own
      exact valid.sound.acyclic id (beyond own).ancestor
    · obtain ⟨source, edge, _⟩ := TransGen.head'_iff.mp (beyond listed).ancestor
      obtain ⟨held, _, named⟩ := graph_refers.mp edge
      exact held.canonicalParents parent named
  refine ⟨first.set id created, ?_, trivial⟩
  rw [rewriteEntry, reduced]
  change (FrontierRevision.create revision.revisionId revision.value parents >>= _) = _
  rw [made]
  rfl

/-- A revision is rewritten as it was, if all its parents stay and none of them is named
in vain. -/
theorem Valid.rewrite_same_iff (valid : register.Valid)
    (done : register.rewrite removable = .ok rewritten)
    (found : register.revisions.get revisionId = some revision) (stays : revisionId ∉ removable) :
    rewritten.get revisionId = some revision ↔ ∀ parent ∈ revision.parents, parent ∉ removable ∧
      ∀ other ∈ revision.parents, ¬ register.Ancestor parent other := by
  obtain ⟨next, held, rewrites⟩ := rewrite_get done found stays
  have before : ∀ {parent}, register.graph.Refers parent revisionId ↔
      parent ∈ revision.parents := by
    intro parent
    rw [graph_refers, names_iff found]
  constructor
  · intro same parent listed
    rw [held, Option.some.injEq] at same
    have latest := (valid.boundaryParents_mem found rewrites.parents).mp (same ▸ listed)
    refine ⟨latest.1.kept, fun other also path => latest.2 other ?_ (graph_ancestor.mpr path)⟩
    exact ((valid.boundaryParents_mem found rewrites.parents).mp (same ▸ also)).1
  · intro free
    rw [held]
    refine congrArg some
      (FrontierRevision.eq_of_shown rewrites.named rewrites.valued fun parent => ?_)
    have after : (graph ⟨rewritten⟩).Refers parent revisionId ↔ parent ∈ next.parents := by
      rw [graph_refers, names_iff held]
    rw [← after, (valid.rewrite_bypassed done).refers_iff stays fun _ first =>
      (free _ (before.mp first)).1, before]
    refine and_iff_left_of_imp fun listed other edge path => ?_
    exact (free parent listed).2 other (before.mp edge) (graph_ancestor.mp path)

/-- Whatever stays finds the same ancestors. -/
theorem Valid.rewrite_isAncestor {above below : String} (valid : register.Valid)
    (done : register.rewrite removable = .ok rewritten) (also : Valid ⟨rewritten⟩)
    (high : above ∉ removable) (low : below ∉ removable) :
    (⟨rewritten⟩ : FrontierCausalRegister Value).isAncestor above below =
      register.isAncestor above below := by
  have bypassed := valid.rewrite_bypassed done
  have known : ∀ id, id ∉ removable → (id ∈ rewritten.keys ↔ id ∈ register.revisions.keys) := by
    intro id stays
    exact graph_known.symm.trans
      ((bypassed.known id).trans ((and_iff_left stays).trans graph_known))
  by_cases same : above = below
  · rw [isAncestor, isAncestor, if_pos same, if_pos same]
  by_cases both : above ∈ register.revisions.keys ∧ below ∈ register.revisions.keys
  · obtain ⟨before, told, meaning⟩ := valid.isAncestor_ok both.1 both.2
    obtain ⟨after, again, sense⟩ :=
      also.isAncestor_ok ((known above high).mpr both.1) ((known below low).mpr both.2)
    rw [told, again]
    refine congrArg Except.ok (Bool.eq_iff_iff.mpr ?_)
    rw [meaning, sense, ← graph_ancestor, ← graph_ancestor]
    exact bypassed.ancestor_iff valid.sound high low
  · have unknown : above ∉ register.revisions.keys ∨ below ∉ register.revisions.keys :=
      not_and_or.mp both
    have absent : above ∉ rewritten.keys ∨ below ∉ rewritten.keys := by
      rw [known above high, known below low]
      exact unknown
    rw [isAncestor, isAncestor, if_neg same, if_neg same, if_pos unknown, if_pos absent]

theorem Valid.rewrite_frontier (valid : register.Valid)
    (done : register.rewrite removable = .ok rewritten)
    (front : register.graph.frontier ⊆ Kept removable) :
    revisionId ∈ (⟨rewritten⟩ : FrontierCausalRegister Value).frontier.keys ↔
    revisionId ∈ register.frontier.keys := by
  have same := (valid.rewrite_bypassed done).frontier valid.sound front
  rw [graph_frontier, graph_frontier] at same
  exact Set.ext_iff.mp same revisionId

/-- The fields that decide which revision is materialized, and what it shows. -/
def shown (revision : FrontierRevision Value) :
    String × Value := (revision.revisionId, revision.value)

theorem key_of_shown {one two : FrontierRevision Value} (same : shown one = shown two) :
    one.key = two.key := by
  have named : one.revisionId = two.revisionId := congrArg Prod.fst same
  rw [FrontierRevision.key, FrontierRevision.key, ← nameKey_canonical, ← nameKey_canonical, named]

theorem later_shown {best other : Option (FrontierRevision Value)}
    {one two : FrontierRevision Value} (before : best.map shown = other.map shown)
    (same : shown one = shown two) :
    (later best one).map shown = (later other two).map shown := by
  cases best with
  | none =>
    rw [Option.map_none, eq_comm, Option.map_eq_none_iff] at before
    subst before
    exact congrArg some same
  | some held =>
    rw [Option.map_some, eq_comm, Option.map_eq_some_iff] at before
    obtain ⟨also, rfl, alike⟩ := before
    simp only [later, key_of_shown alike, key_of_shown same]
    split
    · exact congrArg some same
    · exact congrArg some alike.symm

theorem latest_shown {revisions others : List (FrontierRevision Value)}
    (both : List.Forall₂ (fun one two => shown one = shown two) revisions others) :
    (latest revisions).map shown = (latest others).map shown := by
  have every : ∀ {best other : Option (FrontierRevision Value)}, best.map shown = other.map shown →
      (revisions.foldl later best).map shown = (others.foldl later other).map shown := by
    induction both with
    | nil => exact fun before => before
    | cons same _ ih => exact fun before => ih (later_shown before same)
  exact every rfl

/-- If nothing of the frontier is removed, it is rewritten in its order. -/
theorem Valid.rewrite_frontier_items (valid : register.Valid)
    (done : register.rewrite removable = .ok rewritten)
    (front : register.graph.frontier ⊆ Kept removable) :
    List.Forall₂ (register.Rewritten removable) register.frontier.items
      (⟨rewritten⟩ : FrontierCausalRegister Value).frontier.items := by
  have tops : ∀ {part : FrontierCausalRegister Value} {id : String}, id ∈ part.revisions.keys →
      (id ∉ part.referenced ↔ id ∈ part.frontier.keys) := by
    intro part id known
    rw [mem_frontier, mem_referenced, and_iff_right known]
  have kept : (register.revisions.filter fun id => id ∉ removable).items.filter
      (fun entry => entry.1 ∉ register.referenced) = register.frontier.items := by
    rw [frontier, Dict.filter, Dict.filter, List.filter_filter]
    apply List.filter_congr
    intro entry member
    rw [← Bool.decide_and, decide_eq_decide]
    refine and_iff_left_of_imp fun free => front ((Set.ext_iff.mp graph_frontier entry.1).mpr ?_)
    exact (tops (List.mem_map_of_mem member)).mp free
  have again : rewritten.items.filter (fun entry => entry.1 ∉ register.referenced) =
      (⟨rewritten⟩ : FrontierCausalRegister Value).frontier.items := by
    apply List.filter_congr
    intro entry member
    have here : entry.1 ∈ rewritten.keys := List.mem_map_of_mem member
    have there := (((valid.rewrite_bypassed done).known entry.1).mp (graph_known.mpr here)).1
    rw [decide_eq_decide, tops (graph_known.mp there), tops here]
    exact (valid.rewrite_frontier done front).symm
  rw [← kept, ← again]
  refine List.rel_filter ?_ (rewrite_ok done)
  intro before after rewrites
  change decide (before.1 ∉ register.referenced) = true ↔
    decide (after.1 ∉ register.referenced) = true
  rw [rewrites.stored]

theorem Valid.rewrite_materialized (valid : register.Valid)
    (done : register.rewrite removable = .ok rewritten)
    (front : register.graph.frontier ⊆ Kept removable) :
    (⟨rewritten⟩ : FrontierCausalRegister Value).materializedValue =
      register.materializedValue := by
  have both := valid.rewrite_frontier_items done front
  have values : List.Forall₂ (fun one two => shown one = shown two)
      (⟨rewritten⟩ : FrontierCausalRegister Value).frontier.values register.frontier.values := by
    rw [Dict.values, Dict.values, List.forall₂_map_left_iff, List.forall₂_map_right_iff]
    exact both.flip.imp fun after before rewrites => Prod.ext rewrites.named rewrites.valued
  have picked := congrArg (Option.map Prod.snd) (latest_shown values)
  rw [Option.map_map, Option.map_map] at picked
  exact picked

/-- Merging before or after the removal leads to the same frontier. -/
theorem Valid.rewrite_merge [DecidableEq Value]
    {other before after : FrontierCausalRegister Value} (valid : register.Valid)
    (done : register.rewrite removable = .ok rewritten) (also : other.Valid)
    (front : register.graph.frontier ⊆ Kept removable)
    (named : ∀ id ∈ other.revisions.keys, id ∉ removable)
    (first : register.merge other = .ok before) (second : merge ⟨rewritten⟩ other = .ok after) :
    revisionId ∈ after.frontier.keys ↔ revisionId ∈ before.frontier.keys := by
  have agree : register.graph.Agree other.graph :=
    CausalGraph.agree_of_items (Dict.keepAll_ok (merge_ok_iff.mp first).1).1
  have still : (graph ⟨rewritten⟩).Agree other.graph :=
    CausalGraph.agree_of_items (Dict.keepAll_ok (merge_ok_iff.mp second).1).1
  have same := (valid.rewrite_bypassed done).union_frontier valid.sound also.sound agree still
    (fun id member => named id (graph_known.mp member)) front
  rw [← graph_merge first, ← graph_merge second, graph_frontier, graph_frontier] at same
  exact Set.ext_iff.mp same revisionId

end Rewriting

end FrontierCausalRegister

end PrivateContinuum.Reference
