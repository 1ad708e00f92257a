import PrivateContinuum.Library.Ordered
import PrivateContinuum.Reference.SquashInvariant

/-! Private histories over whole runs: a squash is invisible to what stays, and what was
finalized or exposed is not rewritten. -/

namespace PrivateContinuum.Reference

open Std (ExtTreeSet)
open Relation PrivateContinuum.Library

theorem FrontierCausalRegister.Included.known {Value : Type}
    {smaller larger : FrontierCausalRegister Value} {revisionId : String}
    (included : smaller.Included larger) (member : revisionId ∈ smaller.revisions.keys) :
    revisionId ∈ larger.revisions.keys := by
  obtain ⟨held, stored⟩ := Dict.mem_keys.mp member
  exact Dict.mem_keys.mpr ⟨held, included revisionId held stored⟩

namespace ExposureAwareCausalState

variable {Value : Type} {state created : ExposureAwareCausalState Value}
  {result : SquashResult Value} {causal : FrontierCausalRegister Value}
  {privateLocalIds exposedIds revisionIds : ExtTreeSet String} {revisionId : String}
  {revision : FrontierRevision Value}

/-- What may have left the replica is known, and so is all that it names. -/
structure Coherent (state : ExposureAwareCausalState Value) : Prop where
  valid : state.causal.Valid
  known : ∀ id ∈ state.exposedIds, id ∈ state.causal.revisions.keys
  closed : ∀ parent child, Names state.causal.revisions parent child → child ∈ state.exposedIds →
    parent ∈ state.exposedIds
  owned : ∀ id ∈ state.privateLocalIds, id ∈ state.causal.revisions.keys

/-- An exposed revision none of whose parents is an ancestor of another one. -/
structure Settled (state : ExposureAwareCausalState Value) (revisionId : String)
    (revision : FrontierRevision Value) : Prop where
  exposed : revisionId ∈ state.exposedIds
  stored : state.causal.revisions.get revisionId = some revision
  reduced : ∀ parent ∈ revision.parents, ∀ other ∈ revision.parents,
    ¬ state.causal.Ancestor parent other

theorem create_ok (done : create causal privateLocalIds exposedIds = .ok created) :
    created = ⟨causal, privateLocalIds, exposedIds⟩ ∧ causal.Valid ∧
    ∀ id ∈ exposedIds, id ∈ causal.revisions.keys := by
  rw [create, bind_ok_iff] at done
  obtain ⟨_, validated, done⟩ := done
  dsimp only at done
  split at done
  · cases done
  · split at done
    · cases done
    · rename_i every
      cases done
      refine ⟨rfl, FrontierCausalRegister.validate_ok_iff.mp (mapError_ok_iff.mp validated),
        fun id member => ?_⟩
      by_contra unknown
      exact every
        (List.any_eq_true.mpr ⟨id, ExtTreeSet.mem_toList.mpr member, decide_eq_true unknown⟩)

theorem create_exists (valid : causal.Valid)
    (owned : ∀ id ∈ privateLocalIds, id ∈ causal.revisions.keys)
    (known : ∀ id ∈ exposedIds, id ∈ causal.revisions.keys) :
    create causal privateLocalIds exposedIds = .ok ⟨causal, privateLocalIds, exposedIds⟩ := by
  have inside : ∀ {set : ExtTreeSet String}, (∀ id ∈ set, id ∈ causal.revisions.keys) →
      ¬ (set.toList.any fun id => id ∉ causal.revisions.keys) = true := by
    intro set every found
    obtain ⟨id, member, unknown⟩ := List.any_eq_true.mp found
    exact of_decide_eq_true unknown (every id (ExtTreeSet.mem_toList.mp member))
  rw [create, FrontierCausalRegister.validate_ok_iff.mpr valid]
  change (if _ then _ else if _ then _ else _) = _
  rw [if_neg (inside owned), if_neg (inside known)]
  rfl

theorem mem_removable : revisionId ∈ state.removable ↔ revisionId ∈ state.privateLocalIds ∧
    revisionId ∉ state.exposedIds ∧ revisionId ∉ state.causal.frontier.keys := by
  rw [removable, set_mem_filter, decide_eq_true_eq]

/-- Nothing is removed and nothing changes, or the rest is rewritten. -/
theorem squash_ok (done : state.squashUnexposedDominated = .ok result) :
    (result.removedIds = ∅ ∧ state.removable = ∅ ∧ result.state = state) ∨
      ∃ rewritten, state.causal.rewrite state.removable = .ok rewritten ∧
        (⟨rewritten⟩ : FrontierCausalRegister Value).Valid ∧
        (result.removedIds = state.removable ∧ state.removable ≠ ∅) ∧
        result.state = ⟨⟨rewritten⟩, state.privateLocalIds.filter (· ∉ state.removable),
          state.exposedIds⟩ := by
  rw [squashUnexposedDominated] at done
  split at done
  · rename_i empty
    left
    rw [bind_ok_iff] at done
    obtain ⟨same, copied, done⟩ := done
    cases done
    exact ⟨rfl, ExtTreeSet.isEmpty_iff.mp empty, (create_ok copied).1⟩
  · rename_i filled
    right
    rw [bind_ok_iff] at done
    obtain ⟨rewritten, rewrites, done⟩ := done
    rw [bind_ok_iff] at done
    obtain ⟨_, _, done⟩ := done
    rw [bind_ok_iff] at done
    obtain ⟨built, made, done⟩ := done
    cases done
    obtain ⟨same, valid, _⟩ := create_ok made
    exact ⟨rewritten, mapError_ok_iff.mp rewrites, valid,
      ⟨rfl, fun empty => filled (ExtTreeSet.isEmpty_iff.mpr empty)⟩, same⟩

theorem squash_exposedIds (done : state.squashUnexposedDominated = .ok result) :
    result.state.exposedIds = state.exposedIds := by
  rcases squash_ok done with ⟨_, _, same⟩ | ⟨_, _, _, _, same⟩
  · rw [same]
  · rw [same]

theorem Coherent.parent_stays {parent child : String} (coherent : state.Coherent)
    (exposed : child ∈ state.exposedIds) (names : state.causal.graph.Refers parent child) :
    parent ∈ FrontierCausalRegister.Kept state.removable := by
  intro cut
  exact (mem_removable.mp cut).2.1
    (coherent.closed parent child (FrontierCausalRegister.graph_refers.mp names) exposed)

theorem Coherent.stays_known {rewritten : Dict String (FrontierRevision Value)}
    (coherent : state.Coherent) (rewrites : state.causal.rewrite state.removable = .ok rewritten)
    (known : revisionId ∈ state.causal.revisions.keys) (stays : revisionId ∉ state.removable) :
    revisionId ∈ rewritten.keys := by
  have bypassed := coherent.valid.rewrite_bypassed rewrites
  exact FrontierCausalRegister.graph_known.mp
    ((bypassed.known revisionId).mpr ⟨FrontierCausalRegister.graph_known.mpr known, stays⟩)

theorem exposed_stays (exposed : revisionId ∈ state.exposedIds) :
    revisionId ∈ FrontierCausalRegister.Kept state.removable :=
  fun cut => (mem_removable.mp cut).2.1 exposed

theorem frontier_stays :
    state.causal.graph.frontier ⊆ FrontierCausalRegister.Kept state.removable := by
  rw [FrontierCausalRegister.graph_frontier]
  exact fun id front cut => (mem_removable.mp cut).2.2 front

theorem Coherent.squash (coherent : state.Coherent)
    (done : state.squashUnexposedDominated = .ok result) : result.state.Coherent := by
  rcases squash_ok done with ⟨_, _, same⟩ | ⟨rewritten, rewrites, valid, _, same⟩
  · rw [same]
    exact coherent
  · have bypassed := coherent.valid.rewrite_bypassed rewrites
    rw [same]
    refine ⟨valid, fun id member => coherent.stays_known rewrites (coherent.known id member)
      (exposed_stays member), fun parent child names member => ?_, fun id member => ?_⟩
    · have edge := (bypassed.refers_iff (exposed_stays member) fun _ first =>
        coherent.parent_stays member first).mp (FrontierCausalRegister.graph_refers.mpr names)
      exact coherent.closed parent child (FrontierCausalRegister.graph_refers.mp edge.1) member
    · obtain ⟨own, kept⟩ := set_mem_filter.mp member
      exact coherent.stays_known rewrites (coherent.owned id own) (of_decide_eq_true kept)

/-- A rewritten exposed revision drops the parents that are ancestors of other ones. -/
theorem Coherent.exposed_parents {rewritten : Dict String (FrontierRevision Value)}
    (coherent : state.Coherent) (rewrites : state.causal.rewrite state.removable = .ok rewritten)
    (exposed : revisionId ∈ state.exposedIds)
    (stored : state.causal.revisions.get revisionId = some revision) :
    ∃ next, rewritten.get revisionId = some next ∧ next.revisionId = revision.revisionId ∧
      next.value = revision.value ∧
      ∀ parent, parent ∈ next.parents ↔ parent ∈ revision.parents ∧
      ∀ other ∈ revision.parents, ¬ state.causal.Ancestor parent other := by
  obtain ⟨next, found, kept⟩ :=
    FrontierCausalRegister.rewrite_get rewrites stored (exposed_stays exposed)
  refine ⟨next, found, kept.named, kept.valued, fun parent => ?_⟩
  have before : ∀ other, state.causal.graph.Refers other revisionId ↔ other ∈ revision.parents := by
    intro other
    rw [FrontierCausalRegister.graph_refers, names_iff stored]
  have after : (FrontierCausalRegister.graph ⟨rewritten⟩).Refers parent revisionId ↔
      parent ∈ next.parents := by
    rw [FrontierCausalRegister.graph_refers, names_iff found]
  rw [← after, (coherent.valid.rewrite_bypassed rewrites).refers_iff (exposed_stays exposed)
    fun _ first => coherent.parent_stays exposed first]
  simp only [before, FrontierCausalRegister.graph_ancestor]

/-- A squash does not rewrite what is exposed and names no parent in vain. -/
theorem Settled.squash (settled : state.Settled revisionId revision) (coherent : state.Coherent)
    (done : state.squashUnexposedDominated = .ok result) :
    result.state.Settled revisionId revision := by
  rcases squash_ok done with ⟨_, _, same⟩ | ⟨rewritten, rewrites, _, _, same⟩
  · rw [same]
    exact settled
  · have kept := (coherent.valid.rewrite_same_iff rewrites settled.stored
      (exposed_stays settled.exposed)).mpr fun parent member =>
      ⟨coherent.parent_stays settled.exposed
        (FrontierCausalRegister.graph_refers.mpr ⟨revision, settled.stored, member⟩),
        settled.reduced parent member⟩
    rw [same]
    refine ⟨settled.exposed, kept,
      fun parent member other also path => settled.reduced parent member other also ?_⟩
    rw [← FrontierCausalRegister.graph_ancestor] at path ⊢
    exact (coherent.valid.rewrite_bypassed rewrites).ancestor_of path

/-- Where revisions stand under their own identifiers, nothing keeps the state from being
squashed. -/
theorem Coherent.squash_exists (coherent : state.Coherent) (keyed : state.causal.Keyed) :
    ∃ result, state.squashUnexposedDominated = .ok result := by
  by_cases empty : state.removable.isEmpty = true
  · refine ⟨⟨state, ∅⟩, ?_⟩
    rw [squashUnexposedDominated, if_pos empty, copy,
      create_exists coherent.valid coherent.owned coherent.known]
    rfl
  · obtain ⟨rewritten, rewrites⟩ : ∃ rewritten, state.causal.rewrite state.removable =
        .ok rewritten := coherent.valid.rewrite_exists keyed
    have valid := coherent.valid.rewrite_valid rewrites
    have owned : ∀ id ∈ state.privateLocalIds.filter (· ∉ state.removable),
        id ∈ rewritten.keys := by
      intro id member
      obtain ⟨own, kept⟩ := set_mem_filter.mp member
      exact coherent.stays_known rewrites (coherent.owned id own) (of_decide_eq_true kept)
    have known : ∀ id ∈ state.exposedIds, id ∈ rewritten.keys :=
      fun id member =>
        coherent.stays_known rewrites (coherent.known id member) (exposed_stays member)
    refine ⟨⟨⟨⟨rewritten⟩, state.privateLocalIds.filter (· ∉ state.removable), state.exposedIds⟩,
      state.removable⟩, ?_⟩
    rw [squashUnexposedDominated, if_neg empty, rewrites]
    change ((⟨rewritten⟩ : FrontierCausalRegister Value).validate.mapError .register >>= fun _ =>
      create ⟨rewritten⟩ _ _ >>= _) = _
    rw [FrontierCausalRegister.validate_ok_iff.mpr valid]
    change (create ⟨rewritten⟩ _ _ >>= _) = _
    rw [create_exists valid owned known]
    rfl

section Growth

variable {larger : ExposureAwareCausalState Value}

/-- A state that knows and exposes more keeps what is settled. -/
theorem Settled.grown (settled : state.Settled revisionId revision) (coherent : state.Coherent)
    (included : state.causal.Included larger.causal)
    (exposes : ∀ id ∈ state.exposedIds, id ∈ larger.exposedIds) :
    larger.Settled revisionId revision := by
  refine ⟨exposes _ settled.exposed, included _ _ settled.stored,
    fun parent member other also path => ?_⟩
  have known := coherent.valid.closed other revisionId ⟨revision, settled.stored, also⟩
  exact settled.reduced parent member other also
    ((included.ancestor_iff coherent.valid known).mp path)

theorem markExposed_ok (done : state.markExposed revisionIds = .ok larger) :
    larger.causal = state.causal ∧
    (∀ id ∈ larger.privateLocalIds, id ∈ state.privateLocalIds) ∧
      ∃ closure, state.causal.ancestorClosure .exposingUnknown revisionIds = .ok closure ∧
      ∀ id, id ∈ larger.exposedIds ↔ id ∈ state.exposedIds ∨ id ∈ closure := by
  rw [markExposed, bind_ok_iff] at done
  obtain ⟨closure, found, done⟩ := done
  cases done
  refine ⟨rfl, fun id member => (set_mem_filter.mp member).1, closure, found, fun id => ?_⟩
  rw [ExtTreeSet.mem_insertMany_list, List.contains_iff_mem, ExtTreeSet.mem_toList]

theorem Coherent.markExposed (coherent : state.Coherent)
    (done : state.markExposed revisionIds = .ok larger) : larger.Coherent := by
  obtain ⟨same, fewer, closure, found, members⟩ := markExposed_ok done
  refine ⟨same ▸ coherent.valid, fun id member => ?_,
    fun parent child names member => (members parent).mpr ?_,
    fun id member => same ▸ coherent.owned id (fewer id member)⟩
  · rw [same]
    rcases (members id).mp member with before | new
    · exact coherent.known id before
    · exact FrontierCausalRegister.ancestorClosure_known found new
  · rw [same] at names
    rcases (members child).mp member with before | new
    · exact Or.inl (coherent.closed parent child names before)
    · exact Or.inr (FrontierCausalRegister.ancestorClosure_closed found new (.single names))

end Growth

end ExposureAwareCausalState

/-- A merged register stores its revisions under their identifiers. -/
def LedgerCall.Keyed {Value : Type} : LedgerCall Value → Prop
  | .mergeRemote remote => remote.Keyed
  | _ => True

namespace FinalizationLedger

variable {Value : Type} {ledger next restored : FinalizationLedger Value}
  {causal added remote : FrontierCausalRegister Value} {revision : FrontierRevision Value}
  {revisionId : String} {value : Value} {parents : Option (ExtTreeSet String)}
  {revisionIds : ExtTreeSet String}

/-- Every finalized statement is the stored revision. -/
structure Coherent (ledger : FinalizationLedger Value) : Prop where
  state : ledger.state.Coherent
  finalized : ∀ id statement, ledger.finalized.get id = some statement →
    ∃ revision, ledger.state.causal.revisions.get id = some revision ∧
      statement = .fromRevision revision

/-- What no operation undoes. -/
structure Keeps (before after : FinalizationLedger Value) : Prop where
  coherent : after.Coherent
  exposed : ∀ id ∈ before.state.exposedIds, id ∈ after.state.exposedIds
  handedOff : ∀ id ∈ before.handedOffIds, id ∈ after.handedOffIds
  settled : ∀ id revision, before.state.Settled id revision → after.state.Settled id revision
  finalized : ∀ id statement, before.finalized.get id = some statement →
    after.finalized.get id = some statement

theorem Keeps.refl (coherent : ledger.Coherent) : ledger.Keeps ledger :=
  ⟨coherent, fun _ member => member, fun _ member => member, fun _ _ settled => settled,
    fun _ _ found => found⟩

theorem Keeps.trans {middle : FinalizationLedger Value} (first : ledger.Keeps middle)
    (later : middle.Keeps next) : ledger.Keeps next where
  coherent := later.coherent
  exposed := fun id member => later.exposed id (first.exposed id member)
  handedOff := fun id member => later.handedOff id (first.handedOff id member)
  settled := fun id held settled => later.settled id held (first.settled id held settled)
  finalized := fun id statement found =>
    later.finalized id statement (first.finalized id statement found)

theorem Coherent.included (coherent : ledger.Coherent)
    (included : ledger.state.causal.Included causal) {id : String}
    {statement : FinalizedStatement Value} (found : ledger.finalized.get id = some statement) :
    ∃ revision, causal.revisions.get id = some revision ∧ statement = .fromRevision revision := by
  obtain ⟨revision, stored, same⟩ := coherent.finalized id statement found
  exact ⟨revision, included id revision stored, same⟩

theorem appended_ok (done : appended causal revisionId value parents = .ok (revision, added)) :
    revisionId ∉ causal.revisions.keys ∧ revision.revisionId = revisionId ∧
    added = ⟨causal.revisions.set revisionId revision⟩ ∧ added.Valid := by
  rw [appended, bind_ok_iff] at done
  obtain ⟨_, _, done⟩ := done
  dsimp only at done
  split at done
  · cases done
  · rename_i fresh
    split at done
    · cases done
    · rw [bind_ok_iff] at done
      obtain ⟨made, created, done⟩ := done
      rw [bind_ok_iff] at done
      obtain ⟨_, validated, done⟩ := done
      cases done
      exact ⟨fresh, (create_ok_iff.mp (mapError_ok_iff.mp created)).1, rfl,
        FrontierCausalRegister.validate_ok_iff.mp (mapError_ok_iff.mp validated)⟩

theorem keeps_appendLocal (coherent : ledger.Coherent) :
    ledger.Keeps (ledger.appendLocal revisionId value parents).2 := by
  rw [appendLocal]
  split
  · exact .refl coherent
  · rename_i revision causal done
    obtain ⟨fresh, _, rfl, valid⟩ := appended_ok done
    have included : ledger.state.causal.Included
        ⟨ledger.state.causal.revisions.set revisionId revision⟩ := by
      intro other held stored
      rw [Dict.get_set, if_neg, stored]
      exact fun same => fresh (Dict.mem_keys.mpr ⟨held, same ▸ stored⟩)
    refine ⟨⟨⟨valid, fun id member => included.known (coherent.state.known id member),
      fun parent child names member => ?_,
      fun id member => ?_⟩, fun id statement found => ?_⟩, fun _ member => member,
      fun _ member => member, ?_, ?_⟩
    · have before := (included.names_iff (coherent.state.known child member)).mp names
      exact coherent.state.closed parent child before member
    · rw [ExtTreeSet.mem_insert, compare_eq_iff_eq] at member
      rcases member with rfl | before
      · exact Dict.mem_keys.mpr ⟨revision, by rw [Dict.get_set, if_pos rfl]⟩
      · exact included.known (coherent.state.owned id before)
    · exact coherent.included included found
    · exact fun id held settled => settled.grown coherent.state included fun _ member => member
    · exact fun _ _ found => found

variable [DecidableEq Value]

theorem keeps_mergeRemote (coherent : ledger.Coherent) :
    ledger.Keeps (ledger.mergeRemote remote).2 := by
  rw [mergeRemote]
  split
  · exact .refl coherent
  · rename_i causal done
    rw [bind_ok_iff] at done
    obtain ⟨_, validated, merged⟩ := done
    have also := FrontierCausalRegister.validate_ok_iff.mp validated
    obtain ⟨kept, valid⟩ := FrontierCausalRegister.merge_ok_iff.mp merged
    obtain ⟨agree, union⟩ := Dict.keepAll_ok kept
    have included : ledger.state.causal.Included causal :=
      fun id held stored => (union id held).mpr (Or.inl stored)
    have members : ∀ id, id ∈ ledger.state.exposedIds.insertMany remote.revisions.keys ↔
        id ∈ ledger.state.exposedIds ∨ id ∈ remote.revisions.keys := by
      intro id
      rw [ExtTreeSet.mem_insertMany_list, List.contains_iff_mem]
    have more : ∀ id ∈ ledger.state.exposedIds,
        id ∈ ledger.state.exposedIds.insertMany remote.revisions.keys :=
      fun id member => (members id).mpr (Or.inl member)
    refine ⟨⟨⟨valid, fun id member => ?_, fun parent child names member => (members parent).mpr ?_,
      fun id member => included.known (coherent.state.owned id (set_mem_filter.mp member).1)⟩,
      fun id statement found => ?_⟩,
      more, fun _ member => member, ?_, ?_⟩
    · rcases (members id).mp member with before | there
      · exact included.known (coherent.state.known id before)
      · obtain ⟨held, stored⟩ := Dict.mem_keys.mp there
        exact Dict.mem_keys.mpr ⟨held, (union id held).mpr (Or.inr stored)⟩
    · rcases (members child).mp member with before | there
      · exact Or.inl (coherent.state.closed parent child
          ((included.names_iff (coherent.state.known child before)).mp names) before)
      · obtain ⟨held, stored⟩ := Dict.mem_keys.mp there
        have listed := (names_iff ((union child held).mpr (Or.inr stored))).mp names
        exact Or.inr (also.closed parent child ⟨held, stored, listed⟩)
    · exact coherent.included included found
    · exact fun id held settled => settled.grown coherent.state included more
    · exact fun _ _ found => found

theorem keeps_finalize (coherent : ledger.Coherent) :
    ledger.Keeps (ledger.finalize revisionId).2 := by
  rw [finalize]
  split
  · exact .refl coherent
  · split
    · exact .refl coherent
    · rename_i revision stored
      dsimp only
      split
      · split
        · exact .refl coherent
        · exact .refl coherent
      · rename_i fresh
        refine ⟨⟨coherent.state, fun id statement found => ?_⟩, fun _ member => member,
          fun _ member => member, fun _ _ settled => settled, fun id statement found => ?_⟩
        · rw [Dict.get_set] at found
          by_cases here : revisionId = id
          · rw [if_pos here] at found
            cases found
            exact ⟨revision, here ▸ stored, rfl⟩
          · rw [if_neg here] at found
            exact coherent.finalized id statement found
        · rw [Dict.get_set, if_neg, found]
          intro same
          rw [same, found] at fresh
          cases fresh

theorem keeps_handoff (coherent : ledger.Coherent) :
    ledger.Keeps (ledger.handoff revisionIds).2 := by
  rw [handoff]
  split
  · exact .refl coherent
  · split
    · exact .refl coherent
    · split
      · exact .refl coherent
      · rename_i state marked
        obtain ⟨same, _, closure, _, members⟩ := ExposureAwareCausalState.markExposed_ok marked
        have included : ledger.state.causal.Included state.causal := by
          rw [same]
          exact fun _ _ found => found
        have more : ∀ id ∈ ledger.state.exposedIds, id ∈ state.exposedIds :=
          fun id member => (members id).mpr (Or.inl member)
        refine ⟨⟨coherent.state.markExposed marked,
          fun id statement found => coherent.included included found⟩, more, ?_,
          fun id held settled => settled.grown coherent.state included more, fun _ _ found => found⟩
        intro id member
        rw [ExtTreeSet.mem_insertMany_list]
        exact Or.inl member

theorem keepsFinalized_iff :
    ledger.keepsFinalized causal = true ↔ ∀ id statement, ledger.finalized.get id = some statement →
    ∃ revision, causal.revisions.get id = some revision ∧ statement = .fromRevision revision := by
  rw [keepsFinalized, List.all_eq_true]
  constructor
  · intro every id statement found
    have kept := every (id, statement) (Dict.get_iff.mp found)
    dsimp only at kept
    split at kept
    · cases kept
    · rename_i revision stored
      exact ⟨revision, stored, of_decide_eq_true kept⟩
  · rintro every ⟨id, statement⟩ member
    obtain ⟨revision, stored, same⟩ := every id statement (Dict.get_iff.mpr member)
    dsimp only
    rw [stored]
    exact decide_eq_true same

theorem squashPrivate_ok {result : SquashResult Value}
    (done : ledger.squashPrivate = (.ok result, next)) :
    ledger.state.squashUnexposedDominated = .ok result ∧ ((result.removedIds = ∅ ∧ next = ledger) ∨
      (result.removedIds ≠ ∅ ∧ ledger.keepsFinalized result.state.causal = true ∧
        next = { ledger with state := result.state, localIds :=
          ledger.localIds.filter (· ∉ result.removedIds) })) := by
  rw [squashPrivate] at done
  split at done
  · cases done
  · rename_i candidate squashed
    split at done
    · rename_i empty
      cases done
      exact ⟨squashed, Or.inl ⟨ExtTreeSet.isEmpty_iff.mp empty, rfl⟩⟩
    · rename_i filled
      split at done
      · rename_i kept
        cases done
        exact ⟨squashed, Or.inr ⟨fun empty => filled (ExtTreeSet.isEmpty_iff.mpr empty), kept, rfl⟩⟩
      · cases done

theorem keeps_squashPrivate (coherent : ledger.Coherent) : ledger.Keeps ledger.squashPrivate.2 := by
  rw [squashPrivate]
  split
  · exact .refl coherent
  · rename_i candidate squashed
    split
    · exact .refl coherent
    · split
      · rename_i kept
        refine ⟨⟨coherent.state.squash squashed, keepsFinalized_iff.mp kept⟩, ?_,
          fun _ member => member,
          fun id held settled => settled.squash coherent.state squashed, fun _ _ found => found⟩
        rw [ExposureAwareCausalState.squash_exposedIds squashed]
        exact fun _ member => member
      · exact .refl coherent

theorem create_ok (done : create ledger = .ok next) :
    next = ledger ∧ ∀ id statement, ledger.finalized.get id = some statement →
    ∃ revision, ledger.state.causal.revisions.get id = some revision ∧
      statement = .fromRevision revision := by
  rw [create] at done
  dsimp only at done
  split at done
  · cases done
  · split at done
    · cases done
    · split at done
      · cases done
      · rw [bind_ok_iff] at done
        obtain ⟨_, validated, done⟩ := done
        cases done
        refine ⟨rfl, fun id statement found => ?_⟩
        rw [validateFinalizedStatements, forM_ok_iff] at validated
        have passed := validated (id, statement) (Dict.get_iff.mp found)
        dsimp only at passed
        split at passed
        · cases passed
        · rename_i revision stored
          split at passed
          · cases passed
          · rename_i same
            exact ⟨revision, stored, of_not_not same⟩

theorem restore_snapshot (done : restore ledger.snapshot = .ok restored) : restored = ledger := by
  rw [restore, bind_ok_iff] at done
  obtain ⟨state, made, done⟩ := done
  obtain ⟨rfl, _⟩ := ExposureAwareCausalState.create_ok made
  exact (create_ok done).1

theorem keeps_step (coherent : ledger.Coherent) (call : LedgerCall Value) :
    ledger.Keeps (ledger.step call).2 := by
  cases call with
  | appendLocal revisionId value parents => exact keeps_appendLocal coherent
  | mergeRemote remote => exact keeps_mergeRemote coherent
  | finalize revisionId => exact keeps_finalize coherent
  | handoff revisionIds => exact keeps_handoff coherent
  | squashPrivate => exact keeps_squashPrivate coherent
  | reopen =>
    rw [step]
    split
    · exact .refl coherent
    · rename_i restored done
      rw [restore_snapshot done]
      exact .refl coherent

theorem keeps_run (coherent : ledger.Coherent) (calls : List (LedgerCall Value)) :
    ledger.Keeps (ledger.run calls) := by
  induction calls generalizing ledger with
  | nil => exact .refl coherent
  | cons call rest ih =>
    have first := keeps_step coherent call
    have later := ih first.coherent
    exact first.trans later

theorem fromCausal_ok (begun : fromCausal causal = .ok ledger) :
    ledger = ⟨⟨causal, ∅, ∅⟩, ∅, Dict.empty, ∅, 0⟩ ∧ causal.Valid := by
  rw [fromCausal, bind_ok_iff] at begun
  obtain ⟨_, _, begun⟩ := begun
  rw [bind_ok_iff] at begun
  obtain ⟨state, made, begun⟩ := begun
  obtain ⟨rfl, valid, _⟩ := ExposureAwareCausalState.create_ok made
  exact ⟨(create_ok begun).1, valid⟩

theorem fromCausal_coherent (begun : fromCausal causal = .ok ledger) : ledger.Coherent := by
  obtain ⟨rfl, valid⟩ := fromCausal_ok begun
  refine ⟨⟨valid, fun id member => ?_, fun parent child _ member => ?_, fun id member => ?_⟩,
    fun id statement found => ?_⟩
  · exact absurd member ExtTreeSet.not_mem_empty
  · exact absurd member ExtTreeSet.not_mem_empty
  · exact absurd member ExtTreeSet.not_mem_empty
  · cases found

section Keys

theorem finalize_state : (ledger.finalize revisionId).2.state = ledger.state := by
  rw [finalize]
  split
  · rfl
  · split
    · rfl
    · dsimp only
      split
      · split
        · rfl
        · rfl
      · rfl

omit [DecidableEq Value] in
theorem keyed_appendLocal (keyed : ledger.state.causal.Keyed) :
    (ledger.appendLocal revisionId value parents).2.state.causal.Keyed := by
  rw [appendLocal]
  split
  · exact keyed
  · rename_i revision causal done
    obtain ⟨_, named, rfl, _⟩ := appended_ok done
    intro id held found
    rw [Dict.get_set] at found
    by_cases here : revisionId = id
    · rw [if_pos here] at found
      cases found
      exact named.trans here
    · rw [if_neg here] at found
      exact keyed id held found

theorem keyed_mergeRemote (keyed : ledger.state.causal.Keyed) (also : remote.Keyed) :
    (ledger.mergeRemote remote).2.state.causal.Keyed := by
  rw [mergeRemote]
  split
  · exact keyed
  · rename_i causal done
    rw [bind_ok_iff] at done
    obtain ⟨_, _, merged⟩ := done
    exact keyed.merge also merged

theorem handoff_causal : (ledger.handoff revisionIds).2.state.causal = ledger.state.causal := by
  rw [handoff]
  split
  · rfl
  · split
    · rfl
    · split
      · rfl
      · rename_i state marked
        exact (ExposureAwareCausalState.markExposed_ok marked).1

theorem keyed_squashPrivate (keyed : ledger.state.causal.Keyed) :
    ledger.squashPrivate.2.state.causal.Keyed := by
  rw [squashPrivate]
  split
  · exact keyed
  · rename_i candidate squashed
    split
    · exact keyed
    · split
      · rcases ExposureAwareCausalState.squash_ok squashed with ⟨_, _, same⟩ | ⟨rewritten,
          rewrites, _, _, same⟩
        · exact same ▸ keyed
        · rw [same]
          intro id next found
          obtain ⟨revision, held, _, kept⟩ := FrontierCausalRegister.rewrite_origin rewrites found
          exact kept.named.trans (keyed id revision held)
      · exact keyed

theorem keyed_step (keyed : ledger.state.causal.Keyed) {call : LedgerCall Value}
    (also : call.Keyed) :
    (ledger.step call).2.state.causal.Keyed := by
  cases call with
  | appendLocal revisionId value parents => exact keyed_appendLocal keyed
  | mergeRemote remote => exact keyed_mergeRemote keyed also
  | finalize revisionId =>
    change (ledger.finalize revisionId).2.state.causal.Keyed
    rw [finalize_state]
    exact keyed
  | handoff revisionIds =>
    change (ledger.handoff revisionIds).2.state.causal.Keyed
    rw [handoff_causal]
    exact keyed
  | squashPrivate => exact keyed_squashPrivate keyed
  | reopen =>
    rw [step]
    split
    · exact keyed
    · rename_i restored done
      rw [restore_snapshot done]
      exact keyed

theorem keyed_run (keyed : ledger.state.causal.Keyed) {calls : List (LedgerCall Value)}
    (also : ∀ call ∈ calls, call.Keyed) :
    (ledger.run calls).state.causal.Keyed := by
  induction calls generalizing ledger with
  | nil => exact keyed
  | cons call rest ih =>
    exact ih (keyed_step keyed (also call List.mem_cons_self)) fun other member =>
      also other (List.mem_cons_of_mem call member)

end Keys

/-- What a squash removes, and what it leaves as it was. -/
structure Squashed (before : FinalizationLedger Value) (removedIds : ExtTreeSet String)
    (after : FinalizationLedger Value) : Prop where
  removed : ∀ id, id ∈ removedIds ↔ id ∈ before.state.privateLocalIds ∧
    id ∉ before.state.exposedIds ∧ id ∉ before.state.causal.frontier.keys
  kept : ∀ id, id ∈ after.state.causal.revisions.keys ↔
    id ∈ before.state.causal.revisions.keys ∧ id ∉ removedIds
  contents : ∀ id old new, before.state.causal.revisions.get id = some old →
    after.state.causal.revisions.get id = some new →
    new.revisionId = old.revisionId ∧ new.value = old.value
  ancestors : ∀ above below, above ∉ removedIds → below ∉ removedIds →
    after.state.causal.isAncestor above below = before.state.causal.isAncestor above below
  frontier : ∀ id, id ∈ after.state.causal.frontier.keys ↔ id ∈ before.state.causal.frontier.keys
  materialized : after.state.causal.materializedValue = before.state.causal.materializedValue
  exposed : ∀ id old, id ∈ before.state.exposedIds →
    before.state.causal.revisions.get id = some old →
    ∃ new, after.state.causal.revisions.get id = some new ∧ ∀ parent, parent ∈ new.parents ↔
      parent ∈ old.parents ∧ (removedIds ≠ ∅ →
        ∀ other ∈ old.parents, before.state.causal.isAncestor parent other ≠ .ok true)
  finalized : ∀ id statement, before.finalized.get id = some statement →
    ∃ revision, after.state.causal.revisions.get id = some revision ∧
      statement = .fromRevision revision
  merges : ∀ remote left right, (∀ id ∈ remote.revisions.keys, id ∉ removedIds) →
    remote.validate = .ok () →
    before.state.causal.merge remote = .ok left → after.state.causal.merge remote = .ok right →
    ∀ id, id ∈ right.frontier.keys ↔ id ∈ left.frontier.keys

theorem Coherent.squashed {result : SquashResult Value} (coherent : ledger.Coherent)
    (done : ledger.squashPrivate = (.ok result, next)) :
    ledger.Squashed result.removedIds next := by
  have keeps := keeps_squashPrivate coherent
  rw [done] at keeps
  have finalized : ∀ id statement, ledger.finalized.get id = some statement →
      ∃ revision, next.state.causal.revisions.get id = some revision ∧
        statement = .fromRevision revision :=
    fun id statement found =>
      keeps.coherent.finalized id statement (keeps.finalized id statement found)
  have valid := coherent.state.valid
  obtain ⟨squashed, changes⟩ := squashPrivate_ok done
  rcases ExposureAwareCausalState.squash_ok squashed with ⟨nothing, empty, same⟩ | ⟨rewritten,
    rewrites, also, ⟨cut, filled⟩, same⟩
  · -- nothing is private, hidden and followed: the ledger stays as it is
    obtain ⟨_, rfl⟩ | ⟨filled, _⟩ := changes
    · rw [nothing]
      refine ⟨fun id => ?_, fun id => ?_, ?_, fun _ _ _ _ => rfl,
        fun _ => Iff.rfl, rfl, ?_, finalized, ?_⟩
      · rw [← ExposureAwareCausalState.mem_removable, empty]
      · exact (and_iff_left ExtTreeSet.not_mem_empty).symm
      · intro id old new found held
        cases found.symm.trans held
        exact ⟨rfl, rfl⟩
      · intro id old _ found
        exact ⟨old, found, fun parent => (and_iff_left fun filled => absurd rfl filled).symm⟩
      · intro remote left right _ _ first second id
        cases first.symm.trans second
        exact Iff.rfl
    · exact absurd nothing filled
  · have causal : next.state.causal = ⟨rewritten⟩ := by
      obtain ⟨nothing, _⟩ | ⟨_, _, rfl⟩ := changes
      · exact absurd (cut.symm.trans nothing) filled
      · exact congrArg ExposureAwareCausalState.causal same
    have bypassed := valid.rewrite_bypassed rewrites
    rw [cut]
    refine ⟨fun id => ExposureAwareCausalState.mem_removable, fun id => ?_, ?_, ?_,
      fun id => ?_, ?_, ?_, finalized, ?_⟩
    · rw [causal]
      exact FrontierCausalRegister.graph_known.symm.trans
        ((bypassed.known id).trans (and_congr_left fun _ => FrontierCausalRegister.graph_known))
    · intro id old new found held
      rw [causal] at held
      obtain ⟨revision, stored, _, kept⟩ := FrontierCausalRegister.rewrite_origin rewrites held
      cases found.symm.trans stored
      exact ⟨kept.named, kept.valued⟩
    · intro above below high low
      rw [causal]
      exact valid.rewrite_isAncestor rewrites also high low
    · rw [causal]
      exact valid.rewrite_frontier rewrites ExposureAwareCausalState.frontier_stays
    · rw [causal]
      exact valid.rewrite_materialized rewrites ExposureAwareCausalState.frontier_stays
    · intro id old exposed found
      obtain ⟨new, held, _, _, listed⟩ := coherent.state.exposed_parents rewrites exposed found
      refine ⟨new, causal ▸ held, fun parent => ?_⟩
      rw [listed, forall_prop_of_true filled]
      simp only [ne_eq, valid.isAncestor_true_iff]
    · intro remote left right named validated first second id
      rw [causal] at second
      exact valid.rewrite_merge rewrites (FrontierCausalRegister.validate_ok_iff.mp validated)
        ExposureAwareCausalState.frontier_stays named first second

/-- No finalized statement is cut, loses a parent or names one in vain. -/
def Undisturbed (ledger : FinalizationLedger Value) : Prop :=
  ∀ id statement, ledger.finalized.get id = some statement → id ∉ ledger.state.removable ∧
    ∀ parent ∈ statement.parents, parent ∉ ledger.state.removable ∧
      ∀ other ∈ statement.parents, ledger.state.causal.isAncestor parent other ≠ .ok true

theorem Coherent.keepsFinalized_rewritten {rewritten : Dict String (FrontierRevision Value)}
    (coherent : ledger.Coherent)
    (rewrites : ledger.state.causal.rewrite ledger.state.removable = .ok rewritten) :
    ledger.keepsFinalized ⟨rewritten⟩ = true ↔ ledger.Undisturbed := by
  have valid := coherent.state.valid
  rw [keepsFinalized_iff]
  refine forall_congr' fun id => forall_congr' fun statement => imp_congr_right fun found => ?_
  obtain ⟨old, stored, same⟩ := coherent.finalized id statement found
  simp only [ne_eq, valid.isAncestor_true_iff]
  constructor
  · rintro ⟨next, held, again⟩
    obtain ⟨_, _, stays, _⟩ := FrontierCausalRegister.rewrite_origin rewrites held
    have fields := same.symm.trans again
    have kept : next = old := by
      refine FrontierRevision.eq_of_shown (congrArg FinalizedStatement.revisionId fields).symm
        (congrArg FinalizedStatement.value fields).symm fun parent => ?_
      rw [show next.parents = old.parents from (congrArg FinalizedStatement.parents fields).symm]
    rw [same]
    exact ⟨stays, (valid.rewrite_same_iff rewrites stored stays).mp (kept ▸ held)⟩
  · rintro ⟨stays, free⟩
    rw [same] at free
    exact ⟨old, (valid.rewrite_same_iff rewrites stored stays).mpr free, same⟩

/-- A squash is refused exactly where it would disturb a finalized statement. -/
theorem Coherent.squashPrivate_succeeds_iff (coherent : ledger.Coherent)
    (keyed : ledger.state.causal.Keyed) :
    (∃ result next, ledger.squashPrivate = (.ok result, next)) ↔ ledger.state.removable = ∅ ∨
    ledger.Undisturbed := by
  constructor
  · rintro ⟨result, next, done⟩
    obtain ⟨squashed, changes⟩ := squashPrivate_ok done
    rcases ExposureAwareCausalState.squash_ok squashed with ⟨_, empty, _⟩ | ⟨rewritten, rewrites, _,
      ⟨cut, filled⟩, same⟩
    · exact Or.inl empty
    · obtain ⟨nothing, _⟩ | ⟨_, kept, _⟩ := changes
      · exact absurd (cut.symm.trans nothing) filled
      · rw [same] at kept
        exact Or.inr ((coherent.keepsFinalized_rewritten rewrites).mp kept)
  · intro free
    obtain ⟨result, squashed⟩ := coherent.state.squash_exists keyed
    rw [squashPrivate, squashed]
    dsimp only
    split
    · exact ⟨_, _, rfl⟩
    · rename_i some
      rcases ExposureAwareCausalState.squash_ok squashed with ⟨nothing, _, _⟩ | ⟨rewritten,
        rewrites, _, ⟨_, filled⟩, same⟩
      · exact absurd (ExtTreeSet.isEmpty_iff.mpr nothing) some
      · have kept : ledger.keepsFinalized result.state.causal = true := by
          rw [same]
          exact (coherent.keepsFinalized_rewritten rewrites).mpr (free.resolve_left filled)
        rw [if_pos kept]
        exact ⟨_, _, rfl⟩

end FinalizationLedger

/-- A squash is invisible: what it removes was never exposed, and nothing that stays is
told apart from before. -/
theorem private_squash_invisible {Value : Type} [DecidableEq Value]
    {causal : FrontierCausalRegister Value} {ledger next : FinalizationLedger Value}
    {result : SquashResult Value} (begun : FinalizationLedger.fromCausal causal = .ok ledger)
    (calls : List (LedgerCall Value))
    (done : (ledger.run calls).squashPrivate = (.ok result, next)) :
    (ledger.run calls).Squashed result.removedIds next := by
  have coherent :=
    (FinalizationLedger.keeps_run (FinalizationLedger.fromCausal_coherent begun) calls).coherent
  exact coherent.squashed done

/-- A revision was finalized and handed off, another replica built on it, and of the two
revisions that followed here one is removed: a later merge has the frontier of before. -/
theorem private_squash_invisible_merged :
    let first : FrontierRevision Nat :=
      ⟨"1a", 7, ∅, by decide +kernel, by decide +kernel, by decide +kernel⟩
    let second : FrontierRevision Nat :=
      ⟨"2a", 5, ExtTreeSet.ofList ["1a"], by decide +kernel, by decide +kernel,
        by decide +kernel⟩
    let third : FrontierRevision Nat :=
      ⟨"2b", 6, ExtTreeSet.ofList ["2a"], by decide +kernel, by decide +kernel,
        by decide +kernel⟩
    let remote : FrontierCausalRegister Nat := ⟨(Dict.empty.set "1a" first).set "2a" second⟩
    let later : FrontierCausalRegister Nat := ⟨remote.revisions.set "2b" third⟩
    let calls : List (LedgerCall Nat) :=
      [.appendLocal "1a" 7 none, .finalize "1a", .handoff (ExtTreeSet.ofList ["1a"]),
        .appendLocal "1b" 8 none, .appendLocal "1c" 9 none, .mergeRemote remote]
    ∃ ledger result next left right, FinalizationLedger.fromCausal ⟨Dict.empty⟩ = .ok ledger ∧
      (ledger.run calls).squashPrivate = (.ok result, next) ∧ result.removedIds.toList = ["1b"] ∧
      (ledger.run calls).state.exposedIds.toList = ["1a", "2a"] ∧
      (ledger.run calls).finalized.keys = ["1a"] ∧
      (ledger.run calls).Squashed result.removedIds next ∧
      (ledger.run calls).state.causal.merge later = .ok left ∧
      next.state.causal.merge later = .ok right ∧
      ∀ id, id ∈ right.frontier.keys ↔ id ∈ left.frontier.keys := by
  intro first second third remote later calls
  have evaluated :
      ((FinalizationLedger.fromCausal (⟨Dict.empty⟩ : FrontierCausalRegister Nat)).toOption.map
        fun ledger =>
          ((ledger.run calls).state.exposedIds.toList, (ledger.run calls).finalized.keys,
            (ledger.run calls).squashPrivate.1.toOption.map fun result => result.removedIds.toList,
            ((ledger.run calls).state.causal.merge later).toOption.isSome,
            ((ledger.run calls).squashPrivate.2.state.causal.merge later).toOption.isSome)) =
      some (["1a", "2a"], ["1a"], some ["1b"], true, true) := by
    decide +kernel
  obtain ⟨ledger, begun, found⟩ := Option.map_eq_some_iff.mp evaluated
  simp only [Prod.mk.injEq] at found
  obtain ⟨exposed, finalized, squashes, before, after⟩ := found
  obtain ⟨result, squashed, removed⟩ := Option.map_eq_some_iff.mp squashes
  obtain ⟨left, merged⟩ := Option.isSome_iff_exists.mp before
  obtain ⟨right, also⟩ := Option.isSome_iff_exists.mp after
  have start := toOption_eq_some_iff.mp begun
  have done : (ledger.run calls).squashPrivate =
      (.ok result, (ledger.run calls).squashPrivate.2) := by
    rw [← toOption_eq_some_iff.mp squashed]
  have invisible := private_squash_invisible start calls done
  have unnamed : ∀ id ∈ later.revisions.keys, id ∉ result.removedIds := by
    intro id member
    rw [← ExtTreeSet.mem_toList, removed]
    revert id
    decide +kernel
  have validated : later.validate = .ok () := by decide +kernel
  have merges := toOption_eq_some_iff.mp merged
  have still := toOption_eq_some_iff.mp also
  exact ⟨ledger, result, _, left, right, start, done, removed, exposed, finalized,
    invisible, merges, still, invisible.merges later left right unnamed validated merges still⟩

/-- Over keyed registers, a squash succeeds exactly where nothing can be removed or no
finalized statement is disturbed. -/
theorem private_squash_succeeds_iff {Value : Type} [DecidableEq Value]
    {causal : FrontierCausalRegister Value} {ledger : FinalizationLedger Value}
    (begun : FinalizationLedger.fromCausal causal = .ok ledger) (keyed : causal.Keyed)
    (calls : List (LedgerCall Value)) (also : ∀ call ∈ calls, call.Keyed) :
    (∃ result next, (ledger.run calls).squashPrivate = (.ok result, next)) ↔
      (ledger.run calls).state.removable = ∅ ∨ (ledger.run calls).Undisturbed := by
  have coherent :=
    (FinalizationLedger.keeps_run (FinalizationLedger.fromCausal_coherent begun) calls).coherent
  have start : ledger.state.causal.Keyed := by
    rw [(FinalizationLedger.fromCausal_ok begun).1]
    exact keyed
  exact coherent.squashPrivate_succeeds_iff (FinalizationLedger.keyed_run start also)

/-- The first revision of a chain was finalized before the next ones: the squash is refused. -/
theorem private_squash_succeeds_iff_finalized :
    let calls : List (LedgerCall Nat) :=
      [.appendLocal "11" 7 none, .finalize "11", .appendLocal "12" 8 none, .appendLocal "13" 9 none]
    ∃ ledger, FinalizationLedger.fromCausal ⟨Dict.empty⟩ = .ok ledger ∧
      (ledger.run calls).squashPrivate.1 = .error .squashFinalized ∧
      ¬ ((ledger.run calls).state.removable = ∅ ∨ (ledger.run calls).Undisturbed) := by
  intro calls
  have refuses :
      ((FinalizationLedger.fromCausal (⟨Dict.empty⟩ : FrontierCausalRegister Nat)).toOption.map
        fun ledger =>
      (ledger.run calls).squashPrivate.1.map fun result => result.removedIds.toList) =
        some (.error .squashFinalized) := by
    decide +kernel
  obtain ⟨ledger, begun, refused⟩ := Option.map_eq_some_iff.mp refuses
  have start := toOption_eq_some_iff.mp begun
  have stopped : (ledger.run calls).squashPrivate.1 = .error .squashFinalized := by
    cases outcome : (ledger.run calls).squashPrivate.1 with
    | ok result =>
      rw [outcome] at refused
      cases refused
    | error failure =>
      rw [outcome] at refused
      cases refused
      rfl
  have keyed : ∀ call ∈ calls, call.Keyed := by
    intro call member
    simp only [calls, List.mem_cons, List.not_mem_nil, or_false] at member
    rcases member with rfl | rfl | rfl | rfl
    · trivial
    · trivial
    · trivial
    · trivial
  refine ⟨ledger, start, stopped, fun free => ?_⟩
  obtain ⟨result, next, done⟩ :=
    (private_squash_succeeds_iff start FrontierCausalRegister.sound_empty.2 calls keyed).mpr free
  rw [done] at stopped
  cases stopped

/-- What is exposed or handed off remains so. If it names no parent in vain, it is in every
later state as it was, and so is what is finalized. -/
theorem exposed_history_frozen {Value : Type} [DecidableEq Value]
    {causal : FrontierCausalRegister Value} {ledger : FinalizationLedger Value}
    (begun : FinalizationLedger.fromCausal causal = .ok ledger)
    (calls later : List (LedgerCall Value)) :
    (∀ id ∈ (ledger.run calls).state.exposedIds,
        id ∈ ((ledger.run calls).run later).state.exposedIds ∧
        id ∈ ((ledger.run calls).run later).state.causal.revisions.keys) ∧
      (∀ id ∈ (ledger.run calls).handedOffIds, id ∈ ((ledger.run calls).run later).handedOffIds) ∧
      (∀ id revision, (ledger.run calls).state.Settled id revision →
        ((ledger.run calls).run later).state.Settled id revision) ∧
      ∀ id statement, (ledger.run calls).finalized.get id = some statement →
        ((ledger.run calls).run later).finalized.get id = some statement ∧
          ∃ revision, ((ledger.run calls).run later).state.causal.revisions.get id = some revision ∧
          statement = .fromRevision revision := by
  have before :=
    (FinalizationLedger.keeps_run (FinalizationLedger.fromCausal_coherent begun) calls).coherent
  have keeps := FinalizationLedger.keeps_run before later
  refine ⟨fun id member => ?_, keeps.handedOff, keeps.settled, fun id statement found => ?_⟩
  · have still := keeps.exposed id member
    exact ⟨still, keeps.coherent.state.known id still⟩
  · have still := keeps.finalized id statement found
    exact ⟨still, keeps.coherent.finalized id statement still⟩

/-- A revision that was handed off is not squashed away under later ones. -/
theorem exposed_history_frozen_handoff :
    let calls : List (LedgerCall Nat) :=
      [.appendLocal "11" 7 none, .finalize "11", .handoff (ExtTreeSet.ofList ["11"])]
    let later : List (LedgerCall Nat) :=
      [.appendLocal "12" 8 none, .appendLocal "13" 9 none, .squashPrivate, .reopen]
    ∃ ledger revision, FinalizationLedger.fromCausal ⟨Dict.empty⟩ = .ok ledger ∧
      (ledger.run calls).state.Settled "11" revision ∧
      ((ledger.run calls).run later).state.Settled "11" revision := by
  intro calls later
  have exposes :
      ((FinalizationLedger.fromCausal (⟨Dict.empty⟩ : FrontierCausalRegister Nat)).toOption.map
        fun ledger =>
      ((ledger.run calls).state.exposedIds.toList,
        ((ledger.run calls).state.causal.revisions.get "11").map fun revision =>
        revision.parents.toList)) = some (["11"], some []) := by
    decide +kernel
  obtain ⟨ledger, begun, found⟩ := Option.map_eq_some_iff.mp exposes
  obtain ⟨exposed, stored⟩ := Prod.mk.inj found
  obtain ⟨revision, held, none⟩ := Option.map_eq_some_iff.mp stored
  have start := toOption_eq_some_iff.mp begun
  have settled : (ledger.run calls).state.Settled "11" revision := by
    refine ⟨?_, held, fun parent member => ?_⟩
    · rw [← ExtTreeSet.mem_toList, exposed]
      exact List.mem_singleton_self _
    · rw [← ExtTreeSet.mem_toList, none] at member
      cases member
  exact ⟨ledger, revision, start, settled,
    (exposed_history_frozen start calls later).2.2.1 "11" revision settled⟩

end PrivateContinuum.Reference
