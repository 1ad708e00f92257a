import PrivateContinuum.Sync.ProjectionMerge

namespace PrivateContinuum.Sync

open Std (ExtTreeMap ExtTreeSet TransOrd LawfulEqOrd)
open PrivateContinuum.Library PrivateContinuum.Core

/-- Domain states, and the keys that were edited locally since their publication. -/
structure DirtyDomainState (Key State : Type) [Ord Key] where
  domains : ExtTreeMap Key State
  dirty : ExtTreeSet Key

namespace DirtyDomainState

variable {Key State : Type} [Ord Key] [TransOrd Key]

def new : DirtyDomainState Key State := ⟨∅, ∅⟩

def get (state : DirtyDomainState Key State) (key : Key) : Option State := state.domains[key]?

def setLocal (state : DirtyDomainState Key State) (key : Key) (edited : State) :
    DirtyDomainState Key State :=
  ⟨state.domains.insert key edited, state.dirty.insert key⟩

/-- Loop body of `import_projection`. -/
def importDomain [MergeState State] (domains : ExtTreeMap Key State) (entry : Key × State) :
    Except CoreError (ExtTreeMap Key State) :=
  match domains[entry.1]? with
  | some current => do
    let joined ← MergeState.mergeState current entry.2
    pure (domains.insert entry.1 joined)
  | none => pure (domains.insert entry.1 entry.2)

/-- The loop writes to the live domains and stops at the first conflict. -/
def importProjection [MergeState State] (state : DirtyDomainState Key State)
    (projection : SyncProjection Key State) : Except CoreError Unit × DirtyDomainState Key State :=
  let (outcome, domains) := foldInPlace importDomain projection.domains.toList state.domains
  (outcome, { state with domains })

/-- The states of exactly the dirty domains, if there is one. -/
def exportDirty (state : DirtyDomainState Key State) : Option (SyncProjection Key State) :=
  if state.dirty.isEmpty then none
  else
    some ⟨ExtTreeMap.ofList (state.dirty.toList.filterMap fun key =>
      state.domains[key]?.map fun current => (key, current))⟩

/-- Loop body of `acknowledge`. -/
def acknowledgeDomain [DecidableEq State] (domains : ExtTreeMap Key State) (dirty : ExtTreeSet Key)
    (entry : Key × State) : ExtTreeSet Key :=
  if domains[entry.1]? = some entry.2 then dirty.erase entry.1 else dirty

def acknowledge [DecidableEq State] (state : DirtyDomainState Key State)
    (projection : SyncProjection Key State) : DirtyDomainState Key State :=
  { state with dirty :=
    projection.domains.toList.foldl (acknowledgeDomain state.domains) state.dirty }

section Markers

variable [LawfulEqOrd Key] {state : DirtyDomainState Key State}
  {projection : SyncProjection Key State} {key other : Key} {edited : State}

omit [LawfulEqOrd Key] in
@[simp] theorem get_setLocal_self : (state.setLocal key edited).get key = some edited :=
  ExtTreeMap.getElem?_insert_self

theorem get_setLocal_other (different : other ≠ key) :
    (state.setLocal key edited).get other = state.get other :=
  getElem?_insert_other different

@[simp] theorem mem_dirty_setLocal :
    other ∈ (state.setLocal key edited).dirty ↔ other = key ∨ other ∈ state.dirty := by
  rw [setLocal, ExtTreeSet.mem_insert, Std.LawfulEqCmp.compare_eq_iff_eq, eq_comm]

theorem get_exportDirty (done : state.exportDirty = some projection) {found : State} :
    projection.get key = some found ↔ key ∈ state.dirty ∧ state.get key = some found := by
  unfold exportDirty at done
  split at done
  · cases done
  · cases done
    have distinct : (state.dirty.toList.filterMap fun key =>
        state.domains[key]?.map fun current => (key, current)).Pairwise fun left right =>
        left.1 ≠ right.1 := by
      rw [List.pairwise_filterMap]
      apply (set_toList_nodup state.dirty).imp
      intro one two different first held second kept same
      simp only [Option.map_eq_some_iff] at held kept
      obtain ⟨_, _, named⟩ := held
      obtain ⟨_, _, named'⟩ := kept
      rw [← named, ← named'] at same
      exact different same
    rw [SyncProjection.get, getElem?_ofList distinct, List.mem_filterMap]
    simp only [Option.map_eq_some_iff, Prod.mk.injEq, ExtTreeSet.mem_toList]
    constructor
    · rintro ⟨_, marked, _, stored, same, alike⟩
      exact ⟨same ▸ marked, same ▸ alike ▸ stored⟩
    · rintro ⟨marked, stored⟩
      exact ⟨key, marked, found, stored, rfl, rfl⟩

theorem exportDirty_none : state.exportDirty = none ↔ ∀ key, key ∉ state.dirty := by
  unfold exportDirty
  by_cases empty : state.dirty.isEmpty = true
  · rw [if_pos empty]
    exact ⟨fun _ => set_empty_not_mem empty, fun _ => rfl⟩
  · rw [if_neg empty]
    obtain ⟨key, marked⟩ := set_nonempty_iff.mp (Bool.not_eq_true _ ▸ empty)
    constructor
    · intro impossible
      cases impossible
    · intro none
      exact absurd marked (none key)

variable [DecidableEq State]

theorem mem_acknowledgeDomain {domains : ExtTreeMap Key State} {dirty : ExtTreeSet Key}
    {entry : Key × State} :
    key ∈ acknowledgeDomain domains dirty entry ↔
      key ∈ dirty ∧ ¬ (entry.1 = key ∧ domains[entry.1]? = some entry.2) := by
  unfold acknowledgeDomain
  by_cases same : domains[entry.1]? = some entry.2
  · rw [if_pos same, ExtTreeSet.mem_erase]
    simp [same, and_comm]
  · rw [if_neg same]
    simp [same]

/-- An acknowledgement clears the domains that are still as they were exported. -/
theorem mem_dirty_acknowledge : key ∈ (state.acknowledge projection).dirty ↔
    key ∈ state.dirty ∧ ∀ exported, projection.get key = some exported →
      state.get key ≠ some exported := by
  have folded : ∀ (entries : List (Key × State)) dirty,
      key ∈ entries.foldl (acknowledgeDomain state.domains) dirty ↔
        key ∈ dirty ∧
          ∀ entry ∈ entries, ¬ (entry.1 = key ∧ state.domains[entry.1]? = some entry.2) := by
    intro entries
    induction entries with
    | nil => simp
    | cons entry rest ih =>
      intro dirty
      rw [List.foldl_cons, ih, mem_acknowledgeDomain, List.forall_mem_cons, and_assoc]
  rw [acknowledge, folded]
  refine and_congr_right fun _ => ?_
  constructor
  · intro none exported given same
    exact none (key, exported) (ExtTreeMap.mem_toList_iff_getElem?_eq_some.mpr given) ⟨rfl, same⟩
  · rintro none ⟨other, exported⟩ member ⟨same, stored⟩
    have given := ExtTreeMap.mem_toList_iff_getElem?_eq_some.mp member
    cases same
    exact none exported given stored

end Markers

section Importing

variable [MergeState State] {state after : DirtyDomainState Key State}
  {projection : SyncProjection Key State}

/-- A completed import is the merge of the projections, next to the same markers. -/
theorem importProjection_ok_iff : state.importProjection projection = (.ok (), after) ↔
    (SyncProjection.mk state.domains).merge projection = .ok ⟨after.domains⟩ ∧
      after.dirty = state.dirty := by
  rw [SyncProjection.merge_ok_iff]
  change ((foldInPlace importDomain projection.domains.toList state.domains).1, _) = _ ↔ _
  rw [Prod.mk.injEq]
  constructor
  · rintro ⟨outcome, same⟩
    have folded : foldInPlace importDomain projection.domains.toList state.domains =
        (.ok (), after.domains) := by
      rw [← outcome, ← same]
    exact ⟨foldInPlace_ok_iff.mp folded, by rw [← same]⟩
  · rintro ⟨merged, same⟩
    have folded : foldInPlace importDomain projection.domains.toList state.domains =
        (.ok (), after.domains) :=
      foldInPlace_ok_iff.mpr merged
    rw [folded]
    refine ⟨rfl, ?_⟩
    cases after
    cases same
    rfl

theorem importProjection_dirty (outcome : Except CoreError Unit)
    (done : state.importProjection projection = (outcome, after)) : after.dirty = state.dirty := by
  have ended : (state.importProjection projection).2 = after := by rw [done]
  rw [← ended]
  rfl

variable [LawfulEqOrd Key]

/-- A failed import has merged the domains below the first one that conflicts. -/
theorem importProjection_error {failure : CoreError}
    (done : state.importProjection projection = (.error failure, after)) :
    ∃ key current incoming, state.get key = some current ∧ projection.get key = some incoming ∧
      MergeState.mergeState current incoming = .error failure ∧
      (∀ other, compare other key = .lt →
        MergedAt MergeState.mergeState (state.get other) (projection.get other) (after.get other)) ∧
      ∀ other, compare other key ≠ .lt → after.get other = state.get other := by
  have outcome := congrArg Prod.fst done
  have ended := congrArg (fun result => result.2.domains) done
  have folded : foldInPlace importDomain projection.domains.toList state.domains =
      (.error failure, after.domains) := Prod.ext outcome ended
  obtain ⟨before, entry, later, split, ran, failed⟩ := foldInPlace_error folded
  obtain ⟨incoming, ⟨current, found, refused⟩, below, beyond⟩ := mergeMaps_stopped split ran failed
  exact ⟨entry.1, current, entry.2, found, incoming, refused, below, beyond⟩

end Importing

end DirtyDomainState

abbrev ScalarDirtyDomainState := DirtyDomainState DomainKey (ScalarRegister Bytes)

namespace ScalarDirtyDomainState

open DirtyDomainState

/-- The domains as a projection. -/
abbrev whole (state : ScalarDirtyDomainState) : ScalarSyncProjection := ⟨state.domains⟩

/-- An import either is the merge or changes nothing. -/
structure AllOrNothing (state : ScalarDirtyDomainState)
    (projection : ScalarSyncProjection) : Prop where
  merged : ∀ after, state.importProjection projection = (.ok (), after) →
    (whole state).merge projection = .ok (whole after) ∧ after.dirty = state.dirty
  unchanged : ∀ failure after, state.importProjection projection = (.error failure, after) →
    after = state
  exactly : (∃ after, state.importProjection projection = (.ok (), after)) ↔
    ∃ merged, (whole state).merge projection = .ok merged

/-- The two sides hold different statements under one identity of the domain. -/
def Conflicts (state : ScalarDirtyDomainState) (projection : ScalarSyncProjection)
    (key : DomainKey) : Prop :=
  ∃ current incoming, state.get key = some current ∧ projection.get key = some incoming ∧
    ¬ current.Agree incoming

/-- The projection has nothing new for the domain. -/
def Covers (state : ScalarDirtyDomainState) (projection : ScalarSyncProjection)
    (key : DomainKey) : Prop :=
  ∀ incoming, projection.get key = some incoming → ∃ current, state.get key = some current ∧
    incoming ≤ current

/-- The projection has nothing new for the domains below the first one that conflicts. -/
def NothingNewBeforeConflict (state : ScalarDirtyDomainState)
    (projection : ScalarSyncProjection) : Prop :=
  ∀ key, Conflicts state projection key →
    (∀ earlier, compare earlier key = .lt → ¬ Conflicts state projection earlier) →
    ∀ earlier, compare earlier key = .lt → Covers state projection earlier

variable {state after : ScalarDirtyDomainState} {projection : ScalarSyncProjection}
  {key : DomainKey}

theorem import_exists_iff : (∃ after, state.importProjection projection = (.ok (), after)) ↔
    ∃ merged, (whole state).merge projection = .ok merged := by
  constructor
  · rintro ⟨after, done⟩
    exact ⟨whole after, (importProjection_ok_iff.mp done).1⟩
  · rintro ⟨merged, done⟩
    exact ⟨⟨merged.domains, state.dirty⟩, importProjection_ok_iff.mpr ⟨done, rfl⟩⟩

theorem ext_get {left right : ScalarDirtyDomainState} (same : ∀ key, left.get key = right.get key)
    (dirty : left.dirty = right.dirty) : left = right := by
  have domains : left.domains = right.domains := ExtTreeMap.ext_getElem? same
  cases left
  cases right
  cases domains
  cases dirty
  rfl

/-- What merging leaves in a domain is what it held exactly if there was nothing new. -/
theorem mergedAt_same_iff (stateValid : (whole state).AllValid)
    (projectionValid : projection.AllValid) :
    MergedAt MergeState.mergeState (state.get key) (projection.get key) (state.get key) ↔
      Covers state projection key := by
  rw [Covers]
  cases found : state.get key with
  | none =>
    rw [mergedAt_none_left]
    cases projection.get key <;> simp
  | some current =>
    cases given : projection.get key with
    | none => simp
    | some incoming =>
      have valid := stateValid key current found
      have incomingValid := projectionValid key incoming given
      have merges : (∃ joined, MergeState.mergeState current incoming = .ok joined ∧
          some current = some joined) ↔ current.merge incoming = .ok current := by
        simp [MergeState.mergeState]
      rw [mergedAt_both, merges, ScalarRegister.merge_eq_ok_iff valid incomingValid]
      simp only [Option.some.injEq, forall_eq', exists_eq_left', ScalarRegister.le_def]
      constructor
      · intro union id revision stated
        exact (union id revision).mpr (Or.inr stated)
      · intro included id revision
        exact ⟨Or.inl, fun either => either.elim (fun old => old) (included id revision)⟩

theorem not_conflicts_of_merged {joined : Option (ScalarRegister Bytes)}
    (stateValid : (whole state).AllValid) (projectionValid : projection.AllValid)
    (merged : MergedAt MergeState.mergeState (state.get key) (projection.get key) joined) :
    ¬ Conflicts state projection key := by
  rintro ⟨current, incoming, found, given, disagree⟩
  rw [found, given] at merged
  obtain ⟨register, done, _⟩ := merged
  exact disagree ((ScalarRegister.merge_isOk_iff (stateValid key current found)
    (projectionValid key incoming given)).mp ⟨register, done⟩)

/-- A failed import stopped at the first domain that conflicts. -/
theorem first_conflict {failure : CoreError} (stateValid : (whole state).AllValid)
    (projectionValid : projection.AllValid)
    (done : state.importProjection projection = (.error failure, after)) :
    ∃ key, Conflicts state projection key ∧
      (∀ earlier, compare earlier key = .lt → ¬ Conflicts state projection earlier) ∧
      ((∀ earlier, compare earlier key = .lt → Covers state projection earlier) ↔
        after = state) := by
  obtain ⟨key, current, incoming, found, given, refused, below, beyond⟩ :=
    importProjection_error done
  refine ⟨key, ⟨current, incoming, found, given, ?_⟩, ?_, ?_⟩
  · intro agree
    obtain ⟨joined, combined⟩ :=
      ScalarRegister.merge_isOk (stateValid key current found)
        (projectionValid key incoming given) agree
    have impossible : current.merge incoming = .error failure := refused
    rw [combined] at impossible
    cases impossible
  · intro earlier less
    exact not_conflicts_of_merged stateValid projectionValid (below earlier less)
  · constructor
    · intro covered
      apply ext_get
      · intro other
        by_cases less : compare other key = .lt
        · have kept := (mergedAt_same_iff stateValid projectionValid).mpr (covered other less)
          exact (below other less).unique kept
        · exact beyond other less
      · exact importProjection_dirty _ done
    · intro same earlier less
      have kept := below earlier less
      rw [same] at kept
      exact (mergedAt_same_iff stateValid projectionValid).mp kept

/-- An import is all-or-nothing exactly if the projection has nothing new for the
domains below the first conflict. -/
theorem import_allOrNothing_iff (stateValid : (whole state).AllValid)
    (projectionValid : projection.AllValid) :
    AllOrNothing state projection ↔ NothingNewBeforeConflict state projection := by
  cases done : state.importProjection projection with
  | mk outcome after =>
    have merged : ∀ next, state.importProjection projection = (.ok (), next) →
        (whole state).merge projection = .ok (whole next) ∧ next.dirty = state.dirty :=
      fun next imported => importProjection_ok_iff.mp imported
    cases outcome with
    | ok _ =>
      have union := (merged after done).1
      have free : ∀ key, ¬ Conflicts state projection key := fun key =>
        not_conflicts_of_merged stateValid projectionValid
          (mergeMaps_at (SyncProjection.merge_ok_iff.mp union) key)
      constructor
      · intro _ key conflict
        exact absurd conflict (free key)
      · intro _
        refine ⟨merged, ?_, import_exists_iff⟩
        intro failure next failed
        rw [done] at failed
        cases failed
    | error failure =>
      obtain ⟨key, conflict, first, covered⟩ := first_conflict stateValid projectionValid done
      constructor
      · intro whole other otherConflict otherFirst
        have same : other = key := by
          cases order : compare other key with
          | lt => exact absurd otherConflict (first other order)
          | eq => exact Std.LawfulEqCmp.eq_of_compare order
          | gt => exact absurd conflict (otherFirst key (Std.OrientedCmp.lt_of_gt order))
        rw [same]
        exact covered.mpr (whole.unchanged failure after done)
      · intro nothing
        refine ⟨merged, ?_, import_exists_iff⟩
        intro _ next failed
        rw [done] at failed
        cases failed
        exact covered.mp (nothing key conflict first)

theorem insert_allValid {domains : ExtTreeMap DomainKey (ScalarRegister Bytes)}
    {register : ScalarRegister Bytes} (valid : ScalarSyncProjection.AllValid ⟨domains⟩)
    (added : register.Valid) :
    ScalarSyncProjection.AllValid ⟨domains.insert key register⟩ := by
  intro other found stored
  by_cases same : other = key
  · subst same
    simp only [SyncProjection.get, ExtTreeMap.getElem?_insert_self, Option.some.injEq] at stored
    exact stored ▸ added
  · rw [SyncProjection.get, getElem?_insert_other same] at stored
    exact valid other found stored

/-- A register of one revision that observed nothing. -/
def rootOnly (id : RevisionId) (value : Bytes) : ScalarRegister Bytes :=
  ScalarRegister.empty.put ⟨id, value, ∅⟩

theorem rootOnly_valid (id : RevisionId) (value : Bytes) : (rootOnly id value).Valid := by
  apply ScalarRegister.Extends.valid_put _ ScalarRegister.empty_valid
  constructor
  · rw [ScalarRegister.mem_iff]
    simp
  · intro parent member
    simp at member

/-- A conflict in the second domain leaves what was merged in the first. -/
theorem import_leaves_first_domain :
    let first : DomainKey := ⟨.ofByte 1, [1]⟩
    let second : DomainKey := ⟨.ofByte 2, [1]⟩
    let state : ScalarDirtyDomainState :=
      ⟨(∅ : ExtTreeMap _ _).insert second (rootOnly (.ofByte 7) [5]), ∅⟩
    let projection : ScalarSyncProjection :=
      ⟨((∅ : ExtTreeMap _ _).insert first (rootOnly (.ofByte 8) [])).insert
        second (rootOnly (.ofByte 7) [6])⟩
    (whole state).AllValid ∧ projection.AllValid ∧ ¬ AllOrNothing state projection := by
  intro first second state projection
  refine ⟨insert_allValid ScalarSyncProjection.allValid_empty (rootOnly_valid _ _),
    insert_allValid (insert_allValid ScalarSyncProjection.allValid_empty (rootOnly_valid _ _))
      (rootOnly_valid _ _), ?_⟩
  intro whole
  have stopped : (state.importProjection projection).1 =
      .error (.duplicateRevisionConflict (.ofByte 7)) := by
    decide +kernel
  have same : (state.importProjection projection).2 = state :=
    whole.unchanged _ _ (Prod.ext stopped rfl)
  have kept : ((state.importProjection projection).2.get first).isSome = true := by decide +kernel
  have absent : (state.get first).isSome = false := by decide +kernel
  rw [same, absent] at kept
  cases kept

/-- A conflict in the first domain leaves nothing behind. -/
theorem import_allOrNothing_first_domain :
    let first : DomainKey := ⟨.ofByte 1, [1]⟩
    let second : DomainKey := ⟨.ofByte 2, [1]⟩
    AllOrNothing ⟨(∅ : ExtTreeMap _ _).insert first (rootOnly (.ofByte 7) [5]), ∅⟩
      ⟨((∅ : ExtTreeMap _ _).insert first (rootOnly (.ofByte 7) [6])).insert
        second (rootOnly (.ofByte 8) [])⟩ := by
  intro first second
  refine (import_allOrNothing_iff
    (insert_allValid ScalarSyncProjection.allValid_empty (rootOnly_valid _ _))
    (insert_allValid (insert_allValid ScalarSyncProjection.allValid_empty (rootOnly_valid _ _))
      (rootOnly_valid _ _))).mpr ?_
  rintro key ⟨current, incoming, found, _⟩ _ earlier less register given
  have here : key = first := by
    by_contra other
    rw [DirtyDomainState.get, getElem?_insert_other other] at found
    simp at found
  rw [here] at less
  by_cases later : earlier = second
  · rw [later] at less
    exact absurd less (by decide +kernel)
  · rw [SyncProjection.get, getElem?_insert_other later] at given
    by_cases same : earlier = first
    · rw [same] at less
      exact absurd less (by decide +kernel)
    · rw [getElem?_insert_other same] at given
      simp at given

end ScalarDirtyDomainState

end PrivateContinuum.Sync
