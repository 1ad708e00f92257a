import PrivateContinuum.Reference.CycleResolution
import PrivateContinuum.Reference.HierarchyInvariant

/-! Which placement of an atom is materialized, and what the loop over the atoms makes of
the placements. Neither depends on the order of the dictionaries. -/

namespace PrivateContinuum.Reference

open Std (ExtTreeSet)
open PrivateContinuum.Library

section Revisions

variable {Value : Type} {earlier later : ScalarRevision Value}

/-- The number of revisions that a revision has observed. -/
def ScalarRevision.seen (revision : ScalarRevision Value) :
    Nat := revision.context.toList.toFinset.card

theorem ScalarRevision.mem_seen {revision : ScalarRevision Value} {observed : String} :
    observed ∈ revision.context.toList.toFinset ↔ observed ∈ revision.context := by
  rw [List.mem_toFinset, ExtTreeSet.mem_toList]

theorem ScalarRevision.seen_lt (observes : earlier.revisionId ∈ later.context)
    (includes : ∀ older ∈ earlier.context, older ∈ later.context) : earlier.seen < later.seen := by
  apply Finset.card_lt_card
  rw [Finset.ssubset_iff_of_subset]
  · refine ⟨earlier.revisionId, mem_seen.mpr observes, fun own => ?_⟩
    exact earlier.otherObserved (mem_seen.mp own)
  · intro older member
    exact mem_seen.mpr (includes older (mem_seen.mp member))

end Revisions

namespace ScalarRegister

variable {Value : Type} {register other : ScalarRegister Value} {revision : ScalarRevision Value}

theorem mem_frontier {revisionId : String} : register.frontier.get revisionId = some revision ↔
    register.revisions.get revisionId = some revision ∧
      ∀ stored later, register.revisions.get stored = some later → revisionId ∉ later.context := by
  rw [frontier, Dict.get_filter, decide_eq_true_eq, dominated, List.mem_flatMap]
  refine and_congr_right fun _ => ?_
  simp only [Dict.mem_values, ExtTreeSet.mem_toList]
  constructor
  · intro free stored later found inside
    exact free ⟨later, ⟨stored, found⟩, inside⟩
  · rintro free ⟨later, ⟨stored, found⟩, inside⟩
    exact free stored later found inside

theorem Historical.of_get (historical : register.Historical)
    (same : ∀ revisionId, register.revisions.get revisionId = other.revisions.get revisionId) :
    other.Historical :=
  historical.union historical fun stored revision => by rw [← same, or_self]

/-- The identifiers of the revisions, and what they have observed, are as in a history. -/
structure Ordered (register : ScalarRegister Value) : Prop where
  keyed : ∀ revisionId revision, register.revisions.get revisionId = some revision →
    revision.revisionId = revisionId
  transitive : ∀ revisionId revision, register.revisions.get revisionId = some revision →
    ∀ observed earlier, observed ∈ revision.context →
      register.revisions.get observed = some earlier →
      ∀ older ∈ earlier.context, older ∈ revision.context
  apart : ∀ left first right second, register.revisions.get left = some first →
    register.revisions.get right = some second → first.key = second.key → first = second

theorem Ordered.filter (ordered : register.Ordered) (keeps : String → Bool) :
    (ScalarRegister.mk (register.revisions.filter keeps)).Ordered := by
  have stored : ∀ {revisionId revision}, (register.revisions.filter keeps).get revisionId =
      some revision →
      register.revisions.get revisionId = some revision := fun found => (Dict.get_filter.mp found).1
  refine ⟨?_, ?_, ?_⟩
  · intro revisionId revision found
    exact ordered.keyed revisionId revision (stored found)
  · intro revisionId revision found observed earlier member before
    exact ordered.transitive revisionId revision (stored found) observed earlier member
      (stored before)
  · intro left first right second one two
    exact ordered.apart left first right second (stored one) (stored two)

theorem materialized_mem (found : register.materializedRevision = some revision) :
    ∃ revisionId, register.frontier.get revisionId = some revision :=
  Dict.mem_values.mp (greatest_mem found)

/-- Of some revisions, one that has observed the most is not observed by another. -/
theorem Ordered.materialized_exists (ordered : register.Ordered)
    (nonempty : register.revisions.keys ≠ []) :
    ∃ revision, register.materializedRevision = some revision := by
  obtain ⟨first, member⟩ := List.exists_mem_of_ne_nil _ nonempty
  obtain ⟨revision, found⟩ := Dict.mem_keys.mp member
  have present : register.revisions.values ≠ [] :=
    List.ne_nil_of_mem (Dict.mem_values.mpr ⟨first, found⟩)
  obtain ⟨most, _, listed, bound⟩ := greatest_some ScalarRevision.seen present
  obtain ⟨revisionId, stored⟩ := Dict.mem_values.mp listed
  have free : register.frontier.get revisionId = some most := by
    refine mem_frontier.mpr ⟨stored, fun other later there inside => ?_⟩
    have more : most.seen < later.seen := by
      apply ScalarRevision.seen_lt
      · rwa [ordered.keyed revisionId most stored]
      · exact ordered.transitive other later there revisionId most inside stored
    have fewer := Nat.isLE_compare.mp (bound later (Dict.mem_values.mpr ⟨other, there⟩))
    omega
  have some_free : register.frontier.values ≠ [] :=
    List.ne_nil_of_mem (Dict.mem_values.mpr ⟨revisionId, free⟩)
  obtain ⟨best, taken, _⟩ := greatest_some ScalarRevision.key some_free
  exact ⟨best, taken⟩

/-- The materialized revision does not depend on the order of the revisions. -/
theorem Ordered.materialized_eq (ordered : register.Ordered)
    (same : ∀ revisionId, register.revisions.get revisionId = other.revisions.get revisionId) :
    register.materializedRevision = other.materializedRevision := by
  have frontiers : ∀ revisionId revision, register.frontier.get revisionId = some revision ↔
      other.frontier.get revisionId = some revision := by
    intro revisionId revision
    simp only [mem_frontier, same]
  apply greatest_eq
  · intro revision
    simp only [Dict.mem_values, frontiers]
  · intro left inLeft right inRight keys
    obtain ⟨one, first⟩ := Dict.mem_values.mp inLeft
    obtain ⟨two, second⟩ := Dict.mem_values.mp inRight
    exact ordered.apart one left two right (mem_frontier.mp first).1 (mem_frontier.mp second).1 keys

end ScalarRegister

namespace HierarchyLab

variable {lab other : HierarchyLab} {failures : PlacementFailures} {atomId : String}
  {register : Placements} {current : Placements → Option (ScalarRevision (Option String))}

/-- A sound hierarchy whose identifiers are not taken for one another. -/
structure Clear (lab : HierarchyLab) : Prop where
  sound : lab.Sound
  apart : Apart [lab]

theorem Clear.ordered (clear : lab.Clear) (found : lab.parents.get atomId = some register) :
    register.Ordered := by
  have historical := clear.sound.historical atomId register found
  refine ⟨historical.keyed, historical.transitive, ?_⟩
  intro left first right second one two keys
  have inLab : lab ∈ [lab] := List.mem_singleton_self lab
  exact (clear.apart.placements lab inLab lab inLab atomId atomId first second
    (clear.sound.placed found one) (clear.sound.placed found two) keys).2

/-- The loop over the atoms takes placements of the hierarchy. -/
def Takes (lab : HierarchyLab)
    (current : Placements → Option (ScalarRevision (Option String))) : Prop :=
  ∀ atomId register revision, lab.parents.get atomId = some register →
    current register = some revision → lab.Placed atomId revision

/-- What the loop over the atoms makes of the placements that it takes. -/
structure Activated (lab : HierarchyLab)
    (current : Placements → Option (ScalarRevision (Option String)))
    (active : ActivePlacements) : Prop where
  parents : ∀ atomId, active.parents.get atomId =
    (lab.parents.get atomId).bind fun register => (current register).map ScalarRevision.value
  revisionIds : ∀ atomId, active.revisionIds.get atomId =
    (lab.parents.get atomId).bind fun register => (current register).map ScalarRevision.revisionId

theorem activate_some (sound : lab.Sound) (takes : lab.Takes current)
    {entry : String × Placements} (found : lab.parents.get entry.1 = some entry.2)
    {revision : ScalarRevision (Option String)} (taken : current entry.2 = some revision)
    (active : ActivePlacements) : lab.activate failures current active entry =
      .ok ⟨active.parents.set entry.1 revision.value,
        active.revisionIds.set entry.1 revision.revisionId⟩ := by
  have known := sound.known entry.1 revision (takes entry.1 entry.2 revision found taken)
  rw [activate, taken]
  dsimp only
  rw [if_neg, if_neg]
  · intro own
    exact (known entry.1 own).2 rfl
  · rw [Option.any_eq_true]
    rintro ⟨parent, named, absent⟩
    exact of_decide_eq_true absent (known parent named).1

/-- Sets the entries that the loop makes of some atoms. -/
def setAll {Item : Type} (dict : Dict String Item) (entries : List (String × Placements))
    (item : Placements → Item) :
    Dict String Item :=
  (entries.map fun entry => (entry.1, item entry.2)).foldl (fun grown entry =>
    grown.set entry.1 entry.2) dict

theorem get_setAll_empty {Item : Type} {item : Placements → Item} :
    (setAll Dict.empty lab.parents.items item).get atomId = (lab.parents.get atomId).map item := by
  have distinct :
      ((lab.parents.items.map fun entry => (entry.1, item entry.2)).map Prod.fst).Nodup := by
    rw [List.map_map]
    exact lab.parents.distinct
  apply Option.ext
  intro held
  rw [setAll, Dict.get_foldl_set distinct, Dict.get_empty, List.mem_map, Option.map_eq_some_iff]
  constructor
  · rintro (⟨entry, member, same⟩ | ⟨_, impossible⟩)
    · cases same
      exact ⟨entry.2, Dict.get_iff.mpr member, rfl⟩
    · cases impossible
  · rintro ⟨register, found, rfl⟩
    exact Or.inl ⟨(atomId, register), Dict.get_iff.mp found, rfl⟩

/-- The loop stops at an atom without a placement, or sets an entry for every atom. -/
theorem foldlM_activate (failures : PlacementFailures) (sound : lab.Sound)
    (takes : lab.Takes current) {entries : List (String × Placements)}
    (found : ∀ entry ∈ entries, lab.parents.get entry.1 = some entry.2)
    (active : ActivePlacements) :
    ((∃ entry ∈ entries, current entry.2 = none) ∧
      entries.foldlM (lab.activate failures current) active = .error failures.noPlacement) ∨
    ((∀ entry ∈ entries, ∃ revision, current entry.2 = some revision) ∧
      entries.foldlM (lab.activate failures current) active =
        .ok ⟨setAll active.parents entries fun register =>
          (current register).bind ScalarRevision.value,
          setAll active.revisionIds entries fun register =>
          ((current register).map ScalarRevision.revisionId).getD ""⟩) := by
  induction entries generalizing active with
  | nil => exact Or.inr ⟨by simp, rfl⟩
  | cons entry rest ih =>
    rw [List.forall_mem_cons] at found
    rw [List.foldlM_cons, List.forall_mem_cons, List.exists_mem_cons_iff]
    cases taken : current entry.2 with
    | none =>
      refine Or.inl ⟨Or.inl rfl, ?_⟩
      rw [activate, taken]
      rfl
    | some revision =>
      rw [activate_some sound takes found.1 taken]
      rcases ih found.2 ⟨active.parents.set entry.1 revision.value,
        active.revisionIds.set entry.1 revision.revisionId⟩ with
        ⟨stops, failed⟩ | ⟨every, done⟩
      · exact Or.inl ⟨Or.inr stops, failed⟩
      · refine Or.inr ⟨⟨⟨revision, rfl⟩, every⟩, done.trans ?_⟩
        rw [setAll, setAll, setAll, setAll, List.map_cons, List.map_cons, List.foldl_cons,
          List.foldl_cons, taken]
        rfl

theorem activateAll_ok (sound : lab.Sound) (takes : lab.Takes current)
    (every : ∀ atomId register, lab.parents.get atomId = some register →
      ∃ revision, current register = some revision) :
    ∃ active, lab.activateAll failures current = .ok active ∧ lab.Activated current active := by
  have found : ∀ entry ∈ lab.parents.items, lab.parents.get entry.1 = some entry.2 :=
    fun entry member => Dict.get_iff.mpr member
  rcases foldlM_activate failures sound takes found ⟨Dict.empty, Dict.empty⟩ with
    ⟨⟨entry, member, absent⟩, _⟩ | ⟨_, done⟩
  · obtain ⟨revision, taken⟩ := every entry.1 entry.2 (found entry member)
    rw [absent] at taken
    cases taken
  · refine ⟨_, done, ?_, ?_⟩
    · intro atomId
      rw [get_setAll_empty]
      cases stored : lab.parents.get atomId with
      | none => rfl
      | some register =>
        obtain ⟨revision, taken⟩ := every atomId register stored
        rw [Option.map_some, Option.bind_some, taken]
        rfl
    · intro atomId
      rw [get_setAll_empty]
      cases stored : lab.parents.get atomId with
      | none => rfl
      | some register =>
        obtain ⟨revision, taken⟩ := every atomId register stored
        rw [Option.map_some, Option.bind_some, taken]
        rfl

theorem activateAll_error (sound : lab.Sound) (takes : lab.Takes current)
    (found : lab.parents.get atomId = some register) (absent : current register = none) :
    lab.activateAll failures current = .error failures.noPlacement := by
  have listed : ∀ entry ∈ lab.parents.items, lab.parents.get entry.1 = some entry.2 :=
    fun entry member => Dict.get_iff.mpr member
  rcases foldlM_activate failures sound takes listed ⟨Dict.empty, Dict.empty⟩ with
    ⟨_, failed⟩ | ⟨every, _⟩
  · exact failed
  · obtain ⟨revision, taken⟩ := every (atomId, register) (Dict.get_iff.mp found)
    rw [absent] at taken
    cases taken

/-- The hierarchies are equal as values: neither their atoms nor the placements of an atom
have an order. -/
def Alike (lab other : HierarchyLab) : Prop :=
  ∀ atomId, (lab.parents.get atomId).map (fun register => register.revisions.get) =
    (other.parents.get atomId).map fun register => register.revisions.get

theorem Alike.symm (alike : lab.Alike other) : other.Alike lab := fun atomId => (alike atomId).symm

theorem Alike.get (alike : lab.Alike other) (found : lab.parents.get atomId = some register) :
    ∃ same, other.parents.get atomId = some same ∧
    ∀ revisionId, register.revisions.get revisionId = same.revisions.get revisionId := by
  have both := alike atomId
  rw [found, Option.map_some] at both
  obtain ⟨same, stored, equal⟩ := Option.map_eq_some_iff.mp both.symm
  exact ⟨same, stored, fun revisionId => (congrFun equal revisionId).symm⟩

theorem Alike.mem_keys (alike : lab.Alike other) :
    atomId ∈ lab.parents.keys ↔ atomId ∈ other.parents.keys := by
  rw [Dict.mem_keys, Dict.mem_keys]
  constructor
  · rintro ⟨register, found⟩
    obtain ⟨same, stored, _⟩ := alike.get found
    exact ⟨same, stored⟩
  · rintro ⟨register, found⟩
    obtain ⟨same, stored, _⟩ := alike.symm.get found
    exact ⟨same, stored⟩

theorem Alike.placed (alike : lab.Alike other) {revision : ScalarRevision (Option String)}
    (placed : lab.Placed atomId revision) : other.Placed atomId revision := by
  obtain ⟨register, found, held⟩ := placed
  obtain ⟨same, stored, equal⟩ := alike.get found
  exact ⟨same, stored, equal revision.revisionId ▸ held⟩

theorem Alike.clear (alike : lab.Alike other) (clear : lab.Clear) : other.Clear := by
  have sound : other.Sound := by
    refine ⟨?_, ?_, ?_, ?_⟩
    · intro known member
      exact clear.sound.named known (alike.mem_keys.mpr member)
    · intro known register found
      obtain ⟨same, stored, equal⟩ := alike.symm.get found
      exact (clear.sound.historical known same stored).of_get fun revisionId =>
        (equal revisionId).symm
    · intro known register found
      obtain ⟨same, stored, equal⟩ := alike.symm.get found
      obtain ⟨revisionId, member⟩ :=
        List.exists_mem_of_ne_nil _ (clear.sound.nonempty known same stored)
      obtain ⟨revision, held⟩ := Dict.mem_keys.mp member
      exact List.ne_nil_of_mem (Dict.mem_keys.mpr ⟨revision, (equal revisionId).trans held⟩)
    · intro known revision placed parent named
      obtain ⟨member, apart⟩ :=
        clear.sound.known known revision (alike.symm.placed placed) parent named
      exact ⟨alike.mem_keys.mp member, apart⟩
  have inLab : lab ∈ [lab] := List.mem_singleton_self lab
  refine ⟨sound, ?_, ?_⟩
  · simp only [List.mem_singleton, forall_eq]
    intro left one right two same
    exact clear.apart.atoms lab inLab lab inLab left (alike.mem_keys.mpr one) right
      (alike.mem_keys.mpr two) same
  · simp only [List.mem_singleton, forall_eq]
    intro left right first second one two same
    exact clear.apart.placements lab inLab lab inLab left right first second (alike.symm.placed one)
      (alike.symm.placed two) same

end HierarchyLab

theorem World.clear {labs : List HierarchyLab} {lab : HierarchyLab} (world : World labs)
    (member : lab ∈ labs) :
    lab.Clear := by
  obtain ⟨sound, apart⟩ := world.sound
  exact ⟨sound lab member, apart.single member⟩

end PrivateContinuum.Reference
