import PrivateContinuum.Reference.Hierarchy

namespace PrivateContinuum.Reference

open Std (ExtTreeSet)
open PrivateContinuum.Library

namespace ScalarRegister

variable {Value : Type}

/-- Revisions are stored under their identifiers. What a revision has observed is stored
as well, and it has observed what that has observed. -/
structure Historical (register : ScalarRegister Value) : Prop where
  keyed : ∀ revisionId revision, register.revisions.get revisionId = some revision →
    revision.revisionId = revisionId
  closed : ∀ revisionId revision, register.revisions.get revisionId = some revision →
    ∀ observed ∈ revision.context, observed ∈ register.revisions.keys
  transitive : ∀ revisionId revision, register.revisions.get revisionId = some revision →
    ∀ observed earlier, observed ∈ revision.context →
      register.revisions.get observed = some earlier →
      ∀ older ∈ earlier.context, older ∈ revision.context

variable {register other result : ScalarRegister Value} {revisionId : String} {value : Value}

theorem historical_empty : (empty : ScalarRegister Value).Historical := by
  refine ⟨?_, ?_, ?_⟩
  · intro revisionId revision found
    cases found
  · intro revisionId revision found
    cases found
  · intro revisionId revision found
    cases found

theorem mem_observedContext {observed : String} : observed ∈ register.observedContext ↔
    ∃ stored revision, register.revisions.get stored = some revision ∧
      (observed = revision.revisionId ∨ observed ∈ revision.context) := by
  rw [observedContext, ExtTreeSet.mem_ofList, List.contains_iff_mem, List.mem_flatMap]
  simp only [Dict.mem_values, List.mem_cons, ExtTreeSet.mem_toList]
  constructor
  · rintro ⟨revision, ⟨stored, found⟩, member⟩
    exact ⟨stored, revision, found, member⟩
  · rintro ⟨stored, revision, found, member⟩
    exact ⟨revision, ⟨stored, found⟩, member⟩

theorem Historical.mem_observedContext_iff (historical : register.Historical) {observed : String} :
    observed ∈ register.observedContext ↔ observed ∈ register.revisions.keys := by
  rw [mem_observedContext]
  constructor
  · rintro ⟨stored, revision, found, same | inside⟩
    · rw [same, historical.keyed stored revision found]
      exact Dict.mem_keys.mpr ⟨revision, found⟩
    · exact historical.closed stored revision found observed inside
  · intro member
    obtain ⟨revision, found⟩ := Dict.mem_keys.mp member
    exact ⟨observed, revision, found, Or.inl (historical.keyed observed revision found).symm⟩

theorem Historical.union (historical : register.Historical) (also : other.Historical)
    (union : ∀ stored revision, result.revisions.get stored = some revision ↔
      register.revisions.get stored = some revision ∨ other.revisions.get stored = some revision) :
    result.Historical := by
  have holds : ∀ {part : ScalarRegister Value}, part.Historical →
      (∀ stored revision, part.revisions.get stored = some revision →
        result.revisions.get stored = some revision) →
      ∀ stored revision, part.revisions.get stored = some revision →
        (∀ observed ∈ revision.context, observed ∈ result.revisions.keys) ∧
          ∀ observed earlier, observed ∈ revision.context →
            result.revisions.get observed = some earlier →
            ∀ older ∈ earlier.context, older ∈ revision.context := by
    intro part sound included stored revision found
    have kept : ∀ observed ∈ revision.context, ∃ earlier,
        part.revisions.get observed = some earlier :=
      fun observed member => Dict.mem_keys.mp (sound.closed stored revision found observed member)
    constructor
    · intro observed member
      obtain ⟨earlier, before⟩ := kept observed member
      exact Dict.mem_keys.mpr ⟨earlier, included observed earlier before⟩
    · intro observed earlier member there
      obtain ⟨same, before⟩ := kept observed member
      rw [included observed same before, Option.some.injEq] at there
      subst there
      exact sound.transitive stored revision found observed same member before
  have left := holds historical fun stored revision found =>
    (union stored revision).mpr (Or.inl found)
  have right := holds also fun stored revision found => (union stored revision).mpr (Or.inr found)
  refine ⟨?_, ?_, ?_⟩
  · intro stored revision found
    exact ((union stored revision).mp found).elim (historical.keyed stored revision)
      (also.keyed stored revision)
  · intro stored revision found
    exact ((union stored revision).mp found).elim
      (fun old => (left stored revision old).1) fun new => (right stored revision new).1
  · intro stored revision found
    exact ((union stored revision).mp found).elim
      (fun old => (left stored revision old).2) fun new => (right stored revision new).2

variable [DecidableEq Value]

theorem merge_get (done : register.merge other = .ok result) (stored : String)
    (revision : ScalarRevision Value) :
    result.revisions.get stored = some revision ↔
      register.revisions.get stored = some revision ∨
        other.revisions.get stored = some revision := by
  rw [merge, bind_ok_iff] at done
  obtain ⟨merged, kept, same⟩ := done
  cases same
  exact (Dict.keepAll_ok kept).2 stored revision

theorem Historical.merge (historical : register.Historical) (also : other.Historical)
    (done : register.merge other = .ok result) : result.Historical :=
  historical.union also (merge_get done)

/-- An assignment adds one revision, which has observed all others. -/
theorem assign_get (done : register.assign revisionId value = .ok result) :
    ∃ created : ScalarRevision Value, created.revisionId = revisionId ∧ created.value = value ∧
      created.context = register.observedContext ∧
        ∀ stored revision, result.revisions.get stored = some revision ↔
        register.revisions.get stored = some revision ∨
          (stored = revisionId ∧ revision = created) := by
  rw [assign, bind_ok_iff] at done
  obtain ⟨created, made, done⟩ := done
  rw [bind_ok_iff] at done
  obtain ⟨revisions, kept, same⟩ := done
  cases same
  obtain ⟨named, held, observed⟩ := ScalarRevision.create_ok made
  refine ⟨created, named, held, observed, fun stored revision => ?_⟩
  rw [Dict.get_keep kept, Prod.mk.injEq]

theorem Historical.assign (historical : register.Historical)
    (done : register.assign revisionId value = .ok result) :
    result.Historical := by
  obtain ⟨created, named, _, observes, stored_iff⟩ := assign_get done
  have grown : ∀ stored ∈ register.revisions.keys, stored ∈ result.revisions.keys := by
    intro stored member
    obtain ⟨revision, found⟩ := Dict.mem_keys.mp member
    exact Dict.mem_keys.mpr ⟨revision, (stored_iff stored revision).mpr (Or.inl found)⟩
  have kept : ∀ observed ∈ register.revisions.keys, ∀ earlier,
      result.revisions.get observed = some earlier →
      register.revisions.get observed = some earlier := by
    intro observed member earlier found
    obtain ⟨same, before⟩ := Dict.mem_keys.mp member
    rw [(stored_iff observed same).mpr (Or.inl before), Option.some.injEq] at found
    rw [before, found]
  refine ⟨?_, ?_, ?_⟩
  · intro stored revision found
    rcases (stored_iff stored revision).mp found with old | ⟨rfl, rfl⟩
    · exact historical.keyed stored revision old
    · exact named
  · intro stored revision found observed member
    rcases (stored_iff stored revision).mp found with old | ⟨rfl, rfl⟩
    · exact grown observed (historical.closed stored revision old observed member)
    · rw [observes, historical.mem_observedContext_iff] at member
      exact grown observed member
  · intro stored revision found observed earlier member there older inside
    rcases (stored_iff stored revision).mp found with old | ⟨rfl, rfl⟩
    · have before :=
        kept observed (historical.closed stored revision old observed member) earlier there
      exact historical.transitive stored revision old observed earlier member before older inside
    · rw [observes, historical.mem_observedContext_iff] at member ⊢
      exact historical.closed observed earlier (kept observed member earlier there) older inside

end ScalarRegister

namespace HierarchyLab

/-- The revision is a placement of the atom. -/
def Placed (lab : HierarchyLab) (atomId : String)
    (revision : ScalarRevision (Option String)) : Prop :=
  ∃ register, lab.parents.get atomId = some register ∧
    register.revisions.get revision.revisionId = some revision

/-- Every atom has a canonical name and a placement. Its placements name other atoms of
the hierarchy as parents. -/
structure Sound (lab : HierarchyLab) : Prop where
  named : ∀ atomId ∈ lab.parents.keys, Canonical atomId
  historical : ∀ atomId register, lab.parents.get atomId = some register → register.Historical
  nonempty : ∀ atomId register, lab.parents.get atomId = some register →
    register.revisions.keys ≠ []
  known : ∀ atomId revision, lab.Placed atomId revision → ∀ parent, revision.value = some parent →
    parent ∈ lab.parents.keys ∧ parent ≠ atomId

variable {lab other next : HierarchyLab} {atomId revisionId : String}
  {parentAtomId : Option String} {order : SetOrder}

theorem Placed.key_mem {revision : ScalarRevision (Option String)}
    (placed : lab.Placed atomId revision) :
    atomId ∈ lab.parents.keys := by
  obtain ⟨register, found, _⟩ := placed
  exact Dict.mem_keys.mpr ⟨register, found⟩

/-- A placement stored under any identifier is stored under its own. -/
theorem Sound.placed (sound : lab.Sound) {register : Placements} {stored : String}
    {revision : ScalarRevision (Option String)} (found : lab.parents.get atomId = some register)
    (held : register.revisions.get stored = some revision) :
    lab.Placed atomId revision := by
  refine ⟨register, found, ?_⟩
  rw [(sound.historical atomId register found).keyed stored revision held]
  exact held

theorem sound_empty : empty.Sound := by
  have absent : ∀ atomId, empty.parents.get atomId = none := fun _ => rfl
  refine ⟨?_, ?_, ?_, ?_⟩
  · intro atomId member
    cases member
  · intro atomId register found
    cases found
  · intro atomId register found
    cases found
  · rintro atomId revision ⟨register, found, _⟩
    cases found

theorem checkParent_ok (done : lab.checkParent atomId parentAtomId = .ok ()) (parent : String)
    (named : parentAtomId = some parent) : parent ∈ lab.parents.keys ∧ parent ≠ atomId := by
  subst named
  rw [checkParent, bind_ok_iff] at done
  obtain ⟨_, _, done⟩ := done
  dsimp only at done
  split at done
  · cases done
  rename_i apart
  split at done
  · cases done
  rename_i known
  exact ⟨not_not.mp known, apart⟩

/-- What a successful `place` has checked, and what it stores. -/
theorem place_ok (done : lab.place atomId revisionId parentAtomId = .ok next) :
    Canonical atomId ∧ (∀ parent, parentAtomId = some parent → parent ∈ lab.parents.keys ∧
      parent ≠ atomId) ∧
      ∃ placed, ((lab.parents.get atomId).getD ScalarRegister.empty).assign revisionId
        parentAtomId = .ok placed ∧
        next.parents = lab.parents.set atomId placed := by
  rw [place, bind_ok_iff] at done
  obtain ⟨bytes, canonical, done⟩ := done
  rw [bind_ok_iff] at done
  obtain ⟨_, _, done⟩ := done
  rw [bind_ok_iff] at done
  obtain ⟨_, checked, done⟩ := done
  dsimp only at done
  split at done
  · cases done
  · rw [bind_ok_iff] at done
    obtain ⟨placed, assigned, same⟩ := done
    cases same
    exact ⟨⟨bytes, canonical⟩, checkParent_ok checked, placed, assigned, rfl⟩

theorem delete_ok (done : lab.delete atomId = .ok next) : next.parents = lab.parents := by
  rw [delete] at done
  split at done
  · cases done
  · cases done
    rfl

/-- The register that a merge keeps for an atom. -/
def Joined (lab other : HierarchyLab) (atomId : String) (register : Placements) : Prop :=
  (∃ left right, lab.parents.get atomId = some left ∧ other.parents.get atomId = some right ∧
    left.merge right = .ok register) ∨
      lab.parents.get atomId = some register ∨ other.parents.get atomId = some register

theorem mergeAtom_ok {merged grown : Dict String Placements}
    (done : mergeAtom lab other merged atomId = .ok grown) :
    ∃ register, Joined lab other atomId register ∧ grown = merged.set atomId register := by
  rw [mergeAtom] at done
  split at done
  · rename_i left right inLab inOther
    rw [bind_ok_iff] at done
    obtain ⟨both, joined, same⟩ := done
    cases same
    exact ⟨both, Or.inl ⟨left, right, inLab, inOther, joined⟩, rfl⟩
  · rename_i left inLab _
    cases done
    exact ⟨left, Or.inr (Or.inl inLab), rfl⟩
  · rename_i right _ inOther
    cases done
    exact ⟨right, Or.inr (Or.inr inOther), rfl⟩
  · cases done

theorem foldlM_mergeAtom {atomIds : List String} {first last : Dict String Placements}
    (done : atomIds.foldlM (mergeAtom lab other) first = .ok last) :
    (∀ known ∈ first.keys ++ atomIds, known ∈ last.keys) ∧
    ∀ known register, last.get known = some register →
      first.get known = some register ∨ Joined lab other known register := by
  induction atomIds generalizing first with
  | nil =>
    cases done
    exact ⟨by simp, fun known register => Or.inl⟩
  | cons atomId rest ih =>
    rw [List.foldlM_cons, bind_ok_iff] at done
    obtain ⟨grown, turned, finished⟩ := done
    obtain ⟨register, joined, rfl⟩ := mergeAtom_ok turned
    obtain ⟨covers, origin⟩ := ih finished
    have grows : ∀ known, known ∈ first.keys ∨ known = atomId →
        known ∈ (first.set atomId register).keys := by
      intro known member
      rw [Dict.mem_keys]
      by_cases here : atomId = known
      · exact ⟨register, by rw [Dict.get_set, if_pos here]⟩
      · obtain ⟨held, found⟩ := Dict.mem_keys.mp (member.resolve_right (Ne.symm here))
        exact ⟨held, by rw [Dict.get_set, if_neg here, found]⟩
    constructor
    · intro known member
      apply covers
      rw [List.mem_append, List.mem_cons, ← or_assoc] at member
      exact List.mem_append.mpr (member.imp_left (grows known))
    · intro known held found
      rcases origin known held found with before | also
      · rw [Dict.get_set] at before
        split at before
        · rename_i here
          cases before
          exact Or.inr (here ▸ joined)
        · exact Or.inl before
      · exact Or.inr also

theorem merge_ok (done : lab.merge order other = .ok next) :
    (∀ known ∈ lab.parents.keys ++ other.parents.keys, known ∈ next.parents.keys) ∧
      ∀ known register, next.parents.get known = some register →
      Joined lab other known register := by
  rw [merge, bind_ok_iff] at done
  obtain ⟨merged, folded, same⟩ := done
  cases same
  obtain ⟨covers, origin⟩ := foldlM_mergeAtom folded
  constructor
  · intro known member
    apply covers
    rw [List.mem_append, (order.perm _).mem_iff, List.mem_append, List.mem_filter,
      decide_eq_true_eq]
    rcases List.mem_append.mp member with left | right
    · exact Or.inr (Or.inl left)
    · by_cases also : known ∈ lab.parents.keys
      · exact Or.inr (Or.inl also)
      · exact Or.inr (Or.inr ⟨right, also⟩)
  · intro known register found
    exact (origin known register found).resolve_left (by simp)

theorem Joined.placed {register : Placements} {revision : ScalarRevision (Option String)}
    (joined : Joined lab other atomId register)
    (held : register.revisions.get revision.revisionId = some revision) :
    lab.Placed atomId revision ∨ other.Placed atomId revision := by
  rcases joined with ⟨left, right, inLab, inOther, merged⟩ | inLab | inOther
  · rcases (ScalarRegister.merge_get merged revision.revisionId revision).mp
      held with old | incoming
    · exact Or.inl ⟨left, inLab, old⟩
    · exact Or.inr ⟨right, inOther, incoming⟩
  · exact Or.inl ⟨register, inLab, held⟩
  · exact Or.inr ⟨register, inOther, held⟩

theorem Joined.sound {register : Placements} (joined : Joined lab other atomId register)
    (sound : lab.Sound) (also : other.Sound) :
    register.Historical ∧ register.revisions.keys ≠ [] := by
  rcases joined with ⟨left, right, inLab, inOther, merged⟩ | inLab | inOther
  · refine ⟨(sound.historical atomId left inLab).merge
      (also.historical atomId right inOther) merged, fun none => ?_⟩
    obtain ⟨stored, member⟩ := List.exists_mem_of_ne_nil _ (sound.nonempty atomId left inLab)
    obtain ⟨revision, found⟩ := Dict.mem_keys.mp member
    have kept : stored ∈ register.revisions.keys :=
      Dict.mem_keys.mpr ⟨revision,
        (ScalarRegister.merge_get merged stored revision).mpr (Or.inl found)⟩
    rw [none] at kept
    cases kept
  · exact ⟨sound.historical atomId register inLab, sound.nonempty atomId register inLab⟩
  · exact ⟨also.historical atomId register inOther, also.nonempty atomId register inOther⟩

theorem Joined.key_mem {register : Placements} (joined : Joined lab other atomId register) :
    atomId ∈ lab.parents.keys ∨ atomId ∈ other.parents.keys := by
  rcases joined with ⟨left, _, inLab, _⟩ | inLab | inOther
  · exact Or.inl (Dict.mem_keys.mpr ⟨left, inLab⟩)
  · exact Or.inl (Dict.mem_keys.mpr ⟨register, inLab⟩)
  · exact Or.inr (Dict.mem_keys.mpr ⟨register, inOther⟩)

theorem merge_placed (done : lab.merge order other = .ok next)
    {revision : ScalarRevision (Option String)} (placed : next.Placed atomId revision) :
    lab.Placed atomId revision ∨ other.Placed atomId revision := by
  obtain ⟨register, found, held⟩ := placed
  exact ((merge_ok done).2 atomId register found).placed held

theorem Sound.merge (sound : lab.Sound) (also : other.Sound)
    (done : lab.merge order other = .ok next) : next.Sound := by
  obtain ⟨covers, origin⟩ := merge_ok done
  refine ⟨?_, ?_, ?_, ?_⟩
  · intro known member
    obtain ⟨register, found⟩ := Dict.mem_keys.mp member
    exact (origin known register found).key_mem.elim (sound.named known) (also.named known)
  · intro known register found
    exact ((origin known register found).sound sound also).1
  · intro known register found
    exact ((origin known register found).sound sound also).2
  · intro known revision placed parent named
    rcases merge_placed done placed with left | right
    · obtain ⟨member, apart⟩ := sound.known known revision left parent named
      exact ⟨covers parent (List.mem_append_left _ member), apart⟩
    · obtain ⟨member, apart⟩ := also.known known revision right parent named
      exact ⟨covers parent (List.mem_append_right _ member), apart⟩

theorem place_placed (done : lab.place atomId revisionId parentAtomId = .ok next) :
    ∃ created : ScalarRevision (Option String), created.revisionId = revisionId ∧
      created.value = parentAtomId ∧
      ∀ known revision, next.Placed known revision → lab.Placed known revision ∨
      (known = atomId ∧ revision = created) := by
  obtain ⟨_, _, placed, assigned, stored⟩ := place_ok done
  obtain ⟨created, named, held, _, stored_iff⟩ := ScalarRegister.assign_get assigned
  refine ⟨created, named, held, ?_⟩
  rintro known revision ⟨register, found, there⟩
  rw [stored, Dict.get_set] at found
  split at found
  · rename_i here
    cases found
    subst here
    rcases (stored_iff revision.revisionId revision).mp there with old | ⟨_, new⟩
    · cases before : lab.parents.get atomId with
      | none =>
        rw [before] at old
        cases old
      | some earlier =>
        rw [before] at old
        exact Or.inl ⟨earlier, before, old⟩
    · exact Or.inr ⟨rfl, new⟩
  · exact Or.inl ⟨register, found, there⟩

theorem place_keys (done : lab.place atomId revisionId parentAtomId = .ok next) (known : String) :
    known ∈ next.parents.keys ↔ known ∈ lab.parents.keys ∨ known = atomId := by
  obtain ⟨_, _, placed, _, stored⟩ := place_ok done
  rw [stored, Dict.mem_keys, Dict.mem_keys]
  simp only [Dict.get_set]
  by_cases here : atomId = known
  · simp [here]
  · simp [here, Ne.symm here]

theorem Sound.place (sound : lab.Sound)
    (done : lab.place atomId revisionId parentAtomId = .ok next) : next.Sound := by
  obtain ⟨canonical, checked, placed, assigned, stored⟩ := place_ok done
  obtain ⟨created, _, held, origin⟩ := place_placed done
  have before : ((lab.parents.get atomId).getD ScalarRegister.empty).Historical := by
    cases found : lab.parents.get atomId with
    | none => exact ScalarRegister.historical_empty
    | some register => exact sound.historical atomId register found
  refine ⟨?_, ?_, ?_, ?_⟩
  · intro known member
    rcases (place_keys done known).mp member with old | rfl
    · exact sound.named known old
    · exact canonical
  · intro known register found
    rw [stored, Dict.get_set] at found
    split at found
    · cases found
      exact before.assign assigned
    · exact sound.historical known register found
  · intro known register found
    rw [stored, Dict.get_set] at found
    split at found
    · cases found
      obtain ⟨created, _, _, _, stored_iff⟩ := ScalarRegister.assign_get assigned
      have there : revisionId ∈ placed.revisions.keys :=
        Dict.mem_keys.mpr ⟨created, (stored_iff revisionId created).mpr (Or.inr ⟨rfl, rfl⟩)⟩
      exact List.ne_nil_of_mem there
    · exact sound.nonempty known register found
  · intro known revision isPlaced parent named
    rw [place_keys done]
    rcases origin known revision isPlaced with old | ⟨rfl, rfl⟩
    · obtain ⟨member, apart⟩ := sound.known known revision old parent named
      exact ⟨Or.inl member, apart⟩
    · obtain ⟨member, apart⟩ := checked parent (held.symm.trans named)
      exact ⟨Or.inl member, apart⟩

theorem Sound.of_parents (sound : lab.Sound) (same : next.parents = lab.parents) : next.Sound := by
  have placed : ∀ known revision, next.Placed known revision ↔ lab.Placed known revision := by
    intro known revision
    rw [Placed, Placed, same]
  refine ⟨by rw [same]; exact sound.named, by rw [same]; exact sound.historical, by
    rw [same]; exact sound.nonempty, ?_⟩
  intro known revision isPlaced
  rw [same]
  exact sound.known known revision ((placed known revision).mp isPlaced)

end HierarchyLab

/-- No two atoms, and no two placements, of the labs are taken for one another. -/
structure Apart (labs : List HierarchyLab) : Prop where
  atoms : ∀ lab ∈ labs, ∀ other ∈ labs, ∀ left ∈ lab.parents.keys, ∀ right ∈ other.parents.keys,
    canonicalId left = canonicalId right → left = right
  placements : ∀ lab ∈ labs, ∀ other ∈ labs, ∀ left right first second, lab.Placed left first →
    other.Placed right second →
    first.key = second.key → left = right ∧ first = second

section Worlds

variable {labs : List HierarchyLab} {lab next : HierarchyLab}

/-- A lab that holds no more than the labs before it is apart from them. -/
theorem Apart.grow (apart : Apart labs)
    (names : ∀ atomId ∈ next.parents.keys, ∃ lab ∈ labs, atomId ∈ lab.parents.keys)
    (placements : ∀ atomId revision, next.Placed atomId revision →
      ∃ lab ∈ labs, lab.Placed atomId revision) :
    Apart (next :: labs) := by
  have named : ∀ lab ∈ next :: labs, ∀ atomId ∈ lab.parents.keys, ∃ lab ∈ labs,
      atomId ∈ lab.parents.keys := by
    rw [List.forall_mem_cons]
    exact ⟨names, fun lab member atomId inside => ⟨lab, member, inside⟩⟩
  have placed : ∀ lab ∈ next :: labs, ∀ atomId revision, lab.Placed atomId revision →
      ∃ lab ∈ labs, lab.Placed atomId revision := by
    rw [List.forall_mem_cons]
    exact ⟨placements, fun lab member atomId revision inside => ⟨lab, member, inside⟩⟩
  constructor
  · intro lab member other also left inLeft right inRight same
    obtain ⟨first, known, here⟩ := named lab member left inLeft
    obtain ⟨second, alsoKnown, there⟩ := named other also right inRight
    exact apart.atoms first known second alsoKnown left here right there same
  · intro lab member other also left right one two inLeft inRight same
    obtain ⟨first, known, here⟩ := placed lab member left one inLeft
    obtain ⟨second, alsoKnown, there⟩ := placed other also right two inRight
    exact apart.placements first known second alsoKnown left right one two here there same

/-- Placing under fresh identifiers keeps everything apart. -/
theorem Apart.place {atomId revisionId : String} {parentAtomId : Option String} (apart : Apart labs)
    (member : lab ∈ labs) (fresh : Fresh labs atomId revisionId)
    (done : lab.place atomId revisionId parentAtomId = .ok next) : Apart (next :: labs) := by
  obtain ⟨created, named, _, origin⟩ := HierarchyLab.place_placed done
  have names : ∀ one ∈ next :: labs, ∀ known ∈ one.parents.keys,
      (∃ other ∈ labs, known ∈ other.parents.keys) ∨ known = atomId := by
    rw [List.forall_mem_cons]
    constructor
    · intro known inside
      exact ((HierarchyLab.place_keys done known).mp inside).imp_left fun old => ⟨lab, member, old⟩
    · intro other listed known inside
      exact Or.inl ⟨other, listed, inside⟩
  have placements : ∀ one ∈ next :: labs, ∀ known revision, one.Placed known revision →
      (∃ other ∈ labs, other.Placed known revision) ∨ (known = atomId ∧ revision = created) := by
    rw [List.forall_mem_cons]
    constructor
    · intro known revision inside
      exact (origin known revision inside).imp_left fun old => ⟨lab, member, old⟩
    · intro other listed known revision inside
      exact Or.inl ⟨other, listed, inside⟩
  have newAtom : ∀ other ∈ labs, ∀ known ∈ other.parents.keys,
      canonicalId known = canonicalId atomId → known = atomId := by
    intro other listed known inside
    obtain ⟨register, found⟩ := Dict.mem_keys.mp inside
    exact (fresh other listed known register found).1
  have newRevision : ∀ other ∈ labs, ∀ known revision, other.Placed known revision →
      revision.key ≠ created.key := by
    rintro other listed known revision ⟨register, found, held⟩ same
    apply (fresh other listed known register found).2 revision.revisionId
      (Dict.mem_keys.mpr ⟨revision, held⟩)
    rw [revision.canonical.bytes_eq, ← named, created.canonical.bytes_eq]
    exact congrArg Except.ok same
  constructor
  · intro first one second two left inLeft right inRight same
    rcases names first one left inLeft with ⟨old, listed, there⟩ | rfl
    · rcases names second two right inRight with ⟨older, known, also⟩ | rfl
      · exact apart.atoms old listed older known left there right also same
      · exact newAtom old listed left there same
    · rcases names second two right inRight with ⟨older, known, also⟩ | rfl
      · exact (newAtom older known right also same.symm).symm
      · rfl
  · intro first one second two left right before after inLeft inRight same
    rcases placements first one left before inLeft with ⟨old, listed, there⟩ | ⟨rfl, rfl⟩
    · rcases placements second two right after inRight with ⟨older, known, also⟩ | ⟨rfl, rfl⟩
      · exact apart.placements old listed older known left right before after there also same
      · exact absurd same (newRevision old listed left before there)
    · rcases placements second two right after inRight with ⟨older, known, also⟩ | ⟨rfl, rfl⟩
      · exact absurd same.symm (newRevision older known right after also)
      · exact ⟨rfl, rfl⟩

/-- Every lab of a world is sound, and its identifiers are apart from those of all labs. -/
theorem World.sound (world : World labs) : (∀ lab ∈ labs, lab.Sound) ∧ Apart labs := by
  induction world with
  | start =>
    refine ⟨List.forall_mem_singleton.mpr HierarchyLab.sound_empty, ?_, ?_⟩
    · intro lab member other _ left inLeft
      rw [List.mem_singleton.mp member] at inLeft
      cases inLeft
    · rintro lab member other _ left right first second ⟨register, found, _⟩
      rw [List.mem_singleton.mp member] at found
      cases found
  | place atomId revisionId parentAtomId _ member fresh done ih =>
    obtain ⟨sound, apart⟩ := ih
    exact ⟨List.forall_mem_cons.mpr ⟨(sound _ member).place done, sound⟩,
      apart.place member fresh done⟩
  | delete atomId _ member done ih =>
    obtain ⟨sound, apart⟩ := ih
    have same := HierarchyLab.delete_ok done
    refine ⟨List.forall_mem_cons.mpr ⟨(sound _ member).of_parents same, sound⟩, apart.grow ?_ ?_⟩
    · intro atomId inside
      exact ⟨_, member, same ▸ inside⟩
    · rintro atomId revision ⟨register, found, held⟩
      exact ⟨_, member, register, same ▸ found, held⟩
  | merge order _ member also done ih =>
    obtain ⟨sound, apart⟩ := ih
    refine ⟨List.forall_mem_cons.mpr ⟨(sound _ member).merge (sound _ also) done, sound⟩,
      apart.grow ?_ ?_⟩
    · intro atomId inside
      obtain ⟨register, found⟩ := Dict.mem_keys.mp inside
      rcases ((HierarchyLab.merge_ok done).2 atomId register found).key_mem with left | right
      · exact ⟨_, member, left⟩
      · exact ⟨_, also, right⟩
    · intro atomId revision placed
      rcases HierarchyLab.merge_placed done placed with left | right
      · exact ⟨_, member, left⟩
      · exact ⟨_, also, right⟩

theorem Apart.single (apart : Apart labs) (member : lab ∈ labs) : Apart [lab] := by
  have listed : ∀ one ∈ [lab], one ∈ labs := List.forall_mem_singleton.mpr member
  exact ⟨fun one here other there => apart.atoms one (listed one here) other (listed other there),
    fun one here other there => apart.placements one (listed one here) other (listed other there)⟩

end Worlds

end PrivateContinuum.Reference
