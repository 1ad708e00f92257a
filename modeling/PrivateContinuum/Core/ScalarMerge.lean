import PrivateContinuum.Core.ScalarInvariant
import PrivateContinuum.Library.Union

namespace PrivateContinuum.Core.ScalarRegister

open PrivateContinuum.Library

variable {Value : Type}

/-- Inclusion of revision maps. -/
instance : LE (ScalarRegister Value) :=
  ⟨fun small large => ∀ id revision, small.revision id = some revision →
    large.revision id = some revision⟩

instance : PartialOrder (ScalarRegister Value) where
  le_refl := fun _ _ _ found => found
  le_trans := fun _ _ _ first second id revision found =>
    second id revision (first id revision found)
  le_antisymm := by
    intro left right forward backward
    apply ext_revision
    intro id
    cases found : left.revision id with
    | some revision => rw [forward id revision found]
    | none =>
      cases other : right.revision id with
      | none => rfl
      | some revision => rw [backward id revision other] at found; cases found

theorem le_def {small large : ScalarRegister Value} :
    small ≤ large ↔ ∀ id revision, small.revision id = some revision →
    large.revision id = some revision :=
  Iff.rfl

/-- The two registers hold equal revisions under every shared identity. -/
def Agree (left right : ScalarRegister Value) : Prop :=
  ∀ id first second, left.revision id = some first → right.revision id = some second →
    first = second

theorem Agree.symm {left right : ScalarRegister Value} (agree : left.Agree right) :
    right.Agree left :=
  fun id first second found other => (agree id second first other found).symm

theorem agree_of_le {left right bound : ScalarRegister Value} (first : left ≤ bound)
    (second : right ≤ bound) : left.Agree right :=
  fun id _ _ found other => Option.some.inj ((first id _ found).symm.trans (second id _ other))

theorem mem_of_le {small large : ScalarRegister Value} (included : small ≤ large) {id : RevisionId}
    (known : id ∈ small) : id ∈ large := by
  obtain ⟨revision, found⟩ := mem_iff.mp known
  exact mem_iff.mpr ⟨revision, included id revision found⟩

theorem Parent.mono {small large : ScalarRegister Value} (included : small ≤ large)
    {child parent : RevisionId} (edge : small.Parent child parent) : large.Parent child parent := by
  obtain ⟨revision, found, member⟩ := edge
  exact ⟨revision, included child revision found, member⟩

theorem Ancestor.mono {small large : ScalarRegister Value} (included : small ≤ large)
    {ancestor descendant : RevisionId} (path : small.Ancestor ancestor descendant) :
    large.Ancestor ancestor descendant := by
  induction path with
  | single edge => exact Relation.TransGen.single (edge.mono included)
  | tail _ edge ih => exact Relation.TransGen.tail ih (edge.mono included)

theorem parent_of_le {small large : ScalarRegister Value} (included : small ≤ large)
    {child parent : RevisionId} (known : child ∈ small) (edge : large.Parent child parent) :
    small.Parent child parent := by
  obtain ⟨revision, found⟩ := mem_iff.mp known
  obtain ⟨other, lookup, member⟩ := edge
  rw [included child revision found] at lookup
  cases lookup
  exact ⟨revision, found, member⟩

/-- Growing a parent-closed register gives its revisions no new ancestors. -/
theorem ancestor_of_le {small large : ScalarRegister Value} (closed : small.ParentClosed)
    (included : small ≤ large) {ancestor descendant : RevisionId} (known : descendant ∈ small)
    (path : large.Ancestor ancestor descendant) : small.Ancestor ancestor descendant := by
  induction path with
  | single edge => exact Relation.TransGen.single (parent_of_le included known edge)
  | tail _ edge ih =>
    exact Relation.TransGen.tail ih (parent_of_le included (closed.ancestor_mem ih) edge)

theorem ancestor_iff_of_le {small large : ScalarRegister Value} (closed : small.ParentClosed)
    (included : small ≤ large) {ancestor descendant : RevisionId} (known : descendant ∈ small) :
    large.Ancestor ancestor descendant ↔ small.Ancestor ancestor descendant :=
  ⟨ancestor_of_le closed included known, fun path => path.mono included⟩

/-- A revision with a fresh identity and known parents. -/
structure Extends (register : ScalarRegister Value) (added : ScalarRevision Value) : Prop where
  fresh : added.id ∉ register
  known : ∀ parent ∈ added.parents, parent ∈ register

theorem Extends.le_put {register : ScalarRegister Value} {added : ScalarRevision Value}
    (extension : register.Extends added) : register ≤ register.put added := by
  intro id revision found
  rw [revision_put]
  split
  · rename_i same
    exact absurd (mem_iff.mpr ⟨revision, same ▸ found⟩) extension.fresh
  · exact found

theorem parent_put_self {register : ScalarRegister Value} {added : ScalarRevision Value}
    {parent : RevisionId} :
    (register.put added).Parent added.id parent ↔ parent ∈ added.parents := by
  simp [Parent, revision_put]

theorem Extends.ancestor_put_iff {register : ScalarRegister Value} {added : ScalarRevision Value}
    (extension : register.Extends added) (closed : register.ParentClosed) {id : RevisionId} :
    (register.put added).Ancestor id added.id ↔
      id ∈ added.parents ∨ ∃ parent ∈ added.parents, register.Ancestor id parent := by
  constructor
  · intro path
    obtain ⟨parent, edge, rest⟩ := Relation.TransGen.head'_iff.mp path
    have listed := parent_put_self.mp edge
    rcases Relation.reflTransGen_iff_eq_or_transGen.mp rest with same | above
    · exact Or.inl (same ▸ listed)
    · exact Or.inr ⟨parent, listed,
        ancestor_of_le closed extension.le_put (extension.known parent listed) above⟩
  · rintro (listed | ⟨parent, listed, path⟩)
    · exact Relation.TransGen.single (parent_put_self.mpr listed)
    · exact Relation.TransGen.head (parent_put_self.mpr listed) (path.mono extension.le_put)

theorem Extends.valid_put {register : ScalarRegister Value} {added : ScalarRevision Value}
    (extension : register.Extends added) (valid : register.Valid) : (register.put added).Valid := by
  apply validate_ok_iff.mpr
  constructor
  · intro child parent edge
    by_cases same : added.id = child
    · subst same
      exact mem_put.mpr (Or.inr (extension.known parent (parent_put_self.mp edge)))
    · have old : child ∈ register := (mem_put.mp edge.child_mem).resolve_left same
      have kept := parent_of_le extension.le_put old edge
      exact mem_put.mpr (Or.inr (valid.closed child parent kept))
  · intro id cycle
    by_cases same : added.id = id
    · subst same
      rcases (extension.ancestor_put_iff valid.closed).mp cycle with listed | ⟨_, _, path⟩
      · exact extension.fresh (extension.known _ listed)
      · exact extension.fresh (valid.closed.ancestor_mem path)
    · have old : id ∈ register := (mem_put.mp cycle.descendant_mem).resolve_left same
      exact valid.acyclic id (ancestor_of_le valid.closed extension.le_put old cycle)

/-- A revision added over the whole frontier has everything below it. -/
theorem Extends.ancestor_frontier_iff {register : ScalarRegister Value}
    {added : ScalarRevision Value} (extension : register.Extends added) (valid : register.Valid)
    (frontier : added.parents = register.frontierIds) {id : RevisionId} :
    (register.put added).Ancestor id added.id ↔ id ∈ register := by
  rw [extension.ancestor_put_iff valid.closed, frontier]
  constructor
  · rintro (listed | ⟨_, _, path⟩)
    · exact (mem_frontierIds.mp listed).1
    · exact valid.closed.ancestor_mem path
  · exact valid.acyclic.frontier_dominates

theorem empty_le (register : ScalarRegister Value) : empty ≤ register := by
  intro id revision found
  simp at found

theorem empty_valid : (empty : ScalarRegister Value).Valid := by
  apply validate_ok_iff.mpr
  constructor
  · rintro child parent ⟨revision, found, _⟩
    simp at found
  · intro id cycle
    obtain ⟨revision, found⟩ := mem_iff.mp cycle.descendant_mem
    simp at found

variable [DecidableEq Value]

theorem absorb_ok_iff {register next : ScalarRegister Value} {incoming : ScalarRevision Value} :
    register.absorb incoming = .ok next ↔
      (∀ existing, register.revision incoming.id = some existing → existing = incoming) ∧
        next = register.put incoming := by
  unfold absorb
  cases found : register.revision incoming.id with
  | none => simp [eq_comm]
  | some existing =>
    by_cases same : existing = incoming
    · subst existing
      have unchanged : register.put incoming = register := by
        apply ext_revision
        intro id
        rw [revision_put]
        split
        · rename_i equal
          rw [← equal, found]
        · rfl
      simp [unchanged, eq_comm]
    · simp [same]

theorem insertRevision_ok_iff {register next : ScalarRegister Value} {added : ScalarRevision Value}
    (fresh : added.id ∉ register) :
    register.insertRevision added = .ok next ↔
    register.Extends added ∧ next = register.put added := by
  have absent : register.revision added.id = none := by
    rw [mem_iff] at fresh
    push Not at fresh
    exact Option.eq_none_iff_forall_ne_some.mpr fresh
  rw [insertRevision, absent]
  simp only [bind_ok_iff, pure_eq_ok, Except.ok.injEq]
  constructor
  · rintro ⟨⟨⟩, checked, rfl⟩
    exact ⟨⟨fresh, checkParents_ok_iff.mp checked⟩, rfl⟩
  · rintro ⟨extension, rfl⟩
    exact ⟨(), checkParents_ok_iff.mpr extension.known, rfl⟩

theorem absorb_error {register : ScalarRegister Value} {incoming : ScalarRevision Value}
    {failure : CoreError} (stopped : register.absorb incoming = .error failure) :
    ∃ existing, register.revision incoming.id = some existing ∧ existing ≠ incoming ∧
      failure = .duplicateRevisionConflict incoming.id := by
  unfold absorb at stopped
  split at stopped
  · rename_i existing found
    split at stopped
    · cases stopped
    · rename_i different
      cases stopped
      exact ⟨existing, found, different, rfl⟩
  · cases stopped

theorem absorbAll_revision {first last : ScalarRegister Value}
    {revisions : List (ScalarRevision Value)} (done : revisions.foldlM absorb first = .ok last)
    (id : RevisionId) (revision : ScalarRevision Value) :
    last.revision id = some revision ↔
      first.revision id = some revision ∨ (revision ∈ revisions ∧ revision.id = id) := by
  induction revisions generalizing first with
  | nil =>
    cases done
    simp
  | cons incoming rest ih =>
    rw [List.foldlM_cons, bind_ok_iff] at done
    obtain ⟨next, absorbed, finished⟩ := done
    obtain ⟨same, stored⟩ := absorb_ok_iff.mp absorbed
    subst stored
    rw [ih finished, revision_put]
    simp only [List.mem_cons]
    constructor
    · rintro (stored | ⟨member, keyed⟩)
      · split at stored
        · cases stored
          exact Or.inr ⟨Or.inl rfl, ‹_›⟩
        · exact Or.inl stored
      · exact Or.inr ⟨Or.inr member, keyed⟩
    · rintro (old | ⟨equal | member, keyed⟩)
      · left
        split
        · rename_i here
          subst here
          rw [same revision old]
        · exact old
      · subst equal
        simp [keyed]
      · exact Or.inr ⟨member, keyed⟩

theorem absorbAll_isOk {first : ScalarRegister Value} {revisions : List (ScalarRevision Value)}
    (known : ∀ revision ∈ revisions, ∀ existing, first.revision revision.id = some existing →
      existing = revision)
    (distinct : ∀ left ∈ revisions, ∀ right ∈ revisions, left.id = right.id → left = right) :
    ∃ last, revisions.foldlM absorb first = .ok last := by
  cases outcome : revisions.foldlM absorb first with
  | ok last => exact ⟨last, rfl⟩
  | error failure =>
    obtain ⟨before, incoming, after, register, split, ran, failed⟩ := foldlM_error outcome
    obtain ⟨existing, found, different, _⟩ := absorb_error failed
    have listed : incoming ∈ revisions := by simp [split]
    rcases (absorbAll_revision ran incoming.id existing).mp found with old | ⟨member, keyed⟩
    · exact absurd (known incoming listed existing old) different
    · exact absurd (distinct existing (by simp [split, member]) incoming listed keyed) different

/-- Statements that agree where they share an id make up a register. -/
theorem exists_holding {revisions : List (ScalarRevision Value)}
    (distinct : ∀ one ∈ revisions, ∀ other ∈ revisions, one.id = other.id → one = other) :
    ∃ register, revisions.foldlM absorb empty = .ok register ∧ ∀ id revision,
      register.revision id = some revision ↔ revision ∈ revisions ∧ revision.id = id := by
  have unknown : ∀ revision ∈ revisions, ∀ existing,
      (empty : ScalarRegister Value).revision revision.id = some existing →
      existing = revision := by
    intro revision _ existing found
    simp at found
  obtain ⟨register, absorbed⟩ := absorbAll_isOk unknown distinct
  refine ⟨register, absorbed, ?_⟩
  intro id revision
  rw [absorbAll_revision absorbed]
  simp

theorem absorbAll_error {first : ScalarRegister Value} {revisions : List (ScalarRevision Value)}
    {failure : CoreError} (stopped : revisions.foldlM absorb first = .error failure) :
    ∃ id, failure = .duplicateRevisionConflict id := by
  obtain ⟨_, incoming, _, _, _, _, failed⟩ := foldlM_error stopped
  obtain ⟨_, _, _, same⟩ := absorb_error failed
  exact ⟨incoming.id, same⟩

variable {left right merged : ScalarRegister Value}

/-- Without validation, the union itself: what the merge loop builds. -/
private theorem absorb_union {last : ScalarRegister Value}
    (absorbed : right.statements.foldlM absorb left = .ok last) (id : RevisionId)
    (revision : ScalarRevision Value) :
    last.revision id = some revision ↔
      left.revision id = some revision ∨ right.revision id = some revision := by
  rw [absorbAll_revision absorbed, mem_statements]
  constructor
  · rintro (old | ⟨found, keyed⟩)
    · exact Or.inl old
    · exact Or.inr (keyed ▸ found)
  · rintro (old | found)
    · exact Or.inl old
    · have keyed := right.keyed id revision found
      exact Or.inr ⟨keyed ▸ found, keyed⟩

theorem merge_revision (done : left.merge right = .ok merged) (id : RevisionId)
    (revision : ScalarRevision Value) :
    merged.revision id = some revision ↔
      left.revision id = some revision ∨ right.revision id = some revision := by
  simp only [merge, bind_ok_iff, pure_eq_ok, Except.ok.injEq] at done
  obtain ⟨last, absorbed, _, _, same⟩ := done
  exact same ▸ absorb_union absorbed id revision

/-- A completed merge as a lookup: the left side first, then the right. -/
theorem merge_revision_or (done : left.merge right = .ok merged) (id : RevisionId) :
    merged.revision id = (left.revision id).or (right.revision id) := by
  apply Option.ext
  intro revision
  rw [merge_revision done, Option.or_eq_some_iff]
  constructor
  · rintro (old | new)
    · exact Or.inl old
    · cases found : left.revision id with
      | none => exact Or.inr ⟨rfl, new⟩
      | some existing =>
        have stored := (merge_revision done id existing).mpr (Or.inl found)
        rw [(merge_revision done id revision).mpr (Or.inr new)] at stored
        exact Or.inl stored.symm
  · rintro (old | ⟨_, new⟩)
    · exact Or.inl old
    · exact Or.inr new

theorem merge_valid (done : left.merge right = .ok merged) : merged.Valid := by
  simp only [merge, bind_ok_iff, pure_eq_ok, Except.ok.injEq] at done
  obtain ⟨last, _, ⟨⟩, valid, same⟩ := done
  exact same ▸ valid

theorem left_le_merge (done : left.merge right = .ok merged) : left ≤ merged :=
  fun id revision found => (merge_revision done id revision).mpr (Or.inl found)

theorem right_le_merge (done : left.merge right = .ok merged) : right ≤ merged :=
  fun id revision found => (merge_revision done id revision).mpr (Or.inr found)

theorem merge_le {bound : ScalarRegister Value} (done : left.merge right = .ok merged)
    (first : left ≤ bound) (second : right ≤ bound) : merged ≤ bound := by
  intro id revision found
  rcases (merge_revision done id revision).mp found with old | new
  · exact first id revision old
  · exact second id revision new

theorem merge_isLUB (done : left.merge right = .ok merged) : IsLUB {left, right} merged := by
  constructor
  · rintro register (same | same)
    · exact same ▸ left_le_merge done
    · exact same ▸ right_le_merge done
  · intro bound upper
    exact merge_le done (upper (by simp)) (upper (by simp))

theorem merge_agree (done : left.merge right = .ok merged) : left.Agree right :=
  agree_of_le (left_le_merge done) (right_le_merge done)

omit [DecidableEq Value] in
/-- The union of two valid registers has neither a dangling parent nor a
cycle: every path stays in the side where it starts. -/
theorem valid_of_union (leftValid : left.Valid) (rightValid : right.Valid)
    (union : ∀ id revision, merged.revision id = some revision ↔
      left.revision id = some revision ∨ right.revision id = some revision) : merged.Valid := by
  have leftLe : left ≤ merged := fun id revision found => (union id revision).mpr (Or.inl found)
  have rightLe : right ≤ merged := fun id revision found => (union id revision).mpr (Or.inr found)
  apply validate_ok_iff.mpr
  constructor
  · rintro child parent ⟨revision, found, member⟩
    rcases (union child revision).mp found with old | new
    · exact mem_of_le leftLe (leftValid.closed child parent ⟨revision, old, member⟩)
    · exact mem_of_le rightLe (rightValid.closed child parent ⟨revision, new, member⟩)
  · intro id cycle
    obtain ⟨revision, found⟩ := mem_iff.mp cycle.descendant_mem
    rcases (union id revision).mp found with old | new
    · exact leftValid.acyclic id
        (ancestor_of_le leftValid.closed leftLe (mem_iff.mpr ⟨revision, old⟩) cycle)
    · exact rightValid.acyclic id
        (ancestor_of_le rightValid.closed rightLe (mem_iff.mpr ⟨revision, new⟩) cycle)

theorem merge_isOk (leftValid : left.Valid) (rightValid : right.Valid) (agree : left.Agree right) :
    ∃ merged, left.merge right = .ok merged := by
  have distinct : ∀ first ∈ right.statements, ∀ second ∈ right.statements,
      first.id = second.id → first = second := by
    intro first member second other same
    have found := mem_statements.mp member
    rw [same, mem_statements.mp other] at found
    exact (Option.some.inj found).symm
  have known : ∀ revision ∈ right.statements, ∀ existing,
      left.revision revision.id = some existing → existing = revision :=
    fun revision member existing found =>
      agree revision.id existing revision found (mem_statements.mp member)
  obtain ⟨last, absorbed⟩ := absorbAll_isOk known distinct
  have valid := valid_of_union leftValid rightValid (absorb_union absorbed)
  refine ⟨last, ?_⟩
  simp only [merge, bind_ok_iff, pure_eq_ok]
  exact ⟨last, absorbed, (), valid, rfl⟩

theorem merge_isOk_iff (leftValid : left.Valid) (rightValid : right.Valid) :
    (∃ merged, left.merge right = .ok merged) ↔ left.Agree right :=
  ⟨fun ⟨_, done⟩ => merge_agree done, merge_isOk leftValid rightValid⟩

/-- A failed merge of valid registers is a conflicting statement, never a
missing parent or a cycle. -/
theorem merge_error (leftValid : left.Valid) (rightValid : right.Valid) {failure : CoreError}
    (stopped : left.merge right = .error failure) :
    ∃ id, failure = .duplicateRevisionConflict id := by
  rw [merge, bind_error_iff] at stopped
  rcases stopped with conflict | ⟨last, absorbed, checked⟩
  · exact absorbAll_error conflict
  · have valid := valid_of_union leftValid rightValid (absorb_union absorbed)
    simp only [valid, bind, Except.bind, pure, Except.pure, reduceCtorEq] at checked

/-- A merge is determined by being valid and holding exactly both sides. -/
theorem merge_eq_ok_iff (leftValid : left.Valid) (rightValid : right.Valid) :
    left.merge right = .ok merged ↔ ∀ id revision, merged.revision id = some revision ↔
      left.revision id = some revision ∨ right.revision id = some revision := by
  constructor
  · exact merge_revision
  · intro union
    have agree : left.Agree right := agree_of_le
      (fun id revision found => (union id revision).mpr (Or.inl found))
      (fun id revision found => (union id revision).mpr (Or.inr found))
    obtain ⟨other, done⟩ := merge_isOk leftValid rightValid agree
    have same : other = merged := by
      apply le_antisymm
      · exact fun id revision found =>
          (union id revision).mpr ((merge_revision done id revision).mp found)
      · exact fun id revision found =>
          (merge_revision done id revision).mpr ((union id revision).mp found)
    exact same ▸ done

theorem fromRevisions_statements {register : ScalarRegister Value} (valid : register.Valid) :
    fromRevisions register.statements = .ok register := by
  change empty.merge register = .ok register
  rw [merge_eq_ok_iff empty_valid valid]
  simp

theorem fromRevisions_ok {revisions : List (ScalarRevision Value)} {register : ScalarRegister Value}
    (done : fromRevisions revisions = .ok register) : register.Valid ∧ ∀ id revision,
      register.revision id = some revision ↔ revision ∈ revisions ∧ revision.id = id := by
  simp only [fromRevisions, bind_ok_iff, pure_eq_ok, Except.ok.injEq] at done
  obtain ⟨last, absorbed, ⟨⟩, valid, same⟩ := done
  subst same
  refine ⟨valid, ?_⟩
  intro id revision
  rw [absorbAll_revision absorbed]
  simp

theorem fromRevisions_ok_iff {revisions : List (ScalarRevision Value)}
    {register : ScalarRegister Value} :
    fromRevisions revisions = .ok register ↔ register.Valid ∧ ∀ id revision,
      register.revision id = some revision ↔ revision ∈ revisions ∧ revision.id = id := by
  constructor
  · exact fromRevisions_ok
  · intro built
    obtain ⟨valid, holds⟩ := built
    have distinct : ∀ one ∈ revisions, ∀ other ∈ revisions, one.id = other.id → one = other := by
      intro one listed other otherListed same
      have found := (holds one.id one).mpr ⟨listed, rfl⟩
      have foundOther := (holds one.id other).mpr ⟨otherListed, same.symm⟩
      exact Option.some.inj (found.symm.trans foundOther)
    obtain ⟨last, absorbed, listed⟩ := exists_holding distinct
    have same : last = register := by
      apply ext_revision
      intro id
      apply Option.ext
      intro revision
      rw [listed, holds]
    subst same
    simp only [fromRevisions, bind_ok_iff, pure_eq_ok, Except.ok.injEq]
    exact ⟨last, absorbed, (), valid, rfl⟩

/-- The registers that the public operations build. -/
inductive Obtainable : ScalarRegister Value → Prop
  | empty : Obtainable empty
  | fromRevisions {revisions : List (ScalarRevision Value)} {register : ScalarRegister Value}
      (done : fromRevisions revisions = .ok register) : Obtainable register
  | assign {register next : ScalarRegister Value} {id : RevisionId} {value : Value}
      (before : Obtainable register) (done : register.assign id value = .ok next) : Obtainable next
  | insertRevision {register next : ScalarRegister Value} {added : ScalarRevision Value}
      (before : Obtainable register) (done : register.insertRevision added = .ok next) :
      Obtainable next
  | merge {left right merged : ScalarRegister Value} (leftObtained : Obtainable left)
      (rightObtained : Obtainable right) (done : left.merge right = .ok merged) : Obtainable merged

theorem insertRevision_valid {register next : ScalarRegister Value} {added : ScalarRevision Value}
    (valid : register.Valid) (done : register.insertRevision added = .ok next) : next.Valid := by
  by_cases known : added.id ∈ register
  · obtain ⟨existing, found⟩ := mem_iff.mp known
    simp only [insertRevision, found] at done
    split at done
    · cases done
      exact valid
    · cases done
  · obtain ⟨extension, same⟩ := (insertRevision_ok_iff known).mp done
    exact same ▸ extension.valid_put valid

theorem Obtainable.valid {register : ScalarRegister Value}
    (obtained : register.Obtainable) : register.Valid := by
  induction obtained with
  | empty => exact empty_valid
  | fromRevisions done => exact (fromRevisions_ok done).1
  | assign _ done ih => exact insertRevision_valid ih done
  | insertRevision _ done ih => exact insertRevision_valid ih done
  | merge _ _ done _ _ => exact merge_valid done

/-- `merge` builds the union of the statements of both registers. -/
def union : UnionMerge (ScalarRegister Value) (RevisionId × ScalarRevision Value) CoreError where
  merge := merge
  Good := Valid
  States register fact := register.revision fact.1 = some fact.2
  Agree := Agree
  ext := by
    intro left right same
    exact le_antisymm (fun id revision => (same (id, revision)).mp) fun id revision =>
      (same (id, revision)).mpr
  merge_states done fact := merge_revision done fact.1 fact.2
  merge_good _ _ done := merge_valid done
  merge_exists leftValid rightValid agree := merge_isOk leftValid rightValid agree
  agree_bounded first second := agree_of_le (fun id revision => first (id, revision))
    fun id revision => second (id, revision)
  agree_merge := by
    intro left right merged other done first second id revision incoming found stored
    rcases (merge_revision done id revision).mp found with old | new
    · exact first id revision incoming old stored
    · exact second id revision incoming new stored
  agree_symm agree := agree.symm

theorem foldMerge_eq_ok_iff {first : ScalarRegister Value} {others : List (ScalarRegister Value)}
    (valid : ∀ member ∈ first :: others, member.Valid) :
    others.foldlM merge first = .ok merged ↔ ∀ id revision, merged.revision id = some revision ↔
      ∃ member ∈ first :: others, member.revision id = some revision := by
  have folded : others.foldlM merge first = .ok merged ↔ _ := union.fold_ok_iff valid
  rw [folded, Prod.forall]
  rfl

theorem foldMerge_isOk_iff {first : ScalarRegister Value} {others : List (ScalarRegister Value)}
    (valid : ∀ member ∈ first :: others, member.Valid) :
    (∃ merged, others.foldlM merge first = .ok merged) ↔
      ∀ left ∈ first :: others, ∀ right ∈ first :: others, left.Agree right := by
  constructor
  · rintro ⟨merged, done⟩ left leftListed right rightListed
    have union := (foldMerge_eq_ok_iff valid).mp done
    have leftLe : left ≤ merged :=
      fun id revision found => (union id revision).mpr ⟨left, leftListed, found⟩
    have rightLe : right ≤ merged :=
      fun id revision found => (union id revision).mpr ⟨right, rightListed, found⟩
    exact agree_of_le leftLe rightLe
  · exact union.fold_exists valid

/-- The fold depends on the set of members only. -/
theorem foldMerge_sameResult {first first' : ScalarRegister Value}
    {others others' : List (ScalarRegister Value)}
    (valid : ∀ member ∈ first :: others, member.Valid)
    (members : ∀ member, member ∈ first :: others ↔ member ∈ first' :: others') :
    SameResult (others.foldlM merge first) (others'.foldlM merge first') :=
  union.fold_sameResult valid members

theorem merge_self (valid : left.Valid) : left.merge left = .ok left := union.merge_self valid

theorem merge_comm (leftValid : left.Valid) (rightValid : right.Valid) :
    SameResult (left.merge right) (right.merge left) := union.merge_comm leftValid rightValid

theorem merge_assoc {first second third : ScalarRegister Value} (firstValid : first.Valid)
    (secondValid : second.Valid) (thirdValid : third.Valid) :
    SameResult (first.merge second >>= fun joined => joined.merge third)
      (second.merge third >>= fun joined => first.merge joined) :=
  union.merge_assoc firstValid secondValid thirdValid

/-- `merge` is a partial join on valid registers, and folding it over a family
depends on the set of its members only. -/
theorem merge_partial_join :
    (∀ left right : ScalarRegister Value, left.Valid → right.Valid →
      ((∃ merged, left.merge right = .ok merged) ↔ left.Agree right) ∧
      (∀ failure, left.merge right = .error failure →
        ∃ id, failure = .duplicateRevisionConflict id) ∧
      (∀ merged, left.merge right = .ok merged → merged.Valid ∧
        ∀ id, merged.revision id = (left.revision id).or (right.revision id)) ∧
      left.merge left = .ok left ∧
      SameResult (left.merge right) (right.merge left)) ∧
    (∀ first second third : ScalarRegister Value, first.Valid → second.Valid → third.Valid →
      SameResult (first.merge second >>= fun joined => joined.merge third)
        (second.merge third >>= fun joined => first.merge joined)) ∧
    ∀ (first : ScalarRegister Value) (others : List (ScalarRegister Value)),
      (∀ member ∈ first :: others, member.Valid) →
      ((∃ merged, others.foldlM merge first = .ok merged) ↔
        ∀ left ∈ first :: others, ∀ right ∈ first :: others, left.Agree right) ∧
      ∀ first' others', (∀ member, member ∈ first :: others ↔ member ∈ first' :: others') →
        SameResult (others.foldlM merge first) (others'.foldlM merge first') := by
  refine ⟨?_, ?_, ?_⟩
  · intro left right leftValid rightValid
    refine ⟨merge_isOk_iff leftValid rightValid,
      fun failure => merge_error leftValid rightValid, ?_,
      merge_self leftValid, merge_comm leftValid rightValid⟩
    intro merged done
    exact ⟨merge_valid done, merge_revision_or done⟩
  · intro first second third firstValid secondValid thirdValid
    exact merge_assoc firstValid secondValid thirdValid
  · intro first others valid
    exact ⟨foldMerge_isOk_iff valid, fun _ _ => foldMerge_sameResult valid⟩

/-- Two registers that share their root merge in both orders. -/
theorem merge_partial_join_shared_root :
    let root : ScalarRegister Nat := empty.put ⟨.ofByte 1, 10, ∅⟩
    let left := root.put ⟨.ofByte 2, 20, {.ofByte 1}⟩
    let right := root.put ⟨.ofByte 3, 30, {.ofByte 1}⟩
    left.Valid ∧ right.Valid ∧ SameResult (left.merge right) (right.merge left) ∧
      SameResult ([right, left].foldlM merge left) ([left].foldlM merge right) := by
  intro root left right
  have leftValid : left.Valid := by decide +kernel
  have rightValid : right.Valid := by decide +kernel
  refine ⟨leftValid, rightValid, ?_, ?_⟩
  · exact (merge_partial_join.1 left right leftValid rightValid).2.2.2.2
  · refine (merge_partial_join.2.2 left [right, left] ?_).2 right [left] ?_
    · intro member listed
      simp only [List.mem_cons, List.not_mem_nil, or_false] at listed
      rcases listed with same | same | same <;> subst same <;> assumption
    · intro member
      simp only [List.mem_cons, List.not_mem_nil, or_false]
      tauto

end PrivateContinuum.Core.ScalarRegister
