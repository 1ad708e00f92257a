import PrivateContinuum.Core.ScalarMerge

namespace PrivateContinuum.Core.ScalarRegister

open PrivateContinuum.Library

variable {Value : Type} [DecidableEq Value] {register next : ScalarRegister Value}
  {added : ScalarRevision Value} {id : RevisionId} {value : Value}

/-- `insert_revision` on the register that it mutates. -/
def insertRevisionInPlace (register : ScalarRegister Value) (added : ScalarRevision Value) :
    Except CoreError Unit × ScalarRegister Value :=
  match register.revision added.id with
  | some existing =>
    if existing = added then (.ok (), register)
    else (.error (.duplicateRevisionConflict added.id), register)
  | none =>
    match register.checkParents added with
    | .ok () => (.ok (), register.put added)
    | .error failure => (.error failure, register)

/-- `assign` on the register that it mutates. -/
def assignInPlace (register : ScalarRegister Value) (id : RevisionId) (value : Value) :
    Except CoreError Unit × ScalarRegister Value :=
  register.insertRevisionInPlace ⟨id, value, register.frontierIds⟩

theorem insertRevisionInPlace_eq (register : ScalarRegister Value) (added : ScalarRevision Value) :
    register.insertRevisionInPlace added = match register.insertRevision added with
      | .ok next => (.ok (), next)
      | .error failure => (.error failure, register) := by
  rw [insertRevisionInPlace, insertRevision]
  cases register.revision added.id with
  | some existing =>
    by_cases same : existing = added
    · simp [same]
    · simp [same]
  | none => cases register.checkParents added <;> rfl

theorem insertRevisionInPlace_ok_iff :
    register.insertRevisionInPlace added = (.ok (), next) ↔
    register.insertRevision added = .ok next := by
  rw [insertRevisionInPlace_eq]
  cases register.insertRevision added with
  | ok other => simp
  | error failure => simp

theorem insertRevisionInPlace_error {failure : CoreError}
    (failed : register.insertRevisionInPlace added = (.error failure, next)) : next = register := by
  rw [insertRevisionInPlace_eq] at failed
  cases outcome : register.insertRevision added with
  | ok other => simp [outcome] at failed
  | error other =>
    rw [outcome] at failed
    exact (congrArg Prod.snd failed).symm

omit [DecidableEq Value] in
theorem put_known (found : register.revision added.id = some added) :
    register.put added = register := by
  apply ext_revision
  intro id
  rw [revision_put]
  by_cases same : added.id = id
  · rw [if_pos same, ← same, found]
  · rw [if_neg same]

/-- The statement may join the register: it is new or known already, and its
parents are there. -/
structure Admits (register : ScalarRegister Value) (added : ScalarRevision Value) : Prop where
  agrees : ∀ existing, register.revision added.id = some existing → existing = added
  known : ∀ parent ∈ added.parents, parent ∈ register

theorem Valid.insertRevision_ok_iff (valid : register.Valid) :
    register.insertRevision added = .ok next ↔
    register.Admits added ∧ next = register.put added := by
  by_cases present : added.id ∈ register
  · obtain ⟨existing, found⟩ := mem_iff.mp present
    rw [insertRevision, found]
    by_cases same : existing = added
    · subst same
      have admits : register.Admits existing :=
        ⟨fun other again => Option.some.inj (again.symm.trans found),
          fun parent member => valid.closed _ _ ⟨existing, found, member⟩⟩
      simp [admits, put_known found, eq_comm]
    · have differs : ¬ register.Admits added := fun admits => same (admits.agrees existing found)
      simp [same, differs]
  · rw [ScalarRegister.insertRevision_ok_iff present]
    constructor
    · rintro ⟨extension, same⟩
      exact ⟨⟨fun existing found => absurd (mem_iff.mpr ⟨existing, found⟩) present,
        extension.known⟩, same⟩
    · rintro ⟨admits, same⟩
      exact ⟨⟨present, admits.known⟩, same⟩

/-- The register holds exactly the listed statements. -/
def Holds (register : ScalarRegister Value) (listed : List (ScalarRevision Value)) : Prop :=
  ∀ id revision, register.revision id = some revision ↔ revision ∈ listed ∧ revision.id = id

section Holding

omit [DecidableEq Value]

variable {listed order : List (ScalarRevision Value)}

theorem holds_statements (register : ScalarRegister Value) :
    register.Holds register.statements := by
  intro id revision
  rw [mem_statements]
  constructor
  · intro found
    have named := register.keyed id revision found
    exact ⟨named ▸ found, named⟩
  · rintro ⟨found, named⟩
    exact named ▸ found

theorem Holds.congr (holds : register.Holds listed)
    (same : ∀ revision, revision ∈ order ↔ revision ∈ listed) :
    register.Holds order := by
  intro id revision
  rw [holds, same]

theorem Holds.unique (holds : register.Holds listed)
    (others : next.Holds listed) : register = next := by
  apply ext_revision
  intro id
  apply Option.ext
  intro revision
  rw [holds, others]

theorem Holds.put (holds : register.Holds listed) (admits : register.Admits added) :
    (register.put added).Holds (listed ++ [added]) := by
  intro id revision
  rw [revision_put, List.mem_append, List.mem_singleton]
  by_cases here : added.id = id
  · rw [if_pos here]
    constructor
    · intro found
      cases found
      exact ⟨Or.inr rfl, here⟩
    · rintro ⟨old | new, named⟩
      · rw [admits.agrees revision ((holds added.id revision).mpr ⟨old, named.trans here.symm⟩)]
      · rw [new]
  · rw [if_neg here, holds]
    constructor
    · rintro ⟨old, named⟩
      exact ⟨Or.inl old, named⟩
    · rintro ⟨old | new, named⟩
      · exact ⟨old, named⟩
      · exact absurd (new ▸ named) here

end Holding

theorem fromRevisions_holds {listed : List (ScalarRevision Value)} :
    fromRevisions listed = .ok register ↔ register.Valid ∧ register.Holds listed :=
  fromRevisions_ok_iff

/-- The insertion checks only the new statement and agrees with the construction
that checks the whole register. -/
theorem Valid.insertRevision_iff_fromRevisions (valid : register.Valid) :
    register.insertRevision added = .ok next ↔
    fromRevisions (register.statements ++ [added]) = .ok next := by
  rw [fromRevisions_holds]
  constructor
  · intro done
    obtain ⟨admits, same⟩ := valid.insertRevision_ok_iff.mp done
    exact ⟨insertRevision_valid valid done, same ▸ register.holds_statements.put admits⟩
  · intro built
    obtain ⟨nextValid, holds⟩ := built
    have stored : next.revision added.id = some added := (holds added.id added).mpr ⟨by simp, rfl⟩
    have included : register ≤ next := by
      intro id revision found
      obtain ⟨listed, named⟩ := (register.holds_statements id revision).mp found
      exact (holds id revision).mpr ⟨List.mem_append_left _ listed, named⟩
    have admits : register.Admits added := by
      constructor
      · intro existing found
        exact Option.some.inj ((included _ _ found).symm.trans stored)
      · intro parent member
        have edge : next.Parent added.id parent := ⟨added, stored, member⟩
        obtain ⟨revision, found⟩ := mem_iff.mp (nextValid.closed added.id parent edge)
        obtain ⟨listed, named⟩ := (holds parent revision).mp found
        rw [List.mem_append, List.mem_singleton] at listed
        rcases listed with old | new
        · exact mem_iff.mpr ⟨revision, (register.holds_statements parent revision).mpr ⟨old, named⟩⟩
        · -- the statement is not among its own parents: that would be a cycle
          rw [← named, new] at edge
          exact absurd (Relation.TransGen.single edge) (nextValid.acyclic added.id)
    exact valid.insertRevision_ok_iff.mpr ⟨admits,
      holds.unique (register.holds_statements.put admits)⟩

/-- Every statement comes after its parents where it is listed first. -/
def ParentsFirst (order : List (ScalarRevision Value)) : Prop :=
  ∀ before revision after, order = before ++ revision :: after → revision ∉ before →
    ∀ parent ∈ revision.parents, ∃ earlier ∈ before, earlier.id = parent

/-- The rest of an order that puts parents first, over what is inserted already. -/
theorem insertAll_ok {order before rest : List (ScalarRevision Value)}
    {current : ScalarRegister Value} (holds : register.Holds order) (first : ParentsFirst order)
    (split : order = before ++ rest) (valid : current.Valid) (reached : current.Holds before) :
    rest.foldlM insertRevision current = .ok register := by
  induction rest generalizing before current with
  | nil =>
    rw [List.append_nil] at split
    rw [reached.unique (split ▸ holds)]
    rfl
  | cons revision rest ih =>
    have admits : current.Admits revision := by
      constructor
      · intro existing found
        obtain ⟨earlier, named⟩ := (reached _ _).mp found
        have one := (holds revision.id existing).mpr ⟨by simp [split, earlier], named⟩
        have other := (holds revision.id revision).mpr ⟨by simp [split], rfl⟩
        exact Option.some.inj (one.symm.trans other)
      · intro parent member
        by_cases repeated : revision ∈ before
        · have found := (reached revision.id revision).mpr ⟨repeated, rfl⟩
          exact valid.closed revision.id parent ⟨revision, found, member⟩
        · obtain ⟨earlier, listed, named⟩ := first before revision rest split repeated parent member
          exact mem_iff.mpr ⟨earlier, (reached parent earlier).mpr ⟨listed, named⟩⟩
    have inserted : current.insertRevision revision = .ok (current.put revision) :=
      valid.insertRevision_ok_iff.mpr ⟨admits, rfl⟩
    rw [List.foldlM_cons, inserted]
    refine ih (?_ : order = (before ++ [revision]) ++ rest) (insertRevision_valid valid inserted)
      (reached.put admits)
    rw [split, List.append_assoc, List.singleton_append]

/-- Every accepted list of statements can be put in an order with parents first:
a linear extension of the ancestor order. -/
theorem exists_parentsFirst {listed : List (ScalarRevision Value)}
    (done : fromRevisions listed = .ok register) :
    ∃ order, order.Perm listed ∧ ParentsFirst order := by
  classical
  obtain ⟨valid, holds⟩ := fromRevisions_holds.mp done
  let below (low high : RevisionId) : Prop := low = high ∨ register.Ancestor low high
  have partialOrder : IsPartialOrder RevisionId below :=
    { refl := fun id => Or.inl rfl
      trans := by
        rintro low middle high (same | first) (also | second)
        · exact Or.inl (same.trans also)
        · exact Or.inr (same ▸ second)
        · exact Or.inr (also ▸ first)
        · exact Or.inr (second.trans first)
      antisymm := by
        rintro low high (same | first) (also | second)
        · exact same
        · exact same
        · exact also.symm
        · exact absurd (first.trans second) (valid.acyclic high) }
  obtain ⟨before, linear, extends_⟩ := extend_partialOrder below
  let sorted := listed.insertionSort fun low high => before low.id high.id
  have permuted : sorted.Perm listed := listed.perm_insertionSort _
  have ordered : sorted.Pairwise fun low high => before low.id high.id := by
    have total : Std.Total fun low high : ScalarRevision Value => before low.id high.id :=
      ⟨fun low high => linear.total low.id high.id⟩
    have transitive : IsTrans (ScalarRevision Value) fun low high => before low.id high.id :=
      ⟨fun low middle high => linear.trans low.id middle.id high.id⟩
    exact List.pairwise_insertionSort _ listed
  refine ⟨sorted, permuted, ?_⟩
  intro earlier revision later split _ parent member
  have inside : revision ∈ sorted := by simp [split]
  have found := (holds revision.id revision).mpr ⟨permuted.mem_iff.mp inside, rfl⟩
  have edge : register.Parent revision.id parent := ⟨revision, found, member⟩
  have path : register.Ancestor parent revision.id := Relation.TransGen.single edge
  obtain ⟨origin, stored⟩ := mem_iff.mp (valid.closed revision.id parent edge)
  obtain ⟨known, named⟩ := (holds parent origin).mp stored
  have placed : origin ∈ sorted := permuted.mem_iff.mpr known
  rw [split, List.mem_append, List.mem_cons] at placed
  rcases placed with ahead | itself | behind
  · exact ⟨origin, ahead, named⟩
  · rw [← named, itself] at path
    exact absurd path (valid.acyclic revision.id)
  · rw [split, List.pairwise_append] at ordered
    have onward := (List.pairwise_cons.mp ordered.2.1).1 origin behind
    have backward : before origin.id revision.id := extends_ _ _ (Or.inr (named ▸ path))
    have same : revision.id = parent := (linear.antisymm _ _ onward backward).trans named
    rw [← same] at path
    exact absurd path (valid.acyclic revision.id)

theorem Valid.assign_ok_iff (valid : register.Valid) :
    (∃ next, register.assign id value = .ok next) ↔ id ∉ register := by
  constructor
  · rintro ⟨next, done⟩ present
    obtain ⟨admits, _⟩ := valid.insertRevision_ok_iff.mp done
    obtain ⟨existing, found⟩ := mem_iff.mp present
    -- the stored statement would have the whole frontier, and so itself, above it
    have same := admits.agrees existing found
    have covers : ∀ top ∈ register.frontierIds, register.Parent id top := by
      intro top member
      exact ⟨existing, found, by rw [same]; exact member⟩
    rcases valid.acyclic.frontier_dominates present with top | ⟨top, member, path⟩
    · exact valid.acyclic id (Relation.TransGen.single (covers id top))
    · exact valid.acyclic id (Relation.TransGen.head (covers top member) path)
  · intro fresh
    have admits : register.Admits ⟨id, value, register.frontierIds⟩ :=
      ⟨fun existing found => absurd (mem_iff.mpr ⟨existing, found⟩) fresh,
        fun parent member => (mem_frontierIds.mp member).1⟩
    exact ⟨_, valid.insertRevision_ok_iff.mpr ⟨admits, rfl⟩⟩

theorem Valid.assign_extends (valid : register.Valid) (done : register.assign id value = .ok next) :
    register.Extends ⟨id, value, register.frontierIds⟩ ∧
    next = register.put ⟨id, value, register.frontierIds⟩ :=
  (ScalarRegister.insertRevision_ok_iff (valid.assign_ok_iff.mp ⟨next, done⟩)).mp done

theorem Valid.assign_above (valid : register.Valid) (done : register.assign id value = .ok next)
    {other : RevisionId} : next.Ancestor other id ↔ other ∈ register := by
  obtain ⟨extension, same⟩ := valid.assign_extends done
  rw [same]
  exact extension.ancestor_frontier_iff valid rfl

theorem Valid.assign_frontier (valid : register.Valid) (done : register.assign id value = .ok next)
    {other : RevisionId} : other ∈ next.frontierIds ↔ other = id := by
  obtain ⟨_, same⟩ := valid.assign_extends done
  have nextValid := insertRevision_valid valid done
  have members : ∀ member, member ∈ next ↔ id = member ∨ member ∈ register := by
    intro member
    rw [same]
    exact mem_put
  rw [mem_frontierIds]
  constructor
  · rintro ⟨member, top⟩
    rcases (members other).mp member with new | old
    · exact new.symm
    · exact absurd ((valid.assign_above done).mpr old) (top id)
  · intro new
    subst new
    refine ⟨(members other).mpr (Or.inl rfl), ?_⟩
    intro descendant path
    rcases (members descendant).mp path.descendant_mem with itself | old
    · exact nextValid.acyclic other (itself ▸ path)
    · exact nextValid.acyclic other (((valid.assign_above done).mpr old).trans path)

/-- Statements inserted one by one and statements taken together give the same
registers; an assignment takes exactly the unknown identities and covers all others. -/
theorem incremental_construction {register : ScalarRegister Value} (valid : register.Valid) :
    (∀ added, (∀ next, register.insertRevisionInPlace added = (.ok (), next) ↔
        fromRevisions (register.statements ++ [added]) = .ok next) ∧
      ∀ failure next, register.insertRevisionInPlace added = (.error failure, next) →
        next = register) ∧
    (∀ (listed : List (ScalarRevision Value)) built, fromRevisions listed = .ok built →
      (∃ order, order.Perm listed ∧ ParentsFirst order) ∧
      ∀ order, (∀ revision, revision ∈ order ↔ revision ∈ listed) → ParentsFirst order →
        order.foldlM insertRevision empty = .ok built) ∧
    ∀ id value, ((∃ next, register.assignInPlace id value = (.ok (), next)) ↔ id ∉ register) ∧
      ∀ next, register.assignInPlace id value = (.ok (), next) →
        (∀ other, other ∈ next.frontierIds ↔ other = id) ∧
          ∀ previous ∈ register, next.isAncestor previous id = true := by
  refine ⟨?_, ?_, ?_⟩
  · intro added
    refine ⟨?_, fun failure next failed => insertRevisionInPlace_error failed⟩
    intro next
    rw [insertRevisionInPlace_ok_iff]
    exact valid.insertRevision_iff_fromRevisions
  · intro listed built done
    refine ⟨exists_parentsFirst done, ?_⟩
    intro order same first
    obtain ⟨_, holds⟩ := fromRevisions_holds.mp done
    have nothing : (empty : ScalarRegister Value).Holds [] := by
      intro id revision
      simp
    exact insertAll_ok (holds.congr same) first (List.nil_append order).symm empty_valid nothing
  · intro id value
    constructor
    · have assignable : (∃ next, register.assign id value = .ok next) ↔ id ∉ register :=
        valid.assign_ok_iff
      rw [← assignable]
      exact exists_congr fun next => insertRevisionInPlace_ok_iff
    · intro next done
      have assigned : register.assign id value = .ok next := insertRevisionInPlace_ok_iff.mp done
      refine ⟨fun other => valid.assign_frontier assigned, ?_⟩
      intro previous known
      exact isAncestor_iff.mpr ((valid.assign_above assigned).mpr known)

/-- A child listed before its parent is accepted, and inserted after it. -/
theorem incremental_construction_child_first :
    [⟨.ofByte 1, (), ∅⟩, ⟨.ofByte 2, (), {.ofByte 1}⟩].foldlM insertRevision
      (empty : ScalarRegister Unit) =
      fromRevisions [⟨.ofByte 2, (), {.ofByte 1}⟩, ⟨.ofByte 1, (), ∅⟩] := by
  have accepted : (fromRevisions [⟨.ofByte 2, (), {.ofByte 1}⟩, ⟨.ofByte 1, (), ∅⟩] :
      Except CoreError (ScalarRegister Unit)).toBool = true := by decide +kernel
  cases done : (fromRevisions [⟨.ofByte 2, (), {.ofByte 1}⟩, ⟨.ofByte 1, (), ∅⟩] :
      Except CoreError (ScalarRegister Unit)) with
  | error failure => rw [done] at accepted; cases accepted
  | ok built =>
    refine ((incremental_construction empty_valid).2.1 _ built done).2 _ ?_ ?_
    · intro revision
      simp [or_comm]
    · intro before revision after split fresh parent member
      rcases before with _ | ⟨first, _ | ⟨second, rest⟩⟩
      · cases split
        simp at member
      · simp only [List.cons_append, List.nil_append, List.cons.injEq] at split
        obtain ⟨ahead, here, _⟩ := split
        subst ahead here
        exact ⟨_, List.mem_singleton_self _, by simpa using member⟩
      · simp at split

end PrivateContinuum.Core.ScalarRegister
