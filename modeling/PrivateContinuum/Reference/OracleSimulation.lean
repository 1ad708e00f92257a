import PrivateContinuum.Core.Construction
import PrivateContinuum.Core.MergeFrontier
import PrivateContinuum.Library.CausalHistory
import PrivateContinuum.Reference.CausalityInvariant
import PrivateContinuum.Reference.HierarchyInvariant

/-! The registers that store direct parents, of the core and of the reference model,
against the register that stores everything observed. -/

namespace PrivateContinuum.Reference

open Std (ExtTreeSet)
open Relation PrivateContinuum.Library

section Graphs

variable {Value : Type}

/-- What a register of the core says, with direct parents. -/
def scalarGraph (register : Core.ScalarRegister Value) : CausalGraph Core.RevisionId Value :=
  .ofItems register.revision Core.ScalarRevision.value fun revision =>
    {parent | parent ∈ revision.parents}

/-- What a register of the reference model says, with direct parents. -/
def FrontierCausalRegister.graph (register : FrontierCausalRegister Value) :
    CausalGraph String Value :=
  .ofItems register.revisions.get FrontierRevision.value fun revision =>
    {parent | parent ∈ revision.parents}

/-- What the oracle says, with everything observed. -/
def ScalarRegister.graph (register : ScalarRegister Value) : CausalGraph String Value :=
  .ofItems register.revisions.get ScalarRevision.value fun revision =>
    {observed | observed ∈ revision.context}

section Core

variable {register other next merged : Core.ScalarRegister Value}
  {id child parent : Core.RevisionId} {value : Value}

theorem scalarGraph_known : id ∈ (scalarGraph register).known ↔ id ∈ register :=
  CausalGraph.known_ofItems.trans Core.ScalarRegister.mem_iff.symm

theorem scalarGraph_refers :
    (scalarGraph register).Refers parent child ↔ register.Parent child parent :=
  CausalGraph.refers_ofItems

theorem scalarGraph_ancestor :
    (scalarGraph register).Ancestor parent child ↔ register.Ancestor parent child := by
  have edges : (scalarGraph register).Refers = Function.swap register.Parent := by
    funext parent child
    exact propext scalarGraph_refers
  rw [CausalGraph.Ancestor, edges]
  exact transGen_swap

theorem scalarGraph_frontier :
    (scalarGraph register).frontier = {id | id ∈ register.frontierIds} := by
  ext id
  change id ∈ (scalarGraph register).known ∧ _ ↔ id ∈ register.frontierIds
  rw [scalarGraph_known, Core.ScalarRegister.mem_frontierIds]
  refine and_congr_right fun _ => ?_
  constructor
  · intro free descendant path
    obtain ⟨source, first, _⟩ := TransGen.head'_iff.mp (scalarGraph_ancestor.mpr path)
    exact free source first
  · exact fun free source edge => free source (scalarGraph_ancestor.mp (.single edge))

theorem scalarGraph_agree :
    (scalarGraph register).Agree (scalarGraph other) ↔ register.Agree other := by
  apply CausalGraph.agree_ofItems
  intro id first second found held values parents
  have ids : first.id = second.id :=
    (register.keyed id first found).trans (other.keyed id second held).symm
  have listed : first.parents = second.parents :=
    ExtTreeSet.ext_mem fun parent => Set.ext_iff.mp parents parent
  cases first
  cases second
  cases ids
  cases values
  cases listed
  rfl

variable [DecidableEq Value]

theorem scalarGraph_assign (valid : register.Valid) (done : register.assign id value = .ok next) :
    scalarGraph next = (scalarGraph register).put id (value, (scalarGraph register).frontier) := by
  obtain ⟨_, rfl⟩ := valid.assign_extends done
  rw [scalarGraph_frontier]
  have stored : (register.put ⟨id, value, register.frontierIds⟩).revision id =
      some ⟨id, value, register.frontierIds⟩ := by
    rw [Core.ScalarRegister.revision_put, if_pos rfl]
  have kept : ∀ other, other ≠ id →
      (register.put ⟨id, value, register.frontierIds⟩).revision other =
        register.revision other := by
    intro other different
    rw [Core.ScalarRegister.revision_put, if_neg different.symm]
  exact CausalGraph.put_ofItems stored kept

end Core

namespace FrontierCausalRegister

variable {register other next merged : FrontierCausalRegister Value}
  {revisionId child parent : String} {value : Value}

/-- Revisions are stored under their identifiers. -/
def Keyed (register : FrontierCausalRegister Value) : Prop :=
  ∀ revisionId revision, register.revisions.get revisionId = some revision →
    revision.revisionId = revisionId

theorem sound_empty :
    Valid (⟨Dict.empty⟩ : FrontierCausalRegister Value) ∧
    Keyed (⟨Dict.empty⟩ : FrontierCausalRegister Value) := by
  have nothing : ∀ parent child,
      ¬ Names (Dict.empty : Dict String (FrontierRevision Value)) parent child := by
    rintro parent child ⟨revision, found, _⟩
    cases found
  refine ⟨⟨fun parent child edge => absurd edge (nothing parent child), ?_⟩, ?_⟩
  · intro revisionId round
    obtain ⟨_, edge, _⟩ := TransGen.head'_iff.mp round
    exact nothing _ _ edge
  · intro revisionId revision found
    cases found

theorem graph_known : revisionId ∈ register.graph.known ↔ revisionId ∈ register.revisions.keys :=
  CausalGraph.known_ofItems.trans Dict.mem_keys.symm

theorem graph_refers : register.graph.Refers parent child ↔ Names register.revisions parent child :=
  CausalGraph.refers_ofItems

theorem graph_ancestor : register.graph.Ancestor parent child ↔ register.Ancestor parent child := by
  have edges : register.graph.Refers = Names register.revisions := by
    funext parent child
    exact propext graph_refers
  rw [CausalGraph.Ancestor, edges, Ancestor]

theorem graph_frontier :
    register.graph.frontier = {revisionId | revisionId ∈ register.frontier.keys} := by
  ext revisionId
  change revisionId ∈ register.graph.known ∧ _ ↔ revisionId ∈ register.frontier.keys
  rw [graph_known, mem_frontier]
  simp only [graph_refers, not_exists]

theorem graph_agree (keyed : register.Keyed) (also : other.Keyed) :
    register.graph.Agree other.graph ↔ register.revisions.Agree other.revisions := by
  apply CausalGraph.agree_ofItems
  intro revisionId first second found held values parents
  have ids : first.revisionId = second.revisionId :=
    (keyed revisionId first found).trans (also revisionId second held).symm
  have listed : first.parents = second.parents :=
    ExtTreeSet.ext_mem fun parent => Set.ext_iff.mp parents parent
  cases first
  cases second
  cases ids
  cases values
  cases listed
  rfl

variable [DecidableEq Value]

theorem graph_assign (valid : register.Valid) (done : register.assign revisionId value = .ok next) :
    next.graph = register.graph.put revisionId (value, register.graph.frontier) := by
  obtain ⟨_, revision, created, rfl⟩ := (assign_ok_iff valid).mp done
  obtain ⟨_, rfl, listed⟩ := create_ok_iff.mp created
  have named : {parent | parent ∈ revision.parents} = register.graph.frontier := by
    rw [graph_frontier, listed]
    ext parent
    exact ExtTreeSet.mem_ofList.trans (by rw [List.contains_iff_mem]; rfl)
  have stored : (register.revisions.set revisionId revision).get revisionId = some revision := by
    rw [Dict.get_set, if_pos rfl]
  have kept : ∀ other, other ≠ revisionId →
      (register.revisions.set revisionId revision).get other = register.revisions.get other := by
    intro other different
    rw [Dict.get_set, if_neg different.symm]
  rw [← named]
  exact CausalGraph.put_ofItems stored kept

theorem Keyed.assign (keyed : register.Keyed) (valid : register.Valid)
    (done : register.assign revisionId value = .ok next) :
    next.Keyed := by
  obtain ⟨_, revision, created, rfl⟩ := (assign_ok_iff valid).mp done
  intro stored held found
  change (register.revisions.set revisionId revision).get stored = some held at found
  rw [Dict.get_set] at found
  by_cases here : revisionId = stored
  · rw [if_pos here] at found
    cases found
    exact here ▸ (create_ok_iff.mp created).1
  · rw [if_neg here] at found
    exact keyed stored held found

theorem assign_valid (done : register.assign revisionId value = .ok next) : next.Valid := by
  rw [assign, bind_ok_iff] at done
  obtain ⟨_, _, done⟩ := done
  rw [bind_ok_iff] at done
  obtain ⟨_, _, done⟩ := done
  rw [bind_ok_iff] at done
  obtain ⟨_, validated, same⟩ := done
  cases same
  exact validate_ok_iff.mp validated

/-- Where the frontier is made of canonical identifiers, exactly a known identifier is refused. -/
theorem assign_exists_iff (valid : register.Valid) (keyed : register.Keyed)
    (canonical : Canonical revisionId) :
    (∃ next, register.assign revisionId value = .ok next) ↔
    revisionId ∉ register.revisions.keys := by
  constructor
  · rintro ⟨next, done⟩
    exact ((assign_ok_iff valid).mp done).1
  · intro fresh
    have front : ∀ parent, parent ∈ ExtTreeSet.ofList register.frontier.keys ↔
        parent ∈ register.frontier.keys := by
      intro parent
      rw [ExtTreeSet.mem_ofList, List.contains_iff_mem]
    have known : ∀ parent ∈ ExtTreeSet.ofList register.frontier.keys,
        parent ∈ register.revisions.keys :=
      fun parent listed => (mem_frontier.mp ((front parent).mp listed)).1
    obtain ⟨revision, created⟩ : ∃ revision, FrontierRevision.create revisionId value
        (ExtTreeSet.ofList register.frontier.keys) = .ok revision := by
      refine create_exists_iff.mpr ⟨canonical, fun listed => fresh (known revisionId listed),
        fun parent listed => ?_⟩
      obtain ⟨held, found⟩ := Dict.mem_keys.mp (known parent listed)
      exact keyed parent held found ▸ held.canonical
    exact ⟨_, (assign_ok_iff valid).mpr ⟨fresh, revision, created, rfl⟩⟩

theorem merge_exists_iff (valid : register.Valid) (also : other.Valid) :
    (∃ merged, register.merge other = .ok merged) ↔ register.revisions.Agree other.revisions :=
  ⟨fun ⟨_, done⟩ => (Dict.keepAll_ok (merge_ok_iff.mp done).1).1, merge_exists valid also⟩

theorem graph_merge (done : register.merge other = .ok merged) :
    merged.graph = register.graph.union other.graph :=
  CausalGraph.union_ofItems fun _ => Dict.get_keepAll (merge_ok_iff.mp done).1

theorem Keyed.merge (keyed : register.Keyed) (also : other.Keyed)
    (done : register.merge other = .ok merged) : merged.Keyed := by
  intro revisionId revision found
  rcases ((Dict.keepAll_ok (merge_ok_iff.mp done).1).2 revisionId revision).mp
    found with here | there
  · exact keyed revisionId revision here
  · exact also revisionId revision there

end FrontierCausalRegister

namespace ScalarRegister

variable {register other next merged : ScalarRegister Value} {revisionId : String} {value : Value}

theorem graph_known : revisionId ∈ register.graph.known ↔ revisionId ∈ register.revisions.keys :=
  CausalGraph.known_ofItems.trans Dict.mem_keys.symm

theorem graph_agree (historical : register.Historical) (also : other.Historical) :
    register.graph.Agree other.graph ↔ register.revisions.Agree other.revisions := by
  apply CausalGraph.agree_ofItems
  intro revisionId first second found held values observed
  refine ScalarRevision.eq_iff.mp ⟨?_, values, ExtTreeSet.ext_mem fun id =>
    Set.ext_iff.mp observed id⟩
  rw [historical.keyed revisionId first found, also.keyed revisionId second held]

variable [DecidableEq Value]

theorem graph_assign (historical : register.Historical)
    (done : register.assign revisionId value = .ok next) :
    next.graph = register.graph.put revisionId (value, register.graph.known) := by
  obtain ⟨created, _, rfl, observed, grown⟩ := assign_get done
  have named : {observed | observed ∈ created.context} = register.graph.known := by
    ext older
    rw [Set.mem_ofPred_eq, observed, historical.mem_observedContext_iff, graph_known]
  have stored : next.revisions.get revisionId = some created :=
    (grown revisionId created).mpr (Or.inr ⟨rfl, rfl⟩)
  have kept : ∀ older, older ≠ revisionId →
      next.revisions.get older = register.revisions.get older := by
    intro older different
    apply Option.ext
    intro revision
    exact (grown older revision).trans (or_iff_left fun added => different added.1)
  rw [← named]
  exact CausalGraph.put_ofItems stored kept

theorem assign_exists_iff (historical : register.Historical) (canonical : Canonical revisionId) :
    (∃ next, register.assign revisionId value = .ok next) ↔
    revisionId ∉ register.revisions.keys := by
  have observed : revisionId ∈ register.observedContext ↔ revisionId ∈ register.revisions.keys :=
    historical.mem_observedContext_iff
  constructor
  · rintro ⟨next, done⟩ known
    rw [assign, bind_ok_iff] at done
    obtain ⟨created, made, _⟩ := done
    obtain ⟨named, _, context⟩ := ScalarRevision.create_ok made
    exact created.otherObserved (named ▸ context ▸ observed.mpr known)
  · intro fresh
    have unseen : revisionId ∉ register.observedContext := fun listed => fresh (observed.mp listed)
    obtain ⟨own, checked⟩ := checkCanonical_ok_iff.mpr canonical
    obtain ⟨others, passed⟩ :
        ∃ proof, checkAllCanonical register.observedContext.toList = .ok proof := by
      refine checkAllCanonical_ok_iff.mpr fun older member => ?_
      obtain ⟨held, found⟩ :=
        Dict.mem_keys.mp (historical.mem_observedContext_iff.mp (ExtTreeSet.mem_toList.mp member))
      exact historical.keyed older held found ▸ held.canonical
    let revision : ScalarRevision Value :=
      ⟨revisionId, value, register.observedContext, own.down, unseen,
      fun older member => others.down older (ExtTreeSet.mem_toList.mpr member)⟩
    have created : ScalarRevision.create revisionId value register.observedContext =
        .ok revision := by
      unfold ScalarRevision.create
      rw [checked]
      change (if own : revisionId ∈ register.observedContext then _ else _) = _
      rw [dif_neg unseen, passed]
      rfl
    have stored : register.revisions.keep ModelError.revisionCollision (revisionId, revision) =
        .ok (register.revisions.set revisionId revision) := by
      refine Dict.keep_ok_iff.mpr ⟨fun previous held => ?_, rfl⟩
      exact absurd (Dict.mem_keys.mpr ⟨previous, held⟩) fresh
    refine ⟨⟨register.revisions.set revisionId revision⟩, ?_⟩
    rw [assign, created]
    change (Dict.keep _ _ _ >>= fun _ => _) = _
    rw [stored]
    rfl

theorem merge_exists_iff :
    (∃ merged, register.merge other = .ok merged) ↔ register.revisions.Agree other.revisions := by
  have keeps :
      (∃ last, Dict.keepAll ModelError.revisionCollision register.revisions other.revisions =
        .ok last) ↔ _ :=
    Dict.keepAll_exists_iff
  rw [← keeps]
  constructor
  · rintro ⟨merged, done⟩
    rw [merge, bind_ok_iff] at done
    obtain ⟨revisions, kept, _⟩ := done
    exact ⟨revisions, kept⟩
  · rintro ⟨revisions, kept⟩
    exact ⟨⟨revisions⟩, by rw [merge, kept]; rfl⟩

theorem graph_merge (done : register.merge other = .ok merged) :
    merged.graph = register.graph.union other.graph := by
  rw [merge, bind_ok_iff] at done
  obtain ⟨revisions, kept, same⟩ := done
  cases same
  exact CausalGraph.union_ofItems fun _ => Dict.get_keepAll kept

end ScalarRegister

section Materialized

/-- The bytes by which identifiers are ordered. -/
def nameKey (name : String) : Bytes := (canonicalId name).toOption.getD []

theorem nameKey_canonical {name : String} (canonical : Canonical name) :
    nameKey name = canonical.bytes := by
  rw [nameKey, canonical.bytes_eq]
  rfl

theorem latest_greatest {Item : Type} {lookup : String → Option Item} {value : Item → Value}
    {targets : Item → Set String} {front : Dict String Item} {key : Item → Bytes}
    {nameOf : Item → String}
    (fronts : ∀ name item, front.get name = some item ↔
      lookup name = some item ∧ name ∈ (CausalGraph.ofItems lookup value targets).frontier)
    (keyed : ∀ name item, lookup name = some item → nameOf item = name)
    (keys : ∀ item, key item = nameKey (nameOf item)) :
    (CausalGraph.ofItems lookup value targets).Latest nameKey
      ((greatest key front.values).map fun item => (nameOf item, value item)) := by
  have listed : ∀ name ∈ (CausalGraph.ofItems lookup value targets).frontier, ∃ item ∈ front.values,
      nameOf item = name := by
    intro name member
    obtain ⟨item, found⟩ := CausalGraph.known_ofItems.mp member.1
    exact ⟨item, Dict.mem_values.mpr ⟨name, (fronts name item).mpr ⟨found, member⟩⟩,
      keyed name item found⟩
  by_cases present : front.values = []
  · rw [greatest_none_iff.mpr present]
    refine Set.eq_empty_of_forall_notMem fun name member => ?_
    obtain ⟨item, inside, _⟩ := listed name member
    rw [present] at inside
    exact List.not_mem_nil inside
  · obtain ⟨best, found, member, most⟩ := greatest_some key present
    rw [found]
    obtain ⟨name, stored⟩ := Dict.mem_values.mp member
    obtain ⟨held, front⟩ := (fronts name best).mp stored
    have named := keyed name best held
    refine ⟨named ▸ front, ⟨targets best, named ▸ CausalGraph.event_ofItems held⟩,
      fun other inside => ?_⟩
    obtain ⟨item, there, same⟩ := listed other inside
    rw [← same, ← keys, ← keys]
    exact most item there

theorem scalarGraph_latest {register : Core.ScalarRegister Value} :
    (scalarGraph register).Latest Core.LogicalId.bytes
    (register.materializedRevision.map fun revision => (revision.id, revision.value)) := by
  cases found : register.materializedRevision with
  | none =>
    change (scalarGraph register).frontier = ∅
    rw [scalarGraph_frontier]
    exact Set.eq_empty_of_forall_notMem
      (Core.ScalarRegister.materializedRevision_eq_none_iff.mp found)
  | some revision =>
    obtain ⟨stored, front, most⟩ := Core.ScalarRegister.materializedRevision_eq_some_iff.mp found
    refine ⟨?_, ⟨_, CausalGraph.event_ofItems stored⟩, ?_⟩
    · rw [scalarGraph_frontier]
      exact front
    · rw [scalarGraph_frontier]
      exact most

theorem FrontierCausalRegister.graph_latest {register : FrontierCausalRegister Value}
    (keyed : register.Keyed) :
    register.graph.Latest nameKey (register.materializedRevision.map fun revision =>
      (revision.revisionId, revision.value)) := by
  rw [materializedRevision, latest_eq_greatest]
  refine latest_greatest ?_ keyed fun revision => (nameKey_canonical revision.canonical).symm
  intro name revision
  rw [get_frontier]
  refine and_congr_right fun found => ?_
  change _ ↔ name ∈ register.graph.frontier
  rw [graph_frontier, Set.mem_ofPred_eq, mem_frontier]
  exact (and_iff_right (Dict.mem_keys.mpr ⟨revision, found⟩)).symm

theorem ScalarRegister.get_frontier {register : ScalarRegister Value} {name : String}
    {revision : ScalarRevision Value} :
    register.frontier.get name = some revision ↔ register.revisions.get name = some revision ∧
    name ∈ register.graph.frontier := by
  rw [frontier, Dict.get_filter, decide_eq_true_eq]
  refine and_congr_right fun found => ?_
  have refers : name ∈ register.dominated ↔ ∃ source, register.graph.Refers name source := by
    rw [dominated, List.mem_flatMap]
    simp only [Dict.mem_values, ExtTreeSet.mem_toList, graph, CausalGraph.refers_ofItems]
    constructor
    · rintro ⟨later, ⟨source, held⟩, member⟩
      exact ⟨source, later, held, member⟩
    · rintro ⟨source, later, held, member⟩
      exact ⟨later, ⟨source, held⟩, member⟩
  rw [refers, not_exists]
  exact (and_iff_right (graph_known.mpr (Dict.mem_keys.mpr ⟨revision, found⟩))).symm

theorem ScalarRegister.graph_frontier {register : ScalarRegister Value} :
    register.graph.frontier = {name | name ∈ register.frontier.keys} := by
  ext name
  rw [Set.mem_ofPred_eq, Dict.mem_keys]
  simp only [get_frontier, exists_and_right]
  rw [← Dict.mem_keys, ← graph_known]
  exact ⟨fun front => ⟨front.1, front⟩, And.right⟩

theorem ScalarRegister.graph_latest {register : ScalarRegister Value}
    (historical : register.Historical) :
    register.graph.Latest nameKey (register.materializedRevision.map fun revision =>
      (revision.revisionId, revision.value)) :=
  latest_greatest (fun _ _ => get_frontier) historical.keyed fun revision =>
    (nameKey_canonical revision.canonical).symm

end Materialized

end Graphs

/-- Identifiers, with the identity in the core and the hexadecimal text that denotes it. -/
structure Naming (Id : Type) where
  revisionId : Id → Core.RevisionId
  name : Id → String
  distinct : Function.Injective revisionId
  canonical : ∀ id, canonicalId (name id) = .ok (revisionId id).bytes

namespace Naming

variable {Id Value : Type} (naming : Naming Id)

theorem name_injective : Function.Injective naming.name := by
  intro left right same
  have bytes := (naming.canonical left).symm.trans (same ▸ naming.canonical right)
  exact naming.distinct (Core.LogicalId.ext_bytes (Except.ok.inj bytes))

theorem isCanonical (id : Id) : Canonical (naming.name id) := ⟨_, naming.canonical id⟩

section Hexadecimal

/-- The two digits of a byte. -/
def hexDigits (byte : UInt8) :
    List Char := [Nat.digitChar (byte.toNat / 16), Nat.digitChar (byte.toNat % 16)]

theorem hexDigit_digitChar {digit : Nat} (small : digit < 16) :
    hexDigit (Nat.digitChar digit) = some digit ∧
    isSpace (Nat.digitChar digit) = false ∧
    (Nat.digitChar digit).toNat ∉ [9, 10, 11, 12, 13, 32] := by
  interval_cases digit <;> decide

theorem high_lt (byte : UInt8) : byte.toNat / 16 < 16 := by
  have bounded := byte.toNat_lt
  omega

theorem fromHex_hexDigits (bytes : Bytes) : fromHex (bytes.flatMap hexDigits) = some bytes := by
  induction bytes with
  | nil => rfl
  | cons byte rest ih =>
    obtain ⟨high, _, shown⟩ := hexDigit_digitChar (high_lt byte)
    obtain ⟨low, _, _⟩ := hexDigit_digitChar (Nat.mod_lt byte.toNat (Nat.succ_pos 15))
    have whole : UInt8.ofNat (byte.toNat / 16 * 16 + byte.toNat % 16) = byte := by
      rw [Nat.div_add_mod', UInt8.ofNat_toNat]
    change fromHex (Nat.digitChar (byte.toNat / 16) :: Nat.digitChar (byte.toNat % 16) ::
      rest.flatMap hexDigits) = _
    rw [fromHex, if_neg shown, high, low, ih]
    change some (UInt8.ofNat (byte.toNat / 16 * 16 + byte.toNat % 16) :: rest) = _
    rw [whole]

theorem strip_of_digits {text : List Char} (visible : ∀ char ∈ text, isSpace char = false) :
    strip text = text := by
  have keeps : ∀ {text : List Char}, (∀ char ∈ text, isSpace char = false) →
      text.dropWhile isSpace = text := by
    intro text visible
    cases text with
    | nil => rfl
    | cons char rest =>
      rw [List.dropWhile_cons, visible char List.mem_cons_self, if_neg Bool.false_ne_true]
  rw [strip, keeps visible, keeps fun char member => visible char (List.mem_reverse.mp member),
    List.reverse_reverse]

theorem hexDigits_visible {bytes : Bytes} :
    ∀ char ∈ bytes.flatMap hexDigits, isSpace char = false := by
  intro char member
  obtain ⟨byte, _, digit⟩ := List.mem_flatMap.mp member
  rcases List.mem_cons.mp digit with rfl | last
  · exact (hexDigit_digitChar (high_lt byte)).2.1
  · rw [List.mem_singleton.mp last]
    exact (hexDigit_digitChar (Nat.mod_lt byte.toNat (Nat.succ_pos 15))).2.1

theorem hexDigits_length (bytes : Bytes) : (bytes.flatMap hexDigits).length = 2 * bytes.length := by
  induction bytes with
  | nil => rfl
  | cons byte rest ih =>
    rw [List.flatMap_cons, List.length_append, ih, List.length_cons]
    change 2 + 2 * rest.length = _
    omega

/-- Every identity of the core, written in hexadecimal. -/
def hexadecimal : Naming Core.RevisionId where
  revisionId := id
  name := fun id => String.ofList (id.bytes.flatMap hexDigits)
  distinct := Function.injective_id
  canonical := by
    intro id
    have nonempty : id.bytes.flatMap hexDigits ≠ [] := by
      intro nothing
      have counted := hexDigits_length id.bytes
      rw [nothing, id.width] at counted
      cases counted
    have even : (id.bytes.flatMap hexDigits).length % 2 = 0 := by
      rw [hexDigits_length]
      omega
    rw [canonicalId, String.toList_ofList, strip_of_digits hexDigits_visible]
    dsimp only
    rw [if_neg nonempty, if_pos even, fromHex_hexDigits]
    rfl

end Hexadecimal

section Systems

variable [DecidableEq Value]

def scalar : Replicated (Core.ScalarRegister Value) Id Value :=
  ⟨.empty, fun register id value => (register.assign (naming.revisionId id) value).toOption,
    fun register other => (register.merge other).toOption⟩

def compact : Replicated (FrontierCausalRegister Value) Id Value :=
  ⟨⟨Dict.empty⟩, fun register id value => (register.assign (naming.name id) value).toOption,
    fun register other => (register.merge other).toOption⟩

def oracle : Replicated (ScalarRegister Value) Id Value :=
  ⟨.empty, fun register id value => (register.assign (naming.name id) value).toOption,
    fun register other => (register.merge other).toOption⟩

theorem scalar_simulates :
    (naming.scalar : Replicated (Core.ScalarRegister Value) Id Value).Simulates
    (CausalGraph.direct.named naming.revisionId) fun register graph => register.Valid ∧
    scalarGraph register = graph where
  start := ⟨Core.ScalarRegister.empty_valid,
    CausalGraph.ofItems_none Core.ScalarRegister.revision_empty⟩
  assign := by
    rintro register _ id value ⟨valid, rfl⟩
    refine Replicated.rel_toOption ?_ fun next done =>
      ⟨Core.ScalarRegister.insertRevision_valid valid done, scalarGraph_assign valid done⟩
    rw [scalarGraph_known]
    exact valid.assign_ok_iff
  merge := by
    rintro register _ other _ ⟨valid, rfl⟩ ⟨also, rfl⟩
    refine Replicated.rel_toOption ?_ fun merged done => ⟨Core.ScalarRegister.merge_valid done,
      CausalGraph.union_ofItems (Core.ScalarRegister.merge_revision_or done)⟩
    rw [scalarGraph_agree]
    exact Core.ScalarRegister.merge_isOk_iff valid also

theorem compact_simulates :
    (naming.compact : Replicated (FrontierCausalRegister Value) Id Value).Simulates
    (CausalGraph.direct.named naming.name) fun register graph => (register.Valid ∧ register.Keyed) ∧
    register.graph = graph where
  start := ⟨FrontierCausalRegister.sound_empty, CausalGraph.ofItems_none fun _ => rfl⟩
  assign := by
    rintro register _ id value ⟨⟨valid, keyed⟩, rfl⟩
    refine Replicated.rel_toOption ?_ fun next done =>
      ⟨⟨FrontierCausalRegister.assign_valid done, keyed.assign valid done⟩,
      FrontierCausalRegister.graph_assign valid done⟩
    rw [FrontierCausalRegister.graph_known]
    exact FrontierCausalRegister.assign_exists_iff valid keyed (naming.isCanonical id)
  merge := by
    rintro register _ other _ ⟨⟨valid, keyed⟩, rfl⟩ ⟨⟨also, named⟩, rfl⟩
    refine Replicated.rel_toOption ?_ fun merged done =>
      ⟨⟨(FrontierCausalRegister.merge_ok_iff.mp done).2, keyed.merge named done⟩,
      FrontierCausalRegister.graph_merge done⟩
    rw [FrontierCausalRegister.graph_agree keyed named]
    exact FrontierCausalRegister.merge_exists_iff valid also

theorem oracle_simulates : (naming.oracle : Replicated (ScalarRegister Value) Id Value).Simulates
    (CausalGraph.past.named naming.name) fun register graph => register.Historical ∧
    register.graph = graph where
  start := ⟨ScalarRegister.historical_empty, CausalGraph.ofItems_none fun _ => rfl⟩
  assign := by
    rintro register _ id value ⟨historical, rfl⟩
    refine Replicated.rel_toOption ?_ fun next done =>
      ⟨historical.assign done, ScalarRegister.graph_assign historical done⟩
    rw [ScalarRegister.graph_known]
    exact ScalarRegister.assign_exists_iff historical (naming.isCanonical id)
  merge := by
    rintro register _ other _ ⟨historical, rfl⟩ ⟨also, rfl⟩
    refine Replicated.rel_toOption ?_ fun merged done =>
      ⟨historical.merge also done, ScalarRegister.graph_merge done⟩
    rw [ScalarRegister.graph_agree historical also]
    exact ScalarRegister.merge_exists_iff

end Systems

variable {naming}

/-- The registers hold the same revisions, with the same frontier and the same materialized
revision, and the oracle has observed exactly what the others derive from direct parents. -/
structure Alike (naming : Naming Id) (register : Core.ScalarRegister Value)
    (compact : FrontierCausalRegister Value) (oracle : ScalarRegister Value) : Prop where
  named : (∀ stored ∈ register, ∃ id, stored = naming.revisionId id) ∧
    (∀ stored ∈ compact.revisions.keys, ∃ id, stored = naming.name id) ∧
      ∀ stored ∈ oracle.revisions.keys, ∃ id, stored = naming.name id
  values : ∀ id, (register.revision (naming.revisionId id)).map Core.ScalarRevision.value =
      (oracle.revisions.get (naming.name id)).map ScalarRevision.value ∧
    (compact.revisions.get (naming.name id)).map FrontierRevision.value =
      (oracle.revisions.get (naming.name id)).map ScalarRevision.value
  frontier : ∀ id, (naming.revisionId id ∈ register.frontierIds ↔
    naming.name id ∈ oracle.frontier.keys) ∧
    (naming.name id ∈ compact.frontier.keys ↔ naming.name id ∈ oracle.frontier.keys)
  materialized : ∃ latest : Option (Id × Value),
    register.materializedRevision.map (fun revision => (revision.id, revision.value)) =
        latest.map (fun entry => (naming.revisionId entry.1, entry.2)) ∧
      compact.materializedRevision.map (fun revision => (revision.revisionId, revision.value)) =
          latest.map (fun entry => (naming.name entry.1, entry.2)) ∧
        oracle.materializedRevision.map (fun revision => (revision.revisionId, revision.value)) =
          latest.map fun entry => (naming.name entry.1, entry.2)
  observed : ∀ id revision, oracle.revisions.get (naming.name id) = some revision →
    (∀ stored ∈ revision.context, ∃ other, stored = naming.name other) ∧
      ∀ other, (naming.name other ∈ revision.context ↔
        register.isAncestor (naming.revisionId other) (naming.revisionId id) = true) ∧
      (naming.name other ∈ revision.context ↔
        compact.isAncestor (naming.name other) (naming.name id) = .ok true)

theorem alike_of_graph {register : Core.ScalarRegister Value}
    {compact : FrontierCausalRegister Value} {oracle : ScalarRegister Value}
    {graph : CausalGraph Id Value} (valid : compact.Valid) (keyed : compact.Keyed)
    (historical : oracle.Historical)
    (first : (scalarGraph register).Coded naming.revisionId graph)
    (second : compact.graph.Coded naming.name graph)
    (third : oracle.graph.Coded naming.name graph.history) :
    naming.Alike register compact oracle where
  named := ⟨fun stored known => first.named stored (scalarGraph_known.mpr known),
    fun stored known => second.named stored (FrontierCausalRegister.graph_known.mpr known),
    fun stored known => third.named stored (ScalarRegister.graph_known.mpr known)⟩
  values := by
    intro id
    have one := congrArg (Option.map Prod.fst) (first.event id)
    have two := congrArg (Option.map Prod.fst) (second.event id)
    have three := congrArg (Option.map Prod.fst) (third.event id)
    simp only [scalarGraph, FrontierCausalRegister.graph, ScalarRegister.graph, CausalGraph.history,
      CausalGraph.ofItems, Option.map_map] at one two three
    exact ⟨one.trans three.symm, two.trans three.symm⟩
  frontier := by
    intro id
    have one : naming.revisionId id ∈ register.frontierIds ↔ id ∈ graph.frontier := by
      rw [← first.mem_frontier naming.distinct, scalarGraph_frontier]
      rfl
    have two : naming.name id ∈ compact.frontier.keys ↔ id ∈ graph.frontier := by
      rw [← second.mem_frontier naming.name_injective, FrontierCausalRegister.graph_frontier]
      rfl
    have three : naming.name id ∈ oracle.frontier.keys ↔ id ∈ graph.frontier := by
      rw [← CausalGraph.frontier_history, ← third.mem_frontier naming.name_injective,
        ScalarRegister.graph_frontier]
      rfl
    exact ⟨one.trans three.symm, two.trans three.symm⟩
  materialized := by
    have names : ∀ id, nameKey (naming.name id) = (naming.revisionId id).bytes := by
      intro id
      rw [nameKey, naming.canonical]
      rfl
    have injective : Function.Injective fun id => (naming.revisionId id).bytes :=
      fun left right same => naming.distinct (Core.LogicalId.ext_bytes same)
    obtain ⟨latest, one, same⟩ := first.latest naming.distinct (fun _ => rfl) scalarGraph_latest
    obtain ⟨compactLatest, two, alike⟩ :=
      second.latest naming.name_injective names (FrontierCausalRegister.graph_latest keyed)
    obtain ⟨oracleLatest, three, equal⟩ :=
      third.latest naming.name_injective names (ScalarRegister.graph_latest historical)
    have compactSame := two.unique injective one
    have oracleSame := (CausalGraph.latest_history.mp three).unique injective one
    subst compactSame
    subst oracleSame
    exact ⟨_, same, alike, equal⟩
  observed := by
    intro id revision found
    refine ⟨fun stored member => third.named stored
      (ScalarRegister.graph_known.mpr (historical.closed _ revision found stored member)), ?_⟩
    intro other
    have seen : naming.name other ∈ revision.context ↔ graph.Ancestor other id := by
      rw [← CausalGraph.refers_history, ← third.refers_iff naming.name_injective]
      refine Iff.symm (CausalGraph.refers_ofItems.trans ?_)
      rw [found]
      simp
    rw [seen, Core.ScalarRegister.isAncestor_iff, valid.isAncestor_true_iff, ← scalarGraph_ancestor,
      ← FrontierCausalRegister.graph_ancestor, first.ancestor_iff naming.distinct,
      second.ancestor_iff naming.name_injective]
    exact ⟨Iff.rfl, Iff.rfl⟩

/-- Registers that store direct parents take every history of assignments and merges as
the oracle does that stores all ancestors. -/
theorem direct_parents_simulate_oracle [DecidableEq Value] {Agent : Type} [DecidableEq Agent]
    (naming : Naming Id) (steps : List (ReplicaStep Agent Id Value)) :
    (naming.scalar.replay steps).2 = (naming.oracle.replay steps).2 ∧
      (naming.compact.replay steps).2 = (naming.oracle.replay steps).2 ∧ ∀ agent,
        naming.Alike ((naming.scalar.replay steps).1 agent) ((naming.compact.replay steps).1 agent)
          ((naming.oracle.replay steps).1 agent) := by
  have scalar :=
    (naming.scalar_simulates.trans (CausalGraph.coded_direct naming.distinct)).replay steps
  have compact :=
    (naming.compact_simulates.trans (CausalGraph.coded_direct naming.name_injective)).replay steps
  have oracle :=
    (naming.oracle_simulates.trans (CausalGraph.coded_past naming.name_injective)).replay steps
  have simulates : (CausalGraph.direct : Replicated _ Id Value).Simulates CausalGraph.past _ :=
    CausalGraph.direct_simulates_past
  have history := simulates.replay steps
  refine ⟨?_, ?_, fun agent => ?_⟩
  · rw [scalar.1, history.1, oracle.1]
  · rw [compact.1, history.1, oracle.1]
  · obtain ⟨_, ⟨_, rfl⟩, first⟩ := scalar.2 agent
    obtain ⟨_, ⟨⟨valid, keyed⟩, rfl⟩, second⟩ := compact.2 agent
    obtain ⟨_, ⟨historical, rfl⟩, third⟩ := oracle.2 agent
    obtain ⟨_, told⟩ := history.2 agent
    exact alike_of_graph valid keyed historical first second (told ▸ third)

end Naming

end PrivateContinuum.Reference
