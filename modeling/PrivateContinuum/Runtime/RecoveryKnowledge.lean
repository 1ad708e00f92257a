import PrivateContinuum.Library.Knowledge
import PrivateContinuum.Core.Handoff
import PrivateContinuum.Runtime.CatchUp

namespace PrivateContinuum.Core

open Std (ExtTreeSet ExtTreeMap)
open PrivateContinuum.Library

variable {Value : Type}

/-- The operations that an application edits a domain with. -/
inductive LocalEdit (Value : Type) where
  | beginEpoch (epochId : WorkingEpochId) (value : Value)
  | updatePending (value : Value)
  | sealLocal (revisionId : RevisionId)
  | finalize (revisionId : RevisionId)

def LocalEdit.operation : LocalEdit Value → Operation Value
  | .beginEpoch epochId value => .beginEpoch epochId value
  | .updatePending value => .updatePending value
  | .sealLocal revisionId => .sealLocal revisionId
  | .finalize revisionId => .finalize revisionId

def ScalarRegister.stated (register : ScalarRegister Value) : Set (ScalarRevision Value) :=
  {revision | register.revision revision.id = some revision}

namespace LocalScalarDomain

/-- The statements of a domain; its local revisions are hidden until they are exposed. -/
def knowledge (domain : LocalScalarDomain Value) : Knowledge (ScalarRevision Value) RevisionId where
  knows := domain.causal.stated
  hidden := {id | id ∈ domain.finalization.localRevisionIds ∧
    id ∉ domain.finalization.exposedLocalIds}

abbrev Moved (before after : LocalScalarDomain Value) (gained : Set (ScalarRevision Value))
    (released : Set RevisionId) : Prop :=
  Knowledge.Moves ScalarRevision.id before.knowledge after.knowledge gained released

variable {domain next : LocalScalarDomain Value} {remote merged : ScalarRegister Value}
  {epoch : WorkingEpoch Value} {id : RevisionId}

/-- A sealed epoch is new and hidden. -/
theorem moved_sealed (restorable : domain.finalization.Restorable domain.causal)
    (extension : domain.causal.Extends (epoch.sealedAs id)) :
    domain.Moved ⟨⟨domain.causal.put (epoch.sealedAs id), none⟩,
      domain.finalization.own id⟩ ∅ ∅ where
  grows revision known := extension.le_put revision.id revision known
  gains := Set.empty_subset _
  origin := by
    intro revision known
    change (domain.causal.put (epoch.sealedAs id)).revision revision.id = some revision at known
    rw [ScalarRegister.revision_put] at known
    split at known
    · rename_i same
      change id = revision.id at same
      refine Or.inr (Or.inl ⟨FinalizationLedger.mem_own.mpr (Or.inl same), ?_⟩)
      intro exposed
      rw [← same] at exposed
      exact extension.fresh (restorable.localKnown id (restorable.exposedLocal id exposed))
    · exact Or.inl known
  keeps := by
    intro other hidden
    exact Or.inl ⟨FinalizationLedger.mem_own.mpr (Or.inr hidden.1), hidden.2⟩
  stays := by
    intro revision known hides
    rcases FinalizationLedger.mem_own.mp hides.1 with new | before
    · exact absurd (ScalarRegister.mem_iff.mpr ⟨revision, known⟩) (new ▸ extension.fresh)
    · exact ⟨before, hides.2⟩

variable [DecidableEq Value]

/-- A merge brings in what the other side states. -/
theorem moved_merged (done : domain.causal.merge remote = .ok merged) :
    domain.Moved ⟨⟨merged, none⟩, domain.finalization⟩ remote.stated ∅ where
  grows revision known := ScalarRegister.left_le_merge done revision.id revision known
  gains revision stated := ScalarRegister.right_le_merge done revision.id revision stated
  origin := by
    intro revision known
    rcases (ScalarRegister.merge_revision done revision.id revision).mp known with old | new
    · exact Or.inl old
    · exact Or.inr (Or.inr (Or.inl new))
  keeps _ hidden := Or.inl hidden
  stays _ _ hides := hides

/-- An observation seals first where there is an epoch, and then merges. -/
theorem moved_observeRemote (restorable : domain.finalization.Restorable domain.causal)
    {pre : Option RevisionId} {sealed : Option (ScalarRevision Value)}
    (done : domain.observeRemote remote pre = (.ok sealed, next)) :
    domain.Moved next remote.stated ∅ := by
  unfold observeRemote at done
  rcases domain.working.observeRemote_cases remote pre with
    ⟨failure, refused⟩ | ⟨_, merged, idle, merging, observed⟩ |
    ⟨epoch, id, _, dirty, extension, merged, merging, observed⟩ | ⟨_, _, _, _, _, _,
      failure, _, stopped⟩
  · rw [refused] at done
    cases done
  · rw [observed] at done
    cases done
    exact moved_merged merging
  · have known : (epoch.sealedAs id).id ∈ merged :=
      ScalarRegister.mem_of_le (ScalarRegister.left_le_merge merging) (by simp)
    rw [observed] at done
    simp only [FinalizationLedger.registerLocal_known known] at done
    cases done
    have first := moved_sealed restorable extension
    have second : Moved ⟨⟨domain.causal.put (epoch.sealedAs id), none⟩, domain.finalization.own id⟩
        ⟨⟨merged, none⟩, domain.finalization.own id⟩ remote.stated ∅ := moved_merged merging
    exact (first.trans second).weaken (Set.empty_union _)
      (Set.union_subset (Set.empty_subset _) (Set.empty_subset _))
  · rw [stopped] at done
    cases done

/-- A handoff releases the closure of its selection, all of it known and none of it
hidden any more. -/
theorem moved_handoff (restorable : domain.finalization.Restorable domain.causal)
    {ids : List RevisionId} (done : domain.handoff ids = (.ok (), next)) :
    domain.Moved next ∅ {id | domain.causal.InClosure ids id} ∧
      ∀ id, domain.causal.InClosure ids id → id ∈ domain.causal ∧ id ∉ next.knowledge.hidden := by
  rcases FinalizationLedger.handoff_cases restorable ids with ⟨_, closure, closed, accepted⟩ | ⟨_,
    failure, refused⟩
  · simp only [handoff, accepted, Prod.mk.injEq, true_and] at done
    subst done
    refine ⟨⟨fun revision known => known, Set.empty_subset _,
      fun revision known => Or.inl known, ?_, ?_⟩, ?_⟩
    · intro other hidden
      by_cases inside : domain.causal.InClosure ids other
      · exact Or.inr inside
      · refine Or.inl ⟨hidden.1, ?_⟩
        intro exposed
        rcases FinalizationLedger.mem_exposed_expose.mp exposed with before | ⟨closing, _⟩
        · exact hidden.2 before
        · exact inside ((ScalarRegister.mem_dependencyClosure closed).mp closing)
    · intro revision _ hides
      exact ⟨hides.1,
        fun before => hides.2 (FinalizationLedger.mem_exposed_expose.mpr (Or.inl before))⟩
    · intro id inside
      have closing := (ScalarRegister.mem_dependencyClosure closed).mpr inside
      refine ⟨(ScalarRegister.dependencyClosure_ok closed).2 id closing, ?_⟩
      exact fun hides =>
        hides.2 (FinalizationLedger.mem_exposed_expose.mpr (Or.inr ⟨closing, hides.1⟩))
  · simp only [handoff, refused, Prod.mk.injEq, reduceCtorEq, false_and] at done

/-- An edit adds nothing that is not hidden. -/
theorem moved_edit (restorable : domain.finalization.Restorable domain.causal)
    (edit : LocalEdit Value) :
    domain.Moved (domain.step edit.operation).2 ∅ ∅ := by
  have effect := domain.step_effect edit.operation
  unfold Explained at effect
  generalize (domain.step edit.operation).1 = outcome at effect
  generalize (domain.step edit.operation).2 = next at effect ⊢
  generalize named : edit.operation = operation at effect
  cases effect with
  | refused => exact .refl domain.knowledge
  | kept => exact .refl domain.knowledge
  | opened => exact .refl domain.knowledge
  | updated => exact .refl domain.knowledge
  | sealed epoch id dirty extension => exact moved_sealed restorable extension
  | froze => exact .refl domain.knowledge
  | observed => cases edit <;> cases named
  | sealedThenObserved => cases edit <;> cases named
  | stranded => cases edit <;> cases named
  | exposed => cases edit <;> cases named

end LocalScalarDomain

end PrivateContinuum.Core

namespace PrivateContinuum.Runtime.LocalScalarRecoveryState

open Std (ExtTreeSet ExtTreeMap)
open PrivateContinuum.Library PrivateContinuum.Core PrivateContinuum.Sync

/-- The register of a domain, empty where there is none. -/
def register (recovery : LocalScalarRecoveryState) (key : DomainKey) : ScalarRegister Bytes :=
  ((recovery.get key).map fun snapshot => snapshot.working.causal).getD .empty

/-- A statement in a domain, and where it is. -/
abbrev Statement := DomainKey × ScalarRevision Bytes

abbrev Site := DomainKey × RevisionId

def site (statement : Statement) : Site := (statement.1, statement.2.id)

/-- The statements of all domains together. -/
def knowledge (recovery : LocalScalarRecoveryState) : Knowledge Statement Site where
  knows := {statement | statement.2 ∈ (recovery.register statement.1).stated}
  hidden := {place | ∃ snapshot, recovery.get place.1 = some snapshot ∧
    place.2 ∈ snapshot.finalization.localRevisionIds ∧
    place.2 ∉ snapshot.finalization.exposedLocalIds}

abbrev Moved (before after : LocalScalarRecoveryState) (gained : Set Statement)
    (released : Set Site) : Prop :=
  Knowledge.Moves site before.knowledge after.knowledge gained released

/-- Every local revision of every domain is exposed. -/
def allExposed (recovery : LocalScalarRecoveryState) : Bool :=
  recovery.domains.toList.all fun entry =>
    entry.2.finalization.localRevisionIds.toList.all entry.2.finalization.exposedLocalIds.contains

variable {recovery next : LocalScalarRecoveryState} {key : DomainKey}
  {domain after : LocalScalarDomain Bytes}

theorem hidden_of_allExposed (exposed : recovery.allExposed = true) :
    recovery.knowledge.hidden = ∅ := by
  refine Set.eq_empty_of_forall_notMem ?_
  rintro ⟨key, id⟩ ⟨snapshot, found, mine, unexposed⟩
  have listed := List.all_eq_true.mp exposed (key, snapshot)
    (ExtTreeMap.mem_toList_iff_getElem?_eq_some.mpr found)
  have shown := List.all_eq_true.mp listed id (ExtTreeSet.mem_toList.mpr mine)
  exact unexposed (ExtTreeSet.contains_iff_mem.mp shown)

/-- Containers that know the same have the same registers. -/
theorem register_of_knows (same : recovery.knowledge.knows = next.knowledge.knows)
    (key : DomainKey) :
    recovery.register key = next.register key := by
  have states : ∀ revision, (recovery.register key).revision revision.id = some revision ↔
      (next.register key).revision revision.id = some revision := by
    intro revision
    exact iff_of_eq (congrArg (fun known : Set Statement => (key, revision) ∈ known) same)
  apply ScalarRegister.ext_revision
  intro id
  ext revision
  constructor
  · intro found
    have label := (recovery.register key).keyed id revision found
    subst label
    exact (states revision).mp found
  · intro found
    have label := (next.register key).keyed id revision found
    subst label
    exact (states revision).mpr found

theorem get_replaced {snapshot : LocalScalarSnapshot Bytes}
    (stored : next.domains = recovery.domains.insert key snapshot) (other : DomainKey) :
    next.get other = if key = other then some snapshot else recovery.get other := by
  simp [get, stored, ExtTreeMap.getElem?_insert]

theorem restoreDomain_some (restored : recovery.restoreDomain key = .ok (some domain)) :
    recovery.get key = some domain.snapshot ∧ domain.finalization.Restorable domain.causal := by
  unfold restoreDomain at restored
  split at restored
  · cases restored
  · rename_i snapshot found
    cases done : LocalScalarDomain.restore snapshot with
    | error failure =>
      rw [done] at restored
      cases restored
    | ok other =>
      rw [done] at restored
      cases restored
      obtain ⟨same, _, restorable⟩ := LocalScalarDomain.restore_ok_iff.mp done
      exact ⟨same ▸ found, restorable⟩

/-- One domain of a container moves, the others stay. -/
theorem moved_of_domain {gained : Set (ScalarRevision Bytes)} {released : Set RevisionId}
    (causal : recovery.register key = domain.causal)
    (hidden : ∀ id, (key, id) ∈ recovery.knowledge.hidden ↔ id ∈ domain.knowledge.hidden)
    (stored : next.domains = recovery.domains.insert key after.snapshot)
    (moved : domain.Moved after gained released) :
    recovery.Moved next {statement | statement.1 = key ∧
      statement.2 ∈ gained} {place | place.1 = key ∧ place.2 ∈ released} := by
  have here : next.register key = after.causal := by
    rw [register, get_replaced stored, if_pos rfl]
    rfl
  have there : ∀ other, key ≠ other → next.register other = recovery.register other := by
    intro other apart
    rw [register, get_replaced stored, if_neg apart]
    rfl
  have hides_iff : ∀ id, (key, id) ∈ next.knowledge.hidden ↔ id ∈ after.knowledge.hidden := by
    intro id
    simp [knowledge, get_replaced stored, LocalScalarDomain.knowledge, LocalScalarDomain.snapshot,
      FinalizationLedger.snapshot]
  have hidesStill : ∀ other id, key ≠ other →
      ((other, id) ∈ next.knowledge.hidden ↔ (other, id) ∈ recovery.knowledge.hidden) := by
    intro other id apart
    simp [knowledge, get_replaced stored, apart]
  refine ⟨?_, ?_, ?_, ?_, ?_⟩
  · rintro ⟨other, revision⟩ known
    change revision ∈ (next.register other).stated
    by_cases same : key = other
    · subst same
      rw [here]
      change revision ∈ (recovery.register key).stated at known
      rw [causal] at known
      exact moved.grows known
    · rw [there other same]
      exact known
  · rintro ⟨other, revision⟩ ⟨rfl, gains⟩
    change revision ∈ (next.register other).stated
    rw [here]
    exact moved.gains gains
  · rintro ⟨other, revision⟩ known
    change revision ∈ (next.register other).stated at known
    by_cases same : key = other
    · subst same
      rw [here] at known
      rcases moved.origin revision known with old | hid | gains | releases
      · exact Or.inl (show revision ∈ (recovery.register key).stated from causal ▸ old)
      · exact Or.inr (Or.inl ((hides_iff revision.id).mpr hid))
      · exact Or.inr (Or.inr (Or.inl ⟨rfl, gains⟩))
      · exact Or.inr (Or.inr (Or.inr ⟨rfl, releases⟩))
    · rw [there other same] at known
      exact Or.inl known
  · rintro ⟨other, id⟩ hid
    by_cases same : key = other
    · subst same
      rcases moved.keeps ((hidden id).mp hid) with still | releases
      · exact Or.inl ((hides_iff id).mpr still)
      · exact Or.inr ⟨rfl, releases⟩
    · exact Or.inl ((hidesStill other id same).mpr hid)
  · rintro ⟨other, revision⟩ known hides
    by_cases same : key = other
    · subst same
      change revision ∈ (recovery.register key).stated at known
      rw [causal] at known
      exact (hidden revision.id).mpr (moved.stays revision known ((hides_iff revision.id).mp hides))
    · exact (hidesStill other revision.id same).mp hides

theorem moved_restored {gained : Set (ScalarRevision Bytes)} {released : Set RevisionId}
    (restored : recovery.restoreDomain key = .ok (some domain))
    (replaced : recovery.replaceDomain key after.snapshot = .ok next)
    (moved : domain.Moved after gained released) :
    recovery.Moved next {statement | statement.1 = key ∧
      statement.2 ∈ gained} {place | place.1 = key ∧ place.2 ∈ released} := by
  have found := (restoreDomain_some restored).1
  apply moved_of_domain ?_ ?_ (replaceDomain_ok_iff.mp replaced).2 moved
  · rw [register, found]
    rfl
  · intro id
    simp [knowledge, found, LocalScalarDomain.knowledge, LocalScalarDomain.snapshot,
      FinalizationLedger.snapshot]

theorem moved_inserted {causal : ScalarRegister Bytes}
    (created : LocalScalarDomain.fromCausal causal = .ok domain)
    (inserted : recovery.insertNew key domain.snapshot = .ok next) :
    recovery.Moved next {statement | statement.1 = key ∧ statement.2 ∈ causal.stated} ∅ := by
  obtain ⟨absent, _, stored⟩ := insertNew_ok_iff.mp inserted
  obtain ⟨valid, rfl⟩ := LocalScalarDomain.fromCausal_ok_iff.mp created
  have missing : recovery.get key = none := ExtTreeMap.getElem?_eq_none absent
  have bare : LocalScalarDomain.Moved (⟨⟨.empty, none⟩, .empty⟩ : LocalScalarDomain Bytes)
      ⟨⟨causal, none⟩, .empty⟩ causal.stated ∅ := by
    refine ⟨?_, fun revision stated => stated, fun revision known => Or.inr (Or.inr (Or.inl known)),
      fun id hidden => Or.inl hidden, fun _ _ hides => hides⟩
    intro revision known
    exact ScalarRegister.empty_le causal revision.id revision known
  refine (moved_of_domain ?_ ?_ stored bare).weaken rfl fun place released => released.2
  · rw [register, missing]
    rfl
  · intro id
    simp [knowledge, missing, LocalScalarDomain.knowledge, FinalizationLedger.empty]

/-- What a container without facts of its own to gain or release does to its keys. -/
theorem keysNamed_replaced (named : recovery.KeysNamed) {snapshot : LocalScalarSnapshot Bytes}
    (listed : key.domain ≠ [])
    (stored : next.domains = recovery.domains.insert key snapshot) : next.KeysNamed :=
  keysNamed_of_insert named (DomainKey.create_ok listed) stored

theorem named_of_restored (named : recovery.KeysNamed)
    (restored : recovery.restoreDomain key = .ok (some domain)) :
    key.domain ≠ [] :=
  named key domain.snapshot (restoreDomain_some restored).1

/-- An edit that the application puts back; where the domain is missing nothing happens. -/
def edit (recovery : LocalScalarRecoveryState) (key : DomainKey) (change : LocalEdit Bytes) :
    LocalScalarRecoveryState :=
  match recovery.restoreDomain key with
  | .ok (some domain) =>
    match recovery.replaceDomain key (domain.step change.operation).2.snapshot with
    | .ok next => next
    | .error _ => recovery
  | _ => recovery

theorem moved_edited (change : LocalEdit Bytes) :
    recovery.Moved (recovery.edit key change) ∅ ∅ := by
  unfold edit
  split
  · rename_i domain restored
    split
    · rename_i next replaced
      have moved := LocalScalarDomain.moved_edit (restoreDomain_some restored).2 change
      refine (moved_restored restored replaced moved).weaken ?_ fun place released => released.2
      exact Set.eq_empty_of_forall_notMem fun statement gains => gains.2
    · exact .refl recovery.knowledge
  · exact .refl recovery.knowledge

theorem edited_named (named : recovery.KeysNamed) (change : LocalEdit Bytes) :
    (recovery.edit key change).KeysNamed := by
  unfold edit
  split
  · rename_i domain restored
    split
    · rename_i next replaced
      exact keysNamed_replaced named (named_of_restored named restored)
        (replaceDomain_ok_iff.mp replaced).2
    · exact named
  · exact named

section Handoff

variable {P : Platform} {TrustedError : Type}

/-- The sites of a selection with everything below it. -/
def closures (recovery : LocalScalarRecoveryState)
    (entries : List (DomainKey × ExtTreeSet RevisionId)) : Set Site :=
  {place | ∃ entry ∈ entries, place.1 = entry.1 ∧
    (recovery.register entry.1).InClosure entry.2.toList place.2}

/-- What a handoff of some selections does: registers stay, the closures are released, and
they are known in the open from then on. -/
structure HandsOff (before after : LocalScalarRecoveryState) (released : Set Site) : Prop where
  named : after.KeysNamed
  registers : ∀ key, after.register key = before.register key
  moved : before.Moved after ∅ released
  shown : ∀ place ∈ released, place.2 ∈ before.register place.1 ∧ place ∉ after.knowledge.hidden

theorem handOffDomain_handsOff {entry : DomainKey × ExtTreeSet RevisionId}
    (named : recovery.KeysNamed)
    (done : (handOffDomain recovery entry : Except (RecoveryHandoffStageError P TrustedError) _) =
      .ok next) :
    HandsOff recovery next (recovery.closures [entry]) := by
  simp only [handOffDomain, bind_ok_iff, mapError_ok_iff] at done
  obtain ⟨restored, found, done⟩ := done
  cases restored with
  | none => cases done
  | some domain =>
    simp only [bind_ok_iff, mapError_ok_iff, Prod.exists, onSuccess_ok_iff] at done
    obtain ⟨after, _, handed, replaced⟩ := done
    obtain ⟨stored, restorable⟩ := restoreDomain_some found
    have same : recovery.register entry.1 = domain.causal := by
      rw [register, stored]
      rfl
    have working : after.working = domain.working := by
      simp only [LocalScalarDomain.handoff, Prod.mk.injEq] at handed
      exact handed.2 ▸ rfl
    have single : recovery.closures [entry] = {place | place.1 = entry.1 ∧
        domain.causal.InClosure entry.2.toList place.2} := by
      simp [closures, same]
    obtain ⟨_, inserted⟩ := replaceDomain_ok_iff.mp replaced
    obtain ⟨moved, shown⟩ := LocalScalarDomain.moved_handoff restorable handed
    rw [single]
    refine ⟨keysNamed_replaced named (named_of_restored named found) inserted, ?_, ?_, ?_⟩
    · intro other
      rw [register, get_replaced inserted]
      split
      · rename_i here
        rw [← here, same]
        exact congrArg WorkingScalar.causal working
      · rfl
    · refine (moved_restored found replaced moved).weaken ?_ fun _ released => released
      exact Set.eq_empty_of_forall_notMem fun statement gains => gains.2
    · rintro ⟨key, id⟩ ⟨here, inside⟩
      change key = entry.1 at here
      subst here
      obtain ⟨known, open_⟩ := shown id inside
      refine ⟨same ▸ known, ?_⟩
      rintro ⟨snapshot, lookup, hides⟩
      rw [get_replaced inserted, if_pos rfl, Option.some.injEq] at lookup
      subst lookup
      exact open_ hides

theorem closures_cons (entry : DomainKey × ExtTreeSet RevisionId)
    (rest : List (DomainKey × ExtTreeSet RevisionId)) :
    recovery.closures (entry :: rest) = recovery.closures [entry] ∪ recovery.closures rest := by
  ext place
  simp [closures]

/-- A staged handoff releases the closures of all its selections. -/
theorem handOff_handsOff {entries : List (DomainKey × ExtTreeSet RevisionId)}
    (named : recovery.KeysNamed)
    (done : entries.foldlM (handOffDomain : _ → _ →
      Except (RecoveryHandoffStageError P TrustedError) _) recovery = .ok next) :
    HandsOff recovery next (recovery.closures entries) := by
  induction entries generalizing recovery with
  | nil =>
    have nothing : recovery.closures [] = ∅ := by simp [closures]
    rw [nothing]
    cases done
    exact ⟨named, fun _ => rfl, .refl _, fun _ impossible => impossible.elim⟩
  | cons entry rest ih =>
    rw [List.foldlM_cons, bind_ok_iff] at done
    obtain ⟨middle, stepped, finished⟩ := done
    have one := handOffDomain_handsOff named stepped
    have two := ih one.named finished
    have closes : middle.closures rest = recovery.closures rest := by
      simp only [closures, one.registers]
    rw [closures_cons]
    rw [closes] at two
    refine ⟨two.named, fun key => (two.registers key).trans (one.registers key), ?_, ?_⟩
    · exact (one.moved.trans two.moved).weaken (Set.union_empty _) (Set.Subset.refl _)
    · rintro place (early | late)
      · obtain ⟨known, shown⟩ := one.shown place early
        refine ⟨known, fun hides => shown ?_⟩
        obtain ⟨revision, found⟩ := ScalarRegister.mem_iff.mp (one.registers place.1 ▸ known)
        have label := (middle.register place.1).keyed place.2 revision found
        have stays := two.moved.stays (place.1, revision)
        rw [site, label] at stays
        exact stays (show (middle.register place.1).revision revision.id = some revision from
          label ▸ found) hides
      · obtain ⟨known, shown⟩ := two.shown place late
        exact ⟨one.registers place.1 ▸ known, shown⟩

end Handoff

section Receiving

variable {P : Platform} {TrustedError : Type} {pre : ExtTreeMap DomainKey RevisionId}
  {observation last : Observation}

/-- The statements of some projected domains. -/
def statedBy (entries : List (DomainKey × ScalarRegister Bytes)) : Set Statement :=
  {statement | ∃ entry ∈ entries, statement.1 = entry.1 ∧ statement.2 ∈ entry.2.stated}

theorem statedBy_cons (entry : DomainKey × ScalarRegister Bytes)
    (rest : List (DomainKey × ScalarRegister Bytes)) :
    statedBy (entry :: rest) = {statement | statement.1 = entry.1 ∧ statement.2 ∈ entry.2.stated} ∪
      statedBy rest := by
  ext statement
  simp [statedBy]

/-- One observed domain: its statements are gained, and its identities are the evidence. -/
theorem observeProjected_moved {entry : DomainKey × ScalarRegister Bytes}
    (named : observation.recovery.KeysNamed) (listed : entry.1.domain ≠ [])
    (done : (observeProjected pre observation entry :
      Except (ScalarRecoveryCatchUpError P TrustedError) _) = .ok last) :
    last.recovery.KeysNamed ∧
      observation.recovery.Moved last.recovery {statement | statement.1 = entry.1 ∧
        statement.2 ∈ entry.2.stated} ∅ ∧
      last.observedRevisionIds = observation.observedRevisionIds.insert entry.1 entry.2.ids := by
  simp only [observeProjected, bind_ok_iff, mapError_ok_iff] at done
  obtain ⟨restored, found, done⟩ := done
  cases restored with
  | none =>
    simp only [bind_ok_iff, mapError_ok_iff, pure_eq_ok, Except.ok.injEq] at done
    obtain ⟨domain, created, recovery, inserted, rfl⟩ := done
    exact ⟨keysNamed_replaced named listed (insertNew_ok_iff.mp inserted).2.2,
      moved_inserted created inserted, rfl⟩
  | some domain =>
    simp only [bind_ok_iff, mapError_ok_iff, Prod.exists, onSuccess_ok_iff, pure_eq_ok,
      Except.ok.injEq] at done
    obtain ⟨after, sealed, observed, recovery, replaced, rfl⟩ := done
    have moved := LocalScalarDomain.moved_observeRemote (restoreDomain_some found).2 observed
    refine ⟨keysNamed_replaced named listed (replaceDomain_ok_iff.mp replaced).2, ?_, rfl⟩
    exact (moved_restored found replaced moved).weaken rfl fun _ released => released.2

/-- All observed domains: what they state is gained, and the evidence is theirs. -/
theorem observeAll_moved {entries : List (DomainKey × ScalarRegister Bytes)}
    (named : observation.recovery.KeysNamed) (listed : ∀ entry ∈ entries, entry.1.domain ≠ [])
    (done : entries.foldlM (observeProjected pre : _ → _ →
      Except (ScalarRecoveryCatchUpError P TrustedError) _) observation = .ok last) :
    last.recovery.KeysNamed ∧ observation.recovery.Moved last.recovery (statedBy entries) ∅ ∧
      ∀ (key : DomainKey) ids, last.observedRevisionIds[key]? = some ids →
        observation.observedRevisionIds[key]? = some ids ∨ ∃ entry ∈ entries, entry.1 = key ∧
          ids = entry.2.ids := by
  induction entries generalizing observation with
  | nil =>
    cases done
    refine ⟨named, (Knowledge.Moves.refl _).weaken ?_ (Set.Subset.refl _),
      fun key ids found => Or.inl found⟩
    simp [statedBy]
  | cons entry rest ih =>
    rw [List.foldlM_cons, bind_ok_iff] at done
    obtain ⟨next, stepped, finished⟩ := done
    obtain ⟨keyed, first, recorded⟩ :=
      observeProjected_moved named (listed entry List.mem_cons_self) stepped
    obtain ⟨keyedLast, second, evidence⟩ :=
      ih keyed (fun other member => listed other (List.mem_cons_of_mem entry member)) finished
    refine ⟨keyedLast, ?_, ?_⟩
    · rw [statedBy_cons]
      exact (first.trans second).weaken rfl
        (Set.union_subset (Set.Subset.refl _) (Set.Subset.refl _))
    · intro key ids found
      rcases evidence key ids found with early | ⟨other, member, same, exactly⟩
      · rw [recorded, ExtTreeMap.getElem?_insert] at early
        split at early
        · rename_i here
          cases early
          exact Or.inr ⟨entry, List.mem_cons_self, Std.LawfulEqCmp.eq_of_compare here, rfl⟩
        · exact Or.inl early
      · exact Or.inr ⟨other, List.mem_cons_of_mem entry member, same, exactly⟩

end Receiving

end PrivateContinuum.Runtime.LocalScalarRecoveryState
