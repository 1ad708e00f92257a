import PrivateContinuum.Core.DomainInvariant

/-! What holds along whole runs of a local domain: history only grows, frozen
statements stay frozen, and a sealed revision keeps the ancestry it was given. -/

namespace PrivateContinuum.Core.LocalScalarDomain

open Std (ExtTreeSet ExtTreeMap)
open PrivateContinuum.Library

variable {Value : Type}

/-- Nothing recorded in the first state is lost or rewritten in the second. -/
structure Grows (before after : LocalScalarDomain Value) : Prop where
  causal : before.causal ≤ after.causal
  locals : ∀ id ∈ before.finalization.localRevisionIds, id ∈ after.finalization.localRevisionIds
  finalized : ∀ (id : RevisionId) (statement : FinalizedStatement Value),
    before.finalization.finalized[id]? = some statement →
      after.finalization.finalized[id]? = some statement
  exposed : ∀ id ∈ before.finalization.exposedLocalIds, id ∈ after.finalization.exposedLocalIds
  handedOff : ∀ id ∈ before.finalization.handedOffLocalIds,
    id ∈ after.finalization.handedOffLocalIds

variable {domain next : LocalScalarDomain Value}

theorem Grows.refl (domain : LocalScalarDomain Value) : domain.Grows domain :=
  ⟨le_refl _, fun _ member => member, fun _ _ stored => stored, fun _ member => member,
    fun _ member => member⟩

theorem Grows.trans {last : LocalScalarDomain Value} (first : domain.Grows next)
    (second : next.Grows last) : domain.Grows last where
  causal := first.causal.trans second.causal
  locals := fun id member => second.locals id (first.locals id member)
  finalized := fun id statement stored =>
    second.finalized id statement (first.finalized id statement stored)
  exposed := fun id member => second.exposed id (first.exposed id member)
  handedOff := fun id member => second.handedOff id (first.handedOff id member)

theorem Grows.ofCausal {register : ScalarRegister Value} (pending : Option (WorkingEpoch Value))
    (grown : domain.causal ≤ register) : domain.Grows ⟨⟨register, pending⟩, domain.finalization⟩ :=
  { Grows.refl domain with causal := grown }

theorem Grows.own {register : ScalarRegister Value} (id : RevisionId)
    (grown : domain.causal ≤ register) :
    domain.Grows ⟨⟨register, none⟩, domain.finalization.own id⟩ :=
  { Grows.refl domain with
    causal := grown
    locals := fun _ member => FinalizationLedger.mem_own.mpr (Or.inr member) }

variable [DecidableEq Value]

/-- Every effect of a step grows the history, failing steps included. -/
theorem Effect.grows {operation : Operation Value} {outcome : Except CoreError (Response Value)}
    (effect : domain.Effect operation outcome next) : domain.Grows next := by
  cases effect with
  | refused => exact .refl domain
  | kept => exact .refl domain
  | opened => exact .ofCausal _ (le_refl _)
  | updated => exact .ofCausal _ (le_refl _)
  | sealed epoch id dirty extension => exact .own id extension.le_put
  | observed remote merged idle done => exact .ofCausal none (ScalarRegister.left_le_merge done)
  | sealedThenObserved epoch id remote merged dirty extension done =>
    exact .own id (extension.le_put.trans (ScalarRegister.left_le_merge done))
  | stranded epoch id remote failure valid dirty extension conflict =>
    exact .ofCausal none extension.le_put
  | froze id revision isLocal found absent =>
    refine { Grows.refl domain with finalized := ?_ }
    intro other statement stored
    rw [FinalizationLedger.getElem?_freeze]
    split
    · rename_i same
      rw [← same, absent] at stored
      cases stored
    · exact stored
  | exposed ids closure closed finalized =>
    exact { Grows.refl domain with
      exposed := fun id member => FinalizationLedger.mem_exposed_expose.mpr (Or.inl member)
      handedOff := fun id member => FinalizationLedger.mem_handedOff_expose.mpr (Or.inl member) }

theorem step_grows (operation : Operation Value) : domain.Grows (domain.step operation).2 :=
  (domain.step_effect operation).grows

theorem run_grows (operations : List (Operation Value)) : domain.Grows (domain.run operations) :=
  run_invariant (fun _ operation grown => grown.trans (step_grows operation))
    (.refl domain) operations

theorem Wellformed.validateAgainst (wellformed : domain.Wellformed) :
    domain.finalization.validateAgainst domain.causal = .ok () :=
  FinalizationLedger.validateAgainst_ok_iff.mpr ⟨wellformed.valid, wellformed.restorable.frozen⟩

/-- Ancestry between known revisions does not depend on when it is asked. -/
theorem run_isAncestor (valid : domain.causal.Valid) {ancestor descendant : RevisionId}
    (known : descendant ∈ domain.causal) (operations : List (Operation Value)) :
    (domain.run operations).causal.isAncestor ancestor descendant =
      domain.causal.isAncestor ancestor descendant := by
  rw [Bool.eq_iff_iff, ScalarRegister.isAncestor_iff, ScalarRegister.isAncestor_iff]
  exact ScalarRegister.ancestor_iff_of_le valid.closed (run_grows operations).causal known

theorem finalize_stored {id : RevisionId} {statement : FinalizedStatement Value}
    (returned : (domain.step (.finalize id)).1 = .ok (.finalized statement)) :
    (domain.step (.finalize id)).2.finalization.finalized[id]? = some statement := by
  apply FinalizationLedger.finalize_stored
  simp only [step, finalize] at returned
  cases outcome : (domain.finalization.finalize domain.causal id).1 with
  | error failure => simp [outcome, Except.map] at returned
  | ok other =>
    simp only [Prod.map, outcome, Except.map, Except.ok.injEq, Response.finalized.injEq] at returned
    rw [returned]

theorem Wellformed.finalize_returns (wellformed : domain.Wellformed) {id : RevisionId}
    {statement : FinalizedStatement Value}
    (stored : domain.finalization.finalized[id]? = some statement) :
    (domain.step (.finalize id)).1 = .ok (.finalized statement) := by
  obtain ⟨revision, found, same⟩ := wellformed.restorable.frozen id statement stored
  have isLocal : id ∈ domain.finalization.localRevisionIds := by
    apply wellformed.restorable.finalizedLocal
    rw [ExtTreeMap.mem_iff_isSome_getElem?, stored]
    rfl
  simp [step, finalize, FinalizationLedger.finalize, isLocal, found, stored, same, Except.map]

/-- History is monotone, frozen statements are immutable, and ancestry facts are
stable, over any step and any continuation of a run. -/
theorem history_monotone (reachable : domain.Reachable) :
    (∀ operation, domain.Grows (domain.step operation).2 ∧
      (domain.step operation).2.finalization.validateAgainst (domain.step operation).2.causal =
        .ok ()) ∧
    (∀ id statement, (domain.step (.finalize id)).1 = .ok (.finalized statement) →
      ∀ later, let current := (domain.step (.finalize id)).2.run later
        current.finalization.finalized[id]? = some statement ∧
        (∃ revision, current.causal.revision id = some revision ∧
          statement = .ofRevision revision) ∧
        (current.step (.finalize id)).1 = .ok (.finalized statement)) ∧
    ∀ first ∈ domain.causal, ∀ second ∈ domain.causal, ∀ later,
      (domain.run later).causal.isAncestor first second =
        domain.causal.isAncestor first second := by
  have wellformed := reachable.wellformed
  refine ⟨fun operation => ⟨step_grows operation, ?_⟩, ?_, ?_⟩
  · exact ((domain.step_effect operation).wellformed wellformed).validateAgainst
  · intro id statement returned later current
    have stepped := (domain.step_effect (.finalize id)).wellformed wellformed
    have current_wellformed : current.Wellformed := run_wellformed stepped later
    have grown : (domain.step (.finalize id)).2.Grows current := run_grows later
    have stored := grown.finalized id statement (finalize_stored returned)
    exact ⟨stored, current_wellformed.restorable.frozen id statement stored,
      current_wellformed.finalize_returns stored⟩
  · intro first _ second known later
    exact run_isAncestor wellformed.valid known later

/-- A domain that sealed, finalized and handed off revision 2 meets a remote that
rewrites revision 1, then one that merges, and restarts. -/
theorem history_monotone_handed_off :
    let causal : ScalarRegister Nat := ScalarRegister.empty.put ⟨.ofByte 1, 10, ∅⟩
    let domain := run ⟨⟨causal, none⟩, .empty⟩ [.beginEpoch (.ofByte 7) 20, .sealLocal (.ofByte 2),
      .finalize (.ofByte 2), .handoff [.ofByte 2]]
    let rewriting : ScalarRegister Nat := ScalarRegister.empty.put ⟨.ofByte 1, 11, ∅⟩
    let merging : ScalarRegister Nat := causal.put ⟨.ofByte 3, 30, {.ofByte 1}⟩
    let later : List (Operation Nat) :=
      [.observeRemote rewriting none, .observeRemote merging none, .reopen]
    let current := (domain.step (.finalize (.ofByte 2))).2.run later
    domain.Reachable ∧ .ofByte 2 ∈ domain.finalization.handedOffLocalIds ∧
      (domain.step (.observeRemote rewriting none)).1 =
        .error (.duplicateRevisionConflict (.ofByte 1)) ∧
      domain.Grows (domain.step (.observeRemote rewriting none)).2 ∧ .ofByte 3 ∈ current.causal ∧
      (current.step (.finalize (.ofByte 2))).1 = .ok (.finalized ⟨.ofByte 2, 20, {.ofByte 1}⟩) ∧
      domain.causal.isAncestor (.ofByte 1) (.ofByte 2) = true ∧
      (domain.run later).causal.isAncestor (.ofByte 1) (.ofByte 2) =
        domain.causal.isAncestor (.ofByte 1) (.ofByte 2) := by
  intro causal domain rewriting merging later current
  have reachable : domain.Reachable := ⟨causal, ⟨⟨causal, none⟩, .empty⟩, _,
    fromCausal_ok_iff.mpr ⟨by decide +kernel, rfl⟩, rfl⟩
  obtain ⟨steps, frozen, ancestry⟩ := history_monotone reachable
  have returned : (domain.step (.finalize (.ofByte 2))).1 =
      .ok (.finalized ⟨.ofByte 2, 20, {.ofByte 1}⟩) := by decide +kernel
  have first : .ofByte 1 ∈ domain.causal := by decide +kernel
  have second : .ofByte 2 ∈ domain.causal := by decide +kernel
  exact ⟨reachable, by decide +kernel, by decide +kernel, (steps _).1, by decide +kernel,
    (frozen _ _ returned later).2.2, by decide +kernel, ancestry _ first _ second later⟩

/-- The operation consumes the pending epoch into a revision with the identity,
whether or not it then reports success. -/
def Seals (domain : LocalScalarDomain Value) (operation : Operation Value)
    (id : RevisionId) : Prop :=
  (operation = .sealLocal id ∨ ∃ remote, operation = .observeRemote remote (some id)) ∧
    domain.pending.isSome ∧ (domain.step operation).2.pending = none

/-- While an epoch stays open nothing becomes visible. -/
theorem Effect.causal_of_open {operation : Operation Value}
    {outcome : Except CoreError (Response Value)} (effect : domain.Effect operation outcome next)
    (before : domain.pending.isSome) (after : next.pending.isSome) :
    next.causal = domain.causal := by
  cases effect with
  | refused => rfl
  | kept => rfl
  | opened => rfl
  | updated => rfl
  | sealed => cases after
  | observed remote merged idle done => simp [idle] at before
  | sealedThenObserved => cases after
  | stranded => cases after
  | froze => rfl
  | exposed => rfl

theorem run_causal_of_open {operations : List (Operation Value)}
    (stays : ∀ count ≤ operations.length, (domain.run (operations.take count)).pending.isSome) :
    (domain.run operations).causal = domain.causal := by
  induction operations generalizing domain with
  | nil => rfl
  | cons operation rest ih =>
    have before : domain.pending.isSome := stays 0 (by simp)
    have after : (domain.step operation).2.pending.isSome := stays 1 (by simp)
    rw [run_cons, ih fun count bound => stays (count + 1) (by simpa using bound)]
    exact (domain.step_effect operation).causal_of_open before after

/-- Right after sealing, the ancestors of the new revision are everything that
was visible before the step. -/
theorem Seals.ancestor_iff {operation : Operation Value} {id : RevisionId}
    (seals : domain.Seals operation id) (wellformed : domain.Wellformed) :
    id ∈ (domain.step operation).2.causal ∧
      ∀ other, (domain.step operation).2.causal.Ancestor other id ↔ other ∈ domain.causal := by
  obtain ⟨named, dirty, consumed⟩ := seals
  have effect := domain.step_effect operation
  unfold Explained at effect
  have identified : ∀ epoch : WorkingEpoch Value, domain.pending = some epoch →
      domain.causal.Extends (epoch.sealedAs id) →
        ∀ other, (domain.causal.put (epoch.sealedAs id)).Ancestor other id ↔
        other ∈ domain.causal := by
    intro epoch found extension other
    exact extension.ancestor_frontier_iff wellformed.valid (wellformed.frontierCurrent epoch found)
  generalize (domain.step operation).1 = outcome at effect
  generalize (domain.step operation).2 = next at effect consumed ⊢
  cases effect with
  | refused => simp [consumed] at dirty
  | kept => simp [consumed] at dirty
  | opened => cases consumed
  | updated => cases consumed
  | sealed epoch sealedId found extension =>
    obtain same | ⟨_, impossible⟩ := named
    · cases same
      exact ⟨mem_put_sealedAs, identified epoch found extension⟩
    · cases impossible
  | observed remote merged idle done => simp [idle] at dirty
  | sealedThenObserved epoch sealedId remote merged found extension done =>
    obtain impossible | ⟨_, same⟩ := named
    · cases impossible
    · cases same
      have included := ScalarRegister.left_le_merge done
      refine ⟨ScalarRegister.mem_of_le included mem_put_sealedAs, fun other => ?_⟩
      rw [← identified epoch found extension other]
      exact ScalarRegister.ancestor_iff_of_le (extension.valid_put wellformed.valid).closed included
        mem_put_sealedAs
  | stranded epoch sealedId remote failure valid found extension conflict =>
    obtain impossible | ⟨_, same⟩ := named
    · cases impossible
    · cases same
      exact ⟨mem_put_sealedAs, identified epoch found extension⟩
  | froze => simp [pending] at consumed dirty; simp [consumed] at dirty
  | exposed => simp [pending] at consumed dirty; simp [consumed] at dirty

/-- A sealed revision has exactly the revisions that were visible when its epoch
began as ancestors, right after the seal and forever. -/
theorem sealed_ancestors_iff_visible (reachable : domain.Reachable) {epochId : WorkingEpochId}
    {value : Value} (opened : (domain.step (.beginEpoch epochId value)).1 = .ok .done)
    (between : List (Operation Value))
    (stays : ∀ count ≤ between.length,
      ((domain.step (.beginEpoch epochId value)).2.run (between.take count)).pending.isSome)
    {operation : Operation Value} {id : RevisionId}
    (seals : ((domain.step (.beginEpoch epochId value)).2.run between).Seals operation id)
    (later : List (Operation Value)) (other : RevisionId) :
    ((((domain.step (.beginEpoch epochId value)).2.run between).step operation).2.run
        later).causal.isAncestor other id = true ↔ other ∈ domain.causal := by
  have begun : ((domain.step (.beginEpoch epochId value)).2).causal = domain.causal := by
    have effect := domain.step_effect (.beginEpoch epochId value)
    simp only [Explained, opened] at effect
    generalize (domain.step (.beginEpoch epochId value)).2 = next at effect
    cases effect with
    | kept => rfl
    | opened => rfl
  have stepped := (domain.step_effect (.beginEpoch epochId value)).wellformed reachable.wellformed
  have open' := run_wellformed stepped between
  obtain ⟨known, ancestors⟩ := seals.ancestor_iff open'
  have sealedValid := ((step_effect _ operation).wellformed open').valid
  rw [run_isAncestor sealedValid known, ScalarRegister.isAncestor_iff, ancestors,
    run_causal_of_open stays, begun]

/-- An epoch over one revision, updated once and sealed before an observation. -/
theorem sealed_ancestors_iff_visible_observed :
    let causal : ScalarRegister Nat := ScalarRegister.empty.put ⟨.ofByte 1, 10, ∅⟩
    let remote := causal.put ⟨.ofByte 3, 30, {.ofByte 1}⟩
    let domain : LocalScalarDomain Nat := ⟨⟨causal, none⟩, .empty⟩
    let dirty := (domain.step (.beginEpoch (.ofByte 7) 20)).2.run [.updatePending 21]
    domain.Reachable ∧ dirty.Seals (.observeRemote remote (some (.ofByte 2))) (.ofByte 2) ∧
      ∀ later other, ((dirty.step (.observeRemote remote (some (.ofByte 2)))).2.run
        later).causal.isAncestor other (.ofByte 2) = true ↔ other ∈ domain.causal := by
  intro causal remote domain dirty
  have reachable : domain.Reachable :=
    ⟨causal, domain, [], fromCausal_ok_iff.mpr ⟨by decide +kernel, rfl⟩, rfl⟩
  have seals : dirty.Seals (.observeRemote remote (some (.ofByte 2))) (.ofByte 2) :=
    ⟨Or.inr ⟨remote, rfl⟩, by decide +kernel, by decide +kernel⟩
  refine ⟨reachable, seals, fun later other => ?_⟩
  have opened : (domain.step (.beginEpoch (.ofByte 7) 20)).1 = .ok .done := by decide +kernel
  exact sealed_ancestors_iff_visible reachable opened [.updatePending 21]
    (by decide +kernel) seals later other

end PrivateContinuum.Core.LocalScalarDomain
