import PrivateContinuum.Core.Domain

/-! The invariant that couples register, pending epoch and ledger, kept by every
operation, and the one failure that leaves a changed state. -/

namespace PrivateContinuum.Core

open Std (ExtTreeSet ExtTreeMap)
open PrivateContinuum.Library

variable {Value : Type}

namespace FinalizationLedger

variable {ledger : FinalizationLedger Value} {causal next : ScalarRegister Value} {id : RevisionId}

@[simp] theorem mem_own {other : RevisionId} :
    other ∈ (ledger.own id).localRevisionIds ↔ id = other ∨ other ∈ ledger.localRevisionIds := by
  simp [own, ExtTreeSet.mem_insert]

@[simp] theorem mem_exposed_expose {direct closure : ExtTreeSet RevisionId} {other : RevisionId} :
    other ∈ (ledger.expose direct closure).exposedLocalIds ↔ other ∈ ledger.exposedLocalIds ∨
      (other ∈ closure ∧ other ∈ ledger.localRevisionIds) := by
  simp [expose, ExtTreeSet.mem_insertMany_list]

@[simp] theorem mem_handedOff_expose {direct closure : ExtTreeSet RevisionId} {other : RevisionId} :
    other ∈ (ledger.expose direct closure).handedOffLocalIds ↔ other ∈ ledger.handedOffLocalIds ∨
      (other ∈ direct ∧ other ∈ ledger.localRevisionIds) := by
  simp [expose, ExtTreeSet.mem_insertMany_list]

theorem getElem?_freeze {statement : FinalizedStatement Value} {other : RevisionId} :
    (ledger.freeze id statement).finalized[other]? =
      if id = other then some statement else ledger.finalized[other]? := by
  simp [freeze, ExtTreeMap.getElem?_insert]

@[simp] theorem mem_freeze {statement : FinalizedStatement Value} {other : RevisionId} :
    other ∈ (ledger.freeze id statement).finalized ↔ id = other ∨ other ∈ ledger.finalized := by
  simp [freeze, ExtTreeMap.mem_insert]

theorem Frozen.grow (frozen : ledger.Frozen causal) (grown : causal ≤ next) :
    ledger.Frozen next := by
  intro id statement stored
  obtain ⟨revision, found, same⟩ := frozen id statement stored
  exact ⟨revision, grown id revision found, same⟩

/-- Growing the register keeps everything that `restore` checks. -/
theorem Restorable.grow (restorable : ledger.Restorable causal) (grown : causal ≤ next)
    (valid : next.Valid) : ledger.Restorable next where
  exposedLocal := restorable.exposedLocal
  handedOffExposed := restorable.handedOffExposed
  finalizedLocal := restorable.finalizedLocal
  localKnown := fun id isLocal => ScalarRegister.mem_of_le grown (restorable.localKnown id isLocal)
  causalValid := valid
  frozen := restorable.frozen.grow grown

theorem ExposureClosed.grow (closed : ledger.ExposureClosed causal)
    (restorable : ledger.Restorable causal) (grown : causal ≤ next) :
    ledger.ExposureClosed next where
  exposedFinalized := closed.exposedFinalized
  ancestorsExposed := by
    intro id exposed ancestor isLocal path
    have known := restorable.localKnown id (restorable.exposedLocal id exposed)
    exact closed.ancestorsExposed id exposed ancestor isLocal
      (ScalarRegister.ancestor_of_le restorable.causalValid.closed grown known path)

theorem Restorable.own (restorable : ledger.Restorable causal) (known : id ∈ causal) :
    (ledger.own id).Restorable causal where
  exposedLocal := fun other exposed => mem_own.mpr (Or.inr (restorable.exposedLocal other exposed))
  handedOffExposed := restorable.handedOffExposed
  finalizedLocal := fun other stored =>
    mem_own.mpr (Or.inr (restorable.finalizedLocal other stored))
  localKnown := by
    intro other isLocal
    rcases mem_own.mp isLocal with same | old
    · exact same ▸ known
    · exact restorable.localKnown other old
  causalValid := restorable.causalValid
  frozen := restorable.frozen

/-- A fresh local revision is never below an exposed one. -/
theorem ExposureClosed.own (closed : ledger.ExposureClosed causal)
    (restorable : ledger.Restorable causal) (grown : causal ≤ next) (fresh : id ∉ causal) :
    (ledger.own id).ExposureClosed next where
  exposedFinalized := closed.exposedFinalized
  ancestorsExposed := by
    intro exposedId exposed ancestor isLocal path
    have known := restorable.localKnown exposedId (restorable.exposedLocal exposedId exposed)
    have below := ScalarRegister.ancestor_of_le restorable.causalValid.closed grown known path
    rcases mem_own.mp isLocal with same | old
    · exact absurd (restorable.causalValid.closed.ancestor_mem below) (same ▸ fresh)
    · exact closed.ancestorsExposed exposedId exposed ancestor old below

theorem Restorable.freeze (restorable : ledger.Restorable causal)
    (isLocal : id ∈ ledger.localRevisionIds) {revision : ScalarRevision Value}
    (found : causal.revision id = some revision) :
    (ledger.freeze id (.ofRevision revision)).Restorable causal where
  exposedLocal := restorable.exposedLocal
  handedOffExposed := restorable.handedOffExposed
  finalizedLocal := by
    intro other stored
    rcases mem_freeze.mp stored with same | old
    · exact same ▸ isLocal
    · exact restorable.finalizedLocal other old
  localKnown := restorable.localKnown
  causalValid := restorable.causalValid
  frozen := by
    intro other statement stored
    rw [getElem?_freeze] at stored
    split at stored
    · rename_i same
      cases stored
      exact ⟨revision, same ▸ found, rfl⟩
    · exact restorable.frozen other statement stored

theorem ExposureClosed.freeze (closed : ledger.ExposureClosed causal)
    (statement : FinalizedStatement Value) :
    (ledger.freeze id statement).ExposureClosed causal where
  exposedFinalized := fun other exposed =>
    mem_freeze.mpr (Or.inr (closed.exposedFinalized other exposed))
  ancestorsExposed := closed.ancestorsExposed

theorem checkFinalized_ok_iff {closure : ExtTreeSet RevisionId} :
    ledger.checkFinalized closure = .ok () ↔
      ∀ id ∈ closure, id ∈ ledger.localRevisionIds → id ∈ ledger.finalized := by
  simp [checkFinalized, forM_ok_iff]

theorem Restorable.expose (restorable : ledger.Restorable causal)
    {direct closure : ExtTreeSet RevisionId} (covers : ∀ id ∈ direct, id ∈ closure) :
    (ledger.expose direct closure).Restorable causal where
  exposedLocal := by
    intro id exposed
    rcases mem_exposed_expose.mp exposed with old | ⟨_, isLocal⟩
    · exact restorable.exposedLocal id old
    · exact isLocal
  handedOffExposed := by
    intro id handedOff
    rcases mem_handedOff_expose.mp handedOff with old | ⟨named, isLocal⟩
    · exact mem_exposed_expose.mpr (Or.inl (restorable.handedOffExposed id old))
    · exact mem_exposed_expose.mpr (Or.inr ⟨covers id named, isLocal⟩)
  finalizedLocal := restorable.finalizedLocal
  localKnown := restorable.localKnown
  causalValid := restorable.causalValid
  frozen := restorable.frozen

/-- Exposing a dependency closure covers every local revision below it. -/
theorem ExposureClosed.expose (closed : ledger.ExposureClosed causal)
    {direct closure : ExtTreeSet RevisionId}
    (complete : causal.dependencyClosure direct = .ok closure)
    (finalized : ledger.checkFinalized closure = .ok ()) :
    (ledger.expose direct closure).ExposureClosed causal where
  exposedFinalized := by
    intro id exposed
    rcases mem_exposed_expose.mp exposed with old | ⟨member, isLocal⟩
    · exact closed.exposedFinalized id old
    · exact checkFinalized_ok_iff.mp finalized id member isLocal
  ancestorsExposed := by
    intro id exposed ancestor isLocal path
    rcases mem_exposed_expose.mp exposed with old | ⟨member, _⟩
    · exact mem_exposed_expose.mpr (Or.inl (closed.ancestorsExposed id old ancestor isLocal path))
    · have members := (ScalarRegister.dependencyClosure_ok complete).1
      obtain ⟨start, named, below⟩ := (members id).mp member
      have reached := (members ancestor).mpr ⟨start, named, below.trans path.to_reflTransGen⟩
      exact mem_exposed_expose.mpr (Or.inr ⟨reached, isLocal⟩)

end FinalizationLedger

namespace LocalScalarDomain

/-- The coupling of register, pending epoch and ledger. -/
structure Wellformed (domain : LocalScalarDomain Value) : Prop where
  frontierCurrent : WorkingScalar.FrontierCurrent domain.causal domain.pending
  restorable : domain.finalization.Restorable domain.causal
  exposureClosed : domain.finalization.ExposureClosed domain.causal

variable {domain next : LocalScalarDomain Value}

theorem Wellformed.valid (wellformed : domain.Wellformed) : domain.causal.Valid :=
  wellformed.restorable.causalValid

theorem Wellformed.grow (wellformed : domain.Wellformed) {register : ScalarRegister Value}
    (grown : domain.causal ≤ register) (valid : register.Valid) :
    Wellformed ⟨⟨register, none⟩, domain.finalization⟩ where
  frontierCurrent := fun _ impossible => nomatch impossible
  restorable := wellformed.restorable.grow grown valid
  exposureClosed := wellformed.exposureClosed.grow wellformed.restorable grown

theorem Wellformed.growOwning (wellformed : domain.Wellformed) {register : ScalarRegister Value}
    {id : RevisionId} (grown : domain.causal ≤ register) (valid : register.Valid)
    (fresh : id ∉ domain.causal) (known : id ∈ register) :
    Wellformed ⟨⟨register, none⟩, domain.finalization.own id⟩ where
  frontierCurrent := fun _ impossible => nomatch impossible
  restorable := (wellformed.restorable.grow grown valid).own known
  exposureClosed := wellformed.exposureClosed.own wellformed.restorable grown fresh

theorem mem_put_sealedAs {register : ScalarRegister Value} {epoch : WorkingEpoch Value}
    {id : RevisionId} : id ∈ register.put (epoch.sealedAs id) := by
  simp [WorkingEpoch.sealedAs]

theorem fromCausal_ok_iff {causal : ScalarRegister Value} {initial : LocalScalarDomain Value} :
    fromCausal causal = .ok initial ↔ causal.Valid ∧ initial = ⟨⟨causal, none⟩, .empty⟩ := by
  simp only [fromCausal, WorkingScalar.fromCausal, bind_ok_iff, pure_eq_ok, Except.ok.injEq]
  constructor
  · rintro ⟨_, ⟨_, valid, rfl⟩, rfl⟩
    exact ⟨valid, rfl⟩
  · rintro ⟨valid, rfl⟩
    exact ⟨_, ⟨(), valid, rfl⟩, rfl⟩

theorem fromCausal_wellformed {causal : ScalarRegister Value} {initial : LocalScalarDomain Value}
    (done : fromCausal causal = .ok initial) : initial.Wellformed := by
  obtain ⟨valid, rfl⟩ := fromCausal_ok_iff.mp done
  refine ⟨fun _ impossible => (nomatch impossible), ⟨?_, ?_, ?_, ?_, valid, ?_⟩, ⟨?_, ?_⟩⟩ <;>
    simp [FinalizationLedger.empty, FinalizationLedger.Frozen]

theorem agree_put_sealedAs {register remote : ScalarRegister Value} {epoch : WorkingEpoch Value}
    {id : RevisionId} (fresh : id ∉ register) :
    (register.put (epoch.sealedAs id)).Agree remote ↔ register.Agree remote ∧
      ∀ other, remote.revision id = some other → other = epoch.sealedAs id := by
  have lookup : ∀ known, (register.put (epoch.sealedAs id)).revision known =
      if id = known then some (epoch.sealedAs id) else register.revision known :=
    register.revision_put (epoch.sealedAs id)
  constructor
  · intro agree
    constructor
    · intro known first second found other
      have different : id ≠ known := fun same =>
        fresh (same ▸ ScalarRegister.mem_iff.mpr ⟨first, found⟩)
      exact agree known first second (by rw [lookup, if_neg different, found]) other
    · intro other found
      exact (agree id _ other (by rw [lookup, if_pos rfl]) found).symm
  · rintro ⟨agree, same⟩ known first second found other
    rw [lookup] at found
    split at found
    · rename_i here
      cases found
      exact (same second (here ▸ other)).symm
    · exact agree known first second found other

/-- In a coupled state the pending epoch extends the register under any fresh identity. -/
theorem Wellformed.extends_sealedAs (wellformed : domain.Wellformed) {epoch : WorkingEpoch Value}
    (dirty : domain.pending = some epoch) {id : RevisionId} (fresh : id ∉ domain.causal) :
    domain.causal.Extends (epoch.sealedAs id) where
  fresh := fresh
  known := by
    intro parent listed
    have frontier := wellformed.frontierCurrent epoch dirty
    exact (ScalarRegister.mem_frontierIds.mp (frontier ▸ listed)).1

variable [DecidableEq Value]

/-- Every effect of a step keeps the invariant, failing steps included. -/
theorem Effect.wellformed {outcome : Except CoreError (Response Value)}
    {operation : Operation Value} (effect : domain.Effect operation outcome next)
    (wellformed : domain.Wellformed) : next.Wellformed := by
  cases effect with
  | refused => exact wellformed
  | kept => exact wellformed
  | opened epochId value idle =>
    refine ⟨?_, wellformed.restorable, wellformed.exposureClosed⟩
    rintro epoch ⟨⟩
    rfl
  | updated epoch value dirty =>
    refine ⟨?_, wellformed.restorable, wellformed.exposureClosed⟩
    rintro other ⟨⟩
    exact wellformed.frontierCurrent epoch dirty
  | sealed epoch id dirty extension =>
    exact wellformed.growOwning extension.le_put (extension.valid_put wellformed.valid)
      extension.fresh mem_put_sealedAs
  | observed remote merged idle done =>
    exact wellformed.grow (ScalarRegister.left_le_merge done) (ScalarRegister.merge_valid done)
  | sealedThenObserved epoch id remote merged dirty extension done =>
    have included := ScalarRegister.left_le_merge done
    exact wellformed.growOwning (extension.le_put.trans included) (ScalarRegister.merge_valid done)
      extension.fresh (ScalarRegister.mem_of_le included mem_put_sealedAs)
  | stranded epoch id remote failure valid dirty extension conflict =>
    exact wellformed.grow extension.le_put (extension.valid_put wellformed.valid)
  | froze id revision isLocal found absent =>
    exact ⟨wellformed.frontierCurrent, wellformed.restorable.freeze isLocal found,
      wellformed.exposureClosed.freeze _⟩
  | exposed ids closure closed finalized =>
    refine ⟨wellformed.frontierCurrent, wellformed.restorable.expose fun id named => ?_,
      wellformed.exposureClosed.expose closed finalized⟩
    exact ((ScalarRegister.dependencyClosure_ok closed).1 id).mpr ⟨id, named, .refl⟩

@[simp] theorem run_nil : domain.run [] = domain := rfl

@[simp] theorem run_cons {operation : Operation Value} {rest : List (Operation Value)} :
    domain.run (operation :: rest) = (domain.step operation).2.run rest := rfl

theorem run_append {first second : List (Operation Value)} :
    domain.run (first ++ second) = (domain.run first).run second := by
  simp [run, List.foldl_append]

theorem run_invariant {Holds : LocalScalarDomain Value → Prop}
    (keeps : ∀ current operation, Holds current → Holds (current.step operation).2)
    (initial : Holds domain) (operations : List (Operation Value)) :
    Holds (domain.run operations) := by
  induction operations generalizing domain with
  | nil => exact initial
  | cons operation rest ih => exact ih (keeps domain operation initial)

theorem run_wellformed (wellformed : domain.Wellformed) (operations : List (Operation Value)) :
    (domain.run operations).Wellformed :=
  run_invariant (fun current operation => (current.step_effect operation).wellformed)
    wellformed operations

theorem Reachable.wellformed (reachable : domain.Reachable) : domain.Wellformed := by
  obtain ⟨causal, initial, operations, created, rfl⟩ := reachable
  exact run_wellformed (fromCausal_wellformed created) operations

theorem Reachable.run (reachable : domain.Reachable) (operations : List (Operation Value)) :
    (domain.run operations).Reachable := by
  obtain ⟨causal, initial, before, created, rfl⟩ := reachable
  exact ⟨causal, initial, before ++ operations, created, run_append.symm⟩

theorem Wellformed.restore_snapshot (wellformed : domain.Wellformed) :
    restore domain.snapshot = .ok domain :=
  restore_ok_iff.mpr ⟨rfl, wellformed.frontierCurrent, wellformed.restorable⟩

/-- A valid remote register that conflicts, with the causal register or with the
statement about to be sealed, while an epoch is pending under a fresh identity. -/
def StrandsSeal (domain : LocalScalarDomain Value) : Operation Value → Prop
  | .observeRemote remote (some id) => remote.Valid ∧ id ∉ domain.causal ∧
      ∃ epoch, domain.pending = some epoch ∧ (¬ domain.causal.Agree remote ∨
        ∃ other, remote.revision id = some other ∧ other ≠ epoch.sealedAs id)
  | _ => False

theorem sealEpoch_extends {working : WorkingScalar Value} {epoch : WorkingEpoch Value}
    {id : RevisionId} (dirty : working.pending = some epoch)
    (extension : working.causal.Extends (epoch.sealedAs id)) :
    working.sealEpoch id = (.ok (epoch.sealedAs id),
      ⟨working.causal.put (epoch.sealedAs id), none⟩) := by
  have inserted := (ScalarRegister.insertRevision_ok_iff extension.fresh).mpr ⟨extension, rfl⟩
  have fresh : id ∉ working.causal := extension.fresh
  simp [WorkingScalar.sealEpoch, fresh, dirty, inserted]

/-- A conflicting observation over a pending epoch fails after the seal. -/
theorem step_stranded (wellformed : domain.Wellformed) {operation : Operation Value}
    (strands : domain.StrandsSeal operation) :
    (∃ failure, (domain.step operation).1 = .error failure) ∧
    (domain.step operation).2 ≠ domain := by
  match operation, strands with
  | .observeRemote remote (some id), ⟨remoteValid, fresh, epoch, dirty, conflicts⟩ =>
    have extension := wellformed.extends_sealedAs dirty fresh
    have sealedNow := sealEpoch_extends dirty extension
    have disagree : ¬ (domain.causal.put (epoch.sealedAs id)).Agree remote := by
      rw [agree_put_sealedAs fresh]
      rintro ⟨agree, same⟩
      rcases conflicts with conflict | ⟨other, found, different⟩
      · exact conflict agree
      · exact different (same other found)
    obtain ⟨failure, failed⟩ :
        ∃ failure, (domain.causal.put (epoch.sealedAs id)).merge remote = .error failure := by
      cases merging : (domain.causal.put (epoch.sealedAs id)).merge remote with
      | error failure => exact ⟨failure, rfl⟩
      | ok merged => exact absurd (ScalarRegister.merge_agree merging) disagree
    have stopped : domain.working.observeRemote remote (some id) =
        (.error failure, ⟨domain.causal.put (epoch.sealedAs id), none⟩) := by
      have pendingNow : domain.working.pending = some epoch := dirty
      have mergeNow : (domain.working.causal.put (epoch.sealedAs id)).merge remote =
          .error failure := failed
      simp only [WorkingScalar.observeRemote, remoteValid, pendingNow, sealedNow,
        WorkingScalar.absorbRemote, mergeNow]
      rfl
    simp only [step, observeRemote, stopped]
    refine ⟨⟨failure, rfl⟩, fun same => ?_⟩
    have gone : domain.pending = none := by rw [← same]; rfl
    rw [dirty] at gone
    cases gone

/-- A failed operation leaves the domain as it was, unless it is an observation
that fails in its merge after it has sealed the pending epoch. -/
theorem step_error_unchanged_iff (reachable : domain.Reachable) (operation : Operation Value) :
    (∀ failure, (domain.step operation).1 = .error failure → (domain.step operation).2 = domain) ↔
      ¬ domain.StrandsSeal operation := by
  constructor
  · intro atomic strands
    obtain ⟨⟨failure, failed⟩, changed⟩ := step_stranded reachable.wellformed strands
    exact changed (atomic failure failed)
  · intro harmless failure failed
    have effect := domain.step_effect operation
    simp only [Explained, failed] at effect
    generalize (domain.step operation).2 = next at effect ⊢
    cases effect with
    | refused => rfl
    | stranded epoch id remote failure valid dirty extension conflict =>
      refine absurd ⟨valid, extension.fresh, epoch, dirty, ?_⟩ harmless
      by_contra agrees
      push Not at agrees
      obtain ⟨merged, done⟩ :=
        ScalarRegister.merge_isOk (extension.valid_put reachable.wellformed.valid)
        valid ((agree_put_sealedAs extension.fresh).mpr agrees)
      rw [conflict] at done
      cases done

/-- An observation whose pre-observation identity is taken is refused before it seals:
the pending edit and the ledger stay, although the remote register conflicts. -/
theorem step_error_unchanged_taken_id :
    let causal : ScalarRegister Nat := ScalarRegister.empty.put ⟨.ofByte 1, 10, ∅⟩
    let remote : ScalarRegister Nat := ScalarRegister.empty.put ⟨.ofByte 1, 11, ∅⟩
    let domain := run ⟨⟨causal, none⟩, .empty⟩ [.beginEpoch (.ofByte 7) 20, .sealLocal (.ofByte 2),
      .finalize (.ofByte 2), .handoff [.ofByte 2], .beginEpoch (.ofByte 8) 30]
    let operation : Operation Nat := .observeRemote remote (some (.ofByte 2))
    domain.Reachable ∧ domain.pending.isSome ∧ .ofByte 2 ∈ domain.finalization.handedOffLocalIds ∧
      (∃ failure, (domain.step operation).1 = .error failure) ∧
      ∀ failure, (domain.step operation).1 = .error failure →
      (domain.step operation).2 = domain := by
  intro causal remote domain operation
  have reachable : domain.Reachable := ⟨causal, ⟨⟨causal, none⟩, .empty⟩, _,
    fromCausal_ok_iff.mpr ⟨by decide +kernel, rfl⟩, rfl⟩
  have taken : .ofByte 2 ∈ domain.causal := by decide +kernel
  have refused : (domain.step operation).1 = .error (.revisionAlreadyKnown (.ofByte 2)) := by
    decide +kernel
  refine ⟨reachable, by decide +kernel, by decide +kernel, ⟨_, refused⟩, ?_⟩
  exact (step_error_unchanged_iff reachable operation).mpr fun strands => strands.2.1 taken

/-- A remote statement that differs from a known one: the observation fails, the
pending edit is gone and its revision belongs to nobody. -/
theorem conflicting_observation_consumes_epoch :
    let causal : ScalarRegister Nat := ScalarRegister.empty.put ⟨.ofByte 1, 10, ∅⟩
    let remote : ScalarRegister Nat := ScalarRegister.empty.put ⟨.ofByte 1, 11, ∅⟩
    let domain := run ⟨⟨causal, none⟩, .empty⟩ [.beginEpoch (.ofByte 7) 20]
    let result := domain.step (.observeRemote remote (some (.ofByte 2)))
    domain.Reachable ∧ remote.Valid ∧
      result.1 = .error (.duplicateRevisionConflict (.ofByte 1)) ∧ result.2 ≠ domain ∧
      domain.pending.isSome ∧ result.2.pending = none ∧ .ofByte 2 ∈ result.2.causal ∧
      .ofByte 2 ∉ result.2.finalization.localRevisionIds := by
  intro causal remote domain result
  refine ⟨⟨causal, ⟨⟨causal, none⟩, .empty⟩, [.beginEpoch (.ofByte 7) 20], ?_, rfl⟩, ?_⟩
  · exact fromCausal_ok_iff.mpr ⟨by decide +kernel, rfl⟩
  · decide +kernel

end LocalScalarDomain

end PrivateContinuum.Core
