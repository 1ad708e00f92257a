import PrivateContinuum.Core.DomainInvariant

namespace PrivateContinuum.Core

open Std (ExtTreeSet ExtTreeMap)
open PrivateContinuum.Library

variable {Value : Type}

/-- The reflexive-transitive ancestor closure of some revisions. -/
def ScalarRegister.InClosure (causal : ScalarRegister Value) (ids : List RevisionId)
    (id : RevisionId) : Prop :=
  ∃ start ∈ ids, id = start ∨ causal.Ancestor id start

theorem ScalarRegister.mem_dependencyClosure {causal : ScalarRegister Value} {ids : List RevisionId}
    {closure : ExtTreeSet RevisionId} (done : causal.dependencyClosure (.ofList ids) = .ok closure)
    {id : RevisionId} : id ∈ closure ↔ causal.InClosure ids id := by
  rw [(dependencyClosure_ok done).1]
  simp only [InClosure, ExtTreeSet.mem_ofList, List.contains_iff_mem,
    Relation.reflTransGen_iff_eq_or_transGen]
  rfl

namespace FinalizationLedger

variable [DecidableEq Value] {ledger : FinalizationLedger Value} {causal : ScalarRegister Value}
  {ids : List RevisionId}

/-- What a handoff demands of the selected revisions. -/
structure MayHandOff (ledger : FinalizationLedger Value) (causal : ScalarRegister Value)
    (ids : List RevisionId) : Prop where
  known : ∀ id ∈ ids, id ∈ causal
  finalized : ∀ id ∈ ledger.localRevisionIds, causal.InClosure ids id → id ∈ ledger.finalized

/-- A handoff on a restorable ledger: refused without effect, or exposed. -/
theorem handoff_cases (restorable : ledger.Restorable causal) (ids : List RevisionId) :
    (ledger.MayHandOff causal ids ∧
        ∃ closure, causal.dependencyClosure (.ofList ids) = .ok closure ∧
        ledger.handoff causal ids = (.ok (), ledger.expose (.ofList ids) closure)) ∨
      ¬ ledger.MayHandOff causal ids ∧
        ∃ failure, ledger.handoff causal ids = (.error failure, ledger) := by
  have validated : ledger.validateAgainst causal = .ok () :=
    validateAgainst_ok_iff.mpr ⟨restorable.causalValid, restorable.frozen⟩
  cases closed : causal.dependencyClosure (.ofList ids) with
  | error failure =>
    right
    constructor
    · intro may
      have named : ∀ id ∈ ExtTreeSet.ofList ids, id ∈ causal := by
        intro id member
        exact may.known id (by simpa using member)
      obtain ⟨closure, done⟩ := restorable.causalValid.closed.dependencyClosure_isOk named
      rw [closed] at done
      cases done
    · refine ⟨failure, ?_⟩
      simp only [handoff, validated, closed]
      rfl
  | ok closure =>
    have known : ∀ id ∈ ids, id ∈ causal := by
      intro id member
      apply (ScalarRegister.dependencyClosure_ok closed).2
      exact (ScalarRegister.mem_dependencyClosure closed).mpr ⟨id, member, Or.inl rfl⟩
    have eligible : ledger.checkFinalized closure = .ok () ↔ ledger.MayHandOff causal ids := by
      rw [checkFinalized_ok_iff]
      constructor
      · intro finalized
        refine ⟨known, ?_⟩
        intro id isLocal inside
        exact finalized id ((ScalarRegister.mem_dependencyClosure closed).mpr inside) isLocal
      · intro may id member isLocal
        exact may.finalized id isLocal ((ScalarRegister.mem_dependencyClosure closed).mp member)
    by_cases may : ledger.MayHandOff causal ids
    · left
      refine ⟨may, closure, rfl, ?_⟩
      have finalized := eligible.mpr may
      simp only [handoff, validated, closed, bind, Except.bind, finalized, pure, Except.pure]
    · right
      refine ⟨may, ?_⟩
      cases checked : ledger.checkFinalized closure with
      | ok done => exact absurd (eligible.mp checked) may
      | error failure =>
        refine ⟨failure, ?_⟩
        simp only [handoff, validated, closed, bind, Except.bind, checked]

omit [DecidableEq Value] in
theorem ext_ledger {left right : FinalizationLedger Value}
    (locals : left.localRevisionIds = right.localRevisionIds)
    (finalized : left.finalized = right.finalized)
    (exposed : ∀ id, id ∈ left.exposedLocalIds ↔ id ∈ right.exposedLocalIds)
    (handedOff : ∀ id, id ∈ left.handedOffLocalIds ↔ id ∈ right.handedOffLocalIds) :
    left = right := by
  have sameExposed : left.exposedLocalIds = right.exposedLocalIds := ExtTreeSet.ext_mem exposed
  have sameHandedOff : left.handedOffLocalIds = right.handedOffLocalIds :=
    ExtTreeSet.ext_mem handedOff
  cases left
  cases right
  cases locals
  cases finalized
  cases sameExposed
  cases sameHandedOff
  rfl

end FinalizationLedger

namespace LocalScalarDomain

variable [DecidableEq Value] {domain next : LocalScalarDomain Value} {ids : List RevisionId}

/-- The ledger after a handoff: the closure is exposed, the selection handed off, and
nothing else is touched. -/
structure HandedOff (domain : LocalScalarDomain Value) (ids : List RevisionId)
    (next : LocalScalarDomain Value) : Prop where
  working : next.working = domain.working
  locals : next.finalization.localRevisionIds = domain.finalization.localRevisionIds
  finalized : next.finalization.finalized = domain.finalization.finalized
  exposed : ∀ id, id ∈ next.finalization.exposedLocalIds ↔
    id ∈ domain.finalization.exposedLocalIds ∨
    (domain.causal.InClosure ids id ∧ id ∈ domain.finalization.localRevisionIds)
  handedOff : ∀ id, id ∈ next.finalization.handedOffLocalIds ↔
    id ∈ domain.finalization.handedOffLocalIds ∨
    (id ∈ ids ∧ id ∈ domain.finalization.localRevisionIds)

theorem handoff_cases (reachable : domain.Reachable) (ids : List RevisionId) :
    (domain.finalization.MayHandOff domain.causal ids ∧
        ∃ next, domain.handoff ids = (.ok (), next) ∧ domain.HandedOff ids next) ∨
      ¬ domain.finalization.MayHandOff domain.causal ids ∧
        ∃ failure, domain.handoff ids = (.error failure, domain) := by
  rcases FinalizationLedger.handoff_cases reachable.wellformed.restorable ids with
    ⟨may, closure, closed, accepted⟩ | ⟨refused, failure, unchanged⟩
  · refine Or.inl ⟨may, ⟨domain.working, domain.finalization.expose (.ofList ids) closure⟩, ?_,
      rfl, rfl, rfl, ?_, ?_⟩
    · simp only [handoff, accepted]
    · intro id
      rw [FinalizationLedger.mem_exposed_expose, ScalarRegister.mem_dependencyClosure closed]
    · intro id
      simp only [FinalizationLedger.mem_handedOff_expose, ExtTreeSet.mem_ofList,
        List.contains_iff_mem]
  · refine Or.inr ⟨refused, failure, ?_⟩
    simp only [handoff, unchanged]

theorem handedOff_of_ok (reachable : domain.Reachable)
    (accepted : domain.handoff ids = (.ok (), next)) :
    domain.finalization.MayHandOff domain.causal ids ∧ domain.HandedOff ids next := by
  rcases handoff_cases reachable ids with ⟨may, after, done, handedOff⟩ | ⟨_, failure, refused⟩
  · rw [accepted] at done
    cases done
    exact ⟨may, handedOff⟩
  · rw [accepted] at refused
    cases refused

theorem handoff_reachable (reachable : domain.Reachable) {outcome : Except CoreError Unit}
    (done : domain.handoff ids = (outcome, next)) : next.Reachable := by
  have later := reachable.run [.handoff ids]
  have same : domain.run [.handoff ids] = next := by
    change ((domain.handoff ids).map _ id).2 = next
    rw [done]
    rfl
  rwa [same] at later

omit [DecidableEq Value] in
theorem inClosure_append {causal : ScalarRegister Value} {more : List RevisionId}
    {id : RevisionId} :
    causal.InClosure (ids ++ more) id ↔ causal.InClosure ids id ∨ causal.InClosure more id := by
  simp only [ScalarRegister.InClosure, List.mem_append, or_and_right, exists_or]

/-- A handoff is accepted exactly when its selection is known and every local revision
below it is finalized; it then exposes the closure and hands off the selection, and a
refusal changes nothing. -/
theorem handoff_exact (reachable : domain.Reachable) (ids : List RevisionId) :
    ((∃ next, domain.handoff ids = (.ok (), next)) ↔ (∀ id ∈ ids, id ∈ domain.causal) ∧
      ∀ id ∈ domain.finalization.localRevisionIds, domain.causal.InClosure ids id →
        id ∈ domain.finalization.finalized) ∧
    (∀ next, domain.handoff ids = (.ok (), next) → domain.HandedOff ids next) ∧
    (∀ failure next, domain.handoff ids = (.error failure, next) → next = domain) ∧
    ∀ more first second both, domain.handoff ids = (.ok (), first) →
      first.handoff more = (.ok (), second) →
      domain.handoff (ids ++ more) = (.ok (), both) → second = both := by
  refine ⟨?_, ?_, ?_, ?_⟩
  · constructor
    · intro accepted
      obtain ⟨next, done⟩ := accepted
      have may := (handedOff_of_ok reachable done).1
      exact ⟨may.known, may.finalized⟩
    · intro conditions
      rcases handoff_cases reachable ids with ⟨_, next, done, _⟩ | ⟨refused, _⟩
      · exact ⟨next, done⟩
      · exact absurd ⟨conditions.1, conditions.2⟩ refused
  · exact fun next done => (handedOff_of_ok reachable done).2
  · intro failure next refused
    rcases handoff_cases reachable ids with ⟨_, after, done, _⟩ | ⟨_, other, unchanged⟩
    · rw [refused] at done
      cases done
    · rw [refused] at unchanged
      cases unchanged
      rfl
  · intro more first second both firstDone secondDone bothDone
    have early := (handedOff_of_ok reachable firstDone).2
    have late := (handedOff_of_ok (handoff_reachable reachable firstDone) secondDone).2
    have union := (handedOff_of_ok reachable bothDone).2
    have causal : first.causal = domain.causal := by
      rw [LocalScalarDomain.causal, early.working]; rfl
    have working : second.working = both.working := by
      rw [late.working, early.working, union.working]
    have finalization : second.finalization = both.finalization := by
      apply FinalizationLedger.ext_ledger
      · rw [late.locals, early.locals, union.locals]
      · rw [late.finalized, early.finalized, union.finalized]
      · intro id
        rw [late.exposed, early.exposed, union.exposed, early.locals, causal,
          inClosure_append, or_and_right, or_assoc]
      · intro id
        rw [late.handedOff, early.handedOff, union.handedOff, early.locals,
          List.mem_append, or_and_right, or_assoc]
    cases second
    cases both
    cases working
    cases finalization
    rfl

/-- A sealed local revision over a remote parent is refused until it is finalized. -/
theorem handoff_exact_sealed :
    let causal : ScalarRegister Nat := ScalarRegister.empty.put ⟨.ofByte 1, 10, ∅⟩
    let start : LocalScalarDomain Nat := ⟨⟨causal, none⟩, .empty⟩
    let sealed := start.run [.beginEpoch (.ofByte 7) 20, .sealLocal (.ofByte 2)]
    let finalized := sealed.run [.finalize (.ofByte 2)]
    (¬ ∃ next, sealed.handoff [.ofByte 2] = (.ok (), next)) ∧
      ∃ next, finalized.handoff [.ofByte 2] = (.ok (), next) ∧
        .ofByte 2 ∈ next.finalization.exposedLocalIds := by
  intro causal start sealed finalized
  have created : LocalScalarDomain.fromCausal causal = .ok start :=
    LocalScalarDomain.fromCausal_ok_iff.mpr ⟨by decide +kernel, rfl⟩
  have reachable : sealed.Reachable := ⟨causal, start, _, created, rfl⟩
  have exact := handoff_exact reachable [.ofByte 2]
  have finalExact := handoff_exact (reachable.run [.finalize (.ofByte 2)]) [.ofByte 2]
  have inside : (LocalScalarDomain.causal sealed).InClosure [.ofByte 2] (.ofByte 2) :=
    ⟨.ofByte 2, by simp, Or.inl rfl⟩
  constructor
  · intro accepted
    have missing := (exact.1.mp accepted).2 (.ofByte 2) (by decide +kernel) inside
    exact absurd missing (by decide +kernel)
  · have complete : ∀ id ∈ finalized.finalization.localRevisionIds.toList,
        id ∈ finalized.finalization.finalized := by
      decide +kernel
    obtain ⟨next, done⟩ := finalExact.1.mpr ⟨by decide +kernel, by
      intro id isLocal _
      exact complete id (ExtTreeSet.mem_toList.mpr isLocal)⟩
    refine ⟨next, done, ?_⟩
    rw [(finalExact.2.1 next done).exposed]
    exact Or.inr ⟨⟨.ofByte 2, by simp, Or.inl rfl⟩, by decide +kernel⟩

end LocalScalarDomain

end PrivateContinuum.Core
