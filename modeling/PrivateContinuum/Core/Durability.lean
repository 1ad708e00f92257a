import PrivateContinuum.Library.Agents

namespace PrivateContinuum.Core

open PrivateContinuum.Library

variable {Op : Type} {Answer : Op → Type} {Backend Failure State Candidate : Type}

/-- `DurabilityBackend`, with its methods as routines over the fields of the backend. -/
structure DurabilityBackend (Op : Type) (Answer : Op → Type)
    (Backend Failure State Candidate : Type) where
  loadCommitted : Routine Op Answer Backend Failure (Option State)
  writeCandidate : State → Routine Op Answer Backend Failure Candidate
  syncCandidate : Candidate → Routine Op Answer Backend Failure Unit
  publishCandidate : Candidate → Routine Op Answer Backend Failure Unit
  syncCommittedRoot : Routine Op Answer Backend Failure Unit

def commitDurable (backend : DurabilityBackend Op Answer Backend Failure State Candidate)
    (state : State) :
    Routine Op Answer Backend Failure Unit := do
  let candidate ← backend.writeCandidate state
  backend.syncCandidate candidate
  backend.publishCandidate candidate
  backend.syncCommittedRoot

/-- One commit that was begun, and whether it was acknowledged. -/
structure Attempt (State : Type) where
  state : State
  acknowledged : Bool
deriving DecidableEq

/-- The commits that were begun, oldest first. -/
abbrev Attempts (State : Type) := List (Attempt State)

namespace Attempts

variable {initial found : Option State} {log : Attempts State} {state : State}

def begun (log : Attempts State) (state : State) : Attempts State := log ++ [⟨state, false⟩]

/-- The last commit is acknowledged. -/
def acknowledge (log : Attempts State) : Attempts State :=
  log.dropLast ++ log.getLast?.toList.map fun attempt => { attempt with acknowledged := true }

def NoneAcknowledged (log : Attempts State) : Prop := ∀ attempt ∈ log, attempt.acknowledged = false

/-- The commit that was acknowledged last, or one that was begun after it. -/
def Recent (initial : Option State) (log : Attempts State) (found : Option State) : Prop :=
  found = initial ∧ log.NoneAcknowledged ∨
    ∃ before attempt after, log = before ++ attempt :: after ∧ found = some attempt.state ∧
      NoneAcknowledged after

theorem acknowledge_begun (log : Attempts State) (state : State) :
    (log.begun state).acknowledge = log ++ [⟨state, true⟩] := by
  simp [begun, acknowledge]

theorem Recent.begun (recent : Recent initial log found) :
    Recent initial (log.begun state) found := by
  rcases recent with ⟨same, none⟩ | ⟨before, attempt, after, split, same, none⟩
  · refine Or.inl ⟨same, ?_⟩
    intro attempt member
    rcases List.mem_append.mp member with old | new
    · exact none attempt old
    · rw [List.mem_singleton.mp new]
  · refine Or.inr ⟨before, attempt, after ++ [⟨state, false⟩], ?_, same, ?_⟩
    · rw [Attempts.begun, split, List.append_assoc, List.cons_append]
    · intro later member
      rcases List.mem_append.mp member with old | new
      · exact none later old
      · rw [List.mem_singleton.mp new]

theorem recent_last (initial : Option State) (log : Attempts State) (attempt : Attempt State) :
    Recent initial (log ++ [attempt]) (some attempt.state) :=
  Or.inr ⟨log, attempt, [], rfl, rfl, fun _ member => absurd member (List.not_mem_nil)⟩

theorem Recent.of_acknowledged (recent : Recent initial (log ++ [⟨state, true⟩]) found) :
    found = some state := by
  have last : (⟨state, true⟩ : Attempt State) ∈ log ++ [⟨state, true⟩] :=
    List.mem_append_right log (List.mem_singleton_self _)
  rcases recent with ⟨_, none⟩ | ⟨before, attempt, after, split, same, none⟩
  · exact absurd (none _ last) Bool.noConfusion
  · rcases List.eq_nil_or_concat after with empty | ⟨init, final, whole⟩
    · subst empty
      obtain ⟨_, only⟩ := List.append_inj' split rfl
      rw [same, ← (List.cons.inj only).1]
    · rw [whole, List.concat_eq_append, ← List.cons_append, ← List.append_assoc] at split
      obtain ⟨_, only⟩ := List.append_inj' split rfl
      have impossible := none final (by simp [whole])
      rw [← (List.cons.inj only).1] at impossible
      cases impossible

end Attempts

/-- The calls of a backend that is only known through its trait. -/
inductive BackendCall (State Candidate : Type) where
  | loadCommitted
  | writeCandidate (state : State)
  | syncCandidate (candidate : Candidate)
  | publishCandidate (candidate : Candidate)
  | syncCommittedRoot

def BackendCall.Reply (Failure : Type) {State Candidate : Type} : BackendCall State Candidate → Type
  | .loadCommitted => Except Failure (Option State)
  | .writeCandidate _ => Except Failure Candidate
  | .syncCandidate _ => Except Failure Unit
  | .publishCandidate _ => Except Failure Unit
  | .syncCommittedRoot => Except Failure Unit

variable (Failure State Candidate) in
/-- The backend whose methods are these calls. -/
def calledBackend :
    DurabilityBackend (BackendCall State Candidate)
      (BackendCall.Reply Failure) Unit Failure State Candidate where
  loadCommitted := .ask .loadCommitted id
  writeCandidate state := .ask (.writeCandidate state) id
  syncCandidate candidate := .ask (.syncCandidate candidate) id
  publishCandidate candidate := .ask (.publishCandidate candidate) id
  syncCommittedRoot := .ask .syncCommittedRoot id

/-- What the trait asks of a backend. Every call may fail, with or without its
effect; a crash inside a call is a failure of that call before the crash. -/
structure DurabilityContract (World State Candidate Failure : Type) where
  Answers : World → (call : BackendCall State Candidate) → call.Reply Failure → World → Prop
  Crashes : World → World → Prop
  /-- The candidate is complete, but a crash may lose it. -/
  Written : World → Candidate → State → Prop
  /-- The candidate survives every crash. -/
  Durable : World → Candidate → State → Prop
  visibleRoot : World → Option Candidate
  /-- The root that a crash may leave. -/
  MayRoot : World → Option Candidate → Prop
  durable_unique : ∀ {world candidate state other}, Durable world candidate state →
    Durable world candidate other → state = other
  /-- A root refers to a durable candidate only. -/
  load : ∀ {world answer after}, Answers world .loadCommitted answer after →
    answer = .ok none ∧ MayRoot world none ∨
      ∃ candidate state, answer = .ok (some state) ∧ MayRoot world (some candidate) ∧
        Durable world candidate state
  load_answers : ∀ world, ∃ answer after, Answers world .loadCommitted answer after
  written : ∀ {world state candidate after}, Answers world (.writeCandidate state)
    (.ok candidate) after → Written after candidate state
  synced : ∀ {world candidate state after},
    Answers world (.syncCandidate candidate) (.ok ()) after →
    Written world candidate state → Durable after candidate state
  published : ∀ {world candidate after},
    Answers world (.publishCandidate candidate) (.ok ()) after → visibleRoot after = some candidate
  publish_roots : ∀ {world candidate answer after root},
    Answers world (.publishCandidate candidate) answer after →
    MayRoot after root → MayRoot world root ∨ root = some candidate
  other_roots : ∀ {world call answer after root},
    (∀ candidate, call ≠ .publishCandidate candidate) →
    Answers world call answer after → MayRoot after root → MayRoot world root
  barrier : ∀ {world after root}, Answers world .syncCommittedRoot (.ok ()) after →
    MayRoot after root → root = visibleRoot world
  kept : ∀ {world call answer after candidate state}, Answers world call answer after →
    Durable world candidate state → Durable after candidate state
  crash_roots : ∀ {world after root}, Crashes world after → MayRoot after root → MayRoot world root
  crash_kept : ∀ {world after candidate state}, Crashes world after →
    Durable world candidate state → Durable after candidate state

/-- A backend that one process calls. -/
def DurabilityContract.around {World : Type}
    (contract : DurabilityContract World State Candidate Failure) :
    Surroundings World (BackendCall State Candidate) (BackendCall.Reply Failure) where
  Valid _ := True
  Rely world now := now = world
  Permits _ _ := True
  Answers := contract.Answers
  rely_refl _ := rfl
  rely_trans := by
    intro first second third one other
    rw [other, one]

/-- The backend of the crash tests: candidates under handles, some of them durable,
and a root that is visible before it is durable. -/
structure CrashBackend (State : Type) where
  nextHandle : Nat
  candidates : Nat → Option State
  durable : Nat → Bool
  visibleRoot : Option Nat
  durableRoot : Option Nat
  below : ∀ handle, durable handle = true → handle < nextHandle
  rooted : ∀ handle, visibleRoot = some handle ∨ durableRoot = some handle →
    durable handle = true ∧ ∃ state, candidates handle = some state

namespace CrashBackend

def empty : CrashBackend State := ⟨0, fun _ => none, fun _ => false, none, none, by simp, by simp⟩

/-- What a call answers and leaves. A candidate that is not durable is never published. -/
def Answers (backend : CrashBackend State) (call : BackendCall State Nat)
    (answer : call.Reply Empty) (after : CrashBackend State) : Prop :=
  match call with
  | .loadCommitted => answer = .ok (backend.durableRoot.bind backend.candidates) ∧ after = backend
  | .writeCandidate state => answer = .ok backend.nextHandle ∧
      after.nextHandle = backend.nextHandle + 1 ∧
    after.candidates = Function.update backend.candidates backend.nextHandle (some state) ∧
    after.durable = backend.durable ∧ after.visibleRoot = backend.visibleRoot ∧
    after.durableRoot = backend.durableRoot
  | .syncCandidate handle => answer = .ok () ∧ after.nextHandle = backend.nextHandle ∧
    after.candidates = backend.candidates ∧
    after.durable = Function.update backend.durable handle (backend.candidates handle).isSome ∧
    after.visibleRoot = backend.visibleRoot ∧ after.durableRoot = backend.durableRoot
  | .publishCandidate handle => backend.durable handle = true ∧ answer = .ok () ∧
    after.candidates = backend.candidates ∧ after.durable = backend.durable ∧
    after.visibleRoot = some handle ∧ after.durableRoot = backend.durableRoot
  | .syncCommittedRoot => answer = .ok () ∧ after.candidates = backend.candidates ∧
    after.durable = backend.durable ∧ after.visibleRoot = backend.visibleRoot ∧
    after.durableRoot = backend.visibleRoot

/-- `crash`: an unsynced publication may have reached the media. -/
def Crashes (backend after : CrashBackend State) : Prop :=
  (after.durableRoot = backend.durableRoot ∨ after.durableRoot = backend.visibleRoot) ∧
    after.visibleRoot = after.durableRoot ∧ after.durable = backend.durable ∧
    ∀ handle, backend.durable handle = true → after.candidates handle = backend.candidates handle

variable (State) in
/-- The test backend keeps the contract. -/
def contract : DurabilityContract (CrashBackend State) State Nat Empty where
  Answers := Answers
  Crashes := Crashes
  Written backend handle state := backend.candidates handle = some state
  Durable backend handle state :=
    backend.durable handle = true ∧ backend.candidates handle = some state
  visibleRoot := visibleRoot
  MayRoot backend root := root = backend.durableRoot ∨ root = backend.visibleRoot
  durable_unique := by
    intro backend handle state other one two
    exact Option.some.inj (one.2.symm.trans two.2)
  load := by
    intro backend answer after told
    cases root : backend.durableRoot with
    | none => exact Or.inl ⟨by rw [told.1, root]; rfl, Or.inl rfl⟩
    | some handle =>
      obtain ⟨durable, state, held⟩ := backend.rooted handle (Or.inr root)
      refine Or.inr ⟨handle, state, ?_, Or.inl rfl, durable, held⟩
      rw [told.1, root, Option.bind_some, held]
  load_answers := fun backend => ⟨_, backend, rfl, rfl⟩
  written := by
    intro backend state handle after told
    obtain ⟨same, _, contents, _⟩ := told
    cases same
    rw [contents, Function.update_self]
  synced := by
    intro backend handle state after told held
    obtain ⟨_, _, contents, durable, _⟩ := told
    rw [durable, contents, Function.update_self, held]
    exact ⟨rfl, rfl⟩
  published := fun told => told.2.2.2.2.1
  publish_roots := by
    intro backend handle answer after root told may
    obtain ⟨_, _, _, _, visible, kept⟩ := told
    rw [visible, kept] at may
    exact may.imp Or.inl id
  other_roots := by
    intro backend call answer after root other told may
    cases call with
    | loadCommitted => exact told.2 ▸ may
    | writeCandidate state =>
      obtain ⟨_, _, _, _, visible, kept⟩ := told
      rwa [visible, kept] at may
    | syncCandidate handle =>
      obtain ⟨_, _, _, _, visible, kept⟩ := told
      rwa [visible, kept] at may
    | publishCandidate handle => exact absurd rfl (other handle)
    | syncCommittedRoot =>
      obtain ⟨_, _, _, visible, kept⟩ := told
      rw [visible, kept, or_self] at may
      exact Or.inr may
  barrier := by
    intro backend after root told may
    obtain ⟨_, _, _, visible, kept⟩ := told
    rwa [visible, kept, or_self] at may
  kept := by
    intro backend call answer after handle state told held
    cases call with
    | loadCommitted => exact told.2 ▸ held
    | writeCandidate written =>
      obtain ⟨_, _, contents, durable, _⟩ := told
      have fresh : handle ≠ backend.nextHandle := Nat.ne_of_lt (backend.below handle held.1)
      rw [durable, contents, Function.update_of_ne fresh]
      exact held
    | syncCandidate synced =>
      obtain ⟨_, _, contents, durable, _⟩ := told
      refine ⟨?_, contents ▸ held.2⟩
      by_cases same : handle = synced
      · subst same
        rw [durable, Function.update_self, held.2, Option.isSome_some]
      · rw [durable, Function.update_of_ne same]
        exact held.1
    | publishCandidate published =>
      obtain ⟨_, _, contents, durable, _⟩ := told
      rw [contents, durable]
      exact held
    | syncCommittedRoot =>
      obtain ⟨_, contents, durable, _⟩ := told
      rw [contents, durable]
      exact held
  crash_roots := by
    intro backend after root crashes may
    obtain ⟨survived, visible, _⟩ := crashes
    rw [visible, or_self] at may
    rw [may]
    exact survived
  crash_kept := by
    intro backend after handle state crashes held
    obtain ⟨_, _, durable, contents⟩ := crashes
    rw [durable, contents handle held.1]
    exact held

end CrashBackend

end PrivateContinuum.Core
