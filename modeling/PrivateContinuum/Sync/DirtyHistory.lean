import PrivateContinuum.Sync.DirtyDomains

/-! Runs of local edits, imports, exports and acknowledgements: no edit loses its
marker before it is published. -/

namespace PrivateContinuum.Sync

open Std (ExtTreeMap ExtTreeSet)
open PrivateContinuum.Library PrivateContinuum.Core
open DirtyDomainState

/-- The local domains, with everything that was exported and acknowledged so far
and the last state set locally in each domain. -/
structure DirtyHistory where
  state : ScalarDirtyDomainState
  exported : List ScalarSyncProjection
  acknowledged : List ScalarSyncProjection
  lastLocal : DomainKey → Option (ScalarRegister Bytes)

namespace DirtyHistory

def start : DirtyHistory := ⟨.new, [], [], fun _ => none⟩

/-- One call. An acknowledgement names a projection that was exported at some
earlier time. -/
inductive Step : DirtyHistory → DirtyHistory → Prop
  | setLocal {history : DirtyHistory} {key : DomainKey} {register : ScalarRegister Bytes}
      (valid : register.Valid) : Step history { history with
        state := history.state.setLocal key register
        lastLocal := fun other => if other = key then some register else history.lastLocal other }
  | importProjection {history : DirtyHistory} {projection : ScalarSyncProjection}
      {outcome : Except CoreError Unit}
      {after : ScalarDirtyDomainState} (valid : projection.AllValid)
      (done : history.state.importProjection projection = (outcome, after)) :
      Step history { history with state := after }
  | exportDirty {history : DirtyHistory} {projection : ScalarSyncProjection}
      (done : history.state.exportDirty = some projection) :
      Step history { history with exported := history.exported ++ [projection] }
  | acknowledge {history : DirtyHistory} {projection : ScalarSyncProjection}
      (known : projection ∈ history.exported) :
      Step history { history with
        state := history.state.acknowledge projection
        acknowledged := history.acknowledged ++ [projection] }

def Reaches : DirtyHistory → DirtyHistory → Prop := Relation.ReflTransGen Step

/-- The projection has everything of the register in the domain. -/
def Publishes (projection : ScalarSyncProjection) (key : DomainKey)
    (register : ScalarRegister Bytes) : Prop :=
  ∃ published, projection.get key = some published ∧ register ≤ published

/-- Every dirty domain has a state; the last local state of a domain is in its
current state, and was acknowledged unless the domain is dirty. -/
structure Safe (history : DirtyHistory) : Prop where
  held : ∀ key ∈ history.state.dirty, ∃ register, history.state.get key = some register
  kept : ∀ key last, history.lastLocal key = some last →
    ∃ current, history.state.get key = some current ∧ last ≤ current
  published : ∀ key last, history.lastLocal key = some last → key ∉ history.state.dirty →
    ∃ projection ∈ history.acknowledged, Publishes projection key last

variable {history next : DirtyHistory}

theorem start_safe : start.Safe where
  held := by
    intro key dirty
    simp [start, DirtyDomainState.new] at dirty
  kept := by
    intro key last found
    cases found
  published := by
    intro key last found
    cases found

/-- An import, completed or not, keeps what a domain had. -/
theorem import_keeps {state after : ScalarDirtyDomainState} {projection : ScalarSyncProjection}
    {outcome : Except CoreError Unit} {key : DomainKey} {current : ScalarRegister Bytes}
    (done : state.importProjection projection = (outcome, after))
    (found : state.get key = some current) :
    ∃ grown, after.get key = some grown ∧ current ≤ grown := by
  have merges : MergedAt MergeState.mergeState (some current) (projection.get key) (after.get key) →
      ∃ grown, after.get key = some grown ∧ current ≤ grown := by
    intro merged
    cases given : projection.get key with
    | none =>
      rw [given, mergedAt_none_right] at merged
      exact ⟨current, merged, le_refl current⟩
    | some incoming =>
      rw [given] at merged
      obtain ⟨grown, combined, stored⟩ := merged
      exact ⟨grown, stored, ScalarRegister.left_le_merge combined⟩
  cases outcome with
  | ok _ =>
    have whole := SyncProjection.merge_ok_iff.mp (importProjection_ok_iff.mp done).1
    apply merges
    rw [← found]
    exact mergeMaps_at whole key
  | error failure =>
    obtain ⟨stopped, _, _, _, _, _, below, beyond⟩ := importProjection_error done
    by_cases less : compare key stopped = .lt
    · apply merges
      rw [← found]
      exact below key less
    · exact ⟨current, (beyond key less).trans found, le_refl current⟩

theorem Step.safe (step : Step history next) (safe : history.Safe) : next.Safe := by
  cases step with
  | setLocal valid =>
    rename_i key register
    refine ⟨?_, ?_, ?_⟩
    · intro other dirty
      by_cases same : other = key
      · exact ⟨register, same ▸ get_setLocal_self⟩
      · obtain ⟨found, stored⟩ := safe.held other ((mem_dirty_setLocal.mp dirty).resolve_left same)
        exact ⟨found, (get_setLocal_other same).trans stored⟩
    · intro other last edited
      by_cases same : other = key
      · simp only [same, if_true, Option.some.injEq] at edited
        exact ⟨register, same ▸ get_setLocal_self, le_of_eq edited.symm⟩
      · simp only [if_neg same] at edited
        obtain ⟨current, stored, included⟩ := safe.kept other last edited
        exact ⟨current, (get_setLocal_other same).trans stored, included⟩
    · intro other last edited clean
      rw [mem_dirty_setLocal, not_or] at clean
      simp only [if_neg clean.1] at edited
      exact safe.published other last edited clean.2
  | importProjection valid done =>
    have markers := importProjection_dirty _ done
    refine ⟨?_, ?_, ?_⟩
    · intro key dirty
      obtain ⟨register, found⟩ := safe.held key (markers ▸ dirty)
      obtain ⟨grown, stored, _⟩ := import_keeps done found
      exact ⟨grown, stored⟩
    · intro key last edited
      obtain ⟨current, found, included⟩ := safe.kept key last edited
      obtain ⟨grown, stored, more⟩ := import_keeps done found
      exact ⟨grown, stored, included.trans more⟩
    · intro key last edited clean
      exact safe.published key last edited (markers ▸ clean)
  | exportDirty done => exact ⟨safe.held, safe.kept, safe.published⟩
  | acknowledge known =>
    rename_i projection
    refine ⟨?_, safe.kept, ?_⟩
    · intro key dirty
      exact safe.held key (mem_dirty_acknowledge.mp dirty).1
    · intro key last edited clean
      by_cases dirty : key ∈ history.state.dirty
      · -- the marker went because the projection holds the current state, with the last edit
        rw [mem_dirty_acknowledge] at clean
        have cleared : ∃ exported, projection.get key = some exported ∧
            history.state.get key = some exported := by
          by_contra none
          exact clean ⟨dirty, fun exported given stored => none ⟨exported, given, stored⟩⟩
        obtain ⟨exported, given, stored⟩ := cleared
        obtain ⟨current, found, included⟩ := safe.kept key last edited
        rw [stored, Option.some.injEq] at found
        exact ⟨projection, List.mem_append_right _ (List.mem_singleton_self _), exported, given,
          found ▸ included⟩
      · obtain ⟨earlier, listed, holds⟩ := safe.published key last edited dirty
        exact ⟨earlier, List.mem_append_left _ listed, holds⟩

theorem Reaches.safe (run : Reaches start history) : history.Safe := by
  induction run with
  | refl => exact start_safe
  | tail _ step ih => exact step.safe ih

/-- In every run the dirty domains have states, an export covers exactly them, and
the last local state of a domain that is not dirty was acknowledged. -/
theorem no_edit_unpublished (run : Reaches start history) :
    (∀ key ∈ history.state.dirty, ∃ register, history.state.get key = some register) ∧
    (history.state.exportDirty = none ↔ ∀ key, key ∉ history.state.dirty) ∧
    (∀ projection, history.state.exportDirty = some projection → ∀ key,
      (ScalarSyncProjection.Has projection key ↔ key ∈ history.state.dirty) ∧
        (key ∈ history.state.dirty → projection.get key = history.state.get key)) ∧
    ∀ key last, history.lastLocal key = some last → key ∉ history.state.dirty →
      ∃ projection ∈ history.acknowledged, Publishes projection key last := by
  have safe := run.safe
  refine ⟨safe.held, exportDirty_none, ?_, safe.published⟩
  intro projection done key
  constructor
  · constructor
    · rintro ⟨register, found⟩
      exact ((get_exportDirty done).mp found).1
    · intro dirty
      obtain ⟨register, found⟩ := safe.held key dirty
      exact ⟨register, (get_exportDirty done).mpr ⟨dirty, found⟩⟩
  · intro dirty
    obtain ⟨register, found⟩ := safe.held key dirty
    rw [found]
    exact (get_exportDirty done).mpr ⟨dirty, found⟩

/-- One domain edited, exported and acknowledged. -/
theorem no_edit_unpublished_one_domain :
    ∃ history, Reaches start history ∧ history.state.exportDirty = none ∧
    ∃ projection ∈ history.acknowledged, Publishes projection ⟨.ofByte 1, [1]⟩
      (ScalarDirtyDomainState.rootOnly (.ofByte 7) [5]) := by
  let key : DomainKey := ⟨.ofByte 1, [1]⟩
  let register := ScalarDirtyDomainState.rootOnly (.ofByte 7) [5]
  let edited : ScalarDirtyDomainState := DirtyDomainState.new.setLocal key register
  have set : Reaches start ⟨edited, [], [], fun other => if other = key then some register
      else none⟩ :=
    Relation.ReflTransGen.single (.setLocal (ScalarDirtyDomainState.rootOnly_valid _ _))
  have marked : key ∈ edited.dirty := mem_dirty_setLocal.mpr (Or.inl rfl)
  cases done : edited.exportDirty with
  | none => exact absurd marked (exportDirty_none.mp done key)
  | some projection =>
    have given : projection.get key = some register :=
      (get_exportDirty done).mpr ⟨marked, get_setLocal_self⟩
    have clean : ∀ other, other ∉ (edited.acknowledge projection).dirty := by
      intro other dirty
      obtain ⟨before, apart⟩ := mem_dirty_acknowledge.mp dirty
      rcases mem_dirty_setLocal.mp before with same | old
      · subst same
        exact apart register given get_setLocal_self
      · simp [DirtyDomainState.new] at old
    have run := (set.tail (.exportDirty done)).tail
      (.acknowledge (List.mem_append_right _ (List.mem_singleton_self _)))
    obtain ⟨_, none, _, published⟩ := no_edit_unpublished run
    exact ⟨_, run, none.mpr clean, published key register (by simp) (clean key)⟩

end DirtyHistory

end PrivateContinuum.Sync
