import Mathlib

/-! An append-only log with compare-and-swap on its head. A revision is never used
again, so what expects one head is appended at most once. -/

namespace PrivateContinuum.Library

variable {Revision Object : Type}

structure LogEntry (Revision Object : Type) where
  revision : Revision
  objects : List Object

abbrev AppendLog (Revision Object : Type) := List (LogEntry Revision Object)

namespace AppendLog

variable {log next start other : AppendLog Revision Object} {known : Option Revision}
  {revision : Revision} {objects : List Object} {object : Object}

def tip (log : AppendLog Revision Object) : Option Revision := log.getLast?.map LogEntry.revision

def revisions (log : AppendLog Revision Object) : List Revision := log.map LogEntry.revision

/-- Everything that was appended, oldest first. -/
def contents (log : AppendLog Revision Object) : List Object := log.flatMap LogEntry.objects

/-- The beginning of the log that ends with the known revision. -/
def Upto (log : AppendLog Revision Object) (known : Option Revision)
    (start : AppendLog Revision Object) : Prop :=
  start <+: log ∧ start.tip = known

/-- The part of the log between a known revision and a head, with exactly its objects. -/
def Range (log : AppendLog Revision Object) (known : Option Revision) (head : Revision)
    (objects : List Object) : Prop :=
  ∃ start later : AppendLog Revision Object, log.Upto known start ∧
    log.Upto (some head) (start ++ later) ∧ ∀ object, object ∈ objects ↔ object ∈ contents later

/-- The objects went out as one entry right after the expected head. -/
def Landed (log : AppendLog Revision Object) (expected : Option Revision) (revision : Revision)
    (objects : List Object) :
    Prop :=
  ∃ start, log.Upto expected start ∧
    (start ++ [⟨revision, objects⟩] : AppendLog Revision Object) <+: log

@[simp] theorem tip_nil : tip ([] : AppendLog Revision Object) = none := rfl

@[simp] theorem tip_append_entry (log : AppendLog Revision Object)
    (entry : LogEntry Revision Object) :
    tip (log ++ [entry]) = some entry.revision := by
  simp [tip]

theorem contents_append (log later : AppendLog Revision Object) :
    contents (log ++ later) = log.contents ++ later.contents :=
  List.flatMap_append

theorem mem_contents :
    object ∈ log.contents ↔ ∃ entry ∈ log, object ∈ entry.objects := List.mem_flatMap

theorem Upto.grown (upto : log.Upto known start) (grown : log <+: next) : next.Upto known start :=
  ⟨upto.1.trans grown, upto.2⟩

theorem Range.grown {head : Revision} (range : log.Range known head objects)
    (grown : log <+: next) :
    next.Range known head objects := by
  obtain ⟨start, later, begun, ended, exactly⟩ := range
  exact ⟨start, later, begun.grown grown, ended.grown grown, exactly⟩

theorem Landed.grown (landed : log.Landed known revision objects) (grown : log <+: next) :
    next.Landed known revision objects := by
  obtain ⟨start, begun, inside⟩ := landed
  exact ⟨start, begun.grown grown, inside.trans grown⟩

theorem upto_tip (log : AppendLog Revision Object) :
    log.Upto log.tip log := ⟨List.prefix_refl log, rfl⟩

theorem upto_nil (log : AppendLog Revision Object) : log.Upto none [] := ⟨List.nil_prefix, rfl⟩

theorem landed_append (log : AppendLog Revision Object) (revision : Revision)
    (objects : List Object) :
    Landed (log ++ [⟨revision, objects⟩]) log.tip revision objects :=
  ⟨log, (upto_tip log).grown (List.prefix_append _ _), List.prefix_refl _⟩

theorem Upto.none (upto : log.Upto none start) : start = [] := by
  rcases List.eq_nil_or_concat' start with empty | ⟨front, entry, rfl⟩
  · exact empty
  · have impossible := upto.2
    simp at impossible

theorem Upto.last (upto : log.Upto (some revision) start) :
    ∃ front entry, start = front ++ [entry] ∧ log.revisions[front.length]? = some revision := by
  rcases List.eq_nil_or_concat' start with rfl | ⟨front, entry, rfl⟩
  · have impossible := upto.2
    simp at impossible
  · obtain ⟨⟨rest, rfl⟩, named⟩ := upto
    rw [tip_append_entry, Option.some.injEq] at named
    exact ⟨front, entry, rfl, by simp [revisions, named]⟩

/-- Where no revision is used twice, a head stands for one beginning of the log. -/
theorem Upto.unique (distinct : log.revisions.Nodup) (one : log.Upto known start)
    (two : log.Upto known other) :
    start = other := by
  cases known with
  | none => rw [one.none, two.none]
  | some revision =>
    obtain ⟨front, entry, rfl, found⟩ := one.last
    obtain ⟨rest, last, rfl, also⟩ := two.last
    obtain ⟨inside, _⟩ := List.getElem?_eq_some_iff.mp found
    have position : front.length = rest.length :=
      (List.getElem?_inj inside distinct).mp (found.trans also.symm)
    have same : (front ++ [entry]).length = (rest ++ [last]).length := by
      rw [List.length_append, List.length_append, position, List.length_singleton,
        List.length_singleton]
    exact (List.prefix_of_prefix_length_le one.1 two.1 same.le).eq_of_length same

section Reading

variable [DecidableEq Revision] {later : AppendLog Revision Object}

def following (revision : Revision) : AppendLog Revision Object → Option (AppendLog Revision Object)
  | [] => none
  | entry :: later => if entry.revision = revision then some later else following revision later

/-- What comes after a known revision, if the log has it. -/
def since (log : AppendLog Revision Object) (known : Option Revision) :
    Option (AppendLog Revision Object) :=
  known.elim (some log) fun revision => following revision log

theorem following_split (found : following revision log = some later) :
    ∃ front entry, log = front ++ entry :: later ∧ entry.revision = revision := by
  induction log with
  | nil => cases found
  | cons entry rest ih =>
    rw [following] at found
    split at found
    · rename_i here
      cases found
      exact ⟨[], entry, rfl, here⟩
    · obtain ⟨front, last, rfl, named⟩ := ih found
      exact ⟨entry :: front, last, rfl, named⟩

theorem since_upto (found : log.since known = some later) :
    ∃ start, log.Upto known start ∧ start ++ later = log := by
  cases known with
  | none =>
    cases found
    exact ⟨[], upto_nil log, rfl⟩
  | some revision =>
    obtain ⟨front, entry, rfl, named⟩ := following_split found
    refine ⟨front ++ [entry], ⟨⟨later, List.append_assoc front [entry] later⟩, ?_⟩,
      List.append_assoc front [entry] later⟩
    rw [tip_append_entry, named]

end Reading

section Anchored

variable {Expects : Object → Option Revision → Prop}

/-- Each entry holds every object once, and only objects that expect the head before it. -/
def Anchored (Expects : Object → Option Revision → Prop) (log : AppendLog Revision Object) : Prop :=
  ∀ (before : AppendLog Revision Object) (entry : LogEntry Revision Object),
    before ++ [entry] <+: log → entry.objects.Nodup ∧
    ∀ object ∈ entry.objects, Expects object before.tip

theorem Anchored.append (anchored : Anchored Expects log) (once : objects.Nodup)
    (expected : ∀ object ∈ objects, Expects object log.tip) (revision : Revision) :
    Anchored Expects (log ++ [⟨revision, objects⟩]) := by
  intro before entry inside
  rcases List.prefix_concat_iff.mp inside with whole | earlier
  · obtain ⟨rfl, same⟩ := List.append_inj' whole rfl
    rw [List.cons.injEq] at same
    rw [same.1]
    exact ⟨once, expected⟩
  · exact anchored before entry earlier

theorem Anchored.weaken {Wider : Object → Option Revision → Prop} (anchored : Anchored Expects log)
    (wider : ∀ object known, Expects object known → Wider object known) : Anchored Wider log := by
  intro before entry inside
  obtain ⟨once, expected⟩ := anchored before entry inside
  exact ⟨once, fun object member => wider object before.tip (expected object member)⟩

/-- What an entry holds does not occur before it, if an object expects one head only. -/
theorem Anchored.fresh (anchored : Anchored Expects log) (distinct : log.revisions.Nodup)
    (single : ∀ object one two, Expects object one → Expects object two → one = two)
    {entry : LogEntry Revision Object}
    (inside : (start ++ [entry] : AppendLog Revision Object) <+: log)
    (member : object ∈ entry.objects) : object ∉ start.contents := by
  intro twice
  obtain ⟨earlier, listed, also⟩ := mem_contents.mp twice
  obtain ⟨before, after, rfl⟩ := List.append_of_mem listed
  have early : (before ++ [earlier] : AppendLog Revision Object) <+: log := by
    refine List.IsPrefix.trans ?_ inside
    rw [List.append_assoc]
    exact ⟨after ++ [entry], by simp⟩
  have tips : tip before = tip (before ++ earlier :: after) :=
    single object _ _ ((anchored before earlier early).2 object also)
      ((anchored _ entry inside).2 object member)
  have lengths :=
    congrArg List.length (Upto.unique distinct ⟨(List.prefix_append _ _).trans early, rfl⟩
    ⟨(List.prefix_append _ _).trans inside, tips.symm⟩)
  simp at lengths

/-- Objects that expect one head only are appended at most once. -/
theorem Anchored.contents_nodup (anchored : Anchored Expects log)
    (distinct : log.revisions.Nodup)
    (single : ∀ object one two, Expects object one → Expects object two → one = two) :
    log.contents.Nodup := by
  induction log using List.reverseRecOn with
  | nil => exact List.nodup_nil
  | append_singleton start entry ih =>
    have inside : start <+: start ++ [entry] := List.prefix_append _ _
    rw [contents_append, List.nodup_append']
    refine ⟨ih (fun before last within => anchored before last (within.trans inside)) ?_, ?_, ?_⟩
    · rw [revisions, List.map_append, List.nodup_append'] at distinct
      exact distinct.1
    · simpa [contents] using (anchored start entry (List.prefix_refl _)).1
    · intro object early late
      rw [contents, List.flatMap_singleton] at late
      exact anchored.fresh distinct single (List.prefix_refl _) late early

end Anchored

end AppendLog

end PrivateContinuum.Library
