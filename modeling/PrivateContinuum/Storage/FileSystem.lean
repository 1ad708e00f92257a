import PrivateContinuum.Library.Bytes

/-! A file system that loses what was not synced: contents of files, and any of the
directory changes. -/

namespace PrivateContinuum.Storage

open PrivateContinuum.Library

/-- The contents of a file, and whether they are those of its last `sync_all`. -/
structure FileState where
  content : Bytes
  synced : Bool

/-- Entries that change together: a created name, or both names of a rename. -/
abbrev DirectoryChange := List (Bytes × Option Nat)

abbrev DirectoryEntries := Bytes → Option Nat

def applyChange (entries : DirectoryEntries) (change : DirectoryChange) : DirectoryEntries :=
  change.foldl (fun current assigned => Function.update current assigned.1 assigned.2) entries

/-- A directory with its files: the entries of its last sync, the changes since, and
the number that the next created file gets. -/
structure Directory where
  durable : DirectoryEntries
  pending : List DirectoryChange
  files : Nat → FileState
  nextFile : Nat

namespace Directory

/-- The entries as they are seen without a crash. -/
def live (directory : Directory) :
    DirectoryEntries := directory.pending.foldl applyChange directory.durable

def record (directory : Directory) (change : DirectoryChange) : Directory :=
  { directory with pending := directory.pending ++ [change] }

def create (directory : Directory) (name : Bytes) : Directory :=
  { directory with
    pending := directory.pending ++ [[(name, some directory.nextFile)]]
    files := Function.update directory.files directory.nextFile ⟨[], false⟩
    nextFile := directory.nextFile + 1 }

def write (directory : Directory) (file : Nat) (content : Bytes) : Directory :=
  { directory with files := Function.update directory.files file ⟨content, false⟩ }

def syncFile (directory : Directory) (file : Nat) : Directory :=
  { directory with files :=
    Function.update directory.files file ⟨(directory.files file).content, true⟩ }

def settle (directory : Directory) : Directory :=
  { directory with durable := directory.live, pending := [] }

/-- The entries that a crash may leave: any of the pending changes survive. -/
def Outcome (directory : Directory) (entries : DirectoryEntries) : Prop :=
  ∃ survivors : List DirectoryChange, survivors.Sublist directory.pending ∧
    entries = survivors.foldl applyChange directory.durable

/-- A file that was changed since its last sync holds anything after a crash. -/
structure Crashes (directory after : Directory) : Prop where
  entries : directory.Outcome after.durable
  settled : after.pending = []
  files : ∀ file, (directory.files file).synced = true → after.files file = directory.files file
  nextFile : after.nextFile = directory.nextFile

end Directory

/-- The store directory and the `objects` directory in it. -/
inductive Folder where
  | store
  | objects
deriving DecidableEq

abbrev FileSystem := Folder → Directory

structure FileHandle where
  folder : Folder
  file : Nat
deriving DecidableEq

inductive IoError where
  | notFound
  | alreadyExists
  | invalidData
  | other
deriving DecidableEq

structure OpenOptions where
  write : Bool
  create : Bool
  createNew : Bool
  truncate : Bool

/-- The calls of `std::fs` that the backend makes, under its two directories. -/
inductive FsOp where
  | createDirAll (folder : Folder)
  | readDir (folder : Folder)
  | openFile (folder : Folder) (name : Bytes) (options : OpenOptions)
  | openDir (folder : Folder)
  | writeAll (handle : FileHandle) (bytes : Bytes)
  | flush (handle : FileHandle)
  | syncAll (handle : FileHandle)
  | syncAllDir (folder : Folder)
  | rename (folder : Folder) (source target : Bytes)
  | readToEnd (handle : FileHandle)

def FsOp.Answer : FsOp → Type
  | .readDir _ => Except IoError (List (Except IoError Bytes))
  | .openFile _ _ _ => Except IoError FileHandle
  | .readToEnd _ => Except IoError Bytes
  | .createDirAll _ => Except IoError Unit
  | .openDir _ => Except IoError Unit
  | .writeAll _ _ => Except IoError Unit
  | .flush _ => Except IoError Unit
  | .syncAll _ => Except IoError Unit
  | .syncAllDir _ => Except IoError Unit
  | .rename _ _ _ => Except IoError Unit

namespace FileSystem

def put (disk : FileSystem) (folder : Folder) (directory : Directory) : FileSystem :=
  Function.update disk folder directory

/-- `open` succeeds: an existing file, perhaps truncated, or a new one. -/
def Opens (disk : FileSystem) (folder : Folder) (name : Bytes) (options : OpenOptions)
    (handle : FileHandle) (after : FileSystem) : Prop :=
  match (disk folder).live name with
  | some file => options.createNew = false ∧ handle = ⟨folder, file⟩ ∧
    after = if options.truncate then disk.put folder ((disk folder).write file []) else disk
  | none => (options.create = true ∨ options.createNew = true) ∧
      handle = ⟨folder, (disk folder).nextFile⟩ ∧
    after = disk.put folder ((disk folder).create name)

def Renames (disk : FileSystem) (folder : Folder) (source target : Bytes)
    (after : FileSystem) : Prop :=
  ∃ file, (disk folder).live source = some file ∧
    after = disk.put folder ((disk folder).record [(target, some file), (source, none)])

/-- A listing without a failed entry names every file of the directory. -/
def Lists (disk : FileSystem) (folder : Folder) (listing : List (Except IoError Bytes)) : Prop :=
  (∃ failure, Except.error failure ∈ listing) ∨
    ∃ names : List Bytes, listing = names.map Except.ok ∧
    ∀ name, name ∈ names ↔ ∃ file, (disk folder).live name = some file

/-- What a call answers and leaves. Every call may fail; a failed one may have had
its effect, and a failed write may leave anything in the file. -/
def Answers (disk : FileSystem) (op : FsOp) (answer : op.Answer) (after : FileSystem) : Prop :=
  match op with
  | .createDirAll _ => after = disk
  | .readDir folder => after = disk ∧ ∀ listing, answer = .ok listing → disk.Lists folder listing
  | .openFile folder name options => match (answer : Except IoError FileHandle) with
    | .ok handle => disk.Opens folder name options handle after
    | .error .alreadyExists => options.createNew = true ∧ after = disk ∧
        ∃ file, (disk folder).live name = some file
    | .error .notFound => after = disk ∧ (disk folder).live name = none
    | .error _ => after = disk ∨ ∃ handle, disk.Opens folder name options handle after
  | .openDir _ => after = disk
  | .writeAll handle bytes => match (answer : Except IoError Unit) with
    | .ok () => after = disk.put handle.folder ((disk handle.folder).write handle.file
        (((disk handle.folder).files handle.file).content ++ bytes))
    | .error _ =>
      ∃ content, after = disk.put handle.folder ((disk handle.folder).write handle.file content)
  | .flush _ => after = disk
  | .syncAll handle => match (answer : Except IoError Unit) with
    | .ok () => after = disk.put handle.folder ((disk handle.folder).syncFile handle.file)
    | .error _ => after = disk
  | .syncAllDir folder => match (answer : Except IoError Unit) with
    | .ok () => after = disk.put folder (disk folder).settle
    | .error _ => after = disk
  | .rename folder source target => match (answer : Except IoError Unit) with
    | .ok () => disk.Renames folder source target after
    | .error _ => after = disk ∨ disk.Renames folder source target after
  | .readToEnd handle => after = disk ∧
    ∀ bytes, answer = .ok bytes → bytes = ((disk handle.folder).files handle.file).content

def Crashes (disk after : FileSystem) : Prop := ∀ folder, (disk folder).Crashes (after folder)

/-- A disk that is only read, without a failure. -/
def serve (disk : FileSystem) : (op : FsOp) → op.Answer
  | .openFile folder name _ => match (disk folder).live name with
    | some file => .ok ⟨folder, file⟩
    | none => .error .notFound
  | .readToEnd handle => .ok ((disk handle.folder).files handle.file).content
  | .createDirAll _ => .error .other
  | .readDir _ => .error .other
  | .openDir _ => .error .other
  | .writeAll _ _ => .error .other
  | .flush _ => .error .other
  | .syncAll _ => .error .other
  | .syncAllDir _ => .error .other
  | .rename _ _ _ => .error .other

/-- A disk on which every call succeeds that can; its directories are not listed. -/
def perform (disk : FileSystem) : (op : FsOp) → op.Answer × FileSystem
  | .openFile folder name options => match (disk folder).live name with
    | some file =>
      if options.createNew then (.error .alreadyExists, disk)
      else (.ok ⟨folder, file⟩, if options.truncate then
        disk.put folder ((disk folder).write file []) else disk)
    | none =>
      if options.create || options.createNew then
        (.ok ⟨folder, (disk folder).nextFile⟩, disk.put folder ((disk folder).create name))
      else (.error .notFound, disk)
  | .writeAll handle bytes =>
    (.ok (), disk.put handle.folder ((disk handle.folder).write handle.file
      (((disk handle.folder).files handle.file).content ++ bytes)))
  | .syncAll handle => (.ok (), disk.put handle.folder ((disk handle.folder).syncFile handle.file))
  | .syncAllDir folder => (.ok (), disk.put folder (disk folder).settle)
  | .rename folder source target => match (disk folder).live source with
    | some file =>
      (.ok (), disk.put folder ((disk folder).record [(target, some file), (source, none)]))
    | none => (.error .notFound, disk)
  | .readToEnd handle => (.ok ((disk handle.folder).files handle.file).content, disk)
  | .createDirAll _ => (.ok (), disk)
  | .openDir _ => (.ok (), disk)
  | .flush _ => (.ok (), disk)
  | .readDir _ => (.error .other, disk)

theorem answers_perform (disk : FileSystem) (op : FsOp) :
    disk.Answers op (disk.perform op).1 (disk.perform op).2 := by
  cases op with
  | openFile folder name options =>
    simp only [perform]
    split
    · rename_i file found
      split
      · rename_i exclusive
        exact ⟨exclusive, rfl, file, found⟩
      · rename_i shared
        simp [Answers, Opens, found, shared]
    · rename_i absent
      split
      · rename_i creates
        simpa [Answers, Opens, absent] using creates
      · exact ⟨rfl, absent⟩
  | rename folder source target =>
    simp only [perform]
    split
    · rename_i file found
      exact ⟨file, found, rfl⟩
    · exact Or.inl rfl
  | readDir folder => exact ⟨rfl, fun listing same => by cases same⟩
  | readToEnd handle =>
    refine ⟨rfl, ?_⟩
    intro bytes same
    exact (Except.ok.inj same).symm
  | createDirAll folder => rfl
  | openDir folder => rfl
  | writeAll handle bytes => rfl
  | flush handle => rfl
  | syncAll handle => rfl
  | syncAllDir folder => rfl

end FileSystem

namespace Directory

variable {directory : Directory} {entries : DirectoryEntries} {change : DirectoryChange}

theorem outcome_live :
    directory.Outcome directory.live := ⟨directory.pending, List.Sublist.refl _, rfl⟩

/-- A recorded change survives on top of some outcome, or not at all. -/
theorem outcome_record : (directory.record change).Outcome entries ↔
    directory.Outcome entries ∨ ∃ before, directory.Outcome before ∧
      entries = applyChange before change := by
  constructor
  · intro outcome
    obtain ⟨survivors, kept, same⟩ := outcome
    obtain ⟨earlier, last, split, earlierKept, lastKept⟩ := List.sublist_append_iff.mp kept
    rcases List.sublist_singleton.mp lastKept with none | one
    · subst none
      rw [List.append_nil] at split
      subst split
      exact Or.inl ⟨survivors, earlierKept, same⟩
    · subst one
      subst split
      refine Or.inr ⟨_, ⟨earlier, earlierKept, rfl⟩, ?_⟩
      rw [same, List.foldl_append]
      rfl
  · intro either
    rcases either with ⟨survivors, kept, same⟩ | ⟨before, ⟨survivors, kept, same⟩, applied⟩
    · exact ⟨survivors, kept.trans (List.sublist_append_left _ _), same⟩
    · refine ⟨survivors ++ [change], kept.append (List.Sublist.refl _), ?_⟩
      rw [List.foldl_append, applied, same]
      rfl

theorem live_record : (directory.record change).live = applyChange directory.live change := by
  simp [live, record, List.foldl_append]

theorem outcome_settled (settled : directory.pending = []) :
    directory.Outcome entries ↔ entries = directory.durable := by
  simp [Outcome, settled]

theorem live_settled (settled : directory.pending = []) : directory.live = directory.durable := by
  simp [live, settled]

end Directory

end PrivateContinuum.Storage
