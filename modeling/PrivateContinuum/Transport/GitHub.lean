import PrivateContinuum.Library.Execution
import PrivateContinuum.Sync.Session

/-! The GitHub transport: protected objects as content-named files of a branch,
fetched by walking the commits back to a known one. -/

namespace PrivateContinuum.Transport

open Std (ExtTreeMap ExtTreeSet)
open PrivateContinuum.Library PrivateContinuum.Sync

/-- Opaque Git commit identity, used only as a transport cursor. -/
structure GitHubCommitOid where
  value : String
  valid : value ≠ "" ∧ ∀ char ∈ value.toList, char.toNat < 128
deriving DecidableEq

inductive GitHubFileChangeKind where
  | added
  | modified
  | removed
  | renamed
deriving DecidableEq

structure GitHubFileAddition where
  path : String
  bytes : Bytes
deriving DecidableEq

structure GitHubFileChange where
  path : String
  kind : GitHubFileChangeKind
deriving DecidableEq

structure GitHubCommitInfo where
  oid : GitHubCommitOid
  parents : List GitHubCommitOid
  changes : List GitHubFileChange

inductive GitHubCreateCommitResult where
  | created (head : GitHubCommitOid)
  | headChanged (currentHead : Option GitHubCommitOid)

/-- The calls of the `GitHubApi` trait. -/
inductive GitHubOp where
  | branchHead
  | createCommitOnBranch (expectedHead : GitHubCommitOid) (additions : List GitHubFileAddition)
      (message : String)
  | commitInfo (oid : GitHubCommitOid)
  | readFileAt (oid : GitHubCommitOid) (path : String)

variable {ApiError : Type}

def GitHubOp.Answer (ApiError : Type) : GitHubOp → Type
  | .branchHead => Except ApiError (Option GitHubCommitOid)
  | .createCommitOnBranch _ _ _ => Except ApiError GitHubCreateCommitResult
  | .commitInfo _ => Except ApiError GitHubCommitInfo
  | .readFileAt _ _ => Except ApiError Bytes

inductive GitHubTransportError (ApiError : Type) where
  | api (failure : ApiError)
  | emptyPublication
  | branchUninitialized
  | invalidCommitIdentity
  | invalidCreatedHead
  | immutableObjectViolation (path : String)
  | objectPathMismatch (path : String)

abbrev GitHubRoutine (ApiError Value : Type) :=
  Routine GitHubOp (GitHubOp.Answer ApiError) Unit (GitHubTransportError ApiError) Value

/-- `OBJECT_PREFIX` -/
def objectPrefix : String := "sync/objects/"

/-- `OBJECT_SUFFIX` -/
def objectSuffix : String := ".apcs"

/-- `COMMIT_MESSAGE` -/
def commitMessage : String := "A.P.C. protected sync publication"

/-- `{byte:02x}` -/
def hexByte (byte : UInt8) : List Char :=
  [Nat.digitChar (byte.toNat / 16), Nat.digitChar (byte.toNat % 16)]

/-- The digest is SHA-256 of the complete wire bytes. -/
def objectPath (digest : Bytes → Bytes) (bytes : Bytes) : String :=
  objectPrefix ++ String.ofList ((digest bytes).flatMap hexByte) ++ objectSuffix

/-- `path.starts_with(OBJECT_PREFIX)` -/
def isObjectPath (path : String) : Bool := objectPrefix.toList.isPrefixOf path.toList

/-- The API is the service that the routines below call. -/
structure GitHubTransport where
  maxIncrementalCommits : Nat
  positive : 1 ≤ maxIncrementalCommits

namespace GitHubTransport

open Routine

/-- `GitHubTransport::new` -/
def new : GitHubTransport := ⟨128, by decide⟩

def withMaxIncrementalCommits (maxIncrementalCommits : Nat) : GitHubTransport :=
  ⟨max maxIncrementalCommits 1, le_max_right _ _⟩

/-- A call whose failure is returned as it is. -/
def askApi {Value : Type} (op : GitHubOp) (read : op.Answer ApiError → Except ApiError Value) :
    GitHubRoutine ApiError Value :=
  ask op fun answer => (read answer).mapError .api

def branchHead : GitHubRoutine ApiError (Option GitHubCommitOid) := askApi .branchHead id

/-- The loop back from the cursor to the known commit, with the number of commits
that may still be read. Nothing is returned when there is no complete range. -/
def walk (known : GitHubCommitOid) : Nat → GitHubCommitOid → List GitHubCommitInfo →
    GitHubRoutine ApiError (Option (List GitHubCommitInfo))
  | remaining, cursor, commits =>
    if cursor = known then pure (some commits)
    else match remaining with
      | 0 => pure none
      | remaining + 1 => do
        let info ← askApi (.commitInfo cursor) id
        if info.oid ≠ cursor then check (.error .invalidCommitIdentity)
        else match info.parents with
          | [parent] => walk known remaining parent (commits ++ [info])
          | _ => pure none

/-- `seen_paths` and `objects` -/
structure Collected where
  seenPaths : ExtTreeSet String
  objects : List Bytes

/-- Inner loop body of `fetch_since`. -/
def collectChange (digest : Bytes → Bytes) (oid : GitHubCommitOid) (collected : Collected)
    (change : GitHubFileChange) : GitHubRoutine ApiError Collected := do
  if ¬ isObjectPath change.path then pure collected
  else if change.kind ≠ .added then check (.error (.immutableObjectViolation change.path))
  else if change.path ∈ collected.seenPaths then
    check (.error (.immutableObjectViolation change.path))
  else
    let bytes ← askApi (.readFileAt oid change.path) id
    if objectPath digest bytes ≠ change.path then check (.error (.objectPathMismatch change.path))
    else pure ⟨collected.seenPaths.insert change.path, collected.objects ++ [bytes]⟩

def collectCommit (digest : Bytes → Bytes) (collected : Collected) (commit : GitHubCommitInfo) :
    GitHubRoutine ApiError Collected :=
  commit.changes.foldlM (collectChange digest commit.oid) collected

/-- `OpaqueTransport::head` -/
def head : GitHubRoutine ApiError (Option GitHubCommitOid) := branchHead

def fetchSince (transport : GitHubTransport) (digest : Bytes → Bytes)
    (knownHead : Option GitHubCommitOid) :
    GitHubRoutine ApiError (FetchOutcome GitHubCommitOid) := do
  let currentHead ← branchHead
  if currentHead = knownHead then pure (.upToDate currentHead)
  else match knownHead, currentHead with
    | none, _ => pure (.baselineUnavailable currentHead)
    | some _, none => pure (.baselineUnavailable none)
    | some known, some head =>
      let walked ← walk known transport.maxIncrementalCommits head []
      match walked with
      | none => pure (.baselineUnavailable currentHead)
      | some commits =>
        let collected ← commits.reverse.foldlM (collectCommit digest) ⟨∅, []⟩
        pure (.changed head collected.objects)

/-- `additions_by_path`, as the list of additions in path order. -/
def additionsOf (digest : Bytes → Bytes) (objects : List Bytes) : List GitHubFileAddition :=
  let byPath : ExtTreeMap String Bytes :=
    objects.foldl (fun found bytes => found.insertIfNew (objectPath digest bytes) bytes) ∅
  byPath.toList.map fun entry => ⟨entry.1, entry.2⟩

def publish (digest : Bytes → Bytes) (expectedHead : Option GitHubCommitOid)
    (objects : List Bytes) :
    GitHubRoutine ApiError (PublishOutcome GitHubCommitOid) := do
  if objects.isEmpty then check (.error .emptyPublication)
  else match expectedHead with
    | none =>
      let current ← branchHead
      match current with
      | some currentHead => pure (.conflict (some currentHead))
      | none => check (.error .branchUninitialized)
    | some expected =>
      let result ← askApi
        (.createCommitOnBranch expected (additionsOf digest objects) commitMessage) id
      match result with
      | .created head =>
        if head = expected then check (.error .invalidCreatedHead)
        else pure (.published head)
      | .headChanged currentHead => pure (.conflict currentHead)

end GitHubTransport

end PrivateContinuum.Transport
