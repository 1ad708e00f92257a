import PrivateContinuum.Transport.GitHub

namespace PrivateContinuum.Transport

open Std (ExtTreeMap ExtTreeSet)
open PrivateContinuum.Library PrivateContinuum.Sync

/-- A commit on top of its only parent. -/
structure Commit where
  oid : GitHubCommitOid
  additions : List GitHubFileAddition

/-- The newest of the commits, or the seed. -/
def tip (seed : GitHubCommitOid) (commits : List Commit) : GitHubCommitOid :=
  (commits.getLast?.map Commit.oid).getD seed

@[simp] theorem tip_nil {seed : GitHubCommitOid} : tip seed [] = seed := rfl

@[simp] theorem tip_concat {seed : GitHubCommitOid} {commits : List Commit} {commit : Commit} :
    tip seed (commits ++ [commit]) = commit.oid := by
  simp [tip]

/-- The paths that the commits added. -/
def addedPaths (commits : List Commit) : List String :=
  commits.flatMap fun commit => commit.additions.map GitHubFileAddition.path

/-- A single-parent chain of commits, oldest first, over a root commit that holds
some files. -/
structure Branch where
  seed : GitHubCommitOid
  files : List String
  commits : List Commit
  distinct : (seed :: commits.map Commit.oid).Nodup
  once : ∀ commit ∈ commits, (commit.additions.map GitHubFileAddition.path).Nodup

namespace Branch

def head (branch : Branch) : GitHubCommitOid := tip branch.seed branch.commits

/-- The identities on the chain, from the root to the head. -/
def chain (branch : Branch) : List GitHubCommitOid := branch.seed :: branch.commits.map Commit.oid

/-- How a commit on top of the earlier ones changes the file of an addition. -/
def changeOf (branch : Branch) (before : List Commit)
    (addition : GitHubFileAddition) : GitHubFileChange :=
  ⟨addition.path, if addition.path ∈ branch.files ++ addedPaths before then .modified else .added⟩

/-- The information describes the commit that stands on the earlier ones. The files
may be listed in any order. -/
structure Describes (branch : Branch) (before : List Commit) (commit : Commit)
    (info : GitHubCommitInfo) : Prop where
  oid : info.oid = commit.oid
  parents : info.parents = [tip branch.seed before]
  changes : info.changes.Perm (commit.additions.map (branch.changeOf before))

end Branch

def GitHubOp.Reads : GitHubOp → Prop
  | .createCommitOnBranch _ _ _ => False
  | _ => True

variable {World ApiError : Type}

/-- The API reports the branch as it is, and commits exactly on top of the head. -/
structure Truthful (serve : Service World GitHubOp (GitHubOp.Answer ApiError))
    (view : World → Branch) : Prop where
  branchHead : ∀ world, (serve world .branchHead).1 = .ok (some (view world).head)
  rootInfo : ∀ world, ∃ info : GitHubCommitInfo, (serve world (.commitInfo (view world).seed)).1 =
    .ok info ∧ info.oid = (view world).seed ∧ info.parents = []
  commitInfo : ∀ world before commit later, (view world).commits = before ++ commit :: later →
    ∃ info, (serve world (.commitInfo commit.oid)).1 = .ok info ∧
      (view world).Describes before commit info
  readFileAt : ∀ world, ∀ commit ∈ (view world).commits, ∀ addition ∈ commit.additions,
    (serve world (.readFileAt commit.oid addition.path)).1 = .ok addition.bytes
  reads : ∀ world op, op.Reads → view (serve world op).2 = view world
  commits : ∀ world additions message, (additions.map GitHubFileAddition.path).Nodup →
    ∃ oid, (serve world (.createCommitOnBranch (view world).head additions message)).1 =
      .ok (.created oid) ∧
      (view (serve world (.createCommitOnBranch (view world).head additions message)).2).seed =
        (view world).seed ∧
      (view (serve world (.createCommitOnBranch (view world).head additions message)).2).files =
        (view world).files ∧
      (view (serve world (.createCommitOnBranch (view world).head additions message)).2).commits =
        (view world).commits ++ [⟨oid, additions⟩]
  refuses : ∀ world expected additions message, expected ≠ (view world).head →
    (serve world (.createCommitOnBranch expected additions message)).1 =
        .ok (.headChanged (some (view world).head)) ∧
      view (serve world (.createCommitOnBranch expected additions message)).2 = view world

/-- The branch was made from its root commit by the publications, oldest first. -/
inductive History (digest : Bytes → Bytes)
    (serve : Service World GitHubOp (GitHubOp.Answer ApiError)) (view : World → Branch) :
    List (List Bytes) → World → Prop
  | seeded {world : World} (empty : (view world).commits = []) : History digest serve view [] world
  | published {publications : List (List Bytes)} {world after : World}
      {expected : Option GitHubCommitOid}
      {objects : List Bytes} {head : GitHubCommitOid}
        (earlier : History digest serve view publications world)
      (accepted : Routine.Gives serve (GitHubTransport.publish digest expected objects) () world
        (.ok (.published head)) after) : History digest serve view (publications ++ [objects]) after
  | unchanged {publications : List (List Bytes)} {world after : World}
      (earlier : History digest serve view publications world) (same : view after = view world) :
      History digest serve view publications after

section Paths

open GitHubTransport

variable {digest : Bytes → Bytes}

theorem digitChar_injective {left right : Nat} (leftSmall : left < 16) (rightSmall : right < 16)
    (same : Nat.digitChar left = Nat.digitChar right) : left = right := by
  interval_cases left <;> interval_cases right <;> first | rfl | exact absurd same (by decide)

theorem hexByte_injective : Function.Injective hexByte := by
  intro left right same
  simp only [hexByte, List.cons.injEq, and_true] at same
  have leftBound := left.toNat_lt
  have rightBound := right.toNat_lt
  have high := digitChar_injective (by omega) (by omega) same.1
  have low := digitChar_injective (by omega) (by omega) same.2
  apply UInt8.toNat_inj.mp
  omega

theorem flatMap_hexByte_injective {left right : Bytes}
    (same : left.flatMap hexByte = right.flatMap hexByte) :
    left = right := by
  induction left generalizing right with
  | nil =>
    cases right with
    | nil => rfl
    | cons byte rest => simp [hexByte] at same
  | cons first others ih =>
    cases right with
    | nil => simp [hexByte] at same
    | cons byte rest =>
      rw [List.flatMap_cons, List.flatMap_cons] at same
      obtain ⟨firstSame, restSame⟩ := List.append_inj same rfl
      rw [hexByte_injective firstSame, ih restSame]

/-- Objects with the same file name have the same digest. -/
theorem objectPath_digest {left right : Bytes}
    (same : objectPath digest left = objectPath digest right) :
    digest left = digest right := by
  have listed := congrArg String.toList same
  simp only [objectPath, String.toList_append, String.toList_ofList] at listed
  exact flatMap_hexByte_injective (List.append_cancel_left (List.append_cancel_right listed))

theorem isObjectPath_objectPath (bytes : Bytes) :
    isObjectPath (objectPath digest bytes) = true := by
  simp only [isObjectPath, objectPath, String.toList_append, List.isPrefixOf_iff_prefix,
    List.append_assoc]
  exact List.prefix_append _ _

/-- The map that `additionsOf` lists, from a given start. -/
def byPath (digest : Bytes → Bytes) (start : ExtTreeMap String Bytes) (objects : List Bytes) :
    ExtTreeMap String Bytes :=
  objects.foldl (fun found bytes => found.insertIfNew (objectPath digest bytes) bytes) start

theorem byPath_found {start : ExtTreeMap String Bytes} {objects : List Bytes} {path : String}
    {bytes : Bytes} (found : (byPath digest start objects)[path]? = some bytes) :
    start[path]? = some bytes ∨ bytes ∈ objects ∧ path = objectPath digest bytes := by
  induction objects generalizing start with
  | nil => exact Or.inl found
  | cons first rest ih =>
    rcases ih found with stored | ⟨member, named⟩
    · rw [ExtTreeMap.getElem?_insertIfNew] at stored
      split at stored
      · rename_i matched
        obtain rfl := Option.some.inj stored
        exact Or.inr ⟨List.mem_cons_self, (Std.LawfulEqCmp.eq_of_compare matched.1).symm⟩
      · exact Or.inl stored
    · exact Or.inr ⟨List.mem_cons_of_mem _ member, named⟩

theorem mem_byPath {start : ExtTreeMap String Bytes} {objects : List Bytes} {path : String} :
    path ∈ byPath digest start objects ↔
    path ∈ start ∨ ∃ bytes ∈ objects, objectPath digest bytes = path := by
  induction objects generalizing start with
  | nil => simp [byPath]
  | cons first rest ih =>
    change path ∈ byPath digest (start.insertIfNew (objectPath digest first) first) rest ↔ _
    rw [ih, ExtTreeMap.mem_insertIfNew, Std.LawfulEqCmp.compare_eq_iff_eq, List.exists_mem_cons_iff]
    tauto

theorem mem_additionsOf {objects : List Bytes} {addition : GitHubFileAddition}
    (member : addition ∈ additionsOf digest objects) :
    addition.bytes ∈ objects ∧ addition.path = objectPath digest addition.bytes := by
  obtain ⟨entry, stored, same⟩ := List.mem_map.mp member
  subst same
  rw [ExtTreeMap.mem_toList_iff_getElem?_eq_some] at stored
  rcases byPath_found stored with absent | found
  · simp at absent
  · exact found

theorem additionsOf_paths_nodup {objects : List Bytes} :
    ((additionsOf digest objects).map GitHubFileAddition.path).Nodup := by
  rw [additionsOf, List.map_map]
  exact (toList_distinct _).map _ fun _ _ distinct => distinct

/-- Without collisions, the additions are the distinct objects. -/
theorem additionsOf_objects {objects : List Bytes}
    (free : ∀ left ∈ objects, ∀ right ∈ objects, digest left = digest right → left = right) :
    ((additionsOf digest objects).map GitHubFileAddition.bytes).Nodup ∧
      ∀ bytes, bytes ∈ (additionsOf digest objects).map GitHubFileAddition.bytes ↔
        bytes ∈ objects := by
  constructor
  · have named : (additionsOf digest objects).map GitHubFileAddition.path =
        ((additionsOf digest objects).map GitHubFileAddition.bytes).map
          (objectPath digest) := by
      rw [List.map_map]
      exact List.map_congr_left fun addition member => (mem_additionsOf member).2
    have paths : ((additionsOf digest objects).map GitHubFileAddition.path).Nodup :=
      additionsOf_paths_nodup
    rw [named] at paths
    exact paths.of_map _
  · intro bytes
    constructor
    · intro member
      obtain ⟨addition, listed, same⟩ := List.mem_map.mp member
      subst same
      exact (mem_additionsOf listed).1
    · intro member
      have stored : objectPath digest bytes ∈ byPath digest ∅ objects :=
        mem_byPath.mpr (Or.inr ⟨bytes, member, rfl⟩)
      obtain ⟨other, found⟩ := map_mem_iff.mp stored
      rcases byPath_found found with absent | ⟨otherMember, named⟩
      · simp at absent
      · have same := free bytes member other otherMember (objectPath_digest named)
        subst same
        refine List.mem_map.mpr ⟨⟨objectPath digest bytes, bytes⟩, ?_, rfl⟩
        exact List.mem_map.mpr ⟨(objectPath digest bytes, bytes),
          ExtTreeMap.mem_toList_iff_getElem?_eq_some.mpr found, rfl⟩

end Paths

section Publishing

variable {digest : Bytes → Bytes} {serve : Service World GitHubOp (GitHubOp.Answer ApiError)}
  {view : World → Branch} {world after : World} {objects : List Bytes}

open GitHubTransport Routine

theorem tip_ne_later {branch : Branch} {start rest later : List Commit} {commit : Commit}
    (split : branch.commits = start ++ rest ++ commit :: later) :
    commit.oid ≠ tip branch.seed start := by
  have distinct := branch.distinct
  rw [split, List.append_assoc, List.map_append, ← List.cons_append, List.nodup_append] at distinct
  have listed : commit.oid ∈ (rest ++ commit :: later).map Commit.oid := by simp
  intro same
  cases start using List.reverseRecOn with
  | nil => exact distinct.2.2 branch.seed List.mem_cons_self commit.oid listed same.symm
  | append_singleton earlier last =>
    rw [tip_concat] at same
    exact distinct.2.2 last.oid (by simp) commit.oid listed same.symm

/-- A publication on top of the head becomes the next commit. -/
theorem publish_head (digest : Bytes → Bytes) (truthful : Truthful serve view)
    (some_objects : objects ≠ []) :
    ∃ head after, Gives serve (publish digest (some (view world).head) objects) () world
        (.ok (.published head)) after ∧ (view after).seed = (view world).seed ∧
      (view after).files = (view world).files ∧
      (view after).commits = (view world).commits ++ [⟨head, additionsOf digest objects⟩] := by
  obtain ⟨oid, created, seed, files, commits⟩ := truthful.commits world (additionsOf digest objects)
    commitMessage additionsOf_paths_nodup
  refine ⟨oid, _, ?_, seed, files, commits⟩
  have moved : oid ≠ (view world).head := by
    have apart := @tip_ne_later _ _ [] [] _ (by rwa [List.append_nil])
    rwa [seed] at apart
  rw [publish, if_neg (by simpa using some_objects)]
  refine Gives.bind (gives_ask created) ?_
  change Gives serve (if oid = (view world).head then _ else _) () _ _ _
  rw [if_neg moved]
  exact gives_pure

/-- Any other publication is refused and changes nothing. -/
theorem publish_stale (digest : Bytes → Bytes) (truthful : Truthful serve view)
    (some_objects : objects ≠ []) {expected : GitHubCommitOid}
    (stale : expected ≠ (view world).head) :
    ∃ after, Gives serve (publish digest (some expected) objects) () world
      (.ok (.conflict (some (view world).head))) after ∧ view after = view world := by
  obtain ⟨refused, same⟩ :=
    truthful.refuses world expected (additionsOf digest objects) commitMessage stale
  refine ⟨_, ?_, same⟩
  rw [publish, if_neg (by simpa using some_objects)]
  exact Gives.bind (gives_ask refused) gives_pure

theorem publish_without_cursor (digest : Bytes → Bytes) (world : World)
    (truthful : Truthful serve view) (some_objects : objects ≠ []) :
    ∃ after, Gives serve (publish digest none objects) () world
      (.ok (.conflict (some (view world).head))) after := by
  refine ⟨(serve world .branchHead).2, ?_⟩
  rw [publish, if_neg (by simpa using some_objects)]
  exact Gives.bind (gives_ask (truthful.branchHead world)) gives_pure

theorem gives_unique {Value Failure : Type}
    {routine : Routine GitHubOp (GitHubOp.Answer ApiError) Unit Failure Value}
    {first second : Except Failure Value} {before middle last : World}
    (one : Gives serve routine () before first middle)
    (other : Gives serve routine () before second last) :
    first = second ∧ middle = last := by
  have same := one.symm.trans other
  simp only [Prod.mk.injEq, and_true] at same
  exact same

/-- An accepted publication named the head and holds an object. -/
theorem publish_accepted (truthful : Truthful serve view) {expected : Option GitHubCommitOid}
    {head : GitHubCommitOid}
    (accepted : Gives serve (publish digest expected objects) () world
      (.ok (.published head)) after) :
    (view after).files = (view world).files ∧
      (view after).commits = (view world).commits ++ [⟨head, additionsOf digest objects⟩] := by
  by_cases empty : objects = []
  · subst empty
    have failed : Gives serve (publish digest expected []) () world
        (.error .emptyPublication) world :=
      gives_check
    exact nomatch (gives_unique accepted failed).1
  cases expected with
  | none =>
    obtain ⟨last, refused⟩ := publish_without_cursor digest world truthful empty
    exact nomatch (gives_unique accepted refused).1
  | some named =>
    by_cases current : named = (view world).head
    · subst current
      obtain ⟨made, last, given, _, files, commits⟩ := publish_head digest truthful empty
      obtain ⟨same, ends⟩ := gives_unique accepted given
      cases same
      subst ends
      exact ⟨files, commits⟩
    · obtain ⟨last, refused, _⟩ := publish_stale digest truthful empty current
      exact nomatch (gives_unique accepted refused).1

/-- The commits of the branch are the publications. -/
theorem History.commits (truthful : Truthful serve view) {publications : List (List Bytes)}
    (history : History digest serve view publications world) :
    List.Forall₂ (fun commit objects => commit.additions = additionsOf digest objects)
      (view world).commits
      publications := by
  induction history with
  | seeded empty => exact empty ▸ List.Forall₂.nil
  | published earlier accepted ih =>
    rw [(publish_accepted truthful accepted).2]
    exact List.rel_append ih (List.Forall₂.cons rfl List.Forall₂.nil)
  | unchanged earlier same ih => exact same ▸ ih

end Publishing

/-- No commit touches a file that was there before. -/
structure Branch.Clean (branch : Branch) : Prop where
  once : (addedPaths branch.commits).Nodup
  unseeded : ∀ path ∈ addedPaths branch.commits, path ∉ branch.files

/-- The change of a file that was not there before. -/
def addedChange (addition : GitHubFileAddition) : GitHubFileChange := ⟨addition.path, .added⟩

/-- The information lists the additions of the commit, in some order. -/
def Shows (commit : Commit) (info : GitHubCommitInfo) : Prop :=
  info.oid = commit.oid ∧ ∃ listed : List GitHubFileAddition, listed.Perm commit.additions ∧
    info.changes = listed.map addedChange

theorem Branch.Describes.shows {branch : Branch} {before later : List Commit} {commit : Commit}
    {info : GitHubCommitInfo} (clean : branch.Clean)
    (split : branch.commits = before ++ commit :: later)
    (described : branch.Describes before commit info) : Shows commit info := by
  have fresh : commit.additions.map (branch.changeOf before) =
      commit.additions.map addedChange := by
    apply List.map_congr_left
    intro addition member
    have once := clean.once
    have unseeded := clean.unseeded addition.path
    simp only [addedPaths, split, List.flatMap_append, List.flatMap_cons,
      List.mem_append] at once unseeded
    have own : addition.path ∈ commit.additions.map GitHubFileAddition.path :=
      List.mem_map_of_mem member
    have absent : addition.path ∉ branch.files ++ addedPaths before := by
      rw [List.mem_append, not_or]
      refine ⟨unseeded (Or.inr (Or.inl own)), ?_⟩
      intro earlier
      exact (List.nodup_append.mp once).2.2 _ earlier _ (List.mem_append_left _ own) rfl
    rw [Branch.changeOf, if_neg absent, addedChange]
  have changes := described.changes
  rw [fresh] at changes
  have mapped : List.Forall₂ (fun change addition => change = addedChange addition)
      (commit.additions.map addedChange) commit.additions := by
    rw [List.forall₂_map_left_iff]
    exact List.forall₂_same.mpr fun _ _ => rfl
  obtain ⟨listed, each, order⟩ := List.perm_comp_forall₂ changes mapped
  refine ⟨described.oid, listed, order, ?_⟩
  rw [← List.forall₂_eq_eq_eq, List.forall₂_map_right_iff]
  exact each

section Fetching

variable {digest : Bytes → Bytes} {serve : Service World GitHubOp (GitHubOp.Answer ApiError)}
  {view : World → Branch} {world after : World}

open GitHubTransport Routine

/-- One round of the walk, at a commit of the chain. -/
theorem walk_commit (truthful : Truthful serve view) {known : GitHubCommitOid} (remaining : Nat)
    {before later : List Commit} {commit : Commit} (commits : List GitHubCommitInfo)
    (split : (view world).commits = before ++ commit :: later) (unknown : commit.oid ≠ known) :
    ∃ info now, (view world).Describes before commit info ∧ view now = view world ∧
      ∀ outcome after,
        Gives serve (walk known remaining (tip (view world).seed before) (commits ++ [info])) ()
        now outcome after →
        Gives serve (walk known (remaining + 1) commit.oid commits) () world outcome after := by
  obtain ⟨info, told, described⟩ := truthful.commitInfo world before commit later split
  refine ⟨info, _, described, truthful.reads world (.commitInfo commit.oid) trivial, ?_⟩
  intro outcome after further
  rw [walk, if_neg unknown]
  refine Gives.bind (gives_ask told) ?_
  change Gives serve (if info.oid ≠ commit.oid then _ else _) () _ _ _
  rw [if_neg (not_not.mpr described.oid), described.parents]
  exact further

theorem walk_known {known : GitHubCommitOid} {remaining : Nat} {commits : List GitHubCommitInfo} :
    (walk known remaining known commits : GitHubRoutine ApiError _) = pure (some commits) := by
  cases remaining <;> rw [walk, if_pos rfl]

/-- A known commit within reach gives the commits after it. -/
theorem walk_found (truthful : Truthful serve view) {start rest later : List Commit}
    {remaining : Nat} (commits : List GitHubCommitInfo) (clean : (view world).Clean)
    (split : (view world).commits = start ++ rest ++ later) (near : rest.length ≤ remaining) :
    ∃ infos after, Gives serve (walk (tip (view world).seed start) remaining
        (tip (view world).seed (start ++ rest)) commits) () world
          (.ok (some (commits ++ infos.reverse))) after ∧
      view after = view world ∧ List.Forall₂ Shows rest infos := by
  induction rest using List.reverseRecOn generalizing world later remaining commits with
  | nil =>
    refine ⟨[], world, ?_, rfl, List.Forall₂.nil⟩
    rw [List.append_nil, walk_known, List.reverse_nil, List.append_nil]
    exact gives_pure
  | append_singleton rest commit ih =>
    rw [List.length_append, List.length_singleton] at near
    obtain ⟨fewer, rfl⟩ : ∃ fewer, remaining = fewer + 1 := ⟨remaining - 1, by omega⟩
    have placed : (view world).commits = start ++ rest ++ commit :: later := by
      rw [split, ← List.append_assoc, List.append_assoc, List.singleton_append]
    obtain ⟨info, now, described, same, goes⟩ :=
      walk_commit truthful fewer commits placed (tip_ne_later placed)
    obtain ⟨infos, after, given, kept, shown⟩ := @ih now (commit :: later) fewer (commits ++ [info])
      (same ▸ clean) (same ▸ placed) (by omega)
    refine ⟨infos ++ [info], after, ?_, kept.trans same, ?_⟩
    · rw [← List.append_assoc, tip_concat]
      apply goes
      rw [same] at given
      simpa using given
    · exact List.rel_append shown
        (List.Forall₂.cons (described.shows clean placed) List.Forall₂.nil)

/-- Without the known commit within reach there is no range. -/
theorem walk_lost (truthful : Truthful serve view) {before later : List Commit} {remaining : Nat}
    {known : GitHubCommitOid} (commits : List GitHubCommitInfo)
    (split : (view world).commits = before ++ later)
    (far : ∀ start rest, before = start ++ rest → rest.length ≤ remaining →
      tip (view world).seed start ≠ known) :
    ∃ after, Gives serve (walk known remaining (tip (view world).seed before) commits) () world
      (.ok none) after ∧ view after = view world := by
  induction before using List.reverseRecOn generalizing world later remaining commits with
  | nil =>
    have unknown := far [] [] rfl (Nat.zero_le _)
    cases remaining with
    | zero =>
      refine ⟨world, ?_, rfl⟩
      rw [walk, if_neg unknown]
      exact gives_pure
    | succ fewer =>
      obtain ⟨info, told, oid, parents⟩ := truthful.rootInfo world
      refine ⟨_, ?_, truthful.reads world (.commitInfo (view world).seed) trivial⟩
      rw [tip_nil] at unknown ⊢
      rw [walk, if_neg unknown]
      refine Gives.bind (gives_ask told) ?_
      change Gives serve (if info.oid ≠ (view world).seed then _ else _) () _ _ _
      rw [if_neg (not_not.mpr oid), parents]
      exact gives_pure
  | append_singleton before commit ih =>
    have unknown := far (before ++ [commit]) [] (List.append_nil _).symm (Nat.zero_le _)
    rw [tip_concat] at unknown ⊢
    cases remaining with
    | zero =>
      refine ⟨world, ?_, rfl⟩
      rw [walk, if_neg unknown]
      exact gives_pure
    | succ fewer =>
      have placed : (view world).commits = before ++ commit :: later := by
        rw [split, List.append_assoc, List.singleton_append]
      obtain ⟨info, now, _, same, goes⟩ := walk_commit truthful fewer commits placed unknown
      have further : ∀ start rest, before = start ++ rest → rest.length ≤ fewer →
          tip (view now).seed start ≠ known := by
        intro start rest parts near
        rw [same]
        refine far start (rest ++ [commit]) (by rw [parts, List.append_assoc]) ?_
        rw [List.length_append, List.length_singleton]
        omega
      obtain ⟨after, given, kept⟩ := @ih now (commit :: later) fewer (commits ++ [info])
        (same ▸ placed) further
      refine ⟨after, goes _ _ ?_, kept.trans same⟩
      rwa [same] at given

/-- Every file is named after what it holds. -/
def Branch.Named (digest : Bytes → Bytes) (branch : Branch) : Prop :=
  ∀ commit ∈ branch.commits, ∀ addition ∈ commit.additions,
    addition.path = objectPath digest addition.bytes

theorem collectChange_added (truthful : Truthful serve view) (named : (view world).Named digest)
    {commit : Commit} {addition : GitHubFileAddition} {collected : Collected}
    (onBranch : commit ∈ (view world).commits) (member : addition ∈ commit.additions)
    (unseen : addition.path ∉ collected.seenPaths) :
    ∃ after, Gives serve (collectChange digest commit.oid collected (addedChange addition)) () world
        (.ok ⟨collected.seenPaths.insert addition.path,
          collected.objects ++ [addition.bytes]⟩) after ∧
      view after = view world := by
  have path := named commit onBranch addition member
  have prefixed : isObjectPath addition.path = true := path ▸ isObjectPath_objectPath _
  have told := truthful.readFileAt world commit onBranch addition member
  refine ⟨_, ?_, truthful.reads world (.readFileAt commit.oid addition.path) trivial⟩
  rw [collectChange, addedChange, if_neg (not_not.mpr prefixed), if_neg (not_not.mpr rfl),
    if_neg unseen]
  refine Gives.bind (gives_ask told) ?_
  change Gives serve (if objectPath digest addition.bytes ≠ addition.path then _ else _) () _ _ _
  rw [if_neg (not_not.mpr path.symm)]
  exact gives_pure

theorem collectChange_listed (truthful : Truthful serve view) (named : (view world).Named digest)
    {commit : Commit} {listed : List GitHubFileAddition} {collected : Collected}
    (onBranch : commit ∈ (view world).commits)
    (members : ∀ addition ∈ listed, addition ∈ commit.additions)
    (distinct : (listed.map GitHubFileAddition.path).Nodup)
    (unseen : ∀ addition ∈ listed, addition.path ∉ collected.seenPaths) :
    ∃ seen after,
        Gives serve ((listed.map addedChange).foldlM (collectChange digest commit.oid) collected) ()
        world (.ok ⟨seen, collected.objects ++ listed.map GitHubFileAddition.bytes⟩) after ∧
      view after = view world ∧
      ∀ path, path ∈ seen → path ∈ collected.seenPaths ∨
      path ∈ listed.map GitHubFileAddition.path := by
  induction listed generalizing world collected with
  | nil =>
    refine ⟨collected.seenPaths, world, ?_, rfl, fun path member => Or.inl member⟩
    rw [List.map_nil, List.map_nil, List.append_nil]
    exact gives_pure
  | cons first rest ih =>
    rw [List.map_cons, List.nodup_cons] at distinct
    obtain ⟨now, given, same⟩ :=
      collectChange_added truthful named onBranch (members first List.mem_cons_self)
      (unseen first List.mem_cons_self)
    have stillUnseen : ∀ addition ∈ rest,
        addition.path ∉ collected.seenPaths.insert first.path := by
      intro addition member stored
      rw [ExtTreeSet.mem_insert, Std.LawfulEqCmp.compare_eq_iff_eq] at stored
      rcases stored with repeated | earlier
      · exact distinct.1 (repeated ▸ List.mem_map_of_mem member)
      · exact unseen addition (List.mem_cons_of_mem _ member) earlier
    obtain ⟨seen, after, further, kept, covered⟩ := @ih now (same ▸ named)
      ⟨collected.seenPaths.insert first.path, collected.objects ++ [first.bytes]⟩ (same ▸ onBranch)
      (fun addition member => members addition (List.mem_cons_of_mem _ member))
        distinct.2 stillUnseen
    refine ⟨seen, after, ?_, kept.trans same, ?_⟩
    · rw [List.map_cons, List.foldlM_cons,
        List.map_cons, ← List.singleton_append, ← List.append_assoc]
      exact Gives.bind given further
    · intro path member
      rw [List.map_cons, List.mem_cons]
      rcases covered path member with stored | later
      · rw [ExtTreeSet.mem_insert, Std.LawfulEqCmp.compare_eq_iff_eq] at stored
        rcases stored with own | earlier
        · exact Or.inr (Or.inl own.symm)
        · exact Or.inl earlier
      · exact Or.inr (Or.inr later)

/-- The objects of the shown commits, commit by commit. -/
theorem collectCommit_shown (truthful : Truthful serve view) (named : (view world).Named digest)
    {commits : List Commit} {infos : List GitHubCommitInfo} (collected : Collected)
    (shown : List.Forall₂ Shows commits infos)
    (onBranch : ∀ commit ∈ commits, commit ∈ (view world).commits)
    (distinct : (addedPaths commits).Nodup)
    (unseen : ∀ path ∈ addedPaths commits, path ∉ collected.seenPaths) :
    ∃ seen parts after, Gives serve (infos.foldlM (collectCommit digest) collected) () world
        (.ok ⟨seen, collected.objects ++ parts.flatten⟩) after ∧ view after = view world ∧
      List.Forall₂ (fun part commit =>
        part.Perm (commit.additions.map GitHubFileAddition.bytes)) parts
        commits := by
  induction shown generalizing world collected with
  | nil =>
    refine ⟨collected.seenPaths, [], world, ?_, rfl, List.Forall₂.nil⟩
    rw [List.flatten_nil, List.append_nil]
    exact gives_pure
  | @cons commit info rest infos shows later ih =>
    obtain ⟨oid, listed, order, changes⟩ := shows
    rw [addedPaths, List.flatMap_cons] at distinct
    obtain ⟨ownDistinct, restDistinct, apart⟩ := List.nodup_append.mp distinct
    have ownPath : ∀ addition ∈ listed,
        addition.path ∈ commit.additions.map GitHubFileAddition.path :=
      fun addition member => List.mem_map_of_mem (order.mem_iff.mp member)
    obtain ⟨seen, now, given, same, covered⟩ := collectChange_listed truthful named
      (onBranch commit List.mem_cons_self)
      (fun addition member => order.mem_iff.mp member) ((order.map _).nodup_iff.mpr ownDistinct)
      (fun addition member => unseen _ (List.mem_append_left _ (ownPath addition member)))
    have stillUnseen : ∀ path ∈ addedPaths rest, path ∉ seen := by
      intro path member stored
      rcases covered path stored with earlier | own
      · exact unseen path (List.mem_append_right _ member) earlier
      · exact apart path ((order.map _).mem_iff.mp own) path member rfl
    obtain ⟨last, parts, after, further, kept, permuted⟩ := @ih now (same ▸ named)
      ⟨seen, collected.objects ++ listed.map GitHubFileAddition.bytes⟩
      (fun other member => same ▸ onBranch other (List.mem_cons_of_mem _ member))
        restDistinct stillUnseen
    refine ⟨last, listed.map GitHubFileAddition.bytes :: parts, after, ?_, kept.trans same,
      List.Forall₂.cons (order.map _) permuted⟩
    rw [List.foldlM_cons, List.flatten_cons, ← List.append_assoc]
    refine Gives.bind ?_ further
    rw [collectCommit, oid, changes]
    exact given

variable (transport : GitHubTransport)

theorem fetchSince_current (truthful : Truthful serve view) :
    ∃ after, Gives serve (transport.fetchSince digest (some (view world).head)) () world
      (.ok (.upToDate (some (view world).head))) after ∧ view after = view world := by
  refine ⟨_, ?_, truthful.reads world .branchHead trivial⟩
  refine Gives.bind (gives_ask (truthful.branchHead world)) ?_
  change Gives serve (if some (view world).head = some (view world).head then _ else _) () _ _ _
  rw [if_pos rfl]
  exact gives_pure

/-- A fetch of an older commit goes on with the walk from the head. -/
theorem fetchSince_walks (truthful : Truthful serve view) {known : GitHubCommitOid}
    (stale : (view world).head ≠ known) :
    ∃ now, view now = view world ∧
      (∀ after, Gives serve (walk known transport.maxIncrementalCommits (view world).head [])
          () now (.ok none) after → Gives serve (transport.fetchSince digest (some known)) () world
          (.ok (.baselineUnavailable (some (view world).head))) after) ∧
      ∀ commits collected middle after,
        Gives serve (walk known transport.maxIncrementalCommits (view world).head []) () now
          (.ok (some commits)) middle →
        Gives serve (commits.reverse.foldlM (collectCommit digest) ⟨∅, []⟩) () middle
          (.ok collected) after →
        Gives serve (transport.fetchSince digest (some known)) () world
          (.ok (.changed (view world).head collected.objects)) after := by
  have differs : some (view world).head ≠ some known := fun same => stale (Option.some.inj same)
  refine ⟨_, truthful.reads world .branchHead trivial, ?_, ?_⟩
  · intro after walked
    refine Gives.bind (gives_ask (truthful.branchHead world)) ?_
    change Gives serve (if some (view world).head = some known then _ else _) () _ _ _
    rw [if_neg differs]
    exact Gives.bind walked gives_pure
  · intro commits collected middle after walked gathered
    refine Gives.bind (gives_ask (truthful.branchHead world)) ?_
    change Gives serve (if some (view world).head = some known then _ else _) () _ _ _
    rw [if_neg differs]
    exact Gives.bind walked (Gives.bind gathered gives_pure)

theorem fetchSince_found (truthful : Truthful serve view) (clean : (view world).Clean)
    (named : (view world).Named digest) {start rest : List Commit}
    (split : (view world).commits = start ++ rest) (behind : rest ≠ [])
    (near : rest.length ≤ transport.maxIncrementalCommits) :
    ∃ parts after,
        Gives serve (transport.fetchSince digest (some (tip (view world).seed start))) () world
        (.ok (.changed (view world).head parts.flatten)) after ∧ view after = view world ∧
      List.Forall₂ (fun part commit =>
        part.Perm (commit.additions.map GitHubFileAddition.bytes)) parts
        rest := by
  have stale : (view world).head ≠ tip (view world).seed start := by
    obtain ⟨earlier, commit, rfl⟩ := List.eq_nil_or_concat' rest |>.resolve_left behind
    have placed : (view world).commits = start ++ earlier ++ [commit] := by
      rw [split, List.append_assoc]
    rw [Branch.head, placed, tip_concat]
    exact tip_ne_later placed
  obtain ⟨now, same, _, goes⟩ := fetchSince_walks transport truthful stale
  have splitNow : (view now).commits = start ++ rest ++ [] := by rw [same, split, List.append_nil]
  obtain ⟨infos, middle, walked, kept, shown⟩ := walk_found truthful [] (same ▸ clean) splitNow near
  rw [same] at kept walked
  have once := clean.once
  have onBranch : ∀ commit ∈ rest, commit ∈ (view middle).commits := by
    intro commit member
    rw [kept, split]
    exact List.mem_append_right _ member
  rw [addedPaths, split, List.flatMap_append] at once
  obtain ⟨seen, parts, after, gathered, last, permuted⟩ := collectCommit_shown truthful
    (kept ▸ named) ⟨∅, []⟩ shown onBranch (List.nodup_append.mp once).2.1 (by simp)
  refine ⟨parts, after, ?_, last.trans kept, permuted⟩
  rw [← split, List.nil_append] at walked
  apply goes infos.reverse ⟨seen, parts.flatten⟩ middle after walked
  rw [List.reverse_reverse]
  exact gathered

theorem fetchSince_lost (truthful : Truthful serve view) {known : GitHubCommitOid}
    (far : ∀ start rest, (view world).commits = start ++ rest →
      rest.length ≤ transport.maxIncrementalCommits → tip (view world).seed start ≠ known) :
    ∃ after, Gives serve (transport.fetchSince digest (some known)) () world
      (.ok (.baselineUnavailable (some (view world).head))) after ∧ view after = view world := by
  have stale : (view world).head ≠ known := far _ [] (List.append_nil _).symm (Nat.zero_le _)
  obtain ⟨now, same, goes, _⟩ := fetchSince_walks transport truthful stale
  have whole : (view now).commits = (view world).commits ++ [] := by rw [same, List.append_nil]
  obtain ⟨after, walked, kept⟩ := walk_lost truthful [] whole (by rw [same]; exact far)
  rw [same] at walked
  exact ⟨after, goes after walked, kept.trans same⟩

end Fetching

end PrivateContinuum.Transport
