import PrivateContinuum.Transport.GitHubHistory

/-! The GitHub transport is an append-only log with compare-and-swap: a fetch gives
a complete range or none, and a publication lands exactly on the head. -/

namespace PrivateContinuum.Transport

open PrivateContinuum.Library PrivateContinuum.Sync
open GitHubTransport Routine

variable {World ApiError : Type} {digest : Bytes → Bytes}
  {serve : Service World GitHubOp (GitHubOp.Answer ApiError)} {view : World → Branch}
  {world : World} {publications : List (List Bytes)}

section Publications

/-- Which commits hold which publications. -/
def Holds (digest : Bytes → Bytes) (commit : Commit) (objects : List Bytes) : Prop :=
  commit.additions = additionsOf digest objects

theorem addedPaths_publications {commits : List Commit}
    (held : List.Forall₂ (Holds digest) commits publications) :
    addedPaths commits =
      publications.flatMap fun objects =>
      (additionsOf digest objects).map GitHubFileAddition.path := by
  induction held with
  | nil => rfl
  | cons same _ ih => rw [addedPaths, List.flatMap_cons, List.flatMap_cons, ← ih, same, addedPaths]

theorem path_of_publication {objects : List Bytes} {path : String}
    (member : path ∈ (additionsOf digest objects).map GitHubFileAddition.path) :
    ∃ bytes ∈ objects, path = objectPath digest bytes := by
  obtain ⟨addition, listed, same⟩ := List.mem_map.mp member
  subst same
  exact ⟨addition.bytes, mem_additionsOf listed⟩

/-- Publications without a common object, on a root without any of them, never touch
a file twice. -/
theorem clean_of_publications {branch : Branch}
    (held : List.Forall₂ (Holds digest) branch.commits publications)
    (apart : publications.Pairwise List.Disjoint)
    (free : ∀ left ∈ publications.flatten, ∀ right ∈ publications.flatten,
      digest left = digest right → left = right)
    (unseeded : ∀ bytes ∈ publications.flatten, objectPath digest bytes ∉ branch.files) :
    branch.Clean := by
  constructor
  · rw [addedPaths_publications held, List.nodup_flatMap]
    refine ⟨fun objects _ => additionsOf_paths_nodup, ?_⟩
    apply List.Pairwise.imp_of_mem _ apart
    intro first second firstMember secondMember disjoint path inFirst inSecond
    obtain ⟨left, leftMember, named⟩ := path_of_publication inFirst
    obtain ⟨right, rightMember, alsoNamed⟩ := path_of_publication inSecond
    have same := free left (List.mem_flatten_of_mem firstMember leftMember) right
      (List.mem_flatten_of_mem secondMember rightMember)
        (objectPath_digest (named.symm.trans alsoNamed))
    subst same
    exact disjoint leftMember rightMember
  · intro path member
    rw [addedPaths_publications held, List.mem_flatMap] at member
    obtain ⟨objects, published, listed⟩ := member
    obtain ⟨bytes, inside, named⟩ := path_of_publication listed
    exact named ▸ unseeded bytes (List.mem_flatten_of_mem published inside)

theorem named_of_publications {branch : Branch}
    (held : List.Forall₂ (Holds digest) branch.commits publications) :
    branch.Named digest := by
  intro commit onBranch addition member
  obtain ⟨objects, _, same⟩ := forall₂_mem_left held onBranch
  rw [same] at member
  exact (mem_additionsOf member).2

/-- The part holds every object of the publication, each once. -/
def Exactly (part objects : List Bytes) :
    Prop := part.Nodup ∧ ∀ bytes, bytes ∈ part ↔ bytes ∈ objects

theorem exactly_parts {commits : List Commit} {parts : List (List Bytes)}
    (held : List.Forall₂ (Holds digest) commits publications)
    (free : ∀ left ∈ publications.flatten, ∀ right ∈ publications.flatten,
      digest left = digest right → left = right)
    (permuted : List.Forall₂ (fun part commit =>
      part.Perm (commit.additions.map GitHubFileAddition.bytes)) parts commits) :
    List.Forall₂ Exactly parts publications := by
  induction held generalizing parts with
  | nil =>
    cases permuted
    exact List.Forall₂.nil
  | @cons commit objects commits publications same _ ih =>
    cases permuted with
    | cons order rest =>
      rw [same] at order
      have own : ∀ bytes ∈ objects, bytes ∈ (objects :: publications).flatten :=
        fun bytes member => List.mem_flatten_of_mem List.mem_cons_self member
      have later : ∀ bytes ∈ publications.flatten, bytes ∈ (objects :: publications).flatten := by
        intro bytes member
        rw [List.flatten_cons]
        exact List.mem_append_right _ member
      obtain ⟨distinct, members⟩ := additionsOf_objects
        fun left leftMember right rightMember =>
        free left (own left leftMember) right (own right rightMember)
      refine List.Forall₂.cons ⟨order.nodup_iff.mpr distinct, ?_⟩ (ih ?_ rest)
      · exact fun bytes => order.mem_iff.trans (members bytes)
      · exact fun left leftMember right rightMember =>
          free left (later left leftMember) right (later right rightMember)

theorem nodup_of_exactly {parts : List (List Bytes)}
    (exact_parts : List.Forall₂ Exactly parts publications)
    (apart : publications.Pairwise List.Disjoint) : parts.flatten.Nodup := by
  induction exact_parts with
  | nil => exact List.nodup_nil
  | @cons part objects parts publications first rest ih =>
    obtain ⟨disjoint, others⟩ := List.pairwise_cons.mp apart
    rw [List.flatten_cons, List.nodup_append]
    refine ⟨first.1, ih others, ?_⟩
    intro bytes inFirst other inRest same
    subst same
    obtain ⟨later, listed, inLater⟩ := List.mem_flatten.mp inRest
    obtain ⟨published, member, exactly⟩ := forall₂_mem_left rest listed
    exact disjoint published member ((first.2 bytes).mp inFirst) ((exactly.2 bytes).mp inLater)

end Publications

section Chain

theorem Branch.chain_at {branch : Branch} {position : Nat} {known : GitHubCommitOid}
    (found : branch.chain[position]? = some known) :
    position ≤ branch.commits.length ∧ tip branch.seed (branch.commits.take position) = known := by
  cases position with
  | zero => exact ⟨Nat.zero_le _, Option.some.inj found⟩
  | succ earlier =>
    rw [Branch.chain, List.getElem?_cons_succ, List.getElem?_map, Option.map_eq_some_iff] at found
    obtain ⟨commit, listed, same⟩ := found
    obtain ⟨inside, _⟩ := List.getElem?_eq_some_iff.mp listed
    refine ⟨inside, ?_⟩
    rw [List.take_add_one, listed, Option.toList_some, tip_concat, same]

theorem Branch.tip_mem_chain {branch : Branch} {start rest : List Commit}
    (split : branch.commits = start ++ rest) :
    branch.chain[start.length]? = some (tip branch.seed start) := by
  cases start using List.reverseRecOn with
  | nil => rfl
  | append_singleton earlier commit =>
    rw [Branch.chain, split, tip_concat, List.length_append, List.length_singleton,
      List.getElem?_cons_succ, List.getElem?_map]
    simp

theorem Branch.chain_position_unique {branch : Branch} {first second : Nat}
    {known : GitHubCommitOid} (one : branch.chain[first]? = some known)
    (other : branch.chain[second]? = some known) : first = second := by
  obtain ⟨inside, _⟩ := List.getElem?_eq_some_iff.mp one
  exact (List.getElem?_inj inside branch.distinct).mp (one.trans other.symm)

end Chain

section Calls

def isCommitInfo (event : Event GitHubOp (GitHubOp.Answer ApiError)) : Bool :=
  match event.1 with
  | .commitInfo _ => true
  | _ => false

def isReadFile (event : Event GitHubOp (GitHubOp.Answer ApiError)) : Bool :=
  match event.1 with
  | .readFileAt _ _ => true
  | _ => false

/-- How many file changes the answer reports. -/
def reportedChanges : Event GitHubOp (GitHubOp.Answer ApiError) → Nat
  | ⟨.commitInfo _, answer⟩ =>
    match (answer : Except ApiError GitHubCommitInfo) with
    | .ok info => info.changes.length
    | .error _ => 0
  | _ => 0

variable {events : List (Event GitHubOp (GitHubOp.Answer ApiError))}

/-- What the walk may call, and that a range it returns was reported to it. -/
structure WalkBound (remaining : Nat) (commits : List GitHubCommitInfo)
    (events : List (Event GitHubOp (GitHubOp.Answer ApiError)))
    (outcome : Except (GitHubTransportError ApiError) (Option (List GitHubCommitInfo))) : Prop where
  commitInfo : events.countP isCommitInfo ≤ remaining
  readFile : events.countP isReadFile = 0
  reported : ∀ found, outcome = .ok (some found) → (found.map fun info => info.changes.length).sum =
    (commits.map fun info => info.changes.length).sum + (events.map reportedChanges).sum

theorem WalkBound.ended {remaining : Nat} {commits : List GitHubCommitInfo}
    {outcome : Except (GitHubTransportError ApiError) (Option (List GitHubCommitInfo))}
    (only : ∀ found, outcome = .ok (some found) → found = commits) :
    WalkBound remaining commits [] outcome :=
  ⟨Nat.zero_le _, rfl, fun found same => by rw [only found same]; rfl⟩

theorem WalkBound.round {remaining : Nat} {commits : List GitHubCommitInfo}
    {cursor : GitHubCommitOid} {info : GitHubCommitInfo}
    {outcome : Except (GitHubTransportError ApiError) (Option (List GitHubCommitInfo))}
    (further : WalkBound remaining (commits ++ [info]) events outcome) :
    WalkBound (remaining + 1) commits ([⟨.commitInfo cursor, .ok info⟩] ++ events) outcome := by
  refine ⟨?_, ?_, ?_⟩
  · rw [List.countP_append, Nat.add_comm]
    exact Nat.add_le_add further.commitInfo le_rfl
  · rw [List.countP_append, further.readFile]
    rfl
  · intro found same
    rw [further.reported found same, List.map_append, List.sum_append,
      List.map_append, List.sum_append, Nat.add_assoc]
    rfl

theorem walk_calls {known cursor : GitHubCommitOid} {remaining : Nat}
    {commits : List GitHubCommitInfo}
    {ended : Except (GitHubTransportError ApiError) (Option (List GitHubCommitInfo)) × Unit}
    (traced : (walk known remaining cursor commits ()).Traces events ended) :
    WalkBound remaining commits events ended.1 := by
  induction remaining generalizing cursor commits events with
  | zero =>
    rw [walk] at traced
    split at traced
    · obtain ⟨rfl, rfl⟩ := traced
      exact WalkBound.ended fun found same => by cases same; rfl
    · obtain ⟨rfl, rfl⟩ := traced
      exact WalkBound.ended fun found same => by cases same
  | succ fewer ih =>
    rw [walk] at traced
    split at traced
    · obtain ⟨rfl, rfl⟩ := traced
      exact WalkBound.ended fun found same => by cases same; rfl
    · rcases traces_bind traced with ⟨failure, stored, asked, rfl⟩ |
        ⟨info, stored, early, late, rfl, asked, further⟩
      · obtain ⟨answer, rfl, _⟩ := traces_ask asked
        refine ⟨?_, rfl, fun found same => by cases same⟩
        change 1 ≤ fewer + 1
        omega
      · obtain ⟨answer, rfl, told⟩ := traces_ask asked
        have answered : answer = .ok info := by
          cases answer with
          | ok value => cases told; rfl
          | error failure => cases told
        subst answered
        apply WalkBound.round
        split at further
        · obtain ⟨rfl, rfl⟩ := further
          exact WalkBound.ended fun found same => by cases same
        · rcases parents : info.parents with _ | ⟨parent, _ | ⟨second, others⟩⟩
          · rw [parents] at further
            obtain ⟨rfl, rfl⟩ := further
            exact WalkBound.ended fun found same => by cases same
          · rw [parents] at further
            exact ih further
          · rw [parents] at further
            obtain ⟨rfl, rfl⟩ := further
            exact WalkBound.ended fun found same => by cases same

theorem collectChange_calls {oid : GitHubCommitOid} {collected : Collected}
    {change : GitHubFileChange} {memory : Unit}
    {ended : Except (GitHubTransportError ApiError) Collected × Unit}
    (traced : (collectChange digest oid collected change memory).Traces events ended) :
    events.countP isCommitInfo ≤ 0 ∧ events.countP isReadFile ≤ 1 := by
  rw [collectChange] at traced
  split at traced
  · obtain ⟨rfl, _⟩ := traced
    exact ⟨le_rfl, Nat.zero_le _⟩
  split at traced
  · obtain ⟨rfl, _⟩ := traced
    exact ⟨le_rfl, Nat.zero_le _⟩
  split at traced
  · obtain ⟨rfl, _⟩ := traced
    exact ⟨le_rfl, Nat.zero_le _⟩
  rcases traces_bind traced with ⟨failure, stored, asked, _⟩ | ⟨bytes, stored, early, late,
    rfl, asked, further⟩
  · obtain ⟨answer, rfl, _⟩ := traces_ask asked
    exact ⟨le_rfl, le_rfl⟩
  · obtain ⟨answer, rfl, _⟩ := traces_ask asked
    have ends : late = [] := by
      split at further
      · exact further.1
      · exact further.1
    subst ends
    exact ⟨le_rfl, le_rfl⟩

theorem collect_calls {infos : List GitHubCommitInfo} {collected : Collected}
    {ended : Except (GitHubTransportError ApiError) Collected × Unit}
    (traced : (infos.foldlM (collectCommit digest) collected ()).Traces events ended) :
    events.countP isCommitInfo = 0 ∧
      events.countP isReadFile ≤ (infos.map fun info => info.changes.length).sum := by
  constructor
  · have none : events.countP isCommitInfo ≤ (infos.map fun _ => 0).sum := by
      refine traces_foldlM _ ?_ traced
      intro gathered info memory early outcome listed
      have rounds := traces_foldlM (fun _ => 0) (fun state change memory events ended traced =>
        (collectChange_calls traced).1) listed
      simpa using rounds
    simpa using none
  · refine traces_foldlM _ ?_ traced
    intro gathered info memory early outcome listed
    have rounds := traces_foldlM (fun _ => 1) (fun state change memory events ended traced =>
      (collectChange_calls traced).2) listed
    simpa using rounds

/-- However the API answers, a fetch reads at most the allowed number of commits and
at most the files they report. -/
theorem fetchSince_calls {transport : GitHubTransport} {known : Option GitHubCommitOid}
    {ended : Except (GitHubTransportError ApiError) (FetchOutcome GitHubCommitOid) × Unit}
    (traced : (transport.fetchSince digest known ()).Traces events ended) :
    events.countP isCommitInfo ≤ transport.maxIncrementalCommits ∧
      events.countP isReadFile ≤ (events.map reportedChanges).sum := by
  rcases traces_bind traced with ⟨failure, stored, asked, _⟩ | ⟨current, stored, early, late,
    rfl, asked, further⟩
  · obtain ⟨answer, rfl, _⟩ := traces_ask asked
    exact ⟨Nat.zero_le _, Nat.zero_le _⟩
  obtain ⟨answer, rfl, _⟩ := traces_ask asked
  suffices bounds : late.countP isCommitInfo ≤ transport.maxIncrementalCommits ∧
      late.countP isReadFile ≤ (late.map reportedChanges).sum by
    rw [List.countP_append, List.countP_append, List.map_append, List.sum_append]
    simpa [isCommitInfo, isReadFile, reportedChanges] using bounds
  split at further
  · obtain ⟨rfl, _⟩ := further
    exact ⟨Nat.zero_le _, Nat.zero_le _⟩
  split at further
  · obtain ⟨rfl, _⟩ := further
    exact ⟨Nat.zero_le _, Nat.zero_le _⟩
  · obtain ⟨rfl, _⟩ := further
    exact ⟨Nat.zero_le _, Nat.zero_le _⟩
  · rcases traces_bind further with ⟨failure, stored, walked, _⟩ |
      ⟨found, stored, first, last, rfl, walked, gathered⟩
    · have bound := walk_calls walked
      exact ⟨bound.commitInfo, by rw [bound.readFile]; exact Nat.zero_le _⟩
    · have bound := walk_calls walked
      rw [List.countP_append, List.countP_append, List.map_append, List.sum_append, bound.readFile]
      cases found with
      | none =>
        obtain ⟨rfl, _⟩ := gathered
        exact ⟨bound.commitInfo, Nat.zero_le _⟩
      | some commits =>
        have reported := bound.reported commits rfl
        have collected : ∃ outcome,
          (commits.reverse.foldlM (collectCommit digest) ⟨∅, []⟩ ()).Traces last
            outcome := by
          rcases traces_bind gathered with ⟨failure, stored, collecting, _⟩ |
            ⟨collected, stored, reads, rest, rfl, collecting, ends⟩
          · exact ⟨_, collecting⟩
          · obtain ⟨rfl, _⟩ := ends
            exact ⟨_, by rwa [List.append_nil]⟩
        obtain ⟨outcome, collecting⟩ := collected
        obtain ⟨none, reads⟩ := collect_calls collecting
        rw [List.map_reverse, List.sum_reverse, reported] at reads
        rw [none]
        refine ⟨bound.commitInfo, ?_⟩
        rw [Nat.zero_add]
        refine reads.trans ?_
        rw [List.map_nil, List.sum_nil, Nat.zero_add]
        exact Nat.le_add_right _ _

end Calls

/-- What a fetch since a commit returns: nothing new, the complete range, or that
there is none. -/
structure FetchedRange (transport : GitHubTransport) (branch : Branch)
    (publications : List (List Bytes)) (known : GitHubCommitOid)
    (outcome : FetchOutcome GitHubCommitOid) : Prop where
  current : ∀ position, branch.chain[position]? = some known → position = publications.length →
    outcome = .upToDate (some branch.head)
  behind : ∀ position, branch.chain[position]? = some known → position < publications.length →
    publications.length - position ≤ transport.maxIncrementalCommits →
    ∃ parts, outcome = .changed branch.head parts.flatten ∧ parts.flatten.Nodup ∧
      List.Forall₂ Exactly parts (publications.drop position)
  tooOld : ∀ position, branch.chain[position]? = some known →
    transport.maxIncrementalCommits < publications.length - position →
    outcome = .baselineUnavailable (some branch.head)
  unknown : known ∉ branch.chain → outcome = .baselineUnavailable (some branch.head)

/-- A publication lands on the head, or is refused and changes nothing. -/
structure PublishedOnHead (before after : Branch) (expected : GitHubCommitOid)
    (outcome : PublishOutcome GitHubCommitOid) : Prop where
  accepted : (∃ head, outcome = .published head) ↔ expected = before.head
  appended : ∀ head, outcome = .published head → after.head = head ∧
    after.chain = before.chain ++ [head]
  refused : expected ≠ before.head → outcome = .conflict (some before.head) ∧ after = before

section Range

variable (transport : GitHubTransport)

theorem fetchSince_range (truthful : Truthful serve view)
    (history : History digest serve view publications world)
    (apart : publications.Pairwise List.Disjoint)
    (free : ∀ left ∈ publications.flatten, ∀ right ∈ publications.flatten,
      digest left = digest right → left = right)
    (unseeded : ∀ bytes ∈ publications.flatten, objectPath digest bytes ∉ (view world).files)
    (known : GitHubCommitOid) :
    ∃ outcome after, Gives serve (transport.fetchSince digest (some known)) () world
      (.ok outcome) after ∧
      view after = view world ∧ FetchedRange transport (view world) publications known outcome := by
  have held : List.Forall₂ (Holds digest) (view world).commits publications :=
    history.commits truthful
  have length := held.length_eq
  by_cases found : ∃ position : Nat, (view world).chain[position]? = some known
  · obtain ⟨position, listed⟩ := found
    obtain ⟨inside, reached⟩ := Branch.chain_at listed
    have unique : ∀ other : Nat, (view world).chain[other]? = some known → other = position :=
      fun other listedOther => Branch.chain_position_unique listedOther listed
    have member : known ∈ (view world).chain := List.mem_of_getElem? listed
    by_cases current : position = publications.length
    · have newest : known = (view world).head := by
        rw [← reached, List.take_of_length_le (by omega), Branch.head]
      subst newest
      obtain ⟨after, given, same⟩ := fetchSince_current transport truthful
      refine ⟨_, after, given, same, fun _ _ _ => rfl, ?_, ?_, fun absent => absurd member absent⟩
      · intro other listedOther before
        exact absurd (unique other listedOther) (by omega)
      · intro other listedOther before
        exact absurd (unique other listedOther) (by omega)
    by_cases near : publications.length - position ≤ transport.maxIncrementalCommits
    · have split := (List.take_append_drop position (view world).commits).symm
      have nonempty : (view world).commits.drop position ≠ [] := by
        intro empty
        have short := List.drop_eq_nil_iff.mp empty
        omega
      obtain ⟨parts, after, given, same, permuted⟩ := fetchSince_found transport truthful
        (clean_of_publications held apart free unseeded) (named_of_publications held) split nonempty
        (by rw [List.length_drop, length]; exact near)
      have exactly : List.Forall₂ Exactly parts (publications.drop position) := by
        refine exactly_parts (List.forall₂_drop position held) ?_ permuted
        intro left leftMember right rightMember
        exact free left ((List.drop_sublist _ _).flatten.subset leftMember) right
          ((List.drop_sublist _ _).flatten.subset rightMember)
      rw [reached] at given
      refine ⟨_, after, given, same, ?_, ?_, ?_, fun absent => absurd member absent⟩
      · intro other listedOther atHead
        exact absurd (unique other listedOther) (by omega)
      · intro other listedOther _ _
        rw [unique other listedOther]
        exact ⟨parts, rfl,
          nodup_of_exactly exactly (apart.sublist (List.drop_sublist _ _)), exactly⟩
      · intro other listedOther tooFar
        rw [unique other listedOther] at tooFar
        omega
    · have outside : ∀ start rest, (view world).commits = start ++ rest →
          rest.length ≤ transport.maxIncrementalCommits → tip (view world).seed start ≠ known := by
        intro start rest split close atKnown
        have placed := unique _ (atKnown ▸ Branch.tip_mem_chain split)
        have total := congrArg List.length split
        rw [List.length_append] at total
        omega
      obtain ⟨after, given, same⟩ := fetchSince_lost transport truthful outside
      refine ⟨_, after, given, same, ?_, ?_, fun _ _ _ => rfl, fun _ => rfl⟩
      · intro other listedOther atHead
        exact absurd (unique other listedOther) (by omega)
      · intro other listedOther _ close
        rw [unique other listedOther] at close
        exact absurd close near
  · have outside : ∀ start rest, (view world).commits = start ++ rest →
        rest.length ≤ transport.maxIncrementalCommits → tip (view world).seed start ≠ known :=
      fun start rest split _ atKnown => found ⟨_, atKnown ▸ Branch.tip_mem_chain split⟩
    obtain ⟨after, given, same⟩ := fetchSince_lost transport truthful outside
    refine ⟨_, after, given, same, ?_, ?_, ?_, fun _ => rfl⟩
    · exact fun other listedOther => absurd ⟨other, listedOther⟩ found
    · exact fun other listedOther => absurd ⟨other, listedOther⟩ found
    · exact fun other listedOther => absurd ⟨other, listedOther⟩ found

end Range

theorem publish_onHead (truthful : Truthful serve view) {objects : List Bytes}
    (some_objects : objects ≠ []) (expected : GitHubCommitOid) :
    ∃ outcome after, Gives serve (publish digest (some expected) objects) () world
      (.ok outcome) after ∧ PublishedOnHead (view world) (view after) expected outcome := by
  by_cases current : expected = (view world).head
  · subst current
    obtain ⟨head, after, given, seed, _, commits⟩ := publish_head digest truthful some_objects
    refine ⟨_, after, given, ⟨fun _ => rfl, fun _ => ⟨head, rfl⟩⟩, ?_,
      fun moved => absurd rfl moved⟩
    intro published same
    cases same
    constructor
    · rw [Branch.head, commits, tip_concat]
    · rw [Branch.chain, Branch.chain, seed, commits, List.map_append, List.map_singleton,
        List.cons_append]
  · obtain ⟨after, given, same⟩ := publish_stale digest truthful some_objects current
    refine ⟨_, after, given, ⟨?_, fun now => absurd now current⟩, ?_, fun _ => ⟨rfl, same⟩⟩
    · rintro ⟨head, published⟩
      cases published
    · intro head published
      cases published

namespace InMemory

/-- The information on the first commit of that identity, over the earlier commits. -/
def describe (branch : Branch) (oid : GitHubCommitOid) :
    List Commit → List Commit → Option GitHubCommitInfo
  | _, [] => none
  | before, commit :: later =>
    if commit.oid = oid then
      some ⟨oid, [tip branch.seed before], commit.additions.map (branch.changeOf before)⟩
    else describe branch oid (before ++ [commit]) later

def readFile (branch : Branch) (oid : GitHubCommitOid) (path : String) : Option Bytes := do
  let commit ← branch.commits.find? fun commit => commit.oid = oid
  let addition ← commit.additions.find? fun addition => addition.path = path
  pure addition.bytes

/-- An identity longer than those on the chain. -/
def freshOid (branch : Branch) : GitHubCommitOid where
  value :=
    String.ofList (List.replicate ((branch.chain.map fun oid => oid.value.length).sum + 1) 'a')
  valid := by
    constructor
    · intro empty
      have listed := congrArg String.toList empty
      simp at listed
    · intro char member
      rw [String.toList_ofList, List.mem_replicate] at member
      rw [member.2]
      decide

theorem freshOid_not_mem (branch : Branch) : freshOid branch ∉ branch.chain := by
  intro member
  have bound := List.single_le_sum (fun _ _ => Nat.zero_le _) _
    (List.mem_map_of_mem (f := fun oid : GitHubCommitOid => oid.value.length) member)
  simp [freshOid] at bound

/-- The branch with one more commit on its head. -/
def append (branch : Branch) (additions : List GitHubFileAddition)
    (once : (additions.map GitHubFileAddition.path).Nodup) : Branch where
  seed := branch.seed
  files := branch.files
  commits := branch.commits ++ [⟨freshOid branch, additions⟩]
  distinct := by
    rw [List.map_append, List.map_singleton, ← List.cons_append, List.nodup_append]
    refine ⟨branch.distinct, List.nodup_singleton _, ?_⟩
    intro oid listed fresh member same
    rw [same, List.mem_singleton.mp member] at listed
    exact freshOid_not_mem branch listed
  once := by
    intro commit member
    rcases List.mem_append.mp member with earlier | last
    · exact branch.once commit earlier
    · rw [List.mem_singleton.mp last]
      exact once

/-- A repository in memory, as the tests of the transport use one. -/
def respond : Service Branch GitHubOp (GitHubOp.Answer Unit)
  | branch, .branchHead => (.ok (some branch.head), branch)
  | branch, .commitInfo oid =>
    (if oid = branch.seed then .ok ⟨oid, [], []⟩
     else match describe branch oid [] branch.commits with
      | some info => .ok info
      | none => .error (), branch)
  | branch, .readFileAt oid path =>
    (match readFile branch oid path with
      | some bytes => .ok bytes
      | none => .error (), branch)
  | branch, .createCommitOnBranch expected additions _ =>
    if expected = branch.head then
      if once : (additions.map GitHubFileAddition.path).Nodup then
        (.ok (.created (freshOid branch)), append branch additions once)
      else (.error (), branch)
    else (.ok (.headChanged (some branch.head)), branch)

theorem describe_at {branch : Branch} {oid : GitHubCommitOid} {first before later : List Commit}
    {commit : Commit} (named : commit.oid = oid)
    (distinct : ((before ++ commit :: later).map Commit.oid).Nodup) :
    describe branch oid first (before ++ commit :: later) =
      some ⟨oid, [tip branch.seed (first ++ before)],
      commit.additions.map (branch.changeOf (first ++ before))⟩ := by
  induction before generalizing first with
  | nil => rw [List.nil_append, describe, if_pos named, List.append_nil]
  | cons other rest ih =>
    rw [List.cons_append, List.map_cons, List.nodup_cons] at distinct
    have apart : other.oid ≠ oid := by
      intro same
      exact distinct.1 (by simp [same, named])
    rw [List.cons_append, describe, if_neg apart, ih distinct.2, List.append_assoc,
      List.singleton_append]

theorem respond_commitInfo {branch : Branch} {before later : List Commit} {commit : Commit}
    (split : branch.commits = before ++ commit :: later) :
    ∃ info, (respond branch (.commitInfo commit.oid)).1 = .ok info ∧
    branch.Describes before commit info := by
  have distinct := (List.nodup_cons.mp branch.distinct)
  have inner : commit.oid ≠ branch.seed := by
    intro same
    apply distinct.1
    rw [← same, split]
    simp
  have found : describe branch commit.oid [] branch.commits =
      some ⟨commit.oid, [tip branch.seed before],
        commit.additions.map (branch.changeOf before)⟩ := by
    have listed := distinct.2
    rw [split] at listed ⊢
    exact describe_at rfl listed
  refine ⟨⟨commit.oid, [tip branch.seed before], commit.additions.map (branch.changeOf before)⟩, ?_,
    ⟨rfl, rfl, List.Perm.refl _⟩⟩
  simp only [respond, inner, found]
  rfl

theorem find_by_key {Item Key : Type} [DecidableEq Key] {key : Item → Key} {items : List Item}
    {item : Item} (distinct : (items.map key).Nodup) (member : item ∈ items) :
    items.find? (fun other => key other = key item) = some item := by
  have exists_found : (items.find? (fun other => decide (key other = key item))).isSome = true :=
    List.find?_isSome.mpr ⟨item, member, decide_eq_true rfl⟩
  obtain ⟨other, found⟩ := Option.isSome_iff_exists.mp exists_found
  have matched := List.find?_some found
  have same : key other = key item := of_decide_eq_true matched
  rw [found, List.inj_on_of_nodup_map distinct (List.mem_of_find?_eq_some found) member same]

theorem respond_readFileAt {branch : Branch} {commit : Commit} {addition : GitHubFileAddition}
    (onBranch : commit ∈ branch.commits) (member : addition ∈ commit.additions) :
    (respond branch (.readFileAt commit.oid addition.path)).1 = .ok addition.bytes := by
  have distinct := (List.nodup_cons.mp branch.distinct).2
  have read : readFile branch commit.oid addition.path = some addition.bytes := by
    simp only [readFile, Option.bind_eq_bind]
    rw [find_by_key distinct onBranch, Option.bind_some,
      find_by_key (branch.once commit onBranch) member]
    rfl
  simp only [respond, read]
  rfl

theorem truthful : Truthful respond id where
  branchHead _ := rfl
  rootInfo branch := ⟨⟨branch.seed, [], []⟩, by simp only [respond, id_eq]; rfl, rfl, rfl⟩
  commitInfo _ _ _ _ split := respond_commitInfo split
  readFileAt _ _ onBranch _ member := respond_readFileAt onBranch member
  reads branch op reading := by
    cases op with
    | createCommitOnBranch expected additions message => exact reading.elim
    | branchHead => rfl
    | commitInfo oid => rfl
    | readFileAt oid path => rfl
  commits branch additions message once := by
    refine ⟨freshOid branch, ?_⟩
    simp only [respond, id_eq, if_true, once, dif_pos, append, and_true]
    rfl
  refuses branch expected additions message stale := by
    simp only [id_eq] at stale
    simp only [respond, stale, if_false, id_eq, and_true]
    rfl

/-- A branch without a publication. -/
def seeded : Branch where
  seed := ⟨"a", by simp⟩
  files := ["README.md"]
  commits := []
  distinct := List.nodup_singleton _
  once := fun _ member => absurd member List.not_mem_nil

end InMemory

/-- Over a truthful API, the transport is an append-only log with compare-and-swap: a
fetch since a commit of the branch gives exactly the publications after it, oldest
first and each object once, or no range at all, and a publication is accepted exactly
on the head. Over any API, a fetch ends within its bound. -/
theorem gitHub_refines_append_only_log (transport : GitHubTransport)
    (truthful : Truthful serve view) (history : History digest serve view publications world)
    (apart : publications.Pairwise List.Disjoint)
    (free : ∀ left ∈ publications.flatten, ∀ right ∈ publications.flatten,
      digest left = digest right → left = right)
    (unseeded : ∀ bytes ∈ publications.flatten, objectPath digest bytes ∉ (view world).files) :
    (view world).chain.length = publications.length + 1 ∧
    (∀ known, ∃ outcome after,
      Gives serve (transport.fetchSince digest (some known)) () world (.ok outcome) after ∧
        view after = view world ∧ FetchedRange transport (view world) publications known outcome) ∧
    (∀ expected objects, objects ≠ [] → ∃ outcome after,
      Gives serve (publish digest (some expected) objects) () world (.ok outcome) after ∧
        PublishedOnHead (view world) (view after) expected outcome) ∧
    ∀ (known : Option GitHubCommitOid) (events : List (Event GitHubOp (GitHubOp.Answer ApiError)))
      (ended : Except (GitHubTransportError ApiError) (FetchOutcome GitHubCommitOid) × Unit),
      (transport.fetchSince digest known ()).Traces events ended →
        events.countP isCommitInfo ≤ transport.maxIncrementalCommits ∧
          events.countP isReadFile ≤ (events.map reportedChanges).sum := by
  refine ⟨?_, fetchSince_range transport truthful history apart free unseeded, ?_, ?_⟩
  · rw [Branch.chain, List.length_cons, List.length_map, (history.commits truthful).length_eq]
  · exact fun expected objects some_objects => publish_onHead truthful some_objects expected
  · exact fun known events ended traced => fetchSince_calls traced

theorem gitHub_refines_append_only_log_one_publication :
    ∃ (world : Branch) (head : GitHubCommitOid), History id InMemory.respond id [[[1, 2]]] world ∧
      world.chain = [InMemory.seeded.seed, head] ∧
      ∃ after, Gives InMemory.respond
        (GitHubTransport.new.fetchSince id (some InMemory.seeded.seed)) () world
        (.ok (.changed head [[1, 2]])) after := by
  obtain ⟨head, world, published, seed, files, commits⟩ :=
    @publish_head _ _ _ _ InMemory.seeded [[1, 2]] id InMemory.truthful (List.cons_ne_nil _ _)
  have empty : History id InMemory.respond id [] InMemory.seeded := History.seeded rfl
  have history : History id InMemory.respond id [[[1, 2]]] world :=
    History.published empty published
  have chain : world.chain = [InMemory.seeded.seed, head] := by
    rw [Branch.chain]
    simp only [id_eq] at seed commits
    rw [seed, commits]
    rfl
  have unseeded : ∀ bytes ∈ [[[1, 2]]].flatten, objectPath id bytes ∉ world.files := by
    simp only [id_eq] at files
    rw [files]
    decide
  have refines :=
    gitHub_refines_append_only_log GitHubTransport.new InMemory.truthful history (by simp)
    (fun left _ right _ same => same) unseeded
  obtain ⟨outcome, after, given, _, range⟩ := refines.2.1 InMemory.seeded.seed
  refine ⟨world, head, history, chain, after, ?_⟩
  obtain ⟨parts, changed, distinct, exactly⟩ :=
    range.behind 0 (by rw [id_eq, chain]; rfl) (by decide) (by decide)
  obtain ⟨part, rfl, only⟩ : ∃ part, parts = [part] ∧ Exactly part [[1, 2]] := by
    cases exactly with
    | cons first rest =>
      cases rest
      exact ⟨_, rfl, first⟩
  have single : part = [[1, 2]] := by
    refine List.perm_singleton.mp
      ((List.perm_ext_iff_of_nodup only.1 (List.nodup_singleton _)).mpr only.2)
  have newest : world.head = head := by
    simp only [id_eq] at commits
    rw [Branch.head, commits, tip_concat]
  rw [changed, id_eq, newest, single] at given
  exact given

end PrivateContinuum.Transport
