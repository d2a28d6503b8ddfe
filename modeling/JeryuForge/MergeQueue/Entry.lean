import JeryuForge.Text
import JeryuForge.Library.Fallible
import JeryuForge.Library.Newest

/-!
# Queue entries

One pull request in the merge queue, and what can happen to it on its own: it is built
on a parent, leaves the queue, is tried again or lands.  Comments, events and the copy
of an entry that is kept in the repository are not read by the queue while it runs.
-/

namespace JeryuForge.MergeQueue

abbrev Sha := String

def isSha (value : String) : Bool :=
  value.utf8ByteSize = 40 &&
    value.toList.all fun char => Text.isAsciiHexdigit char && !('A' ≤ char && char ≤ 'Z')

inductive QueueState where
  | building
  | landed
  | failed
  | dequeued
deriving DecidableEq, Repr

structure Approver where
  login : String
  automation : Bool
deriving DecidableEq, Repr

structure Attempt where
  queueSha : Sha
  baseSha : Sha
  conclusion : Option String
  time : String
deriving DecidableEq, Repr

structure QueueEntry where
  repo : String
  base : String
  number : Nat
  prHeadSha : Sha
  baseSha : Sha
  queueSha : Sha
  state : QueueState
  enqueuedAt : String
  enqueuedBy : String
  enqueuedByBot : Option String
  approvers : List Approver
  attempts : List Attempt
  reason : Option String
  refusalCode : Option String
  conflictPaths : List String
  landedSha : Option Sha
  after : Option Nat
  landedWith : Option Nat
deriving DecidableEq, Repr

def maxAttempts : Nat := 2
def superseded : String := "superseded"
def maxConflictPaths : Nat := 64

/-- The order of `stack_order`. -/
def QueueEntry.before (first second : QueueEntry) : Bool :=
  first.enqueuedAt < second.enqueuedAt ||
    (first.enqueuedAt = second.enqueuedAt && first.number ≤ second.number)

inductive ReplayFailure where
  | conflict (paths : List String)
  | mismatch (detail : String)
  | mergeCommits
  | git (detail : String)
deriving DecidableEq, Repr

def ReplayFailure.text : ReplayFailure → String
  | .conflict paths => "replaying onto the base conflicts in: " ++ ", ".intercalate paths
  | .mismatch detail => "the replay does not carry the reviewed change: " ++ detail
  | .mergeCommits => "the pull request contains merge commits; rebase it onto the base"
  | .git detail => "git failed: " ++ detail

def ReplayFailure.code : ReplayFailure → String
  | .conflict _ => "queue_conflict"
  | .mismatch _ => "queue_mismatch"
  | .mergeCommits => "queue_merge_commits"
  | .git _ => "queue_git_error"

/-- What git answers to one build: the replayed commit, once the queue's ref points at
it, or why there is none; and the time of the build. -/
structure Build where
  replay : Except ReplayFailure Sha
  time : String

/-- `build_on`, without the queue ref it writes. -/
def buildOn (entry : QueueEntry) (parent : Sha) (build : Build) : Except ReplayFailure QueueEntry :=
  match build.replay with
  | .error failure => .error failure
  | .ok queueSha =>
    .ok { entry with
      baseSha := parent
      queueSha := queueSha
      attempts := entry.attempts ++
        [{ queueSha := queueSha, baseSha := parent, conclusion := none,
           time := build.time }] }

def concludeLast (attempts : List Attempt) (conclusion : Attempt → Option String) : List Attempt :=
  match attempts.getLast? with
  | none => attempts
  | some last => attempts.dropLast ++ [{ last with conclusion := conclusion last }]

def QueueEntry.supersede (entry : QueueEntry) : QueueEntry :=
  { entry with
    attempts := concludeLast
      (entry.attempts.filter fun attempt => attempt.conclusion ≠ some superseded)
      fun last => last.conclusion.or (some superseded) }

/-- `finish`, without its comment and event. -/
def QueueEntry.finish (entry : QueueEntry) (state : QueueState) (reason : String) : QueueEntry :=
  { entry with state := state, reason := some reason }

inductive PullState where
  | opened
  | draft
  | closed
  | merged
deriving DecidableEq, Repr

structure Pull where
  headSha : Sha
  baseRef : String
  state : PullState
  draft : Bool
  merged : Bool
  gatePasses : Bool
  blockers : List String
  required : List String

def Pull.isOpen (pull : Pull) : Bool :=
  !pull.merged && pull.state = .opened

/-- What the check of an entry finds: a pull request that could not be read, an entry that leaves
the queue, or the contexts that its base requires. -/
inductive StillQueued where
  | unread
  | left (entry : QueueEntry)
  | queued (required : List String)

/-- The pull request is still open, at the head that was queued, and passes its merge
gate. -/
def stillQueued (entry : QueueEntry) (read : Option Pull) : StillQueued :=
  match read with
  | none => .unread
  | some pull =>
    if !pull.isOpen then
      .left (entry.finish .dequeued "the pull request is no longer open")
    else if pull.headSha ≠ entry.prHeadSha then
      .left (entry.finish .dequeued
        ("the pull request head moved to " ++ pull.headSha ++ "; enqueue it again"))
    else if !pull.gatePasses then
      .left (entry.finish .failed
        ("the pull request no longer passes its merge gate: " ++
          "; ".intercalate pull.blockers))
    else
      .queued pull.required

def QueueEntry.red (entry : QueueEntry) : List Attempt :=
  entry.attempts.filter fun attempt => attempt.conclusion = some "failure"

/-- The bottom entry's red gate: rebuilt once as a fresh commit on the same parent, then
failed.  A pull request that is its own queue commit has no fresh commit to retry with.
The second part says whether there is a new build. -/
def retryOrFail (entry : QueueEntry) (build : Build) : QueueEntry × Bool :=
  let entry :=
    { entry with attempts := concludeLast entry.attempts fun _ => some "failure" }
  if entry.red.length < maxAttempts ∧ entry.queueSha ≠ entry.prHeadSha then
    match buildOn entry entry.baseSha build with
    | .error failure => (entry.finish .dequeued failure.text, false)
    | .ok built => (built, true)
  else
    (entry.finish .failed
      ("the gate failed on " ++ " and ".intercalate (entry.red.map Attempt.queueSha)), false)

def QueueEntry.approvedBy (entry : QueueEntry) : String :=
  if entry.approvers.isEmpty then
    "nobody"
  else
    ", ".intercalate (entry.approvers.map fun approver =>
      approver.login ++ if approver.automation then " (automation)" else "")

def landed (entry : QueueEntry) (tip : Sha) (top : Nat) (ownGate : Option Bool) : QueueEntry :=
  let covered := entry.number ≠ top
  let place := if covered then entry.queueSha else tip
  let conclusion :=
    match decide covered, ownGate with
    | false, _ | true, some true => "success"
    | true, some false => "failure, covered by #" ++ toString top
    | true, none => "covered by #" ++ toString top
  let own := if ownGate = some false then "; its own gate was red" else ""
  let reason :=
    if covered then
      "landed at " ++ place ++ " with #" ++ toString top ++ ", whose green gate at " ++ tip ++
        " covers it" ++ own ++ " (replay of " ++ entry.prHeadSha ++ "; approved by " ++
        entry.approvedBy ++ ")"
    else
      "landed at " ++ place ++ " (replay of " ++ entry.prHeadSha ++
        " gated green; approved by " ++ entry.approvedBy ++ ")"
  { entry with
    attempts := concludeLast entry.attempts fun _ => some conclusion
    landedSha := some place
    landedWith := if covered then some top else none }.finish .landed reason

/-! ## Landing a stack -/

structure QueuedLanding where
  bot : Option String
  number : Nat
  prHead : Sha
  queueSha : Sha
deriving DecidableEq, Repr

inductive MemberProblem where
  | merged (sha : Sha)
  | notReady (reason : String)
  | unreadable (reason : String)
deriving DecidableEq, Repr

inductive LandRefusal where
  | baseMoved (tip : Sha)
  | blocked (reason : String)
  | member (number : Nat) (problem : MemberProblem)
deriving DecidableEq, Repr

structure RefUpdate where
  refName : String
  oldOid : Sha
  newOid : Sha
deriving DecidableEq, Repr

/-- A stacked landing that moved the base: the new tip, any member whose merge could not
be recorded afterwards, and the move. -/
structure BatchLanding where
  tip : Sha
  unrecorded : List (Nat × String)
  update : RefUpdate
deriving DecidableEq, Repr

inductive Readiness where
  | ready (baseRef : String)
  | alreadyMerged (sha : Sha)
  | storageError (reason : String)
  | refused (reason : String)
deriving DecidableEq, Repr

/-- `merge_pull`, asked for a fast-forward: it moves the ref from the old commit to the
new one, or fails. -/
structure FastForward where
  mergePull : Sha → Sha → Except String Sha
  moves : ∀ old new tip, mergePull old new = .ok tip → tip = new

/-- What a landing reads: whether a git backend is wired, the members' records and the
grants of their bots, the base ref, ancestry, the result of the ref update and of
recording each merge. -/
structure LandAnswers where
  backend : Bool
  readiness : Nat → Readiness
  botRefusal : Nat → Option String
  repository : Except String Unit
  baseOid : Except String (Option Sha)
  isAncestor : Sha → Sha → Bool
  refs : FastForward
  finalize : Nat → Option String

def readyMembers (answers : LandAnswers) :
    List QueuedLanding → Except LandRefusal (List (QueuedLanding × String))
  | [] => .ok []
  | member :: rest =>
    match answers.readiness member.number with
    | .ready baseRef => do
        let others ← readyMembers answers rest
        return (member, baseRef) :: others
    | .alreadyMerged sha => .error (.member member.number (.merged sha))
    | .storageError reason => .error (.member member.number (.unreadable reason))
    | .refused reason => .error (.member member.number (.notReady reason))

def unauthorized (answers : LandAnswers) (ready : List (QueuedLanding × String)) :
    Option LandRefusal :=
  ready.findSome? fun (member, _) =>
    if member.bot.isSome then
      (answers.botRefusal member.number).map fun reason =>
        .member member.number (.notReady reason)
    else
      none

def otherBase (baseRef : String) (ready : List (QueuedLanding × String)) : Option LandRefusal :=
  (ready.find? fun (_, other) => other ≠ baseRef).map fun (member, _) =>
    .member member.number
      (.notReady ("#" ++ toString member.number ++ " does not target " ++ baseRef))

def notBelow (answers : LandAnswers) (baseName : String) (baseOid : Sha)
    (lower : List QueuedLanding) (top : QueuedLanding) : Option LandRefusal :=
  if !answers.isAncestor baseOid top.queueSha then
    some (.blocked (baseName ++ " at " ++ baseOid ++ " is not below #" ++
      toString top.number ++ "'s queue commit " ++ top.queueSha))
  else
    (lower.find? fun member => !answers.isAncestor member.queueSha top.queueSha).map
      fun member => .member member.number
        (.notReady ("#" ++ toString member.number ++ "'s queue commit " ++ member.queueSha ++
          " is not below #" ++ toString top.number ++ "'s " ++ top.queueSha))

def moveBase (answers : LandAnswers) (baseName : String) (baseOid : Sha)
    (members : List QueuedLanding) (top : QueuedLanding) :
    Except LandRefusal BatchLanding :=
  match answers.refs.mergePull baseOid top.queueSha with
  | .error reason => .error (.blocked reason)
  | .ok mergeOid =>
    .ok
      { tip := mergeOid
        unrecorded := members.filterMap fun member =>
          (answers.finalize member.number).map fun reason => (member.number, reason)
        update := { refName := baseName, oldOid := baseOid, newOid := mergeOid } }

def landReady (answers : LandAnswers) (members : List QueuedLanding) (top : QueuedLanding)
    (baseRef : String) (expectedBase : Sha) : Except LandRefusal BatchLanding :=
  let baseName := "refs/heads/" ++ baseRef
  match answers.repository, answers.baseOid with
  | .error reason, _ | .ok (), .error reason => .error (.blocked reason)
  | .ok (), .ok none => .error (.blocked (baseName ++ " does not resolve"))
  | .ok (), .ok (some baseOid) =>
    if baseOid ≠ expectedBase then
      .error (.baseMoved baseOid)
    else
      match notBelow answers baseName baseOid members.dropLast top with
      | some refusal => .error refusal
      | none => moveBase answers baseName baseOid members top

/-- `land_queued_batch`, once its members are ready to merge. -/
def landMembers (answers : LandAnswers) (members : List QueuedLanding) (top : QueuedLanding)
    (expectedBase : Sha) (ready : List (QueuedLanding × String)) :
    Except LandRefusal BatchLanding :=
  match unauthorized answers ready with
  | some refusal => .error refusal
  | none =>
    match ready with
    | [] => .error (.blocked "nothing to land")
    | (_, baseRef) :: _ =>
      match otherBase baseRef ready with
      | some refusal => .error refusal
      | none => landReady answers members top baseRef expectedBase

def landQueuedBatch (answers : LandAnswers) (members : List QueuedLanding)
    (expectedBase : Sha) : Except LandRefusal BatchLanding :=
  match members.getLast? with
  | none => .error (.blocked "nothing to land")
  | some top =>
    if answers.backend then do
      let ready ← readyMembers answers members
      landMembers answers members top expectedBase ready
    else
      .error (.blocked "no git backend is wired")

structure BatchLanding.Moves (landing : BatchLanding) (expectedBase : Sha)
    (top : QueuedLanding) : Prop where
  old : landing.update.oldOid = expectedBase
  new : landing.update.newOid = top.queueSha

variable {answers : LandAnswers} {landing : BatchLanding} {members : List QueuedLanding}
  {top : QueuedLanding} {expectedBase : Sha}

theorem moveBase_moves {baseName : String} {baseOid : Sha}
    (hmoved : moveBase answers baseName baseOid members top = .ok landing) :
    landing.Moves baseOid top := by
  unfold moveBase at hmoved
  split at hmoved
  · cases hmoved
  next mergeOid hmerged =>
    cases hmoved
    exact ⟨rfl, answers.refs.moves _ _ _ hmerged⟩

theorem landReady_moves {baseRef : String}
    (hlanded : landReady answers members top baseRef expectedBase = .ok landing) :
    landing.Moves expectedBase top := by
  unfold landReady at hlanded
  dsimp only at hlanded
  split at hlanded
  · cases hlanded
  · cases hlanded
  · cases hlanded
  · split at hlanded
    · cases hlanded
    next baseOid hbase =>
      split at hlanded
      · cases hlanded
      · rw [← not_not.mp hbase]
        exact moveBase_moves hlanded

theorem landMembers_moves {ready : List (QueuedLanding × String)}
    (hlanded : landMembers answers members top expectedBase ready = .ok landing) :
    landing.Moves expectedBase top := by
  unfold landMembers at hlanded
  split at hlanded
  · cases hlanded
  · split at hlanded
    · cases hlanded
    · split at hlanded
      · cases hlanded
      · exact landReady_moves hlanded

theorem landQueuedBatch_moves
    (hlanded : landQueuedBatch answers members expectedBase = .ok landing) :
    ∃ top, members.getLast? = some top ∧ landing.Moves expectedBase top := by
  unfold landQueuedBatch at hlanded
  split at hlanded
  · cases hlanded
  next top htop =>
    split at hlanded
    · obtain ⟨ready, _, hready⟩ := Except.bind_eq_ok hlanded
      exact ⟨top, htop, landMembers_moves hready⟩
    · cases hlanded

open List

inductive CommitStatusState where
  | success
  | pending
  | failure
  | error
deriving DecidableEq, Repr

/-- A commit status.  `base` is the branch it was proved against, if it names one. -/
structure CommitStatus where
  context : String
  state : CommitStatusState
  base : Option String
  creator : String
  targetUrl : Option String
  description : Option String
  updatedAt : Int
deriving DecidableEq, Repr

inductive CheckRunStatus where
  | queued
  | inProgress
  | completed
deriving DecidableEq, Repr

inductive CheckConclusion where
  | actionRequired
  | cancelled
  | failure
  | neutral
  | skipped
  | success
  | superseded
  | timedOut
deriving DecidableEq, Repr

structure CheckRun where
  creationSequence : Nat
  name : String
  status : CheckRunStatus
  conclusion : Option CheckConclusion
  detailsUrl : Option String
  summary : Option String
deriving DecidableEq, Repr

inductive ForgeError where
  | notFound (what : String)
  | other (what : String)
deriving DecidableEq, Repr

/-- The status was not proved against another base. -/
def statusAnswersForBase (base : String) (status : CommitStatus) : Bool :=
  status.base.all fun proved => proved = base

/-- What `jeryu_core` answers for a commit of a repository: its statuses, those of a merge into a
base, its check runs, and the order in which check runs are made.  `forBase` is what the route of
`github/commit_status.rs` documents: statuses proved against another base are left out. -/
structure ForgeCore (Recency : Type) where
  combinedStatus : String → String → Sha → Except ForgeError (List CommitStatus)
  combinedStatusForBase :
    String → String → Sha → String → Except ForgeError (List CommitStatus)
  forBase : ∀ owner repo sha base, combinedStatusForBase owner repo sha base =
    (combinedStatus owner repo sha).map (List.filter (statusAnswersForBase base))
  listCheckRuns : String → String → Sha → Except ForgeError (List CheckRun)
  recencyKey : CheckRun → Recency

variable {Recency : Type} [LinearOrder Recency]

/-- `latest_statuses_by_context`, at one context. -/
def newestStatus (statuses : List CommitStatus) (name : String) : Option CommitStatus :=
  (statuses.filter fun status => status.context = name).newestBy CommitStatus.updatedAt

/-- `latest_check_runs_by_name`, at one name. -/
def newestCheck (recencyKey : CheckRun → Recency) (checks : List CheckRun) (name : String) :
    Option CheckRun :=
  (checks.filter fun check => check.name = name).newestBy recencyKey

def contextVerdict (recencyKey : CheckRun → Recency) (statuses : List CommitStatus)
    (checks : List CheckRun) (name : String) : Option Bool :=
  match newestStatus statuses name with
  | some status =>
    match status.state with
    | .success => some true
    | .pending => none
    | .failure | .error => some false
  | none =>
    match newestCheck recencyKey checks name with
    | none => none
    | some check =>
      match check.status with
      | .completed => some (check.conclusion = some .success)
      | .queued | .inProgress => none

/-- Every context with a status or a check run; sorted, so that equal names are next to
each other and each is kept once. -/
def reportedContexts (statuses : List CommitStatus) (checks : List CheckRun) : List String :=
  (Text.sort (statuses.map CommitStatus.context ++ checks.map CheckRun.name)).dedup

def gateLoop (verdict : String → Option Bool) : Bool → List String → Option Bool
  | allGreen, [] => if allGreen then some true else none
  | allGreen, name :: rest =>
    match verdict name with
    | some false => some false
    | some true => gateLoop verdict allGreen rest
    | none => gateLoop verdict false rest

def gateVerdict (core : ForgeCore Recency) (owner repo : String) (sha : Sha)
    (required : List String) : Option Bool :=
  match core.combinedStatus owner repo sha, core.listCheckRuns owner repo sha with
  | .ok statuses, .ok checks =>
    let verdict := contextVerdict core.recencyKey statuses checks
    if required.isEmpty then
      if (reportedContexts statuses checks).isEmpty then none
      else gateLoop verdict true (reportedContexts statuses checks)
    else
      gateLoop verdict true required
  | _, _ => none

def CheckRun.Succeeded (check : CheckRun) : Prop :=
  check.status = .completed ∧ check.conclusion = some .success

instance (check : CheckRun) : Decidable check.Succeeded :=
  inferInstanceAs (Decidable (_ ∧ _))

def Green (recencyKey : CheckRun → Recency) (statuses : List CommitStatus)
    (checks : List CheckRun) (name : String) : Prop :=
  match newestStatus statuses name with
  | some status => status.state = .success
  | none => ∃ check, newestCheck recencyKey checks name = some check ∧ check.Succeeded

theorem contextVerdict_eq_true_iff {recencyKey : CheckRun → Recency}
    {statuses : List CommitStatus} {checks : List CheckRun} {name : String} :
    contextVerdict recencyKey statuses checks name = some true ↔
      Green recencyKey statuses checks name := by
  unfold contextVerdict Green
  cases newestStatus statuses name with
  | some status => cases hstate : status.state <;> simp [hstate]
  | none =>
    cases newestCheck recencyKey checks name with
    | none => simp
    | some check =>
      cases hstatus : check.status <;> simp [CheckRun.Succeeded, hstatus]

theorem gateLoop_eq_true_iff {verdict : String → Option Bool} {allGreen : Bool}
    {names : List String} :
    gateLoop verdict allGreen names = some true ↔
      allGreen = true ∧ ∀ name ∈ names, verdict name = some true := by
  induction names generalizing allGreen with
  | nil => cases allGreen <;> simp [gateLoop]
  | cons name rest ih =>
    unfold gateLoop
    split
    next hred =>
      simp [hred]
    next hgreen =>
      simp [ih, hgreen]
    next hwaiting =>
      simp [ih, hwaiting]

def ReadsAs (core : ForgeCore Recency) (owner repo : String) (sha : Sha)
    (statuses : List CommitStatus) (checks : List CheckRun) : Prop :=
  core.combinedStatus owner repo sha = .ok statuses ∧
    core.listCheckRuns owner repo sha = .ok checks

def GreenOn (core : ForgeCore Recency) (owner repo : String) (sha : Sha) (name : String) : Prop :=
  ∃ statuses checks, ReadsAs core owner repo sha statuses checks ∧
    Green core.recencyKey statuses checks name

def ReportedOn (core : ForgeCore Recency) (owner repo : String) (sha : Sha)
    (name : String) : Prop :=
  ∃ statuses checks, ReadsAs core owner repo sha statuses checks ∧
    name ∈ reportedContexts statuses checks

section Reads

variable {core : ForgeCore Recency} {owner repo : String} {sha : Sha}
  {statuses : List CommitStatus} {checks : List CheckRun} {required : List String}
  {name : String}

omit [LinearOrder Recency] in
theorem ReadsAs.eq {otherStatuses : List CommitStatus} {otherChecks : List CheckRun}
    (hread : ReadsAs core owner repo sha statuses checks)
    (hother : ReadsAs core owner repo sha otherStatuses otherChecks) :
    otherStatuses = statuses ∧ otherChecks = checks := by
  have hstatuses := hother.1.symm.trans hread.1
  have hchecks := hother.2.symm.trans hread.2
  cases hstatuses
  cases hchecks
  exact ⟨rfl, rfl⟩

theorem ReadsAs.greenOn_iff (hread : ReadsAs core owner repo sha statuses checks) :
    GreenOn core owner repo sha name ↔ Green core.recencyKey statuses checks name := by
  constructor
  · rintro ⟨otherStatuses, otherChecks, hother, hgreen⟩
    obtain ⟨rfl, rfl⟩ := hread.eq hother
    exact hgreen
  · intro hgreen
    exact ⟨statuses, checks, hread, hgreen⟩

omit [LinearOrder Recency] in
theorem ReadsAs.reportedOn_iff (hread : ReadsAs core owner repo sha statuses checks) :
    ReportedOn core owner repo sha name ↔ name ∈ reportedContexts statuses checks := by
  constructor
  · rintro ⟨otherStatuses, otherChecks, hother, hreported⟩
    obtain ⟨rfl, rfl⟩ := hread.eq hother
    exact hreported
  · intro hreported
    exact ⟨statuses, checks, hread, hreported⟩

theorem readsAs_of_gateVerdict {verdict : Bool}
    (hverdict : gateVerdict core owner repo sha required = some verdict) :
    ∃ statuses checks, ReadsAs core owner repo sha statuses checks := by
  unfold gateVerdict at hverdict
  split at hverdict
  next statuses checks hstatuses hchecks =>
    exact ⟨statuses, checks, hstatuses, hchecks⟩
  · cases hverdict

theorem ReadsAs.gateVerdict_eq (hread : ReadsAs core owner repo sha statuses checks)
    (hrequired : required ≠ []) :
    gateVerdict core owner repo sha required =
      gateLoop (contextVerdict core.recencyKey statuses checks) true required := by
  simp only [gateVerdict, hread.1, hread.2, List.isEmpty_iff, if_neg hrequired]

theorem ReadsAs.gateVerdict_nil (hread : ReadsAs core owner repo sha statuses checks) :
    gateVerdict core owner repo sha [] =
      if reportedContexts statuses checks = [] then none
      else gateLoop (contextVerdict core.recencyKey statuses checks) true
        (reportedContexts statuses checks) := by
  simp only [gateVerdict, hread.1, hread.2, isEmpty_nil, List.isEmpty_iff, if_true]

theorem gateVerdict_eq_true_iff (hrequired : required ≠ []) :
    gateVerdict core owner repo sha required = some true ↔
      ∀ name ∈ required, GreenOn core owner repo sha name := by
  constructor
  · intro hverdict name hname
    obtain ⟨statuses, checks, hread⟩ := readsAs_of_gateVerdict hverdict
    rw [hread.gateVerdict_eq hrequired, gateLoop_eq_true_iff] at hverdict
    exact ⟨statuses, checks, hread, contextVerdict_eq_true_iff.mp (hverdict.2 name hname)⟩
  · intro hgreen
    obtain ⟨first, hfirst⟩ := exists_mem_of_ne_nil required hrequired
    obtain ⟨statuses, checks, hread, -⟩ := hgreen first hfirst
    rw [hread.gateVerdict_eq hrequired, gateLoop_eq_true_iff]
    refine ⟨rfl, ?_⟩
    intro name hname
    exact contextVerdict_eq_true_iff.mpr (hread.greenOn_iff.mp (hgreen name hname))

theorem gateVerdict_nil_eq_true_iff :
    gateVerdict core owner repo sha [] = some true ↔
      (∃ name, ReportedOn core owner repo sha name) ∧
        ∀ name, ReportedOn core owner repo sha name → GreenOn core owner repo sha name := by
  constructor
  · intro hverdict
    obtain ⟨statuses, checks, hread⟩ := readsAs_of_gateVerdict hverdict
    rw [hread.gateVerdict_nil] at hverdict
    split at hverdict
    · cases hverdict
    next hreported =>
      obtain ⟨name, hname⟩ := exists_mem_of_ne_nil _ hreported
      refine ⟨⟨name, hread.reportedOn_iff.mpr hname⟩, ?_⟩
      intro other hother
      have hgreen := (gateLoop_eq_true_iff.mp hverdict).2 other (hread.reportedOn_iff.mp hother)
      exact hread.greenOn_iff.mpr (contextVerdict_eq_true_iff.mp hgreen)
  · rintro ⟨⟨name, statuses, checks, hread, hname⟩, hgreen⟩
    rw [hread.gateVerdict_nil, if_neg (ne_nil_of_mem hname), gateLoop_eq_true_iff]
    refine ⟨rfl, ?_⟩
    intro other hother
    have hothers := hgreen other (hread.reportedOn_iff.mpr hother)
    exact contextVerdict_eq_true_iff.mpr (hread.greenOn_iff.mp hothers)

end Reads

end JeryuForge.MergeQueue
