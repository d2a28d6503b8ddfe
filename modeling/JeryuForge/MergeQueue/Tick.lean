import JeryuForge.Library.Machine
import JeryuForge.Library.OrdMap
import JeryuForge.MergeQueue.Entry

/-!
# A tick of the merge queue

Each stack is advanced once.  Restacking makes it a chain again, but only if the tip of
its base can be read; what is landed afterwards does not depend on whether it could.
-/

namespace JeryuForge.MergeQueue

structure Key where
  owner : String
  repo : String
  number : Nat
deriving DecidableEq, Repr

def Key.rank (key : Key) : String ×ₗ String ×ₗ Nat :=
  toLex (key.owner, toLex (key.repo, key.number))

theorem Key.rank_injective : Function.Injective Key.rank := by
  rintro ⟨owner, repo, number⟩ ⟨owner', repo', number'⟩ hsame
  simpa [Key.rank] using hsame

instance : LinearOrder Key :=
  LinearOrder.lift' Key.rank Key.rank_injective

structure Commit where
  parent : Sha
  head : Sha
  sha : Sha
deriving DecidableEq, Repr

structure Move where
  members : List QueueEntry
  update : RefUpdate
deriving DecidableEq, Repr

/-! ## The index and its metadata -/

def metaRef (base : String) (number : Nat) : String :=
  "refs/queue-meta/" ++ base ++ "/" ++ toString number

/-- A blob as `serde_json` reads it: the entry that it was written from, or why it is
none. -/
abbrev Blob := Except String QueueEntry

abbrev MetaRefs := OrdMap (String ×ₗ String ×ₗ String) Blob

def refKey (owner repo name : String) : String ×ₗ String ×ₗ String :=
  toLex (owner, toLex (repo, name))

def metaKey (key : Key) (entry : QueueEntry) : String ×ₗ String ×ₗ String :=
  refKey key.owner key.repo (metaRef entry.base entry.number)

/-- The index, the commits that were built, the bases that were moved and the metadata refs of
every repository. -/
structure Queue where
  entries : OrdMap Key QueueEntry
  commits : List Commit
  moves : List Move
  refs : MetaRefs

def Queue.empty : Queue :=
  { entries := ∅, commits := [], moves := [], refs := ∅ }

def Queue.put (queue : Queue) (key : Key) (entry : QueueEntry) : Queue :=
  { queue with entries := queue.entries.insert key entry }

def QueueEntry.commit (entry : QueueEntry) : Commit :=
  { parent := entry.baseSha, head := entry.prHeadSha, sha := entry.queueSha }

def Queue.putBuilt (queue : Queue) (key : Key) (entry : QueueEntry) : Queue :=
  { queue with
    entries := queue.entries.insert key entry
    commits := queue.commits ++ [entry.commit] }

/-- `persist`, with a write that succeeds. -/
def Queue.persist (queue : Queue) (key : Key) (entry : QueueEntry) : Queue :=
  { queue with refs := queue.refs.insert (metaKey key entry) (.ok entry) }

def Queue.isBuilding (queue : Queue) (key : Key) : Bool :=
  (queue.entries.get? key).any fun entry => entry.state = .building

abbrev TipRead := Except String (Option Sha)

def baseTip (base : String) (read : TipRead) : Except ReplayFailure Sha :=
  match read with
  | .error reason => .error (.git reason)
  | .ok tip =>
    match tip.filter isSha with
    | some tip => .ok tip
    | none => .error (.git ("refs/heads/" ++ base ++ " does not resolve"))

/-! ## Joining and leaving -/

inductive Response where
  | entry (status : Nat) (entry : QueueEntry)
  | noContent
  | refused (status : Nat) (code message : String)
  | botRefused (reason : String)
deriving DecidableEq, Repr

structure EnqueueAnswers where
  repository : Bool
  canWrite : Bool
  login : String
  bot : Option String
  botRefusal : Option String
  pull : Option Pull
  metadataError : Option String
  now : String
  approvers : List Approver
  tip : TipRead
  build : Build
  tipAgain : TipRead
  replaysOnTip : Bool

def metadataError (reason : String) : Response :=
  .refused 503 "queue_metadata_error"
    ("queue metadata could not be loaded: " ++ reason ++
      "; restore metadata or Git access and retry; no refs were deleted")

def stackTail (queue : Queue) (key : Key) (base : String) : Option (Nat × Sha) :=
  let queued := (queue.entries.entries.filter fun (other, entry) =>
    other.owner = key.owner && other.repo = key.repo && other.number ≠ key.number &&
      entry.state = .building && entry.base = base && isSha entry.queueSha).map Prod.snd
  (queued.insertionSort fun first second => first.before second).getLast?.map
    fun entry => (entry.number, entry.queueSha)

def newEntry (key : Key) (pull : Pull) (answers : EnqueueAnswers) : QueueEntry :=
  { repo := key.owner ++ "/" ++ key.repo
    base := pull.baseRef
    number := key.number
    prHeadSha := pull.headSha
    baseSha := ""
    queueSha := ""
    state := .building
    enqueuedAt := answers.now
    enqueuedBy := answers.login
    enqueuedByBot := answers.bot
    approvers := answers.approvers
    attempts := []
    reason := none
    refusalCode := none
    conflictPaths := []
    landedSha := none
    after := none
    landedWith := none }

/-- The code and the reason of a pull request that could not be replayed.  A conflict
with one queued ahead of it, and not with the base, asks nobody to rebase it yet. -/
def refusal (entry : QueueEntry) (tail : Option (Nat × Sha)) (failure : ReplayFailure)
    (answers : EnqueueAnswers) : String × String :=
  match failure, tail, baseTip entry.base answers.tipAgain with
  | .conflict _, some (ahead, _), .ok _ =>
    if answers.replaysOnTip then
      ("queue_conflict_queued",
        failure.text ++ ", against #" ++ toString ahead ++
          " queued ahead of it; it replays cleanly onto " ++ entry.base ++
          ", so queue it again once #" ++ toString ahead ++ " lands or leaves the queue")
    else
      (failure.code, failure.text)
  | _, _, _ => (failure.code, failure.text)

def refusedEntry (entry : QueueEntry) (failure : ReplayFailure) (answers : EnqueueAnswers)
    (code reason : String) : QueueEntry :=
  { entry with
    baseSha :=
      match baseTip entry.base answers.tipAgain with
      | .ok tip => tip
      | .error _ => entry.baseSha
    conflictPaths :=
      match failure with
      | .conflict paths => paths.take maxConflictPaths
      | _ => entry.conflictPaths
    state := .dequeued
    reason := some reason
    refusalCode := some code }

def buildNew (entry : QueueEntry) (tail : Option (Nat × Sha)) (answers : EnqueueAnswers) :
    Except ReplayFailure QueueEntry :=
  match tail with
  | some (_, parent) => buildOn entry parent answers.build
  | none =>
    match baseTip entry.base answers.tip with
    | .error failure => .error failure
    | .ok tip => buildOn entry tip answers.build

def join (queue : Queue) (key : Key) (pull : Pull) (answers : EnqueueAnswers) : Queue × Response :=
  let tail := stackTail queue key pull.baseRef
  let entry := { newEntry key pull answers with after := tail.map Prod.fst }
  match buildNew entry tail answers with
  | .ok built => ((queue.persist key built).putBuilt key built, .entry 201 built)
  | .error failure =>
    let (code, reason) := refusal entry tail failure answers
    let refused := refusedEntry entry failure answers code reason
    ((queue.persist key refused).put key refused, .refused 409 code reason)

def notQueueable (pull : Pull) (answers : EnqueueAnswers) : Option Response :=
  if answers.bot.isSome && answers.botRefusal.isSome then
    answers.botRefusal.map .botRefused
  else if !pull.isOpen then
    if pull.draft then
      some (.refused 409 "not_open"
        "a draft pull request cannot be queued: mark it ready for review first")
    else
      some (.refused 409 "not_open" "only open pull requests can be queued")
  else if !pull.gatePasses then
    some (.refused 409 "merge_gate_blocked"
      ("the pull request does not pass its merge gate: " ++ "; ".intercalate pull.blockers))
  else
    none

/-- `enqueue`, without the event, the comment and the audit it starts. -/
def enqueue (queue : Queue) (key : Key) (answers : EnqueueAnswers) : Queue × Response :=
  if !answers.repository then
    (queue, .refused 404 "not_found" "repository not found")
  else if !answers.canWrite then
    (queue, .refused 403 "permission_denied"
      "enqueueing needs write access to the repository")
  else
    match answers.pull with
    | none => (queue, .refused 404 "not_found" "pull request not found")
    | some pull =>
      match notQueueable pull answers, answers.metadataError with
      | some response, _ => (queue, response)
      | none, some reason => (queue, metadataError reason)
      | none, none =>
        match (queue.entries.get? key).filter fun entry =>
            entry.state = .building && entry.prHeadSha = pull.headSha with
        | some entry => (queue, .entry 200 entry)
        | none =>
          if isSha pull.headSha then
            join queue key pull answers
          else
            (queue, .refused 409 "bad_head" "the pull request head is not a commit")

structure DequeueAnswers where
  repository : Bool
  canWrite : Bool
  login : String
  metadataError : Option String

/-- `dequeue`, without the event, the comment and the queue ref it deletes. -/
def dequeue (queue : Queue) (key : Key) (answers : DequeueAnswers) : Queue × Response :=
  if !answers.repository then
    (queue, .refused 404 "not_found" "repository not found")
  else if !answers.canWrite then
    (queue, .refused 403 "permission_denied"
      "dequeueing needs write access to the repository")
  else
    match answers.metadataError, queue.entries.get? key with
    | some reason, _ => (queue, metadataError reason)
    | none, none => (queue, .refused 404 "not_queued" "the pull request is not queued")
    | none, some entry =>
      if entry.state = .building then
        let entry := entry.finish .dequeued ("dequeued by " ++ answers.login)
        ((queue.put key entry).persist key entry, .noContent)
      else
        (queue, .refused 404 "not_queued" "the pull request is not queued")

theorem buildNew_eq_ok {entry built : QueueEntry} {tail : Option (Nat × Sha)}
    {answers : EnqueueAnswers} (hbuilt : buildNew entry tail answers = .ok built) :
    ∃ parent, buildOn entry parent answers.build = .ok built := by
  unfold buildNew at hbuilt
  split at hbuilt
  · exact ⟨_, hbuilt⟩
  · split at hbuilt
    · cases hbuilt
    · exact ⟨_, hbuilt⟩

/-- The pull request joins the queue: nothing refuses it, and it is not building at its head. -/
structure Joins (queue : Queue) (key : Key) (answers : EnqueueAnswers) (pull : Pull) : Prop where
  reached : answers.repository ∧ answers.canWrite ∧ answers.metadataError = none
  queueable : notQueueable pull answers = none
  fresh : ∀ entry ∈ queue.entries.get? key,
    ¬ (entry.state = .building ∧ entry.prHeadSha = pull.headSha)
  head : isSha pull.headSha

theorem enqueue_cases (queue : Queue) (key : Key) (answers : EnqueueAnswers) :
    (enqueue queue key answers).1 = queue ∨
      ∃ pull, answers.pull = some pull ∧ Joins queue key answers pull ∧
        (enqueue queue key answers).1 = (join queue key pull answers).1 := by
  unfold enqueue
  split_ifs with hrepository hwrite
  · exact .inl rfl
  · exact .inl rfl
  · split
    · exact .inl rfl
    next pull hpull =>
      split
      · exact .inl rfl
      · exact .inl rfl
      next hqueueable hloaded =>
        split
        · exact .inl rfl
        next hnone =>
          split_ifs with hhead
          · refine .inr ⟨pull, hpull, ⟨?_, hqueueable, fun entry hentry hbuilding => ?_, hhead⟩,
            rfl⟩
            · exact ⟨by simpa using hrepository, by simpa using hwrite, hloaded⟩
            · simp [Option.mem_def.mp hentry, hbuilding] at hnone
          · exact .inl rfl

theorem dequeue_cases (queue : Queue) (key : Key) (answers : DequeueAnswers) :
    (dequeue queue key answers).1 = queue ∨
      ∃ entry reason, queue.entries.get? key = some entry ∧
        (dequeue queue key answers).1 =
          (queue.put key (entry.finish .dequeued reason)).persist key
            (entry.finish .dequeued reason) := by
  unfold dequeue
  split_ifs
  · exact .inl rfl
  · exact .inl rfl
  · split
    · exact .inl rfl
    · exact .inl rfl
    next entry _ hentry =>
      split_ifs
      · exact .inr ⟨entry, _, hentry, rfl⟩
      · exact .inl rfl

structure Checked where
  queue : Queue
  required : OrdMap Key (List String)

def checkKey (pulls : Key → Option Pull) (checked : Checked) (key : Key) : Checked :=
  match checked.queue.entries.get? key with
  | none => checked
  | some entry =>
    match stillQueued entry (pulls key) with
    | .unread => checked
    | .left entry => { checked with queue := (checked.queue.put key entry).persist key entry }
    | .queued contexts => { checked with required := checked.required.insert key contexts }

def checkStack (queue : Queue) (keys : List Key) (pulls : Key → Option Pull) : Checked :=
  keys.foldl (checkKey pulls) { queue := queue, required := ∅ }

def live (queue : Queue) (required : OrdMap Key (List String)) (keys : List Key) : List Key :=
  keys.filter fun key => (required.get? key).isSome && queue.isBuilding key

/-- What the next entry of a stack belongs on: a commit, and the number of the entry
whose commit it is. -/
structure Place where
  parent : Sha
  after : Option Nat
deriving DecidableEq, Repr

def QueueEntry.place (entry : QueueEntry) : Place :=
  { parent := entry.queueSha, after := some entry.number }

inductive Restacked where
  | kept
  | noted (entry : QueueEntry)
  | rebuilt (entry : QueueEntry)
  | dropped (entry : QueueEntry)

def restackEntry (entry : QueueEntry) (place : Place) (build : Build) : Restacked :=
  if entry.baseSha ≠ place.parent ∨ !isSha entry.queueSha then
    match buildOn entry.supersede place.parent build with
    | .error failure => .dropped (entry.supersede.finish .dequeued failure.text)
    | .ok built => .rebuilt { built with after := place.after }
  else if entry.after ≠ place.after then
    .noted { entry with after := place.after }
  else
    .kept

def restackKey (rebuild : Key → Build) (queue : Queue) (key : Key) (place : Place) :
    Queue × Place :=
  match (queue.entries.get? key).filter fun entry => entry.state = .building with
  | none => (queue, place)
  | some entry =>
    match restackEntry entry place (rebuild key) with
    | .kept => (queue, entry.place)
    | .noted entry => ((queue.put key entry).persist key entry, entry.place)
    | .rebuilt entry => ((queue.putBuilt key entry).persist key entry, entry.place)
    | .dropped entry => ((queue.put key entry).persist key entry, place)

def restackFrom (rebuild : Key → Build) : Queue → Place → List Key → Queue
  | queue, _, [] => queue
  | queue, place, key :: rest =>
    let (next, above) := restackKey rebuild queue key place
    restackFrom rebuild next above rest

def restack (queue : Queue) (base : String) (keys : List Key) (read : TipRead)
    (rebuild : Key → Build) : Queue :=
  match baseTip base read with
  | .error _ => queue
  | .ok tip => restackFrom rebuild queue { parent := tip, after := none } keys

/-- An entry of a stack with the verdict of its own gate, and of its commit on every
context that it and the entries below it require. -/
structure Gated where
  key : Key
  own : Option Bool
  cover : Option Bool

def addContexts (union contexts : List String) : List String :=
  contexts.foldl (fun union context =>
    if context ∈ union then union else union ++ [context]) union

def coveringContexts : List String → List (List String) → List (List String)
  | _, [] => []
  | union, contexts :: rest =>
    addContexts union contexts :: coveringContexts (addContexts union contexts) rest

abbrev GateRead := Key → Sha → List String → Option Bool

def gatedStack (queue : Queue) (required : OrdMap Key (List String)) (stack : List Key)
    (ownGate coverGate : GateRead) : List Gated :=
  let contexts := stack.map fun key => (required.get? key).getD []
  (stack.zip (contexts.zip (coveringContexts [] contexts))).map fun (key, own, cover) =>
    let queueSha := ((queue.entries.get? key).map QueueEntry.queueSha).getD ""
    { key := key, own := ownGate key queueSha own, cover := coverGate key queueSha cover }

def landable (stack : List Gated) : List Gated :=
  stack.rdropWhile fun gated => gated.cover ≠ some true

def QueueEntry.landing (entry : QueueEntry) : QueuedLanding :=
  { bot := entry.enqueuedByBot
    number := entry.number
    prHead := entry.prHeadSha
    queueSha := entry.queueSha }

def Queue.members (queue : Queue) (keys : List Key) : List QueueEntry :=
  keys.filterMap queue.entries.get?

def landedEntry (landing : BatchLanding) (top : Nat) (own : Option Bool)
    (entry : QueueEntry) : QueueEntry :=
  match landing.unrecorded.find? fun (number, _) => number = entry.number with
  | some (_, why) =>
    entry.finish .failed
      ("its change is on " ++ entry.base ++ " at " ++ landing.tip ++
        " but the forge could not record the merge: " ++ why)
  | none => landed entry landing.tip top own

def recordLanded (landing : BatchLanding) (top : Nat) (queue : Queue) (gated : Gated) : Queue :=
  match queue.entries.get? gated.key with
  | none => queue
  | some entry =>
    let entry := landedEntry landing top gated.own entry
    (queue.put gated.key entry).persist gated.key entry

def refuseMember (queue : Queue) (keys : List Key) (number : Nat)
    (problem : MemberProblem) : Queue :=
  match keys.find? fun key => key.number = number with
  | none => queue
  | some key =>
    match queue.entries.get? key, problem with
    | none, _ => queue
    | some entry, .merged sha =>
      let entry := entry.finish .dequeued ("the pull request is already merged at " ++ sha)
      (queue.put key entry).persist key entry
    | some entry, .notReady reason =>
      let entry := entry.finish .failed ("could not land: " ++ reason)
      (queue.put key entry).persist key entry
    | some _, .unreadable _ => queue

/-- `land_stack`, without the queue refs it deletes and the events. -/
def landStack (queue : Queue) (stack : List Gated) (answers : LandAnswers) : Queue :=
  let members := queue.members (stack.map Gated.key)
  match members.head? with
  | none => queue
  | some bottom =>
    match landQueuedBatch answers (members.map QueueEntry.landing) bottom.baseSha with
    | .ok landing =>
      let top := (members.getLast?.map QueueEntry.number).getD 0
      stack.foldl (recordLanded landing top)
        { queue with
          moves := queue.moves ++ [{ members := members, update := landing.update }] }
    | .error (.member number problem) =>
      refuseMember queue (stack.map Gated.key) number problem
    | .error (.baseMoved _) | .error (.blocked _) => queue

def retryBottom (queue : Queue) (key : Key) (build : Build) : Queue :=
  match queue.entries.get? key with
  | none => queue
  | some entry =>
    match retryOrFail entry build with
    | (entry, true) => (queue.putBuilt key entry).persist key entry
    | (entry, false) => (queue.put key entry).persist key entry

structure StackAnswers where
  pull : Key → Option Pull
  tip : TipRead
  rebuild : Key → Build
  ownGate : GateRead
  coverGate : GateRead
  land : LandAnswers
  retry : Build
  tipAgain : TipRead
  rebuildAgain : Key → Build

def settleStack (queue : Queue) (stack : List Gated) (answers : StackAnswers) : Option Queue :=
  match landable stack, stack with
  | [], { key := bottom, own := some false, cover := _ } :: _ =>
    some (retryBottom queue bottom answers.retry)
  | [], _ => none
  | gated, _ => some (landStack queue gated answers.land)

/-- `advance_stack`, up to the refresh of outstanding audits. -/
def advanceStack (queue : Queue) (base : String) (keys : List Key)
    (answers : StackAnswers) : Queue :=
  let checked := checkStack queue keys answers.pull
  let restacked := restack checked.queue base (live checked.queue checked.required keys)
    answers.tip answers.rebuild
  let stack := gatedStack restacked checked.required
    (live restacked checked.required keys) answers.ownGate answers.coverGate
  match settleStack restacked stack answers with
  | none => restacked
  | some settled =>
    restack settled base (live settled checked.required keys)
      answers.tipAgain answers.rebuildAgain

structure StackId where
  owner : String
  repo : String
  base : String
deriving DecidableEq, Repr

def StackId.rank (id : StackId) : String ×ₗ String ×ₗ String :=
  toLex (id.owner, toLex (id.repo, id.base))

theorem StackId.rank_injective : Function.Injective StackId.rank := by
  rintro ⟨owner, repo, base⟩ ⟨owner', repo', base'⟩ hsame
  simpa [StackId.rank] using hsame

instance : LinearOrder StackId :=
  LinearOrder.lift' StackId.rank StackId.rank_injective

def stackOf (key : Key) (entry : QueueEntry) : StackId :=
  { owner := key.owner, repo := key.repo, base := entry.base }

structure TickAnswers where
  unloaded : String → String → Bool
  stack : StackId → StackAnswers

def Queue.building (queue : Queue) (answers : TickAnswers) : List (Key × QueueEntry) :=
  queue.entries.entries.filter fun (key, entry) =>
    entry.state = .building && !answers.unloaded key.owner key.repo

def Queue.stackKeys (queue : Queue) (answers : TickAnswers) (id : StackId) : List Key :=
  (((queue.building answers).filter fun (key, entry) => stackOf key entry = id).insertionSort
    fun first second => first.2.before second.2).map Prod.fst

def Queue.stackIds (queue : Queue) (answers : TickAnswers) : List StackId :=
  (((queue.building answers).map fun (key, entry) => stackOf key entry).dedup).insertionSort
    (· ≤ ·)

/-- `tick`: the queue, and how many of the advanced entries changed state. -/
def tick (queue : Queue) (answers : TickAnswers) : Queue × Nat :=
  let after := (queue.stackIds answers).foldl
    (fun current id =>
      advanceStack current id.base (queue.stackKeys answers id) (answers.stack id)) queue
  (after, ((queue.building answers).filter fun (key, entry) =>
    (after.entries.get? key).any fun now => now.state ≠ entry.state).length)

inductive Action where
  | enqueue (key : Key) (answers : EnqueueAnswers)
  | dequeue (key : Key) (answers : DequeueAnswers)
  | tick (answers : TickAnswers)

def act (queue : Queue) : Action → Queue
  | .enqueue key answers => (enqueue queue key answers).1
  | .dequeue key answers => (dequeue queue key answers).1
  | .tick answers => (tick queue answers).1

def machine : Machine Queue Action where
  start := Queue.empty
  step queue action := some (act queue action)

end JeryuForge.MergeQueue
