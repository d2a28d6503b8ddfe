import JeryuForge.Library.Newest
import JeryuForge.Flow.Project

/-!
# Reviewers that stopped on a pull request

One verdict speaks for a pull request in `runner_items`: the first holding one in record order,
also when a push has replaced its head.
-/

namespace JeryuForge.Attention

open List

structure GateRunnerTask where
  repo : String
  pr : Option Nat
  sha : String
  startedAt : Int

structure GateRunnerResult where
  repo : String
  pr : Option Nat
  sha : String
  conclusion : String
  finishedAt : Int

structure GateRunnerHeartbeat where
  runnerId : String
  labels : List String
  current : Option GateRunnerTask
  last : Option GateRunnerResult

def isReviewer (heartbeat : GateRunnerHeartbeat) : Bool :=
  heartbeat.labels.any (· == "redteam")

inductive Severity where
  | critical
  | action
  | watch

structure Item where
  id : String
  kind : String
  severity : Severity
  title : String
  reason : String
  since : Option String
  repo : Option String
  pr : Option Nat
  sha : Option String
  href : String
  label : String
  nextStep : String

def clip (text : String) : String :=
  let text := Text.trim text
  if text.length ≤ 1000 then text else String.ofList (text.toList.take 999) ++ "…"

/-- `Draft::build` for a row about a head of a pull request. -/
def pullItem (id kind : String) (severity : Severity) (title reason label since repo : String)
    (pr : Nat) (sha : String) : Item :=
  let href := "/repos/jeryu/" ++ repo ++ "/pulls/" ++ toString pr
  { id := id ++ ":" ++ repo ++ ":" ++ toString pr, kind := kind, severity := severity
    title := title, reason := clip reason, since := some since, repo := some repo, pr := some pr
    sha := some sha, href := href, label := label, nextStep := label ++ ": open " ++ href }

/-- The first seven bytes, where a character ends there. -/
def shortSha (sha : String) : String :=
  ((sha.toList.inits.map String.ofList).find? fun start => start.utf8ByteSize == 7).getD sha

section

variable (rfc3339 : Int → String) (openHeads : String × Nat → Option String)

def rereviewItem (reviewers : List GateRunnerHeartbeat) (repo : String) (pr : Nat)
    (head heldAt : String) : Option Item :=
  reviewers.findSome? fun reviewer => do
    let task ← reviewer.current
    if task.repo = repo ∧ task.pr = some pr ∧ task.sha = head then
      let started := rfc3339 task.startedAt
      some (pullItem "reviewer-rereviewing" "reviewer_rereviewing" .watch
        ("Re-reviewing " ++ shortSha head ++ " since " ++ started ++ " (previous hold at " ++
          shortSha heldAt ++ " is stale)")
        (reviewer.runnerId ++ " is reviewing " ++ repo ++ "#" ++ toString pr ++
          " at its current head " ++ shortSha head ++ ", which it started at " ++ started ++
          ". The verdict it left at " ++ shortSha heldAt ++ " was taken on a head that has been " ++
          "replaced since, so it asks nothing of anybody; wait for the pass on the current head.")
        "Wait for the review of the current head" started repo pr head)
    else none

/-- A holding verdict on an open pull request, and the head that one is at now. -/
structure Hold where
  runnerId : String
  last : GateRunnerResult
  explained : String
  pr : Nat
  head : String

def Hold.pull (hold : Hold) : String × Nat := (hold.last.repo, hold.pr)

def Hold.isCurrent (hold : Hold) : Bool := hold.head = hold.last.sha

def held (reviewer : GateRunnerHeartbeat) : Option Hold := do
  let last ← reviewer.last
  let explained ← Flow.reviewHoldExplanation last.conclusion
  let pr ← last.pr
  let head ← openHeads (last.repo, pr)
  some ⟨reviewer.runnerId, last, explained, pr, head⟩

def holdItem (reviewers : List GateRunnerHeartbeat) (hold : Hold) : Option Item :=
  if !hold.isCurrent then
    rereviewItem rfc3339 reviewers hold.last.repo hold.pr hold.head hold.last.sha
  else
    some (pullItem "reviewer-stuck" "reviewer_stuck" .action
      ("The automated reviewer stopped on " ++ hold.last.repo ++ "#" ++ toString hold.pr)
      (hold.runnerId ++ " ended with \"" ++ hold.last.conclusion ++ "\": " ++ hold.explained ++
        ". It will not approve this head, so a person has to review it or the author has to " ++
        "change it.")
      "Review the pull request by hand" (rfc3339 hold.last.finishedAt) hold.last.repo hold.pr
      hold.last.sha)

/-- What the rules of the other kinds list before and after the reviewers' verdicts. -/
structure OtherItems where
  offline : List Item
  gates : List Item
  kind : ∀ item ∈ offline ++ gates,
    item.kind ∈ ["reviewer_offline", "gate_runner_down", "gate_claim_stale"]

def holds (runners : List GateRunnerHeartbeat) : List Hold :=
  (runners.filter isReviewer).filterMap (held openHeads)

/-- The set `rowed` keeps the first verdict of each pull request. -/
def runnerItems (others : OtherItems) (runners : List GateRunnerHeartbeat) : List Item :=
  others.offline ++ (firstOfEach Hold.pull (holds openHeads runners)).filterMap
    (holdItem rfc3339 (runners.filter isReviewer)) ++ others.gates

def isStuckOn (pull : String × Nat) (item : Item) : Bool :=
  item.kind = "reviewer_stuck" ∧ item.repo = some pull.1 ∧ item.pr = some pull.2

theorem isStuckOn_holdItem (reviewers : List GateRunnerHeartbeat) (pull : String × Nat)
    (hold : Hold) : ((holdItem rfc3339 reviewers hold).map (isStuckOn pull)).getD false =
      (hold.isCurrent && decide (hold.pull = pull)) := by
  unfold holdItem
  cases hold.isCurrent with
  | true => simp [isStuckOn, pullItem, Hold.pull, Prod.ext_iff]
  | false =>
    cases hrow : rereviewItem rfc3339 reviewers hold.last.repo hold.pr hold.head hold.last.sha with
    | none => rfl
    | some item =>
      obtain ⟨reviewer, -, hreviewer⟩ := exists_of_findSome?_eq_some hrow
      obtain ⟨task, -, htask⟩ := Option.bind_eq_some_iff.mp hreviewer
      split at htask <;> cases htask
      rfl

theorem countP_others {others : OtherItems} {pull : String × Nat} {items : List Item}
    (hitems : ∀ item ∈ items, item ∈ others.offline ++ others.gates) :
    items.countP (isStuckOn pull) = 0 := by
  rw [countP_eq_zero]
  intro item hitem
  have hkind := others.kind item (hitems item hitem)
  simp only [mem_cons, not_mem_nil, or_false] at hkind
  rcases hkind with hkind | hkind | hkind <;> simp [isStuckOn, hkind]

theorem countP_runnerItems (others : OtherItems) (runners : List GateRunnerHeartbeat)
    (pull : String × Nat) :
    (runnerItems rfc3339 openHeads others runners).countP (isStuckOn pull) =
      (((holds openHeads runners).filter (·.pull = pull)).take 1).countP Hold.isCurrent := by
  unfold runnerItems
  rw [countP_append, countP_append, countP_others fun _ => mem_append_left _,
    countP_others fun _ => mem_append_right _, countP_filterMap, ← filter_firstOfEach,
    countP_filter, zero_add, add_zero]
  exact countP_congr fun hold _ => by rw [isStuckOn_holdItem]

end

/-- A pull request has one row if a verdict holds it at its head and none otherwise, exactly if the
first holding verdict on it is at its head when one is. -/
theorem stuck_exactly_iff (rfc3339 : Int → String) (openHeads : String × Nat → Option String)
    (others : OtherItems) (runners : List GateRunnerHeartbeat) (pull : String × Nat) :
    let onPull := (holds openHeads runners).filter (·.pull = pull)
    ((runnerItems rfc3339 openHeads others runners).countP (isStuckOn pull) =
        if onPull.any Hold.isCurrent then 1 else 0) ↔
      (onPull.any Hold.isCurrent → onPull.head?.any Hold.isCurrent) := by
  intro onPull
  rw [countP_runnerItems]
  change (onPull.take 1).countP Hold.isCurrent = _ ↔ _
  cases onPull with
  | nil => simp
  | cons first rest =>
    cases hfirst : first.isCurrent <;> simp [hfirst]

def holdAt (sha : String) : GateRunnerHeartbeat :=
  { runnerId := sha, labels := ["redteam"], current := none
    last := some ⟨"acme/app", some 1, sha, "hold", 0⟩ }

/-- A row of `reviewer_offline_items`. -/
def noReviewer : Item :=
  { id := "reviewer-offline", kind := "reviewer_offline", severity := .critical
    title := "1 pull request(s) wait and no reviewer is current"
    reason := "1 pull request(s) wait for review; last completed review pass " ++
      "1970-01-01 00:00:00 UTC. No review pass has completed within the 45 minute site " ++
      "threshold, so approvals are not keeping up."
    since := none, repo := none, pr := none, sha := none, href := "/runners"
    label := "Check the reviewer runner and restart it if it is not reporting"
    nextStep := "Check the reviewer runner and restart it if it is not reporting: open /runners" }

def offlineOnly : OtherItems where
  offline := [noReviewer]
  gates := []
  kind item hitem := by
    cases mem_singleton.mp hitem
    exact mem_cons_self

/-- The second reviewer holds the pull request at its head, the first one an older head; only the
row of another rule is listed. -/
theorem staleFirst_hidesHold :
    let openHeads : String × Nat → Option String := fun _ => some "b"
    ((holds openHeads [holdAt "a", holdAt "b"]).map fun hold => (hold.pull, hold.isCurrent)) =
        [(("acme/app", 1), false), (("acme/app", 1), true)] ∧
      runnerItems toString openHeads offlineOnly [holdAt "a", holdAt "b"] = [noReviewer] := by
  refine ⟨by decide +kernel, ?_⟩
  have hrows : (firstOfEach Hold.pull
      (holds (fun _ => some "b") [holdAt "a", holdAt "b"])).filterMap
        (holdItem toString ([holdAt "a", holdAt "b"].filter isReviewer)) = [] := rfl
  unfold runnerItems
  rw [hrows]
  rfl

end JeryuForge.Attention
