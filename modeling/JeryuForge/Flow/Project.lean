import JeryuForge.Pipeline.Event

/-!
# The flow projection

What `apply` and `deliver` write: visits of lots to stations, their activity, and the
receipts that make a delivery count once.  A visit's row id is its place in the list,
since no visit is ever deleted.  A statement that fails rolls the whole transaction
back, so a failed projection is no step.
-/

namespace JeryuForge.Flow

open Pipeline

inductive Station where
  | queue
  | work
  | shift
  | review
  | gate
  | merge
  | pin
  | stage
  | deploy
deriving DecidableEq, Repr

def Station.id : Station → String
  | .queue => "queue"
  | .work => "work"
  | .shift => "shift"
  | .review => "review"
  | .gate => "gate"
  | .merge => "merge"
  | .pin => "pin"
  | .stage => "stage"
  | .deploy => "deploy"

inductive Cause where
  | reviewHold
  | gateRed
  | queueConflict
  | queueFailed
deriving DecidableEq, Repr

def Cause.reason : Cause → String
  | .reviewHold => "review_hold"
  | .gateRed => "gate_red"
  | .queueConflict => "queue_conflict"
  | .queueFailed => "queue_failed"

inductive Step where
  | enter (station : Station)
  | start (station : Station)
  | leave (station : Station)
  | rework (station backTo : Station)
  | hold (station : Station)
  | release (station : Station)
  | holdFor (station : Station) (cause : Cause)
deriving DecidableEq, Repr

/-- Why a reviewer that ended with this verdict holds the pull request. -/
def reviewHoldExplanation (verdict : String) : Option String :=
  if verdict = "hold" ∨ verdict = "request_changes" then
    some "it found a problem serious enough to hold the merge and requested changes"
  else if verdict = "too_large" then
    some "the diff is larger than the reviewer accepts, so nothing was posted"
  else if verdict = "publication_rejected" then
    some "the forge refused the review it tried to post"
  else if verdict = "failed" then
    some "the review run ended without a usable verdict"
  else
    none

def sweepsShift (kind : String) : Bool :=
  kind ∈ ["shift.pr_opened", "pr.opened", "pr.ready_for_review", "gate.started"]

def bringsHead (kind : String) : Bool :=
  sweepsShift kind || kind == "review.started"

open Station Cause Step in
def steps (kind : String) (outcome : Option String) : List Step :=
  let outcome := outcome.getD ""
  if kind = "todo.filed" then
    [enter queue]
  else if kind = "todo.claimed" then
    [enter queue, start queue, leave queue, enter work]
  else if kind = "worker.stage" then
    [enter work, start work]
  else if kind = "todo.attempt_finished" then
    if outcome = "done" then
      [leave work, enter Station.shift]
    else if outcome ∈ ["retry", "killed", "ratelimit", "retarget"] then
      [rework work queue]
    else if outcome ∈ ["blocked", "handoff", "needs_human"] then
      [hold work]
    else
      []
  else if kind = "todo.action" then
    if outcome ∈ ["released", "unblocked"] then
      [Step.release work]
    else if outcome ∈ ["blocked", "parked"] then
      [hold work]
    else
      []
  else if kind ∈ ["shift.pr_opened", "pr.opened", "pr.ready_for_review"] then
    [leave Station.shift, enter review, enter gate]
  else if kind = "review.started" then
    [enter review, Step.release review, start review]
  else if kind ∈ ["review.finished", "pr.review", "pr.reviewed"] then
    if outcome ∈ ["approve", "approved"] then
      [leave review]
    else if (reviewHoldExplanation outcome).isSome then
      [holdFor review reviewHold]
    else
      []
  else if kind = "pr.approved" then
    [leave review]
  else if kind = "gate.started" then
    [enter gate, Step.release gate, start gate]
  else if kind ∈ ["gate.finished", "gate.log"] then
    if outcome = "success" then
      [leave gate]
    else if outcome = "failure" then
      [holdFor gate gateRed]
    else if outcome ∈ ["error", "timed_out", "inputs_changed"] then
      [rework gate gate]
    else
      []
  else if kind = "queue.enqueued" then
    [enter merge, Step.release merge, start merge]
  else if kind = "queue.building" then
    [rework merge gate]
  else if kind = "queue.failed" then
    [holdFor merge queueFailed]
  else if kind = "queue.refused" then
    [holdFor merge queueConflict]
  else if kind ∈ ["queue.landed", "pr.merged", "todo.merged"] then
    [leave queue, leave work, leave Station.shift, leave review, leave gate, leave merge,
      enter stage]
  else if kind = "pin.bump_opened" then
    [enter pin, start pin]
  else if kind = "pin.bump_failed" then
    [rework pin pin]
  else if kind = "release.staged" then
    [leave pin, leave stage, enter deploy, hold deploy]
  else if kind = "release.stage_failed" then
    [rework stage stage]
  else if kind = "deploy.created" then
    [enter deploy, Step.release deploy, start deploy]
  else if kind = "deploy.status" then
    if outcome = "success" then
      [leave deploy]
    else if outcome ∈ ["failure", "error"] then
      [rework deploy stage]
    else
      []
  else
    []

def detailText (event : EventView) (key : String) : Option String :=
  (member event.detail key).bind Json.asStr

/-- What one stored event means for the route: its kind and outcome, refined by the
state of the slot and of the todo that its detail carries. -/
def eventSteps (event : EventView) : List Step :=
  if event.kind = "worker.stage" ∧ (detailText event "state").any (· ≠ "working") then
    []
  else if event.kind = "todo.attempt_finished" ∧
      detailText event "todo_status" = some "blocked" then
    [.hold .work]
  else if event.kind = "todo.attempt_finished" ∧ event.outcome = some "incomplete" then
    [.rework .work .queue]
  else
    steps event.kind event.outcome

/-! ## The flow projection -/

open Table

/-- `flow_ledger.direction`; the table's check allows these four. -/
inductive Direction where
  | open
  | hold
  | forward
  | rework
deriving DecidableEq, Repr

/-- One row of `flow_ledger`. -/
structure Visit where
  lotId : String
  family : Option String
  repo : Option String
  pr : Option Int
  todoId : Option String
  shift : Option String
  station : Station
  enteredMs : Int
  startedMs : Option Int
  leftMs : Option Int
  outcome : Option String
  direction : Direction
  reworkTo : Option Station
  sourceSeqFirst : Int
  sourceSeqLast : Int
  holdReason : Option String
  holdBy : Option String
  holdSinceMs : Option Int
  holdSha : Option String
deriving DecidableEq, Repr

structure Activity where
  eventSeq : Int
  lotId : String
  station : Station
  state : String
  tsMs : Int
  family : Option String
  repo : Option String
  pr : Option Int
  sha : Option String
  summary : Option String
  runner : Option String
  logUrl : Option String
deriving DecidableEq, Repr

def Activity.key (row : Activity) : Int × String × Station × String :=
  (row.eventSeq, row.lotId, row.station, row.state)

/-- One row of `flow_delivery_receipts`. -/
structure Receipt where
  eventSeq : Int
  lotId : String
  repo : String
  revision : String
  release : Option String
  kind : String
  tsMs : Int
deriving DecidableEq, Repr

def Receipt.key (row : Receipt) : Int × String :=
  (row.eventSeq, row.lotId)

/-- One row of `flow_merge_revisions`. -/
structure Revision where
  repo : String
  pr : Int
  sha : String
  family : Option String
deriving DecidableEq, Repr

def Revision.key (row : Revision) : String × Int × String :=
  (row.repo, row.pr, row.sha)

structure Tables where
  ledger : List Visit
  activity : List Activity
  receipts : List Receipt
  events : List ProjectedEvent
  revisions : List Revision
deriving DecidableEq, Repr

def Tables.empty : Tables :=
  { ledger := [], activity := [], receipts := [], events := [], revisions := [] }

/-- What the event log holds for the sequence number of an event: the runner its
stored detail names and its log's address. -/
structure Evidence where
  runner : Option String
  logUrl : Option String
deriving DecidableEq, Repr

def noEvidence : Evidence :=
  { runner := none, logUrl := none }

structure Lot where
  id : String
  repo : Option String
  pr : Option Int
  todoId : Option String
deriving DecidableEq, Repr

def Station.startsOnArrival (_ : Station) : Bool :=
  false

def Visit.isOpen (visit : Visit) : Bool :=
  visit.leftMs.isNone

def Visit.isAt (visit : Visit) (lotId : String) (station : Station) : Bool :=
  visit.lotId = lotId && visit.station = station

def Visit.isOpenAt (visit : Visit) (lotId : String) (station : Station) : Bool :=
  visit.isAt lotId station && visit.isOpen

def openVisit (tables : Tables) (lotId : String) (station : Station) : Option Visit :=
  last? tables.ledger fun visit => visit.isOpenAt lotId station

def heldAt (tables : Tables) (lotId : String) (station : Station) : Bool :=
  tables.ledger.any fun visit => visit.isOpenAt lotId station && visit.direction = .hold

def leftForward (tables : Tables) (lotId : String) (station : Station) : Bool :=
  (last? tables.ledger fun visit => visit.isAt lotId station).any
    fun visit => visit.direction = .forward

def knownFamily (tables : Tables) (lotId : String) : Option String :=
  (tables.ledger.find? fun visit =>
    visit.lotId = lotId && visit.family.isSome).bind Visit.family

def record (evidence : Evidence) (tables : Tables) (event : EventView)
    (lotId : String) (station : Station) (state : String) : Tables :=
  match last? tables.ledger fun visit => visit.isAt lotId station with
  | none => tables
  | some visit =>
    { tables with
      activity := insertOrIgnore Activity.key tables.activity
        { eventSeq := event.seq
          lotId := lotId
          station := station
          state := state
          tsMs := event.tsMs
          family := event.family.or visit.family
          repo := visit.repo
          pr := visit.pr
          sha := event.sha
          summary := event.summary
          runner := evidence.runner
          logUrl := evidence.logUrl } }

/-- An `UPDATE flow_ledger`.  It is recorded as activity if it changed a row, and
never when it is quiet: a visit that was held already. -/
def updateVisits (evidence : Evidence) (tables : Tables) (event : EventView)
    (lotId : String) (station : Station) (state : String) (quiet : Bool)
    (hit : Visit → Bool) (change : Visit → Visit) : Tables :=
  let updated := { tables with ledger := updateWhere tables.ledger hit change }
  if tables.ledger.any hit && !quiet then
    record evidence updated event lotId station state
  else
    updated

def newVisit (tables : Tables) (event : EventView) (lot : Lot) (station : Station) : Visit :=
  { lotId := lot.id
    family := event.family.or (knownFamily tables lot.id)
    repo := lot.repo
    pr := lot.pr
    todoId := lot.todoId
    shift := event.shift
    station := station
    enteredMs := event.tsMs
    startedMs := if station.startsOnArrival then some event.tsMs else none
    leftMs := none
    outcome := none
    direction := .open
    reworkTo := none
    sourceSeqFirst := event.seq
    sourceSeqLast := event.seq
    holdReason := none
    holdBy := none
    holdSinceMs := none
    holdSha := none }

def enter (evidence : Evidence) (tables : Tables) (event : EventView)
    (lot : Lot) (station : Station) : Tables :=
  if (openVisit tables lot.id station).isSome then
    tables
  else
    let entered :=
      { tables with ledger := tables.ledger ++ [newVisit tables event lot station] }
    record evidence entered event lot.id station "arrived"

def closedState (event : EventView) (direction : Direction) : String :=
  if direction = .forward then
    "passed"
  else if event.outcome = some "error" ∨ event.outcome = some "timed_out" ∨
      Text.endsWith event.kind "stage_failed" then
    "failed"
  else
    "rework"

def close (evidence : Evidence) (tables : Tables) (event : EventView)
    (lot : Lot) (station : Station) (direction : Direction)
    (backTo : Option Station) : Tables :=
  updateVisits evidence tables event lot.id station (closedState event direction) false
    (fun visit => visit.isOpenAt lot.id station && visit.enteredMs ≤ event.tsMs)
    (fun visit =>
      { visit with
        leftMs := some event.tsMs
        direction := direction
        reworkTo := backTo
        outcome := event.outcome.or visit.outcome
        sourceSeqLast := event.seq })

def detailName (event : EventView) (key : String) : Option String :=
  (Text.nonEmpty (detailText event key)).filter fun name => name.utf8ByteSize ≤ 120

def holder (event : EventView) : Cause → String
  | .reviewHold =>
    (((detailName event "reviewer").or (detailName event "login")).or event.actor).getD
      event.reporter
  | .gateRed =>
    (((detailName event "check").or (detailName event "context")).or
      (detailName event "recipe")).getD "pr-gate-runner"
  | .queueConflict | .queueFailed => "merge-queue"

def headSha (event : EventView) : Option String :=
  event.sha.filter fun sha => !sha.isEmpty

def ensureOpen (evidence : Evidence) (tables : Tables) (event : EventView)
    (lot : Lot) (station : Station) : Tables :=
  if (openVisit tables lot.id station).isNone then
    enter evidence tables event lot station
  else
    tables

def applyStep (evidence : Evidence) (tables : Tables) (event : EventView) (lot : Lot) :
    Step → Tables
  | .enter station => enter evidence tables event lot station
  | .start station =>
    let tables := ensureOpen evidence tables event lot station
    updateVisits evidence tables event lot.id station "started" false
      (fun visit => visit.isOpenAt lot.id station && visit.startedMs.isNone)
      (fun visit => { visit with startedMs := some event.tsMs, sourceSeqLast := event.seq })
  | .leave station => close evidence tables event lot station .forward none
  | .rework station backTo =>
    -- nothing to send back if the lot was never here
    if (openVisit tables lot.id station).isNone then
      tables
    else
      let closed := close evidence tables event lot station .rework (some backTo)
      enter evidence closed event lot backTo
  | .hold station =>
    let tables := ensureOpen evidence tables event lot station
    updateVisits evidence tables event lot.id station "held"
      (heldAt tables lot.id station)
      (fun visit => visit.isOpenAt lot.id station)
      (fun visit =>
        { visit with
          direction := .hold
          outcome := event.outcome
          sourceSeqLast := event.seq })
  | .holdFor station cause =>
    let tables := ensureOpen evidence tables event lot station
    updateVisits evidence tables event lot.id station "held"
      (heldAt tables lot.id station)
      (fun visit => visit.isOpenAt lot.id station)
      (fun visit =>
        { visit with
          direction := .hold
          outcome := event.outcome
          sourceSeqLast := event.seq
          -- a repeated verdict on one head keeps the first one's time
          holdSinceMs :=
            if visit.holdReason = some cause.reason ∧ visit.holdSha = headSha event then
              some ((visit.holdSinceMs.map fun since => min since event.tsMs).getD event.tsMs)
            else
              some event.tsMs
          holdReason := some cause.reason
          holdBy := some (holder event cause)
          holdSha := headSha event })
  | .release station =>
    updateVisits evidence tables event lot.id station "released" false
      (fun visit =>
        visit.isOpenAt lot.id station && visit.direction = .hold &&
          (visit.holdReason.isNone || visit.station = .merge))
      (fun visit => { visit with direction := .open, sourceSeqLast := event.seq })

def staleHolds (tables : Tables) (event : EventView) (lot : Lot) : List Station :=
  (tables.ledger.filter fun visit =>
    visit.lotId = lot.id && visit.isOpen && visit.direction = .hold &&
      visit.holdReason.isSome && visit.enteredMs ≤ event.tsMs &&
      visit.holdSha.isSome && (headSha event).isSome &&
      visit.holdSha != headSha event).map Visit.station

def releaseOnNewHead
    (evidence : Evidence) (tables : Tables) (event : EventView) (lot : Lot) : Tables :=
  if bringsHead event.kind then
    (staleHolds tables event lot).foldl
      (fun tables station => close evidence tables event lot station .rework (some .work))
      tables
  else
    tables

def bindPr (tables : Tables) (lotId repo : String) (pr : Int) : Tables :=
  { tables with
    activity := updateWhere tables.activity
      (fun row => row.lotId = lotId && row.pr.isNone &&
        (row.repo.isNone || row.repo = some repo))
      (fun row => { row with repo := some repo, pr := some pr })
    ledger := updateWhere tables.ledger
      (fun visit => visit.lotId = lotId && visit.pr.isNone &&
        (visit.repo.isNone || visit.repo = some repo))
      (fun visit => { visit with repo := some repo, pr := some pr }) }

/-- Rewrite the visits of a pull-request-only lot onto the todo that carries it, and
give the todo's own visits the pull request. -/
def adopt (tables : Tables) (todoId repo : String) (pr : Int) : Tables :=
  let moved :=
    { tables with
      activity := updateOrIgnore Activity.key tables.activity
        (fun row => row.lotId = prLot repo pr)
        (fun row => { row with lotId := todoId }) }
  let renamed :=
    if prLot repo pr ≠ todoId then
      { moved with
        activity := deleteWhere moved.activity fun row => row.lotId = prLot repo pr
        receipts := deleteWhere
          (updateOrIgnore Receipt.key moved.receipts
            (fun row => row.lotId = prLot repo pr)
            (fun row => { row with lotId := todoId }))
          fun row => row.lotId = prLot repo pr
        ledger := updateWhere moved.ledger
          (fun visit => visit.lotId = prLot repo pr)
          (fun visit => { visit with lotId := todoId, todoId := some todoId }) }
    else
      moved
  bindPr renamed todoId repo pr

def openAtShift (tables : Tables) (shift repo : String) (family : Option String) : List Lot :=
  (tables.ledger.filter fun visit =>
    visit.shift = some shift && visit.station = .shift && visit.isOpen &&
      visit.repo = some repo && (family.isNone || visit.family = family)).map
    fun visit =>
      { id := visit.lotId, repo := visit.repo, pr := visit.pr, todoId := visit.todoId }

def lotsOfPr (tables : Tables) (repo : String) (pr : Int) : List String :=
  ((tables.ledger.filter fun visit =>
    visit.repo = some repo && visit.pr = some pr).map Visit.lotId).eraseDups

def todoOf (tables : Tables) (lotId : String) : Option String :=
  (tables.ledger.find? fun visit =>
    visit.lotId = lotId && visit.todoId.isSome).bind Visit.todoId

def sweep (tables : Tables) (event : EventView) (repo : String) : List Lot :=
  if sweepsShift event.kind then
    match Text.nonEmpty event.shift with
    | some shift => openAtShift tables shift repo event.family
    | none => []
  else
    []

/-- The lots of a pull request after a sweep: those it already carries, then those
swept, and its own lot when there are none. -/
def lotIds (tables : Tables) (swept : List Lot) (repo : String) (pr : Int) : List String :=
  let ids := swept.foldl
    (fun ids lot => if lot.id ∈ ids then ids else ids ++ [lot.id])
    (lotsOfPr tables repo pr)
  if ids.isEmpty then [prLot repo pr] else ids

def lotsFor (tables : Tables) (event : EventView) : Tables × List (Lot × Bool) :=
  match Text.nonEmpty event.todoId, event.repo, event.pr with
  | some todoId, some repo, some pr =>
    (adopt tables todoId repo pr,
      [({ id := todoId, repo := some repo, pr := some pr, todoId := some todoId }, false)])
  | some todoId, repo, pr =>
    (tables, [({ id := todoId, repo := repo, pr := pr, todoId := some todoId }, false)])
  | none, some repo, some pr =>
    let swept := sweep tables event repo
    let bound := swept.foldl (fun tables lot => bindPr tables lot.id repo pr) tables
    (bound, (lotIds bound swept repo pr).map fun id =>
      ({ id := id, repo := some repo, pr := some pr, todoId := todoOf bound id },
        swept.any fun lot => lot.id = id))
  | none, _, _ => (tables, [])

def firstProjection (tables : Tables) (event : EventView) : Tables × Bool :=
  ({ tables with events := (foldedOnce tables.events event).1 }, (foldedOnce tables.events event).2)

def validSha (sha : String) : Bool :=
  sha.utf8ByteSize = 40 && sha.toList.all Text.isAsciiHexdigit

def recordRevision (tables : Tables) (event : EventView) : Tables :=
  match event.repo, event.pr, event.sha with
  | some repo, some pr, some sha =>
    if (event.kind = "pr.merged" ∨ event.kind = "queue.landed") ∧ validSha sha then
      { tables with
        revisions := insertOrIgnore Revision.key tables.revisions
          { repo := repo, pr := pr, sha := sha, family := event.family } }
    else
      tables
  | _, _, _ => tables

def opensMerge (tables : Tables) (steps : List Step) (lot : Lot) : Bool :=
  !steps.contains (.leave .merge) &&
    (steps.contains (.leave .review) || steps.contains (.leave .gate)) &&
    leftForward tables lot.id .review && leftForward tables lot.id .gate &&
    (openVisit tables lot.id .merge).isNone && !leftForward tables lot.id .merge

def reclaim (evidence : Evidence) (tables : Tables) (event : EventView) (lot : Lot) : Tables :=
  if event.kind = "todo.claimed" ∧ heldAt tables lot.id .work then
    close evidence tables event lot .work .rework (some .queue)
  else
    tables

/-- The steps of a lot: one that joins an open pull request's new head first leaves
Shift and waits for the review of that head. -/
def lotSteps (steps : List Step) (joined : Bool) : List Step :=
  if joined && !steps.contains (.leave .shift) then
    .leave .shift :: .enter .review :: steps
  else
    steps

def applyLot (evidence : Evidence) (event : EventView) (steps : List Step)
    (tables : Tables) (moved : Lot × Bool) : Tables :=
  let lot := moved.1
  let tables := releaseOnNewHead evidence tables event lot
  let tables := reclaim evidence tables event lot
  let tables := (lotSteps steps moved.2).foldl
    (fun tables step => applyStep evidence tables event lot step) tables
  if opensMerge tables steps lot then
    enter evidence tables event lot .merge
  else
    tables

def apply (evidence : Evidence) (tables : Tables) (event : EventView) : Tables :=
  let tables := recordRevision tables event
  let steps := eventSteps event
  if steps.isEmpty then
    tables
  else
    let (tables, first) := firstProjection tables event
    if first then
      let (tables, lots) := lotsFor tables event
      lots.foldl (applyLot evidence event steps) tables
    else
      tables

def passToDeploy (evidence : Evidence) (tables : Tables) (event : EventView) (lot : Lot) : Tables :=
  if Text.startsWith event.kind "deploy." then
    let passed := [Station.pin, .stage].foldl
      (fun tables station => close evidence tables event lot station .forward none)
      tables
    enter evidence passed event lot .deploy
  else
    tables

def deliverLot (evidence : Evidence) (event : EventView) (shipper revision : String)
    (tables : Tables) (moved : Lot × Bool) : Tables :=
  let lot := moved.1
  let pending := tables.ledger.any fun visit =>
    visit.lotId = lot.id && visit.station ∈ [Station.pin, .stage, .deploy] &&
      visit.isOpen && visit.enteredMs ≤ event.tsMs
  let receipt : Receipt :=
    { eventSeq := event.seq
      lotId := lot.id
      repo := shipper
      revision := revision
      release := detailText event "release"
      kind := event.kind
      tsMs := event.tsMs }
  if pending && !holdsKey Receipt.key tables.receipts receipt then
    let tables :=
      { tables with
        receipts := insertOrIgnore Receipt.key tables.receipts receipt }
    let tables := passToDeploy evidence tables event lot
    (steps event.kind event.outcome).foldl
      (fun tables step => applyStep evidence tables event lot step) tables
  else
    tables

def deliver (evidence : Evidence) (tables : Tables) (event : EventView)
    (shipper revision : String) : Tables :=
  let (tables, lots) := lotsFor tables event
  lots.foldl (deliverLot evidence event shipper revision) tables

structure Delivery where
  seq : Int
  ts : Int
  kind : String
  outcome : Option String
  family : Option String
  repo : String
  sha : String
  detail : Option Json

def Delivery.view (delivery : Delivery) (revision : Revision) : EventView :=
  { seq := delivery.seq
    reporter := "flow-delivery"
    actor := none
    eventId := none
    tsMs := delivery.ts
    kind := delivery.kind
    outcome := delivery.outcome
    family := revision.family
    repo := some revision.repo
    pr := some revision.pr
    todoId := none
    shift := none
    sha := some revision.sha
    summary := some "Release membership verified against immutable Git revision"
    detail := delivery.detail }

/-- `flow::delivery::apply`. -/
def applyDelivery (evidence : Evidence) (tables : Tables) (delivery : Delivery)
    (revisions : List Revision) : Tables :=
  revisions.foldl
    (fun tables revision =>
      deliver evidence tables (delivery.view revision) delivery.repo delivery.sha)
    tables

end JeryuForge.Flow
