import JeryuForge.HumanTime.Minutes
import JeryuForge.Library.Machine
import JeryuForge.Outcomes.Project

/-!
# The event store

The append-only log of pipeline events and the ledgers that an event is projected into
in one transaction.  Only the log is ever pruned.  A transaction that fails is rolled
back, so a refused event leaves the store as it was.
-/

namespace JeryuForge.Pipeline

/-- How values are written as text and read back: times by `rfc3339_ms` and
`parse_from_rfc3339`, a detail by `to_string` and `from_str`, and a member of a stored
detail by the database's `json_extract` into a text column. -/
structure Codec where
  renderTime : Int → String
  parseTime : String → Except String Int
  reread : Json → Option Json
  columnText : Json → Option String

/-- One row of `pipeline_events`. -/
structure LogRow extends NewEvent where
  seq : Int
  tsMs : Int
  reporter : String

structure Event extends NewEvent where
  seq : Int
  ts : String
  reporter : String

/-- One row of `cost_ledger`. -/
structure CostRow where
  reporter : String
  eventId : Option String
  tsMs : Int
  source : String
  kind : String
  family : Option String
  repo : Option String
  pr : Option Int
  sha : Option String
  todoId : Option String
  shift : Option String
  outcome : Option String
  costUsd : Rat
  seconds : Option Int
  detail : Option Json

/-- The tables of the store, the largest sequence number it has ever given out, and
when it last pruned the log. -/
structure Store where
  log : List LogRow
  seq : Int
  lastPruneMs : Int
  cost : List CostRow
  flow : Flow.Tables
  outcomes : Outcomes.Tables
  incidents : Incidents.Tables
  changes : HumanTime.Ledger

def Store.empty : Store :=
  { log := []
    seq := 0
    lastPruneMs := 0
    cost := []
    flow := Flow.Tables.empty
    outcomes := Outcomes.Tables.empty
    incidents := Incidents.Tables.empty
    changes := ∅ }

inductive Failure where
  | refused (text : String)
  | panicked
deriving DecidableEq, Repr

structure Inserted where
  event : Event
  duplicate : Bool

def retentionMs : Int := 30 * 24 * 60 * 60 * 1000
def pruneEveryMs : Int := 60 * 60 * 1000

def eventFromRow (codec : Codec) (row : LogRow) : Event :=
  { row with
    ts := codec.renderTime row.tsMs
    detail := row.detail.bind codec.reread }

def existing (log : List LogRow) (reporter : String) (eventId : Option String) : Option LogRow :=
  eventId.bind fun id => log.find? fun row =>
    row.reporter = reporter && row.eventId = some id

def evidenceOf (codec : Codec) (log : List LogRow) (seq : Int) : Flow.Evidence :=
  match log.find? fun row => row.seq = seq with
  | none => Flow.noEvidence
  | some row =>
    { runner := ((member row.detail "runner_id").bind codec.columnText).or
        ((member row.detail "runner").bind codec.columnText)
      logUrl := row.logUrl }

def LogRow.view (row : LogRow) : EventView :=
  { seq := row.seq
    reporter := row.reporter
    actor := row.actor
    eventId := row.eventId
    tsMs := row.tsMs
    kind := row.kind
    outcome := row.outcome
    family := row.family
    repo := row.repo
    pr := row.pr
    todoId := row.todoId
    shift := row.shift
    sha := row.sha
    summary := some row.summary
    detail := row.detail }

def CostRow.isOf (cost : CostRow) (reporter : String) (eventId : Option String) : Bool :=
  eventId.isSome && cost.reporter = reporter && cost.eventId = eventId

/-- The cost of an event, once: `OR IGNORE` skips a row whose id is there and one that
the table's check refuses. -/
def recordCost (cost : List CostRow) (row : LogRow) : List CostRow :=
  match row.costUsd with
  | none => cost
  | some costUsd =>
    if costUsd < 0 || cost.any fun other => other.isOf row.reporter row.eventId then
      cost
    else
      cost ++
        [{ reporter := row.reporter
           eventId := row.eventId
           tsMs := row.tsMs
           source := row.source
           kind := row.kind
           family := row.family
           repo := row.repo
           pr := row.pr
           sha := row.sha
           todoId := row.todoId
           shift := row.shift
           outcome := row.outcome
           costUsd := costUsd
           seconds := row.seconds
           detail := row.detail }]

def storeRow (codec : Codec) (store : Store) (row : LogRow) : Except Failure Store :=
  if (existing store.log row.reporter row.eventId).isSome then
    .error (.refused
      "UNIQUE constraint failed: pipeline_events.reporter, pipeline_events.event_id")
  else
    let log := store.log ++ [row]
    let flow := Flow.apply (evidenceOf codec log row.seq) store.flow row.view
    match Outcomes.apply flow store.outcomes row.view with
    | none => .error .panicked
    | some outcomes =>
      .ok { store with
        log := log
        seq := max store.seq row.seq
        cost := recordCost store.cost row
        flow := flow
        outcomes := outcomes }

def prune (store : Store) (nowMs : Int) : Store :=
  if nowMs - store.lastPruneMs ≥ pruneEveryMs then
    { store with
      log := Table.deleteWhere store.log fun row => row.tsMs < nowMs - retentionMs
      lastPruneMs := nowMs }
  else
    store

def newRow (store : Store) (reporter : String) (event : NewEvent) (nowMs : Int) : LogRow :=
  { event with seq := store.seq + 1, tsMs := nowMs, reporter := reporter }

def projectReports (codec : Codec) (store : Store) (row : LogRow) : Except Failure Store :=
  match Incidents.apply (fun text => (codec.parseTime text).toOption) store.incidents
      row.reporter row.toNewEvent row.tsMs row.seq with
  | .error text => .error (.refused text)
  | .ok incidents =>
    .ok { store with
      incidents := incidents
      changes := HumanTime.apply store.flow store.changes row.toNewEvent row.tsMs }

def insert (codec : Codec) (store : Store) (reporter : String) (event : NewEvent)
    (nowMs : Int) : Except Failure (Store × Inserted) :=
  match existing store.log reporter event.eventId with
  | some row => .ok (store, { event := eventFromRow codec row, duplicate := true })
  | none => do
      let row := newRow store reporter event nowMs
      let stored ← storeRow codec store row
      let projected ← projectReports codec stored row
      return (prune projected nowMs,
        { event := { event with
            seq := row.seq, ts := codec.renderTime nowMs, reporter := reporter }
          duplicate := false })

/-- `import`: one event read back from another instance, with its sequence number, time
and reporter. -/
def importEvent (codec : Codec) (store : Store) (event : Event) :
    Except Failure (Store × Inserted) :=
  match codec.parseTime event.ts with
  | .error text =>
    .error (.refused ("event " ++ toString event.seq ++ " has invalid ts: " ++ text))
  | .ok tsMs =>
    match store.log.find? fun row => row.seq = event.seq with
    | some row => .ok (store, { event := eventFromRow codec row, duplicate := true })
    | none => do
        let stored ← storeRow codec store
          { event with seq := event.seq, tsMs := tsMs, reporter := event.reporter }
        return (stored, { event := event, duplicate := false })

def applyDelivery (codec : Codec) (store : Store) (delivery : Flow.Delivery)
    (revisions : List Flow.Revision) : Store :=
  { store with
    flow := Flow.applyDelivery (evidenceOf codec store.log delivery.seq) store.flow delivery
      revisions }

def chargeHumanMinutes (store : Store) (mark : HumanTime.Mark) : Store :=
  { store with changes := HumanTime.charge store.flow store.changes mark }

/-- One call that writes the store.  Reopening it forgets when the log was pruned. -/
inductive Action where
  | insert (reporter : String) (event : NewEvent) (nowMs : Int)
  | importEvent (event : Event)
  | applyDelivery (delivery : Flow.Delivery) (revisions : List Flow.Revision)
  | chargeHumanMinutes (mark : HumanTime.Mark)
  | reopen

def settle {α : Type} (store : Store) : Except Failure (Store × α) → Option Store
  | .ok (next, _) => some next
  | .error (.refused _) => some store
  | .error .panicked => none

def machine (codec : Codec) : Machine Store Action where
  start := Store.empty
  step store
    | .insert reporter event nowMs => settle store (insert codec store reporter event nowMs)
    | .importEvent event => settle store (importEvent codec store event)
    | .applyDelivery delivery revisions =>
      some (Pipeline.applyDelivery codec store delivery revisions)
    | .chargeHumanMinutes mark => some (Pipeline.chargeHumanMinutes store mark)
    | .reopen => some { store with lastPruneMs := 0 }

structure Ledgers where
  cost : List CostRow
  flow : List Flow.Visit
  activity : List Flow.Activity
  outcomes : OrdMap String Outcomes.Row
  legs : List Outcomes.LegRow
  shas : List Outcomes.ShaRow
  incidents : OrdMap String Incidents.Row
  causes : List Incidents.CauseRow
  changes : HumanTime.Ledger

def Store.ledgers (store : Store) : Ledgers :=
  { cost := store.cost
    flow := store.flow.ledger
    activity := store.flow.activity
    outcomes := store.outcomes.ledger
    legs := store.outcomes.legs
    shas := store.outcomes.shas
    incidents := store.incidents.ledger
    causes := store.incidents.causes
    changes := store.changes }

/-- The texts of the first seconds of two months, the only times the examples use. -/
def monthStarts : Codec where
  renderTime ms :=
    if ms < 10000 then
      "1970-01-01T00:00:0" ++ toString (ms / 1000) ++ "Z"
    else
      "1970-02-01T00:00:0" ++ toString ((ms - 2678400000) / 1000) ++ "Z"
  parseTime text :=
    match ["0", "1", "2", "3", "4", "5", "6", "7", "8", "9"].findIdx? fun digit =>
        text = "1970-01-01T00:00:0" ++ digit ++ "Z" with
    | some second => .ok (second * 1000)
    | none => .error "premature end of input"
  reread := some
  columnText := Json.asStr

def outage : NewEvent :=
  { NewEvent.forge "incident.opened" "checkout is down" with
    eventId := some "alert-1"
    detail := some (.object [("incident_id", .string "checkout")]) }

def landing : NewEvent :=
  { NewEvent.forge "pr.merged" "#7 landed" with
    eventId := some "landing-7"
    repo := some "acme/shop"
    pr := some 7 }

def notice : NewEvent :=
  NewEvent.forge "site.notice" "maintenance"

def pullOpened : NewEvent :=
  { NewEvent.forge "pr.opened" "#7 opened" with
    eventId := some "opened-7"
    repo := some "acme/shop"
    pr := some 7
    todoId := some "checkout-todo"
    costUsd := some (1 / 2)
    detail := some (.object [("runner", .string "runner-3")]) }

end JeryuForge.Pipeline
