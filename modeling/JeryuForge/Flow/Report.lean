import JeryuForge.Flow.Project
import JeryuForge.Library.OrdMap

/-!
# The flow report

The arithmetic behind `GET /api/v1/flow`: visits of `flow_ledger` in, the stations, the
line and the listed lots out.  Counts are natural numbers and times are integers; rates
are the doubles of the source.  `capacity`, `utilization` and `claims` stay null here and
are left out, as is `claim` of a listed lot.
-/

namespace JeryuForge.Flow

def Station.all : List Station :=
  [.queue, .work, .shift, .review, .gate, .merge, .pin, .stage, .deploy]

def Station.label : Station → String
  | .queue => "Queue"
  | .work => "Work"
  | .shift => "Shift"
  | .review => "Review"
  | .gate => "Gate"
  | .merge => "Merge"
  | .pin => "Pin"
  | .stage => "Stage"
  | .deploy => "Deploy"

def Station.order (station : Station) : Nat :=
  (Station.all.findIdx? fun other => other = station).elim 0 fun index => index + 1

def Station.parse (id : String) : Option Station :=
  Station.all.find? fun station => station.id = id

/-- The columns of a `flow_ledger` row that the report reads.  The table does not check
the stations a row names. -/
structure LedgerRow where
  lotId : String
  station : String
  enteredMs : Int
  startedMs : Option Int
  leftMs : Option Int
  direction : Direction
  reworkTo : Option String
  repo : Option String
  pr : Option Int
  holdReason : Option String
  holdBy : Option String
  holdSinceMs : Option Int
  family : Option String

namespace Report

structure HoldRecord where
  reason : String
  by' : String
  sinceMs : Int
deriving DecidableEq, Repr

structure Visit where
  lotId : String
  station : Station
  enteredMs : Int
  startedMs : Option Int
  leftMs : Option Int
  direction : Direction
  reworkTo : Option Station
  repo : Option String
  pr : Option Int
  hold : Option HoldRecord
  family : Option String
deriving DecidableEq, Repr

def minSamples : Nat := 3
def lotsPerStation : Nat := 20
def flowSchema : String := "jeryu.flow/v1"

def seconds (ms : Int) : Int :=
  max (ms.tdiv 1000) 0

namespace Visit

def held (visit : Visit) : Bool :=
  visit.direction = .hold

def leftForward (visit : Visit) : Bool :=
  visit.direction = .forward

def isOpen (visit : Visit) : Bool :=
  visit.leftMs.isNone

def processS (visit : Visit) : Option Int :=
  match visit.startedMs, visit.leftMs with
  | some started, some left => some (seconds (left - started))
  | _, _ => none

end Visit

structure Pair where
  p50 : Int
  p90 : Int
deriving DecidableEq, Repr

structure Ratios where
  p50 : Float
  p90 : Float

structure Wip where
  waiting : Nat
  active : Nat
  held : Nat
deriving DecidableEq, Repr

def Wip.total (wip : Wip) : Nat :=
  wip.waiting + wip.active + wip.held

structure Rework where
  backTo : String
  count : Nat
  rate : Float

structure Unknown where
  metric : String
  reason : String
deriving DecidableEq, Repr

structure StationReport where
  id : String
  label : String
  order : Nat
  wip : Wip
  oldestWaitS : Option Int
  queueS : Option Pair
  processS : Option Pair
  totalS : Option Pair
  throughputPerHour : Option Float
  firstPassRate : Option Float
  rework : List Rework
  bottleneck : Bool
  unknown : List Unknown
  lotsListed : Nat

structure Line where
  cycleS : Option Pair
  xFactor : Option Ratios
  wip : Nat
  finished : Nat

structure HoldReport where
  reason : String
  by' : String
  since : String
  ageS : Int
  nobodyActing : Bool
  reviewHref : Option String
deriving DecidableEq, Repr

structure LotReport where
  lotId : String
  station : String
  state : String
  since : String
  etaS : Option Pair
  etaPartial : Bool
  etaUnknownStations : List String
  slowestAhead : Option String
  href : String
  prHref : Option String
  hold : Option HoldReport
deriving DecidableEq, Repr

/-- Which lots an answer lists: up to `limit` per station after skipping `offset`, only
those of a station when it names one. -/
structure LotsPage where
  station : Option String
  offset : Nat
  limit : Nat
  order : String
deriving DecidableEq, Repr

def LotsPage.default : LotsPage :=
  { station := none, offset := 0, limit := lotsPerStation, order := "oldest" }

structure Request where
  family : Option String
  days : Int
  nowMs : Int
deriving DecidableEq, Repr

structure FlowReport where
  schemaVersion : String
  generatedAt : String
  family : Option String
  days : Int
  since : String
  «until» : String
  stations : List StationReport
  line : Line
  lots : List LotReport
  lotsTotal : Nat
  lotsTruncated : Bool
  lotsPage : LotsPage

def rank (sorted : List Int) (percent : Nat) : Int :=
  sorted.getD (max ((sorted.length * percent + 99) / 100) 1 - 1) 0

def pair (samples : List Int) : Option Pair :=
  if samples.length < minSamples then
    none
  else
    let sorted := samples.insertionSort (· ≤ ·)
    some { p50 := rank sorted 50, p90 := rank sorted 90 }

def ratios (samples : List Float) : Option Ratios :=
  (pair (samples.map fun value => (value * 1000.0).round.toInt64.toInt)).map fun pair =>
    { p50 := Float.ofInt pair.p50 / 1000.0, p90 := Float.ofInt pair.p90 / 1000.0 }

def rate (numerator denominator : Nat) : Float :=
  if denominator = 0 then
    0.0
  else
    (Float.ofNat numerator / Float.ofNat denominator * 100.0).round / 100.0

def windowStart (nowMs days : Int) : Int :=
  nowMs - days * 24 * 60 * 60 * 1000

def Request.inWindow (request : Request) (ms : Int) : Bool :=
  windowStart request.nowMs request.days ≤ ms && ms ≤ request.nowMs

def openVisits (isCurrent : Visit → Bool) (visits : List Visit) : List Visit :=
  visits.filter fun visit => visit.isOpen && isCurrent visit

def leftVisits (inWindow : Int → Bool) (visits : List Visit) : List Visit :=
  visits.filter fun visit => visit.leftMs.any inWindow

def startedVisits (inWindow : Int → Bool) (visits : List Visit) : List Visit :=
  visits.filter fun visit => visit.startedMs.any inWindow

def countWip (opened : List Visit) : Wip :=
  { waiting := (opened.filter fun visit => !visit.held && visit.startedMs.isNone).length
    active := (opened.filter fun visit => !visit.held && visit.startedMs.isSome).length
    held := (opened.filter Visit.held).length }

def oldestWait (nowMs : Int) (opened : List Visit) : Option Int :=
  opened.foldl
    (fun oldest visit =>
      let waited := seconds (nowMs - visit.enteredMs)
      some (oldest.elim waited fun old => max old waited))
    none

def queueSamples (started : List Visit) : List Int :=
  started.filterMap fun visit => visit.startedMs.map fun at' => seconds (at' - visit.enteredMs)

def totalSamples (left : List Visit) : List Int :=
  left.filterMap fun visit =>
    (visit.leftMs.filter fun ended => visit.enteredMs ≤ ended).map fun ended =>
      seconds (ended - visit.enteredMs)

def looped (own : List Visit) (lotId : String) : Bool :=
  own.any fun visit => visit.direction = .rework && visit.lotId = lotId

def sentBack (station : Station) (left : List Visit) : OrdMap String Nat :=
  (left.filter fun visit => visit.direction = .rework).foldl
    (fun back visit =>
      let backTo := (visit.reworkTo.getD station).id
      back.insert backTo ((back.get? backTo).getD 0 + 1))
    ∅

def missing (metrics : List (String × Nat × Bool)) : List Unknown :=
  (metrics.filter fun metric => metric.2.2).map fun metric =>
    { metric := metric.1
      reason := if metric.2.1 = 0 then "no_events" else "too_few_samples" }

def noHeartbeat : Unknown :=
  { metric := "capacity", reason := "no_heartbeat" }

def emptyReport (station : Station) : StationReport :=
  { id := station.id
    label := station.label
    order := station.order
    wip := { waiting := 0, active := 0, held := 0 }
    oldestWaitS := none
    queueS := none
    processS := none
    totalS := none
    throughputPerHour := none
    firstPassRate := none
    rework := []
    bottleneck := false
    unknown := [noHeartbeat]
    lotsListed := 0 }

/-- `station_report`, without capacity, utilization and claims. -/
def stationReport (station : Station) (own : List Visit) (ever : Bool) (nowMs : Int)
    (inWindow : Int → Bool) (hours : Float) (isCurrent : Visit → Bool) : StationReport :=
  if ever then
    let opened := openVisits isCurrent own
    let queue := queueSamples (startedVisits inWindow own)
    let left := leftVisits inWindow own
    let process := left.filterMap Visit.processS
    let forward := left.filter Visit.leftForward
    let firstPass := (forward.filter fun visit => !looped own visit.lotId).length
    let firstPassRate :=
      if minSamples ≤ forward.length then some (rate firstPass forward.length) else none
    { emptyReport station with
      wip := countWip opened
      oldestWaitS := oldestWait nowMs opened
      queueS := pair queue
      processS := pair process
      totalS := pair (totalSamples left)
      throughputPerHour := some ((Float.ofNat forward.length / hours * 100.0).round / 100.0)
      firstPassRate := firstPassRate
      rework := (sentBack station left).entries.map fun entry =>
        { backTo := entry.1, count := entry.2, rate := rate entry.2 left.length }
      unknown := noHeartbeat :: missing
        [("queue_s", queue.length, (pair queue).isNone),
          ("process_s", process.length, (pair process).isNone),
          ("first_pass_rate", forward.length, firstPassRate.isNone)] }
  else
    { emptyReport station with
      unknown := [{ metric := "all", reason := "no_events" }, noHeartbeat] }

def load (station : StationReport) : Option Float :=
  if station.wip.total = 0 then
    none
  else
    station.queueS.bind fun queue => station.throughputPerHour.bind fun throughput =>
      let load := Float.ofInt queue.p50 * throughput
      if load > 0.0 then some load else none

def worst : Nat → Option (Nat × Float) → List StationReport → Option Nat
  | _, found, [] => found.map Prod.fst
  | index, found, station :: rest =>
    match load station with
    | none => worst (index + 1) found rest
    | some load =>
      if found.all fun best => load > best.2 then
        worst (index + 1) (some (index, load)) rest
      else
        worst (index + 1) found rest

def markBottleneck (stations : List StationReport) : List StationReport :=
  match worst 0 none stations with
  | none => stations
  | some index => stations.modify index fun station => { station with bottleneck := true }

def byLot (visits : List Visit) : OrdMap String (List Visit) :=
  visits.foldl
    (fun lots visit =>
      lots.insert visit.lotId ((lots.get? visit.lotId).getD [] ++ [visit]))
    ∅

/-- The visit by which the last station of the route let the lot go in the window. -/
def deployed (inWindow : Int → Bool) (lot : List Visit) : Option Visit :=
  lot.find? fun visit =>
    visit.station = .deploy && visit.leftForward && visit.leftMs.any inWindow

def filed (lot : List Visit) : Int :=
  ((lot.map Visit.enteredMs).min?).getD 0

def finishedLot (nowMs : Int) (inWindow : Int → Bool) (lot : List Visit) : Option (Int × Int) :=
  (deployed inWindow lot).map fun visit =>
    (seconds (visit.leftMs.getD nowMs - filed lot), (lot.filterMap Visit.processS).sum)

def line (visits : List Visit) (nowMs : Int) (inWindow : Int → Bool)
    (isCurrent : Visit → Bool) : Line :=
  let lots := (byLot visits).entries.map Prod.snd
  let finished := lots.filterMap (finishedLot nowMs inWindow)
  { cycleS := pair (finished.map Prod.fst)
    xFactor := ratios ((finished.filter fun lot => 0 < lot.2).map fun lot =>
      Float.ofInt lot.1 / Float.ofInt lot.2)
    wip := (lots.filter fun lot => !(openVisits isCurrent lot).isEmpty).length
    finished := finished.length }

/-! ## Listed lots -/

/-- What is left of a lot's way: the sum over the stations ahead with an estimate, those
without one, and the slowest. -/
structure Eta where
  known : Option Pair
  unknown : List String
  slowest : Option String
deriving DecidableEq, Repr

def Eta.none : Eta :=
  { known := .none, unknown := [], slowest := .none }

/-- One station ahead; `slowest` carries its p50. -/
def etaAt (at' : Station) (visit : Visit) (nowMs : Int)
    (answer : Option Pair × List String × Option (String × Int)) (station : StationReport) :
    Option Pair × List String × Option (String × Int) :=
  match station.totalS with
  | .none => (answer.1, answer.2.1 ++ [station.id], answer.2.2)
  | some total =>
    let spent := seconds (nowMs - visit.enteredMs)
    let ahead : Pair :=
      if station.id = at'.id then
        { p50 := max (total.p50 - spent) 0, p90 := max (total.p90 - spent) 0 }
      else
        total
    let sum := answer.1.getD { p50 := 0, p90 := 0 }
    (some { p50 := sum.p50 + ahead.p50, p90 := sum.p90 + ahead.p90 }, answer.2.1,
      if answer.2.2.all fun slowest => slowest.2 < total.p50 then
        some (station.id, total.p50)
      else
        answer.2.2)

def eta (at' : Station) (visit : Visit) (stations : List StationReport) (nowMs : Int) : Eta :=
  let answer := (stations.filter fun station => at'.order ≤ station.order).foldl
    (etaAt at' visit nowMs) (.none, [], .none)
  { known := answer.1, unknown := answer.2.1, slowest := answer.2.2.map Prod.fst }

def escapeByte (byte : UInt8) : List Char :=
  let char := Char.ofNat byte.toNat
  if byte < 128 && (char.isAlphanum || char ∈ ['-', '.', '_', '~']) then
    [char]
  else
    '%' :: [byte.toNat / 16, byte.toNat % 16].map fun digit => (Nat.digitChar digit).toUpper

def pathSegment (text : String) : String :=
  String.ofList (text.toUTF8.toList.flatMap escapeByte)

def prPage (repo : String) (number : Int) : String :=
  "/repos/jeryu/" ++ "/".intercalate ((Text.split repo (· = '/')).map pathSegment) ++
    "/pulls/" ++ toString number

def lotPrPage (lotId : String) : Option String := do
  let (repo, number) ← Text.rsplitOnce lotId '#'
  let (owner, name) ← Text.rsplitOnce repo '/'
  if owner.isEmpty || name.isEmpty then
    .none
  let number ← (Text.parseI64 number).filter fun number => 0 < number
  return prPage repo number

def lotHref (lotId : String) : String :=
  (lotPrPage lotId).getD ("/work/" ++ pathSegment lotId)

def replacementPage (visit : Visit) : Option String :=
  visit.hold.bind fun hold => if hold.reason = "superseded" then lotPrPage hold.by' else none

def boundPull (visit : Visit) : Option (String × Int) :=
  match visit.repo, visit.pr with
  | some repo, some pr => if 0 < pr then some (repo, pr) else none
  | _, _ => none

def fixes (hold : HoldRecord) (visits : List Visit) : List Visit :=
  visits.filter fun other =>
    other.station = .work && other.isOpen && !other.held && hold.sinceMs ≤ other.enteredMs

def holdReport (rfc3339 : Int → String) (visit : Visit) (visits : List Visit)
    (prHref : Option String) (nowMs : Int) : Option HoldReport :=
  if visit.held then
    visit.hold.map fun hold =>
      { reason := hold.reason
        by' := hold.by'
        since := rfc3339 hold.sinceMs
        ageS := seconds (nowMs - hold.sinceMs)
        nobodyActing := !(fixes hold visits).any fun other =>
          other.lotId = visit.lotId ||
            (boundPull visit).any fun pull =>
              other.repo = some pull.1 && other.pr = some pull.2
        reviewHref :=
          if hold.reason = "review_hold" then
            prHref.map fun href => href ++ "#changes-requested"
          else
            none }
  else
    none

def arrivesBefore (first second : Visit) : Bool :=
  first.enteredMs < second.enteredMs ||
    (first.enteredMs = second.enteredMs && first.lotId ≤ second.lotId)

def listed (visits : List Visit) (isCurrent : Visit → Bool) (page : LotsPage)
    (station : Station) : List Visit :=
  let opened := (openVisits isCurrent (visits.filter fun visit => visit.station = station))
    |>.insertionSort fun first second => arrivesBefore first second = true
  let ordered := if page.order = "newest" then opened.reverse else opened
  (ordered.drop page.offset).take page.limit

def lotReport (rfc3339 : Int → String) (visits : List Visit) (stations : List StationReport)
    (nowMs : Int) (station : Station) (visit : Visit) : LotReport :=
  let eta := if visit.held then Eta.none else eta station visit stations nowMs
  let own := ((boundPull visit).map fun pull => prPage pull.1 pull.2).or
    (lotPrPage visit.lotId)
  let prHref := (replacementPage visit).or own
  { lotId := visit.lotId
    station := station.id
    state :=
      if visit.held then "held" else if visit.startedMs.isSome then "active" else "waiting"
    since := rfc3339 visit.enteredMs
    etaS := eta.known
    etaPartial := !eta.unknown.isEmpty
    etaUnknownStations := eta.unknown
    slowestAhead := eta.slowest
    href := lotHref visit.lotId
    prHref := prHref
    hold := holdReport rfc3339 visit visits prHref nowMs }

def lotsAt (rfc3339 : Int → String) (visits : List Visit) (nowMs : Int)
    (isCurrent : Visit → Bool) (page : LotsPage)
    (answer : List StationReport × List LotReport) (station : Station) :
    List StationReport × List LotReport :=
  if page.station.any fun id => id ≠ station.id then
    answer
  else
    let listed := listed visits isCurrent page station
    let stations := answer.1.map fun report =>
      if report.id = station.id then { report with lotsListed := listed.length } else report
    (stations, answer.2 ++ listed.map (lotReport rfc3339 visits stations nowMs station))

def lots (rfc3339 : Int → String) (visits : List Visit) (stations : List StationReport)
    (nowMs : Int) (isCurrent : Visit → Bool) (page : LotsPage) :
    List StationReport × List LotReport :=
  Station.all.foldl (lotsAt rfc3339 visits nowMs isCurrent page) (stations, [])

def reportOf (request : Request) (visits : List Visit) (reached : List Station)
    (isCurrent : Visit → Bool) (station : Station) : StationReport :=
  let own := visits.filter fun visit => visit.station = station
  let ever := !own.isEmpty || station ∈ reached
  stationReport station own ever request.nowMs request.inWindow
    (Float.ofInt request.days * 24.0) isCurrent

/-- `build_reconciled`, given the superseded pull requests. -/
def buildPaged (rfc3339 : Int → String) (request : Request) (visits : List Visit)
    (reached : List Station) (isCurrent : Visit → Bool) (page : LotsPage) : FlowReport :=
  let stations := markBottleneck (Station.all.map (reportOf request visits reached isCurrent))
  let (stations, lots) := lots rfc3339 visits stations request.nowMs isCurrent page
  { schemaVersion := flowSchema
    generatedAt := rfc3339 request.nowMs
    family := request.family
    days := request.days
    since := rfc3339 (windowStart request.nowMs request.days)
    «until» := rfc3339 request.nowMs
    stations := stations
    line := line visits request.nowMs request.inWindow isCurrent
    lots := lots
    lotsTotal := (stations.map fun station => station.wip.total).sum
    lotsTruncated :=
      (stations.filter fun station => page.station.all fun id => id = station.id).any
        fun station => page.offset + station.lotsListed < station.wip.total
    lotsPage := page }

end Report

def LedgerRow.hold (row : LedgerRow) : Option Report.HoldRecord :=
  match row.holdReason, row.holdBy, row.holdSinceMs with
  | some reason, some holder, some sinceMs =>
    some { reason := reason, by' := holder, sinceMs := sinceMs }
  | _, _, _ => none

def LedgerRow.visit (row : LedgerRow) : Option Report.Visit :=
  (Station.parse row.station).map fun station =>
    { lotId := row.lotId
      station := station
      enteredMs := row.enteredMs
      startedMs := row.startedMs
      leftMs := row.leftMs
      direction := row.direction
      reworkTo := row.reworkTo.bind Station.parse
      repo := row.repo
      pr := row.pr
      hold := row.hold
      family := row.family }

def LedgerRow.inFamily (family : Option String) (row : LedgerRow) : Bool :=
  family.all fun wanted => row.family = some wanted

def liveLots (ledger : List LedgerRow) (family : Option String) (sinceMs : Int) : List String :=
  (ledger.filter fun row =>
    (row.leftMs.all fun left => sinceMs ≤ left) && row.inFamily family).map LedgerRow.lotId

def flowVisitsScoped (ledger : List LedgerRow) (family : Option String) (sinceMs : Int)
    (repo : Option String) : List Report.Visit :=
  (ledger.filter fun row =>
    row.inFamily family && (repo.all fun wanted => row.repo = some wanted) &&
      decide (row.lotId ∈ liveLots ledger family sinceMs)).filterMap LedgerRow.visit

def flowVisits (ledger : List LedgerRow) (family : Option String) (sinceMs : Int) :
    List Report.Visit :=
  flowVisitsScoped ledger family sinceMs none

def flowReached (ledger : List LedgerRow) (family : Option String) : List Station :=
  Station.all.filter fun station =>
    ledger.any fun row => row.station = station.id && row.inFamily family

def allVisits (ledger : List LedgerRow) (family : Option String) : List Report.Visit :=
  (ledger.filter fun row => row.inFamily family).filterMap LedgerRow.visit

end JeryuForge.Flow
