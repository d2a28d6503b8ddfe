import JeryuForge.Flow.Project
import JeryuForge.Library.Folding
import JeryuForge.Library.OrdMap

/-!
# The outcome projection

Pipeline events in, one `outcome_ledger` row per change out.  The fold reads the flow
ledger for the lots of a pull request.  It panics, and its transaction is rolled back,
when a recorded commit names a change that is not stored; `none` stands for that.
-/

/-! ## What an event says about other changes -/

namespace JeryuForge.Outcomes

open Pipeline Text

def text (value : Option Json) : Option String :=
  nonEmpty (value.bind Json.asStr)

/-- `json_list`. -/
def strings (detail : Option Json) (key : String) : List String :=
  let found :=
    match member detail key with
    | some (.string one) => [trim one]
    | some (.array many) => (many.filterMap Json.asStr).map trim
    | _ => []
  found.filter fun found => !found.isEmpty

theorem ne_empty_of_mem_strings {detail : Option Json} {key found : String}
    (hfound : found ∈ strings detail key) : found ≠ "" := by
  unfold strings at hfound
  have hkept := (List.mem_filter.mp hfound).2
  rintro rfl
  simp at hkept

def hexTokens (source : List Char) : List String :=
  let tokens := source.splitOnP fun char => !char.isAlphanum
  let ids := tokens.filter fun token =>
    7 ≤ token.length && token.length ≤ 40 && token.all isAsciiHexdigit &&
      token.any Char.isDigit
  ids.map fun token => toAsciiLowercase (String.ofList token)

/-- What stands after each occurrence of a word, occurrences taken from the left without
overlap and without regard to ASCII case; `skip` characters belong to the last one. -/
def restsAfter (word : List Char) : Nat → List Char → List (List Char)
  | _, [] => []
  | skip + 1, _ :: rest => restsAfter word skip rest
  | 0, char :: rest =>
    if word.isPrefixOf ((char :: rest).map Char.toLower) then
      (char :: rest).drop word.length :: restsAfter word (word.length - 1) rest
    else
      restsAfter word 0 rest

def firstWord (source : List Char) : List Char :=
  (source.dropWhile isWhitespace).takeWhile fun char => !isWhitespace char

/-- The commits that one text says it reverts: after a trailer, or anywhere when its
first line starts with the word. -/
def refsOfSource (source : String) : List String :=
  let chars := source.toList
  let trailers :=
    (restsAfter "this reverts commit ".toList 0 chars).flatMap fun rest =>
      hexTokens (firstWord rest)
  let firstLine :=
    (chars.takeWhile fun char => char ≠ '\n').dropWhile isWhitespace
  if "revert".toList.isPrefixOf (firstLine.map Char.toLower) then
    trailers ++ hexTokens chars
  else
    trailers

def commitSources : Json → List String
  | .string source => [source]
  | .object members =>
    ["subject", "message"].filterMap fun key => text ((Json.object members).get key)
  | _ => []

def revertSources (event : EventView) : List String :=
  let named :=
    ["subject", "title", "message", "body", "commit_message"].filterMap fun key =>
      text (member event.detail key)
  let commits :=
    match member event.detail "commits" with
    | some (.array commits) => commits.flatMap commitSources
    | _ => []
  event.summary.toList ++ named ++ commits

def revertedRefs (event : EventView) : List String :=
  (sort
    (strings event.detail "reverts" ++ (revertSources event).flatMap refsOfSource)).eraseDups

def merged (kind : String) : Bool :=
  kind ∈ ["pr.merged", "queue.landed", "todo.merged"]

def workKinds : List String :=
  ["feature", "fix", "rework", "ops"]

def opsLabels : List String :=
  ["pin", "red-main", "red_main", "replacement", "revert", "chore"]

def classify (detail : Option Json) : Option String :=
  let words :=
    (strings detail "kind" ++ strings detail "labels" ++ strings detail "work_kind").map
      toAsciiLowercase
  (workKinds.find? fun kind => kind ∈ words).or
    (if words.any fun word => word ∈ opsLabels then some "ops" else none)

open Table

structure Leg where
  repo : String
  pr : Option Int
  sha : Option String
  mergedMs : Option Int
  releasedMs : Option Int
  deployedMs : Option Int
  release : Option String
deriving DecidableEq, Repr

/-- One row of `outcome_ledger`, without its key. -/
structure Row where
  family : Option String
  todoId : Option String
  workKind : Option String
  firstSeenMs : Int
  filedMs : Option Int
  doneMs : Option Int
  agent : Option String
  model : Option String
  experiment : Option String
  revertedMs : Option Int
  revertedBy : Option String
  rolledBackMs : Option Int
  reworks : List String
  reworkedBy : List String
  incidents : List String
deriving DecidableEq, Repr

structure Change extends Row where
  lotId : String
  legs : List Leg
deriving DecidableEq, Repr

/-- One row of `outcome_ledger_repos`. -/
structure LegRow extends Leg where
  lotId : String
deriving DecidableEq, Repr

def LegRow.key (row : LegRow) : String × String :=
  (row.lotId, row.repo)

/-- One row of `outcome_ledger_shas`. -/
structure ShaRow where
  sha : String
  repo : Option String
  lotId : String
deriving DecidableEq, Repr

structure Tables where
  ledger : OrdMap String Row
  legs : List LegRow
  shas : List ShaRow
  events : List ProjectedEvent

def Tables.empty : Tables :=
  { ledger := ∅, legs := [], shas := [], events := [] }

/-! ## Rows -/

def newChange (lotId : String) (firstSeenMs : Int) : Change :=
  { lotId := lotId
    family := none
    todoId := none
    workKind := none
    firstSeenMs := firstSeenMs
    filedMs := none
    doneMs := none
    agent := none
    model := none
    experiment := none
    revertedMs := none
    revertedBy := none
    rolledBackMs := none
    reworks := []
    reworkedBy := []
    incidents := []
    legs := [] }

def minInto (slot : Option Int) (value : Int) : Option Int :=
  some ((slot.map fun old => min old value).getD value)

/-- `min_into` of a value that may be missing. -/
def minWith (slot value : Option Int) : Option Int :=
  (value.map (minInto slot)).getD slot

def unionInto (set : List String) (value : String) : List String :=
  if value.isEmpty || value ∈ set then set else sort (set ++ [value])

def sortLegs (legs : List Leg) : List Leg :=
  legs.insertionSort fun first second => first.repo ≤ second.repo

def legsOf (tables : Tables) (lotId : String) : List Leg :=
  sortLegs ((tables.legs.filter fun row => row.lotId = lotId).map LegRow.toLeg)

def load (tables : Tables) (lotId : String) : Option Change :=
  (tables.ledger.get? lotId).map fun row =>
    { row with lotId := lotId, legs := legsOf tables lotId }

def loadOrNew (tables : Tables) (new : Change) : Change :=
  (load tables new.lotId).getD new

def saveLegs (legs : List LegRow) (change : Change) : List LegRow :=
  let saved := change.legs.foldl
    (fun rows leg => upsert LegRow.key rows { leg with lotId := change.lotId }) legs
  if change.legs.all fun leg => !leg.repo.isEmpty then
    deleteWhere saved fun row => row.lotId = change.lotId && row.repo.isEmpty
  else
    saved

/-- `save`, without the line-survival columns. -/
def save (tables : Tables) (change : Change) : Tables :=
  { tables with
    ledger := tables.ledger.insert change.lotId change.toRow
    legs := saveLegs tables.legs change }

def legName (change : Change) (repo : Option String) : String :=
  match repo.filter fun repo => !repo.isEmpty with
  | some repo => repo
  | none =>
    match change.legs with
    | [leg] => leg.repo
    | _ => ""

def updateLeg (legs : List Leg) (repo : String) (change : Leg → Leg) : List Leg :=
  match legs with
  | [] => []
  | leg :: rest =>
    if leg.repo = repo then change leg :: rest else leg :: updateLeg rest repo change

def Leg.blank (repo : String) : Leg :=
  { repo := repo, pr := none, sha := none, mergedMs := none, releasedMs := none
    deployedMs := none, release := none }

/-- The legs with one of that name: a repository arriving later claims the unnamed leg. -/
def ensureLeg (legs : List Leg) (name : String) : List Leg :=
  let claimed :=
    if !name.isEmpty && !legs.any fun leg => leg.repo = name then
      updateLeg legs "" fun leg => { leg with repo := name }
    else
      legs
  if claimed.any fun leg => leg.repo = name then
    claimed
  else
    sortLegs (claimed ++ [.blank name])

def mergeLeg (change : Change) (event : EventView) : Change :=
  let name := legName change event.repo
  { change with
    legs := updateLeg (ensureLeg change.legs name) name fun leg =>
      { leg with
        mergedMs := minInto leg.mergedMs event.tsMs
        pr := leg.pr.or event.pr
        sha := leg.sha.or (event.sha.filter fun sha => !sha.isEmpty) } }

def recordSha (tables : Tables) (change : Change) (event : EventView) : Tables :=
  let shas :=
    strings event.detail "shas" ++ strings event.detail "commits" ++ event.sha.toList
  let recorded := shas.filter fun sha =>
    7 ≤ sha.utf8ByteSize && sha.toList.all isAsciiHexdigit
  { tables with
    shas := recorded.foldl
      (fun rows sha => insertOrIgnore ShaRow.sha rows
        { sha := toAsciiLowercase sha, repo := event.repo, lotId := change.lotId })
      tables.shas }

def lotsOfSha (tables : Tables) (token : String) : List String :=
  (tables.shas.filter fun row => like row.sha (token ++ "%")).map ShaRow.lotId

def revertHits (tables : Tables) (change : Change) (token : String) : List String :=
  let named := (lotsOfSha tables token).eraseDups
  let hits := if named.isEmpty && (load tables token).isSome then [token] else named
  hits.filter fun lot => lot ≠ change.lotId

def revertOne (event : EventView) (state : Tables × Change) (token : String) :
    Option (Tables × Change) :=
  let (tables, change) := state
  match revertHits tables change token with
  | [lot] =>
    -- `expect("sha names a stored change")`
    (load tables lot).map fun original =>
      (save tables
        { original with
          revertedMs := minInto original.revertedMs event.tsMs
          revertedBy := original.revertedBy.or (some change.lotId) },
        { change with workKind := change.workKind.or (some "ops") })
  | _ => some (tables, change)

def revert (tables : Tables) (change : Change) (event : EventView) : Option (Tables × Change) :=
  (revertedRefs event).foldlM (revertOne event) (tables, change)

inductive Ship where
  | released
  | deployed
deriving DecidableEq, Repr

def Ship.column : Ship → Leg → Option Int
  | .released => Leg.releasedMs
  | .deployed => Leg.deployedMs

def Ship.stamp (how : Ship) (leg : Leg) (ms : Int) (release : Option String) : Leg :=
  match how with
  | .released => { leg with releasedMs := some ms, release := leg.release.or release }
  | .deployed => { leg with deployedMs := some ms, release := leg.release.or release }

/-- A release or deploy carries every merged change of its repositories that was on the
base branch when it happened. -/
def ship (tables : Tables) (event : EventView) (how : Ship) : Tables :=
  let repos := event.repo.toList ++ strings event.detail "carries"
  let release :=
    ((text (member event.detail "release")).or (text (member event.detail "tag"))).or
      event.sha
  let ofFamily (lotId : String) : Bool :=
    event.family.isNone ||
      (tables.ledger.get? lotId).any fun row => row.family = event.family
  { tables with
    legs := repos.foldl
      (fun rows repo => updateWhere rows
        (fun row => row.repo = repo && row.mergedMs.any (· ≤ event.tsMs) &&
          (how.column row.toLeg).isNone && ofFamily row.lotId)
        (fun row => { how.stamp row.toLeg event.tsMs release with lotId := row.lotId }))
      tables.legs }

def newestRelease (tables : Tables) (repo : String) (now : Int) : Option String :=
  let deployed := tables.legs.filter fun row =>
    row.repo = repo && row.deployedMs.any (· ≤ now)
  (orderedBy deployed (fun row => -(row.deployedMs.getD 0)) 1).head?.bind
    fun row => row.release

def rollback (tables : Tables) (event : EventView) : Tables :=
  match event.repo with
  | none => tables
  | some repo =>
    let target :=
      ((text (member event.detail "rolled_back")).or
        (text (member event.detail "release"))).or
        (newestRelease tables repo event.tsMs)
    match target with
    | none => tables
    | some target =>
      let undone (lotId : String) : Bool := tables.legs.any fun row =>
        row.lotId = lotId && row.repo = repo && row.release = some target &&
          row.deployedMs.isSome
      { tables with
        ledger := tables.ledger.mapValues fun lotId row =>
          if undone lotId then
            { row with rolledBackMs := minInto row.rolledBackMs event.tsMs }
          else
            row }

def deployStatus (tables : Tables) (event : EventView) : Tables :=
  let rolledBack :=
    event.outcome ∈ [some "rollback", some "rolled_back", some "rollback_success"] ∨
      (member event.detail "rollback").bind Json.asBool = some true
  if rolledBack then
    rollback tables event
  else if event.outcome = some "success" then
    ship tables event .deployed
  else
    tables

def isPullLot (lotId : String) : Bool :=
  '#' ∈ lotId.toList

def incidentId (event : EventView) : Option String :=
  ["incident_id", "incident", "id"].findSome? fun key => text (member event.detail key)

def incidentLots (flow : Flow.Tables) (tables : Tables) (event : EventView) : List String :=
  let shas :=
    strings event.detail "shas" ++ strings event.detail "sha" ++
      strings event.detail "cause_sha" ++ event.sha.toList
  let named := shas.filterMap fun sha =>
    (lotsOfSha tables (toAsciiLowercase sha)).head?
  let pulls :=
    match event.repo, event.pr with
    | some repo, some pr => Flow.lotsOfPr flow repo pr
    | _, _ => []
  (sort
    (event.todoId.toList ++ strings event.detail "todo_ids" ++ named ++ pulls)).eraseDups

def noteIncident (event : EventView) (id : String) (tables : Tables) (lot : String) : Tables :=
  let change := loadOrNew tables
    { newChange lot event.tsMs with
      todoId := if isPullLot lot then none else some lot
      family := event.family }
  save tables { change with incidents := unionInto change.incidents id }

def incident (flow : Flow.Tables) (tables : Tables) (event : EventView) : Tables :=
  match incidentId event with
  | none => tables
  | some id => (incidentLots flow tables event).foldl (noteIncident event id) tables

/-- The same repository's leg of an adopted change fills in what this one lacks. -/
def Leg.adopt (held leg : Leg) : Leg :=
  { held with
    pr := held.pr.or leg.pr
    sha := held.sha.or leg.sha
    release := held.release.or leg.release
    mergedMs := minWith held.mergedMs leg.mergedMs
    releasedMs := minWith held.releasedMs leg.releasedMs
    deployedMs := minWith held.deployedMs leg.deployedMs }

def adoptLeg (legs : List Leg) (leg : Leg) : List Leg :=
  if legs.any fun held => held.repo = leg.repo then
    updateLeg legs leg.repo fun held => held.adopt leg
  else
    legs ++ [leg]

def adoptInto (todo : String) (into adopted : Change) : Change :=
  { into with
    todoId := some todo
    family := into.family.or adopted.family
    workKind := into.workKind.or adopted.workKind
    firstSeenMs := min into.firstSeenMs adopted.firstSeenMs
    filedMs := minWith into.filedMs adopted.filedMs
    doneMs := minWith into.doneMs adopted.doneMs
    revertedMs := minWith into.revertedMs adopted.revertedMs
    rolledBackMs := minWith into.rolledBackMs adopted.rolledBackMs
    revertedBy := into.revertedBy.or adopted.revertedBy
    agent := into.agent.or adopted.agent
    model := into.model.or adopted.model
    experiment := into.experiment.or adopted.experiment
    reworks := adopted.reworks.foldl unionInto into.reworks
    reworkedBy := adopted.reworkedBy.foldl unionInto into.reworkedBy
    incidents := adopted.incidents.foldl unionInto into.incidents
    legs := sortLegs (adopted.legs.foldl adoptLeg into.legs) }

def dropLot (tables : Tables) (todo pullLot : String) : Tables :=
  { tables with
    legs := deleteWhere tables.legs fun row => row.lotId = pullLot
    ledger := (tables.ledger.erase pullLot).mapValues fun _ row =>
      if row.revertedBy = some pullLot then { row with revertedBy := some todo } else row
    shas := updateWhere tables.shas
      (fun row => row.lotId = pullLot) (fun row => { row with lotId := todo }) }

def adopt (tables : Tables) (todo pullLot : String) : Tables :=
  if todo = pullLot then
    tables
  else
    match load tables pullLot with
    | none => tables
    | some adopted =>
      let into := loadOrNew tables (newChange todo adopted.firstSeenMs)
      save (dropLot tables todo pullLot) (adoptInto todo into adopted)

def pullLots (flow : Flow.Tables) (tables : Tables) (repo : String) (pr : Int) : List String :=
  let lots := Flow.lotsOfPr flow repo pr
  let lots :=
    if lots.isEmpty then
      (tables.legs.filter fun row => row.repo = repo && row.pr = some pr).map LegRow.lotId
    else
      lots
  if lots.isEmpty then [prLot repo pr] else lots

def lotsFor (flow : Flow.Tables) (tables : Tables) (event : EventView) : Tables × List String :=
  match nonEmpty event.todoId, event.repo, event.pr with
  | some todo, some repo, some pr => (adopt tables todo (prLot repo pr), [todo])
  | some todo, _, _ => (tables, [todo])
  | none, some repo, some pr => (tables, pullLots flow tables repo pr)
  | none, _, _ => (tables, [])

def reworksOf (event : EventView) (id : String) : List String :=
  (strings event.detail "reworks").filter fun original => original ≠ id

def foldKind (event : EventView) (change : Change) : Change :=
  if event.kind = "todo.filed" then
    { change with filedMs := minInto change.filedMs event.tsMs }
  else if event.kind = "todo.attempt_finished" ∧ event.outcome = some "done" then
    { change with
      doneMs := minInto change.doneMs event.tsMs
      agent := text (member event.detail "agent")
      model := text (member event.detail "model")
      experiment := text (member event.detail "experiment") }
  else if event.kind = "pin.bump_opened" then
    { change with workKind := change.workKind.or (some "ops") }
  else if merged event.kind then
    mergeLeg change event
  else
    change

def foldFacts (event : EventView) (change : Change) : Change :=
  { change with
    family := change.family.or event.family
    todoId :=
      if !isPullLot change.lotId || event.todoId = some change.lotId then
        (if isPullLot change.lotId then none else some change.lotId)
      else
        change.todoId
    firstSeenMs := min change.firstSeenMs event.tsMs
    workKind := change.workKind.or (classify event.detail) }

/-- The near ends of an event's rework links.  A link to what it reworks makes the
change rework, whatever else it was labelled. -/
def linkReworks (event : EventView) (change : Change) : Change :=
  let reworks := (reworksOf event change.lotId).foldl unionInto change.reworks
  { change with
    reworks := reworks
    workKind := if reworks.isEmpty then change.workKind else some "rework" }

def foldChange (event : EventView) (change : Change) : Change :=
  linkReworks event (foldKind event (foldFacts event change))

def linkBack (event : EventView) (id : String) (tables : Tables) (original : String) : Tables :=
  let base := loadOrNew tables
    { newChange original event.tsMs with
      todoId := some original
      family := event.family }
  save tables { base with reworkedBy := unionInto base.reworkedBy id }

def foldLanding (event : EventView) (tables : Tables) (change : Change) : Option Tables :=
  if merged event.kind then
    (revert (recordSha tables change event) change event).map fun state =>
      save state.1 state.2
  else
    some tables

def foldLot (event : EventView) (tables : Tables) (id : String) : Option Tables :=
  let change := foldChange event (loadOrNew tables (newChange id event.tsMs))
  (foldLanding event (save tables change) change).map fun tables =>
    (reworksOf event id).foldl (linkBack event id) tables

def relevant (event : EventView) : Bool :=
  event.kind ∈ ["todo.filed", "todo.attempt_finished"] || merged event.kind ||
    event.kind = "release.staged" || event.kind = "deploy.status" ||
    event.kind = "pin.bump_opened" || startsWith event.kind "incident." ||
    (event.todoId.isSome && !(strings event.detail "reworks").isEmpty)

def fold (flow : Flow.Tables) (tables : Tables) (event : EventView) : Option Tables :=
  if event.kind = "release.staged" then
    some (ship tables event .released)
  else if event.kind = "deploy.status" then
    some (deployStatus tables event)
  else if startsWith event.kind "incident." then
    some (incident flow tables event)
  else
    let (tables, lots) := lotsFor flow tables event
    lots.foldlM (foldLot event) tables

def apply (flow : Flow.Tables) (tables : Tables) (event : EventView) : Option Tables :=
  if relevant event then
    let keyed := { tables with events := (foldedOnce tables.events event).1 }
    if (foldedOnce tables.events event).2 then fold flow keyed event else some keyed
  else
    some tables

open Option

theorem rollback_events (tables : Tables) (event : EventView) :
    (rollback tables event).events = tables.events := by
  unfold rollback
  split
  · rfl
  · dsimp only
    split <;> rfl

theorem deployStatus_events (tables : Tables) (event : EventView) :
    (deployStatus tables event).events = tables.events := by
  unfold deployStatus
  dsimp only
  split
  · exact rollback_events tables event
  · split <;> rfl

theorem incident_events (flow : Flow.Tables) (tables : Tables) (event : EventView) :
    (incident flow tables event).events = tables.events := by
  unfold incident
  split
  · rfl
  · exact List.foldl_frame Tables.events (noteIncident event _) (fun _ _ => rfl) _ tables

theorem adopt_events (tables : Tables) (todo pullLot : String) :
    (adopt tables todo pullLot).events = tables.events := by
  unfold adopt
  split
  · rfl
  · split <;> rfl

theorem lotsFor_events (flow : Flow.Tables) (tables : Tables) (event : EventView) :
    (lotsFor flow tables event).1.events = tables.events := by
  unfold lotsFor
  split
  · exact adopt_events ..
  · rfl
  · rfl
  · rfl

variable {event : EventView} {next tables : Tables} {flow : Flow.Tables}

theorem revertOne_events {token : String} {state next : Tables × Change}
    (hnext : revertOne event state token = some next) : next.1.events = state.1.events := by
  unfold revertOne at hnext
  dsimp only at hnext
  split at hnext
  · obtain ⟨original, _, rfl⟩ := map_eq_some_iff.mp hnext
    rfl
  · cases hnext
    rfl

theorem revertAll_events {tokens : List String} {state next : Tables × Change}
    (hnext : tokens.foldlM (revertOne event) state = some next) :
    next.1.events = state.1.events := by
  induction tokens generalizing state with
  | nil =>
    cases hnext
    rfl
  | cons token tokens ih =>
    rw [List.foldlM_cons] at hnext
    obtain ⟨middle, hmiddle, hrest⟩ := bind_eq_some_iff.mp hnext
    exact (ih hrest).trans (revertOne_events hmiddle)

theorem foldLanding_events {change : Change} (hnext : foldLanding event tables change = some next) :
    next.events = tables.events := by
  unfold foldLanding at hnext
  split at hnext
  · obtain ⟨state, hstate, rfl⟩ := map_eq_some_iff.mp hnext
    exact revertAll_events hstate
  · cases hnext
    rfl

theorem foldLots_events {lots : List String}
    (hnext : lots.foldlM (foldLot event) tables = some next) : next.events = tables.events := by
  induction lots generalizing tables with
  | nil =>
    cases hnext
    rfl
  | cons id lots ih =>
    rw [List.foldlM_cons] at hnext
    obtain ⟨middle, hmiddle, hrest⟩ := bind_eq_some_iff.mp hnext
    obtain ⟨landed, hlanded, rfl⟩ := map_eq_some_iff.mp hmiddle
    have hsaved := foldLanding_events hlanded
    exact (ih hrest).trans
      ((List.foldl_frame Tables.events (linkBack event id) (fun _ _ => rfl) _ landed).trans hsaved)

theorem fold_events (hnext : fold flow tables event = some next) : next.events = tables.events := by
  unfold fold at hnext
  split at hnext
  · cases hnext
    rfl
  · split at hnext
    · cases hnext
      exact deployStatus_events tables event
    · split at hnext
      · cases hnext
        exact incident_events flow tables event
      · exact (foldLots_events hnext).trans (lotsFor_events flow tables event)

theorem apply_events (hnext : apply flow tables event = some next) :
    next.events =
      if relevant event then (foldedOnce tables.events event).1 else tables.events := by
  unfold apply at hnext
  split at hnext
  next hrelevant =>
    rw [if_pos hrelevant]
    dsimp only at hnext
    split at hnext
    · exact fold_events hnext
    · cases hnext
      rfl
  next hrelevant =>
    rw [if_neg hrelevant]
    cases hnext
    rfl

theorem knows_apply {reporter eventId : String} (hnext : apply flow tables event = some next)
    (hknown : Knows tables.events reporter eventId) : Knows next.events reporter eventId := by
  rw [apply_events hnext]
  split
  · exact hknown.foldedOnce event
  · exact hknown

theorem apply_again (flow : Flow.Tables) {tables : Tables} (event : EventView)
    {eventId : String} (hid : event.eventId = some eventId) (hname : eventId ≠ "")
    (hknown : relevant event → Knows tables.events event.reporter eventId) :
    apply flow tables event = some tables := by
  unfold apply
  split
  next hrelevant =>
    rw [foldedOnce_of_knows hid hname (hknown hrelevant)]
    rfl
  · rfl

end JeryuForge.Outcomes
