import JeryuForge.Library.Table
import JeryuForge.Text

/-!
# Pipeline events

The fields of a pipeline event that the projections read, and the JSON detail an
event carries.  A number is kept as it was written: no projection computes with one.
-/

namespace JeryuForge.Pipeline

open Table

inductive Json where
  | null
  | bool (value : Bool)
  | number (token : String)
  | string (value : String)
  | array (items : List Json)
  | object (members : List (String × Json))

namespace Json

def get (value : Json) (key : String) : Option Json :=
  match value with
  | .object members =>
    (members.find? fun member => decide (member.1 = key)).map Prod.snd
  | _ => none

def asStr : Json → Option String
  | .string value => some value
  | _ => none

def asBool : Json → Option Bool
  | .bool value => some value
  | _ => none

end Json

def member (detail : Option Json) (key : String) : Option Json :=
  detail.bind fun value => value.get key

/-- An event as a producer describes it, after normalisation.  A cost is a finite
floating-point number, so a rational. -/
structure NewEvent where
  eventId : Option String
  source : String
  kind : String
  actor : Option String
  family : Option String
  repo : Option String
  pr : Option Int
  sha : Option String
  todoId : Option String
  shift : Option String
  outcome : Option String
  needsHuman : Bool
  summary : String
  reason : Option String
  costUsd : Option Rat
  seconds : Option Int
  logTail : Option String
  logUrl : Option String
  detail : Option Json

/-- `NewEvent::forge`: a server-emitted event. -/
def NewEvent.forge (kind summary : String) : NewEvent :=
  { eventId := none
    source := "forge"
    kind := kind
    actor := none
    family := none
    repo := none
    pr := none
    sha := none
    todoId := none
    shift := none
    outcome := none
    needsHuman := false
    summary := summary
    reason := none
    costUsd := none
    seconds := none
    logTail := none
    logUrl := none
    detail := none }

structure EventView where
  seq : Int
  reporter : String
  actor : Option String
  eventId : Option String
  tsMs : Int
  kind : String
  outcome : Option String
  family : Option String
  repo : Option String
  pr : Option Int
  todoId : Option String
  shift : Option String
  sha : Option String
  summary : Option String
  detail : Option Json

def bareEvent (seq : Int) (kind : String) : EventView :=
  { seq := seq
    reporter := "forge"
    actor := none
    eventId := none
    tsMs := seq
    kind := kind
    outcome := none
    family := none
    repo := none
    pr := none
    todoId := none
    shift := none
    sha := none
    summary := none
    detail := none }

/-- `repo#pr`, the lot of a pull request that no todo carries. -/
def prLot (repo : String) (pr : Int) : String :=
  repo ++ "#" ++ toString pr

/-- A key under which a projection has folded an event in: one row of
`flow_ledger_events` or of `outcome_ledger_events`, which are never pruned. -/
structure ProjectedEvent where
  reporter : String
  eventId : String
  seq : Int
deriving DecidableEq, Repr

def ProjectedEvent.key (row : ProjectedEvent) : String × String :=
  (row.reporter, row.eventId)

/-- The keys with the event's own in it, and whether it was not there before.  An
event without an id cannot be recognised again. -/
def foldedOnce (events : List ProjectedEvent) (event : EventView) : List ProjectedEvent × Bool :=
  match event.eventId.filter fun id => !id.isEmpty with
  | none => (events, true)
  | some eventId =>
    let row : ProjectedEvent :=
      { reporter := event.reporter, eventId := eventId, seq := event.seq }
    (insertOrIgnore ProjectedEvent.key events row, !holdsKey ProjectedEvent.key events row)

def Knows (events : List ProjectedEvent) (reporter eventId : String) : Prop :=
  ∃ row ∈ events, row.key = (reporter, eventId)

theorem Knows.foldedOnce {events : List ProjectedEvent} {reporter eventId : String}
    (hknown : Knows events reporter eventId) (event : EventView) :
    Knows (foldedOnce events event).1 reporter eventId := by
  obtain ⟨row, hrow, hkey⟩ := hknown
  unfold Pipeline.foldedOnce
  split
  · exact ⟨row, hrow, hkey⟩
  · exact ⟨row, mem_insertOrIgnore_of_mem hrow, hkey⟩

section Named

variable {events : List ProjectedEvent} {event : EventView} {eventId : String}

theorem knows_foldedOnce (hid : event.eventId = some eventId) (hname : eventId ≠ "") :
    Knows (foldedOnce events event).1 event.reporter eventId := by
  have hfilter : (event.eventId.filter fun id => !id.isEmpty) = some eventId := by
    simp [hid, hname]
  unfold foldedOnce
  rw [hfilter]
  exact exists_key_insertOrIgnore ..

theorem foldedOnce_of_knows (hid : event.eventId = some eventId) (hname : eventId ≠ "")
    (hknown : Knows events event.reporter eventId) : foldedOnce events event = (events, false) := by
  have hfilter : (event.eventId.filter fun id => !id.isEmpty) = some eventId := by
    simp [hid, hname]
  obtain ⟨row, hrow, hkey⟩ := hknown
  unfold foldedOnce
  rw [hfilter]
  have hholds : holdsKey ProjectedEvent.key events
      { reporter := event.reporter, eventId := eventId, seq := event.seq } = true :=
    holdsKey_iff.mpr ⟨row, hrow, hkey⟩
  simp [insertOrIgnore, hholds]

end Named

end JeryuForge.Pipeline
