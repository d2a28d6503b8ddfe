import JeryuForge.Library.Fallible
import JeryuForge.Library.OrdMap
import JeryuForge.Pipeline.Event

/-!
# The incident ledger

`incident.*` events folded into one row per incident and one row per change it is
blamed on.  A fold that cannot be made fails, with the text the caller answers.
-/

namespace JeryuForge.Incidents

open Pipeline Except

def opened : String := "incident.opened"
def restored : String := "incident.restored"
def causedBy : String := "incident.caused_by"
def closed : String := "incident.closed"

def maxChanges : Nat := 50

def isIncidentKind (kind : String) : Bool :=
  kind = opened || kind = restored || kind = causedBy || kind = closed

/-- One row of `incident_ledger`, without its key. -/
structure Row where
  family : Option String
  service : Option String
  severity : Option String
  summary : Option String
  detectedMs : Option Int
  restoredMs : Option Int
  restoringChange : Option String
  closedMs : Option Int
  reporter : String
  firstSeq : Int
  lastSeq : Int
deriving DecidableEq, Repr

/-- One row of `incident_causes`. -/
structure CauseRow where
  incidentId : String
  changeKey : String
  reportedMs : Int
deriving DecidableEq, Repr

def CauseRow.key (row : CauseRow) : String × String :=
  (row.incidentId, row.changeKey)

structure Tables where
  ledger : OrdMap String Row
  causes : List CauseRow

def Tables.empty : Tables :=
  { ledger := ∅, causes := [] }

def text (detail : Json) (key : String) : Option String :=
  Text.nonEmpty ((detail.get key).bind Json.asStr)

/-- A time of the detail; `parseTime` is the parser of RFC 3339 times, in milliseconds. -/
def timeMs (parseTime : String → Option Int) (detail : Json) (key : String) :
    Except String (Option Int) :=
  match text detail key with
  | none => .ok none
  | some raw =>
    match parseTime raw with
    | some ms => .ok (some ms)
    | none =>
      .error ("detail." ++ key ++
        ": expected an RFC 3339 time such as 2026-10-01T12:00:00Z")

def changeItems : List Json → Except String (List String)
  | [] => .ok []
  | item :: rest =>
    match Text.nonEmpty item.asStr with
    | some key => (changeItems rest).map (key :: ·)
    | none => .error "detail.changes: expected change lot keys (strings)"

def changes (detail : Json) : Except String (List String) := do
  let one := (text detail "change").toList
  let many ←
    match detail.get "changes" with
    | none | some .null => ok []
    | some (.array items) => changeItems items
    | some _ => error "detail.changes: must be an array of change lot keys"
  let keys := one ++ many
  if keys.length > maxChanges then
    error ("detail.changes: at most " ++ toString maxChanges ++ " per event")
  else if keys.any fun key => key.length > 200 || key.toList.any Text.isControl then
    error "detail.changes: keys are at most 200 characters, no control characters"
  else
    ok ((Text.sort keys).destutter (· ≠ ·))

def incidentId (detail : Json) : Except String String :=
  match text detail "incident_id" with
  | none => .error "detail.incident_id: required on incident events"
  | some id =>
    if id.utf8ByteSize > 64 ||
        !id.toList.all fun char => char.isAlphanum || char ∈ ['.', '_', ':', '-'] then
      .error "detail.incident_id: at most 64 characters of [A-Za-z0-9._:-]"
    else
      .ok id

def touch (tables : Tables) (reporter : String) (family : Option String) (seq : Int)
    (id : String) : Row :=
  match tables.ledger.get? id with
  | some row => { row with lastSeq := seq, family := row.family.or family }
  | none =>
    { family := family
      service := none
      severity := none
      summary := none
      detectedMs := none
      restoredMs := none
      restoringChange := none
      closedMs := none
      reporter := reporter
      firstSeq := seq
      lastSeq := seq }

def foldRow (parseTime : String → Option Int) (event : NewEvent) (detail : Json)
    (tsMs : Int) (row : Row) : Except String Row :=
  if event.kind = opened then
    (timeMs parseTime detail "detected_at").map fun detected =>
      { row with
        detectedMs := some (detected.getD tsMs)
        service := (text detail "service").or row.service
        severity := (text detail "severity").or row.severity
        summary := some event.summary }
  else if event.kind = restored then
    (timeMs parseTime detail "restored_at").map fun restored =>
      { row with
        restoredMs := some (restored.getD tsMs)
        restoringChange := (text detail "restoring_change").or row.restoringChange
        summary := row.summary.or (some event.summary) }
  else if event.kind = causedBy then
    .ok row
  else
    (timeMs parseTime detail "closed_at").map fun closed =>
      { row with closedMs := some (closed.getD tsMs) }

def foldCauses (event : NewEvent) (detail : Json) (tsMs : Int) (id : String)
    (causes : List CauseRow) : Except String (List CauseRow) :=
  if event.kind = causedBy then
    (changes detail).map fun keys =>
      keys.foldl
        (fun rows key => Table.insertOrIgnore CauseRow.key rows
          { incidentId := id, changeKey := key, reportedMs := tsMs })
        causes
  else
    .ok causes

def apply (parseTime : String → Option Int) (tables : Tables) (reporter : String)
    (event : NewEvent) (tsMs seq : Int) : Except String Tables :=
  if isIncidentKind event.kind then do
    let detail := event.detail.getD (.object [])
    let id ← incidentId detail
    let row ← foldRow parseTime event detail tsMs (touch tables reporter event.family seq id)
    let causes ← foldCauses event detail tsMs id tables.causes
    return { ledger := tables.ledger.insert id row, causes := causes }
  else
    .ok tables

section Folds

variable {parseTime : String → Option Int} {tables next : Tables} {reporter : String}
variable {event : NewEvent} {tsMs seq : Int}

theorem apply_of_not_incident (hkind : isIncidentKind event.kind = false) :
    apply parseTime tables reporter event tsMs seq = .ok tables := by
  unfold apply
  rw [hkind]
  rfl

variable {detail : Json} {row folded : Row}

theorem foldRow_lastSeq (hfolded : foldRow parseTime event detail tsMs row = .ok folded) :
    folded.lastSeq = row.lastSeq := by
  unfold foldRow at hfolded
  split at hfolded
  · obtain ⟨_, _, rfl⟩ := map_eq_ok hfolded
    rfl
  · split at hfolded
    · obtain ⟨_, _, rfl⟩ := map_eq_ok hfolded
      rfl
    · split at hfolded
      · cases hfolded
        rfl
      · obtain ⟨_, _, rfl⟩ := map_eq_ok hfolded
        rfl

theorem apply_writes (hkind : isIncidentKind event.kind = true)
    (hnext : apply parseTime tables reporter event tsMs seq = .ok next) :
    ∃ id row, next.ledger = tables.ledger.insert id row ∧ row.lastSeq = seq := by
  unfold apply at hnext
  rw [hkind] at hnext
  obtain ⟨id, _, hid⟩ := bind_eq_ok hnext
  obtain ⟨row, hrow, hrest⟩ := bind_eq_ok hid
  obtain ⟨causes, _, hdone⟩ := bind_eq_ok hrest
  cases hdone
  refine ⟨id, row, rfl, (foldRow_lastSeq hrow).trans ?_⟩
  unfold touch
  split <;> rfl

theorem exists_get?_apply (hnext : apply parseTime tables reporter event tsMs seq = .ok next)
    (hfilled : isIncidentKind event.kind = true ∨ ∃ id row, tables.ledger.get? id = some row) :
    ∃ id row, next.ledger.get? id = some row := by
  cases hkind : isIncidentKind event.kind with
  | true =>
    obtain ⟨id, row, hledger, _⟩ := apply_writes hkind hnext
    exact ⟨id, row, hledger ▸ OrdMap.get?_insert_self ..⟩
  | false =>
    rw [apply_of_not_incident hkind] at hnext
    cases hnext
    exact hfilled.resolve_left (by simp [hkind])

theorem foldRow_again
    (hfolded : foldRow parseTime event detail tsMs row = .ok folded) (other : Row) (otherMs : Int) :
    ∃ again, foldRow parseTime event detail otherMs other = .ok again := by
  unfold foldRow at hfolded ⊢
  split at hfolded
  · obtain ⟨_, htime, _⟩ := map_eq_ok hfolded
    rw [if_pos ‹_›, htime]
    exact ⟨_, rfl⟩
  · rw [if_neg ‹_›]
    split at hfolded
    · obtain ⟨_, htime, _⟩ := map_eq_ok hfolded
      rw [if_pos ‹_›, htime]
      exact ⟨_, rfl⟩
    · rw [if_neg ‹_›]
      split at hfolded
      · rw [if_pos ‹_›]
        exact ⟨_, rfl⟩
      · rw [if_neg ‹_›]
        obtain ⟨_, htime, _⟩ := map_eq_ok hfolded
        rw [htime]
        exact ⟨_, rfl⟩

theorem foldCauses_again {id : String} {causes folded : List CauseRow}
    (hfolded : foldCauses event detail tsMs id causes = .ok folded) (other : List CauseRow)
    (otherMs : Int) : ∃ again, foldCauses event detail otherMs id other = .ok again := by
  unfold foldCauses at hfolded ⊢
  split at hfolded
  · obtain ⟨_, hkeys, _⟩ := map_eq_ok hfolded
    rw [if_pos ‹_›, hkeys]
    exact ⟨_, rfl⟩
  · rw [if_neg ‹_›]
    exact ⟨_, rfl⟩

theorem apply_succeeds_again (hnext : apply parseTime tables reporter event tsMs seq = .ok next)
    (other : Tables) (otherMs otherSeq : Int) :
    ∃ again, apply parseTime other reporter event otherMs otherSeq = .ok again := by
  unfold apply at hnext ⊢
  split at hnext
  · rw [if_pos ‹_›]
    obtain ⟨id, hid, hfound⟩ := bind_eq_ok hnext
    obtain ⟨row, hrow, hrest⟩ := bind_eq_ok hfound
    obtain ⟨causes, hcauses, _⟩ := bind_eq_ok hrest
    obtain ⟨newRow, hnewRow⟩ := foldRow_again hrow
      (touch other reporter event.family otherSeq id) otherMs
    obtain ⟨newCauses, hnewCauses⟩ := foldCauses_again hcauses other.causes otherMs
    refine ⟨{ ledger := other.ledger.insert id newRow, causes := newCauses }, ?_⟩
    dsimp only
    rw [hid]
    change (foldRow _ _ _ _ _ >>= _) = _
    rw [hnewRow]
    rw [hnewCauses]
    rfl
  · rw [if_neg ‹_›]
    exact ⟨other, rfl⟩

end Folds

def Bounded (tables : Tables) (seq : Int) : Prop :=
  ∀ id row, tables.ledger.get? id = some row → row.lastSeq ≤ seq

theorem Bounded.mono {tables : Tables} {seq later : Int}
    (hbounded : Bounded tables seq) (hle : seq ≤ later) : Bounded tables later :=
  fun id row hrow => (hbounded id row hrow).trans hle

section Bounds

variable {parseTime : String → Option Int} {tables next : Tables} {reporter : String}
variable {event : NewEvent} {tsMs seq : Int}

theorem Bounded.apply_le {newest : Int} (hbounded : Bounded tables newest) (hle : seq ≤ newest)
    (hnext : apply parseTime tables reporter event tsMs seq = .ok next) : Bounded next newest := by
  cases hkind : isIncidentKind event.kind with
  | false =>
    rw [apply_of_not_incident hkind] at hnext
    cases hnext
    exact hbounded
  | true =>
    obtain ⟨id, row, hledger, hseq⟩ := apply_writes hkind hnext
    intro other found hfound
    rw [hledger] at hfound
    by_cases hsame : other = id
    · rw [hsame, OrdMap.get?_insert_self] at hfound
      cases hfound
      exact hseq.trans_le hle
    · rw [OrdMap.get?_insert_of_ne _ _ hsame] at hfound
      exact hbounded other found hfound

theorem Bounded.apply_ne {old : Int} (hbounded : Bounded tables old) (hlt : old < seq)
    (hkind : isIncidentKind event.kind = true)
    (hnext : Incidents.apply parseTime tables reporter event tsMs seq = .ok next) :
    next.ledger ≠ tables.ledger := by
  obtain ⟨id, row, hledger, hseq⟩ := apply_writes hkind hnext
  intro hsame
  have hrow : tables.ledger.get? id = some row := by
    rw [← hsame, hledger]
    exact OrdMap.get?_insert_self ..
  have hle := hbounded id row hrow
  omega

end Bounds

end JeryuForge.Incidents
