import JeryuForge.Flow.Project
import JeryuForge.Library.Machine

/-!
# What an event writes into the ledger

The ledger is only ever written in two ways.  Joining lots renames visits.  The steps of a lot
write into the open visits of that lot, and open a visit where the lot had none open.
-/

namespace JeryuForge.Flow

open Pipeline Table

def Visit.place (visit : Visit) : String × Station :=
  (visit.lotId, visit.station)

def Step.starts : Step → Station → Bool
  | .start station, other => station = other
  | _, _ => false

def Step.closes : Step → Station → Bool
  | .leave station, other | .rework station _, other => station = other
  | _, _ => false

def Renamed (visit next : Visit) : Prop :=
  next = { visit with
    lotId := next.lotId, todoId := next.todoId, repo := next.repo, pr := next.pr }

inductive Leaving : Direction → Option Station → Prop where
  | forward : Leaving .forward none
  | rework (backTo : Station) : Leaving .rework (some backTo)

/-- One write into an open visit of the lot, by an event that may start and close visits at some
stations. -/
inductive Write (event : EventView) (lotId : String) (starts closes : Station → Prop) :
    Visit → Visit → Prop where
  | start {visit : Visit} (hlot : visit.lotId = lotId) (hopen : visit.isOpen = true)
      (hstarts : starts visit.station) (hnot : visit.startedMs = none) :
      Write event lotId starts closes visit
        { visit with startedMs := some event.tsMs, sourceSeqLast := event.seq }
  | close {visit : Visit} {direction : Direction} {backTo : Option Station}
      (hlot : visit.lotId = lotId) (hopen : visit.isOpen = true) (hcloses : closes visit.station)
      (hentered : visit.enteredMs ≤ event.tsMs) (hleaving : Leaving direction backTo) :
      Write event lotId starts closes visit
        { visit with
          leftMs := some event.tsMs
          direction := direction
          reworkTo := backTo
          outcome := event.outcome.or visit.outcome
          sourceSeqLast := event.seq }
  | hold {visit : Visit} (hlot : visit.lotId = lotId) (hopen : visit.isOpen = true) :
      Write event lotId starts closes visit
        { visit with direction := .hold, outcome := event.outcome, sourceSeqLast := event.seq }
  | holdFor {visit : Visit} (cause : Cause) (since : Option Int)
      (hlot : visit.lotId = lotId) (hopen : visit.isOpen = true) :
      Write event lotId starts closes visit
        { visit with
          direction := .hold
          outcome := event.outcome
          sourceSeqLast := event.seq
          holdSinceMs := since
          holdReason := some cause.reason
          holdBy := some (holder event cause)
          holdSha := headSha event }
  | release {visit : Visit} (hlot : visit.lotId = lotId) (hopen : visit.isOpen = true)
      (hfree : visit.holdReason = none ∨ visit.station = .merge) :
      Write event lotId starts closes visit
        { visit with direction := .open, sourceSeqLast := event.seq }

structure Fresh (event : EventView) (lotId : String) (ledger : List Visit) (visit : Visit) :
    Prop where
  lot : visit.lotId = lotId
  left : visit.leftMs = none
  direction : visit.direction = .open
  reworkTo : visit.reworkTo = none
  entered : visit.enteredMs = event.tsMs
  started : visit.startedMs = none
  holdSha : visit.holdSha = none
  free : ∀ other ∈ ledger, other.isOpen = true → other.place ≠ visit.place

def Tables.keys (tables : Tables) : List ProjectedEvent × List Revision :=
  (tables.events, tables.revisions)

structure Moved (event : EventView) (lotId : String) (starts closes : Station → Prop)
    (start next : Tables) : Prop where
  ledger : Grows (Write event lotId starts closes) (Fresh event lotId) start.ledger next.ledger
  keys : next.keys = start.keys

theorem Moved.refl {event : EventView} {lotId : String} {starts closes : Station → Prop}
    {tables : Tables} : Moved event lotId starts closes tables tables :=
  ⟨.refl, rfl⟩

@[simp]
theorem record_ledger {evidence : Evidence} {tables : Tables} {event : EventView}
    (lotId : String) (station : Station) (state : String) :
    (record evidence tables event lotId station state).ledger = tables.ledger := by
  unfold record
  split <;> rfl

theorem record_keys {evidence : Evidence} {tables : Tables} {event : EventView}
    (lotId : String) (station : Station) (state : String) :
    (record evidence tables event lotId station state).keys = tables.keys := by
  unfold record
  split <;> rfl

theorem isOpenAt_iff {visit : Visit} {lotId : String} {station : Station} :
    visit.isOpenAt lotId station = true ↔
      visit.lotId = lotId ∧ visit.station = station ∧ visit.isOpen = true := by
  simp [Visit.isOpenAt, Visit.isAt, and_assoc]

section Steps

variable {evidence : Evidence} {tables : Tables} {event : EventView} {lot : Lot}
variable {starts closes : Station → Prop} {start : Tables}

section Moved

variable (hmoved : Moved event lot.id starts closes start tables)
include hmoved

theorem moved_updateVisits {station : Station} {state : String} {quiet : Bool} {hit : Visit → Bool}
    {change : Visit → Visit}
    (hwrite : ∀ visit, hit visit = true → Write event lot.id starts closes visit (change visit)) :
    Moved event lot.id starts closes start
      (updateVisits evidence tables event lot.id station state quiet hit change) := by
  have hupdated := hmoved.ledger.update hit change hwrite
  unfold updateVisits
  split
  · exact ⟨by rwa [record_ledger], (record_keys ..).trans hmoved.keys⟩
  · exact ⟨hupdated, hmoved.keys⟩

theorem moved_enter (station : Station) :
    Moved event lot.id starts closes start (enter evidence tables event lot station) := by
  unfold enter
  split
  · exact hmoved
  next hnone =>
    refine ⟨?_, (record_keys ..).trans hmoved.keys⟩
    rw [record_ledger]
    refine hmoved.ledger.append _ ⟨rfl, rfl, rfl, rfl, rfl, rfl, rfl, ?_⟩
    intro visit hvisit hopen hsame
    have hfree : openVisit tables lot.id station = none := by simpa using hnone
    have hplace : visit.lotId = lot.id ∧ visit.station = station := Prod.mk.injEq .. ▸ hsame
    exact List.find?_eq_none.mp hfree visit (List.mem_reverse.mpr hvisit)
      (isOpenAt_iff.mpr ⟨hplace.1, hplace.2, hopen⟩)

theorem moved_close {station : Station} {direction : Direction} {backTo : Option Station}
    (hcloses : closes station) (hleaving : Leaving direction backTo) :
    Moved event lot.id starts closes start
      (close evidence tables event lot station direction backTo) := by
  refine moved_updateVisits hmoved fun visit hhit => ?_
  obtain ⟨hat, hentered⟩ := Bool.and_eq_true_iff.mp hhit
  obtain ⟨hlot, rfl, hopen⟩ := isOpenAt_iff.mp hat
  exact .close hlot hopen hcloses (of_decide_eq_true hentered) hleaving

theorem moved_ensureOpen (station : Station) :
    Moved event lot.id starts closes start (ensureOpen evidence tables event lot station) := by
  unfold ensureOpen
  split
  · exact moved_enter hmoved station
  · exact hmoved

theorem moved_applyStep {step : Step}
    (hstarts : ∀ station, step.starts station = true → starts station)
    (hcloses : ∀ station, step.closes station = true → closes station) :
    Moved event lot.id starts closes start (applyStep evidence tables event lot step) := by
  cases step with
  | enter station => exact moved_enter hmoved station
  | start station =>
    refine moved_updateVisits (moved_ensureOpen hmoved station) fun visit hhit => ?_
    obtain ⟨hat, hnot⟩ := Bool.and_eq_true_iff.mp hhit
    obtain ⟨hlot, rfl, hopen⟩ := isOpenAt_iff.mp hat
    exact .start hlot hopen (hstarts _ (by simp [Step.starts])) (Option.isNone_iff_eq_none.mp hnot)
  | leave station =>
    exact moved_close hmoved (hcloses station (by simp [Step.closes])) .forward
  | rework station backTo =>
    have hstation := hcloses station (by simp [Step.closes])
    simp only [applyStep]
    split
    · exact hmoved
    · exact moved_enter (moved_close hmoved hstation (.rework backTo)) backTo
  | hold station =>
    refine moved_updateVisits (moved_ensureOpen hmoved station) fun visit hhit => ?_
    obtain ⟨hlot, -, hopen⟩ := isOpenAt_iff.mp hhit
    exact .hold hlot hopen
  | holdFor station cause =>
    refine moved_updateVisits (moved_ensureOpen hmoved station) fun visit hhit => ?_
    obtain ⟨hlot, -, hopen⟩ := isOpenAt_iff.mp hhit
    exact .holdFor cause _ hlot hopen
  | release station =>
    refine moved_updateVisits hmoved fun visit hhit => ?_
    simp only [Bool.and_eq_true, Bool.or_eq_true, Option.isNone_iff_eq_none,
      decide_eq_true_eq] at hhit
    obtain ⟨hlot, -, hopen⟩ := isOpenAt_iff.mp hhit.1.1
    exact .release hlot hopen hhit.2

end Moved

theorem moved_applySteps (hmoved : Moved event lot.id starts closes start tables)
    {steps : List Step}
    (hstarts : ∀ step ∈ steps, ∀ station, step.starts station = true → starts station)
    (hcloses : ∀ step ∈ steps, ∀ station, step.closes station = true → closes station) :
    Moved event lot.id starts closes start (steps.foldl
      (fun tables step => applyStep evidence tables event lot step) tables) :=
  List.foldlRecOn steps _ hmoved fun _ hkept step hstep =>
    moved_applyStep hkept (hstarts step hstep) (hcloses step hstep)

theorem moved_closeAll (hmoved : Moved event lot.id starts closes start tables)
    {stations : List Station} {direction : Direction} {backTo : Option Station}
    (hcloses : ∀ station ∈ stations, closes station) (hleaving : Leaving direction backTo) :
    Moved event lot.id starts closes start (stations.foldl
      (fun tables station => close evidence tables event lot station direction backTo) tables) :=
  List.foldlRecOn stations _ hmoved fun _ hkept station hstation =>
    moved_close hkept (hcloses station hstation) hleaving

end Steps

/-- Where an event closes visits of a lot: the stations its steps leave, those held for another
head, Work when the todo is claimed again, and Shift when it swept the lot. -/
def closesAt (event : EventView) (steps : List Step) (tables : Tables) (lot : Lot)
    (station : Station) : Prop :=
  (∃ step ∈ steps, step.closes station = true) ∨
    (bringsHead event.kind = true ∧ station ∈ staleHolds tables event lot) ∨
    station = .work ∨ station = .shift

theorem moved_reclaimed {evidence : Evidence} {event : EventView} {tables : Tables} {lot : Lot}
    {starts closes : Station → Prop}
    (hstale : bringsHead event.kind → ∀ station ∈ staleHolds tables event lot, closes station)
    (hwork : closes .work) :
    Moved event lot.id starts closes tables
      (reclaim evidence (releaseOnNewHead evidence tables event lot) event lot) := by
  have hreleased : Moved event lot.id starts closes tables
      (releaseOnNewHead evidence tables event lot) := by
    unfold releaseOnNewHead
    split
    next hbrings =>
      exact moved_closeAll .refl (hstale hbrings) (.rework .work)
    · exact .refl
  unfold reclaim
  split
  · exact moved_close hreleased hwork (.rework .queue)
  · exact hreleased

theorem moved_applyLot (evidence : Evidence) (event : EventView) (steps : List Step)
    (tables : Tables) (moved : Lot × Bool) :
    Moved event moved.1.id (fun _ => True) (closesAt event steps tables moved.1) tables
      (applyLot evidence event steps tables moved) := by
  have hreclaimed := @moved_reclaimed evidence event tables moved.1 (fun _ => True)
    (closesAt event steps tables moved.1)
    (fun hbrings station hstation => .inr (.inl ⟨hbrings, hstation⟩)) (.inr (.inr (.inl rfl)))
  have hsteps : ∀ step ∈ lotSteps steps moved.2, ∀ station, step.closes station = true →
      closesAt event steps tables moved.1 station := by
    intro step hstep station hcloses
    unfold lotSteps at hstep
    split at hstep
    · rcases List.mem_cons.mp hstep with rfl | hstep
      · exact .inr (.inr (.inr (of_decide_eq_true hcloses).symm))
      · rcases List.mem_cons.mp hstep with rfl | hstep
        · cases hcloses
        · exact .inl ⟨step, hstep, hcloses⟩
    · exact .inl ⟨step, hstep, hcloses⟩
  have hmoved := @moved_applySteps evidence _ event moved.1 (fun _ => True) _ _ hreclaimed
    (lotSteps steps moved.2) (fun _ _ _ _ => trivial) hsteps
  unfold applyLot
  dsimp only
  split
  · exact moved_enter hmoved .merge
  · exact hmoved

def deliveryStarts (event : EventView) (station : Station) : Prop :=
  ∃ step ∈ steps event.kind event.outcome, step.starts station = true

def deliveryCloses (event : EventView) (station : Station) : Prop :=
  (∃ step ∈ steps event.kind event.outcome, step.closes station = true) ∨
    Text.startsWith event.kind "deploy." = true ∧ station ∈ [Station.pin, .stage]

theorem moved_deliverLot (evidence : Evidence) (event : EventView) (shipper revision : String)
    (tables : Tables) (moved : Lot × Bool) :
    Moved event moved.1.id (deliveryStarts event) (deliveryCloses event) tables
      (deliverLot evidence event shipper revision tables moved) := by
  unfold deliverLot
  dsimp only
  split
  · refine moved_applySteps ?_ (fun step hstep station hstarts => ⟨step, hstep, hstarts⟩)
      fun step hstep station hcloses => .inl ⟨step, hstep, hcloses⟩
    unfold passToDeploy
    split
    next hdeploy =>
      refine moved_enter (moved_closeAll ?_ (fun station hstation => .inr ⟨hdeploy, hstation⟩)
        .forward) .deploy
      exact ⟨.refl, rfl⟩
    · exact ⟨.refl, rfl⟩
  · exact .refl

theorem renamed_bindPr (tables : Tables) (lotId repo : String) (pr : Int) :
    Grows Renamed (fun _ _ => False) tables.ledger (bindPr tables lotId repo pr).ledger :=
  Grows.refl.update _ _ fun _ _ => rfl

theorem renamed_adopt (tables : Tables) (todoId repo : String) (pr : Int) :
    Grows Renamed (fun _ _ => False) tables.ledger (adopt tables todoId repo pr).ledger := by
  refine Grows.trans ?_ (renamed_bindPr _ todoId repo pr)
  split
  · exact Grows.refl.update _ _ fun _ _ => rfl
  · exact .refl

theorem renamed_lotsFor (tables : Tables) (event : EventView) :
    Grows Renamed (fun _ _ => False) tables.ledger (lotsFor tables event).1.ledger := by
  unfold lotsFor
  split
  · exact renamed_adopt ..
  · exact .refl
  · exact List.foldlRecOn
      (motive := fun bound : Tables => Grows Renamed (fun _ _ => False) tables.ledger bound.ledger)
      _ _ .refl fun _ hkept lot _ => hkept.trans (renamed_bindPr _ lot.id _ _)
  · exact .refl

end JeryuForge.Flow
