import JeryuForge.Flow.Writes

/-!
# One open visit per lot and station

Every step of the projection asks for an open visit before it opens one.  Adoption
alone moves open visits from one lot to another without asking, so two lots that stand
at one station become one lot that stands there twice.
-/

namespace JeryuForge.Flow

open Pipeline List

variable {event : EventView} {lotId repo : String} {tables : Tables}

variable {starts closes : Station → Prop} {ledger : List Visit} {start : Tables}

theorem place_of_write {visit next : Visit} (hwrite : Write event lotId starts closes visit next) :
    visit.isOpen = true ∧ next.place = visit.place := by
  cases hwrite <;> exact ⟨‹_›, rfl⟩

theorem recordRevision_frame (tables : Tables) (event : EventView) :
    (recordRevision tables event).ledger = tables.ledger ∧
      (recordRevision tables event).activity = tables.activity ∧
        (recordRevision tables event).events = tables.events := by
  unfold recordRevision
  split
  · split <;> exact ⟨rfl, rfl, rfl⟩
  · exact ⟨rfl, rfl, rfl⟩

def movesLots (tables : Tables) (event : EventView) : Bool :=
  !(eventSteps event).isEmpty && (firstProjection tables event).2

theorem movesLots_recordRevision (tables : Tables) (event : EventView) :
    (firstProjection (recordRevision tables event) event).2 = (firstProjection tables event).2 := by
  simp only [firstProjection, (recordRevision_frame tables event).2.2]

theorem apply_of_movesLots (evidence : Evidence) {tables : Tables} {event : EventView}
    (hmoves : movesLots tables event) : ∃ same : Tables, same.ledger = tables.ledger ∧
      apply evidence tables event = (lotsFor same event).2.foldl
        (applyLot evidence event (eventSteps event)) (lotsFor same event).1 := by
  simp only [movesLots, Bool.and_eq_true, Bool.not_eq_true'] at hmoves
  refine ⟨(firstProjection (recordRevision tables event) event).1,
    (recordRevision_frame tables event).1, ?_⟩
  simp only [apply, hmoves.1, movesLots_recordRevision, hmoves.2, Bool.false_eq_true, if_false,
    if_true]

theorem apply_of_not_movesLots (evidence : Evidence) {tables : Tables} {event : EventView}
    (hmoves : ¬movesLots tables event) :
    (apply evidence tables event).ledger = tables.ledger ∧
      (apply evidence tables event).activity = tables.activity := by
  obtain ⟨hledger, hactivity, -⟩ := recordRevision_frame tables event
  unfold apply
  dsimp only
  split
  · exact ⟨hledger, hactivity⟩
  next hsteps =>
    split
    next hfirst =>
      rw [movesLots_recordRevision] at hfirst
      exact absurd (by simpa [movesLots, hfirst] using hsteps) hmoves
    · exact ⟨hledger, hactivity⟩

theorem apply_keeps (keeps : List Visit → Prop) (lots : Lot × Bool → Prop) {evidence : Evidence}
    {tables : Tables} {event : EventView}
    (hmoves : ∀ (moved : Lot × Bool) (before next : Tables), lots moved → keeps before.ledger →
      Moved event moved.1.id (fun _ => True) (closesAt event (eventSteps event) before moved.1)
        before next → keeps next.ledger) (hstart : keeps tables.ledger)
    (hlots : ∀ same : Tables, same.ledger = tables.ledger → movesLots tables event →
      keeps (lotsFor same event).1.ledger ∧ ∀ moved ∈ (lotsFor same event).2, lots moved) :
    keeps (apply evidence tables event).ledger := by
  by_cases hmovesLots : movesLots tables event
  · obtain ⟨same, hsame, happly⟩ := apply_of_movesLots evidence hmovesLots
    obtain ⟨hjoined, hnamed⟩ := hlots same hsame hmovesLots
    rw [happly]
    exact foldlRecOn (motive := fun tables : Tables => keeps tables.ledger) _ _ hjoined
      fun before hkept moved hmoved =>
        hmoves moved before _ (hnamed moved hmoved) hkept (moved_applyLot ..)
  · rw [(apply_of_not_movesLots evidence hmovesLots).1]
    exact hstart

theorem deliver_keeps (keeps : List Visit → Prop) (lots : Lot × Bool → Prop) {evidence : Evidence}
    {tables : Tables} {event : EventView}
    (hmoves : ∀ (moved : Lot × Bool) (before next : Tables), lots moved → keeps before.ledger →
      Moved event moved.1.id (deliveryStarts event) (deliveryCloses event) before next →
        keeps next.ledger) (hjoined : keeps (lotsFor tables event).1.ledger)
    (hnamed : ∀ moved ∈ (lotsFor tables event).2, lots moved) (shipper revision : String) :
    keeps (deliver evidence tables event shipper revision).ledger :=
  foldlRecOn (motive := fun tables : Tables => keeps tables.ledger) _ _ hjoined
    fun before hkept moved hmoved =>
      hmoves moved before _ (hnamed moved hmoved) hkept (moved_deliverLot ..)

inductive Action where
  | event (evidence : Evidence) (view : EventView)
  | deliver (evidence : Evidence) (view : EventView) (shipper revision : String)

def perform (tables : Tables) : Action → Tables
  | .event evidence view => apply evidence tables view
  | .deliver evidence view shipper revision =>
    deliver evidence tables view shipper revision

def machine : Machine Tables Action where
  start := Tables.empty
  step tables action := some (perform tables action)

/-! ## Lots have names -/

def Named (ledger : List Visit) : Prop :=
  ∀ visit ∈ ledger, visit.lotId ≠ ""

theorem Named.updateWhere {hit : Visit → Bool} {change : Visit → Visit}
    (hnamed : Named ledger) (hchange : ∀ visit, visit.lotId ≠ "" → (change visit).lotId ≠ "") :
    Named (Table.updateWhere ledger hit change) := by
  intro visit hvisit
  obtain ⟨old, hold, rfl⟩ := Table.mem_updateWhere.mp hvisit
  split
  · exact hchange old (hnamed old hold)
  · exact hnamed old hold

theorem Named.moved {start next : Tables} (hlot : lotId ≠ "") (hnamed : Named start.ledger)
    (hmoved : Moved event lotId starts closes start next) : Named next.ledger := by
  refine hmoved.ledger.forall_mem (fun _ _ hfresh => ?_)
    (fun visit written hold hwrite => ?_) hnamed
  · exact hfresh.lot.symm ▸ hlot
  · have hsame : written.lotId = visit.lotId := congrArg Prod.fst (place_of_write hwrite).2
    exact hsame ▸ hold

theorem prLot_ne_empty (repo : String) (pr : Int) : prLot repo pr ≠ "" := by
  intro hempty
  have hchars := congrArg String.toList hempty
  simp [prLot] at hchars

theorem nonEmpty_ne_empty {text : Option String} {found : String}
    (hfound : Text.nonEmpty text = some found) : found ≠ "" := by
  have hkept := (Option.filter_eq_some_iff.mp hfound).2
  rintro rfl
  simp at hkept

variable (hnamed : Named tables.ledger)
include hnamed

theorem Named.bindPr (lotId repo : String) (pr : Int) :
    Named (bindPr tables lotId repo pr).ledger :=
  hnamed.updateWhere fun _ hvisit => hvisit

theorem Named.lotsOfPr {pr : Int} {id : String} (hid : id ∈ lotsOfPr tables repo pr) : id ≠ "" := by
  obtain ⟨visit, hvisit, rfl⟩ := mem_map.mp (mem_eraseDups.mp hid)
  exact hnamed visit (mem_filter.mp hvisit).1

theorem Named.sweep {lot : Lot} (hlot : lot ∈ sweep tables event repo) : lot.id ≠ "" := by
  unfold Flow.sweep at hlot
  split at hlot
  · split at hlot
    · obtain ⟨visit, hvisit, rfl⟩ := mem_map.mp hlot
      exact hnamed visit (mem_filter.mp hvisit).1
    · cases hlot
  · cases hlot

theorem Named.lotIds {swept : List Lot} (hswept : ∀ lot ∈ swept, lot.id ≠ "") {pr : Int}
    {id : String} (hid : id ∈ lotIds tables swept repo pr) : id ≠ "" := by
  have hall : ∀ id ∈ swept.foldl
      (fun ids lot => if lot.id ∈ ids then ids else ids ++ [lot.id])
      (Flow.lotsOfPr tables repo pr), id ≠ "" := by
    refine foldlRecOn (motive := fun ids : List String => ∀ id ∈ ids, id ≠ "") swept _
      (fun _ hlot => hnamed.lotsOfPr hlot) ?_
    intro ids hids lot hlot
    split
    · exact hids
    · intro other hother
      rcases mem_append.mp hother with hold | hnew
      · exact hids other hold
      · rw [mem_singleton.mp hnew]
        exact hswept lot hlot
  unfold Flow.lotIds at hid
  dsimp only at hid
  split at hid
  · rw [mem_singleton.mp hid]
    exact prLot_ne_empty repo pr
  · exact hall id hid

theorem Named.lotsFor (event : EventView) :
    Named (lotsFor tables event).1.ledger ∧
      ∀ moved ∈ (lotsFor tables event).2, moved.1.id ≠ "" := by
  unfold Flow.lotsFor
  split
  next todoId repo pr htodo _ _ =>
    have htodoId := nonEmpty_ne_empty htodo
    refine ⟨?_, fun moved hmoved => by rw [mem_singleton.mp hmoved]; exact htodoId⟩
    refine Named.bindPr ?_ todoId repo pr
    split
    · exact hnamed.updateWhere fun _ _ => htodoId
    · exact hnamed
  next htodo _ =>
    refine ⟨hnamed, fun moved hmoved => ?_⟩
    rw [mem_singleton.mp hmoved]
    exact nonEmpty_ne_empty htodo
  next repo pr _ _ _ =>
    have hbound : Named ((Flow.sweep tables event repo).foldl
        (fun tables lot => Flow.bindPr tables lot.id repo pr) tables).ledger :=
      foldlRecOn (motive := fun tables : Tables => Named tables.ledger) _ _ hnamed
        fun _ hkept lot _ => hkept.bindPr lot.id repo pr
    refine ⟨hbound, fun moved hmoved => ?_⟩
    obtain ⟨id, hid, rfl⟩ := mem_map.mp hmoved
    exact hbound.lotIds (fun _ hlot => hnamed.sweep hlot) hid
  · exact ⟨hnamed, fun _ hmoved => by cases hmoved⟩

theorem Named.apply (evidence : Evidence) (event : EventView) :
    Named (apply evidence tables event).ledger :=
  apply_keeps Named (fun moved => moved.1.id ≠ "")
    (fun _ _ _ hlot hkept hmoved => hkept.moved hlot hmoved) hnamed
    fun same hsame _ => Named.lotsFor (show Named same.ledger from hsame ▸ hnamed) event

theorem Named.deliver (evidence : Evidence) (event : EventView) (shipper revision : String) :
    Named (deliver evidence tables event shipper revision).ledger := by
  obtain ⟨hjoined, hlots⟩ := hnamed.lotsFor event
  exact deliver_keeps Named (fun moved => moved.1.id ≠ "")
    (fun _ _ _ hlot hkept hmoved => hkept.moved hlot hmoved)
    hjoined hlots shipper revision

theorem Named.applyDelivery (evidence : Evidence) (delivery : Delivery)
    (revisions : List Revision) :
    Named (applyDelivery evidence tables delivery revisions).ledger :=
  foldlRecOn (motive := fun tables : Tables => Named tables.ledger) revisions _ hnamed
    fun _ hkept _ _ => hkept.deliver _ _ _ _

omit hnamed

theorem run_named {actions : List Action} (hrun : machine.run actions = some tables) :
    Named tables.ledger := by
  refine machine.run_invariant_always (motive := fun tables => Named tables.ledger)
    (fun _ hvisit => by cases hvisit) ?_ hrun
  intro state action next hstate hstep
  have hnext : perform state action = next := Option.some.inj hstep
  rw [← hnext]
  cases action with
  | event evidence view => exact hstate.apply evidence view
  | deliver evidence view shipper revision => exact hstate.deliver evidence view shipper revision

/-- The ledger still has the visit at its place, perhaps counted under another lot. -/
def Stands (index : Nat) (visit : Visit) (ledger : List Visit) : Prop :=
  ∃ found, ledger[index]? = some found ∧ Renamed visit found

variable {index : Nat} {visit : Visit}

theorem Stands.renamed {start : List Visit} (hstands : Stands index visit start)
    (hrenamed : Table.Grows Renamed (fun _ _ => False) start ledger) :
    Stands index visit ledger := by
  obtain ⟨found, hfound, hsame⟩ := hstands
  refine hrenamed.getElem?_keeps (fun row next hrow hnext => ?_) hfound hsame
  rw [Renamed, hnext, hrow]

variable (hleft : visit.isOpen = false)
include hleft

theorem Stands.moved (hstands : Stands index visit start.ledger)
    (hmoved : Moved event lotId starts closes start tables) :
    Stands index visit tables.ledger := by
  obtain ⟨found, hfound, hsame⟩ := hstands
  refine hmoved.ledger.getElem?_keeps (fun row next hrow hwrite => ?_) hfound hsame
  -- only open visits are written
  have hopen := (place_of_write hwrite).1
  rw [hrow] at hopen
  exact absurd hopen (Bool.eq_false_iff.mp hleft)

variable (hstands : Stands index visit tables.ledger)
include hstands

theorem Stands.apply (evidence : Evidence) (event : EventView) :
    Stands index visit (apply evidence tables event).ledger :=
  apply_keeps (Stands index visit) (fun _ => True)
    (fun _ _ _ _ hkept hmoved => hkept.moved hleft hmoved) hstands
    fun same hsame _ => ⟨(hsame ▸ hstands : Stands index visit same.ledger).renamed
      (renamed_lotsFor same event), fun _ _ => trivial⟩

theorem Stands.applyDelivery (evidence : Evidence) (delivery : Delivery)
    (revisions : List Revision) :
    Stands index visit (applyDelivery evidence tables delivery revisions).ledger :=
  foldlRecOn (motive := fun tables : Tables => Stands index visit tables.ledger) revisions _ hstands
    fun _ hkept _ _ => deliver_keeps (Stands index visit) (fun _ => True)
      (fun _ _ _ _ hkept hmoved => hkept.moved hleft hmoved)
      (hkept.renamed (renamed_lotsFor ..)) (fun _ _ => trivial) _ _

end JeryuForge.Flow

namespace JeryuForge.Flow

open Pipeline List

def openVisits (tables : Tables) (lotId : String) (station : Station) : List Visit :=
  tables.ledger.filter fun visit => visit.isOpenAt lotId station

def standing (lotId : String) (station : Station) (ledger : List Visit) : Nat :=
  ledger.countP fun visit => visit.isOpenAt lotId station

def OneOpen (ledger : List Visit) : Prop :=
  ∀ lotId station, standing lotId station ledger ≤ 1

/-- An open visit of the pull request or of the todo that the event joins, at a station where both
stand. -/
def doubles (ledger : List Visit) (event : EventView) (visit : Visit) : Bool :=
  match Text.nonEmpty event.todoId, event.repo, event.pr with
  | some todoId, some repo, some pr =>
    prLot repo pr ≠ todoId && visit.isOpen && visit.lotId ∈ [prLot repo pr, todoId] &&
      0 < standing (prLot repo pr) visit.station ledger && 0 < standing todoId visit.station ledger
  | _, _, _ => false

section Standing

variable {event : EventView} {tables next : Tables} {lot : Lot} {lotId : String}
  {station : Station} {starts closes : Station → Prop}

theorem isOpenAt_of_write {visit written : Visit}
    (hwrite : Write event lot.id starts closes visit written)
    (hstands : written.isOpenAt lotId station) : visit.isOpenAt lotId station := by
  obtain ⟨hlot, hstation, -⟩ := isOpenAt_iff.mp hstands
  cases hwrite <;> exact isOpenAt_iff.mpr ⟨hlot, hstation, ‹_›⟩

theorem standing_of_moved (hmoved : Moved event lot.id starts closes tables next)
    (hone : standing lotId station tables.ledger ≤ 1) : standing lotId station next.ledger ≤ 1 := by
  refine hmoved.ledger.countP_le_one (fun rows visit hfresh hvisit other hother hstands => ?_)
    (fun _ _ hwrite hstands => isOpenAt_of_write hwrite hstands) hone
  obtain ⟨hlot, hstation, -⟩ := isOpenAt_iff.mp hvisit
  obtain ⟨hlotOther, hstationOther, hopen⟩ := isOpenAt_iff.mp hstands
  exact hfresh.free other hother hopen
    (Prod.ext (hlotOther.trans hlot.symm) (hstationOther.trans hstation.symm))

theorem standing_bindPr (tables : Tables) (id repo : String) (pr : Int) :
    standing lotId station (bindPr tables id repo pr).ledger =
      standing lotId station tables.ledger := by
  refine (countP_map ..).trans (countP_congr fun visit _ => ?_)
  dsimp only [Function.comp_apply]
  split <;> rfl

theorem standing_adopt_le {todoId repo : String} {pr : Int} :
    standing lotId station (adopt tables todoId repo pr).ledger ≤
      standing lotId station tables.ledger +
        if lotId = todoId ∧ prLot repo pr ≠ todoId then
          standing (prLot repo pr) station tables.ledger
        else
          0 := by
  unfold adopt
  rw [standing_bindPr]
  split
  next hdiffer =>
    split
    · refine Table.countP_updateWhere_le fun visit hhit hstands => ?_
      obtain ⟨-, hstation, hopen⟩ := isOpenAt_iff.mp hstands
      exact isOpenAt_iff.mpr ⟨of_decide_eq_true hhit, hstation, hopen⟩
    next hother =>
      have hmoved := @Table.countP_updateWhere_le _ tables.ledger
        (fun visit => visit.isOpenAt lotId station) (fun _ => false)
        (fun visit => visit.lotId = prLot repo pr)
        (fun visit => { visit with lotId := todoId, todoId := some todoId })
        fun visit _ hstands => absurd ⟨(isOpenAt_iff.mp hstands).1.symm, hdiffer⟩ hother
      rwa [countP_false] at hmoved
  · exact Nat.le_add_right ..

theorem OneOpen.lotsFor (hone : OneOpen tables.ledger)
    (hapart : ∀ visit ∈ tables.ledger, visit.isOpenAt lotId station →
      doubles tables.ledger event visit = false) :
    standing lotId station (lotsFor tables event).1.ledger ≤ 1 := by
  unfold Flow.lotsFor
  split
  next todoId repo pr htodo hrepo hpr =>
    refine standing_adopt_le.trans ?_
    split
    next hjoins =>
      obtain ⟨rfl, hdiffer⟩ := hjoins
      by_contra htwice
      have hown := hone lotId station
      have hpull := hone (prLot repo pr) station
      have hstands : 0 < standing lotId station tables.ledger := by omega
      obtain ⟨visit, hmem, hvisit⟩ := countP_pos_iff.mp hstands
      have hsingle := hapart visit hmem hvisit
      obtain ⟨hlot, rfl, hopen⟩ := isOpenAt_iff.mp hvisit
      have hpullStands : 0 < standing (prLot repo pr) visit.station tables.ledger := by omega
      refine absurd ?_ (Bool.eq_false_iff.mp hsingle)
      simp [doubles, htodo, hrepo, hpr, hdiffer, hopen, hlot, hpullStands, hstands]
    · exact hone lotId station
  · exact hone lotId station
  · refine foldlRecOn
      (motive := fun tables : Tables => standing lotId station tables.ledger ≤ 1) _ _
      (hone lotId station) fun _ hkept lot _ => ?_
    rwa [standing_bindPr]
  · exact hone lotId station

/-- The open visits of the lot at the station were entered before the event. -/
def EnteredBefore (event : EventView) (lotId : String) (station : Station) (ledger : List Visit) :
    Prop :=
  ∀ visit ∈ ledger, visit.isOpenAt lotId station → visit.enteredMs ≤ event.tsMs

theorem EnteredBefore.moved (hentered : EnteredBefore event lotId station tables.ledger)
    (hmoved : Moved event lot.id starts closes tables next) :
    EnteredBefore event lotId station next.ledger := by
  refine hmoved.ledger.forall_mem (fun _ _ hfresh _ => hfresh.entered.le)
    (fun visit written hbefore hwrite hstands => ?_) hentered
  have hsame : written.enteredMs = visit.enteredMs := by cases hwrite <;> rfl
  exact hsame ▸ hbefore (isOpenAt_of_write hwrite hstands)

variable {evidence : Evidence}

theorem standing_close (hentered : EnteredBefore event lot.id station tables.ledger)
    (direction : Direction) (backTo : Option Station) :
    standing lot.id station (close evidence tables event lot station direction backTo).ledger =
      0 := by
  have hledger : (close evidence tables event lot station direction backTo).ledger =
      Table.updateWhere tables.ledger
        (fun visit => visit.isOpenAt lot.id station && visit.enteredMs ≤ event.tsMs)
        fun visit => { visit with
          leftMs := some event.tsMs, direction := direction, reworkTo := backTo
          outcome := event.outcome.or visit.outcome, sourceSeqLast := event.seq } := by
    unfold close updateVisits
    split
    · exact record_ledger ..
    · rfl
  rw [hledger]
  refine countP_eq_zero.mpr fun visit hvisit => ?_
  obtain ⟨old, hold, rfl⟩ := Table.mem_updateWhere.mp hvisit
  split
  · simp [Visit.isOpenAt, Visit.isOpen]
  next hhit =>
    exact fun hstands => hhit (by simp [hstands, hentered old hold hstands])

theorem standing_applyStep {step : Step} (hcloses : step.closes station)
    (hentered : EnteredBefore event lot.id station tables.ledger) :
    standing lot.id station (applyStep evidence tables event lot step).ledger ≤ 1 := by
  cases step with
  | leave left =>
    obtain rfl : left = station := of_decide_eq_true hcloses
    exact (standing_close hentered ..).le.trans (Nat.zero_le 1)
  | rework left backTo =>
    obtain rfl : left = station := of_decide_eq_true hcloses
    simp only [applyStep]
    split
    next hnone =>
      refine (countP_eq_zero.mpr fun visit hvisit => ?_).le.trans (Nat.zero_le 1)
      exact find?_eq_none.mp (Option.isNone_iff_eq_none.mp hnone) visit (mem_reverse.mpr hvisit)
    · have henters := @moved_enter evidence _ event lot (fun _ => True) (fun _ => True)
        (close evidence tables event lot left .rework (some backTo)) .refl backTo
      exact standing_of_moved henters ((standing_close hentered ..).le.trans (Nat.zero_le 1))
  | enter | start | hold | holdFor | release => cases hcloses

theorem standing_applyLot {steps : List Step} {step : Step} {joined : Bool} (hstep : step ∈ steps)
    (hcloses : step.closes station)
    (hentered : EnteredBefore event lot.id station tables.ledger) :
    standing lot.id station (applyLot evidence event steps tables (lot, joined)).ledger ≤ 1 := by
  have hmem : step ∈ lotSteps steps joined := by
    unfold lotSteps
    split
    · simp [hstep]
    · exact hstep
  obtain ⟨before, after, hsplit⟩ := append_of_mem hmem
  have hstart : Moved event lot.id (fun _ => True) (fun _ => True) tables
      (reclaim evidence (releaseOnNewHead evidence tables event lot) event lot) :=
    moved_reclaimed (fun _ _ _ => trivial) trivial
  have hbefore := @moved_applySteps evidence _ _ _ _ _ _ hstart before
    (fun _ _ _ _ => trivial) fun _ _ _ _ => trivial
  have hclosed := @standing_applyStep _ _ _ _ evidence _ hcloses (hentered.moved hbefore)
  unfold applyLot
  dsimp only
  rw [hsplit, foldl_append, foldl_cons]
  generalize applyStep evidence _ event lot step = closed at hclosed ⊢
  have hafter := @moved_applySteps evidence closed event lot (fun _ => True) (fun _ => True) closed
    .refl after (fun _ _ _ _ => trivial) fun _ _ _ _ => trivial
  split
  · exact standing_of_moved (moved_enter hafter .merge) hclosed
  · exact standing_of_moved hafter hclosed

end Standing

/-- An event that joins a pull request to a todo closes the visits at the stations where both
stand: it leaves the station, and not before they were entered. -/
def JoinsApart (tables : Tables) : Action → Prop
  | .event _ view => movesLots tables view →
      ∀ visit ∈ tables.ledger, doubles tables.ledger view visit →
        visit.enteredMs ≤ view.tsMs ∧ ∃ step ∈ eventSteps view, step.closes visit.station
  | .deliver _ view _ _ => ∀ visit ∈ tables.ledger, doubles tables.ledger view visit = false

instance (tables : Tables) : (action : Action) → Decidable (JoinsApart tables action)
  | .event .. => inferInstanceAs (Decidable (_ → ∀ visit ∈ _, _ → _))
  | .deliver .. => inferInstanceAs (Decidable (∀ visit ∈ _, _))

theorem entered_adopt {tables : Tables} {event : EventView} {todoId repo : String} {pr : Int}
    {station : Station}
    (hentered : ∀ visit ∈ tables.ledger, visit.isOpen → visit.station = station →
      visit.lotId ∈ [prLot repo pr, todoId] → visit.enteredMs ≤ event.tsMs) :
    EnteredBefore event todoId station (adopt tables todoId repo pr).ledger := by
  have hgrows : Table.Grows (fun visit next : Visit => next.isOpen = visit.isOpen ∧
      next.station = visit.station ∧ next.enteredMs = visit.enteredMs ∧
        (next.lotId = visit.lotId ∨ visit.lotId = prLot repo pr)) (fun _ _ => False)
      tables.ledger (adopt tables todoId repo pr).ledger := by
    refine .update _ _ ?_ fun _ _ => ⟨rfl, rfl, rfl, .inl rfl⟩
    split
    · exact Table.Grows.refl.update _ _ fun _ hhit =>
        ⟨rfl, rfl, rfl, .inr (of_decide_eq_true hhit)⟩
    · exact .refl
  intro visit hvisit hstands
  obtain ⟨hlot, hstation, hopen⟩ := isOpenAt_iff.mp hstands
  refine hgrows.forall_mem (fun _ _ hfresh => hfresh.elim) ?_ hentered visit hvisit hopen hstation
    (by simp [hlot])
  rintro row next hrow ⟨hopen, hstation, hentered, hlot⟩
  rw [hopen, hstation, hentered]
  refine fun hstands hat hnext => hrow hstands hat ?_
  rcases hlot with hlot | hlot
  · exact hlot ▸ hnext
  · simp [hlot]

theorem OneOpen.apply_of_doubles (hone : OneOpen tables.ledger) {evidence : Evidence}
    {view : EventView} {lotId : String} {station : Station} {visit : Visit}
    (hapart : JoinsApart tables (.event evidence view)) (hmoves : movesLots tables view)
    (hmem : visit ∈ tables.ledger) (hat : visit.isOpenAt lotId station)
    (hdoubles : doubles tables.ledger view visit) :
    standing lotId station (apply evidence tables view).ledger ≤ 1 := by
  obtain ⟨same, hsame, happly⟩ := apply_of_movesLots evidence hmoves
  obtain ⟨-, step, hstep, hcloses⟩ := hapart hmoves visit hmem hdoubles
  obtain ⟨-, rfl, -⟩ := isOpenAt_iff.mp hat
  have hstand := hdoubles
  unfold doubles at hstand
  split at hstand
  next todoId repo pr htodo hrepo hpr =>
    simp only [Bool.and_eq_true, decide_eq_true_eq] at hstand
    simp only [happly, Flow.lotsFor, htodo, hrepo, hpr, List.foldl_cons, List.foldl_nil]
    by_cases hlot : lotId = todoId
    · subst hlot
      refine @standing_applyLot _ _ ⟨lotId, _, _, _⟩ _ _ _ _ _ hstep hcloses (entered_adopt ?_)
      intro old hold hopen hstation hlot
      refine (hapart hmoves old (hsame ▸ hold) ?_).1
      simp only [doubles, htodo, hrepo, hpr, Bool.and_eq_true, decide_eq_true_eq]
      exact ⟨⟨⟨⟨hstand.1.1.1.1, hopen⟩, hlot⟩, hstation ▸ hstand.1.2⟩, hstation ▸ hstand.2⟩
    · refine standing_of_moved (moved_applyLot ..) (standing_adopt_le.trans ?_)
      rw [if_neg (fun hjoins => hlot hjoins.1), hsame]
      exact hone lotId _
  · cases hstand

theorem OneOpen.perform (hone : OneOpen tables.ledger) {action : Action}
    (hapart : JoinsApart tables action) : OneOpen (perform tables action).ledger := by
  intro lotId station
  cases action with
  | event evidence view =>
    by_cases hdouble : movesLots tables view ∧ ∃ visit ∈ tables.ledger,
        visit.isOpenAt lotId station ∧ doubles tables.ledger view visit
    · obtain ⟨hmoves, visit, hmem, hat, hdoubles⟩ := hdouble
      exact hone.apply_of_doubles hapart hmoves hmem hat hdoubles
    · refine apply_keeps (fun ledger => standing lotId station ledger ≤ 1) (fun _ => True)
        (fun _ _ _ _ hkept hmoved => standing_of_moved hmoved hkept) (hone lotId station) ?_
      intro same hsame hmoves
      refine ⟨OneOpen.lotsFor (hsame ▸ hone) fun visit hmem hat => ?_, fun _ _ => trivial⟩
      rw [hsame] at hmem ⊢
      exact Bool.eq_false_iff.mpr fun hdoubles => hdouble ⟨hmoves, visit, hmem, hat, hdoubles⟩
  | deliver evidence view shipper revision =>
    exact deliver_keeps (fun ledger => standing lotId station ledger ≤ 1) (fun _ => True)
      (fun _ _ _ _ hkept hmoved => standing_of_moved hmoved hkept)
      (hone.lotsFor fun visit hmem _ => hapart visit hmem) (fun _ _ => trivial) shipper revision

/-- In a run in which no joined pull request leaves a todo standing twice at once, a lot has at
most one open visit at a station. -/
theorem run_openVisits {actions : List Action} {tables : Tables}
    (hapart : machine.Meets JoinsApart actions) (hrun : machine.run actions = some tables)
    (lotId : String) (station : Station) : (openVisits tables lotId station).length ≤ 1 := by
  have hone : OneOpen tables.ledger := by
    refine machine.run_invariant (motive := fun tables => OneOpen tables.ledger)
      (fun _ _ => Nat.zero_le 1) ?_ hapart hrun
    intro state action next hstate hmeets hstep
    have hnext : perform state action = next := Option.some.inj hstep
    rw [← hnext]
    exact hstate.perform hmeets
  rw [openVisits, ← List.countP_eq_length_filter]
  exact hone lotId station

def pullEvent (seq : Int) (kind : String) (todoId : Option String) (pr : Int) : EventView :=
  { bareEvent seq kind with todoId := todoId, repo := some "acme/app", pr := some pr }

/-- The todo's first pull request waits for its gate, a second one is opened that
names no todo, and only its gate says that it belongs to the same todo. -/
def secondPullOfTodo : List Action :=
  [.event noEvidence (pullEvent 1 "pr.opened" (some "T1") 7),
    .event noEvidence (pullEvent 2 "pr.opened" none 8),
    .event noEvidence (pullEvent 3 "gate.started" (some "T1") 8)]

theorem secondPullOfTodo_stands_twice :
    ∃ tables,
      machine.run secondPullOfTodo = some tables ∧
        (openVisits tables "T1" .gate).length = 2 :=
  ⟨(machine.run secondPullOfTodo).get (by decide +kernel),
    (Option.some_get _).symm, by decide +kernel⟩

def adoptedPull : List Action :=
  [.event noEvidence (pullEvent 1 "pr.opened" none 7),
    .event noEvidence (pullEvent 2 "gate.started" (some "T1") 7)]

theorem run_openVisits_adoptedPull :
    ∃ tables,
      machine.run adoptedPull = some tables ∧
        openVisits tables "T1" .gate ≠ [] ∧
        (openVisits tables "T1" .gate).length ≤ 1 :=
  ⟨(machine.run adoptedPull).get (by decide +kernel), (Option.some_get _).symm, by decide +kernel,
    run_openVisits (by decide +kernel) (Option.some_get _).symm "T1" .gate⟩

end JeryuForge.Flow
