import JeryuForge.Flow.OpenVisits

/-!
# The times of a visit

A visit is entered, then started, then left.  The events of the log come in the order of
their times; a delivery writes the time of an older event into visits that may have moved
on since.
-/

namespace JeryuForge.Flow

open Pipeline Option

/-- The times of a visit are in order, as far as they are there. -/
@[mk_iff]
structure Visit.Ordered (visit : Visit) : Prop where
  started : ∀ started ∈ visit.startedMs, visit.enteredMs ≤ started
  left : ∀ started ∈ visit.startedMs, ∀ left ∈ visit.leftMs, started ≤ left

instance (visit : Visit) : Decidable visit.Ordered :=
  decidable_of_iff' _ (Visit.ordered_iff visit)

/-- What an event of one time may write: the times of the events so far, its own among
them, the lots it moves, and the stations where it starts and closes their visits. -/
structure Scope where
  times : List Int
  ts : Int
  mem : ts ∈ times
  lots : String → Prop
  starts : Station → Prop
  closes : Station → Prop

/-- A visit whose times the event can add to: it is not started before it was entered,
and not left before it was started. -/
structure Visit.Fits (scope : Scope) (visit : Visit) : Prop where
  ordered : visit.Ordered
  within : ∃ time ∈ scope.times,
    visit.enteredMs ≤ time ∧ ∀ started ∈ visit.startedMs, started ≤ time
  begins : visit.isOpen → scope.lots visit.lotId → scope.starts visit.station →
    visit.startedMs = none → visit.enteredMs ≤ scope.ts
  ends : visit.isOpen → scope.lots visit.lotId → scope.closes visit.station →
    visit.enteredMs ≤ scope.ts → ∀ started ∈ visit.startedMs, started ≤ scope.ts

def Fits (scope : Scope) (ledger : List Visit) : Prop :=
  ∀ visit ∈ ledger, visit.Fits scope

section Writes

variable {scope : Scope} {event : EventView} {lotId : String} {starts closes : Station → Prop}
  {visit next : Visit}

theorem Visit.Fits.congr (hfits : visit.Fits scope) (hplace : next.place = visit.place)
    (hentered : next.enteredMs = visit.enteredMs) (hstarted : next.startedMs = visit.startedMs)
    (hleft : next.leftMs = visit.leftMs) : next.Fits scope := by
  have hlot : next.lotId = visit.lotId := congrArg Prod.fst hplace
  have hstation : next.station = visit.station := congrArg Prod.snd hplace
  have hopen : next.isOpen = visit.isOpen := by rw [Visit.isOpen, hleft]; rfl
  constructor
  · constructor
    · rw [hentered, hstarted]
      exact hfits.ordered.started
    · rw [hstarted, hleft]
      exact hfits.ordered.left
  · rw [hentered, hstarted]
    exact hfits.within
  · rw [hopen, hlot, hstation, hstarted, hentered]
    exact hfits.begins
  · rw [hopen, hlot, hstation, hstarted, hentered]
    exact hfits.ends

theorem Visit.Fits.start (hvisit : visit.Fits scope)
    (hopen : visit.isOpen = true) (hlot : scope.lots visit.lotId)
    (hstarts : scope.starts visit.station) (hnot : visit.startedMs = none) (seq : Int) :
    ({ visit with startedMs := some scope.ts, sourceSeqLast := seq } : Visit).Fits scope := by
  have hentered := hvisit.begins hopen hlot hstarts hnot
  have hleft : visit.leftMs = none := isNone_iff_eq_none.mp hopen
  refine ⟨⟨?_, ?_⟩, ⟨scope.ts, scope.mem, hentered, ?_⟩, nofun, ?_⟩
  · intro started hstarted
    obtain rfl := some.inj hstarted
    exact hentered
  · intro started hstarted left hsome
    rw [show _ = none from hleft] at hsome
    cases hsome
  · intro started hstarted
    obtain rfl := some.inj hstarted
    exact le_refl _
  · intro _ _ _ _ started hstarted
    obtain rfl := some.inj hstarted
    exact le_refl _

theorem Visit.Fits.close (hvisit : visit.Fits scope)
    (hopen : visit.isOpen = true) (hlot : scope.lots visit.lotId)
    (hcloses : scope.closes visit.station) (hentered : visit.enteredMs ≤ scope.ts)
    (direction : Direction) (backTo : Option Station) (outcome : Option String) (seq : Int) :
    ({ visit with
        leftMs := some scope.ts
        direction := direction
        reworkTo := backTo
        outcome := outcome
        sourceSeqLast := seq } : Visit).Fits scope := by
  refine ⟨⟨hvisit.ordered.started, ?_⟩, hvisit.within, nofun,
    nofun⟩
  intro started hstarted left hleft
  obtain rfl : scope.ts = left := some.inj hleft
  exact hvisit.ends hopen hlot hcloses hentered started hstarted

theorem Visit.Fits.write (hfits : visit.Fits scope) (hts : event.tsMs = scope.ts)
    (hlots : scope.lots lotId) (hstarts : ∀ station, starts station → scope.starts station)
    (hcloses : ∀ station, closes station → scope.closes station)
    (hwrite : Write event lotId starts closes visit next) : next.Fits scope := by
  cases hwrite with
  | start hlot hopen hat hnot =>
    rw [hts]
    exact hfits.start hopen (hlot ▸ hlots) (hstarts _ hat) hnot event.seq
  | close hlot hopen hat hentered _ =>
    rw [hts]
    exact hfits.close hopen (hlot ▸ hlots) (hcloses _ hat) (hts ▸ hentered) ..
  | hold | holdFor | release => exact hfits.congr rfl rfl rfl rfl

theorem Fresh.fits {ledger : List Visit} (hfresh : Fresh event lotId ledger visit)
    (hts : event.tsMs = scope.ts) : visit.Fits scope := by
  have hentered : visit.enteredMs ≤ scope.ts := le_of_eq (hfresh.entered.trans hts)
  have hnone : ∀ started ∈ visit.startedMs, False := by
    intro started hstarted
    rw [hfresh.started] at hstarted
    cases hstarted
  exact ⟨⟨fun _ hstarted => (hnone _ hstarted).elim, fun _ hstarted => (hnone _ hstarted).elim⟩,
    ⟨scope.ts, scope.mem, hentered, fun _ hstarted => (hnone _ hstarted).elim⟩,
    fun _ _ _ _ => hentered, fun _ _ _ _ _ hstarted => (hnone _ hstarted).elim⟩

theorem Fits.moved {start tables : Tables} (hfits : Fits scope start.ledger)
    (hts : event.tsMs = scope.ts) (hlots : scope.lots lotId)
    (hstarts : ∀ station, starts station → scope.starts station)
    (hcloses : ∀ station, closes station → scope.closes station)
    (hmoved : Moved event lotId starts closes start tables) : Fits scope tables.ledger :=
  hmoved.ledger.forall_mem (fun _ _ hfresh => hfresh.fits hts)
    (fun _ _ hold hwrite => hold.write hts hlots hstarts hcloses hwrite) hfits

end Writes

def Scope.ofEvent (times : List Int) (event : EventView) : Scope :=
  { times := event.tsMs :: times
    ts := event.tsMs
    mem := List.mem_cons_self
    lots := fun _ => True
    starts := fun _ => True
    closes := fun _ => True }

structure InTime (times : List Int) (ledger : List Visit) : Prop where
  ordered : ∀ visit ∈ ledger, visit.Ordered
  within : ∀ visit ∈ ledger, ∃ time ∈ times,
    visit.enteredMs ≤ time ∧ ∀ started ∈ visit.startedMs, started ≤ time

theorem Fits.inTime {scope : Scope} {ledger : List Visit} (hfits : Fits scope ledger) :
    InTime scope.times ledger :=
  ⟨fun visit hvisit => (hfits visit hvisit).ordered,
    fun visit hvisit => (hfits visit hvisit).within⟩

theorem InTime.fits_ofEvent {times : List Int} {ledger : List Visit} (hin : InTime times ledger)
    {event : EventView} (hlatest : ∀ time ∈ times, time ≤ event.tsMs) :
    Fits (Scope.ofEvent times event) ledger := by
  intro visit hvisit
  obtain ⟨time, htime, hentered, hstarted⟩ := hin.within visit hvisit
  have hle := hlatest time htime
  exact ⟨hin.ordered visit hvisit, ⟨time, List.mem_cons_of_mem _ htime, hentered, hstarted⟩,
    fun _ _ _ _ => hentered.trans hle,
    fun _ _ _ _ started hmem => (hstarted started hmem).trans hle⟩

section Events

variable {times : List Int} {tables : Tables}

theorem InTime.renamed {start ledger : List Visit} (hin : InTime times start)
    (hrenamed : Table.Grows Renamed (fun _ _ => False) start ledger) : InTime times ledger := by
  constructor
  · refine hrenamed.forall_mem (fun _ _ hnone => hnone.elim) ?_ hin.ordered
    intro visit next hordered hsame
    rw [hsame]
    exact ⟨hordered.started, hordered.left⟩
  · refine hrenamed.forall_mem (fun _ _ hnone => hnone.elim) ?_ hin.within
    intro visit next hwithin hsame
    rw [hsame]
    exact hwithin

theorem InTime.apply (hin : InTime times tables.ledger) (evidence : Evidence)
    {event : EventView} (hlatest : ∀ time ∈ times, time ≤ event.tsMs) :
    InTime (event.tsMs :: times) (apply evidence tables event).ledger := by
  have hfits : Fits (Scope.ofEvent times event) (Flow.apply evidence tables event).ledger := by
    refine apply_keeps (Fits (Scope.ofEvent times event)) (fun _ => True) ?_
      (hin.fits_ofEvent hlatest) ?_
    · intro moved before next _ hkept hmoved
      exact hkept.moved rfl trivial (fun _ _ => trivial) (fun _ _ => trivial) hmoved
    · intro same hsame _
      have hjoined := (hsame ▸ hin).renamed (renamed_lotsFor same event)
      exact ⟨hjoined.fits_ofEvent hlatest, fun _ _ => trivial⟩
  exact hfits.inTime

end Events

def Delivery.starts (delivery : Delivery) (station : Station) : Bool :=
  (steps delivery.kind delivery.outcome).any fun step => step.starts station

def Delivery.closes (delivery : Delivery) (station : Station) : Bool :=
  (Text.startsWith delivery.kind "deploy." && station ∈ [Station.pin, .stage]) ||
    (steps delivery.kind delivery.outcome).any fun step => step.closes station

/-- No open visit of the pull request's lots has moved past the time of the delivery: none
that it would start was entered later, none that it would close was started later. -/
def NotOvertaken (tables : Tables) (delivery : Delivery) (revision : Revision) : Prop :=
  ∀ visit ∈ tables.ledger, visit.isOpen = true →
    visit.lotId ∈ lotIds tables [] revision.repo revision.pr →
      (delivery.starts visit.station = true → visit.startedMs = none →
        visit.enteredMs ≤ delivery.ts) ∧
      (delivery.closes visit.station = true → visit.enteredMs ≤ delivery.ts →
        ∀ started ∈ visit.startedMs, started ≤ delivery.ts)

instance (tables : Tables) (delivery : Delivery) (revision : Revision) :
    Decidable (NotOvertaken tables delivery revision) :=
  inferInstanceAs (Decidable (∀ visit ∈ tables.ledger, _))

def Scope.ofDelivery {times : List Int} (tables : Tables) (delivery : Delivery)
    (revision : Revision) (hmem : delivery.ts ∈ times) : Scope :=
  { times := times
    ts := delivery.ts
    mem := hmem
    lots := fun lotId => lotId ∈ lotIds tables [] revision.repo revision.pr
    starts := fun station => delivery.starts station = true
    closes := fun station => delivery.closes station = true }

section Deliveries

variable {times : List Int} {tables : Tables} {evidence : Evidence} {delivery : Delivery}
  {revision : Revision}

theorem lotsFor_delivery :
    (lotsFor tables (delivery.view revision)).1 = tables ∧
      ∀ moved ∈ (lotsFor tables (delivery.view revision)).2,
        moved.1.id ∈ lotIds tables [] revision.repo revision.pr := by
  have hswept : sweep tables (delivery.view revision) revision.repo = [] := by
    unfold sweep
    split <;> rfl
  have hlots : lotsFor tables (delivery.view revision) =
      (tables, (lotIds tables [] revision.repo revision.pr).map fun id =>
        ({ id := id, repo := some revision.repo, pr := some revision.pr,
           todoId := todoOf tables id }, false)) := by
    change (let swept := sweep tables (delivery.view revision) revision.repo
      let bound := swept.foldl
        (fun tables lot => bindPr tables lot.id revision.repo revision.pr) tables
      (bound, (lotIds bound swept revision.repo revision.pr).map fun id =>
        (({ id := id, repo := some revision.repo, pr := some revision.pr,
            todoId := todoOf bound id } : Lot), swept.any fun lot => lot.id = id))) = _
    rw [hswept]
    rfl
  rw [hlots]
  refine ⟨rfl, ?_⟩
  intro moved hmoved
  obtain ⟨id, hid, rfl⟩ := List.mem_map.mp hmoved
  exact hid

theorem InTime.deliver (hin : InTime times tables.ledger) (evidence : Evidence)
    (hmem : delivery.ts ∈ times) (hkept : NotOvertaken tables delivery revision) :
    InTime times
      (deliver evidence tables (delivery.view revision) delivery.repo delivery.sha).ledger := by
  have hfits : Fits (Scope.ofDelivery tables delivery revision hmem) tables.ledger := by
    intro visit hvisit
    exact ⟨hin.ordered visit hvisit, hin.within visit hvisit,
      fun hopen hlot => (hkept visit hvisit hopen hlot).1,
      fun hopen hlot => (hkept visit hvisit hopen hlot).2⟩
  obtain ⟨hsame, hlots⟩ := lotsFor_delivery
  have hall : Fits (Scope.ofDelivery tables delivery revision hmem)
      (Flow.deliver evidence tables (delivery.view revision) delivery.repo
        delivery.sha).ledger := by
    refine deliver_keeps _ (fun moved => moved.1.id ∈ lotIds tables [] revision.repo revision.pr)
      ?_ (by rw [hsame]; exact hfits) hlots _ _
    intro moved before next hlot hnext hmoved
    refine hnext.moved rfl hlot ?_ ?_ hmoved
    · rintro station ⟨step, hstep, hstarts⟩
      exact List.any_eq_true.mpr ⟨step, hstep, hstarts⟩
    · rintro station (⟨step, hstep, hcloses⟩ | ⟨hdeploy, hstation⟩)
      · exact Bool.or_eq_true_iff.mpr (.inr (List.any_eq_true.mpr ⟨step, hstep, hcloses⟩))
      · exact Bool.or_eq_true_iff.mpr (.inl (Bool.and_eq_true_iff.mpr
          ⟨hdeploy, decide_eq_true hstation⟩))
  exact hall.inTime

end Deliveries

structure Timeline where
  tables : Tables
  times : List Int

inductive TimelineAction where
  | event (evidence : Evidence) (view : EventView)
  | deliver (evidence : Evidence) (delivery : Delivery) (revision : Revision)
  | adopt (todoId repo : String) (pr : Int)

def timeline : Machine Timeline TimelineAction where
  start := { tables := Tables.empty, times := [] }
  step timeline
    | .event evidence view =>
      some
        { tables := apply evidence timeline.tables view
          times := view.tsMs :: timeline.times }
    | .deliver evidence delivery revision =>
      some { timeline with
        tables := deliver evidence timeline.tables (delivery.view revision) delivery.repo
          delivery.sha }
    | .adopt todoId repo pr =>
      some { timeline with tables := adopt timeline.tables todoId repo pr }

/-- The events come in the order of their times, and a delivery has the time of an event
before it. -/
def TimesInOrder (timeline : Timeline) : TimelineAction → Prop
  | .event _ view => ∀ time ∈ timeline.times, time ≤ view.tsMs
  | .deliver _ delivery _ => delivery.ts ∈ timeline.times
  | .adopt .. => True

def InTurn (timeline : Timeline) : TimelineAction → Prop
  | .deliver evidence delivery revision =>
    TimesInOrder timeline (.deliver evidence delivery revision) ∧
      NotOvertaken timeline.tables delivery revision
  | action => TimesInOrder timeline action

instance (timeline : Timeline) :
    (action : TimelineAction) → Decidable (TimesInOrder timeline action)
  | .event .. => inferInstanceAs (Decidable (∀ time ∈ _, _))
  | .deliver .. => inferInstanceAs (Decidable (_ ∈ _))
  | .adopt .. => isTrue trivial

instance (timeline : Timeline) : (action : TimelineAction) → Decidable (InTurn timeline action)
  | .event evidence view =>
    inferInstanceAs (Decidable (TimesInOrder timeline (.event evidence view)))
  | .deliver .. => inferInstanceAs (Decidable (_ ∧ _))
  | .adopt .. => isTrue trivial

theorem InTime.step {timeline next : Timeline} {action : TimelineAction}
    (hin : InTime timeline.times timeline.tables.ledger) (hturn : InTurn timeline action)
    (hstep : Flow.timeline.step timeline action = some next) :
    InTime next.times next.tables.ledger := by
  cases action with
  | event evidence view =>
    cases hstep
    exact hin.apply evidence hturn
  | deliver evidence delivery revision =>
    cases hstep
    exact hin.deliver evidence hturn.1 hturn.2
  | adopt todoId repo pr =>
    cases hstep
    exact hin.renamed (renamed_adopt ..)

/-- In every state of every run, a visit is entered before it is started and started before
it is left, if no delivery comes to a visit that has moved past its time. -/
theorem run_visits_ordered (actions : List TimelineAction) (final : Timeline)
    (hmeets : timeline.Meets InTurn actions) (hrun : timeline.run actions = some final) :
    ∀ visit ∈ final.tables.ledger, visit.Ordered := by
  have hin : InTime final.times final.tables.ledger := by
    refine timeline.run_invariant
      (motive := fun timeline => InTime timeline.times timeline.tables.ledger) ?_ ?_ hmeets hrun
    · exact ⟨(fun _ hvisit => nomatch hvisit), (fun _ hvisit => nomatch hvisit)⟩
    · exact fun _ _ _ hstate hturn hstep => hstate.step hturn hstep
  exact hin.ordered

def deployed (ts : Int) : Delivery :=
  { seq := ts
    ts := ts
    kind := "deploy.status"
    outcome := some "success"
    family := none
    repo := "acme/app"
    sha := "7777777777777777777777777777777777777777"
    detail := none }

def landedRevision : Revision :=
  { repo := "acme/app"
    pr := 7
    sha := "7777777777777777777777777777777777777777"
    family := none }

/-- A pull request is staged, some deployment succeeds, and only then the pull request's
own deployment starts; the reconciliation finds that the first one carried it too. -/
def lateDelivery : List TimelineAction :=
  [.event noEvidence (pullEvent 1 "release.staged" none 7),
    .event noEvidence { bareEvent 2 "deploy.status" with outcome := some "success" },
    .event noEvidence (pullEvent 3 "deploy.created" none 7),
    .deliver noEvidence (deployed 2) landedRevision]

/-- The visit is left at the time of the first deployment, before it was started. -/
theorem lateDelivery_leavesBeforeStart :
    timeline.Meets TimesInOrder lateDelivery ∧
      ∃ final, timeline.run lateDelivery = some final ∧
        ∃ visit ∈ final.tables.ledger,
          visit.startedMs = some 3 ∧ visit.leftMs = some 2 ∧ ¬ visit.Ordered := by
  refine ⟨by decide +kernel, (timeline.run lateDelivery).get (by decide +kernel),
    (some_get (by decide +kernel)).symm, ?_⟩
  decide +kernel

def timelyDelivery : List TimelineAction :=
  [.event noEvidence (pullEvent 1 "release.staged" none 7),
    .event noEvidence (pullEvent 2 "deploy.created" none 7),
    .event noEvidence { bareEvent 3 "deploy.status" with outcome := some "success" },
    .adopt "T1" "acme/app" 7,
    .deliver noEvidence (deployed 3) landedRevision]

theorem run_visits_ordered_timelyDelivery :
    ∃ final, timeline.run timelyDelivery = some final ∧
      (∃ visit ∈ final.tables.ledger, visit.startedMs = some 2 ∧ visit.leftMs = some 3) ∧
        ∀ visit ∈ final.tables.ledger, visit.Ordered :=
  ⟨(timeline.run timelyDelivery).get (by decide +kernel),
    (some_get (by decide +kernel)).symm, by decide +kernel,
    run_visits_ordered timelyDelivery _ (by decide +kernel)
      (some_get (by decide +kernel)).symm⟩

end JeryuForge.Flow
