import JeryuForge.Flow.Times

/-!
# Lots held by a red gate

A gate that came back red holds the lot where it stands.  Reruns, reviews and queueing leave the
hold alone; a gate result, a landing or another head may end it.
-/

namespace JeryuForge.Flow

open Pipeline Option

/-! ## The shape of a visit -/

structure Visit.Shaped (visit : Visit) : Prop where
  left : visit.leftMs = none ↔ visit.direction = .open ∨ visit.direction = .hold
  back : visit.reworkTo.isSome = true ↔ visit.direction = .rework

variable {visit next : Visit} {event : EventView} {lotId : String}
  {starts closes : Station → Prop}

theorem Visit.Shaped.of_standing (hleft : visit.leftMs = none)
    (hback : visit.reworkTo = none) (hstands : visit.direction = .open ∨ visit.direction = .hold) :
    visit.Shaped := by
  constructor
  · exact iff_of_true hleft hstands
  · rcases hstands with hdirection | hdirection <;> simp [hback, hdirection]

theorem Visit.Shaped.standing (hshaped : visit.Shaped)
    (hopen : visit.isOpen = true) : visit.leftMs = none ∧ visit.reworkTo = none := by
  have hleft : visit.leftMs = none := isNone_iff_eq_none.mp hopen
  refine ⟨hleft, ?_⟩
  cases hback : visit.reworkTo with
  | none => rfl
  | some station =>
    have hrework := hshaped.back.mp (by rw [hback]; rfl)
    rcases hshaped.left.mp hleft with hdirection | hdirection <;>
      exact nomatch hrework.symm.trans hdirection

theorem Visit.Shaped.write (hshaped : visit.Shaped)
    (hwrite : Write event lotId starts closes visit next) : next.Shaped := by
  obtain ⟨hleft, hback⟩ := hshaped.standing (place_of_write hwrite).1
  cases hwrite with
  | start => exact .of_standing hleft hback (hshaped.left.mp hleft)
  | close _ _ _ _ hleaving => cases hleaving <;> exact ⟨by simp, by simp⟩
  | hold | holdFor => exact .of_standing hleft hback (.inr rfl)
  | release => exact .of_standing hleft hback (.inl rfl)

def Shaped (ledger : List Visit) : Prop :=
  ∀ visit ∈ ledger, visit.Shaped

theorem Shaped.moved {start tables : Tables} (hshaped : Shaped start.ledger)
    (hmoved : Moved event lotId starts closes start tables) : Shaped tables.ledger :=
  hmoved.ledger.forall_mem
    (fun _ _ hfresh => .of_standing hfresh.left hfresh.reworkTo (.inl hfresh.direction))
    (fun _ _ hkept hwrite => hkept.write hwrite) hshaped

theorem Shaped.renamed {start ledger : List Visit} (hshaped : Shaped start)
    (hrenamed : Table.Grows Renamed (fun _ _ => False) start ledger) : Shaped ledger :=
  hrenamed.forall_mem (fun _ _ hnone => hnone.elim)
    (fun _ _ hkept hsame => hsame ▸ ⟨hkept.left, hkept.back⟩) hshaped

theorem Shaped.step {state next : Timeline} {action : TimelineAction}
    (hshaped : Shaped state.tables.ledger) (hstep : timeline.step state action = some next) :
    Shaped next.tables.ledger := by
  cases action with
  | event evidence view =>
    cases hstep
    refine apply_keeps Shaped (fun _ => True)
      (fun _ _ _ _ hkept hmoved => hkept.moved hmoved) hshaped ?_
    intro same hsame _
    exact ⟨(hsame ▸ hshaped).renamed (renamed_lotsFor same view), fun _ _ => trivial⟩
  | deliver evidence delivery revision =>
    cases hstep
    exact deliver_keeps Shaped (fun _ => True) (fun _ _ _ _ hkept hmoved => hkept.moved hmoved)
      (hshaped.renamed (renamed_lotsFor ..)) (fun _ _ => trivial) _ _
  | adopt todoId repo pr =>
    cases hstep
    exact hshaped.renamed (renamed_adopt ..)

/-- Whatever events, adoptions and deliveries were folded, every visit has the shape of its
direction. -/
theorem run_shaped (actions : List TimelineAction) (final : Timeline)
    (hrun : timeline.run actions = some final) :
    ∀ visit ∈ final.tables.ledger,
      (visit.leftMs = none ↔ visit.direction = .open ∨ visit.direction = .hold) ∧
        (visit.reworkTo.isSome = true ↔ visit.direction = .rework) := by
  have hshaped : Shaped final.tables.ledger :=
    timeline.run_invariant_always (motive := fun state => Shaped state.tables.ledger)
      (fun _ hvisit => nomatch hvisit) (fun _ _ _ hstate hstep => hstate.step hstep) hrun
  intro visit hvisit
  exact ⟨(hshaped visit hvisit).left, (hshaped visit hvisit).back⟩

theorem run_shaped_lateDelivery :
    ∃ final, timeline.run lateDelivery = some final ∧
      ∀ visit ∈ final.tables.ledger,
        (visit.leftMs = none ↔ visit.direction = .open ∨ visit.direction = .hold) ∧
          (visit.reworkTo.isSome = true ↔ visit.direction = .rework) :=
  ⟨(timeline.run lateDelivery).get (by decide +kernel), (some_get (by decide +kernel)).symm,
    run_shaped lateDelivery _ (some_get (by decide +kernel)).symm⟩

/-! ## Lots held by a red gate -/

open List Bool

structure Visit.HeldRed (visit : Visit) : Prop where
  station : visit.station = .gate
  isOpen : visit.isOpen = true
  direction : visit.direction = .hold
  reason : visit.holdReason.isSome = true

def gateResult (event : EventView) (outcomes : List String) : Bool :=
  event.kind ∈ ["gate.finished", "gate.log"] && event.outcome.any (· ∈ outcomes)

def bringsOtherHead (ledger : List Visit) (event : EventView) : Bool :=
  bringsHead event.kind && ledger.any fun visit =>
    visit.station = .gate && visit.isOpen && visit.holdSha.isSome &&
      (headSha event).isSome && visit.holdSha != headSha event

def endsHold (ledger : List Visit) (event : EventView) : Bool :=
  gateResult event ["success"] ||
    event.kind ∈ ["queue.landed", "pr.merged", "todo.merged"] || bringsOtherHead ledger event

def endsUndecided (event : EventView) : Bool :=
  gateResult event ["error", "timed_out", "inputs_changed"]

def Action.view : Action → EventView
  | .event _ view | .deliver _ view _ _ => view

theorem any_ite {p : Step → Bool} {c goal : Prop} [Decidable c] {first second : List Step}
    (hfirst : c → first.any p = true → goal) (hsecond : second.any p = true → goal)
    (hany : (if c then first else second).any p = true) : goal := by
  by_cases hc : c
  · rw [if_pos hc] at hany
    exact hfirst hc hany
  · rw [if_neg hc] at hany
    exact hsecond hany

variable {step : Step} {event : EventView}

theorem closes_gate {kind : String} {outcome : Option String}
    (hstep : step ∈ steps kind outcome) (hcloses : step.closes .gate = true) :
    kind ∈ ["queue.landed", "pr.merged", "todo.merged"] ∨
      kind ∈ ["gate.finished", "gate.log"] ∧ outcome.getD "" ∈
        ["success", "error", "timed_out", "inputs_changed"] := by
  refine (?_ : (steps kind outcome).any (fun step => step.closes .gate) = true → _)
    (any_eq_true.mpr ⟨step, hstep, hcloses⟩)
  unfold steps
  dsimp only
  -- one branch for each kind and outcome; all but three close no gate visit
  repeat' first | with_reducible apply any_ite | intro _
  all_goals first
    | exact absurd ‹any _ _ = true› (by decide)
    | exact .inl ‹_›
    | exact .inr ⟨‹_›, mem_cons.mpr (.inl ‹_›)⟩
    | exact .inr ⟨‹_›, mem_cons_of_mem _ ‹_›⟩

theorem gateResult_of_getD {outcomes : List String}
    (hkind : event.kind ∈ ["gate.finished", "gate.log"])
    (houtcome : event.outcome.getD "" ∈ outcomes) (hnamed : "" ∉ outcomes) :
    gateResult event outcomes = true := by
  unfold gateResult
  cases hsome : event.outcome with
  | none =>
    rw [hsome] at houtcome
    exact absurd houtcome hnamed
  | some outcome =>
    rw [hsome] at houtcome
    exact and_eq_true_iff.mpr ⟨decide_eq_true hkind, decide_eq_true houtcome⟩

theorem mem_steps_of_mem_eventSteps
    (hstep : step ∈ eventSteps event) (hcloses : step.closes .gate = true) :
    step ∈ steps event.kind event.outcome := by
  unfold eventSteps at hstep
  split_ifs at hstep
  · cases hstep
  · rw [mem_singleton.mp hstep] at hcloses
    cases hcloses
  · rw [mem_singleton.mp hstep] at hcloses
    cases hcloses
  · exact hstep

theorem not_closes_gate {ledger : List Visit}
    (hends : endsHold ledger event = false) (hdecided : endsUndecided event = false)
    (hstep : step ∈ steps event.kind event.outcome) : step.closes .gate = false := by
  by_contra hcloses
  simp only [endsHold, or_eq_false_iff, decide_eq_false_iff_not] at hends
  rcases closes_gate hstep (not_eq_false _ ▸ hcloses) with hlands | ⟨hkind, houtcome⟩
  · exact hends.1.2 hlands
  · rcases mem_cons.mp houtcome with hsuccess | hundecided
    · have hpassed := gateResult_of_getD hkind
        (mem_singleton.mpr hsuccess : _ ∈ ["success"]) (by decide)
      exact nomatch hpassed.symm.trans hends.1.1
    · have hrerun := gateResult_of_getD hkind hundecided (by decide)
      exact nomatch hrerun.symm.trans hdecided

/-- The visit at the place is held by a red gate, and the event brings no head other than the one
gate visits are held on. -/
structure Red (index : Nat) (event : EventView) (ledger : List Visit) : Prop where
  held : ∃ visit, ledger[index]? = some visit ∧ visit.HeldRed
  sameHead : bringsHead event.kind = true → ∀ visit ∈ ledger, visit.station = .gate →
    visit.isOpen = true → ∀ sha ∈ visit.holdSha, ∀ head ∈ headSha event, sha = head

section Steps

variable {index : Nat} {event : EventView} {ledger : List Visit}

variable {lotId : String} {starts closes : Station → Prop} {tables : Tables}

theorem Visit.HeldRed.write {visit next : Visit} (hred : visit.HeldRed) (hopen : ¬closes .gate)
    (hwrite : Write event lotId starts closes visit next) : next.HeldRed := by
  cases hwrite with
  | start => exact ⟨hred.station, hred.isOpen, hred.direction, hred.reason⟩
  | close _ _ hcloses =>
    rw [hred.station] at hcloses
    exact absurd hcloses hopen
  | hold => exact ⟨hred.station, hred.isOpen, rfl, hred.reason⟩
  | holdFor => exact ⟨hred.station, hred.isOpen, rfl, rfl⟩
  | release _ _ hfree =>
    have hreason := hred.reason
    rcases hfree with hnone | hmerge
    · rw [hnone] at hreason
      cases hreason
    · exact nomatch hred.station.symm.trans hmerge

theorem Red.moved {start : Tables} (hred : Red index event start.ledger) (hopen : ¬closes .gate)
    (hmoved : Moved event lotId starts closes start tables) : Red index event tables.ledger where
  held := by
    obtain ⟨visit, hvisit, hheld⟩ := hred.held
    exact hmoved.ledger.getElem?_keeps (fun _ _ hold hwrite => hold.write hopen hwrite) hvisit hheld
  sameHead := by
    intro hbrings
    refine hmoved.ledger.forall_mem ?_ ?_ (hred.sameHead hbrings)
    · intro _ visit hfresh _ _ sha hsha
      rw [hfresh.holdSha] at hsha
      cases hsha
    · intro visit next hsame hwrite
      cases hwrite with
      | start => exact hsame
      | close => exact fun _ hstill => nomatch hstill
      | hold => exact hsame
      | holdFor => exact fun _ _ sha hsha head hhead => some.inj (hsha.symm.trans hhead)
      | release => exact hsame

theorem Red.renamed {start : List Visit} (hred : Red index event start)
    (hrenamed : Table.Grows Renamed (fun _ _ => False) start ledger) : Red index event ledger where
  held := by
    obtain ⟨visit, hvisit, hheld⟩ := hred.held
    refine hrenamed.getElem?_keeps (fun row next hrow hsame => ?_) hvisit hheld
    rw [hsame]
    exact ⟨hrow.station, hrow.isOpen, hrow.direction, hrow.reason⟩
  sameHead := by
    intro hbrings
    refine hrenamed.forall_mem (fun _ _ hnone => hnone.elim) ?_ (hred.sameHead hbrings)
    intro row next hrow hsame
    rw [hsame]
    exact hrow

theorem Red.not_stale (hred : Red index event ledger)
    (hledger : tables.ledger = ledger) {lot : Lot} (hbrings : bringsHead event.kind = true) :
    .gate ∉ staleHolds tables event lot := by
  intro hstale
  obtain ⟨visit, hvisit, hstation⟩ := mem_map.mp hstale
  obtain ⟨hmem, hhit⟩ := mem_filter.mp hvisit
  simp only [and_eq_true] at hhit
  obtain ⟨sha, hsha⟩ := isSome_iff_exists.mp hhit.1.1.2
  obtain ⟨head, hhead⟩ := isSome_iff_exists.mp hhit.1.2
  have hdiffer := hhit.2
  rw [hsha, hhead, hred.sameHead hbrings visit (hledger ▸ hmem) hstation hhit.1.1.1.1.1.1.2 sha
    hsha head hhead] at hdiffer
  simp at hdiffer

end Steps

theorem Red.perform {index : Nat} {tables : Tables} {action : Action}
    (hred : Red index action.view tables.ledger)
    (hends : endsHold tables.ledger action.view = false)
    (hdecided : endsUndecided action.view = false) :
    Red index action.view (perform tables action).ledger := by
  have hnot : ∀ step ∈ steps action.view.kind action.view.outcome, ¬step.closes .gate = true :=
    fun step hstep => not_eq_true _ ▸ not_closes_gate hends hdecided hstep
  cases action with
  | event evidence view =>
    refine apply_keeps (Red index view) (fun _ => True) ?_ hred ?_
    · intro moved before next _ hkept hmoved
      refine hkept.moved ?_ hmoved
      rintro (⟨step, hstep, hcloses⟩ | ⟨hbrings, hstale⟩ | hwork | hshift)
      · exact hnot step (mem_steps_of_mem_eventSteps hstep hcloses) hcloses
      · exact hkept.not_stale rfl hbrings hstale
      · cases hwork
      · cases hshift
    · intro same hsame _
      have hstart : Red index view same.ledger := hsame ▸ hred
      exact ⟨hstart.renamed (renamed_lotsFor same view), fun _ _ => trivial⟩
  | deliver evidence view shipper revision =>
    refine deliver_keeps (Red index view) (fun _ => True) ?_
      (hred.renamed (renamed_lotsFor ..)) (fun _ _ => trivial) shipper revision
    intro moved before next _ hkept hmoved
    refine hkept.moved ?_ hmoved
    rintro (⟨step, hstep, hcloses⟩ | ⟨_, hstation⟩)
    · exact hnot step hstep hcloses
    · simp at hstation

theorem sameHead_of_not_bringsOtherHead {ledger : List Visit} {event : EventView}
    (hsame : bringsOtherHead ledger event = false) (hbrings : bringsHead event.kind = true) :
    ∀ visit ∈ ledger, visit.station = .gate → visit.isOpen = true →
      ∀ sha ∈ visit.holdSha, ∀ head ∈ headSha event, sha = head := by
  intro visit hvisit hstation hopen sha hsha head hhead
  by_contra hdiffer
  refine absurd ?_ (not_eq_true _ ▸ hsame)
  refine and_eq_true_iff.mpr ⟨hbrings, any_eq_true.mpr ⟨visit, hvisit, ?_⟩⟩
  have hsha : visit.holdSha = some sha := hsha
  have hhead : headSha event = some head := hhead
  simp [hstation, hopen, hsha, hhead, hdiffer]

/-- A visit held by a red gate stays held, whatever follows, until a gate success, a landing or
another head ends the hold, if no gate ends without a verdict. -/
theorem runFrom_stays_held (tables final : Tables) (index : Nat) (visit : Visit)
    (hvisit : tables.ledger[index]? = some visit) (hred : visit.HeldRed) (actions : List Action)
    (hends : machine.MeetsFrom
      (fun tables action => endsHold tables.ledger action.view = false) tables actions)
    (hdecided : machine.MeetsFrom
      (fun _ action => endsUndecided action.view = false) tables actions)
    (hrun : machine.runFrom tables actions = some final) :
    ∃ last, final.ledger[index]? = some last ∧ last.HeldRed ∧
      heldAt final last.lotId .gate = true := by
  have hlast : ∃ last, final.ledger[index]? = some last ∧ last.HeldRed := by
    refine machine.runFrom_invariant
      (motive := fun tables => ∃ visit, tables.ledger[index]? = some visit ∧ visit.HeldRed)
      ?_ ⟨visit, hvisit, hred⟩ (Machine.MeetsFrom.and machine hends hdecided) hrun
    intro state action next hheld hmeets hstep
    have hnext : perform state action = next := some.inj hstep
    rw [← hnext]
    have hother : bringsOtherHead state.ledger action.view = false :=
      (or_eq_false_iff.mp hmeets.1).2
    have hstart : Red index action.view state.ledger :=
      ⟨hheld, sameHead_of_not_bringsOtherHead hother⟩
    exact (hstart.perform hmeets.1 hmeets.2).held
  obtain ⟨last, hget, hheld⟩ := hlast
  refine ⟨last, hget, hheld, any_eq_true.mpr ⟨last, mem_of_getElem? hget, ?_⟩⟩
  have hat := isOpenAt_iff.mpr ⟨rfl, hheld.station, hheld.isOpen⟩
  exact and_eq_true_iff.mpr ⟨hat, decide_eq_true hheld.direction⟩

def onHead (seq : Int) (kind : String) (outcome : Option String) : Action :=
  .event noEvidence
    { pullEvent seq kind none 7 with outcome := outcome, sha := some "5a1c" }

def redPull : Tables :=
  (machine.run [onHead 1 "pr.opened" none, onHead 2 "gate.finished" (some "failure")]).getD
    Tables.empty

/-- A second gate on the same head fails to run: the lot now waits at an open gate. -/
theorem redPull_released_by_error :
    (openVisits redPull "acme/app#7" .gate).map
        (fun visit => (visit.direction, visit.holdReason, visit.holdSha)) =
      [(.hold, some "gate_red", some "5a1c")] ∧
    endsHold redPull.ledger (onHead 3 "gate.finished" (some "error")).view = false ∧
    (openVisits (perform redPull (onHead 3 "gate.finished" (some "error")))
        "acme/app#7" .gate).map Visit.direction = [.open] := by
  decide +kernel

def redAgain : List Action :=
  [onHead 3 "gate.started" none, onHead 4 "review.started" none,
    onHead 5 "gate.log" (some "failure")]

theorem runFrom_stays_held_redAgain :
    ∃ final last, machine.runFrom redPull redAgain = some final ∧
      final.ledger[1]? = some last ∧ last.HeldRed ∧ heldAt final last.lotId .gate = true := by
  obtain ⟨visit, hvisit⟩ : ∃ visit, redPull.ledger[1]? = some visit :=
    isSome_iff_exists.mp (by decide +kernel)
  have hheld : (redPull.ledger[1]?.any fun visit => visit.station = .gate && visit.isOpen &&
      visit.direction = .hold && visit.holdReason.isSome) = true := by decide +kernel
  have hred : visit.HeldRed := by
    rw [hvisit] at hheld
    simp only [any_some, and_eq_true, decide_eq_true_eq] at hheld
    exact ⟨hheld.1.1.1, hheld.1.1.2, hheld.1.2, hheld.2⟩
  obtain ⟨final, hrun⟩ : ∃ final, machine.runFrom redPull redAgain = some final :=
    isSome_iff_exists.mp rfl
  obtain ⟨last, hlast⟩ := runFrom_stays_held redPull final 1 visit hvisit hred redAgain
    (by decide +kernel) (by decide +kernel) hrun
  exact ⟨final, last, hrun, hlast⟩

end JeryuForge.Flow
