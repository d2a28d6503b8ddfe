import JeryuForge.Flow.Project
import JeryuForge.Incidents.Ledger
import JeryuForge.Library.Inflation

/-!
# Human minutes

`change_human_minutes`: a mark charges the time since the person's last one to the row of its
day.  Marks only move forward, so what is charged in all depends on the marks that come after
every earlier one, and on nothing else.  A push lists its commits newest first; charged in that
order, only the newest of them counts.
-/

/-! ## Change outcomes -/

namespace JeryuForge.HumanTime

open Pipeline Text

inductive WorkKind where
  | change
  | rework
  | pinBump
deriving DecidableEq, Repr

/-- One row of `change_outcomes`, without its key. -/
structure Row where
  family : Option String
  repo : Option String
  workKind : WorkKind
  landedMs : Option Int
  failedMs : Option Int
  firstMs : Int
  lastMs : Int
deriving DecidableEq, Repr

abbrev Ledger := OrdMap String Row

inductive Effect where
  | seen
  | landed
  | failed
  | worked (kind : WorkKind)
deriving DecidableEq, Repr

structure Touch where
  lot : String
  family : Option String
  repo : Option String
  effect : Effect
deriving DecidableEq, Repr

def ensureLot (touch : Touch) (atMs : Int) : Option Row → Row
  | none =>
    { family := nonEmpty touch.family
      repo := nonEmpty touch.repo
      workKind := .change
      landedMs := none
      failedMs := none
      firstMs := atMs
      lastMs := atMs }
  | some row =>
    { row with
      family := row.family.or (nonEmpty touch.family)
      repo := row.repo.or (nonEmpty touch.repo)
      firstMs := min row.firstMs atMs
      lastMs := max row.lastMs atMs }

/-- What the effect writes into a row: the first landing and the first failure stay,
and so does a kind of work once it is more than a change. -/
def Effect.onto (effect : Effect) (atMs : Int) (row : Row) : Row :=
  match effect with
  | .seen => row
  | .landed => { row with landedMs := row.landedMs.or (some atMs) }
  | .failed => { row with failedMs := row.failedMs.or (some atMs) }
  | .worked kind => if row.workKind = .change then { row with workKind := kind } else row

def mark (atMs : Int) (ledger : Ledger) (touch : Touch) : Ledger :=
  ledger.insert touch.lot
    (touch.effect.onto atMs (ensureLot touch atMs (ledger.get? touch.lot)))

/-- The lot a mark or an event belongs to: its todo when one is named, else the lot the
flow ledger already keeps the pull request under, else the pull request itself. -/
def lotOf (flow : Flow.Tables) (todoId repo : Option String) (pr : Option Int) : Option String :=
  match nonEmpty todoId, nonEmpty repo, pr with
  | some todo, _, _ => some todo
  | none, some repo, some pr =>
    let known := Table.last? flow.ledger fun visit =>
      visit.repo = some repo && visit.pr = some pr
    some ((known.map Flow.Visit.lotId).getD (prLot repo pr))
  | none, _, _ => none

def eventTouch (flow : Flow.Tables) (event : NewEvent) (effect : Effect) : List Touch :=
  ((lotOf flow event.todoId event.repo event.pr).map fun lot =>
    { lot := lot, family := event.family, repo := event.repo, effect := effect }).toList

def reworkTouch (event : NewEvent) (detail : Json) : List Touch :=
  if Incidents.text detail "cause" = some "rework" then
    ((Incidents.text detail "by").map fun lot =>
      { lot := lot, family := event.family, repo := none, effect := .worked .rework }).toList
  else
    []

def incidentChanges (detail : Json) : List String :=
  match Incidents.changes detail with
  | .ok keys => keys
  | .error _ => []

def touches (flow : Flow.Tables) (event : NewEvent) : List Touch :=
  let detail := event.detail.getD (.object [])
  if event.kind = "pr.merged" then
    eventTouch flow event .landed
  else if event.kind = "defect.linked" then
    eventTouch flow event .failed ++ reworkTouch event detail
  else if event.kind = Incidents.causedBy then
    (incidentChanges detail).map fun key =>
      { lot := key, family := event.family, repo := none, effect := .failed }
  else if event.kind = "pin.bump_opened" then
    eventTouch flow event (.worked .pinBump)
  else
    []

def apply (flow : Flow.Tables) (ledger : Ledger) (event : NewEvent) (tsMs : Int) : Ledger :=
  (touches flow event).foldl (mark tsMs) ledger

structure Mark where
  actor : String
  atMs : Int
  family : Option String
  repo : Option String
  pr : Option Int
  todoId : Option String

/-- What charging a mark writes into `change_outcomes`; the minutes themselves are in a
table that no projection reads. -/
def charge (flow : Flow.Tables) (ledger : Ledger) (time : Mark) : Ledger :=
  match nonEmpty (some time.actor), lotOf flow time.todoId time.repo time.pr with
  | some _, some lot =>
    mark time.atMs ledger
      { lot := lot, family := time.family, repo := time.repo, effect := .seen }
  | _, _ => ledger

def namesLot (event : NewEvent) : Bool :=
  (nonEmpty event.todoId).isSome ||
    ((nonEmpty event.repo).isSome && event.pr.isSome)

def reportsChange (event : NewEvent) : Bool :=
  (event.kind ∈ ["pr.merged", "defect.linked", "pin.bump_opened"] && namesLot event) ||
    (event.kind = "defect.linked" &&
      Incidents.text (event.detail.getD (.object [])) "cause" = some "rework" &&
      (Incidents.text (event.detail.getD (.object [])) "by").isSome)

theorem lotOf_isSome (flow : Flow.Tables) (event : NewEvent) :
    (lotOf flow event.todoId event.repo event.pr).isSome = namesLot event := by
  unfold lotOf namesLot
  split
  next htodo =>
    simp [htodo]
  next htodo hrepo hpr =>
    simp [htodo, hrepo, hpr]
  next htodo hother =>
    cases hrepo : nonEmpty event.repo with
    | none => simp [htodo]
    | some repo =>
      cases hpr : event.pr with
      | none => simp [htodo]
      | some pr => exact absurd hpr (hother repo pr hrepo)

variable {event : NewEvent} {flow : Flow.Tables} {α : Type} {atMs : Int}

variable {effect : Effect} {old new : Option α} {first second row : Row} {touch : Touch}
  {ledger : Ledger}

theorem eventTouch_eq_nil_iff : eventTouch flow event effect = [] ↔ namesLot event = false := by
  rw [← lotOf_isSome flow]
  unfold eventTouch
  cases lotOf flow event.todoId event.repo event.pr <;> simp

theorem reworkTouch_eq_nil_iff {detail : Json} :
    reworkTouch event detail = [] ↔
      ¬ (Incidents.text detail "cause" = some "rework" ∧
        (Incidents.text detail "by").isSome) := by
  unfold reworkTouch
  split
  next hcause =>
    cases Incidents.text detail "by" <;> simp [hcause]
  next hcause =>
    simp [hcause]

theorem touches_eq_nil_iff (hkind : event.kind ≠ Incidents.causedBy) :
    touches flow event = [] ↔ reportsChange event = false := by
  unfold touches reportsChange
  split
  next hmerged =>
    rw [eventTouch_eq_nil_iff]
    simp [hmerged]
  · split
    next hdefect =>
      rw [List.append_eq_nil_iff, eventTouch_eq_nil_iff, reworkTouch_eq_nil_iff]
      simp [hdefect]
    · -- the branch of `incident.caused_by` is closed by `hkind`
      split
      next hpin =>
        rw [eventTouch_eq_nil_iff]
        simp [hpin]
      next hmerged hdefect hpin =>
        simp [hmerged, hdefect, hpin]

def Keeps {α : Type} (old new : Option α) : Prop :=
  ∀ value, old = some value → new = some value

theorem Keeps.or (old : Option α) (value : Option α) : Keeps old (old.or value) := by
  rintro kept rfl
  rfl

theorem Keeps.antisymm (hold : Keeps old new) (hnew : Keeps new old) : old = new := by
  cases old with
  | some value => exact (hold value rfl).symm
  | none =>
    cases new with
    | none => rfl
    | some value => exact hnew value rfl

structure Row.Below (old new : Row) : Prop where
  family : Keeps old.family new.family
  repo : Keeps old.repo new.repo
  workKind : old.workKind ≠ .change → new.workKind = old.workKind
  landed : Keeps old.landedMs new.landedMs
  failed : Keeps old.failedMs new.failedMs
  first : new.firstMs ≤ old.firstMs
  last : old.lastMs ≤ new.lastMs

theorem Row.Below.trans {first second third : Row}
    (hfirst : first.Below second) (hsecond : second.Below third) : first.Below third where
  family := fun value h => hsecond.family value (hfirst.family value h)
  repo := fun value h => hsecond.repo value (hfirst.repo value h)
  workKind := fun hkind => by
    have hsame := hfirst.workKind hkind
    rw [hsecond.workKind (hsame ▸ hkind), hsame]
  landed := fun value h => hsecond.landed value (hfirst.landed value h)
  failed := fun value h => hsecond.failed value (hfirst.failed value h)
  first := hsecond.first.trans hfirst.first
  last := hfirst.last.trans hsecond.last

theorem Row.Below.antisymm
    (hfirst : first.Below second) (hsecond : second.Below first) : first = second := by
  have hkind : first.workKind = second.workKind := by
    by_cases hplain : first.workKind = .change
    · by_cases hother : second.workKind = .change
      · rw [hplain, hother]
      · exact hsecond.workKind hother
    · exact (hfirst.workKind hplain).symm
  have hfamily := hfirst.family.antisymm hsecond.family
  have hrepo := hfirst.repo.antisymm hsecond.repo
  have hlanded := hfirst.landed.antisymm hsecond.landed
  have hfailed := hfirst.failed.antisymm hsecond.failed
  have hstart := le_antisymm hsecond.first hfirst.first
  have hend := le_antisymm hfirst.last hsecond.last
  cases first
  cases second
  simp_all

instance : PartialOrder Row where
  le := Row.Below
  le_refl row := ⟨fun _ h => h, fun _ h => h, fun _ => rfl, fun _ h => h, fun _ h => h,
    le_refl _, le_refl _⟩
  le_trans _ _ _ := Row.Below.trans
  le_antisymm _ _ := Row.Below.antisymm

theorem le_ensureLot (touch : Touch) (atMs : Int) (row : Row) :
    row ≤ ensureLot touch atMs (some row) :=
  ⟨Keeps.or _ _, Keeps.or _ _, fun _ => rfl, fun _ h => h, fun _ h => h,
    min_le_left .., le_max_left ..⟩

theorem Effect.le_onto (effect : Effect) (atMs : Int) (row : Row) : row ≤ effect.onto atMs row := by
  cases effect with
  | seen => exact le_refl row
  | landed =>
    exact ⟨fun _ h => h, fun _ h => h, fun _ => rfl, Keeps.or _ _, fun _ h => h,
      le_refl _, le_refl _⟩
  | failed =>
    exact ⟨fun _ h => h, fun _ h => h, fun _ => rfl, fun _ h => h, Keeps.or _ _,
      le_refl _, le_refl _⟩
  | worked kind =>
    unfold Effect.onto
    dsimp only
    split
    next hplain =>
      exact ⟨fun _ h => h, fun _ h => h, fun hkind => absurd hplain hkind, fun _ h => h,
        fun _ h => h, le_refl _, le_refl _⟩
    · exact le_refl row

theorem le_mark (atMs : Int) (ledger : Ledger) (touch : Touch) :
    ledger ≤ mark atMs ledger touch := by
  refine OrdMap.le_insert fun old hold => ?_
  rw [hold]
  exact (le_ensureLot touch atMs old).trans (touch.effect.le_onto atMs _)

theorem exists_get?_apply (htouches : touches flow event ≠ []) (ledger : Ledger) (tsMs : Int) :
    ∃ lot row, (apply flow ledger event tsMs).get? lot = some row := by
  obtain ⟨touch, rest, hcons⟩ := List.exists_cons_of_ne_nil htouches
  have hle : mark tsMs ledger touch ≤ apply flow ledger event tsMs := by
    unfold apply
    rw [hcons]
    exact Inflation.le_foldl (le_mark tsMs) rest _
  obtain ⟨row, hrow, _⟩ := hle touch.lot _ (OrdMap.get?_insert_self ..)
  exact ⟨touch.lot, row, hrow⟩

def Effect.Done (effect : Effect) (row : Row) : Prop :=
  match effect with
  | .seen => True
  | .landed => row.landedMs.isSome
  | .failed => row.failedMs.isSome
  | .worked kind => row.workKind = .change → kind = .change

instance : (effect : Effect) → (row : Row) → Decidable (effect.Done row)
  | .seen, _ => isTrue trivial
  | .landed, _ | .failed, _ => inferInstanceAs (Decidable (_ = _))
  | .worked _, _ => inferInstanceAs (Decidable (_ → _))

@[mk_iff]
structure Row.Covers (row : Row) (touch : Touch) (atMs : Int) : Prop where
  family : (nonEmpty touch.family).isSome → row.family.isSome
  repo : (nonEmpty touch.repo).isSome → row.repo.isSome
  first : row.firstMs ≤ atMs
  last : atMs ≤ row.lastMs
  effect : touch.effect.Done row

instance (row : Row) (touch : Touch) (atMs : Int) : Decidable (row.Covers touch atMs) :=
  decidable_of_iff' _ (Row.covers_iff row touch atMs)

def Settled (ledger : Ledger) (touch : Touch) (atMs : Int) : Prop :=
  ∃ row ∈ ledger.get? touch.lot, row.Covers touch atMs

instance (ledger : Ledger) (touch : Touch) (atMs : Int) : Decidable (Settled ledger touch atMs) :=
  inferInstanceAs (Decidable (∃ row ∈ ledger.get? touch.lot, row.Covers touch atMs))

theorem or_eq_self_iff : old.or new = old ↔ (new.isSome → old.isSome) := by
  cases old with
  | some value => simp
  | none => cases new <;> simp

theorem ensureLot_eq_self_iff :
    ensureLot touch atMs (some row) = row ↔
      ((nonEmpty touch.family).isSome → row.family.isSome) ∧
        ((nonEmpty touch.repo).isSome → row.repo.isSome) ∧
        row.firstMs ≤ atMs ∧ atMs ≤ row.lastMs := by
  rw [← or_eq_self_iff, ← or_eq_self_iff]
  constructor
  · intro hsame
    exact ⟨congrArg Row.family hsame, congrArg Row.repo hsame,
      min_eq_left_iff.mp (congrArg Row.firstMs hsame),
      max_eq_left_iff.mp (congrArg Row.lastMs hsame)⟩
  · rintro ⟨hfamily, hrepo, hfirst, hlast⟩
    simp only [ensureLot, hfamily, hrepo, min_eq_left hfirst, max_eq_left hlast]

theorem Effect.onto_eq_self_iff : effect.onto atMs row = row ↔ effect.Done row := by
  cases effect with
  | seen => simp [Effect.onto, Effect.Done]
  | landed =>
    have hdone : row.landedMs.or (some atMs) = row.landedMs ↔ row.landedMs.isSome := by
      rw [or_eq_self_iff]
      simp
    rw [Effect.Done, ← hdone]
    exact ⟨congrArg Row.landedMs, fun hsame => by simp only [Effect.onto, hsame]⟩
  | failed =>
    have hdone : row.failedMs.or (some atMs) = row.failedMs ↔ row.failedMs.isSome := by
      rw [or_eq_self_iff]
      simp
    rw [Effect.Done, ← hdone]
    exact ⟨congrArg Row.failedMs, fun hsame => by simp only [Effect.onto, hsame]⟩
  | worked kind =>
    unfold Effect.onto Effect.Done
    dsimp only
    split
    next hplain =>
      constructor
      · intro hsame _
        exact (congrArg Row.workKind hsame).trans hplain
      · intro hkind
        rw [hkind hplain, ← hplain]
    next hother =>
      simp [hother]

theorem mark_eq_self_iff : mark atMs ledger touch = ledger ↔ Settled ledger touch atMs := by
  unfold mark Settled
  rw [OrdMap.insert_eq_self_iff]
  cases hrow : ledger.get? touch.lot with
  | none => simp
  | some row =>
    simp only [Option.some.injEq, Option.mem_def, exists_eq_left']
    constructor
    · intro hsame
      -- neither of the two writes can undo the other
      have hseen : ensureLot touch atMs (some row) = row :=
        le_antisymm ((touch.effect.le_onto atMs _).trans_eq hsame.symm)
          (le_ensureLot touch atMs row)
      rw [hseen] at hsame
      obtain ⟨hfamily, hrepo, hfirst, hlast⟩ := ensureLot_eq_self_iff.mp hseen
      exact ⟨hfamily, hrepo, hfirst, hlast, Effect.onto_eq_self_iff.mp hsame.symm⟩
    · intro hcovers
      have hseen : ensureLot touch atMs (some row) = row :=
        ensureLot_eq_self_iff.mpr
          ⟨hcovers.family, hcovers.repo, hcovers.first, hcovers.last⟩
      rw [hseen, Effect.onto_eq_self_iff.mpr hcovers.effect]

theorem apply_eq_self_iff {tsMs : Int} :
    apply flow ledger event tsMs = ledger ↔
      ∀ touch ∈ touches flow event, Settled ledger touch tsMs := by
  unfold apply
  rw [Inflation.foldl_eq_self_iff (le_mark tsMs)]
  exact forall₂_congr fun _ _ => mark_eq_self_iff

open List

def idleGapMs : Int := 15 * 60 * 1000

def markFloorMs : Int := 60 * 1000

inductive Source where
  | review
  | commit
  | session
  | triage
deriving DecidableEq

/-- Whose time a row counts: that of one person on one lot, from one source. -/
structure Account where
  lot : String
  source : Source
  actor : String
deriving DecidableEq

/-- One row of `change_human_minutes`.  Its `minutes` is a REAL that charges are added to in
floating point; the table is over any numbers with an addition, and `minutesOf` below is what so
many milliseconds are among them (`ms as f64 / 60_000.0`). -/
structure DayRow (Minutes : Type) where
  account : Account
  day : String
  minutes : Minutes
  marks : Nat
  lastMs : Int

def chargedMs (previous : Option Int) (atMs : Int) : Int :=
  match previous with
  | some previous =>
    if atMs > previous ∧ atMs - previous ≤ idleGapMs then atMs - previous
    else if atMs ≤ previous then 0
    else markFloorMs
  | none => markFloorMs

section Charge

variable {Minutes : Type}

/-- `SELECT MAX(last_ms)`. -/
def previousMs (rows : List (DayRow Minutes)) (account : Account) : Option Int :=
  ((rows.filter fun row => row.account = account).map DayRow.lastMs).max?

variable [Add Minutes]

/-- `INSERT … ON CONFLICT(lot_id, source, actor, day) DO UPDATE`. -/
def addToDay (new : DayRow Minutes) : List (DayRow Minutes) → List (DayRow Minutes)
  | [] => [new]
  | row :: rest =>
    if row.account = new.account ∧ row.day = new.day then
      { row with
        minutes := row.minutes + new.minutes
        marks := row.marks + 1
        lastMs := max row.lastMs new.lastMs } :: rest
    else
      row :: addToDay new rest

variable (minutesOf : Int → Minutes)

def chargeLot (dayOf : Int → String) (account : Account) (rows : List (DayRow Minutes))
    (atMs : Int) : List (DayRow Minutes) :=
  if (previousMs rows account).any fun previous => previous ≥ atMs then rows
  else
    addToDay
      { account := account
        day := dayOf atMs
        minutes := minutesOf (chargedMs (previousMs rows account) atMs)
        marks := 1
        lastMs := atMs } rows

def accountOf (flow : Flow.Tables) (source : Source) (actor : String) (todoId repo : Option String)
    (pr : Option Int) : Option Account :=
  match nonEmpty (some actor), lotOf flow todoId repo pr with
  | some actor, some lot => some { lot := lot, source := source, actor := actor }
  | _, _ => none

def chargeMinutes (dayOf : Int → String) (flow : Flow.Tables) (rows : List (DayRow Minutes))
    (source : Source) (time : Mark) : List (DayRow Minutes) :=
  match accountOf flow source time.actor time.todoId time.repo time.pr with
  | some account => chargeLot minutesOf dayOf account rows time.atMs
  | none => rows

/-- A mark at or after this time is kept. -/
abbrev Reached (previous : Option Int) (atMs : Int) : Prop :=
  ∃ last ∈ previous, atMs ≤ last

variable {minutesOf} {dayOf : Int → String} {rows : List (DayRow Minutes)}
  {account other : Account} {atMs newest : Int} {times : List Int}

omit [Add Minutes] in
theorem previousMs_cons (row : DayRow Minutes) :
    previousMs (row :: rows) account =
      if row.account = account then
        some ((previousMs rows account).elim row.lastMs (max row.lastMs))
      else previousMs rows account := by
  by_cases hrow : row.account = account
  · simp [previousMs, hrow, max?_cons]
  · simp [previousMs, hrow]

theorem previousMs_addToDay (new : DayRow Minutes) :
    previousMs (addToDay new rows) account =
      if new.account = account then
        some ((previousMs rows account).elim new.lastMs (max new.lastMs))
      else previousMs rows account := by
  induction rows with
  | nil => rw [addToDay, previousMs_cons]
  | cons row rest ih =>
    rw [addToDay]
    by_cases hday : row.account = new.account ∧ row.day = new.day
    · rw [if_pos hday, previousMs_cons, previousMs_cons, hday.1]
      split
      · cases previousMs rest account <;> simp <;> omega
      · rfl
    · rw [if_neg hday, previousMs_cons, ih, previousMs_cons]
      by_cases hrow : row.account = account
      · by_cases hnew : new.account = account
        · simp only [hrow, hnew, if_true]
          cases previousMs rest account <;> simp <;> omega
        · simp only [hrow, hnew, if_true, if_false]
      · simp only [hrow, if_false]

theorem chargeLot_of_reached (hreached : Reached (previousMs rows account) atMs) :
    chargeLot minutesOf dayOf account rows atMs = rows := by
  obtain ⟨last, hlast, hle⟩ := hreached
  rw [Option.mem_def] at hlast
  simp [chargeLot, hlast, hle]

theorem chargeLot_of_not_reached (hnew : ¬ Reached (previousMs rows account) atMs) :
    chargeLot minutesOf dayOf account rows atMs =
      addToDay
        { account := account
          day := dayOf atMs
          minutes := minutesOf (chargedMs (previousMs rows account) atMs)
          marks := 1
          lastMs := atMs } rows := by
  rw [chargeLot, if_neg]
  intro hany
  obtain ⟨last, hlast, hle⟩ := (Option.any_eq_true _ _).mp hany
  exact hnew ⟨last, hlast, of_decide_eq_true hle⟩

theorem previousMs_chargeLot (hnew : ¬ Reached (previousMs rows account) atMs) :
    previousMs (chargeLot minutesOf dayOf account rows atMs) account = some atMs := by
  rw [chargeLot_of_not_reached hnew, previousMs_addToDay, if_pos rfl]
  cases hlast : previousMs rows account with
  | none => rfl
  | some last =>
    have hafter : last < atMs := by simpa [hlast] using hnew
    exact congrArg some (max_eq_left hafter.le)

theorem reached_chargeLot (before : Int) :
    Reached (previousMs (chargeLot minutesOf dayOf account rows atMs) account) before ↔
      Reached (previousMs rows account) before ∨ before ≤ atMs := by
  by_cases hreached : Reached (previousMs rows account) atMs
  · rw [chargeLot_of_reached hreached]
    obtain ⟨last, hlast, hle⟩ := hreached
    exact ⟨.inl, fun hor => hor.elim id fun hbefore => ⟨last, hlast, hbefore.trans hle⟩⟩
  · rw [previousMs_chargeLot hreached]
    have hafter : ∀ last ∈ previousMs rows account, last < atMs := by
      simpa [Reached] using hreached
    simp only [Reached, Option.mem_some_iff, exists_eq_left']
    refine ⟨.inr, fun hor => hor.elim (fun ⟨last, hlast, hle⟩ => ?_) id⟩
    exact hle.trans (hafter last hlast).le

theorem foldl_chargeLot_of_reached (hall : ∀ atMs ∈ times, Reached (previousMs rows account) atMs) :
    times.foldl (chargeLot minutesOf dayOf account) rows = rows := by
  induction times with
  | nil => rfl
  | cons first rest ih =>
    rw [foldl_cons, chargeLot_of_reached (hall first mem_cons_self)]
    exact ih fun atMs hmem => hall atMs (mem_cons_of_mem _ hmem)

/-- If one time only is not behind the kept marks, the order of the times does not count. -/
theorem foldl_chargeLot_eq (hnewest : newest ∈ times)
    (hall : ∀ atMs ∈ times, Reached (previousMs rows account) atMs ∨ atMs = newest) :
    times.foldl (chargeLot minutesOf dayOf account) rows =
      chargeLot minutesOf dayOf account rows newest := by
  induction times with
  | nil => cases hnewest
  | cons first rest ih =>
    obtain ⟨hfirst, hrest⟩ := forall_mem_cons.mp hall
    rw [foldl_cons]
    by_cases hsame : first = newest
    · subst hsame
      refine foldl_chargeLot_of_reached fun atMs hmem => (reached_chargeLot atMs).mpr ?_
      exact (hrest atMs hmem).imp id fun hone => hone.le
    · rw [chargeLot_of_reached (hfirst.resolve_right hsame)]
      exact ih ((mem_cons.mp hnewest).resolve_left (Ne.symm hsame)) hrest

end Charge

/-- The table with milliseconds in place of minutes. -/
def chargeAll (dayOf : Int → String) (marks : List (Account × Int)) : List (DayRow Int) :=
  marks.foldl (fun rows mark => chargeLot id dayOf mark.1 rows mark.2) []

def totalMs (rows : List (DayRow Int)) (account : Account) : Int :=
  ((rows.filter fun row => row.account = account).map DayRow.minutes).sum

def timesOf (account : Account) (marks : List (Account × Int)) : List Int :=
  (marks.filter fun mark => mark.1 = account).map Prod.snd

def advancing (earlier : List Int) : List Int → List Int
  | [] => []
  | atMs :: rest =>
    if ∀ before ∈ earlier, before < atMs then atMs :: advancing (atMs :: earlier) rest
    else advancing (atMs :: earlier) rest

def gapMs (previous atMs : Int) : Int :=
  if atMs - previous ≤ idleGapMs then atMs - previous else markFloorMs

def sessions (previous : Option Int) : List Int → Int
  | [] => 0
  | atMs :: rest => previous.elim markFloorMs (gapMs · atMs) + sessions (some atMs) rest

section Total

variable {dayOf : Int → String} {rows : List (DayRow Int)} {account other : Account} {atMs : Int}
  {marks : List (Account × Int)}

theorem totalMs_addToDay (new : DayRow Int) :
    totalMs (addToDay new rows) account =
      totalMs rows account + if new.account = account then new.minutes else 0 := by
  induction rows with
  | nil => by_cases hnew : new.account = account <;> simp [addToDay, totalMs, hnew]
  | cons row rest ih =>
    rw [addToDay]
    simp only [totalMs, filter_cons] at ih ⊢
    by_cases hday : row.account = new.account ∧ row.day = new.day
    · rw [if_pos hday, filter_cons]
      by_cases hnew : new.account = account
      · simp only [hday.1, hnew, decide_true, if_true, map_cons, sum_cons]
        omega
      · simp [hday.1, hnew]
    · rw [if_neg hday, filter_cons]
      by_cases hrow : row.account = account
      · simp only [hrow, decide_true, if_true, map_cons, sum_cons, ih]
        omega
      · simpa [hrow] using ih

theorem chargedMs_of_not_reached {previous : Option Int} (hnew : ¬ Reached previous atMs) :
    chargedMs previous atMs = previous.elim markFloorMs (gapMs · atMs) := by
  cases previous with
  | none => rfl
  | some previous =>
    have hafter : previous < atMs := by simpa [Reached] using hnew
    simp [chargedMs, gapMs, hafter, not_le.mpr hafter]

/-- The marks of others do not count. -/
theorem chargeLot_of_ne (hother : other ≠ account) :
    previousMs (chargeLot id dayOf other rows atMs) account = previousMs rows account ∧
      totalMs (chargeLot id dayOf other rows atMs) account = totalMs rows account := by
  by_cases hreached : Reached (previousMs rows other) atMs
  · rw [chargeLot_of_reached hreached]
    exact ⟨rfl, rfl⟩
  · rw [chargeLot_of_not_reached hreached, previousMs_addToDay, totalMs_addToDay, if_neg hother,
      if_neg hother, Int.add_zero]
    exact ⟨rfl, rfl⟩

theorem reached_foldl (before : Int) :
    Reached (previousMs
        (marks.foldl (fun rows mark => chargeLot id dayOf mark.1 rows mark.2) rows)
        account) before ↔
      Reached (previousMs rows account) before ∨ ∃ atMs ∈ timesOf account marks, before ≤ atMs := by
  induction marks generalizing rows with
  | nil => simp [timesOf]
  | cons mark rest ih =>
    rw [foldl_cons, ih]
    by_cases hsame : mark.1 = account
    · subst hsame
      rw [reached_chargeLot]
      simp [timesOf, or_assoc]
    · rw [(chargeLot_of_ne hsame).1]
      simp [timesOf, hsame]

/-- The newest mark that is kept stands for all the earlier ones. -/
theorem totalMs_foldl {earlier : List Int}
    (hearlier : ∀ atMs, (∀ before ∈ earlier, before < atMs) ↔
      ¬ Reached (previousMs rows account) atMs) :
    totalMs (marks.foldl (fun rows mark => chargeLot id dayOf mark.1 rows mark.2) rows) account =
      totalMs rows account +
        sessions (previousMs rows account) (advancing earlier (timesOf account marks)) := by
  induction marks generalizing rows earlier with
  | nil => simp [timesOf, advancing, sessions]
  | cons mark rest ih =>
    rw [foldl_cons]
    by_cases hsame : mark.1 = account
    · subst hsame
      have hnext : ∀ atMs, (∀ before ∈ mark.2 :: earlier, before < atMs) ↔
          ¬ Reached (previousMs (chargeLot id dayOf mark.1 rows mark.2) mark.1) atMs :=
            fun atMs => by
        rw [forall_mem_cons, hearlier, reached_chargeLot, not_or, not_le, and_comm]
      have htimes : timesOf mark.1 (mark :: rest) = mark.2 :: timesOf mark.1 rest := by
        simp [timesOf]
      rw [ih hnext, htimes, advancing]
      by_cases hreached : Reached (previousMs rows mark.1) mark.2
      · rw [if_neg fun hall => (hearlier mark.2).mp hall hreached, chargeLot_of_reached hreached]
      · rw [if_pos ((hearlier mark.2).mpr hreached), previousMs_chargeLot hreached,
          chargeLot_of_not_reached hreached, totalMs_addToDay, if_pos rfl, sessions, id,
          chargedMs_of_not_reached hreached, Int.add_assoc]
    · rw [ih (by rwa [(chargeLot_of_ne hsame).1]), (chargeLot_of_ne hsame).1,
        (chargeLot_of_ne hsame).2]
      simp [timesOf, hsame]

end Total

/-- What an account is charged in all is what its advancing marks are worth, on whatever days
they fall; a mark that repeats an earlier one or lies before it leaves the rows as they are. -/
theorem chargeAll_total (dayOf : Int → String) (marks : List (Account × Int)) (account : Account) :
    totalMs (chargeAll dayOf marks) account = sessions none (advancing [] (timesOf account marks)) ∧
      ∀ atMs, (∃ before ∈ timesOf account marks, atMs ≤ before) →
        chargeLot id dayOf account (chargeAll dayOf marks) atMs = chargeAll dayOf marks := by
  constructor
  · have hstart : ∀ atMs, (∀ before ∈ ([] : List Int), before < atMs) ↔
        ¬ Reached (previousMs ([] : List (DayRow Int)) account) atMs := by simp [previousMs]
    rw [chargeAll, totalMs_foldl hstart]
    simp [totalMs, previousMs]
  · exact fun atMs hbefore => chargeLot_of_reached ((reached_foldl atMs).mpr (.inr hbefore))

/-! ## The commits of a push -/

def maxCommits : Nat := 200

structure PushedCommit where
  email : String
  atMs : Int
deriving DecidableEq

structure Host where
  dayOf : Int → String
  nowMs : Int
  toLowercase : String → String
  personForEmail : String → Option String

/-- A line of `parse_commits`. -/
def parseCommit (host : Host) (line : String) : Option PushedCommit := do
  let (email, time) ← splitOnce (trim line) '\u001f'
  let seconds ← parseI64 (trim time)
  let atMs ← if isI64 (seconds * 1000) then some (seconds * 1000) else none
  if atMs > host.nowMs + 60000 then none
  else if (trim email).isEmpty then none
  else some { email := host.toLowercase (trim email), atMs := atMs }

def pushCommits (host : Host) (log : List String) : List PushedCommit :=
  (log.take maxCommits).filterMap (parseCommit host)

structure PushedPull where
  repo : String
  number : Int
  family : Option String

section Push

variable {Minutes : Type} [Add Minutes] (minutesOf : Int → Minutes)

def chargeCommit (host : Host) (flow : Flow.Tables) (pull : PushedPull)
    (rows : List (DayRow Minutes)) (commit : PushedCommit) : List (DayRow Minutes) :=
  match host.personForEmail commit.email with
  | some login =>
    chargeMinutes minutesOf host.dayOf flow rows .commit
      { actor := login
        atMs := commit.atMs
        family := pull.family
        repo := some pull.repo
        pr := some pull.number
        todoId := none }
  | none => rows

def recordPush (host : Host) (flow : Flow.Tables) (pull : PushedPull)
    (rows : List (DayRow Minutes)) (log : List String) : List (DayRow Minutes) :=
  (pushCommits host log).foldl (chargeCommit minutesOf host flow pull) rows

/-- The times after the stored mark are one time. -/
def OneTime (previous : Option Int) (times : List Int) : Prop :=
  ∀ first ∈ times, ∀ second ∈ times, ¬ Reached previous first → ¬ Reached previous second →
    first = second

variable {minutesOf} {rows : List (DayRow Minutes)} {account : Account} {host : Host}

theorem pushCommits_eq {log : List String} {commits : List PushedCommit}
    (hlog : log.map (parseCommit host) = commits.map some) :
    pushCommits host log = commits.take maxCommits := by
  have hparsed : pushCommits host log =
      ((log.map (parseCommit host)).take maxCommits).filterMap id := by
    simp [pushCommits, ← map_take, filterMap_map]
  rw [hparsed, hlog, ← map_take]
  simp [filterMap_map]

theorem foldl_chargeCommit {flow : Flow.Tables} {pull : PushedPull}
    {login : String} {commits : List PushedCommit}
    (hperson : ∀ commit ∈ commits, host.personForEmail commit.email = some login)
    (haccount : accountOf flow .commit login none (some pull.repo) (some pull.number) =
      some account) :
    commits.foldl (chargeCommit minutesOf host flow pull) rows =
      (commits.map PushedCommit.atMs).foldl (chargeLot minutesOf host.dayOf account) rows := by
  rw [foldl_map]
  refine foldl_ext _ _ _ fun rows commit hmem => ?_
  simp only [chargeCommit, hperson commit hmem, chargeMinutes, haccount]

/-- Either no time counts, or the newest is the one that does. -/
theorem OneTime.reached_or_newest {previous : Option Int} {newest : Int} {rest : List Int}
    (hone : OneTime previous (newest :: rest)) (hnewest : (newest :: rest).Pairwise (· ≥ ·)) :
    ∀ atMs ∈ newest :: rest, Reached previous atMs ∨ atMs = newest := by
  intro atMs hmem
  by_cases hreached : Reached previous newest
  · obtain ⟨last, hlast, hle⟩ := hreached
    have hbefore : atMs ≤ newest := by
      rcases mem_cons.mp hmem with rfl | hin
      · exact le_rfl
      · exact (pairwise_cons.mp hnewest).1 atMs hin
    exact .inl ⟨last, hlast, hbefore.trans hle⟩
  · by_cases hbehind : Reached previous atMs
    · exact .inl hbehind
    · exact .inr (hone atMs hmem newest mem_cons_self hbehind hreached)

/-- A push of commits of one person, listed newest first, leaves the table that its commits would
leave in the order of time, in whatever arithmetic the minutes are added, if those after the stored
mark have one time. -/
theorem recordPush_in_order (minutesOf : Int → Minutes) (host : Host) (flow : Flow.Tables)
    (pull : PushedPull) (rows : List (DayRow Minutes)) (login : String) (account : Account)
    (log : List String) (commits : List PushedCommit)
    (hlog : log.map (parseCommit host) = commits.map some)
    (hnewest : (commits.map PushedCommit.atMs).Pairwise (· ≥ ·))
    (hperson : ∀ commit ∈ commits, host.personForEmail commit.email = some login)
    (haccount : accountOf flow .commit login none (some pull.repo) (some pull.number) =
      some account)
    (hone : OneTime (previousMs rows account) (commits.map PushedCommit.atMs)) :
    recordPush minutesOf host flow pull rows log =
      commits.reverse.foldl (chargeCommit minutesOf host flow pull) rows := by
  rw [recordPush, pushCommits_eq hlog,
    foldl_chargeCommit (fun commit hmem => hperson commit (mem_of_mem_take hmem)) haccount,
    foldl_chargeCommit (fun commit hmem => hperson commit (mem_reverse.mp hmem)) haccount,
    map_take, map_reverse]
  generalize commits.map PushedCommit.atMs = times at hnewest hone ⊢
  cases times with
  | nil => rfl
  | cons newest rest =>
    have hall := hone.reached_or_newest hnewest
    have hfirst : newest ∈ (newest :: rest).take maxCommits := mem_cons_self
    rw [foldl_chargeLot_eq hfirst fun atMs hmem => hall atMs (mem_of_mem_take hmem),
      foldl_chargeLot_eq (mem_reverse.mpr mem_cons_self) fun atMs hmem =>
        hall atMs (mem_reverse.mp hmem)]

end Push

def annHost : Host where
  dayOf _ := "1970-01-01"
  nowMs := 3600000
  toLowercase := id
  personForEmail _ := some "ann"

def annPull : PushedPull := { repo := "acme/forge", number := 1, family := none }

def annAccount : Account := { lot := "acme/forge#1", source := .commit, actor := "ann" }

def annLog : List String := ["ann@acme\u001f660", "ann@acme\u001f60"]

def annCommits : List PushedCommit :=
  [{ email := "ann@acme", atMs := 660000 }, { email := "ann@acme", atMs := 60000 }]

/-- The minutes without rounding. -/
def exactMinutes (ms : Int) : Rat := ms / 60000

/-- The first push to the pull request is charged one minute instead of eleven, whole numbers that
no rounding touches. -/
theorem annLog_charged_floor :
    annLog.map (parseCommit annHost) = annCommits.map some ∧
      (recordPush exactMinutes annHost Flow.Tables.empty annPull [] annLog).map
        (fun row => (row.account, row.minutes)) = [(annAccount, 1)] ∧
      (annCommits.reverse.foldl
        (chargeCommit exactMinutes annHost Flow.Tables.empty annPull) []).map
        (fun row => (row.account, row.minutes)) = [(annAccount, 11)] := by
  decide +kernel

/-- An earlier push left a mark at the older of the two commits. -/
theorem recordPush_in_order_marked :
    ∃ rows, previousMs rows annAccount = some 60000 ∧
      recordPush exactMinutes annHost Flow.Tables.empty annPull rows annLog =
        annCommits.reverse.foldl (chargeCommit exactMinutes annHost Flow.Tables.empty annPull)
          rows :=
  ⟨chargeLot exactMinutes annHost.dayOf annAccount [] 60000, by decide +kernel,
    recordPush_in_order exactMinutes annHost Flow.Tables.empty annPull _ "ann" annAccount annLog
      annCommits (by decide +kernel) (by decide +kernel) (by decide +kernel) (by decide +kernel)
      (by unfold OneTime; decide +kernel)⟩

end JeryuForge.HumanTime
