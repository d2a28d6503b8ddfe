import JeryuForge.Flow.Once
import JeryuForge.Pipeline.Writes

/-!
# Events that are posted again

An event posted again is recognised as long as the log holds it.  After the log has
been pruned, the cost, flow and outcome ledgers still recognise it by the keys they
keep; the incident ledger and the change outcomes keep no keys.
-/

namespace JeryuForge.Pipeline

open Option

open Relation (ReflTransGen)

variable {codec : Codec}

structure Grows (store next : Store) : Prop where
  cost : ∀ row ∈ store.cost, row ∈ next.cost
  flow : ∀ reporter eventId, Knows store.flow.events reporter eventId →
    Knows next.flow.events reporter eventId
  outcomes : ∀ reporter eventId, Knows store.outcomes.events reporter eventId →
    Knows next.outcomes.events reporter eventId

theorem Grows.refl (store : Store) : Grows store store :=
  ⟨fun _ hrow => hrow, fun _ _ hknown => hknown, fun _ _ hknown => hknown⟩

variable {first second store : Store} {cost : List CostRow} {row : LogRow} {eventId : String}

theorem Grows.trans {third : Store} (hfirst : Grows first second) (hsecond : Grows second third) :
    Grows first third :=
  ⟨fun row hrow => hsecond.cost row (hfirst.cost row hrow), fun reporter eventId hknown =>
      hsecond.flow reporter eventId (hfirst.flow reporter eventId hknown),
    fun reporter eventId hknown =>
      hsecond.outcomes reporter eventId (hfirst.outcomes reporter eventId hknown)⟩

theorem mem_recordCost {old : CostRow} (hold : old ∈ cost) : old ∈ recordCost cost row := by
  unfold recordCost
  split
  · exact hold
  · split
    · exact hold
    · exact List.mem_append_left _ hold

theorem Writes.grows {next : Store} (hwrites : Writes codec store next) : Grows store next := by
  cases hwrites with
  | row row hstored =>
    obtain ⟨_, outcomes, houtcomes, rfl⟩ := storeRow_eq_ok hstored
    exact ⟨fun _ hold => mem_recordCost hold, fun _ _ hknown => Flow.knows_apply hknown,
      fun _ _ hknown => Outcomes.knows_apply houtcomes hknown⟩
  | reports row _ hprojected =>
    obtain ⟨incidents, _, rfl⟩ := projectReports_eq_ok hprojected
    exact ⟨fun _ hold => hold, fun _ _ hknown => hknown, fun _ _ hknown => hknown⟩
  | prune nowMs =>
    unfold Pipeline.prune
    split
    · exact ⟨fun _ hold => hold, fun _ _ hknown => hknown, fun _ _ hknown => hknown⟩
    · exact Grows.refl store
  | delivery delivery revisions =>
    refine ⟨fun _ hold => hold, fun reporter eventId hknown => ?_, fun _ _ hknown => hknown⟩
    unfold Pipeline.applyDelivery
    dsimp only
    rw [Flow.applyDelivery_events]
    exact hknown
  | charge mark =>
    unfold chargeHumanMinutes
    exact ⟨fun _ hold => hold, fun _ _ hknown => hknown, fun _ _ hknown => hknown⟩
  | reopen => exact ⟨fun _ hold => hold, fun _ _ hknown => hknown, fun _ _ hknown => hknown⟩

theorem grows_of_reaches {final : Store} (hwrites : ReflTransGen (Writes codec) store final) :
    Grows store final := by
  induction hwrites with
  | refl => exact Grows.refl store
  | tail _ hlast ih => exact ih.trans hlast.grows

/-- No call drops a cost row or an event id that the flow or outcome ledger knows, pruning
included. -/
theorem runFrom_grows {actions : List Action} {final : Store}
    (hrun : (machine codec).runFrom store actions = some final) : Grows store final :=
  grows_of_reaches (runFrom_writes hrun)

theorem runFrom_grows_pruned :
    ∃ store final, (machine monthStarts).run [.insert "forge" pullOpened 1000] = some store ∧
      (machine monthStarts).runFrom store [.insert "ops" notice 2678402000] = some final ∧
      store.cost ≠ [] ∧ final.log.length = 1 ∧ Grows store final :=
  ⟨_, _, (some_get (by decide +kernel)).symm, (some_get (by decide +kernel)).symm,
    by decide +kernel, by decide +kernel, runFrom_grows (some_get (by decide +kernel)).symm⟩

def Logged (log : List LogRow) (reporter eventId : String) : Prop :=
  ∃ row ∈ log, row.reporter = reporter ∧ row.eventId = some eventId

instance (log : List LogRow) (reporter eventId : String) :
    Decidable (Logged log reporter eventId) :=
  inferInstanceAs (Decidable (∃ row ∈ _, _))

theorem existing_eq_none_iff {log : List LogRow} {reporter : String} :
    existing log reporter (some eventId) = none ↔ ¬ Logged log reporter eventId := by
  simp [existing, Logged]

structure Folded (store : Store) (reporter : String) (event : NewEvent) (eventId : String) :
    Prop where
  cost : ∀ costUsd, event.costUsd = some costUsd → ¬ costUsd < 0 →
    ∃ row ∈ store.cost, row.isOf reporter event.eventId
  flow : ∀ row : LogRow, row.toNewEvent = event → Flow.eventSteps row.view ≠ [] →
    Knows store.flow.events reporter eventId
  outcomes : ∀ row : LogRow, row.toNewEvent = event → Outcomes.relevant row.view →
    Knows store.outcomes.events reporter eventId

theorem Folded.mono {next : Store} {reporter : String} {event : NewEvent}
    (hfolded : Folded store reporter event eventId) (hgrows : Grows store next) :
    Folded next reporter event eventId where
  cost := fun costUsd hcost hpositive => by
    obtain ⟨row, hrow, hof⟩ := hfolded.cost costUsd hcost hpositive
    exact ⟨row, hgrows.cost row hrow, hof⟩
  flow := fun row hrow hsteps => hgrows.flow _ _ (hfolded.flow row hrow hsteps)
  outcomes := fun row hrow hrelevant =>
    hgrows.outcomes _ _ (hfolded.outcomes row hrow hrelevant)

theorem eventSteps_congr {first second : LogRow} (hsame : first.toNewEvent = second.toNewEvent) :
    Flow.eventSteps first.view = Flow.eventSteps second.view := by
  obtain ⟨other, _, _, _⟩ := second
  cases hsame
  rfl

theorem relevant_congr {first second : LogRow} (hsame : first.toNewEvent = second.toNewEvent) :
    Outcomes.relevant first.view = Outcomes.relevant second.view := by
  obtain ⟨other, _, _, _⟩ := second
  cases hsame
  rfl

theorem exists_recordCost {costUsd : Rat} (hid : row.eventId = some eventId)
    (hcost : row.costUsd = some costUsd) (hpositive : ¬ costUsd < 0) :
    ∃ kept ∈ recordCost cost row, kept.isOf row.reporter row.eventId := by
  unfold recordCost
  rw [hcost]
  dsimp only
  split
  next hskipped =>
    have hany : (cost.any fun other => other.isOf row.reporter row.eventId) = true := by
      simpa [hpositive] using hskipped
    exact List.any_eq_true.mp hany
  · exact ⟨_, List.mem_append_right _ (List.mem_singleton.mpr rfl), by simp [CostRow.isOf, hid]⟩

theorem folded_of_storeRow {store stored : Store} {row : LogRow} {eventId : String}
    (hid : row.eventId = some eventId) (hname : eventId ≠ "")
    (hstored : storeRow codec store row = .ok stored) :
    Folded stored row.reporter row.toNewEvent eventId := by
  obtain ⟨_, outcomes, houtcomes, rfl⟩ := storeRow_eq_ok hstored
  refine ⟨?_, ?_, ?_⟩
  · intro costUsd hcost hpositive
    exact exists_recordCost hid hcost hpositive
  · intro other hother hsteps
    rw [eventSteps_congr hother] at hsteps
    dsimp only
    rw [Flow.apply_events, if_neg (by simpa using hsteps)]
    exact knows_foldedOnce hid hname
  · intro other hother hrelevant
    rw [relevant_congr hother] at hrelevant
    dsimp only
    rw [Outcomes.apply_events houtcomes, if_pos hrelevant]
    exact knows_foldedOnce hid hname

theorem recordCost_again (hknown : ∀ costUsd, row.costUsd = some costUsd → ¬ costUsd < 0 →
      ∃ old ∈ cost, old.isOf row.reporter row.eventId) : recordCost cost row = cost := by
  unfold recordCost
  split
  · rfl
  next costUsd hcost =>
    by_cases hpositive : costUsd < 0
    · simp [hpositive]
    · have hany := List.any_eq_true.mpr (hknown costUsd hcost hpositive)
      rw [hany]
      simp

theorem storeRow_again {store : Store} (row : LogRow) {eventId : String}
    (hid : row.eventId = some eventId) (hname : eventId ≠ "")
    (hnone : existing store.log row.reporter row.eventId = none)
    (hfolded : Folded store row.reporter row.toNewEvent eventId) :
    ∃ stored, storeRow codec store row = .ok stored ∧ stored.ledgers = store.ledgers ∧
      stored.incidents = store.incidents := by
  obtain ⟨hvisits, hactivity⟩ := Flow.apply_again
    (evidenceOf codec (store.log ++ [row]) row.seq) row.view hid hname (hfolded.flow row rfl)
  have houtcomes := Outcomes.apply_again
    (Flow.apply (evidenceOf codec (store.log ++ [row]) row.seq) store.flow row.view)
    row.view hid hname (hfolded.outcomes row rfl)
  have hcost := recordCost_again hfolded.cost
  unfold storeRow
  rw [hnone]
  dsimp only [isSome_none]
  rw [houtcomes]
  refine ⟨_, rfl, ?_, rfl⟩
  simp only [Store.ledgers, hvisits, hactivity, hcost]

theorem projectReports_ledgers_iff {projected : Store} {newest : Int}
    (hbounded : Incidents.Bounded store.incidents newest) (hlt : newest < row.seq)
    (hprojected : projectReports codec store row = .ok projected) :
    projected.ledgers = store.ledgers ↔
      Incidents.isIncidentKind row.kind = false ∧
        ∀ touch ∈ HumanTime.touches store.flow row.toNewEvent,
          HumanTime.Settled store.changes touch row.tsMs := by
  obtain ⟨incidents, hincidents, rfl⟩ := projectReports_eq_ok hprojected
  rw [← HumanTime.apply_eq_self_iff]
  cases hkind : Incidents.isIncidentKind row.kind with
  | true =>
    have hchanged := hbounded.apply_ne hlt hkind hincidents
    constructor
    · intro hsame
      exact absurd (congrArg Ledgers.incidents hsame) hchanged
    · rintro ⟨hother, _⟩
      cases hother
  | false =>
    rw [Incidents.apply_of_not_incident hkind] at hincidents
    cases hincidents
    constructor
    · intro hsame
      exact ⟨rfl, congrArg Ledgers.changes hsame⟩
    · rintro ⟨_, hsame⟩
      simp only [Store.ledgers, hsame]

theorem insert_again {store earlier : Store} {row : LogRow} {incidents : Incidents.Tables}
    {reporter : String} {event : NewEvent} {eventId : String} {againMs : Int}
    (hsound : Sound store) (hid : event.eventId = some eventId) (hname : eventId ≠ "")
    (hnone : existing store.log reporter event.eventId = none)
    (hfolded : Folded store reporter event eventId)
    (hreported : Incidents.apply (fun text => (codec.parseTime text).toOption)
      earlier.incidents reporter event row.tsMs row.seq = .ok incidents) :
    ∃ next inserted, insert codec store reporter event againMs = .ok (next, inserted) ∧
      (next.ledgers = store.ledgers ↔
        Incidents.isIncidentKind event.kind = false ∧
          ∀ touch ∈ HumanTime.touches store.flow event,
            HumanTime.Settled store.changes touch againMs) := by
  obtain ⟨stored, hstored, hledgers, hkept⟩ := storeRow_again
    (newRow store reporter event againMs) hid hname hnone hfolded
  obtain ⟨again, hagain⟩ := Incidents.apply_succeeds_again hreported stored.incidents
    againMs (store.seq + 1)
  obtain ⟨projected, hprojected⟩ : ∃ projected,
      projectReports codec stored (newRow store reporter event againMs) = .ok projected := by
    unfold projectReports newRow
    exact ⟨_, by rw [hagain]⟩
  have hbounded : Incidents.Bounded stored.incidents store.seq := hkept ▸ hsound.bounded
  have hlt : store.seq < (newRow store reporter event againMs).seq :=
    Int.lt_add_one_iff.mpr (le_refl store.seq)
  have hiff := projectReports_ledgers_iff hbounded hlt hprojected
  obtain ⟨inserted, hinserted⟩ := exists_insert hnone hstored hprojected
  refine ⟨prune projected againMs, inserted, hinserted, ?_⟩
  have hflow := congrArg Ledgers.flow hledgers
  have hchanges := congrArg Ledgers.changes hledgers
  dsimp only [Store.ledgers] at hflow hchanges
  rw [prune_ledgers, ← hledgers, hiff, hchanges]
  unfold HumanTime.touches HumanTime.eventTouch HumanTime.lotOf
  rw [hflow]
  rfl

/-- After an event with an id was stored, at whatever later point its reporter posts it
again, the ledgers that are never pruned stay as they are exactly if the log still holds
the event, or if it is no incident and the lots it speaks about are settled. -/
theorem repost_keeps_ledgers_iff {before after : List Action} {first stored last : Store}
    {reporter : String} {event : NewEvent} {eventId : String} {nowMs againMs : Int}
    {inserted : Inserted}
    (hid : event.eventId = some eventId) (hname : eventId ≠ "")
    (hbefore : (machine codec).run before = some first)
    (hstored : insert codec first reporter event nowMs = .ok (stored, inserted))
    (hnew : inserted.duplicate = false)
    (hafter : (machine codec).runFrom stored after = some last) :
    ((machine codec).step last (.insert reporter event againMs)).map Store.ledgers =
        some last.ledgers ↔
      Logged last.log reporter eventId ∨
        (Incidents.isIncidentKind event.kind = false ∧
          ∀ touch ∈ HumanTime.touches last.flow event,
            HumanTime.Settled last.changes touch againMs) := by
  have hsound : Sound last :=
    ((sound_empty.reaches (runFrom_writes hbefore)).reaches
      (insert_writes hstored)).reaches (runFrom_writes hafter)
  by_cases hlogged : Logged last.log reporter eventId
  · obtain ⟨row, hrow⟩ : ∃ row, existing last.log reporter event.eventId = some row := by
      rw [hid]
      exact ne_none_iff_exists'.mp fun hnone =>
        existing_eq_none_iff.mp hnone hlogged
    have hstep : (machine codec).step last (.insert reporter event againMs) = some last := by
      change settle last (insert codec last reporter event againMs) = some last
      unfold insert
      rw [hrow]
      rfl
    simp [hstep, hlogged]
  · have hnone : existing last.log reporter event.eventId = none := by
      rw [hid]
      exact existing_eq_none_iff.mpr hlogged
    rcases insert_eq_ok hstored with ⟨hduplicate, _⟩ | ⟨_, written, projected, hwritten,
      hprojected, rfl⟩
    · rw [hnew] at hduplicate
      cases hduplicate
    · -- the keys that the first copy left are still there
      have hreports : Writes codec written projected := by
        refine Writes.reports _ ?_ hprojected
        obtain ⟨_, outcomes, _, rfl⟩ := storeRow_eq_ok hwritten
        exact le_max_right ..
      have hgrows : Grows written last :=
        (hreports.grows.trans (@Writes.prune codec projected nowMs).grows).trans
          (grows_of_reaches (runFrom_writes hafter))
      have hfolded := (folded_of_storeRow hid hname hwritten).mono hgrows
      obtain ⟨incidents, hincidents, _⟩ := projectReports_eq_ok hprojected
      obtain ⟨next, again, hagain, hiff⟩ := insert_again hsound hid hname hnone hfolded hincidents
      have hstep : (machine codec).step last (.insert reporter event againMs) =
          some next := by
        change settle last (insert codec last reporter event againMs) = some next
        rw [hagain]
        rfl
      simp [hstep, hlogged, hiff]

/-- A month after an outage was reported the log has forgotten the report.  Posted again
it moves the time at which the outage was detected. -/
theorem forgottenOutage_moves :
    ∃ stored last next,
      (machine monthStarts).run [.insert "alerts" outage 1000] = some stored ∧
      Logged stored.log "alerts" "alert-1" ∧
      (machine monthStarts).runFrom stored [.insert "ops" notice 2678402000] = some last ∧
      (machine monthStarts).step last (.insert "alerts" outage 2678403000) = some next ∧
      (last.incidents.ledger.get? "checkout").bind Incidents.Row.detectedMs = some 1000 ∧
      (next.incidents.ledger.get? "checkout").bind Incidents.Row.detectedMs =
        some 2678403000 ∧
      next.ledgers ≠ last.ledgers := by
  refine ⟨((machine monthStarts).run [.insert "alerts" outage 1000]).get (by decide +kernel),
    ((machine monthStarts).run
      [.insert "alerts" outage 1000, .insert "ops" notice 2678402000]).get (by decide +kernel),
    ((machine monthStarts).run
      [.insert "alerts" outage 1000, .insert "ops" notice 2678402000,
        .insert "alerts" outage 2678403000]).get (by decide +kernel),
    (some_get _).symm, by decide +kernel, ?_, ?_, by decide +kernel,
    by decide +kernel, ?_⟩
  · exact (some_get _).symm
  · exact (some_get _).symm
  · intro hsame
    have hrow := congrArg
      (fun ledgers => (ledgers.incidents.get? "checkout").bind Incidents.Row.detectedMs) hsame
    exact absurd hrow (by decide +kernel)

/-- A landing that the log has forgotten changes nothing when it is posted again at a
time up to which its lot is known to have been worked on. -/
theorem repost_keeps_ledgers_iff_reviewedLanding :
    ∃ stored inserted last,
      insert monthStarts Store.empty "forge" landing 1000 = .ok (stored, inserted) ∧
      inserted.duplicate = false ∧
      (machine monthStarts).runFrom stored
        [.insert "ops" notice 2678402000, .chargeHumanMinutes
            { actor := "ada", atMs := 2678409000, family := none, repo := some "acme/shop",
              pr := some 7, todoId := none }] = some last ∧
      ¬ Logged last.log "forge" "landing-7" ∧
      ((machine monthStarts).step last (.insert "forge" landing 2678405000)).map
        Store.ledgers = some last.ledgers := by
  refine ⟨_, _, _, Except.eq_ok_get (by decide +kernel), by decide +kernel,
    (some_get (by decide +kernel)).symm, by decide +kernel, ?_⟩
  exact (@repost_keeps_ledgers_iff monthStarts [] _ _ _ _ "forge" landing "landing-7" 1000
    2678405000 _ rfl (by decide) rfl (Except.eq_ok_get (by decide +kernel))
    (by decide +kernel) (some_get (by decide +kernel)).symm).mpr
    (.inr ⟨by decide +kernel, by decide +kernel⟩)

end JeryuForge.Pipeline
