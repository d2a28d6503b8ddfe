import JeryuForge.Pipeline.Writes

/-!
# Importing the log of another store

An import stores the same row as the insert that it repeats, at the time and with the detail
that are read back from their texts.  It makes no report of incidents and of changes.
-/

namespace JeryuForge.Pipeline

open List

variable {codec : Codec}

def importAll (codec : Codec) (store : Store) (events : List Event) : Except Failure Store :=
  events.foldlM (fun store event => (importEvent codec store event).map Prod.fst) store

structure Post where
  reporter : String
  event : NewEvent
  nowMs : Int

def Post.action (post : Post) : Action :=
  .insert post.reporter post.event post.nowMs

def LogRow.imported (codec : Codec) (row : LogRow) : LogRow :=
  { row with tsMs := row.tsMs / 1000 * 1000, detail := row.detail.bind codec.reread }

/-- `rfc3339_ms` cuts a time to whole seconds, and `parse_from_rfc3339` reads that back. -/
def ReadsBack (codec : Codec) (row : LogRow) : Prop :=
  codec.parseTime (codec.renderTime row.tsMs) = .ok (row.tsMs / 1000 * 1000)

def LogRow.Apart (first second : LogRow) : Prop :=
  first.seq ≠ second.seq ∧
    (second.eventId.isSome → first.reporter = second.reporter →
      first.eventId ≠ second.eventId)

theorem existing_eq_none {log : List LogRow} {row : LogRow}
    (hapart : ∀ other ∈ log, other.Apart row) : existing log row.reporter row.eventId = none := by
  cases hid : row.eventId with
  | none => rfl
  | some eventId =>
    simp only [existing, Option.bind_some, find?_eq_none, Bool.and_eq_true,
      decide_eq_true_eq, not_and]
    intro other hother hreporter hsame
    exact (hapart other hother).2 (by simp [hid]) hreporter (hsame.trans hid.symm)

theorem importEvent_of_apart {store : Store} {row : LogRow} (hreads : ReadsBack codec row)
    (hapart : ∀ other ∈ store.log, other.Apart row) :
    (importEvent codec store (eventFromRow codec row)).map Prod.fst =
      storeRow codec store (row.imported codec) := by
  have hfresh : (store.log.find? fun other => other.seq = row.seq) = none := by
    simp only [find?_eq_none, decide_eq_true_eq]
    exact fun other hother => (hapart other hother).1
  unfold importEvent eventFromRow
  rw [hreads, hfresh]
  change ((storeRow codec store (row.imported codec)) >>= _).map _ = _
  cases storeRow codec store (row.imported codec) with
  | error | ok => rfl

theorem Sound.exists_storeRow {store : Store} {row : LogRow} (hsound : Sound store)
    (hnone : existing store.log row.reporter row.eventId = none) :
    ∃ stored, storeRow codec store row = .ok stored := by
  have hpanicked := @Sound.storeRow_ne_panicked codec store hsound row
  unfold storeRow at hpanicked ⊢
  rw [hnone] at hpanicked ⊢
  dsimp only [Option.isSome_none] at hpanicked ⊢
  cases houtcomes : Outcomes.apply
      (Flow.apply (evidenceOf codec (store.log ++ [row]) row.seq) store.flow row.view)
      store.outcomes row.view with
  | none =>
    rw [houtcomes] at hpanicked
    exact absurd rfl hpanicked
  | some outcomes => exact ⟨_, rfl⟩

theorem importAll_rows {rows : List LogRow} {store : Store} (hsound : Sound store)
    (hreads : ∀ row ∈ rows, ReadsBack codec row)
    (hapart : (store.log ++ rows).Pairwise LogRow.Apart) :
    ∃ second, importAll codec store (rows.map (eventFromRow codec)) = .ok second ∧
      second.log = store.log ++ rows.map (LogRow.imported codec) ∧
      second.incidents = store.incidents ∧ second.changes = store.changes := by
  induction rows generalizing store with
  | nil => exact ⟨store, rfl, by simp, rfl, rfl⟩
  | cons row rest ih =>
    have hrow : ∀ other ∈ store.log, other.Apart row := fun other hother =>
      (pairwise_append.mp hapart).2.2 other hother row mem_cons_self
    obtain ⟨stored, hstored⟩ := @Sound.exists_storeRow codec store (row.imported codec) hsound
      (existing_eq_none hrow)
    have hkept : Sound stored := hsound.writes (Writes.row _ hstored)
    obtain ⟨_, outcomes, _, hwritten⟩ := storeRow_eq_ok hstored
    have hlog : stored.log = store.log ++ [row.imported codec] := by rw [hwritten]
    have hrest : (stored.log ++ rest).Pairwise LogRow.Apart := by
      -- whether rows are apart depends neither on their times nor on their details
      obtain ⟨hstore, htail, hcross⟩ := pairwise_append.mp hapart
      obtain ⟨hfirst, hothers⟩ := pairwise_cons.mp htail
      rw [hlog, append_assoc]
      refine pairwise_append.mpr ⟨hstore, pairwise_cons.mpr ⟨hfirst, hothers⟩, ?_⟩
      intro other hother later hlater
      rcases mem_cons.mp hlater with rfl | hlater
      · exact hrow other hother
      · exact hcross other hother later (mem_cons_of_mem _ hlater)
    obtain ⟨second, hsecond, hrows, hincidents, hchanges⟩ :=
      ih hkept (forall_mem_cons.mp hreads).2 hrest
    refine ⟨second, ?_, ?_, ?_, ?_⟩
    · rw [importAll, map_cons, foldlM_cons,
        importEvent_of_apart (hreads row mem_cons_self) hrow, hstored]
      exact hsecond
    · rw [hrows, hlog, map_cons, append_assoc]
      rfl
    · rw [hincidents, hwritten]
    · rw [hchanges, hwritten]

/-! ## Logs that inserts write -/

/-- A row that an import reproduces with everything that the insert projected.  A detail need not
be read back as it was: `from_str` may round the last digit of a number. -/
structure LogRow.Plain (codec : Codec) (row : LogRow) : Prop where
  wholeSecond : row.tsMs % 1000 = 0
  rereads : row.detail.bind codec.reread = row.detail
  noIncident : Incidents.isIncidentKind row.kind = false
  noReport : HumanTime.reportsChange row.toNewEvent = false

def Store.Unpruned (store : Store) : Prop :=
  (store.log.length : Int) = store.seq

instance (store : Store) : Decidable store.Unpruned :=
  inferInstanceAs (Decidable ((store.log.length : Int) = store.seq))

structure Inserts (store : Store) : Prop where
  count : (store.log.length : Int) ≤ store.seq
  below : ∀ row ∈ store.log, row.seq ≤ store.seq
  apart : store.log.Pairwise LogRow.Apart
  incidents : ∀ row ∈ store.log, Incidents.isIncidentKind row.kind = true →
    ∃ id found, store.incidents.ledger.get? id = some found
  changes : ∀ row ∈ store.log, HumanTime.reportsChange row.toNewEvent = true →
    ∃ lot found, store.changes.get? lot = some found

theorem inserts_empty : Inserts Store.empty where
  count := by simp [Store.empty]
  below := by simp [Store.empty]
  apart := by simp [Store.empty]
  incidents := by simp [Store.empty]
  changes := by simp [Store.empty]

variable {next store : Store} {post : Post} {nowMs : Int} {event : NewEvent}

theorem step_insert_cases (hstep : (machine codec).step store post.action = some next) :
    next = store ∨
      ∃ stored projected,
        storeRow codec store (newRow store post.reporter post.event post.nowMs) =
          .ok stored ∧
        projectReports codec stored (newRow store post.reporter post.event post.nowMs) =
          .ok projected ∧
        next = prune projected post.nowMs := by
  rcases settle_eq_some hstep with hsame | ⟨inserted, hinsert⟩
  · exact .inl hsame
  · rcases insert_eq_ok hinsert with ⟨_, hsame⟩ | ⟨_, stored, projected, hwritten⟩
    · exact .inl hsame
    · exact .inr ⟨stored, projected, hwritten⟩

theorem prune_eq_self (hcount : (store.log.length : Int) ≤ store.seq)
    (hunpruned : (prune store nowMs).Unpruned) :
    (prune store nowMs).log = store.log ∧ store.Unpruned := by
  have hsublist := prune_log_sublist store nowMs
  have hle := hsublist.length_le
  unfold Store.Unpruned at hunpruned ⊢
  rw [prune_seq] at hunpruned
  exact ⟨hsublist.eq_of_length (by omega), by omega⟩

theorem Inserts.prune {store : Store} (hinserts : Inserts store) (nowMs : Int) :
    Inserts (prune store nowMs) := by
  have hsublist := prune_log_sublist store nowMs
  have hledgers := prune_ledgers store nowMs
  have hincidents : (Pipeline.prune store nowMs).incidents.ledger = store.incidents.ledger :=
    congrArg Ledgers.incidents hledgers
  have hchanges : (Pipeline.prune store nowMs).changes = store.changes :=
    congrArg Ledgers.changes hledgers
  refine ⟨?_, ?_, hinserts.apart.sublist hsublist, ?_, ?_⟩
  · rw [prune_seq]
    have hle := hsublist.length_le
    have hcount := hinserts.count
    omega
  · intro row hrow
    rw [prune_seq]
    exact hinserts.below row (hsublist.subset hrow)
  · intro row hrow hkind
    rw [hincidents]
    exact hinserts.incidents row (hsublist.subset hrow) hkind
  · intro row hrow hreport
    rw [hchanges]
    exact hinserts.changes row (hsublist.subset hrow) hreport

theorem Inserts.newRow_apart (hinserts : Inserts store) {reporter : String}
    (hnone : existing store.log reporter event.eventId = none) :
    ∀ other ∈ store.log, other.Apart (newRow store reporter event nowMs) := by
  intro other hother
  refine ⟨?_, ?_⟩
  · have hle := hinserts.below other hother
    change other.seq ≠ store.seq + 1
    omega
  · intro hsome hreporter hsame
    obtain ⟨eventId, hid⟩ := Option.isSome_iff_exists.mp hsome
    change event.eventId = some eventId at hid
    change other.eventId = event.eventId at hsame
    rw [hid] at hnone hsame
    simp only [existing, Option.bind_some, find?_eq_none, Bool.and_eq_true,
      decide_eq_true_eq] at hnone
    exact hnone other hother ⟨hreporter, hsame⟩

theorem reportsChange_touches (hreport : HumanTime.reportsChange event = true)
    (flow : Flow.Tables) : HumanTime.touches flow event ≠ [] := by
  have hkind : event.kind ≠ Incidents.causedBy := by
    intro hcaused
    simp [HumanTime.reportsChange, hcaused, Incidents.causedBy] at hreport
  intro hnil
  rw [HumanTime.touches_eq_nil_iff hkind, hreport] at hnil
  cases hnil

theorem Inserts.row {stored projected : Store} {reporter : String} (hinserts : Inserts store)
    (hstored : storeRow codec store (newRow store reporter event nowMs) = .ok stored)
    (hprojected : projectReports codec stored (newRow store reporter event nowMs) = .ok projected) :
    Inserts projected := by
  obtain ⟨hnone, outcomes, _, rfl⟩ := storeRow_eq_ok hstored
  obtain ⟨incidents, hincidents, rfl⟩ := projectReports_eq_ok hprojected
  refine ⟨?_, ?_, ?_, ?_, ?_⟩
  · have hcount := hinserts.count
    change ((store.log ++ [_]).length : Int) ≤ max store.seq (store.seq + 1)
    rw [length_append, length_singleton]
    omega
  · intro row hrow
    rcases mem_append.mp hrow with hold | hnew
    · exact (hinserts.below row hold).trans (le_max_left ..)
    · rw [mem_singleton.mp hnew]
      exact le_max_right ..
  · refine pairwise_append.mpr ⟨hinserts.apart, pairwise_singleton .., ?_⟩
    intro other hother row hrow
    rw [mem_singleton.mp hrow]
    exact hinserts.newRow_apart hnone other hother
  · intro row hrow hkind
    refine Incidents.exists_get?_apply hincidents ?_
    rcases mem_append.mp hrow with hold | hnew
    · exact .inr (hinserts.incidents row hold hkind)
    · rw [mem_singleton.mp hnew] at hkind
      exact .inl hkind
  · intro row hrow hreport
    rcases mem_append.mp hrow with hold | hnew
    · obtain ⟨lot, found, hfound⟩ := hinserts.changes row hold hreport
      obtain ⟨larger, hlarger, _⟩ := Inflation.le_foldl (HumanTime.le_mark _) _ _ lot found hfound
      exact ⟨lot, larger, hlarger⟩
    · rw [mem_singleton.mp hnew] at hreport
      exact HumanTime.exists_get?_apply (reportsChange_touches hreport _) _ _

theorem Inserts.step (hinserts : Inserts store)
    (hstep : (machine codec).step store post.action = some next) : Inserts next := by
  rcases step_insert_cases hstep with rfl | ⟨stored, projected, hstored, hprojected, rfl⟩
  · exact hinserts
  · exact (hinserts.row hstored hprojected).prune post.nowMs

theorem meetsFrom_posts (posts : List Post) (store : Store) :
    (machine codec).MeetsFrom (fun _ action => ∃ post : Post, action = post.action) store
      (posts.map Post.action) := by
  induction posts generalizing store with
  | nil => trivial
  | cons post rest ih => exact ⟨⟨post, rfl⟩, fun next _ => ih next⟩

theorem run_inserts {posts : List Post}
    (hrun : (machine codec).run (posts.map Post.action) = some store) : Inserts store := by
  refine (machine codec).run_invariant inserts_empty ?_ (meetsFrom_posts posts _) hrun
  rintro state _ next hstate ⟨post, rfl⟩ hstep
  exact hstate.step hstep

def Store.reset (store : Store) : Store :=
  { store with lastPruneMs := 0 }

theorem storeRow_reset (store : Store) (row : LogRow) :
    storeRow codec store.reset row = (storeRow codec store row).map Store.reset := by
  unfold storeRow Store.reset
  dsimp only
  split
  · rfl
  · split <;> rfl

theorem LogRow.Plain.touches_eq_nil {row : LogRow} (hplain : row.Plain codec) (flow : Flow.Tables) :
    HumanTime.touches flow row.toNewEvent = [] := by
  refine (HumanTime.touches_eq_nil_iff ?_).mpr hplain.noReport
  intro hcaused
  have hkind := hplain.noIncident
  simp [Incidents.isIncidentKind, hcaused] at hkind

theorem projectReports_of_plain {projected : Store} {row : LogRow} (hplain : row.Plain codec)
    (hprojected : projectReports codec store row = .ok projected) : projected = store := by
  obtain ⟨incidents, hincidents, rfl⟩ := projectReports_eq_ok hprojected
  rw [Incidents.apply_of_not_incident hplain.noIncident] at hincidents
  cases hincidents
  unfold HumanTime.apply
  rw [hplain.touches_eq_nil]
  rfl

theorem reset_prune (hlog : (prune store nowMs).log = store.log) :
    (prune store nowMs).reset = store.reset := by
  unfold prune at hlog ⊢
  split
  next hdue =>
    rw [if_pos hdue] at hlog
    dsimp only at hlog
    simp only [Store.reset, hlog]
  · rfl

def Reproduced (codec : Codec) (store : Store) : Prop :=
  store.Unpruned → (∀ row ∈ store.log, ReadsBack codec row) →
    (∀ row ∈ store.log, row.Plain codec) →
      importAll codec Store.empty (store.log.map (eventFromRow codec)) = .ok store.reset

theorem Reproduced.step (hinserts : Inserts store) (hreproduced : Reproduced codec store)
    (hstep : (machine codec).step store post.action = some next) : Reproduced codec next := by
  rcases step_insert_cases hstep with rfl | ⟨stored, projected, hstored, hprojected, rfl⟩
  · exact hreproduced
  · intro hunpruned hreads hplain
    obtain ⟨hlog, hfull⟩ := prune_eq_self (hinserts.row hstored hprojected).count hunpruned
    obtain ⟨hnone, outcomes, _, hwritten⟩ := storeRow_eq_ok hstored
    obtain ⟨_, _, hreported⟩ := projectReports_eq_ok hprojected
    have hrows : projected.log =
        store.log ++ [newRow store post.reporter post.event post.nowMs] := by
      rw [hreported, hwritten]
    have hseq : projected.seq = store.seq + 1 := by
      rw [hreported, hwritten]
      exact max_eq_right (by change store.seq ≤ store.seq + 1; omega)
    rw [hlog, hrows] at hreads hplain
    have hrow := hplain _ (mem_append_right _ (mem_singleton.mpr rfl))
    -- nothing had been pruned before this insert either
    have hearlier : store.Unpruned := by
      unfold Store.Unpruned at hfull ⊢
      rw [hrows, hseq, length_append, length_singleton] at hfull
      push_cast at hfull
      omega
    have hbefore := hreproduced hearlier
      (fun row hmem => hreads row (mem_append_left _ hmem))
      (fun row hmem => hplain row (mem_append_left _ hmem))
    have hthis : importAll codec store.reset
        [eventFromRow codec (newRow store post.reporter post.event post.nowMs)] =
          .ok stored.reset := by
      have hread := hreads _ (mem_append_right _ (mem_singleton.mpr rfl))
      unfold importAll
      rw [foldlM_cons, @importEvent_of_apart codec store.reset _ hread
        (hinserts.newRow_apart hnone), LogRow.imported, hrow.rereads,
        Int.ediv_mul_cancel (Int.dvd_of_emod_eq_zero hrow.wholeSecond), storeRow_reset, hstored]
      rfl
    rw [hlog, hrows, map_append, importAll, foldlM_append, ← importAll, hbefore]
    change importAll codec store.reset _ = _
    rw [map_singleton, hthis, reset_prune hlog, projectReports_of_plain hrow hprojected]

theorem run_reproduced {posts : List Post}
    (hrun : (machine codec).run (posts.map Post.action) = some store) : Reproduced codec store := by
  have hboth := (machine codec).run_invariant
    (motive := fun store => Inserts store ∧ Reproduced codec store)
    ⟨inserts_empty, fun _ _ _ => rfl⟩ ?_ (meetsFrom_posts posts _) hrun
  · exact hboth.2
  · rintro state _ next ⟨hinserts, hreproduced⟩ ⟨post, rfl⟩ hstep
    exact ⟨hinserts.step hstep, hreproduced.step hinserts hstep⟩

/-- The log of any inserts, if nothing of it was pruned, can be imported into an empty
store.  It gives the same log and the same projections exactly if every row was stored
at a whole second, with a detail that is read back as it was, and reports no incident and no
outcome of a change. -/
theorem import_reproduces_iff {posts : List Post} {first : Store}
    (hrun : (machine codec).run (posts.map Post.action) = some first) (hunpruned : first.Unpruned)
    (hreads : ∀ row ∈ first.log, ReadsBack codec row) :
    ∃ second,
      importAll codec Store.empty (first.log.map (eventFromRow codec)) = .ok second ∧
      ((second.log = first.log ∧ second.ledgers = first.ledgers) ↔
        ∀ row ∈ first.log, row.Plain codec) := by
  have hinserts := run_inserts hrun
  obtain ⟨second, hsecond, hlog, hincidents, hchanges⟩ :=
    importAll_rows sound_empty hreads hinserts.apart
  refine ⟨second, hsecond, ?_, ?_⟩
  · rintro ⟨hsame, hledgers⟩ row hrow
    have hmap : first.log.map (LogRow.imported codec) = first.log.map id := by
      rw [map_id]
      exact hlog.symm.trans hsame
    have hrowSame := map_inj_left.mp hmap row hrow
    have htime : row.tsMs / 1000 * 1000 = row.tsMs := congrArg LogRow.tsMs hrowSame
    have hnoIncidents : first.incidents.ledger = ∅ := by
      rw [show first.incidents.ledger = second.incidents.ledger from
        (congrArg Ledgers.incidents hledgers).symm, hincidents]
      rfl
    have hnoChanges : first.changes = ∅ := by
      rw [show first.changes = second.changes from
        (congrArg Ledgers.changes hledgers).symm, hchanges]
      rfl
    refine ⟨?_, congrArg (fun row => row.detail) hrowSame, ?_, ?_⟩
    · omega
    · by_contra hkind
      obtain ⟨id, found, hfound⟩ := hinserts.incidents row hrow (by simpa using hkind)
      rw [hnoIncidents, OrdMap.get?_empty] at hfound
      cases hfound
    · by_contra hreport
      obtain ⟨lot, found, hfound⟩ := hinserts.changes row hrow (by simpa using hreport)
      rw [hnoChanges, OrdMap.get?_empty] at hfound
      cases hfound
  · intro hplain
    have hreset := run_reproduced hrun hunpruned hreads hplain
    rw [hsecond] at hreset
    cases hreset
    exact ⟨rfl, rfl⟩

/-- An outage and a landing, stored at whole seconds, are in the imported log and in
neither of the two ledgers that only inserts write. -/
theorem importedOutage_isLost :
    ∃ first second,
      (machine monthStarts).run
        ([⟨"alerts", outage, 1000⟩, ⟨"forge", landing, 2000⟩].map Post.action) =
          some first ∧
      first.Unpruned ∧
      importAll monthStarts Store.empty (first.log.map (eventFromRow monthStarts)) =
        .ok second ∧
      second.log.length = first.log.length ∧
      (first.incidents.ledger.get? "checkout").isSome ∧
      second.incidents.ledger.get? "checkout" = none ∧
      (first.changes.get? "acme/shop#7").isSome ∧
      second.changes.get? "acme/shop#7" = none ∧
      second.ledgers ≠ first.ledgers := by
  refine ⟨_, _, (Option.some_get (by decide +kernel)).symm, by decide +kernel,
    Except.eq_ok_get (by decide +kernel), by decide +kernel, by decide +kernel,
    by decide +kernel, by decide +kernel, by decide +kernel, ?_⟩
  intro hsame
  have hrow := congrArg (fun ledgers => ledgers.incidents.get? "checkout") hsame
  exact absurd hrow (by decide +kernel)

/-- A pull request with a cost, stored at a whole second, is reproduced. -/
theorem import_reproduces_iff_pullOpened :
    ∃ first second,
      (machine monthStarts).run
        ([⟨"forge", pullOpened, 1000⟩, ⟨"ops", notice, 2000⟩].map Post.action) =
          some first ∧
      first.flow.ledger ≠ [] ∧ first.cost ≠ [] ∧
      importAll monthStarts Store.empty (first.log.map (eventFromRow monthStarts)) =
        .ok second ∧
      second.log = first.log ∧ second.ledgers = first.ledgers := by
  obtain ⟨second, hsecond, hiff⟩ := @import_reproduces_iff monthStarts
    [⟨"forge", pullOpened, 1000⟩, ⟨"ops", notice, 2000⟩] _
    (Option.some_get (by decide +kernel)).symm (by decide +kernel)
    (by unfold ReadsBack; decide +kernel)
  have hquiet : ∀ row ∈ (((machine monthStarts).run
        ([⟨"forge", pullOpened, 1000⟩, ⟨"ops", notice, 2000⟩].map Post.action)).get
          (by decide +kernel)).log,
      row.tsMs % 1000 = 0 ∧ Incidents.isIncidentKind row.kind = false ∧
        HumanTime.reportsChange row.toNewEvent = false := by decide +kernel
  exact ⟨_, second, (Option.some_get (by decide +kernel)).symm, by decide +kernel,
    ne_nil_of_length_pos (by decide +kernel), hsecond,
    hiff.mpr fun row hrow => ⟨(hquiet row hrow).1, Option.bind_fun_some _, (hquiet row hrow).2.1,
      (hquiet row hrow).2.2⟩⟩

end JeryuForge.Pipeline
