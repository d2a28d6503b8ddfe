import JeryuForge.Flow.Once
import JeryuForge.Library.Folding
import JeryuForge.Pipeline.Writes

/-!
# The backfill of the flow and outcome ledgers

Opening a store replays the log into each ledger that has no replay on record.  A replay
that fails is rolled back and tried again at the next start; until then the insert path
goes on projecting.
-/

namespace JeryuForge.Pipeline

open List Option

structure OlderLog where
  rows : List LogRow
  seq : Int
  increasing : rows.Pairwise fun first second => first.seq < second.seq
  below : ∀ row ∈ rows, row.seq ≤ seq

def OlderLog.empty : OlderLog where
  rows := []
  seq := 0
  increasing := List.Pairwise.nil
  below := by simp

def LogRow.storedView (codec : Codec) (row : LogRow) : EventView :=
  { row.view with detail := row.detail.bind codec.reread }

/-- `for_each_event`: in the order of `seq`. -/
def eventRows (log : List LogRow) : List LogRow :=
  log.insertionSort fun first second => first.seq ≤ second.seq

def foldFlowRow (codec : Codec) (log : List LogRow) (flow : Flow.Tables) (row : LogRow) :
    Flow.Tables :=
  Flow.apply (evidenceOf codec log row.seq) flow (row.storedView codec)

/-- `flow::project::replay`. -/
def replayFlow (codec : Codec) (log : List LogRow) (flow : Flow.Tables) : Flow.Tables :=
  (eventRows log).foldl (foldFlowRow codec log) flow

/-- `outcomes::project::replay`: the joins it reads are those of the whole flow ledger. -/
def replayOutcomes (codec : Codec) (log : List LogRow) (flow : Flow.Tables)
    (outcomes : Outcomes.Tables) : Option Outcomes.Tables :=
  (eventRows log).foldlM (fun outcomes row => Outcomes.apply flow outcomes (row.storedView codec))
    outcomes

structure Database where
  store : Store
  isOpen : Bool
  flowReplayed : Bool
  outcomeReplayed : Bool

def replayFlowLedger (codec : Codec) (database : Database) (fails : Bool) : Database :=
  if database.flowReplayed || fails then
    database
  else
    { database with
      store := { database.store with
        flow := replayFlow codec database.store.log database.store.flow }
      flowReplayed := true }

def replayOutcomeLedger (codec : Codec) (database : Database) (fails : Bool) : Option Database :=
  if database.outcomeReplayed || fails then
    some database
  else
    (replayOutcomes codec database.store.log database.store.flow database.store.outcomes).map
      fun outcomes =>
        { database with
          store := { database.store with outcomes := outcomes }
          outcomeReplayed := true }

/-- `EventStore::open`, which replays each ledger once. -/
def openStore (codec : Codec) (database : Database) (flowFails outcomeFails : Bool) :
    Option Database :=
  (replayOutcomeLedger codec (replayFlowLedger codec database flowFails) outcomeFails).map
    fun database =>
      { database with
        store := { database.store with lastPruneMs := 0 }
        isOpen := true }

inductive DatabaseAction where
  | open (flowFails outcomeFails : Bool)
  | insert (reporter : String) (event : NewEvent) (nowMs : Int)

def database (codec : Codec) (older : OlderLog) : Machine Database DatabaseAction where
  start :=
    { store := { Store.empty with log := older.rows, seq := older.seq }
      isOpen := false
      flowReplayed := false
      outcomeReplayed := false }
  step database
    | .open flowFails outcomeFails => openStore codec database flowFails outcomeFails
    | .insert reporter event nowMs =>
      if database.isOpen then
        (settle database.store (insert codec database.store reporter event nowMs)).map
          fun store => { database with store := store }
      else
        none

def foldFlow (codec : Codec) (log : List LogRow) : Flow.Tables :=
  log.foldl (foldFlowRow codec log) Flow.Tables.empty

def foldRow (codec : Codec) (log : List LogRow) (tables : Flow.Tables × Outcomes.Tables)
    (row : LogRow) : Option (Flow.Tables × Outcomes.Tables) :=
  let flow := foldFlowRow codec log tables.1 row
  (Outcomes.apply flow tables.2 (row.storedView codec)).map fun outcomes => (flow, outcomes)

def foldLog (codec : Codec) (log : List LogRow) : Option (Flow.Tables × Outcomes.Tables) :=
  log.foldlM (foldRow codec log) (Flow.Tables.empty, Outcomes.Tables.empty)

/-! ## When a replay gives the fold -/

def LogRow.Named (row : LogRow) : Prop :=
  (row.eventId.any fun eventId => !eventId.isEmpty) = true

/-- Every event that reads the lots of its pull request finds those it had when the flow
ledger was folded up to it. -/
def JoinsSettled (codec : Codec) (log : List LogRow) (settled : Flow.Tables) :
    Flow.Tables → List LogRow → Prop
  | _, [] => True
  | flow, row :: rest =>
    (Outcomes.relevant (row.storedView codec) = true →
      ∀ repo ∈ row.repo, ∀ pr ∈ row.pr,
        Flow.lotsOfPr (foldFlowRow codec log flow row) repo pr =
          Flow.lotsOfPr settled repo pr) ∧
      JoinsSettled codec log settled (foldFlowRow codec log flow row) rest

instance decidableJoinsSettled (codec : Codec) (log : List LogRow) (settled : Flow.Tables) :
    (flow : Flow.Tables) → (rows : List LogRow) →
      Decidable (JoinsSettled codec log settled flow rows)
  | _, [] => isTrue trivial
  | flow, row :: rest =>
    have := decidableJoinsSettled codec log settled (foldFlowRow codec log flow row) rest
    inferInstanceAs (Decidable (_ ∧ _))

def NothingPruned (store : Store) (nowMs : Int) : Prop :=
  nowMs - store.lastPruneMs ≥ pruneEveryMs →
    ∀ row ∈ store.log, nowMs - retentionMs ≤ row.tsMs

def AllNamed (codec : Codec) (log : List LogRow) (reads : EventView → Bool) : Prop :=
  ∀ row ∈ log, reads (row.storedView codec) = true → row.Named

def hasSteps (event : EventView) : Bool :=
  !(Flow.eventSteps event).isEmpty

/-- Nothing is pruned.  A log that was empty at the first start: whenever a replay goes
through, the events it projects carry an id.  A log that was not: nothing is inserted
before both replays went through, and the outcome replay reads the joins that its events
had. -/
def Recognised (codec : Codec) (older : OlderLog) (database : Database) :
    DatabaseAction → Prop
  | .insert _ _ nowMs =>
    NothingPruned database.store nowMs ∧
      (older.rows = [] ∨ database.flowReplayed = true ∧ database.outcomeReplayed = true)
  | .open flowFails outcomeFails =>
    (older.rows = [] →
      (database.flowReplayed = false → flowFails = false →
        AllNamed codec database.store.log hasSteps) ∧
      (database.outcomeReplayed = false → outcomeFails = false →
        AllNamed codec database.store.log Outcomes.relevant)) ∧
    (older.rows ≠ [] → database.outcomeReplayed = false → outcomeFails = false →
      JoinsSettled codec database.store.log
        (replayFlowLedger codec database flowFails).store.flow Flow.Tables.empty
        database.store.log)

/-- The detail of an event that is inserted is read back from its text as it was: `from_str` may
round the last digit of a number. -/
def DatabaseAction.Rereads (codec : Codec) : DatabaseAction → Prop
  | .insert _ event _ => event.detail.bind codec.reread = event.detail
  | .open .. => True

instance (row : LogRow) : Decidable row.Named :=
  inferInstanceAs (Decidable (_ = true))

instance (codec : Codec) (log : List LogRow) (reads : EventView → Bool) :
    Decidable (AllNamed codec log reads) :=
  inferInstanceAs (Decidable (∀ row ∈ log, _))

instance (store : Store) (nowMs : Int) : Decidable (NothingPruned store nowMs) :=
  inferInstanceAs (Decidable (_ → _))

instance (codec : Codec) (older : OlderLog) (database : Database) :
    (action : DatabaseAction) → Decidable (Recognised codec older database action)
  | .insert .. => inferInstanceAs (Decidable (_ ∧ _))
  | .open .. => inferInstanceAs (Decidable (_ ∧ _))

section Folds

variable {codec : Codec} {log : List LogRow} {row : LogRow}

theorem storedView_eq (hreads : row.detail.bind codec.reread = row.detail) :
    row.storedView codec = row.view := by
  unfold LogRow.storedView
  rw [hreads]
  rfl

theorem eventRows_eq (hincreasing : log.Pairwise fun first second => first.seq < second.seq) :
    eventRows log = log :=
  (hincreasing.imp fun hlt => le_of_lt hlt).insertionSort_eq

theorem evidenceOf_append (hrow : row ∈ log) (later : List LogRow) :
    evidenceOf codec (log ++ later) row.seq = evidenceOf codec log row.seq := by
  have hfound : (log.find? fun other => other.seq = row.seq).isSome := by
    rw [find?_isSome]
    exact ⟨row, hrow, by simp⟩
  unfold evidenceOf
  rw [find?_append, or_of_isSome hfound]

theorem foldFlow_concat (log : List LogRow) (row : LogRow) :
    foldFlow codec (log ++ [row]) =
      foldFlowRow codec (log ++ [row]) (foldFlow codec log) row := by
  have hearlier : log.foldl (foldFlowRow codec (log ++ [row])) Flow.Tables.empty =
      foldFlow codec log := by
    refine foldl_ext _ _ _ fun flow earlier hearlier => ?_
    unfold foldFlowRow
    rw [evidenceOf_append hearlier]
  unfold foldFlow at hearlier ⊢
  rw [foldl_append, hearlier, foldl_cons, foldl_nil]

theorem foldLog_concat (log : List LogRow) (row : LogRow) :
    foldLog codec (log ++ [row]) =
      (foldLog codec log).bind fun tables => foldRow codec (log ++ [row]) tables row := by
  have hearlier : log.foldlM (foldRow codec (log ++ [row]))
        (Flow.Tables.empty, Outcomes.Tables.empty) = foldLog codec log := by
    refine foldlM_congr (fun tables earlier hearlier => ?_) _
    unfold foldRow foldFlowRow
    rw [evidenceOf_append hearlier]
  unfold foldLog at hearlier ⊢
  rw [foldlM_append, hearlier]
  refine congrArg _ (funext fun tables => ?_)
  exact bind_pure _

variable {rows : List LogRow} {tables : Flow.Tables × Outcomes.Tables}
  {flow settled : Flow.Tables}

theorem foldlM_foldRow_fst {start final : Flow.Tables × Outcomes.Tables}
    (hfold : rows.foldlM (foldRow codec log) start = some final) :
    final.1 = rows.foldl (foldFlowRow codec log) start.1 := by
  induction rows generalizing start with
  | nil =>
    cases hfold
    rfl
  | cons row rest ih =>
    obtain ⟨next, hnext, hrest⟩ := foldlM_cons_eq_some hfold
    obtain ⟨outcomes, -, rfl⟩ := map_eq_some_iff.mp hnext
    rw [ih hrest]
    rfl

theorem foldLog_fst (hfold : foldLog codec log = some tables) : tables.1 = foldFlow codec log :=
  foldlM_foldRow_fst hfold

theorem LogRow.Named.exists_id (hnamed : row.Named) :
    ∃ eventId, (row.storedView codec).eventId = some eventId ∧ eventId ≠ "" := by
  unfold LogRow.Named at hnamed
  cases hid : row.eventId with
  | none => simp [hid] at hnamed
  | some eventId => exact ⟨eventId, hid, by simpa [hid] using hnamed⟩

theorem replayFlow_again (hincreasing : log.Pairwise fun first second => first.seq < second.seq)
    (hnamed : AllNamed codec log hasSteps) :
    replayFlow codec log (foldFlow codec log) = foldFlow codec log := by
  have hfolded : ∀ row ∈ log, Flow.Folded (foldFlow codec log) (row.storedView codec) :=
    foldl_leaves (motive := fun flow row => Flow.Folded flow (row.storedView codec))
      (foldFlowRow codec log) (fun flow row => Flow.folded_apply _ flow _)
      (fun flow row other hfolded => hfolded.apply _ _) log Flow.Tables.empty
  unfold replayFlow
  rw [eventRows_eq hincreasing]
  refine foldl_eq_self fun row hrow => ?_
  refine (hfolded row hrow).apply_eq _ fun hsteps => ?_
  exact (hnamed row hrow (by simpa [hasSteps] using hsteps)).exists_id

theorem replayOutcomes_again (hincreasing : log.Pairwise fun first second => first.seq < second.seq)
    (hfold : foldLog codec log = some tables) (hnamed : AllNamed codec log Outcomes.relevant)
    (flow : Flow.Tables) : replayOutcomes codec log flow tables.2 = some tables.2 := by
  have hknown : ∀ row ∈ log, Outcomes.relevant (row.storedView codec) = true →
      ∀ eventId, (row.storedView codec).eventId = some eventId → eventId ≠ "" →
        Knows tables.2.events (row.storedView codec).reporter eventId := by
    refine foldlM_leaves (motive := fun tables row =>
      Outcomes.relevant (row.storedView codec) = true →
        ∀ eventId, (row.storedView codec).eventId = some eventId → eventId ≠ "" →
          Knows tables.2.events (row.storedView codec).reporter eventId) ?_ ?_ hfold
    · intro start row next hnext hrelevant eventId hid hname
      obtain ⟨outcomes, houtcomes, rfl⟩ := map_eq_some_iff.mp hnext
      rw [Outcomes.apply_events houtcomes, if_pos hrelevant]
      exact knows_foldedOnce hid hname
    · intro start row other next hnext hstart hrelevant eventId hid hname
      obtain ⟨outcomes, houtcomes, rfl⟩ := map_eq_some_iff.mp hnext
      exact Outcomes.knows_apply houtcomes (hstart hrelevant eventId hid hname)
  unfold replayOutcomes
  rw [eventRows_eq hincreasing]
  refine foldlM_eq_self fun row hrow => ?_
  by_cases hrelevant : Outcomes.relevant (row.storedView codec) = true
  · obtain ⟨eventId, hid, hname⟩ := (hnamed row hrow hrelevant).exists_id
    exact Outcomes.apply_again _ _ hid hname
      fun hrelevant => hknown row hrow hrelevant eventId hid hname
  · unfold Outcomes.apply
    rw [if_neg hrelevant]

theorem outcomes_apply_congr {outcomes : Outcomes.Tables} {event : EventView}
    (hlots : Outcomes.relevant event = true →
      ∀ repo ∈ event.repo, ∀ pr ∈ event.pr,
        Flow.lotsOfPr flow repo pr = Flow.lotsOfPr settled repo pr) :
    Outcomes.apply flow outcomes event = Outcomes.apply settled outcomes event := by
  unfold Outcomes.apply
  split
  next hrelevant =>
    have hpulls : ∀ keyed, Outcomes.lotsFor flow keyed event =
        Outcomes.lotsFor settled keyed event := by
      intro keyed
      unfold Outcomes.lotsFor
      split
      · rfl
      · rfl
      next repo pr _ hrepo hpr =>
        unfold Outcomes.pullLots
        rw [hlots hrelevant repo hrepo pr hpr]
      · rfl
    have hincident : ∀ keyed, Outcomes.incidentLots flow keyed event =
        Outcomes.incidentLots settled keyed event := by
      intro keyed
      unfold Outcomes.incidentLots
      split
      next repo pr hrepo hpr =>
        rw [hlots hrelevant repo hrepo pr hpr]
      · rfl
    unfold Outcomes.fold Outcomes.incident
    simp only [hpulls, hincident]
  · rfl

theorem foldlM_foldRow_of_joinsSettled {start outcomes : Outcomes.Tables}
    (hjoins : JoinsSettled codec log settled flow rows)
    (hreplay : rows.foldlM
      (fun outcomes row => Outcomes.apply settled outcomes (row.storedView codec)) start =
        some outcomes) :
    rows.foldlM (foldRow codec log) (flow, start) =
      some (rows.foldl (foldFlowRow codec log) flow, outcomes) := by
  induction rows generalizing flow start with
  | nil =>
    cases hreplay
    rfl
  | cons row rest ih =>
    obtain ⟨next, hnext, hrest⟩ := foldlM_cons_eq_some hreplay
    have hrow : foldRow codec log (flow, start) row =
        some (foldFlowRow codec log flow row, next) := by
      unfold foldRow
      dsimp only
      rw [outcomes_apply_congr hjoins.1, hnext]
      rfl
    rw [foldlM_cons, hrow]
    exact ih hjoins.2 hrest

end Folds

section Runs

variable {codec : Codec} {older : OlderLog} {database : Database}

theorem insert_unpruned {store next : Store} {reporter : String} {event : NewEvent} {nowMs : Int}
    {inserted : Inserted} (hinsert : insert codec store reporter event nowMs = .ok (next, inserted))
    (hkept : NothingPruned store nowMs) :
    next = store ∨
      let row := newRow store reporter event nowMs
      next.log = store.log ++ [row] ∧ next.seq = row.seq ∧
        next.flow =
          Flow.apply (evidenceOf codec (store.log ++ [row]) row.seq) store.flow row.view ∧
        Outcomes.apply next.flow store.outcomes row.view = some next.outcomes := by
  rcases insert_eq_ok hinsert with ⟨-, hsame⟩ | ⟨-, stored, projected, hstored, hprojected, rfl⟩
  · exact .inl hsame
  · obtain ⟨-, outcomes, houtcomes, rfl⟩ := storeRow_eq_ok hstored
    obtain ⟨incidents, -, rfl⟩ := projectReports_eq_ok hprojected
    refine .inr ⟨?_, ?_, ?_, ?_⟩
    · unfold prune
      split
      next hdue =>
        refine filter_eq_self.mpr fun row hrow => ?_
        rcases mem_append.mp hrow with hold | hnew
        · have hyoung := hkept hdue row hold
          simpa using hyoung
        · rw [mem_singleton.mp hnew]
          have hnow : ¬ nowMs < nowMs - retentionMs := by
            unfold retentionMs
            omega
          exact Bool.not_eq_eq_eq_not.mpr (decide_eq_false hnow)
      · rfl
    · rw [prune_seq]
      exact max_eq_right (Int.le_add_one (le_refl store.seq))
    · unfold prune
      split <;> rfl
    · unfold prune
      split
      · exact houtcomes
      · exact houtcomes

theorem log_replayFlowLedger (fails : Bool) :
    (replayFlowLedger codec database fails).store.log = database.store.log := by
  unfold replayFlowLedger
  split <;> rfl

theorem outcomeReplayed_replayFlowLedger (fails : Bool) :
    (replayFlowLedger codec database fails).outcomeReplayed = database.outcomeReplayed := by
  unfold replayFlowLedger
  split <;> rfl

structure Backfilled (codec : Codec) (older : OlderLog) (database : Database) : Prop where
  increasing : database.store.log.Pairwise fun first second => first.seq < second.seq
  below : ∀ row ∈ database.store.log, row.seq ≤ database.store.seq
  /-- Nothing was there before: every event was projected when it was inserted. -/
  fresh : older.rows = [] →
    foldLog codec database.store.log = some (database.store.flow, database.store.outcomes)
  flow : older.rows ≠ [] → database.store.flow =
    if database.flowReplayed then foldFlow codec database.store.log else Flow.Tables.empty
  outcomes : older.rows ≠ [] →
    if database.outcomeReplayed then
      foldLog codec database.store.log =
        some (foldFlow codec database.store.log, database.store.outcomes)
    else
      database.store.outcomes = Outcomes.Tables.empty

section Backfilled

variable (hfilled : Backfilled codec older database)
include hfilled

theorem Backfilled.replayFlowLedger {fails : Bool}
    (hnamed : older.rows = [] → database.flowReplayed = false → fails = false →
      AllNamed codec database.store.log hasSteps) :
    Backfilled codec older (replayFlowLedger codec database fails) := by
  unfold Pipeline.replayFlowLedger
  split
  · exact hfilled
  next hgoes =>
    obtain ⟨hnot, hsucceeds⟩ : database.flowReplayed = false ∧ fails = false := by
      simpa using hgoes
    refine ⟨hfilled.increasing, hfilled.below, ?_, ?_, ?_⟩
    · intro hempty
      have hfold := hfilled.fresh hempty
      have hflow : database.store.flow = foldFlow codec database.store.log :=
        foldLog_fst hfold
      rw [hflow, replayFlow_again hfilled.increasing (hnamed hempty hnot hsucceeds), ← hflow]
      exact hfold
    · intro hsome
      have hflow := hfilled.flow hsome
      rw [hnot] at hflow
      rw [hflow]
      simp only [Bool.false_eq_true, if_false, if_true, replayFlow, eventRows_eq hfilled.increasing]
      rfl
    · intro hsome
      exact hfilled.outcomes hsome

theorem Backfilled.replayOutcomeLedger {fails : Bool} {next : Database}
    (hnamed : older.rows = [] → database.outcomeReplayed = false → fails = false →
      AllNamed codec database.store.log Outcomes.relevant)
    (hjoins : older.rows ≠ [] → database.outcomeReplayed = false → fails = false →
      JoinsSettled codec database.store.log database.store.flow Flow.Tables.empty
        database.store.log) (hnext : replayOutcomeLedger codec database fails = some next) :
    Backfilled codec older next := by
  unfold Pipeline.replayOutcomeLedger at hnext
  split at hnext
  · cases hnext
    exact hfilled
  next hgoes =>
    obtain ⟨hnot, hsucceeds⟩ : database.outcomeReplayed = false ∧ fails = false := by
      simpa using hgoes
    obtain ⟨outcomes, hreplay, rfl⟩ := map_eq_some_iff.mp hnext
    refine ⟨hfilled.increasing, hfilled.below, ?_, hfilled.flow, ?_⟩
    · intro hempty
      have hfold := hfilled.fresh hempty
      have hsame := replayOutcomes_again hfilled.increasing hfold
        (hnamed hempty hnot hsucceeds) database.store.flow
      obtain rfl : database.store.outcomes = outcomes :=
        Option.some.inj (hsame.symm.trans hreplay)
      exact hfold
    · intro hsome
      have hbefore := hfilled.outcomes hsome
      rw [hnot] at hbefore
      unfold replayOutcomes at hreplay
      rw [eventRows_eq hfilled.increasing, hbefore] at hreplay
      exact foldlM_foldRow_of_joinsSettled (hjoins hsome hnot hsucceeds) hreplay

theorem Backfilled.insert {store : Store} {row : LogRow}
    (hreads : row.detail.bind codec.reread = row.detail)
    (hready : older.rows = [] ∨ database.flowReplayed = true ∧ database.outcomeReplayed = true)
    (hseq : row.seq = database.store.seq + 1) (hlog : store.log = database.store.log ++ [row])
    (htop : store.seq = row.seq)
    (hflow : store.flow = Flow.apply
      (evidenceOf codec (database.store.log ++ [row]) row.seq) database.store.flow row.view)
    (houtcomes : Outcomes.apply store.flow database.store.outcomes row.view = some store.outcomes) :
    Backfilled codec older { database with store := store } := by
  have hfoldFlow : database.store.flow = foldFlow codec database.store.log →
      store.flow = foldFlow codec store.log := by
    intro hbefore
    rw [hlog, foldFlow_concat, foldFlowRow, storedView_eq hreads, ← hbefore]
    exact hflow
  have hfoldLog : foldLog codec database.store.log =
        some (database.store.flow, database.store.outcomes) →
      foldLog codec store.log = some (store.flow, store.outcomes) := by
    intro hbefore
    rw [hlog, foldLog_concat, hbefore, bind_some]
    unfold foldRow foldFlowRow
    dsimp only
    rw [storedView_eq hreads, ← hflow, houtcomes]
    rfl
  refine ⟨?_, ?_, fun hempty => hfoldLog (hfilled.fresh hempty), ?_, ?_⟩
  · rw [hlog]
    refine pairwise_append.mpr ⟨hfilled.increasing, pairwise_singleton _ _, ?_⟩
    intro earlier hearlier later hlater
    have hbelow := hfilled.below earlier hearlier
    rw [mem_singleton.mp hlater]
    omega
  · rw [hlog, htop]
    intro other hother
    rcases mem_append.mp hother with hold | hnew
    · have hbelow := hfilled.below other hold
      omega
    · rw [mem_singleton.mp hnew]
  · intro hsome
    rcases hready with hempty | ⟨hreplayed, -⟩
    · exact absurd hempty hsome
    · have hbefore := hfilled.flow hsome
      simp only [hreplayed, if_true] at hbefore ⊢
      exact hfoldFlow hbefore
  · intro hsome
    rcases hready with hempty | ⟨hflowReplayed, hreplayed⟩
    · exact absurd hempty hsome
    · have hflowBefore := hfilled.flow hsome
      have hbefore := hfilled.outcomes hsome
      simp only [hflowReplayed, hreplayed, if_true] at hflowBefore hbefore ⊢
      rw [← hflowBefore] at hbefore
      rw [← hfoldFlow hflowBefore]
      exact hfoldLog hbefore

theorem Backfilled.step {action : DatabaseAction} {next : Database}
    (hready : Recognised codec older database action) (hreads : action.Rereads codec)
    (hstep : (Pipeline.database codec older).step database action = some next) :
    Backfilled codec older next := by
  cases action with
  | «open» flowFails outcomeFails =>
    obtain ⟨opened, hopened, rfl⟩ := map_eq_some_iff.mp hstep
    obtain ⟨hnamed, hjoins⟩ := hready
    have hflow := hfilled.replayFlowLedger fun hempty => (hnamed hempty).1
    have houtcomes := hflow.replayOutcomeLedger
      (by rw [log_replayFlowLedger, outcomeReplayed_replayFlowLedger]
          exact fun hempty => (hnamed hempty).2)
      (by rw [log_replayFlowLedger, outcomeReplayed_replayFlowLedger]
          exact hjoins) hopened
    exact ⟨houtcomes.increasing, houtcomes.below, houtcomes.fresh, houtcomes.flow,
      houtcomes.outcomes⟩
  | insert reporter event nowMs =>
    simp only [Pipeline.database] at hstep
    split at hstep
    · obtain ⟨store, hstore, rfl⟩ := map_eq_some_iff.mp hstep
      rcases settle_eq_some hstore with rfl | ⟨inserted, hinsert⟩
      · exact hfilled
      · rcases insert_unpruned hinsert hready.1 with rfl | ⟨hlog, hseq, hflow, houtcomes⟩
        · exact hfilled
        · have hread : (newRow database.store reporter event nowMs).detail.bind codec.reread =
              (newRow database.store reporter event nowMs).detail := hreads
          exact hfilled.insert hread hready.2 rfl hlog hseq hflow houtcomes
    · cases hstep

end Backfilled

theorem backfilled_start (codec : Codec) (older : OlderLog) :
    Backfilled codec older (Pipeline.database codec older).start where
  increasing := older.increasing
  below := older.below
  fresh := by
    intro hempty
    simp only [Pipeline.database, hempty]
    rfl
  flow := fun _ => rfl
  outcomes := fun _ => rfl

end Runs

/-- Whatever starts fail, once a replay is on record its ledger is the fold of the log from
empty ledgers, each event once and in order, if the details that are inserted are read back as
they were, the events that a replay projects again are recognised, and an older log is replayed
before it grows and with the joins its events had. -/
theorem run_backfilled (codec : Codec) (older : OlderLog) (actions : List DatabaseAction)
    (final : Database) (hreads : ∀ action ∈ actions, action.Rereads codec)
    (hmeets : (database codec older).Meets (Recognised codec older) actions)
    (hrun : (database codec older).run actions = some final) :
    (final.flowReplayed = true → final.store.flow = foldFlow codec final.store.log) ∧
      (final.outcomeReplayed = true →
        foldLog codec final.store.log =
          some (foldFlow codec final.store.log, final.store.outcomes)) := by
  have hboth := Machine.MeetsFrom.and _ hmeets (Machine.meetsFrom_of_forall _ hreads _)
  have hfilled : Backfilled codec older final :=
    (database codec older).run_invariant (backfilled_start codec older)
      (fun _ _ _ hstate hready hstep => hstate.step hready.1 hready.2 hstep) hboth hrun
  by_cases hempty : older.rows = []
  · have hfold := hfilled.fresh hempty
    have hflow : final.store.flow = foldFlow codec final.store.log := foldLog_fst hfold
    rw [← hflow]
    exact ⟨fun _ => rfl, fun _ => hfold⟩
  · have hflow := hfilled.flow hempty
    have houtcomes := hfilled.outcomes hempty
    constructor
    · intro hreplayed
      simpa [hreplayed] using hflow
    · intro hreplayed
      simpa [hreplayed] using houtcomes

def filed : NewEvent :=
  { NewEvent.forge "todo.filed" "checkout is slow" with todoId := some "checkout-todo" }

def claimed : NewEvent :=
  { NewEvent.forge "todo.claimed" "checkout is slow" with todoId := some "checkout-todo" }

def retriedStart : List DatabaseAction :=
  [.open true true, .insert "forge" filed 1000, .insert "forge" claimed 2000, .open false false]

/-- The retried replay projects the two events a second time: the todo has waited in the
queue twice. -/
theorem retriedStart_visitsTwice :
    ∃ final, (database monthStarts OlderLog.empty).run retriedStart = some final ∧
      final.flowReplayed = true ∧ final.outcomeReplayed = true ∧
        final.store.flow.ledger ≠ (foldFlow monthStarts final.store.log).ledger := by
  refine ⟨((database monthStarts OlderLog.empty).run retriedStart).get (by decide +kernel),
    (some_get (by decide +kernel)).symm, ?_⟩
  decide +kernel

def landedBefore : OlderLog where
  rows :=
    [{ landing with seq := 1, tsMs := 1000, reporter := "forge" },
      { pullOpened with seq := 2, tsMs := 2000, reporter := "forge" }]
  seq := 2
  increasing := by decide
  below := by decide

-- Its replay reads the join that the second event made and files the landing under the
-- todo; the fold files it under the pull request.
example :
    (((database monthStarts landedBefore).run [.open false false]).map fun final =>
      (final.store.outcomes.ledger.get? "acme/shop#7").isSome) = some false ∧
    ((foldLog monthStarts landedBefore.rows).map fun tables =>
      (tables.2.ledger.get? "acme/shop#7").isSome) = some true := by
  decide +kernel

def filedBefore : OlderLog where
  rows := [{ filed with seq := 1, tsMs := 1000, reporter := "forge" }]
  seq := 1
  increasing := pairwise_singleton _ _
  below := by simp

/-- The first start's replays fail, and the todo is claimed after the second start's went
through. -/
def claimedLater : List DatabaseAction :=
  [.open true true, .open false false, .insert "forge" claimed 2000]

theorem run_backfilled_claimedLater :
    ∃ final, (database monthStarts filedBefore).run claimedLater = some final ∧
      final.store.flow = foldFlow monthStarts final.store.log ∧
        final.store.flow.ledger.length = 2 := by
  have hfinal := run_backfilled monthStarts filedBefore claimedLater
    (((database monthStarts filedBefore).run claimedLater).get (by decide +kernel))
    (by simp [claimedLater, DatabaseAction.Rereads, claimed, NewEvent.forge]) (by decide +kernel)
      (some_get (by decide +kernel)).symm
  exact ⟨_, (some_get (by decide +kernel)).symm, hfinal.1 (by decide +kernel), by decide +kernel⟩

end JeryuForge.Pipeline
