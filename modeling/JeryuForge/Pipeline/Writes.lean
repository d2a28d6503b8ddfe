import JeryuForge.Outcomes.Stored
import JeryuForge.Pipeline.Store

/-!
# What the calls write

Every call is a sequence of a few writes.  What holds of the store after any calls is
shown of each of these writes.
-/

namespace JeryuForge.Pipeline

variable {codec : Codec} {store next : Store} {event : NewEvent} {inserted : Inserted} {nowMs : Int}
  {reporter : String}

variable {stored projected final : Store} {row : LogRow} {actions : List Action}

theorem storeRow_eq_ok (hstored : storeRow codec store row = .ok stored) :
    existing store.log row.reporter row.eventId = none ∧
      ∃ outcomes,
        Outcomes.apply
          (Flow.apply (evidenceOf codec (store.log ++ [row]) row.seq) store.flow row.view)
          store.outcomes row.view = some outcomes ∧
        stored = { store with
          log := store.log ++ [row]
          seq := max store.seq row.seq
          cost := recordCost store.cost row
          flow := Flow.apply (evidenceOf codec (store.log ++ [row]) row.seq) store.flow
            row.view
          outcomes := outcomes } := by
  unfold storeRow at hstored
  split at hstored
  · cases hstored
  next hnone =>
    dsimp only at hstored
    split at hstored
    · cases hstored
    next outcomes houtcomes =>
      cases hstored
      exact ⟨by simpa using hnone, outcomes, houtcomes, rfl⟩

theorem projectReports_eq_ok (hprojected : projectReports codec store row = .ok projected) :
    ∃ incidents,
      Incidents.apply (fun text => (codec.parseTime text).toOption) store.incidents
        row.reporter row.toNewEvent row.tsMs row.seq = .ok incidents ∧
      projected = { store with
        incidents := incidents
        changes := HumanTime.apply store.flow store.changes row.toNewEvent row.tsMs } := by
  unfold projectReports at hprojected
  split at hprojected
  · cases hprojected
  next incidents hincidents =>
    cases hprojected
    exact ⟨incidents, hincidents, rfl⟩

theorem insert_eq_ok (hinsert : insert codec store reporter event nowMs = .ok (next, inserted)) :
    (inserted.duplicate = true ∧ next = store) ∨
      (inserted.duplicate = false ∧
        ∃ stored projected,
          storeRow codec store (newRow store reporter event nowMs) = .ok stored ∧
          projectReports codec stored (newRow store reporter event nowMs) = .ok projected ∧
          next = prune projected nowMs) := by
  unfold insert at hinsert
  split at hinsert
  · cases hinsert
    exact .inl ⟨rfl, rfl⟩
  · obtain ⟨stored, hstored, hrest⟩ := Except.bind_eq_ok hinsert
    obtain ⟨projected, hprojected, hdone⟩ := Except.bind_eq_ok hrest
    cases hdone
    exact .inr ⟨rfl, stored, projected, hstored, hprojected, rfl⟩

theorem exists_insert (hnone : existing store.log reporter event.eventId = none)
    (hstored : storeRow codec store (newRow store reporter event nowMs) = .ok stored)
    (hprojected : projectReports codec stored (newRow store reporter event nowMs) = .ok projected) :
    ∃ inserted, insert codec store reporter event nowMs =
      .ok (prune projected nowMs, inserted) := by
  unfold insert
  rw [hnone]
  dsimp only
  rw [hstored]
  change ∃ inserted, (projectReports _ _ _ >>= _) = _
  rw [hprojected]
  exact ⟨_, rfl⟩

theorem importEvent_eq_ok {event : Event}
    (himport : importEvent codec store event = .ok (next, inserted)) :
    next = store ∨
      ∃ tsMs, storeRow codec store
        { event with seq := event.seq, tsMs := tsMs, reporter := event.reporter } =
          .ok next := by
  unfold importEvent at himport
  split at himport
  · cases himport
  next tsMs _ =>
    split at himport
    · cases himport
      exact .inl rfl
    · obtain ⟨stored, hstored, hdone⟩ := Except.bind_eq_ok himport
      cases hdone
      exact .inr ⟨tsMs, hstored⟩

theorem prune_ledgers (store : Store) (nowMs : Int) :
    (prune store nowMs).ledgers = store.ledgers := by
  unfold prune
  split <;> rfl

theorem prune_log_sublist (store : Store) (nowMs : Int) :
    (prune store nowMs).log.Sublist store.log := by
  unfold prune
  split
  · exact List.filter_sublist
  · exact List.Sublist.refl _

theorem prune_seq (store : Store) (nowMs : Int) : (prune store nowMs).seq = store.seq := by
  unfold prune
  split <;> rfl

theorem insert_log (hinsert : insert codec store reporter event nowMs = .ok (next, inserted)) :
    (inserted.duplicate = true ∧ next = store) ∨
      (inserted.duplicate = false ∧
        next.log.Sublist (store.log ++ [newRow store reporter event nowMs]) ∧
        next.seq = store.seq + 1) := by
  rcases insert_eq_ok hinsert with hsame | ⟨hnew, stored, projected, hstored, hprojected, rfl⟩
  · exact .inl hsame
  · obtain ⟨-, outcomes, -, rfl⟩ := storeRow_eq_ok hstored
    obtain ⟨incidents, -, rfl⟩ := projectReports_eq_ok hprojected
    refine .inr ⟨hnew, prune_log_sublist _ nowMs, ?_⟩
    rw [prune_seq]
    exact max_eq_right (Int.le_add_one (le_refl store.seq))

theorem settle_eq_some {α : Type}
    {result : Except Failure (Store × α)} (hnext : settle store result = some next) :
    next = store ∨ ∃ answer, result = .ok (next, answer) := by
  unfold settle at hnext
  split at hnext
  · cases hnext
    exact .inr ⟨_, rfl⟩
  · cases hnext
    exact .inl rfl
  · cases hnext

inductive Writes (codec : Codec) (store : Store) : Store → Prop where
  | row {next : Store} (row : LogRow) (hstored : storeRow codec store row = .ok next) :
      Writes codec store next
  | reports {next : Store} (row : LogRow) (hseq : row.seq ≤ store.seq)
      (hprojected : projectReports codec store row = .ok next) :
      Writes codec store next
  | prune (nowMs : Int) : Writes codec store (prune store nowMs)
  | delivery (delivery : Flow.Delivery) (revisions : List Flow.Revision) :
      Writes codec store (applyDelivery codec store delivery revisions)
  | charge (mark : HumanTime.Mark) : Writes codec store (chargeHumanMinutes store mark)
  | reopen : Writes codec store { store with lastPruneMs := 0 }

open Relation (ReflTransGen)

theorem insert_writes (hinsert : insert codec store reporter event nowMs = .ok (next, inserted)) :
    ReflTransGen (Writes codec) store next := by
  rcases insert_eq_ok hinsert with ⟨_, rfl⟩ | ⟨_, stored, projected, hstored, hprojected, rfl⟩
  · exact ReflTransGen.refl
  · have hseq : (newRow store reporter event nowMs).seq ≤ stored.seq := by
      obtain ⟨_, outcomes, _, rfl⟩ := storeRow_eq_ok hstored
      exact le_max_right ..
    exact ((ReflTransGen.single (Writes.row _ hstored)).tail
      (Writes.reports _ hseq hprojected)).tail (Writes.prune nowMs)

theorem step_writes {action : Action} (hstep : (machine codec).step store action = some next) :
    ReflTransGen (Writes codec) store next := by
  cases action with
  | insert reporter event nowMs =>
    rcases settle_eq_some hstep with rfl | ⟨inserted, hinsert⟩
    · exact ReflTransGen.refl
    · exact insert_writes hinsert
  | importEvent event =>
    rcases settle_eq_some hstep with rfl | ⟨inserted, himport⟩
    · exact ReflTransGen.refl
    · rcases importEvent_eq_ok himport with rfl | ⟨tsMs, hstored⟩
      · exact ReflTransGen.refl
      · exact ReflTransGen.single (Writes.row _ hstored)
  | applyDelivery delivery revisions =>
    cases hstep
    exact ReflTransGen.single (Writes.delivery delivery revisions)
  | chargeHumanMinutes mark =>
    cases hstep
    exact ReflTransGen.single (Writes.charge mark)
  | reopen =>
    cases hstep
    exact ReflTransGen.single Writes.reopen

theorem runFrom_writes (hrun : (machine codec).runFrom store actions = some final) :
    ReflTransGen (Writes codec) store final :=
  (machine codec).runFrom_invariant (motive := ReflTransGen (Writes codec) store)
    (fun _ _ _ hstate _ hstep => hstate.trans (step_writes hstep)) ReflTransGen.refl
    ((machine codec).meetsFrom_true store actions) hrun

/-- Whatever is called, a visit that has left its station is never written again, but for the
lot that it is counted under. -/
theorem runFrom_left_stands {index : Nat} {visit : Flow.Visit}
    (hvisit : store.flow.ledger[index]? = some visit) (hleft : visit.isOpen = false)
    (hrun : (machine codec).runFrom store actions = some final) :
    ∃ found, final.flow.ledger[index]? = some found ∧ Flow.Renamed visit found := by
  have hstands : Flow.Stands index visit store.flow.ledger := ⟨visit, hvisit, rfl⟩
  change Flow.Stands index visit final.flow.ledger
  replace hrun := runFrom_writes hrun
  induction hrun with
  | refl => exact hstands
  | tail _ hlast ih =>
    cases hlast with
    | row row hstored =>
      obtain ⟨_, outcomes, _, rfl⟩ := storeRow_eq_ok hstored
      exact Flow.Stands.apply hleft ih _ _
    | reports row _ hprojected =>
      obtain ⟨incidents, _, rfl⟩ := projectReports_eq_ok hprojected
      exact ih
    | prune nowMs =>
      unfold Pipeline.prune
      split <;> exact ih
    | delivery delivery revisions => exact Flow.Stands.applyDelivery hleft ih _ _ _
    | charge mark => exact ih
    | reopen => exact ih

theorem runFrom_left_stands_landed :
    ∃ store visit final,
      (machine monthStarts).run
        [.insert "forge" pullOpened 1000, .insert "forge" landing 3000] = some store ∧
      store.flow.ledger[0]? = some visit ∧ visit.leftMs = some 3000 ∧
      (machine monthStarts).runFrom store
        [.insert "forge" { pullOpened with eventId := none } 4000] = some final ∧
      ∃ found, final.flow.ledger[0]? = some found ∧ Flow.Renamed visit found := by
  refine ⟨_, _, _, (Option.some_get (by decide +kernel)).symm,
    (Option.some_get (by decide +kernel)).symm, by decide +kernel,
    (Option.some_get (by decide +kernel)).symm, ?_⟩
  exact runFrom_left_stands (Option.some_get (by decide +kernel)).symm (by decide +kernel)
    (Option.some_get (by decide +kernel)).symm

structure Sound (store : Store) : Prop where
  named : Flow.Named store.flow.ledger
  stored : Outcomes.Stored store.outcomes
  bounded : Incidents.Bounded store.incidents store.seq

theorem sound_empty : Sound Store.empty where
  named := fun _ hvisit => by cases hvisit
  stored := Outcomes.stored_empty
  bounded := fun id row hrow => by
    rw [show Store.empty.incidents.ledger = ∅ from rfl, OrdMap.get?_empty] at hrow
    cases hrow

theorem Sound.writes (hsound : Sound store) (hwrites : Writes codec store next) : Sound next := by
  cases hwrites with
  | row row hstored =>
    obtain ⟨_, outcomes, houtcomes, rfl⟩ := storeRow_eq_ok hstored
    have hnamed := hsound.named.apply (evidenceOf codec (store.log ++ [row]) row.seq) row.view
    obtain ⟨found, hfound, hkept⟩ := @Outcomes.Stored.apply
      { tables := _, named := hnamed } _ hsound.stored row.view
    cases hfound.symm.trans houtcomes
    exact ⟨hnamed, hkept, hsound.bounded.mono (le_max_left ..)⟩
  | reports row hseq hprojected =>
    obtain ⟨incidents, hincidents, rfl⟩ := projectReports_eq_ok hprojected
    exact ⟨hsound.named, hsound.stored, hsound.bounded.apply_le hseq hincidents⟩
  | prune nowMs =>
    unfold Pipeline.prune
    split
    · exact ⟨hsound.named, hsound.stored, hsound.bounded⟩
    · exact hsound
  | delivery delivery revisions =>
    have hnamed := hsound.named.applyDelivery
      (evidenceOf codec store.log delivery.seq) delivery revisions
    exact ⟨hnamed, hsound.stored, hsound.bounded⟩
  | charge mark =>
    unfold chargeHumanMinutes
    exact ⟨hsound.named, hsound.stored, hsound.bounded⟩
  | reopen => exact ⟨hsound.named, hsound.stored, hsound.bounded⟩

theorem Sound.reaches (hsound : Sound store)
    (hwrites : ReflTransGen (Writes codec) store final) : Sound final := by
  induction hwrites with
  | refl => exact hsound
  | tail _ hlast ih => exact ih.writes hlast

theorem Sound.storeRow_ne_panicked {store : Store} (hsound : Sound store) (row : LogRow) :
    storeRow codec store row ≠ .error .panicked := by
  obtain ⟨outcomes, houtcomes, _⟩ := @Outcomes.Stored.apply
    { tables := _
      named := hsound.named.apply (evidenceOf codec (store.log ++ [row]) row.seq) row.view }
    _ hsound.stored row.view
  unfold storeRow
  split
  · simp
  · dsimp only at houtcomes ⊢
    rw [houtcomes]
    simp

theorem Sound.step_isSome {store : Store} (hsound : Sound store) (action : Action) :
    ((machine codec).step store action).isSome := by
  have hsettled : ∀ {α : Type} {result : Except Failure (Store × α)},
      result ≠ .error .panicked → (settle store result).isSome := by
    intro α result hresult
    unfold settle
    split
    · rfl
    · rfl
    · exact absurd rfl hresult
  cases action with
  | insert reporter event nowMs =>
    refine hsettled ?_
    unfold Pipeline.insert
    split
    · simp
    · refine Except.bind_ne_error (hsound.storeRow_ne_panicked _) fun stored => ?_
      refine Except.bind_ne_error ?_ fun projected => ?_
      · unfold projectReports
        split <;> simp
      · rintro ⟨⟩
  | importEvent event =>
    refine hsettled ?_
    unfold Pipeline.importEvent
    split
    · simp
    · split
      · simp
      · refine Except.bind_ne_error (hsound.storeRow_ne_panicked _) fun stored => ?_
        rintro ⟨⟩
  | applyDelivery | chargeHumanMinutes | reopen => rfl

/-- No sequence of requests makes a projection panic. -/
theorem run_isSome (actions : List Action) : ((machine codec).run actions).isSome := by
  have hfrom : ∀ store, Sound store → ((machine codec).runFrom store actions).isSome := by
    induction actions with
    | nil => exact fun _ _ => rfl
    | cons action rest ih =>
      intro store hsound
      obtain ⟨next, hnext⟩ := Option.isSome_iff_exists.mp
        (Sound.step_isSome hsound action)
      rw [Machine.runFrom, hnext]
      exact ih next (hsound.reaches (step_writes hnext))
  exact hfrom _ sound_empty

/-- The statements of `insert` in their order.  What a projection runs stands as one statement:
all of it is in the transaction. -/
inductive Statement where
  | lookup
  | begin
  | log
  | cost
  | flow
  | outcomes
  | incidents
  | changes
  | commit
  | prune
deriving DecidableEq

structure Fault where
  statement : Statement
  text : String

/-- Statements that are run; one of them fails if the fault is there. -/
def execute (fault : Option Fault) (statements : List Statement) : Except Failure Unit :=
  match fault with
  | none => .ok ()
  | some fault =>
    if fault.statement ∈ statements then .error (.refused fault.text) else .ok ()

def rowStatements (row : LogRow) : List Statement :=
  [.begin, .log] ++ (if row.costUsd.isSome then [.cost] else []) ++ [.flow, .outcomes]

def commitRow (codec : Codec) (store : Store) (row : LogRow) (fault : Option Fault) :
    Except Failure Store := do
  execute fault (rowStatements row)
  let stored ← storeRow codec store row
  execute fault [.incidents, .changes]
  let projected ← projectReports codec stored row
  execute fault [.commit]
  return projected

def pruneDue (store : Store) (nowMs : Int) : Bool :=
  nowMs - store.lastPruneMs ≥ pruneEveryMs

/-- `insert` behind its look for the event's id: the stored state and the answer.  A transaction
that fails is rolled back. -/
def appendWith (codec : Codec) (store : Store) (reporter : String) (event : NewEvent) (nowMs : Int)
    (fault : Option Fault) : Store × Except Failure Inserted :=
  let row := newRow store reporter event nowMs
  match commitRow codec store row fault with
  | .error failure => (store, .error failure)
  | .ok committed =>
    match if pruneDue committed nowMs then execute fault [.prune] else .ok () with
    | .error failure => (committed, .error failure)
    | .ok () =>
      (prune committed nowMs, .ok
        { event := { event with
            seq := row.seq, ts := codec.renderTime nowMs, reporter := reporter }
          duplicate := false })

def insertWith (codec : Codec) (store : Store) (reporter : String) (event : NewEvent) (nowMs : Int)
    (fault : Option Fault) : Store × Except Failure Inserted :=
  match if event.eventId.isSome then execute fault [.lookup] else .ok () with
  | .error failure => (store, .error failure)
  | .ok () =>
    match existing store.log reporter event.eventId with
    | some row => (store, .ok { event := eventFromRow codec row, duplicate := true })
    | none => appendWith codec store reporter event nowMs fault

variable {codec : Codec} {store committed : Store} {row : LogRow} {reporter : String}
  {event : NewEvent} {nowMs : Int} {fault : Option Fault}

/-- Behind a commit the log has one row more, and the last clean-up is the one before. -/
theorem commitRow_writes (hcommit : commitRow codec store row fault = .ok committed) :
    committed.log = store.log ++ [row] ∧ committed.lastPruneMs = store.lastPruneMs := by
  simp only [commitRow, Except.bind_eq_ok_iff] at hcommit
  obtain ⟨_, _, stored, hstored, _, _, projected, hprojected, _, _, hdone⟩ := hcommit
  cases hdone
  obtain ⟨-, outcomes, -, rfl⟩ := storeRow_eq_ok hstored
  obtain ⟨incidents, -, rfl⟩ := projectReports_eq_ok hprojected
  exact ⟨rfl, rfl⟩

theorem commitRow_prune (text : String) :
    commitRow codec store row (some ⟨.prune, text⟩) = commitRow codec store row none := by
  have hrow : .prune ∉ rowStatements row := by
    unfold rowStatements
    split <;> decide
  simp [commitRow, execute, hrow]

theorem execute_prune_eq_error {failure : Failure}
    (herror : execute fault [.prune] = .error failure) : ∃ text, fault = some ⟨.prune, text⟩ := by
  unfold execute at herror
  split at herror
  · cases herror
  next fault =>
    split at herror
    next hprune =>
      exact ⟨fault.text, by rw [← List.mem_singleton.mp hprune]⟩
    · cases herror

theorem commitRow_none : commitRow codec store row none =
    (storeRow codec store row).bind fun stored => projectReports codec stored row := by
  simp only [commitRow, execute, bind, Except.bind]
  cases storeRow codec store row with
  | error failure => rfl
  | ok stored =>
    cases hprojected : projectReports codec stored row <;> simp [hprojected, pure, Except.pure]

/-- Without a fault the call is `insert`, which rolls back all it wrote when it fails. -/
theorem insertWith_none (codec : Codec) (store : Store) (reporter : String) (event : NewEvent)
    (nowMs : Int) :
    insertWith codec store reporter event nowMs none =
      match insert codec store reporter event nowMs with
      | .ok (next, inserted) => (next, .ok inserted)
      | .error failure => (store, .error failure) := by
  simp only [insertWith, insert, appendWith, execute, ite_self, commitRow_none]
  cases existing store.log reporter event.eventId with
  | some row => rfl
  | none =>
    simp only [bind, Except.bind]
    cases storeRow codec store (newRow store reporter event nowMs) with
    | error failure => rfl
    | ok stored =>
      cases hprojected : projectReports codec stored (newRow store reporter event nowMs) <;>
        simp [hprojected, pure, Except.pure]

/-- An insert that answers with an error leaves the store as it was, unless the event is stored,
the clean-up of the log is due and it is the clean-up that fails. -/
theorem insertWith_error_iff (codec : Codec) (store : Store) (reporter : String) (event : NewEvent)
    (nowMs : Int) (fault : Option Fault) :
    (∀ text, (insertWith codec store reporter event nowMs fault).2 = .error (.refused text) →
        (insertWith codec store reporter event nowMs fault).1 = store) ↔
      ¬((∃ text, fault = some ⟨.prune, text⟩) ∧ pruneDue store nowMs ∧
        existing store.log reporter event.eventId = none ∧
        ∃ committed, commitRow codec store (newRow store reporter event nowMs) none =
          .ok committed) := by
  constructor
  · rintro hall ⟨⟨text, rfl⟩, hdue, hnone, committed, hcommit⟩
    obtain ⟨hlog, hlast⟩ := commitRow_writes hcommit
    have hresult : insertWith codec store reporter event nowMs (some ⟨.prune, text⟩) =
        (committed, .error (.refused text)) := by
      have hstill : pruneDue committed nowMs = true := by rwa [pruneDue, hlast]
      simp [insertWith, appendWith, execute, hnone, commitRow_prune, hcommit, hstill]
    have hsame := hall text (by rw [hresult])
    rw [hresult] at hsame
    rw [show committed = store from hsame] at hlog
    simp at hlog
  · intro hnot text herror
    unfold insertWith at herror ⊢
    split
    · rfl
    next hlookup =>
      split
      · rfl
      next hnone =>
        unfold appendWith at herror ⊢
        dsimp only at herror ⊢
        split
        · rfl
        next committed hcommit =>
          split
          next failure hfailed =>
            split at hfailed
            next hdue =>
              obtain ⟨text, rfl⟩ := execute_prune_eq_error hfailed
              rw [commitRow_prune] at hcommit
              rw [pruneDue, (commitRow_writes hcommit).2] at hdue
              exact absurd ⟨⟨text, rfl⟩, hdue, hnone, committed, hcommit⟩ hnot
            · cases hfailed
          next hpruned =>
            simp [hlookup, hnone, hcommit, hpruned] at herror

/-- The first event behind a start, whose clean-up of the log fails: the event has no id, so
posting it again stores it twice. -/
def failedCleanUp : Store × Except Failure Inserted :=
  insertWith monthStarts Store.empty "ci" notice pruneEveryMs (some ⟨.prune, "disk I/O error"⟩)

theorem failedCleanUp_stored :
    failedCleanUp.2 = .error (.refused "disk I/O error") ∧ failedCleanUp.1 ≠ Store.empty ∧
      (insertWith monthStarts failedCleanUp.1 "ci" notice pruneEveryMs none).1.log.length = 2 := by
  refine ⟨rfl, fun hsame => ?_, by decide +kernel⟩
  have hlog := congrArg (fun store : Store => store.log.length) hsame
  revert hlog
  decide +kernel

end JeryuForge.Pipeline
