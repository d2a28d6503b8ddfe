import JeryuForge.Presence.Store

/-!
# Whole runs of the presence store

Every write leaves the rows as they were, or writes the row of its own session over what
it kept of the others.  From that: the caps hold after every write, no row that a reader
sees is deleted, and, unless the write itself prunes the session's old row, an ended
session is not listed again and only its reporter or an admin changes it.
-/

namespace JeryuForge.Presence

open Option OrdMap

inductive Write (store : Store) : Action → Rows → Prop
  | refused (action : Action) : Write store action store.rows
  | upserted {beat stored : PresenceRow} {request : Request} {kept after : Rows}
      (hupserted : Upserted store.limits store.rows kept (store.pruneDue request.now) beat
        request.actor request.admin request.now stored after) :
      Write store (.upsert beat request) after
  | ended {sessionId : String} {request : Request} {row : PresenceRow}
      (hget : store.rows.get? sessionId = some row)
      (howner : row.reporter = request.actor ∨ request.admin = true)
      (hrunning : row.endedMs = none) :
      Write store (.endAs sessionId request)
        (store.rows.insert sessionId (endedRow row request.now))

def AllRecent (rows : Rows) : Prop :=
  ∀ id row, rows.get? id = some row → row.Recent

section Apply

variable {scan : Scan} {store : Store}

theorem counted_of_budget {reporter : String} {now : Int64} {answer : Except StoreError Unit}
    {counted : Store} (hbudget : budget store reporter now = (answer, counted)) :
    ∃ budgets, counted = { store with budgets := budgets } := by
  obtain rfl : _ = counted := congrArg Prod.snd hbudget
  unfold budget
  dsimp only
  split
  · exact ⟨_, rfl⟩
  · split
    · exact ⟨_, rfl⟩
    · exact ⟨_, rfl⟩

theorem write_upsertAs (hrecent : AllRecent store.rows) (beat : PresenceRow) (request : Request) :
    Write store (.upsert beat request) (upsertAs scan store beat request).2.rows ∧
      (upsertAs scan store beat request).2.limits = store.limits := by
  unfold upsertAs
  split
  next counted hbudget =>
    obtain ⟨budgets, rfl⟩ := counted_of_budget hbudget
    exact ⟨.refused _, rfl⟩
  next counted hbudget =>
    obtain ⟨budgets, rfl⟩ := counted_of_budget hbudget
    split
    · exact ⟨.refused _, rfl⟩
    · dsimp only
      split
      · exact ⟨.refused _, rfl⟩
      next hupsert =>
        obtain ⟨kept, hupserted⟩ := upsertRows_ok hrecent hupsert
        exact ⟨.upserted hupserted, rfl⟩

theorem write_endAs (sessionId : String) (request : Request) :
    Write store (.endAs sessionId request) (endAs store sessionId request).2.rows ∧
      (endAs store sessionId request).2.limits = store.limits := by
  unfold endAs
  split
  next counted hbudget =>
    obtain ⟨budgets, rfl⟩ := counted_of_budget hbudget
    exact ⟨.refused _, rfl⟩
  next counted hbudget =>
    obtain ⟨budgets, rfl⟩ := counted_of_budget hbudget
    split
    · exact ⟨.refused _, rfl⟩
    · exact ⟨.refused _, rfl⟩
    next row _ hget =>
      split
      · exact ⟨.refused _, rfl⟩
      next howner =>
        split
        next hrunning =>
          refine ⟨.ended hget ?_ (isNone_iff_eq_none.mp hrunning), rfl⟩
          by_contra hneither
          rw [not_or] at hneither
          exact howner (by simp [hneither.1, hneither.2])
        · exact ⟨.refused _, rfl⟩

theorem write_apply (hrecent : AllRecent store.rows) (action : Action) :
    Write store action (action.apply scan store).rows ∧
      (action.apply scan store).limits = store.limits := by
  cases action with
  | upsert beat request => exact write_upsertAs hrecent beat request
  | endAs sessionId request => exact write_endAs sessionId request

theorem AllRecent.write (hrecent : AllRecent store.rows) {action : Action} {after : Rows}
    (hwrite : Write store action after) : AllRecent after := by
  intro id row hget
  cases hwrite with
  | refused => exact hrecent id row hget
  | @upserted beat stored request kept _ hupserted =>
    have hkept : ∀ id row, kept.get? id = some row → row.Recent :=
      fun id row hget => hrecent id row (hupserted.trimmed.get?_eq_some hget)
    rw [hupserted.after_eq] at hget
    rcases get?_insert_eq_some hget with ⟨-, rfl⟩ | ⟨-, hold⟩
    · rw [hupserted.stored_eq]
      exact recent_stamp (fun row hprevious => hkept _ row hprevious) hupserted.least hupserted.most
    · exact hkept id row hold
  | ended hold _ hrunning =>
    rcases get?_insert_eq_some hget with ⟨-, rfl⟩ | ⟨-, hold'⟩
    · exact Recent.endedRow (hrecent _ _ hold) hrunning _
    · exact hrecent id row hold'

end Apply

structure Within (limits : Limits) (rows : Rows) (now : Int64) : Prop where
  listed : rows.count (fun _ row => row.listed now) ≤ limits.listed
  reporterListed : ∀ reporter, rows.count (listedOf reporter now) ≤ limits.reporterListed
  retained : rows.size ≤ limits.retained
  reporterRetained : ∀ reporter, rows.count (ofReporter reporter) ≤ limits.reporterRetained

section Caps

variable {limits : Limits} {rows : Rows} {now later : Int64}

section Within

variable (hwithin : Within limits rows now)
include hwithin

theorem Within.mono (hle : now ≤ later) : Within limits rows later where
  listed := (count_le_count fun _ _ hlisted =>
    PresenceRow.listed_of_le hle hlisted).trans hwithin.listed
  reporterListed reporter := by
    refine (count_le_count fun id row hlisted => ?_).trans (hwithin.reporterListed reporter)
    obtain ⟨hreporter, hlater⟩ := Bool.and_eq_true_iff.mp hlisted
    exact Bool.and_eq_true_iff.mpr ⟨hreporter, PresenceRow.listed_of_le hle hlater⟩
  retained := hwithin.retained
  reporterRetained := hwithin.reporterRetained

theorem Within.trimmed {kept : Rows} (htrimmed : Trimmed now rows kept) :
    Within limits kept now where
  listed := (htrimmed.count_le _).trans hwithin.listed
  reporterListed reporter := (htrimmed.count_le _).trans (hwithin.reporterListed reporter)
  retained := htrimmed.size_le.trans hwithin.retained
  reporterRetained reporter :=
    (htrimmed.count_le _).trans (hwithin.reporterRetained reporter)

theorem Within.insert {id : String} {stored : PresenceRow} (hlisted : stored.listed now = true →
      (∃ old, rows.get? id = some old ∧ old.reporter = stored.reporter ∧ old.listed now = true) ∨
        rows.count (fun _ row => row.listed now) < limits.listed ∧
          rows.count (listedOf stored.reporter now) < limits.reporterListed)
    (hroom : (∃ old, rows.get? id = some old ∧ old.reporter = stored.reporter) ∨
      rows.size < limits.retained ∧
        rows.count (ofReporter stored.reporter) < limits.reporterRetained) :
    Within limits (rows.insert id stored) now where
  listed := by
    refine count_insert_le hwithin.listed fun hnew => ?_
    rcases hlisted hnew with ⟨old, hget, -, hold⟩ | ⟨htotal, -⟩
    · exact .inl ⟨old, hget, hold⟩
    · exact .inr htotal
  reporterListed reporter := by
    refine count_insert_le (hwithin.reporterListed reporter) fun hnew => ?_
    obtain ⟨hof, hstored⟩ := Bool.and_eq_true_iff.mp hnew
    obtain rfl : stored.reporter = reporter := of_decide_eq_true hof
    rcases hlisted hstored with ⟨old, hget, hsame, hold⟩ | ⟨-, hown⟩
    · exact .inl ⟨old, hget, Bool.and_eq_true_iff.mpr ⟨decide_eq_true hsame, hold⟩⟩
    · exact .inr hown
  retained := by
    rcases hroom with ⟨old, hget, -⟩ | ⟨htotal, -⟩
    · rw [size_insert_of_get?_eq_some hget]
      exact hwithin.retained
    · exact (size_insert_le _ _ _).trans htotal
  reporterRetained reporter := by
    refine count_insert_le (hwithin.reporterRetained reporter) fun hnew => ?_
    obtain rfl : stored.reporter = reporter := of_decide_eq_true hnew
    rcases hroom with ⟨old, hget, hsame⟩ | ⟨-, hown⟩
    · exact .inl ⟨old, hget, decide_eq_true hsame⟩
    · exact .inr hown

end Within

theorem listed_endedRow {row : PresenceRow} (hrunning : row.endedMs = none)
    (hunlisted : row.listed now = false) : (endedRow row now).listed now = false := by
  have hended : (endedRow row now).lastMs = endTime row now := lastMs_of_endedMs rfl
  rw [← hunlisted, Bool.eq_iff_iff, PresenceRow.listed_iff, PresenceRow.listed_iff, hended,
    lastMs_of_not_ended hrunning, endTime_of_not_listed hrunning hunlisted]

theorem within_write {store : Store} {action : Action} {after : Rows}
    (hwithin : Within store.limits store.rows action.now) (hwrite : Write store action after) :
    Within store.limits after action.now := by
  cases hwrite with
  | refused => exact hwithin
  | @upserted beat stored request kept _ hupserted =>
    have hkept : Within store.limits kept request.now := hwithin.trimmed hupserted.trimmed
    rw [hupserted.after_eq]
    have hreporter : ∀ old, kept.get? beat.sessionId = some old →
        old.reporter = stored.reporter := by
      intro old hold
      rw [hupserted.stored_eq, hold]
      rfl
    refine hkept.insert (fun hlisted => ?_) ?_
    · rcases hupserted.capped hlisted with ⟨old, hget, hold⟩ | hcapped
      · exact .inl ⟨old, hget, hreporter old hget, hold⟩
      · exact .inr hcapped
    · cases hprevious : kept.get? beat.sessionId with
      | none => exact .inr (hupserted.room hprevious)
      | some old => exact .inl ⟨old, rfl, hreporter old hprevious⟩
  | @ended sessionId request row hget _ hrunning =>
    refine hwithin.insert (fun hlisted => .inl ⟨row, hget, rfl, ?_⟩) (.inl ⟨row, hget, rfl⟩)
    by_contra hunlisted
    have hended := listed_endedRow hrunning (Bool.eq_false_iff.mpr hunlisted)
    exact absurd (hended.symm.trans hlisted) (by simp)

end Caps

/-- The write itself deletes the session's row as too old before it looks it up. -/
def Action.prunesOwn (store : Store) : Action → Bool
  | .upsert beat request =>
    store.pruneDue request.now &&
      (store.rows.get? beat.sessionId).any fun row => row.outdated request.now
  | .endAs _ _ => false

/-- No row that a reader sees goes, and only the session's own changes; a session that
is not listed is not listed by ending it; and a write by neither the session's reporter
nor an admin changes no row. -/
structure Obeys (before : Rows) (action : Action) (after : Rows) : Prop where
  keepsListed : ∀ id row, before.get? id = some row → row.listed action.now = true →
    ∃ kept, after.get? id = some kept ∧ (id ≠ action.sessionId → kept = row)
  staysUnlisted : action.ends = true → ∀ row, before.get? action.sessionId = some row →
    row.listed action.now = false →
      ∀ ended, after.get? action.sessionId = some ended → ended.listed action.now = false
  ownerOnly : ∀ row, before.get? action.sessionId = some row →
    row.reporter ≠ action.request.actor → action.request.admin = false → after = before

section Rules

variable {store : Store} {action : Action} {after : Rows}

variable {stored row beat : PresenceRow}

theorem exists_get?_insert {kept : Rows} {session id : String} (hget : kept.get? id = some row) :
    ∃ found, (kept.insert session stored).get? id = some found ∧
      (id ≠ session → found = row) := by
  by_cases hsame : id = session
  · subst hsame
    exact ⟨stored, get?_insert_self _ _ _, fun hne => absurd rfl hne⟩
  · exact ⟨row, (get?_insert_of_ne _ _ hsame).trans hget, fun _ => rfl⟩

theorem keepsListed_write (hwrite : Write store action after) (id : String) (row : PresenceRow)
    (hget : store.rows.get? id = some row) (hlisted : row.listed action.now = true) :
    ∃ kept, after.get? id = some kept ∧ (id ≠ action.sessionId → kept = row) := by
  cases hwrite with
  | refused => exact ⟨row, hget, fun _ => rfl⟩
  | upserted hupserted =>
    rw [hupserted.after_eq]
    exact exists_get?_insert (hupserted.trimmed.get?_of_listed hget hlisted)
  | ended _ _ _ => exact exists_get?_insert hget

/-- An `ended` beat keeps the time until which the session was listed. -/
theorem listed_stamp_ended {actor : String} {now : Int64}
    (hstate : beat.state = .ended) (hunlisted : stored.listed now = false) :
    (stamp (some stored) beat actor now).listed now = false := by
  have hended : (stamp (some stored) beat actor now).endedMs =
      some (stored.endedMs.getD (endTime stored now)) := by
    simp [stamp, hstate]
  have hlast : (stamp (some stored) beat actor now).lastMs = stored.lastMs := by
    rw [lastMs_of_endedMs hended]
    cases hstored : stored.endedMs with
    | none =>
      rw [lastMs_of_not_ended hstored]
      exact endTime_of_not_listed hstored hunlisted
    | some ended =>
      rw [lastMs_of_endedMs hstored]
      rfl
  rw [← hunlisted, Bool.eq_iff_iff, PresenceRow.listed_iff, PresenceRow.listed_iff, hlast]

theorem kept_of_not_prunesOwn {request : Request}
    (hkeeps : Action.prunesOwn store (.upsert beat request) = false)
    (hget : store.rows.get? beat.sessionId = some row) :
    ¬(store.pruneDue request.now = true ∧ row.outdated request.now = true) := by
  rintro ⟨hdue, houtdated⟩
  simp only [Action.prunesOwn, hdue, hget, any_some, houtdated] at hkeeps
  cases hkeeps

theorem staysUnlisted_write (hwrite : Write store action after)
    (hkeeps : action.prunesOwn store = false) (hends : action.ends = true) (row : PresenceRow)
    (hget : store.rows.get? action.sessionId = some row) (hunlisted : row.listed action.now = false)
    (ended : PresenceRow) (hended : after.get? action.sessionId = some ended) :
    ended.listed action.now = false := by
  cases hwrite with
  | refused =>
    obtain rfl := Option.some.inj (hget.symm.trans hended)
    exact hunlisted
  | upserted hupserted =>
    have hkept := hupserted.own row hget (kept_of_not_prunesOwn hkeeps hget)
    rw [hupserted.after_eq] at hended
    obtain rfl := Option.some.inj ((get?_insert_self _ _ _).symm.trans hended)
    rw [hupserted.stored_eq, hkept]
    exact listed_stamp_ended (of_decide_eq_true hends) hunlisted
  | ended hold _ hrunning =>
    obtain rfl := Option.some.inj (hold.symm.trans hget)
    obtain rfl := Option.some.inj ((get?_insert_self _ _ _).symm.trans hended)
    exact listed_endedRow hrunning hunlisted

theorem ownerOnly_write (hwrite : Write store action after)
    (hkeeps : action.prunesOwn store = false) (row : PresenceRow)
    (hget : store.rows.get? action.sessionId = some row)
    (hstranger : row.reporter ≠ action.request.actor) (hadmin : action.request.admin = false) :
    after = store.rows := by
  cases hwrite with
  | refused => rfl
  | upserted hupserted =>
    have hkept := hupserted.own row hget (kept_of_not_prunesOwn hkeeps hget)
    rcases hupserted.owner row hkept with howner | hadmin'
    · exact absurd howner hstranger
    · exact absurd (hadmin.symm.trans hadmin') (by simp)
  | ended hold howner _ =>
    obtain rfl := Option.some.inj (hold.symm.trans hget)
    rcases howner with howner | hadmin'
    · exact absurd howner hstranger
    · exact absurd (hadmin.symm.trans hadmin') (by simp)

end Rules

structure Sound (limits : Limits) (state : State) : Prop where
  limits_eq : state.store.limits = limits
  recent : AllRecent state.store.rows
  within : Within limits state.store.rows state.clock

section Runs

variable {scan : Scan} {limits : Limits}

theorem sound_start (scan : Scan) (limits : Limits) : Sound limits (machine scan limits).start where
  limits_eq := rfl
  recent := nofun
  within := ⟨Nat.zero_le _, fun _ => Nat.zero_le _, Nat.zero_le _, fun _ => Nat.zero_le _⟩

theorem step_eq_some {state next : State} {action : Action}
    (hstep : (machine scan limits).step state action = some next) :
    state.clock ≤ action.now ∧
      next = { store := action.apply scan state.store, clock := action.now } := by
  change (if action.now < state.clock then none else some _) = some next at hstep
  split at hstep
  · cases hstep
  next hclock =>
    exact ⟨Int64.not_lt.mp hclock, (Option.some.inj hstep).symm⟩

theorem Sound.step {state next : State} {action : Action} (hsound : Sound limits state)
    (hstep : (machine scan limits).step state action = some next) : Sound limits next := by
  obtain ⟨hclock, rfl⟩ := step_eq_some hstep
  obtain ⟨hwrite, hlimits⟩ := write_apply hsound.recent action
  refine ⟨hlimits.trans hsound.limits_eq, hsound.recent.write hwrite, ?_⟩
  have hwithin := hsound.within.mono hclock
  rw [← hsound.limits_eq] at hwithin ⊢
  exact within_write hwithin hwrite

/-- After every write of every run the caps hold; and a write that does not prune its own
session's row as too old obeys the rules of listing and ownership. -/
theorem run_bounded {actions : List Action} {action : Action} {before after : State}
    (hrun : (machine scan limits).run actions = some before)
    (hstep : (machine scan limits).step before action = some after)
    (hkeeps : action.prunesOwn before.store = false) :
    (visible after.store action.now).length ≤ limits.listed ∧
      Within limits after.store.rows action.now ∧
      Obeys before.store.rows action after.store.rows := by
  have hbefore : Sound limits before := Machine.run_invariant_always _ (sound_start scan limits)
    (fun _ _ _ hsound hstep => hsound.step hstep) hrun
  have hafter := hbefore.step hstep
  obtain ⟨hclock, rfl⟩ := step_eq_some hstep
  obtain ⟨hwrite, -⟩ := write_apply hbefore.recent action
  refine ⟨?_, hafter.within, keepsListed_write hwrite, staysUnlisted_write hwrite hkeeps,
    ownerOnly_write hwrite hkeeps⟩
  unfold visible
  rw [List.filter_map, List.length_map]
  exact hafter.within.listed

def inOrder : Scan :=
  { order := fun entries => entries, perm := fun _ => List.Perm.refl _ }

def beatOf (sessionId : String) (state : PresenceState) : PresenceRow :=
  { sessionId := sessionId, reporter := "", state := state, ttlSeconds := 30
    receivedMs := 0, expiresMs := 0, endedMs := none }

def writeBy (actor : String) (now : Int64) : Request :=
  { actor := actor, admin := false, now := now, fault := none }

def reportedOnce : List Action :=
  [.upsert (beatOf "s1" .active) (writeBy "ada" 0)]

def onceReported : State :=
  ((machine inOrder .default).run reportedOnce).get (by decide +kernel)

/-- Fourteen days on, the write that comes first prunes the session it is about: an
`ended` beat lists it again, and a beat by someone else takes it over. -/
theorem prunedSession_listedAndTakenOver :
    (machine inOrder .default).run reportedOnce = some onceReported ∧
      (∃ row, onceReported.store.rows.get? "s1" = some row ∧ row.reporter = "ada" ∧
        row.listed 1209600001 = false) ∧
      (∃ row, ((Action.upsert (beatOf "s1" .ended) (writeBy "ada" 1209600001)).apply inOrder
          onceReported.store).rows.get? "s1" = some row ∧ row.listed 1209600001 = true) ∧
      ∃ row, ((Action.upsert (beatOf "s1" .active) (writeBy "bob" 1209600001)).apply inOrder
          onceReported.store).rows.get? "s1" = some row ∧ row.reporter = "bob" := by
  refine ⟨(some_get (by decide +kernel)).symm, ?_, ?_, ?_⟩
  · exact ⟨_, (some_get (by decide +kernel)).symm, by decide +kernel, by decide +kernel⟩
  · exact ⟨_, (some_get (by decide +kernel)).symm, by decide +kernel⟩
  · exact ⟨_, (some_get (by decide +kernel)).symm, by decide +kernel⟩

/-- Eleven minutes on, the session is not listed and can be ended without listing it. -/
theorem run_bounded_endedLater :
    ∃ before after : State, (machine inOrder .default).run reportedOnce = some before ∧
      (before.store.rows.get? "s1").any (fun row => !row.listed 660000) = true ∧
      Within .default after.store.rows 660000 ∧
      Obeys before.store.rows (.upsert (beatOf "s1" .ended) (writeBy "ada" 660000))
        after.store.rows := by
  have hrun : (machine inOrder .default).run reportedOnce = some onceReported :=
    (some_get (by decide +kernel)).symm
  have hstep : (machine inOrder .default).step onceReported
      (.upsert (beatOf "s1" .ended) (writeBy "ada" 660000)) =
        some (((machine inOrder .default).step onceReported
          (.upsert (beatOf "s1" .ended) (writeBy "ada" 660000))).get (by decide +kernel)) :=
    (some_get (by decide +kernel)).symm
  have hrules := run_bounded hrun hstep (by decide +kernel)
  exact ⟨_, _, hrun, by decide +kernel, hrules.2.1, hrules.2.2⟩

end Runs

end JeryuForge.Presence
