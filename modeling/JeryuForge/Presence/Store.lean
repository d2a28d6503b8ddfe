import JeryuForge.Library.Inflation
import JeryuForge.Library.Machine
import JeryuForge.Library.Saturating
import JeryuForge.Library.Fallible

/-!
# Reported agent sessions

The table `agent_presence` of the shift store: one row per session, replaced on every
beat, with the clock as an argument of every write.  A write is one transaction under the
store's mutex, so a failed one leaves the rows as they were.
-/

namespace JeryuForge.Presence

def lingerMs : Int64 := 10 * 60 * 1000

def retentionMs : Int64 := 14 * 24 * 60 * 60 * 1000

def pruneEveryMs : Int64 := 60 * 60 * 1000

def maxReporterRows : Nat := 64
def maxRows : Nat := 1024
def maxReporterRetained : Nat := 2048
def maxRetained : Nat := 16384
def writesPerMinute : Nat := 120

structure Limits where
  reporterListed : Nat
  listed : Nat
  reporterRetained : Nat
  retained : Nat
deriving DecidableEq, Repr

def Limits.default : Limits :=
  { reporterListed := maxReporterRows
    listed := maxRows
    reporterRetained := maxReporterRetained
    retained := maxRetained }

inductive StoreError where
  | owned
  | limit
  | full
  | writeBudget
  | database (text : String)
deriving DecidableEq, Repr

inductive PresenceState where
  | active
  | idle
  | ended
deriving DecidableEq, Repr

/-- One stored session, as the last beat left it.  What the session says about its work
is not read by the store and is left out. -/
structure PresenceRow where
  sessionId : String
  reporter : String
  state : PresenceState
  ttlSeconds : Int64
  receivedMs : Int64
  expiresMs : Int64
  endedMs : Option Int64
deriving DecidableEq, Repr

def PresenceRow.listed (row : PresenceRow) (now : Int64) : Bool :=
  match row.endedMs with
  | some ended => now ≤ ended.saturatingAdd lingerMs
  | none => now ≤ row.expiresMs.saturatingAdd lingerMs

/-- When a stored session that has not ended yet ends: now while a reader still sees it,
else the moment it expired. -/
def endTime (stored : PresenceRow) (now : Int64) : Int64 :=
  if stored.listed now then
    now
  else if stored.expiresMs ≤ now then
    stored.expiresMs
  else
    now

abbrev Rows := OrdMap String PresenceRow

/-- `PresenceStore` and its `Inner`. -/
structure Store where
  rows : Rows
  lastPruneMs : Int64
  budgets : OrdMap String (Int64 × Nat)
  limits : Limits

/-- `PresenceStore::open` on an empty database. -/
def Store.init (limits : Limits) : Store :=
  { rows := ∅, lastPruneMs := 0, budgets := ∅, limits := limits }

def budget (store : Store) (reporter : String) (now : Int64) : Except StoreError Unit × Store :=
  let kept := store.budgets.retain fun _ entry => now.saturatingSub entry.1 < 60000
  if (kept.get? reporter).isNone && maxRows ≤ kept.size then
    (.error .writeBudget, { store with budgets := kept })
  else
    let entry := (kept.get? reporter).getD (now, 0)
    if writesPerMinute ≤ entry.2 then
      (.error .writeBudget, { store with budgets := kept.insert reporter entry })
    else
      (.ok (), { store with budgets := kept.insert reporter (entry.1, entry.2 + 1) })

/-! ## The statements of a transaction -/

/-- `COALESCE(ended_ms, expires_ms)`. -/
def PresenceRow.lastMs (row : PresenceRow) : Int64 :=
  row.endedMs.getD row.expiresMs

/-- The row was not beaten for as long as rows are kept.  The difference is the one of
the integers: no clock reads so early that it would not fit. -/
def PresenceRow.outdated (row : PresenceRow) (now : Int64) : Bool :=
  row.receivedMs.toInt < now.toInt - retentionMs.toInt

def pruneRows (rows : Rows) (now : Int64) : Rows :=
  rows.retain fun _ row => !row.outdated now

def ofReporter (reporter : String) (_ : String) (row : PresenceRow) : Bool :=
  row.reporter = reporter

def deleteSessions (rows : Rows) (sessions : List String) : Rows :=
  rows.retain fun id _ => decide (id ∉ sessions)

structure Scan where
  order : List (String × PresenceRow) → List (String × PresenceRow)
  perm : ∀ entries, (order entries).Perm entries

def evictOwnUnlisted (scan : Scan) (rows : Rows) (reporter : String) (bound : Nat)
    (cutoff : Int64) : Rows :=
  let excess := rows.count (ofReporter reporter) + 1 - bound
  if 0 < excess then
    let unlisted := rows.entries.filter fun entry =>
      entry.2.reporter = reporter && entry.2.lastMs < cutoff
    let oldest := (scan.order unlisted).insertionSort fun first second =>
      first.2.receivedMs.toInt ≤ second.2.receivedMs.toInt
    deleteSessions rows ((oldest.take excess).map Prod.fst)
  else
    rows

def reclaimedBefore (rows : Rows) (first second : String × PresenceRow) : Bool :=
  let retained (entry : String × PresenceRow) := rows.count (ofReporter entry.2.reporter)
  retained second < retained first ||
    (retained first = retained second &&
      (first.2.receivedMs < second.2.receivedMs ||
        (first.2.receivedMs = second.2.receivedMs && first.1 ≤ second.1)))

def makeGlobalRoom (rows : Rows) (bound : Nat) (cutoff : Int64) : Except StoreError Rows :=
  let excess := rows.size + 1 - bound
  if 0 < excess then
    let unlisted := rows.entries.filter fun entry => entry.2.lastMs < cutoff
    let reclaimed := unlisted.insertionSort fun first second =>
      reclaimedBefore rows first second = true
    let kept := deleteSessions rows ((reclaimed.take excess).map Prod.fst)
    if bound ≤ kept.size then .error .full else .ok kept
  else
    .ok rows

def makeRoom (scan : Scan) (limits : Limits) (rows : Rows) (previous : Option PresenceRow)
    (reporter : String) (now : Int64) : Except StoreError Rows :=
  if previous.isNone then
    let cutoff := now.saturatingSub lingerMs
    let kept := evictOwnUnlisted scan rows reporter limits.reporterRetained cutoff
    if limits.reporterRetained ≤ kept.count (ofReporter reporter) then
      .error .full
    else
      makeGlobalRoom kept limits.retained cutoff
  else
    .ok rows

def atListedCap (limits : Limits) (rows : Rows) (reporter : String) (now : Int64) : Bool :=
  let cutoff := now.saturatingSub lingerMs
  limits.listed ≤ rows.count (fun _ row => cutoff ≤ row.lastMs) ||
    limits.reporterListed ≤
      rows.count fun id row => ofReporter reporter id row && cutoff ≤ row.lastMs

def stamp (previous : Option PresenceRow) (beat : PresenceRow) (actor : String)
    (now : Int64) : PresenceRow :=
  { beat with
    reporter := previous.elim actor PresenceRow.reporter
    -- Repeating an ended beat does not renew the retention.
    receivedMs :=
      (previous.filter fun stored => stored.endedMs.isSome && beat.state = .ended).elim now
        PresenceRow.receivedMs
    expiresMs := now.saturatingAdd (beat.ttlSeconds.saturatingMul 1000)
    endedMs :=
      match beat.state with
      | .ended =>
        some (previous.elim now fun stored => stored.endedMs.getD (endTime stored now))
      | _ => none }

def insertRow (rows : Rows) (row : PresenceRow) : Except StoreError Rows :=
  if row.sessionId.isEmpty || 64 < row.sessionId.length then
    .error (.database "CHECK constraint failed: length(session_id) BETWEEN 1 AND 64")
  else if 30 ≤ row.ttlSeconds.toInt && row.ttlSeconds.toInt ≤ 3600 then
    .ok (rows.insert row.sessionId row)
  else
    .error (.database "CHECK constraint failed: ttl_seconds BETWEEN 30 AND 3600")

def upsertRows (scan : Scan) (limits : Limits) (rows : Rows) (prune : Bool)
    (beat : PresenceRow) (actor : String) (admin : Bool) (now : Int64) :
    Except StoreError (PresenceRow × Rows) := do
  let rows := if prune then pruneRows rows now else rows
  let previous := rows.get? beat.sessionId
  if previous.any fun existing => existing.reporter ≠ actor && !admin then
    throw .owned
  let row := stamp previous beat actor now
  if !(previous.any fun stored => stored.listed now) && row.listed now &&
      atListedCap limits rows row.reporter now then
    throw .limit
  let rows ← makeRoom scan limits rows previous row.reporter now
  let rows ← insertRow rows row
  return (row, rows)

structure Request where
  actor : String
  admin : Bool
  now : Int64
  fault : Option String
deriving DecidableEq, Repr

def Store.pruneDue (store : Store) (now : Int64) : Bool :=
  pruneEveryMs ≤ now.saturatingSub store.lastPruneMs

def upsertAs (scan : Scan) (store : Store) (beat : PresenceRow) (request : Request) :
    Except StoreError PresenceRow × Store :=
  match budget store request.actor request.now with
  | (.error failure, store) => (.error failure, store)
  | (.ok (), store) =>
    match request.fault with
    | some text => (.error (.database text), store)
    | none =>
      let prune := store.pruneDue request.now
      match upsertRows scan store.limits store.rows prune beat request.actor
          request.admin request.now with
      | .error failure => (.error failure, store)
      | .ok (row, rows) =>
        (.ok row,
          { store with
            rows := rows
            lastPruneMs := if prune then request.now else store.lastPruneMs })

def endedRow (row : PresenceRow) (now : Int64) : PresenceRow :=
  { row with state := .ended, endedMs := some (endTime row now) }

def endAs (store : Store) (sessionId : String) (request : Request) :
    Except StoreError (Option PresenceRow) × Store :=
  match budget store request.actor request.now with
  | (.error failure, store) => (.error failure, store)
  | (.ok (), store) =>
    match request.fault, store.rows.get? sessionId with
    | some text, _ => (.error (.database text), store)
    | none, none => (.ok none, store)
    | none, some row =>
      if row.reporter ≠ request.actor && !request.admin then
        (.ok none, store)
      else if row.endedMs.isNone then
        let ended := endedRow row request.now
        (.ok (some ended), { store with rows := store.rows.insert sessionId ended })
      else
        (.ok (some row), store)

def visible (store : Store) (now : Int64) : List PresenceRow :=
  (store.rows.entries.map Prod.snd).filter fun row => row.listed now

inductive Action where
  | upsert (beat : PresenceRow) (request : Request)
  | endAs (sessionId : String) (request : Request)
deriving DecidableEq, Repr

namespace Action

def request : Action → Request
  | .upsert _ request => request
  | .endAs _ request => request

def sessionId : Action → String
  | .upsert beat _ => beat.sessionId
  | .endAs sessionId _ => sessionId

def now (action : Action) : Int64 :=
  action.request.now

def ends : Action → Bool
  | .upsert beat _ => beat.state = .ended
  | .endAs _ _ => true

def apply (scan : Scan) (store : Store) : Action → Store
  | .upsert beat request => (upsertAs scan store beat request).2
  | .endAs sessionId request => (Presence.endAs store sessionId request).2

end Action

structure State where
  store : Store
  clock : Int64

def machine (scan : Scan) (limits : Limits) : Machine State Action where
  start := { store := Store.init limits, clock := Int64.minValue }
  step state action :=
    if action.now < state.clock then
      none
    else
      some { store := action.apply scan state.store, clock := action.now }

open List Option OrdMap Except

theorem toInt_lingerMs : lingerMs.toInt = 600000 := by decide

theorem toInt_retentionMs : retentionMs.toInt = 1209600000 := by decide

section Listed

variable {row : PresenceRow} {now later : Int64}

theorem PresenceRow.listed_iff :
    row.listed now = true ↔ now.toInt ≤ row.lastMs.toInt + lingerMs.toInt := by
  have hlinger : 0 ≤ lingerMs.toInt := by decide
  unfold PresenceRow.listed PresenceRow.lastMs
  cases row.endedMs with
  | none => simp only [decide_eq_true_eq, getD_none, Int64.le_saturatingAdd_iff hlinger]
  | some ended =>
    simp only [decide_eq_true_eq, getD_some, Int64.le_saturatingAdd_iff hlinger]

theorem PresenceRow.cutoff_le_lastMs :
    decide (now.saturatingSub lingerMs ≤ row.lastMs) = row.listed now := by
  rw [Bool.eq_iff_iff, PresenceRow.listed_iff, decide_eq_true_eq,
    Int64.saturatingSub_le_iff (by decide)]

theorem PresenceRow.listed_of_le (hle : now ≤ later) (hlisted : row.listed later = true) :
    row.listed now = true := by
  rw [PresenceRow.listed_iff] at hlisted ⊢
  exact (Int64.le_iff_toInt_le.mp hle).trans hlisted

theorem lastMs_of_endedMs {ended : Int64} (hended : row.endedMs = some ended) :
    row.lastMs = ended := by
  unfold PresenceRow.lastMs
  rw [hended]
  rfl

theorem lastMs_of_not_ended (hended : row.endedMs = none) : row.lastMs = row.expiresMs := by
  unfold PresenceRow.lastMs
  rw [hended]
  rfl

theorem endTime_of_not_listed (hended : row.endedMs = none) (hlisted : row.listed now = false) :
    endTime row now = row.expiresMs := by
  have hlater : ¬now.toInt ≤ row.expiresMs.toInt + lingerMs.toInt := by
    rw [← lastMs_of_not_ended hended, ← PresenceRow.listed_iff, hlisted]
    exact Bool.false_ne_true
  have hexpired : row.expiresMs ≤ now := by
    rw [Int64.le_iff_toInt_le]
    rw [toInt_lingerMs] at hlater
    omega
  unfold endTime
  rw [hlisted, if_pos hexpired]
  rfl

theorem endTime_le (row : PresenceRow) (now : Int64) : (endTime row now).toInt ≤ now.toInt := by
  unfold endTime
  split
  · exact le_rfl
  · split
    next hexpired =>
      exact Int64.le_iff_toInt_le.mp hexpired
    · exact le_rfl

end Listed

/-! ## Rows are not kept for long

An ended row keeps the time of the beat it was first stored with, so that a row a reader
sees is never as old as the rows that are pruned. -/

structure PresenceRow.Recent (row : PresenceRow) : Prop where
  running : row.endedMs = none → row.expiresMs.toInt ≤ row.receivedMs.toInt + 3600000
  ended : ∀ ended ∈ row.endedMs, ended.toInt ≤ row.receivedMs.toInt + 3600000 + lingerMs.toInt

theorem PresenceRow.Recent.not_outdated {row : PresenceRow} {now : Int64}
    (hrecent : row.Recent) (hlisted : row.listed now = true) : row.outdated now = false := by
  have hlast : row.lastMs.toInt ≤ row.receivedMs.toInt + 3600000 + lingerMs.toInt := by
    cases hended : row.endedMs with
    | none =>
      have hexpires := hrecent.running hended
      rw [lastMs_of_not_ended hended, toInt_lingerMs]
      omega
    | some ended =>
      rw [lastMs_of_endedMs hended]
      exact hrecent.ended ended hended
  have hnow := PresenceRow.listed_iff.mp hlisted
  unfold PresenceRow.outdated
  rw [decide_eq_false_iff_not]
  rw [toInt_lingerMs] at hlast hnow
  rw [toInt_retentionMs]
  omega

theorem Recent.endedRow {row : PresenceRow} (hrecent : row.Recent)
    (hended : row.endedMs = none) (now : Int64) : (endedRow row now).Recent := by
  refine ⟨nofun, fun ended hmem => ?_⟩
  obtain rfl : endTime row now = ended := Option.some.inj hmem
  have hexpires := hrecent.running hended
  change (endTime row now).toInt ≤ row.receivedMs.toInt + 3600000 + lingerMs.toInt
  cases hlisted : row.listed now with
  | false =>
    rw [endTime_of_not_listed hended hlisted, toInt_lingerMs]
    omega
  | true =>
    have hnow := PresenceRow.listed_iff.mp hlisted
    rw [lastMs_of_not_ended hended] at hnow
    exact (endTime_le row now).trans (by omega)

theorem expires_le {ttlSeconds now : Int64} (hleast : 30 ≤ ttlSeconds.toInt)
    (hmost : ttlSeconds.toInt ≤ 3600) :
    (now.saturatingAdd (ttlSeconds.saturatingMul 1000)).toInt ≤ now.toInt + 3600000 := by
  have hproduct : (ttlSeconds.saturatingMul 1000).toInt = ttlSeconds.toInt * 1000 := by
    rcases Int64.toInt_ofIntClamp_cases (ttlSeconds.toInt * 1000) with h | ⟨h, -⟩ | ⟨h, -⟩
    · exact h
    · omega
    · omega
  have hsum : (now.saturatingAdd (ttlSeconds.saturatingMul 1000)).toInt ≤
      now.toInt + (ttlSeconds.saturatingMul 1000).toInt :=
    Int64.toInt_saturatingAdd_le (by omega)
  omega

theorem recent_stamp {previous : Option PresenceRow} {beat : PresenceRow} {actor : String}
    {now : Int64} (hprevious : ∀ stored ∈ previous, stored.Recent)
    (hleast : 30 ≤ beat.ttlSeconds.toInt) (hmost : beat.ttlSeconds.toInt ≤ 3600) :
    (stamp previous beat actor now).Recent := by
  by_cases hstate : beat.state = .ended
  · refine ⟨fun hnone => by simp [stamp, hstate] at hnone, fun ended hmem => ?_⟩
    cases previous with
    | none =>
      obtain rfl : now = ended := by simpa [stamp, hstate] using hmem
      have hreceived : (stamp none beat actor now).receivedMs = now := rfl
      rw [hreceived, toInt_lingerMs]
      omega
    | some stored =>
      cases hended : stored.endedMs with
      | none =>
        obtain rfl : endTime stored now = ended := by
          simpa [stamp, hstate, hended] using hmem
        have hreceived : (stamp (some stored) beat actor now).receivedMs = now := by
          simp [stamp, hended, Option.filter]
        have hle := endTime_le stored now
        rw [hreceived, toInt_lingerMs]
        omega
      | some before =>
        obtain rfl : before = ended := by simpa [stamp, hstate, hended] using hmem
        have hreceived : (stamp (some stored) beat actor now).receivedMs =
            stored.receivedMs := by
          simp [stamp, hstate, hended, Option.filter]
        rw [hreceived]
        exact (hprevious stored rfl).ended before hended
  · have hrunning : (stamp previous beat actor now).endedMs = none := by
      unfold stamp
      cases hbeat : beat.state with
      | ended => exact absurd hbeat hstate
      | active | idle => rfl
    have hreceived : (stamp previous beat actor now).receivedMs = now := by
      cases previous with
      | none => rfl
      | some stored => simp [stamp, hstate, Option.filter]
    refine ⟨fun _ => ?_, fun ended hmem => ?_⟩
    · rw [hreceived]
      exact expires_le hleast hmost
    · rw [hrunning] at hmem
      cases hmem

section Trim

variable {now : Int64} {before after : Rows}

def Trimmed (now : Int64) (before after : Rows) : Prop :=
  ∃ keep : String → PresenceRow → Bool, after = before.retain keep ∧
    ∀ id row, before.get? id = some row → row.listed now = true → keep id row = true

theorem Trimmed.refl (now : Int64) (rows : Rows) : Trimmed now rows rows := by
  refine ⟨fun _ _ => true, ?_, fun _ _ _ _ => rfl⟩
  refine ext_get? fun id => ?_
  rw [get?_retain]
  cases rows.get? id with
  | none | some => rfl

variable {id : String} {row : PresenceRow} {rows kept : Rows}

section Kept

variable (htrimmed : Trimmed now before after)
include htrimmed

theorem Trimmed.get?_of_listed (hget : before.get? id = some row)
    (hlisted : row.listed now = true) :
    after.get? id = some row := by
  obtain ⟨keep, rfl, hkeep⟩ := htrimmed
  rw [get?_retain, hget]
  simp [hkeep id row hget hlisted]

theorem Trimmed.get?_eq_some (hget : after.get? id = some row) : before.get? id = some row := by
  obtain ⟨keep, rfl, -⟩ := htrimmed
  rw [get?_retain, filter_eq_some_iff] at hget
  exact hget.1

theorem Trimmed.trans {last : Rows} (hlast : Trimmed now after last) : Trimmed now before last := by
  have hafter := htrimmed
  obtain ⟨first, rfl, hfirst⟩ := htrimmed
  obtain ⟨second, rfl, hsecond⟩ := hlast
  refine ⟨fun id row => first id row && second id row, ?_, fun id row hget hlisted => ?_⟩
  · refine ext_get? fun id => ?_
    rw [get?_retain, get?_retain, get?_retain, Option.filter_filter]
  · have hkept := hafter.get?_of_listed hget hlisted
    exact Bool.and_eq_true_iff.mpr ⟨hfirst id row hget hlisted, hsecond id row hkept hlisted⟩

theorem Trimmed.count_le (test : String → PresenceRow → Bool) :
    after.count test ≤ before.count test := by
  obtain ⟨keep, rfl, -⟩ := htrimmed
  exact (filter_sublist.filter _).length_le

theorem Trimmed.size_le : after.size ≤ before.size := by
  obtain ⟨keep, rfl, -⟩ := htrimmed
  exact size_retain_le _ _

end Kept

theorem trimmed_deleteSessions {victims : List (String × PresenceRow)}
    (hvictims : ∀ entry ∈ victims,
      entry ∈ before.entries ∧ entry.2.lastMs < now.saturatingSub lingerMs) :
    Trimmed now before (deleteSessions before (victims.map Prod.fst)) := by
  refine ⟨_, rfl, fun id row hget hlisted => decide_eq_true fun hmem => ?_⟩
  obtain ⟨entry, hentry, rfl⟩ := mem_map.mp hmem
  obtain ⟨hstored, hlast⟩ := hvictims entry hentry
  have hsame : row = entry.2 := by
    have hget' := (before.get?_eq_some_iff entry.1 entry.2).mpr hstored
    rw [hget] at hget'
    exact Option.some.inj hget'
  rw [hsame, ← PresenceRow.cutoff_le_lastMs, decide_eq_true_eq, ← Int64.not_lt] at hlisted
  exact hlisted hlast

theorem trimmed_evictOwnUnlisted (scan : Scan) (rows : Rows) (reporter : String) (bound : Nat) :
    Trimmed now rows
      (evictOwnUnlisted scan rows reporter bound (now.saturatingSub lingerMs)) := by
  unfold evictOwnUnlisted
  dsimp only
  split
  · refine trimmed_deleteSessions fun entry hentry => ?_
    have hsorted := mem_of_mem_take hentry
    have hunlisted := (scan.perm _).mem_iff.mp ((mem_insertionSort _).mp hsorted)
    obtain ⟨hstored, htest⟩ := mem_filter.mp hunlisted
    exact ⟨hstored, of_decide_eq_true (Bool.and_eq_true_iff.mp htest).2⟩
  · exact Trimmed.refl now rows

theorem makeGlobalRoom_ok {bound : Nat}
    (hroom : makeGlobalRoom rows bound (now.saturatingSub lingerMs) = .ok kept) :
    Trimmed now rows kept ∧ kept.size < bound := by
  unfold makeGlobalRoom at hroom
  dsimp only at hroom
  split_ifs at hroom with hexcess hfull
  · obtain rfl := ok.inj hroom
    refine ⟨trimmed_deleteSessions fun entry hentry => ?_, not_le.mp hfull⟩
    have hsorted := (mem_insertionSort _).mp (mem_of_mem_take hentry)
    obtain ⟨hstored, htest⟩ := mem_filter.mp hsorted
    exact ⟨hstored, of_decide_eq_true htest⟩
  · obtain rfl := ok.inj hroom
    exact ⟨Trimmed.refl now rows, by omega⟩

theorem makeRoom_ok {scan : Scan} {limits : Limits} {previous : Option PresenceRow}
    {reporter : String} (hroom : makeRoom scan limits rows previous reporter now = .ok kept) :
    Trimmed now rows kept ∧ (previous.isSome → rows = kept) ∧
      (previous = none → kept.size < limits.retained ∧
        kept.count (ofReporter reporter) < limits.reporterRetained) := by
  cases previous with
  | some row =>
    obtain rfl : rows = kept := ok.inj hroom
    exact ⟨Trimmed.refl now rows, fun _ => rfl, nofun⟩
  | none =>
    unfold makeRoom at hroom
    simp only [isNone_none, if_true] at hroom
    split at hroom
    · cases hroom
    next howned =>
      have hevicted := @trimmed_evictOwnUnlisted now scan rows reporter limits.reporterRetained
      obtain ⟨htrimmed, hsize⟩ := makeGlobalRoom_ok hroom
      exact ⟨hevicted.trans htrimmed, nofun, fun _ => ⟨hsize,
        lt_of_le_of_lt (htrimmed.count_le _) (not_le.mp howned)⟩⟩

end Trim

def listedOf (reporter : String) (now : Int64) (id : String) (row : PresenceRow) : Bool :=
  ofReporter reporter id row && row.listed now

theorem atListedCap_eq_false {limits : Limits} {rows : Rows} {reporter : String}
    {now : Int64} (hcap : atListedCap limits rows reporter now = false) :
    rows.count (fun _ row => row.listed now) < limits.listed ∧
      rows.count (listedOf reporter now) < limits.reporterListed := by
  unfold atListedCap at hcap
  simp only [PresenceRow.cutoff_le_lastMs, Bool.or_eq_false_iff,
    decide_eq_false_iff_not, not_le] at hcap
  exact hcap

structure Upserted (limits : Limits) (before kept : Rows) (pruned : Bool)
    (beat : PresenceRow) (actor : String) (admin : Bool) (now : Int64)
    (stored : PresenceRow) (after : Rows) : Prop where
  trimmed : Trimmed now before kept
  own : ∀ row, before.get? beat.sessionId = some row →
    ¬(pruned = true ∧ row.outdated now = true) → kept.get? beat.sessionId = some row
  owner : ∀ row, kept.get? beat.sessionId = some row → row.reporter = actor ∨ admin = true
  stored_eq : stored = stamp (kept.get? beat.sessionId) beat actor now
  capped : stored.listed now = true →
    (∃ row, kept.get? beat.sessionId = some row ∧ row.listed now = true) ∨
      kept.count (fun _ row => row.listed now) < limits.listed ∧
        kept.count (listedOf stored.reporter now) < limits.reporterListed
  room : kept.get? beat.sessionId = none →
    kept.size < limits.retained ∧
      kept.count (ofReporter stored.reporter) < limits.reporterRetained
  least : 30 ≤ beat.ttlSeconds.toInt
  most : beat.ttlSeconds.toInt ≤ 3600
  after_eq : after = kept.insert beat.sessionId stored

section Upsert

variable {scan : Scan} {limits : Limits} {before after : Rows} {pruned : Bool}
  {beat stored : PresenceRow} {actor : String} {admin : Bool} {now : Int64}

theorem insertRow_ok {rows : Rows} (hinsert : insertRow rows stored = .ok after) :
    30 ≤ stored.ttlSeconds.toInt ∧ stored.ttlSeconds.toInt ≤ 3600 ∧
      after = rows.insert stored.sessionId stored := by
  unfold insertRow at hinsert
  split at hinsert
  · cases hinsert
  · split at hinsert
    next hcheck =>
      simp only [Bool.and_eq_true, decide_eq_true_eq] at hcheck
      exact ⟨hcheck.1, hcheck.2, (ok.inj hinsert).symm⟩
    · cases hinsert

theorem get?_pruneRows {row : PresenceRow} {id : String} (hget : before.get? id = some row)
    (hkept : ¬(pruned = true ∧ row.outdated now = true)) :
    (if pruned then pruneRows before now else before).get? id = some row := by
  split
  next hpruned =>
    have hfresh : row.outdated now = false :=
      Bool.eq_false_iff.mpr fun houtdated => hkept ⟨hpruned, houtdated⟩
    unfold pruneRows
    rw [get?_retain, hget]
    simp [hfresh]
  · exact hget

theorem upsertRows_ok (hrecent : ∀ id row, before.get? id = some row → row.Recent)
    (hupsert : upsertRows scan limits before pruned beat actor admin now = .ok (stored, after)) :
    ∃ kept, Upserted limits before kept pruned beat actor admin now stored after := by
  unfold upsertRows at hupsert
  dsimp only at hupsert
  have hrest : Trimmed now before (if pruned then pruneRows before now else before) := by
    split
    · refine ⟨_, rfl, fun id row hget hlisted => ?_⟩
      rw [(hrecent id row hget).not_outdated hlisted]
      rfl
    · exact Trimmed.refl now before
  have hown : ∀ row, before.get? beat.sessionId = some row →
      ¬(pruned = true ∧ row.outdated now = true) →
        (if pruned then pruneRows before now else before).get? beat.sessionId = some row :=
    fun _ hget hkept => get?_pruneRows hget hkept
  generalize (if pruned then pruneRows before now else before) = rest at hupsert hrest hown
  split at hupsert
  · cases hupsert
  rename_i howner
  split at hupsert
  · cases hupsert
  rename_i hcap
  have howner' : ∀ row, rest.get? beat.sessionId = some row →
      row.reporter = actor ∨ admin = true := by
    intro row hget
    rw [hget] at howner
    by_contra hneither
    rw [not_or] at hneither
    exact howner (by simp [hneither.1, hneither.2])
  obtain ⟨kept, hkept, hupsert⟩ := bind_eq_ok hupsert
  obtain ⟨rows, hinsert, hreturn⟩ := bind_eq_ok hupsert
  obtain ⟨rfl, rfl⟩ := Prod.mk.inj (ok.inj hreturn)
  obtain ⟨hleast, hmost, rfl⟩ := insertRow_ok hinsert
  obtain ⟨htrimmed, hsome, hnone⟩ := makeRoom_ok hkept
  have hsame : kept.get? beat.sessionId = rest.get? beat.sessionId := by
    cases hprevious : rest.get? beat.sessionId with
    | none =>
      obtain ⟨keep, rfl, -⟩ := htrimmed
      rw [get?_retain, hprevious]
      rfl
    | some row => rw [← hsome (by rw [hprevious]; rfl), hprevious]
  refine ⟨kept, {
    trimmed := hrest.trans htrimmed
    own := fun row hget hkeep => hsame.trans (hown row hget hkeep)
    owner := fun row hget => howner' row (hsame.symm.trans hget)
    stored_eq := by rw [hsame]
    capped := fun hlisted => ?_
    room := fun hget => hnone (hsame.symm.trans hget)
    least := hleast
    most := hmost
    after_eq := rfl }⟩
  by_cases hwas : (rest.get? beat.sessionId).any fun row => row.listed now
  · obtain ⟨row, hget, hrow⟩ := (any_eq_true _ _).mp hwas
    exact .inl ⟨row, hsame.trans hget, hrow⟩
  · right
    refine (atListedCap_eq_false (Bool.eq_false_iff.mpr fun hat => hcap ?_)).imp
      (lt_of_le_of_lt (htrimmed.count_le _)) (lt_of_le_of_lt (htrimmed.count_le _))
    simp [hwas, hlisted, hat]

end Upsert

end JeryuForge.Presence
