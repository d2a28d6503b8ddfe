import JeryuForge.Library.Table
import JeryuForge.Library.Machine

/-!
# One running request for each scope

Requests with keys reserve their scope, run their handler, keep their answer or not,
and drop their guard, in any order, with any clock readings and with statements that
fail.  As long as the row a guard stands on is neither expired nor evicted under it, no two
requests hold a guard on one scope; a request that runs for a day loses its row.
-/

/-! ## The idempotency keys -/

namespace JeryuForge.Idempotency

def retentionMs : Int := 24 * 60 * 60 * 1000

def maxEntries : Nat := 4096

abbrev StatusCode := { code : Nat // 100 ≤ code ∧ code < 1000 }

abbrev HeaderMap := List (String × Option String)

structure KeptReply where
  status : StatusCode
  headers : HeaderMap
  body : List UInt8
deriving DecidableEq

/-- One row of `idempotency_keys`; a row without a status is a running request. -/
structure Row where
  scope : String
  fingerprint : List UInt8
  atMs : Int
  status : Option Int
  headers : Option String
  body : Option (List UInt8)
deriving DecidableEq

inductive Reservation where
  | reserved
  | replay (reply : KeptReply)
  | inFlight
  | reused
  | unavailable (reason : String)
deriving DecidableEq

/-- The statement of `try_reserve` that fails. -/
inductive Statement where
  | expire
  | lookup
  | forget
  | count
  | evict
  | insert
deriving DecidableEq, Repr

/-- The JSON form of header pairs, and which pairs make a header. -/
structure Codec where
  renderPairs : List (String × String) → String
  parsePairs : String → Option (List (String × String))
  validHeader : String × String → Bool

section Store

variable (codec : Codec)

def renderedHeaders (headers : HeaderMap) : String :=
  codec.renderPairs (headers.filterMap fun header =>
    header.2.map fun value => (header.1, value))

def keptReply (status : Int) (headers : Option String) (body : Option (List UInt8)) :
    Option KeptReply :=
  if hstatus : 100 ≤ status.toNat ∧ status.toNat < 1000 then
    (codec.parsePairs (headers.getD "[]")).map fun pairs => {
      status := ⟨status.toNat, hstatus⟩
      headers := (pairs.filter codec.validHeader).map fun pair => (pair.1, some pair.2)
      body := body.getD [] }
  else
    none

def expire (rows : List Row) (nowMs : Int) : List Row :=
  Table.deleteWhere rows fun row => decide (row.atMs ≤ nowMs - retentionMs)

def evicted (rows : List Row) : List Row :=
  if maxEntries ≤ rows.length then
    Table.orderedBy (rows.filter fun row => row.status.isSome) Row.atMs
      (rows.length - maxEntries + 1)
  else
    []

def evict (rows : List Row) : List Row :=
  Table.deleteWhere rows fun row =>
    decide (row.scope ∈ (evicted rows).map Row.scope)

def insertRow (rows : List Row) (scope : String) (fingerprint : List UInt8) (nowMs : Int)
    (failing : Option (Statement × String)) : List Row × Reservation :=
  match failing with
  | some (.count, reason) => (rows, .unavailable reason)
  | some (.evict, reason) =>
    if maxEntries ≤ rows.length then (rows, .unavailable reason)
    else (rows ++ [⟨scope, fingerprint, nowMs, none, none, none⟩], .reserved)
  | some (.insert, reason) => (evict rows, .unavailable reason)
  | _ => (evict rows ++ [⟨scope, fingerprint, nowMs, none, none, none⟩], .reserved)

/-- `try_reserve`, once the expired rows are gone. -/
def reserveLive (rows : List Row) (scope : String) (fingerprint : List UInt8) (nowMs : Int)
    (failing : Option (Statement × String)) : List Row × Reservation :=
  match rows.find? fun row => decide (row.scope = scope) with
  | some row =>
    if row.fingerprint ≠ fingerprint then
      (rows, .reused)
    else
      match row.status with
      | none => (rows, .inFlight)
      | some status =>
        match keptReply codec status row.headers row.body, failing with
        | some reply, _ => (rows, .replay reply)
        | none, some (.forget, reason) => (rows, .unavailable reason)
        | none, _ =>
          (Table.deleteWhere rows fun row => decide (row.scope = scope), .reserved)
  | none => insertRow rows scope fingerprint nowMs failing

def reserve (rows : List Row) (scope : String) (fingerprint : List UInt8) (nowMs : Int)
    (failing : Option (Statement × String)) : List Row × Reservation :=
  match failing with
  | some (.expire, reason) => (rows, .unavailable reason)
  | some (.lookup, reason) => (expire rows nowMs, .unavailable reason)
  | failing => reserveLive codec (expire rows nowMs) scope fingerprint nowMs failing

def keep (rows : List Row) (scope : String) (reply : KeptReply) (nowMs : Int) : List Row :=
  Table.updateWhere rows (fun row => decide (row.scope = scope ∧ row.status = none))
    fun row => { row with
      atMs := nowMs
      status := some (reply.status.val : Int)
      headers := some (renderedHeaders codec reply.headers)
      body := some reply.body }

def release (rows : List Row) (scope : String) : List Row :=
  Table.deleteWhere rows fun row => decide (row.scope = scope ∧ row.status = none)

end Store

open List Table

/-- A request whose reservation was answered `Reserved` and whose guard has not been
dropped; `answered` once it has kept its answer. -/
structure Guard where
  id : Nat
  scope : String
  answered : Bool
deriving DecidableEq

structure World where
  rows : List Row
  guards : List Guard

/-- `applied` says whether the statement of a `keep` or of a dropped guard, whose
failure the store ignores, was carried out. -/
inductive Action where
  | reserve (id : Nat) (scope : String) (fingerprint : List UInt8) (nowMs : Int)
      (failing : Option (Statement × String))
  | keep (id : Nat) (reply : KeptReply) (nowMs : Int) (applied : Bool)
  | drop (id : Nat) (applied : Bool)

section Run

variable (codec : Codec)

def step (world : World) : Action → Option World
  | .reserve id scope fingerprint nowMs failing =>
    if id ∈ world.guards.map Guard.id then
      none
    else
      let result := reserve codec world.rows scope fingerprint nowMs failing
      some {
        rows := result.1
        guards :=
          if result.2 = .reserved then ⟨id, scope, false⟩ :: world.guards
          else world.guards }
  | .keep id reply nowMs applied =>
    match world.guards.find? fun guard => decide (guard.id = id) with
    | none => none
    | some guard =>
      if guard.answered then
        none
      else
        some {
          rows := if applied then keep codec world.rows guard.scope reply nowMs
            else world.rows
          guards := updateWhere world.guards
            (fun guard => decide (guard.id = id))
            fun guard => { guard with answered := true } }
  | .drop id applied =>
    match world.guards.find? fun guard => decide (guard.id = id) with
    | none => none
    | some guard =>
      some {
        rows := if applied then release world.rows guard.scope else world.rows
        guards := deleteWhere world.guards fun guard => decide (guard.id = id) }

def machine (rows : List Row) : Machine World Action where
  start := ⟨rows, []⟩
  step := step codec

end Run

def Exclusive (world : World) : Prop :=
  world.guards.Pairwise fun first second => first.scope ≠ second.scope

/-- The row of every guard outlives a reserve call: it is not a day old, and, when the
call makes room, not among the finished rows that go. -/
def RowsOutlive (world : World) (scope : String) (nowMs : Int) : Prop :=
  ∀ guard ∈ world.guards, ∀ row ∈ world.rows, row.scope = guard.scope →
    nowMs - retentionMs < row.atMs ∧
      ((∀ other ∈ expire world.rows nowMs, other.scope ≠ scope) →
        row ∉ evicted (expire world.rows nowMs))

def Readable (codec : Codec) (world : World) (scope : String) (fingerprint : List UInt8) : Prop :=
  ∀ row ∈ world.rows, row.scope = scope → row.fingerprint = fingerprint →
    ∀ status ∈ row.status, keptReply codec status row.headers row.body ≠ none

def Undisturbed (codec : Codec) (world : World) : Action → Prop
  | .reserve _ scope fingerprint nowMs _ =>
    RowsOutlive world scope nowMs ∧ Readable codec world scope fingerprint
  | _ => True

variable {rows : List Row} {id : Nat} {next : World}

theorem mem_expire {nowMs : Int} {row : Row} :
    row ∈ expire rows nowMs ↔ row ∈ rows ∧ nowMs - retentionMs < row.atMs := by
  rw [expire, mem_deleteWhere, decide_eq_false_iff_not, not_le]

theorem mem_evict_of_notMem {row : Row} (hrow : row ∈ rows)
    (hkept : ∀ other ∈ rows, other.scope = row.scope → other ∉ evicted rows) :
    row ∈ evict rows := by
  rw [evict, mem_deleteWhere, decide_eq_false_iff_not]
  refine ⟨hrow, ?_⟩
  intro hscope
  obtain ⟨gone, hgone, hsame⟩ := mem_map.mp hscope
  have hmem : gone ∈ rows := by
    unfold evicted at hgone
    split at hgone
    · exact mem_of_mem_filter ((perm_insertionSort _ _).mem_iff.mp (mem_of_mem_take hgone))
    · simp at hgone
  exact hkept gone hmem hsame hgone

/-- The call answers `Reserved` only to a scope that has no row, and then leaves one;
a row that outlives the expiry and is not evicted stays. -/
theorem insertRow_spec {scope : String} {fingerprint : List UInt8} {nowMs : Int}
    {failing : Option (Statement × String)} :
    (∀ row ∈ rows, (∀ other ∈ rows, other.scope = row.scope → other ∉ evicted rows) →
        row ∈ (insertRow rows scope fingerprint nowMs failing).1) ∧
    ((insertRow rows scope fingerprint nowMs failing).2 = .reserved →
      ∃ row ∈ (insertRow rows scope fingerprint nowMs failing).1, row.scope = scope) := by
  unfold insertRow
  split
  · exact ⟨fun row hrow _ => hrow, by simp⟩
  · split
    · exact ⟨fun row hrow _ => hrow, by simp⟩
    · exact ⟨fun row hrow _ => mem_append_left _ hrow,
        fun _ => ⟨_, mem_append_right _ (mem_singleton_self _), rfl⟩⟩
  · exact ⟨fun row hrow hkept => mem_evict_of_notMem hrow hkept, by simp⟩
  · exact ⟨fun row hrow hkept => mem_append_left _ (mem_evict_of_notMem hrow hkept),
      fun _ => ⟨_, mem_append_right _ (mem_singleton_self _), rfl⟩⟩

section Calls

variable {codec : Codec} {world : World} {scope : String} {fingerprint : List UInt8}
  {nowMs : Int} {failing : Option (Statement × String)}

/-- A scope without a row is given one; otherwise nothing is reserved, and only the expiry has
touched the rows. -/
theorem reserve_cases (hreadable : Readable codec world scope fingerprint) :
    ((∀ row ∈ expire world.rows nowMs, row.scope ≠ scope) ∧
      reserve codec world.rows scope fingerprint nowMs failing =
        insertRow (expire world.rows nowMs) scope fingerprint nowMs failing) ∨
    ∃ reservation ≠ .reserved,
      reserve codec world.rows scope fingerprint nowMs failing = (world.rows, reservation) ∨
        reserve codec world.rows scope fingerprint nowMs failing =
          (expire world.rows nowMs, reservation) := by
  unfold reserve
  split
  · exact .inr ⟨_, by simp, .inl rfl⟩
  · exact .inr ⟨_, by simp, .inr rfl⟩
  · unfold reserveLive
    cases hfound : (expire world.rows nowMs).find? fun row => decide (row.scope = scope) with
    | none => exact .inl ⟨fun row hrow => by simpa using find?_eq_none.mp hfound row hrow, rfl⟩
    | some found =>
      have hmem := (mem_expire.mp (mem_of_find?_eq_some hfound)).1
      have hown : found.scope = scope := by
        simpa using find?_some hfound
      dsimp only
      split
      · exact .inr ⟨_, by simp, .inr rfl⟩
      next hprint =>
        split
        · exact .inr ⟨_, by simp, .inr rfl⟩
        next status hstatus =>
          have hreply := hreadable found hmem hown (not_not.mp hprint) status hstatus
          split
          · exact .inr ⟨_, by simp, .inr rfl⟩
          · exact absurd ‹_› hreply
          · exact absurd ‹_› hreply

theorem reserve_keepsRow (hlive : RowsOutlive world scope nowMs)
    (hreadable : Readable codec world scope fingerprint) {guard : Guard}
    (hguard : guard ∈ world.guards) (hrow : ∃ row ∈ world.rows, row.scope = guard.scope) :
    ∃ row ∈ (reserve codec world.rows scope fingerprint nowMs failing).1,
      row.scope = guard.scope := by
  obtain ⟨row, hmem, hscope⟩ := hrow
  have hfresh : row ∈ expire world.rows nowMs :=
    mem_expire.mpr ⟨hmem, (hlive guard hguard row hmem hscope).1⟩
  refine ⟨row, ?_, hscope⟩
  rcases reserve_cases hreadable with
    ⟨hfree, hresult⟩ | ⟨reservation, _, hresult | hresult⟩
  · rw [hresult]
    refine insertRow_spec.1 row hfresh fun other hother hsame => ?_
    exact (hlive guard hguard other (mem_expire.mp hother).1 (hsame.trans hscope)).2 hfree
  · rw [hresult]
    exact hmem
  · rw [hresult]
    exact hfresh

theorem reserve_reserved (hreadable : Readable codec world scope fingerprint)
    (hreserved : (reserve codec world.rows scope fingerprint nowMs failing).2 = .reserved) :
    (∃ row ∈ (reserve codec world.rows scope fingerprint nowMs failing).1, row.scope = scope) ∧
    ∀ row ∈ expire world.rows nowMs, row.scope ≠ scope := by
  rcases reserve_cases hreadable with
    ⟨hfree, hresult⟩ | ⟨reservation, hnot, hresult | hresult⟩
  · rw [hresult] at hreserved ⊢
    exact ⟨insertRow_spec.2 hreserved, hfree⟩
  · rw [hresult] at hreserved
    exact absurd hreserved hnot
  · rw [hresult] at hreserved
    exact absurd hreserved hnot

end Calls

structure Invariant (world : World) : Prop where
  held : ∀ guard ∈ world.guards, ∃ row ∈ world.rows, row.scope = guard.scope
  exclusive : Exclusive world

variable {codec : Codec} {world : World} {nowMs : Int} {reply : KeptReply} {applied : Bool}

theorem Invariant.reserve {scope : String}
    {fingerprint : List UInt8} {failing : Option (Statement × String)}
    (hworld : Invariant world) (hlive : RowsOutlive world scope nowMs)
    (hreadable : Readable codec world scope fingerprint)
    (hstep : step codec world (.reserve id scope fingerprint nowMs failing) = some next) :
    Invariant next := by
  by_cases hused : id ∈ world.guards.map Guard.id
  · simp [step, hused] at hstep
  · simp only [step, hused, if_false, Option.some.injEq] at hstep
    subst hstep
    have hkept : ∀ guard ∈ world.guards,
        ∃ row ∈ (Idempotency.reserve codec world.rows scope fingerprint nowMs failing).1,
          row.scope = guard.scope :=
      fun guard hguard => reserve_keepsRow hlive hreadable hguard (hworld.held guard hguard)
    by_cases hreserved :
        (Idempotency.reserve codec world.rows scope fingerprint nowMs failing).2 = .reserved
    · obtain ⟨hown, hfree⟩ := reserve_reserved hreadable hreserved
      simp only [hreserved, if_true]
      constructor
      · intro guard hguard
        rcases mem_cons.mp hguard with rfl | hold
        · exact hown
        · exact hkept guard hold
      · refine pairwise_cons.mpr ⟨?_, hworld.exclusive⟩
        intro guard hguard hsame
        obtain ⟨row, hrow, hscope⟩ := hworld.held guard hguard
        have hfresh := (hlive guard hguard row hrow hscope).1
        exact hfree row (mem_expire.mpr ⟨hrow, hfresh⟩) (hscope.trans hsame.symm)
    · simp only [hreserved, if_false]
      exact ⟨hkept, hworld.exclusive⟩

theorem keep_keepsRow {scope kept : String} (hrow : ∃ row ∈ rows, row.scope = kept) :
    ∃ row ∈ keep codec rows scope reply nowMs, row.scope = kept := by
  obtain ⟨row, hmem, hscope⟩ := hrow
  refine ⟨_, mem_updateWhere.mpr ⟨row, hmem, rfl⟩, ?_⟩
  split
  · exact hscope
  · exact hscope

theorem Invariant.keep (hworld : Invariant world)
    (hstep : step codec world (.keep id reply nowMs applied) = some next) : Invariant next := by
  simp only [step] at hstep
  split at hstep
  · cases hstep
  · split at hstep
    · cases hstep
    · cases hstep
      constructor
      · intro guard hguard
        obtain ⟨old, hold, rfl⟩ := mem_updateWhere.mp hguard
        have hscope : (if decide (old.id = id) = true then
            { old with answered := true } else old).scope = old.scope := by
          split <;> rfl
        rw [hscope]
        cases applied with
        | true => exact keep_keepsRow (hworld.held old hold)
        | false => exact hworld.held old hold
      · refine pairwise_map.mpr (hworld.exclusive.imp ?_)
        intro first second hdistinct
        split <;> split <;> exact hdistinct

theorem Invariant.drop (hworld : Invariant world)
    (hstep : step codec world (.drop id applied) = some next) : Invariant next := by
  cases hfound : world.guards.find? fun guard => decide (guard.id = id) with
  | none => simp [step, hfound] at hstep
  | some found =>
    have hown : found.id = id := by
      simpa using find?_some hfound
    have hmem := mem_of_find?_eq_some hfound
    simp only [step, hfound, Option.some.injEq] at hstep
    subst hstep
    constructor
    · intro guard hguard
      obtain ⟨hold, hother⟩ := mem_deleteWhere.mp hguard
      obtain ⟨row, hrow, hscope⟩ := hworld.held guard hold
      have hdistinct : guard.scope ≠ found.scope := by
        have hsymm : Std.Symm fun first second : Guard => first.scope ≠ second.scope :=
          ⟨fun _ _ hne => hne.symm⟩
        refine List.Pairwise.forall hworld.exclusive hold hmem ?_
        rintro rfl
        simp [hown] at hother
      cases applied with
      | true =>
        refine ⟨row, mem_deleteWhere.mpr ⟨hrow, ?_⟩, hscope⟩
        rw [decide_eq_false_iff_not]
        rintro ⟨hsame, _⟩
        exact hdistinct (hscope.symm.trans hsame)
      | false => exact ⟨row, hrow, hscope⟩
    · exact hworld.exclusive.filter _

/-- In every interleaving whose reserve calls find the guarded rows undisturbed, at
most one request of a scope holds its guard at any time. -/
theorem run_exclusive (codec : Codec) (rows : List Row) (actions : List Action) (world : World)
    (hundisturbed : (machine codec rows).Meets (Undisturbed codec) actions)
    (hrun : (machine codec rows).run actions = some world) : Exclusive world := by
  have hworld : Invariant world := by
    refine (machine codec rows).run_invariant
      ⟨by simp [machine], List.Pairwise.nil⟩ ?_ hundisturbed hrun
    intro state action next hstate hcondition hstep
    change step codec state action = some next at hstep
    cases action with
    | reserve id scope fingerprint nowMs failing =>
      exact hstate.reserve hcondition.1 hcondition.2 hstep
    | keep id reply nowMs applied => exact hstate.keep hstep
    | drop id applied => exact hstate.drop hstep
  exact hworld.exclusive

instance (world : World) (scope : String) (nowMs : Int) :
    Decidable (RowsOutlive world scope nowMs) :=
  inferInstanceAs (Decidable (∀ guard ∈ world.guards, ∀ row ∈ world.rows, _ → _))

instance (codec : Codec) (world : World) (scope : String) (fingerprint : List UInt8) :
    Decidable (Readable codec world scope fingerprint) :=
  inferInstanceAs (Decidable (∀ row ∈ world.rows, _ → _ → ∀ status ∈ row.status, _))

instance (codec : Codec) (world : World) :
    (action : Action) → Decidable (Undisturbed codec world action)
  | .reserve .. => inferInstanceAs (Decidable (_ ∧ _))
  | .keep .. | .drop .. => isTrue trivial

def plainCodec : Codec where
  renderPairs := fun _ => "[]"
  parsePairs := fun text => if text = "[]" then some [] else none
  validHeader := fun _ => true

/-- A request reserves a key, a second one finds it in flight, the first keeps its
answer and drops its guard, and a third is answered from the row. -/
def keptAndReplayed : List Action :=
  [.reserve 0 "s" [7] 0 none, .reserve 1 "s" [7] 5 none,
    .keep 0 ⟨⟨201, by decide⟩, [], [1]⟩ 10 true, .drop 0 true, .reserve 2 "s" [7] 20 none,
    .reserve 3 "t" [7] 20 none]

theorem run_exclusive_keptAndReplayed :
    ∃ world, (machine plainCodec []).run keptAndReplayed = some world ∧
      world.guards = [⟨3, "t", false⟩] ∧ Exclusive world :=
  ⟨((machine plainCodec []).run keptAndReplayed).get (by decide +kernel),
    (Option.some_get _).symm, by decide +kernel,
    run_exclusive plainCodec [] keptAndReplayed _ (by decide +kernel)
      (Option.some_get _).symm⟩

/-- A request that is still running after a day, and a second one with its key. -/
def runningForADay : List Action :=
  [.reserve 0 "s" [7] 0 none, .reserve 1 "s" [7] retentionMs none]

theorem runningForADay_reserved_twice :
    ∃ world, (machine plainCodec []).run runningForADay = some world ∧
      world.guards = [⟨1, "s", false⟩, ⟨0, "s", false⟩] ∧ ¬Exclusive world := by
  refine ⟨((machine plainCodec []).run runningForADay).get (by decide +kernel),
    (Option.some_get _).symm, by decide +kernel, ?_⟩
  intro hexclusive
  have hguards : (((machine plainCodec []).run runningForADay).get
      (by decide +kernel)).guards = [⟨1, "s", false⟩, ⟨0, "s", false⟩] := by
    decide +kernel
  rw [Exclusive, hguards] at hexclusive
  exact absurd hexclusive (by decide)

end JeryuForge.Idempotency
