import JeryuForge.Clock
import JeryuForge.Library.Machine
import JeryuForge.Library.OrdMap

/-!
# Requests per window

The limits in front of the handlers count the requests of a key in windows of a minute.
All keys share one map, which is swept of finished windows once it has grown large.
A refused caller is told how many seconds to wait.
-/

namespace JeryuForge.RequestLimits

open Clock List Option

def limitWindowSecs : Int := 60

def sweepAtKeys : Nat := 4096

def u32Max : Nat := 4294967295

structure RateLimitBucket where
  attempts : Nat
  resetAt : Int
deriving DecidableEq, Repr

def RateLimitBucket.count (bucket : RateLimitBucket) : RateLimitBucket :=
  { bucket with attempts := min (bucket.attempts + 1) u32Max }

@[simp]
theorem RateLimitBucket.resetAt_count (bucket : RateLimitBucket) :
    bucket.count.resetAt = bucket.resetAt :=
  rfl

abbrev Limits := OrdMap String RateLimitBucket

def sweep (limits : Limits) (now : Int) : Limits :=
  if sweepAtKeys ≤ limits.size then
    limits.retain fun _ bucket => decide (now < bucket.resetAt)
  else
    limits

def openBucketFor (limits : Limits) (key : String) (now window : Int) : RateLimitBucket :=
  match limits.get? key with
  | none => ⟨0, now + seconds window⟩
  | some bucket => if bucket.resetAt ≤ now then ⟨0, now + seconds window⟩ else bucket

def openBucket (limits : Limits) (key : String) (now : Int) : RateLimitBucket :=
  openBucketFor limits key now limitWindowSecs

def hitFor (limits : Limits) (key : String) (now : Int) (max : Nat) (window : Int) :
    Limits × Bool :=
  if max = 0 then
    (limits, false)
  else
    let swept := sweep limits now
    let bucket := (openBucketFor swept key now window).count
    (swept.insert key bucket, decide (max < bucket.attempts))

def hit (limits : Limits) (key : String) (now : Int) (max : Nat) : Limits × Bool :=
  hitFor limits key now max limitWindowSecs

/-- What `stamp` writes into the headers. -/
structure Budget where
  limit : Nat
  remaining : Nat
  resetEpoch : Int
  retryAfterSecs : Int
deriving DecidableEq, Repr

/-- `Duration::num_milliseconds` rounds towards zero, so what the sum below rounds up is
whole milliseconds only. -/
def retryAfter (left : Int) : Int :=
  max 1 (min ((left.tdiv 1000000 + 999).tdiv 1000) limitWindowSecs)

def Budget.new (limit attempts : Nat) (resetAt now : Int) : Budget where
  limit := limit
  remaining := limit - attempts
  resetEpoch := resetAt / nanosPerSecond
  retryAfterSecs := retryAfter (resetAt - now)

def Budget.full (limit : Nat) (now : Int) : Budget :=
  Budget.new limit 0 (now + seconds limitWindowSecs) now

def hitWithBudget (limits : Limits) (key : String) (now : Int) (max : Nat) :
    Limits × Bool × Budget :=
  if max = 0 then
    (limits, false, Budget.full max now)
  else
    let swept := sweep limits now
    let bucket := (openBucket swept key now).count
    (swept.insert key bucket, decide (max < bucket.attempts),
      Budget.new max bucket.attempts bucket.resetAt now)

/-- One whole second or more, and after the whole seconds less than a millisecond. -/
def FallsShort (left : Int) : Prop :=
  nanosPerSecond ≤ left ∧ 0 < left % nanosPerSecond ∧ left % nanosPerSecond < 1000000

instance (left : Int) : Decidable (FallsShort left) :=
  inferInstanceAs (Decidable (_ ∧ _ ∧ _))

theorem le_seconds_retryAfter_iff
    {left : Int} (hpos : 0 < left) (hwindow : left ≤ seconds limitWindowSecs) :
    left ≤ seconds (retryAfter left) ↔ ¬FallsShort left := by
  have hmillis : left.tdiv 1000000 = left / 1000000 := Int.tdiv_eq_ediv_of_nonneg hpos.le
  have hsum : 0 ≤ left / 1000000 + 999 := by omega
  unfold FallsShort retryAfter
  rw [hmillis, Int.tdiv_eq_ediv_of_nonneg hsum]
  simp only [seconds, limitWindowSecs, nanosPerSecond] at *
  omega

structure Counted where
  now : Int
  bucket : RateLimitBucket
  past : Bool
  budget : Option Budget
deriving DecidableEq

structure State where
  limits : Limits
  clock : Int
  log : List Counted

inductive Action where
  | request (now : Int) (withBudget : Bool)
  | other (key : String) (now : Int) (max : Nat) (window : Int)

def request (key : String) (max : Nat) (state : State) (now : Int) (withBudget : Bool) : State :=
  let (limits, past, budget) :=
    if withBudget then
      let (limits, past, budget) := hitWithBudget state.limits key now max
      (limits, past, some budget)
    else
      let (limits, past) := hit state.limits key now max
      (limits, past, none)
  if max = 0 then
    { state with limits := limits, clock := now }
  else
    { limits := limits
      clock := now
      log := state.log ++ (limits.get? key).toList.map fun bucket => ⟨now, bucket, past, budget⟩ }

/-- The requests of one key with one limit, and those of all other keys.  The clock does
not go back. -/
def machine (key : String) (max : Nat) (start : Int) : Machine State Action where
  start := ⟨∅, start, []⟩
  step state
    | .request now withBudget =>
      if state.clock ≤ now then some (request key max state now withBudget) else none
    | .other name now limit window =>
      if state.clock ≤ now ∧ name ≠ key then
        some { state with
          limits := (hitFor state.limits name now limit window).1
          clock := now }
      else
        none

def countedIn (log : List Counted) (window : Int) : Nat :=
  log.countP fun counted => decide (counted.bucket.resetAt = window)

def allowedIn (log : List Counted) (window : Int) : Nat :=
  log.countP fun counted => decide (counted.bucket.resetAt = window) && !counted.past

/-- What the budget of a request said, and where a request that waited is counted. -/
structure Told (max : Nat) (before : List Counted) (counted : Counted) : Prop where
  remaining : ∀ budget ∈ counted.budget, 0 < budget.remaining →
    budget.remaining + countedIn (before ++ [counted]) counted.bucket.resetAt ≤ max
  fresh : ∀ refused ∈ before.getLast?, refused.past = true → ∀ budget ∈ refused.budget,
    counted.now = refused.now + seconds budget.retryAfterSecs →
      countedIn before counted.bucket.resetAt = 0

structure Fair (max : Nat) (log : List Counted) : Prop where
  allowed : ∀ window, allowedIn log window ≤ max
  told : History.Each (Told max) log

structure Tracks (key : String) (limits : Limits) (clock : Int) (log : List Counted) : Prop where
  stored : ∀ bucket, limits.get? key = some bucket →
    bucket.resetAt ≤ clock + seconds limitWindowSecs ∧
      bucket.attempts = min (countedIn log bucket.resetAt) u32Max ∧
      (∀ counted ∈ log, counted.bucket.resetAt ≤ bucket.resetAt) ∧
      ∃ last ∈ log.getLast?, last.bucket.resetAt = bucket.resetAt
  gone : limits.get? key = none → ∀ counted ∈ log, counted.bucket.resetAt ≤ clock

structure Opened (log : List Counted) (now : Int) (bucket : RateLimitBucket) : Prop where
  ahead : now < bucket.resetAt
  near : bucket.resetAt ≤ now + seconds limitWindowSecs
  attempts : bucket.attempts = min (countedIn log bucket.resetAt) u32Max
  newest : ∀ counted ∈ log, counted.bucket.resetAt ≤ bucket.resetAt
  fresh : countedIn log bucket.resetAt = 0 ∨ ∃ last ∈ log.getLast?, now < last.bucket.resetAt

variable {key : String} {max : Nat} {limits : Limits} {clock now : Int} {log : List Counted}

theorem get?_sweep (limits : Limits) (now : Int) (key : String) :
    (sweep limits now).get? key = limits.get? key ∨
      (sweep limits now).get? key = none ∧
        ∃ bucket, limits.get? key = some bucket ∧ bucket.resetAt ≤ now := by
  unfold sweep
  split
  · rw [OrdMap.get?_retain]
    cases hget : limits.get? key with
    | none => exact .inl rfl
    | some bucket =>
      by_cases hopen : now < bucket.resetAt
      · exact .inl (by simp [Option.filter, hopen])
      · exact .inr ⟨by simp [Option.filter, hopen], bucket, rfl, not_lt.mp hopen⟩
  · exact .inl rfl

theorem Tracks.later {after : Limits} (htracks : Tracks key limits clock log)
    (hsame : after.get? key = limits.get? key) (hclock : clock ≤ now) :
    Tracks key after now log := by
  constructor
  · intro bucket hbucket
    obtain ⟨hnear, hrest⟩ := htracks.stored bucket (hsame ▸ hbucket)
    exact ⟨by omega, hrest⟩
  · intro hnone counted hmem
    exact (htracks.gone (hsame ▸ hnone) counted hmem).trans hclock

theorem Tracks.sweep (htracks : Tracks key limits clock log) (hclock : clock ≤ now) :
    Tracks key (sweep limits now) now log := by
  rcases get?_sweep limits now key with hsame | ⟨hnone, swept, hget, hover⟩
  · exact htracks.later hsame hclock
  · constructor
    · intro bucket hbucket
      exact absurd (hnone.symm.trans hbucket) (by simp)
    · intro _ counted hmem
      exact ((htracks.stored swept hget).2.2.1 counted hmem).trans hover

theorem opened_new (hdone : ∀ counted ∈ log, counted.bucket.resetAt ≤ now) :
    Opened log now ⟨0, now + seconds limitWindowSecs⟩ := by
  have hahead : now < now + seconds limitWindowSecs := by
    simp only [seconds, limitWindowSecs, nanosPerSecond]
    omega
  have hnone : countedIn log (now + seconds limitWindowSecs) = 0 := by
    refine countP_eq_zero.mpr fun counted hmem => ?_
    have := hdone counted hmem
    exact fun hsame => absurd (of_decide_eq_true hsame) (by omega)
  exact {
    ahead := hahead
    near := le_rfl
    attempts := by rw [hnone]; rfl
    newest := fun counted hmem => (hdone counted hmem).trans hahead.le
    fresh := .inl hnone }

theorem Tracks.opened (htracks : Tracks key limits now log) :
    Opened log now (openBucket limits key now) := by
  unfold openBucket openBucketFor
  split
  next hnone =>
    exact opened_new (htracks.gone hnone)
  next bucket hbucket =>
    obtain ⟨hnear, hattempts, hnewest, last, hlast, hsame⟩ := htracks.stored bucket hbucket
    split
    next hover =>
      exact opened_new fun counted hmem => (hnewest counted hmem).trans hover
    next hopen =>
      exact ⟨not_le.mp hopen, hnear, hattempts, hnewest,
        .inr ⟨last, hlast, by rw [hsame]; exact not_le.mp hopen⟩⟩

def Clear (max : Nat) (now : Int) (bucket : RateLimitBucket) : Prop :=
  (max < u32Max ∨ bucket.attempts < u32Max) ∧
    (max ≤ bucket.attempts → ¬FallsShort (bucket.resetAt - now))

instance (max : Nat) (now : Int) (bucket : RateLimitBucket) : Decidable (Clear max now bucket) :=
  inferInstanceAs (Decidable (_ ∧ _))

variable {bucket : RateLimitBucket} {past : Bool} {budget : Option Budget}

theorem countedIn_append (counted : Counted) (window : Int) :
    countedIn (log ++ [counted]) window =
      countedIn log window + if counted.bucket.resetAt = window then 1 else 0 := by
  simp [countedIn, countP_append, countP_cons]

theorem allowedIn_le_countedIn (log : List Counted) (window : Int) :
    allowedIn log window ≤ countedIn log window :=
  countP_mono_left fun _ _ hallowed => (Bool.and_eq_true _ _ ▸ hallowed).1

variable (hopened : Opened log now bucket)
include hopened

theorem Opened.attempts_count :
    bucket.count.attempts =
      min (countedIn (log ++ [⟨now, bucket.count, past, budget⟩]) bucket.resetAt) u32Max := by
  have hcount : bucket.count.attempts = min (bucket.attempts + 1) u32Max := rfl
  rw [countedIn_append, if_pos bucket.resetAt_count, hcount, hopened.attempts]
  omega

theorem Opened.tracks :
    Tracks key (limits.insert key bucket.count) now
      (log ++ [⟨now, bucket.count, past, budget⟩]) := by
  constructor
  · intro found hfound
    rw [OrdMap.get?_insert_self, Option.some.injEq] at hfound
    subst hfound
    refine ⟨hopened.near, hopened.attempts_count, ?_, _, getLast?_concat, rfl⟩
    intro counted hmem
    rcases mem_append.mp hmem with hold | hnew
    · exact hopened.newest counted hold
    · rw [mem_singleton.mp hnew]
  · intro hnone
    exact absurd hnone (by simp)

theorem Opened.allowed (hclear : Clear max now bucket)
    (hbefore : ∀ window, allowedIn log window ≤ max) (window : Int) :
    allowedIn (log ++ [⟨now, bucket.count, decide (max < bucket.count.attempts), budget⟩]) window ≤
      max := by
  by_cases hcounts : bucket.resetAt = window ∧ bucket.count.attempts ≤ max
  · -- a request that is allowed is at most the `max`-th of its window
    obtain ⟨rfl, hallowed⟩ := hcounts
    have hattempts := @Opened.attempts_count now log bucket
      (decide (max < bucket.count.attempts)) budget hopened
    have hle := allowedIn_le_countedIn
      (log ++ [⟨now, bucket.count, decide (max < bucket.count.attempts), budget⟩]) bucket.resetAt
    have hroom := hclear.1
    have hgrows := hopened.attempts
    rw [countedIn_append, if_pos bucket.resetAt_count] at hattempts
    rw [countedIn_append, if_pos bucket.resetAt_count] at hle
    omega
  · have hsame : (decide (bucket.count.resetAt = window) &&
        !decide (max < bucket.count.attempts)) = false := by
      simp only [not_and, not_le] at hcounts
      by_cases hwindow : bucket.resetAt = window
      · simp [hwindow, hcounts hwindow]
      · simp [hwindow]
    have hbefore := hbefore window
    unfold allowedIn at hbefore ⊢
    rw [countP_append, countP_singleton, hsame]
    exact hbefore

theorem Opened.told (hclear : Clear max now bucket)
    (hbudget : ∀ told ∈ budget, told.remaining = max - bucket.count.attempts)
    (hwaits : ∀ refused ∈ log, refused.past = true → ∀ told ∈ refused.budget,
      refused.bucket.resetAt ≤ refused.now + seconds told.retryAfterSecs) :
    Told max log ⟨now, bucket.count, past, budget⟩ := by
  constructor
  · intro told htold hleft
    have hattempts := @Opened.attempts_count now log bucket past budget hopened
    have hroom := hclear.1
    have hgrows := hopened.attempts
    rw [hbudget told htold] at hleft ⊢
    rw [countedIn_append, if_pos bucket.resetAt_count] at hattempts
    rw [countedIn_append, if_pos rfl, bucket.resetAt_count]
    omega
  · intro refused hrefused hover told htold hnow
    refine hopened.fresh.resolve_right ?_
    rintro ⟨last, hlast, hahead⟩
    obtain rfl : refused = last := Option.some.inj (hrefused.symm.trans hlast)
    have hwait := hwaits refused (mem_of_getLast? hrefused) hover told htold
    simp only at hnow
    omega

omit hopened

/-- A request that finds its window open finds a count that can still grow or exceed the
limit.  If the window is used up, it does not end a whole number of seconds and a fraction
of a millisecond later. -/
def Settles (key : String) (max : Nat) (state : State) : Action → Prop
  | .request now _ =>
    ∀ bucket ∈ state.limits.get? key, now < bucket.resetAt → Clear max now bucket
  | .other .. => True

instance (key : String) (max : Nat) (state : State) :
    (action : Action) → Decidable (Settles key max state action)
  | .request .. => inferInstanceAs (Decidable (∀ bucket ∈ _, _))
  | .other .. => isTrue trivial

structure Kept (key : String) (max : Nat) (state : State) : Prop where
  tracks : Tracks key state.limits state.clock state.log
  fair : Fair max state.log
  waits : ∀ refused ∈ state.log, refused.past = true → ∀ told ∈ refused.budget,
    refused.bucket.resetAt ≤ refused.now + seconds told.retryAfterSecs

theorem request_eq (state : State) (hmax : max ≠ 0) (withBudget : Bool) :
    ∃ budget : Option Budget,
      let swept := sweep state.limits now
      let bucket := openBucket swept key now
      (∀ told ∈ budget, told = Budget.new max bucket.count.attempts bucket.resetAt now) ∧
        request key max state now withBudget =
          ⟨swept.insert key bucket.count, now,
            state.log ++ [⟨now, bucket.count, decide (max < bucket.count.attempts), budget⟩]⟩ := by
  cases withBudget with
  | false =>
    refine ⟨none, fun _ hnone => absurd hnone (by simp), ?_⟩
    simp only [request, hit, hitFor, if_neg hmax, Bool.false_eq_true, if_false,
      OrdMap.get?_insert_self, toList_some, map_cons, map_nil]
    rfl
  | true =>
    refine ⟨some _, fun told htold => (Option.some.inj htold).symm, ?_⟩
    simp [request, hitWithBudget, hmax]

/-- What a refused request is told reaches the end of its window. -/
theorem Opened.waits (hopened : Opened log now bucket) (hclear : Clear max now bucket)
    (hover : max < bucket.count.attempts) :
    bucket.resetAt ≤ now + seconds (retryAfter (bucket.resetAt - now)) := by
  have hattempts : max ≤ bucket.attempts := by
    unfold RateLimitBucket.count at hover
    simp only at hover
    omega
  have hahead := hopened.ahead
  have hnear := hopened.near
  have hwait := (le_seconds_retryAfter_iff (Int.sub_pos_of_lt hahead) (by omega)).mpr
    (hclear.2 hattempts)
  omega

theorem clear_openBucket
    (hclear : ∀ bucket ∈ limits.get? key, now < bucket.resetAt → Clear max now bucket) :
    Clear max now (openBucket (sweep limits now) key now) := by
  have hnew : Clear max now ⟨0, now + seconds limitWindowSecs⟩ := by
    simp only [Clear, FallsShort, seconds, limitWindowSecs, nanosPerSecond, u32Max]
    omega
  unfold openBucket openBucketFor
  split
  · exact hnew
  next bucket hbucket =>
    split
    · exact hnew
    next hopen =>
      rcases get?_sweep limits now key with hsame | ⟨hnone, -⟩
      · exact hclear bucket (hsame.symm.trans hbucket) (not_le.mp hopen)
      · exact absurd (hnone.symm.trans hbucket) (by simp)

theorem Kept.request {state : State} {withBudget : Bool} (hkept : Kept key max state)
    (hclock : state.clock ≤ now) (hsettles : Settles key max state (.request now withBudget)) :
    Kept key max (request key max state now withBudget) := by
  by_cases hzero : max = 0
  · subst hzero
    cases withBudget <;> exact { hkept with tracks := hkept.tracks.later rfl hclock }
  · obtain ⟨budget, hbudget, heq⟩ := request_eq state hzero withBudget
    rw [heq]
    have hopened := (hkept.tracks.sweep hclock).opened
    have hclear := clear_openBucket hsettles
    exact {
      tracks := hopened.tracks
      fair := {
        allowed := hopened.allowed hclear hkept.fair.allowed
        told := hkept.fair.told.concat <| hopened.told hclear
          (fun told htold => by rw [hbudget told htold]; rfl) hkept.waits }
      waits := by
        intro refused hmem hover told htold
        rcases mem_append.mp hmem with hold | hnew
        · exact hkept.waits refused hold hover told htold
        · rw [mem_singleton.mp hnew] at hover htold ⊢
          rw [hbudget told htold]
          exact hopened.waits hclear (of_decide_eq_true hover) }

theorem Kept.other {state : State} {name : String} {limit : Nat} {window : Int}
    (hkept : Kept key max state) (hclock : state.clock ≤ now) (hne : name ≠ key) :
    Kept key max { state with
      limits := (hitFor state.limits name now limit window).1
      clock := now } := by
  refine { hkept with tracks := ?_ }
  unfold hitFor
  split
  · exact hkept.tracks.later rfl hclock
  · exact (hkept.tracks.sweep hclock).later (OrdMap.get?_insert_of_ne _ _ hne.symm) le_rfl

theorem kept_start (start : Int) : Kept key max (machine key max start).start where
  tracks := ⟨fun _ hnone => absurd hnone (by simp [machine]),
    fun _ _ hmem => absurd hmem (by simp [machine])⟩
  fair := ⟨fun _ => Nat.zero_le _, History.each_nil⟩
  waits := fun _ hmem => absurd hmem (by simp [machine])

/-- No window lets more than the limit through, and what a refused caller is told is so. -/
theorem run_fair {start : Int} {actions : List Action} {state : State}
    (hsettles : (machine key max start).Meets (Settles key max) actions)
    (hrun : (machine key max start).run actions = some state) : Fair max state.log := by
  refine Kept.fair (Machine.run_invariant _ (kept_start start) ?_ hsettles hrun)
  intro state action next hkept hmeets hstep
  cases action with
  | request now withBudget =>
    obtain ⟨hclock, hnext⟩ := ite_none_right_eq_some.mp hstep
    rw [← Option.some.inj hnext]
    exact hkept.request hclock hmeets
  | other name now limit window =>
    obtain ⟨⟨hclock, hne⟩, hnext⟩ := ite_none_right_eq_some.mp hstep
    rw [← Option.some.inj hnext]
    exact hkept.other hclock hne

/-- One request is allowed.  The second comes a second and a nanosecond before the window
ends, is told to wait one second, and waits it. -/
def oneSecondWaited : List Action :=
  [.request 0 true, .request 58999999999 true, .request 59999999999 true]

theorem oneSecondWaited_same_window :
    ∃ state, (machine "reader" 1 0).run oneSecondWaited = some state ∧ ¬Fair 1 state.log := by
  refine ⟨((machine "reader" 1 0).run oneSecondWaited).get (by decide +kernel),
    (some_get _).symm, fun hfair => ?_⟩
  have hlog := hfair.told
    [⟨0, ⟨1, 60000000000⟩, false, some ⟨1, 0, 60, 60⟩⟩,
      ⟨58999999999, ⟨2, 60000000000⟩, true, some ⟨1, 0, 60, 1⟩⟩]
    ⟨59999999999, ⟨3, 60000000000⟩, true, some ⟨1, 0, 60, 1⟩⟩ [] (by decide +kernel)
  exact absurd (hlog.fresh _ rfl rfl _ rfl rfl) (by decide)

def twoSecondsWaited : List Action :=
  [.request 0 true, .other "writer" 1 2 3600, .request 58500000000 true, .request 60500000000 true]

theorem run_fair_twoSecondsWaited :
    ∃ state,
      (machine "reader" 1 0).run twoSecondsWaited = some state ∧
        state.log.map Counted.past = [false, true, false] ∧ Fair 1 state.log :=
  ⟨((machine "reader" 1 0).run twoSecondsWaited).get (by decide +kernel),
    (some_get _).symm, by decide +kernel,
    run_fair (by decide +kernel) (some_get _).symm⟩

end JeryuForge.RequestLimits
