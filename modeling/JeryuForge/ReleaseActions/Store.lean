import JeryuForge.Clock
import JeryuForge.Library.Machine
import JeryuForge.Library.Newest
import JeryuForge.Library.OrdMap
import JeryuForge.Text

/-!
# Asks for release steps

The store keeps what people have asked the release host for.  Every operation first lets
asks expire by the time it was called at, which may be older than what the store has seen.
What happens to one ask over a whole run is a run of one small machine, the life of an ask.
-/

namespace JeryuForge.ReleaseActions

open List Option OrdMap Function Nat

def maxActions : Nat := 256

def maxLogTail : Nat := 8000

def pendingTtlMinutes : Int := 15

def claimedTtlMinutes : Int := 90

inductive ActionKind where
  | deploy
  | autoPin
  | autoPinRetry
deriving DecidableEq, Repr

inductive ActionState where
  | pending
  | claimed
  | succeeded
  | failed
  | expired
  | cancelled
deriving DecidableEq, Repr

structure NewAction where
  action : ActionKind
  repo : String
  release : Option String
  head : Option String
deriving DecidableEq, Repr

structure ReleaseAction extends NewAction where
  id : String
  state : ActionState
  requestedBy : String
  requestedAt : String
  claimedBy : Option String
  claimedAt : Option String
  finishedAt : Option String
  message : Option String
  logTail : Option String
deriving DecidableEq, Repr

structure ActionResult where
  ok : Bool
  message : Option String
  logTail : Option String

namespace ReleaseAction

variable (ask : ReleaseAction)

def isOpen : Bool :=
  ask.state = .pending || ask.state = .claimed

def sameStep (new : NewAction) : Bool :=
  ask.toNewAction = new

/-- `parse` is `DateTime::parse_from_rfc3339`. -/
def overdue (parse : String → Option Int) (now : Int) : Bool :=
  let (since, minutes) :=
    if ask.state = .claimed then (ask.claimedAt, claimedTtlMinutes)
    else (some ask.requestedAt, pendingTtlMinutes)
  (since.bind parse).any fun since => Clock.seconds (60 * minutes) ≤ now - since

def expired (now : String) : ReleaseAction :=
  { ask with
    state := .expired
    finishedAt := some now
    message := some (
      if ask.state = .claimed then
        "Release host outcome unknown after 90 minutes. Check the host and deployment " ++
          "records before requesting another step."
      else
        "Not claimed within 15 minutes; no step was run.") }

end ReleaseAction

abbrev Actions := OrdMap String ReleaseAction

/-- `next` is a `u64` in the code; it counts alike for the first `2 ^ 64 - 1` actions. -/
structure Store where
  actions : Actions
  next : Nat

section Operations

variable (parse : String → Option Int)

def expires (now : String) (ask : ReleaseAction) : Bool :=
  (parse now).any fun time => ask.isOpen && ask.overdue parse time

def expire (actions : Actions) (now : String) : Actions :=
  actions.mapValues fun _ ask => if expires parse now ask then ask.expired now else ask

/-- `min_by` gives the first of the oldest. -/
def oldestFinished (actions : Actions) : Option String :=
  (((actions.entries.map Prod.snd).filter fun ask => !ask.isOpen).reverse.newestBy
    fun ask => OrderDual.toDual ask.requestedAt).map ReleaseAction.id

def actionId (stamp : String) (number : Nat) : String :=
  "ra-" ++ stamp ++ "-" ++ toString number

def NewAction.pending (new : NewAction) (requester now : String) (number : Nat) : ReleaseAction :=
  { new with
    id := actionId (String.ofList (now.toList.filter Char.isAlphanum)) number
    state := .pending, requestedBy := requester, requestedAt := now, claimedBy := none
    claimedAt := none, finishedAt := none, message := none, logTail := none }

def forgotten (actions : Actions) : Option String :=
  if maxActions ≤ actions.size then oldestFinished actions else none

def record (store : Store) (new : NewAction) (requester now : String) :
    Store × Except String (ReleaseAction × Bool) :=
  let actions := expire parse store.actions now
  match actions.entries.find? fun entry => entry.2.isOpen && entry.2.sameStep new with
  | some existing => ({ store with actions := actions }, .ok (existing.2, false))
  | none =>
    if maxActions ≤ actions.size ∧ forgotten actions = none then
      ({ store with actions := actions },
        .error "release action queue is full; cancel a pending ask or wait for an outcome")
    else
      let room := (forgotten actions).elim actions actions.erase
      let ask := NewAction.pending new requester now (store.next + 1)
      (⟨room.insert ask.id ask, store.next + 1⟩, .ok (ask, true))

/-- What `cancel`, `claim` and `finish` have in common. -/
def amend (actions : Actions) (id now : String) (allowed : ReleaseAction → Bool)
    (change : ReleaseAction → ReleaseAction) :
    Actions × Except (Option ActionState) ReleaseAction :=
  let actions := expire parse actions now
  match actions.get? id with
  | none => (actions, .error none)
  | some ask =>
    if allowed ask then (actions.insert id (change ask), .ok (change ask))
    else (actions, .error (some ask.state))

def cancel (actions : Actions) (id now : String) :
    Actions × Except (Option ActionState) ReleaseAction :=
  amend parse actions id now (fun ask => ask.state = .pending) fun ask =>
    { ask with
      state := .cancelled
      finishedAt := some now
      message := some "Cancelled before the release host claimed it." }

def claim (actions : Actions) (id claimer now : String) :
    Actions × Except ActionState ReleaseAction :=
  let (actions, answer) :=
    amend parse actions id now (fun ask => ask.state = .pending) fun ask =>
      { ask with state := .claimed, claimedBy := some claimer, claimedAt := some now }
  (actions, answer.mapError fun state => state.getD .failed)

def finish (actions : Actions) (id reporter : String) (result : ActionResult) (now : String) :
    Actions × Except (Option ActionState) ReleaseAction :=
  amend parse actions id now (fun ask => ask.state = .claimed && ask.claimedBy = some reporter)
    fun ask =>
      { ask with
        state := if result.ok then .succeeded else .failed
        finishedAt := some now
        message := result.message.map fun text => String.ofList (text.toList.take 500)
        logTail := result.logTail.map fun tail =>
          String.ofList (tail.toList.drop (tail.length - maxLogTail)) }

end Operations

inductive Change where
  | recorded
  | claimed (claimer : String)
  | finished (reporter : String) (ok : Bool)
  | cancelled
  | expired
  | forgotten
deriving DecidableEq

def Change.isClaim : Change → Bool
  | .claimed _ => true
  | _ => false

inductive Stage where
  | fresh
  | pending
  | claimed (claimer : String)
  | ended (state : ActionState)
  | forgotten
deriving DecidableEq

def Stage.next : Stage → Change → Option Stage
  | .fresh, .recorded => some .pending
  | .pending, .claimed claimer => some (.claimed claimer)
  | .pending, .cancelled => some (.ended .cancelled)
  | .pending, .expired => some (.ended .expired)
  | .claimed _, .expired => some (.ended .expired)
  | .claimed claimer, .finished reporter ok =>
    if claimer = reporter then some (.ended (if ok then .succeeded else .failed)) else none
  | .ended _, .forgotten => some .forgotten
  | _, _ => none

def life : Machine Stage Change where
  start := .fresh
  step := Stage.next

theorem life_append (changes : List Change) (change : Change) :
    life.run (changes ++ [change]) = (life.run changes).bind fun stage => stage.next change := by
  rw [Machine.run, Machine.runFrom_append]
  congr 1
  funext stage
  simp [Machine.runFrom, life]

def Stage.claims : Stage → Nat
  | .fresh => 0
  | .pending => 0
  | _ => 1

variable {change : Change} {ask : ReleaseAction}

theorem claims_le {changes : List Change} {stage : Stage} (hrun : life.run changes = some stage) :
    changes.countP Change.isClaim ≤ stage.claims := by
  induction changes using reverseRecOn generalizing stage with
  | nil => exact Nat.zero_le _
  | append_singleton changes change ih =>
    rw [life_append, bind_eq_some_iff] at hrun
    obtain ⟨before, hbefore, hnext⟩ := hrun
    rw [countP_append, countP_singleton]
    refine (Nat.add_le_add_right (ih hbefore) _).trans ?_
    unfold Stage.next at hnext
    split at hnext <;> (try split at hnext) <;> cases hnext <;>
      simp [Stage.claims, Change.isClaim]

structure World where
  store : Store
  history : String → List Change

inductive Operation where
  | record (new : NewAction) (requester now : String)
  | cancel (id now : String)
  | claim (id claimer now : String)
  | finish (id reporter : String) (result : ActionResult) (now : String)
  | list (now : String)

def Operation.now : Operation → String
  | .record _ _ now | .cancel _ now | .claim _ _ now | .finish _ _ _ now | .list now => now

def note (history : String → List Change) (id : String) (change : Change) : String → List Change :=
  update history id (history id ++ [change])

def World.expire (parse : String → Option Int) (world : World) (now : String) : World where
  store := { world.store with actions := ReleaseActions.expire parse world.store.actions now }
  history := fun id => world.history id ++
    if (world.store.actions.get? id).any (expires parse now) then [.expired] else []

def answered {ε : Type} (history : String → List Change) (id : String) (change : Change) :
    Except ε ReleaseAction → String → List Change
  | .ok _ => note history id change
  | .error _ => history

/-- A call of the store; what has expired by then goes first. -/
def step (parse : String → Option Int) (world : World) (operation : Operation) : World :=
  let store := world.store
  let expired := world.expire parse operation.now
  match operation with
  | .record new requester now =>
    let (after, answer) := record parse store new requester now
    match answer with
    | .ok (ask, true) =>
      let gone := (forgotten expired.store.actions).elim expired.history fun id =>
        note expired.history id .forgotten
      ⟨after, note gone ask.id .recorded⟩
    | _ => ⟨after, expired.history⟩
  | .cancel id now =>
    let (after, answer) := cancel parse store.actions id now
    ⟨{ store with actions := after }, answered expired.history id .cancelled answer⟩
  | .claim id claimer now =>
    let (after, answer) := claim parse store.actions id claimer now
    ⟨{ store with actions := after }, answered expired.history id (.claimed claimer) answer⟩
  | .finish id reporter result now =>
    let (after, answer) := finish parse store.actions id reporter result now
    ⟨{ store with actions := after },
      answered expired.history id (.finished reporter result.ok) answer⟩
  | .list _ => expired

def run (parse : String → Option Int) (operations : List Operation) : World :=
  operations.foldl (step parse) ⟨⟨∅, 0⟩, fun _ => []⟩

def ReleaseAction.stage (ask : ReleaseAction) : Stage :=
  match ask.state with
  | .pending => .pending
  | .claimed => .claimed (ask.claimedBy.getD "")
  | state => .ended state

def Shows (stage : Stage) : Option ReleaseAction → Prop
  | some ask => stage = ask.stage
  | none => stage = .fresh ∨ stage = .forgotten

structure Kept (world : World) : Prop where
  lives : ∀ id, ∃ stage, life.run (world.history id) = some stage ∧
    Shows stage (world.store.actions.get? id)
  keyed : ∀ id ask, world.store.actions.get? id = some ask → ask.id = id
  numbered : ∀ id, world.history id ≠ [] → ∃ stamp number,
    number ≤ world.store.next ∧ id = actionId stamp number
  single : ∀ id other first second, world.store.actions.get? id = some first →
    world.store.actions.get? other = some second → first.isOpen = true → second.isOpen = true →
      first.toNewAction = second.toNewAction → id = other
  bounded : world.store.actions.size ≤ maxActions

inductive Moves : Option ReleaseAction → List Change → Option ReleaseAction → Prop where
  | same (stored : Option ReleaseAction) : Moves stored [] stored
  | changed {ask after : ReleaseAction} {change : Change}
      (hnext : ask.stage.next change = some after.stage) (hid : after.id = ask.id)
      (hstep : after.toNewAction = ask.toNewAction)
      (hopen : after.isOpen = true → ask.isOpen = true) : Moves (some ask) [change] (some after)
  | forgotten {ask : ReleaseAction} (hclosed : ask.isOpen = false) :
      Moves (some ask) [.forgotten] none

theorem next_expired (hopen : ask.isOpen = true) (now : String) :
    ask.stage.next .expired = some (ask.expired now).stage := by
  unfold ReleaseAction.isOpen at hopen
  unfold ReleaseAction.stage
  cases hstate : ask.state <;> simp [hstate] at hopen <;> rfl

variable {parse : String → Option Int} {world : World} {after : Actions} {id : String}

variable (hkept : Kept world)
include hkept

theorem history_ne_nil (hget : world.store.actions.get? id = some ask) : world.history id ≠ [] := by
  intro hnil
  obtain ⟨stage, hrun, hshows⟩ := hkept.lives id
  rw [hget] at hshows
  rw [hnil] at hrun
  have hfresh : Stage.fresh = ask.stage := (Option.some.inj hrun).trans hshows
  unfold ReleaseAction.stage at hfresh
  split at hfresh <;> cases hfresh

theorem Kept.moves {history : String → List Change}
    (hmoves : ∀ id, ∃ changes, history id = world.history id ++ changes ∧
      Moves (world.store.actions.get? id) changes (after.get? id))
    (hsize : after.size ≤ maxActions) : Kept ⟨⟨after, world.store.next⟩, history⟩ := by
  have hbefore : ∀ {id ask}, after.get? id = some ask → ∃ old,
      world.store.actions.get? id = some old ∧ ask.id = old.id ∧
        ask.toNewAction = old.toNewAction ∧ (ask.isOpen = true → old.isOpen = true) := by
    intro id ask hget
    obtain ⟨changes, -, hmove⟩ := hmoves id
    rw [hget] at hmove
    generalize world.store.actions.get? id = old at hmove
    cases hmove with
    | same => exact ⟨ask, rfl, rfl, rfl, fun hopen => hopen⟩
    | changed hnext hid hstep hopen => exact ⟨_, rfl, hid, hstep, hopen⟩
  constructor
  · intro id
    obtain ⟨stage, hrun, hshows⟩ := hkept.lives id
    obtain ⟨changes, hhistory, hmove⟩ := hmoves id
    simp only [hhistory]
    generalize world.store.actions.get? id = old at hmove hshows
    generalize after.get? id = new at hmove ⊢
    cases hmove with
    | same => exact ⟨stage, (append_nil _).symm ▸ hrun, hshows⟩
    | @changed ask now change hnext =>
      refine ⟨now.stage, ?_, rfl⟩
      rw [life_append, hrun, bind_some, hshows]
      exact hnext
    | @forgotten ask hclosed =>
      refine ⟨.forgotten, ?_, .inr rfl⟩
      rw [life_append, hrun, bind_some, hshows]
      unfold ReleaseAction.isOpen at hclosed
      unfold ReleaseAction.stage
      cases hstate : ask.state <;> simp [hstate] at hclosed <;> rfl
  · intro id ask hget
    obtain ⟨old, hold, hid, -⟩ := hbefore hget
    exact hid.trans (hkept.keyed id old hold)
  · intro id hnonempty
    refine hkept.numbered id ?_
    obtain ⟨changes, hhistory, hmove⟩ := hmoves id
    cases hget : world.store.actions.get? id with
    | some ask => exact history_ne_nil hkept hget
    | none =>
      rw [hget] at hmove
      generalize after.get? id = new at hmove
      cases hmove
      rw [append_nil] at hhistory
      exact hhistory ▸ hnonempty
  · intro id other first second hfirst hsecond hopen hother hstep
    obtain ⟨old, hold, -, holdStep, holdOpen⟩ := hbefore hfirst
    obtain ⟨older, holder, -, holderStep, holderOpen⟩ := hbefore hsecond
    exact hkept.single id other old older hold holder (holdOpen hopen) (holderOpen hother)
      (holdStep.symm.trans (hstep.trans holderStep))
  · exact hsize

theorem Kept.expire (now : String) : Kept (world.expire parse now) := by
  refine hkept.moves (fun id => ⟨_, rfl, ?_⟩) ((le_of_eq (length_map _)).trans hkept.bounded)
  unfold ReleaseActions.expire
  rw [get?_mapValues]
  cases world.store.actions.get? id with
  | none => exact .same none
  | some ask =>
    by_cases hexpires : expires parse now ask = true
    · simp only [any_some, hexpires, map_some, if_true]
      have hopen : ask.isOpen = true := by
        obtain ⟨time, -, hdue⟩ := (any_eq_true _ _).mp hexpires
        exact ((Bool.and_eq_true _ _).mp hdue).1
      exact .changed (next_expired hopen now) rfl rfl fun _ => hopen
    · simp only [any_some, hexpires, map_some, if_false, Bool.false_eq_true]
      exact .same _

/-- One ask changes and the others stay. -/
theorem Kept.one (hothers : ∀ other, other ≠ id → after.get? other = world.store.actions.get? other)
    (hmove : Moves (world.store.actions.get? id) [change] (after.get? id))
    (hsize : after.size ≤ maxActions) :
    Kept ⟨⟨after, world.store.next⟩, note world.history id change⟩ := by
  refine hkept.moves (fun other => ?_) hsize
  by_cases hother : other = id
  · subst hother
    exact ⟨[change], update_self _ _ _, hmove⟩
  · rw [hothers other hother]
    exact ⟨[], (update_of_ne hother _ _).trans (append_nil _).symm, .same _⟩

omit hkept in
theorem actionId_number {stamp other : String} {number second : Nat}
    (hsame : actionId stamp number = actionId other second) : number = second := by
  have hlists : ('r' :: 'a' :: '-' :: stamp.toList) ++ '-' :: (toString number).toList =
      ('r' :: 'a' :: '-' :: other.toList) ++ '-' :: (toString second).toList := by
    simpa [actionId] using congrArg String.toList hsame
  exact Text.toString_injective (Text.append_cons_inj (Text.not_mem_toString rfl number)
    (Text.not_mem_toString rfl second) hlists).2

theorem Kept.record (hroom : world.store.actions.size < maxActions) {new : NewAction}
    {requester now : String}
    (hfree : ∀ other stored, world.store.actions.get? other = some stored → stored.isOpen = true →
      stored.toNewAction ≠ new) :
    let ask := new.pending requester now (world.store.next + 1)
    Kept ⟨⟨world.store.actions.insert ask.id ask, world.store.next + 1⟩,
      note world.history ask.id .recorded⟩ := by
  intro ask
  have hid : ask.id = actionId _ (world.store.next + 1) := rfl
  have hnew : world.history ask.id = [] := by
    by_contra hnonempty
    obtain ⟨other, number, hle, heq⟩ := hkept.numbered ask.id hnonempty
    have := actionId_number (heq.symm.trans hid)
    omega
  constructor
  · intro id
    by_cases hother : id = ask.id
    · subst hother
      refine ⟨.pending, ?_, ?_⟩
      · simp only [note, update_self, hnew]
        rfl
      · rw [get?_insert_self]
        rfl
    · rw [get?_insert_of_ne _ _ hother]
      simpa [note, update_of_ne hother] using hkept.lives id
  · intro id stored hget
    rcases get?_insert_eq_some hget with ⟨rfl, rfl⟩ | ⟨-, hold⟩
    · rfl
    · exact hkept.keyed id stored hold
  · intro id hnonempty
    by_cases hother : id = ask.id
    · exact ⟨_, _, le_rfl, hother.trans hid⟩
    · simp only [note, update_of_ne hother] at hnonempty
      obtain ⟨other, number, hle, heq⟩ := hkept.numbered id hnonempty
      exact ⟨other, number, le_succ_of_le hle, heq⟩
  · intro id other first second hfirst hsecond hopen hother hstep
    rcases get?_insert_eq_some hfirst with ⟨rfl, rfl⟩ | ⟨-, hold⟩ <;>
      rcases get?_insert_eq_some hsecond with ⟨rfl, rfl⟩ | ⟨-, holder⟩
    · rfl
    · exact absurd hstep.symm (hfree other second holder hother)
    · exact absurd hstep (hfree id first hold hopen)
    · exact hkept.single id other first second hold holder hopen hother hstep
  · show (world.store.actions.insert ask.id ask).size ≤ maxActions
    rw [size_insert]
    exact succ_le_of_lt (lt_of_le_of_lt (size_retain_le _ _) hroom)

theorem Kept.forget (hforgotten : forgotten world.store.actions = some id) :
    Kept ⟨{ world.store with actions := world.store.actions.erase id },
        note world.history id .forgotten⟩ ∧
      (world.store.actions.erase id).size < maxActions := by
  obtain ⟨-, holdest⟩ := ite_none_right_eq_some.mp hforgotten
  obtain ⟨ask, hask, rfl⟩ := map_eq_some_iff.mp holdest
  have hmem := mem_filter.mp (mem_reverse.mp (mem_of_newestBy hask))
  obtain ⟨entry, hentry, rfl⟩ := mem_map.mp hmem.1
  have hget := (get?_eq_some_iff _ entry.1 entry.2).mpr hentry
  rw [← hkept.keyed entry.1 entry.2 hget] at hget
  have hsize := size_erase_of_get?_eq_some hget
  have hbounded := hkept.bounded
  refine ⟨hkept.one (fun other hother => get?_erase_of_ne _ hother) ?_ (by omega), by omega⟩
  rw [hget, get?_erase_self]
  exact .forgotten (by simpa using hmem.2)

theorem kept_record (new : NewAction) (requester now : String) :
    Kept (step parse world (.record new requester now)) := by
  have hexpired := @Kept.expire parse world hkept now
  simp only [step, Operation.now, ReleaseActions.record]
  have hactions : expire parse world.store.actions now =
    (world.expire parse now).store.actions := rfl
  have hnext : world.store.next = (world.expire parse now).store.next := rfl
  rw [hactions, hnext]
  generalize world.expire parse now = expired at hexpired ⊢
  cases hfind : expired.store.actions.entries.find? fun entry =>
      entry.2.isOpen && entry.2.sameStep new with
  | some existing => exact hexpired
  | none =>
    have hfree : ∀ other stored, expired.store.actions.get? other = some stored →
        stored.isOpen = true → stored.toNewAction ≠ new := by
      intro other stored hstored hopen hsame
      have hnone := find?_eq_none.mp hfind _ ((get?_eq_some_iff _ _ _).mp hstored)
      simp [hopen, ReleaseAction.sameStep, hsame] at hnone
    cases hforgotten : forgotten expired.store.actions with
    | none =>
      by_cases hfull : maxActions ≤ expired.store.actions.size
      · simp only [hfull, and_self, if_true]
        exact hexpired
      · simp only [hfull, false_and, if_false]
        exact hexpired.record (Nat.lt_of_not_le hfull) hfree
    | some id =>
      obtain ⟨hforget, hroom⟩ := hexpired.forget hforgotten
      simp only [reduceCtorEq, and_false, if_false]
      exact hforget.record hroom fun other stored hstored =>
        hfree other stored (get?_erase_eq_some hstored).2

omit hkept in
theorem answered_mapError {ε δ : Type} (history : String → List Change) (change : Change)
    (answer : Except ε ReleaseAction) (rename : ε → δ) :
    answered history id change (answer.mapError rename) = answered history id change answer := by
  cases answer <;> rfl

theorem kept_amend {id now : String} {allowed : ReleaseAction → Bool}
    {amended : ReleaseAction → ReleaseAction}
    (hamended : ∀ ask, allowed ask = true → ask.stage.next change = some (amended ask).stage ∧
      (amended ask).id = ask.id ∧ (amended ask).toNewAction = ask.toNewAction ∧ ask.isOpen = true) :
    Kept
      ⟨{ world.store with actions := (amend parse world.store.actions id now allowed amended).1 },
      answered (world.expire parse now).history id change
        (amend parse world.store.actions id now allowed amended).2⟩ := by
  have hexpired := @Kept.expire parse world hkept now
  unfold amend
  simp only
  split
  · exact hexpired
  next ask hget =>
    split
    next hallowed =>
      obtain ⟨hnext, hid, hstep, hopen⟩ := hamended ask hallowed
      refine hexpired.one (fun other hother => get?_insert_of_ne _ _ hother) ?_ ?_
      · rw [get?_insert_self]
        exact (show (world.expire parse now).store.actions.get? id = some ask from hget) ▸
          .changed hnext hid hstep fun _ => hopen
      · rw [size_insert, size_erase_of_get?_eq_some hget]
        exact hexpired.bounded
    · exact hexpired

theorem kept_step (operation : Operation) : Kept (step parse world operation) := by
  cases operation with
  | record new requester now => exact kept_record hkept new requester now
  | cancel id now =>
    refine kept_amend hkept fun ask hallowed => ?_
    have hstate := of_decide_eq_true hallowed
    simp [ReleaseAction.stage, ReleaseAction.isOpen, hstate, Stage.next]
  | claim id claimer now =>
    simp only [step, claim]
    rw [answered_mapError]
    refine kept_amend hkept fun ask hallowed => ?_
    have hstate := of_decide_eq_true hallowed
    simp [ReleaseAction.stage, ReleaseAction.isOpen, hstate, Stage.next]
  | finish id reporter result now =>
    refine kept_amend hkept fun ask hallowed => ?_
    simp only [Bool.and_eq_true, decide_eq_true_eq] at hallowed
    cases hok : result.ok <;> simp [ReleaseAction.stage, ReleaseAction.isOpen, hallowed, Stage.next]
  | list now => exact hkept.expire now

omit hkept

/-- Over every sequence of operations at whatever times: what happens to an ask is a run of
its life, at the stage the store shows, with at most one claim; at most one ask of a step is
open; and the store is bounded. -/
theorem run_lives (parse : String → Option Int) (operations : List Operation) :
    (∀ id, ∃ stage, life.run ((run parse operations).history id) = some stage ∧
        Shows stage ((run parse operations).store.actions.get? id) ∧
        ((run parse operations).history id).countP Change.isClaim ≤ 1) ∧
      (∀ id other first second, (run parse operations).store.actions.get? id = some first →
        (run parse operations).store.actions.get? other = some second →
        first.isOpen = true → second.isOpen = true →
          first.toNewAction = second.toNewAction → id = other) ∧
      (run parse operations).store.actions.size ≤ maxActions := by
  have hkept : Kept (run parse operations) := by
    refine foldlRecOn operations _ ?_ fun world hworld operation _ =>
      kept_step hworld operation
    exact ⟨fun _ => ⟨.fresh, rfl, .inl rfl⟩, by simp, by simp, by simp, zero_le _⟩
  refine ⟨fun id => ?_, hkept.single, hkept.bounded⟩
  obtain ⟨stage, hrun, hshows⟩ := hkept.lives id
  refine ⟨stage, hrun, hshows, (claims_le hrun).trans ?_⟩
  cases stage <;> simp [Stage.claims]

end JeryuForge.ReleaseActions
