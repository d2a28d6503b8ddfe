import JeryuForge.Library.Machine

/-!
# Optimistic writes to one reference

A reference names one of the stored contents.  A request looks something up once, when it starts.
Then it reads what the reference names, builds a new content from that and moves the reference if
it still names what was read, or else reads again, a bounded number of times.

If what a request looked up is still so in the content it builds on, the contents the
reference has named are those of a run of the requests one after another.
-/

namespace Optimistic

open Function Option

/-- What a request looks up, what it makes of a content that is stored under a name, given
what else answers it, and how often it tries. -/
structure Writer (Content Call Found Answer : Type) where
  find : Content → Call → Option Found
  change : Call → Found → Answer → Nat → Content → Option Content
  attempts : Nat

variable {Content Call Found Answer : Type}

inductive Phase (Answer : Type) where
  | reading
  | built (parent name : Nat) (answer : Answer)
  | lost (parent : Nat)

structure Flight (Call Found Answer : Type) where
  call : Call
  found : Found
  left : Nat
  phase : Phase Answer

structure Named (Content : Type) where
  name : Nat
  content : Content

structure Commit (Content Call Found Answer : Type) where
  call : Call
  found : Found
  answer : Answer
  parent : Named Content
  result : Named Content

inductive Move (Content Call Found Answer : Type) where
  | push (target : Option (Named Content))
  | act (commit : Commit Content Call Found Answer)

structure State (Content Call Found Answer : Type) where
  objects : Nat → Option Content
  head : Option Nat
  flights : Nat → Option (Flight Call Found Answer)
  log : List (Move Content Call Found Answer)

namespace State

variable (state : State Content Call Found Answer)

def named (name : Nat) : Option (Named Content) :=
  (state.objects name).map fun content => ⟨name, content⟩

def current : Option (Named Content) :=
  state.head.bind state.named

def finish (index : Nat) : State Content Call Found Answer :=
  { state with flights := update state.flights index none }

def setFlight (index : Nat) (flight : Flight Call Found Answer) : State Content Call Found Answer :=
  { state with flights := update state.flights index (some flight) }

end State

inductive Event (Content Call Answer : Type) where
  | store (name : Nat) (content : Content)
  | push (target : Option Nat)
  | start (index : Nat) (call : Call)
  | attempt (index : Nat) (answer : Answer) (name : Nat)
  | swap (index : Nat) (accepted : Bool)
  | recheck (index : Nat)
  | fail (index : Nat)

section Step

variable [DecidableEq Content] (writer : Writer Content Call Found Answer)
  (state : State Content Call Found Answer)

def storeObject (name : Nat) (content : Content) : Option (State Content Call Found Answer) :=
  if state.objects name = none ∨ state.objects name = some content then
    some { state with objects := update state.objects name (some content) }
  else
    none

def pushTo : Option Nat → Option (State Content Call Found Answer)
  | none => some { state with head := none, log := state.log ++ [.push none] }
  | some name =>
    (state.named name).map fun target =>
      { state with head := some name, log := state.log ++ [.push (some target)] }

def startCall (index : Nat) (call : Call) : State Content Call Found Answer :=
  match state.current.bind fun current => writer.find current.content call with
  | some found =>
    state.setFlight index
      { call := call, found := found, left := writer.attempts - 1, phase := .reading }
  | none => state

def attemptCall (index : Nat) (flight : Flight Call Found Answer) (answer : Answer) (name : Nat) :
    Option (State Content Call Found Answer) :=
  match state.current with
  | none => some (state.finish index)
  | some current =>
    match writer.change flight.call flight.found answer current.name current.content with
    | none => some (state.finish index)
    | some next =>
      (storeObject state name next).map fun stored =>
        stored.setFlight index { flight with phase := .built current.name name answer }

def swapCall (index : Nat) (flight : Flight Call Found Answer) (parent name : Nat)
    (answer : Answer) (accepted : Bool) : State Content Call Found Answer :=
  match state.named parent, state.named name with
  | some old, some new =>
    if accepted ∧ state.head = some parent then
      { state.finish index with
        head := some name
        log := state.log ++ [.act ⟨flight.call, flight.found, answer, old, new⟩] }
    else
      state.setFlight index { flight with phase := .lost parent }
  | _, _ => state.finish index

def recheckCall (index : Nat) (flight : Flight Call Found Answer) (parent : Nat) :
    State Content Call Found Answer :=
  if state.head = some parent then state.finish index
  else
    match flight.left with
    | 0 => state.finish index
    | left + 1 => state.setFlight index { flight with left := left, phase := .reading }

def step : Event Content Call Answer → Option (State Content Call Found Answer)
  | .store name content => storeObject state name content
  | .push target => pushTo state target
  | .start index call =>
    match state.flights index with
    | none => some (startCall writer state index call)
    | some _ => none
  | .attempt index answer name =>
    match state.flights index with
    | some flight =>
      match flight.phase with
      | .reading => attemptCall writer state index flight answer name
      | _ => none
    | none => none
  | .swap index accepted =>
    match state.flights index with
    | some flight =>
      match flight.phase with
      | .built parent name answer =>
        some (swapCall state index flight parent name answer accepted)
      | _ => none
    | none => none
  | .recheck index =>
    match state.flights index with
    | some flight =>
      match flight.phase with
      | .lost parent => some (recheckCall state index flight parent)
      | _ => none
    | none => none
  | .fail index =>
    match state.flights index with
    | some _ => some (state.finish index)
    | none => none

end Step

def machine [DecidableEq Content] (writer : Writer Content Call Found Answer)
    (first : Named Content) :
    Machine (State Content Call Found Answer) (Event Content Call Answer) where
  start :=
    { objects := update (fun _ => none) first.name (some first.content)
      head := some first.name
      flights := fun _ => none
      log := [] }
  step := step writer

def Writer.alone (writer : Writer Content Call Found Answer) (call : Call) (answer : Answer)
    (current : Named Content) : Option Content :=
  (writer.find current.content call).bind fun found =>
    writer.change call found answer current.name current.content

/-- The contents the reference names when the moves are made one after another, each request
run alone on what the reference then names. -/
def Writer.replayMove (writer : Writer Content Call Found Answer)
    (current : Option (Named Content)) :
    Move Content Call Found Answer → Option (Named Content)
  | .push target => target
  | .act commit =>
    current.bind fun current =>
      (writer.alone commit.call commit.answer current).map fun next =>
        ⟨commit.result.name, next⟩

def Writer.replay (writer : Writer Content Call Found Answer) (first : Named Content)
    (log : List (Move Content Call Found Answer)) : Option (Named Content) :=
  log.foldl writer.replayMove (some first)

theorem Writer.replay_append (writer : Writer Content Call Found Answer) (first : Named Content)
    (log : List (Move Content Call Found Answer)) (move : Move Content Call Found Answer) :
    writer.replay first (log ++ [move]) = writer.replayMove (writer.replay first log) move := by
  unfold Writer.replay
  rw [List.foldl_append]
  rfl

/-! ## What a step leaves -/

section Steps

variable {writer : Writer Content Call Found Answer}
  {state next : State Content Call Found Answer}

def BuiltFrom (writer : Writer Content Call Found Answer)
    (state : State Content Call Found Answer) : Prop :=
  ∀ index flight parent name answer, state.flights index = some flight →
    flight.phase = .built parent name answer →
    ∃ old new, state.named parent = some old ∧ state.named name = some new ∧
      writer.change flight.call flight.found answer old.name old.content = some new.content

variable {name index : Nat} {flight : Flight Call Found Answer} {answer : Answer}
  {content : Content} {event : Event Content Call Answer}

theorem named_name {found : Named Content} (h : state.named name = some found) :
    found.name = name := by
  obtain ⟨content, _, rfl⟩ := map_eq_some_iff.mp h
  rfl

inductive Moved (writer : Writer Content Call Found Answer)
    (state next : State Content Call Found Answer) : Event Content Call Answer → Prop where
  | stayed {event : Event Content Call Answer} :
      next.current = state.current → next.log = state.log → Moved writer state next event
  | pushed {target : Option Nat} :
      next.log = state.log ++ [.push next.current] → Moved writer state next (.push target)
  | committed {index : Nat} {flight : Flight Call Found Answer} {old new : Named Content}
      {answer : Answer} :
      state.flights index = some flight → flight.phase = .built old.name new.name answer →
      state.current = some old → next.current = some new →
      writer.change flight.call flight.found answer old.name old.content = some new.content →
      next.log = state.log ++ [.act ⟨flight.call, flight.found, answer, old, new⟩] →
      Moved writer state next (.swap index true)

structure Sound (writer : Writer Content Call Found Answer)
    (state : State Content Call Found Answer) : Prop where
  headStored : ∀ name, state.head = some name → ∃ found, state.named name = some found
  builtFrom : BuiltFrom writer state

theorem BuiltFrom.finish (h : BuiltFrom writer state) (index : Nat) :
    BuiltFrom writer (state.finish index) := by
  intro other flight parent name answer hflight hphase
  rcases update_eq_some hflight with ⟨_, hnone⟩ | hflight
  · cases hnone
  · exact h other flight parent name answer hflight hphase

theorem BuiltFrom.setFlight (h : BuiltFrom writer state)
    (hflight : ∀ parent name answer, flight.phase = .built parent name answer →
      ∃ old new, state.named parent = some old ∧ state.named name = some new ∧
        writer.change flight.call flight.found answer old.name old.content = some new.content) :
    BuiltFrom writer (state.setFlight index flight) := by
  intro other found parent name answer hfound hphase
  rcases update_eq_some hfound with ⟨_, hsame⟩ | hfound
  · cases hsame
    exact hflight parent name answer hphase
  · exact h other found parent name answer hfound hphase

structure Still (writer : Writer Content Call Found Answer)
    (state next : State Content Call Found Answer) : Prop where
  sound : Sound writer next
  current : next.current = state.current
  log : next.log = state.log

theorem Still.moved (h : Still writer state next) :
    Sound writer next ∧ Moved writer state next event :=
  ⟨h.sound, .stayed h.current h.log⟩

section Sound

variable (h : Sound writer state)
include h

theorem Sound.finish (index : Nat) : Still writer state (state.finish index) :=
  ⟨⟨h.headStored, h.builtFrom.finish index⟩, rfl, rfl⟩

theorem Sound.setFlight (hphase : ∀ parent name answer, flight.phase ≠ .built parent name answer) :
    Still writer state (state.setFlight index flight) := by
  refine ⟨⟨h.headStored, h.builtFrom.setFlight ?_⟩, rfl, rfl⟩
  intro parent name answer hbuilt
  exact absurd hbuilt (hphase parent name answer)

theorem step_push {target : Option Nat} (hpush : pushTo state target = some next) :
    Sound writer next ∧ next.log = state.log ++ [.push next.current] := by
  cases target with
  | none =>
    cases hpush
    exact ⟨⟨nofun, h.builtFrom⟩, rfl⟩
  | some name =>
    obtain ⟨found, hfound, rfl⟩ := map_eq_some_iff.mp hpush
    refine ⟨⟨?_, h.builtFrom⟩, ?_⟩
    · intro other hother
      cases hother
      exact ⟨found, hfound⟩
    · exact congrArg (fun target => state.log ++ [Move.push target]) hfound.symm

theorem step_start (index : Nat) (call : Call) :
    Still writer state (startCall writer state index call) := by
  unfold startCall
  split
  · exact h.setFlight nofun
  · exact ⟨h, rfl, rfl⟩

theorem step_swap {parent : Nat} (hflight : state.flights index = some flight)
    (hphase : flight.phase = .built parent name answer) (accepted : Bool) :
    Sound writer (swapCall state index flight parent name answer accepted) ∧
      Moved writer state (swapCall state index flight parent name answer accepted)
        (.swap index accepted) := by
  obtain ⟨old, new, hold, hnew, hchange⟩ :=
    h.builtFrom index flight parent name answer hflight hphase
  unfold swapCall
  rw [hold, hnew]
  dsimp only
  split
  next hswap =>
    obtain ⟨haccepted, hhead⟩ := hswap
    rw [haccepted]
    have hcurrent : state.current = some old := by
      unfold State.current
      rw [hhead]
      exact hold
    refine ⟨⟨?_, h.builtFrom.finish index⟩, .committed hflight ?_ hcurrent hnew hchange rfl⟩
    · intro other hother
      cases hother
      exact ⟨new, hnew⟩
    · rw [hphase, named_name hold, named_name hnew]
  · exact Still.moved (h.setFlight nofun)

theorem step_recheck (index : Nat) (flight : Flight Call Found Answer) (parent : Nat) :
    Still writer state (recheckCall state index flight parent) := by
  unfold recheckCall
  split
  · exact h.finish index
  · split
    · exact h.finish index
    · exact h.setFlight nofun

end Sound

variable [DecidableEq Content]

section Object

variable (h : storeObject state name content = some next)
include h

theorem storeObject_eq :
    (state.objects name = none ∨ state.objects name = some content) ∧
      next = { state with objects := update state.objects name (some content) } := by
  unfold storeObject at h
  split at h
  next hname =>
    cases h
    exact ⟨hname, rfl⟩
  · cases h

theorem named_storeObject {other : Nat} {found : Named Content}
    (hfound : state.named other = some found) : next.named other = some found := by
  obtain ⟨hname, rfl⟩ := storeObject_eq h
  unfold State.named at hfound ⊢
  by_cases hsame : other = name
  · subst hsame
    simp only [update_self]
    rcases hname with hnone | hsome
    · rw [hnone] at hfound
      cases hfound
    · rw [hsome] at hfound
      exact hfound
  · simp only [update_of_ne hsame]
    exact hfound

theorem named_stored : next.named name = some ⟨name, content⟩ := by
  obtain ⟨_, rfl⟩ := storeObject_eq h
  simp [State.named]

theorem Sound.store (hsound : Sound writer state) : Still writer state next := by
  obtain ⟨_, hnext⟩ := storeObject_eq h
  have hhead : next.head = state.head := by rw [hnext]
  refine ⟨⟨?_, ?_⟩, ?_, by rw [hnext]⟩
  · intro other hother
    obtain ⟨found, hfound⟩ := hsound.headStored other (hhead ▸ hother)
    exact ⟨found, named_storeObject h hfound⟩
  · intro index flight parent built answer hflight hphase
    rw [hnext] at hflight
    obtain ⟨old, new, hold, hnew, hchange⟩ :=
      hsound.builtFrom index flight parent built answer hflight hphase
    exact ⟨old, new, named_storeObject h hold, named_storeObject h hnew, hchange⟩
  · unfold State.current
    rw [hhead]
    cases hold : state.head with
    | none => rfl
    | some other =>
      obtain ⟨found, hfound⟩ := hsound.headStored other hold
      exact (named_storeObject h hfound).trans hfound.symm

end Object

theorem step_attempt (h : Sound writer state)
    (hattempt : attemptCall writer state index flight answer name = some next) :
    Still writer state next := by
  unfold attemptCall at hattempt
  split at hattempt
  · cases hattempt
    exact h.finish index
  next current hcurrent =>
    split at hattempt
    · cases hattempt
      exact h.finish index
    next content hchange =>
      obtain ⟨stored, hstored, rfl⟩ := map_eq_some_iff.mp hattempt
      obtain ⟨hsound, hsame, hlog⟩ := Sound.store hstored h
      have hparent : stored.named current.name = some current := by
        obtain ⟨head, _, hnamed⟩ := bind_eq_some_iff.mp hcurrent
        rw [← named_name hnamed] at hnamed
        exact named_storeObject hstored hnamed
      refine ⟨⟨hsound.headStored, hsound.builtFrom.setFlight ?_⟩, hsame, hlog⟩
      intro parent built given hphase
      cases hphase
      exact ⟨current, ⟨name, content⟩, hparent, named_stored hstored, hchange⟩

theorem step_moved (h : Sound writer state) (hstep : step writer state event = some next) :
    Sound writer next ∧ Moved writer state next event := by
  cases event with
  | store name content => exact (Sound.store hstep h).moved
  | push target =>
    obtain ⟨hsound, hlog⟩ := step_push h hstep
    exact ⟨hsound, .pushed hlog⟩
  | start index call =>
    simp only [step] at hstep
    split at hstep
    · cases hstep
      exact (step_start h index call).moved
    · cases hstep
  | attempt index answer name =>
    simp only [step] at hstep
    split at hstep
    · split at hstep
      · exact (step_attempt h hstep).moved
      · cases hstep
    · cases hstep
  | swap index accepted =>
    simp only [step] at hstep
    split at hstep
    next flight hflight =>
      split at hstep
      next parent name answer hphase =>
        cases hstep
        exact step_swap h hflight hphase accepted
      · cases hstep
    · cases hstep
  | recheck index =>
    simp only [step] at hstep
    split at hstep
    next flight _ =>
      split at hstep
      next parent _ =>
        cases hstep
        exact (step_recheck h index flight parent).moved
      · cases hstep
    · cases hstep
  | fail index =>
    simp only [step] at hstep
    split at hstep
    · cases hstep
      exact (h.finish index).moved
    · cases hstep

/-- A request that replaces a content meets a condition there, and what it looked up is still
so in it. -/
def Settled (writer : Writer Content Call Found Answer)
    (condition : Call → Answer → Named Content → Prop)
    (state : State Content Call Found Answer) (event : Event Content Call Answer) : Prop :=
  ∀ index flight parent name answer old, event = .swap index true →
    state.flights index = some flight → flight.phase = .built parent name answer →
    state.current = some old → old.name = parent →
    writer.find old.content flight.call = some flight.found ∧ condition flight.call answer old

def Event.accepted : Event Content Call Answer → Option Nat
  | .swap index true => some index
  | _ => none

omit [DecidableEq Content] in
theorem Event.accepted_eq_some : event.accepted = some index ↔ event = .swap index true := by
  unfold Event.accepted
  split
  · simp
  next hother =>
    constructor
    · intro h
      cases h
    · intro h
      exact absurd h (hother index)

def Phase.built? : Phase Answer → Option (Nat × Nat × Answer)
  | .built parent name answer => some (parent, name, answer)
  | _ => none

theorem Phase.built?_eq_some {phase : Phase Answer} {parent : Nat} :
    phase.built? = some (parent, name, answer) ↔ phase = .built parent name answer := by
  cases phase <;> simp [Phase.built?]

instance [DecidableEq Found] (writer : Writer Content Call Found Answer)
    (condition : Call → Answer → Named Content → Prop)
    [∀ call answer parent, Decidable (condition call answer parent)]
    (state : State Content Call Found Answer) (event : Event Content Call Answer) :
    Decidable (Settled writer condition state event) :=
  decidable_of_iff
    (∀ index ∈ event.accepted, ∀ flight ∈ state.flights index, ∀ built ∈ flight.phase.built?,
      ∀ old ∈ state.current, old.name = built.1 →
        writer.find old.content flight.call = some flight.found ∧
          condition flight.call built.2.2 old) (by
    constructor
    · intro h index flight parent name answer old hevent hflight hphase hold hname
      exact h index (Event.accepted_eq_some.mpr hevent) flight hflight _
        (Phase.built?_eq_some.mpr hphase) old hold hname
    · rintro h index hevent flight hflight ⟨parent, name, answer⟩ hphase old hold hname
      exact h index flight parent name answer old (Event.accepted_eq_some.mp hevent) hflight
        (Phase.built?_eq_some.mp hphase) hold hname)

structure Commit.Alone (writer : Writer Content Call Found Answer)
    (condition : Call → Answer → Named Content → Prop)
    (commit : Commit Content Call Found Answer) : Prop where
  found : writer.find commit.parent.content commit.call = some commit.found
  changed : writer.change commit.call commit.found commit.answer commit.parent.name
    commit.parent.content = some commit.result.content
  condition : condition commit.call commit.answer commit.parent

/-- The moves of the log, made one after another, lead to what the reference names, and each
request is logged with what it was on its parent. -/
structure Serial (writer : Writer Content Call Found Answer)
    (condition : Call → Answer → Named Content → Prop) (first : Named Content)
    (state : State Content Call Found Answer) : Prop where
  sound : Sound writer state
  replayed : writer.replay first state.log = state.current
  commits : ∀ commit, Move.act commit ∈ state.log → commit.Alone writer condition

variable {condition : Call → Answer → Named Content → Prop}

theorem serial_start (writer : Writer Content Call Found Answer) (first : Named Content) :
    Serial writer condition first (machine writer first).start where
  sound := by
    refine ⟨fun name hname => ?_, nofun⟩
    cases hname
    exact ⟨first, by simp [State.named, machine]⟩
  replayed := by
    simp [Writer.replay, machine, State.current, State.named]
  commits := fun commit hmem => by cases hmem

theorem serial_step {first : Named Content} (hserial : Serial writer condition first state)
    (hsettled : Settled writer condition state event)
    (hstep : step writer state event = some next) : Serial writer condition first next := by
  obtain ⟨hsound, hmoved⟩ := step_moved hserial.sound hstep
  cases hmoved with
  | stayed hcurrent hlog =>
    exact ⟨hsound, by rw [hlog, hcurrent, hserial.replayed], by rw [hlog]; exact hserial.commits⟩
  | pushed hlog =>
    refine ⟨hsound, ?_, fun commit hmem => ?_⟩
    · rw [hlog, Writer.replay_append]
      rfl
    · rw [hlog] at hmem
      rcases List.mem_append.mp hmem with hmem | hmem
      · exact hserial.commits commit hmem
      · cases List.mem_singleton.mp hmem
  | @committed index flight old new answer hflight hphase hold hnew hchange hlog =>
    obtain ⟨hfind, hcondition⟩ := hsettled index flight _ _ answer old rfl hflight hphase hold rfl
    refine ⟨hsound, ?_, fun commit hmem => ?_⟩
    · rw [hlog, Writer.replay_append, hserial.replayed, hold, hnew]
      simp [Writer.replayMove, Writer.alone, hfind, hchange]
    · rw [hlog] at hmem
      rcases List.mem_append.mp hmem with hmem | hmem
      · exact hserial.commits commit hmem
      · cases List.mem_singleton.mp hmem
        exact ⟨hfind, hchange, hcondition⟩

theorem run_serial {first : Named Content} {events : List (Event Content Call Answer)}
    {final : State Content Call Found Answer}
    (hmeets : (machine writer first).Meets (Settled writer condition) events)
    (hrun : (machine writer first).run events = some final) : Serial writer condition first final :=
  (machine writer first).run_invariant (serial_start writer first)
    (fun _ _ _ hserial hsettled hstep => serial_step hserial hsettled hstep) hmeets hrun

end Steps

end Optimistic
