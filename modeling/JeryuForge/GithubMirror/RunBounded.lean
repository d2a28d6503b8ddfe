import JeryuForge.Library.Machine
import JeryuForge.Text

/-!
# Waiting for git

`run_bounded` gives git two pipes and waits for it to exit; only then does it read them.  Git writes
byte after byte and waits while a pipe is full, so a command exits exactly if each of its outputs
fits into a pipe.
-/

namespace JeryuForge.GithubMirror

open List

inductive Stream where
  | stdout
  | stderr
deriving DecidableEq

/-- What git writes, byte after byte, and whether it exits with success. -/
structure Command where
  args : List String
  writes : List (Stream × UInt8)
  success : Bool

def onStream (stream : Stream) (writes : List (Stream × UInt8)) : List UInt8 :=
  (writes.filter fun write => write.1 = stream).map Prod.snd

/-- `read_to_string` into an empty text: what is no UTF-8 leaves it empty. -/
def readToString (bytes : List UInt8) : String :=
  (String.fromUTF8? ⟨bytes.toArray⟩).getD ""

def Command.name (command : Command) : String :=
  "git " ++ " ".intercalate command.args

def Command.result (command : Command) (stdout stderr : List UInt8) : Except String String :=
  if command.success then .ok (readToString stdout)
  else .error (command.name ++ " failed: " ++ Text.trim (readToString stderr))

def pushTimeout : Nat := 60

structure State where
  unwritten : List (Stream × UInt8)
  pipe : Stream → List UInt8
  exited : Bool
  answer : Option (Except String String)

/-- Git writes a byte or exits; the parent asks for the exit status so many milliseconds after the
start, and may fail to get it. -/
inductive Event where
  | write
  | exit
  | poll (elapsedMs : Nat)
  | lose (reason : String)

def Event.ofChild : Event → Bool
  | .write | .exit => true
  | .poll _ | .lose _ => false

section

variable (capacity : Nat) (command : Command)

def poll (state : State) (elapsedMs : Nat) : Option (Except String String) :=
  if state.exited then some (command.result (state.pipe .stdout) (state.pipe .stderr))
  else if pushTimeout * 1000 < elapsedMs then
    some (.error (command.name ++ " timed out after " ++ toString pushTimeout ++ "s"))
  else none

def act (state : State) (event : Event) : Option State :=
  if state.answer.isSome then none
  else
    match event with
    | .write =>
      match state.unwritten with
      | [] => none
      | (stream, byte) :: rest =>
        if (state.pipe stream).length < capacity then
          some { state with
            unwritten := rest
            pipe := Function.update state.pipe stream (state.pipe stream ++ [byte]) }
        else none
    | .exit => if state.unwritten = [] then some { state with exited := true } else none
    | .poll elapsedMs => some { state with answer := poll command state elapsedMs }
    | .lose reason => some { state with answer := some (.error ("wait: " ++ reason)) }

/-- `run_bounded`, from a child that runs. -/
def runBounded : Machine State Event where
  start := { unwritten := command.writes, pipe := fun _ => [], exited := false, answer := none }
  step := act capacity command

/-- Git waits for room in a pipe, and the parent for git to exit. -/
def Stuck (state : State) : Prop :=
  state.answer = none ∧ ∃ stream byte rest, state.unwritten = (stream, byte) :: rest ∧
    capacity ≤ (state.pipe stream).length

/-- The two never wait for each other: while there is no answer git can go on until it exits, and
the next look at it then returns all of its output. -/
def Returns : Prop :=
  ∀ events state, (runBounded capacity command).run events = some state →
    ¬Stuck capacity state ∧
      (state.answer = none → ∃ moves final, moves.all Event.ofChild = true ∧
        (runBounded capacity command).runFrom state moves = some final ∧
        final.exited = true ∧ ∀ elapsedMs, poll command final elapsedMs =
          some (command.result (onStream .stdout command.writes) (onStream .stderr command.writes)))

end

variable {capacity : Nat} {command : Command} {state next : State} {event : Event}

structure Kept (capacity : Nat) (command : Command) (state : State) : Prop where
  written : ∀ stream, state.pipe stream ++ onStream stream state.unwritten =
    onStream stream command.writes
  room : ∀ stream, (state.pipe stream).length ≤ capacity
  all : state.exited = true → state.unwritten = []

theorem Kept.after (hkept : Kept capacity command state)
    (hstep : act capacity command state event = some next) : Kept capacity command next := by
  unfold act at hstep
  split at hstep
  · cases hstep
  cases event with
  | write =>
    dsimp only at hstep
    split at hstep
    · cases hstep
    next stream byte rest hunwritten =>
      split at hstep
      next hroom =>
        cases hstep
        have hall := hkept.written
        rw [hunwritten] at hall
        refine ⟨fun other => ?_, fun other => ?_, fun hexited => ?_⟩
        · by_cases hsame : other = stream
          · subst hsame
            simpa [onStream] using hall other
          · simpa [onStream, hsame, Ne.symm hsame] using hall other
        · by_cases hsame : other = stream
          · subst hsame
            simpa using Nat.succ_le_of_lt hroom
          · simpa [hsame] using hkept.room other
        · exact absurd (hunwritten.symm.trans (hkept.all hexited)) (cons_ne_nil _ _)
      · cases hstep
  | exit =>
    dsimp only at hstep
    split at hstep
    next hnone =>
      cases hstep
      exact ⟨hkept.written, hkept.room, fun _ => hnone⟩
    · cases hstep
  | poll | lose =>
    cases hstep
    exact ⟨hkept.written, hkept.room, hkept.all⟩

theorem Kept.runFrom {events : List Event} (hkept : Kept capacity command state)
    (hrun : (runBounded capacity command).runFrom state events = some next) :
    Kept capacity command next :=
  (runBounded capacity command).runFrom_invariant (fun _ _ _ hstate _ hstep => hstate.after hstep)
    hkept ((runBounded capacity command).meetsFrom_true state events) hrun

theorem kept_start (capacity : Nat) (command : Command) :
    Kept capacity command (runBounded capacity command).start :=
  ⟨fun _ => rfl, fun _ => Nat.zero_le _, nofun⟩

/-- The next byte of an output that fits has room. -/
theorem Kept.length_lt (hkept : Kept capacity command state) {stream : Stream} {byte : UInt8}
    {rest : List (Stream × UInt8)} (hunwritten : state.unwritten = (stream, byte) :: rest)
    (hfits : (onStream stream command.writes).length ≤ capacity) :
    (state.pipe stream).length < capacity := by
  have hlength := congrArg length (hkept.written stream)
  rw [hunwritten, length_append] at hlength
  simp only [onStream, decide_true, filter_cons_of_pos, map_cons, length_cons] at hlength hfits
  omega

theorem Kept.poll_exited (hkept : Kept capacity command state) (hexited : state.exited = true)
    (elapsedMs : Nat) : poll command state elapsedMs =
      some (command.result (onStream .stdout command.writes)
        (onStream .stderr command.writes)) := by
  have hread : ∀ stream, state.pipe stream = onStream stream command.writes := by
    intro stream
    rw [← hkept.written stream, hkept.all hexited]
    exact (append_nil _).symm
  rw [poll, if_pos hexited, hread, hread]

/-- Git writes the rest of its output and exits. -/
theorem Kept.exists_exited (hfits : ∀ stream, (onStream stream command.writes).length ≤ capacity)
    (hkept : Kept capacity command state) (hopen : state.answer = none) :
    ∃ moves final, moves.all Event.ofChild = true ∧
      (runBounded capacity command).runFrom state moves = some final ∧ final.exited = true := by
  induction hwrites : state.unwritten generalizing state with
  | nil =>
    refine ⟨[.exit], { state with exited := true }, rfl, ?_, rfl⟩
    simp [Machine.runFrom, runBounded, act, hopen, hwrites]
  | cons write rest ih =>
    obtain ⟨stream, byte⟩ := write
    have hroom := hkept.length_lt hwrites (hfits stream)
    obtain ⟨next, hnext, hanswer, hrest⟩ : ∃ next, act capacity command state .write =
        some next ∧ next.answer = none ∧ next.unwritten = rest := by
      simp [act, hopen, hwrites, hroom]
    obtain ⟨moves, final, hmoves, hrun, hexited⟩ := ih (hkept.after hnext) hanswer hrest
    refine ⟨.write :: moves, final, hmoves, ?_, hexited⟩
    exact Option.bind_eq_some_iff.mpr ⟨next, hnext, hrun⟩

/-- The call returns whatever happens exactly if each stream fits into its pipe. -/
theorem returns_iff (capacity : Nat) (command : Command) :
    Returns capacity command ↔ ∀ stream, (onStream stream command.writes).length ≤ capacity := by
  constructor
  · intro hreturns stream
    obtain ⟨moves, final, -, hrun, hexited, -⟩ := (hreturns [] _ rfl).2 rfl
    have hkept := (kept_start capacity command).runFrom hrun
    have hwritten := hkept.written stream
    rw [hkept.all hexited] at hwritten
    rw [← hwritten]
    simpa [onStream] using hkept.room stream
  · intro hfits events state hrun
    have hkept := (kept_start capacity command).runFrom hrun
    constructor
    · rintro ⟨-, stream, byte, rest, hunwritten, hfull⟩
      exact absurd (hkept.length_lt hunwritten (hfits stream)) (Nat.not_lt.mpr hfull)
    · intro hopen
      obtain ⟨moves, final, hmoves, hmoved, hexited⟩ := hkept.exists_exited hfits hopen
      exact ⟨moves, final, hmoves, hmoved, hexited, (hkept.runFrom hmoved).poll_exited hexited⟩

/-- Two bytes for a pipe that holds one: a command that would exit is killed. -/
theorem twoBytes_timesOut : ∃ state final,
    (runBounded 1 ⟨["ls-remote"], [(.stdout, 97), (.stdout, 10)], true⟩).run [.write] =
        some state ∧ Stuck 1 state ∧
      act 1 ⟨["ls-remote"], [(.stdout, 97), (.stdout, 10)], true⟩ state (.poll 60001) =
        some final ∧
      final.answer = some (.error "git ls-remote timed out after 60s") := by
  refine ⟨_, _, rfl, ⟨rfl, .stdout, 10, [], rfl, by decide⟩, rfl, ?_⟩
  decide +kernel

end JeryuForge.GithubMirror
