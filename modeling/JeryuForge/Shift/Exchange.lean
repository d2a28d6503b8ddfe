import JeryuForge.Library.Machine

/-!
# The exchange with `git cat-file --batch`

To read a queue, the server sends one line for each todo file and git answers each with a
record.  The helper `git` writes its whole input before it reads anything, so each side can
wait for the other to make room in a pipe.
-/

namespace JeryuForge.Shift.Exchange

open List Option Nat

structure Entry where
  oid : String
  size : Nat

/-- The line `read_native_todos` pushes: the name of the blob and a newline. -/
def Entry.request (entry : Entry) : Nat :=
  entry.oid.length + 1

/-- What git writes for it: a header line, the content and a newline. -/
def Entry.record (entry : Entry) : Nat :=
  (entry.oid ++ " blob " ++ toString entry.size ++ "\n").length + entry.size + 1

def requests (entries : List Entry) : Nat :=
  (entries.map Entry.request).sum

def records (entries : List Entry) : Nat :=
  (entries.map Entry.record).sum

def due : List Entry → Nat → Nat
  | [], _ => 0
  | entry :: rest, taken =>
    if taken < entry.request then 0 else entry.record + due rest (taken - entry.request)

structure Pipes where
  input : Nat
  output : Nat
  input_pos : 0 < input
  output_pos : 0 < output

structure State where
  sent : Nat
  taken : Nat
  written : Nat
  read : Nat

inductive Event where
  | send
  | take
  | write
  | read

section

variable (pipes : Pipes) (entries : List Entry)

/-- One byte at a time: `write_all` until everything is sent, then `wait_with_output`; git
takes a line only when it has written all it owes. -/
def step (state : State) : Event → Option State
  | .send =>
    if state.sent < requests entries ∧ state.sent < state.taken + pipes.input then
      some { state with sent := state.sent + 1 }
    else none
  | .take =>
    if state.taken < state.sent ∧ state.written = due entries state.taken then
      some { state with taken := state.taken + 1 }
    else none
  | .write =>
    if state.written < due entries state.taken ∧ state.written < state.read + pipes.output then
      some { state with written := state.written + 1 }
    else none
  | .read =>
    if state.sent = requests entries ∧ state.read < state.written then
      some { state with read := state.read + 1 }
    else none

/-- `git` of the queue: the server and git with two pipes between them. -/
def exchange : Machine State Event where
  start := ⟨0, 0, 0, 0⟩
  step := step pipes entries

structure Deadlocked (state : State) : Prop where
  unsent : state.sent < requests entries
  inputFull : state.sent = state.taken + pipes.input
  unwritten : state.written < due entries state.taken
  outputFull : state.written = state.read + pipes.output

structure Done (state : State) : Prop where
  taken : state.taken = requests entries
  read : state.read = records entries

/-- The two sides never wait for each other, and no run goes on forever or stops before git
has taken all lines and the server has read all records. -/
def Completes : Prop :=
  ∀ events state, (exchange pipes entries).run events = some state →
    ¬Deadlocked pipes entries state ∧
      events.length ≤ 2 * (requests entries + records entries) ∧
      (Done entries state ∨ ∃ event next, step pipes entries state event = some next)

/-- Once the records of the first files are more than the output pipe holds, the lines for
the others fit into the input pipe. -/
def Fits : Prop :=
  ∀ front back, entries = front ++ back → pipes.output < records front →
    requests back ≤ pipes.input

end

@[simp]
theorem requests_append (front back : List Entry) :
    requests (front ++ back) = requests front + requests back := by
  simp [requests]

@[simp]
theorem records_append (front back : List Entry) :
    records (front ++ back) = records front + records back := by
  simp [records]

theorem due_append (front back : List Entry) (taken : Nat) :
    due (front ++ back) (requests front + taken) = records front + due back taken := by
  induction front with
  | nil => simp [requests, records]
  | cons entry front ih =>
    have hrequests : requests (entry :: front) = entry.request + requests front := rfl
    have hrecords : records (entry :: front) = entry.record + records front := rfl
    rw [cons_append, due, hrequests, hrecords, if_neg (by omega), Nat.add_assoc,
      Nat.add_sub_cancel_left, ih, Nat.add_assoc]

theorem due_requests (entries : List Entry) : due entries (requests entries) = records entries := by
  simpa [due] using due_append entries [] 0

theorem exists_due_eq (entries : List Entry) (taken : Nat) :
    ∃ front back, entries = front ++ back ∧ requests front ≤ taken ∧
      due entries taken = records front := by
  induction entries generalizing taken with
  | nil => exact ⟨[], [], rfl, zero_le _, rfl⟩
  | cons entry rest ih =>
    unfold due
    split
    · exact ⟨[], entry :: rest, rfl, zero_le _, rfl⟩
    next hline =>
      obtain ⟨front, back, rfl, hfront, hdue⟩ := ih (taken - entry.request)
      have hrequests : requests (entry :: front) = entry.request + requests front := rfl
      refine ⟨entry :: front, back, rfl, by omega, ?_⟩
      rw [hdue]
      rfl

theorem due_le (entries : List Entry) (taken : Nat) : due entries taken ≤ records entries := by
  obtain ⟨front, back, rfl, _, hdue⟩ := exists_due_eq entries taken
  rw [hdue, records_append]
  exact le_add_right _ _

theorem due_mono (entries : List Entry) {taken more : Nat} (hmore : taken ≤ more) :
    due entries taken ≤ due entries more := by
  obtain ⟨front, back, rfl, hfront, hdue⟩ := exists_due_eq entries taken
  obtain ⟨rest, rfl⟩ := Nat.exists_eq_add_of_le (Nat.le_trans hfront hmore)
  rw [hdue, due_append]
  exact Nat.le_add_right _ _

section

variable {pipes : Pipes} {entries : List Entry} {state next : State}

structure Kept (pipes : Pipes) (entries : List Entry) (state : State) : Prop where
  sent_le : state.sent ≤ requests entries
  taken_le : state.taken ≤ state.sent
  input : state.sent ≤ state.taken + pipes.input
  written_le : state.written ≤ due entries state.taken
  read_le : state.read ≤ state.written
  output : state.written ≤ state.read + pipes.output

def State.moved (state : State) : Nat :=
  state.sent + state.taken + state.written + state.read

theorem Kept.step {event : Event} (hkept : Kept pipes entries state)
    (hstep : step pipes entries state event = some next) :
    Kept pipes entries next ∧ next.moved = state.moved + 1 := by
  obtain ⟨hsent, htaken, hinput, hwritten, hread, houtput⟩ := hkept
  have hmono := due_mono entries (le_add_right state.taken 1)
  cases event <;> obtain ⟨hguard, hnext⟩ := ite_none_right_eq_some.mp hstep <;> cases hnext <;>
    exact ⟨by constructor <;> simp only <;> omega, by simp only [State.moved]; omega⟩

variable {events : List Event} {front back : List Entry}

theorem Kept.runFrom (hkept : Kept pipes entries state)
    (hrun : (exchange pipes entries).runFrom state events = some next) :
    Kept pipes entries next ∧ next.moved = state.moved + events.length := by
  induction events generalizing state with
  | nil =>
    cases hrun
    exact ⟨hkept, rfl⟩
  | cons event events ih =>
    obtain ⟨middle, hstep, hrest⟩ := Machine.runFrom_cons_eq_some _ hrun
    obtain ⟨hmiddle, hone⟩ := hkept.step hstep
    obtain ⟨hnext, hmoved⟩ := ih hmiddle hrest
    exact ⟨hnext, by rw [hmoved, hone, length_cons, Nat.add_assoc, Nat.add_comm 1]⟩

theorem Kept.run (hrun : (exchange pipes entries).run events = some state) :
    Kept pipes entries state ∧ state.moved = events.length := by
  have hstart : Kept pipes entries ⟨0, 0, 0, 0⟩ := by constructor <;> simp
  simpa [State.moved, exchange] using hstart.runFrom hrun

theorem Kept.moved_le (hkept : Kept pipes entries state) :
    state.moved ≤ 2 * (requests entries + records entries) := by
  obtain ⟨hsent, htaken, _, hwritten, hread, _⟩ := hkept
  have hdue := due_le entries state.taken
  unfold State.moved
  omega

/-- A side that can do nothing waits for the other, so if neither can, they are done or both
wait to write. -/
theorem Kept.progress (hkept : Kept pipes entries state) :
    Done entries state ∨ Deadlocked pipes entries state ∨
      ∃ event next, Exchange.step pipes entries state event = some next := by
  obtain ⟨hsent, htaken, hinput, hwritten, hread, houtput⟩ := hkept
  have hpos := pipes.input_pos
  have houtputPos := pipes.output_pos
  by_cases hsend : state.sent < requests entries ∧ state.sent < state.taken + pipes.input
  · exact .inr (.inr ⟨.send, _, if_pos hsend⟩)
  by_cases htake : state.taken < state.sent ∧ state.written = due entries state.taken
  · exact .inr (.inr ⟨.take, _, if_pos htake⟩)
  by_cases hwrite : state.written < due entries state.taken ∧
      state.written < state.read + pipes.output
  · exact .inr (.inr ⟨.write, _, if_pos hwrite⟩)
  by_cases hreads : state.sent = requests entries ∧ state.read < state.written
  · exact .inr (.inr ⟨.read, _, if_pos hreads⟩)
  by_cases hall : state.sent = requests entries
  · -- nothing is left to read, so git has room and has taken all there was
    have hdone : state.taken = requests entries := by omega
    have hrecords := due_requests entries
    rw [← hdone] at hrecords
    exact .inl ⟨hdone, by omega⟩
  · exact .inr (.inl ⟨by omega, by omega, by omega, by omega⟩)

structure Blocked (pipes : Pipes) (front : List Entry) (state : State) : Prop where
  taken : state.taken ≤ requests front
  sent : state.sent ≤ requests front + pipes.input
  unread : state.read = 0
  written : state.written ≤ pipes.output

theorem Blocked.run (hfront : pipes.output < records front) (hback : pipes.input < requests back)
    (hrun : (exchange pipes (front ++ back)).run events = some state) :
    Blocked pipes front state := by
  have howed : records front ≤ due (front ++ back) (requests front) := by
    have hdue := due_append front back 0
    rw [Nat.add_zero] at hdue
    omega
  refine (exchange pipes (front ++ back)).run_invariant_always (by constructor <;> simp [exchange])
    (fun state event next hblocked hstep => ?_) hrun
  obtain ⟨htaken, hsent, hunread, hwritten⟩ := hblocked
  cases event with
  | take =>
    obtain ⟨hguard, hnext⟩ := ite_none_right_eq_some.mp hstep
    cases hnext
    have hearlier : state.taken ≠ requests front := by
      intro hsame
      rw [hsame] at hguard
      omega
    exact ⟨by simp only; omega, hsent, hunread, hwritten⟩
  | read =>
    obtain ⟨hguard, _⟩ := ite_none_right_eq_some.mp hstep
    rw [requests_append] at hguard
    omega
  | send | write =>
    obtain ⟨hguard, hnext⟩ := ite_none_right_eq_some.mp hstep
    cases hnext
    constructor <;> simp only <;> omega

theorem exists_deadlocked (hfront : pipes.output < records front)
    (hback : pipes.input < requests back) :
    ∃ events state, (exchange pipes (front ++ back)).run events = some state ∧
      Deadlocked pipes (front ++ back) state := by
  by_contra hnever
  -- otherwise there are runs of any length
  have hruns : ∀ length, ∃ events state, events.length = length ∧
      (exchange pipes (front ++ back)).run events = some state := by
    intro length
    induction length with
    | zero => exact ⟨[], _, rfl, rfl⟩
    | succ length ih =>
      obtain ⟨events, state, hlength, hrun⟩ := ih
      have hkept := (Kept.run hrun).1
      rcases hkept.progress with hdone | hdead | ⟨event, next, hstep⟩
      · have htaken := (Blocked.run hfront hback hrun).taken
        have hall := hdone.taken
        rw [requests_append] at hall
        omega
      · exact absurd ⟨events, state, hrun, hdead⟩ hnever
      · refine ⟨events ++ [event], next, by simp [hlength], ?_⟩
        refine (Machine.runFrom_append _ _ _ _).trans (bind_eq_some_iff.mpr ⟨state, hrun, ?_⟩)
        exact bind_eq_some_iff.mpr ⟨next, hstep, rfl⟩
  obtain ⟨events, state, hlength, hrun⟩ :=
    hruns (2 * (requests (front ++ back) + records (front ++ back)) + 1)
  obtain ⟨hkept, hmoved⟩ := Kept.run hrun
  have hbound := hkept.moved_le
  omega

theorem Fits.not_deadlocked (hfits : Fits pipes entries) (hkept : Kept pipes entries state) :
    ¬Deadlocked pipes entries state := by
  rintro ⟨hunsent, hinput, hunwritten, houtput⟩
  obtain ⟨front, back, rfl, hfront, hdue⟩ := exists_due_eq entries state.taken
  have hback := hfits front back rfl (by omega)
  rw [requests_append] at hunsent
  omega

end

/-- The exchange never gets stuck exactly if, once the output pipe is full, the lines that are left
fit into the input pipe. -/
theorem completes_iff (pipes : Pipes) (entries : List Entry) :
    Completes pipes entries ↔ Fits pipes entries := by
  constructor
  · rintro hcompletes front back rfl hfront
    by_contra hback
    obtain ⟨events, state, hrun, hdead⟩ := exists_deadlocked hfront (Nat.lt_of_not_le hback)
    exact (hcompletes events state hrun).1 hdead
  · intro hfits events state hrun
    obtain ⟨hkept, hmoved⟩ := Kept.run hrun
    have hfree := hfits.not_deadlocked hkept
    refine ⟨hfree, hmoved ▸ hkept.moved_le, ?_⟩
    rcases hkept.progress with hdone | hdead | hmore
    · exact .inl hdone
    · exact absurd hdead hfree
    · exact .inr hmore

def defaultPipes : Pipes :=
  ⟨65536, 65536, by decide, by decide⟩

def smallTodo : Entry :=
  { oid := "0123456789012345678901234567890123456789", size := 1000 }

theorem manyTodos_deadlock :
    ∃ events state,
      (exchange defaultPipes (List.replicate 100 smallTodo ++ List.replicate 3100 smallTodo)).run
        events = some state ∧
      Deadlocked defaultPipes (List.replicate 100 smallTodo ++ List.replicate 3100 smallTodo)
        state := by
  have hrequest : smallTodo.request = 41 := by decide
  refine exists_deadlocked ?_ ?_
  · decide
  · rw [requests, map_replicate, sum_replicate_nat, hrequest]
    decide

end JeryuForge.Shift.Exchange
