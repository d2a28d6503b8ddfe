import JeryuForge.Gateway.Relay

/-!
# Who gets the credential

A gateway serves many relays, which share the slots of their sessions and nothing else.  What a
relay was seen to do is read as a history: the vault is asked only behind a current assignment of
the peer's own node, the credential is retrieved once and behind every precondition, and every
chunk that goes upstream and every body line that goes to the node has a re-check of its own.
-/

namespace JeryuForge.Gateway

open List Nat

section Justified

variable (setting : Setting) (peer : Option (List UInt8)) (sessionId provider : String)
  (input : LineReader)

def Proven (line : OpenLine) (node : EnrolledNode) (assignment : Assignment) (now : UInt64) :
    Prop :=
  (∃ lines, openLine setting provider input = some (line, lines)) ∧
    Verified setting peer sessionId provider line.capability now node assignment

def Passed (recheck : List Observation) : Prop :=
  ∃ line node assignment now,
    Proven setting peer sessionId provider input line node assignment now ∧
    recheck = [.assignment now line.capability.sessionId (some assignment),
      .check (Binding.of line.capability) (.ok ())]

def Covered (before : List Observation) : Prop :=
  ∃ earlier recheck between, Passed setting peer sessionId provider input recheck ∧
    before = earlier ++ recheck ++ between ∧ sentLines between = []

def Justified (before : List Observation) : Observation → Prop
  | .check _ _ => ∃ earlier line node assignment now,
      Proven setting peer sessionId provider input line node assignment now ∧
      before = earlier ++ [.assignment now line.capability.sessionId (some assignment)]
  | .credential binding => ∃ line node assignment now held,
      Proven setting peer sessionId provider input line node assignment now ∧
      line.provider = provider ∧
      Precondition setting.table line provider now assignment.leaseExpiresAtUnixMillis ∧
      held < maxInFlight ∧ binding = Binding.of line.capability ∧
      before = [.assignment now line.capability.sessionId (some assignment),
        .check binding (.ok ()), .slot held]
  | .sent _ => ∃ earlier recheck, Passed setting peer sessionId provider input recheck ∧
      before = earlier ++ recheck
  | .line (.responseBody ..) => Covered setting peer sessionId provider input before
  | _ => True

end Justified

/-! ## One relay -/

def Owned (setting : Setting) (relay : Relay) (call : Call) : Prop :=
  ∃ line lines node, openLine setting relay.provider relay.input = some (line, lines) ∧
    Identified setting.verifier setting.registry relay.peer line.capability relay.sessionId
      relay.provider node ∧
    call.accepted = ⟨node.runnerId, line.capability, Binding.of line.capability⟩

structure Disciplined (setting : Setting) (relay : Relay) : Prop where
  each : History.Each
    (Justified setting relay.peer relay.sessionId relay.provider relay.input) relay.trace
  opening : relay.phase = .opening → relay.trace = []
  owned : ∀ call stage, relay.phase = .forwarding call stage → Owned setting relay call
  waiting : ∀ call requestId seq text rest,
    relay.phase = .forwarding call (.handing (.responseBody requestId seq text) rest) →
    Covered setting relay.peer relay.sessionId relay.provider relay.input relay.trace

abbrev JustifiedFor (setting : Setting) (relay : Relay) : List Observation → Observation → Prop :=
  Justified setting relay.peer relay.sessionId relay.provider relay.input

/-- What the relay has been seen to do by then is justified. -/
abbrev JustifiedAll (setting : Setting) (relay : Relay) (trace : List Observation) : Prop :=
  History.Each (JustifiedFor setting relay) trace

abbrev CoveredFor (setting : Setting) (relay : Relay) (before : List Observation) : Prop :=
  Covered setting relay.peer relay.sessionId relay.provider relay.input before

section Relay

variable {setting : Setting} {relay : Relay}

theorem observe_cases (accepted : Accepted) (reads : Reads) :
    (accepted.recheck reads ≠ .ok () ∧ ∃ stored,
        accepted.observe reads = [.assignment reads.now accepted.capability.sessionId stored]) ∨
      ∃ assignment, Assigned assignment accepted.runnerId accepted.capability reads.now ∧
        accepted.recheck reads = reads.vault accepted.binding ∧
        accepted.observe reads =
          [.assignment reads.now accepted.capability.sessionId (some assignment),
            .check accepted.binding (reads.vault accepted.binding)] := by
  unfold Accepted.recheck Accepted.observe
  cases hcurrent : current reads.store accepted.runnerId accepted.capability reads.now with
  | error error => exact .inl ⟨nofun, _, rfl⟩
  | ok expires =>
    obtain ⟨assignment, hstored, hassigned, -⟩ := current_ok hcurrent
    exact .inr ⟨assignment, hassigned, rfl, by simp only [hstored]⟩

theorem each_observe {call : Call} {reads : Reads} (howned : Owned setting relay call)
    {trace : List Observation} (heach : JustifiedAll setting relay trace) :
    JustifiedAll setting relay (trace ++ call.accepted.observe reads) := by
  obtain ⟨line, lines, node, hopen, hidentified, haccepted⟩ := howned
  rcases observe_cases call.accepted reads with ⟨-, stored, hobserve⟩ |
    ⟨assignment, hassigned, -, hobserve⟩
  · rw [hobserve]
    exact heach.concat trivial
  · rw [haccepted] at hassigned
    rw [hobserve, haccepted]
    have hfirst := heach.concat (show JustifiedFor setting relay trace
      (.assignment reads.now line.capability.sessionId (some assignment)) from trivial)
    have hboth := hfirst.concat (show JustifiedFor setting relay _
      (.check (Binding.of line.capability) (reads.vault (Binding.of line.capability))) from
      ⟨trace, line, node, assignment, reads.now, ⟨⟨lines, hopen⟩, hidentified, hassigned⟩, rfl⟩)
    rwa [append_assoc] at hboth

variable {call : Call} {reads : Reads} {requestId : String} {phase : Phase}
  {trace : List Observation} {event : Event}

theorem passed_observe (howned : Owned setting relay call)
    (hok : call.accepted.recheck reads = .ok ()) :
    Passed setting relay.peer relay.sessionId relay.provider relay.input
      (call.accepted.observe reads) := by
  obtain ⟨line, lines, node, hopen, hidentified, haccepted⟩ := howned
  rcases observe_cases call.accepted reads with ⟨hfailed, -⟩ |
    ⟨assignment, hassigned, hvault, hobserve⟩
  · exact absurd hok hfailed
  · rw [hvault] at hok
    rw [hok, haccepted] at hobserve
    rw [haccepted] at hassigned ⊢
    exact ⟨line, node, assignment, reads.now, ⟨⟨lines, hopen⟩, hidentified, hassigned⟩, hobserve⟩

theorem covered_append {before between : List Observation}
    (hcovered : CoveredFor setting relay before) (hbetween : sentLines between = []) :
    CoveredFor setting relay (before ++ between) := by
  obtain ⟨earlier, recheck, already, hpassed, rfl, halready⟩ := hcovered
  refine ⟨earlier, recheck, already ++ between, hpassed, append_assoc _ _ _, ?_⟩
  rw [sentLines_append, halready, hbetween]
  rfl

theorem each_pollBody (howned : Owned setting relay call)
    (heach : JustifiedAll setting relay relay.trace) :
    JustifiedAll setting relay
      (relay.trace ++ (call.pollBody setting relay.requestId reads).1) := by
  have hpolled := polled_pollBody setting relay.requestId call reads
  generalize call.pollBody setting relay.requestId reads = result at hpolled ⊢
  have hobserved := @each_observe setting relay call reads howned relay.trace heach
  cases hpolled with
  | item hok hnext =>
    rw [← append_assoc]
    exact hobserved.concat ⟨relay.trace, _, passed_observe howned hok, rfl⟩
  | ended hseen hnext =>
    rcases hseen with rfl | rfl
    · rwa [append_nil]
    · exact hobserved
  | refused hseen hnext =>
    rcases hseen with rfl | rfl
    · exact heach.concat trivial
    · rw [← append_assoc]
      exact hobserved.concat trivial

theorem disciplined_stopped
    (hstops : ∀ call stage, phase ≠ .forwarding call stage) (hopening : phase ≠ .opening)
    (hall : JustifiedAll setting relay trace) :
    Disciplined setting { relay with requestId := requestId, phase := phase, trace := trace } :=
  ⟨hall, fun hother => absurd hother hopening,
    fun _ _ hforwarding => absurd hforwarding (hstops _ _),
    fun _ _ _ _ _ hforwarding => absurd hforwarding (hstops _ _)⟩

theorem disciplined_failed {error : RelayError} (hall : JustifiedAll setting relay trace) :
    Disciplined setting
      { relay with requestId := requestId, phase := .failed error, trace := trace } :=
  disciplined_stopped (fun _ _ hother => nomatch hother) (fun hother => nomatch hother) hall

theorem disciplined_begin {answers : OpenAnswers} (hphase : relay.phase = .opening)
    (hdisciplined : Disciplined setting relay) :
    Disciplined setting (relay.begin setting answers) := by
  have hempty := hdisciplined.opening hphase
  have hbegun := begun_begin setting relay answers
  generalize relay.begin setting answers = next at hbegun ⊢
  -- Each thing the opening asks is justified by what it has asked before.
  have heach : ∀ {line : OpenLine} {lines : LineReader} {seen : List Observation}
      {outcome : Except RelayError Call},
      openLine setting relay.provider relay.input = some (line, lines) →
      Accepts setting relay.peer relay.sessionId relay.provider line lines answers
        (seen, outcome) →
      JustifiedAll setting relay (relay.trace ++ seen) := by
    intro line lines seen outcome hopen haccepts
    rw [hempty, nil_append]
    have hnil : JustifiedAll setting relay [] := History.each_nil
    have hassignment : ∀ now session stored,
        JustifiedAll setting relay [.assignment now session stored] :=
      fun now session stored => hnil.concat trivial
    cases haccepts with
    | unidentified => exact hnil
    | unassigned => exact hassignment _ _ _
    | @unready error node assignment answer hverified =>
      exact (hassignment _ _ _).concat ⟨[], line, node, assignment, answers.now,
        ⟨⟨lines, hopen⟩, hverified⟩, rfl⟩
    | @retrieved _ node assignment hprovider hverified hprecondition hslot houtcome =>
      have hproven : Proven setting relay.peer relay.sessionId relay.provider relay.input line node
          assignment answers.now := ⟨⟨lines, hopen⟩, hverified⟩
      have hchecked := (hassignment answers.now line.capability.sessionId
        (some assignment)).concat (show JustifiedFor setting relay _
          (.check (Binding.of line.capability) (.ok ())) from
        ⟨[], line, node, assignment, answers.now, hproven, rfl⟩)
      have hslotted := hchecked.concat
        (show JustifiedFor setting relay _ (.slot answers.inFlight) from trivial)
      exact hslotted.concat ⟨line, node, assignment, answers.now, answers.inFlight, hproven,
        hprovider, hprecondition, hslot, rfl, rfl⟩
  cases hbegun with
  | unread hnone => exact disciplined_failed hdisciplined.each
  | refused hopen haccepts => exact disciplined_failed (heach hopen haccepts)
  | @accepted line lines seen call hopen haccepts =>
    refine ⟨heach hopen haccepts, (fun hopening => nomatch hopening), ?_,
      fun _ _ _ _ _ hforwarding => nomatch hforwarding⟩
    intro other stage hforwarding
    cases hforwarding
    cases haccepts with
    | @retrieved _ node assignment hprovider hverified hprecondition hslot houtcome =>
      exact ⟨line, lines, node, hopen, hverified.identified, (houtcome _ rfl).1⟩

theorem disciplined_moves {stage : Stage} {seen : List Observation}
    (hphase : relay.phase = .forwarding call stage)
    (hdisciplined : Disciplined setting relay)
    (hmoves : Moves setting relay.requestId call stage event seen phase) :
    Disciplined setting { relay with phase := phase, trace := relay.trace ++ seen } := by
  have howned := hdisciplined.owned call stage hphase
  have heach := hdisciplined.each
  have hobserved : ∀ reads,
      JustifiedAll setting relay (relay.trace ++ call.accepted.observe reads) :=
    fun reads => each_observe howned heach
  have hnothing : JustifiedAll setting relay (relay.trace ++ []) := by rwa [append_nil]
  -- A step that goes on with the same request.
  have hgoes : ∀ {other : Call} {later : Stage} {added : List Observation},
      other.accepted = call.accepted →
      JustifiedAll setting relay (relay.trace ++ added) →
      (∀ requestId seq text rest, later = .handing (.responseBody requestId seq text) rest →
        CoveredFor setting relay (relay.trace ++ added)) →
      Disciplined setting
        { relay with phase := .forwarding other later, trace := relay.trace ++ added } := by
    intro other later added hsame hall hcovered
    refine ⟨hall, (fun hopening => nomatch hopening), ?_, ?_⟩
    · intro found place hforwarding
      cases hforwarding
      obtain ⟨line, lines, node, hopen, hidentified, haccepted⟩ := howned
      exact ⟨line, lines, node, hopen, hidentified, hsame.trans haccepted⟩
    · intro found requestId seq text rest hforwarding
      cases hforwarding
      exact hcovered _ _ _ _ rfl
  have hwaits : ∀ {added : List Observation}, sentLines added = [] →
      ∀ requestId seq text rest, stage = .handing (.responseBody requestId seq text) rest →
        CoveredFor setting relay (relay.trace ++ added) := by
    intro added hadded requestId seq text rest hstage
    subst hstage
    exact covered_append (hdisciplined.waiting call _ _ _ _ hphase) hadded
  cases hmoves with
  | @polled _ reads hgoing =>
    obtain ⟨hsilent, -, hsame, -⟩ := (polled_pollBody setting relay.requestId call reads).quiet
    exact hgoes hsame (each_pollBody howned heach) (hwaits hsilent)
  | lost | closed | unanswered | stalled | broken | idle | endStalled =>
    exact disciplined_failed hnothing
  | revoked | stopped => exact disciplined_failed (hobserved _)
  | watched hok => exact hgoes rfl (hobserved _) (hwaits (reading_observe _ _).sentLines)
  | answered hline =>
    refine hgoes rfl hnothing fun requestId seq text rest hstage => ?_
    obtain ⟨-, status, contentType, rfl⟩ := answer_ok hline
    cases hstage
  | @handed line rest =>
    refine hgoes rfl (heach.concat ?_) fun _ _ _ _ hstage => nomatch hstage
    cases line with
    | responseBody requestId seq text => exact hdisciplined.waiting call _ _ _ _ hphase
    | head | responseEnd | error => trivial
  | chunk | ended => exact hgoes rfl (heach.concat trivial) fun _ _ _ _ hstage => nomatch hstage
  | rechecked hok =>
    refine hgoes rfl (hobserved _) fun _ _ _ _ _ => ?_
    exact ⟨relay.trace, _, [], passed_observe howned hok, (append_nil _).symm, rfl⟩
  | finished =>
    exact disciplined_stopped (fun _ _ hother => nomatch hother) (fun hother => nomatch hother)
      (heach.concat trivial)

theorem disciplined_step {next : Relay} (hdisciplined : Disciplined setting relay)
    (hstep : relay.step setting event = some next) : Disciplined setting next := by
  cases steps_of_step hstep with
  | begin hphase => exact disciplined_begin hphase hdisciplined
  | forward hphase hmoves => exact disciplined_moves hphase hdisciplined hmoves
  | @report error delivered hphase =>
    refine disciplined_stopped (fun _ _ hother => nomatch hother) (fun hother => nomatch hother) ?_
    cases delivered with
    | true => exact hdisciplined.each.concat trivial
    | false =>
      have heach := hdisciplined.each
      simp only [Bool.false_eq_true, if_false]
      rwa [append_nil]

end Relay

def Observation.isCredential : Observation → Bool
  | .credential _ => true
  | _ => false

def retrievals (trace : List Observation) : Nat :=
  trace.countP Observation.isCredential

theorem retrievals_le_one {setting : Setting} {relay : Relay}
    (hdisciplined : Disciplined setting relay) : retrievals relay.trace ≤ 1 := by
  unfold retrievals
  by_contra hmore
  have hpositive : 0 < relay.trace.countP Observation.isCredential := by omega
  obtain ⟨observation, hmem, hcredential⟩ := countP_pos_iff.mp hpositive
  obtain ⟨before, after, hsplit⟩ := append_of_mem hmem
  cases observation with
  | credential binding =>
    obtain ⟨line, node, assignment, now, held, -, -, -, -, -, hbefore⟩ :=
      hdisciplined.each before _ after hsplit
    have hfront : before.countP Observation.isCredential = 0 := by
      rw [hbefore]
      rfl
    rw [hsplit, countP_append, hfront, countP_cons_of_pos hcredential] at hmore
    have hrest : 0 < after.countP Observation.isCredential := by omega
    obtain ⟨second, hsecond, hagain⟩ := countP_pos_iff.mp hrest
    obtain ⟨middle, last, hafter⟩ := append_of_mem hsecond
    cases second with
    | credential other =>
      have htwice : relay.trace =
          (before ++ .credential binding :: middle) ++ .credential other :: last := by
        rw [hsplit, hafter, append_assoc]
        rfl
      obtain ⟨_, _, _, _, _, _, _, _, _, _, hlater⟩ := hdisciplined.each _ _ _ htwice
      have hlength := congrArg length hlater
      have hthree := congrArg length hbefore
      simp only [length_append, length_cons, length_nil] at hlength hthree
      omega
    | _ => cases hagain
  | _ => cases hcredential

theorem retrievals_append (first second : List Observation) :
    retrievals (first ++ second) = retrievals first + retrievals second :=
  countP_append

theorem not_retrieved {trace seen : List Observation} (hseen : retrievals seen = 0) :
    ¬retrievals trace < retrievals (trace ++ seen) := by
  rw [retrievals_append, hseen]
  exact lt_irrefl _

theorem retrievals_observe (accepted : Accepted) (reads : Reads) :
    retrievals (accepted.observe reads) = 0 := by
  rcases observe_cases accepted reads with ⟨-, stored, hobserve⟩ | ⟨assignment, -, -, hobserve⟩
  · rw [hobserve]
    rfl
  · rw [hobserve]
    rfl

theorem retrievals_moves {setting : Setting} {requestId : String} {call : Call} {stage : Stage}
    {event : Event} {seen : List Observation} {phase : Phase}
    (hmoves : Moves setting requestId call stage event seen phase) : retrievals seen = 0 := by
  cases hmoves with
  | @polled _ reads hgoing =>
    have hpolled := polled_pollBody setting requestId call reads
    generalize call.pollBody setting requestId reads = result at hpolled ⊢
    have hobserve := retrievals_observe call.accepted reads
    cases hpolled with
    | item hok hnext =>
      rw [retrievals_append, hobserve]
      rfl
    | ended hseen hnext =>
      rcases hseen with rfl | rfl
      · rfl
      · exact hobserve
    | refused hseen hnext =>
      rcases hseen with rfl | rfl
      · rfl
      · rw [retrievals_append, hobserve]
        rfl
  | revoked | watched | stopped | rechecked => exact retrievals_observe _ _
  | _ => rfl

def Relay.holds (relay : Relay) : Bool :=
  match relay.phase with
  | .forwarding .. => true
  | _ => false

structure Gate where
  relays : List Relay
  slots : String → Nat

inductive Action where
  | arrive (peer : Option (List UInt8)) (sessionId provider : String) (input : List Item)
  | act (index : Nat) (event : Event)

/-- A relay that opens finds the slots in use, and perhaps one more that another relay holds only
until its own credential fails to come. -/
def Event.sees (inUse : Nat) : Event → Bool
  | .begin answers => inUse ≤ answers.inFlight
  | _ => true

/-- `Slot::take` and its `drop`. -/
def moveSlot (slots : String → Nat) (before after : Relay) : String → Nat :=
  match before.holds, after.holds with
  | false, true => Function.update slots before.sessionId (slots before.sessionId + 1)
  | true, false => Function.update slots before.sessionId (slots before.sessionId - 1)
  | _, _ => slots

def gateMachine (setting : Setting) : Machine Gate Action where
  start := { relays := [], slots := fun _ => 0 }
  step := fun gate action =>
    match action with
    | .arrive peer sessionId provider input =>
      some { gate with relays := gate.relays ++ [Relay.start peer sessionId provider input] }
    | .act index event =>
      match gate.relays[index]? with
      | none => none
      | some relay =>
        if event.sees (gate.slots relay.sessionId) then
          (relay.step setting event).map fun next =>
            { relays := gate.relays.set index next, slots := moveSlot gate.slots relay next }
        else none

/-- The relays of a session that hold a slot. -/
def Gate.holders (gate : Gate) (sessionId : String) : Nat :=
  gate.relays.countP fun relay => relay.holds && relay.sessionId = sessionId

structure Kept (setting : Setting) (gate : Gate) : Prop where
  disciplined : ∀ relay ∈ gate.relays, Disciplined setting relay
  slots : ∀ sessionId, gate.slots sessionId = gate.holders sessionId
  bounded : ∀ sessionId, gate.holders sessionId ≤ maxInFlight

section Gate

variable {setting : Setting} {relay next : Relay} {event : Event}

theorem sessionId_step (hstep : relay.step setting event = some next) :
    next.sessionId = relay.sessionId := by
  cases steps_of_step hstep with
  | @begin answers hphase =>
    have hbegun := begun_begin setting relay answers
    generalize relay.begin setting answers = opened at hbegun ⊢
    cases hbegun <;> rfl
  | forward | report => rfl

theorem begin_of_gain (hstep : relay.step setting event = some next)
    (hgain : (relay.holds = false ∧ next.holds = true) ∨
      retrievals relay.trace < retrievals next.trace) :
    ∃ answers, event = .begin answers ∧ answers.inFlight < maxInFlight := by
  cases steps_of_step hstep with
  | @begin answers hphase =>
    refine ⟨answers, rfl, ?_⟩
    have hbegun := begun_begin setting relay answers
    generalize relay.begin setting answers = opened at hbegun hgain
    -- Anything but a retrieval leaves neither a slot nor a credential.
    have hinFlight : ∀ {line : OpenLine} {lines : LineReader} {seen : List Observation}
        {outcome : Except RelayError Call},
        Accepts setting relay.peer relay.sessionId relay.provider line lines answers
          (seen, outcome) →
        (retrievals seen = 0 ∧ ∃ error, outcome = .error error) ∨
          answers.inFlight < maxInFlight := by
      intro line lines seen outcome haccepts
      cases haccepts with
      | unidentified | unassigned | unready => exact .inl ⟨rfl, _, rfl⟩
      | retrieved _ _ _ hslot _ => exact .inr hslot
    cases hbegun with
    | unread hnone =>
      rcases hgain with ⟨-, hholds⟩ | hmore
      · cases hholds
      · exact absurd hmore (lt_irrefl _)
    | refused hopen haccepts =>
      rcases hinFlight haccepts with ⟨hnone, -⟩ | hslot
      · rcases hgain with ⟨-, hholds⟩ | hmore
        · cases hholds
        · exact absurd hmore (not_retrieved hnone)
      · exact hslot
    | accepted hopen haccepts =>
      rcases hinFlight haccepts with ⟨-, error, herror⟩ | hslot
      · cases herror
      · exact hslot
  | forward hphase hmoves =>
    exfalso
    rcases hgain with ⟨hfree, -⟩ | hmore
    · simp [Relay.holds, hphase] at hfree
    · exact not_retrieved (retrievals_moves hmoves) hmore
  | @report error delivered hphase =>
    exfalso
    rcases hgain with ⟨-, hholds⟩ | hmore
    · cases hholds
    · exact not_retrieved (by cases delivered <;> rfl) hmore

variable {gate : Gate} {index : Nat}

theorem holders_set {slots : String → Nat} (hrelay : gate.relays[index]? = some relay)
    (hsession : next.sessionId = relay.sessionId) (sessionId : String) :
    Gate.holders { relays := gate.relays.set index next, slots := slots } sessionId =
      gate.holders sessionId - (if relay.holds && relay.sessionId = sessionId then 1 else 0) +
        (if next.holds && relay.sessionId = sessionId then 1 else 0) := by
  obtain ⟨hindex, hget⟩ := List.getElem?_eq_some_iff.mp hrelay
  unfold Gate.holders
  rw [countP_set hindex, hget, hsession]

theorem holders_pos (hrelay : gate.relays[index]? = some relay) (hholds : relay.holds = true) :
    0 < gate.holders relay.sessionId := by
  refine countP_pos_iff.mpr ⟨relay, mem_of_getElem? hrelay, ?_⟩
  simp [hholds]

theorem kept_act (hkept : Kept setting gate) (hrelay : gate.relays[index]? = some relay)
    (hsees : event.sees (gate.slots relay.sessionId) = true)
    (hstep : relay.step setting event = some next) :
    Kept setting
      { relays := gate.relays.set index next, slots := moveSlot gate.slots relay next } := by
  have hsession := sessionId_step hstep
  have hmoved : ∀ sessionId, moveSlot gate.slots relay next sessionId =
      Gate.holders { relays := gate.relays.set index next,
                     slots := moveSlot gate.slots relay next } sessionId := by
    intro sessionId
    rw [holders_set hrelay hsession]
    have hslots := hkept.slots sessionId
    by_cases hsame : relay.sessionId = sessionId
    · subst hsame
      cases hbefore : relay.holds with
      | false =>
        cases hafter : next.holds <;> simp [moveSlot, hbefore, hafter, hslots]
      | true =>
        have hpositive := holders_pos hrelay hbefore
        cases hafter : next.holds
        · simp [moveSlot, hbefore, hafter, hslots]
        · simp [moveSlot, hbefore, hafter, hslots]
          omega
    · have hother : ∀ value, Function.update gate.slots relay.sessionId value sessionId =
          gate.slots sessionId := fun value => Function.update_of_ne (Ne.symm hsame) _ _
      cases hbefore : relay.holds <;> cases hafter : next.holds <;>
        simp [moveSlot, hbefore, hafter, hsame, hother, hslots]
  refine ⟨?_, hmoved, ?_⟩
  · intro other hmem
    rcases mem_or_eq_of_mem_set hmem with hmem | rfl
    · exact hkept.disciplined other hmem
    · exact disciplined_step (hkept.disciplined relay (mem_of_getElem? hrelay)) hstep
  · intro sessionId
    have hbounded := hkept.bounded sessionId
    rw [holders_set hrelay hsession]
    by_cases hsame : relay.sessionId = sessionId
    · subst hsame
      cases hbefore : relay.holds with
      | true =>
        have hpositive := holders_pos hrelay hbefore
        cases hafter : next.holds <;> simp <;> omega
      | false =>
        cases hafter : next.holds with
        | false => simpa using hbounded
        | true =>
          obtain ⟨answers, rfl, hinFlight⟩ := begin_of_gain hstep (.inl ⟨hbefore, hafter⟩)
          have hfound : gate.slots relay.sessionId ≤ answers.inFlight := of_decide_eq_true hsees
          rw [hkept.slots] at hfound
          simp
          omega
    · simpa [hsame] using hbounded

theorem kept_step {after : Gate} {action : Action} (hkept : Kept setting gate)
    (hstep : (gateMachine setting).step gate action = some after) : Kept setting after := by
  cases action with
  | arrive peer sessionId provider input =>
    cases hstep
    have hholders : ∀ other, Gate.holders
        { gate with relays := gate.relays ++ [Relay.start peer sessionId provider input] } other =
          gate.holders other := by
      intro other
      unfold Gate.holders
      rw [countP_append]
      rfl
    refine ⟨?_, fun other => (hkept.slots other).trans (hholders other).symm, fun other => ?_⟩
    · intro relay hmem
      rcases mem_append.mp hmem with hmem | hmem
      · exact hkept.disciplined relay hmem
      · rw [mem_singleton.mp hmem]
        exact ⟨History.each_nil, (fun _ => rfl), (fun _ _ hforwarding => nomatch hforwarding),
          fun _ _ _ _ _ hforwarding => nomatch hforwarding⟩
    · rw [hholders]
      exact hkept.bounded other
  | act index event =>
    simp only [gateMachine] at hstep
    split at hstep
    · cases hstep
    next relay hrelay =>
      split at hstep
      next hsees =>
        obtain ⟨next, hnext, rfl⟩ := Option.map_eq_some_iff.mp hstep
        exact kept_act hkept hrelay hsees hnext
      · cases hstep

end Gate

/-- Over every run of a gateway, whatever its relays send and whatever the store, the vault and the
clock answer: a relay gets the credential at most once, behind phase 0 for a node that has signed
the capability, an assignment that is current, the preconditions and a free slot; each thing it is
seen to do is justified by what it did before; and where it gets the credential, fewer relays of
its session than the limit hold a slot. -/
theorem gate_access {setting : Setting} {signed : List UInt8 → List UInt8 → Prop}
    (hunforgeable : ∀ key message signature,
      setting.verifier key message signature = true → signed key message)
    {actions : List Action} {gate : Gate} (hrun : (gateMachine setting).run actions = some gate) :
    (∀ relay ∈ gate.relays, retrievals relay.trace ≤ 1 ∧
      (∀ before binding after, relay.trace = before ++ .credential binding :: after →
        ∃ line node assignment now held message,
          Proven setting relay.peer relay.sessionId relay.provider relay.input line node assignment
            now ∧
          signingBytes line.capability = some message ∧ signed node.capabilityKey message ∧
          line.provider = relay.provider ∧
          Precondition setting.table line relay.provider now assignment.leaseExpiresAtUnixMillis ∧
          held < maxInFlight ∧
          before = [.assignment now line.capability.sessionId (some assignment),
            .check binding (.ok ()), .slot held]) ∧
      History.Each (Justified setting relay.peer relay.sessionId relay.provider relay.input)
        relay.trace) ∧
    (∀ (action : Action) (next : Gate) (index : Nat) (before after : Relay),
      (gateMachine setting).step gate action = some next →
      gate.relays[index]? = some before → next.relays[index]? = some after →
      retrievals before.trace < retrievals after.trace →
      gate.holders before.sessionId < maxInFlight) ∧
    ∀ sessionId, gate.holders sessionId ≤ maxInFlight := by
  have hkept : Kept setting gate := by
    refine (gateMachine setting).run_invariant_always ⟨(fun relay hmem => nomatch hmem),
      (fun _ => rfl), fun _ => zero_le _⟩ ?_ hrun
    exact fun before action after hbefore hafter => kept_step hbefore hafter
  refine ⟨fun relay hmem => ?_, ?_, hkept.bounded⟩
  · have hdisciplined := hkept.disciplined relay hmem
    refine ⟨retrievals_le_one hdisciplined, fun before binding after hsplit => ?_,
      hdisciplined.each⟩
    obtain ⟨line, node, assignment, now, held, hproven, hprovider, hprecondition, hheld, -,
      hbefore⟩ := hdisciplined.each before _ after hsplit
    have hsigned := hproven.2.identified.signed
    unfold signedBy at hsigned
    split at hsigned
    next signature message hsignature hmessage =>
      exact ⟨line, node, assignment, now, held, message, hproven, hmessage,
        hunforgeable _ message signature hsigned, hprovider, hprecondition, hheld, hbefore⟩
    · cases hsigned
  · intro action next index before after hstep hbefore hafter hmore
    cases action with
    | arrive peer sessionId provider input =>
      cases hstep
      have hindex := (List.getElem?_eq_some_iff.mp hbefore).1
      rw [List.getElem?_append_left hindex, hbefore] at hafter
      cases hafter
      exact absurd hmore (lt_irrefl _)
    | act moved event =>
      simp only [gateMachine] at hstep
      split at hstep
      · cases hstep
      next relay hrelay =>
        split at hstep
        next hsees =>
          obtain ⟨changed, hchanged, rfl⟩ := Option.map_eq_some_iff.mp hstep
          by_cases hsame : moved = index
          · subst hsame
            cases hrelay.symm.trans hbefore
            have hindex := (List.getElem?_eq_some_iff.mp hbefore).1
            rw [List.getElem?_set_self hindex] at hafter
            cases hafter
            obtain ⟨answers, rfl, hinFlight⟩ := begin_of_gain hchanged (.inr hmore)
            have hfound : gate.slots before.sessionId ≤ answers.inFlight := of_decide_eq_true hsees
            rw [hkept.slots] at hfound
            exact lt_of_le_of_lt hfound hinFlight
          · rw [List.getElem?_set_ne hsame, hbefore] at hafter
            cases hafter
            exact absurd hmore (lt_irrefl _)
        · cases hstep

/-- A relay of an enrolled node that was accepted. -/
theorem gate_access_alice : ∃ actions gate,
    (gateMachine Alice.setting).run actions = some gate ∧ ∃ relay ∈ gate.relays,
      .credential (Binding.of aliceCapability) ∈ relay.trace ∧ retrievals relay.trace ≤ 1 ∧
      gate.holders "sess-1" ≤ maxInFlight := by
  let first : Action := .arrive (some Alice.fingerprint) "sess-1" "claude" Alice.input
  let arrived : Gate := { relays := [Alice.machine.start], slots := fun _ => 0 }
  let gate : Gate :=
    { relays := [Alice.opened], slots := moveSlot (fun _ => 0) Alice.machine.start Alice.opened }
  have hopened : (gateMachine Alice.setting).step arrived (.act 0 (.begin Alice.answers)) =
      some gate :=
    congrArg (Option.map fun next : Relay =>
      { relays := [next], slots := moveSlot (fun _ => 0) Alice.machine.start next : Gate })
      Alice.step_begin
  have hrun :
      (gateMachine Alice.setting).run [first, .act 0 (.begin Alice.answers)] = some gate := by
    have harrived : (gateMachine Alice.setting).step (gateMachine Alice.setting).start first =
        some arrived := rfl
    rw [Machine.run, Machine.runFrom, harrived, Option.bind_some, Machine.runFrom, hopened]
    rfl
  have haccess := gate_access (fun key _ _ hverified => of_decide_eq_true hverified) hrun
  exact ⟨_, gate, hrun, Alice.opened, mem_cons_self,
    by simp [Alice.opened], (haccess.1 _ mem_cons_self).1, haccess.2.2 _⟩

end JeryuForge.Gateway
