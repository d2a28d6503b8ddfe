import JeryuForge.Gateway.Relay

/-!
# A request body that is refused

The body stream leaves the reason in a cell, and `forward` looks into the cell only where `send()`
of the upstream call has come back.  A line that is refused later, behind an early answer of the
upstream, is never reported: the relay ends as if the request had been whole.
-/

namespace JeryuForge.Gateway

/-- The request body is read only until the upstream has answered; and between a refusal and the
return of the upstream call no timeout falls and no periodic re-check fails. -/
def Relay.prompt (relay : Relay) (event : Event) : Bool :=
  event.nodeReads &&
    match relay.phase, event with
    | .forwarding _ .sending, .pollBody _ => true
    | .forwarding _ _, .pollBody _ => false
    | .forwarding call _, .returns .timeout => call.body.failure.isNone
    | .forwarding call _, .watch none => call.body.failure.isNone
    | .forwarding call _, .watch (some reads) =>
      call.body.failure.isNone || (call.accepted.recheck reads).isOk
    | _, _ => true

inductive Heard (relay : Relay) : Prop where
  | unrefused (hrefusals : relay.refusals = [])
      (hopening : relay.phase = .opening → relay.lines = [])
      (hforwarding : ∀ call stage, relay.phase = .forwarding call stage →
        call.body.failure = none ∧ (stage = .sending → relay.lines = []))
  | pending {reason : RelayError} {call : Call} (hrefusals : relay.refusals = [reason])
      (hlines : relay.lines = []) (hphase : relay.phase = .forwarding call .sending)
      (hfailure : call.body.failure = some reason) (hover : call.bodyOver = true)
  | stopped {reason : RelayError} (hrefusals : relay.refusals = [reason])
      (hlines : relay.lines = []) (hphase : relay.phase = .failed reason)
  | told {reason : RelayError} (hrefusals : relay.refusals = [reason])
      (hlines : relay.lines = [.error relay.named reason]) (hphase : relay.phase = .past)

section Step

variable {setting : Setting} {relay : Relay} {phase : Phase} {seen : List Observation}
  {event : Event}

theorem heard_failed {next : Relay} {error : RelayError} (hrefusals : next.refusals = [])
    (hphase : next.phase = .failed error) : Heard next :=
  .unrefused hrefusals (fun hopening => nomatch hphase.symm.trans hopening)
    (fun _ _ hforwarding => nomatch hphase.symm.trans hforwarding)

theorem heard_begin {answers : OpenAnswers} (hrefusals : relay.refusals = [])
    (hlines : relay.lines = []) : Heard (relay.begin setting answers) := by
  have hbegun := begun_begin setting relay answers
  generalize relay.begin setting answers = next at hbegun ⊢
  cases hbegun with
  | unread hnone => exact heard_failed hrefusals rfl
  | refused hopen haccepts =>
    exact heard_failed ((relay.refusals_append haccepts.reading.refusedFor).trans hrefusals) rfl
  | @accepted line lines seen call hopen haccepts =>
    have hreading := haccepts.reading
    have hbody : call.body = BodyState.new lines := by
      cases haccepts with
      | retrieved _ _ _ _ houtcome => exact (houtcome call rfl).2.1
    refine .unrefused ((relay.refusals_append hreading.refusedFor).trans hrefusals)
      nofun fun other stage hphase => ?_
    cases hphase
    exact ⟨by rw [hbody]; rfl, fun _ => (relay.lines_append hreading.sentLines).trans hlines⟩

theorem heard_unrefused {call : Call} {stage : Stage}
    (hphase : relay.phase = .forwarding call stage)
    (hrefusals : relay.refusals = []) (hfailure : call.body.failure = none)
    (hlines : stage = .sending → relay.lines = []) (hprompt : relay.prompt event = true)
    (hmoves : Moves setting relay.requestId call stage event seen phase) :
    Heard { relay with phase := phase, trace := relay.trace ++ seen } := by
  -- A step after which nothing new is refused and the cell is as it was.
  have hstays : ∀ {other : Call} {later : Stage} {added : List Observation},
      refusedFor added = [] → other.body.failure = none →
      (later = .sending → stage = .sending ∧ sentLines added = []) →
      Heard { relay with phase := .forwarding other later, trace := relay.trace ++ added } := by
    intro other later added hadded hother hlater
    refine .unrefused ((relay.refusals_append hadded).trans hrefusals)
      nofun fun found place hfound => ?_
    cases hfound
    refine ⟨hother, fun hplace => ?_⟩
    obtain ⟨hsending, hsilent⟩ := hlater hplace
    exact (relay.lines_append hsilent).trans (hlines hsending)
  have hfails : ∀ {error : RelayError} {added : List Observation}, refusedFor added = [] →
      Heard { relay with phase := .failed error, trace := relay.trace ++ added } := by
    intro error added hadded
    exact heard_failed ((relay.refusals_append hadded).trans hrefusals) rfl
  cases hmoves with
  | polled hgoing =>
    have hsending : stage = .sending := by
      unfold Relay.prompt at hprompt
      rw [hphase] at hprompt
      cases stage with
      | sending => rfl
      | handing | serving | ending => simp [Event.nodeReads] at hprompt
    subst hsending
    rename_i reads
    have hpolled := polled_pollBody setting relay.requestId call reads
    generalize call.pollBody setting relay.requestId reads = result at hpolled ⊢
    have hsilent := hpolled.quiet.1
    cases hpolled with
    | item hok hnext =>
      refine hstays ?_ (hnext.trans hfailure) fun _ => ⟨rfl, hsilent⟩
      rw [refusedFor_append, (reading_observe _ _).refusedFor]
      rfl
    | ended hseen hnext =>
      refine hstays ?_ (hnext.trans hfailure) fun _ => ⟨rfl, hsilent⟩
      rcases hseen with rfl | rfl
      · rfl
      · exact (reading_observe _ _).refusedFor
    | @refused seen next reason hseen hnext =>
      have hreading : Reading seen := by
        rcases hseen with rfl | rfl
        · exact reading_nil
        · exact reading_observe _ _
      refine Heard.pending ?_ ((relay.lines_append hsilent).trans (hlines rfl)) rfl hnext rfl
      simp only [Relay.refusals] at hrefusals ⊢
      rw [refusedFor_append, refusedFor_append, hrefusals, hreading.refusedFor]
      rfl
  | lost | closed | unanswered | stalled | broken | idle | endStalled => exact hfails rfl
  | revoked | stopped => exact hfails (reading_observe _ _).refusedFor
  | watched hok =>
    exact hstays (reading_observe _ _).refusedFor hfailure fun hsending =>
      ⟨hsending, (reading_observe _ _).sentLines⟩
  | answered | handed | chunk | ended =>
    exact hstays rfl hfailure nofun
  | rechecked hok =>
    exact hstays (reading_observe _ _).refusedFor hfailure nofun
  | finished =>
    exact .unrefused ((relay.refusals_append rfl).trans hrefusals)
      (fun hopening => nomatch hopening) fun _ _ hfound => nomatch hfound

theorem heard_pending {call : Call} {reason : RelayError}
    (hphase : relay.phase = .forwarding call .sending) (hrefusals : relay.refusals = [reason])
    (hlines : relay.lines = []) (hfailure : call.body.failure = some reason)
    (hover : call.bodyOver = true) (hprompt : relay.prompt event = true)
    (hmoves : Moves setting relay.requestId call .sending event seen phase) :
    Heard { relay with phase := phase, trace := relay.trace ++ seen } := by
  unfold Relay.prompt at hprompt
  rw [hphase] at hprompt
  cases hmoves with
  | polled hgoing => cases hover.symm.trans hgoing
  | lost => simp [hfailure, Event.nodeReads] at hprompt
  | revoked herror =>
    simp [hfailure, herror, Event.nodeReads, Except.isOk, Except.toBool] at hprompt
  | watched hok =>
    exact .pending ((relay.refusals_append (reading_observe _ _).refusedFor).trans hrefusals)
      ((relay.lines_append (reading_observe _ _).sentLines).trans hlines) rfl hfailure hover
  | closed => simp [Event.nodeReads] at hprompt
  | @unanswered outcome error herror =>
    have hsame : error = reason := by
      cases outcome with
      | timeout => simp [hfailure, Event.nodeReads] at hprompt
      | failed =>
        rw [Call.answer, hfailure] at herror
        exact (Except.error.inj herror).symm
      | response status contentType =>
        rw [Call.answer, hfailure] at herror
        exact (Except.error.inj herror).symm
    subst hsame
    exact .stopped ((relay.refusals_append rfl).trans hrefusals)
      ((relay.lines_append rfl).trans hlines) rfl
  | answered hline => cases hfailure.symm.trans (answer_ok hline).1

theorem heard_step {next : Relay} (hheard : Heard relay) (hprompt : relay.prompt event = true)
    (hstep : relay.step setting event = some next) : Heard next := by
  cases steps_of_step hstep with
  | begin hphase =>
    cases hheard with
    | unrefused hrefusals hopening _ => exact heard_begin hrefusals (hopening hphase)
    | pending _ _ hother | stopped _ _ hother | told _ _ hother =>
      exact nomatch hphase.symm.trans hother
  | @forward call stage _ seen phase hphase hmoves =>
    cases hheard with
    | unrefused hrefusals _ hforwarding =>
      obtain ⟨hfailure, hlines⟩ := hforwarding call stage hphase
      exact heard_unrefused hphase hrefusals hfailure hlines hprompt hmoves
    | pending hrefusals hlines hother hfailure hover =>
      obtain ⟨rfl, rfl⟩ := Phase.forwarding.inj (hother.symm.trans hphase)
      exact heard_pending hphase hrefusals hlines hfailure hover hprompt hmoves
    | stopped _ _ hother | told _ _ hother => exact nomatch hphase.symm.trans hother
  | @report error delivered hphase =>
    have hdelivered : delivered = true := by
      unfold Relay.prompt at hprompt
      simp only [Bool.and_eq_true] at hprompt
      exact hprompt.1
    subst hdelivered
    cases hheard with
    | unrefused hrefusals _ _ =>
      exact .unrefused ((relay.refusals_append rfl).trans hrefusals)
        (fun hopening => nomatch hopening) fun _ _ hfound => nomatch hfound
    | pending _ _ hother | told _ _ hother => exact nomatch hphase.symm.trans hother
    | @stopped reason hrefusals hlines hother =>
      cases hother.symm.trans hphase
      refine Heard.told ((relay.refusals_append rfl).trans hrefusals) ?_ rfl
      simp only [Relay.lines] at hlines ⊢
      rw [sentLines_append, hlines]
      rfl

end Step

/-- A refused line ends a relay with `response-end`: the upstream answered before it had read the
request, and the body stream refuses a repeated line behind that answer. -/
theorem refused_ended : ∃ events final,
    Alice.machine.run events = some final ∧ (∀ event ∈ events, event.nodeReads = true) ∧
      final.refusals = [.relayStreamInvalid] ∧ final.isOver = true ∧
      final.lines = [.head "r-1" 200 [], .responseEnd "r-1" 0] := by
  refine ⟨[.begin Alice.answers, .pollBody Alice.reads, .returns (.response 200 none),
    .pollBody Alice.reads, .handed, .upstream .ended, .handed], ?_⟩
  have hrun : ((Alice.machine.runFrom Alice.opened [.pollBody Alice.reads,
      .returns (.response 200 none), .pollBody Alice.reads, .handed, .upstream .ended,
      .handed]).any fun final => final.refusals = [.relayStreamInvalid] && final.isOver &&
        final.lines = [.head "r-1" 200 [], .responseEnd "r-1" 0]) = true := by
    decide +kernel
  obtain ⟨final, hfinal, hfacts⟩ := (Option.any_eq_true _ _).mp hrun
  simp only [Bool.and_eq_true, decide_eq_true_eq] at hfacts
  obtain ⟨⟨hrefusals, hover⟩, hlines⟩ := hfacts
  refine ⟨final, (Alice.run_begin _).trans hfinal, ?_, hrefusals, hover, hlines⟩
  simp [Event.nodeReads]

/-- In every run in which the request body is read only until the upstream has answered, and
neither a timeout nor a failed periodic re-check comes between a refusal and the return of the
upstream call, a relay whose body was refused writes no `response-end`, and once it is over the
node was told the reason. -/
theorem refused_told {setting : Setting} {peer : Option (List UInt8)} {sessionId provider : String}
    {input : List Item} {events : List Event} {final : Relay} {reason : RelayError}
    (hprompt : (relayMachine setting peer sessionId provider input).Meets
      (fun relay event => relay.prompt event = true) events)
    (hrun : (relayMachine setting peer sessionId provider input).run events = some final)
    (hrefused : reason ∈ final.refusals) :
    (∀ requestId seqEnd, .responseEnd requestId seqEnd ∉ final.lines) ∧
      (final.isOver = true → final.lines.getLast? = some (.error final.named reason)) := by
  have hheard : Heard final := by
    refine (relayMachine setting peer sessionId provider input).run_invariant ?_ ?_ hprompt hrun
    · exact .unrefused rfl (fun _ => rfl) fun _ _ hphase => nomatch hphase
    · intro relay event next hrelay hevent hnext
      exact heard_step hrelay hevent hnext
  cases hheard with
  | unrefused hrefusals _ _ =>
    rw [hrefusals] at hrefused
    cases hrefused
  | pending _ hlines hphase | stopped _ hlines hphase =>
    rw [hlines]
    refine ⟨(fun _ _ hmem => nomatch hmem), fun hover => ?_⟩
    simp [Relay.isOver, hphase] at hover
  | told hrefusals hlines hphase =>
    rw [hrefusals, List.mem_singleton] at hrefused
    subst hrefused
    rw [hlines]
    exact ⟨(fun _ _ hmem => nomatch List.mem_singleton.mp hmem), fun _ => rfl⟩

/-- The same lines, with an upstream that fails when the body does. -/
theorem refused_told_twice : ∃ events final,
    Alice.machine.run events = some final ∧ RelayError.relayStreamInvalid ∈ final.refusals ∧
      final.isOver = true ∧
      final.lines.getLast? = some (.error final.named .relayStreamInvalid) := by
  let events : List Event :=
    [.pollBody Alice.reads, .pollBody Alice.reads, .returns .failed, .report true]
  have hmeets : Alice.machine.Meets (fun relay event => relay.prompt event = true)
      (.begin Alice.answers :: events) := by
    refine ⟨rfl, fun next hnext => ?_⟩
    obtain rfl := Option.some.inj (Alice.step_begin.symm.trans hnext)
    decide +kernel
  have hrun : ((Alice.machine.runFrom Alice.opened events).any fun final =>
      final.refusals = [.relayStreamInvalid] && final.isOver) = true := by
    decide +kernel
  obtain ⟨final, hfinal, hfacts⟩ := (Option.any_eq_true _ _).mp hrun
  simp only [Bool.and_eq_true, decide_eq_true_eq] at hfacts
  have hrefused : RelayError.relayStreamInvalid ∈ final.refusals := by simp [hfacts.1]
  have hwhole := (Alice.run_begin events).trans hfinal
  exact ⟨.begin Alice.answers :: events, final, hwhole, hrefused, hfacts.2,
    (refused_told hmeets hwhole hrefused).2 hfacts.2⟩

end JeryuForge.Gateway
