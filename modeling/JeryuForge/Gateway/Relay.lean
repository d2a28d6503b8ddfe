import JeryuForge.Gateway.Authority
import JeryuForge.Gateway.Frames
import JeryuForge.Library.Machine

/-!
# One relay request

`Gateway::relay` as a machine.  A step is what happens between two points at which the task
waits, and a step that asks the clock, the session store or the vault carries what they answer.

`pollBody` takes the next item of the request body, also when the upstream has answered already;
`returns` and `upstream` are `send()` and the response stream, `handed` and `stalled` what becomes
of the line that waits, `watch` and `closed` the other two branches of the race.
-/

namespace JeryuForge.Gateway

open List

def maxInFlight : Nat :=
  4

/-- What a `Gateway` is made with. -/
structure Setting where
  deserialize : Deserialize
  base64 : Base64Engine
  verifier : Verifier
  registry : Registry
  table : UpstreamTable

inductive Observation where
  | assignment (now : UInt64) (sessionId : String) (stored : Option Assignment)
  | check (binding : Binding) (answer : Except RelayError Unit)
  | slot (inFlight : Nat)
  | credential (binding : Binding)
  | sent (chunk : List UInt8)
  | refused (reason : RelayError)
  | received (chunk : List UInt8)
  | ended
  | line (line : GatewayLine)
deriving DecidableEq

def sentLines (trace : List Observation) : List GatewayLine :=
  trace.filterMap fun
    | .line line => some line
    | _ => none

def responseBytes (trace : List Observation) : List UInt8 :=
  trace.flatMap fun
    | .received chunk => chunk
    | _ => []

def refusedFor (trace : List Observation) : List RelayError :=
  trace.filterMap fun
    | .refused reason => some reason
    | _ => none

def Accepted.observe (accepted : Accepted) (reads : Reads) : List Observation :=
  let sessionId := accepted.capability.sessionId
  .assignment reads.now sessionId (reads.store sessionId) ::
    match current reads.store accepted.runnerId accepted.capability reads.now with
    | .error _ => []
    | .ok _ => [.check accepted.binding (reads.vault accepted.binding)]

structure Call where
  accepted : Accepted
  prepared : Prepared
  body : BodyState
  bodyOver : Bool
  seq : UInt64
deriving DecidableEq

structure OpenAnswers where
  now : UInt64
  store : Store
  vault : Vault
  inFlight : Nat
  credential : Binding → Except RelayError UpstreamAuth

section Accept

variable (setting : Setting) (peer : Option (List UInt8)) (sessionId provider : String)

/-- The checks of `Gateway::run` before it calls upstream. -/
def accept (line : OpenLine) (lines : LineReader) (answers : OpenAnswers) :
    List Observation × Except RelayError Call :=
  if line.provider ≠ provider then ([], .error .relayStreamInvalid)
  else
    let capability := line.capability
    let asked : List Observation :=
      match identify setting.verifier setting.registry peer capability sessionId provider with
      | .error _ => []
      | .ok _ =>
        [.assignment answers.now capability.sessionId (answers.store capability.sessionId)]
    match verify setting.verifier setting.registry peer capability sessionId provider answers.store
        answers.now with
    | .error error => (asked, .error error)
    | .ok (runnerId, leaseExpires) =>
      let binding := Binding.of capability
      let checked := asked ++ [.check binding (answers.vault binding)]
      match answers.vault binding with
      | .error error => (checked, .error error)
      | .ok () =>
        match preconditions setting.table line provider answers.now leaseExpires with
        | .error error => (checked, .error error)
        | .ok (method, url, upstream) =>
          if maxInFlight ≤ answers.inFlight then (checked, .error .connectionBusy)
          else
            let retrieved := checked ++ [.slot answers.inFlight, .credential binding]
            match answers.credential binding with
            | .error error => (retrieved, .error error)
            | .ok auth =>
              (retrieved, .ok
                { accepted :=
                    { runnerId := runnerId, capability := capability, binding := binding }
                  prepared :=
                    { method := method, url := url, headers := line.headers
                      fixedHeaders := upstream.fixedHeaders, auth := auth }
                  body := BodyState.new lines
                  bodyOver := false
                  seq := 0 })

end Accept

inductive Returned where
  | timeout
  | failed
  | response (status : UInt16) (contentType : Option (List UInt8))

inductive Received where
  | chunk (bytes : List UInt8)
  | ended
  | failed
  | idle

/-- `HeaderValue::to_str`: visible ASCII and tabs only. -/
def headerText (bytes : List UInt8) : Option String :=
  if bytes.all fun byte => (32 ≤ byte && byte < 127) || byte = 9 then
    some (String.ofList (bytes.map fun byte => Char.ofNat byte.toNat))
  else
    none

def responseHeaders (contentType : Option (List UInt8)) : List Header :=
  match contentType.bind headerText with
  | none => []
  | some value =>
    if value.utf8ByteSize ≤ 256 then [{ name := "content-type", value := value }] else []

namespace Call

variable (setting : Setting) (requestId : String) (call : Call)

def pollBody (reads : Reads) : List Observation × Call :=
  let (answer, next) := call.body.poll
    { deserialize := setting.deserialize
      decode := setting.base64.decode
      requestId := requestId
      recheck := fun _ => call.accepted.recheck reads }
  -- The stream counts its re-checks; a line it refuses before one is not followed by any read.
  let asked := if call.body.checks < next.checks then call.accepted.observe reads else []
  match answer with
  | .item chunk => (asked ++ [.sent chunk], { call with body := next })
  | .ended => (asked, { call with body := next, bodyOver := true })
  | .failed reason => (asked ++ [.refused reason], { call with body := next, bodyOver := true })

/-- The head line, or why there is none.  This is where a refused body is looked at. -/
def answer : Returned → Except RelayError GatewayLine
  | .timeout => .error .relayIdleTimeout
  | .failed => .error (call.body.failure.getD .upstreamHostDenied)
  | .response status contentType =>
    match call.body.failure with
    | some error => .error error
    | none =>
      if 300 ≤ status ∧ status < 400 then .error .upstreamHostDenied
      else .ok (.head requestId status (responseHeaders contentType))

end Call

/-- Where `forward` waits: for the upstream to answer, for a line to be taken with the pieces of
the chunk that are still to be sent, for the next piece or chunk, or for the last line. -/
inductive Stage where
  | sending
  | handing (line : GatewayLine) (rest : List (List UInt8))
  | serving (pieces : List (List UInt8))
  | ending
deriving DecidableEq

inductive Phase where
  | opening
  | forwarding (call : Call) (stage : Stage)
  | failed (error : RelayError)
  | past
deriving DecidableEq

inductive Event where
  | begin (answers : OpenAnswers)
  | pollBody (reads : Reads)
  | returns (outcome : Returned)
  | upstream (item : Received)
  | recheck (reads : Reads)
  | handed
  | stalled
  | closed
  | watch (reads : Option Reads)
  | report (delivered : Bool)

/-- The race of `forward`, the periodic re-check and the node hanging up. -/
def forward (setting : Setting) (requestId : String) (call : Call) :
    Stage → Event → Option (List Observation × Phase)
  | stage, .pollBody reads =>
    if call.bodyOver then none
    else
      let (seen, next) := call.pollBody setting requestId reads
      some (seen, .forwarding next stage)
  | _, .watch none => some ([], .failed .leaseBindingMismatch)
  | stage, .watch (some reads) =>
    match call.accepted.recheck reads with
    | .error error => some (call.accepted.observe reads, .failed error)
    | .ok () => some (call.accepted.observe reads, .forwarding call stage)
  | _, .closed => some ([], .failed .relayStreamInvalid)
  | .sending, .returns outcome =>
    match call.answer requestId outcome with
    | .error error => some ([], .failed error)
    | .ok line => some ([], .forwarding call (.handing line []))
  | .handing line rest, .handed => some ([.line line], .forwarding call (.serving rest))
  | .handing _ _, .stalled => some ([], .failed .relayIdleTimeout)
  | .serving [], .upstream (.chunk bytes) =>
    some ([.received bytes], .forwarding call (.serving (Records.pieces maxChunkBytes bytes)))
  | .serving [], .upstream .ended => some ([.ended], .forwarding call .ending)
  | .serving [], .upstream .failed => some ([], .failed .relayStreamInvalid)
  | .serving [], .upstream .idle => some ([], .failed .relayIdleTimeout)
  | .serving (piece :: rest), .recheck reads =>
    match call.accepted.recheck reads with
    | .error error => some (call.accepted.observe reads, .failed error)
    | .ok () =>
      let seq := call.seq + 1
      some (call.accepted.observe reads, .forwarding { call with seq := seq }
        (.handing (.responseBody requestId seq (setting.base64.encode piece)) rest))
  | .ending, .handed => some ([.line (.responseEnd requestId call.seq)], .past)
  | .ending, .stalled => some ([], .failed .relayIdleTimeout)
  | _, _ => none

structure Relay where
  peer : Option (List UInt8)
  sessionId : String
  provider : String
  input : LineReader
  requestId : String
  phase : Phase
  trace : List Observation
deriving DecidableEq

namespace Relay

def start (peer : Option (List UInt8)) (sessionId provider : String) (input : List Item) : Relay :=
  { peer := peer, sessionId := sessionId, provider := provider, input := LineReader.new input
    requestId := "", phase := .opening, trace := [] }

variable (setting : Setting) (relay : Relay)

def knownProvider (provider : String) : Bool :=
  provider = "claude" || provider = "codex" || provider = "grok"

def begin (answers : OpenAnswers) : Relay :=
  if !knownProvider relay.provider then { relay with phase := .failed .providerUnknown }
  else
    match relay.input.nextLine setting.deserialize with
    | (.error error, _) => { relay with phase := .failed error }
    | (.ok (.gatewayOpen requestId provider method path headers authorization capability), lines) =>
      let (seen, outcome) := accept setting relay.peer relay.sessionId relay.provider
        { requestId := requestId, provider := provider, method := method, path := path
          headers := headers, authorization := authorization, capability := capability }
        lines answers
      { relay with
        requestId := requestId
        trace := relay.trace ++ seen
        phase :=
          match outcome with
          | .error error => .failed error
          | .ok call => .forwarding call .sending }
    | (.ok _, _) => { relay with phase := .failed .relayStreamInvalid }

def named : String :=
  if relay.requestId = "" then "unknown" else relay.requestId

/-- `Gateway::run`, one await at a time. -/
def step (event : Event) : Option Relay :=
  match relay.phase, event with
  | .opening, .begin answers => some (relay.begin setting answers)
  | .forwarding call stage, event =>
    (forward setting relay.requestId call stage event).map fun (seen, phase) =>
      { relay with phase := phase, trace := relay.trace ++ seen }
  | .failed error, .report delivered =>
    some
      { relay with
        phase := .past
        trace := relay.trace ++ if delivered then [.line (.error relay.named error)] else [] }
  | _, _ => none

def lines : List GatewayLine :=
  sentLines relay.trace

def response : List UInt8 :=
  responseBytes relay.trace

def refusals : List RelayError :=
  refusedFor relay.trace

def isOver : Bool :=
  match relay.phase with
  | .past => true
  | _ => false

end Relay

inductive Moves (setting : Setting) (requestId : String) (call : Call) :
    Stage → Event → List Observation → Phase → Prop where
  | polled {stage : Stage} {reads : Reads} (hgoing : call.bodyOver = false) :
      Moves setting requestId call stage (.pollBody reads)
        (call.pollBody setting requestId reads).1
        (.forwarding (call.pollBody setting requestId reads).2 stage)
  | lost {stage : Stage} :
      Moves setting requestId call stage (.watch none) [] (.failed .leaseBindingMismatch)
  | revoked {stage : Stage} {reads : Reads} {error : RelayError}
      (herror : call.accepted.recheck reads = .error error) :
      Moves setting requestId call stage (.watch (some reads)) (call.accepted.observe reads)
        (.failed error)
  | watched {stage : Stage} {reads : Reads} (hok : call.accepted.recheck reads = .ok ()) :
      Moves setting requestId call stage (.watch (some reads)) (call.accepted.observe reads)
        (.forwarding call stage)
  | closed {stage : Stage} :
      Moves setting requestId call stage .closed [] (.failed .relayStreamInvalid)
  | unanswered {outcome : Returned} {error : RelayError}
      (herror : call.answer requestId outcome = .error error) :
      Moves setting requestId call .sending (.returns outcome) [] (.failed error)
  | answered {outcome : Returned} {line : GatewayLine}
      (hline : call.answer requestId outcome = .ok line) :
      Moves setting requestId call .sending (.returns outcome) []
        (.forwarding call (.handing line []))
  | handed {line : GatewayLine} {rest : List (List UInt8)} :
      Moves setting requestId call (.handing line rest) .handed [.line line]
        (.forwarding call (.serving rest))
  | stalled {line : GatewayLine} {rest : List (List UInt8)} :
      Moves setting requestId call (.handing line rest) .stalled [] (.failed .relayIdleTimeout)
  | chunk {bytes : List UInt8} :
      Moves setting requestId call (.serving []) (.upstream (.chunk bytes)) [.received bytes]
        (.forwarding call (.serving (Records.pieces maxChunkBytes bytes)))
  | ended :
      Moves setting requestId call (.serving []) (.upstream .ended) [.ended]
        (.forwarding call .ending)
  | broken :
      Moves setting requestId call (.serving []) (.upstream .failed) []
        (.failed .relayStreamInvalid)
  | idle :
      Moves setting requestId call (.serving []) (.upstream .idle) [] (.failed .relayIdleTimeout)
  | stopped {piece : List UInt8} {rest : List (List UInt8)} {reads : Reads} {error : RelayError}
      (herror : call.accepted.recheck reads = .error error) :
      Moves setting requestId call (.serving (piece :: rest)) (.recheck reads)
        (call.accepted.observe reads) (.failed error)
  | rechecked {piece : List UInt8} {rest : List (List UInt8)} {reads : Reads}
      (hok : call.accepted.recheck reads = .ok ()) :
      Moves setting requestId call (.serving (piece :: rest)) (.recheck reads)
        (call.accepted.observe reads)
        (.forwarding { call with seq := call.seq + 1 }
          (.handing (.responseBody requestId (call.seq + 1) (setting.base64.encode piece)) rest))
  | finished :
      Moves setting requestId call .ending .handed [.line (.responseEnd requestId call.seq)] .past
  | endStalled :
      Moves setting requestId call .ending .stalled [] (.failed .relayIdleTimeout)

variable {seen : List Observation}

theorem moves_of_forward {setting : Setting} {requestId : String} {call : Call} {stage : Stage}
    {event : Event} {phase : Phase}
    (hforward : forward setting requestId call stage event = some (seen, phase)) :
    Moves setting requestId call stage event seen phase := by
  unfold forward at hforward
  split at hforward
  · split at hforward
    · cases hforward
    next hgoing =>
      cases hforward
      exact .polled (by simpa using hgoing)
  · cases hforward
    exact .lost
  · split at hforward
    next herror =>
      cases hforward
      exact .revoked herror
    next hok =>
      cases hforward
      exact .watched hok
  · cases hforward
    exact .closed
  · split at hforward
    next herror =>
      cases hforward
      exact .unanswered herror
    next hline =>
      cases hforward
      exact .answered hline
  · cases hforward
    exact .handed
  · cases hforward
    exact .stalled
  · cases hforward
    exact .chunk
  · cases hforward
    exact .ended
  · cases hforward
    exact .broken
  · cases hforward
    exact .idle
  · split at hforward
    next herror =>
      cases hforward
      exact .stopped herror
    next hok =>
      cases hforward
      exact .rechecked hok
  · cases hforward
    exact .finished
  · cases hforward
    exact .endStalled
  · cases hforward

inductive Steps (setting : Setting) (relay : Relay) : Event → Relay → Prop where
  | begin {answers : OpenAnswers} (hphase : relay.phase = .opening) :
      Steps setting relay (.begin answers) (relay.begin setting answers)
  | forward {call : Call} {stage : Stage} {event : Event} {seen : List Observation} {phase : Phase}
      (hphase : relay.phase = .forwarding call stage)
      (hmoves : Moves setting relay.requestId call stage event seen phase) :
      Steps setting relay event { relay with phase := phase, trace := relay.trace ++ seen }
  | report {error : RelayError} {delivered : Bool} (hphase : relay.phase = .failed error) :
      Steps setting relay (.report delivered)
        { relay with
          phase := .past
          trace := relay.trace ++ if delivered then [.line (.error relay.named error)] else [] }

theorem steps_of_step {setting : Setting} {relay next : Relay} {event : Event}
    (hstep : relay.step setting event = some next) : Steps setting relay event next := by
  unfold Relay.step at hstep
  split at hstep
  next hphase =>
    cases hstep
    exact .begin hphase
  next call stage hphase =>
    obtain ⟨⟨seen, phase⟩, hforward, hnext⟩ := Option.map_eq_some_iff.mp hstep
    cases hnext
    exact .forward hphase (moves_of_forward hforward)
  next error delivered hphase =>
    cases hstep
    exact .report hphase
  · cases hstep

/-! ## What is seen of the parts -/

@[simp]
theorem sentLines_append (first second : List Observation) :
    sentLines (first ++ second) = sentLines first ++ sentLines second :=
  filterMap_append

@[simp]
theorem responseBytes_append (first second : List Observation) :
    responseBytes (first ++ second) = responseBytes first ++ responseBytes second :=
  flatMap_append

@[simp]
theorem refusedFor_append (first second : List Observation) :
    refusedFor (first ++ second) = refusedFor first ++ refusedFor second :=
  filterMap_append

def Observation.isRead : Observation → Bool
  | .assignment .. => true
  | .check .. => true
  | .slot _ => true
  | .credential _ => true
  | _ => false

def Reading (seen : List Observation) : Prop :=
  ∀ observation ∈ seen, observation.isRead = true

theorem Reading.sentLines (hseen : Reading seen) : sentLines seen = [] := by
  refine filterMap_eq_nil_iff.mpr fun observation hmem => ?_
  have hread := hseen observation hmem
  cases observation <;> first | rfl | cases hread

theorem Reading.responseBytes (hseen : Reading seen) : responseBytes seen = [] := by
  refine flatMap_eq_nil_iff.mpr fun observation hmem => ?_
  have hread := hseen observation hmem
  cases observation <;> first | rfl | cases hread

theorem Reading.refusedFor (hseen : Reading seen) : refusedFor seen = [] := by
  refine filterMap_eq_nil_iff.mpr fun observation hmem => ?_
  have hread := hseen observation hmem
  cases observation <;> first | rfl | cases hread

theorem reading_observe (accepted : Accepted) (reads : Reads) :
    Reading (accepted.observe reads) := by
  intro observation hmem
  unfold Accepted.observe at hmem
  split at hmem
  · rw [mem_singleton] at hmem
    subst hmem
    rfl
  · simp only [mem_cons, not_mem_nil, or_false] at hmem
    rcases hmem with rfl | rfl <;> rfl

theorem reading_nil : Reading [] :=
  nofun

section Trace

variable (relay : Relay) {seen : List Observation}

theorem Relay.lines_append (hseen : sentLines seen = []) :
    sentLines (relay.trace ++ seen) = relay.lines := by
  rw [sentLines_append, hseen, append_nil]
  rfl

theorem Relay.response_append (hseen : responseBytes seen = []) :
    responseBytes (relay.trace ++ seen) = relay.response := by
  rw [responseBytes_append, hseen, append_nil]
  rfl

theorem Relay.refusals_append (hseen : refusedFor seen = []) :
    refusedFor (relay.trace ++ seen) = relay.refusals := by
  rw [refusedFor_append, hseen, append_nil]
  rfl

end Trace

theorem answer_ok {call : Call} {requestId : String} {outcome : Returned} {line : GatewayLine}
    (hline : call.answer requestId outcome = .ok line) : call.body.failure = none ∧
      ∃ status contentType, line = .head requestId status (responseHeaders contentType) := by
  cases outcome with
  | timeout | failed => cases hline
  | response status contentType =>
    rw [Call.answer] at hline
    split at hline
    · cases hline
    next hfailure =>
      split at hline
      · cases hline
      · cases hline
        exact ⟨hfailure, status, contentType, rfl⟩

/-! ### Opening -/

def openLine (setting : Setting) (provider : String) (input : LineReader) :
    Option (OpenLine × LineReader) :=
  if !Relay.knownProvider provider then none
  else
    match input.nextLine setting.deserialize with
    | (.ok (.gatewayOpen requestId provider method path headers authorization capability), lines) =>
      some
        ({ requestId := requestId, provider := provider, method := method, path := path
           headers := headers, authorization := authorization, capability := capability }, lines)
    | _ => none

structure Verified (setting : Setting) (peer : Option (List UInt8)) (sessionId provider : String)
    (capability : Capability) (now : UInt64) (node : EnrolledNode) (assignment : Assignment) :
    Prop where
  identified : Identified setting.verifier setting.registry peer capability sessionId provider node
  assigned : Assigned assignment node.runnerId capability now

inductive Accepts (setting : Setting) (peer : Option (List UInt8)) (sessionId provider : String)
    (line : OpenLine) (lines : LineReader) (answers : OpenAnswers) :
    List Observation × Except RelayError Call → Prop where
  | unidentified {error : RelayError} :
      Accepts setting peer sessionId provider line lines answers ([], .error error)
  | unassigned {error : RelayError} {stored : Option Assignment} :
      Accepts setting peer sessionId provider line lines answers
        ([.assignment answers.now line.capability.sessionId stored], .error error)
  | unready {error : RelayError} {node : EnrolledNode} {assignment : Assignment}
      {answer : Except RelayError Unit}
      (hverified : Verified setting peer sessionId provider line.capability answers.now node
        assignment) :
      Accepts setting peer sessionId provider line lines answers
        ([.assignment answers.now line.capability.sessionId (some assignment),
          .check (Binding.of line.capability) answer], .error error)
  | retrieved {outcome : Except RelayError Call} {node : EnrolledNode} {assignment : Assignment}
      (hprovider : line.provider = provider)
      (hverified : Verified setting peer sessionId provider line.capability answers.now node
        assignment)
      (hprecondition : Precondition setting.table line provider answers.now
        assignment.leaseExpiresAtUnixMillis)
      (hslot : answers.inFlight < maxInFlight)
      (houtcome : ∀ call, outcome = .ok call →
        call.accepted = ⟨node.runnerId, line.capability, Binding.of line.capability⟩ ∧
          call.body = BodyState.new lines ∧ call.bodyOver = false ∧ call.seq = 0) :
      Accepts setting peer sessionId provider line lines answers
        ([.assignment answers.now line.capability.sessionId (some assignment),
          .check (Binding.of line.capability) (.ok ()), .slot answers.inFlight,
          .credential (Binding.of line.capability)], outcome)

theorem accepts_accept (setting : Setting) (peer : Option (List UInt8))
    (sessionId provider : String) (line : OpenLine) (lines : LineReader) (answers : OpenAnswers) :
    Accepts setting peer sessionId provider line lines answers
      (accept setting peer sessionId provider line lines answers) := by
  unfold accept
  split
  · exact .unidentified
  next hprovider =>
    rw [not_not] at hprovider
    simp only
    split
    · cases identify setting.verifier setting.registry peer line.capability sessionId provider with
      | error _ => exact .unidentified
      | ok _ => exact .unassigned
    next runnerId leaseExpires hverify =>
      obtain ⟨node, assignment, hidentify, hrunner, hstored, hassigned, hexpires⟩ :=
        verify_ok hverify
      subst hrunner hexpires
      have hverified : Verified setting peer sessionId provider line.capability answers.now node
          assignment := ⟨identify_ok hidentify, hassigned⟩
      simp only [hidentify, hstored]
      split
      · exact .unready hverified
      next hvault =>
        rw [hvault]
        split
        · exact .unready hverified
        next method url upstream hprecondition =>
          split
          · exact .unready hverified
          next hslot =>
            split
            · exact .retrieved hprovider hverified (preconditions_ok hprecondition)
                (Nat.not_le.mp hslot) nofun
            · refine .retrieved hprovider hverified (preconditions_ok hprecondition)
                (Nat.not_le.mp hslot) fun call hcall => ?_
              cases hcall
              exact ⟨rfl, rfl, rfl, rfl⟩

theorem Accepts.reading {setting : Setting} {peer : Option (List UInt8)}
    {sessionId provider : String} {line : OpenLine} {lines : LineReader} {answers : OpenAnswers}
    {result : List Observation × Except RelayError Call}
    (haccepts : Accepts setting peer sessionId provider line lines answers result) :
    Reading result.1 := by
  intro observation hmem
  cases haccepts <;>
    grind [Observation.isRead]

inductive Begun (setting : Setting) (relay : Relay) (answers : OpenAnswers) : Relay → Prop where
  | unread {error : RelayError} (hnone : openLine setting relay.provider relay.input = none) :
      Begun setting relay answers { relay with phase := .failed error }
  | refused {line : OpenLine} {lines : LineReader} {seen : List Observation} {error : RelayError}
      (hopen : openLine setting relay.provider relay.input = some (line, lines))
      (haccepts : Accepts setting relay.peer relay.sessionId relay.provider line lines answers
        (seen, .error error)) :
      Begun setting relay answers
        { relay with
          requestId := line.requestId, trace := relay.trace ++ seen, phase := .failed error }
  | accepted {line : OpenLine} {lines : LineReader} {seen : List Observation} {call : Call}
      (hopen : openLine setting relay.provider relay.input = some (line, lines))
      (haccepts : Accepts setting relay.peer relay.sessionId relay.provider line lines answers
        (seen, .ok call)) :
      Begun setting relay answers
        { relay with
          requestId := line.requestId, trace := relay.trace ++ seen
          phase := .forwarding call .sending }

theorem begun_begin (setting : Setting) (relay : Relay) (answers : OpenAnswers) :
    Begun setting relay answers (relay.begin setting answers) := by
  unfold Relay.begin
  split
  next hunknown =>
    exact .unread (by rw [openLine, if_pos hunknown])
  next hknown =>
    split
    next hline =>
      refine .unread ?_
      rw [openLine, if_neg hknown, hline]
    next requestId provider method path headers authorization capability lines hline =>
      have hopen : openLine setting relay.provider relay.input = some
          ({ requestId := requestId, provider := provider, method := method, path := path
             headers := headers, authorization := authorization, capability := capability },
            lines) := by
        rw [openLine, if_neg hknown, hline]
      have haccepts := accepts_accept setting relay.peer relay.sessionId relay.provider
        { requestId := requestId, provider := provider, method := method, path := path
          headers := headers, authorization := authorization, capability := capability }
          lines answers
      generalize accept setting relay.peer relay.sessionId relay.provider _ lines answers = result
        at haccepts ⊢
      obtain ⟨seen, outcome⟩ := result
      cases outcome with
      | error error => exact .refused hopen haccepts
      | ok call => exact .accepted hopen haccepts
    next hother hline =>
      refine .unread ?_
      rw [openLine, if_neg hknown]
      split
      next hopen =>
        obtain ⟨hok, -⟩ := Prod.mk.inj (hline.symm.trans hopen)
        exact (hother _ _ _ _ _ _ _ (Except.ok.inj hok)).elim
      · rfl

/-! ### The body -/

inductive Polled (setting : Setting) (requestId : String) (call : Call) (reads : Reads) :
    List Observation × Call → Prop where
  | item {chunk : List UInt8} {next : BodyState} (hok : call.accepted.recheck reads = .ok ())
      (hfailure : next.failure = call.body.failure) :
      Polled setting requestId call reads
        (call.accepted.observe reads ++ [.sent chunk], { call with body := next })
  | ended {seen : List Observation} {next : BodyState}
      (hseen : seen = [] ∨ seen = call.accepted.observe reads)
      (hfailure : next.failure = call.body.failure) :
      Polled setting requestId call reads (seen, { call with body := next, bodyOver := true })
  | refused {seen : List Observation} {next : BodyState} {reason : RelayError}
      (hseen : seen = [] ∨ seen = call.accepted.observe reads)
      (hfailure : next.failure = some reason) :
      Polled setting requestId call reads
        (seen ++ [.refused reason], { call with body := next, bodyOver := true })

theorem polled_pollBody (setting : Setting) (requestId : String) (call : Call) (reads : Reads) :
    Polled setting requestId call reads (call.pollBody setting requestId reads) := by
  unfold Call.pollBody
  have hcases := @BodyState.poll_cases
    { deserialize := setting.deserialize
      decode := setting.base64.decode
      requestId := requestId
      recheck := fun _ => call.accepted.recheck reads } call.body
  generalize call.body.poll _ = polled at hcases ⊢
  obtain ⟨answer, next⟩ := polled
  have hasked : ∀ asked, asked = (if call.body.checks < next.checks then
      call.accepted.observe reads else []) → asked = [] ∨ asked = call.accepted.observe reads := by
    rintro asked rfl
    split
    · exact .inr rfl
    · exact .inl rfl
  rcases hcases with ⟨chunk, hitem, hok, hchecks, hfailure⟩ | ⟨hended, hfailure⟩ |
    ⟨reason, hfailed, hfailure⟩
  · simp only at hitem hok hchecks hfailure
    subst hitem
    simp only [hchecks, if_pos (Nat.lt_succ_self _)]
    exact .item hok hfailure
  · subst hended
    exact .ended (hasked _ rfl) hfailure
  · subst hfailed
    exact .refused (hasked _ rfl) hfailure

/-- Reading the request body sends nothing to the node and takes nothing from the upstream. -/
theorem Polled.quiet {setting : Setting} {requestId : String} {call : Call} {reads : Reads}
    {result : List Observation × Call} (hpolled : Polled setting requestId call reads result) :
    sentLines result.1 = [] ∧ responseBytes result.1 = [] ∧
      result.2.accepted = call.accepted ∧ result.2.seq = call.seq := by
  have hreading := reading_observe call.accepted reads
  have hseen : ∀ {seen}, seen = [] ∨ seen = call.accepted.observe reads → Reading seen := by
    rintro seen (rfl | rfl)
    · exact reading_nil
    · exact hreading
  cases hpolled with
  | item hok hnext =>
    rw [sentLines_append, responseBytes_append, hreading.sentLines, hreading.responseBytes]
    exact ⟨rfl, rfl, rfl, rfl⟩
  | ended hasked hnext => exact ⟨(hseen hasked).sentLines, (hseen hasked).responseBytes, rfl, rfl⟩
  | refused hasked hnext =>
    rw [sentLines_append, responseBytes_append, (hseen hasked).sentLines,
      (hseen hasked).responseBytes]
    exact ⟨rfl, rfl, rfl, rfl⟩

def relayMachine (setting : Setting) (peer : Option (List UInt8)) (sessionId provider : String)
    (input : List Item) : Machine Relay Event where
  start := Relay.start peer sessionId provider input
  step := Relay.step setting

def Event.nodeReads : Event → Bool
  | .stalled => false
  | .closed => false
  | .report delivered => delivered
  | _ => true

namespace Alice

def node : EnrolledNode where
  runnerId := "runner-1"
  capabilityKey := List.replicate 32 7

def fingerprint : List UInt8 :=
  List.replicate 32 1

def assignment : Assignment where
  runnerId := "runner-1"
  sessionId := "sess-1"
  sessionGeneration := 1
  leaseId := "lease-1"
  leaseEpoch := 1
  ownerId := "user/alice"
  leaseExpiresAtUnixMillis := 60000
  bindings := [⟨"claude", "pc_1", 1, .gatewayHelper⟩]

def ascii (text : List Char) : List UInt8 :=
  text.map fun char => UInt8.ofNat char.toNat

def openText : List Char :=
  let text (value : String) : Json.Value := .string value.toList
  Json.Tree.text (.object [("type", text "gateway-open"), ("request_id", text "r-1"),
    ("provider", text "claude"), ("method", text "POST"), ("path", text "/v1/messages"),
    ("headers", .array []),
    ("capability", .object (aliceCapability.unsignedFields ++
      [("signature", text aliceCapability.signature)]))])

def bodyText : List Char :=
  let text (value : String) : Json.Value := .string value.toList
  Json.Tree.text (.object [("type", text "request-body"), ("request_id", text "r-1"),
    ("seq", .int 1), ("bytes_b64", text "aGk=")])

def deserialize : Deserialize := fun bytes =>
  if bytes = ascii openText then
    some (.gatewayOpen "r-1" "claude" "POST" "/v1/messages" [] none aliceCapability)
  else if bytes = ascii bodyText then some (.requestBody "r-1" 1 "aGk=")
  else none

def setting : Setting where
  deserialize := deserialize
  base64 := Base64Engine.standard
  verifier := fun key _ _ => key = node.capabilityKey
  registry := fun certificate => if certificate = fingerprint then some node else none
  table := enrollAll [("claude", "/v1/messages")]

def store : Store := fun sessionId => if sessionId = "sess-1" then some assignment else none

def reads : Reads where
  now := 2000
  store := store
  vault := fun _ => .ok ()

def auth : UpstreamAuth where
  header := "x-api-key"
  value := "key"

def answers : OpenAnswers where
  now := 2000
  store := store
  vault := fun _ => .ok ()
  inFlight := 0
  credential := fun _ => .ok auth

def input : List Item :=
  [openText, bodyText, bodyText].map fun line => .chunk (ascii (line ++ ['\n']))

def machine : Machine Relay Event :=
  relayMachine setting (some fingerprint) "sess-1" "claude" input

def opened : Relay :=
  let binding := Binding.of aliceCapability
  { machine.start with
    requestId := "r-1"
    phase := .forwarding
      { accepted := { runnerId := "runner-1", capability := aliceCapability, binding := binding }
        prepared :=
          { method := .post, url := "https://api.anthropic.com/v1/messages", headers := []
            fixedHeaders := [], auth := auth }
        body := BodyState.new (LineReader.new input.tail)
        bodyOver := false
        seq := 0 } .sending
    trace := [.assignment 2000 "sess-1" (some assignment), .check binding (.ok ()), .slot 0,
      .credential binding] }

theorem step_begin : machine.step machine.start (.begin answers) = some opened := by
  decide +kernel

theorem run_begin (events : List Event) :
    machine.run (.begin answers :: events) = machine.runFrom opened events := by
  rw [Machine.run, Machine.runFrom, step_begin, Option.bind_some]

end Alice

end JeryuForge.Gateway
