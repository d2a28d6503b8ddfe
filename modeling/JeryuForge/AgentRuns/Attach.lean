import JeryuForge.AgentRuns.Tty
import JeryuForge.Library.Machine

/-!
# An attached terminal

`AttachSession::run` as a machine beside the run it shows.  A session subscribes and takes a
snapshot of the ring in one step (`start`), sends it, and then waits for an event of the
broadcast, a message of the client, or its timer (`recv`, `client`, `tick`).  When the timer finds
the run finished, the session sends what is left in the broadcast (`tryRecv`), says `ended` and
closes.
-/

namespace JeryuForge.AgentRuns

open List Option Nat

inductive Frame (α : Type) where
  | attached (oldestRetainedSeq : Nat)
  | resync (oldestRetainedSeq : Nat)
  | tty (event : TtyEvent α)
  | other
  | ended (state : AgentRunState)
deriving DecidableEq

inductive Entry (α : Type) where
  | published (event : TtyEvent α)
  | subscribed
  | received (event : TtyEvent α)
  | frame (frame : Frame α)
deriving DecidableEq

inductive Phase (α : Type) where
  | starting
  | replaying (rest : List (Frame α))
  | live
  | handing (frame : Frame α)
  | lagging
  | telling
  | looking
  | draining (state : AgentRunState)
  | handingDrained (state : AgentRunState) (frame : Frame α)
  | ending (state : AgentRunState)
  | past
deriving DecidableEq

/-- `AttachSession`, with the run it reads. -/
structure Session (α : Type) where
  record : Record α
  afterSeq : Nat
  position : Nat
  cursor : Nat
  phase : Phase α
  log : List (Entry α)
deriving DecidableEq

/-- What an `AttachClientMessage` makes the session do. -/
inductive ClientReply where
  | closes
  | answered
  | silent
deriving DecidableEq

inductive Event (α : Type) where
  | publish (content : α)
  | complete (state : AgentRunState)
  | start
  | sent
  | recv
  | readOldest
  | client (reply : ClientReply)
  | tick (lost : Bool)
  | look
  | tryRecv

namespace Session

variable {α : Type} (session : Session α)

def new (afterSeq : Nat) : Session α :=
  { record := Record.new, afterSeq := afterSeq, position := 0, cursor := 0, phase := .starting
    log := [] }

def start : Session α :=
  let (position, replay) := session.record.ttyStreamStart session.afterSeq
  let frames := .attached replay.oldestRetainedSeq ::
    (if replay.lagged then [.resync replay.oldestRetainedSeq] else []) ++ replay.events.map .tty
  { session with
    position := position
    cursor := replay.nextAfterSeq
    phase := .replaying frames
    log := session.log ++ [.subscribed] }

def put (frame : Frame α) (phase : Phase α) : Session α :=
  { session with phase := phase, log := session.log ++ [.frame frame] }

def sent : Option (Session α) :=
  match session.phase with
  | .replaying (frame :: rest) => some (session.put frame (.replaying rest))
  | .handing frame => some (session.put frame .live)
  | .telling => some (session.put .other .looking)
  | .handingDrained state frame => some (session.put frame (.draining state))
  | .ending state => some (session.put (.ended state) .past)
  | _ => none

def take (position : Nat) (event : TtyEvent α) (hand : Frame α → Phase α) (stay : Phase α) :
    Session α :=
  let log := session.log ++ [.received event]
  if session.cursor < event.seq then
    { session with
      position := position, cursor := event.seq, phase := hand (.tty event), log := log }
  else
    { session with position := position, phase := stay, log := log }

def recv : Option (Session α) :=
  match Broadcast.receive ttyBroadcastCap session.record.sent session.position with
  | (.value event, position) => some (session.take position event .handing .live)
  | (.lagged _, position) => some { session with position := position, phase := .lagging }
  | (.empty, _) => none

def tryRecv (state : AgentRunState) : Session α :=
  match Broadcast.receive ttyBroadcastCap session.record.sent session.position with
  | (.value event, position) =>
    session.take position event (.handingDrained state) (.draining state)
  | (_, position) => { session with position := position, phase := .ending state }

def client : ClientReply → Session α
  | .closes => { session with phase := .past }
  | .answered => { session with phase := .handing .other }
  | .silent => { session with phase := .live }

/-- `AttachSession::tick`, and what the run does meanwhile. -/
def step : Event α → Option (Session α)
  | .publish content =>
    some
      { session with
        record := session.record.appendEvent content
        log := session.log ++ [.published (session.record.nextEvent content)] }
  | .complete state =>
    if state = .running then none
    else some { session with record := { session.record with state := state } }
  | .start =>
    match session.phase with
    | .starting => some session.start
    | _ => none
  | .sent => session.sent
  | .recv =>
    match session.phase with
    | .replaying [] | .live => session.recv
    | _ => none
  | .readOldest =>
    match session.phase with
    | .lagging =>
      some
        { session with phase := .handing (.resync session.record.ring.oldestRetainedSeq) }
    | _ => none
  | .client reply =>
    match session.phase with
    | .replaying [] | .live => some (session.client reply)
    | _ => none
  | .tick lost =>
    match session.phase with
    | .replaying [] | .live => some { session with phase := if lost then .telling else .looking }
    | _ => none
  | .look =>
    match session.phase with
    | .looking =>
      some
        { session with
          phase := if session.record.state = .running then .live
            else .draining session.record.state }
    | _ => none
  | .tryRecv =>
    match session.phase with
    | .draining state => some (session.tryRecv state)
    | _ => none

end Session

def attachMachine (α : Type) (afterSeq : Nat) : Machine (Session α) (Event α) where
  start := Session.new afterSeq
  step := Session.step

section Log

variable {α : Type}

def publishedOf (log : List (Entry α)) : List (TtyEvent α) :=
  log.filterMap fun
    | .published event => some event
    | _ => none

def seqsOf (frames : List (Frame α)) : List Nat :=
  frames.filterMap fun
    | .tty event => some event.seq
    | _ => none

def framesOf (log : List (Entry α)) : List (Frame α) :=
  log.filterMap fun
    | .frame frame => some frame
    | _ => none

/-- An event is lost to the reader, who has not received it: it had rolled off the ring when the
reader subscribed, or was overwritten in the broadcast since. -/
def Gone (log : List (Entry α)) (event : TtyEvent α) : Prop :=
  .received event ∉ log ∧
    ∃ before after, log = before ++ .subscribed :: after ∧
      (event.seq + ttyRingCap ≤ (publishedOf before).length ∨
        (publishedOf before).length < event.seq ∧
          event.seq + ttyBroadcastCap ≤ (publishedOf log).length)

def Announced (log : List (Entry α)) (event : TtyEvent α) : Prop :=
  ∃ before oldest after, log = before ++ .frame (.resync oldest) :: after ∧ Gone before event

def Settled (log : List (Entry α)) (event : TtyEvent α) : Prop :=
  .frame (.tty event) ∈ log ∨ Announced log event

/-- What must have happened before an entry: before `ended`, every event past the cursor was sent
or announced. -/
def Told (afterSeq : Nat) (before : List (Entry α)) : Entry α → Prop
  | .frame (.ended _) => ∀ event, .published event ∈ before → afterSeq < event.seq →
      Settled before event
  | _ => True

@[simp]
theorem publishedOf_append (first second : List (Entry α)) :
    publishedOf (first ++ second) = publishedOf first ++ publishedOf second :=
  filterMap_append

@[simp]
theorem framesOf_append (first second : List (Entry α)) :
    framesOf (first ++ second) = framesOf first ++ framesOf second :=
  filterMap_append

@[simp]
theorem seqsOf_append (first second : List (Frame α)) :
    seqsOf (first ++ second) = seqsOf first ++ seqsOf second :=
  filterMap_append

variable {event : TtyEvent α} {log : List (Entry α)}

theorem mem_publishedOf : event ∈ publishedOf log ↔ .published event ∈ log := by
  refine mem_filterMap.trans ⟨?_, fun hmem => ⟨_, hmem, rfl⟩⟩
  rintro ⟨entry, hmem, hentry⟩
  cases entry <;> cases hentry
  exact hmem

theorem mem_framesOf {frame : Frame α} : frame ∈ framesOf log ↔ .frame frame ∈ log := by
  refine mem_filterMap.trans ⟨?_, fun hmem => ⟨_, hmem, rfl⟩⟩
  rintro ⟨entry, hmem, hentry⟩
  cases entry <;> cases hentry
  exact hmem

theorem gone_append {entry : Entry α} (hentry : entry ≠ .received event) (hgone : Gone log event) :
    Gone (log ++ [entry]) event := by
  obtain ⟨hnot, before, after, rfl, hlost⟩ := hgone
  refine ⟨?_, before, after ++ [entry], by simp, ?_⟩
  · intro hmem
    rcases mem_append.mp hmem with hmem | hmem
    · exact hnot hmem
    · exact hentry (mem_singleton.mp hmem).symm
  · rcases hlost with hring | ⟨hlater, hover⟩
    · exact .inl hring
    · refine .inr ⟨hlater, le_trans hover ?_⟩
      rw [publishedOf_append _ [entry], length_append]
      exact le_add_right _ _

theorem settled_append (more : List (Entry α)) (hsettled : Settled log event) :
    Settled (log ++ more) event := by
  rcases hsettled with hsent | ⟨before, oldest, after, rfl, hgone⟩
  · exact .inl (mem_append_left _ hsent)
  · exact .inr ⟨before, oldest, after ++ more, by simp, hgone⟩

end Log

/-! ## What a session keeps to -/

section Reading

variable {α : Type}

def Phase.frames : Phase α → List (Frame α)
  | .replaying rest => rest
  | .handing frame => [frame]
  | .telling => [.other]
  | .handingDrained _ frame => [frame]
  | .ending state => [.ended state]
  | _ => []

def Due (session : Session α) (event : TtyEvent α) : Prop :=
  .tty event ∈ session.phase.frames ∨
    (session.phase = .lagging ∨ ∃ oldest, .resync oldest ∈ session.phase.frames) ∧
      Gone session.log event

def Closing (record : Record α) (position : Nat) : Phase α → Prop
  | .draining _ => record.state ≠ .running ∧ record.sent.length ≤ position + ttyBroadcastCap
  | .handingDrained _ _ =>
    record.state ≠ .running ∧ record.sent.length ≤ position + ttyBroadcastCap
  | .ending _ => record.state ≠ .running ∧ record.sent.length ≤ position
  | _ => True

structure Reading (afterSeq : Nat) (session : Session α) : Prop where
  asked : session.afterSeq = afterSeq
  published : Published session.record
  logged : publishedOf session.log = session.record.sent
  told : History.Each (Told session.afterSeq) session.log
  behind : session.position ≤ session.record.sent.length
  received : ∀ event, .received event ∈ session.log → event.seq ≤ session.position
  cursor : session.cursor ≤ max session.afterSeq session.position
  order : (seqsOf (framesOf session.log ++ session.phase.frames)).Pairwise (· < ·)
  bound : ∀ seq ∈ seqsOf (framesOf session.log ++ session.phase.frames), seq ≤ session.cursor
  closing : Closing session.record session.position session.phase
  finished : ∀ state, .ended state ∈ session.phase.frames → session.phase = .ending state
  unstarted : session.phase = .starting → session.position = 0 ∧ framesOf session.log = []
  subscribed : session.phase ≠ .starting → ∃ before after,
    session.log = before ++ .subscribed :: after ∧
      (publishedOf before).length ≤ session.position
  settled : session.phase ≠ .starting → ∀ event ∈ session.record.sent,
    session.afterSeq < event.seq → event.seq ≤ session.position →
      Settled session.log event ∨ Due session event

variable {session : Session α} {afterSeq : Nat}

theorem reading_new : Reading afterSeq (Session.new afterSeq : Session α) where
  asked := rfl
  published := published_new
  logged := rfl
  told := History.each_nil
  behind := le_refl _
  received := nofun
  cursor := zero_le _
  order := List.Pairwise.nil
  bound := nofun
  closing := trivial
  finished := nofun
  unstarted := fun _ => ⟨rfl, rfl⟩
  subscribed := fun hstarted => absurd rfl hstarted
  settled := fun hstarted => absurd rfl hstarted

structure Idle (session : Session α) : Prop where
  started : session.phase ≠ .starting
  frames : session.phase.frames = []
  reading : session.phase ≠ .lagging

theorem Idle.not_due (hidle : Idle session) {event : TtyEvent α} : ¬Due session event := by
  unfold Due
  rw [hidle.frames]
  rintro (htty | ⟨hlag | ⟨oldest, hresync⟩, -⟩)
  · cases htty
  · exact hidle.reading hlag
  · cases hresync

theorem settled_of_idle (hreading : Reading afterSeq session) (hidle : Idle session)
    {event : TtyEvent α} (hmem : event ∈ session.record.sent)
    (hafter : session.afterSeq < event.seq)
    (hposition : event.seq ≤ session.position) : Settled session.log event :=
  (hreading.settled hidle.started event hmem hafter hposition).resolve_right hidle.not_due

/-- Where the subscription stands in the log, one entry or some events later. -/
theorem subscribed_append {log : List (Entry α)} {position later : Nat} (more : List (Entry α))
    (hsubscribed : ∃ before after, log = before ++ .subscribed :: after ∧
      (publishedOf before).length ≤ position) (hlater : position ≤ later) :
    ∃ before after, log ++ more = before ++ .subscribed :: after ∧
      (publishedOf before).length ≤ later := by
  obtain ⟨before, after, rfl, hcount⟩ := hsubscribed
  exact ⟨before, after ++ more, by simp, le_trans hcount hlater⟩

theorem received_append {log : List (Entry α)} {entry : Entry α} {position : Nat}
    (hreceived : ∀ event, .received event ∈ log → event.seq ≤ position)
    (hentry : ∀ event, entry = .received event → event.seq ≤ position) :
    ∀ event, .received event ∈ log ++ [entry] → event.seq ≤ position := by
  intro event hmem
  rcases mem_append.mp hmem with hmem | hmem
  · exact hreceived event hmem
  · exact hentry event (mem_singleton.mp hmem).symm

theorem reading_publish (hreading : Reading afterSeq session)
    (hrunning : session.record.state = .running) (content : α) :
    Reading afterSeq
      { session with
        record := session.record.appendEvent content
        log := session.log ++ [.published (session.record.nextEvent content)] } := by
  have hsent : (session.record.appendEvent content).sent =
      session.record.sent ++ [session.record.nextEvent content] := rfl
  have hframes : framesOf (session.log ++ [.published (session.record.nextEvent content)]) =
      framesOf session.log := by
    rw [framesOf_append]
    exact append_nil _
  refine
    { hreading with
      published := ⟨keeps_push hreading.published.toKeeps rfl, hreading.published.cap⟩
      logged := by rw [publishedOf_append, hreading.logged]; rfl
      told := hreading.told.concat trivial
      behind := ?_
      received := received_append hreading.received nofun
      order := by rw [hframes]; exact hreading.order
      bound := by rw [hframes]; exact hreading.bound
      closing := ?_
      unstarted := fun hstarting => by rw [hframes]; exact hreading.unstarted hstarting
      subscribed := fun hstarted =>
        subscribed_append _ (hreading.subscribed hstarted) (le_refl _)
      settled := ?_ }
  · rw [hsent, length_append]
    exact le_trans hreading.behind (le_add_right _ _)
  · -- a finished run publishes nothing, so the session is not closing
    have hclosing := hreading.closing
    show Closing _ session.position session.phase
    cases hphase : session.phase with
    | draining state | handingDrained state frame | ending state =>
      rw [hphase] at hclosing
      exact absurd hrunning hclosing.1
    | _ => trivial
  · intro hstarted event hmem hafter hposition
    rw [hsent, mem_append] at hmem
    rcases hmem with hmem | hmem
    · rcases hreading.settled hstarted event hmem hafter hposition with hsettled | hdue
      · exact .inl (settled_append _ hsettled)
      · refine .inr (hdue.imp_right fun hresync => ⟨hresync.1, ?_⟩)
        exact gone_append nofun hresync.2
    · have hseq : event.seq = session.record.sent.length + 1 := by
        rw [mem_singleton.mp hmem]
        rfl
      have hbehind := hreading.behind
      have hread : event.seq ≤ session.position := hposition
      omega

theorem reading_complete (hreading : Reading afterSeq session) {state : AgentRunState}
    (hstate : state ≠ .running) :
    Reading afterSeq { session with record := { session.record with state := state } } := by
  refine { hreading with
    published := ⟨hreading.published.toKeeps, hreading.published.cap⟩, closing := ?_ }
  have hclosing := hreading.closing
  show Closing _ session.position session.phase
  cases hphase : session.phase with
  | draining drained | handingDrained drained frame | ending drained =>
    rw [hphase] at hclosing
    exact ⟨hstate, hclosing.2⟩
  | _ => trivial

variable {phase : Phase α} {next : Session α}

section Reading

variable (hreading : Reading afterSeq session)
include hreading

theorem reading_phase (hstarted : session.phase ≠ .starting)
    (hphase : phase ≠ .starting) (hseqs : seqsOf phase.frames = seqsOf session.phase.frames)
    (hdue : ∀ event, Due session event → Due { session with phase := phase } event)
    (hclosing : Closing session.record session.position phase)
    (hfinished : ∀ state, .ended state ∈ phase.frames → phase = .ending state) :
    Reading afterSeq { session with phase := phase } where
  __ := hreading
  order := by rw [seqsOf_append, hseqs, ← seqsOf_append]; exact hreading.order
  bound := by rw [seqsOf_append, hseqs, ← seqsOf_append]; exact hreading.bound
  closing := hclosing
  finished := hfinished
  unstarted := fun hstarting => absurd hstarting hphase
  subscribed := fun _ => hreading.subscribed hstarted
  settled := fun _ event hmem hafter hposition =>
    (hreading.settled hstarted event hmem hafter hposition).imp_right (hdue event)

theorem reading_put {frame : Frame α} (hphase : phase ≠ .starting)
    (hframes : session.phase.frames = frame :: phase.frames)
    (hclosing : Closing session.record session.position phase)
    (hfinished : ∀ state, .ended state ∈ phase.frames → phase = .ending state) :
    Reading afterSeq (session.put frame phase) := by
  have hwaits : ∀ other : Phase α, other.frames = [] → session.phase ≠ other := by
    rintro other hother rfl
    cases hother.symm.trans hframes
  have hstarted := hwaits .starting rfl
  have hall : framesOf (session.log ++ [.frame frame]) ++ phase.frames =
      framesOf session.log ++ session.phase.frames := by
    rw [framesOf_append, hframes, append_assoc]
    rfl
  refine
    { hreading with
      logged := (publishedOf_append _ _).trans ((append_nil _).trans hreading.logged)
      told := hreading.told.concat ?_
      received := received_append hreading.received nofun
      order := by simp only [Session.put]; rw [hall]; exact hreading.order
      bound := by simp only [Session.put]; rw [hall]; exact hreading.bound
      closing := hclosing
      finished := hfinished
      unstarted := fun hstarting => absurd hstarting hphase
      subscribed := fun _ => subscribed_append _ (hreading.subscribed hstarted) (le_refl _)
      settled := ?_ }
  · cases frame with
    | ended state =>
      -- the last frame: everything was read, and nothing else waits
      have hending := hreading.finished state (by rw [hframes]; exact mem_cons_self)
      have hread := hreading.closing
      rw [hending] at hread
      intro event hmem hafter
      have hsent : event ∈ session.record.sent := by
        rw [← hreading.logged]
        exact mem_publishedOf.mpr hmem
      have hposition := le_trans (seq_of_mem hreading.published hsent).2 hread.2
      rcases hreading.settled hstarted event hsent hafter hposition with hsettled | hdue
      · exact hsettled
      · unfold Due at hdue
        simp [hending, Phase.frames] at hdue
    | _ => trivial
  · intro _ event hmem hafter hposition
    rcases hreading.settled hstarted event hmem hafter hposition with hsettled | hdue
    · exact .inl (settled_append _ hsettled)
    · unfold Due at hdue
      rw [hframes] at hdue
      rcases hdue with htty | ⟨hlag | ⟨oldest, hresync⟩, hgone⟩
      · rcases mem_cons.mp htty with rfl | htty
        · exact .inl (.inl (mem_append_right _ mem_cons_self))
        · exact .inr (.inl htty)
      · exact absurd hlag (hwaits .lagging rfl)
      · rcases mem_cons.mp hresync with rfl | hresync
        · exact .inl (.inr ⟨session.log, oldest, [], rfl, hgone⟩)
        · exact .inr (.inr ⟨.inr ⟨oldest, hresync⟩, gone_append nofun hgone⟩)

theorem reading_take (hidle : Idle session) {event : TtyEvent α} {hand : Frame α → Phase α}
    {stay : Phase α} (hevent : session.record.sent[session.position]? = some event)
    (hhand : (hand (.tty event)).frames = [.tty event]) (hstay : stay.frames = [])
    (hnew : hand (.tty event) ≠ .starting ∧ stay ≠ .starting)
    (hclosing : Closing session.record (session.position + 1) (hand (.tty event)) ∧
      Closing session.record (session.position + 1) stay) :
    Reading afterSeq (session.take (session.position + 1) event hand stay) := by
  have hseq := seq_of_getElem? hreading.published hevent
  have hcursor := hreading.cursor
  have hframes : framesOf (session.log ++ [.received event]) = framesOf session.log := by
    rw [framesOf_append]
    exact append_nil _
  have horder := hreading.order
  have hbound := hreading.bound
  rw [hidle.frames, append_nil] at horder hbound
  -- events before this one are settled already; only this one may wait
  have hearlier : ∀ other ∈ session.record.sent, session.afterSeq < other.seq →
      other.seq ≤ session.position + 1 →
        Settled (session.log ++ [.received event]) other ∨ other = event := by
    intro other hmem hafter hposition
    by_cases hlast : other.seq ≤ session.position
    · exact .inl (settled_append _ (settled_of_idle hreading hidle hmem hafter hlast))
    · right
      obtain ⟨index, hindex⟩ := mem_iff_getElem?.mp hmem
      have hother := seq_of_getElem? hreading.published hindex
      have hsame : index = session.position := by omega
      rw [hsame] at hindex
      exact some.inj (hindex.symm.trans hevent)
  -- what the two outcomes have in common
  have htaken : ∀ (cursor : Nat) (phase : Phase α), phase ≠ .starting →
      cursor ≤ max session.afterSeq (session.position + 1) →
      (seqsOf (framesOf session.log ++ phase.frames)).Pairwise (· < ·) →
      (∀ seq ∈ seqsOf (framesOf session.log ++ phase.frames), seq ≤ cursor) →
      Closing session.record (session.position + 1) phase →
      (∀ state, .ended state ∈ phase.frames → phase = .ending state) →
      (session.afterSeq < event.seq → .tty event ∈ phase.frames) →
      Reading afterSeq { session with
        position := session.position + 1, cursor := cursor, phase := phase
        log := session.log ++ [.received event] } := by
    intro cursor phase hphase hcursor horder hbound hclosing hfinished hdue
    exact {
      asked := hreading.asked
      published := hreading.published
      logged := (publishedOf_append _ _).trans ((append_nil _).trans hreading.logged)
      told := hreading.told.concat trivial
      behind := (List.getElem?_eq_some_iff.mp hevent).1
      received := received_append
        (fun other hmem => le_succ_of_le (hreading.received other hmem))
        (fun _ h => by cases h; exact le_of_eq hseq)
      cursor := hcursor
      order := by rw [hframes]; exact horder
      bound := by rw [hframes]; exact hbound
      closing := hclosing
      finished := hfinished
      unstarted := fun hstarting => absurd hstarting hphase
      subscribed := fun _ => subscribed_append _ (hreading.subscribed hidle.started) (le_succ _)
      settled := fun _ other hmem hafter hposition =>
        (hearlier other hmem hafter hposition).imp_right fun h => by
          subst h
          exact .inl (hdue hafter) }
  unfold Session.take
  by_cases hpast : session.cursor < event.seq
  · rw [if_pos hpast]
    refine htaken _ _ hnew.1 ?_ ?_ ?_ hclosing.1 ?_ fun _ => by rw [hhand]; exact mem_cons_self
    · exact le_trans (le_of_eq hseq) (le_max_right _ _)
    · rw [hhand, seqsOf_append, pairwise_append]
      refine ⟨horder, pairwise_singleton _ _, ?_⟩
      intro seq hmem other hother
      rw [mem_singleton.mp hother]
      exact lt_of_le_of_lt (hbound seq hmem) hpast
    · rw [hhand, seqsOf_append]
      intro seq hmem
      rcases mem_append.mp hmem with hmem | hmem
      · exact le_trans (hbound seq hmem) (le_of_lt hpast)
      · rw [mem_singleton.mp hmem]
    · intro state hmem
      rw [hhand] at hmem
      cases mem_singleton.mp hmem
  · rw [if_neg hpast]
    refine htaken _ _ hnew.2 ?_ ?_ ?_ hclosing.2 ?_ ?_
    · exact le_trans hcursor (max_le_max (le_refl _) (le_succ _))
    · rw [hstay, append_nil]
      exact horder
    · rw [hstay, append_nil]
      exact hbound
    · intro state hmem
      rw [hstay] at hmem
      cases hmem
    · -- past the position but not past the cursor: the client did not ask for it
      intro hcut
      rcases le_max_iff.mp (le_trans (not_lt.mp hpast) hcursor) with hle | hle <;> omega

theorem reading_lag (hidle : Idle session) {next : Nat} (hbehind : session.position ≤ next)
    (hnext : next + ttyBroadcastCap = session.record.sent.length) :
    Reading afterSeq { session with position := next, phase := .lagging } := by
  have horder := hreading.order
  have hbound := hreading.bound
  rw [hidle.frames] at horder hbound
  obtain ⟨before, after, hlog, hcount⟩ := hreading.subscribed hidle.started
  refine
    { hreading with
      behind := le_trans (le_add_right _ _) (le_of_eq hnext)
      received := fun event hmem => le_trans (hreading.received event hmem) hbehind
      cursor := le_trans hreading.cursor (max_le_max (le_refl _) hbehind)
      order := horder
      bound := hbound
      closing := trivial
      finished := nofun
      unstarted := nofun
      subscribed := fun _ => ⟨before, after, hlog, le_trans hcount hbehind⟩
      settled := ?_ }
  intro _ event hmem hafter hposition
  by_cases hread : event.seq ≤ session.position
  · exact .inl (settled_of_idle hreading hidle hmem hafter hread)
  · refine .inr (.inr ⟨.inl rfl, fun hgot => hread (hreading.received event hgot), ?_⟩)
    have hskipped : event.seq ≤ next := hposition
    refine ⟨before, after, hlog, .inr ⟨by omega, ?_⟩⟩
    rw [hreading.logged]
    omega

theorem reading_start (hstarting : session.phase = .starting) : Reading afterSeq session.start := by
  obtain ⟨hposition, hnone⟩ := hreading.unstarted hstarting
  obtain ⟨hsorted, hlast, hnext⟩ := replay_sorted hreading.published session.afterSeq
  have hframes : framesOf session.start.log = [] := by
    simp only [Session.start]
    rw [framesOf_append, hnone]
    rfl
  have hreceived : ∀ event, .received event ∈ session.log ++ [.subscribed] → event.seq ≤ 0 :=
    received_append (fun event hmem => hposition ▸ hreading.received event hmem)
      nofun
  have hseqs : seqsOf session.start.phase.frames =
      (session.record.ttyStreamStart session.afterSeq).2.events.map TtyEvent.seq := by
    simp only [Session.start, Phase.frames, seqsOf]
    cases (session.record.ttyStreamStart session.afterSeq).2.lagged <;> simp [filterMap_map]
  refine
    { asked := hreading.asked
      published := hreading.published
      logged := (publishedOf_append _ _).trans ((append_nil _).trans hreading.logged)
      told := hreading.told.concat trivial
      behind := le_refl _
      received := fun event hmem => le_trans (hreceived event hmem) (zero_le _)
      cursor := hnext
      order := by rw [hframes, nil_append, hseqs]; exact hsorted
      bound := ?_
      closing := trivial
      finished := ?_
      unstarted := nofun
      subscribed := fun _ => ⟨session.log, [], rfl, le_of_eq (by rw [hreading.logged]; rfl)⟩
      settled := ?_ }
  · rw [hframes, nil_append, hseqs]
    intro seq hmem
    obtain ⟨event, hevent, rfl⟩ := mem_map.mp hmem
    exact hlast event hevent
  · intro state hmem
    simp only [Session.start, Phase.frames] at hmem
    cases hlag : (session.record.ttyStreamStart session.afterSeq).2.lagged <;> simp [hlag] at hmem
  · intro _ event hmem hafter _
    right
    by_cases hkept : session.record.sent.length < event.seq + ttyRingCap
    · left
      have hreplayed := (mem_replay hreading.published session.afterSeq event).mpr
        ⟨hmem, hafter, hkept⟩
      exact mem_cons_of_mem _ (mem_append_right _ (mem_map_of_mem hreplayed))
    · right
      have hcut : session.afterSeq < event.seq := hafter
      have hlag := (lagged_iff hreading.published session.afterSeq).mpr (by omega)
      refine ⟨.inr ⟨session.record.ring.oldestRetainedSeq,
        mem_cons_of_mem _ (mem_append_left _ ?_)⟩, ?_, session.log, [], rfl, .inl ?_⟩
      · have hring : session.record.ring.lagged session.afterSeq = true := hlag
        simp [hring]
      · intro hgot
        have hzero := hreceived event hgot
        omega
      · rw [hreading.logged]
        omega

end Reading

def Waiting (session : Session α) : Prop :=
  session.phase = .replaying [] ∨ session.phase = .live

theorem Waiting.idle (hwaiting : Waiting session) : Idle session := by
  rcases hwaiting with hphase | hphase <;> constructor <;> simp [hphase, Phase.frames]

variable (hreading : Reading afterSeq session)
include hreading

theorem reading_leave (hidle : Idle session) (hphase : phase ≠ .starting)
    (hseqs : seqsOf phase.frames = []) (hclosing : Closing session.record session.position phase)
    (hfinished : ∀ state, .ended state ∈ phase.frames → phase = .ending state) :
    Reading afterSeq { session with phase := phase } :=
  reading_phase hreading hidle.started hphase (by rw [hseqs, hidle.frames]; rfl)
    (fun _ hdue => absurd hdue hidle.not_due) hclosing hfinished

theorem reading_recv (hwaiting : Waiting session) (hrecv : session.recv = some next) :
    Reading afterSeq next := by
  unfold Session.recv at hrecv
  split at hrecv
  next event position hreceive =>
    cases hrecv
    obtain ⟨hevent, rfl⟩ := Broadcast.receive_value hreceive
    exact reading_take hreading hwaiting.idle hevent rfl rfl ⟨nofun, nofun⟩ ⟨trivial, trivial⟩
  next missed position hreceive =>
    cases hrecv
    obtain ⟨hover, hposition⟩ := Broadcast.receive_lagged hreceive
    exact reading_lag hreading hwaiting.idle (by omega) (by omega)
  · cases hrecv

theorem reading_tryRecv {state : AgentRunState} (hphase : session.phase = .draining state) :
    Reading afterSeq (session.tryRecv state) := by
  have hidle : Idle session := by
    constructor <;> simp [hphase, Phase.frames]
  have hclosing := hreading.closing
  rw [hphase] at hclosing
  obtain ⟨hdone, hnear⟩ := hclosing
  unfold Session.tryRecv
  split
  next event position hreceive =>
    obtain ⟨hevent, rfl⟩ := Broadcast.receive_value hreceive
    have hstill : session.record.sent.length ≤ session.position + 1 + ttyBroadcastCap := by omega
    exact reading_take hreading hidle hevent rfl rfl
      ⟨nofun, nofun⟩ ⟨⟨hdone, hstill⟩, ⟨hdone, hstill⟩⟩
  next answer position hanswer hreceive =>
    cases answer with
    | value event => exact absurd rfl (hanswer event)
    | lagged missed =>
      obtain ⟨hover, -⟩ := Broadcast.receive_lagged hreceive
      omega
    | empty =>
      obtain ⟨hread, rfl⟩ := Broadcast.receive_empty hreceive
      refine reading_leave hreading hidle nofun rfl ⟨hdone, hread⟩ ?_
      intro other hmem
      cases mem_singleton.mp hmem
      rfl

theorem reading_sent (hsent : session.sent = some next) : Reading afterSeq next := by
  have hclosing := hreading.closing
  have hfinished := hreading.finished
  unfold Session.sent at hsent
  split at hsent
  case h_1 frame rest hphase =>
    cases hsent
    refine reading_put hreading nofun (by rw [hphase]; rfl) trivial ?_
    intro state hmem
    have hending := hfinished state (by rw [hphase]; exact mem_cons_of_mem _ hmem)
    exact nomatch hphase.symm.trans hending
  case h_4 state frame hphase =>
    cases hsent
    rw [hphase] at hclosing
    exact reading_put hreading nofun (by rw [hphase]; rfl) hclosing nofun
  case h_6 => cases hsent
  all_goals
    rename_i hphase
    cases hsent
    exact reading_put hreading nofun (by rw [hphase]; rfl) trivial nofun

/-- A finished run publishes nothing more, and when the timer finds it finished, the reader has not
fallen behind the broadcast. -/
def InTime (session : Session α) : Event α → Prop
  | .publish _ => session.record.state = .running
  | .look => session.record.state = .running ∨
      session.record.sent.length ≤ session.position + ttyBroadcastCap
  | _ => True

instance (session : Session α) (event : Event α) : Decidable (InTime session event) :=
  match event with
  | .publish _ => inferInstanceAs (Decidable (_ = _))
  | .look => inferInstanceAs (Decidable (_ ∨ _))
  | .complete _ | .start | .sent | .recv | .readOldest | .client _ | .tick _ | .tryRecv =>
    isTrue trivial

theorem reading_look (hphase : session.phase = .looking)
    (hintime : InTime session (.look : Event α)) :
    Reading afterSeq { session with
      phase := if session.record.state = .running then .live
        else .draining session.record.state } := by
  have hidle : Idle session := by
    constructor <;> simp [hphase, Phase.frames]
  by_cases hrunning : session.record.state = .running
  · rw [if_pos hrunning]
    exact reading_leave hreading hidle nofun rfl trivial nofun
  · rw [if_neg hrunning]
    exact reading_leave hreading hidle nofun rfl ⟨hrunning, hintime.resolve_left hrunning⟩ nofun

theorem reading_step {event : Event α} (hintime : InTime session event)
    (hstep : session.step event = some next) : Reading afterSeq next := by
  cases event with
  | publish content =>
    cases hstep
    exact reading_publish hreading hintime content
  | complete state =>
    simp only [Session.step] at hstep
    split at hstep
    · cases hstep
    next hstate =>
      cases hstep
      exact reading_complete hreading hstate
  | start =>
    simp only [Session.step] at hstep
    split at hstep
    next hphase =>
      cases hstep
      exact reading_start hreading hphase
    · cases hstep
  | sent => exact reading_sent hreading hstep
  | recv =>
    simp only [Session.step] at hstep
    split at hstep
    · exact reading_recv hreading (.inl ‹_›) hstep
    · exact reading_recv hreading (.inr ‹_›) hstep
    · cases hstep
  | readOldest =>
    simp only [Session.step] at hstep
    split at hstep
    next hphase =>
      cases hstep
      refine reading_phase hreading (fun h => nomatch hphase.symm.trans h) nofun
        (by rw [hphase]; rfl) ?_ trivial ?_
      · intro event hdue
        unfold Due at hdue
        rw [hphase] at hdue
        rcases hdue with htty | ⟨-, hgone⟩
        · cases htty
        · exact .inr ⟨.inr ⟨_, mem_cons_self⟩, hgone⟩
      · simp [Phase.frames]
    · cases hstep
  | client reply =>
    simp only [Session.step] at hstep
    split at hstep <;> cases hstep <;> cases reply <;>
      exact reading_leave hreading (Waiting.idle (by simp [Waiting, *])) nofun rfl trivial
        (by simp [Phase.frames])
  | tick lost =>
    simp only [Session.step] at hstep
    split at hstep <;> cases hstep <;> cases lost <;>
      exact reading_leave hreading (Waiting.idle (by simp [Waiting, *])) nofun rfl trivial
        (by simp [Phase.frames])
  | look =>
    simp only [Session.step] at hstep
    split at hstep
    next hphase =>
      cases hstep
      exact reading_look hreading hphase hintime
    · cases hstep
  | tryRecv =>
    simp only [Session.step] at hstep
    split at hstep
    next state hphase =>
      cases hstep
      exact reading_tryRecv hreading hphase
    · cases hstep

omit hreading

/-- In every run in time, the terminal frames are in order, and before the session ends every event
past the cursor was sent, or announced as lost once it was. -/
theorem attach_complete {actions : List (Event α)} {final : Session α}
    (hintime : (attachMachine α afterSeq).Meets InTime actions)
    (hrun : (attachMachine α afterSeq).run actions = some final) :
    (seqsOf (framesOf final.log)).Pairwise (· < ·) ∧ History.Each (Told afterSeq) final.log := by
  have hfinal : Reading afterSeq final :=
    (attachMachine α afterSeq).run_invariant reading_new
      (fun _ _ _ hreading htime hnext => reading_step hreading htime hnext) hintime hrun
  refine ⟨?_, hfinal.asked ▸ hfinal.told⟩
  have horder := hfinal.order
  rw [seqsOf_append, pairwise_append] at horder
  exact horder.1

/-- One line of output, read, sent and followed by the end of the run. -/
theorem attach_complete_line :
    ∃ actions final, (attachMachine Unit 0).Meets InTime actions ∧
      (attachMachine Unit 0).run actions = some final ∧
      framesOf final.log = [.attached 0, .tty ⟨1, ()⟩, .ended .succeeded] ∧
      History.Each (Told 0) final.log := by
  let actions : List (Event Unit) := [.start, .sent, .publish (), .recv, .sent,
    .complete .succeeded, .tick false, .look, .tryRecv, .sent]
  have hintime : (attachMachine Unit 0).Meets InTime actions := by decide +kernel
  have hrun : (((attachMachine Unit 0).run actions).any fun final =>
      framesOf final.log = [.attached 0, .tty ⟨1, ()⟩, .ended .succeeded]) = true := by
    decide +kernel
  obtain ⟨final, hfinal, hframes⟩ := (any_eq_true _ _).mp hrun
  exact ⟨actions, final, hintime, hfinal, of_decide_eq_true hframes,
    (attach_complete hintime hfinal).2⟩

theorem run_publish (afterSeq : Nat) (content : α) (count : Nat) (session : Session α) :
    ∃ later more,
      (attachMachine α afterSeq).runFrom session (List.replicate count (.publish content)) =
        some later ∧
      later.phase = session.phase ∧ later.position = session.position ∧
      later.record.sent.length = session.record.sent.length + count ∧
      later.log = session.log ++ more ∧ framesOf more = [] := by
  induction count generalizing session with
  | zero => exact ⟨session, [], rfl, rfl, rfl, rfl, (append_nil _).symm, rfl⟩
  | succ count ih =>
    obtain ⟨later, more, hrun, hphase, hposition, hlength, hlog, hframes⟩ := ih
      { session with
        record := session.record.appendEvent content
        log := session.log ++ [.published (session.record.nextEvent content)] }
    refine ⟨later, .published (session.record.nextEvent content) :: more, hrun, hphase, hposition,
      ?_, ?_, hframes⟩
    · rw [hlength]
      simp only [Record.appendEvent, length_append, length_singleton]
      omega
    · rw [hlog, append_assoc]
      rfl

theorem run_ended_behind (afterSeq : Nat) {session : Session α} (hwaiting : Waiting session)
    (hover : session.position + ttyBroadcastCap < session.record.sent.length) :
    ∃ final,
      (attachMachine α afterSeq).runFrom session
        [.complete .succeeded, .tick false, .look, .tryRecv, .sent] = some final ∧
      final.log = session.log ++ [.frame (.ended .succeeded)] := by
  rcases hwaiting with hphase | hphase <;>
    simp [Machine.runFrom, attachMachine, Session.step, hphase, Session.tryRecv, Broadcast.receive,
      hover, Session.sent, Session.put]

/-- The run publishes one event more than the broadcast holds and finishes before the reader gets
to them: the reader is told that the run has ended, and nothing else. -/
theorem attach_ended_behind :
    ∃ actions final, (attachMachine Unit 0).run actions = some final ∧
      framesOf final.log = [.attached 0, .ended .succeeded] ∧
      ¬ History.Each (Told 0) final.log := by
  let opening : List (Event Unit) := [.start, .sent, .publish ()]
  have hopening : (((attachMachine Unit 0).run opening).any fun session =>
      session.phase = .replaying [] && session.position = 0 && session.record.sent.length = 1 &&
        framesOf session.log = [.attached 0] && .published ⟨1, ()⟩ ∈ session.log) = true := by
    decide +kernel
  obtain ⟨session, hopen, hfacts⟩ := (any_eq_true _ _).mp hopening
  simp only [Bool.and_eq_true, decide_eq_true_eq] at hfacts
  obtain ⟨⟨⟨⟨hphase, hposition⟩, hlength⟩, hframes⟩, hfirst⟩ := hfacts
  obtain ⟨later, more, hpublish, hstill, hplace, hcount, hlog, hquiet⟩ :=
    run_publish 0 () ttyBroadcastCap session
  obtain ⟨final, hend, hended⟩ := run_ended_behind 0 (.inl (hstill.trans hphase))
    (show later.position + ttyBroadcastCap < later.record.sent.length by omega)
  have hattached : framesOf later.log = [.attached 0] := by
    rw [hlog, framesOf_append, hframes, hquiet]
    rfl
  refine ⟨opening ++ (replicate ttyBroadcastCap (.publish ()) ++
    [.complete .succeeded, .tick false, .look, .tryRecv, .sent]), final, ?_, ?_, ?_⟩
  · have hopened : (attachMachine Unit 0).runFrom (attachMachine Unit 0).start opening =
        some session := hopen
    rw [Machine.run, Machine.runFrom_append, hopened, bind_some, Machine.runFrom_append,
      hpublish, bind_some]
    exact hend
  · rw [hended, framesOf_append, hattached]
    rfl
  · intro heach
    have hmem : .published ⟨1, ()⟩ ∈ later.log := by
      rw [hlog]
      exact mem_append_left _ hfirst
    have hsettled := heach later.log (.frame (.ended .succeeded)) [] hended ⟨1, ()⟩ hmem
      Nat.zero_lt_one
    rcases hsettled with hsent | ⟨before, oldest, after, hannounced, -⟩
    · have htty := mem_framesOf.mpr hsent
      rw [hattached] at htty
      cases mem_singleton.mp htty
    · have hresync : .resync oldest ∈ framesOf later.log := by simp [hannounced, mem_framesOf]
      rw [hattached] at hresync
      cases mem_singleton.mp hresync

end Reading

end JeryuForge.AgentRuns
