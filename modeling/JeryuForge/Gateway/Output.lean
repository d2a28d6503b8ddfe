import JeryuForge.Gateway.Relay

/-!
# What a node is sent

The lines of a relay are a single error, or a head, the pieces of the response numbered from 1,
and one last line, by the loop of `forward` or by the task around it.  Wherever the race between
them ends, the line that was waiting is dropped whole, so the numbers have no gap.
-/

namespace JeryuForge.Gateway

open List Bool

def numberedLines (requestId : String) (texts : List String) : List GatewayLine :=
  texts.mapIdx fun index text => .responseBody requestId (UInt64.ofNat (index + 1)) text

def requestName (setting : Setting) (provider : String) (input : List Item) : String :=
  match openLine setting provider (LineReader.new input) with
  | some (line, _) => line.requestId
  | none => "unknown"

def Fits (piece : List UInt8) : Prop :=
  piece.length ≤ maxChunkBytes

def ShortHeaders (headers : List Header) : Prop :=
  headers.length ≤ 1 ∧ ∀ header ∈ headers,
    header.name = "content-type" ∧ header.value.utf8ByteSize ≤ 256

structure Serves (setting : Setting) (relay : Relay) (bodies : List (List UInt8)) : Prop where
  named : relay.requestId ≠ ""
  lines : ∃ status headers, ShortHeaders headers ∧
    relay.lines = .head relay.requestId status headers ::
      numberedLines relay.requestId (bodies.map setting.base64.encode)
  fits : ∀ piece ∈ bodies, Fits piece

def Unfinished (setting : Setting) (relay : Relay) : Prop :=
  relay.lines = [] ∨ ∃ bodies, Serves setting relay bodies ∧ bodies.flatten <+: relay.response

inductive Finished (setting : Setting) (relay : Relay) : Prop where
  | refused {reason : RelayError} (hlines : relay.lines = [.error relay.named reason])
  | ended {bodies : List (List UInt8)} {status : UInt16} {headers : List Header}
      (hnamed : relay.requestId ≠ "") (hheaders : ShortHeaders headers)
      (hlines : relay.lines = .head relay.requestId status headers ::
        numberedLines relay.requestId (bodies.map setting.base64.encode) ++
          [.responseEnd relay.requestId (UInt64.ofNat bodies.length)])
      (hfits : ∀ piece ∈ bodies, Fits piece) (hbodies : bodies.flatten = relay.response)
      (hended : .ended ∈ relay.trace)
  | broken {bodies : List (List UInt8)} {status : UInt16} {headers : List Header}
      {reason : RelayError} (hnamed : relay.requestId ≠ "") (hheaders : ShortHeaders headers)
      (hlines : relay.lines = .head relay.requestId status headers ::
        numberedLines relay.requestId (bodies.map setting.base64.encode) ++
          [.error relay.named reason])
      (hfits : ∀ piece ∈ bodies, Fits piece) (hbodies : bodies.flatten <+: relay.response)

inductive Waits (setting : Setting) (relay : Relay) (call : Call) (rest : List (List UInt8)) :
    GatewayLine → Prop where
  | head {status : UInt16} {headers : List Header} (hnamed : relay.requestId ≠ "")
      (hheaders : ShortHeaders headers) (hrest : rest = []) (hlines : relay.lines = [])
      (hresponse : relay.response = []) (hseq : call.seq = 0) :
      Waits setting relay call rest (.head relay.requestId status headers)
  | body {bodies : List (List UInt8)} {piece : List UInt8} (hserves : Serves setting relay bodies)
      (hfits : Fits piece) (hseq : call.seq = UInt64.ofNat (bodies.length + 1))
      (hresponse : relay.response = bodies.flatten ++ (piece ++ rest.flatten)) :
      Waits setting relay call rest
        (.responseBody relay.requestId call.seq (setting.base64.encode piece))

def Orderly (setting : Setting) (relay : Relay) : Prop :=
  match relay.phase with
  | .opening => relay.lines = [] ∧ relay.response = []
  | .forwarding call .sending =>
    relay.lines = [] ∧ relay.response = [] ∧ call.seq = 0 ∧ relay.requestId ≠ ""
  | .forwarding call (.handing line rest) =>
    (∀ piece ∈ rest, Fits piece) ∧ Waits setting relay call rest line
  | .forwarding call (.serving pieces) =>
    (∀ piece ∈ pieces, Fits piece) ∧ ∃ bodies, Serves setting relay bodies ∧
      call.seq = UInt64.ofNat bodies.length ∧
      relay.response = bodies.flatten ++ pieces.flatten
  | .forwarding call .ending =>
    ∃ bodies, Serves setting relay bodies ∧ call.seq = UInt64.ofNat bodies.length ∧
      relay.response = bodies.flatten ∧ .ended ∈ relay.trace
  | .failed _ => Unfinished setting relay
  | .past => Finished setting relay

theorem validId_short {value : String} (hvalid : validId value = true) :
    value ≠ "" ∧ value.utf8ByteSize ≤ 128 := by
  unfold validId at hvalid
  rw [and_eq_true, and_eq_true, and_eq_true, and_eq_true] at hvalid
  obtain ⟨⟨⟨⟨hne, hshort⟩, -⟩, -⟩, -⟩ := hvalid
  refine ⟨?_, of_decide_eq_true hshort⟩
  rintro rfl
  exact absurd hne (by decide)

theorem validId_of_openLine {setting : Setting} {provider : String} {reader lines : LineReader}
    {line : OpenLine} (hopen : openLine setting provider reader = some (line, lines)) :
    validId line.requestId = true := by
  unfold openLine at hopen
  split at hopen
  · cases hopen
  · split at hopen
    next hline =>
      have hid := LineReader.validId_of_loop (congrArg Prod.fst hline)
      obtain ⟨rfl, rfl⟩ := Prod.mk.inj (Option.some.inj hopen)
      exact hid
    · cases hopen

structure Named (setting : Setting) (provider : String) (input : List Item) (relay : Relay) :
    Prop where
  route : relay.provider = provider
  source : relay.input = LineReader.new input
  unread : relay.phase = .opening → relay.requestId = ""
  read : relay.phase ≠ .opening → relay.named = requestName setting provider input

theorem named_step {setting : Setting} {provider : String} {input : List Item} {relay next : Relay}
    {event : Event} (hnamed : Named setting provider input relay)
    (hstep : relay.step setting event = some next) : Named setting provider input next := by
  cases steps_of_step hstep with
  | @begin answers hphase =>
    have hunread := hnamed.unread hphase
    have hbegun := begun_begin setting relay answers
    generalize relay.begin setting answers = opened at hbegun ⊢
    have hread : ∀ {line : OpenLine} {lines : LineReader} {phase : Phase}
        {trace : List Observation},
        openLine setting relay.provider relay.input = some (line, lines) →
        Relay.named { relay with
          requestId := line.requestId, trace := trace, phase := phase } =
            requestName setting provider input := by
      intro line lines phase trace hopen
      have hne := (validId_short (validId_of_openLine hopen)).1
      rw [hnamed.route, hnamed.source] at hopen
      simp only [Relay.named, requestName, hopen]
      rw [if_neg hne]
    cases hbegun with
    | unread hnone =>
      refine ⟨hnamed.route, hnamed.source, nofun, fun _ => ?_⟩
      rw [hnamed.route, hnamed.source] at hnone
      simp only [Relay.named, requestName, hnone, hunread, if_true]
    | refused hopen | accepted hopen =>
      exact ⟨hnamed.route, hnamed.source, nofun, fun _ => hread hopen⟩
  | @forward call stage _ seen phase hphase hmoves =>
    have hread := hnamed.read (fun hopening => nomatch hphase.symm.trans hopening)
    refine ⟨hnamed.route, hnamed.source, fun hopening => ?_, fun _ => hread⟩
    subst hopening
    cases hmoves
  | report hphase =>
    have hread := hnamed.read (fun hopening => nomatch hphase.symm.trans hopening)
    exact ⟨hnamed.route, hnamed.source, nofun, fun _ => hread⟩

section Step

variable {setting : Setting} {relay next : Relay} {call : Call} {stage : Stage}

theorem serves_congr {bodies : List (List UInt8)} (hserves : Serves setting relay bodies)
    (hlines : next.lines = relay.lines) (hid : next.requestId = relay.requestId) :
    Serves setting next bodies := by
  obtain ⟨status, headers, hheaders, hall⟩ := hserves.lines
  refine ⟨hid ▸ hserves.named, ⟨status, headers, hheaders, ?_⟩, hserves.fits⟩
  rw [hlines, hid, hall]

theorem unfinished_of_orderly (hphase : relay.phase = .forwarding call stage)
    (horderly : Orderly setting relay) : Unfinished setting relay := by
  unfold Orderly at horderly
  rw [hphase] at horderly
  cases stage with
  | sending => exact .inl horderly.1
  | handing line rest =>
    obtain ⟨-, hwaits⟩ := horderly
    cases hwaits with
    | head _ _ _ hlines _ _ => exact .inl hlines
    | body hserves _ _ hresponse => exact .inr ⟨_, hserves, _, hresponse.symm⟩
  | serving pieces =>
    obtain ⟨-, bodies, hserves, -, hresponse⟩ := horderly
    exact .inr ⟨bodies, hserves, _, hresponse.symm⟩
  | ending =>
    obtain ⟨bodies, hserves, -, hresponse, -⟩ := horderly
    exact .inr ⟨bodies, hserves, by rw [hresponse]⟩

theorem shortHeaders_responseHeaders (contentType : Option (List UInt8)) :
    ShortHeaders (responseHeaders contentType) := by
  unfold responseHeaders
  split
  · exact ⟨Nat.zero_le _, nofun⟩
  next value _ =>
    split
    next hshort =>
      refine ⟨Nat.le_refl _, fun header hmem => ?_⟩
      rw [mem_singleton] at hmem
      subst hmem
      exact ⟨rfl, hshort⟩
    · exact ⟨Nat.zero_le _, nofun⟩

theorem orderly_congr {other : Call}
    (hphase : relay.phase = .forwarding call stage) (hnext : next.phase = .forwarding other stage)
    (hseq : other.seq = call.seq) (hlines : next.lines = relay.lines)
    (hresponse : next.response = relay.response) (hid : next.requestId = relay.requestId)
    (htrace : ∀ observation ∈ relay.trace, observation ∈ next.trace)
    (horderly : Orderly setting relay) : Orderly setting next := by
  unfold Orderly at horderly ⊢
  rw [hphase] at horderly
  rw [hnext]
  cases stage with
  | sending =>
    obtain ⟨hnone, hempty, hzero, hnamed⟩ := horderly
    exact ⟨hlines.trans hnone, hresponse.trans hempty, hseq.trans hzero, hid ▸ hnamed⟩
  | handing line rest =>
    obtain ⟨hfits, hwaits⟩ := horderly
    refine ⟨hfits, ?_⟩
    cases hwaits with
    | head hnamed hheaders hrest hnone hempty hzero =>
      rw [← hid] at hnamed ⊢
      exact .head hnamed hheaders hrest (hlines.trans hnone) (hresponse.trans hempty)
        (hseq.trans hzero)
    | body hserves hpiece hnumber hall =>
      rw [← hid, ← hseq]
      exact .body (serves_congr hserves hlines hid) hpiece (hseq.trans hnumber)
        (hresponse.trans hall)
  | serving pieces =>
    obtain ⟨hfits, bodies, hserves, hnumber, hall⟩ := horderly
    exact ⟨hfits, bodies, serves_congr hserves hlines hid, hseq.trans hnumber, hresponse.trans hall⟩
  | ending =>
    obtain ⟨bodies, hserves, hnumber, hall, hended⟩ := horderly
    exact ⟨bodies, serves_congr hserves hlines hid, hseq.trans hnumber, hresponse.trans hall,
      htrace _ hended⟩

variable {rest : List (List UInt8)} {seen : List Observation} {event : Event}

variable (horderly : Orderly setting relay)
include horderly

theorem orderly_handed {line : GatewayLine}
    (hphase : relay.phase = .forwarding call (.handing line rest)) :
    Orderly setting
      { relay with
        phase := .forwarding call (.serving rest), trace := relay.trace ++ [.line line] } := by
  unfold Orderly at horderly
  rw [hphase] at horderly
  obtain ⟨hfits, hwaits⟩ := horderly
  refine ⟨hfits, ?_⟩
  have hsent : ∀ sent, sentLines (relay.trace ++ [.line sent]) = relay.lines ++ [sent] := by
    intro sent
    rw [sentLines_append]
    rfl
  cases hwaits with
  | @head status headers hnamed hheaders hrest hnone hempty hzero =>
    refine ⟨[], ⟨hnamed, ⟨status, headers, hheaders, ?_⟩, nofun⟩, hzero,
      ?_⟩
    · exact (hsent _).trans (by rw [hnone]; rfl)
    · exact (relay.response_append rfl).trans (by rw [hempty, hrest]; rfl)
  | @body bodies piece hserves hpiece hnumber hall =>
    obtain ⟨status, headers, hheaders, hbefore⟩ := hserves.lines
    refine ⟨bodies ++ [piece], ⟨hserves.named, ⟨status, headers, hheaders, ?_⟩, ?_⟩, ?_, ?_⟩
    · refine (hsent _).trans ?_
      unfold numberedLines at hbefore ⊢
      rw [hbefore, map_append, map_cons, map_nil, mapIdx_concat, length_map, hnumber]
      rfl
    · intro other hmem
      rcases mem_append.mp hmem with hmem | hmem
      · exact hserves.fits other hmem
      · rw [mem_singleton.mp hmem]
        exact hpiece
    · rw [hnumber, length_append]
      rfl
    · refine (relay.response_append rfl).trans ?_
      rw [hall, flatten_append, flatten_singleton, append_assoc]

theorem orderly_chunk {bytes : List UInt8} (hphase : relay.phase = .forwarding call (.serving [])) :
    Orderly setting
      { relay with
        phase := .forwarding call (.serving (Records.pieces maxChunkBytes bytes))
        trace := relay.trace ++ [.received bytes] } := by
  unfold Orderly at horderly
  rw [hphase] at horderly
  obtain ⟨-, bodies, hserves, hnumber, hall⟩ := horderly
  have hpositive : 0 < maxChunkBytes := by decide
  refine ⟨fun piece hmem => (Records.bounded_of_mem_pieces hpositive hmem).2, bodies,
    serves_congr hserves (relay.lines_append rfl) rfl, hnumber, ?_⟩
  simp only [Relay.response] at hall ⊢
  rw [responseBytes_append, hall, Records.flatten_pieces hpositive, flatten_nil, append_nil]
  simp [responseBytes]

theorem orderly_rechecked {piece : List UInt8}
    (hphase : relay.phase = .forwarding call (.serving (piece :: rest))) (hseen : Reading seen) :
    Orderly setting
      { relay with
        phase := .forwarding { call with seq := call.seq + 1 }
          (.handing
            (.responseBody relay.requestId (call.seq + 1) (setting.base64.encode piece)) rest)
        trace := relay.trace ++ seen } := by
  unfold Orderly at horderly
  rw [hphase] at horderly
  obtain ⟨hfits, bodies, hserves, hnumber, hall⟩ := horderly
  refine ⟨(forall_mem_cons.mp hfits).2, ?_⟩
  refine .body (serves_congr hserves (relay.lines_append hseen.sentLines) rfl)
    (hfits piece mem_cons_self) ?_ ((relay.response_append hseen.responseBytes).trans hall)
  rw [hnumber, UInt64.ofNat_add]
  rfl

theorem orderly_finished (hphase : relay.phase = .forwarding call .ending) :
    Orderly setting
      { relay with
        phase := .past
        trace := relay.trace ++ [.line (.responseEnd relay.requestId call.seq)] } := by
  unfold Orderly at horderly
  rw [hphase] at horderly
  obtain ⟨bodies, hserves, hnumber, hall, hended⟩ := horderly
  obtain ⟨status, headers, hheaders, hbefore⟩ := hserves.lines
  refine @Finished.ended _ _ bodies status headers hserves.named hheaders ?_ hserves.fits ?_
    (mem_append_left _ hended)
  · simp only [Relay.lines] at hbefore ⊢
    rw [sentLines_append, hbefore, hnumber]
    rfl
  · exact hall.symm.trans (relay.response_append rfl).symm

theorem orderly_moves {phase : Phase} (hphase : relay.phase = .forwarding call stage)
    (hmoves : Moves setting relay.requestId call stage event seen phase) :
    Orderly setting { relay with phase := phase, trace := relay.trace ++ seen } := by
  have hunfinished := unfinished_of_orderly hphase horderly
  have hfails : ∀ {error : RelayError} {added : List Observation}, Reading added →
      Orderly setting { relay with phase := .failed error, trace := relay.trace ++ added } := by
    intro error added hadded
    have hlines := relay.lines_append hadded.sentLines
    rcases hunfinished with hnone | ⟨bodies, hserves, hstart⟩
    · exact .inl (hlines.trans hnone)
    · refine .inr ⟨bodies, serves_congr hserves hlines rfl, ?_⟩
      rw [← relay.response_append hadded.responseBytes] at hstart
      exact hstart
  -- The request body does not touch what is sent to the node.
  have hstays : ∀ {other : Call} {added : List Observation}, other.seq = call.seq →
      sentLines added = [] → responseBytes added = [] →
      Orderly setting
        { relay with phase := .forwarding other stage, trace := relay.trace ++ added } := by
    intro other added hseq hsent hreceived
    exact orderly_congr hphase rfl hseq (relay.lines_append hsent)
      (relay.response_append hreceived) rfl (fun _ hmem => mem_append_left _ hmem) horderly
  cases hmoves with
  | @polled _ reads hgoing =>
    obtain ⟨hsent, hreceived, -, hseq⟩ :=
      (polled_pollBody setting relay.requestId call reads).quiet
    exact hstays hseq hsent hreceived
  | lost | closed | unanswered | stalled | broken | idle | endStalled => exact hfails reading_nil
  | revoked | stopped => exact hfails (reading_observe _ _)
  | watched hok =>
    exact hstays rfl (reading_observe _ _).sentLines (reading_observe _ _).responseBytes
  | answered hline =>
    obtain ⟨-, status, contentType, rfl⟩ := answer_ok hline
    unfold Orderly at horderly
    rw [hphase] at horderly
    obtain ⟨hnone, hempty, hzero, hnamed⟩ := horderly
    refine ⟨nofun, ?_⟩
    exact .head hnamed (shortHeaders_responseHeaders _) rfl
      ((relay.lines_append rfl).trans hnone) ((relay.response_append rfl).trans hempty) hzero
  | handed => exact orderly_handed horderly hphase
  | chunk => exact orderly_chunk horderly hphase
  | ended =>
    unfold Orderly at horderly
    rw [hphase] at horderly
    obtain ⟨-, bodies, hserves, hnumber, hall⟩ := horderly
    rw [flatten_nil, append_nil] at hall
    exact ⟨bodies, serves_congr hserves (relay.lines_append rfl) rfl, hnumber,
      (relay.response_append rfl).trans hall, mem_append_right _ mem_cons_self⟩
  | rechecked hok => exact orderly_rechecked horderly hphase (reading_observe _ _)
  | finished => exact orderly_finished horderly hphase

theorem orderly_begin {answers : OpenAnswers} (hphase : relay.phase = .opening) :
    Orderly setting (relay.begin setting answers) := by
  unfold Orderly at horderly
  rw [hphase] at horderly
  obtain ⟨hlines, hresponse⟩ := horderly
  have hbegun := begun_begin setting relay answers
  generalize relay.begin setting answers = next at hbegun ⊢
  cases hbegun with
  | unread hnone => exact .inl hlines
  | refused hopen haccepts =>
    exact .inl ((relay.lines_append haccepts.reading.sentLines).trans hlines)
  | @accepted line lines seen call hopen haccepts =>
    have hreading := haccepts.reading
    have hzero : call.seq = 0 := by
      cases haccepts with
      | retrieved _ _ _ _ houtcome => exact (houtcome call rfl).2.2.2
    exact ⟨(relay.lines_append hreading.sentLines).trans hlines,
      (relay.response_append hreading.responseBytes).trans hresponse, hzero,
      (validId_short (validId_of_openLine hopen)).1⟩

theorem orderly_report {error : RelayError} (hphase : relay.phase = .failed error) :
    Orderly setting
      { relay with
        phase := .past, trace := relay.trace ++ [.line (.error relay.named error)] } := by
  unfold Orderly at horderly
  rw [hphase] at horderly
  rcases horderly with hnone | ⟨bodies, hserves, hstart⟩
  · refine @Finished.refused _ _ error ?_
    simp only [Relay.lines] at hnone ⊢
    rw [sentLines_append, hnone]
    rfl
  · obtain ⟨status, headers, hheaders, hbefore⟩ := hserves.lines
    refine @Finished.broken _ _ bodies status headers error hserves.named hheaders ?_
      hserves.fits ?_
    · simp only [Relay.lines] at hbefore ⊢
      rw [sentLines_append, hbefore]
      rfl
    · have hsame := @Relay.response_append relay [.line (.error relay.named error)] rfl
      rwa [← hsame] at hstart

theorem orderly_step (hreads : event.nodeReads = true)
    (hstep : relay.step setting event = some next) : Orderly setting next := by
  cases steps_of_step hstep with
  | begin hphase => exact orderly_begin horderly hphase
  | forward hphase hmoves => exact orderly_moves horderly hphase hmoves
  | @report error delivered hphase =>
    have hdelivered : delivered = true := hreads
    subst hdelivered
    exact orderly_report horderly hphase

end Step

variable {requestId : String} {setting : Setting} {relay : Relay}

theorem short_requestName (setting : Setting) (provider : String) (input : List Item) :
    (requestName setting provider input).utf8ByteSize ≤ 128 := by
  unfold requestName
  split
  next hopen =>
    exact (validId_short (validId_of_openLine hopen)).2
  · decide

def Begins (setting : Setting) (requestId : String) (lines : List GatewayLine)
    (bodies : List (List UInt8)) : Prop :=
  ∃ status headers texts, lines = .head requestId status headers :: numberedLines requestId texts ∧
    texts.map setting.base64.decode = bodies.map some

theorem begins_encode {status : UInt16} {headers : List Header} (bodies : List (List UInt8)) :
    Begins setting requestId (.head requestId status headers ::
      numberedLines requestId (bodies.map setting.base64.encode)) bodies := by
  refine ⟨status, headers, _, rfl, ?_⟩
  rw [map_map]
  exact map_congr_left fun bytes _ => setting.base64.decode_encode bytes

theorem unfinished_of_not_over (horderly : Orderly setting relay) (hover : relay.isOver = false) :
    Unfinished setting relay := by
  cases hphase : relay.phase with
  | opening =>
    unfold Orderly at horderly
    rw [hphase] at horderly
    exact .inl horderly.1
  | forwarding call stage => exact unfinished_of_orderly hphase horderly
  | failed error =>
    unfold Orderly at horderly
    rw [hphase] at horderly
    exact horderly
  | past => simp [Relay.isOver, hphase] at hover

theorem phase_of_isOver (hover : relay.isOver = true) : relay.phase = .past := by
  cases hphase : relay.phase <;> simp [Relay.isOver, hphase] at hover ⊢

theorem writable_of_orderly (horderly : Orderly setting relay)
    (hid : relay.requestId.utf8ByteSize ≤ 128) (hname : relay.named.utf8ByteSize ≤ 128) :
    ∀ line ∈ relay.lines, Writable setting.base64 line := by
  have hstart : ∀ {status : UInt16} {headers : List Header} {bodies : List (List UInt8)},
      ShortHeaders headers → (∀ piece ∈ bodies, Fits piece) →
      ∀ line ∈ GatewayLine.head relay.requestId status headers ::
        numberedLines relay.requestId (bodies.map setting.base64.encode),
        Writable setting.base64 line := by
    intro status headers bodies hheaders hfits line hmem
    rcases mem_cons.mp hmem with rfl | hmem
    · exact .head hid hheaders.1 hheaders.2
    · obtain ⟨index, hindex, rfl⟩ := mem_mapIdx.mp hmem
      rw [length_map] at hindex
      rw [getElem_map]
      exact .responseBody hid (hfits _ (getElem_mem hindex))
  intro line hmem
  cases hover : relay.isOver with
  | false =>
    rcases unfinished_of_not_over horderly hover with hnone | ⟨bodies, hserves, -⟩
    · rw [hnone] at hmem
      cases hmem
    · obtain ⟨status, headers, hheaders, hlines⟩ := hserves.lines
      rw [hlines] at hmem
      exact hstart hheaders hserves.fits line hmem
  | true =>
    unfold Orderly at horderly
    rw [phase_of_isOver hover] at horderly
    cases horderly with
    | refused hlines =>
      rw [hlines, mem_singleton] at hmem
      subst hmem
      exact .error hname
    | ended hnamed hheaders hlines hfits _ _ =>
      rw [hlines] at hmem
      rcases mem_append.mp hmem with hmem | hmem
      · exact hstart hheaders hfits line hmem
      · rw [mem_singleton.mp hmem]
        exact .responseEnd hid
    | broken hnamed hheaders hlines hfits _ =>
      rw [hlines] at hmem
      rcases mem_append.mp hmem with hmem | hmem
      · exact hstart hheaders hfits line hmem
      · rw [mem_singleton.mp hmem]
        exact .error hname

/-- The lines of a relay whose node reads on: a single error; or a head, the pieces of the response
numbered from 1, and one last line that is an end with their number or an error.  They carry the
request's id once it was read and fit a line, and the pieces decode to the upstream body, or to a
beginning of it where the last line is an error.  Nothing follows the last line, and a relay that
is not over has sent a beginning of such lines. -/
theorem relay_lines {setting : Setting} {peer : Option (List UInt8)} {sessionId provider : String}
    {input : List Item} {events : List Event} {final : Relay}
    (hreads : ∀ event ∈ events, event.nodeReads = true)
    (hrun : (relayMachine setting peer sessionId provider input).run events = some final) :
    (final.isOver = true →
      (∃ reason, final.lines = [.error (requestName setting provider input) reason]) ∨
      ∃ start bodies, Begins setting (requestName setting provider input) start bodies ∧
        ((final.lines = start ++
            [.responseEnd (requestName setting provider input) (UInt64.ofNat bodies.length)] ∧
            bodies.flatten = final.response ∧ .ended ∈ final.trace) ∨
          ∃ reason,
            final.lines = start ++ [.error (requestName setting provider input) reason] ∧
            bodies.flatten <+: final.response)) ∧
    (final.isOver = false → final.lines = [] ∨
      ∃ bodies, Begins setting (requestName setting provider input) final.lines bodies ∧
        bodies.flatten <+: final.response) ∧
    (∀ line ∈ final.lines, line.toLine.length ≤ maxLineBytes) ∧
    (final.isOver = true → ∀ event, final.step setting event = none) := by
  have horderly : Orderly setting final := by
    refine (relayMachine setting peer sessionId provider input).run_invariant ⟨rfl, rfl⟩
      (fun relay event next hrelay hevent hnext => orderly_step hrelay hevent hnext)
      ((relayMachine setting peer sessionId provider input).meetsFrom_of_forall hreads _) hrun
  have hnamed : Named setting provider input final := by
    refine (relayMachine setting peer sessionId provider input).run_invariant_always
      ⟨rfl, rfl, (fun _ => rfl), fun hopening => absurd rfl hopening⟩ ?_ hrun
    exact fun relay event next hrelay hnext => named_step hrelay hnext
  have hshort := short_requestName setting provider input
  -- Where a head was sent, the id is the one of the open line.
  have hid : final.requestId ≠ "" → final.requestId = requestName setting provider input := by
    intro hne
    have hread := hnamed.read fun hopening => hne (hnamed.unread hopening)
    rw [← hread, Relay.named, if_neg hne]
  have hover : final.isOver = true → final.named = requestName setting provider input := by
    intro hisOver
    exact hnamed.read fun hopening => nomatch hopening.symm.trans (phase_of_isOver hisOver)
  refine ⟨fun hisOver => ?_, fun hisOver => ?_, fun line hmem => ?_, fun hisOver event => ?_⟩
  · have hname := hover hisOver
    unfold Orderly at horderly
    rw [phase_of_isOver hisOver] at horderly
    cases horderly with
    | @refused reason hlines => exact .inl ⟨reason, hname ▸ hlines⟩
    | @ended bodies status headers hne hheaders hlines hfits hbodies hended =>
      rw [hid hne] at hlines
      exact .inr ⟨_, bodies, begins_encode bodies, .inl ⟨hlines, hbodies, hended⟩⟩
    | @broken bodies status headers reason hne hheaders hlines hfits hbodies =>
      rw [hid hne, hname] at hlines
      exact .inr ⟨_, bodies, begins_encode bodies, .inr ⟨reason, hlines, hbodies⟩⟩
  · rcases unfinished_of_not_over horderly hisOver with hnone | ⟨bodies, hserves, hstart⟩
    · exact .inl hnone
    · obtain ⟨status, headers, hheaders, hlines⟩ := hserves.lines
      rw [hid hserves.named] at hlines
      refine .inr ⟨bodies, ?_, hstart⟩
      rw [hlines]
      exact begins_encode bodies
  · have hidShort : final.requestId.utf8ByteSize ≤ 128 := by
      by_cases hne : final.requestId = ""
      · rw [hne]
        decide
      · rw [hid hne]
        exact hshort
    have hnameShort : final.named.utf8ByteSize ≤ 128 := by
      unfold Relay.named
      split
      · decide
      · exact hidShort
    exact length_toLine_le (writable_of_orderly horderly hidShort hnameShort line hmem)
  · unfold Relay.step
    rw [phase_of_isOver hisOver]

/-- A response of two bytes with a content type. -/
theorem relay_lines_hi : ∃ events final,
    (∀ event ∈ events, event.nodeReads = true) ∧ Alice.machine.run events = some final ∧
      final.lines = [.head "r-1" 200 [⟨"content-type", "text/plain"⟩],
        .responseBody "r-1" 1 "aGk=", .responseEnd "r-1" 1] ∧
      final.response = [104, 105] ∧
      ∀ line ∈ final.lines, line.toLine.length ≤ maxLineBytes := by
  let events : List Event :=
    [.pollBody Alice.reads,
      .returns (.response 200 (some [116, 101, 120, 116, 47, 112, 108, 97, 105, 110])), .handed,
      .upstream (.chunk [104, 105]), .recheck Alice.reads, .handed, .upstream .ended, .handed]
  have hreads : ∀ event ∈ .begin Alice.answers :: events, event.nodeReads = true := by
    simp [events, Event.nodeReads]
  have hrun : ((Alice.machine.runFrom Alice.opened events).any fun final =>
      final.lines = [.head "r-1" 200 [⟨"content-type", "text/plain"⟩],
        .responseBody "r-1" 1 "aGk=", .responseEnd "r-1" 1] && final.response = [104, 105]) =
      true := by
    decide +kernel
  obtain ⟨final, hfinal, hfacts⟩ := (Option.any_eq_true _ _).mp hrun
  simp only [and_eq_true, decide_eq_true_eq] at hfacts
  have hwhole := (Alice.run_begin events).trans hfinal
  exact ⟨.begin Alice.answers :: events, final, hreads, hwhole, hfacts.1, hfacts.2,
    (relay_lines hreads hwhole).2.2.1⟩

end JeryuForge.Gateway
