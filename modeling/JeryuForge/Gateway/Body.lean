import JeryuForge.Gateway.Lines

/-!
# The request body

The node's `request-body` lines, as the body that is streamed upstream.  Each line is checked
against the number that is expected and the assignment is checked again before its bytes go on.
The body ends as complete only behind a `request-end` line that counts the chunks.
-/

namespace JeryuForge.Gateway

open List Nat

def maxRequestBody : Nat :=
  8 * 1024 * 1024

abbrev Decode := String → Option (List UInt8)

def decodeChunk (decode : Decode) (bytesB64 : String) : Except RelayError (List UInt8) :=
  match decode bytesB64 with
  | none => .error .relayStreamInvalid
  | some bytes =>
    if bytes = [] ∨ maxChunkBytes < bytes.length then .error .relayStreamInvalid else .ok bytes

/-- What a body stream is given: how lines and chunks are read, the request, and the answer of
each re-check, in the order they are made. -/
structure BodySetting where
  deserialize : Deserialize
  decode : Decode
  requestId : String
  recheck : Nat → Except RelayError Unit

/-- The `State` of the body stream. -/
structure BodyState where
  lines : LineReader
  expected : UInt64
  total : Nat
  checks : Nat
  done : Bool
  failure : Option RelayError
deriving DecidableEq

namespace BodyState

def new (lines : LineReader) : BodyState :=
  { lines := lines, expected := 1, total := 0, checks := 0, done := false, failure := none }

variable (setting : BodySetting) (state : BodyState)

def takeBody (requestId : String) (seq : UInt64) (bytesB64 : String) :
    Except RelayError (List UInt8) × BodyState :=
  if requestId ≠ setting.requestId ∨ seq ≠ state.expected then
    (.error .relayStreamInvalid, state)
  else
    match setting.recheck state.checks with
    | .error error => (.error error, { state with checks := state.checks + 1 })
    | .ok () =>
      match decodeChunk setting.decode bytesB64 with
      | .error error => (.error error, { state with checks := state.checks + 1 })
      | .ok chunk =>
        if maxRequestBody < state.total + chunk.length then
          (.error .relayStreamInvalid,
            { state with
              checks := state.checks + 1, total := state.total + chunk.length })
        else
          (.ok chunk,
            { state with
              checks := state.checks + 1, total := state.total + chunk.length
              expected := state.expected + 1 })

def checkedSucc (number : UInt64) : Option UInt64 :=
  if number.toNat + 1 < 2 ^ 64 then some (number + 1) else none

def takeEnd (requestId : String) (seqEnd : UInt64) : Except RelayError Unit × BodyState :=
  if requestId ≠ setting.requestId ∨ checkedSucc seqEnd ≠ some state.expected then
    (.error .relayStreamInvalid, state)
  else (setting.recheck state.checks, { state with checks := state.checks + 1 })

def nextChunk : Except RelayError (Option (List UInt8)) × BodyState :=
  match state.lines.nextLine setting.deserialize with
  | (.error error, lines) => (.error error, { state with lines := lines })
  | (.ok (.requestBody requestId seq bytesB64), lines) =>
    let (answer, next) := takeBody setting { state with lines := lines } requestId seq bytesB64
    (answer.map some, next)
  | (.ok (.requestEnd requestId seqEnd), lines) =>
    let (answer, next) := takeEnd setting { state with lines := lines } requestId seqEnd
    (answer.map fun _ => none, next)
  | (.ok (.gatewayOpen ..), lines) => (.error .relayStreamInvalid, { state with lines := lines })

/-- `request_body`: the body as a stream.  A refusal is kept for the relay to answer with. -/
def poll : Records.Answer (List UInt8) RelayError × BodyState :=
  if state.done then (.ended, state)
  else
    match state.nextChunk setting with
    | (.ok (some chunk), next) => (.item chunk, next)
    | (.ok none, next) => (.ended, next)
    | (.error error, next) => (.failed error, { next with failure := some error, done := true })

variable {setting} {state}

theorem takeBody_failure (requestId : String) (seq : UInt64) (bytesB64 : String) :
    (takeBody setting state requestId seq bytesB64).2.failure = state.failure := by
  unfold takeBody
  split
  · rfl
  · split
    · rfl
    · split
      · rfl
      · split <;> rfl

theorem takeEnd_failure (requestId : String) (seqEnd : UInt64) :
    (takeEnd setting state requestId seqEnd).2.failure = state.failure := by
  unfold takeEnd
  split <;> rfl

theorem nextChunk_failure : (nextChunk setting state).2.failure = state.failure := by
  unfold nextChunk
  split
  · rfl
  · exact takeBody_failure ..
  · exact takeEnd_failure ..
  · rfl

theorem takeBody_of_ok {requestId bytesB64 : String} {seq : UInt64} {chunk : List UInt8}
    (hchunk : (takeBody setting state requestId seq bytesB64).1 = .ok chunk) :
    (requestId = setting.requestId ∧ seq = state.expected) ∧
      setting.recheck state.checks = .ok () ∧ decodeChunk setting.decode bytesB64 = .ok chunk ∧
      state.total + chunk.length ≤ maxRequestBody ∧
      takeBody setting state requestId seq bytesB64 = (.ok chunk,
        { state with
          checks := state.checks + 1, total := state.total + chunk.length
          expected := state.expected + 1 }) := by
  unfold takeBody at hchunk ⊢
  split at hchunk
  · cases hchunk
  next hmatch =>
    split at hchunk
    · cases hchunk
    next hcheck =>
      split at hchunk
      · cases hchunk
      next hdecode =>
        split at hchunk
        · cases hchunk
        next hfits =>
          cases hchunk
          refine ⟨by simpa using hmatch, hcheck, hdecode, not_lt.mp hfits, ?_⟩
          rw [if_neg hmatch, if_neg hfits]

theorem recheck_of_nextChunk {chunk : List UInt8}
    (hchunk : (nextChunk setting state).1 = .ok (some chunk)) :
    setting.recheck state.checks = .ok () ∧
      (nextChunk setting state).2.checks = state.checks + 1 := by
  unfold nextChunk at hchunk ⊢
  split at hchunk
  · cases hchunk
  next requestId seq bytesB64 lines hline =>
    obtain ⟨bytes, hbytes, -⟩ := Except.map_eq_ok hchunk
    obtain ⟨-, hcheck, -, -, hnext⟩ := takeBody_of_ok hbytes
    exact ⟨hcheck, by rw [hnext]⟩
  · obtain ⟨value, -, hvalue⟩ := Except.map_eq_ok hchunk
    cases hvalue
  · cases hchunk

theorem poll_cases :
    (∃ chunk, (poll setting state).1 = .item chunk ∧ setting.recheck state.checks = .ok () ∧
        (poll setting state).2.checks = state.checks + 1 ∧
        (poll setting state).2.failure = state.failure) ∨
      ((poll setting state).1 = .ended ∧ (poll setting state).2.failure = state.failure) ∨
      ∃ reason, (poll setting state).1 = .failed reason ∧
        (poll setting state).2.failure = some reason := by
  have hfailure := @nextChunk_failure setting state
  unfold poll
  split
  · exact .inr (.inl ⟨rfl, rfl⟩)
  · split
    next chunk next hchunk =>
      obtain ⟨hcheck, hchecks⟩ := @recheck_of_nextChunk setting state chunk (by rw [hchunk])
      rw [hchunk] at hfailure hchecks
      exact .inl ⟨chunk, rfl, hcheck, hchecks, hfailure⟩
    next next hchunk =>
      rw [hchunk] at hfailure
      exact .inr (.inl ⟨rfl, hfailure⟩)
    next reason next hchunk =>
      exact .inr (.inr ⟨reason, rfl, rfl⟩)

end BodyState

def numberedFrom (requestId : String) : Nat → List String → List NodeLine
  | sent, [] => [.requestEnd requestId (UInt64.ofNat sent)]
  | sent, text :: texts =>
    .requestBody requestId (UInt64.ofNat (sent + 1)) text ::
      numberedFrom requestId (sent + 1) texts

def numbered (requestId : String) (texts : List String) : List NodeLine :=
  numberedFrom requestId 0 texts

structure Complete (setting : BodySetting) (count total : Nat) (lines : List NodeLine)
    (chunks : List (List UInt8)) (texts : List String) : Prop where
  lines : ∃ rest, lines = numberedFrom setting.requestId count texts ++ rest
  decoded : texts.map (decodeChunk setting.decode) = chunks.map .ok
  bounded : total + chunks.flatten.length ≤ maxRequestBody
  checked : ∀ index ≤ texts.length, setting.recheck (count + index) = .ok ()

section Complete

variable {setting : BodySetting} {count total : Nat} {lines : List NodeLine}
  {chunks : List (List UInt8)} {texts : List String}

theorem not_complete_nil : ¬Complete setting count total [] chunks texts := by
  intro h
  obtain ⟨rest, hlines⟩ := h.lines
  cases texts <;> cases hlines

variable {requestId : String}

theorem complete_end {seqEnd : UInt64} :
    Complete setting count total (.requestEnd requestId seqEnd :: lines) chunks texts ↔
      requestId = setting.requestId ∧ seqEnd = UInt64.ofNat count ∧
        setting.recheck count = .ok () ∧ total ≤ maxRequestBody ∧ chunks = [] ∧ texts = [] := by
  constructor
  · intro h
    obtain ⟨rest, hlines⟩ := h.lines
    cases texts with
    | nil =>
      obtain ⟨hfirst, -⟩ := cons.inj hlines
      obtain ⟨hid, hseq⟩ := NodeLine.requestEnd.inj hfirst
      have hchunks : chunks = [] := by
        have hdecoded := h.decoded
        cases chunks with
        | nil => rfl
        | cons chunk chunks => cases hdecoded
      have hbounded := h.bounded
      rw [hchunks] at hbounded
      exact ⟨hid, hseq, h.checked 0 (le_refl _), hbounded, hchunks, rfl⟩
    | cons text texts => cases hlines
  · rintro ⟨rfl, rfl, hcheck, hbounded, rfl, rfl⟩
    refine ⟨⟨lines, rfl⟩, rfl, hbounded, fun index hindex => ?_⟩
    rw [le_zero.mp hindex]
    exact hcheck

theorem complete_body {bytesB64 : String} {seq : UInt64} :
    Complete setting count total (.requestBody requestId seq bytesB64 :: lines) chunks texts ↔
      requestId = setting.requestId ∧ seq = UInt64.ofNat (count + 1) ∧
        setting.recheck count = .ok () ∧
        ∃ chunk more rest, chunks = chunk :: more ∧ texts = bytesB64 :: rest ∧
          decodeChunk setting.decode bytesB64 = .ok chunk ∧
          Complete setting (count + 1) (total + chunk.length) lines more rest := by
  constructor
  · intro h
    obtain ⟨tail, hlines⟩ := h.lines
    cases texts with
    | nil => cases hlines
    | cons text rest =>
      obtain ⟨hfirst, hmore⟩ := cons.inj hlines
      obtain ⟨hid, hseq, htext⟩ := NodeLine.requestBody.inj hfirst
      have hdecoded := h.decoded
      cases chunks with
      | nil => cases hdecoded
      | cons chunk more =>
        obtain ⟨hchunk, hrest⟩ := cons.inj hdecoded
        have hbounded := h.bounded
        rw [flatten_cons, length_append, ← add_assoc] at hbounded
        rw [← htext] at hchunk ⊢
        refine ⟨hid, hseq, h.checked 0 (zero_le _), chunk, more, rest, rfl, rfl, hchunk,
          ⟨tail, hmore⟩, hrest, hbounded, fun index hindex => ?_⟩
        have hcheck := h.checked (index + 1) (by simpa using hindex)
        rw [add_right_comm]
        exact hcheck
  · rintro ⟨rfl, rfl, hcheck, chunk, more, rest, rfl, rfl, hchunk, hmore⟩
    obtain ⟨tail, rfl⟩ := hmore.lines
    refine ⟨⟨tail, rfl⟩, ?_, ?_, ?_⟩
    · rw [map_cons, map_cons, hchunk, hmore.decoded]
    · rw [flatten_cons, length_append, ← add_assoc]
      exact hmore.bounded
    · intro index hindex
      cases index with
      | zero => exact hcheck
      | succ index =>
        have hnext := hmore.checked index (by simpa using hindex)
        rw [add_right_comm] at hnext
        exact hnext

end Complete

structure Counts (state : BodyState) (count : Nat) : Prop where
  going : state.done = false
  expected : state.expected = UInt64.ofNat (count + 1)
  checks : state.checks = count
  few : count ≤ state.total
  bounded : state.total ≤ maxRequestBody

theorem checkedSucc_eq_some_iff {seqEnd : UInt64} {count : Nat} (hcount : count ≤ maxRequestBody) :
    BodyState.checkedSucc seqEnd = some (UInt64.ofNat (count + 1)) ↔
      seqEnd = UInt64.ofNat count := by
  have hsmall : count + 1 < 2 ^ 64 := by
    unfold maxRequestBody at hcount
    omega
  unfold BodyState.checkedSucc
  rw [← UInt64.toNat_inj, UInt64.toNat_ofNat_of_lt' (by omega : count < 2 ^ 64)]
  split
  · rw [Option.some.injEq, ← UInt64.toNat_inj, UInt64.toNat_ofNat_of_lt' hsmall, UInt64.toNat_add]
    have hone : (1 : UInt64).toNat = 1 := rfl
    omega
  · constructor
    · intro h
      cases h
    · intro h
      omega

section Poll

variable {setting : BodySetting} {state : BodyState} {count : Nat} {lines : List NodeLine}

def Streams (setting : BodySetting) (state : BodyState) (count : Nat) (lines : List NodeLine) :
    Prop :=
  ∃ chunks ending, Records.Drains (BodyState.poll setting) state chunks ending ∧
    (ending = none ↔ ∃ texts, Complete setting count state.total lines chunks texts)

theorem streams_of_error {error : RelayError} {next : BodyState} (hgoing : state.done = false)
    (hchunk : state.nextChunk setting = (.error error, next))
    (hnone : ∀ texts, ¬Complete setting count state.total lines [] texts) :
    Streams setting state count lines := by
  have hpoll : (state.poll setting).1 = .failed error := by
    unfold BodyState.poll
    rw [if_neg (by simp [hgoing]), hchunk]
  refine ⟨[], some error, .failed hpoll, iff_of_false (by simp) ?_⟩
  rintro ⟨texts, hcomplete⟩
  exact hnone texts hcomplete

variable {requestId : String} {reader : LineReader}

theorem takeEnd_ok_iff (hcounts : Counts state count) {seqEnd : UInt64} :
    (BodyState.takeEnd setting state requestId seqEnd).1 = .ok () ↔
      requestId = setting.requestId ∧ seqEnd = UInt64.ofNat count ∧
        setting.recheck count = .ok () := by
  have hcount : count ≤ maxRequestBody := hcounts.few.trans hcounts.bounded
  rw [← checkedSucc_eq_some_iff hcount, ← hcounts.expected, BodyState.takeEnd]
  split
  next hrefuse =>
    refine iff_of_false (by simp) fun ⟨hid, hseq, _⟩ => ?_
    exact hrefuse.elim (· hid) (· hseq)
  next hpass =>
    simp only [not_or, not_not] at hpass
    simp only [hpass, hcounts.checks, true_and]

theorem streams_end (hcounts : Counts state count) {seqEnd : UInt64}
    (hline : state.lines.nextLine setting.deserialize =
      (.ok (.requestEnd requestId seqEnd), reader)) :
    Streams setting state count (.requestEnd requestId seqEnd :: lines) := by
  have hread : Counts { state with lines := reader } count :=
    ⟨hcounts.going, hcounts.expected, hcounts.checks, hcounts.few, hcounts.bounded⟩
  have hchunk : state.nextChunk setting =
      ((BodyState.takeEnd setting { state with lines := reader } requestId seqEnd).1.map
        fun _ => none,
        (BodyState.takeEnd setting { state with lines := reader } requestId seqEnd).2) := by
    unfold BodyState.nextChunk
    simp only [hline]
  cases hanswer : (BodyState.takeEnd setting { state with lines := reader } requestId seqEnd).1 with
  | error error =>
    rw [hanswer] at hchunk
    refine streams_of_error hcounts.going hchunk fun texts hcomplete => ?_
    obtain ⟨hid, hseq, hcheck, -⟩ := complete_end.mp hcomplete
    rw [(takeEnd_ok_iff hread).mpr ⟨hid, hseq, hcheck⟩] at hanswer
    cases hanswer
  | ok value =>
    have hpoll : (state.poll setting).1 = .ended := by
      unfold BodyState.poll
      rw [if_neg (by simp [hcounts.going]), hchunk, hanswer]
      rfl
    obtain ⟨hid, hseq, hcheck⟩ := (takeEnd_ok_iff hread).mp hanswer
    refine ⟨[], none, .ended hpoll, iff_of_true rfl ⟨[], ?_⟩⟩
    exact complete_end.mpr ⟨hid, hseq, hcheck, hcounts.bounded, rfl, rfl⟩

theorem decodeChunk_ne_nil {decode : Decode} {bytesB64 : String} {chunk : List UInt8}
    (hdecode : decodeChunk decode bytesB64 = .ok chunk) : chunk ≠ [] := by
  rintro rfl
  unfold decodeChunk at hdecode
  split at hdecode
  · cases hdecode
  · split at hdecode
    · cases hdecode
    next hnot =>
      cases hdecode
      exact hnot (.inl rfl)

/-- What a `request-body` line does to the stream. -/
theorem streams_body (hcounts : Counts state count) {bytesB64 : String} {seq : UInt64}
    (hline : state.lines.nextLine setting.deserialize =
      (.ok (.requestBody requestId seq bytesB64), reader))
    (hmore : ∀ next, next.lines = reader → Counts next (count + 1) →
      Streams setting next (count + 1) lines) :
    Streams setting state count (.requestBody requestId seq bytesB64 :: lines) := by
  have hchunk : state.nextChunk setting =
      ((BodyState.takeBody setting { state with lines := reader } requestId seq
        bytesB64).1.map some,
        (BodyState.takeBody setting { state with lines := reader } requestId seq bytesB64).2) := by
    unfold BodyState.nextChunk
    simp only [hline]
  cases hanswer :
      (BodyState.takeBody setting { state with lines := reader } requestId seq bytesB64).1 with
  | error error =>
    rw [hanswer] at hchunk
    refine streams_of_error hcounts.going hchunk fun texts hcomplete => ?_
    obtain ⟨-, -, -, chunk, more, rest, hchunks, -⟩ := complete_body.mp hcomplete
    cases hchunks
  | ok chunk =>
    obtain ⟨⟨hid, hseq⟩, hcheck, hdecode, hfits, htaken⟩ := BodyState.takeBody_of_ok hanswer
    rw [htaken] at hchunk
    have hpoll : state.poll setting = (.item chunk,
        { state with
          lines := reader, checks := state.checks + 1, total := state.total + chunk.length
          expected := state.expected + 1 }) := by
      unfold BodyState.poll
      rw [if_neg (by simp [hcounts.going]), hchunk]
      rfl
    have hexpected : UInt64.ofNat (count + 1) + 1 = UInt64.ofNat (count + 1 + 1) := by
      rw [UInt64.ofNat_add (count + 1) 1]
      rfl
    obtain ⟨chunks, ending, hdrains, hending⟩ := hmore
      { state with
        lines := reader, checks := state.checks + 1, total := state.total + chunk.length
        expected := state.expected + 1 } rfl
      ⟨hcounts.going, by simp only [hcounts.expected, hexpected],
        congrArg (· + 1) hcounts.checks, by
        have := hcounts.few
        have := length_pos_iff.mpr (decodeChunk_ne_nil hdecode)
        simp only
        omega, hfits⟩
    refine ⟨chunk :: chunks, ending, .item (by rw [hpoll]) (by rw [hpoll]; exact hdrains),
      hending.trans ⟨?_, ?_⟩⟩
    · rintro ⟨texts, hcomplete⟩
      exact ⟨bytesB64 :: texts, complete_body.mpr ⟨hid, hseq.trans hcounts.expected,
        hcounts.checks ▸ hcheck, chunk, chunks, texts, rfl, rfl, hdecode, hcomplete⟩⟩
    · rintro ⟨texts, hcomplete⟩
      obtain ⟨-, -, -, other, more, rest, hchunks, -, -, hrest⟩ := complete_body.mp hcomplete
      cases hchunks
      exact ⟨rest, hrest⟩

theorem streams_of_drains {outcome : Option RelayError}
    (hreader : Records.Drains (LineReader.nextAnswer setting.deserialize) reader lines outcome)
    (hlines : state.lines = reader) (hcounts : Counts state count) :
    Streams setting state count lines := by
  induction hreader generalizing state count with
  | ended hanswer =>
    rcases LineReader.nextLine_of_answer hanswer with ⟨_, hother, _⟩ | ⟨_, _, hother, _⟩ <;>
      cases hother
  | @failed source error hanswer =>
    rcases LineReader.nextLine_of_answer hanswer with ⟨_, hother, _⟩ | ⟨_, next, hother, hline⟩
    · cases hother
    · cases hother
      have hchunk : state.nextChunk setting = (.error error, { state with lines := next }) := by
        unfold BodyState.nextChunk
        rw [hlines]
        simp only [hline]
      exact streams_of_error hcounts.going hchunk fun texts => not_complete_nil
  | @item source line values outcome hanswer hrest ih =>
    rcases LineReader.nextLine_of_answer hanswer with ⟨_, hother, hline⟩ | ⟨_, _, hother, _⟩
    · cases hother
      rw [← hlines] at hline
      cases line with
      | gatewayOpen requestId provider method path headers authorization capability =>
        have hchunk : state.nextChunk setting = (.error .relayStreamInvalid,
            { state with lines := (source.nextAnswer setting.deserialize).2 }) := by
          unfold BodyState.nextChunk
          simp only [hline]
          rw [hlines]
        refine streams_of_error hcounts.going hchunk fun texts hcomplete => ?_
        obtain ⟨rest, hrest⟩ := hcomplete.lines
        cases texts <;> cases hrest
      | requestEnd requestId seqEnd => exact streams_end hcounts hline
      | requestBody requestId seq bytesB64 =>
        refine streams_body hcounts hline fun next hnext hnextCounts => ?_
        exact ih (hnext.trans (by rw [hlines])) hnextCounts
    · cases hother

end Poll

/-- Whatever a node sends, its body stream comes to one end: the bytes that were streamed are the
chunks, and the end is that of a complete body exactly if the lines were the chunks, numbered
from 1 under the request's id, and a `request-end` with their number, all within the limit, and
every re-check passed.  Otherwise the stream ends with an error. -/
theorem requestBody_complete (setting : BodySetting) (input : List Item) :
    ∃ lines error chunks ending,
      Records.Drains (LineReader.nextAnswer setting.deserialize) (LineReader.new input) lines
        (some error) ∧
      (∀ others other,
        Records.Drains (BodyState.poll setting) (BodyState.new (LineReader.new input)) others
            other ↔
          others = chunks ∧ other = ending) ∧
      (ending = none ↔ ∃ texts, (∃ rest, lines = numbered setting.requestId texts ++ rest) ∧
        texts.map (decodeChunk setting.decode) = chunks.map .ok ∧
        chunks.flatten.length ≤ maxRequestBody ∧
        ∀ index ≤ texts.length, setting.recheck index = .ok ()) := by
  obtain ⟨lines, error, hlines⟩ := LineReader.exists_drains setting.deserialize
    (LineReader.new input)
  have hcounts : Counts (BodyState.new (LineReader.new input)) 0 :=
    ⟨rfl, rfl, rfl, le_refl _, zero_le _⟩
  obtain ⟨chunks, ending, hdrains, hending⟩ := streams_of_drains hlines rfl hcounts
  refine ⟨lines, error, chunks, ending, hlines, fun others other => ⟨fun h => h.unique hdrains, ?_⟩,
    hending.trans ⟨?_, ?_⟩⟩
  · rintro ⟨rfl, rfl⟩
    exact hdrains
  · rintro ⟨texts, hcomplete⟩
    refine ⟨texts, hcomplete.lines, hcomplete.decoded, ?_, fun index hindex => ?_⟩
    · simpa [BodyState.new] using hcomplete.bounded
    · simpa using hcomplete.checked index hindex
  · rintro ⟨texts, hwhole, hdecoded, hbounded, hchecked⟩
    refine ⟨texts, hwhole, hdecoded, ?_, fun index hindex => ?_⟩
    · simpa [BodyState.new] using hbounded
    · simpa using hchecked index hindex

end JeryuForge.Gateway
