import JeryuForge.Gateway.Policy
import JeryuForge.Library.Records

/-!
# The lines a node sends

`LineReader` cuts the bytes of a node into lines as they arrive.  It takes only the part up to
the next newline into its buffer and refuses a line that is too long before it copies it.  How
the bytes were cut into chunks on the way makes no difference.
-/

namespace JeryuForge.Gateway

open List Records

def maxLineBytes : Nat :=
  256 * 1024

def maxChunkBytes : Nat :=
  32 * 1024

def maxTransportChunk : Nat :=
  1024 * 1024

inductive NodeLine where
  | gatewayOpen (requestId provider method path : String) (headers : List Header)
      (authorization : Option String) (capability : Capability)
  | requestBody (requestId : String) (seq : UInt64) (bytesB64 : String)
  | requestEnd (requestId : String) (seqEnd : UInt64)
deriving DecidableEq

def NodeLine.requestId : NodeLine → String
  | .gatewayOpen requestId .. => requestId
  | .requestBody requestId .. => requestId
  | .requestEnd requestId _ => requestId

def isAsciiAlphanumeric (char : Char) : Bool :=
  ('0' ≤ char && char ≤ '9') || ('a' ≤ char && char ≤ 'z') || ('A' ≤ char && char ≤ 'Z')

/-- 1 to 128 letters, digits, dots, underscores, colons, slashes and hyphens, with a letter or a
digit at both ends. -/
def validId (value : String) : Bool :=
  value.toList ≠ [] && value.utf8ByteSize ≤ 128 && value.toList.head?.any isAsciiAlphanumeric &&
    value.toList.getLast?.any isAsciiAlphanumeric &&
    value.toList.all fun char => isAsciiAlphanumeric char || ['.', '_', ':', '/', '-'].contains char

abbrev Deserialize := List UInt8 → Option NodeLine

def parseNodeLine (deserialize : Deserialize) (line : List UInt8) : Except RelayError NodeLine :=
  if maxLineBytes < line.length then .error .relayStreamInvalid
  else
    match deserialize line with
    | none => .error .relayStreamInvalid
    | some parsed =>
      if validId parsed.requestId then .ok parsed else .error .relayStreamInvalid

/-- What the transport gives next: bytes, an error, or nothing for as long as a request may be
idle. -/
inductive Item where
  | chunk (bytes : List UInt8)
  | failed
  | idle
deriving DecidableEq

structure LineReader where
  input : List Item
  buffer : List UInt8
  pending : List UInt8
deriving DecidableEq

namespace LineReader

def new (input : List Item) : LineReader :=
  { input := input, buffer := [], pending := [] }

def newline : UInt8 :=
  10

/-- The pending bytes up to the next newline join the buffer, unless that makes it too long; and
whether there was a newline. -/
def fill (reader : LineReader) : Option (Bool × LineReader) :=
  let found := reader.pending.findIdx? fun byte => byte = newline
  let take := found.elim reader.pending.length (· + 1)
  if maxLineBytes + 1 < reader.buffer.length + take then none
  else
    some (found.isSome,
      { reader with
        buffer := reader.buffer ++ reader.pending.take take
        pending := reader.pending.drop take })

inductive Turn where
  | again (reader : LineReader)
  | done (answer : Except RelayError NodeLine) (reader : LineReader)

def receive (reader : LineReader) : Turn :=
  match reader.input with
  | [] => .done (.error .relayStreamInvalid) reader
  | .failed :: input => .done (.error .relayStreamInvalid) { reader with input := input }
  | .idle :: input => .done (.error .relayIdleTimeout) { reader with input := input }
  | .chunk bytes :: input =>
    if bytes.length ≤ maxTransportChunk then
      .again { reader with input := input, pending := bytes }
    else
      .done (.error .relayStreamInvalid) { reader with input := input }

def turn (deserialize : Deserialize) (reader : LineReader) : Turn :=
  match reader.fill with
  | none => .done (.error .relayStreamInvalid) reader
  | some (true, filled) =>
    .done (parseNodeLine deserialize filled.buffer.dropLast) { filled with buffer := [] }
  | some (false, filled) => filled.receive

def loop (deserialize : Deserialize) :
    Nat → LineReader → Except RelayError NodeLine × LineReader
  | 0, reader => (.error .relayStreamInvalid, reader)
  | fuel + 1, reader =>
    match reader.turn deserialize with
    | .again next => loop deserialize fuel next
    | .done answer next => (answer, next)

def nextLine (deserialize : Deserialize) (reader : LineReader) :
    Except RelayError NodeLine × LineReader :=
  loop deserialize (reader.input.length + 1) reader

def nextAnswer (deserialize : Deserialize) (reader : LineReader) :
    Records.Answer NodeLine RelayError × LineReader :=
  match reader.nextLine deserialize with
  | (.ok line, next) => (.item line, next)
  | (.error error, next) => (.failed error, next)

/-- The states in which the buffer is looked at, from a reader on. -/
inductive Occurs (deserialize : Deserialize) (first : LineReader) : LineReader → Prop where
  | first : Occurs deserialize first first
  | filled {reader filled : LineReader} {found : Bool} : Occurs deserialize first reader →
      reader.fill = some (found, filled) → Occurs deserialize first filled
  | again {reader next : LineReader} : Occurs deserialize first reader →
      reader.turn deserialize = .again next → Occurs deserialize first next
  | done {reader next : LineReader} {answer : Except RelayError NodeLine} :
      Occurs deserialize first reader → reader.turn deserialize = .done answer next →
      Occurs deserialize first next

section Turn

variable {deserialize : Deserialize} {reader next filled : LineReader}

variable {found : Bool} {line : NodeLine}

theorem fill_buffer_le (hfill : reader.fill = some (found, filled)) :
    filled.buffer.length ≤ maxLineBytes + 1 := by
  unfold fill at hfill
  simp only at hfill
  split at hfill
  · cases hfill
  next hlength =>
    cases hfill
    rw [length_append, length_take]
    omega

theorem receive_again (hreceive : reader.receive = .again next) :
    next.buffer = reader.buffer ∧ ∃ bytes, reader.input = .chunk bytes :: next.input ∧
      next.pending = bytes := by
  unfold receive at hreceive
  split at hreceive
  · cases hreceive
  · cases hreceive
  · cases hreceive
  next bytes input hinput =>
    split at hreceive
    · cases hreceive
      exact ⟨rfl, bytes, hinput, rfl⟩
    · cases hreceive

theorem receive_done {answer : Except RelayError NodeLine}
    (hreceive : reader.receive = .done answer next) : next.buffer = reader.buffer := by
  unfold receive at hreceive
  split at hreceive
  · cases hreceive
    rfl
  · cases hreceive
    rfl
  · cases hreceive
    rfl
  · split at hreceive
    · cases hreceive
    · cases hreceive
      rfl

theorem fill_input (hfill : reader.fill = some (found, filled)) : filled.input = reader.input := by
  unfold fill at hfill
  simp only at hfill
  split at hfill
  · cases hfill
  · cases hfill
    rfl

theorem turn_again (hturn : reader.turn deserialize = .again next) :
    ∃ filled, reader.fill = some (false, filled) ∧ filled.receive = .again next := by
  unfold turn at hturn
  split at hturn
  · cases hturn
  · cases hturn
  next filled hfill =>
    exact ⟨filled, hfill, hturn⟩

theorem turn_buffer_le {answer : Except RelayError NodeLine}
    (hbuffer : reader.buffer.length ≤ maxLineBytes + 1)
    (hturn : reader.turn deserialize = .again next ∨ reader.turn deserialize = .done answer next) :
    next.buffer.length ≤ maxLineBytes + 1 := by
  rcases hturn with hturn | hturn
  · obtain ⟨filled, hfill, hreceive⟩ := turn_again hturn
    rw [(receive_again hreceive).1]
    exact fill_buffer_le hfill
  · unfold turn at hturn
    split at hturn
    · cases hturn
      exact hbuffer
    · cases hturn
      exact Nat.zero_le _
    next filled hfill =>
      rw [receive_done hturn]
      exact fill_buffer_le hfill

theorem buffer_le_of_occurs {first : LineReader} (hfirst : first.buffer = [])
    (h : Occurs deserialize first reader) : reader.buffer.length ≤ maxLineBytes + 1 := by
  induction h with
  | first =>
    rw [hfirst]
    exact Nat.zero_le _
  | filled _ hfill _ => exact fill_buffer_le hfill
  | again _ hturn ih => exact @turn_buffer_le _ _ _ (.error .relayIdleTimeout) ih (.inl hturn)
  | done _ hturn ih => exact turn_buffer_le ih (.inr hturn)

theorem nextLine_eq (deserialize : Deserialize) (reader : LineReader) :
    reader.nextLine deserialize =
      match reader.turn deserialize with
      | .again next => next.nextLine deserialize
      | .done answer next => (answer, next) := by
  unfold nextLine
  rw [loop]
  cases hturn : reader.turn deserialize with
  | done answer next => rfl
  | again next =>
    obtain ⟨filled, hfill, hreceive⟩ := turn_again hturn
    obtain ⟨_, bytes, hinput, _⟩ := receive_again hreceive
    rw [fill_input hfill] at hinput
    rw [hinput, length_cons]

theorem validId_of_parse {bytes : List UInt8}
    (hline : parseNodeLine deserialize bytes = .ok line) : validId line.requestId = true := by
  unfold parseNodeLine at hline
  split at hline
  · cases hline
  · split at hline
    · cases hline
    · split at hline
      next hvalid =>
        cases hline
        exact hvalid
      · cases hline

theorem validId_of_loop {fuel : Nat}
    (hline : (loop deserialize fuel reader).1 = .ok line) : validId line.requestId = true := by
  induction fuel generalizing reader with
  | zero => cases hline
  | succ fuel ih =>
    rw [loop] at hline
    split at hline
    · exact ih hline
    next answer next hturn =>
      unfold turn at hturn
      split at hturn
      · cases hturn
        cases hline
      · cases hturn
        exact validId_of_parse hline
      next filled hfill =>
        unfold receive at hturn
        split at hturn
        · cases hturn
          cases hline
        · cases hturn
          cases hline
        · cases hturn
          cases hline
        · split at hturn
          · cases hturn
          · cases hturn
            cases hline

end Turn

/-! ## What is read from the bytes that are left -/

def bytesOfItems (input : List Item) : List UInt8 :=
  input.flatMap fun
    | .chunk bytes => bytes
    | _ => []

def unread (reader : LineReader) : List UInt8 :=
  reader.buffer ++ (reader.pending ++ bytesOfItems reader.input)

structure Fed (reader : LineReader) : Prop where
  chunks : ∀ item ∈ reader.input, ∃ bytes, item = .chunk bytes ∧ bytes.length ≤ maxTransportChunk
  line : newline ∉ reader.buffer

variable {before after : List UInt8} {reader : LineReader}

theorem findIdx?_newline (hbefore : newline ∉ before) :
    ((before ++ newline :: after).findIdx? fun byte => byte = newline) = some before.length := by
  rw [findIdx?_append]
  have hnone : (before.findIdx? fun byte => byte = newline) = none := by
    rw [findIdx?_eq_none_iff]
    intro byte hbyte
    simp only [decide_eq_false_iff_not]
    rintro rfl
    exact hbefore hbyte
  rw [hnone]
  simp [findIdx?_cons]

theorem fill_line (hbefore : newline ∉ before)
    (hpending : reader.pending = before ++ newline :: after) :
    reader.fill =
      if maxLineBytes < (reader.buffer ++ before).length then none
      else
        some (true, { reader with
          buffer := reader.buffer ++ before ++ [newline], pending := after }) := by
  unfold fill
  simp only [hpending, findIdx?_newline hbefore, Option.elim_some, length_append]
  have hlength : (maxLineBytes + 1 < reader.buffer.length + (before.length + 1)) ↔
      maxLineBytes < reader.buffer.length + before.length := by
    omega
  simp only [hlength]
  split
  · rfl
  · have htake : (before ++ newline :: after).take (before.length + 1) = before ++ [newline] := by
      simp [take_append]
    have hdrop : (before ++ newline :: after).drop (before.length + 1) = after := by
      simp [drop_append]
    rw [htake, hdrop]
    simp

theorem fill_part (hpending : newline ∉ reader.pending) :
    reader.fill =
      if maxLineBytes + 1 < (reader.buffer ++ reader.pending).length then none
      else
        some (false, { reader with buffer := reader.buffer ++ reader.pending, pending := [] }) := by
  have hnone : (reader.pending.findIdx? fun byte => byte = newline) = none := by
    rw [findIdx?_eq_none_iff]
    intro byte hbyte
    simp only [decide_eq_false_iff_not]
    rintro rfl
    exact hpending hbyte
  unfold fill
  simp [hnone]

section Fed

variable {deserialize : Deserialize} {reader : LineReader}

variable {line before : List UInt8} {error : RelayError}

theorem parseNodeLine_long (hlong : maxLineBytes < line.length) :
    parseNodeLine deserialize line = .error .relayStreamInvalid :=
  if_pos hlong

theorem Fed.newline_notMem (hfed : reader.Fed) (hbefore : newline ∉ before) :
    newline ∉ reader.buffer ++ before := by
  intro hmem
  rcases mem_append.mp hmem with hmem | hmem
  · exact hfed.line hmem
  · exact hbefore hmem

theorem Fed.nextLine_part (hfed : reader.Fed) (hpending : newline ∉ reader.pending) :
    ((maxLineBytes + 1 < (reader.buffer ++ reader.pending).length ∨ reader.input = []) ∧
        (reader.nextLine deserialize).1 = .error .relayStreamInvalid) ∨
      ∃ next : LineReader, next.Fed ∧ next.unread = reader.unread ∧
        next.input.length < reader.input.length ∧
        reader.nextLine deserialize = next.nextLine deserialize := by
  have hturn : reader.turn deserialize =
      if maxLineBytes + 1 < (reader.buffer ++ reader.pending).length then
        .done (.error .relayStreamInvalid) reader
      else
        receive { reader with buffer := reader.buffer ++ reader.pending, pending := [] } := by
    rw [turn, fill_part hpending]
    split <;> rename_i hfill <;> split at hfill <;> cases hfill <;> simp_all
  by_cases hlong : maxLineBytes + 1 < (reader.buffer ++ reader.pending).length
  · left
    rw [nextLine_eq, hturn, if_pos hlong]
    exact ⟨.inl hlong, rfl⟩
  · rw [if_neg hlong] at hturn
    cases hinput : reader.input with
    | nil =>
      left
      rw [nextLine_eq, hturn, receive]
      simp only [hinput]
      exact ⟨.inr trivial, trivial⟩
    | cons item input =>
      obtain ⟨bytes, rfl, hsize⟩ := hfed.chunks item (by rw [hinput]; exact mem_cons_self)
      right
      refine ⟨⟨input, reader.buffer ++ reader.pending, bytes⟩, ⟨?_, ?_⟩, ?_, ?_, ?_⟩
      · intro other hother
        exact hfed.chunks other (by rw [hinput]; exact mem_cons_of_mem _ hother)
      · exact hfed.newline_notMem hpending
      · simp [unread, hinput, bytesOfItems]
      · exact Nat.lt_succ_self _
      · rw [nextLine_eq deserialize reader, hturn, receive]
        simp only [hinput, if_pos hsize]

theorem Fed.nextLine_pending (hfed : reader.Fed) {before after : List UInt8}
    (hbefore : newline ∉ before) (hpending : reader.pending = before ++ newline :: after) :
    (reader.nextLine deserialize).1 = parseNodeLine deserialize (reader.buffer ++ before) ∧
      ∀ parsed, (reader.nextLine deserialize).1 = .ok parsed →
        (reader.nextLine deserialize).2.Fed ∧
          (reader.nextLine deserialize).2.unread = after ++ bytesOfItems reader.input := by
  rw [nextLine_eq, turn, fill_line hbefore hpending]
  by_cases hlong : maxLineBytes < (reader.buffer ++ before).length
  · rw [if_pos hlong, parseNodeLine_long hlong]
    exact ⟨rfl, nofun⟩
  · rw [if_neg hlong]
    simp only [dropLast_concat]
    exact ⟨trivial, fun parsed _ => ⟨⟨hfed.chunks, by simp⟩, rfl⟩⟩

theorem Fed.nextLine_record (hfed : reader.Fed) {line rest : List UInt8} (hline : newline ∉ line)
    (hunread : reader.unread = line ++ newline :: rest) :
    (reader.nextLine deserialize).1 = parseNodeLine deserialize line ∧
      ∀ parsed, (reader.nextLine deserialize).1 = .ok parsed →
        (reader.nextLine deserialize).2.Fed ∧ (reader.nextLine deserialize).2.unread = rest := by
  -- over the number of chunks that are left: a turn without a newline takes one
  induction hchunks : reader.input.length using Nat.strongRecOn generalizing reader with
  | ind chunks ih =>
    by_cases hpending : newline ∈ reader.pending
    · obtain ⟨before, after, hsplit, hbefore⟩ := eq_append_cons_of_mem hpending
      have hcut : (reader.buffer ++ before) ++ newline :: (after ++ bytesOfItems reader.input) =
          line ++ newline :: rest := by
        rw [← hunread, unread, hsplit]
        simp
      obtain ⟨rfl, rfl⟩ :=
        record_unique (hfed.newline_notMem hbefore) hline hcut
      exact hfed.nextLine_pending hbefore hsplit
    · have hcut : (reader.buffer ++ reader.pending) ++ bytesOfItems reader.input =
          line ++ newline :: rest := by
        rw [← hunread, unread, append_assoc]
      have hstart := hfed.newline_notMem hpending
      rcases Fed.nextLine_part hfed hpending with ⟨hend, herror⟩ | hnext
      · have hlong : maxLineBytes < line.length := by
          rcases hend with hlong | hinput
          · exact Nat.lt_of_lt_of_le (by omega) (length_le_record hstart hcut)
          · -- then the newline of the line is nowhere
            rw [hinput] at hcut
            exact absurd (hcut ▸ mem_append_right _ mem_cons_self)
              (by simpa [bytesOfItems] using hstart)
        rw [herror, parseNodeLine_long hlong]
        exact ⟨rfl, nofun⟩
      · obtain ⟨next, hnextFed, hsame, hfewer, heq⟩ := hnext
        rw [heq]
        exact ih next.input.length (hchunks ▸ hfewer) hnextFed (hsame.trans hunread) rfl

theorem Fed.nextLine_none (hfed : reader.Fed) (hunread : newline ∉ reader.unread) :
    (reader.nextLine deserialize).1 = .error .relayStreamInvalid := by
  induction hchunks : reader.input.length using Nat.strongRecOn generalizing reader with
  | ind chunks ih =>
    have hpending : newline ∉ reader.pending := fun hmem =>
      hunread (mem_append_right _ (mem_append_left _ hmem))
    rcases Fed.nextLine_part hfed hpending with ⟨-, herror⟩ | hnext
    · exact herror
    · obtain ⟨next, hnextFed, hsame, hfewer, heq⟩ := hnext
      rw [heq]
      exact ih next.input.length (hchunks ▸ hfewer) hnextFed (hsame ▸ hunread) rfl

theorem parseNodeLine_error
    (hparse : parseNodeLine deserialize line = .error error) : error = .relayStreamInvalid := by
  unfold parseNodeLine at hparse
  split at hparse
  · cases hparse
    rfl
  · split at hparse
    · cases hparse
      rfl
    · split at hparse
      · cases hparse
      · cases hparse
        rfl

theorem nextAnswer_of_error (herror : (reader.nextLine deserialize).1 = .error error) :
    (reader.nextAnswer deserialize).1 = .failed error := by
  unfold nextAnswer
  split
  next hline =>
    rw [hline] at herror
    cases herror
  next hline =>
    rw [hline] at herror
    cases herror
    rfl

theorem nextAnswer_of_ok {line : NodeLine} (hok : (reader.nextLine deserialize).1 = .ok line) :
    reader.nextAnswer deserialize = (.item line, (reader.nextLine deserialize).2) := by
  unfold nextAnswer
  split
  next hline =>
    rw [hline] at hok
    cases hok
    rw [hline]
  next hline =>
    rw [hline] at hok
    cases hok

theorem nextLine_of_answer {answer : Records.Answer NodeLine RelayError}
    (hanswer : (reader.nextAnswer deserialize).1 = answer) :
    (∃ line, answer = .item line ∧
        reader.nextLine deserialize = (.ok line, (reader.nextAnswer deserialize).2)) ∨
      ∃ error next, answer = .failed error ∧
        reader.nextLine deserialize = (.error error, next) := by
  unfold nextAnswer at hanswer ⊢
  split at hanswer
  next line next hline =>
    left
    exact ⟨line, hanswer.symm, by simp only [hline]⟩
  next error next hline =>
    right
    exact ⟨error, next, hanswer.symm, hline⟩

def linesOf (deserialize : Deserialize) (stream : List UInt8) : List NodeLine :=
  accepted ((all newline stream).map (parseNodeLine deserialize))

theorem Fed.drains (hfed : reader.Fed) :
    Records.Drains (nextAnswer deserialize) reader (linesOf deserialize reader.unread)
      (some .relayStreamInvalid) := by
  induction hlength : reader.unread.length using Nat.strongRecOn generalizing reader with
  | ind length ih =>
    by_cases hmem : newline ∈ reader.unread
    · obtain ⟨line, rest, hsplit, hline⟩ := eq_append_cons_of_mem hmem
      obtain ⟨hanswer, hnext⟩ := Fed.nextLine_record hfed hline hsplit
      have hlines : linesOf deserialize reader.unread =
          accepted (parseNodeLine deserialize line ::
            (all newline rest).map (parseNodeLine deserialize)) := by
        rw [linesOf, hsplit, all_append hline, map_cons]
      rw [hlines]
      cases hparse : parseNodeLine deserialize line with
      | error error =>
        rw [hparse] at hanswer
        rw [parseNodeLine_error hparse] at hanswer
        exact .failed (nextAnswer_of_error hanswer)
      | ok parsed =>
        rw [hparse] at hanswer
        obtain ⟨hnextFed, hunread⟩ := hnext parsed hanswer
        have hstep := nextAnswer_of_ok hanswer
        have hshorter : (reader.nextLine deserialize).2.unread.length < length := by
          rw [hunread, ← hlength, hsplit, length_append, length_cons]
          omega
        have hrest := ih _ hshorter hnextFed rfl
        rw [hunread] at hrest
        refine .item (by rw [hstep]) ?_
        rw [hstep]
        exact hrest
    · have hlines : linesOf deserialize reader.unread = [] := by
        rw [linesOf, all_eq_nil hmem]
        rfl
      rw [hlines]
      exact .failed (nextAnswer_of_error (hfed.nextLine_none hmem))

end Fed

def toTake (reader : LineReader) : Nat :=
  reader.pending.length + (bytesOfItems reader.input).length

theorem fill_toTake {reader filled : LineReader} {found : Bool}
    (hfill : reader.fill = some (found, filled)) :
    filled.toTake ≤ reader.toTake ∧ (found = true → filled.toTake < reader.toTake) := by
  by_cases hpending : newline ∈ reader.pending
  · obtain ⟨before, after, hsplit, hbefore⟩ := eq_append_cons_of_mem hpending
    rw [fill_line hbefore hsplit] at hfill
    split at hfill
    · cases hfill
    · cases hfill
      simp only [toTake, hsplit, length_append, length_cons]
      exact ⟨by omega, fun _ => by omega⟩
  · rw [fill_part hpending] at hfill
    split at hfill
    · cases hfill
    · cases hfill
      simp only [toTake, length_nil]
      exact ⟨by omega, nofun⟩

theorem turn_done_ok {deserialize : Deserialize} {reader next : LineReader} {line : NodeLine}
    (hturn : reader.turn deserialize = .done (.ok line) next) : next.toTake < reader.toTake := by
  unfold turn at hturn
  split at hturn
  · cases hturn
  next filled hfill =>
    have hfewer := (fill_toTake hfill).2 rfl
    injection hturn with _ hnext
    subst hnext
    exact hfewer
  next filled hfill =>
    unfold receive at hturn
    split at hturn
    · cases hturn
    · cases hturn
    · cases hturn
    · split at hturn <;> cases hturn

theorem nextLine_toTake {deserialize : Deserialize} {reader : LineReader} {line : NodeLine}
    (hok : (reader.nextLine deserialize).1 = .ok line) :
    (reader.nextLine deserialize).2.toTake < reader.toTake := by
  induction hchunks : reader.input.length using Nat.strongRecOn generalizing reader with
  | ind chunks ih =>
    rw [nextLine_eq] at hok ⊢
    cases hturn : reader.turn deserialize with
    | done answer next =>
      simp only [hturn] at hok ⊢
      rw [hok] at hturn
      exact turn_done_ok hturn
    | again next =>
      simp only [hturn] at hok ⊢
      obtain ⟨filled, hfill, hreceive⟩ := turn_again hturn
      obtain ⟨_, bytes, hinput, hpending⟩ := receive_again hreceive
      have hfewer : next.input.length < chunks := by
        rw [← hchunks, ← fill_input hfill, hinput]
        exact Nat.lt_succ_self _
      have hsize : next.toTake ≤ filled.toTake := by
        simp only [toTake, hpending, hinput, bytesOfItems, flatMap_cons, length_append]
        omega
      have hless := ih _ hfewer hok rfl
      have hfilled := (fill_toTake hfill).1
      omega

theorem exists_drains (deserialize : Deserialize) (reader : LineReader) :
    ∃ lines error, Records.Drains (nextAnswer deserialize) reader lines (some error) := by
  induction hsize : reader.toTake using Nat.strongRecOn generalizing reader with
  | ind size ih =>
    cases hline : (reader.nextLine deserialize).1 with
    | error error => exact ⟨[], error, .failed (nextAnswer_of_error hline)⟩
    | ok line =>
      have hstep := nextAnswer_of_ok hline
      obtain ⟨lines, error, hlines⟩ := ih _ (hsize ▸ nextLine_toTake hline) _ rfl
      refine ⟨line :: lines, error, .item (by rw [hstep]) ?_⟩
      rw [hstep]
      exact hlines

theorem fed_new {chunks : List (List UInt8)}
    (hchunks : ∀ bytes ∈ chunks, bytes.length ≤ maxTransportChunk) :
    (LineReader.new (chunks.map .chunk)).Fed where
  chunks item hitem := by
    obtain ⟨bytes, hmem, rfl⟩ := mem_map.mp hitem
    exact ⟨bytes, rfl, hchunks bytes hmem⟩
  line := by simp [LineReader.new]

end LineReader

/-- However a stream is cut into chunks, the reader gives the parsed newline-ended pieces of the
stream up to the first that is too long or cannot be parsed, and then the same error; its buffer
never holds more than a line of the largest size and its newline. -/
theorem lineReader_chunks (deserialize : Deserialize) (chunks : List (List UInt8))
    (hchunks : ∀ bytes ∈ chunks, bytes.length ≤ maxTransportChunk) :
    (∀ lines outcome,
      Records.Drains (LineReader.nextAnswer deserialize) (LineReader.new (chunks.map .chunk)) lines
          outcome ↔
        lines = LineReader.linesOf deserialize chunks.flatten ∧
          outcome = some .relayStreamInvalid) ∧
      ∀ reader, LineReader.Occurs deserialize (LineReader.new (chunks.map .chunk)) reader →
        reader.buffer.length ≤ maxLineBytes + 1 := by
  have hdrains := @LineReader.Fed.drains deserialize _ (LineReader.fed_new hchunks)
  rw [show (LineReader.new (chunks.map .chunk)).unread = chunks.flatten by
    simp [LineReader.new, LineReader.unread, LineReader.bytesOfItems, flatMap_def,
      Function.comp_def]]
    at hdrains
  refine ⟨fun lines outcome => ⟨fun h => h.unique hdrains, ?_⟩, fun reader hoccurs => ?_⟩
  · rintro ⟨rfl, rfl⟩
    exact hdrains
  · exact LineReader.buffer_le_of_occurs rfl hoccurs

def endLine : List UInt8 :=
  bytesOf "\x7b\"type\":\"request-end\",\"request_id\":\"r-1\",\"seq_end\":0\x7d".toList

def readEndLine : Deserialize := fun line =>
  if line = endLine then some (.requestEnd "r-1" 0) else none

/-- A piece behind the last newline is no line, also if it could be parsed. -/
theorem lineReader_unended :
    endLine.splitOn LineReader.newline = [endLine] ∧ endLine.length ≤ maxLineBytes ∧
      parseNodeLine readEndLine endLine = .ok (.requestEnd "r-1" 0) ∧
      Records.Drains (LineReader.nextAnswer readEndLine) (LineReader.new [.chunk endLine]) []
        (some .relayStreamInvalid) := by
  refine ⟨by decide +kernel, by decide +kernel, by decide +kernel, .failed ?_⟩
  exact LineReader.nextAnswer_of_error (by decide +kernel)

theorem lineReader_chunks_two :
    Records.Drains (LineReader.nextAnswer readEndLine)
      (LineReader.new ([endLine.take 7, [], endLine.drop 7 ++ [10], endLine].map .chunk))
      [.requestEnd "r-1" 0] (some .relayStreamInvalid) := by
  refine ((lineReader_chunks readEndLine
    [endLine.take 7, [], endLine.drop 7 ++ [10], endLine] (by decide +kernel)).1 _ _).mpr
    ⟨by decide +kernel, rfl⟩

end JeryuForge.Gateway
