import JeryuForge.Gateway.Lines
import JeryuForge.Library.Base64

/-!
# The lines a node is sent

The answer to a relay request is one JSON object a line: a head, pieces of the body, and an end
or an error.  Every line that a relay can write is far shorter than a line may be.
-/

namespace JeryuForge.Gateway

open List Quoted Nat

/-- The standard engine of the `base64` crate. -/
structure Base64Engine where
  encode : List UInt8 → String
  decode : String → Option (List UInt8)
  decode_encode : ∀ bytes, decode (encode bytes) = some bytes
  length_encode : ∀ bytes, (encode bytes).toList.length = 4 * ((bytes.length + 2) / 3)
  mem_encode : ∀ bytes, ∀ char ∈ (encode bytes).toList, char = '=' ∨ char ∈ Base64.alphabet

def Base64Engine.standard : Base64Engine where
  encode bytes := String.ofList (Base64.encode bytes)
  decode text := Base64.decode text.toList
  decode_encode bytes := by rw [String.toList_ofList, Base64.decode_encode]
  length_encode bytes := by rw [String.toList_ofList, Base64.length_encode]
  mem_encode bytes char hchar := by
    rw [String.toList_ofList] at hchar
    exact Base64.mem_encode hchar

def RelayError.text : RelayError → String
  | .capabilityUnverified => "capability_unverified"
  | .providerUnknown => "provider_unknown"
  | .connectionOwnerMismatch => "connection_owner_mismatch"
  | .providerNotConnected => "provider_not_connected"
  | .connectionGenerationStale => "connection_generation_stale"
  | .providerModeDisabled => "provider_mode_disabled"
  | .providerModeUnqualified => "provider_mode_unqualified"
  | .ramTokenNotPermitted => "ram_token_not_permitted"
  | .guestAuthorizationRejected => "guest_authorization_rejected"
  | .capabilityExpired => "capability_expired"
  | .capabilityAudienceMismatch => "capability_audience_mismatch"
  | .upstreamHostDenied => "upstream_host_denied"
  | .connectionBusy => "connection_busy"
  | .refreshPersistFailed => "refresh_persist_failed"
  | .leaseBindingMismatch => "lease_binding_mismatch"
  | .relayIdleTimeout => "relay_idle_timeout"
  | .relayStreamInvalid => "relay_stream_invalid"

inductive GatewayLine where
  | head (requestId : String) (status : UInt16) (headers : List Header)
  | responseBody (requestId : String) (seq : UInt64) (bytesB64 : String)
  | responseEnd (requestId : String) (seqEnd : UInt64)
  | error (requestId : String) (error : RelayError)
deriving DecidableEq

namespace GatewayLine

def headerValue (header : Header) : Json.Value :=
  .object [("name", .string header.name.toList), ("value", .string header.value.toList)]

def value : GatewayLine → Json.Value
  | .head requestId status headers =>
    .object [("type", .string "head".toList), ("request_id", .string requestId.toList),
      ("status", .int status.toNat), ("headers", .array (headers.map headerValue))]
  | .responseBody requestId seq bytesB64 =>
    .object [("type", .string "response-body".toList), ("request_id", .string requestId.toList),
      ("seq", .int seq.toNat), ("bytes_b64", .string bytesB64.toList)]
  | .responseEnd requestId seqEnd =>
    .object [("type", .string "response-end".toList), ("request_id", .string requestId.toList),
      ("seq_end", .int seqEnd.toNat)]
  | .error requestId reason =>
    .object [("type", .string "error".toList), ("request_id", .string requestId.toList),
      ("error", .string reason.text.toList)]

def toLine (line : GatewayLine) : List UInt8 :=
  bytesOf (Json.Tree.text line.value ++ ['\n'])

end GatewayLine

/-! ## How long a line is -/

def size (text : List Char) : Nat :=
  (bytesOf text).length

theorem size_eq (text : List Char) : size text = (text.map Char.utf8Size).sum := by
  have hlen : String.utf8Len text = (text.map Char.utf8Size).sum := by
    induction text with
    | nil => rfl
    | cons char text ih => simp [ih, add_comm]
  have hbytes : size text = (String.ofList text).utf8ByteSize := rfl
  rw [hbytes, String.utf8ByteSize_ofList, hlen]

@[simp]
theorem size_nil : size [] = 0 := by
  simp [size_eq]

@[simp]
theorem size_append (first second : List Char) :
    size (first ++ second) = size first + size second := by
  simp [size_eq]

theorem size_cons (char : Char) (text : List Char) :
    size (char :: text) = char.utf8Size + size text := by
  simp [size_eq]

theorem size_le_of_all {bound : Nat} {text : List Char} (h : ∀ char ∈ text, char.utf8Size ≤ bound) :
    size text ≤ bound * text.length := by
  induction text with
  | nil => simp
  | cons char text ih =>
    have hchar := h char mem_cons_self
    have htext := ih (forall_mem_cons.mp h).2
    rw [size_cons, length_cons, mul_succ]
    omega

theorem size_toList (text : String) : size text.toList = text.utf8ByteSize := by
  unfold size bytesOf
  rw [String.ofList_toList]
  rfl

theorem utf8Size_of_ascii {char : Char} (h : char.toNat < 127) : char.utf8Size = 1 := by
  rw [Char.utf8Size_eq_one_iff]
  have : char.val.toNat < 127 := h
  exact UInt32.le_iff_toNat_le.mpr (by simpa using le_of_lt this)

theorem size_escapeChar (char : Char) : size (escapeChar char) ≤ 6 * char.utf8Size := by
  have hpos := Char.utf8Size_pos char
  rcases escapeChar_cases char with ⟨hself, _⟩ | hascii
  · rw [hself, size_cons, size_nil]
    omega
  · have hlength : (escapeChar char).length ≤ 6 := by
      unfold escapeChar
      split
      · simp
      · split <;> simp
    have hsize := size_le_of_all fun other hother =>
      (utf8Size_of_ascii (hascii other hother).2).le
    omega

theorem size_quote (text : List Char) : size (quote text) ≤ 6 * size text + 2 := by
  have hescape : size (escape text) ≤ 6 * size text := by
    unfold escape
    induction text with
    | nil => simp
    | cons char text ih =>
      have hchar := size_escapeChar char
      rw [flatMap_cons, size_append, size_cons]
      omega
  have hmark : size ['"'] = 1 := by decide
  have hquote : Quoted.quote text = ['"'] ++ escape text ++ ['"'] := rfl
  rw [hquote, size_append, size_append, hmark]
  omega

theorem size_quote_plain {text : List Char}
    (h : ∀ char ∈ text, Quoted.escapeChar char = [char] ∧ char.utf8Size = 1) :
    size (Quoted.quote text) = text.length + 2 := by
  have hescape : Quoted.escape text = text := by
    unfold Quoted.escape
    induction text with
    | nil => rfl
    | cons char text ih =>
      rw [flatMap_cons, (h char mem_cons_self).1, ih (forall_mem_cons.mp h).2]
      rfl
  have hsize : size text = text.length := by
    rw [size_eq, map_congr_left fun char hchar => (h char hchar).2]
    simp
  have hmark : size ['"'] = 1 := by decide
  have hquote : quote text = ['"'] ++ Quoted.escape text ++ ['"'] := rfl
  rw [hquote, hescape, size_append, size_append, hmark, hsize]
  omega

theorem alphabet_plain : ∀ char ∈ '=' :: Base64.alphabet,
    escapeChar char = [char] ∧ char.utf8Size = 1 := by
  decide

theorem size_quote_encode (engine : Base64Engine) (bytes : List UInt8) :
    size (quote (engine.encode bytes).toList) = 4 * ((bytes.length + 2) / 3) + 2 := by
  rw [size_quote_plain, engine.length_encode]
  intro char hchar
  exact alphabet_plain char (mem_cons.mpr (engine.mem_encode bytes char hchar))

theorem size_renderInt {number digits : Nat} (hpos : 0 < digits) (hnumber : number < 10 ^ digits) :
    size (Json.Compact.renderInt number) ≤ digits := by
  have htext : Json.Compact.renderInt number = toDigits 10 number := by
    unfold Json.Compact.renderInt
    rw [if_neg (by omega), Int.natAbs_natCast]
  have hlength : (toDigits 10 number).length ≤ digits :=
    (length_toDigits_le_iff (by decide) hpos).mpr hnumber
  have hsize := @size_le_of_all 1 (toDigits 10 number) fun char hchar => by
    have hdigit := isDigit_of_mem_toDigits (by decide) (by decide) hchar
    have hsmall : char.toNat < 127 := by
      simp only [Char.isDigit, Bool.and_eq_true, decide_eq_true_eq] at hdigit
      have := UInt32.le_iff_toNat_le.mp hdigit.2
      have hvalue : char.toNat = char.val.toNat := rfl
      have hnine : ('9' : Char).val.toNat = 57 := rfl
      omega
    exact (utf8Size_of_ascii hsmall).le
  rw [htext]
  omega

/-- The lines a relay can write: a short id, at most one short header, and at most a chunk. -/
inductive Writable (engine : Base64Engine) : GatewayLine → Prop where
  | head {requestId : String} {status : UInt16} {headers : List Header}
      (hid : requestId.utf8ByteSize ≤ 128) (hcount : headers.length ≤ 1)
      (hheaders : ∀ header ∈ headers,
        header.name = "content-type" ∧ header.value.utf8ByteSize ≤ 256) :
      Writable engine (.head requestId status headers)
  | responseBody {requestId : String} {seq : UInt64} {bytes : List UInt8}
      (hid : requestId.utf8ByteSize ≤ 128) (hbytes : bytes.length ≤ maxChunkBytes) :
      Writable engine (.responseBody requestId seq (engine.encode bytes))
  | responseEnd {requestId : String} {seqEnd : UInt64} (hid : requestId.utf8ByteSize ≤ 128) :
      Writable engine (.responseEnd requestId seqEnd)
  | error {requestId : String} {reason : RelayError} (hid : requestId.utf8ByteSize ≤ 128) :
      Writable engine (.error requestId reason)

theorem size_string {text : String} {bound : Nat} (htext : text.utf8ByteSize ≤ bound) :
    size (Json.Tree.text (.string text.toList)) ≤ 6 * bound + 2 := by
  have hquote := size_quote text.toList
  rw [size_toList] at hquote
  exact hquote.trans (by omega)

theorem size_fieldText (key : String) (value : List Char) :
    size (Json.Tree.fieldText (key, value)) ≤ 6 * key.utf8ByteSize + 3 + size value := by
  have hkey := size_quote key.toList
  rw [size_toList] at hkey
  have hcolon : (':' : Char).utf8Size = 1 := by decide
  have htext : Json.Tree.fieldText (key, value) = quote key.toList ++ ':' :: value := rfl
  rw [htext, size_append, size_cons, hcolon]
  omega

theorem size_joined (texts : List (List Char)) :
    size (Separated.joined [','] texts) ≤ (texts.map fun text => size text + 1).sum := by
  have hcomma : size [','] = 1 := by decide
  have hrest : ∀ rest : List (List Char), size (rest.flatMap fun text => [','] ++ text) =
      (rest.map fun text => size text + 1).sum := by
    intro rest
    induction rest with
    | nil => rfl
    | cons text rest ih =>
      rw [flatMap_cons, size_append, size_append, hcomma, ih, map_cons, sum_cons]
      omega
  cases texts with
  | nil => simp [Separated.joined]
  | cons text rest =>
    rw [Separated.joined, size_append, hrest, map_cons, sum_cons]
    omega

theorem size_object {fields : Json.Fields} (hkeys : ∀ field ∈ fields, field.1.utf8ByteSize ≤ 10) :
    size (Json.Tree.text (.object fields)) ≤
      (fields.map fun field => 64 + size (Json.Tree.text field.2)).sum + 2 := by
  have hopen : ('{' : Char).utf8Size = 1 := by decide
  have hclose : size ['}'] = 1 := by decide
  rw [Json.Tree.text, Json.Tree.textFields_eq, Json.Tree.objectText, map_map, size_cons,
    size_append, hopen, hclose]
  generalize hwritten : fields.map _ = texts
  have hjoined := size_joined texts
  have hfields : (texts.map fun text => size text + 1).sum ≤
      (fields.map fun field => 64 + size (Json.Tree.text field.2)).sum := by
    rw [← hwritten, map_map]
    refine sum_le_sum fun field hmem => ?_
    have hfield := size_fieldText field.1 (Json.Tree.text field.2)
    have hkey := hkeys field hmem
    simp only [Function.comp_apply]
    omega
  omega

theorem size_headerValue {header : Header} (hname : header.name = "content-type")
    (hvalue : header.value.utf8ByteSize ≤ 256) :
    size (Json.Tree.text (GatewayLine.headerValue header)) ≤ 1800 := by
  have hnameSize : size (Json.Tree.text (.string header.name.toList)) ≤ 6 * 12 + 2 :=
    size_string (by rw [hname]; decide)
  have hvalueSize := size_string hvalue
  refine (size_object (by simp +decide)).trans ?_
  simp only [map_cons, map_nil, sum_cons, sum_nil]
  omega

theorem size_headers {headers : List Header} (hcount : headers.length ≤ 1)
    (hheaders : ∀ header ∈ headers,
      header.name = "content-type" ∧ header.value.utf8ByteSize ≤ 256) :
    size (Json.Tree.text (.array (headers.map GatewayLine.headerValue))) ≤ 1802 := by
  cases headers with
  | nil => decide
  | cons header rest =>
    have hrest : rest = [] := by
      rw [length_cons] at hcount
      exact length_eq_zero_iff.mp (by omega)
    subst hrest
    obtain ⟨hname, hvalue⟩ := hheaders header mem_cons_self
    have hsize := size_headerValue hname hvalue
    have htext : Json.Tree.text (.array ([header].map GatewayLine.headerValue)) =
        '[' :: (Json.Tree.text (GatewayLine.headerValue header) ++ [] ++ [']']) := rfl
    have hopen : ('[' : Char).utf8Size = 1 := by decide
    have hclose : size [']'] = 1 := by decide
    rw [htext, size_cons, size_append, size_append, size_nil, hopen, hclose]
    omega

theorem length_toLine {line : GatewayLine} {fields : Json.Fields}
    (hvalue : line.value = .object fields)
    (hkeys : ∀ field ∈ fields, field.1.utf8ByteSize ≤ 10) :
    line.toLine.length ≤ (fields.map fun field => 64 + size (Json.Tree.text field.2)).sum + 3 := by
  have hnewline : size ['\n'] = 1 := by decide
  have hlength : line.toLine.length = size (Json.Tree.text line.value) + 1 := by
    rw [← hnewline, ← size_append]
    rfl
  rw [hlength, hvalue]
  exact succ_le_succ (size_object hkeys)

theorem length_toLine_le {engine : Base64Engine} {line : GatewayLine}
    (hwritable : Writable engine line) : line.toLine.length ≤ maxLineBytes := by
  have hkind : ∀ kind ∈ ["head", "response-body", "response-end", "error"],
      size (Json.Tree.text (.string kind.toList)) ≤ 15 := by decide
  have hseq : ∀ seq : UInt64, size (Json.Tree.text (.int seq.toNat)) ≤ 20 := fun seq =>
    size_renderInt (by decide) (lt_of_lt_of_le seq.toNat_lt (by decide))
  unfold maxLineBytes
  cases hwritable
  all_goals
    refine (length_toLine rfl (by simp +decide)).trans ?_
    simp only [map_cons, map_nil, sum_cons, sum_nil]
  case head requestId status headers hid hcount hheaders =>
    have hstatus : size (Json.Tree.text (.int status.toNat)) ≤ 5 :=
      size_renderInt (by decide) (lt_of_lt_of_le status.toNat_lt (by decide))
    have hkindSize := hkind "head" (by decide)
    have hidSize := size_string hid
    have hheadersSize := size_headers hcount hheaders
    omega
  case responseBody requestId seq bytes hid hbytes =>
    have hkindSize := hkind "response-body" (by decide)
    have hidSize := size_string hid
    have hseqSize := hseq seq
    have hbytesSize : size (Json.Tree.text (.string (engine.encode bytes).toList)) = _ :=
      size_quote_encode engine bytes
    unfold maxChunkBytes at hbytes
    omega
  case responseEnd requestId seqEnd hid =>
    have hkindSize := hkind "response-end" (by decide)
    have hidSize := size_string hid
    have hseqSize := hseq seqEnd
    omega
  case error requestId reason hid =>
    have hkindSize := hkind "error" (by decide)
    have hidSize := size_string hid
    have hreason : size (Json.Tree.text (.string reason.text.toList)) ≤ 6 * 28 + 2 :=
      size_string (by cases reason <;> decide)
    omega

end JeryuForge.Gateway
