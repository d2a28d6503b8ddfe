import JeryuForge.Library.PktLine
import JeryuForge.Library.Records
import JeryuForge.Text

/-!
# Lines for the person who pushes

The answer to a push is a pkt-line stream.  With `side-band-64k` its packets carry a band: 1 is
the report the client acts on, 2 what it prints.  `append_sideband` adds packets of band 2 in
front of the flush at the end, which it looks for among the bytes.
-/

namespace JeryuForge.GitTransport

open PktLine Records

def flushPkt : List UInt8 :=
  [48, 48, 48, 48]

def sidebandProgress : Char :=
  Char.ofNat 2

def asBytes (text : List Char) : List UInt8 :=
  text.flatMap String.utf8EncodeChar

/-- `filter(|ch| !ch.is_control()).take(4000)`. -/
def shown (line : List Char) : List Char :=
  (line.filter fun char => !Text.isControl char).take 4000

def progressPayload (line : List Char) : List UInt8 :=
  asBytes (sidebandProgress :: (shown line ++ ['\n']))

structure Response where
  status : Nat
  contentType : String
  extraHeaders : List (String × String)
  body : List UInt8
deriving DecidableEq

def appendSideband (response : Response) (lines : List (List Char)) : Response :=
  if lines = [] then response
  else if flushPkt <:+ response.body then
    { response with
      body := response.body.take (response.body.length - flushPkt.length) ++
        lines.flatMap (fun line => pktLine (progressPayload line)) ++ flushPkt }
  else response

theorem length_asBytes_le (text : List Char) : (asBytes text).length ≤ 4 * text.length := by
  induction text with
  | nil => simp [asBytes]
  | cons char text ih =>
    have hchar := char.utf8Size_le_four
    simp only [asBytes, List.flatMap_cons, List.length_append, String.length_utf8EncodeChar,
      List.length_cons] at ih ⊢
    omega

theorem length_progressPayload_le (line : List Char) : (progressPayload line).length ≤ 65516 := by
  have hbytes := length_asBytes_le (sidebandProgress :: (shown line ++ ['\n']))
  have hshown : (shown line).length ≤ 4000 := List.length_take_le _ _
  simp only [List.length_cons, List.length_append, List.length_nil] at hbytes
  unfold progressPayload
  omega

def progressPacket (line : List Char) : Packet :=
  .data (progressPayload line) (length_progressPayload_le line)

theorem stream_progress (lines : List (List Char)) :
    stream (lines.map progressPacket) =
      lines.flatMap fun line => pktLine (progressPayload line) := by
  rw [stream, List.flatMap_map]
  rfl

/-- The lines stand in front of the flush that ends the stream; a stream that does not end in a
flush is left as it is. -/
structure Appended (response : Response) (packets : List Packet) (lines : List (List Char)) :
    Prop where
  flush : ∀ {earlier}, packets = earlier ++ [.flush] → appendSideband response lines =
    { response with body := stream (earlier ++ lines.map progressPacket ++ [.flush]) }
  other : packets.getLast? ≠ some .flush → appendSideband response lines = response

/-- The answer is as it should be if and only if its stream ends in a flush, or its bytes do not
end as if it did. -/
theorem appended_iff {response : Response} {packets : List Packet} {lines : List (List Char)}
    (hbody : response.body = stream packets) (hlines : lines ≠ []) :
    Appended response packets lines ↔
      packets.getLast? = some .flush ∨ ¬ flushPkt <:+ response.body := by
  have hflush : stream [.flush] = flushPkt := by decide
  constructor
  · intro happended
    by_contra hnot
    obtain ⟨hlast, hends⟩ := not_or.mp hnot
    have hends := not_not.mp hends
    -- the answer is longer by the packets of the lines
    have hlength := congrArg (fun answer => answer.body.length) (happended.other hlast)
    obtain ⟨line, rest, rfl⟩ := List.exists_cons_of_ne_nil hlines
    simp only [appendSideband, if_neg hlines, if_pos hends, List.length_append, List.flatMap_cons,
      pktLine, List.length_take] at hlength
    have hdigits := length_hex4 ((progressPayload line).length + 4)
      (by have := length_progressPayload_le line; omega)
    omega
  · intro hends
    refine ⟨fun {earlier} hpackets => ?_, fun hlast => ?_⟩
    · have hsplit : response.body = stream earlier ++ flushPkt := by
        rw [hbody, hpackets, stream_append, hflush]
      have hsuffix : flushPkt <:+ response.body := ⟨_, hsplit.symm⟩
      rw [appendSideband, if_neg hlines, if_pos hsuffix, stream_append, stream_append,
        stream_progress, hflush, hsplit]
      simp
    · rw [appendSideband, if_neg hlines, if_neg (hends.resolve_left hlast)]

def zeros : Packet :=
  .data [97, 48, 48, 48, 48] (by decide)

def answerOf (packets : List Packet) : Response :=
  { status := 200, contentType := "application/x-git-receive-pack-result", extraHeaders := []
    body := stream packets }

/-- A payload that ends like a flush is cut, and its packet takes in the next one's digits. -/
theorem zeros_cut :
    (appendSideband (answerOf [zeros]) [['x']]).body = "0009a0007\x02x\n0000".toUTF8.toList ∧
      ¬ Appended (answerOf [zeros]) [zeros] [['x']] :=
  ⟨by decide +kernel, fun happended =>
    absurd (happended.other nofun) (by decide +kernel)⟩

theorem appended_iff_flushed : Appended (answerOf [zeros, .flush]) [zeros, .flush] [['x']] :=
  (appended_iff rfl (by decide)).mpr (.inl rfl)

/-- The start of a text that fits a number of bytes, up to a character boundary. -/
def cut : Nat → List Char → List Char
  | _, [] => []
  | budget, char :: rest =>
    if char.utf8Size ≤ budget then char :: cut (budget - char.utf8Size) rest else []

def unpackLine : List Char :=
  "unpack branch policy refused before unpacking\n".toList

section Refusal

variable (blockedRef message refName : List Char)

def ngStart : List Char :=
  "ng ".toList ++ refName ++ [' ']

def wholeReason : List Char :=
  if refName = blockedRef then shown message
  else "batch not updated because ".toList ++ blockedRef ++
    " was refused; retry this ref separately".toList

def reason : List Char :=
  cut (65516 - ((asBytes (ngStart refName)).length + 1)) (wholeReason blockedRef message refName)

def ngLine : List Char :=
  ngStart refName ++ reason blockedRef message refName ++ ['\n']

def progress (commands : List (List Char)) : List (List Char) :=
  shown message :: (commands.take 64).map fun refName =>
    refName ++ ": ".toList ++ reason blockedRef message refName

/-- `receive_pack_refusal`; a command is read for its ref only. -/
def receivePackRefusal (commands : List (List Char)) (sideband : Bool) : Response :=
  let report := pktLine (asBytes unpackLine) ++
    commands.flatMap (fun refName => pktLine (asBytes (ngLine blockedRef message refName))) ++
    flushPkt
  { status := 200, contentType := "application/x-git-receive-pack-result", extraHeaders := []
    body :=
      if sideband then
        ((progress blockedRef message commands).flatMap
          fun line => pktLine (progressPayload line)) ++
          (pieces 60000 report).flatMap (fun chunk => pktLine (1 :: chunk)) ++ flushPkt
      else report }

end Refusal

def bandOne (packet : Packet) : Option (List UInt8) :=
  match packet.payload with
  | 1 :: report => some report
  | _ => none

def Clean (text : List Char) : Prop :=
  ∀ char ∈ text, Text.isControl char = false

instance (text : List Char) : Decidable (Clean text) :=
  inferInstanceAs (Decidable (∀ char ∈ text, Text.isControl char = false))

theorem length_asBytes_append (text more : List Char) :
    (asBytes (text ++ more)).length = (asBytes text).length + (asBytes more).length := by
  simp [asBytes]

theorem cut_spec (budget : Nat) (text : List Char) :
    (asBytes (cut budget text)).length ≤ budget ∧ cut budget text <+: text := by
  induction text generalizing budget with
  | nil => simp [cut, asBytes]
  | cons char rest ih =>
    rw [cut]
    split
    · obtain ⟨hlength, hstart⟩ := ih (budget - char.utf8Size)
      refine ⟨?_, List.cons_prefix_cons.mpr ⟨rfl, hstart⟩⟩
      simp only [asBytes, List.flatMap_cons, List.length_append,
        String.length_utf8EncodeChar] at hlength ⊢
      omega
    · simp [asBytes]

theorem clean_shown (line : List Char) : Clean (shown line) := by
  intro char hchar
  simpa using (List.mem_filter.mp (List.mem_of_mem_take hchar)).2

theorem clean_append {text more : List Char} (htext : Clean text) (hmore : Clean more) :
    Clean (text ++ more) :=
  List.forall_mem_append.mpr ⟨htext, hmore⟩

theorem clean_reason {blockedRef : List Char} (hblocked : Clean blockedRef)
    (message refName : List Char) : Clean (reason blockedRef message refName) := by
  have hwhole : Clean (wholeReason blockedRef message refName) := by
    unfold wholeReason
    split
    · exact clean_shown message
    · exact clean_append (clean_append (by decide) hblocked) (by decide)
  exact fun char hchar => hwhole char ((cut_spec _ _).2.subset hchar)

theorem length_ngLine_le (blockedRef message : List Char) {refName : List Char}
    (hfits : (asBytes (ngStart refName)).length + 1 ≤ 65516) :
    (asBytes (ngLine blockedRef message refName)).length ≤ 65516 := by
  have hreason := (cut_spec (65516 - ((asBytes (ngStart refName)).length + 1))
    (wholeReason blockedRef message refName)).1
  have hnewline : (asBytes ['\n']).length = 1 := by decide
  rw [ngLine, length_asBytes_append, length_asBytes_append, hnewline, reason]
  omega

structure Reported (blockedRef message : List Char) (commands : List (List Char))
    (report side : List Packet) : Prop where
  plain : (receivePackRefusal blockedRef message commands false).body = stream (report ++ [.flush])
  multiplexed :
    (receivePackRefusal blockedRef message commands true).body = stream (side ++ [.flush])
  small : ∀ packet ∈ report ++ side ++ [.flush], packet.bytes.length ≤ 65520
  lines : report.map Packet.payload = asBytes unpackLine ::
    commands.map fun refName => asBytes (ngLine blockedRef message refName)
  oneLine : ∀ refName ∈ commands, ∃ line, ngLine blockedRef message refName = line ++ ['\n'] ∧
    ngStart refName <+: line ∧ Clean line
  bandOne : (side.filterMap bandOne).flatten = stream (report ++ [.flush])

/-- A refused push is answered by a stream with one line for each ref, whatever the message, and
band 1 of the multiplexed answer is that stream. -/
theorem receivePackRefusal_reported (message : List Char) {blockedRef : List Char}
    {commands : List (List Char)} (hblocked : Clean blockedRef)
    (hrefs : ∀ refName ∈ commands, Clean refName ∧
      (asBytes (ngStart refName)).length + 1 ≤ 65516) :
    ∃ report side, Reported blockedRef message commands report side := by
  have hflush : stream [.flush] = flushPkt := by decide
  obtain ⟨report, hlines, hreport⟩ := exists_packets (asBytes unpackLine ::
      commands.map fun refName => asBytes (ngLine blockedRef message refName)) (by
    rw [List.forall_mem_cons, List.forall_mem_map]
    exact ⟨by decide, fun refName hmem => length_ngLine_le _ _ (hrefs refName hmem).2⟩)
  have hplain : (receivePackRefusal blockedRef message commands false).body =
      stream (report ++ [.flush]) := by
    rw [stream_append, hreport, hflush]
    simp [receivePackRefusal, List.flatMap_map]
  obtain ⟨chunks, hchunks, hbytes⟩ := exists_packets
    ((pieces 60000 (stream (report ++ [.flush]))).map (List.cons 1)) (by
    rw [List.forall_mem_map]
    intro chunk hchunk
    have hsize := (bounded_of_mem_pieces (by decide) hchunk).2
    rw [List.length_cons]
    omega)
  refine ⟨report, (progress blockedRef message commands).map progressPacket ++ chunks,
    ⟨hplain, ?_, fun packet _ => length_bytes_le packet, hlines, fun refName hmem => ?_, ?_⟩⟩
  · rw [stream_append, stream_append, stream_progress, hbytes, hflush, ← hplain, List.flatMap_map]
    rfl
  · refine ⟨ngStart refName ++ reason blockedRef message refName, rfl, List.prefix_append _ _,
      clean_append (clean_append (clean_append (by decide) (hrefs refName hmem).1) (by decide))
        (clean_reason hblocked message refName)⟩
  · have hprogress : ((progress blockedRef message commands).map progressPacket).filterMap bandOne =
        [] := by
      rw [List.filterMap_eq_nil_iff, List.forall_mem_map]
      exact fun line _ => rfl
    have hband : chunks.filterMap bandOne =
        pieces 60000 (stream (report ++ [.flush])) := by
      have hpayload : bandOne = (fun payload => match payload with
          | 1 :: report => some report
          | _ => none) ∘ Packet.payload := rfl
      rw [hpayload, ← List.filterMap_map, hchunks, List.filterMap_map]
      exact List.filterMap_some
    rw [List.filterMap_append, hprogress, List.nil_append, hband]
    exact flatten_pieces (by decide) _

theorem receivePackRefusal_reported_two :
    ∃ report side, Reported "refs/heads/a".toList "no\nway".toList
      ["refs/heads/a".toList, "refs/heads/b".toList] report side :=
  receivePackRefusal_reported _ (by decide) (by decide)

end JeryuForge.GitTransport
