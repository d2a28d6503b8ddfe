import Mathlib

/-!
# Pkt-line streams

A stream is a sequence of packets.  A packet that carries a payload starts with its own length
in four hexadecimal digits, and is at most 65520 bytes long; the others are four digits only.
-/

namespace PktLine

/-- Four hexadecimal digits, more if the number needs them. -/
def hex4 (number : Nat) : List UInt8 :=
  ((Nat.toDigits 16 number).leftpad 4 '0').map fun digit => UInt8.ofNat digit.toNat

theorem length_hex4 (number : Nat) (hnumber : number < 65536) : (hex4 number).length = 4 := by
  have hdigits := Nat.toDigits_length 16 number 4 (by decide) hnumber
  simp [hex4, hdigits]

def pktLine (payload : List UInt8) : List UInt8 :=
  hex4 (payload.length + 4) ++ payload

inductive Packet where
  | flush
  | delim
  | responseEnd
  | data (payload : List UInt8) (hfits : payload.length ≤ 65516)

def Packet.bytes : Packet → List UInt8
  | .flush => hex4 0
  | .delim => hex4 1
  | .responseEnd => hex4 2
  | .data payload _ => pktLine payload

def Packet.payload : Packet → List UInt8
  | .data payload _ => payload
  | _ => []

def stream (packets : List Packet) : List UInt8 :=
  packets.flatMap Packet.bytes

theorem stream_append (packets more : List Packet) :
    stream (packets ++ more) = stream packets ++ stream more :=
  List.flatMap_append

theorem length_bytes_le (packet : Packet) : packet.bytes.length ≤ 65520 := by
  cases packet with
  | flush | delim | responseEnd => decide
  | data payload hfits =>
    have hlength := length_hex4 (payload.length + 4) (by omega)
    simp only [Packet.bytes, pktLine, List.length_append]
    omega

/-- Payloads that fit are those of packets. -/
theorem exists_packets (payloads : List (List UInt8))
    (hfits : ∀ payload ∈ payloads, payload.length ≤ 65516) :
    ∃ packets : List Packet, packets.map Packet.payload = payloads ∧
      stream packets = payloads.flatMap pktLine := by
  refine ⟨payloads.attach.map fun payload => .data payload.1 (hfits payload.1 payload.2), ?_, ?_⟩
  · simp [Function.comp_def, Packet.payload]
  · simp [stream, List.flatMap_map, Packet.bytes, List.flatMap_subtype]

end PktLine
