import JeryuForge.Library.Broadcast

/-!
# The terminal output of a run

Every event of a run is numbered, put into a ring that keeps the newest ones, and broadcast.  What
the ring keeps is the end of all that was published.
-/

namespace JeryuForge.AgentRuns

open List Option

def ttyRingCap : Nat :=
  4096

/-- The capacity `new_tty_broadcast` asks for. -/
def ttyBroadcastCap : Nat :=
  1024

/-- An `AgentRunEvent` of terminal output. -/
structure TtyEvent (α : Type) where
  seq : Nat
  content : α
deriving DecidableEq

structure TtyRing (α : Type) where
  events : List (TtyEvent α)
  cap : Nat
  oldestRetainedSeq : Nat
deriving DecidableEq

namespace TtyRing

variable {α : Type}

def withCap (cap : Nat) : TtyRing α :=
  { events := [], cap := max cap 1, oldestRetainedSeq := 0 }

def new : TtyRing α :=
  withCap ttyRingCap

def push (ring : TtyRing α) (event : TtyEvent α) : TtyRing α :=
  let kept := if ring.cap ≤ ring.events.length then ring.events.tail else ring.events
  let events := kept ++ [event]
  { ring with events := events, oldestRetainedSeq := (events.head?.map TtyEvent.seq).getD 0 }

def tail (ring : TtyRing α) (afterSeq limit : Nat) : List (TtyEvent α) :=
  (ring.events.filter fun event => afterSeq < event.seq).take limit

def lagged (ring : TtyRing α) (afterSeq : Nat) : Bool :=
  afterSeq + 1 < ring.oldestRetainedSeq

end TtyRing

inductive AgentRunState where
  | running
  | succeeded
  | failed
  | exported
deriving DecidableEq

/-- A run as far as its output goes.  Each of its events is published once, so the events it keeps
for good are those that were sent. -/
structure Record (α : Type) where
  state : AgentRunState
  sent : List (TtyEvent α)
  ring : TtyRing α
deriving DecidableEq

namespace Record

variable {α : Type}

def new : Record α :=
  { state := .running, sent := [], ring := TtyRing.new }

def nextEvent (record : Record α) (content : α) : TtyEvent α :=
  { seq := record.sent.length + 1, content := content }

/-- `publish_tty`: into the ring and to the broadcast. -/
def appendEvent (record : Record α) (content : α) : Record α :=
  let event := record.nextEvent content
  { record with sent := record.sent ++ [event], ring := record.ring.push event }

/-- `tail_tty` as `tty_stream_start` answers it. -/
structure Replay (α : Type) where
  nextAfterSeq : Nat
  oldestRetainedSeq : Nat
  lagged : Bool
  events : List (TtyEvent α)

def ttyStreamStart (record : Record α) (afterSeq : Nat) : Nat × Replay α :=
  let events := record.ring.tail afterSeq ttyRingCap
  (record.sent.length,
    { nextAfterSeq := (events.getLast?.map TtyEvent.seq).getD afterSeq
      oldestRetainedSeq := record.ring.oldestRetainedSeq
      lagged := record.ring.lagged afterSeq
      events := events })

end Record

structure Keeps {α : Type} (ring : TtyRing α) (sent : List (TtyEvent α)) : Prop where
  positive : 0 < ring.cap
  numbered : sent.map TtyEvent.seq = List.range' 1 sent.length
  kept : ring.events = sent.drop (sent.length - ring.cap)
  oldest : ring.oldestRetainedSeq = if sent = [] then 0 else sent.length - ring.cap + 1

theorem keeps_push {α : Type} {ring : TtyRing α} {sent : List (TtyEvent α)}
    (hkeeps : Keeps ring sent) {event : TtyEvent α} (hseq : event.seq = sent.length + 1) :
    Keeps (ring.push event) (sent ++ [event]) := by
  have hpositive := hkeeps.positive
  have hlength : (sent ++ [event]).length = sent.length + 1 := by simp
  have hring : ring.events.length = min sent.length ring.cap := by
    rw [hkeeps.kept, length_drop]
    omega
  have hkept : (ring.push event).events =
      (sent ++ [event]).drop (sent.length + 1 - ring.cap) := by
    simp only [TtyRing.push, hring]
    by_cases hfull : ring.cap ≤ sent.length
    · have hnext : sent.length - ring.cap + 1 = sent.length + 1 - ring.cap := by omega
      rw [if_pos (by omega), hkeeps.kept, tail_drop, hnext, drop_append_of_le_length (by omega)]
    · have hnone : sent.length - ring.cap = 0 := by omega
      have hnext : sent.length + 1 - ring.cap = 0 := by omega
      rw [if_neg (by omega), hkeeps.kept, hnone, hnext, drop_zero, drop_zero]
  have hnumbered : (sent ++ [event]).map TtyEvent.seq = range' 1 (sent.length + 1) := by
    rw [map_append, hkeeps.numbered, range'_concat]
    simp [hseq, Nat.add_comm]
  refine ⟨hpositive, by rw [hnumbered, hlength], by rw [hkept, hlength]; rfl, ?_⟩
  have holdest : (ring.push event).oldestRetainedSeq =
      ((ring.push event).events.head?.map TtyEvent.seq).getD 0 := rfl
  rw [holdest, hkept, hlength, if_neg (by simp), head?_drop, ← getElem?_map, hnumbered,
    getElem?_range' (by omega)]
  simp only [getD_some, TtyRing.push]
  omega

structure Published {α : Type} (record : Record α) : Prop extends
    Keeps record.ring record.sent where
  cap : record.ring.cap = ttyRingCap

section Published

variable {α : Type} {record : Record α}

theorem published_new : Published (Record.new : Record α) := by
  refine ⟨⟨?_, rfl, ?_, ?_⟩, ?_⟩
  · exact Nat.lt_of_lt_of_le Nat.zero_lt_one (Nat.le_max_right _ _)
  · simp [Record.new, TtyRing.new, TtyRing.withCap]
  · simp [Record.new, TtyRing.new, TtyRing.withCap]
  · exact Nat.max_eq_left (by decide)

section Published

variable (hpublished : Published record)
include hpublished

theorem seq_of_getElem? {index : Nat} {event : TtyEvent α}
    (hevent : record.sent[index]? = some event) : event.seq = index + 1 := by
  obtain ⟨hindex, rfl⟩ := List.getElem?_eq_some_iff.mp hevent
  have hmap : (record.sent.map TtyEvent.seq)[index]? =
      (List.range' 1 record.sent.length)[index]? := by
    rw [hpublished.numbered]
  rw [List.getElem?_map, List.getElem?_eq_getElem hindex, List.getElem?_range' hindex] at hmap
  simp only [map_some, some.injEq] at hmap
  omega

theorem seq_of_mem {event : TtyEvent α} (hmem : event ∈ record.sent) :
    1 ≤ event.seq ∧ event.seq ≤ record.sent.length := by
  obtain ⟨index, hindex⟩ := mem_iff_getElem?.mp hmem
  have hseq := seq_of_getElem? hpublished hindex
  have hbound := (List.getElem?_eq_some_iff.mp hindex).1
  omega

theorem mem_replay (afterSeq : Nat) (event : TtyEvent α) :
    event ∈ (record.ttyStreamStart afterSeq).2.events ↔
      event ∈ record.sent ∧ afterSeq < event.seq ∧ record.sent.length < event.seq + ttyRingCap := by
  have hshort :
      (record.ring.events.filter fun event => afterSeq < event.seq).length ≤ ttyRingCap := by
    have hring : record.ring.events.length ≤ ttyRingCap := by
      rw [hpublished.kept, hpublished.cap, length_drop]
      omega
    exact Nat.le_trans (length_filter_le _ _) hring
  have hevents : (record.ttyStreamStart afterSeq).2.events =
      record.ring.events.filter fun event => afterSeq < event.seq := by
    exact take_of_length_le hshort
  rw [hevents, mem_filter, hpublished.kept, hpublished.cap]
  simp only [decide_eq_true_eq]
  constructor
  · rintro ⟨hmem, hafter⟩
    obtain ⟨index, hindex⟩ := mem_iff_getElem?.mp hmem
    rw [getElem?_drop] at hindex
    have hseq := seq_of_getElem? hpublished hindex
    refine ⟨mem_of_getElem? hindex, hafter, ?_⟩
    omega
  · rintro ⟨hmem, hafter, hrecent⟩
    obtain ⟨index, hindex⟩ := mem_iff_getElem?.mp hmem
    have hseq := seq_of_getElem? hpublished hindex
    refine ⟨mem_iff_getElem?.mpr ⟨index - (record.sent.length - ttyRingCap), ?_⟩, hafter⟩
    have hplace : record.sent.length - ttyRingCap + (index - (record.sent.length - ttyRingCap)) =
        index := by omega
    rw [getElem?_drop, hplace]
    exact hindex

theorem lagged_iff (afterSeq : Nat) :
    (record.ttyStreamStart afterSeq).2.lagged = true ↔
      afterSeq + ttyRingCap < record.sent.length := by
  simp only [Record.ttyStreamStart, TtyRing.lagged, decide_eq_true_eq]
  rw [hpublished.oldest, hpublished.cap]
  split
  next hnone =>
    rw [hnone, length_nil]
    omega
  · omega

theorem replay_sorted (afterSeq : Nat) :
    (((record.ttyStreamStart afterSeq).2.events.map TtyEvent.seq).Pairwise (· < ·)) ∧
      (∀ event ∈ (record.ttyStreamStart afterSeq).2.events,
        event.seq ≤ (record.ttyStreamStart afterSeq).2.nextAfterSeq) ∧
      (record.ttyStreamStart afterSeq).2.nextAfterSeq ≤ max afterSeq record.sent.length := by
  have hsub : ((record.ttyStreamStart afterSeq).2.events).Sublist record.sent := by
    refine (take_sublist _ _).trans (filter_sublist.trans ?_)
    rw [hpublished.kept]
    exact drop_sublist _ _
  have hsorted : ((record.ttyStreamStart afterSeq).2.events.map TtyEvent.seq).Pairwise (· < ·) := by
    have hall : (record.sent.map TtyEvent.seq).Pairwise (· < ·) := by
      rw [hpublished.numbered]
      exact pairwise_lt_range'
    exact hall.sublist (hsub.map TtyEvent.seq)
  have hnext : (record.ttyStreamStart afterSeq).2.nextAfterSeq =
      ((record.ttyStreamStart afterSeq).2.events.getLast?.map TtyEvent.seq).getD afterSeq := rfl
  refine ⟨hsorted, ?_, ?_⟩
  · intro event hmem
    rw [hnext]
    generalize (record.ttyStreamStart afterSeq).2.events = events at hmem hsorted
    rcases eq_nil_or_concat events with rfl | ⟨front, last, rfl⟩
    · cases hmem
    · rw [concat_eq_append] at hmem hsorted ⊢
      rw [getLast?_append, getLast?_singleton]
      simp only [some_or, map_some, getD_some]
      rcases mem_append.mp hmem with hmem | hmem
      · rw [map_append, pairwise_append] at hsorted
        exact Nat.le_of_lt (hsorted.2.2 event.seq (mem_map_of_mem hmem) last.seq (by simp))
      · rw [mem_singleton.mp hmem]
  · rw [hnext]
    cases hlast : (record.ttyStreamStart afterSeq).2.events.getLast? with
    | none => exact le_max_left _ _
    | some last =>
      have hmem := hsub.mem (mem_of_getLast? hlast)
      exact Nat.le_trans (seq_of_mem hpublished hmem).2 (le_max_right _ _)

end Published

end Published

end JeryuForge.AgentRuns
