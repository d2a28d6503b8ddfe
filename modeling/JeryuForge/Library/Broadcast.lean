import Mathlib

/-!
# Bounded broadcasts

A channel keeps the last so many of the values that were sent.  A receiver is a position in the
list of all of them.  One that has fallen behind what is kept is told so once and goes on from the
oldest value that is left.
-/

universe u

namespace Broadcast

variable {α : Type u}

inductive Received (α : Type u) where
  | value (item : α)
  | lagged (missed : Nat)
  | empty

/-- As `tokio::sync::broadcast` documents `recv`: a receiver whose next value was overwritten gets
how many it has missed, and its position moves to the oldest value that the channel has. -/
def receive (capacity : Nat) (sent : List α) (position : Nat) : Received α × Nat :=
  if position + capacity < sent.length then
    (.lagged (sent.length - capacity - position), sent.length - capacity)
  else
    match sent[position]? with
    | some item => (.value item, position + 1)
    | none => (.empty, position)

variable {capacity position next : Nat} {sent : List α}

theorem receive_value {item : α} (h : receive capacity sent position = (.value item, next)) :
    sent[position]? = some item ∧ next = position + 1 := by
  unfold receive at h
  split at h
  · cases h
  · split at h
    next hitem =>
      cases h
      exact ⟨hitem, rfl⟩
    · cases h

theorem receive_lagged {missed : Nat}
    (h : receive capacity sent position = (.lagged missed, next)) :
    position + capacity < sent.length ∧ next = sent.length - capacity := by
  unfold receive at h
  split at h
  next hbehind =>
    cases h
    exact ⟨hbehind, rfl⟩
  · split at h <;> cases h

theorem receive_empty (h : receive capacity sent position = (.empty, next)) :
    sent.length ≤ position ∧ next = position := by
  unfold receive at h
  split at h
  · cases h
  · split at h
    · cases h
    next hnone =>
      cases h
      exact ⟨List.getElem?_eq_none_iff.mp hnone, rfl⟩

end Broadcast
