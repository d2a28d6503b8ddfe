import Mathlib

/-!
# Numbered logs

A bounded log whose items get increasing numbers.  Old items are forgotten, numbers are
never given twice; a reader asks for what is newer than a number it knows.
-/

universe u

structure Numbered (α : Type u) where
  seq : Nat
  item : α
deriving DecidableEq, Repr

/-- The numbers have no bound here: a 64-bit counter gives the same ones for the first `2 ^ 64 - 1`
records. -/
structure NumberedLog (α : Type u) where
  kept : List (Numbered α)
  lastSeq : Nat
  increasing : kept.Pairwise fun first second => first.seq < second.seq
  given : ∀ numbered ∈ kept, numbered.seq ≤ lastSeq

namespace NumberedLog

open List

variable {α : Type u}

def empty : NumberedLog α where
  kept := []
  lastSeq := 0
  increasing := List.Pairwise.nil
  given := by simp

def record (bound : Nat) (log : NumberedLog α) (item : α) : NumberedLog α where
  kept := (log.kept ++ [Numbered.mk (log.lastSeq + 1) item]).drop (log.kept.length + 1 - bound)
  lastSeq := log.lastSeq + 1
  increasing := by
    refine List.Pairwise.sublist (drop_sublist _ _) ?_
    refine pairwise_append.mpr ⟨log.increasing, pairwise_singleton _ _, ?_⟩
    intro first hfirst second hsecond
    rw [mem_singleton.mp hsecond]
    exact Nat.lt_succ_of_le (log.given first hfirst)
  given := by
    intro numbered hmem
    rcases mem_append.mp (mem_of_mem_drop hmem) with hold | hnew
    · exact Nat.le_succ_of_le (log.given numbered hold)
    · obtain rfl := mem_singleton.mp hnew
      exact Nat.le_refl _

def since (log : NumberedLog α) (after : Nat) : List (Numbered α) :=
  log.kept.filter fun numbered => after < numbered.seq

theorem mem_since {log : NumberedLog α} {after : Nat} {numbered : Numbered α} :
    numbered ∈ log.since after ↔ numbered ∈ log.kept ∧ after < numbered.seq := by
  simp [since]

theorem mem_kept_record {bound : Nat} {log : NumberedLog α} {item : α}
    {numbered : Numbered α} (hmem : numbered ∈ (log.record bound item).kept) :
    numbered ∈ log.kept ∨ numbered.seq = log.lastSeq + 1 := by
  rcases mem_append.mp (mem_of_mem_drop hmem) with hold | hnew
  · exact .inl hold
  · rw [mem_singleton.mp hnew]
    exact .inr rfl

end NumberedLog
