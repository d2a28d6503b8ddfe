import Mathlib

/-!
# Following pointers

Each node points to at most one other.  A node is grounded if following the pointers
from it comes to an end.  A new pointer keeps all nodes grounded unless it leads back to
where it starts.
-/

universe u

namespace Pointers

open Function

variable {α : Type u} {next : α → Option α} {node target : α}

def follow (next : α → Option α) : Nat → α → Option α
  | 0, node => some node
  | steps + 1, node => (next node).bind (follow next steps)

inductive Grounded (next : α → Option α) : α → Prop where
  | stop {node : α} (hend : next node = none) : Grounded next node
  | go {node above : α} (hnext : next node = some above) (habove : Grounded next above) :
      Grounded next node

theorem follow_succ_of_eq_some {above : α} {steps : Nat} (hnext : next node = some above) :
    follow next (steps + 1) node = follow next steps above := by
  simp [follow, hnext]

theorem follow_succ_of_eq_none {steps : Nat} (hend : next node = none) :
    follow next (steps + 1) node = none := by
  simp [follow, hend]

theorem follow_add (first second : Nat) (node : α) :
    follow next (first + second) node =
      (follow next first node).bind (follow next second) := by
  induction first generalizing node with
  | zero => simp [follow]
  | succ first ih =>
    rw [Nat.add_right_comm]
    cases hnext : next node with
    | none => rw [follow_succ_of_eq_none hnext, follow_succ_of_eq_none hnext]; rfl
    | some above =>
      rw [follow_succ_of_eq_some hnext, follow_succ_of_eq_some hnext]
      exact ih above

theorem follow_eq_none_of_le {steps more : Nat} (hnone : follow next steps node = none)
    (hmore : steps ≤ more) : follow next more node = none := by
  obtain ⟨rest, rfl⟩ := Nat.exists_eq_add_of_le hmore
  rw [follow_add, hnone]
  rfl

theorem Grounded.of_follow_eq_none {steps : Nat} (hnone : follow next steps node = none) :
    Grounded next node := by
  induction steps generalizing node with
  | zero => cases hnone
  | succ steps ih =>
    cases hnext : next node with
    | none => exact .stop hnext
    | some above => exact .go hnext (ih ((follow_succ_of_eq_some hnext).symm.trans hnone))

theorem Grounded.follow_ne_self (hgrounded : Grounded next node) (steps : Nat) :
    follow next (steps + 1) node ≠ some node := by
  induction hgrounded generalizing steps with
  | stop hend => simp [follow_succ_of_eq_none hend]
  | @go node above hnext habove ih =>
    intro hcycle
    rw [follow_succ_of_eq_some hnext] at hcycle
    -- a cycle through the node goes through the one above it
    refine ih steps ?_
    rw [follow_add steps 1, hcycle]
    simp [follow, hnext]

theorem Grounded.exists_follow_eq_none (hgrounded : Grounded next node) :
    ∃ steps, follow next steps node = none := by
  induction hgrounded with
  | stop hend => exact ⟨1, follow_succ_of_eq_none hend⟩
  | go hnext _ ih => exact ih.imp' (· + 1) fun _ hnone => (follow_succ_of_eq_some hnext).trans hnone

section Update

variable [DecidableEq α] {start new : α}

theorem follow_update_of_apart (hapart : ∀ steps, follow next steps node ≠ some start)
    (steps : Nat) :
    follow (Function.update next start (some new)) steps node = follow next steps node := by
  induction steps generalizing node with
  | zero => rfl
  | succ steps ih =>
    have hne : node ≠ start := fun hsame => hapart 0 (congrArg some hsame)
    cases hnext : next node with
    | none =>
      rw [follow_succ_of_eq_none hnext, follow_succ_of_eq_none (by rw [update_of_ne hne, hnext])]
    | some above =>
      rw [follow_succ_of_eq_some hnext, follow_succ_of_eq_some (by rw [update_of_ne hne, hnext])]
      exact ih fun more hreaches =>
        hapart (more + 1) ((follow_succ_of_eq_some hnext).trans hreaches)

theorem Grounded.update_of_apart (hgrounded : Grounded next node)
    (hapart : ∀ steps, follow next steps node ≠ some start) :
    Grounded (Function.update next start (some new)) node := by
  obtain ⟨steps, hnone⟩ := hgrounded.exists_follow_eq_none
  exact .of_follow_eq_none ((follow_update_of_apart hapart steps).trans hnone)

theorem Grounded.update (hall : ∀ node, Grounded next node)
    (hapart : ∀ steps, follow next steps new ≠ some start) (node : α) :
    Grounded (Function.update next start (some new)) node := by
  have hnew : Grounded (Function.update next start (some new)) new :=
    (hall new).update_of_apart hapart
  induction hall node with
  | @stop node hend =>
    by_cases hsame : node = start
    · exact .go (by rw [hsame, update_self]) hnew
    · exact .stop (by rw [update_of_ne hsame, hend])
  | @go node above hnext habove ih =>
    by_cases hsame : node = start
    · exact .go (by rw [hsame, update_self]) hnew
    · exact .go (by rw [update_of_ne hsame, hnext]) ih

end Update

end Pointers
