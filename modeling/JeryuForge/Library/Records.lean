import JeryuForge.Library.Blocks

/-!
# Records of a stream

A stream of symbols holds records, each ended by a separator.  A source is asked for one item
after another until it ends or fails; what it gives along the way is what it drains to.
-/

namespace Records

open List

variable {α : Type}

section Cut

variable [DecidableEq α]

def all (separator : α) (stream : List α) : List (List α) :=
  (stream.splitOn separator).dropLast

variable {record : List α} {separator : α}

omit [DecidableEq α] in
theorem record_unique {other rest more : List α}
    (hrecord : separator ∉ record) (hother : separator ∉ other)
    (hsame : record ++ separator :: rest = other ++ separator :: more) :
    record = other ∧ rest = more := by
  obtain ⟨past, rfl, hrest⟩ := exists_append_of_not_mem hother hsame
  cases past with
  | nil => exact ⟨append_nil _, (cons.inj hrest).2⟩
  | cons symbol past =>
    obtain ⟨rfl, -⟩ := cons.inj hrest
    simp at hrecord

omit [DecidableEq α] in
theorem length_le_record {start rest more : List α} (hstart : separator ∉ start)
    (hsame : start ++ more = record ++ separator :: rest) : start.length ≤ record.length := by
  rcases append_eq_append_cons hsame with ⟨past, rfl, _⟩ | ⟨past, rfl, _⟩
  · simp at hstart
  · simp

theorem all_append (hrecord : separator ∉ record) (rest : List α) :
    all separator (record ++ separator :: rest) = record :: all separator rest := by
  unfold all
  rw [splitOn_append_cons_self_of_not_mem hrecord, dropLast_cons_of_ne_nil
    (splitOn_ne_nil separator rest)]

theorem all_eq_nil {stream : List α} (hstream : separator ∉ stream) :
    all separator stream = [] := by
  unfold all
  rw [splitOn_eq_singleton hstream]
  rfl

end Cut

inductive Answer (α ε : Type) where
  | item (value : α)
  | ended
  | failed (error : ε)

section Drain

variable {σ ε : Type} {next : σ → Answer α ε × σ}

/-- The items a source gives from a state on, and the error it stops with, if it does not end. -/
inductive Drains (next : σ → Answer α ε × σ) : σ → List α → Option ε → Prop where
  | ended {state : σ} : (next state).1 = .ended → Drains next state [] none
  | failed {state : σ} {error : ε} :
      (next state).1 = .failed error → Drains next state [] (some error)
  | item {state : σ} {value : α} {values : List α} {outcome : Option ε} :
      (next state).1 = .item value → Drains next (next state).2 values outcome →
      Drains next state (value :: values) outcome

theorem Drains.unique {state : σ} {values others : List α} {outcome other : Option ε}
    (h : Drains next state values outcome) (hother : Drains next state others other) :
    values = others ∧ outcome = other := by
  induction h generalizing others other with
  | ended hanswer | failed hanswer => cases hother <;> simp_all
  | item hanswer _ ih =>
    cases hother with
    | ended hended => cases hanswer.symm.trans hended
    | failed hfailed => cases hanswer.symm.trans hfailed
    | item hitem hrest =>
      cases hanswer.symm.trans hitem
      obtain ⟨rfl, rfl⟩ := ih hrest
      exact ⟨rfl, rfl⟩

end Drain

def accepted {ε : Type} : List (Except ε α) → List α
  | .ok value :: rest => value :: accepted rest
  | _ => []

section Pieces

def piecesFrom (size : Nat) : Nat → List α → List (List α)
  | 0, _ => []
  | _ + 1, [] => []
  | fuel + 1, item :: items =>
    (item :: items).take size :: piecesFrom size fuel ((item :: items).drop size)

def pieces (size : Nat) (items : List α) : List (List α) :=
  piecesFrom size items.length items

variable {items : List α} {size : Nat}

theorem flatten_piecesFrom {fuel : Nat} (hsize : 0 < size) (hfuel : items.length ≤ fuel) :
    (piecesFrom size fuel items).flatten = items := by
  induction fuel generalizing items with
  | zero => exact (length_eq_zero_iff.mp (Nat.le_zero.mp hfuel)).symm
  | succ fuel ih =>
    cases items with
    | nil => rfl
    | cons item items =>
      have hrest : ((item :: items).drop size).length ≤ fuel := by
        rw [length_drop]
        omega
      rw [piecesFrom, flatten_cons, ih hrest, take_append_drop]

theorem flatten_pieces (hsize : 0 < size) (items : List α) : (pieces size items).flatten = items :=
  flatten_piecesFrom hsize (Nat.le_refl _)

theorem bounded_of_mem_piecesFrom {fuel : Nat} (hsize : 0 < size) {piece : List α}
    (hmem : piece ∈ piecesFrom size fuel items) : piece ≠ [] ∧ piece.length ≤ size := by
  induction fuel generalizing items with
  | zero => cases hmem
  | succ fuel ih =>
    cases items with
    | nil => cases hmem
    | cons item items =>
      rcases mem_cons.mp hmem with rfl | hmem
      · refine ⟨?_, length_take_le _ _⟩
        rw [Ne, take_eq_nil_iff, not_or]
        exact ⟨by omega, cons_ne_nil _ _⟩
      · exact ih hmem

theorem bounded_of_mem_pieces (hsize : 0 < size) {piece : List α}
    (hmem : piece ∈ pieces size items) : piece ≠ [] ∧ piece.length ≤ size :=
  bounded_of_mem_piecesFrom hsize hmem

end Pieces

end Records
