import Mathlib

/-!
# Folding a log into tables

What every row of a log leaves behind, and when folding rows once more changes nothing.
-/

universe u v

namespace List

variable {σ : Type u} {α : Type v}

variable {rows : List α} {fold : σ → α → Option σ}

theorem foldl_eq_self {fold : σ → α → σ} {state : σ}
    (hsame : ∀ row ∈ rows, fold state row = state) : rows.foldl fold state = state := by
  induction rows with
  | nil => rfl
  | cons row rest ih =>
    rw [List.foldl_cons, hsame row (by simp)]
    exact ih (List.forall_mem_cons.mp hsame).2

theorem foldl_frame {τ : Type*} (read : σ → τ) (fold : σ → α → σ)
    (hframe : ∀ state row, read (fold state row) = read state) (rows : List α) (state : σ) :
    read (rows.foldl fold state) = read state :=
  foldlRecOn (motive := fun next => read next = read state) rows fold rfl
    fun next hnext row _ => (hframe next row).trans hnext

theorem foldlM_congr {other : σ → α → Option σ}
    (hsame : ∀ state, ∀ row ∈ rows, fold state row = other state row) (start : σ) :
    rows.foldlM fold start = rows.foldlM other start := by
  induction rows generalizing start with
  | nil => rfl
  | cons row rest ih =>
    rw [List.foldlM_cons, List.foldlM_cons, hsame start row (by simp)]
    exact congrArg _ (funext fun state =>
      ih (fun state other hother => hsame state other (List.mem_cons_of_mem _ hother)) state)

theorem foldlM_cons_eq_some {row : α} {rest : List α}
    {start final : σ} (hfold : (row :: rest).foldlM fold start = some final) :
    ∃ state, fold start row = some state ∧ rest.foldlM fold state = some final := by
  rw [List.foldlM_cons] at hfold
  exact Option.bind_eq_some_iff.mp hfold

theorem foldlM_leaves {fold : σ → α → Option σ} {motive : σ → α → Prop}
    (hown : ∀ state row next, fold state row = some next → motive next row)
    (hkeeps : ∀ state row other next, fold state other = some next →
      motive state row → motive next row)
    {rows : List α} {start final : σ} (hfold : rows.foldlM fold start = some final) :
    ∀ row ∈ rows, motive final row := by
  have hstays : ∀ (rows : List α) (state final : σ) (row : α),
      rows.foldlM fold state = some final → motive state row → motive final row := by
    intro rows
    induction rows with
    | nil =>
      intro state final row hfold hleft
      cases hfold
      exact hleft
    | cons other rest ih =>
      intro state final row hfold hleft
      obtain ⟨next, hnext, hrest⟩ := foldlM_cons_eq_some hfold
      exact ih next final row hrest (hkeeps state row other next hnext hleft)
  induction rows generalizing start with
  | nil => simp
  | cons first rest ih =>
    obtain ⟨next, hnext, hrest⟩ := foldlM_cons_eq_some hfold
    intro row hrow
    rcases List.mem_cons.mp hrow with rfl | hmem
    · exact hstays rest next final row hrest (hown start row next hnext)
    · exact ih hrest row hmem

theorem foldl_leaves (fold : σ → α → σ) {motive : σ → α → Prop}
    (hown : ∀ state row, motive (fold state row) row)
    (hkeeps : ∀ state row other, motive state row → motive (fold state other) row)
    (rows : List α) (start : σ) : ∀ row ∈ rows, motive (rows.foldl fold start) row := by
  have hfold : rows.foldlM (fun state row => some (fold state row)) start =
      some (rows.foldl fold start) := List.foldlM_pure
  refine foldlM_leaves (fun state row next hnext => ?_) (fun state row other next hnext hleft => ?_)
    hfold
  · cases hnext
    exact hown state row
  · cases hnext
    exact hkeeps state row other hleft

theorem foldlM_eq_self {state : σ} (hsame : ∀ row ∈ rows, fold state row = some state) :
    rows.foldlM fold state = some state := by
  induction rows with
  | nil => rfl
  | cons row rest ih =>
    rw [List.foldlM_cons, hsame row (by simp)]
    exact ih (List.forall_mem_cons.mp hsame).2

end List
