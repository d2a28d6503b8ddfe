import Mathlib

/-!
# Tables

A table is the list of its rows in the order of their row ids: a new row goes to the
end, an update leaves a row where it is.
-/

universe u v

namespace Table

open List

variable {α : Type u} {κ : Type v}

/-- `DELETE … WHERE`. -/
def deleteWhere (rows : List α) (gone : α → Bool) : List α :=
  rows.filter fun row => !gone row

/-- `UPDATE … WHERE`. -/
def updateWhere (rows : List α) (hit : α → Bool) (change : α → α) : List α :=
  rows.map fun row => if hit row then change row else row

section Keys

variable [DecidableEq κ] (key : α → κ)

def holdsKey (rows : List α) (row : α) : Bool :=
  rows.any fun other => decide (key other = key row)

/-- `INSERT OR IGNORE`, with the columns of the table's key. -/
def insertOrIgnore (rows : List α) (row : α) : List α :=
  if holdsKey key rows row then rows else rows ++ [row]

/-- `INSERT … ON CONFLICT DO UPDATE` of every column. -/
def upsert (rows : List α) (row : α) : List α :=
  if holdsKey key rows row then
    updateWhere rows (fun other => decide (key other = key row)) (fun _ => row)
  else
    rows ++ [row]

/-- The rows after `UPDATE OR IGNORE … WHERE` has dealt with the first of them: a row
whose new key another row has at that moment stays as it is. -/
def updateOrIgnoreFrom (hit : α → Bool) (change : α → α) : List α → List α → List α
  | done, [] => done
  | done, row :: rest =>
    if hit row && !holdsKey key (done ++ rest) (change row) then
      updateOrIgnoreFrom hit change (done ++ [change row]) rest
    else
      updateOrIgnoreFrom hit change (done ++ [row]) rest

/-- `UPDATE OR IGNORE … WHERE`. -/
def updateOrIgnore (rows : List α) (hit : α → Bool) (change : α → α) : List α :=
  updateOrIgnoreFrom key hit change [] rows

end Keys

/-- The last row that is hit, in row order: `ORDER BY seq DESC LIMIT 1`. -/
def last? (rows : List α) (hit : α → Bool) : Option α :=
  rows.reverse.find? hit

/-- `ORDER BY … LIMIT`: the first rows by rank, rows of one rank in row order. -/
def orderedBy (rows : List α) (rank : α → Int) (limit : Nat) : List α :=
  (rows.insertionSort fun first second => rank first ≤ rank second).take limit

variable {row new : α}

variable {rows : List α} {key : α → κ}

theorem mem_deleteWhere {gone : α → Bool} :
    row ∈ deleteWhere rows gone ↔ row ∈ rows ∧ gone row = false := by
  simp [deleteWhere]

theorem mem_updateWhere {hit : α → Bool} {change : α → α} :
    row ∈ updateWhere rows hit change ↔
      ∃ old ∈ rows, row = if hit old then change old else old := by
  constructor
  · intro hrow
    obtain ⟨old, hold, rfl⟩ := mem_map.mp hrow
    exact ⟨old, hold, rfl⟩
  · rintro ⟨old, hold, rfl⟩
    exact mem_map.mpr ⟨old, hold, rfl⟩

theorem mem_of_mem_upsert [DecidableEq κ]
    (hrow : row ∈ upsert key rows new) : row ∈ rows ∨ row = new := by
  unfold upsert at hrow
  split at hrow
  · obtain ⟨old, hold, rfl⟩ := mem_updateWhere.mp hrow
    split
    · exact .inr rfl
    · exact .inl hold
  · rcases mem_append.mp hrow with hold | hnew
    · exact .inl hold
    · exact .inr (mem_singleton.mp hnew)

theorem mem_of_mem_insertOrIgnore [DecidableEq κ]
    (hrow : row ∈ insertOrIgnore key rows new) : row ∈ rows ∨ row = new := by
  unfold insertOrIgnore at hrow
  split at hrow
  · exact .inl hrow
  · rcases mem_append.mp hrow with hold | hnew
    · exact .inl hold
    · exact .inr (mem_singleton.mp hnew)

theorem holdsKey_iff [DecidableEq κ] :
    holdsKey key rows row = true ↔ ∃ other ∈ rows, key other = key row := by
  simp [holdsKey]

theorem mem_insertOrIgnore_of_mem [DecidableEq κ]
    (hrow : row ∈ rows) : row ∈ insertOrIgnore key rows new := by
  unfold insertOrIgnore
  split
  · exact hrow
  · exact mem_append_left _ hrow

theorem exists_key_insertOrIgnore [DecidableEq κ] (key : α → κ) (rows : List α) (new : α) :
    ∃ row ∈ insertOrIgnore key rows new, key row = key new := by
  unfold insertOrIgnore
  split
  next hholds =>
    exact holdsKey_iff.mp hholds
  · exact ⟨new, by simp, rfl⟩

theorem insertionSort_eq {rank : α → Int} {sorted : List α} (hperm : rows ~ sorted)
    (hsorted : sorted.Pairwise fun first second => rank first < rank second) :
    rows.insertionSort (fun first second => rank first ≤ rank second) = sorted := by
  refine List.Perm.eq_of_pairwise ?_ (pairwise_insertionSort _ _) (hsorted.imp le_of_lt)
    ((perm_insertionSort _ _).trans hperm)
  intro first second hfirst hsecond hle hge
  refine inj_on_of_nodup_map (pairwise_map.mpr (hsorted.imp ne_of_lt)) ?_ hsecond
    (le_antisymm hle hge)
  exact hperm.mem_iff.mp ((perm_insertionSort _ _).mem_iff.mp hfirst)

theorem eq_of_find?_eq [DecidableEq κ] (key : α → κ) {rows others : List α}
    (hnodup : (rows.map key).Nodup) (hkeys : rows.map key = others.map key)
    (hfind : ∀ value, rows.find? (fun row => key row = value) =
      others.find? fun row => key row = value) : rows = others := by
  induction rows generalizing others with
  | nil =>
    cases others with
    | nil => rfl
    | cons other others => cases hkeys
  | cons row rest ih =>
    cases others with
    | nil => cases hkeys
    | cons other others =>
      obtain ⟨hkey, hrestKeys⟩ := cons.inj hkeys
      obtain ⟨hnew, hrestNodup⟩ := nodup_cons.mp hnodup
      have hrow : row = other := by
        have hfound := hfind (key row)
        rw [find?_cons_of_pos (by simp), find?_cons_of_pos (by simp [hkey])] at hfound
        exact Option.some.inj hfound
      have hrest : rest = others := by
        refine ih hrestNodup hrestKeys ?_
        intro value
        by_cases hvalue : key row = value
        · -- the key of the first row is not there again
          subst hvalue
          have hnone : ∀ items : List α, key row ∉ items.map key →
              items.find? (fun row' => key row' = key row) = none := by
            intro items hnot
            rw [find?_eq_none]
            intro item hitem hsame
            exact hnot (mem_map.mpr ⟨item, hitem, by simpa using hsame⟩)
          rw [hnone rest hnew, hnone others (hrestKeys ▸ hnew)]
        · have hfound := hfind value
          rwa [find?_cons_of_neg (by simpa using hvalue),
            find?_cons_of_neg (by simpa [← hkey] using hvalue)] at hfound
      rw [hrow, hrest]

theorem countP_updateWhere_le {live moved hit : α → Bool} {change : α → α}
    (hmoved : ∀ row, hit row → live (change row) → moved row) :
    (updateWhere rows hit change).countP live ≤ rows.countP live + rows.countP moved := by
  induction rows with
  | nil => exact Nat.zero_le _
  | cons row rest ih =>
    have hrow := hmoved row
    simp only [updateWhere, List.map_cons, List.countP_cons] at ih ⊢
    grind

variable {α : Type u}

inductive Grows (write : α → α → Prop) (fresh : List α → α → Prop) (start : List α) :
    List α → Prop where
  | refl : Grows write fresh start start
  | update {rows : List α} (hit : α → Bool) (change : α → α)
      (hrows : Grows write fresh start rows)
      (hwrite : ∀ row, hit row = true → write row (change row)) :
      Grows write fresh start (updateWhere rows hit change)
  | append {rows : List α} (row : α)
      (hrows : Grows write fresh start rows) (hfresh : fresh rows row) :
      Grows write fresh start (rows ++ [row])

namespace Grows

variable {write : α → α → Prop} {fresh : List α → α → Prop} {start middle rows : List α}

theorem trans (hfirst : Grows write fresh start middle) (hsecond : Grows write fresh middle rows) :
    Grows write fresh start rows := by
  induction hsecond with
  | refl => exact hfirst
  | update hit change _ hwrite ih => exact ih.update hit change hwrite
  | append row _ hfresh ih => exact ih.append row hfresh

theorem forall_mem {keeps : α → Prop} (hgrows : Grows write fresh start rows)
    (hfresh : ∀ rows row, fresh rows row → keeps row)
    (hwrite : ∀ row next, keeps row → write row next → keeps next)
    (hstart : ∀ row ∈ start, keeps row) : ∀ row ∈ rows, keeps row := by
  induction hgrows with
  | refl => exact hstart
  | update hit change _ hchange ih =>
    intro row hrow
    obtain ⟨old, hold, rfl⟩ := mem_updateWhere.mp hrow
    split
    next hhit =>
      exact hwrite old _ (ih old hold) (hchange old hhit)
    · exact ih old hold
  | append new _ hnew ih =>
    intro row hrow
    rcases List.mem_append.mp hrow with hold | hlast
    · exact ih row hold
    · rw [List.mem_singleton.mp hlast]
      exact hfresh _ new hnew

/-- A write makes no row live, and a live row is added only where there was none. -/
theorem countP_le_one {live : α → Bool} (hgrows : Grows write fresh start rows)
    (hfresh : ∀ rows row, fresh rows row → live row → ∀ other ∈ rows, ¬live other)
    (hwrite : ∀ row next, write row next → live next → live row)
    (hstart : start.countP live ≤ 1) : rows.countP live ≤ 1 := by
  induction hgrows with
  | refl => exact hstart
  | update hit change _ hchange ih =>
    rw [updateWhere, List.countP_map]
    refine (List.countP_mono_left fun row _ hlive => ?_).trans ih
    dsimp only [Function.comp_apply] at hlive
    split at hlive
    next hhit =>
      exact hwrite row _ (hchange row hhit) hlive
    · exact hlive
  | append new _ hnew ih =>
    rw [List.countP_append, List.countP_singleton]
    split
    next hlive =>
      rw [List.countP_eq_zero.mpr (hfresh _ new hnew hlive)]
    · exact ih

theorem getElem?_keeps {keeps : α → Prop} (hgrows : Grows write fresh start rows)
    (hwrite : ∀ row next, keeps row → write row next → keeps next)
    {index : Nat} {row : α} (hrow : start[index]? = some row) (hkeeps : keeps row) :
    ∃ next, rows[index]? = some next ∧ keeps next := by
  induction hgrows with
  | refl => exact ⟨row, hrow, hkeeps⟩
  | update hit change _ hchange ih =>
    obtain ⟨middle, hmiddle, hheld⟩ := ih
    refine ⟨if hit middle then change middle else middle, ?_, ?_⟩
    · rw [updateWhere, List.getElem?_map, hmiddle]
      rfl
    · split
      next hhit =>
        exact hwrite middle _ hheld (hchange middle hhit)
      · exact hheld
  | append new _ _ ih =>
    obtain ⟨middle, hmiddle, hheld⟩ := ih
    have hin := (List.getElem?_eq_some_iff.mp hmiddle).1
    exact ⟨middle, by rw [List.getElem?_append_left hin]; exact hmiddle, hheld⟩

end Grows

end Table
