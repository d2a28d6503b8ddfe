import Mathlib

/-!
# The newest item of a list

The item with the greatest key; of several with one key, the last.  Dropping items that
are not the newest leaves the newest as it is.
-/

universe u v

namespace List

variable {α : Type u} {κ : Type v} [LinearOrder κ] {key : α → κ}

def newestBy (key : α → κ) : List α → Option α
  | [] => none
  | item :: rest =>
    match newestBy key rest with
    | none => some item
    | some best => if key item ≤ key best then some best else some item

@[simp]
theorem newestBy_nil : ([] : List α).newestBy key = none := rfl

variable {item best : α} {rest items : List α}

theorem newestBy_eq_none_iff : items.newestBy key = none ↔ items = [] := by
  cases items with
  | nil => simp
  | cons item rest =>
    simp only [newestBy, reduceCtorEq, iff_false]
    split
    · simp
    · split <;> simp

/-- The items before the newest are no newer, those behind it are older. -/
theorem split_of_newestBy (hbest : items.newestBy key = some best) :
    ∃ front back, items = front ++ best :: back ∧ (∀ item ∈ front, key item ≤ key best) ∧
      ∀ item ∈ back, key item < key best := by
  induction items generalizing best with
  | nil => cases hbest
  | cons item rest ih =>
    simp only [newestBy] at hbest
    split at hbest
    next hrest =>
      cases hbest
      exact ⟨[], [], by rw [newestBy_eq_none_iff.mp hrest]; rfl, nofun, nofun⟩
    next found hfound =>
      split at hbest
      next hle =>
        cases hbest
        obtain ⟨front, back, rfl, hfront, hback⟩ := ih hfound
        exact ⟨item :: front, back, rfl, forall_mem_cons.mpr ⟨hle, hfront⟩, hback⟩
      next hlt =>
        cases hbest
        obtain ⟨front, back, rfl, hfront, hback⟩ := ih hfound
        refine ⟨[], _, rfl, nofun, fun other hother => lt_of_le_of_lt ?_ (not_le.mp hlt)⟩
        rcases mem_append.mp hother with hother | hother
        · exact hfront other hother
        · rcases mem_cons.mp hother with rfl | hother
          · exact le_rfl
          · exact (hback other hother).le

theorem mem_of_newestBy (hbest : items.newestBy key = some best) : best ∈ items := by
  obtain ⟨front, back, rfl, -⟩ := split_of_newestBy hbest
  exact mem_append_right _ mem_cons_self

theorem newestBy_of_split {front back : List α} (hfront : ∀ item ∈ front, key item ≤ key best)
    (hback : ∀ item ∈ back, key item < key best) :
    (front ++ best :: back).newestBy key = some best := by
  induction front with
  | nil =>
    simp only [nil_append, newestBy]
    split
    · rfl
    next found hfound => exact if_neg (not_le.mpr (hback found (mem_of_newestBy hfound)))
  | cons item front ih =>
    obtain ⟨hle, hfront⟩ := forall_mem_cons.mp hfront
    simp only [cons_append, newestBy, ih hfront, if_pos hle]

theorem newestBy_filter {keep : α → Bool} (hbest : items.newestBy key = some best)
    (hkeep : keep best = true) : (items.filter keep).newestBy key = some best := by
  obtain ⟨front, back, rfl, hfront, hback⟩ := split_of_newestBy hbest
  rw [filter_append, filter_cons_of_pos hkeep]
  exact newestBy_of_split (fun item hitem => hfront item (mem_of_mem_filter hitem))
    fun item hitem => hback item (mem_of_mem_filter hitem)

section FirstOfEach

variable {σ : Type v} [DecidableEq σ] {scope : α → σ}

def keepFirst (scope : α → σ) (state : List σ × List α) (item : α) : List σ × List α :=
  if scope item ∈ state.1 then state else (state.1 ++ [scope item], state.2 ++ [item])

def firstOfEach (scope : α → σ) (items : List α) : List α :=
  (items.foldl (keepFirst scope) ([], [])).2

theorem seen_keepFirst (items : List α) :
    (items.foldl (keepFirst scope) ([], [])).1 = (firstOfEach scope items).map scope := by
  unfold firstOfEach
  induction items using List.reverseRecOn with
  | nil => rfl
  | append_singleton items last ih =>
    rw [foldl_append]
    generalize items.foldl (keepFirst scope) ([], []) = state at ih ⊢
    change (keepFirst scope state last).1 = (keepFirst scope state last).2.map scope
    unfold keepFirst
    split
    · exact ih
    · rw [map_append, ← ih]
      rfl

theorem firstOfEach_append_one (items : List α) (last : α) :
    firstOfEach scope (items ++ [last]) =
      if scope last ∈ (firstOfEach scope items).map scope then firstOfEach scope items
      else firstOfEach scope items ++ [last] := by
  rw [← seen_keepFirst]
  unfold firstOfEach
  rw [foldl_append]
  change (keepFirst scope _ last).2 = _
  unfold keepFirst
  split <;> rfl

theorem firstOfEach_sublist (items : List α) : (firstOfEach scope items).Sublist items := by
  induction items using List.reverseRecOn with
  | nil => exact Sublist.refl _
  | append_singleton items last ih =>
    rw [firstOfEach_append_one]
    split
    · exact ih.trans (sublist_append_left ..)
    · exact ih.append (Sublist.refl _)

theorem mem_map_firstOfEach {items : List α} {item : α} (hitem : item ∈ items) :
    scope item ∈ (firstOfEach scope items).map scope := by
  induction items using List.reverseRecOn with
  | nil => cases hitem
  | append_singleton items last ih =>
    rw [firstOfEach_append_one]
    rcases mem_append.mp hitem with hold | hlast
    · split
      · exact ih hold
      · rw [map_append]
        exact mem_append_left _ (ih hold)
    · rw [mem_singleton.mp hlast]
      split
      · assumption
      · simp

theorem filter_firstOfEach (items : List α) (kept : σ) :
    (firstOfEach scope items).filter (scope · = kept) =
      (items.filter (scope · = kept)).take 1 := by
  induction items using List.reverseRecOn with
  | nil => rfl
  | append_singleton items last ih =>
    rw [firstOfEach_append_one, filter_append]
    by_cases hlast : scope last = kept
    · subst hlast
      cases hmatching : items.filter (scope · = scope last) with
      | nil =>
        rw [if_neg, filter_append, ih, hmatching]
        · simp
        · intro hseen
          obtain ⟨first, hfirst, hscope⟩ := mem_map.mp hseen
          refine not_mem_nil (a := first) ?_
          rw [← hmatching]
          exact mem_filter.mpr ⟨(firstOfEach_sublist items).subset hfirst, by simpa using hscope⟩
      | cons first rest =>
        have hfirst : first ∈ items ∧ _ := mem_filter.mp (hmatching ▸ mem_cons_self)
        rw [if_pos, ih, hmatching]
        · rfl
        · rw [← of_decide_eq_true hfirst.2]
          exact mem_map_firstOfEach hfirst.1
    · split <;> simp [hlast, ih]

theorem mem_take_one {items : List α}
    (hfalling : items.Pairwise fun first second => key second < key first) {item : α} :
    item ∈ items.take 1 ↔ item ∈ items ∧ ∀ other ∈ items, key other ≤ key item := by
  cases items with
  | nil => simp
  | cons first rest =>
    obtain ⟨hfirst, -⟩ := pairwise_cons.mp hfalling
    simp only [take_succ_cons, take_zero, mem_singleton]
    constructor
    · rintro rfl
      exact ⟨mem_cons_self, forall_mem_cons.mpr ⟨le_rfl, fun other hmem => (hfirst other hmem).le⟩⟩
    · rintro ⟨hmem, hgreatest⟩
      refine (mem_cons.mp hmem).resolve_right fun hrest => ?_
      exact not_le.mpr (hfirst item hrest) (hgreatest first mem_cons_self)

theorem mem_firstOfEach {items : List α}
    (hfalling : items.Pairwise fun first second => key second < key first) {item : α} :
    item ∈ firstOfEach scope items ↔
      item ∈ items ∧ ∀ other ∈ items, scope other = scope item → key other ≤ key item := by
  have hscope : item ∈ firstOfEach scope items ↔
      item ∈ (items.filter (scope · = scope item)).take 1 := by
    rw [← filter_firstOfEach, mem_filter]
    simp
  rw [hscope, mem_take_one (hfalling.filter _)]
  simp

end FirstOfEach

end List
