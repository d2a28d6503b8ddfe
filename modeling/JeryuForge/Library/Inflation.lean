import JeryuForge.Library.OrdMap

/-!
# Writes that only add

A step is inflationary if its result is never below the state it started from.  When
nothing below the result can be reached again, a sequence of such steps leaves a state
as it is exactly if each of the steps does.
-/

universe u v w

namespace Inflation

variable {σ : Type u} {α : Type v}

theorem le_foldl [Preorder σ] {step : σ → α → σ} (hstep : ∀ state action, state ≤ step state action)
    (actions : List α) (state : σ) : state ≤ actions.foldl step state := by
  induction actions generalizing state with
  | nil => exact le_refl state
  | cons action rest ih => exact (hstep state action).trans (ih (step state action))

theorem foldl_eq_self_iff [PartialOrder σ] {step : σ → α → σ}
    (hstep : ∀ state action, state ≤ step state action) (actions : List α) (state : σ) :
    actions.foldl step state = state ↔ ∀ action ∈ actions, step state action = state := by
  induction actions with
  | nil => simp
  | cons action rest ih =>
    rw [List.foldl_cons, List.forall_mem_cons]
    constructor
    · intro hsame
      have hfirst : step state action = state :=
        le_antisymm ((le_foldl hstep rest _).trans_eq hsame) (hstep state action)
      rw [hfirst] at hsame
      exact ⟨hfirst, ih.mp hsame⟩
    · rintro ⟨hfirst, hrest⟩
      rw [hfirst]
      exact ih.mpr hrest

end Inflation

namespace OrdMap

variable {κ : Type u} {ν : Type w} [LinearOrder κ]

theorem ext_get? {first second : OrdMap κ ν} (hsame : ∀ key, first.get? key = second.get? key) :
    first = second := by
  have hmem : ∀ entry, entry ∈ first.entries ↔ entry ∈ second.entries := by
    rintro ⟨key, value⟩
    rw [← get?_eq_some_iff, ← get?_eq_some_iff, hsame]
  have hasymm : ∀ left right : κ × ν, left.1 < right.1 → right.1 < left.1 → left = right :=
    fun _ _ hlt hgt => absurd hlt (not_lt_of_gt hgt)
  have hperm : first.entries.Perm second.entries := by
    refine (List.perm_ext_iff_of_nodup ?_ ?_).mpr hmem
    · exact first.sorted.imp fun hlt hsame => absurd (congrArg Prod.fst hsame) (ne_of_lt hlt)
    · exact second.sorted.imp fun hlt hsame => absurd (congrArg Prod.fst hsame) (ne_of_lt hlt)
  have hentries : first.entries = second.entries :=
    hperm.eq_of_pairwise (fun left right _ _ => hasymm left right) first.sorted second.sorted
  cases first
  cases second
  cases hentries
  rfl

/-- One map is below another if every value it has is there, or a larger one. -/
instance [PartialOrder ν] : PartialOrder (OrdMap κ ν) where
  le first second := ∀ key value, first.get? key = some value →
    ∃ larger, second.get? key = some larger ∧ value ≤ larger
  le_refl map key value hvalue := ⟨value, hvalue, le_refl value⟩
  le_trans first second third hfirst hsecond key value hvalue := by
    obtain ⟨middle, hmiddle, hle⟩ := hfirst key value hvalue
    obtain ⟨larger, hlarger, hle'⟩ := hsecond key middle hmiddle
    exact ⟨larger, hlarger, hle.trans hle'⟩
  le_antisymm first second hfirst hsecond := by
    refine ext_get? fun key => ?_
    cases hvalue : first.get? key with
    | some value =>
      obtain ⟨larger, hlarger, hle⟩ := hfirst key value hvalue
      obtain ⟨back, hback, hge⟩ := hsecond key larger hlarger
      rw [hvalue] at hback
      cases hback
      rw [hlarger, le_antisymm hle hge]
    | none =>
      cases hother : second.get? key with
      | none => rfl
      | some value =>
        obtain ⟨larger, hlarger, _⟩ := hsecond key value hother
        rw [hvalue] at hlarger
        cases hlarger

theorem le_insert [PartialOrder ν] {map : OrdMap κ ν} {key : κ} {value : ν}
    (hlarger : ∀ old, map.get? key = some old → old ≤ value) : map ≤ map.insert key value := by
  intro other old hold
  by_cases hsame : other = key
  · subst hsame
    exact ⟨value, get?_insert_self .., hlarger old hold⟩
  · exact ⟨old, by rw [get?_insert_of_ne _ _ hsame]; exact hold, le_refl old⟩

theorem insert_eq_self_iff {map : OrdMap κ ν} {key : κ} {value : ν} :
    map.insert key value = map ↔ map.get? key = some value := by
  constructor
  · intro hsame
    rw [← hsame]
    exact get?_insert_self ..
  · intro hvalue
    refine ext_get? fun other => ?_
    by_cases hother : other = key
    · rw [hother, get?_insert_self, hvalue]
    · exact get?_insert_of_ne _ _ hother

variable {κ : Type u} {ν : Type v} [LinearOrder κ]

def count (map : OrdMap κ ν) (test : κ → ν → Bool) : Nat :=
  (map.retain test).size

variable {map : OrdMap κ ν} {test : κ → ν → Bool} {key : κ} {value old : ν}

theorem count_le_count {other : κ → ν → Bool}
    (himp : ∀ key value, test key value = true → other key value = true) :
    map.count test ≤ map.count other :=
  (List.monotone_filter_right map.entries fun entry => himp entry.1 entry.2).length_le

theorem size_insert_of_get?_eq_some (hget : map.get? key = some old) :
    (map.insert key value).size = map.size := by
  rw [size_insert, size_erase_of_get?_eq_some hget]

theorem size_insert_le (map : OrdMap κ ν) (key : κ) (value : ν) :
    (map.insert key value).size ≤ map.size + 1 := by
  rw [size_insert]
  exact Nat.add_le_add_right (size_retain_le _ _) 1

theorem retain_insert_of_pos (htest : test key value = true) :
    (map.insert key value).retain test = (map.retain test).insert key value := by
  refine ext_get? fun other => ?_
  by_cases hsame : other = key
  · subst hsame
    rw [get?_retain, get?_insert_self, get?_insert_self]
    simp [htest]
  · rw [get?_retain, get?_insert_of_ne _ _ hsame, get?_insert_of_ne _ _ hsame, get?_retain]

theorem retain_insert_of_neg (htest : test key value = false) :
    (map.insert key value).retain test = (map.retain test).erase key := by
  refine ext_get? fun other => ?_
  by_cases hsame : other = key
  · subst hsame
    rw [get?_retain, get?_insert_self, get?_erase_self]
    simp [htest]
  · rw [get?_retain, get?_insert_of_ne _ _ hsame, get?_erase_of_ne _ hsame, get?_retain]

theorem count_insert_le {bound : Nat} (hcount : map.count test ≤ bound)
    (hnew : test key value = true →
      (∃ old, map.get? key = some old ∧ test key old = true) ∨ map.count test < bound) :
    (map.insert key value).count test ≤ bound := by
  unfold count at *
  by_cases htest : test key value = true
  · rw [retain_insert_of_pos htest]
    rcases hnew htest with ⟨old, hget, hold⟩ | hroom
    · have hkept : (map.retain test).get? key = some old := by
        rw [get?_retain, hget]
        simp [hold]
      rw [size_insert_of_get?_eq_some hkept]
      exact hcount
    · exact (size_insert_le _ _ _).trans hroom
  · rw [retain_insert_of_neg (Bool.eq_false_iff.mpr htest)]
    exact (size_retain_le _ _).trans hcount

end OrdMap
