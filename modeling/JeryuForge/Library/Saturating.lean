import Mathlib

/-!
# Saturating and checked arithmetic

Sums, differences and products of 64 bit integers that stop at the bounds of the type.
A comparison with such a result reads as one between integers, as long as what was added
or subtracted is not negative.
-/

namespace Int64

def saturatingAdd (first second : Int64) : Int64 :=
  ofIntClamp (first.toInt + second.toInt)

def saturatingSub (first second : Int64) : Int64 :=
  ofIntClamp (first.toInt - second.toInt)

def saturatingMul (first second : Int64) : Int64 :=
  ofIntClamp (first.toInt * second.toInt)

def checkedAdd (first second : Int64) : Option Int64 :=
  if -2 ^ 63 ≤ first.toInt + second.toInt ∧ first.toInt + second.toInt < 2 ^ 63 then
    some (ofInt (first.toInt + second.toInt))
  else
    none

theorem toInt_ofIntClamp_cases (value : Int) :
    (ofIntClamp value).toInt = value ∨
      (value < -2 ^ 63 ∧ (ofIntClamp value).toInt = -2 ^ 63) ∨
      (2 ^ 63 ≤ value ∧ (ofIntClamp value).toInt = 2 ^ 63 - 1) := by
  rcases lt_or_ge value minValue.toInt with hbelow | hmin
  · have hclamp : ofIntClamp value = minValue := by
      unfold ofIntClamp
      rw [dif_neg (not_le.mpr hbelow)]
    rw [hclamp, toInt_minValue]
    exact .inr (.inl ⟨hbelow, rfl⟩)
  · rcases lt_or_ge maxValue.toInt value with habove | hmax
    · have hclamp : ofIntClamp value = maxValue := by
        unfold ofIntClamp
        rw [dif_pos hmin, dif_neg (not_le.mpr habove)]
      rw [hclamp, toInt_maxValue]
      rw [toInt_maxValue] at habove
      exact .inr (.inr ⟨by omega, rfl⟩)
    · exact .inl (toInt_ofIntClamp hmin hmax)

variable {now first second : Int64}

theorem le_saturatingAdd_iff (hsecond : 0 ≤ second.toInt) :
    now ≤ first.saturatingAdd second ↔ now.toInt ≤ first.toInt + second.toInt := by
  rw [le_iff_toInt_le]
  unfold saturatingAdd
  have hfirst := first.le_toInt
  have hnow := now.toInt_lt
  rcases toInt_ofIntClamp_cases (first.toInt + second.toInt) with h | ⟨h, h'⟩ | ⟨h, h'⟩ <;> omega

theorem saturatingSub_le_iff (hsecond : 0 ≤ second.toInt) :
    now.saturatingSub second ≤ first ↔ now.toInt ≤ first.toInt + second.toInt := by
  rw [le_iff_toInt_le]
  unfold saturatingSub
  have hfirst := first.le_toInt
  have hnow := now.toInt_lt
  rcases toInt_ofIntClamp_cases (now.toInt - second.toInt) with h | ⟨h, h'⟩ | ⟨h, h'⟩ <;> omega

theorem toInt_saturatingAdd_le (hsecond : 0 ≤ second.toInt) :
    (first.saturatingAdd second).toInt ≤ first.toInt + second.toInt := by
  unfold saturatingAdd
  have hfirst := first.le_toInt
  rcases toInt_ofIntClamp_cases (first.toInt + second.toInt) with h | ⟨h, h'⟩ | ⟨h, h'⟩ <;> omega

theorem checkedAdd_eq_some (first second : Int64) (hleast : -2 ^ 63 ≤ first.toInt + second.toInt)
    (hmost : first.toInt + second.toInt < 2 ^ 63) :
    first.checkedAdd second = some (first + second) ∧
      (first + second).toInt = first.toInt + second.toInt := by
  have hsum : (first + second).toInt = first.toInt + second.toInt := by
    rw [toInt_add, Int.bmod_eq_of_le (by omega) (by omega)]
  refine ⟨?_, hsum⟩
  unfold checkedAdd
  rw [if_pos ⟨hleast, hmost⟩, ← hsum, ofInt_toInt]

end Int64
