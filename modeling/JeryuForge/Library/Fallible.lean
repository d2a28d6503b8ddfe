import Mathlib

/-!
# Taking apart a computation that succeeded
-/

universe u v w

namespace Except

variable {ε : Type u} {α : Type v} {β : Type v} {first : Except ε α} {result : β}
  {next : α → Except ε β}

theorem map_eq_ok {f : α → β} (hresult : first.map f = .ok result) :
    ∃ value, first = .ok value ∧ result = f value := by
  cases first with
  | error failure => cases hresult
  | ok value =>
    cases hresult
    exact ⟨value, rfl, rfl⟩

theorem bind_eq_ok_iff :
    (first >>= next) = .ok result ↔ ∃ value, first = .ok value ∧ next value = .ok result := by
  cases first with
  | error failure => exact iff_of_false nofun (by rintro ⟨_, ⟨⟩, _⟩)
  | ok value => exact ⟨fun hok => ⟨value, rfl, hok⟩, by rintro ⟨_, ⟨⟩, hok⟩; exact hok⟩

theorem bind_eq_ok (hresult : (first >>= next) = .ok result) :
    ∃ value, first = .ok value ∧ next value = .ok result :=
  bind_eq_ok_iff.mp hresult

theorem mapError_eq_ok_iff {ε' : Type w} {f : ε → ε'} {result : α} :
    first.mapError f = .ok result ↔ first = .ok result := by
  cases first with
  | error failure => exact iff_of_false nofun nofun
  | ok value => exact ⟨fun hok => congrArg Except.ok (Except.ok.inj hok),
      fun hok => by rw [hok]; rfl⟩

theorem bind_ne_error {failure : ε} (hfirst : first ≠ .error failure)
    (hnext : ∀ value, next value ≠ .error failure) : (first >>= next) ≠ .error failure := by
  cases first with
  | error other =>
    rintro ⟨⟩
    exact hfirst rfl
  | ok value => exact hnext value

theorem toOption_eq_some {result : Except ε α} {value : α} :
    result.toOption = some value ↔ result = .ok value := by
  cases result <;> simp [Except.toOption]

theorem eq_ok_get {result : Except ε α} (hok : result.toOption.isSome) :
    result = .ok (result.toOption.get hok) := by
  cases result with
  | error failure => cases hok
  | ok value => rfl

theorem mapM_eq_ok_map {γ : Type w} {f : γ → Except ε α} {value : γ → α} {items : List γ}
    (hok : ∀ item ∈ items, f item = .ok (value item)) : items.mapM f = .ok (items.map value) := by
  induction items with
  | nil => rfl
  | cons item rest ih =>
    have hrest := ih (List.forall_mem_cons.mp hok).2
    rw [List.mapM_cons, hok item (by simp), hrest]
    rfl

end Except
