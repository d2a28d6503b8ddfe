import Mathlib

/-!
# Machines and guarded runs

A machine takes one action at a time.  The answers an environment gives (a clock
reading, a read that fails, a scheduling choice) are part of the action, so one
list of actions is one interleaving.  The rules turn a fact about one step into a fact
about every run, also for runs all of whose steps meet a side condition.
-/

universe u v

/-- A start state and a step function; `none` means that the action is not
possible in that state. -/
structure Machine (σ : Type u) (α : Type v) where
  start : σ
  step : σ → α → Option σ

namespace Machine

variable {σ : Type u} {α : Type v} (m : Machine σ α)

def runFrom : σ → List α → Option σ
  | state, [] => some state
  | state, action :: rest => (m.step state action).bind fun next => runFrom next rest

def run (actions : List α) : Option σ :=
  m.runFrom m.start actions

def MeetsFrom (condition : σ → α → Prop) : σ → List α → Prop
  | _, [] => True
  | state, action :: rest =>
    condition state action ∧
      ∀ next, m.step state action = some next → MeetsFrom condition next rest

def Meets (condition : σ → α → Prop) (actions : List α) : Prop :=
  m.MeetsFrom condition m.start actions

instance decidableMeetsFrom
    (condition : σ → α → Prop) [∀ state action, Decidable (condition state action)] :
    (state : σ) → (actions : List α) → Decidable (m.MeetsFrom condition state actions)
  | _, [] => isTrue trivial
  | state, action :: rest =>
    match hstep : m.step state action with
    | none =>
      decidable_of_iff (condition state action) (by simp [MeetsFrom, hstep])
    | some next =>
      have := decidableMeetsFrom condition next rest
      decidable_of_iff (condition state action ∧ m.MeetsFrom condition next rest)
        (by simp [MeetsFrom, hstep])

instance (condition : σ → α → Prop) [∀ state action, Decidable (condition state action)]
    (actions : List α) : Decidable (m.Meets condition actions) :=
  m.decidableMeetsFrom condition m.start actions

@[simp]
theorem runFrom_nil (state : σ) : m.runFrom state [] = some state :=
  rfl

theorem runFrom_cons_eq_some {state final : σ} {action : α} {rest : List α}
    (hrun : m.runFrom state (action :: rest) = some final) :
    ∃ next, m.step state action = some next ∧ m.runFrom next rest = some final := by
  simpa [runFrom, Option.bind_eq_some_iff] using hrun

theorem runFrom_append (state : σ) (first second : List α) :
    m.runFrom state (first ++ second) =
      (m.runFrom state first).bind fun middle => m.runFrom middle second := by
  induction first generalizing state with
  | nil => rfl
  | cons action rest ih =>
    cases hstep : m.step state action with
    | none => simp [runFrom, hstep]
    | some next => simp [runFrom, hstep, ih]

theorem runFrom_invariant {condition : σ → α → Prop} {motive : σ → Prop}
    (hstep : ∀ state action next, motive state → condition state action →
        m.step state action = some next → motive next) {state final : σ} {actions : List α}
    (hstart : motive state) (hmeets : m.MeetsFrom condition state actions)
    (hrun : m.runFrom state actions = some final) : motive final := by
  induction actions generalizing state with
  | nil =>
    simp only [runFrom_nil, Option.some.injEq] at hrun
    exact hrun ▸ hstart
  | cons action rest ih =>
    obtain ⟨next, hnext, hrest⟩ := m.runFrom_cons_eq_some hrun
    exact ih (hstep state action next hstart hmeets.1 hnext) (hmeets.2 next hnext) hrest

theorem run_invariant {condition : σ → α → Prop} {motive : σ → Prop} (hinit : motive m.start)
    (hstep : ∀ state action next, motive state → condition state action →
        m.step state action = some next → motive next) {final : σ} {actions : List α}
    (hmeets : m.Meets condition actions) (hrun : m.run actions = some final) : motive final :=
  m.runFrom_invariant hstep hinit hmeets hrun

theorem MeetsFrom.and {first second : σ → α → Prop} {state : σ} {actions : List α}
    (hfirst : m.MeetsFrom first state actions) (hsecond : m.MeetsFrom second state actions) :
    m.MeetsFrom (fun state action => first state action ∧ second state action)
      state actions := by
  induction actions generalizing state with
  | nil => trivial
  | cons action rest ih =>
    exact ⟨⟨hfirst.1, hsecond.1⟩, fun next hstep => ih (hfirst.2 next hstep) (hsecond.2 next hstep)⟩

theorem MeetsFrom.mono {first second : σ → α → Prop}
    (himp : ∀ state action, first state action → second state action) {state : σ}
    {actions : List α} (hmeets : m.MeetsFrom first state actions) :
    m.MeetsFrom second state actions := by
  induction actions generalizing state with
  | nil => trivial
  | cons action rest ih =>
    exact ⟨himp _ _ hmeets.1, fun next hstep => ih (hmeets.2 next hstep)⟩

theorem meetsFrom_true (state : σ) (actions : List α) :
    m.MeetsFrom (fun _ _ => True) state actions := by
  induction actions generalizing state with
  | nil => trivial
  | cons action rest ih => exact ⟨trivial, fun next _ => ih next⟩

theorem meetsFrom_of_forall {condition : α → Prop} {actions : List α}
    (hactions : ∀ action ∈ actions, condition action) (state : σ) :
    m.MeetsFrom (fun _ action => condition action) state actions := by
  induction actions generalizing state with
  | nil => trivial
  | cons action rest ih =>
    exact ⟨hactions action List.mem_cons_self, fun next _ =>
      ih (List.forall_mem_cons.mp hactions).2 next⟩

theorem run_invariant_always {motive : σ → Prop} (hinit : motive m.start)
    (hstep : ∀ state action next,
      motive state → m.step state action = some next → motive next) {final : σ}
    {actions : List α} (hrun : m.run actions = some final) : motive final :=
  m.run_invariant hinit (fun state action next hstate _ => hstep state action next hstate)
    (m.meetsFrom_true m.start actions) hrun

end Machine

/-! ## Requests in flight

Machines with several requests keep, for each request, what it still has to do.  After
one of them has moved on, an entry is the new one or was there before. -/

theorem Function.update_eq_some {ι : Type u} {α : Type v} [DecidableEq ι] {table : ι → Option α}
    {index other : ι} {value : Option α} {found : α}
    (hfound : Function.update table index value other = some found) :
    (other = index ∧ value = some found) ∨ table other = some found := by
  by_cases hsame : other = index
  · subst hsame
    rw [Function.update_self] at hfound
    exact .inl ⟨rfl, hfound⟩
  · rw [Function.update_of_ne hsame] at hfound
    exact .inr hfound

theorem Function.forall_update {ι : Type u} {α : Type v} [DecidableEq ι] {holds : α → Prop}
    {table : ι → Option α} {index : ι} {value : Option α}
    (hall : ∀ {other found}, table other = some found → holds found)
    (hnew : ∀ found, value = some found → holds found) {other : ι} {found : α}
    (hfound : Function.update table index value other = some found) : holds found :=
  (Function.update_eq_some hfound).elim (fun hvalue => hnew found hvalue.2) hall

namespace History

variable {α : Type u}

def Each (justified : List α → α → Prop) (history : List α) : Prop :=
  ∀ before entry after, history = before ++ entry :: after → justified before entry

variable {justified : List α → α → Prop} {history : List α}

theorem each_nil : Each justified ([] : List α) := by
  intro before entry after hsplit
  exact absurd hsplit (by simp)

theorem Each.concat {entry : α} (heach : Each justified history)
    (hentry : justified history entry) : Each justified (history ++ [entry]) := by
  intro before found after hsplit
  rcases List.append_eq_append_iff.mp hsplit with ⟨rest, hbefore, hrest⟩ | ⟨rest, hhistory, hrest⟩
  · cases rest with
    | nil =>
      obtain ⟨rfl, -⟩ := List.cons.inj hrest
      rw [hbefore, List.append_nil]
      exact hentry
    | cons first rest =>
      have hlength := congrArg List.length hrest
      simp at hlength
  · cases rest with
    | nil =>
      obtain ⟨rfl, -⟩ := List.cons.inj hrest
      rw [List.append_nil] at hhistory
      rw [← hhistory]
      exact hentry
    | cons first rest =>
      obtain ⟨rfl, -⟩ := List.cons.inj hrest
      exact heach before found rest hhistory

end History
