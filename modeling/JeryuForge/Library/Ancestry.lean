import Mathlib

/-!
# Ancestry and best common ancestors

Commits are ordered by ancestry: `older ≤ newer` says that the older one is reachable
from the newer one, or is it.  A best common ancestor of two commits is a maximal
commit below both, and asking for one decides ancestry.
-/

universe u

namespace Ancestry

variable {Commit : Type u} [PartialOrder Commit]

/-- The answers a best-common-ancestor search may give: one of the maximal common
ancestors, or none when there is no common ancestor. -/
structure BestCommonAncestors (mergeBase : Commit → Commit → Option Commit) : Prop where
  maximal : ∀ {left right base}, mergeBase left right = some base →
    Maximal (fun common => common ≤ left ∧ common ≤ right) base
  none_of_disjoint : ∀ {left right}, mergeBase left right = none →
    ∀ common, common ≤ left → ¬common ≤ right

theorem BestCommonAncestors.eq_some_left_iff {mergeBase : Commit → Commit → Option Commit}
    (hbest : BestCommonAncestors mergeBase) (left right : Commit) :
    mergeBase left right = some left ↔ left ≤ right := by
  constructor
  · intro hbase
    exact (hbest.maximal hbase).prop.2
  · intro hle
    cases hbase : mergeBase left right with
    | none => exact absurd hle (hbest.none_of_disjoint hbase left le_rfl)
    | some base =>
      have hmaximal := hbest.maximal hbase
      have hbelow : base ≤ left := hmaximal.prop.1
      have habove : left ≤ base := hmaximal.le_of_ge ⟨le_rfl, hle⟩ hbelow
      rw [le_antisymm hbelow habove]

/-- A branch that moves from one tip to another without dropping a commit.  The
first push to an absent branch drops none. -/
def FastForward : Option Commit → Option Commit → Prop
  | none, _ => True
  | some _, none => False
  | some old, some new => old ≤ new

instance [DecidableLE Commit] :
    (old new : Option Commit) → Decidable (FastForward old new)
  | none, _ => isTrue trivial
  | some _, none => isFalse id
  | some old, some new => inferInstanceAs (Decidable (old ≤ new))

theorem fastForward_refl (tip : Option Commit) : FastForward tip tip := by
  cases tip with
  | none => trivial
  | some head => exact le_refl head

def Carries (tip : Option Commit) (commit : Commit) : Prop :=
  ∃ head, tip = some head ∧ commit ≤ head

instance [DecidableLE Commit] (tip : Option Commit) (commit : Commit) :
    Decidable (Carries tip commit) :=
  match tip with
  | none => isFalse fun hcarries => by simp [Carries] at hcarries
  | some head => decidable_of_iff (commit ≤ head) (by simp [Carries])

theorem Carries.fastForward {old new : Option Commit} {commit : Commit}
    (hcarries : Carries old commit) (hforward : FastForward old new) : Carries new commit := by
  obtain ⟨head, rfl, hle⟩ := hcarries
  cases new with
  | none => exact absurd hforward id
  | some tip => exact ⟨tip, rfl, hle.trans hforward⟩

theorem bestCommonAncestors_min {Linear : Type u} [LinearOrder Linear] :
    BestCommonAncestors fun left right : Linear => some (min left right) where
  maximal := by
    rintro left right base ⟨⟩
    exact ⟨⟨min_le_left _ _, min_le_right _ _⟩, fun common hcommon _ => le_min hcommon.1 hcommon.2⟩
  none_of_disjoint := by simp

end Ancestry
