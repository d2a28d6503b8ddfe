import Mathlib

/-!
# Links kept at both ends

Rows that name each other: a row lists the rows it points to, the rows that point to
it, and at most one row that marked it.  Both ends of a link are written one after the
other, so between the two writes a link is owed to its far end.  `Paired graph owed` is
what holds then, and `Consistent graph` is the case in which nothing is owed.
-/

universe u

namespace TwoWay

open Option Function

structure Links (α : Type u) where
  marker : Option α
  out : Set α
  back : Set α

def Links.none {α : Type u} : Links α :=
  { marker := Option.none, out := ∅, back := ∅ }

variable {α : Type u}

structure Paired (graph : α → Option (Links α)) (owed : α → α → Prop) : Prop where
  marker_known : ∀ row links other,
    graph row = some links → links.marker = some other → (graph other).isSome
  marker_ne : ∀ row links, graph row = some links → links.marker ≠ some row
  out_back : ∀ row links other, graph row = some links → other ∈ links.out →
    owed row other ∨ ∃ far, graph other = some far ∧ row ∈ far.back
  back_out : ∀ row links other, graph row = some links → other ∈ links.back →
    ∃ far, graph other = some far ∧ row ∈ far.out
  out_ne : ∀ row links, graph row = some links → row ∉ links.out

def Consistent (graph : α → Option (Links α)) : Prop :=
  Paired graph fun _ _ => False

theorem consistent_empty : Consistent fun _ : α => (Option.none : Option (Links α)) where
  marker_known := by simp
  marker_ne := by simp
  out_back := by simp
  back_out := by simp
  out_ne := by simp

namespace Paired

variable {graph : α → Option (Links α)} {owed : α → α → Prop}

theorem weaken {more : α → α → Prop} (hpaired : Paired graph owed)
    (hmore : ∀ row other, owed row other → more row other) : Paired graph more where
  marker_known := hpaired.marker_known
  marker_ne := hpaired.marker_ne
  out_back := fun row links other hrow hother =>
    (hpaired.out_back row links other hrow hother).imp_left (hmore row other)
  back_out := hpaired.back_out
  out_ne := hpaired.out_ne

theorem back_ne (hpaired : Paired graph owed) {row : α} {links : Links α}
    (hrow : graph row = some links) : row ∉ links.back := by
  intro hback
  obtain ⟨far, hfar, hout⟩ := hpaired.back_out row links row hrow hback
  exact hpaired.out_ne row far hfar hout

def linksAt (graph : α → Option (Links α)) (row : α) : Links α :=
  (graph row).getD Links.none

structure Fits (graph : α → Option (Links α)) (owed : α → α → Prop) (row : α) (links : Links α) :
    Prop where
  marker : ∀ other, links.marker = some other → other ≠ row ∧ (graph other).isSome
  out : ∀ other ∈ links.out, other ≠ row ∧
    (owed row other ∨ ∃ far, graph other = some far ∧ row ∈ far.back)
  back : ∀ other ∈ links.back, other ≠ row ∧ ∃ far, graph other = some far ∧ row ∈ far.out

variable {links : Links α} {row : α} {later : α → α → Prop}

theorem linksAt_of_some (hrow : graph row = some links) : linksAt graph row = links := by
  rw [linksAt, hrow]
  rfl

theorem of_fits (hfits : ∀ row links, graph row = some links → Fits graph owed row links) :
    Paired graph owed where
  marker_known := fun row links other hrow hmarker =>
    ((hfits row links hrow).marker other hmarker).2
  marker_ne := fun row links hrow hmarker => ((hfits row links hrow).marker row hmarker).1 rfl
  out_back := fun row links other hrow hother => ((hfits row links hrow).out other hother).2
  back_out := fun row links other hrow hother => ((hfits row links hrow).back other hother).2
  out_ne := fun row links hrow hother => ((hfits row links hrow).out row hother).1 rfl

theorem fits (hpaired : Paired graph owed) (row : α) : Fits graph owed row (linksAt graph row) := by
  cases hrow : graph row with
  | none =>
    rw [linksAt, hrow]
    exact ⟨nofun, nofun, nofun⟩
  | some links =>
    rw [linksAt_of_some hrow]
    refine ⟨fun other hmarker => ⟨?_, hpaired.marker_known row links other hrow hmarker⟩,
      fun other hother => ⟨?_, hpaired.out_back row links other hrow hother⟩,
      fun other hother => ⟨?_, hpaired.back_out row links other hrow hother⟩⟩
    · rintro rfl
      exact hpaired.marker_ne other links hrow hmarker
    · rintro rfl
      exact hpaired.out_ne other links hrow hother
    · rintro rfl
      exact hpaired.back_ne hrow hother

theorem Fits.mono {next : α → Option (Links α)} (hfits : Fits graph owed row links)
    (hgrows : ∀ other far, graph other = some far →
      ∃ more, next other = some more ∧ far.out ⊆ more.out ∧ far.back ⊆ more.back)
    (hlater : ∀ other, owed row other →
      later row other ∨ ∃ far, next other = some far ∧ row ∈ far.back) :
    Fits next later row links where
  marker := by
    intro other hmarker
    obtain ⟨hne, hsome⟩ := hfits.marker other hmarker
    obtain ⟨far, hfar⟩ := isSome_iff_exists.mp hsome
    obtain ⟨more, hmore, _⟩ := hgrows other far hfar
    exact ⟨hne, by rw [hmore]; rfl⟩
  out := by
    intro other hother
    obtain ⟨hne, howed | ⟨far, hfar, hin⟩⟩ := hfits.out other hother
    · exact ⟨hne, hlater other howed⟩
    · obtain ⟨more, hmore, _, hback⟩ := hgrows other far hfar
      exact ⟨hne, .inr ⟨more, hmore, hback hin⟩⟩
  back := by
    intro other hother
    obtain ⟨hne, far, hfar, hin⟩ := hfits.back other hother
    obtain ⟨more, hmore, hout, _⟩ := hgrows other far hfar
    exact ⟨hne, more, hmore, hout hin⟩

section Update

variable [DecidableEq α]

variable (hpaired : Paired graph owed)
include hpaired

theorem rewrite (hfits : Fits graph later row links)
    (hkeepsOut : (linksAt graph row).out ⊆ links.out)
    (hkeepsBack : (linksAt graph row).back ⊆ links.back)
    (hlater : ∀ first second, owed first second → later first second ∨
      (second = row ∧ first ∈ links.back)) :
    Paired (update graph row (some links)) later := by
  -- a row other than the written one is as before, and its far end lost nothing
  have hgrows : ∀ other far, graph other = some far →
      ∃ more, update graph row (some links) other = some more ∧
        far.out ⊆ more.out ∧ far.back ⊆ more.back := by
    intro other far hother
    by_cases hsame : other = row
    · subst hsame
      rw [linksAt_of_some hother] at hkeepsOut hkeepsBack
      exact ⟨links, update_self .., hkeepsOut, hkeepsBack⟩
    · rw [update_of_ne hsame]
      exact ⟨far, hother, subset_rfl, subset_rfl⟩
  refine of_fits fun other found hother => ?_
  by_cases hsame : other = row
  · subst hsame
    rw [update_self] at hother
    cases hother
    exact hfits.mono hgrows fun _ howed => .inl howed
  · rw [update_of_ne hsame] at hother
    refine (linksAt_of_some hother ▸ hpaired.fits other).mono hgrows fun target howed => ?_
    rcases hlater other target howed with hstill | ⟨rfl, hpaid⟩
    · exact .inl hstill
    · exact .inr ⟨links, update_self .., hpaid⟩

theorem touch (row : α) : Paired (update graph row (some (linksAt graph row))) owed :=
  hpaired.rewrite (hpaired.fits row) subset_rfl subset_rfl fun _ _ howed => .inl howed

theorem grow {targets : Set α} (hrow : row ∉ targets) :
    Paired
      (update graph row
        (some { linksAt graph row with out := (linksAt graph row).out ∪ targets }))
      (fun first second => owed first second ∨ (first = row ∧ second ∈ targets)) := by
  have hfits := hpaired.fits row
  refine hpaired.rewrite ⟨hfits.marker, ?_, hfits.back⟩ Set.subset_union_left subset_rfl
    fun _ _ howed => .inl (.inl howed)
  rintro other (hother | hother)
  · obtain ⟨hne, hkept⟩ := hfits.out other hother
    exact ⟨hne, hkept.imp_left .inl⟩
  · exact ⟨fun hsame => hrow (hsame ▸ hother), .inl (.inr ⟨rfl, hother⟩)⟩

theorem settle {target : α} (hrow : graph row = some links) (hout : target ∈ links.out) :
    Paired
      (update graph target
        (some { linksAt graph target with back := insert row (linksAt graph target).back }))
      (fun first second => owed first second ∧ ¬(first = row ∧ second = target)) := by
  have hne : row ≠ target := by
    rintro rfl
    exact hpaired.out_ne row links hrow hout
  have hfits := hpaired.fits target
  refine hpaired.rewrite ⟨hfits.marker, ?_, ?_⟩ subset_rfl (Set.subset_insert _ _) ?_
  · intro other hother
    obtain ⟨hother, hkept⟩ := hfits.out other hother
    exact ⟨hother, hkept.imp_left fun howed => ⟨howed, fun hboth => hne hboth.1.symm⟩⟩
  · rintro other (rfl | hother)
    · exact ⟨hne, links, hrow, hout⟩
    · exact hfits.back other hother
  · intro first second howed
    by_cases hpaid : first = row ∧ second = target
    · exact .inr ⟨hpaid.2, hpaid.1 ▸ Set.mem_insert _ _⟩
    · exact .inl ⟨howed, hpaid⟩

theorem mark {marking : α} (hrow : graph row = some links) (hne : marking ≠ row)
    (hknown : (graph marking).isSome) :
    Paired
      (update graph row
        (some { links with marker := links.marker.or (some marking) }))
      owed := by
  have hfits := hpaired.fits row
  rw [linksAt_of_some hrow] at hfits
  refine hpaired.rewrite ⟨fun other hmarker => ?_, hfits.out, hfits.back⟩
    (linksAt_of_some hrow ▸ subset_rfl) (linksAt_of_some hrow ▸ subset_rfl)
    fun _ _ howed => .inl howed
  rcases or_eq_some_iff.mp hmarker with hold | ⟨_, hnew⟩
  · exact hfits.marker other hold
  · cases hnew
    exact ⟨hne, hknown⟩

end Update

end Paired

section Merge

variable [DecidableEq α]

open Paired (linksAt linksAt_of_some)

def Links.repoint (gone target : α) (links : Links α) : Links α :=
  { links with marker := if links.marker = some gone then some target else links.marker }

def merge (graph : α → Option (Links α)) (target gone : α) : α → Option (Links α) :=
  fun row =>
    if row = gone then
      Option.none
    else if row = target then
      some
        { marker := (linksAt graph target).marker.or (linksAt graph gone).marker
          out := (linksAt graph target).out ∪ (linksAt graph gone).out
          back := (linksAt graph target).back ∪ (linksAt graph gone).back }
    else
      (graph row).map (Links.repoint gone target)

variable {graph : α → Option (Links α)} {target gone : α}

theorem merge_links (hout : (linksAt graph gone).out = ∅) (hback : (linksAt graph gone).back = ∅)
    {row : α} {found : Links α} (hrow : merge graph target gone row = some found) :
    found.out = (linksAt graph row).out ∧ found.back = (linksAt graph row).back := by
  unfold merge at hrow
  split at hrow
  · cases hrow
  · split at hrow
    next hsame =>
      subst hsame
      cases hrow
      exact ⟨by rw [hout, Set.union_empty], by rw [hback, Set.union_empty]⟩
    · obtain ⟨links, hgraph, rfl⟩ := map_eq_some_iff.mp hrow
      rw [linksAt_of_some hgraph]
      exact ⟨rfl, rfl⟩

theorem merge_isSome {row : α} (hrow : row ≠ gone) (hsome : (graph row).isSome) :
    (merge graph target gone row).isSome := by
  unfold merge
  rw [if_neg hrow]
  split
  · rfl
  · rwa [isSome_map]

/-- A row that is linked to another is not the one that goes. -/
theorem merge_far (hout : (linksAt graph gone).out = ∅) (hback : (linksAt graph gone).back = ∅)
    {row other : α} {far : Links α} (hgraph : graph other = some far)
    (hlinked : row ∈ far.out ∨ row ∈ far.back) :
    ∃ kept, merge graph target gone other = some kept ∧ kept.out = far.out ∧
      kept.back = far.back := by
  have hstays : other ≠ gone := by
    rintro rfl
    rw [linksAt_of_some hgraph] at hout hback
    rw [hout, hback] at hlinked
    exact hlinked.elim id id
  obtain ⟨kept, hkept⟩ := isSome_iff_exists.mp
    (@merge_isSome _ _ graph target _ _ hstays (by rw [hgraph]; rfl))
  have hlinks := merge_links hout hback hkept
  rw [linksAt_of_some hgraph] at hlinks
  exact ⟨kept, hkept, hlinks⟩

theorem merge_target (hne : target ≠ gone) : (merge graph target gone target).isSome := by
  unfold merge
  rw [if_neg hne, if_pos rfl]
  rfl

theorem Consistent.merge_marker (hconsistent : Consistent graph) (hne : target ≠ gone)
    (hmarks : (linksAt graph target).marker ≠ some gone)
    (hmarked : (linksAt graph target).marker.isSome ∨ (linksAt graph gone).marker ≠ some target)
    {row other : α} {found : Links α} (hrow : TwoWay.merge graph target gone row = some found)
    (hmarker : found.marker = some other) :
    other ≠ row ∧ other ≠ gone ∧ (other = target ∨ (graph other).isSome) := by
  unfold TwoWay.merge at hrow
  split at hrow
  · cases hrow
  · split at hrow
    next hsame =>
      subst hsame
      cases hrow
      cases hown : (linksAt graph row).marker with
      | some marker =>
        simp only [hown, some_or, Option.some.injEq] at hmarker
        subst hmarker
        obtain ⟨hother, hknown⟩ := (hconsistent.fits row).marker _ hown
        exact ⟨hother, fun hsame => hmarks (hsame ▸ hown), .inr hknown⟩
      | none =>
        simp only [hown, none_or] at hmarker
        obtain ⟨hother, hknown⟩ := (hconsistent.fits gone).marker other hmarker
        refine ⟨?_, hother, .inr hknown⟩
        rintro rfl
        exact (hmarked.resolve_left (by simp [hown])) hmarker
    next hrowTarget =>
      obtain ⟨links, hgraph, rfl⟩ := map_eq_some_iff.mp hrow
      unfold Links.repoint at hmarker
      split at hmarker
      · cases hmarker
        exact ⟨Ne.symm hrowTarget, hne, .inl rfl⟩
      next hnotGone =>
        have hfits := hconsistent.fits row
        rw [linksAt_of_some hgraph] at hfits
        obtain ⟨hother, hknown⟩ := hfits.marker other hmarker
        exact ⟨hother, fun hsame => hnotGone (hsame ▸ hmarker), .inr hknown⟩

theorem Consistent.merge (hconsistent : Consistent graph) (hne : target ≠ gone)
    (hout : (linksAt graph gone).out = ∅) (hback : (linksAt graph gone).back = ∅)
    (hmarks : (linksAt graph target).marker ≠ some gone)
    (hmarked : (linksAt graph target).marker.isSome ∨ (linksAt graph gone).marker ≠ some target) :
    Consistent (merge graph target gone) := by
  refine Paired.of_fits fun row found hrow => ?_
  have hfits := hconsistent.fits row
  obtain ⟨hfoundOut, hfoundBack⟩ := merge_links hout hback hrow
  refine ⟨fun other hmarker => ?_, fun other hother => ?_, fun other hother => ?_⟩
  · obtain ⟨hother, hstays, htarget | hsome⟩ :=
      hconsistent.merge_marker hne hmarks hmarked hrow hmarker
    · exact ⟨hother, by rw [htarget]; exact merge_target hne⟩
    · exact ⟨hother, merge_isSome hstays hsome⟩
  · rw [hfoundOut] at hother
    obtain ⟨hself, howed | ⟨far, hgraph, hin⟩⟩ := hfits.out other hother
    · exact howed.elim
    · obtain ⟨kept, hkept, _, hsame⟩ := merge_far hout hback hgraph (.inr hin)
      exact ⟨hself, .inr ⟨kept, hkept, hsame ▸ hin⟩⟩
  · rw [hfoundBack] at hother
    obtain ⟨hself, far, hgraph, hin⟩ := hfits.back other hother
    obtain ⟨kept, hkept, hsame, _⟩ := merge_far hout hback hgraph (.inl hin)
    exact ⟨hself, kept, hkept, hsame ▸ hin⟩

end Merge
end TwoWay
