import Mathlib

/-!
# Paging through a log

Rows get increasing numbers, and old rows are dropped at any time.  A reader asks again
and again for the first few wanted rows above the last number it was given.
-/

universe u

namespace Paging

open List

variable {α : Type u}

structure Feed (α : Type u) where
  stored : List α
  written : List α
  top : Int

structure Page (α : Type u) where
  after : Int
  rows : List α
  more : Bool
  feed : Feed α

def received (pages : List (Page α)) : List α :=
  pages.flatMap Page.rows

section Defs

variable (rank : α → Int) (wanted : α → Bool)

structure Feed.Ordered (feed : Feed α) : Prop where
  increasing : feed.stored.Pairwise fun first second => rank first < rank second
  kept : ∀ row ∈ feed.stored, row ∈ feed.written
  given : ∀ row ∈ feed.written, rank row ≤ feed.top

/-- A row with a number past the top is written; any of the stored rows may be dropped. -/
structure Feed.Gains (row : α) (feed next : Feed α) : Prop where
  stored : next.stored.Sublist (feed.stored ++ [row])
  written : next.written = feed.written ++ [row]
  above : feed.top < rank row
  top : next.top = rank row

def ahead (stored : List α) (after : Int) : List α :=
  stored.filter fun row => wanted row && after < rank row

def takePage (feed : Feed α) (after : Int) (limit : Nat) : Page α :=
  { after := after
    rows := (ahead rank wanted feed.stored after).take limit
    more := decide (limit < (ahead rank wanted feed.stored after).length)
    feed := feed }

def Page.last (page : Page α) : Int :=
  (page.rows.getLast?.map rank).getD page.after

/-- A page that leaves nothing out up to its last row, and knows whether wanted rows
follow. -/
structure Page.Exact (page : Page α) : Prop where
  sound : ∀ row ∈ page.rows,
    row ∈ page.feed.stored ∧ wanted row = true ∧ page.after < rank row
  complete : ∀ row ∈ page.feed.stored, wanted row = true → page.after < rank row →
    rank row ≤ page.last rank → row ∈ page.rows
  more_iff : page.more = true ↔
    ∃ row ∈ page.feed.stored, wanted row = true ∧ page.last rank < rank row
  nonempty : page.more = true → page.rows ≠ []

def Page.Missed (page : Page α) (row : α) : Prop :=
  row ∈ page.feed.written ∧ row ∉ page.feed.stored ∧
    page.after < rank row ∧ rank row ≤ page.last rank

/-- What the pages of a reader bring: each starts where the one before ended, every wanted
row that is passed arrives unless it was dropped before, and the rows arrive in order, so
none of them twice. -/
structure Delivered (first : Int) (feed : Feed α) (cursor : Int) (pages : List (Page α)) :
    Prop where
  exact : ∀ page ∈ pages, page.Exact rank wanted
  starts : ∀ page ∈ pages.head?, page.after = first
  tiled : pages.IsChain fun earlier later => later.after = earlier.last rank
  ends : cursor = (pages.getLast?.map (Page.last rank)).getD first
  ordered : (received pages).Pairwise fun first second => rank first < rank second
  complete : ∀ row ∈ feed.written, wanted row = true → first < rank row →
    rank row ≤ cursor → row ∈ received pages ∨ ∃ page ∈ pages, page.Missed rank row

structure Follows (first : Int) (feed : Feed α) (cursor : Int) (pages : List (Page α)) :
    Prop where
  delivered : Delivered rank wanted first feed cursor pages
  numbered : feed.Ordered rank
  start_le : first ≤ cursor
  cursor_le : cursor ≤ max first feed.top
  behind : ∀ row ∈ received pages, rank row ≤ cursor
  past : ∀ page ∈ pages, ∀ row ∈ page.feed.written, rank row ≤ feed.top
  reached : ∀ page ∈ pages, ∀ row ∈ feed.stored, row ∈ page.feed.written →
    row ∈ page.feed.stored

end Defs

section Ahead

variable {rank : α → Int} {wanted : α → Bool} {stored : List α} {after : Int} {row : α}

theorem mem_ahead :
    row ∈ ahead rank wanted stored after ↔
      row ∈ stored ∧ wanted row = true ∧ after < rank row := by
  simp [ahead]

theorem increasing_ahead (hstored : stored.Pairwise fun first second => rank first < rank second) :
    (ahead rank wanted stored after).Pairwise fun first second => rank first < rank second :=
  hstored.filter _

end Ahead

section OnePage

variable {rank : α → Int} {wanted : α → Bool} {feed : Feed α} {after : Int} {limit : Nat}

theorem rank_lt_of_mem_drop (hfeed : feed.Ordered rank) {row later : α}
    (hrow : row ∈ (takePage rank wanted feed after limit).rows)
    (hlater : later ∈ (ahead rank wanted feed.stored after).drop limit) :
    rank row < rank later := by
  have hsplit := take_append_drop limit (ahead rank wanted feed.stored after)
  have hincreasing := @increasing_ahead _ _ wanted _ after hfeed.increasing
  rw [← hsplit] at hincreasing
  exact (pairwise_append.mp hincreasing).2.2 row hrow later hlater

theorem last_eq {page : Page α} (hempty : page.rows = []) : page.last rank = page.after := by
  simp [Page.last, hempty]

theorem exists_last {page : Page α} (hrows : page.rows ≠ []) :
    ∃ row ∈ page.rows, page.last rank = rank row := by
  refine ⟨page.rows.getLast hrows, getLast_mem hrows, ?_⟩
  simp [Page.last, getLast?_eq_some_getLast hrows]

theorem rank_le_last {page : Page α}
    (hincreasing : page.rows.Pairwise fun first second => rank first < rank second)
    {row : α} (hrow : row ∈ page.rows) : rank row ≤ page.last rank := by
  have hrows : page.rows ≠ [] := ne_nil_of_mem hrow
  rw [Page.last, getLast?_eq_some_getLast hrows, Option.map_some, Option.getD_some]
  rw [← dropLast_append_getLast hrows] at hincreasing hrow
  rcases mem_append.mp hrow with hinit | hend
  · exact le_of_lt ((pairwise_append.mp hincreasing).2.2 row hinit _ (mem_singleton_self _))
  · rw [mem_singleton.mp hend]

theorem increasing_takePage (hfeed : feed.Ordered rank) :
    (takePage rank wanted feed after limit).rows.Pairwise
      fun first second => rank first < rank second :=
  (increasing_ahead hfeed.increasing).sublist (take_sublist _ _)

theorem mem_takePage {row : α} (hrow : row ∈ (takePage rank wanted feed after limit).rows) :
    row ∈ feed.stored ∧ wanted row = true ∧ after < rank row :=
  mem_ahead.mp (mem_of_mem_take hrow)

theorem after_le_last : after ≤ (takePage rank wanted feed after limit).last rank := by
  by_cases hrows : (takePage rank wanted feed after limit).rows = []
  · rw [last_eq hrows]
    rfl
  · obtain ⟨row, hrow, hlast⟩ := exists_last hrows
    rw [hlast]
    exact le_of_lt (mem_takePage hrow).2.2

theorem last_le_top (hfeed : feed.Ordered rank) :
    (takePage rank wanted feed after limit).last rank ≤ max after feed.top := by
  by_cases hrows : (takePage rank wanted feed after limit).rows = []
  · rw [last_eq hrows]
    exact le_max_left _ _
  · obtain ⟨row, hrow, hlast⟩ := exists_last hrows
    rw [hlast]
    exact (hfeed.given row (hfeed.kept row (mem_takePage hrow).1)).trans (le_max_right _ _)

theorem ahead_last (hfeed : feed.Ordered rank) (hlimit : 0 < limit) :
    ahead rank wanted feed.stored ((takePage rank wanted feed after limit).last rank) =
      (ahead rank wanted feed.stored after).drop limit := by
  have hfilter : ahead rank wanted feed.stored
        ((takePage rank wanted feed after limit).last rank) =
      (ahead rank wanted feed.stored after).filter fun row =>
        (takePage rank wanted feed after limit).last rank < rank row := by
    unfold ahead
    rw [filter_filter]
    refine filter_congr fun row _ => ?_
    have hle := @after_le_last _ rank wanted feed after limit
    by_cases hbeyond : (takePage rank wanted feed after limit).last rank < rank row
    · simp [hbeyond, hle.trans_lt hbeyond]
    · simp [hbeyond]
  have htake : ((takePage rank wanted feed after limit).rows.filter fun row =>
      (takePage rank wanted feed after limit).last rank < rank row) = [] := by
    refine filter_eq_nil_iff.mpr fun row hrow => ?_
    simpa using rank_le_last (increasing_takePage hfeed) hrow
  have hdrop : (((ahead rank wanted feed.stored after).drop limit).filter fun row =>
      (takePage rank wanted feed after limit).last rank < rank row) =
        (ahead rank wanted feed.stored after).drop limit := by
    refine filter_eq_self.mpr fun row hrow => ?_
    have hrows : (takePage rank wanted feed after limit).rows ≠ [] := by
      intro hempty
      rcases take_eq_nil_iff.mp hempty with hnone | hnothing
      · omega
      · exact ne_nil_of_mem (mem_of_mem_drop hrow) hnothing
    obtain ⟨row', hrow', hlast⟩ := exists_last hrows
    rw [hlast]
    simpa using rank_lt_of_mem_drop hfeed hrow' hrow
  have hsplit := take_append_drop limit (ahead rank wanted feed.stored after)
  rw [hfilter]
  conv_lhs => rw [← hsplit]
  rw [filter_append]
  unfold takePage at htake hdrop ⊢
  rw [htake, hdrop, nil_append]

theorem exact_takePage (hfeed : feed.Ordered rank) (hlimit : 0 < limit) :
    (takePage rank wanted feed after limit).Exact rank wanted where
  sound := fun _ => mem_takePage
  complete := by
    intro row hstored hwanted hafter hlast
    have hahead : row ∈ ahead rank wanted feed.stored after :=
      mem_ahead.mpr ⟨hstored, hwanted, hafter⟩
    rw [← take_append_drop limit (ahead rank wanted feed.stored after)] at hahead
    rcases mem_append.mp hahead with htake | hdrop
    · exact htake
    · rw [← ahead_last hfeed hlimit] at hdrop
      exact absurd (mem_ahead.mp hdrop).2.2 (not_lt.mpr hlast)
  more_iff := by
    have hmore : (takePage rank wanted feed after limit).more = true ↔
        ahead rank wanted feed.stored ((takePage rank wanted feed after limit).last rank) ≠
          [] := by
      rw [ahead_last hfeed hlimit, Ne, drop_eq_nil_iff, not_le]
      exact decide_eq_true_iff
    rw [hmore]
    constructor
    · intro hne
      obtain ⟨row, hrow⟩ := exists_mem_of_ne_nil _ hne
      exact ⟨row, mem_ahead.mp hrow⟩
    · rintro ⟨row, hrow⟩
      exact ne_nil_of_mem (mem_ahead.mpr hrow)
  nonempty := by
    intro hmore hempty
    have hlong : limit < (ahead rank wanted feed.stored after).length :=
      decide_eq_true_iff.mp hmore
    have hlength := congrArg length hempty
    simp only [takePage, length_take, length_nil] at hlength
    omega

end OnePage

section Runs

variable {rank : α → Int} {wanted : α → Bool} {first cursor : Int} {feed next : Feed α}
  {pages : List (Page α)} {limit : Nat}

theorem received_append (pages : List (Page α)) (page : Page α) :
    received (pages ++ [page]) = received pages ++ page.rows := by
  simp [received]

theorem follows_start (hfeed : feed.Ordered rank) (first : Int) :
    Follows rank wanted first feed first [] where
  delivered :=
    { exact := by simp
      starts := by simp
      tiled := isChain_nil
      ends := rfl
      ordered := List.Pairwise.nil
      complete := fun row _ _ hafter hbefore => absurd hafter (not_lt.mpr hbefore) }
  numbered := hfeed
  start_le := le_refl _
  cursor_le := le_max_left _ _
  behind := by simp [received]
  past := by simp
  reached := by simp

section Gains

variable {row : α} (hgains : feed.Gains rank row next)
include hgains

theorem Feed.Gains.mem_stored {other : α} (hother : other ∈ next.stored) :
    other ∈ feed.stored ∨ other = row := by
  simpa using hgains.stored.subset hother

theorem Feed.Gains.mem_written {other : α} :
    other ∈ next.written ↔ other ∈ feed.written ∨ other = row := by
  simp [hgains.written]

theorem Feed.Gains.ordered (hfeed : feed.Ordered rank) : next.Ordered rank where
  increasing := by
    refine List.Pairwise.sublist hgains.stored
      (pairwise_append.mpr ⟨hfeed.increasing, pairwise_singleton _ _, ?_⟩)
    intro older holder newer hnewer
    rw [mem_singleton.mp hnewer]
    exact (hfeed.given older (hfeed.kept older holder)).trans_lt hgains.above
  kept := fun other hother =>
    hgains.mem_written.mpr ((hgains.mem_stored hother).imp_left (hfeed.kept other))
  given := by
    intro other hother
    rw [hgains.top]
    rcases hgains.mem_written.mp hother with hold | rfl
    · exact (hfeed.given other hold).trans hgains.above.le
    · exact le_rfl

end Gains

section Follows

variable (hfollows : Follows rank wanted first feed cursor pages)
include hfollows

theorem Follows.write {row : α} (hgains : feed.Gains rank row next) :
    Follows rank wanted first next cursor pages where
  delivered :=
    { hfollows.delivered with
      complete := by
        intro row hrow hwanted hafter hbefore
        rcases hgains.mem_written.mp hrow with hold | rfl
        · exact hfollows.delivered.complete row hold hwanted hafter hbefore
        · have hle := hbefore.trans hfollows.cursor_le
          rcases le_max_iff.mp hle with hle | hle
          · exact absurd hafter (not_lt.mpr hle)
          · exact absurd hgains.above (not_lt.mpr hle) }
  numbered := hgains.ordered hfollows.numbered
  start_le := hfollows.start_le
  cursor_le := hfollows.cursor_le.trans (max_le_max_left _ (hgains.top ▸ hgains.above.le))
  behind := hfollows.behind
  past := fun page hpage row hwritten =>
    (hfollows.past page hpage row hwritten).trans (hgains.top ▸ hgains.above.le)
  reached := by
    intro page hpage row hrow hwritten
    rcases hgains.mem_stored hrow with hold | rfl
    · exact hfollows.reached page hpage row hold hwritten
    · exact absurd hgains.above (not_lt.mpr (hfollows.past page hpage row hwritten))

theorem Follows.page (hlimit : 0 < limit) :
    Follows rank wanted first feed ((takePage rank wanted feed cursor limit).last rank)
      (pages ++ [takePage rank wanted feed cursor limit]) where
  delivered :=
    { exact := by
        intro page hpage
        rcases mem_append.mp hpage with hold | hnew
        · exact hfollows.delivered.exact page hold
        · rw [mem_singleton.mp hnew]
          exact exact_takePage hfollows.numbered hlimit
      starts := by
        intro page hpage
        cases pages with
        | nil =>
          obtain rfl : _ = page := by simpa using hpage
          exact hfollows.delivered.ends
        | cons earliest rest =>
          exact hfollows.delivered.starts page (by simpa using hpage)
      tiled := by
        refine isChain_append.mpr ⟨hfollows.delivered.tiled, isChain_singleton _, ?_⟩
        intro earlier hearlier later hlater
        obtain rfl : _ = later := by simpa using hlater
        have hcursor := hfollows.delivered.ends
        rw [Option.mem_def.mp hearlier] at hcursor
        exact hcursor
      ends := by simp
      ordered := by
        rw [received_append]
        refine pairwise_append.mpr
          ⟨hfollows.delivered.ordered, increasing_takePage hfollows.numbered, ?_⟩
        intro earlier hearlier later hlater
        exact (hfollows.behind earlier hearlier).trans_lt (mem_takePage hlater).2.2
      complete := by
        intro row hrow hwanted hafter hbefore
        rw [received_append]
        by_cases hpassed : rank row ≤ cursor
        · rcases hfollows.delivered.complete row hrow hwanted hafter hpassed with
            hreceived | ⟨page, hpage, hmissed⟩
          · exact .inl (mem_append_left _ hreceived)
          · exact .inr ⟨page, mem_append_left _ hpage, hmissed⟩
        · by_cases hstored : row ∈ feed.stored
          · exact .inl (mem_append_right _
              ((exact_takePage hfollows.numbered hlimit).complete row hstored hwanted
                (not_le.mp hpassed) hbefore))
          · exact .inr ⟨takePage rank wanted feed cursor limit, by simp, hrow, hstored,
              not_le.mp hpassed, hbefore⟩ }
  numbered := hfollows.numbered
  start_le := hfollows.start_le.trans after_le_last
  cursor_le := by
    refine (last_le_top hfollows.numbered).trans ?_
    exact max_le hfollows.cursor_le (le_max_right _ _)
  behind := by
    intro row hrow
    rw [received_append] at hrow
    rcases mem_append.mp hrow with hold | hnew
    · exact (hfollows.behind row hold).trans after_le_last
    · exact rank_le_last (increasing_takePage hfollows.numbered) hnew
  past := by
    intro page hpage
    rcases mem_append.mp hpage with hold | hnew
    · exact hfollows.past page hold
    · rw [mem_singleton.mp hnew]
      exact hfollows.numbered.given
  reached := by
    intro page hpage row hrow hwritten
    rcases mem_append.mp hpage with hold | hnew
    · exact hfollows.reached page hold row hrow hwritten
    · rw [mem_singleton.mp hnew]
      exact hrow

theorem Follows.arrived {row : α} (hrow : row ∈ feed.stored) (hwanted : wanted row = true)
    (hafter : first < rank row) (hahead : row ∉ ahead rank wanted feed.stored cursor) :
    row ∈ received pages := by
  have hpassed : rank row ≤ cursor := by
    by_contra hbeyond
    exact hahead (mem_ahead.mpr ⟨hrow, hwanted, not_le.mp hbeyond⟩)
  rcases hfollows.delivered.complete row (hfollows.numbered.kept row hrow) hwanted hafter
    hpassed with hreceived | ⟨page, hpage, hwritten, hgone, -⟩
  · exact hreceived
  · exact absurd (hfollows.reached page hpage row hrow hwritten) hgone

end Follows

end Runs

end Paging
