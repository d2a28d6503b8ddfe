import JeryuForge.Flow.Report
import JeryuForge.Library.Inflation

/-!
# A report over a window needs only the window's lots

`flow_visits` leaves out the lots whose visits all ended before the window.  Such a lot
has no open visit and none that started or left in the window, so every figure is the same
without it.
-/

namespace JeryuForge
namespace Flow
namespace Report

open List Bool

def share (live : String → Bool) (visits : List Visit) : List Visit :=
  visits.filter fun visit => live visit.lotId

def Settled (sinceMs : Int) (live : String → Bool) (visits : List Visit) : Prop :=
  ∀ visit ∈ visits, live visit.lotId = false →
    (∃ left, visit.leftMs = some left ∧ left < sinceMs) ∧
      ∀ started ∈ visit.startedMs, started < sinceMs

section Lists

variable {sinceMs : Int} {live : String → Bool} {visits : List Visit}

theorem Settled.filter (hsettled : Settled sinceMs live visits) (p : Visit → Bool) :
    Settled sinceMs live (visits.filter p) :=
  fun visit hvisit => hsettled visit (mem_of_mem_filter hvisit)

theorem filter_share {p : Visit → Bool}
    (hlive : ∀ visit ∈ visits, p visit = true → live visit.lotId = true) :
    (share live visits).filter p = visits.filter p := by
  unfold share
  rw [filter_filter]
  refine filter_congr fun visit hvisit => ?_
  by_cases hp : p visit = true
  · rw [hp, hlive visit hvisit hp]
    rfl
  · rw [not_eq_true] at hp
    rw [hp]
    rfl

theorem share_filter (live : String → Bool) (p : Visit → Bool) (visits : List Visit) :
    (share live visits).filter p = share live (visits.filter p) := by
  unfold share
  rw [filter_filter, filter_filter]
  exact filter_congr fun visit _ => and_comm _ _

theorem Settled.live_of_open (hsettled : Settled sinceMs live visits) {visit : Visit}
    (hvisit : visit ∈ visits) (hopen : visit.isOpen = true) : live visit.lotId = true := by
  by_contra hnot
  obtain ⟨⟨left, hleft, -⟩, -⟩ := hsettled visit hvisit (eq_false_iff.mpr hnot)
  unfold Visit.isOpen at hopen
  rw [hleft] at hopen
  cases hopen

theorem openVisits_share (hsettled : Settled sinceMs live visits) (isCurrent : Visit → Bool) :
    openVisits isCurrent (share live visits) = openVisits isCurrent visits :=
  filter_share fun _ hvisit hopen =>
    hsettled.live_of_open hvisit (and_eq_true_iff.mp hopen).1

variable {inWindow : Int → Bool}

section Settled

variable (hsettled : Settled sinceMs live visits)
  (hwindow : ∀ ms, inWindow ms = true → sinceMs ≤ ms)
include hsettled hwindow

theorem Settled.live_of_left {visit : Visit} (hvisit : visit ∈ visits)
    (hleft : visit.leftMs.any inWindow = true) : live visit.lotId = true := by
  by_contra hnot
  obtain ⟨⟨left, hsome, hbefore⟩, -⟩ := hsettled visit hvisit (eq_false_iff.mpr hnot)
  rw [hsome] at hleft
  exact absurd (hwindow left hleft) (not_le.mpr hbefore)

theorem startedVisits_share :
    startedVisits inWindow (share live visits) = startedVisits inWindow visits := by
  refine filter_share fun visit hvisit hstarted => ?_
  by_contra hnot
  obtain ⟨-, hbefore⟩ := hsettled visit hvisit (eq_false_iff.mpr hnot)
  cases hsome : visit.startedMs with
  | none =>
    rw [hsome] at hstarted
    cases hstarted
  | some started =>
    rw [hsome] at hstarted
    exact absurd (hwindow started hstarted) (not_le.mpr (hbefore started hsome))

end Settled

theorem looped_share {lotId : String} (hlot : live lotId = true) :
    looped (share live visits) lotId = looped visits lotId := by
  unfold looped share
  rw [any_filter]
  refine congrArg (any visits) (funext fun visit => ?_)
  by_cases hsame : visit.lotId = lotId
  · rw [hsame, hlot]
    rfl
  · simp [hsame]

end Lists

section Stations

variable {sinceMs : Int} {live : String → Bool} {own : List Visit} {inWindow : Int → Bool}

theorem stationReport_share (hsettled : Settled sinceMs live own)
    (hwindow : ∀ ms, inWindow ms = true → sinceMs ≤ ms) (station : Station) (ever : Bool)
    (nowMs : Int) (hours : Float) (isCurrent : Visit → Bool) :
    stationReport station (share live own) ever nowMs inWindow hours isCurrent =
      stationReport station own ever nowMs inWindow hours isCurrent := by
  have hfirstPass :
      (((leftVisits inWindow own).filter Visit.leftForward).filter
          fun visit => !looped (share live own) visit.lotId) =
        ((leftVisits inWindow own).filter Visit.leftForward).filter
          fun visit => !looped own visit.lotId := by
    refine filter_congr fun visit hvisit => ?_
    have hleft := mem_filter.mp (mem_of_mem_filter hvisit)
    rw [looped_share (hsettled.live_of_left hwindow hleft.1 hleft.2)]
  unfold stationReport
  rw [openVisits_share hsettled, startedVisits_share hsettled hwindow,
    show leftVisits inWindow (share live own) = leftVisits inWindow own from
      filter_share fun _ hvisit hleft => hsettled.live_of_left hwindow hvisit hleft]
  simp only [hfirstPass]

end Stations

section Lots

variable {visits : List Visit} {live : String → Bool}

theorem get?_byLot (visits : List Visit) (lotId : String) :
    (byLot visits).get? lotId =
      if (visits.filter fun visit => visit.lotId = lotId) = [] then none
      else some (visits.filter fun visit => visit.lotId = lotId) := by
  induction visits using reverseRecOn with
  | nil => rfl
  | append_singleton earlier visit ih =>
    have hbyLot : byLot (earlier ++ [visit]) =
        (byLot earlier).insert visit.lotId
          (((byLot earlier).get? visit.lotId).getD [] ++ [visit]) := by
      simp [byLot]
    rw [hbyLot]
    by_cases hsame : visit.lotId = lotId
    · subst hsame
      have hvalue : ((byLot earlier).get? visit.lotId).getD [] =
          earlier.filter fun other => other.lotId = visit.lotId := by
        rw [ih]
        split
        next hnone =>
          rw [hnone]
          rfl
        · rfl
      rw [OrdMap.get?_insert_self, hvalue]
      simp [filter_append]
    · rw [OrdMap.get?_insert_of_ne _ _ (Ne.symm hsame), ih]
      simp [filter_append, hsame]

theorem byLot_share (live : String → Bool) (visits : List Visit) :
    byLot (share live visits) = (byLot visits).retain fun lotId _ => live lotId := by
  refine OrdMap.ext_get? fun lotId => ?_
  have hshare : ((share live visits).filter fun visit => visit.lotId = lotId) =
      if live lotId = true then visits.filter fun visit => visit.lotId = lotId else [] := by
    unfold share
    rw [filter_filter]
    split
    next hlive =>
      refine filter_congr fun visit _ => ?_
      by_cases hsame : visit.lotId = lotId
      · simp [hsame, hlive]
      · simp [hsame]
    next hnot =>
      refine filter_eq_nil_iff.mpr fun visit _ => ?_
      by_cases hsame : visit.lotId = lotId
      · simp [hsame, hnot]
      · simp [hsame]
  rw [OrdMap.get?_retain, get?_byLot, get?_byLot, hshare]
  by_cases hlive : live lotId = true
  · simp only [hlive, if_true]
    split
    · rfl
    · rfl
  · simp only [hlive, false_eq_true, if_false, if_true]
    split
    · rfl
    · rfl

variable {lot : List Visit} {lotId : String}

theorem mem_of_mem_byLot (hentry : (lotId, lot) ∈ (byLot visits).entries) :
    ∀ visit ∈ lot, visit ∈ visits ∧ visit.lotId = lotId := by
  have hget := ((byLot visits).get?_eq_some_iff lotId lot).mpr hentry
  rw [get?_byLot] at hget
  split at hget
  · cases hget
  · obtain rfl := Option.some.inj hget
    intro visit hvisit
    simpa using hvisit

theorem filterMap_filter_of_none {α β : Type} {p : α → Bool} {f : α → Option β}
    {items : List α} (hnone : ∀ item ∈ items, p item = false → f item = none) :
    (items.filter p).filterMap f = items.filterMap f := by
  induction items with
  | nil => rfl
  | cons item rest ih =>
    have hrest := ih (forall_mem_cons.mp hnone).2
    by_cases hp : p item = true
    · rw [filter_cons_of_pos hp, filterMap_cons, filterMap_cons, hrest]
    · have hitem := hnone item (by simp) (eq_false_iff.mpr hp)
      rw [filter_cons_of_neg hp, hrest, filterMap_cons_none hitem]

variable {sinceMs : Int} {inWindow : Int → Bool}

section Settled

variable (hsettled : Settled sinceMs live visits)
include hsettled

theorem finishedLot_eq_none (hwindow : ∀ ms, inWindow ms = true → sinceMs ≤ ms)
    (hentry : (lotId, lot) ∈ (byLot visits).entries) (hover : live lotId = false) (nowMs : Int) :
    finishedLot nowMs inWindow lot = none := by
  have hnone : deployed inWindow lot = none := by
    refine find?_eq_none.mpr fun visit hvisit hfound => ?_
    obtain ⟨hmem, hlot⟩ := mem_of_mem_byLot hentry visit hvisit
    have hlive := hsettled.live_of_left hwindow hmem (and_eq_true_iff.mp hfound).2
    rw [hlot, hover] at hlive
    cases hlive
  unfold finishedLot
  rw [hnone]
  rfl

theorem openVisits_eq_nil (hentry : (lotId, lot) ∈ (byLot visits).entries)
    (hover : live lotId = false) (isCurrent : Visit → Bool) : openVisits isCurrent lot = [] := by
  refine filter_eq_nil_iff.mpr fun visit hvisit hopen => ?_
  obtain ⟨hmem, hlot⟩ := mem_of_mem_byLot hentry visit hvisit
  have hlive := hsettled.live_of_open hmem (and_eq_true_iff.mp hopen).1
  rw [hlot, hover] at hlive
  cases hlive

theorem line_share
    (hwindow : ∀ ms, inWindow ms = true → sinceMs ≤ ms) (nowMs : Int) (isCurrent : Visit → Bool) :
    line (share live visits) nowMs inWindow isCurrent =
      line visits nowMs inWindow isCurrent := by
  have hfinished : ((byLot (share live visits)).entries.map Prod.snd).filterMap
        (finishedLot nowMs inWindow) =
      ((byLot visits).entries.map Prod.snd).filterMap (finishedLot nowMs inWindow) := by
    rw [byLot_share, filterMap_map, filterMap_map]
    refine filterMap_filter_of_none fun entry hentry hover => ?_
    exact finishedLot_eq_none hsettled hwindow hentry hover nowMs
  have hopen : (((byLot (share live visits)).entries.map Prod.snd).filter
        fun lot => !(openVisits isCurrent lot).isEmpty).length =
      (((byLot visits).entries.map Prod.snd).filter
        fun lot => !(openVisits isCurrent lot).isEmpty).length := by
    rw [byLot_share, filter_map, filter_map, length_map, length_map]
    refine congrArg length ?_
    unfold OrdMap.retain
    rw [filter_filter]
    refine filter_congr fun entry hentry => ?_
    by_cases hlive : live entry.1 = true
    · simp [hlive]
    · have hnil := openVisits_eq_nil hsettled hentry (eq_false_iff.mpr hlive) isCurrent
      simp [hnil]
  unfold line
  simp only [hfinished, hopen]

theorem lotReport_share (rfc3339 : Int → String)
    (stations : List StationReport) (nowMs : Int) (station : Station) :
    lotReport rfc3339 (share live visits) stations nowMs station =
      lotReport rfc3339 visits stations nowMs station := by
  have hhold : ∀ visit prHref, holdReport rfc3339 visit (share live visits) prHref nowMs =
      holdReport rfc3339 visit visits prHref nowMs := by
    intro visit prHref
    have hfixes : ∀ hold, fixes hold (share live visits) = fixes hold visits := by
      refine fun hold => filter_share fun visit hvisit hfix => hsettled.live_of_open hvisit ?_
      simp only [and_eq_true] at hfix
      exact hfix.1.1.2
    unfold holdReport
    simp only [hfixes]
  funext visit
  unfold lotReport
  simp only [hhold]

theorem lots_share (rfc3339 : Int → String)
    (stations : List StationReport) (nowMs : Int) (isCurrent : Visit → Bool) (page : LotsPage) :
    lots rfc3339 (share live visits) stations nowMs isCurrent page =
      lots rfc3339 visits stations nowMs isCurrent page := by
  have hstation : lotsAt rfc3339 (share live visits) nowMs isCurrent page =
      lotsAt rfc3339 visits nowMs isCurrent page := by
    funext answer station
    unfold lotsAt
    simp only [listed, share_filter, openVisits_share (hsettled.filter _), lotReport_share hsettled]
  unfold lots
  rw [hstation]

end Settled

end Lots

section Build

variable {live : String → Bool} {visits : List Visit} {request : Request}
  {reached : List Station}

theorem windowStart_le (request : Request) (ms : Int) (hin : request.inWindow ms = true) :
    windowStart request.nowMs request.days ≤ ms :=
  of_decide_eq_true (and_eq_true_iff.mp hin).1

section Settled

variable (hsettled : Settled (windowStart request.nowMs request.days) live visits)
  (hreached : ∀ visit ∈ visits, visit.station ∈ reached)
include hsettled hreached

theorem reportOf_share (isCurrent : Visit → Bool) :
    reportOf request (share live visits) reached isCurrent =
      reportOf request visits reached isCurrent := by
  funext station
  have hever : ∀ own : List Visit, (∀ visit ∈ own, visit.station = station ∧ visit ∈ visits) →
      (!own.isEmpty || decide (station ∈ reached)) = decide (station ∈ reached) := by
    intro own hown
    cases own with
    | nil => rfl
    | cons visit rest =>
      obtain ⟨rfl, hvisit⟩ := hown visit (by simp)
      simp [hreached visit hvisit]
  unfold reportOf
  dsimp only
  have hown : ∀ visit ∈ visits.filter fun visit => visit.station = station,
      visit.station = station ∧ visit ∈ visits := by
    intro visit hvisit
    obtain ⟨hmem, hstation⟩ := mem_filter.mp hvisit
    exact ⟨of_decide_eq_true hstation, hmem⟩
  have hshare : ∀ visit ∈ share live (visits.filter fun visit => visit.station = station),
      visit.station = station ∧ visit ∈ visits :=
    fun visit hvisit => hown visit (mem_of_mem_filter hvisit)
  rw [share_filter, hever _ hown, hever _ hshare,
    stationReport_share (hsettled.filter _) (windowStart_le request)]

theorem buildPaged_share (rfc3339 : Int → String) (isCurrent : Visit → Bool) (page : LotsPage) :
    buildPaged rfc3339 request (share live visits) reached isCurrent page =
      buildPaged rfc3339 request visits reached isCurrent page := by
  unfold buildPaged
  simp only [reportOf_share hsettled hreached, lots_share hsettled,
    line_share hsettled (windowStart_le request)]

end Settled

end Build

end Report

section Store

variable {ledger : List LedgerRow} {family : Option String} {sinceMs : Int}

def LedgerRow.LeftAfterStart (row : LedgerRow) : Prop :=
  ∀ left ∈ row.leftMs, ∀ started ∈ row.startedMs, started ≤ left

variable {visit : Report.Visit}

theorem LedgerRow.visit_eq_some {row : LedgerRow} (hvisit : row.visit = some visit) :
    visit.lotId = row.lotId ∧ visit.startedMs = row.startedMs ∧ visit.leftMs = row.leftMs ∧
      Station.parse row.station = some visit.station := by
  obtain ⟨station, hstation, rfl⟩ := Option.map_eq_some_iff.mp hvisit
  exact ⟨rfl, rfl, rfl, hstation⟩

theorem flowVisits_eq_share (ledger : List LedgerRow) (family : Option String) (sinceMs : Int) :
    flowVisits ledger family sinceMs =
      Report.share (fun lotId => decide (lotId ∈ liveLots ledger family sinceMs))
        (allVisits ledger family) := by
  unfold flowVisits flowVisitsScoped allVisits Report.share
  rw [List.filter_filterMap, List.filterMap_filter, List.filterMap_filter]
  refine List.filterMap_congr fun row _ => ?_
  cases hvisit : row.visit with
  | none => simp
  | some visit =>
    have hlot := (LedgerRow.visit_eq_some hvisit).1
    by_cases hlive : row.lotId ∈ liveLots ledger family sinceMs
    · simp [hlot, hlive, Option.filter]
    · simp [hlot, hlive, Option.filter]

theorem mem_allVisits (hvisit : visit ∈ allVisits ledger family) :
    ∃ row ∈ ledger, row.inFamily family = true ∧ row.visit = some visit := by
  obtain ⟨row, hrow, hsome⟩ := List.mem_filterMap.mp hvisit
  obtain ⟨hmem, hfamily⟩ := List.mem_filter.mp hrow
  exact ⟨row, hmem, hfamily, hsome⟩

theorem settled_allVisits (hordered : ∀ row ∈ ledger, row.LeftAfterStart)
    (family : Option String) (sinceMs : Int) :
    Report.Settled sinceMs (fun lotId => decide (lotId ∈ liveLots ledger family sinceMs))
      (allVisits ledger family) := by
  intro visit hvisit hover
  obtain ⟨row, hrow, hfamily, hsome⟩ := mem_allVisits hvisit
  obtain ⟨hlot, hstarted, hleft, -⟩ := LedgerRow.visit_eq_some hsome
  rw [hlot] at hover
  have hnot : ¬(row.leftMs.all fun left => sinceMs ≤ left) = true :=
    fun hlive => of_decide_eq_false hover (List.mem_map_of_mem
      (List.mem_filter.mpr ⟨hrow, Bool.and_eq_true_iff.mpr ⟨hlive, hfamily⟩⟩))
  cases hrowLeft : row.leftMs with
  | none =>
    rw [hrowLeft] at hnot
    exact absurd rfl hnot
  | some left =>
    rw [hrowLeft] at hnot
    have hbefore : left < sinceMs := by simpa using hnot
    refine ⟨⟨left, hleft.trans hrowLeft, hbefore⟩, fun started hmem => ?_⟩
    rw [hstarted] at hmem
    exact lt_of_le_of_lt (hordered row hrow left hrowLeft started hmem) hbefore

theorem station_mem_flowReached (hvisit : visit ∈ allVisits ledger family) :
    visit.station ∈ flowReached ledger family := by
  obtain ⟨row, hrow, hfamily, hsome⟩ := mem_allVisits hvisit
  have hparse := (LedgerRow.visit_eq_some hsome).2.2.2
  have hid : visit.station.id = row.station := by
    simpa using List.find?_some hparse
  refine List.mem_filter.mpr ⟨List.mem_of_find?_eq_some hparse, List.any_eq_true.mpr ?_⟩
  exact ⟨row, hrow, by simp [hid, hfamily]⟩

/-- The report over the window's visits is the report over all visits. -/
theorem buildPaged_flowVisits (ledger : List LedgerRow)
    (hordered : ∀ row ∈ ledger, row.LeftAfterStart) (rfc3339 : Int → String)
    (request : Report.Request) (isCurrent : Report.Visit → Bool) (page : Report.LotsPage) :
    Report.buildPaged rfc3339 request
        (flowVisits ledger request.family (Report.windowStart request.nowMs request.days))
        (flowReached ledger request.family) isCurrent page =
      Report.buildPaged rfc3339 request (allVisits ledger request.family)
        (flowReached ledger request.family) isCurrent page := by
  rw [flowVisits_eq_share]
  exact Report.buildPaged_share (settled_allVisits hordered request.family _)
    (fun _ hvisit => station_mem_flowReached hvisit) rfc3339 isCurrent page

def finishedAndWaiting : List LedgerRow :=
  [{ lotId := "finished", station := "work", enteredMs := 0, startedMs := some 1000
     leftMs := some 5000, direction := .forward, reworkTo := none, repo := none, pr := none
     holdReason := none, holdBy := none, holdSinceMs := none, family := some "forge" },
   { lotId := "waiting", station := "queue", enteredMs := 900000000, startedMs := none
     leftMs := none, direction := .open, reworkTo := none, repo := none, pr := none
     holdReason := none, holdBy := none, holdSinceMs := none, family := some "forge" }]

def lastDay : Report.Request :=
  { family := some "forge", days := 1, nowMs := 1000000000 }

theorem buildPaged_flowVisits_finishedAndWaiting :
    (∀ row ∈ finishedAndWaiting, row.LeftAfterStart) ∧
      (flowVisits finishedAndWaiting lastDay.family
        (Report.windowStart lastDay.nowMs lastDay.days)).map Report.Visit.lotId =
          ["waiting"] ∧
      (allVisits finishedAndWaiting lastDay.family).map Report.Visit.lotId =
          ["finished", "waiting"] ∧
      Report.buildPaged toString lastDay
          (flowVisits finishedAndWaiting lastDay.family
            (Report.windowStart lastDay.nowMs lastDay.days))
          (flowReached finishedAndWaiting lastDay.family) (fun _ => true)
          Report.LotsPage.default =
        Report.buildPaged toString lastDay (allVisits finishedAndWaiting lastDay.family)
          (flowReached finishedAndWaiting lastDay.family) (fun _ => true)
          Report.LotsPage.default := by
  have hordered : ∀ row ∈ finishedAndWaiting, row.LeftAfterStart := by
    simp [finishedAndWaiting, LedgerRow.LeftAfterStart]
  exact ⟨hordered, by decide +kernel, by decide +kernel,
    buildPaged_flowVisits finishedAndWaiting hordered toString lastDay (fun _ => true)
      Report.LotsPage.default⟩

end Store

end Flow
end JeryuForge
