import JeryuForge.Library.Newest
import JeryuForge.Pipeline.Pages

/-!
# Whether main is red

`red_now` and `red_repos` select the newest verdict of the log.  The answer for all repositories
folds one page instead: the forge's newest rows of the kind over all repositories, those that
only say that a run started among them.
-/

/-! ## The newest event of a kind in each repository -/

namespace JeryuForge.Pipeline

open List

/-- A kind as events carry it: no blanks around it, and not the beginning of kinds, as `todo.`. -/
structure Kind where
  text : String
  plain : Text.nonEmpty (some text) = some text
  whole : Text.endsWith text "." = false

def kindQuery (kind : String) : EventsQuery :=
  { EventsQuery.all with kind := some kind, limit := some maxLimit }

def newestOfKindPerRepo (codec : Codec) (store : Store) (kind : String) : List Event :=
  (read codec store (kindQuery kind) (pageLimit (kindQuery kind))).firstOfEach fun event =>
    event.repo

def eventsOfKind (codec : Codec) (store : Store) (kind : String) : List Event :=
  ((store.log.filter fun row => row.kind = kind).map (eventFromRow codec)).reverse

def Newest (events : List Event) (event : Event) : Prop :=
  event ∈ events ∧ ∀ other ∈ events, other.repo = event.repo → other.seq ≤ event.seq

/-- The last event of each repository that has one, each once, newest first. -/
structure NewestPerRepo (events answer : List Event) : Prop where
  mem_iff : ∀ event, event ∈ answer ↔ Newest events event
  order : answer.Pairwise fun first second => second.seq < first.seq

section Page

variable {codec : Codec} {store : Store} {kind : Kind}
  (hlog : store.log.Pairwise fun first second => first.seq < second.seq)

include hlog

theorem read_newestFirst {query : EventsQuery} (hafter : query.afterSeq = none) (limit : Nat) :
    read codec store query limit =
      ((store.log.filter query.selects).map (eventFromRow codec)).reverse.take limit := by
  unfold read Table.orderedBy
  rw [hafter, map_take, ← map_reverse]
  refine congrArg (fun rows => (map _ rows).take limit) ?_
  refine Table.insertionSort_eq (reverse_perm _).symm (pairwise_reverse.mpr ?_)
  exact (hlog.filter _).imp Int.neg_lt_neg

theorem read_ofKind (kind : Kind) (reporter : Option String) (asked : Option Int) (limit : Nat) :
    read codec store
        { EventsQuery.all with kind := some kind.text, reporter := reporter, limit := asked }
        limit =
      ((store.log.filter fun row => row.kind = kind.text &&
        (Text.nonEmpty reporter).all fun name => row.reporter = name).map
          (eventFromRow codec)).reverse.take limit := by
  rw [read_newestFirst hlog rfl]
  refine congrArg (fun test => ((filter test _).map _).reverse.take limit) (funext fun row => ?_)
  simp only [EventsQuery.selects, EventsQuery.matchesEvent, EventsQuery.all, kind.plain, kindIs,
    Option.all_some, kind.whole]
  simp [columnIs, Text.nonEmpty, Bool.and_comm]

theorem falling_eventsOfKind :
    (eventsOfKind codec store kind.text).Pairwise fun first second => second.seq < first.seq :=
  pairwise_reverse.mpr (pairwise_map.mpr (hlog.filter _))

theorem read_kindQuery :
    read codec store (kindQuery kind.text) (pageLimit (kindQuery kind.text)) =
      (eventsOfKind codec store kind.text).take 500 := by
  refine (read_ofKind hlog kind none _ _).trans ?_
  simp [Text.nonEmpty, eventsOfKind, pageLimit, kindQuery, maxLimit]

theorem mem_newestOfKindPerRepo {event : Event} :
    event ∈ newestOfKindPerRepo codec store kind.text ↔
      Newest (eventsOfKind codec store kind.text) event ∧
        event ∈ (eventsOfKind codec store kind.text).take 500 := by
  have hfalling := @falling_eventsOfKind codec store kind hlog
  unfold newestOfKindPerRepo
  rw [read_kindQuery hlog]
  generalize eventsOfKind codec store kind.text = events at hfalling ⊢
  rw [mem_firstOfEach (hfalling.sublist (take_sublist ..))]
  constructor
  · rintro ⟨htake, hgreatest⟩
    refine ⟨⟨mem_of_mem_take htake, fun other hother hrepo => ?_⟩, htake⟩
    -- an event behind the page is older than those on it
    rw [← take_append_drop 500 events, mem_append] at hother
    rcases hother with hpage | hbehind
    · exact hgreatest other hpage hrepo
    · rw [← take_append_drop 500 events] at hfalling
      exact ((pairwise_append.mp hfalling).2.2 event htake other hbehind).le
  · rintro ⟨⟨-, hgreatest⟩, htake⟩
    exact ⟨htake, fun other hother => hgreatest other (mem_of_mem_take hother)⟩

end Page

/-- The answer holds the newest event of every repository exactly when each of them is among the
five hundred newest events of the kind. -/
theorem newestOfKindPerRepo_iff (codec : Codec) (store : Store)
    (hlog : store.log.Pairwise fun first second => first.seq < second.seq) (kind : Kind) :
    NewestPerRepo (eventsOfKind codec store kind.text)
        (newestOfKindPerRepo codec store kind.text) ↔
      ∀ event, Newest (eventsOfKind codec store kind.text) event →
        event ∈ (eventsOfKind codec store kind.text).take 500 := by
  constructor
  · intro hanswer event hnewest
    exact ((mem_newestOfKindPerRepo hlog).mp ((hanswer.mem_iff event).mpr hnewest)).2
  · intro hpage
    refine ⟨fun event => ?_, ?_⟩
    · rw [mem_newestOfKindPerRepo hlog]
      exact ⟨fun hmem => hmem.1, fun hnewest => ⟨hnewest, hpage event hnewest⟩⟩
    · unfold newestOfKindPerRepo
      rw [read_kindQuery hlog]
      exact (falling_eventsOfKind hlog).sublist ((firstOfEach_sublist _).trans (take_sublist ..))

def stagedIn (repo : String) (seq : Int) : LogRow :=
  { NewEvent.forge "release.staged" "staged" with
    repo := some repo, seq := seq, tsMs := seq, reporter := "forge" }

def stagedKind : Kind :=
  ⟨"release.staged", by decide, by decide⟩

def busyRows (many : Nat) : List LogRow :=
  (List.range many).map fun (index : Nat) => stagedIn "acme/busy" (index + 1)

/-- One event of a quiet repository, and then many of a busy one. -/
def busyStore (many : Nat) : Store :=
  { Store.empty with log := stagedIn "acme/quiet" 0 :: busyRows many }

theorem busyStore_increasing (many : Nat) :
    (busyStore many).log.Pairwise fun first second => first.seq < second.seq := by
  refine pairwise_cons.mpr ⟨fun row hrow => ?_, ?_⟩
  · obtain ⟨index, -, rfl⟩ := mem_map.mp hrow
    exact Int.lt_add_one_of_le (Int.natCast_nonneg index)
  · refine pairwise_map.mpr (pairwise_lt_range.imp fun hlt => ?_)
    exact Int.add_lt_add_right (Int.ofNat_lt.mpr hlt) 1

theorem eventsOfKind_busyStore (codec : Codec) (many : Nat) :
    eventsOfKind codec (busyStore many) stagedKind.text =
      ((busyRows many).map (eventFromRow codec)).reverse ++
        [eventFromRow codec (stagedIn "acme/quiet" 0)] := by
  unfold eventsOfKind
  rw [filter_eq_self.mpr]
  · exact reverse_cons
  · intro row hrow
    rcases mem_cons.mp hrow with rfl | hbusy
    · decide
    · obtain ⟨index, -, rfl⟩ := mem_map.mp hbusy
      rfl

/-- The quiet repository has a staged release, and the answer does not name it. -/
theorem busyStore_hides_quiet :
    eventFromRow monthStarts (stagedIn "acme/quiet" 0) ∈
        eventsOfKind monthStarts (busyStore 500) stagedKind.text ∧
      ∀ event ∈ newestOfKindPerRepo monthStarts (busyStore 500) stagedKind.text,
        event.repo ≠ some "acme/quiet" := by
  generalize hmany : 500 = many
  have hlength : ((busyRows many).map (eventFromRow monthStarts)).reverse.length = 500 := by
    simp [busyRows, hmany]
  constructor
  · rw [eventsOfKind_busyStore]
    exact mem_append_right _ (mem_singleton_self _)
  · intro event hevent hquiet
    have hpage := ((mem_newestOfKindPerRepo (busyStore_increasing many)).mp hevent).2
    rw [eventsOfKind_busyStore, take_left' hlength, mem_reverse] at hpage
    obtain ⟨row, hrow, rfl⟩ := mem_map.mp hpage
    obtain ⟨index, -, rfl⟩ := mem_map.mp hrow
    exact absurd (Option.some.inj hquiet) (by decide)

theorem newestOfKindPerRepo_iff_two :
    NewestPerRepo (eventsOfKind monthStarts (busyStore 1) stagedKind.text)
      (newestOfKindPerRepo monthStarts (busyStore 1) stagedKind.text) := by
  refine (newestOfKindPerRepo_iff monthStarts _ (busyStore_increasing 1) stagedKind).mpr ?_
  rintro event ⟨hevent, -⟩
  rw [take_of_length_le]
  · exact hevent
  · rw [eventsOfKind_busyStore]
    simp [busyRows]

end JeryuForge.Pipeline

/-! ## The three readers of main's state -/

namespace JeryuForge.Pipeline.MainHealth

open List

def isRed (row : LogRow) : Bool :=
  row.outcome = some "red"

/-- `kind = ? AND outcome IN (?, ?) AND reporter = ? AND source = ?`. -/
def isVerdict (row : LogRow) : Bool :=
  row.kind = "main.status" && (row.outcome = some "green" || isRed row) &&
    row.reporter = "forge" && row.source = "forge"

def isVerdictOf (repo : String) (row : LogRow) : Bool :=
  isVerdict row && row.repo = some repo

/-- `ORDER BY seq DESC LIMIT 1` among the verdicts of the repository. -/
def newestVerdict (store : Store) (repo : String) : Option LogRow :=
  Table.last? store.log (isVerdictOf repo)

def redNow (store : Store) (repo : String) : Bool :=
  (newestVerdict store repo).any isRed

/-- One group for each repository, with the outcome of its row of the greatest number. -/
def redRepos (store : Store) : List String :=
  ((store.log.filter isVerdict).filterMap fun row => row.repo).dedup.filter fun repo =>
    (Table.last? (store.log.filter isVerdict) fun row => row.repo = some repo).any isRed

structure Verdict where
  sha : String
  red : Bool
  atMs : Int

structure Health where
  repo : String
  redNow : Bool

/-- A `main.status` row that `is_gate_verdict`. -/
def isStatus (event : Event) : Bool :=
  event.kind = "main.status" && event.reporter = "forge" && event.source = "forge"

def verdictOf (codec : Codec) (event : Event) : Option Verdict :=
  if event.outcome = some "green" ∨ event.outcome = some "red" then
    event.sha.bind fun sha => (codec.parseTime event.ts).toOption.map fun atMs =>
      { sha := sha, red := event.outcome = some "red", atMs := atMs }
  else
    none

/-- The first verdict of the red interval that is open. -/
def nextOpen (opened : Option Verdict) (verdict : Verdict) : Option Verdict :=
  if verdict.red then opened.or (some verdict) else none

def healthOf (repo : String) (verdicts : List Verdict) : Health :=
  { repo := repo, redNow := (verdicts.foldl nextOpen none).isSome }

def verdictsOf (codec : Codec) (statuses : List Event) (repo : String) : List Verdict :=
  ((statuses.filter fun event => event.repo = some repo).insertionSort
    fun first second => first.seq ≤ second.seq).filterMap (verdictOf codec)

def project (codec : Codec) (events : List Event) : List Health :=
  let statuses := events.filter isStatus
  ((statuses.filterMap fun event => event.repo).dedup.insertionSort (· ≤ ·)).map fun repo =>
    healthOf repo (verdictsOf codec statuses repo)

def mainQuery (repo : Option String) (kind : String) (reporter : Option String) : EventsQuery :=
  { EventsQuery.all with
    repo := repo, kind := some kind, reporter := reporter, limit := some 1000 }

def readEvents (codec : Codec) (store : Store) (repo : Option String) : List Event :=
  [("main.status", some "forge"), ("gate.log", none)].flatMap fun (kind, reporter) =>
    read codec store (mainQuery repo kind reporter) (pageLimit (mainQuery repo kind reporter))

def forRepo (codec : Codec) (store : Store) (repo : Option String) : List Health :=
  project codec (readEvents codec store repo)

/-- The answer for all repositories has the repository with `red_now`. -/
def Listed (codec : Codec) (store : Store) (repo : String) : Prop :=
  ∃ health ∈ forRepo codec store none, health.repo = repo ∧ health.redNow = true

def isForgeStatus (row : LogRow) : Bool :=
  row.kind = "main.status" && row.reporter = "forge"

/-- The forge's newest rows of the kind, over all repositories. -/
def page (store : Store) : List LogRow :=
  (store.log.filter isForgeStatus).reverse.take 500

def isOf (repo : String) (row : LogRow) : Bool :=
  row.repo = some repo && row.source = "forge"

def newestShown (codec : Codec) (store : Store) (repo : String) : Option Verdict :=
  ((page store).filter (isOf repo)).findSome? fun row => verdictOf codec (eventFromRow codec row)

/-- A verdict that the answer for all repositories takes in: it is on the page, with a commit and
a time that can be read. -/
structure Shown (codec : Codec) (store : Store) (row : LogRow) : Prop where
  onPage : row ∈ page store
  commit : row.sha.isSome
  time : (codec.parseTime (codec.renderTime row.tsMs)).toOption.isSome

variable {codec : Codec} {store : Store} {repo : String}

theorem isSome_foldl_nextOpen (verdicts : List Verdict) :
    (verdicts.foldl nextOpen none).isSome = verdicts.getLast?.any Verdict.red := by
  induction verdicts using reverseRecOn with
  | nil => rfl
  | append_singleton verdicts last _ =>
    rw [foldl_append, getLast?_concat]
    simp only [foldl_cons, foldl_nil, nextOpen, Option.any_some]
    cases last.red <;> simp

section Page

variable (hlog : store.log.Pairwise fun first second => first.seq < second.seq)

include hlog

theorem statuses_readEvents : (readEvents codec store none).filter isStatus =
    ((page store).filter fun row => row.source = "forge").map (eventFromRow codec) := by
  have hstatus : read codec store (mainQuery none "main.status" (some "forge")) 500 = _ :=
    read_ofKind hlog ⟨_, by decide, by decide⟩ (some "forge") _ _
  have hlogs : read codec store (mainQuery none "gate.log" none) 500 = _ :=
    read_ofKind hlog ⟨_, by decide, by decide⟩ none _ _
  have hforge : Text.nonEmpty (some "forge") = some "forge" := by decide
  rw [← map_reverse, ← map_take] at hstatus hlogs
  change filter _ (read _ _ _ 500 ++ (read _ _ _ 500 ++ [])) = _
  rw [hstatus, hlogs, append_nil, filter_append, filter_map, filter_map]
  refine congrArg₂ (· ++ ·) (congrArg _ (filter_congr fun row hrow => ?_))
    (map_eq_nil_iff.mpr (filter_eq_nil_iff.mpr fun row hrow hmain => ?_)) |>.trans (append_nil _)
  · have hkept := (mem_filter.mp (mem_reverse.mp (mem_of_mem_take hrow))).2
    rw [hforge, Option.all_some, Bool.and_eq_true] at hkept
    have hkind : row.kind = "main.status" := of_decide_eq_true hkept.1
    have hreporter : row.reporter = "forge" := of_decide_eq_true hkept.2
    simp [isStatus, eventFromRow, hkind, hreporter]
  · have hkind := (mem_filter.mp (mem_reverse.mp (mem_of_mem_take hrow))).2
    have hlogKind : row.kind = "gate.log" := of_decide_eq_true (Bool.and_eq_true_iff.mp hkind).1
    simp [isStatus, eventFromRow, hlogKind] at hmain

theorem getLast?_verdictsOf (name : String) :
    (verdictsOf codec ((readEvents codec store none).filter isStatus) name).getLast? =
      newestShown codec store name := by
  have hrising : (((page store).filter (isOf name)).map
      (eventFromRow codec)).reverse.Pairwise fun first second => first.seq < second.seq := by
    refine pairwise_reverse.mpr (pairwise_map.mpr (Pairwise.filter _ ?_))
    exact (pairwise_reverse.mpr (hlog.filter _)).sublist (take_sublist ..)
  unfold verdictsOf newestShown
  rw [statuses_readEvents hlog, filter_map, filter_filter]
  exact (congrArg (fun events => (filterMap (verdictOf codec) events).getLast?)
    (Table.insertionSort_eq (reverse_perm _).symm hrising)).trans
    (by rw [getLast?_filterMap, reverse_reverse, findSome?_map]; rfl)

theorem listed_iff : Listed codec store repo ↔
    ∃ verdict, newestShown codec store repo = some verdict ∧ verdict.red = true := by
  rw [← Option.any_eq_true, ← getLast?_verdictsOf hlog, ← isSome_foldl_nextOpen]
  constructor
  · rintro ⟨_, hmem, rfl, hred⟩
    obtain ⟨name, -, rfl⟩ := mem_map.mp hmem
    exact hred
  · intro hred
    refine ⟨_, mem_map_of_mem ?_, rfl, hred⟩
    rw [mem_insertionSort, mem_dedup, mem_filterMap]
    -- without a row of the repository there is no verdict of it
    by_contra hnone
    unfold verdictsOf at hred
    rw [filter_eq_nil_iff.mpr fun event hmem hrepo => hnone ⟨event, hmem, of_decide_eq_true hrepo⟩]
      at hred
    cases hred

end Page

theorem redNow_iff_mem_redRepos : redNow store repo = true ↔ repo ∈ redRepos store := by
  have hnewest : Table.last? (store.log.filter isVerdict) (fun row => row.repo = some repo) =
      newestVerdict store repo := by
    unfold newestVerdict Table.last? isVerdictOf
    rw [← filter_reverse, find?_filter]
    simp only [Bool.decide_and, Bool.decide_eq_true]
  unfold redRepos redNow
  rw [mem_filter, mem_dedup, hnewest, mem_filterMap]
  refine ⟨fun hany => ⟨?_, hany⟩, And.right⟩
  obtain ⟨row, hrow, -⟩ := (Option.any_eq_true _ _).mp hany
  have hhit := find?_some hrow
  obtain ⟨hverdict, hrepo⟩ := Bool.and_eq_true_iff.mp hhit
  exact ⟨row, mem_filter.mpr ⟨mem_reverse.mp (mem_of_find?_eq_some hrow), hverdict⟩,
    of_decide_eq_true hrepo⟩

theorem verdictOf_eventFromRow {row : LogRow} (hshown : Shown codec store row)
    (hverdict : isVerdict row = true) :
    ∃ verdict, verdictOf codec (eventFromRow codec row) = some verdict ∧
      verdict.red = isRed row := by
  obtain ⟨sha, hsha⟩ := Option.isSome_iff_exists.mp hshown.commit
  obtain ⟨atMs, htime⟩ := Option.isSome_iff_exists.mp hshown.time
  have houtcome : row.outcome = some "green" ∨ row.outcome = some "red" := by
    simp only [isVerdict, isRed, Bool.and_eq_true, Bool.or_eq_true, decide_eq_true_eq] at hverdict
    exact hverdict.1.1.2
  refine ⟨⟨sha, isRed row, atMs⟩, ?_, rfl⟩
  simp only [verdictOf, eventFromRow, if_pos houtcome, hsha, htime, Option.bind_some,
    Option.map_some]
  rfl

/-- On the page only a verdict says anything of the repository. -/
theorem verdictOf_eq_none {row : LogRow} (hrow : row ∈ page store)
    (hother : isVerdictOf repo row = false) (hrepo : isOf repo row = true) :
    verdictOf codec (eventFromRow codec row) = none := by
  have hstatus := (mem_filter.mp (mem_reverse.mp (mem_of_mem_take hrow))).2
  simp only [isForgeStatus, isOf, Bool.and_eq_true, decide_eq_true_eq] at hstatus hrepo
  refine if_neg fun houtcome => ?_
  have hred : (row.outcome = some "green" || isRed row) = true := by
    simpa [isRed, eventFromRow] using houtcome
  simp [isVerdictOf, isVerdict, hred, hstatus.1, hstatus.2, hrepo.1, hrepo.2] at hother

/-- The newest verdict of the log, if it is on the page, is the newest of the page. -/
theorem find?_page {row : LogRow} (hnewest : newestVerdict store repo = some row)
    (hpage : row ∈ page store) : (page store).find? (isVerdictOf repo) = some row := by
  have hrows : (store.log.filter isForgeStatus).reverse.find? (isVerdictOf repo) = some row := by
    rw [← filter_reverse, find?_filter, ← hnewest]
    refine congrArg (fun test => find? test store.log.reverse) (funext fun other => ?_)
    by_cases hother : isVerdict other = true
    · have hkind := hother
      simp only [isVerdict, Bool.and_eq_true] at hkind
      simp [isForgeStatus, hkind.1.1.1, hkind.1.2]
    · simp [isVerdictOf, hother]
  cases hfound : (page store).find? (isVerdictOf repo) with
  | none => exact absurd (find?_some hnewest) (find?_eq_none.mp hfound row hpage)
  | some found =>
    rw [← take_append_drop 500 (reverse _), find?_append] at hrows
    rw [← hrows]
    exact (congrArg (Option.or · _) hfound).symm

theorem any_newestShown (hshown : ∀ row ∈ newestVerdict store repo, Shown codec store row) :
    (newestShown codec store repo).any Verdict.red = redNow store repo := by
  -- the rows before the newest verdict, all of them if there is none, say nothing
  have hquiet : ∀ rows : List LogRow,
      (∀ row ∈ rows, row ∈ page store ∧ isVerdictOf repo row = false) →
      ((rows.filter (isOf repo)).findSome? fun row => verdictOf codec (eventFromRow codec row)) =
        none := by
    intro rows hrows
    refine findSome?_eq_none_iff.mpr fun row hrow => ?_
    obtain ⟨hmem, hrepo⟩ := mem_filter.mp hrow
    exact verdictOf_eq_none (hrows row hmem).1 (hrows row hmem).2 hrepo
  unfold newestShown redNow
  cases hnewest : newestVerdict store repo with
  | none =>
    rw [hquiet _ fun row hrow => ⟨hrow, ?_⟩]
    · rfl
    · have hlogged := mem_of_mem_filter (mem_reverse.mp (mem_of_mem_take hrow))
      exact Bool.eq_false_iff.mpr (find?_eq_none.mp hnewest row (mem_reverse.mpr hlogged))
  | some row =>
    have hrow := hshown row hnewest
    have hhit : isVerdictOf repo row = true := find?_some hnewest
    obtain ⟨hverdict, hrepo⟩ := Bool.and_eq_true_iff.mp hhit
    obtain ⟨verdict, hread, hred⟩ := verdictOf_eventFromRow hrow hverdict
    obtain ⟨-, newer, older, hsplit, hnewer⟩ :=
      find?_eq_some_iff_append.mp (find?_page hnewest hrow.onPage)
    have hof : isOf repo row = true :=
      Bool.and_eq_true_iff.mpr ⟨hrepo, (Bool.and_eq_true_iff.mp hverdict).2⟩
    have hnone := hquiet newer fun other hmem =>
      ⟨hsplit ▸ mem_append_left _ hmem, by simpa using hnewer other hmem⟩
    rw [hsplit, filter_append, findSome?_append, hnone, filter_cons, if_pos hof,
      findSome?_cons, hread]
    exact hred

/-- The three readers agree on a repository that has no verdict, or whose newest is one of the
forge's 500 newest rows of the kind and has a commit and a time that can be read. -/
theorem readers_agree (codec : Codec) (store : Store) (repo : String)
    (hlog : store.log.Pairwise fun first second => first.seq < second.seq)
    (hshown : ∀ row ∈ newestVerdict store repo, Shown codec store row) :
    (Listed codec store repo ↔ redNow store repo = true) ∧
      (redNow store repo = true ↔ repo ∈ redRepos store) := by
  refine ⟨?_, redNow_iff_mem_redRepos⟩
  rw [listed_iff hlog, ← Option.any_eq_true, any_newestShown hshown]

def statusOf (repo outcome : String) (seq : Int) : LogRow :=
  { stagedIn repo seq with
    kind := "main.status", sha := some "c0ffee0", outcome := some outcome }

/-- A red verdict, and then runs of another repository that start. -/
def startedAfterRed (many : Nat) : Store :=
  { Store.empty with
    log := statusOf "acme/quiet" "red" 0 :: (busyRows many).map fun row =>
      statusOf "acme/busy" "started" row.seq }

theorem startedAfterRed_increasing (many : Nat) :
    (startedAfterRed many).log.Pairwise fun first second => first.seq < second.seq := by
  obtain ⟨hfirst, hrest⟩ := pairwise_cons.mp (busyStore_increasing many)
  refine pairwise_cons.mpr ⟨fun row hrow => ?_, pairwise_map.mpr hrest⟩
  obtain ⟨busy, hbusy, rfl⟩ := mem_map.mp hrow
  exact hfirst busy hbusy

theorem startedAfterRed_hides_red : redNow (startedAfterRed 500) "acme/quiet" = true ∧
    "acme/quiet" ∈ redRepos (startedAfterRed 500) ∧
    ¬Listed monthStarts (startedAfterRed 500) "acme/quiet" := by
  have hred : redNow (startedAfterRed 500) "acme/quiet" = true := by decide +kernel
  refine ⟨hred, redNow_iff_mem_redRepos.mp hred, fun hlisted => ?_⟩
  obtain ⟨verdict, hshown, -⟩ := (listed_iff (startedAfterRed_increasing 500)).mp hlisted
  have hnone : newestShown monthStarts (startedAfterRed 500) "acme/quiet" = none := by
    decide +kernel
  cases hshown.symm.trans hnone

theorem readers_agree_one : Listed monthStarts (startedAfterRed 1) "acme/quiet" := by
  have hagree := readers_agree monthStarts _ "acme/quiet" (startedAfterRed_increasing 1) ?_
  · exact hagree.1.mpr (by decide)
  · rintro row ⟨⟩
    exact ⟨mem_cons_of_mem _ mem_cons_self, rfl, by decide +kernel⟩

end JeryuForge.Pipeline.MainHealth
