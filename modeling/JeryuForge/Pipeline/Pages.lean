import JeryuForge.Library.Paging
import JeryuForge.Pipeline.Writes

/-!
# Reading the log in pages

`query_page` answers with the first events a query selects and with whether more of them
follow.  A reader that asks from the last number it was given follows the log while
events are stored and old ones are pruned.
-/

namespace JeryuForge

open List Text

namespace Family

def aliasSuffix : String := "-split"

def canonical (raw : String) : String :=
  let trimmed := toAsciiLowercase (trim raw)
  match stripSuffix trimmed aliasSuffix with
  | some stem => if stem.isEmpty then trimmed else stem
  | none => trimmed

end Family

namespace Pipeline

def defaultLimit : Int := 100
def maxLimit : Int := 500

structure EventsQuery where
  afterSeq : Option Int
  beforeSeq : Option Int
  limit : Option Int
  family : Option String
  repo : Option String
  pr : Option Int
  todoId : Option String
  source : Option String
  reporter : Option String
  kind : Option String
  needsHuman : Option Bool

def EventsQuery.all : EventsQuery :=
  { afterSeq := none
    beforeSeq := none
    limit := none
    family := none
    repo := none
    pr := none
    todoId := none
    source := none
    reporter := none
    kind := none
    needsHuman := none }

def pageLimit (query : EventsQuery) : Nat :=
  (max 1 (min (query.limit.getD defaultLimit) maxLimit)).toNat

/-- `column = ?`, when the query has a value for it.  A null is equal to nothing. -/
def columnIs {α : Type} [DecidableEq α] (column wanted : Option α) : Bool :=
  wanted.all fun value => column = some value

/-- The characters of a text that `length` and `substr` see: those before a NUL. -/
def sqlChars (text : String) : List Char :=
  text.toList.takeWhile fun char => char.toNat ≠ 0

/-- A value that ends in a dot stands for the kinds it begins:
`substr(kind, 1, length(?)) = ?`. -/
def kindIs (kind : String) (wanted : Option String) : Bool :=
  wanted.all fun value =>
    if endsWith value "." then
      String.ofList ((sqlChars kind).take (sqlChars value).length) = value
    else
      kind = value

namespace EventsQuery

def matchesEvent (query : EventsQuery) (reporter : String) (event : NewEvent) : Bool :=
  columnIs event.family
      ((query.family.map Family.canonical).filter fun family => !family.isEmpty) &&
    columnIs event.repo (nonEmpty query.repo) &&
    columnIs event.todoId (nonEmpty query.todoId) &&
    columnIs (some event.source) (nonEmpty query.source) &&
    columnIs (some reporter) (nonEmpty query.reporter) &&
    columnIs event.pr query.pr &&
    kindIs event.kind (nonEmpty query.kind) &&
    columnIs (some event.needsHuman) query.needsHuman

def wants (query : EventsQuery) (event : Event) : Bool :=
  (query.beforeSeq.all fun before => event.seq < before) &&
    query.matchesEvent event.reporter event.toNewEvent

def selects (query : EventsQuery) (row : LogRow) : Bool :=
  (query.afterSeq.all fun after => after < row.seq) &&
    (query.beforeSeq.all fun before => row.seq < before) &&
    query.matchesEvent row.reporter row.toNewEvent

end EventsQuery

/-- `EventStore::query`. -/
def read (codec : Codec) (store : Store) (query : EventsQuery) (limit : Nat) : List Event :=
  (Table.orderedBy (store.log.filter query.selects)
    (fun row => if query.afterSeq.isSome then row.seq else -row.seq) limit).map
      (eventFromRow codec)

def queryPage (codec : Codec) (store : Store) (query : EventsQuery) : List Event × Bool :=
  let limit := pageLimit query
  let events := read codec store query (limit + 1)
  (events.take limit, limit < events.length)

structure Reading where
  store : Store
  written : List Event
  cursor : Int
  pages : List (Paging.Page Event)

namespace Reading

def feed (codec : Codec) (reading : Reading) : Paging.Feed Event :=
  { stored := reading.store.log.map (eventFromRow codec)
    written := reading.written
    top := reading.store.seq }

def nextPage (codec : Codec) (query : EventsQuery) (reading : Reading)
    (limit : Option Int) : Paging.Page Event :=
  let answer := queryPage codec reading.store
    { query with afterSeq := some reading.cursor, limit := limit }
  { after := reading.cursor
    rows := answer.1
    more := answer.2
    feed := reading.feed codec }

end Reading

inductive ReadingAction where
  | insert (reporter : String) (event : NewEvent) (nowMs : Int)
  | page (limit : Option Int)

def reader (codec : Codec) (query : EventsQuery) (first : Int) : Machine Reading ReadingAction where
  start := { store := Store.empty, written := [], cursor := first, pages := [] }
  step reading
    | .insert reporter event nowMs =>
      match insert codec reading.store reporter event nowMs with
      | .ok (next, inserted) =>
        some { reading with
          store := next
          written :=
            if inserted.duplicate then reading.written
            else reading.written ++
              [eventFromRow codec (newRow reading.store reporter event nowMs)] }
      | .error (.refused _) => some reading
      | .error .panicked => none
    | .page limit =>
      let page := reading.nextPage codec query limit
      some { reading with
        cursor := page.last Event.seq
        pages := reading.pages ++ [page] }

section Facts

variable {codec : Codec} {query : EventsQuery} {reading : Reading}

theorem pageLimit_pos (query : EventsQuery) : 0 < pageLimit query := by
  unfold pageLimit
  omega

theorem nextPage_eq (hordered : (reading.feed codec).Ordered Event.seq) (limit : Option Int) :
    reading.nextPage codec query limit =
      Paging.takePage Event.seq query.wants (reading.feed codec) reading.cursor
        (pageLimit { query with afterSeq := some reading.cursor, limit := limit }) := by
  have hlog : reading.store.log.Pairwise fun first second => first.seq < second.seq :=
    (pairwise_map (f := eventFromRow codec)).mp hordered.increasing
  have hahead : ((reading.store.log.filter
        ({ query with afterSeq := some reading.cursor, limit := limit }
          : EventsQuery).selects).map (eventFromRow codec)) =
      Paging.ahead Event.seq query.wants (reading.feed codec).stored reading.cursor := by
    unfold Paging.ahead Reading.feed
    rw [filter_map]
    refine congrArg _ (filter_congr fun row _ => ?_)
    simp only [EventsQuery.selects, Option.all_some, Function.comp_apply, EventsQuery.wants]
    rw [Bool.and_assoc, Bool.and_comm]
    rfl
  have hread : ∀ many, read codec reading.store
        { query with afterSeq := some reading.cursor, limit := limit } many =
      (Paging.ahead Event.seq query.wants (reading.feed codec).stored reading.cursor).take
        many := by
    intro many
    have hsorted : (reading.store.log.filter
        ({ query with afterSeq := some reading.cursor, limit := limit }
          : EventsQuery).selects).Pairwise fun first second => first.seq ≤ second.seq :=
      (hlog.filter _).imp fun hlt => le_of_lt hlt
    unfold read Table.orderedBy
    simp only [Option.isSome_some, if_true]
    rw [hsorted.insertionSort_eq, map_take, hahead]
  unfold Reading.nextPage queryPage Paging.takePage
  simp only [hread, take_take, length_take]
  congr 1
  · congr 1
    omega
  · exact decide_eq_decide.mpr (by omega)

def Reading.Follows (codec : Codec) (query : EventsQuery) (first : Int)
    (reading : Reading) : Prop :=
  Paging.Follows Event.seq query.wants first (reading.feed codec) reading.cursor reading.pages

variable {first : Int}

theorem Reading.Follows.insert (hfollows : reading.Follows codec query first) {reporter : String}
    {event : NewEvent} {nowMs : Int} {next : Reading}
    (hstep : (reader codec query first).step reading (.insert reporter event nowMs) = some next) :
    next.Follows codec query first := by
  simp only [reader] at hstep
  split at hstep
  next store inserted hinsert =>
    cases hstep
    rcases insert_log hinsert with ⟨hduplicate, rfl⟩ | ⟨hnew, hlog, hseq⟩
    · simpa [Reading.Follows, Reading.feed, hduplicate] using hfollows
    · simp only [hnew, Bool.false_eq_true, if_false]
      refine Paging.Follows.write hfollows ⟨?_, rfl, Int.lt_succ _, hseq⟩
      simpa [Reading.feed] using hlog.map (eventFromRow codec)
  · cases hstep
    exact hfollows
  · cases hstep

theorem Reading.Follows.page (hfollows : reading.Follows codec query first) (limit : Option Int) :
    ({ reading with
        cursor := (reading.nextPage codec query limit).last Event.seq
        pages := reading.pages ++ [reading.nextPage codec query limit] } : Reading).Follows
      codec query first := by
  rw [nextPage_eq hfollows.numbered]
  exact Paging.Follows.page hfollows (pageLimit_pos _)

theorem run_follows {actions : List ReadingAction}
    (hrun : (reader codec query first).run actions = some reading) :
    reading.Follows codec query first := by
  refine (reader codec query first).run_invariant_always
    (motive := fun state => state.Follows codec query first) ?_ ?_ hrun
  · refine Paging.follows_start ?_ first
    exact ⟨List.Pairwise.nil, by simp [reader, Reading.feed, Store.empty],
      by simp [reader, Reading.feed]⟩
  · intro state action next hfollows hstep
    cases action with
    | insert reporter event nowMs => exact hfollows.insert hstep
    | page limit =>
      cases hstep
      exact hfollows.page limit

def Reading.ahead (codec : Codec) (query : EventsQuery) (reading : Reading) : List Event :=
  Paging.ahead Event.seq query.wants (reading.feed codec).stored reading.cursor

theorem Reading.Follows.drains (hfollows : reading.Follows codec query first)
    {limits : List (Option Int)} (henough : (reading.ahead codec query).length ≤ limits.length) :
    ∃ final, (reader codec query first).runFrom reading (limits.map .page) = some final ∧
      final.store = reading.store ∧ final.Follows codec query first ∧
        final.ahead codec query = [] := by
  induction limits generalizing reading with
  | nil =>
    refine ⟨reading, rfl, rfl, hfollows, ?_⟩
    exact eq_nil_of_length_eq_zero (Nat.le_zero.mp henough)
  | cons limit rest ih =>
    have hnext := hfollows.page limit
    have hahead : (({ reading with
        cursor := (reading.nextPage codec query limit).last Event.seq
        pages := reading.pages ++ [reading.nextPage codec query limit] }
          : Reading).ahead codec query) =
        (reading.ahead codec query).drop
          (pageLimit { query with afterSeq := some reading.cursor, limit := limit }) := by
      rw [nextPage_eq hfollows.numbered]
      exact Paging.ahead_last hfollows.numbered (pageLimit_pos _)
    have hpos := pageLimit_pos
      { query with afterSeq := some reading.cursor, limit := limit }
    obtain ⟨final, hrun, hstore, hfinal⟩ := ih hnext (by
      rw [hahead, length_drop]
      rw [length_cons] at henough
      omega)
    exact ⟨final, hrun, hstore, hfinal⟩

end Facts

/-- Whatever is posted and pruned between the pages, the reader gets every wanted event
above its start that is not pruned before it is reached, once and in the order of the
numbers, and each page knows whether wanted events follow.  As many pages as wanted events
are ahead bring all that are stored. -/
theorem run_pages_delivered (codec : Codec) (query : EventsQuery) (first : Int)
    (actions : List ReadingAction) (reading : Reading)
    (hrun : (reader codec query first).run actions = some reading) :
    Paging.Delivered Event.seq query.wants first (reading.feed codec) reading.cursor
        reading.pages ∧
      ∀ limits : List (Option Int), (reading.ahead codec query).length ≤ limits.length →
        ∃ final,
          (reader codec query first).runFrom reading (limits.map .page) = some final ∧
            ∀ row ∈ reading.store.log, query.wants (eventFromRow codec row) = true →
              first < row.seq → eventFromRow codec row ∈ Paging.received final.pages := by
  have hfollows := run_follows hrun
  refine ⟨hfollows.delivered, ?_⟩
  intro limits henough
  obtain ⟨final, hfinal, hstore, hend, hnone⟩ := hfollows.drains henough
  refine ⟨final, hfinal, ?_⟩
  intro row hrow hwanted hafter
  refine Paging.Follows.arrived hend ?_ hwanted hafter ?_
  · refine mem_map_of_mem ?_
    rw [hstore]
    exact hrow
  · change _ ∉ final.ahead codec query
    rw [hnone]
    exact not_mem_nil

def threeNotices : List ReadingAction :=
  [.insert "forge" notice 1000, .insert "forge" notice 2000, .page (some 1),
    .insert "forge" landing 3000, .page none]

theorem run_pages_delivered_threeNotices :
    ∃ reading, (reader monthStarts EventsQuery.all 0).run threeNotices = some reading ∧
      (Paging.received reading.pages).map Event.seq = [1, 2, 3] ∧
        Paging.Delivered Event.seq EventsQuery.all.wants 0 (reading.feed monthStarts)
          reading.cursor reading.pages := by
  refine ⟨((reader monthStarts EventsQuery.all 0).run threeNotices).get (by decide +kernel),
    (Option.some_get (by decide +kernel)).symm, by decide +kernel, ?_⟩
  exact (run_pages_delivered monthStarts EventsQuery.all 0 threeNotices _
    (Option.some_get (by decide +kernel)).symm).1

end Pipeline
end JeryuForge
