import JeryuForge.Library.TwoWayLinks
import JeryuForge.Outcomes.Stored

/-!
# Links between changes

A change names the changes it reworks, the changes that rework it, and the change that
reverted it.  An ordinary event writes both ends of a link.  Adoption drops the row of a
pull request and repoints only what it reverted, so the links other changes keep to it
dangle.
-/

namespace JeryuForge.Outcomes

open Pipeline TwoWay Function
open TwoWay.Paired (linksAt linksAt_of_some)

def Row.links (row : Row) : Links String :=
  { marker := row.revertedBy
    out := { lot | lot ∈ row.reworks }
    back := { lot | lot ∈ row.reworkedBy } }

def graph (tables : Tables) (lot : String) : Option (Links String) :=
  (tables.ledger.get? lot).map Row.links

theorem graph_save (tables : Tables) (change : Change) :
    graph (save tables change) =
      update (graph tables) change.lotId (some change.toRow.links) := by
  funext lot
  by_cases hsame : lot = change.lotId
  · rw [hsame, update_self, graph, save, OrdMap.get?_insert_self]
    rfl
  · rw [update_of_ne hsame, graph, save, OrdMap.get?_insert_of_ne _ _ hsame]
    rfl

variable {lot found : String} {tables next : Tables}

theorem graph_of_load {change : Change} (hload : load tables lot = some change) :
    change.lotId = lot ∧ graph tables lot = some change.toRow.links := by
  obtain ⟨row, hrow, rfl⟩ := Option.map_eq_some_iff.mp hload
  exact ⟨rfl, by rw [graph, hrow]; rfl⟩

theorem loadOrNew_lotId (tables : Tables) (new : Change) :
    (loadOrNew tables new).lotId = new.lotId := by
  unfold loadOrNew
  cases hload : load tables new.lotId with
  | none => rfl
  | some change => exact (graph_of_load hload).1

theorem loadOrNew_links (tables : Tables) (new : Change) (hnew : new.toRow.links = Links.none) :
    (loadOrNew tables new).toRow.links = linksAt (graph tables) new.lotId := by
  unfold loadOrNew
  cases hload : load tables new.lotId with
  | none =>
    have hnone : graph tables new.lotId = none := by
      rw [graph, Option.map_eq_none_iff]
      exact Option.map_eq_none_iff.mp hload
    rw [linksAt, hnone]
    exact hnew
  | some change =>
    rw [linksAt_of_some (graph_of_load hload).2]
    rfl

theorem links_newChange (lot : String) (ms : Int) :
    (newChange lot ms).toRow.links = Links.none := by
  simp [Row.links, newChange, Links.none]

theorem mem_sort {texts : List String} : found ∈ Text.sort texts ↔ found ∈ texts :=
  (List.perm_insertionSort _ texts).mem_iff

theorem mem_unionInto {set : List String} {value : String} :
    found ∈ unionInto set value ↔ found ∈ set ∨ (found = value ∧ value ≠ "") := by
  unfold unionInto
  by_cases hempty : value = ""
  · simp [hempty]
  · by_cases hmem : value ∈ set
    · simp only [hmem, decide_true, Bool.or_true, if_true]
      constructor
      · exact .inl
      · rintro (hfound | ⟨rfl, _⟩)
        · exact hfound
        · exact hmem
    · simp [hempty, hmem, mem_sort]

theorem mem_foldl_unionInto {values set : List String} :
    found ∈ values.foldl unionInto set ↔ found ∈ set ∨ (found ∈ values ∧ found ≠ "") := by
  induction values generalizing set with
  | nil => simp
  | cons value values ih =>
    rw [List.foldl_cons, ih, mem_unionInto, List.mem_cons]
    constructor
    · rintro ((hset | ⟨rfl, hne⟩) | ⟨hmem, hne⟩)
      · exact .inl hset
      · exact .inr ⟨.inl rfl, hne⟩
      · exact .inr ⟨.inr hmem, hne⟩
    · rintro (hset | ⟨rfl | hmem, hne⟩)
      · exact .inl (.inl hset)
      · exact .inl (.inr ⟨rfl, hne⟩)
      · exact .inr ⟨hmem, hne⟩

theorem foldKind_links (event : EventView) (change : Change) :
    (foldKind event change).lotId = change.lotId ∧
      (foldKind event change).toRow.links = change.toRow.links := by
  unfold foldKind
  split
  · exact ⟨rfl, rfl⟩
  · split
    · exact ⟨rfl, rfl⟩
    · split
      · exact ⟨rfl, rfl⟩
      · split <;> exact ⟨rfl, rfl⟩

theorem mem_reworksOf {event : EventView} {id original : String}
    (horiginal : original ∈ reworksOf event id) : original ≠ id ∧ original ≠ "" := by
  obtain ⟨hmem, hne⟩ := List.mem_filter.mp horiginal
  exact ⟨by simpa using hne, ne_empty_of_mem_strings hmem⟩

theorem linkReworks_links (event : EventView) (change : Change) :
    (linkReworks event change).toRow.links =
      { change.toRow.links with
        out := change.toRow.links.out ∪
          { original | original ∈ reworksOf event change.lotId } } := by
  simp only [Row.links, linkReworks, Links.mk.injEq, true_and, and_true]
  ext original
  simp only [Set.mem_ofPred_eq, Set.mem_union, mem_foldl_unionInto]
  exact or_congr_right ⟨And.left, fun hmem => ⟨hmem, (mem_reworksOf hmem).2⟩⟩

theorem foldChange_links (event : EventView) (change : Change) :
    (foldChange event change).toRow.links =
      { change.toRow.links with
        out := change.toRow.links.out ∪
          { original | original ∈ reworksOf event change.lotId } } := by
  obtain ⟨hlot, hlinks⟩ := foldKind_links event (foldFacts event change)
  rw [foldChange, linkReworks_links, hlot, hlinks]
  rfl

/-- While a landing marks what it reverts: links are paired up to what is owed, and the
landing change is stored with the links it is held with. -/
structure Landing (owed : String → String → Prop) (id : String) (links : Links String)
    (state : Tables × Change) : Prop where
  paired : Paired (graph state.1) owed
  lotId : state.2.lotId = id
  held : state.2.toRow.links = links
  stored : graph state.1 id = some links

section Landing

variable {owed : String → String → Prop} {id : String} {links : Links String}
variable {event : EventView}

theorem Landing.revertOne {token : String} {state next : Tables × Change}
    (hlanding : Landing owed id links state) (hnext : revertOne event state token = some next) :
    Landing owed id links next := by
  obtain ⟨tables, change⟩ := state
  obtain ⟨hpaired, hid, hheld, hstored⟩ := hlanding
  unfold Outcomes.revertOne at hnext
  dsimp only at hnext
  split at hnext
  next lot hhits =>
    obtain ⟨original, hload, rfl⟩ := Option.map_eq_some_iff.mp hnext
    have hother : lot ≠ id := by
      have hmem : lot ∈ revertHits tables change token := by simp [hhits]
      rw [← hid]
      simpa using (List.mem_filter.mp hmem).2
    obtain ⟨hlot, hgraph⟩ := graph_of_load hload
    have hknown : (graph tables change.lotId).isSome := by
      rw [hid, hstored]
      rfl
    refine ⟨?_, hid, hheld, ?_⟩
    · rw [graph_save]
      rw [hlot]
      exact hpaired.mark hgraph (by rw [hid]; exact hother.symm) hknown
    · rw [graph_save]
      rw [hlot, update_of_ne hother.symm]
      exact hstored
  · cases hnext
    exact ⟨hpaired, hid, hheld, hstored⟩

theorem Landing.revertAll {tokens : List String} {state next : Tables × Change}
    (hlanding : Landing owed id links state)
    (hnext : tokens.foldlM (Outcomes.revertOne event) state = some next) :
    Landing owed id links next := by
  induction tokens generalizing state with
  | nil =>
    cases hnext
    exact hlanding
  | cons token tokens ih =>
    obtain ⟨middle, hmiddle, hrest⟩ := Option.bind_eq_some_iff.mp hnext
    exact ih (hlanding.revertOne hmiddle) hrest

theorem Landing.foldLanding {tables next : Tables} {change : Change}
    (hlanding : Landing owed id links (tables, change))
    (hnext : foldLanding event tables change = some next) :
    Paired (graph next) owed ∧ graph next id = some links := by
  unfold Outcomes.foldLanding at hnext
  split at hnext
  · obtain ⟨state, hstate, rfl⟩ := Option.map_eq_some_iff.mp hnext
    have hrecorded : Landing owed id links (recordSha tables change event, change) :=
      ⟨hlanding.paired, hlanding.lotId, hlanding.held, hlanding.stored⟩
    obtain ⟨hpaired, hid, hheld, hstored⟩ := hrecorded.revertAll hstate
    -- the landing change is written once more as it is stored
    have hsame : graph (save state.1 state.2) = graph state.1 := by
      rw [graph_save, hid, hheld, ← hstored, update_eq_self]
    rw [hsame]
    exact ⟨hpaired, hstored⟩
  · cases hnext
    exact ⟨hlanding.paired, hlanding.stored⟩

end Landing

variable {event : EventView} {id todo pullLot : String} {flow : Flow.Tables}

theorem consistent_linkBack {links : Links String} {originals : List String} (hid : id ≠ "")
    (hpaired : Paired (graph tables) fun first second => first = id ∧ second ∈ originals)
    (hstored : graph tables id = some links) (hout : ∀ original ∈ originals, original ∈ links.out) :
    Consistent (graph (originals.foldl (linkBack event id) tables)) := by
  induction originals generalizing tables with
  | nil => exact hpaired.weaken (by simp)
  | cons original rest ih =>
    have hlinked := hout original (by simp)
    have hother : original ≠ id := by
      rintro rfl
      exact hpaired.out_ne original links hstored hlinked
    have hback : graph (linkBack event id tables original) =
        update (graph tables) original
          (some { linksAt (graph tables) original with
            back := insert id (linksAt (graph tables) original).back }) := by
      unfold linkBack
      rw [graph_save]
      rw [loadOrNew_lotId]
      have hbase := loadOrNew_links tables
        { newChange original event.tsMs with
          todoId := some original
          family := event.family } (by simp [Row.links, newChange, Links.none])
      change _ = linksAt (graph tables) original at hbase
      rw [← hbase]
      congr 2
      simp only [Row.links, Links.mk.injEq, true_and]
      ext lot
      simp only [Set.mem_ofPred_eq, Set.mem_insert_iff, mem_unionInto]
      constructor
      · rintro (hmem | ⟨rfl, _⟩)
        · exact .inr hmem
        · exact .inl rfl
      · rintro (rfl | hmem)
        · exact .inr ⟨rfl, hid⟩
        · exact .inl hmem
    refine ih ?_ ?_ fun other hmem => hout other (by simp [hmem])
    · rw [hback]
      refine (hpaired.settle hstored hlinked).weaken ?_
      rintro first second ⟨⟨rfl, hmem⟩, hopen⟩
      refine ⟨rfl, (List.mem_cons.mp hmem).resolve_left ?_⟩
      exact fun hsame => hopen ⟨rfl, hsame⟩
    · rw [hback, update_of_ne hother.symm]
      exact hstored

theorem consistent_foldLot (hid : id ≠ "")
    (hconsistent : Consistent (graph tables)) (hnext : foldLot event tables id = some next) :
    Consistent (graph next) := by
  obtain ⟨landed, hlanded, rfl⟩ := Option.map_eq_some_iff.mp hnext
  have hlot : (foldChange event (loadOrNew tables (newChange id event.tsMs))).lotId = id := by
    rw [foldChange_lotId]
    exact loadOrNew_lotId tables _
  have hlinks := foldChange_links event (loadOrNew tables (newChange id event.tsMs))
  rw [loadOrNew_links _ _ (links_newChange id _), loadOrNew_lotId] at hlinks
  have hself : id ∉ ({ original | original ∈ reworksOf event id } : Set String) :=
    fun hmem => (mem_reworksOf hmem).1 rfl
  have hgrown := Paired.grow hconsistent hself
  generalize foldChange event (loadOrNew tables (newChange id event.tsMs)) = change
    at hlanded hlot hlinks
  have hgraph : graph (save tables change) =
      update (graph tables) id (some change.toRow.links) := by
    rw [graph_save, hlot]
  have hlanding : Landing (fun first second => first = id ∧ second ∈ reworksOf event id) id
      change.toRow.links (save tables change, change) := by
    refine ⟨?_, hlot, rfl, ?_⟩
    · rw [hgraph, hlinks]
      exact hgrown.weaken fun _ _ howed => howed.resolve_left not_false
    · rw [hgraph, update_self]
  obtain ⟨hpaired, hstored⟩ := hlanding.foldLanding hlanded
  refine consistent_linkBack hid hpaired hstored fun _ hmem => ?_
  rw [hlinks]
  exact .inr hmem

theorem graph_rollback (tables : Tables) (event : EventView) :
    graph (rollback tables event) = graph tables := by
  unfold rollback
  split
  · rfl
  · dsimp only
    split
    · rfl
    · funext lot
      simp only [graph, OrdMap.get?_mapValues, Option.map_map]
      congr 1
      funext row
      split <;> rfl

theorem graph_deployStatus (tables : Tables) (event : EventView) :
    graph (deployStatus tables event) = graph tables := by
  unfold deployStatus
  dsimp only
  split
  · exact graph_rollback tables event
  · split <;> rfl

theorem consistent_noteIncident (hconsistent : Consistent (graph tables)) :
    Consistent (graph (noteIncident event id tables lot)) := by
  unfold noteIncident
  rw [graph_save]
  change Consistent (update (graph tables) (loadOrNew tables _).lotId
    (some (loadOrNew tables _).toRow.links))
  rw [loadOrNew_lotId, loadOrNew_links _ _ (by simp [Row.links, newChange, Links.none])]
  exact Paired.touch hconsistent lot

theorem consistent_incident (hconsistent : Consistent (graph tables)) :
    Consistent (graph (incident flow tables event)) := by
  unfold incident
  split
  · exact hconsistent
  · exact List.foldlRecOn (motive := fun tables : Tables => Consistent (graph tables)) _ _
      hconsistent fun _ hkept _ _ => consistent_noteIncident hkept

theorem graph_adopt {adopted : Change}
    (hne : todo ≠ pullLot) (hload : load tables pullLot = some adopted)
    (hreworks : adopted.reworks = []) (hreworkedBy : adopted.reworkedBy = []) :
    graph (adopt tables todo pullLot) = merge (graph tables) todo pullLot := by
  obtain ⟨_, hadopted⟩ := graph_of_load hload
  have hinto := loadOrNew_links tables _ (links_newChange todo adopted.firstSeenMs)
  change _ = linksAt (graph tables) todo at hinto
  have hlot : (loadOrNew tables (newChange todo adopted.firstSeenMs)).lotId = todo :=
    loadOrNew_lotId tables _
  have hlinks : (adoptInto todo (loadOrNew tables (newChange todo adopted.firstSeenMs))
      adopted).toRow.links =
      { marker := (linksAt (graph tables) todo).marker.or
          (linksAt (graph tables) pullLot).marker
        out := (linksAt (graph tables) todo).out ∪ (linksAt (graph tables) pullLot).out
        back := (linksAt (graph tables) todo).back ∪
          (linksAt (graph tables) pullLot).back } := by
    rw [← hinto, linksAt_of_some hadopted]
    simp [Row.links, adoptInto, hreworks, hreworkedBy]
  unfold adopt
  rw [if_neg hne, hload]
  rw [graph_save]
  change update _ (loadOrNew tables _).lotId _ = _
  rw [hlot, hlinks]
  funext row
  by_cases htodo : row = todo
  · rw [htodo, update_self, merge, if_neg hne, if_pos rfl]
  · rw [update_of_ne htodo, merge]
    by_cases hpull : row = pullLot
    · rw [if_pos hpull, hpull]
      simp [graph, dropLot]
    · rw [if_neg hpull, if_neg htodo]
      simp only [graph, dropLot, OrdMap.get?_mapValues, OrdMap.get?_erase_of_ne _ hpull,
        Option.map_map]
      congr 1
      funext stored
      by_cases hmarked : stored.revertedBy = some pullLot
      · simp [Row.links, Links.repoint, hmarked]
      · simp [Row.links, Links.repoint, hmarked]

/-- The row that a todo adopts has no rework links, did not revert the todo, and was not
reverted by it unless something else reverted the todo before. -/
@[mk_iff]
structure Unlinked (ledger : OrdMap String Row) (todo pullLot : String) (adopted : Row) :
    Prop where
  reworks : adopted.reworks = []
  reworkedBy : adopted.reworkedBy = []
  reverts : (ledger.get? todo).bind Row.revertedBy ≠ some pullLot
  revertedBy : ((ledger.get? todo).bind Row.revertedBy).isSome ∨
    adopted.revertedBy ≠ some todo

instance (ledger : OrdMap String Row) (todo pullLot : String) (adopted : Row) :
    Decidable (Unlinked ledger todo pullLot adopted) :=
  decidable_of_iff' _ (unlinked_iff ledger todo pullLot adopted)

theorem marker_linksAt_graph (tables : Tables) (lot : String) :
    (linksAt (graph tables) lot).marker =
      (tables.ledger.get? lot).bind Row.revertedBy := by
  unfold linksAt graph
  cases tables.ledger.get? lot <;> rfl

theorem consistent_adopt (hconsistent : Consistent (graph tables))
    (hunlinked : todo ≠ pullLot → ∀ adopted, tables.ledger.get? pullLot = some adopted →
      Unlinked tables.ledger todo pullLot adopted) :
    Consistent (graph (adopt tables todo pullLot)) := by
  by_cases hsame : todo = pullLot
  · rw [adopt, if_pos hsame]
    exact hconsistent
  · cases hrow : tables.ledger.get? pullLot with
    | none =>
      have hload : load tables pullLot = none := by rw [load, hrow]; rfl
      rw [adopt, if_neg hsame, hload]
      exact hconsistent
    | some adopted =>
      obtain ⟨hreworks, hreworkedBy, hreverts, hreverted⟩ := hunlinked hsame adopted hrow
      have hload : load tables pullLot =
          some { adopted with lotId := pullLot, legs := legsOf tables pullLot } := by
        rw [load, hrow]
        rfl
      have hlinks : linksAt (graph tables) pullLot = adopted.links := by
        rw [linksAt, graph, hrow]
        rfl
      rw [graph_adopt hsame hload hreworks hreworkedBy]
      refine hconsistent.merge hsame ?_ ?_ ?_ ?_
      · simp [hlinks, Row.links, hreworks]
      · simp [hlinks, Row.links, hreworkedBy]
      · rw [marker_linksAt_graph]
        exact hreverts
      · rw [marker_linksAt_graph, hlinks]
        exact hreverted

def movesChanges (tables : Tables) (event : EventView) : Bool :=
  relevant event && (foldedOnce tables.events event).2 &&
    event.kind ≠ "release.staged" && event.kind ≠ "deploy.status" &&
    !Text.startsWith event.kind "incident."

/-- When an event joins a pull request to a todo, the row of the pull request has nothing
that adoption would lose. -/
def adoptsUnlinked (ledger : OrdMap String Row) (event : EventView) : Prop :=
  match Text.nonEmpty event.todoId, event.repo, event.pr with
  | some todo, some repo, some pr =>
    todo = prLot repo pr ∨ ∀ adopted ∈ ledger.get? (prLot repo pr),
      Unlinked ledger todo (prLot repo pr) adopted
  | _, _, _ => True

instance (ledger : OrdMap String Row) (event : EventView) :
    Decidable (adoptsUnlinked ledger event) :=
  decidable_of_iff (∀ todo ∈ Text.nonEmpty event.todoId, ∀ repo ∈ event.repo, ∀ pr ∈ event.pr,
      todo = prLot repo pr ∨ ∀ adopted ∈ ledger.get? (prLot repo pr),
        Unlinked ledger todo (prLot repo pr) adopted) <| by
    unfold adoptsUnlinked
    split <;> simp_all

def AdoptsUnlinked (tables : Tables) (action : Action) : Prop :=
  movesChanges tables action.view → adoptsUnlinked tables.ledger action.view

instance (tables : Tables) (action : Action) : Decidable (AdoptsUnlinked tables action) :=
  inferInstanceAs (Decidable (_ → _))

structure LinksKept (tables : Tables) : Prop where
  known : ∀ lot row other, tables.ledger.get? lot = some row →
    row.revertedBy = some other ∨ other ∈ row.reworks ∨ other ∈ row.reworkedBy →
      (tables.ledger.get? other).isSome
  both : ∀ first second firstRow secondRow,
    tables.ledger.get? first = some firstRow → tables.ledger.get? second = some secondRow →
      (second ∈ firstRow.reworks ↔ first ∈ secondRow.reworkedBy)
  others : ∀ lot row, tables.ledger.get? lot = some row →
    row.revertedBy ≠ some lot ∧ lot ∉ row.reworks ∧ lot ∉ row.reworkedBy

theorem graph_of_get? {row : Row} (hrow : tables.ledger.get? lot = some row) :
    graph tables lot = some row.links := by
  rw [graph, hrow]
  rfl

theorem linksKept_of_consistent (hconsistent : Consistent (graph tables)) : LinksKept tables where
  known := by
    intro lot row other hrow hother
    have hgraph := graph_of_get? hrow
    have hknown : (graph tables other).isSome := by
      rcases hother with hmarker | hout | hback
      · exact hconsistent.marker_known lot row.links other hgraph hmarker
      · obtain howed | ⟨far, hfar, _⟩ :=
          hconsistent.out_back lot row.links other hgraph hout
        · exact howed.elim
        · rw [hfar]
          rfl
      · obtain ⟨far, hfar, _⟩ := hconsistent.back_out lot row.links other hgraph hback
        rw [hfar]
        rfl
    rwa [graph, Option.isSome_map] at hknown
  both := by
    intro first second firstRow secondRow hfirst hsecond
    have hfirstGraph := graph_of_get? hfirst
    have hsecondGraph := graph_of_get? hsecond
    constructor
    · intro hout
      obtain howed | ⟨far, hfar, hback⟩ :=
        hconsistent.out_back first firstRow.links second hfirstGraph hout
      · exact howed.elim
      · rw [hsecondGraph] at hfar
        cases hfar
        exact hback
    · intro hback
      obtain ⟨far, hfar, hout⟩ :=
        hconsistent.back_out second secondRow.links first hsecondGraph hback
      rw [hfirstGraph] at hfar
      cases hfar
      exact hout
  others := by
    intro lot row hrow
    have hgraph := graph_of_get? hrow
    exact ⟨hconsistent.marker_ne lot row.links hgraph, hconsistent.out_ne lot row.links hgraph,
      hconsistent.back_ne hgraph⟩

theorem consistent_foldLots {lots : List String}
    (hlots : ∀ id ∈ lots, id ≠ "") (hconsistent : Consistent (graph tables))
    (hnext : lots.foldlM (foldLot event) tables = some next) : Consistent (graph next) := by
  induction lots generalizing tables with
  | nil =>
    cases hnext
    exact hconsistent
  | cons id lots ih =>
    obtain ⟨middle, hmiddle, hrest⟩ := Option.bind_eq_some_iff.mp hnext
    exact ih (fun other hmem => hlots other (by simp [hmem]))
      (consistent_foldLot (hlots id (by simp)) hconsistent hmiddle) hrest

theorem consistent_lotsFor
    (hconsistent : Consistent (graph tables)) (hunlinked : adoptsUnlinked tables.ledger event) :
    Consistent (graph (lotsFor flow tables event).1) := by
  unfold adoptsUnlinked at hunlinked
  unfold lotsFor
  split
  next todo repo pr htodo hrepo hpr =>
    simp only [htodo, hrepo, hpr] at hunlinked
    exact consistent_adopt hconsistent fun hne => hunlinked.resolve_left hne
  · exact hconsistent
  · exact hconsistent
  · exact hconsistent

theorem consistent_fold {flow : FlowLedger}
    (hstored : Stored tables) (hconsistent : Consistent (graph tables))
    (hunlinked : event.kind ≠ "release.staged" → event.kind ≠ "deploy.status" →
      ¬Text.startsWith event.kind "incident." → adoptsUnlinked tables.ledger event)
    (hnext : fold flow.tables tables event = some next) : Consistent (graph next) := by
  unfold fold at hnext
  split at hnext
  · cases hnext
    exact hconsistent
  next hstaged =>
    split at hnext
    · cases hnext
      rw [graph_deployStatus]
      exact hconsistent
    next hdeploy =>
      split at hnext
      · cases hnext
        exact consistent_incident hconsistent
      next hincident =>
        have hnamed := (@Kept.lotsFor _ tables hstored.kept flow legRule_true event).2
        exact consistent_foldLots hnamed
          (consistent_lotsFor hconsistent (hunlinked hstaged hdeploy hincident)) hnext

theorem consistent_apply {action : Action} (hstored : Stored tables)
    (hconsistent : Consistent (graph tables)) (hunlinked : AdoptsUnlinked tables action)
    (hnext : apply action.flow.tables tables action.view = some next) :
    Consistent (graph next) := by
  unfold apply at hnext
  split at hnext
  next hrelevant =>
    split at hnext
    next hfirst =>
      refine consistent_fold
        (hstored.kept.withEvents (foldedOnce tables.events action.view).1).toStored hconsistent ?_
          hnext
      intro hstaged hdeploy hincident
      refine hunlinked ?_
      simp [movesChanges, hrelevant, hfirst, hstaged, hdeploy, hincident]
    · cases hnext
      exact hconsistent
  · cases hnext
    exact hconsistent

/-- Of any run that adopts only changes without links: what a change names is stored, names it back,
and is never the change itself. -/
theorem run_linksKept {actions : List Action} {tables : Tables}
    (hunlinked : machine.Meets AdoptsUnlinked actions) (hrun : machine.run actions = some tables) :
    LinksKept tables := by
  have hkept : Stored tables ∧ Consistent (graph tables) := by
    refine machine.run_invariant (motive := fun tables => Stored tables ∧ Consistent (graph tables))
      ⟨stored_empty, consistent_empty⟩ ?_ hunlinked hrun
    rintro state action next ⟨hstored, hconsistent⟩ hmeets hstep
    change apply action.flow.tables state action.view = some next at hstep
    obtain ⟨after, hafter, hafterStored⟩ := Stored.apply hstored action.view
    rw [hstep] at hafter
    cases hafter
    exact ⟨hafterStored, consistent_apply hstored hconsistent hmeets hstep⟩
  exact linksKept_of_consistent hkept.2

def foldedWithFlow (views : List EventView) : List Action :=
  (List.range views.length).filterMap fun index =>
    views[index]?.map fun view =>
      { flow := FlowLedger.after
          ((views.take (index + 1)).map (Flow.Action.event Flow.noEvidence))
        view := view }

/-- A pull request lands, a todo is filed that reworks it, and then the landing is
reported with the todo that the pull request belongs to. -/
def pullMerged : EventView :=
  { bareEvent 1 "pr.merged" with repo := some "acme/app", pr := some 7 }

def adopted (seq : Int) : EventView :=
  { bareEvent seq "todo.merged" with todoId := some "T1", repo := some "acme/app", pr := some 7 }

def reworked (seq : Int) (lotId : String) : EventView :=
  { bareEvent seq "todo.filed" with
    todoId := some "T2"
    detail := some (.object [("reworks", .string lotId)]) }

def reworkedThenAdopted : List EventView :=
  [pullMerged, reworked 2 "acme/app#7", adopted 3]

theorem reworkedThenAdopted_dangles :
    ∃ tables,
      machine.run (foldedWithFlow reworkedThenAdopted) = some tables ∧
        (tables.ledger.get? "T2").map Row.reworks = some ["acme/app#7"] ∧
        tables.ledger.get? "acme/app#7" = none ∧
        (tables.ledger.get? "T1").map Row.reworkedBy = some ["T2"] :=
  ⟨(machine.run (foldedWithFlow reworkedThenAdopted)).get (by decide +kernel),
    (Option.some_get _).symm, by decide +kernel, by decide +kernel, by decide +kernel⟩

def adoptedThenReworked : List EventView :=
  [pullMerged, adopted 2, reworked 3 "T1"]

theorem run_linksKept_adoptedThenReworked :
    ∃ tables,
      machine.run (foldedWithFlow adoptedThenReworked) = some tables ∧
        (tables.ledger.get? "T2").map Row.reworks = some ["T1"] ∧
        LinksKept tables :=
  ⟨(machine.run (foldedWithFlow adoptedThenReworked)).get (by decide +kernel),
    (Option.some_get _).symm, by decide +kernel,
    run_linksKept (by decide +kernel) (Option.some_get _).symm⟩

end JeryuForge.Outcomes
