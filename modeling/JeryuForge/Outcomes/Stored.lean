import JeryuForge.Flow.OpenVisits
import JeryuForge.Outcomes.Project

/-!
# What the rows of the outcome projection keep

Recorded commits name stored changes, legs belong to lots with a name, and a leg was merged
before it was released or deployed, whatever events the fold has seen.  The first is what
`revert` expects of the tables.
-/

namespace JeryuForge.Outcomes

open Pipeline List Option Table

structure FlowLedger where
  tables : Flow.Tables
  named : Flow.Named tables.ledger

def FlowLedger.after (actions : List Flow.Action) : FlowLedger where
  tables := (Flow.machine.run actions).getD Flow.Tables.empty
  named := by
    cases hrun : Flow.machine.run actions with
    | none => exact fun _ hvisit => by cases hvisit
    | some tables => exact Flow.run_named hrun

structure Action where
  flow : FlowLedger
  view : EventView

def machine : Machine Tables Action where
  start := Tables.empty
  step tables action := apply action.flow.tables tables action.view

structure Stored (tables : Tables) : Prop where
  legs : ∀ row ∈ tables.legs, row.lotId ≠ ""
  shas : ∀ row ∈ tables.shas, (tables.ledger.get? row.lotId).isSome

def Change.Named (change : Change) : Prop :=
  change.legs ≠ [] → change.lotId ≠ ""

def Leg.InOrder (leg : Leg) : Prop :=
  ∀ (how : Ship), ∀ ms ∈ how.column leg, ∃ merged ∈ leg.mergedMs, merged ≤ ms

/-- What happens to a leg: it is opened, named, merged, shipped after it was merged, or joined
with the same repository's leg of an adopted change. -/
structure LegRule (keeps : Leg → Prop) : Prop where
  blank : ∀ name, keeps (.blank name)
  rename : ∀ leg name, keeps leg → keeps { leg with repo := name }
  merge : ∀ leg ms pr sha, keeps leg →
    keeps { leg with mergedMs := minInto leg.mergedMs ms, pr := pr, sha := sha }
  stamp : ∀ how leg ms release, keeps leg → leg.mergedMs.any (· ≤ ms) = true →
    keeps (Ship.stamp how leg ms release)
  adopt : ∀ held leg, keeps held → keeps leg → keeps (held.adopt leg)

structure Change.Kept (keeps : Leg → Prop) (change : Change) : Prop where
  named : change.Named
  each : ∀ leg ∈ change.legs, keeps leg

structure Kept (keeps : Leg → Prop) (tables : Tables) : Prop extends Stored tables where
  each : ∀ row ∈ tables.legs, keeps row.toLeg

theorem mem_minWith {slot value : Option Int} {ms : Int} (hms : ms ∈ minWith slot value) :
    ms ∈ slot ∨ ms ∈ value := by
  cases value with
  | none => exact .inl hms
  | some new =>
    cases slot with
    | none => exact .inr hms
    | some old =>
      obtain rfl : min old new = ms := Option.some.inj hms
      exact (min_choice old new).imp (fun h => congrArg some h.symm) fun h => congrArg some h.symm

theorem minWith_le {slot value : Option Int} {ms : Int} (hms : ms ∈ slot ∨ ms ∈ value) :
    ∃ least ∈ minWith slot value, least ≤ ms := by
  cases value with
  | none => exact ⟨ms, hms.resolve_right nofun, le_rfl⟩
  | some new =>
    cases slot with
    | none => exact ⟨new, rfl, (Option.some.inj (hms.resolve_left nofun)).le⟩
    | some old =>
      refine ⟨min old new, rfl, ?_⟩
      rcases hms with hold | hnew
      · exact Option.some.inj hold ▸ Int.min_le_left old new
      · exact Option.some.inj hnew ▸ Int.min_le_right old new

theorem legRule_inOrder : LegRule Leg.InOrder where
  blank := by
    rintro _ (_ | _) _ ⟨⟩
  rename := fun _ _ hleg how => by
    cases how
    · exact hleg .released
    · exact hleg .deployed
  merge := by
    intro leg ms pr sha hleg how time htime
    obtain ⟨merged, hmem, hle⟩ := hleg how time (by cases how <;> exact htime)
    obtain ⟨least, hleast, hearlier⟩ := @minWith_le leg.mergedMs (some ms) merged (.inl hmem)
    exact ⟨least, hleast, hearlier.trans hle⟩
  stamp := by
    intro how leg ms release hleg hmerged column time htime
    obtain ⟨merged, hmem, hle⟩ := (any_eq_true _ _).mp hmerged
    by_cases hsame : column = how
    · subst hsame
      obtain rfl : ms = time := by cases column <;> exact Option.some.inj htime
      exact ⟨merged, by cases column <;> exact hmem, of_decide_eq_true hle⟩
    · have hkept : time ∈ column.column leg := by
        cases column <;> cases how <;> first | exact absurd rfl hsame | exact htime
      obtain ⟨first, hfirst, hbefore⟩ := hleg column time hkept
      exact ⟨first, by cases how <;> exact hfirst, hbefore⟩
  adopt := by
    intro held leg hheld hleg how ms hms
    have hmerged : ∃ merged, (merged ∈ held.mergedMs ∨ merged ∈ leg.mergedMs) ∧ merged ≤ ms := by
      have hcolumn : ms ∈ minWith (how.column held) (how.column leg) := by
        cases how <;> exact hms
      rcases mem_minWith hcolumn with hold | hnew
      · obtain ⟨merged, hmem, hle⟩ := hheld how ms hold
        exact ⟨merged, .inl hmem, hle⟩
      · obtain ⟨merged, hmem, hle⟩ := hleg how ms hnew
        exact ⟨merged, .inr hmem, hle⟩
    obtain ⟨merged, hmem, hle⟩ := hmerged
    obtain ⟨least, hleast, hearlier⟩ := minWith_le hmem
    exact ⟨least, hleast, hearlier.trans hle⟩

theorem legRule_true : LegRule fun _ => True :=
  ⟨fun _ => trivial, fun _ _ _ => trivial, fun _ _ _ _ _ => trivial,
    fun _ _ _ _ _ _ => trivial, fun _ _ _ _ => trivial⟩

theorem mem_sortLegs {legs : List Leg} {leg : Leg} : leg ∈ sortLegs legs ↔ leg ∈ legs :=
  (perm_insertionSort _ _).mem_iff

/-- The leg that `leg_for` expects to find. -/
theorem exists_mem_ensureLeg (legs : List Leg) (name : String) :
    ∃ leg ∈ ensureLeg legs name, leg.repo = name := by
  unfold ensureLeg
  extract_lets claimed
  split
  next hany =>
    obtain ⟨leg, hleg, hname⟩ := any_eq_true.mp hany
    exact ⟨leg, hleg, of_decide_eq_true hname⟩
  · exact ⟨_, mem_sortLegs.mpr (mem_append_right _ (mem_singleton_self _)), rfl⟩

section Legs

variable {keeps : Leg → Prop} {legs : List Leg}

theorem keeps_updateLeg (hlegs : ∀ leg ∈ legs, keeps leg) {repo : String}
    {change : Leg → Leg} (hchange : ∀ leg, keeps leg → keeps (change leg)) :
    ∀ leg ∈ updateLeg legs repo change, keeps leg := by
  induction legs with
  | nil => exact hlegs
  | cons first rest ih =>
    obtain ⟨hfirst, hrest⟩ := forall_mem_cons.mp hlegs
    unfold updateLeg
    split
    · exact forall_mem_cons.mpr ⟨hchange first hfirst, hrest⟩
    · exact forall_mem_cons.mpr ⟨hfirst, ih hrest⟩

theorem LegRule.ensureLeg (hrule : LegRule keeps) (hlegs : ∀ leg ∈ legs, keeps leg)
    (name : String) : ∀ leg ∈ ensureLeg legs name, keeps leg := by
  have hclaimed : ∀ leg ∈ (if !name.isEmpty && !legs.any fun leg => leg.repo = name then
      updateLeg legs "" fun leg => { leg with repo := name } else legs), keeps leg := by
    split
    · exact keeps_updateLeg hlegs fun leg => hrule.rename leg name
    · exact hlegs
  unfold Outcomes.ensureLeg
  dsimp only
  generalize (if !name.isEmpty && !legs.any fun leg => leg.repo = name then
    updateLeg legs "" fun leg => { leg with repo := name } else legs) = claimed at hclaimed ⊢
  split
  · exact hclaimed
  · intro leg hleg
    rcases mem_append.mp (mem_sortLegs.mp hleg) with hold | hnew
    · exact hclaimed leg hold
    · rw [mem_singleton.mp hnew]
      exact hrule.blank name

theorem LegRule.foldChange (hrule : LegRule keeps) {change : Change}
    (hlegs : ∀ leg ∈ change.legs, keeps leg) (event : EventView) :
    ∀ leg ∈ (foldChange event change).legs, keeps leg := by
  change ∀ leg ∈ (foldKind event (foldFacts event change)).legs, keeps leg
  unfold foldKind
  split
  · exact hlegs
  · split
    · exact hlegs
    · split
      · exact hlegs
      · split
        · exact keeps_updateLeg (hrule.ensureLeg hlegs _) fun leg hleg =>
            hrule.merge leg _ _ _ hleg
        · exact hlegs

theorem LegRule.adoptLeg (hrule : LegRule keeps) {leg : Leg} (hlegs : ∀ held ∈ legs, keeps held)
    (hleg : keeps leg) : ∀ held ∈ adoptLeg legs leg, keeps held := by
  unfold Outcomes.adoptLeg
  split
  · exact keeps_updateLeg hlegs fun held hheld => hrule.adopt held leg hheld hleg
  · exact forall_mem_append.mpr ⟨hlegs, forall_mem_singleton.mpr hleg⟩

end Legs

theorem mem_saveLegs {legs : List LegRow} {change : Change} {row : LegRow}
    (hrow : row ∈ saveLegs legs change) :
    row ∈ legs ∨ (row.toLeg ∈ change.legs ∧ row.lotId = change.lotId) := by
  have hsaved : ∀ row ∈ change.legs.foldl
      (fun rows leg => upsert LegRow.key rows { leg with lotId := change.lotId }) legs,
      row ∈ legs ∨ (row.toLeg ∈ change.legs ∧ row.lotId = change.lotId) := by
    refine foldlRecOn (motive := fun rows : List LegRow => ∀ row ∈ rows,
      row ∈ legs ∨ (row.toLeg ∈ change.legs ∧ row.lotId = change.lotId)) _ _
      (fun _ hmem => .inl hmem) ?_
    intro rows hrows leg hleg row hmem
    rcases mem_of_mem_upsert hmem with hold | rfl
    · exact hrows row hold
    · exact .inr ⟨hleg, rfl⟩
  unfold saveLegs at hrow
  split at hrow
  · exact hsaved row (mem_deleteWhere.mp hrow).1
  · exact hsaved row hrow

theorem isSome_save {tables : Tables} {change : Change} {lot : String}
    (hlot : (tables.ledger.get? lot).isSome ∨ lot = change.lotId) :
    ((save tables change).ledger.get? lot).isSome := by
  by_cases hsame : lot = change.lotId
  · rw [hsame, save, OrdMap.get?_insert_self]
    rfl
  · rw [save, OrdMap.get?_insert_of_ne _ _ hsame]
    exact hlot.resolve_right hsame

section Tables

variable {keeps : Leg → Prop} {change : Change} {tables : Tables} {event : EventView}
  (htables : Kept keeps tables)
include htables

theorem Kept.save (hchange : change.Kept keeps) : Kept keeps (save tables change) where
  legs := by
    intro row hrow
    rcases mem_saveLegs hrow with hold | ⟨hleg, hlot⟩
    · exact htables.legs row hold
    · exact hlot ▸ hchange.named (ne_nil_of_mem hleg)
  shas := fun row hrow => isSome_save (.inl (htables.shas row hrow))
  each := by
    intro row hrow
    rcases mem_saveLegs hrow with hold | ⟨hleg, _⟩
    · exact htables.each row hold
    · exact hchange.each _ hleg

theorem Kept.load {lot : String} (hload : load tables lot = some change) :
    change.Kept keeps ∧ change.lotId = lot := by
  obtain ⟨row, _, rfl⟩ := map_eq_some_iff.mp hload
  have hrows : ∀ leg ∈ legsOf tables lot, lot ≠ "" ∧ keeps leg := by
    intro leg hleg
    obtain ⟨stored, hfound, rfl⟩ := mem_map.mp (mem_sortLegs.mp hleg)
    obtain ⟨hrow, hlot⟩ := mem_filter.mp hfound
    exact ⟨of_decide_eq_true hlot ▸ htables.legs stored hrow, htables.each stored hrow⟩
  refine ⟨⟨fun hlegs => ?_, fun leg hleg => (hrows leg hleg).2⟩, rfl⟩
  obtain ⟨leg, hleg⟩ := exists_mem_of_ne_nil _ hlegs
  exact (hrows leg hleg).1

theorem Kept.loadOrNew (new : Change) (hnew : new.legs = []) :
    (loadOrNew tables new).Kept keeps ∧ (loadOrNew tables new).lotId = new.lotId := by
  unfold Outcomes.loadOrNew
  cases hload : Outcomes.load tables new.lotId with
  | none =>
    refine ⟨⟨fun hlegs => absurd hnew hlegs, fun leg hleg => ?_⟩, rfl⟩
    rw [getD_none, hnew] at hleg
    cases hleg
  | some change => exact htables.load hload

/-! ## Events -/

theorem Kept.recordSha (hknown : (tables.ledger.get? change.lotId).isSome) :
    Kept keeps (recordSha tables change event) where
  legs := htables.legs
  each := htables.each
  shas := by
    refine foldlRecOn
      (motive := fun rows : List ShaRow => ∀ row ∈ rows, (tables.ledger.get? row.lotId).isSome)
      _ _ htables.shas ?_
    intro rows hrows sha _ row hrow
    rcases mem_of_mem_insertOrIgnore hrow with hold | rfl
    · exact hrows row hold
    · exact hknown

theorem Kept.revertHits {token lot : String} (hlot : lot ∈ revertHits tables change token) :
    (Outcomes.load tables lot).isSome := by
  have hhit := (mem_filter.mp hlot).1
  split at hhit
  next hloaded =>
    rw [mem_singleton.mp hhit]
    exact (Bool.and_eq_true_iff.mp hloaded).2
  · obtain ⟨row, hrow, rfl⟩ := mem_map.mp (mem_eraseDups.mp hhit)
    rw [Outcomes.load, isSome_map]
    exact htables.shas row (mem_filter.mp hrow).1

theorem Kept.revertOne {token : String} :
    ∃ next, revertOne event (tables, change) token = some next ∧ Kept keeps next.1 ∧
      next.2.lotId = change.lotId ∧ next.2.legs = change.legs := by
  unfold Outcomes.revertOne
  dsimp only
  split
  next lot hhits =>
    obtain ⟨original, hload⟩ := isSome_iff_exists.mp
      (@Kept.revertHits _ change tables htables token lot (by simp [hhits]))
    rw [hload]
    have horiginal := (htables.load hload).1
    exact ⟨_, rfl, htables.save ⟨horiginal.named, horiginal.each⟩, rfl, rfl⟩
  · exact ⟨_, rfl, htables, rfl, rfl⟩

theorem Kept.revertAll {tokens : List String} :
    ∃ next, tokens.foldlM (Outcomes.revertOne event) (tables, change) = some next ∧
      Kept keeps next.1 ∧ next.2.lotId = change.lotId ∧ next.2.legs = change.legs := by
  induction tokens generalizing tables change with
  | nil => exact ⟨_, rfl, htables, rfl, rfl⟩
  | cons token tokens ih =>
    obtain ⟨⟨middle, held⟩, hmiddle, hkept, hlot, hlegs⟩ :=
      Kept.revertOne htables
    obtain ⟨next, hnext, hfinal, hlast, hlastLegs⟩ := @ih held middle hkept
    refine ⟨next, ?_, hfinal, hlast.trans hlot, hlastLegs.trans hlegs⟩
    rw [foldlM_cons, hmiddle]
    exact hnext

theorem Kept.foldLanding (hchange : change.Kept keeps)
    (hknown : (tables.ledger.get? change.lotId).isSome) :
    ∃ next, foldLanding event tables change = some next ∧ Kept keeps next := by
  unfold Outcomes.foldLanding
  split
  · obtain ⟨state, hstate, hkept, hlot, hlegs⟩ :=
      Kept.revertAll (htables.recordSha hknown)
    unfold revert
    rw [hstate]
    refine ⟨_, rfl, hkept.save ⟨?_, ?_⟩⟩
    · rw [Change.Named, hlot, hlegs]
      exact hchange.named
    · rw [hlegs]
      exact hchange.each
  · exact ⟨tables, rfl, htables⟩

theorem Kept.linkBack {id original : String} : Kept keeps (linkBack event id tables original) := by
  have hbase := (htables.loadOrNew
    { newChange original event.tsMs with todoId := some original, family := event.family } rfl).1
  exact htables.save ⟨hbase.named, hbase.each⟩

omit htables in
theorem foldChange_lotId (event : EventView) (change : Change) :
    (foldChange event change).lotId = change.lotId := by
  change (foldKind event (foldFacts event change)).lotId = change.lotId
  unfold foldKind
  split
  · rfl
  · split
    · rfl
    · split
      · rfl
      · split <;> rfl

theorem Kept.foldLot {id : String} (hrule : LegRule keeps) (hid : id ≠ "") :
    ∃ next, foldLot event tables id = some next ∧ Kept keeps next := by
  have hlot : (foldChange event
      (Outcomes.loadOrNew tables (newChange id event.tsMs))).lotId = id := by
    rw [foldChange_lotId]
    exact (htables.loadOrNew _ rfl).2
  have hchange : (foldChange event
      (Outcomes.loadOrNew tables (newChange id event.tsMs))).Kept keeps := by
    refine ⟨fun _ => ?_, hrule.foldChange (htables.loadOrNew _ rfl).1.each event⟩
    rw [hlot]
    exact hid
  obtain ⟨landed, hlanded, hkept⟩ := Kept.foldLanding (htables.save hchange)
    hchange (isSome_save (.inr rfl))
  unfold Outcomes.foldLot
  dsimp only
  rw [hlanded]
  exact ⟨_, rfl, foldlRecOn _ _ hkept fun _ hbase _ _ => hbase.linkBack⟩

theorem Kept.foldLots {lots : List String} (hrule : LegRule keeps) (hlots : ∀ id ∈ lots, id ≠ "") :
    ∃ next, lots.foldlM (Outcomes.foldLot event) tables = some next ∧ Kept keeps next := by
  induction lots generalizing tables with
  | nil => exact ⟨tables, rfl, htables⟩
  | cons id lots ih =>
    obtain ⟨middle, hmiddle, hkept⟩ :=
      Kept.foldLot htables hrule (hlots id (by simp))
    obtain ⟨next, hnext, hfinal⟩ :=
      ih hkept fun other hmem => hlots other (by simp [hmem])
    refine ⟨next, ?_, hfinal⟩
    rw [foldlM_cons, hmiddle]
    exact hnext

theorem Kept.adopt {todo pullLot : String} (hrule : LegRule keeps) (htodo : todo ≠ "") :
    Kept keeps (adopt tables todo pullLot) := by
  unfold Outcomes.adopt
  split
  · exact htables
  · split
    · exact htables
    next adopted hload =>
      obtain ⟨hinto, hlot⟩ : (Outcomes.loadOrNew tables
          (newChange todo adopted.firstSeenMs)).Kept keeps ∧ (adoptInto todo
          (Outcomes.loadOrNew tables (newChange todo adopted.firstSeenMs)) adopted).lotId =
          todo :=
        htables.loadOrNew _ rfl
      have hjoined : ∀ leg ∈ adopted.legs.foldl adoptLeg (Outcomes.loadOrNew tables
          (newChange todo adopted.firstSeenMs)).legs, keeps leg :=
        foldlRecOn (motive := fun legs : List Leg => ∀ leg ∈ legs, keeps leg) _ _ hinto.each
          fun _ hkept leg hleg => hrule.adoptLeg hkept ((htables.load hload).1.each leg hleg)
      refine ⟨⟨?_, ?_⟩, ?_⟩
      · intro row hrow
        rcases mem_saveLegs hrow with hold | ⟨_, hsaved⟩
        · exact htables.legs row (mem_deleteWhere.mp hold).1
        · rw [hsaved, hlot]
          exact htodo
      · intro row hrow
        obtain ⟨old, hold, rfl⟩ := mem_updateWhere.mp hrow
        refine isSome_save ?_
        split
        · exact .inr hlot.symm
        next hother =>
          have hne : old.lotId ≠ pullLot := by simpa using hother
          refine .inl ?_
          rw [dropLot, OrdMap.get?_mapValues, isSome_map, OrdMap.get?_erase_of_ne _ hne]
          exact htables.shas old hold
      · intro row hrow
        rcases mem_saveLegs hrow with hold | ⟨hleg, _⟩
        · exact htables.each row (mem_deleteWhere.mp hold).1
        · exact hjoined _ (mem_sortLegs.mp hleg)

theorem Kept.lotsFor {flow : FlowLedger} (hrule : LegRule keeps) (event : EventView) :
    Kept keeps (lotsFor flow.tables tables event).1 ∧
      ∀ id ∈ (lotsFor flow.tables tables event).2, id ≠ "" := by
  unfold Outcomes.lotsFor
  split
  next todo repo pr htodo _ _ =>
    have hname := Flow.nonEmpty_ne_empty htodo
    exact ⟨htables.adopt hrule hname, fun id hid => by rw [mem_singleton.mp hid]; exact hname⟩
  next todo htodo _ =>
    refine ⟨htables, fun id hid => ?_⟩
    rw [mem_singleton.mp hid]
    exact Flow.nonEmpty_ne_empty htodo
  next repo pr _ _ _ =>
    refine ⟨htables, fun id hid => ?_⟩
    have hpull : id ∈ pullLots flow.tables tables repo pr := hid
    unfold pullLots at hpull
    dsimp only at hpull
    split at hpull
    · split at hpull
      · rw [mem_singleton.mp hpull]
        exact Flow.prLot_ne_empty repo pr
      · obtain ⟨row, hrow, rfl⟩ := mem_map.mp hpull
        exact htables.legs row (mem_filter.mp hrow).1
    · exact flow.named.lotsOfPr hpull
  · exact ⟨htables, fun _ hid => by cases hid⟩

theorem Kept.ship (hrule : LegRule keeps) (event : EventView) (how : Ship) :
    Kept keeps (ship tables event how) := by
  have hrows : ∀ row ∈ (Outcomes.ship tables event how).legs,
      row.lotId ≠ "" ∧ keeps row.toLeg := by
    refine foldlRecOn
      (motive := fun rows : List LegRow => ∀ row ∈ rows, row.lotId ≠ "" ∧ keeps row.toLeg)
      _ _ (fun row hrow => ⟨htables.legs row hrow, htables.each row hrow⟩) ?_
    intro rows hrows repo _ row hrow
    obtain ⟨old, hold, rfl⟩ := mem_updateWhere.mp hrow
    obtain ⟨hlot, hleg⟩ := hrows old hold
    split
    next hhit =>
      simp only [Bool.and_eq_true] at hhit
      exact ⟨hlot, hrule.stamp how _ _ _ hleg hhit.1.1.2⟩
    · exact ⟨hlot, hleg⟩
  exact ⟨⟨fun row hrow => (hrows row hrow).1, htables.shas⟩, fun row hrow => (hrows row hrow).2⟩

theorem Kept.rollback (event : EventView) : Kept keeps (rollback tables event) := by
  unfold Outcomes.rollback
  split
  · exact htables
  · dsimp only
    split
    · exact htables
    · refine ⟨⟨htables.legs, fun row hrow => ?_⟩, htables.each⟩
      rw [OrdMap.get?_mapValues, isSome_map]
      exact htables.shas row hrow

theorem Kept.deployStatus (hrule : LegRule keeps) (event : EventView) :
    Kept keeps (deployStatus tables event) := by
  unfold Outcomes.deployStatus
  dsimp only
  split
  · exact htables.rollback event
  · split
    · exact htables.ship hrule event .deployed
    · exact htables

theorem Kept.noteIncident {id lot : String} : Kept keeps (noteIncident event id tables lot) := by
  have hbase := (htables.loadOrNew
    { newChange lot event.tsMs with
      todoId := if isPullLot lot then none else some lot
      family := event.family } rfl).1
  exact htables.save ⟨hbase.named, hbase.each⟩

theorem Kept.incident {flow : Flow.Tables} (event : EventView) :
    Kept keeps (incident flow tables event) := by
  unfold Outcomes.incident
  split
  · exact htables
  · exact foldlRecOn _ _ htables fun _ hkept _ _ =>
      hkept.noteIncident

theorem Kept.fold {flow : FlowLedger} (hrule : LegRule keeps) (event : EventView) :
    ∃ next, fold flow.tables tables event = some next ∧ Kept keeps next := by
  unfold Outcomes.fold
  split
  · exact ⟨_, rfl, htables.ship hrule event .released⟩
  · split
    · exact ⟨_, rfl, htables.deployStatus hrule event⟩
    · split
      · exact ⟨_, rfl, htables.incident event⟩
      · obtain ⟨hjoined, hnamed⟩ := Kept.lotsFor htables hrule event
        exact hjoined.foldLots hrule hnamed

theorem Kept.withEvents (events : List ProjectedEvent) :
    Kept keeps { tables with events := events } :=
  ⟨⟨htables.legs, htables.shas⟩, htables.each⟩

theorem Kept.apply {flow : FlowLedger} (hrule : LegRule keeps) (event : EventView) :
    ∃ next, apply flow.tables tables event = some next ∧ Kept keeps next := by
  unfold Outcomes.apply
  split
  · split
    · exact (htables.withEvents _).fold hrule event
    · exact ⟨_, rfl, htables.withEvents _⟩
  · exact ⟨_, rfl, htables⟩

omit htables in
theorem kept_empty : Kept keeps Tables.empty :=
  ⟨⟨by simp [Tables.empty], by simp [Tables.empty]⟩, by simp [Tables.empty]⟩

omit htables in
theorem run_kept (hrule : LegRule keeps) (actions : List Action) :
    ∃ tables, machine.run actions = some tables ∧ Kept keeps tables := by
  have hfrom : ∀ tables, Kept keeps tables →
      ∃ next, machine.runFrom tables actions = some next ∧ Kept keeps next := by
    induction actions with
    | nil => exact fun tables htables => ⟨tables, rfl, htables⟩
    | cons action rest ih =>
      intro tables htables
      obtain ⟨next, hnext, hkept⟩ :=
        @Kept.apply _ tables htables action.flow hrule action.view
      change ∃ last, (apply action.flow.tables tables action.view).bind _ = some last ∧ _
      rw [hnext]
      exact ih next hkept
  exact hfrom _ kept_empty

end Tables

theorem Stored.kept {tables : Tables} (hstored : Stored tables) : Kept (fun _ => True) tables :=
  ⟨hstored, fun _ _ => trivial⟩

theorem Stored.apply {flow : FlowLedger} {tables : Tables} (hstored : Stored tables)
    (event : EventView) : ∃ next, apply flow.tables tables event = some next ∧ Stored next := by
  obtain ⟨next, hnext, hkept⟩ := @Kept.apply _ tables hstored.kept flow legRule_true event
  exact ⟨next, hnext, hkept.toStored⟩

theorem stored_empty : Stored Tables.empty :=
  (kept_empty : Kept (fun _ => True) _).toStored

/-- No event makes the fold panic: every recorded commit names a stored change, and the leg that
a landing looks for is there. -/
theorem run_commits_stored (actions : List Action) :
    ∃ tables, machine.run actions = some tables ∧
      (∀ row ∈ tables.shas, (tables.ledger.get? row.lotId).isSome) ∧
        ∀ legs name, ∃ leg ∈ ensureLeg legs name, leg.repo = name := by
  obtain ⟨tables, hrun, hkept⟩ := run_kept legRule_true actions
  exact ⟨tables, hrun, hkept.shas, exists_mem_ensureLeg⟩

/-- A leg that was released or deployed was merged, and not later. -/
theorem run_merged_first (actions : List Action) :
    ∃ tables, machine.run actions = some tables ∧
      ∀ row ∈ tables.legs,
        (∀ released ∈ row.releasedMs, ∃ merged ∈ row.mergedMs, merged ≤ released) ∧
          ∀ deployed ∈ row.deployedMs, ∃ merged ∈ row.mergedMs, merged ≤ deployed := by
  obtain ⟨tables, hrun, hkept⟩ := run_kept legRule_inOrder actions
  exact ⟨tables, hrun, fun row hrow =>
    ⟨hkept.each row hrow .released, hkept.each row hrow .deployed⟩⟩

end JeryuForge.Outcomes
