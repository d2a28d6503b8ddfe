import JeryuForge.Flow.OpenVisits
import JeryuForge.Library.Folding

/-!
# The flow projection counts an event once

The keys of folded events are only ever added to, so an event that was projected under
an id writes no visit and no activity when it comes again.
-/

namespace JeryuForge.Flow

open List Pipeline

theorem adopt_keys (tables : Tables) (todoId repo : String) (pr : Int) :
    (adopt tables todoId repo pr).keys = tables.keys := by
  unfold adopt
  split <;> rfl

theorem lotsFor_keys (tables : Tables) (event : EventView) :
    (lotsFor tables event).1.keys = tables.keys := by
  unfold lotsFor
  split
  · exact adopt_keys ..
  · rfl
  · refine foldl_frame Tables.keys _ (fun _ _ => ?_) _ _
    rfl
  · rfl

variable (evidence : Evidence) (tables : Tables) (event : EventView)

theorem applyDelivery_events (delivery : Delivery) (revisions : List Revision) :
    (applyDelivery evidence tables delivery revisions).events = tables.events := by
  refine congrArg Prod.fst (foldl_frame Tables.keys _ (fun tables revision => ?_) revisions tables)
  dsimp only [deliver]
  exact (foldl_frame Tables.keys _ (fun _ _ => (moved_deliverLot ..).keys) _ _).trans
    (lotsFor_keys ..)

theorem apply_keys :
    (apply evidence tables event).keys =
      (if (eventSteps event).isEmpty then tables.events
        else (foldedOnce tables.events event).1, (recordRevision tables event).revisions) := by
  unfold apply
  dsimp only
  split
  · rw [Tables.keys, (recordRevision_frame tables event).2.2]
  · have hkeyed : (firstProjection (recordRevision tables event) event).1.keys =
        ((foldedOnce tables.events event).1, (recordRevision tables event).revisions) := by
      simp only [firstProjection, Tables.keys, (recordRevision_frame tables event).2.2]
    split
    · rw [foldl_frame Tables.keys _ fun _ _ => (moved_applyLot ..).keys, lotsFor_keys, hkeyed]
    · exact hkeyed

theorem apply_events :
    (apply evidence tables event).events =
      if (eventSteps event).isEmpty then tables.events
      else (foldedOnce tables.events event).1 :=
  congrArg Prod.fst (apply_keys evidence tables event)

theorem apply_revisions :
    (apply evidence tables event).revisions = (recordRevision tables event).revisions :=
  congrArg Prod.snd (apply_keys evidence tables event)

variable {tables : Tables} {event : EventView}

theorem knows_apply {evidence : Evidence}
    {reporter eventId : String} (hknown : Knows tables.events reporter eventId) :
    Knows (apply evidence tables event).events reporter eventId := by
  rw [apply_events]
  split
  · exact hknown
  · exact hknown.foldedOnce event

theorem apply_again (evidence : Evidence) {tables : Tables} (event : EventView)
    {eventId : String} (hid : event.eventId = some eventId) (hname : eventId ≠ "")
    (hknown : eventSteps event ≠ [] → Knows tables.events event.reporter eventId) :
    (apply evidence tables event).ledger = tables.ledger ∧
      (apply evidence tables event).activity = tables.activity := by
  refine apply_of_not_movesLots evidence fun hmoves => ?_
  obtain ⟨hsteps, hfirst⟩ := Bool.and_eq_true_iff.mp hmoves
  rw [firstProjection, foldedOnce_of_knows hid hname (hknown (by simpa using hsteps))] at hfirst
  cases hfirst

/-! ## Events that were folded

A folded event has left everything that a second projection looks for. -/

def Recorded (revisions : List Revision) (event : EventView) : Prop :=
  ∀ repo pr sha, event.repo = some repo → event.pr = some pr → event.sha = some sha →
    (event.kind = "pr.merged" ∨ event.kind = "queue.landed") ∧ validSha sha →
      ∃ row ∈ revisions, row.key = (repo, pr, sha)

theorem recordRevision_of_recorded
    (hrecorded : Recorded tables.revisions event) : recordRevision tables event = tables := by
  unfold recordRevision
  split
  next repo pr sha hrepo hpr hsha =>
    split
    next hlanding =>
      have hholds : Table.holdsKey Revision.key tables.revisions
          { repo := repo, pr := pr, sha := sha, family := event.family } = true :=
        Table.holdsKey_iff.mpr (hrecorded repo pr sha hrepo hpr hsha hlanding)
      simp [Table.insertOrIgnore, hholds]
    · rfl
  · rfl

theorem Recorded.recordRevision (hrecorded : Recorded tables.revisions event) (other : EventView) :
    Recorded (recordRevision tables other).revisions event := by
  intro repo pr sha hrepo hpr hsha hlanding
  obtain ⟨row, hrow, hkey⟩ := hrecorded repo pr sha hrepo hpr hsha hlanding
  refine ⟨row, ?_, hkey⟩
  unfold Flow.recordRevision
  split
  · split
    · exact Table.mem_insertOrIgnore_of_mem hrow
    · exact hrow
  · exact hrow

theorem recorded_recordRevision (tables : Tables) (event : EventView) :
    Recorded (recordRevision tables event).revisions event := by
  intro repo pr sha hrepo hpr hsha hlanding
  unfold recordRevision
  rw [hrepo, hpr, hsha]
  simp only [if_pos hlanding]
  exact Table.exists_key_insertOrIgnore Revision.key tables.revisions
    { repo := repo, pr := pr, sha := sha, family := event.family }

structure Folded (tables : Tables) (event : EventView) : Prop where
  revision : Recorded tables.revisions event
  key : eventSteps event ≠ [] → ∀ eventId, event.eventId = some eventId → eventId ≠ "" →
    Knows tables.events event.reporter eventId

theorem folded_apply (evidence : Evidence) (tables : Tables) (event : EventView) :
    Folded (apply evidence tables event) event where
  revision := by
    rw [apply_revisions]
    exact recorded_recordRevision tables event
  key := by
    intro hsteps eventId hid hname
    rw [apply_events, if_neg (by simpa using hsteps)]
    exact knows_foldedOnce hid hname

theorem Folded.apply {tables : Tables} {event : EventView} (hfolded : Folded tables event)
    (evidence : Evidence) (other : EventView) : Folded (apply evidence tables other) event where
  revision := by
    rw [apply_revisions]
    exact hfolded.revision.recordRevision other
  key := fun hsteps eventId hid hname => knows_apply (hfolded.key hsteps eventId hid hname)

theorem Folded.apply_eq (hfolded : Folded tables event) (evidence : Evidence)
    (hnamed : eventSteps event ≠ [] → ∃ eventId, event.eventId = some eventId ∧ eventId ≠ "") :
    Flow.apply evidence tables event = tables := by
  unfold Flow.apply
  dsimp only
  rw [recordRevision_of_recorded hfolded.revision]
  split
  · rfl
  next hsteps =>
    have hmoves : eventSteps event ≠ [] := by simpa using hsteps
    obtain ⟨eventId, hid, hname⟩ := hnamed hmoves
    have hseen := foldedOnce_of_knows hid hname (hfolded.key hmoves eventId hid hname)
    simp only [firstProjection, hseen]
    rfl

end JeryuForge.Flow
