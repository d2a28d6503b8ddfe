import JeryuForge.Outcomes.Links

/-!
# Which change a text charges

A text that an event gives as a cause or as what it reverts is looked up among the recorded
commits as a `LIKE` pattern.  An incident is charged to the first commit found, a revert to the
only change found besides the one that lands.  Neither is right for a text that matches the
commits of several changes, or none literally.
-/

namespace JeryuForge.Outcomes

open Pipeline List Text

def ShaRow.Literal (row : ShaRow) (text : String) : Prop :=
  startsWith (toAsciiLowercase row.sha) (toAsciiLowercase text) = true

/-- An event charges a change for a text: an incident whatever the order in which the rows are
read, a revert for whatever change lands. -/
inductive Charged (tables : Tables) (text lot : String) : Prop where
  | incident {rows : List ShaRow} (hrows : rows.Perm tables.shas)
      (hhit : (lotsOfSha { tables with shas := rows } (toAsciiLowercase text)).head? = some lot)
  | revert {change : Change} (hhits : revertHits tables change text = [lot])

structure NamedAlone (tables : Tables) (text lot : String) : Prop where
  alone : ∀ row ∈ tables.shas, row.Literal text → row.lotId = lot
  named : lot = text ∨ ∃ row ∈ tables.shas, row.Literal text ∧ row.lotId = lot

/-- The commits that match the text as a pattern are of one change, and one of them starts with
it, or it is the change's own id. -/
structure Unmistakable (tables : Tables) (text : String) : Prop where
  one : ∀ first ∈ lotsOfSha tables text, ∀ second ∈ lotsOfSha tables text, first = second
  literal : ∀ lot ∈ lotsOfSha tables text, lot = text ∨ ∃ row ∈ tables.shas, row.Literal text

theorem likeChars_lower (pattern rest text : List Char) :
    likeChars (pattern.map Char.toLower ++ rest) text =
      likeChars (pattern ++ rest) text := by
  induction pattern generalizing text with
  | nil => rfl
  | cons wildcard pattern ih =>
    have hlower : wildcard.toLower.toLower = wildcard.toLower ∧
        (wildcard.toLower = '%' ↔ wildcard = '%') ∧ (wildcard.toLower = '_' ↔ wildcard = '_') := by
      unfold Char.toLower
      split <;> simp only [Char.ext_iff] <;> grind
    simp only [map_cons, cons_append, likeChars, ih, hlower]

theorem likeChars_of_literal {pattern text : List Char}
    (hliteral : pattern.map Char.toLower <+: text.map Char.toLower) :
    likeChars (pattern ++ ['%']) text = true := by
  induction pattern generalizing text with
  | nil => simp [likeChars, mem_tails]
  | cons wildcard pattern ih =>
    cases text with
    | nil => simp at hliteral
    | cons char rest =>
      obtain ⟨hchar, hrest⟩ := cons_prefix_cons.mp hliteral
      rw [cons_append, likeChars]
      split
      · exact any_eq_true.mpr ⟨rest, by simp [mem_tails], ih hrest⟩
      · simp [hchar, ih hrest]

variable {tables : Tables} {text lot : String}

theorem lotsOfSha_lower (tables : Tables) (text : String) :
    lotsOfSha tables (toAsciiLowercase text) = lotsOfSha tables text := by
  simp [lotsOfSha, like, toAsciiLowercase, likeChars_lower]

theorem mem_lotsOfSha_of_literal {row : ShaRow} (hrow : row ∈ tables.shas)
    (hliteral : row.Literal text) : row.lotId ∈ lotsOfSha tables text := by
  refine mem_map_of_mem (mem_filter.mpr ⟨hrow, ?_⟩)
  simp only [like, String.toList_append]
  refine likeChars_of_literal ?_
  simpa [ShaRow.Literal, startsWith, toAsciiLowercase] using hliteral

theorem NamedAlone.unique {other : String} (hlot : NamedAlone tables text lot)
    (hother : NamedAlone tables text other) : lot = other := by
  rcases hother.named with rfl | ⟨row, hrow, hliteral, rfl⟩
  · rcases hlot.named with hsame | ⟨row, hrow, hliteral, rfl⟩
    · exact hsame
    · exact hother.alone row hrow hliteral
  · exact (hlot.alone row hrow hliteral).symm

theorem Unmistakable.namedAlone (hone : Unmistakable tables text)
    (hlot : lot ∈ lotsOfSha tables text) : NamedAlone tables text lot where
  alone _ hrow hliteral := hone.one _ (mem_lotsOfSha_of_literal hrow hliteral) _ hlot
  named := (hone.literal lot hlot).imp_right fun ⟨row, hrow, hliteral⟩ =>
    ⟨row, hrow, hliteral, hone.one _ (mem_lotsOfSha_of_literal hrow hliteral) _ hlot⟩

theorem charged_of_mem (hlot : lot ∈ lotsOfSha tables text) : Charged tables text lot := by
  rw [← lotsOfSha_lower] at hlot
  obtain ⟨row, hfound, rfl⟩ := mem_map.mp hlot
  obtain ⟨hrow, hlike⟩ := mem_filter.mp hfound
  exact .incident (perm_cons_erase hrow).symm (by simp [lotsOfSha, hlike])

/-- Every charge for a text goes to a change that it names alone, if and only if it is
unmistakable. -/
theorem charged_namedAlone_iff (tables : Tables) (text : String) :
    (∀ lot, Charged tables text lot → NamedAlone tables text lot) ↔ Unmistakable tables text := by
  constructor
  · intro hall
    have hnamed : ∀ lot ∈ lotsOfSha tables text, NamedAlone tables text lot :=
      fun lot hlot => hall lot (charged_of_mem hlot)
    refine ⟨fun first hfirst second hsecond => (hnamed first hfirst).unique (hnamed second hsecond),
      fun lot hlot => (hnamed lot hlot).named.imp_right fun ⟨row, hrow, hliteral, _⟩ =>
        ⟨row, hrow, hliteral⟩⟩
  · rintro hone lot (⟨hrows, hhit⟩ | @⟨change, hhits⟩)
    · refine hone.namedAlone ?_
      rw [← lotsOfSha_lower]
      exact ((hrows.filter _).map _).mem_iff.mp (mem_of_mem_head? hhit)
    · have hlot : lot ∈ revertHits tables change text := by simp [hhits]
      have hhit := (mem_filter.mp hlot).1
      split at hhit
      · -- nothing matches, and the text is the id of a stored change
        obtain rfl := mem_singleton.mp hhit
        refine ⟨fun row hrow hliteral => ?_, .inl rfl⟩
        have hmem := mem_eraseDups.mpr (mem_lotsOfSha_of_literal hrow hliteral)
        simp_all
      · exact hone.namedAlone (mem_eraseDups.mp hhit)

/-- Two todos land a commit each; an incident names the characters that the commits share, and a
landing reverts "%". -/
def sharedStart : List EventView :=
  [{ bareEvent 1 "todo.merged" with todoId := some "T1", sha := some "abcdef1" },
    { bareEvent 2 "todo.merged" with todoId := some "T2", sha := some "abcdef2" },
    { bareEvent 3 "incident.opened" with
      sha := some "abcdef", detail := some (.object [("incident_id", .string "down")]) },
    { bareEvent 4 "todo.merged" with
      todoId := some "T2", detail := some (.object [("reverts", .string "%")]) }]

/-- The incident is charged to the first todo alone, and the second has reverted it. -/
theorem sharedStart_charged :
    ∃ tables, machine.run (foldedWithFlow sharedStart) = some tables ∧
      (tables.ledger.get? "T1").map Row.incidents = some ["down"] ∧
      (tables.ledger.get? "T2").map Row.incidents = some [] ∧
      (tables.ledger.get? "T1").map Row.revertedBy = some (some "T2") ∧
      ¬ Unmistakable tables "abcdef" :=
  ⟨(machine.run (foldedWithFlow sharedStart)).get (by decide +kernel),
    (Option.some_get _).symm, by decide +kernel, by decide +kernel, by decide +kernel,
    fun hone => absurd (hone.one "T1" (by decide +kernel) "T2" (by decide +kernel)) (by decide)⟩

end JeryuForge.Outcomes
