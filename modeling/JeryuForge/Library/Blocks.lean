import Mathlib

/-!
# Texts made of blocks

A text is the concatenation of blocks.  If every block starts with a marked line and has
no other, the blocks can be read back from the text.  `mapLast` maps the lines of a text
and treats the last one differently.
-/

-- As in `Base64Url`.
attribute [instance (high)] List.decidableBAll List.decidableBEx

universe u v w

namespace List

variable {α : Type u} {β : Type v} {γ : Type w}

def StartsMarked (mark : β → Bool) (items : List β) : Prop :=
  ∀ first ∈ items.head?, mark first = true

variable {mark : β → Bool} {rest : List β} {f : Bool → α → β} {last : Bool} {items : List α}

section Span

variable {p : β → Bool} {front other others : List β}

theorem span_append (hfront : ∀ item ∈ front, p item = true)
    (hrest : ∀ item ∈ rest.head?, p item = false) :
    (front ++ rest).takeWhile p = front ∧ (front ++ rest).dropWhile p = rest := by
  rw [takeWhile_append_of_pos hfront, dropWhile_append_of_pos hfront]
  cases rest with
  | nil => simp
  | cons item rest => simp [hrest item rfl]

theorem append_inj_of_span (hfront : ∀ item ∈ front, p item = true)
    (hother : ∀ item ∈ other, p item = true) (hrest : ∀ item ∈ rest.head?, p item = false)
    (hothers : ∀ item ∈ others.head?, p item = false) (hsame : front ++ rest = other ++ others) :
    front = other ∧ rest = others := by
  have hfirst := (span_append hfront hrest).1
  rw [hsame, (span_append hother hothers).1] at hfirst
  subst hfirst
  exact ⟨rfl, append_cancel_left hsame⟩

theorem append_inj_of_startsMarked (hfront : ∀ item ∈ front, mark item = false)
    (hother : ∀ item ∈ other, mark item = false) (hrest : rest.StartsMarked mark)
    (hothers : others.StartsMarked mark) (hsame : front ++ rest = other ++ others) :
    front = other ∧ rest = others :=
  append_inj_of_span (p := fun item => !mark item) (by simpa using hfront) (by simpa using hother)
    (by simpa [StartsMarked] using hrest) (by simpa [StartsMarked] using hothers) hsame

/-- An item of one of two equal texts stands in the first part of the other or behind it. -/
theorem append_eq_append_cons {item : β} {more : List β}
    (hsame : front ++ rest = other ++ item :: more) :
    (∃ past, front = other ++ item :: past ∧ more = past ++ rest) ∨
      ∃ past, other = front ++ past ∧ rest = past ++ item :: more := by
  rcases append_eq_append_iff.mp hsame with hbehind | ⟨past, hfront, hmore⟩
  · exact .inr hbehind
  · cases past with
    | nil => exact .inr ⟨[], by simpa using hfront.symm, hmore.symm⟩
    | cons first past =>
      obtain ⟨rfl, hrest⟩ := cons.inj hmore
      exact .inl ⟨past, hfront, hrest⟩

/-- An item stands in one of two equal texts behind all of the other's that is without it. -/
theorem exists_append_of_not_mem {item next : β} {more : List β} (hother : item ∉ other)
    (hsame : front ++ item :: rest = other ++ next :: more) :
    ∃ past, front = other ++ past ∧ past ++ item :: rest = next :: more := by
  rcases append_eq_append_cons hsame.symm with ⟨past, rfl, _⟩ | ⟨past, hover, hrest⟩
  · simp at hother
  · exact ⟨past, hover, hrest.symm⟩

end Span

structure IsBlock (mark : β → Bool) (block : List β) : Prop where
  nonempty : block ≠ []
  head : block.StartsMarked mark
  tail : ∀ line ∈ block.tail, mark line = false

theorem startsMarked_flatMap {text : α → List β} (hblock : ∀ item, (text item).IsBlock mark)
    (items : List α) : (items.flatMap text).StartsMarked mark := by
  cases items with
  | nil => simp [StartsMarked]
  | cons item rest =>
    have hhead := (hblock item).head
    obtain ⟨line, others, htext⟩ := exists_cons_of_ne_nil (hblock item).nonempty
    simpa [StartsMarked, htext] using hhead

theorem flatMap_injective_of_isBlock {text : α → List β}
    (hblock : ∀ item, (text item).IsBlock mark) (htext : Function.Injective text) :
    Function.Injective fun items : List α => items.flatMap text := by
  intro items
  induction items with
  | nil =>
    intro others hsame
    cases others with
    | nil => rfl
    | cons other rest =>
      have hnil : text other ++ rest.flatMap text = [] := by
        simpa using hsame.symm
      exact absurd (append_eq_nil_iff.mp hnil).1 (hblock other).nonempty
  | cons item rest ih =>
    intro others hsame
    cases others with
    | nil =>
      have hnil : text item ++ rest.flatMap text = [] := by
        simpa using hsame
      exact absurd (append_eq_nil_iff.mp hnil).1 (hblock item).nonempty
    | cons other others =>
      obtain ⟨first, lines, hitem⟩ := exists_cons_of_ne_nil (hblock item).nonempty
      obtain ⟨second, otherLines, hother⟩ :=
        exists_cons_of_ne_nil (hblock other).nonempty
      have hlines := (hblock item).tail
      have hotherLines := (hblock other).tail
      simp only [flatMap_cons, hitem, hother, cons_append, cons.injEq] at hsame
      rw [hitem, tail_cons] at hlines
      rw [hother, tail_cons] at hotherLines
      obtain ⟨hlineSame, hrest⟩ := append_inj_of_startsMarked hlines hotherLines
        (startsMarked_flatMap hblock rest) (startsMarked_flatMap hblock others) hsame.2
      have hblockSame : text item = text other := by
        rw [hitem, hother, hsame.1, hlineSame]
      rw [htext hblockSame, ih hrest]

theorem keyword_append_inj {keyword : α → List β}
    (hfree : ∀ first second, keyword first <+: keyword second → first = second) {first second : α}
    {others : List β} (hsame : keyword first ++ rest = keyword second ++ others) :
    first = second ∧ rest = others := by
  have hkind : first = second := by
    have hfirst : keyword first <+: keyword second ++ others := ⟨rest, hsame⟩
    have hsecond : keyword second <+: keyword second ++ others := prefix_append _ _
    rcases prefix_or_prefix_of_prefix hfirst hsecond with hle | hle
    · exact hfree first second hle
    · exact (hfree second first hle).symm
  subst hkind
  exact ⟨rfl, append_cancel_left hsame⟩

theorem intercalate_inj [DecidableEq β] {separator : β} {texts others : List (List β)}
    (htexts : ∀ text ∈ texts, separator ∉ text ∧ text ≠ [])
    (hothers : ∀ text ∈ others, separator ∉ text ∧ text ≠ [])
    (hsame : [separator].intercalate texts = [separator].intercalate others) : texts = others := by
  have hread : ∀ items : List (List β), (∀ text ∈ items, separator ∉ text ∧ text ≠ []) →
      items = ([separator].intercalate items).splitOn separator ∨
        items = [] ∧ ([separator].intercalate items).splitOn separator = [[]] := by
    intro items hitems
    by_cases hnil : items = []
    · subst hnil
      exact .inr ⟨rfl, rfl⟩
    · exact .inl (splitOn_intercalate separator (fun text hmem => (hitems text hmem).1) hnil).symm
  have hnot : ∀ items : List (List β), (∀ text ∈ items, separator ∉ text ∧ text ≠ []) →
      items ≠ [[]] := by
    rintro items hitems rfl
    exact (hitems [] (by simp)).2 rfl
  rcases hread texts htexts with hfirst | ⟨hfirst, hempty⟩ <;>
    rcases hread others hothers with hsecond | ⟨hsecond, hother⟩
  · rw [hfirst, hsame, ← hsecond]
  · exact absurd (by rw [hfirst, hsame, hother]) (hnot texts htexts)
  · exact absurd (by rw [hsecond, ← hsame, hempty]) (hnot others hothers)
  · rw [hfirst, hsecond]

def mapLast (f : Bool → α → β) (last : Bool) : List α → List β
  | [] => []
  | [item] => [f last item]
  | item :: next :: rest => f false item :: mapLast f last (next :: rest)

@[simp]
theorem mapLast_nil (f : Bool → α → β) (last : Bool) : ([] : List α).mapLast f last = [] :=
  rfl

@[simp]
theorem mapLast_singleton (f : Bool → α → β) (last : Bool) (item : α) :
    [item].mapLast f last = [f last item] :=
  rfl

theorem mapLast_cons_cons (f : Bool → α → β) (last : Bool) (item next : α) (rest : List α) :
    (item :: next :: rest).mapLast f last = f false item :: (next :: rest).mapLast f last :=
  rfl

theorem mapLast_cons_of_ne_nil {item : α} {rest : List α} (hrest : rest ≠ []) :
    (item :: rest).mapLast f last = f false item :: rest.mapLast f last := by
  cases rest with
  | nil => exact absurd rfl hrest
  | cons next rest => rfl

theorem mapLast_append_of_ne_nil {rest : List α} (hrest : rest ≠ []) :
    (items ++ rest).mapLast f last = items.mapLast f false ++ rest.mapLast f last := by
  induction items with
  | nil => rfl
  | cons item items ih =>
    rw [cons_append, mapLast_cons_of_ne_nil (by simp [hrest]), ih]
    cases items with
    | nil | cons => rfl

theorem mapLast_false (f : Bool → α → β) (items : List α) :
    items.mapLast f false = items.map (f false) := by
  induction items with
  | nil => rfl
  | cons item rest ih =>
    cases rest with
    | nil => rfl
    | cons next rest =>
      rw [mapLast_cons_cons, ih]
      rfl

theorem mapLast_concat (f : Bool → α → β) (last : Bool) (items : List α) (item : α) :
    (items ++ [item]).mapLast f last = items.map (f false) ++ [f last item] := by
  rw [mapLast_append_of_ne_nil (by simp), mapLast_false, mapLast_singleton]

theorem mapLast_const (f : α → β) (last : Bool) (items : List α) :
    items.mapLast (fun _ => f) last = items.map f := by
  rcases items.eq_nil_or_concat' with rfl | ⟨init, item, rfl⟩
  · rfl
  · simp [mapLast_concat]

theorem map_mapLast (g : β → γ) (f : Bool → α → β) (last : Bool) (items : List α) :
    (items.mapLast f last).map g = items.mapLast (fun last item => g (f last item)) last := by
  rcases items.eq_nil_or_concat' with rfl | ⟨init, item, rfl⟩
  · rfl
  · simp [mapLast_concat]

theorem mapLast_map (f : Bool → β → γ) (g : α → β) (last : Bool) (items : List α) :
    (items.map g).mapLast f last = items.mapLast (fun last item => f last (g item)) last := by
  rcases items.eq_nil_or_concat' with rfl | ⟨init, item, rfl⟩
  · rfl
  · simp [mapLast_concat]

theorem mapLast_eq_nil_iff : items.mapLast f last = [] ↔ items = [] := by
  rcases items.eq_nil_or_concat' with rfl | ⟨init, item, rfl⟩
  · simp
  · simp [mapLast_concat]

theorem mapLast_mapLast {δ : Type u} (g : Bool → β → γ) (f : Bool → δ → β) (last : Bool)
    (items : List δ) :
    (items.mapLast f last).mapLast g last =
      items.mapLast (fun last item => g last (f last item)) last := by
  rcases items.eq_nil_or_concat' with rfl | ⟨init, item, rfl⟩
  · rfl
  · simp [mapLast_concat]

theorem mapLast_congr {g : Bool → α → β} (hsame : ∀ last, ∀ item ∈ items, f last item = g last item)
    (last : Bool) : items.mapLast f last = items.mapLast g last := by
  rcases items.eq_nil_or_concat' with rfl | ⟨init, item, rfl⟩
  · rfl
  · rw [mapLast_concat, mapLast_concat, hsame last item (by simp), map_congr_left fun other hmem =>
      hsame false other (mem_append_left _ hmem)]

theorem exists_of_mem_mapLast {image : β} (hmem : image ∈ items.mapLast f last) :
    ∃ flag item, f flag item = image := by
  rcases items.eq_nil_or_concat' with rfl | ⟨init, item, rfl⟩
  · cases hmem
  · rw [mapLast_concat, mem_append, mem_map, mem_singleton] at hmem
    rcases hmem with ⟨other, -, rfl⟩ | rfl
    · exact ⟨false, other, rfl⟩
    · exact ⟨last, item, rfl⟩

theorem map_eq_of_mapLast_eq {δ : Type*} {seen : Bool → α → β} {unseen : α → γ} {whole : α → δ}
    (hwhole : ∀ last first second, seen last first = seen last second →
      unseen first = unseen second → whole first = whole second) {others : List α}
    (hseen : items.mapLast seen last = others.mapLast seen last)
    (hunseen : items.map unseen = others.map unseen) : items.map whole = others.map whole := by
  induction items generalizing others with
  | nil =>
    cases others with
    | nil => rfl
    | cons other others => cases hunseen
  | cons item rest ih =>
    cases others with
    | nil => cases hunseen
    | cons other others =>
      rw [map_cons, map_cons, cons.injEq] at hunseen
      cases rest with
      | nil =>
        have hothers : others = [] := by simpa using hunseen.2.symm
        subst hothers
        rw [mapLast_singleton, mapLast_singleton, cons.injEq] at hseen
        simp [hwhole last item other hseen.1 hunseen.1]
      | cons next rest =>
        have hothers : others ≠ [] := by
          rintro rfl
          cases hunseen.2
        rw [mapLast_cons_cons, mapLast_cons_of_ne_nil hothers, cons.injEq] at hseen
        have hhead := hwhole false item other hseen.1 hunseen.1
        exact congrArg₂ cons hhead (ih hseen.2 hunseen.2)

theorem filterMap_mapLast_flatMap {view : Bool → β → Option γ} {lines : α → List β}
    (hlines : ∀ item ∈ items, lines item ≠ []) (last : Bool) :
    ((items.flatMap lines).mapLast view last).filterMap id =
      (items.mapLast (fun last item => ((lines item).mapLast view last).filterMap id)
        last).flatten := by
  induction items with
  | nil => rfl
  | cons item rest ih =>
    cases rest with
    | nil => simp
    | cons next rest =>
      have hnext : lines next ≠ [] := hlines next (by simp)
      have hrest : (next :: rest).flatMap lines ≠ [] := by
        simp [hnext]
      have htail := ih fun other hother => hlines other (mem_cons_of_mem _ hother)
      rw [flatMap_cons, mapLast_append_of_ne_nil hrest, filterMap_append, htail,
        mapLast_cons_cons, flatten_cons]

theorem filterMap_mapLast_flatMap_seen {δ : Type u} {view : Bool → β → Option γ}
    {lines : δ → List β} {seen : Bool → δ → α} {text : α → List γ} {items : List δ}
    (hlines : ∀ item ∈ items, lines item ≠ [])
    (hseen : ∀ last, ∀ item ∈ items,
      ((lines item).mapLast view last).filterMap id = text (seen last item)) (last : Bool) :
    ((items.flatMap lines).mapLast view last).filterMap id =
      (items.mapLast seen last).flatMap text := by
  rw [filterMap_mapLast_flatMap hlines, mapLast_congr hseen, ← map_mapLast, flatMap]

end List
