import Mathlib.Data.List.Basic

/-!
# Lists with a separator

Texts one after the other with a separator between them, and a reader of such a list up to the
mark that closes it.  If each item reads back, so does the list.
-/

namespace Separated

open List

variable {α : Type}

def joined (sep : List Char) : List (List Char) → List Char
  | [] => []
  | first :: rest => first ++ rest.flatMap fun text => sep ++ text

/-- `trim` drops the blanks that the reader allows before an item or a mark. -/
structure Style where
  sep : List Char
  close : List Char
  trim : List Char → List Char

namespace Style

variable (style : Style) (one : List Char → Option (α × List Char))

/-- What follows an item. -/
def readMore : Nat → List Char → Option (List α × List Char)
  | 0, _ => none
  | fuel + 1, text =>
    match (style.trim text).dropPrefix? style.close with
    | some rest => some ([], rest)
    | none => do
      let (item, rest) ← one (style.trim (← (style.trim text).dropPrefix? style.sep))
      let (items, rest) ← readMore fuel rest
      return (item :: items, rest)

def readAll (text : List Char) : Option (List α × List Char) :=
  match (style.trim text).dropPrefix? style.close with
  | some rest => some ([], rest)
  | none => do
    let (item, rest) ← one (style.trim text)
    let (items, rest) ← style.readMore one (rest.length + 1) rest
    return (item :: items, rest)

/-- A mark is read as the one it is, and the reader of an item stops before it. -/
structure Marks (Stop : List Char → Prop) : Prop where
  long : style.sep ≠ []
  sep : ∀ rest, Stop (style.sep ++ rest) ∧ style.trim (style.sep ++ rest) = style.sep ++ rest ∧
    (style.sep ++ rest).dropPrefix? style.close = none
  close : ∀ rest, Stop (style.close ++ rest) ∧
    style.trim (style.close ++ rest) = style.close ++ rest

end Style

theorem sublist_joined (sep : List Char) {text : List Char} {texts : List (List Char)}
    (hmem : text ∈ texts) : text.Sublist (joined sep texts) := by
  cases texts with
  | nil => cases hmem
  | cons first rest =>
    rcases mem_cons.mp hmem with rfl | hmem
    · exact sublist_append_left ..
    · have hpart : (sep ++ text).Sublist (rest.flatMap fun text => sep ++ text) :=
        sublist_flatten_of_mem (mem_map_of_mem hmem)
      exact ((sublist_append_right ..).trans hpart).trans (sublist_append_right ..)

theorem forall_mem_joined {sep : List Char} {texts : List (List Char)} {P : Char → Prop}
    (hsep : ∀ char ∈ sep, P char) (htexts : ∀ text ∈ texts, ∀ char ∈ text, P char) :
    ∀ char ∈ joined sep texts, P char := by
  cases texts with
  | nil => exact nofun
  | cons first rest =>
    obtain ⟨hfirst, hrest⟩ := forall_mem_cons.mp htexts
    simp only [joined, forall_mem_append, forall_mem_flatMap]
    exact ⟨hfirst, fun text hmem => ⟨hsep, hrest text hmem⟩⟩

variable {style : Style} {Stop : List Char → Prop} {one : List Char → Option (α × List Char)}
  {write : α → List Char} {items : List α} {rest : List Char}

section Marks

variable (hmarks : style.Marks Stop) (hitems : ∀ item ∈ items, ∀ rest, Stop rest →
  one (style.trim (write item ++ rest)) = some (item, rest))

include hmarks

theorem Style.Marks.stop (items : List α) :
    Stop (items.flatMap (fun item => style.sep ++ write item) ++ (style.close ++ rest)) := by
  cases items with
  | nil => exact (hmarks.close rest).1
  | cons item items =>
    rw [flatMap_cons, append_assoc, append_assoc]
    exact (hmarks.sep _).1

theorem Style.Marks.length_le (items : List α) :
    items.length ≤ (items.flatMap fun item => style.sep ++ write item).length := by
  have hsep := length_pos_iff.mpr hmarks.long
  induction items with
  | nil => exact Nat.le_refl 0
  | cons item items ih =>
    rw [flatMap_cons, length_append, length_append, length_cons]
    omega

include hitems

theorem Style.Marks.readMore {fuel : Nat} (hfuel : items.length < fuel) :
    style.readMore one fuel
      (items.flatMap (fun item => style.sep ++ write item) ++ (style.close ++ rest)) =
        some (items, rest) := by
  induction items generalizing fuel with
  | nil =>
    obtain ⟨fuel, rfl⟩ := Nat.exists_eq_add_one.mpr hfuel
    simp [Style.readMore, (hmarks.close rest).2, dropPrefix?_append_of_beq]
  | cons item items ih =>
    obtain ⟨fuel, rfl⟩ := Nat.exists_eq_add_one.mpr (Nat.zero_lt_of_lt hfuel)
    have hmore := ih (forall_mem_cons.mp hitems).2 (Nat.lt_of_succ_lt_succ hfuel)
    have hitem := hitems item mem_cons_self _ (@stop _ _ _ write rest hmarks items)
    obtain ⟨-, htrim, hother⟩ := hmarks.sep (write item ++ (items.flatMap (fun item =>
      style.sep ++ write item) ++ (style.close ++ rest)))
    rw [flatMap_cons, append_assoc, append_assoc, Style.readMore, htrim, hother,
      dropPrefix?_append_of_beq _ BEq.rfl]
    simp only [Option.bind_eq_bind, Option.bind_some, hitem, hmore, Option.pure_def]

/-- No item begins as the closing mark does. -/
theorem Style.Marks.readAll (hopen : ∀ item ∈ items, ∀ rest,
      (style.trim (write item ++ rest)).dropPrefix? style.close = none) :
    style.readAll one (joined style.sep (items.map write) ++ (style.close ++ rest)) =
      some (items, rest) := by
  unfold Style.readAll
  cases items with
  | nil => simp [joined, (hmarks.close rest).2, dropPrefix?_append_of_beq]
  | cons item items =>
    obtain ⟨hitem, hitems⟩ := forall_mem_cons.mp hitems
    have hmore := @Marks.readMore _ _ _ _ write items rest hmarks hitems
    rw [map_cons, joined, flatMap_map, append_assoc, (forall_mem_cons.mp hopen).1,
      hitem _ (hmarks.stop items)]
    simp only [Option.bind_eq_bind, Option.bind_some]
    rw [hmore]
    · rfl
    · have hlength := @length_le _ _ _ write hmarks items
      rw [length_append]
      omega

end Marks

end Separated
