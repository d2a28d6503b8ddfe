import Mathlib

/-!
# Ordered maps

A finite map kept as a list of entries with strictly increasing keys, the order in
which an ordered map is iterated.  A lookup is membership of the entry, which is how
the operations below are read.
-/

universe u v

structure OrdMap (κ : Type u) (ν : Type v) [LinearOrder κ] where
  entries : List (κ × ν)
  sorted : entries.Pairwise fun first second => first.1 < second.1

namespace OrdMap

open List Option

variable {κ : Type u} {ν : Type v} [LinearOrder κ]

instance : EmptyCollection (OrdMap κ ν) :=
  ⟨⟨[], List.Pairwise.nil⟩⟩

def get? (map : OrdMap κ ν) (key : κ) : Option ν :=
  (map.entries.find? fun entry => decide (entry.1 = key)).map Prod.snd

def size (map : OrdMap κ ν) : Nat :=
  map.entries.length

def retain (map : OrdMap κ ν) (keep : κ → ν → Bool) : OrdMap κ ν where
  entries := map.entries.filter fun entry => keep entry.1 entry.2
  sorted := map.sorted.filter _

def mapValues (map : OrdMap κ ν) (change : κ → ν → ν) : OrdMap κ ν where
  entries := map.entries.map fun entry => (entry.1, change entry.1 entry.2)
  sorted := pairwise_map.mpr map.sorted

def erase (map : OrdMap κ ν) (key : κ) : OrdMap κ ν :=
  map.retain fun other _ => decide (other ≠ key)

def insert (map : OrdMap κ ν) (key : κ) (value : ν) : OrdMap κ ν where
  entries :=
    (map.entries.filter fun entry => decide (entry.1 < key)) ++
      (key, value) :: map.entries.filter fun entry => decide (key < entry.1)
  sorted := by
    rw [pairwise_append]
    refine ⟨map.sorted.filter _, ?_, ?_⟩
    · rw [pairwise_cons]
      refine ⟨?_, map.sorted.filter _⟩
      intro entry hentry
      simpa using (mem_filter.mp hentry).2
    · intro first hfirst second hsecond
      have hbelow : first.1 < key := by
        simpa using (mem_filter.mp hfirst).2
      rcases mem_cons.mp hsecond with rfl | habove
      · exact hbelow
      · have hlarger : key < second.1 := by
          simpa using (mem_filter.mp habove).2
        exact hbelow.trans hlarger

theorem nodup_keys (map : OrdMap κ ν) : (map.entries.map Prod.fst).Nodup :=
  pairwise_map.mpr (map.sorted.imp fun hlt => ne_of_lt hlt)

/-- What is found under a key, in any list of entries whose keys are distinct. -/
theorem find?_key_eq_some_iff {κ ν : Type*} [DecidableEq κ] {entries : List (κ × ν)}
    (hnodup : (entries.map Prod.fst).Nodup) {key : κ} {value : ν} :
    (entries.find? fun entry => entry.1 = key).map Prod.snd = some value ↔
      (key, value) ∈ entries := by
  rw [map_eq_some_iff]
  constructor
  · rintro ⟨entry, hfind, rfl⟩
    have hkey : entry.1 = key := by simpa using find?_some hfind
    rw [← hkey]
    exact mem_of_find?_eq_some hfind
  · intro hmem
    cases hfind : entries.find? fun entry => entry.1 = key with
    | none => exact absurd (find?_eq_none.mp hfind (key, value) hmem) (by simp)
    | some entry =>
      have hkey : entry.1 = key := by simpa using find?_some hfind
      have hsame := inj_on_of_nodup_map hnodup (mem_of_find?_eq_some hfind) hmem hkey
      exact ⟨entry, rfl, congrArg Prod.snd hsame⟩

theorem get?_eq_some_iff (map : OrdMap κ ν) (key : κ) (value : ν) :
    map.get? key = some value ↔ (key, value) ∈ map.entries :=
  find?_key_eq_some_iff map.nodup_keys

@[simp]
theorem get?_empty (key : κ) : (∅ : OrdMap κ ν).get? key = none :=
  rfl

theorem get?_retain (map : OrdMap κ ν) (keep : κ → ν → Bool) (key : κ) :
    (map.retain keep).get? key = (map.get? key).filter (keep key) := by
  apply ext
  intro value
  rw [get?_eq_some_iff, filter_eq_some_iff, get?_eq_some_iff]
  simp [retain]

@[simp]
theorem get?_erase_self (map : OrdMap κ ν) (key : κ) : (map.erase key).get? key = none := by
  simp [erase, get?_retain]

variable {key other : κ}

theorem get?_erase_of_ne (map : OrdMap κ ν) (hne : other ≠ key) :
    (map.erase key).get? other = map.get? other := by
  rw [erase, get?_retain]
  cases map.get? other with
  | none => rfl
  | some value => simp [hne]

@[simp]
theorem get?_insert_self (map : OrdMap κ ν) (key : κ) (value : ν) :
    (map.insert key value).get? key = some value := by
  rw [get?_eq_some_iff]
  simp [insert]

theorem get?_insert_of_ne (map : OrdMap κ ν) (value : ν) (hne : other ≠ key) :
    (map.insert key value).get? other = map.get? other := by
  apply ext
  intro found
  rw [get?_eq_some_iff, get?_eq_some_iff]
  rcases lt_or_gt_of_ne hne with hlt | hgt
  · simp [insert, hlt, hne, not_lt_of_gt hlt]
  · simp [insert, hgt, hne, not_lt_of_gt hgt]

theorem get?_insert_eq_some {map : OrdMap κ ν} {value found : ν}
    (hget : (map.insert key value).get? other = some found) :
    (other = key ∧ value = found) ∨ (other ≠ key ∧ map.get? other = some found) := by
  by_cases hsame : other = key
  · subst hsame
    rw [get?_insert_self, some.injEq] at hget
    exact .inl ⟨rfl, hget⟩
  · rw [get?_insert_of_ne map value hsame] at hget
    exact .inr ⟨hsame, hget⟩

theorem get?_erase_eq_some {map : OrdMap κ ν} {found : ν}
    (hget : (map.erase key).get? other = some found) :
    other ≠ key ∧ map.get? other = some found := by
  by_cases hsame : other = key
  · subst hsame
    simp at hget
  · rw [get?_erase_of_ne map hsame] at hget
    exact ⟨hsame, hget⟩

@[simp]
theorem get?_mapValues (map : OrdMap κ ν) (change : κ → ν → ν) (key : κ) :
    (map.mapValues change).get? key = (map.get? key).map (change key) := by
  apply ext
  intro value
  rw [get?_eq_some_iff, map_eq_some_iff]
  constructor
  · intro hmem
    obtain ⟨entry, hentry, hsame⟩ := mem_map.mp hmem
    obtain ⟨hkey, hvalue⟩ := Prod.mk.inj hsame
    exact ⟨entry.2, (map.get?_eq_some_iff key _).mpr (hkey ▸ hentry), hkey ▸ hvalue⟩
  · rintro ⟨old, hget, rfl⟩
    exact mem_map.mpr ⟨(key, old), (map.get?_eq_some_iff key old).mp hget, rfl⟩

section Fold

variable {α : Type*} {items : List α} (place : α → κ) (value : α → ν) {map : OrdMap κ ν}

theorem get?_foldl_insert_of_ne {key : κ} (hne : ∀ item ∈ items, place item ≠ key) :
    (items.foldl (fun map item => map.insert (place item) (value item)) map).get? key =
      map.get? key := by
  induction items generalizing map with
  | nil => rfl
  | cons item rest ih =>
    rw [foldl_cons, ih (forall_mem_cons.mp hne).2]
    exact get?_insert_of_ne map _ (hne item (by simp)).symm

theorem get?_foldl_insert_of_mem {item : α} (hitem : item ∈ items)
    (hsame : ∀ other ∈ items, place other = place item → value other = value item) :
    (items.foldl (fun map item => map.insert (place item) (value item)) map).get?
      (place item) = some (value item) := by
  -- from the end: the last insert at the key is the one that is read
  induction items using reverseRecOn with
  | nil => cases hitem
  | append_singleton rest last ih =>
    rw [foldl_append]
    simp only [foldl_cons, foldl_nil]
    by_cases hlast : place last = place item
    · rw [hlast, get?_insert_self, hsame last (by simp) hlast]
    · rw [get?_insert_of_ne _ _ (Ne.symm hlast)]
      have hrest : item ∈ rest := by
        rcases mem_append.mp hitem with hrest | hsingle
        · exact hrest
        · exact absurd (congrArg place (mem_singleton.mp hsingle).symm) hlast
      exact ih hrest fun other hother => hsame other (mem_append_left _ hother)

end Fold

theorem size_retain_le (map : OrdMap κ ν) (keep : κ → ν → Bool) :
    (map.retain keep).size ≤ map.size :=
  length_filter_le _ _

theorem size_erase_of_get?_eq_some {map : OrdMap κ ν} {value : ν}
    (hget : map.get? key = some value) : (map.erase key).size + 1 = map.size := by
  have hmem : key ∈ map.entries.map Prod.fst :=
    mem_map_of_mem ((map.get?_eq_some_iff key value).mp hget)
  have hone : map.entries.countP (fun entry => decide (entry.1 = key)) = 1 := by
    rw [← count_eq_one_of_mem map.nodup_keys hmem, count, countP_map]
    exact countP_congr fun entry _ => by simp
  have hsplit := length_eq_countP_add_countP
    (fun entry => decide (entry.1 = key)) (l := map.entries)
  rw [hone] at hsplit
  rw [size, size, hsplit, erase, retain, ← countP_eq_length_filter, Nat.add_comm]
  simp

theorem size_insert (map : OrdMap κ ν) (key : κ) (value : ν) :
    (map.insert key value).size = (map.erase key).size + 1 := by
  have hparts : ∀ entries : List (κ × ν),
      (entries.filter fun entry => decide (entry.1 < key)).length +
          (entries.filter fun entry => decide (key < entry.1)).length =
        (entries.filter fun entry => decide (entry.1 ≠ key)).length := by
    intro entries
    induction entries with
    | nil => rfl
    | cons entry rest ih =>
      rcases lt_trichotomy entry.1 key with hlt | heq | hgt
      · simp [hlt, not_lt_of_gt hlt, hlt.ne] at ih ⊢
        omega
      · simp [heq] at ih ⊢
        omega
      · simp [hgt, not_lt_of_gt hgt, hgt.ne'] at ih ⊢
        omega
  have := hparts map.entries
  simp only [size, insert, erase, retain, length_append, length_cons]
  omega

end OrdMap
