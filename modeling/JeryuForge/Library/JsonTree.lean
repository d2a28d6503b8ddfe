import JeryuForge.Library.JsonText
import JeryuForge.Library.Separated

/-!
# Nested JSON values

A compact writer of values without floats, and a reader of JSON texts with integers only that
allows blanks between tokens.  What is written reads back as the value that was written.
-/

namespace Json

open List Quoted Bool Nat Separated

namespace Value

theorem induct {P : Value → Prop} (null : P .null) (bool : ∀ value, P (.bool value))
    (int : ∀ value, P (.int value)) (float : ∀ value, P (.float value))
    (string : ∀ text, P (.string text))
    (array : ∀ items, (∀ item ∈ items, P item) → P (.array items))
    (object : ∀ fields, (∀ field ∈ fields, P field.2) → P (.object fields)) (value : Value) :
    P value :=
  @Value.rec P (fun items => ∀ item ∈ items, P item)
    (fun fields => ∀ field ∈ fields, P field.2) (fun field => P field.2)
    null bool int float string array object
    nofun (fun _ _ hitem hitems => forall_mem_cons.mpr ⟨hitem, hitems⟩)
    nofun (fun _ _ hfield hfields => forall_mem_cons.mpr ⟨hfield, hfields⟩)
    (fun _ _ hvalue => hvalue) value

mutual

def floatFree : Value → Bool
  | .float _ => false
  | .array items => floatFreeItems items
  | .object fields => floatFreeFields fields
  | _ => true

def floatFreeItems : List Value → Bool
  | [] => true
  | item :: items => item.floatFree && floatFreeItems items

def floatFreeFields : Fields → Bool
  | [] => true
  | (_, value) :: fields => value.floatFree && floatFreeFields fields

end

theorem floatFree_array {items : List Value} :
    (Value.array items).floatFree = true ↔ ∀ item ∈ items, item.floatFree = true := by
  rw [floatFree]
  induction items with
  | nil => simp [floatFreeItems]
  | cons item items ih => simp [floatFreeItems, ih]

theorem floatFree_object {fields : Fields} :
    (Value.object fields).floatFree = true ↔ ∀ field ∈ fields, field.2.floatFree = true := by
  rw [floatFree]
  induction fields with
  | nil => simp [floatFreeFields]
  | cons field fields ih => simp [floatFreeFields, ih]

def inOrder {α : Type} (fields : List (String × α)) : List (String × α) :=
  fields.insertionSort fun first second => first.1 ≤ second.1

mutual

def sorted : Value → Value
  | .array items => .array (sortedItems items)
  | .object fields => .object (inOrder (sortedFields fields))
  | value => value

def sortedItems : List Value → List Value
  | [] => []
  | item :: items => item.sorted :: sortedItems items

def sortedFields : Fields → Fields
  | [] => []
  | (key, value) :: fields => (key, value.sorted) :: sortedFields fields

end

theorem sorted_array (items : List Value) :
    (Value.array items).sorted = .array (items.map sorted) := by
  rw [sorted]
  congr 1
  induction items with
  | nil => rfl
  | cons item items ih => rw [sortedItems, ih, map_cons]

theorem sorted_object (fields : Fields) :
    (Value.object fields).sorted =
      .object (inOrder (fields.map fun field => (field.1, field.2.sorted))) := by
  rw [sorted]
  congr 2
  induction fields with
  | nil => rfl
  | cons field fields ih => rw [sortedFields, ih, map_cons]

theorem inOrder_perm {α : Type} (fields : List (String × α)) : (inOrder fields).Perm fields :=
  perm_insertionSort _ fields

theorem inOrder_map {α β : Type} (change : α → β) (fields : List (String × α)) :
    inOrder (fields.map fun field => (field.1, change field.2)) =
      (inOrder fields).map fun field => (field.1, change field.2) :=
  (map_insertionSort (fun first second : String × α => first.1 ≤ second.1)
    (fun first second : String × β => first.1 ≤ second.1)
    (fun field => (field.1, change field.2)) fields fun _ _ _ _ => Iff.rfl).symm

theorem floatFree_sorted (value : Value) : value.sorted.floatFree = value.floatFree := by
  induction value using Value.induct with
  | array items ih =>
    rw [Bool.eq_iff_iff, sorted_array, floatFree_array, floatFree_array, forall_mem_map]
    exact forall₂_congr fun item hmem => by rw [ih item hmem]
  | object fields ih =>
    rw [Bool.eq_iff_iff, sorted_object, floatFree_object, floatFree_object]
    simp only [(inOrder_perm _).mem_iff, forall_mem_map]
    exact forall₂_congr fun field hmem => by rw [ih field hmem]
  | null | bool | int | float | string => rfl

end Value

namespace Tree

def arrayText (items : List (List Char)) : List Char :=
  '[' :: (joined [','] items ++ [']'])

def fieldText (field : String × List Char) : List Char :=
  quote field.1.toList ++ ':' :: field.2

def objectText (fields : List (String × List Char)) : List Char :=
  '{' :: (joined [','] (fields.map fieldText) ++ ['}'])

mutual

def text : Value → List Char
  | .null => "null".toList
  | .bool value => if value then "true".toList else "false".toList
  | .int value => Compact.renderInt value
  | .float _ => []
  | .string text => quote text
  | .array items => arrayText (textItems items)
  | .object fields => objectText (textFields fields)

def textItems : List Value → List (List Char)
  | [] => []
  | item :: items => text item :: textItems items

def textFields : Fields → List (String × List Char)
  | [] => []
  | (key, value) :: fields => (key, text value) :: textFields fields

end

theorem textItems_eq (items : List Value) : textItems items = items.map text := by
  induction items with
  | nil => rfl
  | cons item items ih => rw [textItems, ih, map_cons]

theorem textFields_eq (fields : Fields) :
    textFields fields = fields.map fun field => (field.1, text field.2) := by
  induction fields with
  | nil => rfl
  | cons field fields ih => rw [textFields, ih, map_cons]

def isBlank (char : Char) : Bool :=
  char = ' ' || char = '\t' || char = '\n' || char = '\r'

def skip (text : List Char) : List Char :=
  text.dropWhile isBlank

def inNumber (char : Char) : Bool :=
  char.isDigit || char = '.' || char = 'e' || char = 'E'

def readNat (text : List Char) : Option (Nat × List Char) :=
  let digits := text.takeWhile Char.isDigit
  let rest := text.dropWhile Char.isDigit
  if digits = [] ∨ (digits.head? = some '0' ∧ digits ≠ ['0']) ∨ rest.head?.any inNumber then none
  else some (Nat.ofDigitChars 10 digits 0, rest)

def readWord (text : List Char) : Option (Value × List Char) :=
  if text.take 4 = "null".toList then some (.null, text.drop 4)
  else if text.take 4 = "true".toList then some (.bool true, text.drop 4)
  else if text.take 5 = "false".toList then some (.bool false, text.drop 5)
  else if text.head? = some '-' then
    (readNat text.tail).map fun answer => (.int (-answer.1), answer.2)
  else (readNat text).map fun answer => (.int answer.1, answer.2)

def readField (one : List Char → Option (Value × List Char)) :
    List Char → Option ((String × Value) × List Char)
  | '"' :: rest => do
      let (key, rest) ← unquote rest
      match skip rest with
      | ':' :: rest =>
        let (value, rest) ← one rest
        return ((String.ofList key, value), rest)
      | _ => none
  | _ => none

def listed (close : Char) : Separated.Style :=
  { sep := [','], close := [close], trim := skip }

def readValue : Nat → List Char → Option (Value × List Char)
  | 0, _ => none
  | fuel + 1, text =>
    match skip text with
    | [] => none
    | char :: rest =>
      if char = '"' then
        (Quoted.unquote rest).map fun answer => (.string answer.1, answer.2)
      else if char = '[' then
        ((listed ']').readAll (readValue fuel) rest).map fun answer => (.array answer.1, answer.2)
      else if char = '{' then
        ((listed '}').readAll (readField (readValue fuel)) rest).map fun answer =>
          (.object answer.1, answer.2)
      else readWord (char :: rest)

def read (text : List Char) : Option Value :=
  match readValue text.length text with
  | some (value, rest) => if skip rest = [] then some value else none
  | none => none

variable {rest : List Char}

theorem skip_cons {char : Char} (hblank : isBlank char = false) :
    skip (char :: rest) = char :: rest :=
  dropWhile_cons_of_neg (by simp [hblank])

def Ends (rest : List Char) : Prop :=
  rest.head?.any inNumber = false

theorem digitChar_ne_zero : ∀ number < 10, 0 < number → Nat.digitChar number ≠ '0' := by
  decide

theorem head_toDigits {number : Nat} (hpos : 0 < number) :
    (Nat.toDigits 10 number).head? ≠ some '0' := by
  induction number using Nat.strongRecOn with
  | ind number ih =>
    by_cases hsmall : number < 10
    · rw [Nat.toDigits_of_lt_base hsmall]
      simpa using digitChar_ne_zero number hsmall hpos
    · have hnext := ih (number / 10) (by omega) (by omega)
      rw [Nat.toDigits_of_base_le (by decide) (by omega), head?_append]
      cases hhead : (Nat.toDigits 10 (number / 10)).head? with
      | none => exact absurd (head?_eq_none_iff.mp hhead) Nat.toDigits_ne_nil
      | some digit =>
        rw [hhead] at hnext
        exact hnext

theorem readNat_toDigits (number : Nat) (hrest : Ends rest) :
    readNat (Nat.toDigits 10 number ++ rest) = some (number, rest) := by
  have hdigit : ∀ char ∈ rest.head?, char.isDigit = false := by
    intro char hchar
    have hnumber : inNumber char = false := by
      rw [Ends, hchar] at hrest
      exact hrest
    simp only [inNumber, or_eq_false_iff] at hnumber
    exact hnumber.1.1.1
  obtain ⟨htake, hdrop⟩ :=
    span_append (fun _ hmem => @Compact.isDigit_of_mem number _ hmem) hdigit
  have hzero : ¬((Nat.toDigits 10 number).head? = some '0' ∧ Nat.toDigits 10 number ≠ ['0']) := by
    rintro ⟨hhead, hne⟩
    rcases Nat.eq_zero_or_pos number with rfl | hpos
    · exact hne rfl
    · exact head_toDigits hpos hhead
  unfold readNat
  simp only [htake, hdrop]
  rw [if_neg (not_or.mpr ⟨Nat.toDigits_ne_nil, not_or.mpr ⟨hzero, eq_false_iff.mp hrest⟩⟩),
    Nat.ofDigitChars_ten_toDigits]

theorem readWord_int (value : Int) (hrest : Ends rest) :
    readWord (Compact.renderInt value ++ rest) = some (.int value, rest) := by
  have hread := readNat_toDigits value.natAbs hrest
  obtain ⟨digit, digits, hdigits, hdigit⟩ := Compact.toDigits_eq_cons value.natAbs
  have hletters : digit ≠ 'n' ∧ digit ≠ 't' ∧ digit ≠ 'f' ∧ digit ≠ '-' := by
    refine ⟨?_, ?_, ?_, ?_⟩ <;> (rintro rfl; cases hdigit)
  unfold Compact.renderInt readWord
  by_cases hneg : value < 0
  · have hvalue : -(value.natAbs : Int) = value := by omega
    simpa [hneg, hread] using hvalue
  · have hvalue : (value.natAbs : Int) = value := by omega
    rw [if_neg hneg]
    rw [hdigits, cons_append] at hread ⊢
    simp [hletters, hread, hvalue]

/-- The text begins with neither a blank nor the mark. -/
def Starts (close : Char) (text : List Char) : Prop :=
  ∃ first rest, text = first :: rest ∧ isBlank first = false ∧ first ≠ close

def ReadsBack (value : Value) : Prop :=
  ∀ (fuel : Nat) (rest : List Char), (text value).length ≤ fuel → Ends rest →
    readValue fuel (text value ++ rest) = some (value, rest)

theorem starts_text {value : Value} (hfree : value.floatFree = true) :
    Starts ']' (text value) := by
  cases value with
  | null => exact ⟨_, _, rfl, by decide, by decide⟩
  | bool value => cases value <;> exact ⟨_, _, rfl, by decide, by decide⟩
  | int value =>
    unfold text Compact.renderInt
    split
    · exact ⟨_, _, rfl, by decide, by decide⟩
    · obtain ⟨digit, digits, hdigits, hdigit⟩ := Compact.toDigits_eq_cons value.natAbs
      refine ⟨digit, digits, hdigits, ?_, fun hbracket => ?_⟩
      · rw [eq_false_iff]
        intro hblank
        simp only [isBlank, or_eq_true, decide_eq_true_eq] at hblank
        rcases hblank with ((rfl | rfl) | rfl) | rfl <;> cases hdigit
      · rw [hbracket] at hdigit
        cases hdigit
  | float value => cases hfree
  | string | array | object => exact ⟨_, _, rfl, by decide, by decide⟩

theorem readsBack_of_succ {value : Value} (hfree : value.floatFree = true)
    (hread : ∀ fuel rest, (text value).length ≤ fuel + 1 → Ends rest →
      readValue (fuel + 1) (text value ++ rest) = some (value, rest)) : ReadsBack value := by
  intro fuel rest hfuel hrest
  obtain ⟨first, written, hwritten, _⟩ := starts_text hfree
  have hpos : 0 < (text value).length := by
    rw [hwritten]
    exact succ_pos _
  obtain ⟨fuel, rfl⟩ := exists_eq_add_one.mpr (lt_of_lt_of_le hpos hfuel)
  exact hread fuel rest hfuel hrest

theorem readAll_listed {α : Type} (one : List Char → Option (α × List Char))
    (write : α → List Char) (items : List α) (close : Char) (hclose : Ends [close])
    (hblank : isBlank close = false) (hcomma : ',' ≠ close)
    (hitems : ∀ item ∈ items, Starts close (write item) ∧
      ∀ rest, Ends rest → one (write item ++ rest) = some (item, rest)) (rest : List Char) :
    (listed close).readAll one (joined [','] (items.map write) ++ close :: rest) =
      some (items, rest) := by
  have hskip : ∀ item ∈ items, ∀ rest, skip (write item ++ rest) = write item ++ rest ∧
      (write item ++ rest).dropPrefix? [close] = none := by
    intro item hmem rest
    obtain ⟨⟨first, written, hwritten, hblank, hother⟩, -⟩ := hitems item hmem
    rw [hwritten]
    exact ⟨skip_cons hblank, by simp [dropPrefix?, hother]⟩
  have hmarks : (listed close).Marks Ends :=
    { long := cons_ne_nil _ _
      sep := fun _ => ⟨rfl, rfl, by simp [listed, dropPrefix?, hcomma]⟩
      close := fun _ => ⟨hclose, skip_cons hblank⟩ }
  refine hmarks.readAll (fun item hmem rest hrest => ?_) fun item hmem rest => ?_
  · exact (congrArg one (hskip item hmem rest).1).trans ((hitems item hmem).2 rest hrest)
  · exact (congrArg (dropPrefix? · _) (hskip item hmem rest).1).trans (hskip item hmem rest).2

theorem readsBack_array {items : List Value} (hfree : ∀ item ∈ items, item.floatFree = true)
    (hitems : ∀ item ∈ items, ReadsBack item) : ReadsBack (.array items) := by
  refine readsBack_of_succ (Value.floatFree_array.mpr hfree) fun fuel rest hfuel _ => ?_
  have htext : text (.array items) = '[' :: (joined [','] (items.map text) ++ [']']) := by
    rw [text, textItems_eq, arrayText]
  rw [htext] at hfuel ⊢
  rw [length_cons, length_append] at hfuel
  have hread := readAll_listed (readValue fuel) text items ']' rfl rfl (by decide) ?_ rest
  · rw [cons_append, append_assoc, readValue, skip_cons rfl]
    simp [hread]
  · intro item hmem
    refine ⟨starts_text (hfree item hmem), fun rest hrest => hitems item hmem fuel rest ?_ hrest⟩
    have hlength :=
      (sublist_joined [','] (mem_map_of_mem hmem : text item ∈ items.map text)).length_le
    omega

theorem readField_text {field : String × Value} (hvalue : ReadsBack field.2) {fuel : Nat}
    (hfuel : (fieldText (field.1, text field.2)).length ≤ fuel) (hrest : Ends rest) :
    readField (readValue fuel) (fieldText (field.1, text field.2) ++ rest) =
      some (field, rest) := by
  have htext : fieldText (field.1, text field.2) ++ rest =
      '"' :: (Quoted.escape field.1.toList ++ '"' :: (':' :: (text field.2 ++ rest))) := by
    simp [fieldText, quote]
  simp only [fieldText, length_append, length_cons] at hfuel
  have hcolon : skip (':' :: (text field.2 ++ rest)) = ':' :: (text field.2 ++ rest) :=
    skip_cons (by decide)
  rw [htext, readField, unquote_escape]
  simp [hcolon, hvalue fuel rest (by omega) hrest]

theorem readsBack_object {fields : Fields} (hfree : ∀ field ∈ fields, field.2.floatFree = true)
    (hfields : ∀ field ∈ fields, ReadsBack field.2) : ReadsBack (.object fields) := by
  refine readsBack_of_succ (Value.floatFree_object.mpr hfree) fun fuel rest hfuel _ => ?_
  have htext : text (.object fields) = '{' :: (joined [',']
      (fields.map fun field => fieldText (field.1, text field.2)) ++ ['}']) := by
    rw [text, textFields_eq, objectText, map_map]
    rfl
  rw [htext] at hfuel ⊢
  rw [length_cons, length_append] at hfuel
  have hread := readAll_listed (readField (readValue fuel))
    (fun field => fieldText (field.1, text field.2)) fields '}' rfl rfl (by decide) ?_ rest
  · rw [cons_append, append_assoc, readValue, skip_cons rfl]
    simp [hread]
  · intro field hmem
    have hlength := (sublist_joined [','] (mem_map_of_mem hmem : fieldText (field.1, text field.2) ∈
      fields.map fun field => fieldText (field.1, text field.2))).length_le
    exact ⟨⟨_, _, rfl, by decide, by decide⟩,
      fun rest hrest => readField_text (hfields field hmem) (by omega) hrest⟩

theorem readsBack_int (value : Int) : ReadsBack (.int value) := by
  refine readsBack_of_succ rfl fun fuel rest _ hrest => ?_
  have hword := readWord_int value hrest
  obtain ⟨first, written, hwritten, hblank, _⟩ := @starts_text (.int value) rfl
  have htext : Compact.renderInt value = first :: written := hwritten
  have hfirst : first = '-' ∨ first.isDigit = true := by
    unfold Compact.renderInt at htext
    split at htext
    · exact .inl (cons.inj htext).1.symm
    · exact .inr (Compact.isDigit_of_mem (htext ▸ mem_cons_self))
  have hother : first ≠ '"' ∧ first ≠ '[' ∧ first ≠ '{' := by
    refine ⟨?_, ?_, ?_⟩ <;> (rintro rfl; exact absurd hfirst (by decide))
  rw [htext, cons_append] at hword
  rw [hwritten, cons_append, readValue, skip_cons hblank]
  simp only [if_neg hother.1, if_neg hother.2.1, if_neg hother.2.2]
  exact hword

theorem readsBack_of_floatFree {value : Value} (hfree : value.floatFree = true) :
    ReadsBack value := by
  induction value using Value.induct with
  | null => exact readsBack_of_succ rfl fun _ _ _ _ => rfl
  | bool value => cases value <;> exact readsBack_of_succ rfl fun _ _ _ _ => rfl
  | int value => exact readsBack_int value
  | float value => cases hfree
  | string content =>
    refine readsBack_of_succ rfl fun fuel rest _ _ => ?_
    have htext : text (.string content) ++ rest =
        '"' :: (Quoted.escape content ++ '"' :: rest) := by
      simp [text, quote]
    rw [htext, readValue, skip_cons (by decide)]
    simp [unquote_escape]
  | array items ih =>
    rw [Value.floatFree_array] at hfree
    exact readsBack_array hfree fun item hmem => ih item hmem (hfree item hmem)
  | object fields ih =>
    rw [Value.floatFree_object] at hfree
    exact readsBack_object hfree fun field hmem => ih field hmem (hfree field hmem)

theorem read_text {value : Value} (hfree : value.floatFree = true) :
    read (text value) = some value := by
  have hread := readsBack_of_floatFree hfree (text value).length [] le_rfl rfl
  rw [append_nil] at hread
  unfold read
  rw [hread]
  rfl

end Tree

/-- The keys of an object that is written are in order. -/
def compact : Text where
  render fields :=
    (String.ofList (Tree.text (.object (Value.inOrder fields)))).toByteArray.data.toList
  parse bytes := (ByteArray.mk bytes.toArray).utf8Decode?.bind fun text => Tree.read text.toList
  parse_render fields hflat := by
    have hperm := Value.inOrder_perm fields
    generalize Value.inOrder fields = sorted at hperm ⊢
    refine ⟨.object sorted, ?_, get?_of_perm hperm hflat.nodup⟩
    have hbytes : ByteArray.mk
        (String.ofList (Tree.text (.object sorted))).toByteArray.data.toList.toArray =
          (Tree.text (.object sorted)).utf8Encode := by
      simp
    rw [hbytes, utf8Decode?_utf8Encode]
    refine Tree.read_text (Value.floatFree_object.mpr fun field hfield => ?_)
    have hscalar := hflat.scalar field (hperm.mem_iff.mp hfield)
    cases hvalue : field.2 with
    | string | int => rfl
    | null | bool | float | array | object => exact (hvalue ▸ hscalar).elim

end Json
