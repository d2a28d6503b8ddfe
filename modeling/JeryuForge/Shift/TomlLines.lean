import JeryuForge.Shift.File

/-!
# A reader of plain front matter

The front matter the server writes needs little of TOML: lines of a key, bare or between
double quotes, and a value on one line.  A reader of that much keeps to all a reader of the
whole language does.
-/

namespace JeryuForge
namespace Shift
namespace TomlLines

open KeyLines List Option Quoted Json.Compact Nat Separated

def readInteger (text : List Char) : Option (Int × List Char) :=
  if (text.head?.elim false Char.isDigit) = true then
    some ((readDigits text).1, (readDigits text).2)
  else
    none

def readMember (one : List Char → Option (Toml × List Char)) :
    List Char → Option ((String × Toml) × List Char)
  | '"' :: rest => do
      match ← unquote rest with
      | (key, ' ' :: '=' :: ' ' :: rest) =>
        let (value, rest) ← one rest
        return ((String.ofList key, value), rest)
      | _ => none
  | _ => none

def listed (close : List Char) : Style :=
  { sep := [',', ' '], close := close, trim := id }

def readValue : Nat → List Char → Option (Toml × List Char)
  | fuel + 1, char :: rest =>
    if char = '"' then
      (Quoted.unquote rest).map fun answer => (.string (String.ofList answer.1), answer.2)
    else if char = '[' then
      ((listed [']']).readAll (readValue fuel) rest).map fun answer => (.array answer.1, answer.2)
    else if char = '{' then
      if rest.head? = some '}' then some (.inlineTable [], rest.tail)
      else if rest.head? = some ' ' then
        ((listed [' ', '}']).readAll (readMember (readValue fuel)) rest.tail).map fun answer =>
          (.inlineTable answer.1, answer.2)
      else none
    else if char = 't' then
      if rest.take 3 = ['r', 'u', 'e'] then some (.boolean true, rest.drop 3) else none
    else if char = 'f' then
      if rest.take 4 = ['a', 'l', 's', 'e'] then some (.boolean false, rest.drop 4) else none
    else if char = '-' then
      (readInteger rest).map fun answer => (.integer (-answer.1), answer.2)
    else
      (readInteger (char :: rest)).map fun answer => (.integer answer.1, answer.2)
  | _, _ => none

def Stops (rest : List Char) : Prop :=
  ∀ char ∈ rest.head?, char.isDigit = false

section Values

variable {floatText : UInt64 → List Char}

theorem render_head (floatText : UInt64 → List Char) {value : Toml} (hplain : value.plain = true) :
    ∃ first rest, value.render floatText = first :: rest ∧ first ≠ ']' := by
  cases value with
  | string value => exact ⟨_, _, rfl, by decide⟩
  | integer value =>
    unfold Toml.render renderInt
    split
    · exact ⟨_, _, rfl, by decide⟩
    · obtain ⟨digit, digits, hdigits, hdigit⟩ := toDigits_eq_cons value.natAbs
      refine ⟨digit, digits, hdigits, fun hbracket => ?_⟩
      rw [hbracket] at hdigit
      exact absurd hdigit (by decide)
  | float bits => cases hplain
  | boolean value => cases value <;> exact ⟨_, _, rfl, by decide⟩
  | datetime text => cases hplain
  | array items => exact ⟨_, _, rfl, by decide⟩
  | inlineTable members => cases members <;> exact ⟨_, _, rfl, by decide⟩

variable {rest : List Char} {fuel : Nat}

theorem readInteger_toDigits (number : Nat) (hrest : Stops rest) :
    readInteger (Nat.toDigits 10 number ++ rest) = some ((number : Int), rest) := by
  obtain ⟨digit, digits, hdigits, hdigit⟩ := toDigits_eq_cons number
  have hread := readDigits_toDigits number hrest
  unfold readInteger
  rw [hread, if_pos]
  rw [hdigits]
  exact hdigit

theorem readValue_integer (value : Int) (hrest : Stops rest) :
    readValue (fuel + 1) (renderInt value ++ rest) = some (.integer value, rest) := by
  have hread := readInteger_toDigits value.natAbs hrest
  unfold renderInt
  by_cases hneg : value < 0
  · have hvalue : -(value.natAbs : Int) = value := by omega
    rw [if_pos hneg, cons_append, readValue, hread]
    simpa using hvalue
  · have hvalue : (value.natAbs : Int) = value := by omega
    obtain ⟨digit, digits, hdigits, hdigit⟩ := toDigits_eq_cons value.natAbs
    have hother : ∀ {char : Char}, char.isDigit = false → digit ≠ char := by
      intro char hchar hsame
      rw [hsame, hchar] at hdigit
      cases hdigit
    rw [if_neg hneg]
    rw [hdigits, cons_append] at hread ⊢
    rw [readValue, hread, if_neg (hother (by decide)), if_neg (hother (by decide)),
      if_neg (hother (by decide)), if_neg (hother (by decide)), if_neg (hother (by decide)),
      if_neg (hother (by decide))]
    simp [hvalue]

def ReadsBack (floatText : UInt64 → List Char) (value : Toml) : Prop :=
  ∀ (fuel : Nat) (rest : List Char), (value.render floatText).length ≤ fuel → Stops rest →
    readValue fuel (value.render floatText ++ rest) = some (value, rest)

theorem readsBack_of_succ {value : Toml} (hplain : value.plain = true)
    (hread : ∀ fuel rest, (value.render floatText).length ≤ fuel + 1 → Stops rest →
      readValue (fuel + 1) (value.render floatText ++ rest) = some (value, rest)) :
    ReadsBack floatText value := by
  intro fuel rest hfuel hrest
  obtain ⟨first, rendered, hrender, _⟩ := render_head floatText hplain
  have hpos : 0 < (value.render floatText).length := by
    rw [hrender]
    exact succ_pos _
  obtain ⟨fuel, rfl⟩ := exists_eq_add_one.mpr (lt_of_lt_of_le hpos hfuel)
  exact hread fuel rest hfuel hrest

theorem readAll_listed {α : Type} (one : List Char → Option (α × List Char))
    (write : α → List Char) (items : List α) (mark : Char) (more : List Char)
    (hmark : mark.isDigit = false) (hcomma : ',' ≠ mark)
    (hitems : ∀ item ∈ items, (∃ first rest, write item = first :: rest ∧ first ≠ mark) ∧
      ∀ rest, Stops rest → one (write item ++ rest) = some (item, rest)) (rest : List Char) :
    (listed (mark :: more)).readAll one
      (joined [',', ' '] (items.map write) ++ (mark :: more ++ rest)) = some (items, rest) := by
  have hmarks : (listed (mark :: more)).Marks Stops :=
    { long := cons_ne_nil _ _
      sep := fun _ => ⟨by rintro _ ⟨⟩; rfl, rfl, by simp [listed, dropPrefix?, hcomma]⟩
      close := fun _ => ⟨by rintro _ ⟨⟩; exact hmark, rfl⟩ }
  refine hmarks.readAll (fun item hmem => (hitems item hmem).2) fun item hmem rest => ?_
  obtain ⟨⟨first, written, hwritten, hother⟩, -⟩ := hitems item hmem
  simp [hwritten, listed, dropPrefix?, hother]

theorem readsBack_array {items : List Toml} (hplain : ∀ item ∈ items, item.plain = true)
    (hitems : ∀ item ∈ items, ReadsBack floatText item) : ReadsBack floatText (.array items) := by
  refine readsBack_of_succ (Toml.plain_array.mpr hplain) fun fuel rest hfuel _ => ?_
  rw [Toml.render_array] at hfuel ⊢
  rw [length_cons, length_append] at hfuel
  have hread := readAll_listed (readValue fuel) (Toml.render floatText) items ']' [] rfl
    (by decide) (fun item hmem => ⟨render_head floatText (hplain item hmem), fun rest hrest => ?_⟩)
    rest
  · rw [cons_append, append_assoc, readValue, if_neg (by decide), if_pos rfl]
    exact congrArg (Option.map _) hread
  · have hlength := (sublist_joined [',', ' ']
      (mem_map_of_mem hmem : item.render floatText ∈ items.map (Toml.render floatText))).length_le
    exact hitems item hmem fuel rest (by omega) hrest

theorem readMember_render {member : String × Toml} (hvalue : ReadsBack floatText member.2)
    (hfuel : (Toml.renderMember floatText member).length ≤ fuel) (hrest : Stops rest) :
    readMember (readValue fuel) (Toml.renderMember floatText member ++ rest) =
      some (member, rest) := by
  have hrender : Toml.renderMember floatText member ++ rest =
      '"' :: (Quoted.escape member.1.toList ++
        '"' :: (' ' :: '=' :: ' ' :: (member.2.render floatText ++ rest))) := by
    simp [Toml.renderMember, quote]
  simp only [Toml.renderMember, length_append, length_cons] at hfuel
  rw [hrender, readMember, unquote_escape]
  simp [hvalue fuel rest (by omega) hrest]

theorem readsBack_inlineTable {members : List (String × Toml)}
    (hplain : ∀ member ∈ members, member.2.plain = true)
    (hmembers : ∀ member ∈ members, ReadsBack floatText member.2) :
    ReadsBack floatText (.inlineTable members) := by
  refine readsBack_of_succ (Toml.plain_inlineTable.mpr hplain) fun fuel rest hfuel _ => ?_
  rcases eq_or_ne members [] with rfl | hne
  · rfl
  rw [Toml.render_inlineTable hne] at hfuel ⊢
  rw [length_cons, length_cons, length_append] at hfuel
  have hread := readAll_listed (readMember (readValue fuel)) (Toml.renderMember floatText) members
    ' ' ['}'] rfl (by decide)
    (fun member hmem => ⟨⟨_, _, rfl, by decide⟩, fun rest hrest => ?_⟩) rest
  · rw [cons_append, cons_append, append_assoc, readValue, if_neg (by decide), if_neg (by decide),
      if_pos rfl, head?_cons, if_neg (by decide), if_pos rfl]
    exact congrArg (Option.map _) hread
  · have hlength := (sublist_joined [',', ' '] (mem_map_of_mem hmem :
      Toml.renderMember floatText member ∈ members.map (Toml.renderMember floatText))).length_le
    exact readMember_render (hmembers member hmem) (by omega) hrest

theorem readsBack_of_plain {value : Toml} (hplain : value.plain = true) :
    ReadsBack floatText value := by
  induction value using Toml.induct with
  | string value =>
    refine readsBack_of_succ hplain fun fuel rest _ _ => ?_
    have hrender : (Toml.string value).render floatText ++ rest =
        '"' :: (Quoted.escape value.toList ++ '"' :: rest) := by
      simp [Toml.render, quote]
    rw [hrender, readValue, if_pos rfl, unquote_escape]
    simp
  | integer value => exact readsBack_of_succ hplain fun _ _ _ => readValue_integer value
  | float bits => cases hplain
  | boolean value => cases value <;> exact readsBack_of_succ rfl fun _ _ _ _ => rfl
  | datetime text => cases hplain
  | array items ih =>
    rw [Toml.plain_array] at hplain
    exact readsBack_array hplain fun item hmem => ih item hmem (hplain item hmem)
  | inlineTable members ih =>
    rw [Toml.plain_inlineTable] at hplain
    exact readsBack_inlineTable hplain fun member hmem => ih member hmem (hplain member hmem)

end Values

/-! ## Lines -/

def printable (char : Char) : Bool :=
  32 ≤ char.toNat && char ≠ delete

def readKey : List Char → Option (List Char × List Char)
  | '"' :: rest => Quoted.unquote rest
  | text =>
    if text.takeWhile isBare = [] then none
    else some (text.takeWhile isBare, text.dropWhile isBare)

def readLine (line : List Char) : Option (String × Toml) :=
  if line.all printable then
    match readKey line with
    | some (key, ' ' :: '=' :: ' ' :: rest) =>
      match readValue rest.length rest with
      | some (value, []) => some (String.ofList key, value)
      | _ => none
    | _ => none
  else
    none

def readLines : List (List Char) → Option (List (String × Toml))
  | [] => some []
  | line :: lines =>
    match readLine line, readLines lines with
    | some field, some fields => some (field :: fields)
    | _, _ => none

def parse (text : List Char) : Except String (List (String × Toml)) :=
  match readLines (text.splitOn '\n') with
  | some fields =>
    if (fields.map Prod.fst).Nodup ∧ ∀ field ∈ fields, field.2.valid = true then .ok fields
    else .error "duplicate key"
  | none => .error "invalid line"

variable {fields : List (String × Toml)} {text key rest : List Char} {lines : List (List Char)}
  {char : Char} {field : String × Toml}

theorem parse_ok (h : parse text = .ok fields) :
    readLines (text.splitOn '\n') = some fields ∧ (fields.map Prod.fst).Nodup ∧
      ∀ field ∈ fields, field.2.valid = true := by
  unfold parse at h
  split at h
  next found hlines =>
    split at h
    next hvalid =>
      cases h
      exact ⟨hlines, hvalid⟩
    · cases h
  · cases h

theorem flatMap_newlines (hne : lines ≠ []) :
    (lines.flatMap fun line => line ++ ['\n']) = ['\n'].intercalate lines ++ ['\n'] := by
  induction lines with
  | nil => exact absurd rfl hne
  | cons line lines ih =>
    cases lines with
    | nil => simp
    | cons next lines =>
      rw [flatMap_cons, ih (by simp), intercalate_cons_cons, append_assoc,
        append_assoc, append_assoc]

theorem flatMap_splitOn (text : List Char) :
    ((text.splitOn '\n').flatMap fun line => line ++ ['\n']) = text ++ ['\n'] := by
  rw [flatMap_newlines (splitOn_ne_nil _ _), intercalate_splitOn]

theorem splitOn_of_flatMap (hlines : ∀ line ∈ lines, '\n' ∉ line)
    (htext : text ++ ['\n'] = lines.flatMap fun line => line ++ ['\n']) :
    text.splitOn '\n' = lines := by
  have hne : lines ≠ [] := by
    intro hnil
    simp [hnil] at htext
  rw [flatMap_newlines hne] at htext
  rw [append_cancel_right htext]
  exact splitOn_intercalate _ hlines hne

/-! ### The keys of lines that were read -/

theorem ofHex_blank {first second third fourth : Char}
    (h : Quoted.ofHex first second third fourth = some char) :
    first ≠ ' ' ∧ second ≠ ' ' ∧ third ≠ ' ' ∧ fourth ≠ ' ' := by
  have hblank : Quoted.hexValue ' ' = none := by decide
  simp only [Quoted.ofHex, Option.bind_eq_bind, Option.bind_eq_some_iff] at h
  refine ⟨?_, ?_, ?_, ?_⟩ <;> intro hsame <;> simp_all

theorem unescaped_of_unquote (h : Quoted.unquote text = some (key, rest)) (hline : '\n' ∉ text) :
    ∃ inner, text = inner ++ '"' :: rest ∧ Unescaped inner key := by
  have hletters : ∀ escape ∈ shortEscapes, escape.2 ≠ ' ' := by decide
  induction text using unquote.induct generalizing key rest with
  | case1 => cases h
  | case2 more =>
    cases h
    exact ⟨[], rfl, .nil⟩
  | case3 first second third fourth more ih =>
    rw [unquote] at h
    simp only [bind_eq_bind, bind_eq_some_iff] at h
    obtain ⟨char, hchar, answer, hanswer, hresult⟩ := h
    cases hresult
    obtain ⟨hone, htwo, hthree, hfour⟩ := ofHex_blank hchar
    simp only [mem_cons, not_or] at hline
    obtain ⟨_, _, hfirst, hsecond, hthird, hfourth, hmore⟩ := hline
    obtain ⟨inner, rfl, hinner⟩ := ih hanswer hmore
    refine ⟨'\\' :: (['u', first, second, third, fourth] ++ inner), rfl, .escape ?_ hinner⟩
    intro letter hletter
    simp only [mem_cons, not_mem_nil, or_false] at hletter
    rcases hletter with rfl | rfl | rfl | rfl | rfl
    · decide
    · exact ⟨hone, Ne.symm hfirst⟩
    · exact ⟨htwo, Ne.symm hsecond⟩
    · exact ⟨hthree, Ne.symm hthird⟩
    · exact ⟨hfour, Ne.symm hfourth⟩
  | case4 letter more hu ih =>
    rw [unquote] at h
    · simp only [bind_eq_bind, bind_eq_some_iff] at h
      obtain ⟨escape, hescape, answer, hanswer, hresult⟩ := h
      cases hresult
      have hletter : escape.2 = letter := by simpa using find?_some hescape
      simp only [mem_cons, not_or] at hline
      obtain ⟨_, hnewline, hmore⟩ := hline
      obtain ⟨inner, rfl, hinner⟩ := ih hanswer hmore
      refine ⟨'\\' :: ([letter] ++ inner), rfl, .escape ?_ hinner⟩
      intro other hother
      rw [mem_singleton.mp hother]
      refine ⟨?_, Ne.symm hnewline⟩
      rw [← hletter]
      exact hletters escape (mem_of_find?_eq_some hescape)
    · exact hu
  | case5 char more hquote hu hletter ih =>
    rw [unquote] at h
    · simp only [bind_eq_bind, bind_eq_some_iff] at h
      obtain ⟨answer, hanswer, hresult⟩ := h
      cases hresult
      have hslash : char ≠ '\\' := by
        intro hsame
        cases more with
        | nil => cases hanswer
        | cons letter more => exact hletter letter more hsame rfl
      simp only [mem_cons, not_or] at hline
      obtain ⟨inner, rfl, hinner⟩ := ih hanswer hline.2
      exact ⟨char :: inner, rfl, .plain hquote hslash (Ne.symm hline.1) hinner⟩
    · exact hquote
    · exact hu
    · exact hletter

theorem spelled_of_readKey {line : List Char} (hline : '\n' ∉ line)
    (h : readKey line = some (key, rest)) :
    ∃ spelled, line = spelled ++ rest ∧ Spelled spelled key := by
  unfold readKey at h
  split at h
  next more =>
    simp only [mem_cons, not_or] at hline
    obtain ⟨inner, rfl, hinner⟩ := unescaped_of_unquote h hline.2
    exact ⟨'"' :: (inner ++ ['"']), by simp, .basic hinner⟩
  · split at h
    · cases h
    next hne =>
      cases h
      refine ⟨_, (takeWhile_append_dropWhile).symm, .bare ⟨hne, ?_⟩⟩
      exact all_eq_true.mp all_takeWhile

theorem spelled_of_readLine {line : List Char} (h : readLine line = some field) :
    ∃ spelled rest, line = spelled ++ ' ' :: rest ∧ Spelled spelled field.1.toList := by
  unfold readLine at h
  split at h
  next hprints =>
    have hline : '\n' ∉ line := fun hmem =>
      absurd (all_eq_true.mp hprints _ hmem) (by decide)
    split at h
    next key rest hkey =>
      split at h
      · cases h
        obtain ⟨spelled, hspelled, hkey⟩ := spelled_of_readKey hline hkey
        exact ⟨spelled, _, hspelled, by simpa using hkey⟩
      · cases h
    · cases h
  · cases h

theorem reads_of_readLines (h : readLines lines = some fields) :
    Reads (lines.flatMap fun line => line ++ ['\n']) (fields.map fun field => field.1.toList) := by
  induction lines generalizing fields with
  | nil =>
    cases h
    exact .nil
  | cons line lines ih =>
    rw [readLines] at h
    split at h
    next field rest hfield hrest =>
      cases h
      obtain ⟨spelled, more, hline, hspelled⟩ := spelled_of_readLine hfield
      have hreads := ih hrest
      have hstart : LineStart [] := ⟨[], [], rfl, .inl rfl, fun _ hmem => by cases hmem⟩
      have hstop : ∀ char ∈ (' ' :: more).head?, isBare char = false := by
        intro char hmem
        cases hmem
        decide
      have hall := Reads.cons hstart hspelled hstop hreads
      rw [flatMap_cons, hline]
      simpa using hall
    · cases h

/-! ### The lines that are written -/

variable {floatText : UInt64 → List Char}

def lineText (floatText : UInt64 → List Char) (field : String × Toml) : List Char :=
  field.1.toList ++ ' ' :: '=' :: ' ' :: field.2.render floatText

theorem isBare_range (h : isBare char = true) : 45 ≤ char.toNat ∧ char.toNat ≤ 122 := by
  simp only [isBare, Char.isAlphanum, Char.isAlpha, Char.isUpper, Char.isLower, Char.isDigit,
    Bool.or_eq_true, Bool.and_eq_true, decide_eq_true_eq, ge_iff_le, UInt32.le_iff_toNat_le] at h
  have hcode : char.toNat = char.val.toNat := rfl
  have hupper : 'A'.val.toNat = 65 ∧ 'Z'.val.toNat = 90 := ⟨rfl, rfl⟩
  have hlower : 'a'.val.toNat = 97 ∧ 'z'.val.toNat = 122 := ⟨rfl, rfl⟩
  have hdigit : '0'.val.toNat = 48 ∧ '9'.val.toNat = 57 := ⟨rfl, rfl⟩
  rcases h with ((h | h) | rfl) | rfl
  · rcases h with h | h <;> omega
  · omega
  · decide
  · decide

theorem isBare_printable (h : isBare char = true) :
    printable char = true ∧ char ≠ '"' ∧ char ≠ '\n' := by
  obtain ⟨hlow, hhigh⟩ := isBare_range h
  have hother : char ≠ delete ∧ char ≠ '"' ∧ char ≠ '\n' := by
    refine ⟨?_, ?_, ?_⟩ <;> (rintro rfl; revert hlow hhigh; decide)
  exact ⟨by simp [printable, hother.1, hlow.trans' (by decide : 32 ≤ 45)], hother.2⟩

theorem lineText_oneLine (hbare : Bare field.1.toList) (hplain : field.2.plain = true) :
    '\n' ∉ lineText floatText field := by
  have hvalue := (@fieldLine_written floatText field hplain).oneLine
  simp only [lineText, mem_append, mem_cons, not_or]
  exact ⟨fun hmem => (isBare_printable (hbare.2 _ hmem)).2.2 rfl, by decide, by decide, by decide,
    hvalue⟩

theorem readKey_bare (hbare : Bare key) (hrest : ∀ char ∈ rest.head?, isBare char = false) :
    readKey (key ++ rest) = some (key, rest) := by
  obtain ⟨hne, hall⟩ := hbare
  obtain ⟨htake, hdrop⟩ := span_append hall hrest
  unfold readKey
  split
  next more heq =>
    obtain ⟨first, post, rfl⟩ := exists_cons_of_ne_nil hne
    injection heq with hquote _
    exact absurd hquote (isBare_printable (hall first mem_cons_self)).2.1
  · rw [htake, hdrop, if_neg hne]

theorem readLine_lineText (hbare : Bare field.1.toList)
    (hplain : field.2.plain = true) (hdelete : delete ∉ lineText floatText field) :
    readLine (lineText floatText field) = some field := by
  have hprints : (lineText floatText field).all printable = true := by
    refine all_eq_true.mpr fun char hmem => ?_
    have hcode : 32 ≤ char.toNat := by
      simp only [lineText, mem_append, mem_cons] at hmem
      rcases hmem with hkey | rfl | rfl | rfl | hvalue
      · have hrange := isBare_range (hbare.2 char hkey)
        omega
      · decide
      · decide
      · decide
      · exact (Toml.charOf_render hplain char hvalue).1
    have hother : char ≠ delete := fun hsame => hdelete (hsame ▸ hmem)
    simp [printable, hcode, hother]
  have hkey : readKey (lineText floatText field) =
      some (field.1.toList, ' ' :: '=' :: ' ' :: field.2.render floatText) := by
    refine readKey_bare hbare fun char hmem => ?_
    cases hmem
    decide
  have hvalue : readValue (field.2.render floatText).length (field.2.render floatText) =
      some (field.2, []) := by
    have hread := readsBack_of_plain hplain (field.2.render floatText).length [] (le_refl _)
      (fun char hmem => by cases hmem)
    rwa [append_nil] at hread
  unfold readLine
  rw [if_pos hprints, hkey]
  simp [hvalue]

theorem readLines_map (h : ∀ field ∈ fields, readLine (lineText floatText field) = some field) :
    readLines (fields.map (lineText floatText)) = some fields := by
  induction fields with
  | nil => rfl
  | cons field fields ih =>
    rw [map_cons, readLines, h field mem_cons_self, ih (forall_mem_cons.mp h).2]

theorem readLines_delete (h : ∃ line ∈ lines, delete ∈ line) : readLines lines = none := by
  induction lines with
  | nil =>
    obtain ⟨line, hmem, _⟩ := h
    cases hmem
  | cons first lines ih =>
    rw [readLines]
    obtain ⟨line, hmem, hdelete⟩ := h
    rcases mem_cons.mp hmem with rfl | hmem
    · have hnone : readLine line = none := by
        unfold readLine
        rw [if_neg]
        intro hall
        have hprintable := all_eq_true.mp hall delete hdelete
        exact absurd hprintable (by decide)
      rw [hnone]
    · rw [ih ⟨line, hmem, hdelete⟩]
      cases readLine first with
      | none | some => rfl

theorem splitOn_fieldLines
    (hfields : LineFields fields) (htext : text ++ ['\n'] = fieldLines floatText fields) :
    text.splitOn '\n' = fields.map (lineText floatText) := by
  have hlines : fieldLines floatText fields =
      (fields.map (lineText floatText)).flatMap fun line => line ++ ['\n'] := by
    simp [fieldLines, linesText, fieldLine, Line.text, lineText, flatMap_map]
  refine splitOn_of_flatMap (fun line hmem => ?_) (htext.trans hlines)
  obtain ⟨field, hfield, rfl⟩ := mem_map.mp hmem
  exact lineText_oneLine (hfields.bare field hfield) (hfields.plain field hfield)

theorem delete_mem_splitOn : delete ∈ text ↔ ∃ line ∈ text.splitOn '\n', delete ∈ line := by
  have hnewline : delete ∉ ['\n'] := by decide
  have hmem : delete ∈ text ↔ delete ∈ text ++ ['\n'] := by simp [hnewline]
  rw [hmem, ← flatMap_splitOn, mem_flatMap]
  simp [hnewline]

end TomlLines

def lineToml : TomlText where
  parse := TomlLines.parse
  floatText := fun _ => ['n', 'a', 'n']
  parse_distinct := fun h => (TomlLines.parse_ok h).2.1
  parse_valid := fun h => (TomlLines.parse_ok h).2.2
  parse_reads := fun {text fields} h => by
    rw [← TomlLines.flatMap_splitOn]
    exact TomlLines.reads_of_readLines (TomlLines.parse_ok h).1
  parse_lines := fun {text fields} hfields htext hdelete => by
    have hlines := TomlLines.splitOn_fieldLines hfields htext
    rw [TomlLines.delete_mem_splitOn, hlines] at hdelete
    unfold TomlLines.parse
    rw [hlines, TomlLines.readLines_map fun field hmem => TomlLines.readLine_lineText
      (hfields.bare field hmem) (hfields.plain field hmem)
      fun hchar => hdelete ⟨_, List.mem_map_of_mem hmem, hchar⟩]
    exact if_pos ⟨hfields.distinct, hfields.valid⟩
  parse_delete := fun {text fields} _ _ hdelete => by
    unfold TomlLines.parse
    rw [TomlLines.readLines_delete (TomlLines.delete_mem_splitOn.mp hdelete)]
    exact ⟨_, rfl⟩

end Shift
end JeryuForge
