import JeryuForge.Library.JsonText
import JeryuForge.Library.KeyLines
import JeryuForge.Library.Separated
import JeryuForge.Shift.Actions

/-!
# The file of a todo

Front matter between two fences and a body.  `parse` reads a file, `dump` writes one: the
known fields in a fixed order, then the keys the server does not know, as they stand.
-/

namespace JeryuForge.Shift

open KeyLines List Quoted Json.Compact Separated

namespace Toml

/-! ## Values all through -/

theorem induct {motive : Toml → Prop} (string : ∀ value, motive (.string value))
    (integer : ∀ value, motive (.integer value)) (float : ∀ bits, motive (.float bits))
    (boolean : ∀ value, motive (.boolean value)) (datetime : ∀ text, motive (.datetime text))
    (array : ∀ items, (∀ item ∈ items, motive item) → motive (.array items))
    (inlineTable : ∀ members, (∀ member ∈ members, motive member.2) → motive (.inlineTable members))
    (value : Toml) : motive value :=
  @Toml.rec motive (fun items => ∀ item ∈ items, motive item)
    (fun members => ∀ member ∈ members, motive member.2) (fun member => motive member.2)
    string integer float boolean datetime array inlineTable
    nofun (fun _ _ hitem hitems => forall_mem_cons.mpr ⟨hitem, hitems⟩)
    nofun (fun _ _ hmember hmembers => forall_mem_cons.mpr ⟨hmember, hmembers⟩)
    (fun _ _ hvalue => hvalue) value

mutual

def plain : Toml → Bool
  | .float _ => false
  | .datetime _ => false
  | .array items => plainItems items
  | .inlineTable members => plainMembers members
  | _ => true

def plainItems : List Toml → Bool
  | [] => true
  | item :: items => item.plain && plainItems items

def plainMembers : List (String × Toml) → Bool
  | [] => true
  | (_, value) :: members => value.plain && plainMembers members

end

mutual

def texts : Toml → List String
  | .string value => [value]
  | .array items => textsOfItems items
  | .inlineTable members => textsOfMembers members
  | _ => []

def textsOfItems : List Toml → List String
  | [] => []
  | item :: items => item.texts ++ textsOfItems items

def textsOfMembers : List (String × Toml) → List String
  | [] => []
  | (key, value) :: members => key :: value.texts ++ textsOfMembers members

end

mutual

/-- What a value that was read is: its integers are `i64`, its tables have no key twice. -/
def valid : Toml → Bool
  | .integer value => -2 ^ 63 ≤ value && value < 2 ^ 63
  | .array items => validItems items
  | .inlineTable members => decide (members.map Prod.fst).Nodup && validMembers members
  | _ => true

def validItems : List Toml → Bool
  | [] => true
  | item :: items => item.valid && validItems items

def validMembers : List (String × Toml) → Bool
  | [] => true
  | (_, value) :: members => value.valid && validMembers members

end

variable {items : List Toml} {members : List (String × Toml)}

theorem plain_array : (Toml.array items).plain = true ↔ ∀ item ∈ items, item.plain = true := by
  rw [plain]
  induction items with
  | nil => simp [plainItems]
  | cons item items ih => simp [plainItems, ih]

theorem plain_inlineTable :
    (Toml.inlineTable members).plain = true ↔ ∀ member ∈ members, member.2.plain = true := by
  rw [plain]
  induction members with
  | nil => simp [plainMembers]
  | cons member members ih => simp [plainMembers, ih]

theorem texts_array (items : List Toml) : (Toml.array items).texts = items.flatMap texts := by
  rw [texts]
  induction items with
  | nil => rfl
  | cons item items ih => rw [textsOfItems, ih, flatMap_cons]

theorem texts_inlineTable (members : List (String × Toml)) :
    (Toml.inlineTable members).texts =
      members.flatMap fun member => member.1 :: member.2.texts := by
  rw [texts]
  induction members with
  | nil => rfl
  | cons member members ih => rw [textsOfMembers, ih, flatMap_cons]

theorem valid_array : (Toml.array items).valid = true ↔ ∀ item ∈ items, item.valid = true := by
  rw [valid]
  induction items with
  | nil => simp [validItems]
  | cons item items ih => simp [validItems, ih]

theorem valid_inlineTable :
    (Toml.inlineTable members).valid = true ↔
      (members.map Prod.fst).Nodup ∧ ∀ member ∈ members, member.2.valid = true := by
  have hmembers : validMembers members = true ↔ ∀ member ∈ members, member.2.valid = true := by
    induction members with
    | nil => simp [validMembers]
    | cons member members ih => simp [validMembers, ih]
  rw [valid, Bool.and_eq_true, decide_eq_true_iff, hmembers]

mutual

/-- `render`; `floatText` is `render_float`. -/
def render (floatText : UInt64 → List Char) : Toml → List Char
  | .string value => quote value.toList
  | .integer value => renderInt value
  | .float bits => floatText bits
  | .boolean value => if value then "true".toList else "false".toList
  | .datetime text => text.toList
  | .array items => '[' :: (joined [',', ' '] (renderItems floatText items) ++ [']'])
  | .inlineTable [] => "{}".toList
  | .inlineTable members =>
    '{' :: ' ' :: (joined [',', ' '] (renderMembers floatText members) ++ [' ', '}'])

def renderItems (floatText : UInt64 → List Char) : List Toml → List (List Char)
  | [] => []
  | item :: items => render floatText item :: renderItems floatText items

def renderMembers (floatText : UInt64 → List Char) : List (String × Toml) → List (List Char)
  | [] => []
  | (key, value) :: members =>
    (quote key.toList ++ ' ' :: '=' :: ' ' :: render floatText value) ::
      renderMembers floatText members

end

/-! ### The characters of a written value -/

/-- A character of a written value is not a control character, and one that is not plain
ASCII comes from a string or a key of it. -/
def CharOf (texts : List String) (char : Char) : Prop :=
  32 ≤ char.toNat ∧ (char.toNat < 127 ∨ ∃ text ∈ texts, char ∈ text.toList)

variable {char : Char}

theorem CharOf.mono {texts more : List String} (hsub : ∀ text ∈ texts, text ∈ more)
    (h : CharOf texts char) : CharOf more char := by
  obtain ⟨hprints, hascii | ⟨text, hmem, hchar⟩⟩ := h
  · exact ⟨hprints, .inl hascii⟩
  · exact ⟨hprints, .inr ⟨text, hsub text hmem, hchar⟩⟩

theorem charOf_quote {text : String} (hchar : char ∈ quote text.toList) : CharOf [text] char := by
  obtain ⟨hprints, hascii | hmem⟩ := mem_quote hchar
  · exact ⟨hprints, .inl hascii⟩
  · exact ⟨hprints, .inr ⟨text, mem_cons_self, hmem⟩⟩

theorem charOf_digit {texts : List String} (hdigit : char.isDigit = true) : CharOf texts char := by
  simp only [Char.isDigit, Bool.and_eq_true, decide_eq_true_eq, UInt32.le_iff_toNat_le] at hdigit
  have hzero : '0'.val.toNat = 48 := rfl
  have hnine : '9'.val.toNat = 57 := rfl
  have hcode : char.toNat = char.val.toNat := rfl
  refine ⟨?_, .inl ?_⟩ <;> omega

theorem charOf_renderInt {value : Int} (hchar : char ∈ renderInt value) : CharOf [] char := by
  have hdigit : ∀ digit ∈ Nat.toDigits 10 value.natAbs, CharOf [] digit := fun digit hmem =>
    charOf_digit (Nat.isDigit_of_mem_toDigits (by decide) (by decide) hmem)
  unfold renderInt at hchar
  split at hchar
  · rcases mem_cons.mp hchar with rfl | hmem
    · exact ⟨by decide, .inl (by decide)⟩
    · exact hdigit char hmem
  · exact hdigit char hchar

section Written

variable {floatText : UInt64 → List Char}

theorem renderItems_eq (items : List Toml) :
    renderItems floatText items = items.map (render floatText) := by
  induction items with
  | nil => rfl
  | cons item items ih => rw [renderItems, ih, map_cons]

def renderMember (floatText : UInt64 → List Char) (member : String × Toml) : List Char :=
  quote member.1.toList ++ ' ' :: '=' :: ' ' :: render floatText member.2

theorem renderMembers_eq (members : List (String × Toml)) :
    renderMembers floatText members = members.map (renderMember floatText) := by
  induction members with
  | nil => rfl
  | cons member members ih =>
    rw [renderMembers, ih, map_cons]
    rfl

theorem render_array (items : List Toml) :
    render floatText (.array items) =
      '[' :: (joined [',', ' '] (items.map (render floatText)) ++ [']']) := by
  rw [render, renderItems_eq]

theorem render_inlineTable (hne : members ≠ []) :
    render floatText (.inlineTable members) =
      '{' :: ' ' :: (joined [',', ' '] (members.map (renderMember floatText)) ++ [' ', '}']) := by
  rw [render, renderMembers_eq]
  exact hne

variable {value : Toml}

theorem charOf_render (hplain : value.plain = true) :
    ∀ char ∈ render floatText value, CharOf value.texts char := by
  have hmark : ∀ {texts : List String} {char : Char}, 32 ≤ char.toNat ∧ char.toNat < 127 →
      CharOf texts char := fun hcode => ⟨hcode.1, .inl hcode.2⟩
  have hsep : ∀ {texts : List String}, ∀ char ∈ [',', ' '], CharOf texts char := fun char hmem =>
    hmark ((by decide : ∀ char ∈ [',', ' '], 32 ≤ char.toNat ∧ char.toNat < 127) char hmem)
  induction value using Toml.induct with
  | string value => exact fun char hchar => charOf_quote hchar
  | integer value => exact fun char hchar => charOf_renderInt hchar
  | float bits => cases hplain
  | boolean value =>
    refine fun char hchar => hmark ?_
    revert char
    cases value <;> simp [render]
  | datetime text => cases hplain
  | array items ih =>
    rw [plain_array] at hplain
    rw [render_array]
    simp only [forall_mem_cons, forall_mem_append]
    refine ⟨hmark (by decide), forall_mem_joined hsep ?_, hmark (by decide), nofun⟩
    refine forall_mem_map.mpr fun item hmem char hchar => ?_
    refine (ih item hmem (hplain item hmem) char hchar).mono fun text htext => ?_
    rw [texts_array]
    exact mem_flatMap.mpr ⟨item, hmem, htext⟩
  | inlineTable members ih =>
    rw [plain_inlineTable] at hplain
    have hmember : ∀ member ∈ members, ∀ char ∈ renderMember floatText member,
        CharOf (Toml.inlineTable members).texts char := by
      intro member hmem
      have htexts : ∀ text ∈ member.1 :: member.2.texts,
          text ∈ (Toml.inlineTable members).texts := by
        intro text htext
        rw [texts_inlineTable]
        exact mem_flatMap.mpr ⟨member, hmem, htext⟩
      rw [forall_mem_cons] at htexts
      simp only [renderMember, forall_mem_append, forall_mem_cons]
      refine ⟨fun char hkey => (charOf_quote hkey).mono (forall_mem_singleton.mpr htexts.1),
        hmark (by decide), hmark (by decide), hmark (by decide), fun char hvalue => ?_⟩
      exact (ih member hmem (hplain member hmem) char hvalue).mono htexts.2
    cases members with
    | nil => simpa [render] using ⟨hmark (by decide), hmark (by decide)⟩
    | cons member members =>
      rw [render_inlineTable (cons_ne_nil _ _)]
      simp only [forall_mem_cons, forall_mem_append]
      exact ⟨hmark (by decide), hmark (by decide),
        forall_mem_joined hsep (forall_mem_map.mpr hmember), hmark (by decide),
        hmark (by decide), nofun⟩

theorem mem_render_of_text {text : String} (htext : text ∈ value.texts) {char : Char}
    (hchar : char ∈ text.toList) (hcode : 127 ≤ char.toNat) : char ∈ render floatText value := by
  induction value using Toml.induct with
  | string value =>
    rw [texts, mem_singleton] at htext
    rw [render, ← htext]
    exact mem_quote_of_mem hchar hcode
  | integer | float | boolean | datetime => cases htext
  | array items ih =>
    rw [texts_array] at htext
    obtain ⟨item, hmem, htext⟩ := mem_flatMap.mp htext
    rw [render_array]
    exact mem_cons_of_mem _ (mem_append_left _
      ((sublist_joined _ (mem_map_of_mem hmem)).subset (ih item hmem htext)))
  | inlineTable members ih =>
    rw [texts_inlineTable] at htext
    obtain ⟨member, hmem, htext⟩ := mem_flatMap.mp htext
    have hmember : char ∈ renderMember floatText member := by
      simp only [renderMember, mem_append, mem_cons]
      rcases mem_cons.mp htext with rfl | htext
      · exact .inl (mem_quote_of_mem hchar hcode)
      · exact .inr (.inr (.inr (.inr (ih member hmem htext))))
    rw [render_inlineTable (ne_nil_of_mem hmem)]
    exact mem_cons_of_mem _ (mem_cons_of_mem _ (mem_append_left _
      ((sublist_joined _ (mem_map_of_mem hmem)).subset hmember)))

theorem quotesFirst_render (hplain : value.plain = true) :
    QuotesFirst (render floatText value) := by
  have hseparated : ∀ {written : List Char}, QuotesFirst written →
      QuotesFirst (',' :: ' ' :: written) := fun hwritten =>
    .inr ⟨by decide, .inr ⟨by decide, hwritten⟩⟩
  induction value using Toml.induct with
  | string value => exact .inl rfl
  | integer value =>
    refine quotesFirst_of_no_slash fun hslash => ?_
    unfold render renderInt at hslash
    have hdigits : '\\' ∉ Nat.toDigits 10 value.natAbs := fun hmem =>
      absurd (Nat.isDigit_of_mem_toDigits (by decide) (by decide) hmem) (by decide)
    split at hslash
    · rcases mem_cons.mp hslash with hminus | hmem
      · exact absurd hminus (by decide)
      · exact hdigits hmem
    · exact hdigits hslash
  | float bits => cases hplain
  | boolean value => cases value <;> exact quotesFirst_of_no_slash (by simp [render])
  | datetime text => cases hplain
  | array items ih =>
    rw [plain_array] at hplain
    cases items with
    | nil => exact quotesFirst_of_no_slash (by simp [render, renderItems, joined])
    | cons item items =>
      rw [render_array, map_cons, joined, flatMap_map]
      have hfirst := ih item mem_cons_self (hplain item mem_cons_self)
      have hmore : QuotesFirst (items.flatMap fun item => ',' :: ' ' :: render floatText item) :=
        QuotesFirst.flatMap fun other hmem => hseparated
          (ih other (mem_cons_of_mem _ hmem) (hplain other (mem_cons_of_mem _ hmem)))
      exact .inr ⟨by decide, (hfirst.append hmore).append (quotesFirst_of_no_slash (by decide))⟩
  | inlineTable members _ =>
    cases members with
    | nil => exact quotesFirst_of_no_slash (by simp [render])
    | cons member members =>
      exact .inr ⟨by decide, .inr ⟨by decide, .inl rfl⟩⟩

end Written

end Toml

/-- `U+007F`, the one control character that JSON does not escape. -/
def delete : Char := Char.ofNat 127

def fieldLine (floatText : UInt64 → List Char) (field : String × Toml) : Line :=
  { key := field.1.toList
    value := field.2.render floatText }

def fieldLines (floatText : UInt64 → List Char) (fields : List (String × Toml)) : List Char :=
  linesText (fields.map (fieldLine floatText))

theorem fieldLine_written {floatText : UInt64 → List Char} {field : String × Toml}
    (hplain : field.2.plain = true) : (fieldLine floatText field).Written where
  oneLine := fun hmem => by
    have hprints := (Toml.charOf_render hplain _ hmem).1
    revert hprints
    decide
  quotesFirst := Toml.quotesFirst_render hplain

/-- Fields that can be written line by line: bare keys, none twice, and values that hold no
float and no date and time. -/
structure LineFields (fields : List (String × Toml)) : Prop where
  bare : ∀ field ∈ fields, Bare field.1.toList
  distinct : (fields.map Prod.fst).Nodup
  plain : ∀ field ∈ fields, field.2.plain = true
  valid : ∀ field ∈ fields, field.2.valid = true

/-- The reader of `toml_edit` and what TOML 1.0 says of it: a document has no key twice, its
keys are spelled at the start of a line, lines of bare keys give these keys and their values,
and a line with `U+007F` in one of its values is refused.  `parse` gives the items of the
document as values, in their order; `floatText` is how a float is written. -/
structure TomlText where
  parse : List Char → Except String (List (String × Toml))
  floatText : UInt64 → List Char
  parse_distinct : ∀ {text fields}, parse text = .ok fields → (fields.map Prod.fst).Nodup
  parse_valid : ∀ {text fields}, parse text = .ok fields → ∀ field ∈ fields, field.2.valid = true
  parse_reads : ∀ {text fields}, parse text = .ok fields →
    Reads (text ++ ['\n']) (fields.map fun field => field.1.toList)
  parse_lines : ∀ {text fields}, LineFields fields → text ++ ['\n'] = fieldLines floatText fields →
    delete ∉ text → parse text = .ok fields
  parse_delete : ∀ {text fields}, LineFields fields → text ++ ['\n'] = fieldLines floatText fields →
    delete ∈ text → ∃ message, parse text = .error message

def order : List String :=
  ["id", "family", "title", "repos", "mode", "priority", "blocked_by", "status", "attempts",
    "requested_by", "filed_at", "claim_by", "lease_until", "shift", "change_set", "commits",
    "merged", "note", "park_until", "assignee", "triaged", "worked_by", "reworks"]

/-- `find("\n+++")`: what stands before the first such fence and behind it. -/
def untilFence : List Char → Option (List Char × List Char)
  | [] => none
  | '\n' :: '+' :: '+' :: '+' :: rest => some ([], rest)
  | char :: rest => (untilFence rest).map fun parts => (char :: parts.1, parts.2)

/-- The body begins one byte behind the closing fence.  `get` gives nothing where that is
past the end of the text or within a character. -/
def behindFence : List Char → List Char
  | [] => []
  | char :: rest => if char.utf8Size = 1 then rest else []

def frontMatter (text : List Char) : Except String (List Char × List Char) :=
  if text.take 4 = ['+', '+', '+', '\n'] then
    match untilFence (text.drop 3) with
    | some (before, behind) => .ok (before.tail, behindFence behind)
    | none => .error "todo front matter is not closed with +++"
  else
    .error "todo file must start with a +++ front-matter fence"

abbrev TomlFields := List (String × Toml)

def takeField (fields : TomlFields) (key : String) : Option Toml :=
  (fields.find? fun field => field.1 = key).map Prod.snd

def textOf (fields : TomlFields) (key : String) : String :=
  ((takeField fields key).bind Toml.asStr).getD ""

def listOf (fields : TomlFields) (key : String) : List String :=
  (((takeField fields key).bind Toml.asArray).getD []).filterMap Toml.asStr

/-- Older files say `filed_by` for `requested_by`. -/
def renameFiledBy (fields : TomlFields) : TomlFields :=
  let renamed :=
    if fields.any fun field => field.1 = "requested_by" then fields
    else
      match fields.find? fun field => field.1 = "filed_by" with
      | some field => fields ++ [("requested_by", field.2)]
      | none => fields
  renamed.filter fun field => field.1 ≠ "filed_by"

def reworksOf (fields : TomlFields) : List String :=
  match takeField fields "reworks" with
  | some (.string id) => [id]
  | some (.array items) => items.filterMap Toml.asStr
  | _ => []

def statusOf (formats : Formats) (fields : TomlFields) : Except String TodoStatus :=
  match (takeField fields "status").bind Toml.asStr with
  | some text =>
    match TodoStatus.parse text with
    | some status => .ok status
    | none => .error ("unknown status " ++ formats.debug text)
  | none => .ok .open

def commitsOf (fields : TomlFields) : List (String × String) :=
  (((takeField fields "commits").bind Toml.asInlineTable).getD []).filterMap fun member =>
    member.2.asStr.map fun sha => (member.1, sha)

def todoOf (fields : TomlFields) (id : String) (status : TodoStatus) (body : List Char) :
    TodoFile :=
  { id := id
    family := textOf fields "family"
    title := textOf fields "title"
    reworks := reworksOf fields
    body := trimNewlines (String.ofList body)
    repos := listOf fields "repos"
    mode := ((takeField fields "mode").bind Toml.asStr).getD "night"
    priority := ((takeField fields "priority").bind Toml.asInteger).getD 3
    blockedBy := listOf fields "blocked_by"
    status := status
    attempts := ((takeField fields "attempts").bind Toml.asInteger).getD 0
    requestedBy := textOf fields "requested_by"
    filedAt := textOf fields "filed_at"
    claimBy := textOf fields "claim_by"
    leaseUntil := textOf fields "lease_until"
    shift := textOf fields "shift"
    changeSet := textOf fields "change_set"
    commits := commitsOf fields
    merged := ((takeField fields "merged").bind Toml.asBool).getD false
    note := textOf fields "note"
    parkUntil := textOf fields "park_until"
    assignee := textOf fields "assignee"
    triaged := ((takeField fields "triaged").bind Toml.asBool).getD true
    workedBy := ((takeField fields "worked_by").bind Toml.asArray).getD []
    extra := fields.filter fun field => field.1 ∉ order }

def TodoFile.ofFields (formats : Formats) (fields : TomlFields) (body : List Char) :
    Except String TodoFile :=
  match (takeField fields "id").bind Toml.asStr with
  | none => .error "todo has no id"
  | some id => do
      let status ← statusOf formats fields
      let todo := todoOf fields id status body
      let _ ← Hypothesis.fromFile formats todo
      if todo.mode ∈ modes then .ok todo
      else .error ("unknown mode " ++ formats.debug todo.mode)

def TodoFile.parse (toml : TomlText) (formats : Formats) (text : String) :
    Except String TodoFile := do
  let (front, body) ← frontMatter text.toList
  match toml.parse front with
  | .ok fields => TodoFile.ofFields formats (renameFiledBy fields) body
  | .error message => .error ("front matter is not TOML: " ++ message)

def stringItems (items : List String) : Toml :=
  .array (items.map Toml.string)

namespace TodoFile

/-- The fields every file has, in todoq's order.  `render` writes a string by `quote`, a list
of them between brackets and the commits as a table, as `dump` does. -/
def known (todo : TodoFile) : TomlFields :=
  [("id", .string todo.id), ("family", .string todo.family), ("title", .string todo.title),
    ("repos", stringItems todo.repos), ("mode", .string todo.mode),
    ("priority", .integer todo.priority), ("blocked_by", stringItems todo.blockedBy),
    ("status", .string todo.status.asStr), ("attempts", .integer todo.attempts),
    ("requested_by", .string todo.requestedBy), ("filed_at", .string todo.filedAt),
    ("claim_by", .string todo.claimBy), ("lease_until", .string todo.leaseUntil),
    ("shift", .string todo.shift), ("change_set", .string todo.changeSet),
    ("commits", .inlineTable (todo.commits.map fun commit => (commit.1, .string commit.2))),
    ("merged", .boolean todo.merged), ("note", .string todo.note),
    ("triaged", .boolean todo.triaged), ("worked_by", .array todo.workedBy)]

def optional (todo : TodoFile) : TomlFields :=
  (if todo.parkUntil = "" then [] else [("park_until", .string todo.parkUntil)]) ++
    (if todo.assignee = "" then [] else [("assignee", .string todo.assignee)]) ++
    (if todo.reworks = [] then [] else [("reworks", stringItems todo.reworks)])

def fields (todo : TodoFile) : TomlFields :=
  todo.known ++ todo.optional ++ todo.extra

def bodyText (todo : TodoFile) : List Char :=
  if trimNewlines todo.body = "" then [] else (trimNewlines todo.body).toList ++ ['\n']

def dumpText (toml : TomlText) (todo : TodoFile) : List Char :=
  ['+', '+', '+', '\n'] ++ fieldLines toml.floatText todo.fields ++ ['+', '+', '+', '\n'] ++
    todo.bodyText

def dump (toml : TomlText) (todo : TodoFile) : String :=
  String.ofList (todo.dumpText toml)

end TodoFile

end JeryuForge.Shift
