import JeryuForge.Shift.Change
import JeryuForge.Shift.TomlLines

/-!
# Reading a file that was written

`dump` quotes every text and every key of a table as JSON does, but writes the keys it does
not know as they stand, and JSON leaves `U+007F` alone, which TOML refuses.  A file that was
read is written so that it reads back as the same todo exactly if neither matters to it.
-/

namespace JeryuForge.Shift

open KeyLines List

open Text (trimMatches)

theorem untilFence_skip {char : Char} {rest : List Char}
    (h : ∀ more, char :: rest ≠ '\n' :: '+' :: '+' :: '+' :: more) :
    untilFence (char :: rest) =
      (untilFence rest).map fun parts => (char :: parts.1, parts.2) := by
  rw [untilFence.eq_def]
  split
  next heq =>
    cases heq
  next more heq =>
    exact absurd heq (h more)
  next heq =>
    cases heq
    rfl

variable {text : List Char} {fields : TomlFields}

theorem untilFence_text {before behind : List Char} (h : untilFence text = some (before, behind)) :
    text = before ++ '\n' :: '+' :: '+' :: '+' :: behind := by
  induction text using untilFence.induct generalizing before with
  | case1 => cases h
  | case2 rest =>
    cases h
    rfl
  | case3 char rest hfence ih =>
    rw [untilFence_skip fun more heq => by cases heq; exact hfence _ rfl rfl] at h
    obtain ⟨parts, hparts, hsame⟩ := Option.map_eq_some_iff.mp h
    cases hsame
    rw [ih hparts]
    rfl

theorem untilFence_first {before behind earlier rest : List Char}
    (h : untilFence (earlier ++ '\n' :: '+' :: '+' :: '+' :: rest) = some (before, behind)) :
    before.length ≤ earlier.length := by
  induction earlier generalizing before with
  | nil =>
    cases h
    exact Nat.le_refl _
  | cons char earlier ih =>
    rw [cons_append] at h
    by_cases hfence : ∃ more, char :: (earlier ++ '\n' :: '+' :: '+' :: '+' :: rest) =
        '\n' :: '+' :: '+' :: '+' :: more
    · obtain ⟨more, hmore⟩ := hfence
      rw [hmore, untilFence] at h
      cases h
      exact Nat.zero_le _
    · rw [untilFence_skip fun more heq => hfence ⟨more, heq⟩] at h
      obtain ⟨parts, hparts, hsame⟩ := Option.map_eq_some_iff.mp h
      cases hsame
      exact Nat.succ_le_succ (ih hparts)

theorem untilFence_append {line more : List Char} (hline : '\n' ∉ line) :
    untilFence (line ++ '\n' :: more) =
      (untilFence ('\n' :: more)).map fun parts => (line ++ parts.1, parts.2) := by
  induction line with
  | nil => simp
  | cons char line ih =>
    simp only [mem_cons, not_or] at hline
    rw [cons_append, untilFence_skip fun rest heq =>
      hline.1 (by injection heq with h; exact h.symm),
      ih hline.2, Option.map_map]
    rfl

theorem untilFence_lines {lines : List Line} {rest : List Char}
    (hlines : ∀ line ∈ lines, '\n' ∉ line.value ∧ Bare line.key) :
    untilFence ('\n' :: (linesText lines ++ '+' :: '+' :: '+' :: rest)) =
      some (('\n' :: linesText lines).dropLast, rest) := by
  induction lines with
  | nil => rfl
  | cons line lines ih =>
    obtain ⟨hvalue, hne, hbare⟩ := hlines line mem_cons_self
    obtain ⟨own, hown⟩ : ∃ own, own = line.key ++ ' ' :: '=' :: ' ' :: line.value := ⟨_, rfl⟩
    have hcons : linesText (line :: lines) = own ++ '\n' :: linesText lines := by
      simp [hown, linesText_cons, Line.text]
    have hline : '\n' ∉ own := by
      simp only [hown, mem_append, mem_cons, not_or]
      exact ⟨fun hmem => (TomlLines.isBare_printable (hbare _ hmem)).2.2 rfl, by decide,
        by decide, by decide, hvalue⟩
    have hskip : ∀ tail more, '\n' :: (own ++ tail) ≠ '\n' :: '+' :: '+' :: '+' :: more := by
      intro tail more heq
      obtain ⟨first, key, hkey⟩ := exists_cons_of_ne_nil hne
      rw [hown, hkey] at heq
      injection heq with _ heq
      injection heq with hplus _
      exact absurd (hplus ▸ hbare first (by simp [hkey])) (by decide)
    rw [hcons, append_assoc, untilFence_skip (hskip _), cons_append,
      untilFence_append hline, ih (forall_mem_cons.mp hlines).2, ← cons_append,
      dropLast_append_of_ne_nil (by simp)]
    rfl

theorem toList_trimNewlines (text : String) :
    (trimNewlines text).toList = trimMatches (· = '\n') text.toList :=
  String.toList_ofList

theorem trimMatches_idem (drop : Char → Bool) (text : List Char) :
    trimMatches drop (trimMatches drop text) = trimMatches drop text := by
  have hfront : (trimMatches drop text).dropWhile drop = trimMatches drop text := by
    have hhead := head?_dropWhile_not drop text
    obtain ⟨rest, hrest⟩ : trimMatches drop text <+: text.dropWhile drop :=
      rdropWhile_prefix _ _
    rw [← hrest] at hhead
    cases htext : trimMatches drop text with
    | nil => rfl
    | cons char more =>
      rw [htext] at hhead
      exact dropWhile_cons_of_neg (by simpa using hhead)
  rw [trimMatches, hfront]
  exact rdropWhile_idempotent _ _

theorem trimMatches_append_newline (hne : trimMatches (· = '\n') text ≠ []) :
    trimMatches (· = '\n') (text ++ ['\n']) = trimMatches (· = '\n') text := by
  have hdrop : (text.dropWhile (· = '\n')).isEmpty = false := by
    refine isEmpty_eq_false_iff.mpr fun hnil => hne ?_
    rw [trimMatches, hnil]
    rfl
  unfold trimMatches
  rw [dropWhile_append, hdrop, if_neg Bool.false_ne_true, rdropWhile_concat_pos _ _ _ (by simp)]

theorem trimNewlines_idem (text : String) :
    trimNewlines (trimNewlines text) = trimNewlines text := by
  refine String.toList_inj.mp ?_
  rw [toList_trimNewlines, toList_trimNewlines, trimMatches_idem]

variable {todo : TodoFile}

theorem trimNewlines_bodyText (hbody : trimNewlines todo.body = todo.body) :
    trimNewlines (String.ofList todo.bodyText) = todo.body := by
  refine String.toList_inj.mp ?_
  have hends : trimMatches (· = '\n') todo.body.toList = todo.body.toList := by
    rw [← toList_trimNewlines, hbody]
  rw [toList_trimNewlines, String.toList_ofList]
  unfold TodoFile.bodyText
  rw [hbody]
  by_cases hempty : todo.body = ""
  · rw [if_pos hempty, hempty]
    rfl
  · rw [if_neg hempty]
    refine (trimMatches_append_newline fun hnil => hempty ?_).trans hends
    exact String.toList_inj.mp (hends.symm.trans hnil)

variable {formats : Formats}

theorem TodoFile.ofFields_ok {body : List Char} :
    TodoFile.ofFields formats fields body = .ok todo ↔
      ∃ id status record, (takeField fields "id").bind Toml.asStr = some id ∧
        statusOf formats fields = .ok status ∧ todo = todoOf fields id status body ∧
        Hypothesis.fromFile formats todo = .ok record ∧ todo.mode ∈ modes := by
  unfold TodoFile.ofFields
  cases hid : (takeField fields "id").bind Toml.asStr with
  | none => simp
  | some id =>
    simp only [Except.bind_eq_ok_iff]
    constructor
    · rintro ⟨status, hstatus, record, hrecord, h⟩
      split at h
      next hmode =>
        cases h
        exact ⟨id, status, record, rfl, hstatus, rfl, hrecord, hmode⟩
      · cases h
    · rintro ⟨_, status, record, ⟨⟩, hstatus, rfl, hrecord, hmode⟩
      exact ⟨status, hstatus, record, hrecord, if_pos hmode⟩

variable {text : String}

theorem TodoFile.parse_ok {toml : TomlText} :
    TodoFile.parse toml formats text = .ok todo ↔
      ∃ front body fields, frontMatter text.toList = .ok (front, body) ∧
        toml.parse front = .ok fields ∧
        TodoFile.ofFields formats (renameFiledBy fields) body = .ok todo := by
  unfold TodoFile.parse
  rw [Except.bind_eq_ok_iff]
  constructor
  · rintro ⟨⟨front, body⟩, hfront, h⟩
    cases hfields : toml.parse front with
    | error message => simp [hfields] at h
    | ok fields => exact ⟨front, body, fields, hfront, hfields, by simpa [hfields] using h⟩
  · rintro ⟨front, body, fields, hfront, hfields, h⟩
    refine ⟨(front, body), hfront, ?_⟩
    simp only [hfields]
    exact h

structure TodoFile.Read (formats : Formats) (todo : TodoFile) : Prop where
  unknown : ∀ field ∈ todo.extra, field.1 ∉ order ∧ field.1 ≠ "filed_by"
  distinct : (todo.extra.map Prod.fst).Nodup
  commits : (todo.commits.map Prod.fst).Nodup
  priority : (Toml.integer todo.priority).valid = true
  attempts : (Toml.integer todo.attempts).valid = true
  workedBy : ∀ item ∈ todo.workedBy, item.valid = true
  extra : ∀ field ∈ todo.extra, field.2.valid = true
  body : trimNewlines todo.body = todo.body
  mode : todo.mode ∈ modes
  hypothesis : ∃ record, Hypothesis.fromFile formats todo = .ok record

theorem takeField_mem {key : String} {value : Toml} (h : takeField fields key = some value) :
    (key, value) ∈ fields := by
  obtain ⟨field, hfind, rfl⟩ := Option.map_eq_some_iff.mp h
  have hkey : field.1 = key := by simpa using find?_some hfind
  rw [← hkey]
  exact mem_of_find?_eq_some hfind

theorem mem_renameFiledBy {field : String × Toml} (h : field ∈ renameFiledBy fields) :
    field.1 ≠ "filed_by" ∧ ∃ other ∈ fields, other.2 = field.2 := by
  unfold renameFiledBy at h
  simp only [mem_filter, ne_eq, decide_not, Bool.not_eq_true', decide_eq_false_iff_not] at h
  obtain ⟨hmem, hfiled⟩ := h
  refine ⟨hfiled, ?_⟩
  split at hmem
  · exact ⟨field, hmem, rfl⟩
  · split at hmem
    next filed hfind =>
      rcases mem_append.mp hmem with hmem | hmem
      · exact ⟨field, hmem, rfl⟩
      · rw [mem_singleton.mp hmem]
        exact ⟨filed, mem_of_find?_eq_some hfind, rfl⟩
    · exact ⟨field, hmem, rfl⟩

theorem forall_renameFiledBy {test : Toml → Bool} (h : ∀ field ∈ fields, test field.2 = true) :
    ∀ field ∈ renameFiledBy fields, test field.2 = true := by
  intro field hmem
  obtain ⟨_, other, hother, hsame⟩ := mem_renameFiledBy hmem
  rw [← hsame]
  exact h other hother

theorem extra_renameFiledBy_sublist (fields : TomlFields) :
    ((renameFiledBy fields).filter fun field => field.1 ∉ order).Sublist fields := by
  unfold renameFiledBy
  rw [filter_filter]
  split
  · exact filter_sublist
  · split
    · -- the field that is renamed has a known key
      simp [order]
    · exact filter_sublist

theorem integer_valid (hvalid : ∀ field ∈ fields, field.2.valid = true)
    (key : String) {otherwise : Int} (hotherwise : (Toml.integer otherwise).valid = true) :
    (Toml.integer (((takeField fields key).bind Toml.asInteger).getD otherwise)).valid = true := by
  cases htake : takeField fields key with
  | none => exact hotherwise
  | some value =>
    cases value with
    | integer value => exact hvalid _ (takeField_mem htake)
    | _ => exact hotherwise

theorem commitsOf_nodup (hvalid : ∀ field ∈ fields, field.2.valid = true) :
    ((commitsOf fields).map Prod.fst).Nodup := by
  have hmembers : ∀ members : List (String × Toml), (members.map Prod.fst).Nodup →
      ((members.filterMap fun member =>
        member.2.asStr.map fun sha => (member.1, sha)).map Prod.fst).Nodup := by
    intro members hnodup
    rw [List.Nodup, pairwise_map, pairwise_filterMap]
    refine (pairwise_map.mp hnodup).imp fun hne _ hfirst _ hsecond => ?_
    obtain ⟨_, _, rfl⟩ := Option.map_eq_some_iff.mp hfirst
    obtain ⟨_, _, rfl⟩ := Option.map_eq_some_iff.mp hsecond
    exact hne
  refine hmembers _ ?_
  cases htake : takeField fields "commits" with
  | none => exact nodup_nil
  | some value =>
    cases value with
    | inlineTable members =>
      exact (Toml.valid_inlineTable.mp (hvalid _ (takeField_mem htake))).1
    | _ => exact nodup_nil

theorem mem_workedBy {item : Toml}
    (h : item ∈ ((takeField fields "worked_by").bind Toml.asArray).getD []) :
    ∃ items, ("worked_by", Toml.array items) ∈ fields ∧ item ∈ items := by
  cases htake : takeField fields "worked_by" with
  | none =>
    rw [htake] at h
    cases h
  | some value =>
    rw [htake] at h
    cases value with
    | array items => exact ⟨items, takeField_mem htake, h⟩
    | _ => cases h

theorem TodoFile.read_of_parse {toml : TomlText}
    (h : TodoFile.parse toml formats text = .ok todo) : todo.Read formats := by
  obtain ⟨front, body, document, _, hdocument, hfields⟩ := TodoFile.parse_ok.mp h
  obtain ⟨id, status, record, _, _, rfl, hrecord, hmode⟩ := TodoFile.ofFields_ok.mp hfields
  have hvalid : ∀ field ∈ renameFiledBy document, field.2.valid = true :=
    forall_renameFiledBy (toml.parse_valid hdocument)
  have hextra : ∀ field ∈ (todoOf (renameFiledBy document) id status body).extra,
      field ∈ renameFiledBy document ∧ field.1 ∉ order := by
    intro field hmem
    simpa [todoOf] using hmem
  refine
    { unknown := fun field hmem =>
        ⟨(hextra field hmem).2, (mem_renameFiledBy (hextra field hmem).1).1⟩
      distinct := ?_
      commits := commitsOf_nodup hvalid
      priority := integer_valid hvalid "priority" (by decide)
      attempts := integer_valid hvalid "attempts" (by decide)
      workedBy := fun item hmem => ?_
      extra := fun field hmem => hvalid field (hextra field hmem).1
      body := trimNewlines_idem _
      mode := hmode
      hypothesis := ⟨record, hrecord⟩ }
  · exact List.Nodup.sublist ((extra_renameFiledBy_sublist document).map Prod.fst)
      (toml.parse_distinct hdocument)
  · obtain ⟨items, hitems, hitem⟩ := mem_workedBy hmem
    exact Toml.valid_array.mp (hvalid _ hitems) item hitem

/-! ## Reading the fields that are written -/

theorem filterMap_stringItems (items : List String) :
    (items.map Toml.string).filterMap Toml.asStr = items := by
  rw [filterMap_map]
  exact filterMap_some

theorem status_parse_asStr (status : TodoStatus) : TodoStatus.parse status.asStr = some status := by
  cases status <;> decide

def optionalKeys : List String :=
  ["park_until", "assignee", "reworks"]

def knownKeys : List String :=
  order.filter fun key => key ∉ optionalKeys

theorem keys_known (todo : TodoFile) : todo.known.map Prod.fst = knownKeys :=
  rfl

theorem keys_optional (todo : TodoFile) : (todo.optional.map Prod.fst).Sublist optionalKeys := by
  have hone : ∀ {empty : Prop} [Decidable empty] (key : String) (value : Toml),
      ((if empty then [] else [(key, value)] : TomlFields).map Prod.fst).Sublist [key] := by
    intro empty _ key value
    split
    · exact nil_sublist _
    · exact List.Sublist.refl _
  unfold TodoFile.optional
  rw [map_append, map_append]
  exact ((hone _ _).append (hone _ _)).append (hone _ _)

theorem ownKeys_order : ∀ key ∈ knownKeys ++ optionalKeys, key ∈ order := by
  decide

theorem ownKeys_nodup : (knownKeys ++ optionalKeys).Nodup := by
  decide

theorem ownKeys_sublist (todo : TodoFile) :
    ((todo.known ++ todo.optional).map Prod.fst).Sublist (knownKeys ++ optionalKeys) := by
  rw [map_append, keys_known]
  exact (List.Sublist.refl _).append (keys_optional todo)

theorem own_order {field : String × Toml}
    (h : field ∈ todo.known ++ todo.optional) : field.1 ∈ order :=
  ownKeys_order _ ((ownKeys_sublist todo).subset (mem_map_of_mem h))

section Written

variable {formats : Formats} {todo : TodoFile}

variable (hread : todo.Read formats)
include hread

theorem fields_nodup : (todo.fields.map Prod.fst).Nodup := by
  unfold TodoFile.fields
  rw [map_append]
  refine nodup_append.mpr ⟨List.Nodup.sublist (ownKeys_sublist todo) ownKeys_nodup,
    hread.distinct, ?_⟩
  intro key hown other hextra hsame
  obtain ⟨field, hfield, rfl⟩ := mem_map.mp hown
  obtain ⟨field', hfield', rfl⟩ := mem_map.mp hextra
  exact (hread.unknown field' hfield').1 (hsame ▸ own_order hfield)

theorem takeField_known :
    ∀ field ∈ todo.known, takeField todo.fields field.1 = some field.2 := fun _ h =>
  (OrdMap.find?_key_eq_some_iff (fields_nodup hread)).mpr
    (mem_append_left _ (mem_append_left _ h))

variable {key text : String} {field : String × Toml}

theorem takeField_optional (hkey : key ∈ optionalKeys) :
    takeField todo.fields key = takeField todo.optional key := by
  have hknown : (todo.known.find? fun field => field.1 = key) = none := by
    refine find?_eq_none.mpr fun field hmem => ?_
    have hfield : field.1 ∈ knownKeys := keys_known todo ▸ mem_map_of_mem hmem
    simpa using (nodup_append.mp ownKeys_nodup).2.2 _ hfield _ hkey
  have hextra : (todo.extra.find? fun field => field.1 = key) = none := by
    refine find?_eq_none.mpr fun field hmem hsame => ?_
    refine (hread.unknown field hmem).1 (of_decide_eq_true hsame ▸ ownKeys_order key ?_)
    exact mem_append_right _ hkey
  unfold takeField TodoFile.fields
  rw [find?_append, find?_append, hknown, hextra, Option.none_or, Option.or_none]

omit hread in
theorem find_given {empty : Prop} [Decidable empty] {own : String × Toml} :
    ((if empty then [] else [own] : TomlFields).find? fun field => field.1 = key) =
      if ¬empty ∧ own.1 = key then some own else none := by
  by_cases hempty : empty
  · simp [hempty]
  · by_cases hkey : own.1 = key <;> simp [hempty, hkey]

omit hread in
theorem mem_optional :
    field ∈ todo.optional ↔
      (todo.parkUntil ≠ "" ∧ field = ("park_until", .string todo.parkUntil)) ∨
      (todo.assignee ≠ "" ∧ field = ("assignee", .string todo.assignee)) ∨
      (todo.reworks ≠ [] ∧ field = ("reworks", stringItems todo.reworks)) := by
  have hone : ∀ {empty : Prop} [Decidable empty] {own : String × Toml},
      field ∈ (if empty then [] else [own] : TomlFields) ↔ ¬empty ∧ field = own := by
    intro empty _ own
    split <;> simp [*]
  rw [TodoFile.optional, mem_append, mem_append, hone, hone, hone, or_assoc]

theorem textOf_optional :
    textOf todo.fields "park_until" = todo.parkUntil ∧
      textOf todo.fields "assignee" = todo.assignee := by
  unfold textOf
  rw [takeField_optional hread (by decide), takeField_optional hread (by decide)]
  by_cases hpark : todo.parkUntil = "" <;> by_cases hassignee : todo.assignee = "" <;>
    simp [takeField, TodoFile.optional, find_given, hpark, hassignee, Toml.asStr]

theorem reworksOf_fields : reworksOf todo.fields = todo.reworks := by
  unfold reworksOf
  rw [takeField_optional hread (by decide)]
  by_cases hempty : todo.reworks = []
  · simp [takeField, TodoFile.optional, find_given, hempty]
  · have hreworks : takeField todo.optional "reworks" = some (stringItems todo.reworks) := by
      simp [takeField, TodoFile.optional, find_given, hempty]
    rw [hreworks]
    exact filterMap_stringItems todo.reworks

omit hread in
theorem textOf_string {fields : TomlFields} (h : takeField fields key = some (.string text)) :
    textOf fields key = text := by
  unfold textOf
  rw [h]
  rfl

omit hread in
theorem listOf_items {fields : TomlFields} {items : List String}
    (h : takeField fields key = some (stringItems items)) : listOf fields key = items := by
  unfold listOf
  rw [h]
  exact filterMap_stringItems items

theorem extra_fields : (todo.fields.filter fun field => field.1 ∉ order) = todo.extra := by
  unfold TodoFile.fields
  rw [filter_append]
  have hown : ((todo.known ++ todo.optional).filter fun field => field.1 ∉ order) = [] := by
    refine filter_eq_nil_iff.mpr fun field hmem => ?_
    simp [own_order hmem]
  have hextra : (todo.extra.filter fun field => field.1 ∉ order) = todo.extra := by
    refine filter_eq_self.mpr fun field hmem => ?_
    simp [(hread.unknown field hmem).1]
  rw [hown, hextra, nil_append]

theorem renameFiledBy_fields : renameFiledBy todo.fields = todo.fields := by
  refine filter_eq_self.mpr fun field hmem => ?_
  have hfiled : "filed_by" ∉ order := by decide
  rcases mem_append.mp hmem with hown | hextra
  · have hother : field.1 ≠ "filed_by" := fun hsame => hfiled (hsame ▸ own_order hown)
    simp [hother]
  · simp [(hread.unknown field hextra).2]

theorem ofFields_fields :
    TodoFile.ofFields formats (renameFiledBy todo.fields) todo.bodyText = .ok todo := by
  have hknown := takeField_known hread
  simp only [TodoFile.known, forall_mem_cons] at hknown
  obtain ⟨hid, hfamily, htitle, hrepos, hmode, hpriority, hblockedBy, hstatus, hattempts,
    hrequestedBy, hfiledAt, hclaimBy, hleaseUntil, hshift, hchangeSet, hcommits, hmerged, hnote,
    htriaged, hworkedBy, -⟩ := hknown
  obtain ⟨record, hrecord⟩ := hread.hypothesis
  obtain ⟨hparkUntil, hassignee⟩ := textOf_optional hread
  rw [renameFiledBy_fields hread, TodoFile.ofFields_ok]
  refine ⟨todo.id, todo.status, record, by rw [hid]; rfl, ?_, ?_, hrecord, hread.mode⟩
  · unfold statusOf
    rw [hstatus]
    simp [Toml.asStr, status_parse_asStr]
  · have hcommitsOf : commitsOf todo.fields = todo.commits := by
      exact filterMap_map.trans filterMap_some
    unfold todoOf
    rw [hmode, hpriority, hattempts, hmerged, htriaged, hworkedBy, listOf_items hrepos,
      listOf_items hblockedBy, textOf_string hfamily, textOf_string htitle,
      textOf_string hrequestedBy, textOf_string hfiledAt, textOf_string hclaimBy,
      textOf_string hleaseUntil, textOf_string hshift, textOf_string hchangeSet,
      textOf_string hnote, hparkUntil, hassignee,
      reworksOf_fields hread, hcommitsOf, extra_fields hread, trimNewlines_bodyText hread.body]
    rfl

omit hread

def TodoFile.texts (todo : TodoFile) : List String :=
  [todo.id, todo.family, todo.title, todo.requestedBy, todo.filedAt, todo.claimBy,
    todo.leaseUntil, todo.shift, todo.changeSet, todo.note, todo.parkUntil, todo.assignee] ++
    todo.repos ++ todo.blockedBy ++ todo.reworks ++
    (todo.commits.flatMap fun commit => [commit.1, commit.2]) ++
    todo.workedBy.flatMap Toml.texts ++ todo.extra.flatMap fun field => field.2.texts

theorem texts_stringItems (items : List String) : (stringItems items).texts = items := by
  unfold stringItems
  rw [Toml.texts_array]
  induction items with
  | nil => rfl
  | cons item items ih => rw [map_cons, flatMap_cons, ih]; rfl

theorem texts_known :
    (todo.known.flatMap fun field => field.2.texts) =
      [todo.id, todo.family, todo.title] ++ todo.repos ++ [todo.mode] ++ todo.blockedBy ++
        [todo.status.asStr, todo.requestedBy, todo.filedAt, todo.claimBy, todo.leaseUntil,
          todo.shift, todo.changeSet] ++
            (todo.commits.flatMap fun commit => [commit.1, commit.2]) ++
        [todo.note] ++ todo.workedBy.flatMap Toml.texts := by
  simp only [TodoFile.known, flatMap_cons, flatMap_nil, texts_stringItems,
    Toml.texts_array, Toml.texts_inlineTable]
  simp [Toml.texts, flatMap_map]

theorem mem_texts_optional (hempty : text ≠ "") :
    (∃ field ∈ todo.optional, text ∈ field.2.texts) ↔
      text = todo.parkUntil ∨ text = todo.assignee ∨ text ∈ todo.reworks := by
  constructor
  · rintro ⟨field, hfield, htext⟩
    rcases mem_optional.mp hfield with ⟨_, rfl⟩ | ⟨_, rfl⟩ | ⟨_, rfl⟩
    · exact .inl (mem_singleton.mp htext)
    · exact .inr (.inl (mem_singleton.mp htext))
    · rw [texts_stringItems] at htext
      exact .inr (.inr htext)
  · rintro (rfl | rfl | hreworks)
    · exact ⟨_, mem_optional.mpr (.inl ⟨hempty, rfl⟩), mem_singleton_self _⟩
    · exact ⟨_, mem_optional.mpr (.inr (.inl ⟨hempty, rfl⟩)), mem_singleton_self _⟩
    · refine ⟨_, mem_optional.mpr (.inr (.inr ⟨ne_nil_of_mem hreworks, rfl⟩)), ?_⟩
      rwa [texts_stringItems]

/-- A text with a `U+007F` in it is one of the todo's if a field that is written has it. -/
theorem mem_texts_iff (hread : todo.Read formats) (hdelete : delete ∈ text.toList) :
    text ∈ todo.texts ↔ ∃ field ∈ todo.fields, text ∈ field.2.texts := by
  have hmode : ∀ mode ∈ modes, delete ∉ mode.toList := by decide
  have hstatus : ∀ status : TodoStatus, delete ∉ status.asStr.toList := by
    intro status
    cases status <;> decide
  have hnotMode : text ≠ todo.mode := fun hsame => hmode todo.mode hread.mode (hsame ▸ hdelete)
  have hnotStatus : text ≠ todo.status.asStr := fun hsame => hstatus _ (hsame ▸ hdelete)
  have hempty : text ≠ "" := by
    rintro rfl
    cases hdelete
  unfold TodoFile.fields TodoFile.texts
  simp only [mem_append, or_and_right, exists_or, mem_texts_optional hempty,
    ← mem_flatMap, texts_known, mem_cons, not_mem_nil, or_false, hnotMode,
    hnotStatus, false_or]
  grind

/-! ## The round trip -/

/-- What a file needs so that it is written as TOML: each key the server does not know is a
bare one, and there is no `U+007F` in a text of it. -/
structure TodoFile.Writable (todo : TodoFile) : Prop where
  bare : ∀ field ∈ todo.extra, Bare field.1.toList
  noDelete : ∀ text ∈ todo.texts, delete ∉ text.toList

def TodoFile.RoundTrips (toml : TomlText) (formats : Formats) (todo : TodoFile) : Prop :=
  ∃ again, TodoFile.parse toml formats (todo.dump toml) = .ok again ∧ again = todo ∧
    again.dump toml = todo.dump toml

theorem own_bare (h : field ∈ todo.known ++ todo.optional) : Bare field.1.toList := by
  have hkeys : ∀ key ∈ order, Bare key.toList := by decide
  exact hkeys _ (own_order h)

theorem fields_forall (holds : Toml → Prop) (hstring : ∀ text, holds (.string text))
    (hboolean : ∀ value, holds (.boolean value)) (hitems : ∀ items, holds (stringItems items))
    (hpriority : holds (.integer todo.priority)) (hattempts : holds (.integer todo.attempts))
    (hcommits : holds (.inlineTable (todo.commits.map fun commit => (commit.1, .string commit.2))))
    (hworkedBy : holds (.array todo.workedBy)) (hextra : ∀ field ∈ todo.extra, holds field.2) :
    ∀ field ∈ todo.fields, holds field.2 := by
  intro field hmem
  rcases mem_append.mp hmem with hown | hunknown
  · rcases mem_append.mp hown with hknown | hoptional
    · simp only [TodoFile.known, mem_cons, not_mem_nil, or_false] at hknown
      rcases hknown with rfl | rfl | rfl | rfl | rfl | rfl | rfl | rfl | rfl | rfl | rfl | rfl |
        rfl | rfl | rfl | rfl | rfl | rfl | rfl | rfl
      all_goals first
        | exact hstring _
        | exact hboolean _
        | exact hitems _
        | exact hpriority
        | exact hattempts
        | exact hcommits
        | exact hworkedBy
    · rcases mem_optional.mp hoptional with ⟨_, rfl⟩ | ⟨_, rfl⟩ | ⟨_, rfl⟩
      · exact hstring _
      · exact hstring _
      · exact hitems _
  · exact hextra field hunknown

theorem fields_valid (hread : todo.Read formats) : ∀ field ∈ todo.fields, field.2.valid = true := by
  refine fields_forall (fun value => value.valid = true) (fun _ => rfl) (fun _ => rfl)
    (fun items => ?_) hread.priority
    hread.attempts ?_ (Toml.valid_array.mpr hread.workedBy) hread.extra
  · refine Toml.valid_array.mpr fun item hmem => ?_
    obtain ⟨text, _, rfl⟩ := mem_map.mp hmem
    rfl
  · refine Toml.valid_inlineTable.mpr ⟨?_, fun member hmem => ?_⟩
    · rw [map_map]
      exact hread.commits
    · obtain ⟨commit, _, rfl⟩ := mem_map.mp hmem
      rfl

theorem fields_plain (hworkedBy : ∀ item ∈ todo.workedBy, item.plain = true)
    (hextra : ∀ field ∈ todo.extra, field.2.plain = true) :
    ∀ field ∈ todo.fields, field.2.plain = true := by
  refine fields_forall (fun value => value.plain = true) (fun _ => rfl) (fun _ => rfl)
    (fun items => ?_) rfl rfl ?_
    (Toml.plain_array.mpr hworkedBy) hextra
  · refine Toml.plain_array.mpr fun item hmem => ?_
    obtain ⟨text, _, rfl⟩ := mem_map.mp hmem
    rfl
  · refine Toml.plain_inlineTable.mpr fun member hmem => ?_
    obtain ⟨commit, _, rfl⟩ := mem_map.mp hmem
    rfl

theorem lineFields (hread : todo.Read formats)
    (hplain : ∀ field ∈ todo.fields, field.2.plain = true)
    (hbare : ∀ field ∈ todo.extra, Bare field.1.toList) : LineFields todo.fields where
  bare := fun field hmem => by
    rcases mem_append.mp hmem with hown | hextra
    · exact own_bare hown
    · exact hbare field hextra
  distinct := fields_nodup hread
  plain := hplain
  valid := fields_valid hread

/-! ### The front matter of a written file -/

variable {toml : TomlText}

def frontText (toml : TomlText) (todo : TodoFile) : List Char :=
  (fieldLines toml.floatText todo.fields).dropLast

theorem fieldLines_first (todo : TodoFile) :
    ∃ rest, fieldLines toml.floatText todo.fields = 'i' :: rest := by
  simp [fieldLines, TodoFile.fields, TodoFile.known, linesText_cons, fieldLine, Line.text]

theorem fieldLines_last {fields : TomlFields} (hne : fields ≠ []) :
    ∃ text, fieldLines toml.floatText fields = text ++ ['\n'] := by
  obtain ⟨earlier, last, rfl⟩ := (eq_nil_or_concat' fields).resolve_left hne
  refine ⟨fieldLines toml.floatText earlier ++ last.1.toList ++ ' ' :: '=' :: ' ' ::
    last.2.render toml.floatText, ?_⟩
  simp [fieldLines, linesText, fieldLine, Line.text]

theorem frontText_newline (todo : TodoFile) :
    frontText toml todo ++ ['\n'] = fieldLines toml.floatText todo.fields := by
  obtain ⟨text, htext⟩ :=
    @fieldLines_last toml todo.fields (by simp [TodoFile.fields, TodoFile.known])
  unfold frontText
  rw [htext, dropLast_concat]

theorem dumpText_drop (todo : TodoFile) :
    (todo.dumpText toml).take 4 = ['+', '+', '+', '\n'] ∧
      (todo.dumpText toml).drop 3 = '\n' :: (fieldLines toml.floatText todo.fields ++
        '+' :: '+' :: '+' :: '\n' :: todo.bodyText) := by
  constructor
  · rfl
  · simp [TodoFile.dumpText]

theorem frontMatter_dumpText (hread : todo.Read formats)
    (hplain : ∀ field ∈ todo.fields, field.2.plain = true)
    (hbare : ∀ field ∈ todo.extra, Bare field.1.toList) :
    frontMatter (todo.dumpText toml) = .ok (frontText toml todo, todo.bodyText) := by
  have hfields := lineFields hread hplain hbare
  have hfence : untilFence ('\n' :: (fieldLines toml.floatText todo.fields ++
      '+' :: '+' :: '+' :: '\n' :: todo.bodyText)) =
      some (('\n' :: fieldLines toml.floatText todo.fields).dropLast, '\n' :: todo.bodyText) := by
    refine untilFence_lines fun line hmem => ?_
    obtain ⟨field, hfield, rfl⟩ := mem_map.mp hmem
    exact ⟨(fieldLine_written (hplain field hfield)).oneLine, hfields.bare field hfield⟩
  obtain ⟨htake, hdrop⟩ := dumpText_drop todo
  obtain ⟨rest, hrest⟩ := fieldLines_first todo
  unfold frontMatter
  rw [if_pos htake, hdrop, hfence]
  simp only [behindFence]
  rw [if_pos (by decide), hrest, dropLast_cons_cons, tail_cons]
  unfold frontText
  rw [hrest]

theorem prefix_of_frontMatter {front body : List Char}
    (h : frontMatter (todo.dumpText toml) = .ok (front, body)) :
    ∃ rest, fieldLines toml.floatText todo.fields = front ++ ['\n'] ++ rest := by
  obtain ⟨htake, hdrop⟩ := dumpText_drop todo
  obtain ⟨first, hfirst⟩ := fieldLines_first todo
  unfold frontMatter at h
  rw [if_pos htake, hdrop] at h
  split at h
  next before behind hfence =>
    cases h
    have htext := untilFence_text hfence
    have hwhole : '\n' :: (fieldLines toml.floatText todo.fields ++
        '+' :: '+' :: '+' :: '\n' :: todo.bodyText) =
        ('\n' :: frontText toml todo) ++ '\n' :: '+' :: '+' :: '+' :: '\n' :: todo.bodyText := by
      rw [← frontText_newline]
      simp
    have hlength : before.length ≤ (frontText toml todo).length + 1 := by
      rw [hwhole] at hfence
      exact untilFence_first hfence
    cases before with
    | nil =>
      rw [hfirst] at htext
      injection htext with _ htext
      injection htext with hplus _
      exact absurd hplus (by decide)
    | cons newline front =>
      injection htext with _ htext
      have hprefix : front ++ ['\n'] <+: fieldLines toml.floatText todo.fields := by
        have hfront : front ++ ['\n'] <+: fieldLines toml.floatText todo.fields ++
            '+' :: '+' :: '+' :: '\n' :: todo.bodyText :=
          ⟨'+' :: '+' :: '+' :: behind, by rw [htext]; simp⟩
        refine prefix_of_prefix_length_le hfront (prefix_append _ _) ?_
        rw [← frontText_newline]
        simpa using hlength
      obtain ⟨rest, hrest⟩ := hprefix
      exact ⟨rest, hrest.symm⟩
  · cases h

section Read

variable (hread : todo.Read formats) (hplain : ∀ field ∈ todo.fields, field.2.plain = true)
include hread hplain

theorem bare_of_parse (h : TodoFile.parse toml formats (todo.dump toml) = .ok todo) :
    ∀ field ∈ todo.extra, Bare field.1.toList := by
  obtain ⟨front, body, document, hfront, hdocument, hfields⟩ := TodoFile.parse_ok.mp h
  obtain ⟨id, status, record, _, _, htodo, _, _⟩ := TodoFile.ofFields_ok.mp hfields
  have hextra : todo.extra.Sublist document := by
    rw [htodo]
    exact extra_renameFiledBy_sublist document
  rw [TodoFile.dump, String.toList_ofList] at hfront
  obtain ⟨rest, hrest⟩ := prefix_of_frontMatter hfront
  have hreads : Reads (fieldLines toml.floatText todo.fields)
      (todo.extra.map fun field => field.1.toList) := by
    rw [hrest]
    exact ((toml.parse_reads hdocument).sublist (hextra.map _)).append rest
  have hown : Reads (linesText (todo.extra.map (fieldLine toml.floatText)))
      ((todo.extra.map (fieldLine toml.floatText)).map Line.key) := by
    have hsplit : fieldLines toml.floatText todo.fields =
        linesText ((todo.known ++ todo.optional).map (fieldLine toml.floatText)) ++
          linesText (todo.extra.map (fieldLine toml.floatText)) := by
      unfold fieldLines TodoFile.fields linesText
      rw [map_append, flatMap_append]
    rw [hsplit] at hreads
    rw [map_map]
    refine hreads.behind (fun line hline => ?_) fun line hline hmem => ?_
    · obtain ⟨field, hfield, rfl⟩ := mem_map.mp hline
      exact ⟨(fieldLine_written (hplain field (mem_append_left _ hfield))).oneLine, own_bare hfield⟩
    · obtain ⟨field, hfield, rfl⟩ := mem_map.mp hline
      obtain ⟨other, hother, hsame⟩ := mem_map.mp hmem
      exact (hread.unknown other hother).1 (String.toList_inj.mp hsame ▸ own_order hfield)
  intro field hmem
  refine bare_of_reads (fun line hline => ?_) hown (fieldLine toml.floatText field)
    (mem_map_of_mem hmem)
  obtain ⟨other, hother, rfl⟩ := mem_map.mp hline
  exact fieldLine_written (hplain other (mem_append_right _ hother))

theorem delete_of_texts (hbare : ∀ field ∈ todo.extra, Bare field.1.toList) :
    delete ∈ frontText toml todo ↔ ∃ text ∈ todo.texts, delete ∈ text.toList := by
  have hfields := lineFields hread hplain hbare
  have hfront : delete ∈ frontText toml todo ↔ delete ∈ fieldLines toml.floatText todo.fields := by
    have hnewline : delete ∉ ['\n'] := by decide
    rw [← frontText_newline]
    simp [hnewline]
  rw [hfront]
  unfold fieldLines linesText
  rw [flatMap_map, mem_flatMap]
  constructor
  · rintro ⟨field, hfield, hchar⟩
    have hkey : delete ∉ field.1.toList := fun hmem =>
      absurd ((hfields.bare field hfield).2 _ hmem) (by decide)
    have hvalue : delete ∈ field.2.render toml.floatText := by
      have hmarks : delete ≠ ' ' ∧ delete ≠ '=' ∧ delete ≠ '\n' := by decide
      simpa [fieldLine, Line.text, hkey, hmarks] using hchar
    obtain ⟨_, hascii | ⟨text, htext, hmem⟩⟩ :=
      Toml.charOf_render (hplain field hfield) _ hvalue
    · exact absurd hascii (by decide)
    · exact ⟨text, (mem_texts_iff hread hmem).mpr ⟨field, hfield, htext⟩, hmem⟩
  · rintro ⟨text, htext, hchar⟩
    obtain ⟨field, hfield, hmem⟩ := (mem_texts_iff hread hchar).mp htext
    refine ⟨field, hfield, ?_⟩
    simp [fieldLine, Line.text, Toml.mem_render_of_text hmem hchar (by decide)]

theorem parse_dump_of_writable (hwritable : todo.Writable) :
    TodoFile.parse toml formats (todo.dump toml) = .ok todo := by
  rw [TodoFile.parse_ok, TodoFile.dump, String.toList_ofList]
  refine ⟨frontText toml todo, todo.bodyText, todo.fields,
    frontMatter_dumpText hread hplain hwritable.bare, ?_, ofFields_fields hread⟩
  refine toml.parse_lines (lineFields hread hplain hwritable.bare) (frontText_newline todo) ?_
  rw [delete_of_texts hread hplain hwritable.bare]
  rintro ⟨text, htext, hchar⟩
  exact hwritable.noDelete text htext hchar

theorem writable_of_parse (h : TodoFile.parse toml formats (todo.dump toml) = .ok todo) :
    todo.Writable := by
  have hbare := bare_of_parse hread hplain h
  refine ⟨hbare, fun text htext hchar => ?_⟩
  obtain ⟨front, body, document, hfront, hdocument, _⟩ := TodoFile.parse_ok.mp h
  rw [TodoFile.dump, String.toList_ofList, frontMatter_dumpText hread hplain hbare] at hfront
  cases hfront
  obtain ⟨message, hmessage⟩ := toml.parse_delete (lineFields hread hplain hbare)
    (frontText_newline todo) ((delete_of_texts hread hplain hbare).mpr ⟨text, htext, hchar⟩)
  rw [hmessage] at hdocument
  cases hdocument

end Read

end Written

def plainText (toml : TomlText) (text : String) : Bool :=
  match frontMatter text.toList with
  | .ok (front, _) =>
    match toml.parse front with
    | .ok fields => fields.all fun field => field.2.plain
    | .error _ => true
  | .error _ => true

theorem fields_plain_of_parse {toml : TomlText} (hplain : plainText toml text = true)
    (h : TodoFile.parse toml formats text = .ok todo) :
    ∀ field ∈ todo.fields, field.2.plain = true := by
  obtain ⟨front, body, document, hfront, hdocument, hfields⟩ := TodoFile.parse_ok.mp h
  obtain ⟨id, status, record, _, _, rfl, _, _⟩ := TodoFile.ofFields_ok.mp hfields
  have hvalues : ∀ field ∈ renameFiledBy document, field.2.plain = true := by
    unfold plainText at hplain
    rw [hfront] at hplain
    simp only at hplain
    rw [hdocument] at hplain
    exact forall_renameFiledBy (all_eq_true.mp hplain)
  refine fields_plain (fun item hmem => ?_) fun field hmem => ?_
  · obtain ⟨items, hitems, hitem⟩ := mem_workedBy hmem
    exact Toml.plain_array.mp (hvalues _ hitems) item hitem
  · exact hvalues field (mem_of_mem_filter hmem)

/-- A file that was read is written so that it reads back as the same todo, and is then written
as the same file, exactly if its unknown keys are bare and none of its texts holds
`U+007F`. -/
theorem roundTrips_iff (toml : TomlText) (formats : Formats) {text : String} {todo : TodoFile}
    (hplain : plainText toml text = true) (h : TodoFile.parse toml formats text = .ok todo) :
    todo.RoundTrips toml formats ↔ todo.Writable := by
  have hread := TodoFile.read_of_parse h
  have hfields := fields_plain_of_parse hplain h
  constructor
  · rintro ⟨again, hagain, rfl, _⟩
    exact writable_of_parse hread hfields hagain
  · intro hwritable
    exact ⟨todo, parse_dump_of_writable hread hfields hwritable, rfl, rfl⟩

/-! A key with a blank is quoted in the file that is read and not in the file that is written,
and `U+007F` is escaped there and not here. -/

def readOf (text : String) : TodoFile :=
  (TodoFile.parse lineToml plainFormats text).toOption.getD (TodoFile.new "" "" "")

theorem parse_readOf (h : (TodoFile.parse lineToml plainFormats text).toOption.isSome = true) :
    TodoFile.parse lineToml plainFormats text = .ok (readOf text) := by
  unfold readOf
  cases hparse : TodoFile.parse lineToml plainFormats text with
  | ok todo => rfl
  | error message =>
    rw [hparse] at h
    cases h

theorem not_roundTrips (h : (TodoFile.parse lineToml plainFormats text).toOption.isSome = true)
    (hplain : plainText lineToml text = true) (hnot : ¬(readOf text).Writable) :
    ¬(readOf text).RoundTrips lineToml plainFormats := by
  rintro ⟨again, hagain, rfl, _⟩
  have hparse := parse_readOf h
  exact hnot (writable_of_parse (TodoFile.read_of_parse hparse)
    (fields_plain_of_parse hplain hparse) hagain)

def blankKeyFile : String :=
  "+++\nid = \"t1\"\n\"est hours\" = 4\n+++\nBody.\n"

def deleteFile : String :=
  "+++\nid = \"t1\"\nnote = \"a\\u007fb\"\n+++\nBody.\n"

theorem blankKey_and_delete_refused :
    (plainText lineToml blankKeyFile = true ∧
      TodoFile.parse lineToml plainFormats blankKeyFile = .ok (readOf blankKeyFile) ∧
      ¬(readOf blankKeyFile).RoundTrips lineToml plainFormats) ∧
    (plainText lineToml deleteFile = true ∧
      TodoFile.parse lineToml plainFormats deleteFile = .ok (readOf deleteFile) ∧
      ¬(readOf deleteFile).RoundTrips lineToml plainFormats) := by
  have hblank : ¬∀ field ∈ (readOf blankKeyFile).extra, Bare field.1.toList := by decide +kernel
  have hdelete : ¬∀ text ∈ (readOf deleteFile).texts, delete ∉ text.toList := by decide +kernel
  have hblankPlain : plainText lineToml blankKeyFile = true := by decide +kernel
  have hdeletePlain : plainText lineToml deleteFile = true := by decide +kernel
  refine ⟨⟨hblankPlain, parse_readOf (by decide +kernel), ?_⟩,
    ⟨hdeletePlain, parse_readOf (by decide +kernel), ?_⟩⟩
  · exact not_roundTrips (by decide +kernel) hblankPlain fun hwritable => hblank hwritable.bare
  · exact not_roundTrips (by decide +kernel) hdeletePlain fun hwritable =>
      hdelete hwritable.noDelete

def nestedFile : String :=
  "+++\nid = \"t1\"\nusage = \x7b \"a b\" = [1, \"\\n\"] \x7d\n+++\n\nBody.\n"

theorem roundTrips_iff_nested :
    TodoFile.parse lineToml plainFormats nestedFile = .ok (readOf nestedFile) ∧
      (readOf nestedFile).extra.map Prod.fst = ["usage"] ∧
      (readOf nestedFile).RoundTrips lineToml plainFormats := by
  have hparse := @parse_readOf nestedFile (by decide +kernel)
  exact ⟨hparse, by decide +kernel,
    (roundTrips_iff lineToml plainFormats (by decide +kernel) hparse).mpr
      ⟨by decide +kernel, by decide +kernel⟩⟩

end JeryuForge.Shift
