import JeryuForge.Library.Blocks

/-!
# Keys at the start of a line

A configuration text gives its keys at the start of a line: bare, between single quotes as
they are, or between double quotes with escapes.  A writer that puts each key down as it
stands, whatever it holds, is read back with its own keys only if each of them is bare.
-/

namespace KeyLines

open List

def isBare (char : Char) : Bool :=
  char.isAlphanum || char = '_' || char = '-'

def Bare (key : List Char) : Prop :=
  key ≠ [] ∧ ∀ char ∈ key, isBare char = true

instance (key : List Char) : Decidable (Bare key) := by
  unfold Bare
  infer_instance

/-- What may stand between the start of a line and its key: blanks, the brackets of a table's
header, and the mark some editors begin a file with. -/
def leads : List Char :=
  [' ', '\t', '[', Char.ofNat 0xFEFF]

/-- `Unescaped inner key`: between double quotes, `inner` stands for `key`.  What follows a
backslash is only said to be on one line and without blanks. -/
inductive Unescaped : List Char → List Char → Prop where
  | nil : Unescaped [] []
  | plain {char : Char} {inner key : List Char} : char ≠ '"' → char ≠ '\\' → char ≠ '\n' →
      Unescaped inner key → Unescaped (char :: inner) (char :: key)
  | escape {char : Char} {code inner key : List Char} :
      (∀ letter ∈ code, letter ≠ ' ' ∧ letter ≠ '\n') →
      Unescaped inner key → Unescaped ('\\' :: (code ++ inner)) (char :: key)

/-- `Spelled text key`: the text is one way to write the key. -/
inductive Spelled : List Char → List Char → Prop where
  | bare {key : List Char} : Bare key → Spelled key key
  | literal {key : List Char} : '\'' ∉ key → Spelled ('\'' :: (key ++ ['\''])) key
  | basic {inner key : List Char} : Unescaped inner key → Spelled ('"' :: (inner ++ ['"'])) key

def LineStart (before : List Char) : Prop :=
  ∃ earlier lead : List Char, before = earlier ++ lead ∧
    (earlier = [] ∨ ∃ lines, earlier = lines ++ ['\n']) ∧ ∀ char ∈ lead, char ∈ leads

/-- `Reads text keys`: the keys are spelled in the text in this order, each on a line of its
own. -/
inductive Reads : List Char → List (List Char) → Prop where
  | nil {text : List Char} : Reads text []
  | cons {before spelled key middle later : List Char} {keys : List (List Char)} :
      LineStart before → Spelled spelled key → (∀ char ∈ middle.head?, isBare char = false) →
      Reads later keys →
      Reads (before ++ (spelled ++ (middle ++ '\n' :: later))) (key :: keys)

variable {before later inner key more tail : List Char} {keys : List (List Char)} {line : Line}
  {lines : List Line}

theorem LineStart.prepend (h : LineStart before) (lines : List Char) :
    LineStart (lines ++ '\n' :: before) := by
  obtain ⟨earlier, lead, rfl, hearlier, hlead⟩ := h
  refine ⟨lines ++ '\n' :: earlier, lead, by simp, .inr ?_, hlead⟩
  rcases hearlier with rfl | ⟨more, rfl⟩
  · exact ⟨lines, rfl⟩
  · exact ⟨lines ++ '\n' :: more, by simp⟩

theorem Reads.prepend (h : Reads later keys) (lines : List Char) :
    Reads (lines ++ '\n' :: later) keys := by
  cases h with
  | nil => exact .nil
  | cons hstart hspelled hstop hlater =>
    have hreads := Reads.cons (hstart.prepend lines) hspelled hstop hlater
    rw [append_assoc, cons_append] at hreads
    exact hreads

theorem Reads.append {text : List Char} (h : Reads text keys) (more : List Char) :
    Reads (text ++ more) keys := by
  induction h with
  | nil => exact .nil
  | cons hstart hspelled hstop _ ih =>
    have hreads := Reads.cons hstart hspelled hstop ih
    simpa only [append_assoc, cons_append] using hreads

theorem Reads.sublist {text : List Char} {wanted : List (List Char)} (h : Reads text keys)
    (hsub : wanted.Sublist keys) : Reads text wanted := by
  induction h generalizing wanted with
  | nil =>
    rw [sublist_nil.mp hsub]
    exact .nil
  | @cons before spelled key middle later keys hstart hspelled hstop _ ih =>
    cases hsub with
    | cons _ hsub =>
      have hreads := (ih hsub).prepend (before ++ (spelled ++ middle))
      simpa only [append_assoc] using hreads
    | cons_cons _ hsub => exact .cons hstart hspelled hstop (ih hsub)

theorem Unescaped.length_le (h : Unescaped inner key) : key.length ≤ inner.length := by
  induction h with
  | nil => exact Nat.le_refl _
  | plain _ _ _ _ ih => exact Nat.succ_le_succ ih
  | escape _ _ ih =>
    simp only [length_cons, length_append]
    omega

theorem Unescaped.no_newline (h : Unescaped inner key) : '\n' ∉ inner := by
  induction h with
  | nil => exact not_mem_nil
  | plain _ _ hline _ ih =>
    simp only [mem_cons, not_or]
    exact ⟨Ne.symm hline, ih⟩
  | escape hcode _ ih =>
    simp only [mem_cons, mem_append, not_or]
    exact ⟨by decide, fun hmem => (hcode _ hmem).2 rfl, ih⟩

theorem Unescaped.split {text : List Char} (h : Unescaped text key) :
    ∀ {post more : List Char}, text = post ++ ' ' :: more →
      ∃ front back, Unescaped post front ∧ Unescaped (' ' :: more) back ∧ key = front ++ back := by
  induction h with
  | nil =>
    intro post more heq
    simp at heq
  | @plain char inner key hquote hslash hline hrest ih =>
    intro post more heq
    cases post with
    | nil =>
      injection heq with hchar hinner
      subst hchar hinner
      exact ⟨[], ' ' :: key, .nil, .plain hquote hslash hline hrest, rfl⟩
    | cons first post =>
      injection heq with hchar hinner
      subst hchar
      obtain ⟨front, back, hfront, hback, rfl⟩ := ih hinner
      exact ⟨char :: front, back, .plain hquote hslash hline hfront, hback, rfl⟩
  | @escape char code inner key hcode hrest ih =>
    intro post more heq
    cases post with
    | nil =>
      injection heq with hchar _
      exact absurd hchar (by decide)
    | cons first post =>
      injection heq with hchar hinner
      subst hchar
      rcases append_eq_append_cons hinner with ⟨extra, rfl, _⟩ | ⟨extra, hpost, hextra⟩
      · exact absurd rfl (hcode ' ' (by simp)).1
      · obtain ⟨front, back, hfront, hback, rfl⟩ := ih hextra
        rw [hpost]
        exact ⟨char :: front, back, .escape hcode hfront, hback, rfl⟩

def QuotesFirst : List Char → Prop
  | [] => True
  | char :: rest => char = '"' ∨ (char ≠ '\\' ∧ QuotesFirst rest)

theorem QuotesFirst.append {front back : List Char} (hfront : QuotesFirst front)
    (hback : QuotesFirst back) : QuotesFirst (front ++ back) := by
  induction front with
  | nil => exact hback
  | cons char front ih =>
    rcases hfront with hquote | ⟨hslash, hrest⟩
    · exact .inl hquote
    · exact .inr ⟨hslash, ih hrest⟩

theorem QuotesFirst.flatMap {α : Type} {items : List α} {write : α → List Char}
    (h : ∀ item ∈ items, QuotesFirst (write item)) : QuotesFirst (items.flatMap write) := by
  induction items with
  | nil => exact trivial
  | cons item items ih =>
    exact (h item mem_cons_self).append (ih (forall_mem_cons.mp h).2)

theorem quotesFirst_of_no_slash {text : List Char} (h : '\\' ∉ text) : QuotesFirst text := by
  induction text with
  | nil => exact trivial
  | cons char text ih =>
    simp only [mem_cons, not_or] at h
    exact .inr ⟨Ne.symm h.1, ih h.2⟩

theorem Unescaped.no_slash_of_quotesFirst (h : Unescaped inner key) :
    ∀ {more : List Char}, QuotesFirst (inner ++ more) → '\\' ∉ inner := by
  induction h with
  | nil =>
    intro more _
    exact not_mem_nil
  | plain hquote _ _ _ ih =>
    intro more hfirst
    rcases hfirst with hchar | ⟨hslash, hrest⟩
    · exact absurd hchar hquote
    · simp only [mem_cons, not_or]
      exact ⟨Ne.symm hslash, ih hrest⟩
  | escape _ _ _ =>
    intro more hfirst
    rcases hfirst with hchar | ⟨hslash, _⟩
    · exact absurd hchar (by decide)
    · exact absurd rfl hslash

theorem Unescaped.eq_of_no_slash (h : Unescaped inner key) (hslash : '\\' ∉ inner) :
    key = inner ∧ '"' ∉ inner := by
  induction h with
  | nil => exact ⟨rfl, not_mem_nil⟩
  | plain hquote _ _ _ ih =>
    simp only [mem_cons, not_or] at hslash ⊢
    obtain ⟨rfl, hnone⟩ := ih hslash.2
    exact ⟨rfl, Ne.symm hquote, hnone⟩
  | escape _ _ _ => exact absurd mem_cons_self hslash

theorem Unescaped.not_continued (hquote : '"' ∉ ' ' :: more)
    (hslash : '\\' ∉ ' ' :: more) (size : Nat) :
    ∀ {post front : List Char}, post.length ≤ size → Unescaped post front →
      before ++ '"' :: post ≠ front ++ ' ' :: more := by
  induction size with
  | zero =>
    intro post front hsize _ heq
    have hpost : post = [] := eq_nil_of_length_eq_zero (by omega)
    rw [hpost] at heq
    have hlast := congrArg getLast? heq
    rw [getLast?_append_of_ne_nil _ (by simp), getLast?_append_of_ne_nil _ (by simp)]
      at hlast
    exact hquote (mem_of_getLast? hlast.symm)
  | succ size ih =>
    intro post front hsize hunescaped heq
    rcases append_eq_append_cons heq with ⟨extra, _, hextra⟩ | ⟨extra, hfront, hextra⟩
    · exact hquote (by simp [hextra])
    · cases extra with
      | nil =>
        injection hextra with hchar _
        exact absurd hchar (by decide)
      | cons first extra =>
        injection hextra with hchar hpost
        subst hchar
        have hpost : post = extra ++ ' ' :: more := hpost
        obtain ⟨shorter, back, hshorter, hback, hkey⟩ := hunescaped.split hpost
        rw [(hback.eq_of_no_slash hslash).1] at hkey
        refine ih ?_ hshorter (hfront.symm.trans hkey)
        have hlength := congrArg length hpost
        simp only [length_append, length_cons] at hlength
        omega

structure Line where
  key : List Char
  value : List Char

def Line.text (line : Line) : List Char :=
  line.key ++ ' ' :: '=' :: ' ' :: (line.value ++ ['\n'])

def linesText (lines : List Line) : List Char :=
  lines.flatMap Line.text

structure Line.Written (line : Line) : Prop where
  oneLine : '\n' ∉ line.value
  quotesFirst : QuotesFirst line.value

theorem Line.key_of_newline (hline : '\n' ∉ line.value)
    {lines : List Char} (hshort : lines.length + 1 < line.text.length)
    (heq : line.text ++ tail = lines ++ '\n' :: more) :
    ∃ rest, line.key = lines ++ '\n' :: rest := by
  have hwhole : line.key ++ ((' ' :: '=' :: ' ' :: line.value) ++ '\n' :: tail) =
      lines ++ '\n' :: more := by
    simpa [Line.text] using heq
  rcases append_eq_append_cons hwhole with ⟨extra, hkey, _⟩ | ⟨extra, hlines, htext⟩
  · exact ⟨extra, hkey⟩
  · -- The newline is one behind the key, and the last of those is too far.
    rcases append_eq_append_cons htext with ⟨past, hvalue, _⟩ | ⟨past, hover, _⟩
    · have hmem : '\n' ∈ ' ' :: '=' :: ' ' :: line.value := by simp [hvalue]
      simp [hline] at hmem
    · rw [hlines, hover] at hshort
      simp [Line.text] at hshort
      omega

theorem Line.key_of_start (hline : '\n' ∉ line.value) {first : Char} (hstart : LineStart before)
    (hlead : first ∉ leads) (hequals : first ≠ '=') (hshort : before.length < line.text.length)
    (heq : line.text ++ tail = before ++ first :: more) :
    ∃ post, line.key = before ++ first :: post := by
  obtain ⟨earlier, lead, rfl, hearlier, hleads⟩ := hstart
  have hkey : ∃ rest, line.key = earlier ++ rest := by
    rcases hearlier with rfl | ⟨lines, rfl⟩
    · exact ⟨line.key, rfl⟩
    · have hlines : line.text ++ tail = lines ++ '\n' :: (lead ++ first :: more) := by
        simpa using heq
      obtain ⟨rest, hrest⟩ := Line.key_of_newline hline (by simp at hshort; omega) hlines
      exact ⟨rest, by simpa using hrest⟩
  obtain ⟨rest, hrest⟩ := hkey
  have htext :
      rest ++ ' ' :: '=' :: ' ' :: (line.value ++ '\n' :: tail) = lead ++ first :: more := by
    simpa [Line.text, hrest] using heq
  rcases append_eq_append_cons htext with ⟨extra, hextra, _⟩ | ⟨extra, hextra, hover⟩
  · exact ⟨extra, by simp [hrest, hextra]⟩
  · -- Behind the key stand a blank, which leads, and an equals sign, which does not.
    exfalso
    have hextraLeads : ∀ char ∈ extra, char ∈ leads := fun char hmem =>
      hleads char (hextra ▸ mem_append_right _ hmem)
    match extra, hover, hextraLeads with
    | [], hover, _ =>
      injection hover with hchar _
      exact hlead (hchar ▸ by decide)
    | [_], hover, _ =>
      injection hover with _ hover
      injection hover with hchar _
      exact hequals hchar.symm
    | _ :: second :: _, hover, hleads =>
      injection hover with _ hover
      injection hover with hchar _
      have hmem := hleads second (by simp)
      rw [← hchar] at hmem
      exact absurd hmem (by decide)

theorem Spelled.first_cases {spelled : List Char} (h : Spelled spelled key) :
    ∃ first rest, spelled = first :: rest ∧ (isBare first = true ∨ first = '\'' ∨ first = '"') := by
  cases h with
  | bare hbare =>
    obtain ⟨hne, hall⟩ := hbare
    obtain ⟨first, rest, rfl⟩ := exists_cons_of_ne_nil hne
    exact ⟨first, rest, rfl, .inl (hall first mem_cons_self)⟩
  | literal _ => exact ⟨_, _, rfl, .inr (.inl rfl)⟩
  | basic _ => exact ⟨_, _, rfl, .inr (.inr rfl)⟩

theorem leads_not_bare : ∀ char ∈ leads, isBare char = false := by
  decide

theorem not_lead_of_first {char : Char} (h : isBare char = true ∨ char = '\'' ∨ char = '"') :
    char ∉ leads ∧ char ≠ '=' := by
  have hequals : isBare '=' = false := by decide
  rcases h with hbare | rfl | rfl
  · constructor
    · intro hmem
      simp [leads_not_bare char hmem] at hbare
    · rintro rfl
      simp [hequals] at hbare
  · decide
  · decide

theorem Line.not_own_basic (hwritten : line.Written) {post : List Char}
    (hkey : line.key = before ++ '"' :: post) (hinner : Unescaped inner line.key)
    (heq : post ++ ' ' :: '=' :: ' ' :: (line.value ++ '\n' :: tail) = inner ++ '"' :: more) :
    False := by
  rcases append_eq_append_iff.mp heq with ⟨extra, hextra, hover⟩ | ⟨extra, hextra, hover⟩
  · -- The quotes close behind the key.
    cases extra with
    | nil =>
      injection hover with hchar _
      exact absurd hchar (by decide)
    | cons first extra =>
      injection hover with hchar hover
      subst hchar
      obtain ⟨front, back, hfront, hback, hsplit⟩ := hinner.split hextra
      have hslash : '\\' ∉ ' ' :: extra := by
        have hfirst : QuotesFirst (' ' :: '=' :: ' ' :: line.value) :=
          .inr ⟨by decide, .inr ⟨by decide, .inr ⟨by decide, hwritten.quotesFirst⟩⟩⟩
        have hline : (' ' :: '=' :: ' ' :: line.value) ++ '\n' :: tail =
            (' ' :: extra) ++ '"' :: more := congrArg (cons ' ') hover
        obtain ⟨past, hvalue, _⟩ := exists_append_of_not_mem hback.no_newline hline
        rw [hvalue] at hfirst
        exact hback.no_slash_of_quotesFirst hfirst
      obtain ⟨hplain, hquote⟩ := hback.eq_of_no_slash hslash
      rw [hplain] at hsplit
      exact Unescaped.not_continued hquote hslash post.length (Nat.le_refl _) hfront
        (hkey.symm.trans hsplit)
  · -- They close within it, and the key between them is shorter than itself.
    have hlength := hinner.length_le
    rw [hkey, hextra] at hlength
    simp only [length_append, length_cons] at hlength
    omega

theorem Line.bare_of_own (hwritten : line.Written)
    {spelled middle : List Char} (hstart : LineStart before)
    (hspelled : Spelled spelled line.key) (hshort : before.length < line.text.length)
    (heq : line.text ++ tail = before ++ (spelled ++ (middle ++ '\n' :: later))) :
    Bare line.key := by
  obtain ⟨first, rest, rfl, hfirst⟩ := hspelled.first_cases
  obtain ⟨hlead, hequals⟩ := not_lead_of_first hfirst
  obtain ⟨post, hpost⟩ := Line.key_of_start hwritten.oneLine hstart hlead hequals hshort heq
  have hbehind : post ++ ' ' :: '=' :: ' ' :: (line.value ++ '\n' :: tail) =
      rest ++ (middle ++ '\n' :: later) := by
    simpa [Line.text, hpost] using heq
  generalize hkey : line.key = key at hspelled
  cases hspelled with
  | bare hbare => exact hbare
  | literal hquote =>
    refine absurd ?_ hquote
    rw [← hkey, hpost]
    simp
  | basic hinner =>
    rw [← hkey] at hinner
    refine absurd hbehind fun hbehind => ?_
    rw [append_assoc] at hbehind
    exact Line.not_own_basic hwritten hpost hinner hbehind

theorem LineStart.of_line {extra : List Char} (hstart : LineStart (line.text ++ extra)) :
    LineStart extra := by
  obtain ⟨earlier, lead, heq, hearlier, hlead⟩ := hstart
  rcases append_eq_append_iff.mp heq with ⟨past, hover, hextra⟩ | ⟨past, hover, hextra⟩
  · refine ⟨past, lead, hextra, ?_, hlead⟩
    rcases eq_nil_or_concat past with hnil | ⟨front, last, hlast⟩
    · exact .inl hnil
    · refine .inr ⟨front, ?_⟩
      rcases hearlier with hnone | ⟨lines, hlines⟩
      · simp [hnone, hlast] at hover
      · rw [hlines, hlast, concat_eq_append, ← append_assoc] at hover
        rw [hlast, concat_eq_append, (append_inj' hover rfl).2]
  · -- The newline of the line is none of the characters before a key.
    rcases eq_nil_or_concat past with hnil | ⟨front, last, hlast⟩
    · rw [hnil, nil_append] at hextra
      exact ⟨[], extra, rfl, .inl rfl, fun char hmem => hlead char (hextra ▸ hmem)⟩
    · rw [hlast, concat_eq_append, ← append_assoc] at hover
      have htext : line.text = (line.key ++ ' ' :: '=' :: ' ' :: line.value) ++ ['\n'] := by
        simp [Line.text]
      have hnewline : '\n' = last := by
        simpa using (append_inj' (htext.symm.trans hover) rfl).2
      have hmem : '\n' ∈ leads := by
        refine hlead _ ?_
        rw [hextra, hlast, hnewline]
        simp
      exact absurd hmem (by decide)

theorem Reads.of_line (h : Reads (line.text ++ tail) (key :: keys)) :
    Reads tail (key :: keys) ∨
      ∃ before spelled middle later, LineStart before ∧ Spelled spelled key ∧
        (∀ char ∈ middle.head?, isBare char = false) ∧ Reads later keys ∧
        before.length < line.text.length ∧
        line.text ++ tail = before ++ (spelled ++ (middle ++ '\n' :: later)) := by
  generalize htext : line.text ++ tail = text at h
  cases h with
  | @cons before spelled _ middle later _ hstart hspelled hstop hlater =>
    by_cases hshort : before.length < line.text.length
    · exact .inr ⟨before, spelled, middle, later, hstart, hspelled, hstop, hlater, hshort, rfl⟩
    · have hline : line.text <+: before ++ (spelled ++ (middle ++ '\n' :: later)) :=
        ⟨tail, htext⟩
      obtain ⟨extra, rfl⟩ := prefix_of_prefix_length_le hline (prefix_append before _) (by omega)
      rw [append_assoc] at htext
      rw [append_cancel_left htext]
      exact .inl (.cons hstart.of_line hspelled hstop hlater)

theorem LineStart.eq_nil_of_bare (hstart : LineStart before)
    (hbare : ∀ char ∈ before, isBare char = true) : before = [] := by
  obtain ⟨earlier, lead, rfl, hearlier, hlead⟩ := hstart
  have hnoLead : lead = [] := by
    refine eq_nil_iff_forall_not_mem.mpr fun char hmem => ?_
    have hchar := hbare char (mem_append_right _ hmem)
    rw [leads_not_bare char (hlead char hmem)] at hchar
    cases hchar
  rcases hearlier with rfl | ⟨lines, rfl⟩
  · exact hnoLead
  · have hnewline : isBare '\n' = true := hbare _ (by simp)
    exact absurd hnewline (by decide)

theorem Reads.of_newline {written middle : List Char} (hwritten : '\n' ∉ written)
    (heq : written ++ '\n' :: tail = middle ++ '\n' :: later) (h : Reads later keys) :
    Reads tail keys := by
  obtain ⟨past, -, hrest⟩ := exists_append_of_not_mem hwritten heq.symm
  cases past with
  | nil =>
    injection hrest with _ htail
    rw [← htail]
    exact h
  | cons first past =>
    injection hrest with _ htail
    rw [← htail]
    exact h.prepend past

theorem Reads.of_bare_line (hline : '\n' ∉ line.value) (hbare : Bare line.key)
    (h : Reads (line.text ++ tail) (key :: keys)) :
    Reads tail (key :: keys) ∨ (key = line.key ∧ Reads tail keys) := by
  rcases h.of_line with hbehind | ⟨before, spelled, middle, later, hstart, hspelled, hstop, hlater,
    hshort, heq⟩
  · exact .inl hbehind
  refine .inr ?_
  obtain ⟨first, rest, hfirst, hcases⟩ := hspelled.first_cases
  obtain ⟨hlead, hequals⟩ := not_lead_of_first hcases
  obtain ⟨post, hpost⟩ := Line.key_of_start hline hstart hlead hequals hshort (hfirst ▸ heq)
  have hbefore : before = [] := hstart.eq_nil_of_bare fun char hmem =>
    hbare.2 char (hpost ▸ mem_append_left _ hmem)
  have hfirstBare : isBare first = true := hbare.2 first (by rw [hpost]; simp)
  have hkey : Bare key ∧ spelled = key := by
    cases hspelled with
    | bare hkey => exact ⟨hkey, rfl⟩
    | literal | basic =>
      injection hfirst with hquote _
      rw [← hquote] at hfirstBare
      exact absurd hfirstBare (by decide)
  have hwhole : line.key ++ ((' ' :: '=' :: ' ' :: line.value) ++ '\n' :: tail) =
      key ++ (middle ++ '\n' :: later) := by
    simpa [Line.text, hbefore, hkey.2] using heq
  have hblank : ∀ char ∈ ((' ' :: '=' :: ' ' :: line.value) ++ '\n' :: tail).head?,
      isBare char = false := by
    intro char hmem
    cases hmem
    decide
  have hnewline : ∀ char ∈ (middle ++ '\n' :: later).head?, isBare char = false := by
    cases middle with
    | nil =>
      intro char hmem
      cases hmem
      decide
    | cons char middle => exact hstop
  obtain ⟨hsame, hrest⟩ := append_inj_of_span hbare.2 hkey.1.2 hblank hnewline hwhole
  refine ⟨hsame.symm, hlater.of_newline ?_ hrest⟩
  simpa using hline

theorem Reads.of_own_line (hwritten : line.Written)
    (h : Reads (line.text ++ tail) (line.key :: keys)) :
    Reads tail (line.key :: keys) ∨ (Bare line.key ∧ Reads tail keys) := by
  by_cases hbare : Bare line.key
  · rcases h.of_bare_line hwritten.oneLine hbare with hbehind | ⟨_, hkeys⟩
    · exact .inl hbehind
    · exact .inr ⟨hbare, hkeys⟩
  · rcases h.of_line with hbehind | ⟨before, spelled, middle, later, hstart, hspelled, _, _, hshort,
      heq⟩
    · exact .inl hbehind
    · exact absurd (Line.bare_of_own hwritten hstart hspelled hshort heq) hbare

theorem linesText_cons (line : Line) (lines : List Line) :
    linesText (line :: lines) = line.text ++ linesText lines :=
  rfl

theorem not_reads_more (hwritten : ∀ line ∈ lines, line.Written) :
    ∀ extra, ¬Reads (linesText lines) (extra :: lines.map Line.key) := by
  induction lines with
  | nil =>
    intro extra h
    generalize htext : linesText [] = text at h
    cases h
    simp [linesText] at htext
  | cons line lines ih =>
    intro extra h
    obtain ⟨hline, hrest⟩ := forall_mem_cons.mp hwritten
    have hlines := ih hrest
    by_cases hbare : Bare line.key
    · rcases h.of_bare_line hline.oneLine hbare with hbehind | ⟨_, hkeys⟩
      · exact hlines line.key (hbehind.sublist (sublist_cons_self _ _))
      · exact hlines line.key hkeys
    · rcases (h.sublist (sublist_cons_self _ _)).of_own_line hline with hbehind | ⟨h, _⟩
      · exact hlines line.key hbehind
      · exact hbare h

theorem bare_of_reads (hwritten : ∀ line ∈ lines, line.Written)
    (h : Reads (linesText lines) (lines.map Line.key)) : ∀ line ∈ lines, Bare line.key := by
  induction lines with
  | nil => exact nofun
  | cons line lines ih =>
    obtain ⟨hline, hlines⟩ := forall_mem_cons.mp hwritten
    rcases h.of_own_line hline with hbehind | ⟨hbare, hkeys⟩
    · exact absurd hbehind (not_reads_more hlines line.key)
    · exact forall_mem_cons.mpr ⟨hbare, ih hlines hkeys⟩

theorem Reads.behind (hlines : ∀ line ∈ lines, '\n' ∉ line.value ∧ Bare line.key)
    (hkeys : ∀ line ∈ lines, line.key ∉ keys) (h : Reads (linesText lines ++ tail) keys) :
    Reads tail keys := by
  cases keys with
  | nil => exact .nil
  | cons key keys =>
    induction lines with
    | nil => exact h
    | cons line lines ih =>
      obtain ⟨⟨hline, hbare⟩, hlines⟩ := forall_mem_cons.mp hlines
      obtain ⟨hother, hkeys⟩ := forall_mem_cons.mp hkeys
      rw [linesText_cons, append_assoc] at h
      rcases h.of_bare_line hline hbare with hbehind | ⟨hkey, _⟩
      · exact ih hlines hkeys hbehind
      · exact absurd (hkey ▸ mem_cons_self) hother

end KeyLines
