import JeryuForge.Text

/-!
# The origin of an audience

A token carries the origin of the audience it was issued for, and a verifier reads that
origin as an audience again.  What the second reading gives is the host as it is shown,
read once more; for which hosts that is the same host is decided here.
-/

namespace JeryuForge.BotToken

open List

open Text (isWhitespace trimMatches)

abbrev Chars := List Char

def trim (text : Chars) : Chars :=
  trimMatches isWhitespace text

def splitOnce : Chars → Char → Option (Chars × Chars)
  | [], _ => none
  | char :: rest, separator =>
    if char = separator then
      some ([], rest)
    else
      (splitOnce rest separator).map fun parts => (char :: parts.1, parts.2)

def rsplitOnce (text : Chars) (separator : Char) : Option (Chars × Chars) :=
  (splitOnce text.reverse separator).map fun parts => (parts.2.reverse, parts.1.reverse)

def portDigits (port : Chars) : Bool :=
  !port.isEmpty && port.all Char.isDigit

def splitHostPort : Chars → Option (Chars × Option Chars)
  | '[' :: rest =>
    match splitOnce rest ']' with
    | none => none
    | some (host, after) =>
      if host.isEmpty then
        none
      else
        match after with
        | [] => some (host, none)
        | ':' :: port => if portDigits port then some (host, some port) else none
        | _ => none
  | authority =>
    if 1 < authority.count ':' then
      none
    else
      match rsplitOnce authority ':' with
      | some (host, port) =>
        if !host.isEmpty && portDigits port then some (host, some port) else none
      | none => if authority.isEmpty then none else some (authority, none)

def isLoopback (host : Chars) : Bool :=
  host = "127.0.0.1".toList || host = "localhost".toList || host = "::1".toList

def schemeText (https : Bool) : Chars :=
  if https then "https://".toList else "http://".toList

/-- How a host is shown in an origin: of the addresses with brackets only `::1` has them. -/
def shown (host : Chars) : Chars :=
  if host = "::1".toList then "[::1]".toList else host

def origin (host : Chars) : Chars :=
  schemeText (!isLoopback host) ++ shown host

/-- As `http` documents `HeaderValue::to_str`: the text, if it is visible ASCII, blanks and tabs
included, and an error otherwise. -/
def toStr (header : List UInt8) : Option Chars :=
  if header.all fun byte => (32 ≤ byte && byte < 127) || byte = 9 then
    some (header.map fun byte => Char.ofNat byte.toNat)
  else
    none

def requestAudience (header : List UInt8) : Option Chars := do
  let host := trim (← toStr header)
  if host.isEmpty || host.any isWhitespace then
    none
  else
    (splitHostPort host).map fun parts => origin parts.1

def normalizeAudience (audience : Chars) : Chars :=
  let trimmed := trim audience
  if trimmed.getLast? = some '/' then trimmed.dropLast else trimmed

def stripScheme (audience : Chars) : Option (Bool × Chars) :=
  if (schemeText true).isPrefixOf audience then
    some (true, audience.drop (schemeText true).length)
  else if (schemeText false).isPrefixOf audience then
    some (false, audience.drop (schemeText false).length)
  else
    none

/-- `str::len`, in bytes. -/
def byteLength (text : Chars) : Nat :=
  (text.map Char.utf8Size).sum

def badChar (char : Char) : Bool :=
  isWhitespace char || char = '?' || char = '#' || char = '\\' || char = '@'

def acceptableAudience (audience : Chars) : Bool :=
  let audience := normalizeAudience audience
  if 200 < byteLength audience || audience.any badChar then
    false
  else
    match stripScheme audience with
    | none => false
    | some (https, rest) =>
      if rest.isEmpty || '/' ∈ rest then
        false
      else
        match splitHostPort rest with
        | none => false
        | some (host, _) => if https then !host.isEmpty else isLoopback host

/-- Accept `https` origins and loopback `http`, then drop the port. -/
def canonicalAudience (audience : Chars) : Option Chars :=
  let audience := normalizeAudience audience
  if acceptableAudience audience then do
    let (_, rest) ← stripScheme audience
    let (host, _) ← splitHostPort rest
    return origin host
  else
    none

/-! ## Authorities -/

def IsPort (text : Chars) : Prop :=
  text = [] ∨ ∃ digits, text = ':' :: digits ∧ portDigits digits = true

/-- A text spells a host, with any port or none: as it is, if it has no colon, or between
brackets. -/
inductive SpellsHost : Chars → Chars → Prop
  | plain {host port : Chars} (hne : host ≠ []) (hcolon : ':' ∉ host)
      (hhead : host.head? ≠ some '[') (hport : IsPort port) : SpellsHost (host ++ port) host
  | bracketed {host port : Chars} (hne : host ≠ []) (hclose : ']' ∉ host)
      (hport : IsPort port) : SpellsHost ('[' :: (host ++ ']' :: port)) host

section Authorities

variable {text host : Chars} {separator : Char} {port : Option Chars}

variable {before after digits : Chars}

theorem splitOnce_append (hbefore : separator ∉ before) :
    splitOnce (before ++ separator :: after) separator = some (before, after) := by
  induction before with
  | nil => simp [splitOnce]
  | cons char before ih =>
    simp only [mem_cons, not_or] at hbefore
    simp [splitOnce, ih hbefore.2, Ne.symm hbefore.1]

theorem splitOnce_eq_some_iff :
    splitOnce text separator = some (before, after) ↔
      text = before ++ separator :: after ∧ separator ∉ before := by
  refine ⟨fun hsplit => ?_, fun ⟨htext, hbefore⟩ => htext ▸ splitOnce_append hbefore⟩
  induction text generalizing before with
  | nil => cases hsplit
  | cons char rest ih =>
    rw [splitOnce] at hsplit
    split at hsplit
    next hchar =>
      cases hsplit
      exact ⟨by rw [hchar]; rfl, not_mem_nil⟩
    next hchar =>
      obtain ⟨⟨front, back⟩, hrest, hparts⟩ := Option.map_eq_some_iff.mp hsplit
      cases hparts
      obtain ⟨rfl, hfront⟩ := ih hrest
      exact ⟨rfl, not_mem_cons_of_ne_of_not_mem (Ne.symm hchar) hfront⟩

theorem splitOnce_eq_none_iff : splitOnce text separator = none ↔ separator ∉ text := by
  induction text with
  | nil => simp [splitOnce]
  | cons char rest ih =>
    unfold splitOnce
    by_cases hchar : char = separator
    · simp [hchar]
    · simp [hchar, ih, Ne.symm hchar]

theorem rsplitOnce_eq_some_iff :
    rsplitOnce text separator = some (before, after) ↔
      text = before ++ separator :: after ∧ separator ∉ after := by
  unfold rsplitOnce
  rw [Option.map_eq_some_iff]
  constructor
  · rintro ⟨⟨first, second⟩, hsplit, hparts⟩
    cases hparts
    obtain ⟨hreverse, hfirst⟩ := splitOnce_eq_some_iff.mp hsplit
    refine ⟨?_, by simpa using hfirst⟩
    rw [← text.reverse_reverse, hreverse]
    simp
  · rintro ⟨rfl, hafter⟩
    refine ⟨(after.reverse, before.reverse), ?_, by simp⟩
    rw [splitOnce_eq_some_iff]
    exact ⟨by simp, by simpa using hafter⟩

theorem rsplitOnce_eq_none_iff : rsplitOnce text separator = none ↔ separator ∉ text := by
  unfold rsplitOnce
  rw [Option.map_eq_none_iff, splitOnce_eq_none_iff, mem_reverse]

theorem portDigits_cons (hdigits : portDigits digits = true) :
    digits ≠ [] ∧ ∀ digit ∈ digits, digit.isDigit = true := by
  unfold portDigits at hdigits
  simp only [Bool.and_eq_true, Bool.not_eq_true', isEmpty_eq_false_iff, all_eq_true] at hdigits
  exact hdigits

theorem colon_notMem_digits (hdigits : portDigits digits = true) : ':' ∉ digits := by
  intro hcolon
  cases (portDigits_cons hdigits).2 ':' hcolon

theorem spellsHost_of_bracketed {rest : Chars}
    (hsplit : splitHostPort ('[' :: rest) = some (host, port)) :
    SpellsHost ('[' :: rest) host := by
  rw [splitHostPort] at hsplit
  split at hsplit
  · cases hsplit
  next found after hcut =>
    obtain ⟨rfl, hclose⟩ := splitOnce_eq_some_iff.mp hcut
    split at hsplit
    · cases hsplit
    next hne =>
      rw [List.isEmpty_iff] at hne
      split at hsplit
      · cases hsplit
        exact .bracketed hne hclose (.inl rfl)
      · split at hsplit
        next digits hdigits =>
          cases hsplit
          exact .bracketed hne hclose (.inr ⟨_, rfl, hdigits⟩)
        · cases hsplit
      · cases hsplit

theorem spellsHost_of_plain (hhead : text.head? ≠ some '[')
    (hsplit : splitHostPort text = some (host, port)) : SpellsHost text host := by
  rw [splitHostPort.eq_def] at hsplit
  split at hsplit
  · exact absurd rfl hhead
  · split at hsplit
    · cases hsplit
    next hcount =>
      split at hsplit
      next found digits hcut =>
        split at hsplit
        next hparts =>
          cases hsplit
          obtain ⟨rfl, -⟩ := rsplitOnce_eq_some_iff.mp hcut
          rw [Bool.and_eq_true, Bool.not_eq_true', isEmpty_eq_false_iff] at hparts
          have hcolon : ':' ∉ host := by
            rw [← count_eq_zero]
            rw [count_append, count_cons_self] at hcount
            omega
          refine .plain hparts.1 hcolon ?_ (.inr ⟨digits, rfl, hparts.2⟩)
          rwa [List.head?_append_of_ne_nil _ hparts.1] at hhead
        · cases hsplit
      next hcut =>
        split at hsplit
        · cases hsplit
        next hne =>
          cases hsplit
          rw [List.isEmpty_iff] at hne
          have hspells := SpellsHost.plain hne (rsplitOnce_eq_none_iff.mp hcut) hhead (.inl rfl)
          rwa [append_nil] at hspells

theorem splitHostPort_of_head (hhead : text.head? ≠ some '[') (hcount : text.count ':' ≤ 1)
    (hsplit : (match rsplitOnce text ':' with
      | some (host, port) =>
        if !host.isEmpty && portDigits port then some (host, some port) else none
      | none => if text.isEmpty then none else some (text, none)) = some (host, port)) :
    splitHostPort text = some (host, port) := by
  rw [splitHostPort.eq_def]
  split
  · exact absurd rfl hhead
  · rw [if_neg (not_lt.mpr hcount)]
    exact hsplit

theorem splitHostPort_iff :
    (∃ port, splitHostPort text = some (host, port)) ↔ SpellsHost text host := by
  constructor
  · rintro ⟨port, hsplit⟩
    cases text with
    | nil => exact spellsHost_of_plain (by simp) hsplit
    | cons char rest =>
      by_cases hchar : char = '['
      · subst hchar
        exact spellsHost_of_bracketed hsplit
      · exact spellsHost_of_plain (by simpa using hchar) hsplit
  · intro hspells
    cases hspells with
    | plain hne hcolon hhead hport =>
      rcases hport with rfl | ⟨digits, rfl, hdigits⟩
      · refine ⟨none, ?_⟩
        rw [append_nil]
        refine splitHostPort_of_head hhead (by simp [count_eq_zero.mpr hcolon]) ?_
        rw [rsplitOnce_eq_none_iff.mpr hcolon]
        simp [hne]
      · refine ⟨some digits, ?_⟩
        have hcount := count_eq_zero.mpr (colon_notMem_digits hdigits)
        refine splitHostPort_of_head ?_ ?_ ?_
        · rwa [head?_append_of_ne_nil _ hne]
        · rw [count_append, count_cons_self, count_eq_zero.mpr hcolon, hcount]
        · rw [rsplitOnce_eq_some_iff.mpr ⟨rfl, colon_notMem_digits hdigits⟩]
          simp [hne, hdigits]
    | @bracketed _ port hne hclose hport =>
      have hcut : splitOnce (host ++ ']' :: port) ']' = some (host, port) :=
        splitOnce_eq_some_iff.mpr ⟨rfl, hclose⟩
      rcases hport with rfl | ⟨digits, rfl, hdigits⟩
      · exact ⟨none, by simp [splitHostPort, hcut, hne]⟩
      · exact ⟨some digits, by simp [splitHostPort, hcut, hne, hdigits]⟩

section SpellsHost

variable (hhost : SpellsHost text host)
include hhost

theorem SpellsHost.unique {other : Chars} (hother : SpellsHost text other) : host = other := by
  obtain ⟨port, hsplit⟩ := splitHostPort_iff.mpr hhost
  obtain ⟨port', hsplit'⟩ := splitHostPort_iff.mpr hother
  rw [hsplit] at hsplit'
  exact (Prod.mk.inj (Option.some.inj hsplit')).1

theorem SpellsHost.map_fst {β : Type} (f : Chars → β) :
    ((splitHostPort text).map fun parts => f parts.1) = some (f host) := by
  obtain ⟨port, hsplit⟩ := splitHostPort_iff.mpr hhost
  rw [hsplit]
  rfl

theorem SpellsHost.ne_nil : host ≠ [] := by
  cases hhost with
  | plain hne _ _ _ => exact hne
  | bracketed hne _ _ => exact hne

theorem SpellsHost.mem {char : Char} (hchar : char ∈ host) : char ∈ text := by
  cases hhost with
  | plain _ _ _ _ => exact mem_append_left _ hchar
  | bracketed _ _ _ => exact mem_cons_of_mem _ (mem_append_left _ hchar)

theorem SpellsHost.mem_text {char : Char} (hchar : char ∈ text) :
    char ∈ host ∨ char = '[' ∨ char = ']' ∨ char = ':' ∨ char.isDigit = true := by
  have hport : ∀ {port : Chars}, IsPort port → char ∈ port →
      char = ':' ∨ char.isDigit = true := by
    rintro port (rfl | ⟨digits, rfl, hdigits⟩) hmem
    · cases hmem
    · rcases mem_cons.mp hmem with rfl | hdigit
      · exact .inl rfl
      · exact .inr ((portDigits_cons hdigits).2 char hdigit)
  cases hhost with
  | plain _ _ _ hisPort =>
    rcases mem_append.mp hchar with hmem | hmem
    · exact .inl hmem
    · exact .inr (.inr (.inr (hport hisPort hmem)))
  | bracketed _ _ hisPort =>
    rcases mem_cons.mp hchar with rfl | hmem
    · exact .inr (.inl rfl)
    · rcases mem_append.mp hmem with hmem | hmem
      · exact .inl hmem
      · rcases mem_cons.mp hmem with rfl | hmem
        · exact .inr (.inr (.inl rfl))
        · exact .inr (.inr (.inr (hport hisPort hmem)))

end SpellsHost

end Authorities

open Text (isWhitespace trimMatches)

def padding (char : Char) : Bool :=
  isWhitespace char || char = '/'

/-- The host an audience names: after blanks and a scheme stands an authority that spells
it, and only padding follows. -/
def NamesHost (audience host : Chars) : Prop :=
  ∃ before https authority after,
    audience = before ++ (schemeText https ++ (authority ++ after)) ∧
      (∀ char ∈ before, isWhitespace char = true) ∧
      (∀ char ∈ authority, padding char = false) ∧
      (∀ char ∈ after, padding char = true) ∧ SpellsHost authority host

def ReadsBack (host : Chars) : Prop :=
  host = "::1".toList ∨ (':' ∉ host ∧ host.head? ≠ some '[')

instance (host : Chars) : Decidable (ReadsBack host) :=
  inferInstanceAs (Decidable (_ ∨ _))

section Blanks

theorem trim_append {before middle after : Chars}
    (hbefore : ∀ char ∈ before, isWhitespace char = true)
    (hafter : ∀ char ∈ after, isWhitespace char = true)
    (hhead : ∀ char ∈ middle.head?, isWhitespace char = false) (hne : middle ≠ [])
    (hlast : ∀ char ∈ middle.getLast?, isWhitespace char = false) :
    trim (before ++ (middle ++ after)) = middle := by
  have hdrop : (before ++ (middle ++ after)).dropWhile isWhitespace = middle ++ after := by
    refine (span_append hbefore ?_).2
    rwa [head?_append_of_ne_nil _ hne]
  have hreverse : (after.reverse ++ middle.reverse).dropWhile isWhitespace = middle.reverse := by
    refine (span_append (by simpa using hafter) ?_).2
    rwa [head?_reverse]
  unfold trim trimMatches
  rw [hdrop, rdropWhile, reverse_append, hreverse, reverse_reverse]

theorem trim_of_no_blanks {text : Chars} (htext : ∀ char ∈ text, isWhitespace char = false) :
    trim text = text := by
  by_cases hne : text = []
  · rw [hne]
    rfl
  · have htrim := @trim_append [] text [] (by simp) (by simp)
      (fun char hchar => htext char (mem_of_mem_head? hchar)) hne
      (fun char hchar => htext char (mem_of_mem_getLast? hchar))
    simpa using htrim

theorem trim_decomposes (text : Chars) :
    ∃ before after, text = before ++ (trim text ++ after) ∧
      (∀ char ∈ before, isWhitespace char = true) ∧
      ∀ char ∈ after, isWhitespace char = true := by
  refine ⟨text.takeWhile isWhitespace,
    (text.dropWhile isWhitespace).rtakeWhile isWhitespace, ?_, ?_, ?_⟩
  · unfold trim trimMatches
    rw [rdropWhile_append_rtakeWhile, takeWhile_append_dropWhile]
  · exact fun char hchar => mem_takeWhile_imp hchar
  · exact fun char hchar => mem_rtakeWhile_imp hchar

def IsEnding (text : Chars) : Prop :=
  ∃ slash blanks, text = slash ++ blanks ∧ (slash = [] ∨ slash = ['/']) ∧
    ∀ char ∈ blanks, isWhitespace char = true

theorem IsEnding.padding {text : Chars} (hending : IsEnding text) :
    ∀ char ∈ text, padding char = true := by
  obtain ⟨slash, blanks, rfl, hslash, hblanks⟩ := hending
  intro char hchar
  rcases mem_append.mp hchar with hmem | hmem
  · rcases hslash with rfl | rfl
    · cases hmem
    · obtain rfl := mem_singleton.mp hmem
      rfl
  · simp [BotToken.padding, hblanks char hmem]

theorem normalizeAudience_decomposes (audience : Chars) :
    ∃ before after, audience = before ++ (normalizeAudience audience ++ after) ∧
      (∀ char ∈ before, isWhitespace char = true) ∧ IsEnding after := by
  obtain ⟨before, after, htext, hbefore, hafter⟩ := trim_decomposes audience
  unfold normalizeAudience
  dsimp only
  split
  next hslash =>
    refine ⟨before, '/' :: after, ?_, hbefore, ['/'], after, rfl, .inr rfl, hafter⟩
    have hlast := dropLast_append_getLast? '/' hslash
    rw [← singleton_append, ← append_assoc _ ['/'], hlast]
    exact htext
  · exact ⟨before, after, htext, hbefore, [], after, rfl, .inl rfl, hafter⟩

theorem normalizeAudience_append {before middle after : Chars}
    (hbefore : ∀ char ∈ before, isWhitespace char = true) (hafter : IsEnding after)
    (hmiddle : ∀ char ∈ middle, isWhitespace char = false) (hne : middle ≠ [])
    (hlast : middle.getLast? ≠ some '/') :
    normalizeAudience (before ++ (middle ++ after)) = middle := by
  obtain ⟨slash, blanks, rfl, hslash, hblanks⟩ := hafter
  have hinside : ∀ char ∈ middle ++ slash, isWhitespace char = false := by
    intro char hchar
    rcases mem_append.mp hchar with hmem | hmem
    · exact hmiddle char hmem
    · rcases hslash with rfl | rfl
      · cases hmem
      · obtain rfl := mem_singleton.mp hmem
        decide
  have htrim : trim (before ++ (middle ++ (slash ++ blanks))) = middle ++ slash := by
    rw [← append_assoc middle]
    exact trim_append hbefore hblanks
      (fun char hchar => hinside char (mem_of_mem_head? hchar)) (by simp [hne])
      (fun char hchar => hinside char (mem_of_mem_getLast? hchar))
  unfold normalizeAudience
  rw [htrim]
  rcases hslash with rfl | rfl
  · rw [append_nil, if_neg hlast]
  · rw [if_pos (by simp), dropLast_concat]

end Blanks

section Schemes

theorem stripScheme_append (https : Bool) (rest : Chars) :
    stripScheme (schemeText https ++ rest) = some (https, rest) := by
  cases https with
  | true | false => simp [stripScheme, schemeText]

theorem stripScheme_eq_some {audience rest : Chars} {https : Bool}
    (hstrip : stripScheme audience = some (https, rest)) : audience = schemeText https ++ rest := by
  have hcut : ∀ scheme : Chars, scheme.isPrefixOf audience = true →
      audience = scheme ++ audience.drop scheme.length :=
    fun scheme hscheme => (prefix_iff_eq_append.mp ( isPrefixOf_iff_prefix.mp hscheme)).symm
  unfold stripScheme at hstrip
  split at hstrip
  next hscheme =>
    cases hstrip
    exact hcut _ hscheme
  · split at hstrip
    next hscheme =>
      cases hstrip
      exact hcut _ hscheme
    · cases hstrip

theorem head?_schemeText (https : Bool) (rest : Chars) :
    (schemeText https ++ rest).head? = some 'h' := by
  cases https with
  | true | false => rfl

theorem good_schemeText : ∀ https, ∀ char ∈ schemeText https, badChar char = false := by
  decide

theorem shown_of_not_loopback {host : Chars} (hhost : isLoopback host = false) :
    shown host = host := by
  unfold shown
  rw [if_neg]
  rintro rfl
  cases hhost

theorem origin_injective : Function.Injective origin := by
  intro first second hsame
  have hschemes : isLoopback first = isLoopback second := by
    have hstrip := congrArg stripScheme hsame
    unfold origin at hstrip
    rw [stripScheme_append, stripScheme_append] at hstrip
    exact Bool.not_inj (Prod.mk.inj (Option.some.inj hstrip)).1
  have hshown : shown first = shown second := by
    unfold origin at hsame
    rw [hschemes] at hsame
    exact append_cancel_left hsame
  -- `::1` is shown with brackets, and no loopback host is written with them.
  have hother : ∀ host, isLoopback host = true → host ≠ "[::1]".toList := by
    rintro host hloopback rfl
    exact absurd hloopback (by decide +kernel)
  have hloopback : isLoopback "::1".toList = true := by decide +kernel
  unfold shown at hshown
  split at hshown
  next hfirst =>
    split at hshown
    next hsecond =>
      exact hfirst.trans hsecond.symm
    · rw [hfirst, hloopback] at hschemes
      exact absurd hshown.symm (hother second hschemes.symm)
  · split at hshown
    next hsecond =>
      rw [hsecond, hloopback] at hschemes
      exact absurd hshown (hother first hschemes)
    · exact hshown

theorem SpellsHost.self {text host : Chars} (hspells : SpellsHost text host) (hsame : text = host) :
    ':' ∉ host ∧ host.head? ≠ some '[' := by
  cases hspells with
  | plain _ hcolon hhead _ => exact ⟨hcolon, hhead⟩
  | bracketed _ _ _ =>
    have hlength := congrArg length hsame
    simp only [length_cons, length_append] at hlength
    omega

theorem spellsHost_shown_iff {host : Chars} (hne : host ≠ []) :
    SpellsHost (shown host) host ↔ ReadsBack host := by
  unfold shown ReadsBack
  split
  next hsame =>
    subst hsame
    exact ⟨fun _ => .inl rfl,
      fun _ => @SpellsHost.bracketed "::1".toList [] (by decide) (by decide) (.inl rfl)⟩
  next hother =>
    constructor
    · exact fun hspells => .inr (hspells.self rfl)
    · rintro (hsame | ⟨hcolon, hhead⟩)
      · exact absurd hsame hother
      · have hspells := SpellsHost.plain hne hcolon hhead (.inl rfl)
        rwa [append_nil] at hspells

end Schemes

def Clean (text : Chars) : Prop :=
  ∀ char ∈ text, badChar char = false ∧ char ≠ '/'

section Reading

variable {audience authority after host : Chars} {https : Bool}

theorem not_blank_of_good {char : Char} (hgood : badChar char = false) :
    isWhitespace char = false := by
  unfold badChar at hgood
  simp only [Bool.or_eq_false_iff] at hgood
  exact hgood.1.1.1.1

theorem not_blank_url (hclean : Clean authority) :
    ∀ char ∈ schemeText https ++ authority, isWhitespace char = false := by
  intro char hchar
  rcases mem_append.mp hchar with hmem | hmem
  · exact not_blank_of_good (good_schemeText https char hmem)
  · exact not_blank_of_good (hclean char hmem).1

theorem normalizeAudience_url (hclean : Clean authority) (hne : authority ≠ [])
    (hafter : IsEnding after) :
    normalizeAudience (schemeText https ++ (authority ++ after)) =
      schemeText https ++ authority := by
  rw [← append_assoc]
  refine @normalizeAudience_append [] _ after (by simp) hafter (not_blank_url hclean)
    (by simp [hne]) fun hlast => ?_
  rw [getLast?_append_of_ne_nil _ hne] at hlast
  exact (hclean '/' (mem_of_mem_getLast? hlast)).2 rfl

theorem isEnding_nil : IsEnding [] :=
  ⟨[], [], rfl, .inl rfl, by simp⟩

/-- An audience is accepted if its authority is clean and spells a host, which has to be
a loopback host for `http`. -/
theorem acceptableAudience_url (hclean : Clean authority) (hne : authority ≠ [])
    (hlength : byteLength (schemeText https ++ authority) ≤ 200) :
    acceptableAudience (schemeText https ++ authority) =
      ((splitHostPort authority).any fun parts => https || isLoopback parts.1) := by
  have hnormal : normalizeAudience (schemeText https ++ authority) =
      schemeText https ++ authority := by
    have hurl := @normalizeAudience_url authority [] https hclean hne isEnding_nil
    rwa [append_nil] at hurl
  have hgood : (schemeText https ++ authority).any badChar = false := by
    rw [any_eq_false]
    intro char hchar
    rcases mem_append.mp hchar with hmem | hmem
    · simp [good_schemeText https char hmem]
    · simp [(hclean char hmem).1]
  have hslash : '/' ∉ authority := fun hmem => (hclean '/' hmem).2 rfl
  unfold acceptableAudience
  dsimp only
  rw [hnormal, hgood, stripScheme_append]
  simp only [not_lt.mpr hlength, decide_false, Bool.or_self, Bool.false_eq_true, if_false,
    hslash, isEmpty_eq_false_iff.mpr hne]
  cases hsplit : splitHostPort authority with
  | none => rfl
  | some parts =>
    have hhost := (splitHostPort_iff.mp ⟨parts.2, hsplit⟩).ne_nil
    cases https with
    | true => simp [hhost]
    | false => simp

theorem canonicalAudience_url (hclean : Clean authority) (hne : authority ≠ [])
    (hafter : IsEnding after) (hlength : byteLength (schemeText https ++ authority) ≤ 200)
    (hscheme : ∀ host, SpellsHost authority host → https = true ∨ isLoopback host = true) :
    canonicalAudience (schemeText https ++ (authority ++ after)) =
      (splitHostPort authority).map fun parts => origin parts.1 := by
  unfold canonicalAudience
  dsimp only
  rw [normalizeAudience_url hclean hne hafter, acceptableAudience_url hclean hne hlength,
    stripScheme_append]
  cases hsplit : splitHostPort authority with
  | none => rfl
  | some parts =>
    have haccepted : (https || isLoopback parts.1) = true := by
      rw [Bool.or_eq_true]
      exact hscheme parts.1 (splitHostPort_iff.mp ⟨parts.2, hsplit⟩)
    simp [haccepted, hsplit]

structure Accepted (audience : Chars) (https : Bool) (authority host : Chars) : Prop where
  clean : Clean authority
  length : byteLength (schemeText https ++ authority) ≤ 200
  spells : SpellsHost authority host
  scheme : https = true ∨ isLoopback host = true
  normal : normalizeAudience audience = schemeText https ++ authority

theorem acceptableAudience_eq_true (haccepted : acceptableAudience audience = true) :
    ∃ https authority host, Accepted audience https authority host := by
  unfold acceptableAudience at haccepted
  dsimp only at haccepted
  split at haccepted
  · cases haccepted
  rename_i hchecks
  split at haccepted
  · cases haccepted
  rename_i https rest hstrip
  split at haccepted
  · cases haccepted
  rename_i hrest
  split at haccepted
  · cases haccepted
  rename_i host port hsplit
  have hurl := stripScheme_eq_some hstrip
  simp only [Bool.or_eq_true, decide_eq_true_eq, not_or, not_lt] at hchecks hrest
  refine ⟨https, rest, host, fun char hchar => ⟨?_, ?_⟩, hurl ▸ hchecks.1,
    splitHostPort_iff.mp ⟨port, hsplit⟩, ?_, hurl⟩
  · have hany := any_eq_false.mp (Bool.eq_false_iff.mpr hchecks.2) char
    rw [hurl] at hany
    exact Bool.eq_false_iff.mpr (hany (mem_append_right _ hchar))
  · rintro rfl
    exact hrest.2 hchar
  · cases https with
    | true => exact .inl rfl
    | false => exact .inr haccepted

end Reading

section Twice

variable {audience canonical authority after host other : Chars} {https : Bool}

theorem NamesHost.unique (hhost : NamesHost audience host) (hother : NamesHost audience other) :
    host = other := by
  have hread : ∀ {host : Chars}, NamesHost audience host →
      ∃ https rest, stripScheme (audience.dropWhile isWhitespace) = some (https, rest) ∧
        SpellsHost (rest.takeWhile fun char => !padding char) host := by
    rintro host ⟨before, https, authority, after, rfl, hbefore, hauthority, hafter, hspells⟩
    refine ⟨https, authority ++ after, ?_, ?_⟩
    · rw [(span_append hbefore ?_).2, stripScheme_append]
      intro char hchar
      rw [head?_schemeText] at hchar
      obtain rfl : 'h' = char := Option.some.inj hchar
      decide
    · rwa [(span_append (by simpa using hauthority) fun char hchar => ?_).1]
      simp [hafter char (mem_of_mem_head? hchar)]
  obtain ⟨https, rest, hstrip, hspells⟩ := hread hhost
  obtain ⟨https', rest', hstrip', hspells'⟩ := hread hother
  obtain ⟨rfl, rfl⟩ := Prod.mk.inj (Option.some.inj (hstrip.symm.trans hstrip'))
  exact hspells.unique hspells'

theorem byteLength_append (first second : Chars) :
    byteLength (first ++ second) = byteLength first + byteLength second := by
  simp [byteLength]

theorem SpellsHost.byteLength_le (hspells : SpellsHost authority host) :
    byteLength host ≤ byteLength authority := by
  cases hspells with
  | plain _ _ _ _ =>
    rw [byteLength_append]
    omega
  | @bracketed _ port _ _ _ =>
    have hcons : byteLength ('[' :: (host ++ ']' :: port)) =
        '['.utf8Size + byteLength (host ++ ']' :: port) := rfl
    rw [hcons, byteLength_append]
    omega

theorem SpellsHost.text_ne_nil (hspells : SpellsHost authority host) : authority ≠ [] := by
  cases hspells with
  | plain hne _ _ _ => exact fun hnil => hne (append_eq_nil_iff.mp hnil).1
  | bracketed _ _ _ => exact cons_ne_nil _ _

theorem not_padding_of_isDigit {char : Char} (hdigit : char.isDigit = true) :
    padding char = false := by
  have hcode : 48 ≤ char.toNat ∧ char.toNat ≤ 57 := by
    simpa [Char.isDigit, Char.le_def, UInt32.le_iff_toNat_le] using hdigit
  have hslash : char ≠ '/' := by
    rintro rfl
    cases hdigit
  simp only [padding, isWhitespace, hslash, decide_false, Bool.or_false,
    Bool.or_eq_false_iff, Bool.and_eq_false_iff, decide_eq_false_iff_not, beq_eq_false_iff_ne]
  omega

theorem SpellsHost.of_padded (hspells : SpellsHost authority host)
    (hpadded : SpellsHost (authority ++ after) other)
    (hafter : ∀ char ∈ after, padding char = true) (hne : after ≠ []) :
    other = authority ++ after ∧ authority = host ∧ ':' ∉ host ∧ host.head? ≠ some '[' := by
  have hend : ∀ (text : Chars) (last : Char), padding last = false →
      authority ++ after ≠ text ++ [last] := by
    intro text last hlast hsame
    have hgetLast := congrArg getLast? hsame
    rw [getLast?_append_of_ne_nil _ hne, getLast?_concat] at hgetLast
    rw [hafter last (mem_of_mem_getLast? hgetLast)] at hlast
    cases hlast
  have hport : ∀ (text port : Chars), IsPort port → authority ++ after = text ++ port →
      port = [] := by
    rintro text port (rfl | ⟨digits, rfl, hdigits⟩) hsame
    · rfl
    · obtain ⟨hdigitsNe, hall⟩ := portDigits_cons hdigits
      have hlast := hall _ (getLast_mem hdigitsNe)
      refine absurd ?_ (hend (text ++ ':' :: digits.dropLast) (digits.getLast hdigitsNe) ?_)
      · rw [hsame, append_assoc, cons_append, dropLast_append_getLast hdigitsNe]
      · exact not_padding_of_isDigit hlast
  generalize htext : authority ++ after = text at hpadded
  cases hpadded with
  | @plain _ port _ hcolon hhead hisPort =>
    obtain rfl := hport other port hisPort htext
    rw [append_nil] at htext
    subst htext
    have hne' := hspells.text_ne_nil
    have hcolon' : ':' ∉ authority := fun hmem => hcolon (mem_append_left _ hmem)
    rw [head?_append_of_ne_nil _ hne'] at hhead
    have hplain := SpellsHost.plain hne' hcolon' hhead (.inl rfl)
    rw [append_nil] at hplain
    obtain rfl := hspells.unique hplain
    exact ⟨by simp, rfl, hcolon', hhead⟩
  | @bracketed _ port _ _ hisPort =>
    have hsame : authority ++ after = ('[' :: (other ++ [']'])) ++ port := by
      rw [htext]
      simp
    obtain rfl := hport _ port hisPort hsame
    exact absurd htext (hend ('[' :: other) ']' (by decide))

theorem loopback_cases {host : Chars} (hloopback : isLoopback host = true) :
    ReadsBack host ∧ (∀ char ∈ shown host, badChar char = false ∧ char ≠ '/') ∧
      (∀ char ∈ host, padding char = false) ∧ byteLength (schemeText true ++ host) ≤ 200 ∧
      byteLength (schemeText false ++ shown host) ≤ 200 := by
  simp only [isLoopback, Bool.or_eq_true, decide_eq_true_eq, or_assoc] at hloopback
  rcases hloopback with rfl | rfl | rfl
  · decide +kernel
  · decide +kernel
  · decide +kernel

theorem Clean.shown {host : Chars} (hclean : Clean host) : Clean (shown host) := by
  by_cases hloopback : isLoopback host = true
  · exact (loopback_cases hloopback).2.1
  · rwa [shown_of_not_loopback (Bool.eq_false_iff.mpr hloopback)]

theorem canonicalAudience_origin (hclean : Clean host) (hne : host ≠ [])
    (hlength : byteLength (schemeText true ++ host) ≤ 200) :
    canonicalAudience (origin host) =
      (splitHostPort (shown host)).map fun parts => origin parts.1 := by
  have hshown : shown host ≠ [] := by
    unfold shown
    split
    · decide +kernel
    · exact hne
  have hurl : origin host = schemeText (!isLoopback host) ++ (shown host ++ []) := by
    rw [append_nil]
    rfl
  rw [hurl]
  refine canonicalAudience_url hclean.shown hshown isEnding_nil ?_ fun found hfound => ?_
  · cases hloopback : isLoopback host with
    | true => exact (loopback_cases hloopback).2.2.2.2
    | false =>
      rw [shown_of_not_loopback hloopback]
      exact hlength
  · cases hloopback : isLoopback host with
    | true =>
      have hback := (spellsHost_shown_iff hne).mpr (loopback_cases hloopback).1
      obtain rfl := hfound.unique hback
      exact .inr hloopback
    | false => exact .inl rfl

theorem canonicalAudience_origin_padded (hclean : Clean host) (hne : host ≠ [])
    (hcolon : ':' ∉ host) (hafter : IsEnding after) (hpadded : after ≠ [])
    (hlength : byteLength (schemeText true ++ host) ≤ 200) :
    canonicalAudience (origin (host ++ after)) =
      (splitHostPort (shown host)).map fun parts => origin parts.1 := by
  have hloopback : isLoopback (host ++ after) = false := by
    refine Bool.eq_false_iff.mpr fun hloopback => ?_
    obtain ⟨char, rest, rfl⟩ := exists_cons_of_ne_nil hpadded
    have hclear := (loopback_cases hloopback).2.2.1 char (by simp)
    rw [hafter.padding char (by simp)] at hclear
    cases hclear
  have hshown : shown host = host := by
    unfold shown
    rw [if_neg]
    rintro rfl
    exact hcolon (by decide +kernel)
  rw [origin, hloopback, shown_of_not_loopback hloopback, hshown]
  exact canonicalAudience_url hclean hne hafter hlength fun _ _ => .inl rfl

theorem before_eq_nil {before rest text : Chars}
    (hbefore : ∀ char ∈ before, isWhitespace char = true)
    (hsame : schemeText https ++ rest = before ++ text) : before = [] := by
  cases before with
  | nil => rfl
  | cons char before =>
    have hhead := congrArg head? hsame
    rw [head?_schemeText] at hhead
    obtain rfl : 'h' = char := Option.some.inj hhead
    exact absurd (hbefore 'h' (by simp)) (by decide)

theorem canonicalAudience_eq_some (hcanonical : canonicalAudience audience = some canonical) :
    ∃ host, (∀ other, NamesHost audience other ↔ other = host) ∧ host ≠ [] ∧ Clean host ∧
      canonicalAudience canonical =
        (splitHostPort (shown host)).map fun parts => origin parts.1 := by
  unfold canonicalAudience at hcanonical
  dsimp only at hcanonical
  split at hcanonical
  case isFalse => cases hcanonical
  rename_i haccepted
  obtain ⟨⟨https', rest⟩, hstrip, hcanonical⟩ := Option.bind_eq_some_iff.mp hcanonical
  obtain ⟨⟨found, port⟩, hsplit, hcanonical⟩ := Option.bind_eq_some_iff.mp hcanonical
  obtain rfl : origin found = canonical := Option.some.inj hcanonical
  obtain ⟨https, authority, host, hparts⟩ := acceptableAudience_eq_true haccepted
  obtain ⟨before, after, htext, hbefore, hafter⟩ :=
    normalizeAudience_decomposes (normalizeAudience audience)
  rw [hparts.normal] at htext
  obtain rfl := before_eq_nil hbefore ((stripScheme_eq_some hstrip).symm.trans htext)
  rw [nil_append, append_assoc] at htext
  rw [htext, stripScheme_append] at hstrip
  obtain ⟨rfl, rfl⟩ := Prod.mk.inj (Option.some.inj hstrip)
  have hfound : SpellsHost (authority ++ after) found := splitHostPort_iff.mp ⟨port, hsplit⟩
  have hclean : Clean host := fun char hchar => hparts.clean char (hparts.spells.mem hchar)
  have hne := hparts.spells.ne_nil
  have hlength : byteLength (schemeText true ++ host) ≤ 200 := by
    rcases hparts.scheme with rfl | hloopback
    · have hle := hparts.spells.byteLength_le
      have hparts := hparts.length
      rw [byteLength_append] at hparts ⊢
      omega
    · exact (loopback_cases hloopback).2.2.2.1
  refine ⟨host, fun other => ?_, hne, hclean, ?_⟩
  · obtain ⟨blanks, ending, haudience, hblanks, hending⟩ :=
      normalizeAudience_decomposes audience
    have hnames : NamesHost audience host := by
      refine ⟨blanks, https, authority, after ++ ending, ?_, hblanks, fun char hchar => ?_,
        fun char hchar => ?_, hparts.spells⟩
      · rw [htext] at haudience
        rw [haudience]
        simp
      · obtain ⟨hgood, hslash⟩ := hparts.clean char hchar
        simp [padding, not_blank_of_good hgood, hslash]
      · rcases mem_append.mp hchar with hmem | hmem
        · exact hafter.padding char hmem
        · exact hending.padding char hmem
    constructor
    · exact fun hother => hother.unique hnames
    · rintro rfl
      exact hnames
  · by_cases hpadded : after = []
    · subst hpadded
      rw [append_nil] at hfound
      obtain rfl := hfound.unique hparts.spells
      exact canonicalAudience_origin hclean hne hlength
    · obtain ⟨rfl, rfl, hcolon, -⟩ := hparts.spells.of_padded hfound hafter.padding hpadded
      exact canonicalAudience_origin_padded hclean hne hcolon hafter hpadded hlength

end Twice

def HeaderSpells (header : List UInt8) (host : Chars) : Prop :=
  ∃ text, toStr header = some text ∧ SpellsHost (trim text) host

def Printable (text : Chars) : Prop :=
  ∀ char ∈ text, 32 < char.toNat ∧ char.toNat < 127

instance (text : Chars) : Decidable (Printable text) :=
  inferInstanceAs (Decidable (∀ char ∈ text, _))

section Requests

variable {header : List UInt8} {host expected text : Chars}

theorem requestAudience_eq_some (hrequest : requestAudience header = some expected) :
    ∃ host, HeaderSpells header host ∧ expected = origin host := by
  obtain ⟨text, htext, hrequest⟩ := Option.bind_eq_some_iff.mp hrequest
  dsimp only at hrequest
  split at hrequest
  · cases hrequest
  · obtain ⟨⟨host, port⟩, hsplit, horigin⟩ := Option.map_eq_some_iff.mp hrequest
    exact ⟨host, ⟨text, htext, splitHostPort_iff.mp ⟨port, hsplit⟩⟩, horigin.symm⟩

theorem requestAudience_of_spells (hspells : HeaderSpells header host) (hclean : Clean host) :
    requestAudience header = some (origin host) := by
  obtain ⟨text, htext, hspells⟩ := hspells
  have hblank : (trim text).any isWhitespace = false := by
    rw [any_eq_false]
    intro char hchar
    rcases hspells.mem_text hchar with hmem | rfl | rfl | rfl | hdigit
    · simp [not_blank_of_good (hclean char hmem).1]
    · decide
    · decide
    · decide
    · have hpadding := not_padding_of_isDigit hdigit
      simp [(Bool.or_eq_false_iff.mp hpadding).1]
  unfold requestAudience
  rw [htext, Option.bind_eq_bind, Option.bind_some]
  dsimp only
  rw [hblank, isEmpty_eq_false_iff.mpr hspells.text_ne_nil]
  exact hspells.map_fst origin

theorem toNat_ofNat_of_lt {code : Nat} (hcode : code < 256) : (Char.ofNat code).toNat = code := by
  have hvalid : code.isValidChar := .inl (by omega)
  unfold Char.ofNat
  rw [dif_pos hvalid]
  rfl

theorem HeaderSpells.printable (hspells : HeaderSpells header host) (hclean : Clean host) :
    Printable host := by
  obtain ⟨text, htext, hspells⟩ := hspells
  intro char hchar
  have hmem : char ∈ text := by
    obtain ⟨before, after, hsame, -, -⟩ := trim_decomposes text
    rw [hsame]
    exact mem_append_right _ (mem_append_left _ (hspells.mem hchar))
  unfold toStr at htext
  split at htext
  next hall =>
    obtain rfl := Option.some.inj htext
    obtain ⟨byte, hbyte, rfl⟩ := mem_map.mp hmem
    have hlt := byte.toNat_lt
    have hcode : (Char.ofNat byte.toNat).toNat = byte.toNat := toNat_ofNat_of_lt (by omega)
    have hblank := not_blank_of_good (hclean _ hchar).1
    have hvisible := all_eq_true.mp hall byte hbyte
    simp only [isWhitespace, hcode, Bool.or_eq_false_iff, Bool.and_eq_false_iff,
      decide_eq_false_iff_not, beq_eq_false_iff_ne] at hblank
    simp only [Bool.or_eq_true, Bool.and_eq_true, decide_eq_true_eq, UInt8.le_iff_toNat_le,
      UInt8.lt_iff_toNat_lt, ← UInt8.toNat_inj] at hvisible
    simp at hvisible
    omega
  · cases htext

theorem toStr_printable (hprintable : Printable text) :
    toStr (text.map fun char => char.toNat.toUInt8) = some text := by
  have hbyte : ∀ char ∈ text, char.toNat.toUInt8.toNat = char.toNat := by
    intro char hchar
    have hcode := hprintable char hchar
    exact Nat.mod_eq_of_lt (by omega)
  unfold toStr
  rw [if_pos, map_map]
  · refine congrArg some ((map_congr_left fun char hchar => ?_).trans text.map_id)
    rw [Function.comp_apply, hbyte char hchar, Char.ofNat_toNat]
    rfl
  · rw [all_eq_true]
    intro byte hmem
    obtain ⟨char, hchar, rfl⟩ := mem_map.mp hmem
    have hcode := hprintable char hchar
    simp only [Bool.or_eq_true, Bool.and_eq_true, decide_eq_true_eq, UInt8.le_iff_toNat_le,
      UInt8.lt_iff_toNat_lt, hbyte char hchar]
    left
    exact ⟨le_of_lt hcode.1, hcode.2⟩

theorem not_blank_of_printable {char : Char} (hcode : 32 < char.toNat ∧ char.toNat < 127) :
    isWhitespace char = false := by
  simp only [isWhitespace, Bool.or_eq_false_iff, Bool.and_eq_false_iff,
    decide_eq_false_iff_not, beq_eq_false_iff_ne]
  omega

def bracketedHeader (host : Chars) : List UInt8 :=
  ('[' :: (host ++ [']'])).map fun char => char.toNat.toUInt8

theorem bracketedHeader_spells (hne : host ≠ []) (hclose : ']' ∉ host)
    (hprintable : Printable host) : HeaderSpells (bracketedHeader host) host := by
  have hall : Printable ('[' :: (host ++ [']'])) := by
    intro char hchar
    simp only [mem_cons, mem_append, not_mem_nil, or_false] at hchar
    rcases hchar with rfl | hmem | rfl
    · decide
    · exact hprintable char hmem
    · decide
  have hspells : SpellsHost ('[' :: (host ++ [']'])) host :=
    .bracketed hne hclose (.inl rfl)
  refine ⟨_, toStr_printable hall, ?_⟩
  rwa [trim_of_no_blanks fun char hchar => not_blank_of_printable (hall char hchar)]

end Requests

end JeryuForge.BotToken
