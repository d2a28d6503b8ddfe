import JeryuForge.Library.Blocks

/-!
# Reading a URI

How RFC 3986 takes a text apart: the components of appendix B, the parts of an authority
(section 3.2) and the removal of dot segments (section 5.2.4).
-/

namespace Uri

open List Nat

structure Components where
  scheme : Option (List Char)
  authority : Option (List Char)
  path : List Char
  query : Option (List Char)
  fragment : Option (List Char)
deriving DecidableEq

def upTo (stops : List Char) (text : List Char) : List Char × List Char :=
  (text.takeWhile fun char => !stops.contains char, text.dropWhile fun char => !stops.contains char)

def splitScheme (text : List Char) : Option (List Char) × List Char :=
  match upTo [':', '/', '?', '#'] text with
  | (first :: scheme, ':' :: rest) => (some (first :: scheme), rest)
  | _ => (none, text)

def splitHier (text : List Char) : Option (List Char) × List Char :=
  match text with
  | '/' :: '/' :: rest =>
    (some (upTo ['/', '?', '#'] rest).1, (upTo ['/', '?', '#'] rest).2)
  | _ => (none, text)

def splitQuery (text : List Char) : Option (List Char) × List Char :=
  match text with
  | '?' :: rest => (some (upTo ['#'] rest).1, (upTo ['#'] rest).2)
  | _ => (none, text)

def splitFragment : List Char → Option (List Char)
  | '#' :: rest => some rest
  | _ => none

def components (text : List Char) : Components :=
  let (scheme, rest) := splitScheme text
  let (authority, rest) := splitHier rest
  let (path, rest) := upTo ['?', '#'] rest
  let (query, rest) := splitQuery rest
  { scheme := scheme, authority := authority, path := path, query := query
    fragment := splitFragment rest }

/-- `[ userinfo "@" ] host [ ":" port ]`. -/
structure Authority where
  userinfo : Option (List Char)
  host : List Char
  port : Option (List Char)
deriving DecidableEq

def splitUserinfo (text : List Char) : Option (List Char) × List Char :=
  match upTo ['@'] text with
  | (userinfo, '@' :: rest) => (some userinfo, rest)
  | _ => (none, text)

def splitLiteral (text : List Char) : List Char × List Char :=
  if text.head? = some '[' then
    let (inside, rest) := upTo [']'] text
    (inside ++ rest.take 1, rest.drop 1)
  else
    ([], text)

def authority (text : List Char) : Authority :=
  let (userinfo, rest) := splitUserinfo text
  let (literal, rest) := splitLiteral rest
  match upTo [':'] rest with
  | (name, ':' :: port) => { userinfo := userinfo, host := literal ++ name, port := some port }
  | (name, _) => { userinfo := userinfo, host := literal ++ name, port := none }

def dropSegment (output : List Char) : List Char :=
  ((output.reverse.dropWhile fun char => char ≠ '/').drop 1).reverse

def firstSegment : List Char → List Char × List Char
  | '/' :: rest => ('/' :: (upTo ['/'] rest).1, (upTo ['/'] rest).2)
  | text => upTo ['/'] text

def removeLoop : Nat → List Char → List Char → List Char
  | 0, _, output => output
  | _ + 1, [], output => output
  | fuel + 1, input, output =>
    if ['.', '.', '/'].isPrefixOf input then removeLoop fuel (input.drop 3) output
    else if ['.', '/'].isPrefixOf input then removeLoop fuel (input.drop 2) output
    else if ['/', '.', '/'].isPrefixOf input then removeLoop fuel (input.drop 2) output
    else if input = ['/', '.'] then removeLoop fuel ['/'] output
    else if ['/', '.', '.', '/'].isPrefixOf input then
      removeLoop fuel (input.drop 3) (dropSegment output)
    else if input = ['/', '.', '.'] then removeLoop fuel ['/'] (dropSegment output)
    else if input = ['.'] ∨ input = ['.', '.'] then removeLoop fuel [] output
    else removeLoop fuel (firstSegment input).2 (output ++ (firstSegment input).1)

def removeDotSegments (path : List Char) : List Char :=
  removeLoop path.length path []

def segments (path : List Char) : List (List Char) :=
  path.tail.splitOn '/'

/-- A segment that is neither empty nor made of dots, and has no slash in it. -/
structure Plain (segment : List Char) : Prop where
  nonempty : segment ≠ []
  dot : segment ≠ ['.']
  dots : segment ≠ ['.', '.']
  slash : '/' ∉ segment

def absolute (segments : List (List Char)) : List Char :=
  segments.flatMap fun segment => '/' :: segment

theorem upTo_append {stops before rest : List Char} (hbefore : ∀ char ∈ before, char ∉ stops)
    (hrest : ∀ char ∈ rest.head?, char ∈ stops) : upTo stops (before ++ rest) = (before, rest) := by
  have hgo : ∀ char ∈ before, (!stops.contains char) = true := by
    intro char hchar
    simpa using hbefore char hchar
  obtain ⟨htake, hdrop⟩ := span_append hgo fun char hchar => by simp [hrest char hchar]
  rw [upTo, htake, hdrop]

theorem upTo_self {stops text : List Char} (htext : ∀ char ∈ text, char ∉ stops) :
    upTo stops text = (text, []) := by
  have h := @upTo_append stops text [] htext (by simp)
  rwa [append_nil] at h

theorem head_absolute (segments : List (List Char)) :
    ∀ char ∈ (absolute segments).head?, char = '/' := by
  intro char hchar
  cases segments with
  | nil => cases hchar
  | cons segment segments =>
    cases hchar
    rfl

theorem upTo_segment {segment rest : List Char} (hslash : '/' ∉ segment)
    (hrest : ∀ char ∈ rest.head?, char = '/') : upTo ['/'] (segment ++ rest) = (segment, rest) := by
  refine upTo_append (fun char hchar => ?_) fun char hchar => ?_
  · intro hstop
    rw [mem_singleton.mp hstop] at hchar
    exact hslash hchar
  · exact mem_singleton.mpr (hrest char hchar)

theorem segment_unique {first second rest more : List Char} (hfirst : '/' ∉ first)
    (hsecond : '/' ∉ second) (hrest : ∀ char ∈ rest.head?, char = '/')
    (hmore : ∀ char ∈ more.head?, char = '/') (hsame : first ++ rest = second ++ more) :
    first = second := by
  have hsplit := upTo_segment hfirst hrest
  rw [hsame, upTo_segment hsecond hmore] at hsplit
  exact (congrArg Prod.fst hsplit).symm

theorem removeLoop_plain {segment : List Char} (hplain : Plain segment)
    (more : List (List Char)) (fuel : Nat) (output : List Char) :
    removeLoop (fuel + 1) ('/' :: (segment ++ absolute more)) output =
      removeLoop fuel (absolute more) (output ++ '/' :: segment) := by
  have hmore := head_absolute more
  -- the loop would only do something else if the segment were one of dots
  have hopen : ∀ dots start, start = '/' :: (dots ++ ['/']) → '/' ∉ dots → segment ≠ dots →
      ¬start.isPrefixOf ('/' :: (segment ++ absolute more)) = true := by
    intro dots start hstart hdots hne hprefix
    obtain ⟨rest, hrest⟩ := isPrefixOf_iff_prefix.mp (hstart ▸ hprefix)
    have hsame : dots ++ '/' :: rest = segment ++ absolute more := by
      simpa using hrest
    exact hne (segment_unique hdots hplain.slash (by simp) hmore hsame).symm
  have hlast : ∀ dots, '/' ∉ dots → segment ≠ dots →
      '/' :: (segment ++ absolute more) ≠ '/' :: dots := by
    intro dots hdots hne hsame
    have hsame : segment ++ absolute more = dots ++ [] := by
      simpa using hsame
    exact hne (segment_unique hplain.slash hdots hmore (by simp) hsame)
  have hfirst : firstSegment ('/' :: (segment ++ absolute more)) =
      ('/' :: segment, absolute more) := by
    rw [firstSegment, upTo_segment hplain.slash hmore]
  rw [removeLoop, if_neg (by simp), if_neg (by simp),
    if_neg (hopen ['.'] ['/', '.', '/'] rfl (by decide) hplain.dot),
    if_neg (hlast ['.'] (by decide) hplain.dot),
    if_neg (hopen ['.', '.'] ['/', '.', '.', '/'] rfl (by decide) hplain.dots),
    if_neg (hlast ['.', '.'] (by decide) hplain.dots), if_neg (by simp), hfirst]
  simp

theorem removeLoop_absolute {segments : List (List Char)}
    (hplain : ∀ segment ∈ segments, Plain segment) {fuel : Nat} (hfuel : segments.length ≤ fuel)
    (output : List Char) :
    removeLoop fuel (absolute segments) output = output ++ absolute segments := by
  induction segments generalizing fuel output with
  | nil => cases fuel <;> simp [absolute, removeLoop]
  | cons segment segments ih =>
    obtain ⟨fuel, rfl⟩ := exists_eq_add_one_of_ne_zero
      (ne_of_gt (lt_of_lt_of_le (succ_pos _) hfuel))
    have hsegment := hplain segment mem_cons_self
    have hmore := ih (forall_mem_cons.mp hplain).2
      (le_of_succ_le_succ hfuel) (output ++ '/' :: segment)
    have hcons : absolute (segment :: segments) = '/' :: (segment ++ absolute segments) := rfl
    rw [hcons, removeLoop_plain hsegment, hmore, append_assoc]
    rfl

theorem length_le_absolute (segments : List (List Char)) :
    segments.length ≤ (absolute segments).length := by
  induction segments with
  | nil => exact le_refl 0
  | cons segment segments ih =>
    simp only [absolute, flatMap_cons, length_append, length_cons] at ih ⊢
    omega

theorem absolute_segments {path : List Char} (hpath : path.head? = some '/') :
    absolute (segments path) = path := by
  obtain ⟨first, rest, rfl⟩ : ∃ first rest, path = first :: rest := by
    cases path with
    | nil => cases hpath
    | cons first rest => exact ⟨first, rest, rfl⟩
  cases hpath
  have hjoin : ∀ parts : List (List Char), parts ≠ [] →
      absolute parts = '/' :: ['/'].intercalate parts := by
    intro parts hparts
    induction parts with
    | nil => exact absurd rfl hparts
    | cons part parts ih =>
      cases parts with
      | nil => simp [absolute]
      | cons next parts =>
        have hrest := ih (by simp)
        simp only [absolute, flatMap_cons] at hrest ⊢
        rw [hrest]
        simp [intercalate]
  rw [segments, tail_cons, hjoin _ (splitOn_ne_nil '/' rest), intercalate_splitOn]

theorem slash_notMem_splitOn (text : List Char) : ∀ part ∈ text.splitOn '/', '/' ∉ part := by
  induction text with
  | nil => simp
  | cons char text ih =>
    rw [splitOn_cons_eq_if_modifyHead]
    by_cases hslash : char = '/'
    · simpa [hslash] using ih
    · obtain ⟨first, parts, hparts⟩ :=
        exists_cons_of_ne_nil (splitOn_ne_nil '/' text)
      rw [hparts] at ih ⊢
      simp only [beq_eq_false_iff_ne.mpr hslash, modifyHead_cons]
      simpa [Ne.symm hslash] using ih

theorem segments_append {start : List Char} (hstart : start ≠ []) (rest : List Char) :
    segments (start ++ '/' :: rest) = segments start ++ rest.splitOn '/' := by
  obtain ⟨first, start, rfl⟩ := exists_cons_of_ne_nil hstart
  exact splitOn_append_cons_self ..

def NameOnly (host : List Char) : Prop :=
  ∀ char ∈ host, char ∉ [':', '/', '?', '#', '@', '[', ']']

theorem authority_name {host : List Char} (hhost : NameOnly host) :
    authority host = { userinfo := none, host := host, port := none } := by
  have hstops : ∀ stops : List Char, stops ⊆ [':', '/', '?', '#', '@', '[', ']'] →
      upTo stops host = (host, []) :=
    fun stops hsub => upTo_self fun char hchar hstop => hhost char hchar (hsub hstop)
  have hbracket : host.head? ≠ some '[' := by
    intro hhead
    exact hhost '[' (mem_of_mem_head? hhead) (by decide)
  have huser : splitUserinfo host = (none, host) := by
    rw [splitUserinfo, hstops ['@'] (by decide)]
  have hliteral : splitLiteral host = ([], host) := if_neg hbracket
  unfold authority
  simp only [huser, hliteral, hstops [':'] (by decide), nil_append]

/-- The components of a scheme, a host and an absolute path without `?` and `#`. -/
theorem components_absolute {scheme host path : List Char} (hne : scheme ≠ [])
    (hscheme : ∀ char ∈ scheme, char ∉ [':', '/', '?', '#']) (hhost : NameOnly host)
    (hstart : path.head? = some '/') (hpath : ∀ char ∈ path, char ∉ ['?', '#']) :
    components (scheme ++ ':' :: '/' :: '/' :: (host ++ path)) =
      { scheme := some scheme, authority := some host, path := path, query := none
        fragment := none } := by
  have hsplitScheme : splitScheme (scheme ++ ':' :: '/' :: '/' :: (host ++ path)) =
      (some scheme, '/' :: '/' :: (host ++ path)) := by
    obtain ⟨first, scheme, rfl⟩ := exists_cons_of_ne_nil hne
    rw [splitScheme, upTo_append hscheme (by simp)]
    rfl
  have hsplitHost : upTo ['/', '?', '#'] (host ++ path) = (host, path) := by
    refine upTo_append (fun char hchar hstop => ?_) fun char hchar => ?_
    · have hsub : ['/', '?', '#'] ⊆ [':', '/', '?', '#', '@', '[', ']'] := by decide
      exact hhost char hchar (hsub hstop)
    · rw [hstart] at hchar
      cases hchar
      decide
  unfold components
  simp only [hsplitScheme, splitHier, hsplitHost, upTo_self hpath, splitQuery, splitFragment]

end Uri
