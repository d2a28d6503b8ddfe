import JeryuForge.MergeQueue.Entry
import JeryuForge.Replay.Diff

/-!
# What the check sees of a diff

The lines of a patch are decoded, so that bytes that are not UTF-8 become alike.  Each
line loses a carriage return, and the last one all blanks at its end.  Of a hunk header
only what follows the last `@@` is kept, and index lines are dropped: with them the object
ids of a binary change and the mode of a file that keeps it.  What is left is `seen`.
-/

/-! ## The check of a replay -/

namespace JeryuForge.Replay

open List Text

open MergeQueue (ReplayFailure)

/-- `String::from_utf8_lossy`: an ASCII byte stands for itself wherever it is, and no
other byte gives an ASCII character. -/
structure Lossy where
  decode : Bytes → List Char
  decode_nil : decode [] = []
  decode_ascii : ∀ before byte after, byte < 128 →
    decode (before ++ byte :: after) =
      decode before ++ Char.ofNat byte.toNat :: decode after
  ascii_mem : ∀ bytes, ∀ char ∈ decode bytes, char.toNat < 128 →
    char.toNat.toUInt8 ∈ bytes

def trimEnd (text : List Char) : List Char :=
  text.rdropWhile isWhitespace

def stripCarriage (line : List Char) : List Char :=
  if line.getLast? = some '\r' then line.dropLast else line

/-- The lines of pieces that newlines separate: a piece that ends at a newline is a line,
and so is the last piece unless it is empty. -/
def piecesToLines : List (List Char) → List (List Char)
  | [] => []
  | [last] => if last = [] then [] else [last]
  | piece :: next :: rest => stripCarriage piece :: piecesToLines (next :: rest)

def lines (text : List Char) : List (List Char) :=
  piecesToLines (text.splitOnP (· = '\n'))

def rfindMarker : List Char → Option Nat
  | [] => none
  | char :: rest =>
    match rfindMarker rest with
    | some place => some (place + 1)
    | none => if ['@', '@'].isPrefixOf (char :: rest) then some 0 else none

abbrev Output := Except ReplayFailure Bytes

def run (lossy : Lossy) (output : Output) : Except ReplayFailure (List Char) :=
  output.map fun stdout => trimEnd (lossy.decode stdout)

/-- `R<score>` varies with context: the status letter and the paths are kept. -/
def statusLetter (line : List Char) : List Char :=
  match line.splitOnP (· = '\t') with
  | [] => []
  | status :: paths => ['\t'].intercalate (status.take 1 :: paths)

def pathLines (out : List Char) : List String :=
  sort ((lines out).map fun line => String.ofList (statusLetter line))

def nameStatus (lossy : Lossy) (output : Output) : Except ReplayFailure (List String) :=
  (run lossy output).map pathLines

/-- A hunk header keeps what follows its last `@@`. -/
def hunkLine (line : List Char) : List Char :=
  if ['@', '@'].isPrefixOf line then
    match rfindMarker line with
    | some place => if 1 < place then '@' :: '@' :: line.drop (place + 2) else ['@', '@']
    | none => ['@', '@']
  else
    line

def comparedLines (out : List Char) : List (List Char) :=
  ((lines out).filter fun line => !"index ".toList.isPrefixOf line).map hunkLine

def hunks (lossy : Lossy) (output : Output) : Except ReplayFailure (List Char) :=
  (run lossy output).map fun out => ['\n'].intercalate (comparedLines out)

structure Outputs where
  nameStatus : Output
  patch : Output

/-- The replay must carry the reviewed change: the same paths with the same status, then
the same hunks, line numbers aside.  `debug` is how a list of texts is written in an
error. -/
def ensureSameChange (lossy : Lossy) (debug : List String → String)
    (reviewed queued : Outputs) : Except ReplayFailure Unit := do
  let reviewedPaths ← nameStatus lossy reviewed.nameStatus
  let queuedPaths ← nameStatus lossy queued.nameStatus
  if reviewedPaths ≠ queuedPaths then
    throw (.mismatch ("files differ: reviewed " ++ debug reviewedPaths ++ ", queued " ++
      debug queuedPaths))
  let reviewedHunks ← hunks lossy reviewed.patch
  let queuedHunks ← hunks lossy queued.patch
  if reviewedHunks ≠ queuedHunks then
    throw (.mismatch "a hunk differs")

def outputs (git : PathQuoting) (diff : Diff) : Outputs :=
  { nameStatus := .ok (nameStatusOutput git diff)
    patch := .ok (patchOutput git diff) }

def outText (lossy : Lossy) (stdout : Bytes) : List Char :=
  trimEnd (lossy.decode stdout)

theorem ensureSameChange_ok_iff {lossy : Lossy} {debug : List String → String}
    {git : PathQuoting} {reviewed queued : Diff} :
    ensureSameChange lossy debug (outputs git reviewed) (outputs git queued) = .ok () ↔
      pathLines (outText lossy (nameStatusOutput git reviewed)) =
          pathLines (outText lossy (nameStatusOutput git queued)) ∧
        ['\n'].intercalate (comparedLines (outText lossy (patchOutput git reviewed))) =
          ['\n'].intercalate (comparedLines (outText lossy (patchOutput git queued))) := by
  simp only [ensureSameChange, outputs, nameStatus, hunks, run, outText, Except.map, bind,
    Except.bind, pure, Except.pure]
  split_ifs with hpaths hhunks
  · simpa using fun hsame => absurd hsame hpaths
  · simpa using fun _ => hhunks
  · simpa using ⟨not_not.mp hpaths, not_not.mp hhunks⟩

theorem trimEnd_append {first rest : List Char} (hrest : ∃ char ∈ rest, isWhitespace char = false) :
    trimEnd (first ++ rest) = first ++ trimEnd rest := by
  unfold trimEnd rdropWhile
  rw [reverse_append, dropWhile_append]
  have hleft : rest.reverse.dropWhile isWhitespace ≠ [] := by
    simpa [dropWhile_eq_nil_iff] using hrest
  rw [if_neg (by simpa using hleft), reverse_append, reverse_reverse]

theorem decode_printed (lossy : Lossy) (lines : List Bytes) :
    lossy.decode (printed lines) = lines.flatMap fun line => lossy.decode line ++ ['\n'] := by
  induction lines with
  | nil => exact lossy.decode_nil
  | cons line rest ih =>
    have hprinted : printed (line :: rest) = line ++ 10 :: printed rest := by
      simp [printed]
    rw [hprinted, lossy.decode_ascii _ _ _ (by decide), ih]
    simp [flatMap_cons]

structure IsLine (line : List Char) : Prop where
  oneLine : '\n' ∉ line
  visible : ∃ char ∈ line, isWhitespace char = false

def lineText (last : Bool) (line : List Char) : List Char :=
  if last then trimEnd line else stripCarriage line

theorem trimEnd_ne_nil {text : List Char}
    (hvisible : ∃ char ∈ text, isWhitespace char = false) : trimEnd text ≠ [] := by
  unfold trimEnd
  rw [Ne, rdropWhile_eq_nil_iff]
  obtain ⟨char, hmem, hchar⟩ := hvisible
  intro hall
  rw [hall char hmem] at hchar
  cases hchar

theorem lines_of_oneLine {text : List Char} (hline : '\n' ∉ text) (hne : text ≠ []) :
    lines text = [text] := by
  unfold lines
  rw [splitOnP_eq_singleton (by simpa using fun char hmem => ne_of_mem_of_not_mem hmem hline)]
  simp [piecesToLines, hne]

theorem lines_append_newline {line rest : List Char} (hline : '\n' ∉ line) :
    lines (line ++ '\n' :: rest) = stripCarriage line :: lines rest := by
  unfold lines
  rw [splitOnP_append_cons_of_forall_mem
    (by simpa using fun char hmem => ne_of_mem_of_not_mem hmem hline) _ (by simp)]
  obtain ⟨piece, pieces, hpieces⟩ :=
    exists_cons_of_ne_nil (splitOnP_ne_nil (· = '\n') rest)
  rw [hpieces]
  rfl

theorem lines_trimEnd (texts : List (List Char)) (htexts : ∀ text ∈ texts, IsLine text) :
    lines (trimEnd (texts.flatMap fun text => text ++ ['\n'])) =
      texts.mapLast lineText true := by
  induction texts with
  | nil => rfl
  | cons text rest ih =>
    have htext := htexts text (by simp)
    cases rest with
    | nil =>
      have htrim : trimEnd (text ++ ['\n']) = trimEnd text := by
        simp [trimEnd, rdropWhile_concat_pos, isWhitespace]
      have hline : '\n' ∉ trimEnd text :=
        fun hmem => htext.oneLine (( rdropWhile_prefix _ text).subset hmem)
      simp only [flatMap_cons, flatMap_nil, append_nil, htrim, mapLast_singleton, lineText, if_true]
      exact lines_of_oneLine hline (trimEnd_ne_nil htext.visible)
    | cons next rest =>
      have hrest := ih (forall_mem_cons.mp htexts).2
      have hvisible : ∃ char ∈ (next :: rest).flatMap fun text => text ++ ['\n'],
          isWhitespace char = false := by
        obtain ⟨char, hmem, hchar⟩ := (htexts next (by simp)).visible
        exact ⟨char, mem_flatMap.mpr ⟨next, by simp, by simp [hmem]⟩, hchar⟩
      have hsplit : ((text :: next :: rest).flatMap fun text => text ++ ['\n']) =
          (text ++ ['\n']) ++ (next :: rest).flatMap fun text => text ++ ['\n'] :=
        flatMap_cons
      rw [hsplit, trimEnd_append hvisible, append_assoc, singleton_append,
        lines_append_newline htext.oneLine, hrest, mapLast_cons_cons]
      rfl

structure SeenLine where
  sign : Sign
  text : List Char
  ended : Bool
deriving DecidableEq, Repr

structure SeenHunk where
  context : List Char
  lines : List SeenLine
deriving DecidableEq, Repr

inductive SeenContent where
  | text (hunks : List SeenHunk)
  | binary
deriving DecidableEq, Repr

abbrev SeenPatch := Patch (Option (Mode × Mode)) SeenContent

abbrev SeenFile := FileDiff (Option (Mode × Mode)) SeenContent

def afterMarker (text : List Char) : List Char :=
  match rfindMarker text with
  | some place => text.drop (place + 2)
  | none => text

section Definitions

variable (lossy : Lossy)

def contextText (context : Bytes) : List Char :=
  if context = [] then [] else ' ' :: lossy.decode context

def seenLine (last : Bool) (signed : Sign × DiffLine) : SeenLine :=
  { sign := signed.1
    text := lineText (last && signed.2.ended) (lossy.decode signed.2.bytes)
    ended := signed.2.ended }

def seenHunk (last : Bool) (hunk : Hunk) : SeenHunk :=
  { context := afterMarker (stripCarriage (contextText lossy hunk.context))
    lines := hunk.signed.mapLast (seenLine lossy) last }

def seenContent (last : Bool) : Content → SeenContent
  | .text _ _ hunks => .text (hunks.mapLast (seenHunk lossy) last)
  | .binary _ _ => .binary

def seenPatch (last : Bool) (patch : Patch Modes Content) : SeenPatch :=
  { status := patch.status.map Modes.shown
    content := seenContent lossy last patch.content }

def seenFile (last : Bool) : FileDiff Modes Content → SeenFile
  | .single patch => .single (seenPatch lossy last patch)
  | .retyped path old new removed added =>
    .retyped path old new (seenContent lossy false removed) (seenContent lossy last added)

def seen (diff : Diff) : List SeenFile :=
  diff.files.mapLast (seenFile lossy) true

end Definitions

def SeenLine.texts (line : SeenLine) : List (List Char) :=
  (line.sign.char :: line.text) :: if line.ended then [] else [unendedMarker]

def SeenHunk.texts (hunk : SeenHunk) : List (List Char) :=
  ('@' :: '@' :: hunk.context) :: hunk.lines.flatMap SeenLine.texts

def SeenContent.texts : SeenContent → List (List Char)
  | .text hunks => hunks.flatMap SeenHunk.texts
  | .binary => []

def SeenContent.headers {M : Type} (git : PathQuoting) (status : Status M) :
    SeenContent → List Header
  | .text [] => []
  | .text (_ :: _) => nameHeaders git status
  | .binary => [binaryHeader git status]

def SeenPatch.headers (git : PathQuoting) (patch : SeenPatch) : List Header :=
  gitHeader git patch.status :: statusHeaders git patch.status ++
    patch.content.headers git patch.status

def Header.shown (last : Bool) (header : Header) : List Char :=
  if last = true ∧ header.kind = .renameTo then trimEnd header.text else header.text

/-- The lines of what is seen of a part; `last` if no other part follows. -/
def SeenPatch.texts (git : PathQuoting) (last : Bool) (patch : SeenPatch) : List (List Char) :=
  (SeenPatch.headers git patch).map (Header.shown (last && patch.content = .text [])) ++
    patch.content.texts

def seenTexts (git : PathQuoting) (files : List SeenFile) : List (List Char) :=
  ((files.flatMap FileDiff.patches).mapLast (SeenPatch.texts git) true).flatten

def viewText (text : List Char) : Option (List Char) :=
  if Kind.index.keyword.isPrefixOf text then none else some (hunkLine text)

def view (lossy : Lossy) (last : Bool) (line : Bytes) : Option (List Char) :=
  viewText (lineText last (lossy.decode line))

theorem comparedLines_filter (texts : List (List Char)) :
    ((texts.filter fun line => !"index ".toList.isPrefixOf line).map hunkLine) =
      (texts.map viewText).filterMap id := by
  induction texts with
  | nil => rfl
  | cons text rest ih =>
    have hindex : Kind.index.keyword = "index ".toList := rfl
    rw [filter_cons, map_cons, filterMap_cons, ← ih, viewText, hindex]
    cases "index ".toList.isPrefixOf text <;> simp

theorem comparedLines_printed {lossy : Lossy} {lines : List Bytes}
    (hlines : ∀ line ∈ lines, IsLine (lossy.decode line)) :
    comparedLines (outText lossy (printed lines)) =
      (lines.mapLast (view lossy) true).filterMap id := by
  have htexts : Replay.lines (outText lossy (printed lines)) =
      lines.mapLast (fun last line => lineText last (lossy.decode line)) true := by
    have hdecoded := lines_trimEnd (lines.map lossy.decode) (by simpa using hlines)
    rw [mapLast_map] at hdecoded
    rw [outText, decode_printed, ← hdecoded, flatMap_map]
  unfold comparedLines
  rw [htexts, comparedLines_filter, map_mapLast]
  rfl

section Lines

variable {lossy : Lossy}

theorem decode_asciiBytes_append {text : List Char} (hascii : ∀ char ∈ text, char.toNat < 128)
    (rest : Bytes) : lossy.decode (asciiBytes text ++ rest) = text ++ lossy.decode rest := by
  induction text with
  | nil => rfl
  | cons char text ih =>
    have hchar := hascii char (by simp)
    have htext := ih (forall_mem_cons.mp hascii).2
    have hbyte : char.toNat.toUInt8.toNat = char.toNat := by
      simp [Nat.toUInt8]
      omega
    have hlow : char.toNat.toUInt8 < 128 := by
      rw [UInt8.lt_iff_toNat_lt, hbyte]
      exact hchar
    have hsplit := lossy.decode_ascii [] char.toNat.toUInt8 (asciiBytes text ++ rest) hlow
    rw [nil_append, lossy.decode_nil, nil_append, htext, hbyte, Char.ofNat_toNat] at hsplit
    exact hsplit

variable {text : List Char} {char : Char}

theorem decode_asciiBytes (hascii : ∀ char ∈ text, char.toNat < 128) :
    lossy.decode (asciiBytes text) = text := by
  have hdecoded := @decode_asciiBytes_append lossy text hascii []
  rwa [append_nil, lossy.decode_nil, append_nil] at hdecoded

theorem newline_not_mem_decode {bytes : Bytes} (hline : 10 ∉ bytes) : '\n' ∉ lossy.decode bytes :=
  fun hmem => hline (lossy.ascii_mem bytes '\n' hmem (by decide))

theorem trimEnd_cons (hvisible : Text.isWhitespace char = false) :
    trimEnd (char :: text) = char :: trimEnd text := by
  unfold trimEnd rdropWhile
  rw [reverse_cons, dropWhile_append]
  split
  next hblank =>
    rw [isEmpty_iff.mp hblank, dropWhile_cons_of_neg (by simp [hvisible])]
    rfl
  · rw [reverse_append]
    rfl

theorem stripCarriage_cons (hcarriage : char ≠ '\r') :
    stripCarriage (char :: text) = char :: stripCarriage text := by
  unfold stripCarriage
  cases text with
  | nil => simp [hcarriage]
  | cons next text =>
    rw [getLast?_cons_cons]
    split <;> simp

theorem lineText_cons {last : Bool}
    (hcarriage : char ≠ '\r') (hvisible : Text.isWhitespace char = false) :
    lineText last (char :: text) = char :: lineText last text := by
  unfold lineText
  split
  · exact trimEnd_cons hvisible
  · exact stripCarriage_cons hcarriage

theorem view_of_decode_cons {last : Bool} {line : Bytes}
    (hdecode : lossy.decode line = char :: text) (hchar : char = '-' ∨ char = '+') :
    view lossy last line = some (char :: lineText last text) := by
  have hline : lineText last (lossy.decode line) = char :: lineText last text := by
    rw [hdecode]
    rcases hchar with rfl | rfl <;> exact lineText_cons (by decide) (by decide)
  unfold view
  rw [hline]
  rcases hchar with rfl | rfl <;> rfl

theorem Sign.char_lt (sign : Sign) : ∀ char ∈ [sign.char], char.toNat < 128 := by
  cases sign <;> simp [Sign.char]

theorem decode_signed (sign : Sign) (bytes : Bytes) :
    lossy.decode (asciiBytes [sign.char] ++ bytes) = sign.char :: lossy.decode bytes :=
  decode_asciiBytes_append sign.char_lt bytes

theorem view_signed (last : Bool) (sign : Sign) (bytes : Bytes) :
    view lossy last (asciiBytes [sign.char] ++ bytes) =
      some (sign.char :: lineText last (lossy.decode bytes)) :=
  view_of_decode_cons (decode_signed sign bytes) (by cases sign <;> decide)

theorem decode_unendedMarker : lossy.decode (asciiBytes unendedMarker) = unendedMarker :=
  decode_asciiBytes (by decide)

theorem view_unendedMarker (last : Bool) :
    view lossy last (asciiBytes unendedMarker) = some unendedMarker := by
  unfold view
  rw [decode_unendedMarker]
  cases last <;> decide

theorem lineBytes_view (last : Bool) (signed : Sign × DiffLine) :
    ((lineBytes signed).mapLast (view lossy) last).filterMap id =
      (seenLine lossy last signed).texts := by
  unfold lineBytes SeenLine.texts seenLine
  cases signed.2.ended with
  | true => simp [view_signed]
  | false => simp [mapLast_cons_cons, view_signed, view_unendedMarker]

end Lines

variable {text : List Char} {char : Char}

theorem rfindMarker_append {place : Nat} (hplace : rfindMarker text = some place)
    (before : List Char) : rfindMarker (before ++ text) = some (before.length + place) := by
  induction before with
  | nil => simpa using hplace
  | cons char before ih =>
    simp only [cons_append, rfindMarker, ih, length_cons, Option.some.injEq]
    omega

theorem rfindMarker_cons_of_none {rest : List Char} (hnone : rfindMarker rest = none) :
    rfindMarker (char :: rest) =
      if ['@', '@'].isPrefixOf (char :: rest) then some 0 else none := by
  simp only [rfindMarker, hnone]

/-- The text after a closing `@@` starts with a blank, so the marker does not reach into
it. -/
theorem rfindMarker_closing (hblank : text.head? ≠ some '@') (hnone : rfindMarker text = none) :
    rfindMarker ('@' :: '@' :: text) = some 0 := by
  have hsecond : rfindMarker ('@' :: text) = none := by
    rw [rfindMarker_cons_of_none hnone]
    cases text with
    | nil => rfl
    | cons char text =>
      have hchar : char ≠ '@' := by simpa using hblank
      simp [hchar.symm]
  rw [rfindMarker_cons_of_none hsecond]
  rfl

/-- Whatever the place of a hunk, the text after its last `@@` is kept. -/
theorem hunkLine_append {place : List Char} (hblank : text.head? ≠ some '@') :
    hunkLine ('@' :: '@' :: place ++ '@' :: '@' :: text) = '@' :: '@' :: afterMarker text := by
  have hmarker : (['@', '@'].isPrefixOf ('@' :: '@' :: place ++ '@' :: '@' :: text)) = true :=
    rfl
  unfold hunkLine afterMarker
  rw [if_pos hmarker]
  cases hfound : rfindMarker text with
  | none =>
    rw [rfindMarker_append (rfindMarker_closing hblank hfound)]
    have hlong : 1 < ('@' :: '@' :: place).length + 0 := by simp
    dsimp only
    rw [if_pos hlong, Nat.add_zero, drop_length_add_append]
    rfl
  | some found =>
    have hsplit : '@' :: '@' :: place ++ '@' :: '@' :: text =
        ('@' :: '@' :: place ++ ['@', '@']) ++ text := by simp
    have hlong : 1 < ('@' :: '@' :: place ++ ['@', '@']).length + found := by
      simp
      omega
    rw [hsplit, rfindMarker_append hfound]
    dsimp only
    rw [if_pos hlong, Nat.add_assoc, drop_length_add_append]

def IsPlain (text : List Char) : Prop :=
  ∀ char ∈ text, char.toNat = 9 ∨ 32 ≤ char.toNat ∧ char.toNat ≤ 126

theorem IsPlain.ascii (hplain : IsPlain text) : ∀ char ∈ text, char.toNat < 128 := by
  intro char hmem
  have hchar := hplain char hmem
  omega

theorem IsPlain.not_mem (hplain : IsPlain text) (hchar : char.toNat = 10 ∨ char.toNat = 13) :
    char ∉ text := by
  intro hmem
  have hlow := hplain char hmem
  omega

theorem IsPlain.append {first second : List Char} (hfirst : IsPlain first)
    (hsecond : IsPlain second) : IsPlain (first ++ second) := by
  intro char hmem
  rcases mem_append.mp hmem with hmem | hmem
  · exact hfirst char hmem
  · exact hsecond char hmem

theorem isPlain_cons (hchar : char.toNat = 9 ∨ 32 ≤ char.toNat ∧ char.toNat ≤ 126)
    (htext : IsPlain text) : IsPlain (char :: text) := by
  intro other hmem
  rcases mem_cons.mp hmem with rfl | hmem
  · exact hchar
  · exact htext other hmem

theorem isPlain_digits (number : Nat) : IsPlain (digits number) := by
  intro char hmem
  have hdigit := Nat.isDigit_of_mem_toDigits (by decide) (by decide) hmem
  simp only [Char.isDigit, Bool.and_eq_true, decide_eq_true_eq, ge_iff_le,
    UInt32.le_iff_toNat_le] at hdigit
  have hlow : 48 ≤ char.toNat := hdigit.1
  have hhigh : char.toNat ≤ 57 := hdigit.2
  omega

theorem isPlain_range (start count : Nat) : IsPlain (range start count) := by
  refine (isPlain_digits start).append ?_
  split
  · simp [IsPlain]
  · exact isPlain_cons (by decide) (isPlain_digits count)

section Hunks

variable {lossy : Lossy}

def hunkRanges (hunk : Hunk) : List Char :=
  " -".toList ++ range hunk.oldStart hunk.removed.length ++ " +".toList ++
    range hunk.newStart hunk.added.length ++ " ".toList

theorem isPlain_hunkPlace (hunk : Hunk) : IsPlain (hunkPlace hunk) := by
  exact ((((by simp [IsPlain] : IsPlain "@@ -".toList).append (isPlain_range _ _)).append
    (by simp [IsPlain])).append (isPlain_range _ _)).append (by simp [IsPlain])

theorem decode_hunkHeader (hunk : Hunk) :
    lossy.decode (hunkHeader hunk) = hunkPlace hunk ++ contextText lossy hunk.context := by
  unfold hunkHeader contextText
  rw [decode_asciiBytes_append (isPlain_hunkPlace hunk).ascii]
  split
  · rw [lossy.decode_nil]
  · have hblank := lossy.decode_ascii [] 32 hunk.context (by decide)
    rw [nil_append, lossy.decode_nil, nil_append] at hblank
    rw [hblank]
    rfl

theorem stripCarriage_append {first rest : List Char} (hfirst : '\r' ∉ first) :
    stripCarriage (first ++ rest) = first ++ stripCarriage rest := by
  induction first with
  | nil => rfl
  | cons char first ih =>
    have hchar : char ≠ '\r' := fun hsame => hfirst (by simp [hsame])
    have hrest : '\r' ∉ first := fun hmem => hfirst (mem_cons_of_mem _ hmem)
    rw [cons_append, stripCarriage_cons hchar, ih hrest, cons_append]

theorem head?_stripCarriage_contextText (context : Bytes) :
    (stripCarriage (contextText lossy context)).head? ≠ some '@' := by
  unfold contextText
  split
  · simp [stripCarriage]
  · rw [stripCarriage_cons (by decide)]
    simp

theorem view_hunkHeader (hunk : Hunk) :
    view lossy false (hunkHeader hunk) =
      some ('@' :: '@' :: afterMarker (stripCarriage (contextText lossy hunk.context))) := by
  have hline : lineText false (lossy.decode (hunkHeader hunk)) =
      '@' :: '@' :: hunkRanges hunk ++
        '@' :: '@' :: stripCarriage (contextText lossy hunk.context) := by
    have hplain : '\r' ∉ hunkPlace hunk := (isPlain_hunkPlace hunk).not_mem (by decide)
    rw [lineText, if_neg (by decide), decode_hunkHeader, stripCarriage_append hplain]
    simp [hunkPlace, hunkRanges]
  unfold view viewText
  rw [hline, hunkLine_append (head?_stripCarriage_contextText hunk.context)]
  rfl

theorem signed_ne_nil (hunk : Hunk) : hunk.signed ≠ [] := by
  have hchanges := hunk.changes
  simp only [Hunk.signed, ne_eq, append_eq_nil_iff, map_eq_nil_iff, not_and_or]
  exact hchanges

theorem lineBytes_ne_nil (signed : Sign × DiffLine) : lineBytes signed ≠ [] := by
  simp [lineBytes]

theorem hunkBytes_view (last : Bool) (hunk : Hunk) :
    ((hunkBytes hunk).mapLast (view lossy) last).filterMap id =
      (seenHunk lossy last hunk).texts := by
  have hlines : hunk.signed.flatMap lineBytes ≠ [] := by
    obtain ⟨first, rest, hsigned⟩ := exists_cons_of_ne_nil (signed_ne_nil hunk)
    simp [hsigned, lineBytes_ne_nil]
  have hseen : ((hunk.signed.flatMap lineBytes).mapLast (view lossy) last).filterMap id =
      (hunk.signed.mapLast (seenLine lossy) last).flatMap SeenLine.texts :=
    filterMap_mapLast_flatMap_seen (fun signed _ => lineBytes_ne_nil signed)
      (fun last signed _ => lineBytes_view last signed) last
  rw [hunkBytes, mapLast_cons_of_ne_nil hlines, filterMap_cons, view_hunkHeader, hseen]
  rfl

theorem contentBytes_view (last : Bool) (content : Content) :
    ((contentBytes content).mapLast (view lossy) last).filterMap id =
      (seenContent lossy last content).texts := by
  cases content with
  | text old new hunks =>
    exact filterMap_mapLast_flatMap_seen (fun hunk _ => by simp [hunkBytes])
      (fun last hunk _ => hunkBytes_view last hunk) last
  | binary old new => rfl

end Hunks

end JeryuForge.Replay
