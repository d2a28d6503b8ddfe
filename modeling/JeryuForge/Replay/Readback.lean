import JeryuForge.Replay.Headers

/-!
# Reading a diff back from its lines

The lines that are compared determine what is seen of a diff.  A part starts at its
`diff --git` line, a hunk at its `@@` and a line at its sign.  A removed and an added part
of one path are one file, since every path is there once.
-/

namespace JeryuForge.Replay

open List

def startsSigned (line : List Char) : Bool :=
  line.head? = some '-' || line.head? = some '+'

theorem SeenLine.isBlock (line : SeenLine) : line.texts.IsBlock startsSigned where
  nonempty := cons_ne_nil _ _
  head := by
    intro first hfirst
    have hline : line.sign.char :: line.text = first := Option.some.inj hfirst
    rw [← hline]
    cases line.sign <;> rfl
  tail := by
    intro text hmem
    unfold SeenLine.texts at hmem
    split at hmem
    · cases hmem
    · rw [mem_singleton.mp hmem]
      decide

theorem Sign.char_injective : Function.Injective Sign.char := by
  intro first second
  cases first <;> cases second <;> decide

theorem SeenLine.texts_injective : Function.Injective SeenLine.texts := by
  rintro ⟨sign, text, ended⟩ ⟨other, otherText, otherEnded⟩ hsame
  obtain ⟨hline, hmarker⟩ := cons.inj hsame
  obtain ⟨hchar, rfl⟩ := cons.inj hline
  have hsign : sign = other := Sign.char_injective hchar
  have hended : ended = otherEnded := by
    have hlength := congrArg length hmarker
    revert hlength
    cases ended <;> cases otherEnded <;> simp
  rw [hsign, hended]

theorem head_line (line : SeenLine) :
    ∀ text ∈ line.texts, ∃ char rest, text = char :: rest ∧ char ∈ ['-', '+', '\\'] := by
  intro text hmem
  rcases mem_cons.mp hmem with rfl | hmem
  · refine ⟨line.sign.char, line.text, rfl, ?_⟩
    cases line.sign <;> decide
  · split at hmem
    · cases hmem
    · rw [mem_singleton.mp hmem]
      exact ⟨'\\', " No newline at end of file".toList, by decide, by decide⟩

def startsHunk (line : List Char) : Bool :=
  ['@', '@'].isPrefixOf line

theorem SeenHunk.isBlock (hunk : SeenHunk) : hunk.texts.IsBlock startsHunk where
  nonempty := cons_ne_nil _ _
  head := by
    intro first hfirst
    have hline : '@' :: '@' :: hunk.context = first := Option.some.inj hfirst
    rw [← hline]
    rfl
  tail := by
    intro text hmem
    obtain ⟨line, -, hline⟩ := mem_flatMap.mp hmem
    obtain ⟨char, rest, rfl, hchar⟩ := head_line line text hline
    simp only [mem_cons, not_mem_nil, or_false] at hchar
    rcases hchar with rfl | rfl | rfl <;> rfl

theorem SeenHunk.texts_injective : Function.Injective SeenHunk.texts := by
  rintro ⟨context, lines⟩ ⟨otherContext, otherLines⟩ hsame
  obtain ⟨hheader, hlines⟩ := cons.inj hsame
  have hcontext : context = otherContext := (cons.inj (cons.inj hheader).2).2
  have hsameLines : lines = otherLines :=
    flatMap_injective_of_isBlock SeenLine.isBlock SeenLine.texts_injective hlines
  rw [hcontext, hsameLines]

theorem head_content (content : SeenContent) :
    ∀ text ∈ content.texts,
      ∃ char rest, text = char :: rest ∧ char ∈ ['@', '-', '+', '\\'] := by
  intro text hmem
  cases content with
  | binary => cases hmem
  | text hunks =>
    obtain ⟨hunk, -, hhunk⟩ := mem_flatMap.mp hmem
    rcases mem_cons.mp hhunk with rfl | hline
    · exact ⟨'@', _, rfl, by decide⟩
    · obtain ⟨line, -, hline⟩ := mem_flatMap.mp hline
      obtain ⟨char, rest, htext, hchar⟩ := head_line line text hline
      exact ⟨char, rest, htext, mem_cons_of_mem _ hchar⟩

theorem startsMarked_content (content : SeenContent) : content.texts.StartsMarked startsHunk := by
  cases content with
  | binary => simp [SeenContent.texts, List.StartsMarked]
  | text hunks => exact startsMarked_flatMap SeenHunk.isBlock hunks

theorem Mode.text_injective : Function.Injective Mode.text := by
  intro first second
  cases first <;> cases second <;> decide

section Headers

variable {git : PathQuoting}

theorem PathQuoting.newLabel_injective : Function.Injective git.newLabel := by
  intro first second hsame
  exact cons_injective (cons_injective (git.injective hsame))

theorem PathQuoting.oldLabel_injective : Function.Injective git.oldLabel := by
  intro first second hsame
  exact cons_injective (cons_injective (git.injective hsame))

theorem labels_inj {first second : Path} (hsame : git.oldLabel first ++ ' ' :: git.newLabel first =
      git.oldLabel second ++ ' ' :: git.newLabel second) : first = second := by
  have hfirst : (git.oldLabel first).length = (git.newLabel first).length := git.sides first
  have hsecond : (git.oldLabel second).length = (git.newLabel second).length :=
    git.sides second
  have htotal := congrArg length hsame
  simp only [length_append, length_cons] at htotal
  have hlength : (git.oldLabel first).length = (git.oldLabel second).length := by omega
  exact git.oldLabel_injective (append_inj_left hsame hlength)

theorem modeHeaders_injective : Function.Injective modeHeaders := by
  intro first second hsame
  rcases first with _ | ⟨old, new⟩ <;> rcases second with _ | ⟨otherOld, otherNew⟩
  · rfl
  · cases hsame
  · cases hsame
  · simp only [modeHeaders, cons.injEq, Header.mk.injEq, true_and, and_true] at hsame
    rw [Mode.text_injective hsame.1, Mode.text_injective hsame.2]

def Header.plain (header : Header) : Bool :=
  header.kind ≠ .renameTo

/-- The header lines that say what happened to a file, without the new name of a renamed
file: that is in the first line too, where nothing is cut off. -/
def plainStatus (git : PathQuoting) (status : Status (Option (Mode × Mode))) : List Header :=
  (statusHeaders git status).filter Header.plain

theorem filter_modeHeaders (modes : Option (Mode × Mode)) :
    (modeHeaders modes).filter Header.plain = modeHeaders modes := by
  cases modes <;> rfl

def afterModes (header : Header) : Bool :=
  header.kind = .similarity

theorem afterModes_modeHeaders (modes : Option (Mode × Mode)) :
    ∀ header ∈ modeHeaders modes, afterModes header = false := by
  intro header hmem
  rcases (mem_modeHeaders header hmem).1 with hkind | hkind <;> simp [afterModes, hkind]

variable {modes otherModes : Option (Mode × Mode)} {status : Status (Option (Mode × Mode))}

theorem renamed_headers_inj {score otherScore : Nat} {source target otherSource otherTarget : Path}
    (hsame : plainStatus git (.renamed source target score modes) =
      plainStatus git (.renamed otherSource otherTarget otherScore otherModes)) :
    modes = otherModes ∧ score = otherScore ∧ source = otherSource := by
  unfold plainStatus statusHeaders at hsame
  rw [filter_append, filter_append, filter_modeHeaders, filter_modeHeaders] at hsame
  obtain ⟨hmodes, hrest⟩ := append_inj_of_startsMarked (afterModes_modeHeaders modes)
    (afterModes_modeHeaders otherModes) (by rintro _ ⟨⟩; rfl) (by rintro _ ⟨⟩; rfl) hsame
  obtain ⟨hscore, hrest⟩ := cons.inj hrest
  have hdigits : digits score = digits otherScore :=
    append_cancel_right (congrArg Header.rest hscore)
  exact ⟨modeHeaders_injective hmodes, Text.toDigits_injective hdigits,
    git.injective (congrArg Header.rest (cons.inj hrest).1)⟩

def Status.sort : Status (Option (Mode × Mode)) → Option Kind
  | .added _ _ => some .newFile
  | .deleted _ _ => some .deletedFile
  | .modified _ _ => none
  | .renamed _ _ _ _ => some .similarity

theorem sort_plainStatus (status : Status (Option (Mode × Mode))) :
    ((plainStatus git status).map Header.kind).find? (fun kind => kind ∉ [Kind.oldMode, .newMode]) =
      status.sort := by
  cases status with
  | added | deleted => rfl
  | modified path modes => cases modes <;> rfl
  | renamed source target score modes => cases modes <;> rfl

theorem status_inj {first second : Status (Option (Mode × Mode))}
    (hgit : gitHeader git first = gitHeader git second)
    (hstatus : plainStatus git first = plainStatus git second) : first = second := by
  have hlabels : git.oldLabel first.oldPath ++ ' ' :: git.newLabel first.newPath =
      git.oldLabel second.oldPath ++ ' ' :: git.newLabel second.newPath :=
    congrArg Header.rest hgit
  have hsort : first.sort = second.sort := by
    rw [← sort_plainStatus first, ← sort_plainStatus second, hstatus]
  cases first <;> cases second <;> try cases hsort
  case added.added path mode other otherMode =>
    have hpath : path = other := labels_inj hlabels
    rw [hpath, Mode.text_injective (congrArg Header.rest (cons.inj hstatus).1)]
  case deleted.deleted path mode other otherMode =>
    have hpath : path = other := labels_inj hlabels
    rw [hpath, Mode.text_injective (congrArg Header.rest (cons.inj hstatus).1)]
  case modified.modified path modes other otherModes =>
    have hpath : path = other := labels_inj hlabels
    have hmodes : modes = otherModes := by
      unfold plainStatus statusHeaders at hstatus
      rw [filter_modeHeaders, filter_modeHeaders] at hstatus
      exact modeHeaders_injective hstatus
    rw [hpath, hmodes]
  case renamed.renamed source target score modes otherSource otherTarget otherScore otherModes =>
    obtain ⟨rfl, rfl, rfl⟩ := renamed_headers_inj hstatus
    have htarget : git.newLabel target = git.newLabel otherTarget :=
      (cons.inj (append_cancel_left hlabels)).2
    rw [git.newLabel_injective htarget]

/-! ## Reading parts back -/

def plainHeaders (git : PathQuoting) (patch : SeenPatch) : List Header :=
  gitHeader git patch.status :: (plainStatus git patch.status ++
    patch.content.headers git patch.status)

def plainTexts (git : PathQuoting) (patch : SeenPatch) : List (List Char) :=
  (plainHeaders git patch).map Header.text ++ patch.content.texts

theorem kind_content {content : SeenContent} :
    ∀ header ∈ content.headers git status,
      header.kind = .oldName ∨ header.kind = .newName ∨ header.kind = .binary := by
  unfold SeenContent.headers
  split <;> simp [nameHeaders, binaryHeader]

theorem filter_plain_headers (patch : SeenPatch) :
    (SeenPatch.headers git patch).filter Header.plain = plainHeaders git patch := by
  have hcontent : (patch.content.headers git patch.status).filter Header.plain =
      patch.content.headers git patch.status := by
    rw [filter_eq_self]
    intro header hmem
    rcases kind_content header hmem with hkind | hkind | hkind <;> simp [Header.plain, hkind]
  have hgit : (gitHeader git patch.status).plain = true := rfl
  unfold SeenPatch.headers plainHeaders
  rw [cons_append, filter_cons_of_pos hgit, filter_append, hcontent, plainStatus]

def namesTarget (line : List Char) : Bool :=
  "rename to".toList.isPrefixOf line

theorem namesTarget_append (rest : List Char) : namesTarget ("rename to".toList ++ rest) = true :=
  rfl

theorem namesTarget_shown (last : Bool) (header : Header) :
    namesTarget (header.shown last) = !header.plain := by
  by_cases hkind : header.kind = .renameTo
  · have hshown : ∃ rest, header.shown last = "rename to".toList ++ rest := by
      unfold Header.shown
      split
      · exact ⟨_, trimEnd_renameTo hkind⟩
      · exact ⟨_, text_renameTo hkind⟩
    obtain ⟨rest, hrest⟩ := hshown
    rw [hrest, namesTarget_append]
    simp [Header.plain, hkind]
  · have htext : header.shown last = header.kind.keyword ++ header.rest := by
      simp [Header.shown, Header.text, hkind]
    have hplain : header.plain = true := by simp [Header.plain, hkind]
    rw [htext, hplain]
    revert hkind
    cases header.kind <;> first | (intro _; rfl) | (intro hkind; exact absurd rfl hkind)

theorem namesTarget_content (content : SeenContent) :
    ∀ text ∈ content.texts, namesTarget text = false := by
  intro text hmem
  obtain ⟨char, rest, rfl, hchar⟩ := head_content content text hmem
  simp only [mem_cons, not_mem_nil, or_false] at hchar
  rcases hchar with rfl | rfl | rfl | rfl <;> rfl

theorem filter_texts (last : Bool) (patch : SeenPatch) :
    (SeenPatch.texts git last patch).filter (fun line => !namesTarget line) =
      plainTexts git patch := by
  have hshown : ∀ last, ((SeenPatch.headers git patch).map (Header.shown last)).filter
      (fun line => !namesTarget line) = (plainHeaders git patch).map Header.text := by
    intro last
    rw [filter_map, ← filter_plain_headers]
    have hplain : ((fun line => !namesTarget line) ∘ Header.shown last) = Header.plain := by
      funext header
      simp [namesTarget_shown]
    rw [hplain]
    apply map_congr_left
    intro header hmem
    have hkind : header.kind ≠ .renameTo := by
      simpa [Header.plain] using of_mem_filter hmem
    simp [Header.shown, hkind]
  have hcontent : patch.content.texts.filter (fun line => !namesTarget line) =
      patch.content.texts := by
    rw [filter_eq_self]
    intro text hmem
    simp [namesTarget_content patch.content text hmem]
  unfold SeenPatch.texts plainTexts
  rw [filter_append, hshown, hcontent]

theorem content_inj {first second : SeenContent}
    (hheaders : first.headers git status = second.headers git status)
    (htexts : first.texts = second.texts) : first = second := by
  cases first with
  | binary =>
    cases second with
    | binary => rfl
    | text hunks =>
      cases hunks <;> simp [SeenContent.headers, nameHeaders, binaryHeader] at hheaders
  | text hunks =>
    cases second with
    | binary =>
      cases hunks <;> simp [SeenContent.headers, nameHeaders, binaryHeader] at hheaders
    | text others =>
      have hhunks : hunks = others :=
        flatMap_injective_of_isBlock SeenHunk.isBlock SeenHunk.texts_injective htexts
      rw [hhunks]

def afterStatus (header : Header) : Bool :=
  !header.kind.ofStatus

theorem afterStatus_plainStatus (status : Status (Option (Mode × Mode))) :
    ∀ header ∈ plainStatus git status, afterStatus header = false := by
  intro header hmem
  have hstatus := (mem_statusHeaders header (mem_of_mem_filter hmem)).1
  simp [afterStatus, hstatus]

theorem startsMarked_headers (status : Status (Option (Mode × Mode))) (content : SeenContent) :
    (content.headers git status).StartsMarked afterStatus := by
  intro header hmem
  rcases kind_content header (mem_of_head? hmem) with hkind | hkind | hkind <;>
    simp [afterStatus, hkind, Kind.ofStatus]

theorem plainTexts_injective : Function.Injective (plainTexts git) := by
  rintro ⟨status, content⟩ ⟨other, otherContent⟩ hsame
  have hplain : ∀ patch, ∀ line ∈ (plainHeaders git patch).map Header.text,
      startsHunk line = false := by
    intro patch line hmem
    obtain ⟨header, -, rfl⟩ := mem_map.mp hmem
    exact marker_text header
  obtain ⟨htexts, hbody⟩ := append_inj_of_startsMarked (hplain _) (hplain _)
    (startsMarked_content content) (startsMarked_content otherContent) hsame
  have hheaders := map_injective_iff.mpr Header.text_injective htexts
  obtain ⟨hgit, hrest⟩ := cons.inj hheaders
  obtain ⟨hstatus, hcontent⟩ := append_inj_of_startsMarked
    (afterStatus_plainStatus status) (afterStatus_plainStatus other)
    (startsMarked_headers status content) (startsMarked_headers other otherContent) hrest
  have hsameStatus : status = other := status_inj hgit hstatus
  subst hsameStatus
  rw [content_inj hcontent hbody]

def startsPatch (line : List Char) : Bool :=
  Kind.git.keyword.isPrefixOf line

theorem plainTexts_isBlock (patch : SeenPatch) : (plainTexts git patch).IsBlock startsPatch where
  nonempty := cons_ne_nil _ _
  head := by
    intro first hfirst
    have hline : (gitHeader git patch.status).text = first := Option.some.inj hfirst
    rw [← hline]
    exact isPrefixOf_text_iff.mpr rfl
  tail := by
    intro line hmem
    rcases mem_append.mp hmem with hmem | hmem
    · obtain ⟨header, hheader, rfl⟩ := mem_map.mp hmem
      have hkind : header.kind ≠ .git := by
        intro hkind
        rcases mem_append.mp hheader with hheader | hheader
        · have hstatus := afterStatus_plainStatus patch.status header hheader
          rw [afterStatus, hkind] at hstatus
          cases hstatus
        · rcases kind_content header hheader with hother | hother | hother <;>
            rw [hkind] at hother <;> cases hother
      exact Bool.eq_false_iff.mpr (mt isPrefixOf_text_iff.mp hkind)
    · obtain ⟨char, rest, rfl, hchar⟩ := head_content patch.content line hmem
      simp only [mem_cons, not_mem_nil, or_false] at hchar
      rcases hchar with rfl | rfl | rfl | rfl <;> rfl

theorem patches_of_seenTexts {files others : List SeenFile}
    (hsame : seenTexts git files = seenTexts git others) :
    files.flatMap FileDiff.patches = others.flatMap FileDiff.patches := by
  have hplain : ∀ files : List SeenFile,
      (seenTexts git files).filter (fun line => !namesTarget line) =
        (files.flatMap FileDiff.patches).flatMap (plainTexts git) := by
    intro files
    have hparts : ∀ last, ∀ patch ∈ files.flatMap FileDiff.patches,
        (SeenPatch.texts git last patch).filter (fun line => !namesTarget line) =
          plainTexts git patch := fun last patch _ => filter_texts last patch
    unfold seenTexts
    rw [filter_flatten, map_mapLast, mapLast_congr hparts, mapLast_const]
    rfl
  apply flatMap_injective_of_isBlock plainTexts_isBlock (plainTexts_injective)
  show (files.flatMap FileDiff.patches).flatMap (plainTexts git) =
    (others.flatMap FileDiff.patches).flatMap (plainTexts git)
  rw [← hplain, ← hplain, hsame]

end Headers

section Files

variable {M C : Type}

theorem path_head (file : FileDiff M C) :
    ∃ first rest, file.patches = first :: rest ∧ first.status.newPath = file.path := by
  cases file with
  | single patch => exact ⟨patch, [], rfl, rfl⟩
  | retyped path old new removed added => exact ⟨_, _, rfl, rfl⟩

theorem single_ne_retyped {patch : Patch M C} {path : Path} {old new : Mode}
    {removed added : C} {rest others : List (FileDiff M C)}
    (hnodup : ((.single patch :: rest).map FileDiff.path).Nodup) :
    (.single patch :: rest).flatMap FileDiff.patches ≠
      (.retyped path old new removed added :: others).flatMap FileDiff.patches := by
  intro hsame
  obtain ⟨hpatch, hrest⟩ := cons.inj hsame
  cases rest with
  | nil => cases hrest
  | cons next rest =>
    obtain ⟨first, more, hpatches, hpath⟩ := path_head next
    have hfirst : first = { status := .added path new, content := added } := by
      have hcons : first :: (more ++ rest.flatMap FileDiff.patches) =
          { status := .added path new, content := added } ::
            others.flatMap FileDiff.patches := by
        rw [← cons_append, ← hpatches]
        exact hrest
      exact (cons.inj hcons).1
    have hnext : next.path = path := by
      rw [← hpath, hfirst]
      rfl
    have hown : patch.status.newPath = path := by
      rw [hpatch]
      rfl
    rw [map_cons, nodup_cons] at hnodup
    apply hnodup.1
    show patch.status.newPath ∈ _
    rw [hown, ← hnext]
    simp

theorem files_of_patches {files others : List (FileDiff M C)}
    (hnodup : (files.map FileDiff.path).Nodup) (hothers : (others.map FileDiff.path).Nodup)
    (hsame : files.flatMap FileDiff.patches = others.flatMap FileDiff.patches) :
    files = others := by
  induction files generalizing others with
  | nil =>
    cases others with
    | nil => rfl
    | cons other others => cases other <;> cases hsame
  | cons file rest ih =>
    cases others with
    | nil => cases file <;> cases hsame
    | cons other others =>
      have hrest : rest.flatMap FileDiff.patches = others.flatMap FileDiff.patches →
          rest = others :=
        ih (nodup_cons.mp hnodup).2 (nodup_cons.mp hothers).2
      cases file with
      | single patch =>
        cases other with
        | single otherPatch =>
          obtain ⟨rfl, htail⟩ := cons.inj hsame
          rw [hrest htail]
        | retyped path old new removed added =>
          exact absurd hsame (single_ne_retyped hnodup)
      | retyped path old new removed added =>
        cases other with
        | single otherPatch => exact absurd hsame.symm (single_ne_retyped hothers)
        | retyped otherPath otherOld otherNew otherRemoved otherAdded =>
          obtain ⟨hdeleted, hmore⟩ := cons.inj hsame
          obtain ⟨hadded, htail⟩ := cons.inj hmore
          cases hdeleted
          cases hadded
          rw [hrest htail]

end Files

section Seen

variable {lossy : Lossy}

theorem path_seenFile (last : Bool) (file : FileDiff Modes Content) :
    (seenFile lossy last file).path = file.path := by
  cases file with
  | single patch =>
    obtain ⟨status, content⟩ := patch
    cases status <;> rfl
  | retyped path old new removed added => rfl

theorem paths_seen (diff : Diff) :
    (seen lossy diff).map FileDiff.path = diff.files.map FileDiff.path := by
  unfold seen
  rw [map_mapLast, mapLast_congr fun last file _ => path_seenFile last file, mapLast_const]

variable {git : PathQuoting} {first second : Diff}

theorem seen_of_seenTexts
    (hsame : seenTexts git (seen lossy first) = seenTexts git (seen lossy second)) :
    seen lossy first = seen lossy second := by
  apply files_of_patches
  · rw [paths_seen]
    exact first.nodup
  · rw [paths_seen]
    exact second.nodup
  · exact patches_of_seenTexts hsame

theorem newline_not_mem_pieces (text : List Char) :
    ∀ piece ∈ text.splitOnP (· = '\n'), '\n' ∉ piece := by
  induction text with
  | nil => simp
  | cons char text ih =>
    intro piece hmem
    rw [splitOnP_cons_eq_if_modifyHead] at hmem
    split at hmem
    · rcases mem_cons.mp hmem with rfl | hmem
      · simp
      · exact ih piece hmem
    next hchar =>
      obtain ⟨first, rest, hpieces⟩ :=
        exists_cons_of_ne_nil (splitOnP_ne_nil (· = '\n') text)
      rw [hpieces] at hmem ih
      rcases mem_cons.mp hmem with rfl | hmem
      · have hnewline : '\n' ≠ char := by simpa [eq_comm] using hchar
        simpa [hnewline] using ih first (by simp)
      · exact ih piece (mem_cons_of_mem _ hmem)

theorem newline_not_mem_lines {pieces : List (List Char)}
    (hpieces : ∀ piece ∈ pieces, '\n' ∉ piece) :
    ∀ line ∈ piecesToLines pieces, '\n' ∉ line := by
  induction pieces with
  | nil => simp [piecesToLines]
  | cons piece rest ih =>
    have hpiece := hpieces piece (by simp)
    cases rest with
    | nil =>
      unfold piecesToLines
      split <;> simp [hpiece]
    | cons next rest =>
      intro line hmem
      rcases mem_cons.mp hmem with rfl | hmem
      · unfold stripCarriage
        split
        · exact fun hnewline => hpiece (dropLast_subset _ hnewline)
        · exact hpiece
      · exact ih (forall_mem_cons.mp hpieces).2 line hmem

theorem newline_not_mem_hunkLine {line : List Char} (hline : '\n' ∉ line) :
    '\n' ∉ hunkLine line := by
  have hdrop : ∀ place, '\n' ∉ line.drop place :=
    fun place hmem => hline (mem_of_mem_drop hmem)
  unfold hunkLine
  split
  · split
    · split
      · simp [hdrop]
      · decide
    · decide
  · exact hline

theorem newline_not_mem_comparedLines (text : List Char) :
    ∀ line ∈ comparedLines text, '\n' ∉ line := by
  intro line hmem
  obtain ⟨original, horiginal, rfl⟩ := mem_map.mp hmem
  exact newline_not_mem_hunkLine (newline_not_mem_lines (newline_not_mem_pieces text) original
    (mem_of_mem_filter horiginal))

theorem ne_nil_of_mem_seenTexts {files : List SeenFile} :
    ∀ line ∈ seenTexts git files, line ≠ [] := by
  have hparts : ∀ last, ∀ patch : SeenPatch, ∀ line ∈ SeenPatch.texts git last patch,
      line ≠ [] := by
    intro last patch line hmem
    rcases mem_append.mp hmem with hmem | hmem
    · obtain ⟨header, -, rfl⟩ := mem_map.mp hmem
      unfold Header.shown
      split
      next hlast =>
        rw [trimEnd_renameTo hlast.2]
        exact append_ne_nil_of_left_ne_nil (by decide) _
      · have hkeyword : header.kind.keyword ≠ [] := by
          cases header.kind <;> decide
        exact append_ne_nil_of_left_ne_nil hkeyword _
    · obtain ⟨char, rest, rfl, -⟩ := head_content patch.content line hmem
      simp
  intro line hmem
  obtain ⟨lines, hlines, hline⟩ := mem_flatten.mp hmem
  obtain ⟨last, patch, rfl⟩ := exists_of_mem_mapLast hlines
  exact hparts last patch line hline

theorem seen_of_intercalate
    (hsame : ['\n'].intercalate (comparedLines (outText lossy (patchOutput git first))) =
      ['\n'].intercalate (comparedLines (outText lossy (patchOutput git second)))) :
    seen lossy first = seen lossy second := by
  have hlines : ∀ diff : Diff, ∀ line ∈ comparedLines (outText lossy (patchOutput git diff)),
      '\n' ∉ line ∧ line ≠ [] := by
    intro diff line hmem
    refine ⟨newline_not_mem_comparedLines _ line hmem, ?_⟩
    rw [comparedLines_patchOutput] at hmem
    exact ne_nil_of_mem_seenTexts line hmem
  have htexts := intercalate_inj (hlines first) (hlines second) hsame
  rw [comparedLines_patchOutput, comparedLines_patchOutput] at htexts
  exact seen_of_seenTexts htexts

end Seen

end JeryuForge.Replay
