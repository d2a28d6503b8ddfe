import JeryuForge.Replay.Seen

/-!
# The header lines of a patch

What is in front of the hunks is printable, so it is decoded as it was printed.  Index
lines are dropped.  The last line of a patch may be a header line; only the new name of a
renamed file can lose blanks there, and it is in the first line of its part already.
-/

namespace JeryuForge.Replay

open List

theorem keyword_prefix_free (first second : Kind) (hstart : first.keyword <+: second.keyword) :
    first = second := by
  revert hstart
  cases first <;> cases second <;> decide

theorem Header.text_injective : Function.Injective Header.text := by
  rintro ⟨kind, rest⟩ ⟨other, others⟩ hsame
  obtain ⟨rfl, rfl⟩ := keyword_append_inj keyword_prefix_free hsame
  rfl

variable {header : Header} {git : PathQuoting} {status : Status Modes}

theorem isPrefixOf_text_iff {kind : Kind} :
    kind.keyword.isPrefixOf header.text = true ↔ header.kind = kind := by
  rw [ isPrefixOf_iff_prefix]
  constructor
  · intro hstart
    have hown : header.kind.keyword <+: header.text := prefix_append _ _
    rcases prefix_or_prefix_of_prefix hstart hown with hle | hle
    · exact (keyword_prefix_free _ _ hle).symm
    · exact keyword_prefix_free _ _ hle
  · rintro rfl
    exact prefix_append _ _

theorem marker_text (header : Header) : ['@', '@'].isPrefixOf header.text = false := by
  unfold Header.text
  cases header.kind <;> rfl

theorem hunkLine_text (header : Header) : hunkLine header.text = header.text := by
  simp [hunkLine, marker_text]

def Header.compared (header : Header) : Bool :=
  header.kind ≠ .index

theorem viewText_header (header : Header) :
    viewText header.text = if header.compared then some header.text else none := by
  unfold viewText Header.compared
  by_cases hindex : header.kind = .index
  · simp [isPrefixOf_text_iff.mpr hindex, hindex]
  · have hnotIndex := mt isPrefixOf_text_iff.mp hindex
    simp [hnotIndex, hindex, hunkLine_text]

theorem isPlain_keyword (kind : Kind) : IsPlain kind.keyword := by
  unfold IsPlain
  cases kind <;> decide

theorem Header.isPlain_text (hrest : IsPlain header.rest) : IsPlain header.text :=
  (isPlain_keyword header.kind).append hrest

theorem isPlain_mode (mode : Mode) : IsPlain mode.text := by
  unfold IsPlain
  cases mode <;> decide

theorem isPlain_quote (git : PathQuoting) (path : Path) : IsPlain (git.quote path) :=
  fun char hmem => .inr (git.printable path char hmem)

theorem isPlain_objectId (id : ObjectId) : IsPlain id.text := by
  intro char hmem
  obtain ⟨digit, -, rfl⟩ := mem_map.mp hmem
  clear hmem
  revert digit
  decide

theorem isPlain_tabbed {name : List Char} (hname : IsPlain name) : IsPlain (tabbed name) := by
  refine hname.append ?_
  split
  · simp [IsPlain]
  · simp [IsPlain]

theorem isPlain_names {M : Type} (git : PathQuoting) (status : Status M) :
    IsPlain (names git status).1 ∧ IsPlain (names git status).2 := by
  have hnull : IsPlain "/dev/null".toList := by
    unfold IsPlain
    decide
  cases status with
  | added path mode => exact ⟨hnull, isPlain_quote _ _⟩
  | deleted path mode => exact ⟨isPlain_quote _ _, hnull⟩
  | modified | renamed => exact ⟨isPlain_quote _ _, isPlain_quote _ _⟩

theorem mem_modeHeaders {modes : Option (Mode × Mode)} :
    ∀ header ∈ modeHeaders modes,
      (header.kind = .oldMode ∨ header.kind = .newMode) ∧ IsPlain header.rest := by
  cases modes <;> simp [modeHeaders, isPlain_mode]

def Kind.ofStatus : Kind → Bool
  | .oldMode | .newMode | .deletedFile | .newFile | .similarity | .renameFrom | .renameTo => true
  | .git | .index | .oldName | .newName | .binary => false

theorem mem_statusHeaders {status : Status (Option (Mode × Mode))} :
    ∀ header ∈ statusHeaders git status, header.kind.ofStatus = true ∧ IsPlain header.rest := by
  have hmodes : ∀ modes, ∀ header ∈ modeHeaders modes,
      header.kind.ofStatus = true ∧ IsPlain header.rest := by
    intro modes header hmem
    obtain ⟨hkind | hkind, hplain⟩ := mem_modeHeaders header hmem
    · exact ⟨by rw [hkind]; rfl, hplain⟩
    · exact ⟨by rw [hkind]; rfl, hplain⟩
  cases status with
  | added | deleted => simp [statusHeaders, Kind.ofStatus, isPlain_mode]
  | modified path modes => exact hmodes modes
  | renamed source target score modes =>
    intro header hmem
    rcases mem_append.mp hmem with hmem | hmem
    · exact hmodes modes header hmem
    · simp only [mem_cons, not_mem_nil, or_false] at hmem
      rcases hmem with rfl | rfl | rfl
      · exact ⟨rfl, (isPlain_digits score).append (by simp [IsPlain])⟩
      · exact ⟨rfl, isPlain_quote git source⟩
      · exact ⟨rfl, isPlain_quote git target⟩

theorem isPlain_keptMode (status : Status Modes) : IsPlain (keptMode status) := by
  unfold keptMode
  split
  · exact isPlain_cons (by decide) (isPlain_mode _)
  · exact isPlain_cons (by decide) (isPlain_mode _)
  · simp [IsPlain]

theorem isPlain_patchHeaders (git : PathQuoting) (patch : Patch Modes Content) :
    ∀ header ∈ patchHeaders git patch, IsPlain header.rest := by
  intro header hmem
  simp only [patchHeaders, cons_append, mem_cons, mem_append] at hmem
  rcases hmem with rfl | (hmem | hmem) | hmem
  · exact (isPlain_quote _ _).append (isPlain_cons (by decide) (isPlain_quote _ _))
  · exact (mem_statusHeaders header hmem).2
  · unfold indexHeaders at hmem
    split at hmem
    · cases hmem
    · rw [mem_singleton.mp hmem]
      exact ((isPlain_objectId _).append (isPlain_cons (by decide)
        (isPlain_cons (by decide) (isPlain_objectId _)))).append (isPlain_keptMode _)
  · have hnames := isPlain_names git patch.status
    unfold contentHeaders at hmem
    split at hmem
    · cases hmem
    · simp only [nameHeaders, mem_cons, not_mem_nil, or_false] at hmem
      rcases hmem with rfl | rfl
      · exact isPlain_tabbed hnames.1
      · exact isPlain_tabbed hnames.2
    · rw [mem_singleton.mp hmem]
      exact ((hnames.1.append (by simp [IsPlain])).append hnames.2).append (by simp [IsPlain])

def EndsVisible (text : List Char) : Prop :=
  ∃ char ∈ text.getLast?, Text.isWhitespace char = false

variable {text : List Char}

theorem EndsVisible.trimEnd_eq (hends : EndsVisible text) : trimEnd text = text := by
  obtain ⟨char, hlast, hvisible⟩ := hends
  obtain ⟨init, rfl⟩ := getLast?_eq_some_iff.mp hlast
  exact rdropWhile_concat_neg _ _ _ (by simp [hvisible])

theorem EndsVisible.trimEnd_append (hends : EndsVisible text) (rest : List Char) :
    trimEnd (text ++ rest) = text ++ trimEnd rest := by
  induction rest using reverseRecOn with
  | nil => simpa [trimEnd] using hends.trimEnd_eq
  | append_singleton rest char ih =>
    unfold trimEnd at ih ⊢
    rw [← append_assoc]
    by_cases hchar : Text.isWhitespace char = true
    · rw [rdropWhile_concat_pos _ _ _ hchar, rdropWhile_concat_pos _ _ _ hchar, ih]
    · rw [rdropWhile_concat_neg _ _ _ hchar, rdropWhile_concat_neg _ _ _ hchar, append_assoc]

theorem EndsVisible.append (hends : EndsVisible text) (before : List Char) :
    EndsVisible (before ++ text) := by
  obtain ⟨char, hlast, hvisible⟩ := hends
  refine ⟨char, ?_, hvisible⟩
  rw [getLast?_append, hlast]
  rfl

theorem endsVisible_mode (mode : Mode) : EndsVisible mode.text := by
  cases mode <;> exact ⟨_, rfl, by decide⟩

theorem endsVisible_objectId (id : ObjectId) : EndsVisible ('.' :: id.text) := by
  rcases eq_nil_or_concat id with rfl | ⟨init, digit, rfl⟩
  · exact ⟨'.', rfl, by decide⟩
  · refine ⟨Nat.digitChar digit.val, by simp [ObjectId.text, getLast?_cons], ?_⟩
    revert digit
    decide

theorem endsVisible_index (status : Status Modes) (content : Content) :
    ∀ header ∈ indexHeaders status content, EndsVisible header.rest := by
  intro header hmem
  unfold indexHeaders at hmem
  split at hmem
  · cases hmem
  · rw [mem_singleton.mp hmem]
    unfold keptMode
    split
    · exact ((endsVisible_mode _).append [' ']).append _
    · exact ((endsVisible_mode _).append [' ']).append _
    · rw [append_nil]
      exact ((endsVisible_objectId _).append ['.']).append _

def Header.Final (header : Header) : Prop :=
  header.kind = .renameTo ∨ EndsVisible header.rest

structure EndsFinal (headers : List Header) : Prop where
  last : ∃ header ∈ headers.getLast?, header.Final
  names : ∀ header ∈ headers.dropLast, header.kind ≠ .renameTo

theorem statusHeaders_endsFinal (hkept : ∀ path mode, status ≠ .modified path (.kept mode)) :
    EndsFinal (statusHeaders git (status.map Modes.shown)) := by
  cases status with
  | added path mode | deleted path mode =>
    exact ⟨⟨_, rfl, .inr (endsVisible_mode mode)⟩, by simp [statusHeaders, Status.map]⟩
  | modified path modes =>
    cases modes with
    | kept mode => exact absurd rfl (hkept path mode)
    | changed old new =>
      exact ⟨⟨_, rfl, .inr (endsVisible_mode new)⟩,
        by simp [statusHeaders, Status.map, Modes.shown, modeHeaders]⟩
  | renamed source target score modes =>
    have hsplit : statusHeaders git ((Status.renamed source target score modes).map
        Modes.shown) =
        (modeHeaders modes.shown ++
          [{ kind := .similarity, rest := digits score ++ ['%'] },
           { kind := .renameFrom, rest := git.quote source }]) ++
          [{ kind := .renameTo, rest := git.quote target }] := by
      simp [statusHeaders, Status.map]
    rw [hsplit]
    refine ⟨⟨_, getLast?_concat, .inl rfl⟩, ?_⟩
    rw [dropLast_concat]
    intro header hmem
    rcases mem_append.mp hmem with hmem | hmem
    · rcases (mem_modeHeaders header hmem).1 with hkind | hkind <;> simp [hkind]
    · simp only [mem_cons, not_mem_nil, or_false] at hmem
      rcases hmem with rfl | rfl <;> simp

theorem EndsFinal.cons {headers : List Header} {first : Header} (hends : EndsFinal headers)
    (hfirst : first.kind ≠ .renameTo) : EndsFinal (first :: headers) := by
  obtain ⟨header, hlast, hfinal⟩ := hends.last
  obtain ⟨init, rfl⟩ := getLast?_eq_some_iff.mp hlast
  have hnames := hends.names
  rw [dropLast_concat] at hnames
  refine ⟨⟨header, by simp [getLast?_cons], hfinal⟩, ?_⟩
  rw [← cons_append, dropLast_concat]
  intro other hother
  rcases mem_cons.mp hother with rfl | hother
  · exact hfirst
  · exact hnames other hother

theorem patchHeaders_endsFinal {old new : ObjectId}
    (hchanges : Patch.Changes { status := status, content := .text old new [] }) :
    EndsFinal (patchHeaders git { status := status, content := .text old new [] }) := by
  have hchange := hchanges old new rfl
  have hheaders : patchHeaders git { status := status, content := .text old new [] } =
      gitHeader git status :: (statusHeaders git (status.map Modes.shown) ++
        indexHeaders status (.text old new [])) := by
    simp [patchHeaders, contentHeaders]
  rw [hheaders]
  refine EndsFinal.cons ?_ (by simp [gitHeader])
  by_cases hsame : old = new
  · have hindex : indexHeaders status (.text old new []) = [] := if_pos hsame
    rw [hindex, append_nil]
    refine statusHeaders_endsFinal ?_
    rintro path mode rfl
    exact hchange
  · -- other blobs and no hunks: an empty file is added or deleted
    obtain ⟨header, hone⟩ : ∃ header, indexHeaders status (.text old new []) = [header] :=
      ⟨_, if_neg hsame⟩
    have hvisible := endsVisible_index status (.text old new []) header (by simp [hone])
    rw [hone]
    refine ⟨⟨header, getLast?_concat, .inr hvisible⟩, ?_⟩
    cases status with
    | added | deleted => simp [statusHeaders, Status.map]
    | modified path modes =>
      cases modes with
      | kept mode => exact absurd hchange id
      | changed first second => exact absurd hchange hsame
    | renamed source target score modes => exact absurd hchange hsame

/-! ## The headers that are compared -/

section View

variable {lossy : Lossy}

theorem stripCarriage_of_not_mem {text : List Char} (htext : '\r' ∉ text) :
    stripCarriage text = text := by
  unfold stripCarriage
  rw [if_neg]
  intro hlast
  exact htext (mem_of_getLast? hlast)

variable {header : Header} {M : Type} {git : PathQuoting}

theorem view_header_false (hplain : IsPlain header.rest) :
    view lossy false (asciiBytes header.text) =
      if header.compared then some header.text else none := by
  have htext := Header.isPlain_text hplain
  unfold view
  rw [decode_asciiBytes htext.ascii, lineText, if_neg (by decide),
    stripCarriage_of_not_mem (htext.not_mem (by decide)), viewText_header]

theorem text_renameTo (hkind : header.kind = .renameTo) :
    header.text = "rename to".toList ++ ' ' :: header.rest := by
  unfold Header.text
  rw [hkind]
  rfl

theorem trimEnd_renameTo (hkind : header.kind = .renameTo) :
    trimEnd header.text = "rename to".toList ++ trimEnd (' ' :: header.rest) := by
  have hvisible : EndsVisible "rename to".toList := ⟨'o', rfl, by decide⟩
  rw [text_renameTo hkind, hvisible.trimEnd_append]

theorem view_header_true (hplain : IsPlain header.rest) (hfinal : header.Final) :
    view lossy true (asciiBytes header.text) =
      if header.compared then some (header.shown true) else none := by
  have htext := Header.isPlain_text hplain
  unfold view
  rw [decode_asciiBytes htext.ascii, lineText, if_pos rfl]
  by_cases hkind : header.kind = .renameTo
  · have hseen : viewText (trimEnd header.text) = some (trimEnd header.text) := by
      rw [trimEnd_renameTo hkind]
      rfl
    simp [Header.compared, Header.shown, hkind, hseen]
  · have hends : EndsVisible header.text := (hfinal.resolve_left hkind).append _
    rw [hends.trimEnd_eq, viewText_header]
    simp [Header.shown, hkind]

def headerBytes (headers : List Header) : List Bytes :=
  headers.map fun header => asciiBytes header.text

@[simp]
theorem shown_false : Header.shown false = Header.text := by
  funext header
  simp [Header.shown]

variable {headers : List Header} {patch : Patch Modes Content}

theorem headerBytes_view_false (hplain : ∀ header ∈ headers, IsPlain header.rest) :
    ((headerBytes headers).mapLast (view lossy) false).filterMap id =
      (headers.filter Header.compared).map Header.text := by
  rw [mapLast_false, headerBytes, map_map]
  induction headers with
  | nil => rfl
  | cons header rest ih =>
    have hrest := ih (forall_mem_cons.mp hplain).2
    rw [map_cons, filterMap_cons, hrest, Function.comp_apply,
      view_header_false (hplain header (by simp)), filter_cons]
    cases header.compared <;> rfl

theorem headerBytes_view_concat {init : List Header}
    (hplain : ∀ other ∈ init ++ [header], IsPlain other.rest) (hfinal : header.Final)
    (last : Bool) :
    ((headerBytes (init ++ [header])).mapLast (view lossy) last).filterMap id =
      (init.filter Header.compared).map Header.text ++
        ([header].filter Header.compared).map (Header.shown last) := by
  have hbefore : ((headerBytes init).mapLast (view lossy) false).filterMap id =
      (init.filter Header.compared).map Header.text :=
    headerBytes_view_false fun other hother => hplain other (by simp [hother])
  have hheader : view lossy last (asciiBytes header.text) =
      if header.compared then some (header.shown last) else none := by
    cases last with
    | false =>
      exact view_header_false (hplain header (by simp))
    | true => exact view_header_true (hplain header (by simp)) hfinal
  have hbytes : headerBytes (init ++ [header]) =
      headerBytes init ++ [asciiBytes header.text] := by
    simp [headerBytes]
  rw [hbytes, mapLast_append_of_ne_nil (by simp), filterMap_append, hbefore,
    mapLast_singleton, hheader]
  cases hcompared : header.compared <;> simp [hcompared]

theorem headerBytes_view (hplain : ∀ header ∈ headers, IsPlain header.rest)
    (hends : EndsFinal headers) (last : Bool) :
    ((headerBytes headers).mapLast (view lossy) last).filterMap id =
      (headers.filter Header.compared).map (Header.shown last) := by
  obtain ⟨header, hlast, hfinal⟩ := hends.last
  obtain ⟨init, rfl⟩ := getLast?_eq_some_iff.mp hlast
  have hnames := hends.names
  rw [dropLast_concat] at hnames
  have hinit : (init.filter Header.compared).map (Header.shown last) =
      (init.filter Header.compared).map Header.text := by
    apply map_congr_left
    intro other hother
    simp [Header.shown, hnames other (mem_of_mem_filter hother)]
  rw [headerBytes_view_concat hplain hfinal, filter_append, map_append, hinit]

theorem gitHeader_map {N : Type} (git : PathQuoting) (f : M → N) (status : Status M) :
    gitHeader git (status.map f) = gitHeader git status := by
  cases status <;> rfl

theorem names_map {N : Type} (git : PathQuoting) (f : M → N) (status : Status M) :
    names git (status.map f) = names git status := by
  cases status <;> rfl

theorem filter_statusHeaders (git : PathQuoting) (status : Status (Option (Mode × Mode))) :
    (statusHeaders git status).filter Header.compared = statusHeaders git status := by
  rw [filter_eq_self]
  intro header hmem
  have hstatus := (mem_statusHeaders header hmem).1
  have hindex : header.kind ≠ .index := by
    intro hkind
    rw [hkind] at hstatus
    cases hstatus
  simp [Header.compared, hindex]

theorem filter_indexHeaders (status : Status Modes) (content : Content) :
    (indexHeaders status content).filter Header.compared = [] := by
  unfold indexHeaders
  split
  · rfl
  · simp [Header.compared]

theorem filter_contentHeaders (git : PathQuoting) (status : Status Modes) (last : Bool)
    (content : Content) :
    (contentHeaders git status content).filter Header.compared =
      (seenContent lossy last content).headers git (status.map Modes.shown) := by
  cases content with
  | binary old new =>
    simp [contentHeaders, seenContent, SeenContent.headers, binaryHeader, names_map,
      Header.compared]
  | text old new hunks =>
    cases hunks with
    | nil => rfl
    | cons hunk hunks =>
      obtain ⟨first, rest, hseen⟩ : ∃ first rest,
          (hunk :: hunks).mapLast (seenHunk lossy) last = first :: rest :=
        exists_cons_of_ne_nil (mt mapLast_eq_nil_iff.mp (by simp))
      simp [contentHeaders, seenContent, hseen, SeenContent.headers, nameHeaders, names_map,
        Header.compared]

theorem filter_patchHeaders (git : PathQuoting) (last : Bool) (patch : Patch Modes Content) :
    (patchHeaders git patch).filter Header.compared =
      SeenPatch.headers git (seenPatch lossy last patch) := by
  have hgit : (gitHeader git patch.status).compared = true := rfl
  unfold patchHeaders SeenPatch.headers seenPatch
  rw [cons_append, cons_append, filter_cons_of_pos hgit, filter_append,
    filter_append, filter_statusHeaders, filter_indexHeaders, append_nil,
    filter_contentHeaders git patch.status last, gitHeader_map]
  rfl

theorem patchBytes_view_of_body (hbody : contentBytes patch.content ≠ []) (last : Bool) :
    ((patchBytes git patch).mapLast (view lossy) last).filterMap id =
      (SeenPatch.headers git (seenPatch lossy last patch)).map Header.text ++
        (seenContent lossy last patch.content).texts := by
  have hbytes : patchBytes git patch =
      headerBytes (patchHeaders git patch) ++ contentBytes patch.content := rfl
  rw [hbytes, mapLast_append_of_ne_nil hbody, filterMap_append,
    headerBytes_view_false (isPlain_patchHeaders git patch), contentBytes_view,
    filter_patchHeaders git last patch]

theorem patchBytes_view (hchanges : patch.Changes) (last : Bool) :
    ((patchBytes git patch).mapLast (view lossy) last).filterMap id =
      SeenPatch.texts git last (seenPatch lossy last patch) := by
  have hplain := isPlain_patchHeaders git patch
  obtain ⟨status, content⟩ := patch
  cases content with
  | binary old new =>
    -- the line that says so is the last one, and ends without a blank
    have hvisible : EndsVisible (binaryHeader git status).rest :=
      EndsVisible.append ⟨'r', rfl, by decide⟩ _
    have hshown : Header.shown last (binaryHeader git status) =
        (binaryHeader git status).text := by
      simp [Header.shown, binaryHeader]
    have hbytes : patchBytes git { status := status, content := .binary old new } =
        headerBytes (patchHeaders git { status := status, content := .binary old new }) := by
      simp [patchBytes, headerBytes, contentBytes]
    have htexts : SeenPatch.texts git last
        (seenPatch lossy last { status := status, content := .binary old new }) =
        ((patchHeaders git { status := status, content := .binary old new }).filter
          Header.compared).map Header.text := by
      rw [@filter_patchHeaders lossy git last]
      simp [SeenPatch.texts, seenPatch, seenContent, SeenContent.texts]
    obtain ⟨init, hsplit⟩ : ∃ init,
      patchHeaders git { status := status, content := .binary old new } =
        init ++ [binaryHeader git status] := ⟨_, rfl⟩
    have hcompared : [binaryHeader git status].filter Header.compared = [binaryHeader git status] :=
      rfl
    rw [hsplit] at hplain
    rw [hbytes, htexts, hsplit, headerBytes_view_concat hplain (.inr hvisible), filter_append,
      map_append, hcompared, map_singleton, map_singleton, hshown]
  | text old new hunks =>
    cases hunks with
    | nil =>
      have hbytes : patchBytes git { status := status, content := .text old new [] } =
          headerBytes (patchHeaders git
            { status := status, content := .text old new [] }) := by
        simp [patchBytes, headerBytes, contentBytes]
      rw [hbytes, headerBytes_view hplain (patchHeaders_endsFinal hchanges),
        @filter_patchHeaders lossy git last]
      simp [SeenPatch.texts, seenPatch, seenContent, SeenContent.texts]
    | cons hunk hunks =>
      have hsome : (hunk :: hunks).mapLast (seenHunk lossy) last ≠ [] :=
        mt mapLast_eq_nil_iff.mp (by simp)
      rw [patchBytes_view_of_body (by simp [contentBytes, hunkBytes])]
      simp [SeenPatch.texts, seenPatch, seenContent, hsome]

theorem patches_seenFile (last : Bool) (file : FileDiff Modes Content) :
    file.patches.mapLast (seenPatch lossy) last = (seenFile lossy last file).patches := by
  cases file <;> rfl

theorem patches_ne_nil {C : Type} (file : FileDiff M C) : file.patches ≠ [] := by
  cases file <;> simp [FileDiff.patches]

theorem patches_seen (files : List (FileDiff Modes Content)) (last : Bool) :
    (files.flatMap FileDiff.patches).mapLast (seenPatch lossy) last =
      (files.mapLast (seenFile lossy) last).flatMap FileDiff.patches := by
  induction files with
  | nil => rfl
  | cons file rest ih =>
    cases rest with
    | nil => simp [patches_seenFile]
    | cons next rest =>
      have hrest : (next :: rest).flatMap FileDiff.patches ≠ [] := by
        simp [patches_ne_nil]
      rw [flatMap_cons, mapLast_append_of_ne_nil hrest, patches_seenFile, ih,
        mapLast_cons_cons, flatMap_cons]

end View

section Lines

variable {lossy : Lossy}

theorem isLine_header {header : Header} (hplain : IsPlain header.rest) :
    IsLine (lossy.decode (asciiBytes header.text)) := by
  have htext := Header.isPlain_text hplain
  rw [decode_asciiBytes htext.ascii]
  refine ⟨htext.not_mem (by decide), ?_⟩
  have hkeyword : ∃ char ∈ header.kind.keyword, Text.isWhitespace char = false := by
    cases header.kind <;> decide
  obtain ⟨char, hmem, hchar⟩ := hkeyword
  exact ⟨char, mem_append_left _ hmem, hchar⟩

theorem isLine_lineBytes (signed : Sign × DiffLine) :
    ∀ line ∈ lineBytes signed, IsLine (lossy.decode line) := by
  have hsigned : IsLine (lossy.decode (asciiBytes [signed.1.char] ++ signed.2.bytes)) := by
    rw [decode_signed]
    have hbytes : '\n' ∉ lossy.decode signed.2.bytes :=
      newline_not_mem_decode signed.2.oneLine
    refine ⟨?_, signed.1.char, by simp, by cases signed.1 <;> decide⟩
    cases signed.1 <;> simp [Sign.char, hbytes]
  have hmarker : IsLine (lossy.decode (asciiBytes unendedMarker)) := by
    rw [decode_unendedMarker]
    exact ⟨by decide, '\\', by decide, by decide⟩
  intro line hmem
  rcases mem_cons.mp hmem with rfl | hmem
  · exact hsigned
  · split at hmem
    · cases hmem
    · rw [mem_singleton.mp hmem]
      exact hmarker

theorem isLine_hunkHeader (hunk : Hunk) : IsLine (lossy.decode (hunkHeader hunk)) := by
  rw [decode_hunkHeader]
  refine ⟨?_, '@', by simp [hunkPlace], by decide⟩
  have hplace : '\n' ∉ hunkPlace hunk := (isPlain_hunkPlace hunk).not_mem (by decide)
  have hcontext : '\n' ∉ contextText lossy hunk.context := by
    unfold contextText
    split
    · simp
    · simp [newline_not_mem_decode hunk.oneLine]
  simp [hplace, hcontext]

theorem isLine_patchBytes (git : PathQuoting) (patch : Patch Modes Content) :
    ∀ line ∈ patchBytes git patch, IsLine (lossy.decode line) := by
  intro line hmem
  rcases mem_append.mp hmem with hmem | hmem
  · obtain ⟨header, hheader, rfl⟩ := mem_map.mp hmem
    exact isLine_header (isPlain_patchHeaders git patch header hheader)
  · cases hcontent : patch.content with
    | binary old new =>
      rw [hcontent] at hmem
      cases hmem
    | text old new hunks =>
      rw [hcontent] at hmem
      obtain ⟨hunk, -, hline⟩ := mem_flatMap.mp hmem
      rcases mem_cons.mp hline with rfl | hline
      · exact isLine_hunkHeader hunk
      · obtain ⟨signed, -, hsigned⟩ := mem_flatMap.mp hline
        exact isLine_lineBytes signed line hsigned

theorem isLine_diffBytes (git : PathQuoting) (diff : Diff) :
    ∀ line ∈ diff.files.flatMap (fileBytes git), IsLine (lossy.decode line) := by
  intro line hmem
  obtain ⟨file, -, hfile⟩ := mem_flatMap.mp hmem
  obtain ⟨patch, -, hpatch⟩ := mem_flatMap.mp hfile
  exact isLine_patchBytes git patch line hpatch

theorem comparedLines_patchOutput (git : PathQuoting) (diff : Diff) :
    comparedLines (outText lossy (patchOutput git diff)) = seenTexts git (seen lossy diff) := by
  have hbytes : diff.files.flatMap (fileBytes git) =
      (diff.files.flatMap FileDiff.patches).flatMap (patchBytes git) :=
    flatMap_assoc.symm
  have hviews : ∀ last, ∀ patch ∈ diff.files.flatMap FileDiff.patches,
      ((patchBytes git patch).mapLast (view lossy) last).filterMap id =
        SeenPatch.texts git last (seenPatch lossy last patch) := by
    intro last patch hpatch
    obtain ⟨file, hfile, hmem⟩ := mem_flatMap.mp hpatch
    exact patchBytes_view (diff.changes file hfile patch hmem) last
  unfold patchOutput seenTexts seen
  rw [comparedLines_printed (isLine_diffBytes git diff), hbytes,
    filterMap_mapLast_flatMap (fun patch _ => by simp [patchBytes, patchHeaders]),
    mapLast_congr hviews, ← patches_seen, mapLast_mapLast]

end Lines

end JeryuForge.Replay
