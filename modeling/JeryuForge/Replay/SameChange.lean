import JeryuForge.Library.Table
import JeryuForge.Replay.Readback

/-!
# What an accepted replay may still differ in

`ensure_same_change` accepts two diffs exactly if the same is seen of them.  They carry
the same change if they also agree in what is not seen.
-/

namespace JeryuForge.Replay

open List Nat Function

section Accepted

variable {lossy : Lossy} {git : PathQuoting}

theorem nameStatusLine_seenFile (last : Bool) (file : FileDiff Modes Content) :
    nameStatusLine git (seenFile lossy last file) = nameStatusLine git file := by
  cases file with
  | single patch =>
    obtain ⟨status, content⟩ := patch
    cases status <;> rfl
  | retyped path old new removed added => rfl

theorem nameStatusOutput_eq (diff : Diff) :
    nameStatusOutput git diff =
      printed ((seen lossy diff).map fun file => asciiBytes (nameStatusLine git file)) := by
  have hlines : ∀ last, ∀ file ∈ diff.files,
      asciiBytes (nameStatusLine git (seenFile lossy last file)) =
        asciiBytes (nameStatusLine git file) := by
    intro last file _
    rw [nameStatusLine_seenFile]
  unfold nameStatusOutput seen
  rw [map_mapLast, mapLast_congr hlines, mapLast_const]

theorem ensureSameChange_ok_iff_seen {debug : List String → String} {reviewed queued : Diff} :
    ensureSameChange lossy debug (outputs git reviewed) (outputs git queued) = .ok () ↔
      seen lossy reviewed = seen lossy queued := by
  rw [ensureSameChange_ok_iff]
  constructor
  · intro haccepted
    exact seen_of_intercalate haccepted.2
  · intro hsame
    constructor
    · rw [nameStatusOutput_eq, nameStatusOutput_eq, hsame]
    · rw [comparedLines_patchOutput, comparedLines_patchOutput, hsame]

end Accepted

structure HunkChange where
  context : Bytes
  removed : List DiffLine
  added : List DiffLine
deriving DecidableEq, Repr

inductive Change where
  | text (hunks : List HunkChange)
  | binary (old new : ObjectId)
deriving DecidableEq, Repr

def Hunk.change (hunk : Hunk) : HunkChange :=
  { context := hunk.context, removed := hunk.removed, added := hunk.added }

def Content.change : Content → Change
  | .text _ _ hunks => .text (hunks.map Hunk.change)
  | .binary old new => .binary old new

def fileChange : FileDiff Modes Content → FileDiff Modes Change
  | .single patch => .single { status := patch.status, content := patch.content.change }
  | .retyped path old new removed added =>
    .retyped path old new removed.change added.change

def Diff.changes? (diff : Diff) (path : Path) : Option (FileDiff Modes Change) :=
  (diff.files.map fileChange).find? fun file => file.path = path

/-- The same paths with the same status and modes, and for each path the same hunks byte
by byte, line numbers and the object ids of texts aside. -/
def SameChange (reviewed queued : Diff) : Prop :=
  ∀ path, reviewed.changes? path = queued.changes? path

inductive UnseenContent where
  | text (hunks : List (Bytes × List Bytes))
  | binary (old new : ObjectId)
deriving DecidableEq, Repr

/-- The mode of a file that keeps it, and of each part the bytes of its contexts and lines
or the object ids of a binary change. -/
structure UnseenFile where
  mode : Option Mode
  contents : List UnseenContent
deriving DecidableEq, Repr

def Status.kept : Status Modes → Option Mode
  | .modified _ (.kept mode) | .renamed _ _ _ (.kept mode) => some mode
  | _ => none

def HunkChange.bytes (hunk : HunkChange) : Bytes × List Bytes :=
  (hunk.context, (hunk.removed ++ hunk.added).map DiffLine.bytes)

def Change.unseen : Change → UnseenContent
  | .text hunks => .text (hunks.map HunkChange.bytes)
  | .binary old new => .binary old new

def unseenFile : FileDiff Modes Change → UnseenFile
  | .single patch => { mode := patch.status.kept, contents := [patch.content.unseen] }
  | .retyped _ _ _ removed added =>
    { mode := none, contents := [removed.unseen, added.unseen] }

def unseen (diff : Diff) : List UnseenFile :=
  diff.files.map fun file => unseenFile (fileChange file)

section Together

variable {lossy : Lossy}

variable {last : Bool} {first second : Hunk} {reviewed queued : Diff}

theorem seenLine_inj {first second : Sign × DiffLine}
    (hseen : seenLine lossy last first = seenLine lossy last second)
    (hbytes : first.2.bytes = second.2.bytes) : first = second := by
  obtain ⟨sign, bytes, ended, oneLine⟩ := first
  obtain ⟨other, otherBytes, otherEnded, otherOneLine⟩ := second
  have hsign : sign = other := congrArg SeenLine.sign hseen
  have hended : ended = otherEnded := congrArg SeenLine.ended hseen
  have hsame : bytes = otherBytes := hbytes
  subst hsign hended hsame
  rfl

theorem signed_inj (hsame : first.signed = second.signed) :
    first.removed = second.removed ∧ first.added = second.added := by
  have hremoved : ∀ lines : List DiffLine, ∀ line ∈ lines.map (Prod.mk Sign.removed),
      decide (line.1 = .added) = false := by
    simp
  have hadded : ∀ lines : List DiffLine,
      (lines.map (Prod.mk Sign.added)).StartsMarked fun line => decide (line.1 = .added) := by
    intro lines
    cases lines <;> simp [List.StartsMarked]
  obtain ⟨hfirst, hrest⟩ := append_inj_of_startsMarked (hremoved _) (hremoved _)
    (hadded first.added) (hadded second.added) hsame
  exact ⟨map_injective_iff.mpr (Prod.mk_right_injective _) hfirst,
    map_injective_iff.mpr (Prod.mk_right_injective _) hrest⟩

theorem bytes_signed (hunk : Hunk) :
    hunk.signed.map (fun signed => signed.2.bytes) = hunk.change.bytes.2 := by
  simp [Hunk.signed, HunkChange.bytes, Hunk.change, comp_def]

theorem hunk_change_eq (hseen : seenHunk lossy last first = seenHunk lossy last second)
    (hunseen : first.change.bytes = second.change.bytes) : first.change = second.change := by
  have hlines : first.signed.mapLast (seenLine lossy) last =
      second.signed.mapLast (seenLine lossy) last := congrArg SeenHunk.lines hseen
  have hbytes : first.signed.map (fun signed => signed.2.bytes) =
      second.signed.map (fun signed => signed.2.bytes) := by
    rw [bytes_signed, bytes_signed, hunseen]
  have hsigned : first.signed.map id = second.signed.map id := by
    refine map_eq_of_mapLast_eq ?_ hlines hbytes
    intro last line other
    exact seenLine_inj
  rw [map_id, map_id] at hsigned
  obtain ⟨hremoved, hadded⟩ := signed_inj hsigned
  have hcontext : first.context = second.context := congrArg Prod.fst hunseen
  unfold Hunk.change
  rw [hcontext, hremoved, hadded]

theorem content_change_eq {first second : Content}
    (hseen : seenContent lossy last first = seenContent lossy last second)
    (hunseen : first.change.unseen = second.change.unseen) : first.change = second.change := by
  cases first with
  | binary old new =>
    cases second with
    | binary otherOld otherNew =>
      obtain ⟨rfl, rfl⟩ := UnseenContent.binary.inj hunseen
      rfl
    | text otherOld otherNew hunks => cases hseen
  | text old new hunks =>
    cases second with
    | binary otherOld otherNew => cases hseen
    | text otherOld otherNew others =>
      have hhunks := SeenContent.text.inj hseen
      have hbytes : hunks.map (fun hunk => hunk.change.bytes) =
          others.map fun hunk => hunk.change.bytes := by
        simpa [comp_def] using UnseenContent.text.inj hunseen
      have hchange : hunks.map Hunk.change = others.map Hunk.change := by
        refine map_eq_of_mapLast_eq ?_ hhunks hbytes
        intro last hunk other
        exact hunk_change_eq
      exact congrArg Change.text hchange

theorem status_eq {first second : Status Modes}
    (hshown : first.map Modes.shown = second.map Modes.shown) (hkept : first.kept = second.kept) :
    first = second := by
  have hmodes : ∀ modes otherModes : Modes, modes.shown = otherModes.shown →
      (∀ mode otherMode, modes = .kept mode → otherModes = .kept otherMode →
        mode = otherMode) → modes = otherModes := by
    intro modes otherModes hsame hsameMode
    cases modes with
    | kept mode =>
      cases otherModes with
      | kept otherMode => rw [hsameMode mode otherMode rfl rfl]
      | changed old new => cases hsame
    | changed old new =>
      cases otherModes with
      | kept otherMode => cases hsame
      | changed otherOld otherNew =>
        cases hsame
        rfl
  cases first <;> cases second <;>
    simp only [Status.map, Status.added.injEq, Status.deleted.injEq, Status.modified.injEq,
      Status.renamed.injEq, reduceCtorEq] at hshown ⊢
  · exact hshown
  · exact hshown
  · refine ⟨hshown.1, hmodes _ _ hshown.2 ?_⟩
    rintro mode otherMode rfl rfl
    exact Option.some.inj hkept
  · refine ⟨hshown.1, hshown.2.1, hshown.2.2.1, hmodes _ _ hshown.2.2.2 ?_⟩
    rintro mode otherMode rfl rfl
    exact Option.some.inj hkept

theorem fileChange_eq {first second : FileDiff Modes Content}
    (hseen : seenFile lossy last first = seenFile lossy last second)
    (hunseen : unseenFile (fileChange first) = unseenFile (fileChange second)) :
    fileChange first = fileChange second := by
  cases first with
  | single patch =>
    cases second with
    | single other =>
      have hpatch := FileDiff.single.inj hseen
      have hstatus : patch.status = other.status :=
        status_eq (congrArg Patch.status hpatch) (congrArg UnseenFile.mode hunseen)
      have hcontents := congrArg UnseenFile.contents hunseen
      have hcontent : patch.content.change = other.content.change :=
        content_change_eq (congrArg Patch.content hpatch) (cons.inj hcontents).1
      simp only [fileChange, hstatus, hcontent]
    | retyped path old new removed added => cases hseen
  | retyped path old new removed added =>
    cases second with
    | single other => cases hseen
    | retyped otherPath otherOld otherNew otherRemoved otherAdded =>
      obtain ⟨rfl, rfl, rfl, hremoved, hadded⟩ := FileDiff.retyped.inj hseen
      obtain ⟨hfirst, hrest⟩ := cons.inj (congrArg UnseenFile.contents hunseen)
      have hremovedChange := content_change_eq hremoved hfirst
      have haddedChange := content_change_eq hadded (cons.inj hrest).1
      simp only [fileChange, hremovedChange, haddedChange]

theorem changes_eq (hseen : seen lossy reviewed = seen lossy queued)
    (hunseen : unseen reviewed = unseen queued) :
    reviewed.files.map fileChange = queued.files.map fileChange := by
  refine map_eq_of_mapLast_eq ?_ hseen hunseen
  intro last file other
  exact fileChange_eq

theorem path_fileChange (file : FileDiff Modes Content) : (fileChange file).path = file.path := by
  cases file <;> rfl

theorem paths_change (diff : Diff) :
    (diff.files.map fileChange).map FileDiff.path = diff.files.map FileDiff.path := by
  simp [comp_def, path_fileChange]

theorem SameChange.changes_eq (hsame : SameChange reviewed queued)
    (hseen : seen lossy reviewed = seen lossy queued) :
    reviewed.files.map fileChange = queued.files.map fileChange := by
  apply Table.eq_of_find?_eq FileDiff.path
  · rw [paths_change]
    exact reviewed.nodup
  · rw [paths_change, paths_change, ← paths_seen, ← paths_seen, hseen]
  · exact hsame

end Together

/-- An accepted replay carries the reviewed change exactly if the two diffs differ in
something that is seen, or in nothing that is not. -/
theorem ensureSameChange_sameChange_iff (lossy : Lossy) (debug : List String → String)
    (git : PathQuoting) (reviewed queued : Diff) :
    (ensureSameChange lossy debug (outputs git reviewed) (outputs git queued) = .ok () →
        SameChange reviewed queued) ↔
      (seen lossy reviewed = seen lossy queued → unseen reviewed = unseen queued) := by
  rw [ensureSameChange_ok_iff_seen]
  constructor
  · intro hcarries hseen
    have hchanges := (hcarries hseen).changes_eq hseen
    have hunseen := congrArg (map unseenFile) hchanges
    rw [map_map, map_map] at hunseen
    exact hunseen
  · intro hexact hseen path
    unfold Diff.changes?
    rw [changes_eq hseen (hexact hseen)]

/-! ## A binary change that is another one -/

theorem toNat_byteChar (byte : UInt8) : (Char.ofNat byte.toNat).toNat = byte.toNat := by
  have hlow : byte.toNat < 256 := byte.toNat_lt
  have hvalid : byte.toNat.isValidChar := .inl (by omega)
  unfold Char.ofNat
  rw [dif_pos hvalid]
  rfl

def byteDecoder : Lossy where
  decode bytes := bytes.map fun byte => Char.ofNat byte.toNat
  decode_nil := rfl
  decode_ascii before byte after _ := by simp
  ascii_mem := by
    intro bytes char hmem _
    obtain ⟨byte, hbyte, rfl⟩ := mem_map.mp hmem
    rw [toNat_byteChar]
    simpa using hbyte

def plainByte (byte : UInt8) : Bool :=
  32 ≤ byte.toNat && byte.toNat ≤ 126 && byte.toNat != 34 && byte.toNat != 92

def octal (byte : UInt8) : List Char :=
  ['\\', Nat.digitChar (byte.toNat / 64), Nat.digitChar (byte.toNat / 8 % 8),
   Nat.digitChar (byte.toNat % 8)]

def quotePath (path : Path) : List Char :=
  if path.all plainByte then path.map fun byte => Char.ofNat byte.toNat
  else '"' :: (path.flatMap octal ++ ['"'])

theorem digitChar_eq {first second : Nat} (hfirst : first < 8) (hsecond : second < 8)
    (hsame : Nat.digitChar first = Nat.digitChar second) : first = second := by
  have hall : ∀ first second : Fin 8,
      digitChar first.val = digitChar second.val → first.val = second.val := by
    decide
  exact hall ⟨first, hfirst⟩ ⟨second, hsecond⟩ hsame

theorem octalDigit_printable (digit : Nat) (hdigit : digit < 8) :
    32 ≤ (Nat.digitChar digit).toNat ∧ (Nat.digitChar digit).toNat ≤ 126 ∧
      Nat.digitChar digit ≠ '\\' := by
  have hall : ∀ digit : Fin 8, 32 ≤ (digitChar digit.val).toNat ∧
      (digitChar digit.val).toNat ≤ 126 ∧ digitChar digit.val ≠ '\\' := by
    decide
  exact hall ⟨digit, hdigit⟩

theorem octal_injective : Function.Injective octal := by
  intro first second hsame
  have hfirst : first.toNat < 256 := first.toNat_lt
  have hsecond : second.toNat < 256 := second.toNat_lt
  simp only [octal, cons.injEq, true_and, and_true] at hsame
  obtain ⟨hhigh, hmiddle, hlow⟩ := hsame
  have hhighSame := digitChar_eq (by omega) (by omega) hhigh
  have hmiddleSame := digitChar_eq (by omega) (by omega) hmiddle
  have hlowSame := digitChar_eq (by omega) (by omega) hlow
  apply UInt8.toNat_inj.mp
  omega

theorem octal_isBlock (byte : UInt8) : (octal byte).IsBlock (fun char => char = '\\') where
  nonempty := cons_ne_nil _ _
  head := by simp [octal, List.StartsMarked]
  tail := by
    have hbyte : byte.toNat < 256 := byte.toNat_lt
    have hhigh := (octalDigit_printable (byte.toNat / 64) (by omega)).2.2
    have hmiddle := (octalDigit_printable (byte.toNat / 8 % 8) (by omega)).2.2
    have hlow := (octalDigit_printable (byte.toNat % 8) (by omega)).2.2
    simp [octal, hhigh, hmiddle, hlow]

theorem byteChar_injective : Function.Injective fun byte : UInt8 => Char.ofNat byte.toNat := by
  intro first second hsame
  have hnat := congrArg Char.toNat hsame
  simp only [toNat_byteChar] at hnat
  exact UInt8.toNat_inj.mp hnat

theorem plain_text {path : Path} (hplain : path.all plainByte = true) :
    ∀ char ∈ path.map fun byte => Char.ofNat byte.toNat,
      32 ≤ char.toNat ∧ char.toNat ≤ 126 ∧ char ≠ '"' := by
  intro char hmem
  obtain ⟨byte, hbyte, rfl⟩ := mem_map.mp hmem
  have hone := all_eq_true.mp hplain byte hbyte
  simp only [plainByte, Bool.and_eq_true, decide_eq_true_eq, bne_iff_ne] at hone
  refine ⟨?_, ?_, ?_⟩
  · rw [toNat_byteChar]
    exact hone.1.1.1
  · rw [toNat_byteChar]
    exact hone.1.1.2
  · intro hquote
    have hnat := congrArg Char.toNat hquote
    rw [toNat_byteChar] at hnat
    exact hone.1.2 hnat

theorem quotePath_injective : Function.Injective quotePath := by
  intro first second hsame
  unfold quotePath at hsame
  split at hsame
  next hfirst =>
    split at hsame
    · exact map_injective_iff.mpr byteChar_injective hsame
    · have hmem := plain_text hfirst '"' (by rw [hsame]; simp)
      exact absurd rfl hmem.2.2
  · split at hsame
    next hsecond =>
      have hmem := plain_text hsecond '"' (by rw [← hsame]; simp)
      exact absurd rfl hmem.2.2
    · have hbytes := append_cancel_right (cons.inj hsame).2
      exact flatMap_injective_of_isBlock octal_isBlock octal_injective hbytes

theorem quotePath_printable (path : Path) :
    ∀ char ∈ quotePath path, 32 ≤ char.toNat ∧ char.toNat ≤ 126 := by
  intro char hmem
  unfold quotePath at hmem
  split at hmem
  next hplain =>
    exact ⟨(plain_text hplain char hmem).1, (plain_text hplain char hmem).2.1⟩
  · rcases mem_cons.mp hmem with rfl | hmem
    · decide
    · rcases mem_append.mp hmem with hmem | hmem
      · obtain ⟨byte, -, hbyte⟩ := mem_flatMap.mp hmem
        have hlow : byte.toNat < 256 := byte.toNat_lt
        simp only [octal, mem_cons, not_mem_nil, or_false] at hbyte
        rcases hbyte with rfl | rfl | rfl | rfl
        · decide
        · have hdigit := octalDigit_printable (byte.toNat / 64) (by omega)
          exact ⟨hdigit.1, hdigit.2.1⟩
        · have hdigit := octalDigit_printable (byte.toNat / 8 % 8) (by omega)
          exact ⟨hdigit.1, hdigit.2.1⟩
        · have hdigit := octalDigit_printable (byte.toNat % 8) (by omega)
          exact ⟨hdigit.1, hdigit.2.1⟩
      · rw [mem_singleton.mp hmem]
        decide

def plainQuoting : PathQuoting where
  quote := quotePath
  injective := quotePath_injective
  printable := quotePath_printable
  sides path := by
    have hold : (97 :: 47 :: path).all plainByte = path.all plainByte := rfl
    have hnew : (98 :: 47 :: path).all plainByte = path.all plainByte := rfl
    unfold quotePath
    rw [hold, hnew]
    split <;> simp [octal]

def logoChange (new : ObjectId) : Diff where
  files :=
    [.single
      { status := .modified (asciiBytes "logo.png".toList) (.kept .regular)
        content := .binary [10, 10] new }]
  nodup := by simp
  changes := by simp [FileDiff.patches, Patch.Changes]

/-- Another image in the same file is accepted: only the index line tells them apart. -/
theorem otherLogo_accepted :
    ensureSameChange byteDecoder (fun paths => ", ".intercalate paths)
        (outputs plainQuoting (logoChange [11, 11])) (outputs plainQuoting (logoChange [12, 12])) =
          .ok () ∧
      ¬SameChange (logoChange [11, 11]) (logoChange [12, 12]) := by
  constructor
  · rfl
  · intro hsame
    exact absurd (hsame (asciiBytes "logo.png".toList)) (by decide)

open MergeQueue (ReplayFailure isSha)

structure GitAnswers where
  isAncestor : String → String → Bool
  mergeBase : String → String → Except ReplayFailure String
  merges : String → String → Except ReplayFailure String
  commits : String → String → Except ReplayFailure String
  worktreeAdd : String → Except ReplayFailure String
  /-- The commit after a pick, with the committer date it is given. -/
  cherryPick : String → Option String → String → Except ReplayFailure String
  /-- The paths a failed pick leaves in conflict. -/
  conflicted : String → String → Except ReplayFailure (List String)
  revParseHead : String → Except ReplayFailure String
  diff : String → String → Outputs

/-- `saturating_add(1)` of a 64-bit number. -/
def saturatingNext (seconds : Int) : Int :=
  min (seconds + 1) (2 ^ 63 - 1)

def committerSeconds (now after : Int) : Int :=
  max now (saturatingNext after)

def committerDate (now : Int) (committedAfter : Option Int) : Option String :=
  committedAfter.map fun after => "@" ++ toString (committerSeconds now after) ++ " +0000"

section Replay

variable (git : GitAnswers)

def pickAll (date : Option String) : List String → String → Except ReplayFailure String
  | [], work => git.revParseHead work
  | commit :: rest, work =>
    match git.cherryPick work date commit with
    | .ok next => pickAll date rest next
    | .error failure =>
      -- a failure to list the conflicts counts as none
      match (git.conflicted work commit).toOption.getD [] with
      | [] => .error failure
      | paths => .error (.conflict paths)

def replay (lossy : Lossy) (debug : List String → String) (now : Int)
    (baseTip prHead : String) (committedAfter : Option Int) :
    Except ReplayFailure String := do
  if git.isAncestor baseTip prHead then
    return prHead
  let mergeBase := Text.trim (← git.mergeBase baseTip prHead)
  if mergeBase = "" then
    throw (.git ("no merge base between " ++ baseTip ++ " and " ++ prHead))
  if (← git.merges mergeBase prHead) ≠ "" then
    throw .mergeCommits
  let commits ← git.commits mergeBase prHead
  let work ← git.worktreeAdd baseTip
  let queueSha ← pickAll git (committerDate now committedAfter)
    (((lines commits.toList).map String.ofList).filter isSha) work
  ensureSameChange lossy debug (git.diff mergeBase prHead) (git.diff baseTip queueSha)
  return queueSha

end Replay

section Result

variable {git : GitAnswers} {lossy : Lossy} {debug : List String → String} {now : Int}
  {baseTip prHead queueSha : String} {committedAfter : Option Int}

theorem replay_ok
    (hreplay : replay git lossy debug now baseTip prHead committedAfter = .ok queueSha) :
    git.isAncestor baseTip prHead = true ∧ queueSha = prHead ∨
      ∃ answer, git.mergeBase baseTip prHead = .ok answer ∧
        ensureSameChange lossy debug (git.diff (Text.trim answer) prHead)
          (git.diff baseTip queueSha) = .ok () := by
  unfold replay at hreplay
  split at hreplay
  next hancestor =>
    exact .inl ⟨hancestor, (Except.ok.inj hreplay).symm⟩
  · obtain ⟨answer, hanswer, hreplay⟩ := Except.bind_eq_ok hreplay
    dsimp only at hreplay
    split at hreplay
    · cases hreplay
    · obtain ⟨merges, -, hreplay⟩ := Except.bind_eq_ok hreplay
      split at hreplay
      · cases hreplay
      · obtain ⟨commits, -, hreplay⟩ := Except.bind_eq_ok hreplay
        obtain ⟨work, -, hreplay⟩ := Except.bind_eq_ok hreplay
        obtain ⟨picked, -, hreplay⟩ := Except.bind_eq_ok hreplay
        obtain ⟨accepted, haccepted, hreplay⟩ := Except.bind_eq_ok hreplay
        obtain rfl : picked = queueSha := Except.ok.inj hreplay
        exact .inr ⟨answer, hanswer, haccepted⟩

/-- A replay that is accepted is the head itself, or has the change of the pull request as far as
the comparison sees it. -/
theorem replay_seen {quoting : PathQuoting} {diffOf : String → String → Diff}
    (hdiff : ∀ first second, git.diff first second = outputs quoting (diffOf first second))
    (hreplay : replay git lossy debug now baseTip prHead committedAfter = .ok queueSha) :
    git.isAncestor baseTip prHead = true ∧ queueSha = prHead ∨
      ∃ answer, git.mergeBase baseTip prHead = .ok answer ∧
        seen lossy (diffOf (Text.trim answer) prHead) = seen lossy (diffOf baseTip queueSha) := by
  rcases replay_ok hreplay with hsame | ⟨answer, hanswer, haccepted⟩
  · exact .inl hsame
  · rw [hdiff, hdiff, ensureSameChange_ok_iff_seen] at haccepted
    exact .inr ⟨answer, hanswer, haccepted⟩

end Result

/-- One commit is picked; the commit after it has another logo. -/
def logoGit : GitAnswers where
  isAncestor _ _ := false
  mergeBase _ _ := .ok "fork\n"
  merges _ _ := .ok ""
  commits _ _ := .ok ("1111111111111111111111111111111111111111" ++ "\n")
  worktreeAdd := .ok
  cherryPick _ _ _ := .ok "queued"
  conflicted _ _ := .ok []
  revParseHead := .ok
  diff _ head := outputs plainQuoting (logoChange (if head = "head" then [11] else [12]))

theorem replay_seen_logo :
    replay logoGit byteDecoder (fun _ => "") 0 "base" "head" none = .ok "queued" ∧
      seen byteDecoder (logoChange [11]) = seen byteDecoder (logoChange [12]) := by
  refine ⟨rfl, ?_⟩
  obtain ⟨-, hhead⟩ | ⟨_, -, hseen⟩ := @replay_seen logoGit byteDecoder (fun _ => "") 0 "base"
    "head" "queued" none plainQuoting
    (fun _ head => logoChange (if head = "head" then [11] else [12])) (fun _ _ => rfl) rfl
  · exact absurd hhead (by decide)
  · exact hseen

end JeryuForge.Replay
