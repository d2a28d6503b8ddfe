import Mathlib

/-!
# Diffs as git prints them

A diff is a list of files, each with a status, the modes that go with it, and hunks of
removed and added lines or a binary change.  `nameStatusOutput` and `patchOutput` are
what `git diff --name-status -M` and `git diff -U0 -M` print for it.
-/

namespace JeryuForge.Replay

abbrev Bytes := List UInt8

abbrev Path := Bytes

abbrev ObjectId := List (Fin 16)

inductive Mode where
  | regular
  | executable
  | symlink
  | gitlink
deriving DecidableEq, Repr

def Mode.text : Mode → List Char
  | .regular => "100644".toList
  | .executable => "100755".toList
  | .symlink => "120000".toList
  | .gitlink => "160000".toList

inductive Modes where
  | kept (mode : Mode)
  | changed (old new : Mode)
deriving DecidableEq, Repr

/-- What happened to a path; `M` is what is known of the modes of a file that is there
before and after. -/
inductive Status (M : Type) where
  | added (path : Path) (mode : Mode)
  | deleted (path : Path) (mode : Mode)
  | modified (path : Path) (modes : M)
  | renamed (source target : Path) (score : Nat) (modes : M)
deriving DecidableEq, Repr

def Status.oldPath {M : Type} : Status M → Path
  | .added path _ | .deleted path _ | .modified path _ => path
  | .renamed source _ _ _ => source

def Status.newPath {M : Type} : Status M → Path
  | .added path _ | .deleted path _ | .modified path _ => path
  | .renamed _ target _ _ => target

/-- A line of a file; `ended` unless it is a last line without a newline. -/
structure DiffLine where
  bytes : Bytes
  ended : Bool
  oneLine : 10 ∉ bytes
deriving DecidableEq, Repr

structure Hunk where
  oldStart : Nat
  newStart : Nat
  context : Bytes
  removed : List DiffLine
  added : List DiffLine
  oneLine : 10 ∉ context
  changes : removed ≠ [] ∨ added ≠ []
deriving DecidableEq, Repr

/-- The change inside a file; a text without hunks is a file that is empty, moved or has
another mode. -/
inductive Content where
  | text (old new : ObjectId) (hunks : List Hunk)
  | binary (old new : ObjectId)
deriving DecidableEq, Repr

def Content.old : Content → ObjectId
  | .text old _ _ | .binary old _ => old

def Content.new : Content → ObjectId
  | .text _ new _ | .binary _ new => new

structure Patch (M C : Type) where
  status : Status M
  content : C
deriving DecidableEq, Repr

/-- A file of a diff.  One that becomes something else, such as a symlink, is printed as
deleted and added. -/
inductive FileDiff (M C : Type) where
  | single (patch : Patch M C)
  | retyped (path : Path) (old new : Mode) (removed added : C)
deriving DecidableEq, Repr

def FileDiff.path {M C : Type} : FileDiff M C → Path
  | .single patch => patch.status.newPath
  | .retyped path _ _ _ _ => path

def FileDiff.patches {M C : Type} : FileDiff M C → List (Patch M C)
  | .single patch => [patch]
  | .retyped path old new removed added =>
    [{ status := .deleted path old, content := removed },
     { status := .added path new, content := added }]

/-- A file that is there before and after has hunks unless its blob is the same, and then
its path or its mode changes. -/
def Patch.Changes (patch : Patch Modes Content) : Prop :=
  ∀ old new, patch.content = .text old new [] →
    match patch.status with
    | .added _ _ | .deleted _ _ => True
    | .modified _ (.kept _) => False
    | .modified _ (.changed _ _) | .renamed _ _ _ _ => old = new

/-- A diff: every path is there once, and every file changes. -/
structure Diff where
  files : List (FileDiff Modes Content)
  nodup : (files.map FileDiff.path).Nodup
  changes : ∀ file ∈ files, ∀ patch ∈ file.patches, patch.Changes

/-- How git writes a path (`core.quotePath`): names of plain characters as they are,
others quoted and escaped. -/
structure PathQuoting where
  quote : Path → List Char
  injective : Function.Injective quote
  printable : ∀ path, ∀ char ∈ quote path, 32 ≤ char.toNat ∧ char.toNat ≤ 126
  sides : ∀ path, (quote (97 :: 47 :: path)).length = (quote (98 :: 47 :: path)).length

def PathQuoting.oldLabel (git : PathQuoting) (path : Path) : List Char :=
  git.quote (97 :: 47 :: path)

def PathQuoting.newLabel (git : PathQuoting) (path : Path) : List Char :=
  git.quote (98 :: 47 :: path)

def digits (number : Nat) : List Char :=
  Nat.toDigits 10 number

def ObjectId.text (id : ObjectId) : List Char :=
  List.map (fun digit : Fin 16 => Nat.digitChar digit.val) id

def asciiBytes (text : List Char) : Bytes :=
  text.map fun char => char.toNat.toUInt8

/-! ## Header lines -/

inductive Kind where
  | git
  | oldMode
  | newMode
  | deletedFile
  | newFile
  | similarity
  | renameFrom
  | renameTo
  | index
  | oldName
  | newName
  | binary
deriving DecidableEq, Repr

def Kind.keyword : Kind → List Char
  | .git => "diff --git ".toList
  | .oldMode => "old mode ".toList
  | .newMode => "new mode ".toList
  | .deletedFile => "deleted file mode ".toList
  | .newFile => "new file mode ".toList
  | .similarity => "similarity index ".toList
  | .renameFrom => "rename from ".toList
  | .renameTo => "rename to ".toList
  | .index => "index ".toList
  | .oldName => "--- ".toList
  | .newName => "+++ ".toList
  | .binary => "Binary files ".toList

structure Header where
  kind : Kind
  rest : List Char
deriving DecidableEq, Repr

def Header.text (header : Header) : List Char :=
  header.kind.keyword ++ header.rest

def gitHeader {M : Type} (git : PathQuoting) (status : Status M) : Header :=
  { kind := .git
    rest := git.oldLabel status.oldPath ++ ' ' :: git.newLabel status.newPath }

def modeHeaders : Option (Mode × Mode) → List Header
  | none => []
  | some (old, new) =>
    [{ kind := .oldMode, rest := old.text }, { kind := .newMode, rest := new.text }]

def Modes.shown : Modes → Option (Mode × Mode)
  | .kept _ => none
  | .changed old new => some (old, new)

def Status.map {M N : Type} (f : M → N) : Status M → Status N
  | .added path mode => .added path mode
  | .deleted path mode => .deleted path mode
  | .modified path modes => .modified path (f modes)
  | .renamed source target score modes => .renamed source target score (f modes)

def statusHeaders (git : PathQuoting) : Status (Option (Mode × Mode)) → List Header
  | .added _ mode => [{ kind := .newFile, rest := mode.text }]
  | .deleted _ mode => [{ kind := .deletedFile, rest := mode.text }]
  | .modified _ modes => modeHeaders modes
  | .renamed source target score modes =>
    modeHeaders modes ++
      [{ kind := .similarity, rest := digits score ++ ['%'] },
       { kind := .renameFrom, rest := git.quote source },
       { kind := .renameTo, rest := git.quote target }]

def keptMode : Status Modes → List Char
  | .modified _ (.kept mode) | .renamed _ _ _ (.kept mode) => ' ' :: mode.text
  | _ => []

def indexHeaders (status : Status Modes) (content : Content) : List Header :=
  if content.old = content.new then []
  else
    [{ kind := .index
       rest := content.old.text ++ '.' :: '.' :: content.new.text ++ keptMode status }]

def names {M : Type} (git : PathQuoting) : Status M → List Char × List Char
  | .added path _ => ("/dev/null".toList, git.newLabel path)
  | .deleted path _ => (git.oldLabel path, "/dev/null".toList)
  | .modified path _ => (git.oldLabel path, git.newLabel path)
  | .renamed source target _ _ => (git.oldLabel source, git.newLabel target)

def tabbed (name : List Char) : List Char :=
  name ++ if ' ' ∈ name then ['\t'] else []

def nameHeaders {M : Type} (git : PathQuoting) (status : Status M) : List Header :=
  [{ kind := .oldName, rest := tabbed (names git status).1 },
   { kind := .newName, rest := tabbed (names git status).2 }]

def binaryHeader {M : Type} (git : PathQuoting) (status : Status M) : Header :=
  { kind := .binary
    rest := (names git status).1 ++ " and ".toList ++ (names git status).2 ++
      " differ".toList }

def contentHeaders (git : PathQuoting) (status : Status Modes) : Content → List Header
  | .text _ _ [] => []
  | .text _ _ (_ :: _) => nameHeaders git status
  | .binary _ _ => [binaryHeader git status]

def patchHeaders (git : PathQuoting) (patch : Patch Modes Content) : List Header :=
  gitHeader git patch.status :: statusHeaders git (patch.status.map Modes.shown) ++
    indexHeaders patch.status patch.content ++ contentHeaders git patch.status patch.content

def range (start count : Nat) : List Char :=
  digits start ++ if count = 1 then [] else ',' :: digits count

def hunkPlace (hunk : Hunk) : List Char :=
  "@@ -".toList ++ range hunk.oldStart hunk.removed.length ++ " +".toList ++
    range hunk.newStart hunk.added.length ++ " @@".toList

def hunkHeader (hunk : Hunk) : Bytes :=
  asciiBytes (hunkPlace hunk) ++ if hunk.context = [] then [] else 32 :: hunk.context

inductive Sign where
  | removed
  | added
deriving DecidableEq, Repr

def Sign.char : Sign → Char
  | .removed => '-'
  | .added => '+'

def unendedMarker : List Char := "\\ No newline at end of file".toList

def lineBytes (signed : Sign × DiffLine) : List Bytes :=
  (asciiBytes [signed.1.char] ++ signed.2.bytes) ::
    if signed.2.ended then [] else [asciiBytes unendedMarker]

def Hunk.signed (hunk : Hunk) : List (Sign × DiffLine) :=
  hunk.removed.map (Prod.mk .removed) ++ hunk.added.map (Prod.mk .added)

def hunkBytes (hunk : Hunk) : List Bytes :=
  hunkHeader hunk :: hunk.signed.flatMap lineBytes

def contentBytes : Content → List Bytes
  | .text _ _ hunks => hunks.flatMap hunkBytes
  | .binary _ _ => []

def patchBytes (git : PathQuoting) (patch : Patch Modes Content) : List Bytes :=
  (patchHeaders git patch).map (fun header => asciiBytes header.text) ++
    contentBytes patch.content

def fileBytes (git : PathQuoting) (file : FileDiff Modes Content) : List Bytes :=
  file.patches.flatMap (patchBytes git)

def printed (lines : List Bytes) : Bytes :=
  lines.flatMap fun line => line ++ [10]

/-- The output of `git diff -U0 -M`. -/
def patchOutput (git : PathQuoting) (diff : Diff) : Bytes :=
  printed (diff.files.flatMap (fileBytes git))

def nameStatusLine {M C : Type} (git : PathQuoting) : FileDiff M C → List Char
  | .single { status := .added path _, content := _ } => 'A' :: '\t' :: git.quote path
  | .single { status := .deleted path _, content := _ } => 'D' :: '\t' :: git.quote path
  | .single { status := .modified path _, content := _ } => 'M' :: '\t' :: git.quote path
  | .single { status := .renamed source target score _, content := _ } =>
    'R' :: (digits score).leftpad 3 '0' ++ '\t' :: git.quote source ++
      '\t' :: git.quote target
  | .retyped path _ _ _ _ => 'T' :: '\t' :: git.quote path

/-- The output of `git diff --name-status -M`. -/
def nameStatusOutput (git : PathQuoting) (diff : Diff) : Bytes :=
  printed (diff.files.map fun file => asciiBytes (nameStatusLine git file))

end JeryuForge.Replay
