import JeryuForge.Library.Optimistic
import JeryuForge.Shift.Change
import JeryuForge.Shift.TomlLines

/-!
# Todo actions on the queue branch

`commit_change` reads the todos of the commit the queue branch names, lets the action change
one of them, builds a commit from that and moves the branch if it still names the commit that
was read.  The family's configuration is read once, before.  Workers push to the branch at any
time.
-/

namespace JeryuForge.Shift

open List Optimistic Option

/-! ## The tree of a commit -/

structure Path where
  bytes : List UInt8

def Path.codes (path : Path) : List Nat :=
  path.bytes.map UInt8.toNat

theorem Path.codes_injective : Function.Injective Path.codes := by
  intro first second hsame
  have hbytes : first.bytes = second.bytes :=
    map_injective_iff.mpr (fun _ _ h => UInt8.toNat_inj.mp h) hsame
  cases first
  cases second
  exact congrArg Path.mk hbytes

instance : LinearOrder Path :=
  LinearOrder.lift' Path.codes Path.codes_injective

abbrev Tree := OrdMap Path (List UInt8)

instance : DecidableEq Tree := fun first second =>
  decidable_of_iff (first.entries = second.entries) (by
    cases first
    cases second
    simp)

/-- `str::as_bytes`. -/
def encode (text : String) : List UInt8 :=
  text.toUTF8.data.toList

structure Utf8 where
  decode : List UInt8 → String
  decode_encode : ∀ text, decode (encode text) = text

/-- A family, as its `family.toml` gives it: its key, its repositories and whether its tasks
are cards. -/
structure Family where
  name : String
  repos : List String
  taskCards : Bool
deriving DecidableEq

structure Files where
  toml : TomlText
  formats : Formats
  utf8 : Utf8
  parseFamilyToml : String → String → Except String Family
  /-- `task_cards::read`: the cards of a commit, by the name of their file. -/
  readCards : Nat → Tree → Family → Except String (List (String × TodoFile))

section Read

variable (files : Files)

def showFile (tree : Tree) (path : String) : Option String :=
  (tree.get? ⟨encode path⟩).map files.utf8.decode

def todosFolder : List UInt8 :=
  encode "todos/"

def Path.inTodos (path : Path) : Bool :=
  todosFolder.isPrefixOf path.bytes && !(path.bytes.drop todosFolder.length).contains 47

def nativeTodo (entry : Path × List UInt8) : Option QueuedTodo :=
  if entry.1.inTodos && Text.endsWith (files.utf8.decode entry.1.bytes) ".md" then
    match TodoFile.parse files.toml files.formats (files.utf8.decode entry.2) with
    | .ok todo => some ⟨files.utf8.decode entry.1.bytes, todo⟩
    | .error _ => none
  else
    none

def readNativeTodos (tree : Tree) : List QueuedTodo :=
  tree.entries.filterMap (nativeTodo files)

def splitOnceAt (marker : List Char) : List Char → Option (List Char × List Char)
  | [] => if marker = [] then some ([], []) else none
  | char :: rest =>
    if marker.isPrefixOf (char :: rest) then some ([], (char :: rest).drop marker.length)
    else (splitOnceAt marker rest).map fun halves => (char :: halves.1, halves.2)

def attemptSummary (body : String) : Option String :=
  (splitOnceAt "<!-- external-attempt-summary:start -->".toList body.toList).bind fun halves =>
    (splitOnceAt "<!-- external-attempt-summary:end -->".toList halves.2).map fun inner =>
      String.ofList inner.1

def withEvidence (natives : List QueuedTodo) (card : TodoFile) : TodoFile :=
  match natives.find? fun native => native.todo.id = card.id with
  | none => card
  | some native =>
    { card with
      attempts := native.todo.attempts
      workedBy := native.todo.workedBy
      requestedBy := native.todo.requestedBy
      filedAt := native.todo.filedAt
      body :=
        match attemptSummary native.todo.body with
        | some summary => summary ++ "\n\n" ++ card.body
        | none => card.body }

def externalTask (todo : TodoFile) : Option String :=
  todo.extra.findSome? fun field =>
    if field.1 = "external_task" then
      match field.2 with
      | .string text => some text
      | _ => none
    else
      none

def staysNative (family : Family) (ids : List String) (native : QueuedTodo) : Bool :=
  !ids.contains native.todo.id &&
    !(externalTask native.todo).any fun task =>
      ids.contains (family.name ++ "-" ++ task.map Char.toLower)

def mergeCards (family : Family) (natives : List QueuedTodo) (cards : List (String × TodoFile)) :
    List QueuedTodo :=
  let cards := cards.map fun card => (card.1, withEvidence natives card.2)
  natives.filter (staysNative family (cards.map fun card => card.2.id)) ++
    cards.map fun card => ⟨"tasks/" ++ card.1, card.2⟩

def readTodos (commit : Nat) (tree : Tree) : Except String (List QueuedTodo) :=
  match showFile files tree "family.toml" with
  | none => .ok (readNativeTodos files tree)
  | some text => do
      let family ← files.parseFamilyToml text ""
      if family.taskCards then
        let cards ← files.readCards commit tree family
        return mergeCards family (readNativeTodos files tree) cards
      else
        return readNativeTodos files tree

/-- `discover` in one repository, for one family. -/
def findQueue (fallback : String) (tree : Tree) (key : String) : Option Family :=
  match showFile files tree "family.toml" with
  | none => none
  | some text =>
    match files.parseFamilyToml text fallback with
    | .ok family => if family.name = key then some family else none
    | .error _ => none

end Read

structure Account where
  login : String
  active : Bool

/-- What the account store, the repository store and the grants hold while an action is
checked.  The kind of an account may not be readable. -/
structure Stores where
  getAccount : String → Option Account
  human : String → Bool
  kindReadable : String → Bool
  hostedOwner : String → Option String
  canWrite : String → String → String → Bool

namespace Stores

variable (stores : Stores)

/-- `is_person`; an unreadable kind is not a person. -/
def isPerson (login : String) : Bool :=
  stores.kindReadable login && stores.human login

def assignablePerson (login : String) : Option String :=
  (stores.getAccount login).bind fun account =>
    if account.active && stores.isPerson account.login then some account.login else none

/-- `may_work` in the scope of a todo: one of its repositories, or every one of the family's
if it names none. -/
def mayWork (familyRepos todoRepos : List String) (login : String) : Bool :=
  let hosted (names : List String) : List (String × String) :=
    names.filterMap fun name => (stores.hostedOwner name).map fun owner => (owner, name)
  let writes (repo : String × String) : Bool := stores.canWrite login repo.1 repo.2
  if todoRepos.isEmpty then !(hosted familyRepos).isEmpty && (hosted familyRepos).all writes
  else (hosted todoRepos).any writes

def accounts (familyRepos : List String) : Accounts where
  assignablePerson := stores.assignablePerson
  mayWork := stores.mayWork familyRepos

def ActivePerson (login : String) : Prop :=
  ∃ account, stores.getAccount login = some account ∧ account.active = true ∧
    stores.human account.login = true

end Stores

structure ActionCall where
  caller : Caller
  request : TodoActionRequest
  family : String
  id : String
  now : Int

section Act

variable (files : Files) (fallback : String)

def findFor (tree : Tree) (call : ActionCall) : Option Family :=
  match mayAttempt call.request.action call.caller with
  | .ok () => findQueue files fallback tree call.family
  | .error _ => none

/-- The tree `build_commit` writes. -/
def changeTree (call : ActionCall) (family : Family) (stores : Stores) (commit : Nat)
    (tree : Tree) : Option Tree :=
  match readTodos files commit tree with
  | .error _ => none
  | .ok todos =>
    match changeTodo files.formats (stores.accounts family.repos) call.caller call.request
        family.repos call.now call.id todos with
    | .error _ => none
    | .ok (path, todo) =>
      some (tree.insert ⟨encode path⟩ (encode (todo.dump files.toml)))

/-- `todo_action` as a writer of the queue branch. -/
def queueWriter : Optimistic.Writer Tree ActionCall Family Stores where
  find := findFor files fallback
  change := changeTree files
  attempts := 5

end Act

abbrev QueueState := Optimistic.State Tree ActionCall Family Stores

abbrev QueueEvent := Optimistic.Event Tree ActionCall Stores

abbrev QueueCommit := Optimistic.Commit Tree ActionCall Family Stores

section Reading

variable {files : Files}

theorem mem_readNativeTodos {tree : Tree} {row : QueuedTodo}
    (hmem : row ∈ readNativeTodos files tree) :
    ∃ path content, tree.get? path = some content ∧ path.inTodos = true ∧
      row.path = files.utf8.decode path.bytes ∧
      TodoFile.parse files.toml files.formats (files.utf8.decode content) = .ok row.todo := by
  obtain ⟨⟨path, content⟩, hentry, hrow⟩ := mem_filterMap.mp hmem
  refine ⟨path, content, (tree.get?_eq_some_iff path content).mpr hentry, ?_⟩
  unfold nativeTodo at hrow
  split at hrow
  next htest =>
    split at hrow
    next todo hparse =>
      cases hrow
      exact ⟨(Bool.and_eq_true_iff.mp htest).1, rfl, hparse⟩
    · cases hrow
  · cases hrow

theorem native_of_readTodos {commit : Nat} {tree : Tree} {todos : List QueuedTodo}
    (hread : readTodos files commit tree = .ok todos) {row : QueuedTodo} (hmem : row ∈ todos)
    (hnative : Text.startsWith row.path "tasks/" = false) : row ∈ readNativeTodos files tree := by
  unfold readTodos at hread
  split at hread
  · cases hread
    exact hmem
  · obtain ⟨family, _, hread⟩ := Except.bind_eq_ok hread
    split at hread
    · obtain ⟨cards, _, hread⟩ := Except.bind_eq_ok hread
      cases hread
      rcases mem_append.mp hmem with hstays | hcard
      · exact mem_of_mem_filter hstays
      · obtain ⟨card, _, rfl⟩ := mem_map.mp hcard
        simp [Text.startsWith] at hnative
    · cases hread
      exact hmem

end Reading

def TextNames (files : Files) (tree : Tree) : Prop :=
  ∀ path content, tree.get? path = some content → path.inTodos = true →
    encode (files.utf8.decode path.bytes) = path.bytes

def HolderReadable (files : Files) (tree : Tree) (id : String) (stores : Stores) : Prop :=
  ∀ path content todo account, tree.get? path = some content → path.inTodos = true →
    TodoFile.parse files.toml files.formats (files.utf8.decode content) = .ok todo →
    todo.id = id → stores.getAccount todo.assignee = some account →
    stores.kindReadable account.login = true

instance (files : Files) (tree : Tree) : Decidable (TextNames files tree) :=
  decidable_of_iff
    (∀ entry ∈ tree.entries, entry.1.inTodos = true →
      encode (files.utf8.decode entry.1.bytes) = entry.1.bytes) (by
    constructor
    · intro h path content hcontent
      exact h (path, content) ((tree.get?_eq_some_iff path content).mp hcontent)
    · rintro h ⟨path, content⟩ hentry
      exact h path content ((tree.get?_eq_some_iff path content).mpr hentry))

instance (files : Files) (tree : Tree) (id : String) (stores : Stores) :
    Decidable (HolderReadable files tree id stores) :=
  decidable_of_iff
    (∀ entry ∈ tree.entries, entry.1.inTodos = true →
      ∀ todo ∈ (TodoFile.parse files.toml files.formats (files.utf8.decode entry.2)).toOption,
        todo.id = id → ∀ account ∈ stores.getAccount todo.assignee,
          stores.kindReadable account.login = true) (by
    constructor
    · intro h path content todo account hcontent hfolder hparse hid haccount
      exact h (path, content) ((tree.get?_eq_some_iff path content).mp hcontent) hfolder todo
        (Except.toOption_eq_some.mpr hparse) hid account haccount
    · rintro h ⟨path, content⟩ hentry hfolder todo hparse hid account haccount
      exact h path content todo account ((tree.get?_eq_some_iff path content).mpr hentry) hfolder
        (Except.toOption_eq_some.mp hparse) hid haccount)

structure ActsOn (files : Files) (call : ActionCall) (family : Family) (stores : Stores)
    (commit : Nat) (tree next : Tree) (path : Path) (todo result : TodoFile) : Prop where
  inTodos : path.inTodos = true
  held : ∃ content, tree.get? path = some content ∧
    TodoFile.parse files.toml files.formats (files.utf8.decode content) = .ok todo
  id : todo.id = call.id
  authorized : authorize todo call.request.action call.caller
    (standingOf (stores.accounts family.repos) call.caller todo) = .ok ()
  leaseOver : call.request.takes call.caller = true →
    (call.request.force && call.caller.admin) = false →
    ∀ later, call.now ≤ later → todo.leaseLive files.formats later = false
  applied : ∃ existing, readTodos files commit tree = .ok existing ∧
    actedOn files.formats (stores.accounts family.repos) call.caller call.request family.repos
      todo existing = .ok result
  written : next.get? path = some (encode (result.dump files.toml))
  others : ∀ other, other ≠ path → next.get? other = tree.get? other

variable {todo : TodoFile} {files : Files} {call : ActionCall} {family : Family} {stores : Stores}
  {commit : Nat} {tree next : Tree} {fallback : String}

theorem TodoFile.leaseLive_later {formats : Formats} {now later : Int}
    (hover : todo.leaseLive formats now = false) (hlater : now ≤ later) :
    todo.leaseLive formats later = false := by
  unfold TodoFile.leaseLive at hover ⊢
  rw [Bool.and_eq_false_iff] at hover ⊢
  rcases hover with hstatus | hlease
  · exact .inl hstatus
  · right
    split at hlease
    next leaseUntil hparse =>
      simp only [decide_eq_false_iff_not, not_lt] at hlease ⊢
      exact hlease.trans hlater
    · rfl

theorem actsOn_of_changeTree (hnames : TextNames files tree)
    (hchange : changeTree files call family stores commit tree = some next) :
    ∃ path todo result, ActsOn files call family stores commit tree next path todo result := by
  unfold changeTree at hchange
  split at hchange
  · cases hchange
  next existing hread =>
    split at hchange
    · cases hchange
    next name result hchanged =>
      cases hchange
      obtain ⟨found, haccepted⟩ := changeTodo_ok hchanged
      have hmem := mem_of_find?_eq_some haccepted.isFound
      obtain ⟨path, content, hcontent, hfolder, hpath, hparse⟩ :=
        mem_readNativeTodos (native_of_readTodos hread hmem haccepted.native)
      have hwhere : (⟨encode name⟩ : Path) = path := by
        rw [haccepted.path, hpath, hnames path content hcontent hfolder]
      rw [hwhere]
      exact
        ⟨path, found.todo, result,
          { inTodos := hfolder
            held := ⟨content, hcontent, hparse⟩
            id := by simpa using find?_some haccepted.isFound
            authorized := haccepted.authorized
            leaseOver := fun htakes hforced _ hlater =>
              TodoFile.leaseLive_later (haccepted.leaseOver htakes hforced) hlater
            applied := ⟨existing, hread, haccepted.acted⟩
            written := OrdMap.get?_insert_self _ _ _
            others := fun other hne => OrdMap.get?_insert_of_ne _ _ hne }⟩

theorem holds_of_authorize {action : String} {caller : Caller}
    {standing : Standing} (hadmin : caller.admin = false) (hheld : todo.held standing = true)
    (hauthorized : authorize todo action caller standing = .ok ()) :
    todo.assignee = caller.login := by
  have hperson : authorizePerson todo action caller standing = .ok () := by
    unfold authorize at hauthorized
    split at hauthorized
    · cases hauthorized
    · rw [hadmin] at hauthorized
      split at hauthorized
      · cases ‹false = true›
      · split at hauthorized
        · cases hauthorized
        · split at hauthorized
          · cases hauthorized
          · split at hauthorized
            · cases hauthorized
            · exact hauthorized
  by_contra hother
  unfold authorizePerson at hperson
  rw [hheld] at hperson
  split at hperson <;> simp [hother] at hperson

structure Guarded (files : Files) (call : ActionCall) (stores : Stores) (todo : TodoFile) :
    Prop where
  person : call.caller.admin = false → todo.assignee ≠ "" → stores.ActivePerson todo.assignee →
    todo.assignee = call.caller.login
  worker : call.caller.admin = false →
    call.request.kind ∈ [Action.release, .claim, .assign, .done] →
    ∀ later, call.now ≤ later → todo.leaseLive files.formats later = false

theorem ActsOn.guarded {path : Path} {todo result : TodoFile}
    (h : ActsOn files call family stores commit tree next path todo result)
    (hreadable : HolderReadable files tree call.id stores) : Guarded files call stores todo where
  person := by
    intro hadmin hassignee hactive
    obtain ⟨account, haccount, hisActive, hhuman⟩ := hactive
    obtain ⟨content, hcontent, hparse⟩ := h.held
    have hkind := hreadable path content todo account hcontent h.inTodos hparse h.id haccount
    have hassignable : (stores.assignablePerson todo.assignee).isSome = true := by
      simp [Stores.assignablePerson, Stores.isPerson, haccount, hisActive, hkind, hhuman]
    refine holds_of_authorize hadmin ?_ h.authorized
    simp [TodoFile.held, standingOf, Stores.accounts, hassignable, hassignee]
  worker := by
    intro hadmin hkind
    refine h.leaseOver ?_ (by rw [hadmin, Bool.and_false])
    simp only [mem_cons, not_mem_nil, or_false] at hkind
    unfold TodoActionRequest.takes
    rcases hkind with hkind | hkind | hkind | hkind <;> simp [hkind, hadmin]

/-- The todo files of the parent are named by texts, and the kind of the account that holds
the todo can be read. -/
@[mk_iff]
structure Ready (files : Files) (call : ActionCall) (stores : Stores)
    (parent : Optimistic.Named Tree) : Prop where
  names : TextNames files parent.content
  holder : HolderReadable files parent.content call.id stores

instance (files : Files) (call : ActionCall) (stores : Stores) (parent : Optimistic.Named Tree) :
    Decidable (Ready files call stores parent) :=
  decidable_of_iff' _ (ready_iff files call stores parent)

/-- A request that moves the branch finds the family there as it found it when it started, and
the parent is ready for it. -/
def Steady (files : Files) (fallback : String) : QueueState → QueueEvent → Prop :=
  Optimistic.Settled (queueWriter files fallback) (Ready files)

instance (files : Files) (fallback : String) (state : QueueState) (event : QueueEvent) :
    Decidable (Steady files fallback state event) :=
  inferInstanceAs (Decidable (Optimistic.Settled (queueWriter files fallback) (Ready files)
    state event))

def Lawful (files : Files) (fallback : String) (commit : QueueCommit) : Prop :=
  (queueWriter files fallback).alone commit.call commit.answer commit.parent =
      some commit.result.content ∧
    ∃ path todo result,
      ActsOn files commit.call commit.found commit.answer commit.parent.name
        commit.parent.content commit.result.content path todo result ∧
      Guarded files commit.call commit.answer todo

def Leaves (state next : QueueState) (event : QueueEvent) : Prop :=
  (next.current = state.current ∧ next.log = state.log) ∨
    (∃ target, event = .push target ∧ next.log = state.log ++ [.push next.current]) ∨
    ∃ index commit, event = .swap index true ∧ state.current = some commit.parent ∧
      next.current = some commit.result ∧ next.log = state.log ++ [.act commit]

theorem lawful_of_alone {commit : QueueCommit}
    (halone : commit.Alone (queueWriter files fallback) (Ready files)) :
    Lawful files fallback commit := by
  obtain ⟨hnames, hreadable⟩ := halone.condition
  obtain ⟨path, todo, result, hacts⟩ := actsOn_of_changeTree hnames halone.changed
  refine ⟨?_, path, todo, result, hacts, hacts.guarded hreadable⟩
  unfold Optimistic.Writer.alone
  rw [halone.found]
  exact halone.changed

/-- However todo actions and pushes interleave, the branch goes through the commits of the
actions run one after another, each checked and applied on its parent, and nothing but a push
or the commit of an action moves it. -/
theorem queue_serial (files : Files) (fallback : String) (first : Optimistic.Named Tree)
    (events : List QueueEvent) (final : QueueState)
    (hsteady : (machine (queueWriter files fallback) first).Meets
      (Steady files fallback) events)
    (hrun : (machine (queueWriter files fallback) first).run events = some final) :
    (queueWriter files fallback).replay first final.log = final.current ∧
      (∀ commit, .act commit ∈ final.log → Lawful files fallback commit) ∧
      ∀ event next, step (queueWriter files fallback) final event = some next →
        Leaves final next event := by
  have hserial := run_serial hsteady hrun
  refine ⟨hserial.replayed, ?_, ?_⟩
  · intro commit hmem
    exact lawful_of_alone (hserial.commits commit hmem)
  · intro event next hstep
    cases (step_moved hserial.sound hstep).2 with
    | stayed hcurrent hlog => exact .inl ⟨hcurrent, hlog⟩
    | pushed hlog => exact .inr (.inl ⟨_, rfl, hlog⟩)
    | committed _ _ hold hnew _ hlog => exact .inr (.inr ⟨_, _, rfl, hold, hnew, hlog⟩)

/-! ## A run that is not serial -/

def byteDecode (bytes : List UInt8) : String :=
  match String.fromUTF8? ⟨bytes.toArray⟩ with
  | some text => text
  | none =>
    String.ofList (bytes.map fun byte =>
      if byte < 128 then Char.ofNat byte.toNat else Char.ofNat 0xFFFD)

theorem byteDecode_encode (text : String) : byteDecode (encode text) = text := by
  have hread : String.fromUTF8? ⟨(encode text).toArray⟩ = some text := by
    unfold encode
    rw [String.toUTF8_eq_toByteArray, Array.toArray_toList]
    exact dif_pos text.isValidUTF8
  unfold byteDecode
  rw [hread]

def familyFile (repo : String) : String :=
  "[family]\nname = \"fam\"\n\n[[repo]]\nname = \"" ++ repo ++ "\"\n"

def twoFamilies (text _fallback : String) : Except String Family :=
  if text = familyFile "api" then .ok ⟨"fam", ["api"], false⟩
  else if text = familyFile "web" then .ok ⟨"fam", ["web"], false⟩
  else .error "family.toml is invalid: unexpected text"

def plainFiles : Files where
  toml := lineToml
  formats := plainFormats
  utf8 := ⟨byteDecode, byteDecode_encode⟩
  parseFamilyToml := twoFamilies
  readCards _ _ _ := .ok []

def heldTodo : String :=
  "+++\nid = \"t1\"\nstatus = \"blocked\"\nassignee = \"ann\"\nrepos = [\"api\"]\n+++\n"

def treeOf (files : List (List UInt8 × String)) : Tree :=
  files.foldl (fun tree file => tree.insert ⟨file.1⟩ (encode file.2)) ∅

def startTree : Tree :=
  treeOf [(encode "family.toml", familyFile "api"), (encode "todos/t1.md", heldTodo)]

def pushedTree : Tree :=
  treeOf [(encode "family.toml", familyFile "web"), (encode "todos/t1.md", heldTodo)]

def oddTree : Tree :=
  treeOf [(encode "family.toml", familyFile "api"), (todosFolder ++ 255 :: encode ".md", heldTodo)]

/-- Two active people who may write to every repository; the kind of one of them may not be
readable. -/
def twoPeople (readable : Bool) : Stores where
  getAccount login := if login = "ann" ∨ login = "bo" then some ⟨login, true⟩ else none
  human _ := true
  kindReadable login := readable || login = "bo"
  hostedOwner _ := some "org"
  canWrite _ _ _ := true

def requestOf (action : String) (repos : Option (List String)) : TodoActionRequest :=
  { action := action, value := none, note := none, «until» := none, force := false, title := none
    body := none, repos := repos, reworks := none }

def editCall : ActionCall where
  caller := ⟨"root", true, true⟩
  request := requestOf "edit" (some ["api"])
  family := "fam"
  id := "t1"
  now := 0

def claimCall : ActionCall where
  caller := ⟨"bo", false, true⟩
  request := requestOf "claim" none
  family := "fam"
  id := "t1"
  now := 0

def plainMachine (tree : Tree) : Machine QueueState QueueEvent :=
  machine (queueWriter plainFiles "fam") ⟨0, tree⟩

def staleEdit : List QueueEvent :=
  [.start 0 editCall, .store 1 pushedTree, .push (some 1), .attempt 0 (twoPeople true) 2,
    .swap 0 true]

def soleRun (call : ActionCall) (stores : Stores) : List QueueEvent :=
  [.start 0 call, .attempt 0 stores 1, .swap 0 true]

def committed (tree : Tree) (call : ActionCall) (stores : Stores) : Bool :=
  ((plainMachine tree).run (soleRun call stores)).any fun final => final.head = some 1

def fileAfter (tree : Tree) (call : ActionCall) (stores : Stores) (path : Path) :
    Option (List UInt8) :=
  ((plainMachine tree).run (soleRun call stores)).bind fun final =>
    final.current.bind fun current => current.content.get? path

def oddPath : Path :=
  ⟨todosFolder ++ 255 :: encode ".md"⟩

/-- An edit is checked against repositories that its parent no longer lists; a todo that an
active person holds is claimed by another when the kind of the holder's account cannot be read;
a todo whose file name is no text is written to another file. -/
theorem queue_not_serial :
    (∃ final, (plainMachine startTree).run staleEdit = some final ∧
      (queueWriter plainFiles "fam").replay ⟨0, startTree⟩ final.log ≠ final.current) ∧
    ((twoPeople false).ActivePerson "ann" ∧ claimCall.caller.admin = false ∧
      claimCall.caller.login = "bo" ∧
      (TodoFile.parse lineToml plainFormats heldTodo).toOption.map TodoFile.assignee =
        some "ann" ∧
      committed startTree claimCall (twoPeople false) = true) ∧
    committed oddTree claimCall (twoPeople false) = true ∧
      fileAfter oddTree claimCall (twoPeople false) oddPath = oddTree.get? oddPath ∧
      oddTree.get? ⟨encode (byteDecode oddPath.bytes)⟩ = none ∧
      (fileAfter oddTree claimCall (twoPeople false)
        ⟨encode (byteDecode oddPath.bytes)⟩).isSome = true := by
  have hstale : ((plainMachine startTree).run staleEdit).any (fun final =>
      ((queueWriter plainFiles "fam").replay ⟨0, startTree⟩ final.log).isNone &&
        final.current.isSome) = true := by
    decide +kernel
  refine ⟨?_, ⟨⟨⟨"ann", true⟩, rfl, rfl, rfl⟩, rfl, rfl, by decide +kernel, by decide +kernel⟩,
    by decide +kernel, by decide +kernel, by decide +kernel, by decide +kernel⟩
  obtain ⟨final, hrun, hparts⟩ := (any_eq_true _ _).mp hstale
  obtain ⟨hnone, hsome⟩ := Bool.and_eq_true_iff.mp hparts
  refine ⟨final, hrun, fun hsame => ?_⟩
  rw [← hsame, isNone_iff_eq_none.mp hnone] at hsome
  cases hsome

def doneCall : ActionCall where
  caller := ⟨"ann", false, true⟩
  request := requestOf "done" none
  family := "fam"
  id := "t1"
  now := 0

theorem queue_serial_done :
    committed startTree doneCall (twoPeople true) = true ∧
      ∃ final, (plainMachine startTree).run (soleRun doneCall (twoPeople true)) = some final ∧
        (queueWriter plainFiles "fam").replay ⟨0, startTree⟩ final.log = final.current := by
  have hrun : ((plainMachine startTree).run (soleRun doneCall (twoPeople true))).isSome = true := by
    decide +kernel
  exact ⟨by decide +kernel, _, (some_get hrun).symm,
    (queue_serial plainFiles "fam" ⟨0, startTree⟩ (soleRun doneCall (twoPeople true)) _
      (by decide +kernel) (some_get hrun).symm).1⟩

end JeryuForge.Shift
