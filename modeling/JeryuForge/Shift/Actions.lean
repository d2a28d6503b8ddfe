import JeryuForge.Pipeline.Event

/-!
# Actions on a todo

What an action does to a todo and who may run it.  A todo may be held by a person; anyone
but an administrator acts only on work that waits for a person, and only on these terms.
-/

/-! ## Todos -/

namespace JeryuForge.Shift

/-- A `toml_edit::Value`, without its layout.  A float is kept by its bits, a date and time
as it is written. -/
inductive Toml where
  | string (value : String)
  | integer (value : Int)
  | float (bits : UInt64)
  | boolean (value : Bool)
  | datetime (text : String)
  | array (items : List Toml)
  | inlineTable (members : List (String × Toml))

namespace Toml

def asStr : Toml → Option String
  | .string value => some value
  | _ => none

def asInteger : Toml → Option Int
  | .integer value => some value
  | _ => none

def asBool : Toml → Option Bool
  | .boolean value => some value
  | _ => none

def asArray : Toml → Option (List Toml)
  | .array items => some items
  | _ => none

def asInlineTable : Toml → Option (List (String × Toml))
  | .inlineTable members => some members
  | _ => none

end Toml

inductive TodoStatus where
  | «open»
  | claimed
  | done
  | blocked
  | handoff
  | parked
  | closed
deriving DecidableEq, Repr

namespace TodoStatus

def all : List TodoStatus :=
  [.open, .claimed, .done, .blocked, .handoff, .parked, .closed]

def asStr : TodoStatus → String
  | .open => "open"
  | .claimed => "claimed"
  | .done => "done"
  | .blocked => "blocked"
  | .handoff => "handoff"
  | .parked => "parked"
  | .closed => "closed"

def parse (text : String) : Option TodoStatus :=
  all.find? fun status => status.asStr = text

/-- Staying put is allowed; nothing leaves `done`. -/
def allows (status next : TodoStatus) : Bool :=
  status = next || status ≠ .done

end TodoStatus

structure TodoFile where
  id : String
  family : String
  title : String
  reworks : List String
  body : String
  repos : List String
  mode : String
  priority : Int
  blockedBy : List String
  status : TodoStatus
  attempts : Int
  requestedBy : String
  filedAt : String
  claimBy : String
  leaseUntil : String
  shift : String
  changeSet : String
  commits : List (String × String)
  merged : Bool
  note : String
  parkUntil : String
  assignee : String
  triaged : Bool
  workedBy : List Toml
  extra : List (String × Toml)

def TodoFile.new (id family title : String) : TodoFile :=
  { id := id
    family := family
    title := title
    reworks := []
    body := ""
    repos := []
    mode := "night"
    priority := 3
    blockedBy := []
    status := .open
    attempts := 0
    requestedBy := ""
    filedAt := ""
    claimBy := ""
    leaseUntil := ""
    shift := ""
    changeSet := ""
    commits := []
    merged := false
    note := ""
    parkUntil := ""
    assignee := ""
    triaged := true
    workedBy := []
    extra := [] }

def modes : List String := ["now", "night"]

/-- How the libraries write and read what is not modelled: times by `parse_from_rfc3339`
and `iso`, a text in an error by `{:?}`, a `%Y-%m-%d` date, and the error of a record that
cannot be read from JSON. -/
structure Formats where
  parseRfc3339 : String → Except String Int
  iso : Int → String
  debug : String → String
  isDate : String → Bool
  serdeError : List (String × Pipeline.Json) → String

/-- `status == claimed` with a lease that has not run out. -/
def TodoFile.leaseLive (formats : Formats) (todo : TodoFile) (now : Int) : Bool :=
  todo.status = .claimed &&
    match formats.parseRfc3339 todo.leaseUntil with
    | .ok leaseUntil => now < leaseUntil
    | .error _ => false

structure QueuedTodo where
  path : String
  todo : TodoFile

open Text

open Pipeline (Json)

inductive Action where
  | release
  | block
  | done
  | close
  | park
  | outcomeCheck
  | edit
  | priority
  | mode
  | claim
  | assign
  | unassign
  | unknown
deriving DecidableEq, Repr

def Action.parse (name : String) : Action :=
  if name = "release" then .release
  else if name = "block" then .block
  else if name = "done" then .done
  else if name = "close" then .close
  else if name = "park" then .park
  else if name = "outcome_check" then .outcomeCheck
  else if name = "edit" then .edit
  else if name = "priority" then .priority
  else if name = "mode" then .mode
  else if name = "claim" then .claim
  else if name = "assign" then .assign
  else if name = "unassign" then .unassign
  else .unknown

structure TodoActionRequest where
  action : String
  value : Option Json
  note : Option String
  «until» : Option String
  force : Bool
  title : Option String
  body : Option String
  repos : Option (List String)
  reworks : Option (List String)

def TodoActionRequest.kind (request : TodoActionRequest) : Action :=
  Action.parse request.action

def TodoActionRequest.trimmedNote (request : TodoActionRequest) : Option String :=
  nonEmpty request.note

/-- `Value::as_i64`; a whole number is written without a sign `+`, a fraction or an
exponent. -/
def Json.asI64 : Json → Option Int
  | .number token => parseI64 token
  | _ => none

def Json.asObject : Json → Option (List (String × Json))
  | .object members => some members
  | _ => none

inductive CheckAfter where
  | days (count : Nat)
  | date (text : String)
deriving DecidableEq, Repr

inductive Outcome where
  | met
  | notMet
  | unclear
  | notChecked
deriving DecidableEq, Repr

def Outcome.name : Outcome → String
  | .met => "met"
  | .notMet => "not_met"
  | .unclear => "unclear"
  | .notChecked => "not_checked"

def Outcome.parse (text : String) : Option Outcome :=
  [Outcome.met, .notMet, .unclear, .notChecked].find? fun outcome => outcome.name = text

structure Hypothesis where
  hypothesis : String
  checkAfter : Option CheckAfter
  outcome : Outcome
  outcomeNote : String
deriving DecidableEq, Repr

namespace Hypothesis

def keys : List String := ["hypothesis", "check_after", "outcome", "outcome_note"]

def textMember (fields : List (String × Json)) (key : String) : Option String :=
  match (Json.object fields).get key with
  | none => some ""
  | some value => value.asStr

def checkAfterMember (fields : List (String × Json)) : Option (Option CheckAfter) :=
  match (Json.object fields).get "check_after" with
  | none => some none
  | some .null => some none
  | some (.string text) => some (some (.date text))
  | some value =>
    match Json.asI64 value with
    | some count => if 0 ≤ count ∧ count < 2 ^ 32 then some (some (.days count.toNat)) else none
    | none => none

def outcomeMember (fields : List (String × Json)) : Option Outcome :=
  match (Json.object fields).get "outcome" with
  | none => some .notChecked
  | some (.string text) => Outcome.parse text
  | some (.object [(text, .null)]) => Outcome.parse text
  | some _ => none

/-- `serde_json::from_value`; every member has a default. -/
def fromValue (formats : Formats) (fields : List (String × Json)) : Except String Hypothesis :=
  match textMember fields "hypothesis", checkAfterMember fields, outcomeMember fields,
      textMember fields "outcome_note" with
  | some hypothesis, some checkAfter, some outcome, some outcomeNote =>
    .ok { hypothesis, checkAfter, outcome, outcomeNote }
  | _, _, _, _ => .error (formats.serdeError fields)

def validate (formats : Formats) (record : Hypothesis) : Except String Unit :=
  if 1000 < record.hypothesis.utf8ByteSize ∨ '\n' ∈ record.hypothesis.toList ∨
      '\r' ∈ record.hypothesis.toList then
    .error "hypothesis must be one sentence of at most 1000 bytes"
  else if 16000 < record.outcomeNote.utf8ByteSize then
    .error "outcome_note must be at most 16000 bytes"
  else
    match record.checkAfter with
    | some (.days count) =>
      if 3650 < count then .error "check_after must be at most 3650 days" else .ok ()
    | some (.date text) =>
      if formats.isDate text then .ok ()
      else .error "check_after must be a YYYY-MM-DD date or days after deploy"
    | none => .ok ()

def fieldOf (entry : String × Toml) : Except String (String × Json) :=
  match entry.2 with
  | .string text => .ok (entry.1, .string text)
  | .integer value => .ok (entry.1, .number (toString value))
  | _ => .error ("invalid " ++ entry.1)

def fromFile (formats : Formats) (todo : TodoFile) : Except String Hypothesis := do
  let fields ← (todo.extra.filter fun entry => keys.contains entry.1).mapM fieldOf
  let record ← fromValue formats fields
  validate formats record
  return record

def toValue (record : Hypothesis) : List (String × Json) :=
  [("hypothesis", .string record.hypothesis),
   ("check_after",
     match record.checkAfter with
     | none => .null
     | some (.days count) => .number (toString count)
     | some (.date text) => .string text),
   ("outcome", .string record.outcome.name),
   ("outcome_note", .string record.outcomeNote)]

def setMember (record : List (String × Json)) (entry : String × Json) : List (String × Json) :=
  record.map fun other => if other.1 = entry.1 then entry else other

def setExtra (encoded : List (String × Json)) (extra : List (String × Toml))
    (entry : String × Json) : Except String (List (String × Toml)) :=
  let kept := extra.filter fun other => other.1 ≠ entry.1
  match entry.2 with
  | .null => .ok kept
  | _ =>
    match (Json.object encoded).get entry.1 with
    | some (.string text) => .ok (kept ++ [(entry.1, .string text)])
    | some value =>
      match Json.asI64 value with
      | some count => .ok (kept ++ [(entry.1, .integer count)])
      | none => .error "expected a string"
    | none => .error "expected a string"

def edit (formats : Formats) (todo : TodoFile) (patch : Json) : Except String TodoFile :=
  match Json.asObject patch with
  | none => .error "outcome check needs an object"
  | some fields =>
    if fields.isEmpty || fields.any fun field => !keys.contains field.1 then
      .error "send hypothesis, check_after, outcome or outcome_note"
    else do
      let current ← fromFile formats todo
      let record ← fromValue formats (fields.foldl setMember (toValue current))
      validate formats record
      let extra ← fields.foldlM (setExtra (toValue record)) todo.extra
      return { todo with extra := extra }

end Hypothesis

def Action.target : Action → Option TodoStatus
  | .release => some .open
  | .block => some .blocked
  | .done => some .done
  | .close => some .closed
  | .park => some .parked
  | _ => none

def TodoFile.noted (todo : TodoFile) (note : Option String) : TodoFile :=
  { todo with note := note.getD todo.note }

def applyRelease (todo : TodoFile) (note : Option String) : TodoFile :=
  { todo with
    status := .open
    leaseUntil := ""
    parkUntil := ""
    attempts := 0
    assignee := ""
    note := note.getD "" }

def applyBlock (todo : TodoFile) (request : TodoActionRequest) : TodoFile :=
  TodoFile.noted { todo with status := .blocked, leaseUntil := "" }
    (request.trimmedNote.or (request.value.bind Json.asStr))

def applyEnd (todo : TodoFile) (status : TodoStatus) (note : Option String) : TodoFile :=
  TodoFile.noted { todo with status := status, leaseUntil := "", parkUntil := "" } note

def parkTime (formats : Formats) («until» : Option String) : Except String String :=
  match nonEmpty «until» with
  | none => .ok ""
  | some text =>
    match formats.parseRfc3339 text with
    | .ok time => .ok (formats.iso time)
    | .error reason => .error ("until must be an RFC 3339 time: " ++ reason)

def applyPark (formats : Formats) (todo : TodoFile) (request : TodoActionRequest) :
    Except String TodoFile := do
  let parkUntil ← parkTime formats request.until
  return TodoFile.noted
    { todo with status := .parked, leaseUntil := "", parkUntil := parkUntil }
    request.trimmedNote

def validateList (ids : List String) (what : String) : Except String Unit :=
  if ids.any fun id => (trim id).isEmpty then
    .error (what ++ " entries must not be empty")
  else
    .ok ()

def trimNewlines (text : String) : String :=
  String.ofList (trimMatches (· = '\n') text.toList)

def editTitle (todo : TodoFile) : Option String → Except String TodoFile
  | none => .ok todo
  | some title =>
    if (trim title).isEmpty then .error "title must not be empty"
    else .ok { todo with title := trim title }

def editRepos (formats : Formats) (familyRepos : List String) (todo : TodoFile) :
    Option (List String) → Except String TodoFile
  | none => .ok todo
  | some repos => do
      validateList repos "repos"
      match repos.find? fun repo => !familyRepos.contains repo with
      | some repo =>
        .error ("repo " ++ formats.debug repo ++ " is not in family " ++
          formats.debug todo.family)
      | none => .ok { todo with repos := repos }

def editReworks (todo : TodoFile) : Option (List String) → Except String TodoFile
  | none => .ok todo
  | some reworks =>
    if reworks.any fun id => (trim id).isEmpty then
      .error "reworks ids must not be empty"
    else if reworks.any fun id => id = todo.id then
      .error "a todo cannot rework itself"
    else
      .ok { todo with reworks := reworks }

def TodoFile.triage (todo : TodoFile) : TodoFile :=
  { todo with triaged := todo.triaged || (!todo.title.isEmpty && !todo.repos.isEmpty) }

def applyEdit (formats : Formats) (todo : TodoFile) (request : TodoActionRequest)
    (familyRepos : List String) : Except String TodoFile :=
  if request.title.isNone && request.body.isNone && request.repos.isNone &&
      request.reworks.isNone then
    .error "edit needs one of title, body, repos or reworks"
  else do
    let titled ← editTitle todo request.title
    let written := { titled with body := (request.body.map trimNewlines).getD titled.body }
    let placed ← editRepos formats familyRepos written request.repos
    let linked ← editReworks placed request.reworks
    return linked.triage.noted request.trimmedNote

def applyPriority (todo : TodoFile) (value : Option Json) : Except String TodoFile :=
  match value.bind fun value => (Json.asI64 value).or (value.asStr.bind parseI64) with
  | some priority =>
    if 1 ≤ priority ∧ priority ≤ 4 then .ok { todo with priority := priority }
    else .error "priority needs value 1..4"
  | none => .error "priority needs value 1..4"

def applyMode (todo : TodoFile) (value : Option Json) : Except String TodoFile :=
  match (value.bind Json.asStr).filter modes.contains with
  | some mode => .ok { todo with mode := mode }
  | none => .error "mode needs value \"now\" or \"night\""

def applyAction (formats : Formats) (todo : TodoFile) (request : TodoActionRequest)
    (familyRepos : List String) : Except String TodoFile :=
  if request.kind.target.any fun target => !todo.status.allows target then
    .error ("cannot " ++ request.action ++ " a " ++ todo.status.asStr ++ " todo")
  else
    match request.kind with
    | .release => .ok (applyRelease todo request.trimmedNote)
    | .block => .ok (applyBlock todo request)
    | .done => .ok (applyEnd todo .done request.trimmedNote)
    | .close => .ok (applyEnd todo .closed request.trimmedNote)
    | .park => applyPark formats todo request
    | .outcomeCheck =>
      match request.value with
      | none => .error "outcome_check needs value"
      | some value => Hypothesis.edit formats todo value
    | .edit => applyEdit formats todo request familyRepos
    | .priority => applyPriority todo request.value
    | .mode => applyMode todo request.value
    | .claim | .assign | .unassign | .unknown =>
      .error ("unknown action " ++ formats.debug request.action ++
        "; use release, block, done, close, park, edit, " ++
        "priority, mode, claim, assign or unassign")

structure Caller where
  login : String
  admin : Bool
  person : Bool

structure Standing where
  worksHere : Bool
  holderActive : Bool

def Action.ofPeople : Action → Bool
  | .claim | .assign | .unassign | .done | .outcomeCheck => true
  | _ => false

def Action.assigns : Action → Bool
  | .claim | .assign | .unassign => true
  | _ => false

def notAPerson : String :=
  "only a person can claim a todo; bots and automation accounts work through the queue"

def neitherPersonNorAdmin : String :=
  "only a person or an administrator can act on a todo"

def forAdministrators (action : String) : String :=
  action ++
    " is for administrators; you can claim, assign, unassign, or finish a todo you hold"

def mayAttempt (action : String) (caller : Caller) : Except String Unit :=
  if Action.parse action = .claim && !caller.person then .error notAPerson
  else if caller.admin || (caller.person && (Action.parse action).ofPeople) then .ok ()
  else if !caller.person then .error neitherPersonNorAdmin
  else .error (forAdministrators action)

def TodoStatus.waitsForPerson (status : TodoStatus) : Bool :=
  status = .blocked || status = .handoff

def TodoFile.held (todo : TodoFile) (standing : Standing) : Bool :=
  !todo.assignee.isEmpty && standing.holderActive

def authorizePerson (todo : TodoFile) (action : String) (caller : Caller)
    (standing : Standing) : Except String Unit :=
  let held := todo.held standing
  let holds := held && todo.assignee = caller.login
  let free := !held
  match Action.parse action with
  | .outcomeCheck =>
    if holds || (!held && todo.requestedBy = caller.login) then .ok ()
    else .error "only the owner or an administrator can record an outcome check"
  | .claim =>
    if free || holds then .ok ()
    else
      .error (todo.assignee ++
        " already has this todo; ask them or an administrator to hand it over")
  | .assign =>
    if free || holds then .ok ()
    else
      .error ("only " ++ todo.assignee ++
        " or an administrator can hand this todo to someone else")
  | .unassign | .done =>
    if holds then .ok ()
    else
      .error ("only the person who has this todo can " ++ action ++ " it (it is held by " ++
        (if held then todo.assignee else "nobody") ++ ")")
  | _ => .error (forAdministrators action)

def authorize (todo : TodoFile) (action : String) (caller : Caller) (standing : Standing) :
    Except String Unit :=
  if Action.parse action = .claim && !caller.person then .error notAPerson
  else if caller.admin then .ok ()
  else if !caller.person then .error neitherPersonNorAdmin
  else if !standing.worksHere then
    .error ("you need write access to this todo's code to take it on; ask an " ++
      "administrator for a grant")
  else if (Action.parse action = .claim || Action.parse action = .assign ||
      Action.parse action = .done) && !todo.status.waitsForPerson then
    .error ("a " ++ todo.status.asStr ++ " todo is not waiting on a person; only blocked or " ++
      "handed-off todos can be taken on or finished here, the rest belong to the workers " ++
      "and administrators")
  else authorizePerson todo action caller standing

def assignTarget (request : TodoActionRequest) (caller : Caller) : Except String String :=
  if request.kind = .claim then .ok caller.login
  else
    match nonEmpty (request.value.bind Json.asStr) with
    | some login => .ok login
    | none => .error "assign needs value: the login of the person to give it to"

def giveTo (formats : Formats) (todo : TodoFile) (request : TodoActionRequest)
    (caller : Caller) (assignable : String → Option String) : Except String TodoFile :=
  if todo.status = .done ∨ todo.status = .closed then
    .error ("cannot " ++ request.action ++ " a " ++ todo.status.asStr ++ " todo")
  else do
    let target ← assignTarget request caller
    match assignable target with
    | none =>
      .error (formats.debug target ++ " is not an active person who can work on this " ++
        "todo; pick someone from GET /api/v1/shift/todos/" ++ todo.family ++ "/" ++
        todo.id ++ "/people")
    | some login => .ok (TodoFile.noted { todo with assignee := login } request.trimmedNote)

def applyAssignment (formats : Formats) (todo : TodoFile) (request : TodoActionRequest)
    (caller : Caller) (assignable : String → Option String) : Except String TodoFile :=
  match request.kind with
  | .claim | .assign => giveTo formats todo request caller assignable
  | .unassign =>
    if todo.assignee.isEmpty then .error "nobody has this todo"
    else .ok (TodoFile.noted { todo with assignee := "" } request.trimmedNote)
  | _ => .error (request.action ++ " is not an assignment action")

end JeryuForge.Shift
