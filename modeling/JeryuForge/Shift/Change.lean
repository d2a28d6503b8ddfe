import JeryuForge.Library.DepthFirst
import JeryuForge.Library.Fallible
import JeryuForge.Library.OrdMap
import JeryuForge.Shift.Actions

/-!
# What an action changes

The closure that `todo_action` runs on the todos of a queue: it finds the todo, checks who
asks and whether a worker is on it, and gives the todo that is written in its place.
-/

namespace JeryuForge.Shift

open List Option

def todosById (existing : List QueuedTodo) : OrdMap String TodoFile :=
  existing.foldl (fun todos row => todos.insert row.todo.id row.todo) ∅

def reworkGraph (existing : List QueuedTodo) : DepthFirst.Graph String where
  links id := ((todosById existing).get? id).map TodoFile.reworks
  nodes := (todosById existing).entries.map Prod.fst
  mem_nodes := by
    intro node links hlinks
    obtain ⟨todo, htodo, -⟩ := Option.map_eq_some_iff.mp hlinks
    exact mem_map.mpr ⟨(node, todo), ((todosById existing).get?_eq_some_iff _ _).mp htodo, rfl⟩

def reworkError (formats : Formats) : DepthFirst.Failure String → String
  | .avoided => "reworks must not reference itself or form a cycle"
  | .missing target =>
    "reworks target " ++ formats.debug target ++ " does not exist in this queue"
  | .cycle => "reworks must not form a cycle"

def validateReworks (formats : Formats) (id : String) (targets : List String)
    (existing : List QueuedTodo) : Except String Unit :=
  if 64 < targets.length then .error "reworks may name at most 64 todos"
  else if targets.dedup.length ≠ targets.length then .error "reworks ids must be unique"
  else
    (DepthFirst.search (reworkGraph existing) id (DepthFirst.pushed targets) [] []).mapError
      (reworkError formats)

def Reworks (existing : List QueuedTodo) (id other : String) : Prop :=
  ∃ row ∈ existing, row.todo.id = id ∧ other ∈ row.todo.reworks

def ReworkReaches (existing : List QueuedTodo) : String → String → Prop :=
  Relation.ReflTransGen (Reworks existing)

def OnReworkCycle (existing : List QueuedTodo) (id : String) : Prop :=
  Relation.TransGen (Reworks existing) id id

section Links

variable {existing : List QueuedTodo}

theorem todosById_get? (hids : (existing.map fun row => row.todo.id).Nodup) {row : QueuedTodo}
    (hrow : row ∈ existing) : (todosById existing).get? row.todo.id = some row.todo := by
  have hsame : ∀ other ∈ existing, other.todo.id = row.todo.id → other.todo = row.todo := by
    intro other hother hid
    rw [inj_on_of_nodup_map hids hother hrow hid]
  exact @OrdMap.get?_foldl_insert_of_mem String TodoFile _ QueuedTodo existing
    (fun row => row.todo.id) QueuedTodo.todo ∅ row hrow hsame

theorem mem_of_todosById_get? {id : String} {todo : TodoFile}
    (hget : (todosById existing).get? id = some todo) : ∃ row ∈ existing, row.todo.id = id := by
  by_contra hnone
  push Not at hnone
  have hempty := @OrdMap.get?_foldl_insert_of_ne String TodoFile _ QueuedTodo existing
    (fun row => row.todo.id) QueuedTodo.todo ∅ id hnone
  unfold todosById at hget
  rw [hempty] at hget
  cases hget

theorem isSome_links_iff (hids : (existing.map fun row => row.todo.id).Nodup) {id : String} :
    ((reworkGraph existing).links id).isSome ↔ ∃ row ∈ existing, row.todo.id = id := by
  constructor
  · intro hsome
    obtain ⟨links, hlinks⟩ := isSome_iff_exists.mp hsome
    obtain ⟨todo, htodo, -⟩ := map_eq_some_iff.mp hlinks
    exact mem_of_todosById_get? htodo
  · rintro ⟨row, hrow, rfl⟩
    simp [reworkGraph, todosById_get? hids hrow]

theorem edge_iff (hids : (existing.map fun row => row.todo.id).Nodup) :
    (reworkGraph existing).Edge = Reworks existing := by
  funext id other
  apply propext
  constructor
  · rintro ⟨links, hlinks, hother⟩
    have hsome : ((reworkGraph existing).links id).isSome := by
      simp [hlinks]
    obtain ⟨row, hrow, rfl⟩ := (isSome_links_iff hids).mp hsome
    simp only [reworkGraph, todosById_get? hids hrow, map_some, some.injEq] at hlinks
    exact ⟨row, hrow, rfl, hlinks ▸ hother⟩
  · rintro ⟨row, hrow, rfl, hother⟩
    exact ⟨row.todo.reworks, by simp [reworkGraph, todosById_get? hids hrow], hother⟩

def MayRework (existing : List QueuedTodo) (id : String) (targets : List String) : Prop :=
  ∀ target ∈ targets, ∀ other, ReworkReaches existing target other →
    (∃ row ∈ existing, row.todo.id = other) ∧ other ≠ id ∧ ¬OnReworkCycle existing other

theorem reachesOnly_iff (hids : (existing.map fun row => row.todo.id).Nodup) {id target : String} :
    (reworkGraph existing).ReachesOnly id target ↔
      ∀ other, ReworkReaches existing target other →
        (∃ row ∈ existing, row.todo.id = other) ∧ other ≠ id ∧
          ¬OnReworkCycle existing other := by
  have hreaches : (reworkGraph existing).Reaches = ReworkReaches existing := by
    unfold DepthFirst.Graph.Reaches ReworkReaches
    rw [edge_iff hids]
  have hcycle : (reworkGraph existing).OnCycle = OnReworkCycle existing := by
    unfold DepthFirst.Graph.OnCycle OnReworkCycle
    rw [edge_iff hids]
  constructor
  · intro honly other hother
    rw [← hreaches] at hother
    rw [← hcycle]
    exact ⟨(isSome_links_iff hids).mp (honly.present other hother),
      honly.avoids other hother, honly.acyclic other hother⟩
  · intro hall
    rw [← hreaches, ← hcycle] at hall
    refine ⟨?_, ?_, ?_⟩
    · intro other hother
      exact (hall other hother).2.1
    · intro other hother
      exact (isSome_links_iff hids).mpr (hall other hother).1
    · intro other hother
      exact (hall other hother).2.2

theorem validateReworks_ok_iff (hids : (existing.map fun row => row.todo.id).Nodup)
    {formats : Formats} {id : String} {targets : List String} :
    validateReworks formats id targets existing = .ok () ↔
      targets.length ≤ 64 ∧ targets.Nodup ∧ MayRework existing id targets := by
  have hunique : targets.dedup.length = targets.length ↔ targets.Nodup := by
    constructor
    · intro hlength
      have hsame := (dedup_sublist targets).eq_of_length hlength
      exact hsame ▸ nodup_dedup targets
    · intro hnodup
      rw [hnodup.dedup]
  unfold validateReworks
  split_ifs with hmany hrepeated
  · simp
    omega
  · simp [hunique.not.mp hrepeated]
  · have hsearch : (∀ target ∈ targets, (reworkGraph existing).ReachesOnly id target) ↔
        MayRework existing id targets := by
      exact forall₂_congr fun target _ => reachesOnly_iff hids
    rw [Except.mapError_eq_ok_iff, DepthFirst.search_ok_iff, hsearch]
    have hnodup := hunique.mp (not_not.mp hrepeated)
    constructor
    · intro hmay
      exact ⟨by omega, hnodup, hmay⟩
    · intro hall
      exact hall.2.2

end Links

def AcyclicReworks (existing : List QueuedTodo) : Prop :=
  ∀ id, ¬OnReworkCycle existing id

def replaceTodo (existing : List QueuedTodo) (id : String) (todo : TodoFile) : List QueuedTodo :=
  existing.map fun row => if row.todo.id = id then { row with todo := todo } else row

theorem transGen_of_new_links {α : Type*} {old new : α → α → Prop} {node : α}
    (hnew : ∀ first second, new first second → first ≠ node → old first second)
    {first second : α} (hway : Relation.TransGen new first second) :
    Relation.TransGen old first second ∨
      Relation.ReflTransGen new first node ∧ Relation.TransGen new node second := by
  induction hway with
  | single hlink =>
    by_cases hfirst : first = node
    · subst hfirst
      exact .inr ⟨.refl, .single hlink⟩
    · exact .inl (.single (hnew _ _ hlink hfirst))
  | tail hway hlink ih =>
    rename_i middle last
    rcases ih with hold | ⟨hto, hfrom⟩
    · by_cases hmiddle : middle = node
      · subst hmiddle
        exact .inr ⟨hway.to_reflTransGen, .single hlink⟩
      · exact .inl (hold.tail (hnew _ _ hlink hmiddle))
    · exact .inr ⟨hto, hfrom.tail hlink⟩

section Edit

variable {existing : List QueuedTodo} {id : String} {todo : TodoFile}

theorem reworks_replaceTodo (hid : todo.id = id) {first second : String}
    (hlink : Reworks (replaceTodo existing id todo) first second) :
    (first ≠ id → Reworks existing first second) ∧ (first = id → second ∈ todo.reworks) := by
  obtain ⟨row, hrow, hfirst, hsecond⟩ := hlink
  obtain ⟨original, horiginal, rfl⟩ := mem_map.mp hrow
  by_cases hsame : original.todo.id = id
  · simp only [hsame, if_true] at hfirst hsecond
    exact ⟨fun hne => absurd (hfirst.symm.trans hid) hne, fun _ => hsecond⟩
  · simp only [hsame, if_false] at hfirst hsecond
    exact ⟨fun _ => ⟨original, horiginal, hfirst, hsecond⟩,
      fun hfirstId => absurd (hfirst.trans hfirstId) hsame⟩

theorem not_onReworkCycle_replaceTodo (hid : todo.id = id)
    (hmay : MayRework existing id todo.reworks) :
    ¬OnReworkCycle (replaceTodo existing id todo) id := by
  intro hcycle
  obtain ⟨target, hlink, hback⟩ := Relation.TransGen.head'_iff.mp hcycle
  have htarget : target ∈ todo.reworks := (reworks_replaceTodo hid hlink).2 rfl
  have hold : ∀ other, ReworkReaches (replaceTodo existing id todo) target other →
      ReworkReaches existing target other := by
    intro other hother
    induction hother with
    | refl => exact .refl
    | tail _ hnext ih =>
      have hne := (hmay target htarget _ ih).2.1
      exact ih.tail ((reworks_replaceTodo hid hnext).1 hne)
  exact (hmay target htarget id (hold id hback)).2.1 rfl

theorem AcyclicReworks.replaceTodo (hacyclic : AcyclicReworks existing) (hid : todo.id = id)
    (hmay : MayRework existing id todo.reworks) :
    AcyclicReworks (replaceTodo existing id todo) := by
  intro other hcycle
  rcases transGen_of_new_links
    (fun first second hlink => (reworks_replaceTodo hid hlink).1) hcycle with hold | ⟨hto, hfrom⟩
  · exact hacyclic other hold
  · have hself := Relation.TransGen.trans_left hfrom hto
    exact not_onReworkCycle_replaceTodo hid hmay hself

theorem AcyclicReworks.replaceTodo_of_same (hacyclic : AcyclicReworks existing) (hid : todo.id = id)
    (hsame : ∀ row ∈ existing, row.todo.id = id → row.todo.reworks = todo.reworks) :
    AcyclicReworks (Shift.replaceTodo existing id todo) := by
  have hlinks : ∀ first second, Reworks (Shift.replaceTodo existing id todo) first second →
      Reworks existing first second := by
    rintro first second ⟨row, hrow, hfirst, hsecond⟩
    obtain ⟨original, horiginal, rfl⟩ := mem_map.mp hrow
    by_cases hkept : original.todo.id = id
    · simp only [hkept, if_true] at hfirst hsecond
      refine ⟨original, horiginal, ?_, ?_⟩
      · rw [hkept, ← hid, hfirst]
      · rw [hsame original horiginal hkept]
        exact hsecond
    · simp only [hkept, if_false] at hfirst hsecond
      exact ⟨original, horiginal, hfirst, hsecond⟩
  intro other hcycle
  exact hacyclic other (Relation.TransGen.mono hlinks _ _ hcycle)

end Edit

open Except

structure Accounts where
  assignablePerson : String → Option String
  mayWork : List String → String → Bool

/-- What `todo_action` answers instead of a write. -/
inductive Refused where
  | notFound
  | externalCard
  | invalid (reason : String)
  | claimLive (claimBy : String)
  | forbidden (reason : String)
deriving DecidableEq, Repr

def TodoActionRequest.takes (request : TodoActionRequest) (caller : Caller) : Bool :=
  request.kind = .release || request.kind = .claim || request.kind = .assign ||
    (request.kind = .done && !caller.admin)

def standingOf (accounts : Accounts) (caller : Caller) (todo : TodoFile) : Standing :=
  { worksHere := caller.admin || accounts.mayWork todo.repos caller.login
    holderActive := todo.assignee.isEmpty || (accounts.assignablePerson todo.assignee).isSome }

section Change

variable (formats : Formats) (accounts : Accounts) (caller : Caller)
  (request : TodoActionRequest) (familyRepos : List String) (now : Int)

def checkLinks (todo : TodoFile) (existing : List QueuedTodo) : Except String Unit :=
  match request.kind, request.reworks with
  | .edit, some targets => validateReworks formats todo.id targets existing
  | _, _ => .ok ()

def actedOn (todo : TodoFile) (existing : List QueuedTodo) : Except String TodoFile := do
  checkLinks formats request todo existing
  if request.kind.assigns then
    applyAssignment formats todo request caller fun login =>
      (accounts.assignablePerson login).filter (accounts.mayWork todo.repos)
  else
    applyAction formats todo request familyRepos

/-- `todo_action`, from the todos it read to the file it writes. -/
def changeTodo (id : String) (existing : List QueuedTodo) : Except Refused (String × TodoFile) :=
  match existing.find? fun row => row.todo.id = id with
  | none => .error .notFound
  | some found =>
    if Text.startsWith found.path "tasks/" then .error .externalCard
    else
      match authorize found.todo request.action caller
          (standingOf accounts caller found.todo) with
      | .error reason => .error (.forbidden reason)
      | .ok () =>
        if request.takes caller && !(request.force && caller.admin) &&
            found.todo.leaseLive formats now then
          .error (.claimLive found.todo.claimBy)
        else
          match actedOn formats accounts caller request familyRepos found.todo existing with
          | .error reason => .error (.invalid reason)
          | .ok todo => .ok (found.path, todo)

end Change

section Frame

variable {formats : Formats} {accounts : Accounts} {caller : Caller}
  {request : TodoActionRequest} {familyRepos : List String} {now : Int}
  {todo next : TodoFile} {existing : List QueuedTodo}

structure KeepsLinks (request : TodoActionRequest) (todo next : TodoFile) : Prop where
  id : next.id = todo.id
  reworks : next.reworks = todo.reworks ∨
    request.kind = .edit ∧ request.reworks = some next.reworks

theorem Hypothesis.edit_keeps {patch : Pipeline.Json}
    (hedit : Hypothesis.edit formats todo patch = .ok next) :
    ∃ extra, next = { todo with extra := extra } := by
  unfold Hypothesis.edit at hedit
  split at hedit
  · cases hedit
  · split at hedit
    · cases hedit
    · obtain ⟨current, -, hedit⟩ := bind_eq_ok hedit
      obtain ⟨record, -, hedit⟩ := bind_eq_ok hedit
      obtain ⟨_, -, hedit⟩ := bind_eq_ok hedit
      obtain ⟨extra, -, hedit⟩ := bind_eq_ok hedit
      exact ⟨extra, (ok.inj hedit).symm⟩

theorem editTitle_keeps {title : Option String} (hedit : editTitle todo title = .ok next) :
    next.id = todo.id ∧ next.reworks = todo.reworks := by
  unfold editTitle at hedit
  split at hedit
  · cases hedit
    exact ⟨rfl, rfl⟩
  · split at hedit
    · cases hedit
    · cases hedit
      exact ⟨rfl, rfl⟩

theorem editRepos_keeps {repos : Option (List String)}
    (hedit : editRepos formats familyRepos todo repos = .ok next) :
    next.id = todo.id ∧ next.reworks = todo.reworks := by
  unfold editRepos at hedit
  split at hedit
  · cases hedit
    exact ⟨rfl, rfl⟩
  · obtain ⟨_, -, hedit⟩ := bind_eq_ok hedit
    split at hedit
    · cases hedit
    · cases hedit
      exact ⟨rfl, rfl⟩

theorem editReworks_keeps {reworks : Option (List String)}
    (hedit : editReworks todo reworks = .ok next) :
    next.id = todo.id ∧ (next.reworks = todo.reworks ∨ reworks = some next.reworks) := by
  unfold editReworks at hedit
  split at hedit
  · cases hedit
    exact ⟨rfl, .inl rfl⟩
  · split at hedit
    · cases hedit
    · split at hedit
      · cases hedit
      · cases hedit
        exact ⟨rfl, .inr rfl⟩

theorem applyEdit_keeps (hkind : request.kind = .edit)
    (hedit : applyEdit formats todo request familyRepos = .ok next) :
    KeepsLinks request todo next := by
  unfold applyEdit at hedit
  split at hedit
  · cases hedit
  · obtain ⟨titled, htitled, hedit⟩ := bind_eq_ok hedit
    obtain ⟨placed, hplaced, hedit⟩ := bind_eq_ok hedit
    obtain ⟨linked, hlinked, hedit⟩ := bind_eq_ok hedit
    cases hedit
    obtain ⟨htitleId, htitleLinks⟩ := editTitle_keeps htitled
    obtain ⟨hplacedId, hplacedLinks⟩ := editRepos_keeps hplaced
    obtain ⟨hlinkedId, hlinkedLinks⟩ := editReworks_keeps hlinked
    refine ⟨hlinkedId.trans (hplacedId.trans htitleId), ?_⟩
    rcases hlinkedLinks with hsame | hnew
    · exact .inl (hsame.trans (hplacedLinks.trans htitleLinks))
    · exact .inr ⟨hkind, hnew⟩

theorem applyAction_keeps (haction : applyAction formats todo request familyRepos = .ok next) :
    KeepsLinks request todo next := by
  unfold applyAction at haction
  split at haction
  · cases haction
  · split at haction
    · cases haction
      exact ⟨rfl, .inl rfl⟩
    · cases haction
      exact ⟨rfl, .inl rfl⟩
    · cases haction
      exact ⟨rfl, .inl rfl⟩
    · cases haction
      exact ⟨rfl, .inl rfl⟩
    · obtain ⟨parkUntil, -, hnext⟩ := bind_eq_ok haction
      cases hnext
      exact ⟨rfl, .inl rfl⟩
    · split at haction
      · cases haction
      · obtain ⟨extra, rfl⟩ := Hypothesis.edit_keeps haction
        exact ⟨rfl, .inl rfl⟩
    · exact applyEdit_keeps ‹_› haction
    · unfold applyPriority at haction
      split at haction
      · split at haction
        · cases haction
          exact ⟨rfl, .inl rfl⟩
        · cases haction
      · cases haction
    · unfold applyMode at haction
      split at haction
      · cases haction
        exact ⟨rfl, .inl rfl⟩
      · cases haction
    all_goals cases haction

variable {assignable : String → Option String} {id path : String}

theorem giveTo_keeps (hgive : giveTo formats todo request caller assignable = .ok next) :
    ∃ assignee note, next = { todo with assignee := assignee, note := note } := by
  unfold giveTo at hgive
  split at hgive
  · cases hgive
  · obtain ⟨target, -, hgive⟩ := bind_eq_ok hgive
    split at hgive
    · cases hgive
    · cases hgive
      exact ⟨_, _, rfl⟩

theorem applyAssignment_keeps
    (happly : applyAssignment formats todo request caller assignable = .ok next) :
    ∃ assignee note, next = { todo with assignee := assignee, note := note } := by
  unfold applyAssignment at happly
  split at happly
  · exact giveTo_keeps happly
  · exact giveTo_keeps happly
  · split at happly
    · cases happly
    · cases happly
      exact ⟨_, _, rfl⟩
  · cases happly

theorem actedOn_ok
    (hacted : actedOn formats accounts caller request familyRepos todo existing = .ok next) :
    (∀ targets, request.kind = .edit → request.reworks = some targets →
        validateReworks formats todo.id targets existing = .ok ()) ∧
      (request.kind.assigns = true ∧
          applyAssignment formats todo request caller (fun login =>
            (accounts.assignablePerson login).filter (accounts.mayWork todo.repos)) = .ok next ∨
        request.kind.assigns = false ∧
          applyAction formats todo request familyRepos = .ok next) := by
  obtain ⟨checked, hchecked, hacted⟩ := bind_eq_ok hacted
  constructor
  · intro targets hkind htargets
    unfold checkLinks at hchecked
    rw [hkind, htargets] at hchecked
    exact hchecked
  · split at hacted
    next hassigns =>
      exact .inl ⟨hassigns, hacted⟩
    next hassigns =>
      exact .inr ⟨Bool.eq_false_iff.mpr hassigns, hacted⟩

theorem actedOn_keeps
    (hacted : actedOn formats accounts caller request familyRepos todo existing = .ok next) :
    KeepsLinks request todo next := by
  rcases (actedOn_ok hacted).2 with ⟨-, hassign⟩ | ⟨-, haction⟩
  · obtain ⟨assignee, note, rfl⟩ := applyAssignment_keeps hassign
    exact ⟨rfl, .inl rfl⟩
  · exact applyAction_keeps haction

structure Accepted (formats : Formats) (accounts : Accounts) (caller : Caller)
    (request : TodoActionRequest) (familyRepos : List String) (now : Int) (id : String)
    (existing : List QueuedTodo) (path : String) (next : TodoFile) (found : QueuedTodo) :
    Prop where
  isFound : existing.find? (fun row => row.todo.id = id) = some found
  path : path = found.path
  native : Text.startsWith found.path "tasks/" = false
  authorized : authorize found.todo request.action caller
    (standingOf accounts caller found.todo) = .ok ()
  leaseOver : request.takes caller = true → (request.force && caller.admin) = false →
    found.todo.leaseLive formats now = false
  acted : actedOn formats accounts caller request familyRepos found.todo existing = .ok next

theorem changeTodo_ok
    (hchange : changeTodo formats accounts caller request familyRepos now id existing =
      .ok (path, next)) :
    ∃ found, Accepted formats accounts caller request familyRepos now id existing path next
      found := by
  unfold changeTodo at hchange
  split at hchange
  · cases hchange
  next found hfound =>
    split at hchange
    · cases hchange
    next hnative =>
      split at hchange
      · cases hchange
      next hauthorized =>
        split at hchange
        · cases hchange
        next hlease =>
          split at hchange
          · cases hchange
          next hacted =>
            cases hchange
            refine ⟨found, hfound, rfl, by simpa using hnative, hauthorized, ?_, hacted⟩
            intro htakes hforced
            simpa [htakes, hforced] using hlease

theorem acyclicReworks_changeTodo (hacyclic : AcyclicReworks existing)
    (hids : (existing.map fun row => row.todo.id).Nodup)
    (hchange : changeTodo formats accounts caller request familyRepos now id existing =
      .ok (path, next)) : AcyclicReworks (replaceTodo existing id next) := by
  obtain ⟨found, haccepted⟩ := changeTodo_ok hchange
  have hmem := List.mem_of_find?_eq_some haccepted.isFound
  have hfoundId : found.todo.id = id := by
    simpa using List.find?_some haccepted.isFound
  have hkeeps := actedOn_keeps haccepted.acted
  have hnextId : next.id = id := hkeeps.id.trans hfoundId
  rcases hkeeps.reworks with hsame | ⟨hkind, htargets⟩
  · refine hacyclic.replaceTodo_of_same hnextId ?_
    intro row hrow hid
    have hrowFound : row = found :=
      List.inj_on_of_nodup_map hids hrow hmem (hid.trans hfoundId.symm)
    rw [hrowFound, hsame]
  · have hvalid := (actedOn_ok haccepted.acted).1 next.reworks hkind htargets
    rw [hfoundId] at hvalid
    exact hacyclic.replaceTodo hnextId ((validateReworks_ok_iff hids).mp hvalid).2.2

end Frame

/-- The check accepts at most 64 distinct ids exactly if everything they lead to is there,
is not the edited todo and is on no cycle; so no accepted action closes a cycle. -/
theorem validateReworks_accepts_iff (formats : Formats) (existing : List QueuedTodo)
    (hids : (existing.map fun row => row.todo.id).Nodup) (id : String) (targets : List String)
    (hmany : targets.length ≤ 64) (hdistinct : targets.Nodup) :
    (validateReworks formats id targets existing = .ok () ↔ MayRework existing id targets) ∧
      (AcyclicReworks existing →
        ∀ accounts caller request familyRepos now path next,
          changeTodo formats accounts caller request familyRepos now id existing =
              .ok (path, next) →
            AcyclicReworks (replaceTodo existing id next)) := by
  constructor
  · rw [validateReworks_ok_iff hids]
    exact ⟨fun haccepted => haccepted.2.2, fun hmay => ⟨hmany, hdistinct, hmay⟩⟩
  · intro hacyclic accounts caller request familyRepos now path next hchange
    exact acyclicReworks_changeTodo hacyclic hids hchange

def redo : QueuedTodo :=
  { path := "todos/b.md"
    todo := { TodoFile.new "b" "acme" "Redo the form" with reworks := ["a"] } }

def original : QueuedTodo :=
  { path := "todos/a.md", todo := TodoFile.new "a" "acme" "The form" }

def plainFormats : Formats where
  parseRfc3339 _ := .error "premature end of input"
  iso _ := ""
  debug text := "\"" ++ text ++ "\""
  isDate _ := false
  serdeError _ := "invalid type"

theorem validateReworks_accepts_redo :
    ([original, redo].map fun row => row.todo.id).Nodup ∧
      (validateReworks plainFormats "c" ["b"] [original, redo] = .ok () ↔
        MayRework [original, redo] "c" ["b"]) :=
  ⟨by decide, (validateReworks_accepts_iff plainFormats [original, redo] (by decide) "c" ["b"]
    (by decide) (by decide)).1⟩

end JeryuForge.Shift
