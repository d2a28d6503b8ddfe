import JeryuForge.Library.Ancestry
import JeryuForge.Library.Machine
import JeryuForge.Text

/-!
# What the green ref can name

A run interleaves statuses being recorded, the calls they start, and pushes of the
default branch, rewrites included.  Every commit the ref takes was reported green and carried
by the branch as its call read it; the ref never goes backwards on a branch that only
fast-forwards when no call reads a green commit newer than the branch it read.
-/

universe u

/-! ## Advancing the green ref -/

namespace JeryuForge.GreenRef

inductive CommitStatusState where
  | error
  | failure
  | pending
  | success
deriving DecidableEq, Repr

structure CommitStatus where
  sha : String
  state : CommitStatusState
  context : String
deriving DecidableEq, Repr

def mainHealthContext (repoName : String) : String :=
  repoName ++ "/main-health"

def isObjectId (value : String) : Bool :=
  (value.utf8ByteSize == 40 || value.utf8ByteSize == 64) &&
    value.toList.all Text.isAsciiHexdigit

variable {Commit : Type u}

inductive Advance (Commit : Type u) where
  | moved (before : Option Commit) (target : Commit)
  | unchanged (oid : Commit)
  | notOnDefaultBranch
  | stale (green : Commit)
  | unavailable (reason : String)
deriving DecidableEq

/-- The git the calls run: the best common ancestor of two commits, the commit an
object id names, and the text of a refused ref update. -/
structure Git (Commit : Type u) where
  mergeBase : Commit → Commit → Option Commit
  commitNamed : String → Commit
  refusedUpdate : String

structure Repo (Commit : Type u) where
  branch : Option Commit
  green : Option Commit

inductive Call (Commit : Type u) where
  | opening (sha : String)
  | readingBranch (sha : String)
  | resolvingSha (sha : String) (head : Commit)
  | checkingBranch (sha : String) (head oid : Commit)
  | readingGreen (sha : String) (head oid : Commit)
  | checkingForward (sha : String) (head oid current : Commit)
  | checkingCarried (sha : String) (head oid current : Commit)
  | updating (sha : String) (head oid : Commit) (green : Option Commit)

/-- How one git call ended.  `absent` is the answer of a lookup that worked and found
nothing. -/
inductive GitAnswer where
  | ok
  | absent
  | failed (reason : String)
deriving DecidableEq, Repr

inductive Progress (Commit : Type u) where
  | next (call : Call Commit)
  | returned (repo : Repo Commit) (outcome : Advance Commit)

section Steps

variable [DecidableEq Commit] (git : Git Commit) (defaultBranch : String)

def isAncestor (ancestor descendant : Commit) : Bool :=
  git.mergeBase ancestor descendant == some ancestor

def updateRef (repo : Repo Commit) (oid : Commit) (expected : Option Commit) :
    Repo Commit × Advance Commit :=
  if repo.green = expected then
    ({ repo with green := some oid }, .moved expected oid)
  else
    (repo, .unavailable git.refusedUpdate)

/-- One git call of `advance`, answered against the refs as they are now.  Only the
lookup of the reported sha can answer that there is nothing of that name; an absent
branch or green ref is read off the refs. -/
def advance (repo : Repo Commit) (answer : GitAnswer) :
    Call Commit → Option (Progress Commit)
  | .opening sha =>
    if !isObjectId sha then
      some (.returned repo (.unavailable (sha ++ " is not a full object id")))
    else
      match answer with
      | .failed reason => some (.returned repo (.unavailable reason))
      | .ok => some (.next (.readingBranch sha))
      | .absent => none
  | .readingBranch sha =>
    match answer with
    | .failed reason => some (.returned repo (.unavailable reason))
    | .ok =>
      match repo.branch with
      | some head => some (.next (.resolvingSha sha head))
      | none =>
        some (.returned repo (.unavailable (defaultBranch ++ " resolves to nothing")))
    | .absent => none
  | .resolvingSha sha head =>
    match answer with
    | .failed reason => some (.returned repo (.unavailable reason))
    | .absent => some (.returned repo (.unavailable (sha ++ " names no commit here")))
    | .ok => some (.next (.checkingBranch sha head (git.commitNamed sha)))
  | .checkingBranch sha head oid =>
    match answer with
    | .failed reason => some (.returned repo (.unavailable reason))
    | .ok =>
      if isAncestor git oid head then
        some (.next (.readingGreen sha head oid))
      else
        some (.returned repo .notOnDefaultBranch)
    | .absent => none
  | .readingGreen sha head oid =>
    match answer with
    | .failed reason => some (.returned repo (.unavailable reason))
    | .ok =>
      match repo.green with
      | none => some (.next (.updating sha head oid none))
      | some current =>
        if current = oid then
          some (.returned repo (.unchanged oid))
        else
          some (.next (.checkingForward sha head oid current))
    | .absent => none
  | .checkingForward sha head oid current =>
    match answer with
    | .failed reason => some (.returned repo (.unavailable reason))
    | .ok =>
      if isAncestor git current oid then
        some (.next (.updating sha head oid (some current)))
      else
        some (.next (.checkingCarried sha head oid current))
    | .absent => none
  | .checkingCarried sha head oid current =>
    match answer with
    | .failed reason => some (.returned repo (.unavailable reason))
    | .ok =>
      if isAncestor git current head then
        some (.returned repo (.stale current))
      else
        some (.next (.updating sha head oid (some current)))
    | .absent => none
  | .updating _ _ oid green =>
    match answer with
    | .failed reason => some (.returned repo (.unavailable reason))
    | .ok => some (.returned (updateRef git repo oid green).1
        (updateRef git repo oid green).2)
    | .absent => none

end Steps

open Ancestry List Function Option

variable {Commit : Type u}

structure Write (Commit : Type u) where
  id : Nat
  sha : String
  head : Commit
  before : Option Commit
  target : Commit
deriving DecidableEq

/-- The repository, the calls in flight, and what has happened, newest first: the
statuses recorded, the pushes of the branch, the moves of the ref and the outcomes of
the calls that have returned. -/
structure World (Commit : Type u) where
  repo : Repo Commit
  calls : Nat → Option (Call Commit)
  statuses : List CommitStatus
  pushes : List (Option Commit × Option Commit)
  writes : List (Write Commit)
  returned : List (Nat × Advance Commit)

/-- `createStatus` says whether the status was recorded and whether the repository
could be opened for the ref. -/
inductive Action (Commit : Type u) where
  | pushBranch (tip : Option Commit)
  | createStatus (id : Nat) (status : CommitStatus) (recorded repositoryFound : Bool)
  | gitCall (id : Nat) (answer : GitAnswer)

def ProvesDefaultBranch (repoName : String) (status : CommitStatus) : Prop :=
  status.state = .success ∧ status.context = mainHealthContext repoName

instance (repoName : String) (status : CommitStatus) :
    Decidable (ProvesDefaultBranch repoName status) :=
  inferInstanceAs (Decidable (_ ∧ _))

def movesOf (id : Nat) : Call Commit → Advance Commit → List (Write Commit)
  | .updating sha head _ _, .moved before target => [⟨id, sha, head, before, target⟩]
  | _, _ => []

section Run

variable [DecidableEq Commit] (git : Git Commit) (repoName defaultBranch : String)

/-- `advance_green_ref` one git call at a time, among pushes and new statuses. -/
def step (world : World Commit) : Action Commit → Option (World Commit)
  | .pushBranch tip =>
    some { world with
      repo := { world.repo with branch := tip }
      pushes := (world.repo.branch, tip) :: world.pushes }
  | .createStatus id status recorded repositoryFound =>
    match world.calls id with
    | some _ => none
    | none =>
      if !recorded then
        some world
      else if ProvesDefaultBranch repoName status ∧ repositoryFound = true then
        some { world with
          statuses := status :: world.statuses
          calls := update world.calls id (some (.opening status.sha)) }
      else
        some { world with statuses := status :: world.statuses }
  | .gitCall id answer =>
    match world.calls id with
    | none => none
    | some call =>
      match advance git defaultBranch world.repo answer call with
      | none => none
      | some (.next call) =>
        some { world with calls := update world.calls id (some call) }
      | some (.returned repo outcome) =>
        some { world with
          repo := repo
          calls := update world.calls id none
          writes := movesOf id call outcome ++ world.writes
          returned := (id, outcome) :: world.returned }

def machine : Machine (World Commit) (Action Commit) where
  start := ⟨⟨none, none⟩, fun _ => none, [], [], [], []⟩
  step := step git repoName defaultBranch

end Run

/-! ## The calls -/

def Call.sha : Call Commit → String
  | .opening sha | .readingBranch sha | .resolvingSha sha _ | .checkingBranch sha _ _
  | .readingGreen sha _ _ | .checkingForward sha _ _ _ | .checkingCarried sha _ _ _
  | .updating sha _ _ _ => sha

def Call.head? : Call Commit → Option Commit
  | .opening _ | .readingBranch _ => none
  | .resolvingSha _ head | .checkingBranch _ head _ | .readingGreen _ head _
  | .checkingForward _ head _ _ | .checkingCarried _ head _ _ | .updating _ head _ _ => some head

section Returns

variable [DecidableEq Commit] {git : Git Commit} {defaultBranch : String}

inductive Goes (git : Git Commit) (repo : Repo Commit) : Call Commit → Call Commit → Prop where
  | opened (sha : String) : Goes git repo (.opening sha) (.readingBranch sha)
  | branch {sha : String} {head : Commit} (hbranch : repo.branch = some head) :
      Goes git repo (.readingBranch sha) (.resolvingSha sha head)
  | resolved (sha : String) (head : Commit) :
      Goes git repo (.resolvingSha sha head) (.checkingBranch sha head (git.commitNamed sha))
  | onBranch {sha : String} {head oid : Commit} (hon : isAncestor git oid head = true) :
      Goes git repo (.checkingBranch sha head oid) (.readingGreen sha head oid)
  | unset {sha : String} {head oid : Commit} (hgreen : repo.green = none) :
      Goes git repo (.readingGreen sha head oid) (.updating sha head oid none)
  | green {sha : String} {head oid current : Commit} (hgreen : repo.green = some current) :
      Goes git repo (.readingGreen sha head oid) (.checkingForward sha head oid current)
  | forward {sha : String} {head oid current : Commit}
      (hforward : isAncestor git current oid = true) :
      Goes git repo (.checkingForward sha head oid current) (.updating sha head oid (some current))
  | apart {sha : String} {head oid current : Commit}
      (hapart : ¬isAncestor git current oid = true) :
      Goes git repo (.checkingForward sha head oid current) (.checkingCarried sha head oid current)
  | rewritten {sha : String} {head oid current : Commit}
      (hleft : ¬isAncestor git current head = true) :
      Goes git repo (.checkingCarried sha head oid current) (.updating sha head oid (some current))

variable {answer : GitAnswer} {call : Call Commit} {repo : Repo Commit}
  {next world : World Commit}

theorem goes_of_advance {next : Call Commit}
    (hstep : advance git defaultBranch repo answer call = some (.next next)) :
    answer = .ok ∧ Goes git repo call next := by
  unfold advance at hstep
  split at hstep <;> (repeat' split at hstep) <;> cases hstep <;>
    exact ⟨rfl, by constructor <;> assumption⟩

theorem advance_returned {after : Repo Commit} {outcome : Advance Commit}
    (hstep : advance git defaultBranch repo answer call = some (.returned after outcome)) :
    (after = repo ∧ ∀ id, movesOf id call outcome = []) ∨
      ∃ sha head oid green,
        call = .updating sha head oid green ∧ repo.green = green ∧
          after = { repo with green := some oid } ∧ outcome = .moved green oid := by
  unfold advance at hstep
  split at hstep
  case h_8 sha head oid green =>
    split at hstep
    · cases hstep
      exact .inl ⟨rfl, fun _ => rfl⟩
    · unfold updateRef at hstep
      by_cases hread : repo.green = green
      · rw [if_pos hread] at hstep
        cases hstep
        exact .inr ⟨sha, head, oid, green, rfl, hread, rfl, rfl⟩
      · rw [if_neg hread] at hstep
        cases hstep
        exact .inl ⟨rfl, fun _ => rfl⟩
    · cases hstep
  all_goals
    (repeat' split at hstep) <;> cases hstep <;> exact .inl ⟨rfl, fun _ => rfl⟩

theorem Goes.head {repo : Repo Commit} {call next : Call Commit} (hgoes : Goes git repo call next) :
    ∀ head ∈ next.head?, head ∈ call.head? ∨ repo.branch = some head := by
  cases hgoes with
  | opened sha => exact nofun
  | branch hbranch => exact fun _ hhead => .inr (hbranch.trans hhead)
  | _ => exact fun _ hhead => .inl hhead

theorem Goes.sha {next : Call Commit} (hgoes : Goes git repo call next) : next.sha = call.sha := by
  cases hgoes <;> rfl

inductive Steps (git : Git Commit) (repoName defaultBranch : String) (world : World Commit) :
    Action Commit → World Commit → Prop where
  | pushed (tip : Option Commit) :
      Steps git repoName defaultBranch world (.pushBranch tip) { world with
        repo := { world.repo with branch := tip }
        pushes := (world.repo.branch, tip) :: world.pushes }
  | unrecorded (id : Nat) (status : CommitStatus) (repositoryFound : Bool) :
      Steps git repoName defaultBranch world (.createStatus id status false repositoryFound) world
  | recorded {id : Nat} {status : CommitStatus} {repositoryFound : Bool}
      (hother : ¬(ProvesDefaultBranch repoName status ∧ repositoryFound = true)) :
      Steps git repoName defaultBranch world (.createStatus id status true repositoryFound)
        { world with statuses := status :: world.statuses }
  | started {id : Nat} {status : CommitStatus} (hfree : world.calls id = none)
      (hproves : ProvesDefaultBranch repoName status) :
      Steps git repoName defaultBranch world (.createStatus id status true true) { world with
        statuses := status :: world.statuses
        calls := update world.calls id (some (.opening status.sha)) }
  | goes {id : Nat} {call after : Call Commit} (hcall : world.calls id = some call)
      (hgoes : Goes git world.repo call after) :
      Steps git repoName defaultBranch world (.gitCall id .ok)
        { world with calls := update world.calls id (some after) }
  | returned {id : Nat} {answer : GitAnswer} {call : Call Commit} {repo : Repo Commit}
      {outcome : Advance Commit} (hcall : world.calls id = some call)
      (hadvance : advance git defaultBranch world.repo answer call =
        some (.returned repo outcome)) :
      Steps git repoName defaultBranch world (.gitCall id answer) { world with
        repo := repo
        calls := update world.calls id none
        writes := movesOf id call outcome ++ world.writes
        returned := (id, outcome) :: world.returned }

theorem steps_of_step {repoName : String} {action : Action Commit}
    (hstep : step git repoName defaultBranch world action = some next) :
    Steps git repoName defaultBranch world action next := by
  cases action with
  | pushBranch tip =>
    cases hstep
    exact .pushed tip
  | createStatus id status recorded repositoryFound =>
    simp only [step] at hstep
    split at hstep
    · cases hstep
    next hfree =>
      cases recorded with
      | false =>
        cases hstep
        exact .unrecorded id status repositoryFound
      | true =>
        simp only [Bool.not_true, Bool.false_eq_true, if_false] at hstep
        split at hstep
        next hproves =>
          obtain ⟨hproves, rfl⟩ := hproves
          cases hstep
          exact .started hfree hproves
        next hother =>
          cases hstep
          exact .recorded hother
  | gitCall id answer =>
    simp only [step] at hstep
    split at hstep
    · cases hstep
    next call hcall =>
      split at hstep
      · cases hstep
      next after hadvance =>
        obtain ⟨rfl, hgoes⟩ := goes_of_advance hadvance
        cases hstep
        exact .goes hcall hgoes
      next repo outcome hadvance =>
        cases hstep
        exact .returned hcall hadvance

theorem step_green {action : Action Commit}
    (hstep : step git repoName defaultBranch world action = some next) :
    next.repo.green = world.repo.green ∨
      ∃ id before target,
        next.returned = (id, .moved before target) :: world.returned ∧
          world.repo.green = before ∧ next.repo.green = some target := by
  cases steps_of_step hstep with
  | returned hcall hadvance =>
    rcases advance_returned hadvance with
      ⟨rfl, _⟩ | ⟨sha, head, oid, green, rfl, hgreen, rfl, rfl⟩
    · exact .inl rfl
    · exact .inr ⟨_, green, oid, rfl, hgreen, rfl⟩
  | _ => exact .inl rfl

end Returns

section Calls

variable [PartialOrder Commit] [DecidableEq Commit] {git : Git Commit}
  {defaultBranch : String}

theorem isAncestor_iff (hbest : BestCommonAncestors git.mergeBase) (ancestor descendant : Commit) :
    isAncestor git ancestor descendant = true ↔ ancestor ≤ descendant := by
  rw [isAncestor, beq_iff_eq]
  exact hbest.eq_some_left_iff ancestor descendant

/-- What a call has made sure of: its commit is the one reported, and from the check
on, one that the branch it read carries. -/
def Call.Checked (git : Git Commit) : Call Commit → Prop
  | .opening _ | .readingBranch _ | .resolvingSha _ _ => True
  | .checkingBranch sha _ oid => oid = git.commitNamed sha
  | .readingGreen sha head oid | .checkingForward sha head oid _
  | .checkingCarried sha head oid _ | .updating sha head oid _ =>
    oid = git.commitNamed sha ∧ oid ≤ head

theorem Call.Checked.goes (hbest : BestCommonAncestors git.mergeBase) {repo : Repo Commit}
    {call next : Call Commit} (hchecked : call.Checked git) (hgoes : Goes git repo call next) :
    next.Checked git := by
  cases hgoes with
  | opened | branch => trivial
  | resolved sha head => rfl
  | onBranch hon => exact ⟨hchecked, (isAncestor_iff hbest _ _).mp hon⟩
  | _ => exact hchecked

/-- What a call can rely on while the branch only fast-forwards, if it read a green
commit that the branch it read carries. -/
def Call.Forward : Call Commit → Prop
  | .checkingForward _ head _ current | .checkingCarried _ head _ current => current ≤ head
  | .updating _ _ oid (some current) => current ≤ oid
  | _ => True

theorem Call.Forward.goes (hbest : BestCommonAncestors git.mergeBase) {repo : Repo Commit}
    {call next : Call Commit} (hcall : call.Forward)
    (hread : ∀ sha head oid, call = .readingGreen sha head oid →
      ∀ current ∈ repo.green, current ≤ head) (hgoes : Goes git repo call next) : next.Forward := by
  cases hgoes with
  | green hgreen => exact hread _ _ _ rfl _ hgreen
  | forward hforward => exact (isAncestor_iff hbest _ _).mp hforward
  | apart hapart => exact hcall
  | rewritten hleft => exact absurd ((isAncestor_iff hbest _ _).mpr hcall) hleft
  | _ => trivial

end Calls

def World.HasBeenTip (world : World Commit) (commit : Commit) : Prop :=
  world.repo.branch = some commit ∨ ∃ push ∈ world.pushes, push.1 = some commit

section Moves

variable [PartialOrder Commit]

/-- Every commit the ref has named was reported green before, and carried by the
branch as the call that wrote it read it; the moves are linked, and the last one says
what the ref names. -/
structure SoundMoves (git : Git Commit) (repoName : String) (world : World Commit) :
    Prop where
  named : world.repo.green = world.writes.head?.map Write.target
  linked : ∀ newer write older, world.writes = newer ++ write :: older →
    write.before = older.head?.map Write.target
  reported : ∀ write ∈ world.writes, ∃ status ∈ world.statuses,
    ProvesDefaultBranch repoName status ∧ git.commitNamed status.sha = write.target
  carried : ∀ write ∈ world.writes, world.HasBeenTip write.head ∧ write.target ≤ write.head

def ForwardMoves (world : World Commit) : Prop :=
  (∀ push ∈ world.pushes, FastForward push.1 push.2) →
    ∀ write ∈ world.writes, ∀ old ∈ write.before, old ≤ write.target

/-- While the branch has only fast-forwarded, the green commit a call reads is one
that the branch it has read carries. -/
def ReadsGreenOnBranch (world : World Commit) : Action Commit → Prop
  | .gitCall id .ok =>
    match world.calls id with
    | some (.readingGreen _ head _) =>
      (∀ push ∈ world.pushes, FastForward push.1 push.2) →
        ∀ current ∈ world.repo.green, current ≤ head
    | _ => True
  | _ => True

/-- What is known of the calls in flight: each has checked what it goes on with, read
a commit that was the branch's tip, and was started by a green status. -/
structure SoundCalls (git : Git Commit) (repoName : String) (world : World Commit) :
    Prop where
  checked : ∀ {id call}, world.calls id = some call → call.Checked git
  tips : ∀ {id call}, world.calls id = some call → ∀ head ∈ call.head?, world.HasBeenTip head
  started : ∀ {id call}, world.calls id = some call →
    ∃ status ∈ world.statuses,
      ProvesDefaultBranch repoName status ∧ status.sha = call.sha

structure ForwardCalls (world : World Commit) : Prop where
  calls : (∀ push ∈ world.pushes, FastForward push.1 push.2) →
    ∀ {id call}, world.calls id = some call → call.Forward
  moves : ForwardMoves world

variable [DecidableEq Commit] {git : Git Commit} {repoName defaultBranch : String}
  {world next : World Commit} {action : Action Commit}

omit [PartialOrder Commit] [DecidableEq Commit] in
theorem World.HasBeenTip.push {commit : Commit}
    (htip : world.HasBeenTip commit) (tip : Option Commit) :
    World.HasBeenTip { world with
      repo := { world.repo with branch := tip }
      pushes := (world.repo.branch, tip) :: world.pushes } commit := by
  right
  rcases htip with hbranch | ⟨push, hpush, hold⟩
  · exact ⟨(world.repo.branch, tip), mem_cons_self, hbranch⟩
  · exact ⟨push, mem_cons_of_mem _ hpush, hold⟩

theorem SoundCalls.step (hbest : BestCommonAncestors git.mergeBase)
    (hworld : SoundCalls git repoName world)
    (hstep : step git repoName defaultBranch world action = some next) :
    SoundCalls git repoName next := by
  have hadded : ∀ {status : CommitStatus} {id call}, world.calls id = some call →
      ∃ found ∈ status :: world.statuses,
        ProvesDefaultBranch repoName found ∧ found.sha = call.sha := by
    intro status id call hcall
    obtain ⟨found, hfound, hstarted⟩ := hworld.started hcall
    exact ⟨found, mem_cons_of_mem status hfound, hstarted⟩
  cases steps_of_step hstep with
  | pushed tip =>
    exact {
      checked := hworld.checked
      tips := fun hcall head hhead => (hworld.tips hcall head hhead).push tip
      started := hworld.started }
  | unrecorded => exact hworld
  | recorded => exact ⟨hworld.checked, hworld.tips, hadded⟩
  | @started id status hfree hproves =>
    exact {
      checked := forall_update hworld.checked (by rintro _ ⟨⟩; trivial)
      tips := forall_update hworld.tips
        (by rintro _ ⟨⟩ _ hnone; exact nomatch hnone)
      started := forall_update hadded
        (by rintro _ ⟨⟩; exact ⟨status, mem_cons_self, hproves, rfl⟩) }
  | goes hcall hgoes =>
    refine {
      checked := forall_update hworld.checked ?_
      tips := forall_update hworld.tips ?_
      started := forall_update hworld.started ?_ }
    · rintro _ ⟨⟩
      exact (hworld.checked hcall).goes hbest hgoes
    · rintro _ ⟨⟩ head hhead
      exact (hgoes.head head hhead).elim (hworld.tips hcall head) .inl
    · rintro _ ⟨⟩
      rw [hgoes.sha]
      exact hworld.started hcall
  | @returned _ _ _ repo _ hcall hadvance =>
    have hbranch : repo.branch = world.repo.branch := by
      rcases advance_returned hadvance with ⟨rfl, _⟩ | ⟨_, _, _, _, _, _, rfl, _⟩ <;> rfl
    have htips : ∀ {other found}, world.calls other = some found →
        ∀ head ∈ found.head?, repo.branch = some head ∨
          ∃ push ∈ world.pushes, push.1 = some head :=
      fun hfound head hhead => (hworld.tips hfound head hhead).imp_left hbranch.trans
    exact {
      checked := forall_update hworld.checked (by simp)
      tips := fun hfound => forall_update htips (by simp) hfound
      started := forall_update hworld.started (by simp) }

theorem SoundMoves.step
    (hcalls : SoundCalls git repoName world) (hworld : SoundMoves git repoName world)
    (hstep : step git repoName defaultBranch world action = some next) :
    SoundMoves git repoName next := by
  have hadded : ∀ {status : CommitStatus} {write : Write Commit}, write ∈ world.writes →
      ∃ found ∈ status :: world.statuses, ProvesDefaultBranch repoName found ∧
        git.commitNamed found.sha = write.target := by
    intro status write hwrite
    obtain ⟨found, hfound, hreported⟩ := hworld.reported write hwrite
    exact ⟨found, mem_cons_of_mem status hfound, hreported⟩
  cases steps_of_step hstep with
  | pushed tip =>
    refine ⟨hworld.named, hworld.linked, hworld.reported, ?_⟩
    intro write hwrite
    obtain ⟨htip, hle⟩ := hworld.carried write hwrite
    exact ⟨htip.push tip, hle⟩
  | unrecorded => exact hworld
  | recorded | started => exact ⟨hworld.named, hworld.linked, fun write => hadded, hworld.carried⟩
  | goes => exact ⟨hworld.named, hworld.linked, hworld.reported, hworld.carried⟩
  | @returned id _ _ _ _ hcall hadvance =>
    rcases advance_returned hadvance with
      ⟨rfl, hnone⟩ | ⟨sha, head, oid, green, rfl, hgreen, rfl, rfl⟩
    · rw [hnone id]
      exact ⟨hworld.named, hworld.linked, hworld.reported, hworld.carried⟩
    · obtain ⟨hoid, hle⟩ := hcalls.checked hcall
      constructor
      · rfl
      · intro newer write older hsplit
        cases newer with
        | nil =>
          obtain ⟨rfl, rfl⟩ := cons.inj hsplit
          exact hgreen.symm.trans hworld.named
        | cons first newer =>
          exact hworld.linked newer write older (cons.inj hsplit).2
      · intro write hwrite
        rcases mem_cons.mp hwrite with rfl | hold
        · obtain ⟨status, hstatus, hproves, hsha⟩ := hcalls.started hcall
          exact ⟨status, hstatus, hproves, by rw [hsha]; exact hoid.symm⟩
        · exact hworld.reported write hold
      · intro write hwrite
        rcases mem_cons.mp hwrite with rfl | hold
        · exact ⟨hcalls.tips hcall head rfl, hle⟩
        · exact hworld.carried write hold

theorem ForwardCalls.step (hbest : BestCommonAncestors git.mergeBase)
    (hworld : ForwardCalls world) (hread : ReadsGreenOnBranch world action)
    (hstep : step git repoName defaultBranch world action = some next) : ForwardCalls next := by
  cases steps_of_step hstep with
  | pushed tip =>
    have holder : ∀ {p : Option Commit × Option Commit → Prop},
        (∀ push ∈ (world.repo.branch, tip) :: world.pushes, p push) →
          ∀ push ∈ world.pushes, p push :=
      fun hall push hpush => hall push (mem_cons_of_mem _ hpush)
    exact {
      calls := fun hforward => hworld.calls (holder hforward)
      moves := fun hforward => hworld.moves (holder hforward) }
  | unrecorded => exact hworld
  | recorded => exact ⟨hworld.calls, hworld.moves⟩
  | started =>
    exact ⟨fun hforward => forall_update (hworld.calls hforward)
      (by rintro _ ⟨⟩; trivial), hworld.moves⟩
  | goes hcall hgoes =>
    refine ⟨fun hforward => forall_update (hworld.calls hforward) ?_, hworld.moves⟩
    rintro _ ⟨⟩
    refine (hworld.calls hforward hcall).goes hbest ?_ hgoes
    rintro sha head oid rfl
    simp only [ReadsGreenOnBranch, hcall] at hread
    exact hread hforward
  | @returned id _ _ _ _ hcall hadvance =>
    refine ⟨fun hforward => forall_update (hworld.calls hforward) (by simp), ?_⟩
    intro hforward write hwrite old hold
    rcases mem_append.mp hwrite with hmoved | hbefore
    · rcases advance_returned hadvance with
        ⟨_, hnone⟩ | ⟨sha, head, oid, green, rfl, _, _, rfl⟩
      · simp [hnone id] at hmoved
      · obtain rfl := mem_singleton.mp hmoved
        have hcallForward := hworld.calls hforward hcall
        obtain rfl : green = some old := hold
        exact hcallForward
    · exact hworld.moves hforward write hbefore old hold

/-- In every run the moves of the ref are sound and only a call that reports a move
makes one; if every call reads a green commit that the branch it read carries, the
ref only goes forward while the branch does. -/
theorem run_greenRef (git : Git Commit) (repoName defaultBranch : String)
    (hbest : BestCommonAncestors git.mergeBase) (actions : List (Action Commit))
    (world : World Commit) (hrun : (machine git repoName defaultBranch).run actions = some world) :
    SoundMoves git repoName world ∧
      (∀ action next, step git repoName defaultBranch world action = some next →
        next.repo.green = world.repo.green ∨
          ∃ id before target,
            next.returned = (id, .moved before target) :: world.returned ∧
              world.repo.green = before ∧ next.repo.green = some target) ∧
      ((machine git repoName defaultBranch).Meets ReadsGreenOnBranch actions →
        ForwardMoves world) := by
  have hsound : SoundCalls git repoName world ∧ SoundMoves git repoName world := by
    refine (machine git repoName defaultBranch).run_invariant_always
      (motive := fun state => SoundCalls git repoName state ∧ SoundMoves git repoName state)
      ⟨?_, ?_⟩ ?_ hrun
    · exact ⟨by simp [machine], by simp [machine], by simp [machine]⟩
    · exact ⟨rfl, by simp [machine], by simp [machine], by simp [machine]⟩
    · intro state action next hstate hstep
      exact ⟨hstate.1.step hbest hstep, hstate.2.step hstate.1 hstep⟩
  refine ⟨hsound.2, fun action next hstep => step_green hstep, ?_⟩
  intro hmeets
  have hforward : ForwardCalls world :=
    (machine git repoName defaultBranch).run_invariant
      ⟨by simp [machine], by simp [machine, ForwardMoves]⟩
      (fun state action next hstate hread hstep => hstate.step hbest hread hstep)
      hmeets hrun
  exact hforward.moves

end Moves

instance [PartialOrder Commit] [DecidableLE Commit]
    (world : World Commit) (action : Action Commit) :
    Decidable (ReadsGreenOnBranch world action) := by
  unfold ReadsGreenOnBranch
  split
  · split <;> infer_instance
  · infer_instance

def linearGit : Git Nat where
  mergeBase := fun left right => some (min left right)
  commitNamed := fun sha => if sha = "1111111111111111111111111111111111111111" then 1 else 2
  refusedUpdate := "refs/green/main is not at the expected object id"

def reportOf (id : Nat) (sha : String) : Action Nat :=
  .createStatus id ⟨sha, .success, "forge/main-health"⟩ true true

def gitCalls (id count : Nat) : List (Action Nat) :=
  List.replicate count (.gitCall id .ok)

def reportsInTurn : List (Action Nat) :=
  [.pushBranch (some 1), reportOf 0 "1111111111111111111111111111111111111111"] ++
    gitCalls 0 6 ++
    [.pushBranch (some 2), reportOf 1 "2222222222222222222222222222222222222222"] ++
    gitCalls 1 7

theorem reportsInTurn_runs :
    ((machine linearGit "forge" "main").run reportsInTurn).isSome = true := by
  decide +kernel

theorem run_greenRef_reportsInTurn :
    ∃ world, (machine linearGit "forge" "main").run reportsInTurn = some world ∧
      world.repo.green = some 2 ∧ world.writes.length = 2 ∧
      SoundMoves linearGit "forge" world ∧ ForwardMoves world := by
  have hall := run_greenRef linearGit "forge" "main" Ancestry.bestCommonAncestors_min
    reportsInTurn _ (some_get reportsInTurn_runs).symm
  exact ⟨_, (some_get reportsInTurn_runs).symm, by decide +kernel, by decide +kernel, hall.1,
    hall.2.2 (by decide +kernel)⟩

/-- The first call reads the branch at its commit; the branch goes on, the second call
moves the ref to the new commit, and the first takes that commit for one a rewrite has
left behind. -/
def staleBranchRead : List (Action Nat) :=
  [.pushBranch (some 1), reportOf 0 "1111111111111111111111111111111111111111"] ++
    gitCalls 0 2 ++
    [.pushBranch (some 2), reportOf 1 "2222222222222222222222222222222222222222"] ++
    gitCalls 1 6 ++ gitCalls 0 6

private theorem staleBranchRead_runs :
    ((machine linearGit "forge" "main").run staleBranchRead).isSome = true := by
  decide +kernel

theorem staleBranchRead_rewinds :
    Ancestry.BestCommonAncestors linearGit.mergeBase ∧
      ∃ world, (machine linearGit "forge" "main").run staleBranchRead = some world ∧
        (∀ push ∈ world.pushes, Ancestry.FastForward push.1 push.2) ∧
        world.repo.green = some 1 ∧ ¬ForwardMoves world := by
  refine ⟨Ancestry.bestCommonAncestors_min, ?_⟩
  refine ⟨_, (some_get staleBranchRead_runs).symm, by decide +kernel, by decide +kernel, ?_⟩
  intro hforward
  have hmove := hforward (by decide +kernel)
    ⟨0, "1111111111111111111111111111111111111111", 1, some 2, 1⟩ (by decide +kernel) 2 rfl
  exact absurd hmove (by decide)

end JeryuForge.GreenRef
