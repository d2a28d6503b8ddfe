import JeryuForge.Library.Machine
import JeryuForge.Library.OrdMap
import JeryuForge.Library.Pointers

/-!
# What replaced a pull request

A link says which pull request replaced another one of the repository.  Recording a link
follows the chain from the replacing pull request first, one locked read at a time, and
refuses a link that would close a cycle; the insert takes the lock again.
-/

namespace JeryuForge.Replacements

open Pointers OrdMap Option

def maxChain : Nat := 32

structure ReplacementLink where
  number : Nat
  setBy : String
  setMs : Int
deriving DecidableEq, Repr

structure LinkRefused where
  code : String
  message : String
deriving DecidableEq, Repr

abbrev Key := String ×ₗ String ×ₗ Nat

def key (owner repo : String) (number : Nat) : Key :=
  toLex (owner, toLex (repo, number))

abbrev Links := OrdMap Key ReplacementLink

def supersededBy (links : Links) (owner repo : String) (number : Nat) : Option ReplacementLink :=
  links.get? (key owner repo number)

def replacedBy (links : Links) (owner repo : String) (number : Nat) : Option Nat :=
  (supersededBy links owner repo number).map ReplacementLink.number

/-- Where a call of `record` stands: about to read the link of `place`, with a number of
reads left, or past its checks. -/
inductive Phase where
  | checking (place left : Nat)
  | recording
deriving DecidableEq, Repr

structure Call where
  owner : String
  repo : String
  replaced : Nat
  replacing : Nat
  setBy : String
  nowMs : Int
  phase : Phase
deriving DecidableEq, Repr

def Call.repository (call : Call) : String × String :=
  (call.owner, call.repo)

/-- `PullReplacements`, and the calls of `record` under way. -/
structure World where
  links : Links
  calls : OrdMap Nat Call
  answers : List (Nat × Except LinkRefused Unit)

inductive Action where
  | start (id : Nat) (call : Call)
  | look (id : Nat)
  | write (id : Nat) (stored : Except String Unit)

def World.finish (world : World) (id : Nat) (answer : Except LinkRefused Unit) : World :=
  { world with
    calls := world.calls.erase id
    answers := world.answers ++ [(id, answer)] }

def World.setPhase (world : World) (id : Nat) (call : Call) (phase : Phase) : World :=
  { world with calls := world.calls.insert id { call with phase := phase } }

def selfRefusal (call : Call) : LinkRefused :=
  { code := "pull_replacement_self"
    message := "#" ++ toString call.replaced ++ " cannot replace itself" }

def cycleRefusal (call : Call) (place : Nat) : LinkRefused :=
  { code := "pull_replacement_cycle"
    message := "#" ++ toString call.replacing ++ " is already replaced by #" ++
      toString place ++ ", so recording it as the replacement of #" ++
      toString call.replaced ++ " would make a cycle" }

def storageRefusal (error : String) : LinkRefused :=
  { code := "storage_failed"
    message := "could not record the replacement link: " ++ error }

/-- One round of `closes_a_cycle`. -/
def look (world : World) (id : Nat) (call : Call) (place left : Nat) : World :=
  match replacedBy world.links call.owner call.repo place with
  | none => world.setPhase id call .recording
  | some above =>
    if above = call.replaced then
      world.finish id (.error (cycleRefusal call place))
    else if above = place ∨ left ≤ 1 then
      world.setPhase id call .recording
    else
      world.setPhase id call (.checking above (left - 1))

def Call.link (call : Call) : ReplacementLink :=
  { number := call.replacing, setBy := call.setBy, setMs := call.nowMs }

def insertLink (links : Links) (call : Call) : Links :=
  links.insert (key call.owner call.repo call.replaced) call.link

/-- `record`, one lookup of `refusal` or one write at a time. -/
def step (world : World) : Action → Option World
  | .start id call =>
    if (world.calls.get? id).isSome then
      none
    else if call.replaced = call.replacing then
      some { world with answers := world.answers ++ [(id, .error (selfRefusal call))] }
    else
      some (world.setPhase id call (.checking call.replacing maxChain))
  | .look id =>
    match world.calls.get? id with
    | some call =>
      match call.phase with
      | .checking place left => some (look world id call place left)
      | .recording => none
    | none => none
  | .write id stored =>
    match world.calls.get? id with
    | some call =>
      match call.phase, stored with
      | .recording, .ok () =>
        some { world.finish id (.ok ()) with links := insertLink world.links call }
      | .recording, .error error =>
        some (world.finish id (.error (storageRefusal error)))
      | .checking .., _ => none
    | none => none

def machine : Machine World Action where
  start := { links := ∅, calls := ∅, answers := [] }
  step := step

def Acyclic (links : Links) : Prop :=
  ∀ owner repo number, Grounded (replacedBy links owner repo) number

/-- What lies that many links ahead of the pull request that the call says is the replacing one. -/
def Call.ahead (links : Links) (call : Call) (steps : Nat) : Option Nat :=
  follow (replacedBy links call.owner call.repo) steps call.replacing

/-- A call that starts has the replaced pull request at most `maxChain` links ahead of the
replacing one, if it is ahead at all, and what is written is not on the chain that another call of
the repository follows. -/
def Undisturbed (world : World) : Action → Prop
  | .start _ call => ∀ steps, call.ahead world.links steps = some call.replaced → steps ≤ maxChain
  | .write id (.ok ()) => ∀ call ∈ world.calls.get? id, ∀ entry ∈ world.calls.entries,
      entry.1 ≠ id → entry.2.repository = call.repository →
        ∀ steps, entry.2.ahead world.links steps ≠ some call.replaced
  | .look _ | .write _ (.error _) => True

/-- The replaced pull request is not on the chain from the replacing one, or not on the part that
was read, and will be met in the reads that are left. -/
def Call.Checked (links : Links) (call : Call) : Prop :=
  match call.phase with
  | .recording => ∀ steps, call.ahead links steps ≠ some call.replaced
  | .checking place left => ∃ done, call.ahead links done = some place ∧
      (∀ steps ≤ done, call.ahead links steps ≠ some call.replaced) ∧
      ∀ steps, call.ahead links steps = some call.replaced → steps ≤ done + left

structure Invariant (world : World) : Prop where
  acyclic : Acyclic world.links
  checked : ∀ {id : Nat} {call : Call}, world.calls.get? id = some call →
    call.Checked world.links

theorem replacedBy_insertLink (links : Links) (call : Call) :
    replacedBy (insertLink links call) call.owner call.repo =
      Function.update (replacedBy links call.owner call.repo) call.replaced
        (some call.replacing) := by
  funext number
  by_cases hsame : number = call.replaced
  · subst hsame
    simp [replacedBy, supersededBy, insertLink, Call.link]
  · have hkey : key call.owner call.repo number ≠ key call.owner call.repo call.replaced := by
      simpa [key] using hsame
    rw [Function.update_of_ne hsame]
    simp [replacedBy, supersededBy, insertLink, get?_insert_of_ne _ _ hkey]

theorem replacedBy_insertLink_of_ne (links : Links) {call : Call} {owner repo : String}
    (hother : (owner, repo) ≠ call.repository) :
    replacedBy (insertLink links call) owner repo = replacedBy links owner repo := by
  funext number
  have hkey : key owner repo number ≠ key call.owner call.repo call.replaced := by
    intro hsame
    have hparts : owner = call.owner ∧ repo = call.repo ∧ number = call.replaced := by
      simpa [key] using hsame
    exact hother (by simp [Call.repository, hparts.1, hparts.2.1])
  simp [replacedBy, supersededBy, insertLink, get?_insert_of_ne _ _ hkey]

theorem Acyclic.insertLink {links : Links} {call : Call} (hacyclic : Acyclic links)
    (hapart : ∀ steps, follow (replacedBy links call.owner call.repo) steps call.replacing ≠
      some call.replaced) : Acyclic (insertLink links call) := by
  intro owner repo number
  by_cases hsame : (owner, repo) = call.repository
  · obtain ⟨rfl, rfl⟩ := Prod.mk.inj hsame
    rw [replacedBy_insertLink]
    exact Grounded.update (hacyclic _ _) hapart number
  · rw [replacedBy_insertLink_of_ne links hsame]
    exact hacyclic owner repo number

theorem Call.Checked.congr {links others : Links} {call : Call} (hchecked : call.Checked links)
    (hsame : ∀ steps, call.ahead others steps = call.ahead links steps) : call.Checked others := by
  unfold Call.Checked at hchecked ⊢
  simpa only [hsame] using hchecked

theorem Call.ahead_insertLink {links : Links} {call other : Call}
    (hapart : call.repository = other.repository →
      ∀ steps, call.ahead links steps ≠ some other.replaced) (steps : Nat) :
    call.ahead (insertLink links other) steps = call.ahead links steps := by
  unfold Call.ahead at hapart ⊢
  by_cases hsame : call.repository = other.repository
  · obtain ⟨howner, hrepo⟩ := Prod.mk.inj hsame
    rw [howner, hrepo] at hapart ⊢
    rw [replacedBy_insertLink]
    exact follow_update_of_apart (hapart hsame) steps
  · rw [replacedBy_insertLink_of_ne links hsame]

section Look

variable {links : Links} {call : Call} {place left : Nat} (hchecked : call.Checked links)
  (hphase : call.phase = .checking place left)
include hchecked hphase

theorem Call.Checked.atEnd (hend : replacedBy links call.owner call.repo place = none) :
    { call with phase := .recording }.Checked links := by
  simp only [Call.Checked, hphase] at hchecked
  obtain ⟨done, hplace, hread, -⟩ := hchecked
  intro steps hreaches
  rcases le_or_gt steps done with hle | hlt
  · exact hread steps hle hreaches
  · have hnone : call.ahead links (done + 1) = none := by
      rw [Call.ahead, follow_add, show follow _ done _ = _ from hplace]
      exact follow_succ_of_eq_none hend
    cases (follow_eq_none_of_le hnone hlt).symm.trans hreaches

variable {found : Nat} (hnext : replacedBy links call.owner call.repo place = some found)
  (hother : found ≠ call.replaced)
include hnext hother

/-- One read further, the replaced pull request was not met. -/
theorem Call.Checked.read : ∃ done, call.ahead links done = some found ∧
    (∀ steps ≤ done, call.ahead links steps ≠ some call.replaced) ∧
    ∀ steps, call.ahead links steps = some call.replaced → steps + 1 ≤ done + left := by
  simp only [Call.Checked, hphase] at hchecked
  obtain ⟨done, hplace, hread, hleft⟩ := hchecked
  have hfound : call.ahead links (done + 1) = some found := by
    rw [Call.ahead, follow_add, show follow _ done _ = _ from hplace]
    exact follow_succ_of_eq_some hnext
  refine ⟨done + 1, hfound, fun steps hle hreaches => ?_, fun steps hreaches => ?_⟩
  · rcases Nat.le_succ_iff.mp hle with hle | rfl
    · exact hread steps hle hreaches
    · exact hother (some.inj (hfound.symm.trans hreaches))
  · have hbound := hleft steps hreaches
    omega

theorem Call.Checked.lastRead (hlast : left ≤ 1) :
    { call with phase := .recording }.Checked links := by
  obtain ⟨done, -, hread, hleft⟩ := hchecked.read hphase hnext hother
  intro steps hreaches
  have hbound := hleft steps hreaches
  exact hread steps (by omega) hreaches

theorem Call.Checked.oneUp (hmore : ¬left ≤ 1) :
    { call with phase := .checking found (left - 1) }.Checked links := by
  obtain ⟨done, hfound, hread, hleft⟩ := hchecked.read hphase hnext hother
  refine ⟨done, hfound, hread, fun steps hreaches => ?_⟩
  have hbound := hleft steps hreaches
  omega

end Look

namespace Invariant

variable {world : World} {id : Nat} {call : Call}

theorem setPhase (hinv : Invariant world) {phase : Phase}
    (hchecked : { call with phase := phase }.Checked world.links) :
    Invariant (world.setPhase id call phase) where
  acyclic := hinv.acyclic
  checked := by
    intro other found hget
    rcases get?_insert_eq_some hget with ⟨_, rfl⟩ | ⟨_, hold⟩
    · exact hchecked
    · exact hinv.checked hold

theorem finish (hinv : Invariant world) (answer : Except LinkRefused Unit) :
    Invariant (world.finish id answer) where
  acyclic := hinv.acyclic
  checked := fun hget => hinv.checked (get?_erase_eq_some hget).2

section Invariant

variable (hinv : Invariant world) (hcall : world.calls.get? id = some call)
include hinv hcall

theorem afterLook {place left : Nat} (hphase : call.phase = .checking place left) :
    Invariant (look world id call place left) := by
  have hchecked := hinv.checked hcall
  unfold look
  split
  next hend =>
    exact hinv.setPhase (hchecked.atEnd hphase hend)
  next above hnext =>
    split
    · exact hinv.finish _
    next hother =>
      split
      next hstop =>
        refine hinv.setPhase ?_
        rcases hstop with rfl | hlast
        · -- a pull request that replaced itself would be a cycle
          have hself := (hinv.acyclic call.owner call.repo above).follow_ne_self 0
          exact absurd (by simp [follow, hnext]) hself
        · exact hchecked.lastRead hphase hnext hother hlast
      next hgoes =>
        exact hinv.setPhase (hchecked.oneUp hphase hnext hother fun hlast => hgoes (.inr hlast))

theorem afterInsert (hphase : call.phase = .recording)
    (hundisturbed : Undisturbed world (.write id (.ok ()))) :
    Invariant { world.finish id (.ok ()) with links := insertLink world.links call } where
  acyclic := by
    have hchecked := hinv.checked hcall
    simp only [Call.Checked, hphase] at hchecked
    exact hinv.acyclic.insertLink hchecked
  checked := by
    intro other second hget
    obtain ⟨hne, hsecond⟩ := get?_erase_eq_some hget
    refine (hinv.checked hsecond).congr (Call.ahead_insertLink fun hsame => ?_)
    exact hundisturbed call hcall _ ((get?_eq_some_iff _ _ _).mp hsecond) hne hsame

end Invariant

theorem afterStart (hinv : Invariant world) (hnear : Undisturbed world (.start id call))
    (hne : call.replaced ≠ call.replacing) :
    Invariant (world.setPhase id call (.checking call.replacing maxChain)) := by
  refine hinv.setPhase ⟨0, rfl, fun steps hzero hreaches => ?_, fun steps hreaches => ?_⟩
  · rw [Nat.le_zero.mp hzero] at hreaches
    exact hne (some.inj hreaches).symm
  · exact (hnear steps hreaches).trans (Nat.le_add_left ..)

end Invariant

theorem step_invariant {world next : World} {action : Action} (hinv : Invariant world)
    (hcondition : Undisturbed world action) (hstep : step world action = some next) :
    Invariant next := by
  cases action with
  | start id call =>
    simp only [step] at hstep
    split at hstep
    · cases hstep
    · split at hstep
      · cases hstep
        exact ⟨hinv.acyclic, hinv.checked⟩
      next hne =>
        cases hstep
        exact hinv.afterStart hcondition hne
  | look id =>
    simp only [step] at hstep
    split at hstep
    next call hcall =>
      split at hstep
      next place left hphase =>
        cases hstep
        exact hinv.afterLook hcall hphase
      · cases hstep
    · cases hstep
  | write id stored =>
    simp only [step] at hstep
    split at hstep
    next call hcall =>
      split at hstep
      next hphase =>
        cases hstep
        exact hinv.afterInsert hcall hphase hcondition
      · cases hstep
        exact hinv.finish _
      · cases hstep
    · cases hstep

theorem invariant_start : Invariant machine.start where
  acyclic := fun _ _ _ => .stop rfl
  checked := fun hget => by cases hget

/-- If no link is written on the chain that another call follows, and a link that would close a
cycle closes one of at most `maxChain` links, following the replacements always ends. -/
theorem run_acyclic {actions : List Action} {world : World}
    (hcondition : machine.Meets Undisturbed actions)
    (hrun : machine.run actions = some world) : Acyclic world.links :=
  (machine.run_invariant invariant_start
    (fun _ _ _ hinv hcondition hstep => step_invariant hinv hcondition hstep)
    hcondition hrun).acyclic

def ask (replaced replacing : Nat) : Call :=
  { owner := "acme", repo := "forge", replaced := replaced, replacing := replacing
    setBy := "ada", nowMs := 1000, phase := .recording }

/-- `#1` is recorded as replaced by `#2` while `#2` is recorded as replaced by `#1`: both
calls check before either one writes. -/
def overlapping : List Action :=
  [.start 0 (ask 1 2), .start 1 (ask 2 1), .look 0, .look 1, .write 0 (.ok ()), .write 1 (.ok ())]

theorem overlapping_makesCycle :
    ∃ world, machine.run overlapping = some world ∧ ¬ Acyclic world.links := by
  refine ⟨_, (some_get (by decide +kernel)).symm, fun hacyclic => ?_⟩
  refine (hacyclic "acme" "forge" 1).follow_ne_self 1 ?_
  decide +kernel

/-- The chain from the replacing pull request ends within `maxChain` links, and is empty while
another call writes. -/
def Short (world : World) : Action → Prop
  | .start _ call => call.ahead world.links (maxChain + 1) = none
  | .write id (.ok ()) => ∀ call ∈ world.calls.get? id, ∀ entry ∈ world.calls.entries,
      entry.1 ≠ id → entry.2.ahead world.links 1 = none ∧ entry.2.replacing ≠ call.replaced
  | .look _ | .write _ (.error _) => True

instance (world : World) : (action : Action) → Decidable (Short world action)
  | .start .. => inferInstanceAs (Decidable (_ = _))
  | .write _ (.ok ()) => inferInstanceAs (Decidable (∀ call ∈ _, ∀ entry ∈ _, _ → _))
  | .look _ | .write _ (.error _) => isTrue trivial

theorem Short.undisturbed (world : World) (action : Action) (hshort : Short world action) :
    Undisturbed world action := by
  match action with
  | .start id call =>
    intro steps hreaches
    by_contra hlong
    cases (follow_eq_none_of_le hshort (not_le.mp hlong)).symm.trans hreaches
  | .write id (.ok ()) =>
    intro call hcall entry hentry hne _ steps hreaches
    obtain ⟨hend, hother⟩ := hshort call hcall entry hentry hne
    cases steps with
    | zero => exact hother (some.inj hreaches)
    | succ steps => cases (follow_eq_none_of_le hend (by omega)).symm.trans hreaches
  | .look _ | .write _ (.error _) => trivial

/-- Two calls of the repository overlap, and a third one is refused. -/
def unrelated : List Action :=
  [.start 0 (ask 1 2), .start 1 (ask 3 4), .look 0, .look 1, .write 0 (.ok ()), .write 1 (.ok ()),
    .start 2 (ask 2 1), .look 2]

theorem run_acyclic_unrelated :
    ∃ world, machine.run unrelated = some world ∧ Acyclic world.links ∧
      world.answers.map Prod.fst = [0, 1, 2] := by
  have hshort : machine.Meets Short unrelated := by decide +kernel
  have hrun := (some_get (x := machine.run unrelated) (by decide +kernel)).symm
  exact ⟨_, hrun, run_acyclic (Machine.MeetsFrom.mono _ Short.undisturbed hshort) hrun,
    by decide +kernel⟩

open Nat

section Walk

variable (links : Links) (owner repo : String)

def chainWalk : Nat → List Nat → Nat → Nat
  | 0, _, place => place
  | rounds + 1, seen, place =>
    match replacedBy links owner repo place with
    | none => place
    | some next => if next ∈ seen then place else chainWalk rounds (seen ++ [next]) next

def chainEnd (number : Nat) : Option Nat :=
  (replacedBy links owner repo number).map fun first =>
    chainWalk links owner repo maxChain [number, first] first

/-- The answer is the last pull request of the chain, one that nothing replaced; there is none if
nothing replaced the pull request itself. -/
def IsChainEnd (number : Nat) : Option Nat → Prop
  | none => replacedBy links owner repo number = none
  | some last =>
    (∃ steps, follow (replacedBy links owner repo) (steps + 1) number = some last) ∧
      replacedBy links owner repo last = none

end Walk

variable {links : Links} {owner repo : String}

theorem chainWalk_reached (rounds : Nat) (seen : List Nat) (place : Nat) :
    ∃ steps ≤ rounds, follow (replacedBy links owner repo) steps place =
      some (chainWalk links owner repo rounds seen place) := by
  induction rounds generalizing seen place with
  | zero => exact ⟨0, le_refl _, rfl⟩
  | succ rounds ih =>
    rw [chainWalk]
    split
    · exact ⟨0, zero_le _, rfl⟩
    next next hnext =>
      split
      · exact ⟨0, zero_le _, rfl⟩
      · obtain ⟨steps, hsteps, hreached⟩ := ih (seen ++ [next]) next
        exact ⟨steps + 1, succ_le_succ hsteps, (follow_succ_of_eq_some hnext).trans hreached⟩

/-- On a chain that ends within the rounds nothing is met a second time, so the walk comes to the
end. -/
theorem chainWalk_ends {rounds : Nat} {seen : List Nat} {place : Nat}
    (hseen : ∀ number ∈ seen, ∃ steps,
      follow (replacedBy links owner repo) steps number = some place)
    (hends : follow (replacedBy links owner repo) (rounds + 1) place = none) :
    replacedBy links owner repo (chainWalk links owner repo rounds seen place) = none := by
  induction rounds generalizing seen place with
  | zero =>
    cases hnext : replacedBy links owner repo place with
    | none => exact hnext
    | some next =>
      rw [follow_succ_of_eq_some hnext] at hends
      cases hends
  | succ rounds ih =>
    rw [chainWalk]
    split
    · assumption
    next next hnext =>
      rw [follow_succ_of_eq_some hnext] at hends
      rw [if_neg]
      · refine ih ?_ hends
        intro number hnumber
        rcases List.mem_append.mp hnumber with hold | hlast
        · obtain ⟨steps, hsteps⟩ := hseen number hold
          refine ⟨steps + 1, ?_⟩
          rw [follow_add, hsteps]
          exact follow_succ_of_eq_some hnext
        · exact ⟨0, congrArg some (List.mem_singleton.mp hlast)⟩
      · intro hagain
        obtain ⟨steps, hsteps⟩ := hseen next hagain
        refine (Grounded.of_follow_eq_none hends).follow_ne_self steps ?_
        rw [follow_add, hsteps]
        exact follow_succ_of_eq_some hnext

/-- The walk of `chain_end` is right exactly about the pull requests with at most `maxChain + 1`
links ahead of them. -/
theorem chainEnd_isChainEnd_iff (links : Links) (owner repo : String) (number : Nat) :
    IsChainEnd links owner repo number (chainEnd links owner repo number) ↔
      follow (replacedBy links owner repo) (maxChain + 2) number = none := by
  unfold chainEnd
  cases hfirst : replacedBy links owner repo number with
  | none => exact iff_of_true hfirst (follow_succ_of_eq_none hfirst)
  | some first =>
    rw [follow_succ_of_eq_some hfirst]
    obtain ⟨steps, hsteps, hreached⟩ :=
      chainWalk_reached maxChain [number, first] first
    constructor
    · rintro ⟨-, hend⟩
      refine follow_eq_none_of_le ?_ (Nat.add_le_add_right hsteps 1)
      rw [follow_add, hreached]
      exact follow_succ_of_eq_none hend
    · intro hends
      refine ⟨⟨steps, (follow_succ_of_eq_some hfirst).trans hreached⟩, chainWalk_ends ?_ hends⟩
      intro seen hseen
      rcases List.mem_pair.mp hseen with rfl | rfl
      · exact ⟨1, follow_succ_of_eq_some hfirst⟩
      · exact ⟨0, rfl⟩

/-- `#1` is replaced by `#2`, that one by `#3`, and so on, one call after the other. -/
def longChain : List Action :=
  (List.range 34).flatMap fun place =>
    [.start place (ask (place + 1) (place + 2)), .look place, .write place (.ok ())]

theorem longChain_cutOff :
    ∃ world, machine.run longChain = some world ∧
      chainEnd world.links "acme" "forge" 1 = some 34 ∧
      ¬IsChainEnd world.links "acme" "forge" 1 (some 34) := by
  have hrun : ∃ world ∈ machine.run longChain,
      chainEnd world.links "acme" "forge" 1 = some 34 ∧
        replacedBy world.links "acme" "forge" 34 = some 35 := by
    decide +kernel
  obtain ⟨world, hworld, hend, hreplaced⟩ := hrun
  refine ⟨world, hworld, hend, fun hlast => ?_⟩
  rw [hlast.2] at hreplaced
  cases hreplaced

end JeryuForge.Replacements
