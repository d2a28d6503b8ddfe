import JeryuForge.GreenRef.Safety

/-!
# No newer verdict is lost

On a branch that only fast-forwards, with every git call answered, each report is for
a commit the branch carries.  A report that has returned is settled: the ref names a
commit that is no proper ancestor of the reported one.  This holds when no call finds,
at its swap, that another has put the ref behind its own commit.
-/

universe u

namespace JeryuForge.GreenRef

open Ancestry Function Option

variable {Commit : Type u} [PartialOrder Commit]

def Settled (green : Option Commit) (reported : Commit) : Prop :=
  ∃ named, green = some named ∧ ¬named < reported

theorem Settled.fastForward {old new : Option Commit} {reported : Commit}
    (hsettled : Settled old reported) (hforward : FastForward old new) : Settled new reported := by
  obtain ⟨named, rfl, hbehind⟩ := hsettled
  cases new with
  | none => exact absurd hforward id
  | some target =>
    refine ⟨target, rfl, ?_⟩
    intro hahead
    exact hbehind (lt_of_le_of_lt hforward hahead)

/-- The runs the question is asked of: the branch only fast-forwards, no git call
fails, and a green report is for a full object id of a commit the branch carries. -/
def Healthy (git : Git Commit) (repoName : String) (world : World Commit) :
    Action Commit → Prop
  | .pushBranch tip => FastForward world.repo.branch tip
  | .createStatus _ status recorded repositoryFound =>
    ProvesDefaultBranch repoName status → recorded = true →
      repositoryFound = true ∧ isObjectId status.sha = true ∧
        Carries world.repo.branch (git.commitNamed status.sha)
  | .gitCall _ answer => answer = .ok

/-- The call is not overtaken at its next git call: the green commit it reads is one
that the branch it has read carries, and at its swap the ref is as it was read, or at a
commit that its own is not ahead of. -/
def Call.NotOvertaken (repo : Repo Commit) : Call Commit → Prop
  | .readingGreen _ head _ => ∀ current ∈ repo.green, current ≤ head
  | .updating _ _ oid green =>
    repo.green = green ∨ ∀ current ∈ repo.green, ¬current < oid
  | _ => True

def NotOvertaken (world : World Commit) : Action Commit → Prop
  | .gitCall id _ => ∀ call ∈ world.calls id, call.NotOvertaken world.repo
  | _ => True

def Call.Healthy (git : Git Commit) (repo : Repo Commit) : Call Commit → Prop
  | .opening sha => isObjectId sha = true ∧ Carries repo.branch (git.commitNamed sha)
  | .readingBranch sha => Carries repo.branch (git.commitNamed sha)
  | .resolvingSha sha head => git.commitNamed sha ≤ head
  | .checkingBranch sha head oid => oid = git.commitNamed sha ∧ oid ≤ head
  | .readingGreen sha _ oid => oid = git.commitNamed sha
  | .checkingForward sha head oid current =>
    oid = git.commitNamed sha ∧ current ≤ head ∧ Carries repo.green current
  | .checkingCarried sha head oid current =>
    oid = git.commitNamed sha ∧ current ≤ head ∧ Carries repo.green current ∧
      ¬current ≤ oid
  | .updating sha _ oid none => oid = git.commitNamed sha
  | .updating sha _ oid (some current) =>
    oid = git.commitNamed sha ∧ current ≤ oid ∧ Carries repo.green current

theorem Call.Healthy.fastForward {git : Git Commit} {before after : Repo Commit}
    {call : Call Commit} (hcall : call.Healthy git before)
    (hbranch : FastForward before.branch after.branch)
    (hgreen : FastForward before.green after.green) : call.Healthy git after := by
  cases call with
  | opening sha => exact ⟨hcall.1, hcall.2.fastForward hbranch⟩
  | readingBranch sha => exact Carries.fastForward hcall hbranch
  | resolvingSha | checkingBranch | readingGreen => exact hcall
  | checkingForward sha head oid current =>
    exact ⟨hcall.1, hcall.2.1, hcall.2.2.fastForward hgreen⟩
  | checkingCarried sha head oid current =>
    exact ⟨hcall.1, hcall.2.1, hcall.2.2.1.fastForward hgreen, hcall.2.2.2⟩
  | updating sha head oid green =>
    cases green with
    | none => exact hcall
    | some current => exact ⟨hcall.1, hcall.2.1, hcall.2.2.fastForward hgreen⟩

variable [DecidableEq Commit] {git : Git Commit} {repoName defaultBranch : String}

theorem Call.Healthy.goes (hbest : BestCommonAncestors git.mergeBase) {repo : Repo Commit}
    {call next : Call Commit} (hcall : call.Healthy git repo)
    (hread : ∀ sha head oid, call = .readingGreen sha head oid →
      ∀ current ∈ repo.green, current ≤ head) (hgoes : Goes git repo call next) :
    next.Healthy git repo := by
  cases hgoes with
  | opened sha => exact hcall.2
  | branch hbranch =>
    obtain ⟨tip, htip, hle⟩ := hcall
    obtain rfl := some.inj (htip.symm.trans hbranch)
    exact hle
  | resolved sha head => exact ⟨rfl, hcall⟩
  | onBranch hon => exact hcall.1
  | unset hgreen => exact hcall
  | green hgreen => exact ⟨hcall, hread _ _ _ rfl _ hgreen, _, hgreen, le_rfl⟩
  | forward hforward => exact ⟨hcall.1, (isAncestor_iff hbest _ _).mp hforward, hcall.2.2⟩
  | apart hapart =>
    exact ⟨hcall.1, hcall.2.1, hcall.2.2, fun hle => hapart ((isAncestor_iff hbest _ _).mpr hle)⟩
  | rewritten hleft => exact absurd ((isAncestor_iff hbest _ _).mpr hcall.2.1) hleft

theorem Call.Healthy.advance_returned (hbest : BestCommonAncestors git.mergeBase)
    {repo after : Repo Commit} {call : Call Commit} {outcome : Advance Commit}
    (hcall : call.Healthy git repo)
    (hswap : ∀ sha head oid green, call = .updating sha head oid green →
      repo.green = green ∨ ∀ current ∈ repo.green, ¬current < oid)
    (hstep : advance git defaultBranch repo .ok call = some (.returned after outcome)) :
    after.branch = repo.branch ∧ FastForward repo.green after.green ∧
      Settled after.green (git.commitNamed call.sha) := by
  cases call with
  | opening sha => simp [advance, hcall.1] at hstep
  | readingBranch sha =>
    obtain ⟨head, hbranch, _⟩ := hcall
    simp [advance, hbranch] at hstep
  | resolvingSha sha head => simp [advance] at hstep
  | checkingBranch sha head oid =>
    have hancestor := (isAncestor_iff hbest oid head).mpr hcall.2
    simp [advance, hancestor] at hstep
  | readingGreen sha head oid =>
    cases hgreen : repo.green with
    | none => simp [advance, hgreen] at hstep
    | some current =>
      by_cases hsame : current = oid
      · simp only [advance, hgreen, hsame, if_true, some.injEq,
          Progress.returned.injEq] at hstep
        obtain ⟨rfl, _⟩ := hstep
        refine ⟨rfl, hgreen ▸ fastForward_refl _, current, hgreen, ?_⟩
        rw [hsame, show oid = git.commitNamed sha from hcall]
        exact lt_irrefl _
      · simp [advance, hgreen, hsame] at hstep
  | checkingForward sha head oid current =>
    cases hforward : isAncestor git current oid <;> simp [advance, hforward] at hstep
  | checkingCarried sha head oid current =>
    obtain ⟨hoid, hhead, ⟨named, hgreen, hle⟩, hbehind⟩ := hcall
    have hcarried := (isAncestor_iff hbest current head).mpr hhead
    simp only [advance, hcarried, if_true, some.injEq, Progress.returned.injEq] at hstep
    obtain ⟨rfl, _⟩ := hstep
    refine ⟨rfl, fastForward_refl _, named, hgreen, ?_⟩
    intro hahead
    exact hbehind (hoid ▸ hle.trans hahead.le)
  | updating sha head oid green =>
    have hoid : oid = git.commitNamed sha := by
      cases green with
      | none => exact hcall
      | some current => exact hcall.1
    by_cases hread : repo.green = green
    · simp only [advance, updateRef, hread, if_true, some.injEq,
        Progress.returned.injEq] at hstep
      obtain ⟨rfl, _⟩ := hstep
      refine ⟨rfl, ?_, oid, rfl, ?_⟩
      · cases green with
        | none => exact hread ▸ trivial
        | some current =>
          rw [hread]
          exact hcall.2.1
      · exact hoid ▸ lt_irrefl oid
    · simp only [advance, updateRef, hread, if_false, some.injEq,
        Progress.returned.injEq] at hstep
      obtain ⟨rfl, _⟩ := hstep
      refine ⟨rfl, fastForward_refl _, ?_⟩
      have hahead := (hswap sha head oid green rfl).resolve_left hread
      cases hnow : repo.green with
      | none =>
        -- A refused swap of a ref that is absent now: the call read some commit,
        -- and the ref does not disappear.
        cases green with
        | none => exact absurd hnow hread
        | some current =>
          obtain ⟨named, hnamed, _⟩ := hcall.2.2
          rw [hnow] at hnamed
          exact absurd hnamed (by simp)
      | some current => exact ⟨current, rfl, hoid ▸ hahead current hnow⟩

structure HealthyWorld (git : Git Commit) (repoName : String) (world : World Commit) :
    Prop where
  calls : ∀ {id call}, world.calls id = some call → call.Healthy git world.repo
  reports : ∀ {status}, status ∈ world.statuses → ProvesDefaultBranch repoName status →
    (∃ id call, world.calls id = some call ∧ call.sha = status.sha) ∨
      Settled world.repo.green (git.commitNamed status.sha)

omit [DecidableEq Commit] in
/-- A reported commit is settled or its call is still under way: adding a call or letting
one go on keeps that, as long as the call goes on for the same report. -/
theorem HealthyWorld.update {world next : World Commit} {id : Nat} {call : Call Commit}
    (hworld : HealthyWorld git repoName world)
    (hsame : ∀ found, world.calls id = some found → call.sha = found.sha)
    (hcalls : next.calls = update world.calls id (some call))
    (hrepo : next.repo = world.repo) (hhealthy : call.Healthy git world.repo)
    (hadded : ∀ status ∈ next.statuses, status ∈ world.statuses ∨ status.sha = call.sha) :
    HealthyWorld git repoName next := by
  constructor
  · intro other found hfound
    rw [hcalls] at hfound
    rw [hrepo]
    exact forall_update hworld.calls (by rintro _ ⟨⟩; exact hhealthy) hfound
  · intro status hstatus hgreen
    rw [hcalls, hrepo]
    rcases hadded status hstatus with hold | hnew
    · rcases hworld.reports hold hgreen with ⟨other, found, hfound, hsha⟩ | hsettled
      · by_cases hother : other = id
        · subst hother
          exact .inl ⟨other, call, update_self _ _ _, (hsame found hfound).trans hsha⟩
        · exact .inl ⟨other, found, (update_of_ne hother _ _).trans hfound, hsha⟩
      · exact .inr hsettled
    · exact .inl ⟨id, call, update_self _ _ _, hnew.symm⟩

theorem HealthyWorld.step (hbest : BestCommonAncestors git.mergeBase) {world next : World Commit}
    {action : Action Commit} (hworld : HealthyWorld git repoName world)
    (hhealthy : Healthy git repoName world action) (hnot : NotOvertaken world action)
    (hstep : step git repoName defaultBranch world action = some next) :
    HealthyWorld git repoName next := by
  cases steps_of_step hstep with
  | pushed tip =>
    exact ⟨fun hcall => (hworld.calls hcall).fastForward hhealthy (fastForward_refl _),
      hworld.reports⟩
  | unrecorded => exact hworld
  | recorded hother =>
    refine ⟨hworld.calls, fun {reported} hreported hgreen => ?_⟩
    rcases List.mem_cons.mp hreported with rfl | hold
    · exact absurd ⟨hgreen, (hhealthy hgreen rfl).1⟩ hother
    · exact hworld.reports hold hgreen
  | started hfree hproves =>
    obtain ⟨-, hid, hcarries⟩ := hhealthy hproves rfl
    refine hworld.update ?_ rfl rfl ⟨hid, hcarries⟩ ?_
    · exact fun found hfound => absurd (hfree.symm.trans hfound) (by simp)
    · exact fun found hfound => (List.mem_cons.mp hfound).symm.imp_right (congrArg _)
  | @goes _ call after hcall hgoes =>
    have hhealthy : after.Healthy git world.repo := by
      refine (hworld.calls hcall).goes hbest ?_ hgoes
      rintro sha head oid rfl
      exact hnot _ hcall
    refine hworld.update ?_ rfl rfl hhealthy fun status hstatus => .inl hstatus
    intro found hfound
    obtain rfl : call = found := some.inj (hcall.symm.trans hfound)
    exact hgoes.sha
  | @returned id answer call repo outcome hcall hadvance =>
    obtain rfl : answer = .ok := hhealthy
    have hswap : ∀ sha head oid green, call = .updating sha head oid green →
        world.repo.green = green ∨ ∀ current ∈ world.repo.green, ¬current < oid := by
      rintro sha head oid green rfl
      exact hnot _ hcall
    obtain ⟨hbranch, hforward, hsettled⟩ :=
      (hworld.calls hcall).advance_returned hbest hswap hadvance
    constructor
    · intro other found hfound
      exact forall_update
        (fun hold => (hworld.calls hold).fastForward (hbranch ▸ fastForward_refl _) hforward)
        (by simp) hfound
    · intro status hstatus hgreen
      rcases hworld.reports hstatus hgreen with ⟨other, found, hfound, hfoundSha⟩ | hbefore
      · by_cases hother : other = id
        · subst hother
          obtain rfl : call = found := some.inj (hcall.symm.trans hfound)
          exact .inr (hfoundSha ▸ hsettled)
        · exact .inl ⟨other, found, (update_of_ne hother _ _).trans hfound, hfoundSha⟩
      · exact .inr (hbefore.fastForward hforward)

/-- Once every call of a healthy run in which none was overtaken has returned, the ref
names a commit that no reported commit is ahead of. -/
theorem run_reports_settled (git : Git Commit) (repoName defaultBranch : String)
    (hbest : BestCommonAncestors git.mergeBase) (actions : List (Action Commit))
    (world : World Commit)
    (hhealthy : (machine git repoName defaultBranch).Meets (Healthy git repoName) actions)
    (hnot : (machine git repoName defaultBranch).Meets NotOvertaken actions)
    (hrun : (machine git repoName defaultBranch).run actions = some world)
    (hreturned : ∀ id, world.calls id = none) (status : CommitStatus)
    (hstatus : status ∈ world.statuses) (hgreen : ProvesDefaultBranch repoName status) :
    ∃ named, world.repo.green = some named ∧ ¬named < git.commitNamed status.sha := by
  have hworld : HealthyWorld git repoName world := by
    refine (machine git repoName defaultBranch).run_invariant
      ⟨by simp [machine], by simp [machine]⟩ ?_ (hhealthy.and _ hnot) hrun
    exact fun state action next hstate hmet hstep => hstate.step hbest hmet.1 hmet.2 hstep
  rcases hworld.reports hstatus hgreen with ⟨id, call, hcall, _⟩ | hsettled
  · rw [hreturned id] at hcall
    exact absurd hcall (by simp)
  · exact hsettled

instance [DecidableLE Commit] (git : Git Commit) (repoName : String) (world : World Commit) :
    (action : Action Commit) → Decidable (Healthy git repoName world action)
  | .pushBranch tip => inferInstanceAs (Decidable (FastForward world.repo.branch tip))
  | .createStatus .. => inferInstanceAs (Decidable (_ → _ → _))
  | .gitCall .. => inferInstanceAs (Decidable (_ = _))

instance [DecidableLE Commit] [DecidableLT Commit] (repo : Repo Commit) :
    (call : Call Commit) → Decidable (call.NotOvertaken repo)
  | .readingGreen .. => inferInstanceAs (Decidable (∀ current ∈ _, _))
  | .updating .. => inferInstanceAs (Decidable (_ ∨ _))
  | .opening _ | .readingBranch _ | .resolvingSha .. | .checkingBranch .. | .checkingForward ..
  | .checkingCarried .. => isTrue trivial

instance [DecidableLE Commit] [DecidableLT Commit] (world : World Commit) :
    (action : Action Commit) → Decidable (NotOvertaken world action)
  | .gitCall .. => inferInstanceAs (Decidable (∀ call ∈ _, _))
  | .pushBranch _ | .createStatus .. => isTrue trivial

theorem run_reports_settled_reportsInTurn :
    ∃ world, (machine linearGit "forge" "main").run reportsInTurn = some world ∧
      ∃ named, world.repo.green = some named ∧
        ¬named < linearGit.commitNamed "2222222222222222222222222222222222222222" := by
  refine ⟨_, (some_get reportsInTurn_runs).symm, ?_⟩
  refine run_reports_settled linearGit "forge" "main" Ancestry.bestCommonAncestors_min
    reportsInTurn _ (by decide +kernel) (by decide +kernel)
    (some_get reportsInTurn_runs).symm ?_
    ⟨"2222222222222222222222222222222222222222", .success, "forge/main-health"⟩
    (by decide +kernel) (by decide +kernel)
  intro id
  match id with
  | 0 | 1 => rfl
  | id + 2 => rfl

def swapsInOrder : List (Action Nat) :=
  [.pushBranch (some 2), reportOf 0 "1111111111111111111111111111111111111111",
      reportOf 1 "2222222222222222222222222222222222222222"] ++
    gitCalls 0 5 ++ gitCalls 1 5 ++ gitCalls 0 1 ++ gitCalls 1 1

private theorem swapsInOrder_runs :
    ((machine linearGit "forge" "main").run swapsInOrder).isSome = true := by
  decide +kernel

theorem swapsInOrder_lose_the_newer :
    Ancestry.BestCommonAncestors linearGit.mergeBase ∧
      (machine linearGit "forge" "main").Meets (Healthy linearGit "forge") swapsInOrder ∧
      ∃ world, (machine linearGit "forge" "main").run swapsInOrder = some world ∧
        (∀ id, world.calls id = none) ∧
        ∃ status ∈ world.statuses, ProvesDefaultBranch "forge" status ∧
          Carries world.repo.branch (linearGit.commitNamed status.sha) ∧
          ∃ named, world.repo.green = some named ∧
            named < linearGit.commitNamed status.sha := by
  refine ⟨Ancestry.bestCommonAncestors_min, by decide +kernel, _,
    (some_get swapsInOrder_runs).symm, ?_,
    ⟨"2222222222222222222222222222222222222222", .success, "forge/main-health"⟩,
    by decide +kernel, by decide +kernel, by decide +kernel, 1, by decide +kernel,
    by decide +kernel⟩
  intro id
  match id with
  | 0 | 1 => rfl
  | id + 2 => rfl

end JeryuForge.GreenRef
