import JeryuForge.MergeQueue.Entry

/-!
# Required contexts of the merge passport

`required_contexts_with_enforcement` reads each required context of a pull request at its
head.  It counts a status only if it answers for the base and names a producer other than
the author, and counts nothing while CI is simulated.
-/

namespace JeryuForge.Passport

open Text

def normalize (login : String) : String :=
  toAsciiLowercase (trim (trimStartMatches (trim login) '@'))

def isEntrySeparator (char : Char) : Bool :=
  char ∈ [';', ' ', '\t', '\n', '\r']

def entryPairs (canonical listed : String) : List (String × String) :=
  (((split listed (· = ',')).map normalize).filter fun other => !other.isEmpty).map
    fun other => (normalize canonical, other)

def aliasPairs (aliases : Option String) : List (String × String) :=
  let entries := ((split (aliases.getD "") isEntrySeparator).map trim).filter
    fun entry => !entry.isEmpty
  ((entries.filterMap fun entry => splitOnce entry '=').flatMap
    fun (canonical, listed) => entryPairs canonical listed).filter
      fun (canonical, _) => !canonical.isEmpty

def resolve (aliases : Option String) (normalized : String) : String :=
  match (aliasPairs aliases).find? fun (_, other) => other = normalized with
  | some (canonical, _) => canonical
  | none => normalized

def principalWithAliases (aliases : Option String) (login : String) : Option String :=
  if (normalize login).isEmpty then none else some (resolve aliases (normalize login))

def samePrincipalWithAliases (aliases : Option String) (left right : String) : Bool :=
  match principalWithAliases aliases left, principalWithAliases aliases right with
  | some left, some right => left = right
  | _, _ => false

theorem samePrincipalWithAliases_iff {aliases : Option String} {left right : String} :
    samePrincipalWithAliases aliases left right = true ↔
      ∃ principal, principalWithAliases aliases left = some principal ∧
        principalWithAliases aliases right = some principal := by
  unfold samePrincipalWithAliases
  split
  next first second hleft hright =>
    simp only [hleft, hright, Option.some.injEq, decide_eq_true_eq]
    constructor
    · rintro rfl
      exact ⟨first, rfl, rfl⟩
    · rintro ⟨principal, rfl, rfl⟩
      rfl
  next hnobody =>
    simp only [Bool.false_eq_true, false_iff]
    rintro ⟨principal, hleft, hright⟩
    exact hnobody principal principal hleft hright

example : samePrincipalWithAliases (some "gatebot=gate-bot,gatebot-2; mina=mina.q")
    "GATE-BOT" "gatebot-2" = true := by
  decide +kernel

open MergeQueue List

structure BranchProtection where
  requiredStatusChecks : List String
  requireJankuraiProof : Bool
deriving DecidableEq, Repr

inductive MergeBlocker where
  | jankuraiProofRequired
  | other (what : String)
deriving DecidableEq, Repr

structure RuleReads where
  protection : Except ForgeError BranchProtection
  evaluation : Except ForgeError (List MergeBlocker)

structure PullRequest where
  owner : String
  repo : String
  author : String
  headSha : Sha
  baseRef : String
deriving DecidableEq, Repr

/-- The conditions of the site: its alias table, whether the audit gate binds here, and
whether CI is simulated. -/
structure Site where
  aliases : Option String
  auditEnforceMerge : Bool
  simulatedCi : Bool
deriving DecidableEq, Repr

inductive RequiredContextState where
  | passing
  | pending
  | failing
  | missing
deriving DecidableEq, Repr

structure RequiredContextPosture where
  name : String
  state : RequiredContextState
  details : Option String
deriving DecidableEq, Repr

def protectedNames : Except ForgeError BranchProtection →
    Except RequiredContextPosture (List String)
  | .ok rule =>
    .ok (rule.requiredStatusChecks ++
      if rule.requireJankuraiProof then ["jankurai/proof"] else [])
  | .error (.notFound _) => .ok []
  | .error (.other _) =>
    .error
      { name := "branch-protection/readback"
        state := .failing
        details := some "could not read the exact base-branch protection rule" }

def evaluatedNames : Except ForgeError (List MergeBlocker) →
    Except RequiredContextPosture (List String)
  | .ok blockers =>
    .ok (if .jankuraiProofRequired ∈ blockers then ["jankurai/proof"] else [])
  | .error _ =>
    .error
      { name := "branch-protection/evaluation"
        state := .failing
        details := some "could not evaluate the exact pull-request head" }

/-- `required_context_names`. -/
def requiredNames (reads : RuleReads) (auditEnforceMerge : Bool) :
    Except RequiredContextPosture (List String) := do
  let ruled ← protectedNames reads.protection
  let audited := if auditEnforceMerge then ["jankurai/proof"] else []
  let evaluated ← evaluatedNames reads.evaluation
  return (Text.sort (ruled ++ audited ++ evaluated)).dedup

def unusableEvidence (name reason : String) : RequiredContextPosture :=
  { name := name
    state := .failing
    details := some ("required context `" ++ name ++ "` has no usable evidence: " ++ reason) }

def statusProducerRefusal (aliases : Option String) (status : CommitStatus)
    (author : String) : Option String :=
  match principalWithAliases aliases status.creator with
  | none => some "it names no producer, so it cannot be attributed to anyone"
  | some producer =>
    if samePrincipalWithAliases aliases status.creator author then
      some ("it was produced by `" ++ producer ++
        "`, the author of the change it is supposed to vouch for")
    else
      none

variable {Recency : Type} [LinearOrder Recency]

def statusPosture (site : Site) (author name : String) (status : CommitStatus) :
    RequiredContextPosture :=
  match statusProducerRefusal site.aliases status author with
  | some reason => unusableEvidence name reason
  | none =>
    { name := name
      state :=
        match status.state with
        | .success => .passing
        | .pending => .pending
        | .error | .failure => .failing
      details := status.targetUrl.or status.description }

def checkPosture (name : String) : Option CheckRun → RequiredContextPosture
  | some check =>
    { name := name
      state :=
        match check.status with
        | .queued | .inProgress => .pending
        | .completed => if check.conclusion = some .success then .passing else .failing
      details := check.detailsUrl.or check.summary }
  | none =>
    { name := name
      state := .missing
      details := some ("required context `" ++ name ++ "` is missing") }

def contextPosture (recencyKey : CheckRun → Recency) (site : Site) (author : String)
    (statuses : List CommitStatus) (checks : List CheckRun) (name : String) :
    RequiredContextPosture :=
  if site.simulatedCi then
    unusableEvidence name
      ("this forge is running with CI simulated, so no recorded conclusion for " ++
        "it is the outcome of a real run")
  else
    match newestStatus statuses name with
    | some status => statusPosture site author name status
    | none => checkPosture name (newestCheck recencyKey checks name)

def requiredContextsWithEnforcement (core : ForgeCore Recency) (reads : RuleReads)
    (site : Site) (pr : PullRequest) : List RequiredContextPosture :=
  match requiredNames reads site.auditEnforceMerge with
  | .error posture => [posture]
  | .ok names =>
    match core.combinedStatusForBase pr.owner pr.repo pr.headSha pr.baseRef with
    | .error _ =>
      [{ name := "required-context/status-readback"
         state := .failing
         details := some "could not read exact-head commit statuses" }]
    | .ok statuses =>
      match core.listCheckRuns pr.owner pr.repo pr.headSha with
      | .error _ =>
        [{ name := "required-context/check-readback"
           state := .failing
           details := some "could not read exact-head check runs" }]
      | .ok checks =>
        names.map (contextPosture core.recencyKey site pr.author statuses checks)

def Independent (aliases : Option String) (author : String) (status : CommitStatus) : Prop :=
  ∃ producer, principalWithAliases aliases status.creator = some producer ∧
    principalWithAliases aliases author ≠ some producer

variable {status : CommitStatus} {author name : String} {site : Site}
  {recencyKey : CheckRun → Recency} {statuses : List CommitStatus} {checks : List CheckRun}

theorem statusProducerRefusal_eq_none_iff {aliases : Option String} :
    statusProducerRefusal aliases status author = none ↔
      Independent aliases author status := by
  unfold statusProducerRefusal Independent
  cases hproducer : principalWithAliases aliases status.creator with
  | none => simp
  | some producer =>
    have hsame : samePrincipalWithAliases aliases status.creator author = true ↔
        principalWithAliases aliases author = some producer := by
      rw [samePrincipalWithAliases_iff]
      simp [hproducer]
    by_cases hauthor : principalWithAliases aliases author = some producer
    · simp [hsame.mpr hauthor, hauthor]
    · simp [mt hsame.mp hauthor, hauthor]

/-- The newest status is a success of an independent producer, or there is none and the
newest check run is a completed success. -/
def IndependentlyGreen (recencyKey : CheckRun → Recency) (aliases : Option String)
    (author : String) (statuses : List CommitStatus) (checks : List CheckRun)
    (name : String) : Prop :=
  match newestStatus statuses name with
  | some status => status.state = .success ∧ Independent aliases author status
  | none => ∃ check, newestCheck recencyKey checks name = some check ∧ check.Succeeded

theorem statusPosture_passing_iff :
    (statusPosture site author name status).state = .passing ↔
      status.state = .success ∧ Independent site.aliases author status := by
  rw [← statusProducerRefusal_eq_none_iff]
  unfold statusPosture
  cases statusProducerRefusal site.aliases status author with
  | some reason => simp [unusableEvidence]
  | none => cases status.state <;> simp

theorem checkPosture_passing_iff {newest : Option CheckRun} :
    (checkPosture name newest).state = .passing ↔
      ∃ check, newest = some check ∧ check.Succeeded := by
  cases newest with
  | none => simp [checkPosture]
  | some check =>
    cases hstatus : check.status <;> simp [checkPosture, CheckRun.Succeeded, hstatus]

theorem contextPosture_passing_iff :
    (contextPosture recencyKey site author statuses checks name).state = .passing ↔
      site.simulatedCi = false ∧
        IndependentlyGreen recencyKey site.aliases author statuses checks name := by
  unfold contextPosture IndependentlyGreen
  cases site.simulatedCi with
  | true => simp [unusableEvidence]
  | false =>
    cases newestStatus statuses name with
    | some status => simp [statusPosture_passing_iff]
    | none => simp [checkPosture_passing_iff]

@[simp]
theorem contextPosture_name :
    (contextPosture recencyKey site author statuses checks name).name = name := by
  unfold contextPosture
  split
  · rfl
  · split
    · unfold statusPosture
      split <;> rfl
    · cases newestCheck recencyKey checks name <;> rfl

def ReadsContext (core : ForgeCore Recency) (rule : BranchProtection)
    (blockers : List MergeBlocker) (site : Site) (pr : PullRequest) (commit : Sha)
    (name : String) (state : RequiredContextState) : Prop :=
  ∃ posture ∈ requiredContextsWithEnforcement core
      { protection := .ok rule, evaluation := .ok blockers } site { pr with headSha := commit },
    posture.name = name ∧ posture.state = state

/-- The gate of a commit is green only if the passport reads every required context of it
as passing, and not if it reads one as failing. -/
structure Agrees (core : ForgeCore Recency) (rule : BranchProtection)
    (blockers : List MergeBlocker) (site : Site) (pr : PullRequest) (commit : Sha) : Prop where
  passes : gateVerdict core pr.owner pr.repo commit rule.requiredStatusChecks = some true →
    ∀ name ∈ rule.requiredStatusChecks,
      ReadsContext core rule blockers site pr commit name .passing
  refuses : ∀ name ∈ rule.requiredStatusChecks,
    ReadsContext core rule blockers site pr commit name .failing →
      gateVerdict core pr.owner pr.repo commit rule.requiredStatusChecks ≠ some true

/-- If the newest status of a context answers for the base, its producer is independent.
If it was proved against another base, the statuses that do answer for the base, or
without any the check runs, are green on their own. -/
structure Vouched (recencyKey : CheckRun → Recency) (aliases : Option String)
    (pr : PullRequest) (statuses : List CommitStatus) (checks : List CheckRun)
    (name : String) : Prop where
  forBase : ∀ status ∈ newestStatus statuses name,
    statusAnswersForBase pr.baseRef status = true → Independent aliases pr.author status
  forOther : ∀ status ∈ newestStatus statuses name,
    statusAnswersForBase pr.baseRef status = false →
      IndependentlyGreen recencyKey aliases pr.author
        (statuses.filter (statusAnswersForBase pr.baseRef)) checks name

section Agreement

variable {core : ForgeCore Recency} {rule : BranchProtection} {blockers : List MergeBlocker}
  {site : Site} {pr : PullRequest} {commit : Sha} {statuses : List CommitStatus}
  {checks : List CheckRun} {name : String}

theorem requiredNames_ok (rule : BranchProtection) (blockers : List MergeBlocker) (site : Site) :
    ∃ names, requiredNames { protection := .ok rule, evaluation := .ok blockers }
        site.auditEnforceMerge = .ok names ∧ rule.requiredStatusChecks ⊆ names := by
  refine ⟨_, rfl, ?_⟩
  intro name hname
  rw [mem_dedup, Text.sort, mem_insertionSort]
  simp [hname]

theorem readsContext_iff (hread : ReadsAs core pr.owner pr.repo commit statuses checks)
    (hname : name ∈ rule.requiredStatusChecks) {state : RequiredContextState} :
    ReadsContext core rule blockers site pr commit name state ↔
      (contextPosture core.recencyKey site pr.author
        (statuses.filter (statusAnswersForBase pr.baseRef)) checks name).state = state := by
  obtain ⟨names, hnames, hsub⟩ := requiredNames_ok rule blockers site
  have hpostures : requiredContextsWithEnforcement core
      { protection := .ok rule, evaluation := .ok blockers } site
      { pr with headSha := commit } =
      names.map (contextPosture core.recencyKey site pr.author
        (statuses.filter (statusAnswersForBase pr.baseRef)) checks) := by
    simp only [requiredContextsWithEnforcement, hnames, core.forBase, hread.1,
      hread.2, Except.map]
  unfold ReadsContext
  rw [hpostures]
  constructor
  · rintro ⟨posture, hposture, hposed, hstate⟩
    obtain ⟨other, -, rfl⟩ := mem_map.mp hposture
    rw [contextPosture_name] at hposed
    rw [← hposed]
    exact hstate
  · intro hstate
    exact ⟨_, mem_map_of_mem (hsub hname), contextPosture_name, hstate⟩

theorem newestStatus_forBase {status : CommitStatus} {base : String}
    (hnewest : newestStatus statuses name = some status)
    (hanswers : statusAnswersForBase base status = true) :
    newestStatus (statuses.filter (statusAnswersForBase base)) name = some status := by
  unfold newestStatus at hnewest ⊢
  rw [filter_comm]
  exact newestBy_filter hnewest hanswers

theorem newestStatus_forBase_eq_none (base : String) (hnewest : newestStatus statuses name = none) :
    newestStatus (statuses.filter (statusAnswersForBase base)) name = none := by
  unfold newestStatus at hnewest ⊢
  rw [filter_comm, newestBy_eq_none_iff.mp hnewest]
  rfl

theorem independentlyGreen_iff {recencyKey : CheckRun → Recency} {aliases : Option String}
    (hgreen : Green recencyKey statuses checks name) :
    IndependentlyGreen recencyKey aliases pr.author
        (statuses.filter (statusAnswersForBase pr.baseRef)) checks name ↔
      Vouched recencyKey aliases pr statuses checks name := by
  cases hnewest : newestStatus statuses name with
  | none =>
    -- no status at all: both rules read the newest check run
    have hnone := newestStatus_forBase_eq_none pr.baseRef hnewest
    unfold Green at hgreen
    unfold IndependentlyGreen
    rw [hnewest] at hgreen
    rw [hnone]
    constructor
    · intro _
      exact ⟨by simp [hnewest], by simp [hnewest]⟩
    · intro _
      exact hgreen
  | some status =>
    cases hanswers : statusAnswersForBase pr.baseRef status with
    | true =>
      have hsame := newestStatus_forBase hnewest hanswers
      unfold Green at hgreen
      unfold IndependentlyGreen
      rw [hnewest] at hgreen
      rw [hsame]
      constructor
      · rintro ⟨-, hindependent⟩
        refine ⟨?_, ?_⟩
        · rintro other hother -
          cases hnewest.symm.trans hother
          exact hindependent
        · rintro other hother hnot
          cases hnewest.symm.trans hother
          rw [hanswers] at hnot
          cases hnot
      · intro hvouched
        exact ⟨hgreen, hvouched.forBase status hnewest hanswers⟩
    | false =>
      constructor
      · intro hown
        refine ⟨?_, fun _ _ _ => hown⟩
        rintro other hother hdoes
        cases hnewest.symm.trans hother
        rw [hanswers] at hdoes
        cases hdoes
      · intro hvouched
        exact hvouched.forOther status hnewest hanswers

end Agreement

/-- The gate agrees with the passport on a commit if a required context is not green
there, or if CI is not simulated and each required context is vouched for. -/
theorem gateVerdict_agrees_iff (core : ForgeCore Recency) (rule : BranchProtection)
    (blockers : List MergeBlocker) (site : Site) (pr : PullRequest) (commit : Sha)
    (hrequired : rule.requiredStatusChecks ≠ []) :
    Agrees core rule blockers site pr commit ↔
      (∃ name ∈ rule.requiredStatusChecks, ¬GreenOn core pr.owner pr.repo commit name) ∨
        (site.simulatedCi = false ∧
          ∀ name ∈ rule.requiredStatusChecks, ∀ statuses checks,
            ReadsAs core pr.owner pr.repo commit statuses checks →
              Vouched core.recencyKey site.aliases pr statuses checks name) := by
  by_cases hgreen : ∀ name ∈ rule.requiredStatusChecks,
      GreenOn core pr.owner pr.repo commit name
  · have hverdict := (gateVerdict_eq_true_iff hrequired).mpr hgreen
    obtain ⟨statuses, checks, hread⟩ := readsAs_of_gateVerdict hverdict
    have hpassing : ∀ name ∈ rule.requiredStatusChecks,
        (ReadsContext core rule blockers site pr commit name .passing ↔
          site.simulatedCi = false ∧
            Vouched core.recencyKey site.aliases pr statuses checks name) := by
      intro name hname
      rw [readsContext_iff hread hname, contextPosture_passing_iff,
        independentlyGreen_iff (hread.greenOn_iff.mp (hgreen name hname))]
    constructor
    · intro hagrees
      obtain ⟨first, hfirst⟩ := exists_mem_of_ne_nil _ hrequired
      have hreads := hagrees.passes hverdict
      refine .inr ⟨((hpassing first hfirst).mp (hreads first hfirst)).1, ?_⟩
      intro name hname otherStatuses otherChecks hother
      obtain ⟨rfl, rfl⟩ := hread.eq hother
      exact ((hpassing name hname).mp (hreads name hname)).2
    · rintro (⟨name, hname, hred⟩ | ⟨hreal, hvouched⟩)
      · exact absurd (hgreen name hname) hred
      · have hreads := fun name hname => (hpassing name hname).mpr
          ⟨hreal, hvouched name hname statuses checks hread⟩
        refine ⟨fun _ => hreads, ?_⟩
        intro name hname hfailing
        have hfails := (readsContext_iff hread hname).mp hfailing
        have hpasses := (readsContext_iff hread hname).mp (hreads name hname)
        cases hpasses.symm.trans hfails
  · have hverdict := mt (gateVerdict_eq_true_iff hrequired).mp hgreen
    constructor
    · intro _
      push Not at hgreen
      exact .inl hgreen
    · intro _
      exact ⟨fun htrue => absurd htrue hverdict, fun _ _ _ => hverdict⟩

def gateGreen (creator : String) : CommitStatus :=
  { context := "jeryu/required", state := .success, base := none, creator := creator,
    targetUrl := none, description := some "gate green", updatedAt := 7 }

def greenBy (creator : String) : ForgeCore Nat where
  combinedStatus _ _ _ := .ok [gateGreen creator]
  combinedStatusForBase _ _ _ _ := .ok [gateGreen creator]
  forBase _ _ _ _ := rfl
  listCheckRuns _ _ _ := .ok []
  recencyKey := CheckRun.creationSequence

def requiringOne : BranchProtection :=
  { requiredStatusChecks := ["jeryu/required"], requireJankuraiProof := false }

def plainSite : Site :=
  { aliases := none, auditEnforceMerge := false, simulatedCi := false }

def minasPull : PullRequest :=
  { owner := "alice", repo := "jeryu", author := "mina", headSha := "feature",
    baseRef := "main" }

def refusedAsMinas : RequiredContextPosture :=
  unusableEvidence "jeryu/required"
    "it was produced by `mina`, the author of the change it is supposed to vouch for"

/-- The author's own green status passes the gate and fails the passport. -/
theorem selfVouched_disagrees :
    gateVerdict (greenBy "  @Mina ") "alice" "jeryu" "queued" ["jeryu/required"] = some true ∧
      requiredContextsWithEnforcement (greenBy "  @Mina ")
          { protection := .ok requiringOne, evaluation := .ok [] } plainSite
          { minasPull with headSha := "queued" } = [refusedAsMinas] ∧
      ¬Agrees (greenBy "  @Mina ") requiringOne [] plainSite minasPull "queued" := by
  have hverdict : gateVerdict (greenBy "  @Mina ") "alice" "jeryu" "queued"
      ["jeryu/required"] = some true := by
    decide +kernel
  have hpostures : requiredContextsWithEnforcement (greenBy "  @Mina ")
      { protection := .ok requiringOne, evaluation := .ok [] } plainSite
      { minasPull with headSha := "queued" } = [refusedAsMinas] := by
    decide +kernel
  refine ⟨hverdict, hpostures, ?_⟩
  intro hagrees
  refine hagrees.refuses "jeryu/required" mem_cons_self ?_ hverdict
  refine ⟨refusedAsMinas, ?_, rfl, rfl⟩
  rw [hpostures]
  exact mem_cons_self

/-- A gate bot's status is evidence for both. -/
theorem gateVerdict_agrees_gatebot :
    Agrees (greenBy "gatebot") requiringOne [] plainSite minasPull "queued" := by
  refine (gateVerdict_agrees_iff _ requiringOne [] plainSite minasPull "queued"
    (by decide)).mpr (.inr ⟨rfl, ?_⟩)
  rintro name hname statuses checks ⟨hstatuses, -⟩
  cases hstatuses
  cases mem_singleton.mp hname
  refine ⟨?_, ?_⟩
  · rintro status hstatus -
    cases hstatus
    exact ⟨"gatebot", by decide +kernel, by decide +kernel⟩
  · rintro status hstatus hother
    cases hstatus
    cases hother

end JeryuForge.Passport
