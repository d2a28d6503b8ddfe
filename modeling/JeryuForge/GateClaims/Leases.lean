import JeryuForge.Library.Machine
import JeryuForge.GateClaims.Store
import JeryuForge.Text

/-!
# Leases under interleaved requests

A run interleaves the steps of any number of asks and releases.  A promised lease is kept,
and the head goes to nobody else before its end, in every run in which no call reaches the
store with a clock reading that its head has outrun.
-/

namespace JeryuForge.GateClaims

open Clock

structure GateRunnerHeartbeat where
  runnerId : String
  host : String
  labels : List String
  capabilities : List String
  intervalSeconds : Option Nat
deriving DecidableEq, Repr

structure GateRunnerRecord where
  heartbeat : GateRunnerHeartbeat
  receivedAt : Int
deriving DecidableEq, Repr

def runnerOfflineAfterSecs : Int := 180

def offlineAfterIntervals : Int := 3

def maxI64 : Int := 9223372036854775807

/-- `max(180, 3 * intervalSeconds)`, with the product saturating; an interval that
is no `i64` counts as none. -/
def offlineAfterSecs (heartbeat : GateRunnerHeartbeat) : Int :=
  match heartbeat.intervalSeconds with
  | none => runnerOfflineAfterSecs
  | some interval =>
    if (interval : Int) ≤ maxI64 then
      max runnerOfflineAfterSecs (min (interval * offlineAfterIntervals) maxI64)
    else
      runnerOfflineAfterSecs

def isOnline (record : GateRunnerRecord) (now : Int) : Bool :=
  decide (numSeconds (now - record.receivedAt) ≤ offlineAfterSecs record.heartbeat)

def runnerKind (heartbeat : GateRunnerHeartbeat) : String :=
  if "deploy" ∈ heartbeat.labels then
    "deployer"
  else if "automation" ∈ heartbeat.labels then
    "automation"
  else if "redteam" ∈ heartbeat.labels then
    "reviewer"
  else if "jankurai-audit" ∈ heartbeat.labels then
    "jankurai-audit"
  else
    "gate"

def holdsGateSlot (heartbeat : GateRunnerHeartbeat) : Bool :=
  runnerKind heartbeat == "gate"

def hostCapabilities (runners : List GateRunnerRecord) (host : String) (now : Int) : List String :=
  let advertised := (runners.filter fun record =>
      record.heartbeat.host == host && holdsGateSlot record.heartbeat &&
        isOnline record now).flatMap fun record => record.heartbeat.capabilities
  advertised.dedup.insertionSort (· ≤ ·)

structure GateClaimRequest where
  repo : String
  number : Nat
  headSha : Option String
  queueSha : Option String
  runnerId : String
  host : String
deriving DecidableEq, Repr

structure Asked where
  owner : String
  name : String
  head : String
deriving DecidableEq, Repr

def validateField (field value extra : String) : Except String Unit :=
  if value.isEmpty || decide (value.utf8ByteSize > 128) then
    .error (field ++ " must be 1 to 128 characters")
  else if value.toList.all fun char => char.isAlphanum || char ∈ extra.toList then
    .ok ()
  else
    .error (field ++ " has a character it may not")

def validateHead (head : String) : Except String Unit :=
  if decide (7 ≤ head.utf8ByteSize ∧ head.utf8ByteSize ≤ 64) &&
      head.toList.all fun char => Text.isAsciiHexdigit char && !char.isUpper then
    .ok ()
  else
    .error "head_sha/queue_sha must be a lowercase hex commit id"

def validate (request : GateClaimRequest) : Except String Asked := do
  let (owner, name) ← match Text.splitOnce request.repo '/' with
    | some parts => pure parts
    | none => throw "repo must be owner/name"
  validateField "repo owner" owner "-_."
  validateField "repo name" name "-_."
  validateField "runner_id" request.runnerId "-_./"
  validateField "host" request.host "-."
  let head ← match request.headSha, request.queueSha with
    | some head, none => pure head
    | none, some head => pure head
    | _, _ => throw "exactly one of head_sha or queue_sha is required"
  validateHead head
  pure { owner, name, head }

/-- The answers of the two routes.  A claim is rendered with the word for its state;
a refusal has its status, code and message. -/
inductive Response where
  | claim (status : Nat) (stateWord : String) (claim : GateClaim)
  | refused (status : Nat) (code message : String)
  | claimHeld (message : String) (holder : GateClaim)
  | capabilityMissing (message : String) (required missing : List String)
  | gaveBack (stateWord repo head : String)
deriving DecidableEq, Repr

/-- What an ask learns from outside the store before it reads the clock: whether the
account may claim, whether the repository exists, and the host the runner last
reported from. -/
structure AskReads where
  mayClaim : Bool
  repoKnown : Bool
  reportedHost : Option String
deriving DecidableEq, Repr

/-- What the read of the declaration answered: the policy, why it could not be read,
or the error of a read that was lost. -/
inductive PolicyRead where
  | policy (required : List String)
  | unreadable (reason : String)
  | lost (error : String)
deriving DecidableEq, Repr

def notARunner : Response :=
  .refused 403 "permission_denied"
    ("this account may not claim gated heads: claim as a forge admin or a " ++
      "JERYU_RUNNER_REPORTERS login")

def hostMismatch (reported : Option String) (request : GateClaimRequest) : Option Response :=
  match reported with
  | none => none
  | some host =>
    if host ≠ request.host then
      some (.refused 422 "host_mismatch"
        (request.runnerId ++ " last reported from " ++ host ++ ", not " ++
          request.host ++ ": a gate claim names the host the runner beats from"))
    else
      none

def checkAsk (reads : AskReads) (request : GateClaimRequest) : Except Response Asked :=
  if !reads.mayClaim then
    .error notARunner
  else
    match validate request with
    | .error reason => .error (.refused 422 "invalid_input" reason)
    | .ok asked =>
      if !reads.repoKnown then
        .error (.refused 404 "not_found" "repository not found")
      else
        match hostMismatch reads.reportedHost request with
        | some refusal => .error refusal
        | none => .ok asked

def claimAsk (request : GateClaimRequest) (asked : Asked) : ClaimAsk where
  repo := request.repo
  number := request.number
  head := asked.head
  runnerId := request.runnerId
  host := request.host

def capableClaimant (runners : List GateRunnerRecord) (request : GateClaimRequest)
    (required : List String) (now : Int) : Bool :=
  runners.any fun record =>
    record.heartbeat.runnerId == request.runnerId &&
      record.heartbeat.host == request.host && holdsGateSlot record.heartbeat &&
      isOnline record now &&
      required.all fun name => name ∈ record.heartbeat.capabilities

/-- The refusals of `acquire` that the policy of the repository decides. -/
def checkPolicy (read : PolicyRead) (runners : List GateRunnerRecord) (request : GateClaimRequest)
    (asked : Asked) (now : Int) : Except Response (List String) :=
  match read with
  | .unreadable reason => .error (.refused 422 "invalid_repo_config" reason)
  | .lost error =>
    .error (.refused 503 "invalid_repo_config"
      (".jeryu/repo.toml of " ++ asked.owner ++ "/" ++ asked.name ++
        " could not be read: " ++ error))
  | .policy required =>
    if required ≠ [] && !capableClaimant runners request required now then
      let advertised := hostCapabilities runners request.host now
      .error (.capabilityMissing
        (asked.owner ++ "/" ++ asked.name ++ " requires " ++
          String.intercalate ", " required ++ " in .jeryu/repo.toml; " ++
          request.runnerId ++ " on " ++ request.host ++ " advertises " ++
          (if advertised.isEmpty then "none" else String.intercalate ", " advertised))
        required (required.filter fun name => name ∉ advertised))
    else
      .ok required

def renewedResponse (claim : GateClaim) : Response :=
  .claim 200 "renewed" claim

section Rendering

variable (rfc3339 : Int → String)

def grantedResponse : Granted → Response
  | .fresh claim => .claim 201 "granted" claim
  | .renewed claim => renewedResponse claim
  | .held claim =>
    .claimHeld
      (claim.runnerId ++ " on " ++ claim.host ++ " holds the gate claim on " ++
        claim.repo ++ "@" ++ claim.head ++ " until " ++ rfc3339 claim.expiresAt)
      claim
  | .full =>
    .refused 503 "claim_capacity"
      ("the forge holds its " ++ toString maxClaims ++
        " gate claims; retry on the next tick")

end Rendering

def releaseResponse (repo head : String) : ReleaseOutcome → Response
  | .released => .gaveBack "released" repo head
  | .absent => .gaveBack "absent" repo head
  | .heldByOther claim =>
    .claimHeld
      (claim.runnerId ++ " on " ++ claim.host ++ " holds the gate claim on " ++
        claim.repo ++ "@" ++ claim.head ++ "; only its holder may release it, " ++
        "an expired lease included")
      claim

open Option

inductive Flight where
  | asking (request : GateClaimRequest) (asked : Asked) (now : Int)
  | readingPolicy (request : GateClaimRequest) (asked : Asked) (now : Int)
  | cleared
      (request : GateClaimRequest) (asked : Asked) (required : List String) (now : Int)
  | releasing (request : GateClaimRequest) (asked : Asked) (now : Int)
deriving DecidableEq, Repr

/-- What a call answered, with the limit of what it may have dropped. -/
structure Answer where
  runnerId : String
  key : ClaimKey
  readAt : Int
  dropsTo : Int
  response : Response
deriving DecidableEq

structure World where
  claims : Claims
  flights : Nat → Option Flight
  answers : List Answer

inductive Action where
  | ask (id : Nat) (reads : AskReads) (request : GateClaimRequest) (now : Int)
  | renew (id : Nat)
  | readPolicy (id : Nat) (read : PolicyRead) (runners : List GateRunnerRecord)
  | acquire (id : Nat)
  | askRelease (id : Nat) (mayClaim : Bool) (request : GateClaimRequest) (now : Int)
  | release (id : Nat)

namespace World

def fly (world : World) (id : Nat) (flight : Flight) : World :=
  { world with flights := Function.update world.flights id (some flight) }

def land (world : World) (id : Nat) : World :=
  { world with flights := Function.update world.flights id none }

def answer (world : World) (id : Nat) (claims : Claims) (ask : ClaimAsk) (now : Int)
    (response : Response) : World where
  claims := claims
  flights := Function.update world.flights id none
  answers := ⟨ask.runnerId, ask.key, now, dropLimit world.claims now, response⟩ :: world.answers

end World

section Run

variable (rfc3339 : Int → String)

/-- `acquire` and `release`, whose calls may overlap between their reads and writes. -/
def step (world : World) : Action → Option World
  | .ask id reads request now =>
    match world.flights id, checkAsk reads request with
    | some _, _ => none
    | none, .error _ => some world
    | none, .ok asked => some (world.fly id (.asking request asked now))
  | .renew id =>
    match world.flights id with
    | some (.asking request asked now) =>
      match renew world.claims (claimAsk request asked) now with
      | (claims, some claim) =>
        some (world.answer id claims (claimAsk request asked) now
          (renewedResponse claim))
      | (claims, none) =>
        some ({ world with claims }.fly id (.readingPolicy request asked now))
    | _ => none
  | .readPolicy id read runners =>
    match world.flights id with
    | some (.readingPolicy request asked now) =>
      match checkPolicy read runners request asked now with
      | .error _ => some (world.land id)
      | .ok required => some (world.fly id (.cleared request asked required now))
    | _ => none
  | .acquire id =>
    match world.flights id with
    | some (.cleared request asked required now) =>
      let result := acquire world.claims (claimAsk request asked) required now
      some (world.answer id result.1 (claimAsk request asked) now
        (grantedResponse rfc3339 result.2))
    | _ => none
  | .askRelease id mayClaim request now =>
    match world.flights id with
    | some _ => none
    | none =>
      match mayClaim, validate request with
      | false, _ => some world
      | true, .error _ => some world
      | true, .ok asked => some (world.fly id (.releasing request asked now))
  | .release id =>
    match world.flights id with
    | some (.releasing request asked now) =>
      let result := release world.claims request.repo asked.head request.runnerId now
      some (world.answer id result.1 (claimAsk request asked) now
        (releaseResponse request.repo asked.head result.2))
    | _ => none

def machine : Machine World Action where
  start := ⟨∅, fun _ => none, []⟩
  step := step rfc3339

end Run

def Response.heldUntil : Response → Option Int
  | .claim _ _ lease => some lease.expiresAt
  | _ => none

def Response.isRelease : Response → Bool
  | .gaveBack stateWord _ _ => stateWord == "released"
  | _ => false

/-- The ends of the leases a runner was promised on a head since it last released
it, from the answers, newest first. -/
def outstanding (runnerId : String) (key : ClaimKey) : List Answer → List Int
  | [] => []
  | answer :: older =>
    if answer.runnerId = runnerId ∧ answer.key = key then
      if answer.response.isRelease then
        []
      else
        answer.response.heldUntil.toList ++ outstanding runnerId key older
    else
      outstanding runnerId key older

/-- A lease promised until an end is neither shortened nor given to another runner
whose ask was read before that end, until its runner releases it. -/
structure LeasesKept (world : World) : Prop where
  notShortened : ∀ runnerId key ends claim,
    ends ∈ outstanding runnerId key world.answers →
      world.claims.get? key = some claim → ends ≤ claim.expiresAt
  notGivenAway : ∀ newer answer older,
    world.answers = newer ++ answer :: older → answer.response.heldUntil ≠ none →
      ∀ runnerId ends, runnerId ≠ answer.runnerId →
        ends ∈ outstanding runnerId answer.key older → ends ≤ answer.readAt

/-- The reading up to which the call may have removed claims on the head: its own where it granted
the head, else what it may have dropped. -/
def Answer.outruns (answer : Answer) (key : ClaimKey) : Int :=
  if answer.key = key ∧ answer.response.heldUntil ≠ none then answer.readAt else answer.dropsTo

/-- The reading of an ask has not been outrun: the runner's own live lease was last renewed no
later, and when the store has no claim on the head, no call before has granted it at a later
reading or was read so much later that it may have dropped a claim still live at this one. -/
@[mk_iff]
structure Timely (world : World) (ask : ClaimAsk) (now : Int) : Prop where
  renewal : ∀ held ∈ world.claims.get? ask.key,
    held.runnerId = ask.runnerId → now < held.expiresAt → held.renewedAt ≤ now
  inOrder : world.claims.get? ask.key = none →
    ∀ answer ∈ world.answers, answer.outruns ask.key ≤ now

instance (world : World) (ask : ClaimAsk) (now : Int) : Decidable (Timely world ask now) :=
  decidable_of_iff' _ (timely_iff world ask now)

def ReadsInTime (world : World) : Action → Prop
  | .renew id =>
    match world.flights id with
    | some (.asking request asked now) =>
      world.claims.get? (claimAsk request asked).key ≠ none →
        Timely world (claimAsk request asked) now
    | _ => True
  | .acquire id =>
    match world.flights id with
    | some (.cleared request asked _ now) => Timely world (claimAsk request asked) now
    | _ => True
  | _ => True

instance (world : World) (action : Action) : Decidable (ReadsInTime world action) := by
  unfold ReadsInTime
  split <;> try infer_instance
  all_goals split <;> infer_instance

/-- Some call has outrun this instant on the head. -/
def Passed (world : World) (key : ClaimKey) (instant : Int) : Prop :=
  ∃ answer ∈ world.answers, instant ≤ answer.outruns key

/-- What the claims of the store say about the promised leases: the holder's end no
later than the claim does, everybody else's ended when the claim was last renewed, and where
the claim is gone all of them are past. -/
structure Invariant (world : World) : Prop where
  expiry : ∀ {key claim}, world.claims.get? key = some claim →
    claim.expiresAt = claim.renewedAt + seconds gateClaimTtlSecs
  holder : ∀ {key claim ends}, world.claims.get? key = some claim →
    ends ∈ outstanding claim.runnerId key world.answers → ends ≤ claim.expiresAt
  others : ∀ {key claim runnerId ends}, world.claims.get? key = some claim →
    runnerId ≠ claim.runnerId → ends ∈ outstanding runnerId key world.answers →
      ends ≤ claim.renewedAt
  granted : ∀ {key claim}, world.claims.get? key = some claim → Passed world key claim.renewedAt
  gone : ∀ {key runnerId ends}, world.claims.get? key = none →
    ends ∈ outstanding runnerId key world.answers → Passed world key ends
  notGivenAway : ∀ {newer answer older},
    world.answers = newer ++ answer :: older → answer.response.heldUntil ≠ none →
      ∀ {runnerId ends}, runnerId ≠ answer.runnerId →
        ends ∈ outstanding runnerId answer.key older → ends ≤ answer.readAt

theorem ttl_nonneg : 0 ≤ seconds gateClaimTtlSecs := by
  decide

section Invariant

variable {world : World} {key : ClaimKey} {older : List Answer} {runnerId : String}
  {ends now : Int} {ask : ClaimAsk}

theorem Passed.answer {instant : Int} (hpassed : Passed world key instant) (id : Nat)
    (claims : Claims) (ask : ClaimAsk) (now : Int) (response : Response) :
    Passed (world.answer id claims ask now response) key instant := by
  obtain ⟨answer, hanswer, hle⟩ := hpassed
  exact ⟨answer, List.mem_cons_of_mem _ hanswer, hle⟩

theorem Invariant.leasesKept (hworld : Invariant world) : LeasesKept world where
  notShortened := by
    intro runnerId key ends claim hends hclaim
    by_cases hrunner : runnerId = claim.runnerId
    · exact hworld.holder hclaim (hrunner ▸ hends)
    · have hrenewed := hworld.others hclaim hrunner hends
      have hexpiry := hworld.expiry hclaim
      have httl := ttl_nonneg
      omega
  notGivenAway := fun _ _ _ hsplit hheld _ _ => hworld.notGivenAway hsplit hheld

variable {answer : Answer} {next : World} {claims : Claims} {response : Response}
  {claim : GateClaim}

theorem outstanding_cons_of_ne (hne : ¬(answer.runnerId = runnerId ∧ answer.key = key)) :
    outstanding runnerId key (answer :: older) = outstanding runnerId key older := by
  simp only [outstanding, hne, if_false]

theorem outstanding_cons_of_refusal (hnone : answer.response.heldUntil = none)
    (hrelease : answer.response.isRelease = false) :
    outstanding runnerId key (answer :: older) = outstanding runnerId key older := by
  by_cases hsame : answer.runnerId = runnerId ∧ answer.key = key
  · simp [outstanding, hsame, hnone, hrelease]
  · exact outstanding_cons_of_ne hsame

theorem mem_outstanding_of_grant
    {granted : Int} (hgranted : answer.response.heldUntil = some granted)
    (hends : ends ∈ outstanding runnerId key (answer :: older)) :
    (answer.runnerId = runnerId ∧ answer.key = key ∧ ends = granted) ∨
      ends ∈ outstanding runnerId key older := by
  by_cases hsame : answer.runnerId = runnerId ∧ answer.key = key
  · cases hrelease : answer.response.isRelease with
    | true => simp [outstanding, hsame, hrelease] at hends
    | false =>
      simp only [outstanding, hsame, and_self, if_true, hrelease, Bool.false_eq_true,
        if_false, hgranted, toList_some, List.singleton_append,
        List.mem_cons] at hends
      rcases hends with rfl | hold
      · exact .inl ⟨hsame.1, hsame.2, rfl⟩
      · exact .inr hold
  · rw [outstanding_cons_of_ne hsame] at hends
    exact .inr hends

theorem notGivenAway_cons (holder : ∀ {newer middle rest},
      older = newer ++ middle :: rest → middle.response.heldUntil ≠ none →
        ∀ {runnerId ends}, runnerId ≠ middle.runnerId →
          ends ∈ outstanding runnerId middle.key rest → ends ≤ middle.readAt)
    (hanswer : answer.response.heldUntil ≠ none →
      ∀ {runnerId ends}, runnerId ≠ answer.runnerId →
        ends ∈ outstanding runnerId answer.key older → ends ≤ answer.readAt) :
    ∀ {newer middle rest},
      answer :: older = newer ++ middle :: rest → middle.response.heldUntil ≠ none →
        ∀ {runnerId ends}, runnerId ≠ middle.runnerId →
          ends ∈ outstanding runnerId middle.key rest → ends ≤ middle.readAt := by
  intro newer middle rest hsplit hheld
  cases newer with
  | nil =>
    obtain ⟨rfl, rfl⟩ := List.cons.inj hsplit
    exact hanswer hheld
  | cons first newer =>
    obtain ⟨rfl, htail⟩ := List.cons.inj hsplit
    exact holder htail hheld

variable (hworld : Invariant world)
include hworld

theorem Invariant.of_same_store (hclaims : next.claims = world.claims)
    (hanswers : next.answers = world.answers) : Invariant next := by
  obtain ⟨hexpiry, hholder, hothers, hgranted, hgone, hgiven⟩ := hworld
  constructor
  · rw [hclaims]
    exact hexpiry
  · rw [hclaims, hanswers]
    exact hholder
  · rw [hclaims, hanswers]
    exact hothers
  · unfold Passed
    rw [hclaims, hanswers]
    exact hgranted
  · unfold Passed
    rw [hclaims, hanswers]
    exact hgone
  · rw [hanswers]
    exact hgiven

/-- A lease on a head whose claim is not kept was past, or its claim ended by the limit of what the
call may drop. -/
theorem Invariant.passed_of_drops {id : Nat} {after : Claims}
    (hdrops : Drops (dropLimit world.claims now) world.claims claims)
    (hnone : claims.get? key = none) (hother : ¬(ask.key = key ∧ response.heldUntil ≠ none))
    (hends : ends ∈ outstanding runnerId key world.answers) :
    Passed (world.answer id after ask now response) key ends := by
  cases hclaim : world.claims.get? key with
  | none => exact (hworld.gone hclaim hends).answer ..
  | some claim =>
    have hdropped := hdrops.expired hclaim hnone
    have hkept := hworld.leasesKept.notShortened _ _ _ _ hends hclaim
    refine ⟨_, List.mem_cons_self, ?_⟩
    rw [Answer.outruns, if_neg hother]
    exact hkept.trans hdropped

theorem Invariant.answered {id : Nat}
    (hkept : ∀ {key claim}, claims.get? key = some claim →
      world.claims.get? key = some claim ∧ ∀ runnerId,
        outstanding runnerId key (world.answer id claims ask now response).answers =
          outstanding runnerId key world.answers)
    (hgone : ∀ {key runnerId ends}, claims.get? key = none →
      ends ∈ outstanding runnerId key (world.answer id claims ask now response).answers →
        Passed (world.answer id claims ask now response) key ends)
    (hnone : response.heldUntil = none) : Invariant (world.answer id claims ask now response) where
  expiry := fun hclaim => hworld.expiry (hkept hclaim).1
  holder := by
    intro key claim ends hclaim hends
    obtain ⟨hbefore, hsame⟩ := hkept hclaim
    rw [hsame] at hends
    exact hworld.holder hbefore hends
  others := by
    intro key claim runnerId ends hclaim hrunner hends
    obtain ⟨hbefore, hsame⟩ := hkept hclaim
    rw [hsame] at hends
    exact hworld.others hbefore hrunner hends
  granted := fun hclaim => (hworld.granted (hkept hclaim).1).answer ..
  gone := hgone
  notGivenAway :=
    notGivenAway_cons hworld.notGivenAway fun hheld => absurd hnone hheld

theorem Invariant.afterRefusal {id : Nat}
    (hdrops : Drops (dropLimit world.claims now) world.claims claims)
    (hnone : response.heldUntil = none) (hrelease : response.isRelease = false) :
    Invariant (world.answer id claims ask now response) := by
  have hsame : ∀ {runnerId key},
      outstanding runnerId key (world.answer id claims ask now response).answers =
        outstanding runnerId key world.answers :=
    outstanding_cons_of_refusal hnone hrelease
  refine hworld.answered (fun hclaim => ⟨hdrops.kept hclaim, fun _ => hsame⟩) ?_ hnone
  intro key runnerId ends hdropped hends
  rw [hsame] at hends
  exact hworld.passed_of_drops hdrops hdropped (fun hgrant => hgrant.2 hnone) hends

/-- Whoever else was promised the head had seen the lease end when it was granted to the runner
that now gives it back. -/
theorem Invariant.afterRelease {id : Nat} {held : GateClaim}
    (hdrops : Drops (dropLimit world.claims now) world.claims claims)
    (hheld : world.claims.get? ask.key = some held) (hrunner : held.runnerId = ask.runnerId)
    (hnone : response.heldUntil = none) (hrelease : response.isRelease = true) :
    Invariant (world.answer id (claims.erase ask.key) ask now response) := by
  have hother : ∀ {runnerId key}, ¬(ask.runnerId = runnerId ∧ ask.key = key) →
      outstanding runnerId key (world.answer id (claims.erase ask.key) ask now response).answers =
        outstanding runnerId key world.answers :=
    fun hne => outstanding_cons_of_ne hne
  refine hworld.answered (fun {key claim} hclaim => ?_) (fun {key runnerId ends} hgone hends => ?_)
    hnone
  · have hkey : key ≠ ask.key := by
      rintro rfl
      simp at hclaim
    rw [OrdMap.get?_erase_of_ne _ hkey] at hclaim
    exact ⟨hdrops.kept hclaim, fun _ => hother fun hanswer => hkey hanswer.2.symm⟩
  · by_cases hkey : key = ask.key
    · subst hkey
      by_cases hown : ask.runnerId = runnerId
      · simp [World.answer, outstanding, hown, hrelease] at hends
      · rw [hother fun hanswer => hown hanswer.1] at hends
        obtain ⟨answer, hanswer, hpassed⟩ := hworld.granted hheld
        have hended := hworld.others hheld (fun hsame => hown (hrunner.symm.trans hsame.symm)) hends
        exact ⟨answer, List.mem_cons_of_mem _ hanswer, hended.trans hpassed⟩
    · rw [OrdMap.get?_erase_of_ne _ hkey] at hgone
      rw [hother fun hanswer => hkey hanswer.2.symm] at hends
      exact hworld.passed_of_drops hdrops hgone (fun hgrant => hgrant.2 hnone) hends

theorem Invariant.ends_of_timely {after : Claims}
    (hgrants : Grants ask now world.claims after claim) (htimely : Timely world ask now)
    (hends : ends ∈ outstanding runnerId ask.key world.answers) :
    ends ≤ if runnerId = ask.runnerId then now + seconds gateClaimTtlSecs else now := by
  have httl := ttl_nonneg
  cases hheld : world.claims.get? ask.key with
  | none =>
    obtain ⟨answer, hanswer, hpassed⟩ := hworld.gone hheld hends
    have hread := htimely.inOrder hheld answer hanswer
    split <;> omega
  | some held =>
    have hexpiry := hworld.expiry hheld
    by_cases hexpired : held.expiresAt ≤ now
    · have hended : ends ≤ now := by
        have hkept := hworld.leasesKept.notShortened _ _ _ _ hends hheld
        omega
      split
      · omega
      · exact hended
    · have hrunner : held.runnerId = ask.runnerId :=
        (hgrants.free hheld).resolve_right hexpired
      have hrenewed := htimely.renewal held hheld hrunner (by omega)
      by_cases hown : runnerId = ask.runnerId
      · have hkept := hworld.holder hheld (hrunner ▸ hown ▸ hends)
        rw [if_pos hown]
        omega
      · have hother := hworld.others hheld (by rwa [hrunner]) hends
        omega

theorem Invariant.afterGrant {id : Nat} (hgrants : Grants ask now world.claims claims claim)
    (htimely : Timely world ask now) (hheld : response.heldUntil = some claim.expiresAt) :
    Invariant (world.answer id claims ask now response) where
  expiry := by
    intro key other hother
    rcases hgrants.get?_cases hother with ⟨rfl, rfl⟩ | ⟨_, hold⟩
    · rw [hgrants.expiresAt, hgrants.renewedAt]
    · exact hworld.expiry hold
  holder := by
    intro key other ends hother hends
    rcases hgrants.get?_cases hother with ⟨rfl, rfl⟩ | ⟨hkey, hother⟩
    · rw [hgrants.expiresAt]
      rcases mem_outstanding_of_grant hheld hends with ⟨_, _, hends⟩ | hold
      · rw [hends, hgrants.expiresAt]
      · have hbound := hworld.ends_of_timely hgrants htimely hold
        rwa [if_pos hgrants.runner] at hbound
    · rcases mem_outstanding_of_grant hheld hends with ⟨_, hsame, _⟩ | hold
      · exact absurd hsame.symm hkey
      · exact hworld.holder hother hold
  others := by
    intro key other runnerId ends hother hrunner hends
    rcases hgrants.get?_cases hother with ⟨rfl, rfl⟩ | ⟨hkey, hother⟩
    · rw [hgrants.runner] at hrunner
      rw [hgrants.renewedAt]
      rcases mem_outstanding_of_grant hheld hends with ⟨hsame, _, _⟩ | hold
      · exact absurd hsame.symm hrunner
      · have hbound := hworld.ends_of_timely hgrants htimely hold
        rwa [if_neg hrunner] at hbound
    · rcases mem_outstanding_of_grant hheld hends with ⟨_, hsame, _⟩ | hold
      · exact absurd hsame.symm hkey
      · exact hworld.others hother hrunner hold
  granted := by
    intro key other hother
    rcases hgrants.get?_cases hother with ⟨rfl, rfl⟩ | ⟨_, hold⟩
    · refine ⟨_, List.mem_cons_self, ?_⟩
      rw [Answer.outruns, if_pos ⟨rfl, by simp [hheld]⟩, hgrants.renewedAt]
    · exact (hworld.granted hold).answer ..
  gone := by
    intro key runnerId ends hgone hends
    have hkey : key ≠ ask.key := by
      rintro rfl
      rw [show (world.answer id claims ask now response).claims = claims from rfl,
        hgrants.get?_self] at hgone
      cases hgone
    obtain ⟨room, hdrops, _, rfl⟩ := hgrants.written
    have hroom : room.get? key = none := by
      rw [← OrdMap.get?_insert_of_ne room claim hkey]
      exact hgone
    have hold := (mem_outstanding_of_grant hheld hends).resolve_left
      fun hgrant => hkey hgrant.2.1.symm
    exact hworld.passed_of_drops hdrops hroom (fun hgrant => hkey hgrant.1.symm) hold
  notGivenAway := by
    refine notGivenAway_cons hworld.notGivenAway ?_
    intro _ runnerId ends hrunner hends
    have hbound := hworld.ends_of_timely hgrants htimely hends
    rwa [if_neg hrunner] at hbound

omit hworld

theorem grantedResponse_heldUntil (rfc3339 : Int → String) (granted : Granted) :
    (grantedResponse rfc3339 granted).heldUntil =
      granted.claim?.map GateClaim.expiresAt := by
  cases granted <;> rfl

theorem grantedResponse_isRelease (rfc3339 : Int → String) (granted : Granted) :
    (grantedResponse rfc3339 granted).isRelease = false := by
  cases granted <;> rfl

theorem releaseResponse_heldUntil (repo head : String) (outcome : ReleaseOutcome) :
    (releaseResponse repo head outcome).heldUntil = none := by
  cases outcome <;> rfl

theorem releaseResponse_isRelease {repo head : String} {outcome : ReleaseOutcome}
    (houtcome : outcome ≠ .released) : (releaseResponse repo head outcome).isRelease = false := by
  cases outcome with
  | released => exact absurd rfl houtcome
  | absent => simp [releaseResponse, Response.isRelease]
  | heldByOther claim => rfl

theorem Invariant.step {rfc3339 : Int → String} {action : Action}
    (hworld : Invariant world) (htimely : ReadsInTime world action)
    (hstep : step rfc3339 world action = some next) : Invariant next := by
  cases action with
  | ask id reads request now =>
    simp only [GateClaims.step] at hstep
    split at hstep
    · cases hstep
    · exact some.inj hstep ▸ hworld
    · exact some.inj hstep ▸ hworld.of_same_store rfl rfl
  | renew id =>
    simp only [GateClaims.step] at hstep
    split at hstep
    next request asked now hflight =>
      simp only [ReadsInTime, hflight] at htimely
      rcases renew_spec world.claims (claimAsk request asked) now with
        hrefused | ⟨after, claim, hrenewed, hgrants⟩
      · rw [hrefused] at hstep
        exact some.inj hstep ▸ hworld.of_same_store rfl rfl
      · have hheld : world.claims.get? (claimAsk request asked).key ≠ none := by
          intro hnone
          simp [renew, hnone] at hrenewed
        rw [hrenewed] at hstep
        exact some.inj hstep ▸ hworld.afterGrant hgrants (htimely hheld) rfl
    · cases hstep
  | readPolicy id read runners =>
    simp only [GateClaims.step] at hstep
    split at hstep
    · split at hstep <;> exact some.inj hstep ▸ hworld.of_same_store rfl rfl
    · cases hstep
  | acquire id =>
    simp only [GateClaims.step] at hstep
    split at hstep
    next request asked required now hflight =>
      simp only [ReadsInTime, hflight] at htimely
      cases hstep
      rcases acquire_spec world.claims (claimAsk request asked) required now with
        ⟨hnone, hdrops⟩ | ⟨claim, hclaim, hgrants⟩
      · refine hworld.afterRefusal hdrops ?_ (grantedResponse_isRelease rfc3339 _)
        rw [grantedResponse_heldUntil, hnone]
        rfl
      · refine hworld.afterGrant hgrants htimely ?_
        rw [grantedResponse_heldUntil, hclaim]
        rfl
    · cases hstep
  | askRelease id mayClaim request now =>
    simp only [GateClaims.step] at hstep
    split at hstep
    · cases hstep
    · split at hstep
      · exact some.inj hstep ▸ hworld
      · exact some.inj hstep ▸ hworld
      · exact some.inj hstep ▸ hworld.of_same_store rfl rfl
  | release id =>
    simp only [GateClaims.step] at hstep
    split at hstep
    next request asked now hflight =>
      cases hstep
      rcases release_spec world.claims request.repo asked.head request.runnerId now with
        ⟨houtcome, hdrops⟩ | ⟨after, held, hreleased, hdrops, hheld, hrunner⟩
      · exact hworld.afterRefusal hdrops (releaseResponse_heldUntil _ _ _)
          (releaseResponse_isRelease houtcome)
      · rw [hreleased]
        have hplace : world.claims.get? (claimAsk request asked).key = some held := hheld
        exact hworld.afterRelease hdrops hplace hrunner (releaseResponse_heldUntil _ _ _) rfl
    · cases hstep

theorem Invariant.start (rfc3339 : Int → String) : Invariant (machine rfc3339).start where
  expiry := fun hclaim => absurd hclaim (by simp [machine])
  holder := fun hclaim => absurd hclaim (by simp [machine])
  others := fun hclaim => absurd hclaim (by simp [machine])
  granted := fun hclaim => absurd hclaim (by simp [machine])
  gone := fun _ hends => absurd hends (by simp [machine, outstanding])
  notGivenAway := fun hsplit => absurd hsplit (by simp [machine])

end Invariant

/-- In every interleaving whose calls all reach the store with a timely reading, the
promised leases are kept. -/
theorem run_leasesKept (rfc3339 : Int → String) (actions : List Action) (world : World)
    (htimely : (machine rfc3339).Meets ReadsInTime actions)
    (hrun : (machine rfc3339).run actions = some world) : LeasesKept world :=
  ((machine rfc3339).run_invariant (Invariant.start rfc3339)
    (fun _ _ _ hworld hcondition hstep => hworld.step hcondition hstep)
    htimely hrun).leasesKept

def exampleAsk (id : Nat) (runnerId host : String) (readAt : Int) : Action :=
  .ask id ⟨true, true, none⟩
    ⟨"veox/jain", 7, some "abcdef1", none, runnerId, host⟩ (seconds readAt)

def renewedLease : List Action :=
  [exampleAsk 0 "gate-a/slot0" "gate-a" 0, .renew 0, .readPolicy 0 (.policy []) [], .acquire 0,
    exampleAsk 1 "gate-b/slot0" "gate-b" 10, .renew 1, .readPolicy 1 (.policy []) [],
    .acquire 1,
    exampleAsk 2 "gate-a/slot0" "gate-a" 60, .renew 2]

theorem run_leasesKept_renewedLease :
    ∃ world, (machine fun _ => "").run renewedLease = some world ∧
      outstanding "gate-a/slot0" (key "veox/jain" "abcdef1") world.answers =
        [seconds 240, seconds 180] ∧
      LeasesKept world :=
  ⟨((machine fun _ => "").run renewedLease).get (by decide +kernel),
    (some_get _).symm, by decide +kernel,
    run_leasesKept (fun _ => "") renewedLease _ (by decide +kernel)
      (some_get _).symm⟩

/-- Two asks of one runner, the first delayed by its policy read: the second is
promised the head until 230 s, the first then lowers the claim to 180 s, and another
runner that asks at 200 s is granted the head. -/
def delayedAsks : List Action :=
  [exampleAsk 0 "gate-a/slot0" "gate-a" 0, .renew 0,
    exampleAsk 1 "gate-a/slot0" "gate-a" 50, .renew 1, .readPolicy 1 (.policy []) [],
    .acquire 1,
    .readPolicy 0 (.policy []) [], .acquire 0,
    exampleAsk 2 "gate-b/slot0" "gate-b" 200, .renew 2, .readPolicy 2 (.policy []) [],
    .acquire 2]

theorem delayedAsks_shorten_and_give_away :
    (∃ world, (machine fun _ => "").run (delayedAsks.take 8) = some world ∧
      ¬LeasesKept world) ∧
    ∃ world, (machine fun _ => "").run delayedAsks = some world ∧ ¬LeasesKept world := by
  let head := key "veox/jain" "abcdef1"
  let lease := fun runnerId host grantedAt renewedAt => (⟨"veox/jain", 7, "abcdef1",
    runnerId, host, seconds grantedAt, seconds renewedAt, seconds (renewedAt + 180), []⟩ :
      GateClaim)
  let second : Answer := ⟨"gate-a/slot0", head, seconds 50, seconds (50 - 3600),
    .claim 201 "granted" (lease "gate-a/slot0" "gate-a" 50 50)⟩
  let first : Answer := ⟨"gate-a/slot0", head, seconds 0, seconds (0 - 3600),
    .claim 200 "renewed" (lease "gate-a/slot0" "gate-a" 50 0)⟩
  let other : Answer := ⟨"gate-b/slot0", head, seconds 200, seconds (200 - 3600),
    .claim 201 "granted" (lease "gate-b/slot0" "gate-b" 200 200)⟩
  constructor
  · refine ⟨((machine fun _ => "").run (delayedAsks.take 8)).get (by decide +kernel),
      (some_get _).symm, ?_⟩
    intro hkept
    have hshort := hkept.notShortened "gate-a/slot0" head (seconds 230)
      (lease "gate-a/slot0" "gate-a" 50 0) (by decide +kernel) (by decide +kernel)
    exact absurd hshort (by decide)
  · refine ⟨((machine fun _ => "").run delayedAsks).get (by decide +kernel),
      (some_get _).symm, ?_⟩
    intro hkept
    have hgiven := hkept.notGivenAway [] other [first, second] (by decide +kernel)
      (by decide) "gate-a/slot0" (seconds 230) (by decide) (by decide +kernel)
    exact absurd hgiven (by decide)

end JeryuForge.GateClaims
