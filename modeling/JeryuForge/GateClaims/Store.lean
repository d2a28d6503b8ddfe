import JeryuForge.Library.OrdMap
import JeryuForge.Clock

/-!
# The gate claim store

One gate claim is the lease on one head of one repository: the runner it was granted
to, and the instant at which it runs out unless it is renewed.  This module has the
store's operations and, for each of them, what it does to the claim of every head.
-/

namespace JeryuForge.GateClaims

open Clock OrdMap Option

def gateClaimTtlSecs : Int := 180

def staleClaimRetentionSecs : Int := 3600

def maxClaims : Nat := 512

structure GateClaim where
  repo : String
  number : Nat
  head : String
  runnerId : String
  host : String
  grantedAt : Int
  renewedAt : Int
  expiresAt : Int
  requiredCapabilities : List String
deriving DecidableEq, Repr

def GateClaim.live (claim : GateClaim) (now : Int) : Bool :=
  decide (now < claim.expiresAt)

inductive Granted where
  | fresh (claim : GateClaim)
  | renewed (claim : GateClaim)
  | held (claim : GateClaim)
  | full
deriving DecidableEq, Repr

inductive ReleaseOutcome where
  | released
  | absent
  | heldByOther (claim : GateClaim)
deriving DecidableEq, Repr

structure ClaimAsk where
  repo : String
  number : Nat
  head : String
  runnerId : String
  host : String
deriving DecidableEq, Repr

/-- `(owner/name, head sha)`; the pull request number is no part of it. -/
abbrev ClaimKey := String ×ₗ String

def key (repo head : String) : ClaimKey :=
  toLex (repo, head)

def ClaimAsk.key (ask : ClaimAsk) : ClaimKey :=
  GateClaims.key ask.repo ask.head

/-- The map of `GateClaimStore`. -/
abbrev Claims := OrdMap ClaimKey GateClaim

def forgetOld (claims : Claims) (now : Int) : Claims :=
  claims.retain fun _ claim =>
    claim.live now ||
      decide (numSeconds (now - claim.expiresAt) ≤ staleClaimRetentionSecs)

def oldestExpired (claims : Claims) (now : Int) : Option ClaimKey :=
  let expired := claims.entries.filter fun entry => !entry.2.live now
  (expired.minOn? fun entry => entry.2.expiresAt).map Prod.fst

/-- The rounds of `makeRoom` that are still needed: `excess` claims are too many. -/
def makeRoomLoop (now : Int) : Nat → Claims → Claims × Bool
  | 0, claims => (claims, true)
  | excess + 1, claims =>
    match oldestExpired claims now with
    | none => (claims, false)
    | some oldest => makeRoomLoop now excess (claims.erase oldest)

def makeRoom (claims : Claims) (now : Int) : Claims × Bool :=
  makeRoomLoop now (claims.size + 1 - maxClaims) claims

def renew (claims : Claims) (ask : ClaimAsk) (now : Int) : Claims × Option GateClaim :=
  match claims.get? ask.key with
  | none => (claims, none)
  | some held =>
    if !held.live now || held.runnerId != ask.runnerId then
      (claims, none)
    else
      let renewed := { held with
        host := ask.host
        renewedAt := now
        expiresAt := now + seconds gateClaimTtlSecs }
      (claims.insert ask.key renewed, some renewed)

/-- The claim `acquire` writes: the renewed lease keeps its number, its first grant
and the requirement it was granted under. -/
def acquiredClaim (ask : ClaimAsk) (requiredCapabilities : List String) (now : Int)
    (renewed : Option GateClaim) : GateClaim where
  repo := ask.repo
  number := renewed.elim ask.number GateClaim.number
  head := ask.head
  runnerId := ask.runnerId
  host := ask.host
  grantedAt := renewed.elim now GateClaim.grantedAt
  renewedAt := now
  expiresAt := now + seconds gateClaimTtlSecs
  requiredCapabilities := renewed.elim requiredCapabilities GateClaim.requiredCapabilities

def acquire (claims : Claims) (ask : ClaimAsk) (requiredCapabilities : List String)
    (now : Int) : Claims × Granted :=
  let claims := forgetOld claims now
  match claims.get? ask.key with
  | some held =>
    if held.live now && held.runnerId != ask.runnerId then
      (claims, .held held)
    else if held.live now then
      let claim := acquiredClaim ask requiredCapabilities now (some held)
      (claims.insert ask.key claim, .renewed claim)
    else
      let claim := acquiredClaim ask requiredCapabilities now none
      (claims.insert ask.key claim, .fresh claim)
  | none =>
    match makeRoom claims now with
    | (claims, false) => (claims, .full)
    | (claims, true) =>
      let claim := acquiredClaim ask requiredCapabilities now none
      (claims.insert ask.key claim, .fresh claim)

def release (claims : Claims) (repo head runnerId : String) (now : Int) : Claims × ReleaseOutcome :=
  let claims := forgetOld claims now
  match claims.get? (key repo head) with
  | none => (claims, .absent)
  | some held =>
    if held.runnerId = runnerId then
      (claims.erase (key repo head), .released)
    else
      (claims, .heldByOther held)

/-- No claim that ended later is dropped by a call with this reading: `forget_old` keeps a claim
for an hour after its end, and only a full store has to make room. -/
def dropLimit (claims : Claims) (now : Int) : Int :=
  if claims.size < maxClaims then now - seconds staleClaimRetentionSecs else now

/-- The claims after are some of the claims before, and every claim that is gone had
ended by the limit. -/
structure Drops (limit : Int) (before after : Claims) : Prop where
  kept : ∀ {key claim}, after.get? key = some claim → before.get? key = some claim
  expired : ∀ {key claim},
    before.get? key = some claim → after.get? key = none → claim.expiresAt ≤ limit
  size : after.size ≤ before.size

theorem Drops.refl (limit : Int) (claims : Claims) : Drops limit claims claims where
  kept := fun hclaim => hclaim
  expired := by
    intro key claim hsome hnone
    rw [hnone] at hsome
    exact absurd hsome (by simp)
  size := le_rfl

variable {now limit : Int} {claims before after room : Claims} {ask : ClaimAsk}

theorem Drops.trans {first second third : Claims} (hfirst : Drops limit first second)
    (hsecond : Drops limit second third) : Drops limit first third where
  kept := fun hclaim => hfirst.kept (hsecond.kept hclaim)
  expired := by
    intro key claim hsome hnone
    cases hmiddle : second.get? key with
    | none => exact hfirst.expired hsome hmiddle
    | some other =>
      have hsame : some claim = some other := hsome ▸ hfirst.kept hmiddle
      obtain rfl := some.inj hsame
      exact hsecond.expired hmiddle hnone
  size := hsecond.size.trans hfirst.size

theorem drops_retain {keep : ClaimKey → GateClaim → Bool}
    (hlive : ∀ key claim, keep key claim = false → claim.expiresAt ≤ limit) :
    Drops limit claims (claims.retain keep) where
  kept := by
    intro key claim hclaim
    rw [get?_retain, Option.filter_eq_some_iff] at hclaim
    exact hclaim.1
  expired := by
    intro key claim hsome hnone
    rw [get?_retain, hsome] at hnone
    exact hlive key claim (by simpa [Option.filter] using hnone)
  size := size_retain_le ..

theorem dropLimit_le (claims : Claims) (now : Int) : dropLimit claims now ≤ now := by
  have hretention : 0 ≤ seconds staleClaimRetentionSecs := by decide
  unfold dropLimit
  split <;> omega

theorem forgetOld_drops (claims : Claims) (now : Int) :
    Drops (dropLimit claims now) claims (forgetOld claims now) := by
  apply drops_retain
  intro key claim hforgotten
  obtain ⟨hexpired, hlong⟩ := Bool.or_eq_false_iff.mp hforgotten
  have hended : claim.expiresAt ≤ now := by simpa [GateClaim.live] using hexpired
  have hhour : staleClaimRetentionSecs < numSeconds (now - claim.expiresAt) := by simpa using hlong
  rw [numSeconds, Int.tdiv_eq_ediv_of_nonneg (by omega)] at hhour
  unfold dropLimit seconds
  unfold staleClaimRetentionSecs nanosPerSecond at *
  split <;> omega

theorem oldestExpired_expired {oldest : ClaimKey}
    (holdest : oldestExpired claims now = some oldest) :
    ∃ claim, claims.get? oldest = some claim ∧ claim.expiresAt ≤ now := by
  obtain ⟨entry, hfound, rfl⟩ := map_eq_some_iff.mp holdest
  obtain ⟨hentry, hexpired⟩ := List.mem_filter.mp (List.minOn?_mem hfound)
  refine ⟨entry.2, (get?_eq_some_iff _ _ _).mpr hentry, ?_⟩
  simpa [GateClaim.live] using hexpired

theorem makeRoomLoop_drops (now : Int) (excess : Nat) (claims : Claims) :
    Drops now claims (makeRoomLoop now excess claims).1 := by
  induction excess generalizing claims with
  | zero => exact Drops.refl now claims
  | succ excess ih =>
    unfold makeRoomLoop
    cases holdest : oldestExpired claims now with
    | none => exact Drops.refl now claims
    | some oldest =>
      obtain ⟨claim, hclaim, hexpired⟩ := oldestExpired_expired holdest
      refine Drops.trans ⟨?_, ?_, ?_⟩ (ih (claims.erase oldest))
      · intro key kept hkept
        by_cases hkey : key = oldest
        · simp [hkey] at hkept
        · rwa [get?_erase_of_ne _ hkey] at hkept
      · intro key dropped hdropped hnone
        by_cases hkey : key = oldest
        · have hsame : some dropped = some claim := hdropped ▸ hkey ▸ hclaim
          exact some.inj hsame ▸ hexpired
        · rw [get?_erase_of_ne _ hkey, hdropped] at hnone
          exact absurd hnone (by simp)
      · exact size_retain_le ..

theorem makeRoomLoop_size_of_fits {excess : Nat}
    (hfits : makeRoomLoop now excess claims = (room, true)) : room.size + excess = claims.size := by
  induction excess generalizing claims with
  | zero =>
    cases hfits
    rfl
  | succ excess ih =>
    unfold makeRoomLoop at hfits
    split at hfits
    · cases hfits
    next oldest holdest =>
      obtain ⟨claim, hclaim, _⟩ := oldestExpired_expired holdest
      have hone := size_erase_of_get?_eq_some hclaim
      have hrest := ih hfits
      omega

theorem makeRoom_drops (hdrops : Drops (dropLimit before now) before claims) :
    Drops (dropLimit before now) before (makeRoom claims now).1 := by
  have hsize := hdrops.size
  refine hdrops.trans ?_
  unfold dropLimit makeRoom
  split
  next hroom =>
    rw [show claims.size + 1 - maxClaims = 0 by omega]
    exact Drops.refl ..
  · exact makeRoomLoop_drops now _ claims

def Granted.claim? : Granted → Option GateClaim
  | .fresh claim => some claim
  | .renewed claim => some claim
  | .held _ => none
  | .full => none

/-- A grant: expired claims may be dropped, the head's claim is written anew for the
runner that asked where the store has room for it, and no other runner's claim on it was live. -/
structure Grants
    (ask : ClaimAsk) (now : Int) (before after : Claims) (claim : GateClaim) :
    Prop where
  written : ∃ room, Drops (dropLimit before now) before room ∧
    ((room.get? ask.key).isSome ∨ room.size < maxClaims) ∧ after = room.insert ask.key claim
  names : key claim.repo claim.head = ask.key ∨
    ∃ held, before.get? ask.key = some held ∧ claim.repo = held.repo ∧ claim.head = held.head
  runner : claim.runnerId = ask.runnerId
  renewedAt : claim.renewedAt = now
  expiresAt : claim.expiresAt = now + seconds gateClaimTtlSecs
  free : ∀ {held}, before.get? ask.key = some held →
    held.runnerId = ask.runnerId ∨ held.expiresAt ≤ now

theorem Grants.get?_self {claim : GateClaim}
    (hgrants : Grants ask now before after claim) : after.get? ask.key = some claim := by
  obtain ⟨room, _, _, rfl⟩ := hgrants.written
  exact get?_insert_self room ask.key claim

theorem Grants.get?_cases
    {claim other : GateClaim} (hgrants : Grants ask now before after claim) {key : ClaimKey}
    (hother : after.get? key = some other) :
    key = ask.key ∧ claim = other ∨ key ≠ ask.key ∧ before.get? key = some other := by
  by_cases hkey : key = ask.key
  · subst hkey
    exact .inl ⟨rfl, some.inj (hgrants.get?_self.symm.trans hother)⟩
  · obtain ⟨room, hdrops, _, rfl⟩ := hgrants.written
    rw [get?_insert_of_ne _ _ hkey] at hother
    exact .inr ⟨hkey, hdrops.kept hother⟩

theorem renew_spec (claims : Claims) (ask : ClaimAsk) (now : Int) :
    renew claims ask now = (claims, none) ∨
      ∃ after claim,
        renew claims ask now = (after, some claim) ∧
          Grants ask now claims after claim := by
  cases hheld : claims.get? ask.key with
  | none => exact .inl (by simp only [renew, hheld])
  | some held =>
    by_cases hrefused : (!held.live now || held.runnerId != ask.runnerId) = true
    · exact .inl (by simp only [renew, hheld, hrefused, if_true])
    · have hrunner : held.runnerId = ask.runnerId := by
        simp only [Bool.or_eq_true, bne_iff_ne, ne_eq, not_or, not_not] at hrefused
        exact hrefused.2
      refine .inr ⟨_, _, by rw [renew, hheld]; exact if_neg hrefused, ?_⟩
      exact {
        written := ⟨claims, Drops.refl .., .inl (by simp [hheld]), rfl⟩
        names := .inr ⟨held, hheld, rfl, rfl⟩
        runner := hrunner
        renewedAt := rfl
        expiresAt := rfl
        free := by
          intro other hother
          obtain rfl : held = other := some.inj (hheld.symm.trans hother)
          exact .inl hrunner }

theorem acquire_spec (claims : Claims) (ask : ClaimAsk) (requiredCapabilities : List String)
    (now : Int) :
    ((acquire claims ask requiredCapabilities now).2.claim? = none ∧
      Drops (dropLimit claims now) claims (acquire claims ask requiredCapabilities now).1) ∨
    ∃ claim,
      (acquire claims ask requiredCapabilities now).2.claim? = some claim ∧
        Grants ask now claims (acquire claims ask requiredCapabilities now).1 claim := by
  have hforget := forgetOld_drops claims now
  cases hheld : (forgetOld claims now).get? ask.key with
  | none =>
    have hfree : ∀ {held : GateClaim}, claims.get? ask.key = some held →
        held.runnerId = ask.runnerId ∨ held.expiresAt ≤ now :=
      fun hbefore => .inr ((hforget.expired hbefore hheld).trans (dropLimit_le claims now))
    have hroom := makeRoom_drops hforget
    rcases hmake : makeRoom (forgetOld claims now) now with ⟨room, fits⟩
    rw [hmake] at hroom
    cases fits with
    | false =>
      simp only [acquire, hheld, hmake]
      exact .inl ⟨rfl, hroom⟩
    | true =>
      have hfits := makeRoomLoop_size_of_fits hmake
      simp only [acquire, hheld, hmake]
      refine .inr ⟨_, rfl, ⟨⟨room, hroom, .inr ?_, rfl⟩, .inl rfl, rfl, rfl, rfl, hfree⟩⟩
      omega
  | some held =>
    have hbefore := hforget.kept hheld
    have hsome := Option.isSome_of_eq_some hheld
    have hfree : held.runnerId = ask.runnerId ∨ held.expiresAt ≤ now →
        ∀ {other : GateClaim}, claims.get? ask.key = some other →
          other.runnerId = ask.runnerId ∨ other.expiresAt ≤ now := by
      intro hown other hother
      rwa [← some.inj (hbefore.symm.trans hother)]
    cases hlive : held.live now with
    | false =>
      have hexpired : held.expiresAt ≤ now := by
        simpa [GateClaim.live] using hlive
      simp only [acquire, hheld, hlive, Bool.false_and, Bool.false_eq_true, if_false]
      exact .inr ⟨_, rfl, ⟨_, hforget, .inl hsome, rfl⟩, .inl rfl, rfl, rfl, rfl,
        hfree (.inr hexpired)⟩
    | true =>
      by_cases hrunner : held.runnerId = ask.runnerId
      · simp only [acquire, hheld, hlive, hrunner, bne_self_eq_false, Bool.and_false,
          Bool.false_eq_true, if_false, if_true]
        exact .inr ⟨_, rfl, ⟨_, hforget, .inl hsome, rfl⟩, .inl rfl, rfl, rfl, rfl,
          hfree (.inl hrunner)⟩
      · have hdiffers : (held.runnerId != ask.runnerId) = true := by
          simpa using hrunner
        simp only [acquire, hheld, hlive, hdiffers, Bool.and_true, if_true]
        exact .inl ⟨rfl, hforget⟩

theorem release_spec (claims : Claims) (repo head runnerId : String) (now : Int) :
    ((release claims repo head runnerId now).2 ≠ .released ∧
      Drops (dropLimit claims now) claims (release claims repo head runnerId now).1) ∨
    ∃ after held,
      release claims repo head runnerId now = (after.erase (key repo head), .released) ∧
        Drops (dropLimit claims now) claims after ∧
        claims.get? (key repo head) = some held ∧ held.runnerId = runnerId := by
  have hforget := forgetOld_drops claims now
  cases hheld : (forgetOld claims now).get? (key repo head) with
  | none =>
    simp only [release, hheld]
    exact .inl ⟨by simp, hforget⟩
  | some held =>
    by_cases hrunner : held.runnerId = runnerId
    · simp only [release, hheld, hrunner, if_true]
      exact .inr ⟨_, held, rfl, hforget, hforget.kept hheld, hrunner⟩
    · simp only [release, hheld, hrunner, if_false]
      exact .inl ⟨by simp, hforget⟩

end JeryuForge.GateClaims

namespace JeryuForge.GateClaims

open Clock OrdMap

inductive Operation where
  | acquire (ask : ClaimAsk) (requiredCapabilities : List String) (now : Int)
  | renew (ask : ClaimAsk) (now : Int)
  | release (repo head runnerId : String) (now : Int)
deriving DecidableEq, Repr

namespace Operation

def now : Operation → Int
  | .acquire _ _ now | .renew _ now | .release _ _ _ now => now

def apply (claims : Claims) : Operation → Claims
  | .acquire ask requiredCapabilities now =>
    (GateClaims.acquire claims ask requiredCapabilities now).1
  | .renew ask now => (GateClaims.renew claims ask now).1
  | .release repo head runnerId now => (GateClaims.release claims repo head runnerId now).1

def Refused (claims : Claims) : Operation → Prop
  | .acquire ask requiredCapabilities now =>
    match (GateClaims.acquire claims ask requiredCapabilities now).2 with
    | .held _ | .full => True
    | .fresh _ | .renewed _ => False
  | .renew _ _ | .release _ _ _ _ => False

def Releases (place : ClaimKey) (runnerId : String) : Operation → Prop
  | .release repo head runner _ => key repo head = place ∧ runner = runnerId
  | .acquire _ _ _ | .renew _ _ => False

end Operation

def afterAll (operations : List Operation) : Claims :=
  operations.foldl Operation.apply ∅

structure Kept (claims : Claims) : Prop where
  capacity : claims.size ≤ maxClaims
  filed : ∀ {place claim}, claims.get? place = some claim → place = key claim.repo claim.head

variable {after before claims : Claims} {claim : GateClaim} {place : ClaimKey}

variable {now limit : Int} {ask : ClaimAsk}

theorem Kept.of_drops (hkept : Kept before) (hdrops : Drops limit before after) : Kept after where
  capacity := hdrops.size.trans hkept.capacity
  filed := fun hclaim => hkept.filed (hdrops.kept hclaim)

theorem Kept.of_grants (hkept : Kept before) (hgrants : Grants ask now before after claim) :
    Kept after := by
  obtain ⟨room, hdrops, hroom, rfl⟩ := hgrants.written
  have hroomKept := hkept.of_drops hdrops
  have hplace : ask.key = key claim.repo claim.head := by
    rcases hgrants.names with hnames | ⟨held, hheld, hrepo, hhead⟩
    · exact hnames.symm
    · rw [hkept.filed hheld, hrepo, hhead]
  refine ⟨?_, ?_⟩
  · rw [size_insert]
    rcases hroom with hsome | hroom
    · obtain ⟨held, hheld⟩ := Option.isSome_iff_exists.mp hsome
      rw [size_erase_of_get?_eq_some hheld]
      exact hroomKept.capacity
    · exact Nat.succ_le_of_lt ((size_retain_le _ _).trans_lt hroom)
  · intro place found hfound
    rcases get?_insert_eq_some hfound with ⟨rfl, rfl⟩ | ⟨_, hold⟩
    · exact hplace
    · exact hroomKept.filed hold

theorem Kept.erase (hkept : Kept claims) (place : ClaimKey) : Kept (claims.erase place) where
  capacity := (size_retain_le _ _).trans hkept.capacity
  filed := fun hclaim => hkept.filed (get?_erase_eq_some hclaim).2

theorem Kept.apply {claims : Claims} (hkept : Kept claims) (operation : Operation) :
    Kept (operation.apply claims) := by
  cases operation with
  | acquire ask requiredCapabilities now =>
    rcases acquire_spec claims ask requiredCapabilities now with ⟨_, hdrops⟩ | ⟨_, _, hgrants⟩
    · exact hkept.of_drops hdrops
    · exact hkept.of_grants hgrants
  | renew ask now =>
    rcases renew_spec claims ask now with hsame | ⟨_, _, hrenewed, hgrants⟩
    · simpa only [Operation.apply, hsame] using hkept
    · simpa only [Operation.apply, hrenewed] using hkept.of_grants hgrants
  | release repo head runnerId now =>
    rcases release_spec claims repo head runnerId now with
      ⟨_, hdrops⟩ | ⟨_, _, hreleased, hdrops, _⟩
    · exact hkept.of_drops hdrops
    · simpa only [Operation.apply, hreleased] using (hkept.of_drops hdrops).erase _

theorem kept_afterAll (operations : List Operation) : Kept (afterAll operations) := by
  refine List.foldlRecOn operations Operation.apply ?_ fun claims hkept operation _ =>
    hkept.apply operation
  exact ⟨Nat.zero_le _, fun hclaim => by cases hclaim⟩

theorem Kept.unique (hkept : Kept claims) {first second : ClaimKey × GateClaim}
    (hfirst : first ∈ claims.entries) (hsecond : second ∈ claims.entries)
    (hrepo : first.2.repo = second.2.repo) (hhead : first.2.head = second.2.head) :
    first = second := by
  have hone := hkept.filed ((claims.get?_eq_some_iff _ _).mpr hfirst)
  have htwo := hkept.filed ((claims.get?_eq_some_iff _ _).mpr hsecond)
  refine List.inj_on_of_nodup_map claims.nodup_keys hfirst hsecond ?_
  rw [hone, htwo, hrepo, hhead]

theorem GateClaim.live_iff : claim.live now = true ↔ now < claim.expiresAt := by
  simp [GateClaim.live]

theorem Drops.get?_of_live (hdrops : Drops (dropLimit before now) before after)
    (hclaim : before.get? place = some claim) (hlive : claim.live now) :
    after.get? place = some claim := by
  cases hafter : after.get? place with
  | none =>
    have hexpired := (hdrops.expired hclaim hafter).trans (dropLimit_le before now)
    have hends := GateClaim.live_iff.mp hlive
    omega
  | some other => rw [← hclaim, hdrops.kept hafter]

theorem Grants.holder_of_live {ask : ClaimAsk}
    {granted : GateClaim} (hgrants : Grants ask now before after granted)
    (hclaim : before.get? place = some claim) (hlive : claim.live now) :
    ∃ later, after.get? place = some later ∧ later.runnerId = claim.runnerId := by
  by_cases hplace : place = ask.key
  · subst hplace
    have hends := GateClaim.live_iff.mp hlive
    have hholder : claim.runnerId = ask.runnerId :=
      (hgrants.free hclaim).resolve_right (by omega)
    exact ⟨granted, hgrants.get?_self, hgrants.runner.trans hholder.symm⟩
  · obtain ⟨room, hdrops, _, rfl⟩ := hgrants.written
    refine ⟨claim, ?_, rfl⟩
    rw [get?_insert_of_ne _ _ hplace]
    exact hdrops.get?_of_live hclaim hlive

theorem Operation.Refused.get?_of_live {operation : Operation} (hrefused : operation.Refused claims)
    (hclaim : claims.get? place = some claim) (hlive : claim.live operation.now) :
    (operation.apply claims).get? place = some claim := by
  cases operation with
  | acquire ask requiredCapabilities now =>
    rcases acquire_spec claims ask requiredCapabilities now with
      ⟨_, hdrops⟩ | ⟨granted, hgranted, _⟩
    · exact hdrops.get?_of_live hclaim hlive
    · -- an answer that hands out a claim is no refusal
      cases hanswer : (GateClaims.acquire claims ask requiredCapabilities now).2 <;>
        simp [Operation.Refused, Granted.claim?, hanswer] at hrefused hgranted
  | renew | release => exact hrefused.elim

theorem Operation.holder_of_live (operation : Operation) (hclaim : claims.get? place = some claim)
    (hlive : claim.live operation.now) :
    (∃ later, (operation.apply claims).get? place = some later ∧
        later.runnerId = claim.runnerId) ∨
      operation.Releases place claim.runnerId := by
  cases operation with
  | acquire ask requiredCapabilities now =>
    rcases acquire_spec claims ask requiredCapabilities now with ⟨_, hdrops⟩ | ⟨_, _, hgrants⟩
    · exact .inl ⟨claim, hdrops.get?_of_live hclaim hlive, rfl⟩
    · exact .inl (hgrants.holder_of_live hclaim hlive)
  | renew ask now =>
    rcases renew_spec claims ask now with hsame | ⟨after, _, hrenewed, hgrants⟩
    · exact .inl ⟨claim, by simpa [Operation.apply, hsame] using hclaim, rfl⟩
    · simp only [Operation.apply, hrenewed]
      exact .inl (hgrants.holder_of_live hclaim hlive)
  | release repo head runnerId now =>
    rcases release_spec claims repo head runnerId now with
      ⟨_, hdrops⟩ | ⟨room, held, hreleased, hdrops, hheld, hrunner⟩
    · exact .inl ⟨claim, hdrops.get?_of_live hclaim hlive, rfl⟩
    · by_cases hplace : place = key repo head
      · subst hplace
        obtain rfl : held = claim := Option.some.inj (hheld.symm.trans hclaim)
        exact .inr ⟨rfl, hrunner.symm⟩
      · simp only [Operation.apply, hreleased]
        refine .inl ⟨claim, ?_, rfl⟩
        rw [get?_erase_of_ne _ hplace]
        exact hdrops.get?_of_live hclaim hlive

/-- What the store holds after some calls, and what the next call does to it. -/
structure Guarded (claims : Claims) : Prop where
  capacity : claims.size ≤ maxClaims
  unique : ∀ first ∈ claims.entries, ∀ second ∈ claims.entries,
    first.2.repo = second.2.repo → first.2.head = second.2.head → first = second
  refused : ∀ operation : Operation, operation.Refused claims →
    ∀ place claim, claims.get? place = some claim → claim.live operation.now →
      (operation.apply claims).get? place = some claim
  holder : ∀ operation : Operation, ∀ place claim, claims.get? place = some claim →
    claim.live operation.now →
      (∃ later, (operation.apply claims).get? place = some later ∧
          later.runnerId = claim.runnerId) ∨
        operation.Releases place claim.runnerId

/-- After any calls: heads have one claim each, the store is bounded, and only a release ends a
running claim. -/
theorem guarded_afterAll (operations : List Operation) : Guarded (afterAll operations) where
  capacity := (kept_afterAll operations).capacity
  unique := fun _ hfirst _ hsecond => (kept_afterAll operations).unique hfirst hsecond
  refused := fun _ hrefused _ _ hclaim hlive => hrefused.get?_of_live hclaim hlive
  holder := fun operation _ _ hclaim hlive => operation.holder_of_live hclaim hlive

end JeryuForge.GateClaims
