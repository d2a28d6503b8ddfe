import JeryuForge.Gateway.Body

/-!
# Who may relay

The checks before and after a relay is accepted: the peer's own key and its current assignment
(`authority::verify`), the preconditions of `Gateway::run` in their order, and the re-check of
every later line.
-/

namespace JeryuForge.Gateway

structure EnrolledNode where
  runnerId : String
  capabilityKey : List UInt8

structure LeaseBinding where
  provider : String
  connectionId : String
  connectionGeneration : UInt64
  mode : Mode
deriving DecidableEq

structure Assignment where
  runnerId : String
  sessionId : String
  sessionGeneration : UInt64
  leaseId : String
  leaseEpoch : UInt64
  ownerId : String
  leaseExpiresAtUnixMillis : UInt64
  bindings : List LeaseBinding
deriving DecidableEq

structure Binding where
  ownerId : String
  provider : String
  connectionId : String
  connectionGeneration : UInt64
deriving DecidableEq

def Binding.of (capability : Capability) : Binding where
  ownerId := capability.ownerId
  provider := capability.provider
  connectionId := capability.connectionId
  connectionGeneration := capability.connectionGeneration

structure Assigned (assignment : Assignment) (runnerId : String) (capability : Capability)
    (now : UInt64) : Prop where
  runner : assignment.runnerId = runnerId
  session : assignment.sessionId = capability.sessionId
  generation : assignment.sessionGeneration = capability.sessionGeneration
  lease : assignment.leaseId = capability.leaseId
  epoch : assignment.leaseEpoch = capability.leaseEpoch
  owner : assignment.ownerId = capability.ownerId
  unexpired : now < assignment.leaseExpiresAtUnixMillis
  binding : (⟨capability.provider, capability.connectionId, capability.connectionGeneration,
    capability.mode⟩ : LeaseBinding) ∈ assignment.bindings

abbrev Store := String → Option Assignment

/-- The stored assignment still names the runner, the signed lease and the signed binding, and
the lease is current; with the lease's expiry. -/
def current (store : Store) (runnerId : String) (capability : Capability) (now : UInt64) :
    Except RelayError UInt64 :=
  match store capability.sessionId with
  | none => .error .capabilityUnverified
  | some assignment =>
    let leaseMatches := assignment.runnerId = runnerId ∧
      assignment.sessionId = capability.sessionId ∧
      assignment.sessionGeneration = capability.sessionGeneration ∧
      assignment.leaseId = capability.leaseId ∧ assignment.leaseEpoch = capability.leaseEpoch ∧
      assignment.ownerId = capability.ownerId ∧ now < assignment.leaseExpiresAtUnixMillis
    let bindingMatches := assignment.bindings.any fun binding =>
      binding.provider = capability.provider && binding.connectionId = capability.connectionId &&
        binding.connectionGeneration = capability.connectionGeneration &&
        binding.mode = capability.mode
    if leaseMatches ∧ bindingMatches then .ok assignment.leaseExpiresAtUnixMillis
    else .error .capabilityUnverified

/-- `NodeRegistry`. -/
abbrev Registry := List UInt8 → Option EnrolledNode

section Phase

variable (verifier : Verifier) (registry : Registry) (peer : Option (List UInt8))
  (capability : Capability) (sessionId provider : String)

def identify : Except RelayError EnrolledNode :=
  match peer.bind registry with
  | none => .error .capabilityUnverified
  | some node =>
    if !signedBy verifier capability node.capabilityKey then .error .capabilityUnverified
    else if capability.sessionId ≠ sessionId ∨ capability.provider ≠ provider ∨
        !ownerMatchesKind capability then
      .error .capabilityUnverified
    else .ok node

def verify (store : Store) (now : UInt64) : Except RelayError (String × UInt64) := do
  let node ← identify verifier registry peer capability sessionId provider
  let leaseExpires ← current store node.runnerId capability now
  return (node.runnerId, leaseExpires)

end Phase

theorem current_ok {store : Store} {runnerId : String} {capability : Capability}
    {now expires : UInt64} (hcurrent : current store runnerId capability now = .ok expires) :
    ∃ assignment, store capability.sessionId = some assignment ∧
      Assigned assignment runnerId capability now ∧
      expires = assignment.leaseExpiresAtUnixMillis := by
  unfold current at hcurrent
  split at hcurrent
  · cases hcurrent
  next assignment hstored =>
    simp only at hcurrent
    split at hcurrent
    next hmatches =>
      obtain ⟨⟨hrunner, hsession, hgeneration, hlease, hepoch, howner, hunexpired⟩, hany⟩ :=
        hmatches
      cases hcurrent
      refine ⟨assignment, hstored,
        ⟨hrunner, hsession, hgeneration, hlease, hepoch, howner, hunexpired,
        ?_⟩, rfl⟩
      obtain ⟨binding, hmem, hsame⟩ := List.any_eq_true.mp hany
      simp only [Bool.and_eq_true, decide_eq_true_eq] at hsame
      obtain ⟨⟨⟨hprovider, hconnection⟩, hbindingGeneration⟩, hmode⟩ := hsame
      rw [← hprovider, ← hconnection, ← hbindingGeneration, ← hmode]
      exact hmem
    · cases hcurrent

/-- The peer is an enrolled node, and its own key signed the capability, which is for this
session and provider and an owner of its kind. -/
structure Identified (verifier : Verifier) (registry : Registry) (peer : Option (List UInt8))
    (capability : Capability) (sessionId provider : String) (node : EnrolledNode) : Prop where
  enrolled : ∃ fingerprint, peer = some fingerprint ∧ registry fingerprint = some node
  signed : signedBy verifier capability node.capabilityKey = true
  session : capability.sessionId = sessionId
  provider : capability.provider = provider
  ownerKind : ownerMatchesKind capability = true

section Phase

variable {verifier : Verifier} {registry : Registry} {peer : Option (List UInt8)}
  {capability : Capability} {sessionId provider : String} {store : Store} {now : UInt64}

theorem identify_ok {node : EnrolledNode}
    (hidentify : identify verifier registry peer capability sessionId provider = .ok node) :
    Identified verifier registry peer capability sessionId provider node := by
  unfold identify at hidentify
  split at hidentify
  · cases hidentify
  next found hfound =>
    split at hidentify
    · cases hidentify
    next hsigned =>
      split at hidentify
      · cases hidentify
      next hroute =>
        cases hidentify
        simp only [Bool.not_eq_true', Bool.not_eq_false, not_or, not_not] at hsigned hroute
        obtain ⟨hsession, hprovider, howner⟩ := hroute
        exact ⟨Option.bind_eq_some_iff.mp hfound, hsigned, hsession, hprovider, howner⟩

theorem verify_ok {runnerId : String} {leaseExpires : UInt64}
    (hverify : verify verifier registry peer capability sessionId provider store now =
      .ok (runnerId, leaseExpires)) :
    ∃ node assignment, identify verifier registry peer capability sessionId provider = .ok node ∧
      node.runnerId = runnerId ∧ store capability.sessionId = some assignment ∧
      Assigned assignment runnerId capability now ∧
      leaseExpires = assignment.leaseExpiresAtUnixMillis := by
  obtain ⟨node, hidentify, hverify⟩ := Except.bind_eq_ok hverify
  obtain ⟨expires, hcurrent, hpair⟩ := Except.bind_eq_ok hverify
  obtain ⟨assignment, hstored, hassigned, hexpires⟩ := current_ok hcurrent
  cases hpair
  exact ⟨node, assignment, hidentify, rfl, hstored, hassigned, hexpires⟩

end Phase

structure OpenLine where
  requestId : String
  provider : String
  method : String
  path : String
  headers : List Header
  authorization : Option String
  capability : Capability

inductive Method where
  | get
  | post
deriving DecidableEq

def Method.parse (method : String) : Except RelayError Method :=
  if method = "GET" then .ok .get
  else if method = "POST" then .ok .post
  else .error .relayStreamInvalid

structure UpstreamAuth where
  header : String
  value : String
deriving DecidableEq

structure Prepared where
  method : Method
  url : String
  headers : List Header
  fixedHeaders : List (String × String)
  auth : UpstreamAuth
deriving DecidableEq

def preconditions (table : UpstreamTable) (line : OpenLine) (provider : String)
    (now leaseExpires : UInt64) : Except RelayError (Method × String × Upstream) :=
  if line.capability.mode = .qualifiedRamToken then .error .providerModeUnqualified
  else if line.authorization.isSome then .error .guestAuthorizationRejected
  else do
    verifyValidity line.capability now leaseExpires
    let (url, upstream) ← table.resolve provider line.path
    checkHeaders line.headers
    let method ← Method.parse line.method
    return (method, url, upstream)

structure Precondition (table : UpstreamTable) (line : OpenLine) (provider : String)
    (now leaseExpires : UInt64) : Prop where
  noAuthorization : line.authorization = none
  window : line.capability.issuedAtUnixMillis ≤ now ∧ now < line.capability.expiresAtUnixMillis
  lifetime : line.capability.expiresAtUnixMillis.toNat - line.capability.issuedAtUnixMillis.toNat ≤
    maxLifetimeMillis
  withinLease : line.capability.expiresAtUnixMillis ≤ leaseExpires
  audience : line.capability.audience = gatewayAudience
  enrolled : ∃ upstream, table.slot provider = some (some upstream) ∧
    ∃ start ∈ upstream.pathPrefixes, UpstreamTable.enrolledBy line.path start = true

theorem verifyValidity_ok {capability : Capability} {now leaseExpires : UInt64}
    (hvalid : verifyValidity capability now leaseExpires = .ok ()) :
    (capability.issuedAtUnixMillis ≤ now ∧ now < capability.expiresAtUnixMillis) ∧
      capability.expiresAtUnixMillis.toNat - capability.issuedAtUnixMillis.toNat ≤
        maxLifetimeMillis ∧
      capability.expiresAtUnixMillis ≤ leaseExpires ∧ capability.audience = gatewayAudience := by
  unfold verifyValidity at hvalid
  simp only at hvalid
  split at hvalid
  · cases hvalid
  next hwindow =>
    split at hvalid
    · cases hvalid
    next haudience =>
      simp only [not_or, not_not, UInt64.not_lt, UInt64.not_le] at hwindow haudience
      obtain ⟨⟨_, hlifetime⟩, hissued, hexpires, hlease⟩ := hwindow
      exact ⟨⟨hissued, hexpires⟩, hlifetime, hlease, haudience⟩

theorem preconditions_ok {table : UpstreamTable} {line : OpenLine} {provider : String}
    {now leaseExpires : UInt64} {answer : Method × String × Upstream}
    (hok : preconditions table line provider now leaseExpires = .ok answer) :
    Precondition table line provider now leaseExpires := by
  unfold preconditions at hok
  split at hok
  · cases hok
  · split at hok
    · cases hok
    next hauthorization =>
      obtain ⟨_, hvalid, hok⟩ := Except.bind_eq_ok hok
      obtain ⟨⟨url, upstream⟩, hresolve, _⟩ := Except.bind_eq_ok hok
      obtain ⟨hwindow, hlifetime, hlease, haudience⟩ := verifyValidity_ok hvalid
      obtain ⟨hslot, -, -, henrolled⟩ := resolve_ok hresolve
      exact ⟨by simpa using hauthorization, hwindow, hlifetime, hlease, haudience, upstream, hslot,
        henrolled⟩

structure Accepted where
  runnerId : String
  capability : Capability
  binding : Binding
deriving DecidableEq

abbrev Vault := Binding → Except RelayError Unit

/-- What a check of a running call reads. -/
structure Reads where
  now : UInt64
  store : Store
  vault : Vault

def Accepted.recheck (accepted : Accepted) (reads : Reads) : Except RelayError Unit :=
  match current reads.store accepted.runnerId accepted.capability reads.now with
  | .error _ => .error .leaseBindingMismatch
  | .ok _ => reads.vault accepted.binding

end JeryuForge.Gateway
