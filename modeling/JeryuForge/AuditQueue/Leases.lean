import JeryuForge.Clock
import JeryuForge.Text
import JeryuForge.Library.Machine

/-!
# Leases on audit tickets

One ticket for each head, a bounded queue, and claims that last as long as their lease,
in every state that any sequence of pushes, claims and reports leads to.
-/

namespace JeryuForge.AuditQueue

open Clock

def auditQueueCapacity : Nat := 512
def claimLeaseSeconds : Int := 1800
def maxClaimBatch : Nat := 8

def noCommitBaseOid : String := "4b825dc642cb6eb9a060e54bf8d69288fbee4904"

inductive AuditMode where
  | diff
  | full
deriving DecidableEq, Repr

structure AuditTicket where
  owner : String
  repo : String
  branch : String
  headSha : String
  baseSha : String
  auditMode : AuditMode
  enqueuedAt : Int
  claimedBy : Option String
  claimedAt : Option Int
deriving DecidableEq, Repr

namespace AuditTicket

def new (owner repo branch headSha baseSha : String) (now : Int) : AuditTicket :=
  { owner := owner
    repo := repo
    branch := branch
    headSha := headSha
    baseSha := baseSha
    auditMode := .diff
    enqueuedAt := now
    claimedBy := none
    claimedAt := none }

def wholeTree (owner repo branch headSha : String) (now : Int) : AuditTicket :=
  { new owner repo branch headSha noCommitBaseOid now with auditMode := .full }

/-- `is_for` compares these. -/
def key (ticket : AuditTicket) : String × String × String :=
  (ticket.owner, ticket.repo, ticket.headSha)

def place (ticket : AuditTicket) : String × String × String :=
  (ticket.owner, ticket.repo, ticket.branch)

def live (ticket : AuditTicket) (now : Int) : Bool :=
  ticket.claimedBy.isSome &&
    ticket.claimedAt.any fun claimedAt => now - claimedAt ≤ seconds claimLeaseSeconds

end AuditTicket

inductive EnqueueOutcome where
  | queued
  | alreadyQueued
  | superseded (count : Nat)
  | full
deriving DecidableEq, Repr

def AuditTicket.expire (ticket : AuditTicket) (now : Int) : AuditTicket :=
  if ticket.claimedAt.any fun claimedAt => now - claimedAt > seconds claimLeaseSeconds then
    { ticket with claimedBy := none, claimedAt := none }
  else
    ticket

def expireStaleClaims (tickets : List AuditTicket) (now : Int) : List AuditTicket :=
  tickets.map fun ticket => ticket.expire now

def replaces (ticket held : AuditTicket) : Bool :=
  Text.startsWith ticket.branch "refs/queue/" && held.branch = ticket.branch &&
    (held.baseSha ≠ ticket.baseSha || held.auditMode ≠ ticket.auditMode)

def supersede (tickets : List AuditTicket) (ticket : AuditTicket) : List AuditTicket :=
  tickets.filter fun held => held.claimedBy.isSome || held.place ≠ ticket.place

def evicted (tickets : List AuditTicket) : Option AuditTicket :=
  if auditQueueCapacity ≤ tickets.length then
    tickets.find? fun held => held.claimedBy.isNone
  else
    none

def makeRoom (tickets : List AuditTicket) : Option (List AuditTicket) :=
  if auditQueueCapacity ≤ tickets.length then
    if tickets.any fun held => held.claimedBy.isNone then
      some (tickets.eraseP fun held => held.claimedBy.isNone)
    else
      none
  else
    some tickets

def enqueueNew (tickets : List AuditTicket) (ticket : AuditTicket) :
    List AuditTicket × EnqueueOutcome :=
  let kept := supersede tickets ticket
  match makeRoom kept with
  | none => (kept, .full)
  | some room =>
    (room ++ [ticket], if 0 < tickets.length - kept.length then
        .superseded (tickets.length - kept.length)
      else
        .queued)

def enqueue (tickets : List AuditTicket) (ticket : AuditTicket) (now : Int) :
    List AuditTicket × EnqueueOutcome :=
  let tickets := expireStaleClaims tickets now
  match tickets.find? fun held => held.key = ticket.key with
  | none => enqueueNew tickets ticket
  | some held =>
    if replaces ticket held then
      (tickets.set (tickets.findIdx fun held => held.key = ticket.key) ticket, .superseded 1)
    else
      (tickets, .alreadyQueued)

def claimFrom (runnerId : String) (now : Int) :
    Nat → List AuditTicket → List AuditTicket × List AuditTicket
  | _, [] => ([], [])
  | 0, tickets => (tickets, [])
  | left + 1, ticket :: rest =>
    if ticket.claimedBy.isSome then
      let (kept, claimed) := claimFrom runnerId now (left + 1) rest
      (ticket :: kept, claimed)
    else
      let (kept, claimed) := claimFrom runnerId now left rest
      let ticket := { ticket with claimedBy := some runnerId, claimedAt := some now }
      (ticket :: kept, ticket :: claimed)

def claim (tickets : List AuditTicket) (runnerId : String) (max : Nat) (now : Int) :
    List AuditTicket × List AuditTicket :=
  claimFrom runnerId now (min max maxClaimBatch) (expireStaleClaims tickets now)

def take (tickets : List AuditTicket) (key : String × String × String) :
    List AuditTicket × Option AuditTicket :=
  (tickets.eraseP fun ticket => ticket.key = key, tickets.find? fun ticket => ticket.key = key)

open List

section Expire

variable {ticket : AuditTicket} {now : Int}

@[simp]
theorem key_expire (ticket : AuditTicket) (now : Int) : (ticket.expire now).key = ticket.key := by
  unfold AuditTicket.expire
  split <;> rfl

theorem expire_eq_self (hclaimed : (ticket.expire now).claimedBy.isSome) :
    ticket.expire now = ticket := by
  unfold AuditTicket.expire at hclaimed ⊢
  split
  next hexpired =>
    simp [hexpired] at hclaimed
  · rfl

theorem expire_of_live (hlive : ticket.live now) : ticket.expire now = ticket := by
  obtain ⟨_, hrunning⟩ := Bool.and_eq_true_iff.mp hlive
  unfold AuditTicket.expire
  rw [if_neg]
  cases hclaimed : ticket.claimedAt with
  | none => simp
  | some claimedAt =>
    rw [hclaimed] at hrunning
    simpa using hrunning

theorem mem_expireStaleClaims_of_live {tickets : List AuditTicket} (hmem : ticket ∈ tickets)
    (hlive : ticket.live now) : ticket ∈ expireStaleClaims tickets now :=
  mem_map.mpr ⟨ticket, hmem, expire_of_live hlive⟩

theorem claimed_of_live (hlive : ticket.live now) : ticket.claimedBy.isSome :=
  (Bool.and_eq_true_iff.mp hlive).1

end Expire

structure Roomier (kept room : List AuditTicket) : Prop where
  sublist : room.Sublist kept
  fits : room.length < auditQueueCapacity
  gone : ∀ ticket ∈ kept, ticket ∈ room ∨ evicted kept = some ticket

theorem mem_eraseP_or_find? {α : Type} {p : α → Bool} {items : List α} {item : α}
    (hmem : item ∈ items) : item ∈ items.eraseP p ∨ items.find? p = some item := by
  induction items with
  | nil => cases hmem
  | cons first rest ih =>
    by_cases hfirst : p first
    · rw [eraseP_cons_of_pos hfirst, find?_cons_of_pos hfirst]
      rcases mem_cons.mp hmem with rfl | hrest
      · exact .inr rfl
      · exact .inl hrest
    · rw [eraseP_cons_of_neg hfirst, find?_cons_of_neg hfirst]
      rcases mem_cons.mp hmem with rfl | hrest
      · exact .inl mem_cons_self
      · exact (ih hrest).imp_left (mem_cons_of_mem _)

theorem makeRoom_roomier {kept room : List AuditTicket} (hcap : kept.length ≤ auditQueueCapacity)
    (hroom : makeRoom kept = some room) : Roomier kept room := by
  unfold makeRoom at hroom
  split_ifs at hroom with hfull hany
  · cases hroom
    obtain ⟨ticket, hmem, hfree⟩ := any_eq_true.mp hany
    have hshorter := length_eraseP_of_mem (p := fun held => held.claimedBy.isNone) hmem hfree
    have hsome := length_pos_of_mem hmem
    refine ⟨eraseP_sublist, by omega, ?_⟩
    intro other hother
    rw [evicted, if_pos hfull]
    exact mem_eraseP_or_find? hother
  · cases hroom
    exact ⟨List.Sublist.refl _, by omega, fun _ hmem => .inl hmem⟩

variable {kept tickets after : List AuditTicket} {ticket : AuditTicket}

inductive Enqueued (expired : List AuditTicket) (ticket : AuditTicket) :
    List AuditTicket × EnqueueOutcome → Prop where
  | replaced (held : AuditTicket) (index : Nat) (hheld : expired[index]? = some held)
      (hkey : held.key = ticket.key) (hreplaces : replaces ticket held = true) :
      Enqueued expired ticket (expired.set index ticket, .superseded 1)
  | already (held : AuditTicket) (hheld : held ∈ expired) (hkey : held.key = ticket.key) :
      Enqueued expired ticket (expired, .alreadyQueued)
  | full (hnew : ∀ held ∈ expired, held.key ≠ ticket.key)
      (hfull : makeRoom (supersede expired ticket) = none) :
      Enqueued expired ticket (supersede expired ticket, .full)
  | added (room : List AuditTicket) (outcome : EnqueueOutcome)
      (hnew : ∀ held ∈ expired, held.key ≠ ticket.key)
      (hroom : makeRoom (supersede expired ticket) = some room)
      (houtcome : outcome ≠ .full)
      (hsuperseded : supersede expired ticket ≠ expired → ∃ count, outcome = .superseded count) :
      Enqueued expired ticket (room ++ [ticket], outcome)

theorem supersede_sublist (tickets : List AuditTicket) (ticket : AuditTicket) :
    (supersede tickets ticket).Sublist tickets :=
  filter_sublist

theorem enqueue_enqueued (tickets : List AuditTicket) (ticket : AuditTicket) (now : Int) :
    Enqueued (expireStaleClaims tickets now) ticket (enqueue tickets ticket now) := by
  unfold enqueue
  dsimp only
  generalize expireStaleClaims tickets now = expired
  split
  next hnone =>
    have hnew : ∀ held ∈ expired, held.key ≠ ticket.key := by
      simpa using find?_eq_none.mp hnone
    unfold enqueueNew
    dsimp only
    cases hroom : makeRoom (supersede expired ticket) with
    | none => exact .full hnew hroom
    | some room =>
      refine .added room _ hnew hroom ?_ ?_
      · split <;> simp
      · intro hchanged
        have hshorter : (supersede expired ticket).length < expired.length := by
          by_contra hlong
          exact hchanged ((supersede_sublist expired ticket).eq_of_length_le (by omega))
        rw [if_pos (by omega)]
        exact ⟨_, rfl⟩
  next held hheld =>
    have hkey : held.key = ticket.key := by simpa using find?_some hheld
    split
    next hreplaces =>
      refine .replaced held _ ?_ hkey hreplaces
      rw [← hheld, find?_eq_getElem?_findIdx]
    · exact .already held (mem_of_find?_eq_some hheld) hkey

structure Tidy (tickets : List AuditTicket) : Prop where
  distinct : (tickets.map AuditTicket.key).Nodup
  bounded : tickets.length ≤ auditQueueCapacity

theorem Tidy.of_map_key (htidy : Tidy tickets)
    (hkeys : after.map AuditTicket.key = tickets.map AuditTicket.key) : Tidy after where
  distinct := hkeys ▸ htidy.distinct
  bounded := by
    have hlength := congrArg length hkeys
    rw [length_map, length_map] at hlength
    exact hlength ▸ htidy.bounded

theorem Tidy.sublist (htidy : Tidy tickets) (hafter : after.Sublist tickets) : Tidy after where
  distinct := (hafter.map _).nodup htidy.distinct
  bounded := hafter.length_le.trans htidy.bounded

theorem Tidy.expired (htidy : Tidy tickets) (now : Int) : Tidy (expireStaleClaims tickets now) :=
  htidy.of_map_key (by simp [expireStaleClaims])

theorem Tidy.enqueued {expired : List AuditTicket}
    {result : List AuditTicket × EnqueueOutcome} (htidy : Tidy expired)
    (hresult : Enqueued expired ticket result) : Tidy result.1 := by
  cases hresult with
  | replaced held index hheld hkey hreplaces =>
    refine htidy.of_map_key ?_
    obtain ⟨hindex, hget⟩ := List.getElem?_eq_some_iff.mp hheld
    rw [map_set, ← hkey, ← hget, ← getElem_map AuditTicket.key (h := by simpa using hindex)]
    exact set_getElem_self _
  | already held hheld hkey => exact htidy
  | full hnew hfull => exact htidy.sublist (supersede_sublist expired ticket)
  | added room outcome hnew hroom houtcome hsuperseded =>
    have hkept := htidy.sublist (supersede_sublist expired ticket)
    have hroomier := makeRoom_roomier hkept.bounded hroom
    refine ⟨?_, ?_⟩
    · rw [map_append, map_singleton, nodup_append]
      refine ⟨(hkept.sublist hroomier.sublist).distinct, nodup_singleton _, ?_⟩
      intro key hkey other hother
      obtain ⟨held, hheld, rfl⟩ := mem_map.mp hkey
      rw [mem_singleton.mp hother]
      exact hnew held ((hroomier.sublist.trans (supersede_sublist expired ticket)).mem hheld)
    · have hfits := hroomier.fits
      rw [length_append, length_singleton]
      exact hfits

section Claim

variable {runnerId : String} {now : Int}

theorem map_claimFrom {β : Type} {part : AuditTicket → β} (hpart : ∀ ticket : AuditTicket,
      part { ticket with claimedBy := some runnerId, claimedAt := some now } = part ticket)
    (left : Nat) (tickets : List AuditTicket) :
    (claimFrom runnerId now left tickets).1.map part = tickets.map part := by
  induction tickets generalizing left with
  | nil => simp [claimFrom]
  | cons ticket rest ih =>
    cases left with
    | zero => rfl
    | succ left =>
      unfold claimFrom
      split
      · simp [ih]
      · simp [ih, hpart]

theorem mem_claimFrom_of_claimed {left : Nat} {tickets : List AuditTicket}
    {ticket : AuditTicket} (hmem : ticket ∈ tickets) (hclaimed : ticket.claimedBy.isSome) :
    ticket ∈ (claimFrom runnerId now left tickets).1 := by
  induction tickets generalizing left with
  | nil => cases hmem
  | cons first rest ih =>
    cases left with
    | zero => exact hmem
    | succ left =>
      unfold claimFrom
      rcases mem_cons.mp hmem with rfl | hrest
      · simp [hclaimed]
      · split
        · exact mem_cons_of_mem _ (ih hrest)
        · exact mem_cons_of_mem _ (ih hrest)

theorem exists_of_mem_claimFrom {left : Nat} {tickets : List AuditTicket}
    {handed : AuditTicket} (hhanded : handed ∈ (claimFrom runnerId now left tickets).2) :
    ∃ ticket ∈ tickets, ticket.claimedBy = none ∧ handed.key = ticket.key := by
  induction tickets generalizing left with
  | nil => simp [claimFrom] at hhanded
  | cons first rest ih =>
    cases left with
    | zero => simp [claimFrom] at hhanded
    | succ left =>
      unfold claimFrom at hhanded
      split at hhanded
      · obtain ⟨ticket, hmem, hticket⟩ := ih hhanded
        exact ⟨ticket, mem_cons_of_mem _ hmem, hticket⟩
      next hfree =>
        rcases mem_cons.mp hhanded with rfl | hrest
        · exact ⟨first, mem_cons_self, by simpa using hfree, rfl⟩
        · obtain ⟨ticket, hmem, hticket⟩ := ih hrest
          exact ⟨ticket, mem_cons_of_mem _ hmem, hticket⟩

end Claim

theorem Tidy.claim {tickets : List AuditTicket} (htidy : Tidy tickets) (runnerId : String)
    (max : Nat) (now : Int) : Tidy (claim tickets runnerId max now).1 :=
  (htidy.expired now).of_map_key (map_claimFrom (fun _ => rfl) _ _)

theorem Tidy.take {tickets : List AuditTicket} (htidy : Tidy tickets)
    (key : String × String × String) : Tidy (take tickets key).1 :=
  htidy.sublist eraseP_sublist

/-! ## Runs -/

structure Promise where
  owner : String
  repo : String
  branch : String
  headSha : String
deriving DecidableEq, Repr

def Promise.key (promise : Promise) : String × String × String :=
  (promise.owner, promise.repo, promise.headSha)

def Promise.place (promise : Promise) : String × String × String :=
  (promise.owner, promise.repo, promise.branch)

def AuditTicket.promise (ticket : AuditTicket) : Promise :=
  { owner := ticket.owner
    repo := ticket.repo
    branch := ticket.branch
    headSha := ticket.headSha }

/-- The queue, and the answers that were given and not since taken back: a ticket for the
branch's head is in the queue. -/
structure World where
  tickets : List AuditTicket
  promised : List Promise

inductive Action where
  | enqueue (owner repo branch headSha : String) (base : Option String)
      (createdAt now : Int)
  | claim (runnerId : String) (max : Nat) (now : Int)
  | take (key : String × String × String)

def newTicket (owner repo branch headSha : String) (base : Option String)
    (createdAt : Int) : AuditTicket :=
  match base with
  | some base => .new owner repo branch headSha base createdAt
  | none => .wholeTree owner repo branch headSha createdAt

def evictedBy (tickets : List AuditTicket) (ticket : AuditTicket) (now : Int) :
    Option AuditTicket :=
  let expired := expireStaleClaims tickets now
  if expired.any fun held => held.key = ticket.key then
    none
  else
    evicted (supersede expired ticket)

/-- An enqueue takes an answer back: the head was evicted, or the branch's own later
enqueue at another head superseded it. -/
def takenBack (tickets : List AuditTicket) (ticket : AuditTicket) (now : Int)
    (outcome : EnqueueOutcome) (promise : Promise) : Bool :=
  (evictedBy tickets ticket now).any (fun gone => gone.key = promise.key) ||
    match outcome with
    | .superseded _ => promise.place = ticket.place && promise.headSha ≠ ticket.headSha
    | _ => false

def promisedAfter (world : World) (ticket : AuditTicket) (now : Int)
    (outcome : EnqueueOutcome) : List Promise :=
  match outcome with
  | .full => world.promised
  | _ =>
    ticket.promise ::
      world.promised.filter fun promise =>
        !takenBack world.tickets ticket now outcome promise

def step (world : World) : Action → World
  | .enqueue owner repo branch headSha base createdAt now =>
    let ticket := newTicket owner repo branch headSha base createdAt
    let result := enqueue world.tickets ticket now
    { tickets := result.1, promised := promisedAfter world ticket now result.2 }
  | .claim runnerId max now =>
    { world with tickets := (claim world.tickets runnerId max now).1 }
  | .take key =>
    { tickets := (take world.tickets key).1
      promised := world.promised.filter fun promise => promise.key ≠ key }

def machine : Machine World Action where
  start := ⟨[], []⟩
  step world action := some (step world action)

theorem Tidy.step {world : World} (htidy : Tidy world.tickets) (action : Action) :
    Tidy (step world action).tickets := by
  cases action with
  | enqueue owner repo branch headSha base createdAt now =>
    exact (htidy.expired now).enqueued (enqueue_enqueued ..)
  | claim runnerId max now => exact htidy.claim runnerId max now
  | take key => exact htidy.take key

theorem run_tidy {actions : List Action} {world : World} (hrun : machine.run actions = some world) :
    Tidy world.tickets := by
  refine machine.run_invariant_always (motive := fun world => Tidy world.tickets)
    ⟨nodup_nil, Nat.zero_le _⟩ ?_ hrun
  intro state action next htidy hstep
  obtain rfl : step state action = next := Option.some.inj hstep
  exact htidy.step action

structure LeasesKept (tickets : List AuditTicket) : Prop where
  claim : ∀ runnerId max now, ∀ ticket ∈ tickets, ticket.live now →
    ticket ∈ (claim tickets runnerId max now).1 ∧
      ∀ handed ∈ (AuditQueue.claim tickets runnerId max now).2, handed.key ≠ ticket.key
  enqueue : ∀ new now, ∀ ticket ∈ tickets, ticket.live now →
    ticket ∈ (enqueue tickets new now).1 ∨ (ticket.key = new.key ∧ replaces new ticket)
  take : ∀ key, ∀ ticket ∈ tickets, ticket.key ≠ key → ticket ∈ (take tickets key).1
  full : ∀ new now, (AuditQueue.enqueue tickets new now).2 = .full →
    (AuditQueue.enqueue tickets new now).1 = tickets

section Kept

variable {tickets expired : List AuditTicket} {ticket new : AuditTicket} {now : Int}

theorem mem_supersede_of_claimed (hmem : ticket ∈ expired) (hclaimed : ticket.claimedBy.isSome) :
    ticket ∈ supersede expired new :=
  mem_filter.mpr ⟨hmem, by simp [hclaimed]⟩

theorem eq_or_mem_set {held : AuditTicket} {index : Nat} (hheld : tickets[index]? = some held)
    (hmem : ticket ∈ tickets) (new : AuditTicket) :
    held = ticket ∨ ticket ∈ tickets.set index new := by
  obtain ⟨other, hother⟩ := mem_iff_getElem?.mp hmem
  by_cases hsame : index = other
  · subst hsame
    exact .inl (Option.some.inj (hheld.symm.trans hother))
  · exact .inr (mem_of_getElem? ((getElem?_set_ne hsame).trans hother))

theorem Enqueued.mem_of_claimed {result : List AuditTicket × EnqueueOutcome}
    (hresult : Enqueued expired new result) (htidy : Tidy expired) (hmem : ticket ∈ expired)
    (hclaimed : ticket.claimedBy.isSome) :
    ticket ∈ result.1 ∨ (ticket.key = new.key ∧ replaces new ticket) := by
  cases hresult with
  | replaced held index hheld hkey hreplaces =>
    rcases eq_or_mem_set hheld hmem new with rfl | hstays
    · exact .inr ⟨hkey, hreplaces⟩
    · exact .inl hstays
  | already held hheld hkey => exact .inl hmem
  | full hnew hfull => exact .inl (mem_supersede_of_claimed hmem hclaimed)
  | added room outcome hnew hroom houtcome hsuperseded =>
    have hkept := htidy.sublist (supersede_sublist expired new)
    rcases (makeRoom_roomier hkept.bounded hroom).gone ticket
      (mem_supersede_of_claimed hmem hclaimed) with hstays | hevicted
    · exact .inl (mem_append_left _ hstays)
    · unfold evicted at hevicted
      split_ifs at hevicted
      have hfree : ticket.claimedBy = none := by simpa using find?_some hevicted
      rw [hfree] at hclaimed
      cases hclaimed

theorem claimed_of_makeRoom_eq_none {kept : List AuditTicket} (hfull : makeRoom kept = none) :
    auditQueueCapacity ≤ kept.length ∧ ∀ held ∈ kept, held.claimedBy.isSome := by
  unfold makeRoom at hfull
  split_ifs at hfull with hlong hany
  refine ⟨hlong, fun held hheld => ?_⟩
  by_contra hfree
  exact hany (any_eq_true.mpr ⟨held, hheld, by simpa using hfree⟩)

theorem Tidy.enqueue_full (htidy : Tidy tickets) (hfull : (enqueue tickets new now).2 = .full) :
    (enqueue tickets new now).1 = tickets := by
  have hresult := enqueue_enqueued tickets new now
  generalize enqueue tickets new now = result at hresult hfull ⊢
  cases hresult with
  | replaced | already => cases hfull
  | added room outcome hnew hroom houtcome hsuperseded => exact absurd hfull houtcome
  | full hnew hnone =>
    obtain ⟨hlong, hclaimed⟩ := claimed_of_makeRoom_eq_none hnone
    -- nothing was superseded, or there would be room
    have hkept : supersede (expireStaleClaims tickets now) new =
        expireStaleClaims tickets now :=
      (supersede_sublist _ new).eq_of_length_le
        ((htidy.expired now).bounded.trans hlong)
    rw [hkept] at hclaimed
    refine hkept.trans ((map_congr_left fun held hheld => ?_).trans (map_id tickets))
    exact expire_eq_self (hclaimed _ (mem_map_of_mem hheld))

theorem Tidy.leasesKept (htidy : Tidy tickets) : LeasesKept tickets where
  claim := by
    intro runnerId max now ticket hmem hlive
    have hexpired := mem_expireStaleClaims_of_live hmem hlive
    refine ⟨mem_claimFrom_of_claimed hexpired (claimed_of_live hlive), ?_⟩
    intro handed hhanded hkey
    obtain ⟨free, hfree, hnobody, hsame⟩ := exists_of_mem_claimFrom hhanded
    have hticket := inj_on_of_nodup_map (htidy.expired now).distinct hfree hexpired
      (hsame.symm.trans hkey)
    have hclaimed := claimed_of_live hlive
    rw [← hticket, hnobody] at hclaimed
    cases hclaimed
  enqueue := by
    intro new now ticket hmem hlive
    exact (enqueue_enqueued tickets new now).mem_of_claimed (htidy.expired now)
      (mem_expireStaleClaims_of_live hmem hlive) (claimed_of_live hlive)
  take := by
    intro key ticket hmem hkey
    exact (mem_eraseP_of_neg (by simpa using hkey)).mpr hmem
  full := fun new now hfull => htidy.enqueue_full hfull

end Kept

/-- Any run, with any clock readings: heads have one ticket, the queue is bounded, a
running claim is neither handed on nor removed, and a refusal changes nothing. -/
theorem run_claims_last {actions : List Action} {world : World}
    (hrun : machine.run actions = some world) : Tidy world.tickets ∧ LeasesKept world.tickets := by
  have htidy := run_tidy hrun
  exact ⟨htidy, htidy.leasesKept⟩

def oneClaimed : List Action :=
  [.enqueue "acme" "forge" "main" "aaaa" none 0 0,
    .enqueue "acme" "forge" "fix" "bbbb" (some "aaaa") 1 1, .claim "runner-1" 1 2]

theorem run_claims_last_oneClaimed :
    ∃ world ticket, machine.run oneClaimed = some world ∧ ticket ∈ world.tickets ∧
      ticket.claimedBy = some "runner-1" ∧ ticket.live (Clock.seconds 1800) ∧
      Tidy world.tickets ∧ LeasesKept world.tickets :=
  ⟨step (step (step ⟨[], []⟩ _) _) _,
    { AuditTicket.wholeTree "acme" "forge" "main" "aaaa" 0 with
      claimedBy := some "runner-1", claimedAt := some 2 },
    rfl, by decide +kernel, rfl, by decide +kernel, @run_claims_last oneClaimed _ rfl⟩

open Option

def PromisesKept (world : World) : Prop :=
  ∀ promise ∈ world.promised, ∃ ticket ∈ world.tickets, ticket.key = promise.key

def OwnBranch (world : World) : Action → Prop
  | .enqueue owner repo branch headSha _ _ _ =>
    ∀ held ∈ world.tickets, held.key = (owner, repo, headSha) → held.branch = branch
  | .claim .. | .take _ => True

instance (world : World) : (action : Action) → Decidable (OwnBranch world action)
  | .enqueue .. => inferInstanceAs (Decidable (∀ held ∈ _, _))
  | .claim .. | .take _ => isTrue trivial

structure Ticketed (world : World) : Prop where
  tidy : Tidy world.tickets
  own : ∀ promise ∈ world.promised, ∃ ticket ∈ world.tickets, ticket.promise = promise

theorem promise_eq_iff {first second : AuditTicket} :
    first.promise = second.promise ↔
      first.key = second.key ∧ first.branch = second.branch := by
  simp only [AuditTicket.promise, AuditTicket.key, Promise.mk.injEq, Prod.mk.injEq]
  tauto

@[simp]
theorem promise_expire (ticket : AuditTicket) (now : Int) :
    (ticket.expire now).promise = ticket.promise := by
  unfold AuditTicket.expire
  split <;> rfl

variable {world : World}

theorem Ticketed.expired (hticketed : Ticketed world) (now : Int) :
    ∀ promise ∈ world.promised,
      ∃ ticket ∈ expireStaleClaims world.tickets now, ticket.promise = promise := by
  intro promise hpromise
  obtain ⟨ticket, hmem, rfl⟩ := hticketed.own promise hpromise
  exact ⟨ticket.expire now, mem_map_of_mem hmem, promise_expire ticket now⟩

section Added

variable {tickets room : List AuditTicket} {ticket held : AuditTicket} {now : Int}
  {outcome : EnqueueOutcome}

theorem takenBack_of_gone (hnew : ∀ held ∈ expireStaleClaims tickets now, held.key ≠ ticket.key)
    (hroomier : Roomier (supersede (expireStaleClaims tickets now) ticket) room)
    (hsuperseded : supersede (expireStaleClaims tickets now) ticket ≠
      expireStaleClaims tickets now → ∃ count, outcome = .superseded count)
    (hheld : held ∈ expireStaleClaims tickets now) (hgone : held ∉ room) :
    takenBack tickets ticket now outcome held.promise := by
  by_cases hkept : held ∈ supersede (expireStaleClaims tickets now) ticket
  · have hevicted := (hroomier.gone held hkept).resolve_left hgone
    unfold takenBack evictedBy
    rw [if_neg (by simpa using hnew), hevicted]
    simp [AuditTicket.promise, Promise.key, AuditTicket.key]
  · have hchanged : supersede (expireStaleClaims tickets now) ticket ≠
        expireStaleClaims tickets now := fun hsame => hkept (hsame.symm ▸ hheld)
    obtain ⟨count, rfl⟩ := hsuperseded hchanged
    have hplace : held.place = ticket.place := by
      by_contra hother
      exact hkept (mem_filter.mpr ⟨hheld, by simp [hother]⟩)
    have hhead : held.headSha ≠ ticket.headSha := by
      intro hsame
      obtain ⟨howner, hrepo, _⟩ : held.owner = ticket.owner ∧ held.repo = ticket.repo ∧
          held.branch = ticket.branch := by simpa [AuditTicket.place] using hplace
      exact hnew held hheld (by simp [AuditTicket.key, howner, hrepo, hsame])
    have hplaces : held.promise.place = ticket.place := hplace
    simp only [takenBack, hplaces, decide_true, Bool.true_and, Bool.or_eq_true]
    exact .inr (decide_eq_true hhead)

end Added

theorem Ticketed.afterEnqueue {ticket : AuditTicket} {now : Int} (hticketed : Ticketed world)
    (hown : ∀ held ∈ world.tickets, held.key = ticket.key → held.branch = ticket.branch) :
    Ticketed
      { tickets := (enqueue world.tickets ticket now).1
        promised := promisedAfter world ticket now (enqueue world.tickets ticket now).2 } := by
  have hexpired := hticketed.expired now
  have htidy := hticketed.tidy.expired now
  have hresult := enqueue_enqueued world.tickets ticket now
  have hfull := @Tidy.enqueue_full world.tickets ticket now hticketed.tidy
  generalize enqueue world.tickets ticket now = result at hresult hfull ⊢
  refine ⟨htidy.enqueued hresult, ?_⟩
  cases hresult with
  | replaced held index hheld hkey hreplaces =>
    have hbranch : held.branch = ticket.branch := by
      have hparts := (Bool.and_eq_true_iff.mp hreplaces).1
      simpa using (Bool.and_eq_true_iff.mp hparts).2
    have hthere := mem_set (List.getElem?_eq_some_iff.mp hheld).1 ticket
    intro promise hpromise
    rcases mem_cons.mp hpromise with rfl | hold
    · exact ⟨ticket, hthere, rfl⟩
    · obtain ⟨other, hother, rfl⟩ := hexpired promise (mem_filter.mp hold).1
      rcases eq_or_mem_set hheld hother ticket with rfl | hstays
      · -- the new ticket has the head and the branch of the one it replaces
        exact ⟨ticket, hthere, promise_eq_iff.mpr ⟨hkey.symm, hbranch.symm⟩⟩
      · exact ⟨other, hstays, rfl⟩
  | already held hheld hkey =>
    intro promise hpromise
    rcases mem_cons.mp hpromise with rfl | hold
    · obtain ⟨before, hbefore, rfl⟩ := mem_map.mp hheld
      rw [key_expire] at hkey
      exact ⟨before.expire now, hheld,
        (promise_expire before now).trans (promise_eq_iff.mpr ⟨hkey, hown before hbefore hkey⟩)⟩
    · exact hexpired promise (mem_filter.mp hold).1
  | full hnew hnone =>
    have hsame := hfull rfl
    rw [hsame]
    exact hticketed.own
  | added room outcome hnew hroom houtcome hsuperseded =>
    have hroomier := makeRoom_roomier (htidy.sublist (supersede_sublist _ ticket)).bounded hroom
    have hpromised : promisedAfter world ticket now outcome = ticket.promise ::
        world.promised.filter fun promise =>
          !takenBack world.tickets ticket now outcome promise := by
      cases outcome with
      | full => exact absurd rfl houtcome
      | _ => rfl
    intro promise hpromise
    rw [hpromised] at hpromise
    rcases mem_cons.mp hpromise with rfl | hold
    · exact ⟨ticket, by simp, rfl⟩
    · obtain ⟨hmem, hstands⟩ := mem_filter.mp hold
      obtain ⟨other, hother, rfl⟩ := hexpired promise hmem
      by_cases hstays : other ∈ room
      · exact ⟨other, mem_append_left _ hstays, rfl⟩
      · have hback := takenBack_of_gone hnew hroomier hsuperseded hother hstays
        simp [hback] at hstands

theorem Ticketed.afterClaim (hticketed : Ticketed world) (runnerId : String)
    (max : Nat) (now : Int) :
    Ticketed { world with tickets := (claim world.tickets runnerId max now).1 } where
  tidy := hticketed.tidy.claim runnerId max now
  own := by
    intro promise hpromise
    obtain ⟨ticket, hmem, rfl⟩ := hticketed.expired now promise hpromise
    have hsame : (claim world.tickets runnerId max now).1.map AuditTicket.promise =
        (expireStaleClaims world.tickets now).map AuditTicket.promise :=
      map_claimFrom (fun _ => rfl) _ _
    have hpromised : ticket.promise ∈
        (claim world.tickets runnerId max now).1.map AuditTicket.promise :=
      hsame ▸ mem_map_of_mem hmem
    exact mem_map.mp hpromised

theorem Ticketed.afterTake (hticketed : Ticketed world) (key : String × String × String) :
    Ticketed
      { tickets := (take world.tickets key).1
        promised := world.promised.filter fun promise => promise.key ≠ key } where
  tidy := hticketed.tidy.take key
  own := by
    intro promise hpromise
    obtain ⟨hmem, hother⟩ := mem_filter.mp hpromise
    obtain ⟨ticket, hticket, rfl⟩ := hticketed.own promise hmem
    have hkey : ticket.promise.key ≠ key := by simpa using hother
    exact ⟨ticket, hticketed.tidy.leasesKept.take key ticket hticket hkey, rfl⟩

theorem Ticketed.step {action : Action} (hticketed : Ticketed world)
    (hown : OwnBranch world action) : Ticketed (step world action) := by
  cases action with
  | enqueue owner repo branch headSha base createdAt now =>
    refine hticketed.afterEnqueue ?_
    intro held hheld hkey
    cases base <;> exact hown held hheld hkey
  | claim runnerId max now => exact hticketed.afterClaim runnerId max now
  | take key => exact hticketed.afterTake key

/-- In a run in which no head is asked for by one branch while its ticket is another's,
every promised ticket stays until it is taken, evicted or superseded by its own branch. -/
theorem run_promisesKept {actions : List Action} {world : World}
    (hown : machine.Meets OwnBranch actions) (hrun : machine.run actions = some world) :
    PromisesKept world := by
  have hticketed : Ticketed world := by
    refine machine.run_invariant (motive := Ticketed)
      ⟨⟨nodup_nil, Nat.zero_le _⟩, by simp [machine]⟩ ?_ hown hrun
    intro state action next hstate haction hstep
    obtain rfl : AuditQueue.step state action = next := some.inj hstep
    exact hstate.step haction
  intro promise hpromise
  obtain ⟨ticket, hmem, rfl⟩ := hticketed.own promise hpromise
  exact ⟨ticket, hmem, rfl⟩

def sharedHead (second : String) : List Action :=
  [.enqueue "acme" "forge" "first" "aaaa" (some "0000") 0 0,
    .enqueue "acme" "forge" second "aaaa" (some "0000") 1 1,
    .enqueue "acme" "forge" "first" "bbbb" (some "0000") 2 2]

/-- The second branch was told that its head is queued; the ticket goes with the first
branch. -/
theorem sharedHead_loses_ticket :
    ∃ world promise, machine.run (sharedHead "second") = some world ∧
      promise ∈ world.promised ∧ promise.branch = "second" ∧ promise.headSha = "aaaa" ∧
      ∀ ticket ∈ world.tickets, ticket.key ≠ promise.key :=
  ⟨_, ⟨"acme", "forge", "second", "aaaa"⟩, (some_get (by decide +kernel)).symm,
    by decide +kernel, rfl, rfl, by decide +kernel⟩

/-- The first branch pushes its own head again. -/
theorem run_promisesKept_sharedHead :
    ∃ world, machine.Meets OwnBranch (sharedHead "first") ∧
      machine.run (sharedHead "first") = some world ∧ world.promised ≠ [] ∧
      PromisesKept world := by
  have hown : machine.Meets OwnBranch (sharedHead "first") := by decide +kernel
  have hrun := (some_get (x := machine.run (sharedHead "first")) (by decide +kernel)).symm
  exact ⟨_, hown, hrun, by decide +kernel, run_promisesKept hown hrun⟩

end JeryuForge.AuditQueue
