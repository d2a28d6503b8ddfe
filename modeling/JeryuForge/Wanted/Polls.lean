import JeryuForge.Library.Machine
import JeryuForge.Library.NumberedLog
import JeryuForge.Text

/-!
# Signals and long polls

The forge records that a head can be gated, or reviewed, and a reader follows the
signals with long polls, each from the number that the one before was answered.  Both
stores and both handlers are the same up to what a signal says about its head.
-/

namespace JeryuForge.Wanted

open List Option

def maxSignals : Nat := 512

/-- A signal about a head of a repository `owner/name`. -/
structure Signal (α : Type) where
  repo : String
  detail : α
deriving DecidableEq, Repr

structure GateWanted where
  refName : Option String
  number : Option Nat
  sha : String
  source : String
  time : String
deriving DecidableEq, Repr

structure ReviewWanted where
  number : Nat
  headSha : String
  baseRef : String
  draft : Bool
  kind : String
  time : String
deriving DecidableEq, Repr

structure Rights where
  admin : Bool
  userCanReadRepo : String → String → Bool

def readable (rights : Rights) (repo : String) : Bool :=
  rights.admin ||
    match Text.splitOnce repo '/' with
    | none => false
    | some (owner, name) => rights.userCanReadRepo owner name

section Store

variable {α : Type}

/-- `GateWantedStore` and `ReviewWantedStore`. -/
abbrev Store (α : Type) := NumberedLog (Signal α)

def record (store : Store α) (signal : Signal α) : Store α :=
  NumberedLog.record maxSignals store signal

def visible (store : Store α) (after : Nat) (rights : Rights) : List (Numbered (Signal α)) :=
  (store.since after).filter fun signal => readable rights signal.item.repo

/-- Between polls, about to read the store, or holding the request open: nothing that
could be read was there when the newest number was `seen`. -/
inductive Reader where
  | idle (after : Nat)
  | reading (after : Nat)
  | waiting (after seen : Nat) (rights : Rights)

/-- One answered poll.  What the store kept when it was answered and what the reader may
read, by the last look of this poll, are recorded beside it. -/
structure Answer (α : Type) where
  after : Nat
  seq : Nat
  signals : List (Numbered (Signal α))
  kept : List (Numbered (Signal α))
  rights : Rights

structure World (α : Type) where
  store : Store α
  reader : Reader
  answers : List (Answer α)

/-- A signal is recorded; the reader asks; it reads the store, with the deadline passed or
not; a record wakes it; its wait times out. -/
inductive Action (α : Type) where
  | record (signal : Signal α)
  | ask
  | read (rights : Rights) (late : Bool)
  | wake
  | expire

def answer (world : World α) (after : Nat) (rights : Rights)
    (signals : List (Numbered (Signal α))) : World α :=
  { world with
    reader := .idle world.store.lastSeq
    answers := world.answers ++
      [{ after := after
         seq := world.store.lastSeq
         signals := signals
         kept := world.store.kept
         rights := rights }] }

/-- One step of `list`, or of a recorder.  The read of the store and, after a wait that
timed out, of its newest number are steps of their own. -/
def step (world : World α) : Action α → Option (World α)
  | .record signal => some { world with store := record world.store signal }
  | .ask =>
    match world.reader with
    | .idle after => some { world with reader := .reading after }
    | _ => none
  | .read rights late =>
    match world.reader with
    | .reading after =>
      let signals := visible world.store after rights
      if !signals.isEmpty || world.store.lastSeq < after || late then
        some (answer world after rights signals)
      else
        some { world with reader := .waiting after world.store.lastSeq rights }
    | _ => none
  | .wake =>
    match world.reader with
    | .waiting after _ _ => some { world with reader := .reading after }
    | _ => none
  | .expire =>
    match world.reader with
    | .waiting after _ rights => some (answer world after rights [])
    | _ => none

def machine (α : Type) (first : Nat) : Machine (World α) (Action α) where
  start := { store := NumberedLog.empty, reader := .idle first, answers := [] }
  step := step

end Store

abbrev gateWanted (first : Nat) : Machine (World GateWanted) (Action GateWanted) :=
  machine GateWanted first

abbrev reviewWanted (first : Nat) : Machine (World ReviewWanted) (Action ReviewWanted) :=
  machine ReviewWanted first

/-! ## What the reader receives -/

section Delivery

variable {α : Type}

def received (answers : List (Answer α)) : List (Numbered (Signal α)) :=
  answers.flatMap Answer.signals

def Answer.Complete (answer : Answer α) : Prop :=
  ∀ signal ∈ answer.kept, answer.after < signal.seq → signal.seq ≤ answer.seq →
    readable answer.rights signal.item.repo → signal ∈ answer.signals

/-- Each poll starts where the one before ended and leaves nothing out, and every signal
arrives once, in the order of the numbers. -/
structure Delivered (answers : List (Answer α)) : Prop where
  complete : ∀ answer ∈ answers, answer.Complete
  tiled : answers.IsChain fun earlier later => later.after = earlier.seq
  ordered : (received answers).Pairwise fun first second => first.seq < second.seq

/-- No signal that the reader may read is recorded between the last look at the store and the
time-out's reading of the newest number. -/
def Quiet (world : World α) : Action α → Prop
  | .expire =>
    match world.reader with
    | .waiting _ seen rights => ∀ signal ∈ world.store.kept, seen < signal.seq →
        readable rights signal.item.repo = false
    | _ => True
  | _ => True

instance (world : World α) : (action : Action α) → Decidable (Quiet world action)
  | .expire =>
    match hreader : world.reader with
    | .waiting _ seen rights =>
      decidable_of_iff (∀ signal ∈ world.store.kept, seen < signal.seq →
        readable rights signal.item.repo = false) (by simp [Quiet, hreader])
    | .idle _ | .reading _ => isTrue (by simp [Quiet, hreader])
  | .record _ | .ask | .read .. | .wake => isTrue trivial

def Reader.after : Reader → Nat
  | .idle after | .reading after | .waiting after _ _ => after

def Reader.Looked (store : Store α) : Reader → Prop
  | .waiting after seen rights =>
    seen ≤ store.lastSeq ∧
      ∀ signal ∈ store.kept, after < signal.seq → signal.seq ≤ seen →
        readable rights signal.item.repo = false
  | _ => True

structure Invariant (world : World α) : Prop where
  delivered : Delivered world.answers
  behind : ∀ signal ∈ received world.answers,
    signal.seq ≤ world.reader.after ∧ signal.seq ≤ world.store.lastSeq
  last : ∀ answer ∈ world.answers.getLast?, world.reader.after = answer.seq
  looked : world.reader.Looked world.store

theorem received_answer (world : World α) (after : Nat) (rights : Rights)
    (signals : List (Numbered (Signal α))) :
    received (answer world after rights signals).answers =
      received world.answers ++ signals := by
  simp [received, answer]

variable {world : World α}

theorem Invariant.moveReader (hinv : Invariant world) {reader : Reader}
    (hafter : reader.after = world.reader.after) (hlooked : reader.Looked world.store) :
    Invariant { world with reader := reader } where
  delivered := hinv.delivered
  behind := by
    intro signal hsignal
    rw [hafter]
    exact hinv.behind signal hsignal
  last := by
    intro answer hanswer
    rw [hafter]
    exact hinv.last answer hanswer
  looked := hlooked

theorem Invariant.answer (hinv : Invariant world) {rights : Rights}
    {signals : List (Numbered (Signal α))}
    (hcomplete : ∀ signal ∈ world.store.kept, world.reader.after < signal.seq →
      readable rights signal.item.repo → signal ∈ signals)
    (hsound : ∀ signal ∈ signals, signal ∈ world.store.kept ∧ world.reader.after < signal.seq)
    (hordered : signals.Pairwise fun first second => first.seq < second.seq) :
    Invariant (answer world world.reader.after rights signals) where
  delivered := {
    complete := by
      intro answer hanswer
      rcases mem_append.mp hanswer with hold | hnew
      · exact hinv.delivered.complete answer hold
      · obtain rfl := mem_singleton.mp hnew
        intro signal hkept hnewer _ hreadable
        exact hcomplete signal hkept hnewer hreadable
    tiled := by
      refine isChain_append.mpr ⟨hinv.delivered.tiled, isChain_singleton _, ?_⟩
      intro earlier hearlier later hlater
      obtain rfl : _ = later := by simpa using hlater
      exact hinv.last earlier hearlier
    ordered := by
      rw [received_answer]
      refine pairwise_append.mpr ⟨hinv.delivered.ordered, hordered, ?_⟩
      intro first hfirst second hsecond
      exact (hinv.behind first hfirst).1.trans_lt (hsound second hsecond).2 }
  behind := by
    intro signal hsignal
    rw [received_answer] at hsignal
    have hgiven : signal.seq ≤ world.store.lastSeq := by
      rcases mem_append.mp hsignal with hold | hnew
      · exact (hinv.behind signal hold).2
      · exact world.store.given signal (hsound signal hnew).1
    exact ⟨hgiven, hgiven⟩
  last := by
    intro answer hanswer
    obtain rfl : _ = answer := by simpa [Wanted.answer] using hanswer
    rfl
  looked := trivial

theorem Reader.Looked.afterRecord {store : Store α} {reader : Reader}
    (hlooked : reader.Looked store) (signal : Signal α) : reader.Looked (record store signal) := by
  cases reader with
  | idle | reading => trivial
  | waiting after seen rights =>
    obtain ⟨hbefore, hnothing⟩ := hlooked
    refine ⟨hbefore.trans (Nat.le_succ store.lastSeq), ?_⟩
    intro kept hkept hnewer hseen
    rcases NumberedLog.mem_kept_record hkept with hold | hnew
    · exact hnothing kept hold hnewer hseen
    · omega

theorem Invariant.afterRecord (hinv : Invariant world) (signal : Signal α) :
    Invariant { world with store := record world.store signal } := by
  have hbehind : ∀ arrived ∈ received world.answers,
      arrived.seq ≤ world.reader.after ∧
        arrived.seq ≤ (record world.store signal).lastSeq := by
    intro arrived harrived
    obtain ⟨hafter, hgiven⟩ := hinv.behind arrived harrived
    exact ⟨hafter, hgiven.trans (Nat.le_succ world.store.lastSeq)⟩
  constructor
  · exact hinv.delivered
  · exact hbehind
  · exact hinv.last
  · exact hinv.looked.afterRecord signal

theorem Invariant.expire {world : World α} (hinv : Invariant world) {after seen : Nat}
    {rights : Rights} (hreader : world.reader = .waiting after seen rights)
    (hquiet : ∀ signal ∈ world.store.kept, seen < signal.seq →
      readable rights signal.item.repo = false) :
    Invariant (Wanted.answer world after rights []) := by
  have hafter : world.reader.after = after := by rw [hreader]; rfl
  have hlooked := hinv.looked
  rw [hreader] at hlooked
  rw [← hafter] at hlooked ⊢
  refine hinv.answer ?_ (by simp) List.Pairwise.nil
  intro signal hkept hnewer hreadable
  rcases le_or_gt signal.seq seen with hseen | hlater
  · cases (hlooked.2 signal hkept hnewer hseen).symm.trans hreadable
  · cases (hquiet signal hkept hlater).symm.trans hreadable

theorem Invariant.read (hinv : Invariant world) (rights : Rights) :
    Invariant (Wanted.answer world world.reader.after rights
      (visible world.store world.reader.after rights)) := by
  refine hinv.answer ?_ ?_ ?_
  · intro signal hkept hnewer hreadable
    exact mem_filter.mpr ⟨NumberedLog.mem_since.mpr ⟨hkept, hnewer⟩, hreadable⟩
  · intro signal hsignal
    exact NumberedLog.mem_since.mp (mem_filter.mp hsignal).1
  · exact (world.store.increasing.filter _).filter _

theorem Invariant.step {next : World α} {action : Action α} (hinv : Invariant world)
    (hquiet : Quiet world action) (hstep : step world action = some next) : Invariant next := by
  cases action with
  | record signal =>
    obtain rfl := some.inj hstep
    exact hinv.afterRecord signal
  | ask =>
    simp only [Wanted.step] at hstep
    split at hstep
    next after hreader =>
      exact some.inj hstep ▸ hinv.moveReader (by rw [hreader]; rfl) trivial
    · cases hstep
  | read rights late =>
    simp only [Wanted.step] at hstep
    split at hstep
    next after hreader =>
      have hafter : world.reader.after = after := by rw [hreader]; rfl
      split at hstep
      · exact some.inj hstep ▸ hafter ▸ hinv.read rights
      next hnothing =>
        cases hstep
        have hempty : visible world.store after rights = [] := by
          simp only [Bool.or_eq_true, not_or] at hnothing
          simpa using hnothing.1.1
        refine hinv.moveReader hafter.symm ⟨Nat.le_refl _, ?_⟩
        intro signal hkept hnewer _
        by_contra hreadable
        have hvisible : signal ∈ visible world.store after rights :=
          mem_filter.mpr
            ⟨NumberedLog.mem_since.mpr ⟨hkept, hnewer⟩, by simpa using hreadable⟩
        simp [hempty] at hvisible
    · cases hstep
  | wake =>
    simp only [Wanted.step] at hstep
    split at hstep
    next hreader =>
      exact some.inj hstep ▸ hinv.moveReader (by rw [hreader]; rfl) trivial
    · cases hstep
  | expire =>
    simp only [Wanted.step] at hstep
    split at hstep
    next hreader =>
      simp only [Quiet, hreader] at hquiet
      exact some.inj hstep ▸ hinv.expire hreader hquiet
    · cases hstep

theorem Invariant.start (first : Nat) : Invariant (machine α first).start where
  delivered := ⟨by simp [machine], isChain_nil, List.Pairwise.nil⟩
  behind := by simp [machine, received]
  last := by simp [machine]
  looked := trivial

/-- In a run in which no signal that the reader may read is recorded between the last look of a
poll and its time-out, the reader receives every signal that is still kept when its poll is
answered and that it may read, once and in order. -/
theorem run_delivered {first : Nat} {actions : List (Action α)} {world : World α}
    (hquiet : (machine α first).Meets Quiet actions)
    (hrun : (machine α first).run actions = some world) : Delivered world.answers := by
  refine Invariant.delivered ?_
  exact (machine α first).run_invariant (Invariant.start first)
    (fun _ _ _ hinv hquiet hstep => hinv.step hquiet hstep) hquiet hrun

end Delivery

def pushed (sha : String) : Signal GateWanted :=
  { repo := "acme/forge"
    detail := { refName := some "refs/heads/main", number := none, sha := sha,
                source := "push", time := "" } }

def operator : Rights :=
  { admin := true, userCanReadRepo := fun _ _ => false }

/-- A reader finds nothing and waits; the wait times out, and a push is recorded before or
after the newest number is read; the reader polls again. -/
def pushAtTimeout (before : Bool) : List (Action GateWanted) :=
  if before then
    [.ask, .read operator false, .record (pushed "aaaa"), .expire, .ask, .read operator true]
  else
    [.ask, .read operator false, .expire, .record (pushed "aaaa"), .ask, .read operator true]

/-- The push is in the range of the poll that timed out and in no answer. -/
theorem pushAtTimeout_isSkipped :
    ∃ world signal answer, (gateWanted 0).run (pushAtTimeout true) = some world ∧
      world.answers.head? = some answer ∧ signal ∈ answer.kept ∧ answer.after < signal.seq ∧
      signal.seq ≤ answer.seq ∧ readable answer.rights signal.item.repo ∧
      signal ∈ world.store.kept ∧ received world.answers = [] :=
  ⟨_, ⟨1, pushed "aaaa"⟩, _, (some_get (by decide +kernel)).symm,
    (some_get (by decide +kernel)).symm, by decide +kernel, by decide +kernel,
    by decide +kernel, by decide +kernel, by decide +kernel, by decide +kernel⟩

/-- Recorded after the number was read, it is in the next answer. -/
theorem run_delivered_pushAtTimeout :
    ∃ world, (gateWanted 0).Meets Quiet (pushAtTimeout false) ∧
      (gateWanted 0).run (pushAtTimeout false) = some world ∧
      received world.answers = [⟨1, pushed "aaaa"⟩] ∧ Delivered world.answers := by
  have hquiet : (gateWanted 0).Meets Quiet (pushAtTimeout false) := by decide +kernel
  have hrun := (some_get (x := (gateWanted 0).run (pushAtTimeout false))
    (by decide +kernel)).symm
  exact ⟨_, hquiet, hrun, by decide +kernel, run_delivered hquiet hrun⟩

end JeryuForge.Wanted
