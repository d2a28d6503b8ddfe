import JeryuForge.MergeQueue.Batches

/-!
# What a tick may do to an entry

A tick finds, builds or drops entries one at a time, and the index keeps its keys.  What
it does to an entry without building it is said once; a relation that admits this, and
what the builds of the tick do, holds between each entry before the tick and after it.
-/

namespace JeryuForge.MergeQueue

def QueueEntry.FailedRed (entry : QueueEntry) : Prop :=
  entry.state = .failed ∧ ∃ commits, entry.reason = some ("the gate failed on " ++ commits)

structure QueueEntry.Left (entry : QueueEntry) : Prop where
  idle : entry.state ≠ .building
  notRed : ¬ entry.FailedRed

structure Keeps (entry next : QueueEntry) : Prop where
  base : next.base = entry.base
  number : next.number = entry.number
  queueSha : next.queueSha = entry.queueSha

/-- What a tick does to an entry that it does not build: it notes another entry below it,
or the entry leaves the queue. -/
inductive Turned (entry : QueueEntry) : QueueEntry → Prop where
  | after (after : Option Nat) : Turned entry { entry with after := after }
  | left {next : QueueEntry} (hkeeps : Keeps entry next) (hleft : next.Left) :
      Turned entry next

theorem append_ne_append {first second : String} (hfirst : ¬ first.toList <+: second.toList)
    (hsecond : ¬ second.toList <+: first.toList) (more rest : String) :
    first ++ more ≠ second ++ rest := by
  intro hsame
  have hlists : first.toList ++ more.toList = second.toList ++ rest.toList := by
    simpa using congrArg String.toList hsame
  have hstart : first.toList <+: second.toList ++ rest.toList := ⟨_, hlists⟩
  rcases List.prefix_or_prefix_of_prefix hstart (List.prefix_append _ _) with hle | hle
  · exact hfirst hle
  · exact hsecond hle

theorem left_of_state {entry : QueueEntry} (hbuilding : entry.state ≠ .building)
    (hfailed : entry.state ≠ .failed) : entry.Left where
  idle := hbuilding
  notRed := fun hred => hfailed hred.1

theorem left_finish_dequeued (entry : QueueEntry) (reason : String) :
    (entry.finish .dequeued reason).Left :=
  left_of_state (by simp [QueueEntry.finish]) (by simp [QueueEntry.finish])

theorem keeps_finish (entry : QueueEntry) (state : QueueState) (reason : String) :
    Keeps entry (entry.finish state reason) :=
  ⟨rfl, rfl, rfl⟩

theorem turned_dequeued (entry : QueueEntry) (reason : String) :
    Turned entry (entry.finish .dequeued reason) :=
  .left (keeps_finish ..) (left_finish_dequeued ..)

theorem turned_failed (entry : QueueEntry) {start : String} (rest : String)
    (hstart : ¬ start.toList <+: "the gate failed on ".toList)
    (hother : ¬ "the gate failed on ".toList <+: start.toList) :
    Turned entry (entry.finish .failed (start ++ rest)) := by
  refine .left (keeps_finish ..) ⟨by simp [QueueEntry.finish], ?_⟩
  rintro ⟨_, commits, hreason⟩
  exact append_ne_append hstart hother rest commits (Option.some.inj hreason)

theorem turned_stillQueued {entry next : QueueEntry} {read : Option Pull}
    (hleft : stillQueued entry read = .left next) : Turned entry next := by
  unfold stillQueued at hleft
  split at hleft
  · cases hleft
  · split_ifs at hleft <;> cases hleft
    · exact turned_dequeued ..
    · exact turned_dequeued ..
    · exact turned_failed _ _ (by decide) (by decide)

theorem turned_landedEntry (landing : BatchLanding) (top : Nat) (own : Option Bool)
    (entry : QueueEntry) : Turned entry (landedEntry landing top own entry) := by
  unfold landedEntry
  split
  · simp only [String.append_assoc]
    exact turned_failed _ _ (by decide) (by decide)
  · exact .left ⟨rfl, rfl, rfl⟩
      (left_of_state (by simp [landed, QueueEntry.finish]) (by simp [landed, QueueEntry.finish]))

def Build.commits (build : Build) : List Sha :=
  match build.replay with
  | .ok sha => [sha]
  | .error _ => []

theorem Build.mem_commits {build : Build} {sha : Sha} (hreplay : build.replay = .ok sha) :
    sha ∈ build.commits := by
  simp [Build.commits, hreplay]

theorem buildOn_eq_ok {entry built : QueueEntry} {parent : Sha} {build : Build}
    (hbuilt : buildOn entry parent build = .ok built) :
    ∃ sha, build.replay = .ok sha ∧
      built = { entry with
        baseSha := parent
        queueSha := sha
        attempts := entry.attempts ++
          [{ queueSha := sha, baseSha := parent, conclusion := none, time := build.time }] } := by
  unfold buildOn at hbuilt
  split at hbuilt
  · cases hbuilt
  next sha hreplay =>
    exact ⟨sha, hreplay, (Except.ok.inj hbuilt).symm⟩

/-! ## All entries -/

/-- An entry is replaced in the index and persisted, or neither changes. -/
inductive Rewrite (may : Key → QueueEntry → QueueEntry → Prop) (queue next : Queue) : Prop where
  | put {key : Key} {old entry : QueueEntry} (hold : queue.entries.get? key = some old)
      (hmay : may key old entry) (hentries : next.entries = queue.entries.insert key entry)
      (hrefs : next.refs = (queue.persist key entry).refs)
  | same (hentries : next.entries = queue.entries) (hrefs : next.refs = queue.refs)

/-- Entries are replaced one after another. -/
abbrev Rewrites (may : Key → QueueEntry → QueueEntry → Prop) : Queue → Queue → Prop :=
  Relation.ReflTransGen (Rewrite may)

/-- What may happen includes nothing, one thing after another, and whatever a tick does
without building. -/
structure Admits (may : Key → QueueEntry → QueueEntry → Prop) : Prop where
  trans : ∀ {key first second third}, may key first second → may key second third →
    may key first third
  turned : ∀ {key entry next}, Turned entry next → may key entry next

def Builds (may : Key → QueueEntry → QueueEntry → Prop) (rebuild : Key → Build)
    (key : Key) : Prop :=
  ∀ entry parent built, entry.state = .building →
    buildOn entry.supersede parent (rebuild key) = .ok built → may key entry built

namespace Rewrites

variable {may : Key → QueueEntry → QueueEntry → Prop} {first queue next : Queue} {key : Key}

theorem put {old entry : QueueEntry} (hold : queue.entries.get? key = some old)
    (hmay : may key old entry) (hentries : next.entries = queue.entries.insert key entry)
    (hrefs : next.refs = (queue.persist key entry).refs) : Rewrites may queue next :=
  .single (.put hold hmay hentries hrefs)

section Admits

variable (hadmits : Admits may)
include hadmits

theorem get? (hrewrites : Rewrites may queue next) {entry : QueueEntry}
    (hget : next.entries.get? key = some entry) :
    ∃ old, queue.entries.get? key = some old ∧ may key old entry := by
  induction hrewrites generalizing entry with
  | refl => exact ⟨entry, hget, hadmits.turned (.after entry.after)⟩
  | tail _ hstep ih =>
    cases hstep with
    | same hentries => exact ih (hentries ▸ hget)
    | put hold hmay hentries =>
      rcases OrdMap.get?_insert_eq_some (hentries ▸ hget) with ⟨rfl, rfl⟩ | ⟨_, hother⟩
      · obtain ⟨first, hfirst, hbefore⟩ := ih hold
        exact ⟨first, hfirst, hadmits.trans hbefore hmay⟩
      · exact ih hother

theorem checkKey (pulls : Key → Option Pull) (checked : Checked) (key : Key) :
    Rewrites may checked.queue (checkKey pulls checked key).queue := by
  unfold MergeQueue.checkKey
  split
  · exact .refl
  next hentry =>
    split
    · exact .refl
    next hleft =>
      exact put hentry (hadmits.turned (turned_stillQueued hleft)) rfl rfl
    · exact .refl

theorem checkStack (queue : Queue) (keys : List Key) (pulls : Key → Option Pull) :
    Rewrites may queue (checkStack queue keys pulls).queue :=
  List.foldlRecOn (motive := fun checked : Checked => Rewrites may queue checked.queue) keys _
    .refl fun _ hchecked _ _ =>
      hchecked.trans (checkKey hadmits pulls _ _)

variable {rebuild : Key → Build} {place : Place} {stack : List Key} {base : String}
  {answers : StackAnswers}

theorem restackKey (hbuilds : Builds may rebuild key) :
    Rewrites may queue (restackKey rebuild queue key place).1 := by
  unfold MergeQueue.restackKey
  split
  · exact .refl
  next entry hentry =>
    obtain ⟨hget, hstate⟩ := Option.filter_eq_some_iff.mp hentry
    have hbuilding : entry.state = .building := by simpa using hstate
    unfold restackEntry
    split_ifs
    · cases hbuilt : buildOn entry.supersede place.parent (rebuild key) with
      | error failure =>
        have hleft : Turned entry (entry.supersede.finish .dequeued failure.text) :=
          .left ⟨rfl, rfl, rfl⟩ (left_finish_dequeued ..)
        exact put hget (hadmits.turned hleft) rfl rfl
      | ok built =>
        have hmay := hbuilds entry place.parent built hbuilding hbuilt
        exact put hget (hadmits.trans hmay (hadmits.turned (.after place.after))) rfl rfl
    · exact put hget (hadmits.turned (.after place.after)) rfl rfl
    · exact .refl

theorem restackFrom (hbuilds : ∀ key ∈ stack, Builds may rebuild key) :
    Rewrites may queue (restackFrom rebuild queue place stack) := by
  induction stack generalizing queue place with
  | nil => exact .refl
  | cons key rest ih =>
    exact (restackKey hadmits (hbuilds key (by simp))).trans
      (ih (List.forall_mem_cons.mp hbuilds).2)

theorem restack {read : TipRead} (hbuilds : ∀ key ∈ stack, Builds may rebuild key) :
    Rewrites may queue (restack queue base stack read rebuild) := by
  unfold MergeQueue.restack
  split
  · exact .refl
  · exact restackFrom hadmits hbuilds

theorem refuseMember (queue : Queue) (keys : List Key) (number : Nat) (problem : MemberProblem) :
    Rewrites may queue (refuseMember queue keys number problem) := by
  unfold MergeQueue.refuseMember
  split
  · exact .refl
  · split
    · exact .refl
    next hget =>
      exact put hget (hadmits.turned (turned_dequeued ..)) rfl rfl
    next hget =>
      exact put hget (hadmits.turned (turned_failed _ _ (by decide) (by decide))) rfl rfl
    · exact .refl

theorem recordLanded (landing : BatchLanding) (top : Nat) (queue : Queue) (gated : Gated) :
    Rewrites may queue (recordLanded landing top queue gated) := by
  unfold MergeQueue.recordLanded
  split
  · exact .refl
  next hget =>
    exact put hget (hadmits.turned (turned_landedEntry ..)) rfl rfl

theorem landStack (queue : Queue) (stack : List Gated) (answers : LandAnswers) :
    Rewrites may queue (landStack queue stack answers) := by
  unfold MergeQueue.landStack
  dsimp only
  split
  · exact .refl
  · split
    · exact List.foldlRecOn (motive := fun current : Queue => Rewrites may queue current) stack _
        (.single (.same rfl rfl)) fun _ hcurrent _ _ =>
          hcurrent.trans (recordLanded hadmits _ _ _ _)
    · exact refuseMember hadmits _ _ _ _
    · exact .refl
    · exact .refl

omit hadmits in
theorem retryBottom {build : Build} (hretry : ∀ entry, queue.entries.get? key = some entry →
      may key entry (retryOrFail entry build).1) :
    Rewrites may queue (retryBottom queue key build) := by
  unfold MergeQueue.retryBottom
  split
  · exact .refl
  next entry hentry =>
    have hmay := hretry entry hentry
    split <;> rename_i hretried <;> rw [hretried] at hmay <;> exact put hentry hmay rfl rfl

theorem settleStack {stack : List Gated}
    (hbuilding : ∀ key ∈ stack.map Gated.key, queue.isBuilding key)
    (hretry : ∀ key ∈ stack.map Gated.key, ∀ entry, entry.state = .building →
      may key entry (retryOrFail entry answers.retry).1)
    (hsettled : settleStack queue stack answers = some next) : Rewrites may queue next := by
  rcases settleStack_cases hsettled with ⟨bottom, hbottom, rfl⟩ | rfl
  · refine retryBottom fun entry hentry => ?_
    obtain ⟨found, hfound, hstate⟩ := isBuilding_iff.mp (hbuilding bottom hbottom)
    obtain rfl : found = entry := Option.some.inj (hfound.symm.trans hentry)
    exact hretry bottom hbottom found hstate
  · exact landStack hadmits _ _ _

theorem advanceStack {keys : List Key} (hrebuild : ∀ key ∈ keys, Builds may answers.rebuild key)
    (hretry : ∀ key ∈ keys, ∀ entry, entry.state = .building →
      may key entry (retryOrFail entry answers.retry).1)
    (hagain : ∀ key ∈ keys, Builds may answers.rebuildAgain key) :
    Rewrites may queue (advanceStack queue base keys answers) := by
  let checked := MergeQueue.checkStack queue keys answers.pull
  have hlive : ∀ current, live current checked.required keys ⊆ keys :=
    fun current => live_subset current checked.required keys
  have hchecked := checkStack hadmits queue keys answers.pull
  have hrestacked : Rewrites may queue (MergeQueue.restack checked.queue base
      (live checked.queue checked.required keys) answers.tip answers.rebuild) :=
    hchecked.trans
      (restack hadmits fun key hkey => hrebuild key (hlive checked.queue hkey))
  unfold MergeQueue.advanceStack
  dsimp only
  split
  · exact hrestacked
  next settled hsettled =>
    have hsettles := settleStack hadmits ?_ ?_ hsettled
    · exact (hrestacked.trans hsettles).trans
        (restack hadmits fun key hkey => hagain key (hlive settled hkey))
    · rw [map_key_gatedStack]
      exact fun key hkey => (Bool.and_eq_true_iff.mp (List.mem_filter.mp hkey).2).2
    · rw [map_key_gatedStack]
      exact fun key hkey => hretry key (hlive _ hkey)

end Admits

end Rewrites

def Queue.All (holds : Key → QueueEntry → Prop) (queue : Queue) : Prop :=
  ∀ key entry, queue.entries.get? key = some entry → holds key entry

namespace Queue.All

variable {holds later : Key → QueueEntry → Prop} {queue next : Queue} {key : Key}

theorem mono (hall : queue.All holds) (himp : ∀ key entry, holds key entry → later key entry) :
    queue.All later :=
  fun key entry hentry => himp key entry (hall key entry hentry)

theorem put (hall : queue.All holds) {entry : QueueEntry} (hentry : holds key entry) :
    (queue.put key entry).All holds := by
  intro other found hfound
  rcases OrdMap.get?_insert_eq_some hfound with ⟨rfl, rfl⟩ | ⟨_, hold⟩
  · exact hentry
  · exact hall other found hold

theorem rewrite (hall : queue.All holds)
    (hrewrites : Rewrites (fun key old new => holds key old → holds key new) queue next) :
    next.All holds := by
  induction hrewrites with
  | refl => exact hall
  | tail _ hstep ih =>
    intro key entry hentry
    cases hstep with
    | same hentries => exact ih key entry (hentries ▸ hentry)
    | put hold hmay hentries =>
      rcases OrdMap.get?_insert_eq_some (hentries ▸ hentry) with ⟨rfl, rfl⟩ | ⟨_, hother⟩
      · exact hmay (ih _ _ hold)
      · exact ih key entry hother

theorem retryBottom (hall : queue.All holds)
    (himp : ∀ key entry, holds key entry → later key entry) {build : Build}
    (hretry : ∀ entry, queue.entries.get? key = some entry →
      later key (retryOrFail entry build).1) :
    (retryBottom queue key build).All later := by
  unfold MergeQueue.retryBottom
  split
  · exact hall.mono himp
  next entry hentry =>
    have hput := (hall.mono himp).put (hretry entry hentry)
    split <;> rename_i hretried <;> rw [hretried] at hput <;> exact hput

end Queue.All

end JeryuForge.MergeQueue
