import JeryuForge.MergeQueue.Every

/-!
# Attempts and the retry

An entry that is building keeps its attempts: the open one, those whose gate was red, and
at most one that was replaced before its gate decided anything.  The second red gate fails
it.  The retry is a new commit, but a rebuild on another parent may be a commit that was
red before; then one gate counts twice.
-/

namespace JeryuForge.MergeQueue

open List

def supersededIn (attempts : List Attempt) : List Attempt :=
  attempts.filter fun attempt => attempt.conclusion = some superseded

def redIn (attempts : List Attempt) : List Attempt :=
  attempts.filter fun attempt => attempt.conclusion = some "failure"

def QueueEntry.redCommits (entry : QueueEntry) : List Sha :=
  entry.red.map Attempt.queueSha

/-- The attempts of an entry that is building: some that are over and one that is open,
on the entry's own commit and parent. -/
structure Trail (entry : QueueEntry) (earlier : List Attempt) (last : Attempt) : Prop where
  attempts : entry.attempts = earlier ++ [last]
  opened : last.conclusion = none
  queueSha : last.queueSha = entry.queueSha
  baseSha : last.baseSha = entry.baseSha
  concluded : ∀ attempt ∈ earlier,
    attempt.conclusion = some superseded ∨ attempt.conclusion = some "failure"
  once : (supersededIn earlier).length ≤ 1
  spare : (redIn earlier).length < maxAttempts

structure Distinct (entry : QueueEntry) : Prop where
  nodup : entry.redCommits.Nodup
  fresh : entry.queueSha ∉ entry.redCommits
  head : entry.prHeadSha ∉ entry.redCommits

/-- The gate was red on as many different commits as are tried, or on the head itself. -/
def Exhausted (entry : QueueEntry) : Prop :=
  (entry.red.length = maxAttempts ∧ entry.redCommits.Nodup) ∨
    entry.queueSha = entry.prHeadSha

theorem concludeLast_append (attempts : List Attempt) (last : Attempt)
    (conclusion : Attempt → Option String) :
    concludeLast (attempts ++ [last]) conclusion =
      attempts ++ [{ last with conclusion := conclusion last }] := by
  simp [concludeLast]

theorem redIn_of_notSuperseded (attempts : List Attempt) :
    redIn (attempts.filter fun attempt => attempt.conclusion ≠ some superseded) =
      redIn attempts := by
  unfold redIn
  rw [filter_filter]
  refine filter_congr fun attempt _ => ?_
  by_cases hred : attempt.conclusion = some "failure"
  · simp [hred, superseded]
  · simp [hred]

namespace Trail

variable {entry built : QueueEntry} {earlier : List Attempt} {last : Attempt}

section Trail

variable (htrail : Trail entry earlier last)
include htrail

theorem red_eq : entry.red = redIn earlier := by
  have hlast : redIn [last] = [] := by simp [redIn, htrail.opened]
  have hparts : entry.red = redIn earlier ++ redIn [last] := by
    rw [QueueEntry.red, htrail.attempts, filter_append]
    rfl
  rw [hparts, hlast, append_nil]

theorem superseded_le : (supersededIn entry.attempts).length ≤ 1 := by
  have hlast : supersededIn [last] = [] := by simp [supersededIn, htrail.opened]
  have hparts : supersededIn entry.attempts = supersededIn earlier ++ supersededIn [last] := by
    rw [htrail.attempts, supersededIn, filter_append]
    rfl
  rw [hparts, hlast, append_nil]
  exact htrail.once

theorem length_le : entry.attempts.length ≤ maxAttempts + 1 := by
  have hred : redIn earlier =
      earlier.filter fun attempt => ¬ attempt.conclusion = some superseded := by
    refine filter_congr fun attempt hattempt => ?_
    rcases htrail.concluded attempt hattempt with hover | hover <;> simp [hover, superseded]
  have hsplit : earlier.length = (supersededIn earlier).length + (redIn earlier).length := by
    rw [hred, supersededIn]
    simpa [countP_eq_length_filter] using length_eq_countP_add_countP
      (fun attempt : Attempt => decide (attempt.conclusion = some superseded)) (l := earlier)
  have honce := htrail.once
  have hspare := htrail.spare
  rw [htrail.attempts, length_append, length_singleton]
  omega

theorem supersede_attempts :
    entry.supersede.attempts =
      (earlier.filter fun attempt => attempt.conclusion ≠ some superseded) ++
        [{ last with conclusion := some superseded }] := by
  have hlast : [last].filter (fun attempt => attempt.conclusion ≠ some superseded) = [last] := by
    simp [htrail.opened]
  simp only [QueueEntry.supersede, htrail.attempts, filter_append]
  rw [hlast, concludeLast_append, htrail.opened]
  rfl

theorem rebuilt {parent : Sha} {build : Build}
    (hbuilt : buildOn entry.supersede parent build = .ok built) :
    ∃ before after, Trail built before after := by
  obtain ⟨sha, _, rfl⟩ := buildOn_eq_ok hbuilt
  refine ⟨_, _, ⟨by rw [htrail.supersede_attempts], rfl, rfl, rfl, ?_, ?_, ?_⟩⟩
  · intro attempt hattempt
    rcases mem_append.mp hattempt with hold | hnew
    · exact htrail.concluded attempt (mem_filter.mp hold).1
    · obtain rfl := mem_singleton.mp hnew
      exact .inl rfl
  · unfold supersededIn
    rw [filter_append, filter_filter, filter_eq_nil_iff.mpr (by simp), nil_append]
    exact length_filter_le _ _
  · have hred := redIn_of_notSuperseded earlier
    have hspare := htrail.spare
    unfold redIn at hred hspare ⊢
    rw [filter_append, hred]
    simpa [superseded] using hspare

theorem rebuilt_red {parent : Sha} {build : Build}
    (hbuilt : buildOn entry.supersede parent build = .ok built) : built.red = entry.red := by
  have hold := htrail.red_eq
  obtain ⟨sha, _, rfl⟩ := buildOn_eq_ok hbuilt
  have hred := redIn_of_notSuperseded earlier
  unfold redIn at hred hold
  rw [hold]
  simp only [QueueEntry.red, htrail.supersede_attempts, filter_append, hred]
  simp [superseded]

end Trail

def failed (earlier : List Attempt) (last : Attempt) : List Attempt :=
  earlier ++ [{ last with conclusion := some "failure" }]

theorem redIn_failed (earlier : List Attempt) (last : Attempt) :
    redIn (failed earlier last) =
      redIn earlier ++ [{ last with conclusion := some "failure" }] := by
  simp [redIn, failed]

end Trail

def QueueEntry.reddened (entry : QueueEntry) : QueueEntry :=
  { entry with attempts := concludeLast entry.attempts fun _ => some "failure" }

section Retry

variable {entry built : QueueEntry} {earlier : List Attempt} {last : Attempt}

section Trail

variable (htrail : Trail entry earlier last)
include htrail

theorem Trail.reddened_attempts : entry.reddened.attempts = Trail.failed earlier last := by
  simp only [QueueEntry.reddened, htrail.attempts, concludeLast_append]
  rfl

theorem Trail.reddened_red :
    entry.reddened.red = entry.red ++ [{ last with conclusion := some "failure" }] := by
  rw [htrail.red_eq, ← Trail.redIn_failed, ← htrail.reddened_attempts]
  rfl

theorem Trail.reddened_redCommits :
    entry.reddened.redCommits = entry.redCommits ++ [entry.queueSha] := by
  rw [QueueEntry.redCommits, htrail.reddened_red, map_append, QueueEntry.redCommits]
  simp [htrail.queueSha]

theorem Trail.nodup_reddened (hdistinct : Distinct entry) : entry.reddened.redCommits.Nodup := by
  rw [htrail.reddened_redCommits, ← concat_eq_append]
  exact hdistinct.nodup.concat hdistinct.fresh

theorem Trail.retried (hspare : entry.reddened.red.length < maxAttempts) {parent : Sha}
    {build : Build} (hbuilt : buildOn entry.reddened parent build = .ok built) :
    ∃ before after, Trail built before after := by
  obtain ⟨sha, _, rfl⟩ := buildOn_eq_ok hbuilt
  refine ⟨_, _, ⟨by rw [htrail.reddened_attempts], rfl, rfl, rfl, ?_, ?_, ?_⟩⟩
  · intro attempt hattempt
    rcases mem_append.mp hattempt with hold | hnew
    · exact htrail.concluded attempt hold
    · obtain rfl := mem_singleton.mp hnew
      exact .inr rfl
  · simpa [supersededIn, Trail.failed, superseded] using htrail.once
  · rw [Trail.redIn_failed, ← htrail.red_eq, ← htrail.reddened_red]
    exact hspare

theorem Trail.exhausted (hdistinct : Distinct entry)
    (hlast : ¬ (entry.reddened.red.length < maxAttempts ∧ entry.queueSha ≠ entry.prHeadSha))
    (reason : String) : Exhausted (entry.reddened.finish .failed reason) := by
  by_cases hhead : entry.queueSha = entry.prHeadSha
  · exact .inr hhead
  · refine .inl ⟨?_, htrail.nodup_reddened hdistinct⟩
    have hfull : ¬ entry.reddened.red.length < maxAttempts := fun hspare =>
      hlast ⟨hspare, hhead⟩
    have hspare := htrail.spare
    have hlength : entry.reddened.red.length = (redIn earlier).length + 1 := by
      rw [htrail.reddened_red, htrail.red_eq, length_append, length_singleton]
    change entry.reddened.red.length = maxAttempts
    omega

end Trail

end Retry

/-- What is known of an entry: while it is building its attempts are in order, and it
failed on red gates only when it had to.  `more` is what else is known while it is
building. -/
structure Tracked (more : QueueEntry → Prop) (entry : QueueEntry) : Prop where
  trail : entry.state = .building → ∃ earlier last, Trail entry earlier last
  distinct : entry.state = .building → Distinct entry
  more : entry.state = .building → more entry
  exhausted : entry.FailedRed → Exhausted entry

variable {entry built : QueueEntry} {parent : Sha}

variable {more less : QueueEntry → Prop} {queue : Queue} {build : Build} {used : List Sha}

theorem tracked_of_idle (hidle : entry.state ≠ .building)
    (hexhausted : entry.FailedRed → Exhausted entry) : Tracked more entry where
  trail hbuilding := absurd hbuilding hidle
  distinct hbuilding := absurd hbuilding hidle
  more hbuilding := absurd hbuilding hidle
  exhausted := hexhausted

theorem tracked_of_left (hleft : entry.Left) : Tracked more entry :=
  tracked_of_idle hleft.idle fun hred => absurd hred hleft.notRed

/-- What a build leaves as it was, and the commit it made. -/
theorem buildOn_kept (hbuilt : buildOn entry parent build = .ok built) :
    built.state = entry.state ∧ built.prHeadSha = entry.prHeadSha ∧
      built.redCommits = entry.redCommits ∧ build.replay = .ok built.queueSha := by
  obtain ⟨sha, hreplay, rfl⟩ := buildOn_eq_ok hbuilt
  exact ⟨rfl, rfl, by simp [QueueEntry.redCommits, QueueEntry.red], hreplay⟩

theorem tracked_of_buildOn
    (hbuilt : buildOn entry parent build = .ok built) (hbuilding : entry.state = .building)
    (htrail : ∃ earlier last, Trail built earlier last) (hdistinct : Distinct built)
    (hmore : more built) : Tracked more built where
  trail _ := htrail
  distinct _ := hdistinct
  more _ := hmore
  exhausted hfailed :=
    nomatch hfailed.1.symm.trans ((buildOn_kept hbuilt).1.trans hbuilding)

theorem Tracked.mono
    (htracked : Tracked more entry) (himp : more entry → less entry) : Tracked less entry where
  trail := htracked.trail
  distinct := htracked.distinct
  more hbuilding := himp (htracked.more hbuilding)
  exhausted := htracked.exhausted

theorem tracked_admits (more : Key → QueueEntry → Prop)
    (hafter : ∀ key entry after, more key entry → more key { entry with after := after }) :
    Admits fun key old new => Tracked (more key) old → Tracked (more key) new := by
  refine ⟨fun hfirst hsecond htracked => hsecond (hfirst htracked),
    fun {key entry next} hturned htracked => ?_⟩
  cases hturned with
  | left _ hleft => exact tracked_of_left hleft
  | after after =>
    refine ⟨fun hbuilding => ?_, fun hbuilding => ?_, fun hbuilding => ?_, htracked.exhausted⟩
    · obtain ⟨earlier, last, htrail⟩ := htracked.trail hbuilding
      exact ⟨earlier, last, htrail.attempts, htrail.opened, htrail.queueSha, htrail.baseSha,
        htrail.concluded, htrail.once, htrail.spare⟩
    · have hdistinct := htracked.distinct hbuilding
      exact ⟨hdistinct.nodup, hdistinct.fresh, hdistinct.head⟩
    · exact hafter key entry after (htracked.more hbuilding)

/-! ## Commits that were used -/

def QueueEntry.spent (entry : QueueEntry) (build : Build) : List Sha :=
  entry.queueSha :: build.commits ++ entry.redCommits

def Build.Avoids (build : Build) (used : List Sha) (head : Sha) : Prop :=
  ∀ sha ∈ build.commits, sha ∈ used → sha = head

instance (build : Build) (used : List Sha) (head : Sha) : Decidable (build.Avoids used head) :=
  inferInstanceAs (Decidable (∀ sha ∈ build.commits, sha ∈ used → sha = head))

@[mk_iff]
structure Fresh (answers : StackAnswers) (key : Key) (entry : QueueEntry) : Prop where
  rebuild : (answers.rebuild key).Avoids entry.redCommits entry.prHeadSha
  retry : answers.retry.Avoids (entry.spent (answers.rebuild key)) entry.prHeadSha
  rebuildAgain :
    (answers.rebuildAgain key).Avoids (entry.spent (answers.rebuild key)) entry.prHeadSha

instance (answers : StackAnswers) (key : Key) (entry : QueueEntry) :
    Decidable (Fresh answers key entry) :=
  decidable_of_iff' _ (fresh_iff answers key entry)

def StackFresh (queue : Queue) (keys : List Key) (answers : StackAnswers) : Prop :=
  ∀ key ∈ keys, ∀ entry ∈ queue.entries.get? key, Fresh answers key entry

instance (queue : Queue) (keys : List Key) (answers : StackAnswers) :
    Decidable (StackFresh queue keys answers) :=
  inferInstanceAs (Decidable (∀ key ∈ _, ∀ entry ∈ _, _))

theorem StackFresh.congr {next : Queue} {keys : List Key} {answers : StackAnswers}
    (hfresh : StackFresh queue keys answers)
    (hsame : ∀ key ∈ keys, next.entries.get? key = queue.entries.get? key) :
    StackFresh next keys answers := by
  intro key hkey entry hentry
  rw [hsame key hkey] at hentry
  exact hfresh key hkey entry hentry

def Since (old : Queue) (rebuild : Key → Build) (key : Key) (entry : QueueEntry) : Prop :=
  ∃ before, old.entries.get? key = some before ∧ entry.prHeadSha = before.prHeadSha ∧
    entry.redCommits ⊆ before.spent (rebuild key)

def SinceCheck (old : Queue) (rebuild : Key → Build) (key : Key) (entry : QueueEntry) : Prop :=
  ∃ before, old.entries.get? key = some before ∧ entry.prHeadSha = before.prHeadSha ∧
    entry.redCommits ⊆ before.redCommits ∧ entry.queueSha ∈ before.spent (rebuild key)

theorem SinceCheck.since {old : Queue} {rebuild : Key → Build} {key : Key}
    (hsince : SinceCheck old rebuild key entry) : Since old rebuild key entry := by
  obtain ⟨before, hbefore, hhead, hred, _⟩ := hsince
  exact ⟨before, hbefore, hhead, List.Subset.trans hred (subset_append_right _ _)⟩

theorem Distinct.rebuilt (hdistinct : Distinct entry)
    (hred : built.redCommits = entry.redCommits) (hhead : built.prHeadSha = entry.prHeadSha)
    (hreplay : build.replay = .ok built.queueSha) (havoids : build.Avoids used entry.prHeadSha)
    (hused : entry.redCommits ⊆ used) : Distinct built where
  nodup := hred ▸ hdistinct.nodup
  fresh := by
    rw [hred]
    intro hmem
    -- a commit that was red can only be the head, and the head was not
    have hishead := havoids _ (Build.mem_commits hreplay) (hused hmem)
    exact hdistinct.head (hishead ▸ hmem)
  head := by
    rw [hred, hhead]
    exact hdistinct.head

theorem Tracked.rebuilt (htracked : Tracked more entry) (hbuilding : entry.state = .building)
    (hbuilt : buildOn entry.supersede parent build = .ok built)
    (havoids : build.Avoids used entry.prHeadSha) (hused : entry.redCommits ⊆ used)
    (hless : built.redCommits = entry.redCommits → built.prHeadSha = entry.prHeadSha →
      built.queueSha ∈ build.commits → less built) : Tracked less built := by
  obtain ⟨earlier, last, htrail⟩ := htracked.trail hbuilding
  have hred : built.redCommits = entry.redCommits := by
    rw [QueueEntry.redCommits, htrail.rebuilt_red hbuilt, QueueEntry.redCommits]
  obtain ⟨-, hhead, -, hsha⟩ := buildOn_kept hbuilt
  have hdistinct := (htracked.distinct hbuilding).rebuilt hred hhead hsha havoids hused
  exact tracked_of_buildOn hbuilt hbuilding (htrail.rebuilt hbuilt) hdistinct
    (hless hred hhead (Build.mem_commits hsha))

theorem Tracked.retried (htracked : Tracked more entry)
    (hbuilding : entry.state = .building) (havoids : build.Avoids used entry.prHeadSha)
    (hused : entry.reddened.redCommits ⊆ used)
    (hless : ∀ built, built.redCommits = entry.reddened.redCommits →
      built.prHeadSha = entry.prHeadSha → less built) :
    Tracked less (retryOrFail entry build).1 := by
  obtain ⟨earlier, last, htrail⟩ := htracked.trail hbuilding
  have hdistinct := htracked.distinct hbuilding
  have hreddened : { entry with attempts := concludeLast entry.attempts fun _ => some "failure" } =
      entry.reddened := rfl
  unfold retryOrFail
  simp only [hreddened]
  split_ifs with hretry
  · cases hbuilt : buildOn entry.reddened entry.baseSha build with
    | error failure => exact tracked_of_left (left_finish_dequeued _ _)
    | ok built =>
      obtain ⟨-, hhead, hred, hsha⟩ := buildOn_kept hbuilt
      have hreddened : Distinct { entry.reddened with queueSha := built.queueSha } := by
        have hprhead : entry.prHeadSha ∉ entry.reddened.redCommits := by
          rw [htrail.reddened_redCommits]
          simpa using ⟨hdistinct.head, Ne.symm hretry.2⟩
        refine ⟨htrail.nodup_reddened hdistinct, fun hmem => ?_, hprhead⟩
        have hishead := havoids _ (Build.mem_commits hsha) (hused hmem)
        exact hprhead (hishead ▸ hmem)
      exact tracked_of_buildOn hbuilt hbuilding (htrail.retried hretry.1 hbuilt)
        (hreddened.rebuilt hred hhead hsha havoids hused) (hless built hred hhead)
  · exact tracked_of_idle (by simp [QueueEntry.finish]) fun _ => htrail.exhausted hdistinct hretry _

section Stack

variable {current : Queue} {base : String} {keys : List Key} {answers : StackAnswers}

abbrev Kept (_ : Key) : QueueEntry → Prop :=
  Tracked fun _ => True

theorem all_sinceCheck (hall : current.All Kept) :
    current.All fun key => Tracked (SinceCheck current answers.rebuild key) := by
  intro key entry hentry
  refine (hall key entry hentry).mono fun _ => ?_
  exact ⟨entry, hentry, rfl, List.Subset.refl _, by simp [QueueEntry.spent]⟩

variable {key : Key}

section StackFresh

variable (hfresh : StackFresh current keys answers)
include hfresh

theorem builds_sinceCheck (hkey : key ∈ keys) :
    Builds (fun key old new => Tracked (SinceCheck current answers.rebuild key) old →
      Tracked (SinceCheck current answers.rebuild key) new) answers.rebuild key := by
  intro entry parent built hbuilding hbuilt htracked
  obtain ⟨before, hbefore, hhead, hred, _⟩ := htracked.more hbuilding
  have havoids := (hfresh key hkey before hbefore).rebuild
  rw [← hhead] at havoids
  refine htracked.rebuilt hbuilding hbuilt havoids hred fun hsame hkept hcommit => ?_
  refine ⟨before, hbefore, hkept.trans hhead, hsame ▸ hred, ?_⟩
  exact mem_cons_of_mem _ (mem_append_left _ hcommit)

theorem retried_since (hkey : key ∈ keys)
    {entry : QueueEntry} (htracked : Tracked (SinceCheck current answers.rebuild key) entry)
    (hbuilding : entry.state = .building) :
    Tracked (Since current answers.rebuild key) (retryOrFail entry answers.retry).1 := by
  obtain ⟨before, hbefore, hhead, hred, hcommit⟩ := htracked.more hbuilding
  obtain ⟨earlier, last, htrail⟩ := htracked.trail hbuilding
  have havoids := (hfresh key hkey before hbefore).retry
  rw [← hhead] at havoids
  have hused : entry.reddened.redCommits ⊆ before.spent (answers.rebuild key) := by
    rw [htrail.reddened_redCommits]
    refine append_subset.mpr ⟨?_, by simpa using hcommit⟩
    exact List.Subset.trans hred (subset_append_right _ _)
  exact htracked.retried hbuilding havoids hused fun built hsame hkept =>
    ⟨before, hbefore, hkept.trans hhead, hsame ▸ hused⟩

theorem buildsAgain_since (hkey : key ∈ keys) :
    Builds (fun key old new => Tracked (Since current answers.rebuild key) old →
      Tracked (Since current answers.rebuild key) new) answers.rebuildAgain key := by
  intro entry parent built hbuilding hbuilt htracked
  obtain ⟨before, hbefore, hhead, hred⟩ := htracked.more hbuilding
  have havoids := (hfresh key hkey before hbefore).rebuildAgain
  rw [← hhead] at havoids
  exact htracked.rebuilt hbuilding hbuilt havoids hred fun hsame hkept _ =>
    ⟨before, hbefore, hkept.trans hhead, hsame ▸ hred⟩

theorem settleStack_since {queue settled : Queue}
    {stack : List Gated} (hstack : ∀ key ∈ stack.map Gated.key, key ∈ keys)
    (hbuilding : ∀ key ∈ stack.map Gated.key, queue.isBuilding key)
    (hall : queue.All fun key => Tracked (SinceCheck current answers.rebuild key))
    (hsettled : settleStack queue stack answers = some settled) :
    settled.All fun key => Tracked (Since current answers.rebuild key) := by
  have himp : ∀ key entry, Tracked (SinceCheck current answers.rebuild key) entry →
      Tracked (Since current answers.rebuild key) entry :=
    fun _ _ htracked => htracked.mono SinceCheck.since
  rcases settleStack_cases hsettled with ⟨bottom, hbottom, rfl⟩ | rfl
  · refine hall.retryBottom himp fun entry hentry => ?_
    obtain ⟨found, hfound, hstate⟩ := isBuilding_iff.mp (hbuilding bottom hbottom)
    obtain rfl : found = entry := Option.some.inj (hfound.symm.trans hentry)
    exact retried_since hfresh (hstack bottom hbottom) (hall bottom found hentry) hstate
  · have hadmits := tracked_admits (Since current answers.rebuild) fun _ _ _ hsince => hsince
    exact (hall.mono himp).rewrite (Rewrites.landStack hadmits _ _ _)

end StackFresh

theorem advanceStack_kept (hall : current.All Kept) (hfresh : StackFresh current keys answers) :
    (advanceStack current base keys answers).All Kept := by
  have hlive : ∀ queue required, ∀ key ∈ live queue required keys, key ∈ keys :=
    fun queue required => live_subset queue required keys
  have hfirst := tracked_admits (SinceCheck current answers.rebuild) fun _ _ _ hsince => hsince
  have hsecond := tracked_admits (Since current answers.rebuild) fun _ _ _ hsince => hsince
  let checked := checkStack current keys answers.pull
  have hchecked := (all_sinceCheck hall).rewrite
    (Rewrites.checkStack hfirst current keys answers.pull)
  have hrestacked : (restack checked.queue base (live checked.queue checked.required keys)
      answers.tip answers.rebuild).All
        fun key => Tracked (SinceCheck current answers.rebuild key) :=
    hchecked.rewrite (Rewrites.restack hfirst fun key hkey =>
      builds_sinceCheck hfresh (hlive checked.queue checked.required key hkey))
  unfold advanceStack
  dsimp only
  split
  · exact hrestacked.mono fun _ _ htracked => htracked.mono fun _ => trivial
  next settled hsettled =>
    have hsettledAll : settled.All fun key => Tracked (Since current answers.rebuild key) := by
      refine settleStack_since hfresh ?_ ?_ hrestacked hsettled
      · rw [map_key_gatedStack]
        exact hlive _ _
      · rw [map_key_gatedStack]
        intro key hkey
        exact (Bool.and_eq_true_iff.mp (mem_filter.mp hkey).2).2
    refine (hsettledAll.rewrite (Rewrites.restack hsecond fun key hkey => ?_)).mono
      fun _ _ htracked => htracked.mono fun _ => trivial
    exact buildsAgain_since hfresh (hlive settled checked.required key hkey)

end Stack

def TickFresh (queue : Queue) (answers : TickAnswers) : Prop :=
  ∀ id ∈ queue.stackIds answers,
    StackFresh queue (queue.stackKeys answers id) (answers.stack id)

def Rebuilt (queue : Queue) : Action → Prop
  | .tick answers => TickFresh queue answers
  | .enqueue _ _ | .dequeue _ _ => True

instance (queue : Queue) : (action : Action) → Decidable (Rebuilt queue action)
  | .tick _ => inferInstanceAs (Decidable (∀ id ∈ _, _))
  | .enqueue .. | .dequeue .. => isTrue trivial

theorem kept_of_buildOn {key : Key} {entry built : QueueEntry} {parent : Sha}
    (hnone : entry.attempts = []) (hbuilding : entry.state = .building)
    (hbuilt : buildOn entry parent build = .ok built) : Kept key built := by
  have hred : built.redCommits = [] := by
    rw [(buildOn_kept hbuilt).2.2.1]
    simp [QueueEntry.redCommits, QueueEntry.red, hnone]
  refine tracked_of_buildOn hbuilt hbuilding ?_ ⟨by simp [hred], by simp [hred], by simp [hred]⟩
    trivial
  obtain ⟨sha, _, rfl⟩ := buildOn_eq_ok hbuilt
  exact ⟨[], _, by rw [hnone], rfl, rfl, rfl, by simp, by simp [supersededIn],
    by simp [redIn, maxAttempts]⟩

theorem join_kept (hall : queue.All Kept) (key : Key) (pull : Pull) (answers : EnqueueAnswers) :
    (join queue key pull answers).1.All Kept := by
  unfold join
  dsimp only
  split
  next built hbuilt =>
    obtain ⟨parent, hbuild⟩ := buildNew_eq_ok hbuilt
    exact hall.put (kept_of_buildOn rfl rfl hbuild)
  · exact hall.put (tracked_of_left
      (left_of_state (by simp [refusedEntry]) (by simp [refusedEntry])))

theorem act_kept {action : Action} (hall : queue.All Kept) (hrebuilt : Rebuilt queue action) :
    (act queue action).All Kept := by
  cases action with
  | enqueue key answers =>
    rcases enqueue_cases queue key answers with hsame | ⟨pull, _, _, hjoin⟩
    · simpa [act, hsame] using hall
    · simpa [act, hjoin] using join_kept hall key pull answers
  | dequeue key answers =>
    rcases dequeue_cases queue key answers with hsame | ⟨entry, reason, _, hput⟩
    · simpa [act, hsame] using hall
    · rw [act, hput]
      exact hall.put (tracked_of_left (left_finish_dequeued entry reason))
  | tick answers =>
    refine tick_invariant hall fun current id hid hcurrent hsame => ?_
    exact advanceStack_kept hcurrent ((hrebuilt id hid).congr hsame)

structure Tried (entry : QueueEntry) : Prop where
  last : ∃ attempt, entry.attempts.getLast? = some attempt ∧ attempt.conclusion = none ∧
    attempt.queueSha = entry.queueSha ∧ attempt.baseSha = entry.baseSha
  superseded : (supersededIn entry.attempts).length ≤ 1
  length : entry.attempts.length ≤ maxAttempts + 1

theorem Trail.tried {entry : QueueEntry} {earlier : List Attempt} {last : Attempt}
    (htrail : Trail entry earlier last) : Tried entry where
  last := ⟨last, by simp [htrail.attempts], htrail.opened, htrail.queueSha, htrail.baseSha⟩
  superseded := htrail.superseded_le
  length := htrail.length_le

/-- In a run in which no rebuild is a commit that was red before, the attempts of every
building entry are in order, and an entry fails for red gates only if they were red on as
many different commits as are tried, or on its own head. -/
theorem run_attempts {actions : List Action} {final : Queue}
    (hrebuilt : machine.Meets Rebuilt actions) (hrun : machine.run actions = some final) :
    ∀ key entry, final.entries.get? key = some entry →
      (entry.state = .building → Tried entry) ∧ (entry.FailedRed → Exhausted entry) := by
  have hall : final.All Kept := by
    refine machine.run_invariant (motive := Queue.All Kept) ?_ ?_ hrebuilt hrun
    · intro key entry hentry
      cases hentry
    · intro queue action next hqueue haction hstep
      obtain rfl : act queue action = next := Option.some.inj hstep
      exact act_kept hqueue haction
  intro key entry hentry
  have htracked := hall key entry hentry
  refine ⟨fun hbuilding => ?_, htracked.exhausted⟩
  obtain ⟨earlier, last, htrail⟩ := htracked.trail hbuilding
  exact htrail.tried

/-- A tick that finds the base at a tip: the gates of the commits `1` and `4` are red, those
of other commits undecided. -/
def redTick (tip retried rebuilt : Char) : Action :=
  .tick
    { unloaded := fun _ _ => false
      stack := fun _ => { onTip (.ok (some (commitOf tip))) fun _ sha _ =>
          if sha = commitOf '1' ∨ sha = commitOf '4' then some false else none with
        rebuild := fun _ => { replay := .ok (commitOf rebuilt), time := "" }
        retry := { replay := .ok (commitOf retried), time := "" } } }

def thereAndBack (again : Char) : List Action :=
  [queued 1 '1', redTick '0' '2' '9', redTick '5' '9' '3', redTick '0' '9' again]

def failedEntry (again : Char) : QueueEntry :=
  { newEntry (thirdOf 1) (openPull 1) (joinAnswers 1 '1') with
    baseSha := commitOf '0'
    queueSha := commitOf again
    state := .failed
    attempts :=
      [{ queueSha := commitOf '1', baseSha := commitOf '0', conclusion := some "failure",
         time := "" },
       { queueSha := commitOf '3', baseSha := commitOf '5', conclusion := some superseded,
         time := "" },
       { queueSha := commitOf again, baseSha := commitOf '0', conclusion := some "failure",
         time := "" }]
    reason := some ("the gate failed on " ++ (commitOf '1' ++ " and " ++ commitOf again)) }

/-- The replay on the old tip is the commit that was red: its one red gate fails the
entry. -/
theorem thereAndBack_failsOnOneCommit :
    ∃ final entry, machine.run (thereAndBack '1') = some final ∧
      final.entries.get? (thirdOf 1) = some entry ∧ entry.FailedRed ∧
      entry.redCommits = [commitOf '1', commitOf '1'] ∧ ¬ Exhausted entry := by
  have hentry : (machine.run (thereAndBack '1')).bind (fun final =>
      final.entries.get? (thirdOf 1)) = some (failedEntry '1') := by decide +kernel
  obtain ⟨final, hrun, hget⟩ := Option.bind_eq_some_iff.mp hentry
  refine ⟨final, failedEntry '1', hrun, hget, ⟨rfl, _, rfl⟩, rfl, ?_⟩
  rintro (⟨_, hnodup⟩ | hhead)
  · exact absurd hnodup (by decide)
  · exact absurd hhead (by decide)

/-- The replay on the old tip is a new commit, and red as well. -/
theorem run_attempts_thereAndBack :
    ∃ final entry, machine.Meets Rebuilt (thereAndBack '4') ∧
      machine.run (thereAndBack '4') = some final ∧
      final.entries.get? (thirdOf 1) = some entry ∧
      (entry.state = .building → Tried entry) ∧ (entry.FailedRed → Exhausted entry) ∧
      entry.redCommits = [commitOf '1', commitOf '4'] := by
  have hentry : (machine.run (thereAndBack '4')).bind (fun final =>
      final.entries.get? (thirdOf 1)) = some (failedEntry '4') := by decide +kernel
  have hrebuilt : machine.Meets Rebuilt (thereAndBack '4') := by decide +kernel
  obtain ⟨final, hrun, hget⟩ := Option.bind_eq_some_iff.mp hentry
  obtain ⟨htried, hexhausted⟩ := run_attempts hrebuilt hrun _ _ hget
  exact ⟨final, _, hrebuilt, hrun, hget, htried, hexhausted, rfl⟩

end JeryuForge.MergeQueue
