import JeryuForge.MergeQueue.Tick

/-!
# What a landing carries

A batch that lands should be a chain: its bottom entry sits on the old tip, each next
one on the commit of the one below it.  Then the replays between the old tip and the new
one are those of its members and no others.
-/

namespace JeryuForge.MergeQueue

def Queue.Recorded (queue : Queue) : Prop :=
  ∀ key entry, queue.entries.get? key = some entry → entry.state = .building →
    entry.commit ∈ queue.commits

structure Edits (keys : List Key) (queue next : Queue) : Prop where
  frame : ∀ key ∉ keys, next.entries.get? key = queue.entries.get? key
  moves : next.moves = queue.moves
  commits : queue.commits ⊆ next.commits
  recorded : queue.Recorded → next.Recorded

namespace Edits

variable {keys : List Key} {first queue next : Queue}

theorem refl (keys : List Key) (queue : Queue) : Edits keys queue queue where
  frame _ _ := rfl
  moves := rfl
  commits := List.Subset.refl _
  recorded hrecorded := hrecorded

theorem trans (hfirst : Edits keys first queue) (hsecond : Edits keys queue next) :
    Edits keys first next where
  frame key hkey := (hsecond.frame key hkey).trans (hfirst.frame key hkey)
  moves := hsecond.moves.trans hfirst.moves
  commits := List.Subset.trans hfirst.commits hsecond.commits
  recorded hrecorded := hsecond.recorded (hfirst.recorded hrecorded)

variable {entry : QueueEntry} {key : Key}

theorem insert (hkey : key ∈ keys) (hentries : next.entries = queue.entries.insert key entry)
    (hmoves : next.moves = queue.moves) (hcommits : queue.commits ⊆ next.commits)
    (hentry : queue.Recorded → entry.state = .building → entry.commit ∈ next.commits) :
    Edits keys queue next where
  frame other hother := by
    rw [hentries]
    exact OrdMap.get?_insert_of_ne _ _ fun hsame => hother (hsame ▸ hkey)
  moves := hmoves
  commits := hcommits
  recorded := by
    intro hrecorded other found hfound hbuilding
    rcases OrdMap.get?_insert_eq_some (hentries ▸ hfound) with ⟨rfl, rfl⟩ | ⟨_, hold⟩
    · exact hentry hrecorded hbuilding
    · exact hcommits (hrecorded other found hold hbuilding)

theorem put_idle (hkey : key ∈ keys) (hidle : entry.state ≠ .building) :
    Edits keys queue (queue.put key entry) :=
  insert hkey rfl rfl (List.Subset.refl _) fun _ hbuilding => absurd hbuilding hidle

theorem put_same {old : QueueEntry} (hkey : key ∈ keys) (hold : queue.entries.get? key = some old)
    (hstate : entry.state = old.state) (hcommit : entry.commit = old.commit) :
    Edits keys queue (queue.put key entry) :=
  insert hkey rfl rfl (List.Subset.refl _) fun hrecorded hbuilding =>
    hcommit ▸ hrecorded key old hold (hstate ▸ hbuilding)

theorem putBuilt (hkey : key ∈ keys) : Edits keys queue (queue.putBuilt key entry) :=
  insert hkey rfl rfl (List.subset_append_left _ _) fun _ _ => by simp [Queue.putBuilt]

theorem persist (hedits : Edits keys queue next) : Edits keys queue (next.persist key entry) :=
  ⟨hedits.frame, hedits.moves, hedits.commits, hedits.recorded⟩

end Edits

theorem stillQueued_idle {entry next : QueueEntry} {read : Option Pull}
    (hleft : stillQueued entry read = .left next) : next.state ≠ .building := by
  unfold stillQueued at hleft
  split at hleft
  · cases hleft
  · split_ifs at hleft <;> cases hleft <;> simp [QueueEntry.finish]

theorem buildOn_ok {entry built : QueueEntry} {parent : Sha} {build : Build}
    (hbuilt : buildOn entry parent build = .ok built) :
    built.baseSha = parent ∧ built.state = entry.state := by
  unfold buildOn at hbuilt
  split at hbuilt
  · cases hbuilt
  · cases hbuilt
    exact ⟨rfl, rfl⟩

theorem retryOrFail_idle {entry failed : QueueEntry} {build : Build}
    (hretry : retryOrFail entry build = (failed, false)) : failed.state ≠ .building := by
  unfold retryOrFail at hretry
  dsimp only at hretry
  split at hretry
  · split at hretry
    · cases hretry
      simp [QueueEntry.finish]
    · cases hretry
  · cases hretry
    simp [QueueEntry.finish]

theorem landedEntry_idle (landing : BatchLanding) (top : Nat) (own : Option Bool)
    (entry : QueueEntry) : (landedEntry landing top own entry).state ≠ .building := by
  unfold landedEntry
  split
  · simp [QueueEntry.finish]
  · simp [landed, QueueEntry.finish]

section Parts

variable {keys stack : List Key} {queue : Queue} {key : Key} {rebuild : Key → Build}

theorem checkKey_edits {pulls : Key → Option Pull} {checked : Checked} (hkey : key ∈ keys) :
    Edits keys checked.queue (checkKey pulls checked key).queue := by
  unfold checkKey
  split
  · exact Edits.refl ..
  · split
    · exact Edits.refl ..
    next hleft =>
      exact (Edits.put_idle hkey (stillQueued_idle hleft)).persist
    · exact Edits.refl ..

theorem checkStack_edits (queue : Queue) (keys : List Key) (pulls : Key → Option Pull) :
    Edits keys queue (checkStack queue keys pulls).queue :=
  List.foldlRecOn (motive := fun checked : Checked => Edits keys queue checked.queue) keys _
    (Edits.refl keys queue) fun _ hkept _ hmem => hkept.trans (checkKey_edits hmem)

theorem restackKey_edits {place : Place} (hkey : key ∈ keys) :
    Edits keys queue (restackKey rebuild queue key place).1 := by
  unfold restackKey
  split
  · exact Edits.refl ..
  next entry hentry =>
    obtain ⟨hget, hbuilding⟩ := Option.filter_eq_some_iff.mp hentry
    unfold restackEntry
    split_ifs
    · cases buildOn entry.supersede place.parent (rebuild key) with
      | error failure => exact (Edits.put_idle hkey (by simp [QueueEntry.finish])).persist
      | ok built => exact (Edits.putBuilt hkey).persist
    · exact Edits.persist (Edits.put_same hkey hget rfl rfl)
    · exact Edits.refl ..

theorem restackFrom_edits {place : Place} (hstack : stack ⊆ keys) :
    Edits keys queue (restackFrom rebuild queue place stack) := by
  induction stack generalizing queue place with
  | nil => exact Edits.refl ..
  | cons key rest ih =>
    obtain ⟨hkey, hrest⟩ := List.cons_subset.mp hstack
    exact (restackKey_edits hkey).trans (ih hrest)

theorem restack_edits {base : String} {read : TipRead} (hstack : stack ⊆ keys) :
    Edits keys queue (restack queue base stack read rebuild) := by
  unfold restack
  split
  · exact Edits.refl ..
  · exact restackFrom_edits hstack

theorem retryBottom_edits {build : Build} (hkey : key ∈ keys) :
    Edits keys queue (retryBottom queue key build) := by
  unfold retryBottom
  split
  · exact Edits.refl ..
  · split
    · exact (Edits.putBuilt hkey).persist
    next hretry =>
      exact (Edits.put_idle hkey (retryOrFail_idle hretry)).persist

theorem refuseMember_edits {number : Nat} {problem : MemberProblem} (hstack : stack ⊆ keys) :
    Edits keys queue (refuseMember queue stack number problem) := by
  unfold refuseMember
  split
  · exact Edits.refl ..
  next key hfind =>
    have hkey : key ∈ keys := hstack (List.mem_of_find?_eq_some hfind)
    split
    · exact Edits.refl ..
    · exact (Edits.put_idle hkey (by simp [QueueEntry.finish])).persist
    · exact (Edits.put_idle hkey (by simp [QueueEntry.finish])).persist
    · exact Edits.refl ..

theorem recordLanded_edits {landing : BatchLanding} {top : Nat} {gated : Gated}
    (hkey : gated.key ∈ keys) : Edits keys queue (recordLanded landing top queue gated) := by
  unfold recordLanded
  split
  · exact Edits.refl ..
  · exact (Edits.put_idle hkey (landedEntry_idle _ _ _ _)).persist

theorem foldl_recordLanded_edits {landing : BatchLanding} {top : Nat} {stack : List Gated}
    (hstack : stack.map Gated.key ⊆ keys) :
    Edits keys queue (stack.foldl (recordLanded landing top) queue) :=
  List.foldlRecOn (motive := fun current : Queue => Edits keys queue current) stack _
    (Edits.refl keys queue) fun _ hkept _ hmem =>
      hkept.trans (recordLanded_edits (hstack (List.mem_map_of_mem hmem)))

end Parts

open List

def OnTop (below above : QueueEntry) : Prop :=
  above.baseSha = below.queueSha

instance (below above : QueueEntry) : Decidable (OnTop below above) :=
  inferInstanceAs (Decidable (above.baseSha = below.queueSha))

structure Linked (tip : Sha) (members : List QueueEntry) : Prop where
  bottom : ∀ entry ∈ members.head?, entry.baseSha = tip
  chain : members.IsChain OnTop

variable {tip : Sha} {commits : List Commit} {keys : List Key} {next queue : Queue}

variable {entry : QueueEntry} {more : List Commit} {members : List QueueEntry}

theorem linked_cons_iff {rest : List QueueEntry} :
    Linked tip (entry :: rest) ↔ entry.baseSha = tip ∧ Linked entry.queueSha rest := by
  constructor
  · intro hlinked
    obtain ⟨habove, hrest⟩ := isChain_cons.mp hlinked.chain
    exact ⟨hlinked.bottom entry (by simp), habove, hrest⟩
  · rintro ⟨hbase, hrest⟩
    refine ⟨?_, isChain_cons.mpr ⟨hrest.bottom, hrest.chain⟩⟩
    simpa using hbase

def Carries (commits : List Commit) : Sha → List QueueEntry → Sha → Prop
  | tip, [], new => tip = new
  | tip, entry :: rest, new =>
    { parent := tip, head := entry.prHeadSha, sha := entry.queueSha } ∈ commits ∧
      Carries commits entry.queueSha rest new

theorem Carries.mono {new : Sha}
    (hcarries : Carries commits tip members new) (hmore : commits ⊆ more) :
    Carries more tip members new := by
  induction members generalizing tip with
  | nil => exact hcarries
  | cons entry rest ih => exact ⟨hmore hcarries.1, ih hcarries.2⟩

theorem Linked.carries
    (hlinked : Linked tip members) (hbuilt : ∀ entry ∈ members, entry.commit ∈ commits) :
    Carries commits tip members ((members.getLast?.map QueueEntry.queueSha).getD tip) := by
  induction members generalizing tip with
  | nil => rfl
  | cons entry rest ih =>
    obtain ⟨rfl, hrest⟩ := linked_cons_iff.mp hlinked
    refine ⟨hbuilt entry (by simp), ?_⟩
    have hcarries := ih hrest fun other hother => hbuilt other (by simp [hother])
    cases rest with
    | nil => exact hcarries
    | cons next others => simpa [getLast?_cons] using hcarries

structure Move.Sound (commits : List Commit) (move : Move) : Prop where
  building : ∀ entry ∈ move.members, entry.state = .building
  linked : Linked move.update.oldOid move.members
  carries : Carries commits move.update.oldOid move.members move.update.newOid

theorem Move.Sound.mono {move : Move}
    (hsound : move.Sound commits) (hmore : commits ⊆ more) : move.Sound more where
  building := hsound.building
  linked := hsound.linked
  carries := hsound.carries.mono hmore

structure Queue.Sound (queue : Queue) : Prop where
  recorded : queue.Recorded
  moves : ∀ move ∈ queue.moves, move.Sound queue.commits

theorem Queue.Sound.edit (hsound : queue.Sound) (hedits : Edits keys queue next) : next.Sound where
  recorded := hedits.recorded hsound.recorded
  moves move hmove :=
    (hsound.moves move (hedits.moves ▸ hmove)).mono hedits.commits

theorem members_congr (hsame : ∀ key ∈ keys, next.entries.get? key = queue.entries.get? key) :
    next.members keys = queue.members keys :=
  filterMap_congr hsame

theorem isBuilding_congr {key : Key} (hsame : next.entries.get? key = queue.entries.get? key) :
    next.isBuilding key = queue.isBuilding key := by
  unfold Queue.isBuilding
  rw [hsame]

theorem isBuilding_iff {key : Key} :
    queue.isBuilding key ↔
      ∃ entry, queue.entries.get? key = some entry ∧ entry.state = .building := by
  unfold Queue.isBuilding
  cases queue.entries.get? key <;> simp

/-- What restacking leaves of one key: nothing that is building, or an entry on the place
it was given, which gives the next place. -/
inductive Placed (queue : Queue) (key : Key) (place above : Place) : Prop where
  | left (hidle : queue.isBuilding key = false) (hplace : above = place)
  | built (entry : QueueEntry) (hget : queue.entries.get? key = some entry)
      (hbuilding : entry.state = .building) (hbase : entry.baseSha = place.parent)
      (habove : above = entry.place)

theorem restackKey_placed (rebuild : Key → Build) (queue : Queue) (key : Key) (place : Place) :
    Placed (restackKey rebuild queue key place).1 key place
      (restackKey rebuild queue key place).2 := by
  unfold restackKey
  split
  next hnone =>
    refine .left ?_ rfl
    unfold Queue.isBuilding
    cases hget : queue.entries.get? key with
    | none => rfl
    | some entry => simpa [hget] using hnone
  next entry hentry =>
    obtain ⟨hget, hstate⟩ := Option.filter_eq_some_iff.mp hentry
    have hbuilding : entry.state = .building := of_decide_eq_true hstate
    unfold restackEntry
    split_ifs with hmoved hnoted
    · cases hbuilt : buildOn entry.supersede place.parent (rebuild key) with
      | error failure =>
        refine .left ?_ rfl
        simp [Queue.isBuilding, Queue.put, Queue.persist, QueueEntry.finish]
      | ok built =>
        obtain ⟨hbase, hstate⟩ := buildOn_ok hbuilt
        exact .built { built with after := place.after } (OrdMap.get?_insert_self ..)
          (hstate.trans hbuilding) hbase rfl
    · exact .built { entry with after := place.after } (OrdMap.get?_insert_self ..)
        hbuilding (by simpa using (not_or.mp hmoved).1) rfl
    · exact .built entry hget hbuilding (by simpa using (not_or.mp hmoved).1) rfl

theorem restackFrom_linked {rebuild : Key → Build} {place : Place} (hnodup : keys.Nodup) :
    Linked place.parent
      ((restackFrom rebuild queue place keys).members
        (keys.filter (restackFrom rebuild queue place keys).isBuilding)) := by
  induction keys generalizing queue place with
  | nil => exact ⟨nofun, isChain_nil⟩
  | cons key rest ih =>
    obtain ⟨hkey, hrest⟩ := nodup_cons.mp hnodup
    simp only [restackFrom]
    generalize hstep : restackKey rebuild queue key place = step
    obtain ⟨next, above⟩ := step
    have hplaced : Placed next key place above := by
      simpa [hstep] using restackKey_placed rebuild queue key place
    -- the rest of the stack does not write this key again
    have hframe : (restackFrom rebuild next above rest).entries.get? key =
        next.entries.get? key :=
      (restackFrom_edits (List.Subset.refl rest)).frame key hkey
    have hlinked := @ih next above hrest
    cases hplaced with
    | left hidle hplace =>
      rw [filter_cons_of_neg (by rw [isBuilding_congr hframe, hidle]; simp)]
      exact hplace ▸ hlinked
    | built entry hget hbuilding hbase habove =>
      have hkept : (restackFrom rebuild next above rest).isBuilding key :=
        isBuilding_iff.mpr ⟨entry, hframe.trans hget, hbuilding⟩
      rw [filter_cons_of_pos hkept, Queue.members, filterMap_cons_some (hframe.trans hget)]
      subst habove
      exact linked_cons_iff.mpr ⟨hbase, hlinked⟩

end JeryuForge.MergeQueue
