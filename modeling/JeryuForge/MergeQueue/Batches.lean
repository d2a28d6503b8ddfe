import JeryuForge.MergeQueue.Chain

/-!
# Every batch of every run

A tick lands a chain whenever each of its stacks could be restacked, or needed no
restacking.  When the tip of a base cannot be read, the stack is left as it is and what
is green of it still lands.
-/

namespace JeryuForge.MergeQueue

open List

/-! ## The entries that pass their checks -/

def Pull.keeps (pull : Pull) (entry : QueueEntry) : Bool :=
  pull.isOpen && pull.headSha = entry.prHeadSha && pull.gatePasses

def Queue.passes (queue : Queue) (pulls : Key → Option Pull) (key : Key) : Bool :=
  (queue.entries.get? key).any fun entry => (pulls key).any fun pull => pull.keeps entry

theorem passes_congr {queue next : Queue} {pulls : Key → Option Pull} {key : Key}
    (hsame : next.entries.get? key = queue.entries.get? key) :
    next.passes pulls key = queue.passes pulls key := by
  unfold Queue.passes
  rw [hsame]

theorem stillQueued_iff (entry : QueueEntry) (read : Option Pull) :
    (∃ contexts, stillQueued entry read = .queued contexts) ↔
      read.any fun pull => pull.keeps entry := by
  cases read with
  | none => simp [stillQueued]
  | some pull =>
    simp only [stillQueued, Option.any_some, Pull.keeps]
    split_ifs <;> simp_all

/-- A key has been checked: it has required contexts exactly if it passes, and then its
entry is as it was. -/
structure CheckedAs (pulls : Key → Option Pull) (queue : Queue) (checked : Checked)
    (key : Key) : Prop where
  required : (checked.required.get? key).isSome = queue.passes pulls key
  entry : queue.passes pulls key → checked.queue.entries.get? key = queue.entries.get? key

section Check

variable {pulls : Key → Option Pull} {checked : Checked} {key other : Key}

theorem checkKey_self (hfresh : checked.required.get? key = none) :
    CheckedAs pulls checked.queue (checkKey pulls checked key) key := by
  unfold checkKey
  split
  next hnone =>
    exact ⟨by simp [hfresh, Queue.passes, hnone], fun _ => rfl⟩
  next entry hentry =>
    have hpasses := stillQueued_iff entry (pulls key)
    split <;> rename_i hstill <;> rw [hstill] at hpasses
    · exact ⟨by simpa [hfresh, Queue.passes, hentry] using hpasses, fun _ => rfl⟩
    · refine ⟨by simpa [hfresh, Queue.passes, hentry] using hpasses, fun hqueued => ?_⟩
      simp [Queue.passes, hentry, ← hpasses] at hqueued
    · exact ⟨by simpa [Queue.passes, hentry] using hpasses, fun _ => rfl⟩

theorem checkKey_other (hother : other ≠ key) :
    (checkKey pulls checked key).queue.entries.get? other =
        checked.queue.entries.get? other ∧
      (checkKey pulls checked key).required.get? other = checked.required.get? other := by
  unfold checkKey
  split
  · exact ⟨rfl, rfl⟩
  · split
    · exact ⟨rfl, rfl⟩
    · exact ⟨OrdMap.get?_insert_of_ne _ _ hother, rfl⟩
    · exact ⟨rfl, OrdMap.get?_insert_of_ne _ _ hother⟩

theorem foldl_checkKey_other {keys : List Key} (hother : other ∉ keys) :
    (keys.foldl (checkKey pulls) checked).queue.entries.get? other =
        checked.queue.entries.get? other ∧
      (keys.foldl (checkKey pulls) checked).required.get? other =
        checked.required.get? other := by
  induction keys generalizing checked with
  | nil => exact ⟨rfl, rfl⟩
  | cons key rest ih =>
    obtain ⟨hne, hrest⟩ : other ≠ key ∧ other ∉ rest := by simpa using hother
    obtain ⟨hentry, hrequired⟩ := checkKey_other hne
    obtain ⟨hentries, hcontexts⟩ := @ih (checkKey pulls checked key) hrest
    exact ⟨hentries.trans hentry, hcontexts.trans hrequired⟩

theorem foldl_checkKey_checkedAs {keys : List Key} (hnodup : keys.Nodup)
    (hfresh : ∀ key ∈ keys, checked.required.get? key = none) :
    ∀ key ∈ keys,
      CheckedAs pulls checked.queue (keys.foldl (checkKey pulls) checked) key := by
  induction keys generalizing checked with
  | nil => simp
  | cons head rest ih =>
    obtain ⟨hhead, hrest⟩ := nodup_cons.mp hnodup
    intro key hkey
    rcases mem_cons.mp hkey with rfl | hmem
    · -- the rest of the stack has other keys
      have hself := @checkKey_self pulls checked key (hfresh key hkey)
      obtain ⟨hentry, hrequired⟩ :=
        foldl_checkKey_other hhead
      exact ⟨by rw [foldl_cons, hrequired, hself.required],
        fun hpasses => hentry.trans (hself.entry hpasses)⟩
    · have hne : ∀ other ∈ rest, other ≠ head := fun other hother hsame =>
        hhead (hsame ▸ hother)
      have hkept := (@checkKey_other pulls checked head key (hne key hmem)).1
      have hchecked := @ih (checkKey pulls checked head) hrest
        (fun other hother => (checkKey_other (hne other hother)).2.trans
          (hfresh other (mem_cons_of_mem _ hother))) key hmem
      have hsame := @passes_congr _ _ pulls key hkept
      exact ⟨hchecked.required.trans hsame,
        fun hpasses => (hchecked.entry (hsame.trans hpasses)).trans hkept⟩

end Check

structure IsStack (queue : Queue) (keys : List Key) : Prop where
  nodup : keys.Nodup
  building : ∀ key ∈ keys, queue.isBuilding key

theorem checkStack_checkedAs {queue : Queue} {keys : List Key} {pulls : Key → Option Pull}
    (hnodup : keys.Nodup) : ∀ key ∈ keys, CheckedAs pulls queue (checkStack queue keys pulls) key :=
  @foldl_checkKey_checkedAs pulls { queue := queue, required := ∅ } keys hnodup
    fun _ _ => rfl

variable {keys : List Key}

variable {queue : Queue} {pulls : Key → Option Pull}

theorem live_checkStack (hstack : IsStack queue keys) :
    live (checkStack queue keys pulls).queue (checkStack queue keys pulls).required keys =
      keys.filter (queue.passes pulls) := by
  refine filter_congr fun key hkey => ?_
  obtain ⟨hrequired, hentry⟩ := checkStack_checkedAs hstack.nodup key hkey
  rw [hrequired]
  cases hpasses : queue.passes pulls key with
  | false => rfl
  | true =>
    rw [isBuilding_congr (hentry hpasses), hstack.building key hkey]
    rfl

def StackReady (queue : Queue) (base : String) (keys : List Key) (answers : StackAnswers) : Prop :=
  (baseTip base answers.tip).isOk ∨
    (queue.members (keys.filter (queue.passes answers.pull))).IsChain OnTop

instance (queue : Queue) (base : String) (keys : List Key) (answers : StackAnswers) :
    Decidable (StackReady queue base keys answers) :=
  inferInstanceAs (Decidable (_ ∨ _))

theorem live_restackFrom {required : OrdMap Key (List String)}
    {rebuild : Key → Build} {place : Place} :
    live (restackFrom rebuild queue place (live queue required keys)) required keys =
      (live queue required keys).filter
        (restackFrom rebuild queue place (live queue required keys)).isBuilding := by
  generalize hrestacked : restackFrom rebuild queue place (live queue required keys) = next
  have hframe : ∀ key ∉ live queue required keys,
      next.entries.get? key = queue.entries.get? key :=
    hrestacked ▸ (restackFrom_edits (List.Subset.refl _)).frame
  conv_rhs => rw [live, filter_filter]
  refine filter_congr fun key hkey => ?_
  by_cases hlive : key ∈ live queue required keys
  · have hwas : ((required.get? key).isSome && queue.isBuilding key) = true :=
      (mem_filter.mp hlive).2
    rw [hwas, Bool.and_true, (Bool.and_eq_true_iff.mp hwas).1, Bool.true_and]
  · -- a key that was not live is not written
    have hwas : ((required.get? key).isSome && queue.isBuilding key) = false := by
      simpa [live, hkey] using hlive
    rw [isBuilding_congr (hframe key hlive), hwas, Bool.and_false]

theorem restacked_isChain {base : String} {answers : StackAnswers}
    (hstack : IsStack queue keys) (hready : StackReady queue base keys answers) :
    let checked := checkStack queue keys answers.pull
    let restacked := restack checked.queue base
      (live checked.queue checked.required keys) answers.tip answers.rebuild
    (restacked.members (live restacked checked.required keys)).IsChain OnTop := by
  intro checked restacked
  unfold restacked restack
  cases htip : baseTip base answers.tip with
  | ok tip =>
    rw [live_restackFrom]
    exact (restackFrom_linked (hstack.nodup.filter _)).chain
  | error failure =>
    have hchain : (queue.members (keys.filter (queue.passes answers.pull))).IsChain OnTop := by
      rcases hready with hok | hchain
      · rw [htip] at hok
        cases hok
      · exact hchain
    rw [live_checkStack hstack, members_congr fun key hkey => ?_]
    · exact hchain
    obtain ⟨hmem, hpasses⟩ := mem_filter.mp hkey
    exact (checkStack_checkedAs hstack.nodup key hmem).entry hpasses

theorem landStack_frame {stack : List Gated}
    {answers : LandAnswers} (hstack : stack.map Gated.key ⊆ keys) :
    ∀ key ∉ keys,
      (landStack queue stack answers).entries.get? key = queue.entries.get? key := by
  intro key hkey
  unfold landStack
  dsimp only
  split
  · rfl
  · split
    · exact (foldl_recordLanded_edits hstack).frame key hkey
    · exact (refuseMember_edits hstack).frame key hkey
    · rfl
    · rfl

section Land

variable {queue : Queue} {answers : LandAnswers} {landing : BatchLanding}
  {members : List QueueEntry} {bottom : QueueEntry}

theorem move_sound (hchain : members.IsChain OnTop)
    (hbuilding : ∀ entry ∈ members, entry.state = .building)
    (hrecorded : ∀ entry ∈ members, entry.commit ∈ queue.commits)
    (hbottom : members.head? = some bottom)
    (hlanded : landQueuedBatch answers (members.map QueueEntry.landing) bottom.baseSha =
      .ok landing) : Move.Sound queue.commits { members := members, update := landing.update } := by
  obtain ⟨top, htop, hmoves⟩ := landQueuedBatch_moves hlanded
  have hlinked : Linked landing.update.oldOid members := by
    refine ⟨fun entry hentry => ?_, hchain⟩
    obtain rfl : bottom = entry := by simpa [hbottom] using hentry
    exact hmoves.old.symm
  -- the commit of the last member is where the base moved to
  have hlast : members.getLast?.map QueueEntry.queueSha = some landing.update.newOid := by
    rw [getLast?_map, Option.map_eq_some_iff] at htop
    obtain ⟨last, hlast, rfl⟩ := htop
    rw [hlast, hmoves.new]
    rfl
  refine ⟨hbuilding, hlinked, ?_⟩
  have hcarries := hlinked.carries hrecorded
  rw [hlast] at hcarries
  exact hcarries

theorem Queue.Sound.move {move : Move} (hsound : queue.Sound) (hmove : move.Sound queue.commits) :
    Queue.Sound { queue with moves := queue.moves ++ [move] } where
  recorded := hsound.recorded
  moves := by
    intro other hother
    rcases mem_append.mp hother with hold | hnew
    · exact hsound.moves other hold
    · obtain rfl := mem_singleton.mp hnew
      exact hmove

end Land

theorem landStack_sound {queue : Queue} {stack : List Gated} {answers : LandAnswers}
    (hsound : queue.Sound) (hchain : (queue.members (stack.map Gated.key)).IsChain OnTop)
    (hbuilding : ∀ key ∈ stack.map Gated.key, queue.isBuilding key) :
    (landStack queue stack answers).Sound := by
  have hentries : ∀ entry ∈ queue.members (stack.map Gated.key),
      entry.state = .building ∧ entry.commit ∈ queue.commits := by
    intro entry hentry
    obtain ⟨key, hkey, hget⟩ := mem_filterMap.mp hentry
    obtain ⟨found, hfound, hstate⟩ := isBuilding_iff.mp (hbuilding key hkey)
    obtain rfl : found = entry := Option.some.inj (hfound.symm.trans hget)
    exact ⟨hstate, hsound.recorded key found hget hstate⟩
  unfold landStack
  dsimp only
  split
  · exact hsound
  next bottom hbottom =>
    split
    next landing hlanded =>
      have hmove := move_sound hchain (fun entry hentry => (hentries entry hentry).1)
        (fun entry hentry => (hentries entry hentry).2) hbottom hlanded
      exact (hsound.move hmove).edit (foldl_recordLanded_edits (List.Subset.refl _))
    · exact hsound.edit (refuseMember_edits (List.Subset.refl _))
    · exact hsound
    · exact hsound

theorem length_coveringContexts (union : List String) (required : List (List String)) :
    (coveringContexts union required).length = required.length := by
  induction required generalizing union with
  | nil => rfl
  | cons contexts rest ih => simp [coveringContexts, ih]

theorem map_key_gatedStack (queue : Queue) (required : OrdMap Key (List String))
    (stack : List Key) (ownGate coverGate : GateRead) :
    (gatedStack queue required stack ownGate coverGate).map Gated.key = stack := by
  unfold gatedStack
  rw [map_map]
  exact map_fst_zip (by simp [length_coveringContexts])

theorem map_key_landable_isPrefix (stack : List Gated) :
    (landable stack).map Gated.key <+: stack.map Gated.key :=
  List.IsPrefix.map _ ( rdropWhile_prefix _ stack)

section Settle

variable {queue settled : Queue} {stack : List Gated} {answers : StackAnswers}

theorem settleStack_cases (hsettled : settleStack queue stack answers = some settled) :
    (∃ key ∈ stack.map Gated.key, settled = retryBottom queue key answers.retry) ∨
      settled = landStack queue (landable stack) answers.land := by
  unfold settleStack at hsettled
  split at hsettled
  · cases hsettled
    exact .inl ⟨_, by simp, rfl⟩
  · cases hsettled
  · cases hsettled
    exact .inr rfl

theorem settleStack_frame {keys : List Key} (hstack : stack.map Gated.key ⊆ keys)
    (hsettled : settleStack queue stack answers = some settled) :
    ∀ key ∉ keys, settled.entries.get? key = queue.entries.get? key := by
  rcases settleStack_cases hsettled with ⟨bottom, hbottom, rfl⟩ | rfl
  · exact (retryBottom_edits (hstack hbottom)).frame
  · exact landStack_frame (List.Subset.trans (map_key_landable_isPrefix stack).subset hstack)

theorem settleStack_sound (hsound : queue.Sound)
    (hchain : (queue.members (stack.map Gated.key)).IsChain OnTop)
    (hbuilding : ∀ key ∈ stack.map Gated.key, queue.isBuilding key)
    (hsettled : settleStack queue stack answers = some settled) : settled.Sound := by
  rcases settleStack_cases hsettled with ⟨bottom, hbottom, rfl⟩ | rfl
  · exact hsound.edit (retryBottom_edits hbottom)
  · have hlower := map_key_landable_isPrefix stack
    -- a lower part of a chain is a chain
    obtain ⟨upper, hupper⟩ := hlower.filterMap queue.entries.get?
    refine landStack_sound hsound ?_ fun key hkey => hbuilding key (hlower.subset hkey)
    rw [Queue.members, ← hupper] at hchain
    exact hchain.left_of_append

end Settle

theorem live_subset (queue : Queue) (required : OrdMap Key (List String)) (keys : List Key) :
    live queue required keys ⊆ keys :=
  fun _ hkey => (mem_filter.mp hkey).1

theorem restack_live_edits (queue : Queue) (base : String) (required : OrdMap Key (List String))
    (keys : List Key) (read : TipRead) (rebuild : Key → Build) :
    Edits keys queue (restack queue base (live queue required keys) read rebuild) :=
  restack_edits (live_subset queue required keys)

theorem advanceStack_frame (queue : Queue) (base : String) (keys : List Key)
    (answers : StackAnswers) :
    ∀ key ∉ keys,
      (advanceStack queue base keys answers).entries.get? key = queue.entries.get? key := by
  intro key hkey
  let checked := checkStack queue keys answers.pull
  have hrestacked := (checkStack_edits queue keys answers.pull).trans
    (restack_live_edits checked.queue base checked.required keys answers.tip answers.rebuild)
  unfold advanceStack
  dsimp only
  split
  · exact hrestacked.frame key hkey
  next settled hsettled =>
    have hkept := settleStack_frame (by rw [map_key_gatedStack]; exact live_subset _ _ _)
      hsettled key hkey
    have hagain := (restack_live_edits settled base checked.required keys answers.tipAgain
      answers.rebuildAgain).frame key hkey
    exact hagain.trans (hkept.trans (hrestacked.frame key hkey))

theorem advanceStack_sound {queue : Queue} {base : String}
    {answers : StackAnswers} (hsound : queue.Sound) (hstack : IsStack queue keys)
    (hready : StackReady queue base keys answers) :
    (advanceStack queue base keys answers).Sound := by
  let checked := checkStack queue keys answers.pull
  have hrestacked := hsound.edit ((checkStack_edits queue keys answers.pull).trans
    (restack_live_edits checked.queue base checked.required keys answers.tip answers.rebuild))
  have hchain := restacked_isChain hstack hready
  unfold advanceStack
  dsimp only at hchain ⊢
  split
  · exact hrestacked
  next settled hsettled =>
    refine Queue.Sound.edit ?_
      (restack_live_edits settled base checked.required keys _ answers.rebuildAgain)
    refine settleStack_sound hrestacked ?_ ?_ hsettled
    · rw [map_key_gatedStack]
      exact hchain
    · rw [map_key_gatedStack]
      intro key hkey
      exact (Bool.and_eq_true_iff.mp (mem_filter.mp hkey).2).2

section Stacks

variable {queue next : Queue} {answers : TickAnswers} {id other : StackId} {key : Key}

theorem mem_stackKeys (hkey : key ∈ queue.stackKeys answers id) :
    ∃ entry, queue.entries.get? key = some entry ∧ entry.state = .building ∧
      stackOf key entry = id := by
  obtain ⟨⟨found, entry⟩, hmem, rfl⟩ := mem_map.mp hkey
  rw [mem_insertionSort] at hmem
  obtain ⟨hbuilding, hstack⟩ := mem_filter.mp hmem
  obtain ⟨hentry, hstate⟩ := mem_filter.mp hbuilding
  refine ⟨entry, (queue.entries.get?_eq_some_iff _ _).mpr hentry, ?_, by simpa using hstack⟩
  simpa using (Bool.and_eq_true_iff.mp hstate).1

theorem isStack_stackKeys (queue : Queue) (answers : TickAnswers) (id : StackId) :
    IsStack queue (queue.stackKeys answers id) where
  nodup := by
    refine ((perm_insertionSort _ _).map Prod.fst).nodup_iff.mpr
      (queue.entries.nodup_keys.sublist ?_)
    exact (filter_sublist.trans filter_sublist).map Prod.fst
  building key hkey := by
    obtain ⟨entry, hentry, hstate, _⟩ := mem_stackKeys hkey
    exact isBuilding_iff.mpr ⟨entry, hentry, hstate⟩

theorem IsStack.congr {keys : List Key} (hstack : IsStack queue keys)
    (hsame : ∀ key ∈ keys, next.entries.get? key = queue.entries.get? key) : IsStack next keys where
  nodup := hstack.nodup
  building key hkey := isBuilding_congr (hsame key hkey) ▸ hstack.building key hkey

theorem StackReady.congr {base : String} {keys : List Key} {stack : StackAnswers}
    (hready : StackReady queue base keys stack)
    (hsame : ∀ key ∈ keys, next.entries.get? key = queue.entries.get? key) :
    StackReady next base keys stack := by
  refine hready.imp id fun hchain => ?_
  have hpasses : keys.filter (next.passes stack.pull) =
      keys.filter (queue.passes stack.pull) :=
    filter_congr fun key hkey => passes_congr (hsame key hkey)
  rw [hpasses, members_congr fun key hkey => hsame key (mem_filter.mp hkey).1]
  exact hchain

end Stacks

def TickReady (queue : Queue) (answers : TickAnswers) : Prop :=
  ∀ id ∈ queue.stackIds answers,
    StackReady queue id.base (queue.stackKeys answers id) (answers.stack id)

instance (queue : Queue) (answers : TickAnswers) : Decidable (TickReady queue answers) :=
  inferInstanceAs (Decidable (∀ id ∈ queue.stackIds answers, _))

theorem tick_invariant {motive : Queue → Prop} {queue : Queue} {answers : TickAnswers}
    (hqueue : motive queue)
    (hadvance : ∀ current, ∀ id ∈ queue.stackIds answers, motive current →
      (∀ key ∈ queue.stackKeys answers id, current.entries.get? key = queue.entries.get? key) →
      motive (advanceStack current id.base (queue.stackKeys answers id) (answers.stack id))) :
    motive (tick queue answers).1 := by
  have hfold : ∀ ids : List StackId, ids.Nodup → ids ⊆ queue.stackIds answers →
      ∀ current, motive current →
      (∀ id ∈ ids, ∀ key ∈ queue.stackKeys answers id,
        current.entries.get? key = queue.entries.get? key) →
      motive (ids.foldl (fun current id =>
        advanceStack current id.base (queue.stackKeys answers id) (answers.stack id))
        current) := by
    intro ids hnodup hids
    induction ids with
    | nil => exact fun current hcurrent _ => hcurrent
    | cons id rest ih =>
      intro current hcurrent hsame
      obtain ⟨hid, hrest⟩ := nodup_cons.mp hnodup
      obtain ⟨hmem, hsub⟩ := cons_subset.mp hids
      refine ih hrest hsub _ (hadvance current id hmem hcurrent (hsame id (by simp))) ?_
      intro other hother key hkey
      -- the stacks still to be advanced have other keys
      have hapart : key ∉ queue.stackKeys answers id := by
        intro hown
        obtain ⟨entry, hentry, _, rfl⟩ := mem_stackKeys hown
        obtain ⟨found, hfound, _, rfl⟩ := mem_stackKeys hkey
        exact hid (Option.some.inj (hentry.symm.trans hfound) ▸ hother)
      exact (advanceStack_frame _ _ _ _ key hapart).trans
        (hsame other (mem_cons_of_mem _ hother) key hkey)
  exact hfold _ ((perm_insertionSort _ _).nodup_iff.mpr (nodup_dedup _)) (List.Subset.refl _)
    queue hqueue fun _ _ _ _ => rfl

theorem join_edits (queue : Queue) (key : Key) (pull : Pull) (answers : EnqueueAnswers) :
    Edits [key] queue (join queue key pull answers).1 := by
  unfold join
  dsimp only
  split
  · exact (Edits.putBuilt (by simp)).persist
  · exact (Edits.put_idle (by simp) (by simp [refusedEntry])).persist

theorem enqueue_edits (queue : Queue) (key : Key) (answers : EnqueueAnswers) :
    Edits [key] queue (enqueue queue key answers).1 := by
  rcases enqueue_cases queue key answers with hsame | ⟨pull, _, _, hjoin⟩
  · rw [hsame]
    exact Edits.refl ..
  · rw [hjoin]
    exact join_edits ..

theorem dequeue_edits (queue : Queue) (key : Key) (answers : DequeueAnswers) :
    Edits [key] queue (dequeue queue key answers).1 := by
  rcases dequeue_cases queue key answers with hsame | ⟨entry, reason, _, hput⟩
  · rw [hsame]
    exact Edits.refl ..
  · rw [hput]
    exact (Edits.put_idle (by simp) (by simp [QueueEntry.finish])).persist

def Ready (queue : Queue) : Action → Prop
  | .tick answers => TickReady queue answers
  | .enqueue _ _ | .dequeue _ _ => True

instance (queue : Queue) : (action : Action) → Decidable (Ready queue action)
  | .tick answers => inferInstanceAs (Decidable (TickReady queue answers))
  | .enqueue _ _ | .dequeue _ _ => isTrue trivial

theorem act_sound {queue : Queue} {action : Action} (hsound : queue.Sound)
    (hready : Ready queue action) : (act queue action).Sound := by
  cases action with
  | enqueue key answers => exact hsound.edit (enqueue_edits queue key answers)
  | dequeue key answers => exact hsound.edit (dequeue_edits queue key answers)
  | tick answers =>
    refine tick_invariant hsound fun current id hid hcurrent hsame => ?_
    exact advanceStack_sound hcurrent ((isStack_stackKeys queue answers id).congr hsame)
      ((hready id hid).congr hsame)

/-- In a run whose ticks find every stack ready, each base ref that moved carries the
replays of the landed entries and of no others. -/
theorem run_lands_chains {actions : List Action} {final : Queue}
    (hready : machine.Meets Ready actions) (hrun : machine.run actions = some final) :
    ∀ move ∈ final.moves, move.Sound final.commits := by
  have hsound : final.Sound := by
    refine machine.run_invariant (motive := Queue.Sound)
      ⟨by simp [Queue.Recorded, machine, Queue.empty], by simp [machine, Queue.empty]⟩
      ?_ hready hrun
    intro queue action next hqueue haction hstep
    obtain rfl : act queue action = next := Option.some.inj hstep
    exact act_sound hqueue haction
  exact hsound.moves

def commitOf (digit : Char) : Sha :=
  String.ofList (List.replicate 40 digit)

def thirdOf (number : Nat) : Key :=
  { owner := "acme", repo := "forge", number := number }

def headOf : Nat → Sha
  | 1 => commitOf 'a'
  | 2 => commitOf 'b'
  | _ => commitOf 'c'

def openPull (number : Nat) : Pull :=
  { headSha := headOf number
    baseRef := "main"
    state := .opened
    draft := false
    merged := false
    gatePasses := true
    blockers := []
    required := ["ci"] }

def joinAnswers (number : Nat) (replayed : Char) : EnqueueAnswers :=
  { repository := true
    canWrite := true
    login := "ann"
    bot := none
    botRefusal := none
    pull := some (openPull number)
    metadataError := none
    now := toString number
    approvers := []
    tip := .ok (some (commitOf '0'))
    build := { replay := .ok (commitOf replayed), time := "" }
    tipAgain := .ok none
    replaysOnTip := false }

def queued (number : Nat) (replayed : Char) : Action :=
  .enqueue (thirdOf number) (joinAnswers number replayed)

def withdrawn (number : Nat) : Action :=
  .dequeue (thirdOf number)
    { repository := true, canWrite := true, login := "ann", metadataError := none }

def readyBase : LandAnswers :=
  { backend := true
    readiness := fun _ => .ready "main"
    botRefusal := fun _ => none
    repository := .ok ()
    baseOid := .ok (some (commitOf '0'))
    isAncestor := fun _ _ => true
    refs :=
      { mergePull := fun _ new => .ok new
        moves := fun _ _ _ hmoved => (Except.ok.inj hmoved).symm }
    finalize := fun _ => none }

/-- The open pull requests on this tip, with one answer of every gate; nothing is built again. -/
def onTip (tip : TipRead) (gate : GateRead) : StackAnswers :=
  { pull := fun key => some (openPull key.number)
    tip := tip
    rebuild := fun _ => { replay := .error .mergeCommits, time := "" }
    ownGate := gate
    coverGate := gate
    land := readyBase
    retry := { replay := .error .mergeCommits, time := "" }
    tipAgain := tip
    rebuildAgain := fun _ => { replay := .error .mergeCommits, time := "" } }

def greenTick (tip : TipRead) : Action :=
  .tick
    { unloaded := fun _ _ => false
      stack := fun _ => { onTip tip fun _ _ _ => some true with
        rebuild := fun _ => { replay := .ok (commitOf '4'), time := "" } } }

def middleWithdrawn (tip : TipRead) : List Action :=
  [queued 1 '1', queued 2 '2', queued 3 '3', withdrawn 2, greenTick tip]

/-- The base tip cannot be read: the third pull request lands as it was built, on the
commit of the second one, which had left the queue. -/
theorem middleWithdrawn_landsDequeued :
    ∃ final move left, machine.run (middleWithdrawn (.error "timeout")) = some final ∧
      final.moves.head? = some move ∧ move.members.map QueueEntry.number = [1, 3] ∧
      ¬ move.members.IsChain OnTop ∧
      final.entries.get? (thirdOf 2) = some left ∧ left.state = .dequeued ∧
      move.members.getLast?.map QueueEntry.baseSha = some left.queueSha := by
  refine ⟨_, _, _, (Option.some_get (by decide +kernel)).symm,
    (Option.some_get (by decide +kernel)).symm, by decide +kernel, by decide +kernel,
    (Option.some_get (by decide +kernel)).symm, by decide +kernel, by decide +kernel⟩

/-- The base tip can be read: the third pull request is built again, on the first one. -/
theorem run_lands_chains_middleWithdrawn :
    ∃ final move, machine.Meets Ready (middleWithdrawn (.ok (some (commitOf '0')))) ∧
      machine.run (middleWithdrawn (.ok (some (commitOf '0')))) = some final ∧
      final.moves.head? = some move ∧ move.members.map QueueEntry.number = [1, 3] ∧
      move.Sound final.commits := by
  have hready : machine.Meets Ready (middleWithdrawn (.ok (some (commitOf '0')))) := by
    decide +kernel
  have hrun := (Option.some_get (x := machine.run
    (middleWithdrawn (.ok (some (commitOf '0'))))) (by decide +kernel)).symm
  refine ⟨_, _, hready, hrun, (Option.some_get (by decide +kernel)).symm, by decide +kernel, ?_⟩
  exact run_lands_chains hready hrun _ (mem_of_mem_head? (Option.get_mem _))

end JeryuForge.MergeQueue
