import JeryuForge.MergeQueue.Every

/-!
# What a new process finds

The index has one entry for a pull request, the metadata one blob for a pull request and
a base.  As long as a pull request that is queued again targets the base of its entry,
there is one blob for each entry and a new process rebuilds the index as it was.  Queued
again on another base, the blob of the old base stays behind.
-/

namespace JeryuForge.MergeQueue

/-- `try_read_blob_refs`. -/
def readBlobRefs (refs : MetaRefs) (owner repo : String) : List (String × Blob) :=
  (refs.entries.filter fun (ref, _) =>
      (ofLex ref).1 = owner && (ofLex (ofLex ref).2).1 = repo).map
    fun (ref, blob) => ((ofLex (ofLex ref).2).2, blob)

def validCommit (entry : QueueEntry) : Bool :=
  isSha entry.queueSha || (entry.state = .dequeued && entry.queueSha = "")

def readEntry (read : String × Blob) : Except String QueueEntry :=
  match read.2 with
  | .error reason => .error ("invalid queue metadata " ++ read.1 ++ ": " ++ reason)
  | .ok entry =>
    if validCommit entry then
      .ok entry
    else
      .error ("invalid queue commit in " ++ read.1 ++ " for pull request #" ++
        toString entry.number)

def readMetadata (refs : MetaRefs) (owner repo : String) : Except String (List QueueEntry) :=
  (readBlobRefs refs owner repo).mapM readEntry

def buildingOnBase (refs : MetaRefs) (owner repo base : String) : Except String (List Nat) :=
  (readMetadata refs owner repo).map fun entries =>
    (entries.filter fun entry => entry.base = base && entry.state = .building).map
      QueueEntry.number

inductive Opened where
  | found
  | notFound (reason : String)
  | failed (reason : String)
deriving DecidableEq, Repr

structure QueueIndex where
  loaded : Bool
  loadedRepos : List (String × String)
  errors : OrdMap (String ×ₗ String) String
  entries : OrdMap Key QueueEntry

def QueueIndex.fresh : QueueIndex :=
  { loaded := false, loadedRepos := [], errors := ∅, entries := ∅ }

def QueueIndex.fail (index : QueueIndex) (owner repo reason : String) : QueueIndex :=
  { index with errors := index.errors.insert (toLex (owner, repo)) reason }

def QueueIndex.replace (index : QueueIndex) (owner repo : String)
    (entries : List QueueEntry) : QueueIndex :=
  { index with
    entries := entries.foldl
      (fun map entry =>
        map.insert { owner := owner, repo := repo, number := entry.number } entry)
      (index.entries.retain fun key _ => key.owner ≠ owner || key.repo ≠ repo)
    loadedRepos := (owner, repo) :: index.loadedRepos }

/-- `ensure_repo_loaded`. -/
def loadRepo (opened : String → String → Opened) (refs : MetaRefs) (index : QueueIndex)
    (repository : String × String) : QueueIndex :=
  let (owner, repo) := repository
  if (owner, repo) ∈ index.loadedRepos then
    index
  else
    match opened owner repo with
    | .failed reason => index.fail owner repo reason
    | .notFound reason =>
      -- a repository without git has nothing to restore, unless it had entries
      if index.entries.entries.any fun (key, _) => key.owner = owner && key.repo = repo then
        index.fail owner repo reason
      else
        index
    | .found =>
      match readMetadata refs owner repo with
      | .ok entries => index.replace owner repo entries
      | .error reason => index.fail owner repo reason

def ensureLoaded (index : QueueIndex) (repositories : List (String × String))
    (opened : String → String → Opened) (refs : MetaRefs) : QueueIndex × Except String Unit :=
  if index.loaded then
    (index, .ok ())
  else
    let tried := repositories.foldl (loadRepo opened refs) { index with errors := ∅ }
    let loaded := tried.errors.entries.isEmpty
    ({ tried with loaded := loaded }, if loaded then
        .ok ()
      else
        .error ("; ".intercalate (tried.errors.entries.map fun (place, reason) =>
          (ofLex place).1 ++ "/" ++ (ofLex place).2 ++ ": " ++ reason)))

open List OrdMap

deriving instance Inhabited for QueueState, QueueEntry

theorem toList_ref (start base : String) (number : Nat) :
    (start ++ base ++ "/" ++ toString number).toList =
      start.toList ++ (base.toList ++ '/' :: (toString number).toList) := by
  simp

theorem metaRef_injective {base other : String} {number second : Nat}
    (hsame : metaRef base number = metaRef other second) : base = other ∧ number = second := by
  have hlists : (metaRef base number).toList = (metaRef other second).toList := by rw [hsame]
  unfold metaRef at hlists
  rw [toList_ref, toList_ref] at hlists
  obtain ⟨hbases, hnumbers⟩ := Text.append_cons_inj (Text.not_mem_toString rfl number)
    (Text.not_mem_toString rfl second) (append_cancel_left hlists)
  exact ⟨String.toList_injective hbases, Text.toString_injective hnumbers⟩

/-- The metadata is the index: each entry is kept under its base and number, and nothing else
is. -/
structure InSync (queue : Queue) : Prop where
  stored : ∀ key entry, queue.entries.get? key = some entry →
    queue.refs.get? (metaKey key entry) = some (.ok entry)
  only : ∀ ref blob, queue.refs.get? ref = some blob →
    ∃ key entry, queue.entries.get? key = some entry ∧ ref = metaKey key entry ∧
      blob = .ok entry
  numbered : ∀ key entry, queue.entries.get? key = some entry → entry.number = key.number

/-- And what is kept can be read. -/
structure Readable (queue : Queue) : Prop extends InSync queue where
  valid : ∀ key entry, queue.entries.get? key = some entry → validCommit entry

theorem metaKey_injective {key other : Key} {entry second : QueueEntry}
    (hnumber : entry.number = key.number) (hsecond : second.number = other.number)
    (hsame : metaKey key entry = metaKey other second) : key = other := by
  obtain ⟨howner, hrepo, href⟩ : key.owner = other.owner ∧ key.repo = other.repo ∧
      metaRef entry.base entry.number = metaRef second.base second.number := by
    simpa [metaKey, refKey] using hsame
  obtain ⟨_, hnumbers⟩ := metaRef_injective href
  exact Key.rank_injective (by rw [Key.rank, Key.rank, howner, hrepo, ← hnumber, hnumbers, hsecond])

section Put

variable {queue next : Queue} {key : Key} {entry : QueueEntry}
  (hentries : next.entries = queue.entries.insert key entry)
  (hrefs : next.refs = (queue.persist key entry).refs)
  (hbase : ∀ old, queue.entries.get? key = some old → entry.base = old.base)
  (hnumber : entry.number = key.number)
include hentries hrefs hbase hnumber

/-- What is written replaces the blob of the entry: the place of another one is another place. -/
theorem InSync.put (hsync : InSync queue) : InSync next where
  stored other found hfound := by
    rw [hrefs]
    rcases get?_insert_eq_some (hentries ▸ hfound) with ⟨rfl, rfl⟩ | ⟨hother, hold⟩
    · exact get?_insert_self ..
    · refine (get?_insert_of_ne _ _ fun hsame => ?_).trans (hsync.stored other found hold)
      exact hother (metaKey_injective (hsync.numbered _ _ hold) hnumber hsame)
  only ref blob hblob := by
    rcases get?_insert_eq_some (hrefs ▸ hblob) with ⟨rfl, rfl⟩ | ⟨hother, hold⟩
    · exact ⟨key, entry, by rw [hentries, get?_insert_self], rfl, rfl⟩
    · obtain ⟨holder, found, hfound, rfl, rfl⟩ := hsync.only ref blob hold
      have hapart : holder ≠ key := by
        rintro rfl
        refine hother ?_
        rw [metaKey, metaKey, hbase found hfound, hnumber, hsync.numbered holder found hfound]
      exact ⟨holder, found, by rw [hentries, get?_insert_of_ne _ _ hapart, hfound], rfl, rfl⟩
  numbered other found hfound := by
    rcases get?_insert_eq_some (hentries ▸ hfound) with ⟨rfl, rfl⟩ | ⟨_, hold⟩
    · exact hnumber
    · exact hsync.numbered other found hold

theorem Readable.put (hreadable : Readable queue) (hvalid : validCommit entry) : Readable next where
  toInSync := hreadable.toInSync.put hentries hrefs hbase hnumber
  valid other found hfound := by
    rcases get?_insert_eq_some (hentries ▸ hfound) with ⟨rfl, rfl⟩ | ⟨_, hold⟩
    · exact hvalid
    · exact hreadable.valid other found hold

end Put

namespace Readable

variable {queue : Queue} {owner repo : String}

def entryOf (read : String × Blob) : QueueEntry :=
  match read.2 with
  | .ok entry => entry
  | .error _ => default

theorem nodup_readBlobRefs (refs : MetaRefs) (owner repo : String) :
    (readBlobRefs refs owner repo).Nodup := by
  have hentries : refs.entries.Nodup := List.Nodup.of_map _ refs.nodup_keys
  refine (hentries.filter _).map_on ?_
  rintro ⟨first, blob⟩ hfirst ⟨second, other⟩ hsecond hsame
  obtain ⟨hnames, rfl⟩ := Prod.mk.inj hsame
  obtain ⟨howner, hrepo⟩ := Bool.and_eq_true_iff.mp (mem_filter.mp hfirst).2
  obtain ⟨howner', hrepo'⟩ := Bool.and_eq_true_iff.mp (mem_filter.mp hsecond).2
  have hparts : (ofLex (ofLex first).2) = (ofLex (ofLex second).2) :=
    Prod.ext ((of_decide_eq_true hrepo).trans (of_decide_eq_true hrepo').symm) hnames
  have hrefs : ofLex first = ofLex second :=
    Prod.ext ((of_decide_eq_true howner).trans (of_decide_eq_true howner').symm) hparts
  exact Prod.ext hrefs rfl

/-- Reading the metadata of a repository gives the entries that the index has for it, each
of them once. -/
structure ReadsBack (queue : Queue) (owner repo : String) (entries : List QueueEntry) :
    Prop where
  mem : ∀ entry, entry ∈ entries ↔
    queue.entries.get? { owner := owner, repo := repo, number := entry.number } = some entry
  nodup : (entries.map QueueEntry.number).Nodup

theorem entryOf_spec (hsync : Readable queue) {read : String × Blob}
    (hread : read ∈ readBlobRefs queue.refs owner repo) :
    queue.entries.get? { owner := owner, repo := repo, number := (entryOf read).number } =
        some (entryOf read) ∧
      read = (metaRef (entryOf read).base (entryOf read).number, .ok (entryOf read)) ∧
      readEntry read = .ok (entryOf read) := by
  obtain ⟨⟨ref, blob⟩, hmem, rfl⟩ := mem_map.mp hread
  obtain ⟨hentry, hrepo⟩ := mem_filter.mp hmem
  obtain ⟨key, entry, hget, rfl, rfl⟩ :=
    hsync.only ref blob ((queue.refs.get?_eq_some_iff _ _).mpr hentry)
  obtain ⟨howner, hname⟩ := Bool.and_eq_true_iff.mp hrepo
  have hkey : { owner := owner, repo := repo, number := entry.number } = key := by
    rw [← of_decide_eq_true howner, ← of_decide_eq_true hname, hsync.numbered key entry hget]
    rfl
  refine ⟨(congrArg queue.entries.get? hkey).trans hget, rfl, ?_⟩
  simp [readEntry, hsync.valid key entry hget, entryOf]

theorem readMetadata_eq_ok (hsync : Readable queue) (owner repo : String) :
    ∃ entries, readMetadata queue.refs owner repo = .ok entries ∧
      ReadsBack queue owner repo entries := by
  refine ⟨(readBlobRefs queue.refs owner repo).map entryOf, ?_, fun entry => ⟨?_, ?_⟩, ?_⟩
  · exact Except.mapM_eq_ok_map fun read hread => (hsync.entryOf_spec hread).2.2
  · intro hentry
    obtain ⟨read, hread, rfl⟩ := mem_map.mp hentry
    exact (hsync.entryOf_spec hread).1
  · intro hentry
    have hstored := (queue.refs.get?_eq_some_iff _ _).mp (hsync.stored _ _ hentry)
    refine mem_map.mpr ⟨_, mem_map.mpr ⟨_, mem_filter.mpr ⟨hstored, ?_⟩, rfl⟩, rfl⟩
    simp [metaKey, refKey]
  · rw [map_map]
    refine (nodup_readBlobRefs queue.refs owner repo).map_on ?_
    intro one hone two htwo hsame
    obtain ⟨hget, hread, _⟩ := hsync.entryOf_spec hone
    obtain ⟨hother, hsecond, _⟩ := hsync.entryOf_spec htwo
    have hnumber : (entryOf one).number = (entryOf two).number := hsame
    rw [hnumber] at hget
    rw [hread, hsecond, Option.some.inj (hget.symm.trans hother)]

end Readable

def Matches (queue : Queue) (index : QueueIndex) (repository : String × String) : Prop :=
  ∀ number,
    index.entries.get? { owner := repository.1, repo := repository.2, number := number } =
      queue.entries.get? { owner := repository.1, repo := repository.2, number := number }

def LoadedMatch (queue : Queue) (index : QueueIndex) : Prop :=
  ∀ repository ∈ index.loadedRepos, Matches queue index repository

section Load

variable {queue : Queue} {index : QueueIndex} {owner repo : String}
  {entries : List QueueEntry}

def keyIn (owner repo : String) (entry : QueueEntry) : Key :=
  { owner := owner, repo := repo, number := entry.number }

variable (hsync : Readable queue)
include hsync

theorem replace_matches (hreads : Readable.ReadsBack queue owner repo entries) :
    Matches queue (index.replace owner repo entries) (owner, repo) := by
  intro number
  cases hentry : queue.entries.get? { owner := owner, repo := repo, number := number } with
  | some entry =>
    obtain rfl : entry.number = number := hsync.numbered _ _ hentry
    refine get?_foldl_insert_of_mem (keyIn owner repo) id
      ((hreads.mem entry).mpr hentry) fun other hother hsame => ?_
    have hfound := (hreads.mem other).mp hother
    have hkey : keyIn owner repo other = keyIn owner repo entry := hsame
    exact Option.some.inj (hfound.symm.trans ((congrArg queue.entries.get? hkey).trans hentry))
  | none =>
    refine (get?_foldl_insert_of_ne (keyIn owner repo) id fun entry hmem hsame => ?_).trans ?_
    · have hfound := (hreads.mem entry).mp hmem
      exact absurd (hfound.symm.trans ((congrArg queue.entries.get? hsame).trans hentry)) (by simp)
    · rw [get?_retain]
      cases index.entries.get? { owner := owner, repo := repo, number := number } with
      | none => rfl
      | some entry => simp

omit hsync in
theorem replace_matches_other {repository : String × String}
    (hmatches : Matches queue index repository) (hother : repository ≠ (owner, repo)) :
    Matches queue (index.replace owner repo entries) repository := by
  intro number
  rw [← hmatches number]
  refine (get?_foldl_insert_of_ne (keyIn owner repo) id fun entry _ hsame => ?_).trans ?_
  · obtain ⟨howner, hrepo, _⟩ := Key.mk.inj hsame
    exact hother (Prod.ext howner.symm hrepo.symm)
  · rw [get?_retain]
    have hkept : (decide (repository.1 ≠ owner) || decide (repository.2 ≠ repo)) = true := by
      by_contra hneither
      simp only [Bool.or_eq_true, decide_eq_true_eq, not_or, not_not] at hneither
      exact hother (Prod.ext hneither.1 hneither.2)
    cases index.entries.get?
        { owner := repository.1, repo := repository.2, number := number } with
    | none => rfl
    | some entry => exact Option.filter_eq_some_iff.mpr ⟨rfl, hkept⟩

theorem loadRepo_cases (opened : String → String → Opened) (index : QueueIndex)
    (repository : String × String) :
    ((loadRepo opened queue.refs index repository).entries = index.entries ∧
        (loadRepo opened queue.refs index repository).loadedRepos = index.loadedRepos ∧
        (opened repository.1 repository.2 = .found → repository ∈ index.loadedRepos ∧
          (loadRepo opened queue.refs index repository).errors = index.errors)) ∨
      ∃ entries, Readable.ReadsBack queue repository.1 repository.2 entries ∧
        loadRepo opened queue.refs index repository =
          index.replace repository.1 repository.2 entries := by
  obtain ⟨owner, repo⟩ := repository
  unfold loadRepo
  dsimp only
  split
  next hloaded =>
    exact .inl ⟨rfl, rfl, fun _ => ⟨hloaded, rfl⟩⟩
  · split
    next hopened =>
      exact .inl ⟨rfl, rfl, fun hfound => by rw [hopened] at hfound; cases hfound⟩
    next hopened =>
      refine .inl ?_
      split <;> exact ⟨rfl, rfl, fun hfound => by rw [hopened] at hfound; cases hfound⟩
    · obtain ⟨entries, hread, hreads⟩ := hsync.readMetadata_eq_ok owner repo
      rw [hread]
      exact .inr ⟨entries, hreads, rfl⟩

theorem loadRepo_match (opened : String → String → Opened) (hmatch : LoadedMatch queue index)
    (repository : String × String) :
    LoadedMatch queue (loadRepo opened queue.refs index repository) := by
  rcases loadRepo_cases hsync opened index repository with
    ⟨hentries, hloaded, _⟩ | ⟨entries, hreads, hreplaced⟩
  · intro other hother number
    rw [hentries]
    exact hmatch other (hloaded ▸ hother) number
  · rw [hreplaced]
    intro other hother
    by_cases hsame : other = repository
    · subst hsame
      exact replace_matches hsync hreads
    · rcases mem_cons.mp hother with hself | hold
      · exact absurd hself hsame
      · exact replace_matches_other (hmatch other hold) hsame

theorem mem_loadedRepos_loadRepo (opened : String → String → Opened) (index : QueueIndex)
    (repository : String × String) :
    (∀ other ∈ index.loadedRepos,
      other ∈ (loadRepo opened queue.refs index repository).loadedRepos) ∧
      (opened repository.1 repository.2 = .found →
        repository ∈ (loadRepo opened queue.refs index repository).loadedRepos) := by
  rcases loadRepo_cases hsync opened index repository with
    ⟨_, hloaded, hfound⟩ | ⟨entries, _, hreplaced⟩
  · rw [hloaded]
    exact ⟨fun _ hother => hother, fun hopened => (hfound hopened).1⟩
  · rw [hreplaced]
    exact ⟨fun _ hother => mem_cons_of_mem _ hother, fun _ => mem_cons_self⟩

theorem foldl_loadRepo_match {opened : String → String → Opened}
    {repositories : List (String × String)} (hmatch : LoadedMatch queue index) :
    LoadedMatch queue (repositories.foldl (loadRepo opened queue.refs) index) ∧
      (∀ other ∈ index.loadedRepos,
        other ∈ (repositories.foldl (loadRepo opened queue.refs) index).loadedRepos) ∧
      ∀ repository ∈ repositories, opened repository.1 repository.2 = .found →
        repository ∈ (repositories.foldl (loadRepo opened queue.refs) index).loadedRepos := by
  induction repositories generalizing index with
  | nil => exact ⟨hmatch, fun _ hother => hother, by simp⟩
  | cons first rest ih =>
    obtain ⟨hkeeps, hadds⟩ := mem_loadedRepos_loadRepo hsync opened index first
    obtain ⟨hfinal, hmore, hfound⟩ := ih (loadRepo_match hsync opened hmatch first)
    refine ⟨hfinal, fun other hother => hmore other (hkeeps other hother), ?_⟩
    intro repository hmem hopened
    rcases mem_cons.mp hmem with rfl | hrest
    · exact hmore repository (hadds hopened)
    · exact hfound repository hrest hopened

theorem foldl_loadRepo_errors {opened : String → String → Opened}
    {repositories : List (String × String)}
    (hopened : ∀ repository ∈ repositories, opened repository.1 repository.2 = .found) :
    (repositories.foldl (loadRepo opened queue.refs) index).errors = index.errors := by
  induction repositories generalizing index with
  | nil => rfl
  | cons first rest ih =>
    rw [foldl_cons, ih (forall_mem_cons.mp hopened).2]
    rcases loadRepo_cases hsync opened index first with
      ⟨_, _, hfound⟩ | ⟨entries, _, hreplaced⟩
    · exact (hfound (hopened first (by simp))).2
    · rw [hreplaced]
      rfl

end Load

def StaysValid (_ : Key) (old entry : QueueEntry) : Prop :=
  entry.base = old.base ∧ entry.number = old.number ∧
    (isSha old.queueSha → isSha entry.queueSha)

theorem admits_staysValid : Admits StaysValid where
  trans hfirst hsecond :=
    ⟨hsecond.1.trans hfirst.1, hsecond.2.1.trans hfirst.2.1,
      fun hsha => hsecond.2.2 (hfirst.2.2 hsha)⟩
  turned hturned := by
    cases hturned with
    | after after => exact ⟨rfl, rfl, fun hsha => hsha⟩
    | left hkeeps _ =>
      exact ⟨hkeeps.base, hkeeps.number, fun hsha => by rw [hkeeps.queueSha]; exact hsha⟩

def Build.Named (build : Build) : Prop :=
  ∀ sha ∈ build.commits, isSha sha

instance (build : Build) : Decidable build.Named :=
  inferInstanceAs (Decidable (∀ sha ∈ build.commits, isSha sha))

theorem buildOn_staysValid {key : Key} {entry built : QueueEntry} {parent : Sha}
    {build : Build} (hnamed : build.Named) (hbuilt : buildOn entry parent build = .ok built) :
    StaysValid key entry built := by
  obtain ⟨sha, hreplay, rfl⟩ := buildOn_eq_ok hbuilt
  exact ⟨rfl, rfl, fun _ => hnamed sha (Build.mem_commits hreplay)⟩

theorem retryOrFail_staysValid {key : Key} {build : Build} (hnamed : build.Named)
    (entry : QueueEntry) : StaysValid key entry (retryOrFail entry build).1 := by
  unfold retryOrFail
  dsimp only
  split
  · split
    · exact ⟨rfl, rfl, fun hsha => hsha⟩
    next built hbuilt =>
      exact (buildOn_staysValid hnamed hbuilt : StaysValid key _ built)
  · exact ⟨rfl, rfl, fun hsha => hsha⟩

/-! ## Every run -/

def StackNamed (keys : List Key) (answers : StackAnswers) : Prop :=
  answers.retry.Named ∧
    ∀ key ∈ keys, (answers.rebuild key).Named ∧ (answers.rebuildAgain key).Named

def GitNames (queue : Queue) : Action → Prop
  | .enqueue _ answers => answers.build.Named
  | .dequeue _ _ => True
  | .tick answers => ∀ id ∈ queue.stackIds answers,
      StackNamed (queue.stackKeys answers id) (answers.stack id)

/-- A pull request that joins the queue and has an entry targets the base of its entry. -/
def OnItsBase (queue : Queue) : Action → Prop
  | .enqueue key answers => ∀ pull ∈ answers.pull, Joins queue key answers pull →
      ∀ entry ∈ queue.entries.get? key, entry.base = pull.baseRef
  | .dequeue _ _ | .tick _ => True

instance (queue : Queue) (key : Key) (answers : EnqueueAnswers) (pull : Pull) :
    Decidable (Joins queue key answers pull) :=
  decidable_of_iff (_ ∧ _ ∧ _ ∧ _)
    ⟨fun ⟨hreached, hqueueable, hfresh, hhead⟩ => ⟨hreached, hqueueable, hfresh, hhead⟩,
      fun ⟨hreached, hqueueable, hfresh, hhead⟩ => ⟨hreached, hqueueable, hfresh, hhead⟩⟩

instance (keys : List Key) (answers : StackAnswers) : Decidable (StackNamed keys answers) :=
  inferInstanceAs (Decidable (_ ∧ _))

instance (queue : Queue) : (action : Action) → Decidable (GitNames queue action)
  | .enqueue _ answers => inferInstanceAs (Decidable answers.build.Named)
  | .dequeue .. => isTrue trivial
  | .tick _ => inferInstanceAs (Decidable (∀ id ∈ _, _))

instance (queue : Queue) : (action : Action) → Decidable (OnItsBase queue action)
  | .enqueue .. => inferInstanceAs (Decidable (∀ pull ∈ _, _ → _))
  | .dequeue .. | .tick _ => isTrue trivial

section Steps

variable {queue : Queue}

theorem InSync.rewrite {next : Queue} (hsync : InSync queue)
    (hrewrites : Rewrites StaysValid queue next) : InSync next := by
  induction hrewrites with
  | refl => exact hsync
  | tail _ hstep ih =>
    cases hstep with
    | same hentries hrefs =>
      exact ⟨hentries ▸ hrefs ▸ ih.stored, hentries ▸ hrefs ▸ ih.only, hentries ▸ ih.numbered⟩
    | put hold hstays hentries hrefs =>
      refine ih.put hentries hrefs (fun old hother => ?_) (hstays.2.1.trans (ih.numbered _ _ hold))
      rw [Option.some.inj (hother.symm.trans hold)]
      exact hstays.1

theorem join_put {key : Key} {pull : Pull} {answers : EnqueueAnswers}
    (hnamed : answers.build.Named) :
    ∃ entry, (join queue key pull answers).1.entries = queue.entries.insert key entry ∧
      (join queue key pull answers).1.refs = (queue.persist key entry).refs ∧
      entry.base = pull.baseRef ∧ entry.number = key.number ∧ validCommit entry := by
  unfold join
  dsimp only
  split
  next built hbuilt =>
    obtain ⟨parent, hbuild⟩ := buildNew_eq_ok hbuilt
    obtain ⟨sha, hreplay, rfl⟩ := buildOn_eq_ok hbuild
    refine ⟨_, rfl, rfl, rfl, rfl, ?_⟩
    simp [validCommit, hnamed sha (Build.mem_commits hreplay)]
  · refine ⟨_, rfl, rfl, rfl, rfl, ?_⟩
    simp [validCommit, refusedEntry, newEntry]

theorem enqueue_readable (hsync : Readable queue) {key : Key} {answers : EnqueueAnswers}
    (hnamed : answers.build.Named) (hbase : OnItsBase queue (.enqueue key answers)) :
    Readable (enqueue queue key answers).1 := by
  rcases enqueue_cases queue key answers with hsame | ⟨pull, hpull, hjoins, hjoin⟩
  · rw [hsame]
    exact hsync
  · obtain ⟨entry, hentries, hrefs, hentry, hnumber, hvalid⟩ := join_put hnamed
    rw [hjoin]
    exact hsync.put hentries hrefs
      (fun old hold => hentry.trans (hbase pull hpull hjoins old hold).symm) hnumber hvalid

theorem dequeue_readable (hsync : Readable queue) (key : Key) (answers : DequeueAnswers) :
    Readable (dequeue queue key answers).1 := by
  rcases dequeue_cases queue key answers with hsame | ⟨entry, reason, hentry, hput⟩
  · rw [hsame]
    exact hsync
  · have hvalid := hsync.valid key entry hentry
    rw [hput]
    refine hsync.put rfl rfl (fun old hold => ?_) (hsync.numbered key entry hentry) ?_
    · rw [Option.some.inj (hold.symm.trans hentry)]
      rfl
    · have hcommit : isSha entry.queueSha = true ∨ entry.queueSha = "" := by
        simp only [validCommit, Bool.or_eq_true, Bool.and_eq_true, decide_eq_true_eq] at hvalid
        exact hvalid.imp id And.right
      rcases hcommit with hsha | hnone
      · simp [validCommit, QueueEntry.finish, hsha]
      · simp [validCommit, QueueEntry.finish, hnone]

theorem tick_rewrites {answers : TickAnswers} (hnamed : ∀ id ∈ queue.stackIds answers,
      StackNamed (queue.stackKeys answers id) (answers.stack id)) :
    Rewrites StaysValid queue (tick queue answers).1 := by
  refine tick_invariant .refl fun current id hid hcurrent _ => ?_
  obtain ⟨hretry, hbuilds⟩ := hnamed id hid
  refine hcurrent.trans (Rewrites.advanceStack admits_staysValid ?_ ?_ ?_)
  · exact fun key hkey entry parent built _ hbuilt =>
      (buildOn_staysValid (hbuilds key hkey).1 hbuilt : StaysValid key _ built)
  · exact fun key _ entry _ => retryOrFail_staysValid hretry entry
  · exact fun key hkey entry parent built _ hbuilt =>
      (buildOn_staysValid (hbuilds key hkey).2 hbuilt : StaysValid key _ built)

theorem tick_frame (answers : TickAnswers) :
    ∀ key, queue.isBuilding key = false →
      (tick queue answers).1.entries.get? key = queue.entries.get? key := by
  refine tick_invariant (motive := fun current => ∀ key, queue.isBuilding key = false →
    current.entries.get? key = queue.entries.get? key) (fun _ _ => rfl)
    fun current id _ hcurrent _ key hidle => ?_
  have hapart : key ∉ queue.stackKeys answers id := fun hmem => by
    rw [(isStack_stackKeys queue answers id).building key hmem] at hidle
    cases hidle
  exact (advanceStack_frame current id.base _ _ key hapart).trans (hcurrent key hidle)

theorem tick_readable (hsync : Readable queue) {answers : TickAnswers}
    (hnamed : ∀ id ∈ queue.stackIds answers,
      StackNamed (queue.stackKeys answers id) (answers.stack id)) :
    Readable (tick queue answers).1 := by
  have hrewrites := tick_rewrites hnamed
  refine ⟨hsync.toInSync.rewrite hrewrites, fun key entry hentry => ?_⟩
  obtain ⟨old, hold, hstays⟩ := hrewrites.get? admits_staysValid hentry
  have hvalid := hsync.valid key old hold
  by_cases hbuilding : old.state = .building
  · -- a building entry has a commit, and keeps having one
    have hsha : isSha old.queueSha = true := by
      simpa [validCommit, hbuilding] using hvalid
    simp [validCommit, hstays.2.2 hsha]
  · have hidle : queue.isBuilding key = false := by
      simp [Queue.isBuilding, hold, hbuilding]
    rw [tick_frame answers key hidle, hold] at hentry
    rw [← Option.some.inj hentry]
    exact hvalid

theorem act_frame {key : Key} (hidle : queue.isBuilding key = false) {action : Action}
    (hother : ∀ answers, action ≠ .enqueue key answers) :
    (act queue action).entries.get? key = queue.entries.get? key := by
  cases action with
  | enqueue asked answers =>
    refine (enqueue_edits queue asked answers).frame key fun hmem => ?_
    exact hother answers (by rw [List.mem_singleton.mp hmem])
  | dequeue asked answers =>
    by_cases hasked : key = asked
    · subst hasked
      have hsame : (dequeue queue key answers).1 = queue := by
        unfold dequeue
        split_ifs <;> try rfl
        split <;> try rfl
        next entry _ hentry =>
          simp only [Queue.isBuilding, hentry, Option.any_some] at hidle
          rw [if_neg (of_decide_eq_false hidle)]
      exact congrArg (fun next : Queue => next.entries.get? key) hsame
    · exact (dequeue_edits queue asked answers).frame key (by simpa using hasked)
  | tick answers => exact tick_frame answers key hidle

/-- An entry that is not building, or a pull request without one, stays as it is until the pull
request is queued again. -/
theorem runFrom_idle_stays {key : Key} (hidle : queue.isBuilding key = false)
    {actions : List Action} {final : Queue}
    (hother : ∀ action ∈ actions, ∀ answers, action ≠ .enqueue key answers)
    (hrun : machine.runFrom queue actions = some final) :
    final.entries.get? key = queue.entries.get? key := by
  refine machine.runFrom_invariant
    (motive := fun current => current.entries.get? key = queue.entries.get? key) ?_ rfl
    (machine.meetsFrom_of_forall hother queue) hrun
  intro current action next hcurrent hother hstep
  rw [← Option.some.inj hstep]
  exact (act_frame (by rwa [Queue.isBuilding, hcurrent]) hother).trans hcurrent

theorem runFrom_idle_stays_withdrawn :
    ∃ queue final, machine.run [queued 1 '1', withdrawn 1] = some queue ∧
      machine.runFrom queue [queued 2 '2', greenTick (.error "")] = some final ∧
      final.entries.get? (thirdOf 1) = queue.entries.get? (thirdOf 1) := by
  refine ⟨_, _, rfl, rfl, @runFrom_idle_stays _ _ (by decide +kernel)
    [queued 2 '2', greenTick (.error "")] _ ?_ rfl⟩
  simp [queued, greenTick, thirdOf]

end Steps

structure Reloads (queue : Queue) : Prop where
  loads : ∀ repositories opened,
    (∀ repository ∈ repositories, opened repository.1 repository.2 = .found) →
      (ensureLoaded .fresh repositories opened queue.refs).2 = .ok ()
  index : ∀ repositories opened, ∀ repository ∈ repositories,
    opened repository.1 repository.2 = .found →
      Matches queue (ensureLoaded .fresh repositories opened queue.refs).1 repository
  building : ∀ owner repo base, ∃ numbers,
    buildingOnBase queue.refs owner repo base = .ok numbers ∧ numbers.Nodup ∧
      ∀ number, number ∈ numbers ↔
        ∃ entry, queue.entries.get? { owner := owner, repo := repo, number := number } =
            some entry ∧ entry.state = .building ∧ entry.base = base

theorem Readable.reloads {queue : Queue} (hsync : Readable queue) :
    Reloads queue where
  loads := by
    intro repositories opened hopened
    have hnone : (repositories.foldl (loadRepo opened queue.refs)
        { QueueIndex.fresh with errors := ∅ }).errors.entries.isEmpty = true := by
      rw [foldl_loadRepo_errors hsync hopened]
      rfl
    simp only [ensureLoaded]
    rw [if_neg (by simp [QueueIndex.fresh]), if_pos hnone]
  index := by
    intro repositories opened repository hmem hopened
    have hstart : LoadedMatch queue { QueueIndex.fresh with errors := ∅ } := by
      intro other hother
      cases hother
    have hloaded := (foldl_loadRepo_match hsync hstart).2.2 repository hmem hopened
    exact (foldl_loadRepo_match hsync hstart).1 repository hloaded
  building := by
    intro owner repo base
    obtain ⟨entries, hread, hreads⟩ := hsync.readMetadata_eq_ok owner repo
    refine ⟨_, by rw [buildingOnBase, hread]; rfl, ?_, fun number => ⟨?_, ?_⟩⟩
    · exact hreads.nodup.sublist (filter_sublist.map _)
    · intro hnumber
      obtain ⟨entry, hmem, rfl⟩ := mem_map.mp hnumber
      obtain ⟨hentry, hbuilding⟩ := mem_filter.mp hmem
      obtain ⟨hbase, hstate⟩ := Bool.and_eq_true_iff.mp hbuilding
      exact ⟨entry, (hreads.mem entry).mp hentry, of_decide_eq_true hstate, of_decide_eq_true hbase⟩
    · rintro ⟨entry, hentry, hstate, rfl⟩
      obtain rfl : entry.number = number := hsync.numbered _ _ hentry
      refine mem_map.mpr ⟨entry, mem_filter.mpr ⟨(hreads.mem entry).mpr hentry, ?_⟩, rfl⟩
      simp [hstate]

theorem readable_start : Readable machine.start where
  stored := fun _ _ hentry => by cases hentry
  only := fun _ _ hblob => by cases hblob
  numbered := fun _ _ hentry => by cases hentry
  valid := fun _ _ hentry => by cases hentry

/-- In a run in which a pull request that is queued again is on the base of its entry, a
new process rebuilds the index and finds what is building on each base. -/
theorem run_reloads {actions : List Action} {queue : Queue}
    (hgit : machine.Meets GitNames actions) (hbase : machine.Meets OnItsBase actions)
    (hrun : machine.run actions = some queue) : Reloads queue := by
  refine Readable.reloads ?_
  refine machine.run_invariant readable_start ?_ (Machine.MeetsFrom.and _ hgit hbase) hrun
  rintro queue action next hsync ⟨hnamed, hon⟩ hstep
  cases hstep
  cases action with
  | enqueue key answers => exact enqueue_readable hsync hnamed hon
  | dequeue key answers => exact dequeue_readable hsync key answers
  | tick answers => exact tick_readable hsync hnamed

def retargeted (number : Nat) (replayed : Char) : Action :=
  .enqueue (thirdOf number)
    { joinAnswers number replayed with
      pull := some { openPull number with headSha := commitOf 'd', baseRef := "dev" }
      now := "9"
      tip := .ok (some (commitOf '5')) }

/-- The pull request is building on `dev` only; the metadata has it building on `main` as
well, and a new process takes that entry. -/
theorem retargeted_leavesOldBlob :
    ∃ queue entry, machine.run [queued 1 '1', retargeted 1 '2'] = some queue ∧
      queue.entries.get? (thirdOf 1) = some entry ∧ entry.base = "dev" ∧
      (buildingOnBase queue.refs "acme" "forge" "main").toOption = some [1] ∧
      ((ensureLoaded .fresh [("acme", "forge")] (fun _ _ => .found) queue.refs).1.entries.get?
        (thirdOf 1)).map QueueEntry.base = some "main" := by
  refine ⟨_, _, (Option.some_get (by decide +kernel)).symm,
    (Option.some_get (by decide +kernel)).symm, by decide +kernel, by decide +kernel,
    by decide +kernel⟩

/-- The pull request leaves the queue and joins it again on the same base. -/
theorem run_reloads_queuedAgain :
    ∃ queue, machine.Meets GitNames [queued 1 '1', withdrawn 1, queued 1 '2'] ∧
      machine.Meets OnItsBase [queued 1 '1', withdrawn 1, queued 1 '2'] ∧
      machine.run [queued 1 '1', withdrawn 1, queued 1 '2'] = some queue ∧
      Reloads queue := by
  have hgit : machine.Meets GitNames [queued 1 '1', withdrawn 1, queued 1 '2'] := by
    decide +kernel
  have hbase : machine.Meets OnItsBase [queued 1 '1', withdrawn 1, queued 1 '2'] := by
    decide +kernel
  exact ⟨_, hgit, hbase, rfl, run_reloads hgit hbase rfl⟩

end JeryuForge.MergeQueue
