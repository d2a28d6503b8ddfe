import JeryuForge.Library.Blocks

/-!
# Comparing a branch with GitHub

`GithubMirror::reconcile` asks git up to seven times, and GitHub may move between any two of these.
Its answer is right unless a test of ancestry that it asks for cannot be read: that comes back as
"not an ancestor".
-/

namespace JeryuForge.GithubMirror

inductive MirrorSync where
  | inSync
  | behind
  | ahead
  | diverged
  | unknown
deriving DecidableEq, Repr

/-- What the calls of one `reconcile` answer.  Commits are ordered by ancestry. -/
structure Answers (Commit : Type) [PartialOrder Commit] where
  destination : Except String String
  revParse : Option Commit
  /-- The branch in what `ls-remote` lists. -/
  lsRemote : Except String (Option Commit)
  fetch : Except String Unit
  /-- `merge-base --is-ancestor`; nothing when it fails, also for a commit that is not there. -/
  isAncestor : Commit → Commit → Option Bool
  isAncestor_iff : ∀ {older newer answer}, isAncestor older newer = some answer →
    (answer = true ↔ older ≤ newer)
  revList : Option (List Commit)
  push : Except String Unit

structure MirrorReconcile (Commit : Type) where
  forgeHead : Option Commit
  githubHead : Option Commit
  state : MirrorSync
  caughtUp : Bool
  githubOnlyCommits : List Commit
  error : Option String
  /-- The branch was pushed, whether or not GitHub took it. -/
  pushes : Bool
deriving DecidableEq

section

variable {Commit : Type} [PartialOrder Commit] (answers : Answers Commit)

/-- `push_ref` of the forge head. -/
def pushHead (report : MirrorReconcile Commit) : MirrorReconcile Commit :=
  match answers.push with
  | .ok () => { report with caughtUp := true, state := .inSync, pushes := true }
  | .error err => { report with error := some err, state := .behind, pushes := true }

/-- `is_ancestor`: a call that fails counts as no. -/
def isAncestor (older newer : Commit) : Bool :=
  answers.isAncestor older newer = some true

/-- `reconcile`, once both sides have the branch. -/
def compareHeads [DecidableEq Commit] (report : MirrorReconcile Commit)
    (forge github : Commit) : MirrorReconcile Commit :=
  if github = forge then { report with state := .inSync }
  else
    match answers.fetch with
    | .error err => { report with error := some err }
    | .ok () =>
      if isAncestor answers github forge then pushHead answers report
      else
        { report with
          githubOnlyCommits := answers.revList.getD []
          state := if isAncestor answers forge github then .ahead else .diverged }

/-- `reconcile`, without its pass over the tags. -/
def reconcile [DecidableEq Commit] (branchRef bare : String) : MirrorReconcile Commit :=
  let report : MirrorReconcile Commit :=
    { forgeHead := none, githubHead := none, state := .unknown, caughtUp := false
      githubOnlyCommits := [], error := none, pushes := false }
  match answers.destination with
  | .error why => { report with error := some why }
  | .ok _ =>
    let report := { report with forgeHead := answers.revParse }
    match answers.lsRemote with
    | .error err => { report with error := some err }
    | .ok githubHead =>
      let report := { report with githubHead := githubHead }
      match answers.revParse, githubHead with
      | none, _ =>
        { report with error := some (branchRef ++ " did not resolve in " ++ bare) }
      | some _, none => pushHead answers report
      | some forge, some github => compareHeads answers report forge github

/-- The tests of ancestry that are asked for and not read. -/
def Unread : Prop :=
  ∃ dest forge github, answers.destination = .ok dest ∧ answers.revParse = some forge ∧
    answers.lsRemote = .ok (some github) ∧ github ≠ forge ∧ answers.fetch = .ok () ∧
    (answers.isAncestor github forge = none ∨
      ¬github ≤ forge ∧ answers.isAncestor forge github = none)

/-- What a report says of the two heads is so. -/
structure Right (report : MirrorReconcile Commit) : Prop where
  ahead : report.state = .ahead → ∃ forge github, report.forgeHead = some forge ∧
    report.githubHead = some github ∧ forge < github
  diverged : report.state = .diverged → ∃ forge github, report.forgeHead = some forge ∧
    report.githubHead = some github ∧ ¬forge ≤ github ∧ ¬github ≤ forge
  inSync : report.state = .inSync → report.forgeHead ≠ none ∧
    (report.githubHead = report.forgeHead ∨ report.pushes = true ∧ answers.push = .ok ())
  unread : Unread answers → report.state = .unknown ∨ report.state = .behind
  unfetched : answers.fetch ≠ .ok () → report.state ≠ .ahead ∧ report.state ≠ .diverged
  pushes : report.pushes = true → ∃ forge, report.forgeHead = some forge ∧
    ∀ github, report.githubHead = some github → github ≤ forge

variable {answers} {report : MirrorReconcile Commit} {forge github : Commit}

theorem right_of_unknown (hstate : report.state = .unknown) (hpushes : report.pushes = false) :
    Right answers report := by
  constructor <;> simp [hstate, hpushes]

theorem right_pushHead (hread : ¬Unread answers) (hforge : report.forgeHead = some forge)
    (hbelow : ∀ github, report.githubHead = some github → github ≤ forge) :
    Right answers (pushHead answers report) := by
  unfold pushHead
  cases hpush : answers.push <;>
    exact ⟨by simp, by simp, by simp [hforge, hpush], fun h => absurd h hread, by simp,
      fun _ => ⟨forge, hforge, hbelow⟩⟩

theorem isAncestor_eq_true_iff (hread : answers.isAncestor forge github ≠ none) :
    isAncestor answers forge github = true ↔ forge ≤ github := by
  obtain ⟨answer, hanswer⟩ := Option.ne_none_iff_exists'.mp hread
  rw [isAncestor, hanswer, decide_eq_true_eq, Option.some.injEq]
  exact answers.isAncestor_iff hanswer

theorem right_compareHeads [DecidableEq Commit] (hread : ¬Unread answers)
    (hasks : github ≠ forge → answers.fetch = .ok () →
      answers.isAncestor github forge ≠ none ∧
        (¬github ≤ forge → answers.isAncestor forge github ≠ none))
    (hforge : report.forgeHead = some forge) (hgithub : report.githubHead = some github)
    (hstate : report.state = .unknown) (hpushes : report.pushes = false) :
    Right answers (compareHeads answers report forge github) := by
  unfold compareHeads
  split
  next hsame =>
    exact ⟨by simp, by simp, by simp [hforge, hgithub, hsame], fun h => absurd h hread, by simp,
      by simp [hpushes]⟩
  next hne =>
    split
    · exact right_of_unknown hstate hpushes
    next hfetch =>
      obtain ⟨hfirst, hsecond⟩ := hasks hne hfetch
      split
      next hbelow =>
        refine right_pushHead hread hforge fun other hother => ?_
        obtain rfl := Option.some.inj (hgithub.symm.trans hother)
        exact (isAncestor_eq_true_iff hfirst).mp hbelow
      next hnot =>
        rw [isAncestor_eq_true_iff hfirst] at hnot
        have habove := isAncestor_eq_true_iff (hsecond hnot)
        refine ⟨fun hahead => ?_, fun hdiverged => ?_, ?_, fun h => absurd h hread,
          fun h => absurd hfetch h, by simp [hpushes]⟩
        · have hle : forge ≤ github := by simpa [habove] using hahead
          exact ⟨forge, github, hforge, hgithub, hle.lt_of_not_ge hnot⟩
        · have hneither : ¬forge ≤ github := by simpa [habove] using hdiverged
          exact ⟨forge, github, hforge, hgithub, hneither, hnot⟩
        · split <;> simp

end

/-- A report is right exactly if every test of ancestry it asks for is read. -/
theorem right_reconcile_iff {Commit : Type} [PartialOrder Commit] [DecidableEq Commit]
    (answers : Answers Commit) (branchRef bare : String) :
    Right answers (reconcile answers branchRef bare) ↔ ¬Unread answers := by
  constructor
  · intro hright hunread
    have hstate := hright.unread hunread
    obtain ⟨dest, forge, github, hdest, hforge, hgithub, hne, hfetch, hfailed⟩ := hunread
    have hfirst : isAncestor answers github forge = false := by
      refine Bool.eq_false_iff.mpr fun hyes => ?_
      rcases hfailed with hnone | ⟨hnot, -⟩
      · simp [isAncestor, hnone] at hyes
      · exact hnot ((answers.isAncestor_iff (of_decide_eq_true hyes)).mp rfl)
    simp only [reconcile, hdest, hforge, hgithub, compareHeads, if_neg hne, hfetch,
      hfirst] at hstate
    by_cases habove : isAncestor answers forge github = true <;> simp [habove] at hstate
  · intro hread
    unfold reconcile
    cases hdest : answers.destination with
    | error why => exact right_of_unknown rfl rfl
    | ok dest =>
      cases hremote : answers.lsRemote with
      | error err => exact right_of_unknown rfl rfl
      | ok remote =>
        cases hforge : answers.revParse with
        | none => exact right_of_unknown rfl rfl
        | some forge =>
          cases remote with
          | none => exact right_pushHead hread rfl nofun
          | some github =>
            refine right_compareHeads hread (fun hne hfetch => ?_) rfl rfl rfl rfl
            exact ⟨fun hnone => hread ⟨dest, forge, github, hdest, hforge, hremote, hne, hfetch,
                .inl hnone⟩,
              fun hnot hnone => hread ⟨dest, forge, github, hdest, hforge, hremote, hne, hfetch,
                .inr ⟨hnot, hnone⟩⟩⟩

/-- GitHub's head 1 was rewritten before the fetch, so neither test of ancestry can be read. -/
def rewritten : Answers Nat where
  destination := .ok "https://github.com/acme/app.git"
  revParse := some 0
  lsRemote := .ok (some 1)
  fetch := .ok ()
  isAncestor _ _ := none
  isAncestor_iff := nofun
  revList := none
  push := .ok ()

theorem rewritten_diverged : Unread rewritten ∧
    (reconcile rewritten "refs/heads/main" "app.git").state = .diverged ∧
    (0 : Nat) ≤ 1 := by
  refine ⟨⟨_, 0, 1, rfl, rfl, rfl, by decide, rfl, .inl rfl⟩, by decide +kernel, by decide⟩

/-! ## Excluded tags -/

open List

/-- What follows the first occurrence of a part. -/
def afterFirst (part rest : List Char) : Option (List Char) :=
  (rest.tails.find? part.isPrefixOf).map fun found => found.drop part.length

def globMatch (pattern text : String) : Bool :=
  let parts := pattern.toList.splitOn '*'
  match text.toList.dropPrefix? (parts.headD []) with
  | none => false
  | some rest =>
    match parts.tail.getLast? with
    | none => rest.isEmpty
    | some last =>
      match parts.tail.dropLast.foldlM (fun rest part => afterFirst part rest) rest with
      | none => false
      | some rest => last.length ≤ rest.length && last.isSuffixOf rest

def tagExcluded (patterns : List String) (tag : String) : Bool :=
  patterns.any fun pattern => globMatch pattern tag

/-- The text is the pattern with every star replaced by some run of characters. -/
inductive Fills : List Char → List Char → Prop where
  | nil : Fills [] []
  | star (run : List Char) {pattern text : List Char} (hfills : Fills pattern text) :
      Fills ('*' :: pattern) (run ++ text)
  | char {char : Char} (hchar : char ≠ '*') {pattern text : List Char}
      (hfills : Fills pattern text) : Fills (char :: pattern) (char :: text)

/-- The parts stand in the text in this order, the last one at its end. -/
def Gaps : List (List Char) → List Char → Prop
  | [], rest => rest = []
  | part :: parts, rest => ∃ run after, rest = run ++ (part ++ after) ∧ Gaps parts after

variable {part rest run after last : List Char} {middle : List (List Char)}

theorem fills_iff_gaps (pattern text : List Char) :
    Fills pattern text ↔ ∃ rest, text = (pattern.splitOn '*').headD [] ++ rest ∧
      Gaps (pattern.splitOn '*').tail rest := by
  induction pattern generalizing text with
  | nil =>
    constructor
    · rintro ⟨⟩
      exact ⟨[], rfl, rfl⟩
    · rintro ⟨rest, rfl, rfl⟩
      exact .nil
  | cons char pattern ih =>
    obtain ⟨first, parts, hparts⟩ := exists_cons_of_ne_nil (splitOn_ne_nil '*' pattern)
    simp only [hparts, headD_cons, tail_cons] at ih
    rw [splitOn_cons_eq_if_modifyHead, hparts]
    split
    next hstar =>
      obtain rfl := eq_of_beq hstar
      constructor
      · intro hfills
        cases hfills with
        | star run hfills =>
          obtain ⟨rest, rfl, hgaps⟩ := (ih _).mp hfills
          exact ⟨_, rfl, run, rest, rfl, hgaps⟩
        | char hchar _ => exact absurd rfl hchar
      · rintro ⟨rest, rfl, run, after, rfl, hgaps⟩
        exact .star run ((ih _).mpr ⟨after, rfl, hgaps⟩)
    next hchar =>
      constructor
      · intro hfills
        cases hfills with
        | star _ _ => exact absurd rfl hchar
        | char _ hfills =>
          obtain ⟨rest, rfl, hgaps⟩ := (ih _).mp hfills
          exact ⟨rest, rfl, hgaps⟩
      · rintro ⟨rest, rfl, hgaps⟩
        exact .char (fun hsame => hchar (beq_iff_eq.mpr hsame)) ((ih _).mpr ⟨rest, rfl, hgaps⟩)

theorem eq_append_of_afterFirst (hafter : afterFirst part rest = some after) :
    ∃ run, rest = run ++ (part ++ after) := by
  obtain ⟨found, hfound, rfl⟩ := Option.map_eq_some_iff.mp hafter
  obtain ⟨run, rfl⟩ := (mem_tails _ _).mp (mem_of_find?_eq_some hfound)
  refine ⟨run, ?_⟩
  rw [prefix_iff_eq_append.mp ( isPrefixOf_iff_prefix.mp (find?_some hfound))]

theorem afterFirst_append (part after run : List Char) :
    ∃ next, afterFirst part (run ++ (part ++ after)) = some next ∧ after <:+ next := by
  unfold afterFirst
  induction run with
  | nil =>
    refine ⟨after, ?_, suffix_rfl⟩
    cases hwhole : part ++ after <;> rw [nil_append, tails, find?_cons_of_pos] <;> simp [← hwhole]
  | cons char run ih =>
    rw [cons_append, tails_cons]
    cases hfound : part.isPrefixOf (char :: (run ++ (part ++ after))) with
    | false => rwa [find?_cons_of_neg (by simp [hfound])]
    | true =>
      rw [find?_cons_of_pos hfound]
      refine ⟨_, rfl, suffix_of_suffix_length_le ⟨char :: (run ++ part), by simp⟩
        (drop_suffix ..) ?_⟩
      simp
      omega

/-- Parts are found in a text as well as in what it ends with. -/
theorem Gaps.mono {parts : List (List Char)} {more : List Char} (hgaps : Gaps parts rest)
    (hparts : parts ≠ []) (hmore : rest <:+ more) : Gaps parts more := by
  cases parts with
  | nil => exact absurd rfl hparts
  | cons part parts =>
    obtain ⟨run, after, rfl, hgaps⟩ := hgaps
    obtain ⟨before, rfl⟩ := hmore
    exact ⟨before ++ run, after, by simp, hgaps⟩

theorem gaps_concat_iff : Gaps (middle ++ [last]) rest ↔
    ∃ final, middle.foldlM (fun rest part => afterFirst part rest) rest = some final ∧
      last <:+ final := by
  induction middle generalizing rest with
  | nil => simp [Gaps, IsSuffix, eq_comm]
  | cons part middle ih =>
    rw [cons_append, foldlM_cons]
    constructor
    · rintro ⟨run, after, rfl, hgaps⟩
      obtain ⟨next, hnext, hafter⟩ := afterFirst_append part after run
      rw [hnext]
      exact ih.mp (hgaps.mono (by simp) hafter)
    · rintro ⟨final, hfinal, hlast⟩
      obtain ⟨next, hnext, hrest⟩ := Option.bind_eq_some_iff.mp hfinal
      obtain ⟨run, rfl⟩ := eq_append_of_afterFirst hnext
      exact ⟨run, next, rfl, ih.mpr ⟨final, hrest, hlast⟩⟩

theorem globMatch_eq_true_iff (pattern text : String) :
    globMatch pattern text = true ↔ Fills pattern.toList text.toList := by
  have hstrip : ∀ {first rest : List Char}, text.toList.dropPrefix? first = some rest ↔
      text.toList = first ++ rest := by
    simp [dropPrefix?_eq_some_iff]
  simp only [fills_iff_gaps, ← hstrip, globMatch]
  cases text.toList.dropPrefix? ((pattern.toList.splitOn '*').headD []) with
  | none => simp
  | some rest =>
    simp only [Option.some.injEq, exists_eq_left']
    obtain htail | ⟨middle, last, htail⟩ := eq_nil_or_concat' (pattern.toList.splitOn '*').tail
    · simp [htail, Gaps]
    · rw [htail, gaps_concat_iff, getLast?_concat, dropLast_concat]
      cases middle.foldlM (fun rest part => afterFirst part rest) rest with
      | none => simp
      | some final => simpa using IsSuffix.length_le

/-- A tag is excluded exactly if a pattern fills it, each `*` standing for any characters. -/
theorem tagExcluded_iff :
    (∀ pattern text, globMatch pattern text = true ↔ Fills pattern.toList text.toList) ∧
      ∀ patterns tag, tagExcluded patterns tag = true ↔
        ∃ pattern ∈ patterns, Fills pattern.toList tag.toList := by
  refine ⟨globMatch_eq_true_iff, fun patterns tag => ?_⟩
  rw [tagExcluded, any_eq_true]
  simp only [globMatch_eq_true_iff]

end JeryuForge.GithubMirror
