import JeryuForge.MergeQueue.Batches

/-!
# What the gate of the top entry covers

`advance_stack` lands a stack up to the highest entry whose commit is green on the union
of the contexts required up to it.  An entry that requires nothing adds nothing to the
union, although on its own it would need everything reported to be green.  All gates of
the tick read one snapshot of the statuses and check runs.
-/

namespace JeryuForge.MergeQueue

open List

structure Member where
  key : Key
  queueSha : Sha
  required : List String
deriving DecidableEq, Repr

def stackMembers (queue : Queue) (required : OrdMap Key (List String)) (stack : List Key) :
    List Member :=
  stack.map fun key =>
    { key := key
      queueSha := ((queue.entries.get? key).map QueueEntry.queueSha).getD ""
      required := (required.get? key).getD [] }

def restacked (queue : Queue) (base : String) (keys : List Key) (answers : StackAnswers) :
    Checked :=
  let checked := checkStack queue keys answers.pull
  { checked with
    queue := restack checked.queue base (live checked.queue checked.required keys)
      answers.tip answers.rebuild }

def gatedMembers (queue : Queue) (base : String) (keys : List Key)
    (answers : StackAnswers) : List Member :=
  let after := restacked queue base keys answers
  stackMembers after.queue after.required (live after.queue after.required keys)

def handed (queue : Queue) (base : String) (keys : List Key) (answers : StackAnswers) :
    List Gated :=
  let after := restacked queue base keys answers
  landable (gatedStack after.queue after.required (live after.queue after.required keys)
    answers.ownGate answers.coverGate)

/-- The handed batch is what `landStack` is called with. -/
theorem advanceStack_of_handed {queue : Queue} {base : String} {keys : List Key}
    {answers : StackAnswers} (hhanded : handed queue base keys answers ≠ []) :
    let after := restacked queue base keys answers
    let settled := landStack after.queue (handed queue base keys answers) answers.land
    advanceStack queue base keys answers =
      restack settled base (live settled after.required keys)
        answers.tipAgain answers.rebuildAgain := by
  unfold handed restacked at hhanded ⊢
  unfold advanceStack
  dsimp only at hhanded ⊢
  obtain ⟨first, rest, hcons⟩ := exists_cons_of_ne_nil hhanded
  simp only [settleStack, hcons]

section Union

variable {gate : Sha → List String → Option Bool}

def unionOf (union : List String) (members : List Member) : List String :=
  members.foldl (fun union member => addContexts union member.required) union

def gatedFrom (gate : Sha → List String → Option Bool) :
    List String → List Member → List Gated
  | _, [] => []
  | union, member :: rest =>
    { key := member.key
      own := gate member.queueSha member.required
      cover := gate member.queueSha (addContexts union member.required) } ::
      gatedFrom gate (addContexts union member.required) rest

theorem gatedStack_eq_gatedFrom (queue : Queue) (required : OrdMap Key (List String))
    (stack : List Key) :
    gatedStack queue required stack (fun _ => gate) (fun _ => gate) =
      gatedFrom gate [] (stackMembers queue required stack) := by
  -- the union in front of a key is carried along the stack
  have hfrom : ∀ union : List String,
      (stack.zip
        ((stack.map fun key => (required.get? key).getD []).zip
          (coveringContexts union (stack.map fun key => (required.get? key).getD [])))).map
        (fun item =>
          let queueSha := ((queue.entries.get? item.1).map QueueEntry.queueSha).getD ""
          ({ key := item.1, own := gate queueSha item.2.1, cover := gate queueSha item.2.2 } :
            Gated)) =
      gatedFrom gate union (stackMembers queue required stack) := by
    intro union
    induction stack generalizing union with
    | nil => rfl
    | cons key rest ih =>
      simp only [map_cons, coveringContexts, zip_cons_cons, stackMembers, gatedFrom]
      exact congrArg _ (ih _)
  exact hfrom []

theorem gatedFrom_append (union : List String) (lower upper : List Member) :
    gatedFrom gate union (lower ++ upper) =
      gatedFrom gate union lower ++ gatedFrom gate (unionOf union lower) upper := by
  induction lower generalizing union with
  | nil => rfl
  | cons member rest ih =>
    simp only [cons_append, gatedFrom, ih]
    rfl

@[simp]
theorem length_gatedFrom (union : List String) (members : List Member) :
    (gatedFrom gate union members).length = members.length := by
  induction members generalizing union with
  | nil => rfl
  | cons member rest ih => simp [gatedFrom, ih]

theorem mem_addContexts {name : String} {union contexts : List String} :
    name ∈ addContexts union contexts ↔ name ∈ union ∨ name ∈ contexts := by
  unfold addContexts
  induction contexts generalizing union with
  | nil => simp
  | cons context rest ih =>
    rw [foldl_cons, ih]
    split
    next hmem =>
      constructor
      · rintro (hunion | hrest)
        · exact .inl hunion
        · exact .inr (mem_cons_of_mem _ hrest)
      · rintro (hunion | hcons)
        · exact .inl hunion
        · rcases mem_cons.mp hcons with rfl | hrest
          · exact .inl hmem
          · exact .inr hrest
    · simp [or_assoc]

theorem mem_unionOf {name : String} {union : List String} {members : List Member} :
    name ∈ unionOf union members ↔
      name ∈ union ∨ ∃ member ∈ members, name ∈ member.required := by
  unfold unionOf
  induction members generalizing union with
  | nil => simp
  | cons member rest ih => simp [ih, mem_addContexts, or_assoc]

theorem unionOf_eq_nil_iff {members : List Member} :
    unionOf [] members = [] ↔ ∀ member ∈ members, member.required = [] := by
  simp only [eq_nil_iff_forall_not_mem, mem_unionOf]
  grind

theorem gatedFrom_split (gate : Sha → List String → Option Bool) (lower : List Member)
    (top : Member)
    (upper : List Member) :
    gatedFrom gate [] (lower ++ top :: upper) =
      gatedFrom gate [] lower ++
        { key := top.key
          own := gate top.queueSha top.required
          cover := gate top.queueSha (unionOf [] (lower ++ [top])) } ::
          gatedFrom gate (unionOf [] (lower ++ [top])) upper := by
  rw [gatedFrom_append]
  simp only [gatedFrom, unionOf, foldl_append, foldl_cons, foldl_nil]

end Union

/-! ## The highest green entry -/

theorem of_length_rdropWhile_le {α : Type} {drop : α → Bool} {items lower upper : List α} {item : α}
    (hsplit : items = lower ++ item :: upper)
    (hlength : (items.rdropWhile drop).length ≤ lower.length) : drop item = true := by
  subst hsplit
  have hparts : (lower ++ item :: upper).rdropWhile drop ++
      (lower ++ item :: upper).rtakeWhile drop = lower ++ item :: upper :=
    rdropWhile_append_rtakeWhile
  have hmem : item ∈ (lower ++ item :: upper).rtakeWhile drop := by
    have hdropped : ((lower ++ item :: upper).rdropWhile drop ++
        (lower ++ item :: upper).rtakeWhile drop).drop
          ((lower ++ item :: upper).rdropWhile drop).length =
        (lower ++ item :: upper).rtakeWhile drop :=
      drop_left
    rw [hparts] at hdropped
    rw [← hdropped, drop_append_of_le_length hlength]
    simp
  exact mem_rtakeWhile_imp hmem

section Landable

variable {gate : Sha → List String → Option Bool} {members lower upper : List Member}
  {top : Member}

theorem cover_ne_of_length_landable_le (hsplit : members = lower ++ top :: upper)
    (hlength : (landable (gatedFrom gate [] members)).length ≤ lower.length) :
    gate top.queueSha (unionOf [] (lower ++ [top])) ≠ some true := by
  subst hsplit
  rw [← length_gatedFrom [] lower] at hlength
  have hdropped := of_length_rdropWhile_le (gatedFrom_split gate lower top upper) hlength
  exact of_decide_eq_true hdropped

theorem landable_gatedFrom_eq (gate : Sha → List String → Option Bool) (members : List Member) :
    landable (gatedFrom gate [] members) =
      gatedFrom gate [] (members.take (landable (gatedFrom gate [] members)).length) := by
  have hlower : landable (gatedFrom gate [] members) =
      (gatedFrom gate [] members).take (landable (gatedFrom gate [] members)).length :=
    prefix_iff_eq_take.mp ( rdropWhile_prefix _ _)
  have hle : (landable (gatedFrom gate [] members)).length ≤ members.length := by
    have hlength := ( rdropWhile_prefix (fun gated => gated.cover ≠ some true)
      (gatedFrom gate [] members)).length_le
    rwa [length_gatedFrom] at hlength
  conv_lhs => rw [hlower]
  generalize (landable (gatedFrom gate [] members)).length = count at hle ⊢
  conv_lhs => rw [← take_append_drop count members, gatedFrom_append]
  rw [take_left' (by simp [hle])]

theorem cover_of_take_length_landable
    (hbatch : members.take (landable (gatedFrom gate [] members)).length = lower ++ [top]) :
    gate top.queueSha (unionOf [] (lower ++ [top])) = some true := by
  have hlandable := landable_gatedFrom_eq gate members
  rw [hbatch, gatedFrom_split gate lower top []] at hlandable
  have hne : landable (gatedFrom gate [] members) ≠ [] := by
    rw [hlandable]
    simp
  have hcover : ((landable (gatedFrom gate [] members)).getLast hne).cover =
      gate top.queueSha (unionOf [] (lower ++ [top])) := by
    simp [hlandable, gatedFrom]
  by_contra hred
  rw [← hcover] at hred
  exact rdropWhile_last_not _ _ hne (decide_eq_true hred)

end Landable

section Snapshot

variable {Recency : Type} [LinearOrder Recency]

def StackAnswers.onSnapshot (answers : StackAnswers) (core : ForgeCore Recency)
    (owner repo : String) : StackAnswers :=
  { answers with
    ownGate := fun _ => gateVerdict core owner repo
    coverGate := fun _ => gateVerdict core owner repo }

def handedMembers (core : ForgeCore Recency) (owner repo : String) (queue : Queue)
    (base : String) (keys : List Key) (answers : StackAnswers) : List Member :=
  (gatedMembers queue base keys answers).take
    (handed queue base keys (answers.onSnapshot core owner repo)).length

def PassesAll (core : ForgeCore Recency) (owner repo : String) (sha : Sha)
    (members : List Member) : Prop :=
  ∀ member ∈ members, gateVerdict core owner repo sha member.required = some true

/-- The commit of the top of a batch passes the gate of every member, and the commit of
no entry above it passes the gates of all entries up to its own. -/
structure Covered (core : ForgeCore Recency) (owner repo : String)
    (members batch : List Member) : Prop where
  covers : ∀ lower top, batch = lower ++ [top] →
    PassesAll core owner repo top.queueSha batch
  highest : ∀ lower top upper, members = lower ++ top :: upper →
    batch.length ≤ lower.length → ¬PassesAll core owner repo top.queueSha (lower ++ [top])

def ReportsGreen (core : ForgeCore Recency) (owner repo : String) (sha : Sha) : Prop :=
  (∃ name, ReportedOn core owner repo sha name) ∧
    ∀ name, ReportedOn core owner repo sha name → GreenOn core owner repo sha name

/-- A commit is green on every context that some members require; if none of them
requires any, on everything reported. -/
structure UnionGreen (core : ForgeCore Recency) (owner repo : String) (sha : Sha)
    (members : List Member) : Prop where
  required : ∀ member ∈ members, ∀ name ∈ member.required, GreenOn core owner repo sha name
  reported : (∀ member ∈ members, member.required = []) → ReportsGreen core owner repo sha

/-- An entry of a stack is the highest whose commit is green for all entries up to it. -/
structure HighestGreen (core : ForgeCore Recency) (owner repo : String)
    (lower : List Member) (top : Member) (upper : List Member) : Prop where
  green : UnionGreen core owner repo top.queueSha (lower ++ [top])
  above : ∀ between other rest, upper = between ++ other :: rest →
    ¬UnionGreen core owner repo other.queueSha (lower ++ top :: between ++ [other])

variable {core : ForgeCore Recency} {owner repo : String} {sha : Sha}
  {members : List Member}

theorem gateVerdict_unionOf_iff :
    gateVerdict core owner repo sha (unionOf [] members) = some true ↔
      UnionGreen core owner repo sha members := by
  by_cases hempty : unionOf [] members = []
  · have hnone := unionOf_eq_nil_iff.mp hempty
    rw [hempty, gateVerdict_nil_eq_true_iff]
    constructor
    · intro hreported
      refine ⟨?_, fun _ => hreported⟩
      intro member hmember name hname
      rw [hnone member hmember] at hname
      cases hname
    · intro hgreen
      exact hgreen.reported hnone
  · rw [gateVerdict_eq_true_iff hempty]
    constructor
    · intro hgreen
      refine ⟨?_, fun hnone => absurd (unionOf_eq_nil_iff.mpr hnone) hempty⟩
      intro member hmember name hname
      exact hgreen name (mem_unionOf.mpr (.inr ⟨member, hmember, hname⟩))
    · intro hgreen name hname
      rcases mem_unionOf.mp hname with hnil | ⟨member, hmember, hrequired⟩
      · cases hnil
      · exact hgreen.required member hmember name hrequired

theorem passesAll_iff (hmembers : members ≠ []) :
    PassesAll core owner repo sha members ↔
      UnionGreen core owner repo sha members ∧
        ((∃ member ∈ members, member.required = []) → ReportsGreen core owner repo sha) := by
  constructor
  · intro hpasses
    have hreported : (∃ member ∈ members, member.required = []) →
        ReportsGreen core owner repo sha := by
      rintro ⟨member, hmember, hnone⟩
      have hgate := hpasses member hmember
      rw [hnone] at hgate
      exact gateVerdict_nil_eq_true_iff.mp hgate
    refine ⟨⟨?_, ?_⟩, hreported⟩
    · intro member hmember name hname
      exact (gateVerdict_eq_true_iff (ne_nil_of_mem hname)).mp (hpasses member hmember) name hname
    · intro hnone
      obtain ⟨member, hmember⟩ := exists_mem_of_ne_nil members hmembers
      exact hreported ⟨member, hmember, hnone member hmember⟩
  · rintro ⟨hunion, hreported⟩ member hmember
    by_cases hnone : member.required = []
    · rw [hnone]
      exact gateVerdict_nil_eq_true_iff.mpr (hreported ⟨member, hmember, hnone⟩)
    · exact (gateVerdict_eq_true_iff hnone).mpr (hunion.required member hmember)

variable {queue : Queue} {base : String} {keys : List Key} {answers : StackAnswers}
  {lower upper : List Member} {top : Member}

theorem handed_onSnapshot :
    handed queue base keys (answers.onSnapshot core owner repo) =
      landable (gatedFrom (gateVerdict core owner repo) []
        (gatedMembers queue base keys answers)) :=
  congrArg landable (gatedStack_eq_gatedFrom _ _ _)

theorem handedMembers_green
    (hbatch : handedMembers core owner repo queue base keys answers = lower ++ [top]) :
    UnionGreen core owner repo top.queueSha (lower ++ [top]) := by
  unfold handedMembers at hbatch
  rw [handed_onSnapshot] at hbatch
  exact gateVerdict_unionOf_iff.mp (cover_of_take_length_landable hbatch)

theorem not_unionGreen_above (hsplit : gatedMembers queue base keys answers = lower ++ top :: upper)
    (hlength : (handedMembers core owner repo queue base keys answers).length ≤ lower.length) :
    ¬UnionGreen core owner repo top.queueSha (lower ++ [top]) := by
  intro hgreen
  refine cover_ne_of_length_landable_le hsplit ?_ (gateVerdict_unionOf_iff.mpr hgreen)
  have hlower : lower.length < (gatedMembers queue base keys answers).length := by
    rw [hsplit]
    simp
  unfold handedMembers at hlength
  rw [handed_onSnapshot, length_take] at hlength
  omega

theorem handedMembers_isPrefix (core : ForgeCore Recency) (owner repo : String)
    (queue : Queue) (base : String) (keys : List Key) (answers : StackAnswers) :
    handedMembers core owner repo queue base keys answers <+:
      gatedMembers queue base keys answers :=
  take_prefix _ _

theorem handedMembers_highestGreen
    (hbatch : handedMembers core owner repo queue base keys answers = lower ++ [top]) :
    ∃ upper, gatedMembers queue base keys answers = lower ++ top :: upper ∧
      HighestGreen core owner repo lower top upper := by
  obtain ⟨upper, hmembers⟩ := handedMembers_isPrefix core owner repo queue base keys answers
  rw [hbatch, append_assoc, singleton_append] at hmembers
  refine ⟨upper, hmembers.symm, handedMembers_green hbatch, ?_⟩
  rintro between other rest rfl
  have habove : gatedMembers queue base keys answers =
      (lower ++ top :: between) ++ other :: rest := by
    rw [← hmembers]
    simp
  refine not_unionGreen_above habove ?_
  rw [hbatch]
  simp

theorem handedMembers_eq_of_highestGreen
    (hsplit : gatedMembers queue base keys answers = lower ++ top :: upper)
    (hhighest : HighestGreen core owner repo lower top upper) :
    handedMembers core owner repo queue base keys answers = lower ++ [top] := by
  have hlonger : lower.length <
      (handedMembers core owner repo queue base keys answers).length := by
    by_contra hshort
    exact not_unionGreen_above hsplit (not_lt.mp hshort) hhighest.green
  rcases eq_nil_or_concat (handedMembers core owner repo queue base keys answers) with
    hnil | ⟨below, last, hbatch⟩
  · simp [hnil] at hlonger
  · rw [concat_eq_append] at hbatch
    obtain ⟨rest, hmembers⟩ :=
      handedMembers_isPrefix core owner repo queue base keys answers
    rw [hbatch, hsplit, append_assoc, singleton_append] at hmembers
    rw [hbatch]
    rcases append_eq_append_iff.mp hmembers with
      ⟨between, hlower, hrest⟩ | ⟨between, hbelow, hrest⟩
    · -- not below it: the batch is longer than what is below
      rw [hbatch, hlower] at hlonger
      simp only [length_append, length_singleton] at hlonger
      obtain rfl : between = [] := eq_nil_of_length_eq_zero (by omega)
      rw [append_nil] at hlower
      cases hrest
      rw [hlower]
    · cases between with
      | nil =>
        rw [append_nil] at hbelow
        cases hrest
        rw [hbelow]
      | cons first between =>
        -- not above it: the last of the batch would be green there
        cases hrest
        rw [hbelow] at hbatch
        exact absurd (handedMembers_green hbatch) (hhighest.above between last rest rfl)

end Snapshot

/-- What is handed to `landStack` is covered by the top's gate if the highest entry that
is green for all up to it has everything reported green, in case one of them requires
nothing. -/
theorem handed_covered_iff {Recency : Type} [LinearOrder Recency] (core : ForgeCore Recency)
    (owner repo : String) (queue : Queue) (base : String) (keys : List Key)
    (answers : StackAnswers) :
    Covered core owner repo (gatedMembers queue base keys answers)
        (handedMembers core owner repo queue base keys answers) ↔
      ∀ lower top upper, gatedMembers queue base keys answers = lower ++ top :: upper →
        HighestGreen core owner repo lower top upper →
          (∃ member ∈ lower ++ [top], member.required = []) →
            ReportsGreen core owner repo top.queueSha := by
  constructor
  · intro hcovered lower top upper hsplit hhighest hnone
    have hbatch := handedMembers_eq_of_highestGreen hsplit hhighest
    have hpasses := hcovered.covers lower top hbatch
    rw [hbatch] at hpasses
    exact ((passesAll_iff (by simp)).mp hpasses).2 hnone
  · intro hreported
    refine ⟨?_, ?_⟩
    · intro lower top hbatch
      rw [hbatch]
      obtain ⟨upper, hsplit, hhighest⟩ := handedMembers_highestGreen hbatch
      refine (passesAll_iff (by simp)).mpr ⟨hhighest.green, ?_⟩
      exact hreported lower top upper hsplit hhighest
    · intro lower top upper hsplit hlength hpasses
      exact not_unionGreen_above hsplit hlength ((passesAll_iff (by simp)).mp hpasses).1

def twoQueued : Queue :=
  let entry (number : Nat) := newEntry (thirdOf number) (openPull number) (joinAnswers number '1')
  (Queue.empty.put (thirdOf 1) { entry 1 with
    baseSha := commitOf '0', queueSha := commitOf '1' }).put (thirdOf 2) { entry 2 with
      baseSha := commitOf '1', queueSha := commitOf '2', after := some 1 }

/-- Only the second pull request needs a proof; the first one requires nothing. -/
def proofOnSecond : StackAnswers :=
  { onTip (.ok (some (commitOf '0'))) fun _ _ _ => none with
    pull := fun key =>
      some { openPull key.number with
        required := if key.number = 2 then ["jankurai/proof"] else [] } }

def ofGatebot (context : String) (state : CommitStatusState) : CommitStatus :=
  { context := context, state := state, base := none, creator := "gatebot",
    targetUrl := none, description := none, updatedAt := 1 }

def redLint : ForgeCore Nat where
  combinedStatus _ _ _ := .ok [ofGatebot "jankurai/proof" .success, ofGatebot "ci/lint" .failure]
  combinedStatusForBase _ _ _ _ :=
    .ok [ofGatebot "jankurai/proof" .success, ofGatebot "ci/lint" .failure]
  forBase _ _ _ _ := rfl
  listCheckRuns _ _ _ := .ok []
  recencyKey := CheckRun.creationSequence

/-- Both entries are handed to `landStack`, although the top's commit is red under the
gate of the first one. -/
theorem proofOnSecond_handed :
    (handed twoQueued "main" [thirdOf 1, thirdOf 2]
        (proofOnSecond.onSnapshot redLint "acme" "forge")).map Gated.key =
        [thirdOf 1, thirdOf 2] ∧
      gateVerdict redLint "acme" "forge" (commitOf '2') [] = some false ∧
      ¬Covered redLint "acme" "forge"
        (gatedMembers twoQueued "main" [thirdOf 1, thirdOf 2] proofOnSecond)
        (handedMembers redLint "acme" "forge" twoQueued "main" [thirdOf 1, thirdOf 2]
          proofOnSecond) := by
  have hred : gateVerdict redLint "acme" "forge" (commitOf '2') [] = some false := by
    decide +kernel
  have hbatch : handedMembers redLint "acme" "forge" twoQueued "main"
      [thirdOf 1, thirdOf 2] proofOnSecond =
      [{ key := thirdOf 1, queueSha := commitOf '1', required := [] }] ++
        [{ key := thirdOf 2, queueSha := commitOf '2', required := ["jankurai/proof"] }] := by
    decide +kernel
  refine ⟨by decide +kernel, hred, ?_⟩
  intro hcovered
  have hpasses := hcovered.covers _ _ hbatch
  cases hred.symm.trans (hpasses _ mem_cons_self)

end JeryuForge.MergeQueue
