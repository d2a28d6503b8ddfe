import Mathlib

/-!
# Depth-first search with an explicit stack

A node is taken from the stack twice: when it is entered, its links go on the stack above
a mark, and when the mark is reached the node is finished.  A node that is met while it is
entered closes a cycle.  The search fails at a node that is to be avoided, at one that is
not there and at a cycle; it succeeds exactly if none of these can be reached.
-/

universe u

namespace DepthFirst

open List

structure Graph (κ : Type u) where
  links : κ → Option (List κ)
  nodes : List κ
  mem_nodes : ∀ node next, links node = some next → node ∈ nodes

inductive Failure (κ : Type u) where
  | avoided
  | missing (node : κ)
  | cycle
deriving DecidableEq, Repr

variable {κ : Type u} (graph : Graph κ)

def Graph.Edge (node next : κ) : Prop :=
  ∃ links, graph.links node = some links ∧ next ∈ links

def Graph.Reaches : κ → κ → Prop :=
  Relation.ReflTransGen graph.Edge

def Graph.OnCycle (node : κ) : Prop :=
  Relation.TransGen graph.Edge node node

inductive Graph.Clear (avoid : κ) : κ → Prop
  | intro (node : κ) (links : List κ) (hne : node ≠ avoid)
      (hlinks : graph.links node = some links)
      (hclear : ∀ next ∈ links, Graph.Clear avoid next) : Graph.Clear avoid node

variable {graph} {avoid node : κ} {links finished visiting : List κ}

theorem Graph.Clear.of_edge {next : κ} (hclear : graph.Clear avoid node)
    (hedge : graph.Edge node next) : graph.Clear avoid next := by
  obtain ⟨links, hlinks, hnext⟩ := hedge
  cases hclear with
  | intro _ others hne hothers hall =>
    rw [hlinks] at hothers
    cases hothers
    exact hall next hnext

theorem Graph.Clear.of_reaches {other : κ} (hclear : graph.Clear avoid node)
    (hreaches : graph.Reaches node other) : graph.Clear avoid other := by
  induction hreaches with
  | refl => exact hclear
  | tail _ hedge ih => exact ih.of_edge hedge

theorem Graph.Clear.not_onCycle (hclear : graph.Clear avoid node) : ¬graph.OnCycle node := by
  induction hclear with
  | intro node links hne hlinks hall ih =>
    intro hcycle
    obtain ⟨next, hedge, hback⟩ := Relation.TransGen.head'_iff.mp hcycle
    obtain ⟨others, hothers, hnext⟩ := hedge
    rw [hlinks] at hothers
    cases hothers
    have hnextCycle : graph.OnCycle next :=
      Relation.TransGen.tail' hback ⟨links, hlinks, hnext⟩
    exact ih next hnext hnextCycle

structure Graph.ReachesOnly (graph : Graph κ) (avoid node : κ) : Prop where
  avoids : ∀ other, graph.Reaches node other → other ≠ avoid
  present : ∀ other, graph.Reaches node other → (graph.links other).isSome
  acyclic : ∀ other, graph.Reaches node other → ¬graph.OnCycle other

theorem Graph.ReachesOnly.clear (honly : graph.ReachesOnly avoid node) :
    graph.Clear avoid node := by
  let Reached := { other : κ // graph.Reaches node other }
  have hfinite : Finite Reached := by
    have hsubset : { other | graph.Reaches node other } ⊆ { other | other ∈ graph.nodes } := by
      intro other hother
      obtain ⟨links, hlinks⟩ := Option.isSome_iff_exists.mp (honly.present other hother)
      exact graph.mem_nodes other links hlinks
    exact ((finite_toSet graph.nodes).subset hsubset).to_subtype
  let below (lower upper : Reached) : Prop := Relation.TransGen graph.Edge upper.1 lower.1
  have hirrefl : Std.Irrefl below := ⟨fun reached => honly.acyclic reached.1 reached.2⟩
  have hwell : WellFounded below := Finite.wellFounded_of_trans_of_irrefl below
  have hall : ∀ reached : Reached, graph.Clear avoid reached.1 := by
    intro reached
    induction reached using hwell.induction with
    | _ reached ih =>
      obtain ⟨other, hother⟩ := reached
      obtain ⟨links, hlinks⟩ := Option.isSome_iff_exists.mp (honly.present other hother)
      refine .intro other links (honly.avoids other hother) hlinks ?_
      intro next hnext
      have hedge : graph.Edge other next := ⟨links, hlinks, hnext⟩
      exact ih ⟨next, hother.tail hedge⟩ (Relation.TransGen.single hedge)
  exact hall ⟨node, Relation.ReflTransGen.refl⟩

theorem Graph.clear_iff : graph.Clear avoid node ↔ graph.ReachesOnly avoid node := by
  constructor
  · intro hclear
    refine ⟨?_, ?_, ?_⟩
    · intro other hreaches
      cases hclear.of_reaches hreaches with
      | intro _ links hne hlinks hall => exact hne
    · intro other hreaches
      cases hclear.of_reaches hreaches with
      | intro _ links hne hlinks hall => simp [hlinks]
    · intro other hreaches
      exact (hclear.of_reaches hreaches).not_onCycle
  · exact Graph.ReachesOnly.clear

section Search

variable [DecidableEq κ]

def Graph.unvisited (graph : Graph κ) (visiting finished : List κ) : List κ :=
  graph.nodes.filter fun node => node ∉ visiting ∧ node ∉ finished

theorem length_unvisited_le {visiting finished others done : List κ}
    (hkept : ∀ node, node ∈ visiting ∨ node ∈ finished → node ∈ others ∨ node ∈ done) :
    (graph.unvisited others done).length ≤ (graph.unvisited visiting finished).length := by
  refine (monotone_filter_right graph.nodes ?_).length_le
  intro node hnode
  simp only [decide_eq_true_eq] at hnode ⊢
  have hnew := mt (hkept node)
  tauto

theorem length_unvisited_lt {visiting finished : List κ} {node : κ} {links : List κ}
    (hlinks : graph.links node = some links) (hvisiting : node ∉ visiting)
    (hfinished : node ∉ finished) :
    (graph.unvisited (node :: visiting) finished).length <
      (graph.unvisited visiting finished).length := by
  have hmem : node ∈ graph.unvisited visiting finished := by
    simp [Graph.unvisited, graph.mem_nodes node links hlinks, hvisiting, hfinished]
  have hsplit : graph.unvisited (node :: visiting) finished =
      (graph.unvisited visiting finished).filter (· ≠ node) := by
    unfold Graph.unvisited
    rw [filter_filter]
    apply filter_congr
    intro other _
    simp [and_assoc]
  rw [hsplit]
  exact length_filter_lt_length_iff_exists.mpr ⟨node, hmem, by simp⟩

abbrev Pending (κ : Type u) := List (κ × Bool)

variable {rest : Pending κ}

def pushed (nodes : List κ) : Pending κ :=
  nodes.reverse.map (·, false)

def remove (node : κ) (visiting : List κ) : List κ :=
  visiting.filter (· ≠ node)

variable (graph avoid)

def search (pending : Pending κ) (visiting finished : List κ) : Except (Failure κ) Unit :=
  match pending with
  | [] => .ok ()
  | (node, true) :: rest => search rest (remove node visiting) (node :: finished)
  | (node, false) :: rest =>
    if node = avoid then .error .avoided
    else if node ∈ finished then search rest visiting finished
    else
      match _ : graph.links node with
      | none => .error (.missing node)
      | some links =>
        if node ∈ visiting then .error .cycle
        else
          search (pushed links ++ (node, true) :: rest)
            (node :: visiting) finished
termination_by ((graph.unvisited visiting finished).length, pending.length)
decreasing_by
  · refine Prod.Lex.right' _ (length_unvisited_le ?_) (by simp)
    intro other hother
    by_cases hsame : other = node
    · exact Or.inr (by simp [hsame])
    · rcases hother with hother | hother
      · exact Or.inl (by simp [remove, hother, hsame])
      · exact Or.inr (mem_cons_of_mem _ hother)
  · exact Prod.Lex.right _ (by simp)
  · exact Prod.Lex.left _ _ (length_unvisited_lt ‹_› ‹_› ‹_›)

variable {graph avoid}

theorem search_enter (hne : node ≠ avoid) (hfinished : node ∉ finished)
    (hlinks : graph.links node = some links) (hvisiting : node ∉ visiting) :
    search graph avoid ((node, false) :: rest) visiting finished =
      search graph avoid (pushed links ++ (node, true) :: rest) (node :: visiting)
        finished := by
  rw [search, if_neg hne, if_neg hfinished]
  split
  · simp_all
  next others hothers =>
    rw [hlinks] at hothers
    cases hothers
    rw [if_neg hvisiting]

end Search

/-- Each entered node has its links among the nodes that are finished or above it. -/
def Covered (graph : Graph κ) : List κ → Pending κ → Prop
  | _, [] => True
  | known, (node, entered) :: rest =>
    (entered = true → ∀ links, graph.links node = some links → ∀ next ∈ links, next ∈ known) ∧
      Covered graph (node :: known) rest

theorem Covered.mono {known others : List κ} {pending : Pending κ}
    (hcovered : Covered graph known pending) (hsubset : known ⊆ others) :
    Covered graph others pending := by
  induction pending generalizing known others with
  | nil => trivial
  | cons entry rest ih =>
    obtain ⟨hlinks, hrest⟩ := hcovered
    exact ⟨fun hentered links hnode next hnext =>
        hsubset (hlinks hentered links hnode next hnext),
      ih hrest (cons_subset_cons _ hsubset)⟩

theorem covered_append {known : List κ} (hrest : Covered graph (links ++ known) rest) :
    Covered graph known (pushed links ++ rest) := by
  unfold pushed
  induction links using reverseRecOn generalizing known with
  | nil => exact hrest
  | append_singleton links next ih =>
    rw [reverse_concat, map_cons, cons_append]
    refine ⟨fun hentered => absurd hentered Bool.false_ne_true, ih ?_⟩
    simpa using hrest

structure Sound (graph : Graph κ) (avoid : κ) (pending : Pending κ) (finished : List κ) :
    Prop where
  covered : Covered graph finished pending
  clear : ∀ node ∈ finished, graph.Clear avoid node
  entered : ∀ node, (node, true) ∈ pending →
    node ≠ avoid ∧ ∃ links, graph.links node = some links

theorem Sound.leave (hsound : Sound graph avoid ((node, true) :: rest) finished) :
    graph.Clear avoid node ∧ Sound graph avoid rest (node :: finished) := by
  obtain ⟨hne, links, hlinks⟩ := hsound.entered node (by simp)
  have hnext : ∀ next ∈ links, next ∈ finished := hsound.covered.1 rfl links hlinks
  have hclear : graph.Clear avoid node :=
    .intro node links hne hlinks fun next hmem => hsound.clear next (hnext next hmem)
  refine ⟨hclear, hsound.covered.2, ?_, ?_⟩
  · intro other hother
    rcases mem_cons.mp hother with rfl | hother
    · exact hclear
    · exact hsound.clear other hother
  · intro other hother
    exact hsound.entered other (mem_cons_of_mem _ hother)

theorem Sound.skip (hsound : Sound graph avoid ((node, false) :: rest) finished)
    (hfinished : node ∈ finished) : Sound graph avoid rest finished where
  covered := hsound.covered.2.mono (cons_subset.mpr ⟨hfinished, List.Subset.refl _⟩)
  clear := hsound.clear
  entered other hother := hsound.entered other (mem_cons_of_mem _ hother)

theorem Sound.enter (hsound : Sound graph avoid ((node, false) :: rest) finished)
    (hne : node ≠ avoid) (hlinks : graph.links node = some links) :
    Sound graph avoid (pushed links ++ (node, true) :: rest) finished where
  covered := by
    refine covered_append ⟨?_, ?_⟩
    · intro _ others hothers next hnext
      rw [hlinks] at hothers
      cases hothers
      simp [hnext]
    · refine hsound.covered.2.mono ?_
      intro other hother
      rcases mem_cons.mp hother with rfl | hother
      · simp
      · simp [hother]
  clear := hsound.clear
  entered := by
    intro other hother
    rcases mem_append.mp hother with hother | hother
    · simp [pushed] at hother
    · rcases mem_cons.mp hother with hsame | hother
      · cases hsame
        exact ⟨hne, links, hlinks⟩
      · exact hsound.entered other (mem_cons_of_mem _ hother)

section Run

variable [DecidableEq κ]

theorem clear_of_search {pending : Pending κ} {visiting finished : List κ}
    (hsound : Sound graph avoid pending finished)
    (hok : search graph avoid pending visiting finished = .ok ()) :
    ∀ entry ∈ pending, graph.Clear avoid entry.1 := by
  induction pending, visiting, finished using search.induct graph avoid with
  | case1 => simp
  | case2 visiting finished node rest ih =>
    rw [search] at hok
    obtain ⟨hclear, hrest⟩ := hsound.leave
    simpa [hclear] using ih hrest hok
  | case3 visiting finished rest =>
    rw [search, if_pos rfl] at hok
    cases hok
  | case4 visiting finished node rest hne hfinished ih =>
    rw [search, if_neg hne, if_pos hfinished] at hok
    simpa [hsound.clear node hfinished] using ih (hsound.skip hfinished) hok
  | case5 visiting finished node rest hne hfinished hlinks =>
    rw [search, if_neg hne, if_neg hfinished] at hok
    split at hok
    · cases hok
    · simp_all
  | case6 visiting finished node rest hne hfinished links hlinks hvisiting =>
    rw [search, if_neg hne, if_neg hfinished] at hok
    split at hok
    · cases hok
    · rw [if_pos hvisiting] at hok
      cases hok
  | case7 visiting finished node rest hne hfinished links hlinks hvisiting ih =>
    rw [search_enter hne hfinished hlinks hvisiting] at hok
    have hall := ih (hsound.enter hne hlinks) hok
    intro entry hentry
    rcases mem_cons.mp hentry with rfl | hentry
    · exact hall (node, true) (by simp)
    · exact hall entry (by simp [hentry])

end Run

/-- What holds of the search while only clear nodes are on the stack: what is above an
entered node is reached from it. -/
structure Complete (graph : Graph κ) (avoid : κ) (pending : Pending κ)
    (visiting : List κ) : Prop where
  clear : ∀ entry ∈ pending, graph.Clear avoid entry.1
  visiting : ∀ node ∈ visiting, (node, true) ∈ pending
  above : pending.Pairwise fun upper lower =>
    lower.2 = true → Relation.TransGen graph.Edge lower.1 upper.1

theorem Complete.leave [DecidableEq κ]
    (hcomplete : Complete graph avoid ((node, true) :: rest) visiting) :
    Complete graph avoid rest (remove node visiting) where
  clear entry hentry := hcomplete.clear entry (mem_cons_of_mem _ hentry)
  visiting := by
    intro other hother
    obtain ⟨hmem, hne⟩ := mem_filter.mp hother
    rcases mem_cons.mp (hcomplete.visiting other hmem) with hsame | hrest
    · cases hsame
      simp at hne
    · exact hrest
  above := hcomplete.above.of_cons

theorem pairwise_pushed (links : List κ) : (pushed links).Pairwise fun upper lower =>
    lower.2 = true → Relation.TransGen graph.Edge lower.1 upper.1 := by
  unfold pushed
  rw [pairwise_map]
  exact pairwise_of_forall fun _ _ hmark => absurd hmark Bool.false_ne_true

section Complete

variable {rest : Pending κ}
  (hcomplete : Complete graph avoid ((node, false) :: rest) visiting)
include hcomplete

theorem Complete.marked : ∀ other ∈ visiting, (other, true) ∈ rest := by
  intro other hother
  rcases mem_cons.mp (hcomplete.visiting other hother) with hsame | hrest
  · cases hsame
  · exact hrest

theorem Complete.skip : Complete graph avoid rest visiting where
  clear entry hentry := hcomplete.clear entry (mem_cons_of_mem _ hentry)
  visiting := hcomplete.marked
  above := hcomplete.above.of_cons

theorem Complete.not_visiting : node ∉ visiting := by
  intro hvisiting
  have hcycle : graph.OnCycle node :=
    (pairwise_cons.mp hcomplete.above).1 (node, true) (hcomplete.marked node hvisiting) rfl
  exact (hcomplete.clear (node, false) (by simp)).not_onCycle hcycle

theorem Complete.enter (hlinks : graph.links node = some links) :
    Complete graph avoid (pushed links ++ (node, true) :: rest)
      (node :: visiting) where
  clear := by
    have hnode := hcomplete.clear (node, false) (by simp)
    intro entry hentry
    rcases mem_append.mp hentry with hentry | hentry
    · obtain ⟨next, hnext, rfl⟩ := mem_map.mp hentry
      exact hnode.of_edge ⟨links, hlinks, by simpa using hnext⟩
    · rcases mem_cons.mp hentry with rfl | hentry
      · exact hnode
      · exact hcomplete.clear entry (mem_cons_of_mem _ hentry)
  visiting := by
    intro other hother
    rcases mem_cons.mp hother with rfl | hother
    · simp
    · simp [hcomplete.marked other hother]
  above := by
    obtain ⟨hnode, hrest⟩ := pairwise_cons.mp hcomplete.above
    have hedge : ∀ next ∈ links, graph.Edge node next :=
      fun next hnext => ⟨links, hlinks, hnext⟩
    refine pairwise_append.mpr ⟨pairwise_pushed links, pairwise_cons.mpr ⟨hnode, hrest⟩, ?_⟩
    intro upper hupper lower hlower hmark
    obtain ⟨next, hnext, rfl⟩ := mem_map.mp hupper
    have hlast := hedge next (by simpa using hnext)
    rcases mem_cons.mp hlower with rfl | hlower
    · exact Relation.TransGen.single hlast
    · exact (hnode lower hlower hmark).tail hlast

end Complete

section Run

variable [DecidableEq κ]

theorem search_of_complete {pending : Pending κ} {visiting finished : List κ}
    (hcomplete : Complete graph avoid pending visiting) :
    search graph avoid pending visiting finished = .ok () := by
  induction pending, visiting, finished using search.induct graph avoid with
  | case1 => rw [search]
  | case2 visiting finished node rest ih =>
    rw [search]
    exact ih hcomplete.leave
  | case3 visiting finished rest =>
    cases hcomplete.clear (avoid, false) (by simp) with
    | intro _ links hne hlinks hall => exact absurd rfl hne
  | case4 visiting finished node rest hne hfinished ih =>
    rw [search, if_neg hne, if_pos hfinished]
    exact ih hcomplete.skip
  | case5 visiting finished node rest hne hfinished hnone =>
    cases hcomplete.clear (node, false) (by simp) with
    | intro _ links _ hlinks hall =>
      rw [hnone] at hlinks
      cases hlinks
  | case6 visiting finished node rest hne hfinished links hlinks hvisiting =>
    exact absurd hvisiting hcomplete.not_visiting
  | case7 visiting finished node rest hne hfinished links hlinks hvisiting ih =>
    rw [search_enter hne hfinished hlinks hvisiting]
    exact ih (hcomplete.enter hlinks)

theorem search_ok_iff {targets : List κ} :
    search graph avoid (pushed targets) [] [] = .ok () ↔
      ∀ target ∈ targets, graph.ReachesOnly avoid target := by
  have hunmarked : ∀ node, (node, true) ∉ pushed targets := by
    simp [pushed]
  constructor
  · intro hok target htarget
    have hcovered : Covered graph [] (pushed targets) := by
      have hnil : Covered graph (targets ++ []) [] := trivial
      simpa using covered_append hnil
    have hsound : Sound graph avoid (pushed targets) [] :=
      ⟨hcovered, by simp, fun node hnode => absurd hnode (hunmarked node)⟩
    have hclear := clear_of_search hsound hok (target, false)
      (mem_map.mpr ⟨target, mem_reverse.mpr htarget, rfl⟩)
    exact Graph.clear_iff.mp hclear
  · intro honly
    refine search_of_complete ⟨?_, by simp, pairwise_pushed targets⟩
    intro entry hentry
    obtain ⟨target, htarget, rfl⟩ := mem_map.mp hentry
    exact (honly target (mem_reverse.mp htarget)).clear

end Run

end DepthFirst
