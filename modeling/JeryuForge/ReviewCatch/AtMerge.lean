import JeryuForge.Library.Newest
import JeryuForge.Pipeline.Pages
import JeryuForge.Replay.SameChange

/-!
# How findings end at a merge

When a pull request merges, a finding with a path is caught if git names the path among those that
differ between the finding's commit and the merged head; the name is compared as git prints it.
The store keeps one resolution of each id.
-/

namespace JeryuForge.ReviewCatch

open List Pipeline

/-- What git says of a repository: the commit that a full or abbreviated id names, the files of a
commit, which files it takes for the old side of a rename, and the lines of `diff --name-only`. -/
structure Git (Commit Content : Type) where
  commitNamed : String → Option Commit
  tree : Commit → Replay.Path → Option Content
  renamedAway : Commit → Commit → Replay.Path → Prop
  quoting : Replay.PathQuoting
  nameOnly : Commit → Commit → List (List Char)
  removed : ∀ {base head path}, renamedAway base head path → tree head path = none
  mem_nameOnly : ∀ {base head line}, line ∈ nameOnly base head ↔ ∃ path,
    tree base path ≠ tree head path ∧ ¬renamedAway base head path ∧ quoting.quote path = line

structure Pull where
  owner : String
  repo : String
  number : Int
  headSha : String

section Resolve

variable {Commit Content : Type} (git : Git Commit Content)

variable (digest : String → String)

variable {git} {digest} {codec : Codec} {store : Store} {pull : Pull}
  {finding : Finding} {sha head : String} {base merged : Commit}

end Resolve

def moved : Git Bool Unit where
  commitNamed oid :=
    if oid = "0000000" then some false else if oid = "1111111" then some true else none
  tree commit path := if path = [if commit then 98 else 97] then some () else none
  renamedAway base head path := base ≠ head ∧ path = [if base then 98 else 97]
  quoting := Replay.plainQuoting
  nameOnly base head :=
    if base = head then [] else [Replay.plainQuoting.quote [if head then 98 else 97]]
  removed := by
    rintro (_ | _) (_ | _) path ⟨hne, rfl⟩ <;> simp at hne ⊢
  mem_nameOnly := by
    have hne : ([97] : Replay.Path) ≠ [98] := by decide
    rintro (_ | _) (_ | _) line <;> simp [ite_eq_iff'] <;> grind

def merged : Pull := ⟨"acme", "app", 7, "1111111"⟩

end JeryuForge.ReviewCatch
