import Mathlib.Data.Char
import Mathlib.Data.List.Dedup
import Mathlib.Data.List.Lex
import Mathlib.Data.List.Sort
import OnceBuild.Actions.DeclaredAction
import OnceBuild.Lib.Assoc

/-!
# Cache hits that are not on disk yet

A cache hit leaves its outputs pending.  Before an action runs, `restoreWith` puts the pending
outputs on disk that the action may read or that it is about to overwrite, and then the available
outputs that its declared inputs come from.

A workspace maps paths to the contents stored there; a directory is there when something below it
is.  Restoring an output replaces what is at and below its path by the tree that the cache keeps
under its digest.
-/

namespace OnceBuild.Actions

open Lib List
open Cas (Digest)

/-- What is stored at each path of the workspace. -/
abbrev Disk (C : Type) := Path → C

/-- The order of a `BTreeSet` of paths, by components: paths that do not lie below each other may be
taken in any order. -/
def sortPaths (paths : List Path) : List Path := paths.dedup.insertionSort (· ≤ ·)

structure Outputs where
  entries : List (Path × Digest)
  sorted : entries.Pairwise fun a b => a.1 < b.1

namespace Outputs

def keys (o : Outputs) : List Path := o.entries.map Prod.fst

def get (o : Outputs) (path : Path) : Option Digest := o.entries.lookup path

def isEmpty (o : Outputs) : Bool := o.entries.isEmpty

/-- `BTreeMap::retain` by path. -/
def retain (o : Outputs) (keep : Path → Bool) : Outputs where
  entries := o.entries.filter fun entry => keep entry.1
  sorted := o.sorted.filter _

end Outputs

structure PendingResults where
  /-- Restored when the target finishes. -/
  restoredAtEnd : List Outputs
  /-- Restored only before an action that may read them without declaring them. -/
  intermediate : List Outputs

namespace PendingResults

def empty : PendingResults := ⟨[], []⟩

def all (p : PendingResults) : List Outputs := p.restoredAtEnd ++ p.intermediate

def prior (p : PendingResults) : List Path := sortPaths (p.all.flatMap Outputs.keys)

end PendingResults

/-! ## Restoring what an action needs -/

def requiredOutputs (available : AvailableInputs) (declared : DeclaredAction) : List Path :=
  sortPaths (declared.inputs.filterMap fun input => (closest available input).map Prod.fst)

variable (host : PathHost)

/-- The paths that the action would change, as far as pending outputs could be there. -/
def mutations (prior : List Path) (declared : DeclaredAction) : List Path :=
  declared.touchedPaths.filterMap fun touched =>
    match touched with
    | .replaced path => some path
    | .created path => if creationConflicts host path prior then some path else none

def restoresAll (pending : PendingResults) (required : List Path)
    (declared : DeclaredAction) : Bool :=
  let prior := pending.prior
  let unselected := prior.filter fun path => !required.any (pathsOverlap path)
  declared.dependsOnPriorActions ||
    !disjointPaths host prior (mutations host prior declared) ||
    !disjointPaths host unselected required

/-- The pending outputs to restore, in the order of restoring them. -/
def selectedOutputs (all : Bool) (pending : PendingResults) (required : List Path) : List Outputs :=
  (pending.all.map fun result => result.retain fun path =>
    all || required.any (pathsOverlap path)).filter fun result => !result.isEmpty

/-- Required outputs that the selected ones just put on disk. -/
def reusableInputs (pending : PendingResults) (available : AvailableInputs)
    (required : List Path) : List Path :=
  let matching := required.filter fun path =>
    (pending.all.filterMap fun result => result.get path).getLast? ==
      (available path).map AvailableInput.blobDigest
  independentMembers host pending.prior matching

/-- Required outputs that are put on disk from what is available. -/
def replacedInputs (available : AvailableInputs) (required reusable : List Path) :
    List (Path × Digest) :=
  (required.filter fun path => !reusable.contains path).filterMap fun path =>
    match available path with
    | some input => if input.materialized then none else some (path, input.blobDigest)
    | none => none

/-- What `restore_with` is going to do. -/
structure RestorePlan where
  required : List Path
  all : Bool
  /-- Pending outputs, put on disk first. -/
  selected : List (Path × Digest)
  /-- Available outputs, put on disk over them. -/
  replaced : List (Path × Digest)

def restorePlan (pending : PendingResults) (available : AvailableInputs)
    (declared : DeclaredAction) : RestorePlan :=
  let required := requiredOutputs available declared
  let all := restoresAll host pending required declared
  let reusable := if all then [] else reusableInputs host pending available required
  { required := required
    all := all
    selected := (selectedOutputs all pending required).flatMap Outputs.entries
    replaced := replacedInputs available required reusable }

structure Restoration where
  paths : List Path
  ready : List Path

/-- A pending output that was put on disk does not count when one above it was put there again. -/
def RestorePlan.restoration (plan : RestorePlan) : Restoration :=
  let kept := (plan.selected.map Prod.fst).filter fun path =>
    !plan.replaced.any fun parent => parent.1.isPrefixOf path && !(parent.1 == path)
  let paths := kept ++ plan.replaced.map Prod.fst
  ⟨paths, paths ++ plan.required⟩

variable {C : Type}

/-- `restore_with`: the disk and what was restored. -/
def restoreWith (blob : Digest → Disk C) (pending : PendingResults)
    (available : AvailableInputs) (declared : DeclaredAction) (disk : Disk C) :
    Disk C × Restoration :=
  let plan := restorePlan host pending available declared
  (writeAll blob plan.replaced (writeAll blob plan.selected disk), plan.restoration)

/-! ## Lists in order -/

lemma mem_sortPaths {paths : List Path} {path : Path} : path ∈ sortPaths paths ↔ path ∈ paths := by
  rw [sortPaths, mem_insertionSort, mem_dedup]

lemma sorted_sortPaths (paths : List Path) : (sortPaths paths).Pairwise (· < ·) := by
  have hle := pairwise_insertionSort (· ≤ ·) paths.dedup
  have hne : (sortPaths paths).Nodup :=
    (perm_insertionSort (· ≤ ·) paths.dedup).nodup_iff.mpr (nodup_dedup paths)
  exact (hle.and hne).imp fun h => lt_of_le_of_ne h.1 h.2

lemma parentFirst_of_sorted {entries : List (Path × Digest)}
    (h : entries.Pairwise fun a b => a.1 < b.1) : ParentFirst entries :=
  h.imp fun hlt hprefix => absurd hlt (List.not_lt.mpr hprefix.le)

lemma Outputs.parentFirst (o : Outputs) : ParentFirst o.entries := parentFirst_of_sorted o.sorted

def outputsAt (paths : List Path) (digest : Path → Digest) : Outputs where
  entries := (sortPaths paths).map fun path => (path, digest path)
  sorted := pairwise_map.mpr (sorted_sortPaths paths)

lemma mem_outputsAt {paths : List Path} {digest : Path → Digest} {entry : Path × Digest} :
    entry ∈ (outputsAt paths digest).entries ↔ entry.1 ∈ paths ∧ entry.2 = digest entry.1 := by
  simp only [outputsAt, mem_map, mem_sortPaths]
  constructor
  · rintro ⟨path, hpath, rfl⟩
    exact ⟨hpath, rfl⟩
  · rintro ⟨hpath, hdigest⟩
    exact ⟨entry.1, hpath, by rw [← hdigest]⟩

end OnceBuild.Actions
