import OnceBuild.Actions.AvailableInput
import OnceBuild.Lib.Overlay

/-!
# Declared actions of a target

What the runner looks at in a declared action: the paths it reads, writes, cleans and creates.
Paths are compared by their components.  `batches` is how the runner groups a queue of actions:
actions that do not touch each other's paths run at the same time.

`footprint` looks at the workspace as it is at the time: a path is compared as it is spelled and as
it resolves, and cannot be compared when it does not resolve.
-/

namespace OnceBuild.Actions

open Lib List

inductive PreparePathMode where
  | remove
  | directory
  deriving DecidableEq

/-- `DeclaredAction`; `command` stands for the fields that only reach the command itself. -/
structure DeclaredAction where
  inputs : List Path
  outputs : List Path
  cleanPaths : List Path
  createDirs : List Path
  stdout : Option Path
  stderr : Option Path
  argFiles : List Path
  preparePath : Option (Path × PreparePathMode)
  dependsOnPriorActions : Bool
  intermediate : Bool
  cacheable : Bool
  command : Text
  deriving DecidableEq

/-- Whether one path is the other or contains it. -/
def pathsOverlap (left right : Path) : Bool := left.isPrefixOf right || right.isPrefixOf left

/-- A path an action changes when it runs. -/
inductive TouchedPath where
  /-- Written, cleaned, or removed: whatever was at or under it is replaced. -/
  | replaced (path : Path)
  /-- Created as a directory: what is already under it stays. -/
  | created (path : Path)
  deriving DecidableEq

/-- Whether restoring `pending` after the action ran would undo some of what the action did. -/
def TouchedPath.conflictsWith : TouchedPath → Path → Bool
  | .replaced path, pending => pathsOverlap pending path
  | .created path, pending => pending.isPrefixOf path

namespace DeclaredAction

/-- The paths that `scheduling::writes` lists. -/
def writes (a : DeclaredAction) : List Path :=
  a.outputs ++ a.cleanPaths ++ a.stdout.toList ++ a.stderr.toList ++ a.argFiles

def accesses (a : DeclaredAction) : List Path := a.writes ++ a.inputs

/-- Paths an action writes, cleans, removes, or creates when it runs. -/
def touchedPaths (a : DeclaredAction) : List TouchedPath :=
  a.writes.map .replaced ++ a.createDirs.map .created ++ match a.preparePath with
    | some (path, .remove) => [.replaced path]
    | some (path, .directory) => [.created path]
    | none => []

end DeclaredAction

/-! ## Batches -/

/-- `left` writes what `right` reads or writes. -/
def interferes (left right : DeclaredAction) : Bool :=
  left.writes.any fun path => right.accesses.any fun other => pathsOverlap path other

/-- `left` cleans where `right` creates a directory. -/
def cleansUnder (left right : DeclaredAction) : Bool :=
  left.cleanPaths.any fun path => right.createDirs.any fun dir => pathsOverlap path dir

/-- `left` creates a directory at or below a path that `right` writes. -/
def createsUnder (left right : DeclaredAction) : Bool :=
  left.createDirs.any fun dir => right.writes.any fun path => path.isPrefixOf dir

/-- `scheduling::conflicts`. -/
def conflicts (left right : DeclaredAction) : Bool :=
  interferes left right || interferes right left || cleansUnder left right ||
    cleansUnder right left || createsUnder left right || createsUnder right left ||
    !left.cacheable || !right.cacheable

variable {L : Type}

/-- Whether `take_batch` adds `next` to a batch that it has begun. -/
def joins (limit : Nat) (batch : List (DeclaredAction × L)) (next : DeclaredAction) : Bool :=
  !(batch.any fun prior => prior.1.dependsOnPriorActions) && decide (batch.length < limit) &&
    !next.dependsOnPriorActions && !(batch.any fun prior => conflicts prior.1 next)

/-- The queue cut up by `take_batch`, after the batch `current` was begun. -/
def batchesFrom (limit : Nat) (current : List (DeclaredAction × L)) :
    List (DeclaredAction × L) → List (List (DeclaredAction × L))
  | [] => [current]
  | next :: queue =>
    if joins limit current next.1 then batchesFrom limit (current ++ [next]) queue
    else current :: batchesFrom limit [next] queue

def batches (limit : Nat) : List (DeclaredAction × L) → List (List (DeclaredAction × L))
  | [] => []
  | first :: queue => batchesFrom limit [first] queue

/-! ## Footprints -/

/-- Where `WorkspacePath::resolve` takes a declared path. -/
def located (path : Path) : Path := path.filter (· ≠ ['.'])

/-- What decides whether paths can be compared at all. -/
structure PathHost where
  windows : Bool
  /-- The path of the workspace. -/
  workspace : Path
  /-- The path with the links on the way to it resolved, as far as it exists; none when a link leads
  nowhere or a file is in the way. -/
  resolveExistingAncestors : Path → Option Path

def isAscii (t : Text) : Bool := t.all fun c => decide (c.toNat < 128)

def lowercase (path : Path) : Path := path.map fun c => c.map Char.toLower

variable (host : PathHost)

/-- What `footprint_paths` collects for one path. -/
def footprint (path : Path) : Option (List Path) :=
  let logical := host.workspace ++ located path
  match host.resolveExistingAncestors logical with
  | none => none
  | some canonical =>
    if logical.all isAscii && canonical.all isAscii then
      some [lowercase logical, lowercase canonical]
    else none

def footprintPaths (paths : List Path) : Option (List Path) :=
  (paths.mapM (footprint host)).map List.flatten

/-- `paths::disjoint`. -/
def disjointPaths (left right : List Path) : Bool :=
  left.isEmpty || right.isEmpty || !host.windows &&
    match footprintPaths host left, footprintPaths host right with
    | some left, some right => right.all fun path => !left.any (pathsOverlap path)
    | _, _ => false

/-- `paths::creation_conflicts`. -/
def creationConflicts (created : Path) (pending : List Path) : Bool :=
  !pending.isEmpty && (host.windows ||
    match footprint host created, footprintPaths host pending with
    | some created, some pending => created.any fun path => pending.any fun p => p.isPrefixOf path
    | _, _ => true)

/-- The footprint of `path` keeps clear of those of all other paths. -/
def standsAlone (paths : List Path) (path : Path) : Bool :=
  match footprint host path with
  | none => false
  | some own => paths.all fun other =>
    other == path || (footprint host other).any fun footprint =>
      own.all fun path => !footprint.any (pathsOverlap path)

/-- `paths::independent_members`. -/
def independentMembers (paths candidates : List Path) : List Path :=
  if paths.length = 1 then candidates.filter paths.contains
  else if host.windows then []
  else candidates.filter fun path =>
    paths.contains path && (footprintPaths host paths).isSome && standsAlone host paths path

/-! ## What the comparisons show -/

lemma pathsOverlap_iff {left right : Path} :
    pathsOverlap left right = true ↔ left <+: right ∨ right <+: left := by
  simp [pathsOverlap]

lemma pathsOverlap_comm (left right : Path) :
    pathsOverlap left right = pathsOverlap right left := Bool.or_comm _ _

variable {host : PathHost}

lemma logical_mem_footprint {path : Path} {paths : List Path}
    (h : footprint host path = some paths) :
    lowercase (host.workspace ++ located path) ∈ paths := by
  simp only [footprint] at h
  split at h
  · cases h
  · split at h
    · cases h
      exact mem_cons_self
    · cases h

lemma footprint_overlap {left right : Path} {left' right' : List Path}
    (hleft : footprint host left = some left') (hright : footprint host right = some right')
    (h : pathsOverlap left right = true) : ∃ p ∈ left', ∃ q ∈ right', pathsOverlap p q = true := by
  have hmono : ∀ {p q : Path}, p <+: q →
      lowercase (host.workspace ++ located p) <+: lowercase (host.workspace ++ located q) :=
    fun hpq => ((prefix_append_right_inj _).mpr (hpq.filter _)).map _
  refine ⟨_, logical_mem_footprint hleft, _, logical_mem_footprint hright, pathsOverlap_iff.mpr ?_⟩
  exact (pathsOverlap_iff.mp h).imp hmono hmono

lemma mem_footprintPaths {paths paths' : List Path} (h : footprintPaths host paths = some paths')
    {path : Path} (hpath : path ∈ paths) :
    ∃ own, footprint host path = some own ∧ ∀ p ∈ own, p ∈ paths' := by
  obtain ⟨parts, hparts, rfl⟩ := Option.map_eq_some_iff.mp h
  clear h
  induction paths generalizing parts with
  | nil => cases hpath
  | cons first rest ih =>
    simp only [mapM_cons, Option.bind_eq_bind, Option.bind_eq_some_iff] at hparts
    obtain ⟨own, hown, rest', hrest, heq⟩ := hparts
    cases heq
    rcases mem_cons.mp hpath with rfl | hpath
    · exact ⟨own, hown, fun p hp => mem_append_left _ hp⟩
    · obtain ⟨own', hown', hmem⟩ := ih hpath rest' hrest
      exact ⟨own', hown', fun p hp => mem_append_right _ (hmem p hp)⟩

lemma not_overlap_of_disjoint {left right : List Path} (h : disjointPaths host left right = true)
    {p q : Path} (hp : p ∈ left) (hq : q ∈ right) : pathsOverlap p q = false := by
  have hleft : left.isEmpty = false := by
    cases left with
    | nil => cases hp
    | cons _ _ => rfl
  have hright : right.isEmpty = false := by
    cases right with
    | nil => cases hq
    | cons _ _ => rfl
  simp only [disjointPaths, hleft, hright, Bool.false_or, Bool.and_eq_true] at h
  obtain ⟨-, h⟩ := h
  split at h
  case h_2 => cases h
  case h_1 left' right' hl hr =>
    obtain ⟨own, hown, hownmem⟩ := mem_footprintPaths hl hp
    obtain ⟨other, hother, hothermem⟩ := mem_footprintPaths hr hq
    by_contra hoverlap
    rw [Bool.not_eq_false, pathsOverlap_comm] at hoverlap
    obtain ⟨q', hq', p', hp', hmeet⟩ := footprint_overlap hother hown hoverlap
    have hnone := all_eq_true.mp h q' (hothermem q' hq')
    rw [any_eq_true.mpr ⟨p', hownmem p' hp', hmeet⟩] at hnone
    cases hnone

lemma independentMembers_spec {paths candidates : List Path} {path : Path}
    (h : path ∈ independentMembers host paths candidates) :
    path ∈ candidates ∧ path ∈ paths ∧
      ∀ other ∈ paths, pathsOverlap other path = true → other = path := by
  unfold independentMembers at h
  split at h
  case isTrue hone =>
    obtain ⟨hcandidate, hmem⟩ := mem_filter.mp h
    have hmem : path ∈ paths := by simpa using hmem
    obtain ⟨only, rfl⟩ := length_eq_one_iff.mp hone
    refine ⟨hcandidate, hmem, fun other hother _ => ?_⟩
    rw [mem_singleton.mp hmem, mem_singleton.mp hother]
  case isFalse =>
    split at h
    case isTrue => cases h
    case isFalse =>
      obtain ⟨hcandidate, hmem⟩ := mem_filter.mp h
      simp only [Bool.and_eq_true] at hmem
      obtain ⟨⟨hmem, -⟩, halone⟩ := hmem
      refine ⟨hcandidate, by simpa using hmem, fun other hother hoverlap => ?_⟩
      unfold standsAlone at halone
      split at halone
      case h_1 => cases halone
      case h_2 own hown =>
        have hother := all_eq_true.mp halone other hother
        rcases Bool.or_eq_true_iff.mp hother with heq | hclear
        · exact eq_of_beq heq
        · obtain ⟨foot, hfoot, hnot⟩ := (Option.any_eq_true _ _).mp hclear
          rw [pathsOverlap_comm] at hoverlap
          obtain ⟨p, hp, q, hq, hmeet⟩ := footprint_overlap hown hfoot hoverlap
          have hp := all_eq_true.mp hnot p hp
          rw [any_eq_true.mpr ⟨q, hq, hmeet⟩] at hp
          cases hp

end OnceBuild.Actions
