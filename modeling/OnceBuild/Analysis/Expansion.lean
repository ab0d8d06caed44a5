import Mathlib.Data.Finset.Option
import Mathlib.Data.Finset.Sort
import Mathlib.Data.String.Basic
import OnceBuild.Lib.PathText

/-!
# Expanding path patterns over a workspace

Model of `expand_observed_paths`: the glob expansion and the three directory walks.  A workspace is
a finite tree.  Matching a glob pattern and canonicalising a path are left to a `Host`; its laws are
those of `std::fs::canonicalize` that the expansions rely on.

`WalkDir` yields, in some order, the entries below its root all of whose ancestors pass
`filter_entry`; every expansion sorts and deduplicates what it collected.
-/

namespace OnceBuild.Analysis

open Lib

/-! ## Workspaces -/

inductive Node where
  | dir
  | file
  | symlink (target : Text)
  | other
  deriving DecidableEq

/-- The entries of a workspace by their components, names in UTF-8; the root is the empty path. -/
structure Tree where
  paths : Finset (List Text)
  node : List Text → Option Node
  mem_paths : ∀ p, p ∈ paths ↔ p ≠ [] ∧ (node p).isSome = true
  root_dir : node [] = some .dir
  plain : ∀ p ∈ paths, ∀ c ∈ p, Plain c
  parent_dir : ∀ p c, (node (p ++ [c])).isSome = true → node p = some .dir

/-- Answer of `std::fs::canonicalize` for a path of the workspace. -/
inductive Canonical where
  | inside (path : List Text)
  | outside (isDir : Bool)
  | missing
  | failed
  deriving DecidableEq

/-- `path.is_dir()`. -/
def Canonical.isDir (t : Tree) : Canonical → Bool
  | .inside q => t.node q == some .dir
  | .outside isDir => isDir
  | .missing => false
  | .failed => false

/-- No symbolic link of the workspace leads to a directory. -/
def NoDirLinks (canonicalize : Tree → List Text → Canonical) (t : Tree) : Prop :=
  ∀ p target, t.node p = some (.symlink target) → (canonicalize t p).isDir t = false

/-- The parts of the environment that are not modelled: the glob library (`valid` is
`glob::Pattern::new(..).is_ok()`, `isMatch` is `pattern_matches`) and path canonicalisation. -/
structure Host where
  valid : Text → Bool
  isMatch : Text → Text → Bool
  canonicalize : Tree → List Text → Canonical
  /-- A directory or file of the tree is reached through directories only. -/
  canonicalize_dir : ∀ t p, t.node p = some .dir → canonicalize t p = .inside p
  canonicalize_file : ∀ t p, t.node p = some .file → canonicalize t p = .inside p
  /-- Only a link to a directory can make a path lead to another directory. -/
  canonicalize_noDirLinks : ∀ t p, NoDirLinks canonicalize t → (canonicalize t p).isDir t = true →
    t.node p = some .dir
  /-- A link to itself fails with `ELOOP`. -/
  canonicalize_loop : ∀ t p c, t.node (p ++ [c]) = some (.symlink c) →
    canonicalize t (p ++ [c]) = .failed

inductive Expansion where
  | glob
  | walkFiles
  | walkWorkspaceFiles
  | walkSymlinks
  deriving DecidableEq

/-- The arguments of one recorded expansion. -/
structure Request where
  expansion : Expansion
  package : RelPath
  patterns : List Text
  excludes : List Text
  deriving DecidableEq

def dot : Text := ['.']

def dotDot : Text := ['.', '.']

def dotSlash : Text := ['.', '/']

/-- `pattern.strip_prefix("./").unwrap_or(pattern)`. -/
def dropDotSlash (t : Text) : Text := (stripPrefix dotSlash t).getD t

/-! ## Globs -/

def onceDir : Text := ['.', 'o', 'n', 'c', 'e']

/-- A name below `directory` that stands for all of its descendants. -/
def descendant (directory : Text) : Text := directory ++ "/__once_glob_descendant__".toList

/-- `workspace_path_relative_to_package`. -/
def relativeToPackage (package p : List Text) : Text :=
  let common := ((package.zip p).takeWhile fun c => c.1 == c.2).length
  render (List.replicate (package.length - common) dotDot ++ p.drop common)

/-- The directory named by the literal start of a pattern, `none` when there is none. -/
def literalDir (raw : Text) : Option Text :=
  let literal := raw.takeWhile fun c => !(c == '*' || c == '?' || c == '[')
  let dir :=
    if literal.getLast? = some '/' then literal.dropLast
    else ((literal.reverse.dropWhile fun c => !(c == '/')).drop 1).reverse
  if dir = [] ∨ dir.head? = some '/' then none else some dir

def commonAncestor (a b : List Text) : List Text :=
  ((a.zip b).takeWhile fun c => c.1 == c.2).map Prod.fst

/-- `narrow_walk_root`, with the loop's `common` as an argument. -/
def narrowWalkRoot (package : List Text) : Option (List Text) → List Text → Option (List Text)
  | common, [] => common.filter fun path => !(path == package)
  | common, raw :: patterns =>
    match literalDir raw with
    | none => none
    | some dir =>
      let candidate := package ++ parts dir
      let joined := match common with
        | none => candidate
        | some existing => commonAncestor existing candidate
      if joined = package then none else narrowWalkRoot package (some joined) patterns

def globWalkRoot (package : List Text) (patterns : List Text) : List Text :=
  if patterns.any fun p => (p.splitOn '/').contains dotDot then []
  else (narrowWalkRoot package none patterns).getD package

variable (h : Host)

/-- Whether `filter_entry` lets the walk reach `p`. -/
def globReaches (package walkRoot : List Text) (excludes : List Text) (p : List Text) : Bool :=
  walkRoot.isPrefixOf p && p != walkRoot && !(p.contains onceDir) &&
    (List.range p.length).all fun n => n ≤ walkRoot.length ||
      !(excludes.any fun e => h.isMatch e (descendant (relativeToPackage package (p.take n))))

/-- Whether the walk selects `p` before it is canonicalised. -/
def globSelects (t : Tree) (package walkRoot : List Text) (patterns excludes : List Text)
    (p : List Text) : Bool :=
  let isLink := match t.node p with
    | some (.symlink _) => true
    | _ => false
  let relative := relativeToPackage package p
  let symlinkTree := isLink && (h.canonicalize t p).isDir t
  globReaches h package walkRoot excludes p &&
    (isLink || t.node p == some .file) &&
    (patterns.any fun pattern => h.isMatch pattern relative ||
      symlinkTree && h.isMatch pattern (descendant relative)) &&
    !(excludes.any fun e => h.isMatch e relative) &&
    !(symlinkTree && excludes.any fun e => h.isMatch e (descendant relative))

/-- Whether a selected entry stays: a link that leads nowhere or out of the workspace is dropped. -/
def globKeeps (t : Tree) (p : List Text) : Bool :=
  match h.canonicalize t p with
  | .inside _ => true
  | .outside _ => t.node p == some .file
  | .missing => false
  | .failed => false

/-- The entries that `collect_glob_matches` canonicalises. -/
def globSelection (t : Tree) (package : List Text) (patterns excludes : List Text) :
    Finset (List Text) :=
  t.paths.filter fun p =>
    globSelects h t package (globWalkRoot package patterns) patterns excludes p = true

/-- `expand_globs_with_excludes`; any error is `none`. -/
def expandGlobs (t : Tree) (package : List Text) (patterns excludes : List Text) :
    Option (List Text) :=
  let patterns := patterns.map dropDotSlash
  if excludes.all h.valid && patterns.all h.valid then
    let selection := globSelection h t package patterns excludes
    if ∃ p ∈ selection, h.canonicalize t p = .failed then none
    else
      let kept := selection.filter fun p => globKeeps h t p = true
      -- entries below a selected symlink are dropped
      let links := kept.filter fun p => t.node p != some .file
      let out := kept.filter fun p => ¬ ∃ root ∈ links, root <+: p ∧ root ≠ p
      some ((out.image render).sort (· ≤ ·))
  else none

/-! ## Walks -/

def normalizeWalkPath (path : Text) (allowEmpty : Bool) : Option (List Text) :=
  if path.head? = some '/' ∨ dotDot ∈ path.splitOn '/' then none
  else if !allowEmpty && parts path == [] then none
  else some (parts path)

def normalizeWalkName (name : Text) : Option Text :=
  if name = [] ∨ '/' ∈ name ∨ '\\' ∈ name ∨ name = dot ∨ name = dotDot then none else some name

def pathMark : Text := "path:".toList

def nameMark : Text := "name:".toList

def emptyDirsMark : Text := "empty-dirs".toList

/-- What a walk reads out of its arguments. -/
structure WalkArgs where
  root : List Text
  exclusions : List (List Text)
  excludedNames : List Text
  emptyDirs : Bool
  symlinkTargets : Bool

/-- `none` when the walk refuses its root or one of its exclusions. -/
def Request.walkArgs (r : Request) : Option WalkArgs :=
  match r.patterns with
  | [] => none
  | root :: _ =>
    match normalizeWalkPath root true,
      (r.excludes.filterMap (stripPrefix pathMark)).mapM (normalizeWalkPath · false),
      (r.excludes.filterMap (stripPrefix nameMark)).mapM normalizeWalkName with
    | some root, some exclusions, some names =>
      some {
        root := root
        exclusions := exclusions
        excludedNames := names
        emptyDirs := r.excludes.contains emptyDirsMark
        symlinkTargets := r.expansion == .walkSymlinks }
    | _, _, _ => none

/-- Whether `filter_entry` lets the walk below `base` reach `p`. -/
def WalkArgs.reaches (a : WalkArgs) (base p : List Text) : Bool :=
  base.isPrefixOf p && p != base &&
    ((p.drop base.length).all fun c => !(a.excludedNames.contains c)) &&
    (a.exclusions.all fun e => !(e.isPrefixOf (p.drop base.length)))

def symlinkRecord (p : List Text) (target : Text) : Text := render p ++ Char.ofNat 0 :: target

/-- What a walk writes for the entry `p`. -/
def WalkArgs.entry (a : WalkArgs) (t : Tree) (p : List Text) : Option Text :=
  match t.node p with
  | some (.symlink target) => some (if a.symlinkTargets then symlinkRecord p target else render p)
  | some .file => if a.symlinkTargets then none else some (render p)
  | _ => none

/-- A directory with no entry that the walk reaches. -/
def WalkArgs.isEmptyDir (a : WalkArgs) (t : Tree) (seen : Finset (List Text)) (p : List Text) :
    Bool :=
  a.emptyDirs && t.node p == some .dir && decide (∀ e ∈ seen, e.dropLast ≠ p)

/-- `walk_package_entries` below the canonical root `base`. -/
def WalkArgs.output (a : WalkArgs) (t : Tree) (base : List Text) : Finset Text :=
  let seen := t.paths.filter fun p => a.reaches base p = true
  (seen.biUnion fun p => (a.entry t p).toFinset) ∪
    (seen.filter fun p => a.isEmptyDir t seen p = true).image render

/-- `walk_package_entries`; any error is `none`. -/
def expandWalk (t : Tree) (package : List Text) (a : WalkArgs) : Option (List Text) :=
  match h.canonicalize t (package ++ a.root) with
  | .inside base =>
    if t.node base = some .dir then some ((a.output t base).sort (· ≤ ·)) else none
  | _ => none

def expandObservedPaths (t : Tree) (r : Request) : Option (List Text) :=
  match r.expansion with
  | .glob => expandGlobs h t r.package.1 r.patterns r.excludes
  | _ =>
    match r.walkArgs with
    | none => none
    | some a => expandWalk h t r.package.1 a

/-! ## Skipping an expansion -/

def expansionSelectsSubtrees : Expansion → Bool
  | .walkFiles => true
  | .walkWorkspaceFiles => true
  | .glob => false
  | .walkSymlinks => false

/-- Whether the changed path `relative` is one that the request could select. -/
def Request.covers (r : Request) (relative : Text) : Bool :=
  if expansionSelectsSubtrees r.expansion then
    r.patterns.any fun root =>
      relative == dropDotSlash root || (dropDotSlash root ++ ['/']).isPrefixOf relative
  else
    r.patterns.any fun pattern =>
      h.valid (dropDotSlash pattern) && h.isMatch (dropDotSlash pattern) relative

def expansionCouldDiffer (changed : Finset Text) (r : Request) : Bool :=
  if changed = ∅ then false
  else if r.patterns.any fun pattern => decide (dotDot <:+: pattern) then true
  else
    let start := if r.package.1 = [] then [] else render r.package.1 ++ ['/']
    decide (∃ path ∈ changed, (stripPrefix start path).any (r.covers h) = true)

end OnceBuild.Analysis
