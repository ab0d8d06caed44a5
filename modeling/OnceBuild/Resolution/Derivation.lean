import OnceBuild.Analysis.Disk
import OnceBuild.Lib.Ask

/-!
# Deriving a graph with resolvers

Model of `expand_workspace_targets`: the targets that a workspace declares are expanded one after
the other by the resolvers of their kinds, and what a resolver emits is appended and expanded in
turn.  A resolver is handed the files its target names by patterns, and may ask the host questions.
The derivation records which files and patterns it used and what it asked.

The Starlark code of the resolvers and the schemas of the target kinds are parameters (`Kinds`).
-/

namespace OnceBuild.Resolution

open Lib
open Analysis (Disk FileContent Tree Host Canonical expandGlobs)

/-! ## Targets and kinds -/

/-- A declared or emitted target; `A` is the type of attribute values. -/
structure Target (A : Type) where
  package : RelPath
  kind : Text
  name : Text
  deps : List Text
  srcs : List Text
  typedAttrs : List (Text × A)
  resolverInputExclude : List Text

def targetId (package : RelPath) (name : Text) : Text :=
  if package.1 = [] then name else render package.1 ++ '/' :: name

def Target.id {A : Type} (t : Target A) : Text := targetId t.package t.name

/-- What a resolver emits for one new target. -/
structure TargetSpec (A : Type) where
  name : Text
  kind : Text
  deps : List Text
  srcs : List Text
  attrs : List (Text × A)

structure ResolverOutput (A : Type) where
  specs : List (TargetSpec A)
  roots : Option (List Text)
  attrs : List (Text × A)

/-- How a call of a resolver ends; `diagnostic` is a failure that is reported on the target. -/
inductive ResolverResult (A D : Type) where
  | output (out : ResolverOutput A)
  | invalidOutput
  | noValue
  | diagnostic (d : D)
  | failed

/-- The files a resolver is handed, by their names in the package. -/
abbrev Files := List (Text × Text)

/-- The compiled target kinds: `A` are attribute values, `D` diagnostics, and resolvers ask
questions `Q` that have answers `W`. -/
structure Kinds (A D Q W : Type) where
  hasResolver : Text → Bool
  asList : A → Option (List A)
  asStr : A → Option Text
  /-- `validate_resolver_owner`; `none` is an error. -/
  validateOwner : Target A → Option (List D)
  /-- `normalize_manifest_target`. -/
  normalizeTarget : RelPath → Text → Option Text
  resolve : Target A → Files → Ask Q W (ResolverResult A D)

inductive ResolutionError where
  | tooManyTargets
  | owner (target : Text)
  | inputsNotAList (target : Text)
  | inputNotAString (target : Text)
  | package (path : Text)
  | glob (pattern : Text)
  | outsidePackage (path : Text)
  | noPackagePath (path : Text)
  | fileTooLarge (path : Text)
  | filesTooLarge (path : Text)
  | noValue (target : Text)
  | failed (target : Text)
  | invalidOutput (target : Text)
  | invalidSpec (target name : Text)
  | duplicateTarget (target emitted : Text)
  | root (target reference : Text)
  | attribute (target name : Text)
  deriving DecidableEq

def maxExpandedTargets : Nat := 100000

def maxResolverFileBytes : Nat := 16 * 1024 * 1024

def maxResolverFilesBytes : Nat := 64 * 1024 * 1024

/-! ## The files of a resolver -/

structure ResolverInputs where
  package : RelPath
  patterns : List Text
  excludes : List Text
  paths : List Text

variable {A D Q W : Type}

def resolverInputsName : Text := "resolver_inputs".toList

variable (kinds : Kinds A D Q W)

def resolverSourcePatterns (t : Target A) : Except ResolutionError (List Text) :=
  match t.typedAttrs.lookup resolverInputsName with
  | none => .ok t.srcs
  | some value =>
    match kinds.asList value with
    | none => .error (.inputsNotAList t.id)
    | some [] => .ok t.srcs
    | some values =>
      match values.mapM kinds.asStr with
      | none => .error (.inputNotAString t.id)
      | some patterns => .ok patterns

/-- `{name}/**` and `**/{name}/**`. -/
def resolverExcludePatterns (t : Target A) : List Text :=
  t.resolverInputExclude.flatMap fun name =>
    [name ++ "/**".toList, "**/".toList ++ name ++ "/**".toList]

/-- The files gathered so far and their total size. -/
structure Gathered where
  files : Files
  totalBytes : Nat

/-- Read one match of a pattern.  `packageRoot` is the canonical package directory. -/
def gatherFile (host : Host) (disk : Disk) (package : RelPath) (packageRoot path : List Text)
    (acc : Gathered) : Except ResolutionError Gathered :=
  match host.canonicalize disk.tree path with
  | .inside canonical =>
    if disk.tree.node canonical = some .file then
      if ¬ packageRoot <+: canonical then .error (.outsidePackage (render path))
      else if ¬ package.1 <+: path then .error (.noPackagePath (render path))
      else
        let key := render (path.drop package.1.length)
        if key ∈ acc.files.map Prod.fst then .ok acc
        else
          let content := disk.content canonical
          if maxResolverFileBytes < content.size then .error (.fileTooLarge (render path))
          else if maxResolverFilesBytes < acc.totalBytes + content.size then
            .error (.filesTooLarge (render path))
          else
            match content.text with
            -- not a text: skipped
            | none => .ok ⟨acc.files, acc.totalBytes + content.size⟩
            | some text => .ok ⟨acc.files ++ [(key, text)], acc.totalBytes + content.size⟩
    else .ok acc
  | .outside isDir => if isDir then .ok acc else .error (.outsidePackage (render path))
  | .missing => .ok acc
  | .failed => .ok acc

def gatherPattern (host : Host) (disk : Disk) (package : RelPath) (packageRoot : List Text)
    (excludes : List Text) (acc : Gathered) (pattern : Text) : Except ResolutionError Gathered :=
  match expandGlobs host disk.tree package.1 [pattern] excludes with
  | none => .error (.glob pattern)
  | some names =>
    names.foldlM (fun acc name => gatherFile host disk package packageRoot (parts name) acc) acc

/-- `resolver_files_recorded`. -/
def resolverFiles (host : Host) (disk : Disk) (t : Target A) :
    Except ResolutionError (Files × ResolverInputs) :=
  match host.canonicalize disk.tree t.package.1 with
  | .inside packageRoot => do
      let patterns ← resolverSourcePatterns kinds t
      let excludes := resolverExcludePatterns t
      let gathered ← patterns.foldlM
        (gatherPattern host disk t.package packageRoot excludes) ⟨[], 0⟩
      let inputs : ResolverInputs := ⟨t.package, patterns, excludes, gathered.files.map Prod.fst⟩
      return (gathered.files, inputs)
  | _ => .error (.package (render t.package.1))

/-! ## The expansion loop -/

/-- What deriving the graph read.  `asked` is the ledger of questions with their answers. -/
structure ResolutionRecord (Q W : Type) where
  resolvers : List ResolverInputs
  asked : List (Q × W)

/-- The loop's state: the targets before the index, those from it on, every id, the diagnostics and
what was read. -/
structure Expansion (A D Q W : Type) where
  finished : List (Target A)
  todo : List (Target A)
  ids : Finset Text
  diagnostics : List (Text × D)
  record : ResolutionRecord Q W

/-- `validate_target_name`. -/
def validTargetName (name : Text) : Bool :=
  !(name == [] || name == ['.'] || name == ['.', '.'] ||
    name.any fun c => c == '/' || c == '\\' || c == ':')

def resolvedTarget (owner : Target A) (spec : TargetSpec A) : Except ResolutionError (Target A) :=
  if !validTargetName spec.name || spec.kind == [] then .error (.invalidSpec owner.id spec.name)
  else
    match spec.deps.mapM (kinds.normalizeTarget owner.package) with
    | none => .error (.invalidSpec owner.id spec.name)
    | some deps => .ok ⟨owner.package, spec.kind, spec.name, deps, spec.srcs, spec.attrs, []⟩

def insertIds (owner : Text) (ids : Finset Text) (emitted : List (Target A)) :
    Except ResolutionError (Finset Text) :=
  emitted.foldlM (fun ids t =>
    if t.id ∈ ids then .error (.duplicateTarget owner t.id) else .ok (insert t.id ids)) ids

def addRoots (owner : Target A) (emittedNames roots : List Text) :
    Except ResolutionError (List Text) :=
  roots.foldlM (fun deps reference =>
    let dependency :=
      if reference ∈ emittedNames then some (targetId owner.package reference)
      else kinds.normalizeTarget owner.package reference
    match dependency with
    | none => .error (.root owner.id reference)
    | some d => .ok (if d ∈ deps then deps else deps ++ [d])) owner.deps

/-- What follows from a resolver's output: the owner with its new dependencies and attributes, the
emitted targets and the ids. -/
def applyOutput (count : Nat) (ids : Finset Text) (owner : Target A)
    (out : ResolverOutput A) : Except ResolutionError (Target A × List (Target A) × Finset Text) :=
  if maxExpandedTargets - count < out.specs.length then .error .tooManyTargets
  else do
    let emitted ← out.specs.mapM (resolvedTarget kinds owner)
    let ids ← insertIds owner.id ids emitted
    let names := out.specs.map TargetSpec.name
    let deps ← addRoots kinds owner names (out.roots.getD (names.insertionSort (· ≤ ·)))
    match out.attrs.find? fun attr => (owner.typedAttrs.map Prod.fst).contains attr.1 with
    | some attr => .error (.attribute owner.id attr.1)
    | none =>
      return ({ owner with deps := deps, typedAttrs := owner.typedAttrs ++ out.attrs },
        emitted, ids)

/-- The rest of the workspace that a derivation reads: answers to the resolvers' questions. -/
structure Reader (Q W : Type) where
  host : Host
  disk : Disk
  answer : Q → W

namespace Expansion

/-- The index moves past `target`. -/
def finish (s : Expansion A D Q W) (target : Target A) (todo : List (Target A)) :
    Expansion A D Q W :=
  { s with finished := s.finished ++ [target], todo := todo }

def diagnose (s : Expansion A D Q W) (target : Target A) (diagnostics : List D) :
    Expansion A D Q W :=
  { s with diagnostics := s.diagnostics ++ diagnostics.map fun d => (target.id, d) }

/-- A resolver was handed `inputs` and asked questions. -/
def recordRun (s : Expansion A D Q W) (inputs : ResolverInputs) (asked : List (Q × W)) :
    Expansion A D Q W :=
  { s with record := ⟨s.record.resolvers ++ [inputs], s.record.asked ++ asked⟩ }

end Expansion

def applyResult (s : Expansion A D Q W) (target : Target A)
    (todo : List (Target A)) : ResolverResult A D → Except ResolutionError (Expansion A D Q W)
  | .noValue => .error (.noValue target.id)
  | .failed => .error (.failed target.id)
  | .invalidOutput => .error (.invalidOutput target.id)
  | .diagnostic d => .ok ((s.diagnose target [d]).finish target todo)
  | .output out => do
      let count := s.finished.length + 1 + todo.length
      let (owner, emitted, ids) ← applyOutput kinds count s.ids target out
      return { s.finish owner (todo ++ emitted) with ids := ids }

/-- One round of the loop, on the target at the index. -/
def expandOne (reader : Reader Q W) (s : Expansion A D Q W)
    (target : Target A) (todo : List (Target A)) : Except ResolutionError (Expansion A D Q W) :=
  if kinds.hasResolver target.kind then
    match kinds.validateOwner target with
    | none => .error (.owner target.id)
    | some (d :: ds) => .ok ((s.diagnose target (d :: ds)).finish target todo)
    | some [] =>
      match resolverFiles kinds reader.host reader.disk target with
      | .error e => .error e
      | .ok (files, inputs) =>
        let run := (kinds.resolve target files).run reader.answer
        applyResult kinds (s.recordRun inputs run.2) target todo run.1
  else .ok (s.finish target todo)

/-- `expand_resolver_targets`.  At most `maxExpandedTargets` targets ever exist, so that many rounds
are enough. -/
def expandLoop (kinds : Kinds A D Q W) (reader : Reader Q W) :
    Nat → Expansion A D Q W → Except ResolutionError (Expansion A D Q W)
  | 0, _ => .error .tooManyTargets
  | fuel + 1, s =>
    match s.todo with
    | [] => .ok s
    | target :: todo => do
        let s ← expandOne kinds reader s target todo
        expandLoop kinds reader fuel s

/-- `expand_workspace_targets`: the expanded targets with their diagnostics, and the record. -/
def expandWorkspaceTargets (reader : Reader Q W) (targets : List (Target A)) :
    Except ResolutionError ((List (Target A) × List (Text × D)) × ResolutionRecord Q W) :=
  if maxExpandedTargets < targets.length then .error .tooManyTargets
  else if targets.all fun t => !kinds.hasResolver t.kind then .ok ((targets, []), ⟨[], []⟩)
  else do
    let s ← expandLoop kinds reader (maxExpandedTargets + 1)
      ⟨[], targets, (targets.map Target.id).toFinset, [], ⟨[], []⟩⟩
    return ((s.finished, s.diagnostics), s.record)

end OnceBuild.Resolution
