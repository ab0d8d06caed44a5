import OnceBuild.Core.HostDisk
import OnceBuild.Lib.DiskDirs

/-!
# Staging the inputs of a sandboxed command

A command that runs in a sandbox finds its declared inputs below an execution root of its own.  An
input is staged by a link to it, a directory as a directory of links, or else as a copy.  The
directories that outputs and the working directory need are created last; the directories above
copied inputs then get the modes they have in the workspace.

A directory is staged level by level.  Paths have a greatest length, so a walk that goes deeper
than `depth` levels fails.
-/

namespace OnceBuild.Sandbox

open Lib Fallible
open OnceBuild.Core (WorkspacePath FileData Place Disk Node Io names resolve)

/-- `Metadata::permissions`; those of what is no file, directory or link are not used. -/
def permissions : Node → Nat
  | .dir mode => mode
  | .file data => data.mode
  | .link _ => 0o777
  | .special => 0

def setPermissions (mode : Nat) (p : Place) : Io Unit :=
  setData (fun _ => mode) (fun data => { data with mode := mode }) p

/-- What is at a path, links not followed; nothing if it is not found. -/
def existing (d : Disk) (p : Place) : Except Errno (Option Node) :=
  match symlinkMetadata d p with
  | .ok node => .ok (some node)
  | .error .notFound => .ok none
  | .error e => .error e

def removePathBlocking (p : Place) : Io Unit := do
  let there ← inspect fun d => existing d p
  match there with
  | none => pure ()
  | some (.dir _) => removeDirAll p
  | some _ => removeFile p

/-- Modes that the system gives to directories that are created without one. -/
structure Defaults where
  dirMode : Nat
  /-- The mode of a new temporary directory. -/
  tempMode : Nat

variable (defaults : Defaults)

/-- Create the directories above a path and clear the path. -/
def makeRoom (destination : Place) : Io Unit := do
  createDirAll defaults.dirMode destination.dropLast
  removePathBlocking destination

/-! ## Trees -/

/-- One entry of a directory: `below` is for directories and `leaf` for everything else. -/
def walkEntry (leaf : Node → Place → Place → Io Unit) (below : Place → Place → Io Unit)
    (source destination : Place) (name : OsPath) : Io Unit := do
  match ← inspect fun d => symlinkMetadata d (source ++ [name]) with
  | .dir _ => below (source ++ [name]) (destination ++ [name])
  | node => leaf node (source ++ [name]) (destination ++ [name])

/-- The walk that staging and copying a directory have in common; `finish` comes after the entries
of a directory. -/
def walkTree (leaf : Node → Place → Place → Io Unit) (finish : Place → Place → Io Unit) :
    Nat → Place → Place → Io Unit
  | 0, _, _ => throw .nameTooLong
  | depth + 1, source, destination => do
      createDirAll defaults.dirMode destination
      let children ← inspect fun d => readDir bytesLe d source
      children.forM (walkEntry leaf (walkTree leaf finish depth) source destination)
      finish source destination

def linkSandboxInputBlocking (source destination : Place) : Io Unit := do
  makeRoom defaults destination
  symlink (absoluteText source) destination

variable (depth : Nat)

def stageSandboxDirectoryBlocking (source destination : Place) : Io Unit :=
  walkTree defaults (fun _ => linkSandboxInputBlocking defaults) (fun _ _ => pure ()) depth source
    destination

/-! ## Copies -/

def readLink (d : Disk) (p : Place) : Except Errno OsPath := do
  match ← symlinkMetadata d p with
  | .link text => .ok text
  | _ => .error .invalidInput

def copySymlinkBlocking (source destination : Place) : Io Unit := do
  let target ← inspect fun d => readLink d source
  makeRoom defaults destination
  symlink target destination

/-- The file that `std::fs::copy` reads. -/
def readFile (d : Disk) (p : Place) : Except Errno FileData := do
  match ← metadata d p with
  | .file data => .ok data
  | _ => .error .invalidInput

def copyFileBlocking (source destination : Place) : Io Unit := do
  makeRoom defaults destination
  let data ← inspect fun d => readFile d source
  writeFile (fun _ => data) destination
  let node ← inspect fun d => metadata d source
  setPermissions (permissions node) destination

def copyEntry : Node → Place → Place → Io Unit
  | .link _ => copySymlinkBlocking defaults
  | .file _ => copyFileBlocking defaults
  | _ => fun _ _ => pure ()

def mirrorPermissions (source destination : Place) : Io Unit := do
  let node ← inspect fun d => symlinkMetadata d source
  setPermissions (permissions node) destination

def copyDirectoryContentsBlocking (source destination : Place) : Io Unit :=
  walkTree defaults (copyEntry defaults) mirrorPermissions depth source destination

def copySandboxOutputBlocking (source destination : Place) : Io Unit := do
  match ← inspect fun d => symlinkMetadata d source with
  | .dir _ => do
      removePathBlocking destination
      copyDirectoryContentsBlocking defaults depth source destination
  | node => copyEntry defaults node source destination

/-! ## Inputs -/

def stageSandboxInputBlocking (workspace execroot : Place) (copy : Bool)
    (input : WorkspacePath) : Io Unit := do
  let source := resolve input workspace
  let destination := resolve input execroot
  if copy then do
    makeRoom defaults destination
    copySandboxOutputBlocking defaults depth source destination
  else do
    match ← inspect fun d => symlinkMetadata d source with
    | .dir _ => stageSandboxDirectoryBlocking defaults depth source destination
    | _ => linkSandboxInputBlocking defaults source destination

/-! ## Modes of directories above inputs -/

def pathLe : Place → Place → Bool
  | [], _ => true
  | _ :: _, [] => false
  | a :: p, b :: q => (a != b && bytesLe a b) || (a == b && pathLe p q)

/-- The directories above the inputs, without the workspace itself: deepest first. -/
def ancestors (inputs : List WorkspacePath) : List Place :=
  let directories := inputs.flatMap fun input =>
    (names input).inits.filter fun q => q != [] && q != names input
  (directories.dedup.mergeSort pathLe).mergeSort fun p q => decide (q.length ≤ p.length)

def isRealDir (d : Disk) (p : Place) : Bool :=
  match symlinkMetadata d p with
  | .ok (.dir _) => true
  | _ => false

/-- One round of `mirror_ancestor_permissions`. -/
def mirrorAncestor (workspace execroot : Place) (keepWritable : List Place) (directory : Place) :
    Io Unit :=
  if keepWritable.any directory.isPrefixOf then pure ()
  else do
    let both ← inspect fun d =>
      .ok (isRealDir d (workspace ++ directory) && isRealDir d (execroot ++ directory))
    if both then mirrorPermissions (workspace ++ directory) (execroot ++ directory)
    else pure ()

def mirrorAncestorPermissions (workspace execroot : Place) (inputs : List WorkspacePath)
    (keepWritable : List Place) : Io Unit :=
  (ancestors inputs).forM (mirrorAncestor workspace execroot keepWritable)

/-! ## The sandbox -/

structure SandboxPolicy where
  inputs : List WorkspacePath
  outputs : List WorkspacePath
  copyInputs : Bool
  validateContract : Bool

def onceName : OsPath := utf8Encode ".once".toList
def sandboxesName : OsPath := utf8Encode "sandboxes".toList
def execrootName : OsPath := utf8Encode "execroot".toList

def sandboxesIn (workspace : Place) : Place := workspace ++ [onceName, sandboxesName]

/-- `SandboxDir::create`, where the temporary directory gets the name `name`. -/
def createSandboxDir (sandboxes : Place) (name : OsPath) : Io Unit := do
  createDirAll defaults.dirMode sandboxes
  createDir defaults.tempMode (sandboxes ++ [name])

/-- What is done in the new sandbox at `root`. -/
def stageSandbox (workspace root : Place) (policy : SandboxPolicy)
    (cwd : Option WorkspacePath) : Io Unit := do
  let execroot := root ++ [execrootName]
  let copyInputs := policy.validateContract || policy.copyInputs
  createDirAll defaults.dirMode execroot
  policy.inputs.forM (stageSandboxInputBlocking defaults depth workspace execroot copyInputs)
  policy.outputs.forM fun output =>
    createDirAll defaults.dirMode (resolve output execroot).dropLast
  cwd.toList.forM fun cwd => createDirAll defaults.dirMode (resolve cwd execroot)
  if copyInputs then
    mirrorAncestorPermissions workspace execroot policy.inputs
      (policy.outputs.map names ++ cwd.toList.map names)
  else pure ()

/-- `remove_now`: the sandbox is removed unless it is to be kept. -/
def removeNow (keep : Bool) (root : Place) (d : Disk) : Disk :=
  if keep then d else (exec (removePathBlocking root) d).2

def prepareInputSandbox (workspace : Place) (name : OsPath) (keep : Bool)
    (policy : SandboxPolicy) (cwd : Option WorkspacePath) : Io Unit := do
  let root := sandboxesIn workspace ++ [name]
  createSandboxDir defaults (sandboxesIn workspace) name
  (stageSandbox defaults depth workspace root policy cwd).onError (removeNow keep root)

end OnceBuild.Sandbox
