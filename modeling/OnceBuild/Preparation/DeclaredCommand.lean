import Mathlib.Data.List.Sort
import OnceBuild.Core.ActionDigest
import OnceBuild.Lib.BytePath
import OnceBuild.Lib.Delimited

/-!
# Preparing a declared command

What `prepare_declared_action_with_inputs` makes of a declared action without an operation.  The
command that it returns holds some of the declaration itself.  The rest is hashed into the command's
input digest, as one stream of pieces that end with a zero byte.

Digests of source files, the process environment and the directories of outputs belong to the host.
What is only recorded for display is left out.
-/

namespace OnceBuild.Preparation

open Lib FieldCodec
open Cas (Digest Bytes)
open OnceBuild.Core (WorkspacePath RunCommand ResourceRequest SandboxMode NetworkPolicy
  OutputSymlinkMode)
open Actions (AvailableInput)

/-! ## Declarations -/

inductive DeclaredArgFileFormat where
  | lineDelimited
  deriving DecidableEq

structure DeclaredArgFile where
  path : Text
  format : DeclaredArgFileFormat
  args : List Text
  deriving DecidableEq

/-- A `DeclaredAction` without an operation. -/
structure DeclaredCommand where
  resources : ResourceRequest
  argv : List Text
  argFiles : List DeclaredArgFile
  inputs : List Text
  outputs : List Text
  stdout : Option Text
  stderr : Option Text
  cleanPaths : List Text
  createDirs : List Text
  cwd : Option Text
  env : SortedMap Text Text
  sandbox : Option Text
  network : Option Text
  successExitCodes : List Int32
  cacheable : Bool
  inheritParentEnv : Bool
  toolchainIdentity : Option Text
  identifier : Option Text

inductive PrepareError where
  | inheritNeedsSandboxOff
  | environmentName
  | environmentValue
  | hashingInput (input reason : Text)
  | invalidPath (context : String) (path : Text) (source : WorkspacePath.Error)
  | sandboxPolicy (raw : Text)
  | networkPolicy (raw : Text)
  | outputParent (reason : Text)

structure Host where
  /-- The workspace as `to_string_lossy` shows it. -/
  workspace : Text
  workspace_noNul : '\x00' ∉ workspace
  vars : List (OsPath × OsPath)
  sourceDigest : Text → Except Text Digest
  ensureOutputParentDirs : List WorkspacePath → Except Text Unit

/-- What earlier actions and dependencies have left. -/
structure Prior where
  availableInputs : Text → Option AvailableInput
  depActionDigests : List (Text × Digest)

/-! ## Policies and environment -/

def rank : SandboxMode → Nat
  | .off => 0
  | .inputs => 1
  | .copiedInputs => 2

/-- The stricter of two modes. -/
def stronger (mode other : SandboxMode) : SandboxMode :=
  if rank mode ≤ rank other then other else mode

def effectiveSandbox (declared : Option Text) (sandboxOverride : SandboxMode) :
    Except PrepareError SandboxMode :=
  match declared with
  | none => .ok (stronger .off sandboxOverride)
  | some raw =>
    match [SandboxMode.off, .inputs, .copiedInputs].find? fun mode => mode.name == raw with
    | some mode => .ok (stronger mode sandboxOverride)
    | none => .error (.sandboxPolicy raw)

def effectiveNetwork (declared : Option Text) : Except PrepareError NetworkPolicy :=
  match declared with
  | none => .ok .unrestricted
  | some raw =>
    match [NetworkPolicy.unrestricted, .deny].find? fun policy => policy.name == raw with
    | some policy => .ok policy
    | none => .error (.networkPolicy raw)

def decodeVar (var : OsPath × OsPath) : Except PrepareError (Text × Text) :=
  match fromUtf8 var.1, fromUtf8 var.2 with
  | some key, some value => .ok (key, value)
  | none, _ => .error .environmentName
  | some _, none => .error .environmentValue

/-- A cacheable command that inherits the environment gets all of it, under its own variables. -/
def effectiveEnv (host : Host) (sandboxOverride : SandboxMode) (d : DeclaredCommand) :
    Except PrepareError (SortedMap Text Text) :=
  if d.cacheable && d.inheritParentEnv then do
    let sandbox ← effectiveSandbox d.sandbox sandboxOverride
    if sandbox = .off then do
      let vars ← host.vars.mapM decodeVar
      .ok (.ofEntries (vars ++ d.env.entries))
    else .error .inheritNeedsSandboxOff
  else .ok d.env

/-! ## Inputs -/

/-- `sort_unstable` and `dedup`. -/
def sortedTexts (texts : List Text) : List Text := (texts.insertionSort (· ≤ ·)).dedup

/-- The paths that `rsplit_once('/')` yields one after the other. -/
def enclosing (input : Text) : List Text :=
  (input.inits.filter fun start => (start ++ ['/']).isPrefixOf input).reverse

def resolveAvailableInput (availableInputs : Text → Option AvailableInput) (input : Text) :
    Option AvailableInput :=
  (input :: enclosing input).findSome? availableInputs

def inputDigestOf (host : Host) (prior : Prior) (input : Text) :
    Except PrepareError (Text × Digest) :=
  match resolveAvailableInput prior.availableInputs input with
  | some available => .ok (input, available.blobDigest)
  | none =>
    match host.sourceDigest input with
    | .ok digest => .ok (input, digest)
    | .error reason => .error (.hashingInput input reason)

def resolvedInputs (host : Host) (prior : Prior) (d : DeclaredCommand) :
    Except PrepareError (List (Text × Digest)) :=
  (sortedTexts d.inputs).mapM (inputDigestOf host prior)

def workspacePath (context : String) (path : Text) : Except PrepareError WorkspacePath :=
  (WorkspacePath.tryFrom path).mapError (.invalidPath context path)

def onceTmp : Text := ".once/tmp".toList

/-- Directories that the sandbox stages as if they were inputs. -/
def isPrivateDir (path : Text) : Bool := path = onceTmp || (onceTmp ++ ['/']).isPrefixOf path

def sortedPaths (paths : List WorkspacePath) : List WorkspacePath :=
  (paths.insertionSort fun a b => a.asStr ≤ b.asStr).dedup

variable (d : DeclaredCommand)

/-- `declared_action_inputs` with the setup included. -/
def declaredActionInputs : Except PrepareError (List WorkspacePath) := do
  let inputs ← d.inputs.mapM (workspacePath "run_action input")
  let argFiles ← d.argFiles.mapM fun file => workspacePath "run_action arg file" file.path
  let dirs ← (d.createDirs.filter isPrivateDir).mapM (workspacePath "run_action create_dirs entry")
  .ok (sortedPaths (inputs ++ argFiles ++ dirs))

def outputPaths : Except PrepareError (List WorkspacePath) :=
  d.outputs.mapM (workspacePath "declared output path")

def optionalPath (context : String) : Option Text → Except PrepareError (Option WorkspacePath)
  | none => .ok none
  | some path => (workspacePath context path).map some

/-! ## The stream -/

/-- What the text layer and the hash are. -/
structure Encoding where
  write : Json → Bytes
  hash : Bytes → Digest

namespace DeclaredArgFile

def formatName : DeclaredArgFileFormat → Text
  | .lineDelimited => "line-delimited".toList

def formatCodec : Codec DeclaredArgFileFormat :=
  .enumeration [.lineDelimited] formatName fun format => by cases format; decide

def pieces (f : DeclaredArgFile) : List (Text × Option Json) :=
  [("path".toList, (required Codec.text).write f.path),
    ("format".toList, (required formatCodec).write f.format),
    ("args".toList, (required (.list .text)).write f.args)]

def readFields (fields : List (Text × Json)) : Option DeclaredArgFile := do
  let path ← (required Codec.text).readIn fields "path".toList
  let format ← (required formatCodec).readIn fields "format".toList
  let args ← (required (.list .text)).readIn fields "args".toList
  some ⟨path, format, args⟩

def codec : Codec DeclaredArgFile := .record pieces readFields fun f => by simp [readFields, pieces]

end DeclaredArgFile

def optionalText : Option Text → Json
  | none => .null
  | some t => .string t

def identities : Json := .array [optionalText d.toolchainIdentity, optionalText d.identifier]

def argFilesJson : Json := (Codec.list DeclaredArgFile.codec).write d.argFiles

def executionRoot : Text := "\x7b\x7bonce.execution_root\x7d\x7d".toList

def canonicalActionValue (workspace value : Text) : Text :=
  if workspace.isEmpty then value else replaceAll workspace executionRoot value

def bytesOf (t : Text) : Bytes := utf8Encode t

variable (encoding : Encoding)

/-- A path that a stream of the command is redirected to, as `push_keyed_component` appends it. -/
def logEntry (label : String) : Option Text → List (Bytes × Bytes)
  | none => []
  | some path => [(bytesOf label.toList, (encoding.hash (bytesOf path)).asBytes)]

def taggedEntries (tag : String) (paths : List Text) : List (Bytes × Bytes) :=
  paths.map fun path => (bytesOf tag.toList, bytesOf path)

def keyedEntries (entries : List (Text × Digest)) : List (Bytes × Bytes) :=
  entries.map fun entry => (bytesOf entry.1, entry.2.asBytes)

def sameTarget : Text := "same-target:".toList

def depEntries (prior : Prior) : List (Text × Digest) :=
  (prior.depActionDigests.filter fun dep => sameTarget.isPrefixOf dep.1).map fun dep =>
    ("dep:".toList ++ dep.1, dep.2)

def canonicalArgv (host : Host) (d : DeclaredCommand) : List Bytes :=
  d.argv.map fun arg => bytesOf (canonicalActionValue host.workspace arg)

def canonicalEnv (host : Host) (env : SortedMap Text Text) : List Bytes :=
  env.entries.flatMap fun entry =>
    [bytesOf entry.1, bytesOf (canonicalActionValue host.workspace entry.2)]

def inputDomain : Bytes := bytesOf "once.declared_action.input.v5\x00".toList

/-- The paths that are set up before the command runs, and its directory. -/
def setupEntries : List (Bytes × Bytes) :=
  taggedEntries "clean_path" d.cleanPaths ++ taggedEntries "create_dir" d.createDirs ++
    taggedEntries "cwd" d.cwd.toList

/-- What `compose_input_fingerprint_with_available` hashes. -/
def inputStream (host : Host) (prior : Prior) (d : DeclaredCommand) (env : SortedMap Text Text)
    (resolved : List (Text × Digest)) : Bytes :=
  inputDomain ++ (terminated 0 [encoding.write (identities d)] ++
    (terminated 0 (canonicalArgv host d) ++
    (labelled 0 (logEntry encoding "stdout" d.stdout) ++
    (labelled 0 (logEntry encoding "stderr" d.stderr) ++
    (terminated 0 [encoding.write (argFilesJson d)] ++
    (terminated 0 (canonicalEnv host env) ++
    labelled 0 (setupEntries d ++ keyedEntries resolved ++ keyedEntries (depEntries prior))))))))

/-! ## Preparing -/

/-- `prepare_declared_action_with_inputs`. -/
def prepare (host : Host) (prior : Prior) (sandboxOverride : SandboxMode) (d : DeclaredCommand) :
    Except PrepareError RunCommand := do
  let env ← effectiveEnv host sandboxOverride d
  let resolved ← resolvedInputs host prior d
  let inputs ← declaredActionInputs d
  let outputs ← outputPaths d
  (host.ensureOutputParentDirs outputs).mapError .outputParent
  let stdoutPath ← optionalPath "run_action stdout path" d.stdout
  let stderrPath ← optionalPath "run_action stderr path" d.stderr
  let cwd ← optionalPath "run_action cwd" d.cwd
  let sandbox ← effectiveSandbox d.sandbox sandboxOverride
  let network ← effectiveNetwork d.network
  .ok
    { argv := d.argv
      env := env
      cwd := cwd
      inputDigest := some (encoding.hash (inputStream encoding host prior d env resolved))
      inputs := inputs
      outputs := outputs
      stdoutPath := stdoutPath
      stderrPath := stderrPath
      outputSymlinkMode := .materializeExternal
      resources := d.resources
      sandbox := sandbox
      network := network
      timeoutMs := none
      successExitCodes := d.successExitCodes
      remote := none }

/-- The key under which the prepared command is cached. -/
def keyOf (command : RunCommand) : Digest :=
  encoding.hash ((Core.Action.runCommand command).keyBytes encoding.write)

end OnceBuild.Preparation
