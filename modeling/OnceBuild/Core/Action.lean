import OnceBuild.Actions.DeclaredAction
import OnceBuild.Lib.Json

/-!
# Actions

The values that `Action::digest` hashes.  Numbers have the width that the source gives them; a
`usize` has 64 bits.
-/

namespace OnceBuild.Core

open Lib
open Cas (Digest)
open Actions (PreparePathMode)

/-! ## Workspace paths -/

abbrev WorkspacePath := RelPath

namespace WorkspacePath

inductive Error where
  | absolute (raw : Text)
  | escape (raw : Text)
  deriving DecidableEq

def asStr (p : WorkspacePath) : Text := render p.1

lemma plain_parts {raw : Text} (h : ['.', '.'] ∉ parts raw) : ∀ c ∈ parts raw, Plain c :=
  fun _ hc => plain_of_mem_parts hc fun heq => h (heq ▸ hc)

/-- `WorkspacePath::try_from`. -/
def tryFrom (raw : Text) : Except Error WorkspacePath :=
  if raw.head? = some '/' then .error (.absolute raw)
  else if h : ['.', '.'] ∈ parts raw then .error (.escape raw)
  else .ok ⟨parts raw, plain_parts h⟩

lemma tryFrom_asStr (p : WorkspacePath) : tryFrom p.asStr = .ok p := by
  have hparts : parts p.asStr = p.1 := parts_render p.2
  have hparent : ['.', '.'] ∉ parts p.asStr := by
    rw [hparts]
    exact fun hmem => (p.2 _ hmem).2.2.2 rfl
  have hrelative : p.asStr.head? ≠ some '/' := head?_render p.2
  unfold tryFrom
  rw [if_neg hrelative, dif_neg hparent]
  exact congrArg Except.ok (Subtype.ext hparts)

end WorkspacePath

/-! ## Settings -/

/-- What happens to a symbolic link found among an action's outputs. -/
inductive OutputSymlinkMode where
  | preserve
  | materializeExternal
  deriving DecidableEq

/-- How strongly an action is isolated from the workspace while it runs. -/
inductive SandboxMode where
  | off
  | inputs
  | copiedInputs
  deriving DecidableEq

/-- Whether an action may reach the network while it runs. -/
inductive NetworkPolicy where
  | unrestricted
  | deny
  deriving DecidableEq

def OutputSymlinkMode.isDefault (mode : OutputSymlinkMode) : Bool := mode = .materializeExternal

def SandboxMode.isDefault (mode : SandboxMode) : Bool := mode = .off

def NetworkPolicy.isDefault (policy : NetworkPolicy) : Bool := policy = .unrestricted

/-- `ResourceRequest` with the widths of its numbers. -/
structure ResourceRequest where
  cpuSlots : UInt64
  memoryBytes : UInt64
  slots : SortedMap Text UInt64

namespace ResourceRequest

def default : ResourceRequest := ⟨1, 0, .empty⟩

def isDefault (r : ResourceRequest) : Bool :=
  decide (r.cpuSlots = 1) && decide (r.memoryBytes = 0) && r.slots.isEmpty

end ResourceRequest

def defaultSuccessExitCodes : List Int32 := [0]

def isDefaultSuccessExitCodes (codes : List Int32) : Bool := codes = [0]

/-- Where an action runs when it is not run locally. -/
structure RemoteExecution where
  provider : Text
  executor : Option Text
  environment : Option Text
  account : Option Text
  project : Option Text
  properties : SortedMap Text JsonValue

/-! ## Actions -/

structure RunCommand where
  argv : List Text
  env : SortedMap Text Text
  cwd : Option WorkspacePath
  inputDigest : Option Digest
  inputs : List WorkspacePath
  outputs : List WorkspacePath
  stdoutPath : Option WorkspacePath
  stderrPath : Option WorkspacePath
  outputSymlinkMode : OutputSymlinkMode
  resources : ResourceRequest
  sandbox : SandboxMode
  network : NetworkPolicy
  timeoutMs : Option UInt64
  successExitCodes : List Int32
  remote : Option RemoteExecution

structure WriteFile where
  path : WorkspacePath
  bytes : List UInt8
  inputDigest : Option Digest

inductive CopyPathMode where
  | file
  | tree
  deriving DecidableEq

structure CopyPath where
  sources : List WorkspacePath
  destination : WorkspacePath
  mode : CopyPathMode
  inputDigest : Option Digest

structure LinkPath where
  source : WorkspacePath
  destination : WorkspacePath
  inputDigest : Option Digest

/-- `MaterializeHostFile` and `MaterializeHostTree`.  The source is a `PathBuf` that is valid UTF-8,
by its text: serializing any other fails. -/
structure MaterializeHost where
  source : Text
  sourceSha256 : Text
  destination : WorkspacePath
  inputDigest : Option Digest

structure PreparePath where
  path : WorkspacePath
  mode : PreparePathMode
  inputDigest : Option Digest

structure WriteTreeDigest where
  root : WorkspacePath
  output : WorkspacePath
  includeSuffixes : List Text
  inputDigest : Option Digest

inductive ArchiveFormat where
  | tar
  | tarGz
  | zip
  deriving DecidableEq

inductive ArchiveEntryKind where
  | file
  | directory
  | tree
  | symlink
  deriving DecidableEq

structure ArchiveEntry where
  kind : ArchiveEntryKind
  source : Option WorkspacePath
  path : Text
  target : Option Text
  mode : UInt32
  directoryMode : UInt32
  ownerId : UInt64
  groupId : UInt64
  mtime : UInt64

structure WriteArchive where
  entries : List ArchiveEntry
  output : WorkspacePath
  sha256Output : Option WorkspacePath
  uncompressedSha256Output : Option WorkspacePath
  format : ArchiveFormat
  inputDigest : Option Digest

structure DownloadAndExtract where
  url : Text
  sha256 : Text
  destination : WorkspacePath
  authorizationEnv : Option Text
  inputDigest : Option Digest

inductive Action where
  | runCommand (command : RunCommand)
  | writeFile (file : WriteFile)
  | copyPath (copy : CopyPath)
  | linkPath (link : LinkPath)
  | materializeHostFile (file : MaterializeHost)
  | materializeHostTree (tree : MaterializeHost)
  | preparePath (path : PreparePath)
  | writeTreeDigest (digest : WriteTreeDigest)
  | writeArchive (archive : WriteArchive)
  | downloadAndExtract (download : DownloadAndExtract)

end OnceBuild.Core
