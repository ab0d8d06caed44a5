import Mathlib.Data.List.Sort
import OnceBuild.Remote.InputPlan
import OnceBuild.Tuist.Client

/-!
# The content-addressed input root of a remote action

The directories of the input root are collected in a map by path, from the plan of the declared
inputs, from the plan of the restored ones and from the set-up directories.  They are then encoded
children first; the digest of the empty path is the root.

The hash function and the message encoding are parameters.  `hashed` lists the byte strings that
were hashed.
-/

namespace OnceBuild.Remote

open Lib
open OnceBuild.Core (FileData Place Disk WorkspacePath names)
open Cas (Bytes)
open Tuist (RemoteDigest digestKey isI64_length)

/-! ## Messages -/

structure FileNode where
  name : Text
  digest : Option RemoteDigest
  isExecutable : Bool
  deriving DecidableEq

structure DirectoryNode where
  name : Text
  digest : Option RemoteDigest
  deriving DecidableEq

structure SymlinkNode where
  name : Text
  target : Text
  deriving DecidableEq

/-- `reapi::Directory`. -/
structure Directory where
  files : List FileNode
  directories : List DirectoryNode
  symlinks : List SymlinkNode
  deriving DecidableEq

/-- SHA-256 and the wire form of a directory; `none` is a message that no buffer can hold. -/
structure Codec where
  sha256 : Bytes → Cas.Digest
  encode : Directory → Option Bytes
  decode : Bytes → Option Directory
  encode_bounded : ∀ directory bytes, encode directory = some bytes → (bytes.length : Int) ≤ i64Max
  decode_encode : ∀ directory bytes, encode directory = some bytes → decode bytes = some directory

/-! ## State -/

inductive Blob where
  | file (path : Place)
  | bytes (bytes : Bytes)
  deriving DecidableEq

abbrev Blobs := String → Option (RemoteDigest × Blob)

structure InputTree where
  root : RemoteDigest
  blobs : Blobs
  hashed : List Bytes

/-- One directory of the input root. -/
structure DirNode where
  files : SortedMap Text (RemoteDigest × Bool)
  directories : SortedMap Text Unit
  symlinks : SortedMap Text Text

def DirNode.default : DirNode := ⟨.empty, .empty, .empty⟩

abbrev Nodes := SortedMap (List Text) DirNode

inductive Failure where
  | error (error : RemoteError)
  | panicked (message : String)
  deriving DecidableEq

structure TreeState where
  nodes : Nodes
  blobs : Blobs
  hashed : List Bytes

/-- Paths that the input root must contain. -/
structure Layout where
  inputs : List WorkspacePath
  cleanPaths : List WorkspacePath
  restoredInputs : List WorkspacePath
  directories : List Text

def apiError (message : String) : RemoteError := .remoteProviderApi provider message

/-- `Path::display`. -/
def display (path : Place) : String := String.ofList (fromUtf8Lossy (relativeText path))

/-! ## The map of directories -/

variable (nodes : Nodes) (path : List Text)

/-- `nodes.entry(path).or_default()`. -/
def node : DirNode := (nodes.get path).getD .default

def addDirectory (name : Text) : Nodes :=
  nodes.insert path
    { node nodes path with directories := (node nodes path).directories.insert name () }

def touch : Nodes := nodes.insert path (node nodes path)

def addFile (name : Text) (file : RemoteDigest × Bool) : Nodes :=
  nodes.insert path { node nodes path with files := (node nodes path).files.insert name file }

def addSymlink (name target : Text) : Nodes :=
  nodes.insert path
    { node nodes path with symlinks := (node nodes path).symlinks.insert name target }

/-- List a name in a directory and make sure that it has a node of its own. -/
def enter (current : List Text) (name : Text) : Nodes :=
  touch (addDirectory nodes current name) (current ++ [name])

/-- The loop of `ensure_directory`. -/
def ensureFrom (shown : String) : List Text → List Component → Nodes → Except RemoteError Nodes
  | _, [], nodes => .ok nodes
  | current, .normal part :: rest, nodes =>
    match fromUtf8 part with
    | none => .error (apiError ("input path `" ++ shown ++ "` is not UTF-8"))
    | some name => ensureFrom shown (current ++ [name]) rest (enter nodes current name)
  | _, _ :: _, _ => .error (apiError ("invalid input directory `" ++ shown ++ "`"))

def ensureDirectory (shown : String) (parts : List Component) (nodes : Nodes) :
    Except RemoteError Nodes :=
  ensureFrom shown [] parts nodes

/-- `ensure_directory` of a path in the workspace. -/
def ensurePlace (path : Place) (nodes : Nodes) : Except RemoteError Nodes :=
  ensureDirectory (display path) (path.map Component.normal) nodes

/-! ## Links -/

/-- One component of `normalize`. -/
def normalizeStep (normalized : Place) : Component → Option Place
  | .normal part => some (normalized ++ [part])
  | .curDir => some normalized
  | .parentDir => if normalized = [] then none else some normalized.dropLast
  | .rootDir => none

def normalize (parts : List Component) : Option Place := parts.foldlM normalizeStep []

def relativeLinkStaysWithin (link : Place) (target : OsPath) (declaredRoots : List Place) : Bool :=
  if isAbsolute target then false
  else
    match normalize (link.dropLast.map Component.normal ++ components target) with
    | none => false
    | some resolved => declaredRoots.any fun root => root.isPrefixOf resolved

/-! ## Adding an entry -/

section entries

variable (codec : Codec)

/-- The digest of bytes whose number an `i64` can hold. -/
def digestOf (bytes : Bytes) : Option RemoteDigest :=
  if h : (bytes.length : Int) ≤ i64Max then
    some ⟨(codec.sha256 bytes).hex, bytes.length, isI64_length h⟩
  else none

/-- `blobs.entry(key(&digest)).or_insert(..)`. -/
def insertBlob (blobs : Blobs) (digest : RemoteDigest) (blob : Blob) : Blobs :=
  match blobs (digestKey digest) with
  | some _ => blobs
  | none => Function.update blobs (digestKey digest) (some (digest, blob))

/-- `file_name` of an entry. -/
def fileName (path : Place) : Except RemoteError Text :=
  match path.getLast?.bind fromUtf8 with
  | some name => .ok name
  | none => .error (apiError ("input path `" ++ display path ++ "` is not UTF-8"))

def parentTexts (path : Place) : List Text := path.dropLast.filterMap fromUtf8

def executable (mode : Nat) : Bool := mode &&& 73 ≠ 0

def addLinkEntry (roots : List Place) (relative : Place) (name : Text) (target : OsPath)
    (nodes : Nodes) : Except RemoteError Nodes :=
  if relativeLinkStaysWithin relative target roots then
    match fromUtf8 target with
    | none => .error (apiError ("input link `" ++ display relative ++ "` is not UTF-8"))
    | some text => .ok (addSymlink nodes (parentTexts relative) name text)
  else .error (apiError ("input symbolic link `" ++ display relative ++ "` targets `" ++
    String.ofList (fromUtf8Lossy target) ++ "` outside declared input trees"))

def addFileEntry (relative : Place) (name : Text) (data : FileData) (nodes : Nodes)
    (state : TreeState) : Except RemoteError TreeState :=
  match digestOf codec data.content with
  | none => .error (.fileAction "hash_remote_input" relative .invalidInput)
  | some digest => .ok
      { nodes := addFile nodes (parentTexts relative) name (digest, executable data.mode)
        blobs := insertBlob state.blobs digest (.file relative)
        hashed := state.hashed ++ [data.content] }

/-- What `add_entry` does once it knows the kind of the entry. -/
def addNode (roots : List Place) (relative : Place) (state : TreeState) :
    Core.Node → Except RemoteError TreeState
  | .dir _ => do
      let nodes ← ensurePlace relative state.nodes
      .ok { state with nodes := nodes }
  | .link target => do
      let nodes ← ensurePlace relative.dropLast state.nodes
      let name ← fileName relative
      let nodes ← addLinkEntry roots relative name target nodes
      .ok { state with nodes := nodes }
  | .file data => do
      let nodes ← ensurePlace relative.dropLast state.nodes
      let name ← fileName relative
      addFileEntry codec relative name data nodes state
  | .special => do
      let _ ← ensurePlace relative.dropLast state.nodes
      let _ ← fileName relative
      .error (apiError ("input `" ++ display relative ++
        "` is not a file, directory, or symbolic link"))

def addEntry (ws : Disk) (roots : List Place) (state : TreeState) (relative : Place) :
    Except RemoteError TreeState := do
  let node ← (metadataBeneath ws relative).mapError (.fileAction "read_remote_input" relative)
  addNode codec roots relative state node

end entries

/-! ## Encoding -/

section encoding

variable (codec : Codec)

structure Encoding where
  digests : List Text → Option RemoteDigest
  blobs : Blobs
  hashed : List Bytes

def takeChildren (path : List Text) : List Text → (List Text → Option RemoteDigest) →
      Except Failure (List DirectoryNode × (List Text → Option RemoteDigest))
  | [], digests => .ok ([], digests)
  | name :: rest, digests =>
    match digests (path ++ [name]) with
    | none => .error (.panicked "children are encoded before their parent")
    | some digest => do
        let taken ← takeChildren path rest (Function.update digests (path ++ [name]) none)
        .ok ({ name := name, digest := some digest } :: taken.1, taken.2)

/-- A name that stands for both a directory and something else. -/
def clash (node : DirNode) : Option Text :=
  (node.files.keys ++ node.symlinks.keys).find? fun name => (node.directories.get name).isSome

def directoryMessage (node : DirNode) (children : List DirectoryNode) : Directory where
  files := node.files.entries.map fun entry =>
    { name := entry.1, digest := some entry.2.1, isExecutable := entry.2.2 }
  directories := children
  symlinks := node.symlinks.entries.map fun entry => { name := entry.1, target := entry.2 }

/-- The common end: hash the encoded message and file it. -/
def sealDirectory (path : List Text) (message : Directory) (encoding : Encoding) :
    Except Failure Encoding :=
  match codec.encode message with
  -- no memory holds the message: the process ends there, with a text of its own
  | none => .error (.error (apiError "directory message does not fit in memory"))
  | some bytes =>
    match digestOf codec bytes with
    | none => .error (.panicked "blob length fits a digest")
    | some digest => .ok
        { digests := Function.update encoding.digests path (some digest)
          blobs := insertBlob encoding.blobs digest (.bytes bytes)
          hashed := encoding.hashed ++ [bytes] }

/-- One round of `encode_directories`. -/
def encodeNode (nodes : Nodes) (encoding : Encoding) (path : List Text) : Except Failure Encoding :=
  match nodes.get path with
  | none => .error (.panicked "every path has a node")
  | some node =>
    match clash node with
    | some name => .error (.error (apiError ("input `" ++
        display ((path ++ [name]).map utf8Encode) ++ "` is both a directory and a file")))
    | none => do
        let taken ← takeChildren path node.directories.keys encoding.digests
        sealDirectory codec path (directoryMessage node taken.1)
          { encoding with digests := taken.2 }

def deepestFirst (nodes : Nodes) : List (List Text) :=
  nodes.keys.insertionSort fun a b => b.length ≤ a.length

def encodeDirectories (nodes : Nodes) (blobs : Blobs) (hashed : List Bytes) :
    Except Failure InputTree := do
  let encoding ← (deepestFirst nodes).foldlM (encodeNode codec nodes)
    { digests := fun _ => none, blobs := blobs, hashed := hashed }
  match encoding.digests [] with
  | none => .error (.panicked "the root directory is always encoded")
  | some root => .ok { root := root, blobs := encoding.blobs, hashed := encoding.hashed }

end encoding

/-! ## Building -/

/-- The order of paths, component by component. -/
def placeLe : Place → Place → Bool
  | [], _ => true
  | _ :: _, [] => false
  | a :: p, b :: q => if a = b then placeLe p q else bytesLe a b

def cleaned (layout : Layout) (relative : Place) : Bool :=
  layout.cleanPaths.any fun clean => (names clean).isPrefixOf relative

def passEntries (layout : Layout) (keepCleaned : Bool) (plan : InputPlan) : List Place :=
  (plan.keys.mergeSort placeLe).filter fun relative =>
    !(decide (relative = []) || (!keepCleaned && cleaned layout relative))

variable (codec : Codec) (ws : Disk) (workspace : OsPath) (limits : RemoteIoLimits)

def addPass (layout : Layout) (inputs : List WorkspacePath) (keepCleaned : Bool)
    (state : TreeState) : Except RemoteError TreeState := do
  let plan ← InputPlan.collect ws workspace limits inputs
  (passEntries layout keepCleaned plan).foldlM (addEntry codec ws plan.declaredRoots) state

def addSetUp (directory : Text) : Except RemoteError Nodes :=
  ensureDirectory (String.ofList directory) (components (utf8Encode directory)) nodes

def emptyState : TreeState where
  nodes := SortedMap.empty.insert [] .default
  blobs := fun _ => none
  hashed := []

def collectNodes (layout : Layout) : Except RemoteError TreeState := do
  let state ← addPass codec ws workspace limits layout layout.inputs false emptyState
  let state ← addPass codec ws workspace limits layout layout.restoredInputs true state
  let nodes ← layout.directories.foldlM addSetUp state.nodes
  .ok { state with nodes := nodes }

def build (layout : Layout) : Except Failure InputTree := do
  let state ← (collectNodes codec ws workspace limits layout).mapError .error
  encodeDirectories codec state.nodes state.blobs state.hashed

end OnceBuild.Remote
