import OnceBuild.Core.CommandJson

/-!
# Actions as JSON

The other actions, and the tag that tells them apart. For each, `pieces` are the fields it is
written as, `readFields` reads them back by name, and `readFields_written` is the round trip.
-/

namespace OnceBuild.Core

open Lib FieldCodec Codec
open Actions (PreparePathMode)

/-! ## Files and paths -/

namespace WriteFile

def pieces (f : WriteFile) : List (Text × Option Json) :=
  [("path".toList, (required workspacePath).write f.path),
    ("bytes".toList, (required (.list uint8)).write f.bytes),
    ("input_digest".toList, optionalDigest.write f.inputDigest)]

def readFields (fields : List (Text × Json)) : Option WriteFile := do
  let path ← (required workspacePath).readIn fields "path".toList
  let bytes ← (required (.list uint8)).readIn fields "bytes".toList
  let inputDigest ← optionalDigest.readIn fields "input_digest".toList
  some ⟨path, bytes, inputDigest⟩

@[simp] lemma readFields_written (f : WriteFile) : readFields (written f.pieces) = some f := by
  simp [readFields, pieces]

end WriteFile

def CopyPathMode.name : CopyPathMode → Text
  | .file => "file".toList
  | .tree => "tree".toList

def copyPathMode : Codec CopyPathMode :=
  .enumeration [.file, .tree] CopyPathMode.name fun mode => by cases mode <;> decide

namespace CopyPath

def pieces (c : CopyPath) : List (Text × Option Json) :=
  [("sources".toList, (required (.list workspacePath)).write c.sources),
    ("destination".toList, (required workspacePath).write c.destination),
    ("mode".toList, (required copyPathMode).write c.mode),
    ("input_digest".toList, optionalDigest.write c.inputDigest)]

def readFields (fields : List (Text × Json)) : Option CopyPath := do
  let sources ← (required (.list workspacePath)).readIn fields "sources".toList
  let destination ← (required workspacePath).readIn fields "destination".toList
  let mode ← (required copyPathMode).readIn fields "mode".toList
  let inputDigest ← optionalDigest.readIn fields "input_digest".toList
  some ⟨sources, destination, mode, inputDigest⟩

@[simp] lemma readFields_written (c : CopyPath) : readFields (written c.pieces) = some c := by
  simp [readFields, pieces]

end CopyPath

namespace LinkPath

def pieces (l : LinkPath) : List (Text × Option Json) :=
  [("source".toList, (required workspacePath).write l.source),
    ("destination".toList, (required workspacePath).write l.destination),
    ("input_digest".toList, optionalDigest.write l.inputDigest)]

def readFields (fields : List (Text × Json)) : Option LinkPath := do
  let source ← (required workspacePath).readIn fields "source".toList
  let destination ← (required workspacePath).readIn fields "destination".toList
  let inputDigest ← optionalDigest.readIn fields "input_digest".toList
  some ⟨source, destination, inputDigest⟩

@[simp] lemma readFields_written (l : LinkPath) : readFields (written l.pieces) = some l := by
  simp [readFields, pieces]

end LinkPath

namespace MaterializeHost

def pieces (m : MaterializeHost) : List (Text × Option Json) :=
  [("source".toList, (required text).write m.source),
    ("source_sha256".toList, (required text).write m.sourceSha256),
    ("destination".toList, (required workspacePath).write m.destination),
    ("input_digest".toList, optionalDigest.write m.inputDigest)]

def readFields (fields : List (Text × Json)) : Option MaterializeHost := do
  let source ← (required text).readIn fields "source".toList
  let sourceSha256 ← (required text).readIn fields "source_sha256".toList
  let destination ← (required workspacePath).readIn fields "destination".toList
  let inputDigest ← optionalDigest.readIn fields "input_digest".toList
  some ⟨source, sourceSha256, destination, inputDigest⟩

@[simp] lemma readFields_written (m : MaterializeHost) :
    readFields (written m.pieces) = some m := by
  simp [readFields, pieces]

end MaterializeHost

def preparePathModeName : PreparePathMode → Text
  | .remove => "remove".toList
  | .directory => "directory".toList

def preparePathMode : Codec PreparePathMode :=
  .enumeration [.remove, .directory] preparePathModeName
    fun mode => by cases mode <;> decide

namespace PreparePath

def pieces (p : PreparePath) : List (Text × Option Json) :=
  [("path".toList, (required workspacePath).write p.path),
    ("mode".toList, (required preparePathMode).write p.mode),
    ("input_digest".toList, optionalDigest.write p.inputDigest)]

def readFields (fields : List (Text × Json)) : Option PreparePath := do
  let path ← (required workspacePath).readIn fields "path".toList
  let mode ← (required preparePathMode).readIn fields "mode".toList
  let inputDigest ← optionalDigest.readIn fields "input_digest".toList
  some ⟨path, mode, inputDigest⟩

@[simp] lemma readFields_written (p : PreparePath) : readFields (written p.pieces) = some p := by
  simp [readFields, pieces]

end PreparePath

namespace WriteTreeDigest

def pieces (w : WriteTreeDigest) : List (Text × Option Json) :=
  [("root".toList, (required workspacePath).write w.root),
    ("output".toList, (required workspacePath).write w.output),
    ("include_suffixes".toList, (unlessEmpty text).write w.includeSuffixes),
    ("input_digest".toList, optionalDigest.write w.inputDigest)]

def readFields (fields : List (Text × Json)) : Option WriteTreeDigest := do
  let root ← (required workspacePath).readIn fields "root".toList
  let output ← (required workspacePath).readIn fields "output".toList
  let includeSuffixes ← (unlessEmpty text).readIn fields "include_suffixes".toList
  let inputDigest ← optionalDigest.readIn fields "input_digest".toList
  some ⟨root, output, includeSuffixes, inputDigest⟩

@[simp] lemma readFields_written (w : WriteTreeDigest) :
    readFields (written w.pieces) = some w := by
  simp [readFields, pieces]

end WriteTreeDigest

/-! ## Archives -/

def ArchiveFormat.name : ArchiveFormat → Text
  | .tar => "tar".toList
  | .tarGz => "tar_gz".toList
  | .zip => "zip".toList

def archiveFormat : Codec ArchiveFormat :=
  .enumeration [.tar, .tarGz, .zip] ArchiveFormat.name
    fun format => by cases format <;> decide

def ArchiveEntryKind.name : ArchiveEntryKind → Text
  | .file => "file".toList
  | .directory => "directory".toList
  | .tree => "tree".toList
  | .symlink => "symlink".toList

def archiveEntryKind : Codec ArchiveEntryKind :=
  .enumeration [.file, .directory, .tree, .symlink] ArchiveEntryKind.name
    fun kind => by cases kind <;> decide

namespace ArchiveEntry

def pieces (e : ArchiveEntry) : List (Text × Option Json) :=
  [("kind".toList, (required archiveEntryKind).write e.kind),
    ("source".toList, optionalPath.write e.source), ("path".toList, (required text).write e.path),
    ("target".toList, optionalText.write e.target), ("mode".toList, (required uint32).write e.mode),
    ("directory_mode".toList, (required uint32).write e.directoryMode),
    ("owner_id".toList, (required uint64).write e.ownerId),
    ("group_id".toList, (required uint64).write e.groupId),
    ("mtime".toList, (required uint64).write e.mtime)]

def readFields (fields : List (Text × Json)) : Option ArchiveEntry := do
  let kind ← (required archiveEntryKind).readIn fields "kind".toList
  let source ← optionalPath.readIn fields "source".toList
  let path ← (required text).readIn fields "path".toList
  let target ← optionalText.readIn fields "target".toList
  let mode ← (required uint32).readIn fields "mode".toList
  let directoryMode ← (required uint32).readIn fields "directory_mode".toList
  let ownerId ← (required uint64).readIn fields "owner_id".toList
  let groupId ← (required uint64).readIn fields "group_id".toList
  let mtime ← (required uint64).readIn fields "mtime".toList
  some ⟨kind, source, path, target, mode, directoryMode, ownerId, groupId, mtime⟩

@[simp] lemma readFields_written (e : ArchiveEntry) : readFields (written e.pieces) = some e := by
  simp [readFields, pieces]

def codec : Codec ArchiveEntry := .record pieces readFields readFields_written

end ArchiveEntry

namespace WriteArchive

def pieces (w : WriteArchive) : List (Text × Option Json) :=
  [("entries".toList, (required (.list ArchiveEntry.codec)).write w.entries),
    ("output".toList, (required workspacePath).write w.output),
    ("sha256_output".toList, optionalPath.write w.sha256Output),
    ("uncompressed_sha256_output".toList, optionalPath.write w.uncompressedSha256Output),
    ("format".toList, (required archiveFormat).write w.format),
    ("input_digest".toList, optionalDigest.write w.inputDigest)]

def readFields (fields : List (Text × Json)) : Option WriteArchive := do
  let entries ← (required (.list ArchiveEntry.codec)).readIn fields "entries".toList
  let output ← (required workspacePath).readIn fields "output".toList
  let sha256Output ← optionalPath.readIn fields "sha256_output".toList
  let uncompressedSha256Output ← optionalPath.readIn fields "uncompressed_sha256_output".toList
  let format ← (required archiveFormat).readIn fields "format".toList
  let inputDigest ← optionalDigest.readIn fields "input_digest".toList
  some ⟨entries, output, sha256Output, uncompressedSha256Output, format, inputDigest⟩

@[simp] lemma readFields_written (w : WriteArchive) : readFields (written w.pieces) = some w := by
  simp [readFields, pieces]

end WriteArchive

namespace DownloadAndExtract

def pieces (d : DownloadAndExtract) : List (Text × Option Json) :=
  [("url".toList, (required text).write d.url), ("sha256".toList, (required text).write d.sha256),
    ("destination".toList, (required workspacePath).write d.destination),
    ("authorization_env".toList, optionalText.write d.authorizationEnv),
    ("input_digest".toList, optionalDigest.write d.inputDigest)]

def readFields (fields : List (Text × Json)) : Option DownloadAndExtract := do
  let url ← (required text).readIn fields "url".toList
  let sha256 ← (required text).readIn fields "sha256".toList
  let destination ← (required workspacePath).readIn fields "destination".toList
  let authorizationEnv ← optionalText.readIn fields "authorization_env".toList
  let inputDigest ← optionalDigest.readIn fields "input_digest".toList
  some ⟨url, sha256, destination, authorizationEnv, inputDigest⟩

@[simp] lemma readFields_written (d : DownloadAndExtract) :
    readFields (written d.pieces) = some d := by
  simp [readFields, pieces]

end DownloadAndExtract

/-! ## Actions -/

inductive ActionKind where
  | runCommand
  | writeFile
  | copyPath
  | linkPath
  | materializeHostFile
  | materializeHostTree
  | preparePath
  | writeTreeDigest
  | writeArchive
  | downloadAndExtract
  deriving DecidableEq

def ActionKind.all : List ActionKind :=
  [.runCommand, .writeFile, .copyPath, .linkPath, .materializeHostFile, .materializeHostTree,
    .preparePath, .writeTreeDigest, .writeArchive, .downloadAndExtract]

def ActionKind.name : ActionKind → Text
  | .runCommand => "run_command".toList
  | .writeFile => "write_file".toList
  | .copyPath => "copy_path".toList
  | .linkPath => "link_path".toList
  | .materializeHostFile => "materialize_host_file".toList
  | .materializeHostTree => "materialize_host_tree".toList
  | .preparePath => "prepare_path".toList
  | .writeTreeDigest => "write_tree_digest".toList
  | .writeArchive => "write_archive".toList
  | .downloadAndExtract => "download_and_extract".toList

def actionKind : Codec ActionKind :=
  .enumeration ActionKind.all ActionKind.name fun kind => by cases kind <;> decide

namespace Action

def kind : Action → ActionKind
  | .runCommand _ => .runCommand
  | .writeFile _ => .writeFile
  | .copyPath _ => .copyPath
  | .linkPath _ => .linkPath
  | .materializeHostFile _ => .materializeHostFile
  | .materializeHostTree _ => .materializeHostTree
  | .preparePath _ => .preparePath
  | .writeTreeDigest _ => .writeTreeDigest
  | .writeArchive _ => .writeArchive
  | .downloadAndExtract _ => .downloadAndExtract

def pieces : Action → List (Text × Option Json)
  | .runCommand c => c.pieces
  | .writeFile f => f.pieces
  | .copyPath c => c.pieces
  | .linkPath l => l.pieces
  | .materializeHostFile m => m.pieces
  | .materializeHostTree m => m.pieces
  | .preparePath p => p.pieces
  | .writeTreeDigest w => w.pieces
  | .writeArchive w => w.pieces
  | .downloadAndExtract d => d.pieces

def readVariant (fields : List (Text × Json)) : ActionKind → Option Action
  | .runCommand => (RunCommand.readFields fields).map .runCommand
  | .writeFile => (WriteFile.readFields fields).map .writeFile
  | .copyPath => (CopyPath.readFields fields).map .copyPath
  | .linkPath => (LinkPath.readFields fields).map .linkPath
  | .materializeHostFile => (MaterializeHost.readFields fields).map .materializeHostFile
  | .materializeHostTree => (MaterializeHost.readFields fields).map .materializeHostTree
  | .preparePath => (PreparePath.readFields fields).map .preparePath
  | .writeTreeDigest => (WriteTreeDigest.readFields fields).map .writeTreeDigest
  | .writeArchive => (WriteArchive.readFields fields).map .writeArchive
  | .downloadAndExtract => (DownloadAndExtract.readFields fields).map .downloadAndExtract

variable (a : Action)

/-- An internally tagged variant: the tag comes before the fields. -/
def tagged : List (Text × Option Json) :=
  ("kind".toList, (required actionKind).write a.kind) :: a.pieces

def toJson : Json := .object (written a.tagged)

/-- The tag is read first, and then the other fields as those of its variant. -/
def readFields (fields : List (Text × Json)) : Option Action := do
  let kind ← (required actionKind).readIn fields "kind".toList
  readVariant (fields.filter fun field => !(field.1 == "kind".toList)) kind

def fromJson : Json → Option Action := readRecord readFields

/-- No variant has a field of the tag's name, so dropping the tag drops nothing else. -/
lemma kind_notMem : "kind".toList ∉ a.pieces.map Prod.fst := by
  cases a <;> simp [pieces, RunCommand.pieces, WriteFile.pieces, CopyPath.pieces, LinkPath.pieces,
    MaterializeHost.pieces, PreparePath.pieces, WriteTreeDigest.pieces, WriteArchive.pieces,
    DownloadAndExtract.pieces]

lemma filter_tagged :
    ((written a.tagged).filter fun field => !(field.1 == "kind".toList)) = written a.pieces := by
  have htag : written a.tagged = ("kind".toList, actionKind.write a.kind) :: written a.pieces := rfl
  rw [htag, List.filter_cons_of_neg (by simp)]
  refine List.filter_eq_self.mpr fun field hfield => ?_
  have hne : field.1 ≠ "kind".toList := fun heq => a.kind_notMem (heq ▸ mem_written hfield)
  simpa using hne

lemma read_toJson : fromJson a.toJson = some a := by
  change readFields (written a.tagged) = some a
  unfold readFields
  rw [filter_tagged, tagged, readIn_cons_self a.kind_notMem]
  cases a <;> simp [kind, pieces, readVariant]

def codec : Codec Action := ⟨toJson, fromJson, read_toJson⟩

end Action

end OnceBuild.Core
