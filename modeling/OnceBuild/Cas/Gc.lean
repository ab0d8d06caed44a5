import Mathlib.Algebra.BigOperators.Group.List.Lemmas
import Mathlib.Algebra.GroupWithZero.Nat
import Mathlib.Data.List.Sort
import OnceBuild.Cas.Digest
import OnceBuild.Lib.Loop

/-!
# Garbage collection of the content-addressed store

Model of `Cas::gc`.  A store is the files under its root; a pass takes a snapshot of the blobs and
action results, marks orphan blobs and then whole action results for eviction until the projected
size fits, and finally removes the marked files, owners first.

Sizes are natural numbers: the `u64` sums of the source cannot overflow on a real disk.  The JSON
decoder of action results is a parameter.
-/

namespace OnceBuild.Cas

/-- A regular file below the store's root, by its path components. -/
structure StoredFile where
  path : List String
  bytes : List UInt8
  modified : Nat
  deriving DecidableEq

/-- The files of a store in the order a directory scan meets them. -/
structure Store where
  files : List StoredFile
  nodup_paths : (files.map StoredFile.path).Nodup

/-- A stored blob and the metadata `gc` ranks it by; `digest` is `none` for a stray file. -/
structure BlobFile where
  path : List String
  digest : Option Digest
  size : Nat
  modified : Nat
  deriving DecidableEq

/-- A stored action result and the blob digests it references. -/
structure ActionFile where
  path : List String
  size : Nat
  modified : Nat
  refs : List Digest
  deriving DecidableEq

/-! ## Taking the snapshot -/

def blobsDir : String := "cas"

def actionsDir : String := "actions"

/-- `Cas::blob_path`: the file that holds the blob of a digest. -/
def blobPath (d : Digest) : List String :=
  [blobsDir, String.ofList (d.hex.take 2), String.ofList (d.hex.drop 2)]

/-- A temporary file of a write in flight. -/
def isTemporary (name : String) : Bool := ".tmp-".toList.isPrefixOf name.toList

def isJson (name : String) : Bool := ".json".toList.isSuffixOf name.toList

/-- `digest_from_blob_path`: the last two components joined, when the shard has two characters.
The source counts bytes; both counts agree on any text that `from_hex` accepts. -/
def digestFromBlobPath (path : List String) : Option Digest :=
  match path.reverse with
  | file :: shard :: _ =>
    if shard.toList.length = 2 then Digest.fromHex (shard.toList ++ file.toList) else none
  | _ => none

variable (decode : List UInt8 → Option ActionResult)

/-- `parse_action_refs`: outputs, then stdout, then stderr; a corrupt file references nothing. -/
def parseActionRefs (bytes : List UInt8) : List Digest :=
  match decode bytes with
  | none => []
  | some result => result.outputs.map Prod.snd ++ result.stdout.toList ++ result.stderr.toList

/-- Whether a scan below `dir` meets the file under a name that is not temporary. -/
def StoredFile.under (dir : String) (f : StoredFile) : Bool :=
  match f.path with
  | top :: below => top == dir && (below.getLast?.any fun name => !isTemporary name)
  | [] => false

def StoredFile.blobFile (f : StoredFile) : BlobFile where
  path := f.path
  digest := digestFromBlobPath f.path
  size := f.bytes.length
  modified := f.modified

def StoredFile.actionFile (f : StoredFile) : ActionFile where
  path := f.path
  size := f.bytes.length
  modified := f.modified
  refs := parseActionRefs decode f.bytes

variable (store : Store)

def collectBlobFiles : List BlobFile :=
  (store.files.filter (StoredFile.under blobsDir)).map StoredFile.blobFile

def collectActionFiles : List ActionFile :=
  (store.files.filter fun f =>
    f.under actionsDir && f.path.getLast?.any isJson).map (StoredFile.actionFile decode)

/-! ## Marking files for eviction -/

/-- The mutable variables of `Cas::gc`. -/
structure Marks where
  refcount : Digest → Option Nat
  blobRemoved : List BlobFile
  actionRemoved : List ActionFile
  bytesAfter : Nat

/-- `*refcount.entry(digest).or_insert(0) += 1` over all references of the snapshot. -/
def countRefs (actions : List ActionFile) : Digest → Option Nat :=
  (actions.flatMap ActionFile.refs).foldl
    (fun counts d => Function.update counts d (some ((counts d).getD 0 + 1))) (fun _ => none)

variable (blobs : List BlobFile)

/-- `blob_index`: a later blob of the same digest replaces an earlier one. -/
def blobIndex (d : Digest) : Option BlobFile := blobs.reverse.find? fun b => b.digest == some d

def storedBytes (actions : List ActionFile) : Nat :=
  (blobs.map BlobFile.size).sum + (actions.map ActionFile.size).sum

/-- A stray file, or a blob that no action result of the snapshot references. -/
def isOrphan (refcount : Digest → Option Nat) (b : BlobFile) : Bool :=
  match b.digest with
  | some d => (refcount d).getD 0 == 0
  | none => true

def Marks.removeBlob (m : Marks) (b : BlobFile) : Marks :=
  { m with blobRemoved := b :: m.blobRemoved, bytesAfter := m.bytesAfter - b.size }

/-- Drop one reference to `d`, and the blob with its last one. -/
def Marks.release (m : Marks) (d : Digest) : Marks :=
  match m.refcount d with
  | none => m
  | some count =>
    let m := { m with refcount := Function.update m.refcount d (some (count - 1)) }
    if count - 1 = 0 then
      match blobIndex blobs d with
      | some b => if b ∈ m.blobRemoved then m else m.removeBlob b
      | none => m
    else m

/-- Evict an action result and release what it references. -/
def Marks.evict (m : Marks) (a : ActionFile) : Marks :=
  a.refs.foldl (Marks.release blobs)
    { m with actionRemoved := a :: m.actionRemoved, bytesAfter := m.bytesAfter - a.size }

variable (maxBytes : Nat)

def Marks.fits (m : Marks) : Bool := m.bytesAfter ≤ maxBytes

def Marks.init (actions : List ActionFile) : Marks where
  refcount := countRefs actions
  blobRemoved := []
  actionRemoved := []
  bytesAfter := storedBytes blobs actions

/-- Tier 1: orphan blobs, oldest first. -/
def markOrphans (blobs : List BlobFile) (actions : List ActionFile) : Marks :=
  Lib.foldUntil (Marks.fits maxBytes) Marks.removeBlob (Marks.init blobs actions)
    ((blobs.filter (isOrphan (countRefs actions))).mergeSort fun x y => x.modified ≤ y.modified)

/-- Tier 2: action results, oldest first, with the blobs they release.  The guard of the source
around this tier is the break condition of its loop. -/
def markActions (blobs : List BlobFile) (actions : List ActionFile) : Marks :=
  Lib.foldUntil (Marks.fits maxBytes) (Marks.evict blobs) (markOrphans maxBytes blobs actions)
    (actions.mergeSort fun x y => x.modified ≤ y.modified)

/-- The marks of a pass; a store that already fits is left alone. -/
def mark (blobs : List BlobFile) (actions : List ActionFile) : Marks :=
  if storedBytes blobs actions ≤ maxBytes then Marks.init blobs actions
  else markActions maxBytes blobs actions

def Marks.victims (actions : List ActionFile) (m : Marks) : List (List String) :=
  (actions.filter (· ∈ m.actionRemoved)).map ActionFile.path ++
    (blobs.filter (· ∈ m.blobRemoved)).map BlobFile.path

/-! ## The pass -/

/-- `fs::remove_file`, where a missing file is no error. -/
def Store.removeFile (path : List String) : Store where
  files := store.files.filter fun f => f.path ≠ path
  nodup_paths := store.nodup_paths.sublist (List.filter_sublist.map _)

def Store.removeFiles (paths : List (List String)) : Store := paths.foldl Store.removeFile store

structure GcReport where
  bytesBefore : Nat
  bytesAfter : Nat
  removed : Nat
  dryRun : Bool
  deriving DecidableEq

/-- The files `Cas::gc` removes, in order. -/
def gcVictims : List (List String) :=
  let blobs := collectBlobFiles store
  let actions := collectActionFiles decode store
  (mark maxBytes blobs actions).victims blobs actions

/-- `Cas::gc`: the report and the store it leaves. -/
def gc (dryRun : Bool) : GcReport × Store :=
  let blobs := collectBlobFiles store
  let actions := collectActionFiles decode store
  let victims := gcVictims decode store maxBytes
  ({ bytesBefore := storedBytes blobs actions
     bytesAfter := (mark maxBytes blobs actions).bytesAfter
     removed := victims.length
     dryRun := dryRun }, if dryRun then store else store.removeFiles victims)

/-- `Cas::has_blob`. -/
def Store.hasBlob (d : Digest) : Bool := store.files.any fun f => f.path == blobPath d

end OnceBuild.Cas
