import OnceBuild.Core.HostDisk
import OnceBuild.Lib.BytePath
import OnceBuild.Lib.DiskWalk
import OnceBuild.Lib.Utf8

/-!
# Extracting a ZIP archive

Entries are extracted one after the other.  An entry may not be written through a link, and a link
may climb no further than to the destination and only before it descends.  How far it may climb is
counted by the components of the entry's path; a dot at the beginning of the path is one of them.

The reader of the archive is not modelled: an entry has the path that `enclosed_name` returns for
it, any mode, and bytes that reading it yields before it ends or fails.
-/

namespace OnceBuild.Archive

open Lib Fallible
open Cas (Bytes)
open OnceBuild.Core (FileData)

abbrev Place := List OsPath
abbrev Disk := Lib.Disk OsPath Nat FileData OsPath
abbrev Node := Lib.DiskNode Nat FileData OsPath

structure ZipEntry where
  name : String
  enclosedName : Option OsPath
  unixMode : Option Nat
  isDir : Bool
  /-- The size that the archive declares. -/
  size : Nat
  content : Bytes
  /-- Whether reading ends without an error after the content. -/
  complete : Bool

structure Limits where
  maxArchiveEntries : Nat
  maxMetadataBytes : Nat

/-- Modes that the system gives to what is created without one. -/
structure Defaults where
  dirMode : Nat
  fileMode : Nat

inductive ExtractError where
  | fileAction (path : Place) (source : Errno)
  | readEntry (path : Place)
  | invalidDownloadAndExtract (reason : String)
  | executorResourceLimit (resource : String) (limit : Nat)

abbrev Extract := Fallible Disk ExtractError

def display (path : OsPath) : String := String.ofList (Lib.fromUtf8Lossy path)

def fileAction {α : Type} (path : Place) (call : Fallible Disk Errno α) : Extract α :=
  call.mapError (.fileAction path)

/-- `take(limit)` on the entry, read to its end. -/
def ZipEntry.readUpTo (entry : ZipEntry) (limit : Nat) : Option Bytes :=
  if limit ≤ entry.content.length then some (entry.content.take limit)
  else if entry.complete then some entry.content
  else none

/-! ## Links -/

def isLinkAt (d : Disk) (p : Place) : Bool :=
  match Lib.symlinkMetadata d p with
  | .ok (.link _) => true
  | _ => false

def traversesExtractedSymlink (d : Disk) (destination relative : Place) : Bool :=
  relative.inits.any fun q => !q.isEmpty && isLinkAt d (destination ++ q)

/-- The loop over the components of a target; `descended` says that one of them was a name. -/
def targetStays : Nat → Bool → List Component → Bool
  | _, _, [] => true
  | depth, _, .normal _ :: rest => targetStays depth true rest
  | depth, descended, .curDir :: rest => targetStays depth descended rest
  | depth, descended, .parentDir :: rest =>
    !descended && decide (0 < depth) && targetStays (depth - 1) descended rest
  | _, _, .rootDir :: _ => false

variable (defaults : Defaults)

def extractZipSymlink (relative : List Component) (target : OsPath) (output : Place) :
    Fallible Disk String Unit := do
  failIf (!targetStays (relative.length - 1) false (components target))
    ("links to `" ++ display target ++ "` outside the destination")
  failIf output.isEmpty "has no parent directory"
  (Lib.createDirAll defaults.dirMode output.dropLast).mapError Errno.message
  (Lib.symlink target output).mapError Errno.message

/-! ## Files -/

/-- Write the bytes that the entry yields, at most `remaining` of them, and set its mode. -/
def extractZipFile (entry : ZipEntry) (output : Place) (unixMode remaining : Nat) :
    Extract Nat := do
  failIf output.isEmpty
    (.invalidDownloadAndExtract ("ZIP entry `" ++ entry.name ++ "` has no parent directory"))
  fileAction output.dropLast (Lib.createDirAll defaults.dirMode output.dropLast)
  let written := entry.content.take remaining
  fileAction output (Lib.writeFile
    (fun there => { mode := (there.map FileData.mode).getD defaults.fileMode, content := written })
    output)
  failIf (entry.readUpTo remaining).isNone (.readEntry output)
  if unixMode = 0 then pure written.length
  else do
    fileAction output
      (Lib.setData id (fun data => { data with mode := unixMode &&& 0o777 }) output)
    pure written.length

/-- `none` when the entry holds more than `remaining` bytes. -/
def extractBoundedFile (entry : ZipEntry) (output : Place) (unixMode remaining : Nat) :
    Extract (Option Nat) := do
  let written ← extractZipFile defaults entry output unixMode remaining
  -- one more byte is read to see whether the entry ends here
  failIf (decide (entry.content.length ≤ remaining) && !entry.complete)
    (.readEntry output)
  pure (if remaining < entry.content.length then none else some written)

/-! ## Entries -/

def escapes (entry : ZipEntry) : ExtractError :=
  .invalidDownloadAndExtract ("ZIP entry `" ++ entry.name ++ "` escapes the destination")

def leavesRoot : Component → Bool
  | .parentDir => true
  | .rootDir => true
  | _ => false

def fileTypeMask : Nat := 0o170000
def regularFile : Nat := 0o100000
def directory : Nat := 0o040000
def symbolicLink : Nat := 0o120000

/-- The target of a link is its content, read up to the limit for metadata. -/
def readTarget (limits : Limits) (entry : ZipEntry) : Extract OsPath :=
  match (entry.readUpTo limits.maxMetadataBytes).filter fun bytes =>
    (Lib.fromUtf8 bytes).isSome with
  | some target => pure target
  | none => throw (.invalidDownloadAndExtract ("reading ZIP symbolic link `" ++ entry.name ++ "`"))

def isSupported (fileType : Nat) : Bool :=
  fileType = 0 || fileType = regularFile || fileType = directory || fileType = symbolicLink

/-- What is left of the bytes that may be written once a file has taken some. -/
def takeFrom (expansion remaining : Nat) : Option Nat → Extract Nat
  | some written => pure (remaining - written)
  | none => throw (.executorResourceLimit "extracted bytes" expansion)

def writeEntry (limits : Limits) (expansion remaining : Nat) (entry : ZipEntry)
    (relative : List Component) (output : Place) (unixMode : Nat) : Extract Nat :=
  if unixMode &&& fileTypeMask = symbolicLink then do
    let target ← readTarget limits entry
    (extractZipSymlink defaults relative target output).mapError fun reason =>
      .invalidDownloadAndExtract ("ZIP entry `" ++ entry.name ++ "` " ++ reason)
    pure remaining
  else if entry.isDir then do
    fileAction output (Lib.createDirAll defaults.dirMode output)
    pure remaining
  else do
    -- an entry that declares more than is left is refused before its file is created
    failIf (decide (remaining < entry.size))
      (.executorResourceLimit "extracted bytes" expansion)
    let written ← extractBoundedFile defaults entry output unixMode remaining
    takeFrom expansion remaining written

/-- One round of the loop; the result is what is left of the bytes that may be written. -/
def extractEntry (limits : Limits) (destination : Place) (expansion remaining : Nat)
    (entry : ZipEntry) : Extract Nat :=
  match entry.enclosedName with
  | none => throw (escapes entry)
  | some path => do
      let relative := components path
      let output := destination ++ namesOf relative
      let unixMode := entry.unixMode.getD 0
      failIf (relative.any leavesRoot) (escapes entry)
      failIf (!isSupported (unixMode &&& fileTypeMask))
        (.invalidDownloadAndExtract
          ("ZIP entry `" ++ entry.name ++ "` has an unsupported file type"))
      let through ← inspect fun d =>
        .ok (traversesExtractedSymlink d destination (namesOf relative))
      failIf through
        (.invalidDownloadAndExtract
          ("ZIP entry `" ++ entry.name ++ "` is written through a symbolic link"))
      writeEntry defaults limits expansion remaining entry relative output unixMode

def extractEntries (limits : Limits) (destination : Place) (expansion : Nat) :
    Nat → List (Except String ZipEntry) → Extract Unit
  | _, [] => pure ()
  | _, .error reason :: _ => throw (.invalidDownloadAndExtract reason)
  | remaining, .ok entry :: rest => do
      let left ← extractEntry defaults limits destination expansion remaining entry
      extractEntries limits destination expansion left rest

/-- `extract_zip_archive` of an archive that is open. -/
def extractZipArchive (limits : Limits) (destination : Place) (expansion : Nat)
    (archive : List (Except String ZipEntry)) : Extract Unit := do
  fileAction destination (Lib.createDirAll defaults.dirMode destination)
  failIf (decide (limits.maxArchiveEntries < archive.length))
    (.executorResourceLimit "archive entries" limits.maxArchiveEntries)
  extractEntries defaults limits destination expansion expansion archive

end OnceBuild.Archive
