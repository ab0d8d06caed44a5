import OnceBuild.Graph.ChangeWindow
import OnceBuild.Lib.Runs

/-!
# Recorded digests of source paths

Model of `SourceDigestCache` and of the builds that open it.  The digests read in one build are
stored, and a later build that the tracker can tell what changed answers from them without looking
at the disk.

Reading a path is one step.  `Entry.readAt` is bookkeeping that the program does not store: the time
at which the entry was last compared with the disk.
-/

namespace OnceBuild.Graph

open Lib
open ChangeTracker

variable {V D F : Type} [DecidableEq F]

/-- The filesystem: `digest_source_path`, and the metadata description of a path (its fingerprint
and, for a directory, that of its tree).  Descriptions change when what they describe does. -/
structure SourceHost (V D F : Type) where
  digestSourcePath : (RelPath → V) → Text → Option D
  describe : (RelPath → V) → Text → Option F
  canReuse : Bool
  describe_sound : canReuse = true → ∀ disk disk' relative f,
    describe disk relative = some f → describe disk' relative = some f →
    digestSourcePath disk relative = digestSourcePath disk' relative

structure Entry (D F : Type) where
  fingerprint : F
  digest : D
  readAt : Nat

/-- `source-digests.json`; a missing or foreign file reads as no entries. -/
structure CacheFile (D F : Type) where
  entries : Text → Option (Entry D F)
  position : Option ChangePosition

/-- The cache opened by one build. -/
structure SourceDigests (D F : Type) where
  entries : Text → Option (Entry D F)
  knownChanges : KnownChanges
  position : Option ChangePosition
  dirty : Bool
  openedAt : Nat

namespace SourceDigests

/-- `SourceDigestCache::open` and `with_known_changes`, at time `now`. -/
def openCache (file : CacheFile D F) (changes : KnownChanges) (now : Nat) : SourceDigests D F :=
  ⟨file.entries, changes, none, false, now⟩

def setPosition (s : SourceDigests D F) (position : Option ChangePosition) : SourceDigests D F :=
  if s.position = position then s else { s with position := position, dirty := true }

/-- `Inner::drop`. -/
def drop (s : SourceDigests D F) (file : CacheFile D F) : CacheFile D F :=
  if s.dirty then ⟨s.entries, s.position⟩ else file

def setEntry (s : SourceDigests D F) (relative : Text) (e : Entry D F) :
    Text → Option (Entry D F) :=
  fun r => if r = relative then some e else s.entries r

/-- The answer given without looking at the disk. -/
def trusted (s : SourceDigests D F) (relative : Text) : Option D :=
  if s.knownChanges.sourceIsUntouched relative then (s.entries relative).map Entry.digest else none

/-- `SourceDigestCache::digest` on the given disk; `none` is an I/O error. -/
def digest (host : SourceHost V D F) (disk : RelPath → V) (now : Nat) (s : SourceDigests D F)
    (relative : Text) : Option D × SourceDigests D F :=
  match s.trusted relative with
  | some d => (some d, s)
  | none =>
    match host.describe disk relative with
    | none => (none, s)
    | some f =>
      match (s.entries relative).filter fun e => host.canReuse && e.fingerprint == f with
      | some e =>
        -- the stored entry is confirmed and stays as it is
        (some e.digest, { s with entries := s.setEntry relative { e with readAt := now } })
      | none =>
        match host.digestSourcePath disk relative with
        | none => (none, s)
        | some d =>
          (some d, { s with
            entries := s.setEntry relative ⟨f, d, now⟩
            dirty := true })

end SourceDigests

/-! ## Builds -/

structure DigestWorld (V D F : Type) where
  history : History (RelPath → V)
  file : CacheFile D F
  session : Option (SourceDigests D F)

inductive DigestOp (V : Type) where
  | watch (op : WatchOp (RelPath → V))
  /-- A build of a target whose receipt has the given position.  `tracked` tells whether the tracker
  answered the snapshot. -/
  | start (receipt : Option ChangePosition) (tracked : Bool)
  | digest (relative : Text)
  /-- The build is done and stamps the position at which the tracker stands. -/
  | stamp
  /-- The build ends without a position: it failed, did uncached work or has no tracker. -/
  | close
  /-- The process dies. -/
  | kill

def DigestWorld.withSession (w : DigestWorld V D F) (s : Option (SourceDigests D F)) :
    DigestWorld V D F :=
  { w with session := s }

/-- The end of a build: the cache is dropped and written back. -/
def DigestWorld.dropSession (w : DigestWorld V D F) (s : SourceDigests D F) : DigestWorld V D F :=
  ⟨w.history, s.drop w.file, none⟩

def digestStep (host : SourceHost V D F) (w : DigestWorld V D F) :
    DigestOp V → Option (DigestWorld V D F)
  | .watch op =>
    match w.history.step op with
    | some h => some ⟨h, w.file, w.session⟩
    | none => none
  | .start receipt tracked =>
    -- a snapshot is answered after a barrier
    if w.session.isNone ∧ (tracked = true → w.history.Settled) then
      let changes := initialChanges w.history receipt w.file.position tracked
      some (w.withSession (some (.openCache w.file changes w.history.now)))
    else none
  | .digest relative =>
    match w.session with
    | some s => some (w.withSession
        (some (s.digest host w.history.disk w.history.now relative).2))
    | none => none
  | .stamp =>
    match w.session with
    | some s => some (w.dropSession (s.setPosition (some w.history.tracker.position)))
    | none => none
  | .close =>
    match w.session with
    | some s => some (w.dropSession s)
    | none => none
  | .kill => some (w.withSession none)

def DigestWorld.initial (base : RelPath → V) (instanceId : Nat) : DigestWorld V D F where
  history := .start base instanceId
  file := ⟨fun _ => none, none⟩
  session := none

end OnceBuild.Graph
