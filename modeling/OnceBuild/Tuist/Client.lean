import OnceBuild.Cas.BlobStore
import OnceBuild.Lib.Assoc
import OnceBuild.Lib.Fallible
import OnceBuild.Lib.Utf8
import OnceBuild.Lib.Words

/-!
# The client of the remote cache

The local tier is a `BlobStore`, which files blobs under their BLAKE3 digest; the remote one files
them under SHA-256 and size.  The client keeps a table from the one to the other, which it fills
from its own uploads, from blob mappings and from action results that it reads.  What the remote
answers is an argument of each call: others write to it, so nothing is known of its entries.
-/

namespace OnceBuild.Tuist

open Lib
open Lib.Fallible (change inspect failIf attempt)
open Cas (Bytes Digest BlobStore)

/-! ## Messages -/

lemma isI64_zero : IsI64 0 := isI64_of_le (Nat.zero_le _)

/-- `reapi::Digest`: the hash as lowercase hex and the size. -/
structure RemoteDigest where
  hash : Text
  sizeBytes : Int
  isI64 : IsI64 sizeBytes
  deriving DecidableEq

instance : Inhabited RemoteDigest := ⟨⟨[], 0, isI64_zero⟩⟩

lemma isI64_length {bytes : Bytes} (h : (bytes.length : Int) ≤ i64Max) :
    IsI64 (bytes.length : Int) :=
  isI64_of_le (Int.ofNat_le.mp h)

structure OutputFile where
  path : Text
  digest : Option RemoteDigest
  contents : Bytes
  deriving DecidableEq

/-- `google.protobuf.Any`. -/
structure AnyMessage where
  typeUrl : Text
  value : Bytes
  deriving DecidableEq

/-- The fields of `reapi::ActionResult` that the client reads or writes. -/
structure ReapiActionResult where
  outputFiles : List OutputFile
  exitCode : Int
  stdoutRaw : Bytes
  stdoutDigest : Option RemoteDigest
  stderrRaw : Bytes
  stderrDigest : Option RemoteDigest
  executionMetadata : Option (List AnyMessage)
  deriving DecidableEq

def ReapiActionResult.empty : ReapiActionResult where
  outputFiles := []
  exitCode := 0
  stdoutRaw := []
  stdoutDigest := none
  stderrRaw := []
  stderrDigest := none
  executionMetadata := none

/-- An action result whose outputs are a map. -/
structure NativeResult extends Cas.ActionResult where
  distinct : (outputs.map Prod.fst).Nodup
  deriving DecidableEq

/-- The hash functions, the files of local blobs, and the text form of an action result, which is
read back as written. -/
structure Wire where
  digestOf : Bytes → Digest
  zstd : Cas.Zstd
  blobPath : Digest → String
  sha256Hex : Bytes → Text
  encode : NativeResult → Option Bytes
  decode : Bytes → Option NativeResult
  decode_encode : ∀ result bytes, encode result = some bytes → decode bytes = some result

/-! ## Errors -/

inductive ErrorKind where
  | notFound
  | unavailable
  | refused
  | corrupt
  | protocol
  | misconfigured
  | exhausted
  | io
  | other
  deriving DecidableEq

/-- `once_cas::Error`, for this provider. -/
inductive CacheError where
  /-- `corruptBlob`: `CorruptBlob::is` of the source. -/
  | io (path source : String) (corruptBlob : Bool)
  | corrupt (path source : String)
  | blobNotFound (digest : Digest)
  | invalidConfig (message : String)
  | remote (operation message : String)
  | remoteFailure (operation : String) (kind : ErrorKind) (message : String)
  deriving DecidableEq

def CacheError.kind : CacheError → ErrorKind
  | .io _ _ corruptBlob => if corruptBlob then .corrupt else .io
  | .corrupt _ _ => .corrupt
  | .blobNotFound _ => .notFound
  | .invalidConfig _ => .misconfigured
  | .remote _ _ => .other
  | .remoteFailure _ kind _ => kind

def CacheError.isNotFound (error : CacheError) : Bool := error.kind = .notFound

def remoteActionMetadataError (message : String) : CacheError :=
  .remoteFailure "get action result" .corrupt message

def digestKey (digest : RemoteDigest) : String :=
  String.ofList digest.hash ++ "/" ++ toString digest.sizeBytes

/-! ## Digests -/

def inMemoryBlobLimit : Int := 2097152

def blobMappingOutputPath : Text := "blob".toList

def blobMappingPrefix : Text := "once.blob.v1".toList

def actionMappingPrefix : Text := "once.action.v1".toList

def actionResultMetadataTypeUrl : Text := "type.googleapis.com/once.cache.v1.ActionResult".toList

section digests

variable (w : Wire)

def sha256Digest (bytes : Bytes) : Except CacheError RemoteDigest :=
  if h : (bytes.length : Int) ≤ i64Max then .ok ⟨w.sha256Hex bytes, bytes.length, isI64_length h⟩
  else .error (.remoteFailure "compute digest" .protocol
    ("blob size exceeds REAPI size limit: " ++ toString bytes.length ++ " bytes"))

def mappingDigest (label : Text) (digest : Digest) : Except CacheError RemoteDigest :=
  sha256Digest w (utf8Encode (label ++ '\x00' :: digest.hex))

def blobMappingDigest (digest : Digest) : Except CacheError RemoteDigest :=
  mappingDigest w blobMappingPrefix digest

def actionMappingDigest (digest : Digest) : Except CacheError RemoteDigest :=
  mappingDigest w actionMappingPrefix digest

def isEmptyBlob (digest : Digest) : Bool := digest = w.digestOf []

def validateSha256Digest (digest : RemoteDigest) (bytes : Bytes) (operation : String) :
    Except CacheError Unit := do
  let actual ← sha256Digest w bytes
  if actual = digest then .ok ()
  else .error (.remoteFailure operation .corrupt
    ("remote blob " ++ digestKey actual ++ " did not match expected digest " ++ digestKey digest))

/-- `copy_blob_digests`: both digests of a local blob, in one pass. -/
def copyBlobDigests (bytes : Bytes) : Except CacheError (Digest × RemoteDigest) :=
  if h : (bytes.length : Int) ≤ i64Max then
    .ok (w.digestOf bytes, ⟨w.sha256Hex bytes, bytes.length, isI64_length h⟩)
  else .error (.remoteFailure "copy blob" .io "blob exceeds the remote size range")

end digests

/-! ## State -/

/-- What the remote answers during one operation; an error is what is left after the retries. -/
structure Remote where
  getActionResult : RemoteDigest → Except CacheError (Option ReapiActionResult)
  updateActionResult : RemoteDigest → ReapiActionResult → Except CacheError Unit
  findMissingBlobs : List RemoteDigest → Except CacheError (List RemoteDigest)
  readBlob : RemoteDigest → Except CacheError (Option Bytes)
  writeBlob : RemoteDigest → Bytes → Except CacheError Unit

/-- One action result as it is sent to the remote. -/
structure Publication where
  action : Digest
  result : NativeResult
  entry : ReapiActionResult

/-- The local tier, the table, and every action result that was sent, whatever the answer was. -/
structure Client where
  blobs : BlobStore
  results : Digest → Option NativeResult
  knownRemoteBlobs : Digest → Option RemoteDigest
  published : List Publication

def Client.new (blobs : BlobStore) (results : Digest → Option NativeResult) : Client where
  blobs := blobs
  results := results
  knownRemoteBlobs := fun _ => none
  published := []

abbrev Call (α : Type) := Fallible Client CacheError α

def ask {α : Type} (answer : Except CacheError α) : Call α := inspect fun _ => answer

def remember (digest : Digest) (remoteDigest : RemoteDigest) : Call Unit :=
  change fun c =>
    { c with
      knownRemoteBlobs := Function.update c.knownRemoteBlobs digest (some remoteDigest) }

def known (digest : Digest) : Call (Option RemoteDigest) :=
  inspect fun c => .ok (c.knownRemoteBlobs digest)

variable (w : Wire)

/-! ## The local tier -/

def readError : Cas.ReadError → CacheError
  | .blobNotFound digest => .blobNotFound digest
  | .corrupt error => .io (w.blobPath error.digest) ("blob " ++ String.ofList error.digest.hex ++
      " failed its integrity check: " ++ error.detail) true

/-- Reading verifies; a corrupt blob is removed and missing from then on. -/
def localRead (reader : BlobStore.Reader) (digest : Digest) : Call Bytes := fun c =>
  let read := reader.read w.zstd w.digestOf c.blobs digest
  (read.1.mapError (readError w), { c with blobs := read.2 })

def localHasBlob (digest : Digest) : Call Bool := inspect fun c => .ok (c.blobs digest).isSome

def localPutBlob (bytes : Bytes) : Call Digest := fun c =>
  match BlobStore.putBlob w.zstd w.digestOf c.blobs bytes with
  | .error message => (.error (.io (w.blobPath (w.digestOf bytes)) message false), c)
  | .ok (digest, blobs) => (.ok digest, { c with blobs := blobs })

/-- `Cas::mirror_blob`: nothing is stored unless the bytes have the expected digest. -/
def localMirrorBlob (expected : Digest) (bytes : Bytes) : Call Digest :=
  if w.digestOf bytes ≠ expected then pure (w.digestOf bytes) else localPutBlob w bytes

def localPutActionResult (action : Digest) (result : NativeResult) : Call Unit :=
  change fun c => { c with results := Function.update c.results action (some result) }

/-! ## Blob mappings -/

variable (r : Remote)

def putBlobMapping (digest : Digest) (sha256 : RemoteDigest) : Call Unit := do
  let actionDigest ← ask (blobMappingDigest w digest)
  ask (r.updateActionResult actionDigest
    { ReapiActionResult.empty with
      outputFiles := [{ path := blobMappingOutputPath, digest := some sha256, contents := [] }] })

variable (entry : ReapiActionResult)

def mappedDigest : Option RemoteDigest :=
  (entry.outputFiles.find? fun file => file.path = blobMappingOutputPath).bind OutputFile.digest

def readBlobMapping (digest : Digest) : Option ReapiActionResult → Except CacheError RemoteDigest
  | none => .error (.blobNotFound digest)
  | some entry =>
    match mappedDigest entry with
    | some remoteDigest => .ok remoteDigest
    | none => .error (.remoteFailure "get blob mapping" .corrupt
        ("remote blob mapping for " ++ String.ofList digest.hex ++ " is missing its REAPI digest"))

def getBlobMapping (digest : Digest) : Call RemoteDigest := do
  let actionDigest ← ask (blobMappingDigest w digest)
  let entry ← ask (r.getActionResult actionDigest)
  ask (readBlobMapping digest entry)

/-- Look a digest up in the remote tier and enter it in the table. -/
def learnBlobDigest (digest : Digest) : Call RemoteDigest := do
  let remoteDigest ← getBlobMapping w r digest
  remember digest remoteDigest
  pure remoteDigest

def remoteBlobDigest (digest : Digest) : Call RemoteDigest := do
  match ← known digest with
  | some remoteDigest => pure remoteDigest
  | none => learnBlobDigest w r digest

/-! ## Reading blobs -/

def reapiBlobExists (digest : RemoteDigest) : Call Bool :=
  ask ((r.findMissingBlobs [digest]).map List.isEmpty)

def declaredSize (digest : RemoteDigest) (operation : String) : Except CacheError Nat :=
  if 0 ≤ digest.sizeBytes then .ok digest.sizeBytes.toNat
  else .error (.remoteFailure operation .protocol
    ("remote digest " ++ digestKey digest ++ " has a negative size"))

/-- `blob_read_outcome`: the bytes that came are those of the digest. -/
def blobReadOutcome (digest : RemoteDigest) (operation : String) :
    Option Bytes → Except CacheError (Option Bytes)
  | none => .ok none
  | some bytes => (validateSha256Digest w digest bytes operation).map fun _ => some bytes

def readReapiBlob (digest : RemoteDigest) (operation : String) : Call (Option Bytes) := do
  failIf (inMemoryBlobLimit < digest.sizeBytes)
    (.remoteFailure operation .protocol
      ("remote blob " ++ digestKey digest ++ " is too large to read into memory"))
  let _ ← ask (declaredSize digest operation)
  let bytes ← ask (r.readBlob digest)
  ask (blobReadOutcome w digest operation bytes)

/-- The end of `stage_remote_blob`: the size and the hash of what was received. -/
def stageOutcome (digest : RemoteDigest) (declared : Nat) (operation : String) :
    Option Bytes → Except CacheError Bytes
  | none => .error (.remoteFailure operation .notFound
      ("remote blob " ++ digestKey digest ++ " is missing"))
  | some bytes =>
    if bytes.length ≠ declared ∨ w.sha256Hex bytes ≠ digest.hash then
      .error (.remoteFailure operation .corrupt
        ("remote blob " ++ digestKey digest ++ " failed verification: received " ++
          toString bytes.length ++ " bytes hashing to " ++ String.ofList (w.sha256Hex bytes)))
    else .ok bytes

def stageRemoteBlob (digest : RemoteDigest) (operation : String) : Call Bytes := do
  let declared ← ask (declaredSize digest operation)
  let bytes ← ask (r.readBlob digest)
  ask (stageOutcome w digest declared operation bytes)

/-- Downloaded bytes that are not those of the native digest are refused. -/
def mirrorRequested (digest : Digest) (bytes : Bytes) : Call Unit := do
  let mirrored ← localMirrorBlob w digest bytes
  failIf (mirrored ≠ digest)
    (.remoteFailure "get blob" .corrupt
      ("remote blob " ++ String.ofList digest.hex ++ " did not match requested digest"))

/-- A download into the local tier, streamed or in a batch. -/
def streamRemoteBlob (digest : Digest) (remoteDigest : RemoteDigest) : Call Unit := do
  failIf (remoteDigest.sizeBytes < 0)
    (.remoteFailure "get blob" .protocol "remote blob has invalid declared size")
  let answer ← ask (r.readBlob remoteDigest)
  match ← ask (blobReadOutcome w remoteDigest "get blob" answer) with
  | none => throw (.blobNotFound digest)
  | some bytes => mirrorRequested w digest bytes

def ensureBlobLocal (digest : Digest) : Call Unit := do
  if ← localHasBlob digest then pure ()
  else if isEmptyBlob w digest then do
    let _ ← localMirrorBlob w digest []
  else do
    let remoteDigest ← remoteBlobDigest w r digest
    streamRemoteBlob w r digest remoteDigest

/-- `copy_blob_to_file`: what is written is a verified local blob, fetched again once. -/
def copyBlobToFile (digest : Digest) : Call Bytes := do
  ensureBlobLocal w r digest
  match ← attempt (localRead w .copyBlobToFile digest) with
  | .ok bytes => pure bytes
  | .error error =>
    if error.kind = .corrupt then do
      ensureBlobLocal w r digest
      localRead w .copyBlobToFile digest
    else throw error

/-- `get_blob_remote` and the check of the native digest. -/
def fetchBlob (digest : Digest) (remoteDigest : RemoteDigest) : Call Bytes := do
  match ← readReapiBlob w r remoteDigest "get blob" with
  | none => throw (.blobNotFound digest)
  | some bytes => do
      mirrorRequested w digest bytes
      pure bytes

/-- The rest of `get_blob` once the remote digest is known. -/
def getRemoteBlob (digest : Digest) (remoteDigest : RemoteDigest) : Call Bytes := do
  if inMemoryBlobLimit < remoteDigest.sizeBytes then do
    ensureBlobLocal w r digest
    localRead w .getBlob digest
  else fetchBlob w r digest remoteDigest

def getBlob (digest : Digest) : Call Bytes := do
  match ← attempt (localRead w .getBlob digest) with
  | .ok bytes => pure bytes
  | .error _ =>
    if isEmptyBlob w digest then do
      let _ ← localMirrorBlob w digest []
      pure []
    else do
      let remoteDigest ← remoteBlobDigest w r digest
      getRemoteBlob w r digest remoteDigest

/-- One blob of `prefetch_blobs`. -/
def prefetchBlob (digest : Digest) : Call Unit := ensureBlobLocal w r digest

def prefetchBlobs (digests : List Digest) : Call Unit := digests.forM (prefetchBlob w r)

def headBlobRemote (digest : Digest) : Call Bool := do
  match ← attempt (remoteBlobDigest w r digest) with
  | .ok remoteDigest => reapiBlobExists r remoteDigest
  | .error (.blobNotFound _) => pure false
  | .error error => throw error

def hasBlob (digest : Digest) : Call Bool := do
  if ← localHasBlob digest then pure true
  else if isEmptyBlob w digest then pure true
  else headBlobRemote w r digest

/-! ## Uploads -/

/-- Send a blob unless the remote has it. -/
def sendBlob (remoteDigest : RemoteDigest) (bytes : Bytes) : Call Unit := do
  if ← reapiBlobExists r remoteDigest then pure () else ask (r.writeBlob remoteDigest bytes)

def publishBlob (digest : Digest) (remoteDigest : RemoteDigest) (bytes : Bytes) :
    Call RemoteDigest := do
  sendBlob r remoteDigest bytes
  putBlobMapping w r digest remoteDigest
  remember digest remoteDigest
  pure remoteDigest

def putBlobRemote (digest : Digest) (bytes : Bytes) : Call RemoteDigest := do
  failIf (w.digestOf bytes ≠ digest)
    (.remoteFailure "put blob" .corrupt
      ("blob body did not match digest " ++ String.ofList digest.hex))
  match ← known digest with
  | some remoteDigest => pure remoteDigest
  | none => do
      let sha256 ← ask (sha256Digest w bytes)
      publishBlob w r digest sha256 bytes

/-- The upload of a blob that the table does not have. -/
def uploadUnknown (digest : Digest) (operation : String) : Call RemoteDigest := do
  let bytes ← localRead w .copyBlobToFile digest
  let digests ← ask (copyBlobDigests w bytes)
  failIf (digests.1 ≠ digest)
    (.remoteFailure operation .corrupt
      ("local blob body did not match digest " ++ String.ofList digest.hex))
  publishBlob w r digest digests.2 bytes

def uploadBlob (operation : String) (digest : Digest) : Call RemoteDigest := do
  match ← known digest with
  | some remoteDigest => pure remoteDigest
  | none => uploadUnknown w r digest operation

def uploadLocalBlob (operation : String) : Option Digest → Call (Option RemoteDigest)
  | none => pure none
  | some digest => do
      let remoteDigest ← uploadBlob w r operation digest
      pure (some remoteDigest)

def putBlob (bytes : Bytes) : Call Digest := do
  let digest ← localPutBlob w bytes
  let _ ← attempt (putBlobRemote w r digest bytes)
  pure digest

def publishLocalBlob (digest : Digest) : Call Unit := do
  let _ ← attempt (uploadLocalBlob w r "put blob" (some digest))

/-! ## Action results -/

def encodeActionResultMetadata (result : NativeResult) : Except CacheError AnyMessage :=
  match w.encode result with
  | some value => .ok { typeUrl := actionResultMetadataTypeUrl, value := value }
  | none => .error (.remoteFailure "put action result" .other
      "serializing native action result metadata")

def decodeActionResultMetadata : Except CacheError (Option NativeResult) :=
  match (entry.executionMetadata.bind fun auxiliary =>
      auxiliary.find? fun value => value.typeUrl = actionResultMetadataTypeUrl) with
  | none => .ok none
  | some metadata =>
    match w.decode metadata.value with
    | some result => .ok (some result)
    | none => .error (remoteActionMetadataError "decoding native action result metadata")

def uploadOutput (output : Text × Digest) : Call OutputFile := do
  let remoteDigest ← uploadLocalBlob w r "put action result" (some output.2)
  pure { path := output.1, digest := remoteDigest, contents := [] }

/-- The entry that `put_action_result_remote` sends. -/
def resultEntry (result : NativeResult) (stdout stderr : Option RemoteDigest)
    (outputFiles : List OutputFile) (metadata : AnyMessage) : ReapiActionResult :=
  { ReapiActionResult.empty with
    outputFiles := outputFiles
    exitCode := result.exitCode
    stdoutDigest := stdout
    stderrDigest := stderr
    executionMetadata := some [metadata] }

/-- Send an action result; the request counts, not the answer. -/
def publish (action : Digest) (key : RemoteDigest) (result : NativeResult)
    (entry : ReapiActionResult) : Call Unit := do
  change fun c => { c with published := c.published ++ [⟨action, result, entry⟩] }
  ask (r.updateActionResult key entry)

def putActionResultRemote (action : Digest) (result : NativeResult) : Call Unit := do
  let stdout ← uploadLocalBlob w r "put action result" result.stdout
  let stderr ← uploadLocalBlob w r "put action result" result.stderr
  let outputFiles ← result.outputs.mapM (uploadOutput w r)
  let metadata ← ask (encodeActionResultMetadata w result)
  let key ← ask (actionMappingDigest w action)
  publish r action key result (resultEntry result stdout stderr outputFiles metadata)

def putActionResult (action : Digest) (result : NativeResult) : Call Unit := do
  localPutActionResult action result
  let _ ← attempt (putActionResultRemote w r action result)

def OutputFile.named (file : OutputFile) : Option (Text × RemoteDigest) :=
  file.digest.map fun digest => (file.path, digest)

/-- The files of an entry that have a digest, by path. -/
def remoteOutputs : List (Text × RemoteDigest) :=
  latest (entry.outputFiles.filterMap OutputFile.named)

/-- `remember_optional_remote_blob`. -/
def optionalRemoteBlob (native : Option Digest) (remote : Option RemoteDigest) (stream : String) :
    Except CacheError (List (Digest × RemoteDigest)) :=
  match native, remote with
  | some native, some remote => .ok [(native, remote)]
  | none, none => .ok []
  | _, _ => .error (remoteActionMetadataError
      ("native and remote " ++ stream ++ " digests do not match"))

/-- The pair that an entry gives for one native output. -/
def outputMapping (output : Text × Digest) : Except CacheError (Digest × RemoteDigest) :=
  match (remoteOutputs entry).lookup output.1 with
  | some remoteDigest => .ok (output.2, remoteDigest)
  | none => .error (remoteActionMetadataError
      ("remote action result is missing native output `" ++ String.ofList output.1 ++ "`"))

/-- The pairs of an entry with native metadata, in the order they are entered, if the two fit. -/
def entryMappings (native : NativeResult) : Except CacheError (List (Digest × RemoteDigest)) := do
  if entry.exitCode ≠ native.exitCode then
    .error (remoteActionMetadataError "native and remote exit codes do not match")
  else if (remoteOutputs entry).length ≠ native.outputs.length then
    .error (remoteActionMetadataError "native and remote output sets do not match")
  else do
    let outputs ← native.outputs.mapM (outputMapping entry)
    let stdout ← optionalRemoteBlob native.stdout entry.stdoutDigest "stdout"
    let stderr ← optionalRemoteBlob native.stderr entry.stderrDigest "stderr"
    .ok (outputs ++ stdout ++ stderr)

/-- The first blob that the remote says it does not have. -/
def findMissingReapiBlobs (digests : List RemoteDigest) : Except CacheError (Option RemoteDigest) :=
  if digests.isEmpty then .ok none else (r.findMissingBlobs digests).map List.head?

def missingBlobError (mappings : List (Digest × RemoteDigest)) (missing : RemoteDigest) :
    CacheError :=
  match mappings.find? fun pair => pair.2 = missing with
  | some pair => .blobNotFound pair.1
  | none => .remoteFailure "get action result" .notFound
      ("remote action result points at missing blob " ++ digestKey missing)

/-- `known_remote_blobs.extend`. -/
def extendKnown (mappings : List (Digest × RemoteDigest)) : Call Unit :=
  mappings.forM fun pair => remember pair.1 pair.2

def rememberRemoteActionResultBlobs (native : NativeResult) : Call Unit := do
  let mappings ← ask (entryMappings entry native)
  match ← ask (findMissingReapiBlobs r (mappings.map Prod.snd)) with
  | some missing => throw (missingBlobError (latest mappings) missing)
  | none => extendKnown mappings

/-- Store verified bytes under their own digest and remember the pair. -/
def mirrorVerified (digest : RemoteDigest) (bytes : Bytes) : Call Digest := do
  let _ ← localMirrorBlob w (w.digestOf bytes) bytes
  remember (w.digestOf bytes) digest
  pure (w.digestOf bytes)

def mirrorReapiBlob (operation : String) (digest : RemoteDigest) : Call Digest :=
  if digest.sizeBytes = 0 then do
    ask (validateSha256Digest w digest [] operation)
    mirrorVerified w digest []
  else if inMemoryBlobLimit < digest.sizeBytes then do
    let bytes ← stageRemoteBlob w r digest operation
    mirrorVerified w digest bytes
  else do
    match ← readReapiBlob w r digest operation with
    | some bytes => mirrorVerified w digest bytes
    | none => throw (.remoteFailure operation .notFound
        ("remote action result points at missing blob " ++ digestKey digest))

/-- A blob by its remote digest or, without one, by its contents. -/
def mirrorReapiDigestOrRaw (digest : Option RemoteDigest) (raw : Bytes) (operation : String) :
    Call (Option Digest) :=
  match digest with
  | some digest => do
      let mirrored ← mirrorReapiBlob w r operation digest
      pure (some mirrored)
  | none =>
    if raw.isEmpty then pure none
    else do
      let stored ← localPutBlob w raw
      pure (some stored)

def mirrorOutput (file : OutputFile) : Call (Option (Text × Digest)) := do
  let digest ← mirrorReapiDigestOrRaw w r file.digest file.contents "get action result"
  pure (digest.map fun digest => (file.path, digest))

def foreignResult (stdout stderr : Option Digest)
    (outputs : List (Text × Digest)) : NativeResult where
  exitCode := entry.exitCode
  stdout := stdout
  stderr := stderr
  outputs := latest outputs
  distinct := nodup_latest outputs

def reapiToOnceActionResult : Call NativeResult := do
  match ← ask (decodeActionResultMetadata w entry) with
  | some native => do
      rememberRemoteActionResultBlobs r entry native
      pure native
  | none => do
      let stdout ← mirrorReapiDigestOrRaw w r entry.stdoutDigest entry.stdoutRaw "get action result"
      let stderr ← mirrorReapiDigestOrRaw w r entry.stderrDigest entry.stderrRaw "get action result"
      let outputs ← entry.outputFiles.mapM (mirrorOutput w r)
      pure (foreignResult entry stdout stderr (outputs.filterMap id))

/-- A missing blob makes an entry a miss. -/
def hitOrMiss : Except CacheError NativeResult → Except CacheError (Option NativeResult)
  | .ok result => .ok (some result)
  | .error error => if error.isNotFound then .ok none else .error error

def getActionResultRemote (action : Digest) : Call (Option NativeResult) := do
  let key ← ask (actionMappingDigest w action)
  match ← ask (r.getActionResult key) with
  | none => pure none
  | some entry => do
      let outcome ← attempt (reapiToOnceActionResult w r entry)
      ask (hitOrMiss outcome)

def keepResult (action : Digest) : Option NativeResult → Call Unit
  | none => pure ()
  | some result => localPutActionResult action result

def getActionResult (action : Digest) : Call (Option NativeResult) := do
  match ← inspect fun c : Client => .ok (c.results action) with
  | some result => pure (some result)
  | none => do
      let result ← getActionResultRemote w r action
      keepResult action result
      pure result

def forgetAction (action : Digest) : Call Unit :=
  change fun c => { c with results := Function.update c.results action none }

/-! ## Runs -/

/-- What a client does, and what happens to the local tier without it. -/
inductive Op where
  | getBlob (digest : Digest)
  | copyBlobToFile (digest : Digest)
  | ensureBlobLocal (digest : Digest)
  | prefetchBlobs (digests : List Digest)
  | hasBlob (digest : Digest)
  | putBlob (bytes : Bytes)
  | publishLocalBlob (digest : Digest)
  | mirrorBlob (digest : RemoteDigest)
  | getActionResult (action : Digest)
  | putActionResult (action : Digest) (result : NativeResult)
  | forgetAction (action : Digest)
  | storedLocally (bytes : Bytes)
  | collected (digest : Digest)

def Op.call : Op → Call Unit
  | .getBlob digest => do let _ ← Tuist.getBlob w r digest
  | .copyBlobToFile digest => do let _ ← Tuist.copyBlobToFile w r digest
  | .ensureBlobLocal digest => Tuist.ensureBlobLocal w r digest
  | .prefetchBlobs digests => Tuist.prefetchBlobs w r digests
  | .hasBlob digest => do let _ ← Tuist.hasBlob w r digest
  | .putBlob bytes => do let _ ← Tuist.putBlob w r bytes
  | .publishLocalBlob digest => Tuist.publishLocalBlob w r digest
  | .mirrorBlob digest => do let _ ← mirrorReapiBlob w r "read execution output" digest
  | .getActionResult action => do let _ ← Tuist.getActionResult w r action
  | .putActionResult action result => Tuist.putActionResult w r action result
  | .forgetAction action => Tuist.forgetAction action
  | .storedLocally bytes => do let _ ← localPutBlob w bytes
  | .collected digest => change fun c => { c with blobs := Function.update c.blobs digest none }

/-- An operation with the answers that the remote gives meanwhile. -/
structure Step where
  op : Op
  remote : Remote

/-- The client after the operation, whether it succeeded or failed. -/
def step (c : Client) (s : Step) : Option Client := some ((s.op.call w s.remote).exec c).2

end OnceBuild.Tuist
