import Mathlib.Data.Set.Function
import OnceBuild.Cas.Stream
import OnceBuild.Lib.Runs

/-!
# Putting blobs into the store and reading them back

A store has at most one file for each digest.  Storing a blob whose file exists leaves that file
alone, whatever it holds; a reader that finds a file corrupt removes it.  In a store that only these
operations have worked on, every file represents the blob it is filed under.
-/

namespace OnceBuild.Cas

open Lib

/-- The contents of the file at the path of each digest. -/
abbrev BlobStore := Digest → Option Bytes

inductive ReadError where
  | blobNotFound (digest : Digest)
  | corrupt (error : CorruptBlob)
  deriving DecidableEq

variable (z : Zstd) (digestOf : Bytes → Digest) (sha256Hex : Bytes → Text)

namespace BlobStore

/-! ## Storing -/

variable (store : BlobStore)

def putBlob (bytes : Bytes) : Except String (Digest × BlobStore) :=
  if (store (digestOf bytes)).isSome then .ok (digestOf bytes, store)
  else do
    let stored ← encodeBytes z bytes
    pure (digestOf bytes, Function.update store (digestOf bytes) (some stored))

/-- Move a prepared file into place unless there is one. -/
def place (prepared : Digest × Bytes) : Digest × BlobStore :=
  if (store prepared.1).isSome then (prepared.1, store)
  else (prepared.1, Function.update store prepared.1 (some prepared.2))

def putStream (pace : Pace) (chunks : List Bytes) : Except String (Digest × BlobStore) :=
  (encodePlain z digestOf sha256Hex pace none none chunks).map (place store)

structure Download where
  size : Nat
  compressed : Bool
  digest : Option Digest
  sha256 : Option Text

/-- `pace` and `again` are how the decoder reads a compressed download the first and second time. -/
def ingestRemoteVerified (download : Download) (pace again : Pace) (chunks : List Bytes) :
    Except String (Digest × Bytes) :=
  if download.compressed then
    encodeCaptured z digestOf sha256Hex pace again (some download.size) download.sha256 chunks
  else encodePlain z digestOf sha256Hex pace (some download.size) download.sha256 chunks

def mirrorRemoteVerified (download : Download) (pace again : Pace)
    (chunks : List Bytes) : Except String (Digest × BlobStore) := do
  let prepared ← ingestRemoteVerified z digestOf sha256Hex download pace again chunks
  if download.digest.any fun digest => decide (digest ≠ prepared.1) then
    .error ("content hashes to " ++ String.ofList prepared.1.hex)
  else pure (place store prepared)

/-! ## Reading -/

/-- Read the file of a digest; a corrupt one is removed. -/
def readWith (reader : Digest → Bytes → Except CorruptBlob Bytes) (store : BlobStore)
    (digest : Digest) : Except ReadError Bytes × BlobStore :=
  match store digest with
  | none => (.error (.blobNotFound digest), store)
  | some stored =>
    match reader digest stored with
    | .ok bytes => (.ok bytes, store)
    | .error corrupt => (.error (.corrupt corrupt), Function.update store digest none)

inductive Reader where
  | getBlob
  | stageBlob (pin : Bool)
  | copyBlobToFile

def getBlob : BlobStore → Digest → Except ReadError Bytes × BlobStore :=
  readWith (readFile z digestOf)

def stageBlob (pin : Bool) : BlobStore → Digest → Except ReadError Bytes × BlobStore :=
  readWith (stageFile z digestOf pin)

def copyBlobToFile : BlobStore → Digest → Except ReadError Bytes × BlobStore :=
  readWith (decodeOpenFile z digestOf)

def Reader.read (digest : Digest) : Reader → Except ReadError Bytes × BlobStore
  | .getBlob => BlobStore.getBlob z digestOf store digest
  | .stageBlob pin => BlobStore.stageBlob z digestOf pin store digest
  | .copyBlobToFile => BlobStore.copyBlobToFile z digestOf store digest

/-! ## Every way to store a byte string -/

inductive Way where
  | putBlob (bytes : Bytes)
  | putStream (pace : Pace) (chunks : List Bytes)
  | mirrorRemote (download : Download) (pace again : Pace) (chunks : List Bytes)

def Way.run : Way → Except String (Digest × BlobStore)
  | .putBlob bytes => BlobStore.putBlob z digestOf store bytes
  | .putStream pace chunks => BlobStore.putStream z digestOf sha256Hex store pace chunks
  | .mirrorRemote download pace again chunks =>
    mirrorRemoteVerified z digestOf sha256Hex store download pace again chunks

structure Download.Describes (download : Download) (bytes : Bytes) : Prop where
  size : download.size = bytes.length
  digest : ∀ digest, download.digest = some digest → digest = digestOf bytes
  sha256 : ∀ sha256, download.sha256 = some sha256 → sha256Hex bytes = sha256

/-- The way stores these bytes; all sizes are a `u64`. -/
def Way.Carries (bytes : Bytes) : Way → Prop
  | .putBlob given => given = bytes ∧ zstdBlobHeaderLen + (z.encodeAll bytes).length < u64Size
  | .putStream _ chunks => chunks.flatten = bytes
  | .mirrorRemote download _ _ chunks =>
    download.Describes digestOf sha256Hex bytes ∧ if download.compressed then
        z.inflate chunks.flatten = (bytes, true) ∧ chunks.flatten.length < u64Size
      else chunks.flatten = bytes

/-- What happens to a store: blobs are stored and read, and the collector removes files. -/
inductive Event where
  | store (way : Way) (bytes : Bytes)
  | read (reader : Reader) (digest : Digest)
  | remove (digest : Digest)

def step : Event → Option BlobStore
  | .store way _ =>
    match way.run z digestOf sha256Hex store with
    | .ok result => some result.2
    | .error _ => some store
  | .read reader digest => some (reader.read z digestOf store digest).2
  | .remove digest => some (Function.update store digest none)

/-- Every byte string that is stored is one of `strings`; storing may fail. -/
def Stores (strings : Set Bytes) (store : BlobStore) : Event → Prop
  | .store way bytes =>
    (bytes ∈ strings ∧ bytes.length < u64Size ∧ way.Carries z digestOf sha256Hex bytes) ∨
      ∃ message, way.run z digestOf sha256Hex store = .error message
  | _ => True

abbrev Reached (strings : Set Bytes) : BlobStore → Prop :=
  Reachable (step z digestOf sha256Hex) (Stores z digestOf sha256Hex strings) fun _ => none

variable {z digestOf sha256Hex} {strings : Set Bytes} {store store' : BlobStore} {bytes : Bytes}

/-! ## What is stored -/

/-- The store has, at the digest of the bytes, the file it had or one that represents them. -/
structure Stored (z : Zstd) (digestOf : Bytes → Digest) (store : BlobStore) (bytes : Bytes)
    (store' : BlobStore) : Prop where
  others : ∀ digest, digest ≠ digestOf bytes → store' digest = store digest
  kept : (store (digestOf bytes)).isSome → store' (digestOf bytes) = store (digestOf bytes)
  filed : store (digestOf bytes) = none →
    ∃ file, store' (digestOf bytes) = some file ∧ Represents z bytes file

lemma stored_of_isSome (h : (store (digestOf bytes)).isSome = true) :
    Stored z digestOf store bytes store where
  others _ _ := rfl
  kept _ := rfl
  filed hnone := by
    rw [hnone] at h
    cases h

variable {file : Bytes}

lemma stored_update (h : (store (digestOf bytes)).isSome = false)
    (hfile : Represents z bytes file) :
    Stored z digestOf store bytes (Function.update store (digestOf bytes) (some file)) where
  others _ hne := Function.update_of_ne hne _ _
  kept hsome := by
    rw [h] at hsome
    cases hsome
  filed _ := ⟨file, Function.update_self _ _ _, hfile⟩

lemma stored_place (hfile : Represents z bytes file) :
    ∃ store', place store (digestOf bytes, file) = (digestOf bytes, store') ∧
      Stored z digestOf store bytes store' := by
  unfold place
  cases hsome : (store (digestOf bytes)).isSome with
  | true => exact ⟨store, by simp, stored_of_isSome hsome⟩
  | false => exact ⟨_, by simp, stored_update hsome hfile⟩

variable {digest : Digest}

lemma stored_putBlob (h : putBlob z digestOf store bytes = .ok (digest, store')) :
    digest = digestOf bytes ∧ Stored z digestOf store bytes store' := by
  unfold putBlob at h
  split at h
  case isTrue hsome =>
    cases h
    exact ⟨rfl, stored_of_isSome hsome⟩
  case isFalse hnone =>
    cases hencode : encodeBytes z bytes with
    | error message =>
      rw [hencode] at h
      cases h
    | ok file =>
      rw [hencode] at h
      cases h
      exact ⟨rfl, stored_update (Bool.eq_false_iff.mpr hnone) (represents_encodeBytes hencode)⟩

variable {chunks : List Bytes}

lemma putStream_ok (pace : Pace) (hlen : chunks.flatten.length < u64Size) :
    ∃ store', putStream z digestOf sha256Hex store pace chunks =
      .ok (digestOf chunks.flatten, store') ∧ Stored z digestOf store chunks.flatten store' := by
  have hfits : Fits none chunks.flatten := ⟨hlen, nofun⟩
  obtain ⟨file, hfile, hrep⟩ : ∃ file, encodePlain z digestOf sha256Hex pace none none chunks =
      .ok (digestOf chunks.flatten, file) ∧ Represents z chunks.flatten file :=
    encodePlain_ok pace hfits nofun
  obtain ⟨store', hplace, hstored⟩ := stored_place hrep
  refine ⟨store', ?_, hstored⟩
  rw [putStream, hfile, Except.map, hplace]

lemma mirrorRemote_ok {download : Download} (pace again : Pace) (hlen : bytes.length < u64Size)
    (h : (Way.mirrorRemote download pace again chunks).Carries z digestOf sha256Hex bytes) :
    ∃ store', mirrorRemoteVerified z digestOf sha256Hex store download pace again chunks =
      .ok (digestOf bytes, store') ∧ Stored z digestOf store bytes store' := by
  obtain ⟨hdownload, hchunks⟩ := h
  have hfits : Fits (some download.size) bytes :=
    ⟨hlen, fun size hsize => (Option.some.inj hsize).symm.trans hdownload.size⟩
  have hdigest : ¬ (download.digest.any fun digest => decide (digest ≠ digestOf bytes)) = true := by
    rw [Option.any_eq_true]
    rintro ⟨digest, hsome, hne⟩
    exact of_decide_eq_true hne (hdownload.digest digest hsome)
  have hprepared : ∃ file, ingestRemoteVerified z digestOf sha256Hex download pace again chunks =
      .ok (digestOf bytes, file) ∧ Represents z bytes file := by
    unfold ingestRemoteVerified
    cases hform : download.compressed with
    | true =>
      rw [hform] at hchunks
      exact encodeCaptured_ok pace again hchunks.1 hchunks.2 hfits hdownload.sha256
    | false =>
      rw [hform] at hchunks
      obtain rfl : chunks.flatten = bytes := hchunks
      exact encodePlain_ok pace hfits hdownload.sha256
  obtain ⟨file, hfile, hrep⟩ := hprepared
  obtain ⟨store', hplace, hstored⟩ := stored_place hrep
  refine ⟨store', ?_, hstored⟩
  rw [mirrorRemoteVerified, hfile]
  simp only [bind, Except.bind, if_neg hdigest, hplace]
  rfl

lemma putBlob_ok (hlen : bytes.length < u64Size)
    (hcompressed : zstdBlobHeaderLen + (z.encodeAll bytes).length < u64Size) :
    ∃ store', putBlob z digestOf store bytes = .ok (digestOf bytes, store') := by
  unfold putBlob
  split
  · exact ⟨store, rfl⟩
  · have hencode : ∃ file, encodeBytes z bytes = .ok file := by
      simp only [encodeBytes, if_neg (Nat.not_le.mpr hcompressed), if_neg (Nat.not_le.mpr hlen)]
      split
      · exact ⟨_, rfl⟩
      · exact ⟨_, rfl⟩
    obtain ⟨file, hfile⟩ := hencode
    rw [hfile]
    exact ⟨_, rfl⟩

lemma run_ok {way : Way} (hlen : bytes.length < u64Size)
    (h : way.Carries z digestOf sha256Hex bytes) :
    ∃ store', way.run z digestOf sha256Hex store = .ok (digestOf bytes, store') ∧
      Stored z digestOf store bytes store' := by
  cases way with
  | putBlob given =>
    obtain ⟨rfl, hcompressed⟩ := h
    obtain ⟨store', hrun⟩ := putBlob_ok hlen hcompressed
    exact ⟨store', hrun, (stored_putBlob hrun).2⟩
  | putStream pace chunks =>
    obtain rfl : chunks.flatten = bytes := h
    exact putStream_ok pace hlen
  | mirrorRemote download pace again chunks => exact mirrorRemote_ok pace again hlen h

/-! ## Stores without damage -/

/-- Every file represents the byte string it is filed under. -/
def Intact (z : Zstd) (digestOf : Bytes → Digest) (strings : Set Bytes) (store : BlobStore) :
    Prop :=
  ∀ digest file, store digest = some file →
    ∃ bytes ∈ strings, digestOf bytes = digest ∧ Represents z bytes file

lemma Intact.stored (h : Intact z digestOf strings store) (hmem : bytes ∈ strings)
    (hstored : Stored z digestOf store bytes store') : Intact z digestOf strings store' := by
  intro digest file hfile
  rcases eq_or_ne digest (digestOf bytes) with rfl | hne
  · cases hold : store (digestOf bytes) with
    | none =>
      obtain ⟨file', hfiled, hrep⟩ := hstored.filed hold
      rw [hfiled] at hfile
      cases hfile
      exact ⟨bytes, hmem, rfl, hrep⟩
    | some _ =>
      rw [hstored.kept (by rw [hold]; rfl)] at hfile
      exact h _ file hfile
  · rw [hstored.others digest hne] at hfile
    exact h digest file hfile

lemma Intact.removed (h : Intact z digestOf strings store) (digest : Digest) :
    Intact z digestOf strings (Function.update store digest none) := by
  intro other file hfile
  rcases eq_or_ne other digest with rfl | hne
  · rw [Function.update_self] at hfile
    cases hfile
  · rw [Function.update_of_ne hne] at hfile
    exact h other file hfile

lemma Intact.readWith (h : Intact z digestOf strings store)
    (reader : Digest → Bytes → Except CorruptBlob Bytes) (digest : Digest) :
    Intact z digestOf strings (readWith reader store digest).2 := by
  unfold BlobStore.readWith
  split
  · exact h
  · split
    · exact h
    · exact h.removed digest

lemma Intact.read (h : Intact z digestOf strings store) (reader : Reader) (digest : Digest) :
    Intact z digestOf strings (reader.read z digestOf store digest).2 := by
  cases reader with
  | getBlob | stageBlob pin | copyBlobToFile => exact h.readWith _ digest

lemma intact_of_reached (h : Reached z digestOf sha256Hex strings store) :
    Intact z digestOf strings store := by
  refine h.invariant (fun _ _ hfile => nomatch hfile) fun s event s' hs hok hstep => ?_
  cases event with
  | store way bytes =>
    rcases hok with ⟨hmem, hlen, hcarries⟩ | ⟨message, hrun⟩
    · obtain ⟨next, hrun, hstored⟩ : ∃ next, way.run z digestOf sha256Hex s =
          .ok (digestOf bytes, next) ∧ Stored z digestOf s bytes next := run_ok hlen hcarries
      simp only [step, hrun] at hstep
      cases hstep
      exact hs.stored hmem hstored
    · simp only [step, hrun] at hstep
      cases hstep
      exact hs
  | read reader digest =>
    cases hstep
    exact hs.read reader digest
  | remove digest =>
    cases hstep
    exact hs.removed digest

/-! ## Reading back -/

variable {out : Bytes}

variable {reader : Digest → Bytes → Except CorruptBlob Bytes}

lemma readWith_of_file (hfile : store digest = some file) (h : reader digest file = .ok out) :
    (readWith reader store digest).1 = .ok out := by
  simp only [readWith, hfile, h]

lemma read_of_represents (reader : Reader) (hfile : store (digestOf bytes) = some file)
    (h : Represents z bytes file) :
    (reader.read z digestOf store (digestOf bytes)).1 = .ok bytes := by
  cases reader with
  | getBlob => exact readWith_of_file hfile (readFile_of_represents h)
  | stageBlob pin => exact readWith_of_file hfile (stageFile_of_represents pin h)
  | copyBlobToFile => exact readWith_of_file hfile (decodeOpenFile_of_represents h)

lemma file_of_readWith (h : (readWith reader store digest).1 = .ok out) :
    ∃ file, store digest = some file ∧ reader digest file = .ok out := by
  unfold readWith at h
  split at h
  case h_1 => cases h
  case h_2 file hfile =>
    refine ⟨file, hfile, ?_⟩
    split at h
    case h_1 hread =>
      cases h
      exact hread
    case h_2 => cases h

lemma digestOf_read (reader : Reader) (h : (reader.read z digestOf store digest).1 = .ok out) :
    digestOf out = digest := by
  cases reader with
  | getBlob =>
    obtain ⟨_, -, hread⟩ := file_of_readWith h
    exact digestOf_readFile hread
  | stageBlob pin =>
    obtain ⟨_, -, hread⟩ := file_of_readWith h
    exact digestOf_stageFile hread
  | copyBlobToFile =>
    obtain ⟨_, -, hread⟩ := file_of_readWith h
    exact digestOf_decodeOpenFile hread

/-- What is stored, in whatever way, is found under its digest and read back by every reader; and
whatever the files of a store hold, no reader returns bytes with another digest. -/
theorem blobs_round_trip (z : Zstd) (digestOf : Bytes → Digest) (sha256Hex : Bytes → Text)
    (strings : Set Bytes) (hcollide : Set.InjOn digestOf strings) (store : BlobStore)
    (hstore : Reached z digestOf sha256Hex strings store) (bytes : Bytes) (hmem : bytes ∈ strings)
    (hlen : bytes.length < u64Size) (way : Way) (hway : way.Carries z digestOf sha256Hex bytes) :
    (∃ store' file, way.run z digestOf sha256Hex store = .ok (digestOf bytes, store') ∧
      store' (digestOf bytes) = some file ∧
      ∀ reader : Reader, (reader.read z digestOf store' (digestOf bytes)).1 = .ok bytes) ∧
    ∀ (damaged : BlobStore) (reader : Reader) (digest : Digest) (out : Bytes),
      (reader.read z digestOf damaged digest).1 = .ok out → digestOf out = digest := by
  refine ⟨?_, fun damaged reader digest out => digestOf_read reader⟩
  have hintact := intact_of_reached hstore
  obtain ⟨store', hrun, hstored⟩ : ∃ store', way.run z digestOf sha256Hex store =
      .ok (digestOf bytes, store') ∧ Stored z digestOf store bytes store' := run_ok hlen hway
  have hfile : ∃ file, store' (digestOf bytes) = some file := by
    cases hold : store (digestOf bytes) with
    | none =>
      obtain ⟨file, hfiled, -⟩ := hstored.filed hold
      exact ⟨file, hfiled⟩
    | some file => exact ⟨file, (hstored.kept (by rw [hold]; rfl)).trans hold⟩
  obtain ⟨file, hfile⟩ := hfile
  -- without collisions the file is that of the bytes themselves
  obtain ⟨other, hother, hdigest, hrep⟩ := hintact.stored hmem hstored _ file hfile
  obtain rfl : other = bytes := hcollide hother hmem hdigest
  exact ⟨store', file, hrun, hfile, fun reader => read_of_represents reader hfile hrep⟩

def storedOnly : Zstd where
  encodeAll raw := raw
  encodeChunks chunks := chunks.flatten
  inflate body := (body, true)
  failure _ := ""
  inflate_encodeAll _ := rfl
  inflate_encodeChunks _ := rfl

def onePiece : Pace where
  reads out := [(out, 0)]
  flatten_reads out := by simp

/-- A digest for one byte string and another for all others. -/
def digestFor (bytes : Bytes) : Digest :=
  if bytes = zstdBlobMagic then .ofDigit 10
  else .ofDigit 11

/-- The marker itself as a blob, in two chunks. -/
theorem blobs_round_trip_marker : ∃ store' file,
      (Way.putStream onePiece [zstdBlobMagic.take 3, zstdBlobMagic.drop 3]).run storedOnly digestFor
        (fun _ => []) (fun _ => none) = .ok (digestFor zstdBlobMagic, store') ∧
      store' (digestFor zstdBlobMagic) = some file ∧
      ∀ reader : Reader, (reader.read storedOnly digestFor store' (digestFor zstdBlobMagic)).1 =
        .ok zstdBlobMagic := by
  have hway : (Way.putStream onePiece [zstdBlobMagic.take 3, zstdBlobMagic.drop 3]).Carries
      storedOnly digestFor (fun _ => []) zstdBlobMagic := by
    show [zstdBlobMagic.take 3, zstdBlobMagic.drop 3].flatten = zstdBlobMagic
    decide
  exact (blobs_round_trip storedOnly digestFor (fun _ => []) {zstdBlobMagic}
    (Set.injOn_singleton _ _) (fun _ => none) .start zstdBlobMagic rfl (by decide) _ hway).1

/-! ## Putting over a file that is there -/

/-- A file at the path of the bytes decodes to them. -/
def Healthy (z : Zstd) (digestOf : Bytes → Digest) (store : BlobStore) (bytes : Bytes) : Prop :=
  ∀ file, store (digestOf bytes) = some file → decodeBytes z file = .ok bytes

lemma getBlob_eq_ok_iff : (getBlob z digestOf store (digestOf bytes)).1 = .ok bytes ↔
      ∃ file, store (digestOf bytes) = some file ∧ decodeBytes z file = .ok bytes := by
  constructor
  · intro h
    obtain ⟨file, hfile, hread⟩ := file_of_readWith h
    refine ⟨file, hfile, ?_⟩
    unfold readFile at hread
    split at hread
    case h_1 => cases hread
    case h_2 hdecode =>
      obtain ⟨rfl, -⟩ := verified_eq_ok.mp hread
      exact hdecode
  · rintro ⟨file, hfile, hdecode⟩
    refine readWith_of_file hfile ?_
    rw [readFile, hdecode]
    exact verified_eq_ok.mpr ⟨rfl, rfl⟩

/-- After storing, the bytes can be read just when a file that was there before decodes to them. -/
lemma Stored.readable_iff (h : Stored z digestOf store bytes store') :
    (getBlob z digestOf store' (digestOf bytes)).1 = .ok bytes ↔
      Healthy z digestOf store bytes := by
  rw [getBlob_eq_ok_iff]
  cases hold : store (digestOf bytes) with
  | none =>
    obtain ⟨file, hfile, hrep⟩ := h.filed hold
    refine iff_of_true ⟨file, hfile, decodeBytes_of_represents hrep⟩ fun file hfile => ?_
    rw [hold] at hfile
    cases hfile
  | some file =>
    rw [h.kept (by rw [hold]; rfl), hold]
    constructor
    · rintro ⟨_, heq, hdecode⟩ file' hfile'
      rw [hold, heq] at hfile'
      cases hfile'
      exact hdecode
    · exact fun hhealthy => ⟨file, rfl, hhealthy file hold⟩

/-- A put makes the bytes readable exactly when no damaged file was in its place. -/
theorem put_readable_iff (z : Zstd) (digestOf : Bytes → Digest) (sha256Hex : Bytes → Text)
    (store : BlobStore) (bytes : Bytes) (hlen : bytes.length < u64Size) :
    ((∀ digest store', putBlob z digestOf store bytes = .ok (digest, store') →
        (getBlob z digestOf store' digest).1 = .ok bytes) ↔ Healthy z digestOf store bytes) ∧
    ∀ (pace : Pace) (chunks : List Bytes), chunks.flatten = bytes →
      ((∀ digest store', putStream z digestOf sha256Hex store pace chunks = .ok (digest, store') →
        (getBlob z digestOf store' digest).1 = .ok bytes) ↔ Healthy z digestOf store bytes) := by
  constructor
  · constructor
    · intro h file hfile
      have hthere : putBlob z digestOf store bytes = .ok (digestOf bytes, store) := by
        rw [putBlob, if_pos (by rw [hfile]; rfl)]
      obtain ⟨file', hfile', hdecode⟩ := getBlob_eq_ok_iff.mp (h _ _ hthere)
      rw [hfile] at hfile'
      cases hfile'
      exact hdecode
    · intro hhealthy digest store' hput
      obtain ⟨rfl, hstored⟩ := stored_putBlob hput
      exact hstored.readable_iff.mpr hhealthy
  · rintro pace chunks rfl
    obtain ⟨store₁, hput, hstored⟩ : ∃ store₁, putStream z digestOf sha256Hex store pace chunks =
        .ok (digestOf chunks.flatten, store₁) ∧ Stored z digestOf store chunks.flatten store₁ :=
      putStream_ok pace hlen
    constructor
    · exact fun h => hstored.readable_iff.mp (h _ _ hput)
    · intro hhealthy digest store' hput'
      rw [hput] at hput'
      cases hput'
      exact hstored.readable_iff.mpr hhealthy

/-- A store with an empty file where the marker belongs. -/
def truncated : BlobStore :=
  fun digest => if digest = digestFor zstdBlobMagic then some [] else none

/-- Both puts report success and leave the truncated file, which cannot be read. -/
theorem put_leaves_truncated_file : putBlob storedOnly digestFor truncated zstdBlobMagic =
        .ok (digestFor zstdBlobMagic, truncated) ∧
      (∃ store', putStream storedOnly digestFor (fun _ => []) truncated onePiece [zstdBlobMagic] =
        .ok (digestFor zstdBlobMagic, store') ∧
        (getBlob storedOnly digestFor store' (digestFor zstdBlobMagic)).1 ≠ .ok zstdBlobMagic) ∧
      (getBlob storedOnly digestFor truncated (digestFor zstdBlobMagic)).1 ≠ .ok zstdBlobMagic := by
  have hfile : truncated (digestFor zstdBlobMagic) = some [] := if_pos rfl
  have hbad : ¬ Healthy storedOnly digestFor truncated zstdBlobMagic := by
    intro h
    have hdecode := h [] hfile
    cases hdecode
  refine ⟨?_, ?_, ?_⟩
  · rw [putBlob, if_pos (by rfl)]
  · obtain ⟨store', hput, hstored⟩ :
      ∃ store', putStream storedOnly digestFor (fun _ => []) truncated
        onePiece [zstdBlobMagic] = .ok (digestFor [zstdBlobMagic].flatten, store') ∧
          Stored storedOnly digestFor truncated [zstdBlobMagic].flatten store' :=
      putStream_ok onePiece (by decide)
    exact ⟨store', hput, fun h => hbad (hstored.readable_iff.mp h)⟩
  · exact fun h => hbad ((stored_of_isSome (rfl)).readable_iff.mp h)

theorem put_readable_marker : Healthy storedOnly digestFor (fun _ => none) zstdBlobMagic ∧
      ∀ digest store', putBlob storedOnly digestFor (fun _ => none) zstdBlobMagic =
        .ok (digest, store') → (getBlob storedOnly digestFor store' digest).1 = .ok zstdBlobMagic :=
  ⟨nofun, (put_readable_iff storedOnly digestFor (fun _ => []) (fun _ => none) zstdBlobMagic
    (by decide)).1.mpr nofun⟩

end BlobStore

end OnceBuild.Cas
