import OnceBuild.Cas.Digest
import OnceBuild.Lib.LittleEndian

/-!
# How the store keeps a blob in a file

A stored file is either the blob itself or a wrapped form: a marker, the size of the blob and a
compressed body.  A blob that begins with the marker is always wrapped, so the marker tells the two
apart.  Every reader compares the digest of what it hands out with the one it was asked for.

Compression is a parameter with what is known of it.  Reading a compressed body yields bytes and
then ends, cleanly or with an error; a frame that needs too large a window is one that ends with an
error.
-/

namespace OnceBuild.Cas

open List

abbrev Bytes := List UInt8

def zstdBlobMagic : Bytes := "once.cas.zstd.v1".toList.map (fun c => UInt8.ofNat c.toNat) ++ [0]

def rawSizeLen : Nat := 8

def zstdBlobHeaderLen : Nat := zstdBlobMagic.length + rawSizeLen

/-- The bounds of a `u64`. -/
def u64Size : Nat := 256 ^ rawSizeLen

structure Zstd where
  encodeAll : Bytes → Bytes
  /-- What the streaming encoder writes for the chunks it is given. -/
  encodeChunks : List Bytes → Bytes
  /-- The bytes that reading a body yields, and whether it ends cleanly after them. -/
  inflate : Bytes → Bytes × Bool
  /-- The text of the decoder's error. -/
  failure : Bytes → String
  inflate_encodeAll : ∀ raw, inflate (encodeAll raw) = (raw, true)
  inflate_encodeChunks : ∀ chunks, inflate (encodeChunks chunks) = (chunks.flatten, true)

variable (z : Zstd) (digestOf : Bytes → Digest)

/-! ## Encoding and decoding -/

def header (rawLen : Nat) : Bytes := zstdBlobMagic ++ Lib.leBytes rawSizeLen rawLen

def encodeBytes (raw : Bytes) : Except String Bytes :=
  let compressed := z.encodeAll raw
  if u64Size ≤ zstdBlobHeaderLen + compressed.length then .error "blob is too large"
  else if zstdBlobMagic.isPrefixOf raw ||
      decide (zstdBlobHeaderLen + compressed.length < raw.length) then
    if u64Size ≤ raw.length then .error "blob is too large"
    else .ok (header raw.length ++ compressed)
  else .ok raw

/-- `take(limit)` on the decoder, read to its end. -/
def inflateUpTo (limit : Nat) (body : Bytes) : Except String Bytes :=
  let read := z.inflate body
  if limit ≤ read.1.length then .ok (read.1.take limit)
  else if read.2 then .ok read.1
  else .error (z.failure body)

def saturatingSucc (n : Nat) : Nat := min (n + 1) (u64Size - 1)

def rawSizeFromHeader (bytes : Bytes) : Option Nat :=
  if zstdBlobMagic.isPrefixOf bytes && decide (zstdBlobHeaderLen ≤ bytes.length) then
    some (Lib.ofLeBytes ((bytes.drop zstdBlobMagic.length).take rawSizeLen))
  else none

def decodeBytes (stored : Bytes) : Except String Bytes :=
  if zstdBlobMagic.isPrefixOf stored then
    match rawSizeFromHeader stored with
    | none => .error "truncated zstd blob header"
    | some rawLen =>
      match inflateUpTo z (saturatingSucc rawLen) (stored.drop zstdBlobHeaderLen) with
      | .error message => .error message
      | .ok decoded =>
        if decoded.length = rawLen then .ok decoded
        else .error "zstd blob decoded size mismatch"
  else .ok stored

/-! ## Reading with verification -/

/-- Stored content did not hash to the digest it is addressed by. -/
structure CorruptBlob where
  digest : Digest
  detail : String
  deriving DecidableEq

/-- `integrity::verify`, for bytes that are handed out when it succeeds. -/
def verified (expected : Digest) (bytes : Bytes) : Except CorruptBlob Bytes :=
  if expected = digestOf bytes then .ok bytes
  else .error ⟨expected, "content hashes to " ++ String.ofList (digestOf bytes).hex⟩

/-- What `get_blob` makes of a stored file. -/
def readFile (expected : Digest) (stored : Bytes) : Except CorruptBlob Bytes :=
  match decodeBytes z stored with
  | .error message => .error ⟨expected, message⟩
  | .ok bytes => verified digestOf expected bytes

/-- `decode_open_file`: a file that is too short for a header is taken as it is. -/
def decodeOpenFile (expected : Digest) (stored : Bytes) : Except CorruptBlob Bytes :=
  match rawSizeFromHeader (stored.take zstdBlobHeaderLen) with
  | none => verified digestOf expected stored
  | some rawSize =>
    match inflateUpTo z (saturatingSucc rawSize) (stored.drop zstdBlobHeaderLen) with
    | .error message => .error ⟨expected, message⟩
    | .ok output =>
      match verified digestOf expected output with
      | .error corrupt => .error corrupt
      | .ok output =>
        if output.length = rawSize then .ok output
        else .error ⟨expected, "zstd blob decoded size mismatch"⟩

/-- What the lease of `stage_blob` reads; `pin` says whether a raw file could be pinned. -/
def stageFile (pin : Bool) (expected : Digest) (stored : Bytes) : Except CorruptBlob Bytes :=
  if stored.take zstdBlobMagic.length ≠ zstdBlobMagic ∧ pin = true then
    verified digestOf expected stored
  else decodeOpenFile z digestOf expected stored

variable {z digestOf}

/-! ## No reader hands out other bytes -/

variable {expected : Digest} {bytes out : Bytes}

lemma verified_eq_ok :
    verified digestOf expected bytes = .ok out ↔ out = bytes ∧ digestOf bytes = expected := by
  unfold verified
  split
  case isTrue h => simp [h, eq_comm]
  case isFalse h => simpa using fun _ => Ne.symm h

lemma digestOf_of_verified (h : verified digestOf expected bytes = .ok out) :
    digestOf out = expected := by
  obtain ⟨rfl, hdigest⟩ := verified_eq_ok.mp h
  exact hdigest

lemma digestOf_readFile {stored : Bytes} (h : readFile z digestOf expected stored = .ok out) :
    digestOf out = expected := by
  unfold readFile at h
  split at h
  case h_1 => cases h
  case h_2 => exact digestOf_of_verified h

lemma digestOf_decodeOpenFile {stored : Bytes}
    (h : decodeOpenFile z digestOf expected stored = .ok out) : digestOf out = expected := by
  unfold decodeOpenFile at h
  split at h
  case h_1 => exact digestOf_of_verified h
  case h_2 =>
    split at h
    case h_1 => cases h
    case h_2 =>
      split at h
      case h_1 => cases h
      case h_2 hverified =>
        split at h
        case isTrue =>
          cases h
          exact digestOf_of_verified hverified
        case isFalse => cases h

lemma digestOf_stageFile {pin : Bool} {stored : Bytes}
    (h : stageFile z digestOf pin expected stored = .ok out) : digestOf out = expected := by
  unfold stageFile at h
  split at h
  case isTrue => exact digestOf_of_verified h
  case isFalse => exact digestOf_decodeOpenFile h

/-! ## Files that represent a blob -/

/-- The file holds the blob, raw or wrapped. -/
inductive Represents (z : Zstd) (raw : Bytes) : Bytes → Prop
  | raw : ¬ zstdBlobMagic <+: raw → Represents z raw raw
  | wrapped (body : Bytes) : raw.length < u64Size → z.inflate body = (raw, true) →
      Represents z raw (header raw.length ++ body)

lemma length_header (rawLen : Nat) : (header rawLen).length = zstdBlobHeaderLen := by
  simp [header, zstdBlobHeaderLen]

lemma rawSizeFromHeader_header {rawLen : Nat} (h : rawLen < u64Size) (body : Bytes) :
    rawSizeFromHeader (header rawLen ++ body) = some rawLen := by
  have hsize : ((header rawLen ++ body).drop zstdBlobMagic.length).take rawSizeLen =
      Lib.leBytes rawSizeLen rawLen := by
    exact take_left' (Lib.length_leBytes _ _)
  have hcond : (zstdBlobMagic.isPrefixOf (header rawLen ++ body) &&
      decide (zstdBlobHeaderLen ≤ (header rawLen ++ body).length)) = true := by
    rfl
  rw [rawSizeFromHeader, if_pos hcond, hsize, Lib.ofLeBytes_leBytes h]

lemma rawSizeFromHeader_of_not_magic (h : ¬ zstdBlobMagic <+: bytes) :
    rawSizeFromHeader bytes = none := by
  simp [rawSizeFromHeader, h]

lemma inflateUpTo_whole {raw body : Bytes} (hraw : raw.length < u64Size)
    (h : z.inflate body = (raw, true)) :
    inflateUpTo z (saturatingSucc raw.length) body = .ok raw := by
  simp only [inflateUpTo, h]
  split
  case isTrue hle =>
    -- the limit is reached only when it could not be raised
    have heq : saturatingSucc raw.length = raw.length := by
      unfold saturatingSucc at hle ⊢
      omega
    rw [heq, take_length]
  case isFalse => exact if_pos trivial

lemma decodeBytes_of_represents {raw stored : Bytes} (h : Represents z raw stored) :
    decodeBytes z stored = .ok raw := by
  cases h with
  | raw hmagic => simp [decodeBytes, hmagic]
  | wrapped body hlen hbody =>
    have hmagic : zstdBlobMagic.isPrefixOf (header raw.length ++ body) = true := by
      rw [ isPrefixOf_iff_prefix]
      exact prefix_append _ _
    have hdrop : (header raw.length ++ body).drop zstdBlobHeaderLen = body :=
      drop_left' (length_header _)
    simp [decodeBytes, hmagic, rawSizeFromHeader_header hlen, hdrop, inflateUpTo_whole hlen hbody]

lemma readFile_of_represents {raw stored : Bytes} (h : Represents z raw stored) :
    readFile z digestOf (digestOf raw) stored = .ok raw := by
  rw [readFile, decodeBytes_of_represents h]
  exact verified_eq_ok.mpr ⟨rfl, rfl⟩

lemma decodeOpenFile_of_represents {raw stored : Bytes} (h : Represents z raw stored) :
    decodeOpenFile z digestOf (digestOf raw) stored = .ok raw := by
  have hok : verified digestOf (digestOf raw) raw = .ok raw := verified_eq_ok.mpr ⟨rfl, rfl⟩
  cases h with
  | raw hmagic =>
    have htake : ¬ zstdBlobMagic <+: raw.take zstdBlobHeaderLen :=
      fun hpre => hmagic (hpre.trans <| take_prefix _ _)
    rw [decodeOpenFile, rawSizeFromHeader_of_not_magic htake]
    exact hok
  | wrapped body hlen hbody =>
    have htake : (header raw.length ++ body).take zstdBlobHeaderLen = header raw.length :=
      take_left' (length_header _)
    have hsize : rawSizeFromHeader (header raw.length) = some raw.length := by
      simpa using rawSizeFromHeader_header hlen []
    have hdrop : (header raw.length ++ body).drop zstdBlobHeaderLen = body :=
      drop_left' (length_header _)
    simp [decodeOpenFile, htake, hsize, hdrop, inflateUpTo_whole hlen hbody, hok]

lemma stageFile_of_represents {raw stored : Bytes} (pin : Bool) (h : Represents z raw stored) :
    stageFile z digestOf pin (digestOf raw) stored = .ok raw := by
  unfold stageFile
  split
  case isFalse => exact decodeOpenFile_of_represents h
  case isTrue hraw =>
    cases h with
    | raw => exact verified_eq_ok.mpr ⟨rfl, rfl⟩
    | wrapped body =>
      -- a wrapped file begins with the marker
      refine absurd ?_ hraw.1
      exact take_left' rfl

lemma represents_encodeBytes {raw stored : Bytes} (h : encodeBytes z raw = .ok stored) :
    Represents z raw stored := by
  simp only [encodeBytes] at h
  split at h
  case isTrue => cases h
  case isFalse =>
    split at h
    case isTrue =>
      split at h
      case isTrue => cases h
      case isFalse hlen =>
        cases h
        exact .wrapped _ (Nat.lt_of_not_le hlen) (z.inflate_encodeAll raw)
    case isFalse hplain =>
      cases h
      refine .raw fun hmagic => hplain ?_
      rw [ isPrefixOf_iff_prefix.mpr hmagic, Bool.true_or]

end OnceBuild.Cas
