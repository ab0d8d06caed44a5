import OnceBuild.Cas.Blob

/-!
# Storing a stream of chunks

The writer hashes a stream, keeps a raw copy and compresses it as chunks arrive, and decides at the
end which of the two files is stored.  A download that is sent compressed is decoded on the way: the
bytes that were received are the compressed form, and once they have proved small the raw copy is
left unfinished.  When the raw form is stored after all, it is completed by decoding once more.

A decoder may return what it yields in pieces of any size, which `Pace` stands for; the second part
of a piece is how many compressed bytes had been received by then.
-/

namespace OnceBuild.Cas

open Lib List Option

structure Pace where
  reads : Bytes → List (Bytes × Nat)
  flatten_reads : ∀ out, ((reads out).map Prod.fst).flatten = out

structure Writer where
  raw : Bytes
  /-- The chunks given to the encoder, when the writer has one. -/
  encoded : Option (List Bytes)
  /-- All that the hasher was given. -/
  hashed : Bytes
  size : Nat
  rawSize : Nat
  deferRaw : Bool
  /-- The first bytes of the stream, at most as many as the marker has. -/
  start : Bytes
  expected : Option Nat
  /-- The SHA-256 that the stream must have, in hex. -/
  sha256 : Option Text

variable (z : Zstd) (digestOf : Bytes → Digest) (sha256Hex : Bytes → Text)

namespace Writer

/-- `Writer::raw`: no encoder, since the compressed form is captured from the wire. -/
def captured (expected : Option Nat) (sha256 : Option Text) : Writer :=
  ⟨[], none, [], 0, 0, false, [], expected, sha256⟩

def new (expected : Option Nat) (sha256 : Option Text) : Writer :=
  { captured expected sha256 with encoded := some [] }

def considerCaptured (received : Nat) (w : Writer) : Writer :=
  if 512 * 1024 ≤ w.size ∧ received < w.size - w.size / 4 then { w with deferRaw := true } else w

def pushed (w : Writer) (bytes : Bytes) : Writer :=
  { w with
    start := w.start ++ bytes.take (zstdBlobMagic.length - w.start.length)
    size := w.size + bytes.length
    hashed := w.hashed ++ bytes
    raw := if w.deferRaw then w.raw else w.raw ++ bytes
    rawSize := if w.deferRaw then w.rawSize else w.size + bytes.length
    encoded := w.encoded.map (· ++ [bytes]) }

def push (w : Writer) (bytes : Bytes) : Except String Writer :=
  if u64Size ≤ w.size + bytes.length then .error "blob is too large"
  else if w.expected.any fun expected => decide (expected < w.size + bytes.length) then
    .error "remote blob exceeds declared size"
  else .ok (w.pushed bytes)

end Writer

/-- Append what the raw copy lacks; `position` counts the bytes that were decoded again. -/
def completeRaw (staged expected : Nat) (clean : Except String Unit) :
    List Bytes → Nat → Bytes → Except String Bytes
  | [], position, raw =>
    match clean with
    | .error message => .error message
    | .ok () =>
      if position = expected then .ok raw
      else .error "captured blob does not match declared size"
  | bytes :: reads, position, raw =>
    if expected < position + bytes.length then .error "captured blob exceeds declared size"
    else completeRaw staged expected clean reads (position + bytes.length)
      (raw ++ bytes.drop (min (staged - position) bytes.length))

def Zstd.ending (body : Bytes) : Except String Unit :=
  if (z.inflate body).2 then .ok () else .error (z.failure body)

namespace Writer

/-- The compressed form: what the encoder wrote or what was captured from the wire. -/
def body (w : Writer) (wire : Option Bytes) : Except String Bytes :=
  match w.encoded, wire with
  | some chunks, _ => .ok (z.encodeChunks chunks)
  | none, some wire => .ok wire
  | none, none => .error "missing captured encoding"

def chosen (pace : Pace) (w : Writer) (body : Bytes) : Except String Bytes :=
  if w.start = zstdBlobMagic ∨ zstdBlobHeaderLen + body.length < w.size then
    .ok (header w.size ++ body)
  else if w.rawSize < w.size then
    completeRaw w.rawSize w.size (z.ending body)
      ((pace.reads (z.inflate body).1).map Prod.fst) 0 w.raw
  else .ok w.raw

def prepare (pace : Pace) (w : Writer) (wire : Option Bytes) : Except String (Digest × Bytes) :=
  if w.expected.any fun expected => decide (w.size ≠ expected) then
    .error "remote blob does not match declared size"
  else if w.sha256.any fun sha256 => decide (sha256Hex w.hashed ≠ sha256) then
    .error "remote blob failed SHA-256 verification"
  else do
    let body ← w.body z wire
    let file ← w.chosen z pace body
    pure (digestOf w.hashed, file)

end Writer

/-! ## The two ways through `encode` -/

def streamChunk : Nat := 256 * 1024

def encodePlain (pace : Pace) (expected : Option Nat) (sha256 : Option Text)
    (chunks : List Bytes) : Except String (Digest × Bytes) := do
  let w ← chunks.foldlM Writer.push (Writer.new expected sha256)
  w.prepare z digestOf sha256Hex pace none

/-- Gather what the decoder yields in a buffer and push the buffer whenever it is full. -/
def feed (total : Nat) (clean : Except String Unit) :
    List (Bytes × Nat) → Bytes → Writer → Except String Writer
  | [], filled, w =>
    match clean with
    | .error message => .error message
    | .ok () => (w.push filled).map (Writer.considerCaptured total)
  | (bytes, received) :: reads, filled, w =>
    if (filled ++ bytes).length = streamChunk * 2 then
      match w.push (filled ++ bytes) with
      | .error message => .error message
      | .ok w => feed total clean reads [] (w.considerCaptured received)
    else feed total clean reads (filled ++ bytes) w

def encodeCaptured (pace again : Pace) (expected : Option Nat) (sha256 : Option Text)
    (chunks : List Bytes) : Except String (Digest × Bytes) :=
  let wire := chunks.flatten
  if u64Size ≤ wire.length then .error "encoded blob is too large"
  else do
    let w ← feed wire.length (z.ending wire) (pace.reads (z.inflate wire).1) []
      (Writer.captured expected sha256)
    w.prepare z digestOf sha256Hex again (some wire)

variable {z digestOf sha256Hex}

/-! ## What the writer has after some bytes -/

structure Wrote (setup : Writer) (bytes : Bytes) (w : Writer) : Prop where
  size : w.size = bytes.length
  hashed : w.hashed = bytes
  start : w.start = bytes.take zstdBlobMagic.length
  raw : w.raw = bytes.take w.rawSize
  rawSize_le : w.rawSize ≤ bytes.length
  /-- The raw copy is whole until it is put off. -/
  whole : w.deferRaw = false → w.rawSize = bytes.length
  encoded : ∀ chunks, w.encoded = some chunks → chunks.flatten = bytes
  encoder : w.encoded.isSome = setup.encoded.isSome
  expected : w.expected = setup.expected
  sha256 : w.sha256 = setup.sha256

lemma wrote_captured (expected : Option Nat) (sha256 : Option Text) :
    Wrote (.captured expected sha256) [] (.captured expected sha256) where
  size := rfl
  hashed := rfl
  start := rfl
  raw := rfl
  rawSize_le := Nat.le_refl 0
  whole _ := rfl
  encoded _ h := nomatch h
  encoder := rfl
  expected := rfl
  sha256 := rfl

lemma wrote_new (expected : Option Nat) (sha256 : Option Text) :
    Wrote (.new expected sha256) [] (.new expected sha256) where
  size := rfl
  hashed := rfl
  start := rfl
  raw := rfl
  rawSize_le := Nat.le_refl 0
  whole _ := rfl
  encoded chunks h := by
    cases h
    rfl
  encoder := rfl
  expected := rfl
  sha256 := rfl

variable {setup w : Writer} {bytes more : Bytes}

lemma Wrote.pushed (h : Wrote setup bytes w) (more : Bytes) :
    Wrote setup (bytes ++ more) (w.pushed more) where
  size := by rw [Writer.pushed, h.size, length_append]
  hashed := by rw [Writer.pushed, h.hashed]
  start := by
    have hroom : zstdBlobMagic.length - (bytes.take zstdBlobMagic.length).length =
        zstdBlobMagic.length - bytes.length := by
      rw [length_take]
      omega
    rw [Writer.pushed, h.start, hroom, take_append]
  raw := by
    cases hdefer : w.deferRaw with
    | true =>
      simp only [Writer.pushed, hdefer, if_true]
      rw [take_append_of_le_length h.rawSize_le]
      exact h.raw
    | false =>
      have hraw : w.raw = bytes := by
        rw [h.raw, h.whole hdefer, take_length]
      simp only [Writer.pushed, hdefer, Bool.false_eq_true, if_false, hraw, h.size]
      rw [← length_append, take_length]
  rawSize_le := by
    rw [Writer.pushed, length_append, h.size]
    split
    · exact h.rawSize_le.trans (Nat.le_add_right _ _)
    · exact Nat.le_refl _
  whole hdefer := by
    have hdefer : w.deferRaw = false := hdefer
    simp [Writer.pushed, hdefer, h.size]
  encoded chunks hchunks := by
    obtain ⟨before, hbefore, rfl⟩ := map_eq_some_iff.mp hchunks
    rw [flatten_append, h.encoded before hbefore]
    simp
  encoder := by rw [← h.encoder, Writer.pushed, isSome_map]
  expected := h.expected
  sha256 := h.sha256

lemma Wrote.considerCaptured (h : Wrote setup bytes w) (received : Nat) :
    Wrote setup bytes (w.considerCaptured received) := by
  unfold Writer.considerCaptured
  split
  · exact ⟨h.size, h.hashed, h.start, h.raw, h.rawSize_le, nofun, h.encoded, h.encoder, h.expected,
      h.sha256⟩
  · exact h

/-- The stream is as long as declared, if it was declared, and its length is a `u64`. -/
def Fits (expected : Option Nat) (bytes : Bytes) : Prop :=
  bytes.length < u64Size ∧ ∀ size, expected = some size → size = bytes.length

lemma Wrote.push {rest : Bytes} (h : Wrote setup bytes w)
    (hfits : Fits setup.expected (bytes ++ more ++ rest)) : w.push more = .ok (w.pushed more) := by
  obtain ⟨hlen, hexpected⟩ := hfits
  simp only [length_append] at hlen hexpected
  have hsmall : ¬ u64Size ≤ w.size + more.length := by
    rw [h.size]
    omega
  have hdeclared : ¬ (w.expected.any fun expected =>
      decide (expected < w.size + more.length)) = true := by
    rw [Option.any_eq_true, h.expected, h.size]
    rintro ⟨size, hsize, hlt⟩
    have heq := hexpected size hsize
    have hlt := of_decide_eq_true hlt
    omega
  rw [Writer.push, if_neg hsmall, if_neg hdeclared]

variable {chunks : List Bytes}

lemma Wrote.foldlM (h : Wrote setup bytes w)
    (hfits : Fits setup.expected (bytes ++ chunks.flatten)) :
    ∃ w', chunks.foldlM Writer.push w = .ok w' ∧ Wrote setup (bytes ++ chunks.flatten) w' := by
  induction chunks generalizing bytes w with
  | nil => exact ⟨w, rfl, by simpa using h⟩
  | cons chunk chunks ih =>
    rw [flatten_cons, ← append_assoc] at hfits ⊢
    obtain ⟨w', hrun, hwrote⟩ := ih (h.pushed chunk) hfits
    refine ⟨w', ?_, hwrote⟩
    rw [foldlM_cons, h.push hfits]
    exact hrun

lemma Wrote.feed (reads : List (Bytes × Nat)) {filled : Bytes} (h : Wrote setup bytes w)
    (total : Nat)
    (hfits : Fits setup.expected (bytes ++ filled ++ (reads.map Prod.fst).flatten)) :
    ∃ w', feed total (.ok ()) reads filled w = .ok w' ∧
      Wrote setup (bytes ++ filled ++ (reads.map Prod.fst).flatten) w' := by
  induction reads generalizing bytes filled w with
  | nil =>
    refine ⟨(w.pushed filled).considerCaptured total, ?_, ?_⟩
    · rw [feed, h.push hfits]
      rfl
    · simpa using (h.pushed filled).considerCaptured total
  | cons read reads ih =>
    obtain ⟨piece, received⟩ := read
    have hsplit : bytes ++ filled ++ (((piece, received) :: reads).map Prod.fst).flatten =
        bytes ++ (filled ++ piece) ++ (reads.map Prod.fst).flatten := by simp
    rw [hsplit] at hfits ⊢
    rw [feed]
    split
    case isTrue =>
      -- the buffer is full
      rw [h.push hfits]
      rw [← append_nil (bytes ++ (filled ++ piece))] at hfits ⊢
      exact ih ((h.pushed (filled ++ piece)).considerCaptured received) hfits
    case isFalse => exact ih h hfits

/-! ## The raw copy completed later -/

lemma take_catch_up (staged : Nat) (before piece rest : Bytes) :
    (before ++ (piece ++ rest)).take (max staged before.length) ++
        piece.drop (min (staged - before.length) piece.length) =
      (before ++ (piece ++ rest)).take (max staged (before ++ piece).length) := by
  rw [length_append]
  rcases Nat.le_total staged before.length with hle | hge
  · -- the copy ends before this piece
    rw [max_eq_right hle, max_eq_right (hle.trans (Nat.le_add_right _ _)),
      Nat.sub_eq_zero_of_le hle, Nat.zero_min, drop_zero, take_left,
      ← append_assoc, ← length_append, take_left]
  · rw [max_eq_left hge]
    rcases Nat.le_total staged (before.length + piece.length) with hin | hout
    · -- the copy ends inside this piece
      have hpiece : staged - before.length ≤ piece.length := by omega
      rw [max_eq_right hin, min_eq_left hpiece, take_append, take_of_length_le hge,
        take_append_of_le_length hpiece, append_assoc, take_append_drop,
        ← append_assoc before, ← length_append, take_left]
    · have hpiece : piece.length ≤ staged - before.length := by omega
      rw [max_eq_left hout, min_eq_right hpiece, drop_length, append_nil]

lemma completeRaw_eq {staged : Nat} (reads : List Bytes) (before : Bytes)
    (h : staged ≤ (before ++ reads.flatten).length) :
    completeRaw staged (before ++ reads.flatten).length (.ok ()) reads before.length
        ((before ++ reads.flatten).take (max staged before.length)) =
      .ok (before ++ reads.flatten) := by
  induction reads generalizing before with
  | nil =>
    simp only [flatten_nil, append_nil] at h ⊢
    rw [max_eq_right h, take_length]
    exact if_pos rfl
  | cons piece reads ih =>
    have hinside : ¬ (before ++ (piece :: reads).flatten).length <
        before.length + piece.length := by
      simp only [flatten_cons, length_append]
      omega
    rw [completeRaw, if_neg hinside, flatten_cons, take_catch_up, ← length_append, ← append_assoc]
    rw [flatten_cons, ← append_assoc] at h
    exact ih (before ++ piece) h

/-! ## The stored file -/

lemma start_eq_magic_iff (h : Wrote setup bytes w) :
    w.start = zstdBlobMagic ↔ zstdBlobMagic <+: bytes := by
  rw [h.start, prefix_iff_eq_take, eq_comm]

lemma Wrote.chosen {body : Bytes} (h : Wrote setup bytes w) (pace : Pace)
    (hlen : bytes.length < u64Size) (hbody : z.inflate body = (bytes, true)) :
    ∃ file, w.chosen z pace body = .ok file ∧ Represents z bytes file := by
  unfold Writer.chosen
  split
  case isTrue =>
    rw [h.size]
    exact ⟨_, rfl, .wrapped body hlen hbody⟩
  case isFalse hraw =>
    have hmagic : ¬ zstdBlobMagic <+: bytes :=
      fun hpre => hraw (Or.inl ((start_eq_magic_iff h).mpr hpre))
    refine ⟨bytes, ?_, .raw hmagic⟩
    split
    case isTrue =>
      -- the copy was put off and is completed from the compressed form
      have hending : z.ending body = .ok () := by
        rw [Zstd.ending, hbody]
        rfl
      have hreads : ((pace.reads bytes).map Prod.fst).flatten = bytes := pace.flatten_reads bytes
      have hcomplete : completeRaw w.rawSize _ (.ok ()) _ 0 _ = .ok _ :=
        completeRaw_eq ((pace.reads bytes).map Prod.fst) []
          (by rw [hreads]; exact h.rawSize_le)
      simp only [nil_append, hreads, length_nil, Nat.max_zero] at hcomplete
      rw [hending, hbody, h.size, h.raw]
      exact hcomplete
    case isFalse hdone =>
      have hwhole : w.rawSize = bytes.length :=
        Nat.le_antisymm h.rawSize_le (h.size ▸ Nat.le_of_not_lt hdone)
      rw [h.raw, hwhole, take_length]

lemma Wrote.prepare {body : Bytes} {wire : Option Bytes} (h : Wrote setup bytes w) (pace : Pace)
    (hfits : Fits setup.expected bytes)
    (hsha : ∀ sha256, setup.sha256 = some sha256 → sha256Hex bytes = sha256)
    (hform : w.body z wire = .ok body) (hbody : z.inflate body = (bytes, true)) :
    ∃ file, w.prepare z digestOf sha256Hex pace wire = .ok (digestOf bytes, file) ∧
      Represents z bytes file := by
  obtain ⟨file, hchosen, hrep⟩ := h.chosen pace hfits.1 hbody
  have hsize : ¬ (w.expected.any fun expected => decide (w.size ≠ expected)) = true := by
    rw [Option.any_eq_true, h.expected, h.size]
    rintro ⟨size, hsome, hne⟩
    exact of_decide_eq_true hne (hfits.2 size hsome).symm
  have hsum : ¬ (w.sha256.any fun sha256 => decide (sha256Hex w.hashed ≠ sha256)) = true := by
    rw [Option.any_eq_true, h.sha256, h.hashed]
    rintro ⟨sha256, hsome, hne⟩
    exact of_decide_eq_true hne (hsha sha256 hsome)
  refine ⟨file, ?_, hrep⟩
  rw [Writer.prepare, if_neg hsize, if_neg hsum, hform, h.hashed]
  simp only [bind, Except.bind, hchosen]
  rfl

variable {expected : Option Nat} {sha256 : Option Text}

lemma encodePlain_ok (pace : Pace) (hfits : Fits expected chunks.flatten)
    (hsha : ∀ sha, sha256 = some sha → sha256Hex chunks.flatten = sha) :
    ∃ file, encodePlain z digestOf sha256Hex pace expected sha256 chunks =
      .ok (digestOf chunks.flatten, file) ∧ Represents z chunks.flatten file := by
  obtain ⟨w, hrun, hwrote⟩ := (wrote_new expected sha256).foldlM hfits
  rw [nil_append] at hwrote
  obtain ⟨given, hgiven⟩ := isSome_iff_exists.mp (hwrote.encoder.trans rfl)
  have hform : w.body z none = .ok (z.encodeChunks given) := by
    simp only [Writer.body, hgiven]
  have hbody : z.inflate (z.encodeChunks given) = (chunks.flatten, true) := by
    rw [z.inflate_encodeChunks, hwrote.encoded given hgiven]
  obtain ⟨file, hfile, hrep⟩ := hwrote.prepare pace hfits hsha hform hbody
  refine ⟨file, ?_, hrep⟩
  rw [encodePlain, hrun]
  exact hfile

lemma encodeCaptured_ok (pace again : Pace) (hinflate : z.inflate chunks.flatten = (bytes, true))
    (hwire : chunks.flatten.length < u64Size) (hfits : Fits expected bytes)
    (hsha : ∀ sha, sha256 = some sha → sha256Hex bytes = sha) :
    ∃ file, encodeCaptured z digestOf sha256Hex pace again expected sha256 chunks =
      .ok (digestOf bytes, file) ∧ Represents z bytes file := by
  have hreads : ((pace.reads bytes).map Prod.fst).flatten = bytes := pace.flatten_reads bytes
  have hall : Fits expected ([] ++ [] ++ ((pace.reads bytes).map Prod.fst).flatten) := by
    rw [hreads]
    exact hfits
  obtain ⟨w, hrun, hwrote⟩ :=
    (wrote_captured expected sha256).feed (pace.reads bytes) chunks.flatten.length hall
  rw [hreads] at hwrote
  have hnone : w.encoded = none := isNone_iff_eq_none.mp (isSome_eq_false_iff.mp hwrote.encoder)
  have hform : w.body z (some chunks.flatten) = .ok chunks.flatten := by
    simp only [Writer.body, hnone]
  obtain ⟨file, hfile, hrep⟩ := hwrote.prepare again hfits hsha hform hinflate
  refine ⟨file, ?_, hrep⟩
  have hending : z.ending chunks.flatten = .ok () := by
    rw [Zstd.ending, hinflate]
    rfl
  simp only [encodeCaptured, if_neg (Nat.not_le.mpr hwire), hending, hinflate]
  rw [hrun]
  exact hfile

end OnceBuild.Cas
