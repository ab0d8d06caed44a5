import OnceBuild.Lib.Runs
import OnceBuild.Tuist.Client

/-!
# Published action results name the right blobs

A pair of the table is right if both digests are those of one byte string.  The client's own
uploads and its verified downloads enter right pairs.  Pairs from blob mappings and from the
metadata of action results are entered as they come, and a pair that is in the table lets a later
upload be skipped.  So a publication is right as long as the entries that were read gave right
pairs, and a wrong one spreads.
-/

namespace OnceBuild.Tuist

open Lib
open Lib.Fallible
open Cas (Bytes Digest BlobStore)

variable (w : Wire)

/-- Both digests are those of the same bytes. -/
def Right (digest : Digest) (remoteDigest : RemoteDigest) : Prop :=
  ∃ bytes, w.digestOf bytes = digest ∧ sha256Digest w bytes = .ok remoteDigest

/-- The entry names, for each output and stream of the result, the remote digest of its bytes. -/
structure Publication.NamesRight (p : Publication) : Prop where
  outputs : List.Forall₂
    (fun output file => file.path = output.1 ∧ ∃ rd, file.digest = some rd ∧ Right w output.2 rd)
    p.result.outputs p.entry.outputFiles
  stdout : Option.Rel (Right w) p.result.stdout p.entry.stdoutDigest
  stderr : Option.Rel (Right w) p.result.stderr p.entry.stderrDigest
  exitCode : p.entry.exitCode = p.result.exitCode
  metadata : ∃ metadata, encodeActionResultMetadata w p.result = .ok metadata ∧
    p.entry.executionMetadata = some [metadata]

/-- The table and everything that was sent are right. -/
structure Sound (c : Client) : Prop where
  known : ∀ digest rd, c.knownRemoteBlobs digest = some rd → Right w digest rd
  published : ∀ p ∈ c.published, p.NamesRight w

/-! ## Rules for calls that keep the table right -/

/-- The call keeps the client sound, and what it returns meets `R`. -/
def Yields {α : Type} (m : Call α) (R : α → Prop) : Prop :=
  Ensures (Sound w) m (fun a c => Sound w c ∧ R a) (Sound w)

/-- The call keeps the client sound. -/
def Keeps {α : Type} (m : Call α) : Prop := Yields w m fun _ => True

variable {rd : RemoteDigest}

section rules

variable {w} {α β γ : Type} {R : α → Prop} {S : β → Prop}

variable {m : Call α}

lemma yields_pure {a : α} (h : R a) : Yields w (pure a) R := ensures_pure fun _ hc => ⟨hc, h⟩

lemma keeps_pure {a : α} : Keeps w (pure a) := yields_pure trivial

lemma yields_throw (e : CacheError) : Yields w (throw e : Call α) R := ensures_throw fun _ hc => hc

lemma yields_bind {f : α → Call β} (hm : Yields w m R) (hf : ∀ a, R a → Yields w (f a) S) :
    Yields w (m >>= f) S :=
  ensures_bind hm fun a => ensures_of_fact (hf a)

lemma Yields.done (h : Yields w m R) {f : α → β} : Keeps w (m >>= fun a => pure (f a)) :=
  yields_bind h fun _ _ => keeps_pure

lemma yields_inspect {f : Client → Except CacheError α}
    (h : ∀ c a, Sound w c → f c = .ok a → R a) : Yields w (inspect f) R :=
  ensures_inspect (fun c a hc heq => ⟨hc, h c a hc heq⟩) fun _ _ hc _ => hc

lemma yields_ask {answer : Except CacheError α} (h : ∀ a, answer = .ok a → R a) :
    Yields w (ask answer) R :=
  yields_inspect fun _ a _ heq => h a heq

lemma keeps_ask {answer : Except CacheError α} : Keeps w (ask answer) :=
  yields_ask fun _ _ => trivial

lemma yields_failIf {b : Bool} {e : CacheError} {m : Unit → Call α}
    (h : b = false → Yields w (m ()) R) : Yields w (failIf b e >>= m) R :=
  ensures_failIf (fun _ hc => hc) h

lemma keeps_check (b : Bool) (e : CacheError) : Keeps w (failIf b e) := by
  cases b with
  | true => exact yields_throw e
  | false => exact keeps_pure

lemma yields_ite {c : Prop} [Decidable c] {m' : Call α} (h : c → Yields w m R)
    (h' : ¬c → Yields w m' R) : Yields w (if c then m else m') R :=
  ensures_ite h h'

lemma yields_attempt (h : Yields w m R) :
    Yields w (attempt m : Call (Except CacheError α)) fun result => ∀ a, result = .ok a → R a :=
  h.attempt (fun _ _ hc => ⟨hc.1, fun _ heq => Except.ok.inj heq ▸ hc.2⟩) fun _ _ hc => ⟨hc, nofun⟩

lemma yields_mapM {l : List γ} {f : γ → Call β} {T : γ → β → Prop}
    (h : ∀ x ∈ l, Yields w (f x) (T x)) : Yields w (l.mapM f) (List.Forall₂ T l) :=
  ensures_mapM h

lemma keeps_forM {l : List γ} {f : γ → Call Unit}
    (h : ∀ x ∈ l, Keeps w (f x)) : Keeps w (l.forM f) := by
  refine (ensures_forM fun x hx => ?_).mono (fun _ hc => hc) (fun _ _ hc => ⟨hc, trivial⟩)
    fun _ hc => hc
  exact Ensures.mono (h x hx) (fun _ hc => hc) (fun _ _ hc => hc.1) fun _ hc => hc

lemma keeps_change_local {f : Client → Client}
    (hknown : ∀ c, (f c).knownRemoteBlobs = c.knownRemoteBlobs)
    (hpublished : ∀ c, (f c).published = c.published) : Keeps w (change f) :=
  ensures_change fun c hc =>
    ⟨⟨hknown c ▸ hc.known, hpublished c ▸ hc.published⟩, trivial⟩

lemma keeps_remember {digest : Digest} (h : Right w digest rd) : Keeps w (remember digest rd) := by
  refine ensures_change fun c hc => ⟨⟨fun other rd' heq => ?_, hc.published⟩, trivial⟩
  by_cases hother : other = digest
  case pos =>
    subst hother
    dsimp only at heq
    rw [Function.update_self] at heq
    exact Option.some.inj heq ▸ h
  case neg =>
    dsimp only at heq
    rw [Function.update_of_ne hother] at heq
    exact hc.known other rd' heq

lemma yields_known (digest : Digest) :
    Yields w (known digest) fun found => ∀ rd, found = some rd → Right w digest rd :=
  yields_inspect fun _ _ hc heq rd hrd => hc.known digest rd ((Except.ok.inj heq).trans hrd)

/-- The table answers first, and a call that misses it is made. -/
lemma yields_knownOr {digest : Digest} {m : Call RemoteDigest} (h : Yields w m (Right w digest)) :
    Yields w (do match ← known digest with | some rd => pure rd | none => m) (Right w digest) := by
  refine yields_bind (yields_known digest) fun found hfound => ?_
  cases found with
  | some rd => exact yields_pure (hfound rd rfl)
  | none => exact h

end rules

/-! ## The local tier -/

lemma keeps_localRead (reader : BlobStore.Reader) (digest : Digest) :
    Keeps w (localRead w reader digest) := by
  intro c hc
  have hsound : Sound w { c with blobs := (reader.read w.zstd w.digestOf c.blobs digest).2 } :=
    ⟨hc.known, hc.published⟩
  refine ⟨fun _ _ heq => ?_, fun _ _ heq => ?_⟩
  · obtain rfl := (Prod.ext_iff.mp heq).2
    exact ⟨hsound, trivial⟩
  · obtain rfl := (Prod.ext_iff.mp heq).2
    exact hsound

lemma keeps_localHasBlob (digest : Digest) : Keeps w (localHasBlob digest) :=
  yields_inspect fun _ _ _ _ => trivial

lemma yields_localPutBlob (bytes : Bytes) :
    Yields w (localPutBlob w bytes) fun digest => digest = w.digestOf bytes := by
  intro c hc
  unfold exec localPutBlob
  cases hput : BlobStore.putBlob w.zstd w.digestOf c.blobs bytes with
  | error message => exact ⟨nofun, fun _ _ heq => (by cases heq; exact hc)⟩
  | ok stored =>
    refine ⟨fun _ _ heq => ?_, nofun⟩
    cases heq
    exact ⟨⟨hc.known, hc.published⟩, (BlobStore.stored_putBlob hput).1⟩

lemma yields_localMirrorBlob (expected : Digest) (bytes : Bytes) :
    Yields w (localMirrorBlob w expected bytes) fun digest => digest = w.digestOf bytes :=
  yields_ite (fun _ => yields_pure rfl) fun _ => yields_localPutBlob w bytes

lemma keeps_localPutActionResult (action : Digest) (result : NativeResult) :
    Keeps w (localPutActionResult action result) :=
  keeps_change_local (fun _ => rfl) fun _ => rfl

/-! ## Verified bytes -/

variable {digest : RemoteDigest} {bytes : Bytes} {operation : String}

/-- A download that passes its check is the blob its remote digest names. -/
lemma right_of_validate (h : validateSha256Digest w digest bytes operation = .ok ()) :
    Right w (w.digestOf bytes) digest := by
  obtain ⟨actual, hactual, hsame⟩ := bind_eq_ok.mp h
  split at hsame
  case isTrue heq => exact ⟨bytes, rfl, heq ▸ hactual⟩
  case isFalse => cases hsame

variable {answer : Option Bytes}

lemma right_of_blobReadOutcome (h : blobReadOutcome w digest operation answer = .ok (some bytes)) :
    Right w (w.digestOf bytes) digest := by
  cases answer with
  | none => cases h
  | some sent =>
    simp only [blobReadOutcome] at h
    cases hvalid : validateSha256Digest w digest sent operation with
    | error e =>
      rw [hvalid] at h
      cases h
    | ok u =>
      rw [hvalid] at h
      cases h
      exact right_of_validate w hvalid

lemma sha256Digest_eq (hhash : w.sha256Hex bytes = rd.hash)
    (hsize : (bytes.length : Int) = rd.sizeBytes) : sha256Digest w bytes = .ok rd := by
  have hmax : (bytes.length : Int) ≤ i64Max := hsize ▸ rd.isI64.2
  rw [sha256Digest, dif_pos hmax]
  cases rd
  cases hhash
  cases hsize
  rfl

lemma right_of_stageOutcome {declared : Nat}
    (hdeclared : declaredSize digest operation = .ok declared)
    (h : stageOutcome w digest declared operation answer = .ok bytes) :
    Right w (w.digestOf bytes) digest := by
  cases answer with
  | none => cases h
  | some sent =>
    simp only [stageOutcome] at h
    split at h
    case isTrue => cases h
    case isFalse hfits =>
      cases h
      rw [not_or, not_not, not_not] at hfits
      unfold declaredSize at hdeclared
      split at hdeclared
      case isFalse => cases hdeclared
      case isTrue hsize =>
        have hlength : (bytes.length : Int) = digest.sizeBytes := by
          have := Except.ok.inj hdeclared
          omega
        exact ⟨bytes, rfl, sha256Digest_eq w hfits.2 hlength⟩

/-! ## Reading blobs -/

variable (r : Remote)

/-- The blob mapping that the remote answers for a digest, if it does, is right. -/
def MappingRight (digest : Digest) : Prop :=
  ∀ key entry rd, blobMappingDigest w digest = .ok key →
    r.getActionResult key = .ok (some entry) → mappedDigest entry = some rd → Right w digest rd

section reading

variable {w r} {digest : Digest} (h : MappingRight w r digest)
include h

lemma right_of_readBlobMapping {key : RemoteDigest} {answer : Option ReapiActionResult}
    (hkey : blobMappingDigest w digest = .ok key) (hanswer : r.getActionResult key = .ok answer)
    (hread : readBlobMapping digest answer = .ok rd) : Right w digest rd := by
  cases answer with
  | none => cases hread
  | some entry =>
    simp only [readBlobMapping] at hread
    cases hmapped : mappedDigest entry with
    | none =>
      rw [hmapped] at hread
      cases hread
    | some mapped =>
      rw [hmapped] at hread
      cases hread
      exact h key entry rd hkey hanswer hmapped

lemma yields_getBlobMapping : Yields w (getBlobMapping w r digest) (Right w digest) := by
  refine yields_bind (yields_ask fun key hkey => hkey) fun key hkey => ?_
  refine yields_bind (yields_ask fun answer hanswer => hanswer) fun answer hanswer => ?_
  exact yields_ask fun rd hread => right_of_readBlobMapping h hkey hanswer hread

lemma yields_remoteBlobDigest : Yields w (remoteBlobDigest w r digest) (Right w digest) := by
  refine yields_knownOr ?_
  refine yields_bind (yields_getBlobMapping h) fun rd hright => ?_
  exact yields_bind (keeps_remember hright) fun _ _ => yields_pure hright

omit h in
lemma keeps_mirrorRequested (bytes : Bytes) : Keeps w (mirrorRequested w digest bytes) :=
  yields_bind (yields_localMirrorBlob w digest bytes) fun _ _ => keeps_check _ _

omit h in
lemma yields_readReapiBlob (rd : RemoteDigest) (operation : String) :
    Yields w (readReapiBlob w r rd operation) fun found =>
      ∀ bytes, found = some bytes → Right w (w.digestOf bytes) rd := by
  refine yields_failIf fun _ => ?_
  refine yields_bind keeps_ask fun _ _ => ?_
  refine yields_bind keeps_ask fun answer _ => ?_
  refine yields_ask fun found hfound bytes hbytes => ?_
  exact right_of_blobReadOutcome w (hbytes ▸ hfound)

omit h in
lemma keeps_streamRemoteBlob (rd : RemoteDigest) : Keeps w (streamRemoteBlob w r digest rd) := by
  refine yields_failIf fun _ => ?_
  refine yields_bind keeps_ask fun answer _ => ?_
  refine yields_bind keeps_ask fun found _ => ?_
  cases found with
  | none => exact yields_throw _
  | some bytes => exact keeps_mirrorRequested bytes

lemma keeps_ensureBlobLocal : Keeps w (ensureBlobLocal w r digest) := by
  refine yields_bind (keeps_localHasBlob w digest) fun has _ => ?_
  refine yields_ite (fun _ => keeps_pure) fun _ => yields_ite (fun _ => ?_) fun _ => ?_
  · exact (yields_localMirrorBlob w digest []).done
  · exact yields_bind (yields_remoteBlobDigest h) fun rd _ => keeps_streamRemoteBlob rd

lemma keeps_copyBlobToFile : Keeps w (copyBlobToFile w r digest) := by
  refine yields_bind (keeps_ensureBlobLocal h) fun _ _ => ?_
  refine yields_bind (yields_attempt (keeps_localRead w _ digest)) fun found _ => ?_
  cases found with
  | ok bytes => exact keeps_pure
  | error error =>
    refine yields_ite (fun _ => ?_) fun _ => yields_throw error
    exact yields_bind (keeps_ensureBlobLocal h) fun _ _ => keeps_localRead w _ digest

omit h in
lemma keeps_fetchBlob (rd : RemoteDigest) : Keeps w (fetchBlob w r digest rd) := by
  refine yields_bind (yields_readReapiBlob rd _) fun found _ => ?_
  cases found with
  | none => exact yields_throw _
  | some bytes => exact (keeps_mirrorRequested bytes).done

lemma keeps_getRemoteBlob (rd : RemoteDigest) : Keeps w (getRemoteBlob w r digest rd) := by
  refine yields_ite (fun _ => ?_) fun _ => keeps_fetchBlob rd
  exact yields_bind (keeps_ensureBlobLocal h) fun _ _ => keeps_localRead w _ digest

lemma keeps_getBlob : Keeps w (getBlob w r digest) := by
  refine yields_bind (yields_attempt (keeps_localRead w _ digest)) fun found _ => ?_
  cases found with
  | ok bytes => exact keeps_pure
  | error error =>
    refine yields_ite (fun _ => ?_) fun _ => ?_
    · exact (yields_localMirrorBlob w digest []).done
    · exact yields_bind (yields_remoteBlobDigest h) fun rd _ => keeps_getRemoteBlob h rd

omit h in
lemma keeps_reapiBlobExists (rd : RemoteDigest) : Keeps w (reapiBlobExists r rd) := keeps_ask

lemma keeps_hasBlob : Keeps w (hasBlob w r digest) := by
  refine yields_bind (keeps_localHasBlob w digest) fun has _ => ?_
  refine yields_ite (fun _ => keeps_pure) fun _ =>
    yields_ite (fun _ => keeps_pure) fun _ => ?_
  refine yields_bind (yields_attempt (yields_remoteBlobDigest h)) fun answer _ => ?_
  cases answer with
  | ok rd => exact keeps_reapiBlobExists rd
  | error e =>
    cases e with
    | blobNotFound missing => exact keeps_pure
    | _ => exact yields_throw _

end reading

/-! ## Uploads -/

variable {entry : ReapiActionResult}

section uploads

variable {w r}

lemma yields_publishBlob {digest : Digest} (bytes : Bytes) (hright : Right w digest rd) :
    Yields w (publishBlob w r digest rd bytes) (Right w digest) := by
  have hsend : Keeps w (sendBlob r rd bytes) :=
    yields_bind (keeps_reapiBlobExists rd) fun _ _ =>
      yields_ite (fun _ => keeps_pure) fun _ => keeps_ask
  have hmapping : Keeps w (putBlobMapping w r digest rd) :=
    yields_bind keeps_ask fun _ _ => keeps_ask
  refine yields_bind hsend fun _ _ => yields_bind hmapping fun _ _ => ?_
  exact yields_bind (keeps_remember hright) fun _ _ => yields_pure hright

lemma yields_putBlobRemote (digest : Digest) (bytes : Bytes) :
    Yields w (putBlobRemote w r digest bytes) (Right w digest) := by
  refine yields_failIf fun hdigest => yields_knownOr ?_
  refine yields_bind (yields_ask fun _ heq => heq) fun rd hrd => ?_
  exact yields_publishBlob bytes ⟨bytes, by simpa using hdigest, hrd⟩

lemma right_of_copyBlobDigests {digests : Digest × RemoteDigest}
    (h : copyBlobDigests w bytes = .ok digests) : Right w digests.1 digests.2 := by
  unfold copyBlobDigests at h
  split at h
  case isTrue hmax =>
    cases h
    exact ⟨bytes, rfl, sha256Digest_eq w rfl rfl⟩
  case isFalse => cases h

/-- A local blob is sent under the digest of the bytes that were read. -/
lemma yields_uploadBlob (operation : String) (digest : Digest) :
    Yields w (uploadBlob w r operation digest) (Right w digest) := by
  refine yields_knownOr ?_
  refine yields_bind (keeps_localRead w _ digest) fun bytes _ => ?_
  refine yields_bind (yields_ask fun _ heq => heq) fun digests hdigests => ?_
  refine yields_failIf fun hsame => ?_
  have hdigest : digests.1 = digest := by simpa using hsame
  exact yields_publishBlob bytes (hdigest ▸ right_of_copyBlobDigests hdigests)

lemma yields_uploadLocalBlob (operation : String) (digest : Option Digest) :
    Yields w (uploadLocalBlob w r operation digest) (Option.Rel (Right w) digest) := by
  cases digest with
  | none => exact yields_pure .none
  | some digest =>
    exact yields_bind (yields_uploadBlob operation digest) fun _ hright =>
      yields_pure (.some hright)

lemma yields_uploadOutput (output : Text × Digest) : Yields w (uploadOutput w r output) fun file =>
      file.path = output.1 ∧ ∃ rd, file.digest = some rd ∧ Right w output.2 rd := by
  refine yields_bind (yields_uploadLocalBlob _ (some output.2)) fun uploaded hright => ?_
  cases hright with
  | some hright => exact yields_pure ⟨rfl, _, rfl, hright⟩

lemma keeps_publish {action : Digest} {key : RemoteDigest} {result : NativeResult}
    (h : Publication.NamesRight w ⟨action, result, entry⟩) :
    Keeps w (publish r action key result entry) := by
  refine yields_bind (R := fun _ => True) ?_ fun _ _ => keeps_ask
  refine ensures_change fun c hc => ⟨⟨hc.known, fun p hp => ?_⟩, trivial⟩
  rcases List.mem_append.mp hp with hp | hp
  · exact hc.published p hp
  · exact List.mem_singleton.mp hp ▸ h

lemma keeps_putActionResult (action : Digest) (result : NativeResult) :
    Keeps w (putActionResult w r action result) := by
  have hremote : Keeps w (putActionResultRemote w r action result) := by
    refine yields_bind (yields_uploadLocalBlob _ _) fun stdout hstdout => ?_
    refine yields_bind (yields_uploadLocalBlob _ _) fun stderr hstderr => ?_
    refine yields_bind (yields_mapM fun output _ => yields_uploadOutput output)
      fun files hfiles => ?_
    refine yields_bind (yields_ask fun _ heq => heq) fun metadata hmetadata => ?_
    refine yields_bind keeps_ask fun key _ => ?_
    exact keeps_publish ⟨hfiles, hstdout, hstderr, rfl, metadata, hmetadata, rfl⟩
  refine yields_bind (keeps_localPutActionResult w action result) fun _ _ => ?_
  exact (yields_attempt hremote).done

end uploads

/-! ## Reading action results -/

/-- The pairs that the entry of an action gives, if the remote answers one that is consistent with
its native metadata, are right. -/
def ResultRight (action : Digest) : Prop :=
  ∀ key entry native mappings, actionMappingDigest w action = .ok key →
    r.getActionResult key = .ok (some entry) →
    decodeActionResultMetadata w entry = .ok (some native) →
    entryMappings entry native = .ok mappings → ∀ pair ∈ mappings, Right w pair.1 pair.2

section results

variable {w r}

lemma keeps_rememberRemoteActionResultBlobs {native : NativeResult}
    (h : ∀ mappings, entryMappings entry native = .ok mappings →
      ∀ pair ∈ mappings, Right w pair.1 pair.2) :
    Keeps w (rememberRemoteActionResultBlobs r entry native) := by
  refine yields_bind (yields_ask fun _ heq => heq) fun mappings hmappings => ?_
  refine yields_bind keeps_ask fun missing _ => ?_
  cases missing with
  | some missing => exact yields_throw _
  | none => exact keeps_forM fun pair hpair => keeps_remember (h mappings hmappings pair hpair)

lemma keeps_mirrorVerified (h : Right w (w.digestOf bytes) rd) :
    Keeps w (mirrorVerified w rd bytes) :=
  yields_bind (yields_localMirrorBlob w _ bytes) fun _ _ =>
    (keeps_remember h).done

lemma yields_stageRemoteBlob (rd : RemoteDigest) (operation : String) :
    Yields w (stageRemoteBlob w r rd operation) fun bytes => Right w (w.digestOf bytes) rd := by
  refine yields_bind (yields_ask fun _ heq => heq) fun declared hdeclared => ?_
  refine yields_bind keeps_ask fun answer _ => ?_
  exact yields_ask fun bytes hbytes => right_of_stageOutcome w hdeclared hbytes

lemma keeps_mirrorReapiBlob (operation : String) (rd : RemoteDigest) :
    Keeps w (mirrorReapiBlob w r operation rd) := by
  refine yields_ite (fun _ => ?_) fun _ => yields_ite (fun _ => ?_) fun _ => ?_
  · refine yields_bind (yields_ask fun _ heq => heq) fun _ hvalid => ?_
    exact keeps_mirrorVerified (right_of_validate w hvalid)
  · exact yields_bind (yields_stageRemoteBlob rd operation) fun _ hright =>
      keeps_mirrorVerified hright
  · refine yields_bind (yields_readReapiBlob rd operation) fun found hfound => ?_
    cases found with
    | some bytes => exact keeps_mirrorVerified (hfound bytes rfl)
    | none => exact yields_throw _

lemma keeps_mirrorReapiDigestOrRaw (digest : Option RemoteDigest) (raw : Bytes)
    (operation : String) : Keeps w (mirrorReapiDigestOrRaw w r digest raw operation) := by
  cases digest with
  | some digest => exact (keeps_mirrorReapiBlob operation digest).done
  | none =>
    refine yields_ite (fun _ => keeps_pure) fun _ => ?_
    exact (yields_localPutBlob w raw).done

lemma keeps_reapiToOnceActionResult
    (h : ∀ native mappings, decodeActionResultMetadata w entry = .ok (some native) →
      entryMappings entry native = .ok mappings → ∀ pair ∈ mappings, Right w pair.1 pair.2) :
    Keeps w (reapiToOnceActionResult w r entry) := by
  refine yields_bind (yields_ask fun _ heq => heq) fun decoded hdecoded => ?_
  cases decoded with
  | some native =>
    refine (keeps_rememberRemoteActionResultBlobs fun mappings hmappings => ?_).done
    exact h native mappings hdecoded hmappings
  | none =>
    -- without metadata every blob is downloaded and verified
    refine yields_bind (keeps_mirrorReapiDigestOrRaw _ _ _) fun stdout _ => ?_
    refine yields_bind (keeps_mirrorReapiDigestOrRaw _ _ _) fun stderr _ => ?_
    exact yields_bind (yields_mapM fun file _ => (keeps_mirrorReapiDigestOrRaw _ _ _).done)
      fun outputs _ =>
      keeps_pure

lemma keeps_getActionResult {action : Digest} (h : ResultRight w r action) :
    Keeps w (getActionResult w r action) := by
  have hremote : Keeps w (getActionResultRemote w r action) := by
    refine yields_bind (yields_ask fun _ heq => heq) fun key hkey => ?_
    refine yields_bind (yields_ask fun _ heq => heq) fun answer hanswer => ?_
    cases answer with
    | none => exact keeps_pure
    | some entry =>
      have hentry := keeps_reapiToOnceActionResult (r := r)
        fun native mappings hdecoded hmappings =>
        h key entry native mappings hkey hanswer hdecoded hmappings
      exact yields_bind (yields_attempt hentry) fun _ _ => keeps_ask
  refine yields_bind (yields_inspect fun _ _ _ _ => trivial) fun found _ => ?_
  cases found with
  | some result => exact keeps_pure
  | none =>
    refine yields_bind hremote fun result _ => ?_
    have hkeep : Keeps w (keepResult action result) := by
      cases result with
      | none => exact keeps_pure
      | some result => exact keeps_localPutActionResult w action result
    exact yields_bind hkeep fun _ _ => keeps_pure

end results

/-! ## Runs -/

/-- What the remote answers to the operation, where it reads from it, is right. -/
def Step.ReadsRight (s : Step) : Prop :=
  match s.op with
  | .getBlob digest => MappingRight w s.remote digest
  | .copyBlobToFile digest => MappingRight w s.remote digest
  | .ensureBlobLocal digest => MappingRight w s.remote digest
  | .prefetchBlobs digests => ∀ digest ∈ digests, MappingRight w s.remote digest
  | .hasBlob digest => MappingRight w s.remote digest
  | .getActionResult action => ResultRight w s.remote action
  | _ => True

/-- One operation of the client. -/
lemma keeps_call {op : Op} (h : Step.ReadsRight w ⟨op, r⟩) : Keeps w (op.call w r) := by
  cases op with
  | getBlob digest => exact (keeps_getBlob h).done
  | copyBlobToFile digest => exact (keeps_copyBlobToFile h).done
  | ensureBlobLocal digest => exact keeps_ensureBlobLocal h
  | prefetchBlobs digests =>
    exact keeps_forM fun digest hdigest => keeps_ensureBlobLocal (h digest hdigest)
  | hasBlob digest => exact (keeps_hasBlob h).done
  | putBlob bytes =>
    have hput : Keeps w (putBlob w r bytes) :=
      yields_bind (yields_localPutBlob w bytes) fun digest _ =>
        (yields_attempt (yields_putBlobRemote digest bytes)).done
    exact yields_bind hput fun _ _ => keeps_pure
  | publishLocalBlob digest =>
    exact (yields_attempt (yields_uploadLocalBlob "put blob" (some digest))).done
  | mirrorBlob digest => exact (keeps_mirrorReapiBlob _ digest).done
  | getActionResult action => exact (keeps_getActionResult h).done
  | putActionResult action result => exact keeps_putActionResult action result
  | forgetAction action | collected digest => exact keeps_change_local (fun _ => rfl) fun _ => rfl
  | storedLocally bytes => exact (yields_localPutBlob w bytes).done

lemma sound_of_reachable {blobs : BlobStore}
    {results : Digest → Option NativeResult} {c : Client}
    (h : Reachable (step w) (fun _ s => s.ReadsRight w) (Client.new blobs results) c) :
    Sound w c := by
  refine h.invariant ⟨fun _ _ h => (nomatch h), fun _ h => (nomatch h)⟩
    fun c s c' hc hright hstep => ?_
  cases hstep
  have hkeep : Ensures (Sound w) (s.op.call w s.remote) (fun _ => Sound w) (Sound w) :=
    Ensures.mono (keeps_call w s.remote hright) (fun _ hc => hc) (fun _ _ hc => hc.1) fun _ hc => hc
  exact hkeep.left hc

end OnceBuild.Tuist
