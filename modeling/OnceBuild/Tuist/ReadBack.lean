import OnceBuild.Tuist.Published

/-!
# Reading a publication back

A remote that serves a published entry and reports none of its blobs missing gives every client the
action result that was published.  Together with the soundness of the table: as long as the entries
that a client reads give right pairs, what it publishes names the right blobs.
-/

namespace OnceBuild.Tuist

open Lib List
open Lib.Fallible
open Cas (Bytes Digest)

def ReapiActionResult.digests (entry : ReapiActionResult) : List RemoteDigest :=
  entry.outputFiles.filterMap OutputFile.digest ++ entry.stdoutDigest.toList ++
    entry.stderrDigest.toList

variable (w : Wire)

/-- The remote has the entry of a publication and its blobs. -/
structure Remote.Serves (r : Remote) (p : Publication) : Prop where
  entry : ∀ key, actionMappingDigest w p.action = .ok key →
    r.getActionResult key = .ok (some p.entry)
  blobs : ∀ digests, (∀ digest ∈ digests, digest ∈ p.entry.digests) →
    r.findMissingBlobs digests = .ok []

/-- Every client that has no result of the action of its own reads the one that was published. -/
def Publication.ReadBack (p : Publication) : Prop :=
  ∀ (r : Remote) (c : Client), r.Serves w p → c.results p.action = none →
    (exec (getActionResult w r p.action) c).1 = .ok (some p.result)

/-! ## The entry is consistent with its metadata -/

variable {p : Publication}

section entry

variable {w}

lemma decode_of_namesRight (h : p.NamesRight w) :
    decodeActionResultMetadata w p.entry = .ok (some p.result) := by
  obtain ⟨metadata, hencode, hentry⟩ := h.metadata
  unfold encodeActionResultMetadata at hencode
  cases hvalue : w.encode p.result with
  | none =>
    rw [hvalue] at hencode
    cases hencode
  | some value =>
    rw [hvalue] at hencode
    cases hencode
    simp [decodeActionResultMetadata, hentry, w.decode_encode p.result value hvalue]

lemma outputs_of_forall₂ {outputs : List (Text × Digest)} {files : List OutputFile}
    (h : List.Forall₂ (fun output file =>
      file.path = output.1 ∧ ∃ rd, file.digest = some rd ∧ Right w output.2 rd) outputs files) :
    (files.filterMap OutputFile.named).map Prod.fst = outputs.map Prod.fst ∧
    ∀ output ∈ outputs, ∃ rd ∈ files.filterMap OutputFile.digest,
      (output.1, rd) ∈ files.filterMap OutputFile.named := by
  induction h with
  | nil => exact ⟨rfl, nofun⟩
  | @cons output file outputs files hfirst _ ih =>
    obtain ⟨hpath, rd, hrd, -⟩ := hfirst
    have hpair : file.named = some (output.1, rd) := by
      rw [OutputFile.named, hrd, hpath]
      rfl
    rw [filterMap_cons_some hpair, filterMap_cons_some hrd]
    refine ⟨?_, forall_mem_cons.mpr ⟨?_, fun other hother => ?_⟩⟩
    · rw [map_cons, map_cons, ih.1]
    · exact ⟨rd, mem_cons_self, mem_cons_self⟩
    · obtain ⟨rd', hmem, hpair'⟩ := ih.2 other hother
      exact ⟨rd', mem_cons_of_mem _ hmem, mem_cons_of_mem _ hpair'⟩

lemma optionalRemoteBlob_of_rel {native : Option Digest} {remote : Option RemoteDigest}
    (h : Option.Rel (Right w) native remote) (stream : String) :
    ∃ pairs, optionalRemoteBlob native remote stream = .ok pairs ∧
      ∀ pair ∈ pairs, pair.2 ∈ remote.toList := by
  cases h with
  | none => exact ⟨[], rfl, fun _ hpair => absurd hpair not_mem_nil⟩
  | some hright => exact ⟨_, rfl, by simp⟩

lemma entryMappings_of_namesRight (h : p.NamesRight w) :
    ∃ mappings, entryMappings p.entry p.result = .ok mappings ∧
      ∀ pair ∈ mappings, pair.2 ∈ p.entry.digests := by
  obtain ⟨hpaths, houtputs⟩ := outputs_of_forall₂ h.outputs
  -- the paths are distinct, so that no file of the entry hides another
  have hremote : remoteOutputs p.entry = p.entry.outputFiles.filterMap OutputFile.named :=
    latest_of_nodup (hpaths ▸ p.result.distinct)
  have hnodup : ((remoteOutputs p.entry).map Prod.fst).Nodup := by
    rw [hremote, hpaths]
    exact p.result.distinct
  have hlength : (remoteOutputs p.entry).length = p.result.outputs.length := by
    have := congrArg length hpaths
    rwa [← hremote, length_map, length_map] at this
  obtain ⟨outputs, houtputsEq, houtputsMem⟩ := mapM_eq_ok (f := outputMapping p.entry)
      (Q := fun pair => pair.2 ∈ p.entry.outputFiles.filterMap OutputFile.digest)
        fun output houtput => by
    obtain ⟨rd, hmem, hpair⟩ := houtputs output houtput
    have hlookup := lookup_of_mem hnodup (hremote ▸ hpair)
    exact ⟨(output.2, rd), by rw [outputMapping, hlookup], hmem⟩
  obtain ⟨stdout, hstdout, hstdoutMem⟩ := optionalRemoteBlob_of_rel h.stdout "stdout"
  obtain ⟨stderr, hstderr, hstderrMem⟩ := optionalRemoteBlob_of_rel h.stderr "stderr"
  refine ⟨outputs ++ stdout ++ stderr, ?_, fun pair hpair => ?_⟩
  · unfold entryMappings
    rw [if_neg (not_not.mpr h.exitCode), if_neg (not_not.mpr hlength), houtputsEq, hstdout, hstderr]
    rfl
  · simp only [ReapiActionResult.digests, mem_append] at hpair ⊢
    exact hpair.imp (fun hpair => hpair.imp (houtputsMem pair) (hstdoutMem pair)) (hstderrMem pair)

end entry

/-! ## The reader -/

lemma exec_extendKnown (mappings : List (Digest × RemoteDigest)) (c : Client) :
    ∃ c', exec (extendKnown mappings) c = (.ok (), c') := by
  induction mappings generalizing c with
  | nil => exact ⟨c, rfl⟩
  | cons pair mappings ih =>
    obtain ⟨c', hrest⟩ := ih (exec (remember pair.1 pair.2) c).2
    exact ⟨c', (exec_bind_ok rfl).trans hrest⟩

lemma findMissing_of_serves {r : Remote} (hserves : r.Serves w p) {digests : List RemoteDigest}
    (h : ∀ digest ∈ digests, digest ∈ p.entry.digests) :
    findMissingReapiBlobs r digests = .ok none := by
  unfold findMissingReapiBlobs
  split
  case isTrue => rfl
  case isFalse =>
    rw [hserves.blobs digests h]
    rfl

lemma exec_reapiToOnceActionResult {r : Remote} (h : p.NamesRight w) (hserves : r.Serves w p)
    (c : Client) : ∃ c', exec (reapiToOnceActionResult w r p.entry) c = (.ok p.result, c') := by
  obtain ⟨mappings, hmappings, hmem⟩ := entryMappings_of_namesRight h
  obtain ⟨c', hextend⟩ := exec_extendKnown mappings c
  have hdecode : exec (ask (decodeActionResultMetadata w p.entry)) c =
    (.ok (some p.result), c) := by
    rw [decode_of_namesRight h]
    rfl
  have hask : exec (ask (entryMappings p.entry p.result)) c = (.ok mappings, c) := by
    rw [hmappings]
    rfl
  have hmissing : exec (ask (findMissingReapiBlobs r (mappings.map Prod.snd))) c =
      (.ok none, c) := by
    rw [findMissing_of_serves w hserves fun digest hdigest => ?_]
    · rfl
    · obtain ⟨pair, hpair, rfl⟩ := mem_map.mp hdigest
      exact hmem pair hpair
  have hremember : exec (rememberRemoteActionResultBlobs r p.entry p.result) c = (.ok (), c') :=
    (exec_bind_ok hask).trans ((exec_bind_ok hmissing).trans hextend)
  exact ⟨c', (exec_bind_ok hdecode).trans ((exec_bind_ok hremember).trans rfl)⟩

lemma sha256Digest_ok {bytes : Bytes} (h : (bytes.length : Int) ≤ i64Max) :
    ∃ rd, sha256Digest w bytes = .ok rd := by
  rw [sha256Digest, dif_pos h]
  exact ⟨_, rfl⟩

lemma actionMappingDigest_ok (action : Digest) : ∃ key, actionMappingDigest w action = .ok key := by
  have hlength := length_utf8Encode_le (actionMappingPrefix ++ '\x00' :: action.hex)
  have hchars : (actionMappingPrefix ++ '\x00' :: action.hex).length = 79 := by
    rw [length_append, length_cons, action.length_hex]
    rfl
  unfold actionMappingDigest mappingDigest
  refine sha256Digest_ok w ?_
  unfold i64Max
  omega

lemma readBack_of_namesRight (h : p.NamesRight w) : p.ReadBack w := by
  intro r c hserves hresult
  obtain ⟨key, hkey⟩ := actionMappingDigest_ok w p.action
  obtain ⟨c', hconvert⟩ := exec_reapiToOnceActionResult w h hserves c
  have hlocal : exec (inspect fun c : Client => Except.ok (c.results p.action)) c =
      ((.ok none, c) : Except CacheError (Option NativeResult) × Client) := by
    rw [exec_inspect, hresult]
  have hask : exec (ask (actionMappingDigest w p.action)) c = (.ok key, c) := by
    rw [hkey]
    rfl
  have hentry : exec (ask (r.getActionResult key)) c = (.ok (some p.entry), c) := by
    rw [hserves.entry key hkey]
    rfl
  have hattempt : exec (attempt (reapiToOnceActionResult w r p.entry) : Call _) c =
      (.ok (.ok p.result), c') := by
    rw [exec_attempt, hconvert]
  have hhit : exec (ask (hitOrMiss (.ok p.result))) c' = (.ok (some p.result), c') := rfl
  have hremote : exec (getActionResultRemote w r p.action) c = (.ok (some p.result), c') := by
    rw [getActionResultRemote, exec_bind_ok hask, exec_bind_ok hentry]
    exact (exec_bind_ok hattempt).trans hhit
  rw [getActionResult, exec_bind_ok hlocal]
  rw [exec_bind_ok hremote]
  rfl

/-! ## Publications of a run -/

/-- In every run whose reads give right pairs, each publication maps every output and stream to the
remote digest of the bytes that the result names, and is read back as it was published. -/
theorem published_names_right {blobs : Cas.BlobStore}
    {results : Digest → Option NativeResult} {c : Client}
    (h : Reachable (step w) (fun _ s => s.ReadsRight w) (Client.new blobs results) c) :
    ∀ p ∈ c.published, p.NamesRight w ∧ p.ReadBack w := by
  intro p hp
  have hright := (sound_of_reachable w h).published p hp
  exact ⟨hright, readBack_of_namesRight w hright⟩

section demo

/-- A result with one output, whose content is one byte long. -/
def demoResult (path : Char) : NativeResult where
  exitCode := 0
  stdout := none
  stderr := none
  outputs := [([path], Digest.ofDigit 1)]
  distinct := nodup_cons.mpr ⟨not_mem_nil, nodup_nil⟩

def demoEncode (result : NativeResult) : Option Bytes :=
  if result = demoResult 'x' then some [1]
  else if result = demoResult 'y' then some [2]
  else none

def demoDecode (bytes : Bytes) : Option NativeResult :=
  if bytes = [1] then some (demoResult 'x')
  else if bytes = [2] then some (demoResult 'y')
  else none

lemma demoDecode_demoEncode (result : NativeResult) (bytes : Bytes)
    (h : demoEncode result = some bytes) : demoDecode bytes = some result := by
  unfold demoEncode at h
  split at h
  case isTrue hx =>
    cases h
    exact congrArg some hx.symm
  case isFalse =>
    split at h
    case isTrue hy =>
      cases h
      exact congrArg some hy.symm
    case isFalse => cases h

/-- Hashes by which blobs of different lengths differ. -/
def demoWire : Wire where
  digestOf bytes := Digest.ofDigit bytes.length
  zstd := Cas.BlobStore.storedOnly
  blobPath digest := String.ofList digest.hex
  sha256Hex bytes := List.replicate bytes.length 'a'
  encode := demoEncode
  decode := demoDecode
  decode_encode := demoDecode_demoEncode

def remoteOne : RemoteDigest := ⟨['a'], (1 : Nat), isI64_one⟩

def remoteTwo : RemoteDigest := ⟨['a', 'a'], (2 : Nat), isI64_of_le (by decide)⟩

variable (rd : RemoteDigest)

/-- The entry of an action whose output `x` is filed under the given remote digest. -/
def demoEntry : ReapiActionResult :=
  resultEntry (demoResult 'x') none none [{ path := ['x'], digest := some rd, contents := [] }]
    { typeUrl := actionResultMetadataTypeUrl, value := [1] }

/-- A remote with this one entry, which takes every upload. -/
def demoRemote : Remote where
  getActionResult _ := .ok (some (demoEntry rd))
  updateActionResult _ _ := .ok ()
  findMissingBlobs _ := .ok []
  readBlob _ := .ok none
  writeBlob _ _ := .ok ()

/-- Read the entry, store the byte that its native digest names, and publish another result with
the same content. -/
def demoSteps : List Step :=
  [⟨.getActionResult (Digest.ofDigit 3), demoRemote rd⟩, ⟨.putBlob [7], demoRemote rd⟩,
    ⟨.putActionResult (Digest.ofDigit 4) (demoResult 'y'), demoRemote rd⟩]

def demoStart : Client := Client.new (fun _ => none) fun _ => none

/-- What the three steps publish: the pair of the entry is taken over. -/
def demoPublication : Publication where
  action := Digest.ofDigit 4
  result := demoResult 'y'
  entry := resultEntry (demoResult 'y') none none
    [{ path := ['y'], digest := some rd, contents := [] }]
    { typeUrl := actionResultMetadataTypeUrl, value := [2] }

lemma demo_published : (runSteps (step demoWire) demoStart (demoSteps rd)).map Client.published =
      some [demoPublication rd] := by
  rfl

lemma not_right_one_two : ¬Right demoWire (Digest.ofDigit 1) remoteTwo := by
  rintro ⟨bytes, hdigest, hremote⟩
  have hlength : bytes.length = 2 := by
    unfold sha256Digest at hremote
    split at hremote
    case isFalse => cases hremote
    case isTrue =>
      have hsize := congrArg RemoteDigest.sizeBytes (Except.ok.inj hremote)
      exact Int.ofNat.inj hsize
  have hdigit : Digest.ofDigit bytes.length = Digest.ofDigit 1 := hdigest
  rw [hlength] at hdigit
  revert hdigit
  decide

/-- An entry with a wrong pair is taken over by a later publication, though the client had the right
bytes in its hands. -/
theorem wrong_pair_spreads : ∃ c, Reachable (step demoWire) (fun _ _ => True) demoStart c ∧
      ∃ p ∈ c.published, p.result = demoResult 'y' ∧ ¬p.NamesRight demoWire := by
  obtain ⟨c, hrun, hpublished⟩ := Option.map_eq_some_iff.mp (demo_published remoteTwo)
  refine ⟨c, Reachable.start.runSteps hrun, demoPublication remoteTwo, ?_, rfl, ?_⟩
  · rw [hpublished]
    exact mem_singleton_self _
  · intro hright
    cases hright.outputs with
    | cons hfirst _ =>
      obtain ⟨-, rd, hrd, hpair⟩ := hfirst
      cases hrd
      exact not_right_one_two hpair

lemma demoSteps_readRight : ∀ s ∈ demoSteps remoteOne, s.ReadsRight demoWire := by
  have hfirst : Step.ReadsRight demoWire
      ⟨.getActionResult (Digest.ofDigit 3), demoRemote remoteOne⟩ := by
    intro key entry native mappings _ hentry hdecoded hmappings pair hpair
    cases hentry
    cases hdecoded
    cases hmappings
    rw [mem_singleton.mp hpair]
    exact ⟨[7], rfl, rfl⟩
  exact forall_mem_cons.mpr ⟨hfirst, forall_mem_cons.mpr
    ⟨trivial, forall_mem_cons.mpr ⟨trivial, forall_mem_nil _⟩⟩⟩

/-- With a right entry the same three steps publish the right digest. -/
theorem published_names_right_demo : (demoPublication remoteOne).NamesRight demoWire ∧
      (demoPublication remoteOne).ReadBack demoWire := by
  obtain ⟨c, hrun, hpublished⟩ := Option.map_eq_some_iff.mp (demo_published remoteOne)
  have hreached := Reachable.start.runSteps_of demoSteps_readRight hrun
  refine published_names_right demoWire hreached _ ?_
  rw [hpublished]
  exact mem_singleton_self _

end demo

end OnceBuild.Tuist
