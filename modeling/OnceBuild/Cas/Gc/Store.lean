import OnceBuild.Cas.Gc.Marks

/-!
# The store a collection pass leaves

The marks of a pass are facts about a snapshot.  Here they become facts about the files: which
action results are still on disk after the pass, or after any prefix of its removals, and that each
of them has the blobs it had.
-/

namespace OnceBuild.Cas

open List

variable {decode : List UInt8 → Option ActionResult} {store : Store} {maxBytes : Nat}

/-! ## Removing files -/

lemma files_removeFiles (store : Store) (paths : List (List String)) :
    (store.removeFiles paths).files = store.files.filter fun f => f.path ∉ paths := by
  induction paths generalizing store with
  | nil => simp [Store.removeFiles]
  | cons p paths ih =>
    have hstep : (store.removeFiles (p :: paths)).files =
        (store.removeFile p).files.filter fun f => f.path ∉ paths := ih (store.removeFile p)
    rw [hstep]
    simp [Store.removeFile, filter_filter, Bool.and_comm]

lemma collectBlobFiles_removeFiles (store : Store) (paths : List (List String)) :
    collectBlobFiles (store.removeFiles paths) =
      (collectBlobFiles store).filter fun b => b.path ∉ paths := by
  simp only [collectBlobFiles, files_removeFiles, filter_map, filter_filter]
  exact congrArg _ (filter_congr fun f _ => Bool.and_comm _ _)

lemma collectActionFiles_removeFiles (store : Store) (paths : List (List String)) :
    collectActionFiles decode (store.removeFiles paths) =
      (collectActionFiles decode store).filter fun a => a.path ∉ paths := by
  simp only [collectActionFiles, files_removeFiles, filter_map, filter_filter]
  exact congrArg _ (filter_congr fun f _ => Bool.and_comm _ _)

/-! ## Paths identify the snapshot's files -/

lemma nodup_paths_collectBlobFiles (store : Store) :
    ((collectBlobFiles store).map BlobFile.path).Nodup := by
  have hsub : ((store.files.filter (StoredFile.under blobsDir)).map StoredFile.path).Nodup :=
    store.nodup_paths.sublist (filter_sublist.map _)
  simpa [collectBlobFiles, Function.comp_def, StoredFile.blobFile] using hsub

lemma nodup_paths_collectActionFiles (store : Store) :
    ((collectActionFiles decode store).map ActionFile.path).Nodup := by
  have hsub := store.nodup_paths.sublist ((filter_sublist
    (p := fun f => f.under actionsDir && f.path.getLast?.any isJson)).map StoredFile.path)
  simpa [collectActionFiles, Function.comp_def, StoredFile.actionFile] using hsub

lemma head?_of_under {dir : String} {f : StoredFile} (h : f.under dir = true) :
    f.path.head? = some dir := by
  unfold StoredFile.under at h
  split at h
  case h_1 top below hpath =>
    simp only [Bool.and_eq_true, beq_iff_eq] at h
    simp [hpath, h.1]
  case h_2 => cases h

variable {b : BlobFile}

lemma head?_collectBlobFiles (h : b ∈ collectBlobFiles store) : b.path.head? = some blobsDir := by
  rcases mem_map.mp h with ⟨f, hf, rfl⟩
  exact head?_of_under (mem_filter.mp hf).2

variable {a : ActionFile}

lemma head?_collectActionFiles (h : a ∈ collectActionFiles decode store) :
    a.path.head? = some actionsDir := by
  rcases mem_map.mp h with ⟨f, hf, rfl⟩
  have hcond := (mem_filter.mp hf).2
  simp only [Bool.and_eq_true] at hcond
  exact head?_of_under hcond.1

lemma blob_path_ne_action_path (hb : b ∈ collectBlobFiles store)
    (ha : a ∈ collectActionFiles decode store) : b.path ≠ a.path := by
  intro h
  have := head?_collectBlobFiles hb
  rw [h, head?_collectActionFiles ha] at this
  simp [blobsDir, actionsDir] at this

variable {m : Marks}

lemma action_path_mem_victims (ha : a ∈ collectActionFiles decode store) :
    a.path ∈ m.victims (collectBlobFiles store) (collectActionFiles decode store) ↔
      a ∈ m.actionRemoved := by
  simp only [Marks.victims, mem_append, mem_map, mem_filter, decide_eq_true_eq]
  constructor
  · rintro (⟨c, ⟨hc, hrem⟩, hpath⟩ | ⟨b, ⟨hb, -⟩, hpath⟩)
    · rwa [← inj_on_of_nodup_map (nodup_paths_collectActionFiles store) hc ha hpath]
    · exact absurd hpath (blob_path_ne_action_path hb ha)
  · exact fun h => Or.inl ⟨a, ⟨ha, h⟩, rfl⟩

lemma blob_path_mem_victims (decode : List UInt8 → Option ActionResult)
    (hb : b ∈ collectBlobFiles store) :
    b.path ∈ m.victims (collectBlobFiles store) (collectActionFiles decode store) ↔
      b ∈ m.blobRemoved := by
  simp only [Marks.victims, mem_append, mem_map, mem_filter, decide_eq_true_eq]
  constructor
  · rintro (⟨a, ⟨ha, -⟩, hpath⟩ | ⟨c, ⟨hc, hrem⟩, hpath⟩)
    · exact absurd hpath.symm (blob_path_ne_action_path hb ha)
    · rwa [← inj_on_of_nodup_map (nodup_paths_collectBlobFiles store) hc hb hpath]
  · exact fun h => Or.inr ⟨b, ⟨hb, h⟩, rfl⟩

/-! ## Blobs of a digest -/

@[simp] lemma digestFromBlobPath_blobPath (d : Digest) :
    digestFromBlobPath (blobPath d) = some d := by
  have hlen : (d.hex.take 2).length = 2 := by simp [d.length_hex]
  simp [digestFromBlobPath, blobPath, hlen]

lemma isTemporary_drop_hex (d : Digest) : isTemporary (String.ofList (d.hex.drop 2)) = false := by
  cases hdrop : d.hex.drop 2 with
  | nil => rfl
  | cons c l =>
    have hmem : c ∈ d.hex := mem_of_mem_drop (i := 2) (by simp [hdrop])
    have hdot : c ≠ '.' := by
      rintro rfl
      exact absurd (d.isLowerHex_of_mem hmem) (by decide)
    simp [isTemporary, isPrefixOf, Ne.symm hdot]

variable {d : Digest}

lemma hasBlob_iff : store.hasBlob d = true ↔
    ∃ b ∈ collectBlobFiles store, b.path = blobPath d := by
  constructor
  · intro h
    rcases any_eq_true.mp h with ⟨f, hf, hpath⟩
    have hpath : f.path = blobPath d := by simpa using hpath
    refine ⟨f.blobFile, mem_map_of_mem (mem_filter.mpr ⟨hf, ?_⟩), hpath⟩
    simp [StoredFile.under, hpath, blobPath, isTemporary_drop_hex]
  · rintro ⟨b, hb, hpath⟩
    rcases mem_map.mp hb with ⟨f, hf, rfl⟩
    have hf' : f.path = blobPath d := hpath
    exact any_eq_true.mpr ⟨f, (mem_filter.mp hf).1, by simpa using hf'⟩

lemma digest_of_blobPath (hb : b ∈ collectBlobFiles store) (hpath : b.path = blobPath d) :
    b.digest = some d := by
  rcases mem_map.mp hb with ⟨f, -, rfl⟩
  have hf : f.path = blobPath d := hpath
  simp [StoredFile.blobFile, hf]

/-! ## The pass -/

/-- The marks that a pass over `store` ends with. -/
def gcMarks (decode : List UInt8 → Option ActionResult) (store : Store) (maxBytes : Nat) : Marks :=
  mark maxBytes (collectBlobFiles store) (collectActionFiles decode store)

lemma sound_gcMarks (decode : List UInt8 → Option ActionResult) (maxBytes : Nat)
    (hu : UniqueBlobs (collectBlobFiles store)) :
    Sound maxBytes (collectBlobFiles store) (collectActionFiles decode store)
      (gcMarks decode store maxBytes) :=
  sound_mark maxBytes (nodup_paths_collectBlobFiles store).of_map
    (nodup_paths_collectActionFiles store).of_map hu

/-- Owners go first: a removal prefix that reached a blob has removed every marked owner. -/
lemma owner_mem_take {k : Nat} (ha : a ∈ collectActionFiles decode store)
    (hb : b ∈ collectBlobFiles store) (hrem : a ∈ m.actionRemoved)
    (hmem : b.path ∈
      (m.victims (collectBlobFiles store) (collectActionFiles decode store)).take k) :
    a.path ∈ (m.victims (collectBlobFiles store) (collectActionFiles decode store)).take k := by
  unfold Marks.victims at hmem ⊢
  rw [take_append] at hmem ⊢
  rcases mem_append.mp hmem with hin | hin
  · rcases mem_map.mp (mem_of_mem_take hin) with ⟨c, hc, hpath⟩
    exact absurd hpath.symm (blob_path_ne_action_path hb (mem_filter.mp hc).1)
  · -- the blobs' part of the prefix is not empty, so the owners' part is complete
    refine mem_append_left _ ?_
    rw [take_of_length_le]
    · exact mem_map_of_mem (mem_filter.mpr ⟨ha, by simpa using hrem⟩)
    · by_contra hlen
      rw [Nat.sub_eq_zero_of_le (Nat.le_of_not_le hlen)] at hin
      simp at hin

lemma hasBlob_after_take (hu : UniqueBlobs (collectBlobFiles store)) (k : Nat)
    (ha : a ∈ collectActionFiles decode
      (store.removeFiles ((gcVictims decode store maxBytes).take k))) (hd : d ∈ a.refs)
    (hhas : store.hasBlob d = true) :
    (store.removeFiles ((gcVictims decode store maxBytes).take k)).hasBlob d = true := by
  rw [collectActionFiles_removeFiles] at ha
  rcases mem_filter.mp ha with ⟨ha, hkept⟩
  have hkept : a.path ∉ (gcVictims decode store maxBytes).take k := by simpa using hkept
  rcases hasBlob_iff.mp hhas with ⟨b, hb, hpath⟩
  refine hasBlob_iff.mpr ⟨b, ?_, hpath⟩
  rw [collectBlobFiles_removeFiles]
  refine mem_filter.mpr ⟨hb, ?_⟩
  simp only [decide_eq_true_eq]
  intro hgone
  have hrem : b ∈ (gcMarks decode store maxBytes).blobRemoved :=
    (blob_path_mem_victims decode hb).mp (mem_of_mem_take hgone)
  have howner := (sound_gcMarks decode maxBytes hu).owners_marked b hb hrem d
    (digest_of_blobPath hb hpath) a ha hd
  exact hkept (owner_mem_take ha hb howner hgone)

lemma storedBytes_after (hu : UniqueBlobs (collectBlobFiles store)) :
    (gcMarks decode store maxBytes).bytesAfter =
      storedBytes (collectBlobFiles (store.removeFiles (gcVictims decode store maxBytes)))
        (collectActionFiles decode (store.removeFiles (gcVictims decode store maxBytes))) := by
  rw [(sound_gcMarks decode maxBytes hu).accounts, collectBlobFiles_removeFiles,
    collectActionFiles_removeFiles]
  congr 1
  · exact filter_congr fun b hb =>
      decide_eq_decide.mpr (not_congr (blob_path_mem_victims decode hb).symm)
  · exact filter_congr fun a ha =>
      decide_eq_decide.mpr (not_congr (action_path_mem_victims ha).symm)

/-- Collection keeps live results whole, whatever the file times and whatever the limit.

An action result is chosen for eviction only once every unreferenced blob is marked and the store
still does not fit; on disk the owners are then removed before the blobs, which is what makes every
prefix of the removals safe. -/
theorem gc_keeps_live_results (decode : List UInt8 → Option ActionResult) (store : Store)
    (maxBytes : Nat) (hu : UniqueBlobs (collectBlobFiles store)) :
    let blobs := collectBlobFiles store
    let actions := collectActionFiles decode store
    let victims := gcVictims decode store maxBytes
    let report := (gc decode store maxBytes false).1
    let after := (gc decode store maxBytes false).2
    (∀ a ∈ collectActionFiles decode after, ∀ d ∈ a.refs, store.hasBlob d = true →
      after.hasBlob d = true) ∧
    (∀ a ∈ actions, a.path ∈ victims → maxBytes < (markOrphans maxBytes blobs actions).bytesAfter ∧
      ∀ b ∈ blobs, (∀ c ∈ actions, ∀ d ∈ c.refs, b.digest ≠ some d) →
        b ∈ (markOrphans maxBytes blobs actions).blobRemoved ∧ b ∉ collectBlobFiles after) ∧
    (∀ b ∈ blobs, ∀ d, b.digest = some d → (∃ a ∈ actions, d ∈ a.refs) →
      (∀ a ∈ actions, d ∈ a.refs → a.path ∈ victims) → b ∉ collectBlobFiles after) ∧
    (report.bytesAfter = storedBytes (collectBlobFiles after) (collectActionFiles decode after) ∧
      report.bytesAfter ≤ maxBytes) ∧
    ∀ k, ∀ a ∈ collectActionFiles decode (store.removeFiles (victims.take k)), ∀ d ∈ a.refs,
      store.hasBlob d = true → (store.removeFiles (victims.take k)).hasBlob d = true := by
  intro blobs actions victims report after
  have hsound := sound_gcMarks decode maxBytes hu
  have hafter : after = store.removeFiles (victims.take victims.length) := by
    simp [after, victims, gc]
  have hgone : ∀ b ∈ blobs, b ∈ (gcMarks decode store maxBytes).blobRemoved →
      b ∉ collectBlobFiles after := by
    intro b hb hrem hin
    rw [hafter, collectBlobFiles_removeFiles] at hin
    have hkept : b.path ∉ victims := by simpa using (mem_filter.mp hin).2
    exact hkept ((blob_path_mem_victims decode hb).mpr hrem)
  refine ⟨?_, ?_, ?_, ⟨?_, hsound.fits⟩, ?_⟩
  · intro a ha d hd hhas
    rw [hafter] at ha ⊢
    exact hasBlob_after_take hu _ ha hd hhas
  · intro a ha hvictim
    rcases hsound.orphans_first a ((action_path_mem_victims ha).mp hvictim) with ⟨hover, horphans⟩
    refine ⟨hover, fun b hb hunref => ?_⟩
    have horphan : isOrphan (countRefs actions) b = true := by
      refine (isOrphan_countRefs actions b).mpr fun d hd hin => ?_
      rcases mem_flatMap.mp hin with ⟨c, hc, hdc⟩
      exact hunref c hc d hdc hd
    exact ⟨(horphans b hb horphan).1, hgone b hb (horphans b hb horphan).2⟩
  · intro b hb d hd hex hall
    refine hgone b hb (hsound.released b hb d hd hex fun a ha hda => ?_)
    exact (action_path_mem_victims ha).mp (hall a ha hda)
  · exact storedBytes_after hu
  · intro k a ha d hd hhas
    exact hasBlob_after_take hu k ha hd hhas

def zeroDigest : Digest where
  hex := List.replicate 64 '0'
  length_hex := by decide
  all_hex := by decide

/-- A blob with its action result, and a stray file next to them. -/
def sharedStore : Store where
  files := [⟨blobPath zeroDigest, [1, 2, 3], 5⟩, ⟨["cas", "stray"], [4, 5], 9⟩,
    ⟨["actions", "ab", "cd.json"], [7], 1⟩]
  nodup_paths := by decide

lemma uniqueBlobs_sharedStore : UniqueBlobs (collectBlobFiles sharedStore) := by
  have hblobs : collectBlobFiles sharedStore =
      [⟨blobPath zeroDigest, some zeroDigest, 3, 5⟩, ⟨["cas", "stray"], none, 2, 9⟩] := by decide
  intro b hb c hc d hbd hcd
  simp only [hblobs, mem_cons, not_mem_nil, or_false] at hb hc
  rcases hb with rfl | rfl <;> rcases hc with rfl | rfl <;> simp_all

theorem gc_sharedStore_fits : UniqueBlobs (collectBlobFiles sharedStore) ∧
    (gc (fun _ => some ⟨0, some zeroDigest, none, []⟩) sharedStore 4 false).1.bytesAfter ≤ 4 :=
  ⟨uniqueBlobs_sharedStore,
    (gc_keeps_live_results _ sharedStore 4 uniqueBlobs_sharedStore).2.2.2.1.2⟩

variable (decode) in
/-- A pass with the limit `cut.1`, stopped after `cut.2` removals. -/
def cutPass (store : Store) (cut : Nat × Nat) : Store :=
  store.removeFiles ((gcVictims decode store cut.1).take cut.2)

/-- Passes with any limits, each stopped anywhere, leave no result without a blob it had. -/
theorem cut_passes_keep_live_results (hu : UniqueBlobs (collectBlobFiles store))
    (cuts : List (Nat × Nat)) :
    let after := cuts.foldl (cutPass decode) store
    UniqueBlobs (collectBlobFiles after) ∧ ∀ a ∈ collectActionFiles decode after, ∀ d ∈ a.refs,
      store.hasBlob d = true → after.hasBlob d = true := by
  induction cuts using reverseRecOn with
  | nil => exact ⟨hu, fun _ _ _ _ hhas => hhas⟩
  | append_singleton cuts cut ih =>
    obtain ⟨hunique, hlive⟩ := ih
    rw [foldl_concat]
    refine ⟨?_, fun a ha d hd hhas => hasBlob_after_take hunique cut.2 ha hd ?_⟩
    · rw [cutPass, collectBlobFiles_removeFiles]
      exact fun b hb c hc => hunique b (mem_of_mem_filter hb) c (mem_of_mem_filter hc)
    · -- a result that is left was there before the pass
      rw [cutPass, collectActionFiles_removeFiles] at ha
      exact hlive a (mem_of_mem_filter ha) d hd hhas

theorem cut_passes_sharedStore : UniqueBlobs (collectBlobFiles
    ([(4, 1), (2, 1)].foldl (cutPass fun _ => some ⟨0, some zeroDigest, none, []⟩) sharedStore)) :=
  (cut_passes_keep_live_results uniqueBlobs_sharedStore _).1

end OnceBuild.Cas
