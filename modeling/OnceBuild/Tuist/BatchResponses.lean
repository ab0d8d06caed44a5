import Mathlib.Data.List.Perm.Subperm
import OnceBuild.Tuist.Client

/-!
# The responses of a batch read

A server answers a batch read with the blobs in any order.  They are put into a map by their digests
and taken out in the order of the request.
-/

namespace OnceBuild.Tuist

open List Lib

variable {B : Type}

/-- `batch_read_blobs_response::Response`: `body` is its data, compressor and status. -/
structure BlobResponse (B : Type) where
  digest : Option RemoteDigest
  body : B

def batchError (message : String) : CacheError := .remoteFailure "get blobs" .protocol message

def keyed (blob : BlobResponse B) : Except CacheError (RemoteDigest × BlobResponse B) :=
  match blob.digest with
  | none => .error (batchError "missing response digest")
  | some digest => .ok (digest, blob)

/-- `HashMap::remove` for each digest in turn. -/
def takeAll (indexed : List (RemoteDigest × BlobResponse B)) :
    List RemoteDigest → Except CacheError (List (BlobResponse B))
  | [] => .ok []
  | digest :: digests =>
    match indexed.lookup digest with
    | none => .error (batchError "unexpected batch response digest")
    | some blob => do
      let rest ← takeAll (indexed.filter fun entry => decide (entry.1 ≠ digest)) digests
      .ok (blob :: rest)

def orderedResponses (responses : List (BlobResponse B)) (digests : List RemoteDigest) :
    Except CacheError (List (BlobResponse B)) := do
  let entries ← responses.mapM keyed
  let indexed := latest entries
  if responses.length ≠ digests.length ∨ indexed.length ≠ responses.length then
    .error (batchError "missing or duplicate batch response")
  else takeAll indexed digests

variable {responses result : List (BlobResponse B)} {digests : List RemoteDigest}
  {indexed : List (RemoteDigest × BlobResponse B)}

/-- Entries under the digests that the responses carry. -/
def Keyed (indexed : List (RemoteDigest × BlobResponse B)) : Prop :=
  ∀ entry ∈ indexed, entry.2.digest = some entry.1

lemma keyed_eq_ok {blob : BlobResponse B} {entry : RemoteDigest × BlobResponse B} :
    keyed blob = .ok entry ↔ blob.digest = some entry.1 ∧ entry.2 = blob := by
  obtain ⟨digest, other⟩ := entry
  unfold keyed
  cases blob.digest <;> simp [eq_comm]

lemma mapM_keyed_eq_ok :
    responses.mapM keyed = .ok indexed ↔ Keyed indexed ∧ indexed.map Prod.snd = responses := by
  induction responses generalizing indexed with
  | nil => cases indexed <;> simp [Keyed, pure, Except.pure]
  | cons blob responses ih =>
    simp only [mapM_cons, bind_eq_ok, keyed_eq_ok, ih]
    constructor
    · rintro ⟨entry, ⟨hdigest, rfl⟩, rest, ⟨hkeyed, rfl⟩, hcons⟩
      cases hcons
      exact ⟨forall_mem_cons.mpr ⟨hdigest, hkeyed⟩, rfl⟩
    · rintro ⟨hkeyed, hblobs⟩
      obtain ⟨entry, rest, rfl⟩ : ∃ entry rest, indexed = entry :: rest :=
        exists_cons_of_ne_nil (by rintro rfl; cases hblobs)
      obtain ⟨rfl, rfl⟩ := List.cons.inj hblobs
      obtain ⟨hdigest, hkeyed⟩ := forall_mem_cons.mp hkeyed
      exact ⟨entry, ⟨hdigest, rfl⟩, rest, ⟨hkeyed, rfl⟩, rfl⟩

lemma Keyed.map_digest (h : Keyed indexed) :
    (indexed.map Prod.snd).map BlobResponse.digest = (indexed.map Prod.fst).map some := by
  rw [map_map, map_map]
  exact map_congr_left h

lemma takeAll_spec (hkeyed : Keyed indexed) (h : takeAll indexed digests = .ok result) :
    digests ⊆ indexed.map Prod.fst ∧ result.map BlobResponse.digest = digests.map some ∧
      result ⊆ indexed.map Prod.snd := by
  induction digests generalizing indexed result with
  | nil =>
    cases h
    simp
  | cons digest digests ih =>
    unfold takeAll at h
    split at h
    case h_1 => cases h
    case h_2 blob hlookup =>
      obtain ⟨rest, hrest, hresult⟩ := bind_eq_ok.mp h
      cases hresult
      have hblob := mem_of_lookup hlookup
      have hsub : indexed.filter (fun entry => decide (entry.1 ≠ digest)) ⊆ indexed :=
        filter_subset_self _
      obtain ⟨hdigests, hmap, hfrom⟩ := ih (fun entry he => hkeyed entry (hsub he)) hrest
      refine ⟨cons_subset.mpr ⟨mem_map_of_mem hblob, fun _ h => map_subset _ hsub (hdigests h)⟩, ?_,
        cons_subset.mpr ⟨mem_map_of_mem hblob, fun _ h => map_subset _ hsub (hfrom h)⟩⟩
      rw [map_cons, map_cons, hmap, hkeyed _ hblob]

lemma exists_takeAll (hnodup : digests.Nodup) (h : digests ⊆ indexed.map Prod.fst) :
    ∃ result, takeAll indexed digests = .ok result := by
  induction digests generalizing indexed with
  | nil => exact ⟨[], rfl⟩
  | cons digest digests ih =>
    obtain ⟨hdigest, hdigests⟩ := cons_subset.mp h
    obtain ⟨hnew, hnodup⟩ := nodup_cons.mp hnodup
    unfold takeAll
    cases hlookup : indexed.lookup digest with
    | none =>
      obtain ⟨entry, hentry, rfl⟩ := mem_map.mp hdigest
      exact absurd (lookup_eq_none_iff.mp hlookup entry hentry) (by simp)
    | some blob =>
      -- the digests that follow are others, so they are still in the map
      obtain ⟨rest, hrest⟩ := ih hnodup fun other hother => by
        obtain ⟨entry, hentry, rfl⟩ := mem_map.mp (hdigests hother)
        have hne : entry.1 ≠ digest := fun heq => hnew (heq ▸ hother)
        exact mem_map_of_mem (mem_filter.mpr ⟨hentry, decide_eq_true hne⟩)
      exact ⟨blob :: rest, bind_eq_ok.mpr ⟨rest, hrest, rfl⟩⟩

/-- The size checks let a response through when its digests do not repeat and are as many as were
asked for. -/
lemma orderedResponses_eq_ok : orderedResponses responses digests = .ok result ↔
      ∃ indexed, (Keyed indexed ∧ indexed.map Prod.snd = responses) ∧
        (indexed.map Prod.fst).Nodup ∧ indexed.length = digests.length ∧
        takeAll indexed digests = .ok result := by
  unfold orderedResponses
  simp only [bind_eq_ok, mapM_keyed_eq_ok]
  refine exists_congr fun indexed => and_congr_right fun hindexed => ?_
  have hlength : responses.length = indexed.length := by rw [← hindexed.2, length_map]
  rw [hlength]
  constructor
  · intro h
    split at h
    case isTrue => cases h
    case isFalse hsizes =>
      simp only [not_or, not_not] at hsizes
      have hsame : latest indexed = indexed := (latest_sublist indexed).eq_of_length hsizes.2
      rw [hsame] at h
      exact ⟨hsame ▸ nodup_latest indexed, hsizes.1, h⟩
  · rintro ⟨hnodup, hcount, h⟩
    rw [latest_of_nodup hnodup, if_neg (by simp [hcount])]
    exact h

/-- A batch response is accepted when it carries each requested digest once and no other, and the
blobs then come in the order of the request. -/
theorem orderedResponses_exact (responses : List (BlobResponse B)) (hnodup : digests.Nodup) :
    ((∃ result, orderedResponses responses digests = .ok result) ↔
      (responses.map BlobResponse.digest).Perm (digests.map some)) ∧
    ∀ result, orderedResponses responses digests = .ok result →
      result.map BlobResponse.digest = digests.map some ∧ result ⊆ responses := by
  simp only [orderedResponses_eq_ok]
  refine ⟨⟨?_, fun hperm => ?_⟩, ?_⟩
  · rintro ⟨result, indexed, ⟨hkeyed, rfl⟩, -, hcount, htake⟩
    have hsub := (takeAll_spec hkeyed htake).1
    rw [hkeyed.map_digest]
    refine List.Perm.map _ (.symm ?_)
    exact (subperm_of_subset hnodup hsub).perm_of_length_le (by rw [length_map, hcount])
  · -- each response carries a digest
    obtain ⟨indexed, hindexed, -⟩ := mapM_eq_ok (Q := fun _ => True) (f := keyed) (l := responses)
      fun blob hblob => by
        obtain ⟨digest, -, hdigest⟩ := mem_map.mp (hperm.subset (mem_map_of_mem hblob))
        exact ⟨(digest, blob), keyed_eq_ok.mpr ⟨hdigest.symm, rfl⟩, trivial⟩
    obtain ⟨hkeyed, rfl⟩ := mapM_keyed_eq_ok.mp hindexed
    rw [hkeyed.map_digest] at hperm
    have hkeys : (indexed.map Prod.fst).Perm digests := by
      simpa using hperm.filterMap id
    obtain ⟨result, hresult⟩ := exists_takeAll hnodup hkeys.symm.subset
    refine ⟨result, indexed, ⟨hkeyed, rfl⟩, hkeys.nodup_iff.mpr hnodup, ?_, hresult⟩
    simpa using hkeys.length_eq
  · rintro result ⟨indexed, ⟨hkeyed, rfl⟩, -, -, htake⟩
    exact (takeAll_spec hkeyed htake).2

/-- Two blobs that come the other way round. -/
theorem orderedResponses_exact_swapped :
    let one : RemoteDigest := ⟨['1'], 0, isI64_zero⟩
    let two : RemoteDigest := ⟨['2'], 0, isI64_zero⟩
    [one, two].Nodup ∧ ∃ result, orderedResponses [⟨some two, ()⟩, ⟨some one, ()⟩] [one, two] =
      .ok result :=
  ⟨by decide, ((orderedResponses_exact _ (by decide)).1).mpr (List.Perm.swap _ _ _)⟩

end OnceBuild.Tuist
