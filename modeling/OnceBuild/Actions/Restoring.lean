import OnceBuild.Actions.ActionsState

/-!
# What restoring leaves on disk

Every available output promises a content to the paths at and below it, up to the next available
output below.  A restoration is tidy when it neither puts an output over another one that stays as
it is, nor a final result before the intermediate one that contains it.  After a tidy restoration
each output that counts as being on disk is there, and all promises are as before.
-/

namespace OnceBuild.Actions

open Lib List PendingResults
open Cas (Digest)

/-- The path and digest of every output that the results hold. -/
def entriesOf (results : List Outputs) : List (Path × Digest) := results.flatMap Outputs.entries

variable {entry : Path × Digest}

lemma entriesOf_retain (results : List Outputs) (keep : Path → Bool) :
    entriesOf ((results.map fun result => result.retain keep).filter fun result =>
      !result.isEmpty) = (entriesOf results).filter fun entry => keep entry.1 := by
  induction results with
  | nil => rfl
  | cons result results ih =>
    have hcons : entriesOf (result :: results) = result.entries ++ entriesOf results := rfl
    rw [hcons, filter_append, ← ih, map_cons, filter_cons]
    split
    case isTrue => rfl
    case isFalse hempty =>
      have hnil : (result.retain keep).entries = [] := by
        simpa [Outputs.isEmpty] using hempty
      simp only [Outputs.retain] at hnil
      rw [hnil, nil_append]

def PendingResults.entries (pending : PendingResults) : List (Path × Digest) :=
  entriesOf pending.all

lemma PendingResults.entries_eq (pending : PendingResults) :
    pending.entries = entriesOf pending.restoredAtEnd ++ entriesOf pending.intermediate :=
  flatMap_append

variable {path : Path}

lemma PendingResults.mem_prior {pending : PendingResults} :
    path ∈ pending.prior ↔ ∃ digest, (path, digest) ∈ pending.entries := by
  simp only [prior, mem_sortPaths, entries, mem_flatMap, Outputs.keys, mem_map, entriesOf]
  constructor
  · rintro ⟨result, hresult, entry, hentry, rfl⟩
    exact ⟨entry.2, result, hresult, hentry⟩
  · rintro ⟨digest, result, hresult, hentry⟩
    exact ⟨result, hresult, (path, digest), hentry, rfl⟩

/-! ## The plan -/

variable {digest : Digest} {found : AvailableInput}

section plan

variable {host : PathHost} {pending : PendingResults} {available : AvailableInputs}
  {a : DeclaredAction}

lemma mem_requiredOutputs : path ∈ requiredOutputs available a ↔
      ∃ input ∈ a.inputs, ∃ found, closest available input = some (path, found) := by
  simp only [requiredOutputs, mem_sortPaths, mem_filterMap, Option.map_eq_some_iff, Prod.exists]
  constructor
  · rintro ⟨input, hinput, path', found, hclosest, rfl⟩
    exact ⟨input, hinput, found, hclosest⟩
  · rintro ⟨input, hinput, found, hclosest⟩
    exact ⟨input, hinput, path, found, hclosest, rfl⟩

lemma selected_eq : (restorePlan host pending available a).selected =
      pending.entries.filter fun entry => (restorePlan host pending available a).all ||
        (requiredOutputs available a).any (pathsOverlap entry.1) :=
  entriesOf_retain _ _

/-- A pending output is restored when all are, or when it overlaps a required one. -/
lemma mem_selected :
    entry ∈ (restorePlan host pending available a).selected ↔ entry ∈ pending.entries ∧
      ((restorePlan host pending available a).all = true ∨
        ∃ path ∈ requiredOutputs available a, pathsOverlap entry.1 path = true) := by
  rw [selected_eq, mem_filter, Bool.or_eq_true, any_eq_true]

/-- With an output, the pending outputs above it are selected. -/
lemma selected_of_below {other : Path × Digest}
    (h : entry ∈ (restorePlan host pending available a).selected) (hother : other ∈ pending.entries)
    (habove : other.1 <+: entry.1) : other ∈ (restorePlan host pending available a).selected := by
  obtain ⟨-, hselected⟩ := mem_selected.mp h
  refine mem_selected.mpr ⟨hother, ?_⟩
  rcases hselected with hall | ⟨path, hpath, hoverlap⟩
  · exact .inl hall
  · refine .inr ⟨path, hpath, pathsOverlap_iff.mpr ?_⟩
    rcases pathsOverlap_iff.mp hoverlap with hbelow | habove'
    · exact .inl (habove.trans hbelow)
    · exact prefix_or_prefix_of_prefix habove habove'

lemma mem_replacedInputs {required reusable : List Path}
    (h : (path, digest) ∈ replacedInputs available required reusable) :
    path ∈ required ∧ ∃ found, available path = some found ∧ found.materialized = false ∧
        digest = found.blobDigest := by
  obtain ⟨path', hpath', hentry⟩ := mem_filterMap.mp h
  split at hentry
  case h_2 => cases hentry
  case h_1 found hfound =>
    split at hentry
    case isTrue => cases hentry
    case isFalse hunmaterialized =>
      cases hentry
      exact ⟨(mem_filter.mp hpath').1, found, hfound, by simpa using hunmaterialized, rfl⟩

lemma mem_replaced (h : (path, digest) ∈ (restorePlan host pending available a).replaced) :
    path ∈ requiredOutputs available a ∧
      ∃ found, available path = some found ∧ found.materialized = false ∧
        digest = found.blobDigest :=
  mem_replacedInputs h

/-- A required output that is not on disk is replaced, or is a pending one that overlaps no other
and has the digest asked for. -/
lemma replaced_or_reusable (hrequired : path ∈ requiredOutputs available a)
    (hfound : available path = some found) (hunmaterialized : found.materialized = false) :
    (path, found.blobDigest) ∈ (restorePlan host pending available a).replaced ∨
      ((∃ digest, (path, digest) ∈ pending.entries) ∧
        ∀ entry ∈ pending.entries, pathsOverlap entry.1 path = true → entry.1 = path) := by
  by_cases hreusable : path ∈ if (restorePlan host pending available a).all then []
      else reusableInputs host pending available (requiredOutputs available a)
  · right
    split at hreusable
    case isTrue => cases hreusable
    case isFalse =>
      obtain ⟨-, hprior, halone⟩ := independentMembers_spec hreusable
      refine ⟨mem_prior.mp hprior, fun entry hentry hoverlap => ?_⟩
      exact halone entry.1 (mem_prior.mpr ⟨entry.2, hentry⟩) hoverlap
  · left
    have hkept : (!contains (if (restorePlan host pending available a).all then []
        else reusableInputs host pending available (requiredOutputs available a)) path) = true := by
      rw [Bool.not_eq_true', ← Bool.not_eq_true, contains_iff_mem]
      exact hreusable
    refine mem_filterMap.mpr ⟨path, mem_filter.mpr ⟨hrequired, hkept⟩, ?_⟩
    simp only [hfound, hunmaterialized, Bool.false_eq_true, if_false]

lemma parentFirst_replaced : ParentFirst (restorePlan host pending available a).replaced := by
  refine parentFirst_of_sorted (pairwise_filterMap.mpr ?_)
  refine ((sorted_sortPaths _).filter _).imp ?_
  intro p q hlt entry hentry other hother
  -- an entry made for a path has that path
  have hp : entry ∈ replacedInputs available [p] [] := mem_filterMap.mpr ⟨p, by simp, hentry⟩
  have hq : other ∈ replacedInputs available [q] [] := mem_filterMap.mpr ⟨q, by simp, hother⟩
  rw [mem_singleton.mp (mem_replacedInputs hp).1, mem_singleton.mp (mem_replacedInputs hq).1]
  exact hlt

lemma not_conflicting_of_not_all (hall : (restorePlan host pending available a).all = false)
    (hentry : entry ∈ pending.entries) (hpath : .replaced path ∈ a.touchedPaths) :
    pathsOverlap entry.1 path = false := by
  have hdisjoint : disjointPaths host pending.prior (mutations host pending.prior a) = true := by
    by_contra hnot
    have : (restorePlan host pending available a).all = true := by
      simp only [restorePlan, restoresAll, Bool.or_eq_true, Bool.not_eq_true']
      exact .inl (.inr (by simpa using hnot))
    rw [hall] at this
    cases this
  exact not_overlap_of_disjoint hdisjoint (mem_prior.mpr ⟨entry.2, hentry⟩)
    (mem_filterMap.mpr ⟨_, hpath, rfl⟩)

lemma mem_restoration_paths : path ∈ (restorePlan host pending available a).restoration.paths ↔
      (∃ digest, (path, digest) ∈ (restorePlan host pending available a).replaced) ∨
      ((∃ digest, (path, digest) ∈ (restorePlan host pending available a).selected) ∧
        ∀ entry ∈ (restorePlan host pending available a).replaced,
          entry.1 <+: path → entry.1 = path) := by
  simp only [RestorePlan.restoration, mem_append, mem_filter, mem_map, Prod.exists,
    exists_and_right, exists_eq_right, Bool.not_eq_true', any_eq_false, Bool.and_eq_true,
    isPrefixOf_iff_prefix, beq_iff_eq, not_and, Bool.not_eq_false]
  constructor
  · rintro (⟨hselected, hnone⟩ | hreplaced)
    · exact .inr ⟨hselected, hnone⟩
    · exact .inl hreplaced
  · rintro (hreplaced | ⟨hselected, hnone⟩)
    · exact .inr hreplaced
    · exact .inl ⟨hselected, hnone⟩

end plan

/-! ## Tidy restorations -/

/-- Pending outputs are the outputs of the target that are not on disk, and with one of them
everything available below it. -/
structure PendingOk (available : AvailableInputs) (pending : PendingResults) : Prop where
  root : available [] = none
  listed : ∀ entry ∈ pending.entries, available entry.1 = some ⟨entry.2, true, false⟩
  kept : ∀ path found, available path = some found → found.sameTarget = true →
    found.materialized = false → ∃ digest, (path, digest) ∈ pending.entries
  nested : ∀ entry ∈ pending.entries, ∀ path found, available path = some found →
    entry.1 <+: path → ∃ digest, (path, digest) ∈ pending.entries
  finalOrder : ParentFirst (entriesOf pending.restoredAtEnd)
  intermediateOrder : ParentFirst (entriesOf pending.intermediate)
  apart : ∀ entry ∈ entriesOf pending.restoredAtEnd, ∀ other ∈ entriesOf pending.intermediate,
    entry.1 ≠ other.1

/-- With an output that is put on disk again everything available below it is put there again, and
no intermediate output is put over a final one that is not put there again, as the order of
`PendingResults::all` would have it. -/
structure Tidy (host : PathHost) (pending : PendingResults) (available : AvailableInputs)
    (a : DeclaredAction) : Prop where
  closed : ∀ entry ∈ (restorePlan host pending available a).replaced, ∀ path found,
    available path = some found → entry.1 <+: path →
    ∃ digest, (path, digest) ∈ (restorePlan host pending available a).replaced
  ordered : ∀ entry ∈ entriesOf pending.intermediate, ∀ other ∈ entriesOf pending.restoredAtEnd,
    entry ∈ (restorePlan host pending available a).selected →
    other ∈ (restorePlan host pending available a).selected → entry.1 <+: other.1 →
    ∃ digest, (other.1, digest) ∈ (restorePlan host pending available a).replaced

section tidy

variable {host : PathHost} {pending : PendingResults} {available : AvailableInputs}
  {a : DeclaredAction} {C : Type} {blob : Digest → Disk C}

lemma Tidy.restored_of_selected (htidy : Tidy host pending available a)
    (hok : PendingOk available pending)
    (h : (path, digest) ∈ (restorePlan host pending available a).selected) :
    path ∈ (restorePlan host pending available a).restoration.paths := by
  rw [mem_restoration_paths]
  by_cases hover : ∃ entry ∈ (restorePlan host pending available a).replaced, entry.1 <+: path
  · obtain ⟨entry, hentry, habove⟩ := hover
    exact .inl (htidy.closed entry hentry path _ (hok.listed _ (mem_selected.mp h).1) habove)
  · exact .inr ⟨⟨digest, h⟩, fun entry hentry habove => absurd ⟨entry, hentry, habove⟩ hover⟩

lemma replaced_or_selected
    (hready : path ∈ (restorePlan host pending available a).restoration.ready)
    (hfound : available path = some found) (hunmaterialized : found.materialized = false) :
    (∃ digest, (path, digest) ∈ (restorePlan host pending available a).replaced) ∨
      ∃ digest, (path, digest) ∈ (restorePlan host pending available a).selected := by
  rcases mem_append.mp hready with hpaths | hrequired
  · rcases mem_restoration_paths.mp hpaths with hreplaced | ⟨hselected, -⟩
    · exact .inl hreplaced
    · exact .inr hselected
  · rcases replaced_or_reusable hrequired hfound hunmaterialized with
      hreplaced | ⟨⟨digest, hpending⟩, -⟩
    · exact .inl ⟨_, hreplaced⟩
    · exact .inr ⟨digest, mem_selected.mpr ⟨hpending, .inr ⟨path, hrequired,
        pathsOverlap_iff.mpr (.inl (prefix_refl _))⟩⟩⟩

lemma Tidy.restored_of_ready (htidy : Tidy host pending available a)
    (hok : PendingOk available pending)
    (hready : path ∈ (restorePlan host pending available a).restoration.ready)
    (hfound : available path = some found) (hunmaterialized : found.materialized = false) :
    path ∈ (restorePlan host pending available a).restoration.paths := by
  rcases replaced_or_selected hready hfound hunmaterialized with hreplaced | ⟨digest, hselected⟩
  · exact mem_restoration_paths.mpr (.inl hreplaced)
  · exact htidy.restored_of_selected hok hselected

lemma available_of_written (hok : PendingOk available pending)
    (h : entry ∈ (restorePlan host pending available a).selected ∨
      entry ∈ (restorePlan host pending available a).replaced) :
    ∃ found, available entry.1 = some found ∧ found.materialized = false ∧
      found.blobDigest = entry.2 := by
  rcases h with hselected | hreplaced
  · exact ⟨_, hok.listed entry (mem_selected.mp hselected).1, rfl, rfl⟩
  · obtain ⟨-, found, hfound, hunmaterialized, hdigest⟩ := mem_replaced hreplaced
    exact ⟨found, hfound, hunmaterialized, hdigest.symm⟩

lemma ne_nil_of_available (hok : PendingOk available pending) (h : available path = some found) :
    path ≠ [] := by
  rintro rfl
  rw [hok.root] at h
  cases h

variable {z : Path}

/-- A write above a place is at or above the output closest to it. -/
lemma written_above_closest (hok : PendingOk available pending)
    (h : entry ∈ (restorePlan host pending available a).selected ∨
      entry ∈ (restorePlan host pending available a).replaced) (hz : entry.1 <+: z) :
    ∃ path found, closest available z = some (path, found) ∧ entry.1 <+: path := by
  obtain ⟨found, hfound, -, -⟩ := available_of_written hok h
  have hne := ne_nil_of_available hok hfound
  cases hclosest : closest available z with
  | none =>
    rw [closest_eq_none hclosest hne hz] at hfound
    cases hfound
  | some best =>
    obtain ⟨path, best⟩ := best
    obtain ⟨-, -, -, hlongest⟩ := closest_eq_some hclosest
    exact ⟨path, best, rfl, hlongest entry.1 hne hz (by rw [hfound]; rfl)⟩

section

variable (htidy : Tidy host pending available a)
include htidy

section

variable (hok : PendingOk available pending)
include hok

lemma Tidy.writeAll_selected (hclosest : closest available z = some (path, found))
    (hselected : (path, digest) ∈ (restorePlan host pending available a).selected)
    (hkept : ∀ digest, (path, digest) ∉ (restorePlan host pending available a).replaced)
    (disk : Disk C) :
    writeAll blob (restorePlan host pending available a).selected disk z =
      blob digest (z.drop path.length) := by
  obtain ⟨hz, -, -, -⟩ := closest_eq_some hclosest
  have habove : ∀ entry ∈ (restorePlan host pending available a).selected, entry.1 <+: z →
      entry.1 <+: path := by
    intro entry hentry hez
    obtain ⟨path', found', hclosest', hle⟩ := written_above_closest hok (.inl hentry) hez
    rw [hclosest] at hclosest'
    cases hclosest'
    exact hle
  rw [selected_eq, entries_eq, filter_append] at habove hselected ⊢
  rcases mem_append.mp hselected with hfinal | hintermediate
  · -- the final results come first, so the intermediate ones must not be above
    rw [writeAll_append, writeAll_elsewhere]
    · exact (hok.finalOrder.filter _).writeAll_longest blob hfinal hz
        (fun w hw hwz => habove w (mem_append_left _ hw) hwz) disk
    · intro entry hentry hez
      have hle := habove entry (mem_append_right _ hentry) hez
      have hin : entry ∈ (restorePlan host pending available a).selected := by
        rw [selected_eq, entries_eq, filter_append]
        exact mem_append_right _ hentry
      have hpin : (path, digest) ∈ (restorePlan host pending available a).selected := by
        rw [selected_eq, entries_eq, filter_append]
        exact mem_append_left _ hfinal
      obtain ⟨again, hagain⟩ := htidy.ordered entry (mem_filter.mp hentry).1 (path, digest)
        (mem_filter.mp hfinal).1 hin hpin hle
      exact hkept again hagain
  · rw [writeAll_append]
    exact (hok.intermediateOrder.filter _).writeAll_longest blob hintermediate hz
      (fun w hw hwz => habove w (mem_append_right _ hw) hwz) _

/-- A place whose closest output is on disk, or that has none, is left alone. -/
lemma Tidy.restoreWith_elsewhere
    (hplace : ∀ path found, closest available z = some (path, found) → found.materialized = true)
    (disk : Disk C) : (restoreWith host blob pending available a disk).1 z = disk z := by
  -- a write above the place is above its closest output, which then is not on disk either
  have hnone : ∀ entry : Path × Digest, entry ∈ (restorePlan host pending available a).selected ∨
        entry ∈ (restorePlan host pending available a).replaced → ¬ entry.1 <+: z := by
    intro entry hentry hz
    obtain ⟨path, found, hclosest, hle⟩ := written_above_closest hok hentry hz
    obtain ⟨-, -, hfound, -⟩ := closest_eq_some hclosest
    have hmaterialized := hplace path found hclosest
    rcases hentry with hselected | hreplaced
    · obtain ⟨digest, hpending⟩ :=
        hok.nested entry (mem_selected.mp hselected).1 path found hfound hle
      rw [hok.listed _ hpending] at hfound
      cases hfound
      cases hmaterialized
    · obtain ⟨digest, hagain⟩ := htidy.closed entry hreplaced path found hfound hle
      obtain ⟨-, found', hfound', hunmaterialized, -⟩ := mem_replaced hagain
      rw [hfound] at hfound'
      cases hfound'
      rw [hmaterialized] at hunmaterialized
      cases hunmaterialized
  unfold restoreWith
  dsimp only
  rw [writeAll_elsewhere blob fun entry hentry => hnone entry (.inr hentry),
    writeAll_elsewhere blob fun entry hentry => hnone entry (.inl hentry)]

/-- Below an output made ready, the disk holds the content of its blob. -/
lemma Tidy.restoreWith_ready (hclosest : closest available z = some (path, found))
    (hunmaterialized : found.materialized = false)
    (hready : path ∈ (restorePlan host pending available a).restoration.ready) (disk : Disk C) :
    (restoreWith host blob pending available a disk).1 z =
      blob found.blobDigest (z.drop path.length) := by
  obtain ⟨hz, -, hfound, -⟩ := closest_eq_some hclosest
  have habove : ∀ entry ∈ (restorePlan host pending available a).replaced, entry.1 <+: z →
      entry.1 <+: path := by
    intro entry hentry hez
    obtain ⟨path', found', hclosest', hle⟩ := written_above_closest hok (.inr hentry) hez
    rw [hclosest] at hclosest'
    cases hclosest'
    exact hle
  unfold restoreWith
  dsimp only
  by_cases hreplaced : ∃ digest, (path, digest) ∈ (restorePlan host pending available a).replaced
  · obtain ⟨digest, hreplaced⟩ := hreplaced
    obtain ⟨-, found', hfound', -, hdigest⟩ := mem_replaced hreplaced
    rw [hfound] at hfound'
    cases hfound'
    rw [parentFirst_replaced.writeAll_longest blob hreplaced hz habove, hdigest]
  · obtain ⟨digest, hselected⟩ :=
      (replaced_or_selected hready hfound hunmaterialized).resolve_left hreplaced
    rw [writeAll_elsewhere blob fun entry hentry hez => hreplaced
      (htidy.closed entry hentry path found hfound (habove entry hentry hez))]
    rw [htidy.writeAll_selected hok hclosest hselected fun digest h => hreplaced ⟨digest, h⟩]
    have hlisted := hok.listed _ (mem_selected.mp hselected).1
    rw [hfound] at hlisted
    cases hlisted
    rfl

end

end

/-! ## Promises -/

/-- The content that the available outputs promise to a place. -/
def promised (blob : Digest → Disk C) (available : AvailableInputs) (disk : Disk C) : Disk C :=
  fun z =>
    match closest available z with
    | some (path, found) =>
      if found.materialized then disk z else blob found.blobDigest (z.drop path.length)
    | none => disk z

variable {disk : Disk C}

lemma promised_of_none (h : closest available z = none) :
    promised blob available disk z = disk z := by
  simp only [promised, h]

lemma promised_of_some (h : closest available z = some (path, found)) :
    promised blob available disk z =
      if found.materialized then disk z else blob found.blobDigest (z.drop path.length) := by
  simp only [promised, h]

lemma promised_eq_disk
    (h : ∀ path found, closest available z = some (path, found) → found.materialized = true) :
    promised blob available disk z = disk z := by
  cases hclosest : closest available z with
  | none => exact promised_of_none hclosest
  | some best => rw [promised_of_some hclosest, if_pos (h best.1 best.2 hclosest)]

lemma closest_markAvailable (available : AvailableInputs) (ready : List Path) (z : Path) :
    closest (markAvailable available ready) z =
      (closest available z).map fun found => (found.1, markInput ready found.1 found.2) :=
  closest_map available _ z

variable {ready : List Path}

lemma markInput_of_mem (h : path ∈ ready) (input : AvailableInput) :
    markInput ready path input = { input with materialized := true } :=
  if_pos (contains_iff_mem.mpr h)

lemma markInput_of_notMem (h : path ∉ ready) (input : AvailableInput) :
    markInput ready path input = input :=
  if_neg fun hmem => h (contains_iff_mem.mp hmem)

lemma markInput_materialized {input : AvailableInput} (h : input.materialized = true) :
    markInput ready path input = input := by
  unfold markInput
  split
  · rw [← h]
  · rfl

lemma Tidy.promised_eq (htidy : Tidy host pending available a)
    (hok : PendingOk available pending) (disk : Disk C) :
    promised blob (markAvailable available
        (restorePlan host pending available a).restoration.ready)
      (restoreWith host blob pending available a disk).1 = promised blob available disk := by
  funext z
  have hmarked := closest_markAvailable available
    (restorePlan host pending available a).restoration.ready z
  cases hclosest : closest available z with
  | none =>
    rw [hclosest] at hmarked
    rw [promised_of_none hmarked, promised_of_none hclosest]
    exact htidy.restoreWith_elsewhere hok (fun _ _ h => by rw [hclosest] at h; cases h) disk
  | some best =>
    obtain ⟨path, found⟩ := best
    rw [hclosest] at hmarked
    rw [promised_of_some hmarked, promised_of_some hclosest]
    cases hmaterialized : found.materialized with
    | true =>
      rw [markInput_materialized hmaterialized, hmaterialized]
      refine htidy.restoreWith_elsewhere hok (fun path' found' h => ?_) disk
      rw [hclosest] at h
      cases h
      exact hmaterialized
    | false =>
      by_cases hready : path ∈ (restorePlan host pending available a).restoration.ready
      · rw [markInput_of_mem hready]
        exact htidy.restoreWith_ready hok hclosest hmaterialized hready disk
      · rw [markInput_of_notMem hready, hmaterialized]
        rfl

/-! ## After the restoration -/

lemma available_of_marked (h : markAvailable available ready path = some found) :
    ∃ before, available path = some before ∧ found = markInput ready path before := by
  obtain ⟨before, hbefore, rfl⟩ := Option.map_eq_some_iff.mp h
  exact ⟨before, hbefore, rfl⟩

lemma notMem_of_marked {before : AvailableInput}
    (h : (markInput ready path before).materialized = false) :
    path ∉ ready ∧ before.materialized = false := by
  by_cases hmem : path ∈ ready
  · rw [markInput_of_mem hmem] at h
    cases h
  · rw [markInput_of_notMem hmem] at h
    exact ⟨hmem, h⟩

lemma markInput_sameTarget (ready : List Path) (path : Path) (input : AvailableInput) :
    (markInput ready path input).sameTarget = input.sameTarget := by
  unfold markInput
  split <;> rfl

end tidy

section marked

variable {h : PathHost} {st : DeclaredActionsState} {a : DeclaredAction} {restored : Restoration}

lemma entriesOf_cachedResults_marked : entriesOf (st.markRestored restored).cachedResults =
      (entriesOf st.cachedResults).filter fun entry => !restored.paths.contains entry.1 :=
  entriesOf_retain _ _

lemma entriesOf_pendingIntermediate_marked :
    entriesOf (st.markRestored restored).pendingIntermediate =
      (entriesOf st.pendingIntermediate).filter fun entry => !restored.paths.contains entry.1 :=
  entriesOf_retain _ _

lemma mem_pending_marked : entry ∈ (st.markRestored restored).pending.entries ↔
      entry ∈ st.pending.entries ∧ entry.1 ∉ restored.paths := by
  have hkeep : (!restored.paths.contains entry.1) = true ↔ entry.1 ∉ restored.paths := by
    rw [Bool.not_eq_true', ← Bool.not_eq_true, contains_iff_mem]
  rw [entries_eq, entries_eq]
  simp only [DeclaredActionsState.pending, entriesOf_cachedResults_marked,
    entriesOf_pendingIntermediate_marked, mem_append, mem_filter, hkeep]
  tauto

lemma Tidy.pendingOk (htidy : Tidy h st.pending st.availableInputs a)
    (hok : PendingOk st.availableInputs st.pending)
    (hrestored : restored = (restorePlan h st.pending st.availableInputs a).restoration) :
    PendingOk (st.markRestored restored).availableInputs (st.markRestored restored).pending := by
  subst hrestored
  refine ⟨?_, ?_, ?_, ?_, ?_, ?_, ?_⟩
  · exact congrArg (Option.map _) hok.root
  · intro entry hentry
    obtain ⟨hpending, hnot⟩ := mem_pending_marked.mp hentry
    have hlisted := hok.listed entry hpending
    have hready : entry.1 ∉ (restorePlan h st.pending st.availableInputs a).restoration.ready :=
      fun hready => hnot (htidy.restored_of_ready hok hready hlisted rfl)
    have hmark : (st.markRestored (restorePlan h st.pending st.availableInputs
        a).restoration).availableInputs entry.1 = (st.availableInputs entry.1).map _ := rfl
    rw [hmark, hlisted, Option.map_some, markInput_of_notMem hready]
  · intro path found hfound hown hunmaterialized
    obtain ⟨before, hbefore, rfl⟩ := available_of_marked hfound
    obtain ⟨hready, hunmaterialized⟩ := notMem_of_marked hunmaterialized
    rw [markInput_sameTarget] at hown
    obtain ⟨digest, hpending⟩ := hok.kept path before hbefore hown hunmaterialized
    exact ⟨digest, mem_pending_marked.mpr
      ⟨hpending, fun hpaths => hready (mem_append_left _ hpaths)⟩⟩
  · intro entry hentry path found hfound hle
    obtain ⟨hpending, hnot⟩ := mem_pending_marked.mp hentry
    obtain ⟨before, hbefore, -⟩ := available_of_marked hfound
    obtain ⟨digest, hbelow⟩ := hok.nested entry hpending path before hbefore hle
    refine ⟨digest, mem_pending_marked.mpr ⟨hbelow, fun hpaths => hnot ?_⟩⟩
    -- what is restored takes along everything pending above it
    have hselected : entry ∈ (restorePlan h st.pending st.availableInputs a).selected := by
      rcases mem_restoration_paths.mp hpaths with ⟨again, hreplaced⟩ | ⟨⟨again, hselected⟩, -⟩
      · exact mem_selected.mpr ⟨hpending, .inr ⟨path, (mem_replaced hreplaced).1,
          pathsOverlap_iff.mpr (.inl hle)⟩⟩
      · exact selected_of_below hselected hpending hle
    exact htidy.restored_of_selected hok hselected
  · exact entriesOf_cachedResults_marked ▸ hok.finalOrder.filter _
  · exact entriesOf_pendingIntermediate_marked ▸ hok.intermediateOrder.filter _
  · intro entry hentry other hother
    simp only [DeclaredActionsState.pending, entriesOf_cachedResults_marked] at hentry
    simp only [DeclaredActionsState.pending, entriesOf_pendingIntermediate_marked] at hother
    exact hok.apart entry (mem_filter.mp hentry).1 other (mem_filter.mp hother).1

lemma Tidy.clear (htidy : Tidy h st.pending st.availableInputs a)
    (hok : PendingOk st.availableInputs st.pending)
    (hrestored : restored = (restorePlan h st.pending st.availableInputs a).restoration)
    (hentry : entry ∈ (st.markRestored restored).pending.entries) {output : Path}
    (houtput : output ∈ a.outputs) : pathsOverlap entry.1 output = false := by
  subst hrestored
  obtain ⟨hpending, hnot⟩ := mem_pending_marked.mp hentry
  cases hall : (restorePlan h st.pending st.availableInputs a).all with
  | true =>
    have hselected : entry ∈ (restorePlan h st.pending st.availableInputs a).selected :=
      mem_selected.mpr ⟨hpending, .inl hall⟩
    exact absurd (htidy.restored_of_selected hok hselected) hnot
  | false =>
    refine not_conflicting_of_not_all hall hpending ?_
    simp only [DeclaredAction.touchedPaths, DeclaredAction.writes, mem_append, mem_map]
    exact .inl (.inl ⟨output, .inl (.inl (.inl (.inl houtput))), rfl⟩)

end marked

end OnceBuild.Actions
