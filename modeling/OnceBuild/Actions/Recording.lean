import OnceBuild.Actions.Restoring

/-!
# Recording outcomes of actions

A recorded outcome replaces what was available below its outputs.  When the disk holds what the
available outputs promise, up to those that are not on disk, then so it does after the outcome of a
hit, which writes nothing, and of a miss, which writes its outputs.
-/

namespace OnceBuild.Actions

open Lib List PendingResults
open Cas (Digest)

variable {C : Type}

/-! ## Outputs -/

variable {path : Path} {digest : Digest}

lemma Outputs.get_eq_some_iff (o : Outputs) :
    o.get path = some digest ↔ (path, digest) ∈ o.entries := by
  constructor
  · exact mem_of_lookup
  · intro hmem
    obtain ⟨before, after, heq⟩ := append_of_mem hmem
    have hsorted := o.sorted
    rw [heq] at hsorted
    have hbefore := (pairwise_append.mp hsorted).2.2
    refine lookup_eq_some_iff.mpr ⟨before, after, heq, fun entry hentry => ?_⟩
    have hlt := hbefore entry hentry (path, digest) mem_cons_self
    simpa using (ne_of_lt hlt).symm

lemma Outputs.get_eq_none_iff (o : Outputs) : o.get path = none ↔ path ∉ o.keys := by
  constructor
  · rintro hnone hmem
    obtain ⟨entry, hentry, rfl⟩ := mem_map.mp hmem
    rw [(o.get_eq_some_iff).mpr hentry] at hnone
    cases hnone
  · intro hnot
    cases hget : o.get path with
    | none => rfl
    | some digest => exact absurd (mem_map.mpr ⟨_, (o.get_eq_some_iff).mp hget, rfl⟩) hnot

lemma mem_keys_outputsAt {paths : List Path} {digest : Path → Digest} :
    path ∈ (outputsAt paths digest).keys ↔ path ∈ paths := by
  simp only [Outputs.keys, mem_map]
  constructor
  · rintro ⟨entry, hentry, rfl⟩
    exact (mem_outputsAt.mp hentry).1
  · intro hpath
    exact ⟨(path, digest path), mem_outputsAt.mpr ⟨hpath, rfl⟩, rfl⟩

lemma outputsAt_congr {paths : List Path} {digest digest' : Path → Digest}
    (h : ∀ path ∈ paths, digest path = digest' path) :
    outputsAt paths digest = outputsAt paths digest' := by
  unfold outputsAt
  congr 1
  refine map_congr_left fun path hpath => ?_
  rw [h path (mem_sortPaths.mp hpath)]

lemma insideOutputs_iff {outputs : Outputs} :
    insideOutputs outputs path = true ↔ ∃ o ∈ outputs.keys, o <+: path ∧ o ≠ path := by
  simp [insideOutputs]

lemma untouched_iff {outputs : Outputs} :
    (!insideOutputs outputs path && !outputs.keys.contains path) = true ↔
      ∀ o ∈ outputs.keys, ¬ o <+: path := by
  simp only [Bool.and_eq_true, Bool.not_eq_true', ← Bool.not_eq_true, insideOutputs_iff,
    contains_iff_mem]
  constructor
  · rintro ⟨hinside, hnot⟩ o ho hle
    by_cases heq : o = path
    · exact hnot (heq ▸ ho)
    · exact hinside ⟨o, ho, hle, heq⟩
  · intro hnone
    exact ⟨fun ⟨o, ho, hle, _⟩ => hnone o ho hle, fun hmem => hnone path hmem (prefix_refl _)⟩

/-! ## Available outputs after an outcome -/

section extend

open DeclaredActionsState (extendAvailable)

variable {available : AvailableInputs} {outcome : ActionOutcome C}

lemma extendAvailable_of_mem (h : (path, digest) ∈ outcome.outputs.entries) :
    extendAvailable available outcome path = some ⟨digest, true, !outcome.hit⟩ := by
  unfold extendAvailable
  rw [(outcome.outputs.get_eq_some_iff).mpr h]

lemma extendAvailable_eq_some {found : AvailableInput}
    (h : extendAvailable available outcome path = some found) :
    (∃ digest, (path, digest) ∈ outcome.outputs.entries ∧ found = ⟨digest, true, !outcome.hit⟩) ∨
    (available path = some found ∧ ∀ o ∈ outcome.outputs.keys, ¬ o <+: path) := by
  unfold extendAvailable at h
  cases hget : outcome.outputs.get path with
  | some digest =>
    rw [hget] at h
    cases h
    exact .inl ⟨digest, (outcome.outputs.get_eq_some_iff).mp hget, rfl⟩
  | none =>
    rw [hget] at h
    simp only [pruneReplacedDescendants] at h
    split at h
    case isTrue => cases h
    case isFalse hinside =>
      refine .inr ⟨h, untouched_iff.mp ?_⟩
      have hnot := (outcome.outputs.get_eq_none_iff).mp hget
      simp only [Bool.and_eq_true, Bool.not_eq_true', ← Bool.not_eq_true, contains_iff_mem]
      exact ⟨hinside, hnot⟩

lemma extendAvailable_elsewhere (h : ∀ o ∈ outcome.outputs.keys, ¬ o <+: path) :
    extendAvailable available outcome path = available path := by
  have hget : outcome.outputs.get path = none :=
    (outcome.outputs.get_eq_none_iff).mpr fun hmem => h path hmem (prefix_refl _)
  have hinside : ¬ insideOutputs outcome.outputs path = true :=
    fun hinside => by
      obtain ⟨o, ho, hle, -⟩ := insideOutputs_iff.mp hinside
      exact h o ho hle
  simp only [extendAvailable, hget, pruneReplacedDescendants, if_neg hinside]

lemma closest_extendAvailable {z : Path} (hmem : (path, digest) ∈ outcome.outputs.entries)
    (hne : path ≠ []) (hz : path <+: z)
    (hlongest : ∀ entry ∈ outcome.outputs.entries, entry.1 <+: z → entry.1 <+: path) :
    closest (extendAvailable available outcome) z = some (path, ⟨digest, true, !outcome.hit⟩) := by
  refine closest_of_longest hz hne (extendAvailable_of_mem hmem) fun q _ hqz hsome => ?_
  obtain ⟨found, hfound⟩ := Option.isSome_iff_exists.mp hsome
  rcases extendAvailable_eq_some hfound with ⟨digest', hentry, -⟩ | ⟨-, hnone⟩
  · exact hlongest _ hentry hqz
  · -- an older output below the path would have been dropped
    rcases prefix_or_prefix_of_prefix hqz hz with hle | hle
    · exact hle
    · exact absurd hle (hnone path (mem_map.mpr ⟨_, hmem, rfl⟩))

lemma closest_extendAvailable_elsewhere {z : Path}
    (h : ∀ o ∈ outcome.outputs.keys, ¬ o <+: z) :
    closest (extendAvailable available outcome) z = closest available z :=
  closest_congr fun _ _ hq =>
    extendAvailable_elsewhere fun o ho hle => h o ho (hle.trans hq)

end extend

/-! ## Pending outputs after an outcome -/

section track

variable {results : List Outputs} {outcome : ActionOutcome C} {policy : CachedResultPolicy}

lemma entriesOf_singleton_or_nil (outputs : Outputs) (added : Bool) :
    entriesOf (if added && !outputs.isEmpty then results ++ [outputs] else results) =
      entriesOf results ++ if added then outputs.entries else [] := by
  cases added with
  | false => simp
  | true =>
    cases hempty : outputs.isEmpty with
    | true =>
      have hnil : outputs.entries = [] := by simpa [Outputs.isEmpty] using hempty
      simp [hnil]
    | false => simp [entriesOf]

lemma entriesOf_track_hit (hhit : outcome.hit = true) (intermediate : Bool) :
    entriesOf (trackCachedResult results outcome policy intermediate) =
      ((entriesOf results).filter fun entry =>
        !insideOutputs outcome.outputs entry.1 && !outcome.outputs.keys.contains entry.1) ++
        if policy.intermediate == intermediate then outcome.outputs.entries else [] := by
  simp only [trackCachedResult, hhit, Bool.not_true, Bool.false_and, Bool.false_eq_true, if_false,
    if_true, Bool.true_and]
  rw [entriesOf_singleton_or_nil, entriesOf_retain]

lemma entriesOf_track_miss (hmiss : outcome.hit = false)
    (hclear : ∀ entry ∈ entriesOf results, (policy.touched.any fun touched =>
      touched.conflictsWith entry.1) = false ∧ ∀ o ∈ outcome.outputs.keys, ¬ o <+: entry.1)
    (hprior : policy.restoresPrior = true → entriesOf results = []) (intermediate : Bool) :
    entriesOf (trackCachedResult results outcome policy intermediate) = entriesOf results := by
  unfold trackCachedResult
  simp only [hmiss, Bool.not_false, Bool.true_and, Bool.false_eq_true, if_false, Bool.false_and]
  split
  case isTrue hrestores =>
    rw [hprior hrestores]
    rfl
  case isFalse =>
    rw [entriesOf_retain]
    have hfirst : entriesOf (results.map fun result => result.retain fun path =>
        !policy.touched.any fun touched => touched.conflictsWith path) = entriesOf results := by
      rw [entriesOf, flatMap_map, entriesOf, flatMap_congr fun result hresult => ?_]
      refine filter_eq_self.mpr fun entry hentry => ?_
      exact congrArg (!·) (hclear entry (mem_flatMap.mpr ⟨result, hresult, hentry⟩)).1
    rw [hfirst]
    exact filter_eq_self.mpr fun entry hentry => untouched_iff.mpr (hclear entry hentry).2

end track

/-! ## Actions that write only their outputs -/

/-- Whatever the action touches lies in one of its outputs, and it creates only directories above
them. -/
structure WritesOutputs (a : DeclaredAction) : Prop where
  nonempty : ∀ o ∈ a.outputs, o ≠ []
  replaced : ∀ path, .replaced path ∈ a.touchedPaths → ∃ o ∈ a.outputs, o <+: path
  created : ∀ path, .created path ∈ a.touchedPaths → ∃ o ∈ a.outputs, path <+: o

variable {a : DeclaredAction}

lemma WritesOutputs.not_conflicting (ha : WritesOutputs a) {pending : Path}
    (h : ∀ o ∈ a.outputs, pathsOverlap pending o = false) :
    (a.touchedPaths.any fun touched => touched.conflictsWith pending) = false := by
  rw [any_eq_false]
  intro touched htouched hconflict
  have hno : ∀ o ∈ a.outputs, ¬ (pending <+: o ∨ o <+: pending) := by
    intro o ho hover
    have := h o ho
    rw [pathsOverlap_iff.mpr hover] at this
    cases this
  cases touched with
  | replaced path =>
    obtain ⟨o, ho, hle⟩ := ha.replaced path htouched
    rcases pathsOverlap_iff.mp hconflict with habove | hbelow
    · exact hno o ho <| prefix_or_prefix_of_prefix habove hle
    · exact hno o ho (.inr (hle.trans hbelow))
  | created path =>
    obtain ⟨o, ho, hle⟩ := ha.created path htouched
    exact hno o ho (.inl (( isPrefixOf_iff_prefix.mp hconflict).trans hle))

lemma WritesOutputs.forget_eq (ha : WritesOutputs a) {produced : Outputs}
    (hkeys : ∀ o ∈ a.outputs, o ∈ produced.keys) (available : AvailableInputs) :
    forgetReplacedMaterializations available a.touchedPaths produced = available := by
  funext path
  unfold forgetReplacedMaterializations
  cases available path with
  | none => rfl
  | some input =>
    split
    case isTrue => rfl
    case isFalse houtside =>
      split
      case isFalse => rfl
      case isTrue htouched =>
        exfalso
        obtain ⟨touched, hmem, hle⟩ := any_eq_true.mp htouched
        cases touched with
        | created created => cases hle
        | replaced replaced =>
          obtain ⟨o, ho, hreplaced⟩ := ha.replaced replaced hmem
          refine houtside (any_eq_true.mpr ⟨o, hkeys o ho, ?_⟩)
          exact isPrefixOf_iff_prefix.mpr
            (hreplaced.trans <| isPrefixOf_iff_prefix.mp hle)

/-! ## The invariant -/

/-- What ties the state of a target to its disk and to the disk of eager execution: it would hold
everything that the available outputs promise.  `recorded` are the outputs of the actions so far. -/
structure DeferralOk (blob : Digest → Disk C) (recorded : List Path) (disk : Disk C)
    (st : DeclaredActionsState) (eager : Disk C) : Prop where
  pending : PendingOk st.availableInputs st.pending
  promised : promised blob st.availableInputs disk = eager
  /-- Below an output of the target everything is its own. -/
  own : ∀ path found below found', st.availableInputs path = some found →
    found.sameTarget = true → st.availableInputs below = some found' → path <+: below →
    found'.sameTarget = true
  covered : ∀ o ∈ recorded, ∃ path found, st.availableInputs path = some found ∧
    found.sameTarget = true ∧ path <+: o
  results : ∀ path, (st.resultOutputs path).isSome = true ↔
    ∃ found, st.availableInputs path = some found ∧ found.sameTarget = true
  intermediates : ∀ entry ∈ entriesOf st.pendingIntermediate, st.intermediateOutputs entry.1 = true

variable {blob : Digest → Disk C} {recorded : List Path} {disk eager : Disk C}
  {st : DeclaredActionsState}

lemma DeferralOk.restore (hok : DeferralOk blob recorded disk st eager) {host : PathHost}
    (htidy : Tidy host st.pending st.availableInputs a) :
    DeferralOk blob recorded (restoreWith host blob st.pending st.availableInputs a disk).1
      (st.markRestored (restoreWith host blob st.pending st.availableInputs a disk).2) eager where
  pending := htidy.pendingOk hok.pending rfl
  promised := (htidy.promised_eq hok.pending disk).trans hok.promised
  own path found below found' hfound hown hbelow hle := by
    obtain ⟨before, hbefore, rfl⟩ := available_of_marked hfound
    obtain ⟨before', hbefore', rfl⟩ := available_of_marked hbelow
    rw [markInput_sameTarget] at hown ⊢
    exact hok.own path before below before' hbefore hown hbefore' hle
  covered o ho := by
    obtain ⟨path, found, hfound, hown, hle⟩ := hok.covered o ho
    exact ⟨path, _, congrArg (Option.map _) hfound, by rw [markInput_sameTarget]; exact hown, hle⟩
  results path := by
    refine (hok.results path).trans ⟨?_, ?_⟩
    · rintro ⟨found, hfound, hown⟩
      exact ⟨_, congrArg (Option.map _) hfound, by rw [markInput_sameTarget]; exact hown⟩
    · rintro ⟨found, hfound, hown⟩
      obtain ⟨before, hbefore, rfl⟩ := available_of_marked hfound
      rw [markInput_sameTarget] at hown
      exact ⟨before, hbefore, hown⟩
  intermediates entry hentry := by
    rw [entriesOf_pendingIntermediate_marked] at hentry
    exact hok.intermediates entry (mem_filter.mp hentry).1

/-- The same state for all that is said here, up to results without outputs. -/
structure SameState (st st' : DeclaredActionsState) : Prop where
  available : st'.availableInputs = st.availableInputs
  cached : entriesOf st'.cachedResults = entriesOf st.cachedResults
  intermediate : entriesOf st'.pendingIntermediate = entriesOf st.pendingIntermediate
  results : st'.resultOutputs = st.resultOutputs
  intermediates : st'.intermediateOutputs = st.intermediateOutputs

lemma SameState.entries {st' : DeclaredActionsState} (h : SameState st st') :
    st'.pending.entries = st.pending.entries := by
  rw [entries_eq, entries_eq]
  exact congrArg₂ (· ++ ·) h.cached h.intermediate

lemma DeferralOk.congr (hok : DeferralOk blob recorded disk st eager) {st' : DeclaredActionsState}
    (h : SameState st st') : DeferralOk blob recorded disk st' eager where
  pending := by
    rw [h.available]
    refine ⟨hok.pending.root, ?_, ?_, ?_, ?_, ?_, ?_⟩
    · rw [h.entries]
      exact hok.pending.listed
    · rw [h.entries]
      exact hok.pending.kept
    · rw [h.entries]
      exact hok.pending.nested
    · exact h.cached ▸ hok.pending.finalOrder
    · exact h.intermediate ▸ hok.pending.intermediateOrder
    · intro entry hentry other hother
      exact hok.pending.apart entry (h.cached ▸ hentry) other (h.intermediate ▸ hother)
  promised := by
    rw [h.available]
    exact hok.promised
  own := by
    rw [h.available]
    exact hok.own
  covered := by
    rw [h.available]
    exact hok.covered
  results := by
    rw [h.available, h.results]
    exact hok.results
  intermediates := by
    rw [h.intermediate, h.intermediates]
    exact hok.intermediates

lemma sameState_markRestored {ready : List Path}
    (h : ∀ path ∈ ready, ∀ found, st.availableInputs path = some found →
      found.materialized = true) : SameState st (st.markRestored ⟨[], ready⟩) where
  available := by
    funext path
    change (st.availableInputs path).map _ = _
    cases hfound : st.availableInputs path with
    | none => rfl
    | some found =>
      rw [Option.map_some]
      by_cases hmem : path ∈ ready
      · rw [markInput_materialized (h path hmem found hfound)]
      · rw [markInput_of_notMem hmem]
  cached := by
    rw [entriesOf_cachedResults_marked]
    exact filter_eq_self.mpr fun _ _ => rfl
  intermediate := by
    rw [entriesOf_pendingIntermediate_marked]
    exact filter_eq_self.mpr fun _ _ => rfl
  results := rfl
  intermediates := rfl

/-! ## Adding an outcome -/

open DeclaredActionsState (extendAvailable)

/-- The outcome of an action that writes only its outputs. -/
structure OutcomeOf (a : DeclaredAction) (outcome : ActionOutcome C) : Prop where
  writes : WritesOutputs a
  keys : ∀ path, path ∈ outcome.outputs.keys ↔ path ∈ a.outputs

variable {h : ActionHost C} {a : DeclaredAction} {outcome : ActionOutcome C} {n : Nat}

lemma OutcomeOf.add_available (hof : OutcomeOf a outcome) :
    (st.add h outcome (.forAction a n)).availableInputs =
      extendAvailable st.availableInputs outcome := by
  unfold DeclaredActionsState.add
  split
  case isTrue => rfl
  case isFalse => exact hof.writes.forget_eq (fun o ho => (hof.keys o).mpr ho) _

variable {entry : Path × Digest}

lemma OutcomeOf.ne_nil (hof : OutcomeOf a outcome) (hentry : entry ∈ outcome.outputs.entries) :
    entry.1 ≠ [] :=
  hof.writes.nonempty entry.1 ((hof.keys entry.1).mp (mem_map.mpr ⟨entry, hentry, rfl⟩))

lemma mem_keys_of_entry (hentry : entry ∈ outcome.outputs.entries) :
    entry.1 ∈ outcome.outputs.keys := mem_map.mpr ⟨entry, hentry, rfl⟩

lemma entry_of_mem_keys (hpath : path ∈ outcome.outputs.keys) :
    ∃ digest, (path, digest) ∈ outcome.outputs.entries := by
  obtain ⟨entry, hentry, rfl⟩ := mem_map.mp hpath
  exact ⟨entry.2, hentry⟩

lemma mem_pending_add_hit (hhit : outcome.hit = true) :
    entry ∈ (st.add h outcome (.forAction a n)).pending.entries ↔
      (entry ∈ st.pending.entries ∧ ∀ o ∈ outcome.outputs.keys, ¬ o <+: entry.1) ∨
        entry ∈ outcome.outputs.entries := by
  rw [entries_eq, entries_eq]
  simp only [DeclaredActionsState.pending, DeclaredActionsState.add, entriesOf_track_hit hhit,
    mem_append, mem_filter, untouched_iff]
  cases (CachedResultPolicy.forAction a n).intermediate with
  | false =>
    tauto
  | true =>
    tauto

lemma OutcomeOf.root (hof : OutcomeOf a outcome) (hroot : st.availableInputs [] = none) :
    extendAvailable st.availableInputs outcome [] = none := by
  rw [← hroot]
  refine extendAvailable_elsewhere fun o ho hle => ?_
  exact hof.writes.nonempty o ((hof.keys o).mp ho) (prefix_nil.mp hle)

lemma parentFirst_track_hit {results : List Outputs} {policy : CachedResultPolicy}
    (hhit : outcome.hit = true) (horder : ParentFirst (entriesOf results)) (intermediate : Bool) :
    ParentFirst (entriesOf (trackCachedResult results outcome policy intermediate)) := by
  rw [entriesOf_track_hit hhit]
  refine pairwise_append.mpr ⟨horder.filter _, ?_, ?_⟩
  · split
    · exact outcome.outputs.parentFirst
    · exact Pairwise.nil
  · intro entry hentry other hother
    split at hother
    case isFalse => cases hother
    case isTrue =>
      exact untouched_iff.mp (mem_filter.mp hentry).2 other.1 (mem_keys_of_entry hother)

lemma PendingOk.add_hit (hok : PendingOk st.availableInputs st.pending)
    (hof : OutcomeOf a outcome) (hhit : outcome.hit = true) :
    PendingOk (st.add h outcome (.forAction a n)).availableInputs
      (st.add h outcome (.forAction a n)).pending := by
  rw [hof.add_available]
  refine ⟨hof.root hok.root, ?_, ?_, ?_, ?_, ?_, ?_⟩
  · intro entry hentry
    rcases (mem_pending_add_hit hhit).mp hentry with ⟨hold, hnone⟩ | hnew
    · rw [extendAvailable_elsewhere hnone]
      exact hok.listed entry hold
    · rw [extendAvailable_of_mem hnew, hhit]
      rfl
  · intro path found hfound hown hunmaterialized
    rcases extendAvailable_eq_some hfound with ⟨digest, hnew, -⟩ | ⟨hold, hnone⟩
    · exact ⟨digest, (mem_pending_add_hit hhit).mpr (.inr hnew)⟩
    · obtain ⟨digest, hpending⟩ := hok.kept path found hold hown hunmaterialized
      exact ⟨digest, (mem_pending_add_hit hhit).mpr (.inl ⟨hpending, hnone⟩)⟩
  · intro entry hentry path found hfound hle
    rcases extendAvailable_eq_some hfound with ⟨digest, hnew, -⟩ | ⟨hold, hnone⟩
    · exact ⟨digest, (mem_pending_add_hit hhit).mpr (.inr hnew)⟩
    · rcases (mem_pending_add_hit hhit).mp hentry with ⟨hentry, -⟩ | hnew
      · obtain ⟨digest, hpending⟩ := hok.nested entry hentry path found hold hle
        exact ⟨digest, (mem_pending_add_hit hhit).mpr (.inl ⟨hpending, hnone⟩)⟩
      · exact absurd hle (hnone entry.1 (mem_keys_of_entry hnew))
  · exact parentFirst_track_hit hhit hok.finalOrder false
  · exact parentFirst_track_hit hhit hok.intermediateOrder true
  · -- the new outputs go to one of the lists, and neither keeps their paths
    intro entry hentry other hother heq
    simp only [DeclaredActionsState.pending, DeclaredActionsState.add,
      entriesOf_track_hit hhit, mem_append, mem_filter, untouched_iff] at hentry hother
    have hnew : ∀ {added : Bool} {e : Path × Digest},
        e ∈ (if added then outcome.outputs.entries else []) → e ∈ outcome.outputs.entries := by
      intro added e he
      split at he
      · exact he
      · cases he
    rcases hentry with ⟨hentry, hnone⟩ | hentry <;> rcases hother with ⟨hother, hnone'⟩ | hother
    · exact hok.apart entry hentry other hother heq
    · exact hnone other.1 (mem_keys_of_entry (hnew hother)) (heq ▸ prefix_refl _)
    · exact hnone' entry.1 (mem_keys_of_entry (hnew hentry)) (heq ▸ prefix_refl _)
    · cases hintermediate : (CachedResultPolicy.forAction a n).intermediate with
      | false => simp [hintermediate] at hother
      | true => simp [hintermediate] at hentry

/-- Where the action wrote, nothing was pending; an action that restored everything left nothing
pending. -/
structure Cleared (a : DeclaredAction) (n : Nat) (st : DeclaredActionsState) : Prop where
  clear : ∀ entry ∈ st.pending.entries, ∀ o ∈ a.outputs, pathsOverlap entry.1 o = false
  prior : (CachedResultPolicy.forAction a n).restoresPrior = true → st.pending.entries = []

lemma Cleared.not_overlapping (hclear : Cleared a n st) (hof : OutcomeOf a outcome)
    (hentry : entry ∈ st.pending.entries) {o : Path} (ho : o ∈ outcome.outputs.keys) :
    ¬ o <+: entry.1 ∧ ¬ entry.1 <+: o := by
  have hno := hclear.clear entry hentry o ((hof.keys o).mp ho)
  constructor
  · intro hle
    rw [pathsOverlap_iff.mpr (.inr hle)] at hno
    cases hno
  · intro hle
    rw [pathsOverlap_iff.mpr (.inl hle)] at hno
    cases hno

lemma Cleared.track_eq (hclear : Cleared a n st) (hof : OutcomeOf a outcome)
    (hmiss : outcome.hit = false) :
    entriesOf (st.add h outcome (.forAction a n)).cachedResults = entriesOf st.cachedResults ∧
      entriesOf (st.add h outcome (.forAction a n)).pendingIntermediate =
        entriesOf st.pendingIntermediate := by
  have hsplit : ∀ entry, entry ∈ entriesOf st.cachedResults ∨
      entry ∈ entriesOf st.pendingIntermediate → entry ∈ st.pending.entries := by
    intro entry hentry
    rw [entries_eq]
    exact mem_append.mpr hentry
  have hkept : ∀ entry ∈ st.pending.entries,
      ((CachedResultPolicy.forAction a n).touched.any fun touched =>
        touched.conflictsWith entry.1) = false ∧
      ∀ o ∈ outcome.outputs.keys, ¬ o <+: entry.1 := fun entry hentry =>
    ⟨hof.writes.not_conflicting (hclear.clear entry hentry),
      fun o ho => (hclear.not_overlapping hof hentry ho).1⟩
  have hempty : (CachedResultPolicy.forAction a n).restoresPrior = true →
      entriesOf st.cachedResults = [] ∧ entriesOf st.pendingIntermediate = [] := by
    intro hrestores
    have hnil := hclear.prior hrestores
    rw [entries_eq] at hnil
    exact append_eq_nil_iff.mp hnil
  constructor
  · exact entriesOf_track_miss hmiss (fun entry he => hkept entry (hsplit entry (.inl he)))
      (fun hr => (hempty hr).1) false
  · exact entriesOf_track_miss hmiss (fun entry he => hkept entry (hsplit entry (.inr he)))
      (fun hr => (hempty hr).2) true

lemma Cleared.entries_eq (hclear : Cleared a n st) (hof : OutcomeOf a outcome)
    (hmiss : outcome.hit = false) :
    (st.add h outcome (.forAction a n)).pending.entries = st.pending.entries := by
  rw [PendingResults.entries_eq, PendingResults.entries_eq]
  obtain ⟨hfinal, hintermediate⟩ := hclear.track_eq (h := h) hof hmiss
  exact congrArg₂ (· ++ ·) hfinal hintermediate

lemma PendingOk.add_miss (hok : PendingOk st.availableInputs st.pending)
    (hof : OutcomeOf a outcome) (hmiss : outcome.hit = false) (hclear : Cleared a n st) :
    PendingOk (st.add h outcome (.forAction a n)).availableInputs
      (st.add h outcome (.forAction a n)).pending := by
  obtain ⟨hfinal, hintermediate⟩ := hclear.track_eq (h := h) hof hmiss
  rw [hof.add_available]
  refine ⟨hof.root hok.root, ?_, ?_, ?_, ?_, ?_, ?_⟩
  · intro entry hentry
    rw [hclear.entries_eq hof hmiss] at hentry
    rw [extendAvailable_elsewhere fun o ho => (hclear.not_overlapping hof hentry ho).1]
    exact hok.listed entry hentry
  · intro path found hfound hown hunmaterialized
    rw [hclear.entries_eq hof hmiss]
    rcases extendAvailable_eq_some hfound with ⟨digest, -, rfl⟩ | ⟨hold, -⟩
    · rw [hmiss] at hunmaterialized
      cases hunmaterialized
    · exact hok.kept path found hold hown hunmaterialized
  · intro entry hentry path found hfound hle
    rw [hclear.entries_eq hof hmiss] at hentry ⊢
    rcases extendAvailable_eq_some hfound with ⟨digest, hnew, -⟩ | ⟨hold, -⟩
    · exact absurd hle (hclear.not_overlapping hof hentry (mem_keys_of_entry hnew)).2
    · exact hok.nested entry hentry path found hold hle
  · exact hfinal ▸ hok.finalOrder
  · exact hintermediate ▸ hok.intermediateOrder
  · intro entry hentry other hother
    exact hok.apart entry (hfinal ▸ hentry) other (hintermediate ▸ hother)

lemma promised_extend (hof : OutcomeOf a outcome) (available : AvailableInputs)
    (disk : Disk C) :
    promised blob (extendAvailable available outcome)
        (if outcome.hit then disk else writeAll blob outcome.outputs.entries disk) =
      writeAll blob outcome.outputs.entries (promised blob available disk) := by
  funext z
  by_cases hover : ∃ entry ∈ outcome.outputs.entries, entry.1 <+: z
  · obtain ⟨entry, hentry, hz, hlongest⟩ := exists_longest hover
    rw [promised_of_some (closest_extendAvailable hentry (hof.ne_nil hentry) hz hlongest),
      outcome.outputs.parentFirst.writeAll_longest blob hentry hz hlongest]
    cases outcome.hit with
    | true => rfl
    | false => exact outcome.outputs.parentFirst.writeAll_longest blob hentry hz hlongest disk
  · have hnone : ∀ entry ∈ outcome.outputs.entries, ¬ entry.1 <+: z :=
      fun entry hentry hz => hover ⟨entry, hentry, hz⟩
    have hkeys : ∀ o ∈ outcome.outputs.keys, ¬ o <+: z := by
      intro o ho
      obtain ⟨digest, hentry⟩ := entry_of_mem_keys ho
      exact hnone _ hentry
    have hdisk : (if outcome.hit then disk else writeAll blob outcome.outputs.entries disk) z =
        disk z := by
      split
      · rfl
      · exact writeAll_elsewhere blob hnone disk
    rw [writeAll_elsewhere blob hnone]
    simp only [promised, closest_extendAvailable_elsewhere hkeys, hdisk]

/-- Recording an outcome: a hit writes nothing, a miss its outputs, and eager execution writes the
outputs in both cases. -/
lemma DeferralOk.add (hok : DeferralOk blob recorded disk st eager) (hof : OutcomeOf a outcome)
    (hclear : outcome.hit = false → Cleared a n st) :
    DeferralOk blob (recorded ++ a.outputs)
      (if outcome.hit then disk else writeAll blob outcome.outputs.entries disk)
      (st.add h outcome (.forAction a n)) (writeAll blob outcome.outputs.entries eager) where
  pending := by
    cases hhit : outcome.hit with
    | true => exact hok.pending.add_hit hof hhit
    | false => exact hok.pending.add_miss hof hhit (hclear hhit)
  promised := by
    rw [hof.add_available, promised_extend hof, hok.promised]
  own path found below found' hfound hown hbelow hle := by
    rw [hof.add_available] at hfound hbelow
    rcases extendAvailable_eq_some hbelow with ⟨digest, -, rfl⟩ | ⟨hold', hnone⟩
    · rfl
    · rcases extendAvailable_eq_some hfound with ⟨digest, hnew, -⟩ | ⟨hold, -⟩
      · exact absurd hle (hnone path (mem_keys_of_entry hnew))
      · exact hok.own path found below found' hold hown hold' hle
  covered o ho := by
    rw [hof.add_available]
    -- a new output covers itself and everything below it
    have hnew : ∀ key ∈ outcome.outputs.keys, key <+: o →
        ∃ path found, extendAvailable st.availableInputs outcome path = some found ∧
          found.sameTarget = true ∧ path <+: o := by
      intro key hkey hle
      obtain ⟨digest, hentry⟩ := entry_of_mem_keys hkey
      exact ⟨key, _, extendAvailable_of_mem hentry, rfl, hle⟩
    rcases mem_append.mp ho with hbefore | hself
    · obtain ⟨path, found, hfound, hown, hle⟩ := hok.covered o hbefore
      by_cases hover : ∃ key ∈ outcome.outputs.keys, key <+: path
      · obtain ⟨key, hkey, habove⟩ := hover
        exact hnew key hkey (habove.trans hle)
      · have hnone : ∀ key ∈ outcome.outputs.keys, ¬ key <+: path :=
          fun key hkey hle => hover ⟨key, hkey, hle⟩
        exact ⟨path, found, (extendAvailable_elsewhere hnone).trans hfound, hown, hle⟩
    · exact hnew o ((hof.keys o).mpr hself) (prefix_refl _)
  results path := by
    rw [hof.add_available]
    simp only [DeclaredActionsState.add, extendAvailable]
    cases outcome.outputs.get path with
    | some digest => simp
    | none =>
      simp only [pruneReplacedDescendants]
      split
      case isTrue => simp
      case isFalse => exact hok.results path
  intermediates entry hentry := by
    simp only [DeclaredActionsState.add]
    cases hhit : outcome.hit with
    | true =>
      simp only [DeclaredActionsState.add, entriesOf_track_hit hhit, mem_append,
        mem_filter, untouched_iff] at hentry
      rcases hentry with ⟨hold, hnone⟩ | hnew
      · have hnot : ¬ outcome.outputs.keys.contains entry.1 = true := fun hmem =>
          hnone entry.1 (contains_iff_mem.mp hmem) (prefix_refl _)
        rw [if_neg hnot]
        exact hok.intermediates entry hold
      · split at hnew
        case isFalse => cases hnew
        case isTrue hintermediate =>
          rw [if_pos (contains_iff_mem.mpr (mem_keys_of_entry hnew))]
          simpa using hintermediate
    | false =>
      rw [((hclear hhit).track_eq hof hhit).2] at hentry
      have hpending : entry ∈ st.pending.entries := by
        rw [entries_eq]
        exact mem_append_right _ hentry
      have hnot : ¬ outcome.outputs.keys.contains entry.1 = true := fun hmem =>
        ((hclear hhit).not_overlapping hof hpending (contains_iff_mem.mp hmem)).1
          (prefix_refl _)
      rw [if_neg hnot]
      exact hok.intermediates entry hentry

end OnceBuild.Actions
