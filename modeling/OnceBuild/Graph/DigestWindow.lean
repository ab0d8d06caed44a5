import OnceBuild.Graph.ChangeWindow
import OnceBuild.ChangeTracker.Exact

/-!
# Does the window cover the recorded digests?

The window of a build begins at the receipt's position if the smaller of its two generations is not
greater than that of the digests.  A receipt that is later in one generation only can pass this
comparison, and then the window leaves out what was recorded in between.
-/

namespace OnceBuild.Graph

open Lib List
open ChangeTracker

/-- The journal of an area names a path after a position. -/
def RecordedAfter (s : TrackerState) (area : Area) (p : ChangePosition) (name : Text) : Prop :=
  ∃ paths, some paths ∈ (s.journal area).history.drop (p.generation area) ∧ name ∈ paths

/-- What is known of the changes since `start` has all that was recorded after the position of the
digests. -/
def CoversDigests (s : TrackerState) (start : Option ChangePosition) (digests : ChangePosition) :
    Prop :=
  ∀ sources outputs,
    knownChanges (some (s.snapshotSince start)) (some digests) = .since sources outputs →
      ∀ name, (RecordedAfter s .source digests name → name ∈ sources) ∧
        (RecordedAfter s .output digests name → name ∈ outputs)

structure NotAfter (p q : ChangePosition) : Prop where
  source : p.sourceGeneration ≤ q.sourceGeneration
  output : p.outputGeneration ≤ q.outputGeneration

def smallerGeneration (p : ChangePosition) : Nat := min p.sourceGeneration p.outputGeneration

variable {p q : ChangePosition}

lemma NotAfter.generation (h : NotAfter p q) (area : Area) :
    p.generation area ≤ q.generation area := by
  cases area with
  | source => exact h.source
  | output => exact h.output

lemma NotAfter.refl (p : ChangePosition) : NotAfter p p := ⟨Nat.le_refl _, Nat.le_refl _⟩

lemma coversDigests_of_notAfter {s : TrackerState} {start digests : ChangePosition}
    (h : NotAfter start digests) : CoversDigests s (some start) digests := by
  intro sources outputs hknown name
  obtain ⟨snap, pos, hsnap, hpos, -, hsources, houtputs⟩ := knownChanges_eq_since hknown
  cases hsnap
  have harea : ∀ area changed, (s.snapshotSince (some start)).changes area = some changed →
      RecordedAfter s area digests name → name ∈ changed := by
    rintro area changed hchanged ⟨paths, hpaths, hname⟩
    obtain ⟨p, hp, -, hsince⟩ := TrackerState.snapshotSince_changes area hchanged
    cases hp
    refine Journal.mem_since hsince (h.generation area) ⟨some paths, hpaths, fun named hnamed => ?_⟩
    cases hnamed
    exact hname
  exact ⟨harea .source sources hsources, harea .output outputs houtputs⟩

/-! ## A run through two positions -/

def touch : Area → TrackerOp
  | .source => .event (some ⟨.modify, false, [[[97]]]⟩)
  | .output => .event (some ⟨.modify, false, [[utf8Encode onceDir, utf8Encode outDir]]⟩)

def touchedName : Area → Text
  | .source => ['a']
  | .output => ".once/out".toList

/-- Changes that take a tracker from one position to another. -/
def touches (p q : ChangePosition) : List TrackerOp :=
  List.replicate (q.sourceGeneration - p.sourceGeneration) (touch .source) ++
    List.replicate (q.outputGeneration - p.outputGeneration) (touch .output)

lemma recordedBy_replicate_touch (touched area : Area) (n : Nat) :
    recordedBy [] area (List.replicate n (touch touched)) =
      List.replicate (if touched = area then n else 0) (some {touchedName area}) := by
  have hone : recordsIn area ((touch touched).steps []) =
      if touched = area then [some {touchedName area}] else [] := by
    cases touched <;> cases area <;> rfl
  induction n with
  | zero => simp [recordedBy, recordsIn]
  | succ n ih =>
    rw [replicate_succ, recordedBy_cons, ih, hone]
    split <;> rfl

lemma recordedBy_touches (p q : ChangePosition) (area : Area) : recordedBy [] area (touches p q) =
      List.replicate (q.generation area - p.generation area) (some {touchedName area}) := by
  unfold touches
  rw [recordedBy_append, recordedBy_replicate_touch, recordedBy_replicate_touch]
  cases area <;> simp [ChangePosition.generation]

lemma position_ext (hid : p.instanceId = q.instanceId)
    (h : ∀ area, p.generation area = q.generation area) : p = q := by
  obtain ⟨_, _, _⟩ := p
  cases hid
  cases (show _ = _ from h .source)
  cases (show _ = _ from h .output)
  rfl

lemma position_touches {t : Tracker} (hid : t.state.instanceId = p.instanceId)
    (hle : NotAfter t.state.position p) :
    (t.run [] (touches t.state.position p)).state.position = p := by
  refine position_ext ((t.applyAll_instanceId _).trans hid) fun area => ?_
  have := hle.generation area
  rw [TrackerState.position_generation, Tracker.generation_run, recordedBy_touches,
    length_replicate, TrackerState.position_generation] at *
  omega

/-- The tracker was at the position at some time of the run. -/
def Passes (workspace : List OsPath) (ops : List TrackerOp) (p : ChangePosition) : Prop :=
  ∃ before after, ops = before ++ after ∧
    ((Tracker.start p.instanceId).run workspace before).state.position = p

def touchesThrough (p q : ChangePosition) : List TrackerOp :=
  touches (Tracker.start p.instanceId).state.position p ++ touches p q

lemma position_through (hid : q.instanceId = p.instanceId) (hle : NotAfter p q) :
    ((Tracker.start p.instanceId).run []
        (touches (Tracker.start p.instanceId).state.position p)).state.position = p ∧
      ((Tracker.start p.instanceId).run [] (touchesThrough p q)).state.position = q := by
  have hfirst := position_touches (t := Tracker.start p.instanceId) rfl
    ⟨Nat.zero_le _, Nat.zero_le _⟩
  refine ⟨hfirst, ?_⟩
  unfold touchesThrough
  rw [Tracker.run_append]
  -- the second part begins where the first one ends
  have hsecond : NotAfter ((Tracker.start p.instanceId).run []
      (touches (Tracker.start p.instanceId).state.position p)).state.position q := by
    rw [hfirst]
    exact hle
  have hinstance := (congrArg ChangePosition.instanceId hfirst).trans hid.symm
  have hthen := position_touches hinstance hsecond
  rw [hfirst] at hthen
  exact hthen

lemma recordedAfter_through (area : Area) (hlt : p.generation area < q.generation area) :
    RecordedAfter ((Tracker.start p.instanceId).run [] (touchesThrough p q)).state area p
      (touchedName area) := by
  refine ⟨{touchedName area}, ?_, Finset.mem_singleton_self _⟩
  have hempty : ((Tracker.start p.instanceId).state.journal area).history = [] := by
    cases area <;> rfl
  have hzero : (Tracker.start p.instanceId).state.position.generation area = 0 := by
    cases area <;> rfl
  unfold touchesThrough
  rw [Tracker.history_run, recordedBy_append, recordedBy_touches, recordedBy_touches, hempty, hzero,
    nil_append, Nat.sub_zero, drop_left' length_replicate]
  exact mem_replicate.mpr ⟨by omega, rfl⟩

lemma knownChanges_now {s : TrackerState} (h : p.instanceId = s.instanceId) :
    knownChanges (some (s.snapshotSince (some s.position))) (some p) = .since ∅ ∅ := by
  have hsame : s.position.instanceId = s.instanceId := rfl
  have hnow : ∀ area, (s.snapshotSince (some s.position)).changes area = some ∅ := by
    intro area
    rw [TrackerState.snapshotSince_same hsame, TrackerState.position_generation]
    exact (if_neg (Nat.lt_irrefl _)).trans (if_pos rfl)
  have hsource : (s.snapshotSince (some s.position)).sourceChanges = some ∅ := hnow .source
  have houtput : (s.snapshotSince (some s.position)).outputChanges = some ∅ := hnow .output
  have hid : ¬(s.snapshotSince (some s.position)).position.instanceId ≠ p.instanceId :=
    not_not.mpr h.symm
  unfold knownChanges
  simp only [if_neg hid, hsource, houtput]

lemma earliestPosition_same {left right : ChangePosition}
    (h : left.instanceId = right.instanceId) :
    earliestPosition (some left) (some right) =
      if smallerGeneration left ≤ smallerGeneration right then some left else some right :=
  if_pos h

lemma not_coversDigests_through (receipt digests : ChangePosition)
    (hsame : receipt.instanceId = digests.instanceId) (hle : NotAfter digests receipt)
    (hlate : ¬NotAfter receipt digests) :
    ¬CoversDigests
      ((Tracker.start digests.instanceId).run [] (touchesThrough digests receipt)).state
      (some receipt) digests := by
  obtain ⟨-, hposition⟩ := position_through hsame hle
  intro hcovers
  have hknown := knownChanges_now
    ((congrArg ChangePosition.instanceId hposition).trans hsame).symm
  rw [hposition] at hknown
  have hnone := hcovers ∅ ∅ hknown
  by_cases hsource : digests.sourceGeneration < receipt.sourceGeneration
  · exact Finset.notMem_empty _ ((hnone _).1 (recordedAfter_through .source hsource))
  · by_cases houtput : digests.outputGeneration < receipt.outputGeneration
    · exact Finset.notMem_empty _ ((hnone _).2 (recordedAfter_through .output houtput))
    · exact hlate ⟨not_lt.mp hsource, not_lt.mp houtput⟩

/-- The window covers the digests in every run through the two positions if and only if the receipt
is not after the digests, or the smaller of its generations is greater.  With the two positions
given the other way round it always does. -/
theorem digests_covered_iff (receipt digests : ChangePosition)
    (hsame : receipt.instanceId = digests.instanceId)
    (horder : NotAfter receipt digests ∨ NotAfter digests receipt) :
    ((∀ workspace ops, Passes workspace ops receipt → Passes workspace ops digests →
        CoversDigests ((Tracker.start digests.instanceId).run workspace ops).state
          (earliestPosition (some receipt) (some digests)) digests) ↔
      NotAfter receipt digests ∨ smallerGeneration digests < smallerGeneration receipt) ∧
      ∀ workspace ops, CoversDigests ((Tracker.start digests.instanceId).run workspace ops).state
        (earliestPosition (some digests) (some receipt)) digests := by
  rw [earliestPosition_same hsame, earliestPosition_same hsame.symm]
  refine ⟨⟨fun hcovers => ?_, fun hwhen workspace ops _ _ => ?_⟩, fun workspace ops => ?_⟩
  · by_contra hnot
    obtain ⟨hlate, hsmaller⟩ := not_or.mp hnot
    have hle := horder.resolve_left hlate
    obtain ⟨hfirst, hthen⟩ := position_through hsame hle
    refine not_coversDigests_through receipt digests hsame hle hlate ?_
    have hpasses := hcovers [] (touchesThrough digests receipt)
      ⟨_, [], (append_nil _).symm, by rw [hsame]; exact hthen⟩ ⟨_, _, rfl, hfirst⟩
    rwa [if_pos (not_lt.mp hsmaller)] at hpasses
  · split
    next hsmaller =>
      exact coversDigests_of_notAfter (hwhen.resolve_right (not_lt.mpr hsmaller))
    next => exact coversDigests_of_notAfter (.refl _)
  · split
    next => exact coversDigests_of_notAfter (.refl _)
    next hsmaller =>
      refine coversDigests_of_notAfter (horder.resolve_right fun hle => hsmaller ?_)
      exact min_le_min hle.source hle.output

theorem digests_covered_iff_newer : NotAfter ⟨0, 1, 0⟩ ⟨0, 2, 0⟩ ∧
      CoversDigests ((Tracker.start 0).run [] [touch .source, touch .source]).state
        (earliestPosition (some ⟨0, 1, 0⟩) (some ⟨0, 2, 0⟩)) ⟨0, 2, 0⟩ := by
  have hle : NotAfter ⟨0, 1, 0⟩ ⟨0, 2, 0⟩ := ⟨by decide, by decide⟩
  refine ⟨hle, (digests_covered_iff ⟨0, 1, 0⟩ ⟨0, 2, 0⟩ rfl (Or.inl hle)).1.mpr (Or.inl hle)
    _ _ ?_ ?_⟩
  · exact ⟨[touch .source], [touch .source], rfl, rfl⟩
  · exact ⟨[touch .source, touch .source], [], rfl, rfl⟩

/-- A source changes between the digests and the receipt, and no output has changed yet. -/
theorem later_receipt_hides_change : ((Tracker.start 0).run [] []).state.position = ⟨0, 0, 0⟩ ∧
      ((Tracker.start 0).run [] [touch .source]).state.position = ⟨0, 1, 0⟩ ∧
      ¬CoversDigests ((Tracker.start 0).run [] [touch .source]).state
        (earliestPosition (some ⟨0, 1, 0⟩) (some ⟨0, 0, 0⟩)) ⟨0, 0, 0⟩ := by
  refine ⟨rfl, rfl, ?_⟩
  exact not_coversDigests_through ⟨0, 1, 0⟩ ⟨0, 0, 0⟩ rfl ⟨by decide, by decide⟩
    fun h => absurd h.source (by decide)

end OnceBuild.Graph
