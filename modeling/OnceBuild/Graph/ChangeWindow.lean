import OnceBuild.ChangeTracker.History

/-!
# The window of changes a build asks about

One snapshot serves both the receipt of the target and the recorded digests of the workspace, so it
is asked for the changes since the earlier of their two positions.
-/

namespace OnceBuild.Graph

open Lib
open ChangeTracker

variable {S : Type}

/-- The earlier of two positions; positions of different instances cannot be compared. -/
def earliestPosition : Option ChangePosition → Option ChangePosition → Option ChangePosition
  | some left, some right =>
    if left.instanceId = right.instanceId then
      if min left.sourceGeneration left.outputGeneration ≤
          min right.sourceGeneration right.outputGeneration then
        some left
      else some right
    else none
  | found, none => found
  | none, found => found

inductive KnownChanges where
  | unknown
  | since (sources outputs : Finset Text)

/-- `KnownChanges::settles`: neither the path nor anything below it is named. -/
def settles (changed : Finset Text) (relative : Text) : Bool :=
  decide (relative ∉ changed ∧ ∀ c ∈ changed, ¬ (relative ++ ['/']) <+: c)

def KnownChanges.sourceIsUntouched : KnownChanges → Text → Bool
  | .unknown, _ => false
  | .since sources _, relative => settles sources relative

/-- Turn a snapshot into a statement about what was recorded at a position. -/
def knownChanges (snapshot : Option ChangeSnapshot) (recordedAt : Option ChangePosition) :
    KnownChanges :=
  match snapshot, recordedAt with
  | some snapshot, some recordedAt =>
    if snapshot.position.instanceId ≠ recordedAt.instanceId then .unknown
    else
      match snapshot.sourceChanges, snapshot.outputChanges with
      | some sources, some outputs => .since sources outputs
      | _, _ => .unknown
  | _, _ => .unknown

/-! ## What the window says -/

/-- Paths at or below `p`. -/
def Below (p : RelPath) (q : RelPath) : Prop := p.1 <+: q.1

instance (p q : RelPath) : Decidable (Below p q) := inferInstanceAs (Decidable (_ <+: _))

variable {p : RelPath}

lemma settles_excludes {changed : Finset Text} {q : RelPath} (hne : p.1 ≠ [])
    (h : settles changed (render p.1) = true) (hq : render q.1 ∈ changed) : ¬ Below p q := by
  intro hbelow
  obtain ⟨hnot, hall⟩ := of_decide_eq_true h
  rcases render_eq_or_prefix hne hbelow with heq | hstart
  · exact hnot (heq ▸ hq)
  · exact hall _ hq hstart

lemma trackedArea_of_below {q : RelPath} (hne : p.1 ≠ []) {area : Area}
    (harea : trackedArea p.1 = some area) (h : Below p q) : trackedArea q.1 = some area := by
  obtain ⟨rest, hq⟩ := h
  rw [← hq]
  cases hp : p.1 with
  | nil => exact absurd hp hne
  | cons first tail =>
    rw [hp] at harea
    simp only [trackedArea, List.cons_append] at harea ⊢
    split at harea
    case isTrue => cases harea
    case isFalse hgit =>
      rw [if_neg hgit]
      split at harea
      case isTrue honce =>
        -- `.once` itself is ignored; its first entry decides
        rw [if_pos honce]
        cases tail with
        | nil => cases harea
        | cons part tail => exact harea
      case isFalse honce =>
        rw [if_neg honce]
        exact harea

variable {sources outputs : Finset Text}

variable {recordedAt : Option ChangePosition}

lemma knownChanges_eq_since {snapshot : Option ChangeSnapshot}
    (h : knownChanges snapshot recordedAt = .since sources outputs) :
    ∃ snap pos, snapshot = some snap ∧ recordedAt = some pos ∧
      snap.position.instanceId = pos.instanceId ∧ snap.sourceChanges = some sources ∧
      snap.outputChanges = some outputs := by
  cases snapshot with
  | none => cases h
  | some snap =>
    cases recordedAt with
    | none => cases h
    | some pos =>
      simp only [knownChanges] at h
      split at h
      case isTrue => cases h
      case isFalse hid =>
        cases hs : snap.sourceChanges with
        | none => simp [hs] at h
        | some s =>
          cases ho : snap.outputChanges with
          | none => simp [hs, ho] at h
          | some o =>
            simp only [hs, ho, KnownChanges.since.injEq] at h
            obtain ⟨rfl, rfl⟩ := h
            exact ⟨snap, pos, rfl, rfl, not_not.mp hid, hs, ho⟩

/-- The window reaches back far enough for sources recorded at `recordedAt`: the receipt's position,
when it is the one asked about, is not later in the journal of sources. -/
def WindowCovers (receipt recordedAt : Option ChangePosition) : Prop :=
  ∀ r ∈ receipt, ∀ d ∈ recordedAt, r.instanceId = d.instanceId →
    min r.sourceGeneration r.outputGeneration ≤ min d.sourceGeneration d.outputGeneration →
    r.sourceGeneration ≤ d.sourceGeneration

variable {receipt : Option ChangePosition}

lemma earliestPosition_le {d since : ChangePosition} (hcovers : WindowCovers receipt (some d))
    (h : earliestPosition receipt (some d) = some since) :
    since.sourceGeneration ≤ d.sourceGeneration := by
  cases receipt with
  | none =>
    cases h
    exact Nat.le_refl _
  | some r =>
    simp only [earliestPosition] at h
    split at h
    case isFalse => cases h
    case isTrue hid =>
      split at h
      case isTrue hmin =>
        cases h
        exact hcovers since rfl d rfl hid hmin
      case isFalse =>
        cases h
        exact Nat.le_refl _

/-- The names of all source paths that edits touched from time `n` on and before time `t`. -/
def Reports (h : History S) (sources : Finset Text) (n t : Nat) : Prop :=
  ∀ m e, n ≤ m → m < t → h.log[m]? = some e → ∀ p ∈ e.touched,
    trackedArea p.1 = some .source → render p.1 ∈ sources

variable {h : History S} {n : Nat}

lemma Reports.step {h' : History S} {op : WatchOp S} (hs : h.step op = some h') {t : Nat}
    (hr : Reports h sources n t) (ht : t ≤ h.now) : Reports h' sources n t := by
  obtain ⟨-, more, hlog⟩ := History.step_log hs
  intro m e hn hm he
  rw [hlog, List.getElem?_append_left (Nat.lt_of_lt_of_le hm ht)] at he
  exact hr m e hn hm he

/-- The sources of a window that reaches back to a recorded position name every source touched since
the time which that position marks. -/
lemma reports_of_known {pos : ChangePosition} (hm : h.Marks pos n) (hsettled : h.Settled)
    (hcovers : WindowCovers receipt (some pos))
    (hknown : knownChanges (some (h.tracker.snapshotSince (earliestPosition receipt (some pos))))
      (some pos) = .since sources outputs) : Reports h sources n h.now := by
  obtain ⟨snap, pos', hsnap, hpos, hid, hsources, -⟩ := knownChanges_eq_since hknown
  cases hsnap
  cases hpos
  have hid' : pos.instanceId = h.tracker.instanceId := hid.symm
  obtain ⟨since, hsince, -, -⟩ := TrackerState.snapshotSince_changes .source hsources
  rw [hsince] at hsources
  have hle := earliestPosition_le hcovers hsince
  intro m e hnm _ he p hp harea
  exact hm.snapshot_covers hsettled hid' .source hle hsources hnm he hp harea

lemma Reports.untouched {t : Nat} (hr : Reports h sources n t) (hne : p.1 ≠ [])
    (harea : trackedArea p.1 = some .source) (hset : settles sources (render p.1) = true) :
    Untouched h.log (Below p) n t := by
  intro m e hnm hm he q hq hbelow
  have hmem := hr m e hnm hm he q hq (trackedArea_of_below hne harea hbelow)
  exact settles_excludes hne hset hmem hbelow

/-- What a build learns from its initial snapshot about what was recorded at a position. -/
def initialChanges (h : History S) (receipt recordedAt : Option ChangePosition) (tracked : Bool) :
    KnownChanges :=
  let prior := earliestPosition receipt recordedAt
  let snapshot := if tracked then some (h.tracker.snapshotSince prior) else none
  knownChanges snapshot recordedAt

lemma initialChanges_eq_since {tracked : Bool}
    (hknown : initialChanges h receipt recordedAt tracked = .since sources outputs) :
    tracked = true ∧ ∃ pos, recordedAt = some pos ∧
      knownChanges (some (h.tracker.snapshotSince (earliestPosition receipt (some pos))))
        (some pos) = .since sources outputs := by
  obtain ⟨snap, pos, hsnap, hpos, -⟩ := knownChanges_eq_since hknown
  cases tracked with
  | false => cases hsnap
  | true =>
    subst hpos
    exact ⟨rfl, pos, rfl, hknown⟩

end OnceBuild.Graph
