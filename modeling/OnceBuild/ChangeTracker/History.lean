import OnceBuild.ChangeTracker.Server
import OnceBuild.Lib.EditLog

/-!
# Edits of a workspace and what the tracker knows of them

A history is the log of all edits of the workspace together with the tracker and how many of the
edits it has been told about: the watcher reports every edit by the names of the paths it touched,
in order.  A position marks a time when every later edit either is still to be reported or has a
record after the position.  Marks survive everything that can happen; asking for the changes since a
marked position therefore names every path touched since that time.
-/

namespace OnceBuild.ChangeTracker

open Lib List

variable {S V : Type}

structure History (S : Type) where
  base : S
  log : List (Edit RelPath S)
  delivered : Nat
  tracker : TrackerState
  delivered_le : delivered ≤ log.length

def History.start {S : Type} (base : S) (instanceId : Nat) : History S :=
  ⟨base, [], 0, .start instanceId, Nat.le_refl _⟩

/-- What can happen between the steps of a build. -/
inductive WatchOp (S : Type) where
  | edit (e : Edit RelPath S)
  /-- The watcher reports the next edit. -/
  | deliver
  /-- The watcher reports an error or asks for a rescan. -/
  | unknown
  /-- The root directory changed and the watcher is set up again. -/
  | refresh
  /-- The tracker is started afresh; it hears only of edits made from now on. -/
  | restart

variable {h h' : History S} {op : WatchOp S} {n : Nat}

variable {P : RelPath → Prop}

namespace History

def now (h : History S) : Nat := h.log.length

/-- The workspace after the first `n` edits. -/
def diskAt (h : History S) (n : Nat) : S := stateAt h.base h.log n

def disk (h : History S) : S := h.diskAt h.now

/-- Every edit made so far has been reported: what a barrier waits for. -/
def Settled (h : History S) : Prop := h.delivered = h.log.length

instance (h : History S) : Decidable h.Settled := inferInstanceAs (Decidable (_ = _))

def withTracker (h : History S) (tracker : TrackerState) : History S :=
  { h with tracker := tracker }

def step (h : History S) : WatchOp S → Option (History S)
  | .edit e => some
      { base := h.base
        log := h.log ++ [e]
        delivered := h.delivered
        tracker := h.tracker
        delivered_le := by
          rw [length_append]
          exact Nat.le_add_right_of_le h.delivered_le }
  | .deliver =>
    if hlt : h.delivered < h.log.length then some
      { base := h.base
        log := h.log
        delivered := h.delivered + 1
        tracker := h.tracker.handleChanges (h.log[h.delivered]).touched
        delivered_le := hlt }
    else none
  | .unknown => some (h.withTracker h.tracker.handleUnknown)
  | .refresh => some (h.withTracker (h.tracker.recordSourceChanges none))
  | .restart => some
      { base := h.base
        log := h.log
        delivered := h.log.length
        tracker := .start (h.tracker.instanceId + 1)
        delivered_le := Nat.le_refl _ }

section

variable (hs : h.step op = some h')
include hs

lemma step_log : h'.base = h.base ∧ ∃ more, h'.log = h.log ++ more := by
  cases op with
  | edit e => cases hs; exact ⟨rfl, [e], rfl⟩
  | deliver =>
    simp only [step] at hs
    split at hs
    case isTrue => cases hs; exact ⟨rfl, [], (append_nil _).symm⟩
    case isFalse => cases hs
  | unknown | refresh | restart => cases hs; exact ⟨rfl, [], (append_nil _).symm⟩

lemma now_le_of_step : h.now ≤ h'.now := by
  obtain ⟨-, more, hlog⟩ := step_log hs
  unfold now
  rw [hlog, length_append]
  exact Nat.le_add_right _ _

lemma diskAt_step (hn : n ≤ h.now) : h'.diskAt n = h.diskAt n := by
  obtain ⟨hbase, more, hlog⟩ := step_log hs
  unfold diskAt
  rw [hbase, hlog]
  exact stateAt_append _ _ _ hn

lemma untouched_step {i j : Nat} (hu : Untouched h.log P i j) (hj : j ≤ h.now) :
    Untouched h'.log P i j := by
  obtain ⟨-, more, hlog⟩ := step_log hs
  rw [hlog]
  exact hu.append more hj

end

/-! ## Reported edits -/

/-- Every edit so far named the paths it changed. -/
def Faithful (view : S → RelPath → V) (h : History S) : Prop := Lib.Faithful view h.base h.log

end History

/-- An edit names the paths it changes; nothing is asked of the other steps. -/
def WatchOp.Named (view : S → RelPath → V) (h : History S) : WatchOp S → Prop
  | .edit e => e.Names view h.disk
  | .deliver => True
  | .unknown => True
  | .refresh => True
  | .restart => True

namespace History

variable {view : S → RelPath → V}

lemma Faithful.step (hf : h.Faithful view) (hnamed : op.Named view h) (hs : h.step op = some h') :
    h'.Faithful view := by
  cases op with
  | edit e =>
    cases hs
    exact Faithful.append hf hnamed
  | deliver =>
    simp only [History.step] at hs
    split at hs
    case isTrue => cases hs; exact hf
    case isFalse => cases hs
  | unknown | refresh | restart => cases hs; exact hf

lemma Faithful.view_eq (hf : h.Faithful view) {i j : Nat} (hij : i ≤ j)
    (hu : Untouched h.log P i j) {p : RelPath} (hp : P p) :
    view (h.diskAt j) p = view (h.diskAt i) p :=
  view_stateAt_eq hf hij hu hp

/-! ## Marks -/

/-- Every path of `area` that an edit touched from time `n` on, as far as edits were reported, has a
record after generation `g`. -/
def RecordedSince (h : History S) (area : Area) (g n : Nat) : Prop :=
  ∀ m e, n ≤ m → m < h.delivered → h.log[m]? = some e → ∀ p ∈ e.touched,
    trackedArea p.1 = some area → (h.tracker.journal area).Reported g (render p.1)

/-- The position `pos` was taken no later than the edit numbered `n` was reported. -/
structure Marks (h : History S) (pos : ChangePosition) (n : Nat) : Prop where
  instance_le : pos.instanceId ≤ h.tracker.instanceId
  time_le : n ≤ h.log.length
  delivered : pos.instanceId = h.tracker.instanceId → n ≤ h.delivered
  generation_le : pos.instanceId = h.tracker.instanceId →
    ∀ area, pos.generation area ≤ (h.tracker.journal area).generation
  recorded : pos.instanceId = h.tracker.instanceId →
    ∀ area, h.RecordedSince area (pos.generation area) n

lemma marks_position (h : History S) : h.Marks h.tracker.position h.delivered where
  instance_le := Nat.le_refl _
  time_le := h.delivered_le
  delivered := fun _ => Nat.le_refl _
  generation_le := fun _ area => by simp
  recorded := fun _ area m e hn hm => absurd hm (by omega)

variable {pos : ChangePosition}

section

variable (hm : h.Marks pos n)
include hm

lemma Marks.edit {e : Edit RelPath S} (hs : h.step (.edit e) = some h') : h'.Marks pos n := by
  cases hs
  refine ⟨hm.instance_le, ?_, hm.delivered, hm.generation_le, ?_⟩
  · rw [length_append]
    exact Nat.le_add_right_of_le hm.time_le
  · intro hid area m e' hn hlt he'
    have hlt' : m < h.log.length := Nat.lt_of_lt_of_le hlt h.delivered_le
    rw [getElem?_append_left hlt'] at he'
    exact hm.recorded hid area m e' hn hlt he'

lemma Marks.of_journal (hlog : h'.log = h.log)
    (hid : h'.tracker.instanceId = h.tracker.instanceId) (hdel : h'.delivered = h.delivered)
    (hjournal : ∀ area, h'.tracker.journal area = h.tracker.journal area ∨
      h'.tracker.journal area = (h.tracker.journal area).record maxJournalRecords none) :
    h'.Marks pos n := by
  refine ⟨hid ▸ hm.instance_le, hlog ▸ hm.time_le, ?_, ?_, ?_⟩
  · intro heq
    rw [hdel]
    exact hm.delivered (heq.trans hid)
  · intro heq area
    have hle := hm.generation_le (heq.trans hid) area
    rcases hjournal area with hj | hj <;> rw [hj]
    · exact hle
    · exact Nat.le_succ_of_le hle
  · intro heq area m e hn hlt he p hp harea
    rw [hlog] at he
    rw [hdel] at hlt
    have hrep := hm.recorded (heq.trans hid) area m e hn hlt he p hp harea
    rcases hjournal area with hj | hj <;> rw [hj]
    · exact hrep
    · exact hrep.record _ _

lemma Marks.deliver (hs : h.step .deliver = some h') : h'.Marks pos n := by
  simp only [step] at hs
  split at hs
  case isFalse => cases hs
  case isTrue hlt =>
    cases hs
    refine ⟨by simpa using hm.instance_le, hm.time_le, ?_, ?_, ?_⟩
    · intro heq
      exact Nat.le_succ_of_le (hm.delivered (by simpa using heq))
    · intro heq area
      have hle := hm.generation_le (by simpa using heq) area
      rcases h.tracker.handleChanges_journal (h.log[h.delivered]).touched area with ⟨-, hj⟩ | hj <;>
        simp only [hj]
      · exact hle
      · exact Nat.le_succ_of_le hle
    · intro heq area m e hn hltm he p hp harea
      have heq' : pos.instanceId = h.tracker.instanceId := by simpa using heq
      have hle := hm.generation_le heq' area
      simp only at hltm he
      have hjournal := h.tracker.handleChanges_journal (h.log[h.delivered]).touched area
      by_cases hlast : m < h.delivered
      · -- reported earlier
        have hrep := hm.recorded heq' area m e hn hlast he p hp harea
        rcases hjournal with ⟨-, hj⟩ | hj <;> simp only [hj]
        · exact hrep
        · exact hrep.record _ _
      · -- the edit that is reported now
        obtain rfl : m = h.delivered := by omega
        rw [getElem?_eq_getElem hlt, Option.some.injEq] at he
        rw [he] at hjournal ⊢
        have hmem := TrackerState.mem_changesIn hp harea
        rcases hjournal with ⟨hempty, -⟩ | hj
        · rw [hempty] at hmem
          exact absurd hmem (Finset.notMem_empty _)
        · simp only [hj]
          exact Journal.reported_record hle _ fun s hs => by
            cases hs
            exact hmem

lemma Marks.step (hs : h.step op = some h') : h'.Marks pos n := by
  cases op with
  | edit e => exact hm.edit hs
  | deliver => exact hm.deliver hs
  | unknown =>
    cases hs
    refine hm.of_journal rfl rfl rfl fun area => Or.inr ?_
    cases area <;> rfl
  | refresh =>
    cases hs
    refine hm.of_journal rfl rfl rfl fun area => ?_
    cases area with
    | source => exact Or.inr rfl
    | output => exact Or.inl rfl
  | restart =>
    cases hs
    -- no position of the new instance has been handed out yet
    have hne : pos.instanceId ≠ h.tracker.instanceId + 1 := by
      have := hm.instance_le
      omega
    exact ⟨Nat.le_succ_of_le hm.instance_le, hm.time_le, fun h => absurd h hne,
      fun h => absurd h hne, fun h => absurd h hne⟩

/-- After a barrier, the changes since a position at or before a marked one name every path touched
from the marked time on. -/
lemma Marks.snapshot_covers (hsettled : h.Settled)
    (hid : pos.instanceId = h.tracker.instanceId) {since : ChangePosition} (area : Area)
    (hsince : since.generation area ≤ pos.generation area) {changed : Finset Text}
    (hchanges : (h.tracker.snapshotSince (some since)).changes area = some changed) {m : Nat}
    {e : Edit RelPath S} (hnm : n ≤ m) (he : h.log[m]? = some e) {p : RelPath} (hp : p ∈ e.touched)
    (harea : trackedArea p.1 = some area) : render p.1 ∈ changed := by
  have hlt : m < h.delivered := by
    rw [hsettled]
    exact (List.getElem?_eq_some_iff.mp he).1
  obtain ⟨since', hsome, -, hjournal⟩ := TrackerState.snapshotSince_changes area hchanges
  cases hsome
  exact Journal.mem_since hjournal hsince (hm.recorded hid area m e hnm hlt he p hp harea)

/-- After a barrier, a journal that stands where a marked position left it has heard of no edit
since the marked time. -/
lemma Marks.untouched_of_generation_eq (hsettled : h.Settled)
    (hid : pos.instanceId = h.tracker.instanceId) (area : Area)
    (hgen : pos.generation area = (h.tracker.journal area).generation) :
    Untouched h.log (fun p => trackedArea p.1 = some area) n h.now := by
  intro m e hnm hlt he p hp harea
  rw [now, ← hsettled] at hlt
  obtain ⟨r, hr, -⟩ := hm.recorded hid area m e hnm hlt he p hp harea
  rw [hgen, Journal.generation_eq, drop_length] at hr
  cases hr

end

end History

end OnceBuild.ChangeTracker
