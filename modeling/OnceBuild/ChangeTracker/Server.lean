import OnceBuild.Lib.Journal
import OnceBuild.Lib.PathText

/-!
# The filesystem change tracker

Model of the tracker server's journal: which paths it tracks, how an event of the platform's watcher
is recorded and what a snapshot answers.  Events that only report an access carry no edit and leave
no record; fence files lie under `.once` and are ignored like the rest of it.
-/

namespace OnceBuild.ChangeTracker

open Lib

structure ChangePosition where
  instanceId : Nat
  sourceGeneration : Nat
  outputGeneration : Nat
  deriving DecidableEq

structure ChangeSnapshot where
  position : ChangePosition
  sourceChanges : Option (Finset Text)
  outputChanges : Option (Finset Text)

/-- The two journals of the tracker. -/
inductive Area where
  | source
  | output
  deriving DecidableEq

def gitDir : Text := ['.', 'g', 'i', 't']

def onceDir : Text := ['.', 'o', 'n', 'c', 'e']

def outDir : Text := ['o', 'u', 't']

/-- `tracked_area`; `none` is `TrackedArea::Ignored`. -/
def trackedArea : List Text → Option Area
  | [] => some .source
  | first :: rest =>
    if first = gitDir then none
    else if first = onceDir then
      match rest with
      | [] => none
      | part :: _ => if part = outDir then some .output else none
    else some .source

def maxJournalRecords : Nat := 16384

structure TrackerState where
  instanceId : Nat
  source : Journal Text
  output : Journal Text

namespace TrackerState

variable (s : TrackerState)

def journal : Area → Journal Text
  | .source => s.source
  | .output => s.output

def start (instanceId : Nat) : TrackerState := ⟨instanceId, .empty, .empty⟩

def position : ChangePosition :=
  ⟨s.instanceId, s.source.generation, s.output.generation⟩

def recordSourceChanges (paths : Option (Finset Text)) : TrackerState :=
  { s with source := s.source.record maxJournalRecords paths }

def recordOutputChanges (paths : Option (Finset Text)) : TrackerState :=
  { s with output := s.output.record maxJournalRecords paths }

/-- The names of the paths of an event that belong to a journal. -/
def changesIn (area : Area) (paths : List RelPath) : Finset Text :=
  ((paths.filter fun p => trackedArea p.1 == some area).map fun p => render p.1).toFinset

/-- `handle_event` for an event that names the paths it changed. -/
def handleChanges (paths : List RelPath) : TrackerState :=
  let sourceChanges := changesIn .source paths
  let outputChanges := changesIn .output paths
  let s := if sourceChanges = ∅ then s else s.recordSourceChanges (some sourceChanges)
  if outputChanges = ∅ then s else s.recordOutputChanges (some outputChanges)

/-- `handle_event` for an error, a rescan or an event without paths. -/
def handleUnknown : TrackerState := (s.recordSourceChanges none).recordOutputChanges none

def snapshotSince (since : Option ChangePosition) : ChangeSnapshot where
  position := s.position
  sourceChanges :=
    (since.filter fun p => p.instanceId == s.instanceId).bind fun p =>
      s.source.since p.sourceGeneration
  outputChanges :=
    (since.filter fun p => p.instanceId == s.instanceId).bind fun p =>
      s.output.since p.outputGeneration

end TrackerState

def ChangePosition.generation (p : ChangePosition) : Area → Nat
  | .source => p.sourceGeneration
  | .output => p.outputGeneration

def ChangeSnapshot.changes (s : ChangeSnapshot) : Area → Option (Finset Text)
  | .source => s.sourceChanges
  | .output => s.outputChanges

/-! ## What an event leaves behind -/

namespace TrackerState

@[simp] lemma position_generation (s : TrackerState) (area : Area) :
    s.position.generation area = (s.journal area).generation := by
  cases area <;> rfl

@[simp] lemma handleChanges_instanceId (s : TrackerState) (paths : List RelPath) :
    (s.handleChanges paths).instanceId = s.instanceId := by
  unfold handleChanges
  dsimp only
  split <;> split <;> rfl

lemma handleChanges_journal (s : TrackerState) (paths : List RelPath) (area : Area) :
    (changesIn area paths = ∅ ∧ (s.handleChanges paths).journal area = s.journal area) ∨
      (s.handleChanges paths).journal area =
        (s.journal area).record maxJournalRecords (some (changesIn area paths)) := by
  unfold handleChanges
  dsimp only
  cases area with
  | source =>
    by_cases h : changesIn .source paths = ∅
    · left
      refine ⟨h, ?_⟩
      split <;> rfl
    · right
      split <;> rfl
  | output =>
    by_cases h : changesIn .output paths = ∅
    · left
      refine ⟨h, ?_⟩
      rw [if_pos h]
      split <;> rfl
    · right
      rw [if_neg h]
      split <;> rfl

lemma mem_changesIn {area : Area} {paths : List RelPath} {p : RelPath} (hp : p ∈ paths)
    (harea : trackedArea p.1 = some area) : render p.1 ∈ changesIn area paths := by
  unfold changesIn
  rw [List.mem_toFinset]
  exact List.mem_map_of_mem (List.mem_filter.mpr ⟨hp, by simp [harea]⟩)

lemma snapshotSince_changes {s : TrackerState} {since : Option ChangePosition} (area : Area)
    {changed : Finset Text} (h : (s.snapshotSince since).changes area = some changed) :
    ∃ p, since = some p ∧ p.instanceId = s.instanceId ∧
      (s.journal area).since (p.generation area) = some changed := by
  cases area <;>
  · obtain ⟨p, hp, hchanged⟩ := Option.bind_eq_some_iff.mp h
    obtain ⟨hsome, hid⟩ := Option.filter_eq_some_iff.mp hp
    exact ⟨p, hsome, eq_of_beq hid, hchanged⟩

end TrackerState

end OnceBuild.ChangeTracker
