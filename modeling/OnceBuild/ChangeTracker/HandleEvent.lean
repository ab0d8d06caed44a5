import OnceBuild.ChangeTracker.Server
import OnceBuild.Lib.BytePath
import OnceBuild.Lib.Utf8

/-!
# Events of the watcher

What the tracker makes of an event: which of its paths are fences, which it tracks, and the steps
that it takes in order.  Each record is one step, since the journal is locked for it, and each fence
that is released is one step.
-/

namespace OnceBuild.ChangeTracker

open Lib

/-! ## Events -/

inductive AccessMode where
  | any
  | execute
  | read
  | write
  | other
  deriving DecidableEq

inductive AccessKind where
  | any
  | read
  | opened (mode : AccessMode)
  | closed (mode : AccessMode)
  | other
  deriving DecidableEq

inductive EventKind where
  | any
  | access (kind : AccessKind)
  | create
  | modify
  | remove
  | other
  deriving DecidableEq

structure Event where
  kind : EventKind
  needRescan : Bool
  /-- The paths, each by its names from the root on. -/
  paths : List (List OsPath)

def Event.unknownChanges (event : Event) : Bool := event.needRescan || event.paths.isEmpty

def EventKind.nonmutatingAccess : EventKind → Bool
  | .access .read => true
  | .access (.opened _) => true
  | .access (.closed .read) => true
  | .access (.closed .execute) => true
  | _ => false

/-! ## Paths -/

/-- A path without the workspace at its front, or as it is if it lies elsewhere. -/
inductive Relative where
  | inside (names : List OsPath)
  | outside (names : List OsPath)

def relativeTo (workspace path : List OsPath) : Relative :=
  if workspace <+: path then .inside (path.drop workspace.length) else .outside path

def Relative.components : Relative → List OsPath
  | .inside names => names
  | .outside names => [slash] :: names

def Relative.bytes : Relative → OsPath
  | .inside names => [slash].intercalate names
  | .outside [] => [slash]
  | .outside (name :: names) => absoluteText (name :: names)

def Relative.text (relative : Relative) : Text := fromUtf8Lossy relative.bytes

inductive FenceClass where
  | notFence
  | directory
  | file (token : Text)

def fencesDir : Text := "watch-fences".toList

def fenceToken (components : List OsPath) : FenceClass :=
  match components.head?.bind fromUtf8 with
  | some token => .file token
  | none => .directory

def fenceClass : List OsPath → FenceClass
  | first :: second :: rest =>
    if first = utf8Encode onceDir ∧ second = utf8Encode fencesDir then fenceToken rest
    else .notFence
  | _ => .notFence

/-- `tracked_area` on names as the system has them. -/
def areaOf : List OsPath → Option Area
  | [] => some .source
  | first :: rest =>
    if first = utf8Encode gitDir then none
    else if first = utf8Encode onceDir then
      match rest with
      | [] => none
      | part :: _ => if part = utf8Encode outDir then some .output else none
    else some .source

/-! ## Handling an event -/

/-- What the paths of an event amount to. -/
structure Scan where
  sourceChanges : Finset Text
  outputChanges : Finset Text
  fenceTokens : List Text

def Scan.changes (scan : Scan) : Area → Finset Text
  | .source => scan.sourceChanges
  | .output => scan.outputChanges

/-- A change that goes to one of the journals, or to none. -/
def Scan.add (scan : Scan) (text : Text) : Option Area → Scan
  | some .source => { scan with sourceChanges := insert text scan.sourceChanges }
  | some .output => { scan with outputChanges := insert text scan.outputChanges }
  | none => scan

/-- One round of the loop over the paths; `skip` says that only fences count. -/
def scanPath (skip : Bool) (scan : Scan) (relative : Relative) : Scan :=
  match fenceClass relative.components with
  | .file token => { scan with fenceTokens := scan.fenceTokens ++ [token] }
  | .directory => scan
  | .notFence => if skip then scan else scan.add relative.text (areaOf relative.components)

variable (workspace : List OsPath)

def Event.scan (event : Event) : Scan :=
  (event.paths.map (relativeTo workspace)).foldl
    (scanPath (event.unknownChanges || event.kind.nonmutatingAccess)) ⟨∅, ∅, []⟩

inductive TrackerStep where
  | record (area : Area) (paths : Option (Finset Text))
  | insertFence (token : Text)
  | removeFence (token : Text)
  /-- The one that waits for the fence goes on. -/
  | releaseFence (token : Text)

def recordUnknown : List TrackerStep := [.record .source none, .record .output none]

variable (area : Area)

def recordChanges (changes : Finset Text) : List TrackerStep :=
  if changes = ∅ then [] else [.record area (some changes)]

def Event.records (event : Event) : List TrackerStep :=
  (if event.unknownChanges then recordUnknown else []) ++
    recordChanges .source (event.scan workspace).sourceChanges ++
    recordChanges .output (event.scan workspace).outputChanges

/-- `handle_event`; `none` is an error of the watcher. -/
def handleEvent : Option Event → List TrackerStep
  | none => recordUnknown
  | some event =>
    event.records workspace ++ (event.scan workspace).fenceTokens.map TrackerStep.releaseFence

/-! ## The tracker -/

structure Tracker where
  state : TrackerState
  /-- The fences that are waited for. -/
  fences : Finset Text

inductive TrackerOp where
  | event (reported : Option Event)
  /-- The watcher is set up again, or the directory of the fences is made again. -/
  | refresh
  | insertFence (token : Text)
  | removeFence (token : Text)

def TrackerOp.steps : TrackerOp → List TrackerStep
  | .event reported => handleEvent workspace reported
  | .refresh => [.record .source none]
  | .insertFence token => [.insertFence token]
  | .removeFence token => [.removeFence token]

def TrackerState.record (s : TrackerState) : Area → Option (Finset Text) → TrackerState
  | .source, paths => s.recordSourceChanges paths
  | .output, paths => s.recordOutputChanges paths

namespace Tracker

def start (instanceId : Nat) : Tracker := ⟨.start instanceId, ∅⟩

def apply (t : Tracker) : TrackerStep → Tracker
  | .record area paths => { t with state := t.state.record area paths }
  | .insertFence token => { t with fences := insert token t.fences }
  | .removeFence token => { t with fences := t.fences.erase token }
  | .releaseFence token => { t with fences := t.fences.erase token }

def applyAll (t : Tracker) (steps : List TrackerStep) : Tracker := steps.foldl apply t

def run (workspace : List OsPath) (t : Tracker) (ops : List TrackerOp) : Tracker :=
  t.applyAll (ops.flatMap (TrackerOp.steps workspace))

end Tracker

/-! ## What changed -/

def TrackerOp.loses : TrackerOp → Bool
  | .event none => true
  | .event (some reported) => reported.unknownChanges
  | .refresh => decide (area = .source)
  | .insertFence _ => false
  | .removeFence _ => false

def Event.changed (event : Event) : Finset Text :=
  if event.kind.nonmutatingAccess then ∅
  else (((event.paths.map (relativeTo workspace)).filter fun relative =>
    areaOf relative.components == some area).map Relative.text).toFinset

def TrackerOp.changed : TrackerOp → Finset Text
  | .event (some reported) => reported.changed workspace area
  | _ => ∅

/-- The names of the tracked paths that a sequence of events changes. -/
def changedBy (workspace : List OsPath) (area : Area) : List TrackerOp → Finset Text
  | [] => ∅
  | op :: ops => op.changed workspace area ∪ changedBy workspace area ops

/-! ## Steps and journals -/

def recordsIn (area : Area) : List TrackerStep → List (Option (Finset Text))
  | [] => []
  | .record area' paths :: steps =>
    if area' = area then paths :: recordsIn area steps else recordsIn area steps
  | _ :: steps => recordsIn area steps

lemma recordsIn_append (steps steps' : List TrackerStep) :
    recordsIn area (steps ++ steps') = recordsIn area steps ++ recordsIn area steps' := by
  induction steps with
  | nil => rfl
  | cons step steps ih =>
    cases step with
    | record area' paths =>
      simp only [List.cons_append, recordsIn, ih]
      split <;> rfl
    | insertFence token | removeFence token | releaseFence token => exact ih

lemma recordsIn_release (tokens : List Text) :
    recordsIn area (tokens.map TrackerStep.releaseFence) = [] := by
  induction tokens with
  | nil => rfl
  | cons token tokens ih => exact ih

namespace Tracker

lemma applyAll_append (t : Tracker) (steps steps' : List TrackerStep) :
    t.applyAll (steps ++ steps') = (t.applyAll steps).applyAll steps' := List.foldl_append

lemma run_append (workspace : List OsPath) (t : Tracker) (ops ops' : List TrackerOp) :
    t.run workspace (ops ++ ops') = (t.run workspace ops).run workspace ops' := by
  unfold run
  rw [List.flatMap_append, applyAll_append]

@[simp] lemma applyAll_instanceId (t : Tracker) (steps : List TrackerStep) :
    (t.applyAll steps).state.instanceId = t.state.instanceId := by
  induction steps generalizing t with
  | nil => rfl
  | cons step steps ih =>
    refine (ih (t.apply step)).trans ?_
    cases step with
    | record area paths => cases area <;> rfl
    | insertFence token | removeFence token => rfl
    | releaseFence token => rfl

lemma journal_applyAll (t : Tracker) (steps : List TrackerStep) (area : Area) :
    (t.applyAll steps).state.journal area =
      (recordsIn area steps).foldl (Journal.record maxJournalRecords) (t.state.journal area) := by
  induction steps generalizing t with
  | nil => rfl
  | cons step steps ih =>
    refine (ih (t.apply step)).trans ?_
    cases step with
    | record area' paths => cases area <;> cases area' <;> rfl
    | insertFence token | removeFence token => rfl
    | releaseFence token => rfl

end Tracker

/-! ## Scans -/

lemma notFence_of_areaOf {components : List OsPath} {area : Area}
    (h : areaOf components = some area) : fenceClass components = .notFence := by
  match components with
  | [] => rfl
  | [_] => rfl
  | first :: second :: rest =>
    refine if_neg fun hfence => ?_
    obtain ⟨rfl, rfl⟩ := hfence
    cases h

lemma scanPath_changes (skip : Bool) (scan : Scan) (relative : Relative) (area : Area) :
    (scanPath skip scan relative).changes area =
      if skip = false ∧ areaOf relative.components = some area then
        insert relative.text (scan.changes area)
      else scan.changes area := by
  unfold scanPath
  split
  next token hfence =>
    rw [if_neg fun h => ?_]
    · rfl
    · exact nomatch hfence.symm.trans (notFence_of_areaOf h.2)
  next hfence =>
    rw [if_neg fun h => ?_]
    exact nomatch hfence.symm.trans (notFence_of_areaOf h.2)
  next =>
    cases skip with
    | true => simp
    | false =>
      cases harea : areaOf relative.components with
      | none => simp [Scan.add]
      | some found => cases found <;> cases area <;> simp [Scan.add, Scan.changes]

lemma foldl_scanPath_changes (skip : Bool) (relatives : List Relative) (scan : Scan)
    (area : Area) (name : Text) :
    name ∈ (relatives.foldl (scanPath skip) scan).changes area ↔
      name ∈ scan.changes area ∨ skip = false ∧
        ∃ relative ∈ relatives, areaOf relative.components = some area ∧ relative.text = name := by
  induction relatives generalizing scan with
  | nil => simp
  | cons relative relatives ih =>
    rw [List.foldl_cons, ih, scanPath_changes]
    split
    next h =>
      obtain ⟨hskip, harea⟩ := h
      simp only [Finset.mem_insert, hskip, List.mem_cons, exists_eq_or_imp, harea]
      tauto
    next h =>
      simp only [List.mem_cons, exists_eq_or_imp]
      tauto

lemma Event.scan_changes (event : Event) (area : Area) : (event.scan workspace).changes area =
      if event.unknownChanges then ∅ else event.changed workspace area := by
  ext name
  unfold Event.scan
  rw [foldl_scanPath_changes]
  have hempty : name ∉ (⟨∅, ∅, []⟩ : Scan).changes area := by
    cases area <;> exact Finset.notMem_empty _
  simp only [hempty, false_or, Event.changed]
  cases event.unknownChanges <;> cases event.kind.nonmutatingAccess <;>
    simp [and_assoc]

/-! ## What an operation records -/

lemma recordsIn_recordUnknown : recordsIn area recordUnknown = [none] := by
  cases area <;> rfl

lemma recordsIn_recordChanges (area area' : Area) (changes : Finset Text) :
    recordsIn area (recordChanges area' changes) =
      if area' = area ∧ changes ≠ ∅ then [some changes] else [] := by
  unfold recordChanges
  by_cases hempty : changes = ∅ <;> by_cases harea : area' = area <;>
    simp [hempty, harea, recordsIn]

lemma Event.recordsIn_records (event : Event) (area : Area) :
    recordsIn area (event.records workspace) = if event.unknownChanges then [none]
      else if event.changed workspace area = ∅ then []
      else [some (event.changed workspace area)] := by
  have hsource := event.scan_changes workspace .source
  have houtput := event.scan_changes workspace .output
  unfold Event.records
  rw [recordsIn_append, recordsIn_append, recordsIn_recordChanges, recordsIn_recordChanges]
  simp only [Scan.changes] at hsource houtput
  rw [hsource, houtput]
  by_cases hunknown : event.unknownChanges = true
  · simp [hunknown, recordsIn_recordUnknown]
  · cases area <;> simp [hunknown, recordsIn, ite_not]

lemma TrackerOp.recordsIn_steps (op : TrackerOp) (area : Area) :
    recordsIn area (op.steps workspace) = if op.loses area then [none]
      else if op.changed workspace area = ∅ then []
      else [some (op.changed workspace area)] := by
  cases op with
  | event reported =>
    cases reported with
    | none => exact recordsIn_recordUnknown area
    | some event =>
      refine (recordsIn_append area _ _).trans ?_
      rw [recordsIn_release, List.append_nil]
      exact event.recordsIn_records workspace area
  | refresh => cases area <;> rfl
  | insertFence token | removeFence token => rfl

end OnceBuild.ChangeTracker
