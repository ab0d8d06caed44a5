import OnceBuild.Actions.AvailableInput
import OnceBuild.Analysis.Observation
import OnceBuild.Graph.ChangeWindow
import OnceBuild.Lib.Assoc
import OnceBuild.Lib.Runs

/-!
# Remembering what building a target produced

Model of `TargetOutcomes`, of the analysis memo and of the builds that visit targets.  Visiting a
target takes its recorded outcome when nothing that the record names has changed.  Otherwise the
target is analysed, by running its implementation or by replaying a stored analysis, then its
actions run and the outcome is recorded.

An analysis and the actions of a target are one step each.  A name (`K`, `OutcomeKey`) is what the
program hashes.  `Analysed.ledger`, `Analysed.readAt` and the fields of `Record` below `outcome` are
bookkeeping that the program does not store.
-/

namespace OnceBuild.Graph

open Lib
open Analysis (Disk Host Request Question Answer Observer Observations UnchangedWorkspace
  expansionCouldDiffer observationsHold)
open ChangeTracker
open Actions (AvailableInput)
open Cas (Digest ActionResult)

/-! ## Analyses and outcomes -/

/-- A declared action; `X` is what only the runner reads. -/
structure DeclaredAction (X : Type) where
  inputs : List Text
  inheritParentEnv : Bool
  expandActions : Bool
  command : X

/-- What an implementation returns; `P` are provider values. -/
structure AnalysisBody (X P : Type) where
  actions : List (DeclaredAction X)
  provider : P
  declaredOutputs : List Text

inductive CacheState where
  | hit
  | miss
  | bypass
  deriving DecidableEq

structure PerActionOutcome where
  actionDigest : Digest
  identifier : Option Text
  index : Nat
  cacheState : CacheState
  durationMs : Int
  exitCode : Int

/-- `M` are input fingerprint manifests. -/
structure BuildOutcome (P M : Type) where
  provider : P
  actionDigest : Digest
  inputDigest : Option Digest
  inputFingerprint : Option M
  availableInputs : List (Text × AvailableInput)
  outputs : List Text
  cacheState : CacheState
  result : ActionResult
  cachedResults : List ActionResult
  intermediateOutputs : List Text
  perActionOutcomes : List PerActionOutcome

variable {X P M T E K : Type}

def hasUncachedActions (cacheState : CacheState) (actions : List PerActionOutcome) : Bool :=
  cacheState == .bypass || actions.any fun action => action.cacheState == .bypass

inductive SandboxMode where
  | off
  | inputs
  | copiedInputs
  deriving DecidableEq

/-- What running the actions of a target determines, whatever the cache held. -/
structure Product where
  actionDigest : Digest
  outputs : List Text
  result : ActionResult

/-- How a run of the actions went: which of them hit, what stays deferred. -/
structure RunReport (M : Type) where
  inputDigest : Option Digest
  inputFingerprint : Option M
  availableInputs : List (Text × AvailableInput)
  cacheState : CacheState
  cachedResults : List ActionResult
  intermediateOutputs : List Text
  perActionOutcomes : List PerActionOutcome

/-- `run_declared_actions_with`: `tools` is the environment that `expose_target_tools` adds for the
target, and the outputs of dependencies are given by their digests.  `none` is a failed action. -/
structure Runner (E K T X P : Type) where
  tools : E → K → T
  run : SandboxMode → K → T → AnalysisBody X P → List (Text × Digest) → Disk → Option Product

def buildOutcome (body : AnalysisBody X P) (product : Product) (report : RunReport M) :
    BuildOutcome P M where
  provider := body.provider
  actionDigest := product.actionDigest
  inputDigest := report.inputDigest
  inputFingerprint := report.inputFingerprint
  availableInputs := report.availableInputs
  outputs := product.outputs
  cacheState := report.cacheState
  result := product.result
  cachedResults := report.cachedResults
  intermediateOutputs := report.intermediateOutputs
  perActionOutcomes := report.perActionOutcomes

def AnalysisBody.declaredInputs (body : AnalysisBody X P) : List Text :=
  body.actions.flatMap DeclaredAction.inputs

/-- An action reads the environment of the process or plans further actions. -/
def AnalysisBody.requiresActionReplay (body : AnalysisBody X P) : Bool :=
  body.actions.any fun action => action.inheritParentEnv || action.expandActions

/-! ## Records -/

/-- The name of a build: the analysis, and the outcomes of the dependencies in any order. -/
structure OutcomeKey (K : Type) where
  analysisKey : K
  dependencyActionDigests : Multiset (Text × Digest)
  dependencyInputs : List (Text × Digest)
  deriving DecidableEq

/-- One target that a build visits.  `key` is its `analysis_key`: the target definition, the
providers of its dependencies, the configuration and the executable. -/
structure Visit (K : Type) where
  id : Text
  key : K
  actionDigests : List (Text × Digest)
  availableInputs : List (Text × AvailableInput)

def Visit.dependencyInputs (v : Visit K) : List (Text × Digest) :=
  v.availableInputs.map fun input => (input.1, input.2.blobDigest)

/-- `target_outcomes::key`. -/
def Visit.outcomeKey (v : Visit K) : OutcomeKey K :=
  ⟨v.key, (v.actionDigests : Multiset (Text × Digest)), v.dependencyInputs⟩

/-- A recorded expansion: the excluded patterns are not kept. -/
structure Expansion where
  kind : Analysis.Expansion
  package : RelPath
  patterns : List Text
  deriving DecidableEq

def Expansion.request (e : Expansion) : Request := ⟨e.kind, e.package, e.patterns, []⟩

def Expansion.ofRequest (r : Request) : Expansion := ⟨r.expansion, r.package, r.patterns⟩

structure Record (K T X P M : Type) where
  key : OutcomeKey K
  sources : List Text
  expansions : List Expansion
  outcome : BuildOutcome P M
  /-- The analysis behind the outcome, and the answers that it follows from. -/
  analysis : AnalysisBody X P
  ledger : List (Question × Answer)
  readAt : Nat
  tools : T

/-- Whether a changed path is one of `paths` or lies inside one of them. -/
def touchesAnyOf (changed : Finset Text) (paths : List Text) : Bool :=
  decide (∃ path ∈ changed, ∃ known ∈ paths, path = known ∨ (known ++ ['/']) <+: path)

def Record.readsAnyOf (host : Host) (r : Record K T X P M) (changed : Finset Text) : Bool :=
  if changed = ∅ then false
  else touchesAnyOf changed r.sources ||
    r.expansions.any fun e => expansionCouldDiffer host changed e.request

/-- A recorded action output that is neither intermediate nor on disk. -/
def outputMissing (disk : Disk) (outcome : BuildOutcome P M) : Bool :=
  outcome.result.outputs.any fun output =>
    !outcome.intermediateOutputs.contains output.1 &&
      (disk.tree.node (parts output.1)).isNone

/-- What a reused record reports: nothing ran, and what is on disk is not known. -/
def BuildOutcome.reused (outcome : BuildOutcome P M) : BuildOutcome P M :=
  { outcome with
    availableInputs := outcome.availableInputs.map fun input =>
      (input.1, { input.2 with materialized := false })
    cacheState := .hit
    perActionOutcomes := outcome.perActionOutcomes.map fun action =>
      { action with cacheState := .hit, durationMs := 0 } }

/-- `TargetOutcomes::reuse` of the record of a target. -/
def Record.reuse [DecidableEq K] (host : Host) (disk : Disk) (r : Record K T X P M)
    (key : OutcomeKey K) (sources outputs : Finset Text) : Option (BuildOutcome P M) :=
  if hasUncachedActions r.outcome.cacheState r.outcome.perActionOutcomes then none
  else if r.key ≠ key then none
  else if r.readsAnyOf host sources then none
  else if touchesAnyOf outputs r.outcome.outputs then none
  else if outputMissing disk r.outcome then none
  else some r.outcome.reused

def outPrefix : Text := ['.', 'o', 'n', 'c', 'e', '/', 'o', 'u', 't', '/']

/-! ## Analyses with a memo -/

/-- The implementations of the target kinds: what they return follows from the name of the analysis
and the answers they are given. -/
abbrev Engine (K X P : Type) := K → Ask Question Answer (Option (AnalysisBody X P))

structure MemoRecord (X P : Type) where
  body : AnalysisBody X P
  observations : Observations

/-- An analysis that was run or replayed at time `readAt`; a replayed one observed nothing. -/
structure Analysed (X P : Type) where
  body : AnalysisBody X P
  observations : Observations
  ledger : List (Question × Answer)
  readAt : Nat

abbrev Memo (K X P : Type) := K → Option (MemoRecord X P)

/-- `AnalysisMemo::write`. -/
def Memo.write [DecidableEq K] (memo : Memo K X P) (enabled : Bool) (key : K)
    (record : MemoRecord X P) : Memo K X P :=
  if enabled && record.observations.isComplete then
    fun k => if k = key then some record else memo k
  else memo

def analyze (engine : Engine K X P) (o : Observer E) (disk : Disk) (env : E) (now : Nat) (key : K) :
    Option (Analysed X P) :=
  let run := (engine key).run (o.answer disk env)
  run.1.map fun body => ⟨body, o.ledger run.2, run.2, now⟩

/-- `analyze_with_memo`; `enabled` when the memo is on and the analysis has a name. -/
def analyzeWithMemo [DecidableEq K] (engine : Engine K X P) (o : Observer E) (disk : Disk) (env : E)
    (now : Nat) (memo : Memo K X P) (enabled : Bool) (unchanged : UnchangedWorkspace) (key : K) :
    Option (Analysed X P × Memo K X P) :=
  let stored := if enabled then memo key else none
  match stored.filter fun record => observationsHold o disk env unchanged record.observations with
  | some record => some (⟨record.body, .empty, record.observations.entries, now⟩, memo)
  | none =>
    match analyze engine o disk env now key with
    | none => none
    | some analysed =>
      some (analysed, memo.write enabled key ⟨analysed.body, analysed.observations⟩)

def KnownChanges.unchangedWorkspace : KnownChanges → UnchangedWorkspace
  | .unknown => .unknown
  | .since sources _ => .except sources

/-! ## Builds -/

abbrev Records (K T X P M : Type) := List (Text × Record K T X P M)

/-- `BTreeMap::insert`. -/
def Records.insert (records : Records K T X P M) (id : Text) (r : Record K T X P M) :
    Records K T X P M :=
  (id, r) :: records.filter fun entry => !(entry.1 == id)

/-- A file of outcomes; `markedAt` is the time that its position marks. -/
structure StoredOutcomes (K T X P M : Type) where
  position : ChangePosition
  targets : Records K T X P M
  markedAt : Nat

/-- A target whose actions are still to run. -/
structure Analysing (K X P : Type) where
  visit : Visit K
  analysed : Analysed X P

structure OutcomeSession (K T X P M : Type) where
  sandbox : SandboxMode
  /-- The executable has an identity, so that analyses have names. -/
  named : Bool
  memoEnabled : Bool
  /-- `ONCE_TARGET_OUTCOMES` does not turn reuse off. -/
  enabled : Bool
  changes : KnownChanges
  openedAt : Nat
  stored : Records K T X P M
  windowFrom : Nat
  learned : Records K T X P M
  analysing : List (Analysing K X P)

structure OutcomeWorld (E K T X P M : Type) where
  history : History Disk
  env : E
  digestPosition : Option ChangePosition
  memo : Memo K X P
  outcomes : SandboxMode → Option (StoredOutcomes K T X P M)
  session : Option (OutcomeSession K T X P M)

/-- `TargetOutcomes::open`: the records are kept when they describe the position that the window
begins at. -/
def openRecords (file : Option (StoredOutcomes K T X P M)) (windowFrom : Option ChangePosition)
    (now : Nat) : Records K T X P M × Nat :=
  match file.filter fun stored => windowFrom == some stored.position with
  | some stored => (stored.targets, stored.markedAt)
  | none => ([], now)

/-- `TargetOutcomes::reuse_with_inputs`; `hasFingerprint` tells which outputs are known by
fingerprint only. -/
def OutcomeSession.reuseWithInputs [DecidableEq K] (host : Host) (disk : Disk)
    (s : OutcomeSession K T X P M) (hasFingerprint : Text → Digest → Bool) (v : Visit K) :
    Option (BuildOutcome P M) :=
  if v.dependencyInputs.any fun input => hasFingerprint input.1 input.2 then none
  else if !s.enabled then none
  else
    match s.changes, s.stored.lookup v.id with
    | .since sources outputs, some r => r.reuse host disk v.outcomeKey sources outputs
    | _, _ => none

/-- `TargetOutcomes::carry_forward`. -/
def OutcomeSession.carryForward (s : OutcomeSession K T X P M) (id : Text) :
    OutcomeSession K T X P M :=
  match s.stored.lookup id with
  | some r => { s with learned := s.learned.insert id r }
  | none => s

/-- The expansions among the observations; what else was asked is not recorded. -/
def expansionsOf (obs : Observations) : List Expansion :=
  obs.entries.filterMap fun entry =>
    match entry.1 with
    | .paths r => some (.ofRequest r)
    | _ => none

def Analysed.record (a : Analysed X P) (v : Visit K) (tools : T) (outcome : BuildOutcome P M) :
    Record K T X P M where
  key := v.outcomeKey
  sources := a.body.declaredInputs.filter fun input => !outPrefix.isPrefixOf input
  expansions := expansionsOf a.observations
  outcome := outcome
  analysis := a.body
  ledger := a.ledger
  readAt := a.readAt
  tools := tools

/-- `TargetOutcomes::record`, when the analysis has a name and need not be replayed. -/
def OutcomeSession.record (s : OutcomeSession K T X P M) (a : Analysing K X P) (tools : T)
    (outcome : BuildOutcome P M) : OutcomeSession K T X P M :=
  if s.named && !a.analysed.body.requiresActionReplay && s.enabled &&
      !hasUncachedActions outcome.cacheState outcome.perActionOutcomes then
    { s with learned := s.learned.insert a.visit.id (a.analysed.record a.visit tools outcome) }
  else s

inductive OutcomeOp (E K M : Type) where
  | watch (op : WatchOp Disk)
  /-- The environment or the host changes. -/
  | host (env : E)
  | start (sandbox : SandboxMode) (named memoEnabled enabled : Bool)
      (receipt : Option ChangePosition) (tracked : Bool)
  /-- Reuse the outcome of a target, or analyse it.  `intermediateCached` tells whether the cache
  has the intermediate outputs of a reused outcome. -/
  | visit (v : Visit K) (hasFingerprint : Text → Digest → Bool) (intermediateCached : Bool)
  /-- Run the actions of one of the analysed targets. -/
  | perform (n : Nat) (report : RunReport M)
  | stamp
  | close (dirty : Bool)

variable [DecidableEq K]

/-- The recorded outcome of a target, looked up when analyses have names. -/
def OutcomeWorld.recorded (host : Host) (w : OutcomeWorld E K T X P M)
    (s : OutcomeSession K T X P M) (v : Visit K) (hasFingerprint : Text → Digest → Bool) :
    Option (BuildOutcome P M) :=
  if s.named then s.reuseWithInputs host w.history.disk hasFingerprint v else none

/-- The first half of `build_one`; `none` when the analysis fails. -/
def OutcomeWorld.visit (engine : Engine K X P) (o : Observer E) (w : OutcomeWorld E K T X P M)
    (s : OutcomeSession K T X P M) (v : Visit K) (hasFingerprint : Text → Digest → Bool)
    (intermediateCached : Bool) : Option (OutcomeSession K T X P M × Memo K X P) :=
  if (w.recorded o.host s v hasFingerprint).isSome && intermediateCached then
    some (s.carryForward v.id, w.memo)
  else
    match analyzeWithMemo engine o w.history.disk w.env w.history.now w.memo
        (s.named && s.memoEnabled) s.changes.unchangedWorkspace v.key with
    | none => none
    | some (analysed, memo) => some ({ s with analysing := ⟨v, analysed⟩ :: s.analysing }, memo)

/-- The second half of `build_one`; `none` when an action fails. -/
def OutcomeWorld.perform (runner : Runner E K T X P) (w : OutcomeWorld E K T X P M)
    (s : OutcomeSession K T X P M) (a : Analysing K X P) (report : RunReport M) :
    Option (OutcomeSession K T X P M) :=
  let tools := runner.tools w.env a.visit.key
  match runner.run s.sandbox a.visit.key tools a.analysed.body a.visit.dependencyInputs
      w.history.disk with
  | none => none
  | some product => some (s.record a tools (buildOutcome a.analysed.body product report))

/-- The session of a build that just took its snapshot. -/
def OutcomeWorld.openSession (w : OutcomeWorld E K T X P M) (sandbox : SandboxMode)
    (named memoEnabled enabled : Bool) (receipt : Option ChangePosition) (tracked : Bool) :
    OutcomeSession K T X P M :=
  let opened := openRecords (w.outcomes sandbox) w.digestPosition w.history.now
  { sandbox := sandbox
    named := named
    memoEnabled := memoEnabled
    enabled := enabled
    changes := initialChanges w.history receipt w.digestPosition tracked
    openedAt := w.history.now
    stored := opened.1
    windowFrom := opened.2
    learned := []
    analysing := [] }

/-- `TargetOutcomes::save` at the position of the tracker. -/
def OutcomeWorld.save (w : OutcomeWorld E K T X P M) (s : OutcomeSession K T X P M) :
    SandboxMode → Option (StoredOutcomes K T X P M) :=
  if s.enabled && !s.learned.isEmpty then
    fun sandbox =>
      if sandbox = s.sandbox then
        some ⟨w.history.tracker.position, s.learned, w.history.delivered⟩
      else w.outcomes sandbox
  else w.outcomes

def outcomeStep (engine : Engine K X P) (o : Observer E) (runner : Runner E K T X P)
    (w : OutcomeWorld E K T X P M) : OutcomeOp E K M → Option (OutcomeWorld E K T X P M)
  | .watch op =>
    match w.history.step op with
    | some h => some { w with history := h }
    | none => none
  | .host env => some { w with env := env }
  | .start sandbox named memoEnabled enabled receipt tracked =>
    if w.session.isNone ∧ (tracked = true → w.history.Settled) then
      some { w with
        session := some (w.openSession sandbox named memoEnabled enabled receipt tracked) }
    else none
  | .visit v hasFingerprint intermediateCached =>
    match w.session with
    | none => none
    | some s =>
      match w.visit engine o s v hasFingerprint intermediateCached with
      | some (s', memo) => some { w with session := some s', memo := memo }
      | none => some { w with session := none }
  | .perform n report =>
    match w.session with
    | none => none
    | some s =>
      match s.analysing[n]? with
      | none => none
      | some a => some { w with
          session := w.perform runner { s with analysing := s.analysing.eraseIdx n } a report }
  | .stamp =>
    match w.session with
    | none => none
    | some s => some { w with
        digestPosition := some w.history.tracker.position
        outcomes := w.save s
        session := none }
  | .close dirty => some { w with
      digestPosition := if dirty then none else w.digestPosition
      session := none }

def OutcomeWorld.initial (base : Disk) (env : E) (instanceId : Nat) : OutcomeWorld E K T X P M where
  history := .start base instanceId
  env := env
  digestPosition := none
  memo := fun _ => none
  outcomes := fun _ => none
  session := none

end OnceBuild.Graph
