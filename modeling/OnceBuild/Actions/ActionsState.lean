import OnceBuild.Actions.PendingOutputs

/-!
# Running the declared actions of a target

Model of `DeclaredActionsState`, `track_cached_result` and the loop of `run_declared_actions_with`.
The actions of a batch run at the same time; as they do not touch each other's paths, they are
started here one after the other.  An action whose input cannot be hashed ends the build; here it
runs without a digest, so that every run of the runner is a run of the model.

`eagerRun` is what the runner stands for: every cache hit is put on disk as soon as it is recorded.
-/

namespace OnceBuild.Actions

open Lib
open Cas (Digest)

variable {C : Type}

/-! ## Keys -/

/-- What is hashed into the digest of an action.  The kind of an input is not. -/
structure ActionKey where
  command : Text
  cleanPaths : List Path
  createDirs : List Path
  stdout : Option Path
  stderr : Option Path
  argFiles : List Path
  preparePath : Option (Path × PreparePathMode)
  inputs : List (Path × Digest)
  priorActions : Option Digest

/-- The workspace, the cache and the commands as the runner meets them. -/
structure ActionHost (C : Type) where
  /-- How paths compare in a workspace. -/
  paths : Disk C → PathHost
  /-- The tree that the cache keeps under a digest. -/
  blob : Digest → Disk C
  digestSourcePath : Disk C → Path → Option Digest
  digest : ActionKey → Digest
  extendPriorActionsDigest : Option Digest → Nat → Option Digest → Digest
  /-- The digests of the outputs that an action leaves when it runs. -/
  execute : DeclaredAction → Disk C → Path → Digest

variable (h : ActionHost C)

/-- The digest that stands for a declared input in the key: that of the closest available output, or
of the source on disk. -/
def inputDigest (available : AvailableInputs) (disk : Disk C) (input : Path) : Option Digest :=
  match closest available input with
  | some (_, found) => some found.blobDigest
  | none => h.digestSourcePath disk input

/-- `compose_input_fingerprint_with_available` and the digest of the action. -/
def actionDigest (available : AvailableInputs) (priorActions : Option Digest)
    (disk : Disk C) (a : DeclaredAction) : Option Digest := do
  let inputs ← (sortPaths a.inputs).mapM fun input => do
    let digest ← inputDigest h available disk input
    return (input, digest)
  return h.digest
    { command := a.command
      cleanPaths := a.cleanPaths
      createDirs := a.createDirs
      stdout := a.stdout
      stderr := a.stderr
      argFiles := a.argFiles
      preparePath := a.preparePath
      inputs := inputs
      priorActions := if a.dependsOnPriorActions then priorActions else none }

/-! ## Recording outcomes -/

structure CachedResultPolicy where
  intermediate : Bool
  restoresPrior : Bool
  touched : List TouchedPath

def CachedResultPolicy.forAction (a : DeclaredAction) (batchSize : Nat) : CachedResultPolicy where
  intermediate := a.intermediate
  restoresPrior := batchSize == 1 && a.dependsOnPriorActions
  touched := a.touchedPaths

/-- `DeclaredActionOutcome`; `hit` tells a cache hit from a miss or an uncacheable action. -/
structure ActionOutcome (C : Type) where
  declared : DeclaredAction
  digest : Option Digest
  hit : Bool
  outputs : Outputs
  restored : Restoration
  /-- The disk on which the command started, if it ran. -/
  startedOn : Option (Disk C)

structure DeclaredActionsState where
  actionDigests : List (Option Digest)
  priorActionsDigest : Option Digest
  availableInputs : AvailableInputs
  /-- The declared outputs so far. -/
  outputs : List Path
  /-- `result.outputs`. -/
  resultOutputs : Path → Option Digest
  cachedResults : List Outputs
  pendingIntermediate : List Outputs
  intermediateOutputs : Path → Bool

def DeclaredActionsState.new (availableInputs : AvailableInputs) : DeclaredActionsState where
  actionDigests := []
  priorActionsDigest := none
  availableInputs := availableInputs
  outputs := []
  resultOutputs := fun _ => none
  cachedResults := []
  pendingIntermediate := []
  intermediateOutputs := fun _ => false

/-- An available output of which a restoration says that it is on disk. -/
def markInput (ready : List Path) (path : Path) (input : AvailableInput) : AvailableInput :=
  if ready.contains path then { input with materialized := true } else input

def markAvailable (available : AvailableInputs) (ready : List Path) : AvailableInputs :=
  fun path => (available path).map (markInput ready path)

def insideOutputs (outputs : Outputs) (path : Path) : Bool :=
  outputs.keys.any fun parent => parent.isPrefixOf path && !(parent == path)

def pruneReplacedDescendants {V : Type} (previous : Path → Option V) (replacements : Outputs) :
    Path → Option V :=
  fun path => if insideOutputs replacements path then none else previous path

def forgetReplacedMaterializations (inputs : AvailableInputs) (touched : List TouchedPath)
    (produced : Outputs) : AvailableInputs := fun path =>
  (inputs path).map fun input =>
    if produced.keys.any fun root => root.isPrefixOf path then input
    else if touched.any fun t =>
        match t with
        | .replaced replaced => replaced.isPrefixOf path
        | .created _ => false then
      { input with materialized := false }
    else input

def trackCachedResult (results : List Outputs) (outcome : ActionOutcome C)
    (policy : CachedResultPolicy) (intermediate : Bool) : List Outputs :=
  if !outcome.hit && policy.restoresPrior then []
  else
    let results := if outcome.hit then results else results.map fun result => result.retain
      fun path => !policy.touched.any fun touched => touched.conflictsWith path
    let results := results.map fun result => result.retain fun path =>
      !insideOutputs outcome.outputs path && !outcome.outputs.keys.contains path
    let results := results.filter fun result => !result.isEmpty
    if outcome.hit && policy.intermediate == intermediate && !outcome.outputs.isEmpty then
      results ++ [outcome.outputs]
    else results

namespace DeclaredActionsState

def pending (st : DeclaredActionsState) : PendingResults :=
  ⟨st.cachedResults, st.pendingIntermediate⟩

def markRestored (st : DeclaredActionsState) (restored : Restoration) : DeclaredActionsState :=
  let keep := fun (result : Outputs) => result.retain fun path => !restored.paths.contains path
  { st with
    availableInputs := markAvailable st.availableInputs restored.ready
    cachedResults := (st.cachedResults.map keep).filter fun result => !result.isEmpty
    pendingIntermediate := (st.pendingIntermediate.map keep).filter fun result => !result.isEmpty }

/-- The outputs of an outcome as later actions of the target find them. -/
def extendAvailable (available : AvailableInputs) (outcome : ActionOutcome C) : AvailableInputs :=
  fun path =>
    match outcome.outputs.get path with
    | some digest => some ⟨digest, true, !outcome.hit⟩
    | none => pruneReplacedDescendants available outcome.outputs path

/-- `record` after the restored outputs have been marked. -/
def add (h : ActionHost C) (st : DeclaredActionsState) (outcome : ActionOutcome C)
    (policy : CachedResultPolicy) : DeclaredActionsState :=
  let available := extendAvailable st.availableInputs outcome
  { actionDigests := st.actionDigests ++ [outcome.digest]
    priorActionsDigest := some (h.extendPriorActionsDigest st.priorActionsDigest
      st.actionDigests.length outcome.digest)
    availableInputs := if outcome.hit then available
      else forgetReplacedMaterializations available policy.touched outcome.outputs
    outputs := st.outputs
    resultOutputs := fun path =>
      match outcome.outputs.get path with
      | some digest => some digest
      | none => pruneReplacedDescendants st.resultOutputs outcome.outputs path
    cachedResults := trackCachedResult st.cachedResults outcome policy false
    pendingIntermediate := trackCachedResult st.pendingIntermediate outcome policy true
    intermediateOutputs := fun path =>
      if outcome.outputs.keys.contains path then policy.intermediate
      else st.intermediateOutputs path }

/-- `DeclaredActionsState::record`. -/
def record (h : ActionHost C) (st : DeclaredActionsState) (outcome : ActionOutcome C)
    (policy : CachedResultPolicy) : DeclaredActionsState :=
  (st.markRestored outcome.restored).add h outcome policy

end DeclaredActionsState

/-! ## Batches -/

/-- What the cache says about an action; the digests are those of the cached result. -/
inductive Lookup where
  | hit (digests : Path → Digest)
  /-- Another process ran the action while this one waited for its lock. -/
  | lateHit (digests : Path → Digest)
  /-- The action runs, also when it is not cacheable. -/
  | miss

def restoreFor (pending : PendingResults) (available : AvailableInputs)
    (a : DeclaredAction) (disk : Disk C) : Disk C × Restoration :=
  restoreWith (h.paths disk) h.blob pending available a disk

def runDeclaredAction (pending : PendingResults) (available : AvailableInputs)
    (priorActions : Option Digest) (a : DeclaredAction) (lookup : Lookup) (disk : Disk C) :
    Disk C × ActionOutcome C :=
  let digest := actionDigest h available priorActions disk a
  match lookup with
  | .hit digests => (disk, ⟨a, digest, true, outputsAt a.outputs digests, ⟨[], []⟩, none⟩)
  | .lateHit digests =>
    let ready := restoreFor h pending available a disk
    (ready.1, ⟨a, digest, true, outputsAt a.outputs digests, ready.2, none⟩)
  | .miss =>
    let ready := restoreFor h pending available a disk
    let outputs := outputsAt a.outputs (h.execute a ready.1)
    (writeAll h.blob outputs.entries ready.1, ⟨a, digest, false, outputs, ready.2, some ready.1⟩)

/-- Before a batch of several actions, what each of them needs is put on disk. -/
def prepareBatch (h : ActionHost C) (disk : Disk C) (st : DeclaredActionsState) :
    List (DeclaredAction × Lookup) → Disk C × DeclaredActionsState
  | [] => (disk, st)
  | (a, _) :: batch =>
    let ready := restoreFor h st.pending st.availableInputs a disk
    prepareBatch h ready.1 (st.markRestored ready.2) batch

def runAll (h : ActionHost C) (pending : PendingResults) (available : AvailableInputs)
    (priorActions : Option Digest) (disk : Disk C) :
    List (DeclaredAction × Lookup) → Disk C × List (ActionOutcome C)
  | [] => (disk, [])
  | (a, lookup) :: batch =>
    let ran := runDeclaredAction h pending available priorActions a lookup disk
    let rest := runAll h pending available priorActions ran.1 batch
    (rest.1, ran.2 :: rest.2)

/-- A command that started: its action, the outputs declared before it, the digest of the action and
the disk. -/
structure ActionStart (C : Type) where
  declared : DeclaredAction
  earlier : List Path
  available : AvailableInputs
  digest : Option Digest
  disk : Disk C

structure ActionsWorld (C : Type) where
  disk : Disk C
  state : DeclaredActionsState
  /-- The commands that ran so far. -/
  starts : List (ActionStart C)

def ActionOutcome.start (outcome : ActionOutcome C) (earlier : List Path)
    (available : AvailableInputs) : Option (ActionStart C) :=
  outcome.startedOn.map fun disk => ⟨outcome.declared, earlier, available, outcome.digest, disk⟩

def runBatch (w : ActionsWorld C) (batch : List (DeclaredAction × Lookup)) : ActionsWorld C :=
  let single := batch.length == 1
  let ready := if single then (w.disk, w.state) else prepareBatch h w.disk w.state batch
  let st := ready.2
  let pending := if single then st.pending else .empty
  let ran := runAll h pending st.availableInputs st.priorActionsDigest ready.1 batch
  let started := { st with outputs := st.outputs ++ batch.flatMap fun item => item.1.outputs }
  { disk := ran.1
    state := ran.2.foldl (fun st outcome =>
      st.record h outcome (.forAction outcome.declared batch.length)) started
    starts := w.starts ++ ran.2.filterMap fun outcome =>
      outcome.start w.state.outputs st.availableInputs }

/-- All actions of a target, up to `limit` at the same time. -/
def runDeclaredActions (limit : Nat) (w : ActionsWorld C)
    (queue : List (DeclaredAction × Lookup)) : ActionsWorld C :=
  (batches limit queue).foldl (runBatch h) w

/-- The disk after the deferred results of a finished target were put in place. -/
def materializeCachedOutputs (w : ActionsWorld C) : Disk C :=
  writeAll h.blob (w.state.cachedResults.flatMap Outputs.entries) w.disk

/-! ## Eager execution -/

/-- A disk and the disks on which commands started so far. -/
structure EagerWorld (C : Type) where
  disk : Disk C
  starts : List (DeclaredAction × Disk C)

def eagerAction (w : EagerWorld C) (item : DeclaredAction × Lookup) : EagerWorld C :=
  match item.2 with
  | .hit digests =>
    { w with disk := writeAll h.blob (outputsAt item.1.outputs digests).entries w.disk }
  | .lateHit digests =>
    { w with disk := writeAll h.blob (outputsAt item.1.outputs digests).entries w.disk }
  | .miss =>
    { disk := writeAll h.blob (outputsAt item.1.outputs (h.execute item.1 w.disk)).entries w.disk
      starts := w.starts ++ [(item.1, w.disk)] }

def eagerRun (w : EagerWorld C) (queue : List (DeclaredAction × Lookup)) : EagerWorld C :=
  queue.foldl (eagerAction h) w

end OnceBuild.Actions
