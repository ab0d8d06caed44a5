import OnceBuild.Graph.ChangeWindow
import OnceBuild.Lib.Runs
import OnceBuild.Resolution.Derivation

/-!
# Remembering a derived graph

Model of `ResolutionCache` and of the builds that use it.  A derived graph is stored with a record
of what deriving it read.  A later build that knows which paths changed takes the stored graph when
no changed path is one that the derivation read or would have read, and the host still answers its
questions as recorded.

Deriving a graph is one step.  `Derivation.readAt` and `windowFrom` are bookkeeping: the time of the
derivation, and the time that the position of the recorded digests marks.
-/

namespace OnceBuild.Resolution

open Lib
open Analysis (Disk Host)
open ChangeTracker OnceBuild.Graph

/-- The glob library as the cache uses it: `Pattern::matches` takes the library's default options,
under which a wildcard also matches separators. -/
structure GlobHost extends Host where
  matchesDefault : Text → Text → Bool
  matchesDefault_of_isMatch : ∀ pattern t, isMatch pattern t = true → matchesDefault pattern t =
    true

/-! ## Records and changes -/

/-- Whether a changed path is one the resolver read, or one that its patterns select. -/
def ResolverInputs.touchedBy (host : GlobHost) (r : ResolverInputs) (path : Text) : Bool :=
  let start := if r.package.1 = [] then [] else render r.package.1 ++ ['/']
  (r.paths.any fun input => path == input || path == start ++ input) ||
    (stripPrefix start path).any fun relative =>
      r.patterns.any fun pattern => host.valid pattern && host.matchesDefault pattern relative

variable {A D Q W E P K : Type}

def ResolutionRecord.touchedBy (host : GlobHost) (record : ResolutionRecord Q W)
    (changed : Finset Text) : Bool :=
  record.resolvers.any fun r => decide (∃ path ∈ changed, r.touchedBy host path = true)

/-- The host as resolvers see it, in the state `E`: what it answers, which questions run a command,
which answers cannot be described, and what identifies the program that would run. -/
structure Observer (E Q W P : Type) where
  answer : Disk → E → Q → W
  isCommand : Q → Bool
  recordable : Q → Bool
  programIdentity : E → Q → Option P

/-- An entry of the ledger. -/
structure Observation (Q W P : Type) where
  question : Q
  answer : W
  program : Option P

/-- The ledger of a derivation that ran in state `env`. -/
def observe (observer : Observer E Q W P) (env : E) (asked : List (Q × W)) :
    List (Observation Q W P) :=
  asked.map fun qa => ⟨qa.1, qa.2, observer.programIdentity env qa.1⟩

/-- `observation_holds` with `CommandPolicy::TrustDeclaredInputs`. -/
def observationHolds [DecidableEq W] [DecidableEq P] (observer : Observer E Q W P) (disk : Disk)
    (env : E) (o : Observation Q W P) : Bool :=
  if observer.isCommand o.question then
    o.program.isSome && observer.programIdentity env o.question == o.program
  else observer.answer disk env o.question == o.answer

/-! ## Stored graphs -/

abbrev TargetGraph (A D : Type) := Text → Option (Target A × List D)

/-- `graph_from_owned_targets_with_schemas`, as the map that a session makes of it. -/
def graphOf (targets : List (Target A)) (diagnostics : List (Text × D)) : TargetGraph A D :=
  fun id => (targets.filter fun t => t.id == id).getLast?.map fun t =>
    (t, (diagnostics.filter fun d => d.1 == id).map Prod.snd)

/-- A question a graph can be derived for, by its key: the prelude, the configuration and the
executable decide the kinds, and the workspace declares the seeds. -/
structure Questions (A D Q W K : Type) where
  kinds : K → Kinds A D Q W
  seeds : K → List (Target A)

structure Derivation (A D Q W P : Type) where
  graph : TargetGraph A D
  record : ResolutionRecord Q W
  observations : List (Observation Q W P)
  complete : Bool
  readAt : Nat

/-- `load_graph_workspace_from_targets_recorded` at time `now`. -/
def derive (questions : Questions A D Q W K) (host : Host) (observer : Observer E Q W P)
    (disk : Disk) (env : E) (now : Nat) (key : K) : Except ResolutionError (Derivation A D Q W P) :=
  match expandWorkspaceTargets (questions.kinds key) ⟨host, disk, observer.answer disk env⟩
      (questions.seeds key) with
  | .error e => .error e
  | .ok ((targets, diagnostics), record) => .ok {
      graph := graphOf targets diagnostics
      record := record
      observations := observe observer env record.asked
      complete := record.asked.all fun qa => observer.recordable qa.1
      readAt := now }

structure Stored (A D Q W P K : Type) where
  key : K
  position : ChangePosition
  derivation : Derivation A D Q W P

/-- `ResolutionCache::reuse`. -/
def reuse [DecidableEq W] [DecidableEq P] [DecidableEq K] (host : GlobHost)
    (observer : Observer E Q W P) (disk : Disk) (env : E) (enabled : Bool)
    (stored : Option (Stored A D Q W P K)) (key : K) (changes : KnownChanges) :
    Option (TargetGraph A D) :=
  match changes, stored with
  | .since sources _, some stored =>
    if !enabled then none
    else if stored.key ≠ key then none
    else if stored.derivation.record.touchedBy host sources then none
    else if stored.derivation.complete &&
        stored.derivation.observations.all (observationHolds observer disk env) then
      some stored.derivation.graph
    else none
  | _, _ => none

/-- `ResolutionCache::store`. -/
def store (enabled : Bool) (stored : Option (Stored A D Q W P K)) (key : K)
    (position : ChangePosition) (derivation : Derivation A D Q W P) : Option (Stored A D Q W P K) :=
  if enabled && derivation.complete then some ⟨key, position, derivation⟩ else stored

/-! ## Builds -/

/-- A build that took its snapshot; `loaded` once it has its graph, with the derivation when the
graph was not reused. -/
structure GraphSession (A D Q W P K : Type) where
  /-- `ONCE_RESOLUTION_CACHE` does not turn the cache off. -/
  enabled : Bool
  changes : KnownChanges
  openedAt : Nat
  windowFrom : Nat
  loaded : Option (K × Option (Derivation A D Q W P))

structure GraphWorld (A D Q W E P K : Type) where
  history : History Disk
  env : E
  /-- The position stamped on the recorded digests. -/
  digestPosition : Option ChangePosition
  digestTime : Nat
  stored : Option (Stored A D Q W P K)
  session : Option (GraphSession A D Q W P K)

inductive GraphOp (E K : Type) where
  | watch (op : WatchOp Disk)
  /-- The environment or the host changes. -/
  | host (env : E)
  | start (enabled : Bool) (receipt : Option ChangePosition) (tracked : Bool)
  | load (key : K)
  | stamp
  /-- The build ends without a position.  Its digests are written without one when it read any. -/
  | close (dirty : Bool)

variable [DecidableEq W] [DecidableEq P] [DecidableEq K]

/-- `load_workspace_with_configuration`: the graph is reused or derived. -/
def GraphWorld.load (questions : Questions A D Q W K) (host : GlobHost)
    (observer : Observer E Q W P) (w : GraphWorld A D Q W E P K) (s : GraphSession A D Q W P K)
    (key : K) : Option (GraphSession A D Q W P K) :=
  match reuse host observer w.history.disk w.env s.enabled w.stored key s.changes with
  | some _ => some { s with loaded := some (key, none) }
  | none =>
    match derive questions host.toHost observer w.history.disk w.env w.history.now key with
    | .ok derivation => some { s with loaded := some (key, some derivation) }
    | .error _ => none

def GraphWorld.recordResolution (w : GraphWorld A D Q W E P K) (s : GraphSession A D Q W P K) :
    Option (Stored A D Q W P K) :=
  match s.loaded with
  | some (key, some derivation) =>
    store s.enabled w.stored key w.history.tracker.position derivation
  | _ => w.stored

def graphStep (questions : Questions A D Q W K) (host : GlobHost) (observer : Observer E Q W P)
    (w : GraphWorld A D Q W E P K) : GraphOp E K → Option (GraphWorld A D Q W E P K)
  | .watch op =>
    match w.history.step op with
    | some h => some { w with history := h }
    | none => none
  | .host env => some { w with env := env }
  | .start enabled receipt tracked =>
    if w.session.isNone ∧ (tracked = true → w.history.Settled) then
      let changes := initialChanges w.history receipt w.digestPosition tracked
      some { w with session := some ⟨enabled, changes, w.history.now, w.digestTime, none⟩ }
    else none
  | .load key =>
    match w.session with
    | some s => some { w with session := w.load questions host observer s key }
    | none => none
  | .stamp =>
    match w.session with
    | some s => some { w with
        digestPosition := some w.history.tracker.position
        digestTime := w.history.delivered
        stored := w.recordResolution s
        session := none }
    | none => none
  | .close dirty => some { w with
      digestPosition := if dirty then none else w.digestPosition
      session := none }

def GraphWorld.initial (base : Disk) (env : E) (instanceId : Nat) : GraphWorld A D Q W E P K where
  history := .start base instanceId
  env := env
  digestPosition := none
  digestTime := 0
  stored := none
  session := none

end OnceBuild.Resolution
