import OnceBuild.Graph.TargetOutcomes

/-!
# Receipts of whole builds

Model of `build_receipt` and of the `build` command around it.  A build that ends keeps a receipt of
what it observed: the environment, the fingerprints of host paths, the digests of sources that
changed while it ran, and the digests of its outputs.  The next build of the same target returns the
receipt's record when all of this still holds and the tracker knows of no other change.

A build is a computation that asks about sources, environment variables and host paths, one question
a step, so that edits can happen between any two of them.  The environment of a process does not
change while it runs.  `Receipt.request` and the fields below it are bookkeeping.
-/

namespace OnceBuild.Graph

open Lib
open ChangeTracker

/-! ## Builds as computations -/

/-- What names a receipt. -/
structure BuildRequest where
  target : Text
  pathSuffix : Text
  sandbox : SandboxMode
  deriving DecidableEq

/-- `digest` asks for the digest of a declared input; `source` is any other question about sources,
such as an expansion or a text; `G` are questions about one host path. -/
inductive BuildQuestion (Q G : Type) where
  | digest (path : Text)
  | source (question : Q)
  | env (name : Text)
  | host (path : Text) (question : G)

inductive BuildAnswer (D W : Type) where
  | digest (found : Option D)
  | value (answer : W)
  | env (value : Option Text)

abbrev Environment := List (Text × Text)

/-- `S` are workspaces, `H` states of the host and `F` metadata fingerprints. -/
structure BuildHost (S D Q G W H F : Type) where
  digestSourcePath : S → Text → Option D
  source : S → Q → W
  pathExists : S → Text → Bool
  outputDigest : S → Text → Option D
  describeOutput : S → Text → Option F
  host : H → Text → G → W
  fingerprint : H → Text → Option F

/-- What a build determines: its outputs by their digests, and the rest of its record. -/
structure BuildResult (D I : Type) where
  outputs : List (Text × D)
  info : I

/-- The builds of the executable `X`; `none` is a failed build. -/
abbrev Builder (X Q G D W I : Type) :=
  X → BuildRequest → Ask (BuildQuestion Q G) (BuildAnswer D W) (Option (BuildResult D I))

variable {S D Q G W H F X I : Type} (b : BuildHost S D Q G W H F) (disk : S)

def BuildHost.answer (h : H) (env : Environment) : BuildQuestion Q G → BuildAnswer D W
  | .digest path => .digest (b.digestSourcePath disk path)
  | .source question => .value (b.source disk question)
  | .env name => .env (env.lookup name)
  | .host path question => .value (b.host h path question)

/-- `CapabilityRunRecord`. -/
structure RunRecord (I : Type) where
  outputs : List Text
  cache : CacheState
  info : I

/-! ## Receipts -/

structure Receipt (D Q G W F X I : Type) where
  target : Text
  sandbox : Text
  environment : List (Text × Option Text)
  inheritedEnvironment : Environment
  hostPaths : List (Text × Option F)
  sourceDigests : List (Text × D)
  produced : List (Text × D)
  deferred : List Text
  executableFingerprint : X
  position : ChangePosition
  record : RunRecord I
  request : BuildRequest
  result : BuildResult D I
  ledger : List (BuildQuestion Q G × BuildAnswer D W)
  /-- The time that the position marks, and the time when the receipt was written. -/
  markedAt : Nat
  takenAt : Nat

def sandboxKey : SandboxMode → Text
  | .off => ['O', 'f', 'f']
  | .inputs => ['I', 'n', 'p', 'u', 't', 's']
  | .copiedInputs => ['C', 'o', 'p', 'i', 'e', 'd', 'I', 'n', 'p', 'u', 't', 's']

/-- What `receipt_path` hashes. -/
def receiptKey (r : BuildRequest) : Text :=
  r.target ++ r.pathSuffix ++ Char.ofNat 0 :: sandboxKey r.sandbox

structure OutputEntry (D F : Type) where
  fingerprint : F
  digest : D

abbrev OutputEntries (D F : Type) := Text → Option (OutputEntry D F)

def strictlyInside (root path : Text) : Bool := (root ++ ['/']).isPrefixOf path

/-- `SourceDigestCache::record_outputs`. -/
def recordOutputs (outputs : List (Text × D))
    (entries : OutputEntries D F) : OutputEntries D F := fun path =>
  if outputs.any fun output => strictlyInside path output.1 then none
  else
    match outputs.lookup path with
    | some digest => (b.describeOutput disk path).map fun f => ⟨f, digest⟩
    | none =>
      if outputs.any fun output => strictlyInside output.1 path then none else entries path

variable [DecidableEq D] [DecidableEq F] [DecidableEq X]

/-- `SourceDigestCache::output_matches` of a cache opened without known changes. -/
def outputMatches (entries : OutputEntries D F) (output : Text) (expected : D) : Bool :=
  match b.describeOutput disk output, entries output with
  | some described, some entry => entry.digest == expected && entry.fingerprint == described
  | _, _ => false

def producedOver (produced : List (Text × D)) (path : Text) : Option (Text × D) :=
  produced.find? fun output => output.1 == path || strictlyInside output.1 path

def outputChangesAreOurOwn (entries : OutputEntries D F)
    (produced : List (Text × D)) : Option (Finset Text) → Bool
  | none => false
  | some changes =>
    if changes = ∅ then true
    else if produced.isEmpty then false
    else decide (∀ path ∈ changes, (producedOver produced path).any
      (fun output => outputMatches b disk entries output.1 output.2) = true)

/-- `source_changes_match` of a receipt. -/
def sourceChangesMatch (expected : List (Text × D)) : Option (Finset Text) → Bool
  | none => false
  | some changes => decide (∀ path ∈ changes, (expected.lookup path).any
      (fun digest => b.digestSourcePath disk path == some digest) = true)

/-- Why a receipt cannot be used. -/
inductive Miss where
  | target
  | sandbox
  | filesystemTracker
  | sourceChange
  | outputChange
  | environment
  | hostPath
  | executable
  | noDeclaredOutputs
  | output
  deriving DecidableEq

/-- The checks of `load`, in order. -/
def Receipt.miss (h : H) (executable : X)
    (entries : OutputEntries D F) (request : BuildRequest) (env : Environment)
    (snapshot : ChangeSnapshot) (r : Receipt D Q G W F X I) : Option Miss :=
  if r.target ≠ request.target then some .target
  else if r.sandbox ≠ sandboxKey request.sandbox then some .sandbox
  else if r.position.instanceId ≠ snapshot.position.instanceId then some .filesystemTracker
  else if r.position.sourceGeneration ≠ snapshot.position.sourceGeneration ∧
      sourceChangesMatch b disk r.sourceDigests snapshot.sourceChanges = false then
    some .sourceChange
  else if r.position.outputGeneration ≠ snapshot.position.outputGeneration ∧
      outputChangesAreOurOwn b disk entries r.produced snapshot.outputChanges = false then
    some .outputChange
  else if (r.environment.any fun e => !(env.lookup e.1 == e.2)) = true ∨
      r.inheritedEnvironment ≠ env then
    some .environment
  else if (r.hostPaths.any fun p => !(b.fingerprint h p.1 == p.2)) = true then some .hostPath
  else if r.executableFingerprint ≠ executable then some .executable
  else if r.record.outputs = [] then some .noDeclaredOutputs
  else if (r.record.outputs.all fun output =>
      r.deferred.contains output || b.pathExists disk output) = false then
    some .output
  else none

/-- `load`: the record, and the receipt as it is written back. -/
def Receipt.load (h : H) (executable : X)
    (entries : OutputEntries D F) (request : BuildRequest) (env : Environment)
    (snapshot : ChangeSnapshot) (delivered now : Nat) (r : Receipt D Q G W F X I) :
    Option (RunRecord I × Receipt D Q G W F X I) :=
  match r.miss b disk h executable entries request env snapshot with
  | some _ => none
  | none =>
    let advanced :=
      if r.position = snapshot.position then r
      else { r with
        position := snapshot.position
        sourceDigests := []
        markedAt := delivered
        takenAt := now }
    some ({ r.record with cache := .hit }, advanced)

/-! ## The end of a build -/

def observedDigests (ledger : List (BuildQuestion Q G × BuildAnswer D W)) : List (Text × D) :=
  ledger.filterMap fun entry =>
    match entry with
    | (.digest path, .digest (some digest)) => some (path, digest)
    | _ => none

/-- A changed path that was observed has its observed digest; one that was not is gone. -/
def changeMatches (observed : List (Text × D)) (path : Text) : Bool :=
  match observed.lookup path with
  | none => !b.pathExists disk path
  | some expected => b.digestSourcePath disk path == some expected

/-- `SourceDigestCache::changes_match`. -/
def changesMatch (observed : List (Text × D)) : Option (Finset Text) → Bool
  | none => false
  | some changes => decide (∀ path ∈ changes, changeMatches b disk observed path = true)

def graphToolEnvironmentKeys : List Text :=
  ["DEVELOPER_DIR", "ELIXIR_ERL_OPTIONS", "ERL_AFLAGS", "ERL_FLAGS", "GEM_HOME", "GEM_PATH",
    "GOENV", "GOFLAGS", "GOROOT", "HOME", "JAVA_HOME", "JAVA_TOOL_OPTIONS", "JDK_JAVA_OPTIONS",
    "LANG", "LC_ALL", "LC_CTYPE", "MISE_CACHE_DIR", "MISE_CONFIG_DIR", "MISE_DATA_DIR",
    "MISE_ENABLE_TOOLS", "MISE_ENV", "MISE_PROFILE", "MIX_ENV", "NODE_OPTIONS", "PATH",
    "PYTHONHOME", "PYTHONPATH", "PYTHONWARNINGS", "RUBYOPT", "RUSTFLAGS", "RUSTUP_TOOLCHAIN",
    "SDKROOT", "USERPROFILE", "ZIG_GLOBAL_CACHE_DIR", "_JAVA_OPTIONS"].map String.toList

def observedEnvironment (env : Environment)
    (ledger : List (BuildQuestion Q G × BuildAnswer D W)) : List (Text × Option Text) :=
  let asked := ledger.filterMap fun entry =>
    match entry.1 with
    | .env name => some name
    | _ => none
  (asked ++ graphToolEnvironmentKeys).map fun name => (name, env.lookup name)

/-- `path_fingerprint::capture` of the observed host paths, at the time of storing. -/
def captureHostPaths (h : H)
    (ledger : List (BuildQuestion Q G × BuildAnswer D W)) : List (Text × Option F) :=
  ledger.filterMap fun entry =>
    match entry.1 with
    | .host path _ => some (path, b.fingerprint h path)
    | _ => none

def recordedOutputDigests (entries : OutputEntries D F) (outputs : List (Text × D)) :
    List (Text × D) :=
  outputs.filterMap fun output => (entries output.1).map fun entry => (output.1, entry.digest)

/-! ## The command -/

/-- A build that put its outputs in place. -/
structure Published (D I : Type) where
  result : BuildResult D I
  deferred : List Text
  cacheState : CacheState

structure ReceiptSession (D Q G W X I : Type) where
  request : BuildRequest
  env : Environment
  /-- The executable that runs. -/
  executable : X
  initial : Option ChangePosition
  computation : Ask (BuildQuestion Q G) (BuildAnswer D W) (Option (BuildResult D I))
  ledger : List (BuildQuestion Q G × BuildAnswer D W)
  published : Option (Published D I)

structure ReceiptWorld (S D Q G W H F X I : Type) where
  history : History S
  host : H
  executable : X
  digestPosition : Option ChangePosition
  outputEntries : OutputEntries D F
  receipts : Text → Option (Receipt D Q G W F X I)
  session : Option (ReceiptSession D Q G W X I)

inductive ReceiptOp (S H X : Type) where
  | watch (op : WatchOp S)
  | host (h : H)
  /-- The executable is replaced. -/
  | install (executable : X)
  | start (request : BuildRequest) (env : Environment) (tracked : Bool)
  /-- The build asks its next question. -/
  | ask
  /-- The build, which is done, puts its outputs in place. -/
  | publish (writes : Edit RelPath S) (deferred : List Text) (cacheState : CacheState)
  /-- The build ends; `uncachedWork` when a dependency did mandatory work, `answered` when the
  tracker gives a final position. -/
  | finish (uncachedWork answered dirty : Bool)
  /-- The build fails or is killed. -/
  | close (dirty : Bool)

def BuildResult.placed (result : BuildResult D I) (deferred : List Text) : List (Text × D) :=
  result.outputs.filter fun output => !deferred.contains output.1

variable (w : ReceiptWorld S D Q G W H F X I)

def ReceiptWorld.snapshotFor (r : Receipt D Q G W F X I) : ChangeSnapshot :=
  w.history.tracker.snapshotSince (earliestPosition (some r.position) w.digestPosition)

def ReceiptWorld.load (request : BuildRequest) (env : Environment) :
    Option (RunRecord I × Receipt D Q G W F X I) :=
  match w.receipts (receiptKey request) with
  | none => none
  | some r => r.load b w.history.disk w.host w.executable w.outputEntries request env
      (w.snapshotFor r) w.history.delivered w.history.now

def ReceiptWorld.receipt
    (s : ReceiptSession D Q G W X I) (p : Published D I) (final : ChangeSnapshot) :
    Receipt D Q G W F X I where
  target := s.request.target
  sandbox := sandboxKey s.request.sandbox
  environment := observedEnvironment s.env s.ledger
  inheritedEnvironment := s.env
  hostPaths := captureHostPaths b w.host s.ledger
  sourceDigests := match final.sourceChanges with
    | none => []
    | some changes => (observedDigests s.ledger).filter fun entry => entry.1 ∈ changes
  produced := recordedOutputDigests w.outputEntries p.result.outputs
  deferred := p.deferred
  executableFingerprint := w.executable
  position := final.position
  record := ⟨p.result.outputs.map Prod.fst, p.cacheState, p.result.info⟩
  request := s.request
  result := p.result
  ledger := s.ledger
  markedAt := w.history.delivered
  takenAt := w.history.now

/-- Whether the build may keep a receipt: the sources did not change while it ran, or what changed
is as it was observed. -/
def ReceiptWorld.maySave (s : ReceiptSession D Q G W X I) (final : ChangeSnapshot) : Bool :=
  match s.initial with
  | none => false
  | some initial =>
    initial.instanceId == final.position.instanceId &&
      (initial.sourceGeneration == final.position.sourceGeneration ||
        changesMatch b w.history.disk (observedDigests s.ledger) final.sourceChanges)

def ReceiptWorld.setReceipt (request : BuildRequest)
    (r : Option (Receipt D Q G W F X I)) : Text → Option (Receipt D Q G W F X I) :=
  fun key => if key = receiptKey request then r else w.receipts key

def ReceiptWorld.finish
    (s : ReceiptSession D Q G W X I) (p : Published D I) (uncachedWork answered dirty : Bool) :
    ReceiptWorld S D Q G W H F X I :=
  if p.cacheState = .bypass ∨ uncachedWork = true then
    { w with
      receipts := w.setReceipt s.request none
      digestPosition := if dirty then none else w.digestPosition
      session := none }
  else if answered then
    let final := w.history.tracker.snapshotSince s.initial
    { w with
      digestPosition := some final.position
      receipts :=
        if w.maySave b s final then w.setReceipt s.request (some (w.receipt b s p final))
        else w.receipts
      session := none }
  else { w with digestPosition := if dirty then none else w.digestPosition, session := none }

def ReceiptSession.answered (s : ReceiptSession D Q G W X I) (question : BuildQuestion Q G)
    (next : BuildAnswer D W → Ask (BuildQuestion Q G) (BuildAnswer D W) (Option (BuildResult D I)))
    (answer : BuildAnswer D W) : ReceiptSession D Q G W X I :=
  { s with computation := next answer, ledger := (question, answer) :: s.ledger }

def ReceiptWorld.openSession (builder : Builder X Q G D W I)
    (w : ReceiptWorld S D Q G W H F X I) (request : BuildRequest) (env : Environment)
    (tracked : Bool) : ReceiptSession D Q G W X I where
  request := request
  env := env
  executable := w.executable
  initial := if tracked then some w.history.tracker.position else none
  computation := builder w.executable request
  ledger := []
  published := none

def receiptStep (builder : Builder X Q G D W I) (w : ReceiptWorld S D Q G W H F X I) :
    ReceiptOp S H X → Option (ReceiptWorld S D Q G W H F X I)
  | .watch op =>
    match w.history.step op with
    | some h => some { w with history := h }
    | none => none
  | .host h => some { w with host := h }
  | .install executable => some { w with executable := executable }
  | .start request env tracked =>
    if w.session.isNone ∧ (tracked = true → w.history.Settled) then
      match if tracked then w.load b request env else none with
      | some (_, r) => some { w with receipts := w.setReceipt request (some r) }
      | none => some { w with session := some (w.openSession builder request env tracked) }
    else none
  | .ask =>
    match w.session with
    | none => none
    | some s =>
      match s.computation with
      | .done _ => none
      | .ask question next =>
        let answer := b.answer w.history.disk w.host s.env question
        some { w with session := some (s.answered question next answer) }
  | .publish writes deferred cacheState =>
    match w.session with
    | none => none
    | some s =>
      match s.computation with
      | .done (some result) =>
        let placed := result.placed deferred
        if s.published.isNone ∧
            ∀ output ∈ placed, b.outputDigest writes.after output.1 = some output.2 then
          match w.history.step (.edit writes) with
          | none => none
          | some h => some { w with
              history := h
              outputEntries := recordOutputs b writes.after placed w.outputEntries
              session := some { s with published := some ⟨result, deferred, cacheState⟩ } }
        else none
      | _ => none
  | .finish uncachedWork answered dirty =>
    match w.session with
    | none => none
    | some s =>
      match s.published with
      | none => none
      | some p => some (w.finish b s p uncachedWork answered dirty)
  | .close dirty => some { w with
      digestPosition := if dirty then none else w.digestPosition
      session := none }

def ReceiptWorld.initial (base : S) (h : H) (executable : X) (instanceId : Nat) :
    ReceiptWorld S D Q G W H F X I where
  history := .start base instanceId
  host := h
  executable := executable
  digestPosition := none
  outputEntries := fun _ => none
  receipts := fun _ => none
  session := none

end OnceBuild.Graph
