import OnceBuild.Resolution.Cache
import OnceBuild.Resolution.Reads

/-!
# Reusing a derived graph

A stored graph is what a derivation gave at the time it read the workspace.  It is still what a
derivation gives when no path that its resolvers read, or whose patterns select it, was edited
since.  The changes handed to the cache begin at the position stamped on the recorded digests, so
edits made between the derivation and that position are not among them.
-/

namespace OnceBuild.Resolution

open Lib List
open Analysis (Disk Host NoDirLinks GlobCandidate globWalkRoot dropDotSlash dotDot expandGlobs
  globSelection literalHost)
open ChangeTracker OnceBuild.Graph

variable {A D Q W E P K : Type}

/-- The answer of a command follows from the program, from the files that the resolver was handed
and from the other answers it was given: what `CommandPolicy::TrustDeclaredInputs` relies on. -/
def CommandsDeclared (questions : Questions A D Q W K) (host : Host) (observer : Observer E Q W P) :
    Prop :=
  ∀ key disk env disk' env' t files inputs,
    resolverFiles (questions.kinds key) host disk t = .ok (files, inputs) →
    resolverFiles (questions.kinds key) host disk' t = .ok (files, inputs) →
    ∀ asked, asked = (((questions.kinds key).resolve t files).run (observer.answer disk env)).2 →
    (∀ qa ∈ asked, observer.isCommand qa.1 = false → observer.answer disk' env' qa.1 = qa.2) →
    ∀ qa ∈ asked, observer.isCommand qa.1 = true →
      (observer.programIdentity env qa.1).isSome = true →
      observer.programIdentity env' qa.1 = observer.programIdentity env qa.1 →
      observer.answer disk' env' qa.1 = qa.2

/-- A path that a derivation read or would have read, outside `.once`. -/
def Selected (host : GlobHost) (record : ResolutionRecord Q W) (p : RelPath) : Prop :=
  ∃ r ∈ record.resolvers, r.touchedBy host (render p.1) = true ∧ onceDir ∉ p.1

/-- What the cache takes for granted about a stored derivation in the session of a build. -/
structure Covered (host : GlobHost) (h : History Disk) (s : GraphSession A D Q W P K)
    (d : Derivation A D Q W P) : Prop where
  /-- No selected path was edited between the derivation and the start of the window. -/
  before : Untouched h.log (Selected host d.record) d.readAt s.windowFrom
  /-- None was edited since the snapshot. -/
  after : Untouched h.log (Selected host d.record) s.openedAt h.now
  /-- The tracker reports the selected paths that were edited as sources. -/
  tracked : ∀ m e, d.readAt ≤ m → h.log[m]? = some e → ∀ p ∈ e.touched,
    Selected host d.record p → trackedArea p.1 = some .source
  plainPatterns : ∀ r ∈ d.record.resolvers, ∀ pattern ∈ r.patterns,
    dropDotSlash pattern = pattern ∧ ¬ dotDot <:+: pattern
  packages : ∀ r ∈ d.record.resolvers, (h.diskAt d.readAt).tree.node r.package.1 = some .dir ∧
    h.disk.tree.node r.package.1 = some .dir
  noDirLinks : NoDirLinks host.canonicalize (h.diskAt d.readAt).tree ∧
    NoDirLinks host.canonicalize h.disk.tree
  /-- No input was a symbolic link. -/
  noLinks : ∀ r ∈ d.record.resolvers, ∀ pattern ∈ r.patterns, ∀ p,
    GlobCandidate host.toHost r.package.1 (globWalkRoot r.package.1 [pattern]) [pattern]
      r.excludes p → ∀ target, (h.diskAt d.readAt).tree.node p ≠ some (.symlink target)

/-- Edits name the paths they change, and a window begins no later in the journal of sources than
the recorded digests do. -/
def CarefulGraph (w : GraphWorld A D Q W E P K) : GraphOp E K → Prop
  | .watch op => op.Named Disk.view w.history
  | .host _ => True
  | .start _ receipt _ => WindowCovers receipt w.digestPosition
  | .load _ => True
  | .stamp => True
  | .close _ => True

/-! ## The invariant -/

/-- The derivation was run at its time, on the workspace as it was then. -/
structure DerivationOk (questions : Questions A D Q W K) (host : GlobHost)
    (observer : Observer E Q W P) (h : History Disk) (key : K) (d : Derivation A D Q W P) :
    Prop where
  readAt_le : d.readAt ≤ h.now
  derived : ∃ env,
    derive questions host.toHost observer (h.diskAt d.readAt) env d.readAt key = .ok d

structure SessionOk (questions : Questions A D Q W K) (host : GlobHost)
    (observer : Observer E Q W P) (h : History Disk) (s : GraphSession A D Q W P K) : Prop where
  openedAt_le : s.openedAt ≤ h.now
  window : ∀ sources outputs, s.changes = .since sources outputs →
    Reports h sources s.windowFrom s.openedAt
  loaded : ∀ key d, s.loaded = some (key, some d) → DerivationOk questions host observer h key d

structure GraphOk (questions : Questions A D Q W K) (host : GlobHost) (observer : Observer E Q W P)
    (w : GraphWorld A D Q W E P K) : Prop where
  named : w.history.Faithful Disk.view
  digests : ∀ pos, w.digestPosition = some pos → w.history.Marks pos w.digestTime
  stored : ∀ st, w.stored = some st →
    DerivationOk questions host observer w.history st.key st.derivation
  session : ∀ s, w.session = some s → SessionOk questions host observer w.history s

variable {questions : Questions A D Q W K} {host : GlobHost} {observer : Observer E Q W P}

variable {h : History Disk} {key : K} {d : Derivation A D Q W P}

lemma DerivationOk.step {h' : History Disk} {op : WatchOp Disk} (hs : h.step op = some h')
    (hd : DerivationOk questions host observer h key d) :
    DerivationOk questions host observer h' key d := by
  refine ⟨Nat.le_trans hd.readAt_le (History.now_le_of_step hs), ?_⟩
  rw [History.diskAt_step hs hd.readAt_le]
  exact hd.derived

variable {env : E}

lemma derivationOk_now (hd : derive questions host.toHost observer h.disk env h.now key = .ok d) :
    DerivationOk questions host observer h key d := by
  have hread : d.readAt = h.now := by
    unfold derive at hd
    split at hd
    · cases hd
    · cases hd
      rfl
  exact ⟨Nat.le_of_eq hread, env, by rw [hread]; exact hd⟩

variable {s : GraphSession A D Q W P K}

lemma SessionOk.step {h' : History Disk} {op : WatchOp Disk} (hs : h.step op = some h')
    (hok : SessionOk questions host observer h s) : SessionOk questions host observer h' s where
  openedAt_le := Nat.le_trans hok.openedAt_le (History.now_le_of_step hs)
  window := fun sources outputs hchanges =>
    (hok.window sources outputs hchanges).step hs hok.openedAt_le
  loaded := fun key d hl => (hok.loaded key d hl).step hs

variable {w : GraphWorld A D Q W E P K}

lemma sessionOk_start (hok : GraphOk questions host observer w) {enabled : Bool}
    {receipt : Option ChangePosition} {tracked : Bool}
    (hsettled : tracked = true → w.history.Settled)
    (hcovers : WindowCovers receipt w.digestPosition) :
    SessionOk questions host observer w.history
      ⟨enabled, initialChanges w.history receipt w.digestPosition tracked, w.history.now,
        w.digestTime, none⟩ where
  openedAt_le := Nat.le_refl _
  window := by
    intro sources outputs hchanges
    obtain ⟨htracked, pos, hpos, hknown⟩ := initialChanges_eq_since hchanges
    rw [hpos] at hcovers
    exact reports_of_known (hok.digests pos hpos) (hsettled htracked) hcovers hknown
  loaded := fun key d hl => (by cases hl)

lemma recordResolution_ok (hok : GraphOk questions host observer w)
    (hs : SessionOk questions host observer w.history s) {st : Stored A D Q W P K}
    (hst : w.recordResolution s = some st) :
    DerivationOk questions host observer w.history st.key st.derivation := by
  unfold GraphWorld.recordResolution at hst
  split at hst
  case h_1 key d hl =>
    unfold store at hst
    split at hst
    · cases hst
      exact hs.loaded key d hl
    · exact hok.stored st hst
  case h_2 => exact hok.stored st hst

lemma graphOk_initial (base : Disk) (env : E) (instanceId : Nat) :
    GraphOk questions host observer (GraphWorld.initial base env instanceId) where
  named := fun n e he => (by cases he)
  digests := fun _ h => (by cases h)
  stored := fun _ h => (by cases h)
  session := fun _ h => (by cases h)

lemma selected_of_candidate {record : ResolutionRecord Q W} {r : ResolverInputs}
    (hr : r ∈ record.resolvers) {pattern : Text} (hpattern : pattern ∈ r.patterns)
    (hplain : dropDotSlash pattern = pattern) (hdots : ¬ dotDot <:+: pattern)
    (hvalid : host.valid pattern = true) {p : RelPath}
    (hcand : GlobCandidate host.toHost r.package.1 (globWalkRoot r.package.1 [pattern]) [pattern]
      r.excludes p.1) : Selected host record p := by
  have honce : onceDir ∉ p.1 := by
    have hreach := hcand.1
    simp only [Analysis.globReaches, Bool.and_eq_true] at hreach
    have hskip : Analysis.onceDir ∉ p.1 := by simpa using hreach.1.2
    exact hskip
  have hcand' : GlobCandidate host.toHost r.package.1
      (globWalkRoot r.package.1 ([pattern].map dropDotSlash)) ([pattern].map dropDotSlash)
      r.excludes p.1 := by
    rw [map_singleton, hplain]
    exact hcand
  have hparents : ∀ q ∈ [pattern], dotDot ∉ q.splitOn '/' := by
    rintro q hq hmem
    obtain rfl := mem_singleton.mp hq
    exact hdots (infix_of_mem_splitOn hmem)
  obtain ⟨rest, hne, hp, raw, hraw, hmatch⟩ := hcand'.below hparents
  rw [mem_singleton.mp hraw, hplain] at hmatch
  refine ⟨r, hr, ?_, honce⟩
  -- the name below the package is matched, also with the default options
  simp only [ResolverInputs.touchedBy, hp, stripPrefix_render hne, Bool.or_eq_true, Option.any_some]
  refine Or.inr (any_eq_true.mpr ⟨pattern, hpattern, ?_⟩)
  rw [hvalid, host.matchesDefault_of_isMatch _ _ hmatch]
  rfl

/-- Before the window, in it and after it: no selected path was edited since the derivation. -/
lemma Covered.untouched (hc : Covered host h s d) {sources : Finset Text}
    (hreports : Reports h sources s.windowFrom s.openedAt)
    (htouched : d.record.touchedBy host sources = false) :
    Untouched h.log (Selected host d.record) d.readAt h.now := by
  have hwindow : Untouched h.log (Selected host d.record) (max d.readAt s.windowFrom)
      s.openedAt := by
    intro m e hm hlt he p hp hsel
    have harea := hc.tracked m e (le_trans (le_max_left _ _) hm) he p hp hsel
    have hmem := hreports m e (le_trans (le_max_right _ _) hm) hlt he p hp harea
    obtain ⟨r, hr, htouch, -⟩ := hsel
    -- the cache was told of this path
    have : d.record.touchedBy host sources = true :=
      any_eq_true.mpr ⟨r, hr, decide_eq_true ⟨_, hmem, htouch⟩⟩
    rw [htouched] at this
    cases this
  exact (hc.before.trans hwindow (le_refl _)).trans hc.after (le_max_right _ _)

lemma Covered.sameInputs (hc : Covered host h s d) (hnamed : h.Faithful Disk.view)
    (hread : d.readAt ≤ h.now)
    (huntouched : Untouched h.log (Selected host d.record) d.readAt h.now) {r : ResolverInputs}
    (hr : r ∈ d.record.resolvers) :
    SameInputs host.toHost (h.diskAt d.readAt) h.disk r.package r.patterns r.excludes := by
  intro pattern hpattern hvalid p hcand
  obtain ⟨hplain, hdots⟩ := hc.plainPatterns r hr pattern hpattern
  rw [hplain] at hvalid hcand
  have hlink := hc.noLinks r hr pattern hpattern p hcand
  by_cases hp : ∀ c ∈ p, Plain c
  · have hview : h.disk.view ⟨p, hp⟩ = (h.diskAt d.readAt).view ⟨p, hp⟩ :=
      hnamed.view_eq hread huntouched
        (selected_of_candidate hr hpattern hplain hdots hvalid hcand)
    exact ⟨(congrArg Prod.fst hview).symm, fun _ => (congrArg Prod.snd hview).symm, hlink⟩
  · have hnone : ∀ disk : Disk, disk.tree.node p = none := fun disk =>
      disk.tree.node_of_not_plain hp
    refine ⟨by rw [hnone, hnone], fun hfile => ?_, hlink⟩
    rw [hnone] at hfile
    cases hfile

variable [DecidableEq W] [DecidableEq P] [DecidableEq K]

lemma SessionOk.load {s' : GraphSession A D Q W P K}
    (hok : SessionOk questions host observer w.history s)
    (hload : w.load questions host observer s key = some s') :
    SessionOk questions host observer w.history s' := by
  unfold GraphWorld.load at hload
  split at hload
  case h_1 =>
    cases hload
    exact ⟨hok.openedAt_le, hok.window, fun key d hl => (by cases hl)⟩
  case h_2 =>
    split at hload
    case h_1 d hd =>
      cases hload
      refine ⟨hok.openedAt_le, hok.window, fun key' d' hl => ?_⟩
      cases hl
      exact derivationOk_now hd
    case h_2 => cases hload

lemma graphOk_step {w' : GraphWorld A D Q W E P K} {op : GraphOp E K}
    (hok : GraphOk questions host observer w) (hcare : CarefulGraph w op)
    (hs : graphStep questions host observer w op = some w') :
    GraphOk questions host observer w' := by
  cases op with
  | watch op =>
    simp only [graphStep] at hs
    split at hs
    case h_2 => cases hs
    case h_1 h' hstep =>
      cases hs
      exact ⟨hok.named.step hcare hstep, fun pos hpos => (hok.digests pos hpos).step hstep,
        fun st hst => (hok.stored st hst).step hstep, fun s hw => (hok.session s hw).step hstep⟩
  | host env =>
    cases hs
    exact ⟨hok.named, hok.digests, hok.stored, hok.session⟩
  | start enabled receipt tracked =>
    simp only [graphStep] at hs
    split at hs
    case isFalse => cases hs
    case isTrue hguard =>
      cases hs
      refine ⟨hok.named, hok.digests, hok.stored, fun s hw => ?_⟩
      cases hw
      exact sessionOk_start hok hguard.2 hcare
  | load key =>
    simp only [graphStep] at hs
    split at hs
    case h_2 => cases hs
    case h_1 s hw =>
      cases hs
      exact ⟨hok.named, hok.digests, hok.stored, fun s' hload => (hok.session s hw).load hload⟩
  | stamp =>
    simp only [graphStep] at hs
    split at hs
    case h_2 => cases hs
    case h_1 s hw =>
      cases hs
      refine ⟨hok.named, fun pos hpos => ?_,
        fun st hst => recordResolution_ok hok (hok.session s hw) hst, fun s' hs' => ?_⟩
      · cases hpos
        exact w.history.marks_position
      · cases hs'
  | close dirty =>
    cases hs
    refine ⟨hok.named, fun pos hpos => ?_, hok.stored, fun s' hs' => ?_⟩
    · cases dirty with
      | true => cases hpos
      | false => exact hok.digests pos hpos
    · cases hs'

/-! ## Reuse -/

variable {disk : Disk} {files : Files} {inputs : ResolverInputs}

omit [DecidableEq K] in
/-- The checks of the ledger and the trust in commands give every question its recorded answer. -/
lemma answers_of_ledger (hcommands : CommandsDeclared questions host.toHost observer)
    {disk' : Disk} {env' : E} {asked : List (Q × W)}
    (hheld : (observe observer env asked).all (observationHolds observer disk' env') = true)
    {t : Target A}
    (hfiles : resolverFiles (questions.kinds key) host.toHost disk t = .ok (files, inputs))
    (hfiles' : resolverFiles (questions.kinds key) host.toHost disk' t = .ok (files, inputs))
    (hasked : ∀ qa ∈ (((questions.kinds key).resolve t files).run (observer.answer disk env)).2,
      qa ∈ asked) :
    ∀ qa ∈ (((questions.kinds key).resolve t files).run (observer.answer disk env)).2,
      observer.answer disk' env' qa.1 = qa.2 := by
  have hentry : ∀ qa ∈ asked, observationHolds observer disk' env'
      ⟨qa.1, qa.2, observer.programIdentity env qa.1⟩ = true := fun qa hqa =>
    all_eq_true.mp hheld _ (mem_map_of_mem hqa)
  have hplain : ∀ qa ∈ (((questions.kinds key).resolve t files).run (observer.answer disk env)).2,
      observer.isCommand qa.1 = false → observer.answer disk' env' qa.1 = qa.2 := by
    intro qa hqa hcommand
    have hholds := hentry qa (hasked qa hqa)
    simpa [observationHolds, hcommand] using hholds
  intro qa hqa
  cases hcommand : observer.isCommand qa.1 with
  | false => exact hplain qa hqa hcommand
  | true =>
    have hholds := hentry qa (hasked qa hqa)
    simp only [observationHolds, hcommand, if_true, Bool.and_eq_true, beq_iff_eq] at hholds
    exact hcommands key disk env disk' env' t files inputs hfiles hfiles' _ rfl hplain qa hqa
      hcommand hholds.1 hholds.2

/-- What `reuse` checked. -/
lemma reuse_eq_some {enabled : Bool} {stored : Option (Stored A D Q W P K)}
    {changes : KnownChanges} {graph : TargetGraph A D}
    (h : reuse host observer disk env enabled stored key changes = some graph) :
    ∃ st sources outputs, stored = some st ∧ changes = .since sources outputs ∧ st.key = key ∧
      st.derivation.record.touchedBy host sources = false ∧
      st.derivation.observations.all (observationHolds observer disk env) = true ∧
      st.derivation.graph = graph := by
  unfold reuse at h
  split at h
  case h_2 => cases h
  case h_1 sources outputs st =>
    split at h
    case isTrue => cases h
    case isFalse =>
      split at h
      case isTrue => cases h
      case isFalse hkey =>
        split at h
        case isTrue => cases h
        case isFalse htouched =>
          split at h
          case isFalse => cases h
          case isTrue hheld =>
            cases h
            exact ⟨st, sources, outputs, rfl, rfl, not_not.mp hkey, by simpa using htouched,
              (Bool.and_eq_true_iff.mp hheld).2, rfl⟩

/-- A graph that the cache returns is the graph that deriving it now would give, when the changes
the cache was told of cover everything that happened to the derivation's inputs. -/
theorem reuse_sound (questions : Questions A D Q W K) (host : GlobHost)
    (observer : Observer E Q W P) (hcommands : CommandsDeclared questions host.toHost observer)
    (base : Disk) (env : E) (instanceId : Nat) {w : GraphWorld A D Q W E P K}
    (hrun : Reachable (graphStep questions host observer) CarefulGraph
      (.initial base env instanceId) w)
    {s : GraphSession A D Q W P K} (hw : w.session = some s)
    (hcovered : ∀ st, w.stored = some st → Covered host w.history s st.derivation)
    {key : K} {graph : TargetGraph A D}
    (hreuse : reuse host observer w.history.disk w.env s.enabled w.stored key s.changes =
      some graph) :
    ∃ d, derive questions host.toHost observer w.history.disk w.env w.history.now key = .ok d ∧
      d.graph = graph := by
  have hok : GraphOk questions host observer w :=
    hrun.invariant (graphOk_initial base env instanceId) fun _ _ _ => graphOk_step
  obtain ⟨st, sources, outputs, hst, hchanges, rfl, htouched, hheld, rfl⟩ := reuse_eq_some hreuse
  have hc := hcovered st hst
  obtain ⟨hread, env₀, hderive⟩ := hok.stored st hst
  have huntouched := hc.untouched ((hok.session s hw).window sources outputs hchanges) htouched
  -- the stored graph came from an expansion at the time of reading
  unfold derive at hderive
  split at hderive
  case h_1 => cases hderive
  case h_2 targets diagnostics record hexpand =>
    have hd := (Except.ok.inj hderive).symm
    have hrecord : st.derivation.record = record := by rw [hd]
    rw [hd] at hheld
    have hsame : SameReads (questions.kinds st.key)
        ⟨host.toHost, w.history.diskAt st.derivation.readAt,
          observer.answer (w.history.diskAt st.derivation.readAt) env₀⟩
        ⟨host.toHost, w.history.disk, observer.answer w.history.disk w.env⟩ record := by
      intro t files inputs hfiles hin hasked
      have hin' : inputs ∈ st.derivation.record.resolvers := hrecord ▸ hin
      have hpackage := inputs_package hfiles
      obtain ⟨hdir₁, hdir₂⟩ := hc.packages inputs hin'
      have hinputs := hc.sameInputs hok.named hread huntouched hin'
      rw [hpackage] at hdir₁ hdir₂ hinputs
      have hfiles' := resolverFiles_congr hc.noDirLinks.1 hc.noDirLinks.2 hdir₁ hdir₂ hfiles hinputs
      exact ⟨hfiles', Ask.run_eq_of_ledger _
        (answers_of_ledger hcommands hheld hfiles hfiles' hasked)⟩
    refine ⟨_, by unfold derive; rw [expandWorkspaceTargets_same hexpand hsame], ?_⟩
    rw [hd]

/-! ### A manifest that appears while a build runs -/

def manifest : RelPath := ⟨[['m']], by decide⟩

def literalGlob : GlobHost where
  toHost := literalHost
  matchesDefault := literalHost.isMatch
  matchesDefault_of_isMatch := fun _ _ h => h

/-- One kind, whose resolver emits a target for every file it is handed. -/
def perFile : Kinds Unit Unit Unit Unit where
  hasResolver := fun kind => kind == ['r']
  asList := fun _ => none
  asStr := fun _ => none
  validateOwner := fun _ => some []
  normalizeTarget := fun _ _ => none
  resolve := fun _ files =>
    .done (.output ⟨files.map fun f => ⟨f.1, ['k'], [], [], []⟩, none, []⟩)

/-- A target of the root package that takes the manifest. -/
def owner : Target Unit := ⟨rootPath, ['r'], ['o'], [], [['m']], [], []⟩

def oneQuestion : Questions Unit Unit Unit Unit Unit where
  kinds := fun _ => perFile
  seeds := fun _ => [owner]

def silent : Observer Unit Unit Unit Unit where
  answer := fun _ _ _ => ()
  isCommand := fun _ => false
  recordable := fun _ => true
  programIdentity := fun _ _ => none

/-- A workspace with these files at its root. -/
def flat (names : Finset Text) (hplain : ∀ c ∈ names, Plain c) : Disk where
  tree :=
    { paths := names.image fun c => [c]
      node := fun
        | [] => some .dir
        | [c] => if c ∈ names then some .file else none
        | _ => none
      mem_paths := by rintro (_ | ⟨c, _ | _⟩) <;> simp
      root_dir := rfl
      plain := by simpa using hplain
      parent_dir := by rintro (_ | ⟨c, _ | _⟩) <;> simp }
  content := fun
    | [c] => if c ∈ names then ⟨1, some ['x']⟩ else ⟨0, none⟩
    | _ => ⟨0, none⟩

section

variable {names : Finset Text} (hplain : ∀ c ∈ names, Plain c)

lemma flat_no_link (p : List Text) (target : Text) :
    (flat names hplain).tree.node p ≠ some (.symlink target) := by
  unfold flat
  dsimp only
  split <;> simp

lemma flat_named {c : Text} {hplain' : ∀ c' ∈ insert c names, Plain c'} (hc : ∀ x ∈ [c], Plain x) :
    Edit.Names Disk.view (flat names hplain) ⟨[⟨[c], hc⟩], flat (insert c names) hplain'⟩ := by
  rintro ⟨_ | ⟨x, _ | _⟩, hp⟩ hne
  · rfl
  · have hx : x ≠ c := fun h => hne (by simp [h])
    simp [Disk.view, flat, hx]
  · rfl

end

def absent : Disk := flat ∅ (by decide)

def present : Disk := flat {['m']} (by decide)

lemma expandGlobs_absent : expandGlobs literalHost absent.tree [] [['m']] [] = some [] := by
  have hsel : globSelection literalHost absent.tree [] ([['m']].map dropDotSlash) [] = ∅ := by
    decide
  rw [Analysis.expandGlobs_eq (by decide), hsel]
  simp

lemma expandGlobs_present : expandGlobs literalHost present.tree [] [['m']] [] = some [['m']] := by
  have hsel : globSelection literalHost present.tree [] ([['m']].map dropDotSlash) [] =
      {[['m']]} := by decide
  have hkept : ({[['m']]} : Finset (List Text)).filter
      (fun p => Analysis.globKeeps literalHost present.tree p = true) = {[['m']]} := by decide
  rw [Analysis.expandGlobs_eq (by decide), hsel, hkept, Finset.image_singleton,
    Finset.sort_singleton]
  rfl

def gathered (paths : List Text) : ResolverInputs := ⟨owner.package, [['m']], [], paths⟩

lemma resolverFiles_owner {names : List Text} {total : Nat}
    (hglob : expandGlobs literalHost disk.tree [] [['m']] [] = some names)
    (hread : names.foldlM (fun acc name => gatherFile literalHost disk rootPath [] (parts name) acc)
      ⟨[], 0⟩ = .ok ⟨files, total⟩) :
    resolverFiles perFile literalHost disk owner =
      .ok (files, gathered (files.map Prod.fst)) := by
  have hroot : literalHost.canonicalize disk.tree owner.package.1 = .inside [] :=
    literalHost.canonicalize_dir _ _ disk.tree.root_dir
  have hg : gatherPattern literalHost disk owner.package [] [] ⟨[], 0⟩ ['m'] =
      .ok ⟨files, total⟩ := by
    unfold gatherPattern
    erw [hglob]
    exact hread
  unfold resolverFiles
  rw [hroot]
  change (foldlM (gatherPattern literalHost disk owner.package [] []) _ [['m']] >>= _) = _
  rw [foldlM_cons, hg]
  rfl

lemma expandOne_owner
    (hfiles : resolverFiles perFile literalHost disk owner = .ok (files, inputs)) :
    expandOne perFile ⟨literalHost, disk, fun _ => ()⟩ ⟨[], [owner], {['o']}, [], ⟨[], []⟩⟩ owner
        [] =
      applyResult perFile ⟨[], [owner], {['o']}, [], ⟨[inputs], []⟩⟩ owner []
        (.output ⟨files.map fun f => ⟨f.1, ['k'], [], [], []⟩, none, []⟩) := by
  unfold expandOne
  simp only [show perFile.validateOwner owner = some [] from rfl, hfiles]
  rfl

lemma derive_owner (hfiles : resolverFiles perFile literalHost disk owner = .ok (files, inputs))
    {s : Expansion Unit Unit Unit Unit} (now : Nat)
    (hloop : (applyResult perFile ⟨[], [owner], {['o']}, [], ⟨[inputs], []⟩⟩ owner []
        (.output ⟨files.map fun f => ⟨f.1, ['k'], [], [], []⟩, none, []⟩) >>=
      expandLoop perFile ⟨literalHost, disk, fun _ => ()⟩ maxExpandedTargets) = .ok s) :
    derive oneQuestion literalHost silent disk () now () =
      .ok ⟨graphOf s.finished s.diagnostics, s.record, observe silent () s.record.asked,
        s.record.asked.all fun qa => silent.recordable qa.1, now⟩ := by
  have hexpand : expandWorkspaceTargets (oneQuestion.kinds ())
      ⟨literalHost, disk, silent.answer disk ()⟩ (oneQuestion.seeds ()) =
      .ok ((s.finished, s.diagnostics), s.record) := by
    have hfirst : expandLoop perFile ⟨literalHost, disk, fun _ => ()⟩ (maxExpandedTargets + 1)
        ⟨[], [owner], {['o']}, [], ⟨[], []⟩⟩ = .ok s := by
      rw [expandLoop]
      dsimp only
      rw [expandOne_owner hfiles, hloop]
    exact congrArg (· >>= fun s => Except.ok ((s.finished, s.diagnostics), s.record)) hfirst
  unfold derive
  rw [hexpand]

/-- What deriving the graph gives. -/
def derived (targets : List (Target Unit)) (paths : List Text) (now : Nat) :
    Derivation Unit Unit Unit Unit Unit :=
  ⟨graphOf targets [], ⟨[gathered paths], []⟩, [], true, now⟩

lemma derive_absent (now : Nat) : derive oneQuestion literalHost silent absent () now () =
    .ok (derived [owner] [] now) :=
  derive_owner (resolverFiles_owner expandGlobs_absent rfl) now rfl

/-- The manifest's target, and the owner that depends on it. -/
def withManifest : List (Target Unit) :=
  [{ owner with deps := [['m']] }, ⟨rootPath, ['k'], ['m'], [], [], [], []⟩]

lemma derive_present (now : Nat) : derive oneQuestion literalHost silent present () now () =
    .ok (derived withManifest [['m']] now) :=
  derive_owner (resolverFiles_owner expandGlobs_present rfl) now rfl

/-- The first build has derived the graph of the workspace. -/
def firstLoaded (base : Disk) (targets : List (Target Unit)) (paths : List Text) :
    GraphWorld Unit Unit Unit Unit Unit Unit Unit where
  history := .start base 0
  env := ()
  digestPosition := none
  digestTime := 0
  stored := none
  session := some ⟨true, .unknown, 0, 0, some ((), some (derived targets paths 0))⟩

lemma first_load {base : Disk} {targets : List (Target Unit)} {paths : List Text}
    (hderive : derive oneQuestion literalHost silent base () 0 () = .ok (derived targets paths 0))
    {w : GraphWorld Unit Unit Unit Unit Unit Unit Unit}
    (hstart : graphStep oneQuestion literalGlob silent (.initial base () 0)
      (.start true none true) = some w) :
    graphStep oneQuestion literalGlob silent w (.load ()) =
      some (firstLoaded base targets paths) := by
  cases hstart
  have hload : GraphWorld.load oneQuestion literalGlob silent
      ⟨.start base 0, (), none, 0, none, some ⟨true, .unknown, 0, 0, none⟩⟩
      ⟨true, .unknown, 0, 0, none⟩ () = (firstLoaded base targets paths).session := by
    unfold GraphWorld.load
    erw [hderive]
    rfl
  exact congrArg (fun s => some { firstLoaded base targets paths with session := s }) hload

/-- The first build stamps its position.  The second reuses the graph; while it runs the manifest
appears, is reported, and the position is stamped behind it.  The third build begins. -/
def lostEditRun : List (GraphOp Unit Unit) :=
  [.stamp, .start true none true, .load (), .watch (.edit ⟨[manifest], present⟩), .watch .deliver,
    .stamp, .start true none true]

/-- The third build takes the graph without the manifest's target. -/
theorem lostEditRun_reuses_old_graph : ∃ w s graph d,
    runSteps (graphStep oneQuestion literalGlob silent) (.initial absent () 0)
        (.start true none true :: .load () :: lostEditRun) = some w ∧
      w.session = some s ∧ w.history.Faithful Disk.view ∧
      reuse literalGlob silent w.history.disk w.env s.enabled w.stored () s.changes = some graph ∧
      derive oneQuestion literalHost silent w.history.disk w.env w.history.now () = .ok d ∧
      graph ['m'] = none ∧ (d.graph ['m']).isSome = true := by
  have hrun : runSteps (graphStep oneQuestion literalGlob silent) (.initial absent () 0)
      (.start true none true :: .load () :: lostEditRun) =
      runSteps (graphStep oneQuestion literalGlob silent) (firstLoaded absent [owner] [])
        lostEditRun :=
    (runSteps_cons rfl _).trans (runSteps_cons (first_load (derive_absent 0) rfl) _)
  refine ⟨_, _, graphOf [owner] [], _, hrun.trans rfl, rfl, ?_, rfl, derive_present 1, rfl, rfl⟩
  exact Faithful.append (fun n e he => (by cases he)) (flat_named (by decide) manifest.2)

/-! ### An edit of another file -/

def other : RelPath := ⟨[['n']], by decide⟩

/-- The manifest with another file beside it. -/
def edited : Disk := flat {['n'], ['m']} (by decide)

/-- The second build reuses the graph of the first although another file was added. -/
theorem reuse_unchanged : ∃ w s,
    Reachable (graphStep oneQuestion literalGlob silent) CarefulGraph (.initial present () 0) w ∧
      w.session = some s ∧ w.history.disk = edited ∧
      reuse literalGlob silent w.history.disk w.env s.enabled w.stored () s.changes =
        some (graphOf withManifest []) ∧
      ∃ d, derive oneQuestion literalHost silent w.history.disk w.env w.history.now () = .ok d ∧
        d.graph = graphOf withManifest [] := by
  have hcommands : CommandsDeclared oneQuestion literalHost silent :=
    fun _ _ _ _ _ _ _ _ _ _ _ _ _ _ _ hcommand => (by cases hcommand)
  have hwindow : ∀ w : GraphWorld Unit Unit Unit Unit Unit Unit Unit,
      CarefulGraph w (.start true none true) := fun _ r hr => (by cases hr)
  have hinit : Reachable (graphStep oneQuestion literalGlob silent) CarefulGraph
      (.initial present () 0) (.initial present () 0) := .start
  have hloaded := (hinit.step (hwindow _) rfl).step (a := GraphOp.load ()) trivial
    (first_load (derive_present 0) rfl)
  have hnamed : Edit.Names Disk.view present ⟨[other], edited⟩ := flat_named (by decide) other.2
  have hedited := (hloaded.step (a := GraphOp.stamp) trivial rfl).step
    (a := GraphOp.watch (.edit ⟨[other], edited⟩)) hnamed rfl
  have hrun := (hedited.step (a := GraphOp.watch .deliver) trivial rfl).step (hwindow _) rfl
  refine ⟨_, _, hrun, rfl, rfl, rfl, ?_⟩
  refine reuse_sound oneQuestion literalGlob silent hcommands present () 0 hrun rfl ?_ rfl
  intro st hst
  cases hst
  exact
    { before := fun m e _ hm _ => absurd hm (Nat.not_lt_zero m)
      after := fun m e hm hm' _ => absurd hm' (not_lt_of_ge hm)
      tracked := by
        intro m e _ he p hp _
        rw [mem_singleton.mp (mem_of_getElem? he)] at hp
        rw [mem_singleton.mp hp]
        decide
      plainPatterns := by
        intro r hr pattern hpattern
        rw [mem_singleton.mp hr] at hpattern
        rw [mem_singleton.mp hpattern]
        decide
      packages := by
        intro r hr
        rw [mem_singleton.mp hr]
        exact ⟨present.tree.root_dir, edited.tree.root_dir⟩
      noDirLinks := ⟨fun p target hlink => absurd hlink (flat_no_link (by decide) p target),
        fun p target hlink => absurd hlink (flat_no_link (by decide) p target)⟩
      noLinks := fun _ _ _ _ p _ target => flat_no_link (by decide) p target }

end OnceBuild.Resolution
