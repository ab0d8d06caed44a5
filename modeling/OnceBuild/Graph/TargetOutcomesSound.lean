import OnceBuild.Analysis.ExpansionSound
import OnceBuild.Graph.TargetOutcomes

/-!
# Reusing a recorded outcome

An outcome follows from the answers that the analysis was given, from the tools of the host and from
the declared inputs of the actions.  A record names the inputs and, when the analysis was run rather
than replayed, the path expansions among the answers; these are what a changed path is compared
with.  Nothing compares the other answers with the host again.
-/

namespace OnceBuild.Graph

open Lib List Option
open Analysis (Disk Host Request Question Answer Observer Observations NoDirLinks
  expansionCouldDiffer expandObservedPaths)
open ChangeTracker
open Cas (Digest)

variable {X P M T E K : Type}

/-- The input lies in an output of a dependency or of the target itself. -/
def provided (dependencies : List (Text × Digest)) (body : AnalysisBody X P) (input : Text) :
    Bool :=
  (dependencies.map Prod.fst ++ body.declaredOutputs).any fun output =>
    output == input || (output ++ ['/']).isPrefixOf input

/-- Actions are functions of their declared inputs.  Inputs that no output provides are read from
the disk, at and below their paths. -/
def ActionsDeclared (runner : Runner E K T X P) : Prop :=
  ∀ sandbox key tools body dependencies (disk disk' : Disk),
    (∀ input ∈ body.declaredInputs, provided dependencies body input = false →
      ∀ p : RelPath, parts input <+: p.1 → disk.view p = disk'.view p) →
    runner.run sandbox key tools body dependencies disk =
      runner.run sandbox key tools body dependencies disk'

/-- The question is an expansion that the record names. -/
def Record.Lists (r : Record K T X P M) (question : Question) : Prop :=
  ∃ request, question = .paths request ∧ Expansion.ofRequest request ∈ r.expansions

/-- A path that a declared input or a recorded expansion depends on. -/
def Record.Reads (host : Host) (r : Record K T X P M) (p : RelPath) : Prop :=
  (∃ input ∈ r.analysis.declaredInputs,
      provided r.key.dependencyInputs r.analysis input = false ∧ parts input <+: p.1) ∨
    ∃ entry ∈ r.ledger, ∃ request, entry.1 = .paths request ∧
      Expansion.ofRequest request ∈ r.expansions ∧ request.LooksAt host p.1

/-- What reuse takes for granted about a record in the session of a build. -/
structure OutcomeCovered (o : Observer E) (runner : Runner E K T X P)
    (w : OutcomeWorld E K T X P M) (s : OutcomeSession K T X P M) (r : Record K T X P M) :
      Prop where
  /-- The host answers what the record does not name as it did. -/
  unlisted : ∀ entry ∈ r.ledger, ¬ r.Lists entry.1 → o.answer w.history.disk w.env entry.1 = entry.2
  tools : runner.tools w.env r.key.analysisKey = r.tools
  /-- Declared inputs that no output provides are source files. -/
  inputs : ∀ input ∈ r.analysis.declaredInputs,
    provided r.key.dependencyInputs r.analysis input = false →
    ∃ p : RelPath, p.1 ≠ [] ∧ input = render p.1 ∧ trackedArea p.1 = some .source
  /-- Nothing that the record depends on was edited between the analysis and the window. -/
  before : Untouched w.history.log (r.Reads o.host) r.readAt s.windowFrom
  /-- Nothing was edited since the snapshot. -/
  after : Untouched w.history.log (r.Reads o.host) s.openedAt w.history.now
  /-- What was edited is reported. -/
  tracked : ∀ m e, r.readAt ≤ m → w.history.log[m]? = some e → ∀ p ∈ e.touched,
    r.Reads o.host p → trackedArea p.1 = some .source
  plainExpansions : ∀ e ∈ r.expansions, e.kind = .glob ∨ e.request.PlainRoot
  noDirLinks : NoDirLinks o.host.canonicalize (w.history.diskAt r.readAt).tree ∧
    NoDirLinks o.host.canonicalize w.history.disk.tree
  /-- No glob of the record met a symbolic link. -/
  noLinks : ∀ entry ∈ r.ledger, ∀ request, entry.1 = .paths request → request.expansion = .glob →
    ∀ p, request.LooksAt o.host p → ∀ target,
      (w.history.diskAt r.readAt).tree.node p ≠ some (.symlink target)

/-- Edits name the paths they change, and a window begins no later in the journal of sources than
the recorded digests do. -/
def CarefulOutcome (w : OutcomeWorld E K T X P M) : OutcomeOp E K M → Prop
  | .watch op => op.Named Disk.view w.history
  | .host _ => True
  | .start _ _ _ _ receipt _ => WindowCovers receipt w.digestPosition
  | .visit _ _ _ => True
  | .perform _ _ => True
  | .stamp => True
  | .close _ => True

/-! ## The invariant -/

/-- Every world that gives these answers gives this analysis. -/
def Explains (engine : Engine K X P) (key : K) (ledger : List (Question × Answer))
    (body : AnalysisBody X P) : Prop :=
  ∀ answer, (∀ entry ∈ ledger, answer entry.1 = entry.2) → ((engine key).run answer).1 = some body

/-- The recorded expansions among the answers are those of the given disk. -/
def Expanded (o : Observer E) (disk : Disk) (ledger : List (Question × Answer))
    (expansions : List Expansion) : Prop :=
  ∀ entry ∈ ledger, ∀ request, entry.1 = .paths request →
    Expansion.ofRequest request ∈ expansions → o.expand disk request = entry.2

structure AnalysedOk (engine : Engine K X P) (o : Observer E) (h : History Disk) (key : K)
    (a : Analysed X P) : Prop where
  readAt_le : a.readAt ≤ h.now
  explains : Explains engine key a.ledger a.body
  expanded : Expanded o (h.diskAt a.readAt) a.ledger (expansionsOf a.observations)

/-- The actions ran at some time after the analysis and gave the recorded outcome. -/
def RanBetween (runner : Runner E K T X P) (h : History Disk) (sandbox : SandboxMode)
    (r : Record K T X P M) : Prop :=
  ∃ ranAt product, r.readAt ≤ ranAt ∧ ranAt ≤ h.now ∧
    runner.run sandbox r.key.analysisKey r.tools r.analysis r.key.dependencyInputs
      (h.diskAt ranAt) = some product ∧
    r.outcome.actionDigest = product.actionDigest ∧ r.outcome.outputs = product.outputs ∧
    r.outcome.result = product.result

structure RecordOk (engine : Engine K X P) (o : Observer E) (runner : Runner E K T X P)
    (h : History Disk) (sandbox : SandboxMode) (r : Record K T X P M) : Prop where
  explains : Explains engine r.key.analysisKey r.ledger r.analysis
  expanded : Expanded o (h.diskAt r.readAt) r.ledger r.expansions
  sources : ∀ input ∈ r.analysis.declaredInputs, outPrefix.isPrefixOf input = false →
    input ∈ r.sources
  provider : r.outcome.provider = r.analysis.provider
  ran : RanBetween runner h sandbox r

structure OutcomeSessionOk (engine : Engine K X P) (o : Observer E) (runner : Runner E K T X P)
    (h : History Disk) (s : OutcomeSession K T X P M) : Prop where
  openedAt_le : s.openedAt ≤ h.now
  window : ∀ sources outputs, s.changes = .since sources outputs →
    Reports h sources s.windowFrom s.openedAt
  stored : ∀ entry ∈ s.stored, RecordOk engine o runner h s.sandbox entry.2
  learned : ∀ entry ∈ s.learned, RecordOk engine o runner h s.sandbox entry.2
  analysing : ∀ a ∈ s.analysing, AnalysedOk engine o h a.visit.key a.analysed

structure OutcomeOk (engine : Engine K X P) (o : Observer E) (runner : Runner E K T X P)
    (w : OutcomeWorld E K T X P M) : Prop where
  named : w.history.Faithful Disk.view
  memo : ∀ key record, w.memo key = some record →
    Explains engine key record.observations.entries record.body
  marks : ∀ sandbox file, w.outcomes sandbox = some file →
    w.history.Marks file.position file.markedAt
  outcomes : ∀ sandbox file, w.outcomes sandbox = some file → ∀ entry ∈ file.targets,
    RecordOk engine o runner w.history sandbox entry.2
  session : ∀ s, w.session = some s → OutcomeSessionOk engine o runner w.history s

variable {engine : Engine K X P} {o : Observer E} {runner : Runner E K T X P}

variable {h h' : History Disk} {op : WatchOp Disk} {key : K} {a : Analysed X P}

lemma AnalysedOk.step (hs : h.step op = some h') (ha : AnalysedOk engine o h key a) :
    AnalysedOk engine o h' key a where
  readAt_le := Nat.le_trans ha.readAt_le (History.now_le_of_step hs)
  explains := ha.explains
  expanded := by
    rw [History.diskAt_step hs ha.readAt_le]
    exact ha.expanded

variable {sandbox : SandboxMode} {r : Record K T X P M}

lemma RecordOk.step (hs : h.step op = some h') (hr : RecordOk engine o runner h sandbox r) :
    RecordOk engine o runner h' sandbox r := by
  obtain ⟨ranAt, product, hread, hnow, hrun, hproduct⟩ := hr.ran
  refine ⟨hr.explains, ?_, hr.sources, hr.provider, ranAt, product, hread,
    Nat.le_trans hnow (History.now_le_of_step hs), ?_, hproduct⟩
  · rw [History.diskAt_step hs (Nat.le_trans hread hnow)]
    exact hr.expanded
  · rw [History.diskAt_step hs hnow]
    exact hrun

variable {s : OutcomeSession K T X P M}

lemma OutcomeSessionOk.step (hs : h.step op = some h')
    (hok : OutcomeSessionOk engine o runner h s) : OutcomeSessionOk engine o runner h' s where
  openedAt_le := Nat.le_trans hok.openedAt_le (History.now_le_of_step hs)
  window := fun sources outputs hchanges =>
    (hok.window sources outputs hchanges).step hs hok.openedAt_le
  stored := fun entry he => (hok.stored entry he).step hs
  learned := fun entry he => (hok.learned entry he).step hs
  analysing := fun a ha => (hok.analysing a ha).step hs

/-! ### Visits -/

variable {env : E}

lemma analysedOk_analyze (ha : analyze engine o h.disk env h.now key = some a) :
    AnalysedOk engine o h key a := by
  obtain ⟨body, hbody, rfl⟩ := map_eq_some_iff.mp ha
  refine ⟨Nat.le_refl _, fun answer hanswer => ?_, ?_⟩
  · rw [Ask.run_eq_of_ledger _ hanswer, hbody]
  · intro entry he request hentry _
    have hanswer := Ask.answer_of_mem_ledger _ he
    rw [hentry] at hanswer
    exact hanswer

lemma explains_complete (ha : analyze engine o h.disk env h.now key = some a)
    (hcomplete : a.observations.isComplete = true) :
    Explains engine key a.observations.entries a.body := by
  have hok := analysedOk_analyze ha
  obtain ⟨body, hbody, rfl⟩ := map_eq_some_iff.mp ha
  exact fun answer hanswer => hok.explains answer fun entry he =>
    hanswer entry (o.ledger_complete hcomplete entry he)

/-! ### Records and sessions -/

lemma mem_insert {records : Records K T X P M} {id : Text} {entry : Text × Record K T X P M}
    (h : entry ∈ records.insert id r) : entry = (id, r) ∨ entry ∈ records := by
  rcases mem_cons.mp h with h | h
  · exact .inl h
  · exact .inr (mem_filter.mp h).1

lemma OutcomeSessionOk.carryForward (hok : OutcomeSessionOk engine o runner h s) (id : Text) :
    OutcomeSessionOk engine o runner h (s.carryForward id) := by
  unfold OutcomeSession.carryForward
  split
  case h_2 => exact hok
  case h_1 r hr =>
    refine { hok with learned := fun entry he => ?_ }
    rcases mem_insert he with rfl | he
    · exact hok.stored _ (mem_of_lookup hr)
    · exact hok.learned entry he

variable {w : OutcomeWorld E K T X P M} {v : Visit K}

variable {s' : OutcomeSession K T X P M} {hasFingerprint : Text → Digest → Bool}

variable {report : RunReport M}

lemma recordOk_now (ha : AnalysedOk engine o h v.key a) {tools : T} {product : Product}
    (hrun : runner.run sandbox v.key tools a.body v.dependencyInputs h.disk = some product) :
    RecordOk engine o runner h sandbox (a.record v tools (buildOutcome a.body product report)) where
  explains := ha.explains
  expanded := ha.expanded
  sources := fun input hinput hout => mem_filter.mpr ⟨hinput, by simp [hout]⟩
  provider := rfl
  ran := ⟨h.now, product, ha.readAt_le, Nat.le_refl _, hrun, rfl, rfl, rfl⟩

lemma OutcomeSessionOk.perform (hs : OutcomeSessionOk engine o runner w.history s)
    {a : Analysing K X P} (ha : AnalysedOk engine o w.history a.visit.key a.analysed)
    (hperform : w.perform runner s a report = some s') :
    OutcomeSessionOk engine o runner w.history s' := by
  unfold OutcomeWorld.perform at hperform
  dsimp only at hperform
  split at hperform
  case h_1 => cases hperform
  case h_2 product hrun =>
    cases hperform
    unfold OutcomeSession.record
    split
    case isFalse => exact hs
    case isTrue =>
      refine { hs with learned := fun entry he => ?_ }
      rcases mem_insert he with rfl | he
      · exact recordOk_now ha hrun
      · exact hs.learned entry he

lemma outcomeSessionOk_open (hok : OutcomeOk engine o runner w) {named memoEnabled : Bool}
    {receipt : Option ChangePosition} {tracked : Bool}
    (hsettled : tracked = true → w.history.Settled)
    (hcovers : WindowCovers receipt w.digestPosition) :
    OutcomeSessionOk engine o runner w.history
      (w.openSession sandbox named memoEnabled enabled receipt tracked) where
  openedAt_le := Nat.le_refl _
  window := by
    intro sources outputs hchanges
    obtain ⟨htracked, pos, hpos, hknown⟩ := initialChanges_eq_since hchanges
    unfold OutcomeWorld.openSession openRecords
    split
    case h_1 file hfile =>
      obtain ⟨hsome, hposition⟩ := filter_eq_some_iff.mp hfile
      obtain rfl : pos = file.position := by
        simpa [hpos] using hposition
      rw [hpos] at hcovers
      exact reports_of_known (hok.marks sandbox file hsome) (hsettled htracked) hcovers hknown
    case h_2 => exact fun m e hn hm => absurd hm (Nat.not_lt.mpr hn)
  stored := by
    intro entry he
    unfold OutcomeWorld.openSession openRecords at he
    split at he
    case h_1 file hfile => exact hok.outcomes sandbox file (filter_eq_some_iff.mp hfile).1 entry he
    case h_2 => cases he
  learned := fun _ he => (by cases he)
  analysing := fun _ ha => (by cases ha)

lemma save_ok (hok : OutcomeOk engine o runner w)
    (hs : OutcomeSessionOk engine o runner w.history s) {file : StoredOutcomes K T X P M}
    (hfile : w.save s sandbox = some file) :
    w.history.Marks file.position file.markedAt ∧
      ∀ entry ∈ file.targets, RecordOk engine o runner w.history sandbox entry.2 := by
  unfold OutcomeWorld.save at hfile
  split at hfile
  case isFalse => exact ⟨hok.marks sandbox file hfile, hok.outcomes sandbox file hfile⟩
  case isTrue =>
    dsimp only at hfile
    split at hfile
    case isFalse => exact ⟨hok.marks sandbox file hfile, hok.outcomes sandbox file hfile⟩
    case isTrue hsandbox =>
      cases hfile
      rw [hsandbox]
      exact ⟨w.history.marks_position, hs.learned⟩

lemma outcomeOk_initial (base : Disk) (env : E) (instanceId : Nat) :
    OutcomeOk engine o runner (OutcomeWorld.initial (M := M) base env instanceId) where
  named := fun n e he => (by cases he)
  memo := fun _ _ h => (by cases h)
  marks := fun _ _ h => (by cases h)
  outcomes := fun _ _ h => (by cases h)
  session := fun _ h => (by cases h)

/-! ### What a record covers -/

lemma not_outPrefix {p : RelPath} (harea : trackedArea p.1 = some .source) :
    outPrefix.isPrefixOf (render p.1) = false := by
  by_contra hout
  have hprefix : outPrefix <+: render p.1 := by simpa using hout
  have hplain : ∀ c ∈ [onceDir, outDir], Plain c := by decide
  have hbelow : [onceDir, outDir] <+: p.1 := isPrefix_of_render hplain p.2 (by simp) (.inr hprefix)
  obtain ⟨rest, hp⟩ := hbelow
  rw [← hp] at harea
  cases harea

lemma OutcomeCovered.not_reads (hc : OutcomeCovered o runner w s r)
    (hsources : ∀ input ∈ r.analysis.declaredInputs, outPrefix.isPrefixOf input = false →
      input ∈ r.sources) {changed : Finset Text} (hno : r.readsAnyOf o.host changed = false)
    {p : RelPath} (hp : render p.1 ∈ changed) : ¬ r.Reads o.host p := by
  unfold Record.readsAnyOf at hno
  rw [if_neg (Finset.ne_empty_of_mem hp), Bool.or_eq_false_iff] at hno
  obtain ⟨htouches, hexpansions⟩ := hno
  rintro (⟨input, hinput, hprovided, hbelow⟩ | ⟨entry, -, request, -, hlisted, hlooks⟩)
  · -- a declared input
    obtain ⟨q, hne, rfl, harea⟩ := hc.inputs input hinput hprovided
    rw [parts_render q.2] at hbelow
    refine of_decide_eq_false htouches ⟨_, hp, _, hsources _ hinput (not_outPrefix harea), ?_⟩
    exact render_eq_or_prefix hne hbelow
  · -- a recorded expansion; the excluded patterns play no part in the test
    have hdiffer : expansionCouldDiffer o.host changed request = false :=
      Bool.eq_false_iff.mpr (any_eq_false.mp hexpansions _ hlisted)
    have hshape : request.expansion = .glob ∨ request.PlainRoot := hc.plainExpansions _ hlisted
    exact Analysis.not_looksAt_of_not_couldDiffer hshape hdiffer hp hlooks

/-- Before the window, in it and after it: nothing that the record depends on was edited. -/
lemma OutcomeCovered.untouched (hc : OutcomeCovered o runner w s r)
    (hsources : ∀ input ∈ r.analysis.declaredInputs, outPrefix.isPrefixOf input = false →
      input ∈ r.sources) {sources : Finset Text}
    (hreports : Reports w.history sources s.windowFrom s.openedAt)
    (hno : r.readsAnyOf o.host sources = false) :
    Untouched w.history.log (r.Reads o.host) r.readAt w.history.now := by
  have hwindow : Untouched w.history.log (r.Reads o.host) (max r.readAt s.windowFrom)
      s.openedAt := by
    intro m e hm hlt he p hp hreads
    have harea := hc.tracked m e (le_trans (le_max_left _ _) hm) he p hp hreads
    have hmem := hreports m e (le_trans (le_max_right _ _) hm) hlt he p hp harea
    exact hc.not_reads hsources hno hmem hreads
  exact (hc.before.trans hwindow (le_refl _)).trans hc.after (le_max_right _ _)

lemma OutcomeCovered.expand_eq (hc : OutcomeCovered o runner w s r)
    (hnamed : w.history.Faithful Disk.view) (hread : r.readAt ≤ w.history.now)
    (huntouched : Untouched w.history.log (r.Reads o.host) r.readAt w.history.now)
    {entry : Question × Answer} (he : entry ∈ r.ledger) {request : Request}
    (hentry : entry.1 = .paths request) (hlisted : Expansion.ofRequest request ∈ r.expansions) :
    o.expand w.history.disk request = o.expand (w.history.diskAt r.readAt) request := by
  have hsame : expandObservedPaths o.host (w.history.diskAt r.readAt).tree request =
      expandObservedPaths o.host w.history.disk.tree request := by
    refine Analysis.expandObservedPaths_congr hc.noDirLinks.1 hc.noDirLinks.2 (fun p hlooks => ?_)
      (hc.noLinks entry he request hentry)
    by_cases hp : ∀ c ∈ p, Plain c
    · have hview := hnamed.view_eq hread huntouched (p := ⟨p, hp⟩)
        (.inr ⟨entry, he, request, hentry, hlisted, hlooks⟩)
      exact (congrArg Prod.fst hview).symm
    · rw [Analysis.Tree.node_of_not_plain _ hp, Analysis.Tree.node_of_not_plain _ hp]
  unfold Observer.expand
  rw [hsame]

/-! ### Memos -/

variable [DecidableEq K]

variable {memo : Memo K X P} {enabled : Bool}

lemma memo_write_ok {record : MemoRecord X P}
    (hmemo : ∀ k r, memo k = some r → Explains engine k r.observations.entries r.body)
    (hrecord : record.observations.isComplete = true →
      Explains engine key record.observations.entries record.body) :
    ∀ k r, memo.write enabled key record k = some r →
      Explains engine k r.observations.entries r.body := by
  intro k r hr
  unfold Memo.write at hr
  split at hr
  case isFalse => exact hmemo k r hr
  case isTrue hwrite =>
    dsimp only at hr
    split at hr
    case isFalse => exact hmemo k r hr
    case isTrue hk =>
      cases hr
      rw [hk]
      exact hrecord (Bool.and_eq_true_iff.mp hwrite).2

lemma analyzeWithMemo_ok {unchanged : Analysis.UnchangedWorkspace}
    (hmemo : ∀ k r, memo k = some r → Explains engine k r.observations.entries r.body)
    {memo' : Memo K X P}
    (ha : analyzeWithMemo engine o h.disk env h.now memo enabled unchanged key = some (a, memo')) :
    AnalysedOk engine o h key a ∧
      ∀ k r, memo' k = some r → Explains engine k r.observations.entries r.body := by
  unfold analyzeWithMemo at ha
  dsimp only at ha
  split at ha
  case h_1 record hstored =>
    -- a replayed analysis names no expansion
    cases ha
    refine ⟨⟨Nat.le_refl _, ?_, fun _ _ _ _ hmem => (by cases hmem)⟩, hmemo⟩
    have hsome := (filter_eq_some_iff.mp hstored).1
    split at hsome
    case isTrue => exact hmemo key record hsome
    case isFalse => cases hsome
  case h_2 =>
    split at ha
    case h_1 => cases ha
    case h_2 analysed hrun =>
      cases ha
      exact ⟨analysedOk_analyze hrun, memo_write_ok hmemo (explains_complete hrun)⟩

lemma OutcomeSessionOk.visit (hok : OutcomeOk engine o runner w)
    (hs : OutcomeSessionOk engine o runner w.history s) {cached : Bool}
    (hvisit : w.visit engine o s v hasFingerprint cached = some (s', memo)) :
    OutcomeSessionOk engine o runner w.history s' ∧
      ∀ k r, memo k = some r → Explains engine k r.observations.entries r.body := by
  unfold OutcomeWorld.visit at hvisit
  split at hvisit
  case isTrue =>
    cases hvisit
    exact ⟨hs.carryForward v.id, hok.memo⟩
  case isFalse =>
    split at hvisit
    case h_1 => cases hvisit
    case h_2 analysed memo' ha =>
      cases hvisit
      obtain ⟨hanalysed, hmemo⟩ := analyzeWithMemo_ok hok.memo ha
      refine ⟨{ hs with analysing := fun a hmem => ?_ }, hmemo⟩
      rcases mem_cons.mp hmem with rfl | hmem
      · exact hanalysed
      · exact hs.analysing a hmem

/-! ### Steps -/

lemma outcomeOk_step {w' : OutcomeWorld E K T X P M} {op : OutcomeOp E K M}
    (hok : OutcomeOk engine o runner w) (hcare : CarefulOutcome w op)
    (hs : outcomeStep engine o runner w op = some w') : OutcomeOk engine o runner w' := by
  cases op with
  | watch op =>
    simp only [outcomeStep] at hs
    split at hs
    case h_2 => cases hs
    case h_1 h' hstep =>
      cases hs
      exact ⟨hok.named.step hcare hstep, hok.memo,
        fun sandbox file hfile => (hok.marks sandbox file hfile).step hstep,
        fun sandbox file hfile entry he => (hok.outcomes sandbox file hfile entry he).step hstep,
        fun s hw => (hok.session s hw).step hstep⟩
  | host env =>
    cases hs
    exact ⟨hok.named, hok.memo, hok.marks, hok.outcomes, hok.session⟩
  | start sandbox named memoEnabled enabled receipt tracked =>
    simp only [outcomeStep] at hs
    split at hs
    case isFalse => cases hs
    case isTrue hguard =>
      cases hs
      refine ⟨hok.named, hok.memo, hok.marks, hok.outcomes, fun s hw => ?_⟩
      cases hw
      exact outcomeSessionOk_open hok hguard.2 hcare
  | visit v hasFingerprint cached =>
    simp only [outcomeStep] at hs
    split at hs
    case h_1 => cases hs
    case h_2 s hw =>
      split at hs
      case h_1 s' memo hvisit =>
        cases hs
        obtain ⟨hs', hmemo⟩ := OutcomeSessionOk.visit hok (hok.session s hw) hvisit
        refine ⟨hok.named, hmemo, hok.marks, hok.outcomes, fun t ht => ?_⟩
        cases ht
        exact hs'
      case h_2 =>
        cases hs
        exact ⟨hok.named, hok.memo, hok.marks, hok.outcomes, fun t ht => (by cases ht)⟩
  | perform n report =>
    simp only [outcomeStep] at hs
    split at hs
    case h_1 => cases hs
    case h_2 s hw =>
      split at hs
      case h_1 => cases hs
      case h_2 a ha =>
        cases hs
        have hsession := hok.session s hw
        have hrest : OutcomeSessionOk engine o runner w.history
            { s with analysing := s.analysing.eraseIdx n } :=
          { hsession with
            analysing := fun b hb => hsession.analysing b (mem_of_mem_eraseIdx hb) }
        exact ⟨hok.named, hok.memo, hok.marks, hok.outcomes, fun t ht =>
          hrest.perform (hsession.analysing a (mem_of_getElem? ha)) ht⟩
  | stamp =>
    simp only [outcomeStep] at hs
    split at hs
    case h_1 => cases hs
    case h_2 s hw =>
      cases hs
      have hsaved : ∀ sandbox file, w.save s sandbox = some file →
          w.history.Marks file.position file.markedAt ∧
            ∀ entry ∈ file.targets, RecordOk engine o runner w.history sandbox entry.2 :=
        fun sandbox file => save_ok hok (hok.session s hw)
      exact ⟨hok.named, hok.memo, fun sandbox file hfile => (hsaved sandbox file hfile).1,
        fun sandbox file hfile => (hsaved sandbox file hfile).2, fun t ht => (by cases ht)⟩
  | close dirty =>
    cases hs
    exact ⟨hok.named, hok.memo, hok.marks, hok.outcomes, fun t ht => (by cases ht)⟩

/-! ## Reuse -/

/-- What `reuse_with_inputs` checked. -/
lemma reuseWithInputs_eq_some {host : Host} {disk : Disk} {out : BuildOutcome P M}
    (h : s.reuseWithInputs host disk hasFingerprint v = some out) :
    ∃ r sources outputs, s.stored.lookup v.id = some r ∧ s.changes = .since sources outputs ∧
      r.key = v.outcomeKey ∧ r.readsAnyOf host sources = false ∧ r.outcome.reused = out := by
  unfold OutcomeSession.reuseWithInputs at h
  split at h
  case isTrue => cases h
  case isFalse =>
    split at h
    case isTrue => cases h
    case isFalse =>
      split at h
      case h_2 => cases h
      case h_1 sources outputs r hchanges hr =>
        unfold Record.reuse at h
        split at h
        case isTrue => cases h
        case isFalse =>
          split at h
          case isTrue => cases h
          case isFalse hkey =>
            split at h
            case isTrue => cases h
            case isFalse hreads =>
              -- the checks of the outputs say nothing about what the outcome follows from
              split_ifs at h
              cases h
              exact ⟨r, sources, outputs, hr, hchanges, not_not.mp hkey, by simpa using hreads, rfl⟩

/-- An outcome that is reused is the outcome that analysing the target and running its actions now
would give, when what the record does not name has stayed as it was and what it names was edited
inside the window only. -/
theorem reused_outcome_right (engine : Engine K X P) (o : Observer E) (runner : Runner E K T X P)
    (hactions : ActionsDeclared runner) (base : Disk) (env : E) (instanceId : Nat)
    {w : OutcomeWorld E K T X P M}
    (hrun : Reachable (outcomeStep engine o runner) CarefulOutcome (.initial base env instanceId) w)
    {s : OutcomeSession K T X P M} (hs : w.session = some s) {v : Visit K}
    (hcovered : ∀ r, s.stored.lookup v.id = some r → OutcomeCovered o runner w s r)
    (hasFingerprint : Text → Digest → Bool) {out : BuildOutcome P M}
    (hreuse : s.reuseWithInputs o.host w.history.disk hasFingerprint v = some out) :
    ∃ fresh product, analyze engine o w.history.disk w.env w.history.now v.key = some fresh ∧
      runner.run s.sandbox v.key (runner.tools w.env v.key) fresh.body v.dependencyInputs
        w.history.disk = some product ∧
      out.provider = fresh.body.provider ∧ out.actionDigest = product.actionDigest ∧
      out.outputs = product.outputs ∧ out.result = product.result := by
  have hok : OutcomeOk engine o runner w :=
    hrun.invariant (outcomeOk_initial base env instanceId) fun _ _ _ => outcomeOk_step
  have hsession := hok.session s hs
  obtain ⟨r, sources, outputs, hr, hchanges, hkey, hno, rfl⟩ := reuseWithInputs_eq_some hreuse
  have hc := hcovered r hr
  have hrecord := hsession.stored _ (mem_of_lookup hr)
  obtain ⟨ranAt, product, hread, hnow, hproduct, hdigest, houtputs, hresult⟩ := hrecord.ran
  have huntouched := hc.untouched hrecord.sources (hsession.window sources outputs hchanges) hno
  have hanalysis : r.key.analysisKey = v.key := by rw [hkey]; rfl
  have hdependencies : r.key.dependencyInputs = v.dependencyInputs := by rw [hkey]; rfl
  -- the implementation is given the answers of the ledger
  have hbody : ((engine v.key).run (o.answer w.history.disk w.env)).1 = some r.analysis := by
    rw [← hanalysis]
    refine hrecord.explains _ fun entry he => ?_
    by_cases hlisted : r.Lists entry.1
    · obtain ⟨request, hentry, hmem⟩ := hlisted
      have hthen := hrecord.expanded entry he request hentry hmem
      have hexpand := hc.expand_eq hok.named (Nat.le_trans hread hnow) huntouched he hentry hmem
      rw [hentry, ← hthen]
      exact hexpand
    · exact hc.unlisted entry he hlisted
  -- and the actions read what they read
  have hactionsNow : runner.run s.sandbox v.key (runner.tools w.env v.key) r.analysis
      v.dependencyInputs w.history.disk = some product := by
    rw [← hproduct, ← hanalysis, hc.tools, ← hdependencies]
    refine hactions _ _ _ _ _ _ _ fun input hinput hprovided p hbelow => ?_
    exact hok.named.view_eq hnow (huntouched.mono hread (Nat.le_refl _))
      (.inl ⟨input, hinput, hprovided, hbelow⟩)
  have hfresh : analyze engine o w.history.disk w.env w.history.now v.key = some _ :=
    map_eq_some_iff.mpr ⟨r.analysis, hbody, rfl⟩
  exact ⟨_, product, hfresh, hactionsNow, hrecord.provider, hdigest, houtputs, hresult⟩

/-! ### An analysis that reads an environment variable -/

def zeroDigest : Digest := ⟨List.replicate 64 '0', rfl, rfl⟩

/-- The provider is the value of a variable; one action takes the file `a`. -/
def readsVariable : Engine Unit Unit Answer := fun _ =>
  .ask (.env ['V']) fun value => .done (some ⟨[⟨[['a']], false, false, ()⟩], value, []⟩)

/-- The state of the host is the value of its one variable. -/
def oneVariable : Observer Answer where
  host := Analysis.literalHost
  ask := fun _ value _ => value
  recordable := fun _ => true

def constantRunner : Runner Answer Unit Unit Unit Answer where
  tools := fun _ _ => ()
  run := fun _ _ _ _ _ _ => some ⟨zeroDigest, [], ⟨0, none, none, []⟩⟩

abbrev VariableWorld := OutcomeWorld Answer Unit Unit Unit Answer Unit

def onlyTarget : Visit Unit := ⟨['t'], (), [], []⟩

def allMissed : RunReport Unit := ⟨none, none, [], .miss, [], [], []⟩

def withFileA : Disk := ⟨Analysis.spine Analysis.fileA (by decide) (some .file), fun _ => ⟨0, none⟩⟩

lemma withFileA_noDirLinks : NoDirLinks Analysis.literalHost.canonicalize withFileA.tree :=
  @Analysis.noDirLinks_spine Analysis.fileA (by decide) (some .file) _ (by simp)

def unset : Answer := .found none

def set : Answer := .found (some ['1'])

def variableUnset : VariableWorld := .initial withFileA unset 0

def beginBuild : OutcomeOp Answer Unit Unit := .start .off true true true none true

def visitTarget : OutcomeOp Answer Unit Unit := .visit onlyTarget (fun _ _ => false) true

/-- The first build records the outcome; the variable is set before the second begins. -/
def setVariableRun : List (OutcomeOp Answer Unit Unit) :=
  [beginBuild, visitTarget, .perform 0 allMissed, .stamp, .host set, beginBuild]

/-- The second build reuses the provider of the first. -/
theorem setVariableRun_reuses_old_provider : ∃ w s out fresh,
    runSteps (outcomeStep readsVariable oneVariable constantRunner)
        variableUnset setVariableRun = some w ∧
      w.session = some s ∧
      s.reuseWithInputs oneVariable.host w.history.disk (fun _ _ => false) onlyTarget = some out ∧
      analyze readsVariable oneVariable w.history.disk w.env w.history.now onlyTarget.key =
        some fresh ∧
      out.provider = unset ∧ fresh.body.provider = set :=
  ⟨_, _, _, _, rfl, rfl, rfl, rfl, rfl, rfl⟩

lemma plain_passing : ∀ c ∈ [['b']], Plain c := by decide

def passingFile : RelPath := ⟨[['b']], plain_passing⟩

/-- With the variable left alone, and a file that came and went, the outcome is reused. -/
theorem reused_outcome_unchanged : ∃ w s out,
    Reachable (outcomeStep readsVariable oneVariable constantRunner) CarefulOutcome
        variableUnset w ∧
      w.session = some s ∧
      s.reuseWithInputs oneVariable.host w.history.disk (fun _ _ => false) onlyTarget = some out ∧
      ∃ fresh product,
        analyze readsVariable oneVariable w.history.disk w.env w.history.now onlyTarget.key =
          some fresh ∧
        constantRunner.run s.sandbox onlyTarget.key (constantRunner.tools w.env onlyTarget.key)
          fresh.body onlyTarget.dependencyInputs w.history.disk = some product ∧
        out.provider = fresh.body.provider ∧ out.actionDigest = product.actionDigest ∧
        out.outputs = product.outputs ∧ out.result = product.result := by
  have hwindow : ∀ w : VariableWorld, CarefulOutcome w beginBuild := fun _ r hr => (by cases hr)
  have hvisit : ∀ w : VariableWorld, CarefulOutcome w visitTarget := fun _ => trivial
  have hperform : ∀ w : VariableWorld, CarefulOutcome w (.perform 0 allMissed) := fun _ => trivial
  have hstamp : ∀ w : VariableWorld, CarefulOutcome w .stamp := fun _ => trivial
  have hedit : ∀ w : VariableWorld, w.history.disk = withFileA →
      CarefulOutcome w (.watch (.edit ⟨[passingFile], withFileA⟩)) := fun w hw p _ => by rw [hw]
  have hdeliver : ∀ w : VariableWorld, CarefulOutcome w (.watch .deliver) := fun _ => trivial
  have hinit : Reachable (outcomeStep readsVariable oneVariable constantRunner) CarefulOutcome
      variableUnset variableUnset := .start
  have hrecorded := (((hinit.step (hwindow _) rfl).step (hvisit _) rfl).step (hperform _) rfl).step
    (hstamp _) rfl
  have hrun := ((hrecorded.step (hedit _ rfl) rfl).step (hdeliver _) rfl).step (hwindow _) rfl
  refine ⟨_, _, _, hrun, rfl, rfl, ?_⟩
  refine reused_outcome_right readsVariable oneVariable constantRunner
    (fun _ _ _ _ _ _ _ _ => rfl) withFileA unset 0 hrun rfl (fun r hr => ?_)
    (fun _ _ => false) rfl
  cases hr
  have hlinks := withFileA_noDirLinks
  exact
    { unlisted := fun entry he _ => by
        rw [mem_singleton.mp he]
        rfl
      tools := rfl
      inputs := fun input hinput _ =>
        ⟨Analysis.fileA, by decide, mem_singleton.mp hinput, rfl⟩
      before := fun m e hm hlt => absurd hlt (Nat.not_lt_of_le hm)
      after := fun m e hm hlt => absurd hlt (Nat.not_lt_of_le hm)
      tracked := by
        intro m e _ he p hp _
        have hedit : e ∈ [(⟨[passingFile], withFileA⟩ : Edit RelPath Disk)] := mem_of_getElem? he
        rw [mem_singleton.mp hedit] at hp
        rw [mem_singleton.mp hp]
        rfl
      plainExpansions := fun e he => (by cases he)
      noDirLinks := ⟨hlinks, hlinks⟩
      noLinks := fun entry he request hentry => by
        rw [mem_singleton.mp he] at hentry
        cases hentry }

end OnceBuild.Graph
