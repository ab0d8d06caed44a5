import OnceBuild.Graph.BuildReceipt

/-!
# Using a receipt

A receipt is right at the time it was taken: the workspace and the host give the answers that the
build was given, and the outputs are in place.  What a later build compares shows that every tracked
path still is as it was then.  A build that was disturbed takes its receipt too late for what it
read and is told only of changes after it.
-/

namespace OnceBuild.Graph

open Lib List Option
open ChangeTracker

variable {S V D Q G W H F X I : Type}

/-- Builds read sources only, digests tell contents apart, and an output whose metadata is described
alike holds the same content. -/
structure BuildHost.Lawful (view : S → RelPath → V) (b : BuildHost S D Q G W H F) : Prop where
  digest_local : ∀ disk disk' path,
    (∀ p, trackedArea p.1 = some .source → view disk p = view disk' p) →
    b.digestSourcePath disk path = b.digestSourcePath disk' path
  source_local : ∀ disk disk' question,
    (∀ p, trackedArea p.1 = some .source → view disk p = view disk' p) →
    b.source disk question = b.source disk' question
  digest_injective : ∀ disk disk' (p : RelPath) d, b.digestSourcePath disk (render p.1) = some d →
    b.digestSourcePath disk' (render p.1) = some d → view disk p = view disk' p
  output_local : ∀ disk disk' (p : RelPath), (∀ q, Below p q → view disk q = view disk' q) →
    b.outputDigest disk (render p.1) = b.outputDigest disk' (render p.1)
  output_injective : ∀ disk disk' (p : RelPath) d, b.outputDigest disk (render p.1) = some d →
    b.outputDigest disk' (render p.1) = some d → ∀ q, Below p q → view disk q = view disk' q
  describe_sound : ∀ disk disk' path f, b.describeOutput disk path = some f →
    b.describeOutput disk' path = some f → b.outputDigest disk path = b.outputDigest disk' path

def TrackedOutput (path : Text) : Prop :=
  ∃ p : RelPath, path = render p.1 ∧ p.1 ≠ [] ∧ (trackedArea p.1).isSome = true

/-- When a build takes its receipt, all that it observed and produced is as it observed and produced
it. -/
structure Undisturbed (b : BuildHost S D Q G W H F) (w : ReceiptWorld S D Q G W H F X I)
    (s : ReceiptSession D Q G W X I) (p : Published D I) : Prop where
  answers : ∀ entry ∈ s.ledger, b.answer w.history.disk w.host s.env entry.1 = entry.2
  /-- The fingerprint of an observed host path tells its answers apart. -/
  described : ∀ entry ∈ s.ledger, ∀ path question, entry.1 = .host path question →
    ∀ h, b.fingerprint h path = b.fingerprint w.host path →
      b.host h path question = b.host w.host path question
  executable : s.executable = w.executable
  outputs : ∀ output ∈ p.result.placed p.deferred,
    b.outputDigest w.history.disk output.1 = some output.2
  /-- Recorded entries of deferred outputs describe what is on disk as well. -/
  produced : ∀ output ∈ recordedOutputDigests w.outputEntries p.result.outputs,
    b.outputDigest w.history.disk output.1 = some output.2
  tracked : ∀ output ∈ p.result.outputs, TrackedOutput output.1

/-- Edits name the paths they change, the writes of a build too, and a build that stores a receipt is
not disturbed. -/
def CarefulReceipt [DecidableEq D] (view : S → RelPath → V) (b : BuildHost S D Q G W H F)
    (w : ReceiptWorld S D Q G W H F X I) : ReceiptOp S H X → Prop
  | .watch op => op.Named view w.history
  | .host _ => True
  | .install _ => True
  | .start _ _ _ => True
  | .ask => True
  | .publish writes _ _ => writes.Names view w.history.disk
  | .finish uncachedWork answered _ => ∀ s, w.session = some s → ∀ p, s.published = some p →
      ¬(p.cacheState = .bypass ∨ uncachedWork = true) → answered = true →
      w.maySave b s (w.history.tracker.snapshotSince s.initial) = true → Undisturbed b w s p
  | .close _ => True

/-! ## The invariant -/

structure ReceiptOk (b : BuildHost S D Q G W H F) (builder : Builder X Q G D W I) (h : History S)
    (r : Receipt D Q G W F X I) : Prop where
  marks : h.Marks r.position r.markedAt
  markedAt_le : r.markedAt ≤ r.takenAt
  takenAt_le : r.takenAt ≤ h.now
  target : r.target = r.request.target
  sandbox : r.sandbox = sandboxKey r.request.sandbox
  record : r.record.outputs = r.result.outputs.map Prod.fst ∧ r.record.info = r.result.info
  explains : ∀ answer, (∀ entry ∈ r.ledger, answer entry.1 = entry.2) →
    ((builder r.executableFingerprint r.request).run answer).1 = some r.result
  /-- A host that passes the checks of the receipt gives the recorded answers. -/
  answers : ∀ host, (∀ path ∈ r.hostPaths, b.fingerprint host path.1 = path.2) → ∀ entry ∈ r.ledger,
      b.answer (h.diskAt r.takenAt) host r.inheritedEnvironment entry.1 = entry.2
  digests : ∀ entry ∈ r.sourceDigests,
    b.digestSourcePath (h.diskAt r.takenAt) entry.1 = some entry.2
  produced : ∀ output ∈ r.produced, TrackedOutput output.1 ∧
    b.outputDigest (h.diskAt r.takenAt) output.1 = some output.2
  outputs : ∀ output ∈ r.result.placed r.deferred,
    b.outputDigest (h.diskAt r.takenAt) output.1 = some output.2
  tracked : ∀ output ∈ r.result.outputs, TrackedOutput output.1

/-- The answers so far lead from the whole build to what is left of it. -/
structure ReceiptSessionOk (builder : Builder X Q G D W I) (s : ReceiptSession D Q G W X I) :
    Prop where
  explains : ∀ answer, (∀ entry ∈ s.ledger, answer entry.1 = entry.2) →
    ((builder s.executable s.request).run answer).1 = (s.computation.run answer).1
  published : ∀ p, s.published = some p → s.computation = .done (some p.result)

/-- Of two positions of one tracker one is the later. -/
def Comparable (p q : ChangePosition) : Prop :=
  p.instanceId = q.instanceId →
    (∀ area, p.generation area ≤ q.generation area) ∨ ∀ area, q.generation area ≤ p.generation area

structure ReceiptsOk (view : S → RelPath → V) (b : BuildHost S D Q G W H F)
    (builder : Builder X Q G D W I) (w : ReceiptWorld S D Q G W H F X I) : Prop where
  named : w.history.Faithful view
  digests : ∀ pos, w.digestPosition = some pos → ∃ n, w.history.Marks pos n
  receipts : ∀ key r, w.receipts key = some r →
    receiptKey r.request = key ∧ ReceiptOk b builder w.history r
  comparable : ∀ key r, w.receipts key = some r → ∀ pos, w.digestPosition = some pos →
    Comparable r.position pos
  entries : ∀ path entry, w.outputEntries path = some entry → ∀ disk,
    b.describeOutput disk path = some entry.fingerprint →
    b.outputDigest disk path = some entry.digest
  session : ∀ s, w.session = some s → ReceiptSessionOk builder s

variable {view : S → RelPath → V} {b : BuildHost S D Q G W H F} {builder : Builder X Q G D W I}

variable {h : History S} {r : Receipt D Q G W F X I}

lemma ReceiptOk.step {h' : History S} {op : WatchOp S} (hs : h.step op = some h')
    (hr : ReceiptOk b builder h r) : ReceiptOk b builder h' r := by
  have hdisk : h'.diskAt r.takenAt = h.diskAt r.takenAt := History.diskAt_step hs hr.takenAt_le
  exact
    { hr with
      marks := hr.marks.step hs
      takenAt_le := Nat.le_trans hr.takenAt_le (History.now_le_of_step hs)
      answers := by
        rw [hdisk]
        exact hr.answers
      digests := by
        rw [hdisk]
        exact hr.digests
      produced := by
        rw [hdisk]
        exact hr.produced
      outputs := by
        rw [hdisk]
        exact hr.outputs }

lemma comparable_position {pos : ChangePosition} {n : Nat} (hm : h.Marks pos n) :
    Comparable pos h.tracker.position := by
  intro hid
  refine .inl fun area => ?_
  rw [TrackerState.position_generation]
  exact hm.generation_le hid area

lemma Comparable.symm {p q : ChangePosition} (h : Comparable p q) : Comparable q p :=
  fun hid => (h hid.symm).symm

lemma earliestPosition_le_receipt {r since : ChangePosition} {recordedAt : Option ChangePosition}
    (hcomparable : ∀ pos, recordedAt = some pos → Comparable r pos)
    (h : earliestPosition (some r) recordedAt = some since) (area : Area) :
    since.generation area ≤ r.generation area := by
  cases recordedAt with
  | none =>
    cases h
    exact Nat.le_refl _
  | some d =>
    simp only [earliestPosition] at h
    split at h
    case isFalse => cases h
    case isTrue hid =>
      split at h
      case isTrue =>
        cases h
        exact Nat.le_refl _
      case isFalse hmin =>
        cases h
        rcases hcomparable since rfl hid with hle | hle
        · -- then the receipt would have been picked
          have hsource := hle .source
          have houtput := hle .output
          exact absurd (min_le_min hsource houtput) hmin
        · exact hle area

/-! ## What the checks of a receipt show -/

variable {w : ReceiptWorld S D Q G W H F X I}

/-- After a barrier, a tracked path is as it was when the receipt was taken, or its area has moved
on and the snapshot names it. -/
lemma ReceiptOk.unchanged_or_reported (hok : ReceiptOk b builder w.history r)
    (hnamed : w.history.Faithful view) (hsettled : w.history.Settled)
    (hcomparable : ∀ pos, w.digestPosition = some pos → Comparable r.position pos)
    (hid : r.position.instanceId = w.history.tracker.instanceId) {p : RelPath} {area : Area}
    (harea : trackedArea p.1 = some area) :
    view w.history.disk p = view (w.history.diskAt r.takenAt) p ∨
      (r.position.generation area ≠ (w.snapshotFor r).position.generation area ∧
        ∀ changed, (w.snapshotFor r).changes area = some changed → render p.1 ∈ changed) := by
  by_cases huntouched : Untouched w.history.log (fun q => q = p) r.takenAt w.history.now
  · exact .inl (hnamed.view_eq hok.takenAt_le huntouched rfl)
  · right
    unfold Untouched at huntouched
    push Not at huntouched
    obtain ⟨m, e, hm, hlt, he, q, hq, rfl⟩ := huntouched
    have hmarked : r.markedAt ≤ m := Nat.le_trans hok.markedAt_le hm
    constructor
    · intro hgen
      have hstill := hok.marks.untouched_of_generation_eq hsettled hid area
        (hgen.trans (TrackerState.position_generation _ _))
      exact hstill m e hmarked hlt he q hq harea
    · intro changed hchanges
      obtain ⟨since, hsince, -, -⟩ := TrackerState.snapshotSince_changes area hchanges
      have hle := earliestPosition_le_receipt hcomparable hsince area
      unfold ReceiptWorld.snapshotFor at hchanges
      rw [hsince] at hchanges
      exact hok.marks.snapshot_covers hsettled hid area hle hchanges hmarked he hq harea

variable {disk : S} {entries : OutputEntries D F} {request : BuildRequest} {env : Environment}

section checks

variable [DecidableEq D]

variable {changes : Option (Finset Text)}

lemma sourceChangesMatch_spec {expected : List (Text × D)}
    (h : sourceChangesMatch b disk expected changes = true) :
    ∃ changed, changes = some changed ∧ ∀ path ∈ changed, ∃ digest, (path, digest) ∈ expected ∧
      b.digestSourcePath disk path = some digest := by
  cases changes with
  | none => cases h
  | some changed =>
    refine ⟨changed, rfl, fun path hpath => ?_⟩
    have hmatch := of_decide_eq_true h path hpath
    obtain ⟨digest, hlookup, hdigest⟩ := (any_eq_true _ _).mp hmatch
    exact ⟨digest, mem_of_lookup hlookup, eq_of_beq hdigest⟩

variable [DecidableEq F]

lemma outputDigest_of_outputMatches
    (hentries : ∀ path entry, entries path = some entry →
      b.describeOutput disk path = some entry.fingerprint →
      b.outputDigest disk path = some entry.digest) {output : Text} {expected : D}
    (h : outputMatches b disk entries output expected = true) :
    b.outputDigest disk output = some expected := by
  unfold outputMatches at h
  split at h
  case h_2 => cases h
  case h_1 described entry hdescribed hentry =>
    obtain ⟨hdigest, hfingerprint⟩ := Bool.and_eq_true_iff.mp h
    rw [← eq_of_beq hdigest]
    exact hentries output entry hentry (by rw [hdescribed, eq_of_beq hfingerprint])

lemma outputChangesAreOurOwn_spec {produced : List (Text × D)}
    (h : outputChangesAreOurOwn b disk entries produced changes = true) :
    ∃ changed, changes = some changed ∧ ∀ path ∈ changed, ∃ output ∈ produced,
      (path = output.1 ∨ (output.1 ++ ['/']) <+: path) ∧
      outputMatches b disk entries output.1 output.2 = true := by
  cases changes with
  | none => cases h
  | some changed =>
    refine ⟨changed, rfl, fun path hpath => ?_⟩
    unfold outputChangesAreOurOwn at h
    dsimp only at h
    split at h
    case isTrue hempty => simp [hempty] at hpath
    case isFalse =>
      split at h
      case isTrue => cases h
      case isFalse =>
        have hmatch := of_decide_eq_true h path hpath
        obtain ⟨output, hover, hmatches⟩ := (any_eq_true _ _).mp hmatch
        have hinside := find?_some hover
        refine ⟨output, mem_of_find?_eq_some hover, ?_, hmatches⟩
        rcases Bool.or_eq_true_iff.mp hinside with heq | hinside
        · exact .inl (eq_of_beq heq).symm
        · exact .inr <| isPrefixOf_iff_prefix.mp hinside

structure Receipt.Usable (b : BuildHost S D Q G W H F) (disk : S) (h : H) (executable : X)
    (entries : OutputEntries D F) (request : BuildRequest) (env : Environment)
    (snapshot : ChangeSnapshot) (r : Receipt D Q G W F X I) : Prop where
  target : r.target = request.target
  sandbox : r.sandbox = sandboxKey request.sandbox
  instanceId : r.position.instanceId = snapshot.position.instanceId
  sources : r.position.sourceGeneration = snapshot.position.sourceGeneration ∨
    sourceChangesMatch b disk r.sourceDigests snapshot.sourceChanges = true
  outputs : r.position.outputGeneration = snapshot.position.outputGeneration ∨
    outputChangesAreOurOwn b disk entries r.produced snapshot.outputChanges = true
  environment : r.inheritedEnvironment = env
  hostPaths : ∀ path ∈ r.hostPaths, b.fingerprint h path.1 = path.2
  executable : r.executableFingerprint = executable

lemma Receipt.usable_of_miss_eq_none [DecidableEq X] {h : H} {executable : X}
    {snapshot : ChangeSnapshot}
    (hmiss : r.miss b disk h executable entries request env snapshot = none) :
    r.Usable b disk h executable entries request env snapshot := by
  unfold Receipt.miss at hmiss
  simp only [ite_eq_right_iff, reduceCtorEq, imp_false, not_not, not_and_or, Bool.not_eq_false,
    ne_eq, not_or, Bool.not_eq_true, ite_eq_iff, and_false, false_or] at hmiss
  obtain ⟨htarget, hsandbox, hid, hsource, houtput, ⟨-, henv⟩, hhost, hexecutable, -⟩ := hmiss
  refine ⟨htarget, hsandbox, hid, hsource, houtput, henv, fun path hpath => ?_, hexecutable⟩
  by_contra hne
  have hany : (r.hostPaths.any fun p => !(b.fingerprint h p.1 == p.2)) = true :=
    any_eq_true.mpr ⟨path, hpath, by simpa using hne⟩
  rw [hhost] at hany
  cases hany

lemma Receipt.Usable.view_eq
    (hu : r.Usable b w.history.disk w.host w.executable w.outputEntries request env
      (w.snapshotFor r)) (hlaws : b.Lawful view) (hw : ReceiptsOk view b builder w)
    (hsettled : w.history.Settled) (hr : w.receipts (receiptKey request) = some r) {p : RelPath}
    {area : Area} (harea : trackedArea p.1 = some area) :
    view w.history.disk p = view (w.history.diskAt r.takenAt) p := by
  have hok := (hw.receipts _ _ hr).2
  rcases hok.unchanged_or_reported hw.named hsettled (hw.comparable _ _ hr) hu.instanceId harea with
    heq | ⟨hgen, hreported⟩
  · exact heq
  · cases area with
    | source =>
      -- the receipt has a digest of the path, and the path still has it
      obtain ⟨changed, hchanges, hall⟩ := sourceChangesMatch_spec (hu.sources.resolve_left hgen)
      obtain ⟨digest, hexpected, hdigest⟩ := hall _ (hreported changed hchanges)
      exact hlaws.digest_injective _ _ p digest hdigest (hok.digests _ hexpected)
    | output =>
      -- the path lies in an output that holds what the build produced
      obtain ⟨changed, hchanges, hall⟩ := outputChangesAreOurOwn_spec (hu.outputs.resolve_left hgen)
      obtain ⟨output, hproduced, hinside, hmatches⟩ := hall _ (hreported changed hchanges)
      obtain ⟨⟨root, hroot, hne, -⟩, hthen⟩ := hok.produced output hproduced
      have hnow := outputDigest_of_outputMatches
        (fun path entry hentry => hw.entries path entry hentry w.history.disk) hmatches
      rw [hroot] at hinside hnow hthen
      exact hlaws.output_injective _ _ root output.2 hnow hthen p
        (isPrefix_of_render root.2 p.2 hne hinside)

end checks

/-! ## Carrying a receipt over -/

/-- Two workspaces agree on every tracked path. -/
def SameTracked (view : S → RelPath → V) (disk disk' : S) : Prop :=
  ∀ p area, trackedArea p.1 = some area → view disk p = view disk' p

lemma BuildHost.Lawful.answer_eq (hlaws : b.Lawful view) {disk' : S}
    (hsame : SameTracked view disk disk') (h : H) (env : Environment) (q : BuildQuestion Q G) :
    b.answer disk h env q = b.answer disk' h env q := by
  cases q with
  | digest path =>
    exact congrArg BuildAnswer.digest
      (hlaws.digest_local _ _ path fun p harea => hsame p _ harea)
  | source question =>
    exact congrArg BuildAnswer.value
      (hlaws.source_local _ _ question fun p harea => hsame p _ harea)
  | env name | host path question => rfl

lemma BuildHost.Lawful.outputDigest_eq (hlaws : b.Lawful view) {disk' : S}
    (hsame : SameTracked view disk disk') {path : Text} (htracked : TrackedOutput path) :
    b.outputDigest disk path = b.outputDigest disk' path := by
  obtain ⟨p, rfl, hne, harea⟩ := htracked
  obtain ⟨area, harea⟩ := isSome_iff_exists.mp harea
  exact hlaws.output_local _ _ p fun q hq => hsame q area (trackedArea_of_below hne harea hq)

/-- What a receipt says holds now as well. -/
structure ReceiptOk.Current (b : BuildHost S D Q G W H F) (h : History S)
    (r : Receipt D Q G W F X I) : Prop where
  answers : ∀ host, (∀ path ∈ r.hostPaths, b.fingerprint host path.1 = path.2) →
    ∀ entry ∈ r.ledger, b.answer h.disk host r.inheritedEnvironment entry.1 = entry.2
  produced : ∀ output ∈ r.produced, TrackedOutput output.1 ∧
    b.outputDigest h.disk output.1 = some output.2
  outputs : ∀ output ∈ r.result.placed r.deferred, b.outputDigest h.disk output.1 = some output.2

lemma ReceiptOk.current (hlaws : b.Lawful view) (hok : ReceiptOk b builder h r)
    (hsame : SameTracked view h.disk (h.diskAt r.takenAt)) : ReceiptOk.Current b h r where
  answers host hhost entry he := by
    rw [hlaws.answer_eq hsame]
    exact hok.answers host hhost entry he
  produced output hproduced := by
    obtain ⟨htracked, hdigest⟩ := hok.produced output hproduced
    rw [hlaws.outputDigest_eq hsame htracked]
    exact ⟨htracked, hdigest⟩
  outputs output houtput := by
    rw [hlaws.outputDigest_eq hsame (hok.tracked output (mem_filter.mp houtput).1)]
    exact hok.outputs output houtput

section load

variable [DecidableEq D] [DecidableEq F] [DecidableEq X]

variable {record : RunRecord I} {r' : Receipt D Q G W F X I}

lemma ReceiptWorld.load_eq_some (h : w.load b request env = some (record, r')) :
    ∃ r, w.receipts (receiptKey request) = some r ∧
      r.Usable b w.history.disk w.host w.executable w.outputEntries request env
        (w.snapshotFor r) ∧
      record = { r.record with cache := .hit } ∧
      (r' = r ∨ r' = { r with
        position := w.history.tracker.position
        sourceDigests := []
        markedAt := w.history.delivered
        takenAt := w.history.now }) := by
  unfold ReceiptWorld.load at h
  split at h
  case h_1 => cases h
  case h_2 r hr =>
    unfold Receipt.load at h
    split at h
    case h_1 => cases h
    case h_2 hmiss =>
      have husable := Receipt.usable_of_miss_eq_none hmiss
      obtain ⟨rfl, rfl⟩ := h
      refine ⟨r, hr, husable, rfl, ?_⟩
      split
      case isTrue => exact .inl rfl
      case isFalse => exact .inr rfl

lemma sandboxKey_injective {m m' : SandboxMode} (h : sandboxKey m = sandboxKey m') : m = m' := by
  cases m <;> cases m' <;> first | rfl | exact absurd h (by decide)

omit [DecidableEq D] [DecidableEq F] [DecidableEq X] in
lemma request_eq_of_key {r : BuildRequest} (hkey : receiptKey r = receiptKey request)
    (htarget : r.target = request.target) (hsandbox : r.sandbox = request.sandbox) :
    r = request := by
  cases r with
  | mk target suffix sandbox =>
    cases request with
    | mk target' suffix' sandbox' =>
      obtain rfl : target = target' := htarget
      obtain rfl : sandbox = sandbox' := hsandbox
      have hsuffix : suffix = suffix' := append_cancel_left (append_cancel_right hkey)
      rw [hsuffix]

lemma ReceiptsOk.load (hw : ReceiptsOk view b builder w) (hlaws : b.Lawful view)
    (hsettled : w.history.Settled) (hload : w.load b request env = some (record, r')) :
    ∃ r, r.Usable b w.history.disk w.host w.executable w.outputEntries request env
        (w.snapshotFor r) ∧ r.request = request ∧ ReceiptOk b builder w.history r ∧
      ReceiptOk.Current b w.history r ∧ record = { r.record with cache := .hit } ∧
      r'.deferred = r.deferred ∧ r'.request = request ∧ ReceiptOk b builder w.history r' ∧
      ∀ pos, w.digestPosition = some pos → Comparable r'.position pos := by
  obtain ⟨r, hr, husable, hrecord, hr'⟩ := ReceiptWorld.load_eq_some hload
  obtain ⟨hkey, hok⟩ := hw.receipts _ _ hr
  have hrequest : r.request = request :=
    request_eq_of_key hkey (hok.target.symm.trans husable.target)
      (sandboxKey_injective (hok.sandbox.symm.trans husable.sandbox))
  have hcurrent := hok.current hlaws fun p area harea => husable.view_eq hlaws hw hsettled hr harea
  refine ⟨r, husable, hrequest, hok, hcurrent, hrecord, ?_⟩
  rcases hr' with rfl | rfl
  · exact ⟨rfl, hrequest, hok, hw.comparable _ _ hr⟩
  · refine ⟨rfl, hrequest, ?_, fun pos hpos => ?_⟩
    · exact
        { hok with
          marks := w.history.marks_position
          markedAt_le := w.history.delivered_le
          takenAt_le := Nat.le_refl _
          answers := hcurrent.answers
          digests := fun _ he => (by cases he)
          produced := hcurrent.produced
          outputs := hcurrent.outputs }
    · obtain ⟨n, hmarks⟩ := hw.digests pos hpos
      exact (comparable_position hmarks).symm

end load

/-! ## Steps -/

section

variable (hw : ReceiptsOk view b builder w)
include hw

lemma ReceiptsOk.watch {op : WatchOp S}
    (hnamed : op.Named view w.history) (hs : w.history.step op = some h) :
    ReceiptsOk view b builder { w with history := h } where
  named := hw.named.step hnamed hs
  digests pos hpos := by
    obtain ⟨n, hmarks⟩ := hw.digests pos hpos
    exact ⟨n, hmarks.step hs⟩
  receipts key r hr := by
    obtain ⟨hkey, hok⟩ := hw.receipts key r hr
    exact ⟨hkey, hok.step hs⟩
  comparable := hw.comparable
  entries := hw.entries
  session := hw.session

lemma ReceiptsOk.setReceipt (request : BuildRequest) (stored : Option (Receipt D Q G W F X I))
    (hstored : ∀ r, stored = some r → r.request = request ∧ ReceiptOk b builder w.history r ∧
      ∀ pos, w.digestPosition = some pos → Comparable r.position pos) :
    ReceiptsOk view b builder { w with receipts := w.setReceipt request stored } where
  named := hw.named
  digests := hw.digests
  receipts key r hr := by
    simp only [ReceiptWorld.setReceipt] at hr
    split at hr
    case isTrue hkey =>
      obtain ⟨hrequest, hok, -⟩ := hstored r hr
      exact ⟨by rw [hrequest, hkey], hok⟩
    case isFalse => exact hw.receipts key r hr
  comparable key r hr := by
    simp only [ReceiptWorld.setReceipt] at hr
    split at hr
    case isTrue => exact (hstored r hr).2.2
    case isFalse => exact hw.comparable key r hr
  entries := hw.entries
  session := hw.session

/-- The position of the recorded digests may be dropped, or be the one where the tracker stands. -/
lemma ReceiptsOk.setPosition (position : Option ChangePosition)
    (hposition : ∀ pos, position = some pos →
      w.digestPosition = some pos ∨ pos = w.history.tracker.position) :
    ReceiptsOk view b builder { w with digestPosition := position } where
  named := hw.named
  digests pos hpos := by
    rcases hposition pos hpos with hpos | rfl
    · exact hw.digests pos hpos
    · exact ⟨_, w.history.marks_position⟩
  receipts := hw.receipts
  comparable key r hr pos hpos := by
    rcases hposition pos hpos with hpos | rfl
    · exact hw.comparable key r hr pos hpos
    · exact comparable_position (hw.receipts key r hr).2.marks
  entries := hw.entries
  session := hw.session

lemma ReceiptsOk.dropPosition (dirty : Bool) : ReceiptsOk view b builder
      { w with digestPosition := if dirty then none else w.digestPosition } := by
  refine hw.setPosition _ fun pos hpos => ?_
  split at hpos
  case isTrue => cases hpos
  case isFalse => exact .inl hpos

lemma ReceiptsOk.setSession (session : Option (ReceiptSession D Q G W X I))
    (hsession : ∀ s, session = some s → ReceiptSessionOk builder s) :
    ReceiptsOk view b builder { w with session := session } :=
  { hw with session := hsession }

end

lemma recordOutputs_right (hlaws : b.Lawful view) {placed : List (Text × D)}
    (hplaced : ∀ output ∈ placed, b.outputDigest disk output.1 = some output.2)
    (hentries : ∀ path entry, entries path = some entry → ∀ disk,
      b.describeOutput disk path = some entry.fingerprint →
      b.outputDigest disk path = some entry.digest) (path : Text) (entry : OutputEntry D F)
    (h : recordOutputs b disk placed entries path = some entry) (disk' : S)
    (hdescribed : b.describeOutput disk' path = some entry.fingerprint) :
    b.outputDigest disk' path = some entry.digest := by
  unfold recordOutputs at h
  split at h
  case isTrue => cases h
  case isFalse =>
    split at h
    case h_1 digest hlookup =>
      obtain ⟨f, hf, rfl⟩ := map_eq_some_iff.mp h
      rw [hlaws.describe_sound disk' disk path f hdescribed hf]
      exact hplaced (path, digest) (mem_of_lookup hlookup)
    case h_2 =>
      split at h
      case isTrue => cases h
      case isFalse => exact hentries path entry h disk' hdescribed

variable {s : ReceiptSession D Q G W X I}

lemma ReceiptSessionOk.answered (hs : ReceiptSessionOk builder s) {question : BuildQuestion Q G}
    {next : BuildAnswer D W → Ask (BuildQuestion Q G) (BuildAnswer D W) (Option (BuildResult D I))}
    (hask : s.computation = .ask question next) (answer : BuildAnswer D W) :
    ReceiptSessionOk builder (s.answered question next answer) where
  explains given hgiven := by
    have hquestion : given question = answer := hgiven (question, answer) mem_cons_self
    have hrest := hs.explains given fun entry he => hgiven entry (mem_cons_of_mem _ he)
    rw [hask] at hrest
    simp only [Ask.run, hquestion] at hrest
    exact hrest
  published p hp := by
    have hdone := hs.published p hp
    rw [hask] at hdone
    cases hdone

lemma mem_observedDigests {ledger : List (BuildQuestion Q G × BuildAnswer D W)} {path : Text}
    {digest : D} (h : (path, digest) ∈ observedDigests ledger) :
    (.digest path, .digest (some digest)) ∈ ledger := by
  obtain ⟨entry, hentry, hmatch⟩ := mem_filterMap.mp h
  split at hmatch
  case h_1 =>
    cases hmatch
    exact hentry
  case h_2 => cases hmatch

variable {p : Published D I}

/-- The answers of an undisturbed build are those of every host with the captured fingerprints. -/
lemma Undisturbed.answers_of_fingerprints (hund : Undisturbed b w s p) {h : H}
    (hhost : ∀ path ∈ captureHostPaths b w.host s.ledger, b.fingerprint h path.1 = path.2)
    {entry : BuildQuestion Q G × BuildAnswer D W} (he : entry ∈ s.ledger) :
    b.answer w.history.disk h s.env entry.1 = entry.2 := by
  rw [← hund.answers entry he]
  cases hq : entry.1 with
  | digest path | source question => rfl
  | env name => rfl
  | host path question =>
    have hcaptured : (path, b.fingerprint w.host path) ∈ captureHostPaths b w.host s.ledger :=
      mem_filterMap.mpr ⟨entry, he, by rw [hq]⟩
    exact congrArg BuildAnswer.value
      (hund.described entry he path question hq h (hhost _ hcaptured))

lemma Undisturbed.receiptOk (hund : Undisturbed b w s p) (hs : ReceiptSessionOk builder s)
    (hp : s.published = some p) (since : Option ChangePosition) :
    ReceiptOk b builder w.history (w.receipt b s p (w.history.tracker.snapshotSince since)) where
  marks := w.history.marks_position
  markedAt_le := w.history.delivered_le
  takenAt_le := Nat.le_refl _
  target := rfl
  sandbox := rfl
  record := ⟨rfl, rfl⟩
  explains answer hanswer := by
    have hrun := hs.explains answer hanswer
    rw [hs.published p hp, hund.executable] at hrun
    exact hrun
  answers _ hhost _ he := hund.answers_of_fingerprints hhost he
  digests entry he := by
    have hobserved : entry ∈ observedDigests s.ledger := by
      simp only [ReceiptWorld.receipt] at he
      split at he
      case h_1 => cases he
      case h_2 => exact (mem_filter.mp he).1
    have hanswer := hund.answers _ (mem_observedDigests hobserved)
    exact BuildAnswer.digest.inj hanswer
  produced output houtput := by
    obtain ⟨produced, hproduced, hentry⟩ := mem_filterMap.mp houtput
    obtain ⟨entry, -, rfl⟩ := map_eq_some_iff.mp hentry
    exact ⟨hund.tracked produced hproduced, hund.produced _ houtput⟩
  outputs := hund.outputs
  tracked := hund.tracked

variable [DecidableEq D] [DecidableEq F] [DecidableEq X]

omit [DecidableEq F] [DecidableEq X] in
lemma ReceiptsOk.finish (hw : ReceiptsOk view b builder w) (hs : w.session = some s)
    (hp : s.published = some p) (uncachedWork answered dirty : Bool)
    (hund : ¬(p.cacheState = .bypass ∨ uncachedWork = true) → answered = true →
      w.maySave b s (w.history.tracker.snapshotSince s.initial) = true → Undisturbed b w s p) :
    ReceiptsOk view b builder (w.finish b s p uncachedWork answered dirty) := by
  have hdone : ∀ t : ReceiptSession D Q G W X I, none = some t → ReceiptSessionOk builder t :=
    fun t ht => (by cases ht)
  unfold ReceiptWorld.finish
  split
  case isTrue =>
    have hcleared := hw.setReceipt s.request none fun r hr => (by cases hr)
    exact (hcleared.dropPosition dirty).setSession none hdone
  case isFalse hcached =>
    split
    case isFalse => exact (hw.dropPosition dirty).setSession none hdone
    case isTrue hanswered =>
      have hmoved := hw.setPosition (some w.history.tracker.position)
        fun pos hpos => .inr (Option.some.inj hpos).symm
      dsimp only
      split
      case isFalse => exact hmoved.setSession none hdone
      case isTrue hsave =>
        have hok := (hund hcached hanswered hsave).receiptOk (hw.session s hs) hp s.initial
        refine (hmoved.setReceipt s.request (some _) fun r hr => ?_).setSession none hdone
        cases hr
        refine ⟨rfl, hok, fun pos hpos => ?_⟩
        cases hpos
        exact comparable_position hok.marks

lemma receiptsOk_step (hlaws : b.Lawful view) {w' : ReceiptWorld S D Q G W H F X I}
    {op : ReceiptOp S H X} (hw : ReceiptsOk view b builder w) (hcare : CarefulReceipt view b w op)
    (hstep : receiptStep b builder w op = some w') : ReceiptsOk view b builder w' := by
  cases op with
  | watch op =>
    simp only [receiptStep] at hstep
    split at hstep
    case h_2 => cases hstep
    case h_1 h hs =>
      cases hstep
      exact hw.watch hcare hs
  | host h | install executable =>
    cases hstep
    exact { hw with }
  | start request env tracked =>
    simp only [receiptStep] at hstep
    split at hstep
    case isFalse => cases hstep
    case isTrue hready =>
      split at hstep
      case h_1 record r hload =>
        cases hstep
        cases tracked with
        | false => cases hload
        | true =>
          obtain ⟨-, -, -, -, -, -, -, hrequest, hok, hcomparable⟩ :=
            hw.load hlaws (hready.2 rfl) hload
          refine hw.setReceipt request (some r) fun r' hr' => ?_
          cases hr'
          exact ⟨hrequest, hok, hcomparable⟩
      case h_2 =>
        cases hstep
        refine hw.setSession (some _) fun s hs => ?_
        cases hs
        exact ⟨fun _ _ => rfl, fun p hp => (by cases hp)⟩
  | ask =>
    simp only [receiptStep] at hstep
    split at hstep
    case h_1 => cases hstep
    case h_2 s hs =>
      split at hstep
      case h_1 => cases hstep
      case h_2 question next hask =>
        cases hstep
        refine hw.setSession (some _) fun s' hs' => ?_
        cases hs'
        exact (hw.session s hs).answered hask _
  | publish writes deferred cacheState =>
    simp only [receiptStep] at hstep
    split at hstep
    case h_1 => cases hstep
    case h_2 s hs =>
      split at hstep
      case h_2 => cases hstep
      case h_1 result hdone =>
        split at hstep
        case isFalse => cases hstep
        case isTrue hguard =>
          cases hstep
          have hnamed : WatchOp.Named view w.history (.edit writes) := hcare
          have hmoved := hw.watch hnamed rfl
          refine { hmoved with entries := ?_, session := fun s' hs' => ?_ }
          · exact recordOutputs_right hlaws hguard.2 hw.entries
          · cases hs'
            refine ⟨(hw.session s hs).explains, fun p hp => ?_⟩
            cases hp
            exact hdone
  | finish uncachedWork answered dirty =>
    simp only [receiptStep] at hstep
    split at hstep
    case h_1 => cases hstep
    case h_2 s hs =>
      split at hstep
      case h_1 => cases hstep
      case h_2 p hp =>
        cases hstep
        exact hw.finish hs hp uncachedWork answered dirty (hcare s hs p hp)
  | close dirty =>
    cases hstep
    exact (hw.dropPosition dirty).setSession none fun s hs => (by cases hs)

omit [DecidableEq D] [DecidableEq F] [DecidableEq X] in
lemma receiptsOk_initial (base : S) (h : H) (executable : X) (instanceId : Nat) :
    ReceiptsOk view b builder (.initial base h executable instanceId) where
  named := fun n e he => (by cases he)
  digests := fun pos hpos => (by cases hpos)
  receipts := fun key r hr => (by cases hr)
  comparable := fun key r hr => (by cases hr)
  entries := fun path entry hentry => (by cases hentry)
  session := fun s hs => (by cases hs)

/-- In a run in which no build is disturbed, a record that is returned after a barrier is that of a
full build: such a build succeeds, and the outputs that the record did not defer are on disk as it
would leave them. -/
theorem receipt_right (hlaws : b.Lawful view) (base : S) (h : H) (executable : X)
    (instanceId : Nat) {w : ReceiptWorld S D Q G W H F X I}
    (hrun : Reachable (receiptStep b builder) (CarefulReceipt view b)
      (.initial base h executable instanceId) w)
    (hsettled : w.history.Settled) {request : BuildRequest} {env : Environment}
    {record : RunRecord I} {r : Receipt D Q G W F X I}
    (hload : w.load b request env = some (record, r)) :
    ∃ result, ((builder w.executable request).run (b.answer w.history.disk w.host env)).1 =
        some result ∧
      record.outputs = result.outputs.map Prod.fst ∧ record.info = result.info ∧
      ∀ output ∈ result.placed r.deferred,
        b.outputDigest w.history.disk output.1 = some output.2 := by
  have hw : ReceiptsOk view b builder w :=
    hrun.invariant (receiptsOk_initial base h executable instanceId)
      fun _ _ _ => receiptsOk_step hlaws
  obtain ⟨found, husable, rfl, hok, hcurrent, rfl, hdeferred, -⟩ := hw.load hlaws hsettled hload
  have hanswers := hcurrent.answers w.host husable.hostPaths
  rw [husable.environment] at hanswers
  have hbuild := hok.explains _ hanswers
  rw [husable.executable] at hbuild
  rw [hdeferred]
  exact ⟨found.result, hbuild, hok.record.1, hok.record.2, hcurrent.outputs⟩

/-! ### A directory and one output -/

def sourceDir : RelPath := ⟨[['s']], by decide⟩

def sourceFile : RelPath := ⟨[['s'], ['x']], by decide⟩

def outputFile : RelPath := ⟨[onceDir, outDir, ['o']], by decide⟩

/-- The contents of the file `s/x` and of the output; zero when it does not exist. -/
structure SmallDisk where
  source : Nat
  output : Nat

def SmallDisk.contentAt (disk : SmallDisk) (p : RelPath) : Nat :=
  if p = sourceFile then disk.source else if p = outputFile then disk.output else 0

def smallHost : BuildHost SmallDisk Nat Empty Empty Unit Unit Nat where
  digestSourcePath disk path :=
    if path = render sourceDir.1 ∨ path = render sourceFile.1 then some disk.source else none
  source := fun _ q => nomatch q
  pathExists disk path :=
    path == render sourceDir.1 || path == render sourceFile.1 && disk.source != 0 ||
      path == render outputFile.1 && disk.output != 0
  outputDigest disk path := if path = render outputFile.1 then some disk.output else none
  describeOutput disk path := if path = render outputFile.1 then some disk.output else none
  host := fun _ _ q => nomatch q
  fingerprint := fun _ _ => none

/-- The output is a copy of the directory `s`. -/
def copyDir : Builder Unit Empty Empty Nat Unit Unit := fun _ _ =>
  .ask (.digest (render sourceDir.1)) fun answer => .done
    (match answer with
      | .digest (some digest) => some ⟨[(render outputFile.1, digest)], ()⟩
      | _ => none)

lemma smallHost_lawful : smallHost.Lawful SmallDisk.contentAt := by
  have hfile : ∀ disk : SmallDisk, disk.contentAt sourceFile = disk.source := fun _ => if_pos rfl
  have houtput : ∀ disk : SmallDisk, disk.contentAt outputFile = disk.output := fun _ => rfl
  -- nothing but the output itself is stored at or below it
  have hbelow : ∀ (disk : SmallDisk) q, Below outputFile q →
      disk.contentAt q = if q = outputFile then disk.output else 0 := by
    intro disk q hq
    have hne : q ≠ sourceFile := by
      rintro rfl
      exact absurd hq (by decide)
    exact if_neg hne
  refine ⟨fun disk disk' path hview => ?_, fun _ _ q => (nomatch q), fun disk disk' p d h h' => ?_,
    fun disk disk' p hview => ?_, fun disk disk' p d h h' q hq => ?_,
    fun disk disk' path f h h' => ?_⟩
  · have hsource := hview sourceFile (by decide)
    rw [hfile, hfile] at hsource
    simp only [smallHost, hsource]
  · simp only [smallHost, ite_none_right_eq_some, some.injEq] at h h'
    obtain ⟨hp, hd⟩ := h
    have hne : p ≠ outputFile := by
      rintro rfl
      exact absurd hp (by decide)
    unfold SmallDisk.contentAt
    rw [hd, h'.2, if_neg hne, if_neg hne]
  · by_cases hp : render p.1 = render outputFile.1
    · obtain rfl : p = outputFile := Subtype.ext (render_injective p.2 outputFile.2 hp)
      have hout := hview outputFile (prefix_refl _)
      rw [houtput, houtput] at hout
      simp only [smallHost, hout]
    · simp only [smallHost, if_neg hp]
  · simp only [smallHost, ite_none_right_eq_some, some.injEq] at h h'
    obtain ⟨hp, hd⟩ := h
    obtain rfl : p = outputFile := Subtype.ext (render_injective p.2 outputFile.2 hp)
    rw [hbelow disk q hq, hbelow disk' q hq, hd, h'.2]
  · exact h.trans h'.symm

abbrev SmallWorld := ReceiptWorld SmallDisk Nat Empty Empty Unit Unit Nat Unit Unit

def smallWorld : SmallWorld := .initial ⟨1, 0⟩ () () 0

def copyRequest : BuildRequest := ⟨['t'], [], .off⟩

def deletedFileRun : List (ReceiptOp SmallDisk Unit Unit) :=
  [.start copyRequest [] true, .ask, .watch (.edit ⟨[sourceFile], ⟨0, 0⟩⟩), .watch .deliver,
    .publish ⟨[outputFile], ⟨0, 1⟩⟩ [] .miss, .watch .deliver, .finish false true true]

/-- The build keeps its receipt, and the next build returns the copy of a file that is gone. -/
theorem deletedFileRun_returns_old_output :
    ∃ (w : SmallWorld) (record : RunRecord Unit) (r : Receipt Nat Empty Empty Unit Nat Unit Unit),
      runSteps (receiptStep smallHost copyDir) smallWorld deletedFileRun = some w ∧
      w.history.Settled ∧ w.load smallHost copyRequest [] = some (record, r) ∧
      ((copyDir w.executable copyRequest).run (smallHost.answer w.history.disk w.host [])).1 =
        some ⟨[(render outputFile.1, 0)], ()⟩ ∧
      r.deferred = [] ∧
      smallHost.outputDigest w.history.disk (render outputFile.1) = some 1 := by
  refine ⟨_, _, _, rfl, by decide, rfl, rfl, rfl, rfl⟩

lemma smallDisk_names_output (source output : Nat) :
    (⟨[outputFile], ⟨source, output⟩⟩ : Edit RelPath SmallDisk).Names SmallDisk.contentAt
      ⟨source, 0⟩ := by
  intro p hp
  have hne : p ≠ outputFile := fun h => hp (mem_singleton.mpr h)
  simp only [SmallDisk.contentAt, if_neg hne]

/-- The build that read the directory and put its copy in place. -/
def copiedSession : ReceiptSession Nat Empty Empty Unit Unit Unit where
  request := copyRequest
  env := []
  executable := ()
  initial := some ⟨0, 0, 0⟩
  computation := .done (some ⟨[(render outputFile.1, 1)], ()⟩)
  ledger := [(.digest (render sourceDir.1), .digest (some 1))]
  published := some ⟨⟨[(render outputFile.1, 1)], ()⟩, [], .miss⟩

lemma copiedSession_undisturbed {w : SmallWorld} (hdisk : w.history.disk = ⟨1, 1⟩)
    (hentry : w.outputEntries (render outputFile.1) = some ⟨1, 1⟩) :
    Undisturbed smallHost w copiedSession ⟨⟨[(render outputFile.1, 1)], ()⟩, [], .miss⟩ where
  answers entry he := by
    obtain rfl := mem_singleton.mp he
    rw [hdisk]
    rfl
  described _ _ _ question := nomatch question
  executable := rfl
  outputs output houtput := by
    obtain rfl := mem_singleton.mp houtput
    rw [hdisk]
    rfl
  produced output houtput := by
    simp only [recordedOutputDigests, filterMap_cons, hentry, map_some] at houtput
    obtain rfl := mem_singleton.mp houtput
    rw [hdisk]
    rfl
  tracked output houtput := by
    obtain rfl := mem_singleton.mp houtput
    exact ⟨outputFile, rfl, by decide, by decide⟩

/-- Without the deletion the next build returns the copy that a full build would make. -/
theorem receipt_right_copyDir :
    ∃ (w : SmallWorld) (record : RunRecord Unit) (r : Receipt Nat Empty Empty Unit Nat Unit Unit),
      w.load smallHost copyRequest [] = some (record, r) ∧
      ∃ result, ((copyDir w.executable copyRequest).run
          (smallHost.answer w.history.disk w.host [])).1 = some result ∧
        record.outputs = result.outputs.map Prod.fst ∧ record.info = result.info ∧
        ∀ output ∈ result.placed r.deferred,
          smallHost.outputDigest w.history.disk output.1 = some output.2 := by
  have hstart : ∀ w : SmallWorld,
      CarefulReceipt SmallDisk.contentAt smallHost w (.start copyRequest [] true) := fun _ =>
        trivial
  have hask : ∀ w : SmallWorld, CarefulReceipt SmallDisk.contentAt smallHost w .ask :=
    fun _ => trivial
  have hdeliver : ∀ w : SmallWorld,
      CarefulReceipt SmallDisk.contentAt smallHost w (.watch .deliver) := fun _ => trivial
  have hpublish : ∀ w : SmallWorld, w.history.disk = ⟨1, 0⟩ →
      CarefulReceipt SmallDisk.contentAt smallHost w
        (.publish ⟨[outputFile], ⟨1, 1⟩⟩ [] .miss) := by
    intro w hdisk
    simp only [CarefulReceipt, hdisk]
    exact smallDisk_names_output 1 1
  have hfinish : ∀ w : SmallWorld, w.history.disk = ⟨1, 1⟩ →
      w.outputEntries (render outputFile.1) = some ⟨1, 1⟩ → w.session = some copiedSession →
      CarefulReceipt SmallDisk.contentAt smallHost w (.finish false true true) := by
    intro w hdisk hentry hsession s hs p hp
    rw [hsession] at hs
    cases hs
    cases hp
    exact fun _ _ _ => copiedSession_undisturbed hdisk hentry
  have hinit : Reachable (receiptStep smallHost copyDir)
      (CarefulReceipt SmallDisk.contentAt smallHost) smallWorld smallWorld := .start
  have hasked := hinit.step (hstart _) rfl |>.step (hask _) rfl
  have hplaced := hasked.step (hpublish _ rfl) rfl |>.step (hdeliver _) rfl
  have hrun := hplaced.step (hfinish _ rfl rfl rfl) rfl
  exact ⟨_, _, _, rfl, receipt_right smallHost_lawful ⟨1, 0⟩ () () 0 hrun (by decide) rfl⟩

end OnceBuild.Graph
