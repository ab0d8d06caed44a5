import OnceBuild.Graph.SourceDigestCache

/-!
# Answers given without looking at the disk

A stored digest describes its path at the time it was last read.  It is right to answer from it as
long as every edit since then is in the window of changes that the build was given.
-/

namespace OnceBuild.Graph

open Lib
open ChangeTracker

variable {V D F : Type} {host : SourceHost V D F}

/-- The path is read where it stands: no symbolic link leads out of it, so its digest depends only
on what is stored at and below it. -/
def Direct (host : SourceHost V D F) (disk : RelPath → V) (p : RelPath) : Prop :=
  ∀ disk' : RelPath → V, (∀ q, Below p q → disk' q = disk q) →
    host.digestSourcePath disk' (render p.1) = host.digestSourcePath disk (render p.1)

/-- Steps after which no stored digest can be taken for newer than it is.  Edits name every path
they change. -/
def CarefulDigest (host : SourceHost V D F) (w : DigestWorld V D F) : DigestOp V → Prop
  | .watch op => op.Named id w.history
  | .start receipt _ => WindowCovers receipt w.file.position
  | .digest relative => ∃ p : RelPath, relative = render p.1 ∧ p.1 ≠ [] ∧
      trackedArea p.1 = some .source ∧ Direct host w.history.disk p
  | .stamp => ∀ s, w.session = some s → ∀ (p : RelPath) e, s.entries (render p.1) = some e →
      Untouched w.history.log (Below p) e.readAt w.history.delivered
  | .close => True
  | .kill => True

/-! ## The invariant -/

/-- What an entry says of its path at the time it was read. -/
structure EntryOk (host : SourceHost V D F) (h : History (RelPath → V)) (p : RelPath)
    (e : Entry D F) :
    Prop where
  readAt_le : e.readAt ≤ h.now
  described : ∃ disk : RelPath → V, host.describe disk (render p.1) = some e.fingerprint ∧
    host.digestSourcePath disk (render p.1) = some e.digest
  right : ∀ disk' : RelPath → V, (∀ q, Below p q → disk' q = h.diskAt e.readAt q) →
    host.digestSourcePath disk' (render p.1) = some e.digest

def EntriesOk (host : SourceHost V D F) (h : History (RelPath → V))
    (entries : Text → Option (Entry D F)) :
    Prop :=
  ∀ (p : RelPath) e, entries (render p.1) = some e → EntryOk host h p e

/-- No edit of an entry's path falls between the reading and time `n`. -/
def ReadBefore (h : History (RelPath → V)) (entries : Text → Option (Entry D F)) (n : Nat) : Prop :=
  ∀ (p : RelPath) e, entries (render p.1) = some e → Untouched h.log (Below p) e.readAt n

structure FileOk (host : SourceHost V D F) (h : History (RelPath → V)) (file : CacheFile D F) :
    Prop where
  entries : EntriesOk host h file.entries
  stamped : ∀ pos, file.position = some pos → ∃ n, h.Marks pos n ∧ ReadBefore h file.entries n

structure SessionOk (host : SourceHost V D F) (h : History (RelPath → V)) (s : SourceDigests D F) :
    Prop where
  entries : EntriesOk host h s.entries
  openedAt_le : s.openedAt ≤ h.now
  unstamped : s.position = none
  trusted : ∀ (p : RelPath) e, p.1 ≠ [] → trackedArea p.1 = some .source →
    s.knownChanges.sourceIsUntouched (render p.1) = true → s.entries (render p.1) = some e →
    Untouched h.log (Below p) e.readAt s.openedAt

structure DigestsOk (host : SourceHost V D F) (w : DigestWorld V D F) : Prop where
  named : w.history.Faithful id
  file : FileOk host w.history w.file
  session : ∀ s, w.session = some s → SessionOk host w.history s

/-! ## Steps -/

variable {h h' : History (RelPath → V)} {op : WatchOp (RelPath → V)}

lemma EntriesOk.step (hs : h.step op = some h') {entries : Text → Option (Entry D F)}
    (he : EntriesOk host h entries) : EntriesOk host h' entries := by
  intro p e hpe
  have hok := he p e hpe
  refine ⟨Nat.le_trans hok.readAt_le (History.now_le_of_step hs), hok.described, ?_⟩
  rw [History.diskAt_step hs hok.readAt_le]
  exact hok.right

variable {file : CacheFile D F}

lemma FileOk.step (hs : h.step op = some h') (hf : FileOk host h file) : FileOk host h' file := by
  refine ⟨hf.entries.step hs, ?_⟩
  intro pos hpos
  obtain ⟨n, hm, hread⟩ := hf.stamped pos hpos
  exact ⟨n, hm.step hs, fun p e hpe => History.untouched_step hs (hread p e hpe) hm.time_le⟩

variable {s : SourceDigests D F}

lemma SessionOk.step (hs : h.step op = some h') (hok : SessionOk host h s) :
    SessionOk host h' s where
  entries := hok.entries.step hs
  openedAt_le := Nat.le_trans hok.openedAt_le (History.now_le_of_step hs)
  unstamped := hok.unstamped
  trusted := fun p e hne harea hset hpe =>
    History.untouched_step hs (hok.trusted p e hne harea hset hpe) hok.openedAt_le

/-- Opening the cache: a settled path was not edited since the stamped position, nor between its
reading and that position. -/
lemma sessionOk_open (hf : FileOk host h file) {receipt : Option ChangePosition} {tracked : Bool}
    (hsettled : tracked = true → h.Settled) (hcovers : WindowCovers receipt file.position) :
    SessionOk host h (.openCache file (initialChanges h receipt file.position tracked) h.now) := by
  refine ⟨hf.entries, Nat.le_refl _, rfl, ?_⟩
  intro p e hne harea hset hpe
  cases hknown : initialChanges h receipt file.position tracked with
  | unknown =>
    rw [hknown] at hset
    cases hset
  | since sources outputs =>
    rw [hknown] at hset
    obtain ⟨htracked, pos, hpos, hchanges⟩ := initialChanges_eq_since hknown
    rw [hpos] at hcovers
    obtain ⟨n, hm, hread⟩ := hf.stamped pos hpos
    have hwindow : Untouched h.log (Below p) n h.now :=
      (reports_of_known hm (hsettled htracked) hcovers hchanges).untouched hne harea hset
    -- the edits before the mark, then those of the window
    by_cases hn : n ≤ e.readAt
    · exact hwindow.mono hn (Nat.le_refl _)
    · exact (hread p e hpe).trans hwindow (by omega)

variable {p : RelPath}

lemma entryOk_now {e : Entry D F} (hnow : e.readAt = h.now) (hdirect : Direct host h.disk p)
    (hdesc : host.describe h.disk (render p.1) = some e.fingerprint)
    (hd : host.digestSourcePath h.disk (render p.1) = some e.digest) : EntryOk host h p e := by
  refine ⟨Nat.le_of_eq hnow, ⟨h.disk, hdesc, hd⟩, ?_⟩
  rw [hnow]
  exact fun disk' hdisk => (hdirect disk' hdisk).trans hd

lemma SessionOk.setEntry {s' : SourceDigests D F} (hok : SessionOk host h s) {e : Entry D F}
    (he : EntryOk host h p e) (hnow : e.readAt = h.now)
    (hentries : s'.entries = s.setEntry (render p.1) e)
    (hchanges : s'.knownChanges = s.knownChanges) (hopened : s'.openedAt = s.openedAt)
    (hposition : s'.position = s.position) : SessionOk host h s' := by
  refine ⟨?_, hopened ▸ hok.openedAt_le, hposition.trans hok.unstamped, ?_⟩
  · intro q e' hqe
    rw [hentries] at hqe
    unfold SourceDigests.setEntry at hqe
    split at hqe
    case isTrue heq =>
      cases hqe
      rw [Subtype.ext (render_injective q.2 p.2 heq)]
      exact he
    case isFalse => exact hok.entries q e' hqe
  · intro q e' hne harea hset hqe
    rw [hentries] at hqe
    rw [hchanges] at hset
    rw [hopened]
    unfold SourceDigests.setEntry at hqe
    split at hqe
    case isTrue =>
      -- read after the snapshot
      cases hqe
      intro m _ hm hlt
      have := hok.openedAt_le
      omega
    case isFalse => exact hok.trusted q e' hne harea hset hqe

variable [DecidableEq F]

lemma SessionOk.digest (hok : SessionOk host h s) (hdirect : Direct host h.disk p) :
    SessionOk host h (s.digest host h.disk h.now (render p.1)).2 := by
  unfold SourceDigests.digest
  cases s.trusted (render p.1) with
  | some d => exact hok
  | none =>
    cases hdesc : host.describe h.disk (render p.1) with
    | none => exact hok
    | some f =>
      dsimp only
      cases hentry : (s.entries (render p.1)).filter
          (fun e => host.canReuse && e.fingerprint == f) with
      | some e =>
        -- an equal description stands for equal content
        obtain ⟨hsome, hsame⟩ := Option.filter_eq_some_iff.mp hentry
        obtain ⟨hreuse, hf⟩ := Bool.and_eq_true_iff.mp hsame
        obtain rfl : e.fingerprint = f := eq_of_beq hf
        obtain ⟨disk, hdesc', hd'⟩ := (hok.entries p e hsome).described
        have hd : host.digestSourcePath h.disk (render p.1) = some e.digest :=
          (host.describe_sound hreuse _ _ _ _ hdesc hdesc').trans hd'
        have hentry' : EntryOk host h p { e with readAt := h.now } :=
          entryOk_now rfl hdirect hdesc hd
        exact hok.setEntry hentry' rfl rfl rfl rfl rfl
      | none =>
        cases hd : host.digestSourcePath h.disk (render p.1) with
        | none => exact hok
        | some d => exact hok.setEntry (entryOk_now rfl hdirect hdesc hd) rfl rfl rfl rfl rfl

omit [DecidableEq F] in
lemma fileOk_stamp (hok : SessionOk host h s) (file : CacheFile D F)
    (hread : ReadBefore h s.entries h.delivered) :
    FileOk host h ((s.setPosition (some h.tracker.position)).drop file) := by
  have hfile : (s.setPosition (some h.tracker.position)).drop file =
      ⟨s.entries, some h.tracker.position⟩ := by
    simp [SourceDigests.setPosition, SourceDigests.drop, hok.unstamped]
  rw [hfile]
  refine ⟨hok.entries, ?_⟩
  intro pos hpos
  cases hpos
  exact ⟨h.delivered, h.marks_position, hread⟩

omit [DecidableEq F] in
lemma fileOk_close (hok : SessionOk host h s) (hf : FileOk host h file) :
    FileOk host h (s.drop file) := by
  unfold SourceDigests.drop
  split
  case isTrue =>
    refine ⟨hok.entries, ?_⟩
    intro pos hpos
    rw [hok.unstamped] at hpos
    cases hpos
  case isFalse => exact hf

lemma digestsOk_step {w w' : DigestWorld V D F} {op : DigestOp V} (hok : DigestsOk host w)
    (hcare : CarefulDigest host w op) (hs : digestStep host w op = some w') :
    DigestsOk host w' := by
  cases op with
  | watch op =>
    simp only [digestStep] at hs
    split at hs
    case h_2 => cases hs
    case h_1 h' hstep =>
      cases hs
      exact ⟨hok.named.step hcare hstep, hok.file.step hstep, fun s hw =>
        (hok.session s hw).step hstep⟩
  | start receipt tracked =>
    simp only [digestStep] at hs
    split at hs
    case isFalse => cases hs
    case isTrue hguard =>
      cases hs
      refine ⟨hok.named, hok.file, fun s hw => ?_⟩
      cases hw
      exact sessionOk_open hok.file hguard.2 hcare
  | digest relative =>
    simp only [digestStep] at hs
    split at hs
    case h_2 => cases hs
    case h_1 s hw =>
      cases hs
      obtain ⟨p, rfl, -, -, hdirect⟩ := hcare
      refine ⟨hok.named, hok.file, fun s' hs' => ?_⟩
      cases hs'
      exact (hok.session s hw).digest hdirect
  | stamp =>
    simp only [digestStep] at hs
    split at hs
    case h_2 => cases hs
    case h_1 s hw =>
      cases hs
      refine ⟨hok.named, fileOk_stamp (hok.session s hw) w.file (hcare s hw), fun s' hs' => ?_⟩
      cases hs'
  | close =>
    simp only [digestStep] at hs
    split at hs
    case h_2 => cases hs
    case h_1 s hw =>
      cases hs
      refine ⟨hok.named, fileOk_close (hok.session s hw) hok.file, fun s' hs' => ?_⟩
      cases hs'
  | kill =>
    cases hs
    exact ⟨hok.named, hok.file, fun s hw => by cases hw⟩

omit [DecidableEq F] in
lemma digestsOk_initial (base : RelPath → V) (instanceId : Nat) :
    DigestsOk host (DigestWorld.initial base instanceId) where
  named := fun n e he => (by cases he)
  file := ⟨fun _ _ h => (by cases h), fun _ h => (by cases h)⟩
  session := fun _ h => (by cases h)

/-! ## Trusted answers -/

omit [DecidableEq F] in
lemma SessionOk.trusted_right (hok : SessionOk host h s) (hnamed : h.Faithful id) (hne : p.1 ≠ [])
    (harea : trackedArea p.1 = some .source) {d : D} (ht : s.trusted (render p.1) = some d)
    (hafter : Untouched h.log (Below p) s.openedAt h.now) :
    host.digestSourcePath h.disk (render p.1) = some d := by
  unfold SourceDigests.trusted at ht
  split at ht
  case isFalse => cases ht
  case isTrue hset =>
    obtain ⟨e, he, rfl⟩ := Option.map_eq_some_iff.mp ht
    have hentry := hok.entries p e he
    have hbefore := hok.trusted p e hne harea hset he
    -- from the reading to the snapshot, and from the snapshot to now
    have hall : Untouched h.log (Below p) e.readAt h.now := by
      by_cases hread : s.openedAt ≤ e.readAt
      · exact hafter.mono hread (Nat.le_refl _)
      · exact hbefore.trans hafter (by omega)
    exact hentry.right h.disk fun q hq =>
      hnamed.view_eq hentry.readAt_le hall hq

/-- In a run of careful steps, a digest answered from a stored entry without looking at the disk is
that of the content on disk, unless the path was edited since the build took its snapshot. -/
theorem trusted_digest_current (host : SourceHost V D F) (base : RelPath → V) (instanceId : Nat)
    {w : DigestWorld V D F}
    (hrun : Reachable (digestStep host) (CarefulDigest host) (.initial base instanceId) w)
    {s : SourceDigests D F} (hw : w.session = some s) {p : RelPath}
    (hcare : CarefulDigest host w (.digest (render p.1))) {d : D}
    (htrusted : s.trusted (render p.1) = some d)
    (hafter : Untouched w.history.log (Below p) s.openedAt w.history.now) :
    host.digestSourcePath w.history.disk (render p.1) = some d := by
  have hok : DigestsOk host w :=
    hrun.invariant (digestsOk_initial base instanceId) fun _ _ _ => digestsOk_step
  obtain ⟨q, hq, hne, harea, -⟩ := hcare
  obtain rfl : p = q := Subtype.ext (render_injective p.2 q.2 hq)
  exact (hok.session s hw).trusted_right hok.named hne harea htrusted hafter

/-! ### A workspace of two files -/

lemma plain_a : ∀ c ∈ [['a']], Plain c := by decide

def fileA : RelPath := ⟨[['a']], plain_a⟩

def fileB : RelPath := ⟨[['b']], by decide⟩

def twoFiles : SourceHost Nat Nat Nat where
  digestSourcePath disk relative := ([fileA, fileB].find? fun p => render p.1 == relative).map disk
  describe disk relative := ([fileA, fileB].find? fun p => render p.1 == relative).map disk
  canReuse := true
  describe_sound := fun _ _ _ _ _ h h' => h.trans h'.symm

lemma direct_twoFiles (disk : RelPath → Nat) (p : RelPath) : Direct twoFiles disk p := by
  intro disk' hdisk
  unfold twoFiles
  dsimp only
  cases hfind : [fileA, fileB].find? (fun q => render q.1 == render p.1) with
  | none => rfl
  | some q =>
    have hsame : (render q.1 == render p.1) = true :=
      List.find?_some (p := fun q : RelPath => render q.1 == render p.1) hfind
    have heq : render q.1 = render p.1 := eq_of_beq hsame
    have hbelow : Below p q := by
      unfold Below
      rw [render_injective q.2 p.2 heq]
    exact congrArg some (hdisk q hbelow)

/-- Write `content` to `p` and nothing to the other files. -/
def write (p : RelPath) (content : Nat) : WatchOp (RelPath → Nat) :=
  .edit ⟨[p], fun q => if q = p then content else 0⟩

lemma write_named {h : History (RelPath → Nat)} (hempty : h.disk = fun _ => 0) (p : RelPath)
    (content : Nat) : (write p content).Named id h := by
  intro q hq
  have hne : q ≠ p := fun heq => hq (List.mem_singleton.mpr heq)
  rw [hempty]
  exact if_neg hne

/-- One build reads `a`.  Then `a` is written, and a build that needs only `b` stamps its
position.  The next build begins. -/
def staleRun : List (DigestOp Nat) :=
  [.start none true, .digest (render fileA.1), .stamp, .watch (write fileA 1), .watch .deliver,
    .start none true, .digest (render fileB.1), .stamp, .start none true]

/-- The third build answers with the digest that `a` had before it was written. -/
theorem staleRun_trusts_old_digest :
    ∃ w s, runSteps (digestStep twoFiles) (.initial (fun _ => 0) 0) staleRun = some w ∧
      w.session = some s ∧ s.trusted (render fileA.1) = some 0 ∧
      twoFiles.digestSourcePath w.history.disk (render fileA.1) = some 1 ∧
      w.history.Faithful id ∧ Untouched w.history.log (Below fileA) s.openedAt w.history.now := by
  refine ⟨_, _, rfl, rfl, by decide, by decide, ?_, ?_⟩
  · exact Faithful.append (fun n e he => (by cases he))
      (write_named (h := .start (fun _ => 0) 0) rfl fileA 1)
  · intro m e hm hlt
    exact absurd hlt (Nat.not_lt.mpr hm)

/-- One build reads `a` and stamps; then `b` is written, and the next build answers for `a` from
the stored entry. -/
theorem trusted_digest_twoFiles :
    ∃ w s, Reachable (digestStep twoFiles) (CarefulDigest twoFiles) (.initial (fun _ => 0) 0) w ∧
      w.session = some s ∧ s.trusted (render fileA.1) = some 0 ∧
      twoFiles.digestSourcePath w.history.disk (render fileA.1) = some 0 := by
  have hread : ∀ w, CarefulDigest twoFiles w (.digest (render fileA.1)) := fun w =>
    ⟨fileA, rfl, by decide, by decide, direct_twoFiles _ _⟩
  have hstamp : ∀ w, w.history.delivered = 0 → CarefulDigest twoFiles w .stamp := by
    intro w hw s _ p e _ m _ _ hlt
    rw [hw] at hlt
    exact absurd hlt (Nat.not_lt_zero m)
  have hwrite : ∀ w, w.history.disk = (fun _ => 0) →
      CarefulDigest twoFiles w (.watch (write fileB 1)) := fun w hw => write_named hw fileB 1
  have hdeliver : ∀ w, CarefulDigest twoFiles w (.watch .deliver) := fun _ => trivial
  have hwindow : ∀ w, CarefulDigest twoFiles w (.start none true) := fun _ r hr => by cases hr
  have hinit : Reachable (digestStep twoFiles) (CarefulDigest twoFiles) (.initial (fun _ => 0) 0)
      (.initial (fun _ => 0) 0) := .start
  have hfirst := hinit.step (hwindow _) rfl |>.step (hread _) rfl
  have hstamped := hfirst.step (hstamp _ rfl) rfl
  have hwritten := hstamped.step (hwrite _ rfl) rfl |>.step (hdeliver _) rfl
  have hrun := hwritten.step (hwindow _) rfl
  refine ⟨_, _, hrun, rfl, by decide, ?_⟩
  refine trusted_digest_current twoFiles _ _ hrun rfl (hread _) (by decide) ?_
  intro m e hm hlt
  exact absurd hlt (Nat.not_lt.mpr hm)

end OnceBuild.Graph
