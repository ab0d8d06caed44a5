import OnceBuild.ChangeTracker.HandleEvent

/-!
# The journal is exact

A snapshot since an earlier one names exactly what the events in between changed, or says that it
does not know; and it does not know only if track was lost or the journal is too short.
-/

namespace OnceBuild.ChangeTracker

open Lib List

variable (workspace : List OsPath) (area : Area)

/-- What a sequence of operations records for an area. -/
def recordedBy (ops : List TrackerOp) : List (Option (Finset Text)) :=
  recordsIn area (ops.flatMap (TrackerOp.steps workspace))

lemma recordedBy_cons (op : TrackerOp) (ops : List TrackerOp) :
    recordedBy workspace area (op :: ops) =
      recordsIn area (op.steps workspace) ++ recordedBy workspace area ops := by
  unfold recordedBy
  rw [flatMap_cons, recordsIn_append]

lemma recordedBy_append (ops ops' : List TrackerOp) : recordedBy workspace area (ops ++ ops') =
      recordedBy workspace area ops ++ recordedBy workspace area ops' := by
  unfold recordedBy
  rw [flatMap_append, recordsIn_append]

lemma none_mem_recordedBy (ops : List TrackerOp) :
    none ∈ recordedBy workspace area ops ↔ ∃ op ∈ ops, op.loses area = true := by
  induction ops with
  | nil => simp [recordedBy, recordsIn]
  | cons op ops ih =>
    rw [recordedBy_cons, mem_append, ih, op.recordsIn_steps]
    have hop : none ∈ (if op.loses area then [none]
        else if op.changed workspace area = ∅ then []
        else [some (op.changed workspace area)]) ↔ op.loses area = true := by
      by_cases hloses : op.loses area = true
      · simp [hloses]
      · by_cases hempty : op.changed workspace area = ∅ <;> simp [hloses, hempty]
    rw [hop]
    simp

variable {ops : List TrackerOp}

lemma namedIn_recordedBy (hkept : ∀ op ∈ ops, op.loses area = false) :
    namedIn (recordedBy workspace area ops) = some (changedBy workspace area ops) := by
  induction ops with
  | nil => rfl
  | cons op ops ih =>
    have hop : namedIn (recordsIn area (op.steps workspace)) =
        some (op.changed workspace area) := by
      rw [op.recordsIn_steps, hkept op mem_cons_self]
      by_cases hempty : op.changed workspace area = ∅ <;> simp [hempty, namedIn]
    rw [recordedBy_cons, namedIn_append, hop, ih fun o ho => hkept o (mem_cons_of_mem _ ho)]
    rfl

lemma TrackerState.snapshotSince_same {s : TrackerState} {p : ChangePosition}
    (h : p.instanceId = s.instanceId) (area : Area) :
    (s.snapshotSince (some p)).changes area = (s.journal area).since (p.generation area) := by
  unfold snapshotSince
  rw [Option.filter_some_pos (by simp [h])]
  cases area <;> rfl

namespace Tracker

/-- The journals of a tracker that runs keep as many records as they can. -/
def Holds (t : Tracker) : Prop := ∀ area, (t.state.journal area).Holds maxJournalRecords

lemma holds_start (instanceId : Nat) : (start instanceId).Holds := by
  intro area
  cases area <;> exact Journal.holds_empty _

variable {t : Tracker}

lemma Holds.applyAll (h : t.Holds) (steps : List TrackerStep) : (t.applyAll steps).Holds := by
  intro area
  rw [journal_applyAll]
  exact (h area).foldl_record _

variable (workspace : List OsPath)

lemma history_run (t : Tracker) (ops : List TrackerOp) (area : Area) :
    ((t.run workspace ops).state.journal area).history =
      (t.state.journal area).history ++ recordedBy workspace area ops := by
  unfold run
  rw [journal_applyAll, Journal.foldl_record_history]
  rfl

lemma generation_run (t : Tracker) (ops : List TrackerOp) (area : Area) :
    ((t.run workspace ops).state.journal area).generation =
      (t.state.journal area).generation + (recordedBy workspace area ops).length := by
  rw [Journal.generation_eq, Journal.generation_eq, history_run, length_append]

/-- The answer to a question about an earlier time of the same tracker. -/
def changesBetween (t : Tracker) (between : List TrackerOp) (area : Area) : Option (Finset Text) :=
  ((t.run workspace between).state.snapshotSince (some t.state.position)).changes area

lemma changesBetween_eq (h : t.Holds) (between : List TrackerOp) (area : Area) :
    t.changesBetween workspace between area =
      if (recordedBy workspace area between).length ≤ maxJournalRecords then
        namedIn (recordedBy workspace area between)
      else none := by
  have hinstance : (t.run workspace between).state.instanceId = t.state.instanceId :=
    t.applyAll_instanceId _
  have hanswer : t.changesBetween workspace between area =
      ((t.run workspace between).state.journal area).since (t.state.journal area).generation := by
    refine (TrackerState.snapshotSince_same hinstance.symm area).trans ?_
    rw [TrackerState.position_generation]
  have hgeneration := t.generation_run workspace between area
  have hholds : ((t.run workspace between).state.journal area).Holds maxJournalRecords :=
    h.applyAll _ area
  rw [hanswer, Journal.since_eq hholds (by omega), hgeneration, history_run,
    Journal.generation_eq, drop_left]
  refine if_congr ?_ rfl rfl
  omega

/-- A record since the time of `t` has been dropped. -/
def Evicted (t : Tracker) (between : List TrackerOp) (area : Area) : Prop :=
  ∃ g, (t.state.journal area).generation < g ∧
    g ≤ ((t.run workspace between).state.journal area).generation ∧
    ∀ r ∈ ((t.run workspace between).state.journal area).records, r.generation ≠ g

/-- What the answer to a question about an earlier time says. -/
structure Exact (workspace : List OsPath) (t : Tracker) (between : List TrackerOp) (area : Area) :
    Prop where
  exact : ∀ changed, t.changesBetween workspace between area = some changed →
    changed = changedBy workspace area between
  unknown : t.changesBetween workspace between area = none ↔
    (∃ op ∈ between, op.loses area = true) ∨ t.Evicted workspace between area

variable {workspace : List OsPath}

lemma Holds.evicted_iff (h : t.Holds) {between : List TrackerOp} {area : Area} :
    t.Evicted workspace between area ↔
      maxJournalRecords < (recordedBy workspace area between).length := by
  have hholds : ((t.run workspace between).state.journal area).Holds maxJournalRecords :=
    h.applyAll _ area
  have hgeneration := t.generation_run workspace between area
  constructor
  · rintro ⟨g, hlt, hle, hmissing⟩
    have hnone : ¬∃ r ∈ ((t.run workspace between).state.journal area).records,
        r.generation = g := fun ⟨r, hr, heq⟩ => hmissing r hr heq
    rw [hholds.exists_record_iff (Nat.zero_lt_of_lt hlt) hle] at hnone
    omega
  · intro hlong
    -- the oldest record of the window is gone
    refine ⟨(t.state.journal area).generation + 1, Nat.lt_succ_self _, by omega, fun r hr heq => ?_⟩
    have := (hholds.exists_record_iff (Nat.succ_pos _) (by omega)).mp ⟨r, hr, heq⟩
    omega

lemma Holds.exact (h : t.Holds) (between : List TrackerOp) (area : Area) :
    Exact workspace t between area := by
  have hanswer := changesBetween_eq workspace h between area
  by_cases hlost : ∃ op ∈ between, op.loses area = true
  · have hnone : t.changesBetween workspace between area = none := by
      rw [hanswer, namedIn_eq_none.mpr ((none_mem_recordedBy workspace area between).mpr hlost),
        ite_self]
    refine ⟨fun changed hchanged => ?_, fun _ => Or.inl hlost, fun _ => hnone⟩
    cases hnone.symm.trans hchanged
  · have hkept : ∀ op ∈ between, op.loses area = false := by
      intro op hop
      exact Bool.eq_false_iff.mpr fun hloses => hlost ⟨op, hop, hloses⟩
    rw [namedIn_recordedBy workspace area hkept] at hanswer
    refine ⟨fun changed hchanged => ?_, ?_⟩
    · rw [hanswer] at hchanged
      split at hchanged
      · exact (Option.some.inj hchanged).symm
      · cases hchanged
    · rw [h.evicted_iff, hanswer]
      simp [hlost]

/-! ## Fences -/

variable {token : Text}

lemma not_release_mem_records {event : Event} :
    TrackerStep.releaseFence token ∉ event.records workspace := by
  have hchanges : ∀ area changes, TrackerStep.releaseFence token ∉ recordChanges area changes := by
    intro area changes
    unfold recordChanges
    split <;> simp
  have hunknown : TrackerStep.releaseFence token ∉
      (if event.unknownChanges then recordUnknown else []) := by
    split <;> simp [recordUnknown]
  unfold Event.records
  simp only [mem_append, hunknown, hchanges, or_self, not_false_eq_true]

variable {reported : Option Event}

lemma recordsIn_before_release {before after : List TrackerStep}
    (h : handleEvent workspace reported = before ++ .releaseFence token :: after) (area : Area) :
    recordsIn area before = recordsIn area (handleEvent workspace reported) := by
  cases reported with
  | none =>
    have hmem : TrackerStep.releaseFence token ∈ recordUnknown := by
      change TrackerStep.releaseFence token ∈ handleEvent workspace none
      rw [h]
      simp
    simp [recordUnknown] at hmem
  | some event =>
    have hrecords : recordsIn area (handleEvent workspace (some event)) =
        recordsIn area (event.records workspace) := by
      refine (recordsIn_append area _ _).trans ?_
      rw [recordsIn_release, append_nil]
    rw [hrecords]
    rcases append_eq_append_iff.mp h with ⟨more, hbefore, hmore⟩ | ⟨more, hrecorded, hmore⟩
    · -- the steps between the records and the release are releases
      have hreleases := recordsIn_release area (event.scan workspace).fenceTokens
      rw [hmore, recordsIn_append] at hreleases
      rw [hbefore, recordsIn_append, (append_eq_nil_iff.mp hreleases).1, append_nil]
    · cases more with
      | nil => rw [hrecorded, append_nil]
      | cons step more =>
        obtain ⟨rfl, -⟩ := cons.inj hmore
        have hmem : TrackerStep.releaseFence token ∈ event.records workspace := by
          rw [hrecorded]
          exact mem_append_right _ mem_cons_self
        exact absurd hmem not_release_mem_records

/-- What an event changed is in the records, unless they say that track was lost. -/
lemma exists_recordedBy {area : Area} {name : Text} (h : name ∈ changedBy workspace area ops) :
    ∃ r ∈ recordedBy workspace area ops, ∀ paths, r = some paths → name ∈ paths := by
  induction ops with
  | nil => exact absurd h (Finset.notMem_empty _)
  | cons op ops ih =>
    rw [recordedBy_cons]
    rcases Finset.mem_union.mp h with hname | hname
    · -- this operation has changes, so it leaves one record
      have hne : op.changed workspace area ≠ ∅ := Finset.ne_empty_of_mem hname
      rw [op.recordsIn_steps]
      split
      · exact ⟨none, mem_cons_self, nofun⟩
      · refine ⟨_, mem_cons_self, fun paths hpaths => ?_⟩
        cases hpaths
        exact hname
    · obtain ⟨r, hr, hr'⟩ := ih hname
      exact ⟨r, mem_append_right _ hr, hr'⟩

/-- When a fence is released the journals are those after the event, and report each
change so far. -/
structure Fenced (workspace : List OsPath) (t : Tracker) (ops : List TrackerOp)
    (reported : Option Event) (before : List TrackerStep) (area : Area) : Prop where
  recorded : ((t.run workspace ops).applyAll before).state.journal area =
    (t.run workspace (ops ++ [.event reported])).state.journal area
  reports : ∀ name ∈ changedBy workspace area (ops ++ [.event reported]),
    (((t.run workspace ops).applyAll before).state.journal area).Reported 0 name

lemma fenced (t : Tracker) (ops : List TrackerOp) {before after : List TrackerStep}
    (h : handleEvent workspace reported = before ++ .releaseFence token :: after) (area : Area) :
    Fenced workspace t ops reported before area := by
  have hrecorded : ((t.run workspace ops).applyAll before).state.journal area =
      (t.run workspace (ops ++ [.event reported])).state.journal area := by
    have hone : (t.run workspace ops).run workspace [.event reported] =
        (t.run workspace ops).applyAll (handleEvent workspace reported) := by
      unfold run
      rw [flatMap_singleton]
      rfl
    rw [run_append, hone, journal_applyAll, journal_applyAll, recordsIn_before_release h]
  refine ⟨hrecorded, fun name hname => ?_⟩
  obtain ⟨r, hr, hr'⟩ := exists_recordedBy hname
  rw [hrecorded]
  refine ⟨r, ?_, hr'⟩
  rw [history_run]
  exact mem_append_right _ hr

/-- The change journal is exact. -/
theorem journal_exact (workspace : List OsPath) (instanceId : Nat)
    (earlier between : List TrackerOp)
    (area : Area) :
    Exact workspace ((start instanceId).run workspace earlier) between area ∧
      ∀ reported before token after,
        handleEvent workspace reported = before ++ .releaseFence token :: after →
          Fenced workspace (start instanceId) (earlier ++ between) reported before area := by
  have hholds : ((start instanceId).run workspace earlier).Holds :=
    (holds_start instanceId).applyAll _
  exact ⟨hholds.exact between area, fun _ _ _ _ h => fenced _ _ h area⟩

/-- A file changes in the same event as a fence. -/
theorem journal_exact_fence :
    (((start 0).run [] []).applyAll [.record .source (some {['a']})]).state.journal .source =
      ((start 0).run [] [.event (some ⟨.modify, false,
        [[[97]], [utf8Encode onceDir, utf8Encode fencesDir, [116]]]⟩)]).state.journal
          .source :=
  ((journal_exact [] 0 [] [] .source).2 (some ⟨.modify, false,
    [[[97]], [utf8Encode onceDir, utf8Encode fencesDir, [116]]]⟩)
    [.record .source (some {['a']})] ['t'] [] rfl).recorded

end Tracker

end OnceBuild.ChangeTracker
