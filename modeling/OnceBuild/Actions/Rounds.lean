import OnceBuild.Actions.Deferral

/-!
# Rounds of the runner

A round takes a batch.  A single action restores what it needs itself; before several actions
everything that any of them needs is restored, and then none of them restores anything.  Either way
the round is a trace of its batch.
-/

namespace OnceBuild.Actions

open Lib List
open Cas (Digest)

variable {C : Type} {h : ActionHost C} {strict : Prop}

/-! ## What is asked of a batch -/

def TidyPrepare (h : ActionHost C) : Disk C → DeclaredActionsState →
    List (DeclaredAction × Lookup) → Prop
  | _, _, [] => True
  | disk, st, (a, _) :: batch =>
    Tidy (h.paths disk) st.pending st.availableInputs a ∧
      TidyPrepare h (restoreFor h st.pending st.availableInputs a disk).1
        (st.markRestored (restoreFor h st.pending st.availableInputs a disk).2) batch

/-- A single cached result is recorded without a restoration. -/
def TidyBatch (h : ActionHost C) (w : ActionsWorld C) : List (DeclaredAction × Lookup) → Prop
  | [(_, .hit _)] => True
  | batch => TidyPrepare h w.disk w.state batch

/-- The commands of a batch find the outputs inside their inputs on disk. -/
def CompleteBatch (h : ActionHost C) (w : ActionsWorld C)
    (batch : List (DeclaredAction × Lookup)) : Prop :=
  ∀ a, (a, .miss) ∈ batch → InputsComplete (prepareBatch h w.disk w.state batch).2.availableInputs a

def TidyRun (h : ActionHost C) : ActionsWorld C → List (List (DeclaredAction × Lookup)) → Prop
  | _, [] => True
  | w, batch :: rest => TidyBatch h w batch ∧ TidyRun h (runBatch h w batch) rest

def CompleteRun (h : ActionHost C) : ActionsWorld C → List (List (DeclaredAction × Lookup)) → Prop
  | _, [] => True
  | w, batch :: rest => CompleteBatch h w batch ∧ CompleteRun h (runBatch h w batch) rest

/-! ## A single action -/

/-- The runner stands for the abstract runner at `s`. -/
structure Follows (h : ActionHost C) (w : ActionsWorld C) (s : Shadow C) : Prop where
  tracks : Tracks h w.disk w.state s
  outputs : w.state.outputs = s.outputs

/-- A batch is a trace that leads from `s` on. -/
def Round (h : ActionHost C) (strict : Prop) (w : ActionsWorld C) (s : Shadow C)
    (batch : List (DeclaredAction × Lookup)) : Prop :=
  ∃ starts s', Trace h strict s batch starts s' ∧ Follows h (runBatch h w batch) s' ∧
    (runBatch h w batch).starts = w.starts ++ starts

section single

variable {w : ActionsWorld C} {s : Shadow C} {a : DeclaredAction} {st : DeclaredActionsState}

lemma sameState_outputs (st : DeclaredActionsState) (outputs : List Path) :
    SameState st { st with outputs := outputs } :=
  ⟨rfl, rfl, rfl, rfl, rfl⟩

lemma sameState_markRestored_outputs (st : DeclaredActionsState) (restored : Restoration)
    (outputs : List Path) :
    SameState (st.markRestored restored) ({ st with outputs := outputs }.markRestored restored) :=
  ⟨rfl, rfl, rfl, rfl, rfl⟩

lemma sameState_markNothing (st : DeclaredActionsState) : SameState st (st.markRestored ⟨[], []⟩) :=
  sameState_markRestored fun _ hpath => absurd hpath not_mem_nil

/-- After a tidy restoration nothing pending is in the way of the action, and nothing at all is
pending when it depends on prior actions. -/
lemma Tidy.cleared {host : PathHost} {restored : Restoration}
    (htidy : Tidy host st.pending st.availableInputs a)
    (hok : PendingOk st.availableInputs st.pending)
    (hrestored : restored = (restorePlan host st.pending st.availableInputs a).restoration) :
    (a.dependsOnPriorActions = true → (st.markRestored restored).pending.entries = []) ∧
      ∀ n, Cleared a n (st.markRestored restored) := by
  have hnone : a.dependsOnPriorActions = true →
      (st.markRestored restored).pending.entries = [] := by
    intro hdepends
    refine eq_nil_iff_forall_not_mem.mpr fun entry hentry => ?_
    obtain ⟨hpending, hnot⟩ := mem_pending_marked.mp hentry
    have hall : (restorePlan host st.pending st.availableInputs a).all = true := by
      simp only [restorePlan, restoresAll, hdepends, Bool.true_or]
    exact hnot (hrestored ▸ htidy.restored_of_selected hok
      (mem_selected.mpr ⟨hpending, .inl hall⟩))
  refine ⟨hnone, fun n => ⟨fun entry hentry o ho => htidy.clear hok hrestored hentry ho, ?_⟩⟩
  intro hrestores
  simp only [CachedResultPolicy.forAction, Bool.and_eq_true] at hrestores
  exact hnone hrestores.2

lemma runBatch_single (h : ActionHost C) (w : ActionsWorld C) (a : DeclaredAction)
    (lookup : Lookup) :
    runBatch h w [(a, lookup)] =
      let ran := runDeclaredAction h w.state.pending w.state.availableInputs
        w.state.priorActionsDigest a lookup w.disk
      { disk := ran.1
        state := { w.state with outputs := w.state.outputs ++ a.outputs }.record h ran.2
          (.forAction ran.2.declared 1)
        starts := w.starts ++ (ran.2.start w.state.outputs w.state.availableInputs).toList } := by
  simp [runBatch, runAll, filterMap_cons, Option.toList]
  rfl

variable {digests : Path → Digest}

lemma Follows.single_hit (hfollows : Follows h w s) (hwrites : WritesOutputs a) :
    Round h strict w s [(a, .hit digests)] := by
  have hsame := (hfollows.tracks.congr (sameState_outputs _ (w.state.outputs ++ a.outputs))).congr
    (sameState_markNothing _)
  refine ⟨[], _, .cached rfl (.nil _), ⟨?_, ?_⟩, ?_⟩
  · rw [runBatch_single]
    exact hsame.hit hwrites rfl rfl
  · rw [runBatch_single]
    exact congrArg (· ++ a.outputs) hfollows.outputs
  · rfl

lemma Follows.single_lateHit (hfollows : Follows h w s) (hwrites : WritesOutputs a)
    (htidy : Tidy (h.paths w.disk) w.state.pending w.state.availableInputs a) :
    Round h strict w s [(a, .lateHit digests)] := by
  have hsame := (hfollows.tracks.restore htidy).congr
    (sameState_markRestored_outputs _ _ (w.state.outputs ++ a.outputs))
  refine ⟨[], _, .cached rfl (.nil _), ⟨?_, ?_⟩, ?_⟩
  · rw [runBatch_single]
    exact hsame.hit hwrites rfl rfl
  · rw [runBatch_single]
    exact congrArg (· ++ a.outputs) hfollows.outputs
  · rfl

lemma Follows.single_miss (hfollows : Follows h w s) (hwrites : WritesOutputs a)
    (htidy : Tidy (h.paths w.disk) w.state.pending w.state.availableInputs a)
    (hcomplete : strict → CompleteBatch h w [(a, .miss)]) : Round h strict w s [(a, .miss)] := by
  obtain ⟨hnone, hclear⟩ := htidy.cleared hfollows.tracks.ok.pending rfl
  have hrestored := hfollows.tracks.restore htidy
  have hsame := hrestored.congr
    (sameState_markRestored_outputs _ _ (w.state.outputs ++ a.outputs))
  let ready := restoreFor h w.state.pending w.state.availableInputs a w.disk
  let start : ActionStart C := ⟨a, w.state.outputs, w.state.availableInputs,
    actionDigest h w.state.availableInputs w.state.priorActionsDigest w.disk a, ready.1⟩
  have hstart : StartedOn h strict s start := by
    refine ⟨fun _ _ path _ => congrFun hfollows.tracks.keys path,
      ⟨_, _, rfl, fun z hz => hfollows.tracks.disk_eq hz⟩,
      ⟨_, hrestored.keys, hrestored.ok.promised, ?_, ?_⟩, fun hdepends => ?_⟩
    · exact inputsReady_mark fun path hpath => mem_append_right _ hpath
    · exact fun hstrict => hcomplete hstrict a mem_cons_self
    · exact ⟨hfollows.outputs, hrestored.ok.sameAt_recorded (hnone hdepends)⟩
  refine ⟨[start], _, .ran hstart (.nil _), ⟨?_, ?_⟩, ?_⟩
  · rw [runBatch_single]
    exact hsame.miss hwrites ⟨(hclear 1).clear, (hclear 1).prior⟩ rfl rfl
  · rw [runBatch_single]
    exact congrArg (· ++ a.outputs) hfollows.outputs
  · rfl

end single

/-! ## Several actions at the same time -/

structure Prepared (st : DeclaredActionsState) (a : DeclaredAction) : Prop where
  ready : InputsReady st.availableInputs a
  clear : ∀ entry ∈ st.pending.entries, ∀ o ∈ a.outputs, pathsOverlap entry.1 o = false

variable {st : DeclaredActionsState} {a : DeclaredAction}

lemma Prepared.mark (hprepared : Prepared st a) (restored : Restoration) :
    Prepared (st.markRestored restored) a where
  ready := hprepared.ready.mark restored.ready
  clear entry hentry := hprepared.clear entry (mem_pending_marked.mp hentry).1

variable {disk : Disk C} {batch : List (DeclaredAction × Lookup)}

lemma prepareBatch_spec {s : Shadow C} (htracks : Tracks h disk st s)
    (htidy : TidyPrepare h disk st batch) :
    Tracks h (prepareBatch h disk st batch).1 (prepareBatch h disk st batch).2 s ∧
      (prepareBatch h disk st batch).2.outputs = st.outputs ∧
      (∀ a, Prepared st a → Prepared (prepareBatch h disk st batch).2 a) ∧
      ∀ item ∈ batch, Prepared (prepareBatch h disk st batch).2 item.1 := by
  induction batch generalizing disk st with
  | nil => exact ⟨htracks, rfl, fun _ hprepared => hprepared, nofun⟩
  | cons item batch ih =>
    obtain ⟨a, lookup⟩ := item
    obtain ⟨htidy, hrest⟩ := htidy
    obtain ⟨htracks', houtputs, hkept, hmembers⟩ := ih (htracks.restore htidy) hrest
    -- the action itself is prepared now, and stays so
    have hself : Prepared (st.markRestored
        (restoreFor h st.pending st.availableInputs a disk).2) a :=
      ⟨inputsReady_mark fun path hpath => mem_append_right _ hpath,
        fun entry hentry o ho => htidy.clear htracks.ok.pending rfl hentry ho⟩
    refine ⟨htracks', houtputs, fun b hprepared => hkept b (hprepared.mark _), ?_⟩
    intro item hitem
    rcases mem_cons.mp hitem with rfl | hitem
    · exact hkept a hself
    · exact hmembers item hitem

variable {available : AvailableInputs}

lemma restoreFor_ready (hready : InputsReady available a) (disk : Disk C) :
    restoreFor h .empty available a disk = (disk, ⟨[], requiredOutputs available a⟩) := by
  have hselected : (restorePlan (h.paths disk) .empty available a).selected = [] := by
    rfl
  have hreplaced : (restorePlan (h.paths disk) .empty available a).replaced = [] := by
    refine eq_nil_iff_forall_not_mem.mpr fun entry hentry => ?_
    obtain ⟨hrequired, found, hfound, hunmaterialized, -⟩ := mem_replaced hentry
    obtain ⟨input, hinput, found', hclosest⟩ := mem_requiredOutputs.mp hrequired
    obtain ⟨-, -, hfound', -⟩ := closest_eq_some hclosest
    rw [hfound] at hfound'
    cases hfound'
    rw [hready input hinput _ _ hclosest] at hunmaterialized
    cases hunmaterialized
  simp only [restoreFor, restoreWith, RestorePlan.restoration, hselected, hreplaced]
  rfl

/-- A member of a batch that has not been recorded yet; `available` is what the batch started with.
Outcomes of other members leave its inputs and outputs alone. -/
structure Waiting (available : AvailableInputs) (strict : Prop) (st : DeclaredActionsState)
    (item : DeclaredAction × Lookup) : Prop where
  same : ∀ input ∈ item.1.inputs, ∀ path, path <+: input ∨ input <+: path →
    st.availableInputs path = available path
  complete : strict → item.2 = .miss → InputsComplete available item.1
  clear : ∀ entry ∈ st.pending.entries, ∀ o ∈ item.1.outputs, pathsOverlap entry.1 o = false

section members

variable {available : AvailableInputs} {disk : Disk C} {s : Shadow C}
  {st st' : DeclaredActionsState} {a : DeclaredAction} {n : Nat} {outcome : ActionOutcome C}
  {item : DeclaredAction × Lookup}

section

variable (hwaiting : Waiting available strict st item)
include hwaiting

lemma Waiting.congr (hsame : SameState st st') : Waiting available strict st' item where
  same := by
    rw [hsame.available]
    exact hwaiting.same
  complete := hwaiting.complete
  clear := by
    rw [hsame.entries]
    exact hwaiting.clear

lemma Waiting.closest_eq {input : Path} (hinput : input ∈ item.1.inputs) :
    closest st.availableInputs input = closest available input :=
  closest_congr fun path _ hpath => hwaiting.same input hinput path (.inl hpath)

lemma Waiting.inputsReady
    (hready : InputsReady available item.1) : InputsReady st.availableInputs item.1 :=
  fun input hinput path found hclosest =>
    hready input hinput path found ((hwaiting.closest_eq hinput).symm.trans hclosest)

lemma Waiting.inputsComplete (hstrict : strict)
    (hmiss : item.2 = .miss) : InputsComplete st.availableInputs item.1 :=
  fun input hinput path found hfound hbelow =>
    hwaiting.complete hstrict hmiss input hinput path found
      ((hwaiting.same input hinput path (.inr hbelow)).symm.trans hfound) hbelow

end

lemma apart_of_conflicts {other : DeclaredAction} (hconflicts : conflicts a other = false)
    (hof : OutcomeOf a outcome) {o : Path} (ho : o ∈ outcome.outputs.keys) {path : Path}
    (hpath : path ∈ other.accesses) : ¬ o <+: path ∧ ¬ path <+: o := by
  have hwrites : o ∈ a.writes := by
    simp only [DeclaredAction.writes, mem_append]
    exact .inl (.inl (.inl (.inl ((hof.keys o).mp ho))))
  have hno := (not_overlap_of_conflicts hconflicts).1 o hwrites path hpath
  rw [← Bool.not_eq_true, pathsOverlap_iff, not_or] at hno
  exact hno

lemma Waiting.add (hwaiting : Waiting available strict st item) (hof : OutcomeOf a outcome)
    (hconflicts : conflicts a item.1 = false) (hclear : outcome.hit = false → Cleared a n st) :
    Waiting available strict (st.add h outcome (.forAction a n)) item := by
  refine ⟨fun input hinput path hpath => ?_, hwaiting.complete, fun entry hentry o ho => ?_⟩
  · rw [hof.add_available, extendAvailable_elsewhere fun o ho hle => ?_]
    · exact hwaiting.same input hinput path hpath
    · -- an output above the path would meet the input
      obtain ⟨hnot, hnot'⟩ := apart_of_conflicts hconflicts hof ho (mem_append_right _ hinput)
      rcases hpath with habove | hbelow
      · exact hnot (hle.trans habove)
      · exact ( prefix_or_prefix_of_prefix hle hbelow).elim hnot hnot'
  · have hwritten : o ∈ item.1.accesses := by
      simp only [DeclaredAction.accesses, DeclaredAction.writes, mem_append]
      exact .inl (.inl (.inl (.inl (.inl ho))))
    cases hhit : outcome.hit with
    | true =>
      rcases (mem_pending_add_hit hhit).mp hentry with ⟨hold, -⟩ | hnew
      · exact hwaiting.clear entry hold o ho
      · have hno := apart_of_conflicts hconflicts hof (mem_keys_of_entry hnew) hwritten
        rw [← Bool.not_eq_true, pathsOverlap_iff, not_or]
        exact hno
    | false =>
      rw [(hclear hhit).entries_eq hof hhit] at hentry
      exact hwaiting.clear entry hentry o ho

lemma Waiting.sameState_mark (hwaiting : Waiting available strict st item)
    (hready : InputsReady available item.1) :
    SameState st (st.markRestored ⟨[], requiredOutputs available item.1⟩) := by
  refine sameState_markRestored fun path hpath found hfound => ?_
  obtain ⟨input, hinput, found', hclosest⟩ := mem_requiredOutputs.mp hpath
  obtain ⟨-, -, hfound', -⟩ := closest_eq_some ((hwaiting.closest_eq hinput).trans hclosest)
  rw [hfound] at hfound'
  cases hfound'
  exact hready input hinput path found hclosest

lemma runDeclaredAction_declared (pending : PendingResults) (prior : Option Digest)
    (lookup : Lookup) :
    (runDeclaredAction h pending available prior a lookup disk).2.declared = a := by
  cases lookup <;> rfl

lemma member_step (n : Nat) (prior : Option Digest) (earlier : List Path) {lookup : Lookup}
    (htracks : Tracks h disk st s) (hwrites : WritesOutputs a)
    (hwaiting : Waiting available strict st (a, lookup)) (hready : InputsReady available a)
    (halone : a.dependsOnPriorActions = false) :
    let ran := runDeclaredAction h .empty available prior a lookup disk
    ∃ s', Trace h strict s [(a, lookup)] (ran.2.start earlier available).toList s' ∧
      Tracks h ran.1 (st.record h ran.2 (.forAction a n)) s' ∧
      s'.outputs = s.outputs ++ a.outputs ∧
      ∀ item, Waiting available strict st item → conflicts a item.1 = false →
        Waiting available strict (st.record h ran.2 (.forAction a n)) item := by
  have hmarked := hwaiting.sameState_mark hready
  cases lookup with
  | hit digests =>
    have hsame := sameState_markNothing st
    refine ⟨_, .cached rfl (.nil _), (htracks.congr hsame).hit hwrites rfl rfl, rfl,
      fun item hitem hconflicts => ?_⟩
    exact (hitem.congr hsame).add (outcomeOf_outputsAt hwrites rfl) hconflicts nofun
  | lateHit digests =>
    simp only [runDeclaredAction, restoreFor_ready hready]
    refine ⟨_, .cached rfl (.nil _), (htracks.congr hmarked).hit hwrites rfl rfl, rfl,
      fun item hitem hconflicts => ?_⟩
    exact (hitem.congr hmarked).add (outcomeOf_outputsAt hwrites rfl) hconflicts nofun
  | miss =>
    simp only [runDeclaredAction, restoreFor_ready hready]
    have hclear : Cleared a n (st.markRestored ⟨[], requiredOutputs available a⟩) := by
      refine ⟨(hwaiting.congr hmarked).clear, fun hrestores => ?_⟩
      simp [CachedResultPolicy.forAction, halone] at hrestores
    have hstart : StartedOn h strict s
        ⟨a, earlier, available, actionDigest h available prior disk a, disk⟩ := by
      refine ⟨fun input hinput path hpath => ?_, ⟨_, _, rfl, fun z hz => htracks.disk_eq hz⟩,
        ⟨_, htracks.keys, htracks.ok.promised, hwaiting.inputsReady hready,
          fun hstrict => hwaiting.inputsComplete hstrict rfl⟩, fun hdepends => ?_⟩
      · rw [← htracks.keys]
        exact congrArg (Option.map _) (hwaiting.same input hinput path hpath).symm
      · exact absurd (halone.symm.trans hdepends) (by decide)
    refine ⟨_, .ran hstart (.nil _), (htracks.congr hmarked).miss hwrites hclear rfl rfl, rfl,
      fun item hitem hconflicts => ?_⟩
    exact (hitem.congr hmarked).add (outcomeOf_outputsAt hwrites rfl) hconflicts fun _ => hclear

lemma runAll_trace (n : Nat) (prior : Option Digest) (earlier : List Path)
    (htracks : Tracks h disk st s) (hwrites : ∀ item ∈ batch, WritesOutputs item.1)
    (hpairwise : batch.Pairwise fun a b => conflicts a.1 b.1 = false)
    (hwaiting : ∀ item ∈ batch, Waiting available strict st item)
    (hready : ∀ item ∈ batch, InputsReady available item.1)
    (halone : ∀ item ∈ batch, item.1.dependsOnPriorActions = false) :
    let ran := runAll h .empty available prior disk batch
    ∃ s', Trace h strict s batch
        (ran.2.filterMap fun outcome => outcome.start earlier available) s' ∧
      Tracks h ran.1
        (ran.2.foldl (fun st outcome => st.record h outcome (.forAction outcome.declared n)) st)
        s' ∧
      s'.outputs = s.outputs ++ batch.flatMap fun item => item.1.outputs := by
  induction batch generalizing disk st s with
  | nil => exact ⟨s, .nil s, htracks, (append_nil _).symm⟩
  | cons item batch ih =>
    obtain ⟨a, lookup⟩ := item
    obtain ⟨hconflicts, hpairwise⟩ := pairwise_cons.mp hpairwise
    obtain ⟨s₁, hfirst, htracks₁, houtputs₁, hkept⟩ := member_step n prior earlier htracks
      (hwrites _ mem_cons_self) (hwaiting _ mem_cons_self)
      (hready _ mem_cons_self) (halone _ mem_cons_self)
    obtain ⟨s', hrest, htracks', houtputs'⟩ := ih htracks₁
      (fun item hitem => hwrites item (mem_cons_of_mem _ hitem)) hpairwise
      (fun item hitem => hkept item (hwaiting item (mem_cons_of_mem _ hitem))
        (hconflicts item hitem))
      (fun item hitem => hready item (mem_cons_of_mem _ hitem))
      (fun item hitem => halone item (mem_cons_of_mem _ hitem))
    refine ⟨s', ?_, ?_, ?_⟩
    · have htrace := hfirst.append hrest
      simp only [runAll, filterMap_cons]
      cases hstart : (runDeclaredAction h .empty available prior a lookup disk).2.start earlier
          available with
      | none => simpa [hstart] using htrace
      | some start => simpa [hstart] using htrace
    · simp only [runAll, foldl_cons, runDeclaredAction_declared]
      exact htracks'
    · rw [houtputs', houtputs₁, flatMap_cons, append_assoc]

end members

lemma outputs_foldl_record (n : Nat) (outcomes : List (ActionOutcome C))
    (st : DeclaredActionsState) :
    (outcomes.foldl (fun st outcome => st.record h outcome (.forAction outcome.declared n))
      st).outputs = st.outputs := by
  induction outcomes generalizing st with
  | nil => rfl
  | cons outcome outcomes ih => exact ih _

lemma Follows.several {w : ActionsWorld C} {s : Shadow C} (hfollows : Follows h w s)
    (hseveral : batch.length ≠ 1) (hwrites : ∀ item ∈ batch, WritesOutputs item.1)
    (hpairwise : batch.Pairwise fun a b => conflicts a.1 b.1 = false)
    (halone : ∀ item ∈ batch, item.1.dependsOnPriorActions = false)
    (htidy : TidyPrepare h w.disk w.state batch) (hcomplete : strict → CompleteBatch h w batch) :
    Round h strict w s batch := by
  obtain ⟨htracks, houtputs, -, hprepared⟩ := prepareBatch_spec hfollows.tracks htidy
  have hsingle : (batch.length == 1) = false := by simpa using hseveral
  have hwaiting : ∀ item ∈ batch,
      Waiting (prepareBatch h w.disk w.state batch).2.availableInputs strict
        (prepareBatch h w.disk w.state batch).2 item := by
    intro item hitem
    refine ⟨fun _ _ _ _ => rfl, fun hstrict hmiss => hcomplete hstrict item.1 ?_,
      (hprepared item hitem).clear⟩
    rw [← hmiss]
    exact hitem
  have hsame := sameState_outputs (prepareBatch h w.disk w.state batch).2
    ((prepareBatch h w.disk w.state batch).2.outputs ++ batch.flatMap fun item => item.1.outputs)
  obtain ⟨s', htrace, htracks', houtputs'⟩ := runAll_trace batch.length
    (prepareBatch h w.disk w.state batch).2.priorActionsDigest w.state.outputs
    (htracks.congr hsame) hwrites hpairwise
    (fun item hitem => (hwaiting item hitem).congr hsame)
    (fun item hitem => (hprepared item hitem).ready) halone
  refine ⟨_, s', htrace, ⟨?_, ?_⟩, ?_⟩
  · simp only [runBatch, hsingle, Bool.false_eq_true, if_false]
    exact htracks'
  · simp only [runBatch, hsingle, Bool.false_eq_true, if_false, outputs_foldl_record, houtputs,
      houtputs', hfollows.outputs]
  · simp only [runBatch, hsingle, Bool.false_eq_true, if_false]

/-! ## Whole runs -/

section runs

variable {w : ActionsWorld C} {s : Shadow C} {batch : List (DeclaredAction × Lookup)}

lemma Follows.round (hfollows : Follows h w s) (hwrites : ∀ item ∈ batch, WritesOutputs item.1)
    (hpairwise : batch.Pairwise fun a b => conflicts a.1 b.1 = false)
    (halone : batch.length = 1 ∨ ∀ item ∈ batch, item.1.dependsOnPriorActions = false)
    (htidy : TidyBatch h w batch) (hcomplete : strict → CompleteBatch h w batch) :
    Round h strict w s batch := by
  match batch, hwrites, hpairwise, halone, htidy, hcomplete with
  | [], hwrites, hpairwise, halone, htidy, hcomplete =>
    exact hfollows.several (by simp) hwrites hpairwise (halone.resolve_left (by simp)) htidy
      hcomplete
  | [(a, .hit digests)], hwrites, _, _, _, _ => exact hfollows.single_hit (hwrites _ mem_cons_self)
  | [(a, .lateHit digests)], hwrites, _, _, htidy, _ =>
    exact hfollows.single_lateHit (hwrites _ mem_cons_self) htidy.1
  | [(a, .miss)], hwrites, _, _, htidy, hcomplete =>
    exact hfollows.single_miss (hwrites _ mem_cons_self) htidy.1 hcomplete
  | (a, lookup) :: second :: rest, hwrites, hpairwise, halone, htidy, hcomplete =>
    have hprepare : TidyPrepare h w.disk w.state ((a, lookup) :: second :: rest) := by
      cases lookup <;> exact htidy
    exact hfollows.several (by simp) hwrites hpairwise (halone.resolve_left (by simp)) hprepare
      hcomplete

lemma Follows.rounds {bs : List (List (DeclaredAction × Lookup))} (hfollows : Follows h w s)
    (hwrites : ∀ item ∈ bs.flatten, WritesOutputs item.1)
    (hpairwise : ∀ batch ∈ bs, batch.Pairwise fun a b => conflicts a.1 b.1 = false)
    (halone : ∀ batch ∈ bs, batch.length = 1 ∨ ∀ item ∈ batch, item.1.dependsOnPriorActions = false)
    (htidy : TidyRun h w bs) (hcomplete : strict → CompleteRun h w bs) :
    ∃ starts s', Trace h strict s bs.flatten starts s' ∧ Follows h (bs.foldl (runBatch h) w) s' ∧
      (bs.foldl (runBatch h) w).starts = w.starts ++ starts := by
  induction bs generalizing w s with
  | nil => exact ⟨[], s, .nil s, hfollows, (append_nil _).symm⟩
  | cons batch bs ih =>
    obtain ⟨starts, s₁, htrace, hfollows₁, hstarts⟩ := hfollows.round
      (fun item hitem => hwrites item (mem_append_left _ hitem))
      (hpairwise _ mem_cons_self) (halone _ mem_cons_self) htidy.1
      fun hstrict => (hcomplete hstrict).1
    obtain ⟨starts', s', htrace', hfollows', hstarts'⟩ := ih hfollows₁
      (fun item hitem => hwrites item (mem_append_right _ hitem))
      (fun batch hmem => hpairwise batch (mem_cons_of_mem _ hmem))
      (fun batch hmem => halone batch (mem_cons_of_mem _ hmem)) htidy.2
      fun hstrict => (hcomplete hstrict).2
    refine ⟨starts ++ starts', s', htrace.append htrace', hfollows', ?_⟩
    rw [foldl_cons, hstarts', hstarts, append_assoc]

def Shadow.new (h : ActionHost C) (available : AvailableInputs) (disk : Disk C) : Shadow C :=
  ⟨digestsOf available, promised h.blob available disk, []⟩

lemma follows_new (hroot : available [] = none)
    (hforeign : ∀ path found, available path = some found → found.sameTarget = false) :
    Follows h ⟨disk, .new available, []⟩ (.new h available disk) := by
  have hnotOwn : ∀ path found, available path = some found → found.sameTarget ≠ true := by
    intro path found hfound hown
    rw [hforeign path found hfound] at hown
    cases hown
  have hpending : PendingOk available (DeclaredActionsState.new available).pending :=
    ⟨hroot, nofun, fun path found hfound hown => absurd hown (hnotOwn path found hfound), nofun,
      .nil, .nil, nofun⟩
  refine ⟨⟨⟨hpending, rfl, ?_, nofun, fun path => ?_, nofun⟩, rfl⟩, rfl⟩
  · exact fun path found _ _ hfound hown => absurd hown (hnotOwn path found hfound)
  · refine ⟨nofun, ?_⟩
    rintro ⟨found, hfound, hown⟩
    exact absurd hown (hnotOwn path found hfound)

lemma runDeclaredActions_trace {limit : Nat} {queue : List (DeclaredAction × Lookup)}
    (hroot : available [] = none)
    (hforeign : ∀ path found, available path = some found → found.sameTarget = false)
    (hwrites : ∀ item ∈ queue, WritesOutputs item.1)
    (htidy : TidyRun h ⟨disk, .new available, []⟩ (batches limit queue))
    (hcomplete : strict → CompleteRun h ⟨disk, .new available, []⟩ (batches limit queue)) :
    ∃ s', Trace h strict (.new h available disk) queue
        (runDeclaredActions h limit ⟨disk, .new available, []⟩ queue).starts s' ∧
      Follows h (runDeclaredActions h limit ⟨disk, .new available, []⟩ queue) s' := by
  have hflat := flatten_batches limit queue
  obtain ⟨starts, s', htrace, hfollows, hstarts⟩ := (follows_new hroot hforeign).rounds
    (hflat.symm ▸ hwrites) (fun batch hbatch => pairwise_of_mem_batches hbatch)
    (fun batch hbatch => alone_of_mem_batches hbatch) htidy hcomplete
  refine ⟨s', ?_, hfollows⟩
  rw [hflat] at htrace
  exact hstarts ▸ htrace

end runs

end OnceBuild.Actions
