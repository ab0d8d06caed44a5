import OnceBuild.Plans.Scheduler

/-!
# Plan execution is safe

The invariant ties the state of the loop to its log.  While nothing failed, the nodes that wait for
nothing are those in the queue and those running; after a failure nothing is started any more.
-/

namespace OnceBuild.Plans

open List OnceBuild.Plans.Topology

variable {A R E J : Type} {plan : Plan A} {window : Nat} {s : RunState R E J}

structure RunInv (plan : Plan A) (window : Nat) (s : RunState R E J) : Prop where
  dependents : s.topology.dependents = (tables plan).dependents
  frontier : s.aborted = none → Lib.Frontier plan.indices plan.deps (joinedIds s.log)
    (s.ready ++ s.running) s.topology.remaining
  started_nodup : (startedIds s.log).Nodup
  started_perm : (startedIds s.log).Perm (s.running ++ joinedIds s.log)
  starts : StartsRight plan s.log
  windowed : Windowed window s.log
  aborted : s.aborted = firstFailure plan s.log
  outcomes : ∀ index outcome, Succeeded s.log index outcome →
    s.outcomes index = some ⟨index, plan.label index, outcome⟩

/-! ## Starting nodes -/

def RunState.started (s : RunState R E J) (index : Nat) (ready : List Nat) : RunState R E J :=
  { s with
    ready := ready
    running := s.running ++ [index]
    log := .started index :: s.log }

variable {index : Nat} {outcome : Outcome R}

lemma succeeded_started {log : List (Event R E J)} {other : Nat}
    (h : Succeeded (.started other :: log) index outcome) : Succeeded log index outcome := by
  rcases h with ⟨hmem, hcode⟩
  rcases mem_cons.mp hmem with heq | hrest
  · cases heq
  · exact ⟨hrest, hcode⟩

lemma RunInv.start_one (h : RunInv plan window s) (hrunning : s.aborted = none)
    (hwindow : s.running.length < window) {ready : List Nat} (hready : s.ready = index :: ready) :
    RunInv plan window (s.started index ready) := by
  have hfrontier := h.frontier hrunning
  rw [hready] at hfrontier
  have hactive := (hfrontier.active_iff index).mp mem_cons_self
  have hnodup := nodup_cons.mp hfrontier.active_nodup
  have hfresh : index ∉ startedIds s.log := by
    rw [h.started_perm.mem_iff, mem_append, not_or]
    exact ⟨fun hmem => hnodup.1 (mem_append_right _ hmem), hactive.2.1⟩
  have hnone : firstFailure plan s.log = none := h.aborted.symm.trans hrunning
  refine ⟨h.dependents, fun _ => ?_, nodup_cons.mpr ⟨hfresh, h.started_nodup⟩, ?_, ?_, ?_,
    h.aborted, fun other outcome hsucceeded => h.outcomes other outcome
      (succeeded_started hsucceeded)⟩
  · refine hfrontier.perm ?_
    change (ready ++ (s.running ++ [index])).Perm (index :: (ready ++ s.running))
    rw [← append_assoc]
    exact perm_append_singleton _ _
  · change (index :: startedIds s.log).Perm (s.running ++ [index] ++ joinedIds s.log)
    rw [append_assoc]
    exact (h.started_perm.cons index).trans perm_middle.symm
  · -- all dependencies are done, and so far everything that ended succeeded
    refine ⟨⟨fun d hd => ?_, hnone⟩, h.starts⟩
    exact succeeded_of_joined hnone ((Lib.outstanding_eq_zero plan.deps).mp hactive.2.2 d hd)
  · refine ⟨?_, h.windowed⟩
    have hlength := h.started_perm.length_eq
    rw [length_append] at hlength
    change (startedIds s.log).length + 1 ≤ (joinedIds s.log).length + window
    omega

lemma RunInv.spawnReady (h : RunInv plan window s) (hrunning : s.aborted = none) (fuel : Nat) :
    RunInv plan window (s.spawnReady window fuel) := by
  induction fuel generalizing s with
  | zero => exact h
  | succ fuel ih =>
    unfold RunState.spawnReady
    split
    case isFalse => exact h
    case isTrue hwindow =>
      split
      case h_1 => exact h
      case h_2 index ready hready => exact ih (h.start_one hrunning hwindow hready) hrunning

lemma spawnReady_drained (window : Nat) {fuel : Nat} {s : RunState R E J}
    (hfuel : s.ready.length ≤ fuel) (hwindow : (s.spawnReady window fuel).running.length < window) :
    (s.spawnReady window fuel).ready = [] := by
  induction fuel generalizing s with
  | zero => exact length_eq_zero_iff.mp (Nat.le_zero.mp hfuel)
  | succ fuel ih =>
    unfold RunState.spawnReady at hwindow ⊢
    split
    case isFalse hfull =>
      rw [if_neg hfull] at hwindow
      exact absurd hwindow hfull
    case isTrue hopen =>
      rw [if_pos hopen] at hwindow
      split
      case h_1 hready => exact hready
      case h_2 index ready hready =>
        simp only [hready] at hwindow
        refine ih ?_ hwindow
        rw [hready] at hfuel
        exact Nat.le_of_succ_le_succ hfuel

/-- While nothing failed, the loop waits with a full window or an empty queue. -/
def Drained (window : Nat) (s : RunState R E J) : Prop :=
  s.aborted = none → s.running.length < window → s.ready = []

variable {maxInFlight : Nat}

lemma RunInv.spawn (h : RunInv plan (max maxInFlight 1) s) :
    RunInv plan (max maxInFlight 1) (s.spawn maxInFlight) ∧
      Drained (max maxInFlight 1) (s.spawn maxInFlight) := by
  unfold RunState.spawn
  split
  case isTrue hrunning =>
    rw [Option.isNone_iff_eq_none] at hrunning
    exact ⟨h.spawnReady hrunning _, fun _ hwindow => spawnReady_drained _ le_rfl hwindow⟩
  case isFalse hstopped =>
    rw [Option.isNone_iff_eq_none] at hstopped
    exact ⟨h, fun hrunning => absurd hrunning hstopped⟩

/-! ## Joining nodes -/

section join

variable {index : Nat} {ended : TaskEnd R E J}

section

variable (h : RunInv plan window s)
include h

lemma RunInv.notMem_joined (hrunning : index ∈ s.running) : index ∉ joinedIds s.log := by
  have hnodup := h.started_perm.nodup_iff.mp h.started_nodup
  exact fun hmem => (nodup_append.mp hnodup).2.2 index hrunning index hmem rfl

lemma RunInv.joined_perm (hrunning : index ∈ s.running) :
    (startedIds s.log).Perm (s.running.erase index ++ (index :: joinedIds s.log)) := by
  refine h.started_perm.trans ?_
  refine ((perm_cons_erase hrunning).append_right _).trans ?_
  exact perm_middle.symm

lemma RunInv.joined_windowed : Windowed window (.joined index ended :: s.log) := by
  refine ⟨?_, h.windowed⟩
  have hlog : Windowed window ([] ++ s.log) := h.windowed
  have hbefore := hlog.of_append
  change (startedIds s.log).length ≤ (joinedIds s.log).length + 1 + window
  omega

section

variable (hrunning : index ∈ s.running)
include hrunning

lemma RunInv.fail {error : PlanError E J} (hfailed : failure plan index ended = some error) :
    RunInv plan window ((s.taken index ended).abort error) where
  dependents := h.dependents
  frontier hnone := by
    simp [RunState.abort, RunState.taken] at hnone
  started_nodup := h.started_nodup
  started_perm := h.joined_perm hrunning
  starts := h.starts
  windowed := h.joined_windowed
  aborted := by
    change s.aborted.or (some error) = (firstFailure plan s.log).or (failure plan index ended)
    rw [h.aborted, hfailed]
  outcomes other outcome hsucceeded := by
    rcases hsucceeded with ⟨hmem, hcode⟩
    rcases mem_cons.mp hmem with heq | hrest
    · cases heq
      rw [failure_eq_none.mpr ⟨outcome, rfl, hcode⟩] at hfailed
      cases hfailed
    · exact h.outcomes other outcome ⟨hrest, hcode⟩

lemma RunInv.recorded (other : Nat) (outcome' : Outcome R)
    (hsucceeded : Succeeded (.joined index (.finished outcome) :: s.log) other outcome') :
    Function.update s.outcomes index (some ⟨index, plan.label index, outcome⟩) other =
      some ⟨other, plan.label other, outcome'⟩ := by
  rcases hsucceeded with ⟨hmem, hcode⟩
  rcases mem_cons.mp hmem with heq | hrest
  · cases heq
    exact Function.update_self _ _ _
  · have hne : other ≠ index := by
      rintro rfl
      exact h.notMem_joined hrunning (joined_of_succeeded ⟨hrest, hcode⟩)
    rw [Function.update_of_ne hne]
    exact h.outcomes other outcome' ⟨hrest, hcode⟩

lemma RunInv.succeed (hcode : outcome.exitCode = 0) :
    ∃ s', (s.taken index (.finished outcome)).succeed plan index outcome = .ok s' ∧
      RunInv plan window s' := by
  have hfailure : failure plan index (.finished outcome : TaskEnd R E J) = none :=
    failure_eq_none.mpr ⟨outcome, rfl, hcode⟩
  have haborted : s.aborted = (firstFailure plan s.log).or
      (failure plan index (.finished outcome : TaskEnd R E J)) := by
    rw [hfailure, Option.or_none]
    exact h.aborted
  unfold RunState.succeed
  cases hstate : s.aborted with
  | some error =>
    have hnone : ¬ (s.taken index (.finished outcome)).aborted.isNone = true := by
      simp [RunState.taken, hstate]
    simp only [if_neg hnone]
    refine ⟨_, rfl, h.dependents, fun hrunning' => ?_, h.started_nodup, h.joined_perm hrunning,
      h.starts, h.joined_windowed, haborted, h.recorded hrunning⟩
    have habsurd : s.aborted = none := hrunning'
    rw [hstate] at habsurd
    cases habsurd
  | none =>
    have hfrontier := h.frontier hstate
    have hactive : index ∈ s.ready ++ s.running := mem_append_right _ hrunning
    rcases hfrontier.complete hactive (count_dependents plan index) with
      ⟨remaining, pushed, hrun, hnext⟩
    have hsome : (s.taken index (.finished outcome)).aborted.isNone = true := by
      simp [RunState.taken, hstate]
    have hcount : Lib.countdown (s.taken index (.finished outcome)).topology.remaining
        ((s.taken index (.finished outcome)).topology.dependents index) =
          .ok (remaining, pushed) := by
      change Lib.countdown s.topology.remaining (s.topology.dependents index) = _
      rw [h.dependents]
      exact hrun
    simp only [if_pos hsome, hcount]
    refine ⟨_, rfl, h.dependents, fun _ => ?_, h.started_nodup, h.joined_perm hrunning,
      h.starts, h.joined_windowed, haborted, h.recorded hrunning⟩
    refine hnext.perm ?_
    -- the node leaves the running ones, and what it released joins the queue
    have hnotready : index ∉ s.ready := fun hmem =>
      (nodup_append.mp hfrontier.active_nodup).2.2 index hmem index hrunning rfl
    rw [erase_append_right _ hnotready]
    rw [append_assoc, append_assoc]
    exact perm_append_comm.append_left _

end

end

lemma RunInv.join (h : RunInv plan (max maxInFlight 1) s) (hrunning : index ∈ s.running) :
    RunInv plan (max maxInFlight 1) (s.join plan maxInFlight index ended) ∧
      Drained (max maxInFlight 1) (s.join plan maxInFlight index ended) := by
  unfold RunState.join RunState.complete
  cases hfailure : failure plan index ended with
  | some error => exact (h.fail hrunning hfailure).spawn
  | none =>
    rcases failure_eq_none.mp hfailure with ⟨outcome, rfl, hcode⟩
    rcases h.succeed hrunning hcode with ⟨s', hsucceed, hinv⟩
    simp only [hsucceed]
    exact hinv.spawn

end join

/-! ## Runs -/

lemma RunInv.start {s : RunState R E J} (h : Plans.start plan maxInFlight = .ok s) :
    RunInv plan (max maxInFlight 1) s ∧ Drained (max maxInFlight 1) s := by
  unfold Plans.start at h
  cases htopology : (new plan : Except (PlanError E J) Topology) with
  | error error =>
    rw [htopology] at h
    cases h
  | ok topology =>
    rw [htopology] at h
    have htables : topology = tables plan := by
      rcases new_cases plan with ⟨-, -, hok⟩ | ⟨d, -, hbad⟩ | ⟨-, hcycle⟩
      · rw [hok] at htopology
        cases htopology
        rfl
      · rw [hbad] at htopology
        cases htopology
      · rw [hcycle] at htopology
        cases htopology
    subst htables
    cases h
    refine RunInv.spawn ⟨rfl, fun _ => ?_, nodup_nil, Perm.refl _, trivial, trivial, rfl,
      fun _ _ hsucceeded => ?_⟩
    · rw [append_nil]
      exact frontier_tables plan
    · cases hsucceeded.1

lemma Reaches.inv (h : Reaches plan maxInFlight s) :
    RunInv plan (max maxInFlight 1) s ∧ Drained (max maxInFlight 1) s := by
  induction h with
  | start h => exact RunInv.start h
  | join _ hrunning ih => exact ih.1.join hrunning

lemma Reaches.valid (h : Reaches plan maxInFlight s) :
    plan.Closed ∧ ¬ Lib.Cyclic plan.deps plan.indices := by
  induction h with
  | join _ _ ih => exact ih
  | start h =>
    unfold Plans.start at h
    rcases new_cases plan with
      ⟨hclosed, hacyclic, -⟩ | ⟨d, -, hbad⟩ | ⟨-, hcycle⟩
    · exact ⟨hclosed, hacyclic⟩
    · rw [hbad] at h
      cases h
    · rw [hcycle] at h
      cases h

/-- The scheduler itself never panics: no counter underflows. -/
lemma firstFailure_ne_panicked (plan : Plan A) (log : List (Event R E J))
    (fault : Lib.CountFault Nat) : firstFailure plan log ≠ some (.panicked fault) := by
  have hone : ∀ index (ended : TaskEnd R E J), failure plan index ended ≠
    some (.panicked fault) := by
    intro index ended
    cases ended with
    | errored error | panicked error => simp [failure]
    | finished outcome =>
      simp only [failure]
      split <;> simp
  induction log with
  | nil => simp [firstFailure]
  | cons event log ih =>
    cases event with
    | started index => exact ih
    | joined index ended =>
      simp only [firstFailure]
      cases hfirst : firstFailure plan log with
      | none => simpa using hone index ended
      | some error =>
        rw [hfirst] at ih
        simpa using ih

lemma Reaches.all_succeeded (h : Reaches plan maxInFlight s) (hidle : s.running = [])
    (hok : s.aborted = none) (hindex : index ∈ plan.indices) :
    ∃ outcome, Succeeded s.log index outcome := by
  have hinv := h.inv
  have hready : s.ready = [] := hinv.2 hok (by rw [hidle]; exact lt_max_of_lt_right Nat.one_pos)
  have hfrontier := hinv.1.frontier hok
  rw [hready, hidle] at hfrontier
  have hframe : ∀ v ∈ plan.indices, ∀ u ∈ plan.deps v, u ∈ plan.indices :=
    fun v _ u hu => h.valid.1 v u hu
  have hdone := (hfrontier.finished_iff hframe).mpr h.valid.2 index hindex
  exact succeeded_of_joined (hinv.1.aborted.symm.trans hok) hdone

/-- Over every order and way in which nodes end: a node starts at most once, after the success of
all its dependencies and before any failure; the window is kept; the error that is kept is the first
failure, and the scheduler itself never panics.  When nothing runs any more, `run` returns that
error or the outcomes of all nodes in order. -/
theorem plan_execution_safe (plan : Plan A) (maxInFlight : Nat) (s : RunState R E J)
    (h : Reaches plan maxInFlight s) :
    (startedIds s.log).Nodup ∧
    (∀ newer older index, s.log = newer ++ .started index :: older →
      (∀ d ∈ plan.deps index, ∃ outcome, Succeeded older d outcome) ∧
        firstFailure plan older = none) ∧
    (∀ newer older, s.log = newer ++ older →
      (startedIds older).length ≤ (joinedIds older).length + max maxInFlight 1) ∧
    s.running.length ≤ max maxInFlight 1 ∧
    s.aborted = firstFailure plan s.log ∧
    (∀ fault, s.aborted ≠ some (.panicked fault)) ∧
    (s.running = [] →
      (∀ error, firstFailure plan s.log = some error → s.finish plan = .error error) ∧
      (firstFailure plan s.log = none → ∃ results : List (PlanOutcome R),
        s.finish plan = .ok (some results) ∧ results.length = plan.count ∧
        ∀ index < plan.count, ∃ outcome, Succeeded s.log index outcome ∧
          results[index]? = some ⟨index, plan.label index, outcome⟩)) := by
  have hinv := h.inv.1
  refine ⟨hinv.started_nodup, fun newer older index hlog => ?_, fun newer older hlog => ?_, ?_,
    hinv.aborted, fun fault => ?_, fun hidle => ⟨fun error hfailure => ?_, fun hnone => ?_⟩⟩
  · exact StartsRight.of_append (hlog ▸ hinv.starts)
  · exact Windowed.of_append (hlog ▸ hinv.windowed)
  · have hlength := hinv.started_perm.length_eq
    have hlog : Windowed (max maxInFlight 1) ([] ++ s.log) := hinv.windowed
    have hbound := hlog.of_append
    rw [length_append] at hlength
    omega
  · rw [hinv.aborted]
    exact firstFailure_ne_panicked plan s.log fault
  · simp only [RunState.finish, hinv.aborted, hfailure]
  · have hok : s.aborted = none := hinv.aborted.trans hnone
    have hsome : ∀ index ∈ plan.indices, (s.outcomes index).isSome = true := by
      intro index hindex
      rcases h.all_succeeded hidle hok hindex with ⟨outcome, hsucceeded⟩
      rw [hinv.outcomes index outcome hsucceeded]
      rfl
    rcases Lib.mapM_total hsome with ⟨results, hrun, hlength, hget⟩
    refine ⟨results, ?_, by simpa [Plan.indices] using hlength, fun index hindex => ?_⟩
    · simp only [RunState.finish, hok, hrun]
    · rcases h.all_succeeded hidle hok (Plan.mem_indices.mpr hindex) with ⟨outcome, hsucceeded⟩
      refine ⟨outcome, hsucceeded, ?_⟩
      rw [hget index index (getElem?_range hindex)]
      exact hinv.outcomes index outcome hsucceeded

/-- Two nodes, of which the second lists the first twice. -/
def twoNodes : Plan Unit := ⟨[⟨"a".toList, (), []⟩, ⟨"b".toList, (), [0, 0]⟩]⟩

def twoNodesStarted : RunState Unit Unit Unit :=
  ⟨tables twoNodes, [], [0], fun _ => none, none, [.started 0]⟩

def twoNodesHalf : RunState Unit Unit Unit := twoNodesStarted.join twoNodes 4 0 (.finished ⟨0, ()⟩)

def twoNodesDone : RunState Unit Unit Unit := twoNodesHalf.join twoNodes 4 1 (.finished ⟨0, ()⟩)

theorem plan_execution_safe_twoNodes : Reaches twoNodes 4 twoNodesDone ∧ twoNodesDone.running = [] ∧
      ∃ results, twoNodesDone.finish twoNodes = .ok (some results) ∧ results.length = 2 := by
  have hstart : Reaches twoNodes 4 twoNodesStarted := .start rfl
  have hzero : 0 ∈ twoNodesStarted.running := by decide
  have hhalf : Reaches twoNodes 4 twoNodesHalf := hstart.join hzero
  have hone : 1 ∈ twoNodesHalf.running := by decide
  have hdone : Reaches twoNodes 4 twoNodesDone := hhalf.join hone
  have hsafe := plan_execution_safe twoNodes 4 twoNodesDone hdone
  rcases (hsafe.2.2.2.2.2.2 rfl).2 rfl with ⟨results, hfinish, hlength, -⟩
  exact ⟨hdone, rfl, results, hfinish, hlength⟩

end OnceBuild.Plans
