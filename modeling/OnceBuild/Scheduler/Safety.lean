import Mathlib.Algebra.Order.BigOperators.Group.List
import OnceBuild.Scheduler.Run

/-!
# Scheduling is safe over every order of completions

The invariant `RunInv` ties the four tables of the build state to the log: counters of dependencies
to the targets that completed, counters of readers to the targets that were spawned, and the
outcomes to both.  Spawning and joining keep it, so every run keeps it and never fails.
-/

namespace OnceBuild.Scheduler

open List

variable {P : Type} {g : BuildGraph} {s s' : RunState P}

/-! ## Construction fails exactly on a cycle -/

variable {t d : TargetId}

lemma mem_deps_reachable (h : d ∈ g.deps t) : d ∈ g.reachable := by
  unfold BuildGraph.deps reachableDeps at h
  split at h
  case h_1 => cases h
  case h_2 => simpa using (mem_filter.mp h).2

lemma mem_nextTargets {v : TargetId} :
    v ∈ nextTargets g.reachable (Lib.invert g.deps g.reachable) t ↔
      v ∈ g.reachable ∧ t ∈ g.deps v := by
  unfold nextTargets
  rw [(Lib.tabulates_invert g.deps g.reachable).getD t, mem_filter, Lib.mem_incoming]
  simp only [decide_eq_true_eq]
  tauto

lemma cyclic_nextTargets_iff :
    Lib.Cyclic (nextTargets g.reachable (Lib.invert g.deps g.reachable)) g.reachable ↔
      Lib.Cyclic g.deps g.reachable := by
  constructor
  · rintro ⟨v, hv, hcycle⟩
    refine ⟨v, hv, Relation.transGen_swap.mp (hcycle.lift id fun a b hab => ?_)⟩
    exact (mem_nextTargets.mp hab).2
  · rintro ⟨v, hv, hcycle⟩
    refine ⟨v, hv, Relation.transGen_swap.mp ?_⟩
    -- every vertex on the way is a dependency, so it belongs to the build
    have key : ∀ w, Relation.TransGen (fun a b => b ∈ g.deps a) v w →
        Relation.TransGen (Function.swap fun a b => b ∈ nextTargets g.reachable
          (Lib.invert g.deps g.reachable) a) v w ∧ w ∈ g.reachable := by
      intro w hw
      induction hw with
      | single hstep => exact ⟨.single (mem_nextTargets.mpr ⟨hv, hstep⟩), mem_deps_reachable hstep⟩
      | tail _ hstep ih =>
        exact ⟨ih.1.tail (mem_nextTargets.mpr ⟨ih.2, hstep⟩), mem_deps_reachable hstep⟩
    exact (key v hcycle).1

/-- The state that a build of an acyclic graph begins in. -/
def BuildGraph.initialState (g : BuildGraph) (depths : AList fun _ : TargetId => Nat) :
    BuildState P where
  remainingDeps := fun t => if t ∈ g.reachable then some (g.deps t).length else none
  dependents := Lib.invert g.deps g.reachable
  criticalDepths := depths
  remainingReaders := countReaders (Lib.invert g.deps g.reachable) g.retained
  ready := (g.reachable.filter fun t => (g.deps t).length = 0).map fun t =>
    ((depths.lookup t).getD 1, t)
  outcomes := fun _ => none
  completed := 0

lemma new_cases (g : BuildGraph) : (¬ Lib.Cyclic g.deps g.reachable ∧ ∃ depths,
      (BuildState.new g.targets g.reachable g.retained : Except BuildError (BuildState P)) =
        .ok (g.initialState depths)) ∨
    (Lib.Cyclic g.deps g.reachable ∧ ∃ t,
      (BuildState.new g.targets g.reachable g.retained : Except BuildError (BuildState P)) =
        .error (.cycleWhileRanking t)) := by
  have hfind : (g.reachable.find? fun t => (g.targets t).isNone) = none := by
    refine find?_eq_none.mpr fun t ht => ?_
    simp [Option.isSome_iff_ne_none.mp (g.reachable_mem t ht)]
  rcases criticalDepths_cases g.reachable_nodup (Lib.invert g.deps g.reachable) with
    ⟨hacyclic, depths, hdepths, -⟩ | ⟨hcycle, t, hdepths⟩
  · refine .inl ⟨fun h => hacyclic (cyclic_nextTargets_iff.mpr h), depths, ?_⟩
    unfold BuildGraph.deps at hdepths
    simp only [BuildState.new, hfind, hdepths]
    rfl
  · refine .inr ⟨cyclic_nextTargets_iff.mp hcycle, t, ?_⟩
    unfold BuildGraph.deps at hdepths
    simp only [BuildState.new, hfind, hdepths]

/-! ## The invariant -/

def BuildGraph.unspawned (g : BuildGraph) (log : List (Event P)) : List TargetId :=
  g.reachable.filter (· ∉ spawnedIds log)

/-- The last outcome that the log records for a target. -/
def loggedOutcome (log : List (Event P)) (d : TargetId) : Option (BuildOutcome P) :=
  match log with
  | [] => none
  | .spawned _ :: log => loggedOutcome log d
  | .completed t outcome :: log => if t = d then some outcome else loggedOutcome log d

structure RunInv (g : BuildGraph) (s : RunState P) : Prop where
  frontier : Lib.Frontier g.reachable g.deps (completedIds s.log)
    (s.state.ready.map Prod.snd ++ s.running.map Prod.fst) s.state.remainingDeps
  spawned_perm : (spawnedIds s.log).Perm (s.running.map Prod.fst ++ completedIds s.log)
  completed_eq : s.state.completed = (completedIds s.log).length
  dependents_eq : s.state.dependents = Lib.invert g.deps g.reachable
  readers_eq : ∀ d, s.state.remainingReaders d =
    if g.readers g.reachable d = 0 then none else some (g.readers (g.unspawned s.log) d)
  outcomes_eq : ∀ d, s.state.outcomes d =
    if g.readers g.reachable d = 0 ∨ g.readers (g.unspawned s.log) d ≠ 0 then loggedOutcome s.log d
    else none
  log_ordered : StartsAfterDeps g.deps s.log

variable {log : List (Event P)}

lemma loggedOutcome_isSome : (loggedOutcome log d).isSome = true ↔ d ∈ completedIds log := by
  induction log with
  | nil => simp [loggedOutcome, completedIds]
  | cons e log ih =>
    cases e with
    | spawned t => simpa [loggedOutcome, completedIds] using ih
    | completed t outcome =>
      by_cases htd : t = d
      · simp [loggedOutcome, completedIds, htd]
      · simp [loggedOutcome, completedIds, htd, Ne.symm htd, ih]

variable {among : List TargetId}

lemma count_le_readers (g : BuildGraph) (ht : t ∈ among) (d : TargetId) :
    (g.deps t).count d ≤ g.readers among d := by
  unfold BuildGraph.readers
  rw [Lib.length_incoming]
  have : (g.deps t).count d ≤ (among.map fun v => (g.deps v).count d).sum :=
    single_le_sum (fun _ _ => Nat.zero_le _) _ (mem_map_of_mem ht)
  omega

lemma runInv_start (depths : AList fun _ : TargetId => Nat) : RunInv (P := P) g
    { state := g.initialState depths, running := [], log := [] } where
  frontier := by
    have hready : (g.initialState (P := P) depths).ready.map Prod.snd =
        g.reachable.filter fun t => (g.deps t).length = 0 := by
      simp [BuildGraph.initialState, map_map, Function.comp_def]
    refine ⟨.nil, by simp [completedIds], fun t ht => ?_, ?_, fun t => ?_⟩
    · simp [BuildGraph.initialState, ht, completedIds]
    · simpa only [hready, map_nil, append_nil] using g.reachable_nodup.filter _
    · simp [BuildGraph.initialState, completedIds]
  spawned_perm := by simp [spawnedIds, completedIds]
  completed_eq := rfl
  dependents_eq := rfl
  readers_eq := by
    intro d
    simpa [BuildGraph.initialState, BuildGraph.unspawned, spawnedIds] using readers_new g d
  outcomes_eq := by
    simp [BuildGraph.initialState, loggedOutcome]
  log_ordered := trivial

/-! ## Spawning -/

variable {x : Nat × TargetId}

lemma popReady_spec {ready rest : List (Nat × TargetId)} (h : popReady ready = some (x, rest)) :
    ready.Perm (x :: rest) := by
  cases ready with
  | nil => cases h
  | cons y l =>
    obtain ⟨rfl, rfl⟩ := h
    refine perm_cons_erase ?_
    -- the best entry so far is always one of the list
    have key : ∀ (l : List (Nat × TargetId)) (b : Nat × TargetId),
        l.foldl (fun best y => if precedes y best then y else best) b ∈ b :: l := by
      intro l
      induction l with
      | nil => simp
      | cons z l ih =>
        intro b
        rw [foldl_cons]
        by_cases hz : precedes z b = true
        · simpa [hz] using .inr (mem_cons.mp (ih z))
        · have := mem_cons.mp (ih b)
          simp only [hz, mem_cons]
          tauto
    exact key l y

lemma popReady_eq_none {ready : List (Nat × TargetId)} (h : popReady ready = none) :
    ready = [] := by
  cases ready with
  | nil => rfl
  | cons y l => cases h

lemma RunInv.not_spawned (h : RunInv g s) (hx : x ∈ s.state.ready) : x.2 ∉ spawnedIds s.log := by
  have hready : x.2 ∈ s.state.ready.map Prod.snd := mem_map_of_mem hx
  have hactive := (h.frontier.active_iff x.2).mp (mem_append_left _ hready)
  rw [h.spawned_perm.mem_iff, mem_append, not_or]
  exact ⟨fun hrun => (nodup_append.mp h.frontier.active_nodup).2.2 _ hready _ hrun rfl, hactive.2.1⟩

lemma RunInv.serves (h : RunInv g s) (hx : x ∈ s.state.ready) (ready : List (Nat × TargetId)) :
    Serves (g.deps x.2) (s.state.withReady ready) := by
  intro d hd
  have hactive := (h.frontier.active_iff x.2).mp
    (mem_append_left _ (mem_map_of_mem hx))
  have hdone := (Lib.outstanding_eq_zero g.deps).mp hactive.2.2 d hd
  have hun : x.2 ∈ g.unspawned s.log := mem_filter.mpr ⟨hactive.1, by simpa using h.not_spawned hx⟩
  have hle := count_le_readers g hun d
  have hle' := count_le_readers g hactive.1 d
  have hpos := count_pos_iff.mpr hd
  refine ⟨⟨g.readers (g.unspawned s.log) d, ?_, hle⟩, ?_⟩
  · change s.state.remainingReaders d = _
    rw [h.readers_eq d, if_neg (by omega)]
  · change (s.state.outcomes d).isSome = true
    rw [h.outcomes_eq d, if_pos (.inr (by omega))]
    exact loggedOutcome_isSome.mpr hdone

lemma RunInv.spawn (h : RunInv g s) {rest : List (Nat × TargetId)}
    (hpop : popReady s.state.ready = some (x, rest)) (inputs : DependencyInputs P)
    {state : BuildState P} (hr : Reads (g.deps x.2) (s.state.withReady rest) state) :
    RunInv g {
      state := state
      running := s.running ++ [(x.2, inputs)]
      log := .spawned x.2 :: s.log } := by
  have hperm := popReady_spec hpop
  have hx : x ∈ s.state.ready := hperm.symm.subset mem_cons_self
  have hnew := h.not_spawned hx
  have hactive := (h.frontier.active_iff x.2).mp
    (mem_append_left _ (mem_map_of_mem hx))
  have hdone := (Lib.outstanding_eq_zero g.deps).mp hactive.2.2
  have hused : ∀ d, g.readers (g.unspawned (.spawned x.2 :: s.log)) d + (g.deps x.2).count d =
      g.readers (g.unspawned s.log) d := readers_filter_cons g hactive.1 hnew
  have htotal := fun d => count_le_readers g hactive.1 d
  refine ⟨?_, ?_, ?_, ?_, ?_, ?_, ⟨hdone, h.log_ordered⟩⟩
  · have hready : state.ready = rest := hr.same_ready
    have hdeps : state.remainingDeps = s.state.remainingDeps := hr.same_deps
    rw [hready, hdeps, map_append]
    refine h.frontier.perm ?_
    have hmap := (hperm.map Prod.snd).append_right (s.running.map Prod.fst)
    refine Perm.trans ?_ hmap.symm
    rw [← append_assoc]
    exact perm_append_singleton _ _
  · rw [map_append, append_assoc]
    exact (Perm.cons x.2 h.spawned_perm).trans perm_middle.symm
  · exact hr.same_completed.trans h.completed_eq
  · exact hr.same_dependents.trans h.dependents_eq
  · intro d
    have hold := h.readers_eq d
    by_cases hzero : g.readers g.reachable d = 0
    · rw [if_pos hzero] at hold ⊢
      exact hr.readers_none d hold
    · rw [if_neg hzero] at hold ⊢
      rw [hr.readers d _ hold, ← hused d, Nat.add_sub_cancel]
  · intro d
    have hold := h.outcomes_eq d
    have hcount := h.readers_eq d
    have hsum := hused d
    change state.outcomes d =
      if g.readers g.reachable d = 0 ∨ g.readers (g.unspawned (.spawned x.2 :: s.log)) d ≠ 0
      then loggedOutcome s.log d else none
    by_cases hd : d ∈ g.deps x.2
    · have hpos := count_pos_iff.mpr hd
      have hle := htotal d
      rw [if_neg (by omega)] at hcount
      rw [if_pos (.inr (by omega))] at hold
      rw [hr.outcomes d _ hcount]
      by_cases hlast : g.readers (g.unspawned (.spawned x.2 :: s.log)) d = 0
      · rw [if_pos ⟨hd, by omega⟩, if_neg (by omega)]
      · rw [if_neg (by omega), if_pos (.inr hlast)]
        exact hold
    · have hzero := count_eq_zero_of_not_mem hd
      rw [hzero, Nat.add_zero] at hsum
      rw [hr.outcomes_other d hd, hsum]
      exact hold

/-- Spawning never fails and fills the window unless the heap runs out. -/
lemma spawnReady_ok (fuel : Nat) (h : RunInv g s) :
    ∃ s', spawnReady g fuel s = .ok s' ∧ RunInv g s' ∧ s'.state.completed = s.state.completed ∧
      (s.state.ready.length ≤ fuel → s'.state.ready = [] ∨ g.maxInFlight ≤ s'.running.length) := by
  induction fuel generalizing s with
  | zero => exact ⟨s, rfl, h, rfl, fun hle => .inl (length_eq_zero_iff.mp (by omega))⟩
  | succ fuel ih =>
    by_cases hwindow : s.running.length < g.maxInFlight
    case neg => exact ⟨s, by simp [spawnReady, hwindow], h, rfl, fun _ => .inr (by omega)⟩
    cases hpop : popReady s.state.ready with
    | none =>
      exact ⟨s, by simp [spawnReady, hwindow, hpop], h, rfl, fun _ => .inl (popReady_eq_none hpop)⟩
    | some popped =>
      obtain ⟨x, rest⟩ := popped
      have hperm := popReady_spec hpop
      have hx : x ∈ s.state.ready := hperm.symm.subset mem_cons_self
      have hmem := ((h.frontier.active_iff x.2).mp
        (mem_append_left _ (mem_map_of_mem hx))).1
      obtain ⟨target, htarget⟩ := Option.isSome_iff_exists.mp (g.reachable_mem x.2 hmem)
      have hdeps : g.deps x.2 = target.dependencyIds.filter (· ∈ g.reachable) := by
        simp [BuildGraph.deps, reachableDeps, htarget]
      obtain ⟨inputs, state, hinputs, hr⟩ := dependencyInputs_ok (hdeps ▸ h.serves hx rest)
      obtain ⟨s', hrun, hinv, hcompleted, hfull⟩ := ih (h.spawn hpop inputs (hdeps ▸ hr))
      refine ⟨s', ?_, hinv, hcompleted.trans hr.same_completed, fun hle => hfull ?_⟩
      · simp only [spawnReady, hwindow, if_true, hpop, htarget, hinputs, hrun]
      · have hlen : s.state.ready.length = rest.length + 1 := by simpa using hperm.length_eq
        have hready : state.ready = rest := hr.same_ready
        simp only [hready]
        omega

/-! ## Joining -/

lemma StartsAfterDeps.completed {deps : TargetId → List TargetId} (h : StartsAfterDeps deps log)
    (ht : t ∈ spawnedIds log) (hd : d ∈ deps t) : d ∈ completedIds log := by
  induction log with
  | nil => cases ht
  | cons e log ih =>
    cases e with
    | spawned v =>
      rcases mem_cons.mp ht with rfl | ht
      · exact h.1 d hd
      · exact ih h.2 ht
    | completed v outcome => exact mem_cons_of_mem v (ih h ht)

lemma readers_eq_zero_iff : g.readers among d = 0 ↔ d ∉ g.retained ∧ ∀ t ∈ among, d ∉ g.deps t := by
  unfold BuildGraph.readers
  rw [Nat.add_eq_zero_iff, length_eq_zero_iff, eq_nil_iff_forall_not_mem]
  simp only [Lib.mem_incoming, not_and, ite_eq_right_iff, one_ne_zero, imp_false]
  exact and_comm

lemma RunInv.readers_pending (h : RunInv g s) (hd : d ∉ completedIds s.log)
    (hread : g.readers g.reachable d ≠ 0) : g.readers (g.unspawned s.log) d ≠ 0 := by
  intro hzero
  obtain ⟨hret, hnone⟩ := readers_eq_zero_iff.mp hzero
  refine hread (readers_eq_zero_iff.mpr ⟨hret, fun t ht hdt => ?_⟩)
  by_cases hspawned : t ∈ spawnedIds s.log
  · exact hd (h.log_ordered.completed hspawned hdt)
  · exact hnone t (mem_filter.mpr ⟨ht, by simpa using hspawned⟩) hdt

lemma map_fst_eraseP {β : Type} (l : List (TargetId × β)) (t : TargetId) :
    (l.eraseP fun task => task.1 == t).map Prod.fst = (l.map Prod.fst).erase t := by
  induction l with
  | nil => rfl
  | cons x l ih =>
    by_cases hx : x.1 = t
    · simp [hx]
    · simp [hx, ih]

variable {task : TargetId × DependencyInputs P}

/-- Recording a completion never fails and keeps the invariant. -/
lemma RunInv.complete (h : RunInv g s) (htask : task ∈ s.running) (outcome : BuildOutcome P) :
    ∃ state, s.state.recordCompletion task.1 outcome = .ok state ∧
      state.completed = s.state.completed + 1 ∧
      RunInv g {
        state := state
        running := s.running.eraseP fun other => other.1 == task.1
        log := .completed task.1 outcome :: s.log } := by
  obtain ⟨t, inputs⟩ := task
  have hrunning : t ∈ s.running.map Prod.fst := mem_map_of_mem htask
  have hactive : t ∈ s.state.ready.map Prod.snd ++ s.running.map Prod.fst :=
    mem_append_right _ hrunning
  have hfresh := ((h.frontier.active_iff t).mp hactive).2.1
  have hnotready : t ∉ s.state.ready.map Prod.snd := fun hin =>
    (nodup_append.mp h.frontier.active_nodup).2.2 t hin t hrunning rfl
  obtain ⟨remaining, pushed, hrun, hfront⟩ := h.frontier.complete hactive
    (Lib.count_incoming g.deps g.reachable_nodup t)
  refine ⟨{ s.state with
      remainingDeps := remaining
      ready := s.state.ready ++ pushed.map fun v => ((s.state.criticalDepths.lookup v).getD 1, v)
      outcomes := Function.update s.state.outcomes t (some outcome)
      completed := s.state.completed + 1 }, ?_, rfl, ⟨?_, ?_, ?_, h.dependents_eq, h.readers_eq, ?_,
        h.log_ordered⟩⟩
  · simp only [BuildState.recordCompletion, h.dependents_eq,
      (Lib.tabulates_invert g.deps g.reachable).getD t, hrun]
  · refine hfront.perm ?_
    have hpushed : (pushed.map fun v =>
      ((s.state.criticalDepths.lookup v).getD 1, v)).map Prod.snd =
        pushed := by simp [map_map, Function.comp_def]
    simp only [map_append, hpushed, map_fst_eraseP]
    rw [erase_append_right _ hnotready, append_assoc, append_assoc]
    exact perm_append_comm.append_left _
  · simp only [map_fst_eraseP, spawnedIds, completedIds]
    refine h.spawned_perm.trans ?_
    have := (perm_cons_erase hrunning).append_right (completedIds s.log)
    exact this.trans perm_middle.symm
  · simp [completedIds, h.completed_eq]
  · intro d
    change Function.update s.state.outcomes t (some outcome) d =
      if g.readers g.reachable d = 0 ∨ g.readers (g.unspawned s.log) d ≠ 0 then
        (if t = d then some outcome else loggedOutcome s.log d) else none
    by_cases hd : d = t
    · subst hd
      have hkept : g.readers g.reachable d = 0 ∨ g.readers (g.unspawned s.log) d ≠ 0 :=
        (em _).imp_right (h.readers_pending hfresh)
      rw [if_pos hkept]
      simp
    · rw [Function.update_of_ne hd, if_neg (Ne.symm hd)]
      exact h.outcomes_eq d

lemma RunInv.join_ok (h : RunInv g s) (htask : task ∈ s.running) (outcome : BuildOutcome P) :
    ∃ s', s.join g task.1 outcome = .ok s' ∧ RunInv g s' ∧
      s'.state.completed = s.state.completed + 1 ∧
      (s'.state.ready = [] ∨ g.maxInFlight ≤ s'.running.length) := by
  obtain ⟨state, hrecord, hcompleted, hinv⟩ := h.complete htask outcome
  obtain ⟨s', hspawn, hinv', hsame, hfull⟩ := spawnReady_ok state.ready.length hinv
  exact ⟨s', by simp only [RunState.join, hrecord, hspawn], hinv', hsame.trans hcompleted,
    hfull le_rfl⟩

lemma start_ok (hacyclic : ¬ Lib.Cyclic g.deps g.reachable) :
    ∃ s : RunState P, start g = .ok s ∧ RunInv g s ∧
      (s.state.ready = [] ∨ g.maxInFlight ≤ s.running.length) := by
  rcases new_cases (P := P) g with ⟨-, depths, hnew⟩ | ⟨hcycle, -⟩
  · obtain ⟨s, hspawn, hinv, -, hfull⟩ := spawnReady_ok _ (runInv_start depths)
    exact ⟨s, by simp only [start, hnew]; exact hspawn, hinv, hfull le_rfl⟩
  · exact absurd hcycle hacyclic

/-! ## Whole runs -/

lemma Reaches.acyclic (h : Reaches g s) : ¬ Lib.Cyclic g.deps g.reachable := by
  induction h with
  | start h =>
    intro hcycle
    rcases new_cases (P := P) g with ⟨hacyclic, -⟩ | ⟨-, t, hnew⟩
    · exact hacyclic hcycle
    · simp [Scheduler.start, hnew] at h
  | join _ _ _ _ ih => exact ih

lemma Reaches.inv (h : Reaches g s) :
    RunInv g s ∧ (s.state.ready = [] ∨ g.maxInFlight ≤ s.running.length) := by
  induction h with
  | start h =>
    obtain ⟨s', hs', hinv⟩ := start_ok (P := P) (Reaches.start h).acyclic
    obtain rfl : _ = s' := by simpa [h] using hs'
    exact hinv
  | @join _ _ _ outcome _ _ hrunning hstep ih =>
    obtain ⟨s', hs', hinv, -, hfull⟩ := ih.1.join_ok hrunning outcome
    obtain rfl : _ = s' := by simpa [hstep] using hs'
    exact ⟨hinv, hfull⟩

lemma Reaches.running_ne_nil (h : Reaches g s)
    (hunfinished : s.state.completed < g.reachable.length) : s.running ≠ [] := by
  intro hnil
  obtain ⟨hinv, hfull⟩ := h.inv
  have hready : s.state.ready = [] := by
    refine hfull.resolve_right fun hle => ?_
    have := g.maxInFlight_pos
    simp [hnil] at hle
    omega
  have hfront := hinv.frontier
  rw [hready, hnil] at hfront
  have hall := (hfront.finished_iff fun v _ u hu => mem_deps_reachable hu).mpr h.acyclic
  have hlen := (g.reachable_nodup.subperm hall).length_le
  have := hinv.completed_eq
  omega

lemma loggedOutcome_mem {outcome : BuildOutcome P} (h : loggedOutcome log d = some outcome) :
    Event.completed d outcome ∈ log := by
  induction log with
  | nil => cases h
  | cons e log ih =>
    cases e with
    | spawned t => exact mem_cons_of_mem _ (ih h)
    | completed t o =>
      by_cases htd : t = d
      · simp only [loggedOutcome, htd, if_true, Option.some.injEq] at h
        simp [htd, h]
      · simp only [loggedOutcome, htd, if_false] at h
        exact mem_cons_of_mem _ (ih h)

lemma RunInv.dropped_iff (h : RunInv g s) (hd : d ∈ completedIds s.log) :
    s.state.outcomes d = none ↔ d ∉ g.retained ∧ (∃ t ∈ g.reachable, d ∈ g.deps t) ∧
      ∀ t ∈ g.reachable, d ∈ g.deps t → t ∈ spawnedIds s.log := by
  have hsome := loggedOutcome_isSome.mpr hd
  have hpending : g.readers (g.unspawned s.log) d = 0 ↔ d ∉ g.retained ∧
      ∀ t ∈ g.reachable, d ∈ g.deps t → t ∈ spawnedIds s.log := by
    rw [readers_eq_zero_iff]
    refine and_congr_right fun _ => ⟨fun hall t ht hdt => ?_, fun hall t ht hdt => ?_⟩
    · by_contra hns
      exact hall t (mem_filter.mpr ⟨ht, by simpa using hns⟩) hdt
    · rcases mem_filter.mp ht with ⟨ht, hns⟩
      simp only [decide_eq_true_eq] at hns
      exact hns (hall t ht hdt)
  rw [h.outcomes_eq d]
  by_cases htotal : g.readers g.reachable d = 0
  · rw [if_pos (.inl htotal)]
    have hno := (readers_eq_zero_iff.mp htotal).2
    constructor
    · intro hnone
      simp [hnone] at hsome
    · rintro ⟨-, ⟨t, ht, hdt⟩, -⟩
      exact absurd hdt (hno t ht)
  · by_cases hzero : g.readers (g.unspawned s.log) d = 0
    · rw [if_neg (by tauto)]
      obtain ⟨hret, hall⟩ := hpending.mp hzero
      refine iff_of_true rfl ⟨hret, ?_, hall⟩
      by_contra hno
      exact htotal (readers_eq_zero_iff.mpr ⟨hret, fun t ht hdt => hno ⟨t, ht, hdt⟩⟩)
    · rw [if_pos (.inr hzero)]
      refine iff_of_false (fun hnone => by simp [hnone] at hsome) ?_
      rintro ⟨hret, -, hall⟩
      exact hzero (hpending.mpr ⟨hret, hall⟩)

/-- Graph build scheduling is safe and keeps every outcome that a reader needs: over every order of
completions, no step of the loop fails, and the loop ends after as many joins as there are
targets. -/
theorem scheduling_safe (g : BuildGraph) (P : Type) :
    ((∃ e, (BuildState.new g.targets g.reachable g.retained : Except BuildError (BuildState P)) =
        .error e) ↔ Lib.Cyclic g.deps g.reachable) ∧
    (¬ Lib.Cyclic g.deps g.reachable → ∃ s : RunState P, start g = .ok s) ∧
    ∀ s : RunState P, Reaches g s → (∀ newer t older, s.log = newer ++ .spawned t :: older →
        (∀ d ∈ g.deps t, ∃ outcome, .completed d outcome ∈ older) ∧ .spawned t ∉ older) ∧
      (∀ d outcome, .completed d outcome ∈ s.log → (s.state.outcomes d = none ↔
        d ∉ g.retained ∧ (∃ t ∈ g.reachable, d ∈ g.deps t) ∧
          ∀ t ∈ g.reachable, d ∈ g.deps t → .spawned t ∈ s.log)) ∧
      (s.state.completed < g.reachable.length → s.running ≠ [] ∧
        ∀ task ∈ s.running, ∀ outcome, ∃ s', s.join g task.1 outcome = .ok s' ∧
          s'.state.completed = s.state.completed + 1) ∧
      (¬ s.state.completed < g.reachable.length → ∀ t ∈ g.retained,
        ∃ outcome, s.state.outcomes t = some outcome ∧ .completed t outcome ∈ s.log) := by
  refine ⟨?_, fun hacyclic => ?_, fun s hs => ?_⟩
  · rcases new_cases (P := P) g with ⟨hacyclic, depths, hnew⟩ | ⟨hcycle, t, hnew⟩
    · refine iff_of_false ?_ hacyclic
      rintro ⟨e, he⟩
      simp [hnew] at he
    · exact iff_of_true ⟨_, hnew⟩ hcycle
  · obtain ⟨s, hs, -⟩ := start_ok hacyclic
    exact ⟨s, hs⟩
  · have hinv := hs.inv.1
    refine ⟨?_, ?_, ?_, ?_⟩
    · intro newer t older hlog
      refine ⟨fun d hd => ?_, fun hin => ?_⟩
      · have := hinv.log_ordered
        rw [hlog] at this
        exact mem_completedIds.mp (this.of_append d hd)
      · -- the spawned ids are the running and completed ones, so they are distinct
        have hnodup : (spawnedIds s.log).Nodup := by
          rw [hinv.spawned_perm.nodup_iff]
          refine nodup_append.mpr ⟨(nodup_append.mp hinv.frontier.active_nodup).2.1,
            hinv.frontier.ordered.nodup, ?_⟩
          rintro v hv _ hv' rfl
          exact ((hinv.frontier.active_iff v).mp (mem_append_right _ hv)).2.1 hv'
        have hsplit : ∀ l : List (Event P), spawnedIds (l ++ .spawned t :: older) =
            spawnedIds l ++ t :: spawnedIds older := by
          intro l
          induction l with
          | nil => rfl
          | cons e l ih => cases e <;> simp [spawnedIds, ih]
        rw [hlog, hsplit] at hnodup
        exact (nodup_cons.mp (nodup_append.mp hnodup).2.1).1 (mem_spawnedIds.mpr hin)
    · intro d outcome hd
      simpa only [mem_spawnedIds] using hinv.dropped_iff (mem_completedIds.mpr ⟨outcome, hd⟩)
    · intro hunfinished
      refine ⟨hs.running_ne_nil hunfinished, fun task htask outcome => ?_⟩
      obtain ⟨s', hjoin, -, hcompleted, -⟩ := hinv.join_ok htask outcome
      exact ⟨s', hjoin, hcompleted⟩
    · intro hfinished t ht
      have hle := hinv.frontier.length_le
      have hall := hinv.frontier.finished_of_length (by have := hinv.completed_eq; omega)
      have hdone := hall t (g.retained_mem t ht)
      have hpending : g.readers (g.unspawned s.log) t ≠ 0 := by
        simp [BuildGraph.readers, ht]
      obtain ⟨outcome, houtcome⟩ := Option.isSome_iff_exists.mp (loggedOutcome_isSome.mpr hdone)
      refine ⟨outcome, ?_, loggedOutcome_mem houtcome⟩
      rw [hinv.outcomes_eq t, if_pos (.inr hpending), houtcome]

end OnceBuild.Scheduler
