import Mathlib.Data.List.AList
import Mathlib.Data.String.Basic
import OnceBuild.Lib.Adjacency
import OnceBuild.Lib.Countdown

/-!
# Ranking targets by critical depth

Model of `critical_depths`: a traversal from the targets nothing depends on towards their
dependencies.  It visits every target exactly when the graph has no cycle, which is how the
scheduler detects one, and the depth it finds for a target is the length of the longest chain of
dependents above it.
-/

namespace OnceBuild.Scheduler

open List

abbrev TargetId := String

/-- The ways in which scheduling can fail.  `panicked` stands for `expect` on a missing counter and
for a counter that would go below zero. -/
inductive BuildError where
  | vanished (target : TargetId)
  | cycleWhileRanking (target : TargetId)
  | cycleWhileBuilding (root : TargetId)
  | missingDependencyCount (target : TargetId)
  | missingReaderCount (target : TargetId)
  | noRemainingReaders (target : TargetId)
  | missingOutcome (target : TargetId)
  | panicked (fault : Lib.CountFault TargetId)
  deriving DecidableEq

/-- The dependents of a target that belong to the build. -/
def nextTargets (reachable : List TargetId) (dependents : TargetId → Option (List TargetId))
    (t : TargetId) : List TargetId :=
  ((dependents t).getD []).filter (· ∈ reachable)

/-- Variables of the second loop of `critical_depths`; the top of the stack comes first. -/
structure Ranking where
  ready : List TargetId
  remaining : TargetId → Option Nat
  depths : AList fun _ : TargetId => Nat
  pendingDepths : TargetId → Option Nat

/-- State after the first loop of `critical_depths`. -/
def Ranking.start (reachable : List TargetId) (next : TargetId → List TargetId) : Ranking where
  ready := (reachable.filter fun t => (next t).length = 0).reverse
  remaining := fun t => if t ∈ reachable then some (next t).length else none
  depths := ∅
  pendingDepths := fun _ => none

/-- One round for the popped target `t`.  The depths and the counters of the predecessors are
independent of each other, so the inner loop is split in two. -/
def Ranking.visit (predecessors : TargetId → Option (List TargetId)) (r : Ranking) (t : TargetId)
    (ready : List TargetId) : Except BuildError Ranking :=
  let depth := (r.pendingDepths t).getD 1
  let previous := (predecessors t).getD []
  match Lib.countdown r.remaining previous with
  | .error fault => .error (.panicked fault)
  | .ok (remaining, pushed) =>
    .ok {
      ready := pushed.reverse ++ ready
      remaining := remaining
      depths := r.depths.insert t depth
      pendingDepths := previous.foldl
        (fun pending p => Function.update pending p (some (max ((pending p).getD 1) (depth + 1))))
        (Function.update r.pendingDepths t none) }

/-- `while let Some(target_id) = ready.pop()`. -/
def Ranking.loop (predecessors : TargetId → Option (List TargetId)) :
    Nat → Ranking → Except BuildError Ranking
  | 0, r => .ok r
  | fuel + 1, r =>
    match r.ready with
    | [] => .ok r
    | t :: ready =>
      match r.visit predecessors t ready with
      | .error e => .error e
      | .ok r => Ranking.loop predecessors fuel r

/-- `critical_depths`.  No target is popped twice, so as many rounds as targets are enough. -/
def criticalDepths (reachable : List TargetId) (dependents : TargetId → Option (List TargetId)) :
    Except BuildError (AList fun _ : TargetId => Nat) :=
  let next := nextTargets reachable dependents
  match (Ranking.start reachable next).loop (Lib.invert next reachable) reachable.length with
  | .error e => .error e
  | .ok r =>
    if r.depths.keys.length ≠ reachable.length then
      .error (.cycleWhileRanking
        (((reachable.filter (· ∉ r.depths.keys)).min?).getD ""))
    else .ok r.depths

/-! ## Depths -/

/-- A chain of so many edges starts at the target. -/
inductive Chain (next : TargetId → List TargetId) : TargetId → Nat → Prop
  | here (t : TargetId) : Chain next t 0
  | step {t u : TargetId} {n : Nat} : u ∈ next t → Chain next u n → Chain next t (n + 1)

/-- The depth of a target is one more than the edges of the longest chain at it. -/
def IsDepth (next : TargetId → List TargetId) (t : TargetId) (depth : Nat) : Prop :=
  ∃ edges, depth = edges + 1 ∧ IsGreatest {n | Chain next t n} edges

/-- The depths that a target has from those of its dependents that were visited. -/
def Ranking.soFar (next : TargetId → List TargetId) (r : Ranking) (t : TargetId) : Set Nat :=
  {m | m = 1 ∨ ∃ u ∈ next t, ∃ depth, r.depths.lookup u = some depth ∧ m = depth + 1}

structure Ranking.Ranked (reachable : List TargetId) (next : TargetId → List TargetId)
    (r : Ranking) : Prop where
  depths : ∀ t depth, r.depths.lookup t = some depth → IsDepth next t depth
  pending : ∀ t ∈ reachable, t ∉ r.depths.keys →
    IsGreatest (r.soFar next t) ((r.pendingDepths t).getD 1)

variable {reachable : List TargetId} {next : TargetId → List TargetId}

variable {r : Ranking} {t : TargetId}

lemma Ranking.Ranked.isDepth (h : r.Ranked reachable next) (ht : t ∈ reachable)
    (hfresh : t ∉ r.depths.keys) (hall : ∀ u ∈ next t, u ∈ r.depths.keys) :
    IsDepth next t ((r.pendingDepths t).getD 1) := by
  obtain ⟨hmem, hbound⟩ := h.pending t ht hfresh
  have hchain : ∀ n, Chain next t n → n + 1 ≤ (r.pendingDepths t).getD 1 := by
    intro n hn
    cases hn with
    | here => exact hbound (.inl rfl)
    | @step _ u n hu hn =>
      obtain ⟨depth, hdepth⟩ := Option.isSome_iff_exists.mp
        (AList.lookup_isSome.mpr (AList.mem_keys.mpr (hall u hu)))
      obtain ⟨edges, rfl, hgreatest⟩ := h.depths u depth hdepth
      have hle : n ≤ edges := hgreatest.2 hn
      have hm : edges + 1 + 1 ≤ (r.pendingDepths t).getD 1 :=
        hbound (.inr ⟨u, hu, edges + 1, hdepth, rfl⟩)
      omega
  rcases hmem with hone | ⟨u, hu, depth, hdepth, heq⟩
  · refine ⟨0, hone, .here t, fun n hn => ?_⟩
    have hle := hchain n hn
    omega
  · obtain ⟨edges, rfl, hgreatest⟩ := h.depths u depth hdepth
    refine ⟨edges + 1, heq, Chain.step hu hgreatest.1, fun n hn => ?_⟩
    have hle := hchain n hn
    omega

lemma getD_foldl_max (previous : List TargetId) (pending : TargetId → Option Nat) (depth : Nat)
    (p : TargetId) :
    ((previous.foldl (fun pending p => Function.update pending p
      (some (max ((pending p).getD 1) (depth + 1)))) pending) p).getD 1 =
        if p ∈ previous then max ((pending p).getD 1) (depth + 1) else (pending p).getD 1 := by
  induction previous generalizing pending with
  | nil => simp
  | cons x previous ih =>
    rw [foldl_cons, ih]
    by_cases hpx : p = x
    · subst hpx
      simp
    · simp [hpx]

/-! ## The traversal completes exactly on acyclic graphs -/

lemma Ranking.Ranked.visit {r' : Ranking} (h : r.Ranked reachable next)
    (hfront : Lib.Frontier reachable next r.depths.keys r.ready r.remaining) (ht : t ∈ r.ready)
    (hdepths : r'.depths = r.depths.insert t ((r.pendingDepths t).getD 1))
    (hpending : r'.pendingDepths = (Lib.incoming next reachable t).foldl
      (fun pending p => Function.update pending p
        (some (max ((pending p).getD 1) ((r.pendingDepths t).getD 1 + 1))))
      (Function.update r.pendingDepths t none)) : r'.Ranked reachable next := by
  obtain ⟨hreachable, hfresh, hzero⟩ := (hfront.active_iff t).mp ht
  have hdepth := h.isDepth hreachable hfresh ((Lib.outstanding_eq_zero next).mp hzero)
  have hlookup : ∀ u, r'.depths.lookup u =
      if u = t then some ((r.pendingDepths t).getD 1) else r.depths.lookup u := by
    intro u
    rw [hdepths]
    split
    case isTrue heq => rw [heq, AList.lookup_insert]
    case isFalse hne => rw [AList.lookup_insert_ne hne]
  constructor
  · intro u depth hu
    rw [hlookup u] at hu
    split at hu
    case isTrue heq =>
      obtain rfl := Option.some.inj hu
      exact heq ▸ hdepth
    case isFalse => exact h.depths u depth hu
  · intro p hp hnew
    rw [hdepths, AList.keys_insert, erase_of_not_mem hfresh, mem_cons, not_or] at hnew
    obtain ⟨hpt, hpd⟩ := hnew
    obtain ⟨hmem, hbound⟩ := h.pending p hp hpd
    have hsoFar : r'.soFar next p = r.soFar next p ∪
        {m | t ∈ next p ∧ m = (r.pendingDepths t).getD 1 + 1} := by
      ext m
      constructor
      · rintro (hone | ⟨u, hu, depth, hlook, rfl⟩)
        · exact .inl (.inl hone)
        · rw [hlookup u] at hlook
          split at hlook
          case isTrue heq => exact .inr ⟨heq ▸ hu, congrArg (· + 1) (Option.some.inj hlook).symm⟩
          case isFalse => exact .inl (.inr ⟨u, hu, depth, hlook, rfl⟩)
      · rintro ((hone | ⟨u, hu, depth, hlook, rfl⟩) | ⟨hnext, rfl⟩)
        · exact .inl hone
        · refine .inr ⟨u, hu, depth, ?_, rfl⟩
          rw [hlookup u, if_neg, hlook]
          rintro rfl
          exact hfresh (AList.mem_keys.mp (AList.lookup_isSome.mp (by rw [hlook]; rfl)))
        · exact .inr ⟨t, hnext, _, by rw [hlookup t, if_pos rfl], rfl⟩
    rw [hpending, getD_foldl_max, Function.update_of_ne hpt, hsoFar]
    simp only [Lib.mem_incoming, hp, true_and]
    split
    case isTrue hnext =>
      refine ⟨?_, fun m hm => ?_⟩
      · rcases max_choice ((r.pendingDepths p).getD 1)
          ((r.pendingDepths t).getD 1 + 1) with hmax | hmax
        · exact .inl (hmax.symm ▸ hmem)
        · exact .inr ⟨hnext, hmax⟩
      · rcases hm with hm | ⟨-, rfl⟩
        · exact le_max_of_le_left (hbound hm)
        · exact le_max_right _ _
    case isFalse hnext =>
      refine ⟨.inl hmem, fun m hm => ?_⟩
      rcases hm with hm | ⟨hm, -⟩
      · exact hbound hm
      · exact absurd hm hnext

lemma Ranking.visit_ok (hnodup : reachable.Nodup) {ready : List TargetId}
    (hready : r.ready = t :: ready)
    (h : Lib.Frontier reachable next r.depths.keys r.ready r.remaining)
    (hranked : r.Ranked reachable next) :
    ∃ r', r.visit (Lib.invert next reachable) t ready = .ok r' ∧
      r'.depths.keys = t :: r.depths.keys ∧
      Lib.Frontier reachable next r'.depths.keys r'.ready r'.remaining ∧
      r'.Ranked reachable next := by
  have hmem : t ∈ r.ready := by simp [hready]
  have htd : t ∉ r.depths.keys := ((h.active_iff t).mp hmem).2.1
  obtain ⟨remaining, pushed, hrun, hfront⟩ := h.complete hmem (Lib.count_incoming next hnodup t)
  have hkeys : (r.depths.insert t ((r.pendingDepths t).getD 1)).keys = t :: r.depths.keys := by
    rw [AList.keys_insert, erase_of_not_mem htd]
  obtain ⟨r', hvisit, hready', hremaining, hdepths, hpending⟩ :
      ∃ r', r.visit (Lib.invert next reachable) t ready = .ok r' ∧
        r'.ready = pushed.reverse ++ ready ∧ r'.remaining = remaining ∧
        r'.depths = r.depths.insert t ((r.pendingDepths t).getD 1) ∧
        r'.pendingDepths = (Lib.incoming next reachable t).foldl
          (fun pending p => Function.update pending p
            (some (max ((pending p).getD 1) ((r.pendingDepths t).getD 1 + 1))))
          (Function.update r.pendingDepths t none) := by
    simp only [Ranking.visit, (Lib.tabulates_invert next reachable).getD t, hrun]
    exact ⟨_, rfl, rfl, rfl, rfl, rfl⟩
  refine ⟨r', hvisit, by rw [hdepths, hkeys], ?_, hranked.visit h hmem hdepths hpending⟩
  rw [hdepths, hkeys, hready', hremaining]
  refine hfront.perm ?_
  rw [hready, erase_cons_head]
  exact ((reverse_perm pushed).append_right ready).trans perm_append_comm

lemma Ranking.loop_ok (hnodup : reachable.Nodup) (fuel : Nat)
    (h : Lib.Frontier reachable next r.depths.keys r.ready r.remaining)
    (hranked : r.Ranked reachable next) (hfuel : reachable.length ≤ fuel + r.depths.keys.length) :
    ∃ r', r.loop (Lib.invert next reachable) fuel = .ok r' ∧
      Lib.Frontier reachable next r'.depths.keys [] r'.remaining ∧ r'.Ranked reachable next := by
  induction fuel generalizing r with
  | zero =>
    -- every target has a depth, so none is left on the stack
    have hall := h.finished_of_length (le_antisymm h.length_le (by omega))
    have hnil : r.ready = [] := by
      refine eq_nil_iff_forall_not_mem.mpr fun t ht => ?_
      obtain ⟨hv, hd, -⟩ := (h.active_iff t).mp ht
      exact hd (hall t hv)
    exact ⟨r, rfl, hnil ▸ h, hranked⟩
  | succ fuel ih =>
    cases hready : r.ready with
    | nil => exact ⟨r, by simp [Ranking.loop, hready], hready ▸ h, hranked⟩
    | cons t ready =>
      obtain ⟨r', hvisit, hkeys, hfront, hranked'⟩ := Ranking.visit_ok hnodup hready h hranked
      obtain ⟨r'', hloop, hdone⟩ := ih hfront hranked' (by simp [hkeys]; omega)
      exact ⟨r'', by simp [Ranking.loop, hready, hvisit, hloop], hdone⟩

lemma Ranking.frontier_start (next : TargetId → List TargetId) (hnodup : reachable.Nodup) :
    Lib.Frontier reachable next (Ranking.start reachable next).depths.keys
      (Ranking.start reachable next).ready (Ranking.start reachable next).remaining where
  ordered := .nil
  done_mem := by simp [Ranking.start]
  counts := by
    intro t ht
    simp [Ranking.start, ht]
  active_nodup := nodup_reverse.mpr (hnodup.filter _)
  active_iff := by
    simp [Ranking.start]

lemma Ranking.ranked_start (reachable : List TargetId) (next : TargetId → List TargetId) :
    (Ranking.start reachable next).Ranked reachable next where
  depths t depth h := by simp [Ranking.start] at h
  pending t _ _ := by
    refine ⟨.inl rfl, fun m hm => ?_⟩
    rcases hm with rfl | ⟨u, -, depth, hdepth, -⟩
    · exact le_rfl
    · simp [Ranking.start] at hdepth

/-- Ranking succeeds exactly on acyclic graphs, and its only failure is the cycle it reports. -/
lemma criticalDepths_cases (hnodup : reachable.Nodup)
    (dependents : TargetId → Option (List TargetId)) :
    (¬ Lib.Cyclic (nextTargets reachable dependents) reachable ∧
        ∃ depths, criticalDepths reachable dependents = .ok depths ∧
          (∀ t, t ∈ depths ↔ t ∈ reachable) ∧
          ∀ t depth, depths.lookup t = some depth →
            IsDepth (nextTargets reachable dependents) t depth) ∨
      (Lib.Cyclic (nextTargets reachable dependents) reachable ∧
        ∃ t, criticalDepths reachable dependents = .error (.cycleWhileRanking t)) := by
  obtain ⟨r, hloop, hfront, hranked⟩ := Ranking.loop_ok hnodup reachable.length
    (Ranking.frontier_start (nextTargets reachable dependents) hnodup)
    (Ranking.ranked_start reachable (nextTargets reachable dependents)) (Nat.le_add_right _ _)
  have hclosed : ∀ v ∈ reachable, ∀ u ∈ nextTargets reachable dependents v, u ∈ reachable := by
    intro v _ u hu
    simpa using (mem_filter.mp hu).2
  have hiff := hfront.finished_iff hclosed
  by_cases hlen : r.depths.keys.length = reachable.length
  · have hall := hfront.finished_of_length hlen
    exact .inl ⟨hiff.mp hall, r.depths, by simp [criticalDepths, hloop, hlen],
      fun t => ⟨hfront.done_mem t, hall t⟩, hranked.depths⟩
  · refine .inr ⟨?_, _, by simp [criticalDepths, hloop, hlen]; rfl⟩
    by_contra hacyclic
    have hall := hiff.mpr hacyclic
    exact hlen (le_antisymm hfront.length_le (hnodup.subperm hall).length_le)

/-- The targets are ranked exactly when there is no cycle, and then each of them by the longest
chain of dependents at it. -/
theorem criticalDepths_longest (hnodup : reachable.Nodup)
    (dependents : TargetId → Option (List TargetId)) :
    ((∃ depths, criticalDepths reachable dependents = .ok depths) ↔
      ¬ Lib.Cyclic (nextTargets reachable dependents) reachable) ∧
    ∀ depths, criticalDepths reachable dependents = .ok depths → (∀ t, t ∈ depths ↔ t ∈ reachable) ∧
      ∀ t ∈ reachable, ∃ edges, depths.lookup t = some (edges + 1) ∧
        IsGreatest {n | Chain (nextTargets reachable dependents) t n} edges := by
  rcases criticalDepths_cases hnodup dependents with
    ⟨hacyclic, depths, hrun, hmem, hdepths⟩ | ⟨hcycle, t, hrun⟩
  · refine ⟨⟨fun _ => hacyclic, fun _ => ⟨depths, hrun⟩⟩, fun depths' hrun' => ?_⟩
    obtain rfl := Except.ok.inj (hrun.symm.trans hrun')
    refine ⟨hmem, fun t ht => ?_⟩
    obtain ⟨depth, hdepth⟩ := Option.isSome_iff_exists.mp
      (AList.lookup_isSome.mpr ((hmem t).mpr ht))
    obtain ⟨edges, rfl, hgreatest⟩ := hdepths t depth hdepth
    exact ⟨edges, hdepth, hgreatest⟩
  · refine ⟨⟨fun ⟨depths, hrun'⟩ => ?_, fun hacyclic => absurd hcycle hacyclic⟩,
      fun depths hrun' => ?_⟩
    · cases hrun.symm.trans hrun'
    · cases hrun.symm.trans hrun'

/-- Two targets, with a repeated edge and one that leaves the set. -/
def twoTargets : TargetId → Option (List TargetId)
  | "lib" => some ["app", "app", "other"]
  | _ => none

theorem twoTargets_longest : ∃ edges,
    (criticalDepths ["app", "lib"] twoTargets).toOption.bind (·.lookup "lib") = some (edges + 1) ∧
      IsGreatest {n | Chain (nextTargets ["app", "lib"] twoTargets) "lib" n} edges := by
  have hrun : ∃ depths, criticalDepths ["app", "lib"] twoTargets = .ok depths := ⟨_, rfl⟩
  obtain ⟨depths, hrun⟩ := hrun
  obtain ⟨edges, hdepth, hgreatest⟩ :=
    ((criticalDepths_longest (by decide) twoTargets).2 depths hrun).2 "lib" (by decide)
  rw [hrun]
  exact ⟨edges, hdepth, hgreatest⟩

end OnceBuild.Scheduler
