import Mathlib.Data.List.GetD
import OnceBuild.Materialization.Window
import OnceBuild.Recovery.Undisturbed

/-!
# Restoring the results of a target at the same time

The restores in the window share the workspace and take turns on it, one file operation at a time.
A restore that finds all its blobs in the cache works at and below its own outputs only, so turns of
restores that do not overlap commute, and a finished run leaves the tree that restoring the results
one by one leaves.  A restore that runs a producer again also works where that producer does, which
no footprint shows.
-/

namespace OnceBuild.Materialization

open Lib List FileOp
open Actions (Path PathHost pathsOverlap pathsOverlap_iff mem_footprintPaths footprint_overlap)
open Recovery (Version Registry Ledger Work Attempt)

variable {α : Type}

structure Restoration (α : Type) where
  window : Window
  work : Shared Nat (FileTree Text α) (FileOp Text α) (FileAnswer α) (Bool × Ledger)
  /-- Whose turns there have been. -/
  turns : List Nat

namespace Restoration

inductive Event where
  | launch
  | wait
  | turn (index : Nat)
  | finish (index : Nat)

def initial (reg : Registry α) (ledger : Ledger) (job : Job) (t : FileTree Text α) :
    Restoration α where
  window := .empty
  work := ⟨t, fun i => reg.restore (job.resultAt i) ledger, fun _ => []⟩
  turns := []

def step (job : Job) (s : Restoration α) : Event → Option (Restoration α)
  | .launch => (s.window.step job s.work.state .launch).map fun window => { s with window }
  | .wait => (s.window.step job s.work.state .wait).map fun window => { s with window }
  | .turn index =>
    if s.window.active.contains index then
      some { s with work := s.work.turn apply index, turns := s.turns ++ [index] }
    else none
  | .finish index =>
    match s.work.programs index with
    | .op _ _ => none
    | .done value =>
      (s.window.step job s.work.state (.finish index value.1)).map fun window => { s with window }

abbrev Reached (reg : Registry α) (ledger : Ledger) (job : Job) (t : FileTree Text α) :
    Restoration α → Prop :=
  Reachable (step job) (fun _ _ => True) (initial reg ledger job t)

def oneByOne (reg : Registry α) (ledger : Ledger) (results : List Result) (t : FileTree Text α) :
    FileTree Text α :=
  results.foldl (fun t result => ((reg.restore result ledger).run apply t).1) t

/-- The cache holds every blob that the results name. -/
def Available (ledger : Ledger) (results : List Result) : Prop :=
  ∀ result ∈ results, ∀ v ∈ result, ledger.held v.2 = true

variable {reg : Registry α} {ledger : Ledger} {job : Job} {t : FileTree Text α}
variable {s s' : Restoration α}

/-! ## What a step can do -/

lemma step_cases {event : Event} (h : step job s event = some s') :
    (∃ window, s.window.step job s.work.state .launch = some window ∧ s' = { s with window }) ∨
    (∃ window, s.window.step job s.work.state .wait = some window ∧ s' = { s with window }) ∨
    (∃ index ∈ s.window.active,
      s' = { s with work := s.work.turn apply index, turns := s.turns ++ [index] }) ∨
    ∃ index value window, s.work.programs index = .done value ∧
      s.window.step job s.work.state (.finish index value.1) = some window ∧
        s' = { s with window } := by
  cases event with
  | launch =>
    obtain ⟨window, hwindow, rfl⟩ := Option.map_eq_some_iff.mp h
    exact .inl ⟨window, hwindow, rfl⟩
  | wait =>
    obtain ⟨window, hwindow, rfl⟩ := Option.map_eq_some_iff.mp h
    exact .inr (.inl ⟨window, hwindow, rfl⟩)
  | turn index =>
    simp only [step] at h
    split at h
    case isTrue hactive =>
      exact .inr (.inr (.inl ⟨index, by simpa using hactive, (Option.some.inj h).symm⟩))
    case isFalse => cases h
  | finish index =>
    simp only [step] at h
    split at h
    case h_1 => cases h
    case h_2 value hdone =>
      obtain ⟨window, hwindow, rfl⟩ := Option.map_eq_some_iff.mp h
      exact .inr (.inr (.inr ⟨index, value, window, hdone, hwindow, rfl⟩))

/-! ## Invariant -/

structure Sound (reg : Registry α) (ledger : Ledger) (job : Job) (t : FileTree Text α)
    (s : Restoration α) : Prop where
  window : s.window.Sound job
  work : s.work = (initial reg ledger job t).work.exec apply s.turns
  known : ∀ i ∈ s.turns, i < s.window.next
  /-- A later result has only been ahead of an earlier one that it does not overlap. -/
  ordered : s.turns.Pairwise fun x y => x ≤ y ∨ ¬ job.Overlap y x
  ended : ∀ i ok, .ended i ok ∈ s.window.log → ∃ ledger, s.work.programs i = .done (ok, ledger)

lemma sound_initial : Sound reg ledger job t (initial reg ledger job t) where
  window := Window.sound_empty job
  work := rfl
  known _ hi := absurd hi not_mem_nil
  ordered := Pairwise.nil
  ended _ _ h := absurd h not_mem_nil

lemma Sound.launch {window : Window} (h : Sound reg ledger job t s)
    (hstep : s.window.step job s.work.state .launch = some window) :
    Sound reg ledger job t { s with window } := by
  rcases Window.step_cases hstep with ⟨indices, -, hs, rfl⟩ | ⟨hevent, -⟩ | ⟨_, _, hevent, -⟩
  · refine ⟨h.window.start hs, h.work, fun i hi => ?_, h.ordered, fun i ok hended => ?_⟩
    · exact Nat.lt_of_lt_of_le (h.known i hi) (Nat.le_add_right _ _)
    · rcases mem_append.mp hended with hended | hended
      · exact h.ended i ok hended
      · obtain ⟨j, -, heq⟩ := mem_map.mp hended
        cases heq
  · cases hevent
  · cases hevent

lemma Sound.wait {window : Window} (h : Sound reg ledger job t s)
    (hstep : s.window.step job s.work.state .wait = some window) :
    Sound reg ledger job t { s with window } := by
  rcases Window.step_cases hstep with ⟨_, hevent, -⟩ | ⟨-, rfl⟩ | ⟨_, _, hevent, -⟩
  · cases hevent
  · exact ⟨h.window.wait, h.work, h.known, h.ordered, h.ended⟩
  · cases hevent

variable {index : Nat}

lemma Sound.turn (h : Sound reg ledger job t s) (hactive : index ∈ s.window.active) :
    Sound reg ledger job t
      { s with work := s.work.turn apply index, turns := s.turns ++ [index] } where
  window := h.window
  work := by
    rw [exec_append, ← h.work]
    rfl
  known i hi := by
    rcases mem_append.mp hi with hi | hi
    · exact h.known i hi
    · rw [mem_singleton.mp hi]
      exact h.window.active_lt index hactive
  ordered := by
    refine pairwise_append.mpr ⟨h.ordered, pairwise_singleton _ _, fun x hx y hy => ?_⟩
    rw [mem_singleton.mp hy]
    -- a result after `index` was started while `index` was in the window
    rcases Nat.lt_or_ge index x with hlt | hle
    · exact .inr (h.window.clear index hactive x (h.known x hx) hlt)
    · exact .inl hle
  ended i ok hended := by
    obtain ⟨ledger', hdone⟩ := h.ended i ok hended
    refine ⟨ledger', ?_⟩
    rcases eq_or_ne i index with rfl | hne
    · rw [turn_of_done hdone]
      exact hdone
    · exact (programs_turn_of_ne hne).trans hdone

lemma Sound.finish {value : Bool × Ledger} {window : Window} (h : Sound reg ledger job t s)
    (hdone : s.work.programs index = .done value)
    (hstep : s.window.step job s.work.state (.finish index value.1) = some window) :
    Sound reg ledger job t { s with window } := by
  rcases Window.step_cases hstep with ⟨_, hevent, -⟩ | ⟨hevent, -⟩ | ⟨_, _, hevent, hmem, rfl⟩
  · cases hevent
  · cases hevent
  · cases hevent
    refine ⟨h.window.finish hmem _, h.work, h.known, h.ordered, fun i ok hended => ?_⟩
    rcases mem_append.mp hended with hended | hended
    · exact h.ended i ok hended
    · cases mem_singleton.mp hended
      exact ⟨value.2, hdone⟩

lemma sound_of_reached (h : Reached reg ledger job t s) : Sound reg ledger job t s := by
  refine h.invariant sound_initial fun s event s' hs _ hstep => ?_
  rcases step_cases hstep with ⟨window, hwindow, rfl⟩ | ⟨window, hwindow, rfl⟩ |
    ⟨index, hactive, rfl⟩ | ⟨index, value, window, hdone, hwindow, rfl⟩
  · exact hs.launch hwindow
  · exact hs.wait hwindow
  · exact hs.turn hactive
  · exact hs.finish hdone hwindow

/-! ## Where a restore works -/

def outputScope (result : Result) : FileScope Text where
  writes := result.map Prod.fst
  reads := []
  dirs := []

def ownOps (job : Job) (i : Nat) : FileOp Text α → Prop := (outputScope (job.resultAt i)).Allows

variable {result : Result} {v : Version}

lemma allows_check (hv : v ∈ result) (test : FileTree Text α → Bool) :
    (outputScope result).Allows (.check v.1 test) :=
  ⟨v.1, mem_append_left _ (mem_map_of_mem hv), prefix_refl _⟩

variable {outputs : Result}

lemma uses_outputsNeedingRestore (reg : Registry α) (result : Result) :
    (reg.outputsNeedingRestore result).Uses (outputScope result).Allows := by
  have hstale : ∀ outputs : Result, (∀ v ∈ outputs, v ∈ result) →
      (reg.staleOutputs outputs).Uses (outputScope result).Allows := by
    intro outputs h
    induction outputs with
    | nil => trivial
    | cons v vs ih =>
      have hrest := ih fun u hu => h u (mem_cons_of_mem _ hu)
      refine Program.Uses.bind ⟨allows_check (h v mem_cons_self) _, fun _ => trivial⟩
        fun there => ?_
      exact hrest.bind fun stale => trivial
  exact (hstale result fun v hv => hv).bind fun stale => trivial

lemma ends_outputsNeedingRestore (reg : Registry α) (outputs : Result) :
    (reg.outputsNeedingRestore outputs).Ends fun needed => ∀ v ∈ needed, v ∈ outputs := by
  have hstale : (reg.staleOutputs outputs).Ends fun _ => True := Program.ends_true _
  exact hstale.bind fun stale _ v hv => (mem_filter.mp hv).1

lemma uses_commit (reg : Registry α) (h : ∀ v ∈ outputs, v ∈ result) :
    (reg.commit outputs).Uses (outputScope result).Allows := by
  induction outputs with
  | nil => trivial
  | cons v vs ih =>
    have hrest := ih fun u hu => h u (mem_cons_of_mem _ hu)
    have hv : v ∈ result := h v mem_cons_self
    refine Program.Uses.bind ⟨allows_check hv _, fun _ => trivial⟩ fun there => ?_
    cases there with
    | true => exact hrest
    | false =>
      refine ⟨⟨v.1, mem_map_of_mem hv, prefix_refl _⟩, fun answer => ?_⟩
      show Program.Uses _ (if Recovery.succeeded answer then reg.commit vs else pure false)
      split
      · exact hrest
      · trivial

lemma uses_restore (reg : Registry α) (h : ∀ v ∈ result, ledger.held v.2 = true) :
    (reg.restore result ledger).Uses (outputScope result).Allows := by
  have hall : ∀ needed : Result, (∀ v ∈ needed, v ∈ result) →
      (needed.all fun v => ledger.held v.2) = true :=
    fun needed hneeded => all_eq_true.mpr fun v hv => h v (hneeded v hv)
  have huses : (reg.restoreAttempt ledger result).Uses (outputScope result).Allows := by
    refine (uses_outputsNeedingRestore reg result).bind_of_ends
      (ends_outputsNeedingRestore reg result) fun needed hneeded => ?_
    rw [if_pos (hall needed hneeded)]
    exact (uses_commit reg hneeded).bind fun placed => trivial
  -- no blob is missing, so no output is restored on its own
  have hends : (reg.restoreAttempt ledger result).Ends fun attempt => attempt ≠ .missing := by
    refine (ends_outputsNeedingRestore reg result).bind fun needed hneeded => ?_
    rw [if_pos (hall needed hneeded)]
    have hcommit : (reg.commit needed).Ends fun _ => True := Program.ends_true _
    refine hcommit.bind fun placed _ => ?_
    cases placed <;> exact nofun
  refine huses.bind_of_ends hends fun attempt hattempt => ?_
  cases attempt with
  | restored | failed => trivial
  | missing => exact absurd rfl hattempt

lemma outputScope_apart {left right : Result} {host : PathHost} (h : Separate host left right) :
    (outputScope left).Apart (outputScope right) := by
  obtain ⟨own, other, hown, hother, hclear⟩ := h
  refine ⟨fun w hw x hx => ?_, fun d hd => absurd hd not_mem_nil⟩
  have hx : x ∈ right.map Prod.fst := by
    simpa [FileScope.accesses, outputScope] using hx
  obtain ⟨ws, hws, hwmem⟩ := mem_footprintPaths hown hw
  obtain ⟨xs, hxs, hxmem⟩ := mem_footprintPaths hother hx
  rw [← not_or, ← pathsOverlap_iff]
  intro hoverlap
  obtain ⟨p, hp, q, hq, hmeet⟩ := footprint_overlap hws hxs hoverlap
  rw [hclear p (hwmem p hp) q (hxmem q hq)] at hmeet
  cases hmeet

lemma separate_symm {left right : Result} {host : PathHost} (h : Separate host left right) :
    Separate host right left := by
  obtain ⟨own, other, hown, hother, hclear⟩ := h
  refine ⟨other, own, hother, hown, fun p hp q hq => ?_⟩
  rw [Actions.pathsOverlap_comm]
  exact hclear q hq p hp

/-! ## The final tree -/

lemma resultAt_mem {i : Nat} (h : v ∈ job.resultAt i) : ∃ result ∈ job.results, v ∈ result := by
  unfold Job.resultAt at h
  rcases Nat.lt_or_ge i job.results.length with hi | hi
  · rw [getD_eq_getElem _ _ hi] at h
    exact ⟨_, getElem_mem hi, h⟩
  · rw [getD_eq_default _ _ hi] at h
    cases h

lemma oneByOne_eq : (List.range job.results.length).foldl
        (fun t i => ((reg.restore (job.resultAt i) ledger).run apply t).1) t =
      oneByOne reg ledger job.results t := by
  have hresults : (range job.results.length).map job.resultAt = job.results := by
    refine ext_getElem (by simp) fun i hi hi' => ?_
    simp [Job.resultAt, hi']
  calc _ = oneByOne reg ledger ((range job.results.length).map job.resultAt) t :=
        foldl_map.symm
    _ = oneByOne reg ledger job.results t := by rw [hresults]

lemma state_of_done (hs : Sound reg ledger job t s) (havailable : Available ledger job.results)
    (hdone : s.window.Done job) (hok : s.window.failure = none) :
    s.work.state = oneByOne reg ledger job.results t := by
  obtain ⟨hactive, hend⟩ := hdone
  have hnext : s.window.next = job.results.length := by
    refine Nat.le_antisymm hs.window.next_le (hend.resolve_left ?_)
    simp [hok]
  have hkeeps : KeepsTo (ownOps job) (initial reg ledger job t).work := by
    refine fun i => uses_restore reg fun v hv => ?_
    obtain ⟨result, hresult, hv⟩ := resultAt_mem hv
    exact havailable result hresult v hv
  have hfinished : s.work.Finished := by
    intro i
    rcases Nat.lt_or_ge i s.window.next with hi | hi
    · obtain ⟨ok, hended⟩ := hs.window.ended i hi (hactive ▸ not_mem_nil)
      obtain ⟨ledger', hprogram⟩ := hs.ended i ok hended
      exact ⟨_, hprogram⟩
    · -- past the last result there is nothing to restore
      have hturns : i ∉ s.turns := fun hmem => absurd (hs.known i hmem) (Nat.not_lt.mpr hi)
      refine ⟨(true, ledger), ?_⟩
      rw [hs.work, programs_exec_of_notMem hturns]
      show reg.restore (job.resultAt i) ledger = _
      rw [Job.resultAt, getD_eq_default _ _ (hnext ▸ hi)]
      rfl
  have hmem : ∀ i ∈ s.turns, i ∈ range job.results.length :=
    fun i hi => mem_range.mpr (hnext ▸ hs.known i hi)
  have hordered : s.turns.Pairwise fun x y => x ≤ y ∨
      Independent apply (ownOps (α := α) job) x y := by
    refine hs.ordered.imp fun hxy => hxy.imp_right fun hclear o o' ho ho' => ?_
    have hsep := not_not.mp hclear
    exact FileScope.commute_of_apart (outputScope_apart (separate_symm hsep))
      (outputScope_apart hsep) ho ho'
  rw [hs.work] at hfinished ⊢
  rw [exec_eq_inOrder hkeeps pairwise_lt_range hmem hordered hfinished, state_inOrder _ nodup_range]
  exact oneByOne_eq

/-- In every run, of two results that overlap the later is started after the earlier has ended, no
more than the limit are in the window, none is started twice or after a failure; and when the cache
holds all blobs, a run that ends without failure leaves the tree of restoring one by one. -/
theorem restoreRecovering_in_order (reg : Registry α) (ledger : Ledger) (job : Job)
    (t : FileTree Text α) (s : Restoration α) (h : Reached reg ledger job t s) :
    Window.Ordered job s.window.log ∧ s.window.active.length ≤ job.limit ∧
      (Window.starts s.window.log).Nodup ∧ Window.StopsAtFailure s.window.log ∧
      (Available ledger job.results → s.window.Done job → s.window.failure = none →
        s.work.state = oneByOne reg ledger job.results t) := by
  have hs := sound_of_reached h
  refine ⟨hs.window.ordered, hs.window.room, ?_, hs.window.stops, state_of_done hs⟩
  rw [hs.window.starts]
  exact nodup_range

/-! ## Runs of two results -/

lemma reached_turns (h : Reached reg ledger job t s) (hactive : index ∈ s.window.active)
    (n : Nat) :
    Reached reg ledger job t
      { s with
        work := s.work.exec apply (List.replicate n index)
        turns := s.turns ++ List.replicate n index } := by
  induction n with
  | zero => simpa [Shared.exec] using h
  | succ n ih =>
    refine .step (a := .turn index) ih trivial ?_
    rw [step, if_pos (by simpa using hactive)]
    simp [replicate_succ', Shared.exec]

lemma reached_toEnd (index : Nat) (h : Reached reg ledger job t s)
    (hactive : index ∈ s.window.active) :
    ∃ turns, Reached reg ledger job t { s with work := s.work.toEnd apply index, turns } := by
  obtain ⟨n, hn⟩ := exists_exec_eq_toEnd apply s.work index
  refine ⟨s.turns ++ replicate n index, ?_⟩
  rw [← hn]
  exact reached_turns h hactive n

open Recovery.Registry (appVersion newLib oldLib lossy lossyLedger rebuilt)

/-- `app` and `lib`, two at a time. -/
def appAndLib : Job where
  windows := false
  workspace := ["w".toList]
  realWorkspace := ["w".toList]
  maxParallelActions := 2
  results := [[appVersion], [newLib]]

lemma startable_appAndLib : Window.empty.startable appAndLib rebuilt = [0, 1] := by
  decide

lemma reached_finish {ledger' : Ledger} (h : Reached reg ledger job t s)
    (hdone : s.work.programs index = .done (true, ledger')) (hfree : s.window.waiting = false)
    (hnone : s.window.startable job s.work.state = []) (hactive : index ∈ s.window.active) :
    Reached reg ledger job t { s with window := s.window.finish index true } := by
  have hwaits : Reached reg ledger job t
      { s with window := { s.window with waiting := true } } := by
    refine .step (a := .wait) h trivial ?_
    simp [step, Window.step, hfree, hnone, ne_nil_of_mem hactive]
  refine .step (a := .finish index) hwaits trivial ?_
  simp [step, hdone, Window.step, hactive, Window.finish]

/-- The work once `lib` is restored and `app` has not had a turn. -/
def afterLib (reg : Registry Cas.Digest) (ledger : Ledger) (t : FileTree Text Cas.Digest) :
    Shared Nat (FileTree Text Cas.Digest) (FileOp Text Cas.Digest) (FileAnswer Cas.Digest)
      (Bool × Ledger) :=
  (initial reg ledger appAndLib t).work.toEnd apply 1

/-- `lib` is restored first and `app` after it; both were started before. -/
lemma reached_lib_first {reg : Registry Cas.Digest} {ledger ledger₀ ledger₁ : Ledger}
    {t t₁ t₀ : FileTree Text Cas.Digest} (hfree : Window.empty.startable appAndLib t = [0, 1])
    (hlib : (reg.restore [newLib] ledger).run apply t = (t₁, true, ledger₁))
    (happ : (reg.restore [appVersion] ledger).run apply t₁ = (t₀, true, ledger₀)) :
    ∃ s, Reached reg ledger appAndLib t s ∧ s.window.Done appAndLib ∧ s.window.failure = none ∧
      s.work.state = t₀ := by
  have hstart : Reached reg ledger appAndLib t
      { initial reg ledger appAndLib t with window := Window.empty.start [0, 1] } := by
    refine .step (a := .launch) .start trivial ?_
    simp [step, initial, Window.step, hfree]
    rfl
  have hrun : ((afterLib reg ledger t).programs 0).run apply (afterLib reg ledger t).state =
      (t₀, true, ledger₀) := by
    have hstate : (afterLib reg ledger t).state = t₁ := congrArg Prod.fst hlib
    rw [hstate]
    exact happ
  have happdone : ((afterLib reg ledger t).toEnd apply 0).programs 0 = .done (true, ledger₀) := by
    rw [programs_toEnd_self, hrun]
  have hlibdone : ((afterLib reg ledger t).toEnd apply 0).programs 1 = .done (true, ledger₁) := by
    exact congrArg (fun r => Program.done r.2) hlib
  obtain ⟨_, hfirst⟩ := reached_toEnd 1 hstart (mem_cons_of_mem 0 mem_cons_self)
  obtain ⟨_, hboth⟩ := reached_toEnd 0 hfirst mem_cons_self
  -- the loop sees the end of `app` first
  have hended := reached_finish hboth happdone rfl rfl mem_cons_self
  refine ⟨_, reached_finish hended hlibdone rfl rfl mem_cons_self, ⟨rfl, .inr ?_⟩, rfl, ?_⟩
  · exact Nat.le_refl 2
  · exact congrArg Prod.fst hrun

variable {reg : Registry α} {t : FileTree Text α}

lemma run_restore_there (h : reg.holds v.2 (fun y => t (v.1 ++ y)) = true) (ledger : Ledger) :
    (reg.restore [v] ledger).run apply t = (t, true, ledger) := by
  rw [Registry.restore, Registry.restoreAt, run_bind, Registry.run_restoreAttempt_there h]
  rfl

lemma run_restore_placed (h : reg.holds v.2 (fun y => t (v.1 ++ y)) = false)
    (hheld : ledger.held v.2 = true) (hclear : blocked t v.1 = false) :
    (reg.restore [v] ledger).run apply t =
      (changed (.place v.1 (reg.blob v.2)) t, true, ledger) := by
  rw [Registry.restore, Registry.restoreAt, run_bind,
    Registry.run_restoreAttempt_placed h hheld hclear]
  rfl

lemma rebuilt_holds_lib (inputs : List Version) :
    (lossy inputs).holds newLib.2 (fun y => rebuilt (newLib.1 ++ y)) = true := by
  rw [Registry.lossy_holds]
  funext y
  cases y with
  | nil => rfl
  | cons c y => simp [rebuilt, Registry.fileBlob]

/-- The blob of `app` is lost.  Its restore runs the producer again, which puts an older `lib` back
after the restore of `lib` has ended; one by one, `lib` is restored after it. -/
theorem restoreRecovering_loses_lib :
    ∃ s, Reached (lossy [oldLib]) lossyLedger appAndLib rebuilt s ∧ s.window.Done appAndLib ∧
      s.window.failure = none ∧ s.work.state newLib.1 = some (.file oldLib.2) ∧
      oneByOne (lossy [oldLib]) lossyLedger appAndLib.results rebuilt newLib.1 =
        some (.file newLib.2) := by
  obtain ⟨ledger, hrun⟩ := Registry.noApp_rebuilt.run_restore Registry.noApp_rebuilt.withOldLib
    (Registry.run_restoreInputs_oldLib (by decide) (by decide))
  obtain ⟨s, hreached, hdone, hok, hstate⟩ :=
    reached_lib_first startable_appAndLib
      (run_restore_there (rebuilt_holds_lib [oldLib]) lossyLedger) hrun
  have hold : changed (.write appVersion.1 appVersion.2) (Registry.withOldLib rebuilt)
      newLib.1 = some (.file oldLib.2) :=
    (changed_of_clear (by decide) (by decide) _).trans Registry.withOldLib_lib
  refine ⟨s, hreached, hdone, hok, ?_, ?_⟩
  · rw [hstate]
    exact hold
  · have hother : (lossy [oldLib]).holds newLib.2 (fun y => changed
        (.write appVersion.1 appVersion.2) (Registry.withOldLib rebuilt) (newLib.1 ++ y)) =
          false := by
      rw [← Bool.not_eq_true, Registry.lossy_holds]
      intro heq
      have hroot := congrFun heq []
      exact absurd hroot (by decide)
    have hlast := run_restore_placed hother (by decide : lossyLedger.held newLib.2 = true)
      (by decide)
    simp only [oneByOne, appAndLib, foldl_cons, foldl_nil, hrun, hlast]
    simp [changed, replaces, puts, lossy, Registry.fileBlob]

/-- The same two results with every blob in the cache. -/
def fullLedger : Ledger := { lossyLedger with held := fun _ => true }

theorem restoreRecovering_in_order_appAndLib :
    ∃ s, Reached (lossy [oldLib]) fullLedger appAndLib rebuilt s ∧ s.window.Done appAndLib ∧
      s.work.state = oneByOne (lossy [oldLib]) fullLedger appAndLib.results rebuilt := by
  obtain ⟨s, hreached, hdone, hok, -⟩ :=
    reached_lib_first startable_appAndLib
      (run_restore_there (rebuilt_holds_lib [oldLib]) fullLedger)
      (run_restore_placed Registry.noApp_rebuilt.not_holds rfl Registry.noApp_rebuilt.clear)
  refine ⟨s, hreached, hdone, ?_⟩
  exact (restoreRecovering_in_order _ _ _ _ s hreached).2.2.2.2 (fun _ _ _ _ => rfl) hdone hok

end Restoration

end OnceBuild.Materialization
