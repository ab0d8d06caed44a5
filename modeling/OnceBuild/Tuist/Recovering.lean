import OnceBuild.Lib.Runs
import OnceBuild.Tuist.Client

/-!
# Lazily initialized state that recovers from failures

A cell holds a value once a probe has found it.  Callers look at the phase of the cell under its
lock; one of them may start a probe, which runs as a task of its own and records how it ended before
it wakes the waiters.  A step here is one section under the lock or one thing that happens to a task
or a caller, so the runs are all interleavings.  The log of starts and endings, latest first, is
kept for the statements only.
-/

namespace OnceBuild.Tuist

open Function (update update_apply)

/-- Milliseconds; `FIRST_COOLDOWN` and `MAX_COOLDOWN`. -/
def firstCooldown : Nat := 1000

def maxCooldown : Nat := 30000

def cooldown (failures : Nat) : Nat := min (firstCooldown * 2 ^ min (failures - 1) 16) maxCooldown

def isPermanent (kind : ErrorKind) : Bool := kind = .refused ∨ kind = .misconfigured

/-- An error for another caller: one that cannot be cloned keeps its kind and its text. -/
def replay : CacheError → CacheError
  | .io path source corruptBlob => .remoteFailure "initialize remote cache"
      (CacheError.io path source corruptBlob).kind ("io error at " ++ path ++ ": " ++ source)
  | .corrupt path source => .remoteFailure "initialize remote cache"
      .corrupt ("corrupt action result at " ++ path ++ ": " ++ source)
  | error => error

def endedWithoutOutcome : CacheError :=
  .remoteFailure "initialize remote cache" .other "initialization ended without an outcome"

def deadlinePassed : CacheError :=
  .remoteFailure "initialize remote cache" .unavailable "initialization did not finish within 60s"

inductive Phase where
  | idle
  | probing (probe : Nat)
  | failed (error : CacheError) (failures retryAt : Nat)

inductive CallState (T : Type) where
  | looking
  /-- On the channel of a probe. -/
  | waiting (probe : Nat)
  | returned (result : Except CacheError T)
  | cancelled

/-- `init` says whether the call can still start a probe. -/
structure InitCall (T : Type) where
  init : Bool
  state : CallState T

/-- A task that is alive; it has recorded its outcome when it no longer runs the probe. -/
structure ProbeTask where
  failures : Nat
  running : Bool

inductive ProbeEvent (T : Type) where
  | started (call time : Nat)
  | failed (error : CacheError) (time cooldown : Nat)
  | ready (value : T)

structure Recovering (T : Type) where
  ready : Option T
  phase : Phase
  tasks : Nat → Option ProbeTask
  calls : Nat → Option (InitCall T)
  now : Nat
  nextProbe : Nat
  log : List (ProbeEvent T)

/-- How a probe ends; `dropped` is a panic or a task that is dropped. -/
inductive ProbeEnd (T : Type) where
  | result (outcome : Except CacheError T)
  | deadline
  | dropped

def ProbeEnd.outcome {T : Type} : ProbeEnd T → Except CacheError T
  | .result outcome => outcome
  | .deadline => .error deadlinePassed
  | .dropped => .error endedWithoutOutcome

inductive RecoveringOp (T : Type) where
  | call (id : Nat)
  | look (id : Nat)
  | wake (id : Nat)
  | cancel (id : Nat)
  | finish (probe : Nat) (ending : ProbeEnd T)
  | send (probe : Nat)
  | tick (elapsed : Nat)

namespace Recovering

variable {T : Type}

def new (now : Nat) : Recovering T := ⟨none, .idle, fun _ => none, fun _ => none, now, 0, []⟩

variable (s : Recovering T)

def setCall (id : Nat) (init : Bool) (state : CallState T) : Recovering T :=
  { s with calls := update s.calls id (some ⟨init, state⟩) }

def startProbe (id failures : Nat) : Recovering T :=
  { s.setCall id false (.waiting s.nextProbe) with
    phase := .probing s.nextProbe
    tasks := update s.tasks s.nextProbe (some ⟨failures, true⟩)
    nextProbe := s.nextProbe + 1
    log := .started id s.now :: s.log }

/-- What a call does under the lock. -/
def look (id : Nat) (init : Bool) : Recovering T :=
  let fail error := s.setCall id init (.returned (.error error))
  match s.ready, s.phase with
  | some value, _ => s.setCall id init (.returned (.ok value))
  | none, .probing probe => s.setCall id init (.waiting probe)
  | none, .failed error failures retryAt =>
    if isPermanent error.kind ∨ s.now < retryAt then fail (replay error)
    else if init then s.startProbe id failures
    else fail (replay error)
  | none, .idle => if init then s.startProbe id 0 else fail endedWithoutOutcome

def record (outcome : Except CacheError T) (previousFailures : Nat) : Recovering T :=
  match outcome with
  | .ok value =>
    { s with ready := some (s.ready.getD value), phase := .idle, log := .ready value :: s.log }
  | .error error =>
    let failures := min (previousFailures + 1) (2 ^ 32 - 1)
    { s with
      phase := .failed error failures (s.now + cooldown failures)
      log := .failed error s.now (cooldown failures) :: s.log }

def step : RecoveringOp T → Option (Recovering T)
  | .call id => if (s.calls id).isNone then some (s.setCall id true .looking) else none
  | .look id =>
    match s.calls id with
    | some ⟨init, .looking⟩ => some (s.look id init)
    | _ => none
  | .wake id =>
    match s.calls id with
    | some ⟨init, .waiting probe⟩ =>
      if (s.tasks probe).isNone then some (s.setCall id init .looking) else none
    | _ => none
  | .cancel id => (s.calls id).map fun call => s.setCall id call.init .cancelled
  | .finish probe ending =>
    match s.tasks probe with
    | some ⟨failures, true⟩ =>
      some { s.record ending.outcome failures with
        tasks := update s.tasks probe (some ⟨failures, false⟩) }
    | _ => none
  | .send probe =>
    -- the value is sent when the task ends, after the outcome has been recorded
    match s.tasks probe with
    | some ⟨_, false⟩ => some { s with tasks := update s.tasks probe none }
    | _ => none
  | .tick elapsed => some { s with now := s.now + elapsed }

/-! ## What holds in every state -/

def Runs (probe : Nat) : Prop := ∃ failures, s.tasks probe = some ⟨failures, true⟩

/-- A probe starts only while there is no value, after no permanent failure, when every earlier
failure has cooled down, and for a call that has not started one. -/
def Orderly : List (ProbeEvent T) → Prop
  | [] => True
  | .started call time :: earlier =>
    (∀ value, .ready value ∉ earlier) ∧
      (∀ error at' wait, .failed error at' wait ∈ earlier →
        isPermanent error.kind = false ∧ at' + wait ≤ time) ∧
      (∀ time', .started call time' ∉ earlier) ∧ Orderly earlier
  | _ :: earlier => Orderly earlier

structure Sound (s : Recovering T) : Prop where
  runs_iff : ∀ probe, s.Runs probe ↔ s.phase = .probing probe
  idle : s.ready ≠ none → s.phase = .idle
  readyLog : ∀ value, .ready value ∈ s.log → s.ready ≠ none
  failedLog : ∀ error time wait, .failed error time wait ∈ s.log →
    (isPermanent error.kind = true → ∃ n retryAt, s.phase = .failed error n retryAt) ∧
      (time + wait ≤ s.now ∨ ∃ e n retryAt, s.phase = .failed e n retryAt ∧ time + wait ≤ retryAt)
  startedLog : ∀ id time, .started id time ∈ s.log →
    ∃ state, s.calls id = some ⟨false, state⟩
  orderly : Orderly s.log

variable {s s' : Recovering T}

lemma sound_new (now : Nat) : Sound (new now : Recovering T) where
  runs_iff probe := by simp [Runs, new]
  idle := by simp [new]
  readyLog := by simp [new]
  failedLog := by simp [new]
  startedLog := by simp [new]
  orderly := trivial

lemma Sound.setCall {id : Nat} {init : Bool} {state : CallState T} :
    Sound s → (∀ state', s.calls id = some ⟨false, state'⟩ → init = false) →
    Sound (s.setCall id init state) := by
  intro h hinit
  refine ⟨h.runs_iff, h.idle, h.readyLog, h.failedLog, ?_, h.orderly⟩
  intro other time hmem
  obtain ⟨before, hbefore⟩ := h.startedLog other time hmem
  by_cases hother : other = id
  · subst hother
    exact ⟨state, by simp [Recovering.setCall, hinit before hbefore]⟩
  · exact ⟨before, by simpa [Recovering.setCall, hother] using hbefore⟩

/-- A probe is started by a call that still can, outside of a probe, a value and a cooldown. -/
lemma Sound.startProbe {id failures : Nat} {state : CallState T} :
    Sound s → s.ready = none → s.calls id = some ⟨true, state⟩ →
    (s.phase = .idle ∨ ∃ error n retryAt, s.phase = .failed error n retryAt ∧
      isPermanent error.kind = false ∧ retryAt ≤ s.now) →
    Sound (s.startProbe id failures) := by
  intro h hready hcall hphase
  have hquiet : ∀ probe, ¬s.Runs probe := by
    intro probe hruns
    have hprobing := (h.runs_iff probe).mp hruns
    rcases hphase with hidle | ⟨_, _, _, hfailed, _⟩ <;> simp_all
  have hcooled : ∀ error time wait, .failed error time wait ∈ s.log →
      isPermanent error.kind = false ∧ time + wait ≤ s.now := by
    intro error time wait hmem
    obtain ⟨hperm, htime⟩ := h.failedLog error time wait hmem
    rcases hphase with hidle | ⟨e, n, retryAt, hfailed, htransient, hpassed⟩
    · simp_all
    · refine ⟨?_, ?_⟩
      · by_contra hpermanent
        simp_all
      · rcases htime with htime | ⟨_, _, _, heq, htime⟩
        · exact htime
        · rw [hfailed] at heq
          cases heq
          exact htime.trans hpassed
  have hunused : ∀ time, .started id time ∉ s.log := by
    intro time hmem
    obtain ⟨_, hfalse⟩ := h.startedLog id time hmem
    simp_all
  refine ⟨?_, ?_, ?_, ?_, ?_, ?_⟩
  · intro probe
    by_cases hnew : probe = s.nextProbe
    · simp [Runs, Recovering.startProbe, hnew]
    · simpa [Runs, Recovering.startProbe, hnew, Ne.symm hnew] using hquiet probe
  · exact fun hsome => absurd hready hsome
  · intro value hmem
    refine h.readyLog value ?_
    simpa [Recovering.startProbe] using hmem
  · intro error time wait hmem
    have hmem' : .failed error time wait ∈ s.log := by simpa [Recovering.startProbe] using hmem
    obtain ⟨htransient, htime⟩ := hcooled error time wait hmem'
    exact ⟨fun hperm => by simp_all, .inl htime⟩
  · intro other time hmem
    by_cases hother : other = id
    · exact ⟨.waiting s.nextProbe, by simp [Recovering.startProbe, Recovering.setCall, hother]⟩
    · have hmem' : .started other time ∈ s.log := by
        simpa [Recovering.startProbe, hother] using hmem
      obtain ⟨before, hbefore⟩ := h.startedLog other time hmem'
      exact ⟨before, by
        simpa [Recovering.startProbe, Recovering.setCall, hother] using hbefore⟩
  · refine ⟨fun value hmem => h.readyLog value hmem hready, hcooled, hunused, h.orderly⟩

lemma Sound.look {id : Nat} {init : Bool} {state : CallState T} :
    Sound s → s.calls id = some ⟨init, state⟩ → Sound (s.look id init) := by
  intro h hcall
  have hset : ∀ state', Sound (s.setCall id init state') := fun _ => h.setCall (by simp_all)
  unfold Recovering.look
  split
  case h_1 => exact hset _
  case h_2 => exact hset _
  case h_3 error failures retryAt hready hphase =>
    split
    case isTrue => exact hset _
    case isFalse hmay =>
      split
      case isFalse => exact hset _
      case isTrue hinit =>
        rw [not_or, Bool.not_eq_true, not_lt] at hmay
        exact h.startProbe hready (hinit ▸ hcall) (.inr ⟨error, failures, retryAt, hphase, hmay⟩)
  case h_4 hready hphase =>
    split
    case isFalse => exact hset _
    case isTrue hinit => exact h.startProbe hready (hinit ▸ hcall) (.inl hphase)

lemma Sound.finish {probe failures : Nat} {outcome : Except CacheError T} :
    Sound s → s.tasks probe = some ⟨failures, true⟩ →
    Sound { s.record outcome failures with
      tasks := update s.tasks probe (some ⟨failures, false⟩) } := by
  intro h htask
  have hphase : s.phase = .probing probe := (h.runs_iff probe).mp ⟨failures, htask⟩
  -- the only probe that ran is this one
  have hquiet : ∀ p n, update s.tasks probe (some ⟨failures, false⟩) p ≠ some ⟨n, true⟩ := by
    intro p n hruns
    rw [update_apply] at hruns
    split at hruns
    case isTrue => simp at hruns
    case isFalse hne =>
      have hp := (h.runs_iff p).mp ⟨n, hruns⟩
      simp_all
  have hold : ∀ error time wait, .failed error time wait ∈ s.log →
      isPermanent error.kind = false ∧ time + wait ≤ s.now := by
    intro error time wait hmem
    have hboth := h.failedLog error time wait hmem
    simp_all
  cases outcome with
  | ok value =>
    refine ⟨?_, fun _ => rfl, fun _ _ => by simp [record], ?_, ?_, h.orderly⟩
    · simp [Runs, record, hquiet]
    · intro error time wait hmem
      have hmem' : .failed error time wait ∈ s.log := by simpa [record] using hmem
      exact ⟨fun hperm => by simp [(hold _ _ _ hmem').1] at hperm, .inl (hold _ _ _ hmem').2⟩
    · intro id time hmem
      exact h.startedLog id time (by simpa [record] using hmem)
  | error error =>
    refine ⟨?_, fun hsome => ?_, ?_, ?_, ?_, h.orderly⟩
    · simp [Runs, record, hquiet]
    · have hidle := h.idle hsome
      simp_all
    · intro value hmem
      exact h.readyLog value (by simpa [record] using hmem)
    · intro error' time wait hmem
      rcases List.mem_cons.mp hmem with heq | hmem'
      · cases heq
        exact ⟨fun _ => ⟨_, _, rfl⟩, .inr ⟨_, _, _, rfl, le_refl _⟩⟩
      · exact ⟨fun hperm => by simp [(hold _ _ _ hmem').1] at hperm, .inl (hold _ _ _ hmem').2⟩
    · intro id time hmem
      exact h.startedLog id time (by simpa [record] using hmem)

lemma Sound.send {probe failures : Nat} :
    Sound s → s.tasks probe = some ⟨failures, false⟩ →
    Sound { s with tasks := update s.tasks probe none } := by
  intro h htask
  refine { h with runs_iff := fun p => ?_ }
  rw [← h.runs_iff p]
  by_cases hp : p = probe
  · simp [Runs, hp, htask]
  · simp [Runs, hp]

lemma Sound.tick {elapsed : Nat} : Sound s → Sound { s with now := s.now + elapsed } := by
  intro h
  refine { h with failedLog := fun error time wait hmem => ?_ }
  obtain ⟨hperm, htime⟩ := h.failedLog error time wait hmem
  exact ⟨hperm, htime.imp_left fun hle => hle.trans (Nat.le_add_right _ _)⟩

lemma ready_look {id : Nat} {init : Bool} : (s.look id init).ready = s.ready := by
  unfold Recovering.look
  split <;> try rfl
  all_goals split <;> try rfl
  split <;> rfl

/-- A step keeps what holds in every state, and the value. -/
lemma Sound.step {op : RecoveringOp T} : Sound s → s.step op = some s' →
    Sound s' ∧ ∀ value, s.ready = some value → s'.ready = some value := by
  intro h hstep
  cases op <;> simp only [Recovering.step, Option.map_eq_some_iff] at hstep
  case call id =>
    split at hstep <;> cases hstep
    exact ⟨h.setCall (by simp_all), fun _ hready => hready⟩
  case look id =>
    split at hstep <;> cases hstep
    exact ⟨h.look ‹_›, fun _ hready => ready_look.trans hready⟩
  case wake id =>
    split at hstep
    case h_2 => cases hstep
    case h_1 =>
      split at hstep <;> cases hstep
      exact ⟨h.setCall (by simp_all), fun _ hready => hready⟩
  case cancel id =>
    obtain ⟨call, hcall, rfl⟩ := hstep
    exact ⟨h.setCall (by simp_all), fun _ hready => hready⟩
  case finish probe ending =>
    split at hstep <;> cases hstep
    refine ⟨h.finish ‹_›, fun value hready => ?_⟩
    cases hend : ending.outcome <;> simp [record, hready]
  case send probe =>
    split at hstep <;> cases hstep
    exact ⟨h.send ‹_›, fun _ hready => hready⟩
  case tick elapsed =>
    cases hstep
    exact ⟨h.tick, fun _ hready => hready⟩

/-- Probes run one at a time: in every state that a run reaches, at most one probe runs, a value
that is set stays, the probes were started in order, and the slot is free when no task is alive. -/
theorem probes_one_at_a_time {now : Nat}
    (h : Lib.Reachable step (fun _ _ => True) (new now : Recovering T) s) :
    (∀ p q, s.Runs p → s.Runs q → p = q) ∧
      (∀ op s' value, s.step op = some s' → s.ready = some value → s'.ready = some value) ∧
      Orderly s.log ∧ ((∀ p, s.tasks p = none) → ∀ p, s.phase ≠ .probing p) := by
  have hsound : Sound s := h.invariant (sound_new now) fun _ _ _ hs _ hstep => (hs.step hstep).1
  refine ⟨?_, fun op s' value hstep => (hsound.step hstep).2 value, hsound.orderly, ?_⟩
  · intro p q hp hq
    have hphase := (hsound.runs_iff p).mp hp
    rw [(hsound.runs_iff q).mp hq] at hphase
    cases hphase
    rfl
  · intro hnone p hphase
    obtain ⟨failures, halive⟩ := (hsound.runs_iff p).mpr hphase
    rw [hnone p] at halive
    cases halive

/-- A run in which the first probe is dropped and another call's probe succeeds a second later. -/
def recoveryRun : List (RecoveringOp Nat) :=
  [.call 0, .look 0, .call 1, .look 1, .cancel 0, .finish 0 .dropped, .send 0, .tick 1000, .wake 1,
    .look 1, .finish 1 (.result (.ok 7))]

theorem probes_one_at_a_time_recoveryRun :
    ∃ s, Lib.runSteps step (new 0) recoveryRun = some s ∧ s.ready = some 7 ∧ s.log.length = 4 ∧
      Orderly s.log := by
  have hrun : Lib.runSteps step (new 0) recoveryRun = some _ := rfl
  exact ⟨_, hrun, rfl, rfl, (probes_one_at_a_time (Lib.Reachable.start.runSteps hrun)).2.2.1⟩

end Recovering

end OnceBuild.Tuist
