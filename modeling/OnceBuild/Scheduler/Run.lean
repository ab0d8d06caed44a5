import OnceBuild.Scheduler.State

/-!
# Running a graph build

Model of `BuildScheduler::run`.  Tasks finish in any order: a run is a sequence of joins, each of a
task that is running, with any outcome, followed by spawning whatever became ready.

The `log` of a run state records what the scheduler's trace messages report, newest first.
-/

namespace OnceBuild.Scheduler

open List

variable {P : Type}

/-- A build of the targets `reachable`, of which the caller wants the outcomes of `retained`.  The
two lists are sets in the order in which they happen to be iterated. -/
structure BuildGraph where
  targets : TargetId → Option GraphTarget
  reachable : List TargetId
  retained : List TargetId
  maxInFlight : Nat
  reachable_nodup : reachable.Nodup
  retained_nodup : retained.Nodup
  reachable_mem : ∀ t ∈ reachable, (targets t).isSome = true
  retained_mem : ∀ t ∈ retained, t ∈ reachable
  maxInFlight_pos : 0 < maxInFlight

variable (g : BuildGraph)

/-- Dependencies of `t` within the build, with multiplicity. -/
def BuildGraph.deps : TargetId → List TargetId := reachableDeps g.targets g.reachable

inductive Event (P : Type) where
  | spawned (target : TargetId)
  | completed (target : TargetId) (outcome : BuildOutcome P)

structure RunState (P : Type) where
  state : BuildState P
  running : List (TargetId × DependencyInputs P)
  log : List (Event P)

/-! ## The scheduler's loop -/

/-- Order of the heap: the deeper target first, then the smaller id. -/
def precedes (a b : Nat × TargetId) : Bool := b.1 < a.1 || (a.1 == b.1 && decide (a.2 < b.2))

/-- `BinaryHeap::pop`. -/
def popReady : List (Nat × TargetId) → Option ((Nat × TargetId) × List (Nat × TargetId))
  | [] => none
  | x :: l =>
    let best := l.foldl (fun best y => if precedes y best then y else best) x
    some (best, (x :: l).erase best)

def BuildState.withReady (s : BuildState P) (ready : List (Nat × TargetId)) : BuildState P :=
  { s with ready := ready }

/-- `BuildScheduler::spawn_ready`.  Every round takes one entry off the heap and none is pushed, so
the length of the heap bounds the number of rounds. -/
def spawnReady (g : BuildGraph) : Nat → RunState P → Except BuildError (RunState P)
  | 0, s => .ok s
  | fuel + 1, s =>
    if s.running.length < g.maxInFlight then
      match popReady s.state.ready with
      | none => .ok s
      | some ((_, t), ready) =>
        match g.targets t with
        | none => .error (.vanished t)
        | some target =>
          match (s.state.withReady ready).dependencyInputs target g.reachable with
          | .error e => .error e
          | .ok (inputs, state) =>
            spawnReady g fuel {
              state := state
              running := s.running ++ [(t, inputs)]
              log := .spawned t :: s.log }
    else .ok s

/-- The part of `run` before its loop. -/
def start : Except BuildError (RunState P) :=
  match BuildState.new g.targets g.reachable g.retained with
  | .error e => .error e
  | .ok state => spawnReady g state.ready.length { state := state, running := [], log := [] }

/-- The body of the loop of `run` when the task of `t` is joined with `outcome`. -/
def RunState.join (s : RunState P) (t : TargetId) (outcome : BuildOutcome P) :
    Except BuildError (RunState P) :=
  match s.state.recordCompletion t outcome with
  | .error e => .error e
  | .ok state =>
    spawnReady g state.ready.length {
      state := state
      running := s.running.eraseP fun task => task.1 == t
      log := .completed t outcome :: s.log }

/-- The states at the head of the loop of `run`, over every order of completions. -/
inductive Reaches (g : BuildGraph) : RunState P → Prop
  | start {s : RunState P} (h : start g = .ok s) : Reaches g s
  | join {s s' : RunState P} {task : TargetId × DependencyInputs P} {outcome : BuildOutcome P}
      (h : Reaches g s) (unfinished : s.state.completed < g.reachable.length)
      (running : task ∈ s.running) (step : s.join g task.1 outcome = .ok s') : Reaches g s'

/-! ## What the log says -/

def spawnedIds : List (Event P) → List TargetId
  | [] => []
  | .spawned t :: log => t :: spawnedIds log
  | .completed _ _ :: log => spawnedIds log

def completedIds : List (Event P) → List TargetId
  | [] => []
  | .spawned _ :: log => completedIds log
  | .completed t _ :: log => t :: completedIds log

variable {log : List (Event P)} {t : TargetId}

lemma mem_completedIds : t ∈ completedIds log ↔ ∃ outcome, Event.completed t outcome ∈ log := by
  induction log with
  | nil => simp [completedIds]
  | cons e log ih => cases e <;> simp [completedIds, ih, exists_or]

lemma mem_spawnedIds : t ∈ spawnedIds log ↔ Event.spawned t ∈ log := by
  induction log with
  | nil => simp [spawnedIds]
  | cons e log ih => cases e <;> simp [spawnedIds, ih]

/-- Each target was spawned after its dependencies completed. -/
def StartsAfterDeps (deps : TargetId → List TargetId) : List (Event P) → Prop
  | [] => True
  | .spawned t :: log => (∀ d ∈ deps t, d ∈ completedIds log) ∧ StartsAfterDeps deps log
  | .completed _ _ :: log => StartsAfterDeps deps log

lemma StartsAfterDeps.of_append {deps : TargetId → List TargetId} {newer older : List (Event P)}
    (h : StartsAfterDeps deps (newer ++ .spawned t :: older)) :
    ∀ d ∈ deps t, d ∈ completedIds older := by
  induction newer with
  | nil => exact h.1
  | cons e newer ih =>
    cases e with
    | spawned => exact ih h.2
    | completed => exact ih h

/-! ## Readers -/

/-- Readers of `d`: one per listing, and the caller for a retained target. -/
def BuildGraph.readers (among : List TargetId) (d : TargetId) : Nat :=
  (Lib.incoming g.deps among d).length + if d ∈ g.retained then 1 else 0

lemma countReaders_eq (dependents : TargetId → Option (List TargetId)) {retained : List TargetId}
    (hnodup : retained.Nodup) (d : TargetId) :
    countReaders dependents retained d =
      if d ∈ retained then some (((dependents d).map List.length).getD 0 + 1)
      else (dependents d).map List.length := by
  have key : ∀ (l : List TargetId) (readers : TargetId → Option Nat), l.Nodup →
      l.foldl (fun readers t => Function.update readers t (some ((readers t).getD 0 + 1))) readers d
        = if d ∈ l then some ((readers d).getD 0 + 1) else readers d := by
    intro l
    induction l with
    | nil => simp
    | cons x l ih =>
      intro readers hl
      rcases nodup_cons.mp hl with ⟨hx, hl⟩
      rw [foldl_cons, ih _ hl]
      by_cases hdx : d = x
      · subst hdx
        simp [hx]
      · simp [hdx]
  exact key retained _ hnodup

lemma readers_new (d : TargetId) : countReaders (Lib.invert g.deps g.reachable) g.retained d =
      if g.readers g.reachable d = 0 then none else some (g.readers g.reachable d) := by
  rw [countReaders_eq _ g.retained_nodup, Lib.tabulates_invert g.deps g.reachable d]
  unfold BuildGraph.readers
  by_cases hret : d ∈ g.retained <;> by_cases hnil : Lib.incoming g.deps g.reachable d = [] <;>
    simp [hret, hnil]

/-- Spawning `t` uses up the readers that `t` accounts for. -/
lemma readers_filter_cons {spawned : List TargetId} (ht : t ∈ g.reachable)
    (hnew : t ∉ spawned) (d : TargetId) :
    g.readers (g.reachable.filter (· ∉ t :: spawned)) d + (g.deps t).count d =
      g.readers (g.reachable.filter (· ∉ spawned)) d := by
  have key : ∀ l : List TargetId, l.Nodup → t ∈ l →
      (Lib.incoming g.deps (l.filter (· ∉ t :: spawned)) d).length + (g.deps t).count d =
        (Lib.incoming g.deps (l.filter (· ∉ spawned)) d).length := by
    intro l
    induction l with
    | nil => intro _ h; cases h
    | cons x l ih =>
      intro hl hmem
      rcases nodup_cons.mp hl with ⟨hx, hl⟩
      simp only [Lib.length_incoming] at ih ⊢
      by_cases hxt : x = t
      · subst hxt
        have hsame : l.filter (· ∉ x :: spawned) = l.filter (· ∉ spawned) :=
          filter_congr fun y hy => by
            have : y ≠ x := fun e => hx (e ▸ hy)
            simp [this]
        rw [filter_cons_of_neg (by simp), filter_cons_of_pos (by simpa using hnew),
          hsame, map_cons, sum_cons, Nat.add_comm]
      · have hmem : t ∈ l := (mem_cons.mp hmem).resolve_left (Ne.symm hxt)
        have := ih hl hmem
        by_cases hxs : x ∈ spawned
        · rwa [filter_cons_of_neg (by simp [hxs]), filter_cons_of_neg (by simp [hxs])]
        · rw [filter_cons_of_pos (by simp [hxs, hxt]),
            filter_cons_of_pos (by simp [hxs]), map_cons, map_cons, sum_cons, sum_cons]
          omega
  have := key g.reachable g.reachable_nodup ht
  unfold BuildGraph.readers
  omega

end OnceBuild.Scheduler
