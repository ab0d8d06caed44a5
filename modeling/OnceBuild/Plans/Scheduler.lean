import OnceBuild.Lib.Loop
import OnceBuild.Plans.Topology

/-!
# Running a plan

Model of `scheduler::run`.  Tasks end in any order and in any way: a run is a sequence of joins,
each of a node that is running, followed by starting what became ready.  After the first failure
running work is drained without starting more.

The `log` of a run, newest first, records what started and what was joined.
-/

namespace OnceBuild.Plans

open Lib List

/-- The exit code of a result, and the rest of it. -/
structure Outcome (R : Type) where
  exitCode : Int
  rest : R

structure PlanOutcome (R : Type) where
  index : Nat
  label : Text
  outcome : Outcome R

/-- What `join_next` returns for a task. -/
inductive TaskEnd (R E J : Type) where
  | finished (outcome : Outcome R)
  | errored (error : E)
  | panicked (error : J)

inductive Event (R E J : Type) where
  | started (index : Nat)
  | joined (index : Nat) (ended : TaskEnd R E J)

structure RunState (R E J : Type) where
  topology : Topology
  ready : List Nat
  running : List Nat
  outcomes : Nat → Option (PlanOutcome R)
  aborted : Option (PlanError E J)
  log : List (Event R E J)

variable {A R E J : Type}

def Plan.label (plan : Plan A) (index : Nat) : Text :=
  match plan.nodes[index]? with
  | some node => node.label
  | none => []

def failure (plan : Plan A) (index : Nat) : TaskEnd R E J → Option (PlanError E J)
  | .panicked error => some (.task error)
  | .errored error => some (.core error)
  | .finished outcome =>
    if outcome.exitCode ≠ 0 then some (.failed (plan.label index) outcome.exitCode) else none

namespace RunState

/-- The first nodes of the queue, up to the window.  Every round takes one off the queue. -/
def spawnReady (window : Nat) : Nat → RunState R E J → RunState R E J
  | 0, s => s
  | fuel + 1, s =>
    if s.running.length < window then
      match s.ready with
      | [] => s
      | index :: ready =>
        spawnReady window fuel
          { s with
            ready := ready
            running := s.running ++ [index]
            log := .started index :: s.log }
    else s

/-- The head of the loop of `run`. -/
def spawn (maxInFlight : Nat) (s : RunState R E J) : RunState R E J :=
  if s.aborted.isNone then spawnReady (max maxInFlight 1) s.ready.length s else s

/-- `complete` for a node that succeeded. -/
def succeed (plan : Plan A) (s : RunState R E J) (index : Nat) (outcome : Outcome R) :
    Except (PlanError E J) (RunState R E J) :=
  let recorded := { s with
    outcomes := Function.update s.outcomes index (some ⟨index, plan.label index, outcome⟩) }
  if s.aborted.isNone then
    match countdown s.topology.remaining (s.topology.dependents index) with
    | .error fault => .error (.panicked fault)
    | .ok (remaining, pushed) =>
      .ok { recorded with
        topology := { s.topology with remaining := remaining }
        ready := s.ready ++ pushed }
  else .ok recorded

/-- `complete`, or the error of a task that did not return. -/
def complete (plan : Plan A) (s : RunState R E J) (index : Nat) (ended : TaskEnd R E J) :
    Except (PlanError E J) (RunState R E J) :=
  match failure plan index ended with
  | some error => .error error
  | none =>
    match ended with
    | .finished outcome => s.succeed plan index outcome
    | _ => .ok s

def abort (s : RunState R E J) (error : PlanError E J) : RunState R E J :=
  { s with aborted := s.aborted.or (some error) }

/-- The state after `join_next` returned a task. -/
def taken (s : RunState R E J) (index : Nat) (ended : TaskEnd R E J) : RunState R E J :=
  { s with
    running := s.running.erase index
    log := .joined index ended :: s.log }

/-- One round of the loop: a task is joined, and then the loop is at its head again. -/
def join (plan : Plan A) (maxInFlight : Nat) (s : RunState R E J) (index : Nat)
    (ended : TaskEnd R E J) : RunState R E J :=
  match (s.taken index ended).complete plan index ended with
  | .ok s' => s'.spawn maxInFlight
  | .error error => ((s.taken index ended).abort error).spawn maxInFlight

/-- What `run` returns once nothing is running; an outcome that is missing would panic. -/
def finish (plan : Plan A) (s : RunState R E J) :
    Except (PlanError E J) (Option (List (PlanOutcome R))) :=
  match s.aborted with
  | some error => .error error
  | none => .ok (plan.indices.mapM s.outcomes)

end RunState

/-- The part of `run` before its loop. -/
def start (plan : Plan A) (maxInFlight : Nat) : Except (PlanError E J) (RunState R E J) :=
  match Topology.new plan with
  | .error error => .error error
  | .ok topology => .ok (RunState.spawn maxInFlight
      ⟨topology, topology.roots plan, [], fun _ => none, none, []⟩)

/-- The states of the loop when it waits for a task, over all orders and ways of ending. -/
inductive Reaches (plan : Plan A) (maxInFlight : Nat) : RunState R E J → Prop
  | start {s : RunState R E J} (h : start plan maxInFlight = .ok s) : Reaches plan maxInFlight s
  | join {s : RunState R E J} {index : Nat} {ended : TaskEnd R E J}
      (h : Reaches plan maxInFlight s) (running : index ∈ s.running) :
      Reaches plan maxInFlight (s.join plan maxInFlight index ended)

/-! ## What the log says -/

def startedIds : List (Event R E J) → List Nat
  | [] => []
  | .started index :: log => index :: startedIds log
  | .joined _ _ :: log => startedIds log

def joinedIds : List (Event R E J) → List Nat
  | [] => []
  | .started _ :: log => joinedIds log
  | .joined index _ :: log => index :: joinedIds log

def firstFailure (plan : Plan A) : List (Event R E J) → Option (PlanError E J)
  | [] => none
  | .started _ :: log => firstFailure plan log
  | .joined index ended :: log => (firstFailure plan log).or (failure plan index ended)

def Succeeded (log : List (Event R E J)) (index : Nat) (outcome : Outcome R) : Prop :=
  .joined index (.finished outcome) ∈ log ∧ outcome.exitCode = 0

/-- Each start came after the success of all dependencies, and before any failure. -/
def StartsRight (plan : Plan A) : List (Event R E J) → Prop
  | [] => True
  | .started index :: log =>
    ((∀ d ∈ plan.deps index, ∃ outcome, Succeeded log d outcome) ∧
      firstFailure plan log = none) ∧ StartsRight plan log
  | .joined _ _ :: log => StartsRight plan log

/-- At no time more than `window` nodes were running. -/
def Windowed (window : Nat) : List (Event R E J) → Prop
  | [] => True
  | event :: log =>
    (startedIds (event :: log)).length ≤ (joinedIds (event :: log)).length + window ∧
      Windowed window log

variable {plan : Plan A} {index : Nat}

lemma StartsRight.of_append {newer older : List (Event R E J)}
    (h : StartsRight plan (newer ++ .started index :: older)) :
    (∀ d ∈ plan.deps index, ∃ outcome, Succeeded older d outcome) ∧
      firstFailure plan older = none := by
  induction newer with
  | nil => exact h.1
  | cons event newer ih =>
    cases event with
    | started other => exact ih h.2
    | joined other ended => exact ih h

lemma Windowed.of_append {window : Nat} {newer older : List (Event R E J)}
    (h : Windowed window (newer ++ older)) :
    (startedIds older).length ≤ (joinedIds older).length + window := by
  induction newer with
  | nil =>
    cases older with
    | nil => exact Nat.zero_le _
    | cons event older => exact h.1
  | cons event newer ih => exact ih h.2

lemma failure_eq_none {ended : TaskEnd R E J} :
    failure plan index ended = none ↔ ∃ outcome, ended = .finished outcome ∧ outcome.exitCode =
      0 := by
  cases ended with
  | errored error | panicked error | finished outcome => simp [failure]

lemma succeeded_of_joined {log : List (Event R E J)} (hnone : firstFailure plan log = none)
    (h : index ∈ joinedIds log) : ∃ outcome, Succeeded log index outcome := by
  induction log with
  | nil => cases h
  | cons event log ih =>
    cases event with
    | started other =>
      rcases ih hnone h with ⟨outcome, hmem, hcode⟩
      exact ⟨outcome, mem_cons_of_mem _ hmem, hcode⟩
    | joined other ended =>
      simp only [firstFailure, Option.or_eq_none_iff] at hnone
      rcases mem_cons.mp h with rfl | hrest
      · rcases failure_eq_none.mp hnone.2 with ⟨outcome, rfl, hcode⟩
        exact ⟨outcome, mem_cons_self, hcode⟩
      · rcases ih hnone.1 hrest with ⟨outcome, hmem, hcode⟩
        exact ⟨outcome, mem_cons_of_mem _ hmem, hcode⟩

lemma joined_of_succeeded {log : List (Event R E J)} {outcome : Outcome R}
    (h : Succeeded log index outcome) : index ∈ joinedIds log := by
  rcases h with ⟨hmem, -⟩
  induction log with
  | nil => cases hmem
  | cons event log ih =>
    rcases mem_cons.mp hmem with rfl | hrest
    · exact mem_cons_self
    · cases event with
      | started other => exact ih hrest
      | joined other ended => exact mem_cons_of_mem _ (ih hrest)

end OnceBuild.Plans
