import OnceBuild.Cas.Digest
import OnceBuild.Lib.Reach
import OnceBuild.Lib.Runs

/-!
# Repairing lost outputs by running their producers again

Every target of an invocation shares one registry of the actions that produced the outputs seen so
far.  A restore that finds an output gone asks for the repair of its producer.  The registry keeps
one repair for each action digest, also after it has answered, and the set of edges that says which
repair waits for which.

The state below holds what the source shares between tasks, the calls of `repair` that are on their
way, and a log of what was run again and what was replied.  A step is what one task does while it
holds one of the registry's locks, so every interleaving of restores and repairs is a run.
-/

namespace OnceBuild.Recovery

open Lib
open Cas (Digest)

/-- An output by its path and the digest of its contents. -/
abbrev Output := Text × Digest

/-- How much repairing one invocation may do.  The deadline of a repair is not kept: a repair may
end at any moment. -/
structure RepairLimits where
  depth : Nat
  executions : Nat

def RepairLimits.default : RepairLimits where
  depth := 8
  executions := 64

/-- How one action produced its outputs; `action` is the digest of the action. -/
structure Producer where
  action : Digest
  inputs : List Output
  outputs : List Output

abbrev RepairOutcome := Except String Unit

inductive Repair where
  /-- Its task has not been polled yet. -/
  | spawned (producer : Producer) (depth : Nat)
  /-- It has spent one execution: it restores the producer's inputs and runs the action. -/
  | rerunning (producer : Producer) (depth : Nat)
  | answered (outcome : RepairOutcome)

/-- One call of `repair` that was not refused.  `waiter` is the repair the calling restore runs
inside, if any, and `joined` says that it awaits the shared future. -/
structure Call where
  id : Nat
  waiter : Option Digest
  depth : Nat
  producer : Producer
  joined : Bool

/-- What a call of `repair` came back with. -/
inductive Reply where
  /-- Turned away before it reached the shared future. -/
  | refused (message : String)
  | answered (outcome : RepairOutcome)

structure Producers where
  byOutput : List (Output × Producer)
  repairs : Digest → Option Repair
  waits : List (Digest × Digest)
  remaining : Nat
  calls : List Call
  /-- Digests in the order, newest first, in which their actions were run again. -/
  reruns : List Digest
  replies : List (Digest × Reply)

namespace Producers

variable (limits : RepairLimits)

def withLimits : Producers where
  byOutput := []
  repairs := fun _ => none
  waits := []
  remaining := limits.executions
  calls := []
  reruns := []
  replies := []

/-! ## The registry's own operations -/

variable (s : Producers)

def record (producer : Producer) : Producers :=
  if producer.outputs = [] then s
  else { s with byOutput := producer.outputs.map (fun o => (o, producer)) ++ s.byOutput }

def producerOf (output : Output) : Option Producer := s.byOutput.lookup output

/-- One execution less, unless none is left. -/
def spendRepair : Option Producers :=
  match s.remaining with
  | 0 => none
  | remaining + 1 => some { s with remaining }

/-- Record that the repair of `waiter` waits on the repair of `awaited`, unless `awaited` already
waits on `waiter`. -/
def beginWait (waiter awaited : Digest) : Option Producers :=
  if waiter = awaited ∨ reaches s.waits awaited waiter = true then none
  else some { s with waits := s.waits.insert (waiter, awaited) }

/-- `WaitEdge::drop`; a call from outside every repair holds no edge. -/
def endWait (call : Call) : Producers :=
  match call.waiter with
  | none => s
  | some waiter => { s with waits := s.waits.filter (· ≠ (waiter, call.producer.action)) }

section EndWait

variable (s : Producers) (call : Call)

@[simp] lemma endWait_repairs : (s.endWait call).repairs = s.repairs := by
  simp only [endWait]
  split <;> rfl

@[simp] lemma endWait_calls : (s.endWait call).calls = s.calls := by
  simp only [endWait]
  split <;> rfl

@[simp] lemma endWait_remaining : (s.endWait call).remaining = s.remaining := by
  simp only [endWait]
  split <;> rfl

@[simp] lemma endWait_reruns : (s.endWait call).reruns = s.reruns := by
  simp only [endWait]
  split <;> rfl

@[simp] lemma endWait_replies : (s.endWait call).replies = s.replies := by
  simp only [endWait]
  split <;> rfl

lemma mem_of_mem_endWait {edge : Digest × Digest} (h : edge ∈ (s.endWait call).waits) :
    edge ∈ s.waits := by
  simp only [endWait] at h
  split at h
  · exact h
  · exact List.mem_of_mem_filter h

end EndWait

/-! ## Calls of `repair` -/

def reply (digest : Digest) (r : Reply) : Producers :=
  { s with replies := (digest, r) :: s.replies }

def enter (call : Call) : Producers := { s with calls := call :: s.calls }

def remove (id : Nat) : Producers := { s with calls := s.calls.filter (·.id ≠ id) }

def tooDeepMessage : String :=
  "recovering missing outputs needed more than " ++ toString limits.depth ++ " producers in a chain"

def cycleMessage (waiter awaited : Digest) : String :=
  "recovering action " ++ String.ofList waiter.hex ++ " needs action " ++
    String.ofList awaited.hex ++ " to run again, which itself needs " ++
    String.ofList waiter.hex ++ "; the recorded producers form a cycle"

def exhaustedMessage : String :=
  "this build already ran " ++ toString limits.executions ++
    " actions again to recover missing cache content; the cache is losing content faster than it " ++
    "can be repaired"

/-- The first half of `repair`: the limit on chains and the wait edge. -/
def ask (id : Nat) (waiter : Option Digest) (depth : Nat) (producer : Producer) : Producers :=
  if limits.depth ≤ depth then
    s.reply producer.action (.refused (tooDeepMessage limits))
  else
    match waiter with
    | none => s.enter ⟨id, none, depth, producer, false⟩
    | some w =>
      match s.beginWait w producer.action with
      | none => s.reply producer.action (.refused (cycleMessage w producer.action))
      | some s' => s'.enter ⟨id, some w, depth, producer, false⟩

/-- The second half of `repair`: the entry of the repair table, which spawns the repair of a digest
that has none. -/
def join (call : Call) : Producers :=
  { s with
    repairs :=
      match s.repairs call.producer.action with
      | none => Function.update s.repairs call.producer.action
          (some (.spawned call.producer call.depth))
      | some _ => s.repairs
    calls := s.calls.map (fun c => if c.id = call.id then { c with joined := true } else c) }

def start (digest : Digest) (producer : Producer) (depth : Nat) : Producers :=
  match s.spendRepair with
  | none =>
    { s with
      repairs := Function.update s.repairs digest
        (some (.answered (.error (exhaustedMessage limits)))) }
  | some s' =>
    { s' with
      repairs := Function.update s'.repairs digest (some (.rerunning producer depth))
      reruns := digest :: s'.reruns }

/-- The end of a repair, by its own answer, its deadline or a panic.  Dropping what is left of its
restore drops the call it is in and that call's edge. -/
def finish (digest : Digest) (outcome : RepairOutcome) : Producers :=
  { s with
    repairs := Function.update s.repairs digest (some (.answered outcome))
    calls := s.calls.filter (·.waiter ≠ some digest)
    waits := s.waits.filter (·.1 ≠ digest) }

/-! ## Steps -/

inductive Event where
  | record (producer : Producer)
  /-- A restore of the build asks for the repair of a lost output. -/
  | restore (id : Nat) (output : Output)
  /-- The restore of a repair's recorded inputs asks for the repair of one of them. -/
  | restoreInput (id : Nat) (waiter : Digest) (input : Output)
  | join (id : Nat)
  | start (digest : Digest)
  | finish (digest : Digest) (outcome : RepairOutcome)
  | answer (id : Nat)
  /-- A restore of the build is dropped. -/
  | leave (id : Nat)

def callOf (id : Nat) : Option Call := s.calls.find? (·.id = id)

/-- One step; `none` when the event cannot happen.  The restore inside a repair goes through its
inputs one by one, so it asks only while it is in no other call. -/
def step : Event → Option Producers
  | .record producer => some (s.record producer)
  | .restore id output =>
    match s.callOf id, s.producerOf output with
    | none, some producer => some (s.ask limits id none 0 producer)
    | _, _ => none
  | .restoreInput id waiter input =>
    match s.repairs waiter, s.callOf id, s.producerOf input with
    | some (.rerunning me depth), none, some producer =>
      if input ∈ me.inputs ∧ ∀ c ∈ s.calls, c.waiter ≠ some waiter then
        some (s.ask limits id (some waiter) (depth + 1) producer)
      else none
    | _, _, _ => none
  | .join id =>
    match s.callOf id with
    | some call => if call.joined then none else some (s.join call)
    | none => none
  | .start digest =>
    match s.repairs digest with
    | some (.spawned producer depth) => some (s.start limits digest producer depth)
    | _ => none
  | .finish digest outcome =>
    match s.repairs digest with
    | some (.rerunning _ _) => some (s.finish digest outcome)
    | _ => none
  | .answer id =>
    match s.callOf id with
    | some call =>
      if call.joined then
        match s.repairs call.producer.action with
        | some (.answered outcome) =>
          some (((s.endWait call).remove id).reply call.producer.action (.answered outcome))
        | _ => none
      else none
    | none => none
  | .leave id =>
    match s.callOf id with
    | some call => if call.waiter = none then some (s.remove id) else none
    | none => none

/-- The repair of `d` waits for the repair of `e`. -/
def WaitsFor (d e : Digest) : Prop :=
  ∃ call ∈ s.calls, call.waiter = some d ∧ call.producer.action = e

end Producers

end OnceBuild.Recovery
