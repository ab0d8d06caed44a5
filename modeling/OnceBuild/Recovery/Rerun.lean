import OnceBuild.Actions.Batches
import OnceBuild.Lib.Triple
import OnceBuild.Recovery.Producers

/-!
# What a restore with repair does to the workspace

`Repair::restore` puts outputs back from the cache.  For an output the cache has lost it runs the
recorded producer again: it restores the inputs the producer was recorded with, which may run other
producers first, prepares, runs the command and compares the outputs with the recorded ones.

The registry says what was recorded.  The ledger holds what changes while repairs go on: the blobs
the cache holds, the answers of the repairs so far and the executions that are left.  `chain` lists
the repairs that wait for the one at hand.  A restore first fetches every blob it needs, so one that
misses a blob has not touched the workspace.
-/

namespace OnceBuild.Recovery

open Lib
open Actions (Path DeclaredAction)
open Cas (Digest)

variable {α : Type}

/-- An output by the components of its path, as `WorkspacePath::resolve` takes them, and the digest
of its contents. -/
abbrev Version := Path × Digest

abbrev Work (α β : Type) := Program (FileOp Text α) (FileAnswer α) β

/-- A recorded producer with all it takes to run it again. -/
structure Recipe (α : Type) where
  action : Digest
  declared : DeclaredAction
  argFile : Path → α
  inputs : List Version
  outputs : List Version
  command : Work α Unit
  /-- Whether the command ends with status 0 when it has left this workspace. -/
  succeeds : FileTree Text α → Bool

structure Registry (α : Type) where
  limits : RepairLimits
  /-- The tree that the blob of a digest unpacks to. -/
  blob : Digest → FileTree Text α
  /-- `existing_output_matches_digest` of what is at a path. -/
  holds : Digest → FileTree Text α → Bool
  producerOf : Version → Option (Recipe α)

structure Ledger where
  held : Digest → Bool
  answers : Digest → Option Bool
  remaining : Nat

/-- How one attempt to restore outputs ends. -/
inductive Attempt where
  | restored
  /-- A blob is gone or unavailable. -/
  | missing
  | failed
  deriving DecidableEq

def succeeded : FileAnswer α → Bool
  | .ok => true
  | _ => false

namespace Registry

variable (reg : Registry α)

/-! ## Restoring from the cache -/

def isThere (v : Version) : Work α Bool := do
  let answer ← Program.perform (.check v.1 (reg.holds v.2))
  pure (succeeded answer)

/-- The outputs whose content is not in place. -/
def staleOutputs : List Version → Work α (List Version)
  | [] => pure []
  | v :: vs => do
      let there ← reg.isThere v
      let stale ← staleOutputs vs
      pure (if there then stale else v :: stale)

/-- What is below an output that is not in place is restored with it. -/
def outputsNeedingRestore (outputs : List Version) : Work α (List Version) := do
  let stale ← reg.staleOutputs outputs
  pure (outputs.filter fun v => stale.any fun u => u.1.isPrefixOf v.1)

/-- Put the fetched outputs in place, in the order of their paths. -/
def commit : List Version → Work α Bool
  | [] => pure true
  | v :: vs => do
      let there ← reg.isThere v
      if there then commit vs
      else
        let answer ← Program.perform (.place v.1 (reg.blob v.2))
        if succeeded answer then commit vs else pure false

def restoreAttempt (ledger : Ledger) (outputs : List Version) : Work α Attempt := do
  let needed ← reg.outputsNeedingRestore outputs
  if needed.all fun v => ledger.held v.2 then
    let placed ← reg.commit needed
    pure (if placed then .restored else .failed)
  else pure .missing

/-! ## Restoring with repair -/

/-- The outputs one by one; `again` runs a producer again. -/
def restoreEach (again : Recipe α → Ledger → Work α (Bool × Ledger)) :
    List Version → Ledger → Work α (Bool × Ledger)
  | [], ledger => pure (true, ledger)
  | v :: vs, ledger => do
      match ← reg.restoreAttempt ledger [v] with
      | .restored => restoreEach again vs ledger
      | .failed => pure (false, ledger)
      | .missing =>
        match reg.producerOf v with
        | none => pure (false, ledger)
        | some recipe => do
            let (ok, ledger) ← again recipe ledger
            if ok then
              match ← reg.restoreAttempt ledger [v] with
              | .restored => restoreEach again vs ledger
              | _ => pure (false, ledger)
            else pure (false, ledger)

def restoreAt (again : Recipe α → Ledger → Work α (Bool × Ledger)) (outputs : List Version)
    (ledger : Ledger) : Work α (Bool × Ledger) := do
  match ← reg.restoreAttempt ledger outputs with
  | .restored => pure (true, ledger)
  | .failed => pure (false, ledger)
  | .missing => reg.restoreEach again outputs ledger

/-- The operations in order, up to the first that fails. -/
def prepare : List (FileOp Text α) → Work α Bool
  | [] => pure true
  | o :: os => do
      match ← Program.perform o with
      | .failed => pure false
      | _ => prepare os

/-- Whether all outputs are what they were recorded as. -/
def unchanged : List Version → Work α Bool
  | [] => pure true
  | v :: vs => do
      let there ← reg.isThere v
      if there then unchanged vs else pure false

/-- Preparation, command and comparison of the outputs. -/
def execute (recipe : Recipe α) : Work α Bool := do
  let prepared ← prepare (recipe.declared.setup recipe.argFile)
  if prepared then
    recipe.command
    let answer ← Program.perform (.check [] recipe.succeeds)
    if succeeded answer then reg.unchanged recipe.outputs else pure false
  else pure false

def restoreInputs (again : Recipe α → Ledger → Work α (Bool × Ledger)) (recipe : Recipe α)
    (ledger : Ledger) : Work α (Bool × Ledger) :=
  if recipe.inputs.isEmpty then pure (true, ledger)
  else reg.restoreAt again recipe.inputs ledger

def rerun (again : Recipe α → Ledger → Work α (Bool × Ledger)) (recipe : Recipe α)
    (ledger : Ledger) : Work α (Bool × Ledger) := do
  let (ready, ledger) ← reg.restoreInputs again recipe ledger
  if ready then
    let ok ← reg.execute recipe
    if ok then
      -- executing stored the outputs in the cache
      pure (true, { ledger with
        held := fun d => ledger.held d || recipe.outputs.any fun v => v.2 = d })
    else pure (false, ledger)
  else pure (false, ledger)

/-- `fuel` counts the producers that the limit on chains still allows. -/
def repair : Nat → List Digest → Recipe α → Ledger → Work α (Bool × Ledger)
  | 0, _, _, ledger => pure (false, ledger)
  | fuel + 1, chain, recipe, ledger =>
    if recipe.action ∈ chain then pure (false, ledger)
    else
      match ledger.answers recipe.action with
      | some answer => pure (answer, ledger)
      | none =>
        match ledger.remaining with
        | 0 => pure (false, { ledger with
            answers := Function.update ledger.answers recipe.action (some false) })
        | remaining + 1 => do
            let (ok, ledger) ← reg.rerun (repair fuel (recipe.action :: chain)) recipe
              { ledger with remaining }
            pure (ok, { ledger with
              answers := Function.update ledger.answers recipe.action (some ok) })

/-- `Repair::restore`. -/
def restore (outputs : List Version) (ledger : Ledger) : Work α (Bool × Ledger) :=
  reg.restoreAt (reg.repair reg.limits.depth []) outputs ledger

end Registry

end OnceBuild.Recovery
