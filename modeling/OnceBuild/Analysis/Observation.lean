import OnceBuild.Analysis.Disk
import OnceBuild.Lib.Ask

/-!
# What an analysis asks of the world around it

Model of `Observation` and of `observations_hold`.  An implementation of a target kind is a
computation that asks questions.  Its ledger lists the answers it was given; a stored analysis is
replayed when the host still gives these answers.  An expansion of path patterns need not be asked
again when no changed path is one that it could select.

An answer stands for what the ledger keeps of it: digests are compared instead of contents.
-/

namespace OnceBuild.Analysis

open Lib

/-- The questions, by the variants of `Observation`. -/
inductive Question where
  | platform
  | env (name : Text)
  | environmentDigest
  | which (name : Text)
  | command (argv : List Text) (env : List (Text × Text)) (cwd : Option Text)
      (mergeStderr check : Bool) (maxOutputBytes : Option Nat)
  | fileDigest (path : Text)
  | fileSize (path : Text)
  | symlinkTarget (path : Text)
  | treeDigest (path : Text)
  | fileExists (path : Text)
  | pathExists (path : Text)
  | pathWithin (path root : Text)
  | fileText (path : Text)
  | fileContains (path needle : Text)
  | readDir (path : Text)
  | paths (request : Request)
  deriving DecidableEq

inductive Answer where
  | platform (arch os : Text)
  | found (value : Option Text)
  | text (value : Text)
  | bytes (count : Int)
  | flag (value : Bool)
  | names (list : List Text)
  /-- The question raised an error. -/
  | failed
  deriving DecidableEq

variable {E : Type}

/-- The host in the state `E`.  `ask` answers what is not an expansion; `recordable` tells what the
ledger can describe. -/
structure Observer (E : Type) where
  host : Host
  ask : Disk → E → Question → Answer
  recordable : Question → Bool

variable (o : Observer E)

def Observer.expand (disk : Disk) (r : Request) : Answer :=
  match expandObservedPaths o.host disk.tree r with
  | some found => .names found
  | none => .failed

def Observer.answer (disk : Disk) (env : E) : Question → Answer
  | .paths r => o.expand disk r
  | question => o.ask disk env question

/-! ## Ledgers -/

/-- `AnalysisObservations`. -/
structure Observations where
  entries : List (Question × Answer)
  incomplete : Bool

namespace Observations

def empty : Observations := ⟨[], false⟩

def isComplete (obs : Observations) : Bool := !obs.incomplete

/-- `AnalysisObservations::record`: a question asked twice is recorded once. -/
def record (obs : Observations) (entry : Question × Answer) : Observations :=
  if entry ∈ obs.entries then obs else { obs with entries := obs.entries ++ [entry] }

end Observations

/-- One question of an analysis, with what the ledger makes of it. -/
def Observer.observe (obs : Observations) (entry : Question × Answer) : Observations :=
  if o.recordable entry.1 then obs.record entry else { obs with incomplete := true }

/-- The ledger of an analysis that was given these answers. -/
def Observer.ledger (asked : List (Question × Answer)) : Observations :=
  asked.foldl o.observe .empty

inductive UnchangedWorkspace where
  | unknown
  | except (changed : Finset Text)

def UnchangedWorkspace.expansionCouldDiffer (host : Host) : UnchangedWorkspace → Request → Bool
  | .unknown, _ => true
  | .except changed, r => Analysis.expansionCouldDiffer host changed r

/-- `observation_holds` with `CommandPolicy::Rerun`. -/
def observationHolds (disk : Disk) (env : E) (unchanged : UnchangedWorkspace)
    (entry : Question × Answer) : Bool :=
  match entry.1 with
  | .paths r => !unchanged.expansionCouldDiffer o.host r || o.expand disk r == entry.2
  | question => o.ask disk env question == entry.2

def observationsHold (disk : Disk) (env : E) (unchanged : UnchangedWorkspace)
    (obs : Observations) : Bool :=
  obs.isComplete && obs.entries.all (observationHolds o disk env unchanged)

/-! ## What a ledger keeps -/

lemma Observations.mem_record {obs : Observations} {entry e : Question × Answer} :
    e ∈ (obs.record entry).entries ↔ e ∈ obs.entries ∨ e = entry := by
  unfold record
  split
  case isTrue hmem =>
    constructor
    · exact Or.inl
    · rintro (he | rfl)
      · exact he
      · exact hmem
  case isFalse => simp

lemma Observer.ledger_complete {asked : List (Question × Answer)}
    (hcomplete : (o.ledger asked).isComplete = true) :
    ∀ e ∈ asked, e ∈ (o.ledger asked).entries := by
  -- for any ledger the analysis starts from
  have key : ∀ (asked : List (Question × Answer)) (obs : Observations),
      (asked.foldl o.observe obs).isComplete = true →
      obs.isComplete = true ∧
        ∀ e, e ∈ obs.entries ∨ e ∈ asked → e ∈ (asked.foldl o.observe obs).entries := by
    intro asked
    induction asked with
    | nil =>
      intro obs hobs
      refine ⟨hobs, fun e he => ?_⟩
      rcases he with he | he
      · exact he
      · cases he
    | cons entry asked ih =>
      intro obs hobs
      obtain ⟨hstep, hmem⟩ := ih _ hobs
      unfold observe at hstep
      split at hstep
      case isFalse => cases hstep
      case isTrue hrecord =>
        refine ⟨?_, fun e he => hmem e ?_⟩
        · unfold Observations.record at hstep
          split at hstep <;> exact hstep
        · unfold observe
          rw [if_pos hrecord, Observations.mem_record]
          rcases he with he | he
          · exact .inl (.inl he)
          · rcases List.mem_cons.mp he with rfl | he
            · exact .inl (.inr rfl)
            · exact .inr he
  exact fun e he => (key asked .empty hcomplete).2 e (.inr he)

end OnceBuild.Analysis
