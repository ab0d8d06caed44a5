import OnceBuild.Actions.Batches
import OnceBuild.Actions.Recording

/-!
# What the runner does behind its deferred results

The abstract runner keeps no pending results: it has the digests recorded so far and a disk that
holds all of them.  It records a cached result by writing it, and a command by writing what the
command leaves.  A `Trace` is a run of it, with the commands that start.

A round of the runner is a trace of its batch, as long as its restorations are tidy: a restoration
may put an output over others that lie inside it and stay as they are, and then what the runner has
on disk is no longer what it recorded.
-/

namespace OnceBuild.Actions

open Lib
open Cas (Digest)

variable {C : Type} {h : ActionHost C}

/-! ## The abstract runner -/

/-- Two disks hold the same at and below the given paths. -/
def SameAt (paths : List Path) (disk disk' : Disk C) : Prop :=
  ∀ path ∈ paths, ∀ z, path <+: z → disk z = disk' z

/-- The digests of the recorded outputs, a disk that holds them, and the outputs declared so far. -/
structure Shadow (C : Type) where
  keys : Path → Option Digest
  disk : Disk C
  outputs : List Path

/-- Recorded digests after new outputs, which drop what was below them. -/
def extendKeys (keys : Path → Option Digest) (outputs : Outputs) : Path → Option Digest :=
  fun path =>
    match outputs.get path with
    | some digest => some digest
    | none => pruneReplacedDescendants keys outputs path

def Shadow.add (h : ActionHost C) (s : Shadow C) (outputs : Outputs) (declared : List Path) :
    Shadow C where
  keys := extendKeys s.keys outputs
  disk := writeAll h.blob outputs.entries s.disk
  outputs := s.outputs ++ declared

/-- The outputs that the inputs come from are on disk. -/
def InputsReady (available : AvailableInputs) (a : DeclaredAction) : Prop :=
  ∀ input ∈ a.inputs, ∀ path found, closest available input = some (path, found) →
    found.materialized = true

/-- The outputs inside the inputs are on disk. -/
def InputsComplete (available : AvailableInputs) (a : DeclaredAction) : Prop :=
  ∀ input ∈ a.inputs, ∀ path found, available path = some found → input <+: path → path ≠ input →
    found.materialized = true

def digestsOf (available : AvailableInputs) : Path → Option Digest :=
  fun path => (available path).map AvailableInput.blobDigest

/-- A command that starts when the abstract runner is at `s`.  When `strict` holds, everything
inside its inputs is on disk. -/
structure StartedOn (h : ActionHost C) (strict : Prop) (s : Shadow C) (start : ActionStart C) :
    Prop where
  /-- Around the inputs the key is composed from what is recorded. -/
  keyed : ∀ input ∈ start.declared.inputs, ∀ path, path <+: input ∨ input <+: path →
    digestsOf start.available path = s.keys path
  digest : ∃ prior disk, start.digest = actionDigest h start.available prior disk start.declared ∧
    ∀ z, closest s.keys z = none → disk z = s.disk z
  ready : ∃ available, digestsOf available = s.keys ∧
    promised h.blob available start.disk = s.disk ∧ InputsReady available start.declared ∧
    (strict → InputsComplete available start.declared)
  prior : start.declared.dependsOnPriorActions = true →
    start.earlier = s.outputs ∧ SameAt s.outputs start.disk s.disk

def Lookup.cached : Lookup → Option (Path → Digest)
  | .hit digests => some digests
  | .lateHit digests => some digests
  | .miss => none

/-- A run of the abstract runner over a queue, with the commands that start. -/
inductive Trace (h : ActionHost C) (strict : Prop) :
    Shadow C → List (DeclaredAction × Lookup) → List (ActionStart C) → Shadow C → Prop
  | nil (s : Shadow C) : Trace h strict s [] [] s
  | cached {s s' : Shadow C} {a : DeclaredAction} {lookup : Lookup}
      {queue : List (DeclaredAction × Lookup)} {starts : List (ActionStart C)}
      {digests : Path → Digest} (hlookup : lookup.cached = some digests)
      (hrest : Trace h strict (s.add h (outputsAt a.outputs digests) a.outputs) queue starts s') :
      Trace h strict s ((a, lookup) :: queue) starts s'
  | ran {s s' : Shadow C} {start : ActionStart C} {queue : List (DeclaredAction × Lookup)}
      {starts : List (ActionStart C)} (hstart : StartedOn h strict s start)
      (hrest : Trace h strict (s.add h
          (outputsAt start.declared.outputs (h.execute start.declared start.disk))
          start.declared.outputs) queue starts s') :
      Trace h strict s ((start.declared, .miss) :: queue) (start :: starts) s'

lemma Trace.append {strict : Prop} {s s' s'' : Shadow C}
    {queue more : List (DeclaredAction × Lookup)} {starts starts' : List (ActionStart C)}
    (hfirst : Trace h strict s queue starts s') (hsecond : Trace h strict s' more starts' s'') :
    Trace h strict s (queue ++ more) (starts ++ starts') s'' := by
  induction hfirst with
  | nil s => exact hsecond
  | cached hlookup _ ih => exact .cached hlookup (ih hsecond)
  | ran hstart _ ih => exact .ran hstart (ih hsecond)

lemma Trace.outputs_eq {strict : Prop} {s s' : Shadow C} {queue : List (DeclaredAction × Lookup)}
    {starts : List (ActionStart C)} (htrace : Trace h strict s queue starts s') :
    s'.outputs = s.outputs ++ queue.flatMap fun item => item.1.outputs := by
  induction htrace with
  | nil s => simp
  | cached _ _ ih | ran _ _ ih =>
    rw [ih, List.flatMap_cons, ← List.append_assoc]
    rfl

/-! ## Inputs on disk -/

variable {available : AvailableInputs} {a : DeclaredAction}

lemma inputsReady_mark {ready : List Path}
    (hready : ∀ path ∈ requiredOutputs available a, path ∈ ready) :
    InputsReady (markAvailable available ready) a := by
  intro input hinput path found hclosest
  rw [closest_markAvailable] at hclosest
  obtain ⟨before, hbefore, heq⟩ := Option.map_eq_some_iff.mp hclosest
  cases heq
  rw [markInput_of_mem (hready _ (mem_requiredOutputs.mpr ⟨input, hinput, _, hbefore⟩))]

lemma InputsReady.mark (hready : InputsReady available a) (ready : List Path) :
    InputsReady (markAvailable available ready) a := by
  intro input hinput path found hclosest
  rw [closest_markAvailable] at hclosest
  obtain ⟨before, hbefore, heq⟩ := Option.map_eq_some_iff.mp hclosest
  cases heq
  have hmaterialized := hready input hinput _ _ hbefore
  rw [markInput_materialized hmaterialized, hmaterialized]

variable {blob : Digest → Disk C}

lemma sameAt_of_ready {disk shadow : Disk C} (hpromised : promised blob available disk = shadow)
    (hready : InputsReady available a) (hcomplete : InputsComplete available a) :
    SameAt a.inputs disk shadow := by
  intro input hinput z hz
  rw [← hpromised]
  refine (promised_eq_disk fun path found hclosest => ?_).symm
  obtain ⟨hpath, hne, hfound, hlongest⟩ := closest_eq_some hclosest
  by_cases habove : path <+: input
  · -- nothing is closer to the input either
    refine hready input hinput path found (closest_of_longest habove hne hfound ?_)
    exact fun q hq hqinput => hlongest q hq (hqinput.trans hz)
  · have hbelow : input <+: path :=
      ( List.prefix_or_prefix_of_prefix hpath hz).resolve_left habove
    exact hcomplete input hinput path found hfound hbelow fun heq =>
      habove (heq ▸ List.prefix_refl _)

lemma DeferralOk.sameAt_recorded {recorded : List Path} {disk shadow : Disk C}
    {st : DeclaredActionsState} (hok : DeferralOk blob recorded disk st shadow)
    (hnone : st.pending.entries = []) : SameAt recorded disk shadow := by
  intro o ho z hz
  obtain ⟨path, found, hfound, hown, hle⟩ := hok.covered o ho
  rw [← hok.promised]
  refine (promised_eq_disk fun path' found' hclosest => ?_).symm
  obtain ⟨-, -, hfound', hlongest⟩ := closest_eq_some hclosest
  have hbelow : path <+: path' :=
    hlongest path (ne_nil_of_available hok.pending hfound) (hle.trans hz) (by rw [hfound]; rfl)
  have hown' := hok.own path found path' found' hfound hown hfound' hbelow
  by_contra hunmaterialized
  obtain ⟨digest, hpending⟩ :=
    hok.pending.kept path' found' hfound' hown' (Bool.not_eq_true _ ▸ hunmaterialized)
  rw [hnone] at hpending
  cases hpending

/-! ## The state behind the abstract runner -/

/-- The disk and the state of the runner stand for the abstract runner at `s`. -/
structure Tracks (h : ActionHost C) (disk : Disk C) (st : DeclaredActionsState) (s : Shadow C) :
    Prop where
  ok : DeferralOk h.blob s.outputs disk st s.disk
  keys : digestsOf st.availableInputs = s.keys

section tracks

variable {disk : Disk C} {st st' : DeclaredActionsState} {s : Shadow C} {a : DeclaredAction}
  {n : Nat}

lemma Tracks.congr (htracks : Tracks h disk st s) (hsame : SameState st st') :
    Tracks h disk st' s where
  ok := htracks.ok.congr hsame
  keys := by
    rw [hsame.available]
    exact htracks.keys

lemma digestsOf_mark (available : AvailableInputs) (ready : List Path) :
    digestsOf (markAvailable available ready) = digestsOf available := by
  funext path
  simp only [digestsOf, markAvailable, Option.map_map]
  congr 1
  funext input
  simp only [Function.comp_apply, markInput]
  split <;> rfl

lemma Tracks.restore (htracks : Tracks h disk st s)
    (htidy : Tidy (h.paths disk) st.pending st.availableInputs a) :
    Tracks h (restoreFor h st.pending st.availableInputs a disk).1
      (st.markRestored (restoreFor h st.pending st.availableInputs a disk).2) s where
  ok := htracks.ok.restore htidy
  keys := (digestsOf_mark _ _).trans htracks.keys

lemma digestsOf_extend (available : AvailableInputs) (outcome : ActionOutcome C) :
    digestsOf (DeclaredActionsState.extendAvailable available outcome) =
      extendKeys (digestsOf available) outcome.outputs := by
  funext path
  simp only [digestsOf, DeclaredActionsState.extendAvailable, extendKeys]
  cases outcome.outputs.get path with
  | some digest => rfl
  | none =>
    simp only [pruneReplacedDescendants]
    split <;> rfl

variable {outcome : ActionOutcome C}

lemma outcomeOf_outputsAt (hwrites : WritesOutputs a) {digests : Path → Digest}
    (houtputs : outcome.outputs = outputsAt a.outputs digests) : OutcomeOf a outcome where
  writes := hwrites
  keys path := by rw [houtputs, mem_keys_outputsAt]

lemma Tracks.add (htracks : Tracks h disk st s) (hof : OutcomeOf a outcome)
    (hclear : outcome.hit = false → Cleared a n st) :
    Tracks h (if outcome.hit then disk else writeAll h.blob outcome.outputs.entries disk)
      (st.add h outcome (.forAction a n)) (s.add h outcome.outputs a.outputs) where
  ok := htracks.ok.add hof hclear
  keys := by
    rw [hof.add_available, digestsOf_extend, htracks.keys]
    rfl

variable {outcome : ActionOutcome C} {digests : Path → Digest}

lemma Tracks.hit (htracks : Tracks h disk st s) (hwrites : WritesOutputs a)
    (hhit : outcome.hit = true) (houtputs : outcome.outputs = outputsAt a.outputs digests) :
    Tracks h disk (st.add h outcome (.forAction a n))
      (s.add h (outputsAt a.outputs digests) a.outputs) := by
  have hadd := htracks.add (n := n) (outcomeOf_outputsAt hwrites houtputs)
    fun hmiss => absurd (hhit.symm.trans hmiss) (by decide)
  rwa [hhit, houtputs] at hadd

lemma Tracks.miss (htracks : Tracks h disk st s) (hwrites : WritesOutputs a)
    (hclear : Cleared a n st) (hmiss : outcome.hit = false)
    (houtputs : outcome.outputs = outputsAt a.outputs digests) :
    Tracks h (writeAll h.blob (outputsAt a.outputs digests).entries disk)
      (st.add h outcome (.forAction a n)) (s.add h (outputsAt a.outputs digests) a.outputs) := by
  have hadd := htracks.add (outcomeOf_outputsAt hwrites houtputs) fun _ => hclear
  rwa [hmiss, houtputs] at hadd

lemma closest_digestsOf (available : AvailableInputs) (z : Path) :
    closest (digestsOf available) z =
      (closest available z).map fun found => (found.1, found.2.blobDigest) :=
  closest_map available _ z

lemma Tracks.disk_eq (htracks : Tracks h disk st s) {z : Path} (hz : closest s.keys z = none) :
    disk z = s.disk z := by
  rw [← htracks.keys, closest_digestsOf, Option.map_eq_none_iff] at hz
  rw [← htracks.ok.promised, promised_of_none hz]

end tracks

end OnceBuild.Actions
