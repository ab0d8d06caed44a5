import OnceBuild.Actions.Rounds

/-!
# The runner refines eager execution

Eager execution puts every cached result on disk as soon as it is recorded.  It is the abstract
runner, as long as each command finds what was recorded at its inputs: a declared input may contain
an output that is pending or not on disk, which nothing asks for.  In a run where this does not
happen, and all restorations are tidy, every command starts on the content that eager execution has,
and at the end all results are the same, except for intermediate ones that nothing asked for.
-/

namespace OnceBuild.Actions

open Lib List
open Cas (Digest)

variable {C : Type} {h : ActionHost C}

/-! ## Actions that keep to their paths -/

/-- What a command leaves depends on its inputs only, and on all earlier outputs when it depends on
prior actions. -/
def ReadsInputs (h : ActionHost C) (earlier : List Path) (a : DeclaredAction) : Prop :=
  ∀ disk disk', SameAt a.inputs disk disk' →
    (a.dependsOnPriorActions = true → SameAt earlier disk disk') →
    ∀ o ∈ a.outputs, h.execute a disk o = h.execute a disk' o

/-- Every action of a queue writes only its outputs and reads only what it declares. -/
def KeepToPaths (h : ActionHost C) : List Path → List (DeclaredAction × Lookup) → Prop
  | _, [] => True
  | earlier, (a, _) :: queue =>
    WritesOutputs a ∧ ReadsInputs h earlier a ∧ KeepToPaths h (earlier ++ a.outputs) queue

variable {queue : List (DeclaredAction × Lookup)}

lemma KeepToPaths.writes {earlier : List Path} (hkeep : KeepToPaths h earlier queue) :
    ∀ item ∈ queue, WritesOutputs item.1 := by
  induction queue generalizing earlier with
  | nil => exact fun _ hitem => absurd hitem not_mem_nil
  | cons first queue ih =>
    obtain ⟨hwrites, -, hrest⟩ := hkeep
    intro item hitem
    rcases mem_cons.mp hitem with rfl | hitem
    · exact hwrites
    · exact ih hrest item hitem

/-! ## Eager execution is the abstract runner -/

/-- A command started in both runs, on the same content where it may look. -/
structure SameStart (start : ActionStart C) (eager : DeclaredAction × Disk C) : Prop where
  declared : start.declared = eager.1
  inputs : SameAt start.declared.inputs start.disk eager.2
  earlier : start.declared.dependsOnPriorActions = true → SameAt start.earlier start.disk eager.2

lemma eagerAction_cached {e : EagerWorld C} {a : DeclaredAction} {lookup : Lookup}
    {digests : Path → Digest} (hlookup : lookup.cached = some digests) :
    eagerAction h e (a, lookup) =
      { e with disk := writeAll h.blob (outputsAt a.outputs digests).entries e.disk } := by
  cases lookup with
  | hit digests' | lateHit digests' =>
    cases hlookup
    rfl
  | miss => cases hlookup

lemma StartedOn.sameStart {s : Shadow C} {start : ActionStart C}
    (hstart : StartedOn h True s start) : SameStart start (start.declared, s.disk) := by
  obtain ⟨available, -, hpromised, hready, hcomplete⟩ := hstart.ready
  refine ⟨rfl, sameAt_of_ready hpromised hready (hcomplete trivial), fun hdepends => ?_⟩
  obtain ⟨hearlier, hsame⟩ := hstart.prior hdepends
  rw [hearlier]
  exact hsame

lemma Trace.eagerRun_eq {s s' : Shadow C} {starts : List (ActionStart C)}
    (htrace : Trace h True s queue starts s') (hkeep : KeepToPaths h s.outputs queue)
    {e : EagerWorld C} (hdisk : e.disk = s.disk) {before : List (ActionStart C)}
    (hbefore : List.Forall₂ SameStart before e.starts) :
    (eagerRun h e queue).disk = s'.disk ∧
      List.Forall₂ SameStart (before ++ starts) (eagerRun h e queue).starts := by
  induction htrace generalizing e before with
  | nil s =>
    rw [append_nil]
    exact ⟨hdisk, hbefore⟩
  | @cached s _ a lookup queue starts digests hlookup _ ih =>
    obtain ⟨-, -, hkeep⟩ := hkeep
    have hstep : eagerRun h e ((a, lookup) :: queue) =
        eagerRun h (eagerAction h e (a, lookup)) queue := rfl
    rw [hstep, eagerAction_cached hlookup]
    exact ih hkeep (congrArg (writeAll h.blob _) hdisk) hbefore
  | @ran s _ start queue starts hstart _ ih =>
    obtain ⟨-, hreads, hkeep⟩ := hkeep
    have hsame := hstart.sameStart
    -- the command reads the same, so it leaves the same
    have houtputs : outputsAt start.declared.outputs (h.execute start.declared start.disk) =
        outputsAt start.declared.outputs (h.execute start.declared e.disk) := by
      refine outputsAt_congr (hreads _ _ (hdisk ▸ hsame.inputs) fun hdepends => ?_)
      rw [hdisk]
      exact (hstart.prior hdepends).2
    have hnext : (eagerAction h e (start.declared, .miss)).disk = (s.add h
        (outputsAt start.declared.outputs (h.execute start.declared start.disk))
        start.declared.outputs).disk := by
      rw [houtputs]
      exact congrArg (writeAll h.blob _) hdisk
    have hall := ih hkeep hnext
      (rel_append hbefore (.cons (hdisk ▸ hsame) .nil))
    rw [append_assoc] at hall
    exact hall

/-! ## The deferred results put in place -/

/-- At the end a place holds what was recorded for it, unless the closest output is an
intermediate one that is still pending. -/
lemma DeferralOk.materialize {recorded : List Path} {w : ActionsWorld C} {shadow : Disk C}
    (hok : DeferralOk h.blob recorded w.disk w.state shadow) {o : Path} (ho : o ∈ recorded)
    (hfinal : ∀ path found, closest w.state.availableInputs o = some (path, found) →
      w.state.intermediateOutputs path = false)
    (hinside : ∀ entry ∈ entriesOf w.state.pendingIntermediate, ¬ o <+: entry.1) :
    SameAt [o] (materializeCachedOutputs h w) shadow := by
  intro o' ho' z hz
  obtain rfl := mem_singleton.mp ho'
  obtain ⟨above, own, habove, hown, hle⟩ := hok.covered o' ho
  have hpromised : shadow z = Actions.promised h.blob w.state.availableInputs w.disk z := by
    rw [hok.promised]
  rw [hpromised]
  have hclosest : ∃ best, closest w.state.availableInputs z = some best := by
    cases hcase : closest w.state.availableInputs z with
    | some best => exact ⟨best, rfl⟩
    | none =>
      have hnone := closest_eq_none hcase (ne_nil_of_available hok.pending habove)
        (hle.trans hz)
      rw [habove] at hnone
      cases hnone
  obtain ⟨⟨path, found⟩, hclosest⟩ := hclosest
  obtain ⟨hpath, hne, hfound, hlongest⟩ := closest_eq_some hclosest
  -- every deferred result above the place is above its closest output
  have hdeferred : ∀ entry ∈ entriesOf w.state.cachedResults,
      entry ∈ w.state.pending.entries ∧ (entry.1 <+: z → entry.1 <+: path) := by
    intro entry hentry
    have hmem : entry ∈ w.state.pending.entries := by
      rw [PendingResults.entries_eq]
      exact mem_append_left _ hentry
    have hlisted := hok.pending.listed entry hmem
    exact ⟨hmem, fun hez => hlongest entry.1 (ne_nil_of_available hok.pending hlisted) hez
      (by rw [hlisted]; rfl)⟩
  rw [promised_of_some hclosest]
  cases hmaterialized : found.materialized with
  | true =>
    refine writeAll_elsewhere h.blob (fun entry hentry hez => ?_) w.disk
    obtain ⟨hmem, hbelow⟩ := hdeferred entry hentry
    obtain ⟨digest, hpending⟩ := hok.pending.nested entry hmem path found hfound (hbelow hez)
    rw [hok.pending.listed _ hpending] at hfound
    cases hfound
    cases hmaterialized
  | false =>
    have hmine := hok.own above own path found habove hown hfound
      (hlongest above (ne_nil_of_available hok.pending habove) (hle.trans hz)
        (by rw [habove]; rfl))
    obtain ⟨digest, hpending⟩ := hok.pending.kept path found hfound hmine hmaterialized
    have hlisted := hok.pending.listed _ hpending
    rw [hfound] at hlisted
    cases hlisted
    rw [PendingResults.entries_eq] at hpending
    rcases mem_append.mp hpending with hcached | hintermediate
    · exact hok.pending.finalOrder.writeAll_longest h.blob hcached hpath
        (fun entry hentry => (hdeferred entry hentry).2) w.disk
    · -- then it contains the output, which makes it its closest one
      have hover : path <+: o' :=
        ( prefix_or_prefix_of_prefix hpath hz).resolve_right (hinside _ hintermediate)
      have hfinal := hfinal path _ (closest_of_longest hover hne hfound
        fun q hq hqo => hlongest q hq (hqo.trans hz))
      rw [hok.intermediates _ hintermediate] at hfinal
      cases hfinal

/-- With tidy restorations and complete inputs the runner refines eager execution: every command
starts on the same content, and at the end the results are the same, except where an intermediate
result is left pending. -/
theorem deferral_refines_eager {limit : Nat} {queue : List (DeclaredAction × Lookup)}
    {available : AvailableInputs} {disk : Disk C} (hroot : available [] = none)
    (hforeign : ∀ path found, available path = some found → found.sameTarget = false)
    (hkeep : KeepToPaths h [] queue)
    (htidy : TidyRun h ⟨disk, .new available, []⟩ (batches limit queue))
    (hcomplete : CompleteRun h ⟨disk, .new available, []⟩ (batches limit queue)) :
    let w := runDeclaredActions h limit ⟨disk, .new available, []⟩ queue
    let e := eagerRun h ⟨promised h.blob available disk, []⟩ queue
    List.Forall₂ SameStart w.starts e.starts ∧ ∀ item ∈ queue, ∀ o ∈ item.1.outputs,
        (∀ path found, closest w.state.availableInputs o = some (path, found) →
          w.state.intermediateOutputs path = false) →
        (∀ entry ∈ entriesOf w.state.pendingIntermediate, ¬ o <+: entry.1) →
        SameAt [o] (materializeCachedOutputs h w) e.disk := by
  obtain ⟨s', htrace, hfollows⟩ := runDeclaredActions_trace hroot hforeign hkeep.writes htidy
    fun _ : True => hcomplete
  obtain ⟨hdisk, hstarts⟩ := htrace.eagerRun_eq (e := ⟨promised h.blob available disk, []⟩) hkeep
    rfl .nil
  refine ⟨hstarts, fun item hitem o ho hfinal hinside => ?_⟩
  have hmaterialized := hfollows.tracks.ok.materialize
    (htrace.outputs_eq ▸ mem_append_right _ (mem_flatMap.mpr ⟨item, hitem, ho⟩)) hfinal
    hinside
  rw [← hdisk] at hmaterialized
  exact hmaterialized

/-! ## A tree and a file inside it -/

lemma writesOutputs_plain {inputs outputs : List Path} (hne : ∀ o ∈ outputs, o ≠ []) :
    WritesOutputs (plainAction inputs outputs []) where
  nonempty := hne
  replaced path hpath := by
    refine ⟨path, ?_, prefix_refl path⟩
    simpa [plainAction, DeclaredAction.touchedPaths, DeclaredAction.writes] using hpath
  created path hpath := by
    simp [plainAction, DeclaredAction.touchedPaths, DeclaredAction.writes] at hpath

def tree : Path := ["tree".toList]

def treeItem : Path := ["tree".toList, "item".toList]

/-- Two blobs: a directory with `1` in `item`, and a file with `2`. -/
def treeHost : ActionHost Nat where
  paths _ := ⟨false, ["w".toList], some⟩
  blob digest :=
    if digest = .ofDigit 1 then fun z => if z = ["item".toList] then 1 else 0
    else if digest = .ofDigit 2 then fun z => if z = [] then 2 else 0
    else fun _ => 0
  digestSourcePath _ _ := some (.ofDigit 4)
  digest _ := .ofDigit 0
  extendPriorActionsDigest _ _ _ := .ofDigit 0
  execute _ _ _ := .ofDigit 3

def emptyTarget : ActionsWorld Nat := ⟨fun _ => 0, .new fun _ => none, []⟩

def cachedTree : DeclaredAction × Lookup := (plainAction [] [tree] [], .hit fun _ => .ofDigit 1)

def cachedItem (intermediate : Bool) : DeclaredAction × Lookup :=
  ({ plainAction [] [treeItem] [] with intermediate := intermediate }, .hit fun _ => .ofDigit 2)

def copiesTree : DeclaredAction × Lookup := (plainAction [tree] [["copy".toList]] [], .miss)

lemma tidyRun_tree : TidyRun treeHost emptyTarget (batches 2 [cachedTree, copiesTree]) := by
  refine ⟨trivial, ⟨⟨?_, ?_⟩, trivial⟩, trivial⟩
  · have hnone : (restorePlan (treeHost.paths (runBatch treeHost emptyTarget [cachedTree]).disk)
        (runBatch treeHost emptyTarget [cachedTree]).state.pending
        (runBatch treeHost emptyTarget [cachedTree]).state.availableInputs
        copiesTree.1).replaced = [] := by decide
    exact fun entry hentry => absurd hentry (eq_nil_iff_forall_not_mem.mp hnone entry)
  · exact fun entry hentry => absurd hentry not_mem_nil

lemma completeRun_tree : CompleteRun treeHost emptyTarget (batches 2 [cachedTree, copiesTree]) := by
  refine ⟨fun a ha => ?_, fun a ha => ?_, trivial⟩
  · cases mem_singleton.mp ha
  · obtain ⟨rfl, -⟩ := Prod.mk.inj (mem_singleton.mp ha)
    intro input hinput path found hfound _ hne
    obtain rfl := mem_singleton.mp hinput
    obtain ⟨before, hbefore, -⟩ := available_of_marked hfound
    rcases extendAvailable_eq_some hbefore with ⟨digest, hentry, -⟩ | ⟨hold, -⟩
    · exact absurd (mem_singleton.mp (mem_outputsAt.mp hentry).1) hne
    · cases hold

/-- The tree that a command reads is put on disk for it. -/
theorem deferral_refines_eager_tree : List.Forall₂ SameStart
        (runDeclaredActions treeHost 2 emptyTarget [cachedTree, copiesTree]).starts
        (eagerRun treeHost ⟨promised treeHost.blob (fun _ => none) fun _ => 0, []⟩
          [cachedTree, copiesTree]).starts ∧
      (runDeclaredActions treeHost 2 emptyTarget [cachedTree, copiesTree]).starts.length = 1 := by
  have hkeep : KeepToPaths treeHost [] [cachedTree, copiesTree] :=
    ⟨writesOutputs_plain (by decide), fun _ _ _ _ _ _ => rfl,
      writesOutputs_plain (by decide), fun _ _ _ _ _ _ => rfl, trivial⟩
  refine ⟨(deferral_refines_eager rfl ?_ hkeep tidyRun_tree completeRun_tree).1, by decide⟩
  intro path found hfound
  cases hfound

/-- A file cached over a cached tree: the command that reads the tree finds the tree without the
file.  A file that is only declared inside an input is not on disk at all.  And an intermediate file
inside a final tree is left out at the end. -/
theorem deferral_differs_inside_tree : ((runDeclaredActions treeHost 2 emptyTarget
          [cachedTree, cachedItem false, copiesTree]).starts.map fun start =>
        (start.declared.inputs, start.disk treeItem)) = [([tree], 1)] ∧
      ((eagerRun treeHost ⟨fun _ => 0, []⟩
          [cachedTree, cachedItem false, copiesTree]).starts.map fun start => start.2 treeItem) =
        [2] ∧
    ((runDeclaredActions treeHost 2 emptyTarget
          [cachedItem false, copiesTree]).starts.map fun start =>
        (start.declared.inputs, start.disk treeItem)) = [([tree], 0)] ∧
      ((eagerRun treeHost ⟨fun _ => 0, []⟩
          [cachedItem false, copiesTree]).starts.map fun start => start.2 treeItem) = [2] ∧
    materializeCachedOutputs treeHost
        (runDeclaredActions treeHost 2 emptyTarget [cachedTree, cachedItem true]) treeItem = 1 ∧
      (eagerRun treeHost ⟨fun _ => 0, []⟩ [cachedTree, cachedItem true]).disk treeItem = 2 := by
  refine ⟨?_, ?_, ?_, ?_, ?_, ?_⟩ <;> decide

/-- `PendingResults::all` lists intermediate results after final ones, whichever came first:
for a command that depends on all prior outputs an intermediate tree is put over a later file
inside it. -/
example :
    let cached := ({ cachedTree.1 with intermediate := true }, cachedTree.2)
    let reads := ({ plainAction [] [["copy".toList]] [] with dependsOnPriorActions := true },
      Lookup.miss)
    ((runDeclaredActions treeHost 2 emptyTarget [cached, cachedItem false, reads]).starts.map
        fun start => start.disk treeItem) = [1] ∧
      ((eagerRun treeHost ⟨fun _ => 0, []⟩ [cached, cachedItem false, reads]).starts.map
        fun start => start.2 treeItem) = [2] := by
  decide

end OnceBuild.Actions
