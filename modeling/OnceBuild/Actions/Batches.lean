import Mathlib.Data.List.FinRange
import OnceBuild.Actions.DeclaredAction
import OnceBuild.Lib.FileTree

/-!
# Running the members of a batch at the same time

`take_batch` lets actions run together when their declared paths do not conflict.  An action cleans
its clean paths, creates its directories, writes its argument files and runs a command that reads
its inputs and writes its outputs and logs; it may do so in any number of steps that fall between
the steps of the other members.

A declared path may start with `.`, which `WorkspacePath` drops before it touches the workspace but
which the comparison of two paths keeps.
-/

namespace OnceBuild.Actions

open Lib List FileOp

variable {L α : Type}

/-! ## What an action does to the workspace -/

namespace DeclaredAction

def scope (a : DeclaredAction) : FileScope Text where
  writes := a.writes.map located
  reads := a.inputs.map located
  dirs := a.createDirs.map located

/-- What a command may do: look at the inputs, and change what is at or below the outputs and logs,
with the directories above them. -/
def commandScope (a : DeclaredAction) : FileScope Text where
  writes := (a.outputs ++ a.stdout.toList ++ a.stderr.toList).map located
  reads := a.inputs.map located
  dirs := []

/-- `prepare_command_setup` and `write_args`, with the contents of the argument files. -/
def setup (a : DeclaredAction) (argFile : Path → α) : List (FileOp Text α) :=
  a.cleanPaths.map (fun p => .remove (located p)) ++
    a.createDirs.map (fun d => .createDir (located d)) ++
    a.argFiles.map (fun f => .write (located f) (argFile f))

end DeclaredAction

/-- The operations in order, and the program when none of them failed. -/
def after (program : Program (FileOp Text α) (FileAnswer α) Unit) :
    List (FileOp Text α) → Program (FileOp Text α) (FileAnswer α) Unit
  | [] => program
  | o :: os => .op o fun
      | .failed => .done ()
      | _ => after program os

/-- One declared action: look at the inputs for its key, prepare, run the command. -/
def DeclaredAction.program (a : DeclaredAction) (keyed : List Path) (argFile : Path → α)
    (command : Program (FileOp Text α) (FileAnswer α) Unit) :
      Program (FileOp Text α) (FileAnswer α) Unit :=
  after (after command (a.setup argFile)) (keyed.map .look)

variable {a : DeclaredAction}

lemma allows_of_command {o : FileOp Text α} (h : a.commandScope.Allows o) : a.scope.Allows o := by
  have hwrites : ∀ w ∈ a.commandScope.writes, w ∈ a.scope.writes := by
    intro w hw
    obtain ⟨p, hp, rfl⟩ := mem_map.mp hw
    refine mem_map_of_mem ?_
    simp only [mem_append, DeclaredAction.writes] at hp ⊢
    tauto
  have haccesses : ∀ z, (∃ x ∈ a.commandScope.accesses, x <+: z) →
      ∃ x ∈ a.scope.accesses, x <+: z := by
    rintro z ⟨x, hx, hxz⟩
    refine ⟨x, ?_, hxz⟩
    rcases mem_append.mp hx with hx | hx
    · exact mem_append_left _ (hwrites x hx)
    · exact mem_append_right _ hx
  cases o with
  | look z | check z test => exact haccesses z h
  | remove p =>
    obtain ⟨w, hw, hwp⟩ := h
    exact ⟨w, hwrites w hw, hwp⟩
  | createDir d =>
    rcases h with ⟨c, hc, _⟩ | ⟨w, hw, hd⟩
    · cases hc
    · exact .inr ⟨w, hwrites w hw, hd⟩
  | write z content | place z tree =>
    obtain ⟨w, hw, hwz⟩ := h
    exact ⟨w, hwrites w hw, hwz⟩

lemma allows_of_mem_setup {argFile : Path → α} {o : FileOp Text α} (h : o ∈ a.setup argFile) :
    a.scope.Allows o := by
  have hwrites : ∀ p ∈ a.cleanPaths ++ a.argFiles, located p ∈ a.scope.writes := by
    intro p hp
    refine mem_map_of_mem ?_
    simp only [mem_append, DeclaredAction.writes] at hp ⊢
    tauto
  simp only [DeclaredAction.setup, mem_append, mem_map] at h
  rcases h with (⟨p, hp, rfl⟩ | ⟨d, hd, rfl⟩) | ⟨f, hf, rfl⟩
  · exact ⟨_, hwrites p (mem_append_left _ hp), prefix_refl _⟩
  · exact .inl ⟨_, mem_map_of_mem hd, prefix_refl _⟩
  · exact ⟨_, hwrites f (mem_append_right _ hf), prefix_refl _⟩

/-! ## Members of a batch do not conflict -/

lemma conflicts_comm (left right : DeclaredAction) :
    conflicts left right = conflicts right left := by
  simp only [conflicts]
  cases interferes left right <;> cases interferes right left <;> cases cleansUnder left right <;>
    cases cleansUnder right left <;> cases createsUnder left right <;>
    cases createsUnder right left <;> cases left.cacheable <;> cases right.cacheable <;> rfl

variable {limit : Nat} {queue batch : List (DeclaredAction × L)}

variable {current : List (DeclaredAction × L)}

lemma pairwise_of_mem_batchesFrom
    (hcurrent : current.Pairwise fun a b => conflicts a.1 b.1 = false)
    (h : batch ∈ batchesFrom limit current queue) :
    batch.Pairwise fun a b => conflicts a.1 b.1 = false := by
  induction queue generalizing current with
  | nil =>
    rw [mem_singleton.mp h]
    exact hcurrent
  | cons next queue ih =>
    simp only [batchesFrom] at h
    split_ifs at h with hjoins
    · refine ih ?_ h
      -- `joins` compared the new member with all that are in the batch
      refine pairwise_append.mpr ⟨hcurrent, pairwise_singleton _ _, ?_⟩
      intro prior hprior new hnew
      rw [mem_singleton.mp hnew]
      simp only [joins, Bool.and_eq_true, Bool.not_eq_true', any_eq_false] at hjoins
      exact Bool.eq_false_iff.mpr (hjoins.2 prior hprior)
    · rcases mem_cons.mp h with rfl | h
      · exact hcurrent
      · exact ih (pairwise_singleton _ _) h

lemma pairwise_of_mem_batches (h : batch ∈ batches limit queue) :
    batch.Pairwise fun a b => conflicts a.1 b.1 = false := by
  cases queue with
  | nil => cases h
  | cons first queue => exact pairwise_of_mem_batchesFrom (pairwise_singleton _ _) h

lemma alone_of_mem_batchesFrom
    (hcurrent : current.length = 1 ∨ ∀ item ∈ current, item.1.dependsOnPriorActions = false)
    (h : batch ∈ batchesFrom limit current queue) :
    batch.length = 1 ∨ ∀ item ∈ batch, item.1.dependsOnPriorActions = false := by
  induction queue generalizing current with
  | nil =>
    rw [mem_singleton.mp h]
    exact hcurrent
  | cons next queue ih =>
    simp only [batchesFrom] at h
    split_ifs at h with hjoins
    · refine ih (.inr fun item hitem => ?_) h
      simp only [joins, Bool.and_eq_true, Bool.not_eq_true', any_eq_false] at hjoins
      rcases mem_append.mp hitem with hitem | hitem
      · exact Bool.eq_false_iff.mpr (hjoins.1.1.1 item hitem)
      · rw [mem_singleton.mp hitem]
        exact hjoins.1.2
    · rcases mem_cons.mp h with rfl | h
      · exact hcurrent
      · exact ih (.inl rfl) h

lemma alone_of_mem_batches (h : batch ∈ batches limit queue) :
    batch.length = 1 ∨ ∀ item ∈ batch, item.1.dependsOnPriorActions = false := by
  cases queue with
  | nil => cases h
  | cons first queue => exact alone_of_mem_batchesFrom (.inl rfl) h

lemma flatten_batchesFrom (limit : Nat) (current queue : List (DeclaredAction × L)) :
    (batchesFrom limit current queue).flatten = current ++ queue := by
  induction queue generalizing current with
  | nil => simp [batchesFrom]
  | cons next queue ih =>
    simp only [batchesFrom]
    split
    · simp [ih]
    · simp [ih]

lemma flatten_batches (limit : Nat) (queue : List (DeclaredAction × L)) :
    (batches limit queue).flatten = queue := by
  cases queue with
  | nil => rfl
  | cons first queue => exact flatten_batchesFrom limit [first] queue

lemma conflicts_get (h : batch ∈ batches limit queue) {i j : Fin batch.length} (hij : i ≠ j) :
    conflicts (batch.get i).1 (batch.get j).1 = false := by
  have hpairwise := pairwise_iff_getElem.mp (pairwise_of_mem_batches h)
  rcases lt_or_gt_of_ne hij with hlt | hgt
  · exact hpairwise i j i.2 j.2 hlt
  · rw [conflicts_comm]
    exact hpairwise j i j.2 i.2 hgt

/-! ## What the conflict test leaves open -/

/-- Paths that meet in the workspace are also compared as meeting, and `left` creates no directory
at or below an input of `right`. -/
def apart (left right : DeclaredAction) : Bool :=
  (left.writes.all fun w => right.accesses.all fun x =>
    !pathsOverlap (located w) (located x) || pathsOverlap w x) &&
  (left.createDirs.all fun d => right.writes.all fun w =>
    !(located w).isPrefixOf (located d) || w.isPrefixOf d) &&
  (left.createDirs.all fun d => right.inputs.all fun x => !(located x).isPrefixOf (located d))

lemma mem_scope_accesses {x : Path} : x ∈ a.scope.accesses ↔ ∃ p ∈ a.accesses, located p = x := by
  simp only [FileScope.accesses, DeclaredAction.scope, DeclaredAction.accesses, mem_append, mem_map]
  constructor
  · rintro (⟨p, hp, rfl⟩ | ⟨p, hp, rfl⟩)
    · exact ⟨p, .inl hp, rfl⟩
    · exact ⟨p, .inr hp, rfl⟩
  · rintro ⟨p, hp | hp, rfl⟩
    · exact .inl ⟨p, hp, rfl⟩
    · exact .inr ⟨p, hp, rfl⟩

lemma not_overlap_of_conflicts {left right : DeclaredAction}
    (h : conflicts left right = false) :
    (∀ w ∈ left.writes, ∀ x ∈ right.accesses, pathsOverlap w x = false) ∧
      ∀ d ∈ left.createDirs, ∀ w ∈ right.writes, w.isPrefixOf d = false := by
  simp only [conflicts, Bool.or_eq_false_iff] at h
  obtain ⟨⟨⟨⟨⟨⟨⟨hwrites, -⟩, -⟩, -⟩, hdirs⟩, -⟩, -⟩, -⟩ := h
  simp only [interferes, createsUnder, any_eq_false] at hwrites hdirs
  refine ⟨fun w hw x hx => ?_, fun d hd w hw => ?_⟩
  · have hany := Bool.eq_false_iff.mpr (hwrites w hw)
    exact Bool.eq_false_iff.mpr (any_eq_false.mp hany x hx)
  · have hany := Bool.eq_false_iff.mpr (hdirs d hd)
    exact Bool.eq_false_iff.mpr (any_eq_false.mp hany w hw)

lemma scope_apart_iff {left right : DeclaredAction} (h : conflicts left right = false) :
    left.scope.Apart right.scope ↔ apart left right = true := by
  obtain ⟨hwrites, hdirs⟩ := not_overlap_of_conflicts h
  simp only [apart, Bool.and_eq_true, all_eq_true]
  constructor
  · intro happart
    have hover : ∀ w ∈ left.writes, ∀ x ∈ right.accesses,
        pathsOverlap (located w) (located x) = false := by
      intro w hw x hx
      have hnot := happart.writes _ (mem_map_of_mem hw) _ (mem_scope_accesses.mpr ⟨x, hx, rfl⟩)
      exact Bool.eq_false_iff.mpr fun hmeet => by
        rcases pathsOverlap_iff.mp hmeet with hmeet | hmeet
        · exact hnot.1 hmeet
        · exact hnot.2 hmeet
    have hunder : ∀ d ∈ left.createDirs, ∀ x ∈ right.accesses,
        (located x).isPrefixOf (located d) = false := by
      intro d hd x hx
      have hnot := happart.dirs _ (mem_map_of_mem hd) _ (mem_scope_accesses.mpr ⟨x, hx, rfl⟩)
      exact Bool.eq_false_iff.mpr fun hmeet => hnot <| isPrefixOf_iff_prefix.mp hmeet
    refine ⟨⟨fun w hw x hx => ?_, fun d hd w hw => ?_⟩, fun d hd x hx => ?_⟩
    · simp [hover w hw x hx]
    · simp [hunder d hd w (mem_append_left _ hw)]
    · simp [hunder d hd x (mem_append_right _ hx)]
  · rintro ⟨⟨hspelled, hspelledDirs⟩, hinputs⟩
    constructor
    · intro w hw x hx
      obtain ⟨p, hp, rfl⟩ := mem_map.mp hw
      obtain ⟨q, hq, rfl⟩ := mem_scope_accesses.mp hx
      have hmeet := hspelled p hp q hq
      rw [hwrites p hp q hq, Bool.or_false, Bool.not_eq_true'] at hmeet
      rwa [← not_or, ← pathsOverlap_iff, Bool.not_eq_true]
    · intro d hd x hx hxd
      obtain ⟨p, hp, rfl⟩ := mem_map.mp hd
      obtain ⟨q, hq, rfl⟩ := mem_scope_accesses.mp hx
      have hunder : (located q).isPrefixOf (located p) = true := isPrefixOf_iff_prefix.mpr hxd
      rcases mem_append.mp hq with hq | hq
      · have hmeet := hspelledDirs p hp q hq
        rw [hdirs p hp q hq, hunder] at hmeet
        cases hmeet
      · have hmeet := hinputs p hp q hq
        rw [hunder] at hmeet
        cases hmeet

/-! ## Interleaved members -/

/-- The members of a batch about to run on a workspace. -/
def sharing (batch : List (DeclaredAction × L))
    (programs : Fin batch.length → Program (FileOp Text α) (FileAnswer α) Unit)
    (tree : FileTree Text α) :
    Shared (Fin batch.length) (FileTree Text α) (FileOp Text α) (FileAnswer α) Unit :=
  ⟨tree, programs, fun _ => []⟩

/-- However the steps of the members fall, once all are done every member has been shown what it is
shown in declared order, and the workspace is the one declared order leaves. -/
def Commutes (α : Type) (batch : List (DeclaredAction × L)) : Prop :=
  ∀ programs : Fin batch.length → Program (FileOp Text α) (FileAnswer α) Unit,
    (∀ i, (programs i).Uses (batch.get i).1.scope.Allows) →
    ∀ (tree : FileTree Text α) (schedule : List (Fin batch.length)),
      ((sharing batch programs tree).exec apply schedule).Finished →
      (sharing batch programs tree).exec apply schedule =
        (sharing batch programs tree).inOrder apply (List.finRange batch.length)

lemma commutes_of_apart
    (h : ∀ i j : Fin batch.length, i ≠ j → (batch.get i).1.scope.Apart (batch.get j).1.scope) :
    Commutes α batch := by
  intro programs huses tree schedule hfin
  have hindep : ∀ i j : Fin batch.length, i ≠ j →
      Independent apply (fun i => (batch.get i).1.scope.Allows (α := α)) i j := by
    intro i j hij o o' ho ho'
    exact FileScope.commute_of_apart (h i j hij) (h j i hij.symm) ho ho'
  refine exec_eq_inOrder huses (pairwise_lt_finRange _) (fun i _ => mem_finRange i)
    (pairwise_of_forall fun i j => ?_) hfin
  rcases eq_or_ne i j with rfl | hij
  · exact .inl le_rfl
  · exact .inr (hindep i j hij)

/-- One member creates a directory and another one looks at it. -/
def createAndLook (α : Type) {n : Nat} (i j : Fin n) (z : Path) :
    Fin n → Program (FileOp Text α) (FileAnswer α) Unit := fun k =>
  if k = i then .op (.createDir z) fun _ => .done ()
  else if k = j then .op (.look z) fun _ => .done ()
  else .done ()

lemma look_createDir (z : Path) :
    (apply (.look z) (apply (.createDir z) (fun _ => none : FileTree Text α)).1).2 =
      .node (some .dir) := by
  have hfits : fits (fun _ => none : FileTree Text α) (.createDir z) = true := by
    simp [fits, blocked, isFile]
  simp [apply, hfits, answer, changed, replaces, adds]

lemma apart_of_commutes (h : Commutes α batch) {i j : Fin batch.length} (hij : i ≠ j) :
    (batch.get i).1.scope.Apart (batch.get j).1.scope := by
  have hunseen : ∀ z, (batch.get i).1.scope.Allows (.createDir z : FileOp Text α) →
      ¬ (batch.get j).1.scope.Allows (.look z : FileOp Text α) := by
    intro z hcreate hlook
    have huses : ∀ k, (createAndLook α i j z k).Uses (batch.get k).1.scope.Allows := by
      intro k
      simp only [createAndLook]
      split_ifs with hi hj
      · exact hi ▸ ⟨hcreate, fun _ => trivial⟩
      · exact hj ▸ ⟨hlook, fun _ => trivial⟩
      · trivial
    have hi : createAndLook α i j z i = .op (.createDir z) fun _ => .done () := by
      simp [createAndLook]
    have hj : createAndLook α i j z j = .op (.look z) fun _ => .done () := by
      simp [createAndLook, hij.symm]
    have hrest : ∀ k, k ≠ i → k ≠ j → createAndLook α i j z k = .done () := by
      intro k hki hkj
      simp [createAndLook, hki, hkj]
    -- on an empty workspace, in the order of creation and in the other order
    let s := sharing batch (createAndLook α i j z) fun _ => none
    obtain ⟨hfin, -, hseen⟩ : (s.exec apply [i, j]).Finished ∧ _ ∧ _ := exec_pair hij hi hj hrest
    obtain ⟨hfin', hseen', -⟩ : (s.exec apply [j, i]).Finished ∧ _ ∧ _ :=
      exec_pair hij.symm hj hi fun k hkj hki => hrest k hki hkj
    have hsame := (h _ huses _ _ hfin).trans (h _ huses _ _ hfin').symm
    have hboth := hseen.symm.trans ((congrArg (fun s => s.seen j) hsame).trans hseen')
    have hanswer := (append_inj' hboth rfl).2
    simp only [s, sharing, look_createDir] at hanswer
    simp [apply, answer] at hanswer
  exact FileScope.apart_of_unseen hunseen

/-- The members of a batch can be interleaved at will exactly when, for every two of them,
paths that meet in the workspace are compared as meeting and no directory is created at or
below an input. -/
theorem batch_commutes_iff {limit : Nat} {queue batch : List (DeclaredAction × L)}
    (h : batch ∈ batches limit queue) :
    (∀ i j : Fin batch.length, i ≠ j → apart (batch.get i).1 (batch.get j).1 = true) ↔
      Commutes α batch := by
  constructor
  · intro hapart
    exact commutes_of_apart fun i j hij =>
      (scope_apart_iff (conflicts_get h hij)).mpr (hapart i j hij)
  · intro hcommutes i j hij
    exact (scope_apart_iff (conflicts_get h hij)).mp (apart_of_commutes hcommutes hij)

/-! ## Two compilations, and a directory that is an input -/

/-- An action that reads and writes these paths and creates these directories. -/
def plainAction (inputs outputs createDirs : List Path) : DeclaredAction where
  inputs := inputs
  outputs := outputs
  cleanPaths := []
  createDirs := createDirs
  stdout := none
  stderr := none
  argFiles := []
  preparePath := none
  dependsOnPriorActions := false
  intermediate := false
  cacheable := true
  command := []

def twoCompilations : List (DeclaredAction × Unit) :=
  [(plainAction [["a.c".toList]] [["modules".toList, "a".toList]] [["modules".toList]], ()),
    (plainAction [["b.c".toList]] [["modules".toList, "b".toList]] [["modules".toList]], ())]

/-- Outputs below a directory that both create. -/
theorem batch_commutes_iff_twoCompilations :
    twoCompilations ∈ batches 2 twoCompilations ∧ Commutes Unit twoCompilations := by
  have hbatch : twoCompilations ∈ batches 2 twoCompilations := by decide
  refine ⟨hbatch, (batch_commutes_iff hbatch).mp ?_⟩
  decide

/-- Creates `gen`. -/
def makesGen : DeclaredAction := plainAction [] [["a.o".toList]] [["gen".toList]]

def readsGen : DeclaredAction := plainAction [["gen".toList]] [["b.o".toList]] []

def writesSource : DeclaredAction := plainAction [] [["gen.c".toList]] []

/-- Reads `./gen.c`. -/
def readsDotted : DeclaredAction := plainAction [[['.'], "gen.c".toList]] [["b.o".toList]] []

/-- The first action prepares and runs its command, the second one looks at its input; the workspace
is empty. -/
def writerAndReader (first second : DeclaredAction) (input : Path)
    (command : Program (FileOp Text Unit) (FileAnswer Unit) Unit) :
    Shared (Fin 2) (FileTree Text Unit) (FileOp Text Unit) (FileAnswer Unit) Unit :=
  sharing [(first, ()), (second, ())]
    (fun
      | 0 => first.program [] (fun _ => ()) command
      | 1 => second.program [input] (fun _ => ()) (.done ()))
    fun _ => none

def genRace : Shared (Fin 2) (FileTree Text Unit) (FileOp Text Unit) (FileAnswer Unit) Unit :=
  writerAndReader makesGen readsGen ["gen".toList] (.done ())

def sourceRace : Shared (Fin 2) (FileTree Text Unit) (FileOp Text Unit) (FileAnswer Unit) Unit :=
  writerAndReader writesSource readsDotted ["gen.c".toList]
    (.op (.write ["gen.c".toList] ()) fun _ => .done ())

/-- `take_batch` puts both pairs into one batch.  In declared order the second member finds its
input; when it takes its turn first, the input is not there. -/
theorem batch_shows_input_early :
    (batches 2 [(makesGen, ()), (readsGen, ())] = [[(makesGen, ()), (readsGen, ())]] ∧
      (genRace.inOrder apply [0, 1]).seen 1 = [.node (some .dir)] ∧
      (genRace.exec apply [1, 0]).seen 1 = [.node none]) ∧
    (batches 2 [(writesSource, ()), (readsDotted, ())] = [[(writesSource, ()), (readsDotted, ())]] ∧
      (sourceRace.inOrder apply [0, 1]).seen 1 = [.node (some (.file ()))] ∧
      (sourceRace.exec apply [1, 0]).seen 1 = [.node none]) := by
  refine ⟨⟨by decide, ?_, ?_⟩, ⟨by decide, ?_, ?_⟩⟩
  · decide
  · decide
  · decide
  · decide

end OnceBuild.Actions
