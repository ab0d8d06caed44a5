import OnceBuild.Sandbox.WorkspaceFrame

/-!
# Preparing an input sandbox

Preparing a sandbox changes nothing outside its execution root, except that it creates the
directories that lead there, provided that nothing is staged below a link that an earlier input
staged and that leads to a directory.
-/

namespace OnceBuild.Sandbox

open List

open Lib (OsPath Errno Fallible RealDirs SameOff Unlinked Rooted InDir Unnamed)
open Lib.Fallible
open OnceBuild.Core (WorkspacePath Place Disk Node Io names resolve)

variable {g : Ground} {d : Disk} {done : List Place} {defaults : Defaults}

/-! ## Inputs -/

lemma sandbox_isPrefix_dropLast (z : Place) :
    g.sandbox <+: (g.execroot ++ z).dropLast := by
  cases z using reverseRecOn with
  | nil => rw [append_nil, Ground.execroot, execrootAt, dropLast_concat]
  | append_singleton z n =>
    rw [← append_assoc, dropLast_concat, Ground.execroot, execrootAt, append_assoc]
    exact prefix_append _ _

section

variable (hnew : g.New)
include hnew

lemma keeps_look {top z : Place} (hz : g.name ∉ z) {m : Node → Io Unit}
    (hdir : ∀ mode place, g.blocks z = false →
      Source g z place → Keeps g done top z (m (.dir mode)))
    (hother : ∀ node, (∀ mode, node ≠ .dir mode) → g.blocks z = true →
      Keeps g done top z (m node)) :
    Keeps g done top z
      (Fallible.inspect (fun d => Lib.symlinkMetadata d (g.workspace ++ z)) >>= m) := by
  refine ensures_bind (R := fun node d =>
      Ready g done top (g.execroot ++ z).dropLast d ∧
        Lib.symlinkMetadata g.made (g.workspace ++ z) = .ok node)
    (ensures_inspect (fun d node hd hlook => ⟨hd, ?_⟩) fun _ _ hd _ => hd.framed)
    fun node => ensures_of_fact fun hlook => ?_
  · rw [← hlook]
    exact (symlinkMetadata_eq_made hnew hd.framed hz).symm
  · cases node with
    | dir mode =>
      obtain ⟨place, hsource⟩ := exists_source hnew hz hlook
      exact hdir mode place (by simp only [Ground.blocks, hlook]) hsource
    | file data | link text | special =>
      exact hother _ (fun _ h => by cases h) (by simp only [Ground.blocks, hlook])

lemma keeps_copySandboxOutputBlocking (depth : Nat) (hcopy : g.copy = true)
    {top z : Place} (hz : g.name ∉ z) (hw : Wanted g z.dropLast)
    (hcovered : ∃ p ∈ done, p <+: z) (htop : top <+: (g.execroot ++ z).dropLast) :
    Keeps g done top z (copySandboxOutputBlocking defaults depth (g.workspace ++ z)
        (g.execroot ++ z)) := by
  refine keeps_look hnew hz (fun mode place hblocks hsource => ?_) fun node hnode hblocks => ?_
  · exact ensures_bind (ready_removePathBlocking htop).above fun _ =>
      keeps_walkTree hnew (stages_copy hnew hcopy) depth hz hcovered hblocks hsource htop
  · cases node with
    | dir mode => exact absurd rfl (hnode mode)
    | file data | link text => exact keeps_copyEntry hnew hz hw htop hcopy hcovered hblocks _
    | special => exact keeps_copyEntry hnew hz hw htop hcopy hcovered hblocks _

lemma keeps_stageSandboxInputBlocking (depth : Nat) {input : WorkspacePath}
    (hinput : g.name ∉ names input) (hw : Wanted g (names input))
    (hcovered : ∃ p ∈ done, p <+: names input) :
    Keeps g done g.sandbox (names input)
      (stageSandboxInputBlocking defaults depth g.workspace g.execroot g.copy input) := by
  have htop : g.sandbox <+: (g.execroot ++ names input).dropLast :=
    sandbox_isPrefix_dropLast _
  have hw := hw.of_isPrefix <| dropLast_prefix _
  refine ensures_ite (fun hcopy => ?_) fun hcopy => ?_
  · exact ensures_bind (ready_makeRoom hnew hinput hw htop).above fun _ =>
      keeps_copySandboxOutputBlocking hnew depth hcopy hinput hw hcovered htop
  · have hcopy : g.copy = false := Bool.eq_false_iff.mpr hcopy
    refine keeps_look hnew hinput (fun mode place hblocks hsource => ?_)
      fun node hnode hblocks => ?_
    · exact keeps_walkTree hnew (stages_link hnew hcopy) depth hinput hcovered hblocks hsource htop
    · cases node with
      | dir mode => exact absurd rfl (hnode mode)
      | file data | link text | special =>
        exact keeps_linkSandboxInputBlocking hnew hinput hw htop hcopy hcovered hblocks

end

/-! ## Below a link that leads to no directory -/

lemma isPrefix_append_dropLast (execroot : Place) {z path : Place} (hz : z <+: path)
    (hne : z ≠ path) : execroot ++ z <+: (execroot ++ path).dropLast := by
  obtain ⟨rest, rfl⟩ := hz
  have hrest : rest ≠ [] := by
    rintro rfl
    exact hne (append_nil z).symm
  rw [← append_assoc, dropLast_append_of_ne_nil hrest]
  exact prefix_append _ _

section Stuck

variable {z : Place} {text : OsPath} (h : Staged g done d)
  (hlink : d.get (g.execroot ++ z) = some (.link text))
  (hnot : Lib.isDirAt d (g.execroot ++ z) = false)
include h hlink hnot

lemma ensures_stuck {destination : Place}
    (hdestination : g.execroot ++ z <+: destination) (m : Unit → Io Unit) :
    Ensures (· = d) (Lib.createDirAll defaults.dirMode destination >>= m)
      (fun _ _ => False) (fun d => SameOff g.execroot d g.made) := by
  refine ensures_bind (R := fun _ _ => False) ((Lib.createDirAll_stuck h.rooted hlink hnot
    hdestination _).mono (fun _ heq => heq) (fun _ _ hfalse => hfalse) ?_)
    fun _ _ hfalse => hfalse.elim
  rintro _ rfl
  exact h.same

lemma ensures_stuck_input (depth : Nat) (copy : Bool) {input : WorkspacePath}
    (hz : z <+: names input) (hne : z ≠ names input) :
    Ensures (· = d) (stageSandboxInputBlocking defaults depth g.workspace g.execroot copy input)
      (fun _ _ => False) (fun d => SameOff g.execroot d g.made) := by
  have hsame : ∀ d', d' = d → SameOff g.execroot d' g.made := by
    rintro _ rfl
    exact h.same
  have hparent : g.execroot ++ z <+:
      (g.execroot ++ names input).dropLast := isPrefix_append_dropLast _ hz hne
  have hroom : ∀ m : Unit → Io Unit, Ensures (· = d)
      (makeRoom defaults (g.execroot ++ names input) >>= m) (fun _ _ => False)
      (fun d => SameOff g.execroot d g.made) := fun m =>
    ensures_bind (R := fun _ _ => False) (ensures_stuck h hlink hnot hparent _)
      fun _ _ hfalse => hfalse.elim
  refine ensures_ite (fun _ => hroom _) fun _ => ensures_look hsame fun node => ?_
  cases node with
  | dir mode =>
    cases depth with
    | zero => exact ensures_throw hsame
    | succ depth => exact ensures_stuck h hlink hnot (hparent.trans <| dropLast_prefix _) _
  | file data | link text => exact hroom _
  | special => exact hroom _

end Stuck

variable {inputs : List WorkspacePath}

lemma staged_inputs (hnew : g.New) (depth : Nat)
    (hinputs : ∀ input ∈ inputs, g.name ∉ names input ∧ names input ∈ g.paths)
    (hclear : ∀ done input rest, inputs = done ++ input :: rest →
      ClearOf g (done.map names) (names input)) :
    Ensures (Staged g []) (inputs.forM (stageSandboxInputBlocking defaults depth g.workspace
        g.execroot g.copy))
      (fun _ => Staged g (inputs.map names))
      (fun d => SameOff g.execroot d g.made) := by
  refine ensures_forM_upTo (fun done => Staged g (done.map names))
    fun done input rest hsplit => ensures_of_each fun d hd => ?_
  obtain ⟨hname, hpath⟩ := hinputs input (hsplit ▸ mem_append_right _ mem_cons_self)
  have hcovered : ∃ p ∈ (done ++ [input]).map names, p <+: names input :=
    ⟨names input, by simp, prefix_refl _⟩
  rcases hd.unlinked_or_stuck hnew (hclear done input rest hsplit) with
    hunlinked | ⟨z, text, hz, hne, hlink, hnot⟩
  · have hw : Wanted g (names input) := ⟨_, prefix_refl _, .inl hpath⟩
    refine (keeps_stageSandboxInputBlocking hnew depth hname hw hcovered).mono ?_
      (fun _ _ hd => hd.staged) fun _ hd => hd
    rintro _ rfl
    exact ⟨hd.mono (by simp), hd.dirs hnew, hunlinked⟩
  · exact (ensures_stuck_input hd hlink hnot depth g.copy hz hne).mono (fun _ heq => heq)
      (fun _ _ hfalse => hfalse.elim) fun _ hd => hd

/-! ## Directories for outputs -/

variable {directory : Place}

lemma staged_createDirAll (hnew : g.New) {path : Place} (hpath : g.name ∉ path) (hw : Wanted g path)
    (hdirectory : directory <+: g.execroot ++ path)
    (hclear : ClearOf g done path) :
    Ensures (Staged g done) (Lib.createDirAll defaults.dirMode directory) (fun _ => Staged g done)
      (fun d => SameOff g.execroot d g.made) := by
  refine ensures_of_each fun d hd => ?_
  rcases hd.unlinked_or_stuck hnew hclear with hunlinked | ⟨z, text, hz, hne, hlink, hnot⟩
  · have habove : directory.dropLast <+: (g.execroot ++ path).dropLast := by
      obtain ⟨rest, hrest⟩ := hdirectory
      rw [← hrest]
      cases rest using reverseRecOn with
      | nil => rw [append_nil]
      | append_singleton rest n =>
        rw [← append_assoc, dropLast_concat]
        exact ( dropLast_prefix _).trans (prefix_append _ _)
    have hready : Ready g done g.sandbox
        directory.dropLast d := ⟨hd, hd.dirs hnew, hunlinked.of_isPrefix habove⟩
    exact (ready_createDirAll_dropLast hnew hpath hw hdirectory).mono
      (fun _ (heq : _ = d) => heq.symm ▸ hready) (fun _ _ hd => hd.staged) fun _ hd => hd.framed
  · have hfails : g.execroot ++ z <+: directory →
        Ensures (· = d) (Lib.createDirAll defaults.dirMode directory) (fun _ => Staged g done)
          (fun d => SameOff g.execroot d g.made) := by
      intro hbelow
      refine (Lib.createDirAll_stuck hd.rooted hlink hnot hbelow _).mono (fun _ heq => heq)
        (fun _ _ hfalse => hfalse.elim) ?_
      rintro _ rfl
      exact hd.same
    have hup : g.execroot ++ z <+: g.execroot ++ path :=
      (prefix_append_right_inj _).mpr hz
    rcases prefix_or_prefix_of_prefix hdirectory hup with habove | hbelow
    · by_cases heq : directory = g.execroot ++ z
      · exact hfails (heq ▸ prefix_refl _)
      · -- what is above the link is there already
        have hdirs : RealDirs d directory := by
          obtain ⟨rest, hrest⟩ := habove
          cases rest using reverseRecOn with
          | nil => exact absurd ((append_nil _).symm.trans hrest) heq
          | append_singleton rest n =>
            rw [← append_assoc] at hrest
            obtain ⟨mode, hmode⟩ := hd.rooted.parent (directory ++ rest) n
              (hrest ▸ hlink ▸ Option.some_ne_none _)
            exact (hd.rooted.realDirs hmode).of_isPrefix (prefix_append _ _)
        exact ensures_of_exec (exec_createDirAll_of_dirs _ hdirs) hd
    · exact hfails hbelow

/-! ## Modes of directories above inputs -/

lemma unlinked_of_isRealDir {p : Place} (h : Unlinked d p.dropLast) (hreal : isRealDir d p = true) :
    Unlinked d p := by
  refine Unlinked.of_dropLast h fun text hlink => ?_
  unfold isRealDir at hreal
  split at hreal
  next mode hlook =>
    obtain ⟨place, hplace, hnode⟩ := Lib.bind_eq_ok.mp hlook
    obtain rfl := Lib.locate_eq h hplace
    rw [hlink] at hnode
    cases hnode
  · cases hreal

lemma locate_of_isRealDir {p : Place} (h : isRealDir d p = true) :
    ∃ place, Lib.locate d p = .ok place := by
  unfold isRealDir at h
  split at h
  next mode hlook =>
    obtain ⟨place, hplace, -⟩ := Lib.bind_eq_ok.mp hlook
    exact ⟨place, hplace⟩
  · cases h

lemma staged_mirrorAncestor (hnew : g.New) (keepWritable : List Place)
    (hdirectory : g.name ∉ directory)
    (hclear : keepWritable.any directory.isPrefixOf = true ∨ ClearOf g done directory) :
    Ensures (Staged g done) (mirrorAncestor g.workspace g.execroot keepWritable directory)
      (fun _ => Staged g done)
      (fun d => SameOff g.execroot d g.made) := by
  refine ensures_ite (fun _ => ensures_pure fun _ hd => hd) fun hkept => ?_
  replace hclear := hclear.resolve_left hkept
  refine ensures_bind (R := fun both d => Staged g done d ∧
      (isRealDir d (g.workspace ++ directory) && isRealDir d (g.execroot ++ directory)) = both)
    (ensures_inspect (fun _ _ hd heq => ⟨hd, Except.ok.inj heq⟩) fun _ _ hd _ => hd.same)
    fun both => ?_
  refine ensures_ite (fun hboth => ?_) fun _ => ensures_pure fun _ hd => hd.1
  have hready : ∀ d, Staged g done d ∧ (isRealDir d (g.workspace ++ directory) &&
        isRealDir d (g.execroot ++ directory)) = both →
      Ready g done g.sandbox (g.execroot ++ directory) d := by
    intro d hd
    have hreal : isRealDir d (g.execroot ++ directory) = true :=
      (Bool.and_eq_true_iff.mp (hd.2.trans hboth)).2
    refine ⟨hd.1, hd.1.dirs hnew, unlinked_of_isRealDir
      ((hd.1.unlinked_or_stuck hnew hclear).resolve_right ?_) hreal⟩
    -- a path below a link that leads to no directory is no directory
    rintro ⟨z, text, hz, hne, -, hnot⟩
    obtain ⟨place, hplace⟩ := locate_of_isRealDir hreal
    have hup : g.execroot ++ z <+: g.execroot ++ directory :=
      (prefix_append_right_inj _).mpr hz
    exact nomatch hnot.symm.trans (Lib.isDirAt_of_locate hd.1.rooted hplace hup
      fun heq => hne (append_cancel_left heq))
  exact (ready_mirrorPermissions rfl hdirectory _).mono hready (fun _ _ hd => hd.staged)
    fun _ hd => hd

/-! ## The whole -/

/-- The paths in which staging may find the name of the sandbox. -/
def declared (policy : SandboxPolicy) (cwd : Option WorkspacePath) : List WorkspacePath :=
  policy.inputs ++ policy.outputs ++ cwd.toList

def ground (made : Disk) (workspace : Place) (name : OsPath) (policy : SandboxPolicy)
    (cwd : Option WorkspacePath) : Ground where
  made := made
  workspace := workspace
  name := name
  paths := (declared policy cwd).map names
  copy := policy.validateContract || policy.copyInputs

/-- Nothing is staged, and no mode is set, below a link that an earlier input may have staged and
that leads to a directory. -/
structure ClearPolicy (g : Ground) (policy : SandboxPolicy) (cwd : Option WorkspacePath) :
    Prop where
  inputs : ∀ done input rest, policy.inputs = done ++ input :: rest →
    ClearOf g (done.map names) (names input)
  outputs : ∀ output ∈ policy.outputs, ClearOf g (policy.inputs.map names) (names output).dropLast
  workingDir : ∀ path ∈ cwd.toList, ClearOf g (policy.inputs.map names) (names path)
  mirrored : g.copy = true → ∀ directory ∈ ancestors policy.inputs,
    (policy.outputs.map names ++ cwd.toList.map names).any directory.isPrefixOf = true ∨
      ClearOf g (policy.inputs.map names) directory

lemma mem_of_mem_ancestors {n : OsPath} (hdirectory : directory ∈ ancestors inputs)
    (hn : n ∈ directory) : ∃ input ∈ inputs, n ∈ names input := by
  unfold ancestors at hdirectory
  rw [mem_mergeSort, mem_mergeSort, mem_dedup, mem_flatMap] at hdirectory
  obtain ⟨input, hinput, hmem⟩ := hdirectory
  have hprefix := (mem_inits _ _).mp (mem_of_mem_filter hmem)
  exact ⟨input, hinput, hprefix.subset hn⟩

lemma staged_stageSandbox (hnew : g.New) (depth : Nat)
    {policy : SandboxPolicy} {cwd : Option WorkspacePath}
    (hg : g = ground g.made g.workspace g.name policy cwd)
    (hnames : ∀ p ∈ declared policy cwd, g.name ∉ names p) (hclear : ClearPolicy g policy cwd) :
    Ensures (· = g.made) (stageSandbox defaults depth g.workspace g.sandbox policy cwd)
      (fun _ d => SameOff g.execroot d g.made) (fun d => SameOff g.execroot d g.made) := by
  have hpaths : g.paths = (declared policy cwd).map names := congrArg Ground.paths hg
  have hcopies : g.copy = (policy.validateContract || policy.copyInputs) := congrArg Ground.copy hg
  have hdeclared : ∀ p ∈ declared policy cwd, names p ∈ g.paths :=
    fun p hp => hpaths ▸ mem_map_of_mem hp
  have hin : ∀ p ∈ policy.inputs, p ∈ declared policy cwd :=
    fun p hp => mem_append_left _ (mem_append_left _ hp)
  have hout : ∀ p ∈ policy.outputs, p ∈ declared policy cwd :=
    fun p hp => mem_append_left _ (mem_append_right _ hp)
  have hwd : ∀ p ∈ cwd.toList, p ∈ declared policy cwd := fun p hp => mem_append_right _ hp
  have hstart : Staged g [] g.made := by
    have hempty : ∀ z, g.made.get (g.execroot ++ z) = none := by
      intro z
      rw [Ground.execroot, execrootAt, append_assoc]
      exact hnew.empty _ _
    refine ⟨fun _ _ => rfl, hnew.rooted, fun z hz => absurd (hempty z) hz, fun z mode hdir => ?_,
      fun z text hlink => ?_⟩
    · cases (hempty z).symm.trans hdir
    · cases (hempty z).symm.trans hlink
  have hroot : Lib.isDirAt g.made (g.workspace ++ []) = true := by
    rw [append_nil]
    exact Lib.isDirAt_of_dirs (hnew.dirs.of_isPrefix (workspace_isPrefix g))
  unfold stageSandbox
  rw [← hcopies]
  refine ensures_bind (R := fun _ => Staged g []) ?_ fun _ => ?_
  · refine (staged_createDirAll hnew not_mem_nil ⟨[], prefix_refl _, .inr hroot⟩
      (by rw [append_nil]; rfl) ?_).mono ?_ (fun _ _ hd => hd) fun _ hd => hd
    · exact fun _ _ z _ hz hne => absurd (prefix_nil.mp hz) hne
    · rintro _ rfl
      exact hstart
  refine ensures_bind (staged_inputs hnew depth (fun input hinput =>
    ⟨hnames input (hin input hinput), hdeclared input (hin input hinput)⟩) hclear.inputs)
    fun _ => ?_
  refine ensures_bind (ensures_forM fun output houtput => ?_) fun _ => ?_
  · have hmem := hout output houtput
    refine staged_createDirAll hnew (fun hname => hnames output hmem (mem_of_mem_dropLast hname))
      ⟨_, dropLast_prefix _, .inl (hdeclared output hmem)⟩ (dropLast_append_isPrefix _ _)
      (hclear.outputs output houtput)
  refine ensures_bind (ensures_forM fun path hpath => ?_) fun _ => ?_
  · exact staged_createDirAll hnew (hnames path (hwd path hpath))
      ⟨_, prefix_refl _, .inl (hdeclared path (hwd path hpath))⟩ (prefix_refl _)
      (hclear.workingDir path hpath)
  refine ensures_ite (fun hcopy => ?_) fun _ => ensures_pure fun _ hd => hd.same
  refine (ensures_forM fun directory hdirectory => ?_).mono (fun _ hd => hd)
    (fun _ _ hd => hd.same) fun _ hd => hd
  refine staged_mirrorAncestor hnew _ (fun hmem => ?_) (hclear.mirrored hcopy directory hdirectory)
  obtain ⟨input, hinput, hmem⟩ := mem_of_mem_ancestors hdirectory hmem
  exact hnames input (hin input hinput) hmem

/-- The disk on which a sandbox is prepared: the workspace is a real directory, no link is on the
way to its sandboxes, and the name of the new sandbox occurs nowhere. -/
structure Site (before : Disk) (workspace : Place) (name : OsPath) : Prop where
  rooted : Rooted before
  dirs : RealDirs before workspace
  unlinked : Unlinked before (sandboxesIn workspace)
  unnamed : Unnamed before name
  new : ∀ place, before.get place ≠ none → name ∉ place
  once : name ≠ onceName
  sandboxes : name ≠ sandboxesName

/-- The only change is that directories on the way to `place` were created. -/
def MadeWay (before : Disk) (place : Place) (d : Disk) : Prop :=
  ∀ z, d.get z = before.get z ∨
    z <+: place ∧ before.get z = none ∧ ∃ mode, d.get z = some (.dir mode)

section Create

variable {before made : Disk} {workspace : Place} {name : OsPath}

lemma MadeWay.put {place above : Place} (h : MadeWay before place d) (habove : above <+: place)
    (hnone : d.get above = none) (mode : Nat) : MadeWay before place (d.put above (.dir mode)) := by
  intro z
  rw [Lib.Disk.get_put]
  split
  case isTrue heq =>
    subst heq
    rcases h z with hsame | ⟨-, -, mode', hmode'⟩
    · exact .inr ⟨habove, hsame.symm.trans hnone, mode, rfl⟩
    · exact nomatch hnone.symm.trans hmode'
  case isFalse => exact h z

section

variable (hsite : Site before workspace name)
include hsite

lemma Site.notMem_sandboxesIn : name ∉ sandboxesIn workspace := by
  obtain ⟨mode, hmode⟩ := hsite.dirs workspace (prefix_refl _)
  have hworkspace := hsite.new workspace (hmode ▸ Option.some_ne_none _)
  simp [sandboxesIn, hworkspace, hsite.once, hsite.sandboxes]

lemma Site.get_eq_none {z : Place} (hz : name ∈ z) : before.get z = none := by
  by_contra hheld
  exact hsite.new z hheld hz

lemma Site.newSandbox (hrooted : Rooted d) (hmade : MadeWay before (sandboxAt workspace name) d)
    (hdir : ∃ mode, d.get (sandboxAt workspace name) = some (.dir mode)) :
    NewSandbox d workspace name where
  rooted := hrooted
  dirs := by
    obtain ⟨mode, hmode⟩ := hdir
    exact hrooted.realDirs hmode
  empty n w := by
    rcases hmade (sandboxAt workspace name ++ n :: w) with hsame | ⟨hup, -⟩
    · rw [hsame]
      exact hsite.get_eq_none (by simp [sandboxAt])
    · have hlength := hup.length_le
      simp only [length_append, length_cons] at hlength
      omega
  unnamed place text hlink := by
    rcases hmade place with hsame | ⟨-, -, mode, hmode⟩
    · exact hsite.unnamed place text (hsame.symm.trans hlink)
    · cases hmode.symm.trans hlink
  only place hheld hname := by
    rcases hmade place with hsame | ⟨hup, -⟩
    · exact absurd hname (hsite.new place (hsame ▸ hheld))
    · rcases prefix_concat_iff.mp hup with rfl | hup
      · exact prefix_refl _
      · exact absurd (hup.subset hname) hsite.notMem_sandboxesIn

lemma madeWay_createSandboxDir :
    Ensures (· = before) (createSandboxDir defaults (sandboxesIn workspace) name)
      (fun _ d => MadeWay before (sandboxAt workspace name) d ∧ NewSandbox d workspace name)
      (MadeWay before (sandboxAt workspace name)) := by
  refine ensures_bind (R := fun _ d => MadeWay before (sandboxAt workspace name) d ∧ Rooted d ∧
      Unlinked d (sandboxesIn workspace))
    ((ensures_createDirAll fun above habove d place hd _ hfind hnone => ?_).mono ?_
      (fun _ _ hd => hd) fun _ hd => hd.1) fun _ => ?_
  · obtain ⟨hmade, hrooted, hunlinked⟩ := hd
    obtain rfl : place = above :=
      Lib.locate_eq (hunlinked.of_isPrefix (( dropLast_prefix above).trans habove)) hfind
    have hunlinked' : Unlinked (d.put place (.dir defaults.dirMode)) (sandboxesIn workspace) :=
      hunlinked.put (by exact nofun) place
    exact ⟨hmade.put (habove.trans (prefix_append _ _)) hnone _,
      hrooted.put (Lib.inDir_of_locate hfind) (.inl ⟨_, rfl⟩), hunlinked'⟩
  · rintro _ rfl
    exact ⟨fun _ => .inl rfl, hsite.rooted, hsite.unlinked⟩
  · refine ensures_createNode (fun d place hd hfind hnone => ?_) fun d hd => hd.1
    obtain ⟨hmade, hrooted, hunlinked⟩ := hd
    obtain rfl : place = sandboxAt workspace name := by
      refine Lib.locate_eq ?_ hfind
      rw [sandboxAt, dropLast_concat]
      exact hunlinked
    have hput := hmade.put (prefix_refl _) hnone defaults.tempMode
    refine ⟨hput, hsite.newSandbox ?_ hput ⟨defaults.tempMode, ?_⟩⟩
    · exact hrooted.put (Lib.inDir_of_locate hfind) (.inl ⟨_, rfl⟩)
    · rw [Lib.Disk.get_put, if_pos rfl]

end

/-- Outside the execution root all is as it was, or the sandbox is gone. -/
def OutsideKept (made : Disk) (workspace : Place) (name : OsPath) (d : Disk) : Prop :=
  ∀ z, ¬execrootAt workspace name <+: z → d.get z = made.get z ∨ name ∈ z ∧ d.get z = none

lemma outsideKept_removeNow (hnew : NewSandbox made workspace name)
    (hsame : SameOff (execrootAt workspace name) d made) (keep : Bool) :
    OutsideKept made workspace name (removeNow keep (sandboxAt workspace name) d) := by
  intro z hz
  unfold removeNow
  split
  · exact .inl (hsame z hz)
  · have hdirs : RealDirs d (sandboxAt workspace name) :=
      hnew.dirs.sameOff hsame not_concat_isPrefix
    have hremove : Ensures (· = d) (removePathBlocking (sandboxAt workspace name))
        (fun _ d' => d' = d ∨ d' = d.clear (sandboxAt workspace name))
        (fun d' => d' = d ∨ d' = d.clear (sandboxAt workspace name)) := by
      refine ensures_removePathBlocking ?_ (fun _ hd _ => .inl hd) ?_ fun _ hd => .inl hd
      · rintro _ rfl
        exact hdirs.unlinked.of_isPrefix <| dropLast_prefix _
      · rintro _ _ rfl _
        exact .inr rfl
    rcases hremove.left rfl with heq | heq
    · rw [heq]
      exact .inl (hsame z hz)
    · rw [heq]
      by_cases hbelow : sandboxAt workspace name <+: z
      · exact .inr ⟨hbelow.subset (by simp [sandboxAt]), Lib.Disk.get_clear_of_isPrefix hbelow⟩
      · exact .inl ((Lib.Disk.get_clear_of_not_isPrefix hbelow).trans (hsame z hz))

end Create

/-- A workspace `/w` with a file `d/x` and a link `l` to `d`. -/
def linkedNodes : List (Place × Node) :=
  [([], .dir 0o755), ([[119]], .dir 0o755), ([[119], [100]], .dir 0o755),
    ([[119], [100], [120]], .file ⟨0o644, [1]⟩), ([[119], [108]], .link [100])]

def linkedDisk : Disk := Lib.Disk.ofList linkedNodes

def someDefaults : Defaults := ⟨0o755, 0o700⟩

lemma linkedDisk_link {place : Place} {text : OsPath}
    (h : linkedDisk.get place = some (.link text)) : place = [[119], [108]] ∧ text = [100] := by
  have hnode := Lib.Disk.mem_of_get_ofList h
  simpa [linkedNodes] using hnode

lemma linkedDisk_site : Site linkedDisk [[119]] [115] where
  rooted := Lib.rooted_ofList (by decide)
  dirs := by
    intro q hq
    have hmem := (mem_inits _ _).mpr hq
    rcases mem_cons.mp hmem with rfl | hmem
    · exact ⟨0o755, rfl⟩
    · obtain rfl := mem_singleton.mp hmem
      exact ⟨0o755, rfl⟩
  unlinked := by
    intro q hq text hlink
    -- the only link is not on the way to the sandboxes
    rw [(linkedDisk_link hlink).1] at hq
    exact absurd hq (by decide)
  unnamed := by
    intro place text hlink
    rw [(linkedDisk_link hlink).2]
    decide
  new := by
    intro place hheld
    obtain ⟨node, hnode⟩ := Option.ne_none_iff_exists'.mp hheld
    have hall : ∀ e ∈ linkedNodes, [115] ∉ e.1 := by decide
    exact hall _ (Lib.Disk.mem_of_get_ofList hnode)
  once := by decide
  sandboxes := by decide

def dirPath : WorkspacePath := ⟨[['d']], by decide⟩
def linkPath : WorkspacePath := ⟨[['l']], by decide⟩
def throughPath : WorkspacePath := ⟨[['l'], ['x']], by decide⟩

/-- The path through the link is staged before the link. -/
def orderedPolicy : SandboxPolicy := ⟨[dirPath, throughPath, linkPath], [dirPath], false, false⟩

/-- A path is clear of inputs that are not above it. -/
lemma clearOf_of_not_above {path : Place} (h : ∀ p ∈ done, p <+: path → p = path) :
    ClearOf g done path := by
  intro d hd z text hz hne hlink
  obtain ⟨⟨p, hp, hpz⟩, -⟩ := hd.links z text hlink
  obtain rfl := h p hp (hpz.trans hz)
  exact absurd (hz.eq_of_length_le hpz.length_le) hne

lemma clearPolicy_ordered (hcopy : g.copy = false) : ClearPolicy g orderedPolicy none where
  inputs done input rest hsplit := by
    have hpairs : (orderedPolicy.inputs.map names).Pairwise fun p q => p <+: q → p = q := by
      decide
    refine clearOf_of_not_above fun p hp => ?_
    rw [hsplit, map_append, pairwise_append] at hpairs
    exact hpairs.2.2 p hp _ mem_cons_self
  outputs output houtput := by
    obtain rfl : output = dirPath := mem_singleton.mp houtput
    exact clearOf_of_not_above fun p hp hup => prefix_nil.mp hup
  workingDir _ hpath := by cases hpath
  mirrored hcopies := by cases hcopy.symm.trans hcopies

/-- The link is staged first; the path through it is then staged in the workspace. -/
def nestedPolicy : SandboxPolicy := ⟨[linkPath, throughPath], [], false, false⟩

end OnceBuild.Sandbox
