import OnceBuild.Sandbox.Confined

/-!
# Staging leaves the workspace alone

The directories that are staged are read while staging goes on.  As long as nothing outside the
execution root changes, what is read outside the sandbox is what was there at the beginning, and a
directory is staged to where no link was put before.  A directory that holds the sandbox is never
staged to its end.
-/

namespace OnceBuild.Sandbox

open Lib List
open Lib.Fallible
open OnceBuild.Core (WorkspacePath Place Disk Node Io names resolve)

variable {g : Ground} {d : Disk} {done : List Place} {defaults : Defaults}

/-! ## Sources -/

lemma workspace_isPrefix (g : Ground) :
    g.workspace <+: g.sandbox :=
  ⟨[onceName, sandboxesName, g.name], by simp [sandboxAt, sandboxesIn]⟩

lemma not_sandbox_isPrefix_workspace (g : Ground) :
    ¬g.sandbox <+: g.workspace := by
  intro h
  have hlength := h.length_le
  rw [Ground.sandbox, sandboxAt, sandboxesIn] at hlength
  simp only [length_append, length_cons, length_nil] at hlength
  omega

variable {place : Place}

lemma get_of_off (hsame : SameOff g.execroot d g.made)
    (hoff : ¬g.sandbox <+: place) : d.get place = g.made.get place :=
  hsame place fun hbelow => hoff ((prefix_append _ _).trans hbelow)

lemma realDirs_of_off (hsame : SameOff g.execroot d g.made)
    (hdirs : RealDirs g.made place) (hoff : ¬g.sandbox <+: place) : RealDirs d place :=
  hdirs.sameOff hsame fun hbelow => hoff ((prefix_append _ _).trans hbelow)

variable {p : Place}

section Stable

variable (hnew : g.New)
  (hsame : SameOff g.execroot d g.made)

include hnew hsame

lemma realDirs_workspace : RealDirs d g.workspace :=
  realDirs_of_off hsame (hnew.dirs.of_isPrefix (workspace_isPrefix g))
    (not_sandbox_isPrefix_workspace g)

lemma resolve_workspace (p : Place) : Lib.resolve false d (g.workspace ++ p) =
      Lib.resolveFrom false d Lib.maxLinks g.workspace (p.map .name) := by
  have hwalk : resolveWith false (resolveFrom false d 39) d []
        (g.workspace.map .name ++ p.map .name) =
      resolveWith false (resolveFrom false d 39) d ([] ++ g.workspace) (p.map .name) := by
    have hdirs : RealDirs d ([] ++ g.workspace) := realDirs_workspace hnew hsame
    exact resolveWith_dirs hdirs _
  rw [← map_append] at hwalk
  exact hwalk

lemma resolve_eq_made (hp : g.name ∉ p) :
    Lib.resolve false d (g.workspace ++ p) = Lib.resolve false g.made (g.workspace ++ p) := by
  have hsteps : PathStep.name g.name ∉ p.map PathStep.name := by simpa using hp
  rw [resolve_workspace hnew hsame, resolve_workspace hnew fun _ _ => rfl]
  refine (resolveFrom_sameOff (fun z hz => ?_) hnew.unnamed
    (not_sandbox_isPrefix_workspace g) hsteps).symm
  exact (get_of_off hsame hz).symm

end Stable

lemma off_of_resolve (hnew : g.New) (hp : g.name ∉ p)
    (h : Lib.resolve false g.made (g.workspace ++ p) = .ok place) :
    ¬g.sandbox <+: place := by
  have hsteps : PathStep.name g.name ∉ p.map PathStep.name := by simpa using hp
  rw [resolve_workspace hnew fun _ _ => rfl] at h
  exact (visits_of_resolve h).notBelow hnew.unnamed (not_sandbox_isPrefix_workspace g) hsteps

/-- The source of a directory that is staged at `z`: its path leads to a directory outside the
sandbox, also on the disks that staging comes to. -/
structure Source (g : Ground) (z place : Place) : Prop where
  leads : LeadsTo g.made g.execroot (g.workspace ++ z) place
  dirs : RealDirs g.made place
  off : ¬g.sandbox <+: place

section Source

variable {z place : Place}

section

variable (h : Source g z place)
include h

lemma Source.resolve (hsame : SameOff g.execroot d g.made) :
    Lib.resolve false d (g.workspace ++ z) = .ok place :=
  h.leads d hsame (realDirs_of_off hsame h.dirs h.off)

lemma Source.wanted : Wanted g z := by
  obtain ⟨mode, hmode⟩ := h.dirs place (prefix_refl _)
  have hresolve := h.resolve fun _ _ => rfl
  refine ⟨z, prefix_refl _, .inr ?_⟩
  simp [isDirAt, metadata, hresolve, hmode, bind, Except.bind]

lemma Source.symlinkMetadata (hsame : SameOff g.execroot d g.made) {n : OsPath} {node : Node} :
    Lib.symlinkMetadata d (g.workspace ++ z ++ [n]) = .ok node ↔
      d.get (place ++ [n]) = some node := by
  obtain ⟨mode, hmode⟩ := realDirs_of_off hsame h.dirs h.off place (prefix_refl _)
  have hlocate : locate d (g.workspace ++ z ++ [n]) = .ok (place ++ [n]) :=
    locate_concat (h.resolve hsame) hmode
  unfold Lib.symlinkMetadata
  rw [hlocate]
  simp only [bind, Except.bind]
  split
  next node' hnode => rw [hnode, Except.ok.injEq, Option.some.injEq]
  next hnone => rw [hnone]; exact ⟨nofun, nofun⟩

lemma Source.entry {n : OsPath} {mode : Nat} (hentry : g.made.get (place ++ [n]) = some (.dir mode))
    (hoff : ¬g.sandbox <+: place ++ [n]) :
    Source g (z ++ [n]) (place ++ [n]) where
  leads := by
    rw [← append_assoc]
    exact h.leads.concat n
  dirs := h.dirs.concat hentry
  off := hoff

end

lemma exists_source (hnew : g.New) (hp : g.name ∉ p) {mode : Nat}
    (h : Lib.symlinkMetadata g.made (g.workspace ++ p) = .ok (.dir mode)) :
    ∃ place, Source g p place := by
  cases p using reverseRecOn with
  | nil =>
    refine ⟨g.workspace, fun d _ hdirs => ?_, hnew.dirs.of_isPrefix (workspace_isPrefix g),
      not_sandbox_isPrefix_workspace g⟩
    rw [append_nil]
    exact resolve_dirs hdirs
  | append_singleton p n =>
    obtain ⟨hp', hn⟩ : g.name ∉ p ∧ n ≠ g.name := by simpa [eq_comm] using hp
    obtain ⟨place, hplace, hnode⟩ := bind_eq_ok.mp h
    unfold locate at hplace
    rw [← append_assoc, getLast?_concat, dropLast_concat] at hplace
    obtain ⟨above, habove, hplace⟩ := bind_eq_ok.mp hplace
    split at hplace
    next data hdata =>
      obtain rfl := Except.ok.inj hplace
      split at hnode
      next node hget =>
        obtain rfl := Except.ok.inj hnode
        have hoff := off_of_resolve hnew hp' habove
        have hsource : Source g p above :=
          ⟨fun d hsame _ => (resolve_eq_made hnew hsame hp').trans habove,
            hnew.rooted.realDirs hdata, hoff⟩
        exact ⟨above ++ [n], hsource.entry hget (notBelow_concat hoff hn)⟩
      · cases hnode
    · cases hplace

lemma symlinkMetadata_of_dirs {node : Node} (hdirs : RealDirs d p) (hnode : d.get p = some node) :
    Lib.symlinkMetadata d p = .ok node := by
  have hlocate : locate d p = .ok p := by
    cases p using reverseRecOn with
    | nil => rfl
    | append_singleton p n => exact locate_dirs (hdirs.of_isPrefix (prefix_append p [n]))
  simp only [symlinkMetadata, hlocate, bind, Except.bind, hnode]

lemma symlinkMetadata_eq_made (hnew : g.New)
    (hsame : SameOff g.execroot d g.made) (hp : g.name ∉ p) :
    Lib.symlinkMetadata d (g.workspace ++ p) = Lib.symlinkMetadata g.made (g.workspace ++ p) := by
  cases p using reverseRecOn with
  | nil =>
    rw [append_nil]
    have hmade : RealDirs g.made g.workspace := hnew.dirs.of_isPrefix (workspace_isPrefix g)
    obtain ⟨mode, hmode⟩ := hmade g.workspace (prefix_refl _)
    have hget := get_of_off hsame (not_sandbox_isPrefix_workspace g)
    rw [symlinkMetadata_of_dirs hmade hmode,
      symlinkMetadata_of_dirs (realDirs_workspace hnew hsame) (hget.trans hmode)]
  | append_singleton p n =>
    obtain ⟨hp', hn⟩ : g.name ∉ p ∧ n ≠ g.name := by simpa [eq_comm] using hp
    unfold symlinkMetadata locate
    rw [← append_assoc, getLast?_concat, dropLast_concat, resolve_eq_made hnew hsame hp']
    cases habove : resolve false g.made (g.workspace ++ p) with
    | error e => rfl
    | ok above =>
      have hoff := off_of_resolve hnew hp' habove
      simp only [bind, Except.bind, get_of_off hsame hoff]
      cases hnode : g.made.get above with
      | none => rfl
      | some node =>
        cases node with
        | dir mode => simp only [get_of_off hsame (notBelow_concat hoff hn)]
        | file data | link text => rfl
        | special => rfl

end Source

/-! ## Something other than a directory -/

/-- The program stages at a path with no link above it and changes nothing outside the execution
root, also when it fails. -/
def Keeps (g : Ground) (done : List Place) (top z : Place) (m : Io Unit) : Prop :=
  Ensures (Ready g done top (g.execroot ++ z).dropLast) m
    (fun _ => Ready g done top (g.execroot ++ z).dropLast)
    (fun d => SameOff g.execroot d g.made)

section Leaves

variable {top z : Place} (hnew : g.New) (hz : g.name ∉ z)
  (hw : Wanted g z.dropLast)
  (htop : top <+: (g.execroot ++ z).dropLast)

include hnew hz hw htop

lemma keeps_linkSandboxInputBlocking (hcopy : g.copy = false)
    (hcovered : ∃ p ∈ done, p <+: z) (hblocks : g.blocks z = true) :
    Keeps g done top z (linkSandboxInputBlocking defaults (g.workspace ++ z) (g.execroot ++ z)) :=
  ensures_bind (ready_makeRoom hnew hz hw htop) fun _ =>
    ready_symlink hz htop hcovered hblocks (by simp [LinkFor, hcopy])

lemma keeps_copySymlinkBlocking (hcopy : g.copy = true)
    (hcovered : ∃ p ∈ done, p <+: z) (hblocks : g.blocks z = true) :
    Keeps g done top z (copySymlinkBlocking defaults (g.workspace ++ z) (g.execroot ++ z)) := by
  refine ensures_bind (R := fun text d =>
      Ready g done top (g.execroot ++ z).dropLast d ∧ LinkFor g z text)
    (ensures_inspect (fun d text hd hread => ⟨hd, ?_⟩) fun _ _ hd _ => hd.framed)
    fun text => ensures_of_fact fun hfor =>
      ensures_bind (ready_makeRoom hnew hz hw htop) fun _ =>
        ready_symlink hz htop hcovered hblocks hfor
  obtain ⟨node, hnode, hread⟩ := bind_eq_ok.mp hread
  rw [LinkFor, if_pos hcopy, ← symlinkMetadata_eq_made hnew hd.framed hz, hnode]
  cases node with
  | link text' =>
    cases hread
    rfl
  | dir mode | file data | special => cases hread

lemma keeps_copyFileBlocking (source : Place) : Keeps g done top z
      (copyFileBlocking defaults source (g.execroot ++ z)) := by
  refine ensures_bind (ready_makeRoom hnew hz hw htop) fun _ => Moves.above ?_
  refine ensures_look (fun _ hd => hd.framed) fun data => ?_
  refine ensures_bind (ready_writeFile rfl hz _) fun _ => ?_
  exact ensures_look (fun _ hd => hd.framed) fun node => ready_setPermissions rfl hz _

lemma keeps_copyEntry (hcopy : g.copy = true) (hcovered : ∃ p ∈ done, p <+: z)
    (hblocks : g.blocks z = true) (node : Node) :
    Keeps g done top z (copyEntry defaults node (g.workspace ++ z) (g.execroot ++ z)) := by
  cases node with
  | link text => exact keeps_copySymlinkBlocking hnew hz hw htop hcopy hcovered hblocks
  | file data => exact keeps_copyFileBlocking hnew hz hw htop _
  | dir mode | special => exact ensures_pure fun _ hd => hd

end Leaves

/-! ## Directories -/

/-- What a way of staging has to do with entries that are no directories, and with a directory
whose entries are staged. -/
structure Stages (g : Ground) (done : List Place) (leaf : Node → Place → Place → Io Unit)
    (finish : Place → Place → Io Unit) : Prop where
  localLeaf : ∀ node, LocalTo (leaf node)
  localFinish : LocalAt finish
  leaf : ∀ node top z, g.name ∉ z → Wanted g z.dropLast → top <+: (g.execroot ++ z).dropLast →
    (∃ p ∈ done, p <+: z) → g.blocks z = true →
    Keeps g done top z (leaf node (g.workspace ++ z) (g.execroot ++ z))
  finish : ∀ source top z, g.name ∉ z → Ensures (Ready g done top (g.execroot ++ z))
      (finish source (g.execroot ++ z))
      (fun _ => Ready g done top (g.execroot ++ z))
      (fun d => SameOff g.execroot d g.made)

section Trees

variable {leaf : Node → Place → Place → Io Unit} {finish : Place → Place → Io Unit}

variable {z : Place}

variable {here : Place} (hhere : here = g.execroot ++ z)
include hhere

lemma ensures_sandbox (hstages : Stages g done leaf finish) (depth : Nat)
    (hsource : Source g z place)
    (hplace : place ++ [g.name] = g.sandbox)
    (hd : Ready g done here here d) :
    Ensures (· = d)
      (walkTree defaults leaf finish depth (g.workspace ++ z ++ [g.name]) (here ++ [g.name]))
      (fun _ _ => False) (fun d' => SameOff g.execroot d' g.made) := by
  obtain rfl : here = g.sandbox ++ (execrootName :: z) := by
    rw [hhere, Ground.execroot, execrootAt, append_assoc, singleton_append]
  have hvacant : Vacant d (g.sandbox ++ (execrootName :: z)) g.name := by
    refine ⟨hd.dirs, fun w => ?_⟩
    by_contra hheld
    rw [hhere, append_assoc, append_assoc] at hheld
    exact hd.staged.fresh _ hheld (by simp)
  have hbelow : g.execroot <+:
      g.sandbox ++ (execrootName :: z) ++ [g.name] := by
    rw [hhere, append_assoc]
    exact prefix_append _ _
  have hleads : LeadsTo g.made g.execroot (g.workspace ++ z ++ [g.name])
      g.sandbox := hplace ▸ hsource.leads.concat g.name
  refine (walkTree_into_itself hstages.localLeaf hstages.localFinish depth hleads hbelow
    hd.staged.same hvacant).mono (fun _ heq => heq) (fun _ _ hfalse => hfalse) fun d' hsame => ?_
  exact (hsame.mono hbelow).trans hd.staged.same

variable (hnew : g.New)
include hnew

/-- One entry of a directory that is staged; `hbelow` is for the directories in it. -/
lemma ready_walkEntry (hstages : Stages g done leaf finish) {depth : Nat} (hz : g.name ∉ z)
    (hcovered : ∃ p ∈ done, p <+: z) (hsource : Source g z place)
    (hbelow : ∀ n, g.name ∉ z ++ [n] → g.blocks (z ++ [n]) = false →
      Source g (z ++ [n]) (place ++ [n]) →
      Keeps g done here (z ++ [n]) (walkTree defaults leaf finish depth (g.workspace ++ (z ++ [n]))
          (g.execroot ++ (z ++ [n])))) (n : OsPath) :
    Moves g done here here here
      (walkEntry leaf (walkTree defaults leaf finish depth) (g.workspace ++ z) here n) := by
  have hcovered' : ∃ p ∈ done, p <+: z ++ [n] := by
    obtain ⟨p, hp, hpz⟩ := hcovered
    exact ⟨p, hp, hpz.trans (prefix_append _ _)⟩
  have hchild : here ++ [n] = g.execroot ++ (z ++ [n]) := by
    rw [hhere, append_assoc]
  have hparent : (g.execroot ++ (z ++ [n])).dropLast = here := by
    rw [← hchild, dropLast_concat]
  refine ensures_bind (R := fun node d =>
      Ready g done here here d ∧ d.get (place ++ [n]) = some node)
    (ensures_inspect (fun d node hd hlook => ⟨hd, (hsource.symlinkMetadata hd.framed).mp hlook⟩)
      fun _ _ hd _ => hd.framed) fun node => ?_
  refine ensures_of_each fun d ⟨hd, hnode⟩ => ?_
  by_cases hsandbox : place ++ [n] = g.sandbox
  · -- the directory holds the sandbox
    obtain rfl : n = g.name := singleton_inj.mp (append_inj' hsandbox rfl).2
    obtain ⟨mode, hmode⟩ := (hd.staged.dirs hnew) _ (prefix_refl _)
    obtain rfl : node = .dir mode :=
      Option.some.inj (hnode.symm.trans ((congrArg d.get hsandbox).trans hmode))
    exact (ensures_sandbox hhere hstages depth hsource hsandbox hd).mono (fun _ heq => heq)
      (fun _ _ hfalse => hfalse.elim) fun _ hsame => hsame
  · have hoff : ¬g.sandbox <+: place ++ [n] := by
      intro hprefix
      rcases prefix_concat_iff.mp hprefix with heq | hprefix
      · exact hsandbox heq.symm
      · exact hsource.off hprefix
    have hmade : g.made.get (place ++ [n]) = some node :=
      (get_of_off hd.framed hoff).symm.trans hnode
    have hn : g.name ∉ z ++ [n] := by
      intro hmem
      rcases mem_append.mp hmem with hmem | hmem
      · exact hz hmem
      · refine hoff (hnew.only _ (hmade ▸ Option.some_ne_none _) ?_)
        exact mem_append_right _ hmem
    have hlook : symlinkMetadata g.made (g.workspace ++ (z ++ [n])) = .ok node := by
      rw [← append_assoc]
      exact (hsource.symlinkMetadata fun _ _ => rfl).mpr hmade
    rw [append_assoc, hchild]
    -- an entry is staged from the state that the entries before it left
    have hfrom : ∀ m, Keeps g done here (z ++ [n]) m →
        Ensures (· = d) m (fun _ => Ready g done here here)
          (fun d => SameOff g.execroot d g.made) := by
      intro m hm
      unfold Keeps at hm
      rw [hparent] at hm
      refine hm.mono ?_ (fun _ _ h => h) fun _ h => h
      rintro _ rfl
      exact hd
    have hleaf : g.blocks (z ++ [n]) = true → ∀ node, Keeps g done here (z ++ [n])
          (leaf node (g.workspace ++ (z ++ [n])) (g.execroot ++ (z ++ [n]))) :=
      fun hblocks node => hstages.leaf node _ _ hn (dropLast_concat.symm ▸ hsource.wanted)
        (hparent ▸ prefix_refl _) hcovered' hblocks
    cases node with
    | dir mode =>
      have hblocks : g.blocks (z ++ [n]) = false := by
        simp only [Ground.blocks, hlook]
      exact hfrom _ (hbelow n hn hblocks (hsource.entry hmade hoff))
    | file data | link text | special =>
      exact hfrom _ (hleaf (by simp only [Ground.blocks, hlook]) _)

omit hhere

lemma keeps_walkTree (hstages : Stages g done leaf finish) (depth : Nat) {top : Place}
    (hz : g.name ∉ z) (hcovered : ∃ p ∈ done, p <+: z)
    (hblocks : g.blocks z = false) (hsource : Source g z place)
    (htop : top <+: (g.execroot ++ z).dropLast) :
    Keeps g done top z
      (walkTree defaults leaf finish depth (g.workspace ++ z) (g.execroot ++ z)) := by
  induction depth generalizing top z place with
  | zero => exact ensures_throw fun _ hd => hd.framed
  | succ depth ih =>
    unfold Keeps
    obtain ⟨here, hhere⟩ : ∃ here, here = g.execroot ++ z := ⟨_, rfl⟩
    rw [← hhere] at htop ⊢
    -- staging put no link here, since the workspace has a directory
    have hstart : ∀ d, Ready g done top here.dropLast d → Ready g done top here d := by
      intro d hd
      refine ⟨hd.staged, hd.dirs, Unlinked.of_dropLast hd.unlinked fun text hlink => ?_⟩
      rw [hhere] at hlink
      exact Bool.false_ne_true (hblocks.symm.trans (hd.staged.links z text hlink).2.1)
    have hcreate : Ensures (Ready g done top here.dropLast) (createDirAll defaults.dirMode here)
        (fun _ => Ready g done here here)
        (fun d => SameOff g.execroot d g.made) :=
      (ready_createDirAll hnew hz hsource.wanted (hhere ▸ prefix_refl _)).mono hstart
        (fun _ _ hd => ⟨hd.1.staged, hd.2, hd.1.unlinked⟩) fun _ hd => hd.framed
    refine ensures_bind hcreate fun _ => ?_
    refine ensures_look (fun _ hd => hd.framed) fun children => ?_
    have hentries : Moves g done here here here (children.forM
          (walkEntry leaf (walkTree defaults leaf finish depth) (g.workspace ++ z) here))
        := by
      refine ensures_forM fun n _ => ?_
      refine ready_walkEntry hhere hnew hstages hz hcovered hsource
        (fun m hm hblocks' hsource' => ?_) n
      obtain ⟨p, hp, hpz⟩ := hcovered
      refine ih hm ⟨p, hp, hpz.trans (prefix_append _ _)⟩ hblocks' hsource' ?_
      rw [hhere, ← append_assoc, dropLast_concat]
    refine ensures_bind hentries fun _ => ?_
    have hfinish := hstages.finish (g.workspace ++ z) here z hz
    rw [← hhere] at hfinish
    refine hfinish.mono (fun _ hd => hd) (fun _ d hd => ?_) fun _ hd => hd
    exact ⟨hd.staged, hd.dirs.of_isPrefix (htop.trans <| dropLast_prefix _),
      hd.unlinked.of_isPrefix <| dropLast_prefix _⟩

lemma stages_link (hcopy : g.copy = false) :
    Stages g done (fun _ => linkSandboxInputBlocking defaults) (fun _ _ => pure ()) where
  localLeaf _ := localTo_linkSandboxInputBlocking
  localFinish := localAt_pure
  leaf _ _ _ hz hw htop hcovered hblocks :=
    keeps_linkSandboxInputBlocking hnew hz hw htop hcopy hcovered hblocks
  finish _ _ _ _ := ensures_pure fun _ hd => hd

omit hnew
include hhere

lemma ready_mirrorPermissions {top : Place} (hz : g.name ∉ z) (source : Place) :
    Moves g done top here here (mirrorPermissions source here) :=
  ensures_look (fun _ hd => hd.framed) fun _ => ready_setPermissions hhere hz _

omit hhere

lemma stages_copy (hnew : g.New) (hcopy : g.copy = true) :
    Stages g done (copyEntry defaults) mirrorPermissions where
  localLeaf := localTo_copyEntry
  localFinish := localAt_mirrorPermissions
  leaf node _ _ hz hw htop hcovered hblocks :=
    keeps_copyEntry hnew hz hw htop hcopy hcovered hblocks node
  finish source _ _ hz := ready_mirrorPermissions rfl hz source

end Trees

end OnceBuild.Sandbox
