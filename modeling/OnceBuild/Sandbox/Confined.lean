import OnceBuild.Sandbox.Leaves

/-!
# What staging leaves alone

Staging follows the links that are above the path it stages.  It puts links itself, at the paths of
inputs that are no directories; a path that is staged later and lies below one of them is written
where the link leads, which may be the workspace.  Below a link that leads to no directory nothing
can be created, and staging fails.  Below a directory that is staged, links are only put where the
workspace has no directory.
-/

namespace OnceBuild.Sandbox

open Lib List
open Lib.Fallible
open OnceBuild.Core (WorkspacePath FileData Place Disk Node Io names resolve)

/-! ## What staging puts into the execution root -/

/-- What staging starts from, the disk `made` with the new sandbox, and what it is about: the paths
that are declared, and whether inputs are copied. -/
structure Ground where
  made : Disk
  workspace : Place
  name : OsPath
  paths : List Place
  copy : Bool

def sandboxAt (workspace : Place) (name : OsPath) : Place := sandboxesIn workspace ++ [name]

def execrootAt (workspace : Place) (name : OsPath) : Place :=
  sandboxAt workspace name ++ [execrootName]

/-- A new sandbox: an empty directory under a name that occurs nowhere else. -/
structure NewSandbox (d : Disk) (workspace : Place) (name : OsPath) : Prop where
  rooted : Rooted d
  dirs : RealDirs d (sandboxAt workspace name)
  empty : ∀ n w, d.get (sandboxAt workspace name ++ n :: w) = none
  unnamed : Unnamed d name
  only : ∀ place, d.get place ≠ none → name ∈ place → sandboxAt workspace name <+: place

namespace Ground

variable (g : Ground)

abbrev sandbox : Place := sandboxAt g.workspace g.name

abbrev execroot : Place := execrootAt g.workspace g.name

abbrev New : Prop := NewSandbox g.made g.workspace g.name

/-- Whether the workspace has something other than a directory at the path. -/
def blocks (z : Place) : Bool :=
  match symlinkMetadata g.made (g.workspace ++ z) with
  | .ok (.dir _) => false
  | .ok _ => true
  | .error _ => false

end Ground

/-- A directory may be created on the way to a declared path or to a directory of the workspace. -/
def Wanted (g : Ground) (z : Place) : Prop :=
  ∃ y, z <+: y ∧ (y ∈ g.paths ∨ isDirAt g.made (g.workspace ++ y) = true)

/-- The text of a link that stands for what the workspace has at a path: that of a link there, or
the path itself. -/
def LinkFor (g : Ground) (z : Place) (text : OsPath) : Prop :=
  if g.copy then symlinkMetadata g.made (g.workspace ++ z) = .ok (.link text)
  else text = absoluteText (g.workspace ++ z)

lemma Wanted.of_isPrefix {g : Ground} {y z : Place} (h : Wanted g z) (hy : y <+: z) :
    Wanted g y := by
  obtain ⟨path, hpath, hcase⟩ := h
  exact ⟨path, hy.trans hpath, hcase⟩

/-- What was staged so far: nothing outside the execution root has changed, the directories in it
are wanted, and its links stand for what the inputs `done` have that is no directory. -/
structure Staged (g : Ground) (done : List Place) (d : Disk) : Prop where
  same : SameOff g.execroot d g.made
  rooted : Rooted d
  fresh : ∀ z, d.get (g.execroot ++ z) ≠ none → g.name ∉ z
  wanted : ∀ z mode, d.get (g.execroot ++ z) = some (.dir mode) → Wanted g z
  links : ∀ z text, d.get (g.execroot ++ z) = some (.link text) →
    (∃ p ∈ done, p <+: z) ∧ g.blocks z = true ∧ LinkFor g z text

/-- Of the links that may have been staged for the inputs `done`, none that is strictly above the
path leads to a directory. -/
def ClearOf (g : Ground) (done : List Place) (path : Place) : Prop :=
  ∀ d, Staged g done d → ∀ z text, z <+: path → z ≠ path →
    d.get (g.execroot ++ z) = some (.link text) → isDirAt d (g.execroot ++ z) = false

variable {g : Ground} {d : Disk} {done : List Place} {defaults : Defaults}

lemma Staged.mono {done' : List Place} (h : Staged g done d)
    (hsub : done ⊆ done') : Staged g done' d where
  same := h.same
  rooted := h.rooted
  fresh := h.fresh
  wanted := h.wanted
  links z text hlink := by
    obtain ⟨⟨p, hp, hpz⟩, hrest⟩ := h.links z text hlink
    exact ⟨⟨p, hsub hp, hpz⟩, hrest⟩

lemma Staged.put (h : Staged g done d) {z : Place} {node : Node}
    (hz : g.name ∉ z) (hin : InDir d (g.execroot ++ z))
    (hdir : (∃ mode, node = .dir mode) ∨ ∀ mode, d.get (g.execroot ++ z) ≠ some (.dir mode))
    (hwanted : ∀ mode, node = .dir mode → Wanted g z)
    (hlink : ∀ text, node = .link text → (∃ p ∈ done, p <+: z) ∧
      g.blocks z = true ∧ LinkFor g z text) :
    Staged g done (d.put (g.execroot ++ z) node) where
  same := sameOff_put h.same (prefix_append _ _) node
  rooted := h.rooted.put hin hdir
  fresh y hy := by
    rw [Disk.get_put] at hy
    split at hy
    case isTrue heq =>
      rw [append_cancel_left_eq] at heq
      exact heq ▸ hz
    case isFalse => exact h.fresh y hy
  wanted y mode hy := by
    rw [Disk.get_put] at hy
    split at hy
    case isTrue heq =>
      rw [append_cancel_left_eq] at heq
      exact heq ▸ hwanted mode (Option.some.inj hy)
    case isFalse => exact h.wanted y mode hy
  links y text hy := by
    rw [Disk.get_put] at hy
    split at hy
    case isTrue heq =>
      rw [append_cancel_left_eq] at heq
      exact heq ▸ hlink text (Option.some.inj hy)
    case isFalse => exact h.links y text hy

lemma Staged.clear (h : Staged g done d) (z : Place) :
    Staged g done (d.clear (g.execroot ++ z)) where
  same := sameOff_clear h.same (prefix_append _ _)
  rooted := h.rooted.clear (by simp [execrootAt])
  fresh y hy := by
    rw [Disk.get_clear] at hy
    split at hy
    case isTrue => exact absurd rfl hy
    case isFalse => exact h.fresh y hy
  wanted y mode hy := by
    rw [Disk.get_clear] at hy
    split at hy
    case isTrue => cases hy
    case isFalse => exact h.wanted y mode hy
  links y text hy := by
    rw [Disk.get_clear] at hy
    split at hy
    case isTrue => cases hy
    case isFalse => exact h.links y text hy

lemma Staged.dirs (hnew : g.New) (h : Staged g done d) : RealDirs d g.sandbox :=
  hnew.dirs.sameOff h.same not_concat_isPrefix

/-- Either no link is above the path, or nothing can be done there. -/
lemma Staged.unlinked_or_stuck (hnew : g.New) (h : Staged g done d) {path : Place}
    (hclear : ClearOf g done path) :
    Unlinked d (g.execroot ++ path).dropLast ∨ ∃ z text, z <+: path ∧ z ≠ path ∧
        d.get (g.execroot ++ z) = some (.link text) ∧
        isDirAt d (g.execroot ++ z) = false := by
  refine or_iff_not_imp_right.mpr fun hnone q hq text hlink => ?_
  have hlength : q.length < (g.execroot ++ path).length := by
    have hle := hq.length_le
    rw [length_dropLast] at hle
    have hpos : 0 < (g.execroot ++ path).length :=
      length_pos_of_ne_nil (by simp [execrootAt])
    omega
  have hq' : q <+: g.execroot ++ path := hq.trans <| dropLast_prefix _
  have hinside : ∀ z, q = g.execroot ++ z → False := by
    rintro z rfl
    have hzpath : z <+: path := (prefix_append_right_inj _).mp hq'
    have hne : z ≠ path := by
      rintro rfl
      exact Nat.lt_irrefl _ hlength
    exact hnone ⟨z, text, hzpath, hne, hlink, hclear d h z text hzpath hne hlink⟩
  rcases prefix_or_prefix_of_prefix hq' (prefix_append _ path) with hup | ⟨z, hz⟩
  · rcases prefix_concat_iff.mp hup with heq | hup
    · exact hinside [] (heq.trans (append_nil _).symm)
    · obtain ⟨mode, hmode⟩ := h.dirs hnew q hup
      exact nomatch hmode.symm.trans hlink
  · exact hinside z hz.symm

/-! ## One path -/

/-- The program keeps what was staged, stages at a path with no link above it, and leaves the
directories up to `top` alone. -/
structure Ready (g : Ground) (done : List Place) (top destination : Place) (d : Disk) : Prop where
  staged : Staged g done d
  dirs : RealDirs d top
  unlinked : Unlinked d destination

/-- From `Ready` at `here` the program comes to `Ready` at `there`; also when it fails it changes
nothing outside the execution root. -/
def Moves (g : Ground) (done : List Place) (top here there : Place) (m : Io Unit) : Prop :=
  Ensures (Ready g done top here) m (fun _ => Ready g done top there)
    (fun d => SameOff g.execroot d g.made)

section Ready

variable {top destination z : Place}

lemma Moves.above {here : Place} {m : Io Unit} (h : Moves g done top here destination m) :
    Moves g done top here destination.dropLast m :=
  h.mono (fun _ hd => hd)
    (fun _ _ hd => ⟨hd.staged, hd.dirs, hd.unlinked.of_isPrefix <| dropLast_prefix _⟩)
    fun _ hd => hd

lemma Ready.framed (h : Ready g done top destination d) :
    SameOff g.execroot d g.made :=
  h.staged.same

lemma Ready.put (h : Ready g done top destination d) {node : Node}
    (hz : g.name ∉ z) (hin : InDir d (g.execroot ++ z))
    (hdir : (∃ mode, node = .dir mode) ∨ ∀ mode, d.get (g.execroot ++ z) ≠ some (.dir mode))
    (hwanted : ∀ mode, node = .dir mode → Wanted g z)
    (hnode : ∀ text, node ≠ .link text) :
    Ready g done top destination (d.put (g.execroot ++ z) node) where
  staged := h.staged.put hz hin hdir hwanted fun text heq => absurd heq (hnode text)
  dirs q hq := by
    obtain ⟨mode, hmode⟩ := h.dirs q hq
    rw [Disk.get_put]
    split
    case isTrue heq =>
      rcases hdir with ⟨mode', rfl⟩ | hnot
      · exact ⟨mode', rfl⟩
      · exact absurd (heq ▸ hmode) (hnot mode)
    case isFalse => exact ⟨mode, hmode⟩
  unlinked := h.unlinked.put hnode _

section

variable (hnew : g.New)
include hnew

lemma Ready.createDir (hz : g.name ∉ z) (hw : Wanted g z)
    (hd : Ready g done top destination d) {above place : Place}
    (habove : above <+: g.execroot ++ z) (hunlinked : above.dropLast <+: destination)
    (hmissing : isDirAt d above = false) (hfind : locate d above = .ok place) (mode : Nat) :
    Ready g done top destination (d.put place (.dir mode)) := by
  have hplace : place = above := locate_eq (hd.unlinked.of_isPrefix hunlinked) hfind
  obtain ⟨y, rfl⟩ : g.execroot <+: above := by
    rcases prefix_or_prefix_of_prefix habove (prefix_append g.execroot z) with hup | hdown
    · rcases prefix_concat_iff.mp hup with rfl | hup
      · exact prefix_refl _
      · have hthere := isDirAt_of_dirs ((hd.staged.dirs hnew).of_isPrefix hup)
        exact absurd (hthere.symm.trans hmissing) (by decide)
    · exact hdown
  have hyz : y <+: z := (prefix_append_right_inj _).mp habove
  have hin : InDir d (g.execroot ++ y) := hplace ▸ inDir_of_locate hfind
  rw [hplace]
  exact hd.put (fun hmem => hz (hyz.subset hmem)) hin (.inl ⟨_, rfl⟩)
    (fun _ _ => hw.of_isPrefix hyz) nofun

lemma ready_createDirAll (hz : g.name ∉ z) (hw : Wanted g z)
    (hdestination : destination <+: g.execroot ++ z) :
    Ensures (Ready g done top destination) (createDirAll defaults.dirMode destination)
      (fun _ d => Ready g done top destination d ∧ RealDirs d destination)
      (Ready g done top destination) := by
  refine (ensures_createDirAll_dir (fun above habove d place hd hmissing hfind _ => ?_)
    fun d hd => hd.unlinked).mono (fun _ hd => hd) (fun _ d hd => ⟨hd.1, ?_⟩) fun _ hd => hd
  · exact hd.createDir hnew hz hw (habove.trans hdestination)
      (( dropLast_prefix above).trans habove) hmissing hfind _
  · obtain ⟨mode, hmode⟩ := hd.2
    exact hd.1.staged.rooted.realDirs hmode

lemma ready_createDirAll_dropLast (hz : g.name ∉ z) (hw : Wanted g z)
    (hdestination : destination <+: g.execroot ++ z) :
    Ensures (Ready g done top destination.dropLast) (createDirAll defaults.dirMode destination)
      (fun _ => Ready g done top destination.dropLast)
      (Ready g done top destination.dropLast) := by
  refine ensures_createDirAll fun above habove d place hd hmissing hfind _ => ?_
  refine hd.createDir hnew hz hw (habove.trans hdestination) ?_ hmissing hfind _
  cases destination using reverseRecOn with
  | nil => rw [prefix_nil.mp habove]
  | append_singleton destination n =>
    rw [dropLast_concat]
    rcases prefix_concat_iff.mp habove with rfl | habove
    · rw [dropLast_concat]
    · exact ( dropLast_prefix above).trans habove

end

lemma get_of_existing_none {p : Place} (hrooted : Rooted d) (h : existing d p = .ok none) :
    d.get p = none := by
  by_contra hnode
  obtain ⟨node, hnode⟩ := Option.ne_none_iff_exists'.mp hnode
  have hlocate : locate d p = .ok p := by
    cases p using reverseRecOn with
    | nil => rfl
    | append_singleton p n =>
      obtain ⟨mode, hmode⟩ := hrooted.parent p n (hnode ▸ Option.some_ne_none _)
      exact locate_dirs (hrooted.realDirs hmode)
  simp only [existing, symlinkMetadata, hlocate, bind, Except.bind, hnode] at h
  cases h

lemma Unlinked.of_dropLast {p : Place} (h : Unlinked d p.dropLast)
    (hp : ∀ text, d.get p ≠ some (.link text)) : Unlinked d p := by
  cases p using reverseRecOn with
  | nil => exact h
  | append_singleton p n =>
    rw [dropLast_concat] at h
    intro q hq
    rcases prefix_concat_iff.mp hq with rfl | hq
    · exact hp
    · exact h q hq

lemma not_isPrefix_dropLast (z : Place) :
    ¬g.execroot ++ z <+: (g.execroot ++ z).dropLast := by
  intro h
  have hlength := h.length_le
  have hpos : 0 < (g.execroot ++ z).length :=
    length_pos_of_ne_nil (by simp [execrootAt])
  rw [length_dropLast] at hlength
  omega

lemma ready_removePathBlocking (htop : top <+: (g.execroot ++ z).dropLast) :
    Moves g done top (g.execroot ++ z).dropLast
      (g.execroot ++ z) (removePathBlocking (g.execroot ++ z)) := by
  refine ensures_removePathBlocking (fun d hd => hd.unlinked) (fun d hd hnone => ?_)
    (fun d node hd _ => ?_) fun d hd => hd.framed
  · have hget := get_of_existing_none hd.staged.rooted hnone
    exact ⟨hd.staged, hd.dirs,
      Unlinked.of_dropLast hd.unlinked fun text hlink => nomatch hget.symm.trans hlink⟩
  · refine ⟨hd.staged.clear z, ?_, Unlinked.of_dropLast (hd.unlinked.clear _) fun text hlink => ?_⟩
    · refine hd.dirs.sameOff (sameOff_clear (fun _ _ => rfl) (prefix_refl _)) ?_
      exact fun hbelow => not_isPrefix_dropLast z (hbelow.trans htop)
    · rw [Disk.get_clear, if_pos (by simp)] at hlink
      cases hlink

lemma dropLast_append_isPrefix (p q : Place) : (p ++ q).dropLast <+: p ++ q.dropLast := by
  cases q using reverseRecOn with
  | nil =>
    rw [dropLast_nil, append_nil]
    exact dropLast_prefix p
  | append_singleton q n => rw [← append_assoc, dropLast_concat, dropLast_concat]

lemma ready_makeRoom (hnew : g.New) (hz : g.name ∉ z) (hw : Wanted g z.dropLast)
    (htop : top <+: (g.execroot ++ z).dropLast) :
    Moves g done top (g.execroot ++ z).dropLast
      (g.execroot ++ z) (makeRoom defaults (g.execroot ++ z)) :=
  ensures_bind ((ready_createDirAll hnew (fun hmem => hz (mem_of_mem_dropLast hmem)) hw
      (dropLast_append_isPrefix _ _)).mono (fun _ hd => hd)
      (fun _ _ hd => hd.1) fun _ hd => hd.framed)
    fun _ => ready_removePathBlocking htop

lemma ready_symlink (hz : g.name ∉ z) (htop : top <+: (g.execroot ++ z).dropLast)
    (hcovered : ∃ p ∈ done, p <+: z) (hblocks : g.blocks z = true)
    {text : OsPath} (hfor : LinkFor g z text) :
    Moves g done top (g.execroot ++ z) (g.execroot ++ z).dropLast
      (symlink text (g.execroot ++ z)) := by
  refine ensures_createNode (fun d place hd hfind hnone => ?_) fun d hd => hd.framed
  have habove := hd.unlinked.of_isPrefix <| dropLast_prefix _
  obtain rfl := locate_eq habove hfind
  refine ⟨hd.staged.put hz (inDir_of_locate hfind) (.inr fun mode hmode => ?_) nofun
    fun _ heq => ⟨hcovered, hblocks, ?_⟩, ?_,
      habove.put_of_not_isPrefix (not_isPrefix_dropLast z) _⟩
  · exact nomatch hnone.symm.trans hmode
  · cases heq
    exact hfor
  · refine hd.dirs.sameOff (sameOff_put (fun _ _ => rfl) (prefix_refl _) _) ?_
    exact fun hbelow => not_isPrefix_dropLast z (hbelow.trans htop)

variable {here : Place} (hhere : here = g.execroot ++ z) (hz : g.name ∉ z)
include hhere hz

lemma ready_writeFile (update : Option FileData → FileData) :
    Moves g done top here here (writeFile update here) := by
  subst hhere
  refine (ensures_writeFile (fun d hd => hd.unlinked) fun d data hd hfind hnot => ?_).mono
    (fun _ hd => hd) (fun _ _ hd => hd) fun _ hd => hd.framed
  exact hd.put hz (inDir_of_resolve hd.staged.rooted hfind) (.inr hnot) nofun nofun

lemma ready_setPermissions (mode : Nat) :
    Moves g done top here here (setPermissions mode here) := by
  subst hhere
  refine (ensures_setData (fun d hd => hd.unlinked) (fun d _ _ hd hfind hdir => ?_)
    fun d _ _ hd hfind hfile => ?_).mono (fun _ hd => hd) (fun _ _ hd => hd) fun _ hd => hd.framed
  · exact hd.put hz (inDir_of_resolve hd.staged.rooted hfind) (.inl ⟨_, rfl⟩)
      (fun _ _ => hd.staged.wanted z _ hdir) nofun
  · refine hd.put hz (inDir_of_resolve hd.staged.rooted hfind) (.inr fun m hm => ?_) nofun nofun
    exact nomatch hfile.symm.trans hm

end Ready

end OnceBuild.Sandbox
