import OnceBuild.Sandbox.WalkTree

/-!
# Staging a file or a link

Each of the ways in which something other than a directory is staged changes nothing but the
destination, as long as no link is above it.
-/

namespace OnceBuild.Sandbox

open Lib
open Lib.Fallible
open OnceBuild.Core (Place Disk Node Io)

variable {defaults : Defaults}

/-! ## Rules -/

variable {E : Disk → Prop}

lemma ensures_removePathBlocking {P : Disk → Prop} {Q : Unit → Disk → Prop} {p : Place}
    (hunlinked : ∀ d, P d → Unlinked d p.dropLast)
    (hmissing : ∀ d, P d → existing d p = .ok none → Q () d)
    (hclear : ∀ d node, P d → d.get p = some node → Q () (d.clear p)) (hE : ∀ d, P d → E d) :
    Ensures P (removePathBlocking p) Q E := by
  refine ensures_bind (R := fun there d => P d ∧ existing d p = .ok there)
    (ensures_inspect (fun d there hd hthere => ⟨hd, hthere⟩) fun d _ hd _ => hE d hd) ?_
  intro there
  split
  · exact ensures_pure fun d hd => hmissing d hd.1 hd.2
  · refine ensures_callAt (fun d place effect hd hfind hact => ?_) fun d hd => hE d hd.1
    obtain rfl := locate_eq (hunlinked d hd.1) hfind
    split at hact
    · cases hact
    next mode hdir =>
      cases hact
      exact hclear d _ hd.1 hdir
    · cases hact
  · refine ensures_callAt (fun d place effect hd hfind hact => ?_) fun d hd => hE d hd.1
    obtain rfl := locate_eq (hunlinked d hd.1) hfind
    split at hact
    · cases hact
    · cases hact
    next node _ hnode =>
      cases hact
      exact hclear d _ hd.1 hnode

/-! ## Where nothing is -/

section Vacant

variable {d : Disk} {above : Place} {n : OsPath}

lemma Vacant.unlinked (h : Vacant d above n) : Unlinked d (above ++ [n]) := by
  intro q hq text hlink
  rcases List.prefix_concat_iff.mp hq with rfl | hq
  · exact nomatch h.get_eq_none.symm.trans hlink
  · exact h.dirs.unlinked q hq text hlink

lemma exec_makeRoom (h : Vacant d above n) :
    Fallible.exec (makeRoom defaults (above ++ [n])) d = (.ok (), d) := by
  have hdirs := exec_createDirAll_of_dirs defaults.dirMode h.dirs
  have hlook : existing d (above ++ [n]) = .ok none := by
    simp only [existing, symlinkMetadata, locate_dirs h.dirs, bind, Except.bind, h.get_eq_none]
  have hinspect : exec (inspect fun d' : Disk => existing d' (above ++ [n])) d
      = (.ok none, d) := by
    rw [exec_inspect, hlook]
  unfold makeRoom
  rw [List.dropLast_concat, exec_bind_ok hdirs]
  exact exec_bind_ok hinspect

lemma sameOff_symlink (h : Vacant d above n) (text : OsPath) :
    Ensures (· = d) (symlink text (above ++ [n]))
      (fun _ d' => SameOff (above ++ [n]) d' d) (fun d' => SameOff (above ++ [n]) d' d) := by
  refine ensures_of_exec (exec_createNode (.link text) h.dirs h.get_eq_none) ?_
  exact sameOff_put (fun _ _ => rfl) (List.prefix_refl _) _

lemma ensures_makeRoom_bind {α : Type} {m : Unit → Io α} {Q : α → Disk → Prop}
    (h : Vacant d above n) (hm : Ensures (· = d) (m ()) Q E) :
    Ensures (· = d) (makeRoom defaults (above ++ [n]) >>= m) Q E := by
  rintro _ rfl
  rw [exec_bind_ok (exec_makeRoom h)]
  exact hm _ rfl

lemma ensures_look_bind {α β : Type} {f : Disk → Except Errno α} {m : α → Io β}
    {Q : β → Disk → Prop} (hE : E d) (hm : ∀ a, Ensures (· = d) (m a) Q E) :
    Ensures (· = d) (Fallible.inspect f >>= m) Q E := by
  refine ensures_bind
    (ensures_inspect (fun _ _ hd _ => hd) ?_) hm
  rintro _ _ rfl _
  exact hE

end Vacant

lemma localTo_linkSandboxInputBlocking : LocalTo (linkSandboxInputBlocking defaults) := by
  intro source above n d h
  exact ensures_makeRoom_bind h (sameOff_symlink h _)

lemma localTo_copySymlinkBlocking : LocalTo (copySymlinkBlocking defaults) := by
  intro source above n d h
  refine ensures_look_bind (fun _ _ => rfl) fun target => ?_
  exact ensures_makeRoom_bind h (sameOff_symlink h target)

/-- Only the destination has changed, and it is no link. -/
def Written (d : Disk) (destination : Place) (d' : Disk) : Prop :=
  SameOff destination d' d ∧ Unlinked d' destination

lemma Written.put {d d' : Disk} {destination : Place} (h : Written d destination d') {node : Node}
    (hnode : ∀ text, node ≠ .link text) : Written d destination (d'.put destination node) :=
  ⟨sameOff_put h.1 (List.prefix_refl _) node, h.2.put hnode destination⟩

lemma written_setPermissions {d : Disk} {destination : Place} (mode : Nat) :
    Ensures (Written d destination) (setPermissions mode destination)
      (fun _ => Written d destination) (Written d destination) :=
  ensures_setData (fun _ h => h.2) (fun _ _ _ h _ _ => h.put nofun)
    fun _ _ _ h _ _ => h.put nofun

lemma localTo_copyFileBlocking : LocalTo (copyFileBlocking defaults) := by
  intro source above n d h
  refine ensures_makeRoom_bind h (ensures_look_bind (fun _ _ => rfl) fun data => ?_)
  -- from here on the destination changes, and it is never a link
  have hwrite : Ensures (Written d (above ++ [n]))
      (writeFile (fun _ => data) (above ++ [n]))
      (fun _ => Written d (above ++ [n])) (Written d (above ++ [n])) :=
    ensures_writeFile (fun _ hd => hd.2) fun _ _ hd _ _ => hd.put nofun
  have hrest : Ensures (Written d (above ++ [n]))
      (do
        let node ← inspect fun d => metadata d source
        setPermissions (permissions node) (above ++ [n]))
      (fun _ => Written d (above ++ [n])) (Written d (above ++ [n])) :=
    ensures_bind
      (ensures_inspect (fun _ _ hd _ => hd) fun _ _ hd _ => hd)
      fun _ => written_setPermissions _
  refine (ensures_bind hwrite fun _ => hrest).mono ?_ (fun _ _ hd => hd.1) fun _ hd => hd.1
  rintro _ rfl
  exact ⟨fun _ _ => rfl, h.unlinked⟩

lemma localTo_copyEntry (node : Node) : LocalTo (copyEntry defaults node) := by
  cases node with
  | link text => exact localTo_copySymlinkBlocking
  | file data => exact localTo_copyFileBlocking
  | dir mode | special =>
    intro _ _ _ d _
    exact ensures_pure fun d' hd _ _ => hd ▸ rfl

lemma localAt_mirrorPermissions : LocalAt mirrorPermissions := by
  intro source destination d hdirs
  refine ensures_look_bind (fun _ _ => rfl) fun node => ?_
  refine (written_setPermissions (permissions node)).mono ?_ (fun _ _ hd => hd.1) fun _ hd => hd.1
  rintro _ rfl
  exact ⟨fun _ _ => rfl, hdirs.unlinked⟩

lemma localAt_pure : LocalAt fun _ _ => pure () := by
  intro _ _ d _
  exact ensures_pure fun d' hd _ _ => hd ▸ rfl

end OnceBuild.Sandbox
