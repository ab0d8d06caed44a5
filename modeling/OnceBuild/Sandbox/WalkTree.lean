import OnceBuild.Sandbox.Staging

/-!
# Staging into a place where nothing is

A tree that is staged where nothing is, in a real directory, changes nothing else, whatever its
source is.  If the source is a directory above the destination, staging comes to the copy that it
is making and goes on for ever; it ends only because paths have a greatest length.
-/

namespace OnceBuild.Sandbox

open Lib List
open Lib.Fallible
open OnceBuild.Core (Place Disk Node Io)

variable {defaults : Defaults} {leaf : Node → Place → Place → Io Unit}
  {finish : Place → Place → Io Unit}

/-! ## New places -/

/-- The entry is missing from a real directory, with all below it. -/
structure Vacant (d : Disk) (above : Place) (n : OsPath) : Prop where
  dirs : RealDirs d above
  empty : ∀ w, d.get (above ++ [n] ++ w) = none

variable {d : Disk} {n : OsPath}

lemma Vacant.get_eq_none {above : Place} (h : Vacant d above n) : d.get (above ++ [n]) = none := by
  have hempty := h.empty []
  rwa [append_nil] at hempty

/-- Where nothing is, a program changes nothing but its destination. -/
def LocalTo (m : Place → Place → Io Unit) : Prop :=
  ∀ source above n d, Vacant d above n → Ensures (· = d) (m source (above ++ [n]))
      (fun _ d' => SameOff (above ++ [n]) d' d) (fun d' => SameOff (above ++ [n]) d' d)

/-- In a real directory, a program changes nothing but the directory. -/
def LocalAt (m : Place → Place → Io Unit) : Prop :=
  ∀ source destination d, RealDirs d destination → Ensures (· = d) (m source destination)
      (fun _ d' => SameOff destination d' d) (fun d' => SameOff destination d' d)

/-- What is so while the entries of a new directory are staged. -/
structure Filling (base : Disk) (destination : Place) (done : List OsPath) (d : Disk) : Prop where
  same : SameOff destination d base
  dirs : RealDirs d destination
  empty : ∀ n, n ∉ done → ∀ w, d.get (destination ++ [n] ++ w) = none

lemma not_concat_isPrefix {p : Place} : ¬p ++ [n] <+: p := by
  intro h
  have hlength := h.length_le
  rw [length_append, length_singleton] at hlength
  omega

section

variable {base d d' : Disk} {above destination : Place} {done : List OsPath} {n : OsPath}

lemma Filling.vacant (h : Filling base destination done d) (hn : n ∉ done) :
    Vacant d destination n :=
  ⟨h.dirs, h.empty n hn⟩

lemma Filling.next (h : Filling base destination done d)
    (hsame : SameOff (destination ++ [n]) d' d) : Filling base destination (done ++ [n]) d' where
  same := (hsame.mono (prefix_append _ _)).trans h.same
  dirs := h.dirs.sameOff hsame not_concat_isPrefix
  empty m hm w := by
    rw [mem_append, not_or, mem_singleton] at hm
    have hoff : ¬destination ++ [n] <+: destination ++ [m] ++ w := by
      intro hbelow
      rw [append_assoc, prefix_append_right_inj, singleton_append, cons_prefix_cons] at hbelow
      exact hm.2 hbelow.1.symm
    exact (hsame _ hoff).trans (h.empty m hm.1 w)

lemma Vacant.filling (h : Vacant d above n) (mode : Nat) :
    Filling d (above ++ [n]) [] (d.put (above ++ [n]) (.dir mode)) where
  same := sameOff_put (fun _ _ => rfl) (prefix_refl _) _
  dirs := by
    have hsame : SameOff (above ++ [n]) (d.put (above ++ [n]) (.dir mode)) d :=
      sameOff_put (fun _ _ => rfl) (prefix_refl _) _
    have hnew : (d.put (above ++ [n]) (.dir mode)).get (above ++ [n]) = some (.dir mode) := by
      rw [Disk.get_put, if_pos rfl]
    exact (h.dirs.sameOff hsame not_concat_isPrefix).concat hnew
  empty m _ w := by
    rw [Disk.get_put, if_neg (by simp), append_assoc]
    exact h.empty _

end

/-! ## Trees -/

variable {source : Place}

variable {below : Place → Place → Io Unit} {destination : Place}

section

variable (hleaf : ∀ node, LocalTo (leaf node))
include hleaf

lemma localTo_walkEntry (hbelow : LocalTo below) (h : Vacant d destination n) :
    Ensures (· = d) (walkEntry leaf below source destination n)
      (fun _ d' => SameOff (destination ++ [n]) d' d)
      (fun d' => SameOff (destination ++ [n]) d' d) := by
  refine ensures_bind
    (ensures_inspect (fun _ _ hd _ => hd) ?_) fun node => ?_
  · rintro _ _ rfl _
    exact fun _ _ => rfl
  · split
    · exact hbelow _ _ _ _ h
    · exact hleaf _ _ _ _ _ h

lemma filling_entries (hbelow : LocalTo below) {base : Disk}
    {children : List OsPath} (hnodup : children.Nodup) :
    Ensures (Filling base destination [])
      (children.forM (walkEntry leaf below source destination))
      (fun _ => Filling base destination children) (fun d => SameOff destination d base) := by
  refine ensures_forM_upTo (Filling base destination) fun done n rest hchildren => ?_
  have hn : n ∉ done := by
    rw [hchildren] at hnodup
    exact fun hmem => (nodup_append.mp hnodup).2.2 n hmem n mem_cons_self rfl
  refine ensures_of_each fun d hd => ?_
  refine (localTo_walkEntry hleaf hbelow (hd.vacant hn)).mono (fun _ h => h)
    (fun _ _ hsame => hd.next hsame) fun d' hsame => ?_
  exact (hsame.mono (prefix_append _ _)).trans hd.same

lemma localTo_walkTree (hfinish : LocalAt finish)
    (depth : Nat) : LocalTo (walkTree defaults leaf finish depth) := by
  induction depth with
  | zero =>
    intro source above n d _
    refine ensures_throw ?_
    rintro _ rfl
    exact fun _ _ => rfl
  | succ depth ih =>
    intro source above n d h
    have hcreate := exec_createDirAll_last defaults.dirMode h.dirs
      h.get_eq_none
    refine ensures_bind (R := fun _ => Filling d (above ++ [n]) [])
      (ensures_of_exec hcreate (h.filling _)) fun _ => ?_
    refine ensures_bind (R := fun children d' =>
        Filling d (above ++ [n]) [] d' ∧ children.Nodup)
      (ensures_inspect (fun d' children hd hread => ?_) fun d' _ hd _ => hd.same)
      fun children => ?_
    · obtain ⟨-, -, hnodup, -⟩ := readDir_eq_ok hread
      exact ⟨hd, hnodup⟩
    refine ensures_of_fact fun hnodup => ?_
    refine ensures_bind (filling_entries hleaf ih hnodup) fun _ => ?_
    refine ensures_of_each fun d' hd => ?_
    exact (hfinish _ _ d' hd.dirs).mono (fun _ heq => heq) (fun _ _ hsame => hsame.trans hd.same)
      fun _ hsame => hsame.trans hd.same

end

/-! ## A tree staged into itself -/

/-- The path leads to the place on every disk that differs from `made` only below `area`, as long
as the place is a directory. -/
def LeadsTo (made : Disk) (area path place : Place) : Prop :=
  ∀ d, SameOff area d made → RealDirs d place → resolve false d path = .ok place

lemma LeadsTo.concat {made : Disk} {area path place : Place} (h : LeadsTo made area path place)
    (n : OsPath) : LeadsTo made area (path ++ [n]) (place ++ [n]) := by
  intro d hsame hdirs
  have habove : RealDirs d place := hdirs.of_isPrefix (prefix_append place [n])
  obtain ⟨data, hdata⟩ := habove place (prefix_refl _)
  obtain ⟨data', hdata'⟩ := hdirs (place ++ [n]) (prefix_refl _)
  exact resolve_concat (h d hsame habove) hdata hdata'

/-- A directory that is staged below itself is never staged to the end: its entries include the
way to the copy. -/
lemma walkTree_into_itself (hleaf : ∀ node, LocalTo (leaf node)) (hfinish : LocalAt finish)
    {made : Disk} {area : Place} (depth : Nat) {place way : Place}
    (hsource : LeadsTo made area source place) (harea : area <+: place ++ way ++ [n])
    (hmade : SameOff area d made) (h : Vacant d (place ++ way) n) :
    Ensures (· = d)
      (walkTree defaults leaf finish depth source (place ++ way ++ [n]))
      (fun _ _ => False) (fun d' => SameOff (place ++ way ++ [n]) d' d) := by
  induction depth generalizing source place way n d with
  | zero =>
    refine ensures_throw ?_
    rintro _ rfl
    exact fun _ _ => rfl
  | succ depth ih =>
    -- the first step from the source to the copy
    obtain ⟨first, onward, hway⟩ : ∃ first onward, way ++ [n] = first :: onward := by
      cases way with
      | nil => exact ⟨n, [], rfl⟩
      | cons first way => exact ⟨first, way ++ [n], rfl⟩
    have hdestination : place ++ way ++ [n] = place ++ [first] ++ onward := by
      rw [append_assoc, hway, append_assoc, singleton_append]
    have hcreate := exec_createDirAll_last defaults.dirMode h.dirs
      h.get_eq_none
    refine ensures_bind (R := fun _ => Filling d (place ++ way ++ [n]) [])
      (ensures_of_exec hcreate (h.filling _)) fun _ => ?_
    have hleads : ∀ d', SameOff (place ++ way ++ [n]) d' d → RealDirs d' (place ++ way ++ [n]) →
        resolve false d' source = .ok place := by
      intro d' hsame hdirs
      refine hsource d' ((hsame.mono harea).trans hmade) (hdirs.of_isPrefix ?_)
      rw [append_assoc]
      exact prefix_append _ _
    refine ensures_bind (R := fun children d' =>
        Filling d (place ++ way ++ [n]) [] d' ∧ children.Nodup ∧ first ∈ children)
      (ensures_inspect (fun d' children hd hread => ?_) fun d' _ hd _ => hd.same)
      fun children => ?_
    · obtain ⟨place', hplace', hnodup, hmem⟩ := readDir_eq_ok hread
      obtain rfl : place' = place := Except.ok.inj (hplace'.symm.trans (hleads d' hd.same hd.dirs))
      refine ⟨hd, hnodup, (hmem first).mpr ?_⟩
      obtain ⟨data, hdata⟩ := hd.dirs (place' ++ [first]) (hdestination ▸ prefix_append _ _)
      rw [hdata]
      exact Option.some_ne_none _
    refine ensures_of_fact fun ⟨hnodup, hfirst⟩ => ?_
    refine ensures_bind (R := fun _ _ => False) ?_ fun _ d' hd => hd.elim
    -- no round gets past the entry on the way to the copy
    refine (ensures_forM_upTo
      (fun done d' => Filling d (place ++ way ++ [n]) done d' ∧ first ∉ done)
      fun done m rest hchildren => ?_).mono (fun d' hd => ⟨hd, not_mem_nil⟩)
      (fun _ _ hd => hd.2 hfirst) fun _ hd => hd
    have hm : m ∉ done := by
      rw [hchildren] at hnodup
      exact fun hmem => (nodup_append.mp hnodup).2.2 m hmem m mem_cons_self rfl
    refine ensures_of_each fun d' hd => ?_
    by_cases hmfirst : m = first
    · obtain rfl := hmfirst
      obtain ⟨data, hdata⟩ := hd.1.dirs (place ++ [m]) (hdestination ▸ prefix_append _ _)
      obtain ⟨data', hdata'⟩ := hd.1.dirs place
        (by rw [append_assoc]; exact prefix_append _ _)
      have hlocate : locate d' (source ++ [m]) = .ok (place ++ [m]) :=
        locate_concat (hleads d' hd.1.same hd.1.dirs) hdata'
      have hlook : symlinkMetadata d' (source ++ [m]) = .ok (.dir data) := by
        simp only [symlinkMetadata, hlocate, bind, Except.bind, hdata]
      have hinspect : exec (inspect fun d'' : Disk =>
          symlinkMetadata d'' (source ++ [m])) d' = (.ok (.dir data), d') := by
        rw [exec_inspect, hlook]
      have hvacant : Vacant d' (place ++ [m] ++ onward) m := hdestination ▸ hd.1.vacant hm
      have hnever := ih (hsource.concat m)
        ((hdestination ▸ harea).trans (prefix_append _ [m]))
        ((hd.1.same.mono harea).trans hmade) hvacant
      refine ensures_bind (R := fun node d'' => d'' = d' ∧ node = .dir data)
        (ensures_of_exec hinspect ⟨rfl, rfl⟩) fun node => ?_
      refine ensures_of_fact fun hnode => ?_
      subst hnode
      rw [hdestination]
      refine hnever.mono (fun _ heq => heq) (fun _ _ hfalse => hfalse.elim) fun d'' hsame => ?_
      rw [← hdestination] at hsame ⊢
      exact (hsame.mono (prefix_append _ _)).trans hd.1.same
    · refine (localTo_walkEntry hleaf (localTo_walkTree hleaf hfinish depth)
        (hd.1.vacant hm)).mono (fun _ heq => heq) (fun _ d'' hsame => ⟨hd.1.next hsame, ?_⟩)
        fun d'' hsame => (hsame.mono (prefix_append _ _)).trans hd.1.same
      rw [mem_append, not_or, mem_singleton]
      exact ⟨hd.2, fun heq => hmfirst heq.symm⟩

end OnceBuild.Sandbox
