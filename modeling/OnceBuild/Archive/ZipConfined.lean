import OnceBuild.Archive.ExtractZip

/-!
# A ZIP archive stays in its destination

Whatever the entries are, and wherever extraction stops, nothing is written outside the
destination: no link is at or above a path that is written.  Links lead nowhere outside it either,
as long as the count of their path's components is the count of its names.  It is one more for a
path that begins with a dot, and such a link may climb out of the destination.
-/

namespace OnceBuild.Archive

open Lib List Component
open Lib.Fallible
open OnceBuild.Core (FileData)

/-! ## Components -/

lemma mem_ofPart {parts : List OsPath} {c : Component}
    (h : c ∈ parts.filterMap ofPart) : c = .parentDir ∨ ∃ name, c = .normal name := by
  obtain ⟨part, -, hpart⟩ := mem_filterMap.mp h
  unfold ofPart at hpart
  split at hpart
  · cases hpart
  · split at hpart
    · exact .inl (Option.some.inj hpart).symm
    · exact .inr ⟨part, (Option.some.inj hpart).symm⟩

variable {parts : List Component}

lemma length_namesOf (h : ∀ c ∈ parts, ∃ name, c = .normal name) :
    (namesOf parts).length = parts.length := by
  induction parts with
  | nil => rfl
  | cons c parts ih =>
    obtain ⟨name, rfl⟩ := h c mem_cons_self
    have hrest := ih fun c' hc' => h c' (mem_cons_of_mem _ hc')
    exact congrArg (· + 1) hrest

def beginsWithDot (path : OsPath) : Bool := (components path).head? = some .curDir

lemma leading_cases (path : OsPath) :
    leading path = [.rootDir] ∨ leading path = [.curDir] ∨ leading path = [] := by
  unfold leading
  split
  · exact .inl rfl
  · split
    · exact .inr (.inl rfl)
    · exact .inr (.inr rfl)

variable {path : OsPath}

lemma length_components (h : (components path).any leavesRoot = false) :
    (components path).length =
      (if beginsWithDot path then 1 else 0) + (namesOf (components path)).length := by
  have hall : ∀ c ∈ components path, leavesRoot c = false := by
    simpa using any_eq_false.mp h
  have hparts : ∀ c ∈ (path.splitOn slash).filterMap ofPart, ∃ name, c = .normal name := by
    intro c hc
    rcases mem_ofPart hc with rfl | hname
    · exact absurd (hall _ (mem_append_right _ hc)) (by decide)
    · exact hname
  have hlength := length_namesOf hparts
  rcases leading_cases path with hlead | hlead | hlead
  · have hroot : rootDir ∈ components path := by
      rw [components, hlead]
      exact mem_cons_self
    exact absurd (hall _ hroot) (by decide)
  · have hdot : beginsWithDot path = true := by
      rw [beginsWithDot, components, hlead]
      rfl
    rw [hdot, components, hlead]
    exact (Nat.add_comm _ 1).trans (congrArg (1 + ·) hlength.symm)
  · have hcomponents : components path = (path.splitOn slash).filterMap ofPart := by
      rw [components, hlead, nil_append]
    have hdot : beginsWithDot path = false := by
      rw [beginsWithDot, decide_eq_false_iff_not, hcomponents]
      intro hhead
      obtain ⟨name, hname⟩ := hparts _ (mem_of_head? hhead)
      cases hname
    rw [hdot, if_neg Bool.false_ne_true, Nat.zero_add, hcomponents]
    exact hlength.symm

/-! ## Targets -/

def climbs (parts : List Component) : Nat := parts.count .parentDir

variable {depth : Nat}

variable {descended : Bool}

lemma tame_of_targetStays {parts : List OsPath}
    (h : targetStays depth descended (parts.filterMap ofPart) = true) :
    (descended = true → Descends (parts.map stepOf)) ∧
      ∀ k, climbs (parts.filterMap ofPart) ≤ k → Tame k (parts.map stepOf) := by
  induction parts generalizing depth descended with
  | nil => exact ⟨fun _ => not_mem_nil, fun _ _ => trivial⟩
  | cons part parts ih =>
    by_cases hdot : part = [] ∨ part = [dot]
    · have hof : ofPart part = none := if_pos hdot
      have hstep : stepOf part = .cur := if_pos hdot
      rw [filterMap_cons_none hof] at h ⊢
      rw [map_cons, hstep]
      obtain ⟨hdescends, htame⟩ := ih h
      refine ⟨fun hdesc hmem => ?_, fun k hk => htame k hk⟩
      rcases mem_cons.mp hmem with hcur | hmem
      · cases hcur
      · exact hdescends hdesc hmem
    · by_cases hup : part = [dot, dot]
      · have hof : ofPart part = some .parentDir := by
          rw [ofPart, if_neg hdot, if_pos hup]
        have hstep : stepOf part = .parent := by rw [stepOf, if_neg hdot, if_pos hup]
        rw [filterMap_cons_some hof] at h ⊢
        rw [map_cons, hstep]
        simp only [targetStays, Bool.and_eq_true, Bool.not_eq_true'] at h
        obtain ⟨⟨hdesc, -⟩, hrest⟩ := h
        refine ⟨fun htrue => absurd (hdesc.symm.trans htrue) Bool.false_ne_true, fun k hk => ?_⟩
        rw [climbs, count_cons_self] at hk
        obtain ⟨k, rfl⟩ := Nat.exists_eq_add_of_lt hk
        exact (ih hrest).2 _ (by unfold climbs; omega)
      · have hof : ofPart part = some (.normal part) := by
          rw [ofPart, if_neg hdot, if_neg hup]
        have hstep : stepOf part = .name part := by
          rw [stepOf, if_neg hdot, if_neg hup]
        rw [filterMap_cons_some hof] at h ⊢
        rw [map_cons, hstep]
        have hdescends := (ih h).1 rfl
        refine ⟨fun _ hmem => ?_, fun _ _ => hdescends⟩
        rcases mem_cons.mp hmem with hname | hmem
        · cases hname
        · exact hdescends hmem

lemma climbs_leading (path : OsPath) : climbs (leading path) = 0 := by
  rcases leading_cases path with hlead | hlead | hlead <;> rw [hlead] <;> rfl

lemma tame_of_accepted {target : OsPath} {k : Nat}
    (h : targetStays depth false (components target) = true) (hk : climbs (components target) ≤ k) :
    isAbsolute target = false ∧ Tame k ((target.splitOn slash).map stepOf) := by
  have hclimbs : climbs (components target) = climbs ((target.splitOn slash).filterMap ofPart) := by
    rw [components, climbs, count_append]
    exact (congrArg (· + _) (climbs_leading target)).trans (Nat.zero_add _)
  rw [hclimbs] at hk
  unfold components leading at h
  cases habsolute : isAbsolute target with
  | true =>
    rw [habsolute] at h
    cases h
  | false =>
    rw [habsolute] at h
    refine ⟨rfl, ?_⟩
    split at h
    case isTrue hfalse => cases hfalse
    case isFalse =>
      split at h
      · exact (tame_of_targetStays h).2 k hk
      · exact (tame_of_targetStays h).2 k hk

lemma climbs_le (h : targetStays depth descended parts = true) : climbs parts ≤ depth := by
  induction parts generalizing depth descended with
  | nil => exact Nat.zero_le depth
  | cons part parts ih =>
    cases part with
    | rootDir => cases h
    | curDir =>
      exact ih h
    | normal name =>
      exact ih h
    | parentDir =>
      simp only [targetStays, Bool.and_eq_true, decide_eq_true_eq] at h
      rw [climbs, count_cons_self]
      have hrest : climbs parts ≤ depth - 1 := ih h.2
      unfold climbs at hrest
      omega

/-- A link whose path begins with a dot, and which climbs as far as the path has names. -/
def climbsOut (limits : Limits) (entry : ZipEntry) : Bool :=
  match entry.enclosedName, entry.readUpTo limits.maxMetadataBytes with
  | some path, some target =>
    decide (entry.unixMode.getD 0 &&& fileTypeMask = symbolicLink) &&
      (beginsWithDot path && !(namesOf (components path)).isEmpty &&
        decide (climbs (components target) = (namesOf (components path)).length))
  | _, _ => false

/-! ## What one entry leaves -/

/-- What was extracted so far: nothing outside the destination has changed, and no link in it leads
outside. -/
structure Extracted (before : Disk) (destination : Place) (d : Disk) : Prop where
  frame : ∀ z, ¬destination <+: z → d.get z = before.get z
  links : LinksInside d destination
  dirs : RealDirs d destination
  rooted : Rooted d

variable {before d : Disk} {destination : Place} {defaults : Defaults}

lemma Extracted.put (h : Extracted before destination d) {place : Place} {node : Node}
    (hbelow : destination <+: place) (hplace : InDir d place)
    (hdir : (∃ mode, node = .dir mode) ∨ ∀ mode, d.get place ≠ some (.dir mode))
    (hlink : ∀ text, node = .link text → ∀ above n, place = destination ++ above ++ [n] →
      isAbsolute text = false ∧ Tame above.length ((text.splitOn slash).map stepOf)) :
    Extracted before destination (d.put place node) where
  frame z hz := by
    have hne : z ≠ place := by
      rintro rfl
      exact hz hbelow
    rw [Disk.get_put, if_neg hne]
    exact h.frame z hz
  links above n text hnode := by
    rw [Disk.get_put] at hnode
    split at hnode
    case isTrue heq => exact hlink text (Option.some.inj hnode) above n heq.symm
    case isFalse => exact h.links above n text hnode
  dirs q hq := by
    obtain ⟨mode, hmode⟩ := h.dirs q hq
    rw [Disk.get_put]
    split
    case isTrue heq =>
      -- only the destination itself is both above and below it
      rcases hdir with ⟨mode', rfl⟩ | hnot
      · exact ⟨mode', rfl⟩
      · exact absurd (heq ▸ hmode) (hnot mode)
    case isFalse => exact ⟨mode, hmode⟩
  rooted := h.rooted.put hplace hdir

/-- Between the destination and the path there is no link. -/
def Ready (before : Disk) (destination relative : Place) (d : Disk) : Prop :=
  Extracted before destination d ∧ Unlinked d (destination ++ relative)

variable {relative : Place}

lemma Ready.put (h : Ready before destination relative d) {place : Place} {node : Node}
    (hbelow : destination <+: place) (hplace : InDir d place) (hnode : ∀ text, node ≠ .link text)
    (hdir : (∃ mode, node = .dir mode) ∨ ∀ mode, d.get place ≠ some (.dir mode)) :
    Ready before destination relative (d.put place node) :=
  ⟨h.1.put hbelow hplace hdir fun text heq => absurd heq (hnode text), h.2.put hnode place⟩

lemma ready_createDirAll (before : Disk) (mode : Nat) {p : Place}
    (hp : p <+: destination ++ relative) :
    Ensures (Ready before destination relative) (createDirAll mode p)
      (fun _ => Ready before destination relative) (Ready before destination relative) := by
  refine ensures_createDirAll fun above habove d place hd hmissing hfind _ => ?_
  have hprefix : above <+: destination ++ relative := habove.trans hp
  have hplace : place = above :=
    locate_eq (hd.2.of_isPrefix (( dropLast_prefix above).trans hprefix)) hfind
  have hbelow : destination <+: above := by
    rcases prefix_or_prefix_of_prefix hprefix (prefix_append destination relative) with
      hup | hdown
    · have hthere := isDirAt_of_dirs (hd.1.dirs.of_isPrefix hup)
      exact absurd (hthere.symm.trans hmissing) (by decide)
    · exact hdown
  have hin : InDir d above := hplace ▸ inDir_of_locate hfind
  rw [hplace]
  exact hd.put hbelow hin nofun (.inl ⟨_, rfl⟩)

lemma extracted_symlink {target : OsPath} (hinside : (components path).any leavesRoot = false)
    (hclimb : (beginsWithDot path && !(namesOf (components path)).isEmpty &&
      decide (climbs (components target) = (namesOf (components path)).length)) = false) :
    Ensures (Ready before destination (namesOf (components path)))
      (extractZipSymlink defaults (components path) target
        (destination ++ namesOf (components path)))
      (fun _ => Extracted before destination) (Extracted before destination) := by
  refine ensures_failIf (fun d hd => hd.1) fun hrefused => ?_
  refine ensures_failIf (fun d hd => hd.1) fun _ => ?_
  have hstays : targetStays ((components path).length - 1) false (components target) = true := by
    simpa using hrefused
  have hdirs := ready_createDirAll before defaults.dirMode
    ( dropLast_prefix (destination ++ namesOf (components path)))
  refine ensures_bind ((hdirs.mapError _).mono (fun _ hd => hd) (fun _ _ hd => hd)
    fun d hd => hd.1) fun _ => ?_
  refine Ensures.mapError (ensures_createNode (fun d place hd hfind hnone => ?_)
    fun d hd => hd.1) _
  obtain ⟨hextracted, hunlinked⟩ := hd
  obtain rfl := locate_eq (hunlinked.of_isPrefix <| dropLast_prefix _) hfind
  refine hextracted.put (prefix_append _ _) (inDir_of_locate hfind) (.inr fun mode hmode => ?_)
    fun text htext above n hplace => ?_
  · exact nomatch hnone.symm.trans hmode
  · cases htext
    -- the names of the path are those above the link and the link's own
    rw [append_assoc, append_cancel_left_eq] at hplace
    refine tame_of_accepted hstays ?_
    have hbound := climbs_le hstays
    rw [length_components hinside] at hbound
    rw [hplace] at hbound hclimb
    simp only [length_append, length_singleton] at hbound hclimb
    cases hdot : beginsWithDot path with
    | false =>
      rw [hdot, if_neg Bool.false_ne_true] at hbound
      omega
    | true =>
      rw [hdot, if_pos rfl] at hbound
      have hne : climbs (components target) ≠ above.length + 1 := by
        simpa [hdot] using hclimb
      omega

lemma ready_writeFile (update : Option FileData → FileData) :
    Ensures (Ready before destination relative)
      (writeFile update (destination ++ relative))
      (fun _ => Ready before destination relative) (Ready before destination relative) := by
  refine ensures_writeFile (fun d hd => hd.2) fun d data hd hfind hnot => ?_
  exact hd.put (prefix_append _ _) (inDir_of_resolve hd.1.rooted hfind) nofun (.inr hnot)

lemma ready_setData (onDir : Nat → Nat) (onFile : FileData → FileData) :
    Ensures (Ready before destination relative)
      (setData onDir onFile (destination ++ relative))
      (fun _ => Ready before destination relative) (Ready before destination relative) := by
  refine ensures_setData (fun d hd => hd.2) (fun d mode mode' hd hfind _ => ?_)
    fun d data data' hd hfind hfile => ?_
  · exact hd.put (prefix_append _ _) (inDir_of_resolve hd.1.rooted hfind) nofun
      (.inl ⟨_, rfl⟩)
  · exact hd.put (prefix_append _ _) (inDir_of_resolve hd.1.rooted hfind) nofun
      (.inr fun mode hmode => nomatch hfile.symm.trans hmode)

lemma ready_extractBoundedFile (entry : ZipEntry) (unixMode remaining : Nat) :
    Ensures (Ready before destination relative)
      (extractBoundedFile defaults entry (destination ++ relative) unixMode remaining)
      (fun _ => Ready before destination relative) (Ready before destination relative) := by
  refine ensures_bind (R := fun _ => Ready before destination relative) ?_ fun _ => ?_
  · refine ensures_failIf (fun d hd => hd) fun _ => ?_
    refine ensures_bind
      ((ready_createDirAll before _ <| dropLast_prefix _).mapError _) fun _ => ?_
    refine ensures_bind ((ready_writeFile _).mapError _) fun _ => ?_
    refine ensures_failIf (fun d hd => hd) fun _ => ?_
    refine ensures_ite (fun _ => ensures_pure fun d hd => hd) fun _ => ?_
    exact ensures_bind ((ready_setData _ _).mapError _) fun _ =>
      ensures_pure fun d hd => hd
  · exact ensures_failIf (fun d hd => hd) fun _ => ensures_pure fun d hd => hd

lemma ensures_readTarget {P : Disk → Prop} (limits : Limits) (entry : ZipEntry) :
    Ensures P (readTarget limits entry)
      (fun target d => P d ∧ entry.readUpTo limits.maxMetadataBytes = some target) P := by
  unfold readTarget
  split
  next target hread =>
    have htarget := (Option.filter_eq_some_iff.mp hread).1
    exact ensures_pure fun d hd => ⟨hd, htarget⟩
  · exact ensures_throw fun d hd => hd

variable {limits : Limits}

lemma extracted_writeEntry {entry : ZipEntry} (hpath : entry.enclosedName = some path)
    (hinside : (components path).any leavesRoot = false) (hclimb : climbsOut limits entry = false)
    (expansion remaining : Nat) :
    Ensures (Ready before destination (namesOf (components path)))
      (writeEntry defaults limits expansion remaining entry (components path)
        (destination ++ namesOf (components path)) (entry.unixMode.getD 0))
      (fun _ => Extracted before destination) (Extracted before destination) := by
  refine ensures_ite (fun hlink => ?_) fun _ => ensures_ite (fun _ => ?_) fun _ => ?_
  · -- a link
    refine ensures_bind ((ensures_readTarget limits entry).mono (fun _ hd => hd)
      (fun _ _ hd => hd) fun d hd => hd.1) fun target => ?_
    refine ensures_of_fact fun htarget => ?_
    simp only [climbsOut, hpath, htarget, hlink, decide_true, Bool.true_and] at hclimb
    refine ensures_bind ((extracted_symlink hinside hclimb).mapError _) fun _ => ?_
    exact ensures_pure fun d hd => hd
  · -- a directory
    refine ensures_bind (((ready_createDirAll before _ (prefix_refl _)).mapError _).mono
      (fun _ hd => hd) (fun _ _ hd => hd) fun d hd => hd.1) fun _ => ?_
    exact ensures_pure fun d hd => hd.1
  · refine ensures_failIf (fun d hd => hd.1) fun _ => ?_
    refine ensures_bind ((ready_extractBoundedFile entry _ remaining).mono
      (fun _ hd => hd) (fun _ _ hd => hd) fun d hd => hd.1) fun written => ?_
    cases written with
    | some written => exact ensures_pure fun d hd => hd.1
    | none => exact ensures_throw fun d hd => hd.1

lemma unlinked_of_traverses (h : Extracted before destination d)
    (hnot : traversesExtractedSymlink d destination relative = false) :
    Unlinked d (destination ++ relative) := by
  -- the first link on the way would be found by its own path
  have key : ∀ q, q <+: relative → Unlinked d (destination ++ q) := by
    intro q
    induction q using reverseRecOn with
    | nil =>
      intro _
      rw [append_nil]
      exact h.dirs.unlinked
    | append_singleton q n ih =>
      intro hq
      have habove := ih ((prefix_append q [n]).trans hq)
      intro r hr text hlink
      rcases prefix_concat_iff.mp (append_assoc destination q [n] ▸ hr) with rfl | hr
      · rw [traversesExtractedSymlink, any_eq_false] at hnot
        have hhere := hnot (q ++ [n]) ((mem_inits _ _).mpr hq)
        obtain ⟨mode, hmode⟩ := h.rooted.parent (destination ++ q) n
          (hlink ▸ Option.some_ne_none _)
        have hfind := locate_dirs (n := n) (h.rooted.realDirs hmode)
        rw [append_assoc] at hfind
        rw [append_assoc] at hlink
        simp [isLinkAt, symlinkMetadata, hfind, hlink, bind, Except.bind] at hhere
      · exact habove r hr text hlink
  exact key relative (prefix_refl relative)

lemma extracted_extractEntry {entry : ZipEntry} (hclimb : climbsOut limits entry = false)
    (expansion remaining : Nat) :
    Ensures (Extracted before destination)
      (extractEntry defaults limits destination expansion remaining entry)
      (fun _ => Extracted before destination) (Extracted before destination) := by
  unfold extractEntry
  cases hpath : entry.enclosedName with
  | none => exact ensures_throw fun d hd => hd
  | some path =>
    refine ensures_failIf (fun d hd => hd) fun hinside => ?_
    refine ensures_failIf (fun d hd => hd) fun _ => ?_
    refine ensures_bind (R := fun through d => Extracted before destination d ∧
        traversesExtractedSymlink d destination (namesOf (components path)) = through)
      (ensures_inspect (fun d through hd heq => ⟨hd, Except.ok.inj heq⟩)
        fun d _ hd _ => hd) fun through => ?_
    refine ensures_failIf (fun d hd => hd.1) fun hnot => ?_
    subst hnot
    exact (extracted_writeEntry hpath hinside hclimb expansion remaining).mono
      (fun d hd => ⟨hd.1, unlinked_of_traverses hd.1 hd.2⟩) (fun _ _ hd => hd) fun _ hd => hd

variable {archive : List (Except String ZipEntry)}

lemma extracted_extractEntries
    (hclimb : ∀ entry, .ok entry ∈ archive → climbsOut limits entry = false)
    (expansion remaining : Nat) :
    Ensures (Extracted before destination)
      (extractEntries defaults limits destination expansion remaining archive)
      (fun _ => Extracted before destination) (Extracted before destination) := by
  induction archive generalizing remaining with
  | nil => exact ensures_pure fun d hd => hd
  | cons entry archive ih =>
    have hrest : ∀ entry, .ok entry ∈ archive → climbsOut limits entry = false :=
      fun entry hentry => hclimb entry (mem_cons_of_mem _ hentry)
    cases entry with
    | error reason => exact ensures_throw fun d hd => hd
    | ok entry =>
      refine ensures_bind (extracted_extractEntry
        (hclimb entry mem_cons_self) expansion remaining) fun left => ?_
      exact ih hrest left

/-! ## Whole archives -/

/-- The destination is a new place in a directory. -/
structure Fresh (d : Disk) (destination : Place) : Prop where
  rooted : Rooted d
  parent : RealDirs d destination.dropLast
  nothing : ∀ z, destination <+: z → d.get z = none

lemma Fresh.ne_nil (h : Fresh d destination) : destination ≠ [] := by
  rintro rfl
  obtain ⟨mode, hmode⟩ := h.rooted.root
  exact nomatch (h.nothing [] (prefix_refl [])).symm.trans hmode

lemma Fresh.created (h : Fresh d destination) (mode : Nat) :
    Ensures (· = d) (createDirAll mode destination)
      (fun _ => Extracted d destination) (Extracted d destination) := by
  obtain ⟨p, n, rfl⟩ := (eq_nil_or_concat' destination).resolve_left h.ne_nil
  have hparent : RealDirs d p := by simpa using h.parent
  have hnone : d.get (p ++ [n]) = none := h.nothing _ (prefix_refl _)
  have hget : ∀ z, (d.put (p ++ [n]) (.dir mode)).get z =
      if z = p ++ [n] then some (.dir mode) else d.get z := Disk.get_put d _ _
  refine ensures_of_exec (exec_createDirAll_last mode hparent hnone) ?_
  refine ⟨fun z hz => ?_, fun place m text hlink => ?_, fun q hq => ?_, ?_⟩
  · have hne : z ≠ p ++ [n] := by
      rintro rfl
      exact hz (prefix_refl _)
    rw [hget, if_neg hne]
  · -- nothing is below the new directory
    have hne : p ++ [n] ++ place ++ [m] ≠ p ++ [n] := by simp
    rw [hget, if_neg hne, h.nothing _ ((prefix_append _ _).trans (prefix_append _ _))]
      at hlink
    cases hlink
  · rcases prefix_concat_iff.mp hq with rfl | hq
    · exact ⟨mode, if_pos rfl⟩
    · obtain ⟨data, hdata⟩ := hparent q hq
      have hne : q ≠ p ++ [n] := fun heq => nomatch (heq ▸ hnone).symm.trans hdata
      exact ⟨data, (if_neg hne).trans hdata⟩
  · exact h.rooted.put (inDir_of_locate (locate_dirs hparent)) (.inl ⟨mode, rfl⟩)

lemma extracted_extractZipArchive (hfresh : Fresh d destination)
    (hclimb : ∀ entry, .ok entry ∈ archive → climbsOut limits entry = false) (expansion : Nat) :
    Ensures (· = d) (extractZipArchive defaults limits destination expansion archive)
      (fun _ => Extracted d destination) (Extracted d destination) := by
  refine ensures_bind ((hfresh.created _).mapError _) fun _ => ?_
  refine ensures_failIf (fun _ hd => hd) fun _ => ?_
  exact extracted_extractEntries hclimb expansion expansion

/-- Wherever it stops, extraction has changed nothing outside the destination, and a link that it
leaves there leads nowhere outside. -/
theorem extractZipArchive_confined {limits : Limits} {archive : List (Except String ZipEntry)}
    (expansion : Nat) (hfresh : Fresh d destination)
    (hclimb : ∀ entry, .ok entry ∈ archive → climbsOut limits entry = false) :
    let left :=
      (Fallible.exec (extractZipArchive defaults limits destination expansion archive) d).2
    (∀ z, ¬destination <+: z → left.get z = d.get z) ∧
      ∀ place n text, left.get (destination ++ place ++ [n]) = some (.link text) →
        ∀ z, Visits left (destination ++ place) [.name n] z → destination <+: z := by
  intro left
  have hleft : Extracted d destination left :=
    (extracted_extractZipArchive hfresh hclimb expansion).left rfl
  refine ⟨hleft.frame, fun place n _ _ z hvisits => ?_⟩
  exact hvisits.inside hleft.links place rfl not_mem_nil

/-! ## A link below a dot -/

def bareDisk : Disk := Disk.ofList [([], .dir 0o755)]

lemma bareDisk_get {z : Place} (hz : z ≠ []) : bareDisk.get z = none := by
  cases z with
  | nil => exact absurd rfl hz
  | cons n z => rfl

lemma bareDisk_fresh (n : OsPath) : Fresh bareDisk [n] where
  rooted :=
    { root := ⟨0o755, rfl⟩
      parent := fun place m hthere => absurd (bareDisk_get (by simp)) hthere }
  parent := by
    intro q hq
    obtain rfl : q = [] := prefix_nil.mp hq
    exact ⟨0o755, rfl⟩
  nothing := by
    rintro z hz
    refine bareDisk_get ?_
    rintro rfl
    simp at hz

def entryOf (path : String) (mode : Nat) (content : String) : ZipEntry where
  name := path
  enclosedName := some (utf8Encode path.toList)
  unixMode := some mode
  isDir := false
  size := content.utf8ByteSize
  content := utf8Encode content.toList
  complete := true

def someLimits : Limits := ⟨100, 4096⟩
def someDefaults : Defaults := ⟨0o755, 0o644⟩

/-- A file, and a link that climbs to its directory's parent. -/
def tameArchive : List (Except String ZipEntry) :=
  [.ok (entryOf "d/f" 0o100644 "x"), .ok (entryOf "./d/l" 0o120777 "../d/f")]

theorem tameArchive_confined :
    Fresh bareDisk [[116]] ∧
      (∀ entry, .ok entry ∈ tameArchive → climbsOut someLimits entry = false) ∧
      ∀ z, ¬[[116]] <+: z →
        (Fallible.exec (extractZipArchive someDefaults someLimits [[116]] 10 tameArchive)
          bareDisk).2.get z = bareDisk.get z := by
  have hclimb : ∀ entry, .ok entry ∈ tameArchive → climbsOut someLimits entry = false := by
    intro entry hentry
    rcases mem_cons.mp hentry with heq | hentry
    · obtain rfl := Except.ok.inj heq
      decide
    · obtain rfl := Except.ok.inj (mem_singleton.mp hentry)
      decide
  exact ⟨bareDisk_fresh [116], hclimb,
    (extractZipArchive_confined 10 (bareDisk_fresh [116]) hclimb).1⟩

/-- From `./a`, `..` leads out of the destination. -/
def dotArchive : List (Except String ZipEntry) := [.ok (entryOf "./a" 0o120777 "..")]

theorem dotArchive_leaves : Fresh bareDisk [[116]] ∧ ∃ left : Disk,
        left = (Fallible.exec (extractZipArchive someDefaults someLimits [[116]] 10 dotArchive)
          bareDisk).2 ∧
        left.get [[116], [97]] = some (.link [dot, dot]) ∧
        ∃ z, Visits left [[116]] [.name [97]] z ∧ ¬[[116]] <+: z := by
  have hlink : (exec (extractZipArchive someDefaults someLimits [[116]] 10 dotArchive)
      bareDisk).2.get [[116], [97]] = some (.link [dot, dot]) := by
    decide
  refine ⟨bareDisk_fresh [116], _, rfl, hlink, [], .link hlink ?_, by simp⟩
  exact .parent (.here _ _)

end OnceBuild.Archive
