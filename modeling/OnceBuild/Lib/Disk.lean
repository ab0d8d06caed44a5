import Mathlib.Data.List.Infix
import OnceBuild.Lib.Fallible

/-!
# System calls on a file system with links

A disk says what is at each place, given by its components from the root.  A system call is given a
path and follows the links on the way to it; the place where it acts need not be the path.  Calls
differ in whether they follow a link at the path itself.

The system grants every call that the kinds of the nodes permit.
-/

namespace OnceBuild.Lib

open List

inductive DiskNode (D F L : Type) where
  | dir (data : D)
  | file (data : F)
  | link (text : L)
  /-- Neither file nor directory nor link. -/
  | special
  deriving DecidableEq

def DiskNode.isDir {D F L : Type} : DiskNode D F L → Bool
  | .dir _ => true
  | _ => false

inductive PathStep (N : Type) where
  | cur
  | parent
  | name (n : N)
  deriving DecidableEq

structure LinkTarget (N : Type) where
  absolute : Bool
  steps : List (PathStep N)

/-- How the text of a link is read. -/
class LinkText (N : outParam Type) (L : Type) where
  target : L → LinkTarget N

structure Disk (N D F L : Type) where
  get : List N → Option (DiskNode D F L)
  /-- Every place that holds something is listed. -/
  places : List (List N)
  mem_places : ∀ p, get p ≠ none → p ∈ places

inductive Errno where
  | notFound
  | notADirectory
  | tooManyLinks
  | alreadyExists
  | isADirectory
  | invalidInput
  | nameTooLong
  deriving DecidableEq

/-- What `io::Error` prints. -/
def Errno.message : Errno → String
  | .notFound => "No such file or directory (os error 2)"
  | .notADirectory => "Not a directory (os error 20)"
  | .tooManyLinks => "Too many levels of symbolic links (os error 40)"
  | .alreadyExists => "File exists (os error 17)"
  | .isADirectory => "Is a directory (os error 21)"
  | .invalidInput => "Invalid argument (os error 22)"
  | .nameTooLong => "File name too long (os error 36)"

variable {N D F L : Type}

/-! ## Places -/

section Resolve

variable [LinkText N L]

/-- The steps of a walk; `follow` goes on where a link leads.  With `creating`, nothing need be at
the end of it. -/
def resolveWith (creating : Bool) (follow : List N → List (PathStep N) → Except Errno (List N))
    (d : Disk N D F L) : List N → List (PathStep N) → Except Errno (List N)
  | here, [] => .ok here
  | here, .cur :: steps => resolveWith creating follow d here steps
  | here, .parent :: steps => resolveWith creating follow d here.dropLast steps
  | here, .name n :: steps =>
    match d.get (here ++ [n]) with
    | none => if creating && steps.isEmpty then .ok (here ++ [n]) else .error .notFound
    | some (.dir _) => resolveWith creating follow d (here ++ [n]) steps
    | some (.link text) =>
      let target : LinkTarget N := LinkText.target text
      follow (if target.absolute then [] else here) (target.steps ++ steps)
    | some _ => if steps.isEmpty then .ok (here ++ [n]) else .error .notADirectory

def maxLinks : Nat := 40

/-- A walk that follows at most `links` links. -/
def resolveFrom (creating : Bool) (d : Disk N D F L) :
    Nat → List N → List (PathStep N) → Except Errno (List N)
  | 0 => resolveWith creating (fun _ _ => .error .tooManyLinks) d
  | links + 1 => resolveWith creating (resolveFrom creating d links) d

/-- The place that a path leads to, links followed to the end. -/
def resolve (creating : Bool) (d : Disk N D F L) (p : List N) : Except Errno (List N) :=
  resolveFrom creating d maxLinks [] (p.map .name)

/-- The place of a path, links followed up to its last component. -/
def locate (d : Disk N D F L) (p : List N) : Except Errno (List N) :=
  match p.getLast? with
  | none => .ok []
  | some n => do
      let above ← resolve false d p.dropLast
      match d.get above with
      | some (.dir _) => .ok (above ++ [n])
      | _ => .error .notADirectory

def symlinkMetadata (d : Disk N D F L) (p : List N) : Except Errno (DiskNode D F L) := do
  let place ← locate d p
  match d.get place with
  | some node => .ok node
  | none => .error .notFound

def metadata (d : Disk N D F L) (p : List N) : Except Errno (DiskNode D F L) := do
  let place ← resolve false d p
  match d.get place with
  | some node => .ok node
  | none => .error .notFound

/-- `Path::is_dir`. -/
def isDirAt (d : Disk N D F L) (p : List N) : Bool :=
  match metadata d p with
  | .ok (.dir _) => true
  | _ => false

end Resolve

/-! ## Paths without links -/

variable {q : List N} {follow : List N → List (PathStep N) → Except Errno (List N)}

variable {here : List N}

section Unlinked

variable [LinkText N L] {creating : Bool} {d : Disk N D F L} {p place : List N}

/-- There is no link at the path or above it. -/
def Unlinked (d : Disk N D F L) (p : List N) : Prop :=
  ∀ q, q <+: p → ∀ text, d.get q ≠ some (.link text)

omit [LinkText N L] in
lemma Unlinked.of_isPrefix (h : Unlinked d p) (hq : q <+: p) : Unlinked d q :=
  fun r hr => h r (hr.trans hq)

lemma resolveWith_names (here : List N) (hunlinked : Unlinked d (here ++ p))
    (h : resolveWith creating follow d here (p.map .name) = .ok place) : place = here ++ p := by
  induction p generalizing here with
  | nil => exact (Except.ok.inj h).symm.trans (append_nil here).symm
  | cons n p ih =>
    rw [append_cons] at hunlinked ⊢
    have hnode := hunlinked (here ++ [n]) (prefix_append _ _)
    have hlast : p = [] → Except.ok (here ++ [n]) = (.ok place : Except Errno (List N)) →
        place = here ++ [n] ++ p := by
      intro hp heq
      rw [hp, append_nil]
      exact (Except.ok.inj heq).symm
    simp only [map_cons, resolveWith] at h
    split at h
    · split at h
      case isTrue hend =>
        rw [Bool.and_eq_true, List.isEmpty_iff, map_eq_nil_iff] at hend
        exact hlast hend.2 h
      case isFalse => cases h
    · exact ih _ hunlinked h
    · rename_i text hlink
      exact absurd hlink (hnode text)
    · split at h
      case isTrue hend =>
        rw [List.isEmpty_iff, map_eq_nil_iff] at hend
        exact hlast hend h
      case isFalse => cases h

lemma resolve_eq (hunlinked : Unlinked d p) (h : resolve creating d p = .ok place) : place = p :=
  resolveWith_names [] hunlinked h

lemma locate_eq (hunlinked : Unlinked d p.dropLast) (h : locate d p = .ok place) : place = p := by
  unfold locate at h
  split at h
  case h_1 hlast =>
    rw [getLast?_eq_none_iff.mp hlast]
    exact (Except.ok.inj h).symm
  case h_2 n hlast =>
    cases habove : resolve false d p.dropLast with
    | error e =>
      rw [habove] at h
      cases h
    | ok above =>
      obtain rfl := resolve_eq hunlinked habove
      rw [habove] at h
      simp only [bind, Except.bind] at h
      split at h
      · obtain rfl := Except.ok.inj h
        obtain ⟨q, rfl⟩ := getLast?_eq_some_iff.mp hlast
        simp
      · cases h

/-- The path and all above it are directories. -/
def RealDirs (d : Disk N D F L) (p : List N) : Prop :=
  ∀ q, q <+: p → ∃ data, d.get q = some (.dir data)

omit [LinkText N L] in
lemma RealDirs.unlinked (h : RealDirs d p) : Unlinked d p := by
  intro q hq text hlink
  obtain ⟨data, hdir⟩ := h q hq
  exact nomatch hdir.symm.trans hlink

omit [LinkText N L] in
lemma RealDirs.of_isPrefix (h : RealDirs d p) (hq : q <+: p) : RealDirs d q :=
  fun r hr => h r (hr.trans hq)

lemma resolveWith_dirs (hdirs : RealDirs d (here ++ p)) (steps : List (PathStep N)) :
    resolveWith creating follow d here (p.map .name ++ steps) =
      resolveWith creating follow d (here ++ p) steps := by
  induction p generalizing here with
  | nil => rw [append_nil, map_nil, nil_append]
  | cons n p ih =>
    rw [append_cons] at hdirs ⊢
    obtain ⟨data, hdir⟩ := hdirs (here ++ [n]) (prefix_append _ _)
    rw [map_cons, cons_append, resolveWith]
    simp only [hdir]
    exact ih hdirs

lemma resolve_dirs (hdirs : RealDirs d p) : resolve creating d p = .ok p := by
  have h : resolveWith creating (resolveFrom creating d 39) d [] (p.map .name ++ []) = .ok p :=
    resolveWith_dirs hdirs []
  rw [append_nil] at h
  exact h

lemma isDirAt_of_dirs (hdirs : RealDirs d p) : isDirAt d p = true := by
  obtain ⟨data, hdir⟩ := hdirs p (prefix_refl p)
  simp [isDirAt, metadata, resolve_dirs hdirs, hdir, bind, Except.bind]

lemma get_of_isDirAt (hunlinked : Unlinked d p) (h : isDirAt d p = true) :
    ∃ data, d.get p = some (.dir data) := by
  unfold isDirAt at h
  split at h
  next data hmeta =>
    obtain ⟨place, hplace, hnode⟩ := bind_eq_ok.mp hmeta
    obtain rfl := resolve_eq hunlinked hplace
    split at hnode
    next node hget =>
      obtain rfl := Except.ok.inj hnode
      exact ⟨data, hget⟩
    · cases hnode
  · cases h

end Unlinked

/-! ## Disks in which everything is in a directory -/

variable {data : D}

section Rooted

variable {d : Disk N D F L} {p place : List N}

/-- What holds something is in a directory, from the root on. -/
structure Rooted (d : Disk N D F L) : Prop where
  root : ∃ data, d.get [] = some (.dir data)
  parent : ∀ p n, d.get (p ++ [n]) ≠ none → ∃ data, d.get p = some (.dir data)

def InDir (d : Disk N D F L) (place : List N) : Prop :=
  place = [] ∨ ∃ above n data, place = above ++ [n] ∧ d.get above = some (.dir data)

lemma Rooted.inDir (h : Rooted d) (hp : d.get p ≠ none) : InDir d p := by
  cases p using reverseRecOn with
  | nil => exact .inl rfl
  | append_singleton p n =>
    obtain ⟨data, hdata⟩ := h.parent p n hp
    exact .inr ⟨p, n, data, rfl, hdata⟩

lemma Rooted.realDirs (h : Rooted d) (hp : d.get p = some (.dir data)) : RealDirs d p := by
  induction p using reverseRecOn generalizing data with
  | nil =>
    intro q hq
    rw [prefix_nil.mp hq]
    exact ⟨data, hp⟩
  | append_singleton p n ih =>
    intro q hq
    rcases prefix_concat_iff.mp hq with rfl | hq
    · exact ⟨data, hp⟩
    · obtain ⟨data', hdata'⟩ := h.parent p n (hp ▸ Option.some_ne_none _)
      exact ih hdata' q hq

lemma Rooted.exists_of_isPrefix (h : Rooted d) (hp : d.get p ≠ none) (hq : q <+: p) :
    d.get q ≠ none := by
  induction p using reverseRecOn with
  | nil =>
    rw [prefix_nil.mp hq]
    exact hp
  | append_singleton p n ih =>
    rcases prefix_concat_iff.mp hq with rfl | hq
    · exact hp
    · obtain ⟨data, hdata⟩ := h.parent p n hp
      exact ih (hdata ▸ Option.some_ne_none _) hq

variable [LinkText N L] {creating : Bool}

lemma inDir_of_resolveWith (h : Rooted d)
    (hfollow : ∀ here steps place data, d.get here = some (.dir data) →
      follow here steps = .ok place → InDir d place) (hhere : d.get here = some (.dir data))
    {steps : List (PathStep N)} (hwalk : resolveWith creating follow d here steps = .ok place) :
    InDir d place := by
  induction steps generalizing here data with
  | nil =>
    obtain rfl := Except.ok.inj hwalk
    exact h.inDir (hhere ▸ Option.some_ne_none _)
  | cons step steps ih =>
    cases step with
    | cur => exact ih hhere hwalk
    | parent =>
      have hup : ∃ data', d.get here.dropLast = some (.dir data') := by
        cases here using reverseRecOn with
        | nil => exact ⟨data, hhere⟩
        | append_singleton here n =>
          rw [dropLast_concat]
          exact h.parent here n (hhere ▸ Option.some_ne_none _)
      obtain ⟨data', hdata'⟩ := hup
      exact ih hdata' hwalk
    | name n =>
      have hlast : Except.ok (here ++ [n]) = (.ok place : Except Errno (List N)) →
          InDir d place := by
        intro heq
        obtain rfl := Except.ok.inj heq
        exact .inr ⟨here, n, data, rfl, hhere⟩
      simp only [resolveWith] at hwalk
      split at hwalk
      · split at hwalk
        · exact hlast hwalk
        · cases hwalk
      next hdir => exact ih hdir hwalk
      · split at hwalk
        · obtain ⟨root, hroot⟩ := h.root
          exact hfollow _ _ _ root hroot hwalk
        · exact hfollow _ _ _ data hhere hwalk
      · split at hwalk
        · exact hlast hwalk
        · cases hwalk

lemma inDir_of_resolve (h : Rooted d) (hwalk : resolve creating d p = .ok place) :
    InDir d place := by
  have key : ∀ links here steps place data, d.get here = some (.dir data) →
      resolveFrom creating d links here steps = .ok place → InDir d place := by
    intro links
    induction links with
    | zero =>
      intro here steps place data hhere
      refine inDir_of_resolveWith h (fun _ _ _ _ _ herror => ?_) hhere
      cases herror
    | succ links ih =>
      intro here steps place data hhere
      exact inDir_of_resolveWith h ih hhere
  obtain ⟨root, hroot⟩ := h.root
  exact key _ _ _ _ root hroot hwalk

lemma inDir_of_locate (hfind : locate d p = .ok place) : InDir d place := by
  unfold locate at hfind
  split at hfind
  · exact .inl (Except.ok.inj hfind).symm
  · cases habove : resolve false d p.dropLast with
    | error e =>
      rw [habove] at hfind
      cases hfind
    | ok above =>
      rw [habove] at hfind
      simp only [bind, Except.bind] at hfind
      split at hfind
      next data hdata => exact .inr ⟨above, _, data, (Except.ok.inj hfind).symm, hdata⟩
      · cases hfind

lemma locate_dirs {n : N} (hdirs : RealDirs d p) : locate d (p ++ [n]) = .ok (p ++ [n]) := by
  obtain ⟨data, hdir⟩ := hdirs p (prefix_refl p)
  unfold locate
  rw [dropLast_concat, resolve_dirs hdirs]
  simp [bind, Except.bind, hdir]

end Rooted

/-! ## Changes -/

variable {d : Disk N D F L} {place p : List N}

namespace Disk

variable [DecidableEq N]

def put (d : Disk N D F L) (place : List N) (node : DiskNode D F L) : Disk N D F L where
  get p := if p = place then some node else d.get p
  places := place :: d.places
  mem_places p h := by
    split at h
    case isTrue heq => exact heq ▸ mem_cons_self
    case isFalse => exact mem_cons_of_mem _ (d.mem_places p h)

def clear (d : Disk N D F L) (place : List N) : Disk N D F L where
  get p := if place.isPrefixOf p then none else d.get p
  places := d.places
  mem_places p h := by
    split at h
    case isTrue => exact absurd rfl h
    case isFalse => exact d.mem_places p h

lemma mem_places_ofList (nodes : List (List N × DiskNode D F L)) (p : List N)
    (h : nodes.lookup p ≠ none) : p ∈ nodes.map Prod.fst := by
  obtain ⟨node, hnode⟩ := Option.ne_none_iff_exists'.mp h
  obtain ⟨before, after, rfl, -⟩ := lookup_eq_some_iff.mp hnode
  simp

def ofList (nodes : List (List N × DiskNode D F L)) : Disk N D F L where
  get p := nodes.lookup p
  places := nodes.map Prod.fst
  mem_places := mem_places_ofList nodes

@[simp] lemma get_put (d : Disk N D F L) (place : List N) (node : DiskNode D F L)
    (p : List N) : (d.put place node).get p = if p = place then some node else d.get p := rfl

@[simp] lemma get_clear (d : Disk N D F L) (place p : List N) :
    (d.clear place).get p = if place.isPrefixOf p then none else d.get p := rfl

lemma get_clear_of_isPrefix (h : place <+: p) : (d.clear place).get p = none := by
  rw [get_clear, if_pos <| isPrefixOf_iff_prefix.mpr h]

lemma get_clear_of_not_isPrefix (h : ¬place <+: p) : (d.clear place).get p = d.get p := by
  rw [get_clear, if_neg fun hp => h <| isPrefixOf_iff_prefix.mp hp]

end Disk

variable {node : DiskNode D F L}

lemma Unlinked.put [DecidableEq N] (h : Unlinked d p) (hnode : ∀ text, node ≠ .link text)
    (place : List N) : Unlinked (d.put place node) p := by
  intro q hq text hlink
  rw [Disk.get_put] at hlink
  split at hlink
  · exact hnode text (Option.some.inj hlink)
  · exact h q hq text hlink

lemma Rooted.put [DecidableEq N] (h : Rooted d) (hplace : InDir d place)
    (hnode : (∃ data, node = .dir data) ∨ ∀ data, d.get place ≠ some (.dir data)) :
    Rooted (d.put place node) := by
  -- what was a directory still is one
  have hdirs : ∀ q data, d.get q = some (.dir data) →
      ∃ data', (d.put place node).get q = some (.dir data') := by
    intro q data hq
    rw [Disk.get_put]
    split
    case isTrue heq =>
      rcases hnode with ⟨data', rfl⟩ | hnot
      · exact ⟨data', rfl⟩
      · exact absurd (heq ▸ hq) (hnot data)
    case isFalse => exact ⟨data, hq⟩
  refine ⟨?_, fun p n hp => ?_⟩
  · obtain ⟨data, hdata⟩ := h.root
    exact hdirs [] data hdata
  · rw [Disk.get_put] at hp
    split at hp
    case isTrue heq =>
      rcases hplace with hnil | ⟨above, m, data, habove, hdata⟩
      · exact absurd (heq.trans hnil) (by simp)
      · obtain ⟨rfl, -⟩ := append_inj' (heq.trans habove) rfl
        exact hdirs p data hdata
    case isFalse =>
      obtain ⟨data, hdata⟩ := h.parent p n hp
      exact hdirs p data hdata

lemma Unlinked.put_of_not_isPrefix [DecidableEq N] (h : Unlinked d p) (hplace : ¬place <+: p)
    (node : DiskNode D F L) : Unlinked (d.put place node) p := by
  intro q hq text hlink
  have hne : q ≠ place := by
    rintro rfl
    exact hplace hq
  rw [Disk.get_put, if_neg hne] at hlink
  exact h q hq text hlink

lemma Unlinked.clear [DecidableEq N] (h : Unlinked d p) (place : List N) :
    Unlinked (d.clear place) p := by
  intro q hq text hlink
  rw [Disk.get_clear] at hlink
  split at hlink
  · cases hlink
  · exact h q hq text hlink

variable {nodes : List (List N × DiskNode D F L)}

lemma Disk.mem_of_get_ofList [DecidableEq N] (h : (Disk.ofList nodes).get p = some node) :
    (p, node) ∈ nodes := by
  obtain ⟨before, after, rfl, -⟩ := lookup_eq_some_iff.mp h
  simp

/-- Whether what is listed is in directories that are listed. -/
def rootedList [DecidableEq N] (nodes : List (List N × DiskNode D F L)) : Bool :=
  (nodes.lookup []).any DiskNode.isDir &&
    nodes.all fun e => e.1.isEmpty || (nodes.lookup e.1.dropLast).any DiskNode.isDir

lemma rooted_ofList [DecidableEq N] (h : rootedList nodes = true) : Rooted (Disk.ofList nodes) := by
  have hdir : ∀ p, (nodes.lookup p).any DiskNode.isDir = true →
      ∃ data, (Disk.ofList nodes).get p = some (.dir data) := by
    intro p hp
    cases hnode : nodes.lookup p with
    | none =>
      rw [hnode] at hp
      cases hp
    | some node =>
      rw [hnode] at hp
      cases node with
      | dir data => exact ⟨data, hnode⟩
      | file data | link text | special => cases hp
  obtain ⟨hroot, hall⟩ := Bool.and_eq_true_iff.mp h
  refine ⟨hdir [] hroot, fun p n hp => ?_⟩
  obtain ⟨node, hnode⟩ := Option.ne_none_iff_exists'.mp hp
  have hparent := all_eq_true.mp hall _ (Disk.mem_of_get_ofList hnode)
  exact hdir p (by simpa using hparent)

lemma Rooted.clear [DecidableEq N] (h : Rooted d) (hplace : place ≠ []) :
    Rooted (d.clear place) := by
  refine ⟨?_, fun p n hp => ?_⟩
  · rw [Disk.get_clear, if_neg (by simpa using hplace)]
    exact h.root
  · rw [Disk.get_clear] at hp ⊢
    split at hp
    case isTrue => exact absurd rfl hp
    case isFalse hnot =>
      have habove : ¬place.isPrefixOf p = true := by
        intro hbelow
        refine hnot <| isPrefixOf_iff_prefix.mpr ?_
        exact ( isPrefixOf_iff_prefix.mp hbelow).trans (prefix_append p [n])
      rw [if_neg habove]
      exact h.parent p n hp

/-! ## System calls -/

abbrev Io (N D F L : Type) := Fallible (Disk N D F L) Errno

/-- A call finds its place, looks at what is there, and changes the disk or refuses. -/
def callAt (find : Disk N D F L → Except Errno (List N))
    (act : List N → Option (DiskNode D F L) → Except Errno (Disk N D F L → Disk N D F L)) :
    Io N D F L Unit := do
  let place ← Fallible.inspect find
  let effect ← Fallible.inspect fun d => act place (d.get place)
  Fallible.change effect

section Calls

variable [DecidableEq N] [LinkText N L]

def createNode (node : DiskNode D F L) (p : List N) : Io N D F L Unit :=
  callAt (fun d => locate d p) fun place there =>
    match there with
    | some _ => .error .alreadyExists
    | none => .ok fun d => d.put place node

def createDir (data : D) (p : List N) : Io N D F L Unit := createNode (.dir data) p

def symlink (text : L) (p : List N) : Io N D F L Unit := createNode (.link text) p

/-- Create a directory unless there is one. -/
def ensureDir (data : D) (p : List N) : Io N D F L Unit := do
  let there ← Fallible.inspect fun d => .ok (isDirAt d p)
  if there then pure () else createDir data p

/-- `create_dir_all`: each directory on the way is there already or is created. -/
def createDirAll (data : D) (p : List N) : Io N D F L Unit := p.inits.forM (ensureDir data)

/-- `remove_file`, of a file or a link. -/
def removeFile (p : List N) : Io N D F L Unit :=
  callAt (fun d => locate d p) fun place there =>
    match there with
    | none => .error .notFound
    | some (.dir _) => .error .isADirectory
    | some _ => .ok fun d => d.clear place

/-- `remove_dir_all`, which does not follow links. -/
def removeDirAll (p : List N) : Io N D F L Unit :=
  callAt (fun d => locate d p) fun place there =>
    match there with
    | none => .error .notFound
    | some (.dir _) => .ok fun d => d.clear place
    | some _ => .error .notADirectory

/-- `File::create`: a link at the path is followed, and a file that is there is changed. -/
def writeFile (update : Option F → F) (p : List N) : Io N D F L Unit :=
  callAt (fun d => resolve true d p) fun place there =>
    match there with
    | none => .ok fun d => d.put place (.file (update none))
    | some (.file data) => .ok fun d => d.put place (.file (update (some data)))
    | some (.dir _) => .error .isADirectory
    | some _ => .error .invalidInput

/-- `set_permissions`. -/
def setData (onDir : D → D) (onFile : F → F) (p : List N) : Io N D F L Unit :=
  callAt (fun d => resolve false d p) fun place there =>
    match there with
    | some (.dir data) => .ok fun d => d.put place (.dir (onDir data))
    | some (.file data) => .ok fun d => d.put place (.file (onFile data))
    | some _ => .ok id
    | none => .error .notFound

end Calls

/-! ## Rules -/

namespace Fallible

variable {P : Disk N D F L → Prop} {Q : Unit → Disk N D F L → Prop} {E : Disk N D F L → Prop}
  {find : Disk N D F L → Except Errno (List N)}
  {act : List N → Option (DiskNode D F L) → Except Errno (Disk N D F L → Disk N D F L)}

lemma ensures_callAt
    (h : ∀ d place effect, P d → find d = .ok place → act place (d.get place) = .ok effect →
      Q () (effect d)) (hE : ∀ d, P d → E d) : Ensures P (callAt find act) Q E := by
  refine ensures_bind (R := fun place d => P d ∧ find d = .ok place)
    (ensures_inspect (fun d place hd hfind => ⟨hd, hfind⟩) fun d _ hd _ => hE d hd) fun place => ?_
  refine ensures_bind (R := fun effect d => (P d ∧ find d = .ok place) ∧
      act place (d.get place) = .ok effect)
    (ensures_inspect (fun d effect hd hact => ⟨hd, hact⟩) fun d _ hd _ => hE d hd.1)
      fun effect => ?_
  exact ensures_change fun d hd => h d place effect hd.1.1 hd.1.2 hd.2

section

variable [DecidableEq N] [LinkText N L]

lemma ensures_createNode
    (h : ∀ d place, P d → locate d p = .ok place → d.get place = none → Q () (d.put place node))
    (hE : ∀ d, P d → E d) : Ensures P (createNode node p) Q E := by
  refine ensures_callAt (fun d place effect hd hfind hact => ?_) hE
  split at hact
  · cases hact
  next hnone =>
    cases hact
    exact h d place hd hfind hnone

lemma ensures_ensureDir (hthere : ∀ d, P d → isDirAt d p = true → Q () d)
    (h : ∀ d place, P d → isDirAt d p = false → locate d p = .ok place → d.get place = none →
      Q () (d.put place (.dir data))) (hE : ∀ d, P d → E d) : Ensures P (ensureDir data p) Q E := by
  refine ensures_bind (R := fun there d => P d ∧ isDirAt d p = there)
    (ensures_inspect (fun d there hd heq => ⟨hd, Except.ok.inj heq⟩) fun d _ hd _ => hE d hd) ?_
  intro there
  cases there with
  | true => exact ensures_pure fun d hd => hthere d hd.1 hd.2
  | false =>
    exact ensures_createNode (fun d place hd hfind hnone => h d place hd.1 hd.2 hfind hnone)
      fun d hd => hE d hd.1

/-- What is kept when a missing directory is created is kept by `create_dir_all`. -/
lemma ensures_createDirAll
    (h : ∀ above, above <+: p → ∀ d place, P d → isDirAt d above = false →
      locate d above = .ok place → d.get place = none → P (d.put place (.dir data))) :
    Ensures P (createDirAll data p) (fun _ => P) P := by
  refine ensures_forM fun above habove => ?_
  exact ensures_ensureDir (fun _ hd _ => hd) (h above ((mem_inits _ _).mp habove))
    fun _ hd => hd

/-- After `create_dir_all` there is a directory, where no link is on the way. -/
lemma ensures_createDirAll_dir
    (h : ∀ above, above <+: p → ∀ d place, P d → isDirAt d above = false →
      locate d above = .ok place → d.get place = none → P (d.put place (.dir data)))
    (hunlinked : ∀ d, P d → Unlinked d p) :
    Ensures P (createDirAll data p) (fun _ d => P d ∧ ∃ m, d.get p = some (.dir m)) P := by
  have hlast : Ensures P (ensureDir data p) (fun _ d => P d ∧ ∃ m, d.get p = some (.dir m)) P := by
    refine ensures_ensureDir (fun d hd hthere => ⟨hd, get_of_isDirAt (hunlinked d hd) hthere⟩)
      (fun d place hd hmissing hfind hnone => ?_) fun _ hd => hd
    have hplace : place = p :=
      locate_eq ((hunlinked d hd).of_isPrefix <| dropLast_prefix p) hfind
    refine ⟨h p (prefix_refl _) d place hd hmissing hfind hnone, data, ?_⟩
    rw [Disk.get_put, if_pos hplace.symm]
  cases p using reverseRecOn with
  | nil => exact ensures_bind hlast fun _ => ensures_pure fun _ hd => hd
  | append_singleton p n =>
    have hinits : (p ++ [n]).inits = p.inits ++ [p ++ [n]] := inits_append p [n]
    have habove : Ensures P (createDirAll data p) (fun _ => P) P :=
      ensures_createDirAll fun above habove => h above (habove.trans (prefix_append p [n]))
    unfold createDirAll at habove ⊢
    rw [forM_eq_forM] at habove ⊢
    rw [hinits, forM_append]
    exact ensures_bind habove fun _ => ensures_bind hlast fun _ => ensures_pure fun _ hd => hd

variable {I : Disk N D F L → Prop}

lemma ensures_writeFile {update : Option F → F} (hunlinked : ∀ d, I d → Unlinked d p)
    (hput : ∀ d data, I d → resolve true d p = .ok p → (∀ m, d.get p ≠ some (.dir m)) →
      I (d.put p (.file data))) : Ensures I (writeFile update p) (fun _ => I) I := by
  refine ensures_callAt (fun d place effect hd hfind hact => ?_) fun d hd => hd
  obtain rfl := resolve_eq (hunlinked d hd) hfind
  split at hact
  next hnone =>
    cases hact
    exact hput d _ hd hfind fun m hm => nomatch hnone.symm.trans hm
  next data hfile =>
    cases hact
    exact hput d _ hd hfind fun m hm => nomatch hfile.symm.trans hm
  · cases hact
  · cases hact

lemma ensures_setData {onDir : D → D} {onFile : F → F} (hunlinked : ∀ d, I d → Unlinked d p)
    (hdir : ∀ d data data', I d → resolve false d p = .ok p → d.get p = some (.dir data) →
      I (d.put p (.dir data')))
    (hfile : ∀ d data data', I d → resolve false d p = .ok p → d.get p = some (.file data) →
      I (d.put p (.file data'))) : Ensures I (setData onDir onFile p) (fun _ => I) I := by
  refine ensures_callAt (fun d place effect hd hfind hact => ?_) fun d hd => hd
  obtain rfl := resolve_eq (hunlinked d hd) hfind
  split at hact
  next data hdata =>
    cases hact
    exact hdir d data _ hd hfind hdata
  next data hdata =>
    cases hact
    exact hfile d data _ hd hfind hdata
  · cases hact
    exact hd
  · cases hact

end

lemma exec_callAt {effect : Disk N D F L → Disk N D F L} (hfind : find d = .ok place)
    (hact : act place (d.get place) = .ok effect) :
    exec (callAt find act) d = (.ok (), effect d) := by
  have hplace : exec (inspect find) d = (.ok place, d) := by rw [exec_inspect, hfind]
  have heffect : exec (inspect fun d => act place (d.get place)) d = (.ok effect, d) := by
    rw [exec_inspect, hact]
  unfold callAt
  rw [exec_bind_ok hplace, exec_bind_ok heffect, exec_change]

section

variable [DecidableEq N] [LinkText N L] {d : Disk N D F L} {p : List N} {n : N}

lemma exec_createNode (node : DiskNode D F L) (hdirs : RealDirs d p)
    (hnone : d.get (p ++ [n]) = none) :
    exec (createNode node (p ++ [n])) d = (.ok (), d.put (p ++ [n]) node) := by
  unfold createNode
  rw [exec_callAt (locate_dirs hdirs) (by rw [hnone])]

lemma exec_ensureDir_of_dirs (data : D) (hdirs : RealDirs d p) :
    exec (ensureDir data p) d = (.ok (), d) := by
  have hthere : exec (inspect fun d : Disk N D F L => .ok (isDirAt d p)) d
      = ((.ok true : Except Errno Bool), d) := by
    rw [exec_inspect, isDirAt_of_dirs hdirs]
  exact exec_bind_ok hthere

lemma exec_ensureDir_of_none (data : D) (hdirs : RealDirs d p)
    (hnone : d.get (p ++ [n]) = none) :
    exec (ensureDir data (p ++ [n])) d = (.ok (), d.put (p ++ [n]) (.dir data)) := by
  have hwalk : resolve false d (p ++ [n]) = .error .notFound := by
    unfold resolve
    rw [map_append]
    refine (resolveWith_dirs hdirs _).trans ?_
    simp [resolveWith, hnone]
  have hmissing : isDirAt d (p ++ [n]) = false := by
    simp [isDirAt, metadata, hwalk, bind, Except.bind]
  have hthere : exec (inspect fun d : Disk N D F L => .ok (isDirAt d (p ++ [n]))) d
      = ((.ok false : Except Errno Bool), d) := by
    rw [exec_inspect, hmissing]
  exact (exec_bind_ok hthere).trans (exec_createNode _ hdirs hnone)

lemma exec_createDirAll_of_dirs (data : D) (hdirs : RealDirs d p) :
    exec (createDirAll data p) d = (.ok (), d) := by
  have hskip : ∀ above ∈ p.inits, exec (ensureDir data above) d = (.ok (), d) :=
    fun above habove => exec_ensureDir_of_dirs data (hdirs.of_isPrefix ((mem_inits _ _).mp habove))
  have hall := exec_forM_skip hskip []
  rw [append_nil] at hall
  exact hall

lemma exec_createDirAll_last (data : D) (hdirs : RealDirs d p)
    (hnone : d.get (p ++ [n]) = none) :
    exec (createDirAll data (p ++ [n])) d = (.ok (), d.put (p ++ [n]) (.dir data)) := by
  have hlast : (p ++ [n]).inits = p.inits ++ [p ++ [n]] := inits_append p [n]
  have hskip : ∀ above ∈ p.inits, exec (ensureDir data above) d = (.ok (), d) :=
    fun above habove => exec_ensureDir_of_dirs data (hdirs.of_isPrefix ((mem_inits _ _).mp habove))
  unfold createDirAll
  rw [hlast, exec_forM_skip hskip]
  exact exec_bind_ok (exec_ensureDir_of_none data hdirs hnone)

end

end Fallible

end OnceBuild.Lib
