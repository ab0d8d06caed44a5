import OnceBuild.Remote.InputRoot

/-!
# Unfolding and comparing input roots

Unfolding the root of a tree that was built gives the declared tree, and everything it refers to is
in the blob map.  A root determines the map of directories and is determined by it, so that two
roots are equal exactly when the declared trees are.
-/

namespace OnceBuild.Remote

open Lib List SortedMap
open OnceBuild.Core (Place Disk WorkspacePath)
open Cas (Bytes)
open Tuist (RemoteDigest digestKey)

variable {codec : Codec} {ws : Disk} {layout : Layout} {tree : InputTree} {state : TreeState}
  {dig : List Text → RemoteDigest}

variable {p : List Text} {found : DirNode}

lemma node_of_get {nodes : Nodes} (hfound : nodes.get p = some found) : node nodes p = found := by
  rw [node, hfound, Option.getD_some]

lemma find?_childNodes (dig : List Text → RemoteDigest) (p names : List Text) (name : Text) :
    (childNodes dig p names).find? (fun child => decide (child.name = name)) =
      if name ∈ names then some { name := name, digest := some (dig (p ++ [name])) } else none := by
  unfold childNodes
  induction names with
  | nil => rfl
  | cons first names ih =>
    rw [map_cons, find?_cons]
    by_cases h : first = name
    case pos => simp [h]
    case neg =>
      have hne : name ≠ first := fun heq => h heq.symm
      simp only [h, decide_false, ih, mem_cons, hne, false_or]

variable {name : Text}

lemma not_clash {node : DirNode} (h : clash node = none)
    (hdir : node.directories.get name ≠ none) :
    node.files.get name = none ∧ node.symlinks.get name = none := by
  have hnot := find?_eq_none.mp h name
  rw [mem_append, mem_keys_iff, mem_keys_iff] at hnot
  have hsome : (node.directories.get name).isSome = true := Option.isSome_iff_ne_none.mpr hdir
  constructor
  · by_contra hfile
    exact hnot (.inl hfile) hsome
  · by_contra hlink
    exact hnot (.inr hlink) hsome

lemma find?_files (found : DirNode) (children : List DirectoryNode) (name : Text) :
    ((directoryMessage found children).files.find? fun file => decide (file.name = name)) =
      (found.files.get name).map fun value => ⟨name, some value.1, value.2⟩ :=
  found.files.find?_map_entries _ fun _ => decide_eq_true_iff

lemma find?_symlinks (found : DirNode) (children : List DirectoryNode) (name : Text) :
    ((directoryMessage found children).symlinks.find? fun link => decide (link.name = name)) =
      (found.symlinks.get name).map fun target => ⟨name, target⟩ :=
  found.symlinks.find?_map_entries _ fun _ => decide_eq_true_iff

variable {children : List DirectoryNode} {value : RemoteDigest × Bool}

lemma leafOf_link {blobs : Blobs} (hfile : found.files.get name = none) :
    leafOf codec ws blobs (directoryMessage found children) name =
      (found.symlinks.get name).map fun text => .link (utf8Encode text) := by
  simp only [leafOf, find?_files, find?_symlinks, hfile, Option.map_none, Option.map_map]
  rfl

variable {entry : Entry}

section unfolding

variable (hbuilt : Built codec ws layout tree state dig)
  (hcollide : NoCollisions codec tree.hashed)
include hbuilt

/-- No name is both a directory and a file or link: sealing the parent refuses a clash. -/
lemma Built.exclusive (hdir : state.nodes.get (p ++ [name]) ≠ none) :
    (node state.nodes p).files.get name = none ∧ (node state.nodes p).symlinks.get name = none := by
  have hok := hbuilt.collected.filled.ok
  obtain ⟨found, bytes, hfound, hclash, -⟩ := hbuilt.sealedAt p (hok.parent hdir)
  rw [node_of_get hfound]
  refine not_clash hclash ?_
  have := (hok.children p name).mpr hdir
  rwa [node_of_get hfound] at this

lemma Built.eq_dir (hrooted : Rooted ws) (hp : state.nodes.get p ≠ none)
    (h : Declared ws layout (place p) entry) : entry = .dir := by
  by_contra hne
  cases p using reverseRecOn with
  | nil =>
    obtain ⟨-, found, hget, hentry⟩ := h.kept_of_ne_dir hne
    obtain ⟨data, hroot⟩ := hrooted.root
    cases hget.symm.trans hroot
    exact hne (Option.some.inj hentry).symm
  | append_singleton above name =>
    obtain ⟨hfile, hlink⟩ := hbuilt.exclusive hp
    cases entry with
    | dir => exact hne rfl
    | file content exec =>
      obtain ⟨digest, hget, -⟩ := (hbuilt.collected.file_iff above name content exec).mp h
      rw [hfile] at hget
      cases hget
    | link target =>
      obtain ⟨text, hget, -⟩ := (hbuilt.collected.link_iff above name target).mp h
      rw [hlink] at hget
      cases hget

lemma Built.entry_unique (hleaf : state.nodes.get p = none) {entry' : Entry}
    (h : Declared ws layout (place p) entry) (h' : Declared ws layout (place p) entry') :
    entry = entry' := by
  have hne : ∀ {e : Entry}, Declared ws layout (place p) e → e ≠ .dir := by
    rintro e he rfl
    exact (hbuilt.collected.get_iff p).mpr he hleaf
  obtain ⟨-, found, hget, hentry⟩ := h.kept_of_ne_dir (hne h)
  obtain ⟨-, found', hget', hentry'⟩ := h'.kept_of_ne_dir (hne h')
  cases hget.symm.trans hget'
  exact Option.some.inj (hentry.symm.trans hentry')

include hcollide

lemma Built.readDirectory_eq (hfound : state.nodes.get p = some found) :
    readDirectory codec ws tree.blobs (dig p) =
      some (directoryMessage found (childNodes dig p found.directories.keys)) := by
  obtain ⟨found', bytes, hfound', -, hbytes, hencode, hdigest⟩ :=
    hbuilt.sealedAt p (hfound ▸ Option.some_ne_none _)
  cases hfound.symm.trans hfound'
  rw [readDirectory, hbuilt.blobs.fetch_eq hcollide hbytes hdigest]
  exact codec.decode_encode _ bytes hencode

lemma Built.fetch_file (h : (node state.nodes p).files.get name = some value) :
    ∃ data, ws.get (place (p ++ [name])) = some (.file data) ∧
      digestOf codec data.content = some value.1 ∧
      fetch codec ws tree.blobs value.1 = some data.content := by
  obtain ⟨hadded, data, hdata, hdigest, -⟩ := (hbuilt.collected.filled.files p name value).mp h
  have hhashed := hbuilt.hashed _ (hbuilt.collected.filled.hashed _ data hadded hdata)
  exact ⟨data, hdata, hdigest, hbuilt.blobs.fetch_eq hcollide hhashed hdigest⟩

/-- A leaf read back from a sealed directory is the entry declared at its place. -/
lemma Built.leafOf_iff (hfound : state.nodes.get p = some found)
    (hleaf : state.nodes.get (p ++ [name]) = none) (children : List DirectoryNode) (entry : Entry) :
    leafOf codec ws tree.blobs (directoryMessage found children) name = some entry ↔
      Declared ws layout (place (p ++ [name])) entry := by
  have hnode := node_of_get hfound
  cases hfile : found.files.get name with
  | some value =>
    have hget : (node state.nodes p).files.get name = some value := hnode ▸ hfile
    obtain ⟨data, hdata, hdigest, hfetch⟩ := hbuilt.fetch_file hcollide hget
    simp only [leafOf, find?_files, hfile, Option.map_some, Option.bind_some, hfetch]
    have hdeclared : Declared ws layout (place (p ++ [name])) (.file data.content value.2) :=
      (hbuilt.collected.file_iff p name _ _).mpr ⟨value.1, hget, hdigest, data, hdata, rfl⟩
    constructor
    · intro heq
      exact Option.some.inj heq ▸ hdeclared
    · intro hother
      exact congrArg some (hbuilt.entry_unique hleaf hdeclared hother)
  | none =>
    rw [leafOf_link hfile]
    have hnone : (node state.nodes p).files.get name = none := hnode ▸ hfile
    cases entry with
    | dir =>
      have hnot := mt (hbuilt.collected.get_iff (p ++ [name])).mpr (not_not.mpr hleaf)
      simp [hnot]
    | file content exec =>
      have hnot : ¬Declared ws layout (place (p ++ [name])) (.file content exec) := by
        rw [hbuilt.collected.file_iff, hnone]
        simp
      simp [hnot]
    | link target =>
      rw [hbuilt.collected.link_iff, hnode, Option.map_eq_some_iff]
      refine exists_congr fun text => and_congr_right fun _ => ?_
      rw [Entry.link.injEq]
      exact eq_comm

/-- Unfolding the digest of a directory gives what is declared below its place. -/
lemma Built.unfolded_iff (hrooted : Rooted ws) (hp : state.nodes.get p ≠ none)
    (path : List Text) (entry : Entry) :
    unfolded codec ws tree.blobs (dig p) path = some entry ↔
      Declared ws layout (place (p ++ path)) entry := by
  induction path generalizing p with
  | nil =>
    obtain ⟨found, hfound⟩ := Option.ne_none_iff_exists'.mp hp
    rw [unfolded, hbuilt.readDirectory_eq hcollide hfound, append_nil, Option.map_some]
    constructor
    · intro heq
      exact Option.some.inj heq ▸ (hbuilt.collected.get_iff p).mp hp
    · intro hdeclared
      rw [hbuilt.eq_dir hrooted hp hdeclared]
  | cons name rest ih =>
    obtain ⟨found, hfound⟩ := Option.ne_none_iff_exists'.mp hp
    have hchild : name ∈ found.directories.keys ↔ state.nodes.get (p ++ [name]) ≠ none := by
      rw [mem_keys_iff, ← hbuilt.collected.filled.ok.children p name, node_of_get hfound]
    have hsplit : p ++ name :: rest = p ++ [name] ++ rest := by
      rw [append_assoc, singleton_append]
    simp only [unfolded, hbuilt.readDirectory_eq hcollide hfound, directoryMessage,
      find?_childNodes]
    by_cases hname : name ∈ found.directories.keys
    case pos =>
      rw [if_pos hname, hsplit]
      exact ih (hchild.mp hname)
    case neg =>
      have hleaf : state.nodes.get (p ++ [name]) = none := not_not.mp (mt hchild.mpr hname)
      rw [if_neg hname]
      by_cases hrest : rest = []
      case pos =>
        subst hrest
        exact hbuilt.leafOf_iff hcollide hfound hleaf _ entry
      case neg =>
        -- something below would make the name a directory
        rw [if_neg hrest, hsplit]
        refine ⟨fun h => absurd h (by simp), fun hdeclared => absurd hleaf ?_⟩
        refine (hbuilt.collected.get_iff _).mpr (.above hdeclared ?_ fun heq => hrest ?_)
        · exact place_isPrefix_iff.mpr (prefix_append _ _)
        · exact append_cancel_left ((place_injective heq).symm.trans (append_nil _).symm)

lemma Built.subdirectory {digest : RemoteDigest}
    (h : Subdirectory codec ws tree.blobs tree.root digest) :
    ∃ p, state.nodes.get p ≠ none ∧ digest = dig p := by
  induction h with
  | self => exact ⟨[], hbuilt.collected.filled.ok.root, hbuilt.root⟩
  | @child parent child message entry _ hread hmem hdigest ih =>
    obtain ⟨p, hp, rfl⟩ := ih
    obtain ⟨found, hfound⟩ := Option.ne_none_iff_exists'.mp hp
    rw [hbuilt.readDirectory_eq hcollide hfound] at hread
    cases hread
    obtain ⟨name, hname, rfl⟩ := mem_map.mp hmem
    refine ⟨p ++ [name], (hbuilt.collected.filled.ok.children p name).mp ?_,
      (Option.some.inj hdigest).symm⟩
    rw [node_of_get hfound]
    exact (mem_keys_iff _).mp hname

/-- Nothing that the root refers to is missing from the blob map. -/
lemma Built.fetch_of_refers {digest : RemoteDigest}
    (h : Refers codec ws tree.blobs tree.root digest) :
    ∃ bytes, fetch codec ws tree.blobs digest = some bytes := by
  cases h with
  | directory hsub =>
    obtain ⟨p, hp, rfl⟩ := hbuilt.subdirectory hcollide hsub
    obtain ⟨-, bytes, -, -, hbytes, -, hdigest⟩ := hbuilt.sealedAt p hp
    exact ⟨bytes, hbuilt.blobs.fetch_eq hcollide hbytes hdigest⟩
  | @file parent _ message entry hsub hread hmem hdigest =>
    obtain ⟨p, hp, rfl⟩ := hbuilt.subdirectory hcollide hsub
    obtain ⟨found, hfound⟩ := Option.ne_none_iff_exists'.mp hp
    rw [hbuilt.readDirectory_eq hcollide hfound] at hread
    cases hread
    obtain ⟨value, hvalue, rfl⟩ := mem_map.mp hmem
    cases hdigest
    have hfile : (node state.nodes p).files.get value.1 = some value.2 := by
      rw [node_of_get hfound]
      exact (get_eq_some_iff _).mpr hvalue
    obtain ⟨data, -, -, hfetch⟩ := hbuilt.fetch_file hcollide hfile
    exact ⟨data.content, hfetch⟩

end unfolding

/-! ## Equal roots -/

/-- How a directory is sealed. -/
def sealNode (codec : Codec) (found : DirNode) (children : List (Text × RemoteDigest)) :
    Option RemoteDigest :=
  (codec.encode (directoryMessage found
    (children.map fun child => { name := child.1, digest := some child.2 }))).bind (digestOf codec)

lemma Built.sealed (hbuilt : Built codec ws layout tree state dig) :
    Sealed (fun found : DirNode => found.directories.keys) (sealNode codec) state.nodes.get
      dig where
  sealNode_eq p found hfound := by
    obtain ⟨found', bytes, hfound', -, -, hencode, hdigest⟩ :=
      hbuilt.sealedAt p (hfound ▸ Option.some_ne_none _)
    cases hfound.symm.trans hfound'
    rw [sealNode, map_map]
    exact Option.bind_eq_some_iff.mpr ⟨bytes, hencode, hdigest⟩
  mem_names p found hfound name := by
    rw [mem_keys_iff, ← hbuilt.collected.filled.ok.children p name, node_of_get hfound]
  parent p name := hbuilt.collected.filled.ok.parent

lemma directoryMessage_inj {found' : DirNode} {children' : List DirectoryNode}
    (h : directoryMessage found children = directoryMessage found' children') :
    found.files = found'.files ∧ found.symlinks = found'.symlinks ∧ children = children' := by
  obtain ⟨hfiles, hchildren, hlinks⟩ := Directory.mk.inj h
  refine ⟨ext_entries ?_, ext_entries ?_, hchildren⟩
  · refine map_injective_iff.mpr (fun a b heq => ?_) hfiles
    obtain ⟨hname, hdigest, hexec⟩ := FileNode.mk.inj heq
    exact Prod.ext hname (Prod.ext (Option.some.inj hdigest) hexec)
  · refine map_injective_iff.mpr (fun a b heq => ?_) hlinks
    obtain ⟨hname, htarget⟩ := SymlinkNode.mk.inj heq
    exact Prod.ext hname htarget

lemma childNodes_inj {dig dig' : List Text → RemoteDigest} {names names' : List Text}
    (h : childNodes dig p names = childNodes dig' p names') :
    names = names' ∧ (names.map fun n => (n, dig (p ++ [n]))) =
      names'.map fun n => (n, dig' (p ++ [n])) := by
  have hpairs : (names.map fun n => (n, dig (p ++ [n]))) = names'.map fun n =>
    (n, dig' (p ++ [n])) := by
    have hinj : Function.Injective fun pair : Text × RemoteDigest =>
        DirectoryNode.mk pair.1 (some pair.2) := by
      intro a b heq
      obtain ⟨hname, hdigest⟩ := DirectoryNode.mk.inj heq
      exact Prod.ext hname (Option.some.inj hdigest)
    refine map_injective_iff.mpr hinj ?_
    rw [map_map, map_map]
    exact h
  have hnames := congrArg (map Prod.fst) hpairs
  exact ⟨by simpa [Function.comp_def] using hnames, hpairs⟩

section two

variable {ws' : Disk} {layout' : Layout} {tree' : InputTree} {state' : TreeState}
  {dig' : List Text → RemoteDigest} (hbuilt : Built codec ws layout tree state dig)
  (hbuilt' : Built codec ws' layout' tree' state' dig')

lemma DirNode.ext_directories {found' : DirNode} (hfiles : found.files = found'.files)
    (hlinks : found.symlinks = found'.symlinks)
    (hkeys : ∀ name, found.directories.get name ≠ none ↔ found'.directories.get name ≠ none) :
    found = found' := by
  have hdirs : found.directories = found'.directories := by
    refine ext_get fun name => ?_
    have := hkeys name
    cases h : found.directories.get name <;> cases h' : found'.directories.get name <;> simp_all
  cases found
  cases hfiles
  cases hlinks
  cases hdirs
  rfl

include hbuilt hbuilt'

lemma Built.nodes_eq (hcollide : NoCollisions codec (tree.hashed ++ tree'.hashed))
    (hroot : tree.root = tree'.root) : state.nodes = state'.nodes := by
  refine ext_get fun path => ?_
  have hbinding := hbuilt.sealed.binding hbuilt'.sealed (fun p found found' hfound hfound' heq =>
    ?_) hbuilt.collected.filled.ok.root hbuilt'.collected.filled.ok.root
    (hbuilt.root ▸ hbuilt'.root ▸ hroot) path
  · exact hbinding
  · -- equal digests, so equal bytes, so equal messages
    obtain ⟨found₁, bytes, hfound₁, -, hbytes, hencode, hdigest⟩ :=
      hbuilt.sealedAt p (hfound ▸ Option.some_ne_none _)
    obtain ⟨found₂, bytes', hfound₂, -, hbytes', hencode', hdigest'⟩ :=
      hbuilt'.sealedAt p (hfound' ▸ Option.some_ne_none _)
    cases hfound.symm.trans hfound₁
    cases hfound'.symm.trans hfound₂
    have hsame : bytes = bytes' := hcollide.eq (mem_append_left _ hbytes)
      (mem_append_right _ hbytes') hdigest hdigest' (congrArg digestKey heq)
    subst hsame
    have hmessage := Option.some.inj
      ((codec.decode_encode _ bytes hencode).symm.trans (codec.decode_encode _ bytes hencode'))
    obtain ⟨hfiles, hlinks, hchildren⟩ := directoryMessage_inj hmessage
    obtain ⟨hkeys, hpairs⟩ := childNodes_inj hchildren
    refine ⟨DirNode.ext_directories hfiles hlinks fun name => ?_, hpairs⟩
    rw [← mem_keys_iff, ← mem_keys_iff, hkeys]

/-- With the same directories, what one layout declares the other declares. -/
lemma Built.declared_le (hcollide : NoCollisions codec (tree.hashed ++ tree'.hashed))
    (hrooted : Rooted ws) (hnodes : state.nodes = state'.nodes) {p : Place}
    (h : Declared ws layout p entry) : Declared ws' layout' p entry := by
  obtain ⟨path, rfl⟩ := hbuilt.collected.texts h
  by_cases hdir : state.nodes.get path = none
  case neg =>
    rw [hbuilt.eq_dir hrooted hdir h]
    exact (hbuilt'.collected.get_iff path).mp (hnodes ▸ hdir)
  case pos =>
    cases path using reverseRecOn with
    | nil => exact absurd hdir hbuilt.collected.filled.ok.root
    | append_singleton above name =>
      cases entry with
      | dir => exact absurd hdir ((hbuilt.collected.get_iff _).mpr h)
      | link target =>
        rw [hbuilt.collected.link_iff, hnodes] at h
        exact (hbuilt'.collected.link_iff above name target).mpr h
      | file content exec =>
        obtain ⟨digest, hfile, hdigest, data, hdata, rfl⟩ :=
          (hbuilt.collected.file_iff above name content exec).mp h
        rw [hnodes] at hfile
        obtain ⟨hadded', data', hdata', hdigest', -⟩ :=
          (hbuilt'.collected.filled.files above name _).mp hfile
        -- one digest, and both contents were hashed
        have hadded := added_concat (h.kept_of_ne_dir (by simp)).1 (hdata ▸ Option.some_ne_none _)
        have hhashed := hbuilt.hashed _ (hbuilt.collected.filled.hashed _ data hadded hdata)
        have hhashed' := hbuilt'.hashed _ (hbuilt'.collected.filled.hashed _ data' hadded' hdata')
        have hcontent : data'.content = data.content :=
          hcollide.eq (mem_append_right _ hhashed') (mem_append_left _ hhashed)
            hdigest' hdigest rfl
        exact (hbuilt'.collected.file_iff above name _ exec).mpr
          ⟨digest, hfile, hdigest, data', hdata', hcontent⟩

end two

lemma NoCollisions.swap {a b : List Bytes} (h : NoCollisions codec (a ++ b)) :
    NoCollisions codec (b ++ a) :=
  fun x hx y hy => h x (mem_append.mpr (mem_append.mp hx).symm) y
    (mem_append.mpr (mem_append.mp hy).symm)

section declaredTwice

variable {ws' : Disk} {layout' : Layout} {state' : TreeState}
  (h : Collected codec ws layout state) (h' : Collected codec ws' layout' state')
  (hsame : ∀ p entry, Declared ws layout p entry ↔ Declared ws' layout' p entry)
include h h' hsame

lemma Collected.files_le (hfile : (node state.nodes p).files.get name = some value) :
    (node state'.nodes p).files.get name = some value := by
  obtain ⟨-, data, hdata, hdigest, hmode⟩ := (h.filled.files p name value).mp hfile
  have hdeclared := (h.file_iff p name data.content value.2).mpr
    ⟨value.1, hfile, hdigest, data, hdata, rfl⟩
  obtain ⟨digest, hfile', hdigest', -⟩ := (h'.file_iff p name _ _).mp ((hsame _ _).mp hdeclared)
  rw [hfile', Option.some.inj (hdigest'.symm.trans hdigest)]

lemma Collected.symlinks_le {target : Text}
    (hlink : (node state.nodes p).symlinks.get name = some target) :
    (node state'.nodes p).symlinks.get name = some target := by
  have hdeclared := (h.link_iff p name (utf8Encode target)).mpr ⟨target, hlink, rfl⟩
  obtain ⟨text, hlink', htext⟩ := (h'.link_iff p name _).mp ((hsame _ _).mp hdeclared)
  rw [hlink', utf8Encode_injective htext]

lemma Collected.get_iff_get (p : List Text) :
    state.nodes.get p ≠ none ↔ state'.nodes.get p ≠ none := by
  rw [h.get_iff, h'.get_iff]
  exact hsame _ _

lemma Collected.nodes_eq : state.nodes = state'.nodes := by
  have hsym : ∀ p entry, Declared ws' layout' p entry ↔ Declared ws layout p entry :=
    fun p entry => (hsame p entry).symm
  have hnode : ∀ p, node state.nodes p = node state'.nodes p := by
    intro p
    refine DirNode.ext_directories (ext_get fun name => ?_)
      (ext_get fun name => ?_) fun name => ?_
    · exact Option.ext fun value => ⟨h.files_le h' hsame, h'.files_le h hsym⟩
    · exact Option.ext fun target => ⟨h.symlinks_le h' hsame, h'.symlinks_le h hsym⟩
    · rw [h.filled.ok.children, h'.filled.ok.children]
      exact h.get_iff_get h' hsame _
  refine ext_get fun p => ?_
  have hiff := h.get_iff_get h' hsame p
  have hp := hnode p
  unfold node at hp
  cases hget : state.nodes.get p <;> cases hget' : state'.nodes.get p <;> simp_all

end declaredTwice

/-- The root digest depends on the collected directories only. -/
lemma Built.root_eq {ws' : Disk} {layout' : Layout} {tree' : InputTree} {state' : TreeState}
    {dig' : List Text → RemoteDigest} (hbuilt : Built codec ws layout tree state dig)
    (hbuilt' : Built codec ws' layout' tree' state' dig') (hnodes : state.nodes = state'.nodes) :
    tree.root = tree'.root := by
  rw [hbuilt.root, hbuilt'.root]
  have hsealed' := hbuilt'.sealed
  rw [← hnodes] at hsealed'
  have hbound : ∀ p, state.nodes.get p ≠ none → p.length ≤ longest state.nodes.keys :=
    fun p hp => length_le_longest ((mem_keys_iff _).mpr hp)
  exact hbuilt.sealed.unique hsealed' hbound [] hbuilt.collected.filled.ok.root

/-! ## The input root -/

lemma built_of_ok {workspace : OsPath} {limits : RemoteIoLimits} (hrooted : Rooted ws)
    (h : build codec ws workspace limits layout = .ok tree) :
    ∃ state dig, Built codec ws layout tree state dig := by
  obtain ⟨tree', state, dig, hok, hbuilt⟩ | ⟨error, herror⟩ :=
    @build_spec codec ws workspace limits hrooted layout
  · cases h.symm.trans hok
    exact ⟨state, dig, hbuilt⟩
  · cases h.symm.trans herror

/-- The remote input root is exactly the declared tree: a build does not panic; everything the root
refers to is in the blob map with its content, and unfolding the root gives the declared tree; two
roots are equal exactly when the declared trees are. -/
theorem input_root_is_declared_tree (codec : Codec) (ws : Disk) (workspace : OsPath)
    (limits : RemoteIoLimits) (layout : Layout) (hrooted : Rooted ws) :
    (∀ message, build codec ws workspace limits layout ≠ .error (.panicked message)) ∧
    ∀ tree, build codec ws workspace limits layout = .ok tree → (NoCollisions codec tree.hashed →
        (∀ digest, Refers codec ws tree.blobs tree.root digest →
          ∃ bytes, fetch codec ws tree.blobs digest = some bytes) ∧
        ∀ p entry, Declared ws layout p entry ↔
          ∃ path, p = place path ∧ unfolded codec ws tree.blobs tree.root path = some entry) ∧
      ∀ ws' workspace' limits' layout' tree', Rooted ws' →
        build codec ws' workspace' limits' layout' = .ok tree' →
        NoCollisions codec (tree.hashed ++ tree'.hashed) →
        (tree.root = tree'.root ↔
          ∀ p entry, Declared ws layout p entry ↔ Declared ws' layout' p entry) := by
  refine ⟨fun message hpanic => ?_, fun tree hbuild => ?_⟩
  · obtain ⟨_, _, _, hok, -⟩ | ⟨error, herror⟩ :=
      @build_spec codec ws workspace limits hrooted layout
    · cases hpanic.symm.trans hok
    · cases hpanic.symm.trans herror
  obtain ⟨state, dig, hbuilt⟩ := built_of_ok hrooted hbuild
  refine ⟨fun hcollide => ⟨fun digest => hbuilt.fetch_of_refers hcollide, fun p entry => ?_⟩, ?_⟩
  · have hunfolded := hbuilt.unfolded_iff hcollide hrooted hbuilt.collected.filled.ok.root
    rw [← hbuilt.root] at hunfolded
    constructor
    · intro hdeclared
      obtain ⟨path, rfl⟩ := hbuilt.collected.texts hdeclared
      exact ⟨path, rfl, (hunfolded path entry).mpr hdeclared⟩
    · rintro ⟨path, rfl, hentry⟩
      exact (hunfolded path entry).mp hentry
  · intro ws' workspace' limits' layout' tree' hrooted' hbuild' hcollide
    obtain ⟨state', dig', hbuilt'⟩ := built_of_ok hrooted' hbuild'
    constructor
    · intro hroot
      have hnodes := hbuilt.nodes_eq hbuilt' hcollide hroot
      exact fun p entry => ⟨hbuilt.declared_le hbuilt' hcollide hrooted hnodes,
        hbuilt'.declared_le hbuilt hcollide.swap hrooted' hnodes.symm⟩
    · intro hsame
      exact hbuilt.root_eq hbuilt' (hbuilt.collected.nodes_eq hbuilt'.collected hsame)

section small

def firstByteDigest (bytes : Bytes) : Cas.Digest := .ofDigit ((bytes.headD 0).toNat)

def smallDigest (digit : Nat) : RemoteDigest :=
  ⟨(Cas.Digest.ofDigit digit).hex, (1 : Nat), isI64_one⟩

/-- The messages of the small root: its empty directory, the restored file's and the root's own. -/
def smallTable : List Directory :=
  [⟨[], [], []⟩, ⟨[⟨['r'], some (smallDigest 8), true⟩], [], []⟩,
    ⟨[], [⟨['c'], some (smallDigest 1)⟩, ⟨['d'], some (smallDigest 0)⟩], []⟩]

def decodeIn (table : List Directory) : Bytes → Option Directory
  | [index] => table[index.toNat]?
  | _ => none

/-- A directory of the table is written as its index. -/
def tableCodec (table : List Directory) : Codec where
  sha256 := firstByteDigest
  encode := fun directory =>
    if decodeIn table [.ofNat (table.idxOf directory)] = some directory then
      some [.ofNat (table.idxOf directory)]
    else none
  decode := decodeIn table
  encode_bounded := by
    intro directory bytes h
    obtain ⟨-, hbytes⟩ := Option.ite_none_right_eq_some.mp h
    cases hbytes
    simp [i64Max]
  decode_encode := by
    intro directory bytes h
    obtain ⟨hdecode, hbytes⟩ := Option.ite_none_right_eq_some.mp h
    cases hbytes
    exact hdecode

def smallCodec : Codec := tableCodec smallTable

def smallWorkspace : Disk := .ofList [([], .dir 0o755), ([[97]], .file ⟨0o755, [7]⟩),
  ([[99]], .dir 0o755), ([[99], [114]], .file ⟨0o755, [8]⟩)]

lemma plain_a : ∀ c ∈ [['a']], Plain c := by decide

lemma plain_cr : ∀ c ∈ [['c'], ['r']], Plain c := by decide

/-- The input `a` is cleaned and `c/r` is restored. -/
def smallLayout : Layout where
  inputs := [⟨[['a']], plain_a⟩]
  cleanPaths := [⟨[['a']], plain_a⟩]
  restoredInputs := [⟨[['c'], ['r']], plain_cr⟩]
  directories := [['d']]

lemma smallWorkspace_rooted : Rooted smallWorkspace := rooted_ofList (by decide)

def smallLimits : RemoteIoLimits := ⟨10000, 10, 10000⟩

lemma smallLayout_built :
    ∃ tree, build smallCodec smallWorkspace [] smallLimits smallLayout = .ok tree ∧
      tree.hashed = [[8], [1], [0], [2]] ∧
      unfolded smallCodec smallWorkspace tree.blobs tree.root [['a']] = none := by
  have hsome : (build smallCodec smallWorkspace [] smallLimits smallLayout).toOption.map (fun tree =>
      (tree.hashed, unfolded smallCodec smallWorkspace tree.blobs tree.root [['a']])) =
      some ([[8], [1], [0], [2]], none) := by
    decide +kernel
  cases hbuild : build smallCodec smallWorkspace [] smallLimits smallLayout with
  | error failure =>
    rw [hbuild] at hsome
    cases hsome
  | ok tree =>
    rw [hbuild] at hsome
    exact ⟨tree, rfl, Prod.ext_iff.mp (Option.some.inj hsome)⟩

/-- The root has the restored file and the set-up directory, and not the cleaned file. -/
theorem input_root_of_file_and_directory :
    ∃ tree, build smallCodec smallWorkspace [] smallLimits smallLayout = .ok tree ∧
      NoCollisions smallCodec tree.hashed ∧
      (∃ path, [[99], [114]] = place path ∧
        unfolded smallCodec smallWorkspace tree.blobs tree.root path = some (.file [8] true)) ∧
      (∃ path, [[100]] = place path ∧
        unfolded smallCodec smallWorkspace tree.blobs tree.root path = some .dir) ∧
      unfolded smallCodec smallWorkspace tree.blobs tree.root [['a']] = none := by
  obtain ⟨tree, hbuild, hhashed, hcleaned⟩ := smallLayout_built
  have hcollide : NoCollisions smallCodec tree.hashed := by
    rw [hhashed]
    unfold NoCollisions
    decide
  have hexact := ((input_root_is_declared_tree smallCodec smallWorkspace [] smallLimits smallLayout
    smallWorkspace_rooted).2 tree hbuild).1 hcollide
  have hkept : Kept smallLayout [[99], [114]] := .inr ⟨_, mem_cons_self, prefix_rfl⟩
  have hsetUp : Declared smallWorkspace smallLayout (setUpPlace ['d']) .dir := .setUp mem_cons_self
  exact ⟨tree, hbuild, hcollide, (hexact.2 _ _).mp (.kept hkept rfl rfl), (hexact.2 _ _).mp hsetUp,
    hcleaned⟩

end small

end OnceBuild.Remote
