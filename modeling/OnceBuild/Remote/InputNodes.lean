import OnceBuild.Lib.Merkle
import OnceBuild.Remote.InputTree

/-!
# What is in the map of directories

The map is filled one entry at a time.  It always has the directories above everything that was
added, every directory is listed in its parent, and its files and links are those of the workspace.
The blob map has the content of everything that was hashed.
-/

namespace OnceBuild.Remote

open Lib SortedMap
open OnceBuild.Core (FileData Place Disk WorkspacePath names)
open Cas (Bytes)
open Tuist (RemoteDigest digestKey)

def place (path : List Text) : Place := path.map utf8Encode

variable {p : List Text}

lemma place_injective {q : List Text} (h : place p = place q) : p = q :=
  List.map_injective_iff.mpr utf8Encode_injective h

lemma place_append (p q : List Text) : place (p ++ q) = place p ++ place q := List.map_append

lemma place_isPrefix_iff {q : List Text} : place p <+: place q ↔ p <+: q := by
  constructor
  · intro hle
    have htake := (List.prefix_iff_eq_take.mp hle).trans List.map_take.symm
    rw [place_injective htake]
    exact List.take_prefix _ _
  · exact fun hle => hle.map _

/-! ## Directories -/

/-- The root is there, and a directory lists what is directly below it. -/
structure NodesOk (nodes : Nodes) : Prop where
  root : nodes.get [] ≠ none
  children : ∀ p name, (node nodes p).directories.get name ≠ none ↔ nodes.get (p ++ [name]) ≠ none

variable {nodes : Nodes} {name : Text}

lemma NodesOk.parent (h : NodesOk nodes) (hchild : nodes.get (p ++ [name]) ≠ none) :
    nodes.get p ≠ none := by
  intro hnone
  refine (h.children p name).mpr hchild ?_
  rw [node, hnone]
  rfl

lemma node_insert (nodes : Nodes) (path : List Text) (new : DirNode) (p : List Text) :
    node (nodes.insert path new) p = if p = path then new else node nodes p := by
  unfold node
  rw [get_insert]
  split <;> rfl

lemma proj_insert {β : Type} (f : DirNode → β) {path : List Text} {new : DirNode}
    (h : f new = f (node nodes path)) (p : List Text) :
    f (node (nodes.insert path new) p) = f (node nodes p) := by
  rw [node_insert]
  split
  case isTrue heq => rw [h, heq]
  case isFalse => rfl

lemma node_touch (nodes : Nodes) (path p : List Text) : node (touch nodes path) p = node nodes p :=
  proj_insert id rfl p

section enter

variable {nodes : Nodes} {current : List Text} {name : Text}

lemma get_enter (p : List Text) : (enter nodes current name).get p ≠ none ↔
      nodes.get p ≠ none ∨ p = current ∨ p = current ++ [name] := by
  rw [enter, touch, get_insert, addDirectory, get_insert]
  by_cases hlast : p = current ++ [name] <;> by_cases hcurrent : p = current <;>
    simp [hlast, hcurrent]

lemma files_enter (p : List Text) :
    (node (enter nodes current name) p).files = (node nodes p).files := by
  rw [enter, node_touch]
  exact proj_insert DirNode.files (by rfl) p

lemma symlinks_enter (p : List Text) :
    (node (enter nodes current name) p).symlinks = (node nodes p).symlinks := by
  rw [enter, node_touch]
  exact proj_insert DirNode.symlinks (by rfl) p

lemma NodesOk.enter (h : NodesOk nodes) (hcurrent : nodes.get current ≠ none) :
    NodesOk (enter nodes current name) where
  root := (get_enter []).mpr (.inl h.root)
  children p child := by
    rw [get_enter, Remote.enter, node_touch, addDirectory, node_insert]
    by_cases hp : p = current
    case pos =>
      subst hp
      rw [if_pos rfl, get_insert]
      by_cases hchild : child = name
      case pos => simp [hchild]
      case neg =>
        rw [if_neg hchild, h.children p child]
        simp [hchild]
    case neg =>
      rw [if_neg hp, h.children p child]
      refine ⟨Or.inl, ?_⟩
      rintro (hget | rfl | heq)
      · exact hget
      · exact hcurrent
      · exact absurd (List.append_inj_left' heq rfl) hp

end enter

/-- What a loop of `ensure_directory` adds. -/
structure Ensured (nodes nodes' : Nodes) (current path : List Text) : Prop where
  ok : NodesOk nodes'
  get : ∀ p, nodes'.get p ≠ none ↔ nodes.get p ≠ none ∨ (current <+: p ∧ p <+: path)
  files : ∀ p, (node nodes' p).files = (node nodes p).files
  symlinks : ∀ p, (node nodes' p).symlinks = (node nodes p).symlinks

lemma Ensured.last {nodes' : Nodes} {path : List Text} (h : Ensured nodes nodes' [] path) :
    nodes'.get path ≠ none :=
  (h.get path).mpr (.inr ⟨List.nil_prefix, List.prefix_rfl⟩)

lemma ensureFrom_spec {shown : String} {current : List Text} {parts : List Component}
    {nodes' : Nodes} (h : ensureFrom shown current parts nodes = .ok nodes') (hok : NodesOk nodes)
    (hcurrent : nodes.get current ≠ none) :
    ∃ texts, parts = (place texts).map Component.normal ∧
      Ensured nodes nodes' current (current ++ texts) := by
  induction parts generalizing current nodes with
  | nil =>
    cases h
    refine ⟨[], rfl, hok, fun p => ⟨Or.inl, ?_⟩, fun _ => rfl, fun _ => rfl⟩
    rintro (hget | ⟨hle, hge⟩)
    · exact hget
    · rw [List.append_nil] at hge
      rwa [← hle.eq_of_length_le hge.length_le]
  | cons part parts ih =>
    cases part with
    | normal bytes =>
      simp only [ensureFrom] at h
      split at h
      case h_1 => cases h
      case h_2 name hname =>
        have hnext : (enter nodes current name).get (current ++ [name]) ≠ none :=
          (get_enter _).mpr (.inr (.inr rfl))
        obtain ⟨texts, hparts, hensured⟩ := ih h (hok.enter hcurrent) hnext
        refine ⟨name :: texts, ?_, ?_⟩
        · rw [hparts, fromUtf8_eq_some.mp hname]
          rfl
        · rw [List.append_assoc] at hensured
          refine ⟨hensured.ok, fun p => ?_, fun p => ?_, fun p => ?_⟩
          · rw [hensured.get p, get_enter]
            constructor
            · rintro ((hget | rfl | rfl) | ⟨hle, hge⟩)
              · exact .inl hget
              · exact .inl hcurrent
              · exact .inr ⟨List.prefix_append _ _, by simp⟩
              · exact .inr ⟨(List.prefix_append _ _).trans hle, hge⟩
            · rintro (hget | ⟨⟨rest, rfl⟩, hge⟩)
              · exact .inl (.inl hget)
              · -- either the current directory or one component further
                cases rest with
                | nil => exact .inl (.inr (.inl (List.append_nil _)))
                | cons first rest =>
                  obtain ⟨rfl, -⟩ := List.cons_prefix_cons.mp
                    (List.prefix_append_right_inj _ |>.mp hge)
                  exact .inr ⟨by simp, hge⟩
          · rw [hensured.files p, files_enter]
          · rw [hensured.symlinks p, symlinks_enter]
    | rootDir | curDir => cases h
    | parentDir => cases h

lemma ensurePlace_spec {path : Place} {nodes' : Nodes} (h : ensurePlace path nodes = .ok nodes')
    (hok : NodesOk nodes) : ∃ texts, path = place texts ∧ Ensured nodes nodes' [] texts := by
  obtain ⟨texts, hparts, hensured⟩ := ensureFrom_spec h hok hok.root
  exact ⟨texts, List.map_injective_iff.mpr (fun _ _ heq => Component.normal.inj heq) hparts,
    hensured⟩

/-! ## Files and links -/

section leaves

variable {nodes : Nodes} {path : List Text} {name : Text}

lemma get_insert_ne_none {new : DirNode} (hpath : nodes.get path ≠ none) (p : List Text) :
    (nodes.insert path new).get p ≠ none ↔ nodes.get p ≠ none := by
  rw [get_insert]
  split
  case isTrue h => simp [h, hpath]
  case isFalse => rfl

lemma NodesOk.insert (h : NodesOk nodes) (hpath : nodes.get path ≠ none) {new : DirNode}
    (hnew : new.directories = (node nodes path).directories) : NodesOk (nodes.insert path new) where
  root := (get_insert_ne_none hpath []).mpr h.root
  children p child := by
    rw [get_insert_ne_none hpath, ← h.children p child, proj_insert DirNode.directories hnew]

lemma get_proj_insert {β : Type} (f : DirNode → SortedMap Text β) {new : DirNode} {value : β}
    (h : f new = (f (node nodes path)).insert name value) (p : List Text) (other : Text) :
    (f (node (nodes.insert path new) p)).get other =
      if p ++ [other] = path ++ [name] then some value else (f (node nodes p)).get other := by
  rw [node_insert]
  by_cases hp : p = path
  case pos =>
    subst hp
    rw [if_pos rfl, h, get_insert]
    simp
  case neg =>
    have hne : p ++ [other] ≠ path ++ [name] := fun heq => hp (List.append_inj_left' heq rfl)
    rw [if_neg hp, if_neg hne]

lemma symlinks_addFile (file : RemoteDigest × Bool) (p : List Text) :
    (node (addFile nodes path name file) p).symlinks = (node nodes p).symlinks :=
  proj_insert DirNode.symlinks (by rfl) p

lemma files_addSymlink (target : Text) (p : List Text) :
    (node (addSymlink nodes path name target) p).files = (node nodes p).files :=
  proj_insert DirNode.files (by rfl) p

end leaves

/-! ## Blobs -/

variable {digest : RemoteDigest}

section blobs

variable {codec : Codec} {ws : Disk}

/-- The bytes of a blob; a file is opened again without following links. -/
def blobContent (ws : Disk) : Blob → Option Bytes
  | .bytes bytes => some bytes
  | .file path =>
    match metadataBeneath ws path with
    | .ok (.file data) => some data.content
    | _ => none

/-- The blob map has what was hashed, filed under its digest, and nothing else. -/
structure BlobsOk (codec : Codec) (ws : Disk) (blobs : Blobs) (hashed : List Bytes) : Prop where
  sound : ∀ key entry, blobs key = some entry → digestKey entry.1 = key ∧
    ∃ bytes ∈ hashed, blobContent ws entry.2 = some bytes ∧ digestOf codec bytes = some entry.1
  complete : ∀ bytes ∈ hashed,
    ∃ digest, digestOf codec bytes = some digest ∧ blobs (digestKey digest) ≠ none

variable {hashed : List Bytes} {bytes : Bytes}

lemma BlobsOk.insert {blobs : Blobs} (h : BlobsOk codec ws blobs hashed) {blob : Blob}
    (hdigest : digestOf codec bytes = some digest) (hcontent : blobContent ws blob = some bytes) :
    BlobsOk codec ws (insertBlob blobs digest blob) (hashed ++ [bytes]) := by
  have hweaker : ∀ key entry, blobs key = some entry → digestKey entry.1 = key ∧
      ∃ b ∈ hashed ++ [bytes], blobContent ws entry.2 = some b ∧
        digestOf codec b = some entry.1 := by
    intro key entry hentry
    obtain ⟨hkey, b, hb, hrest⟩ := h.sound key entry hentry
    exact ⟨hkey, b, List.mem_append_left _ hb, hrest⟩
  unfold insertBlob
  split
  case h_1 entry hfound =>
    refine ⟨hweaker, fun b hb => ?_⟩
    rcases List.mem_append.mp hb with hb | hb
    · exact h.complete b hb
    · rw [List.mem_singleton.mp hb]
      exact ⟨digest, hdigest, hfound ▸ Option.some_ne_none _⟩
  case h_2 hmissing =>
    refine ⟨fun key entry hentry => ?_, fun b hb => ?_⟩
    · by_cases hkey : key = digestKey digest
      case pos =>
        rw [hkey, Function.update_self] at hentry
        cases hentry
        exact ⟨hkey.symm, bytes, by simp, hcontent, hdigest⟩
      case neg =>
        rw [Function.update_of_ne hkey] at hentry
        exact hweaker key entry hentry
    · rcases List.mem_append.mp hb with hb | hb
      · obtain ⟨d, hd, hpresent⟩ := h.complete b hb
        refine ⟨d, hd, ?_⟩
        by_cases hkey : digestKey d = digestKey digest
        case pos => exact absurd (hkey ▸ hmissing) hpresent
        case neg => rwa [Function.update_of_ne hkey]
      · rw [List.mem_singleton.mp hb]
        exact ⟨digest, hdigest, by rw [Function.update_self]; exact Option.some_ne_none _⟩

lemma hash_of_digestOf (h : digestOf codec bytes = some digest) :
    digest.hash = (codec.sha256 bytes).hex := by
  unfold digestOf at h
  split at h
  case isTrue => rw [← Option.some.inj h]
  case isFalse => cases h

variable {digest' : RemoteDigest}

lemma hash_of_digestKey (hlength : digest.hash.length = 64) (hlength' : digest'.hash.length = 64)
    (h : digestKey digest = digestKey digest') : digest.hash = digest'.hash := by
  have hlist := congrArg String.toList h
  simp only [digestKey, String.toList_append, String.toList_ofList, List.append_assoc] at hlist
  exact List.append_inj_left hlist (hlength.trans hlength'.symm)

/-- The strings that are hashed do not collide. -/
def NoCollisions (codec : Codec) (hashed : List Bytes) : Prop :=
  ∀ a ∈ hashed, ∀ b ∈ hashed, codec.sha256 a = codec.sha256 b → a = b

lemma NoCollisions.eq (h : NoCollisions codec hashed) {a b : Bytes} (ha : a ∈ hashed)
    (hb : b ∈ hashed) (hdigest : digestOf codec a = some digest)
    (hdigest' : digestOf codec b = some digest') (hkey : digestKey digest = digestKey digest') :
    a = b := by
  have hhash := hash_of_digestOf hdigest
  have hhash' := hash_of_digestOf hdigest'
  refine h a ha b hb (Cas.Digest.ext_hex ?_)
  rw [← hhash, ← hhash']
  refine hash_of_digestKey ?_ ?_ hkey
  · rw [hhash, Cas.Digest.length_hex]
  · rw [hhash', Cas.Digest.length_hex]

/-- What the blob map gives for a digest: the blob that is filed there, checked. -/
def fetch (codec : Codec) (ws : Disk) (blobs : Blobs) (digest : RemoteDigest) : Option Bytes :=
  match blobs (digestKey digest) with
  | none => none
  | some entry =>
    (blobContent ws entry.2).filter fun bytes =>
      decide (entry.1 = digest ∧ digestOf codec bytes = some digest)

lemma BlobsOk.fetch_eq {blobs : Blobs} (h : BlobsOk codec ws blobs hashed)
    (hcollide : NoCollisions codec hashed) (hbytes : bytes ∈ hashed)
    (hdigest : digestOf codec bytes = some digest) : fetch codec ws blobs digest = some bytes := by
  obtain ⟨digest', hdigest', hpresent⟩ := h.complete bytes hbytes
  cases hdigest.symm.trans hdigest'
  obtain ⟨entry, hentry⟩ := Option.ne_none_iff_exists'.mp hpresent
  obtain ⟨hkey, other, hother, hcontent, hotherDigest⟩ := h.sound _ entry hentry
  -- the blob that was filed first under this key has the same bytes
  obtain rfl : other = bytes := hcollide.eq hother hbytes hotherDigest hdigest hkey
  have hsame : entry.1 = digest := Option.some.inj (hotherDigest.symm.trans hdigest)
  simp only [fetch, hentry, hcontent]
  exact Option.filter_some_pos (by simp [hsame, hdigest])

end blobs

/-! ## The entries of the workspace -/

section filled

variable (codec : Codec) (ws : Disk)

def DirOf (path : List Text) : Prop := ∃ data, ws.get (place path) = some (.dir data)

/-- The workspace has a file there, with this digest and executable bit. -/
def FileOf (path : List Text) (value : RemoteDigest × Bool) : Prop :=
  ∃ data, ws.get (place path) = some (.file data) ∧
    digestOf codec data.content = some value.1 ∧ executable data.mode = value.2

def LinkOf (path : List Text) (target : Text) : Prop :=
  ws.get (place path) = some (.link (utf8Encode target))

/-- The directories that the entries `A` and the directories `S` need: those above them, and those
among them. -/
def Covered (A S : List Text → Prop) (p : List Text) : Prop :=
  p = [] ∨ (∃ q, A q ∧ p <+: q ∧ (p ≠ q ∨ DirOf ws q)) ∨ ∃ q, S q ∧ p <+: q

/-- The entries `A` of the workspace and the directories `S` have been added. -/
structure Filled (A S : List Text → Prop) (state : TreeState) : Prop where
  ok : NodesOk state.nodes
  dirs : ∀ p, state.nodes.get p ≠ none ↔ Covered ws A S p
  files : ∀ p name value, (node state.nodes p).files.get name = some value ↔
    A (p ++ [name]) ∧ FileOf codec ws (p ++ [name]) value
  symlinks : ∀ p name target, (node state.nodes p).symlinks.get name = some target ↔
    A (p ++ [name]) ∧ LinkOf ws (p ++ [name]) target
  kinds : ∀ q, A q → DirOf ws q ∨ (∃ value, FileOf codec ws q value) ∨ ∃ target, LinkOf ws q target
  hashed : ∀ q data, A q → ws.get (place q) = some (.file data) → data.content ∈ state.hashed
  blobs : BlobsOk codec ws state.blobs state.hashed

variable {codec ws}

variable {path : List Text}

lemma FileOf.eq {value value' : RemoteDigest × Bool} (h : FileOf codec ws path value)
    (h' : FileOf codec ws path value') : value = value' := by
  obtain ⟨data, hdata, hdigest, hmode⟩ := h
  obtain ⟨data', hdata', hdigest', hmode'⟩ := h'
  cases hdata.symm.trans hdata'
  exact Prod.ext (Option.some.inj (hdigest.symm.trans hdigest')) (hmode.symm.trans hmode')

lemma LinkOf.eq {target target' : Text} (h : LinkOf ws path target)
    (h' : LinkOf ws path target') : target = target' := by
  exact utf8Encode_injective (DiskNode.link.inj (Option.some.inj (h.symm.trans h')))

lemma node_emptyState (p : List Text) : node emptyState.nodes p = .default := by
  rw [emptyState, node_insert]
  split <;> rfl

lemma get_emptyState (p : List Text) : emptyState.nodes.get p ≠ none ↔ p = [] := by
  rw [emptyState, get_insert]
  split
  case isTrue h => simp [h]
  case isFalse h => simp [h]

lemma filled_empty : Filled codec ws (fun _ => False) (fun _ => False) emptyState where
  ok :=
    { root := (get_emptyState []).mpr rfl
      children := fun p name => by
        rw [node_emptyState, get_emptyState]
        simp [DirNode.default] }
  dirs p := by
    rw [get_emptyState]
    simp [Covered]
  files p name value := by
    rw [node_emptyState]
    simp [DirNode.default]
  symlinks p name target := by
    rw [node_emptyState]
    simp [DirNode.default]
  kinds q hq := hq.elim
  hashed q data hq := hq.elim
  blobs :=
    { sound := fun key entry h => by cases h
      complete := fun bytes h => by cases h }

/-! ## Adding one entry -/

variable {relative : Place}

lemma fileName_spec (h : fileName relative = .ok name) :
    relative = relative.dropLast ++ [utf8Encode name] := by
  unfold fileName at h
  split at h
  case h_2 => cases h
  case h_1 found hfound =>
    cases h
    obtain ⟨last, hlast, hname⟩ := Option.bind_eq_some_iff.mp hfound
    obtain ⟨above, rfl⟩ := List.getLast?_eq_some_iff.mp hlast
    rw [List.dropLast_concat, fromUtf8_eq_some.mp hname]

lemma filterMap_fromUtf8_place (path : List Text) : (place path).filterMap fromUtf8 = path := by
  induction path with
  | nil => rfl
  | cons name path ih =>
    have hname : fromUtf8 (utf8Encode name) = some name := fromUtf8_eq_some.mpr rfl
    rw [place, List.map_cons, List.filterMap_cons_some hname]
    exact congrArg _ ih

variable {A S : List Text → Prop} {above : List Text}

lemma covered_add (p : List Text) : Covered ws (fun q => A q ∨ q = path) S p ↔
      Covered ws A S p ∨ (p <+: path ∧ (p ≠ path ∨ DirOf ws path)) := by
  simp only [Covered, or_and_right, exists_or, exists_eq_left]
  rw [or_assoc, or_assoc, or_assoc, or_comm (a := _ ∧ (p ≠ path ∨ _))]

lemma covered_leaf (hleaf : ¬DirOf ws (above ++ [name])) (p : List Text) :
    Covered ws (fun q => A q ∨ q = above ++ [name]) S p ↔
      Covered ws A S p ∨ ([] <+: p ∧ p <+: above) := by
  rw [covered_add]
  refine or_congr_right ⟨fun hp => ⟨List.nil_prefix, ?_⟩, fun hp => ?_⟩
  · exact (List.prefix_concat_iff.mp hp.1).resolve_left (hp.2.resolve_right hleaf)
  · refine ⟨hp.2.trans (List.prefix_append _ _), .inl ?_⟩
    rintro rfl
    have hlength := hp.2.length_le
    rw [List.length_append, List.length_singleton] at hlength
    omega

/-- What is added as an entry of one kind is none of another. -/
lemma added_iff {P : Prop} {q : List Text} (hnot : q = path → ¬P) :
    A q ∧ P ↔ (A q ∨ q = path) ∧ P := by
  refine and_congr_left fun hP => ⟨Or.inl, ?_⟩
  rintro (hA | heq)
  · exact hA
  · exact absurd hP (hnot heq)

lemma leaf_iff {β : Type} {Of : List Text → β → Prop} {q : List Text} {old : Option β}
    {value other : β} (hof : Of path value) (hunique : ∀ v, Of path v → value = v)
    (hold : old = some other ↔ A q ∧ Of q other) :
    (if q = path then some value else old) = some other ↔ (A q ∨ q = path) ∧ Of q other := by
  split
  case isTrue heq =>
    rw [heq]
    exact ⟨fun h => ⟨.inr rfl, Option.some.inj h ▸ hof⟩, fun h => congrArg some (hunique other h.2)⟩
  case isFalse hne =>
    rw [hold]
    exact added_iff fun heq => absurd heq hne

variable {state : TreeState}

section

variable (h : Filled codec ws A S state)
include h

lemma Filled.addSetUp (hnodes : Ensured state.nodes nodes [] path) :
    Filled codec ws A (fun q => S q ∨ q = path) { state with nodes := nodes } where
  ok := hnodes.ok
  dirs p := by
    rw [hnodes.get p, h.dirs p]
    simp only [Covered, List.nil_prefix, true_and, or_and_right, exists_or, exists_eq_left,
      or_assoc]
  files p name value := by rw [hnodes.files p, h.files p name value]
  symlinks p name target := by rw [hnodes.symlinks p, h.symlinks p name target]
  kinds := h.kinds
  hashed := h.hashed
  blobs := h.blobs

lemma Filled.addDir (hdir : DirOf ws path) (hnodes : Ensured state.nodes nodes [] path) :
    Filled codec ws (fun q => A q ∨ q = path) S { state with nodes := nodes } where
  ok := hnodes.ok
  dirs p := by
    rw [hnodes.get p, h.dirs p, covered_add]
    simp [hdir]
  files p name value := by
    rw [hnodes.files p, h.files p name value]
    obtain ⟨data, hdata⟩ := hdir
    refine added_iff fun heq ⟨data', hdata', _⟩ => ?_
    cases hdata.symm.trans (heq ▸ hdata')
  symlinks p name target := by
    rw [hnodes.symlinks p, h.symlinks p name target]
    obtain ⟨data, hdata⟩ := hdir
    refine added_iff fun heq hlink => ?_
    cases hdata.symm.trans (heq ▸ hlink)
  kinds q hq := by
    rcases hq with hq | rfl
    · exact h.kinds q hq
    · exact .inl hdir
  hashed q data hq hdata := by
    rcases hq with hq | rfl
    · exact h.hashed q data hq hdata
    · obtain ⟨data', hdata'⟩ := hdir
      cases hdata.symm.trans hdata'
  blobs := h.blobs

lemma Filled.dirs_leaf (hleaf : ¬DirOf ws (above ++ [name]))
    (hnodes : Ensured state.nodes nodes [] above) (new : DirNode) (p : List Text) :
    (nodes.insert above new).get p ≠ none ↔
      Covered ws (fun q => A q ∨ q = above ++ [name]) S p := by
  rw [get_insert_ne_none hnodes.last, hnodes.get p, h.dirs p, covered_leaf hleaf]

lemma Filled.addLink {target : Text}
    (hlink : LinkOf ws (above ++ [name]) target) (hnodes : Ensured state.nodes nodes [] above) :
    Filled codec ws (fun q => A q ∨ q = above ++ [name]) S
      { state with nodes := addSymlink nodes above name target } where
  ok := hnodes.ok.insert hnodes.last rfl
  dirs := h.dirs_leaf (fun ⟨_, hdata⟩ => by cases hdata.symm.trans hlink) hnodes _
  files p other value := by
    rw [files_addSymlink, hnodes.files p, h.files p other value]
    refine added_iff fun heq ⟨data, hdata, _⟩ => ?_
    cases hlink.symm.trans (heq ▸ hdata)
  symlinks p other text := by
    rw [addSymlink, get_proj_insert DirNode.symlinks rfl, hnodes.symlinks p]
    exact leaf_iff hlink (fun _ => hlink.eq) (h.symlinks p other text)
  kinds q hq := by
    rcases hq with hq | rfl
    · exact h.kinds q hq
    · exact .inr (.inr ⟨target, hlink⟩)
  hashed q data hq hdata := by
    rcases hq with hq | rfl
    · exact h.hashed q data hq hdata
    · cases hdata.symm.trans hlink
  blobs := h.blobs

lemma Filled.addFile (hrooted : Rooted ws)
    {data : FileData} (hdata : ws.get (place (above ++ [name])) = some (.file data))
    (hdigest : digestOf codec data.content = some digest)
    (hnodes : Ensured state.nodes nodes [] above) :
    Filled codec ws (fun q => A q ∨ q = above ++ [name]) S
      { nodes := addFile nodes above name (digest, executable data.mode)
        blobs := insertBlob state.blobs digest (.file (place (above ++ [name])))
        hashed := state.hashed ++ [data.content] } where
  ok := hnodes.ok.insert hnodes.last rfl
  dirs := h.dirs_leaf (fun ⟨_, hdir⟩ => by cases hdir.symm.trans hdata) hnodes _
  files p other value := by
    have hfile : FileOf codec ws (above ++ [name]) (digest, executable data.mode) :=
      ⟨data, hdata, hdigest, rfl⟩
    rw [Remote.addFile, get_proj_insert DirNode.files rfl, hnodes.files p]
    exact leaf_iff hfile (fun _ => hfile.eq) (h.files p other value)
  symlinks p other target := by
    rw [symlinks_addFile, hnodes.symlinks p, h.symlinks p other target]
    refine added_iff fun heq hlink => ?_
    cases hdata.symm.trans (heq ▸ hlink)
  kinds q hq := by
    rcases hq with hq | rfl
    · exact h.kinds q hq
    · exact .inr (.inl ⟨(digest, executable data.mode), data, hdata, hdigest, rfl⟩)
  hashed q data' hq hdata' := by
    rcases hq with hq | rfl
    · exact List.mem_append_left _ (h.hashed q data' hq hdata')
    · cases hdata.symm.trans hdata'
      simp
  blobs := by
    refine h.blobs.insert hdigest ?_
    simp only [blobContent, (metadataBeneath_eq_ok hrooted).mpr hdata]

end

lemma Filled.addEntry (hrooted : Rooted ws) {state' : TreeState} (h : Filled codec ws A S state)
    {roots : List Place} (hadd : addEntry codec ws roots state relative = .ok state') :
    ∃ path, relative = place path ∧ Filled codec ws (fun q => A q ∨ q = path) S state' := by
  obtain ⟨found, hfound, hadd⟩ := bind_eq_ok.mp hadd
  have hget := (metadataBeneath_eq_ok hrooted).mp (eq_ok_of_mapError hfound)
  cases found with
  | dir data =>
    obtain ⟨nodes, hnodes, hstate⟩ := bind_eq_ok.mp hadd
    cases hstate
    obtain ⟨path, rfl, hensured⟩ := ensurePlace_spec hnodes h.ok
    exact ⟨path, rfl, h.addDir ⟨data, hget⟩ hensured⟩
  | link target =>
    obtain ⟨nodes, hnodes, hadd⟩ := bind_eq_ok.mp hadd
    obtain ⟨name, hname, hadd⟩ := bind_eq_ok.mp hadd
    obtain ⟨nodes', hnodes', hstate⟩ := bind_eq_ok.mp hadd
    cases hstate
    obtain ⟨above, habove, hensured⟩ := ensurePlace_spec hnodes h.ok
    have hrelative : relative = place (above ++ [name]) := by
      rw [fileName_spec hname, habove, place_append]
      rfl
    unfold addLinkEntry at hnodes'
    split at hnodes'
    case isFalse => cases hnodes'
    case isTrue =>
      split at hnodes'
      case h_1 => cases hnodes'
      case h_2 text htext =>
        cases hnodes'
        rw [fromUtf8_eq_some.mp htext, hrelative] at hget
        rw [parentTexts, habove, filterMap_fromUtf8_place]
        exact ⟨above ++ [name], hrelative, h.addLink hget hensured⟩
  | file data =>
    obtain ⟨nodes, hnodes, hadd⟩ := bind_eq_ok.mp hadd
    obtain ⟨name, hname, hadd⟩ := bind_eq_ok.mp hadd
    obtain ⟨above, habove, hensured⟩ := ensurePlace_spec hnodes h.ok
    have hrelative : relative = place (above ++ [name]) := by
      rw [fileName_spec hname, habove, place_append]
      rfl
    unfold addFileEntry at hadd
    split at hadd
    case h_1 => cases hadd
    case h_2 digest hdigest =>
      cases hadd
      rw [parentTexts, habove, filterMap_fromUtf8_place]
      subst hrelative
      exact ⟨above ++ [name], rfl, h.addFile hrooted hget hdigest hensured⟩
  | special =>
    obtain ⟨nodes, -, hadd⟩ := bind_eq_ok.mp hadd
    obtain ⟨name, -, hadd⟩ := bind_eq_ok.mp hadd
    cases hadd

end filled

end OnceBuild.Remote
