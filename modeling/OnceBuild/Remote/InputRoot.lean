import OnceBuild.Remote.DeclaredTree

/-!
# The input root is the declared tree

The directories are encoded children first.  Every digest is that of an encoded message which the
blob map has, so that unfolding the root gives back the map of directories and hence the declared
tree; and two roots are equal exactly when the trees are.
-/

namespace OnceBuild.Remote

open Lib List Function
open OnceBuild.Core (Place Disk WorkspacePath)
open Cas (Bytes)
open Tuist (RemoteDigest digestKey)

/-! ## Children first -/

section order

variable {nodes : Nodes}

lemma mem_deepestFirst (p : List Text) : p ∈ deepestFirst nodes ↔ nodes.get p ≠ none := by
  rw [deepestFirst, mem_insertionSort, SortedMap.mem_keys_iff]

lemma pairwise_deepestFirst : (deepestFirst nodes).Pairwise fun a b => b.length ≤ a.length := by
  exact pairwise_insertionSort _ _

lemma mem_of_deeper {done rest : List (List Text)} {p x y : List Text}
    (hsplit : deepestFirst nodes = done ++ p :: rest) (hx : x ∈ done ∨ x = p)
    (hy : nodes.get y ≠ none) (hlt : x.length < y.length) : y ∈ done := by
  have hpairwise : (deepestFirst nodes).Pairwise fun a b => b.length ≤ a.length :=
    pairwise_deepestFirst
  rw [hsplit, pairwise_append] at hpairwise
  obtain ⟨-, hrest, hcross⟩ := hpairwise
  have hmem := (mem_deepestFirst y).mpr hy
  rw [hsplit, mem_append] at hmem
  refine hmem.resolve_right fun hlater => ?_
  rcases hx with hx | rfl
  · have := hcross x hx y hlater
    omega
  · rcases mem_cons.mp hlater with rfl | hlater
    · omega
    · have := (pairwise_cons.mp hrest).1 y hlater
      omega

end order

def childNodes (dig : List Text → RemoteDigest) (p : List Text) (names : List Text) :
    List DirectoryNode :=
  names.map fun name => { name := name, digest := some (dig (p ++ [name])) }

variable {dig : List Text → RemoteDigest}

lemma takeChildren_ok {path names : List Text} (hnodup : names.Nodup)
    {digests : List Text → Option RemoteDigest}
    (h : ∀ name ∈ names, digests (path ++ [name]) = some (dig (path ++ [name]))) :
    ∃ left, takeChildren path names digests = .ok (childNodes dig path names, left) ∧
      ∀ q, (∀ name ∈ names, q ≠ path ++ [name]) → left q = digests q := by
  induction names generalizing digests with
  | nil => exact ⟨digests, rfl, fun _ _ => rfl⟩
  | cons name names ih =>
    obtain ⟨hfirst, hrest⟩ := forall_mem_cons.mp h
    obtain ⟨hnew, hnodup⟩ := nodup_cons.mp hnodup
    -- the names to come differ from the one whose digest is taken out
    have hleft : ∀ other ∈ names, update digests (path ++ [name]) none (path ++ [other]) =
          some (dig (path ++ [other])) := by
      intro other hother
      have hne : path ++ [other] ≠ path ++ [name] := fun heq =>
        hnew (singleton_inj.mp (append_cancel_left heq) ▸ hother)
      rw [update_of_ne hne]
      exact hrest other hother
    obtain ⟨left, htaken, hsame⟩ := ih hnodup hleft
    refine ⟨left, ?_, fun q hq => ?_⟩
    · simp only [takeChildren, hfirst, htaken]
      rfl
    · obtain ⟨hqfirst, hqrest⟩ := forall_mem_cons.mp hq
      rw [hsame q hqrest, update_of_ne hqfirst]

/-! ## Encoding every directory -/

section encoding

variable (codec : Codec) (ws : Disk) (nodes : Nodes)

/-- A directory is encoded with the digests of its children, and its own digest is that of the
encoded message. -/
def SealedAt (hashed : List Bytes) (dig : List Text → RemoteDigest) (p : List Text) : Prop :=
  ∃ node bytes, nodes.get p = some node ∧ clash node = none ∧ bytes ∈ hashed ∧
    codec.encode (directoryMessage node (childNodes dig p node.directories.keys)) = some bytes ∧
    digestOf codec bytes = some (dig p)

/-- What holds once the paths `done` have been encoded. -/
structure Progress (base : List Bytes) (done : List (List Text)) (e : Encoding)
    (dig : List Text → RemoteDigest) : Prop where
  sealedAt : ∀ p ∈ done, SealedAt codec nodes e.hashed dig p
  waiting : ∀ q ∈ done, (∀ p name, q = p ++ [name] → p ∉ done) → e.digests q = some (dig q)
  blobs : BlobsOk codec ws e.blobs e.hashed
  base : ∀ bytes ∈ base, bytes ∈ e.hashed

variable {codec ws nodes}

lemma SealedAt.congr {hashed hashed' : List Bytes} {dig' : List Text → RemoteDigest}
    {p : List Text} (h : SealedAt codec nodes hashed dig p) (hhashed : ∀ b ∈ hashed, b ∈ hashed')
    (hself : dig' p = dig p)
    (hchildren : ∀ name, nodes.get (p ++ [name]) ≠ none → dig' (p ++ [name]) = dig (p ++ [name]))
    (hok : NodesOk nodes) : SealedAt codec nodes hashed' dig' p := by
  obtain ⟨found, bytes, hget, hclash, hbytes, hencode, hdigest⟩ := h
  refine ⟨found, bytes, hget, hclash, hhashed bytes hbytes, ?_, hself ▸ hdigest⟩
  have hsame : childNodes dig' p found.directories.keys =
    childNodes dig p found.directories.keys := by
    refine map_congr_left fun name hname => ?_
    have hnode : node nodes p = found := by rw [node, hget, Option.getD_some]
    rw [hchildren name ((hok.children p name).mp ?_)]
    rw [hnode]
    exact (SortedMap.mem_keys_iff _).mp hname
  rw [hsame]
  exact hencode

section round

variable {base : List Bytes} {done rest : List (List Text)} {p : List Text} {e : Encoding}
  {dig : List Text → RemoteDigest} (hok : NodesOk nodes)
  (hsplit : deepestFirst nodes = done ++ p :: rest) (h : Progress codec ws nodes base done e dig)
include hsplit

lemma notMem_done : p ∉ done := by
  have hnodup : (deepestFirst nodes).Nodup :=
    (perm_insertionSort _ _).nodup_iff.mpr nodes.nodup_keys
  rw [hsplit, nodup_middle] at hnodup
  exact fun hmem => hnodup.notMem (mem_append_left _ hmem)

include hok h

lemma Progress.next {found : DirNode} {bytes : Bytes} {digest : RemoteDigest}
    {left : List Text → Option RemoteDigest} (hfound : nodes.get p = some found)
    (hclash : clash found = none)
    (hencode : codec.encode
      (directoryMessage found (childNodes dig p found.directories.keys)) = some bytes)
    (hdigest : digestOf codec bytes = some digest)
    (hleft : ∀ q, (∀ name ∈ found.directories.keys, q ≠ p ++ [name]) → left q = e.digests q) :
    Progress codec ws nodes base (done ++ [p])
      { digests := Function.update left p (some digest)
        blobs := insertBlob e.blobs digest (.bytes bytes)
        hashed := e.hashed ++ [bytes] } (Function.update dig p digest) := by
  have hnew := notMem_done hsplit
  have hself : update dig p digest p = digest := update_self ..
  have hother : ∀ q, q ≠ p → update dig p digest q = dig q :=
    fun q hq => update_of_ne hq ..
  refine ⟨fun q hq => ?_, fun q hq hfree => ?_, h.blobs.insert hdigest rfl,
    fun b hb => mem_append_left _ (h.base b hb)⟩
  · rcases mem_append.mp hq with hq | hq
    · -- what was encoded before does not look at the new digest
      refine (h.sealedAt q hq).congr (fun b hb => mem_append_left _ hb) ?_
        (fun name hname => ?_) hok
      · exact hother q fun heq => hnew (heq ▸ hq)
      · refine hother _ fun heq => hnew (heq ▸ ?_)
        exact mem_of_deeper hsplit (.inl hq) hname (by simp)
    · rw [mem_singleton.mp hq]
      refine ⟨found, bytes, hfound, hclash, by simp, ?_, hdigest.trans (congrArg some hself.symm)⟩
      rw [← hencode]
      refine congrArg (fun c => codec.encode (directoryMessage found c))
        (map_congr_left fun name _ => ?_)
      simp
  · rcases mem_append.mp hq with hq | hq
    · have hne : q ≠ p := fun heq => hnew (heq ▸ hq)
      refine (update_of_ne hne ..).trans ?_
      rw [hother q hne, hleft q fun name _ heq => hfree p name heq (by simp)]
      exact h.waiting q hq fun above name heq habove =>
        hfree above name heq (mem_append_left _ habove)
    · rw [mem_singleton.mp hq, hself]
      exact update_self ..

lemma encodeNode_step : (∃ e' dig', encodeNode codec nodes e p = .ok e' ∧
      Progress codec ws nodes base (done ++ [p]) e' dig') ∨
    ∃ error, encodeNode codec nodes e p = .error (.error error) := by
  have hp : nodes.get p ≠ none := (mem_deepestFirst p).mp (hsplit ▸ by simp)
  obtain ⟨found, hfound⟩ := Option.ne_none_iff_exists'.mp hp
  cases hclash : clash found with
  | some name =>
    simp only [encodeNode, hfound, hclash]
    exact .inr ⟨_, rfl⟩
  | none =>
    -- the children are encoded and nobody has taken their digests
    have hready : ∀ name ∈ found.directories.keys,
        e.digests (p ++ [name]) = some (dig (p ++ [name])) := by
      intro name hname
      have hchild : nodes.get (p ++ [name]) ≠ none := by
        refine (hok.children p name).mp ?_
        rw [node, hfound]
        exact (SortedMap.mem_keys_iff _).mp hname
      refine h.waiting _ (mem_of_deeper hsplit (.inr rfl) hchild (by simp)) ?_
      intro above other heq habove
      exact notMem_done hsplit (append_inj_left' heq rfl ▸ habove)
    obtain ⟨left, htaken, hleft⟩ := takeChildren_ok found.directories.nodup_keys hready
    have hrun : encodeNode codec nodes e p =
        sealDirectory codec p (directoryMessage found (childNodes dig p found.directories.keys))
          { e with digests := left } := by
      simp only [encodeNode, hfound, hclash, htaken]
      rfl
    rw [hrun]
    cases hencode : codec.encode
        (directoryMessage found (childNodes dig p found.directories.keys)) with
    | none =>
      simp only [sealDirectory, hencode]
      exact .inr ⟨_, rfl⟩
    | some bytes =>
      obtain ⟨digest, hdigest⟩ : ∃ digest, digestOf codec bytes = some digest := by
        rw [digestOf, dif_pos (codec.encode_bounded _ bytes hencode)]
        exact ⟨_, rfl⟩
      refine .inl ⟨_, _, ?_, h.next hok hsplit hfound hclash hencode hdigest hleft⟩
      simp only [sealDirectory, hencode, hdigest]

end round

lemma encodeAll (hok : NodesOk nodes) {base : List Bytes} {done rest : List (List Text)}
    {e : Encoding} (hsplit : deepestFirst nodes = done ++ rest)
    (h : Progress codec ws nodes base done e dig) :
    (∃ e' dig', rest.foldlM (encodeNode codec nodes) e = .ok e' ∧
      Progress codec ws nodes base (deepestFirst nodes) e' dig') ∨
    ∃ error, rest.foldlM (encodeNode codec nodes) e = .error (.error error) := by
  induction rest generalizing done e dig with
  | nil =>
    rw [append_nil] at hsplit
    exact .inl ⟨e, dig, rfl, hsplit ▸ h⟩
  | cons p rest ih =>
    rw [foldlM_cons]
    rcases encodeNode_step hok hsplit h with ⟨e', dig', hstep, hnext⟩ | ⟨error, hstep⟩
    · rw [hstep]
      exact ih (by rw [hsplit, append_assoc, singleton_append]) hnext
    · exact .inr ⟨error, by rw [hstep]; rfl⟩

end encoding

/-! ## What a build leaves -/

/-- A tree that was built: the map of directories it was made from, and the digest of each. -/
structure Built (codec : Codec) (ws : Disk) (layout : Layout) (tree : InputTree) (state : TreeState)
    (dig : List Text → RemoteDigest) : Prop where
  collected : Collected codec ws layout state
  root : tree.root = dig []
  sealedAt : ∀ p, state.nodes.get p ≠ none → SealedAt codec state.nodes tree.hashed dig p
  blobs : BlobsOk codec ws tree.blobs tree.hashed
  hashed : ∀ bytes ∈ state.hashed, bytes ∈ tree.hashed

lemma build_spec {codec : Codec} {ws : Disk} {workspace : OsPath} {limits : RemoteIoLimits}
    (hrooted : Rooted ws) (layout : Layout) :
    (∃ tree state dig, build codec ws workspace limits layout = .ok tree ∧
      Built codec ws layout tree state dig) ∨
    ∃ error, build codec ws workspace limits layout = .error (.error error) := by
  unfold build
  cases hcollect : collectNodes codec ws workspace limits layout with
  | error error => exact .inr ⟨error, rfl⟩
  | ok state =>
    have hcollected := collectNodes_spec hrooted hcollect
    have hstart : Progress codec ws state.nodes state.hashed []
        { digests := fun _ => none, blobs := state.blobs, hashed := state.hashed }
        (fun _ => default) :=
      { sealedAt := fun p hp => absurd hp not_mem_nil
        waiting := fun q hq => absurd hq not_mem_nil
        blobs := hcollected.filled.blobs
        base := fun _ hb => hb }
    change (∃ tree state' dig, encodeDirectories codec state.nodes state.blobs state.hashed =
      .ok tree ∧ Built codec ws layout tree state' dig) ∨
      ∃ error, encodeDirectories codec state.nodes state.blobs state.hashed = .error (.error error)
    unfold encodeDirectories
    rcases encodeAll hcollected.filled.ok (nil_append _).symm hstart with
      ⟨e, dig, hrun, hend⟩ | ⟨error, hrun⟩
    · have hroot : e.digests [] = some (dig []) := by
        refine hend.waiting [] ((mem_deepestFirst []).mpr hcollected.filled.ok.root) ?_
        exact fun p name heq => absurd heq (by simp)
      refine .inl ⟨⟨dig [], e.blobs, e.hashed⟩, state, dig, ?_, hcollected, rfl,
        fun p hp => hend.sealedAt p ((mem_deepestFirst p).mpr hp), hend.blobs, hend.base⟩
      exact bind_eq_ok.mpr ⟨e, hrun, by simp only [hroot]⟩
    · refine .inr ⟨error, ?_⟩
      rw [hrun]
      rfl

/-! ## Unfolding the root -/

section unfolding

variable (codec : Codec) (ws : Disk) (blobs : Blobs)

def readDirectory (digest : RemoteDigest) : Option Directory :=
  (fetch codec ws blobs digest).bind codec.decode

def leafOf (message : Directory) (name : Text) : Option Entry :=
  match message.files.find? fun file => decide (file.name = name) with
  | some file => (file.digest.bind (fetch codec ws blobs)).map fun content =>
    .file content file.isExecutable
  | none => (message.symlinks.find? fun link => decide (link.name = name)).map fun link =>
    .link (utf8Encode link.target)

/-- What is at a path below the directory with a digest, as the blob map gives it. -/
def unfolded : RemoteDigest → List Text → Option Entry
  | digest, [] => (readDirectory codec ws blobs digest).map fun _ => .dir
  | digest, name :: rest =>
    match readDirectory codec ws blobs digest with
    | none => none
    | some message =>
      match message.directories.find? fun child => decide (child.name = name) with
      | some child =>
        match child.digest with
        | some digest => unfolded digest rest
        | none => none
      | none => if rest = [] then leafOf codec ws blobs message name else none

/-- The digests of the directories at and below one. -/
inductive Subdirectory (root : RemoteDigest) : RemoteDigest → Prop where
  | self : Subdirectory root root
  | child {parent child : RemoteDigest} {message : Directory} {entry : DirectoryNode} :
      Subdirectory root parent → readDirectory codec ws blobs parent = some message →
      entry ∈ message.directories → entry.digest = some child → Subdirectory root child

/-- The digests that are reached from a directory: those of directories and those of their files. -/
inductive Refers (root : RemoteDigest) : RemoteDigest → Prop where
  | directory {digest : RemoteDigest} : Subdirectory codec ws blobs root digest → Refers root digest
  | file {parent digest : RemoteDigest} {message : Directory} {entry : FileNode} :
      Subdirectory codec ws blobs root parent →
      readDirectory codec ws blobs parent = some message →
      entry ∈ message.files → entry.digest = some digest → Refers root digest

end unfolding

end OnceBuild.Remote
