import OnceBuild.Core.HostDisk
import OnceBuild.Lib.Beneath
import OnceBuild.Lib.DiskDirs
import OnceBuild.Lib.Words

/-!
# The plan of a remote action's inputs

The plan lists every path at or below a declared input.  It is made beneath the open workspace, so
that no link is followed, and within limits on the number of paths and on the size that an archive
of them would have.  Places count from the workspace.
-/

namespace OnceBuild.Remote

open Lib List
open Lib.Fallible (change inspect failIf)
open OnceBuild.Core (Place Disk Node WorkspacePath names)

def provider : String := "tuist"

structure RemoteIoLimits where
  maxArchiveBytes : Nat
  maxArchiveEntries : Nat
  maxMetadataBytes : Nat
  deriving DecidableEq

inductive RemoteError where
  | fileAction (action : String) (path : Place) (source : Errno)
  | executorResourceLimit (executor resource : String) (limit : Nat)
  | remoteProviderApi (provider message : String)
  deriving DecidableEq

/-! ## Texts of paths -/

def relativeText (p : Place) : OsPath := [slash].intercalate p

/-- `PathBuf::join` with a name. -/
def joinText (base name : OsPath) : OsPath :=
  if base = [] then name
  else if base.getLast? = some slash then base ++ name
  else base ++ slash :: name

/-- `WorkspacePath::resolve`, as a text. -/
def resolveText (workspace : OsPath) (p : WorkspacePath) : OsPath :=
  if p.1 = [] then workspace else joinText workspace (relativeText (names p))

/-! ## Planning -/

structure InputPlan where
  entries : List (Place × OsPath)
  declaredRoots : List Place
  archiveBytes : Nat
  metadataBytes : Nat

namespace InputPlan

def keys (plan : InputPlan) : List Place := plan.entries.map Prod.fst

def empty : InputPlan where
  entries := []
  declaredRoots := []
  archiveBytes := 1024
  metadataBytes := 0

abbrev Planning := Fallible InputPlan RemoteError

/-- `check_size` of something the plan counts. -/
def checkSize (size : InputPlan → Nat) (limit : Nat) (resource : String) : Planning Unit :=
  inspect fun plan =>
    if limit < size plan then .error (.executorResourceLimit provider resource limit) else .ok ()

/-- Bytes in blocks of 512. -/
def padded (bytes : Nat) : Nat := saturatingMul ((bytes + 511) / 512) 512

def linkBytes : Node → Nat
  | .link text => text.length
  | _ => 0

def dataBytes : Node → Nat
  | .file data => data.content.length
  | _ => 0

def countMetadata (bytes more : Nat) : Planning Unit :=
  change fun plan =>
    { plan with metadataBytes := saturatingAdd (saturatingAdd plan.metadataBytes bytes) more }

/-- The root of the workspace takes no room in an archive. -/
def countArchive (limits : RemoteIoLimits) (relative : Place) (node : Node) : Planning Unit :=
  if relative = [] then pure ()
  else do
    change fun plan =>
      { plan with
        archiveBytes := saturatingAdd (saturatingAdd (saturatingAdd
          (saturatingAdd plan.archiveBytes 1536) (padded (dataBytes node)))
          (padded (saturatingAdd (relativeText relative).length 1)))
          (padded (saturatingAdd (linkBytes node) 1)) }
    checkSize archiveBytes limits.maxArchiveBytes "archive bytes"

def noteEntry (limits : RemoteIoLimits) (source : OsPath) (relative : Place) (node : Node) :
    Planning Unit := do
  checkSize (fun plan => saturatingAdd plan.entries.length 1) limits.maxArchiveEntries
    "archive entries"
  countMetadata source.length (saturatingAdd (relativeText relative).length 256)
  checkSize metadataBytes limits.maxMetadataBytes "archive metadata bytes"
  countArchive limits relative node
  change fun plan => { plan with entries := plan.entries ++ [(relative, source)] }

/-- `InputPlan::collect_entry`; `depth` bounds how far below a directory the walk goes. -/
def collectEntry (ws : Disk) (limits : RemoteIoLimits) : Nat → OsPath → Place → Planning Unit
  | 0, _, relative => throw (.fileAction "read_remote_input" relative .nameTooLong)
  | depth + 1, source, relative => do
      if ← inspect fun plan : InputPlan => .ok (decide (relative ∈ plan.keys)) then pure ()
      else do
        let node ← inspect fun _ => (metadataBeneath ws relative).mapError
          (.fileAction "read_remote_input" relative)
        noteEntry limits source relative node
        if node.isDir then
          (ws.children relative).forM fun child =>
            collectEntry ws limits depth (joinText source child) (relative ++ [child])
        else pure ()

/-- One input of `InputPlan::collect`. -/
def collectInput (ws : Disk) (workspace : OsPath) (limits : RemoteIoLimits) (depth : Nat)
    (input : WorkspacePath) : Planning Unit := do
  countMetadata (relativeText (names input)).length 64
  checkSize metadataBytes limits.maxMetadataBytes "archive metadata bytes"
  change fun plan => { plan with declaredRoots := plan.declaredRoots ++ [names input] }
  collectEntry ws limits depth (resolveText workspace input) (names input)

def height (ws : Disk) : Nat := longest ws.places

def collectInputs (ws : Disk) (workspace : OsPath) (limits : RemoteIoLimits)
    (inputs : List WorkspacePath) : Planning Unit := do
  checkSize archiveBytes limits.maxArchiveBytes "archive bytes"
  inputs.forM (collectInput ws workspace limits (height ws + 1))

/-- `InputPlan::collect`: the plan, or why there is none. -/
def collect (ws : Disk) (workspace : OsPath) (limits : RemoteIoLimits)
    (inputs : List WorkspacePath) : Except RemoteError InputPlan :=
  match Fallible.exec (collectInputs ws workspace limits inputs) empty with
  | (.ok _, plan) => .ok plan
  | (.error error, _) => .error error

/-! ## The walk ends -/

lemma children_of_height {ws : Disk} {p : Place} (h : height ws ≤ p.length) :
    ws.children p = [] := by
  refine eq_nil_iff_forall_not_mem.mpr fun child hchild => ?_
  have hlength : _ ≤ height ws := length_le_longest (ws.mem_places _ (Disk.mem_children.mp hchild))
  rw [length_append, length_singleton] at hlength
  omega

/-- Nothing lies deeper than the longest path, so that a greater bound changes nothing. -/
lemma collectEntry_enough (ws : Disk) (limits : RemoteIoLimits) (more : Nat) {depth : Nat}
    {source : OsPath} {relative : Place} (h : height ws ≤ relative.length + depth) :
    collectEntry ws limits (depth + 1 + more) source relative =
      collectEntry ws limits (depth + 1) source relative := by
  induction depth generalizing source relative with
  | zero =>
    rw [Nat.add_comm]
    simp only [collectEntry, children_of_height h]
    rfl
  | succ depth ih =>
    have hchild : ∀ (text child : OsPath),
        collectEntry ws limits (depth + 1 + more) text (relative ++ [child]) =
          collectEntry ws limits (depth + 1) text (relative ++ [child]) := by
      intro text child
      refine ih ?_
      rw [length_append, length_singleton]
      omega
    rw [Nat.add_right_comm, collectEntry, collectEntry]
    simp only [hchild]

/-! ## What a plan lists -/

section entries

open Lib.Fallible

variable {ws : Disk} {limits : RemoteIoLimits}

def Lists (K : Place → Prop) (plan : InputPlan) : Prop := ∀ q, q ∈ plan.keys ↔ K q

variable {K : Place → Prop}

lemma ensures_checkSize (size : InputPlan → Nat) (limit : Nat) (resource : String) :
    Ensures (Lists K) (checkSize size limit resource) (fun _ => Lists K) fun _ => True :=
  ensures_inspect (fun _ _ h _ => h) fun _ _ _ _ => trivial

lemma ensures_countMetadata (bytes more : Nat) :
    Ensures (Lists K) (countMetadata bytes more) (fun _ => Lists K) fun _ => True :=
  ensures_change fun _ h => h

lemma ensures_countArchive (relative : Place) (node : Node) :
    Ensures (Lists K) (countArchive limits relative node) (fun _ => Lists K) fun _ => True :=
  ensures_ite (fun _ => ensures_pure fun _ h => h) fun _ =>
    ensures_bind (ensures_change fun _ h => h) fun _ => ensures_checkSize _ _ _

lemma ensures_noteEntry (source : OsPath) (relative : Place) (node : Node) :
    Ensures (Lists K) (noteEntry limits source relative node)
      (fun _ => Lists fun q => K q ∨ q = relative) fun _ => True := by
  refine ensures_bind (ensures_checkSize _ _ _) fun _ => ?_
  refine ensures_bind (ensures_countMetadata _ _) fun _ => ?_
  refine ensures_bind (ensures_checkSize _ _ _) fun _ => ?_
  refine ensures_bind (ensures_countArchive relative node) fun _ =>
    ensures_change fun plan h q => ?_
  change q ∈ keys _ ↔ K q ∨ q = relative
  rw [← h q]
  simp [keys]

def Below (ws : Disk) (root q : Place) : Prop := root <+: q ∧ ws.get q ≠ none

lemma below_iff (hrooted : Rooted ws) {root : Place} (hroot : ws.get root ≠ none) (q : Place) :
    Below ws root q ↔ q = root ∨ ∃ child ∈ ws.children root, Below ws (root ++ [child]) q := by
  constructor
  · rintro ⟨⟨rest, rfl⟩, hq⟩
    cases rest with
    | nil => exact .inl (append_nil _)
    | cons child rest =>
      have hsplit : root ++ child :: rest = root ++ [child] ++ rest := by simp
      have hchild : root ++ [child] <+: root ++ child :: rest := hsplit ▸ prefix_append _ _
      refine .inr ⟨child, Disk.mem_children.mpr ?_, hchild, hq⟩
      exact hrooted.exists_of_isPrefix hq hchild
  · rintro (rfl | ⟨child, _, hchild, hq⟩)
    · exact ⟨prefix_rfl, hroot⟩
    · exact ⟨(prefix_append _ _).trans hchild, hq⟩

lemma closed_child {relative : Place} {done rest : List OsPath} {child : OsPath}
    (hclosed : ∀ p q, relative <+: p → K p → Below ws p q → K q)
    (hnodup : (done ++ child :: rest).Nodup) :
    ∀ p q, relative ++ [child] <+: p →
      ((K p ∨ p = relative) ∨ ∃ c ∈ done, Below ws (relative ++ [c]) p) → Below ws p q →
      (K q ∨ q = relative) ∨ ∃ c ∈ done, Below ws (relative ++ [c]) q := by
  rintro p q hp ((hK | rfl) | ⟨c, hc, hbelow⟩) hq
  · exact .inl (.inl (hclosed p q ((prefix_append _ _).trans hp) hK hq))
  · have hlength := hp.length_le
    rw [length_append, length_singleton] at hlength
    omega
  · -- two entries of one directory have nothing below them in common
    have heq : relative ++ [c] = relative ++ [child] :=
      IsPrefix.eq_of_length (prefix_of_prefix_length_le hbelow.1 hp (by simp)) (by simp)
    have hsame : c = child := singleton_inj.mp (append_cancel_left heq)
    exact absurd hc (hsame ▸ (nodup_middle.mp hnodup).notMem ∘ mem_append_left rest)

/-- A plan that has, of everything below a path, either all that is below a listed place or nothing
gets all of it. -/
lemma ensures_collectEntry (hrooted : Rooted ws) (depth : Nat) (source : OsPath)
    (relative : Place) (hclosed : ∀ p q, relative <+: p → K p → Below ws p q → K q) :
    Ensures (Lists K) (collectEntry ws limits depth source relative)
      (fun _ => Lists fun q => K q ∨ Below ws relative q) fun _ => True := by
  induction depth generalizing source relative K with
  | zero => exact ensures_throw fun _ _ => trivial
  | succ depth ih =>
    refine ensures_bind (R := fun has plan => Lists K plan ∧ (has = true ↔ K relative))
      (ensures_inspect (fun plan has hplan heq => ⟨hplan, ?_⟩) fun _ _ _ _ => trivial) fun has => ?_
    · cases heq
      rw [decide_eq_true_iff]
      exact hplan relative
    refine ensures_of_fact fun hhas => ensures_ite (fun hlisted => ?_) fun _ => ?_
    · -- a listed path was collected with everything below it
      refine ensures_pure fun plan hplan q => (hplan q).trans ⟨Or.inl, ?_⟩
      rintro (hq | hq)
      · exact hq
      · exact hclosed relative q prefix_rfl (hhas.mp hlisted) hq
    · refine ensures_bind (R := fun node plan => Lists K plan ∧ ws.get relative = some node)
        (ensures_inspect (fun plan node hplan heq => ⟨hplan, ?_⟩) fun _ _ _ _ => trivial)
        fun node => ?_
      · exact (metadataBeneath_eq_ok hrooted).mp (eq_ok_of_mapError heq)
      refine ensures_of_fact fun hnode => ?_
      have hget : ws.get relative ≠ none := hnode ▸ Option.some_ne_none _
      refine ensures_bind (ensures_noteEntry source relative node) fun _ => ?_
      refine ensures_ite (fun _ => ?_) fun hfile => ?_
      · refine (ensures_forM_upTo (fun done => Lists fun q => (K q ∨ q = relative) ∨
            ∃ child ∈ done, Below ws (relative ++ [child]) q) fun done child rest hsplit => ?_).mono
          (fun plan hplan q => ?_) (fun _ plan hplan q => ?_) fun _ h => h
        · refine (ih (joinText source child) (relative ++ [child]) ?_).mono (fun _ h => h)
            (fun _ plan hplan q => (hplan q).trans ?_) fun _ h => h
          · exact closed_child hclosed (hsplit ▸ ws.nodup_children relative)
          · simp only [mem_append, mem_singleton, or_assoc, or_and_right, exists_or, exists_eq_left]
        · rw [hplan q]
          simp
        · refine (hplan q).trans ?_
          dsimp only
          rw [below_iff hrooted hget q, or_assoc]
      · refine ensures_pure fun plan hplan q => (hplan q).trans (or_congr Iff.rfl ?_)
        rw [below_iff hrooted hget q]
        refine ⟨Or.inl, Or.rec id ?_⟩
        rintro ⟨child, hchild, -⟩
        obtain ⟨data, hdata⟩ := hrooted.parent relative child (Disk.mem_children.mp hchild)
        rw [hnode] at hdata
        cases hdata
        exact absurd rfl hfile

lemma ensures_collectInput (hrooted : Rooted ws) {workspace : OsPath} {depth : Nat}
    {done : List WorkspacePath} (input : WorkspacePath) :
    Ensures (Lists fun q => ∃ i ∈ done, Below ws (names i) q)
      (collectInput ws workspace limits depth input)
      (fun _ => Lists fun q => ∃ i ∈ done ++ [input], Below ws (names i) q) fun _ => True := by
  refine ensures_bind (ensures_countMetadata _ _) fun _ => ?_
  refine ensures_bind (ensures_checkSize _ _ _) fun _ => ?_
  refine ensures_bind (R := fun _ => Lists fun q => ∃ i ∈ done, Below ws (names i) q)
    (ensures_change fun _ h => h) fun _ => ?_
  refine (ensures_collectEntry hrooted depth _ (names input) ?_).mono (fun _ h => h)
    (fun _ plan hplan q => (hplan q).trans ?_) fun _ h => h
  · rintro p q - ⟨i, hi, hbelow⟩ hq
    exact ⟨i, hi, hbelow.1.trans hq.1, hq.2⟩
  · simp only [mem_append, mem_singleton, or_and_right, exists_or, exists_eq_left]

lemma mem_keys_collect (hrooted : Rooted ws) {workspace : OsPath}
    {inputs : List WorkspacePath} {plan : InputPlan}
    (h : collect ws workspace limits inputs = .ok plan) (q : Place) :
    q ∈ plan.keys ↔ ∃ input ∈ inputs, Below ws (names input) q := by
  have hrun : Ensures (Lists fun _ => False) (collectInputs ws workspace limits inputs)
      (fun _ => Lists fun q => ∃ input ∈ inputs, Below ws (names input) q) fun _ => True := by
    refine ensures_bind (ensures_checkSize _ _ _) fun _ => ?_
    refine (ensures_forM_upTo (fun done => Lists fun q => ∃ i ∈ done, Below ws (names i) q)
      fun done input rest _ => ensures_collectInput hrooted input).mono (fun plan hplan q => ?_)
      (fun _ _ h => h) fun _ h => h
    simpa using hplan q
  have hempty : Lists (fun _ => False) empty := fun q => iff_of_false not_mem_nil id
  unfold collect at h
  split at h
  case h_1 _ plan' hexec =>
    cases h
    exact (hrun empty hempty).1 _ _ hexec q
  case h_2 => cases h

end entries

end InputPlan

end OnceBuild.Remote
