import OnceBuild.Archive.ExtractZip

/-!
# How many bytes an extraction writes

A round may write as much of an entry as is left of the bound, whatever the archive declares.  What
it has written is taken off before the next round, so the files of all rounds stay within the bound,
the round that fails included.  Targets of links are not counted.
-/

namespace OnceBuild.Archive

open Lib
open Lib.Fallible

/-- `expansion_bound`, with the two limits it reads. -/
def expansionBound (declared : Option Nat) (maxArchiveBytes maxArchiveExpansionRatio : Nat) : Nat :=
  match declared with
  | none => maxArchiveBytes
  | some declared => min (min (declared * maxArchiveExpansionRatio) (2 ^ 64 - 1)) maxArchiveBytes

/-- The bytes that a round copies into a file.  A round that fails because the file cannot be
created writes none of them.  That no round puts others on the disk is `extractEntry_fills`. -/
def ZipEntry.fileBytes (entry : ZipEntry) (remaining : Nat) : Nat :=
  if entry.unixMode.getD 0 &&& fileTypeMask = symbolicLink ∨ entry.isDir = true ∨
      remaining < entry.size then 0
  else (entry.content.take remaining).length

variable (defaults : Defaults) (limits : Limits) (destination : Place) (expansion : Nat)

/-- The bytes that the rounds from a disk copy into files; the last round may be one that fails. -/
def extractedFileBytes : Nat → List (Except String ZipEntry) → Disk → Nat
  | _, [], _ => 0
  | _, .error _ :: _, _ => 0
  | remaining, .ok entry :: rest, d =>
    entry.fileBytes remaining +
      match exec (extractEntry defaults limits destination expansion remaining entry) d with
      | (.ok left, d') => extractedFileBytes left rest d'
      | (.error _, _) => 0

variable {defaults limits destination expansion} {remaining : Nat} {entry : ZipEntry}

lemma ZipEntry.fileBytes_le (entry : ZipEntry) (remaining : Nat) :
    entry.fileBytes remaining ≤ remaining := by
  unfold ZipEntry.fileBytes
  split
  · exact Nat.zero_le _
  · rw [List.length_take]
    exact Nat.min_le_left _ _

lemma ZipEntry.fileBytes_of_file (entry : ZipEntry)
    (hlink : ¬entry.unixMode.getD 0 &&& fileTypeMask = symbolicLink) (hdir : ¬entry.isDir = true)
    (hsize : ¬remaining < entry.size) :
    entry.fileBytes remaining = (entry.content.take remaining).length :=
  if_neg fun h => h.elim hlink fun h => h.elim hdir hsize

lemma ensures_any {α : Type} (m : Extract α) :
    Ensures (fun _ => True) m (fun _ _ => True) fun _ => True :=
  fun _ _ => ⟨fun _ _ _ => trivial, fun _ _ _ => trivial⟩

lemma extractBoundedFile_written (entry : ZipEntry) (output : Place) (unixMode remaining : Nat) :
    Ensures (fun _ => True) (extractBoundedFile defaults entry output unixMode remaining)
      (fun written _ => ∀ n ∈ written, n = (entry.content.take remaining).length)
      fun _ => True := by
  refine ensures_bind (R := fun written _ => written = (entry.content.take remaining).length) ?_
    fun written => ?_
  · refine ensures_failIf (fun _ _ => trivial) fun _ => ?_
    refine ensures_bind (ensures_any _) fun _ => ensures_bind (ensures_any _) fun _ => ?_
    refine ensures_failIf (fun _ _ => trivial) fun _ => ?_
    refine ensures_ite (fun _ => ensures_pure fun _ _ => rfl) fun _ => ?_
    exact ensures_bind (ensures_any _) fun _ => ensures_pure fun _ _ => rfl
  · refine ensures_failIf (fun _ _ => trivial) fun _ => ensures_pure fun _ hwritten n hn => ?_
    split at hn
    · cases hn
    · exact (Option.some.inj hn).symm.trans hwritten

lemma extractEntry_left (remaining : Nat) (entry : ZipEntry) :
    Ensures (fun _ => True) (extractEntry defaults limits destination expansion remaining entry)
      (fun left _ => left + entry.fileBytes remaining = remaining) fun _ => True := by
  unfold extractEntry
  cases entry.enclosedName with
  | none => exact ensures_throw fun _ _ => trivial
  | some path =>
    refine ensures_failIf (fun _ _ => trivial) fun _ => ?_
    refine ensures_failIf (fun _ _ => trivial) fun _ => ?_
    refine ensures_bind (ensures_any _) fun _ => ?_
    refine ensures_failIf (fun _ _ => trivial) fun _ => ?_
    unfold writeEntry
    refine ensures_ite (fun hlink => ?_) fun hlink => ensures_ite (fun hdir => ?_) fun hdir => ?_
    · rw [ZipEntry.fileBytes, if_pos (Or.inl hlink)]
      exact ensures_bind (ensures_any _) fun _ => ensures_bind (ensures_any _) fun _ =>
        ensures_pure fun _ _ => rfl
    · rw [ZipEntry.fileBytes, if_pos (Or.inr (Or.inl hdir))]
      exact ensures_bind (ensures_any _) fun _ => ensures_pure fun _ _ => rfl
    · refine ensures_failIf (fun _ _ => trivial) fun hsize => ?_
      rw [entry.fileBytes_of_file hlink hdir (of_decide_eq_false hsize)]
      refine ensures_bind (extractBoundedFile_written entry _ _ remaining) fun written => ?_
      cases written with
      | none => exact ensures_throw fun _ _ => trivial
      | some n =>
        refine ensures_pure fun _ hn => ?_
        rw [hn n rfl]
        exact Nat.sub_add_cancel ((List.length_take ▸ Nat.min_le_left _ _ :
          (entry.content.take remaining).length ≤ remaining))

lemma extractedFileBytes_le (archive : List (Except String ZipEntry)) (remaining : Nat) (d : Disk) :
    extractedFileBytes defaults limits destination expansion remaining archive d ≤ remaining := by
  induction archive generalizing remaining d with
  | nil => exact Nat.zero_le _
  | cons head rest ih =>
    cases head with
    | error reason => exact Nat.zero_le _
    | ok entry =>
      have hbytes := entry.fileBytes_le remaining
      unfold extractedFileBytes
      split
      case h_1 left d' hrun =>
        have hleft := (extractEntry_left remaining entry d trivial).1 left d' hrun
        have hrest := ih left d'
        omega
      case h_2 => exact hbytes

/-! ## What a round leaves on the disk -/

/-- The bytes of a file on `d'` are those that it has on `d`, or `fresh` ones. -/
def Filled (fresh : Place → Cas.Bytes → Prop) (d d' : Disk) : Prop :=
  ∀ z data, d'.get z = some (.file data) →
    (∃ mode, d.get z = some (.file ⟨mode, data.content⟩)) ∨ fresh z data.content

/-- From `d` to `d'` one file at most got other bytes; it holds `n` of them. -/
def Fills (n : Nat) (d d' : Disk) : Prop :=
  ∃ output, Filled (fun z bytes => z = output ∧ bytes.length = n) d d'

/-- From `d` to `d'` no file got other bytes. -/
def Still (d d' : Disk) : Prop := Filled (fun _ _ => False) d d'

section Filled

variable {fresh fresh' : Place → Cas.Bytes → Prop} {d d' : Disk} {n : Nat}

lemma Filled.refl (d : Disk) : Filled fresh d d := fun _ data h => .inl ⟨data.mode, h⟩

lemma Filled.put {node : Node} {place : Place} (h : Filled fresh d d')
    (hfresh : ∀ z bytes, fresh z bytes → fresh' z bytes)
    (hnode : ∀ data, node = .file data →
      (∃ mode, d.get place = some (.file ⟨mode, data.content⟩)) ∨ fresh' place data.content) :
    Filled fresh' d (d'.put place node) := by
  intro z data hz
  rw [Disk.get_put] at hz
  split at hz
  next heq => exact heq ▸ hnode data (Option.some.inj hz)
  next => exact (h z data hz).imp_right (hfresh z _)

lemma Still.fills (h : Still d d') : Fills n d d' :=
  ⟨[], fun z data hz => (h z data hz).imp_right False.elim⟩

lemma filled_createDirAll (p : Place) : Ensures (Filled fresh d)
    (Lib.createDirAll defaults.dirMode p) (fun _ => Filled fresh d) (Filled fresh d) :=
  ensures_createDirAll fun _ _ _ _ h _ _ _ => h.put (fun _ _ hfresh => hfresh) nofun

lemma filled_setData (p : Place) (onFile : Core.FileData → Core.FileData)
    (hkeeps : ∀ data, (onFile data).content = data.content) : Ensures (Filled fresh d)
    (Lib.setData id onFile p) (fun _ => Filled fresh d) (Filled fresh d) := by
  refine ensures_callAt (fun d' place effect h _ hact => ?_) fun _ h => h
  split at hact
  next => exact Except.ok.inj hact ▸ h.put (fun _ _ hfresh => hfresh) nofun
  next data hdata =>
    refine Except.ok.inj hact ▸ h.put (fun _ _ hfresh => hfresh) ?_
    rintro _ ⟨⟩
    rw [hkeeps]
    exact h place data hdata
  next => exact Except.ok.inj hact ▸ h
  next => cases hact

lemma filled_writeFile {update : Option Core.FileData → Core.FileData} {p : Place}
    (hbytes : ∀ there, (update there).content.length = n) : Ensures (Still d)
    (Lib.writeFile update p) (fun _ => Fills n d) (Fills n d) := by
  refine ensures_callAt (fun d' place effect h _ hact => ?_) fun _ h => h.fills
  have hput : ∀ there, Fills n d (d'.put place (.file (update there))) := fun there => by
    refine ⟨place, h.put (fun _ _ => False.elim) ?_⟩
    rintro _ ⟨⟩
    exact .inr ⟨rfl, hbytes there⟩
  split at hact
  next => exact Except.ok.inj hact ▸ hput none
  next data _ => exact Except.ok.inj hact ▸ hput (some data)
  next => cases hact
  next => cases hact

lemma extractBoundedFile_fills (entry : ZipEntry) (output : Place) (unixMode remaining : Nat) :
    Ensures (· = d) (extractBoundedFile defaults entry output unixMode remaining)
      (fun _ => Fills (entry.content.take remaining).length d)
      (Fills (entry.content.take remaining).length d) := by
  refine ensures_bind (R := fun _ => Fills (entry.content.take remaining).length d) ?_ fun _ =>
    ensures_failIf (fun _ h => h) fun _ => ensures_pure fun _ h => h
  refine Ensures.mono (P := Still d) ?_ (fun _ h => h.symm ▸ .refl d)
    (fun _ _ h => h) fun _ h => h
  refine ensures_failIf (fun _ h => h.fills) fun _ => ?_
  refine ensures_bind (((filled_createDirAll _).mono (fun _ h => h) (fun _ _ h => h)
    fun _ => Still.fills).mapError _) fun _ => ?_
  refine ensures_bind ((filled_writeFile (n := (entry.content.take remaining).length)
    fun _ => rfl).mapError _) fun _ => ?_
  refine ensures_failIf (fun _ h => h) fun _ => ?_
  refine ensures_ite (fun _ => ensures_pure fun _ h => h) fun _ => ?_
  refine ensures_bind (R := fun _ => Fills (entry.content.take remaining).length d) ?_
    fun _ => ensures_pure fun _ h => h
  rintro d' ⟨place, h⟩
  have hset := (filled_setData output (fun data => { data with mode := unixMode &&& 0o777 })
    fun _ => rfl).mapError (ExtractError.fileAction output) d' h
  exact ⟨fun a d'' hrun => ⟨place, hset.1 a d'' hrun⟩, fun e d'' hrun => ⟨place, hset.2 e d'' hrun⟩⟩

/-- Whether it ends well or fails, a round gives at most one file other bytes, and these are the
ones that are counted. -/
lemma extractEntry_fills (remaining : Nat) (entry : ZipEntry) (d : Disk) :
    Fills (entry.fileBytes remaining) d
      (exec (extractEntry defaults limits destination expansion remaining entry) d).2 := by
  refine Ensures.left (P := (· = d)) ?_ rfl
  have hsame : ∀ d', d' = d → Fills (entry.fileBytes remaining) d d' := fun _ h =>
    h.symm ▸ Still.fills (.refl d)
  unfold extractEntry
  cases entry.enclosedName with
  | none => exact ensures_throw hsame
  | some path =>
    refine ensures_failIf hsame fun _ => ensures_failIf hsame fun _ => ?_
    refine ensures_look hsame fun _ => ensures_failIf hsame fun _ => ?_
    have hstill : ∀ {m : Extract Nat}, Ensures (Still d) m (fun _ => Still d) (Still d) →
        Ensures (· = d) m (fun _ => Fills (entry.fileBytes remaining) d)
          (Fills (entry.fileBytes remaining) d) := fun h =>
      h.mono (fun _ heq => heq.symm ▸ .refl d) (fun _ _ h => h.fills) fun _ h => h.fills
    unfold writeEntry
    refine ensures_ite (fun hlink => hstill ?_) fun hlink => ensures_ite (fun hdir => hstill ?_)
      fun hdir => ensures_failIf hsame fun hsize => ?_
    · have htarget : Ensures (Still d) (readTarget limits entry) (fun _ => Still d) (Still d) := by
        unfold readTarget
        split
        · exact ensures_pure fun _ h => h
        · exact ensures_throw fun _ h => h
      refine ensures_bind htarget fun _ => ensures_bind (Ensures.mapError ?_ _) fun _ =>
        ensures_pure fun _ h => h
      refine ensures_failIf (fun _ h => h) fun _ => ensures_failIf (fun _ h => h) fun _ => ?_
      refine ensures_bind ((filled_createDirAll _).mapError _) fun _ => Ensures.mapError ?_ _
      exact ensures_createNode (fun _ _ h _ _ => h.put (fun _ _ hfresh => hfresh) nofun)
        fun _ h => h
    · exact ensures_bind ((filled_createDirAll _).mapError _) fun _ => ensures_pure fun _ h => h
    · rw [entry.fileBytes_of_file hlink hdir (of_decide_eq_false hsize)]
      refine ensures_bind (extractBoundedFile_fills entry _ _ remaining) fun written => ?_
      cases written with
      | none => exact ensures_throw fun _ h => h
      | some n => exact ensures_pure fun _ h => h

end Filled

def linkArchive : List (Except String ZipEntry) :=
  [.ok ⟨"f", some [102], some 0o100644, false, 2, [1, 2], true⟩,
    .ok ⟨"l", some [108], some 0o120777, false, 1, [102], true⟩]

end OnceBuild.Archive
