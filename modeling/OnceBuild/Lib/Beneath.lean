import OnceBuild.Lib.Disk

/-!
# Calls beneath an open directory

A path is taken from a directory that is held open, one component after the other, and no link is
followed: what is on the way has to be a directory.  So a call acts at its path and nowhere else.
Places count from the open directory.
-/

namespace OnceBuild.Lib

open List

variable {N D F L : Type}

/-- Open the components one after the other with `O_NOFOLLOW | O_DIRECTORY`. -/
def descendFrom (d : Disk N D F L) : List N → List N → Except Errno (List N)
  | here, [] => .ok here
  | here, n :: rest =>
    match d.get (here ++ [n]) with
    | some (.dir _) => descendFrom d (here ++ [n]) rest
    | some _ => .error .notADirectory
    | none => .error .notFound

def descend (d : Disk N D F L) (p : List N) : Except Errno (List N) := descendFrom d [] p

/-- `fstatat` with `AT_SYMLINK_NOFOLLOW`. -/
def nodeAt (d : Disk N D F L) (place : List N) : Except Errno (DiskNode D F L) :=
  match d.get place with
  | some node => .ok node
  | none => .error .notFound

def metadataBeneath (d : Disk N D F L) (p : List N) : Except Errno (DiskNode D F L) :=
  match p.getLast? with
  | none => nodeAt d []
  | some n => do
      let above ← descend d p.dropLast
      nodeAt d (above ++ [n])

section reading

variable {d : Disk N D F L} {here p place : List N}

lemma nodeAt_eq_ok {node : DiskNode D F L} : nodeAt d p = .ok node ↔ d.get p = some node := by
  unfold nodeAt
  cases d.get p with
  | none => exact ⟨nofun, nofun⟩
  | some found => simp

lemma eq_of_descendFrom (h : descendFrom d here p = .ok place) : place = here ++ p := by
  induction p generalizing here with
  | nil => rw [← Except.ok.inj h, append_nil]
  | cons n rest ih =>
    unfold descendFrom at h
    split at h
    · rw [ih h, append_assoc, singleton_append]
    · cases h
    · cases h

lemma descendFrom_of_dirs (h : RealDirs d (here ++ p)) :
    descendFrom d here p = .ok (here ++ p) := by
  induction p generalizing here with
  | nil => rw [append_nil, descendFrom]
  | cons n rest ih =>
    have hsplit : here ++ n :: rest = here ++ [n] ++ rest := by
      rw [append_assoc, singleton_append]
    obtain ⟨data, hdata⟩ := h (here ++ [n]) (hsplit ▸ prefix_append _ _)
    rw [hsplit] at h ⊢
    simp only [descendFrom, hdata]
    exact ih h

lemma descend_of_dirs (h : RealDirs d p) : descend d p = .ok p := by
  have hdirs : RealDirs d ([] ++ p) := h
  exact descendFrom_of_dirs hdirs

lemma metadataBeneath_eq_ok (hrooted : Rooted d) {node : DiskNode D F L} :
    metadataBeneath d p = .ok node ↔ d.get p = some node := by
  cases p using reverseRecOn with
  | nil => exact nodeAt_eq_ok
  | append_singleton above n =>
    simp only [metadataBeneath, getLast?_concat, dropLast_concat]
    constructor
    · intro h
      obtain ⟨place, hplace, hnode⟩ := bind_eq_ok.mp h
      rw [eq_of_descendFrom hplace] at hnode
      exact nodeAt_eq_ok.mp hnode
    · intro h
      obtain ⟨data, hdata⟩ := hrooted.parent above n (h ▸ Option.some_ne_none _)
      exact bind_eq_ok.mpr
        ⟨above, descend_of_dirs (hrooted.realDirs hdata), nodeAt_eq_ok.mpr h⟩

end reading

end OnceBuild.Lib
