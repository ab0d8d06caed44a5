import OnceBuild.Core.Action

/-!
# Targets of links in the workspace

A link to a workspace path is written relative to the directory that holds the link: up to what the
two have in common, and down from there.
-/

namespace OnceBuild.Core

open Lib List

def parentPart : Text := ['.', '.']

/-- `split('/')` without the empty parts. -/
def pathParts (t : Text) : List Text := (t.splitOn '/').filter fun part => !part.isEmpty

def commonLength (a b : List Text) : Nat := ((a.zip b).takeWhile fun c => c.1 == c.2).length

/-- The parent of the workspace itself counts as the workspace. -/
def relativeWorkspaceLinkTarget (source destination : WorkspacePath) : Text :=
  let sourceParts := pathParts source.asStr
  let destinationParts := pathParts (render destination.1.dropLast)
  let common := commonLength sourceParts destinationParts
  let relative := replicate (destinationParts.length - common) parentPart ++ sourceParts.drop common
  if relative.isEmpty then ['.'] else render relative

/-- One part of a path, read from a directory; `none` is above the workspace. -/
def resolvePart (dir : List Text) (part : Text) : Option (List Text) :=
  if part = [] ∨ part = ['.'] then some dir
  else if part = parentPart then if dir = [] then none else some dir.dropLast
  else some (dir ++ [part])

def resolveLexically (dir : List Text) (target : Text) : Option (List Text) :=
  (target.splitOn '/').foldlM resolvePart dir

lemma pathParts_render {p : List Text} (h : ∀ part ∈ p, Plain part) : pathParts (render p) = p := by
  cases p with
  | nil => rfl
  | cons part p =>
    unfold pathParts render
    rw [splitOn_intercalate '/' (fun c hc => (h c hc).2.1) (cons_ne_nil _ _)]
    exact filter_eq_self.mpr fun c hc => by simpa using (h c hc).1

lemma take_commonLength (a b : List Text) :
    a.take (commonLength a b) = b.take (commonLength a b) ∧ commonLength a b ≤ b.length := by
  induction a generalizing b with
  | nil => simp [commonLength]
  | cons x a ih =>
    cases b with
    | nil => simp [commonLength]
    | cons y b =>
      by_cases hxy : x = y
      · subst hxy
        have hcons : commonLength (x :: a) (x :: b) = commonLength a b + 1 := by
          simp [commonLength]
        simpa [hcons] using ih b
      · simp [commonLength, hxy]

lemma foldlM_parentPart {dir : List Text} {n : Nat} (h : n ≤ dir.length) :
    (replicate n parentPart).foldlM resolvePart dir = some (dir.take (dir.length - n)) := by
  induction n generalizing dir with
  | zero => simp
  | succ n ih =>
    have hne : dir ≠ [] := by
      rintro rfl
      cases h
    have hup : resolvePart dir parentPart = some dir.dropLast := by
      simp [resolvePart, parentPart, hne]
    have hlen : dir.dropLast.length = dir.length - 1 := length_dropLast
    rw [replicate_succ, foldlM_cons, hup]
    change (replicate n parentPart).foldlM resolvePart dir.dropLast = _
    rw [ih (by omega), hlen, dropLast_eq_take, take_take]
    congr 2
    omega

lemma foldlM_plain {p : List Text} (h : ∀ part ∈ p, Plain part) (dir : List Text) :
    p.foldlM resolvePart dir = some (dir ++ p) := by
  induction p generalizing dir with
  | nil => simp
  | cons part p ih =>
    obtain ⟨⟨hne, -, hdot, hdots⟩, hp⟩ := forall_mem_cons.mp h
    have hdown : resolvePart dir part = some (dir ++ [part]) := by
      simp [resolvePart, parentPart, hne, hdot, hdots]
    rw [foldlM_cons, hdown]
    simpa using ih hp (dir ++ [part])

/-- From the directory that holds the link, its target leads to the source. -/
theorem relativeWorkspaceLinkTarget_resolves (source destination : WorkspacePath) :
    resolveLexically destination.1.dropLast (relativeWorkspaceLinkTarget source destination) =
      some source.1 := by
  have hparent : ∀ part ∈ destination.1.dropLast, Plain part :=
    fun part hpart => destination.2 part (mem_of_mem_dropLast hpart)
  obtain ⟨source, hsource⟩ := source
  unfold relativeWorkspaceLinkTarget WorkspacePath.asStr
  rw [pathParts_render hsource, pathParts_render hparent]
  generalize destination.1.dropLast = parent at hparent ⊢
  obtain ⟨htake, hle⟩ := take_commonLength source parent
  dsimp only
  generalize commonLength source parent = common at htake hle ⊢
  -- the parts of the target lead up to what is common and down to the source
  have hparts : (replicate (parent.length - common) parentPart ++ source.drop common).foldlM
    resolvePart
      parent = some source := by
    rw [foldlM_append, foldlM_parentPart (Nat.sub_le _ _), Nat.sub_sub_self hle, ← htake]
    change (source.drop common).foldlM resolvePart (source.take common) = _
    rw [foldlM_plain fun part hpart => hsource part (mem_of_mem_drop hpart), take_append_drop]
  unfold resolveLexically
  split
  case isTrue hempty =>
    rw [isEmpty_iff.mp hempty] at hparts
    exact hparts
  case isFalse hne =>
    rw [render, splitOn_intercalate '/' ?_ (by simpa using hne)]
    · exact hparts
    · intro part hpart
      rcases mem_append.mp hpart with hup | hdown
      · rw [eq_of_mem_replicate hup]
        decide
      · exact (hsource part (mem_of_mem_drop hdown)).2.1

end OnceBuild.Core
