import Mathlib.Data.Char
import OnceBuild.Lib.PathSet
import OnceBuild.Recovery.Rerun

/-!
# Which results may be restored at the same time

The footprint of a result is the set of places that its outputs name.  `batchLen` counts the
results at the head of a list whose footprints do not overlap, and `disjointFromResults` compares
one more result with those that are being restored.  A result whose footprint is not known, and
any result on Windows, is restored alone.

The workspace has no symbolic links, so a path resolves to itself below the real path of the
workspace unless a file is in the way.
-/

namespace OnceBuild.Materialization

open Lib List

open Actions (Path PathHost footprintPaths pathsOverlap pathsOverlap_iff)
open Recovery (Version)

/-- What restoring looks at in an `ActionResult`: its outputs. -/
abbrev Result := List Version

/-- `resolve_existing_ancestors` of a path below the workspace. -/
def resolveExistingAncestors {α : Type} (t : FileTree Text α) (path : Path) : Option Path :=
  if FileOp.blocked t path then none else some path

def footprint (host : PathHost) (result : Result) : Option (List Path) :=
  footprintPaths host (result.map Prod.fst)

/-- The results at the head whose footprints are known and overlap neither `paths` nor
each other. -/
def leading (host : PathHost) (paths : List Path) : List Result → Nat
  | [] => 0
  | result :: results =>
    match footprint host result with
    | none => 0
    | some own =>
      if own.any fun path => Lib.overlaps paths path then 0
      else leading host (paths ++ own) results + 1

def batchLen (host : PathHost) (limit : Nat) (results : List Result) : Nat :=
  if host.windows || results.length = 1 || limit ≤ 1 then 1
  else max (leading host [] (results.take (max limit 1))) 1

def disjointFromResults (host : PathHost) (candidate : Result) (active : List Result) : Bool :=
  !host.windows &&
    match footprint host candidate with
    | none => false
    | some candidate => active.all fun result =>
      (footprint host result).any fun other =>
        candidate.all fun path => !Lib.overlaps other path

/-- Both footprints are known and no path of one is at, above or below a path of the other. -/
def Separate (host : PathHost) (left right : Result) : Prop :=
  ∃ own other, footprint host left = some own ∧ footprint host right = some other ∧
    ∀ p ∈ own, ∀ q ∈ other, pathsOverlap p q = false

variable {host : PathHost} {limit : Nat}

/-! ## What the comparisons show -/

/-- What a host that resolves fewer paths shows is also shown by one that resolves more. -/
lemma Separate.mono {host host' : PathHost} {left right : Result}
    (hhost : ∀ path own, Actions.footprint host path = some own →
      Actions.footprint host' path = some own) (h : Separate host left right) :
    Separate host' left right := by
  have hmapM : ∀ (paths : List Path) (parts : List (List Path)),
      paths.mapM (Actions.footprint host) = some parts →
        paths.mapM (Actions.footprint host') = some parts := by
    intro paths
    induction paths with
    | nil => exact fun _ h => h
    | cons path paths ih =>
      intro parts h
      simp only [mapM_cons, Option.bind_eq_bind, Option.bind_eq_some_iff] at h ⊢
      obtain ⟨own, hown, rest, hrest, heq⟩ := h
      exact ⟨own, hhost path own hown, rest, ih rest hrest, heq⟩
  have hmono : ∀ (result : Result) own, footprint host result = some own →
      footprint host' result = some own := by
    intro result own h
    obtain ⟨parts, hparts, rfl⟩ := Option.map_eq_some_iff.mp h
    exact Option.map_eq_some_iff.mpr ⟨parts, hmapM _ _ hparts, rfl⟩
  obtain ⟨own, other, hown, hother, hclear⟩ := h
  exact ⟨own, other, hmono _ _ hown, hmono _ _ hother, hclear⟩

lemma overlaps_eq_false_iff {paths : List Path} {candidate : Path} :
    Lib.overlaps paths candidate = false ↔ ∀ p ∈ paths, pathsOverlap p candidate = false := by
  rw [← Bool.not_eq_true, Lib.overlaps_iff]
  simp only [← Bool.not_eq_true, pathsOverlap_iff]
  push Not
  rfl

lemma separate_of_disjointFromResults {candidate result : Result} {active : List Result}
    (h : disjointFromResults host candidate active = true) (hresult : result ∈ active) :
    Separate host result candidate := by
  obtain ⟨-, h⟩ := Bool.and_eq_true_iff.mp h
  split at h
  case h_1 => cases h
  case h_2 own hown =>
    obtain ⟨other, hother, hclear⟩ := (Option.any_eq_true _ _).mp (all_eq_true.mp h result hresult)
    refine ⟨other, own, hother, hown, fun p hp q hq => ?_⟩
    have hq := all_eq_true.mp hclear q hq
    rw [Bool.not_eq_true', overlaps_eq_false_iff] at hq
    exact hq p hp

lemma leading_le (paths : List Path) (results : List Result) :
    leading host paths results ≤ results.length := by
  fun_induction leading host paths results with
  | case1 => exact Nat.le_refl 0
  | case2 | case3 => exact Nat.zero_le _
  | case4 paths result results own hown hclear ih => exact Nat.succ_le_succ ih

lemma clear_of_mem_leading {paths : List Path} {results : List Result} {result : Result}
    (h : result ∈ results.take (leading host paths results)) :
    ∃ own, footprint host result = some own ∧ ∀ p ∈ paths, ∀ q ∈ own, pathsOverlap p q = false := by
  induction results generalizing paths with
  | nil => cases h
  | cons first results ih =>
    unfold leading at h
    split at h
    case h_1 => cases h
    case h_2 own hown =>
      split at h
      case isTrue => cases h
      case isFalse hclear =>
        rw [take_succ_cons, mem_cons] at h
        rcases h with rfl | h
        · refine ⟨own, hown, fun p hp q hq => ?_⟩
          have hq : Lib.overlaps paths q = false := by
            rw [← Bool.not_eq_true]
            exact fun hover => hclear (any_eq_true.mpr ⟨q, hq, hover⟩)
          exact overlaps_eq_false_iff.mp hq p hp
        · obtain ⟨own', hown', hsep⟩ := ih h
          exact ⟨own', hown', fun p hp => hsep p (mem_append_left _ hp)⟩

lemma separate_leading (paths : List Path) (results : List Result) :
    (results.take (leading host paths results)).Pairwise (Separate host) := by
  fun_induction leading host paths results with
  | case1 | case2 | case3 => exact Pairwise.nil
  | case4 paths result results own hown hclear ih =>
    refine Pairwise.cons (fun other hother => ?_) ih
    obtain ⟨own', hown', hsep⟩ := clear_of_mem_leading hother
    exact ⟨own, own', hown, hown', fun p hp => hsep p (mem_append_right _ hp)⟩

/-! ## The length of a batch -/

lemma batchLen_le (results : List Result) : batchLen host limit results ≤ max limit 1 := by
  unfold batchLen
  split
  · exact le_max_right _ _
  · refine max_le ((leading_le _ _).trans ?_) (le_max_right _ _)
    exact length_take_le _ _

lemma batchLen_le_length {results : List Result} (h : results ≠ []) :
    batchLen host limit results ≤ results.length := by
  have hpos : 1 ≤ results.length := length_pos_iff.mpr h
  unfold batchLen
  split
  · exact hpos
  · refine max_le ((leading_le _ _).trans ?_) hpos
    exact length_take_le' _ _

lemma separate_batch (results : List Result) :
    (results.take (batchLen host limit results)).Pairwise (Separate host) := by
  have hone : (results.take 1).Pairwise (Separate host) := by
    cases results with
    | nil => exact Pairwise.nil
    | cons result results => exact pairwise_singleton _ _
  unfold batchLen
  split
  · exact hone
  · rcases Nat.eq_zero_or_pos (leading host [] (results.take (max limit 1))) with hzero | hpos
    · rw [hzero]
      exact hone
    · rw [max_eq_left hpos]
      have hsep : ((results.take (max limit 1)).take
          (leading host [] (results.take (max limit 1)))).Pairwise (Separate host) :=
        separate_leading [] _
      rwa [take_take, min_eq_left] at hsep
      exact (leading_le _ _).trans (length_take_le _ _)

end OnceBuild.Materialization
