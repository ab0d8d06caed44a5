import Mathlib.Data.List.Infix
import Mathlib.Data.List.Lex
import Mathlib.Order.Lattice

/-!
# Overlaps in an ordered set of paths

Paths are ordered component by component, so everything below a path comes right after it, before
any path that is not below it.  Whether a set holds a path at, above or below a candidate is found
by looking up the paths above the candidate and the first path from the candidate on.
-/

namespace OnceBuild.Lib

open List

universe u

variable {N : Type u} [LinearOrder N]

/-- The least path of the set that does not come before the candidate. -/
def firstFrom (paths : List (List N)) (candidate : List N) : Option (List N) :=
  (paths.filter fun path => decide (candidate ≤ path)).min?

/-- Whether a path of the set is at, above or below the candidate. -/
def overlaps (paths : List (List N)) (candidate : List N) : Bool :=
  (candidate.inits.any fun parent => paths.contains parent) ||
    (firstFrom paths candidate).any fun path => candidate.isPrefixOf path

lemma cons_le_iff {a b : N} {l m : List N} : a :: l ≤ b :: m ↔ a < b ∨ a = b ∧ l ≤ m := by
  simp only [le_iff_lt_or_eq, cons_lt_cons_iff, cons.injEq]
  tauto

variable {c q : List N}

lemma le_of_isPrefix (h : c <+: q) : c ≤ q := by
  induction c generalizing q with
  | nil =>
    cases q with
    | nil => exact le_refl _
    | cons b q => exact le_of_lt Lex.nil
  | cons a c ih =>
    obtain ⟨rest, rfl⟩ := h
    exact cons_le_iff.mpr (.inr ⟨rfl, ih (prefix_append c rest)⟩)

lemma isPrefix_of_between {r : List N} (hcq : c ≤ q) (hqr : q ≤ r) (hcr : c <+: r) : c <+: q := by
  induction c generalizing q r with
  | nil => exact nil_prefix
  | cons a c ih =>
    obtain ⟨rest, rfl⟩ := hcr
    cases q with
    | nil => exact absurd hcq (not_le_of_gt Lex.nil)
    | cons b q =>
      rcases cons_le_iff.mp hcq with hlt | ⟨rfl, htail⟩
      · rcases cons_le_iff.mp hqr with hgt | ⟨heq, -⟩
        · exact absurd hlt (lt_asymm hgt)
        · exact absurd heq.symm (ne_of_lt hlt)
      · rcases cons_le_iff.mp hqr with hgt | ⟨-, hbound⟩
        · exact absurd hgt (lt_irrefl _)
        · exact cons_prefix_cons.mpr ⟨rfl, ih htail hbound (prefix_append c rest)⟩

variable {paths : List (List N)}

lemma firstFrom_eq_some (h : firstFrom paths c = some q) :
    q ∈ paths ∧ c ≤ q ∧ ∀ r ∈ paths, c ≤ r → q ≤ r := by
  obtain ⟨hmem, hleast⟩ := min?_eq_some_iff.mp h
  obtain ⟨hmem, hcq⟩ := mem_filter.mp hmem
  refine ⟨hmem, of_decide_eq_true hcq, fun r hr hcr => hleast r ?_⟩
  exact mem_filter.mpr ⟨hr, decide_eq_true hcr⟩

lemma firstFrom_isSome {r : List N} (hr : r ∈ paths) (hcr : c ≤ r) :
    ∃ q, firstFrom paths c = some q := by
  rw [← Option.isSome_iff_exists, firstFrom, isSome_min?_iff]
  exact ne_nil_of_mem (mem_filter.mpr ⟨hr, decide_eq_true hcr⟩)

/-- Looking at one path only finds out whether a path of the set is at or below `c`. -/
lemma firstFrom_isPrefix_iff :
    (∃ q, firstFrom paths c = some q ∧ c <+: q) ↔ ∃ p ∈ paths, c <+: p := by
  constructor
  · rintro ⟨q, hq, hcq⟩
    exact ⟨q, (firstFrom_eq_some hq).1, hcq⟩
  · rintro ⟨p, hp, hcp⟩
    -- the first path from `c` on comes no later than `p`
    obtain ⟨q, hq⟩ := firstFrom_isSome hp (le_of_isPrefix hcp)
    obtain ⟨-, hcq, hleast⟩ := firstFrom_eq_some hq
    exact ⟨q, hq, isPrefix_of_between hcq (hleast p hp (le_of_isPrefix hcp)) hcp⟩

lemma overlaps_iff : overlaps paths c = true ↔ ∃ p ∈ paths, p <+: c ∨ c <+: p := by
  simp only [overlaps, Bool.or_eq_true, any_eq_true, mem_inits, contains_iff_mem,
    Option.any_eq_true, isPrefixOf_iff_prefix, firstFrom_isPrefix_iff]
  constructor
  · rintro (⟨p, hpc, hp⟩ | ⟨p, hp, hcp⟩)
    · exact ⟨p, hp, .inl hpc⟩
    · exact ⟨p, hp, .inr hcp⟩
  · rintro ⟨p, hp, hpc | hcp⟩
    · exact .inl ⟨p, hpc, hp⟩
    · exact .inr ⟨p, hp, hcp⟩

end OnceBuild.Lib
