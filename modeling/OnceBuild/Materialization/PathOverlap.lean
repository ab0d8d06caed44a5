import Mathlib.Data.Prod.Lex
import OnceBuild.Lib.BytePath
import OnceBuild.Lib.PathSet

/-!
# The overlap test on an ordered set of paths

A `BTreeSet<PathBuf>` holds its paths in the order of their components, and two texts with the same
components are one path in it.  `overlaps` looks the ancestors of a candidate up in such a set and
then at a single path from the candidate on.  That is enough, because all that is below a path
follows it directly in this order.
-/

namespace OnceBuild.Lib.Component

/-- Where a component stands in the order of `std::path::Component`: the kinds as they are declared,
and names byte by byte. -/
def rank : Component → ℕ ×ₗ List ℕ
  | .rootDir => toLex (0, [])
  | .curDir => toLex (1, [])
  | .parentDir => toLex (2, [])
  | .normal name => toLex (3, name.map UInt8.toNat)

lemma rank_injective : Function.Injective rank := by
  intro c d h
  have hpair : ofLex (rank c) = ofLex (rank d) := congrArg ofLex h
  cases c <;> cases d <;> simp only [rank, ofLex_toLex, Prod.mk.injEq] at hpair <;>
    first
    | rfl
    | omega
    | skip
  case normal.normal name other =>
    have hname : name = other :=
      List.map_injective_iff.mpr (fun _ _ heq => UInt8.toNat_inj.mp heq) hpair.2
    rw [hname]

instance : LinearOrder Component := LinearOrder.lift' rank rank_injective

end OnceBuild.Lib.Component

namespace OnceBuild.Materialization

open List Relation
open Lib (OsPath Component components firstFrom firstFrom_isPrefix_iff)

/-! ## Ancestors -/

/-- `Path::parent`; the root has none, and neither has the empty path. -/
def parent (path : List Component) : Option (List Component) :=
  match path.getLast? with
  | none => none
  | some .rootDir => none
  | some _ => some path.dropLast

lemma parent_append_singleton {path : List Component} {last : Component} :
    last ≠ .rootDir → parent (path ++ [last]) = some path := by
  intro hlast
  cases last with
  | rootDir => exact absurd rfl hlast
  | _ => simp [parent]

lemma parent_eq_some {path up : List Component} :
    parent path = some up → ∃ last, last ≠ .rootDir ∧ path = up ++ [last] := by
  intro h
  rcases eq_nil_or_concat' path with rfl | ⟨front, last, rfl⟩
  · simp [parent] at h
  · have hlast : last ≠ .rootDir := by
      rintro rfl
      simp [parent] at h
    rw [parent_append_singleton hlast] at h
    cases h
    exact ⟨last, hlast, rfl⟩

/-- `Path::ancestors`: the path itself, its parent, and so on. -/
def ancestors (path : List Component) : List (List Component) :=
  path ::
    match _hup : parent path with
    | none => []
    | some up => ancestors up
termination_by path.length
decreasing_by
  obtain ⟨last, -, rfl⟩ := parent_eq_some _hup
  simp

/-- One step up. -/
def Up (path up : List Component) : Prop := parent path = some up

lemma mem_ancestors {path up : List Component} : up ∈ ancestors path ↔ ReflTransGen Up path up := by
  induction path using ancestors.induct with
  | case1 path ih =>
    rw [ancestors, ReflTransGen.cases_head_iff]
    -- the loop goes on where a step up is possible
    split
    case h_1 hnone => simp [Up, hnone, eq_comm]
    case h_2 next hnext => simp [Up, hnext, ih next hnext, eq_comm]

/-! ## The test -/

def overlaps (paths : List OsPath) (candidate : OsPath) : Bool :=
  ((ancestors (components candidate)).any fun up => (paths.map components).contains up) ||
    (firstFrom (paths.map components) (components candidate)).any fun path =>
      (components candidate).isPrefixOf path

/-- Texts of the same path. -/
def SamePath (p q : OsPath) : Prop := components p = components q

/-- Going up from `q` once or more leads to `p`. -/
def IsAncestor (p q : OsPath) : Prop := TransGen Up (components q) (components p)

/-- The components of `p` begin with those of `q` and go on. -/
def IsDescendant (p q : OsPath) : Prop :=
  components q <+: components p ∧ components q ≠ components p

/-- The test finds exactly the sets with a path at, above or below the candidate. -/
theorem overlaps_exact (paths : List OsPath) (candidate : OsPath) :
    overlaps paths candidate = true ↔
      ∃ p ∈ paths, SamePath p candidate ∨ IsAncestor p candidate ∨ IsDescendant p candidate := by
  simp only [overlaps, Bool.or_eq_true, Option.any_eq_true, isPrefixOf_iff_prefix,
    firstFrom_isPrefix_iff, any_eq_true, contains_iff_mem, mem_map, mem_ancestors,
    reflTransGen_iff_eq_or_transGen, SamePath, IsAncestor, IsDescendant]
  constructor
  · rintro (⟨_, heq | habove, p, hp, rfl⟩ | ⟨_, ⟨p, hp, rfl⟩, hbelow⟩)
    · exact ⟨p, hp, .inl heq⟩
    · exact ⟨p, hp, .inr (.inl habove)⟩
    · rcases eq_or_ne (components candidate) (components p) with heq | hne
      · exact ⟨p, hp, .inl heq.symm⟩
      · exact ⟨p, hp, .inr (.inr ⟨hbelow, hne⟩)⟩
  · rintro ⟨p, hp, heq | habove | ⟨hbelow, -⟩⟩
    · exact .inl ⟨_, .inl heq, p, hp, rfl⟩
    · exact .inl ⟨_, .inr habove, p, hp, rfl⟩
    · exact .inr ⟨_, ⟨p, hp, rfl⟩, hbelow⟩

end OnceBuild.Materialization
