import OnceBuild.Analysis.ExpansionSound
import OnceBuild.Graph.TargetOutcomes

/-!
# Changed directories

Three tests ask whether a change reaches what a record depends on.  Each of them looks for a
reported path at or below a path of the record.  A report that names only a directory above it, as a
watcher does when a directory is moved, is not recognised by any of them.  What an expansion depends
on is what it looks at, which its own test does not cover when a walk's root is written as `.` or
with a trailing slash.
-/

namespace OnceBuild.Graph

open Lib
open Analysis (Host Request expansionCouldDiffer not_looksAt_of_not_couldDiffer dotDot)

/-- `upper` is a directory above `path`. -/
def Above (upper path : Text) : Prop := (upper ++ ['/']) <+: path

/-- The reported path is the path itself, above it or inside it. -/
def Reaches (reported path : Text) : Prop :=
  reported = path ∨ Above reported path ∨ Above path reported

def packageStart (r : Request) : Text :=
  if r.package.1 = [] then [] else render r.package.1 ++ ['/']

/-- `expansion_could_differ` takes the path for one that the request may select. -/
def Recognised (h : Host) (r : Request) (path : Text) : Prop :=
  ∃ relative, stripPrefix (packageStart r) path = some relative ∧ r.covers h relative = true

/-- A glob, or a walk for files whose root is written as its path. -/
def Plainly (r : Request) : Prop := r.expansion = .glob ∨ r.PlainRoot

variable {changed : Finset Text}

lemma settles_eq_false {relative : Text} :
    settles changed relative = false ↔ ∃ c ∈ changed, c = relative ∨ Above relative c := by
  rw [settles, decide_eq_false_iff_not, not_and_or, not_not]
  constructor
  · rintro (hmem | hbelow)
    · exact ⟨relative, hmem, .inl rfl⟩
    · push Not at hbelow
      obtain ⟨c, hc, hle⟩ := hbelow
      exact ⟨c, hc, .inr hle⟩
  · rintro ⟨c, hc, rfl | hle⟩
    · exact .inl hc
    · exact .inr fun hall => hall c hc hle

lemma expansionCouldDiffer_eq_true {h : Host} {r : Request} :
    expansionCouldDiffer h changed r = true ↔ changed ≠ ∅ ∧
      ((∃ pattern ∈ r.patterns, dotDot <:+: pattern) ∨ ∃ c ∈ changed, Recognised h r c) := by
  have hselects : ∀ c, (stripPrefix (packageStart r) c).any (r.covers h) = true ↔
    Recognised h r c :=
    fun c => Option.any_eq_true _ _
  unfold expansionCouldDiffer
  by_cases hempty : changed = ∅
  · simp [hempty]
  · rw [if_neg hempty]
    by_cases hclimbs : (r.patterns.any fun pattern => decide (dotDot <:+: pattern)) = true
    · rw [if_pos hclimbs]
      obtain ⟨pattern, hmem, hpattern⟩ := List.any_eq_true.mp hclimbs
      exact ⟨fun _ => ⟨hempty, .inl ⟨pattern, hmem, of_decide_eq_true hpattern⟩⟩, fun _ => rfl⟩
    · rw [if_neg hclimbs]
      have hnone : ¬∃ pattern ∈ r.patterns, dotDot <:+: pattern := fun ⟨pattern, hmem, hpattern⟩ =>
        hclimbs (List.any_eq_true.mpr ⟨pattern, hmem, decide_eq_true hpattern⟩)
      refine decide_eq_true_iff.trans ?_
      simp only [hnone, false_or, hempty, ne_eq, not_false_eq_true, true_and]
      exact exists_congr fun c => and_congr_right fun _ => hselects c

/-- The walk below the directory `s/a`. -/
def walkBelow : Request := ⟨.walkFiles, rootPath, [['s', '/', 'a']], []⟩

end OnceBuild.Graph
