import Mathlib.Algebra.GroupWithZero.Nat
import Mathlib.Data.List.Nodup
import Mathlib.Data.List.Count
import Mathlib.Logic.Relation

/-!
# Inverting an adjacency table

A table from a vertex to a list of vertices, built by pushing one entry per edge.  A vertex without
incoming edges has no entry, and an edge that is listed several times is pushed several times.
-/

namespace OnceBuild.Lib

open List

universe u

variable {V : Type u} [DecidableEq V]

/-- `table.entry(key).or_default().push(value)`. -/
def pushEntry (table : V → Option (List V)) (key value : V) : V → Option (List V) :=
  Function.update table key (some ((table key).getD [] ++ [value]))

variable (edges : V → List V)

/-- For every vertex `v` and every edge from `v` to `w`, push `v` onto the entry of `w`. -/
def invert (vertices : List V) : V → Option (List V) :=
  vertices.foldl (fun table v => (edges v).foldl (fun table w => pushEntry table w v) table)
    fun _ => none

/-- What the entry of `w` holds after the edges of `vertices` were pushed. -/
def incoming (vertices : List V) (w : V) : List V :=
  vertices.flatMap fun v => List.replicate ((edges v).count w) v

/-- A table whose entries are the non-empty lists of `f`. -/
def Tabulates (f : V → List V) (table : V → Option (List V)) : Prop :=
  ∀ w, table w = if f w = [] then none else some (f w)

variable {f : V → List V} {table : V → Option (List V)}

omit [DecidableEq V] in
lemma Tabulates.getD (h : Tabulates f table) (w : V) : (table w).getD [] = f w := by
  rw [h w]
  split
  case isTrue hnil => simp [hnil]
  case isFalse => rfl

lemma Tabulates.pushEntry (h : Tabulates f table) (key value : V) :
    Tabulates (fun w => if w = key then f w ++ [value] else f w) (pushEntry table key value) := by
  intro w
  by_cases hw : w = key
  · subst hw
    simp [Lib.pushEntry, h.getD w]
  · simp [Lib.pushEntry, hw, h w]

omit [DecidableEq V] in
lemma Tabulates.congr {g : V → List V} (h : Tabulates f table) (hfg : ∀ w, f w = g w) :
    Tabulates g table := by
  intro w
  rw [h w, hfg w]

lemma Tabulates.pushAll (h : Tabulates f table) (v : V) (l : List V) :
    Tabulates (fun w => f w ++ List.replicate (l.count w) v)
      (l.foldl (fun table w => Lib.pushEntry table w v) table) := by
  induction l generalizing f table with
  | nil => exact h.congr fun w => by simp
  | cons x l ih =>
    refine (ih (h.pushEntry x v)).congr fun w => ?_
    by_cases hw : w = x
    · subst hw
      simp [replicate_succ]
    · simp [hw, Ne.symm hw]

lemma tabulates_invert (vertices : List V) :
    Tabulates (incoming edges vertices) (invert edges vertices) := by
  have key : ∀ (l : List V) (f : V → List V) (table : V → Option (List V)), Tabulates f table →
      Tabulates (fun w => f w ++ incoming edges l w)
        (l.foldl (fun table v => (edges v).foldl (fun table w => pushEntry table w v) table)
          table) := by
    intro l
    induction l with
    | nil => exact fun f table h => h.congr fun w => by simp [incoming]
    | cons v l ih =>
      intro f table h
      exact (ih _ _ (h.pushAll v (edges v))).congr fun w => by simp [incoming]
  simpa [invert] using key vertices (fun _ => []) (fun _ => none) fun w => by simp

lemma count_incoming {vertices : List V} (hnodup : vertices.Nodup) (w v : V) :
    (incoming edges vertices w).count v = if v ∈ vertices then (edges v).count w else 0 := by
  unfold incoming
  induction vertices with
  | nil => simp
  | cons x l ih =>
    rcases nodup_cons.mp hnodup with ⟨hx, hl⟩
    rw [flatMap_cons, count_append, ih hl, count_replicate]
    by_cases hvx : v = x
    · subst hvx
      simp [hx]
    · simp [hvx, Ne.symm hvx]

lemma mem_incoming {edges : V → List V} {vertices : List V} {w v : V} :
    v ∈ incoming edges vertices w ↔ v ∈ vertices ∧ w ∈ edges v := by
  simp only [incoming, mem_flatMap, mem_replicate]
  constructor
  · rintro ⟨x, hx, hcount, rfl⟩
    exact ⟨hx, count_pos_iff.mp (Nat.pos_of_ne_zero hcount)⟩
  · rintro ⟨hv, hw⟩
    exact ⟨v, hv, Nat.pos_iff_ne_zero.mp (count_pos_iff.mpr hw), rfl⟩

lemma length_incoming (vertices : List V) (w : V) :
    (incoming edges vertices w).length = (vertices.map fun v => (edges v).count w).sum := by
  simp [incoming, length_flatMap]

end OnceBuild.Lib
