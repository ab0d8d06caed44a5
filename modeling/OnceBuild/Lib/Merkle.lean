import Mathlib.Data.List.Basic
import Mathlib.Data.List.Induction

/-!
# Trees sealed with digests

The nodes of a tree by path, each with the names of its children.  A digest for every node is made
from the node and the digests of its children.  Such digests are determined by the tree, and where
sealing is injective on what the two trees sealNode, equal digests mean equal trees.
-/

namespace OnceBuild.Lib

open List Option

variable {N A H : Type}

/-- `digest` is made by sealing each node with the digests of its children. -/
structure Sealed (names : A → List N) (sealNode : A → List (N × H) → Option H)
    (nodes : List N → Option A) (digest : List N → H) : Prop where
  sealNode_eq : ∀ p a, nodes p = some a →
    sealNode a ((names a).map fun n => (n, digest (p ++ [n]))) = some (digest p)
  mem_names : ∀ p a, nodes p = some a → ∀ n, n ∈ names a ↔ nodes (p ++ [n]) ≠ none
  parent : ∀ p n, nodes (p ++ [n]) ≠ none → nodes p ≠ none

namespace Sealed

variable {names : A → List N} {sealNode : A → List (N × H) → Option H}
  {nodes nodes' : List N → Option A} {digest digest' : List N → H}

section

variable (h : Sealed names sealNode nodes digest)
include h

lemma exists_of_isPrefix {p : List N} (q : List N)
    (hq : nodes (p ++ q) ≠ none) : nodes p ≠ none := by
  induction q using reverseRecOn with
  | nil => rwa [append_nil] at hq
  | append_singleton q n ih =>
    rw [← append_assoc] at hq
    exact ih (h.parent _ n hq)

lemma unique (h' : Sealed names sealNode nodes digest')
    {bound : Nat} (hbound : ∀ p, nodes p ≠ none → p.length ≤ bound) (p : List N)
    (hp : nodes p ≠ none) : digest p = digest' p := by
  -- from the deepest nodes up
  induction hroom : bound - p.length generalizing p with
  | zero =>
    obtain ⟨a, ha⟩ := ne_none_iff_exists'.mp hp
    have hleaf : names a = [] := by
      refine eq_nil_iff_forall_not_mem.mpr fun n hn => ?_
      have hlength := hbound _ ((h.mem_names p a ha n).mp hn)
      rw [length_append, length_singleton] at hlength
      omega
    have hsealed := h.sealNode_eq p a ha
    have hsealed' := h'.sealNode_eq p a ha
    rw [hleaf] at hsealed hsealed'
    exact some.inj (hsealed.symm.trans hsealed')
  | succ room ih =>
    obtain ⟨a, ha⟩ := ne_none_iff_exists'.mp hp
    have hchildren : ((names a).map fun n => (n, digest (p ++ [n]))) =
        (names a).map fun n => (n, digest' (p ++ [n])) := by
      refine map_congr_left fun n hn => ?_
      rw [ih (p ++ [n]) ((h.mem_names p a ha n).mp hn)]
      rw [length_append, length_singleton]
      omega
    have hsealed := h.sealNode_eq p a ha
    rw [hchildren] at hsealed
    exact some.inj (hsealed.symm.trans (h'.sealNode_eq p a ha))

lemma binding (h' : Sealed names sealNode nodes' digest')
    (hinj : ∀ p a a', nodes p = some a → nodes' p = some a' → digest p = digest' p →
      a = a' ∧ ((names a).map fun n => (n, digest (p ++ [n]))) =
        (names a').map fun n => (n, digest' (p ++ [n])))
    {p : List N} (hp : nodes p ≠ none) (hp' : nodes' p ≠ none) (heq : digest p = digest' p)
    (q : List N) : nodes (p ++ q) = nodes' (p ++ q) := by
  obtain ⟨a, ha⟩ := ne_none_iff_exists'.mp hp
  obtain ⟨a', ha'⟩ := ne_none_iff_exists'.mp hp'
  obtain ⟨rfl, hchildren⟩ := hinj p a a' ha ha' heq
  induction q generalizing p a with
  | nil => rw [append_nil, ha, ha']
  | cons n q ih =>
    have hsplit : p ++ n :: q = p ++ [n] ++ q := by
      rw [append_assoc, singleton_append]
    rw [hsplit]
    by_cases hn : n ∈ names a
    case pos =>
      have hchild := (h.mem_names p a ha n).mp hn
      have hchild' := (h'.mem_names p a ha' n).mp hn
      have hdigest : digest (p ++ [n]) = digest' (p ++ [n]) :=
        congrArg Prod.snd (map_inj_left.mp hchildren n hn)
      obtain ⟨b, hb⟩ := ne_none_iff_exists'.mp hchild
      obtain ⟨b', hb'⟩ := ne_none_iff_exists'.mp hchild'
      obtain ⟨rfl, hnext⟩ := hinj _ b b' hb hb' hdigest
      exact ih hchild hchild' hdigest b hb hb' hnext
    case neg =>
      -- neither tree has anything below a name that is not a child
      have hnone : nodes (p ++ [n] ++ q) = none := by
        by_contra hsome
        exact hn ((h.mem_names p a ha n).mpr (h.exists_of_isPrefix q hsome))
      have hnone' : nodes' (p ++ [n] ++ q) = none := by
        by_contra hsome
        exact hn ((h'.mem_names p a ha' n).mpr (h'.exists_of_isPrefix q hsome))
      rw [hnone, hnone']

end

end Sealed

end OnceBuild.Lib
