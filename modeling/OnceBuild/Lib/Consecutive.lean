import Mathlib.Data.List.Basic
import Mathlib.Order.Lattice

/-!
# Numbers without holes
-/

namespace OnceBuild.Lib

open List

/-- Each number is the one after the number before it. -/
def Consecutive (l : List Nat) : Prop := l.IsChain fun a b => b = a + 1

instance (l : List Nat) : Decidable (Consecutive l) :=
    inferInstanceAs (Decidable (List.IsChain _ l))

lemma consecutive_nil : Consecutive [] := IsChain.nil

variable {l : List Nat}

lemma consecutive_of_length_le_one (h : l.length ≤ 1) : Consecutive l := by
  match l, h with
  | [], _ => exact consecutive_nil
  | [a], _ => exact List.IsChain.singleton a

lemma consecutive_cons {a b : Nat} : Consecutive (a :: b :: l) ↔ b = a + 1 ∧ Consecutive (b :: l) :=
  isChain_cons_cons

variable {x : Nat}

lemma Consecutive.mem (h : Consecutive (x :: l)) {n : Nat} (hx : x ≤ n) (hn : n ≤ l.getLastD x) :
    n ∈ x :: l := by
  induction l generalizing x with
  | nil =>
    have heq : n = x := Nat.le_antisymm hn hx
    rw [heq]
    exact mem_cons_self
  | cons y l ih =>
    obtain ⟨rfl, hrest⟩ := consecutive_cons.mp h
    rw [getLastD_cons] at hn
    rcases Nat.lt_or_eq_of_le hx with hlt | rfl
    · exact mem_cons_of_mem _ (ih hrest hlt hn)
    · exact mem_cons_self

lemma le_getLastD (h : (x :: l).Pairwise (· < ·)) : x ≤ l.getLastD x := by
  induction l generalizing x with
  | nil => exact le_refl _
  | cons y l ih =>
    obtain ⟨hx, hrest⟩ := pairwise_cons.mp h
    rw [getLastD_cons]
    exact (hx y mem_cons_self).le.trans (ih hrest)

lemma between_of_mem (h : (x :: l).Pairwise (· < ·)) {n : Nat} (hn : n ∈ x :: l) :
    x ≤ n ∧ n ≤ l.getLastD x := by
  induction l generalizing x with
  | nil =>
    rw [mem_singleton.mp hn]
    exact ⟨le_refl _, le_refl _⟩
  | cons y l ih =>
    obtain ⟨hx, hrest⟩ := pairwise_cons.mp h
    have hxy := hx y mem_cons_self
    rcases mem_cons.mp hn with rfl | hn
    · exact ⟨le_refl _, le_getLastD h⟩
    · obtain ⟨hy, hlast⟩ := ih hrest hn
      rw [getLastD_cons]
      exact ⟨hxy.le.trans hy, hlast⟩

lemma exists_hole (horder : (x :: l).Pairwise (· < ·)) (h : ¬Consecutive (x :: l)) :
    ∃ n, x < n ∧ n < l.getLastD x ∧ n ∉ x :: l := by
  induction l generalizing x with
  | nil => exact absurd (List.IsChain.singleton x) h
  | cons y l ih =>
    obtain ⟨hx, hrest⟩ := pairwise_cons.mp horder
    have hxy := hx y mem_cons_self
    have hlast := le_getLastD hrest
    rw [getLastD_cons]
    by_cases hstep : y = x + 1
    · have hnot : ¬Consecutive (y :: l) := fun hc => h (consecutive_cons.mpr ⟨hstep, hc⟩)
      obtain ⟨n, hyn, hn, hmem⟩ := ih hrest hnot
      refine ⟨n, by omega, hn, fun hmem' => ?_⟩
      rcases mem_cons.mp hmem' with rfl | hmem'
      · omega
      · exact hmem hmem'
    · -- the number after the first is missing
      refine ⟨x + 1, by omega, by omega, fun hmem => ?_⟩
      rcases mem_cons.mp hmem with heq | hmem
      · omega
      · rcases mem_cons.mp hmem with heq | hmem
        · exact hstep heq.symm
        · have := (pairwise_cons.mp hrest).1 _ hmem
          omega

end OnceBuild.Lib
