import Mathlib.Data.List.Basic
import Mathlib.Data.Nat.Init

/-!
# Logs of edits

A log lists edits of a store, each with the keys it names and the store it leaves behind.  Times are
lengths of the log: `stateAt init log n` is the store after the first `n` edits.  When every edit
names the keys whose values it changes, a key that no edit of a window names has the same value at
both ends of it.
-/

namespace OnceBuild.Lib

universe u v w

variable {K : Type u} {S : Type v} {V : Type w}

structure Edit (K : Type u) (S : Type v) where
  touched : List K
  after : S

/-- The store after the first `n` edits of the log. -/
def stateAt (init : S) (log : List (Edit K S)) : Nat → S
  | 0 => init
  | n + 1 =>
    match log[n]? with
    | some e => e.after
    | none => stateAt init log n

def Edit.Names (view : S → K → V) (before : S) (e : Edit K S) : Prop :=
  ∀ k, k ∉ e.touched → view e.after k = view before k

def Faithful (view : S → K → V) (init : S) (log : List (Edit K S)) : Prop :=
  ∀ n (e : Edit K S), log[n]? = some e → e.Names view (stateAt init log n)

/-- No edit from time `i` on and before time `j` names a key of `P`. -/
def Untouched (log : List (Edit K S)) (P : K → Prop) (i j : Nat) : Prop :=
  ∀ n e, i ≤ n → n < j → log[n]? = some e → ∀ k ∈ e.touched, ¬ P k

lemma stateAt_append (init : S) (log more : List (Edit K S)) {n : Nat} (hn : n ≤ log.length) :
    stateAt init (log ++ more) n = stateAt init log n := by
  induction n with
  | zero => rfl
  | succ n ih => simp only [stateAt, List.getElem?_append_left hn, ih (Nat.le_of_lt hn)]

variable {log : List (Edit K S)}

lemma Faithful.append {view : S → K → V} {init : S} (h : Faithful view init log) {e : Edit K S}
    (he : e.Names view (stateAt init log log.length)) : Faithful view init (log ++ [e]) := by
  intro n e' hn
  have hlt := (getElem?_eq_some_iff.mp hn).1
  rw [List.length_append, List.length_singleton] at hlt
  rw [stateAt_append init log [e] (Nat.lt_succ_iff.mp hlt)]
  by_cases hlast : n < log.length
  · rw [List.getElem?_append_left hlast] at hn
    exact h n e' hn
  · -- the appended edit
    obtain rfl : n = log.length := by omega
    obtain rfl : e = e' := by simpa using hn
    exact he

variable {P : K → Prop} {i j : Nat}

lemma Untouched.append (h : Untouched log P i j) (more : List (Edit K S)) (hj : j ≤ log.length) :
    Untouched (log ++ more) P i j := by
  intro n e hi hn he
  rw [List.getElem?_append_left (by omega)] at he
  exact h n e hi hn he

lemma Untouched.trans {k l : Nat} (h : Untouched log P i j) (h' : Untouched log P k l)
    (hkj : k ≤ max i j) : Untouched log P i l := by
  intro n e hi hn he
  by_cases hj : n < j
  · exact h n e hi hj he
  · exact h' n e (by omega) hn he

lemma Untouched.mono {i' j' : Nat} (h : Untouched log P i j) (hi : i ≤ i') (hj : j' ≤ j) :
    Untouched log P i' j' :=
  fun n e hin hjn he => h n e (by omega) (by omega) he

lemma view_stateAt_eq {view : S → K → V} {init : S} (hf : Faithful view init log) (hij : i ≤ j)
    (h : Untouched log P i j) {k : K} (hk : P k) :
    view (stateAt init log j) k = view (stateAt init log i) k := by
  induction j, hij using Nat.le_induction with
  | base => rfl
  | succ j hij ih =>
    rw [← ih (h.mono (Nat.le_refl _) (Nat.le_succ j))]
    cases he : log[j]? with
    | none => simp only [stateAt, he]
    | some e =>
      simp only [stateAt, he]
      exact hf j e he k fun hin => h j e hij (Nat.lt_succ_self j) he k hin hk

end OnceBuild.Lib
