import Mathlib.Data.List.Basic
import OnceBuild.Lib.Interleave

/-!
# Pre- and postconditions for a program that runs alone
-/

namespace OnceBuild.Lib

universe u w x

variable {Ω : Type u} {R : Type x} {σ : Type w} {β γ : Type x}

/-- The state and the value that the program ends with. -/
def Program.run (apply : Ω → σ → σ × R) (p : Program Ω R β) (t : σ) : σ × β :=
  ((p.alone apply t).1, (p.alone apply t).2.2)

section Run

variable (apply : Ω → σ → σ × R)

@[simp] lemma run_done (value : β) (t : σ) :
    (.done value : Program Ω R β).run apply t = (t, value) := rfl

@[simp] lemma run_op (o : Ω) (next : R → Program Ω R β) (t : σ) :
    (Program.op o next).run apply t = (next (apply o t).2).run apply (apply o t).1 := rfl

@[simp] lemma run_perform (o : Ω) (t : σ) :
    (Program.perform o : Program Ω R R).run apply t = apply o t := rfl

@[simp] lemma run_bind (p : Program Ω R β) (f : β → Program Ω R γ) (t : σ) :
    (p >>= f).run apply t = (f (p.run apply t).2).run apply (p.run apply t).1 := by
  induction p generalizing t with
  | done value => rfl
  | op o next ih => exact ih _ _

section ToEnd

variable {ι : Type u} [DecidableEq ι] (s : Shared ι σ Ω R β)

lemma programs_toEnd_self (i : ι) :
    (s.toEnd apply i).programs i = .done ((s.programs i).run apply s.state).2 :=
  Function.update_self _ _ _

lemma programs_toEnd_of_ne {i j : ι} (h : j ≠ i) : (s.toEnd apply i).programs j = s.programs j :=
  Function.update_of_ne h _ _

end ToEnd

/-- One after the other, each program starts from the state that the ones before it leave. -/
lemma state_inOrder {ι : Type u} [DecidableEq ι] {s : Shared ι σ Ω R β} {order : List ι}
    (h : order.Nodup) :
    (s.inOrder apply order).state =
      order.foldl (fun t i => ((s.programs i).run apply t).1) s.state := by
  induction order generalizing s with
  | nil => rfl
  | cons i order ih =>
    obtain ⟨hi, hnodup⟩ := List.nodup_cons.mp h
    refine (ih hnodup).trans (List.foldl_ext _ _ _ fun t j hj => ?_)
    have hne : j ≠ i := fun heq => hi (heq ▸ hj)
    rw [programs_toEnd_of_ne apply s hne]

end Run

/-- From a state that meets `P` the program ends with a value and a state that meet `Q`. -/
def Triple (apply : Ω → σ → σ × R) (P : σ → Prop) (p : Program Ω R β) (Q : β → σ → Prop) : Prop :=
  ∀ t, P t → Q (p.run apply t).2 (p.run apply t).1

variable {apply : Ω → σ → σ × R} {P P' : σ → Prop} {Q Q' : β → σ → Prop}

variable {p : Program Ω R β}

lemma Triple.mono (h : Triple apply P p Q) (hP : ∀ t, P' t → P t)
    (hQ : ∀ value t, Q value t → Q' value t) : Triple apply P' p Q' :=
  fun t ht => hQ _ _ (h t (hP t ht))

lemma triple_done {value : β} (h : ∀ t, P t → Q value t) :
    Triple apply P (.done value : Program Ω R β) Q :=
  h

variable {o : Ω} {I : R → σ → Prop}

variable {Q : γ → σ → Prop}

lemma triple_bind {f : β → Program Ω R γ} {I : β → σ → Prop} (hp : Triple apply P p I)
    (hf : ∀ value, Triple apply (I value) (f value) Q) : Triple apply P (p >>= f) Q := by
  intro t ht
  rw [run_bind]
  exact hf _ _ (hp t ht)

lemma triple_perform {f : R → Program Ω R γ} (hop : ∀ t, P t → I (apply o t).2 (apply o t).1)
    (hf : ∀ r, Triple apply (I r) (f r) Q) : Triple apply P (Program.perform o >>= f) Q :=
  fun t ht => hf _ _ (hop t ht)

lemma triple_of_uses (h : p.Uses fun o => ∀ t, P t → P (apply o t).1) :
    Triple apply P p fun _ => P := by
  induction p with
  | done value => exact fun _ ht => ht
  | op o next ih => exact fun t ht => ih _ (h.2 _) _ (h.1 t ht)

end OnceBuild.Lib
