import Mathlib.Tactic.Lemma

/-!
# Runs of a transition function

`Reachable step ok init` holds of the states that a run from `init` reaches when each of its steps
meets `ok` in the state it is taken from.
-/

namespace OnceBuild.Lib

universe u v

variable {σ : Type u} {α : Type v}

inductive Reachable (step : σ → α → Option σ) (ok : σ → α → Prop) (init : σ) : σ → Prop
  | start : Reachable step ok init init
  | step {s s' : σ} {a : α} : Reachable step ok init s → ok s a → step s a = some s' →
      Reachable step ok init s'

variable {step : σ → α → Option σ} {init s : σ}

/-- What holds at the start and is kept by every step that meets `ok` holds in every state. -/
lemma Reachable.invariant {ok : σ → α → Prop} (h : Reachable step ok init s) {P : σ → Prop}
    (base : P init) (keep : ∀ s a s', P s → ok s a → step s a = some s' → P s') : P s := by
  induction h with
  | start => exact base
  | step _ hok hstep ih => exact keep _ _ _ ih hok hstep

def runSteps (step : σ → α → Option σ) : σ → List α → Option σ
  | s, [] => some s
  | s, a :: as =>
    match step s a with
    | none => none
    | some s' => runSteps step s' as

variable {s' : σ}

lemma runSteps_cons {a : α} (h : step s a = some s') (as : List α) :
    runSteps step s (a :: as) = runSteps step s' as := by
  simp only [runSteps, h]

lemma Reachable.runSteps_of {ok : α → Prop} {as : List α}
    (h : Reachable step (fun _ a => ok a) init s) (hok : ∀ a ∈ as, ok a)
    (hrun : Lib.runSteps step s as = some s') : Reachable step (fun _ a => ok a) init s' := by
  induction as generalizing s with
  | nil =>
    cases hrun
    exact h
  | cons a as ih =>
    obtain ⟨hfirst, hrest⟩ := List.forall_mem_cons.mp hok
    cases hstep : step s a with
    | none => simp [runSteps, hstep] at hrun
    | some next =>
      rw [runSteps_cons hstep] at hrun
      exact ih (.step h hfirst hstep) hrest hrun

lemma Reachable.runSteps {as : List α} (h : Reachable step (fun _ _ => True) init s)
    (hrun : Lib.runSteps step s as = some s') : Reachable step (fun _ _ => True) init s' :=
  h.runSteps_of (fun _ _ => trivial) hrun

/-! ## Computations that may fail -/

/-- The computation goes through if and only if `c` holds, and what it gives meets `P`. -/
structure GoesThrough (x : Option σ) (c : Prop) (P : σ → Prop) : Prop where
  iff : (∃ a, x = some a) ↔ c
  keeps : ∀ a, x = some a → P a

namespace GoesThrough

variable {x : Option σ} {c d : Prop} {P : σ → Prop} {Q : α → Prop}

lemma done {a : σ} (hc : c) (h : P a) : GoesThrough (some a) c P :=
  ⟨⟨fun _ => hc, fun _ => ⟨a, rfl⟩⟩, fun _ heq => Option.some.inj heq ▸ h⟩

lemma fails (hc : ¬c) : GoesThrough none c P := ⟨⟨nofun, fun h => absurd h hc⟩, nofun⟩

lemma congr (h : GoesThrough x c P) (hiff : c ↔ d) : GoesThrough x d P :=
  ⟨h.iff.trans hiff, h.keeps⟩

lemma bind {f : σ → Option α} {e : σ → Prop} (h : GoesThrough x c P)
    (hf : ∀ a, P a → GoesThrough (f a) (e a) Q) :
    GoesThrough (x.bind f) (c ∧ ∀ a, x = some a → e a) Q := by
  cases x with
  | none => exact fails fun hc => nomatch h.iff.mpr hc.1
  | some a =>
    have ha := hf a (h.keeps a rfl)
    have hc : c := h.iff.mp ⟨a, rfl⟩
    exact ha.congr ⟨fun he => ⟨hc, fun b hb => Option.some.inj hb ▸ he⟩, fun he => he.2 a rfl⟩

lemma map {f : σ → α} (h : GoesThrough x c P) (hf : ∀ a, P a → Q (f a)) :
    GoesThrough (x.map f) c Q := by
  cases x with
  | none => exact fails fun hc => nomatch h.iff.mpr hc
  | some a => exact done (h.iff.mp ⟨a, rfl⟩) (hf a (h.keeps a rfl))

end GoesThrough

end OnceBuild.Lib
