import Mathlib.Data.List.Basic

/-!
# Loops that leave early

`foldUntil stop f s l` runs `f` over `l` from the state `s` and breaks off as soon as `stop` holds.
The rule `foldUntil_induct` is the usual loop rule: its invariant speaks about the elements that
are still to come, and at the exit either the break condition holds or nothing is left.
-/

namespace OnceBuild.Lib

open List

universe u v w

variable {σ : Type u} {α : Type v}

/-- `for a in l { if stop(s) { break } s = f(s, a) }`. -/
def foldUntil (stop : σ → Bool) (f : σ → α → σ) : σ → List α → σ
  | s, [] => s
  | s, a :: l => if stop s then s else foldUntil stop f (f s a) l

lemma foldUntil_induct {stop : σ → Bool} {f : σ → α → σ} (Inv : List α → σ → Prop)
    (step : ∀ a rest s, Inv (a :: rest) s → stop s = false → Inv rest (f s a)) :
    ∀ (l : List α) (s : σ), Inv l s → ∃ rest, Inv rest (foldUntil stop f s l) ∧
        (stop (foldUntil stop f s l) = true ∨ rest = []) := by
  intro l
  induction l with
  | nil =>
    intro s h
    exact ⟨[], h, Or.inr rfl⟩
  | cons a l ih =>
    intro s h
    cases hs : stop s with
    | true => exact ⟨a :: l, by simpa [foldUntil, hs] using h, Or.inl (by simp [foldUntil, hs])⟩
    | false => simpa [foldUntil, hs] using ih (f s a) (step a l s h hs)

lemma foldl_induct {f : σ → α → σ} (Inv : List α → σ → Prop)
    (step : ∀ a rest s, Inv (a :: rest) s → Inv rest (f s a)) :
    ∀ (l : List α) (s : σ), Inv l s → Inv [] (l.foldl f s) := by
  intro l
  induction l with
  | nil => exact fun s h => h
  | cons a l ih => exact fun s h => ih (f s a) (step a l s h)

lemma foldlM_induct {ε : Type w} {f : σ → α → Except ε σ} (Inv : List α → σ → Prop)
    (step : ∀ a rest s s', Inv (a :: rest) s → f s a = .ok s' → Inv rest s') :
    ∀ (l : List α) (s s' : σ), Inv l s → l.foldlM f s = .ok s' → Inv [] s' := by
  intro l
  induction l with
  | nil =>
    intro s s' h hrun
    cases hrun
    exact h
  | cons a l ih =>
    intro s s' h hrun
    rw [foldlM_cons] at hrun
    cases ha : f s a with
    | error e => simp [ha, bind, Except.bind] at hrun
    | ok next =>
      simp only [ha, bind, bind] at hrun
      exact ih next s' (step a l s next h ha) hrun

lemma foldlM_congr {m : Type u → Type w} [Monad m] {f g : σ → α → m σ} {l : List α}
    (h : ∀ a ∈ l, ∀ s, f s a = g s a) (s : σ) : l.foldlM f s = l.foldlM g s := by
  induction l generalizing s with
  | nil => rfl
  | cons a l ih =>
    rw [foldlM_cons, h a mem_cons_self s]
    congr 1
    funext s'
    exact ih (fun b hb => h b (mem_cons_of_mem a hb)) s'

lemma mapM_total {α β : Type u} {f : α → Option β} {l : List α}
    (h : ∀ a ∈ l, (f a).isSome = true) :
    ∃ results, l.mapM f = some results ∧ results.length = l.length ∧
      ∀ (i : Nat) (a : α), l[i]? = some a → results[i]? = f a := by
  induction l with
  | nil => exact ⟨[], rfl, rfl, fun i a hi => (by simp at hi)⟩
  | cons x l ih =>
    rcases Option.isSome_iff_exists.mp (h x mem_cons_self) with ⟨y, hy⟩
    rcases ih fun a ha => h a (mem_cons_of_mem _ ha) with ⟨results, hrun, hlength, hget⟩
    refine ⟨y :: results, by simp [mapM_cons, hy, hrun], by simp [hlength], fun i a hi => ?_⟩
    cases i with
    | zero =>
      cases hi
      exact hy.symm
    | succ i => exact hget i a hi

end OnceBuild.Lib
